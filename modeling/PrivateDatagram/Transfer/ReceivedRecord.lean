import PrivateDatagram.Repository.Passes
import PrivateDatagram.Transfer.FileMessage

/-!
# Whose bookkeeping is stored

A `CDBFile` is both what travels in a `file` message and what is stored.  Its
expiry date and its two flags decide what the periodic passes do with the
file, and the handler takes them from the message; it only ever sets
`isMine`.  So the node's own bookkeeping is stored exactly when the sender
wrote what the node would have written.
-/

namespace PrivateDatagram.Transfer.ReceivedRecord

open Library.ByteFormat Wire.Serialize Wire.Transaction Repository.Records
  Repository.Manager Repository.StoredFiles Repository.Runs Repository.Passes
  Downloads FileMessage

/--
The record that is due for a required file: `isMine` as the wallet says, not
removed, and the expiry date that was computed from the transaction and its
block when the file was required.
-/
def ownRecord (around : Surroundings) (fileTxHash : UInt256)
    (required : RequiredFile) (file : CDBFile) : CDBFile :=
  { file with
    fileExpiredDate := required.fileExpirationTime
    isMine := owned around fileTxHash
    removed := false }

/-- The sender wrote what the node would have written. -/
structure Honest (around : Surroundings) (fileTxHash : UInt256)
    (required : RequiredFile) (file : CDBFile) : Prop where
  expiry : file.fileExpiredDate = required.fileExpirationTime
  mine : file.isMine = true → owned around fileTxHash = true
  live : file.removed = false

/-- Two senders wrote the same, as far as the handler does not overrule it. -/
structure SameBookkeeping (around : Surroundings) (fileTxHash : UInt256)
    (left right : CDBFile) : Prop where
  expiry : left.fileExpiredDate = right.fileExpiredDate
  mine : left.isMine = right.isMine ∨ owned around fileTxHash = true
  removed : left.removed = right.removed

theorem received_eq_ownRecord_iff (around : Surroundings)
    (fileTxHash : UInt256) (required : RequiredFile) (file : CDBFile) :
    received around fileTxHash file =
        ownRecord around fileTxHash required file ↔
      Honest around fileTxHash required file := by
  unfold received ownRecord
  constructor
  · intro same
    simp only [CDBFile.mk.injEq, true_and, and_true] at same
    rcases same with ⟨expiry, mine, live⟩
    refine ⟨expiry, ?_, live⟩
    intro claimed
    rw [claimed, Bool.true_or] at mine
    exact mine.symm
  · rintro ⟨expiry, mine, live⟩
    rw [expiry, live]
    cases claimed : file.isMine with
    | false => rw [Bool.false_or]
    | true => rw [mine claimed, Bool.or_true]

theorem received_eq_iff (around : Surroundings) (fileTxHash : UInt256)
    {left right : CDBFile} (sameHash : left.fileHash = right.fileHash)
    (sameBytes : left.vBytes = right.vBytes) :
    received around fileTxHash left = received around fileTxHash right ↔
      SameBookkeeping around fileTxHash left right := by
  unfold received
  simp only [CDBFile.mk.injEq, sameHash, sameBytes, true_and, and_true]
  constructor
  · rintro ⟨expiry, mine, removed⟩
    refine ⟨expiry, ?_, removed⟩
    cases isOwned : owned around fileTxHash with
    | true => exact .inr rfl
    | false =>
        rw [isOwned, Bool.or_false, Bool.or_false] at mine
        exact .inl mine
  · rintro ⟨expiry, mine, removed⟩
    refine ⟨expiry, ?_, removed⟩
    rcases mine with same | isOwned
    · rw [same]
    · rw [isOwned, Bool.or_true, Bool.or_true]

/-! ## The stored record -/

theorem contents_of_accepted {around : Surroundings} {payload : Bytes}
    {fileTxHash : UInt256} {file : CDBFile} {node node' : Node}
    (accepted : Accepted around payload fileTxHash file node node') :
    contents around.params node'.repository file.fileHash =
      some (received around fileTxHash file) := by
  have stored := saveFile_contents accepted.admitted accepted.saved
  have fresh : (received around fileTxHash file).updateFileHash
      around.params = received around fileTxHash file := by
    unfold received CDBFile.updateFileHash
    rw [accepted.hash]
    rfl
  rw [fresh, received_calcFileHash, ← accepted.hash] at stored
  exact stored

/-- Two messages with the same bytes carry the same hash. -/
theorem fileHash_eq_of_accepted {around : Surroundings}
    {left right : Bytes} {fileTxHash : UInt256} {leftFile rightFile : CDBFile}
    {node leftNode rightNode : Node}
    (leftAccepted :
      Accepted around left fileTxHash leftFile node leftNode)
    (rightAccepted :
      Accepted around right fileTxHash rightFile node rightNode)
    (sameBytes : leftFile.vBytes = rightFile.vBytes) :
    leftFile.fileHash = rightFile.fileHash := by
  rw [leftAccepted.hash, rightAccepted.hash]
  exact congrArg around.params.hash256 sameBytes

/-- The file that a message is read as is the one that is accepted. -/
theorem accepted_of_read {around : Surroundings} {peer : NodeId}
    {payload rest : Bytes} {fileTxHash : UInt256} {file : CDBFile}
    {node node' : Node}
    (read : fileMessage.decode payload = .ok ((fileTxHash, file), rest))
    (ran : processFileMessage around peer payload node = some node')
    (removed : Removed fileTxHash node node') :
    Accepted around payload fileTxHash file node node' := by
  rcases processFileMessage_removed ran removed with ⟨file', accepted⟩
  rcases accepted.read with ⟨rest', read'⟩
  cases read.symm.trans read'
  exact accepted

/--
What a run of passes leaves of a file whose sender was honest: a foreign file
is marked as soon as recycling runs after its lifetime, an own file never is.
-/
theorem contents_later_of_honest {around : Surroundings} {payload : Bytes}
    {fileTxHash : UInt256} {file : CDBFile} {required : RequiredFile}
    {node node' : Node}
    (accepted : Accepted around payload fileTxHash file node node')
    (coherent : Coherent around.params node.repository)
    (honest : Honest around fileTxHash required file)
    {passes : List Pass} {state : RepositoryState}
    (later : Later around.params node'.repository passes state) :
    contents around.params state file.fileHash =
      some { ownRecord around fileTxHash required file with
        removed := !owned around fileTxHash &&
          passes.any (Pass.outlives required.fileExpirationTime) } := by
  rcases saveFile_spec coherent accepted.admitted accepted.saved with
    ⟨_, _, _, saved⟩
  have readable := saved.coherent.toReadable
  rw [(contents_later readable later).2, contents_of_accepted accepted,
    (received_eq_ownRecord_iff around fileTxHash required file).mpr honest]
  rfl

/--
The stored record is the node's own exactly when the sender was honest, two
messages with the same bytes are stored alike exactly when their senders
agree, and an honest message gives the file the fate that it should have in
every later run of passes that spare the files.
-/
theorem received_record_iff {around : Surroundings} {peer : NodeId}
    {payload rest : Bytes} {fileTxHash : UInt256} {file : CDBFile}
    {node node' : Node}
    (read : fileMessage.decode payload = .ok ((fileTxHash, file), rest))
    (ran : processFileMessage around peer payload node = some node')
    (removed : Removed fileTxHash node node') :
    ∃ required, node.requiredFilesMap[fileTxHash]? = some required ∧
      (contents around.params node'.repository file.fileHash =
          some (ownRecord around fileTxHash required file) ↔
        Honest around fileTxHash required file) ∧
      (∀ peer' payload' rest' file' node'',
        fileMessage.decode payload' = .ok ((fileTxHash, file'), rest') →
        processFileMessage around peer' payload' node = some node'' →
        Removed fileTxHash node node'' → file'.vBytes = file.vBytes →
          (contents around.params node''.repository file'.fileHash =
              contents around.params node'.repository file.fileHash ↔
            SameBookkeeping around fileTxHash file' file)) ∧
      (Coherent around.params node.repository →
        Honest around fileTxHash required file → ∀ passes state,
          Later around.params node'.repository passes state →
            contents around.params state file.fileHash =
              some { ownRecord around fileTxHash required file with
                removed := !owned around fileTxHash && passes.any
                  (Pass.outlives required.fileExpirationTime) }) := by
  have accepted := accepted_of_read read ran removed
  have stored := contents_of_accepted accepted
  have present : fileTxHash ∈ node.requiredFilesMap :=
    Std.ExtTreeMap.mem_iff_contains.mpr removed.1
  refine ⟨_, Std.ExtTreeMap.getElem?_eq_some_getElem present, ?_, ?_, ?_⟩
  · rw [stored, Option.some.injEq]
    exact received_eq_ownRecord_iff around fileTxHash _ file
  · intro peer' payload' rest' file' node'' read' ran' removed' sameBytes
    have accepted' := accepted_of_read read' ran' removed'
    rw [stored, contents_of_accepted accepted', Option.some.injEq]
    exact received_eq_iff around fileTxHash
      (fileHash_eq_of_accepted accepted' accepted sameBytes) sameBytes
  · intro coherent honest passes state later
    exact contents_later_of_honest accepted coherent honest later

/-! ## A sender decides -/

/-- A transfer of the byte that the messages carry. -/
def rightTransfer (params : Params) : CTransaction :=
  transferOf params (params.hash256 [1])

theorem bystander_not_owned (params : Params) (tx : CTransaction) :
    owned (bystander params tx) tx.getHash = false := by
  have found : (bystander params tx).getTransaction tx.getHash = some tx :=
    if_pos rfl
  rw [owned, found]
  rfl

/-- Whatever the hash function, two senders have different records stored. -/
theorem sender_decides_record :
    ¬ ∃ params : Params, ∀ around peer peer' payload payload' rest rest'
        fileTxHash file file' node node' node'',
      around.params = params → Coherent params node.repository →
      fileMessage.decode payload = .ok ((fileTxHash, file), rest) →
      fileMessage.decode payload' = .ok ((fileTxHash, file'), rest') →
      file.vBytes = file'.vBytes → file.fileHash = file'.fileHash →
      processFileMessage around peer payload node = some node' →
      processFileMessage around peer' payload' node = some node'' →
      Removed fileTxHash node node' → Removed fileTxHash node node'' →
        contents params node'.repository file.fileHash =
          contents params node''.repository file'.fileHash := by
  rintro ⟨params, claim⟩
  rcases oneByte_ends_download params (rightTransfer params) 100 false false
    with ⟨node', ran, removed⟩
  rcases oneByte_ends_download params (rightTransfer params) 100 true false
    with ⟨node'', ran', removed'⟩
  have read := oneByteMessage_read params (rightTransfer params) 100 false false
  have read' := oneByteMessage_read params (rightTransfer params) 100 true false
  have same := claim _ _ _ _ _ _ _ _ _ _ _ node' node'' rfl
    (invariant_start params 0 0).coherent read read' rfl rfl ran ran' removed
    removed'
  have stored := contents_of_accepted (accepted_of_read read ran removed)
  have stored' := contents_of_accepted (accepted_of_read read' ran' removed')
  have flags := congrArg CDBFile.isMine
    (Option.some.inj (stored.symm.trans (same.trans stored')))
  have foreign := bystander_not_owned params (rightTransfer params)
  simp [received, oneByte, foreign] at flags

/-- Recycling after the lifetime of the sample transfer. -/
def afterLifetime : Pass :=
  .findAndRecycleExpiredFiles ⟨4000, 4000, 0x1000000000, false, false⟩

theorem received_record_iff_oneByte :
    ∃ node',
      processFileMessage (bystander sampleParams (rightTransfer sampleParams))
          0
          (oneByteMessage sampleParams (rightTransfer sampleParams) 3600 false
            false)
          (waitingFor (rightTransfer sampleParams)) = some node' ∧
        contents sampleParams
            (afterLifetime.perform sampleParams node'.repository) 1 =
          some ⟨1, 3600, false, true, [1]⟩ := by
  have read := oneByteMessage_read sampleParams (rightTransfer sampleParams)
    3600 false false
  rcases oneByte_ends_download sampleParams (rightTransfer sampleParams) 3600
    false false with ⟨node', ran, removed⟩
  refine ⟨node', ran, ?_⟩
  rcases received_record_iff read ran removed with
    ⟨required, entry, _, _, later⟩
  have known : required = ⟨0, 3600⟩ := by
    rw [waitingFor, Std.ExtTreeMap.getElem?_insert_self] at entry
    exact (Option.some.inj entry).symm
  subst known
  have foreign := bystander_not_owned sampleParams (rightTransfer sampleParams)
  have recycledOnce := later (invariant_start sampleParams 0 0).coherent
    ⟨rfl, by simp [oneByte], rfl⟩ _ _ (.pass afterLifetime .start trivial)
  rw [foreign] at recycledOnce
  have hash : (oneByte sampleParams 3600 false false).fileHash = 1 := by
    decide
  rw [hash] at recycledOnce
  refine recycledOnce.trans (congrArg some ?_)
  simp only [ownRecord, foreign]
  decide

end PrivateDatagram.Transfer.ReceivedRecord
