import PrivateDatagram.Repository.Runs
import PrivateDatagram.Transfer.Downloads

/-!
# The file that arrives

The handler of a `file` message ends a download when the message's own hash
is the hash of its bytes.  Nothing compares that hash with the one in the
transaction, so the download of one file is ended by any other.

A message that ends a download is first inverted into its parts; the theorem
then says when the repository has the promised file afterwards.
-/

namespace PrivateDatagram.Transfer.FileMessage

open Library.ByteFormat Wire.Serialize Wire.Transaction Repository.Records
  Repository.Manager Repository.StoredFiles Repository.Runs Downloads

/-! ## Reading the message -/

/-- A file that was read from the network is small enough to store. -/
theorem fileMessage_admitted {payload rest : Bytes}
    {message : UInt256 × CDBFile}
    (read : fileMessage.decode payload = .ok (message, rest)) :
    Admitted message.2 := by
  rcases bind_ok read with ⟨fileTxHash, afterHash, _, readFile⟩
  rcases bind_ok readFile with ⟨file, afterFile, fileRead, returned⟩
  rcases pure_ok returned with ⟨rfl, rfl⟩
  rcases bind_ok fileRead with ⟨fields, afterFields, fieldsRead, renamed⟩
  rcases pure_ok renamed with ⟨rfl, rfl⟩
  rcases bind_ok fieldsRead with ⟨header, afterHeader, _, readBlob⟩
  rcases bind_ok readBlob with ⟨vBytes, afterBytes, bytesRead, paired⟩
  rcases pure_ok paired with ⟨rfl, rfl⟩
  exact (blob_canonical _ _ _ bytesRead).1

/-- The hash of the bytes in a message. -/
def contentHash (params : Params) (payload : Bytes) : Option UInt256 :=
  match fileMessage.decode payload with
  | .error _ => none
  | .ok (message, _) => some (message.2.calcFileHash params)

/-! ## What ends a download -/

/-- The handler has taken the hash off the map of required files. -/
def Removed (fileTxHash : UInt256) (node node' : Node) : Prop :=
  node.requiredFilesMap.contains fileTxHash = true ∧
    node'.requiredFilesMap.contains fileTxHash = false

/-- Whether the wallet owns the transaction. -/
def owned (around : Surroundings) (fileTxHash : UInt256) : Bool :=
  match around.getTransaction fileTxHash, around.pwalletMain with
  | some tx, some isMine => isMine tx
  | _, _ => false

/-- The handler stores the file of the message and changes one flag. -/
def received (around : Surroundings) (fileTxHash : UInt256)
    (file : CDBFile) : CDBFile :=
  { file with isMine := file.isMine || owned around fileTxHash }

theorem received_calcFileHash (around : Surroundings) (fileTxHash : UInt256)
    (file : CDBFile) (params : Params) :
    (received around fileTxHash file).calcFileHash params =
      file.calcFileHash params :=
  rfl

theorem markMine_some {around : Surroundings} {fileTxHash : UInt256}
    {file marked : CDBFile}
    (done : markMine around fileTxHash file = some marked) :
    marked = received around fileTxHash file := by
  unfold markMine at done
  unfold received owned
  cases found : around.getTransaction fileTxHash with
  | none =>
      rw [found] at done
      cases done
      simp
  | some tx =>
      rw [found] at done
      cases wallet : around.pwalletMain with
      | none =>
          rw [wallet] at done
          cases done
      | some isMine =>
          rw [wallet] at done
          cases done
          cases mine : isMine tx <;> simp [mine]

/-- The parts of a message that ends a download. -/
structure Accepted (around : Surroundings) (payload : Bytes)
    (fileTxHash : UInt256) (file : CDBFile) (node node' : Node) : Prop where
  read : ∃ rest,
    fileMessage.decode payload = .ok ((fileTxHash, file), rest)
  required : node.requiredFilesMap.contains fileTxHash = true
  hash : file.fileHash = file.calcFileHash around.params
  saved : saveFile around.params around.storage
    (received around fileTxHash file) node.repository =
      (true, node'.repository)

theorem Accepted.admitted {around : Surroundings} {payload : Bytes}
    {fileTxHash : UInt256} {file : CDBFile} {node node' : Node}
    (accepted : Accepted around payload fileTxHash file node node') :
    Admitted (received around fileTxHash file) := by
  rcases accepted.read with ⟨rest, read⟩
  exact fileMessage_admitted read

theorem Accepted.contentHash {around : Surroundings} {payload : Bytes}
    {fileTxHash : UInt256} {file : CDBFile} {node node' : Node}
    (accepted : Accepted around payload fileTxHash file node node') :
    contentHash around.params payload =
      some (file.calcFileHash around.params) := by
  rcases accepted.read with ⟨rest, read⟩
  rw [FileMessage.contentHash, read]

theorem acceptFile_removed {around : Surroundings}
    {messageHash fileTxHash : UInt256} {file : CDBFile} {node node' : Node}
    (done : acceptFile around messageHash file node = some node')
    (removed : Removed fileTxHash node node') :
    fileTxHash = messageHash ∧
      saveFile around.params around.storage
        (received around messageHash file) node.repository =
          (true, node'.repository) := by
  unfold acceptFile at done
  split at done
  · cases done
  case h_2 marked isMarked =>
    have same := markMine_some isMarked
    subst same
    rcases call : saveFile around.params around.storage
      (received around messageHash file) node.repository with
      ⟨success, repository⟩
    rw [call] at done
    cases success with
    | false =>
        cases done
        exact absurd (removed.1.symm.trans removed.2) (by simp)
    | true =>
        cases done
        refine ⟨?_, rfl⟩
        by_contra different
        have kept := removed.2
        rw [Std.ExtTreeMap.contains_erase, removed.1] at kept
        simp [Ne.symm different] at kept

/-- Only a message that is stored ends a download, and only its own. -/
theorem processFileMessage_removed {around : Surroundings} {peer : NodeId}
    {payload : Bytes} {fileTxHash : UInt256} {node node' : Node}
    (ran : processFileMessage around peer payload node = some node')
    (removed : Removed fileTxHash node node') :
    ∃ file, Accepted around payload fileTxHash file node node' := by
  have unchanged : node'.requiredFilesMap = node.requiredFilesMap → False := by
    intro same
    rw [Removed, same] at removed
    exact absurd (removed.1.symm.trans removed.2) (by simp)
  unfold processFileMessage at ran
  split at ran
  · cases ran
    exact (unchanged rfl).elim
  case h_2 message rest read =>
    rcases message with ⟨messageHash, file⟩
    unfold fileReceived at ran
    dsimp only at ran
    split_ifs at ran with absent mismatch
    · cases ran
      exact (unchanged rfl).elim
    · cases ran
      exact (unchanged rfl).elim
    · rcases acceptFile_removed ran removed with ⟨rfl, saved⟩
      refine ⟨file, ⟨rest, read⟩, removed.1, ?_, saved⟩
      exact not_not.mp mismatch

/-- A required file under its right hash ends the download once it is saved. -/
theorem processFileMessage_ends {around : Surroundings} {peer : NodeId}
    {payload rest : Bytes} {fileTxHash : UInt256} {file marked : CDBFile}
    {node : Node}
    (read : fileMessage.decode payload = .ok ((fileTxHash, file), rest))
    (required : node.requiredFilesMap.contains fileTxHash = true)
    (hash : file.fileHash = file.calcFileHash around.params)
    (isMarked : markMine around fileTxHash file = some marked)
    (saved : (saveFile around.params around.storage marked
      node.repository).1 = true) :
    ∃ node', processFileMessage around peer payload node = some node' ∧
      Removed fileTxHash node node' := by
  rcases call : saveFile around.params around.storage marked node.repository
    with ⟨success, repository⟩
  rw [call] at saved
  cases saved
  have erased :
      (node.requiredFilesMap.erase fileTxHash).contains fileTxHash = false := by
    rw [Std.ExtTreeMap.contains_erase]
    simp
  refine ⟨{ node with
      filesInFlightMap := node.filesInFlightMap.erase fileTxHash
      repository := repository
      filesPendingMap := node.filesPendingMap.erase fileTxHash
      knownHasFilesMap := node.knownHasFilesMap.erase fileTxHash
      requiredFilesMap := node.requiredFilesMap.erase fileTxHash },
    ?_, required, erased⟩
  rw [processFileMessage, read]
  dsimp only
  rw [fileReceived]
  dsimp only
  rw [required, if_neg (by simp), if_neg (not_not_intro hash), acceptFile,
    isMarked]
  dsimp only
  rw [call, if_pos rfl]

/-! ## The promised file -/

/-- The repository has a file with this content hash. -/
def HoldsContent (params : Params) (state : RepositoryState)
    (hash : UInt256) : Prop :=
  ∃ key file, contents params state key = some file ∧
    file.calcFileHash params = hash

/-- It has the file that the transaction announces, `vfiles[0].fileHash`. -/
def HoldsPromised (params : Params) (state : RepositoryState)
    (tx : CTransaction) : Prop :=
  ∃ first, tx.vfiles.head? = some first ∧
    HoldsContent params state first.fileHash

/-- The bytes of the message are those that the transaction announces. -/
def CarriesPromised (params : Params) (payload : Bytes)
    (tx : CTransaction) : Prop :=
  ∃ first, tx.vfiles.head? = some first ∧
    contentHash params payload = some first.fileHash

theorem holdsContent_of_saved {params : Params} {environment : Environment}
    {file : CDBFile} {state state' : RepositoryState}
    (admitted : Admitted file)
    (saved : saveFile params environment file state = (true, state')) :
    HoldsContent params state' (file.calcFileHash params) :=
  ⟨_, _, saveFile_contents admitted saved, rfl⟩

/-- In a coherent repository a file stands under the hash of its content. -/
theorem calcFileHash_of_contents {params : Params} {state : RepositoryState}
    (coherent : Coherent params state) {key : UInt256} {file : CDBFile}
    (found : contents params state key = some file) :
    file.calcFileHash params = key := by
  cases entry : state.pblockfiletree.fileIndex[key]? with
  | none =>
      rw [contents_of_absent params entry] at found
      cases found
  | some pos =>
      rcases coherent.held key pos entry with ⟨held, holds, _, hash⟩
      rw [contents_of_holds entry holds] at found
      cases found
      exact hash

theorem holdsContent_iff {params : Params} {state : RepositoryState}
    (coherent : Coherent params state) (hash : UInt256) :
    HoldsContent params state hash ↔
      (contents params state hash).isSome := by
  constructor
  · rintro ⟨key, file, found, rfl⟩
    rw [calcFileHash_of_contents coherent found, found]
    rfl
  · intro present
    rcases Option.isSome_iff_exists.mp present with ⟨file, found⟩
    exact ⟨hash, file, found, calcFileHash_of_contents coherent found⟩

/-- A save adds the content it saves and no other. -/
theorem holdsContent_saved_iff {params : Params} {environment : Environment}
    {file : CDBFile} {state state' : RepositoryState}
    (coherent : Coherent params state) (admitted : Admitted file)
    (saved : saveFile params environment file state = (true, state'))
    (hash : UInt256) :
    HoldsContent params state' hash ↔
      file.calcFileHash params = hash ∨ HoldsContent params state hash := by
  rcases saveFile_spec coherent admitted saved with ⟨_, _, _, after⟩
  rw [holdsContent_iff after.coherent, holdsContent_iff coherent,
    after.contents]
  by_cases same : hash = file.calcFileHash params
  · subst same
    rw [Function.update_self]
    simp
  · rw [Function.update_of_ne same]
    simp [Ne.symm same]

theorem Accepted.holdsPromised {around : Surroundings} {payload : Bytes}
    {fileTxHash : UInt256} {file : CDBFile} {node node' : Node}
    (accepted : Accepted around payload fileTxHash file node node')
    {tx : CTransaction}
    (carries : CarriesPromised around.params payload tx) :
    HoldsPromised around.params node'.repository tx := by
  rcases carries with ⟨first, announced, carries⟩
  have stored := holdsContent_of_saved accepted.admitted accepted.saved
  rw [accepted.contentHash] at carries
  rw [received_calcFileHash, Option.some.inj carries] at stored
  exact ⟨first, announced, stored⟩

theorem Accepted.holdsPromised_iff {around : Surroundings} {payload : Bytes}
    {fileTxHash : UInt256} {file : CDBFile} {node node' : Node}
    (accepted : Accepted around payload fileTxHash file node node')
    (coherent : Coherent around.params node.repository)
    (tx : CTransaction) :
    HoldsPromised around.params node'.repository tx ↔
      CarriesPromised around.params payload tx ∨
        HoldsPromised around.params node.repository tx := by
  have added := holdsContent_saved_iff coherent accepted.admitted
    accepted.saved
  constructor
  · rintro ⟨first, announced, holds⟩
    rcases (added first.fileHash).mp holds with carries | before
    · left
      exact ⟨first, announced,
        accepted.contentHash.trans (congrArg some carries)⟩
    · exact .inr ⟨first, announced, before⟩
  · rintro (carries | ⟨first, announced, before⟩)
    · exact accepted.holdsPromised carries
    · exact ⟨first, announced, (added first.fileHash).mpr (.inr before)⟩

/--
Whenever the handler takes a hash off the map of required files, the promised
file is in the repository if the message carried its bytes; otherwise only if
it had been there before.
-/
theorem received_file_promised_iff {around : Surroundings} {peer : NodeId}
    {payload : Bytes} {fileTxHash : UInt256} {node node' : Node}
    (ran : processFileMessage around peer payload node = some node')
    (removed : Removed fileTxHash node node') :
    ∀ tx : CTransaction, tx.getHash = fileTxHash →
      (CarriesPromised around.params payload tx →
        HoldsPromised around.params node'.repository tx) ∧
      (Coherent around.params node.repository →
        (HoldsPromised around.params node'.repository tx ↔
          CarriesPromised around.params payload tx ∨
            HoldsPromised around.params node.repository tx)) := by
  intro tx _
  rcases processFileMessage_removed ran removed with ⟨file, accepted⟩
  exact ⟨accepted.holdsPromised,
    fun coherent => accepted.holdsPromised_iff coherent tx⟩

/-! ## Another file ends the download -/

/-- A transfer of one file, to be kept for an hour. -/
def transferOf (params : Params) (fileHash : UInt256) : CTransaction :=
  .ofMutable params.hash256
    { nVersion := 1
      type := txFileTransfer
      vin := [⟨⟨7, 0⟩, [0x51], 0xffffffff⟩]
      vout := [⟨5, [0x52, 0x53]⟩]
      metadata := .fileMeta ⟨txMetaFile, 9, [1, 2, 3]⟩
      vfiles := [⟨fileHash, 3600, 0⟩]
      nLockTime := 0 }

/-- A node that waits for the file of one transaction. -/
def waitingFor (tx : CTransaction) : Node where
  requiredFilesMap := Std.ExtTreeMap.insert ∅ tx.getHash ⟨0, 3600⟩
  filesPendingMap := ∅
  filesInFlightMap := ∅
  knownHasFilesMap := ∅
  nMisbehavior := fun _ => some 0
  repository := emptyRepository 0 0

/-- It finds the transaction, which is not its own, and has room on disk. -/
def bystander (params : Params) (tx : CTransaction) : Surroundings where
  params := params
  storage := roomyDisk
  timeMicros := 0
  getTransaction := fun hash => if hash = tx.getHash then some tx else none
  pwalletMain := some fun _ => false
  fMasterNode := true
  findNode := fun _ => none
  broadcasts := true
  locksFree := true

/-- One byte under its right hash, with what its sender chose besides. -/
def oneByte (params : Params) (fileExpiredDate : UInt32)
    (isMine removed : Bool) : CDBFile :=
  ⟨params.hash256 [1], fileExpiredDate, isMine, removed, [1]⟩

def oneByteMessage (params : Params) (tx : CTransaction)
    (fileExpiredDate : UInt32) (isMine removed : Bool) : Bytes :=
  fileMessage.encode
    (tx.getHash, oneByte params fileExpiredDate isMine removed)

section OneByte

variable (params : Params) (tx : CTransaction) (fileExpiredDate : UInt32)
  (isMine removed : Bool)

theorem oneByte_admitted :
    Admitted (oneByte params fileExpiredDate isMine removed) := by
  change 1 ≤ maxSize
  decide

theorem oneByteMessage_read :
    fileMessage.decode
        (oneByteMessage params tx fileExpiredDate isMine removed) =
      .ok ((tx.getHash, oneByte params fileExpiredDate isMine removed),
        []) := by
  have whole := fileMessage.lossless
    (tx.getHash, oneByte params fileExpiredDate isMine removed)
    ⟨trivial,
      file_fits (oneByte_admitted params fileExpiredDate isMine removed)⟩ []
  rw [List.append_nil] at whole
  exact whole

theorem oneByte_size :
    getRepositoryFileSize params
      (oneByte params fileExpiredDate isMine removed) = 48 := by
  apply UInt32.toNat_inj.mp
  rw [getRepositoryFileSize_toNat params (oneByte_admitted ..),
    diskRecord_serialize_length, encode_length]
  rfl

theorem oneByte_saved :
    (saveFile params roomyDisk
      (oneByte params fileExpiredDate isMine removed)
      (emptyRepository 0 0)).1 = true := by
  have room : (allocate roomyDisk 48 (emptyRepository 0 0)).1 =
      some ⟨0, 0, 48⟩ := by
    decide +kernel
  have call : allocate roomyDisk
      (getRepositoryFileSize params
        (oneByte params fileExpiredDate isMine removed))
      (emptyRepository 0 0) =
        (some ⟨0, 0, 48⟩, (allocate roomyDisk 48 (emptyRepository 0 0)).2) := by
    rw [oneByte_size]
    exact Prod.ext room rfl
  exact saveFile_succeeds call rfl rfl

theorem oneByte_ends_download :
    ∃ node', processFileMessage (bystander params tx) 0
        (oneByteMessage params tx fileExpiredDate isMine removed)
        (waitingFor tx) = some node' ∧
      Removed tx.getHash (waitingFor tx) node' := by
  have marked : markMine (bystander params tx) tx.getHash
      (oneByte params fileExpiredDate isMine removed) =
        some (oneByte params fileExpiredDate isMine removed) := by
    have found : (bystander params tx).getTransaction tx.getHash = some tx :=
      if_pos rfl
    rw [markMine, found]
    rfl
  exact processFileMessage_ends
    (oneByteMessage_read params tx fileExpiredDate isMine removed)
    Std.ExtTreeMap.contains_insert_self rfl marked
    (oneByte_saved params fileExpiredDate isMine removed)

end OneByte

/-- A transfer that announces some other bytes. -/
def unrelatedTransfer (params : Params) : CTransaction :=
  transferOf params (params.hash256 [1] + 1)

theorem oneByte_not_promised (params : Params) :
    ¬ CarriesPromised params
      (oneByteMessage params (unrelatedTransfer params) 100 false false)
      (unrelatedTransfer params) := by
  rintro ⟨first, announced, carries⟩
  cases announced
  rw [contentHash, oneByteMessage_read] at carries
  have same : params.hash256 [1] = params.hash256 [1] + 1 :=
    Option.some.inj carries
  simp at same

theorem emptyRepository_not_promised (params : Params) (tx : CTransaction) :
    ¬ HoldsPromised params (emptyRepository 0 0) tx := by
  rintro ⟨first, _, key, file, found, _⟩
  rw [contents_of_absent params Std.ExtTreeMap.getElem?_empty] at found
  cases found

/-- Whatever the hash function, some message ends the download of another file. -/
theorem received_file_not_promised :
    ¬ ∃ params : Params, ∀ around peer payload node node' fileTxHash tx,
      around.params = params → Coherent params node.repository →
      tx.type = txFileTransfer → tx.getHash = fileTxHash →
      around.getTransaction fileTxHash = some tx →
      processFileMessage around peer payload node = some node' →
      Removed fileTxHash node node' →
        HoldsPromised params node'.repository tx := by
  rintro ⟨params, claim⟩
  have coherent : Coherent params
      (waitingFor (unrelatedTransfer params)).repository :=
    (invariant_start params 0 0).coherent
  rcases oneByte_ends_download params (unrelatedTransfer params) 100 false
    false with ⟨node', ran, removed⟩
  rcases processFileMessage_removed ran removed with ⟨file, accepted⟩
  have promised := claim _ _ _ _ _ _ (unrelatedTransfer params) rfl coherent
    rfl rfl (if_pos rfl) ran removed
  rcases (accepted.holdsPromised_iff coherent _).mp promised with
    carries | before
  · exact oneByte_not_promised params carries
  · exact emptyRepository_not_promised params _ before

theorem received_file_promised_iff_oneByte :
    ∃ node',
      processFileMessage
          (bystander sampleParams (unrelatedTransfer sampleParams)) 0
          (oneByteMessage sampleParams (unrelatedTransfer sampleParams) 100
            false false)
          (waitingFor (unrelatedTransfer sampleParams)) = some node' ∧
        ¬ HoldsPromised sampleParams node'.repository
          (unrelatedTransfer sampleParams) := by
  rcases oneByte_ends_download sampleParams (unrelatedTransfer sampleParams)
    100 false false with ⟨node', ran, removed⟩
  refine ⟨node', ran, ?_⟩
  intro promised
  have exactly := received_file_promised_iff ran removed
    (unrelatedTransfer sampleParams) rfl
  rcases (exactly.2 (invariant_start sampleParams 0 0).coherent).mp promised
    with carries | before
  · exact oneByte_not_promised sampleParams carries
  · exact emptyRepository_not_promised sampleParams _ before

end PrivateDatagram.Transfer.FileMessage
