import PrivateDatagram.Repository.Runs
import PrivateDatagram.Transfer.Downloads

/-!
# The state of the downloads

Handlers and the scheduler edit three maps.  A file in flight should be
pending and a pending file required, and a peer should not be asked for many
files at once.

The last of these holds in every run, because `FindFreeNode` passes over
peers that are in use.  The others hold in every run in which the scheduler
takes neither of two branches: one drops a stalled file from the pending
files and leaves it in flight, the other drops an expired file from the
required files and leaves it pending.
-/

namespace PrivateDatagram.Transfer.DownloadState

open Library.ByteFormat Wire.Serialize Wire.Transaction Repository.Manager
  Repository.Runs Downloads

/-! ## Runs -/

inductive Event where
  /-- `HandleFileTransferTx` of a block. -/
  | blockConnected (blockTime : UInt32) (vtx : List CTransaction)
  | hasFileAnnounced (peer : NodeId) (hash : UInt256)
  | fileMessage (peer : NodeId) (payload : Bytes)
  | nodeDisconnected (peer : NodeId)
  /-- `ProcessFilesPendingScheduler`. -/
  | schedulerTick

def Event.apply (around : Surroundings) : Event → Node → Option Node
  | .blockConnected blockTime vtx, node =>
      handleFileTransferTx around blockTime vtx node
  | .hasFileAnnounced peer hash, node =>
      some (Downloads.hasFileAnnounced around peer hash node)
  | .fileMessage peer payload, node =>
      processFileMessage around peer payload node
  | .nodeDisconnected peer, node => some (finalizeNode peer node)
  | .schedulerTick, node => processFilesPendingScheduler around node

/--
A node that has just started: the required files are those it had written to
its database, and nothing is known or being downloaded.
-/
structure Started (node : Node) : Prop where
  pending : node.filesPendingMap = ∅
  inFlight : node.filesInFlightMap = ∅
  known : node.knownHasFilesMap = ∅

/-- The states of all runs whose steps are allowed. -/
inductive Reachable (Allowed : Surroundings → Event → Node → Prop) :
    Node → Prop where
  | start {node : Node} (started : Started node) : Reachable Allowed node
  | step {node node' : Node} (around : Surroundings) (event : Event)
      (reached : Reachable Allowed node)
      (allowed : Allowed around event node)
      (ran : event.apply around node = some node') :
      Reachable Allowed node'

/-! ## The two branches -/

/-- A stalled file without another peer is dropped, but stays in flight. -/
def DropsInFlight (around : Surroundings) (fileTxHash : UInt256)
    (node : Node) : Prop :=
  ∃ pending fileInFlight,
    node.filesPendingMap[fileTxHash]? = some pending ∧
    node.filesInFlightMap[fileTxHash]? = some fileInFlight ∧
    around.timeMicros > fileInFlight.nTime + fileStallingTimeout ∧
    ((pending.nodes.erase fileInFlight.nodeId).isEmpty = true ∨
      findFreeNode around node (pending.nodes.erase fileInFlight.nodeId) =
        none)

/-- No round of the loop over the pending files takes that branch. -/
def SparesInFlight (around : Surroundings) : List UInt256 → Node → Prop
  | [], _ => True
  | fileTxHash :: rest, node =>
      ¬ DropsInFlight around fileTxHash node ∧
        SparesInFlight around rest (processPendingFile around fileTxHash node)

/--
No round of the loop over the required files drops an expired file that is
pending.  The rounds are those of `collectRequired`.
-/
def SparesPending (around : Surroundings) :
    List UInt256 → List UInt256 → Node → Prop
  | [], _, _ => True
  | fileTxHash :: rest, vRequiredToBroadcast, node =>
      match node.requiredFilesMap[fileTxHash]? with
      | none => SparesPending around rest vRequiredToBroadcast node
      | some required =>
          if around.storage.adjustedTime > required.fileExpirationTime.toNat then
            fileTxHash ∉ node.filesPendingMap ∧
              SparesPending around rest vRequiredToBroadcast
                (eraseRequired fileTxHash node)
          else if node.filesPendingMap.contains fileTxHash then
            SparesPending around rest vRequiredToBroadcast node
          else
            match node.knownHasFilesMap[fileTxHash]? with
            | some known =>
                SparesPending around rest vRequiredToBroadcast
                  (addPending fileTxHash known.2 node)
            | none =>
                if around.timeMicros > required.requestExpirationTime then
                  let vRequiredToBroadcast :=
                    vRequiredToBroadcast ++ [fileTxHash]
                  if vRequiredToBroadcast.length > maxFileSendCount then
                    True
                  else
                    SparesPending around rest vRequiredToBroadcast node
                else
                  SparesPending around rest vRequiredToBroadcast node

/-- The scheduler takes neither branch. -/
def Spares (around : Surroundings) : Event → Node → Prop
  | .schedulerTick, node =>
      around.locksFree = true →
        SparesInFlight around node.filesPendingMap.keys node ∧
          let node :=
            processPendingFiles around node.filesPendingMap.keys node
          SparesPending around node.requiredFilesMap.keys [] node
  | _, _ => True

/-! ## One file per peer -/

/-- A peer has been asked for one file at most. -/
def OnePerPeer (node : Node) : Prop :=
  ∀ (left right : UInt256) (leftFile rightFile : QueuedFile),
    node.filesInFlightMap[left]? = some leftFile →
    node.filesInFlightMap[right]? = some rightFile →
    leftFile.nodeId = rightFile.nodeId → left = right

theorem inUse_of_inFlight {node : Node} {hash : UInt256} {file : QueuedFile}
    (here : node.filesInFlightMap[hash]? = some file) :
    inUse node file.nodeId = true := by
  have member : (hash, file) ∈ node.filesInFlightMap.toList :=
    Std.ExtTreeMap.mem_toList_iff_getElem?_eq_some.mpr here
  unfold inUse
  rw [List.any_eq_true]
  exact ⟨(hash, file), member, by simp⟩

/-- `FindFreeNode` only ever returns a peer that is not in use. -/
theorem findFreeNodeAfter_free {around : Surroundings} {node : Node}
    {nodes : List NodeId} {pNode : Option NodeId} {id : NodeId}
    (before : ∀ other, pNode = some other → inUse node other = false)
    (found : findFreeNodeAfter around node pNode nodes = some id) :
    inUse node id = false := by
  induction nodes generalizing pNode with
  | nil => exact before id found
  | cons head rest ih =>
      rw [findFreeNodeAfter] at found
      cases busy : inUse node head with
      | true =>
          rw [busy, if_pos rfl] at found
          exact ih before found
      | false =>
          rw [busy, if_neg (by simp)] at found
          split at found
          · exact ih (fun _ none => by cases none) found
          · split_ifs at found
            · refine ih ?_ found
              rintro other ⟨⟩
              exact busy
            · cases found
              exact busy

theorem findFreeNode_free {around : Surroundings} {node : Node}
    {nodes : Std.ExtTreeSet NodeId} {id : NodeId}
    (found : findFreeNode around node nodes = some id) :
    inUse node id = false :=
  findFreeNodeAfter_free (fun _ none => by cases none) found

/-! ## What a round of the scheduler does -/

theorem getElem?_insert_file (files : Std.ExtTreeMap UInt256 QueuedFile)
    (hash other : UInt256) (file : QueuedFile) :
    (files.insert hash file)[other]? =
      if other = hash then some file else files[other]? := by
  rw [Std.ExtTreeMap.getElem?_insert]
  by_cases same : other = hash
  · subst same
    simp
  · simp [same, Ne.symm same]

/-- An entry that is replaced keeps its place. -/
theorem mem_insert_present {β : Type} {map : Std.ExtTreeMap UInt256 β}
    {key : UInt256} (present : key ∈ map) (value : β) (hash : UInt256) :
    hash ∈ map.insert key value ↔ hash ∈ map := by
  rw [Std.ExtTreeMap.mem_insert]
  constructor
  · rintro (same | old)
    · rw [← Std.LawfulEqOrd.eq_of_compare same]
      exact present
    · exact old
  · exact .inr

/-- A file that has stalled is given up, or asked for at another peer. -/
theorem resendFile_cases (around : Surroundings) (fileTxHash : UInt256)
    {node : Node} {pending : FilePending} {fileInFlight : QueuedFile}
    (present : fileTxHash ∈ node.filesPendingMap) :
    (resendFile around fileTxHash pending fileInFlight node =
        erasePending fileTxHash node ∧
      ((pending.nodes.erase fileInFlight.nodeId).isEmpty = true ∨
        findFreeNode around node
          (pending.nodes.erase fileInFlight.nodeId) = none)) ∨
    ∃ id filesPendingMap, inUse node id = false ∧
      (∀ hash, hash ∈ filesPendingMap ↔ hash ∈ node.filesPendingMap) ∧
      resendFile around fileTxHash pending fileInFlight node =
        sendFileRequest around fileTxHash id { node with filesPendingMap } := by
  rw [resendFile]
  split_ifs with nobody
  · exact .inl ⟨rfl, .inl nobody⟩
  · cases free : findFreeNode around node
      (pending.nodes.erase fileInFlight.nodeId) with
    | none => exact .inl ⟨rfl, .inr rfl⟩
    | some id =>
        exact .inr ⟨id, _, findFreeNode_free free,
          mem_insert_present present _, rfl⟩

/-- A round of the loop over the pending files, in all its cases. -/
theorem processPendingFile_cases (around : Surroundings)
    (fileTxHash : UInt256) (node : Node) :
    processPendingFile around fileTxHash node = node ∨
    (processPendingFile around fileTxHash node =
        erasePending fileTxHash node ∧
      (fileTxHash ∉ node.filesInFlightMap ∨
        DropsInFlight around fileTxHash node)) ∨
    ∃ id filesPendingMap, inUse node id = false ∧
      fileTxHash ∈ node.filesPendingMap ∧
      (∀ hash, hash ∈ filesPendingMap ↔ hash ∈ node.filesPendingMap) ∧
      processPendingFile around fileTxHash node =
        sendFileRequest around fileTxHash id { node with filesPendingMap } := by
  unfold processPendingFile
  cases isPending : node.filesPendingMap[fileTxHash]? with
  | none => exact .inl rfl
  | some pending =>
      have present : fileTxHash ∈ node.filesPendingMap := by
        rw [Std.ExtTreeMap.mem_iff_isSome_getElem?, isPending]
        rfl
      cases isInFlight : node.filesInFlightMap[fileTxHash]? with
      | none =>
          have absent : fileTxHash ∉ node.filesInFlightMap := by
            rw [Std.ExtTreeMap.mem_iff_isSome_getElem?, isInFlight]
            simp
          dsimp only
          split_ifs
          · cases free : findFreeNode around node pending.nodes with
            | none => exact .inr (.inl ⟨rfl, .inl absent⟩)
            | some id =>
                refine .inr (.inr ⟨id, node.filesPendingMap,
                  findFreeNode_free free, present, fun _ => Iff.rfl, rfl⟩)
          · exact .inl rfl
      | some fileInFlight =>
          dsimp only
          split_ifs with stalled
          · rcases resendFile_cases around fileTxHash present with
              ⟨done, gaveUp⟩ | ⟨id, map, free, same, done⟩
            · exact .inr (.inl ⟨done, .inr ⟨pending, fileInFlight, isPending,
                isInFlight, stalled, gaveUp⟩⟩)
            · exact .inr (.inr ⟨id, map, free, present, same, done⟩)
          · exact .inl rfl

/-! ## Steps that leave the downloads alone -/

/-- Files may have become required; the other two maps are as before. -/
structure Grows (node node' : Node) : Prop where
  required : ∀ hash, hash ∈ node.requiredFilesMap →
    hash ∈ node'.requiredFilesMap
  pending : node'.filesPendingMap = node.filesPendingMap
  inFlight : node'.filesInFlightMap = node.filesInFlightMap

theorem Grows.refl (node : Node) : Grows node node :=
  ⟨fun _ here => here, rfl, rfl⟩

theorem Grows.trans {first second third : Node} (left : Grows first second)
    (right : Grows second third) : Grows first third where
  required hash here := right.required hash (left.required hash here)
  pending := right.pending.trans left.pending
  inFlight := right.inFlight.trans left.inFlight

theorem grows_setRequestExpiration (time : Int) (hash : UInt256)
    (node : Node) : Grows node (setRequestExpiration time hash node) where
  required _ here := Std.ExtTreeMap.mem_insert.mpr (.inr here)
  pending := rfl
  inFlight := rfl

theorem grows_requireFile {around : Surroundings} {blockTime : UInt32}
    {tx : CTransaction} {node node' : Node}
    (ran : requireFile around blockTime tx node = some node') :
    Grows node node' := by
  unfold requireFile at ran
  split_ifs at ran
  · cases ran
    exact Grows.refl node
  · split at ran
    · cases ran
    · cases ran
      exact Grows.refl node
    · split at ran
      · cases ran
      case h_2 file _ _ =>
        have added : Grows node
            { node with
              requiredFilesMap := node.requiredFilesMap.insert tx.getHash
                ⟨around.timeMicros + requiredFileRequestTimeout,
                  blockTime + file.nLifeTime⟩ } :=
          ⟨fun _ here => Std.ExtTreeMap.mem_insert.mpr (.inr here), rfl, rfl⟩
        dsimp only at ran
        split_ifs at ran
        · cases ran
          exact added.trans (grows_setRequestExpiration _ _ _)
        · cases ran
          exact added

theorem grows_handleFileTransferTx {around : Surroundings}
    {blockTime : UInt32} {vtx : List CTransaction} {node node' : Node}
    (ran : handleFileTransferTx around blockTime vtx node = some node') :
    Grows node node' := by
  induction vtx generalizing node with
  | nil =>
      cases ran
      exact Grows.refl _
  | cons tx rest ih =>
      rw [handleFileTransferTx] at ran
      split at ran
      · cases ran
      case h_2 middle first => exact (grows_requireFile first).trans (ih ran)

theorem grows_hasFileAnnounced (around : Surroundings) (peer : NodeId)
    (hash : UInt256) (node : Node) :
    Grows node (hasFileAnnounced around peer hash node) := by
  unfold hasFileAnnounced
  split
  · exact ⟨fun _ here => here, rfl, rfl⟩
  · dsimp only
    split
    · split_ifs <;> exact ⟨fun _ here => here, rfl, rfl⟩
    · exact ⟨fun _ here => here, rfl, rfl⟩

theorem grows_broadcastRequired (around : Surroundings)
    (hashes : List UInt256) (node : Node) :
    Grows node (broadcastRequired around hashes node) := by
  induction hashes generalizing node with
  | nil => exact Grows.refl node
  | cons hash rest ih =>
      rw [broadcastRequired]
      split_ifs
      · exact Grows.refl node
      · exact ih node
      · exact (grows_setRequestExpiration _ _ _).trans (ih _)

theorem grows_punishNoisy (ids : List NodeId) (node : Node) :
    Grows node (punishNoisy ids node) := by
  induction ids generalizing node with
  | nil => exact Grows.refl node
  | cons id rest ih =>
      have punished : Grows node
          (removeKnownFileHashesByNode id (misbehaving id 10 node)) :=
        ⟨fun _ here => here, rfl, rfl⟩
      exact punished.trans (ih _)

theorem grows_collectKnown {around : Surroundings} {hashes : List UInt256}
    {noisy noisy' : Std.ExtTreeSet NodeId} {node node' : Node}
    (ran : collectKnown around hashes noisy node = some (noisy', node')) :
    Grows node node' := by
  induction hashes generalizing noisy node with
  | nil =>
      cases ran
      exact Grows.refl _
  | cons hash rest ih =>
      have dropped : Grows node
          { node with
            knownHasFilesMap := node.knownHasFilesMap.erase hash } :=
        ⟨fun _ here => here, rfl, rfl⟩
      rw [collectKnown] at ran
      split at ran
      · exact ih ran
      · dsimp only at ran
        split_ifs at ran
        · exact dropped.trans (ih ran)
        · split at ran
          · cases ran
          · exact dropped.trans (ih ran)
          · exact ih ran

theorem grows_processKnownHashes {around : Surroundings} {node node' : Node}
    (ran : processKnownHashes around node = some node') :
    Grows node node' := by
  unfold processKnownHashes at ran
  split at ran
  · cases ran
  case h_2 noisy middle collected =>
    cases ran
    exact (grows_collectKnown collected).trans (grows_punishNoisy _ _)

/-! ## Steps of the invariants -/

/-- A file in flight is pending, and a pending file is required. -/
structure Tracked (node : Node) : Prop where
  inFlight : ∀ hash, hash ∈ node.filesInFlightMap →
    hash ∈ node.filesPendingMap
  pending : ∀ hash, hash ∈ node.filesPendingMap →
    hash ∈ node.requiredFilesMap

theorem Tracked.grows {node node' : Node} (tracked : Tracked node)
    (grows : Grows node node') : Tracked node' := by
  constructor
  · rw [grows.inFlight, grows.pending]
    exact tracked.inFlight
  · intro hash here
    rw [grows.pending] at here
    exact grows.required hash (tracked.pending hash here)

theorem OnePerPeer.sameFiles {node node' : Node} (one : OnePerPeer node)
    (same : node'.filesInFlightMap = node.filesInFlightMap) :
    OnePerPeer node' := by
  unfold OnePerPeer
  rw [same]
  exact one

theorem OnePerPeer.eraseFile {node node' : Node} (one : OnePerPeer node)
    {hash : UInt256}
    (erased : node'.filesInFlightMap = node.filesInFlightMap.erase hash) :
    OnePerPeer node' := by
  have old : ∀ (other : UInt256) (file : QueuedFile),
      node'.filesInFlightMap[other]? = some file →
        node.filesInFlightMap[other]? = some file := by
    intro other file here
    rw [erased, Std.ExtTreeMap.getElem?_erase] at here
    split_ifs at here
    exact here
  intro left right leftFile rightFile leftHere rightHere
  exact one left right leftFile rightFile (old _ _ leftHere)
    (old _ _ rightHere)

/-- Asking a peer that is not in use keeps one file for each peer. -/
theorem OnePerPeer.sendFileRequest {node : Node} (one : OnePerPeer node)
    {id : NodeId} (free : inUse node id = false) (around : Surroundings)
    (hash : UInt256) (filesPendingMap : Std.ExtTreeMap UInt256 FilePending) :
    OnePerPeer
      (sendFileRequest around hash id { node with filesPendingMap }) := by
  have unused : ∀ (other : UInt256) (file : QueuedFile),
      node.filesInFlightMap[other]? = some file → file.nodeId ≠ id := by
    intro other file here same
    have busy := inUse_of_inFlight here
    rw [same, free] at busy
    cases busy
  intro left right leftFile rightFile leftHere rightHere same
  rw [Downloads.sendFileRequest, getElem?_insert_file] at leftHere rightHere
  split_ifs at leftHere rightHere with isLeft isRight isRight
  · rw [isLeft, isRight]
  · cases leftHere
    exact absurd same.symm (unused right rightFile rightHere)
  · cases rightHere
    exact absurd same (unused left leftFile leftHere)
  · exact one left right leftFile rightFile leftHere rightHere same

theorem onePerPeer_processPendingFile {node : Node} (one : OnePerPeer node)
    (around : Surroundings) (hash : UInt256) :
    OnePerPeer (processPendingFile around hash node) := by
  rcases processPendingFile_cases around hash node with
    same | ⟨erased, _⟩ | ⟨id, filesPendingMap, free, _, _, sent⟩
  · rw [same]
    exact one
  · rw [erased]
    exact one.sameFiles rfl
  · rw [sent]
    exact one.sendFileRequest free around hash filesPendingMap

theorem tracked_processPendingFile {node : Node} (tracked : Tracked node)
    {around : Surroundings} {hash : UInt256}
    (spares : ¬ DropsInFlight around hash node) :
    Tracked (processPendingFile around hash node) := by
  rcases processPendingFile_cases around hash node with
    same | ⟨erased, why⟩ | ⟨id, filesPendingMap, _, present, keys, sent⟩
  · rw [same]
    exact tracked
  · rw [erased]
    have absent := why.resolve_right spares
    constructor
    · intro other here
      refine Std.ExtTreeMap.mem_erase.mpr ⟨?_, tracked.inFlight other here⟩
      intro equal
      rw [Std.LawfulEqOrd.eq_of_compare equal] at absent
      exact absent here
    · intro other here
      exact tracked.pending other (Std.ExtTreeMap.mem_erase.mp here).2
  · rw [sent]
    constructor
    · intro other here
      refine (keys other).mpr ?_
      rcases Std.ExtTreeMap.mem_insert.mp here with equal | old
      · rw [← Std.LawfulEqOrd.eq_of_compare equal]
        exact present
      · exact tracked.inFlight other old
    · intro other here
      exact tracked.pending other ((keys other).mp here)

theorem onePerPeer_processPendingFiles (around : Surroundings)
    (hashes : List UInt256) {node : Node} (one : OnePerPeer node) :
    OnePerPeer (processPendingFiles around hashes node) := by
  induction hashes generalizing node with
  | nil => exact one
  | cons hash rest ih => exact ih (onePerPeer_processPendingFile one _ _)

theorem tracked_processPendingFiles {around : Surroundings}
    {hashes : List UInt256} {node : Node} (tracked : Tracked node)
    (spares : SparesInFlight around hashes node) :
    Tracked (processPendingFiles around hashes node) := by
  induction hashes generalizing node with
  | nil => exact tracked
  | cons hash rest ih =>
      exact ih (tracked_processPendingFile tracked spares.1) spares.2

theorem tracked_eraseRequired {node : Node} (tracked : Tracked node)
    {hash : UInt256} (absent : hash ∉ node.filesPendingMap) :
    Tracked (eraseRequired hash node) := by
  refine ⟨tracked.inFlight, ?_⟩
  intro other here
  refine Std.ExtTreeMap.mem_erase.mpr ⟨?_, tracked.pending other here⟩
  intro equal
  rw [Std.LawfulEqOrd.eq_of_compare equal] at absent
  exact absent here

theorem tracked_addPending {node : Node} (tracked : Tracked node)
    {hash : UInt256} (required : hash ∈ node.requiredFilesMap)
    (vFileKnown : List FileKnown) :
    Tracked (addPending hash vFileKnown node) := by
  constructor
  · intro other here
    exact Std.ExtTreeMap.mem_insert.mpr (.inr (tracked.inFlight other here))
  · intro other here
    rcases Std.ExtTreeMap.mem_insert.mp here with equal | old
    · rw [← Std.LawfulEqOrd.eq_of_compare equal]
      exact required
    · exact tracked.pending other old

/-- The loop over the required files; its rounds are those of the condition. -/
theorem tracked_collectRequired {around : Surroundings}
    {hashes collected : List UInt256} {node : Node} (tracked : Tracked node)
    (spares : SparesPending around hashes collected node) :
    Tracked (collectRequired around hashes collected node).2 := by
  induction hashes generalizing collected node with
  | nil => exact tracked
  | cons hash rest ih =>
      rw [SparesPending] at spares
      rw [collectRequired]
      cases entry : node.requiredFilesMap[hash]? with
      | none =>
          rw [entry] at spares
          exact ih tracked spares
      | some required =>
          have present : hash ∈ node.requiredFilesMap := by
            rw [Std.ExtTreeMap.mem_iff_isSome_getElem?, entry]
            rfl
          rw [entry] at spares
          cases known : node.knownHasFilesMap[hash]? with
          | some announced =>
              rw [known] at spares
              dsimp only at spares ⊢
              split_ifs at spares ⊢
              · exact ih (tracked_eraseRequired tracked spares.1) spares.2
              · exact ih tracked spares
              · exact ih (tracked_addPending tracked present _) spares
          | none =>
              rw [known] at spares
              dsimp only at spares ⊢
              split_ifs at spares ⊢
              · exact ih (tracked_eraseRequired tracked spares.1) spares.2
              · exact ih tracked spares
              · exact tracked
              · exact ih tracked spares
              · exact ih tracked spares

theorem collectRequired_inFlight (around : Surroundings)
    (hashes collected : List UInt256) (node : Node) :
    (collectRequired around hashes collected node).2.filesInFlightMap =
      node.filesInFlightMap := by
  induction hashes generalizing collected node with
  | nil => rfl
  | cons hash rest ih =>
      rw [collectRequired]
      cases node.requiredFilesMap[hash]? with
      | none => exact ih collected node
      | some required =>
          cases node.knownHasFilesMap[hash]? with
          | some announced =>
              dsimp only
              split_ifs
              · exact ih collected _
              · exact ih collected node
              · exact ih collected _
          | none =>
              dsimp only
              split_ifs
              · exact ih collected _
              · exact ih collected node
              · rfl
              · exact ih _ node
              · exact ih collected node

theorem processRequiredFiles_inFlight (around : Surroundings) (node : Node) :
    (processRequiredFiles around node).filesInFlightMap =
      node.filesInFlightMap := by
  unfold processRequiredFiles
  rw [(grows_broadcastRequired around _ _).inFlight]
  exact collectRequired_inFlight around _ [] node

theorem tracked_processRequiredFiles {around : Surroundings} {node : Node}
    (tracked : Tracked node)
    (spares : SparesPending around node.requiredFilesMap.keys [] node) :
    Tracked (processRequiredFiles around node) :=
  (tracked_collectRequired tracked spares).grows
    (grows_broadcastRequired around _ _)

/-! ## Steps of a node -/

theorem onePerPeer_tick {around : Surroundings} {node node' : Node}
    (one : OnePerPeer node)
    (ran : processFilesPendingScheduler around node = some node') :
    OnePerPeer node' := by
  unfold processFilesPendingScheduler at ran
  split_ifs at ran
  · cases ran
    exact one
  · have looped := onePerPeer_processPendingFiles around
      node.filesPendingMap.keys one
    have collected := looped.sameFiles
      (processRequiredFiles_inFlight around _)
    exact collected.sameFiles (grows_processKnownHashes ran).inFlight

theorem tracked_tick {around : Surroundings} {node node' : Node}
    (tracked : Tracked node) (spares : Spares around .schedulerTick node)
    (ran : processFilesPendingScheduler around node = some node') :
    Tracked node' := by
  unfold processFilesPendingScheduler at ran
  split_ifs at ran with busy
  · cases ran
    exact tracked
  · rcases spares (by simpa using busy) with ⟨sparesInFlight, sparesPending⟩
    have looped := tracked_processPendingFiles tracked sparesInFlight
    have collected := tracked_processRequiredFiles looped sparesPending
    exact collected.grows (grows_processKnownHashes ran)

/-- A `file` message takes one file off the maps, or only out of flight. -/
theorem processFileMessage_maps {around : Surroundings} {peer : NodeId}
    {payload : Bytes} {node node' : Node}
    (ran : processFileMessage around peer payload node = some node') :
    Grows node node' ∨ ∃ hash,
      node'.filesInFlightMap = node.filesInFlightMap.erase hash ∧
      ((node'.filesPendingMap = node.filesPendingMap ∧
          node'.requiredFilesMap = node.requiredFilesMap) ∨
        (node'.filesPendingMap = node.filesPendingMap.erase hash ∧
          node'.requiredFilesMap = node.requiredFilesMap.erase hash)) := by
  unfold processFileMessage at ran
  split at ran
  · cases ran
    exact .inl (Grows.refl _)
  case h_2 message rest read =>
    refine .inr ⟨message.1, ?_⟩
    unfold fileReceived at ran
    dsimp only at ran
    split_ifs at ran
    · cases ran
      exact ⟨rfl, .inl ⟨rfl, rfl⟩⟩
    · cases ran
      exact ⟨rfl, .inl ⟨rfl, rfl⟩⟩
    · unfold acceptFile at ran
      split at ran
      · cases ran
      · dsimp only at ran
        split_ifs at ran
        · cases ran
          exact ⟨rfl, .inr ⟨rfl, rfl⟩⟩
        · cases ran
          exact ⟨rfl, .inl ⟨rfl, rfl⟩⟩

theorem onePerPeer_fileMessage {around : Surroundings} {peer : NodeId}
    {payload : Bytes} {node node' : Node} (one : OnePerPeer node)
    (ran : processFileMessage around peer payload node = some node') :
    OnePerPeer node' := by
  rcases processFileMessage_maps ran with grows | ⟨hash, erased, _⟩
  · exact one.sameFiles grows.inFlight
  · exact one.eraseFile erased

theorem tracked_fileMessage {around : Surroundings} {peer : NodeId}
    {payload : Bytes} {node node' : Node} (tracked : Tracked node)
    (ran : processFileMessage around peer payload node = some node') :
    Tracked node' := by
  rcases processFileMessage_maps ran with grows | ⟨hash, inFlight, maps⟩
  · exact tracked.grows grows
  · rcases maps with ⟨pending, required⟩ | ⟨pending, required⟩
    · constructor
      · intro other here
        rw [inFlight] at here
        rw [pending]
        exact tracked.inFlight other (Std.ExtTreeMap.mem_erase.mp here).2
      · rw [pending, required]
        exact tracked.pending
    · constructor
      · intro other here
        rw [inFlight] at here
        rw [pending]
        rcases Std.ExtTreeMap.mem_erase.mp here with ⟨different, old⟩
        exact Std.ExtTreeMap.mem_erase.mpr
          ⟨different, tracked.inFlight other old⟩
      · intro other here
        rw [pending] at here
        rw [required]
        rcases Std.ExtTreeMap.mem_erase.mp here with ⟨different, old⟩
        exact Std.ExtTreeMap.mem_erase.mpr
          ⟨different, tracked.pending other old⟩

theorem onePerPeer_step {around : Surroundings} {event : Event}
    {node node' : Node} (one : OnePerPeer node)
    (ran : event.apply around node = some node') : OnePerPeer node' := by
  cases event with
  | blockConnected blockTime vtx =>
      exact one.sameFiles (grows_handleFileTransferTx ran).inFlight
  | hasFileAnnounced peer hash =>
      cases ran
      exact one.sameFiles (grows_hasFileAnnounced around peer hash node).inFlight
  | fileMessage peer payload => exact onePerPeer_fileMessage one ran
  | nodeDisconnected peer =>
      cases ran
      exact one.sameFiles rfl
  | schedulerTick => exact onePerPeer_tick one ran

theorem tracked_step {around : Surroundings} {event : Event}
    {node node' : Node} (tracked : Tracked node)
    (spares : Spares around event node)
    (ran : event.apply around node = some node') : Tracked node' := by
  cases event with
  | blockConnected blockTime vtx =>
      exact tracked.grows (grows_handleFileTransferTx ran)
  | hasFileAnnounced peer hash =>
      cases ran
      exact tracked.grows (grows_hasFileAnnounced around peer hash node)
  | fileMessage peer payload => exact tracked_fileMessage tracked ran
  | nodeDisconnected peer =>
      cases ran
      exact tracked.grows ⟨fun _ here => here, rfl, rfl⟩
  | schedulerTick => exact tracked_tick tracked spares ran

/-! ## Every run -/

theorem onePerPeer_of_reachable
    {Allowed : Surroundings → Event → Node → Prop} {node : Node}
    (reachable : Reachable Allowed node) : OnePerPeer node := by
  induction reachable with
  | start started =>
      intro left right leftFile rightFile leftHere
      rw [started.inFlight, Std.ExtTreeMap.getElem?_empty] at leftHere
      cases leftHere
  | step around event _ _ ran ih => exact onePerPeer_step ih ran

theorem tracked_of_reachable {node : Node}
    (reachable : Reachable Spares node) : Tracked node := by
  induction reachable with
  | start started =>
      constructor
      · intro hash here
        rw [started.inFlight] at here
        exact absurd here Std.ExtTreeMap.not_mem_empty
      · intro hash here
        rw [started.pending] at here
        exact absurd here Std.ExtTreeMap.not_mem_empty
  | step around event _ spares ran ih => exact tracked_step ih spares ran

/-- How many files a peer has been asked for. -/
def filesInTransit (node : Node) (id : NodeId) : Nat :=
  node.filesInFlightMap.toList.countP fun entry => entry.2.nodeId = id

/-- Entries with distinct keys that all have the same key. -/
theorem length_le_one_of_sameKey {entries : List (UInt256 × QueuedFile)}
    (distinct : entries.Pairwise fun left right => left.1 ≠ right.1)
    (same : ∀ left ∈ entries, ∀ right ∈ entries, left.1 = right.1) :
    entries.length ≤ 1 := by
  cases entries with
  | nil => exact Nat.zero_le 1
  | cons first rest =>
      cases rest with
      | nil => exact Nat.le_refl 1
      | cons second others =>
          rw [List.pairwise_cons] at distinct
          exact absurd (same first (by simp) second (by simp))
            (distinct.1 second (by simp))

theorem OnePerPeer.filesInTransit_le {node : Node} (one : OnePerPeer node)
    (id : NodeId) : filesInTransit node id ≤ 1 := by
  rw [filesInTransit, List.countP_eq_length_filter]
  apply length_le_one_of_sameKey
  · refine (Std.ExtTreeMap.distinct_keys_toList.imp ?_).filter _
    intro left right different same
    exact different (by rw [same]; exact Std.ReflCmp.compare_self)
  · intro left leftIn right rightIn
    rcases List.mem_filter.mp leftIn with ⟨leftIn, leftId⟩
    rcases List.mem_filter.mp rightIn with ⟨rightIn, rightId⟩
    exact one left.1 right.1 left.2 right.2
      (Std.ExtTreeMap.mem_toList_iff_getElem?_eq_some.mp leftIn)
      (Std.ExtTreeMap.mem_toList_iff_getElem?_eq_some.mp rightIn)
      ((of_decide_eq_true leftId).trans (of_decide_eq_true rightId).symm)

/--
No peer is asked for more files than allowed, in any run.  In every run in
which the scheduler spares stalled and expired downloads, a file in flight is
pending and a pending file is required.
-/
theorem download_state_invariant {node : Node} :
    (Reachable (fun _ _ _ => True) node →
      ∀ id, filesInTransit node id ≤ maxFilesInTransitPerPeer) ∧
    (Reachable Spares node →
      (∀ hash, hash ∈ node.filesInFlightMap → hash ∈ node.filesPendingMap) ∧
      (∀ hash, hash ∈ node.filesPendingMap → hash ∈ node.requiredFilesMap) ∧
      ∀ id, filesInTransit node id ≤ maxFilesInTransitPerPeer) := by
  have bound : ∀ Allowed, Reachable Allowed node →
      ∀ id, filesInTransit node id ≤ maxFilesInTransitPerPeer := by
    intro Allowed reachable id
    have one := (onePerPeer_of_reachable reachable).filesInTransit_le id
    exact Nat.le_trans one (by decide)
  refine ⟨bound _, ?_⟩
  intro reachable
  have tracked := tracked_of_reachable reachable
  exact ⟨tracked.inFlight, tracked.pending, bound _ reachable⟩

/-! ## A file that stays in flight -/

/-- A node that requires one file and knows nothing else. -/
def requiring : Node where
  requiredFilesMap := Std.ExtTreeMap.insert ∅ 5 ⟨0, 3600⟩
  filesPendingMap := ∅
  filesInFlightMap := ∅
  knownHasFilesMap := ∅
  nMisbehavior := fun _ => some 0
  repository := emptyRepository 0 0

theorem requiring_started : Started requiring := ⟨rfl, rfl, rfl⟩

/-- At a time in microseconds; all peers are connected. -/
def connectedAt (timeMicros : Int) : Surroundings where
  params := sampleParams
  storage := roomyDisk
  timeMicros := timeMicros
  getTransaction := fun _ => none
  pwalletMain := none
  fMasterNode := true
  findNode := fun _ => some false
  broadcasts := true
  locksFree := true

/-- Peer 3 has the file, is asked for it and does not answer in an hour. -/
def unanswered : List (Surroundings × Event) :=
  [(connectedAt 0, .hasFileAnnounced 3 5),
    (connectedAt 0, .schedulerTick),
    (connectedAt 0, .schedulerTick),
    (connectedAt 3600000000, .schedulerTick)]

def runEvents : List (Surroundings × Event) → Node → Option Node
  | [], node => some node
  | (around, event) :: rest, node =>
      match event.apply around node with
      | none => none
      | some node => runEvents rest node

theorem reachable_runEvents {events : List (Surroundings × Event)}
    {node node' : Node} (reachable : Reachable (fun _ _ _ => True) node)
    (ran : runEvents events node = some node') :
    Reachable (fun _ _ _ => True) node' := by
  induction events generalizing node with
  | nil =>
      cases ran
      exact reachable
  | cons head rest ih =>
      rw [runEvents] at ran
      split at ran
      · cases ran
      case h_2 middle first =>
        exact ih (.step head.1 head.2 reachable trivial first) ran

/-- After the last tick the file is in flight and not pending. -/
theorem in_flight_not_pending :
    ¬ ∀ node, Reachable (fun _ _ _ => True) node →
      (∀ hash, hash ∈ node.filesInFlightMap → hash ∈ node.filesPendingMap) ∧
      (∀ hash, hash ∈ node.filesPendingMap → hash ∈ node.requiredFilesMap) ∧
      ∀ id, filesInTransit node id ≤ maxFilesInTransitPerPeer := by
  intro claim
  have ends : (runEvents unanswered requiring).isSome := by
    decide +kernel
  rcases Option.isSome_iff_exists.mp ends with ⟨node, ran⟩
  have reachable := reachable_runEvents (.start requiring_started) ran
  have inFlight : ((runEvents unanswered requiring).map fun node =>
      node.filesInFlightMap.contains 5) = some true := by
    decide +kernel
  have pending : ((runEvents unanswered requiring).map fun node =>
      node.filesPendingMap.contains 5) = some false := by
    decide +kernel
  rw [ran] at inFlight pending
  have present := (claim node reachable).1 5
    (Std.ExtTreeMap.mem_iff_contains.mpr (Option.some.inj inFlight))
  have absent : node.filesPendingMap.contains 5 = false :=
    Option.some.inj pending
  rw [Std.ExtTreeMap.mem_iff_contains, absent] at present
  cases present

/-- The same node after the announcement. -/
def informed : Node := hasFileAnnounced (connectedAt 0) 3 5 requiring

theorem informed_reachable : Reachable Spares informed :=
  .step (connectedAt 0) (.hasFileAnnounced 3 5) (.start requiring_started)
    trivial rfl

/-- The first tick only makes the file pending. -/
theorem informed_spares : Spares (connectedAt 0) .schedulerTick informed := by
  intro _
  have nothing : informed.filesPendingMap.keys = [] := rfl
  have one : informed.requiredFilesMap.keys = [5] := by decide +kernel
  have entry : informed.requiredFilesMap[(5 : UInt256)]? = some ⟨0, 3600⟩ :=
    Std.ExtTreeMap.getElem?_insert_self
  have known : informed.knownHasFilesMap[(5 : UInt256)]? =
      some (knownFileTimeout, [⟨3, 1⟩]) := by
    decide +kernel
  rw [nothing]
  refine ⟨trivial, ?_⟩
  change SparesPending _ informed.requiredFilesMap.keys [] informed
  rw [one, SparesPending, entry, known]
  dsimp only
  rw [if_neg (by decide), if_neg (by decide)]
  trivial

theorem download_state_invariant_firstTick :
    ∃ node, Reachable Spares node ∧ 5 ∈ node.filesPendingMap ∧
      5 ∈ node.requiredFilesMap := by
  have ends : (processFilesPendingScheduler (connectedAt 0)
      informed).isSome := by
    decide +kernel
  rcases Option.isSome_iff_exists.mp ends with ⟨node, ran⟩
  have reachable : Reachable Spares node :=
    .step (connectedAt 0) .schedulerTick informed_reachable informed_spares ran
  have pending : ((processFilesPendingScheduler (connectedAt 0)
      informed).map fun node => node.filesPendingMap.contains 5) =
        some true := by
    decide +kernel
  rw [ran] at pending
  have present : 5 ∈ node.filesPendingMap :=
    Std.ExtTreeMap.mem_iff_contains.mpr (Option.some.inj pending)
  exact ⟨node, reachable, present,
    (download_state_invariant.2 reachable).2.1 5 present⟩

end PrivateDatagram.Transfer.DownloadState
