import PrivateDatagram.Library.GuardedRun
import PrivateDatagram.Library.Rolls
import PrivateDatagram.Transfer.DownloadState
import PrivateDatagram.Transfer.FileRequests

/-!
# Who has a file and who asks

Peers announce files with `MSG_HAS_FILE` and ask who has one with
`MSG_HAS_FILE_REQUEST`.  `knownHasFilesMap` and `hasFileRequestedNodesMap`
have a vector of peers for each file, with the number of times that each of
them said it.  The schedulers take their peers from the vectors, and a peer
that repeats itself too often is taken out of all of them.
-/

namespace PrivateDatagram.Transfer.HasFiles

open Library.ByteFormat Library.GuardedRun Library.Rolls Wire.Serialize
  Wire.Transaction Repository.Manager Repository.Records Downloads
open FileRequests (FileRequest)

/-! ## Constants -/

def hasFileRequestEventsMaxCount : Int := 50
def hasFileRequestTimeout : Int := 10 * 60 * 1000 * 1000
def knownFilesInLocalBaseCashCount : Nat := 1000

/-! ## State -/

structure Announcements where
  node : Node
  hasFileRequestedNodesMap : Std.ExtTreeMap UInt256 (List FileRequest)
  /-- An `mruset`, the oldest hash first. -/
  knownFileTxesInDb : List UInt256
  /-- The `MSG_HAS_FILE`s that were sent. -/
  inventory : List (NodeId × UInt256)

structure Surroundings extends Downloads.Surroundings where
  /-- `fImporting || fReindex`. -/
  importing : Bool
  /-- The time of the block that `GetTransaction` finds the transaction in,
  when the block is in `mapBlockIndex`. -/
  blockTime : UInt256 → Option Int

/-- `knownFileTxesInDb.insert`. -/
def insertKnownFileTx (fileTxHash : UInt256) (known : List UInt256) :
    List UInt256 :=
  if fileTxHash ∈ known then
    known
  else if known.length = knownFilesInLocalBaseCashCount then
    known.tail ++ [fileTxHash]
  else
    known ++ [fileTxHash]

def sendFileAvailable (peer : NodeId) (fileTxHash : UInt256)
    (state : Announcements) : Announcements :=
  { state with inventory := state.inventory ++ [(peer, fileTxHash)] }

def Announcements.misbehaving (state : Announcements) (id : NodeId)
    (howmuch : Int) : Announcements :=
  { state with node := Downloads.misbehaving id howmuch state.node }

/-! ## Removals -/

def removeKnownFileHashesByHash (hash : UInt256) (node : Node) : Node :=
  { node with knownHasFilesMap := node.knownHasFilesMap.erase hash }

def removeHasFileRequestsByHash (hash : UInt256) (state : Announcements) :
    Announcements :=
  { state with
    hasFileRequestedNodesMap := state.hasFileRequestedNodesMap.erase hash }

/-- Drop the requests of one peer, and vectors without requests. -/
def removeHasFileRequestsByNode (pNode : NodeId) (state : Announcements) :
    Announcements :=
  { state with
    hasFileRequestedNodesMap :=
      state.hasFileRequestedNodesMap.filterMap fun _ vHasFileRequests =>
        let left := vHasFileRequests.filter fun request =>
          request.node ≠ pNode
        if left.isEmpty then none else some left }

/-! ## Requests -/

/-- A request of a peer. -/
def newRequest (around : Surroundings) (peer : NodeId) : FileRequest :=
  ⟨peer, around.timeMicros, none, none, 1⟩

/-- The requests for a file. -/
def Announcements.setRequests (state : Announcements) (fileTxHash : UInt256)
    (vfileRequests : List FileRequest) : Announcements :=
  { state with
    hasFileRequestedNodesMap :=
      state.hasFileRequestedNodesMap.insert fileTxHash vfileRequests }

/-- One more event of a request, which is from now on. -/
def countRequest (around : Surroundings) (fileRequest : FileRequest) :
    FileRequest :=
  { fileRequest with
    events := fileRequest.events + 1
    date := around.timeMicros }

/-- The branch for a file that somebody has asked for. -/
def hasFileRequestedAgain (around : Surroundings) (peer : NodeId)
    (fileTxHash : UInt256) (vfileRequests : List FileRequest)
    (state : Announcements) : Announcements :=
  match vfileRequests.find? fun request => request.node = peer with
  | some fileRequest =>
      if fileRequest.events > hasFileRequestEventsMaxCount then
        removeHasFileRequestsByNode peer (state.misbehaving peer 10)
      else
        state.setRequests fileTxHash
          (changeFirst (·.node) peer (countRequest around) vfileRequests)
  | none =>
      state.setRequests fileTxHash
        (vfileRequests ++ [newRequest around peer])

/-- Only masternodes remember who asks for a file that they do not have. -/
def waitForFile (around : Surroundings) (peer : NodeId)
    (fileTxHash : UInt256) (state : Announcements) : Announcements :=
  if around.fMasterNode then
    state.setRequests fileTxHash [newRequest around peer]
  else
    state

/-- Whether the file of a transaction in a known block has expired. -/
def isFileExpired (around : Surroundings) (fileTxHash : UInt256)
    (tx : CTransaction) : Option Bool :=
  match around.blockTime fileTxHash with
  | none => some false
  | some blockTime =>
      isFileTransactionExpired around.toSurroundings tx blockTime

/-- The branch for a file that nobody has asked for.  It reads `vfiles[0]`
behind its first checks. -/
def hasFileRequestedFirst (around : Surroundings) (peer : NodeId)
    (fileTxHash : UInt256) (state : Announcements) : Option Announcements :=
  match around.getTransaction fileTxHash with
  | none => some (waitForFile around peer fileTxHash state)
  | some tx =>
      if tx.type ≠ txFileTransfer then
        some (state.misbehaving peer 50)
      else
        match isFileExpired around fileTxHash tx, tx.vfiles with
        | none, _ => none
        | some true, _ => some (state.misbehaving peer 5)
        | some false, [] => none
        | some false, file :: _ =>
            if !isFileExist file.fileHash state.node then
              some (waitForFile around peer fileTxHash state)
            else
              some (sendFileAvailable peer fileTxHash
                { state with
                  knownFileTxesInDb :=
                    insertKnownFileTx fileTxHash state.knownFileTxesInDb })

/-- `MSG_HAS_FILE_REQUEST` in an `inv` message. -/
def hasFileRequested (around : Surroundings) (peer : NodeId)
    (fileTxHash : UInt256) (state : Announcements) : Option Announcements :=
  if fileTxHash ∈ state.knownFileTxesInDb then
    some (sendFileAvailable peer fileTxHash state)
  else
    match state.hasFileRequestedNodesMap[fileTxHash]? with
    | some vfileRequests =>
        some (hasFileRequestedAgain around peer fileTxHash vfileRequests
          state)
    | none => hasFileRequestedFirst around peer fileTxHash state

/-! ## The scheduler -/

/-- The peers that wait for a file which has appeared, and are connected. -/
def waiting (around : Surroundings) (vfileRequest : List FileRequest) :
    List NodeId :=
  (vfileRequest.map (·.node)).filter fun id =>
    around.findNode id = some false

/-- The file has appeared: tell the peers that wait for it. -/
def answerRequests (around : Surroundings) (fileTxHash : UInt256)
    (vfileRequest : List FileRequest) (state : Announcements) :
    Announcements :=
  { state with
    knownFileTxesInDb :=
      insertKnownFileTx fileTxHash state.knownFileTxesInDb
    inventory := state.inventory ++
      (waiting around vfileRequest).map (·, fileTxHash)
    hasFileRequestedNodesMap :=
      state.hasFileRequestedNodesMap.erase fileTxHash }

/-- The body of the loop in `ProcessHasFileRequests`. -/
def processHasFileRequest (around : Surroundings) (fileTxHash : UInt256)
    (state : Announcements) : Option Announcements :=
  match state.hasFileRequestedNodesMap[fileTxHash]? with
  | none => some state
  | some vfileRequest =>
      let vfileRequest := vfileRequest.filter fun request =>
        ¬ around.timeMicros > request.date + hasFileRequestTimeout
      if vfileRequest.isEmpty then
        some (removeHasFileRequestsByHash fileTxHash state)
      else
        match isFileExistByTx around.toSurroundings fileTxHash
          state.node with
        | none => none
        | some true =>
            some (answerRequests around fileTxHash vfileRequest state)
        | some false => some (state.setRequests fileTxHash vfileRequest)

def processHasFileRequestsUnder (around : Surroundings) :
    List UInt256 → Announcements → Option Announcements
  | [], state => some state
  | fileTxHash :: rest, state =>
      match processHasFileRequest around fileTxHash state with
      | none => none
      | some state => processHasFileRequestsUnder around rest state

/-- The loop erases nothing but the entry that it stands at. -/
def processHasFileRequests (around : Surroundings) (state : Announcements) :
    Option Announcements :=
  processHasFileRequestsUnder around state.hasFileRequestedNodesMap.keys
    state

/-! ## Runs -/

inductive Event where
  | hasFile (peer : NodeId) (hash : UInt256)
  | hasFileRequest (peer : NodeId) (fileTxHash : UInt256)
  | processHasFileRequests
  | processKnownHashes
  | processRequiredFiles
  | removeKnownFileHashesByNode (pNode : NodeId)
  | removeKnownFileHashesByHash (hash : UInt256)
  | removeHasFileRequestsByNode (pNode : NodeId)
  | removeHasFileRequestsByHash (hash : UInt256)
  /-- Anything else that a download does. -/
  | download (event : DownloadState.Event)

def Announcements.setNode (state : Announcements) (node : Node) :
    Announcements :=
  { state with node }

def Event.apply (around : Surroundings) (state : Announcements) :
    Event → Option Announcements
  | .hasFile peer hash =>
      some (if around.importing then
        state
      else
        state.setNode
          (hasFileAnnounced around.toSurroundings peer hash state.node))
  | .hasFileRequest peer fileTxHash =>
      if around.importing then
        some state
      else
        hasFileRequested around peer fileTxHash state
  | .processHasFileRequests => HasFiles.processHasFileRequests around state
  | .processKnownHashes =>
      (Downloads.processKnownHashes around.toSurroundings
        state.node).map state.setNode
  | .processRequiredFiles =>
      some (state.setNode
        (Downloads.processRequiredFiles around.toSurroundings state.node))
  | .removeKnownFileHashesByNode pNode =>
      some (state.setNode
        (Downloads.removeKnownFileHashesByNode pNode state.node))
  | .removeKnownFileHashesByHash hash =>
      some (state.setNode
        (HasFiles.removeKnownFileHashesByHash hash state.node))
  | .removeHasFileRequestsByNode pNode =>
      some (HasFiles.removeHasFileRequestsByNode pNode state)
  | .removeHasFileRequestsByHash hash =>
      some (HasFiles.removeHasFileRequestsByHash hash state)
  | .download event =>
      (event.apply around.toSurroundings state.node).map state.setNode

/-- An event whose effect is undefined leaves the state as it is. -/
def Announcements.step (state : Announcements)
    (input : Surroundings × Event) : Announcements :=
  (input.2.apply input.1 state).getD state

/-- A node that has just started, with the required files that it had
written. -/
def started (requiredFilesMap : Std.ExtTreeMap UInt256 RequiredFile)
    (nMisbehavior : NodeId → Option Int) (repository : RepositoryState) :
    Announcements where
  node := ⟨requiredFilesMap, ∅, ∅, ∅, nMisbehavior, repository⟩
  hasFileRequestedNodesMap := ∅
  knownFileTxesInDb := []
  inventory := []

/-! ## Bookkeeping -/

/-- The vector of an announced file. -/
def KnownRoll (known : Int × List FileKnown) : Prop :=
  Roll (·.node) (·.events) (hasFileEventsMaxCount + 1) known.2

/-- The vector of a file that somebody waits for. -/
def RequestRoll (vfileRequests : List FileRequest) : Prop :=
  Roll (·.node) (·.events) (hasFileRequestEventsMaxCount + 1) vfileRequests

/-- A pending file that somebody can be asked for. -/
def Askable (pending : FilePending) : Prop :=
  pending.nodes.isEmpty = false

/-- Announcements are rolls, and every pending file has a peer. -/
structure NodeKept (node : Node) : Prop where
  known : Every KnownRoll node.knownHasFilesMap
  pending : Every Askable node.filesPendingMap

/-- No vector is empty or has a peer twice, and events are counted no further
than one above the maximum. -/
structure Kept (state : Announcements) : Prop extends
    NodeKept state.node where
  requests : Every RequestRoll state.hasFileRequestedNodesMap

/-! ## Announcements -/

section Announcements

variable {node : Node}

theorem NodeKept.misbehaving (kept : NodeKept node) (id : NodeId)
    (howmuch : Int) : NodeKept (misbehaving id howmuch node) :=
  ⟨kept.known, kept.pending⟩

theorem NodeKept.eraseKnown (kept : NodeKept node) (hash : UInt256) :
    NodeKept { node with
      knownHasFilesMap := node.knownHasFilesMap.erase hash } :=
  ⟨kept.known.erase hash, kept.pending⟩

theorem NodeKept.insertKnown (kept : NodeKept node) (hash : UInt256)
    {known : Int × List FileKnown} (roll : KnownRoll known) :
    NodeKept { node with
      knownHasFilesMap := node.knownHasFilesMap.insert hash known } :=
  ⟨kept.known.insert hash roll, kept.pending⟩

theorem NodeKept.removeKnownFileHashesByNode (kept : NodeKept node)
    (id : NodeId) : NodeKept (removeKnownFileHashesByNode id node) := by
  refine ⟨kept.known.filterMap ?_, kept.pending⟩
  intro hash known changed roll found
  dsimp only at found
  split_ifs at found with empty
  cases found
  refine roll.sublist List.filter_sublist ?_
  simpa using empty

theorem countEvent_eq (id : NodeId) (vFileKnown : List FileKnown) :
    countEvent id vFileKnown = changeFirst (·.node) id
      (fun fileKnown => { fileKnown with events := fileKnown.events + 1 })
      vFileKnown := by
  induction vFileKnown with
  | nil => rfl
  | cons fileKnown rest ih => rw [countEvent, changeFirst, ih]

theorem one_event : (1 : Int) ≤ hasFileEventsMaxCount + 1 := by decide

theorem NodeKept.hasFileAnnounced (kept : NodeKept node)
    (around : Downloads.Surroundings) (id : NodeId) (hash : UInt256) :
    NodeKept (hasFileAnnounced around id hash node) := by
  unfold Downloads.hasFileAnnounced
  split
  case h_1 => exact kept.insertKnown hash (Roll.single one_event)
  case h_2 known here =>
    have roll : KnownRoll known := kept.known hash known here
    dsimp only
    split
    case h_1 fileKnown found =>
      split_ifs with tooOften
      · exact (kept.misbehaving id 50).removeKnownFileHashesByNode id
      · refine kept.insertKnown hash ?_
        unfold KnownRoll
        dsimp only
        rw [countEvent_eq]
        refine Roll.changeFirst roll ?_ found ?_
        · intro fileKnown
          rfl
        · dsimp only
          omega
    case h_2 absent =>
      refine kept.insertKnown hash (roll.append ?_ one_event)
      intro fileKnown here
      simpa using List.find?_eq_none.mp absent fileKnown here

end Announcements

/-! ## Downloads -/

section Downloads

variable {around : Downloads.Surroundings} {node node' : Node}

theorem known_requireFile {blockTime : UInt32} {tx : CTransaction}
    (ran : requireFile around blockTime tx node = some node') :
    node'.knownHasFilesMap = node.knownHasFilesMap := by
  unfold requireFile at ran
  split_ifs at ran
  · cases ran
    rfl
  · split at ran
    · cases ran
    · cases ran
      rfl
    · split at ran
      · cases ran
      · dsimp only at ran
        split_ifs at ran
        · cases ran
          rfl
        · cases ran
          rfl

theorem known_handleFileTransferTx {blockTime : UInt32}
    {vtx : List CTransaction}
    (ran : handleFileTransferTx around blockTime vtx node = some node') :
    node'.knownHasFilesMap = node.knownHasFilesMap := by
  induction vtx generalizing node with
  | nil =>
      cases ran
      rfl
  | cons tx rest ih =>
      rw [handleFileTransferTx] at ran
      split at ran
      · cases ran
      case h_2 middle first => exact (ih ran).trans (known_requireFile first)

theorem NodeKept.handleFileTransferTx (kept : NodeKept node)
    {blockTime : UInt32} {vtx : List CTransaction}
    (ran : handleFileTransferTx around blockTime vtx node = some node') :
    NodeKept node' where
  known := known_handleFileTransferTx ran ▸ kept.known
  pending :=
    (DownloadState.grows_handleFileTransferTx ran).pending ▸ kept.pending

theorem NodeKept.acceptFile (kept : NodeKept node) {fileTxHash : UInt256}
    {file : CDBFile}
    (ran : acceptFile around fileTxHash file node = some node') :
    NodeKept node' := by
  unfold Downloads.acceptFile at ran
  split at ran
  · cases ran
  · dsimp only at ran
    split_ifs at ran
    · cases ran
      exact ⟨kept.known.erase fileTxHash, kept.pending.erase fileTxHash⟩
    · cases ran
      exact ⟨kept.known, kept.pending⟩

theorem NodeKept.processFileMessage (kept : NodeKept node)
    {from' : NodeId} {payload : Bytes}
    (ran : processFileMessage around from' payload node = some node') :
    NodeKept node' := by
  unfold Downloads.processFileMessage at ran
  split at ran
  · cases ran
    exact kept
  case h_2 message _ _ =>
    have dropped : NodeKept { node with
        filesInFlightMap := node.filesInFlightMap.erase message.1 } :=
      ⟨kept.known, kept.pending⟩
    unfold fileReceived at ran
    dsimp only at ran
    split_ifs at ran
    · cases ran
      exact dropped.misbehaving from' 2
    · cases ran
      exact (dropped.removeKnownFileHashesByNode from').misbehaving from' 50
    · exact dropped.acceptFile ran

theorem NodeKept.erasePending (kept : NodeKept node)
    (fileTxHash : UInt256) : NodeKept (erasePending fileTxHash node) :=
  ⟨kept.known, kept.pending.erase fileTxHash⟩

/-- A peer that did not answer is only dropped when others are left. -/
theorem NodeKept.resendFile (kept : NodeKept node) (fileTxHash : UInt256)
    (pending : FilePending) (fileInFlight : QueuedFile) :
    NodeKept (resendFile around fileTxHash pending fileInFlight node) := by
  unfold Downloads.resendFile
  dsimp only
  split_ifs with nobody
  · exact kept.erasePending fileTxHash
  · split
    · exact kept.erasePending fileTxHash
    · exact ⟨kept.known,
        kept.pending.insert fileTxHash (Bool.eq_false_iff.mpr nobody)⟩

theorem NodeKept.processPendingFile (kept : NodeKept node)
    (fileTxHash : UInt256) :
    NodeKept (processPendingFile around fileTxHash node) := by
  unfold Downloads.processPendingFile
  split
  · exact kept
  · split
    · split_ifs
      · exact kept.resendFile fileTxHash _ _
      · exact kept
    · split_ifs
      · split
        · exact kept.erasePending fileTxHash
        · exact ⟨kept.known, kept.pending⟩
      · exact kept

theorem NodeKept.processPendingFiles (kept : NodeKept node)
    (hashes : List UInt256) :
    NodeKept (processPendingFiles around hashes node) := by
  induction hashes generalizing node with
  | nil => exact kept
  | cons fileTxHash rest ih => exact ih (kept.processPendingFile fileTxHash)

/-- A pending file has the peers that announced it, so it has one. -/
theorem NodeKept.addPending (kept : NodeKept node) {fileTxHash : UInt256}
    {known : Int × List FileKnown}
    (found : node.knownHasFilesMap[fileTxHash]? = some known) :
    NodeKept (addPending fileTxHash known.2 node) := by
  refine ⟨kept.known.erase fileTxHash, kept.pending.insert fileTxHash ?_⟩
  have roll : KnownRoll known := kept.known fileTxHash known found
  obtain ⟨fileKnown, rest, entries⟩ :=
    List.exists_cons_of_ne_nil roll.occupied
  have first : fileKnown.node ∈
      Std.ExtTreeSet.ofList (known.2.map FileKnown.node) := by
    rw [Std.ExtTreeSet.mem_ofList, entries]
    simp
  rw [Askable, Std.ExtTreeSet.isEmpty_eq_false_iff]
  intro empty
  dsimp only at empty
  rw [empty] at first
  exact Std.ExtTreeSet.not_mem_empty first

theorem NodeKept.eraseRequired (kept : NodeKept node)
    (fileTxHash : UInt256) : NodeKept (eraseRequired fileTxHash node) :=
  ⟨kept.known, kept.pending⟩

theorem NodeKept.collectRequired (kept : NodeKept node)
    (hashes vRequiredToBroadcast : List UInt256) :
    NodeKept (collectRequired around hashes vRequiredToBroadcast node).2 := by
  induction hashes generalizing vRequiredToBroadcast node with
  | nil => exact kept
  | cons fileTxHash rest ih =>
      rw [Downloads.collectRequired]
      split
      · exact ih kept vRequiredToBroadcast
      · split
        · exact ih (kept.eraseRequired fileTxHash) vRequiredToBroadcast
        · split
          · exact ih kept vRequiredToBroadcast
          · split
            case h_1 known found =>
              exact ih (kept.addPending found) vRequiredToBroadcast
            case h_2 =>
              dsimp only
              split_ifs
              · exact kept
              · exact ih kept _
              · exact ih kept vRequiredToBroadcast

theorem NodeKept.broadcastRequired (kept : NodeKept node)
    (hashes : List UInt256) :
    NodeKept (broadcastRequired around hashes node) := by
  induction hashes generalizing node with
  | nil => exact kept
  | cons fileTxHash rest ih =>
      rw [Downloads.broadcastRequired]
      split_ifs
      · exact kept
      · exact ih kept
      · exact ih ⟨kept.known, kept.pending⟩

theorem NodeKept.processRequiredFiles (kept : NodeKept node) :
    NodeKept (processRequiredFiles around node) :=
  (kept.collectRequired _ _).broadcastRequired _

theorem NodeKept.collectKnown (kept : NodeKept node) {hashes : List UInt256}
    {noisy noisy' : Std.ExtTreeSet NodeId}
    (ran : collectKnown around hashes noisy node = some (noisy', node')) :
    NodeKept node' := by
  induction hashes generalizing noisy node with
  | nil =>
      cases ran
      exact kept
  | cons fileTxHash rest ih =>
      rw [Downloads.collectKnown] at ran
      split at ran
      · exact ih kept ran
      · dsimp only at ran
        split_ifs at ran
        · exact ih (kept.eraseKnown fileTxHash) ran
        · split at ran
          · cases ran
          · exact ih (kept.eraseKnown fileTxHash) ran
          · exact ih kept ran

theorem NodeKept.punishNoisy (kept : NodeKept node) (ids : List NodeId) :
    NodeKept (punishNoisy ids node) := by
  induction ids generalizing node with
  | nil => exact kept
  | cons id rest ih =>
      exact ih ((kept.misbehaving id 10).removeKnownFileHashesByNode id)

theorem NodeKept.processKnownHashes (kept : NodeKept node)
    (ran : processKnownHashes around node = some node') :
    NodeKept node' := by
  unfold Downloads.processKnownHashes at ran
  split at ran
  · cases ran
  case h_2 noisy middle collected =>
    cases ran
    exact (kept.collectKnown collected).punishNoisy _

theorem NodeKept.download (kept : NodeKept node)
    (event : DownloadState.Event)
    (ran : event.apply around node = some node') : NodeKept node' := by
  cases event with
  | blockConnected blockTime vtx => exact kept.handleFileTransferTx ran
  | hasFileAnnounced peer hash =>
      cases ran
      exact kept.hasFileAnnounced around peer hash
  | fileMessage peer payload => exact kept.processFileMessage ran
  | nodeDisconnected peer =>
      cases ran
      exact ⟨kept.known, kept.pending⟩
  | schedulerTick =>
      change processFilesPendingScheduler around node = some node' at ran
      unfold processFilesPendingScheduler at ran
      split_ifs at ran
      · cases ran
        exact kept
      · exact (kept.processPendingFiles _).processRequiredFiles
          |>.processKnownHashes ran

end Downloads

/-! ## Requests -/

section Requests

variable {around : Surroundings} {state state' : Announcements}

theorem Kept.setNode (kept : Kept state) {node : Node}
    (nodeKept : NodeKept node) : Kept (state.setNode node) :=
  ⟨nodeKept, kept.requests⟩

theorem Kept.misbehaving (kept : Kept state) (id : NodeId) (howmuch : Int) :
    Kept (state.misbehaving id howmuch) :=
  kept.setNode (kept.toNodeKept.misbehaving id howmuch)

theorem Kept.setRequests (kept : Kept state) (fileTxHash : UInt256)
    {vfileRequests : List FileRequest} (roll : RequestRoll vfileRequests) :
    Kept (state.setRequests fileTxHash vfileRequests) :=
  ⟨kept.toNodeKept, kept.requests.insert fileTxHash roll⟩

theorem Kept.removeHasFileRequestsByNode (kept : Kept state)
    (pNode : NodeId) : Kept (removeHasFileRequestsByNode pNode state) := by
  refine ⟨kept.toNodeKept, kept.requests.filterMap ?_⟩
  intro fileTxHash vHasFileRequests left roll found
  dsimp only at found
  split_ifs at found with empty
  cases found
  refine roll.sublist List.filter_sublist ?_
  simpa using empty

theorem requestRoll_new (around : Surroundings) (peer : NodeId) :
    RequestRoll [newRequest around peer] :=
  Roll.single one_event

theorem Kept.waitForFile (kept : Kept state) (peer : NodeId)
    (fileTxHash : UInt256) :
    Kept (waitForFile around peer fileTxHash state) := by
  unfold HasFiles.waitForFile
  split_ifs
  · exact kept.setRequests fileTxHash (requestRoll_new around peer)
  · exact kept

theorem Kept.hasFileRequestedAgain (kept : Kept state) (peer : NodeId)
    (fileTxHash : UInt256) {vfileRequests : List FileRequest}
    (roll : RequestRoll vfileRequests) :
    Kept (hasFileRequestedAgain around peer fileTxHash vfileRequests
      state) := by
  unfold HasFiles.hasFileRequestedAgain
  split
  case h_1 fileRequest found =>
    split_ifs with tooOften
    · exact (kept.misbehaving peer 10).removeHasFileRequestsByNode peer
    · refine kept.setRequests fileTxHash
        (Roll.changeFirst roll ?_ found ?_)
      · intro request
        rfl
      · dsimp only [countRequest]
        omega
  case h_2 absent =>
    refine kept.setRequests fileTxHash (roll.append ?_ one_event)
    intro request here
    simpa [newRequest] using List.find?_eq_none.mp absent request here

theorem Kept.hasFileRequestedFirst (kept : Kept state) {peer : NodeId}
    {fileTxHash : UInt256}
    (ran : hasFileRequestedFirst around peer fileTxHash state =
      some state') : Kept state' := by
  unfold HasFiles.hasFileRequestedFirst at ran
  split at ran
  · cases ran
    exact kept.waitForFile peer fileTxHash
  · split_ifs at ran
    · cases ran
      exact kept.misbehaving peer 50
    · split at ran
      · cases ran
      · cases ran
        exact kept.misbehaving peer 5
      · cases ran
      · split_ifs at ran
        · cases ran
          exact kept.waitForFile peer fileTxHash
        · cases ran
          exact ⟨kept.toNodeKept, kept.requests⟩

theorem Kept.hasFileRequested (kept : Kept state) {peer : NodeId}
    {fileTxHash : UInt256}
    (ran : hasFileRequested around peer fileTxHash state = some state') :
    Kept state' := by
  unfold HasFiles.hasFileRequested at ran
  split_ifs at ran
  · cases ran
    exact ⟨kept.toNodeKept, kept.requests⟩
  · split at ran
    case h_1 vfileRequests found =>
      cases ran
      exact kept.hasFileRequestedAgain peer fileTxHash
        (kept.requests fileTxHash vfileRequests found)
    case h_2 => exact kept.hasFileRequestedFirst ran

theorem Kept.processHasFileRequest (kept : Kept state)
    {fileTxHash : UInt256}
    (ran : processHasFileRequest around fileTxHash state = some state') :
    Kept state' := by
  unfold HasFiles.processHasFileRequest at ran
  split at ran
  · cases ran
    exact kept
  case h_2 vfileRequest found =>
    dsimp only at ran
    split_ifs at ran with empty
    · cases ran
      exact ⟨kept.toNodeKept, kept.requests.erase fileTxHash⟩
    · have roll : RequestRoll vfileRequest :=
        kept.requests fileTxHash vfileRequest found
      split at ran
      · cases ran
      · cases ran
        exact ⟨kept.toNodeKept, kept.requests.erase fileTxHash⟩
      · cases ran
        refine kept.setRequests fileTxHash
          (roll.sublist List.filter_sublist ?_)
        rw [List.isEmpty_iff] at empty
        exact empty

theorem Kept.processHasFileRequestsUnder (kept : Kept state)
    {hashes : List UInt256}
    (ran : processHasFileRequestsUnder around hashes state = some state') :
    Kept state' := by
  induction hashes generalizing state with
  | nil =>
      cases ran
      exact kept
  | cons fileTxHash rest ih =>
      rw [HasFiles.processHasFileRequestsUnder] at ran
      split at ran
      · cases ran
      case h_2 middle first => exact ih (kept.processHasFileRequest first) ran

end Requests

/-! ## All runs -/

theorem kept_started (requiredFilesMap : Std.ExtTreeMap UInt256 RequiredFile)
    (nMisbehavior : NodeId → Option Int) (repository : RepositoryState) :
    Kept (started requiredFilesMap nMisbehavior repository) where
  known := every_empty
  pending := every_empty
  requests := every_empty

theorem Kept.apply {state state' : Announcements} (kept : Kept state)
    (around : Surroundings) (event : Event)
    (ran : event.apply around state = some state') : Kept state' := by
  cases event with
  | hasFile peer hash =>
      cases ran
      split_ifs
      · exact kept
      · exact kept.setNode (kept.toNodeKept.hasFileAnnounced _ peer hash)
  | hasFileRequest peer fileTxHash =>
      unfold Event.apply at ran
      split_ifs at ran
      · cases ran
        exact kept
      · exact kept.hasFileRequested ran
  | processHasFileRequests => exact kept.processHasFileRequestsUnder ran
  | processKnownHashes =>
      obtain ⟨node, processed, rfl⟩ := Option.map_eq_some_iff.mp ran
      exact kept.setNode (kept.toNodeKept.processKnownHashes processed)
  | processRequiredFiles =>
      cases ran
      exact kept.setNode kept.toNodeKept.processRequiredFiles
  | removeKnownFileHashesByNode pNode =>
      cases ran
      exact kept.setNode (kept.toNodeKept.removeKnownFileHashesByNode pNode)
  | removeKnownFileHashesByHash hash =>
      cases ran
      exact kept.setNode (kept.toNodeKept.eraseKnown hash)
  | removeHasFileRequestsByNode pNode =>
      cases ran
      exact kept.removeHasFileRequestsByNode pNode
  | removeHasFileRequestsByHash hash =>
      cases ran
      exact ⟨kept.toNodeKept, kept.requests.erase hash⟩
  | download event =>
      obtain ⟨node, downloaded, rfl⟩ := Option.map_eq_some_iff.mp ran
      exact kept.setNode (kept.toNodeKept.download event downloaded)

/-- The bookkeeping of who has and who wants a file is kept by every run, at
any times and in any surroundings. -/
theorem has_files_kept
    (requiredFilesMap : Std.ExtTreeMap UInt256 RequiredFile)
    (nMisbehavior : NodeId → Option Int) (repository : RepositoryState)
    (inputs : List (Surroundings × Event)) :
    Always Announcements.step Kept inputs
      (started requiredFilesMap nMisbehavior repository) := by
  refine Along.always ?_ (fun _ => id) (kept_started _ _ _)
    (along_trivial inputs _)
  intro state input kept _
  unfold Announcements.step
  cases ran : input.2.apply input.1 state with
  | none => exact kept
  | some state' => exact kept.apply input.1 input.2 ran

end PrivateDatagram.Transfer.HasFiles
