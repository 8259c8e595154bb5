import Std.Data.ExtTreeSet
import PrivateDatagram.Repository.Manager
import PrivateDatagram.Wire.Transaction

/-!
# The download of files

A node that sees a file transfer in a block puts the transaction's hash into
`requiredFilesMap`.  Peers announce the files they have; known peers turn a
required file into a pending one, and a request to one of them puts it in
flight.  A `file` message ends the download.

This module models the three maps, the map of announcements, and every
function that edits them.  What a function reads from elsewhere (clocks, the
chain, the wallet, the list of peers) is its `Surroundings`.  An index into an
empty `vfiles` and a null wallet pointer are undefined behaviour in the
source; here the function returns nothing.
-/

namespace PrivateDatagram.Transfer.Downloads

open Library.ByteFormat Wire.Serialize Wire.Transaction Repository.Records
  Repository.Manager

/-! ## Constants -/

def maxFilesInTransitPerPeer : Nat := 5
def maxFileSendCount : Nat := 5
def totalHashesPerNodeThreshold : Nat := 100
def hasFileEventsMaxCount : Int := 50
def fileStallingTimeout : Int := 2 * 60 * 1000 * 1000
def requiredFileRequestTimeout : Int := 10 * 60 * 1000 * 1000
def flightFileTimeout : Int := 20 * 60 * 1000 * 1000
def knownFileTimeout : Int := 60 * 60 * 1000 * 1000

/-! ## State -/

abbrev NodeId := Int

structure RequiredFile where
  /-- In microseconds. -/
  requestExpirationTime : Int
  /-- In seconds. -/
  fileExpirationTime : UInt32
deriving DecidableEq, Repr

structure QueuedFile where
  nodeId : NodeId
  fileTxHash : UInt256
  nTime : Int
deriving DecidableEq, Repr

structure FilePending where
  fileTxHash : UInt256
  nodes : Std.ExtTreeSet NodeId

structure FileKnown where
  node : NodeId
  events : Int
deriving DecidableEq, Repr

structure Node where
  requiredFilesMap : Std.ExtTreeMap UInt256 RequiredFile
  filesPendingMap : Std.ExtTreeMap UInt256 FilePending
  filesInFlightMap : Std.ExtTreeMap UInt256 QueuedFile
  /-- The expiry of an announcement and the peers that made it. -/
  knownHasFilesMap : Std.ExtTreeMap UInt256 (Int × List FileKnown)
  /-- `nMisbehavior` of the peers in `mapNodeState`. -/
  nMisbehavior : NodeId → Option Int
  repository : RepositoryState

structure Surroundings where
  params : Params
  /-- The disk and the clocks in seconds. -/
  storage : Environment
  /-- `GetTimeMicros()`. -/
  timeMicros : Int
  /-- `GetTransaction` with `fAllowSlow`. -/
  getTransaction : UInt256 → Option CTransaction
  /-- `pwalletMain->IsMine`, unless the pointer is null. -/
  pwalletMain : Option (CTransaction → Bool)
  fMasterNode : Bool
  /-- `fDisconnect` of a peer that `FindNode` finds. -/
  findNode : NodeId → Option Bool
  /-- What `BroadcastHasFileRequest` returns. -/
  broadcasts : Bool
  /-- Whether the `TRY_LOCK`s of the scheduler succeed. -/
  locksFree : Bool

def misbehaving (id : NodeId) (howmuch : Int) (node : Node) : Node :=
  { node with
    nMisbehavior := Function.update node.nMisbehavior id
      ((node.nMisbehavior id).map (· + howmuch)) }

/-! ## Announcements -/

/-- Drop one peer from every announcement, and announcements without peers. -/
def removeKnownFileHashesByNode (id : NodeId) (node : Node) : Node :=
  { node with
    knownHasFilesMap := node.knownHasFilesMap.filterMap fun _ known =>
      let vFileKnown := known.2.filter fun fileKnown => fileKnown.node ≠ id
      if vFileKnown.isEmpty then none else some (known.1, vFileKnown) }

def addNewFileKnown (around : Surroundings) (hash : UInt256) (id : NodeId)
    (node : Node) : Node :=
  { node with
    knownHasFilesMap := node.knownHasFilesMap.insert hash
      (around.timeMicros + knownFileTimeout, [⟨id, 1⟩]) }

/-- Count one more event of the peer, at its first entry. -/
def countEvent (id : NodeId) : List FileKnown → List FileKnown
  | [] => []
  | fileKnown :: rest =>
      if fileKnown.node = id then
        { fileKnown with events := fileKnown.events + 1 } :: rest
      else
        fileKnown :: countEvent id rest

/-- `MSG_HAS_FILE` in an `inv` message. -/
def hasFileAnnounced (around : Surroundings) (id : NodeId) (hash : UInt256)
    (node : Node) : Node :=
  match node.knownHasFilesMap[hash]? with
  | none => addNewFileKnown around hash id node
  | some known =>
      let expiry := around.timeMicros + knownFileTimeout
      match known.2.find? fun fileKnown => fileKnown.node = id with
      | some fileKnown =>
          if fileKnown.events > hasFileEventsMaxCount then
            removeKnownFileHashesByNode id (misbehaving id 50 node)
          else
            { node with
              knownHasFilesMap := node.knownHasFilesMap.insert hash
                (expiry, countEvent id known.2) }
      | none =>
          { node with
            knownHasFilesMap := node.knownHasFilesMap.insert hash
              (expiry, known.2 ++ [⟨id, 1⟩]) }

/-! ## File transfers in blocks -/

def isFileExist (fileHash : UInt256) (node : Node) : Bool :=
  (node.repository.pblockfiletree.fileIndex[fileHash]?).isSome

/-- `IsFileTransactionExpired`, which reads `vfiles[0]`. -/
def isFileTransactionExpired (around : Surroundings) (tx : CTransaction)
    (blockTime : Int) : Option Bool :=
  match tx.vfiles with
  | [] => none
  | file :: _ =>
      some (around.storage.adjustedTime > blockTime + file.nLifeTime.toNat)

/-- `IsFileExistByTx`, which reads `vfiles[0]` of the transaction it finds. -/
def isFileExistByTx (around : Surroundings) (fileTxHash : UInt256)
    (node : Node) : Option Bool :=
  match around.getTransaction fileTxHash with
  | none => some false
  | some tx =>
      match tx.vfiles with
      | [] => none
      | file :: _ => some (isFileExist file.fileHash node)

/-- What `IsFileReceiveNeeded` asks about the owner of a file. -/
def isForUs (around : Surroundings) (tx : CTransaction) : Bool :=
  around.fMasterNode ||
    match around.pwalletMain with
    | none => false
    | some isMine => isMine tx

/-- `IsFileReceiveNeeded`, which reads `vfiles[0]` behind its first checks. -/
def isFileReceiveNeeded (around : Surroundings) (tx : CTransaction)
    (blockTime : Int) (node : Node) : Option Bool :=
  if !around.fMasterNode && around.pwalletMain.isNone then
    some true
  else if !isForUs around tx then
    some false
  else
    match isFileTransactionExpired around tx blockTime with
    | none => none
    | some true => some false
    | some false =>
        if node.requiredFilesMap.contains tx.getHash then
          some false
        else
          match tx.vfiles with
          | [] => none
          | file :: _ => some (!isFileExist file.fileHash node)

/-- `requiredFilesMap[txHash].requestExpirationTime = ...`. -/
def setRequestExpiration (time : Int) (txHash : UInt256) (node : Node) :
    Node :=
  { node with
    requiredFilesMap := node.requiredFilesMap.insert txHash
      { node.requiredFilesMap.getD txHash ⟨0, 0⟩ with
        requestExpirationTime := time } }

/-- The body of the loop in `HandleFileTransferTx`. -/
def requireFile (around : Surroundings) (blockTime : UInt32)
    (tx : CTransaction) (node : Node) : Option Node :=
  if tx.type ≠ txFileTransfer then
    some node
  else
    match isFileReceiveNeeded around tx blockTime.toNat node with
    | none => none
    | some false => some node
    | some true =>
        match tx.vfiles with
        | [] => none
        | file :: _ =>
            let txHash := tx.getHash
            let node :=
              { node with
                requiredFilesMap := node.requiredFilesMap.insert txHash
                  ⟨around.timeMicros + requiredFileRequestTimeout,
                    blockTime + file.nLifeTime⟩ }
            if !node.knownHasFilesMap.contains txHash &&
                !around.broadcasts then
              some (setRequestExpiration around.timeMicros txHash node)
            else
              some node

/-- `HandleFileTransferTx`. -/
def handleFileTransferTx (around : Surroundings) (blockTime : UInt32) :
    List CTransaction → Node → Option Node
  | [], node => some node
  | tx :: rest, node =>
      match requireFile around blockTime tx node with
      | none => none
      | some node => handleFileTransferTx around blockTime rest node

/-! ## The `file` message -/

/-- The file with `isMine` set when the wallet owns the transaction. -/
def markMine (around : Surroundings) (fileTxHash : UInt256) (file : CDBFile) :
    Option CDBFile :=
  match around.getTransaction fileTxHash with
  | none => some file
  | some tx =>
      match around.pwalletMain with
      | none => none
      | some isMine =>
          some (if isMine tx then { file with isMine := true } else file)

/-- The branch for a required file whose hash is right. -/
def acceptFile (around : Surroundings) (fileTxHash : UInt256) (file : CDBFile)
    (node : Node) : Option Node :=
  match markMine around fileTxHash file with
  | none => none
  | some file =>
      let saved := saveFile around.params around.storage file node.repository
      let node := { node with repository := saved.2 }
      if saved.1 then
        some { node with
          filesPendingMap := node.filesPendingMap.erase fileTxHash
          knownHasFilesMap := node.knownHasFilesMap.erase fileTxHash
          requiredFilesMap := node.requiredFilesMap.erase fileTxHash }
      else
        some node

/-- The `file` message, once it is read. -/
def fileReceived (around : Surroundings) (from' : NodeId)
    (fileTxHash : UInt256) (file : CDBFile) (node : Node) : Option Node :=
  let node :=
    { node with filesInFlightMap := node.filesInFlightMap.erase fileTxHash }
  if !node.requiredFilesMap.contains fileTxHash then
    some (misbehaving from' 2 node)
  else if file.fileHash ≠ file.calcFileHash around.params then
    some (misbehaving from' 50 (removeKnownFileHashesByNode from' node))
  else
    acceptFile around fileTxHash file node

def fileMessage : Format (UInt256 × CDBFile) := uint256.pair CDBFile.format

/-- `ProcessMessage` of `file`; a message that does not read is dropped. -/
def processFileMessage (around : Surroundings) (from' : NodeId)
    (payload : Bytes) (node : Node) : Option Node :=
  match fileMessage.decode payload with
  | .error _ => some node
  | .ok (message, _) => fileReceived around from' message.1 message.2 node

/-! ## The scheduler -/

/-- Whether a peer has been asked for a file. -/
def inUse (node : Node) (id : NodeId) : Bool :=
  node.filesInFlightMap.toList.any fun entry => entry.2.nodeId = id

/--
The loop of `FindFreeNode`.  A peer that is about to disconnect is passed
over but stays the answer when nobody comes after it.
-/
def findFreeNodeAfter (around : Surroundings) (node : Node)
    (pNode : Option NodeId) : List NodeId → Option NodeId
  | [] => pNode
  | id :: rest =>
      if inUse node id then
        findFreeNodeAfter around node pNode rest
      else
        match around.findNode id with
        | none => findFreeNodeAfter around node none rest
        | some fDisconnect =>
            if fDisconnect then
              findFreeNodeAfter around node (some id) rest
            else
              some id

def findFreeNode (around : Surroundings) (node : Node)
    (nodes : Std.ExtTreeSet NodeId) : Option NodeId :=
  findFreeNodeAfter around node none nodes.toList

def canRequestFile (node : Node) : Bool :=
  node.filesInFlightMap.size ≤ maxFilesInTransitPerPeer

def erasePending (fileTxHash : UInt256) (node : Node) : Node :=
  { node with filesPendingMap := node.filesPendingMap.erase fileTxHash }

/-- Ask a peer: put the file in flight, or move it to that peer. -/
def sendFileRequest (around : Surroundings) (fileTxHash : UInt256)
    (id : NodeId) (node : Node) : Node :=
  { node with
    filesInFlightMap := node.filesInFlightMap.insert fileTxHash
      ⟨id, fileTxHash, around.timeMicros + flightFileTimeout⟩ }

/-- The peers left for a pending file whose request has timed out. -/
def resendFile (around : Surroundings) (fileTxHash : UInt256)
    (pending : FilePending) (fileInFlight : QueuedFile) (node : Node) : Node :=
  let nodes := pending.nodes.erase fileInFlight.nodeId
  if nodes.isEmpty then
    erasePending fileTxHash node
  else
    match findFreeNode around node nodes with
    | none => erasePending fileTxHash node
    | some id =>
        sendFileRequest around fileTxHash id
          { node with
            filesPendingMap := node.filesPendingMap.insert fileTxHash
              { pending with nodes } }

/-- The body of the loop in `ProcessFilesPendingScheduler`. -/
def processPendingFile (around : Surroundings) (fileTxHash : UInt256)
    (node : Node) : Node :=
  match node.filesPendingMap[fileTxHash]? with
  | none => node
  | some pending =>
      match node.filesInFlightMap[fileTxHash]? with
      | some fileInFlight =>
          if around.timeMicros > fileInFlight.nTime + fileStallingTimeout then
            resendFile around fileTxHash pending fileInFlight node
          else
            node
      | none =>
          if canRequestFile node then
            match findFreeNode around node pending.nodes with
            | none => erasePending fileTxHash node
            | some id => sendFileRequest around fileTxHash id node
          else
            node

def processPendingFiles (around : Surroundings) : List UInt256 → Node → Node
  | [], node => node
  | fileTxHash :: rest, node =>
      processPendingFiles around rest
        (processPendingFile around fileTxHash node)

/-- The known peers of a required file become the peers of a pending one. -/
def addPending (fileTxHash : UInt256) (vFileKnown : List FileKnown)
    (node : Node) : Node :=
  { node with
    filesPendingMap := node.filesPendingMap.insert fileTxHash
      ⟨fileTxHash, .ofList (vFileKnown.map FileKnown.node)⟩
    knownHasFilesMap := node.knownHasFilesMap.erase fileTxHash }

def eraseRequired (fileTxHash : UInt256) (node : Node) : Node :=
  { node with requiredFilesMap := node.requiredFilesMap.erase fileTxHash }

/--
The first loop of `ProcessRequiredFiles`, which collects the files to ask
everybody for and stops when it has enough of them.
-/
def collectRequired (around : Surroundings) :
    List UInt256 → List UInt256 → Node → List UInt256 × Node
  | [], vRequiredToBroadcast, node => (vRequiredToBroadcast, node)
  | fileTxHash :: rest, vRequiredToBroadcast, node =>
      match node.requiredFilesMap[fileTxHash]? with
      | none => collectRequired around rest vRequiredToBroadcast node
      | some required =>
          if around.storage.adjustedTime > required.fileExpirationTime.toNat then
            collectRequired around rest vRequiredToBroadcast
              (eraseRequired fileTxHash node)
          else if node.filesPendingMap.contains fileTxHash then
            collectRequired around rest vRequiredToBroadcast node
          else
            match node.knownHasFilesMap[fileTxHash]? with
            | some known =>
                collectRequired around rest vRequiredToBroadcast
                  (addPending fileTxHash known.2 node)
            | none =>
                if around.timeMicros > required.requestExpirationTime then
                  let vRequiredToBroadcast :=
                    vRequiredToBroadcast ++ [fileTxHash]
                  if vRequiredToBroadcast.length > maxFileSendCount then
                    (vRequiredToBroadcast, node)
                  else
                    collectRequired around rest vRequiredToBroadcast node
                else
                  collectRequired around rest vRequiredToBroadcast node

/-- The second loop of `ProcessRequiredFiles`. -/
def broadcastRequired (around : Surroundings) : List UInt256 → Node → Node
  | [], node => node
  | fileTxHash :: rest, node =>
      if !around.broadcasts then
        node
      else if !node.requiredFilesMap.contains fileTxHash then
        broadcastRequired around rest node
      else
        broadcastRequired around rest
          (setRequestExpiration
            (around.timeMicros + requiredFileRequestTimeout) fileTxHash node)

def processRequiredFiles (around : Surroundings) (node : Node) : Node :=
  let collected :=
    collectRequired around node.requiredFilesMap.keys [] node
  broadcastRequired around collected.1 collected.2

def countNotRequiredHashesByNode (id : NodeId) (node : Node) : Nat :=
  (node.knownHasFilesMap.toList.map fun entry =>
    entry.2.2.countP fun fileKnown => fileKnown.node = id).sum

/-- The loop of `ProcessKnownHashes`, which also collects noisy peers. -/
def collectKnown (around : Surroundings) :
    List UInt256 → Std.ExtTreeSet NodeId → Node →
      Option (Std.ExtTreeSet NodeId × Node)
  | [], misbehavingNodes, node => some (misbehavingNodes, node)
  | fileTxHash :: rest, misbehavingNodes, node =>
      match node.knownHasFilesMap[fileTxHash]? with
      | none => collectKnown around rest misbehavingNodes node
      | some known =>
          let noisy := (known.2.map FileKnown.node).filter fun id =>
            countNotRequiredHashesByNode id node > totalHashesPerNodeThreshold
          let misbehavingNodes := misbehavingNodes.insertMany noisy
          let dropped :=
            { node with
              knownHasFilesMap := node.knownHasFilesMap.erase fileTxHash }
          if around.timeMicros > known.1 then
            collectKnown around rest misbehavingNodes dropped
          else
            match isFileExistByTx around fileTxHash node with
            | none => none
            | some true => collectKnown around rest misbehavingNodes dropped
            | some false => collectKnown around rest misbehavingNodes node

def punishNoisy : List NodeId → Node → Node
  | [], node => node
  | id :: rest, node =>
      punishNoisy rest
        (removeKnownFileHashesByNode id (misbehaving id 10 node))

def processKnownHashes (around : Surroundings) (node : Node) : Option Node :=
  match collectKnown around node.knownHasFilesMap.keys ∅ node with
  | none => none
  | some (misbehavingNodes, node) =>
      some (punishNoisy misbehavingNodes.toList node)

/-- `ProcessFilesPendingScheduler`. -/
def processFilesPendingScheduler (around : Surroundings) (node : Node) :
    Option Node :=
  if !around.locksFree then
    some node
  else
    let node := processPendingFiles around node.filesPendingMap.keys node
    processKnownHashes around (processRequiredFiles around node)

/-- `FinalizeNode` forgets the peer and edits none of the maps of files. -/
def finalizeNode (id : NodeId) (node : Node) : Node :=
  { node with nMisbehavior := Function.update node.nMisbehavior id none }

end PrivateDatagram.Transfer.Downloads
