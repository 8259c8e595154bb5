import PrivateDatagram.Library.NestedMap
import PrivateDatagram.Repository.Records
import PrivateDatagram.Wire.Transaction

/-!
# Requests for files

A peer asks for the file of a transaction with a `MSG_FILE_REQUEST`.  The
request waits in `fileRequestedNodesMap`, under the transaction and the peer,
and in `fileRequestsOrder`, until the scheduler sends the file.  This module
models the two containers and everything that edits them.

Each function runs under `cs_FileRequestedNodesMap`.  The connections and the
clock go on meanwhile, so every round of the scheduler's loop has its own
`Surroundings`.  An index into an empty `vfiles` is undefined behaviour in the
source; here the function returns nothing.
-/

namespace PrivateDatagram.Transfer.FileRequests

open Library.NestedMap Wire.Serialize Wire.Transaction Repository.Records

/-! ## Constants -/

def maxFileSize : UInt32 := 10 * 1024 * 1024
def maxFileSendCount : Int := 5
def fileRequestTimeout : Int := 10 * 60 * 1000 * 1000
def fileRequestEventsBanThreshold : Int := 50

/-! ## State -/

abbrev NodeId := Int

structure FileRequest where
  node : NodeId
  /-- In microseconds. -/
  date : Int
  fileHash : Option UInt256
  fileTxHash : Option UInt256
  events : Int
deriving DecidableEq, Repr

/-- The default constructor. -/
def FileRequest.fresh : FileRequest := ⟨-1, 0, none, none, 1⟩

/-- A transaction and the peer that asked for its file. -/
abbrev RequestKey := UInt256 × NodeId

abbrev FileRequestMap := Nested UInt256 NodeId FileRequest

structure Requests where
  fileRequestsOrder : List RequestKey
  fileRequestedNodesMap : FileRequestMap
  /-- `nMisbehavior` of the peers in `mapNodeState`. -/
  nMisbehavior : NodeId → Option Int

/-- Before the first message. -/
def noRequests (nMisbehavior : NodeId → Option Int) : Requests :=
  ⟨[], ∅, nMisbehavior⟩

structure Peer where
  id : NodeId
  fDisconnect : Bool
  nSendSize : Nat
deriving DecidableEq, Repr

structure Surroundings where
  /-- `fImporting || fReindex`. -/
  importing : Bool
  /-- `GetTimeMicros()`. -/
  timeMicros : Int
  /-- `GetAdjustedTime()`. -/
  adjustedTime : Int
  /-- `GetTransaction` with `fAllowSlow`: the transaction and `hashBlock`. -/
  getTransaction : UInt256 → Option (CTransaction × UInt256)
  /-- The times of the blocks in `mapBlockIndex`. -/
  blockTime : UInt256 → Option Int
  isFileExist : UInt256 → Bool
  getFile : UInt256 → Option CDBFile
  vNodes : List Peer
  sendBufferSize : UInt32

/-! ## Peers -/

def findNode (around : Surroundings) (id : NodeId) : Option Peer :=
  around.vNodes.find? fun peer => peer.id = id

/-- The difference is one of unsigned integers. -/
def canSendToNode (around : Surroundings) (peer : Peer) : Bool :=
  peer.nSendSize < (around.sendBufferSize - maxFileSize).toNat

/-- The loop of `GetAvailableToSendFilesCount`. -/
def countAvailable (around : Surroundings) : Int → List Peer → Int
  | available, [] => available
  | available, peer :: rest =>
      if peer.fDisconnect || canSendToNode around peer then
        countAvailable around available rest
      else if available - 1 ≤ 0 then
        0
      else
        countAvailable around (available - 1) rest

def getAvailableToSendFilesCount (around : Surroundings) : Int :=
  countAvailable around maxFileSendCount around.vNodes

def misbehaving (id : NodeId) (howmuch : Int) (requests : Requests) :
    Requests :=
  { requests with
    nMisbehavior := Function.update requests.nMisbehavior id
      ((requests.nMisbehavior id).map (· + howmuch)) }

def isFileRequestExpired (around : Surroundings) (requestDate : Int) : Bool :=
  around.timeMicros > requestDate + fileRequestTimeout

/-! ## Removing the requests of a peer -/

/-- One round of the loop: the entry of the peer under this transaction. -/
def removeFileRequest (key : RequestKey) (requests : Requests) : Requests :=
  if (lookup requests.fileRequestedNodesMap key).isSome then
    { requests with
      fileRequestsOrder := requests.fileRequestsOrder.erase key
      fileRequestedNodesMap := remove key requests.fileRequestedNodesMap }
  else
    requests

def removeFileRequestsUnder (pNode : NodeId) :
    List UInt256 → Requests → Requests
  | [], requests => requests
  | fileTxHash :: rest, requests =>
      removeFileRequestsUnder pNode rest
        (removeFileRequest (fileTxHash, pNode) requests)

def removeFileRequestsByNode (pNode : NodeId) (requests : Requests) :
    Requests :=
  removeFileRequestsUnder pNode requests.fileRequestedNodesMap.keys requests

/-! ## A request -/

/-- Put a request into both containers. -/
def addFileRequest (around : Surroundings) (key : RequestKey)
    (fileHash fileTxHash : UInt256) (requests : Requests) : Requests :=
  { requests with
    fileRequestsOrder := requests.fileRequestsOrder ++ [key]
    fileRequestedNodesMap := put key
      ⟨key.2, around.timeMicros, some fileHash, some fileTxHash, 1⟩
      requests.fileRequestedNodesMap }

/-- The branch for a transaction that somebody waits for already. -/
def fileRequestedAgain (around : Surroundings) (pfrom : NodeId)
    (txHash : UInt256) (nodesMap : Std.ExtTreeMap NodeId FileRequest)
    (requests : Requests) : Option Requests :=
  match nodesMap[pfrom]? with
  | some fileRequest =>
      if fileRequest.events > fileRequestEventsBanThreshold then
        some (removeFileRequestsByNode fileRequest.node
          (misbehaving fileRequest.node 50 requests))
      else
        some { requests with
          fileRequestedNodesMap := put (txHash, pfrom)
            { fileRequest with
              date := around.timeMicros
              events := fileRequest.events + 1 }
            requests.fileRequestedNodesMap }
  | none =>
      -- the hashes come from `nodesMap.begin()`
      match nodesMap.toList with
      | [] => none
      | (_, anotherFileRequest) :: _ =>
          match anotherFileRequest.fileHash, anotherFileRequest.fileTxHash with
          | some fileHash, some fileTxHash =>
              some (addFileRequest around (txHash, pfrom) fileHash fileTxHash
                requests)
          | _, _ => none

/-- The branch that validates a request. -/
def fileRequestedFirst (around : Surroundings) (pfrom : NodeId)
    (txHash : UInt256) (requests : Requests) : Option Requests :=
  match around.getTransaction txHash with
  | none => some (misbehaving pfrom 20 requests)
  | some (tx, blockHash) =>
      if tx.type ≠ txFileTransfer then
        some (misbehaving pfrom 50 requests)
      else
        match tx.vfiles with
        | [] => none
        | file :: _ =>
            let expired :=
              match around.blockTime blockHash with
              | none => false
              | some blockTime =>
                  around.adjustedTime > blockTime + file.nLifeTime.toNat
            if expired then
              some (misbehaving pfrom 5 requests)
            else if !around.isFileExist file.fileHash then
              some (misbehaving pfrom 10 requests)
            else
              some (addFileRequest around (txHash, pfrom) file.fileHash txHash
                requests)

/-- `MSG_FILE_REQUEST` in `ProcessGetData`. -/
def fileRequested (around : Surroundings) (pfrom : NodeId) (txHash : UInt256)
    (requests : Requests) : Option Requests :=
  if around.importing then
    some requests
  else
    match requests.fileRequestedNodesMap[txHash]? with
    | some nodesMap => fileRequestedAgain around pfrom txHash nodesMap requests
    | none => fileRequestedFirst around pfrom txHash requests

/-! ## The scheduler -/

/-- A `file` message. -/
structure SentFile where
  node : NodeId
  fileTxHash : UInt256
  dbFile : CDBFile
deriving DecidableEq, Repr

/-- What a round of the loop does with the request it looks at. -/
inductive Attempt where
  | drop
  | wait
  | send (dbFile : CDBFile)
deriving DecidableEq, Repr

/-- The body of the loop, up to the edits of the containers. -/
def attempt (around : Surroundings) (fileTxHash : UInt256)
    (fileRequest : FileRequest) : Option Attempt :=
  match findNode around fileRequest.node with
  | none => some .drop
  | some pNode =>
      if pNode.fDisconnect || isFileRequestExpired around fileRequest.date then
        some .drop
      else if !canSendToNode around pNode then
        some .wait
      else
        match around.getTransaction fileTxHash with
        | none => some .wait
        | some (tx, _) =>
            match tx.vfiles with
            | [] => none
            | file :: _ =>
                match around.getFile file.fileHash with
                | none => some .wait
                | some dbFile => some (.send dbFile)

/-- What the loop leaves of the rest of the list. -/
structure Served where
  order : List RequestKey
  map : FileRequestMap
  sent : List SentFile

/--
The loop over the rest of `fileRequestsOrder`.  The two reads with `[]` store
a default entry when there is none.
-/
def serve (around : Nat → Surroundings) :
    Nat → Int → List RequestKey → FileRequestMap → Option Served
  | _, _, [], map => some ⟨[], map, []⟩
  | round, availableToSend, key :: rest, map =>
      let fileRequest := (lookup map key).getD .fresh
      let map := put key fileRequest map
      match attempt (around round) key.1 fileRequest with
      | none => none
      | some .drop =>
          serve around (round + 1) availableToSend rest (remove key map)
      | some .wait =>
          (serve around (round + 1) availableToSend rest map).map fun served =>
            { served with order := key :: served.order }
      | some (.send dbFile) =>
          let message : SentFile := ⟨fileRequest.node, key.1, dbFile⟩
          if availableToSend - 1 ≤ 0 then
            some ⟨rest, remove key map, [message]⟩
          else
            (serve around (round + 1) (availableToSend - 1) rest
              (remove key map)).map fun served =>
                { served with sent := message :: served.sent }

/-- `ProcessFileRequests`, with the messages it sends. -/
def processFileRequests (start : Surroundings) (around : Nat → Surroundings)
    (requests : Requests) : Option (Requests × List SentFile) :=
  let availableToSend := getAvailableToSendFilesCount start
  if availableToSend = 0 then
    some (requests, [])
  else
    (serve around 0 availableToSend requests.fileRequestsOrder
      requests.fileRequestedNodesMap).map fun served =>
        ({ requests with
            fileRequestsOrder := served.order
            fileRequestedNodesMap := served.map }, served.sent)

/-! ## Agreement -/

/-- An entry of the map carries its own two keys and a file hash. -/
def Labelled (key : RequestKey) (fileRequest : FileRequest) : Prop :=
  fileRequest.node = key.2 ∧ fileRequest.fileTxHash = some key.1 ∧
    fileRequest.fileHash.isSome

/-- The list and the map hold the same requests. -/
structure Agrees (order : List RequestKey) (map : FileRequestMap) : Prop where
  once : order.Nodup
  listed : ∀ key, key ∈ order ↔ (lookup map key).isSome
  noEmpty : NoEmpty map
  labelled : ∀ key fileRequest, lookup map key = some fileRequest →
    Labelled key fileRequest

theorem agrees_empty : Agrees [] ∅ := by
  refine ⟨List.nodup_nil, ?_, noEmpty_empty, ?_⟩
  · intro key
    rw [lookup_empty]
    simp
  · intro key fileRequest found
    rw [lookup_empty] at found
    cases found

namespace Agrees

variable {order : List RequestKey} {map : FileRequestMap}

theorem erase (agrees : Agrees order map) (key : RequestKey) :
    Agrees (order.erase key) (remove key map) := by
  constructor
  · exact agrees.once.erase key
  · intro other
    rw [agrees.once.mem_erase_iff, agrees.listed, lookup_remove]
    by_cases same : other = key
    · simp [same]
    · simp [same]
  · exact agrees.noEmpty.remove key
  · intro other fileRequest found
    rw [lookup_remove] at found
    split_ifs at found
    exact agrees.labelled other fileRequest found

theorem add (agrees : Agrees order map) {key : RequestKey}
    (absent : lookup map key = none) {fileRequest : FileRequest}
    (label : Labelled key fileRequest) :
    Agrees (order ++ [key]) (put key fileRequest map) := by
  have unlisted : key ∉ order := by
    rw [agrees.listed, absent]
    exact Bool.false_ne_true
  constructor
  · exact agrees.once.append (List.nodup_singleton key)
      (List.disjoint_singleton.mpr unlisted)
  · intro other
    rw [List.mem_append, agrees.listed, lookup_put, List.mem_singleton]
    by_cases same : other = key
    · simp [same]
    · simp [same]
  · exact agrees.noEmpty.put key fileRequest
  · intro other request found
    rw [lookup_put] at found
    split_ifs at found with same
    · cases found
      rw [same]
      exact label
    · exact agrees.labelled other request found

theorem update (agrees : Agrees order map) {key : RequestKey}
    (present : (lookup map key).isSome) {fileRequest : FileRequest}
    (label : Labelled key fileRequest) :
    Agrees order (put key fileRequest map) := by
  constructor
  · exact agrees.once
  · intro other
    rw [agrees.listed, lookup_put]
    by_cases same : other = key
    · simp [same, present]
    · simp [same]
  · exact agrees.noEmpty.put key fileRequest
  · intro other request found
    rw [lookup_put] at found
    split_ifs at found with same
    · cases found
      rw [same]
      exact label
    · exact agrees.labelled other request found

theorem perm (agrees : Agrees order map) : order.Perm (pairs map) := by
  rw [List.perm_ext_iff_of_nodup agrees.once (nodup_pairs map)]
  intro key
  rw [agrees.listed, mem_pairs_iff]

end Agrees

/-! ## Removing the requests of a peer -/

theorem removeFileRequest_agrees {requests : Requests}
    (agrees : Agrees requests.fileRequestsOrder
      requests.fileRequestedNodesMap) (key : RequestKey) :
    Agrees (removeFileRequest key requests).fileRequestsOrder
      (removeFileRequest key requests).fileRequestedNodesMap := by
  unfold removeFileRequest
  split_ifs
  · exact agrees.erase key
  · exact agrees

theorem mem_removeFileRequest {requests : Requests}
    (agrees : Agrees requests.fileRequestsOrder
      requests.fileRequestedNodesMap) (key other : RequestKey) :
    other ∈ (removeFileRequest key requests).fileRequestsOrder ↔
      other ∈ requests.fileRequestsOrder ∧ other ≠ key := by
  unfold removeFileRequest
  split_ifs with present
  · rw [agrees.once.mem_erase_iff, and_comm]
  · rw [← agrees.listed] at present
    constructor
    · intro here
      exact ⟨here, fun same => present (same ▸ here)⟩
    · exact And.left

theorem removeFileRequestsUnder_agrees (pNode : NodeId)
    (hashes : List UInt256) {requests : Requests}
    (agrees : Agrees requests.fileRequestsOrder
      requests.fileRequestedNodesMap) :
    Agrees (removeFileRequestsUnder pNode hashes requests).fileRequestsOrder
      (removeFileRequestsUnder pNode hashes
        requests).fileRequestedNodesMap := by
  induction hashes generalizing requests with
  | nil => exact agrees
  | cons fileTxHash rest ih => exact ih (removeFileRequest_agrees agrees _)

theorem mem_removeFileRequestsUnder (pNode : NodeId) (hashes : List UInt256)
    {requests : Requests}
    (agrees : Agrees requests.fileRequestsOrder
      requests.fileRequestedNodesMap) (key : RequestKey) :
    key ∈ (removeFileRequestsUnder pNode hashes
        requests).fileRequestsOrder ↔
      key ∈ requests.fileRequestsOrder ∧
        ¬(key.1 ∈ hashes ∧ key.2 = pNode) := by
  induction hashes generalizing requests with
  | nil => simp [removeFileRequestsUnder]
  | cons fileTxHash rest ih =>
      rw [removeFileRequestsUnder, ih (removeFileRequest_agrees agrees _),
        mem_removeFileRequest agrees, List.mem_cons, Ne, Prod.ext_iff]
      tauto

/-- The loop finds every request of the peer. -/
theorem mem_removeFileRequestsByNode {requests : Requests}
    (agrees : Agrees requests.fileRequestsOrder
      requests.fileRequestedNodesMap) (pNode : NodeId) (key : RequestKey) :
    key ∈ (removeFileRequestsByNode pNode requests).fileRequestsOrder ↔
      key ∈ requests.fileRequestsOrder ∧ key.2 ≠ pNode := by
  rw [removeFileRequestsByNode, mem_removeFileRequestsUnder _ _ agrees]
  constructor
  · rintro ⟨here, kept⟩
    refine ⟨here, fun same => kept ⟨?_, same⟩⟩
    rw [Std.ExtTreeMap.mem_keys]
    exact mem_of_lookup ((agrees.listed key).mp here)
  · rintro ⟨here, apart⟩
    exact ⟨here, fun gone => apart gone.2⟩

/-! ## The scheduler -/

/-- No connection to the peer is open, or it is about to be closed. -/
def IsGone (around : Surroundings) (id : NodeId) : Prop :=
  ∀ pNode, findNode around id = some pNode → pNode.fDisconnect = true

/-- This is the file of the transaction. -/
def HasFile (around : Surroundings) (fileTxHash : UInt256)
    (dbFile : CDBFile) : Prop :=
  ∃ tx blockHash file rest,
    around.getTransaction fileTxHash = some (tx, blockHash) ∧
      tx.vfiles = file :: rest ∧ around.getFile file.fileHash = some dbFile

theorem attempt_drop {around : Surroundings} {fileTxHash : UInt256}
    {fileRequest : FileRequest}
    (dropped : attempt around fileTxHash fileRequest = some .drop) :
    IsGone around fileRequest.node ∨
      isFileRequestExpired around fileRequest.date = true := by
  unfold attempt at dropped
  split at dropped
  case h_1 absent =>
    left
    intro pNode found
    rw [absent] at found
    cases found
  case h_2 pNode found =>
    split_ifs at dropped with leaves
    · rcases Bool.or_eq_true _ _ ▸ leaves with closing | expired
      · left
        intro other same
        rw [found] at same
        cases same
        exact closing
      · exact .inr expired
    · cases dropped
    · split at dropped
      · cases dropped
      · split at dropped
        · cases dropped
        · split at dropped <;> cases dropped

theorem attempt_send {around : Surroundings} {fileTxHash : UInt256}
    {fileRequest : FileRequest} {dbFile : CDBFile}
    (sends : attempt around fileTxHash fileRequest = some (.send dbFile)) :
    HasFile around fileTxHash dbFile := by
  unfold attempt at sends
  split at sends
  · cases sends
  · split_ifs at sends
    · cases sends
    · cases sends
    · split at sends
      · cases sends
      case h_2 tx blockHash found =>
        split at sends
        · cases sends
        case h_2 file rest isFile =>
          split at sends
          · cases sends
          case h_2 stored =>
            cases sends
            exact ⟨tx, blockHash, file, rest, found, isFile, stored⟩

/-- What one round of the loop can do. -/
theorem serve_cases {around : Nat → Surroundings} {round : Nat}
    {availableToSend : Int} {key : RequestKey} {rest : List RequestKey}
    {map : FileRequestMap} {fileRequest : FileRequest} {served : Served}
    (found : lookup map key = some fileRequest)
    (done : serve around round availableToSend (key :: rest) map =
      some served) :
    (attempt (around round) key.1 fileRequest = some .drop ∧
      serve around (round + 1) availableToSend rest (remove key map) =
        some served) ∨
    (attempt (around round) key.1 fileRequest = some .wait ∧
      ∃ later, serve around (round + 1) availableToSend rest map =
          some later ∧
        served = { later with order := key :: later.order }) ∨
    ∃ dbFile, attempt (around round) key.1 fileRequest =
        some (.send dbFile) ∧
      (served = ⟨rest, remove key map,
          [⟨fileRequest.node, key.1, dbFile⟩]⟩ ∨
        ∃ later, serve around (round + 1) (availableToSend - 1) rest
            (remove key map) = some later ∧
          served = { later with
            sent := ⟨fileRequest.node, key.1, dbFile⟩ :: later.sent }) := by
  rw [serve, found, Option.getD_some, put_lookup found] at done
  dsimp only at done
  split at done
  · cases done
  case h_2 dropped => exact .inl ⟨dropped, done⟩
  case h_3 waits =>
    rcases Option.map_eq_some_iff.mp done with ⟨later, rest, rfl⟩
    exact .inr (.inl ⟨waits, later, rest, rfl⟩)
  case h_4 dbFile sends =>
    right
    right
    refine ⟨dbFile, sends, ?_⟩
    split_ifs at done
    · cases done
      exact .inl rfl
    · rcases Option.map_eq_some_iff.mp done with ⟨later, rest, rfl⟩
      exact .inr ⟨later, rest, rfl⟩

/-- Why the loop takes a request out. -/
inductive Settled (around : Nat → Surroundings) (map : FileRequestMap)
    (sent : List SentFile) (key : RequestKey) : Prop where
  | served (round : Nat) (dbFile : CDBFile)
      (message : ⟨key.2, key.1, dbFile⟩ ∈ sent)
      (file : HasFile (around round) key.1 dbFile)
  | expired (round : Nat) (fileRequest : FileRequest)
      (entry : lookup map key = some fileRequest)
      (late : isFileRequestExpired (around round) fileRequest.date = true)
  | gone (round : Nat) (gone : IsGone (around round) key.2)

/-- Entries of other requests and earlier messages do not matter. -/
theorem Settled.mono {around : Nat → Surroundings}
    {map map' : FileRequestMap} {sent sent' : List SentFile}
    {key : RequestKey} (settled : Settled around map sent key)
    (same : lookup map' key = lookup map key)
    (more : sent ⊆ sent') : Settled around map' sent' key := by
  cases settled with
  | served round dbFile message file =>
      exact .served round dbFile (more message) file
  | expired round fileRequest entry late =>
      exact .expired round fileRequest (same.trans entry) late
  | gone round gone => exact .gone round gone

section Head

variable {key : RequestKey} {kept rest : List RequestKey}
  {map : FileRequestMap} (agrees : Agrees (kept ++ key :: rest) map)
include agrees

theorem Agrees.apart : key ∉ kept ∧ key ∉ rest := by
  have once := agrees.once
  rw [List.nodup_middle, List.nodup_cons, List.mem_append] at once
  exact not_or.mp once.1

theorem Agrees.removeHead : Agrees (kept ++ rest) (remove key map) := by
  have erased := agrees.erase key
  rwa [List.erase_append_right _ agrees.apart.1, List.erase_cons_head]
    at erased

theorem Agrees.lookup_others :
    ∀ other ∈ rest, lookup map other = lookup (remove key map) other := by
  intro other here
  rw [lookup_remove, if_neg]
  intro same
  exact agrees.apart.2 (same ▸ here)

end Head

/-- The loop keeps the containers in agreement and drops nothing silently. -/
theorem serve_agrees {around : Nat → Surroundings} {round : Nat}
    {availableToSend : Int} {kept rest : List RequestKey}
    {map : FileRequestMap} {served : Served}
    (agrees : Agrees (kept ++ rest) map)
    (done : serve around round availableToSend rest map = some served) :
    Agrees (kept ++ served.order) served.map ∧
      ∀ key ∈ rest, key ∉ served.order →
        Settled around map served.sent key := by
  induction rest generalizing round availableToSend kept map served with
  | nil =>
      cases done
      exact ⟨agrees, fun key here => absurd here List.not_mem_nil⟩
  | cons key rest ih =>
      have isSome := (agrees.listed key).mp (by simp)
      rcases Option.isSome_iff_exists.mp isSome with ⟨fileRequest, found⟩
      have label := agrees.labelled key fileRequest found
      have erased := agrees.removeHead
      have others := agrees.lookup_others
      rw [List.forall_mem_cons]
      rcases serve_cases found done with
        ⟨dropped, later⟩ | ⟨_, later, waits, rfl⟩ |
          ⟨dbFile, sends, rfl | ⟨later, goesOn, rfl⟩⟩
      · refine ⟨(ih erased later).1, fun _ => ?_, ?_⟩
        · rcases attempt_drop dropped with gone | late
          · exact .gone round (label.1 ▸ gone)
          · exact .expired round fileRequest found late
        · intro other here left'
          exact ((ih erased later).2 other here left').mono
            (others other here) (List.Subset.refl _)
      · have agrees' : Agrees ((kept ++ [key]) ++ rest) map := by
          rwa [List.append_assoc, List.singleton_append]
        have step := ih agrees' waits
        rw [List.append_assoc, List.singleton_append] at step
        refine ⟨step.1, fun left' => absurd List.mem_cons_self left', ?_⟩
        intro other here left'
        exact step.2 other here fun inside =>
          left' (List.mem_cons_of_mem key inside)
      · refine ⟨erased, fun _ => ?_, fun _ here left' => absurd here left'⟩
        refine .served round dbFile ?_ (attempt_send sends)
        rw [label.1]
        exact List.mem_singleton_self _
      · refine ⟨(ih erased goesOn).1, fun _ => ?_, ?_⟩
        · refine .served round dbFile ?_ (attempt_send sends)
          rw [label.1]
          exact List.mem_cons_self
        · intro other here left'
          exact ((ih erased goesOn).2 other here left').mono
            (others other here) (List.subset_cons_self _ _)

/-! ## Steps -/

/-- A message, the removal of a peer, or a tick of the scheduler. -/
inductive Step where
  | fileRequested (around : Surroundings) (pfrom : NodeId)
      (txHash : UInt256)
  | removeFileRequestsByNode (pNode : NodeId)
  | processFileRequests (start : Surroundings) (around : Nat → Surroundings)

/-- The state that a step leaves, and the `file` messages it sends. -/
def Step.perform : Step → Requests → Option (Requests × List SentFile)
  | .fileRequested around pfrom txHash, requests =>
      (FileRequests.fileRequested around pfrom txHash requests).map (·, [])
  | .removeFileRequestsByNode pNode, requests =>
      some (FileRequests.removeFileRequestsByNode pNode requests, [])
  | .processFileRequests start around, requests =>
      FileRequests.processFileRequests start around requests

/-- The states of all runs. -/
inductive Reachable : Requests → Prop where
  | start (nMisbehavior : NodeId → Option Int) :
      Reachable (noRequests nMisbehavior)
  | step {requests requests' : Requests} {sent : List SentFile} (step : Step)
      (reached : Reachable requests)
      (performed : step.perform requests = some (requests', sent)) :
      Reachable requests'

/-- A tick serves the request or finds it expired, or its peer is removed. -/
inductive Excused (requests : Requests) (sent : List SentFile)
    (key : RequestKey) : Step → Prop where
  | settled {start : Surroundings} {around : Nat → Surroundings}
      (settled : Settled around requests.fileRequestedNodesMap sent key) :
      Excused requests sent key (.processFileRequests start around)
  | removed : Excused requests sent key (.removeFileRequestsByNode key.2)

/-- The peer repeats a request that has been repeated up to the threshold. -/
def AskedTooOften (requests : Requests) (key : RequestKey) (step : Step) :
    Prop :=
  ∃ around txHash fileRequest, step = .fileRequested around key.2 txHash ∧
    lookup requests.fileRequestedNodesMap (txHash, key.2) =
        some fileRequest ∧
      fileRequest.events > fileRequestEventsBanThreshold

/-- The two containers of a state agree. -/
def Requests.Agree (requests : Requests) : Prop :=
  Agrees requests.fileRequestsOrder requests.fileRequestedNodesMap

theorem fileRequestedAgain_spec {around : Surroundings} {pfrom : NodeId}
    {txHash : UInt256} {nodesMap : Std.ExtTreeMap NodeId FileRequest}
    {requests requests' : Requests} (agree : requests.Agree)
    (waits : requests.fileRequestedNodesMap[txHash]? = some nodesMap)
    (done : fileRequestedAgain around pfrom txHash nodesMap requests =
      some requests') :
    requests'.Agree ∧ ∀ key ∈ requests.fileRequestsOrder,
      key ∉ requests'.fileRequestsOrder →
        AskedTooOften requests key (.fileRequested around pfrom txHash) := by
  have entry : lookup requests.fileRequestedNodesMap (txHash, pfrom) =
      nodesMap[pfrom]? := lookup_of_outer waits
  unfold fileRequestedAgain at done
  split at done
  case h_1 fileRequest found =>
    have stored := entry.trans found
    have label := agree.labelled _ _ stored
    split_ifs at done with tooOften
    · cases done
      have agree' : (misbehaving fileRequest.node 50 requests).Agree := agree
      refine ⟨removeFileRequestsUnder_agrees _ _ agree', ?_⟩
      intro key here left'
      rw [mem_removeFileRequestsByNode agree'] at left'
      have same : key.2 = pfrom := by
        by_contra apart
        exact left' ⟨here, fun equal => apart (equal.trans label.1)⟩
      exact ⟨around, txHash, fileRequest, by rw [same], by rw [same, stored],
        tooOften⟩
    · cases done
      exact ⟨agree.update (by rw [stored]; rfl) label,
        fun key here left' => absurd here left'⟩
  case h_2 absent =>
    split at done
    · cases done
    case h_2 owner another tail listed =>
      split at done
      case h_1 _ _ fileHash fileTxHash isHash isTxHash =>
        cases done
        have first : lookup requests.fileRequestedNodesMap (txHash, owner) =
            some another := by
          rw [lookup_of_outer waits]
          apply Std.ExtTreeMap.mem_toList_iff_getElem?_eq_some.mp
          rw [listed]
          exact List.mem_cons_self
        have label := agree.labelled _ _ first
        have same : fileTxHash = txHash :=
          Option.some.inj (isTxHash.symm.trans label.2.1)
        refine ⟨agree.add (entry.trans absent) ⟨rfl, ?_, rfl⟩, ?_⟩
        · rw [same]
        · intro key here left'
          exact absurd (List.mem_append_left _ here) left'
      · cases done

theorem fileRequestedFirst_spec {around : Surroundings} {pfrom : NodeId}
    {txHash : UInt256} {requests requests' : Requests}
    (agree : requests.Agree)
    (fresh : requests.fileRequestedNodesMap[txHash]? = none)
    (done : fileRequestedFirst around pfrom txHash requests =
      some requests') :
    requests'.Agree ∧
      requests.fileRequestsOrder ⊆ requests'.fileRequestsOrder := by
  have absent : lookup requests.fileRequestedNodesMap (txHash, pfrom) =
      none := by
    rw [lookup, fresh]
  unfold fileRequestedFirst at done
  split at done
  · cases done
    exact ⟨agree, List.Subset.refl _⟩
  · split_ifs at done
    · cases done
      exact ⟨agree, List.Subset.refl _⟩
    · split at done
      · cases done
      · dsimp only at done
        split_ifs at done
        · cases done
          exact ⟨agree, List.Subset.refl _⟩
        · cases done
          exact ⟨agree, List.Subset.refl _⟩
        · cases done
          exact ⟨agree.add absent ⟨rfl, rfl, rfl⟩,
            List.subset_append_left _ _⟩

theorem fileRequested_spec {around : Surroundings} {pfrom : NodeId}
    {txHash : UInt256} {requests requests' : Requests}
    (agree : requests.Agree)
    (done : fileRequested around pfrom txHash requests = some requests') :
    requests'.Agree ∧ ∀ key ∈ requests.fileRequestsOrder,
      key ∉ requests'.fileRequestsOrder →
        AskedTooOften requests key (.fileRequested around pfrom txHash) := by
  unfold fileRequested at done
  split_ifs at done
  · cases done
    exact ⟨agree, fun key here left' => absurd here left'⟩
  · split at done
    case h_1 waits => exact fileRequestedAgain_spec agree waits done
    case h_2 fresh =>
      have spec := fileRequestedFirst_spec agree fresh done
      exact ⟨spec.1, fun key here left' => absurd (spec.2 here) left'⟩

theorem processFileRequests_spec {start : Surroundings}
    {around : Nat → Surroundings} {requests requests' : Requests}
    {sent : List SentFile} (agree : requests.Agree)
    (done : processFileRequests start around requests =
      some (requests', sent)) :
    requests'.Agree ∧ ∀ key ∈ requests.fileRequestsOrder,
      key ∉ requests'.fileRequestsOrder →
        Settled around requests.fileRequestedNodesMap sent key := by
  unfold processFileRequests at done
  dsimp only at done
  split_ifs at done
  · cases done
    exact ⟨agree, fun key here left' => absurd here left'⟩
  · rcases Option.map_eq_some_iff.mp done with ⟨served, ran, same⟩
    cases same
    have agree' : Agrees ([] ++ requests.fileRequestsOrder)
        requests.fileRequestedNodesMap := agree
    exact serve_agrees agree' ran

theorem Step.perform_spec {step : Step} {requests requests' : Requests}
    {sent : List SentFile} (agree : requests.Agree)
    (performed : step.perform requests = some (requests', sent)) :
    requests'.Agree ∧ ∀ key ∈ requests.fileRequestsOrder,
      key ∉ requests'.fileRequestsOrder →
        Excused requests sent key step ∨ AskedTooOften requests key step := by
  cases step with
  | fileRequested around pfrom txHash =>
      rcases Option.map_eq_some_iff.mp performed with ⟨reached, ran, same⟩
      cases same
      have spec := fileRequested_spec agree ran
      exact ⟨spec.1, fun key here left' => .inr (spec.2 key here left')⟩
  | removeFileRequestsByNode pNode =>
      cases performed
      refine ⟨removeFileRequestsUnder_agrees _ _ agree, ?_⟩
      intro key here left'
      left
      rw [mem_removeFileRequestsByNode agree] at left'
      have same : key.2 = pNode := by
        by_contra apart
        exact left' ⟨here, apart⟩
      rw [← same]
      exact .removed
  | processFileRequests start around =>
      have spec := processFileRequests_spec agree performed
      exact ⟨spec.1, fun key here left' =>
        .inl (.settled (spec.2 key here left'))⟩

theorem agree_of_reachable {requests : Requests}
    (reachable : Reachable requests) : requests.Agree := by
  induction reachable with
  | start nMisbehavior => exact agrees_empty
  | step step _ performed ih => exact (step.perform_spec ih performed).1

/-! ## Every run -/

/-- Both containers hold every request once, and the same requests. -/
structure Requests.Consistent (requests : Requests) : Prop where
  same : requests.fileRequestsOrder.Perm
    (pairs requests.fileRequestedNodesMap)
  listedOnce : requests.fileRequestsOrder.Nodup
  storedOnce : (pairs requests.fileRequestedNodesMap).Nodup
  noEmpty : NoEmpty requests.fileRequestedNodesMap

/--
In every run the containers agree, and a request leaves them when it is
served, expired, its peer removed, or its peer has asked too often.
-/
theorem requests_consistent (requests : Requests)
    (reachable : Reachable requests) :
    requests.Consistent ∧ ∀ step requests' sent,
      step.perform requests = some (requests', sent) →
        ∀ key ∈ requests.fileRequestsOrder,
          key ∉ requests'.fileRequestsOrder →
            Excused requests sent key step ∨
              AskedTooOften requests key step := by
  have agree := agree_of_reachable reachable
  refine ⟨⟨agree.perm, agree.once, nodup_pairs _, agree.noEmpty⟩, ?_⟩
  intro step requests' sent performed
  exact (step.perform_spec agree performed).2

/-- One connected peer; every transaction has one file, which is here. -/
def sampleAround : Surroundings where
  importing := false
  timeMicros := 0
  adjustedTime := 0
  getTransaction := fun hash =>
    some (⟨hash, 1, txFileTransfer, [], [], .plain txMetaEmpty,
      [⟨3, 60, 0⟩], 0⟩, 0)
  blockTime := fun _ => none
  isFileExist := fun _ => true
  getFile := fun fileHash => some ⟨fileHash, 60, false, false, [1]⟩
  vNodes := [⟨1, false, 0⟩]
  sendBufferSize := 11000000

/-- Peer 1 has asked this often for the file of transaction 7. -/
def askedTimes : Nat → Requests
  | 0 => noRequests fun _ => some 0
  | times + 1 =>
      (fileRequested sampleAround 1 7 (askedTimes times)).getD
        (askedTimes times)

theorem askedTimes_reachable (times : Nat) : Reachable (askedTimes times) := by
  induction times with
  | zero => exact .start _
  | succ times ih =>
      rw [askedTimes]
      cases done : fileRequested sampleAround 1 7 (askedTimes times) with
      | none => exact ih
      | some requests =>
          have performed : Step.perform (.fileRequested sampleAround 1 7)
              (askedTimes times) = some (requests, []) := by
            rw [Step.perform, done]
            rfl
          exact .step _ ih performed

/-- The request that is one too many takes the waiting one with it. -/
theorem askedTimes_dropped :
    ∃ requests', Step.perform (.fileRequested sampleAround 1 7)
        (askedTimes 51) = some (requests', []) ∧
      ((7, 1) : RequestKey) ∈ (askedTimes 51).fileRequestsOrder ∧
      ((7, 1) : RequestKey) ∉ requests'.fileRequestsOrder := by
  have emptied : (fileRequested sampleAround 1 7 (askedTimes 51)).map
      Requests.fileRequestsOrder = some [] := by
    decide +kernel
  rcases Option.map_eq_some_iff.mp emptied with ⟨requests', done, none'⟩
  refine ⟨requests', ?_, by decide +kernel, ?_⟩
  · rw [Step.perform, done]
    rfl
  · rw [none']
    exact List.not_mem_nil

theorem requests_consistent_askedTimes :
    (askedTimes 51).Consistent ∧
      AskedTooOften (askedTimes 51) (7, 1)
        (.fileRequested sampleAround 1 7) := by
  rcases requests_consistent (askedTimes 51) (askedTimes_reachable 51) with
    ⟨consistent, left'⟩
  rcases askedTimes_dropped with ⟨requests', performed, here, gone⟩
  refine ⟨consistent, ?_⟩
  rcases left' _ requests' [] performed (7, 1) here gone with
    excused | tooOften
  · cases excused
  · exact tooOften

theorem asking_drops_request :
    ¬ ∀ requests, Reachable requests →
      requests.Consistent ∧ ∀ step requests' sent,
        step.perform requests = some (requests', sent) →
          ∀ key ∈ requests.fileRequestsOrder,
            key ∉ requests'.fileRequestsOrder →
              Excused requests sent key step := by
  intro claimed
  rcases askedTimes_dropped with ⟨requests', performed, here, gone⟩
  have excused := (claimed (askedTimes 51) (askedTimes_reachable 51)).2 _
    requests' [] performed (7, 1) here gone
  cases excused

end PrivateDatagram.Transfer.FileRequests
