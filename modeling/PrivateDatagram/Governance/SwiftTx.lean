import Std.Data.ExtTreeMap
import PrivateDatagram.Library.GuardedRun
import PrivateDatagram.Library.PartialMap
import PrivateDatagram.Wire.Script

/-!
# Transaction locks

Masternodes vote for the lock of a transaction, before or after its request
arrives.  The request, the votes, the lock and the inputs that it locks are
in tables of their own.  A vote that completes a lock reads the request with
a subscript, which inserts an empty transaction when there is none.
-/

namespace PrivateDatagram.Governance.SwiftTx

open Library.ByteFormat Library.GuardedRun Library.PartialMap Wire.Serialize
  Wire.Transaction Wire.Script

/-- `SWIFTTX_SIGNATURES_REQUIRED`. -/
def swifttxSignaturesRequired : Int := 6

/-- `SWIFTTX_SIGNATURES_TOTAL`. -/
def swifttxSignaturesTotal : Int := 10

/-- A value that is cut to an `int`. -/
def toInt (value : Int) : Int := value.bmod (2 ^ 32)

/-! ## Votes and locks -/

structure CConsensusVote where
  vinMasternode : CTxIn
  txHash : UInt256
  nBlockHeight : Int
  vchMasterNodeSignature : Bytes
deriving DecidableEq, Repr

/-- What a masternode adds to the hashes of its votes. -/
def masternodeKey (prevout : COutPoint) : UInt256 :=
  prevout.hash + BitVec.ofNat 256 prevout.n.toNat

def CConsensusVote.getHash (vote : CConsensusVote) : UInt256 :=
  masternodeKey vote.vinMasternode.prevout + vote.txHash

structure CTransactionLock where
  nBlockHeight : Int
  txHash : UInt256
  vecConsensusVotes : List CConsensusVote
  nExpiration : Int
  nTimeout : Int
deriving DecidableEq, Repr

def CTransactionLock.addSignature (cv : CConsensusVote)
    (lock : CTransactionLock) : CTransactionLock :=
  { lock with vecConsensusVotes := lock.vecConsensusVotes ++ [cv] }

def CTransactionLock.countSignatures (lock : CTransactionLock) : Int :=
  if lock.nBlockHeight = 0 then
    -1
  else
    lock.vecConsensusVotes.countP (·.nBlockHeight = lock.nBlockHeight)

/-- A lock without votes. -/
def newLock (nBlockHeight time : Int) (txHash : UInt256) : CTransactionLock :=
  ⟨nBlockHeight, txHash, [], toInt (time + 60 * 60), toInt (time + 60 * 5)⟩

/-! ## The tables -/

structure LockTables where
  mapTxLockReq : UInt256 → Option CTransaction
  mapTxLockReqRejected : UInt256 → Option CTransaction
  mapTxLockVote : UInt256 → Option CConsensusVote
  mapTxLocks : Std.ExtTreeMap UInt256 CTransactionLock
  mapLockedInputs : COutPoint → Option UInt256
  /-- By the hash of the masternode's outpoint. -/
  mapUnknownVotes : Std.ExtTreeMap UInt256 Int
  nCompleteTXLocks : Int

structure Surroundings where
  fLiteMode : Bool
  /-- `IsSporkActive(SPORK_2_SWIFTTX)` and
  `GetSporkValue(SPORK_5_MAX_VALUE)`. -/
  isSporkActive : Bool
  maxValue : Int
  /-- `masternodeSync.IsBlockchainSynced()`. -/
  isBlockchainSynced : Bool
  /-- `GetTime()`. -/
  time : Int
  /-- The height of the tip, when there is one. -/
  tipHeight : Option Int
  getTransaction : UInt256 → Option CTransaction
  isNormalPaymentScript : CScript → Bool
  getInputAge : CTxIn → Int
  acceptToMemoryPool : CTransaction → Bool
  fMasterNode : Bool
  /-- `activeMasternode.vin`. -/
  activeMasternode : CTxIn
  /-- `mnodeman.GetMasternodeRank` with the protocol of SwiftX. -/
  getMasternodeRank : CTxIn → Int → Int
  /-- The signature of `CConsensusVote::Sign`, when it can be made. -/
  sign : UInt256 → Int → Option Bytes
  /-- `CConsensusVote::SignatureValid`. -/
  signatureValid : CConsensusVote → Bool
  /-- `pwalletMain->UpdatedTransaction`, when there is a wallet. -/
  updatedTransaction : UInt256 → Bool

/-! ## Requests -/

/-- The values of the outputs that the inputs spend, when all are found. -/
def valueIn (around : Surroundings) : List CTxIn → Option Int
  | [] => some 0
  | i :: vin =>
      match around.getTransaction i.prevout.hash, valueIn around vin with
      | some tx2, some rest =>
          match tx2.vout[i.prevout.n.toNat]? with
          | some out => some (out.nValue.toInt + rest)
          | none => some rest
      | _, _ => none

def isIXTXValid (around : Surroundings) (txCollateral : CTransaction) :
    Bool :=
  if txCollateral.vout.length < 1 then
    false
  else if txCollateral.nLockTime ≠ 0 then
    false
  else
    let nValueOut := (txCollateral.vout.map (·.nValue.toInt)).sum
    if nValueOut > around.maxValue * 100000000 then
      false
    else
      match valueIn around txCollateral.vin with
      | none => true
      | some nValueIn => nValueIn - nValueOut ≥ 1000000

/-- `nTxAge` after the loop over the inputs, from the last to the first. -/
def txAge (around : Surroundings) (nTxAge : Int) : List CTxIn → Option Int
  | [] => some nTxAge
  | i :: vin =>
      if around.getInputAge i < 5 then
        none
      else
        txAge around (around.getInputAge i) vin

def createNewLock (around : Surroundings) (tipHeight : Int)
    (tx : CTransaction) (tables : LockTables) : Int × LockTables :=
  match txAge around 0 tx.vin.reverse with
  | none => (0, tables)
  | some nTxAge =>
      let nBlockHeight := toInt (tipHeight - nTxAge + 4)
      let lock :=
        match tables.mapTxLocks[tx.getHash]? with
        | none => newLock nBlockHeight around.time tx.getHash
        | some lock => { lock with nBlockHeight := nBlockHeight }
      (nBlockHeight, { tables with
        mapTxLocks := tables.mapTxLocks.insert tx.getHash lock })

def doConsensusVote (around : Surroundings) (tx : CTransaction)
    (nBlockHeight : Int) (tables : LockTables) : LockTables :=
  if !around.fMasterNode then
    tables
  else
    let n := around.getMasternodeRank around.activeMasternode nBlockHeight
    if n = -1 then
      tables
    else if n > swifttxSignaturesTotal then
      tables
    else
      match around.sign tx.getHash nBlockHeight with
      | none => tables
      | some signature =>
          let ctx : CConsensusVote :=
            ⟨around.activeMasternode, tx.getHash, nBlockHeight, signature⟩
          if !around.signatureValid ctx then
            tables
          else
            { tables with
              mapTxLockVote := Function.update tables.mapTxLockVote
                ctx.getHash (some ctx) }

/-- The loops that lock the inputs that nothing has locked. -/
def lockInputs (hash : UInt256) (vin : List CTxIn)
    (locked : COutPoint → Option UInt256) : COutPoint → Option UInt256 :=
  vin.foldl (fun locked input =>
    match locked input.prevout with
    | some _ => locked
    | none => Function.update locked input.prevout (some hash)) locked

/-- A lock, if there is one, expires at the time. -/
def expire (time : Int) (hash : UInt256)
    (locks : Std.ExtTreeMap UInt256 CTransactionLock) :
    Std.ExtTreeMap UInt256 CTransactionLock :=
  match locks[hash]? with
  | none => locks
  | some lock => locks.insert hash { lock with nExpiration := toInt time }

/-- The loop of `CheckForConflictingLocks`. -/
def checkInputs (time : Int) (hash : UInt256) (tables : LockTables) :
    List CTxIn → Bool × LockTables
  | [] => (false, tables)
  | input :: vin =>
      match tables.mapLockedInputs input.prevout with
      | none => checkInputs time hash tables vin
      | some other =>
          if other ≠ hash then
            (true, { tables with
              mapTxLocks :=
                expire time other (expire time hash tables.mapTxLocks) })
          else
            checkInputs time hash tables vin

def checkForConflictingLocks (time : Int) (tx : CTransaction)
    (tables : LockTables) : Bool × LockTables :=
  checkInputs time tx.getHash tables tx.vin

/-- `mapTxLockReq.insert`, which keeps a request that is there. -/
def insertRequest (tx : CTransaction) (tables : LockTables) : LockTables :=
  match tables.mapTxLockReq tx.getHash with
  | some _ => tables
  | none =>
      { tables with
        mapTxLockReq :=
          Function.update tables.mapTxLockReq tx.getHash (some tx) }

def noteRejected (tx : CTransaction) (tables : LockTables) : LockTables :=
  { tables with
    mapTxLockReqRejected :=
      Function.update tables.mapTxLockReqRejected tx.getHash (some tx)
    mapLockedInputs := lockInputs tx.getHash tx.vin tables.mapLockedInputs }

/-- The branch for a transaction that the pool refuses. -/
def rejectRequest (around : Surroundings) (tx : CTransaction)
    (tables : LockTables) : LockTables :=
  let tables := noteRejected tx tables
  match tables.mapTxLocks[tx.getHash]? with
  | none => tables
  | some lock =>
      if lock.countSignatures ≥ swifttxSignaturesRequired then
        match checkForConflictingLocks around.time tx tables with
        | (true, tables) => tables
        | (false, tables) => insertRequest tx tables
      else
        tables

/-- A request that has passed the tests of the message.  A synced node has a
tip. -/
def takeRequest (around : Surroundings) (tx : CTransaction)
    (tables : LockTables) : LockTables :=
  match around.tipHeight with
  | none => tables
  | some tipHeight =>
      let created := createNewLock around tipHeight tx tables
      if around.acceptToMemoryPool tx then
        insertRequest tx (doConsensusVote around tx created.1 created.2)
      else
        rejectRequest around tx created.2

/-- The message `ix`. -/
def processIx (around : Surroundings) (tx : CTransaction)
    (tables : LockTables) : LockTables :=
  if (tables.mapTxLockReq tx.getHash).isSome ||
      (tables.mapTxLockReqRejected tx.getHash).isSome then
    tables
  else if !isIXTXValid around tx then
    tables
  else if tx.vout.any fun o =>
      !around.isNormalPaymentScript o.scriptPubKey &&
        !isUnspendable o.scriptPubKey then
    tables
  else
    takeRequest around tx tables

/-! ## Votes -/

/-- The default constructor of `CTransaction`, whose hash is zero. -/
def emptyTransaction : CTransaction :=
  ⟨0, 1, txPayment, [], [], .plain txMetaEmpty, [], 0⟩

/-- The branch of `ProcessConsensusVote` for a lock with enough votes.  The
subscript inserts an empty transaction for an unknown request. -/
def completeLock (around : Surroundings) (txHash : UInt256)
    (tables : LockTables) : LockTables :=
  let tx := (tables.mapTxLockReq txHash).getD emptyTransaction
  let tables := { tables with
    mapTxLockReq := Function.update tables.mapTxLockReq txHash (some tx) }
  match checkForConflictingLocks around.time tx tables with
  | (true, tables) => tables
  | (false, tables) =>
      { tables with
        nCompleteTXLocks :=
          if around.updatedTransaction txHash then
            tables.nCompleteTXLocks + 1
          else
            tables.nCompleteTXLocks
        mapLockedInputs := lockInputs txHash tx.vin tables.mapLockedInputs }

def processConsensusVote (around : Surroundings) (ctx : CConsensusVote)
    (tables : LockTables) : Bool × LockTables :=
  let n := around.getMasternodeRank ctx.vinMasternode ctx.nBlockHeight
  if n = -1 then
    (false, tables)
  else if n > swifttxSignaturesTotal then
    (false, tables)
  else if !around.signatureValid ctx then
    (false, tables)
  else
    let lock := ((tables.mapTxLocks[ctx.txHash]?).getD
      (newLock 0 around.time ctx.txHash)).addSignature ctx
    let tables := { tables with
      mapTxLocks := tables.mapTxLocks.insert ctx.txHash lock }
    if lock.countSignatures ≥ swifttxSignaturesRequired then
      (true, completeLock around ctx.txHash tables)
    else
      (true, tables)

def getAverageVoteTime (votes : Std.ExtTreeMap UInt256 Int) : Int :=
  (votes.toList.map Prod.snd).sum.tdiv votes.size

/-- The limit on the votes of a masternode for unknown transactions. -/
def trackUnknownVote (time : Int) (masternode : UInt256)
    (votes : Std.ExtTreeMap UInt256 Int) : Std.ExtTreeMap UInt256 Int :=
  let votes :=
    if votes.contains masternode then
      votes
    else
      votes.insert masternode (time + 60 * 10)
  let last := votes.getD masternode 0
  if last > time ∧ last - getAverageVoteTime votes > 60 * 10 then
    votes
  else
    votes.insert masternode (time + 60 * 10)

/-- The message `txlvote`. -/
def processTxlvote (around : Surroundings) (ctx : CConsensusVote)
    (tables : LockTables) : LockTables :=
  if (tables.mapTxLockVote ctx.getHash).isSome then
    tables
  else
    let tables := { tables with
      mapTxLockVote :=
        Function.update tables.mapTxLockVote ctx.getHash (some ctx) }
    match processConsensusVote around ctx tables with
    | (false, tables) => tables
    | (true, tables) =>
        if (tables.mapTxLockReq ctx.txHash).isNone &&
            (tables.mapTxLockReqRejected ctx.txHash).isNone then
          { tables with
            mapUnknownVotes := trackUnknownVote around.time
              ctx.vinMasternode.prevout.hash tables.mapUnknownVotes }
        else
          tables

/-! ## Cleaning -/

/-- One round of the loop of `CleanTransactionLocksList`. -/
def cleanLock (time : Int) (tables : LockTables) (key : UInt256) :
    LockTables :=
  match tables.mapTxLocks[key]? with
  | none => tables
  | some lock =>
      if time > lock.nExpiration then
        match tables.mapTxLockReq lock.txHash with
        | none =>
            { tables with mapTxLocks := tables.mapTxLocks.erase key }
        | some tx =>
            { tables with
              mapLockedInputs :=
                eraseKeys (tx.vin.map (·.prevout)) tables.mapLockedInputs
              mapTxLockReq :=
                Function.update tables.mapTxLockReq lock.txHash none
              mapTxLockReqRejected :=
                Function.update tables.mapTxLockReqRejected lock.txHash none
              mapTxLockVote := eraseKeys
                (lock.vecConsensusVotes.map (·.getHash)) tables.mapTxLockVote
              mapTxLocks := tables.mapTxLocks.erase key }
      else
        tables

def cleanTransactionLocksList (around : Surroundings) (tables : LockTables) :
    LockTables :=
  match around.tipHeight with
  | none => tables
  | some _ => tables.mapTxLocks.keys.foldl (cleanLock around.time) tables

/-! ## Runs -/

inductive Step where
  | ix (around : Surroundings) (tx : CTransaction)
  | txlvote (around : Surroundings) (ctx : CConsensusVote)
  | cleanTransactionLocksList (around : Surroundings)

/-- The guards of `ProcessMessageSwiftTX`. -/
def listens (around : Surroundings) : Bool :=
  !around.fLiteMode && around.isSporkActive && around.isBlockchainSynced

def LockTables.step (tables : LockTables) : Step → LockTables
  | .ix around tx =>
      if listens around then processIx around tx tables else tables
  | .txlvote around ctx =>
      if listens around then processTxlvote around ctx tables else tables
  | .cleanTransactionLocksList around =>
      SwiftTx.cleanTransactionLocksList around tables

def noLocks : LockTables :=
  ⟨fun _ => none, fun _ => none, fun _ => none, ∅, fun _ => none, ∅, 0⟩

/-! ## Coherence -/

/-- A transaction that is known as a request or as a rejected request. -/
def LockTables.Known (tables : LockTables) (hash : UInt256)
    (tx : CTransaction) : Prop :=
  tables.mapTxLockReq hash = some tx ∨
    tables.mapTxLockReqRejected hash = some tx

structure Coherent (tables : LockTables) : Prop where
  requests : ∀ hash tx, tables.mapTxLockReq hash = some tx →
    tx.getHash = hash
  lockedInputs : ∀ prevout hash,
    tables.mapLockedInputs prevout = some hash →
      ∃ tx, tables.Known hash tx ∧ prevout ∈ tx.vin.map (·.prevout)
  masternodes : ∀ (hash : UInt256) (lock : CTransactionLock),
    tables.mapTxLocks[hash]? = some lock →
      (lock.vecConsensusVotes.map (·.vinMasternode.prevout)).Nodup

/-- Requests are under their hashes, and locked inputs are inputs of them. -/
structure Requested (requests rejected : UInt256 → Option CTransaction)
    (locked : COutPoint → Option UInt256) : Prop where
  named : ∀ hash tx, requests hash = some tx → tx.getHash = hash
  same : ∀ hash tx other, requests hash = some tx →
    rejected hash = some other → tx = other
  inputs : ∀ prevout hash, locked prevout = some hash →
    ∃ tx, (requests hash = some tx ∨ rejected hash = some tx) ∧
      prevout ∈ tx.vin.map (·.prevout)

/-- A lock has votes for its transaction that `mapTxLockVote` knows, each
with a hash of its own. -/
structure LockVotes (votes : UInt256 → Option CConsensusVote)
    (hash : UInt256) (lock : CTransactionLock) : Prop where
  txHash : lock.txHash = hash
  named : ∀ vote ∈ lock.vecConsensusVotes, vote.txHash = hash
  known : ∀ vote ∈ lock.vecConsensusVotes, votes vote.getHash ≠ none
  distinct : (lock.vecConsensusVotes.map (·.getHash)).Nodup

/-- All votes of all locks have different hashes. -/
structure Voted (votes : UInt256 → Option CConsensusVote)
    (locks : Std.ExtTreeMap UInt256 CTransactionLock) : Prop where
  each : ∀ (hash : UInt256) (lock : CTransactionLock),
    locks[hash]? = some lock → LockVotes votes hash lock
  apart : ∀ (hash other : UInt256) (lock otherLock : CTransactionLock),
    locks[hash]? = some lock → locks[other]? = some otherLock →
      hash ≠ other →
        List.Disjoint (lock.vecConsensusVotes.map (·.getHash))
          (otherLock.vecConsensusVotes.map (·.getHash))

structure Sound (tables : LockTables) : Prop where
  requested : Requested tables.mapTxLockReq tables.mapTxLockReqRejected
    tables.mapLockedInputs
  voted : Voted tables.mapTxLockVote tables.mapTxLocks

/-- Votes of one masternode in one lock have the same hash. -/
theorem LockVotes.masternodes {votes : UInt256 → Option CConsensusVote}
    {hash : UInt256} {lock : CTransactionLock}
    (lockVotes : LockVotes votes hash lock) :
    (lock.vecConsensusVotes.map (·.vinMasternode.prevout)).Nodup := by
  have sameHash : lock.vecConsensusVotes.map (·.getHash) =
      (lock.vecConsensusVotes.map (·.vinMasternode.prevout)).map
        fun prevout => masternodeKey prevout + hash := by
    rw [List.map_map]
    refine List.map_congr_left fun vote member => ?_
    unfold CConsensusVote.getHash
    rw [lockVotes.named vote member]
    rfl
  exact List.Nodup.of_map _ (sameHash ▸ lockVotes.distinct)

theorem Sound.coherent {tables : LockTables} (sound : Sound tables) :
    Coherent tables where
  requests := sound.requested.named
  lockedInputs := sound.requested.inputs
  masternodes := fun hash lock found =>
    (sound.voted.each hash lock found).masternodes

/-! ### Requests -/

theorem lockInputs_apply (hash : UInt256) (vin : List CTxIn)
    (locked : COutPoint → Option UInt256) (prevout : COutPoint) :
    lockInputs hash vin locked prevout =
      if locked prevout = none ∧ prevout ∈ vin.map (·.prevout) then
        some hash
      else
        locked prevout := by
  unfold lockInputs
  induction vin generalizing locked with
  | nil => simp
  | cons input vin ih =>
      simp only [List.foldl_cons, ih, List.map_cons, List.mem_cons]
      cases taken : locked input.prevout with
      | some other =>
          dsimp only
          by_cases here : prevout = input.prevout
          · simp [here, taken]
          · simp [here]
      | none =>
          dsimp only
          by_cases here : prevout = input.prevout
          · simp [here, taken]
          · simp [here]

section Requests

variable {requests rejected : UInt256 → Option CTransaction}
variable {locked : COutPoint → Option UInt256}

theorem Requested.request (requested : Requested requests rejected locked)
    {tx : CTransaction} (new : requests tx.getHash = none)
    (same : ∀ other, rejected tx.getHash = some other → tx = other) :
    Requested (Function.update requests tx.getHash (some tx)) rejected
      locked where
  named hash other found := by
    by_cases here : hash = tx.getHash
    · rw [here, Function.update_self] at found
      cases found
      exact here.symm
    · rw [Function.update_of_ne here] at found
      exact requested.named hash other found
  same hash other another found foundRejected := by
    by_cases here : hash = tx.getHash
    · rw [here, Function.update_self] at found
      rw [here] at foundRejected
      cases found
      exact same another foundRejected
    · rw [Function.update_of_ne here] at found
      exact requested.same hash other another found foundRejected
  inputs prevout hash found := by
    obtain ⟨other, known, spends⟩ := requested.inputs prevout hash found
    refine ⟨other, known.imp_left fun requestKnown => ?_, spends⟩
    rw [Function.update_of_ne, requestKnown]
    rintro rfl
    rw [requestKnown] at new
    cases new

theorem Requested.reject (requested : Requested requests rejected locked)
    {tx : CTransaction} (new : requests tx.getHash = none)
    (newRejected : rejected tx.getHash = none) :
    Requested requests (Function.update rejected tx.getHash (some tx))
      locked where
  named := requested.named
  same hash other another found foundRejected := by
    rw [Function.update_of_ne] at foundRejected
    · exact requested.same hash other another found foundRejected
    · rintro rfl
      rw [found] at new
      cases new
  inputs prevout hash found := by
    obtain ⟨other, known, spends⟩ := requested.inputs prevout hash found
    refine ⟨other, known.imp_right fun rejectedKnown => ?_, spends⟩
    rw [Function.update_of_ne, rejectedKnown]
    rintro rfl
    rw [rejectedKnown] at newRejected
    cases newRejected

theorem Requested.lockInputs (requested : Requested requests rejected locked)
    {hash : UInt256} {tx : CTransaction}
    (known : requests hash = some tx ∨ rejected hash = some tx) :
    Requested requests rejected (lockInputs hash tx.vin locked) where
  named := requested.named
  same := requested.same
  inputs prevout other found := by
    rw [lockInputs_apply] at found
    split at found
    case isTrue taken =>
      cases found
      exact ⟨tx, known, taken.2⟩
    case isFalse => exact requested.inputs prevout other found

/-- A request is forgotten together with the inputs that it locked. -/
theorem Requested.forget (requested : Requested requests rejected locked)
    {hash : UInt256} {tx : CTransaction} (found : requests hash = some tx) :
    Requested (Function.update requests hash none)
      (Function.update rejected hash none)
      (eraseKeys (tx.vin.map (·.prevout)) locked) where
  named other another foundOther := by
    rw [Function.update_apply] at foundOther
    split at foundOther
    case isTrue => cases foundOther
    case isFalse => exact requested.named other another foundOther
  same other one two foundOne foundTwo := by
    rw [Function.update_apply] at foundOne foundTwo
    split at foundOne
    case isTrue => cases foundOne
    case isFalse elsewhere =>
      rw [if_neg elsewhere] at foundTwo
      exact requested.same other one two foundOne foundTwo
  inputs prevout other foundInput := by
    obtain ⟨kept, before⟩ := of_eraseKeys foundInput
    obtain ⟨another, known, spends⟩ := requested.inputs prevout other before
    have elsewhere : other ≠ hash := by
      rintro rfl
      have isTx : tx = another := by
        rcases known with known | known
        · exact Option.some.inj (found.symm.trans known)
        · exact requested.same other tx another found known
      exact kept (isTx ▸ spends)
    rw [Function.update_of_ne elsewhere, Function.update_of_ne elsewhere]
    exact ⟨another, known, spends⟩

end Requests

/-! ### Locks and votes -/

section Votes

variable {votes : UInt256 → Option CConsensusVote}
variable {locks : Std.ExtTreeMap UInt256 CTransactionLock}

theorem LockVotes.vote {hash : UInt256} {lock : CTransactionLock}
    (lockVotes : LockVotes votes hash lock) (key : UInt256)
    (ctx : CConsensusVote) :
    LockVotes (Function.update votes key (some ctx)) hash lock where
  txHash := lockVotes.txHash
  named := lockVotes.named
  known vote member := by
    rw [Function.update_apply]
    split
    · exact Option.some_ne_none ctx
    · exact lockVotes.known vote member
  distinct := lockVotes.distinct

theorem Voted.vote (voted : Voted votes locks) (key : UInt256)
    (ctx : CConsensusVote) :
    Voted (Function.update votes key (some ctx)) locks where
  each hash lock found := (voted.each hash lock found).vote key ctx
  apart := voted.apart

theorem Voted.insert (voted : Voted votes locks) {hash : UInt256}
    {lock : CTransactionLock} (lockVotes : LockVotes votes hash lock)
    (apart : ∀ (other : UInt256) (otherLock : CTransactionLock),
      locks[other]? = some otherLock → hash ≠ other →
        List.Disjoint (lock.vecConsensusVotes.map (·.getHash))
          (otherLock.vecConsensusVotes.map (·.getHash))) :
    Voted votes (locks.insert hash lock) where
  each other otherLock found := by
    by_cases here : hash = other
    · rw [← here, Std.ExtTreeMap.getElem?_insert_self] at found
      cases found
      exact here ▸ lockVotes
    · rw [Std.ExtTreeMap.getElem?_insert, if_neg (by simpa using here)]
        at found
      exact voted.each other otherLock found
  apart one two oneLock twoLock foundOne foundTwo different := by
    rw [Std.ExtTreeMap.getElem?_insert] at foundOne foundTwo
    by_cases isOne : hash = one
    · have notTwo : hash ≠ two := fun isTwo => different (isOne ▸ isTwo)
      rw [if_pos (by simpa using isOne)] at foundOne
      rw [if_neg (by simpa using notTwo)] at foundTwo
      cases foundOne
      exact apart two twoLock foundTwo notTwo
    · rw [if_neg (by simpa using isOne)] at foundOne
      by_cases isTwo : hash = two
      · rw [if_pos (by simpa using isTwo)] at foundTwo
        cases foundTwo
        exact (apart one oneLock foundOne isOne).symm
      · rw [if_neg (by simpa using isTwo)] at foundTwo
        exact voted.apart one two oneLock twoLock foundOne foundTwo different

/-- A lock changes, but its votes do not. -/
theorem Voted.replace (voted : Voted votes locks) {hash : UInt256}
    {old lock : CTransactionLock} (found : locks[hash]? = some old)
    (sameHash : lock.txHash = old.txHash)
    (sameVotes : lock.vecConsensusVotes = old.vecConsensusVotes) :
    Voted votes (locks.insert hash lock) := by
  have before := voted.each hash old found
  refine voted.insert ⟨?_, ?_, ?_, ?_⟩ ?_
  · exact sameHash.trans before.txHash
  · exact sameVotes ▸ before.named
  · exact sameVotes ▸ before.known
  · exact sameVotes ▸ before.distinct
  · rw [sameVotes]
    intro other otherLock foundOther different
    exact voted.apart hash other old otherLock found foundOther different

theorem Voted.insert_newLock (voted : Voted votes locks)
    (nBlockHeight time : Int) (hash : UInt256) :
    Voted votes (locks.insert hash (newLock nBlockHeight time hash)) := by
  refine voted.insert ⟨rfl, nofun, nofun, List.nodup_nil⟩ ?_
  intro other otherLock _ _
  exact List.disjoint_nil_left _

/-- A vote that is new to `mapTxLockVote` is added to its lock. -/
theorem Voted.addSignature (voted : Voted votes locks)
    {ctx : CConsensusVote} {lock : CTransactionLock}
    (lockVotes : LockVotes votes ctx.txHash lock)
    (apart : ∀ (other : UInt256) (otherLock : CTransactionLock),
      locks[other]? = some otherLock → ctx.txHash ≠ other →
        List.Disjoint (lock.vecConsensusVotes.map (·.getHash))
          (otherLock.vecConsensusVotes.map (·.getHash)))
    (new : votes ctx.getHash = none) :
    Voted (Function.update votes ctx.getHash (some ctx))
      (locks.insert ctx.txHash (lock.addSignature ctx)) := by
  have unseen : ∀ {hash : UInt256} {other : CTransactionLock},
      LockVotes votes hash other →
        ctx.getHash ∉ other.vecConsensusVotes.map (·.getHash) := by
    intro hash other otherVotes here
    obtain ⟨vote, member, sameHash⟩ := List.mem_map.mp here
    exact otherVotes.known vote member (sameHash ▸ new)
  have after := lockVotes.vote ctx.getHash ctx
  refine (voted.vote ctx.getHash ctx).insert ⟨lockVotes.txHash, ?_, ?_, ?_⟩ ?_
  · intro vote member
    rcases List.mem_append.mp member with old | isCtx
    · exact lockVotes.named vote old
    · rw [List.mem_singleton.mp isCtx]
  · intro vote member
    rcases List.mem_append.mp member with old | isCtx
    · exact after.known vote old
    · rw [List.mem_singleton.mp isCtx, Function.update_self]
      exact Option.some_ne_none ctx
  · unfold CTransactionLock.addSignature
    rw [List.map_append]
    refine lockVotes.distinct.append (List.nodup_singleton _) ?_
    exact List.disjoint_singleton.mpr (unseen lockVotes)
  · intro other otherLock found different
    unfold CTransactionLock.addSignature
    rw [List.map_append, List.disjoint_append_left]
    refine ⟨apart other otherLock found different, ?_⟩
    exact List.singleton_disjoint.mpr
      (unseen (voted.each other otherLock found))

theorem getElem?_of_erase {hash other : UInt256} {lock : CTransactionLock}
    (found : (locks.erase hash)[other]? = some lock) :
    hash ≠ other ∧ locks[other]? = some lock := by
  rw [Std.ExtTreeMap.getElem?_erase] at found
  by_cases here : hash = other
  · rw [if_pos (by simpa using here)] at found
    cases found
  · rw [if_neg (by simpa using here)] at found
    exact ⟨here, found⟩

theorem Voted.erase (voted : Voted votes locks) (hash : UInt256) :
    Voted votes (locks.erase hash) where
  each other lock found :=
    voted.each other lock (getElem?_of_erase found).2
  apart one two oneLock twoLock foundOne foundTwo different :=
    voted.apart one two oneLock twoLock (getElem?_of_erase foundOne).2
      (getElem?_of_erase foundTwo).2 different

/-- A lock is forgotten together with its votes. -/
theorem Voted.forget (voted : Voted votes locks) {hash : UInt256}
    {lock : CTransactionLock} (found : locks[hash]? = some lock) :
    Voted (eraseKeys (lock.vecConsensusVotes.map (·.getHash)) votes)
      (locks.erase hash) where
  each other otherLock foundOther := by
    obtain ⟨different, before⟩ := getElem?_of_erase foundOther
    have otherVotes := voted.each other otherLock before
    refine { otherVotes with known := ?_ }
    intro vote member
    rw [eraseKeys_apply, if_neg]
    · exact otherVotes.known vote member
    · intro erased
      exact voted.apart hash other lock otherLock found before different erased
        (List.mem_map_of_mem member)
  apart := (voted.erase hash).apart

theorem Voted.expire (voted : Voted votes locks) (time : Int)
    (hash : UInt256) : Voted votes (expire time hash locks) := by
  unfold SwiftTx.expire
  cases found : locks[hash]? with
  | none => exact voted
  | some lock => exact voted.replace found rfl rfl

end Votes

/-! ### Messages -/

section Messages

variable {around : Surroundings} {tables : LockTables}

theorem createNewLock_cases (around : Surroundings) (tipHeight : Int)
    (tx : CTransaction) (tables : LockTables) :
    ∃ locks, (createNewLock around tipHeight tx tables).2 =
        { tables with mapTxLocks := locks } ∧
      ∀ votes, Voted votes tables.mapTxLocks → Voted votes locks := by
  unfold createNewLock
  cases txAge around 0 tx.vin.reverse with
  | none => exact ⟨tables.mapTxLocks, rfl, fun _ voted => voted⟩
  | some nTxAge =>
      refine ⟨_, rfl, fun votes voted => ?_⟩
      cases found : tables.mapTxLocks[tx.getHash]? with
      | none => exact voted.insert_newLock _ _ _
      | some lock => exact voted.replace found rfl rfl

theorem doConsensusVote_cases (around : Surroundings) (tx : CTransaction)
    (nBlockHeight : Int) (tables : LockTables) :
    ∃ votes, doConsensusVote around tx nBlockHeight tables =
        { tables with mapTxLockVote := votes } ∧
      ∀ locks, Voted tables.mapTxLockVote locks → Voted votes locks := by
  have same : ∃ votes, tables = { tables with mapTxLockVote := votes } ∧
      ∀ locks, Voted tables.mapTxLockVote locks → Voted votes locks :=
    ⟨tables.mapTxLockVote, rfl, fun _ voted => voted⟩
  unfold doConsensusVote
  dsimp only
  split_ifs
  · exact same
  · exact same
  · exact same
  · cases around.sign tx.getHash nBlockHeight with
    | none => exact same
    | some signature =>
        dsimp only
        split_ifs
        · exact same
        · exact ⟨_, rfl, fun _ voted => voted.vote _ _⟩

theorem checkInputs_cases (time : Int) (hash : UInt256) (tables : LockTables)
    (vin : List CTxIn) :
    ∃ locks, (checkInputs time hash tables vin).2 =
        { tables with mapTxLocks := locks } ∧
      ∀ votes, Voted votes tables.mapTxLocks → Voted votes locks := by
  induction vin with
  | nil => exact ⟨tables.mapTxLocks, rfl, fun _ voted => voted⟩
  | cons input vin ih =>
      unfold checkInputs
      cases tables.mapLockedInputs input.prevout with
      | none => exact ih
      | some other =>
          dsimp only
          split_ifs
          · refine ⟨_, rfl, fun votes voted => ?_⟩
            exact (voted.expire time hash).expire time other
          · exact ih

theorem insertRequest_sound {tx : CTransaction} (sound : Sound tables)
    (same : ∀ other, tables.mapTxLockReqRejected tx.getHash = some other →
      tx = other) :
    Sound (insertRequest tx tables) := by
  unfold insertRequest
  cases found : tables.mapTxLockReq tx.getHash with
  | some _ => exact sound
  | none => exact ⟨sound.requested.request found same, sound.voted⟩

theorem rejectRequest_sound {tx : CTransaction} (sound : Sound tables)
    (new : tables.mapTxLockReq tx.getHash = none)
    (newRejected : tables.mapTxLockReqRejected tx.getHash = none) :
    Sound (rejectRequest around tx tables) := by
  have noted : Sound (noteRejected tx tables) := by
    refine ⟨?_, sound.voted⟩
    exact (sound.requested.reject new newRejected).lockInputs
      (.inr (Function.update_self ..))
  unfold rejectRequest
  dsimp only
  cases (noteRejected tx tables).mapTxLocks[tx.getHash]? with
  | none => exact noted
  | some lock =>
      dsimp only
      split_ifs
      · unfold checkForConflictingLocks
        obtain ⟨locks, sameTables, voted⟩ := checkInputs_cases around.time
          tx.getHash (noteRejected tx tables) tx.vin
        split
        case h_1 after isConflict =>
          rw [show after = _ from isConflict ▸ sameTables]
          exact ⟨noted.requested, voted _ noted.voted⟩
        case h_2 after noConflict =>
          rw [show after = _ from noConflict ▸ sameTables]
          have isTx : (noteRejected tx tables).mapTxLockReqRejected
              tx.getHash = some tx := Function.update_self ..
          refine insertRequest_sound ?_ fun other known => ?_
          · exact ⟨noted.requested, voted _ noted.voted⟩
          · exact Option.some.inj (isTx.symm.trans known)
      · exact noted

theorem takeRequest_sound {tx : CTransaction} (sound : Sound tables)
    (new : tables.mapTxLockReq tx.getHash = none)
    (newRejected : tables.mapTxLockReqRejected tx.getHash = none) :
    Sound (takeRequest around tx tables) := by
  unfold takeRequest
  cases around.tipHeight with
  | none => exact sound
  | some tipHeight =>
      obtain ⟨locks, sameTables, voted⟩ :=
        createNewLock_cases around tipHeight tx tables
      dsimp only
      rw [sameTables]
      cases around.acceptToMemoryPool tx with
      | true =>
          obtain ⟨votes, sameLocks, known⟩ := doConsensusVote_cases around tx
            (createNewLock around tipHeight tx tables).1
            { tables with mapTxLocks := locks }
          rw [if_pos rfl, sameLocks]
          refine insertRequest_sound ?_ fun other isRejected => ?_
          · exact ⟨sound.requested, known _ (voted _ sound.voted)⟩
          · cases newRejected.symm.trans isRejected
      | false =>
          refine rejectRequest_sound ?_ new newRejected
          exact ⟨sound.requested, voted _ sound.voted⟩

theorem processIx_sound (sound : Sound tables) (tx : CTransaction) :
    Sound (processIx around tx tables) := by
  unfold processIx
  cases new : tables.mapTxLockReq tx.getHash with
  | some _ => exact sound
  | none =>
    cases newRejected : tables.mapTxLockReqRejected tx.getHash with
    | some _ => exact sound
    | none =>
      rw [if_neg (by simp)]
      split_ifs
      · exact sound
      · exact sound
      · exact takeRequest_sound sound new newRejected

/-- The lock of a known request is completed. -/
theorem completeLock_sound (sound : Sound tables) {txHash : UInt256}
    (known : tables.mapTxLockReq txHash ≠ none) :
    Sound (completeLock around txHash tables) := by
  obtain ⟨tx, found⟩ := Option.ne_none_iff_exists'.mp known
  have kept : Function.update tables.mapTxLockReq txHash (some tx) =
      tables.mapTxLockReq := by
    rw [← found, Function.update_eq_self]
  unfold completeLock checkForConflictingLocks
  rw [found, Option.getD_some]
  dsimp only
  rw [kept]
  obtain ⟨locks, sameTables, voted⟩ :=
    checkInputs_cases around.time tx.getHash tables tx.vin
  split
  case h_1 after isConflict =>
    rw [show after = _ from isConflict ▸ sameTables]
    exact ⟨sound.requested, voted _ sound.voted⟩
  case h_2 after noConflict =>
    rw [show after = _ from noConflict ▸ sameTables]
    exact ⟨sound.requested.lockInputs (.inl found), voted _ sound.voted⟩

/-- A vote is new to the node and passes all checks. -/
structure Counted (around : Surroundings) (ctx : CConsensusVote)
    (tables : LockTables) : Prop where
  new : tables.mapTxLockVote ctx.getHash = none
  known : around.getMasternodeRank ctx.vinMasternode ctx.nBlockHeight ≠ -1
  top : around.getMasternodeRank ctx.vinMasternode ctx.nBlockHeight ≤
    swifttxSignaturesTotal
  signatureValid : around.signatureValid ctx = true

/-- A vote gives a lock its last signature, but the transaction is not in
`mapTxLockReq`. -/
structure CompletesUnknown (around : Surroundings) (ctx : CConsensusVote)
    (tables : LockTables) : Prop where
  counted : Counted around ctx tables
  unknown : tables.mapTxLockReq ctx.txHash = none
  complete : ∃ lock, tables.mapTxLocks[ctx.txHash]? = some lock ∧
    swifttxSignaturesRequired ≤ (lock.addSignature ctx).countSignatures

/-- A lock that begins with a vote has no height, and is not complete. -/
theorem newLock_incomplete (time : Int) (ctx : CConsensusVote) :
    ((newLock 0 time ctx.txHash).addSignature ctx).countSignatures <
      swifttxSignaturesRequired := by
  unfold CTransactionLock.countSignatures CTransactionLock.addSignature
    newLock swifttxSignaturesRequired
  rw [if_pos rfl]
  decide

theorem processConsensusVote_sound (sound : Sound tables)
    {ctx : CConsensusVote}
    (completes : ¬ CompletesUnknown around ctx tables)
    (new : tables.mapTxLockVote ctx.getHash = none) :
    Sound (processConsensusVote around ctx { tables with
      mapTxLockVote := Function.update tables.mapTxLockVote ctx.getHash
        (some ctx) }).2 := by
  have seen := sound.voted.vote ctx.getHash ctx
  unfold processConsensusVote
  dsimp only
  by_cases known :
      around.getMasternodeRank ctx.vinMasternode ctx.nBlockHeight = -1
  · rw [if_pos known]
    exact ⟨sound.requested, seen⟩
  rw [if_neg known]
  by_cases top : around.getMasternodeRank ctx.vinMasternode
      ctx.nBlockHeight > swifttxSignaturesTotal
  · rw [if_pos top]
    exact ⟨sound.requested, seen⟩
  rw [if_neg top]
  cases signed : around.signatureValid ctx with
  | false => exact ⟨sound.requested, seen⟩
  | true =>
    have counted : Counted around ctx tables :=
      ⟨new, known, Int.not_lt.mp top, signed⟩
    rw [Bool.not_true, if_neg Bool.false_ne_true]
    cases found : tables.mapTxLocks[ctx.txHash]? with
    | none =>
        rw [Option.getD_none,
          if_neg (Int.not_le.mpr (newLock_incomplete around.time ctx))]
        refine ⟨sound.requested, ?_⟩
        refine sound.voted.addSignature ⟨rfl, nofun, nofun, List.nodup_nil⟩
          (fun _ _ _ _ => List.disjoint_nil_left _) new
    | some lock =>
        have added := sound.voted.addSignature
          (sound.voted.each ctx.txHash lock found)
          (fun other otherLock foundOther different =>
            sound.voted.apart ctx.txHash other lock otherLock found foundOther
              different) new
        rw [Option.getD_some]
        by_cases complete : (lock.addSignature ctx).countSignatures ≥
            swifttxSignaturesRequired
        · have before : Sound { tables with
              mapTxLockVote := Function.update tables.mapTxLockVote
                ctx.getHash (some ctx)
              mapTxLocks := tables.mapTxLocks.insert ctx.txHash
                (lock.addSignature ctx) } := ⟨sound.requested, added⟩
          rw [if_pos complete]
          refine completeLock_sound before fun unknown => ?_
          exact completes ⟨counted, unknown, lock, found, complete⟩
        · rw [if_neg complete]
          exact ⟨sound.requested, added⟩

theorem processTxlvote_sound (sound : Sound tables) {ctx : CConsensusVote}
    (completes : ¬ CompletesUnknown around ctx tables) :
    Sound (processTxlvote around ctx tables) := by
  unfold processTxlvote
  cases new : tables.mapTxLockVote ctx.getHash with
  | some _ => exact sound
  | none =>
    have processed := processConsensusVote_sound sound completes new
    rw [Option.isSome_none, if_neg Bool.false_ne_true]
    dsimp only
    split
    case h_1 after ignored =>
      rw [ignored] at processed
      exact processed
    case h_2 after voted =>
      rw [voted] at processed
      split_ifs
      · exact ⟨processed.requested, processed.voted⟩
      · exact processed

end Messages

/-! ### Cleaning -/

theorem cleanLock_sound {tables : LockTables} (sound : Sound tables)
    (time : Int) (key : UInt256) : Sound (cleanLock time tables key) := by
  unfold cleanLock
  cases found : tables.mapTxLocks[key]? with
  | none => exact sound
  | some lock =>
      have isKey := (sound.voted.each key lock found).txHash
      dsimp only
      split_ifs
      · rw [isKey]
        cases request : tables.mapTxLockReq key with
        | none => exact ⟨sound.requested, sound.voted.erase key⟩
        | some tx =>
            exact ⟨sound.requested.forget request, sound.voted.forget found⟩
      · exact sound

theorem cleanTransactionLocksList_sound {tables : LockTables}
    (sound : Sound tables) (around : Surroundings) :
    Sound (cleanTransactionLocksList around tables) := by
  unfold cleanTransactionLocksList
  cases around.tipHeight with
  | none => exact sound
  | some _ =>
      dsimp only
      generalize tables.mapTxLocks.keys = keys
      induction keys generalizing tables with
      | nil => exact sound
      | cons key keys ih =>
          rw [List.foldl_cons]
          exact ih (cleanLock_sound sound around.time key)

/-! ## Runs without unknown complete locks -/

/-- No vote completes the lock of a transaction without a request. -/
def CompletesKnown (tables : LockTables) : Step → Prop
  | .txlvote around ctx =>
      listens around = true → ¬ CompletesUnknown around ctx tables
  | _ => True

theorem step_sound {tables : LockTables} (sound : Sound tables) (step : Step)
    (known : CompletesKnown tables step) : Sound (tables.step step) := by
  cases step with
  | ix around tx =>
      unfold LockTables.step
      dsimp only
      split_ifs
      · exact processIx_sound sound tx
      · exact sound
  | txlvote around ctx =>
      unfold LockTables.step
      dsimp only
      split_ifs
      case pos hears => exact processTxlvote_sound sound (known hears)
      case neg => exact sound
  | cleanTransactionLocksList around =>
      exact cleanTransactionLocksList_sound sound around

theorem noLocks_sound : Sound noLocks where
  requested := ⟨nofun, nofun, nofun⟩
  voted := by
    have empty : ∀ (hash : UInt256) (lock : CTransactionLock),
        noLocks.mapTxLocks[hash]? ≠ some lock := by
      intro hash lock
      unfold noLocks
      rw [Std.ExtTreeMap.getElem?_empty]
      exact nofun
    exact ⟨fun hash lock found => absurd found (empty hash lock),
      fun hash _ lock _ found => absurd found (empty hash lock)⟩

/-- The tables are coherent in all states of a run in which no vote completes
the lock of a transaction without a request. -/
theorem lock_tables_coherent (steps : List Step)
    (known : Along LockTables.step CompletesKnown steps noLocks) :
    Always LockTables.step Coherent steps noLocks := by
  refine Along.always ?_ ?_ noLocks_sound known
  · exact fun tables step sound meets => step_sound sound step meets
  · exact fun tables sound => sound.coherent

/-- A masternode list that knows all voters, at height 100. -/
def lockNode (accepts : Bool) : Surroundings where
  fLiteMode := false
  isSporkActive := true
  maxValue := 1000
  isBlockchainSynced := true
  time := 1000
  tipHeight := some 100
  getTransaction := fun _ => none
  isNormalPaymentScript := fun _ => true
  getInputAge := fun _ => 5
  acceptToMemoryPool := fun _ => accepts
  fMasterNode := false
  activeMasternode := ⟨⟨0, 0⟩, [], 0⟩
  getMasternodeRank := fun _ _ => 1
  sign := fun _ _ => none
  signatureValid := fun _ => true
  updatedTransaction := fun _ => false

/-- A transaction that spends an output of the transaction 4. -/
def lockedTx : CTransaction :=
  ⟨5, 1, txPayment, [⟨⟨4, 0⟩, [], 0⟩], [⟨1, []⟩], .plain txMetaEmpty, [], 0⟩

/-- The vote of a masternode for the lock. -/
def lockVote (masternode : UInt32) : CConsensusVote :=
  ⟨⟨⟨7, masternode⟩, [], 0⟩, 5, 99, []⟩

theorem completesKnown_of_requested {tables : LockTables}
    {around : Surroundings} {ctx : CConsensusVote}
    (requested : tables.mapTxLockReq ctx.txHash ≠ none) :
    CompletesKnown tables (.txlvote around ctx) :=
  fun _ completes => requested completes.unknown

/-- A request, and the votes that complete its lock. -/
def completedRun : List Step :=
  .ix (lockNode true) lockedTx ::
    [0, 1, 2, 3, 4, 5].map fun masternode =>
      .txlvote (lockNode true) (lockVote masternode)

/-- The lock is complete, and cleaned once it has expired. -/
theorem lock_tables_coherent_completed :
    (completedRun.foldl LockTables.step noLocks).mapLockedInputs ⟨4, 0⟩ =
        some 5 ∧
      Always LockTables.step Coherent
        (completedRun ++
          [.cleanTransactionLocksList { lockNode true with time := 100000 }])
        noLocks := by
  refine ⟨by decide, lock_tables_coherent _ ⟨trivial, ?_, ?_, ?_, ?_, ?_, ?_,
    trivial, trivial⟩⟩
  all_goals exact completesKnown_of_requested (by decide)

/-- Six votes complete the lock of a request that the pool has refused. -/
theorem rejected_request_completed :
    ¬ Always LockTables.step Coherent
      (.ix (lockNode false) lockedTx ::
        [0, 1, 2, 3, 4, 5].map fun masternode =>
          .txlvote (lockNode false) (lockVote masternode))
      noLocks := by
  rintro ⟨_, _, _, _, _, _, _, coherent⟩
  have named := coherent.requests 5 emptyTransaction (by decide)
  exact absurd named (by decide)

end PrivateDatagram.Governance.SwiftTx
