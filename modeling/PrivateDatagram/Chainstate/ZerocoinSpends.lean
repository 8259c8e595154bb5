import PrivateDatagram.Chainstate.Disconnect

/-!
# Spent serials

`zerocoinDB` maps the serial number of a spent zerocoin to the transaction that
spends it.  `ConnectBlock` writes the records and `DisconnectBlock` erases them,
at once and not through the view of the coins.  `VerifyDB` runs both on the
blocks of the active chain while the chain stays as it is.

Hashes are taken to be injective: a block, a transaction and a serial number
stand here for their hashes.  The transaction index is on.  Reading and writing
files succeeds, except where a pass of `VerifyDB` says otherwise.
-/

namespace PrivateDatagram.Chainstate.ZerocoinSpends

open Wire.Serialize Wire.Transaction Wire.Script Coins
open Chainstate.Disconnect (plainTx)

/-! ## Blocks and serials -/

/-- What hashes stand for. -/
structure Ledger where
  /-- `mapBlockIndex[hash]->nHeight`. -/
  nHeight : UInt256 → Nat
  /-- The transactions of the block that `ReadBlockFromDisk` finds. -/
  vtx : UInt256 → List UInt256
  transaction : UInt256 → CTransaction
  /-- The serial number of `TxInToZerocoinSpend`. -/
  serialNumber : CTxIn → UInt256

namespace Ledger

variable (ledger : Ledger)

def isSpend (txid : UInt256) : Bool :=
  isZerocoinSpendTx (ledger.transaction txid) = some true

/-- The serials that a transaction spends. -/
def serials (txid : UInt256) : List UInt256 :=
  if ledger.isSpend txid then
    ((ledger.transaction txid).vin.filter fun txin =>
      isZerocoinSpend txin.scriptSig).map ledger.serialNumber
  else
    []

/-- `vSpends` of a block. -/
def spends (hash : UInt256) : List (UInt256 × UInt256) :=
  (ledger.vtx hash).flatMap fun txid =>
    (ledger.serials txid).map fun serial => (serial, txid)

def blockSerials (hash : UInt256) : List UInt256 :=
  (ledger.vtx hash).flatMap ledger.serials

end Ledger

/-! ## The state -/

structure State where
  /-- The blocks above genesis, the newest first. -/
  chainActive : List UInt256
  zerocoinDB : UInt256 → Option UInt256
  /-- The block in which the transaction index finds a transaction. -/
  txIndex : UInt256 → Option UInt256
  mempool : List UInt256

def genesisState : State := ⟨[], fun _ => none, fun _ => none, []⟩

section Operations

variable (ledger : Ledger)

/--
`IsTransactionInChain`, with the height.  A transaction of the pool is found
there first, without a block.
-/
def isTransactionInChain (state : State) (txid : UInt256) : Option Nat :=
  if txid ∈ state.mempool then
    none
  else
    match state.txIndex txid with
    | none => none
    | some hashBlock =>
        if hashBlock ≠ 0 ∧ hashBlock ∈ state.chainActive then
          some (ledger.nHeight hashBlock)
        else
          none

def isSerialInBlockchain (state : State) (serial : UInt256) : Bool :=
  match state.zerocoinDB serial with
  | none => false
  | some txHash => (isTransactionInChain ledger state txHash).isSome

/-- What `ConnectBlock` demands of a transaction that spends zerocoins. -/
def acceptsSpend (fVerifyingBlocks : Bool) (hash : UInt256) (state : State)
    (txid : UInt256) : Bool :=
  (match isTransactionInChain ledger state txid with
    | none => true
    | some nHeightTx =>
        fVerifyingBlocks && !decide (nHeightTx < ledger.nHeight hash)) &&
    (ledger.serials txid).all fun serial =>
      !isSerialInBlockchain ledger state serial

def writeCoinSpend (db : UInt256 → Option UInt256)
    (spend : UInt256 × UInt256) : UInt256 → Option UInt256 :=
  Function.update db spend.1 (some spend.2)

/--
`ConnectBlock` without `fJustCheck`, with the verdict of the checks that have
nothing to do with serials.
-/
def connectBlock (fVerifyingBlocks valid : Bool) (hash : UInt256)
    (state : State) : Option State :=
  if valid && decide (ledger.blockSerials hash).Nodup &&
      ((ledger.vtx hash).filter ledger.isSpend).all
        (acceptsSpend ledger fVerifyingBlocks hash state) then
    some { state with
      zerocoinDB := (ledger.spends hash).foldl writeCoinSpend state.zerocoinDB
      txIndex := fun txid =>
        if txid ∈ ledger.vtx hash then some hash else state.txIndex txid }
  else
    none

/-- `EraseCoinSpend` for the serials of transactions. -/
def eraseCoinSpends (txids : List UInt256) (db : UInt256 → Option UInt256) :
    UInt256 → Option UInt256 := fun serial =>
  if serial ∈ txids.flatMap ledger.serials then none else db serial

/-- `DisconnectBlock`, from the last transaction to the first. -/
def disconnectBlock (hash : UInt256) (state : State) : State :=
  { state with
    zerocoinDB := eraseCoinSpends ledger (ledger.vtx hash) state.zerocoinDB }

/-- `DisconnectBlock` that stops after some transactions. -/
def disconnectPart (transactions : Nat) (hash : UInt256) (state : State) :
    State :=
  { state with
    zerocoinDB := eraseCoinSpends ledger
      ((ledger.vtx hash).reverse.take transactions) state.zerocoinDB }

/-! ## Verifying -/

/--
A call of `VerifyDB` and what it meets on the way: for each block whether it can
be read, is valid, has undo data and fits in the cache, after how many
transactions disconnecting fails, whether the coins were as expected, whether a
shutdown is requested then, and whether the block can be read again and passes
the other checks of `ConnectBlock`.
-/
structure Pass where
  nCheckLevel : Int
  nCheckDepth : Int
  readBlock : UInt256 → Bool
  checkBlock : UInt256 → Bool
  readUndo : UInt256 → Bool
  fits : UInt256 → Bool
  disconnectFails : UInt256 → Option Nat
  fClean : UInt256 → Bool
  shutdownRequested : UInt256 → Bool
  readAgain : UInt256 → Bool
  valid : UInt256 → Bool

namespace Pass

def level (pass : Pass) : Int := max 0 (min 4 pass.nCheckLevel)

def depth (pass : Pass) (height : Int) : Int :=
  let nCheckDepth :=
    if pass.nCheckDepth ≤ 0 then 1000000000 else pass.nCheckDepth
  if height < nCheckDepth then height else nCheckDepth

/-- The blocks that the first loop looks at. -/
def visited (pass : Pass) (state : State) : List UInt256 :=
  state.chainActive.take
    ((pass.depth state.chainActive.length).toNat + 1)

end Pass

/-- Where the first loop ends. -/
inductive LoopEnd where
  /-- `VerifyDB` returns. -/
  | returns (result : Bool) (state : State)
  /-- The blocks that were disconnected, the newest first. -/
  | done (disconnected : List UInt256) (failure : Bool) (state : State)

/-- Put a disconnected block before those that the rest of the loop finds. -/
def LoopEnd.after (hash : UInt256) (clean : Bool) : LoopEnd → LoopEnd
  | .returns result state => .returns result state
  | .done disconnected failure state =>
      .done (hash :: disconnected) (failure || !clean) state

/--
The loop from the tip down.  `atState` says that all blocks so far were
disconnected, so that the next is `pindexState`.
-/
def checkBlocks (pass : Pass) : Bool → List UInt256 → State → LoopEnd
  | _, [], state => .done [] false state
  | atState, hash :: rest, state =>
      if !pass.readBlock hash then .returns false state
      else if 1 ≤ pass.level ∧ !pass.checkBlock hash then .returns false state
      else if 2 ≤ pass.level ∧ !pass.readUndo hash then .returns false state
      else if 3 ≤ pass.level ∧ atState ∧ pass.fits hash then
        match pass.disconnectFails hash with
        | some transactions =>
            .returns false (disconnectPart ledger transactions hash state)
        | none =>
            let state := disconnectBlock ledger hash state
            if pass.shutdownRequested hash then .returns true state
            else
              (checkBlocks pass true rest state).after hash (pass.fClean hash)
      else if pass.shutdownRequested hash then .returns true state
      else checkBlocks pass false rest state

/-- The loop of level 4, from the oldest disconnected block to the tip. -/
def reconnectBlocks (pass : Pass) : List UInt256 → State → Bool × State
  | [], state => (true, state)
  | hash :: rest, state =>
      if !pass.readAgain hash then (false, state)
      else
        match connectBlock ledger true (pass.valid hash) hash state with
        | none => (false, state)
        | some state => reconnectBlocks pass rest state

def verifyDB (pass : Pass) (state : State) : Bool × State :=
  if state.chainActive = [] then
    (true, state)
  else
    match checkBlocks ledger pass true (pass.visited state) state with
    | .returns result state => (result, state)
    | .done disconnected failure state =>
        if failure then (false, state)
        else if 4 ≤ pass.level then
          reconnectBlocks ledger pass disconnected.reverse state
        else (true, state)

/-! ## Runs -/

inductive Event where
  /-- `ConnectTip`. -/
  | connectTip (hash : UInt256) (fVerifyingBlocks valid : Bool)
  | disconnectTip
  | acceptToMemoryPool (txid : UInt256)
  | removeFromMemoryPool (txid : UInt256)
  | verifyDB (pass : Pass)

def step (state : State) : Event → State
  | .connectTip hash fVerifyingBlocks valid =>
      -- an entry of the block index whose parent is the tip
      if hash ≠ 0 ∧ ledger.nHeight hash = state.chainActive.length + 1 then
        match connectBlock ledger fVerifyingBlocks valid hash state with
        | none => state
        | some state =>
            { state with
              chainActive := hash :: state.chainActive
              mempool := state.mempool.filter (· ∉ ledger.vtx hash) }
      else
        state
  | .disconnectTip =>
      match state.chainActive with
      | [] => state
      | hash :: pprev =>
          { disconnectBlock ledger hash state with chainActive := pprev }
  | .acceptToMemoryPool txid =>
      if ledger.isSpend txid &&
          ((isTransactionInChain ledger state txid).isSome ||
            (ledger.serials txid).any (isSerialInBlockchain ledger state)) then
        state
      else
        { state with mempool := txid :: state.mempool }
  | .removeFromMemoryPool txid =>
      { state with mempool := state.mempool.filter (· ≠ txid) }
  | .verifyDB pass => (verifyDB ledger pass state).2

def run (state : State) (events : List Event) : State :=
  events.foldl (step ledger) state

end Operations

/-! ## What the database says -/

section Records

variable (ledger : Ledger)

/-- A transaction of a chain. -/
def Confirmed (chain : List UInt256) (txid : UInt256) : Prop :=
  ∃ hash ∈ chain, txid ∈ ledger.vtx hash

/-- The records are the spends of the transactions of a chain. -/
def Records (db : UInt256 → Option UInt256) (chain : List UInt256) : Prop :=
  ∀ serial txid, db serial = some txid ↔
    Confirmed ledger chain txid ∧ serial ∈ ledger.serials txid

variable {ledger}

theorem confirmed_cons {hash : UInt256} {chain : List UInt256}
    {txid : UInt256} :
    Confirmed ledger (hash :: chain) txid ↔
      txid ∈ ledger.vtx hash ∨ Confirmed ledger chain txid := by
  unfold Confirmed
  simp only [List.mem_cons, exists_eq_or_imp]

theorem isSpend_of_mem {serial txid : UInt256}
    (member : serial ∈ ledger.serials txid) : ledger.isSpend txid = true := by
  unfold Ledger.serials at member
  split_ifs at member with spend
  · exact spend
  · cases member

theorem mem_spends {hash serial txid : UInt256} :
    (serial, txid) ∈ ledger.spends hash ↔
      txid ∈ ledger.vtx hash ∧ serial ∈ ledger.serials txid := by
  unfold Ledger.spends
  simp only [List.mem_flatMap, List.mem_map, Prod.mk.injEq]
  constructor
  · rintro ⟨_, member, _, inSerials, rfl, rfl⟩
    exact ⟨member, inSerials⟩
  · rintro ⟨member, inSerials⟩
    exact ⟨txid, member, serial, inSerials, rfl, rfl⟩

theorem map_fst_spends (hash : UInt256) :
    (ledger.spends hash).map Prod.fst = ledger.blockSerials hash := by
  unfold Ledger.spends Ledger.blockSerials
  rw [List.map_flatMap]
  congr 1
  funext txid
  rw [List.map_map]
  exact List.map_id _

theorem mem_blockSerials {hash serial : UInt256} :
    serial ∈ ledger.blockSerials hash ↔
      ∃ txid ∈ ledger.vtx hash, serial ∈ ledger.serials txid :=
  List.mem_flatMap

/-- Writing distinct serials leaves exactly the new and the old records. -/
theorem foldl_writeCoinSpend {spends : List (UInt256 × UInt256)}
    (distinct : (spends.map Prod.fst).Nodup) (db : UInt256 → Option UInt256)
    (serial txid : UInt256) :
    spends.foldl writeCoinSpend db serial = some txid ↔
      (serial, txid) ∈ spends ∨
        serial ∉ spends.map Prod.fst ∧ db serial = some txid := by
  induction spends generalizing db with
  | nil => simp
  | cons first rest ih =>
      rcases first with ⟨written, writer⟩
      rw [List.map_cons, List.nodup_cons] at distinct
      rw [List.foldl_cons, ih distinct.2, writeCoinSpend, List.map_cons,
        List.mem_cons, List.mem_cons]
      by_cases here : serial = written
      · subst here
        have gone : (serial, txid) ∉ rest := by
          intro member
          exact distinct.1 (List.mem_map.mpr ⟨_, member, rfl⟩)
        simp [distinct.1, gone, eq_comm]
      · simp [here]

theorem records_connect {db : UInt256 → Option UInt256}
    {chain : List UInt256} {hash : UInt256} (records : Records ledger db chain)
    (distinct : (ledger.blockSerials hash).Nodup)
    (fresh : ∀ serial ∈ ledger.blockSerials hash, db serial = none) :
    Records ledger ((ledger.spends hash).foldl writeCoinSpend db)
      (hash :: chain) := by
  intro serial txid
  rw [← map_fst_spends] at distinct
  rw [foldl_writeCoinSpend distinct, map_fst_spends, mem_spends,
    confirmed_cons, records serial txid, or_and_right]
  refine or_congr Iff.rfl ⟨And.right, fun old => ⟨?_, old⟩⟩
  intro again
  have none := fresh serial again
  rw [(records serial txid).mpr old] at none
  cases none

theorem records_disconnect {db : UInt256 → Option UInt256}
    {chain : List UInt256} {hash : UInt256}
    (records : Records ledger db (hash :: chain))
    (once : ∀ txid ∈ ledger.vtx hash, ledger.isSpend txid = true →
      ¬ Confirmed ledger chain txid) :
    Records ledger (eraseCoinSpends ledger (ledger.vtx hash) db) chain := by
  intro serial txid
  unfold eraseCoinSpends
  constructor
  · intro found
    split_ifs at found with erased
    rcases (records serial txid).mp found with ⟨confirmed, member⟩
    rcases confirmed_cons.mp confirmed with here | older
    · exact absurd (mem_blockSerials.mpr ⟨txid, here, member⟩) erased
    · exact ⟨older, member⟩
  · rintro ⟨older, member⟩
    have found := (records serial txid).mpr
      ⟨confirmed_cons.mpr (Or.inr older), member⟩
    rw [if_neg]
    · exact found
    · intro erased
      rcases mem_blockSerials.mp erased with ⟨other, here, spends⟩
      have same := (records serial other).mpr
        ⟨confirmed_cons.mpr (Or.inl here), spends⟩
      rw [found] at same
      cases same
      exact once txid here (isSpend_of_mem member) older

end Records

/-! ## What every state keeps -/

section Invariant

variable (ledger : Ledger)

/-- The heights of a chain, and no block is the null hash. -/
def Stacked : List UInt256 → Prop
  | [] => True
  | hash :: pprev =>
      hash ≠ 0 ∧ ledger.nHeight hash = pprev.length + 1 ∧ Stacked pprev

/--
What holds apart from the records: spends are found in the one block that has
them, and not in the pool.
-/
structure Indexed (state : State) : Prop where
  stacked : Stacked ledger state.chainActive
  distinct : ∀ hash ∈ state.chainActive, (ledger.blockSerials hash).Nodup
  index : ∀ hash ∈ state.chainActive, ∀ txid ∈ ledger.vtx hash,
    ledger.isSpend txid = true → state.txIndex txid = some hash
  pool : ∀ hash ∈ state.chainActive, ∀ txid ∈ ledger.vtx hash,
    ledger.isSpend txid = true → txid ∉ state.mempool

structure Consistent (state : State) : Prop where
  indexed : Indexed ledger state
  records : Records ledger state.zerocoinDB state.chainActive

variable {ledger} {state : State}

theorem Stacked.height_le {chain : List UInt256} {hash : UInt256}
    (stacked : Stacked ledger chain) (member : hash ∈ chain) :
    ledger.nHeight hash ≤ chain.length := by
  induction chain with
  | nil => cases member
  | cons newest pprev ih =>
      rw [List.length_cons]
      rcases List.mem_cons.mp member with rfl | older
      · exact Nat.le_of_eq stacked.2.1
      · exact Nat.le_succ_of_le (ih stacked.2.2 older)

theorem Stacked.ne_zero {chain : List UInt256} {hash : UInt256}
    (stacked : Stacked ledger chain) (member : hash ∈ chain) : hash ≠ 0 := by
  induction chain with
  | nil => cases member
  | cons newest pprev ih =>
      rcases List.mem_cons.mp member with rfl | older
      · exact stacked.1
      · exact ih stacked.2.2 older

theorem Stacked.of_suffix {chain part : List UInt256}
    (stacked : Stacked ledger chain) (within : part <:+ chain) :
    Stacked ledger part := by
  induction chain with
  | nil =>
      rw [List.suffix_nil.mp within]
      trivial
  | cons newest pprev ih =>
      rcases List.suffix_cons_iff.mp within with rfl | inside
      · exact stacked
      · exact ih stacked.2.2 inside

theorem Stacked.not_mem {hash : UInt256} {pprev : List UInt256}
    (stacked : Stacked ledger (hash :: pprev)) : hash ∉ pprev := by
  intro again
  have low := stacked.2.2.height_le again
  have high := stacked.2.1
  omega

namespace Indexed

/-- A spend is in one block only. -/
theorem once (indexed : Indexed ledger state) {hash other txid : UInt256}
    (onChain : hash ∈ state.chainActive) (otherOn : other ∈ state.chainActive)
    (spend : ledger.isSpend txid = true) (here : txid ∈ ledger.vtx hash)
    (there : txid ∈ ledger.vtx other) : hash = other := by
  have first := indexed.index hash onChain txid here spend
  rw [indexed.index other otherOn txid there spend] at first
  exact (Option.some.inj first).symm

theorem not_older (indexed : Indexed ledger state) {hash txid : UInt256}
    {older : List UInt256} (within : (hash :: older) <:+ state.chainActive)
    (spend : ledger.isSpend txid = true) (here : txid ∈ ledger.vtx hash) :
    ¬ Confirmed ledger older txid := by
  rintro ⟨other, inOlder, there⟩
  have same := indexed.once (within.subset List.mem_cons_self)
    (within.subset (List.mem_cons_of_mem _ inOlder)) spend here there
  subst same
  exact (indexed.stacked.of_suffix within).not_mem inOlder

/-- `IsTransactionInChain` finds the spends of the active chain. -/
theorem inChain (indexed : Indexed ledger state) {hash txid : UInt256}
    (onChain : hash ∈ state.chainActive) (here : txid ∈ ledger.vtx hash)
    (spend : ledger.isSpend txid = true) :
    isTransactionInChain ledger state txid = some (ledger.nHeight hash) := by
  rw [isTransactionInChain,
    if_neg (indexed.pool hash onChain txid here spend),
    indexed.index hash onChain txid here spend]
  exact if_pos ⟨indexed.stacked.ne_zero onChain, onChain⟩

end Indexed

/-- In a consistent state a serial is in the chain exactly when recorded. -/
theorem Consistent.serial_recorded (consistent : Consistent ledger state)
    {serial : UInt256}
    (absent : isSerialInBlockchain ledger state serial = false) :
    state.zerocoinDB serial = none := by
  cases found : state.zerocoinDB serial with
  | none => rfl
  | some txid =>
      rcases (consistent.records serial txid).mp found with
        ⟨⟨hash, onChain, here⟩, member⟩
      have inChain := consistent.indexed.inChain onChain here
        (isSpend_of_mem member)
      rw [isSerialInBlockchain, found] at absent
      dsimp only at absent
      rw [inChain] at absent
      cases absent

/-- No two transactions of the chain spend one serial. -/
theorem Consistent.unique (consistent : Consistent ledger state)
    {serial txid other : UInt256}
    (confirmed : Confirmed ledger state.chainActive txid)
    (spends : serial ∈ ledger.serials txid)
    (otherConfirmed : Confirmed ledger state.chainActive other)
    (otherSpends : serial ∈ ledger.serials other) : txid = other := by
  have first := (consistent.records serial txid).mpr ⟨confirmed, spends⟩
  rw [(consistent.records serial other).mpr ⟨otherConfirmed, otherSpends⟩]
    at first
  exact (Option.some.inj first).symm

/-! ## One block -/

theorem connectBlock_some {fVerifyingBlocks valid : Bool} {hash : UInt256}
    {state' : State}
    (connected : connectBlock ledger fVerifyingBlocks valid hash state =
      some state') :
    (ledger.blockSerials hash).Nodup ∧
      (∀ txid ∈ ledger.vtx hash, ledger.isSpend txid = true →
        acceptsSpend ledger fVerifyingBlocks hash state txid = true) ∧
      state' = { state with
        zerocoinDB :=
          (ledger.spends hash).foldl writeCoinSpend state.zerocoinDB
        txIndex := fun txid =>
          if txid ∈ ledger.vtx hash then some hash
          else state.txIndex txid } := by
  unfold connectBlock at connected
  split_ifs at connected with accepted
  simp only [Bool.and_eq_true, decide_eq_true_eq, List.all_eq_true,
    List.mem_filter, and_imp] at accepted
  exact ⟨accepted.1.2, accepted.2, (Option.some.inj connected).symm⟩

/-- The serials of an accepted block are not recorded. -/
theorem Consistent.fresh (consistent : Consistent ledger state)
    {fVerifyingBlocks : Bool} {hash : UInt256}
    (accepted : ∀ txid ∈ ledger.vtx hash, ledger.isSpend txid = true →
      acceptsSpend ledger fVerifyingBlocks hash state txid = true)
    {serial : UInt256} (member : serial ∈ ledger.blockSerials hash) :
    state.zerocoinDB serial = none := by
  rcases mem_blockSerials.mp member with ⟨txid, here, spends⟩
  have accepts := accepted txid here (isSpend_of_mem spends)
  rw [acceptsSpend, Bool.and_eq_true, List.all_eq_true] at accepts
  have absent := accepts.2 serial spends
  rw [Bool.not_eq_true'] at absent
  exact consistent.serial_recorded absent

/-- A transaction above the tip is not one of the chain. -/
theorem Indexed.not_confirmed (indexed : Indexed ledger state)
    {fVerifyingBlocks : Bool} {hash txid : UInt256}
    (height : ledger.nHeight hash = state.chainActive.length + 1)
    (spend : ledger.isSpend txid = true)
    (accepts : acceptsSpend ledger fVerifyingBlocks hash state txid = true) :
    ¬ Confirmed ledger state.chainActive txid := by
  rintro ⟨other, onChain, there⟩
  rw [acceptsSpend, indexed.inChain onChain there spend, Bool.and_eq_true]
    at accepts
  have low := indexed.stacked.height_le onChain
  have notBelow := accepts.1
  simp only [Bool.and_eq_true, Bool.not_eq_true', decide_eq_false_iff_not]
    at notBelow
  omega

theorem Consistent.connectTip (consistent : Consistent ledger state)
    {fVerifyingBlocks valid : Bool} {hash : UInt256} {state' : State}
    (real : hash ≠ 0)
    (height : ledger.nHeight hash = state.chainActive.length + 1)
    (connected : connectBlock ledger fVerifyingBlocks valid hash state =
      some state') :
    Consistent ledger
      { state' with
        chainActive := hash :: state'.chainActive
        mempool := state'.mempool.filter (· ∉ ledger.vtx hash) } := by
  rcases connectBlock_some connected with ⟨distinct, accepted, rfl⟩
  have indexed := consistent.indexed
  refine ⟨⟨⟨real, height, indexed.stacked⟩, ?_, ?_, ?_⟩, ?_⟩
  · intro other member
    rcases List.mem_cons.mp member with rfl | older
    · exact distinct
    · exact indexed.distinct other older
  · intro other member txid there spend
    rcases List.mem_cons.mp member with rfl | older
    · exact if_pos there
    · have absent : txid ∉ ledger.vtx hash := by
        intro here
        exact indexed.not_confirmed height spend (accepted txid here spend)
          ⟨other, older, there⟩
      exact (if_neg absent).trans (indexed.index other older txid there spend)
  · intro other member txid there spend pooled
    rcases List.mem_filter.mp pooled with ⟨inPool, notHere⟩
    rcases List.mem_cons.mp member with rfl | older
    · exact of_decide_eq_true notHere there
    · exact indexed.pool other older txid there spend inPool
  · exact records_connect consistent.records distinct
      fun _ => consistent.fresh accepted

theorem Consistent.disconnectTip (consistent : Consistent ledger state)
    {hash : UInt256} {pprev : List UInt256}
    (chain : state.chainActive = hash :: pprev) :
    Consistent ledger
      { disconnectBlock ledger hash state with chainActive := pprev } := by
  have indexed := consistent.indexed
  have within : (hash :: pprev) <:+ state.chainActive := ⟨[], chain.symm⟩
  have older : ∀ other ∈ pprev, other ∈ state.chainActive := by
    intro other member
    exact within.subset (List.mem_cons_of_mem _ member)
  refine ⟨⟨?_, ?_, ?_, ?_⟩, ?_⟩
  · exact (indexed.stacked.of_suffix within).2.2
  · exact fun other member => indexed.distinct other (older other member)
  · exact fun other member => indexed.index other (older other member)
  · exact fun other member => indexed.pool other (older other member)
  · apply records_disconnect
    · rw [← chain]
      exact consistent.records
    · intro txid here spend
      exact indexed.not_older within spend here

theorem Consistent.acceptToMemoryPool (consistent : Consistent ledger state)
    {txid : UInt256}
    (accepted : ¬ (ledger.isSpend txid &&
      ((isTransactionInChain ledger state txid).isSome ||
        (ledger.serials txid).any (isSerialInBlockchain ledger state))) =
          true) :
    Consistent ledger { state with mempool := txid :: state.mempool } := by
  have indexed := consistent.indexed
  refine ⟨⟨indexed.stacked, indexed.distinct, indexed.index, ?_⟩,
    consistent.records⟩
  intro hash onChain other here spend pooled
  rcases List.mem_cons.mp pooled with rfl | before
  · apply accepted
    rw [spend, indexed.inChain onChain here spend]
    rfl
  · exact indexed.pool hash onChain other here spend before

/-! ## Verifying passes -/

/-- The index after a block of the active chain was connected once more. -/
theorem Indexed.reconnect (indexed : Indexed ledger state) {hash : UInt256}
    (onChain : hash ∈ state.chainActive) (db : UInt256 → Option UInt256) :
    Indexed ledger
      { state with
        zerocoinDB := db
        txIndex := fun txid =>
          if txid ∈ ledger.vtx hash then some hash
          else state.txIndex txid } := by
  refine ⟨indexed.stacked, indexed.distinct, ?_, indexed.pool⟩
  intro other otherOn txid there spend
  dsimp only
  split_ifs with here
  · rw [indexed.once onChain otherOn spend here there]
  · exact indexed.index other otherOn txid there spend

/-- A block of the active chain whose records are gone is accepted again. -/
theorem Indexed.accepted_again (indexed : Indexed ledger state)
    {hash : UInt256} {older : List UInt256}
    (within : (hash :: older) <:+ state.chainActive)
    (records : Records ledger state.zerocoinDB older)
    (unique : ∀ serial txid other, Confirmed ledger state.chainActive txid →
      serial ∈ ledger.serials txid →
      Confirmed ledger state.chainActive other →
      serial ∈ ledger.serials other → txid = other) :
    (∀ serial ∈ ledger.blockSerials hash, state.zerocoinDB serial = none) ∧
      ∃ state', connectBlock ledger true true hash state = some state' := by
  have onChain : hash ∈ state.chainActive :=
    within.subset List.mem_cons_self
  have fresh : ∀ txid ∈ ledger.vtx hash, ∀ serial ∈ ledger.serials txid,
      state.zerocoinDB serial = none := by
    intro txid here serial spends
    cases found : state.zerocoinDB serial with
    | none => rfl
    | some other =>
        rcases (records serial other).mp found with
          ⟨⟨block, inOlder, there⟩, otherSpends⟩
        have same := unique serial txid other ⟨hash, onChain, here⟩ spends
          ⟨block, within.subset (List.mem_cons_of_mem _ inOlder), there⟩
          otherSpends
        subst same
        exact absurd ⟨block, inOlder, there⟩
          (indexed.not_older within (isSpend_of_mem spends) here)
  refine ⟨?_, ?_⟩
  · intro serial member
    rcases mem_blockSerials.mp member with ⟨txid, here, spends⟩
    exact fresh txid here serial spends
  · refine ⟨_, if_pos ?_⟩
    simp only [Bool.true_and, Bool.and_eq_true, decide_eq_true_eq,
      List.all_eq_true, List.mem_filter, and_imp]
    refine ⟨indexed.distinct hash onChain, ?_⟩
    intro txid here spend
    rw [acceptsSpend, indexed.inChain onChain here spend]
    simp only [Nat.lt_irrefl, decide_false, Bool.not_false, Bool.and_self,
      Bool.true_and, List.all_eq_true, Bool.not_eq_true']
    intro serial spends
    rw [isSerialInBlockchain, fresh txid here serial spends]

/-- The pass meets nothing that makes it stop. -/
structure Undisturbed (pass : Pass) (hash : UInt256) : Prop where
  readBlock : pass.readBlock hash = true
  checkBlock : pass.checkBlock hash = true
  readUndo : pass.readUndo hash = true
  disconnects : pass.disconnectFails hash = none
  clean : pass.fClean hash = true
  noShutdown : pass.shutdownRequested hash = false
  readAgain : pass.readAgain hash = true
  valid : pass.valid hash = true

/-- Once a block was not disconnected, no further one is. -/
theorem checkBlocks_below {pass : Pass} {blocks : List UInt256}
    (undisturbed : ∀ hash ∈ blocks, Undisturbed pass hash) (state : State) :
    checkBlocks ledger pass false blocks state = .done [] false state := by
  induction blocks with
  | nil => rfl
  | cons hash rest ih =>
      rcases List.forall_mem_cons.mp undisturbed with ⟨here, later⟩
      rw [checkBlocks]
      simp only [here.readBlock, here.checkBlock, here.readUndo,
        here.noShutdown, Bool.not_true, Bool.false_eq_true, and_false,
        false_and, if_false]
      exact ih later

/-- An undisturbed first loop takes the records of some blocks out. -/
theorem checkBlocks_undisturbed {pass : Pass} {blocks below : List UInt256}
    (undisturbed : ∀ hash ∈ blocks, Undisturbed pass hash)
    (indexed : Indexed ledger state)
    (within : (blocks ++ below) <:+ state.chainActive)
    (records : Records ledger state.zerocoinDB (blocks ++ below)) :
    ∃ disconnected left db,
      blocks = disconnected ++ left ∧
      checkBlocks ledger pass true blocks state =
        .done disconnected false { state with zerocoinDB := db } ∧
      Records ledger db (left ++ below) := by
  induction blocks generalizing state with
  | nil => exact ⟨[], [], state.zerocoinDB, rfl, rfl, records⟩
  | cons hash rest ih =>
      rcases List.forall_mem_cons.mp undisturbed with ⟨here, later⟩
      rw [checkBlocks]
      simp only [here.readBlock, here.checkBlock, here.readUndo,
        here.disconnects, here.noShutdown, here.clean, Bool.not_true,
        Bool.false_eq_true, and_false, if_false, true_and]
      split_ifs with disconnects
      · have smaller := records_disconnect records fun txid inBlock spend =>
          indexed.not_older within spend inBlock
        have indexed' : Indexed ledger (disconnectBlock ledger hash state) :=
          ⟨indexed.stacked, indexed.distinct, indexed.index, indexed.pool⟩
        rcases ih later indexed' ((List.suffix_cons _ _).trans within) smaller
          with ⟨disconnected, left, db, shape, found, recorded⟩
        refine ⟨hash :: disconnected, left, db, ?_, ?_, recorded⟩
        · rw [shape, List.cons_append]
        · rw [found]
          rfl
      · exact ⟨[], hash :: rest, state.zerocoinDB, rfl,
          checkBlocks_below later state, records⟩

/-- Reconnecting all disconnected blocks brings their records back. -/
theorem reconnectBlocks_undisturbed {pass : Pass}
    {blocks older : List UInt256}
    (undisturbed : ∀ hash ∈ blocks, Undisturbed pass hash)
    (indexed : Indexed ledger state)
    (chain : state.chainActive = blocks.reverse ++ older)
    (records : Records ledger state.zerocoinDB older)
    (unique : ∀ serial txid other, Confirmed ledger state.chainActive txid →
      serial ∈ ledger.serials txid →
      Confirmed ledger state.chainActive other →
      serial ∈ ledger.serials other → txid = other) :
    Consistent ledger (reconnectBlocks ledger pass blocks state).2 := by
  induction blocks generalizing state older with
  | nil =>
      refine ⟨indexed, ?_⟩
      rw [reconnectBlocks, chain]
      exact records
  | cons hash rest ih =>
      rcases List.forall_mem_cons.mp undisturbed with ⟨here, later⟩
      have split : state.chainActive = rest.reverse ++ (hash :: older) := by
        rw [chain, List.reverse_cons, List.append_assoc]
        rfl
      have within : (hash :: older) <:+ state.chainActive := by
        rw [split]
        exact List.suffix_append _ _
      rcases indexed.accepted_again within records unique with
        ⟨fresh, state', connected⟩
      rw [reconnectBlocks, here.readAgain, here.valid, connected]
      rcases connectBlock_some connected with ⟨distinct, _, rfl⟩
      exact ih later
        (indexed.reconnect (within.subset List.mem_cons_self) _) split
        (records_connect records distinct fresh) unique

/-- An undisturbed pass of level 4 leaves the records as they were. -/
theorem Consistent.verify_undisturbed (consistent : Consistent ledger state)
    {pass : Pass} (reconnects : 4 ≤ pass.level)
    (undisturbed : ∀ hash ∈ pass.visited state, Undisturbed pass hash) :
    Consistent ledger (verifyDB ledger pass state).2 := by
  rw [verifyDB]
  by_cases noBlocks : state.chainActive = []
  · rw [if_pos noBlocks]
    exact consistent
  · rw [if_neg noBlocks]
    have indexed := consistent.indexed
    obtain ⟨below, whole⟩ : ∃ below,
        pass.visited state ++ below = state.chainActive :=
      ⟨_, List.take_append_drop _ _⟩
    have within : (pass.visited state ++ below) <:+ state.chainActive :=
      ⟨[], whole⟩
    have records := consistent.records
    rw [← whole] at records
    rcases checkBlocks_undisturbed undisturbed indexed within records with
      ⟨disconnected, left, db, shape, found, recorded⟩
    rw [found]
    dsimp only
    rw [if_neg Bool.false_ne_true, if_pos reconnects]
    apply reconnectBlocks_undisturbed
    · intro hash member
      apply undisturbed
      rw [shape]
      exact List.mem_append_left _ (List.mem_reverse.mp member)
    · exact ⟨indexed.stacked, indexed.distinct, indexed.index, indexed.pool⟩
    · rw [List.reverse_reverse, ← List.append_assoc, ← shape]
      exact whole.symm
    · exact recorded
    · intro serial txid other
      exact consistent.unique

/-- Erasing the serials of transactions that have none changes nothing. -/
theorem eraseCoinSpends_nothing {txids : List UInt256}
    (none : ∀ txid ∈ txids, ledger.serials txid = [])
    (db : UInt256 → Option UInt256) :
    eraseCoinSpends ledger txids db = db := by
  funext serial
  refine if_neg ?_
  intro member
  rcases List.mem_flatMap.mp member with ⟨txid, inBlock, spends⟩
  rw [none txid inBlock] at spends
  cases spends

/-- No transaction of the block spends a zerocoin. -/
def Plain (ledger : Ledger) (hash : UInt256) : Prop :=
  ∀ txid ∈ ledger.vtx hash, ledger.serials txid = []

theorem Plain.spends_nil {hash : UInt256} (plain : Plain ledger hash) :
    ledger.spends hash = [] := by
  refine List.flatMap_eq_nil_iff.mpr ?_
  intro txid member
  rw [plain txid member]
  rfl

/-- Where a loop ended, with the blocks it disconnected. -/
def LoopEnd.Within (blocks : List UInt256) (state : State) : LoopEnd → Prop
  | .returns _ last => last = state
  | .done disconnected _ last => last = state ∧ disconnected ⊆ blocks

theorem LoopEnd.Within.cons {blocks : List UInt256} {state : State}
    {loopEnd : LoopEnd} (hash : UInt256)
    (within : loopEnd.Within blocks state) :
    loopEnd.Within (hash :: blocks) state := by
  cases loopEnd with
  | returns result last => exact within
  | done disconnected failure last =>
      exact ⟨within.1, List.Subset.trans within.2 (List.subset_cons_self _ _)⟩

theorem LoopEnd.Within.after {blocks : List UInt256} {state : State}
    {loopEnd : LoopEnd} {hash : UInt256} {clean : Bool}
    (within : loopEnd.Within blocks state) :
    (loopEnd.after hash clean).Within (hash :: blocks) state := by
  cases loopEnd with
  | returns result last => exact within
  | done disconnected failure last =>
      exact ⟨within.1, List.cons_subset_cons _ within.2⟩

/-- On plain blocks the first loop changes nothing, however it ends. -/
theorem checkBlocks_plain {pass : Pass} {blocks : List UInt256}
    (plain : ∀ hash ∈ blocks, Plain ledger hash) (atState : Bool)
    (state : State) :
    (checkBlocks ledger pass atState blocks state).Within blocks state := by
  induction blocks generalizing atState with
  | nil => exact ⟨rfl, List.Subset.refl _⟩
  | cons hash rest ih =>
      rcases List.forall_mem_cons.mp plain with ⟨here, later⟩
      have whole : disconnectBlock ledger hash state = state := by
        unfold disconnectBlock
        rw [eraseCoinSpends_nothing here]
      have part : ∀ transactions,
          disconnectPart ledger transactions hash state = state := by
        intro transactions
        unfold disconnectPart
        rw [eraseCoinSpends_nothing]
        intro txid member
        exact here txid (List.mem_reverse.mp (List.mem_of_mem_take member))
      rw [checkBlocks]
      split_ifs
      · rfl
      · rfl
      · rfl
      · cases pass.disconnectFails hash with
        | some transactions => exact part transactions
        | none => exact whole
      · cases pass.disconnectFails hash with
        | some transactions => exact part transactions
        | none =>
            dsimp only
            rw [whole]
            exact (ih later true).after
      · rfl
      · exact (ih later false).cons hash

/-- Reconnecting plain blocks of the chain keeps the state consistent. -/
theorem Consistent.reconnect_plain (consistent : Consistent ledger state)
    {pass : Pass} {blocks : List UInt256}
    (plain : ∀ hash ∈ blocks, Plain ledger hash)
    (onChain : ∀ hash ∈ blocks, hash ∈ state.chainActive) :
    Consistent ledger (reconnectBlocks ledger pass blocks state).2 := by
  induction blocks generalizing state with
  | nil => exact consistent
  | cons hash rest ih =>
      rcases List.forall_mem_cons.mp plain with ⟨here, later⟩
      rcases List.forall_mem_cons.mp onChain with ⟨hereOn, laterOn⟩
      rw [reconnectBlocks]
      split_ifs
      · exact consistent
      · cases connected : connectBlock ledger true (pass.valid hash) hash
            state with
        | none => exact consistent
        | some state' =>
            rcases connectBlock_some connected with ⟨_, _, rfl⟩
            refine ih ⟨consistent.indexed.reconnect hereOn _, ?_⟩ later laterOn
            rw [here.spends_nil]
            exact consistent.records

/-- A pass that disconnects only plain blocks keeps the state consistent. -/
theorem Consistent.verify_within (consistent : Consistent ledger state)
    {pass : Pass} {blocks : List UInt256}
    (within : (checkBlocks ledger pass true (pass.visited state)
      state).Within blocks state)
    (plain : ∀ hash ∈ blocks, Plain ledger hash)
    (onChain : ∀ hash ∈ blocks, hash ∈ state.chainActive) :
    Consistent ledger (verifyDB ledger pass state).2 := by
  rw [verifyDB]
  by_cases noBlocks : state.chainActive = []
  · rw [if_pos noBlocks]
    exact consistent
  · rw [if_neg noBlocks]
    cases ended : checkBlocks ledger pass true (pass.visited state) state with
    | returns result last =>
        rw [ended] at within
        cases within
        exact consistent
    | done disconnected failure last =>
        rw [ended] at within
        rcases within with ⟨rfl, subset⟩
        dsimp only
        split_ifs
        · exact consistent
        · apply consistent.reconnect_plain
          · exact fun hash member =>
              plain hash (subset (List.mem_reverse.mp member))
          · exact fun hash member =>
              onChain hash (subset (List.mem_reverse.mp member))
        · exact consistent

/-- Below level 3 nothing is disconnected. -/
theorem checkBlocks_low {pass : Pass} (low : pass.level < 3)
    (atState : Bool) (blocks : List UInt256) (state : State) :
    (checkBlocks ledger pass atState blocks state).Within [] state := by
  have notThree : ¬ 3 ≤ pass.level := Int.not_le.mpr low
  induction blocks generalizing atState with
  | nil => exact ⟨rfl, List.Subset.refl _⟩
  | cons hash rest ih =>
      rw [checkBlocks]
      simp only [notThree, false_and, if_false]
      split_ifs
      · rfl
      · rfl
      · rfl
      · rfl
      · exact ih false

/--
The pass disconnects nothing, or only blocks without spends, or it reaches
level 4 and nothing stops it.
-/
def Harmless (ledger : Ledger) (pass : Pass) (state : State) : Prop :=
  pass.nCheckLevel < 3 ∨
    (∀ hash ∈ pass.visited state, Plain ledger hash) ∨
    (4 ≤ pass.nCheckLevel ∧
      ∀ hash ∈ pass.visited state, Undisturbed pass hash)

theorem Consistent.verifyDB (consistent : Consistent ledger state)
    {pass : Pass} (harmless : Harmless ledger pass state) :
    Consistent ledger (verifyDB ledger pass state).2 := by
  rcases harmless with low | plain | ⟨high, undisturbed⟩
  · have level : pass.level < 3 := by
      unfold Pass.level
      omega
    exact consistent.verify_within (checkBlocks_low level true _ state)
      (fun hash impossible => by cases impossible)
      (fun hash impossible => by cases impossible)
  · exact consistent.verify_within (checkBlocks_plain plain true state) plain
      fun hash member => List.mem_of_mem_take member
  · have level : 4 ≤ pass.level := by
      unfold Pass.level
      omega
    exact consistent.verify_undisturbed level undisturbed

/-! ## Runs -/

/-- Every pass of a run is harmless where it starts. -/
def HarmlessRun (ledger : Ledger) : State → List Event → Prop
  | _, [] => True
  | state, event :: rest =>
      (match event with
        | .verifyDB pass => Harmless ledger pass state
        | _ => True) ∧ HarmlessRun ledger (step ledger state event) rest

theorem Consistent.step (consistent : Consistent ledger state) (event : Event)
    (harmless : ∀ pass, event = .verifyDB pass → Harmless ledger pass state) :
    Consistent ledger (step ledger state event) := by
  cases event with
  | connectTip hash fVerifyingBlocks valid =>
      rw [ZerocoinSpends.step]
      split_ifs with onTip
      · cases connected : connectBlock ledger fVerifyingBlocks valid hash
            state with
        | none => exact consistent
        | some state' => exact consistent.connectTip onTip.1 onTip.2 connected
      · exact consistent
  | disconnectTip =>
      rw [ZerocoinSpends.step]
      cases chain : state.chainActive with
      | nil => exact consistent
      | cons hash pprev => exact consistent.disconnectTip chain
  | acceptToMemoryPool txid =>
      rw [ZerocoinSpends.step]
      split_ifs with rejected
      · exact consistent
      · exact consistent.acceptToMemoryPool rejected
  | removeFromMemoryPool txid =>
      have indexed := consistent.indexed
      refine ⟨⟨indexed.stacked, indexed.distinct, indexed.index, ?_⟩,
        consistent.records⟩
      intro hash onChain other here spend pooled
      exact indexed.pool hash onChain other here spend
        (List.mem_of_mem_filter pooled)
  | verifyDB pass => exact consistent.verifyDB (harmless pass rfl)

theorem consistent_genesis : Consistent ledger genesisState := by
  refine ⟨⟨trivial, ?_, ?_, ?_⟩, ?_⟩
  · intro hash impossible
    cases impossible
  · intro hash impossible
    cases impossible
  · intro hash impossible
    cases impossible
  · intro serial txid
    constructor
    · intro impossible
      cases impossible
    · rintro ⟨⟨hash, impossible, _⟩, _⟩
      cases impossible

theorem Consistent.run (consistent : Consistent ledger state)
    {events : List Event} (harmless : HarmlessRun ledger state events) :
    Consistent ledger (run ledger state events) := by
  induction events generalizing state with
  | nil => exact consistent
  | cons event rest ih =>
      refine ih (consistent.step event ?_) harmless.2
      rintro pass rfl
      exact harmless.1

end Invariant

/-- The transactions 11 and 12 of the blocks 1 and 2 spend the serial 7. -/
def doubleSpend : Ledger where
  nHeight := fun hash => hash.toNat
  vtx := fun hash => [10 + hash]
  transaction := fun txid =>
    plainTx txid [⟨⟨0, 0xffffffff⟩, [opZerocoinSpend, 7], 1⟩] [⟨1, [0x52]⟩]
  serialNumber := fun txin => .ofNat 256 (txin.scriptSig.getD 1 0).toNat

/-- A pass over the last hundred blocks at level 4 in which nothing fails. -/
def startupPass (shutdown : Bool) : Pass where
  nCheckLevel := 4
  nCheckDepth := 100
  readBlock := fun _ => true
  checkBlock := fun _ => true
  readUndo := fun _ => true
  fits := fun _ => true
  disconnectFails := fun _ => none
  fClean := fun _ => true
  shutdownRequested := fun _ => shutdown
  readAgain := fun _ => true
  valid := fun _ => true

end PrivateDatagram.Chainstate.ZerocoinSpends
