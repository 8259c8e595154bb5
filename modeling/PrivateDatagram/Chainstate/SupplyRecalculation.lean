import PrivateDatagram.Chainstate.FaithfulView
import PrivateDatagram.Chainstate.MoneySupply
import PrivateDatagram.Library.ForkPoint
import PrivateDatagram.Validation.ZerocoinScripts

/-!
# Recalculating the money supply

`ConnectBlock` records the money supply in the index entry of each block, from
the coins that the block spends and pays.  `RecalculatePIVSupply` writes the
entries from a height on anew.  It looks the spent outputs up with
`GetTransaction`, takes an input for a zerocoin spend by the first byte of its
script alone, and at the height where zerocoins start it does not begin with
the recorded supply but with a constant.

A transaction stands for its hash, and an entry is known by the list of the
blocks from it back to genesis.  Reading and writing files succeeds.  Amounts
are added up as integers, since an overflow of `int64_t` is undefined
behaviour.  Nothing is returned where an assertion fails or an output is read
out of range.
-/

namespace PrivateDatagram.Chainstate.SupplyRecalculation

open Wire.Serialize Wire.Transaction Wire.Script Library.ForkPoint Coins
  Disconnect FaithfulView
open Chainstate.MoneySupply
  (ChainState OtherChecks coinAmount)
open Consensus.ProofOfStake (zerocoinStartHeight)
open Validation.ZerocoinScripts
  (Library checkTransaction txInToZerocoinSpend)

/-! ## Blocks -/

structure CBlock where
  hash : UInt256
  vtx : List UInt256
deriving DecidableEq, Repr

/-- An entry with everything behind `pprev`. -/
abbrev Branch := List CBlock

def transactions (ledger : Ledger) (block : CBlock) : List CTransaction :=
  block.vtx.map ledger.transaction

/-! ## The state -/

structure State where
  chainActive : Branch
  /-- The entries, which stay when a block is disconnected. -/
  nMoneySupply : Branch → Int
  /-- `pcoinsTip`. -/
  view : CoinsMap
  /-- The undo files. -/
  vtxundo : Branch → List (List CTxInUndo)
  txIndex : UInt256 → Bool

/-- A node that has only the genesis block, which is not really connected. -/
def genesisState (genesis : CBlock) : State where
  chainActive := [genesis]
  nMoneySupply := fun _ => 0
  view := fun _ => none
  vtxundo := fun _ => []
  txIndex := fun _ => false

/-! ## Connecting -/

/-- What else the node knows and checks when it connects a block. -/
structure Call where
  /-- Rules, budgets and sporks; the rest is taken from the state. -/
  node : ChainState
  library : Library
  /-- Whether `CheckTransaction` verifies zerocoin signatures. -/
  fVerifySignature : Bool
  /-- The checks of a transaction that are not about amounts. -/
  transaction : CTransaction → CoinsMap → Bool
  /-- The other checks of the block. -/
  valid : Bool

/-- `CheckTransaction`; zerocoins are active since before genesis. -/
def acceptsTx (call : Call) (tx : CTransaction) : Bool :=
  match checkTransaction call.library call.fVerifySignature true tx with
  | .ok _ => true
  | .error _ => false

/-- `TxInToZerocoinSpend(txIn).getDenomination()`. -/
def denomination (library : Library) (txin : CTxIn) : Int :=
  match txInToZerocoinSpend library txin with
  | .ok spend => spend.denomination.toInt64.toInt
  | .error _ => 0

def checksOf (call : Call) (vtx : List CTransaction) : OtherChecks where
  transaction := call.transaction
  denomination := denomination call.library
  block := call.valid && vtx.all (acceptsTx call)

/-- The node with the state that it has got to. -/
def chainOf (call : Call) (state : State) (tip : UInt256) : ChainState :=
  { call.node with
    view := state.view
    tip := tip
    mapBlockIndex := Function.update call.node.mapBlockIndex tip
      (some ⟨state.chainActive.length - 1,
        state.nMoneySupply state.chainActive⟩)
    tipIndexed := by simp }

/-- `ConnectTip`. -/
def connectTip (ledger : Ledger) (fTxIndex : Bool) (call : Call)
    (block : CBlock) (state : State) : State :=
  match state.chainActive with
  | [] => state
  | tip :: _ =>
      let vtx := transactions ledger block
      let nHeight := state.chainActive.length
      match MoneySupply.connectBlock (chainOf call state tip.hash)
          (checksOf call vtx) ⟨tip.hash, vtx⟩,
        connectTransactions vtx (Int32.ofInt nHeight) state.view with
      | some entry, some (undos, view) =>
          let pindex := block :: state.chainActive
          { chainActive := pindex
            nMoneySupply := Function.update state.nMoneySupply pindex
              entry.nMoneySupply
            view := view
            vtxundo := Function.update state.vtxundo pindex undos
            txIndex := fun txid =>
              state.txIndex txid || (fTxIndex && decide (txid ∈ block.vtx)) }
      | _, _ => state

/-- `DisconnectTip`. -/
def disconnectTip (ledger : Ledger) (state : State) : State :=
  match state.chainActive with
  | block :: previous :: older =>
      match disconnectBlock (transactions ledger block)
          (state.vtxundo state.chainActive)
          (Int32.ofInt (older.length + 1)) state.view with
      | some (true, view) =>
          { state with chainActive := previous :: older, view := view }
      | _ => state
  | _ => state

inductive Event where
  | connectTip (block : CBlock) (call : Call)
  | disconnectTip

def step (ledger : Ledger) (fTxIndex : Bool) (state : State) :
    Event → State
  | .connectTip block call => connectTip ledger fTxIndex call block state
  | .disconnectTip => disconnectTip ledger state

def run (ledger : Ledger) (fTxIndex : Bool) (genesis : CBlock)
    (events : List Event) : State :=
  events.foldl (step ledger fTxIndex) (genesisState genesis)

/-! ## Recalculating -/

/-- The node when the supply is recalculated. -/
structure Lookup where
  ledger : Ledger
  fTxIndex : Bool
  mempool : List UInt256

/-- `GetTransaction` with `fAllowSlow`. -/
def getTransaction (lookup : Lookup) (state : State) (hash : UInt256) :
    Option CTransaction :=
  if hash ∈ lookup.mempool then
    some (lookup.ledger.transaction hash)
  else if lookup.fTxIndex then
    if state.txIndex hash then some (lookup.ledger.transaction hash) else none
  else
    match state.view hash with
    | none => none
    | some coins =>
        if coins.nHeight > 0 then
          match state.chainActive.reverse[coins.nHeight.toInt.toNat]? with
          | none => none
          | some pindexSlow =>
              if hash ∈ pindexSlow.vtx then
                some (lookup.ledger.transaction hash)
              else
                none
        else
          none

/-- `tx.vin[i].nSequence * COIN`. -/
def sequenceValue (txin : CTxIn) : Int :=
  txin.nSequence.toNat * coinAmount

/-- What one input adds to `nValueIn`. -/
def inputValue (lookup : Lookup) (state : State) (txin : CTxIn) :
    Option Int :=
  if isZerocoinSpend txin.scriptSig then
    some (sequenceValue txin)
  else
    match getTransaction lookup state txin.prevout.hash with
    | none => none
    | some txPrev =>
        (txPrev.vout[txin.prevout.n.toNat]?).map fun txout =>
          txout.nValue.toInt

def inputValues (lookup : Lookup) (state : State) :
    List CTxIn → Option Int
  | [] => some 0
  | txin :: rest =>
      match inputValue lookup state txin, inputValues lookup state rest with
      | some value, some later => some (value + later)
      | _, _ => none

/-- What a transaction adds to `nValueIn`. -/
def txValueIn (lookup : Lookup) (state : State) (tx : CTransaction) :
    Option Int :=
  match isCoinBase tx with
  | none => none
  | some true => some 0
  | some false => inputValues lookup state tx.vin

def outputValues (vout : List CTxOut) : Int :=
  (vout.map fun txout => txout.nValue.toInt).sum

/-- What a transaction adds to `nValueOut`. -/
def txValueOut (tx : CTransaction) : Int :=
  if isCoinStake tx then outputValues tx.vout.tail else outputValues tx.vout

def valuesOf (lookup : Lookup) (state : State) :
    List CTransaction → Option (Int × Int)
  | [] => some (0, 0)
  | tx :: rest =>
      match txValueIn lookup state tx, valuesOf lookup state rest with
      | some nValueIn, some (laterIn, laterOut) =>
          some (nValueIn + laterIn, txValueOut tx + laterOut)
      | _, _ => none

/-- The loop, with `nSupplyPrev` and the entries. -/
def rewriteSupplies (lookup : Lookup) (state : State) :
    List Branch → Int × (Branch → Int) → Option (Int × (Branch → Int))
  | [], reached => some reached
  | [] :: _, _ => none
  | (block :: pprev) :: rest, (nSupplyPrev, supplies) =>
      match valuesOf lookup state (transactions lookup.ledger block) with
      | none => none
      | some (nValueIn, nValueOut) =>
          let nMoneySupply := nSupplyPrev + nValueOut - nValueIn
          rewriteSupplies lookup state rest (nMoneySupply,
            Function.update supplies (block :: pprev) nMoneySupply)

/-- The entry at a height of the active chain. -/
def entryAt (chainActive : Branch) (nHeight : Nat) : Branch :=
  chainActive.drop (chainActive.length - (nHeight + 1))

/-- `nSupplyPrev` before the loop. -/
def supplyBefore (state : State) (nHeightStart : Nat) : Int :=
  if nHeightStart = zerocoinStartHeight then
    5449796547496199
  else
    state.nMoneySupply (entryAt state.chainActive (nHeightStart - 1))

/-- `RecalculatePIVSupply`: whether it returns true, and the entries. -/
def recalculatePIVSupply (lookup : Lookup) (state : State)
    (nHeightStart : Nat) : Option (Bool × (Branch → Int)) :=
  if state.chainActive.length ≤ nHeightStart then
    some (false, state.nMoneySupply)
  else
    (rewriteSupplies lookup state (above nHeightStart state.chainActive)
      (supplyBefore state nHeightStart, state.nMoneySupply)).map
        fun (_, supplies) => (true, supplies)

/-! ## Amounts by hash -/

section Amounts

variable (ledger : Ledger)

def spentValue (txin : CTxIn) : Int :=
  ((spentOutput ledger txin).map fun txout => txout.nValue.toInt).getD 0

/-- An input that the recalculation takes for a zerocoin spend. -/
def isMarked (txin : CTxIn) : Bool := isZerocoinSpend txin.scriptSig

/-- What a transaction takes in when it is connected. -/
def takenIn (tx : CTransaction) : Int :=
  if spendsCoins tx = some true then
    (tx.vin.map (spentValue ledger)).sum
  else if isZerocoinSpendTx tx = some true then
    (tx.vin.map sequenceValue).sum
  else
    0

/-- How much more the recalculation takes a transaction to take in. -/
def misread (tx : CTransaction) : Int :=
  if spendsCoins tx = some true then
    ((tx.vin.filter isMarked).map fun txin =>
      sequenceValue txin - spentValue ledger txin).sum
  else
    0

/-- What is known of a transaction that was connected. -/
structure ConnectedTx (known : UInt256 → Prop) (tx : CTransaction) :
    Prop where
  kind : (spendsCoins tx).isSome = true
  marked : isZerocoinSpendTx tx = some true →
    ∀ txin ∈ tx.vin, isMarked txin = true
  present : spendsCoins tx = some true → ∀ txin ∈ tx.vin,
    (spentOutput ledger txin).isSome = true ∧ known txin.prevout.hash

variable {ledger}

theorem ConnectedTx.mono {known more : UInt256 → Prop} {tx : CTransaction}
    (connected : ConnectedTx ledger known tx)
    (implies : ∀ txid, known txid → more txid) :
    ConnectedTx ledger more tx where
  kind := connected.kind
  marked := connected.marked
  present spends txin member := by
    obtain ⟨output, hash⟩ := connected.present spends txin member
    exact ⟨output, implies _ hash⟩

end Amounts

section Recalculated

variable {lookup : Lookup} {state : State} {known : UInt256 → Prop}
  {tx : CTransaction} {txin : CTxIn} {block : CBlock} {vin : List CTxIn}

/-- Whatever `GetTransaction` finds has the hash. -/
theorem getTransaction_eq {hash : UInt256} {txPrev : CTransaction}
    (found : getTransaction lookup state hash = some txPrev) :
    txPrev = lookup.ledger.transaction hash := by
  unfold getTransaction at found
  split_ifs at found
  · cases found
    rfl
  · cases found
    rfl
  · split at found
    · cases found
    · split_ifs at found
      split at found
      · cases found
      · split_ifs at found
        cases found
        rfl

/-- `GetTransaction` finds the outputs that a transaction spends. -/
def Found (lookup : Lookup) (state : State) (tx : CTransaction) : Prop :=
  spendsCoins tx = some true → ∀ txin ∈ tx.vin, isMarked txin = false →
    (getTransaction lookup state txin.prevout.hash).isSome = true

/-- What the recalculation reads for an input. -/
def readValue (ledger : Ledger) (txin : CTxIn) : Int :=
  if isMarked txin then sequenceValue txin else spentValue ledger txin

theorem inputValue_iff
    (present : (spentOutput lookup.ledger txin).isSome = true)
    (value : Int) :
    inputValue lookup state txin = some value ↔
      (isMarked txin = false →
        (getTransaction lookup state txin.prevout.hash).isSome = true) ∧
      value = readValue lookup.ledger txin := by
  unfold inputValue readValue
  change (if isMarked txin = true then _ else _) = _ ↔ _
  cases marked : isMarked txin with
  | true =>
      simp only [if_true, Option.some.injEq, Bool.true_eq_false, false_implies,
        true_and]
      exact eq_comm
  | false =>
      simp only [Bool.false_eq_true, if_false, true_implies]
      cases found : getTransaction lookup state txin.prevout.hash with
      | none =>
          constructor
          · intro impossible
            cases impossible
          · rintro ⟨impossible, _⟩
            cases impossible
      | some txPrev =>
          obtain ⟨txout, output⟩ := Option.isSome_iff_exists.mp present
          rw [getTransaction_eq found]
          change (spentOutput lookup.ledger txin).map _ = _ ↔ _
          rw [spentValue, output, Option.map_some, Option.some.injEq,
            Option.getD_some]
          constructor
          · rintro rfl
            exact ⟨rfl, rfl⟩
          · rintro ⟨_, rfl⟩
            rfl

/-- Two partial results, each known up to what it needs, taken together. -/
theorem both_iff {α β γ : Type} {first : Option α} {second : Option β}
    {found found' : Prop} {value : α} {value' : β} {combine : α → β → γ}
    (here : ∀ result, first = some result ↔ found ∧ result = value)
    (later : ∀ result, second = some result ↔ found' ∧ result = value')
    (result : γ) :
    (first.bind fun one => second.map (combine one)) = some result ↔
      (found ∧ found') ∧ result = combine value value' := by
  cases first with
  | none =>
      constructor
      · intro impossible
        cases impossible
      · rintro ⟨⟨isFound, _⟩, _⟩
        cases (here value).mpr ⟨isFound, rfl⟩
  | some one =>
      obtain ⟨isFound, rfl⟩ := (here one).mp rfl
      cases second with
      | none =>
          constructor
          · intro impossible
            cases impossible
          · rintro ⟨⟨_, isFound'⟩, _⟩
            cases (later value').mpr ⟨isFound', rfl⟩
      | some other =>
          obtain ⟨isFound', rfl⟩ := (later other).mp rfl
          rw [Option.bind_some, Option.map_some, Option.some.injEq]
          constructor
          · rintro rfl
            exact ⟨⟨isFound, isFound'⟩, rfl⟩
          · rintro ⟨_, rfl⟩
            rfl

theorem inputValues_cons (first : CTxIn) (rest : List CTxIn) :
    inputValues lookup state (first :: rest) =
      (inputValue lookup state first).bind fun value =>
        (inputValues lookup state rest).map (value + ·) := by
  rw [inputValues]
  cases inputValue lookup state first with
  | none => rfl
  | some value =>
      cases inputValues lookup state rest with
      | none => rfl
      | some later => rfl

theorem inputValues_iff
    (present : ∀ txin ∈ vin,
      isMarked txin = true ∨ (spentOutput lookup.ledger txin).isSome = true)
    (total : Int) :
    inputValues lookup state vin = some total ↔
      (∀ txin ∈ vin, isMarked txin = false →
        (getTransaction lookup state txin.prevout.hash).isSome = true) ∧
      total = (vin.map (readValue lookup.ledger)).sum := by
  have one : ∀ txin ∈ vin, ∀ value,
      inputValue lookup state txin = some value ↔
        (isMarked txin = false →
          (getTransaction lookup state txin.prevout.hash).isSome = true) ∧
        value = readValue lookup.ledger txin := by
    intro txin member value
    rcases present txin member with marked | output
    · have value' : inputValue lookup state txin =
          some (sequenceValue txin) := if_pos marked
      rw [value', readValue, if_pos marked, marked, Option.some.injEq]
      simp only [Bool.true_eq_false, false_implies, true_and]
      exact eq_comm
    · exact inputValue_iff output value
  clear present
  induction vin generalizing total with
  | nil =>
      rw [inputValues, Option.some.injEq]
      simp only [List.not_mem_nil, false_implies, implies_true, true_and,
        List.map_nil, List.sum_nil]
      exact eq_comm
  | cons first rest ih =>
      have later := fun total => ih total fun txin member =>
        one txin (List.mem_cons_of_mem _ member)
      rw [inputValues_cons, List.forall_mem_cons, List.map_cons, List.sum_cons]
      exact both_iff (one first List.mem_cons_self) later total

theorem sum_readValue (ledger : Ledger) (vin : List CTxIn) :
    (vin.map (readValue ledger)).sum = (vin.map (spentValue ledger)).sum +
      ((vin.filter isMarked).map fun txin =>
        sequenceValue txin - spentValue ledger txin).sum := by
  induction vin with
  | nil => rfl
  | cons txin rest ih =>
      rw [List.map_cons, List.map_cons, List.sum_cons, List.sum_cons, ih,
        readValue]
      cases marked : isMarked txin with
      | true =>
          rw [List.filter_cons_of_pos marked, List.map_cons, List.sum_cons,
            if_pos rfl]
          omega
      | false =>
          rw [List.filter_cons_of_neg (by simp [marked])]
          simp only [Bool.false_eq_true, if_false]
          omega

theorem spendsCoins_iff {spends : Bool} :
    spendsCoins tx = some spends ↔ ∃ fCoinBase isSpend,
      isCoinBase tx = some fCoinBase ∧ isZerocoinSpendTx tx = some isSpend ∧
        spends = (!fCoinBase && !isSpend) := by
  unfold spendsCoins
  cases isCoinBase tx with
  | none => simp
  | some fCoinBase =>
      cases isZerocoinSpendTx tx with
      | none => simp
      | some isSpend => simp [eq_comm]

/-- What the recalculation finds for a transaction, if it finds anything. -/
theorem txValueIn_iff (connected : ConnectedTx lookup.ledger known tx)
    (value : Int) :
    txValueIn lookup state tx = some value ↔
      Found lookup state tx ∧
        value = takenIn lookup.ledger tx + misread lookup.ledger tx := by
  obtain ⟨spends, kind⟩ := Option.isSome_iff_exists.mp connected.kind
  obtain ⟨fCoinBase, isSpend, coinBase, spend, rfl⟩ := spendsCoins_iff.mp kind
  unfold txValueIn Found takenIn misread
  rw [coinBase, kind, spend]
  match fCoinBase, isSpend with
  | true, true =>
      rw [Validation.CheckTransaction.isCoinBase_of_spend spend] at coinBase
      cases coinBase
  | true, false =>
      simp only [Bool.not_true, Bool.not_false, Bool.and_true,
        Option.some.injEq, Bool.false_eq_true, if_false, false_implies,
        true_and, Int.add_zero]
      exact eq_comm
  | false, true =>
      have marked := connected.marked spend
      have values : inputValues lookup state tx.vin = some value ↔ _ :=
        inputValues_iff (fun txin member => Or.inl (marked txin member)) value
      have same : tx.vin.map (readValue lookup.ledger) =
          tx.vin.map sequenceValue := by
        apply List.map_congr_left
        intro txin member
        exact if_pos (marked txin member)
      rw [same] at values
      simp only [Bool.not_false, Bool.not_true, Bool.and_false,
        Option.some.injEq, Bool.false_eq_true, if_false, if_true,
        false_implies, true_and, Int.add_zero]
      rw [values]
      constructor
      · exact And.right
      · intro total
        refine ⟨?_, total⟩
        intro txin member unmarked
        rw [marked txin member] at unmarked
        cases unmarked
  | false, false =>
      have present := connected.present kind
      have values : inputValues lookup state tx.vin = some value ↔ _ :=
        inputValues_iff (fun txin member => Or.inr (present txin member).1)
          value
      simp only [Bool.not_false, Bool.and_true, if_true, true_implies]
      rw [values, sum_readValue]

/-- The empty first output of a coinstake has no value. -/
theorem txValueOut_eq (tx : CTransaction) :
    txValueOut tx = outputValues tx.vout := by
  unfold txValueOut
  split_ifs with coinStake
  · unfold isCoinStake at coinStake
    split at coinStake
    · cases coinStake
    · split_ifs at coinStake
      split at coinStake
      case h_1 first second rest outputs =>
        rw [isEmpty, Bool.and_eq_true, decide_eq_true_eq] at coinStake
        rw [outputs, List.tail_cons]
        simp only [outputValues, List.map_cons, List.sum_cons, coinStake.1]
        exact (Int.zero_add _).symm
      · cases coinStake
  · rfl

/-- What a block takes in and pays out when it is connected. -/
def blockTakenIn (ledger : Ledger) (block : CBlock) : Int :=
  ((transactions ledger block).map (takenIn ledger)).sum

def blockPaidOut (ledger : Ledger) (block : CBlock) : Int :=
  ((transactions ledger block).map fun tx => outputValues tx.vout).sum

def blockMisread (ledger : Ledger) (block : CBlock) : Int :=
  ((transactions ledger block).map (misread ledger)).sum

theorem valuesOf_cons (tx : CTransaction) (rest : List CTransaction) :
    valuesOf lookup state (tx :: rest) =
      (txValueIn lookup state tx).bind fun nValueIn =>
        (valuesOf lookup state rest).map fun later =>
          (nValueIn + later.1, txValueOut tx + later.2) := by
  rw [valuesOf]
  cases txValueIn lookup state tx with
  | none => rfl
  | some nValueIn =>
      cases valuesOf lookup state rest with
      | none => rfl
      | some later => rfl

theorem valuesOf_iff {vtx : List CTransaction}
    (connected : ∀ tx ∈ vtx, ConnectedTx lookup.ledger known tx)
    (nValueIn nValueOut : Int) :
    valuesOf lookup state vtx = some (nValueIn, nValueOut) ↔
      (∀ tx ∈ vtx, Found lookup state tx) ∧
      nValueIn = (vtx.map (takenIn lookup.ledger)).sum +
        (vtx.map (misread lookup.ledger)).sum ∧
      nValueOut = (vtx.map fun tx => outputValues tx.vout).sum := by
  induction vtx generalizing nValueIn nValueOut with
  | nil =>
      rw [valuesOf]
      simp [eq_comm]
  | cons tx rest ih =>
      have here : ∀ value, txValueIn lookup state tx = some value ↔ _ :=
        txValueIn_iff (connected tx List.mem_cons_self)
      have later : ∀ pair : Int × Int, valuesOf lookup state rest = some pair ↔
          (∀ tx ∈ rest, Found lookup state tx) ∧
          pair = ((rest.map (takenIn lookup.ledger)).sum +
            (rest.map (misread lookup.ledger)).sum,
            (rest.map fun tx => outputValues tx.vout).sum) := by
        rintro ⟨laterIn, laterOut⟩
        rw [Prod.mk.injEq]
        exact ih (fun tx member => connected tx (List.mem_cons_of_mem _ member))
          laterIn laterOut
      rw [valuesOf_cons, List.forall_mem_cons]
      simp only [List.map_cons, List.sum_cons]
      refine (both_iff here later (nValueIn, nValueOut)).trans ?_
      rw [Prod.mk.injEq, txValueOut_eq]
      have sums (taken takenLater more moreLater : Int) :
          taken + more + (takenLater + moreLater) =
            taken + takenLater + (more + moreLater) := by
        omega
      rw [sums]

end Recalculated

end PrivateDatagram.Chainstate.SupplyRecalculation
