import PrivateDatagram.Consensus.ChainParams
import PrivateDatagram.Validation.BudgetPayments
import PrivateDatagram.Validation.CheckTransaction

/-!
# The money supply

`ConnectBlock` adds up what the transactions of a block take in and pay out,
records the money supply after the block, and asks `IsBlockValueValid` whether
the block mints too much.  That check has exceptions: without budget data it
lets the first blocks of each budget cycle pass, and on a budget payment block
it leaves the value to `CheckBlock`.

The amounts of a block are summed up as integers, since an overflow of
`int64_t` is undefined behaviour.  Nothing is returned where the block is
rejected or an exception or a failed assertion leaves the function.
-/

namespace PrivateDatagram.Chainstate.MoneySupply

open Wire.Serialize Wire.Transaction Wire.Script Coins Consensus.ChainParams
  Validation.BudgetPayments Validation.CheckTransaction

/-- `COIN` as an integer. -/
def coinAmount : Int := 100000000

/-- The payment that `FillBlockPayee` finds for a height. -/
def paymentDue (manager : CBudgetManager) (nHeight : Int) : Int :=
  (manager.mapFinalizedBudgets.foldl
    (fun found budget =>
      match budget.vecBudgetPayments[(nHeight - budget.nBlockStart).toNat]?
      with
      | none => found
      | some payment =>
          if found.1 < budget.nVoteCount ∧ budget.covers nHeight then
            (budget.nVoteCount, payment.nAmount.toInt)
          else
            found) ((0 : Int), (0 : Int))).2

/-! ## The chain and a block -/

structure CBlockIndex where
  nHeight : Int
  nMoneySupply : Int
deriving DecidableEq, Repr

/-- What the node knows when it connects a block. -/
structure ChainState where
  network : Network
  lastPowBlock : Int
  coinbaseMaturity : Int
  mapBlockIndex : UInt256 → Option CBlockIndex
  /-- `chainActive.Tip()`. -/
  tip : UInt256
  tipIndexed : (mapBlockIndex tip).isSome = true
  /-- The coins after the previous block. -/
  view : CoinsMap
  /-- `masternodeSync.IsSynced()`. -/
  isSynced : Bool
  /-- `SPORK_13_ENABLE_SUPERBLOCKS`. -/
  superblocks : Bool
  manager : CBudgetManager

structure Block where
  hashPrevBlock : UInt256
  vtx : List CTransaction

/-- What the modelled part of `ConnectBlock` does not decide itself. -/
structure OtherChecks where
  /-- The checks of a transaction that are not about amounts. -/
  transaction : CTransaction → CoinsMap → Bool
  /-- `TxInToZerocoinSpend(txIn).getDenomination()`. -/
  denomination : CTxIn → Int
  /-- `CheckBlock`, and the checks before and behind the amounts. -/
  block : Bool

def isProofOfStake (block : Block) : Bool :=
  match block.vtx[1]? with
  | none => false
  | some tx => isCoinStake tx

/-! ## The amounts of a transaction -/

/-- The loop of `CTransaction::GetValueOut`, which may throw. -/
def sumOutputs : List CTxOut → Int64 → Option Int64
  | [], nValueOut => some nValueOut
  | out :: rest, nValueOut =>
      if out.nValue < 0 ∨ nValueOut + out.nValue < nValueOut then
        none
      else
        sumOutputs rest (nValueOut + out.nValue)

def getValueOut (tx : CTransaction) : Option Int64 :=
  sumOutputs tx.vout 0

/-- The loop of `CheckInputs` over the coins that are spent. -/
def checkCoins (coinbaseMaturity nSpendHeight : Int) (view : CoinsMap) :
    List CTxIn → Int64 → Option Int64
  | [], nValueIn => some nValueIn
  | txin :: rest, nValueIn =>
      match view txin.prevout.hash with
      | none => none
      | some coins =>
          if (coins.fCoinBase || coins.fCoinStake) &&
              nSpendHeight - coins.nHeight.toInt < coinbaseMaturity then
            none
          else
            match coins.vout[txin.prevout.n.toNat]? with
            | none => none
            | some txout =>
                if !moneyRange txout.nValue ||
                    !moneyRange (nValueIn + txout.nValue) then
                  none
                else
                  checkCoins coinbaseMaturity nSpendHeight view rest
                    (nValueIn + txout.nValue)

/-- `CheckInputs` on a transaction that spends coins, up to the scripts. -/
def checkInputs (chain : ChainState) (nHeight : Int) (tx : CTransaction)
    (view : CoinsMap) : Bool :=
  match checkCoins chain.coinbaseMaturity nHeight view tx.vin 0,
      getValueOut tx with
  | some nValueIn, some nValueOut =>
      isCoinStake tx ||
        (!(nValueIn < nValueOut) && moneyRange (nValueIn - nValueOut))
  | _, _ => false

/-- Fee and value of the inputs of a transaction that spends coins. -/
def spentAmounts (chain : ChainState) (nHeight : Int) (tx : CTransaction)
    (view : CoinsMap) : Option (Int × Int) :=
  if haveInputs tx view = some true ∧ checkInputs chain nHeight tx view then
    match getValueIn tx view, getValueOut tx with
    | some nValueIn, some nValueOut =>
        some (if isCoinStake tx then 0 else nValueIn.toInt - nValueOut.toInt,
          nValueIn.toInt)
    | _, _ => none
  else
    none

/-- The coins that a zerocoin spend redeems. -/
def redeemed (checks : OtherChecks) (tx : CTransaction) : Int :=
  ((tx.vin.filter fun txin => isZerocoinSpend txin.scriptSig).map
    fun txin => checks.denomination txin * coinAmount).sum

/-- Fee and value of the inputs, by the kind of the transaction. -/
def inputAmounts (chain : ChainState) (checks : OtherChecks) (nHeight : Int)
    (tx : CTransaction) (view : CoinsMap) : Option (Int × Int) :=
  match isZerocoinSpendTx tx, isCoinBase tx with
  | some true, _ => some (0, redeemed checks tx)
  | some false, some true => some (0, 0)
  | some false, some false => spentAmounts chain nHeight tx view
  | _, _ => none

/-! ## The amounts of a block -/

structure Tally where
  nFees : Int
  nValueIn : Int
  nValueOut : Int
  view : CoinsMap

/-- One round of the loop over the transactions. -/
def connectTx (chain : ChainState) (checks : OtherChecks) (nHeight : Int)
    (tx : CTransaction) (tally : Tally) : Option Tally :=
  if checks.transaction tx tally.view then
    match inputAmounts chain checks nHeight tx tally.view, getValueOut tx,
        updateCoins tx (Int32.ofInt nHeight) tally.view with
    | some (fee, nValueIn), some nValueOut, some (_, view) =>
        some ⟨tally.nFees + fee, tally.nValueIn + nValueIn,
          tally.nValueOut + nValueOut.toInt, view⟩
    | _, _, _ => none
  else
    none

def connectTxs (chain : ChainState) (checks : OtherChecks) (nHeight : Int) :
    List CTransaction → Tally → Option Tally
  | [], tally => some tally
  | tx :: rest, tally =>
      match connectTx chain checks nHeight tx tally with
      | none => none
      | some tally => connectTxs chain checks nHeight rest tally

/-! ## The value of a block -/

/-- The height that `IsBlockValueValid` finds for a block. -/
def heightOf (chain : ChainState) (block : Block) : Int :=
  let found :=
    if chain.tip = block.hashPrevBlock then
      chain.mapBlockIndex chain.tip
    else
      chain.mapBlockIndex block.hashPrevBlock
  match found with
  | none => 0
  | some pindexPrev => pindexPrev.nHeight + 1

def isBlockValueValid (chain : ChainState) (block : Block)
    (nExpectedValue nMinted : Int) : Bool :=
  let nHeight := heightOf chain block
  if !chain.isSynced then
    -- superblocks are among the first blocks of a cycle
    if nHeight % (getBudgetPaymentCycleBlocks chain.network).toInt < 100 then
      true
    else
      !(nMinted > nExpectedValue)
  else if !chain.superblocks then
    nMinted ≤ nExpectedValue
  else if chain.manager.isBudgetPaymentBlock nHeight then
    -- the value is left to `CheckBlock`
    true
  else
    !(nMinted > nExpectedValue)

/-- The proof-of-work period gives the fees to the miner. -/
def expectedMint (chain : ChainState) (block : Block)
    (nHeight nFees : Int) : Int :=
  if isProofOfStake block then
    (getBlockValue chain.network nHeight).toInt
  else
    (getBlockValue chain.network nHeight).toInt + nFees

/-- `ConnectBlock` on a block with a previous one: the new index entry. -/
def connectBlock (chain : ChainState) (checks : OtherChecks) (block : Block) :
    Option CBlockIndex :=
  match chain.mapBlockIndex block.hashPrevBlock with
  | none => none
  | some pprev =>
      let nHeight := pprev.nHeight + 1
      if (nHeight ≤ chain.lastPowBlock ∧ isProofOfStake block = true) ∨
          (nHeight > chain.lastPowBlock ∧ isProofOfStake block = false) ∨
          checks.block = false then
        none
      else
        match connectTxs chain checks nHeight block.vtx
            ⟨0, 0, 0, chain.view⟩ with
        | none => none
        | some tally =>
            let nMoneySupply :=
              pprev.nMoneySupply + tally.nValueOut - tally.nValueIn
            let nMint := nMoneySupply - pprev.nMoneySupply + tally.nFees
            let nExpectedMint := expectedMint chain block nHeight tally.nFees
            if isBlockValueValid chain block nExpectedMint nMint then
              some ⟨nHeight, nMoneySupply⟩
            else
              none

/-! ## Fees are not negative -/

/-- `CheckInputs` adds up the same values as `GetValueIn`. -/
theorem sumInputs_of_checkCoins {coinbaseMaturity nSpendHeight : Int}
    {view : CoinsMap} {vin : List CTxIn} {nValueIn total : Int64}
    (available : ∀ txin ∈ vin, ∃ coins, view txin.prevout.hash = some coins ∧
      coins.isAvailable txin.prevout.n = true)
    (checked : checkCoins coinbaseMaturity nSpendHeight view vin nValueIn =
      some total) :
    sumInputs view vin nValueIn = some total := by
  induction vin generalizing nValueIn with
  | nil => exact checked
  | cons txin rest ih =>
      rcases List.forall_mem_cons.mp available with
        ⟨⟨coins, found, isAvailable⟩, later⟩
      rw [checkCoins, found] at checked
      dsimp only at checked
      split_ifs at checked
      split at checked
      · cases checked
      case h_2 txout isOutput =>
        split_ifs at checked
        rw [sumInputs, getOutputFor, found]
        dsimp only
        rw [if_pos isAvailable, isOutput]
        exact ih later checked

theorem available_of_haveInputs {tx : CTransaction} {view : CoinsMap}
    (coinBase : isCoinBase tx = some false)
    (spend : isZerocoinSpendTx tx = some false)
    (have' : haveInputs tx view = some true) :
    ∀ txin ∈ tx.vin, ∃ coins, view txin.prevout.hash = some coins ∧
      coins.isAvailable txin.prevout.n = true := by
  intro txin here
  rw [haveInputs, spendsCoins, coinBase, spend] at have'
  simp only [Bool.not_false, Bool.and_true, Option.map_some, Bool.not_true,
    Bool.false_or, Option.some.injEq, List.all_eq_true] at have'
  have available := have' txin here
  split at available
  · cases available
  case h_2 coins found => exact ⟨coins, found, available⟩

theorem expectedMint_le (chain : ChainState) (block : Block) (nHeight : Int)
    {nFees : Int} (notNegative : 0 ≤ nFees) :
    expectedMint chain block nHeight nFees ≤
      (getBlockValue chain.network nHeight).toInt + nFees := by
  unfold expectedMint
  split_ifs
  · omega
  · exact Int.le_refl _

/-- A transaction that is not a coinstake pays out no more than it takes in. -/
theorem inputAmounts_fee {chain : ChainState} {checks : OtherChecks}
    {nHeight fee nValueIn : Int} {tx : CTransaction} {view : CoinsMap}
    (amounts : inputAmounts chain checks nHeight tx view =
      some (fee, nValueIn)) :
    0 ≤ fee := by
  unfold inputAmounts at amounts
  split at amounts
  · cases amounts
    exact Int.le_refl 0
  · cases amounts
    exact Int.le_refl 0
  case h_3 spend coinBase =>
    unfold spentAmounts at amounts
    split at amounts
    case isFalse => cases amounts
    case isTrue accepted =>
      rcases accepted with ⟨have', checked⟩
      have available := available_of_haveInputs coinBase spend have'
      unfold checkInputs at checked
      split at checked
      case h_1 total nValueOut counted paid =>
        rw [getValueIn, coinBase, spend] at amounts
        dsimp only at amounts
        rw [sumInputs_of_checkCoins available counted, paid] at amounts
        cases amounts
        split_ifs with coinStake
        · exact Int.le_refl 0
        · rw [Bool.or_eq_true, Bool.and_eq_true] at checked
          have enough : ¬ total < nValueOut := by
            simpa using (checked.resolve_left coinStake).1
          rw [Int64.lt_iff_toInt_lt] at enough
          omega
      · cases checked
  · cases amounts

theorem connectTx_fees {chain : ChainState} {checks : OtherChecks}
    {nHeight : Int} {tx : CTransaction} {tally tally' : Tally}
    (connected : connectTx chain checks nHeight tx tally = some tally') :
    tally.nFees ≤ tally'.nFees := by
  unfold connectTx at connected
  split_ifs at connected
  split at connected
  case h_1 fee nValueIn nValueOut undo view amounts _ _ =>
    cases connected
    exact Int.le_add_of_nonneg_right (inputAmounts_fee amounts)
  · cases connected

theorem connectTxs_fees {chain : ChainState} {checks : OtherChecks}
    {nHeight : Int} {vtx : List CTransaction} {tally tally' : Tally}
    (connected : connectTxs chain checks nHeight vtx tally = some tally') :
    tally.nFees ≤ tally'.nFees := by
  induction vtx generalizing tally with
  | nil =>
      cases connected
      exact Int.le_refl _
  | cons tx rest ih =>
      rw [connectTxs] at connected
      split at connected
      · cases connected
      case h_2 middle done =>
        exact (connectTx_fees done).trans (ih connected)

/-! ## The exceptions -/

/-- `IsBlockValueValid` does not compare the two values. -/
def ValueUnchecked (chain : ChainState) (nHeight : Int) : Prop :=
  if chain.isSynced then
    chain.superblocks = true ∧
      chain.manager.isBudgetPaymentBlock nHeight = true
  else
    nHeight % (getBudgetPaymentCycleBlocks chain.network).toInt < 100

theorem isBlockValueValid_iff (chain : ChainState) (block : Block)
    (nExpectedValue nMinted : Int) :
    isBlockValueValid chain block nExpectedValue nMinted = true ↔
      ValueUnchecked chain (heightOf chain block) ∨
        nMinted ≤ nExpectedValue := by
  unfold isBlockValueValid ValueUnchecked
  cases chain.isSynced <;> cases chain.superblocks <;> simp

theorem heightOf_eq {chain : ChainState} {block : Block}
    {pprev : CBlockIndex}
    (indexed : chain.mapBlockIndex block.hashPrevBlock = some pprev) :
    heightOf chain block = pprev.nHeight + 1 := by
  unfold heightOf
  split_ifs with onTip
  · rw [onTip, indexed]
  · rw [indexed]

/--
Where the value is checked, a block adds at most its reward to the supply.
-/
theorem supply_bounded (chain : ChainState) (checks : OtherChecks)
    (block : Block) (pprev entry : CBlockIndex)
    (indexed : chain.mapBlockIndex block.hashPrevBlock = some pprev)
    (accepted : connectBlock chain checks block = some entry)
    (checked : ¬ ValueUnchecked chain entry.nHeight) :
    entry.nMoneySupply - pprev.nMoneySupply ≤
      (getBlockValue chain.network entry.nHeight).toInt := by
  rw [connectBlock, indexed] at accepted
  dsimp only at accepted
  split at accepted
  · cases accepted
  · split at accepted
    · cases accepted
    case h_2 tally connected =>
      have fees : 0 ≤ tally.nFees := connectTxs_fees connected
      split at accepted
      case isTrue valid =>
        rw [isBlockValueValid_iff, heightOf_eq indexed] at valid
        cases accepted
        have minted := valid.resolve_left checked
        have expected := expectedMint_le chain block (pprev.nHeight + 1) fees
        dsimp only
        omega
      · cases accepted

/-- A node on block 7, with nothing in the budgets. -/
def sampleChain (isSynced : Bool) (nHeight : Int) : ChainState where
  network := .main
  lastPowBlock := 300
  coinbaseMaturity := 100
  mapBlockIndex := fun hash => if hash = 7 then some ⟨nHeight, 5000⟩ else none
  tip := 7
  tipIndexed := rfl
  view := fun _ => none
  isSynced := isSynced
  superblocks := true
  manager := ⟨[], 0⟩

def sampleChecks : OtherChecks where
  transaction := fun _ _ => true
  denomination := fun _ => 1
  block := true

/-- A block on block 7 whose coinbase pays one coin. -/
def oneCoinBlock : Block where
  hashPrevBlock := 7
  vtx := [⟨1, 1, txPayment, [⟨⟨0, 0xffffffff⟩, [1, 1], 0⟩],
    [⟨100000000, [0x51]⟩], .plain txMetaEmpty, [], 0⟩]

theorem supply_bounded_oneCoin :
    connectBlock (sampleChain true 199) sampleChecks oneCoinBlock =
        some ⟨200, 100005000⟩ ∧
      (100005000 : Int) - 5000 ≤ (getBlockValue .main 200).toInt := by
  have accepted : connectBlock (sampleChain true 199) sampleChecks
      oneCoinBlock = some ⟨200, 100005000⟩ := by
    decide +kernel
  refine ⟨accepted, supply_bounded (sampleChain true 199) sampleChecks
    oneCoinBlock ⟨199, 5000⟩ ⟨200, 100005000⟩ rfl accepted ?_⟩
  rintro ⟨_, paymentBlock⟩
  exact absurd paymentBlock (by decide +kernel)

/-- A node without budget data accepts any value at height 1. -/
theorem unsynced_node_overmints :
    ¬ ∀ (chain : ChainState) (checks : OtherChecks) (block : Block)
        (pprev entry : CBlockIndex),
      chain.mapBlockIndex block.hashPrevBlock = some pprev →
      connectBlock chain checks block = some entry →
      0 < entry.nHeight →
      entry.nMoneySupply - pprev.nMoneySupply ≤
        (getBlockValue chain.network entry.nHeight).toInt +
          if chain.manager.isBudgetPaymentBlock entry.nHeight then
            paymentDue chain.manager entry.nHeight
          else
            0 := by
  intro bounded
  have minted := bounded (sampleChain false 0) sampleChecks oneCoinBlock
    ⟨0, 5000⟩ ⟨1, 100005000⟩ rfl (by decide +kernel) (by decide)
  exact absurd minted (by decide +kernel)

end PrivateDatagram.Chainstate.MoneySupply
