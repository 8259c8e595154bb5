import PrivateDatagram.Chainstate.SupplyRecalculation

/-!
# Supplies that are reproduced

In every reachable state the recorded supply of a block is that of its parent
with what the block pays and without what it takes in.  From that it follows
when `RecalculatePIVSupply` writes what `ConnectBlock` had recorded.
-/

namespace PrivateDatagram.Chainstate.RecordedSupply

open Wire.Serialize Wire.Transaction Wire.Script Library.ForkPoint Coins
  Disconnect FaithfulView SupplyRecalculation
open Chainstate.MoneySupply
  (ChainState OtherChecks coinAmount connectTx connectTxs inputAmounts
    spentAmounts checkCoins checkInputs redeemed Tally sumOutputs getValueOut)
open Validation.CheckTransaction
  (moneyRange moneyRange_iff toInt_add_of_moneyRange maxMoneyOut)
open Validation.ZerocoinScripts
  (Library checkTransaction txInToZerocoinSpend)

/-! ## What connecting adds up -/

section Connecting

variable {ledger : Ledger} {known : UInt256 → Prop} {view : CoinsMap}
  {tx : CTransaction} {call : Call}

/-- Sums that `GetValueOut` does not refuse have not wrapped around. -/
theorem toInt_sumOutputs {vout : List CTxOut} {nValueOut total : Int64}
    (low : 0 ≤ nValueOut.toInt)
    (paid : sumOutputs vout nValueOut = some total) :
    total.toInt = nValueOut.toInt + outputValues vout := by
  induction vout generalizing nValueOut with
  | nil =>
      cases paid
      exact (Int.add_zero _).symm
  | cons txout rest ih =>
      rw [sumOutputs] at paid
      split_ifs at paid with refused
      rw [not_or, Int64.lt_iff_toInt_lt, Int64.lt_iff_toInt_lt] at refused
      have sum : (nValueOut + txout.nValue).toInt =
          nValueOut.toInt + txout.nValue.toInt := by
        have zero : (0 : Int64).toInt = 0 := by decide
        have small := Int64.toInt_lt nValueOut
        have smallToo := Int64.toInt_lt txout.nValue
        rw [Int64.toInt_add] at refused ⊢
        rw [Int.bmod_def] at refused ⊢
        split_ifs at refused ⊢ <;> omega
      have later := ih (by omega) paid
      rw [later, sum, outputValues, outputValues, List.map_cons, List.sum_cons]
      omega

theorem toInt_checkCoins (faithful : Faithful ledger known view)
    {coinbaseMaturity nSpendHeight : Int} {vin : List CTxIn}
    {nValueIn total : Int64}
    (available : ∀ txin ∈ vin, ∃ coins, view txin.prevout.hash = some coins ∧
      coins.isAvailable txin.prevout.n = true)
    (inRange : moneyRange nValueIn = true)
    (checked : checkCoins coinbaseMaturity nSpendHeight view vin nValueIn =
      some total) :
    total.toInt = nValueIn.toInt + (vin.map (spentValue ledger)).sum ∧
      ∀ txin ∈ vin, (spentOutput ledger txin).isSome = true ∧
        known txin.prevout.hash := by
  induction vin generalizing nValueIn with
  | nil =>
      cases checked
      refine ⟨(Int.add_zero _).symm, ?_⟩
      intro txin member
      cases member
  | cons txin rest ih =>
      rcases List.forall_mem_cons.mp available with
        ⟨⟨coins, found, isAvailable⟩, later⟩
      obtain ⟨txout, output, inLedger, isKnown⟩ :=
        faithful.available found isAvailable
      rw [checkCoins, found] at checked
      dsimp only at checked
      rw [output] at checked
      dsimp only at checked
      split_ifs at checked with immature outside
      rw [Bool.or_eq_true, not_or, Bool.not_eq_true', Bool.not_eq_true',
        Bool.not_eq_false, Bool.not_eq_false] at outside
      obtain ⟨valueInRange, sumInRange⟩ := outside
      obtain ⟨total', others⟩ := ih later sumInRange checked
      obtain ⟨low, high⟩ := (moneyRange_iff _).mp inRange
      obtain ⟨low', high'⟩ := (moneyRange_iff _).mp valueInRange
      have value : spentValue ledger txin = txout.nValue.toInt := by
        rw [spentValue, spentOutput, inLedger]
        rfl
      constructor
      · rw [total', toInt_add_of_moneyRange low high low' high',
          List.map_cons, List.sum_cons, value]
        omega
      · intro other member
        rcases List.mem_cons.mp member with rfl | inRest
        · exact ⟨by rw [spentOutput, inLedger]; rfl, isKnown⟩
        · exact others other inRest

theorem toInt_toInt64_toUInt64 (word : UInt32) :
    word.toUInt64.toInt64.toInt = word.toNat := by
  have small := UInt32.toNat_lt word
  rw [← Int64.toInt_toBitVec, UInt64.toBitVec_toInt64,
    BitVec.toInt_eq_toNat_of_lt, UInt64.toNat_toBitVec, UInt32.toNat_toUInt64]
  rw [UInt64.toNat_toBitVec, UInt32.toNat_toUInt64]
  omega

/-- The denomination of an accepted spend is in its sequence number. -/
theorem denomination_of_checkSpends {library : Library}
    {fVerifySignature : Bool} {hashTxOut : UInt256} {vin : List CTxIn}
    {serials : List Accumulators.CBigNum} {nTotalRedeemed : Int64}
    {fValidated : Bool} {result : Int64 × Bool}
    (checked : Validation.ZerocoinScripts.checkSpends library fVerifySignature
      hashTxOut vin serials nTotalRedeemed fValidated = .ok result) :
    ∀ txin ∈ vin, isMarked txin = true →
      denomination library txin = txin.nSequence.toNat := by
  induction vin generalizing serials nTotalRedeemed fValidated with
  | nil =>
      intro txin member
      cases member
  | cons first rest ih =>
      rw [Validation.ZerocoinScripts.checkSpends] at checked
      split_ifs at checked with unmarked
      · intro txin member marked
        rcases List.mem_cons.mp member with rfl | inRest
        · rw [isMarked] at marked
          rw [marked] at unmarked
          cases unmarked
        · exact ih checked txin inRest marked
      · obtain ⟨newSpend, spend, checked⟩ :=
          Validation.ZerocoinScripts.bind_eq_ok.mp checked
        split_ifs at checked with _ claimed _ twice
        · cases checked
        · cases checked
        · cases checked
        · obtain ⟨_, _, refused⟩ :=
            Validation.ZerocoinScripts.bind_eq_ok.mp checked
          cases refused
        · obtain ⟨_, _, later⟩ :=
            Validation.ZerocoinScripts.bind_eq_ok.mp checked
          intro txin member marked
          rcases List.mem_cons.mp member with rfl | inRest
          · rw [denomination, spend]
            dsimp only
            rw [not_not.mp claimed, toInt_toInt64_toUInt64]
          · exact ih later txin inRest marked

theorem checkZerocoins_spend {library : Library} {fVerifySignature : Bool}
    {nZCSpendCount : Nat} {result : Unit}
    (spend : isZerocoinSpendTx tx = some true)
    (checked : Validation.ZerocoinScripts.checkZerocoins library
      fVerifySignature true tx nZCSpendCount = .ok result) :
    (∀ txin ∈ tx.vin, isMarked txin = true) ∧
      Validation.ZerocoinScripts.checkZerocoinSpend library fVerifySignature
        tx = .ok result := by
  unfold Validation.ZerocoinScripts.checkZerocoins at checked
  rw [if_neg (by decide), spend] at checked
  by_cases tooMany :
    nZCSpendCount > Validation.CheckTransaction.maxZerocoinSpendsPerTransaction
  · rw [if_pos tooMany] at checked
    cases checked
  · rw [if_neg tooMany] at checked
    obtain ⟨isSpend, evaluated, checked⟩ :=
      Validation.ZerocoinScripts.bind_eq_ok.mp checked
    cases evaluated
    rw [if_pos rfl] at checked
    split_ifs at checked with unmarked
    · cases checked
    · rw [Bool.not_eq_true', Bool.not_eq_false, List.all_eq_true] at unmarked
      exact ⟨unmarked,
        Validation.ZerocoinScripts.orRefuse_eq_ok.mp checked⟩

theorem acceptsTx_spend (accepted : acceptsTx call tx = true)
    (spend : isZerocoinSpendTx tx = some true) :
    (∀ txin ∈ tx.vin, isMarked txin = true) ∧
      ∀ txin ∈ tx.vin,
        denomination call.library txin = txin.nSequence.toNat := by
  unfold acceptsTx at accepted
  split at accepted
  case h_2 => cases accepted
  case h_1 checked =>
    unfold checkTransaction at checked
    split_ifs at checked
    obtain ⟨nZCSpendCount, _, checked⟩ :=
      Validation.ZerocoinScripts.bind_eq_ok.mp checked
    obtain ⟨_, zerocoins, _⟩ :=
      Validation.ZerocoinScripts.bind_eq_ok.mp checked
    obtain ⟨marked, zerocoinSpend⟩ := checkZerocoins_spend spend zerocoins
    refine ⟨marked, ?_⟩
    unfold Validation.ZerocoinScripts.checkZerocoinSpend at zerocoinSpend
    dsimp only at zerocoinSpend
    split_ifs at zerocoinSpend
    · cases zerocoinSpend
    · obtain ⟨redeemed, checked, _⟩ :=
        Validation.ZerocoinScripts.bind_eq_ok.mp zerocoinSpend
      intro txin member
      exact denomination_of_checkSpends checked txin member
        (marked txin member)

/-- A zerocoin spend takes in what it redeems. -/
theorem connected_redeemed {vtx : List CTransaction}
    (accepted : acceptsTx call tx = true)
    (spend : isZerocoinSpendTx tx = some true) :
    ConnectedTx ledger known tx ∧
      redeemed (checksOf call vtx) tx = takenIn ledger tx := by
  have kind : spendsCoins tx = some false := spendsCoins_iff.mpr
    ⟨false, true, Validation.CheckTransaction.isCoinBase_of_spend spend, spend,
      rfl⟩
  have ordinary : spendsCoins tx ≠ some true := by
    rw [kind]
    decide
  obtain ⟨marked, denominations⟩ := acceptsTx_spend accepted spend
  constructor
  · exact ⟨by rw [kind]; rfl, fun _ => marked,
      fun spends => absurd spends ordinary⟩
  · have all : tx.vin.filter (fun txin => isZerocoinSpend txin.scriptSig) =
        tx.vin := List.filter_eq_self.mpr marked
    rw [takenIn, if_neg ordinary, if_pos spend, redeemed, all]
    congr 1
    apply List.map_congr_left
    intro txin member
    rw [sequenceValue, ← denominations txin member]
    rfl

/-- A coinbase takes in nothing. -/
theorem connected_coinBase (coinBase : isCoinBase tx = some true)
    (spend : isZerocoinSpendTx tx = some false) :
    ConnectedTx ledger known tx ∧ takenIn ledger tx = 0 := by
  have kind : spendsCoins tx = some false :=
    spendsCoins_iff.mpr ⟨true, false, coinBase, spend, rfl⟩
  have ordinary : spendsCoins tx ≠ some true := by
    rw [kind]
    decide
  have unmarked : isZerocoinSpendTx tx ≠ some true := by
    rw [spend]
    decide
  constructor
  · exact ⟨by rw [kind]; rfl, fun impossible => absurd impossible unmarked,
      fun spends => absurd spends ordinary⟩
  · rw [takenIn, if_neg ordinary, if_neg unmarked]

/-- Any other transaction takes in the coins it spends. -/
theorem connected_spent (faithful : Faithful ledger known view)
    {chain : ChainState} {nHeight fee nValueIn : Int}
    (coinBase : isCoinBase tx = some false)
    (spend : isZerocoinSpendTx tx = some false)
    (amounts : spentAmounts chain nHeight tx view = some (fee, nValueIn)) :
    ConnectedTx ledger known tx ∧ nValueIn = takenIn ledger tx := by
  have kind : spendsCoins tx = some true :=
    spendsCoins_iff.mpr ⟨false, false, coinBase, spend, rfl⟩
  have unmarked : isZerocoinSpendTx tx ≠ some true := by
    rw [spend]
    decide
  unfold spentAmounts at amounts
  split at amounts
  case isFalse => cases amounts
  case isTrue passed =>
    obtain ⟨have', checked⟩ := passed
    have available := MoneySupply.available_of_haveInputs coinBase spend
      have'
    unfold checkInputs at checked
    split at checked
    case h_2 => cases checked
    case h_1 total nValueOut counted paid =>
      obtain ⟨sum, present⟩ := toInt_checkCoins faithful available
        (by decide) counted
      rw [getValueIn, coinBase, spend] at amounts
      dsimp only at amounts
      rw [MoneySupply.sumInputs_of_checkCoins available counted, paid]
        at amounts
      cases amounts
      constructor
      · exact ⟨by rw [kind]; rfl,
          fun impossible => absurd impossible unmarked, fun _ => present⟩
      · rw [takenIn, if_pos kind, sum]
        exact Int.zero_add _

/-- What a connected transaction adds to the tally. -/
theorem inputAmounts_eq (faithful : Faithful ledger known view)
    {chain : ChainState} {vtx : List CTransaction} {nHeight fee nValueIn : Int}
    (accepted : acceptsTx call tx = true)
    (amounts : inputAmounts chain (checksOf call vtx) nHeight tx view =
      some (fee, nValueIn)) :
    ConnectedTx ledger known tx ∧ nValueIn = takenIn ledger tx := by
  unfold inputAmounts at amounts
  split at amounts
  case h_1 spend =>
    cases amounts
    exact connected_redeemed accepted spend
  case h_2 spend coinBase =>
    cases amounts
    obtain ⟨connected, nothing⟩ := connected_coinBase coinBase spend
    exact ⟨connected, nothing.symm⟩
  case h_3 spend coinBase =>
    exact connected_spent faithful coinBase spend amounts
  case h_4 => cases amounts

theorem connectTx_amounts (faithful : Faithful ledger known view)
    {chain : ChainState} {vtx : List CTransaction} {nHeight : Int}
    {tally tally' : Tally} (same : tally.view = view)
    (accepted : acceptsTx call tx = true) (isKnown : known tx.getHash)
    (hash : ledger.transaction tx.getHash = tx)
    (connected : connectTx chain (checksOf call vtx) nHeight tx tally =
      some tally') :
    Faithful ledger known tally'.view ∧ ConnectedTx ledger known tx ∧
      tally'.nValueIn = tally.nValueIn + takenIn ledger tx ∧
      tally'.nValueOut = tally.nValueOut + outputValues tx.vout := by
  subst same
  unfold connectTx at connected
  split_ifs at connected
  split at connected
  case h_1 fee nValueIn nValueOut undo after amounts paid updated =>
    cases connected
    obtain ⟨connectedTx, rfl⟩ := inputAmounts_eq faithful accepted amounts
    have out := toInt_sumOutputs (by decide) paid
    refine ⟨(faithful.updateCoins isKnown hash updated).1, connectedTx, rfl, ?_⟩
    dsimp only
    rw [out]
    congr 1
    exact Int.zero_add _
  · cases connected

theorem connectTxs_amounts {chain : ChainState}
    {vtx listed : List CTransaction} {nHeight : Int} {tally tally' : Tally}
    (faithful : Faithful ledger known tally.view)
    (accepted : ∀ tx ∈ vtx, acceptsTx call tx = true)
    (isListed : Listed ledger known vtx)
    (connected : connectTxs chain (checksOf call listed) nHeight vtx tally =
      some tally') :
    (∀ tx ∈ vtx, ConnectedTx ledger known tx) ∧
      tally'.nValueIn =
        tally.nValueIn + (vtx.map (takenIn ledger)).sum ∧
      tally'.nValueOut =
        tally.nValueOut + (vtx.map fun tx => outputValues tx.vout).sum := by
  induction vtx generalizing tally with
  | nil =>
      cases connected
      refine ⟨?_, (Int.add_zero _).symm, (Int.add_zero _).symm⟩
      intro tx member
      cases member
  | cons tx rest ih =>
      rw [connectTxs] at connected
      split at connected
      · cases connected
      case h_2 middle done =>
        obtain ⟨isKnown, hash⟩ := isListed tx List.mem_cons_self
        obtain ⟨kept, here, nValueIn, nValueOut⟩ := connectTx_amounts faithful
          rfl (accepted tx List.mem_cons_self) isKnown hash done
        obtain ⟨others, laterIn, laterOut⟩ := ih kept
          (fun tx member => accepted tx (List.mem_cons_of_mem _ member))
          (fun tx member => isListed tx (List.mem_cons_of_mem _ member))
          connected
        refine ⟨List.forall_mem_cons.mpr ⟨here, others⟩, ?_, ?_⟩
        · rw [laterIn, nValueIn, List.map_cons, List.sum_cons]
          omega
        · rw [laterOut, nValueOut, List.map_cons, List.sum_cons]
          omega

end Connecting

/-! ## What every state keeps -/

/-- The hashes that the transaction index has, if it is kept. -/
def Indexed (fTxIndex : Bool) (state : State) (txid : UInt256) : Prop :=
  fTxIndex = true → state.txIndex txid = true

/-- What was recorded for a block when it was connected. -/
structure RecordedBlock (ledger : Ledger) (known : UInt256 → Prop)
    (supplies : Branch → Int) (block : CBlock) (pprev : Branch) : Prop where
  connected : ∀ tx ∈ transactions ledger block, ConnectedTx ledger known tx
  supply : supplies (block :: pprev) =
    supplies pprev + blockPaidOut ledger block - blockTakenIn ledger block

structure Inv (ledger : Ledger) (fTxIndex : Bool) (state : State) :
    Prop where
  nonempty : state.chainActive ≠ []
  faithful : Faithful ledger (Indexed fTxIndex state) state.view
  undo : ∀ block pprev, pprev ≠ [] → block :: pprev <:+ state.chainActive →
    FaithfulUndos ledger (Indexed fTxIndex state)
      ((transactions ledger block).zip
        (none :: (state.vtxundo (block :: pprev)).map some))
  recorded : ∀ block pprev, pprev ≠ [] →
    block :: pprev <:+ state.chainActive →
    RecordedBlock ledger (Indexed fTxIndex state) state.nMoneySupply block
      pprev

section Runs

variable {ledger : Ledger} {fTxIndex : Bool} {genesis : CBlock}
  {state : State} {block : CBlock}

theorem inv_genesis : Inv ledger fTxIndex (genesisState genesis) := by
  have short : ∀ block pprev, pprev ≠ [] →
      ¬ block :: pprev <:+ (genesisState genesis).chainActive := by
    intro block pprev behind suffix
    have bound := suffix.length_le
    have positive := List.length_pos_iff.mpr behind
    simp only [genesisState, List.length_cons, List.length_nil] at bound
    omega
  constructor
  · exact List.cons_ne_nil _ _
  · intro txid nPos txout unspent
    rw [unspent_some_iff] at unspent
    cases unspent.1
  · intro block pprev behind suffix
    exact absurd suffix (short block pprev behind)
  · intro block pprev behind suffix
    exact absurd suffix (short block pprev behind)

theorem listed_transactions {known : UInt256 → Prop}
    (isKnown : ∀ txid ∈ block.vtx, known txid) :
    Listed ledger known (transactions ledger block) := by
  intro tx member
  obtain ⟨txid, inBlock, rfl⟩ := List.mem_map.mp member
  rw [ledger.getHash_transaction]
  exact ⟨isKnown txid inBlock, rfl⟩

/-- What `ConnectBlock` has found out about a block that it accepts. -/
theorem connectBlock_amounts {call : Call} {known : UInt256 → Prop}
    {chain : ChainState} {tip : UInt256} {pprev entry : MoneySupply.CBlockIndex}
    (faithful : Faithful ledger known chain.view)
    (isKnown : ∀ txid ∈ block.vtx, known txid)
    (indexed : chain.mapBlockIndex tip = some pprev)
    (accepted : MoneySupply.connectBlock chain
      (checksOf call (transactions ledger block))
        ⟨tip, transactions ledger block⟩ = some entry) :
    (∀ tx ∈ transactions ledger block, ConnectedTx ledger known tx) ∧
      entry.nMoneySupply = pprev.nMoneySupply + blockPaidOut ledger block -
        blockTakenIn ledger block := by
  unfold MoneySupply.connectBlock at accepted
  rw [indexed] at accepted
  dsimp only at accepted
  split_ifs at accepted with refused
  rw [not_or, not_or] at refused
  have valid : (checksOf call (transactions ledger block)).block = true := by
    simpa using refused.2.2
  rw [checksOf, Bool.and_eq_true, List.all_eq_true] at valid
  split at accepted
  · cases accepted
  case h_2 tally connected =>
    split_ifs at accepted
    cases accepted
    obtain ⟨connectedTxs', nValueIn, nValueOut⟩ := connectTxs_amounts faithful
      valid.2 (listed_transactions isKnown) connected
    refine ⟨connectedTxs', ?_⟩
    dsimp only
    rw [nValueIn, nValueOut, blockPaidOut, blockTakenIn]
    dsimp only
    omega

theorem inv_connectTip (inv : Inv ledger fTxIndex state) (call : Call) :
    Inv ledger fTxIndex (connectTip ledger fTxIndex call block state) := by
  unfold connectTip
  split
  · exact inv
  case h_2 tip older shape =>
    dsimp only
    split
    case h_2 => exact inv
    case h_1 entry undos view accepted connected =>
      let known := fun txid => fTxIndex = true →
        (state.txIndex txid ||
          (fTxIndex && decide (txid ∈ block.vtx))) = true
      have more : ∀ txid, Indexed fTxIndex state txid → known txid := by
        intro txid indexed active
        rw [indexed active, Bool.true_or]
      have isKnown : ∀ txid ∈ block.vtx, known txid := by
        intro txid member active
        rw [active, decide_eq_true member, Bool.and_true, Bool.or_true]
      have faithful := inv.faithful.mono more
      obtain ⟨kept, undone⟩ := faithful.connectTransactions
        (listed_transactions isKnown) connected
      obtain ⟨connectedTxs', supply⟩ := connectBlock_amounts faithful isKnown
        (Function.update_self tip.hash _ _) accepted
      -- the entries of the old chain stay
      have apart : ∀ part : Branch, part <:+ state.chainActive →
          part ≠ block :: state.chainActive := by
        rintro part suffix rfl
        have bound := suffix.length_le
        rw [List.length_cons] at bound
        omega
      constructor
      · exact List.cons_ne_nil _ _
      · exact kept
      · intro newest pprev behind suffix
        rcases List.suffix_cons_iff.mp suffix with whole | inside
        · cases whole
          dsimp only
          rw [Function.update_self]
          exact undone
        · dsimp only
          rw [Function.update_of_ne (apart _ inside)]
          intro pair member found same spends
          exact (inv.undo newest pprev behind inside pair member found same
            spends).mono more
      · intro newest pprev behind suffix
        rcases List.suffix_cons_iff.mp suffix with whole | inside
        · cases whole
          refine ⟨connectedTxs', ?_⟩
          dsimp only
          rw [Function.update_self,
            Function.update_of_ne (apart _ List.suffix_rfl)]
          exact supply
        · have recorded := inv.recorded newest pprev behind inside
          refine ⟨fun tx member => (recorded.connected tx member).mono more, ?_⟩
          dsimp only
          rw [Function.update_of_ne (apart _ inside),
            Function.update_of_ne (apart _
              ((List.suffix_cons newest pprev).trans inside))]
          exact recorded.supply

theorem inv_disconnectTip (inv : Inv ledger fTxIndex state) :
    Inv ledger fTxIndex (disconnectTip ledger state) := by
  unfold disconnectTip
  split
  case h_2 => exact inv
  case h_1 newest previous older shape =>
    split
    case h_2 => exact inv
    case h_1 view done =>
      have shorter : previous :: older <:+ state.chainActive := by
        rw [shape]
        exact List.suffix_cons _ _
      unfold disconnectBlock at done
      split_ifs at done
      have undone := inv.undo newest (previous :: older)
        (List.cons_ne_nil _ _) (by rw [shape])
      rw [← shape] at undone
      constructor
      · exact List.cons_ne_nil _ _
      · exact inv.faithful.disconnectTxs undone done
      · intro block pprev behind suffix
        exact inv.undo block pprev behind (suffix.trans shorter)
      · intro block pprev behind suffix
        exact inv.recorded block pprev behind (suffix.trans shorter)

theorem inv_step (inv : Inv ledger fTxIndex state) (event : Event) :
    Inv ledger fTxIndex (step ledger fTxIndex state event) := by
  cases event with
  | connectTip block call => exact inv_connectTip inv call
  | disconnectTip => exact inv_disconnectTip inv

theorem inv_run (ledger : Ledger) (fTxIndex : Bool) (genesis : CBlock)
    (events : List Event) :
    Inv ledger fTxIndex (run ledger fTxIndex genesis events) := by
  unfold run
  induction events using List.reverseRecOn with
  | nil => exact inv_genesis
  | append_singleton events event ih =>
      rw [List.foldl_append]
      exact inv_step ih event

end Runs

/-! ## When the recalculation reproduces the supply -/

/-- All entries from the start height on are written as they were. -/
def Reproduces (lookup : Lookup) (state : State) (nHeightStart : Nat) :
    Prop :=
  recalculatePIVSupply lookup state nHeightStart =
    some (true, state.nMoneySupply)

/--
What the blocks of a branch from the start height on have to meet.  The height
of a block is the length of what is behind it.
-/
structure Reproducible (lookup : Lookup) (state : State)
    (nHeightStart : Nat) (branch : Branch) : Prop where
  /-- `GetTransaction` finds what the inputs spend. -/
  found : ∀ block pprev, block :: pprev <:+ branch →
    nHeightStart ≤ pprev.length →
    ∀ tx ∈ transactions lookup.ledger block, Found lookup state tx
  /-- The first supply is the recorded one, up to inputs that are misread. -/
  first : ∀ block pprev, block :: pprev <:+ branch →
    pprev.length = nHeightStart →
    supplyBefore state nHeightStart =
      state.nMoneySupply pprev + blockMisread lookup.ledger block
  /-- Behind it nothing is misread. -/
  later : ∀ block pprev, block :: pprev <:+ branch →
    nHeightStart < pprev.length → blockMisread lookup.ledger block = 0

section Recalculation

variable {lookup : Lookup} {state : State} {nHeightStart : Nat}
  {known : UInt256 → Prop} {newest : CBlock} {older branch : Branch}

theorem rewriteSupplies_append (first second : List Branch)
    (reached : Int × (Branch → Int)) :
    rewriteSupplies lookup state (first ++ second) reached =
      (rewriteSupplies lookup state first reached).bind
        (rewriteSupplies lookup state second) := by
  induction first generalizing reached with
  | nil => rfl
  | cons part rest ih =>
      cases part with
      | nil => rfl
      | cons block pprev =>
          rw [List.cons_append, rewriteSupplies, rewriteSupplies]
          cases valuesOf lookup state (transactions lookup.ledger block) with
          | none => rfl
          | some values => exact ih _

theorem rewriteSupplies_elsewhere {parts : List Branch} {part : Branch}
    {reached result : Int × (Branch → Int)} (outside : part ∉ parts)
    (done : rewriteSupplies lookup state parts reached = some result) :
    result.2 part = reached.2 part := by
  induction parts generalizing reached with
  | nil =>
      cases done
      rfl
  | cons first rest ih =>
      rw [List.mem_cons, not_or] at outside
      cases first with
      | nil => cases done
      | cons block pprev =>
          rw [rewriteSupplies] at done
          split at done
          · cases done
          · rw [ih outside.2 done]
            exact Function.update_of_ne outside.1 _ _

/-- One round writes the recorded supply exactly if it starts from it. -/
theorem rewriteSupplies_last_iff {nSupplyPrev final : Int}
    (recorded : RecordedBlock lookup.ledger known state.nMoneySupply newest
      older) :
    rewriteSupplies lookup state [newest :: older]
        (nSupplyPrev, state.nMoneySupply) =
        some (final, state.nMoneySupply) ↔
      (∀ tx ∈ transactions lookup.ledger newest, Found lookup state tx) ∧
        nSupplyPrev = state.nMoneySupply older +
          blockMisread lookup.ledger newest ∧
        final = state.nMoneySupply (newest :: older) := by
  have values := fun nValueIn nValueOut =>
    @valuesOf_iff lookup state known _ recorded.connected nValueIn nValueOut
  have supply := recorded.supply
  unfold blockPaidOut blockTakenIn at supply
  unfold blockMisread
  rw [rewriteSupplies]
  split
  case h_1 none' =>
    constructor
    · intro impossible
      cases impossible
    · rintro ⟨found, _⟩
      rw [(values _ _).mpr ⟨found, rfl, rfl⟩] at none'
      cases none'
  case h_2 nValueIn nValueOut some' =>
    obtain ⟨found, rfl, rfl⟩ := (values _ _).mp some'
    rw [rewriteSupplies, Option.some.injEq, Prod.mk.injEq,
      Function.update_eq_self_iff]
    constructor
    · rintro ⟨rfl, same⟩
      exact ⟨found, by omega, same⟩
    · rintro ⟨_, prev, rfl⟩
      exact ⟨by omega, by omega⟩

theorem reproducible_cons_iff (long : nHeightStart ≤ older.length) :
    Reproducible lookup state nHeightStart (newest :: older) ↔
      Reproducible lookup state nHeightStart older ∧
        (∀ tx ∈ transactions lookup.ledger newest, Found lookup state tx) ∧
        (if nHeightStart < older.length then state.nMoneySupply older
          else supplyBefore state nHeightStart) =
            state.nMoneySupply older + blockMisread lookup.ledger newest := by
  have whole : newest :: older <:+ newest :: older := List.suffix_rfl
  constructor
  · intro all
    refine ⟨⟨?_, ?_, ?_⟩, all.found newest older whole long, ?_⟩
    · intro block pprev suffix
      exact all.found block pprev (suffix.trans (List.suffix_cons _ _))
    · intro block pprev suffix
      exact all.first block pprev (suffix.trans (List.suffix_cons _ _))
    · intro block pprev suffix
      exact all.later block pprev (suffix.trans (List.suffix_cons _ _))
    · split_ifs with behind
      · rw [all.later newest older whole behind, Int.add_zero]
      · exact all.first newest older whole (by omega)
  · rintro ⟨behind, found, supply⟩
    constructor
    · intro block pprev suffix height
      rcases List.suffix_cons_iff.mp suffix with same | inside
      · cases same
        exact found
      · exact behind.found block pprev inside height
    · intro block pprev suffix height
      rcases List.suffix_cons_iff.mp suffix with same | inside
      · cases same
        rw [if_neg (by omega)] at supply
        exact supply
      · exact behind.first block pprev inside height
    · intro block pprev suffix height
      rcases List.suffix_cons_iff.mp suffix with same | inside
      · cases same
        rw [if_pos height] at supply
        omega
      · exact behind.later block pprev inside height

theorem reproducible_of_short (short : branch.length ≤ nHeightStart) :
    Reproducible lookup state nHeightStart branch := by
  have none' : ∀ block pprev, block :: pprev <:+ branch →
      ¬ nHeightStart ≤ pprev.length := by
    intro block pprev suffix
    have bound := suffix.length_le
    rw [List.length_cons] at bound
    omega
  constructor
  · intro block pprev suffix height
    exact absurd height (none' block pprev suffix)
  · intro block pprev suffix height
    exact absurd (Nat.le_of_eq height.symm) (none' block pprev suffix)
  · intro block pprev suffix height
    exact absurd (Nat.le_of_lt height) (none' block pprev suffix)

/-- The loop ends with the recorded entries exactly under the condition. -/
theorem rewriteSupplies_iff (positive : 1 ≤ nHeightStart)
    (recorded : ∀ block pprev, pprev ≠ [] → block :: pprev <:+ branch →
      RecordedBlock lookup.ledger known state.nMoneySupply block pprev)
    (final : Int) :
    rewriteSupplies lookup state (above nHeightStart branch)
        (supplyBefore state nHeightStart, state.nMoneySupply) =
        some (final, state.nMoneySupply) ↔
      Reproducible lookup state nHeightStart branch ∧
        final = if nHeightStart < branch.length then
          state.nMoneySupply branch else supplyBefore state nHeightStart := by
  induction branch generalizing final with
  | nil =>
      rw [above, rewriteSupplies, List.length_nil,
        if_neg (Nat.not_lt_zero _)]
      constructor
      · rintro ⟨⟩
        exact ⟨reproducible_of_short (Nat.zero_le _), rfl⟩
      · rintro ⟨_, rfl⟩
        rfl
  | cons newest older ih =>
      rw [above, List.length_cons]
      by_cases short : older.length + 1 ≤ nHeightStart
      · rw [if_pos short, if_neg (by omega), rewriteSupplies]
        constructor
        · rintro ⟨⟩
          exact ⟨reproducible_of_short short, rfl⟩
        · rintro ⟨_, rfl⟩
          rfl
      · have height : nHeightStart ≤ older.length := by omega
        have behind : older ≠ [] := by
          apply List.ne_nil_of_length_pos
          omega
        have here := recorded newest older behind List.suffix_rfl
        have lower := fun final => ih (fun block pprev nonempty suffix =>
          recorded block pprev nonempty
            (suffix.trans (List.suffix_cons newest older))) final
        rw [if_neg short, if_pos (by omega), rewriteSupplies_append,
          reproducible_cons_iff height]
        constructor
        · intro done
          obtain ⟨⟨middle, supplies⟩, before, last⟩ :=
            Option.bind_eq_some_iff.mp done
          -- the first rounds have not touched the last entry
          have untouched : supplies = state.nMoneySupply := by
            funext part
            by_cases same : part = newest :: older
            · subst same
              apply rewriteSupplies_elsewhere _ before
              intro member
              have bound := (mem_above.mp member).1.length_le
              rw [List.length_cons] at bound
              omega
            · have kept := rewriteSupplies_elsewhere
                (mt List.mem_singleton.mp same) last
              exact kept.symm
          subst untouched
          obtain ⟨lowerReproducible, rfl⟩ := (lower middle).mp before
          obtain ⟨found, supply, rfl⟩ := (rewriteSupplies_last_iff here).mp last
          exact ⟨⟨lowerReproducible, found, supply⟩, rfl⟩
        · rintro ⟨⟨lowerReproducible, found, supply⟩, rfl⟩
          rw [(lower _).mpr ⟨lowerReproducible, rfl⟩, Option.bind_some]
          exact (rewriteSupplies_last_iff here).mpr ⟨found, supply, rfl⟩

end Recalculation

/--
The recalculation reproduces the recorded supply exactly if it starts from
the supply that was recorded before the start height, misreads no input and
finds the transactions that are spent.
-/
theorem recalculate_reproduces_iff (ledger : Ledger) (fTxIndex : Bool)
    (genesis : CBlock) (events : List Event) (mempool : List UInt256)
    (nHeightStart : Nat) (positive : 1 ≤ nHeightStart)
    (inChain : nHeightStart <
      (run ledger fTxIndex genesis events).chainActive.length) :
    Reproduces ⟨ledger, fTxIndex, mempool⟩
        (run ledger fTxIndex genesis events) nHeightStart ↔
      Reproducible ⟨ledger, fTxIndex, mempool⟩
        (run ledger fTxIndex genesis events) nHeightStart
        (run ledger fTxIndex genesis events).chainActive := by
  have inv := inv_run ledger fTxIndex genesis events
  have loop := @rewriteSupplies_iff ⟨ledger, fTxIndex, mempool⟩ _ _ _ _
    positive inv.recorded
  rw [Reproduces, recalculatePIVSupply, if_neg (by omega)]
  constructor
  · intro reproduced
    obtain ⟨⟨final, supplies⟩, done, same⟩ :=
      Option.map_eq_some_iff.mp reproduced
    cases same
    exact ((loop final).mp done).1
  · intro reproducible
    rw [(loop _).mpr ⟨reproducible, rfl⟩]
    rfl

/-- Transactions that pay nothing to an output anyone can spend. -/
def emptyLedger : Ledger where
  transaction := fun txid => ⟨txid, 1, txPayment,
    [⟨⟨0, 0xffffffff⟩, [1, 1], 0⟩], [⟨0, [0x51]⟩],
    .plain txMetaEmpty, [], 0⟩
  getHash_transaction := fun _ => rfl

def sampleCall : Call where
  node := MoneySupply.sampleChain true 0
  library :=
    { hash256 := fun _ => 0
      setvch := fun _ => 0
      validate := fun _ => true
      coinSpend := fun _ => none
      readAccumulatorValue := fun _ => none
      verify := fun _ _ => true }
  fVerifySignature := true
  transaction := fun _ _ => true
  valid := true

/-- Blocks with nothing but a coinbase. -/
def emptyBlocks (count : Nat) : List Event :=
  (List.range count).map fun height =>
    .connectTip ⟨BitVec.ofNat 256 (height + 1),
      [BitVec.ofNat 256 (height + 1)]⟩ sampleCall

/-- Each transaction pays one coin, and the thousandth spends what the first
has paid. -/
def payingLedger : Ledger where
  transaction := fun txid => ⟨txid, 1, txPayment,
    if txid = 1000 then [⟨⟨1, 0⟩, [], 0⟩]
    else [⟨⟨0, 0xffffffff⟩, [1, 1], 0⟩],
    [⟨100000000, [0x51]⟩], .plain txMetaEmpty, [], 0⟩
  getHash_transaction := fun _ => rfl

/-- The rules of the test network. -/
def testCall : Call :=
  { sampleCall with
    node := { sampleCall.node with
      network := .testnet
      lastPowBlock := 4000000
      coinbaseMaturity := 15 } }

/-- Blocks of one coin each; the last one also spends the first coin. -/
def payingBlocks : List Event :=
  (List.range 16).map fun height =>
    .connectTip ⟨BitVec.ofNat 256 (height + 1),
      BitVec.ofNat 256 (height + 1) :: if height = 15 then [1000] else []⟩
      testCall

def paidState : State := run payingLedger true ⟨0, []⟩ payingBlocks

theorem sixteenBlocks_reproduces_iff :
    paidState.chainActive.length = 17 ∧
      paidState.nMoneySupply paidState.chainActive = 1600000000 ∧
      (Reproduces ⟨payingLedger, true, []⟩ paidState 1 ↔
        Reproducible ⟨payingLedger, true, []⟩ paidState 1
          paidState.chainActive) := by
  have length : paidState.chainActive.length = 17 := by decide +kernel
  have inChain : 1 < paidState.chainActive.length := by
    rw [length]
    decide
  exact ⟨length, by decide +kernel, recalculate_reproduces_iff payingLedger
    true ⟨0, []⟩ payingBlocks [] 1 (by decide) inChain⟩

/-- From the height where zerocoins start the supply comes from nowhere. -/
theorem startHeight_not_reproduced :
    (run emptyLedger true ⟨0, []⟩ (emptyBlocks 20)).chainActive.length = 21 ∧
      ¬ Reproduces ⟨emptyLedger, true, []⟩
        (run emptyLedger true ⟨0, []⟩ (emptyBlocks 20)) 20 := by
  refine ⟨by decide +kernel, ?_⟩
  intro reproduced
  have tip := congrArg (Option.map fun result =>
    result.2 (run emptyLedger true ⟨0, []⟩ (emptyBlocks 20)).chainActive)
    reproduced
  exact absurd tip (by decide +kernel)

end PrivateDatagram.Chainstate.RecordedSupply
