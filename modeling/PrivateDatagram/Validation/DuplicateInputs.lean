import PrivateDatagram.Validation.CheckTransaction

/-!
# Duplicate inputs

`CheckTransaction` refuses an input whose outpoint has been seen, but an
input whose script starts with `OP_ZEROCOINSPEND` leaves no mark.  In a
zerocoin spend all outpoints are null and the serials are compared instead.
In any other transaction such a script on an ordinary input hides the
outpoint from the inputs behind it.
-/

namespace PrivateDatagram.Validation.DuplicateInputs

open Wire.Transaction Wire.Script Chainstate.Coins CheckTransaction

/-- No input with a zerocoin script shares its outpoint with a later one. -/
def NothingHidden (tx : CTransaction) : Prop :=
  tx.vin.Pairwise fun left right =>
    isZerocoinSpend left.scriptSig = true → left.prevout ≠ right.prevout

theorem prevouts_nodup_iff {tx : CTransaction}
    (duplicates : tx.vin.Pairwise fun left right =>
      isZerocoinSpend left.scriptSig = true ∨ left.prevout ≠ right.prevout) :
    (tx.vin.map CTxIn.prevout).Nodup ↔ NothingHidden tx := by
  rw [List.Nodup, List.pairwise_map, NothingHidden]
  constructor
  · intro distinct
    refine distinct.imp ?_
    intro left right apart _
    exact apart
  · intro shown
    refine (shown.and duplicates).imp ?_
    rintro left right ⟨hidden, isZerocoin | apart⟩
    · exact hidden isZerocoin
    · exact apart

/-! ## Spending and counting -/

/-- The value of a coin, nothing for a coin that is not there. -/
def coinValue (view : CoinsMap) (out : COutPoint) : Int64 :=
  match view.unspent out with
  | none => 0
  | some txout => txout.nValue

theorem isAvailable_unspent {coins : CCoins} {nPos : UInt32}
    (available : coins.isAvailable nPos = true) :
    ∃ txout, coins.vout[nPos.toNat]? = some txout ∧
      coins.unspent nPos.toNat = some txout := by
  unfold CCoins.isAvailable at available
  split at available
  · cases available
  case h_2 txout found =>
    refine ⟨txout, found, ?_⟩
    rw [Bool.and_eq_true] at available
    rw [CCoins.unspent, found, Option.filter_some, if_pos available.1]

/-- What `HaveInputs` says about one input. -/
theorem getOutputFor_of_available {txin : CTxIn} {view : CoinsMap}
    (available : (match view txin.prevout.hash with
      | none => false
      | some coins => coins.isAvailable txin.prevout.n) = true) :
    ∃ txout, getOutputFor txin view = some txout ∧
      view.unspent txin.prevout = some txout := by
  unfold getOutputFor CoinsMap.unspent CoinsMap.entry
  cases found : view txin.prevout.hash with
  | none =>
      rw [found] at available
      cases available
  | some coins =>
      rw [found] at available
      dsimp only at available ⊢
      rcases isAvailable_unspent available with ⟨txout, held, unspent⟩
      rw [if_pos available]
      exact ⟨txout, held, unspent⟩

theorem haveInputs_outputs {tx : CTransaction} {view : CoinsMap}
    (spends : spendsCoins tx = some true)
    (have' : haveInputs tx view = some true) :
    ∀ txin ∈ tx.vin, ∃ txout, getOutputFor txin view = some txout ∧
      view.unspent txin.prevout = some txout := by
  rw [haveInputs, spends] at have'
  simp only [Option.map_some, Bool.not_true, Bool.false_or,
    Option.some.injEq, List.all_eq_true] at have'
  intro txin member
  exact getOutputFor_of_available (have' txin member)

theorem sumInputs_eq {view : CoinsMap} {vin : List CTxIn}
    (held : ∀ txin ∈ vin, ∃ txout, getOutputFor txin view = some txout ∧
      view.unspent txin.prevout = some txout) (nResult : Int64) :
    sumInputs view vin nResult =
      some (nResult +
        (vin.map fun txin => coinValue view txin.prevout).sum) := by
  induction vin generalizing nResult with
  | nil =>
      rw [sumInputs, List.map_nil, List.sum_nil, Int64.add_zero]
  | cons txin rest ih =>
      rw [List.forall_mem_cons] at held
      rcases held with ⟨⟨txout, found, unspent⟩, others⟩
      have value : coinValue view txin.prevout = txout.nValue := by
        rw [coinValue, unspent]
      rw [sumInputs, found, List.map_cons, List.sum_cons, value,
        ← Int64.add_assoc]
      exact ih others _

theorem updateCoins_isSome_iff {tx : CTransaction} {nHeight : Int32}
    {view : CoinsMap} (notCoinBase : isCoinBase tx = some false)
    (spends : spendsCoins tx = some true)
    (have' : haveInputs tx view = some true) :
    (updateCoins tx nHeight view).isSome = true ↔
      (tx.vin.map CTxIn.prevout).Nodup := by
  have unspent : ∀ txin ∈ tx.vin,
      (view.unspent txin.prevout).isSome = true := by
    intro txin member
    rcases haveInputs_outputs spends have' txin member
      with ⟨txout, _, found⟩
    rw [found]
    rfl
  have inputs := spendInputs_isSome_iff tx.vin view
  rw [updateCoins, spends, CCoins.fromTx, notCoinBase]
  dsimp only [Option.map_some]
  rw [if_pos rfl]
  cases ran : spendInputs tx.vin view with
  | none =>
      rw [ran] at inputs
      have repeated : ¬ (tx.vin.map CTxIn.prevout).Nodup := by
        intro distinct
        exact Bool.noConfusion (inputs.mpr ⟨unspent, distinct⟩)
      simpa using repeated
  | some reached =>
      rw [ran] at inputs
      simpa using (inputs.mp rfl).2

/--
No outpoint is spent twice: the prevouts are distinct, on a view that has the
inputs no `Spend` fails, and the input value counts each coin once.
-/
structure SpendsOnce (tx : CTransaction) : Prop where
  distinct : (tx.vin.map CTxIn.prevout).Nodup
  spendable : ∀ (view : CoinsMap) (nHeight : Int32),
    haveInputs tx view = some true →
      (updateCoins tx nHeight view).isSome = true
  counted : ∀ view : CoinsMap, haveInputs tx view = some true →
    getValueIn tx view =
      some ((tx.vin.map CTxIn.prevout).dedup.map (coinValue view)).sum

/-- An accepted transaction spends once exactly when nothing is hidden. -/
theorem accepted_spendsOnce_iff (checks : ZerocoinChecks)
    (fZerocoinActive : Bool) (tx : CTransaction)
    (accepted : checkTransaction checks fZerocoinActive tx = .ok ())
    (notCoinBase : isCoinBase tx = some false)
    (notSpend : isZerocoinSpendTx tx = some false) :
    SpendsOnce tx ↔ NothingHidden tx := by
  have acceptable := (checkTransaction_ok_iff _ _ _).mp accepted
  have spends : spendsCoins tx = some true := by
    rw [spendsCoins, notCoinBase, notSpend]
    rfl
  rw [← prevouts_nodup_iff acceptable.duplicates]
  constructor
  · intro once
    exact once.distinct
  · intro distinct
    refine ⟨distinct, ?_, ?_⟩
    · intro view nHeight have'
      exact (updateCoins_isSome_iff notCoinBase spends have').mpr distinct
    · intro view have'
      rw [List.dedup_eq_self.mpr distinct, List.map_map, getValueIn, notCoinBase, notSpend]
      dsimp only
      rw [sumInputs_eq (haveInputs_outputs spends have'), Int64.zero_add]
      rfl

/-! ## A hidden outpoint -/

/-- Two inputs, the first with the given script. -/
def doubleSpend (scriptSig : CScript) (second : COutPoint) : CTransaction :=
  .ofMutable (fun _ => 5)
    { nVersion := 1
      type := txPayment
      vin := [⟨⟨7, 0⟩, scriptSig, 0xffffffff⟩, ⟨second, [0x51], 0xffffffff⟩]
      vout := [⟨5, [0x52, 0x53]⟩]
      metadata := .plain txMetaEmpty
      vfiles := []
      nLockTime := 0 }

theorem accepted_spendsOnce_iff_twoCoins :
    SpendsOnce (doubleSpend [0xc2] ⟨7, 1⟩) := by
  refine (accepted_spendsOnce_iff noZerocoins true
    (doubleSpend [0xc2] ⟨7, 1⟩) ?_ rfl rfl).mpr ?_
  · decide +kernel
  · unfold NothingHidden
    decide +kernel

theorem hidden_outpoint_spent_twice :
    ¬ ∀ (checks : ZerocoinChecks) (fZerocoinActive : Bool)
        (tx : CTransaction),
      checkTransaction checks fZerocoinActive tx = .ok () →
      isCoinBase tx = some false → isZerocoinSpendTx tx = some false →
        SpendsOnce tx := by
  intro claim
  have accepted : checkTransaction noZerocoins true
      (doubleSpend [0xc2] ⟨7, 0⟩) = .ok () := by
    decide +kernel
  have once := claim noZerocoins true (doubleSpend [0xc2] ⟨7, 0⟩) accepted rfl rfl
  have twice : ¬ ((doubleSpend [0xc2] ⟨7, 0⟩).vin.map
      CTxIn.prevout).Nodup := by
    decide
  exact twice once.distinct

end PrivateDatagram.Validation.DuplicateInputs
