import Mathlib.Algebra.Order.BigOperators.Group.List
import PrivateDatagram.Chainstate.Coins

/-!
# CheckTransaction

The checks of a transaction that need no context, with the verdict that goes
into `CValidationState`.  The zerocoin library enters through two functions
that say whether a mint and a spend are valid.

`Acceptable` says the same without an order: a transaction is accepted
exactly when it is acceptable.
-/

namespace PrivateDatagram.Validation.CheckTransaction

open Library.ByteFormat Wire.Serialize Wire.Transaction Wire.Script
  Chainstate.Coins

/-! ## Constants -/

/-- `Params().MaxMoneyOut()`, 128 million coins. -/
def maxMoneyOut : Int64 := 12800000000000000

/-- `MAX_ZEROCOIN_TX_SIZE`. -/
def maxZerocoinTxSize : Nat := 150000

/-- `Params().Zerocoin_MaxSpendsPerTransaction()`. -/
def maxZerocoinSpendsPerTransaction : Nat := 7

/-- `REJECT_INVALID`. -/
def rejectInvalid : UInt8 := 0x10

/-! ## The checks -/

inductive Failure where
  /-- What all calls of `state.DoS` add to `nDoS`, with the reject code and the
  reason of the last one. -/
  | dos (level : Nat) (chRejectCode : UInt8) (strRejectReason : String)
  /-- An element of an empty vector was read. -/
  | outOfRange
deriving DecidableEq, Repr

/-- What the zerocoin library and the state of the chain contribute. -/
structure ZerocoinChecks where
  checkZerocoinMint : UInt256 → CTxOut → Bool
  checkZerocoinSpend : CTransaction → Bool → Bool
  fVerifySignature : Bool
  /-- What the checks add to `nDoS` when they refuse. -/
  mintScore : UInt256 → CTxOut → Nat
  spendScore : CTransaction → Bool → Nat

def moneyRange (nValueOut : Int64) : Bool :=
  0 ≤ nValueOut && nValueOut ≤ maxMoneyOut

/-- The value of a predicate that may read out of range. -/
def evaluate (value : Option Bool) : Except Failure Bool :=
  match value with
  | none => .error .outOfRange
  | some verdict => .ok verdict

/-- `!tx.IsCoinBase() && !tx.IsCoinStake()`. -/
def isUserTransaction (tx : CTransaction) : Option Bool :=
  (isCoinBase tx).map fun fCoinBase => !fCoinBase && !isCoinStake tx

/-- An empty output that its transaction may not have. -/
def isRefusedEmpty (tx : CTransaction) (txout : CTxOut) :
    Except Failure Bool :=
  if isEmpty txout then evaluate (isUserTransaction tx) else .ok false

/-- `fZerocoinActive && tx.IsZerocoinSpend()`. -/
def isActiveSpend (fZerocoinActive : Bool) (tx : CTransaction) :
    Except Failure Bool :=
  if fZerocoinActive then evaluate (isZerocoinSpendTx tx) else .ok false

/-- The loop over the outputs, which counts the zerocoin spends. -/
def checkOutputs (checks : ZerocoinChecks) (fZerocoinActive : Bool)
    (tx : CTransaction) : List CTxOut → Int64 → Nat → Except Failure Nat
  | [], _, nZCSpendCount => .ok nZCSpendCount
  | txout :: rest, nValueOut, nZCSpendCount => do
      let refused ← isRefusedEmpty tx txout
      if refused then
        .error (.dos 100 0 "")
      else if txout.nValue < 0 then
        .error (.dos 100 rejectInvalid "bad-txns-vout-negative")
      else if txout.nValue > maxMoneyOut then
        .error (.dos 100 rejectInvalid "bad-txns-vout-toolarge")
      else if !moneyRange (nValueOut + txout.nValue) then
        .error (.dos 100 rejectInvalid "bad-txns-txouttotal-toolarge")
      else if fZerocoinActive && isZerocoinMint txout.scriptPubKey &&
          !checks.checkZerocoinMint tx.getHash txout then
        .error (.dos (checks.mintScore tx.getHash txout + 100) 0 "")
      else
        checkOutputs checks fZerocoinActive tx rest (nValueOut + txout.nValue)
          (if fZerocoinActive && isZerocoinSpend txout.scriptPubKey then
            nZCSpendCount + 1
          else
            nZCSpendCount)

/-- The checks behind `if (fZerocoinActive)`. -/
def checkZerocoins (checks : ZerocoinChecks) (fZerocoinActive : Bool)
    (tx : CTransaction) (nZCSpendCount : Nat) : Except Failure Unit :=
  if !fZerocoinActive then
    .ok ()
  else if nZCSpendCount > maxZerocoinSpendsPerTransaction then
    .error (.dos 100 0 "")
  else do
    let isSpend ← evaluate (isZerocoinSpendTx tx)
    if isSpend then
      if !tx.vin.all fun txin => isZerocoinSpend txin.scriptSig then
        .error (.dos 100 0 "")
      else if !checks.checkZerocoinSpend tx checks.fVerifySignature then
        .error (.dos (checks.spendScore tx checks.fVerifySignature + 100) 0 "")
      else
        .ok ()
    else
      .ok ()

/-- The loop over the inputs, with the outpoints inserted so far. -/
def checkDuplicateInputs : List CTxIn → List COutPoint → Except Failure Unit
  | [], _ => .ok ()
  | txin :: rest, vInOutPoints =>
      if txin.prevout ∈ vInOutPoints then
        .error (.dos 100 rejectInvalid "bad-txns-inputs-duplicate")
      else
        checkDuplicateInputs rest
          (if isZerocoinSpend txin.scriptSig then vInOutPoints
          else txin.prevout :: vInOutPoints)

/-- The last checks, on the form of the inputs. -/
def checkInputForm (fZerocoinActive : Bool) (tx : CTransaction) :
    Except Failure Unit := do
  let fCoinBase ← evaluate (isCoinBase tx)
  if fCoinBase then
    if tx.vin.any fun txin =>
        txin.scriptSig.length < 2 || txin.scriptSig.length > 150 then
      .error (.dos 100 rejectInvalid "bad-cb-length")
    else
      .ok ()
  else do
    let isSpend ← isActiveSpend fZerocoinActive tx
    if isSpend then
      if tx.vin.length < 1 ||
          tx.vin.length > maxZerocoinSpendsPerTransaction then
        .error (.dos 10 rejectInvalid "bad-zerocoinspend")
      else
        .ok ()
    else if tx.vin.any fun txin =>
        txin.prevout.isNull &&
          (fZerocoinActive && !isZerocoinSpend txin.scriptSig) then
      .error (.dos 10 rejectInvalid "bad-txns-prevout-null")
    else
      .ok ()

def checkTransaction (checks : ZerocoinChecks) (fZerocoinActive : Bool)
    (tx : CTransaction) : Except Failure Unit :=
  if tx.vin.isEmpty then
    .error (.dos 10 rejectInvalid "bad-txns-vin-empty")
  else if tx.vout.isEmpty then
    .error (.dos 10 rejectInvalid "bad-txns-vout-empty")
  else if tx.serialize.length > maxZerocoinTxSize then
    .error (.dos 100 rejectInvalid "bad-txns-oversize")
  else do
    let nZCSpendCount ← checkOutputs checks fZerocoinActive tx tx.vout 0 0
    checkZerocoins checks fZerocoinActive tx nZCSpendCount
    checkDuplicateInputs tx.vin []
    checkInputForm fZerocoinActive tx

/-! ## What is accepted -/

structure Acceptable (checks : ZerocoinChecks) (fZerocoinActive : Bool)
    (tx : CTransaction) : Prop where
  vin : tx.vin ≠ []
  vout : tx.vout ≠ []
  size : tx.serialize.length ≤ maxZerocoinTxSize
  /-- Only a coinbase or a coinstake has an empty output. -/
  filled : ∀ txout ∈ tx.vout, isEmpty txout = true →
    isUserTransaction tx = some false
  positive : ∀ txout ∈ tx.vout, 0 ≤ txout.nValue.toInt
  total : (tx.vout.map fun txout => txout.nValue.toInt).sum ≤
    maxMoneyOut.toInt
  mints : fZerocoinActive = true → ∀ txout ∈ tx.vout,
    isZerocoinMint txout.scriptPubKey = true →
      checks.checkZerocoinMint tx.getHash txout = true
  spendOutputs : fZerocoinActive = true →
    (tx.vout.countP fun txout => isZerocoinSpend txout.scriptPubKey) ≤
      maxZerocoinSpendsPerTransaction
  /-- A zerocoin spend has only zerocoin inputs, few enough, and is valid. -/
  spends : fZerocoinActive = true → isZerocoinSpendTx tx = some false ∨
    isZerocoinSpendTx tx = some true ∧
      (∀ txin ∈ tx.vin, isZerocoinSpend txin.scriptSig = true) ∧
      checks.checkZerocoinSpend tx checks.fVerifySignature = true ∧
      tx.vin.length ≤ maxZerocoinSpendsPerTransaction
  /-- Of two inputs with the same outpoint the first looks like a zerocoin. -/
  duplicates : tx.vin.Pairwise fun left right =>
    isZerocoinSpend left.scriptSig = true ∨ left.prevout ≠ right.prevout
  coinBase : isCoinBase tx = some false ∨ isCoinBase tx = some true ∧
    ∀ txin ∈ tx.vin, 2 ≤ txin.scriptSig.length ∧ txin.scriptSig.length ≤ 150
  prevouts : fZerocoinActive = true → isCoinBase tx = some false →
    isZerocoinSpendTx tx = some false →
    ∀ txin ∈ tx.vin, txin.prevout.isNull = true →
      isZerocoinSpend txin.scriptSig = true

theorem bind_eq_ok {α β : Type} {first : Except Failure α}
    {next : α → Except Failure β} {result : β} :
    (first >>= next) = .ok result ↔
      ∃ value, first = .ok value ∧ next value = .ok result := by
  cases first with
  | error failure =>
      constructor
      · intro impossible
        cases impossible
      · rintro ⟨_, impossible, _⟩
        cases impossible
  | ok value =>
      constructor
      · intro ran
        exact ⟨value, rfl, ran⟩
      · rintro ⟨_, ⟨⟩, ran⟩
        exact ran

@[simp]
theorem evaluate_eq_ok {value : Option Bool} {verdict : Bool} :
    evaluate value = .ok verdict ↔ value = some verdict := by
  cases value with
  | none => simp [evaluate]
  | some verdict' => simp [evaluate]

theorem toInt_maxMoneyOut : maxMoneyOut.toInt = 12800000000000000 := by
  decide

/-- Two amounts in range add up without wrapping around. -/
theorem toInt_add_of_moneyRange {left right : Int64}
    (leftLow : 0 ≤ left.toInt) (leftHigh : left.toInt ≤ maxMoneyOut.toInt)
    (rightLow : 0 ≤ right.toInt)
    (rightHigh : right.toInt ≤ maxMoneyOut.toInt) :
    (left + right).toInt = left.toInt + right.toInt := by
  rw [toInt_maxMoneyOut] at leftHigh rightHigh
  rw [Int64.toInt_add]
  apply Int.bmod_eq_of_le
  · omega
  · omega

theorem moneyRange_iff (nValueOut : Int64) :
    moneyRange nValueOut = true ↔
      0 ≤ nValueOut.toInt ∧ nValueOut.toInt ≤ maxMoneyOut.toInt := by
  simp [moneyRange, Int64.le_iff_toInt_le]

/-- What the loop over the outputs asks of one of them. -/
def OutputFine (checks : ZerocoinChecks) (fZerocoinActive : Bool)
    (tx : CTransaction) (txout : CTxOut) : Prop :=
  (isEmpty txout = true → isUserTransaction tx = some false) ∧
    0 ≤ txout.nValue.toInt ∧
    (fZerocoinActive = true → isZerocoinMint txout.scriptPubKey = true →
      checks.checkZerocoinMint tx.getHash txout = true)

/-- Whether the loop counts an output as a zerocoin spend. -/
def countsAsSpend (fZerocoinActive : Bool) (txout : CTxOut) : Bool :=
  fZerocoinActive && isZerocoinSpend txout.scriptPubKey

/-- One round of the loop. -/
theorem checkOutputs_cons (checks : ZerocoinChecks) (fZerocoinActive : Bool)
    (tx : CTransaction) (txout : CTxOut) (rest : List CTxOut)
    (nValueOut : Int64) (nZCSpendCount result : Nat) :
    checkOutputs checks fZerocoinActive tx (txout :: rest) nValueOut
        nZCSpendCount = .ok result ↔
      OutputFine checks fZerocoinActive tx txout ∧
        txout.nValue.toInt ≤ maxMoneyOut.toInt ∧
        moneyRange (nValueOut + txout.nValue) = true ∧
        checkOutputs checks fZerocoinActive tx rest
          (nValueOut + txout.nValue)
          (nZCSpendCount +
            if countsAsSpend fZerocoinActive txout then 1 else 0) =
            .ok result := by
  have count :
      (if fZerocoinActive && isZerocoinSpend txout.scriptPubKey then
        nZCSpendCount + 1 else nZCSpendCount) =
      nZCSpendCount +
        if countsAsSpend fZerocoinActive txout then 1 else 0 := by
    unfold countsAsSpend
    split_ifs <;> rfl
  have zero : (0 : Int64).toInt = 0 := rfl
  rw [checkOutputs, bind_eq_ok, count]
  generalize nZCSpendCount +
    (if countsAsSpend fZerocoinActive txout then 1 else 0) = newCount
  constructor
  · rintro ⟨refused, asked, ran⟩
    split_ifs at ran with isRefused negative large wraps mint
    refine ⟨⟨?_, ?_, ?_⟩, ?_, by simpa using wraps, ran⟩
    · intro empty
      rw [isRefusedEmpty, if_pos empty, evaluate_eq_ok] at asked
      rw [asked]
      simpa using isRefused
    · rw [Int64.lt_iff_toInt_lt, zero] at negative
      omega
    · intro active isMint
      rw [active, isMint] at mint
      simpa using mint
    · rw [gt_iff_lt, Int64.lt_iff_toInt_lt] at large
      omega
  · rintro ⟨⟨filled, positive, mints⟩, small, inRange, ran⟩
    refine ⟨false, ?_, ?_⟩
    · unfold isRefusedEmpty
      split_ifs with empty
      · exact evaluate_eq_ok.mpr (filled empty)
      · rfl
    · rw [if_neg (by simp), if_neg, if_neg, if_neg (by simp [inRange]),
        if_neg]
      · exact ran
      · simp only [Bool.and_eq_true, Bool.not_eq_true']
        rintro ⟨⟨active, isMint⟩, invalid⟩
        rw [mints active isMint] at invalid
        cases invalid
      · rw [gt_iff_lt, Int64.lt_iff_toInt_lt]
        omega
      · rw [Int64.lt_iff_toInt_lt, zero]
        omega

theorem checkOutputs_ok_iff (checks : ZerocoinChecks)
    (fZerocoinActive : Bool) (tx : CTransaction) (outputs : List CTxOut)
    (nValueOut : Int64) (nZCSpendCount result : Nat)
    (low : 0 ≤ nValueOut.toInt)
    (high : nValueOut.toInt ≤ maxMoneyOut.toInt) :
    checkOutputs checks fZerocoinActive tx outputs nValueOut
        nZCSpendCount = .ok result ↔
      (∀ txout ∈ outputs, OutputFine checks fZerocoinActive tx txout) ∧
        nValueOut.toInt + (outputs.map fun txout => txout.nValue.toInt).sum ≤
          maxMoneyOut.toInt ∧
        result = nZCSpendCount +
          outputs.countP (countsAsSpend fZerocoinActive) := by
  induction outputs generalizing nValueOut nZCSpendCount with
  | nil =>
      simp only [checkOutputs, Except.ok.injEq, List.not_mem_nil,
        List.map_nil, List.sum_nil, List.countP_nil]
      constructor
      · rintro rfl
        exact ⟨by simp, by omega, rfl⟩
      · rintro ⟨_, _, same⟩
        omega
  | cons txout rest ih =>
      rw [checkOutputs_cons, List.forall_mem_cons, List.map_cons,
        List.sum_cons, List.countP_cons]
      have nonneg : (∀ other ∈ rest,
          OutputFine checks fZerocoinActive tx other) →
            0 ≤ (rest.map fun txout => txout.nValue.toInt).sum := by
        intro fine
        apply List.sum_nonneg
        intro value member
        rcases List.mem_map.mp member with ⟨other, inRest, rfl⟩
        exact (fine other inRest).2.1
      constructor
      · rintro ⟨fine, small, inRange, ran⟩
        have sum := toInt_add_of_moneyRange low high fine.2.1 small
        rcases (moneyRange_iff _).mp inRange with ⟨sumLow, sumHigh⟩
        rcases (ih _ _ sumLow sumHigh).mp ran with ⟨others, total, count⟩
        rw [sum] at total
        exact ⟨⟨fine, others⟩, by omega, by omega⟩
      · rintro ⟨⟨fine, others⟩, total, count⟩
        have rest_nonneg := nonneg others
        have positive := fine.2.1
        have small : txout.nValue.toInt ≤ maxMoneyOut.toInt := by omega
        have sum := toInt_add_of_moneyRange low high positive small
        have sumLow : 0 ≤ (nValueOut + txout.nValue).toInt := by omega
        have sumHigh : (nValueOut + txout.nValue).toInt ≤
            maxMoneyOut.toInt := by omega
        refine ⟨fine, small, (moneyRange_iff _).mpr ⟨sumLow, sumHigh⟩, ?_⟩
        refine (ih _ _ sumLow sumHigh).mpr ⟨others, ?_, ?_⟩
        · rw [sum]
          omega
        · omega

theorem checkDuplicateInputs_ok_iff (vin : List CTxIn)
    (vInOutPoints : List COutPoint) :
    checkDuplicateInputs vin vInOutPoints = .ok () ↔
      (∀ txin ∈ vin, txin.prevout ∉ vInOutPoints) ∧
        vin.Pairwise fun left right =>
          isZerocoinSpend left.scriptSig = true ∨
            left.prevout ≠ right.prevout := by
  induction vin generalizing vInOutPoints with
  | nil => simp [checkDuplicateInputs]
  | cons txin rest ih =>
      rw [checkDuplicateInputs, List.forall_mem_cons, List.pairwise_cons]
      by_cases seen : txin.prevout ∈ vInOutPoints
      · rw [if_pos seen]
        constructor
        · intro impossible
          cases impossible
        · rintro ⟨⟨unseen, _⟩, _⟩
          exact absurd seen unseen
      · rw [if_neg seen, ih]
        cases zerocoin : isZerocoinSpend txin.scriptSig with
        | true =>
            simp [seen]
        | false =>
            simp only [Bool.false_eq_true, if_false, List.mem_cons, not_or,
              false_or]
            constructor
            · rintro ⟨others, distinct⟩
              refine ⟨⟨seen, fun other inRest => (others other inRest).2⟩,
                fun other inRest => ?_, distinct⟩
              exact Ne.symm (others other inRest).1
            · rintro ⟨⟨_, others⟩, apart, distinct⟩
              refine ⟨fun other inRest => ⟨?_, others other inRest⟩, distinct⟩
              exact Ne.symm (apart other inRest)

theorem isCoinBase_of_spend {tx : CTransaction}
    (isSpend : isZerocoinSpendTx tx = some true) :
    isCoinBase tx = some false := by
  have zerocoins : containsZerocoins tx = some true := by
    rw [containsZerocoins, isSpend]
    rfl
  unfold isCoinBase
  split
  · split_ifs
    · rw [zerocoins]
      rfl
    · rfl
  · rfl

theorem checkZerocoins_ok_iff (checks : ZerocoinChecks)
    (fZerocoinActive : Bool) (tx : CTransaction) (nZCSpendCount : Nat) :
    checkZerocoins checks fZerocoinActive tx nZCSpendCount = .ok () ↔
      (fZerocoinActive = true →
        nZCSpendCount ≤ maxZerocoinSpendsPerTransaction ∧
          (isZerocoinSpendTx tx = some false ∨
            isZerocoinSpendTx tx = some true ∧
              (∀ txin ∈ tx.vin, isZerocoinSpend txin.scriptSig = true) ∧
              checks.checkZerocoinSpend tx checks.fVerifySignature =
                true)) := by
  unfold checkZerocoins
  cases fZerocoinActive with
  | false => simp
  | true =>
      rw [if_neg (by simp)]
      by_cases many : nZCSpendCount > maxZerocoinSpendsPerTransaction
      · rw [if_pos many]
        simp [many]
      · rw [if_neg many, bind_eq_ok]
        simp only [evaluate_eq_ok, Nat.not_lt.mp many, true_and, true_imp_iff]
        constructor
        · rintro ⟨isSpend, found, ran⟩
          cases isSpend with
          | false => exact .inl found
          | true =>
              rw [if_pos rfl] at ran
              split_ifs at ran with foreign invalid
              exact .inr ⟨found, by simpa using foreign,
                by simpa using invalid⟩
        · rintro (found | ⟨found, own, valid⟩)
          · exact ⟨false, found, rfl⟩
          · refine ⟨true, found, ?_⟩
            rw [if_pos rfl, if_neg (by simpa using own),
              if_neg (by simp [valid])]

theorem coinBaseScripts_fine_iff {vin : List CTxIn} :
    ¬ (vin.any fun txin => txin.scriptSig.length < 2 ||
        txin.scriptSig.length > 150) = true ↔
      ∀ txin ∈ vin,
        2 ≤ txin.scriptSig.length ∧ txin.scriptSig.length ≤ 150 := by
  simp only [List.any_eq_true, Bool.or_eq_true, decide_eq_true_eq, not_exists,
    not_and, not_or, Nat.not_lt, gt_iff_lt]

theorem checkInputForm_coinBase {fZerocoinActive : Bool} {tx : CTransaction}
    (found : isCoinBase tx = some true) :
    checkInputForm fZerocoinActive tx = .ok () ↔ ∀ txin ∈ tx.vin,
      2 ≤ txin.scriptSig.length ∧ txin.scriptSig.length ≤ 150 := by
  rw [checkInputForm, found, ← coinBaseScripts_fine_iff]
  change (if _ then _ else _) = Except.ok () ↔ _
  split_ifs with bad
  · refine iff_of_false ?_ (not_not_intro bad)
    intro impossible
    cases impossible
  · exact iff_of_true rfl bad

/-- What is asked of the inputs when there is no coinbase. -/
def InputsFine (fZerocoinActive : Bool) (tx : CTransaction) : Prop :=
  fZerocoinActive = true →
    isZerocoinSpendTx tx = some true ∧
        tx.vin.length ≤ maxZerocoinSpendsPerTransaction ∨
      isZerocoinSpendTx tx = some false ∧
        ∀ txin ∈ tx.vin, txin.prevout.isNull = true →
          isZerocoinSpend txin.scriptSig = true

theorem checkInputForm_other {fZerocoinActive : Bool} {tx : CTransaction}
    (vin : tx.vin ≠ []) (found : isCoinBase tx = some false) :
    checkInputForm fZerocoinActive tx = .ok () ↔
      InputsFine fZerocoinActive tx := by
  have positive := List.length_pos_iff.mpr vin
  rw [checkInputForm, found]
  change (isActiveSpend fZerocoinActive tx >>= _) = Except.ok () ↔ _
  rw [bind_eq_ok]
  cases fZerocoinActive with
  | false => simp [isActiveSpend, InputsFine]
  | true =>
      simp only [isActiveSpend, if_true, evaluate_eq_ok, InputsFine,
        true_imp_iff]
      constructor
      · rintro ⟨isSpend, asked, ran⟩
        cases isSpend with
        | true =>
            rw [if_pos rfl] at ran
            split_ifs at ran with bad
            simp only [Bool.or_eq_true, decide_eq_true_eq, not_or,
              Nat.not_lt] at bad
            exact .inl ⟨asked, bad.2⟩
        | false =>
            rw [if_neg (by simp)] at ran
            split_ifs at ran with bad
            exact .inr ⟨asked, by simpa using bad⟩
      · rintro (⟨asked, few⟩ | ⟨asked, nulls⟩)
        · refine ⟨true, asked, ?_⟩
          rw [if_pos rfl, if_neg]
          simp only [Bool.or_eq_true, decide_eq_true_eq, not_or, Nat.not_lt]
          exact ⟨positive, few⟩
        · refine ⟨false, asked, ?_⟩
          rw [if_neg (by simp), if_neg]
          simpa using nulls

/-- What is asked of the form of the inputs. -/
def FormFine (fZerocoinActive : Bool) (tx : CTransaction) : Prop :=
  (isCoinBase tx = some true ∧ ∀ txin ∈ tx.vin,
      2 ≤ txin.scriptSig.length ∧ txin.scriptSig.length ≤ 150) ∨
    isCoinBase tx = some false ∧ InputsFine fZerocoinActive tx

theorem checkInputForm_ok_iff (fZerocoinActive : Bool) (tx : CTransaction)
    (vin : tx.vin ≠ []) :
    checkInputForm fZerocoinActive tx = .ok () ↔
      FormFine fZerocoinActive tx := by
  rw [FormFine]
  cases found : isCoinBase tx with
  | none =>
      rw [checkInputForm, found]
      simp [evaluate, bind_eq_ok]
  | some fCoinBase =>
      cases fCoinBase with
      | true =>
          rw [checkInputForm_coinBase found]
          simp
      | false =>
          rw [checkInputForm_other vin found]
          simp

/-- The checks one after another. -/
theorem checkTransaction_passes_iff (checks : ZerocoinChecks)
    (fZerocoinActive : Bool) (tx : CTransaction) :
    checkTransaction checks fZerocoinActive tx = .ok () ↔
      tx.vin ≠ [] ∧ tx.vout ≠ [] ∧
        tx.serialize.length ≤ maxZerocoinTxSize ∧
        ∃ nZCSpendCount,
          checkOutputs checks fZerocoinActive tx tx.vout 0 0 =
              .ok nZCSpendCount ∧
            checkZerocoins checks fZerocoinActive tx nZCSpendCount = .ok () ∧
            checkDuplicateInputs tx.vin [] = .ok () ∧
            checkInputForm fZerocoinActive tx = .ok () := by
  rw [checkTransaction]
  constructor
  · intro ran
    split_ifs at ran with noInputs noOutputs large
    simp only [bind_eq_ok] at ran
    rcases ran with ⟨nZCSpendCount, outputs, _, second, _, third, last⟩
    exact ⟨by simpa using noInputs, by simpa using noOutputs,
      Nat.not_lt.mp large, nZCSpendCount, outputs, second, third, last⟩
  · rintro ⟨vin, vout, size, nZCSpendCount, outputs, second, third, last⟩
    rw [if_neg (by simpa using vin), if_neg (by simpa using vout),
      if_neg (Nat.not_lt.mpr size)]
    simp only [bind_eq_ok]
    exact ⟨nZCSpendCount, outputs, (), second, (), third, last⟩

/-- The loop over the outputs from its start. -/
theorem checkOutputs_start_iff (checks : ZerocoinChecks)
    (fZerocoinActive : Bool) (tx : CTransaction) (result : Nat) :
    checkOutputs checks fZerocoinActive tx tx.vout 0 0 = .ok result ↔
      (∀ txout ∈ tx.vout, OutputFine checks fZerocoinActive tx txout) ∧
        (tx.vout.map fun txout => txout.nValue.toInt).sum ≤
          maxMoneyOut.toInt ∧
        result = tx.vout.countP (countsAsSpend fZerocoinActive) := by
  have start : (0 : Int64).toInt = 0 := rfl
  have room : (0 : Int64).toInt ≤ maxMoneyOut.toInt := by decide
  rw [checkOutputs_ok_iff checks fZerocoinActive tx _ _ _ _
    (Int.le_of_eq start.symm) room, start, Int.zero_add, Nat.zero_add]

/-- A zerocoin spend is no coinbase, so its inputs are counted. -/
theorem FormFine.length_le {tx : CTransaction} (form : FormFine true tx)
    (isSpend : isZerocoinSpendTx tx = some true) :
    tx.vin.length ≤ maxZerocoinSpendsPerTransaction := by
  have notCoinBase := isCoinBase_of_spend isSpend
  rcases form with ⟨isCoinBase, _⟩ | ⟨_, inputs⟩
  · rw [notCoinBase] at isCoinBase
    cases isCoinBase
  · rcases inputs rfl with ⟨_, few⟩ | ⟨notSpend, _⟩
    · exact few
    · rw [isSpend] at notSpend
      cases notSpend

/-- The inputs of any other transaction are not null. -/
theorem FormFine.prevouts {tx : CTransaction} (form : FormFine true tx)
    (notCoinBase : isCoinBase tx = some false)
    (notSpend : isZerocoinSpendTx tx = some false) :
    ∀ txin ∈ tx.vin, txin.prevout.isNull = true →
      isZerocoinSpend txin.scriptSig = true := by
  rcases form with ⟨isCoinBase, _⟩ | ⟨_, inputs⟩
  · rw [notCoinBase] at isCoinBase
    cases isCoinBase
  · rcases inputs rfl with ⟨isSpend, _⟩ | ⟨_, nulls⟩
    · rw [notSpend] at isSpend
      cases isSpend
    · exact nulls

theorem Acceptable.inputsFine {checks : ZerocoinChecks}
    {fZerocoinActive : Bool} {tx : CTransaction}
    (acceptable : Acceptable checks fZerocoinActive tx)
    (notCoinBase : isCoinBase tx = some false) :
    InputsFine fZerocoinActive tx := by
  intro active
  rcases acceptable.spends active with ordinary | ⟨isSpend, _, _, few⟩
  · exact .inr ⟨ordinary, acceptable.prevouts active notCoinBase ordinary⟩
  · exact .inl ⟨isSpend, few⟩

theorem checkTransaction_ok_iff (checks : ZerocoinChecks)
    (fZerocoinActive : Bool) (tx : CTransaction) :
    checkTransaction checks fZerocoinActive tx = .ok () ↔
      Acceptable checks fZerocoinActive tx := by
  rw [checkTransaction_passes_iff]
  constructor
  · rintro ⟨vin, vout, size, nZCSpendCount, outputs, second, third, last⟩
    have zerocoins := (checkZerocoins_ok_iff _ _ _ _).mp second
    have form := (checkInputForm_ok_iff _ _ vin).mp last
    rcases (checkOutputs_start_iff _ _ _ _).mp outputs with
      ⟨fine, total, count⟩
    refine
      { vin := vin
        vout := vout
        size := size
        filled := fun txout member => (fine txout member).1
        positive := fun txout member => (fine txout member).2.1
        total := total
        mints := fun active txout member => (fine txout member).2.2 active
        spendOutputs := ?_
        spends := ?_
        duplicates := ((checkDuplicateInputs_ok_iff _ _).mp third).2
        coinBase := ?_
        prevouts := ?_ }
    · rintro rfl
      have few := (zerocoins rfl).1
      rw [count] at few
      exact few
    · rintro rfl
      rcases (zerocoins rfl).2 with ordinary | ⟨isSpend, own, valid⟩
      · exact .inl ordinary
      · exact .inr ⟨isSpend, own, valid, form.length_le isSpend⟩
    · rcases form with coinBase | ⟨notCoinBase, _⟩
      · exact .inr coinBase
      · exact .inl notCoinBase
    · rintro rfl notCoinBase notSpend
      exact form.prevouts notCoinBase notSpend
  · intro acceptable
    refine ⟨acceptable.vin, acceptable.vout, acceptable.size, _,
      (checkOutputs_start_iff _ _ _ _).mpr ⟨?_, acceptable.total, rfl⟩,
      (checkZerocoins_ok_iff _ _ _ _).mpr ?_,
      (checkDuplicateInputs_ok_iff _ _).mpr
        ⟨by simp, acceptable.duplicates⟩,
      (checkInputForm_ok_iff _ _ acceptable.vin).mpr ?_⟩
    · intro txout member
      exact ⟨acceptable.filled txout member,
        acceptable.positive txout member,
        fun active => acceptable.mints active txout member⟩
    · rintro rfl
      refine ⟨acceptable.spendOutputs rfl, ?_⟩
      rcases acceptable.spends rfl with ordinary | ⟨isSpend, own, valid, _⟩
      · exact .inl ordinary
      · exact .inr ⟨isSpend, own, valid⟩
    · rcases acceptable.coinBase with notCoinBase | coinBase
      · exact .inr ⟨notCoinBase, acceptable.inputsFine notCoinBase⟩
      · exact .inl coinBase

/-- For transactions about which the zerocoin library is not asked. -/
def noZerocoins : ZerocoinChecks where
  checkZerocoinMint _ _ := false
  checkZerocoinSpend _ _ := false
  fVerifySignature := true
  mintScore _ _ := 0
  spendScore _ _ := 0

end PrivateDatagram.Validation.CheckTransaction
