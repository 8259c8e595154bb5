import Mathlib.Algebra.BigOperators.Group.Finset.Basic
import Mathlib.Algebra.Order.Ring.Int
import PrivateDatagram.Chainstate.Coins
import PrivateDatagram.Library.Picking
import PrivateDatagram.Validation.CheckTransaction

/-!
# Selecting coins

`SelectCoinsMinConf` looks for outputs of the wallet that pay a target: one
output of exactly the target, all the smaller ones, the smallest larger one, or
the best subset that `ApproximateBestSubset` comes across.

It is complete and sound as long as `nTargetValue + CENT` is an amount.
-/

namespace PrivateDatagram.Wallet.CoinSelection

open Library.Picking Wire.Transaction
open Chainstate.Coins (coin)
open Validation.CheckTransaction
  (maxMoneyOut toInt_maxMoneyOut)

/-- `CENT`. -/
def cent : Int64 := 1000000

/-! ## Outputs of the wallet -/

/-- What coin selection reads of a transaction of the wallet. -/
structure CWalletTx where
  vout : List CTxOut
  /-- `IsFromMe(ISMINE_ALL)`. -/
  isFromMe : Bool
deriving DecidableEq, Repr

section

variable {P : Type} (mapWallet : P → CWalletTx)

/-- A pointer to a transaction of the wallet with the index of an output. -/
structure WalletOutput where
  tx : P
  i : Nat
  inRange : i < (mapWallet tx).vout.length
deriving DecidableEq

structure COutput where
  out : WalletOutput mapWallet
  nDepth : Int32
  fSpendable : Bool

end

section

variable {P : Type} {mapWallet : P → CWalletTx}

/-- `tx->vout[i].nValue`. -/
def WalletOutput.nValue (out : WalletOutput mapWallet) : Int64 :=
  ((mapWallet out.tx).vout.get ⟨out.i, out.inRange⟩).nValue

/-- `pair<CAmount, pair<const CWalletTx*, unsigned int> >`. -/
abbrev Coin (mapWallet : P → CWalletTx) := Int64 × WalletOutput mapWallet

/-- The pair for an output. -/
def COutput.coin (output : COutput mapWallet) : Coin mapWallet :=
  (output.out.nValue, output.out)

/-- The loop over `obfuScationDenominations`, also `IsDenominatedAmount`. -/
def isDenominatedAmount (obfuScationDenominations : List Int64)
    (nInputAmount : Int64) : Bool :=
  obfuScationDenominations.any fun d => nInputAmount = d

/-- `less_then_denom`. -/
def lessThenDenom (obfuScationDenominations : List Int64)
    (out1 out2 : COutput mapWallet) : Bool :=
  !isDenominatedAmount obfuScationDenominations out1.out.nValue &&
    isDenominatedAmount obfuScationDenominations out2.out.nValue

/-- `CompareValueOnly`, for a sort from the end. -/
def compareValueOnly (left right : Coin mapWallet) : Bool :=
  right.1 < left.1

/-! ## The stochastic approximation -/

/-- The variables of one repetition, with the best subset so far. -/
structure Solver where
  nTotal : Int64
  vfIncluded : List Bool
  fReachedTarget : Bool
  vfBest : List Bool
  nBest : Int64
deriving DecidableEq, Repr

/-- The body of the innermost loop: include one more value. -/
def includeValue (nTargetValue value : Int64) (i : Nat) (s : Solver) : Solver :=
  let nTotal := s.nTotal + value
  let vfIncluded := s.vfIncluded.set i true
  if nTotal ≥ nTargetValue then
    { nTotal := nTotal - value
      vfIncluded := vfIncluded.set i false
      fReachedTarget := true
      vfBest := if nTotal < s.nBest then vfIncluded else s.vfBest
      nBest := if nTotal < s.nBest then nTotal else s.nBest }
  else
    { s with nTotal := nTotal, vfIncluded := vfIncluded }

/-- One pass over the values from an index on. -/
def passFrom (nTargetValue : Int64) (chooses : Nat → Solver → Bool) :
    List (Coin mapWallet) → Nat → Solver → Solver
  | [], _, s => s
  | value :: rest, i, s =>
      passFrom nTargetValue chooses rest (i + 1)
        (if chooses i s then includeValue nTargetValue value.1 i s
        else s)

/-- One repetition: a random pass, and one that includes what is left. -/
def repetition (nTargetValue : Int64) (insecureRand : Nat → Bool)
    (vValue : List (Coin mapWallet)) (vfBest : List Bool) (nBest : Int64) :
    Solver :=
  let first := passFrom nTargetValue (fun i _ => insecureRand i) vValue 0
    ⟨0, List.replicate vValue.length false, false, vfBest, nBest⟩
  if first.fReachedTarget then
    first
  else
    passFrom nTargetValue (fun i s => s.vfIncluded[i]? = some false) vValue 0
      first

/-- The repetitions that are left, from one on. -/
def repetitions (nTargetValue : Int64) (insecureRand : Nat → Nat → Bool)
    (vValue : List (Coin mapWallet)) :
    Nat → Nat → List Bool → Int64 → List Bool × Int64
  | 0, _, vfBest, nBest => (vfBest, nBest)
  | left + 1, nRep, vfBest, nBest =>
      if nBest ≠ nTargetValue then
        let s := repetition nTargetValue (insecureRand nRep) vValue vfBest
          nBest
        repetitions nTargetValue insecureRand vValue left (nRep + 1) s.vfBest
          s.nBest
      else
        (vfBest, nBest)

def approximateBestSubset (insecureRand : Nat → Nat → Bool)
    (vValue : List (Coin mapWallet)) (nTotalLower nTargetValue : Int64) :
    List Bool × Int64 :=
  repetitions nTargetValue insecureRand vValue 1000 0
    (List.replicate vValue.length true) nTotalLower

/-! ## The selection -/

/-- What is chosen at random, or left open by a sort. -/
structure Choices (mapWallet : P → CWalletTx)
    (obfuScationDenominations : List Int64) where
  shuffle : List (COutput mapWallet) → List (COutput mapWallet)
  shuffle_perm : ∀ vCoins, (shuffle vCoins).Perm vCoins
  byDenom : SortBy fun out1 out2 : COutput mapWallet =>
    lessThenDenom obfuScationDenominations out1 out2
  byValue : SortBy fun left right : Coin mapWallet =>
    compareValueOnly left right
  /-- The bits of the first and of the second approximation. -/
  firstRand : Nat → Nat → Bool
  secondRand : Nat → Nat → Bool

/-- What is returned, with `setCoinsRet` and `nValueRet`. -/
structure Selection (mapWallet : P → CWalletTx) where
  found : Bool
  setCoinsRet : Finset (WalletOutput mapWallet)
  nValueRet : Int64

def Selection.notFound : Selection mapWallet := ⟨false, ∅, 0⟩

/-- Coins inserted one after the other, and true returned. -/
def Selection.of [DecidableEq P] (coins : List (Coin mapWallet)) :
    Selection mapWallet :=
  coins.foldl
    (fun selection coin => ⟨true, insert coin.2 selection.setCoinsRet,
      selection.nValueRet + coin.1⟩)
    ⟨true, ∅, 0⟩

/-- Whether an output may be spent and is deep enough. -/
def eligible (nConfMine nConfTheirs : Int32) (output : COutput mapWallet) :
    Bool :=
  output.fSpendable &&
    !decide (output.nDepth <
      if (mapWallet output.out.tx).isFromMe then nConfMine else nConfTheirs)

/-- How the loop over the outputs ends. -/
inductive Scan (mapWallet : P → CWalletTx) where
  | exact (coin : Coin mapWallet)
  | sorted (vValue : List (Coin mapWallet)) (nTotalLower : Int64)
      (coinLowestLarger : Option (Coin mapWallet))

/-- `coinLowestLarger.first`. -/
def lowestFirst (coinLowestLarger : Option (Coin mapWallet)) : Int64 :=
  match coinLowestLarger with
  | none => Int64.maxValue
  | some coin => coin.1

/-- The loop over the outputs that are looked at. -/
def scan (nTargetValue : Int64) : List (COutput mapWallet) →
    List (Coin mapWallet) → Int64 → Option (Coin mapWallet) → Scan mapWallet
  | [], vValue, nTotalLower, coinLowestLarger =>
      .sorted vValue nTotalLower coinLowestLarger
  | output :: rest, vValue, nTotalLower, coinLowestLarger =>
      if output.out.nValue = nTargetValue then
        .exact output.coin
      else if output.out.nValue < nTargetValue + cent then
        scan nTargetValue rest (vValue ++ [output.coin])
          (nTotalLower + output.out.nValue) coinLowestLarger
      else if output.out.nValue < lowestFirst coinLowestLarger then
        scan nTargetValue rest vValue nTotalLower (some output.coin)
      else
        scan nTargetValue rest vValue nTotalLower coinLowestLarger

/-- The part behind the loop: solve the subset sum. -/
def solve [DecidableEq P] {obfuScationDenominations : List Int64}
    (choices : Choices mapWallet obfuScationDenominations)
    (nTargetValue : Int64) (vValue : List (Coin mapWallet))
    (nTotalLower : Int64) (coinLowestLarger : Option (Coin mapWallet)) :
    Selection mapWallet :=
  let vValue := choices.byValue.sort vValue
  let first :=
    approximateBestSubset choices.firstRand vValue nTotalLower nTargetValue
  let best :=
    if first.2 ≠ nTargetValue ∧ nTotalLower ≥ nTargetValue + cent then
      approximateBestSubset choices.secondRand vValue nTotalLower
        (nTargetValue + cent)
    else
      first
  match coinLowestLarger with
  | none => .of (pick vValue best.1)
  | some coin =>
      if best.2 ≠ nTargetValue ∧ best.2 < nTargetValue + cent ∨
          coin.1 ≤ best.2 then
        .of [coin]
      else
        .of (pick vValue best.1)

/-- The outputs that one round looks at: no denominated ones in the first. -/
def lookedAt (obfuScationDenominations : List Int64) (first : Bool)
    (outputs : List (COutput mapWallet)) : List (COutput mapWallet) :=
  outputs.filter fun output =>
    !(first && isDenominatedAmount obfuScationDenominations output.out.nValue)

/-- One round of the loop over `tryDenom`, with what `continue` leads to. -/
def tryDenom [DecidableEq P] {obfuScationDenominations : List Int64}
    (choices : Choices mapWallet obfuScationDenominations)
    (nTargetValue : Int64) (first : Bool) (continued : Selection mapWallet)
    (outputs : List (COutput mapWallet)) : Selection mapWallet :=
  let looked := lookedAt obfuScationDenominations first outputs
  match scan nTargetValue looked [] 0 none with
  | .exact coin => .of [coin]
  | .sorted vValue nTotalLower coinLowestLarger =>
      if nTotalLower = nTargetValue then
        .of vValue
      else if nTotalLower < nTargetValue then
        match coinLowestLarger with
        | none => if first then continued else .notFound
        | some coin => .of [coin]
      else
        solve choices nTargetValue vValue nTotalLower coinLowestLarger

def selectCoinsMinConf [DecidableEq P]
    {obfuScationDenominations : List Int64}
    (choices : Choices mapWallet obfuScationDenominations)
    (nTargetValue : Int64) (nConfMine nConfTheirs : Int32)
    (vCoins : List (COutput mapWallet)) : Selection mapWallet :=
  let ordered := choices.byDenom.sort (choices.shuffle vCoins)
  let outputs := ordered.filter (eligible nConfMine nConfTheirs)
  tryDenom choices nTargetValue true
    (tryDenom choices nTargetValue false .notFound outputs) outputs

/-! ## The approximation keeps its best subset -/

/-- The total of a list of coins, without wrapping around. -/
def sumOf (coins : List (Coin mapWallet)) : Int :=
  (coins.map fun coin => coin.1.toInt).sum

/-- No value is negative, and the total is in the range of money. -/
structure InMoney (coins : List (Coin mapWallet)) : Prop where
  nonneg : ∀ coin ∈ coins, 0 ≤ coin.1.toInt
  total : sumOf coins ≤ maxMoneyOut.toInt

theorem sumOf_perm {left right : List (Coin mapWallet)}
    (perm : left.Perm right) : sumOf left = sumOf right :=
  (perm.map _).sum_eq

theorem InMoney.of_perm {left right : List (Coin mapWallet)}
    (money : InMoney right) (perm : left.Perm right) : InMoney left where
  nonneg := fun coin mem => money.nonneg coin (perm.mem_iff.mp mem)
  total := by
    rw [sumOf_perm perm]
    exact money.total

theorem InMoney.sublist {part whole : List (Coin mapWallet)}
    (money : InMoney whole) (sublist : part.Sublist whole) : InMoney part where
  nonneg := fun coin mem => money.nonneg coin (sublist.subset mem)
  total := (sum_sublist_le sublist money.nonneg).trans money.total

theorem InMoney.of_subperm {part whole : List (Coin mapWallet)}
    (money : InMoney whole) (subperm : part.Subperm whole) :
    InMoney part := by
  obtain ⟨sorted, perm, sublist⟩ := subperm
  exact (money.sublist sublist).of_perm perm.symm

theorem InMoney.sum_nonneg {coins : List (Coin mapWallet)}
    (money : InMoney coins) : 0 ≤ sumOf coins :=
  sum_sublist_le (List.nil_sublist coins) money.nonneg

/-- A value within the range of money is represented as it is. -/
theorem toInt_add_of_money {left right : Int64} {sum : Int}
    (added : sum = left.toInt + right.toInt) (low : 0 ≤ sum)
    (high : sum ≤ maxMoneyOut.toInt) : (left + right).toInt = sum := by
  rw [toInt_maxMoneyOut] at high
  rw [Int64.toInt_add, ← added]
  apply Int.bmod_eq_of_le
  · omega
  · omega

/-- A subset with its total, which reaches the target. -/
structure Fits (nTargetValue : Int64) (vValue : List (Coin mapWallet))
    (vfBest : List Bool) (nBest : Int64) : Prop where
  total : sumOf (pick vValue vfBest) = nBest.toInt
  enough : nTargetValue.toInt ≤ nBest.toInt

/-- The two totals of a repetition are right. -/
structure Running (nTargetValue : Int64) (vValue : List (Coin mapWallet))
    (s : Solver) : Prop where
  total : sumOf (pick vValue s.vfIncluded) = s.nTotal.toInt
  best : Fits nTargetValue vValue s.vfBest s.nBest

theorem set_eq_self {flags : List Bool} {i : Nat}
    (unset : flags[i]? = some false) : flags.set i false = flags := by
  obtain ⟨inRange, value⟩ := List.getElem?_eq_some_iff.mp unset
  rw [← value, List.set_getElem_self]

theorem Running.includeValue {nTargetValue : Int64}
    {vValue : List (Coin mapWallet)} {s : Solver} {i : Nat}
    {value : Coin mapWallet} (running : Running nTargetValue vValue s)
    (money : InMoney vValue) (found : vValue[i]? = some value)
    (unset : s.vfIncluded[i]? = some false) :
    Running nTargetValue vValue (includeValue nTargetValue value.1 i s) := by
  have picked : sumOf (pick vValue (s.vfIncluded.set i true)) =
      s.nTotal.toInt + value.1.toInt := by
    rw [← running.total]
    exact sum_pick_set (fun coin => coin.1.toInt) found unset
  have part := money.sublist
    (pick_sublist vValue (s.vfIncluded.set i true))
  have newTotal : (s.nTotal + value.1).toInt =
      sumOf (pick vValue (s.vfIncluded.set i true)) :=
    toInt_add_of_money picked part.sum_nonneg part.total
  unfold CoinSelection.includeValue
  dsimp only
  split_ifs with reached better
  · refine ⟨?_, newTotal.symm, ?_⟩
    · rw [List.set_set, set_eq_self unset, Int64.add_sub_cancel]
      exact running.total
    · exact Int64.le_iff_toInt_le.mp reached
  · refine ⟨?_, running.best⟩
    rw [List.set_set, set_eq_self unset, Int64.add_sub_cancel]
    exact running.total
  · exact ⟨newTotal.symm, running.best⟩

/-- A pass keeps the totals right when it includes only what is not included
yet, as some condition that it keeps up assures. -/
theorem Running.passFrom {nTargetValue : Int64}
    {vValue : List (Coin mapWallet)} (money : InMoney vValue)
    (chooses : Nat → Solver → Bool) (Ready : Nat → Solver → Prop)
    (unset : ∀ i s, i < vValue.length → Ready i s → chooses i s = true →
      s.vfIncluded[i]? = some false)
    (skip : ∀ i s, Ready i s → Ready (i + 1) s)
    (choose : ∀ i value s, Ready i s →
      Ready (i + 1) (CoinSelection.includeValue nTargetValue value i s))
    (before rest : List (Coin mapWallet)) (split : before ++ rest = vValue)
    {s : Solver} (ready : Ready before.length s)
    (running : Running nTargetValue vValue s) :
    Running nTargetValue vValue
      (CoinSelection.passFrom nTargetValue chooses rest before.length s) := by
  induction rest generalizing before s with
  | nil => exact running
  | cons value rest hypothesis =>
      have found : vValue[before.length]? = some value := by
        rw [← split, List.getElem?_append_right le_rfl, Nat.sub_self]
        rfl
      have inRange := (List.getElem?_eq_some_iff.mp found).1
      have next : (before ++ [value]).length = before.length + 1 :=
        List.length_append
      rw [CoinSelection.passFrom, ← next]
      apply hypothesis (before ++ [value])
      · rw [List.append_assoc]
        exact split
      · rw [next]
        split_ifs
        · exact choose _ _ _ ready
        · exact skip _ _ ready
      · split_ifs with chosen
        · exact running.includeValue money found
            (unset _ _ inRange ready chosen)
        · exact running

theorem getElem?_includeValue {nTargetValue value : Int64} {i j : Nat}
    {s : Solver} (other : i ≠ j) :
    (includeValue nTargetValue value i s).vfIncluded[j]? =
      s.vfIncluded[j]? := by
  unfold includeValue
  dsimp only
  split_ifs
  · rw [List.getElem?_set_ne other, List.getElem?_set_ne other]
  · rw [List.getElem?_set_ne other, List.getElem?_set_ne other]
  · exact List.getElem?_set_ne other

theorem repetition_fits {nTargetValue : Int64} {insecureRand : Nat → Bool}
    {vValue : List (Coin mapWallet)} (money : InMoney vValue)
    {vfBest : List Bool} {nBest : Int64}
    (fits : Fits nTargetValue vValue vfBest nBest) :
    Running nTargetValue vValue
      (repetition nTargetValue insecureRand vValue vfBest nBest) := by
  have started : Running nTargetValue vValue
      ⟨0, List.replicate vValue.length false, false, vfBest, nBest⟩ := by
    refine ⟨?_, fits⟩
    rw [pick_replicate_false]
    rfl
  -- The first pass leaves everything behind it unset.
  have first := started.passFrom money (fun i _ => insecureRand i)
    (fun i s => ∀ j, i ≤ j → j < vValue.length →
      s.vfIncluded[j]? = some false)
    (fun i s inRange ready _ => ready i le_rfl inRange)
    (fun i s ready j after => ready j (by omega))
    (fun i value s ready j after inRange => by
      rw [getElem?_includeValue (by omega)]
      exact ready j (by omega) inRange)
    [] vValue rfl
    (fun j _ inRange => List.getElem?_replicate_of_lt inRange)
  unfold repetition
  dsimp only
  split_ifs
  · exact first
  · exact first.passFrom money (fun i s => s.vfIncluded[i]? = some false)
      (fun _ _ => True)
      (fun i s _ _ chosen => of_decide_eq_true chosen)
      (fun _ _ _ => trivial) (fun _ _ _ _ => trivial) [] vValue rfl trivial

theorem repetitions_fits {nTargetValue : Int64}
    {insecureRand : Nat → Nat → Bool} {vValue : List (Coin mapWallet)}
    (money : InMoney vValue) {left nRep : Nat} {vfBest : List Bool}
    {nBest : Int64} (fits : Fits nTargetValue vValue vfBest nBest)
    {best : List Bool × Int64}
    (ran : repetitions nTargetValue insecureRand vValue left nRep vfBest
      nBest = best) :
    Fits nTargetValue vValue best.1 best.2 := by
  induction left generalizing nRep vfBest nBest with
  | zero =>
      rw [← ran]
      exact fits
  | succ left hypothesis =>
      rw [repetitions] at ran
      split_ifs at ran
      · exact hypothesis (repetition_fits money fits).best ran
      · rw [← ran]
        exact fits

theorem approximateBestSubset_fits {insecureRand : Nat → Nat → Bool}
    {vValue : List (Coin mapWallet)} {nTotalLower nTargetValue : Int64}
    (money : InMoney vValue) (total : sumOf vValue = nTotalLower.toInt)
    (enough : nTargetValue.toInt ≤ nTotalLower.toInt)
    {best : List Bool × Int64}
    (ran : approximateBestSubset insecureRand vValue nTotalLower
      nTargetValue = best) :
    Fits nTargetValue vValue best.1 best.2 := by
  refine repetitions_fits money ⟨?_, enough⟩ ran
  rw [pick_replicate_true]
  exact total

/-! ## What a scan finds -/

/-- The coins that are smaller than the target and a cent, and one that is
not, when there is one. -/
structure Scanned (nTargetValue : Int64) (seen vValue : List (Coin mapWallet))
    (nTotalLower : Int64) (coinLowestLarger : Option (Coin mapWallet)) :
    Prop where
  sublist : vValue.Sublist seen
  total : sumOf vValue = nTotalLower.toInt
  below : ∀ coin ∈ vValue, coin.1 < nTargetValue + cent
  larger : ∀ coin, coinLowestLarger = some coin →
    coin ∈ seen ∧ ¬coin.1 < nTargetValue + cent
  complete : coinLowestLarger = none → vValue = seen

inductive Scan.Fits (nTargetValue : Int64) (seen : List (Coin mapWallet)) :
    Scan mapWallet → Prop
  | exact {coin : Coin mapWallet} (mem : coin ∈ seen)
      (equal : coin.1 = nTargetValue) : Fits nTargetValue seen (.exact coin)
  | sorted {vValue : List (Coin mapWallet)} {nTotalLower : Int64}
      {coinLowestLarger : Option (Coin mapWallet)}
      (scanned : Scanned nTargetValue seen vValue nTotalLower
        coinLowestLarger) :
      Fits nTargetValue seen (.sorted vValue nTotalLower coinLowestLarger)

/-- A smaller coin joins the others. -/
theorem Scanned.push {nTargetValue : Int64} {output : COutput mapWallet}
    {seen vValue : List (Coin mapWallet)} {nTotalLower : Int64}
    {coinLowestLarger : Option (Coin mapWallet)}
    (scanned : Scanned nTargetValue seen vValue nTotalLower coinLowestLarger)
    (money : InMoney (seen ++ [output.coin]))
    (small : output.out.nValue < nTargetValue + cent) :
    Scanned nTargetValue (seen ++ [output.coin]) (vValue ++ [output.coin])
      (nTotalLower + output.out.nValue) coinLowestLarger := by
  have sublist : (vValue ++ [output.coin]).Sublist
      (seen ++ [output.coin]) :=
    scanned.sublist.append_right [output.coin]
  have part := money.sublist sublist
  have added : sumOf (vValue ++ [output.coin]) =
      nTotalLower.toInt + output.out.nValue.toInt := by
    rw [← scanned.total]
    simp [sumOf, COutput.coin]
  refine ⟨sublist, ?_, ?_, ?_, ?_⟩
  · exact (toInt_add_of_money added part.sum_nonneg part.total).symm
  · intro coin mem
    obtain mem | mem := List.mem_append.mp mem
    · exact scanned.below coin mem
    · rw [List.mem_singleton.mp mem]
      exact small
  · intro coin larger
    obtain ⟨mem, large⟩ := scanned.larger coin larger
    exact ⟨List.mem_append_left _ mem, large⟩
  · intro none
    rw [scanned.complete none]

/-- A larger coin is the lowest one so far. -/
theorem Scanned.replace {nTargetValue : Int64} {output : COutput mapWallet}
    {seen vValue : List (Coin mapWallet)} {nTotalLower : Int64}
    {coinLowestLarger : Option (Coin mapWallet)}
    (scanned : Scanned nTargetValue seen vValue nTotalLower coinLowestLarger)
    (large : ¬output.out.nValue < nTargetValue + cent) :
    Scanned nTargetValue (seen ++ [output.coin]) vValue nTotalLower
      (some output.coin) := by
  refine ⟨scanned.sublist.trans (List.sublist_append_left _ _),
    scanned.total, scanned.below, ?_, ?_⟩
  · rintro _ ⟨⟩
    exact ⟨List.mem_append_right _ List.mem_cons_self, large⟩
  · rintro ⟨⟩

/-- A larger coin that is not the lowest is passed; there is another, since
every coin is below the largest `CAmount`. -/
theorem Scanned.skip {nTargetValue : Int64} {output : COutput mapWallet}
    {seen vValue : List (Coin mapWallet)} {nTotalLower : Int64}
    {coinLowestLarger : Option (Coin mapWallet)}
    (scanned : Scanned nTargetValue seen vValue nTotalLower coinLowestLarger)
    (money : InMoney (seen ++ [output.coin]))
    (notLowest : ¬output.out.nValue < lowestFirst coinLowestLarger) :
    Scanned nTargetValue (seen ++ [output.coin]) vValue nTotalLower
      coinLowestLarger := by
  refine ⟨scanned.sublist.trans (List.sublist_append_left _ _),
    scanned.total, scanned.below, ?_, ?_⟩
  · intro coin larger
    obtain ⟨mem, large⟩ := scanned.larger coin larger
    exact ⟨List.mem_append_left _ mem, large⟩
  · rintro rfl
    have value := money.sublist (List.sublist_append_right seen [output.coin])
    refine absurd ?_ notLowest
    have small := value.total
    rw [toInt_maxMoneyOut] at small
    rw [lowestFirst, Int64.lt_iff_toInt_lt, Int64.toInt_maxValue]
    simp [sumOf, COutput.coin] at small
    omega

theorem scan_fits {nTargetValue : Int64}
    (outputs : List (COutput mapWallet)) {seen vValue : List (Coin mapWallet)}
    {nTotalLower : Int64} {coinLowestLarger : Option (Coin mapWallet)}
    (money : InMoney (seen ++ outputs.map COutput.coin))
    (scanned : Scanned nTargetValue seen vValue nTotalLower
      coinLowestLarger) :
    (scan nTargetValue outputs vValue nTotalLower coinLowestLarger).Fits
      nTargetValue (seen ++ outputs.map COutput.coin) := by
  induction outputs generalizing seen vValue nTotalLower coinLowestLarger with
  | nil =>
      rw [List.map_nil, List.append_nil]
      exact .sorted scanned
  | cons output rest hypothesis =>
      have shift : seen ++ (output :: rest).map COutput.coin =
          (seen ++ [output.coin]) ++ rest.map COutput.coin := by
        rw [List.map_cons, List.append_assoc, List.singleton_append]
      rw [shift] at money ⊢
      have first : InMoney (seen ++ [output.coin]) :=
        money.sublist (List.sublist_append_left _ _)
      rw [scan]
      by_cases equal : output.out.nValue = nTargetValue
      · rw [if_pos equal]
        have last : output.coin ∈ seen ++ [output.coin] :=
          List.mem_append_right _ List.mem_cons_self
        exact .exact (List.mem_append_left _ last) equal
      rw [if_neg equal]
      by_cases small : output.out.nValue < nTargetValue + cent
      · rw [if_pos small]
        exact hypothesis money (scanned.push first small)
      rw [if_neg small]
      by_cases lowest : output.out.nValue < lowestFirst coinLowestLarger
      · rw [if_pos lowest]
        exact hypothesis money (scanned.replace small)
      · rw [if_neg lowest]
        exact hypothesis money (scanned.skip first lowest)

theorem scan_start {nTargetValue : Int64} {outputs : List (COutput mapWallet)}
    (money : InMoney (outputs.map COutput.coin)) :
    (scan nTargetValue outputs [] 0 none).Fits nTargetValue
      (outputs.map COutput.coin) := by
  have start : Scanned nTargetValue [] [] 0
      (none : Option (Coin mapWallet)) := by
    refine ⟨List.Sublist.refl _, rfl, ?_, ?_, fun _ => rfl⟩
    · intro _ absent
      cases absent
    · rintro _ ⟨⟩
  exact scan_fits outputs money start

/-! ## Sound and complete -/

section

variable {nTargetValue : Int64}
  {nConfMine nConfTheirs : Int32} {vCoins : List (COutput mapWallet)}

/-- The coins of the outputs that may be spent and are deep enough. -/
def candidates (nConfMine nConfTheirs : Int32)
    (vCoins : List (COutput mapWallet)) : List (Coin mapWallet) :=
  (vCoins.filter (eligible nConfMine nConfTheirs)).map COutput.coin

theorem InMoney.candidates (money : InMoney (vCoins.map COutput.coin)) :
    InMoney (candidates nConfMine nConfTheirs vCoins) :=
  money.sublist (List.filter_sublist.map COutput.coin)

/-- True is returned exactly when the candidates reach the target, and the
coins are then outputs that may be spent and sum to what is returned, at least
the target. -/
structure Correct (nTargetValue : Int64) (nConfMine nConfTheirs : Int32)
    (vCoins : List (COutput mapWallet)) (selection : Selection mapWallet) :
    Prop where
  complete : selection.found = true ↔
    nTargetValue.toInt ≤ sumOf (candidates nConfMine nConfTheirs vCoins)
  eligible : selection.found = true → ∀ out ∈ selection.setCoinsRet,
    ∃ output ∈ vCoins, output.out = out ∧
      eligible nConfMine nConfTheirs output = true
  total : selection.found = true →
    ∑ out ∈ selection.setCoinsRet, out.nValue.toInt =
      selection.nValueRet.toInt
  enough : selection.found = true →
    nTargetValue.toInt ≤ selection.nValueRet.toInt

/-- Nothing is selected when the candidates do not reach the target. -/
theorem correct_notFound
    (less : sumOf (candidates nConfMine nConfTheirs vCoins) <
      nTargetValue.toInt) :
    Correct nTargetValue nConfMine nConfTheirs vCoins .notFound := by
  refine ⟨iff_of_false Bool.false_ne_true (not_le.mpr less), ?_, ?_, ?_⟩
  all_goals
    intro impossible
    cases impossible

theorem coins_subperm {outputs : List (COutput mapWallet)}
    (perm : outputs.Perm (vCoins.filter (eligible nConfMine nConfTheirs)))
    (obfuScationDenominations : List Int64) (first : Bool) :
    ((lookedAt obfuScationDenominations first outputs).map
      COutput.coin).Subperm (candidates nConfMine nConfTheirs vCoins) :=
  (List.filter_sublist.map COutput.coin).subperm.trans
    (perm.map COutput.coin).subperm

variable [DecidableEq P]

theorem Selection.of_append (coins : List (Coin mapWallet))
    (coin : Coin mapWallet) :
    Selection.of (coins ++ [coin]) =
      ⟨true, insert coin.2 (Selection.of coins).setCoinsRet,
        (Selection.of coins).nValueRet + coin.1⟩ := by
  rw [Selection.of, List.foldl_append]
  rfl

theorem Selection.found_of (coins : List (Coin mapWallet)) :
    (Selection.of coins).found = true := by
  induction coins using List.reverseRecOn with
  | nil => rfl
  | append_singleton coins coin _ => rw [Selection.of_append]

theorem Selection.setCoinsRet_of (coins : List (Coin mapWallet)) :
    (Selection.of coins).setCoinsRet = (coins.map Prod.snd).toFinset := by
  induction coins using List.reverseRecOn with
  | nil => rfl
  | append_singleton coins coin hypothesis =>
      rw [Selection.of_append, hypothesis, List.map_append,
        List.toFinset_append, Finset.union_comm]
      rfl

theorem Selection.nValueRet_of {coins : List (Coin mapWallet)}
    (money : InMoney coins) :
    (Selection.of coins).nValueRet.toInt = sumOf coins := by
  induction coins using List.reverseRecOn with
  | nil => rfl
  | append_singleton coins coin hypothesis =>
      have part := money.sublist (List.sublist_append_left coins [coin])
      rw [Selection.of_append]
      apply toInt_add_of_money _ money.sum_nonneg money.total
      rw [hypothesis part]
      simp [sumOf]

/-- Some candidates that reach the target are a correct selection. -/
theorem correct_of {coins : List (Coin mapWallet)}
    (distinct : (vCoins.map COutput.out).Nodup)
    (money : InMoney (vCoins.map COutput.coin))
    (subperm : coins.Subperm (candidates nConfMine nConfTheirs vCoins))
    (enough : nTargetValue.toInt ≤ sumOf coins) :
    Correct nTargetValue nConfMine nConfTheirs vCoins (.of coins) := by
  obtain ⟨sorted, perm, sublist⟩ := subperm
  have filtered : (candidates nConfMine nConfTheirs vCoins).Sublist
      (vCoins.map COutput.coin) := List.filter_sublist.map COutput.coin
  have within := money.sublist filtered
  have part := (within.sublist sublist).of_perm perm.symm
  have different : (coins.map Prod.snd).Nodup := by
    rw [← (perm.map Prod.snd).nodup_iff]
    refine ((sublist.trans filtered).map Prod.snd).nodup ?_
    rw [List.map_map]
    exact distinct
  have known : ∀ coin ∈ coins, ∃ output ∈ vCoins,
      eligible nConfMine nConfTheirs output = true ∧ output.coin = coin := by
    intro coin mem
    obtain ⟨output, kept, rfl⟩ :=
      List.mem_map.mp (sublist.subset (perm.mem_iff.mpr mem))
    rw [List.mem_filter] at kept
    exact ⟨output, kept.1, kept.2, rfl⟩
  constructor
  · refine iff_of_true (Selection.found_of coins) (enough.trans ?_)
    rw [← sumOf_perm perm]
    exact sum_sublist_le sublist within.nonneg
  · intro _ out mem
    rw [Selection.setCoinsRet_of, List.mem_toFinset] at mem
    obtain ⟨coin, coinMem, rfl⟩ := List.mem_map.mp mem
    obtain ⟨output, outputMem, fits, rfl⟩ := known coin coinMem
    exact ⟨output, outputMem, rfl, fits⟩
  · intro _
    rw [Selection.setCoinsRet_of, List.sum_toFinset _ different,
      Selection.nValueRet_of part, List.map_map, sumOf]
    congr 1
    apply List.map_congr_left
    intro coin mem
    obtain ⟨output, _, _, rfl⟩ := known coin mem
    rfl
  · intro _
    rw [Selection.nValueRet_of part]
    exact enough

/-- `nTargetValue + CENT` does not overflow. -/
def InRange (nTargetValue : Int64) : Prop :=
  nTargetValue.toInt + cent.toInt ≤ Int64.maxValue.toInt

instance (nTargetValue : Int64) : Decidable (InRange nTargetValue) :=
  inferInstanceAs (Decidable (_ ≤ _))

theorem toInt_cent : cent.toInt = 1000000 := by
  decide

theorem InRange.toInt_add (inRange : InRange nTargetValue) :
    (nTargetValue + cent).toInt = nTargetValue.toInt + 1000000 := by
  have low := nTargetValue.le_toInt
  rw [InRange, toInt_cent, Int64.toInt_maxValue] at inRange
  rw [Int64.toInt_add, toInt_cent]
  apply Int.bmod_eq_of_le
  · omega
  · omega

theorem toInt_add_of_not_inRange (wraps : ¬InRange nTargetValue) :
    (nTargetValue + cent).toInt < 0 := by
  have high := nTargetValue.toInt_lt
  rw [InRange, toInt_cent, Int64.toInt_maxValue] at wraps
  rw [Int64.toInt_add, toInt_cent, Int.bmod_def]
  omega

section

variable {obfuScationDenominations : List Int64}
  {choices : Choices mapWallet obfuScationDenominations}

/-- The larger coin alone. -/
theorem correct_of_larger (distinct : (vCoins.map COutput.out).Nodup)
    (money : InMoney (vCoins.map COutput.coin))
    (inRange : InRange nTargetValue) {seen vValue : List (Coin mapWallet)}
    (looked : seen.Subperm (candidates nConfMine nConfTheirs vCoins))
    {nTotalLower : Int64} {coin : Coin mapWallet}
    (scanned : Scanned nTargetValue seen vValue nTotalLower (some coin)) :
    Correct nTargetValue nConfMine nConfTheirs vCoins (.of [coin]) := by
  obtain ⟨mem, large⟩ := scanned.larger coin rfl
  rw [Int64.lt_iff_toInt_lt, inRange.toInt_add] at large
  apply correct_of distinct money
  · exact (List.singleton_sublist.mpr mem).subperm.trans looked
  · rw [sumOf, List.map_singleton, List.sum_singleton]
    omega

/-- The subset that is settled on, in either approximation. -/
theorem solve_correct (distinct : (vCoins.map COutput.out).Nodup)
    (money : InMoney (vCoins.map COutput.coin))
    (inRange : InRange nTargetValue) {seen vValue : List (Coin mapWallet)}
    (looked : seen.Subperm (candidates nConfMine nConfTheirs vCoins))
    {nTotalLower : Int64} {coinLowestLarger : Option (Coin mapWallet)}
    (scanned : Scanned nTargetValue seen vValue nTotalLower coinLowestLarger)
    (enough : nTargetValue.toInt ≤ nTotalLower.toInt) :
    Correct nTargetValue nConfMine nConfTheirs vCoins
      (solve choices nTargetValue vValue nTotalLower coinLowestLarger) := by
  have sortedPerm := choices.byValue.perm vValue
  have lower := scanned.sublist.subperm.trans looked
  have sortedMoney :=
    (money.candidates.of_subperm lower).of_perm sortedPerm
  have total : sumOf (choices.byValue.sort vValue) = nTotalLower.toInt :=
    (sumOf_perm sortedPerm).trans scanned.total
  unfold solve
  extract_lets sorted first best
  have fits : Fits nTargetValue sorted best.1 best.2 := by
    by_cases again : first.2 ≠ nTargetValue ∧
        nTotalLower ≥ nTargetValue + cent
    · have second : Fits (nTargetValue + cent) sorted best.1 best.2 :=
        approximateBestSubset_fits sortedMoney total
          (Int64.le_iff_toInt_le.mp again.2) (if_pos again).symm
      refine ⟨second.total, ?_⟩
      have more := second.enough
      rw [inRange.toInt_add] at more
      omega
    · have onlyFirst : best = first := if_neg again
      rw [onlyFirst]
      exact approximateBestSubset_fits sortedMoney total enough rfl
  have subset : Correct nTargetValue nConfMine nConfTheirs vCoins
      (.of (pick sorted best.1)) := by
    apply correct_of distinct money
    · exact ((pick_sublist sorted best.1).subperm.trans
        sortedPerm.subperm).trans lower
    · rw [fits.total]
      exact fits.enough
  cases coinLowestLarger with
  | none => exact subset
  | some coin =>
      dsimp only
      split_ifs
      · exact correct_of_larger distinct money inRange looked scanned
      · exact subset

/-- One round is correct when what it may continue with is. -/
theorem tryDenom_correct (distinct : (vCoins.map COutput.out).Nodup)
    (money : InMoney (vCoins.map COutput.coin))
    (inRange : InRange nTargetValue) {outputs : List (COutput mapWallet)}
    (perm : outputs.Perm (vCoins.filter (eligible nConfMine nConfTheirs)))
    {first : Bool} {continued : Selection mapWallet}
    (next : first = true →
      Correct nTargetValue nConfMine nConfTheirs vCoins continued) :
    Correct nTargetValue nConfMine nConfTheirs vCoins
      (tryDenom choices nTargetValue first continued outputs) := by
  have looked : ((lookedAt obfuScationDenominations first outputs).map
      COutput.coin).Subperm (candidates nConfMine nConfTheirs vCoins) :=
    coins_subperm perm obfuScationDenominations first
  have found : (scan nTargetValue
      (lookedAt obfuScationDenominations first outputs) [] 0 none).Fits
      nTargetValue _ := scan_start (money.candidates.of_subperm looked)
  unfold tryDenom
  dsimp only
  generalize scan nTargetValue
    (lookedAt obfuScationDenominations first outputs) [] 0 none = outcome
    at found
  cases found with
  | exact mem equal =>
      apply correct_of distinct money
      · exact (List.singleton_sublist.mpr mem).subperm.trans looked
      · rw [sumOf, List.map_singleton, List.sum_singleton, equal]
  | @sorted vValue nTotalLower coinLowestLarger scanned =>
      dsimp only
      by_cases equal : nTotalLower = nTargetValue
      · rw [if_pos equal]
        apply correct_of distinct money
        · exact scanned.sublist.subperm.trans looked
        · rw [scanned.total, equal]
      rw [if_neg equal]
      by_cases less : nTotalLower < nTargetValue
      · rw [if_pos less]
        cases coinLowestLarger with
        | some coin =>
            exact correct_of_larger distinct money inRange looked scanned
        | none =>
            cases first with
            | true => exact next rfl
            | false =>
                -- Everything was looked at, and it is not enough.
                have all := scanned.complete rfl
                rw [lookedAt, List.filter_eq_self.mpr (by simp)] at all
                rw [Int64.lt_iff_toInt_lt, ← scanned.total, all,
                  sumOf_perm (perm.map COutput.coin)] at less
                exact correct_notFound less
      · rw [if_neg less]
        rw [Int64.lt_iff_toInt_lt, not_lt] at less
        exact solve_correct distinct money inRange looked scanned less

/-- Without an overflow the selection is correct. -/
theorem selectCoinsMinConf_correct (distinct : (vCoins.map COutput.out).Nodup)
    (money : InMoney (vCoins.map COutput.coin))
    (inRange : InRange nTargetValue) :
    Correct nTargetValue nConfMine nConfTheirs vCoins
      (selectCoinsMinConf choices nTargetValue nConfMine nConfTheirs
        vCoins) := by
  have perm := ((choices.byDenom.perm _).trans
    (choices.shuffle_perm vCoins)).filter (eligible nConfMine nConfTheirs)
  apply tryDenom_correct distinct money inRange perm
  intro _
  apply tryDenom_correct distinct money inRange perm
  rintro ⟨⟩

/-! ## When the target and a cent overflow -/

theorem toInt_pos_of_not_inRange (wraps : ¬InRange nTargetValue) :
    maxMoneyOut.toInt < nTargetValue.toInt := by
  rw [InRange, toInt_cent, Int64.toInt_maxValue] at wraps
  rw [toInt_maxMoneyOut]
  omega

/-- Every output then counts as larger than the target. -/
theorem tryDenom_of_wraps
    (choices : Choices mapWallet obfuScationDenominations)
    (wraps : ¬InRange nTargetValue)
    {outputs : List (COutput mapWallet)} {first : Bool}
    (money : InMoney ((lookedAt obfuScationDenominations first outputs).map
      COutput.coin)) (continued : Selection mapWallet) :
    (tryDenom choices nTargetValue first continued outputs).found = true ∨
      lookedAt obfuScationDenominations first outputs = [] ∧
        tryDenom choices nTargetValue first continued outputs =
          if first then continued else .notFound := by
  have found : (scan nTargetValue
      (lookedAt obfuScationDenominations first outputs) [] 0 none).Fits
      nTargetValue _ := scan_start money
  unfold tryDenom
  dsimp only
  generalize scan nTargetValue
    (lookedAt obfuScationDenominations first outputs) [] 0 none = outcome
    at found
  cases found with
  | exact mem equal => exact Or.inl (Selection.found_of _)
  | @sorted vValue nTotalLower coinLowestLarger scanned =>
      have none : vValue = [] := by
        rw [List.eq_nil_iff_forall_not_mem]
        intro coin mem
        have low := money.nonneg coin (scanned.sublist.subset mem)
        have below := scanned.below coin mem
        have wrapped := toInt_add_of_not_inRange wraps
        rw [Int64.lt_iff_toInt_lt] at below
        omega
      have zero : nTotalLower.toInt = 0 := by
        rw [← scanned.total, none]
        rfl
      have large := toInt_pos_of_not_inRange wraps
      rw [toInt_maxMoneyOut] at large
      have less : nTotalLower < nTargetValue := by
        rw [Int64.lt_iff_toInt_lt]
        omega
      have different : nTotalLower ≠ nTargetValue := by
        rintro rfl
        omega
      dsimp only
      rw [if_neg different, if_pos less]
      cases coinLowestLarger with
      | some coin => exact Or.inl (Selection.found_of _)
      | none =>
          right
          have all := scanned.complete rfl
          rw [none, eq_comm, List.map_eq_nil_iff] at all
          exact ⟨all, rfl⟩

/-- Then true is returned as soon as one output may be spent. -/
theorem found_of_wraps (money : InMoney (vCoins.map COutput.coin))
    (wraps : ¬InRange nTargetValue) {output : COutput mapWallet}
    (mem : output ∈ vCoins)
    (fits : eligible nConfMine nConfTheirs output = true) :
    (selectCoinsMinConf choices nTargetValue nConfMine nConfTheirs
      vCoins).found = true := by
  have perm := ((choices.byDenom.perm _).trans
    (choices.shuffle_perm vCoins)).filter (eligible nConfMine nConfTheirs)
  have looked : ∀ first, InMoney ((lookedAt obfuScationDenominations first
      _).map COutput.coin) := fun first =>
    money.candidates.of_subperm (coins_subperm perm obfuScationDenominations first)
  obtain found | ⟨-, ran⟩ := tryDenom_of_wraps choices wraps
    (looked true) _
  · exact found
  · rw [selectCoinsMinConf, ran, if_pos rfl]
    obtain found | ⟨empty, -⟩ := tryDenom_of_wraps choices wraps
      (looked false) .notFound
    · exact found
    · rw [lookedAt, List.filter_eq_self.mpr (by simp)] at empty
      rw [empty, List.nil_perm] at perm
      have kept := List.mem_filter.mpr ⟨mem, fits⟩
      rw [perm] at kept
      cases kept

theorem tryDenom_nil (positive : 0 < nTargetValue) (first : Bool)
    (continued : Selection mapWallet) :
    tryDenom choices nTargetValue first continued [] =
      if first then continued else .notFound := by
  rw [Int64.lt_iff_toInt_lt] at positive
  have different : (0 : Int64) ≠ nTargetValue := by
    rintro rfl
    exact lt_irrefl _ positive
  unfold tryDenom
  simp only [lookedAt, List.filter_nil, scan]
  rw [if_neg different, if_pos (Int64.lt_iff_toInt_lt.mpr positive)]

/-- For every shuffle, sort and random bit: coin selection is correct exactly
when the target and a cent do not overflow, or nothing may be spent. -/
theorem selectCoinsMinConf_correct_iff
    (choices : Choices mapWallet obfuScationDenominations)
    (positive : 0 < nTargetValue) (distinct : (vCoins.map COutput.out).Nodup)
    (money : InMoney (vCoins.map COutput.coin)) :
    Correct nTargetValue nConfMine nConfTheirs vCoins
        (selectCoinsMinConf choices nTargetValue nConfMine nConfTheirs
          vCoins) ↔
      InRange nTargetValue ∨
        ∀ output ∈ vCoins, eligible nConfMine nConfTheirs output = false := by
  constructor
  · intro correct
    by_contra neither
    rw [not_or, not_forall] at neither
    obtain ⟨wraps, output, neither⟩ := neither
    rw [Classical.not_imp, Bool.not_eq_false] at neither
    have reached := correct.complete.mp
      (found_of_wraps money wraps neither.1 neither.2)
    have large := toInt_pos_of_not_inRange wraps
    have small : sumOf (candidates nConfMine nConfTheirs vCoins) ≤
        maxMoneyOut.toInt := money.candidates.total
    omega
  · rintro (inRange | none)
    · exact selectCoinsMinConf_correct distinct money inRange
    · have perm := ((choices.byDenom.perm _).trans
        (choices.shuffle_perm vCoins)).filter (eligible nConfMine nConfTheirs)
      have empty : vCoins.filter (eligible nConfMine nConfTheirs) = [] := by
        rw [List.filter_eq_nil_iff]
        intro output mem
        rw [none output mem]
        exact Bool.false_ne_true
      rw [empty, List.perm_nil] at perm
      rw [selectCoinsMinConf, perm, tryDenom_nil positive, if_pos rfl,
        tryDenom_nil positive, if_neg Bool.false_ne_true]
      rw [Int64.lt_iff_toInt_lt] at positive
      apply correct_notFound
      rw [candidates, empty]
      exact positive

end

end

end

/-! ## A wallet with one coin -/

/-- Nothing is shuffled, and sorts are stable. -/
def Choices.inOrder {P : Type} (mapWallet : P → CWalletTx)
    (obfuScationDenominations : List Int64)
    (firstRand secondRand : Nat → Nat → Bool) :
    Choices mapWallet obfuScationDenominations where
  shuffle := id
  shuffle_perm := fun _ => List.Perm.refl _
  byDenom := .merge _
    (by
      intro left middle right
      simp only [notAfter, lessThenDenom]
      cases isDenominatedAmount obfuScationDenominations left.out.nValue <;>
        cases isDenominatedAmount obfuScationDenominations
          right.out.nValue <;> simp)
    (by
      intro left right
      simp only [notAfter, lessThenDenom]
      cases isDenominatedAmount obfuScationDenominations left.out.nValue <;>
        simp)
  byValue := .merge _
    (by
      intro left middle right
      simp only [notAfter, compareValueOnly, Bool.not_eq_true',
        decide_eq_false_iff_not, Int64.lt_iff_toInt_lt, not_lt]
      omega)
    (by
      intro left right
      simp only [notAfter, compareValueOnly, Bool.or_eq_true,
        Bool.not_eq_true', decide_eq_false_iff_not, Int64.lt_iff_toInt_lt,
        not_lt]
      omega)
  firstRand := firstRand
  secondRand := secondRand

/-- One transaction that pays two, three and four coins. -/
def threeCoinsWallet (_ : Unit) : CWalletTx :=
  ⟨[⟨2 * coin, []⟩, ⟨3 * coin, []⟩, ⟨4 * coin, []⟩], false⟩

def threeCoins : List (COutput threeCoinsWallet) :=
  [⟨⟨(), 0, by decide⟩, 10, true⟩, ⟨⟨(), 1, by decide⟩, 10, true⟩,
    ⟨⟨(), 2, by decide⟩, 10, true⟩]

/-- The target lies between the coins and their sum, so that subsets are
tried. -/
theorem selectCoinsMinConf_correct_iff_threeCoins :
    Correct (5 * coin) 1 6 threeCoins
      (selectCoinsMinConf (.inOrder threeCoinsWallet [] (fun _ _ => true)
        fun _ _ => false) (5 * coin) 1 6 threeCoins) := by
  have money : InMoney (threeCoins.map COutput.coin) :=
    ⟨by decide, by decide⟩
  exact (selectCoinsMinConf_correct_iff _ (by decide) (by decide)
    money).mpr (.inl (by decide))

/-- One transaction that pays one coin. -/
def oneCoinWallet (_ : Unit) : CWalletTx :=
  ⟨[⟨coin, []⟩], false⟩

def oneCoin : COutput oneCoinWallet :=
  ⟨⟨(), 0, by decide⟩, 10, true⟩

theorem inMoney_oneCoin : InMoney ([oneCoin].map COutput.coin) := by
  refine ⟨?_, by decide⟩
  rintro _ (_ | ⟨_, ⟨⟩⟩)
  decide

/-- Nothing is left to chance. -/
def fixedChoices : Choices oneCoinWallet [] :=
  .inOrder oneCoinWallet [] (fun _ _ => true) fun _ _ => false

/-- With the largest target there is, one coin is taken to reach it. -/
theorem selectCoinsMinConf_overflow :
    0 < Int64.maxValue ∧ ([oneCoin].map COutput.out).Nodup ∧
      InMoney ([oneCoin].map COutput.coin) ∧
      (selectCoinsMinConf fixedChoices Int64.maxValue 1 6
        [oneCoin]).found = true ∧
      ¬Correct Int64.maxValue 1 6 [oneCoin]
        (selectCoinsMinConf fixedChoices Int64.maxValue 1 6 [oneCoin]) := by
  have found : (selectCoinsMinConf fixedChoices Int64.maxValue 1 6
      [oneCoin]).found = true :=
    found_of_wraps inMoney_oneCoin (by decide) (List.mem_singleton_self oneCoin)
      (by decide)
  refine ⟨by decide, by decide, inMoney_oneCoin, found, fun correct => ?_⟩
  have reached := correct.complete.mp found
  revert reached
  decide

end PrivateDatagram.Wallet.CoinSelection
