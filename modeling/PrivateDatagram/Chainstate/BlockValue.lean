import Mathlib.Algebra.BigOperators.Intervals
import Mathlib.Algebra.Order.BigOperators.Group.Finset
import Mathlib.Tactic.NormNum
import Mathlib.Tactic.Ring
import PrivateDatagram.Consensus.ChainParams
import PrivateDatagram.Validation.CheckTransaction

/-!
# Block rewards and the money range

`GetBlockValue` pays a block by its height alone, from a list of height
ranges.  The rewards are summed range by range: within a range the total is
linear in the height, and each border is the start of the next range.

The last range ends 62 blocks too late.  The total of all rewards is 62 coins
above `nMaxMoneyOut`, and the sum leaves the money range in block 30133910.
-/

namespace PrivateDatagram.Chainstate.BlockValue

open Coins Consensus.ChainParams Validation.CheckTransaction

/-- The rewards of the blocks up to a height on the main network. -/
def minted (height : Nat) : Int :=
  ∑ nHeight ∈ Finset.range (height + 1), (getBlockValue .main nHeight).toInt

/-- The same sum in a `CAmount`, block after block. -/
def nSum : Nat → Int64
  | 0 => getBlockValue .main 0
  | nHeight + 1 => nSum nHeight + getBlockValue .main (nHeight + 1 : Nat)

/-! ## The reward of one block -/

/-- The amounts that a block of the main network can be paid. -/
def amounts : List Int64 :=
  [3840000 * coin, 25 * coin, 12 * coin, 6 * coin, 5 * coin,
    threeCoinsAndThreeQuarters, 3 * coin, 2 * coin, coin, 0]

theorem getBlockValue_mem_amounts (nHeight : Int) :
    getBlockValue .main nHeight ∈ amounts := by
  simp only [amounts, List.mem_cons]
  rcases Int.lt_or_le 350000 nHeight with late | early
  · grind [getBlockValue]
  · grind [getBlockValue]

theorem getBlockValue_nonneg (nHeight : Int) :
    0 ≤ (getBlockValue .main nHeight).toInt := by
  have every : amounts.all (fun amount => 0 ≤ amount.toInt) = true := by
    rfl
  exact of_decide_eq_true
    (List.all_eq_true.mp every _ (getBlockValue_mem_amounts nHeight))

theorem minted_succ (height : Nat) :
    minted (height + 1) =
      minted height + (getBlockValue .main (height + 1 : Nat)).toInt :=
  Finset.sum_range_succ _ _

theorem minted_mono {low high : Nat} (order : low ≤ high) :
    minted low ≤ minted high := by
  apply Finset.sum_le_sum_of_subset_of_nonneg
  · exact Finset.range_mono (Nat.succ_le_succ order)
  · intro nHeight _ _
    exact getBlockValue_nonneg nHeight

/-! ## Ranges of equal rewards -/

/-- Within a range of equal rewards the total is linear in the height. -/
theorem minted_range (before last : Nat) (value : Int64)
    (equal : ∀ nHeight : Int, before < nHeight → nHeight ≤ last →
      getBlockValue .main nHeight = value)
    {height : Nat} (low : before ≤ height) (high : height ≤ last) :
    minted height = minted before + (height - before) * value.toInt := by
  induction height, low using Nat.le_induction with
  | base => simp
  | succ height low hypothesis =>
      have reward : getBlockValue .main (height + 1 : Nat) = value := by
        apply equal <;> omega
      rw [minted_succ, hypothesis (by omega), reward]
      push_cast
      ring

theorem minted_350000 : minted 350000 = 5316091 * coin.toInt := by
  have genesis : minted 0 = 3840000 * coin.toInt := rfl
  have upTo159 := minted_range 0 159 0
    (by grind [getBlockValue]) (by decide) le_rfl
  have upTo20000 := minted_range 159 20000 coin
    (by grind [getBlockValue]) (by decide) le_rfl
  have upTo175000 := minted_range 20000 175000 threeCoinsAndThreeQuarters
    (by grind [getBlockValue]) (by decide) le_rfl
  have upTo350000 := minted_range 175000 350000 (5 * coin)
    (by grind [getBlockValue]) (by decide) le_rfl
  rw [upTo350000, upTo175000, upTo20000, upTo159, genesis]
  decide

theorem minted_20000000 : minted 20000000 = 117866091 * coin.toInt := by
  have upTo2100000 := minted_range 350000 2100000 (25 * coin)
    (by grind [getBlockValue]) (by decide) le_rfl
  have upTo4000000 := minted_range 2100000 4000000 (12 * coin)
    (by grind [getBlockValue]) (by decide) le_rfl
  have upTo6000000 := minted_range 4000000 6000000 (6 * coin)
    (by grind [getBlockValue]) (by decide) le_rfl
  have upTo12000000 := minted_range 6000000 12000000 (3 * coin)
    (by grind [getBlockValue]) (by decide) le_rfl
  have upTo20000000 := minted_range 12000000 20000000 (2 * coin)
    (by grind [getBlockValue]) (by decide) le_rfl
  rw [upTo20000000, upTo12000000, upTo6000000, upTo4000000, upTo2100000,
    minted_350000]
  decide

/-- The total in the last range that pays. -/
theorem minted_lastRange {height : Nat} (low : 20000000 ≤ height)
    (high : height ≤ 30133971) :
    minted height = (97866091 + height) * coin.toInt := by
  rw [minted_range 20000000 30133971 coin (by grind [getBlockValue]) low high,
    minted_20000000]
  push_cast
  ring

/-- No block after the last range is paid. -/
theorem minted_afterSchedule {height : Nat} (late : 30133971 ≤ height) :
    minted height = 128000062 * coin.toInt := by
  have last : minted 30133971 = 128000062 * coin.toInt :=
    minted_lastRange (by decide) le_rfl
  rw [minted_range 30133971 height 0 (by grind [getBlockValue]) late le_rfl,
    last]
  simp

/-! ## The money range -/

theorem minted_nonneg (height : Nat) : 0 ≤ minted height :=
  Finset.sum_nonneg fun _ _ => getBlockValue_nonneg _

theorem minted_le (height : Nat) : minted height ≤ 128000062 * coin.toInt := by
  rcases Nat.le_total 30133971 height with late | early
  · exact (minted_afterSchedule late).le
  · exact (minted_mono early).trans (minted_afterSchedule le_rfl).le

/-- No sum of rewards overflows. -/
theorem toInt_nSum (height : Nat) : (nSum height).toInt = minted height := by
  induction height with
  | zero => simp [nSum, minted]
  | succ height hypothesis =>
      have low := minted_nonneg (height + 1)
      have high := minted_le (height + 1)
      have coinValue : coin.toInt = 100000000 := rfl
      have bound : (2 : Int) ^ 63 = 9223372036854775808 := by norm_num
      rw [minted_succ] at low high ⊢
      rw [nSum, Int64.toInt_add, hypothesis]
      rw [Int.bmod_eq_of_le] <;> omega

/--
The rewards up to a height are within `nMaxMoneyOut`, and their sum passes
`MoneyRange`, exactly up to height 30133909.
-/
theorem emission_within_moneyRange_iff (height : Nat) :
    (minted height ≤ maxMoneyOut.toInt ∧ moneyRange (nSum height) = true) ↔
      height ≤ 30133909 := by
  have range : moneyRange (nSum height) = true ↔
      minted height ≤ maxMoneyOut.toInt := by
    rw [moneyRange_iff, toInt_nSum]
    exact and_iff_right (minted_nonneg height)
  have limit : minted 30133909 = maxMoneyOut.toInt :=
    minted_lastRange (by decide) (by decide)
  have next : maxMoneyOut.toInt < minted 30133910 := by
    rw [minted_lastRange (by decide) (by decide)]
    decide
  rw [range, and_self]
  constructor
  · intro within
    by_contra beyond
    have later : 30133910 ≤ height := by omega
    exact absurd (next.trans_le (minted_mono later)) (not_lt.mpr within)
  · intro early
    exact (minted_mono early).trans limit.le

/-- With block 30133910 the rewards exceed `nMaxMoneyOut`. -/
theorem emission_exceeds_moneyRange :
    ¬ ∀ height : Nat,
      minted height ≤ maxMoneyOut.toInt ∧
        moneyRange (nSum height) = true := by
  intro always
  have total := (always 30133910).1
  rw [minted_lastRange (by decide) (by decide)] at total
  exact absurd total (by decide)

end PrivateDatagram.Chainstate.BlockValue
