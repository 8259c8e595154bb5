import Mathlib.Tactic.Linarith
import Mathlib.Tactic.Ring
import PrivateDatagram.Governance.BudgetProposals

/-!
# Payments of a proposal

The last block of a new proposal is `n` stretched cycles, of one block more,
behind the first.  As `n + 1` blocks are less than a cycle, both the comparison
in `GetBudget` and the divisions that count payments round the stretch away,
unless the last block is beyond what an `int` can hold.
-/

namespace PrivateDatagram.Governance.BudgetProposals

open Wire.Serialize Wire.Transaction

/-! ## Stretched cycles -/

/-- As many cycles fit into `count` stretched ones as if they were plain. -/
theorem stretched_covers_iff {cycle count : Int} (few : count + 1 < cycle)
    (nonneg : 0 ≤ count) (index : Int) :
    (index + 1) * cycle ≤ (cycle + 1) * count + 1 ↔ index < count := by
  constructor
  · intro covers
    by_contra beyond
    rw [not_lt] at beyond
    have : (count + 1) * cycle ≤ (index + 1) * cycle :=
      Int.mul_le_mul_of_nonneg_right (by omega) (by omega)
    linarith
  · intro inside
    have : (index + 1) * cycle ≤ count * cycle :=
      Int.mul_le_mul_of_nonneg_right (by omega) (by omega)
    linarith

theorem stretched_tdiv {cycle count left : Int} (few : count < cycle)
    (nonneg : 0 ≤ count) (positive : 0 ≤ left) :
    (left * cycle + count).tdiv cycle = left := by
  rw [Int.tdiv_eq_ediv_of_nonneg
    (Int.add_nonneg (Int.mul_nonneg positive (by omega)) nonneg)]
  rw [Int.add_comm, Int.add_mul_ediv_right _ _ (by omega),
    Int.ediv_eq_zero_of_lt nonneg few, Int.zero_add]

/-! ## The promise -/

/-- The height of the next superblock, if there were no largest `int`. -/
def superblock (cycle nHeight : Int32) : Int :=
  nHeight.toInt - nHeight.toInt % cycle.toInt + cycle.toInt

/-- A proposal is paid in `count` superblocks, from its start on. -/
structure PaidTimes (cycle count : Int32) (proposal : CBudgetProposal) :
    Prop where
  /-- About each cycle whose blocks all have an `int` for their height. -/
  inPeriod : ∀ nHeight : Int32, 0 ≤ nHeight.toInt →
    superblock cycle nHeight + cycle.toInt ≤ 2 ^ 31 →
      (proposal.inPeriod (nextPeriod cycle nHeight) = true ↔
        ∃ k : Nat, k < count.toInt ∧ superblock cycle nHeight =
          proposal.nBlockStart.toInt + k * cycle.toInt)
  total : proposal.getTotalPaymentCount cycle = count
  remaining : ∀ (k : Nat) (nHeight : Int32), k < count.toInt →
    proposal.nBlockStart.toInt + k * cycle.toInt - cycle.toInt ≤
        nHeight.toInt →
      nHeight.toInt < proposal.nBlockStart.toInt + k * cycle.toInt →
        (proposal.getRemainingPaymentCount cycle (some nHeight)).toInt =
          count.toInt - k

/-! ## Arithmetic of `int` -/

theorem toInt_bounds (n : Int32) : -2 ^ 31 ≤ n.toInt ∧ n.toInt < 2 ^ 31 :=
  ⟨n.le_toInt, n.toInt_lt⟩

theorem toInt_add_exact {a b : Int32} (low : -2 ^ 31 ≤ a.toInt + b.toInt)
    (high : a.toInt + b.toInt < 2 ^ 31) :
    (a + b).toInt = a.toInt + b.toInt := by
  rw [Int32.toInt_add]
  exact Int.bmod_eq_of_le (by omega) (by omega)

theorem toInt_sub_exact {a b : Int32} (low : -2 ^ 31 ≤ a.toInt - b.toInt)
    (high : a.toInt - b.toInt < 2 ^ 31) :
    (a - b).toInt = a.toInt - b.toInt := by
  rw [Int32.toInt_sub]
  exact Int.bmod_eq_of_le (by omega) (by omega)

theorem toInt_div_exact {a b : Int32} (positive : 0 < b.toInt) :
    (a / b).toInt = a.toInt.tdiv b.toInt := by
  apply Int32.toInt_div_of_ne_right
  rintro rfl
  exact absurd positive (by decide)

/-- The start of a cycle. -/
theorem toInt_cycleStart {cycle nHeight : Int32} (positive : 0 < cycle.toInt)
    (nonneg : 0 ≤ nHeight.toInt) :
    (nHeight - nHeight % cycle).toInt =
      nHeight.toInt - nHeight.toInt % cycle.toInt := by
  have rest : (nHeight % cycle).toInt = nHeight.toInt % cycle.toInt := by
    rw [Int32.toInt_mod, Int.tmod_eq_emod_of_nonneg nonneg]
  have high := toInt_bounds nHeight
  have bound := toInt_bounds cycle
  have low := Int.emod_nonneg nHeight.toInt positive.ne'
  have small := Int.emod_lt_of_pos nHeight.toInt positive
  rw [toInt_sub_exact (by omega) (by omega), rest]

theorem cycleStart_of_dvd {cycle nBlockStart : Int32}
    (aligned : cycle.toInt ∣ nBlockStart.toInt) :
    nBlockStart - nBlockStart % cycle = nBlockStart := by
  have none : nBlockStart % cycle = 0 := by
    apply Int32.toInt_inj.mp
    rw [Int32.toInt_mod, Int.tmod_eq_zero_of_dvd aligned]
    rfl
  rw [none, Int32.sub_zero]

/-! ## New proposals -/

/-- The terms of a proposal: it begins with a superblock. -/
structure Terms (cycle nPaymentCount nBlockStart : Int32) : Prop where
  once : 1 ≤ nPaymentCount.toInt
  few : nPaymentCount.toInt + 1 < cycle.toInt
  later : 0 < nBlockStart.toInt
  aligned : cycle.toInt ∣ nBlockStart.toInt

/-- The last block is as many stretched cycles behind the first. -/
def Ends (cycle nPaymentCount : Int32) (proposal : CBudgetProposal) : Prop :=
  proposal.nBlockEnd = proposal.nBlockStart + (cycle + 1) * nPaymentCount

/-- The last block, if there were no largest `int`. -/
def lastBlock (cycle nPaymentCount nBlockStart : Int32) : Int :=
  nBlockStart.toInt + (cycle.toInt + 1) * nPaymentCount.toInt

theorem broadcast_ends {cycle nBlockStart : Int32} (strProposalName : String)
    (nPaymentCount : Int32) (address : CScript) (nAmount : Int64)
    (nFeeTXHash : UInt256) (nAlloted : Int64)
    (aligned : cycle.toInt ∣ nBlockStart.toInt) :
    Ends cycle nPaymentCount (.broadcast cycle strProposalName nPaymentCount
      address nAmount nBlockStart nFeeTXHash nAlloted) := by
  change nBlockStart - nBlockStart % cycle + (cycle + 1) * nPaymentCount =
    nBlockStart + (cycle + 1) * nPaymentCount
  rw [cycleStart_of_dvd aligned]

section NewProposal

variable {cycle nPaymentCount : Int32} {proposal : CBudgetProposal}

theorem getTotalPaymentCount_eq
    (terms : Terms cycle nPaymentCount proposal.nBlockStart)
    (ends : Ends cycle nPaymentCount proposal) :
    proposal.getTotalPaymentCount cycle =
      (cycle + 1) * nPaymentCount / cycle := by
  unfold CBudgetProposal.getTotalPaymentCount
    CBudgetProposal.getBlockStartCycle CBudgetProposal.getBlockEndCycle
  rw [cycleStart_of_dvd terms.aligned, ends, Int32.add_comm,
    Int32.add_sub_cancel]

theorem Terms.positive
    (terms : Terms cycle nPaymentCount proposal.nBlockStart) :
    0 < cycle.toInt := by
  have once := terms.once
  have few := terms.few
  omega

/-- A stretched cycle is longer than the cycle for which it stands. -/
theorem stretch_eq (cycle nPaymentCount : Int32) :
    (cycle.toInt + 1) * nPaymentCount.toInt =
      nPaymentCount.toInt * cycle.toInt + nPaymentCount.toInt := by
  ring

/-- The bits of the last block are those of the exact number. -/
theorem toInt_nBlockEnd (ends : Ends cycle nPaymentCount proposal) :
    proposal.nBlockEnd.toInt =
      (lastBlock cycle nPaymentCount proposal.nBlockStart).bmod (2 ^ 32) := by
  have one : (1 : Int32).toInt = 1 := rfl
  rw [ends, lastBlock, Int32.toInt_add, Int32.toInt_mul, Int32.toInt_add, one,
    Int.bmod_mul_bmod, Int.add_bmod_bmod]

theorem toInt_nBlockEnd_of_fits
    (terms : Terms cycle nPaymentCount proposal.nBlockStart)
    (ends : Ends cycle nPaymentCount proposal)
    (fits : lastBlock cycle nPaymentCount proposal.nBlockStart < 2 ^ 31) :
    proposal.nBlockEnd.toInt =
      lastBlock cycle nPaymentCount proposal.nBlockStart := by
  have once := terms.once
  have later := terms.later
  have nonneg : 0 ≤ (cycle.toInt + 1) * nPaymentCount.toInt :=
    Int.mul_nonneg (by have := terms.positive; omega) (by omega)
  rw [toInt_nBlockEnd ends]
  exact Int.bmod_eq_of_le (by unfold lastBlock at *; omega) (by omega)

/-! ### The period test -/

theorem toInt_nextPeriod {nHeight : Int32} (positive : 0 < cycle.toInt)
    (nonneg : 0 ≤ nHeight.toInt)
    (room : superblock cycle nHeight + cycle.toInt ≤ 2 ^ 31) :
    (nextPeriod cycle nHeight).nBlockStart.toInt = superblock cycle nHeight ∧
      (nextPeriod cycle nHeight).nBlockEnd.toInt =
        superblock cycle nHeight + cycle.toInt - 1 := by
  have after : nHeight.toInt < superblock cycle nHeight := by
    have small := Int.emod_lt_of_pos nHeight.toInt positive
    unfold superblock
    omega
  have one : (1 : Int32).toInt = 1 := rfl
  have first : (nextPeriod cycle nHeight).nBlockStart.toInt =
      superblock cycle nHeight := by
    have start := toInt_cycleStart positive nonneg
    unfold nextPeriod superblock at *
    dsimp only
    rw [toInt_add_exact, start] <;> rw [start] <;> omega
  refine ⟨first, ?_⟩
  -- The last block fits, but the number behind it need not.
  change ((nextPeriod cycle nHeight).nBlockStart + cycle - 1).toInt = _
  rw [Int32.toInt_sub, Int32.toInt_add, first, one, Int.bmod_sub_bmod]
  exact Int.bmod_eq_of_le (by omega) (by omega)

/-- A period is covered when its superblock is one of the payments. -/
theorem covered_iff {cycle count start next : Int} (few : count + 1 < cycle)
    (nonneg : 0 ≤ count) (aligned : cycle ∣ next - start) :
    (start ≤ next ∧ next + cycle - 1 ≤ start + (cycle + 1) * count) ↔
      ∃ k : Nat, k < count ∧ next = start + k * cycle := by
  rcases aligned with ⟨index, distance⟩
  have here : next = start + index * cycle := by
    rw [Int.mul_comm]
    omega
  have covers := stretched_covers_iff few nonneg index
  have widen : (index + 1) * cycle = index * cycle + cycle := by ring
  constructor
  · rintro ⟨behind, room⟩
    have known : 0 ≤ index := by
      by_contra negative
      have : index * cycle ≤ -1 * cycle :=
        Int.mul_le_mul_of_nonneg_right (by omega) (by omega)
      omega
    refine ⟨index.toNat, ?_, ?_⟩
    · rw [Int.toNat_of_nonneg known]
      exact covers.mp (by omega)
    · rw [Int.toNat_of_nonneg known]
      exact here
  · rintro ⟨k, inside, next_eq⟩
    have same : index = k := by
      have : index * cycle = k * cycle := by omega
      exact Int.eq_of_mul_eq_mul_right (by omega) this
    have room := covers.mpr (by omega)
    have known : 0 ≤ (k : Int) * cycle :=
      Int.mul_nonneg (by omega) (by omega)
    rw [same] at room widen here
    exact ⟨by omega, by omega⟩

theorem inPeriod_iff
    (terms : Terms cycle nPaymentCount proposal.nBlockStart)
    (ends : Ends cycle nPaymentCount proposal)
    (fits : lastBlock cycle nPaymentCount proposal.nBlockStart < 2 ^ 31)
    {nHeight : Int32} (nonneg : 0 ≤ nHeight.toInt)
    (room : superblock cycle nHeight + cycle.toInt ≤ 2 ^ 31) :
    proposal.inPeriod (nextPeriod cycle nHeight) = true ↔
      ∃ k : Nat, k < nPaymentCount.toInt ∧ superblock cycle nHeight =
        proposal.nBlockStart.toInt + k * cycle.toInt := by
  have aligned : cycle.toInt ∣
      superblock cycle nHeight - proposal.nBlockStart.toInt := by
    unfold superblock
    exact Int.dvd_sub (Int.dvd_add (Int.dvd_self_sub_emod) (Int.dvd_refl _))
      terms.aligned
  have period := toInt_nextPeriod terms.positive nonneg room
  unfold CBudgetProposal.inPeriod
  rw [Bool.and_eq_true, decide_eq_true_eq, decide_eq_true_eq, ge_iff_le,
    Int32.le_iff_toInt_le, Int32.le_iff_toInt_le, period.1, period.2,
    toInt_nBlockEnd_of_fits terms ends fits]
  exact covered_iff terms.few (by have := terms.once; omega) aligned

/-! ### The counts -/

theorem toInt_getTotalPaymentCount
    (terms : Terms cycle nPaymentCount proposal.nBlockStart)
    (ends : Ends cycle nPaymentCount proposal)
    (fits : (cycle.toInt + 1) * nPaymentCount.toInt < 2 ^ 31) :
    proposal.getTotalPaymentCount cycle = nPaymentCount := by
  have once := terms.once
  have few := terms.few
  have positive := terms.positive
  have one : (1 : Int32).toInt = 1 := rfl
  have nonneg : 0 ≤ (cycle.toInt + 1) * nPaymentCount.toInt :=
    Int.mul_nonneg (by omega) (by omega)
  have product : ((cycle + 1) * nPaymentCount).toInt =
      (cycle.toInt + 1) * nPaymentCount.toInt := by
    rw [Int32.toInt_mul, Int32.toInt_add, one, Int.bmod_mul_bmod]
    exact Int.bmod_eq_of_le (by omega) (by omega)
  apply Int32.toInt_inj.mp
  rw [getTotalPaymentCount_eq terms ends, toInt_div_exact positive, product,
    stretch_eq]
  exact stretched_tdiv (by omega) (by omega) (by omega)

/-- A height within a cycle leads back to the start of the cycle. -/
theorem cycleStart_within {cycle base n : Int} (aligned : cycle ∣ base)
    (after : base ≤ n) (before : n < base + cycle) : n - n % cycle = base := by
  rcases aligned with ⟨index, rfl⟩
  have rest : n % cycle = n - cycle * index := by
    have split : n = cycle * index + (n - cycle * index) := by omega
    conv_lhs => rw [split, Int.mul_add_emod_self_left]
    exact Int.emod_eq_of_lt (by omega) (by omega)
  omega

/-- The cycles before a payment are not negative, nor more than all. -/
theorem Terms.cycles_before
    (terms : Terms cycle nPaymentCount proposal.nBlockStart)
    {k : Nat} (inside : k < nPaymentCount.toInt) :
    cycle.toInt ≤ proposal.nBlockStart.toInt ∧ 0 ≤ k * cycle.toInt ∧
      k * cycle.toInt ≤ nPaymentCount.toInt * cycle.toInt := by
  have positive := terms.positive
  refine ⟨Int.le_of_dvd terms.later terms.aligned, ?_, ?_⟩
  · exact Int.mul_nonneg (by omega) (by omega)
  · exact Int.mul_le_mul_of_nonneg_right (by omega) (by omega)

/-- A tip shortly before a payment is within the proposal. -/
theorem getBlockCurrentCycle_eq
    (terms : Terms cycle nPaymentCount proposal.nBlockStart)
    (ends : Ends cycle nPaymentCount proposal)
    (fits : lastBlock cycle nPaymentCount proposal.nBlockStart < 2 ^ 31)
    {k : Nat} {nHeight : Int32} (inside : k < nPaymentCount.toInt)
    (after : proposal.nBlockStart.toInt + k * cycle.toInt - cycle.toInt ≤
      nHeight.toInt)
    (before : nHeight.toInt <
      proposal.nBlockStart.toInt + k * cycle.toInt) :
    (proposal.getBlockCurrentCycle cycle (some nHeight)).toInt =
      proposal.nBlockStart.toInt + k * cycle.toInt - cycle.toInt := by
  have positive := terms.positive
  rcases terms.cycles_before inside with ⟨first, known, reaches⟩
  have early : ¬ nHeight ≥ proposal.getBlockEndCycle := by
    have last := toInt_nBlockEnd_of_fits terms ends fits
    rw [lastBlock, stretch_eq] at last
    have once := terms.once
    unfold CBudgetProposal.getBlockEndCycle
    rw [ge_iff_le, Int32.le_iff_toInt_le]
    omega
  unfold CBudgetProposal.getBlockCurrentCycle
  dsimp only
  rw [if_neg early, toInt_cycleStart positive (by omega)]
  refine cycleStart_within ?_ after (by omega)
  exact Int.dvd_sub (Int.dvd_add terms.aligned (Int.dvd_mul_left _ _))
    (Int.dvd_refl _)

theorem toInt_getRemainingPaymentCount
    (terms : Terms cycle nPaymentCount proposal.nBlockStart)
    (ends : Ends cycle nPaymentCount proposal)
    (fits : lastBlock cycle nPaymentCount proposal.nBlockStart < 2 ^ 31)
    {k : Nat} {nHeight : Int32} (inside : k < nPaymentCount.toInt)
    (after : proposal.nBlockStart.toInt + k * cycle.toInt - cycle.toInt ≤
      nHeight.toInt)
    (before : nHeight.toInt <
      proposal.nBlockStart.toInt + k * cycle.toInt) :
    (proposal.getRemainingPaymentCount cycle (some nHeight)).toInt =
      nPaymentCount.toInt - k := by
  have positive := terms.positive
  have once := terms.once
  have few := terms.few
  have current := getBlockCurrentCycle_eq terms ends fits inside after before
  have last := toInt_nBlockEnd_of_fits terms ends fits
  rw [lastBlock, stretch_eq] at last
  rw [lastBlock, stretch_eq] at fits
  rcases terms.cycles_before inside with ⟨first, known, reaches⟩
  have one : (1 : Int32).toInt = 1 := rfl
  have left : (proposal.getBlockEndCycle -
      proposal.getBlockCurrentCycle cycle (some nHeight)).toInt =
        (nPaymentCount.toInt - k + 1) * cycle.toInt + nPaymentCount.toInt := by
    unfold CBudgetProposal.getBlockEndCycle
    rw [toInt_sub_exact, last, current]
    · ring
    · rw [last, current]
      omega
    · rw [last, current]
      omega
  have count : ((proposal.getBlockEndCycle -
      proposal.getBlockCurrentCycle cycle (some nHeight)) / cycle - 1).toInt =
        nPaymentCount.toInt - k := by
    have quotient : ((proposal.getBlockEndCycle -
        proposal.getBlockCurrentCycle cycle (some nHeight)) / cycle).toInt =
          nPaymentCount.toInt - k + 1 := by
      rw [toInt_div_exact positive, left]
      exact stretched_tdiv (by omega) (by omega) (by omega)
    have bound := toInt_bounds nPaymentCount
    rw [toInt_sub_exact, quotient, one]
    · omega
    · rw [quotient, one]
      omega
    · rw [quotient, one]
      omega
  have total := toInt_getTotalPaymentCount terms ends (by
    rw [stretch_eq]
    omega)
  unfold CBudgetProposal.getRemainingPaymentCount
  dsimp only
  rw [if_neg, count]
  rw [Int32.lt_iff_toInt_lt, total, count]
  omega

/-- A proposal whose last block is an `int` is paid as it says. -/
theorem paidTimes_of_fits
    (terms : Terms cycle nPaymentCount proposal.nBlockStart)
    (ends : Ends cycle nPaymentCount proposal)
    (fits : lastBlock cycle nPaymentCount proposal.nBlockStart < 2 ^ 31) :
    PaidTimes cycle nPaymentCount proposal where
  inPeriod := fun _ nonneg room => inPeriod_iff terms ends fits nonneg room
  total := toInt_getTotalPaymentCount terms ends (by
    have later := terms.later
    unfold lastBlock at fits
    omega)
  remaining := fun _ _ inside after before =>
    toInt_getRemainingPaymentCount terms ends fits inside after before

/-! ### Beyond the largest `int` -/

theorem tdiv_of_nonpos {a cycle : Int} (nonpos : a ≤ 0)
    (positive : 0 < cycle) : a ≤ a.tdiv cycle ∧ a.tdiv cycle ≤ 0 := by
  have nonneg : 0 ≤ (-a).tdiv cycle := Int.tdiv_nonneg (by omega) positive.le
  have small : (-a).tdiv cycle ≤ -a := Int.tdiv_le_self cycle (by omega)
  rw [Int.neg_tdiv] at nonneg small
  omega

/-- A count that is right has not wrapped around. -/
theorem product_fits_of_total
    (terms : Terms cycle nPaymentCount proposal.nBlockStart)
    (ends : Ends cycle nPaymentCount proposal)
    (total : proposal.getTotalPaymentCount cycle = nPaymentCount) :
    (cycle.toInt + 1) * nPaymentCount.toInt < 2 ^ 31 := by
  have positive := terms.positive
  have once := terms.once
  have few := terms.few
  have one : (1 : Int32).toInt = 1 := rfl
  have quotient := congrArg Int32.toInt total
  rw [getTotalPaymentCount_eq terms ends, toInt_div_exact positive]
    at quotient
  have wraps := Int.dvd_self_sub_bmod
    (x := (cycle.toInt + 1) * nPaymentCount.toInt) (m := 2 ^ 32)
  have product : ((cycle + 1) * nPaymentCount).toInt =
      ((cycle.toInt + 1) * nPaymentCount.toInt).bmod (2 ^ 32) := by
    rw [Int32.toInt_mul, Int32.toInt_add, one, Int.bmod_mul_bmod]
  rw [← product] at wraps
  have bound := toInt_bounds ((cycle + 1) * nPaymentCount)
  have cycleBound := toInt_bounds cycle
  generalize ((cycle + 1) * nPaymentCount).toInt = wrapped at *
  -- The wrapped product is in the same cycle as the exact one.
  have nonneg : 0 ≤ wrapped := by
    by_contra negative
    have := (tdiv_of_nonpos (a := wrapped) (by omega) positive).2
    omega
  rw [Int.tdiv_eq_ediv_of_nonneg nonneg] at quotient
  have low := Int.ediv_mul_le wrapped positive.ne'
  have high := Int.lt_ediv_add_one_mul_self wrapped positive
  rw [quotient] at low high
  rw [stretch_eq] at wraps ⊢
  rw [Int.add_mul, Int.one_mul] at high
  omega

/-- A last block that wraps around once is negative. -/
theorem fits_of_paidTimes
    (terms : Terms cycle nPaymentCount proposal.nBlockStart)
    (ends : Ends cycle nPaymentCount proposal)
    (paid : PaidTimes cycle nPaymentCount proposal) :
    lastBlock cycle nPaymentCount proposal.nBlockStart < 2 ^ 31 := by
  have positive := terms.positive
  have once := terms.once
  have later := terms.later
  have product := product_fits_of_total terms ends paid.total
  have startBound := toInt_bounds proposal.nBlockStart
  have first : cycle.toInt ≤ proposal.nBlockStart.toInt :=
    Int.le_of_dvd terms.later terms.aligned
  by_contra beyond
  have negative : -2 ^ 31 ≤ proposal.nBlockEnd.toInt ∧
      proposal.nBlockEnd.toInt < 0 := by
    have wraps := toInt_nBlockEnd ends
    have bound := toInt_bounds proposal.nBlockEnd
    rw [Int.bmod_def] at wraps
    unfold lastBlock at *
    omega
  have tip : (proposal.nBlockStart - cycle).toInt =
      proposal.nBlockStart.toInt - cycle.toInt :=
    toInt_sub_exact (by omega) (by omega)
  -- Shortly before the first payment the proposal counts as ended.
  have current : proposal.getBlockCurrentCycle cycle
      (some (proposal.nBlockStart - cycle)) = -1 := by
    unfold CBudgetProposal.getBlockCurrentCycle
    dsimp only
    rw [if_pos]
    unfold CBudgetProposal.getBlockEndCycle
    rw [ge_iff_le, Int32.le_iff_toInt_le, tip]
    omega
  have one : (1 : Int32).toInt = 1 := rfl
  have minusOne : (-1 : Int32).toInt = -1 := rfl
  have left : (proposal.getBlockEndCycle - -1).toInt =
      proposal.nBlockEnd.toInt + 1 := by
    unfold CBudgetProposal.getBlockEndCycle
    rw [toInt_sub_exact, minusOne]
    · omega
    · rw [minusOne]
      omega
    · rw [minusOne]
      omega
  have quotient : -2 ^ 31 < ((proposal.getBlockEndCycle - -1) / cycle).toInt ∧
      ((proposal.getBlockEndCycle - -1) / cycle).toInt ≤ 0 := by
    rw [toInt_div_exact positive, left]
    have := tdiv_of_nonpos (a := proposal.nBlockEnd.toInt + 1) (by omega)
      positive
    omega
  have none : ((proposal.getBlockEndCycle - -1) / cycle - 1).toInt < 0 := by
    rw [toInt_sub_exact, one]
    · omega
    · rw [one]
      omega
    · rw [one]
      omega
  have remaining := paid.remaining 0 (proposal.nBlockStart - cycle)
    (by omega) (by rw [tip]; omega) (by rw [tip]; omega)
  unfold CBudgetProposal.getRemainingPaymentCount at remaining
  dsimp only at remaining
  rw [current, paid.total, if_neg] at remaining
  · omega
  · rw [Int32.lt_iff_toInt_lt]
    omega

end NewProposal

/-! ## The exact condition -/

/--
A new proposal is paid as it says exactly when its last block is within the
range of an `int`.
-/
theorem broadcast_paidTimes_iff {cycle nPaymentCount nBlockStart : Int32}
    (strProposalName : String) (address : CScript) (nAmount : Int64)
    (nFeeTXHash : UInt256) (nAlloted : Int64)
    (terms : Terms cycle nPaymentCount nBlockStart) :
    PaidTimes cycle nPaymentCount
        (.broadcast cycle strProposalName nPaymentCount address nAmount
          nBlockStart nFeeTXHash nAlloted) ↔
      lastBlock cycle nPaymentCount nBlockStart < 2 ^ 31 := by
  have ends := broadcast_ends strProposalName nPaymentCount address nAmount
    nFeeTXHash nAlloted terms.aligned
  have start : (CBudgetProposal.broadcast cycle strProposalName nPaymentCount
      address nAmount nBlockStart nFeeTXHash nAlloted).nBlockStart =
        nBlockStart := rfl
  generalize CBudgetProposal.broadcast cycle strProposalName nPaymentCount
    address nAmount nBlockStart nFeeTXHash nAlloted = proposal at ends start ⊢
  subst start
  exact ⟨fits_of_paidTimes terms ends, paidTimes_of_fits terms ends⟩

/-- Two payments of a month each, from the block 820800 on. -/
theorem twoPayments_paidTimes :
    Terms 43200 2 820800 ∧
      (PaidTimes 43200 2
          (.broadcast 43200 "test-proposal" 2 [] 50000000000 820800 7 0) ↔
        lastBlock 43200 2 820800 < 2 ^ 31) := by
  have terms : Terms 43200 2 820800 :=
    ⟨by decide, by decide, by decide, ⟨19, by decide⟩⟩
  exact ⟨terms, broadcast_paidTimes_iff "test-proposal" [] 50000000000 7 0
    terms⟩

/-- A proposal whose last cycle has blocks beyond the largest `int`. -/
def lateProposal : CBudgetProposal :=
  .broadcast 43200 "test-proposal" 11648 [] 50000000000 1644278400 7 0

/-- It is for 11648 payments, but ends before it begins. -/
theorem lateProposal_ended :
    Terms 43200 11648 1644278400 ∧ lateProposal.nBlockEnd = -2147483648 ∧
      lateProposal.getRemainingPaymentCount 43200 (some 1644235200) =
        -49711 ∧
      ¬ PaidTimes 43200 11648 lateProposal := by
  have terms : Terms 43200 11648 1644278400 :=
    ⟨by decide, by decide, by decide, ⟨38062, by decide⟩⟩
  refine ⟨terms, by decide, by decide, fun paid => ?_⟩
  have remaining := paid.remaining 0 1644235200 (by decide) (by decide)
    (by decide)
  exact absurd remaining (by decide)

end PrivateDatagram.Governance.BudgetProposals
