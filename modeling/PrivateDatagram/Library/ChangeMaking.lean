import Mathlib.Algebra.Order.Ring.Int
import Mathlib.Data.List.Basic

/-!
# Making change

Denominations of which each divides the ones before it.  Taking as many as
possible of each, from the highest on, meets an amount exactly whenever it can
be met at all, and with the fewest coins.
-/

namespace PrivateDatagram.Library.ChangeMaking

variable {ι : Type}

/-- What a number of coins of each denomination is worth. -/
def worth (value : ι → Int) (counts : ι → Nat) (denoms : List ι) : Int :=
  (denoms.map fun denom => counts denom * value denom).sum

def size (counts : ι → Nat) (denoms : List ι) : Nat :=
  (denoms.map counts).sum

/-- Positive values, each of which divides the ones before it. -/
structure Descends (value : ι → Int) (denoms : List ι) : Prop where
  nodup : denoms.Nodup
  positive : ∀ denom ∈ denoms, 0 < value denom
  divides : denoms.Pairwise fun high low => value low ∣ value high

section

variable {value : ι → Int} {counts : ι → Nat}

theorem worth_cons (denom : ι) (denoms : List ι) :
    worth value counts (denom :: denoms) =
      counts denom * value denom + worth value counts denoms := by
  rw [worth, List.map_cons, List.sum_cons]
  rfl

theorem size_cons (denom : ι) (denoms : List ι) :
    size counts (denom :: denoms) = counts denom + size counts denoms := by
  rw [size, List.map_cons, List.sum_cons]
  rfl

theorem worth_congr {counts' : ι → Nat} {denoms : List ι}
    (same : ∀ denom ∈ denoms, counts denom = counts' denom) :
    worth value counts denoms = worth value counts' denoms := by
  unfold worth
  congr 1
  apply List.map_congr_left
  intro denom mem
  rw [same denom mem]

theorem size_congr {counts' : ι → Nat} {denoms : List ι}
    (same : ∀ denom ∈ denoms, counts denom = counts' denom) :
    size counts denoms = size counts' denoms := by
  unfold size
  congr 1
  exact List.map_congr_left same

theorem size_reverse (denoms : List ι) :
    size counts denoms.reverse = size counts denoms := by
  rw [size, List.map_reverse, List.sum_reverse]
  rfl

theorem Descends.tail {denom : ι} {denoms : List ι}
    (descends : Descends value (denom :: denoms)) : Descends value denoms where
  nodup := descends.nodup.of_cons
  positive := fun other mem =>
    descends.positive other (List.mem_cons_of_mem denom mem)
  divides := descends.divides.of_cons

theorem worth_nonneg {denoms : List ι} (descends : Descends value denoms) :
    0 ≤ worth value counts denoms := by
  induction denoms with
  | nil => exact le_rfl
  | cons denom denoms hypothesis =>
      have positive := descends.positive denom List.mem_cons_self
      rw [worth_cons]
      exact add_nonneg (mul_nonneg (Int.natCast_nonneg _) positive.le)
        (hypothesis descends.tail)

/-- Coins of at most some value are at least as many as their worth takes. -/
theorem worth_le_size_mul {denoms : List ι} {bound : Int}
    (small : ∀ denom ∈ denoms, value denom ≤ bound) :
    worth value counts denoms ≤ size counts denoms * bound := by
  induction denoms with
  | nil => exact (Int.zero_mul bound).symm.le
  | cons denom denoms hypothesis =>
      rw [List.forall_mem_cons] at small
      rw [worth_cons, size_cons, Int.natCast_add, Int.add_mul]
      exact add_le_add
        (mul_le_mul_of_nonneg_left small.1 (Int.natCast_nonneg _))
        (hypothesis small.2)

/-- What is left of some coins when others among them are taken away. -/
theorem worth_sub {part : ι → Nat} {denoms : List ι}
    (within : ∀ denom ∈ denoms, part denom ≤ counts denom) :
    worth value (fun denom => counts denom - part denom) denoms =
      worth value counts denoms - worth value part denoms := by
  induction denoms with
  | nil => rfl
  | cons denom denoms hypothesis =>
      rw [List.forall_mem_cons] at within
      rw [worth_cons, worth_cons, worth_cons, hypothesis within.2,
        Int.natCast_sub within.1, Int.sub_mul]
      omega

theorem size_sub {part : ι → Nat} {denoms : List ι}
    (within : ∀ denom ∈ denoms, part denom ≤ counts denom) :
    size (fun denom => counts denom - part denom) denoms +
      size part denoms = size counts denoms := by
  induction denoms with
  | nil => rfl
  | cons denom denoms hypothesis =>
      rw [List.forall_mem_cons] at within
      have rest := hypothesis within.2
      rw [size_cons, size_cons, size_cons]
      omega

/-! ## Taking as many as possible -/

/-- As many coins of each denomination as are held and fit are taken, and an
amount remains. -/
inductive Greedy (value : ι → Int) (held taken : ι → Nat) :
    List ι → Int → Int → Prop
  | nil (amount : Int) : Greedy value held taken [] amount amount
  | cons {denom : ι} {denoms : List ι} {amount remaining : Int}
      (available : taken denom ≤ held denom)
      (fits : taken denom * value denom ≤ amount ∨ taken denom = 0)
      (most : amount - taken denom * value denom < value denom ∨
        taken denom = held denom)
      (rest : Greedy value held taken denoms
        (amount - taken denom * value denom) remaining) :
      Greedy value held taken (denom :: denoms) amount remaining

theorem Greedy.remaining_eq {held taken : ι → Nat} {denoms : List ι}
    {amount remaining : Int}
    (greedy : Greedy value held taken denoms amount remaining) :
    remaining = amount - worth value taken denoms := by
  induction greedy with
  | nil amount => exact (sub_zero amount).symm
  | cons available fits most rest hypothesis =>
      rw [hypothesis, worth_cons, sub_sub]

theorem Greedy.le_held {held taken : ι → Nat} {denoms : List ι}
    {amount remaining : Int}
    (greedy : Greedy value held taken denoms amount remaining) :
    ∀ denom ∈ denoms, taken denom ≤ held denom := by
  induction greedy with
  | nil amount => exact fun _ absent => absurd absent List.not_mem_nil
  | cons available fits most rest hypothesis =>
      exact List.forall_mem_cons.mpr ⟨available, hypothesis⟩

end

/-! ## Taking the most is best -/

section

variable [DecidableEq ι] {value : ι → Int} {counts : ι → Nat}

theorem update_of_notMem {denoms : List ι} {denom : ι}
    (absent : denom ∉ denoms) (count : Nat) : ∀ other ∈ denoms,
      Function.update counts denom count other = counts other := by
  intro other mem
  exact Function.update_of_ne (ne_of_mem_of_not_mem mem absent) ..

theorem worth_update {denoms : List ι} (nodup : denoms.Nodup) {denom : ι}
    (mem : denom ∈ denoms) (count : Nat) :
    worth value (Function.update counts denom count) denoms =
      worth value counts denoms +
        ((count : Int) - counts denom) * value denom := by
  induction denoms with
  | nil => cases mem
  | cons head denoms hypothesis =>
      obtain ⟨headOut, nodup⟩ := List.nodup_cons.mp nodup
      obtain rfl | mem := List.mem_cons.mp mem
      · have same : ∀ other ∈ denoms,
            Function.update counts denom count other = counts other :=
          update_of_notMem headOut count
        rw [worth_cons, worth_cons, Function.update_self, worth_congr same,
          Int.sub_mul]
        omega
      · have different : head ≠ denom := by
          rintro rfl
          exact headOut mem
        rw [worth_cons, worth_cons, Function.update_of_ne different,
          hypothesis nodup mem, add_assoc]

theorem size_update {denoms : List ι} (nodup : denoms.Nodup) {denom : ι}
    (mem : denom ∈ denoms) (count : Nat) :
    size (Function.update counts denom count) denoms + counts denom =
      size counts denoms + count := by
  induction denoms with
  | nil => cases mem
  | cons head denoms hypothesis =>
      obtain ⟨headOut, nodup⟩ := List.nodup_cons.mp nodup
      obtain rfl | mem := List.mem_cons.mp mem
      · have same : ∀ other ∈ denoms,
            Function.update counts denom count other = counts other :=
          update_of_notMem headOut count
        rw [size_cons, size_cons, Function.update_self, size_congr same]
        omega
      · have different : head ≠ denom := by
          rintro rfl
          exact headOut mem
        have rest := hypothesis nodup mem
        rw [size_cons, size_cons, Function.update_of_ne different]
        omega

/-- Some of the coins are worth exactly an amount that all values divide, when
all of them are worth as much. -/
theorem exists_part {denoms : List ι} (descends : Descends value denoms)
    {amount : Int} (nonneg : 0 ≤ amount)
    (divides : ∀ denom ∈ denoms, value denom ∣ amount)
    (enough : amount ≤ worth value counts denoms) :
    ∃ part : ι → Nat, (∀ denom ∈ denoms, part denom ≤ counts denom) ∧
      worth value part denoms = amount := by
  induction denoms generalizing amount with
  | nil =>
      refine ⟨fun _ => 0, ?_, le_antisymm nonneg enough⟩
      rintro _ ⟨⟩
  | cons denom denoms hypothesis =>
      have positive := descends.positive denom List.mem_cons_self
      obtain ⟨quotient, rfl⟩ := divides denom List.mem_cons_self
      rw [worth_cons] at enough
      have quotientNonneg : 0 ≤ quotient :=
        nonneg_of_mul_nonneg_right nonneg positive
      obtain ⟨coins, rfl⟩ := Int.eq_ofNat_of_zero_le quotientNonneg
      -- Take as many of the highest as there are and fit.
      have rest : ∃ taken ≤ counts denom,
          (taken : Int) * value denom ≤ value denom * coins ∧
          value denom * coins - taken * value denom ≤
            worth value counts denoms := by
        obtain all | all := Nat.le_total (counts denom) coins
        · refine ⟨counts denom, le_rfl, ?_, by omega⟩
          rw [mul_comm (value denom)]
          exact mul_le_mul_of_nonneg_right (by omega) positive.le
        · refine ⟨coins, all, (mul_comm _ _).le, ?_⟩
          rw [mul_comm (value denom), sub_self]
          exact worth_nonneg descends.tail
      obtain ⟨taken, takenLe, fits, left⟩ := rest
      obtain ⟨part, within, exact⟩ := hypothesis descends.tail
        (sub_nonneg.mpr fits)
        (fun other mem => by
          have lower := (List.pairwise_cons.mp descends.divides).1 other mem
          exact Int.dvd_sub (lower.mul_right _) (lower.mul_left _))
        left
      have same : ∀ other ∈ denoms,
          Function.update part denom taken other = part other :=
        update_of_notMem (List.nodup_cons.mp descends.nodup).1 taken
      refine ⟨Function.update part denom taken, ?_, ?_⟩
      · rintro other (_ | ⟨_, mem⟩)
        · rw [Function.update_self]
          exact takenLe
        · rw [same other mem]
          exact within other mem
      · rw [worth_cons, Function.update_self, worth_congr same, exact]
        omega

/-- Taking the most meets an amount that some of the coins meet, with no more
coins than those. -/
theorem Greedy.exact {held taken : ι → Nat} {denoms : List ι}
    {amount remaining : Int}
    (greedy : Greedy value held taken denoms amount remaining)
    (descends : Descends value denoms)
    (within : ∀ denom ∈ denoms, counts denom ≤ held denom)
    (meets : worth value counts denoms = amount) :
    remaining = 0 ∧ size taken denoms ≤ size counts denoms := by
  induction greedy generalizing counts with
  | nil amount => exact ⟨meets.symm, le_rfl⟩
  | @cons denom denoms amount remaining available fits most rest hypothesis =>
      have positive := descends.positive denom List.mem_cons_self
      have lower := (List.pairwise_cons.mp descends.divides).1
      rw [List.forall_mem_cons] at within
      rw [worth_cons] at meets
      have worthNonneg : 0 ≤ worth value counts denoms :=
        worth_nonneg descends.tail
      -- None of the highest is missing.
      have all : counts denom ≤ taken denom := by
        obtain small | full := most
        · by_contra! fewer
          have one : ((taken denom : Int) + 1) * value denom ≤
              counts denom * value denom :=
            mul_le_mul_of_nonneg_right (by omega) positive.le
          rw [Int.add_mul] at one
          omega
        · rw [full]
          exact within.1
      -- Those that are taken besides replace lower ones.
      obtain ⟨extra, added⟩ := Nat.exists_eq_add_of_le all
      have split : (taken denom : Int) * value denom =
          counts denom * value denom + extra * value denom := by
        rw [added, Int.natCast_add, Int.add_mul]
      have replaced : (extra : Int) * value denom ≤
          worth value counts denoms := by
        obtain fits | none := fits
        · omega
        · obtain rfl : extra = 0 := by omega
          rw [Int.natCast_zero, Int.zero_mul]
          exact worthNonneg
      obtain ⟨part, partLe, partWorth⟩ := exists_part descends.tail
        (mul_nonneg (Int.natCast_nonneg extra) positive.le)
        (fun other mem => (lower other mem).mul_left _) replaced
      have atLeast : extra ≤ size part denoms := by
        have bounded : worth value part denoms ≤
            size part denoms * value denom :=
          worth_le_size_mul fun other mem =>
            Int.le_of_dvd positive (lower other mem)
        rw [partWorth] at bounded
        exact Int.ofNat_le.mp (le_of_mul_le_mul_right bounded positive)
      have left : worth value (fun other => counts other - part other) denoms =
          worth value counts denoms - worth value part denoms :=
        worth_sub partLe
      have leftSize := size_sub partLe
      obtain ⟨exact, fewest⟩ := hypothesis descends.tail
        (fun other mem => (Nat.sub_le _ (part other)).trans
          (within.2 other mem))
        (left.trans (by omega))
      rw [size_cons, size_cons]
      exact ⟨exact, by omega⟩

end

section

variable {value : ι → Int}

/-- Nothing fits into a debt. -/
theorem Greedy.eq_zero_of_neg {held taken : ι → Nat} {denoms : List ι}
    {amount remaining : Int}
    (greedy : Greedy value held taken denoms amount remaining)
    (positive : ∀ denom ∈ denoms, 0 < value denom) (debt : amount < 0) :
    ∀ denom ∈ denoms, taken denom = 0 := by
  induction greedy with
  | nil amount => exact fun _ absent => absurd absent List.not_mem_nil
  | @cons denom denoms amount remaining available fits most rest hypothesis =>
      rw [List.forall_mem_cons] at positive ⊢
      have nonneg : 0 ≤ (taken denom : Int) * value denom :=
        mul_nonneg (Int.natCast_nonneg _) positive.1.le
      exact ⟨fits.resolve_left (by omega), hypothesis positive.2 (by omega)⟩

end

/-! ## Change without limits -/

section

variable {value : ι → Int}

/-- The number of coins when any number of each denomination may be taken;
there are none for what is smaller than every value. -/
def changeSize (value : ι → Int) : List ι → Int → Nat
  | [], _ => 0
  | denom :: denoms, amount =>
      if value denom ≤ amount then
        (amount / value denom).toNat +
          changeSize value denoms (amount % value denom)
      else
        changeSize value denoms amount

theorem changeSize_of_nonpos {denoms : List ι}
    (positive : ∀ denom ∈ denoms, 0 < value denom) {amount : Int}
    (nonpos : amount ≤ 0) : changeSize value denoms amount = 0 := by
  induction denoms with
  | nil => rfl
  | cons denom denoms hypothesis =>
      rw [List.forall_mem_cons] at positive
      rw [changeSize, if_neg (by omega), hypothesis positive.2]

theorem changeSize_pos {denoms : List ι} {denom : ι} (mem : denom ∈ denoms)
    (positive : ∀ denom ∈ denoms, 0 < value denom) {amount : Int}
    (large : value denom ≤ amount) : 0 < changeSize value denoms amount := by
  induction denoms with
  | nil => cases mem
  | cons head denoms hypothesis =>
      rw [List.forall_mem_cons] at positive
      rw [changeSize]
      split_ifs with fits
      · have one : 1 ≤ amount / value head :=
          (Int.le_ediv_iff_mul_le positive.1).mpr (by omega)
        omega
      · obtain rfl | mem := List.mem_cons.mp mem
        · exact absurd large fits
        · exact hypothesis mem positive.2

/-- As many coins of a denomination as fit are those of the change. -/
theorem changeSize_cons_of {denom : ι} {denoms : List ι} {amount : Int}
    {count : Nat} (fits : count * value denom ≤ amount ∨ count = 0)
    (most : amount - count * value denom < value denom)
    (positive : 0 < value denom) :
    changeSize value (denom :: denoms) amount =
      count + changeSize value denoms (amount - count * value denom) := by
  rw [changeSize]
  split_ifs with large
  · have below : (count : Int) * value denom ≤ amount := by
      obtain below | rfl := fits
      · exact below
      · rw [Int.natCast_zero, Int.zero_mul]
        omega
    have whole : amount - count * value denom + value denom * count =
        amount := by
      rw [mul_comm (value denom)]
      omega
    obtain ⟨quotient, remainder⟩ := (Int.ediv_emod_unique positive).mpr
      ⟨whole, Int.sub_nonneg.mpr below, most⟩
    rw [quotient, remainder, Int.toNat_natCast]
  · have none : count = 0 := by
      obtain below | none := fits
      · by_contra some
        have one : 1 * value denom ≤ count * value denom :=
          mul_le_mul_of_nonneg_right (by omega) positive.le
        omega
      · exact none
    rw [none, Int.natCast_zero, Int.zero_mul, sub_zero, Nat.zero_add]

/-- Where there are plenty of coins, taking the most is the change. -/
theorem Greedy.size_eq_changeSize {held taken : ι → Nat} {denoms : List ι}
    {amount remaining : Int}
    (greedy : Greedy value held taken denoms amount remaining)
    (positive : ∀ denom ∈ denoms, 0 < value denom)
    (plenty : ∀ denom ∈ denoms, amount < held denom * value denom) :
    size taken denoms = changeSize value denoms amount := by
  induction greedy with
  | nil amount => rfl
  | @cons denom denoms amount remaining available fits most rest hypothesis =>
      rw [List.forall_mem_cons] at positive plenty
      have nonneg : 0 ≤ (taken denom : Int) * value denom :=
        mul_nonneg (Int.natCast_nonneg _) positive.1.le
      have small : amount - taken denom * value denom < value denom := by
        obtain small | full := most
        · exact small
        · rw [← full] at plenty
          obtain below | none := fits
          · exact absurd below plenty.1.not_ge
          · rw [none, Int.natCast_zero, Int.zero_mul] at plenty ⊢
            omega
      have less := hypothesis positive.2 fun other mem =>
        (sub_le_self amount nonneg).trans_lt (plenty.2 other mem)
      rw [size_cons, less, changeSize_cons_of fits small positive.1]

theorem changeSize_mul_le {denoms : List ι} {unit amount : Int}
    (positive : 0 < unit) (large : ∀ denom ∈ denoms, unit ≤ value denom)
    (nonneg : 0 ≤ amount) :
    changeSize value denoms amount * unit ≤ amount := by
  induction denoms generalizing amount with
  | nil =>
      rw [changeSize, Int.natCast_zero, Int.zero_mul]
      exact nonneg
  | cons denom denoms hypothesis =>
      rw [List.forall_mem_cons] at large
      have value_pos : 0 < value denom := positive.trans_le large.1
      rw [changeSize]
      split_ifs with fits
      · have quotient : 0 ≤ amount / value denom :=
          Int.ediv_nonneg nonneg value_pos.le
        have rest := hypothesis large.2 (Int.emod_nonneg amount value_pos.ne')
        have taken : amount / value denom * unit ≤
            amount / value denom * value denom :=
          mul_le_mul_of_nonneg_left large.1 quotient
        have whole := Int.ediv_mul_add_emod amount (value denom)
        rw [Int.natCast_add, Int.toNat_of_nonneg quotient, Int.add_mul]
        omega
      · exact hypothesis large.2 nonneg

end

end PrivateDatagram.Library.ChangeMaking
