import Mathlib.Algebra.BigOperators.Group.List.Basic
import Mathlib.Algebra.Order.Ring.Nat
import Mathlib.Data.List.GetD

/-!
# Ranks in pooled samples

Samples are kept in buckets.  The middle of a bucket has a rank in the pool
of all the buckets: the samples of the buckets before it, and half of its own.
In a pool that is sorted, later buckets have lower samples at their ranks.

A bounded buffer gives up its oldest element for a new one when it is full.
-/

namespace PrivateDatagram.Library.PooledRanks

variable {α : Type}

/-! ## Bounded buffers -/

/-- A buffer with so many elements at most, the oldest first. -/
structure BoundedBuffer (α : Type) (capacity : Nat) where
  elements : List α
  bounded : elements.length ≤ capacity

namespace BoundedBuffer

variable {capacity : Nat}

def empty : BoundedBuffer α capacity :=
  ⟨[], Nat.zero_le _⟩

/-- Put an element in at the end. -/
def push (buffer : BoundedBuffer α capacity) (element : α) :
    BoundedBuffer α capacity where
  elements := (buffer.elements ++ [element]).drop
    (buffer.elements.length + 1 - capacity)
  bounded := by
    rw [List.length_drop, List.length_append, List.length_singleton]
    omega

end BoundedBuffer

/-! ## Ranks -/

/-- The samples in the buckets before a bucket. -/
def countBefore (buckets : List (List α)) (bucket : Nat) : Nat :=
  ((buckets.take bucket).map List.length).sum

/-- The rank of the middle of a bucket in the pool. -/
def rank (buckets : List (List α)) (bucket : Nat) : Nat :=
  countBefore buckets bucket + (buckets.getD bucket []).length / 2

theorem countBefore_succ (buckets : List (List α)) (bucket : Nat) :
    countBefore buckets (bucket + 1) =
      countBefore buckets bucket + (buckets.getD bucket []).length := by
  unfold countBefore
  by_cases inside : bucket < buckets.length
  · rw [List.take_add_one, List.getElem?_eq_getElem inside, List.map_append,
      List.sum_append, List.getD_eq_getElem _ _ inside]
    rfl
  · rw [List.take_of_length_le (by omega), List.take_of_length_le (by omega),
      List.getD_eq_default _ _ (by omega)]
    rfl

theorem countBefore_mono (buckets : List (List α)) {first second : Nat}
    (ordered : first ≤ second) :
    countBefore buckets first ≤ countBefore buckets second := by
  induction second, ordered using Nat.le_induction with
  | base => exact le_rfl
  | succ second _ ih =>
      rw [countBefore_succ]
      exact Nat.le_add_right_of_le ih

theorem rank_mono (buckets : List (List α)) {first second : Nat}
    (ordered : first ≤ second) : rank buckets first ≤ rank buckets second := by
  rcases Nat.lt_or_eq_of_le ordered with before | rfl
  · have counts := countBefore_mono buckets before
    rw [Nat.succ_eq_add_one, countBefore_succ] at counts
    unfold rank
    omega
  · exact le_rfl

/-- In a sorted pool a later place has a lower sample. -/
theorem sorted_antitone (below : α → α → Prop) (refl : ∀ a, below a a)
    {pool : List α} {high low : α}
    (sorted : pool.Pairwise fun high low => below low high)
    {first second : Nat} (ordered : first ≤ second)
    (atFirst : pool[first]? = some high)
    (atSecond : pool[second]? = some low) : below low high := by
  rcases List.getElem?_eq_some_iff.mp atFirst with ⟨inside, rfl⟩
  rcases List.getElem?_eq_some_iff.mp atSecond with ⟨insideToo, rfl⟩
  rcases Nat.lt_or_eq_of_le ordered with before | rfl
  · exact List.pairwise_iff_getElem.mp sorted first second _ _ before
  · exact refl _

/-! ## Sorting -/

/-- Sort, the greatest first. -/
def sortDown (greater : α → α → Bool) (pool : List α) : List α :=
  pool.mergeSort fun first second => !greater second first

@[simp]
theorem mem_sortDown {greater : α → α → Bool} {pool : List α} {sample : α} :
    sample ∈ sortDown greater pool ↔ sample ∈ pool :=
  List.mem_mergeSort

/-- An order by a number sorts by it. -/
theorem sortDown_sorted {greater : α → α → Bool} {key : α → Int}
    (byKey : ∀ first second, greater first second = true ↔
      key second < key first) (pool : List α) :
    (sortDown greater pool).Pairwise fun high low => key low ≤ key high := by
  have ordered : ∀ first second, (!greater second first) = true ↔
      key second ≤ key first := by
    intro first second
    rw [Bool.not_eq_true', ← Bool.not_eq_true, byKey, not_lt]
  refine (List.pairwise_mergeSort (fun a b c => ?_) (fun a b => ?_) pool).imp
    fun {high low} => (ordered high low).mp
  · rw [ordered, ordered, ordered]
    omega
  · rw [Bool.or_eq_true, ordered, ordered]
    omega

end PrivateDatagram.Library.PooledRanks
