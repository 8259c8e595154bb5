import Mathlib.Algebra.Order.BigOperators.Group.List
import Mathlib.Data.List.Sort

/-!
# Sorting and picking out of lists

The result of a sort that need not be stable, and the elements of a list whose
flags are set.
-/

namespace PrivateDatagram.Library.Picking

variable {α : Type}

/-! ## Sorting -/

/-- A sort by a comparator.  Elements that the comparator does not tell apart
may come in any order. -/
structure SortBy (less : α → α → Bool) where
  sort : List α → List α
  perm : ∀ values, (sort values).Perm values
  sorted : ∀ values, (sort values).Pairwise fun left right =>
    less right left = false

/-- A value may come before another. -/
def notAfter (less : α → α → Bool) (left right : α) : Bool :=
  !less right left

/-- A stable sort is one of them. -/
def SortBy.merge (less : α → α → Bool)
    (trans : ∀ left middle right, notAfter less left middle = true →
      notAfter less middle right = true → notAfter less left right = true)
    (total : ∀ left right,
      (notAfter less left right || notAfter less right left) = true) :
    SortBy less where
  sort := fun values => values.mergeSort (notAfter less)
  perm := fun values => List.mergeSort_perm values (notAfter less)
  sorted := by
    intro values
    apply (List.pairwise_mergeSort trans total values).imp
    intro left right ordered
    rwa [notAfter, Bool.not_eq_true'] at ordered

/-! ## Picking by flags -/

/-- The elements whose flag is set. -/
def pick : List α → List Bool → List α
  | value :: values, flag :: flags =>
      if flag then value :: pick values flags else pick values flags
  | _, _ => []

theorem pick_sublist (values : List α) (flags : List Bool) :
    (pick values flags).Sublist values := by
  induction values generalizing flags with
  | nil => exact List.Sublist.refl []
  | cons value values hypothesis =>
      cases flags with
      | nil => exact List.nil_sublist _
      | cons flag flags =>
          rw [pick]
          split_ifs
          · exact (hypothesis flags).cons_cons value
          · exact (hypothesis flags).cons value

theorem pick_replicate_true (values : List α) :
    pick values (List.replicate values.length true) = values := by
  induction values with
  | nil => rfl
  | cons value values hypothesis =>
      rw [List.length_cons, List.replicate_succ, pick, if_pos rfl, hypothesis]

theorem pick_replicate_false (values : List α) (count : Nat) :
    pick values (List.replicate count false) = [] := by
  induction values generalizing count with
  | nil => rfl
  | cons value values hypothesis =>
      cases count with
      | zero => rfl
      | succ count =>
          rw [List.replicate_succ, pick, if_neg Bool.false_ne_true,
            hypothesis]

/-- Setting one more flag picks one more element. -/
theorem sum_pick_set {M : Type} [AddCommMonoid M] (weight : α → M)
    {values : List α} {flags : List Bool} {index : Nat} {value : α}
    (found : values[index]? = some value)
    (unset : flags[index]? = some false) :
    ((pick values (flags.set index true)).map weight).sum =
      ((pick values flags).map weight).sum + weight value := by
  induction values generalizing flags index with
  | nil => cases found
  | cons head values hypothesis =>
      cases flags with
      | nil => cases unset
      | cons flag flags =>
          cases index with
          | zero =>
              rw [List.getElem?_cons_zero, Option.some.injEq] at found unset
              rw [found, unset, List.set_cons_zero, pick, pick, if_pos rfl,
                if_neg Bool.false_ne_true, List.map_cons, List.sum_cons,
                add_comm]
          | succ index =>
              rw [List.getElem?_cons_succ] at found unset
              have step := hypothesis found unset
              rw [List.set_cons_succ, pick, pick]
              split_ifs
              · rw [List.map_cons, List.map_cons, List.sum_cons,
                  List.sum_cons, step, add_assoc]
              · exact step

theorem sum_sublist_le {M : Type} [AddCommMonoid M] [Preorder M]
    [IsOrderedAddMonoid M] {part whole : List α} {weight : α → M}
    (sublist : part.Sublist whole)
    (nonneg : ∀ value ∈ whole, 0 ≤ weight value) :
    (part.map weight).sum ≤ (whole.map weight).sum := by
  apply (sublist.map weight).sum_le_sum
  rintro _ mem
  obtain ⟨value, valueMem, rfl⟩ := List.mem_map.mp mem
  exact nonneg value valueMem

end PrivateDatagram.Library.Picking
