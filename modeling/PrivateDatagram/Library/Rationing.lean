import Mathlib.Algebra.BigOperators.Group.List.Basic
import Mathlib.Data.List.Sublists

/-!
# Rationing

A supply is given out to a list of claims, one after the other: a claim is
granted in full when it fits beside what has been given out before, and is
passed over otherwise.
-/

namespace PrivateDatagram.Library.Rationing

variable {α M : Type} [AddCommMonoid M] (amount : α → M)

/-- What some claims take together. -/
def taken (claims : List α) : M := (claims.map amount).sum

@[simp]
theorem taken_nil : taken amount [] = 0 := rfl

@[simp]
theorem taken_cons (claim : α) (claims : List α) :
    taken amount (claim :: claims) = amount claim + taken amount claims := by
  simp [taken]

variable [LE M] [DecidableLE M] (total : M)

/-- The claims that are granted, behind those that took `given`. -/
def grant : M → List α → List α
  | _, [] => []
  | given, claim :: rest =>
      if given + amount claim ≤ total then
        claim :: grant (given + amount claim) rest
      else
        grant given rest

variable {amount total}

theorem grant_fits {given : M} {claim : α} {rest : List α}
    (fits : given + amount claim ≤ total) :
    grant amount total given (claim :: rest) =
      claim :: grant amount total (given + amount claim) rest := by
  rw [grant, if_pos fits]

theorem grant_misses {given : M} {claim : α} {rest : List α}
    (misses : ¬ given + amount claim ≤ total) :
    grant amount total given (claim :: rest) =
      grant amount total given rest := by
  rw [grant, if_neg misses]

/-- Claims are granted in their order. -/
theorem grant_sublist (given : M) (claims : List α) :
    (grant amount total given claims).Sublist claims := by
  induction claims generalizing given with
  | nil => exact List.Sublist.refl _
  | cons claim rest ih =>
      by_cases fits : given + amount claim ≤ total
      · rw [grant_fits fits]
        exact (ih _).cons_cons claim
      · rw [grant_misses fits]
        exact (ih given).cons claim

/-- No more is given out than there is. -/
theorem taken_grant_le {given : M} (small : given ≤ total)
    (claims : List α) :
    given + taken amount (grant amount total given claims) ≤ total := by
  induction claims generalizing given with
  | nil => rwa [grant, taken_nil, add_zero]
  | cons claim rest ih =>
      by_cases fits : given + amount claim ≤ total
      · rw [grant_fits fits, taken_cons, ← add_assoc]
        exact ih fits
      · rw [grant_misses fits]
        exact ih small

theorem grant_append (given : M) (front back : List α) :
    grant amount total given (front ++ back) =
      grant amount total given front ++
        grant amount total
          (given + taken amount (grant amount total given front)) back := by
  induction front generalizing given with
  | nil => simp [grant]
  | cons claim rest ih =>
      by_cases fits : given + amount claim ≤ total
      · rw [List.cons_append, grant_fits fits, grant_fits fits, ih,
          taken_cons, List.cons_append, add_assoc]
      · rw [List.cons_append, grant_misses fits, grant_misses fits, ih]

/-- A claim that is passed over does not fit at its turn. -/
theorem misses_of_not_granted {given : M} {front back : List α} {claim : α}
    (passed : claim ∉ grant amount total given (front ++ claim :: back)) :
    ¬ given + taken amount (grant amount total given front) +
      amount claim ≤ total := by
  intro fits
  apply passed
  rw [grant_append, grant_fits fits]
  exact List.mem_append_right _ List.mem_cons_self

omit [LE M] [DecidableLE M] in
/-- A sum over all claims that counts some of them. -/
theorem sum_counted [DecidableEq α] {counted claims : List α}
    (part : counted.Sublist claims) (distinct : claims.Nodup) :
    (claims.map fun claim =>
        if claim ∈ counted then amount claim else 0).sum =
      taken amount counted := by
  induction part with
  | slnil => rfl
  | @cons counted rest claim part ih =>
      rcases List.nodup_cons.mp distinct with ⟨fresh, distinctRest⟩
      have absent : claim ∉ counted := fun here => fresh (part.subset here)
      rw [List.map_cons, List.sum_cons, if_neg absent, zero_add]
      exact ih distinctRest
  | @cons_cons counted rest claim part ih =>
      rcases List.nodup_cons.mp distinct with ⟨fresh, distinctRest⟩
      rw [List.map_cons, List.sum_cons, if_pos List.mem_cons_self, taken_cons,
        ← ih distinctRest]
      congr 2
      apply List.map_congr_left
      intro other isOther
      have differ : other ≠ claim := fun same => fresh (same ▸ isOther)
      simp only [List.mem_cons, differ, false_or]

end PrivateDatagram.Library.Rationing
