import Mathlib.Order.Lattice

/-!
# Ranking

The best of some values, by a comparison that a linear order of ranks stands
behind.
-/

namespace PrivateDatagram.Library.Ranking

variable {α κ : Type*}

/-- The best value, the later one of equals. -/
def best (worse : α → α → Bool) : List α → Option α
  | [] => none
  | value :: values =>
      match best worse values with
      | none => some value
      | some other => if worse other value then some value else some other

theorem best_eq_none {worse : α → α → Bool} {values : List α}
    (none : best worse values = none) : values = [] := by
  cases values with
  | nil => rfl
  | cons value values =>
      unfold best at none
      split at none
      · cases none
      · split_ifs at none

theorem best_mem {worse : α → α → Bool} {values : List α} {value : α}
    (found : best worse values = some value) : value ∈ values := by
  induction values generalizing value with
  | nil => cases found
  | cons first rest ih =>
      unfold best at found
      split at found
      · cases found
        exact List.mem_cons_self
      · rename_i later
        split_ifs at found
        · cases found
          exact List.mem_cons_self
        · cases found
          exact List.mem_cons_of_mem _ (ih later)

/-- No other value beats it. -/
theorem rank_le_best [LinearOrder κ] {worse : α → α → Bool} {rank : α → κ}
    (ranks : ∀ left right, worse left right ↔ rank left < rank right)
    {values : List α} {value : α} (found : best worse values = some value) :
    ∀ other ∈ values, rank other ≤ rank value := by
  induction values generalizing value with
  | nil => cases found
  | cons first rest ih =>
      unfold best at found
      rw [List.forall_mem_cons]
      cases later : best worse rest with
      | none =>
          rw [later] at found
          cases found
          rw [best_eq_none later]
          exact ⟨le_rfl, nofun⟩
      | some champion =>
          have beats := ih later
          rw [later] at found
          dsimp only at found
          split_ifs at found with less
          · cases found
            rw [ranks] at less
            exact ⟨le_rfl, fun other within =>
              (beats other within).trans less.le⟩
          · cases found
            rw [ranks] at less
            exact ⟨not_lt.mp less, beats⟩

end PrivateDatagram.Library.Ranking
