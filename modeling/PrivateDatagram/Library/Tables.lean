import Mathlib.Data.List.Nodup

/-!
# Tables

A table of values at finitely many places, which are changed one by one, and
how often a value occurs in it.
-/

namespace PrivateDatagram.Library.Tables

variable {ι α : Type}

/-- Two conditions that differ at one member of a list. -/
theorem countP_differing {places : List ι} (nodup : places.Nodup)
    {place : ι} (member : place ∈ places) {p q : ι → Bool}
    (elsewhere : ∀ other, other ≠ place → p other = q other) :
    places.countP p + (q place).toNat = places.countP q + (p place).toNat := by
  induction places with
  | nil => cases member
  | cons first rest ih =>
      obtain ⟨notLater, nodup⟩ := List.nodup_cons.mp nodup
      rw [List.countP_cons, List.countP_cons]
      rcases List.mem_cons.mp member with rfl | later
      · have same : rest.countP p = rest.countP q := by
          apply List.countP_congr
          intro other here
          rw [elsewhere other fun equal => notLater (equal ▸ here)]
        rw [same]
        cases p place <;> cases q place <;> simp
      · have apart : first ≠ place := fun equal => notLater (equal ▸ later)
        have step := ih nodup later
        rw [elsewhere first apart]
        omega

/-- Another list of the members that meet a condition. -/
theorem length_eq_countP {members places : List α} (distinct : members.Nodup)
    (nodup : places.Nodup) {p : α → Bool}
    (same : ∀ value, value ∈ members ↔ value ∈ places ∧ p value) :
    members.length = places.countP p := by
  rw [List.countP_eq_length_filter]
  refine List.Perm.length_eq ?_
  rw [List.perm_ext_iff_of_nodup distinct (nodup.filter p)]
  intro value
  rw [same, List.mem_filter]

variable [DecidableEq α]

/-- How often a value is in a table. -/
def occurrences (places : List ι) (table : ι → α) (value : α) : Nat :=
  places.countP fun place => table place = value

theorem occurrences_eq_zero {places : List ι} {table : ι → α} {value : α}
    (absent : ∀ place, table place ≠ value) :
    occurrences places table value = 0 := by
  rw [occurrences, List.countP_eq_zero]
  intro place _
  simpa using absent place

theorem occurrences_pos {places : List ι} {table : ι → α} {place : ι}
    (member : place ∈ places) :
    0 < occurrences places table (table place) := by
  rw [occurrences, List.countP_pos_iff]
  exact ⟨place, member, decide_eq_true rfl⟩

variable [DecidableEq ι]

/-- A value that comes to a place that had another one. -/
theorem occurrences_put {places : List ι} (nodup : places.Nodup)
    {place : ι} (member : place ∈ places) (table : ι → α) {value : α}
    (new : table place ≠ value) :
    occurrences places (Function.update table place value) value =
      occurrences places table value + 1 := by
  have counted := countP_differing nodup member
    (p := fun other => decide (Function.update table place value other = value))
    (q := fun other => decide (table other = value)) (by
      intro other apart
      rw [Function.update_of_ne apart])
  simpa [occurrences, new] using counted

/-- A value that leaves a place for another one. -/
theorem occurrences_take {places : List ι} (nodup : places.Nodup)
    {place : ι} (member : place ∈ places) (table : ι → α) {value : α}
    (other : value ≠ table place) :
    occurrences places (Function.update table place value) (table place) + 1 =
      occurrences places table (table place) := by
  have counted := countP_differing nodup member
    (p := fun here =>
      decide (Function.update table place value here = table place))
    (q := fun here => decide (table here = table place)) (by
      intro here apart
      rw [Function.update_of_ne apart])
  simpa [occurrences, other] using counted

/-- Any other value. -/
theorem occurrences_update_of_ne {places : List ι} {place : ι}
    {table : ι → α} {value other : α} (new : value ≠ other)
    (old : table place ≠ other) :
    occurrences places (Function.update table place value) other =
      occurrences places table other := by
  unfold occurrences
  apply List.countP_congr
  intro here _
  by_cases same : here = place
  · rw [same, Function.update_self, decide_eq_false new, decide_eq_false old]
  · rw [Function.update_of_ne same]

end PrivateDatagram.Library.Tables
