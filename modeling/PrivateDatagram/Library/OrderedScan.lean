import Mathlib.Data.List.Pairwise
import Mathlib.Order.Lattice

/-!
# Scanning an ordered list

A list is scanned for the value with the least key.  Values that stand early
enough are inside; the scan ends at the first one outside, but it takes the
first value in any case.  So it finds the least of the values inside, the
first one among equals, and the first value of all when none is inside.
-/

namespace PrivateDatagram.Library.OrderedScan

variable {α κ : Type*} [LinearOrder κ]

/-- The scan, with the value found so far. -/
def scan (key : α → κ) (inside : α → Prop) [DecidablePred inside] :
    Option α → List α → Option α
  | best, [] => best
  | none, value :: values => scan key inside (some value) values
  | some best, value :: values =>
      if inside value then
        scan key inside (some (if key value < key best then value else best))
          values
      else
        some best

/-- The choice out of a set of values: the least of those inside, the earlier
one of equals, or the earliest of all. -/
structure Chosen (earlier : α → α → Prop) (key : α → κ) (inside : α → Prop)
    (values : Set α) (choice : α) : Prop where
  member : choice ∈ values
  least : (∃ other ∈ values, inside other) → inside choice ∧
    ∀ other ∈ values, inside other → key choice < key other ∨
      key choice = key other ∧ (choice = other ∨ earlier choice other)
  earliest : (∀ other ∈ values, ¬ inside other) →
    ∀ other ∈ values, choice = other ∨ earlier choice other

section Scan

variable {key : α → κ} {inside : α → Prop} [DecidablePred inside]
  {earlier : α → α → Prop} {best choice : α} {values : List α}

/-- What is outside does not matter once something has been found. -/
theorem scan_outside (outside : ∀ value ∈ values, ¬ inside value) :
    scan key inside (some best) values = some best := by
  cases values with
  | nil => rfl
  | cons value values =>
      rw [List.forall_mem_cons] at outside
      rw [scan, if_neg outside.1]

/-- What is not behind the best value is not behind a later one either that
is not below the best. -/
theorem notBehind_of_notLess (key : α → κ) {choice best value : α}
    (first : key choice < key best ∨
      key choice = key best ∧ (choice = best ∨ earlier choice best))
    (notLess : ¬ key value < key best)
    (before : choice = best ∨ earlier choice best → earlier choice value) :
    key choice < key value ∨
      key choice = key value ∧ (choice = value ∨ earlier choice value) := by
  rcases first with below | ⟨same, order⟩
  · exact .inl (below.trans_le (not_lt.mp notLess))
  · rcases (same.trans_le (not_lt.mp notLess)).lt_or_eq with below | equal
    · exact .inl below
    · exact .inr ⟨equal, .inr (before order)⟩

/-- A scan that has found something finds the least of it and what is inside,
the first of equals. -/
theorem scan_some_least (key : α → κ)
    (ordered : (best :: values).Pairwise earlier)
    (asymm : ∀ first second, earlier first second → ¬ earlier second first)
    (closed : ∀ first second, earlier first second → inside second →
      inside first)
    (found : inside best) :
    ∃ choice, scan key inside (some best) values = some choice ∧
      choice ∈ best :: values ∧ inside choice ∧
      ∀ other ∈ best :: values, inside other → key choice < key other ∨
        key choice = key other ∧ (choice = other ∨ earlier choice other) := by
  induction values generalizing best with
  | nil =>
      refine ⟨best, rfl, List.mem_singleton_self best, found, ?_⟩
      intro other member _
      rw [List.mem_singleton.mp member]
      exact .inr ⟨rfl, .inl rfl⟩
  | cons value values ih =>
      rw [List.pairwise_cons, List.forall_mem_cons, List.pairwise_cons]
        at ordered
      rcases ordered with ⟨⟨before, beforeRest⟩, valueBefore, rest⟩
      by_cases next : inside value
      · by_cases less : key value < key best
        · rcases ih (List.pairwise_cons.mpr ⟨valueBefore, rest⟩) next with
            ⟨choice, scanned, member, isInside, least⟩
          refine ⟨choice, ?_, List.mem_cons_of_mem _ member, isInside, ?_⟩
          · rw [scan, if_pos next, if_pos less]
            exact scanned
          · intro other here insideOther
            rcases List.mem_cons.mp here with rfl | later
            · rcases least value List.mem_cons_self next with below | same
              · exact .inl (below.trans less)
              · exact .inl (same.1 ▸ less)
            · exact least other later insideOther
        · rcases ih (List.pairwise_cons.mpr ⟨beforeRest, rest⟩) found with
            ⟨choice, scanned, member, isInside, least⟩
          have first := least best List.mem_cons_self found
          refine ⟨choice, ?_, ?_, isInside, ?_⟩
          · rw [scan, if_pos next, if_neg less]
            exact scanned
          · rcases List.mem_cons.mp member with rfl | later
            · exact List.mem_cons_self
            · exact List.mem_cons_of_mem _ (List.mem_cons_of_mem _ later)
          · intro other here insideOther
            rcases List.mem_cons.mp here with rfl | here
            · exact first
            rcases List.mem_cons.mp here with rfl | later
            · -- The new value is not below the best one so far.
              refine notBehind_of_notLess key first less fun order => ?_
              rcases order with rfl | order
              · exact before
              · rcases List.mem_cons.mp member with rfl | later
                · exact before
                · exact absurd order (asymm _ _ (beforeRest _ later))
            · exact least other (List.mem_cons_of_mem _ later) insideOther
      · refine ⟨best, ?_, List.mem_cons_self, found, ?_⟩
        · rw [scan, if_neg next]
        · intro other here insideOther
          rcases List.mem_cons.mp here with rfl | here
          · exact .inr ⟨rfl, .inl rfl⟩
          rcases List.mem_cons.mp here with rfl | later
          · exact absurd insideOther next
          · exact absurd (closed _ _ (valueBefore _ later) insideOther) next

/-- A scan finds the choice out of an ordered list. -/
theorem scan_chosen (key : α → κ) (ordered : values.Pairwise earlier)
    (asymm : ∀ first second, earlier first second → ¬ earlier second first)
    (closed : ∀ first second, earlier first second → inside second →
      inside first)
    (nonempty : values ≠ []) :
    ∃ choice, scan key inside none values = some choice ∧
      Chosen earlier key inside {value | value ∈ values} choice := by
  cases values with
  | nil => exact absurd rfl nonempty
  | cons value values =>
      have before := (List.pairwise_cons.mp ordered).1
      by_cases found : inside value
      · rcases scan_some_least key ordered asymm closed found with
          ⟨choice, scanned, member, isInside, least⟩
        refine ⟨choice, scanned, member, fun _ => ⟨isInside, least⟩, ?_⟩
        intro outside
        exact absurd found (outside value List.mem_cons_self)
      · have outside : ∀ other ∈ value :: values, ¬ inside other := by
          rw [List.forall_mem_cons]
          exact ⟨found, fun other later isInside =>
            found (closed _ _ (before other later) isInside)⟩
        refine ⟨value, ?_, List.mem_cons_self, ?_, ?_⟩
        · exact scan_outside (List.forall_mem_cons.mp outside).2
        · rintro ⟨other, member, isInside⟩
          exact absurd isInside (outside other member)
        · intro _ other member
          rcases List.mem_cons.mp member with rfl | later
          · exact .inl rfl
          · exact .inr (before other later)

end Scan

end PrivateDatagram.Library.OrderedScan
