import Mathlib.Algebra.Order.Group.Int
import Mathlib.Data.Set.Basic

/-!
# Spaced registers

A register keeps one entry.  A new entry replaces the one it has when it is
later by at least a gap; any other is dropped for good.  What is left after a
series of entries is one of those that no other entry is later than by the
gap, and each of these can be left.
-/

namespace PrivateDatagram.Library.SpacedRegister

variable {α : Type*} (time : α → Int) (gap : Int)

/-- The entry after one more entry has come. -/
def renew (current : Option α) (new : α) : Option α :=
  match current with
  | none => some new
  | some old => if time new - time old < gap then some old else some new

/-- The entry after a series of entries. -/
def final (current : Option α) (entries : List α) : Option α :=
  entries.foldl (renew time gap) current

/-- The entry is later than the one there by the gap. -/
def Fresh (current : Option α) (entry : α) : Prop :=
  ∀ old, current = some old → gap ≤ time entry - time old

/-- A fresh entry that no other fresh one is later than by the gap. -/
structure Last (current : Option α) (entries : Set α) (entry : α) :
    Prop where
  member : entry ∈ entries
  fresh : Fresh time gap current entry
  latest : ∀ other ∈ entries, Fresh time gap current other →
    time other - time entry < gap

variable {time gap}

theorem renew_fresh {current : Option α} {new : α}
    (fresh : Fresh time gap current new) :
    renew time gap current new = some new := by
  unfold renew
  split
  · rfl
  case h_2 old =>
    have later := fresh old rfl
    rw [if_neg (by omega)]

theorem renew_stale {current : Option α} {new : α}
    (stale : ¬ Fresh time gap current new) :
    renew time gap current new = current := by
  unfold renew
  split
  · refine absurd ?_ stale
    intro old impossible
    cases impossible
  case h_2 old =>
    rw [if_pos]
    by_contra later
    apply stale
    intro other same
    cases same
    omega

theorem final_cons (current : Option α) (entry : α) (entries : List α) :
    final time gap current (entry :: entries) =
      final time gap (renew time gap current entry) entries := rfl

theorem final_append (current : Option α) (entries others : List α) :
    final time gap current (entries ++ others) =
      final time gap (final time gap current entries) others :=
  List.foldl_append

/-- What is left is a last entry, or nothing has changed. -/
theorem final_last (positive : 0 < gap) (current : Option α)
    (entries : List α) :
    ((∀ entry ∈ entries, ¬ Fresh time gap current entry) ∧
        final time gap current entries = current) ∨
      ∃ entry, final time gap current entries = some entry ∧
        Last time gap current {entry | entry ∈ entries} entry := by
  induction entries generalizing current with
  | nil =>
      refine .inl ⟨?_, rfl⟩
      intro entry impossible
      cases impossible
  | cons new entries ih =>
      rw [final_cons]
      by_cases fresh : Fresh time gap current new
      · rw [renew_fresh fresh]
        rcases ih (some new) with ⟨stale, same⟩ | ⟨entry, left, last⟩
        · refine .inr ⟨new, same, List.mem_cons_self, fresh, ?_⟩
          intro other here _
          rcases List.mem_cons.mp here with rfl | here
          · omega
          · by_contra later
            refine stale other here ?_
            intro old same
            cases same
            omega
        · have later := last.fresh new rfl
          refine .inr ⟨entry, left, List.mem_cons_of_mem _ last.member,
            ?_, ?_⟩
          · intro old isOld
            have first := fresh old isOld
            omega
          · intro other here _
            rcases List.mem_cons.mp here with rfl | here
            · omega
            · by_cases freshOther : Fresh time gap (some new) other
              · exact last.latest other here freshOther
              · by_contra tooLate
                apply freshOther
                intro old same
                cases same
                omega
      · rw [renew_stale fresh]
        rcases ih current with ⟨stale, same⟩ | ⟨entry, left, last⟩
        · refine .inl ⟨?_, same⟩
          intro other here
          rcases List.mem_cons.mp here with rfl | here
          · exact fresh
          · exact stale other here
        · refine .inr ⟨entry, left, List.mem_cons_of_mem _ last.member,
            last.fresh, ?_⟩
          intro other here freshOther
          rcases List.mem_cons.mp here with rfl | here
          · exact absurd freshOther fresh
          · exact last.latest other here freshOther

/-- No entry at all is later than a last one by the gap. -/
theorem Last.dominates (positive : 0 < gap) {current : Option α}
    {entries : Set α} {entry : α} (last : Last time gap current entries entry) :
    ∀ other ∈ entries, time other - time entry < gap := by
  intro other here
  by_cases fresh : Fresh time gap current other
  · exact last.latest other here fresh
  · by_contra tooLate
    apply fresh
    intro old isOld
    have first := last.fresh old isOld
    omega

theorem final_stays {entry : α} {entries : List α}
    (dominates : ∀ other ∈ entries, time other - time entry < gap) :
    final time gap (some entry) entries = some entry := by
  induction entries with
  | nil => rfl
  | cons new entries ih =>
      have stale : renew time gap (some entry) new = some entry :=
        if_pos (dominates new List.mem_cons_self)
      rw [final_cons, stale]
      exact ih fun other here => dominates other (List.mem_cons_of_mem _ here)

/-- A last entry that comes first is left. -/
theorem Last.final_first (positive : 0 < gap) {current : Option α}
    {entries : Set α} {others : List α} {entry : α}
    (last : Last time gap current entries entry)
    (among : ∀ other ∈ others, other ∈ entries) :
    final time gap current (entry :: others) = some entry := by
  rw [final_cons, renew_fresh last.fresh]
  exact final_stays fun other here =>
    last.dominates positive other (among other here)

/-- With a single last entry the order of the entries does not matter. -/
theorem final_eq_of_single (positive : 0 < gap) {current : Option α}
    {all : Set α} {entries others : List α}
    (allEntries : ∀ entry, entry ∈ entries ↔ entry ∈ all)
    (allOthers : ∀ entry, entry ∈ others ↔ entry ∈ all)
    (single : ∀ entry other, Last time gap current all entry →
      Last time gap current all other → entry = other) :
    final time gap current entries = final time gap current others := by
  have lastOf : ∀ {entries : List α},
      (∀ entry, entry ∈ entries ↔ entry ∈ all) →
        {entry | entry ∈ entries} = all :=
    fun same => Set.ext same
  rcases final_last positive current entries with
    ⟨stale, kept⟩ | ⟨entry, left, last⟩
  · rcases final_last positive current others with
      ⟨_, keptOther⟩ | ⟨other, _, lastOther⟩
    · rw [kept, keptOther]
    · have here :=
        (allEntries other).mpr ((allOthers other).mp lastOther.member)
      exact absurd lastOther.fresh (stale other here)
  · rw [lastOf allEntries] at last
    rcases final_last positive current others with
      ⟨staleOther, _⟩ | ⟨other, leftOther, lastOther⟩
    · exact absurd last.fresh
        (staleOther entry ((allOthers entry).mpr last.member))
    · rw [lastOf allOthers] at lastOther
      rw [left, leftOther]
      exact congrArg some (single entry other last lastOther)

end PrivateDatagram.Library.SpacedRegister
