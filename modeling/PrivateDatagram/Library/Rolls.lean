import Mathlib.Data.List.Nodup
import Std.Data.ExtTreeMap

/-!
# Rolls

A roll has one entry for each of its members, and each entry a count.
Entries come and go one by one; a map of rolls gives up a roll with its last
entry.
-/

namespace PrivateDatagram.Library.Rolls

variable {α κ : Type} (member : α → κ) (count : α → Int)

/-- Some members, none of them twice, and no count above the limit. -/
structure Roll (limit : Int) (entries : List α) : Prop where
  occupied : entries ≠ []
  nodup : (entries.map member).Nodup
  bounded : ∀ entry ∈ entries, count entry ≤ limit

/-- Change the first entry of a member. -/
def changeFirst [DecidableEq κ] (key : κ) (change : α → α) :
    List α → List α
  | [] => []
  | entry :: entries =>
      if member entry = key then
        change entry :: entries
      else
        entry :: changeFirst key change entries

variable {member count}

section Entries

variable {limit : Int} {entries : List α}

theorem Roll.single {entry : α} (bounded : count entry ≤ limit) :
    Roll member count limit [entry] where
  occupied := List.cons_ne_nil _ _
  nodup := List.nodup_singleton _
  bounded := by
    intro other here
    rw [List.mem_singleton.mp here]
    exact bounded

theorem Roll.append (roll : Roll member count limit entries) {entry : α}
    (new : ∀ other ∈ entries, member other ≠ member entry)
    (bounded : count entry ≤ limit) :
    Roll member count limit (entries ++ [entry]) where
  occupied := List.append_ne_nil_of_right_ne_nil _ (List.cons_ne_nil _ _)
  nodup := by
    rw [List.map_append, List.nodup_append]
    refine ⟨roll.nodup, List.nodup_singleton _, ?_⟩
    intro left leftIn right rightIn
    obtain ⟨other, otherIn, rfl⟩ := List.mem_map.mp leftIn
    rw [List.map_singleton, List.mem_singleton] at rightIn
    rw [rightIn]
    exact new other otherIn
  bounded := by
    intro other here
    rcases List.mem_append.mp here with old | added
    · exact roll.bounded other old
    · rw [List.mem_singleton.mp added]
      exact bounded

/-- Entries are left out, as long as one stays. -/
theorem Roll.sublist (roll : Roll member count limit entries)
    {kept : List α} (sublist : kept.Sublist entries)
    (occupied : kept ≠ []) : Roll member count limit kept where
  occupied := occupied
  nodup := roll.nodup.sublist (sublist.map member)
  bounded entry here := roll.bounded entry (sublist.subset here)

variable [DecidableEq κ] {change : α → α}

theorem map_member_changeFirst
    (same : ∀ entry, member (change entry) = member entry) (key : κ)
    (entries : List α) :
    (changeFirst member key change entries).map member =
      entries.map member := by
  induction entries with
  | nil => rfl
  | cons entry entries ih =>
      rw [changeFirst]
      split_ifs
      · rw [List.map_cons, same, List.map_cons]
      · rw [List.map_cons, ih, List.map_cons]

/-- Only the entry that a search finds is changed. -/
theorem mem_changeFirst {key : κ} {other : α}
    (here : other ∈ changeFirst member key change entries) :
    other ∈ entries ∨
      ∃ entry, entries.find? (fun entry => member entry = key) =
        some entry ∧ other = change entry := by
  induction entries with
  | nil => cases here
  | cons entry entries ih =>
      rw [changeFirst] at here
      split_ifs at here with first
      · rcases List.mem_cons.mp here with changed | here
        · refine .inr ⟨entry, ?_, changed⟩
          exact List.find?_cons_of_pos (by simpa using first)
        · exact .inl (List.mem_cons_of_mem _ here)
      · rcases List.mem_cons.mp here with head | here
        · exact .inl (head ▸ List.mem_cons_self)
        · rcases ih here with old | ⟨found, search, changed⟩
          · exact .inl (List.mem_cons_of_mem _ old)
          · refine .inr ⟨found, ?_, changed⟩
            rw [List.find?_cons_of_neg (by simpa using first)]
            exact search

theorem Roll.changeFirst (roll : Roll member count limit entries)
    (same : ∀ entry, member (change entry) = member entry) {key : κ}
    {entry : α}
    (found : entries.find? (fun entry => member entry = key) = some entry)
    (bounded : count (change entry) ≤ limit) :
    Roll member count limit (changeFirst member key change entries) where
  occupied := by
    intro empty
    have names := map_member_changeFirst same key entries
    rw [empty] at names
    exact roll.occupied (List.map_eq_nil_iff.mp names.symm)
  nodup := by
    rw [map_member_changeFirst same]
    exact roll.nodup
  bounded := by
    intro other here
    rcases mem_changeFirst here with old | ⟨first, search, rfl⟩
    · exact roll.bounded other old
    · rw [found] at search
      cases search
      exact bounded

end Entries

/-! ## Maps -/

section Maps

variable {β γ : Type} [Ord β] [Std.TransOrd β]

/-- All values of a map have the property. -/
def Every (property : γ → Prop) (map : Std.ExtTreeMap β γ) : Prop :=
  ∀ (key : β) (value : γ), map[key]? = some value → property value

variable {property : γ → Prop} {map : Std.ExtTreeMap β γ}

theorem every_empty : Every property (∅ : Std.ExtTreeMap β γ) := by
  intro key value found
  rw [Std.ExtTreeMap.getElem?_empty] at found
  cases found

theorem Every.insert (every : Every property map) (key : β) {value : γ}
    (holds : property value) : Every property (map.insert key value) := by
  intro other found here
  rw [Std.ExtTreeMap.getElem?_insert] at here
  split_ifs at here
  · cases here
    exact holds
  · exact every other found here

theorem Every.erase (every : Every property map) (key : β) :
    Every property (map.erase key) := by
  intro other found here
  rw [Std.ExtTreeMap.getElem?_erase] at here
  split_ifs at here
  exact every other found here

theorem Every.filterMap [Std.LawfulEqOrd β] (every : Every property map)
    {change : β → γ → Option γ}
    (keeps : ∀ key value changed, property value →
      change key value = some changed → property changed) :
    Every property (map.filterMap change) := by
  intro key found here
  rw [Std.ExtTreeMap.getElem?_filterMap', Option.bind_eq_some_iff] at here
  obtain ⟨value, stored, changed⟩ := here
  exact keeps key value found (every key value stored) changed

end Maps

end PrivateDatagram.Library.Rolls
