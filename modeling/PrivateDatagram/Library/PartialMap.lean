import Mathlib.Algebra.BigOperators.Group.List.Basic
import Mathlib.Algebra.GroupWithZero.Nat
import Mathlib.Data.List.AList

/-!
# Partial maps

Maps as functions to `Option`, with loops that erase keys or store entries
one after the other, and sums over the values of association lists.
-/

namespace PrivateDatagram.Library.PartialMap

variable {α β : Type} [DecidableEq α]

/-- Erase the keys. -/
def eraseKeys (keys : List α) (map : α → Option β) : α → Option β :=
  keys.foldl (fun map key => Function.update map key none) map

/-- Store the entries, each over what its key had. -/
def insertAll (entries : List (α × β)) (map : α → Option β) : α → Option β :=
  entries.foldl (fun map entry =>
    Function.update map entry.1 (some entry.2)) map

theorem eraseKeys_apply (keys : List α) (map : α → Option β) (key : α) :
    eraseKeys keys map key = if key ∈ keys then none else map key := by
  unfold eraseKeys
  induction keys generalizing map with
  | nil => simp
  | cons first keys ih =>
      rw [List.foldl_cons, ih, Function.update_apply]
      by_cases here : key = first
      · simp [here]
      · simp [here]

theorem of_eraseKeys {keys : List α} {map : α → Option β} {key : α}
    {value : β} (found : eraseKeys keys map key = some value) :
    key ∉ keys ∧ map key = some value := by
  rw [eraseKeys_apply] at found
  split at found
  case isTrue => cases found
  case isFalse kept => exact ⟨kept, found⟩

theorem insertAll_of_notMem {entries : List (α × β)} {map : α → Option β}
    {key : α} (absent : key ∉ entries.map Prod.fst) :
    insertAll entries map key = map key := by
  unfold insertAll
  induction entries generalizing map with
  | nil => rfl
  | cons entry entries ih =>
      rw [List.map_cons, List.mem_cons, not_or] at absent
      rw [List.foldl_cons, ih absent.2, Function.update_of_ne absent.1]

/-- The value of a key that is stored is that of an entry. -/
theorem insertAll_of_mem {entries : List (α × β)} (map : α → Option β)
    {key : α} (present : key ∈ entries.map Prod.fst) :
    ∃ value, (key, value) ∈ entries ∧
      insertAll entries map key = some value := by
  induction entries generalizing map with
  | nil => cases present
  | cons entry entries ih =>
      by_cases later : key ∈ entries.map Prod.fst
      · obtain ⟨value, member, found⟩ :=
          ih _ later
        exact ⟨value, List.mem_cons_of_mem _ member, found⟩
      · rw [List.map_cons, List.mem_cons, or_iff_left later] at present
        refine ⟨entry.2, present ▸ List.mem_cons_self, ?_⟩
        refine (insertAll_of_notMem later).trans ?_
        rw [present]
        exact Function.update_self ..

/-! ## Association lists -/

theorem of_lookup_erase {map : AList fun _ : α => β}
    {key other : α} {value : β}
    (found : (map.erase key).lookup other = some value) :
    other ≠ key ∧ map.lookup other = some value := by
  by_cases here : other = key
  · rw [here, AList.lookup_erase] at found
    cases found
  · rw [AList.lookup_erase_ne here] at found
    exact ⟨here, found⟩

theorem lookup_insert_eq (map : AList fun _ : α => β) (key other : α)
    (value : β) :
    (map.insert key value).lookup other =
      if other = key then some value else map.lookup other := by
  split_ifs
  case pos here => rw [here, AList.lookup_insert]
  case neg elsewhere => rw [AList.lookup_insert_ne elsewhere]

/-- A property of all values is kept when a value that has it is put. -/
theorem of_lookup_insert {property : β → Prop} {map : AList fun _ : α => β}
    {key : α} {value : β}
    (every : ∀ other found, map.lookup other = some found → property found)
    (holds : property value) :
    ∀ other found, (map.insert key value).lookup other = some found →
      property found := by
  intro other found here
  rw [lookup_insert_eq] at here
  split_ifs at here
  · cases here
    exact holds
  · exact every other found here

theorem perm_erase {map : AList fun _ : α => β} {key : α} {value : β}
    (found : map.lookup key = some value) :
    map.entries.Perm (⟨key, value⟩ :: (map.erase key).entries) := by
  obtain ⟨entries, nodup⟩ := map
  change entries.Perm (⟨key, value⟩ :: List.kerase key entries)
  change List.dlookup key entries = some value at found
  clear nodup
  induction entries with
  | nil => cases found
  | cons entry entries ih =>
      by_cases here : key = entry.1
      · obtain ⟨_, other⟩ := entry
        cases here
        rw [List.dlookup_cons_eq] at found
        cases found
        rw [List.kerase_cons_eq rfl]
      · rw [List.dlookup_cons_ne _ _ here] at found
        rw [List.kerase_cons_ne here]
        exact ((ih found).cons entry).trans (.swap _ _ _)

/-- The sum of a measure over the values of a map. -/
def total (measure : β → ℕ) (map : AList fun _ : α => β) : ℕ :=
  (map.entries.map fun entry => measure entry.2).sum

theorem total_insert_erase (measure : β → ℕ) (map : AList fun _ : α => β)
    (key : α) (value : β) :
    total measure (map.insert key value) =
      total measure (map.erase key) + measure value :=
  Nat.add_comm _ _

theorem total_insert (measure : β → ℕ) {map : AList fun _ : α => β} {key : α}
    (new : map.lookup key = none) (value : β) :
    total measure (map.insert key value) =
      total measure map + measure value := by
  unfold total
  rw [AList.entries_insert_of_notMem (AList.lookup_eq_none.mp new),
    List.map_cons, List.sum_cons, Nat.add_comm]

theorem total_erase (measure : β → ℕ) {map : AList fun _ : α => β} {key : α}
    {value : β} (found : map.lookup key = some value) :
    total measure (map.erase key) + measure value = total measure map := by
  unfold total
  rw [((perm_erase found).map _).sum_eq, List.map_cons, List.sum_cons,
    Nat.add_comm]

end PrivateDatagram.Library.PartialMap
