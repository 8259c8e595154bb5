import Mathlib.Data.List.Nodup
import Std.Data.ExtTreeMap

/-!
# Maps of maps

A value is stored under two keys, in an inner map under the outer key.  An
inner map that becomes empty is taken out, so the outer keys are exactly those
that some value is stored under.  `pairs` lists the keys of all values.
-/

namespace PrivateDatagram.Library.NestedMap

variable {α β γ : Type} [Ord α] [Std.TransOrd α] [Ord β] [Std.TransOrd β]

abbrev Nested (α β γ : Type) [Ord α] [Ord β] :=
  Std.ExtTreeMap α (Std.ExtTreeMap β γ)

/-- The value under both keys. -/
def lookup (map : Nested α β γ) (key : α × β) : Option γ :=
  match map[key.1]? with
  | none => none
  | some inner => inner[key.2]?

/-- Store a value, in a new inner map if need be. -/
def put (key : α × β) (value : γ) (map : Nested α β γ) : Nested α β γ :=
  map.insert key.1 ((map.getD key.1 ∅).insert key.2 value)

/-- Erase a value, and the inner map with its last value. -/
def remove (key : α × β) (map : Nested α β γ) : Nested α β γ :=
  match map[key.1]? with
  | none => map
  | some inner =>
      if (inner.erase key.2).isEmpty then
        map.erase key.1
      else
        map.insert key.1 (inner.erase key.2)

/-- Store a value under each of the keys. -/
def putAll (keys : List (α × β)) (value : γ) (map : Nested α β γ) :
    Nested α β γ :=
  keys.foldl (fun map key => put key value map) map

/-- Erase the values under the keys. -/
def removeAll (keys : List (α × β)) (map : Nested α β γ) : Nested α β γ :=
  keys.foldl (fun map key => remove key map) map

/-- The keys of all values. -/
def pairs (map : Nested α β γ) : List (α × β) :=
  map.toList.flatMap fun entry => entry.2.keys.map (entry.1, ·)

/-- No inner map is empty. -/
def NoEmpty (map : Nested α β γ) : Prop :=
  ∀ (outer : α) (inner : Std.ExtTreeMap β γ), map[outer]? = some inner →
    inner.isEmpty = false

theorem lookup_of_outer {map : Nested α β γ} {key : α × β}
    {inner : Std.ExtTreeMap β γ} (found : map[key.1]? = some inner) :
    lookup map key = inner[key.2]? := by
  rw [lookup, found]

theorem mem_of_lookup {map : Nested α β γ} {key : α × β}
    (present : (lookup map key).isSome) : key.1 ∈ map := by
  rw [Std.ExtTreeMap.mem_iff_isSome_getElem?]
  unfold lookup at present
  split at present
  · cases present
  case h_2 found =>
    rw [found]
    rfl

theorem lookup_empty (key : α × β) :
    lookup (∅ : Nested α β γ) key = none := by
  rw [lookup, Std.ExtTreeMap.getElem?_empty]

omit [Std.TransOrd β] in
theorem noEmpty_empty : NoEmpty (∅ : Nested α β γ) := by
  intro outer inner found
  simp at found

/-! ## Inner maps -/

theorem NoEmpty.put {map : Nested α β γ} (noEmpty : NoEmpty map)
    (key : α × β) (value : γ) : NoEmpty (put key value map) := by
  intro outer inner found
  rw [NestedMap.put, Std.ExtTreeMap.getElem?_insert] at found
  split_ifs at found
  · cases found
    rw [Std.ExtTreeMap.isEmpty_eq_false_iff]
    exact Std.ExtTreeMap.insert_ne_empty
  · exact noEmpty outer inner found

theorem NoEmpty.remove {map : Nested α β γ} (noEmpty : NoEmpty map)
    (key : α × β) : NoEmpty (remove key map) := by
  unfold NestedMap.remove
  split
  · exact noEmpty
  · split_ifs with last
    · intro outer inner found
      rw [Std.ExtTreeMap.getElem?_erase] at found
      split_ifs at found
      exact noEmpty outer inner found
    · intro outer inner found
      rw [Std.ExtTreeMap.getElem?_insert] at found
      split_ifs at found
      · cases found
        exact Bool.not_eq_true _ ▸ last
      · exact noEmpty outer inner found

theorem NoEmpty.putAll {map : Nested α β γ} (noEmpty : NoEmpty map)
    (keys : List (α × β)) (value : γ) : NoEmpty (putAll keys value map) := by
  induction keys generalizing map with
  | nil => exact noEmpty
  | cons key keys ih => exact ih (noEmpty.put key value)

theorem NoEmpty.removeAll {map : Nested α β γ} (noEmpty : NoEmpty map)
    (keys : List (α × β)) : NoEmpty (removeAll keys map) := by
  induction keys generalizing map with
  | nil => exact noEmpty
  | cons key keys ih => exact ih (noEmpty.remove key)

/-! ## Lookups -/

variable [Std.LawfulEqOrd α] [Std.LawfulEqOrd β]

section Lookups

variable [DecidableEq α] [DecidableEq β]

theorem lookup_put (key other : α × β) (value : γ) (map : Nested α β γ) :
    lookup (put key value map) other =
      if other = key then some value else lookup map other := by
  unfold lookup put
  rw [Std.ExtTreeMap.getElem?_insert]
  by_cases outer : key.1 = other.1
  · rw [if_pos (by simpa using outer)]
    dsimp only
    rw [Std.ExtTreeMap.getElem?_insert, Std.ExtTreeMap.getD_eq_getD_getElem?,
      outer]
    by_cases inner : key.2 = other.2
    · rw [if_pos (by simpa using inner), if_pos (Prod.ext outer inner).symm]
    · rw [if_neg (by simpa using inner), if_neg]
      · cases map[other.1]? <;> simp
      · intro same
        exact inner (congrArg Prod.snd same).symm
  · rw [if_neg (by simpa using outer), if_neg]
    intro same
    exact outer (congrArg Prod.fst same).symm

omit [Std.LawfulEqOrd α] in
/-- A lookup, when only the inner map of one key has changed. -/
theorem lookup_of_erased {key other : α × β} {inner : Std.ExtTreeMap β γ}
    {map map' : Nested α β γ} (found : map[key.1]? = some inner)
    (outside : ∀ outer, outer ≠ key.1 → map'[outer]? = map[outer]?)
    (inside : ∀ other : β,
      lookup map' (key.1, other) = (inner.erase key.2)[other]?) :
    lookup map' other = if other = key then none else lookup map other := by
  rcases other with ⟨outer, other⟩
  by_cases same : outer = key.1
  · have before : lookup map (key.1, other) = inner[other]? :=
      lookup_of_outer found
    rw [same, inside, Std.ExtTreeMap.getElem?_erase, before]
    by_cases last : key.2 = other
    · rw [if_pos (by simpa using last), if_pos (by rw [← last])]
    · rw [if_neg (by simpa using last), if_neg]
      intro equal
      exact last (congrArg Prod.snd equal).symm
  · rw [lookup, outside _ same, if_neg, lookup]
    intro equal
    exact same (congrArg Prod.fst equal)

theorem lookup_remove (key other : α × β) (map : Nested α β γ) :
    lookup (remove key map) other =
      if other = key then none else lookup map other := by
  unfold remove
  cases found : map[key.1]? with
  | none =>
      split_ifs with same
      · rw [same, lookup, found]
      · rfl
  | some inner =>
      apply lookup_of_erased found
      · intro outer apart
        have apart' : ¬compare key.1 outer = .eq := by
          simpa using apart.symm
        dsimp only
        split_ifs
        · rw [Std.ExtTreeMap.getElem?_erase, if_neg apart']
        · rw [Std.ExtTreeMap.getElem?_insert, if_neg apart']
      · intro other
        dsimp only
        split_ifs with last
        · rw [lookup, Std.ExtTreeMap.getElem?_erase_self,
            Std.ExtTreeMap.isEmpty_iff.mp last]
          simp
        · rw [lookup, Std.ExtTreeMap.getElem?_insert_self]

theorem lookup_putAll (keys : List (α × β)) (other : α × β) (value : γ)
    (map : Nested α β γ) :
    lookup (putAll keys value map) other =
      if other ∈ keys then some value else lookup map other := by
  unfold putAll
  induction keys generalizing map with
  | nil => simp
  | cons key keys ih =>
      rw [List.foldl_cons, ih, lookup_put]
      by_cases here : other = key
      · simp [here]
      · simp [here]

theorem lookup_removeAll (keys : List (α × β)) (other : α × β)
    (map : Nested α β γ) :
    lookup (removeAll keys map) other =
      if other ∈ keys then none else lookup map other := by
  unfold removeAll
  induction keys generalizing map with
  | nil => simp
  | cons key keys ih =>
      rw [List.foldl_cons, ih, lookup_remove]
      by_cases here : other = key
      · simp [here]
      · simp [here]

end Lookups

/-- Storing what is there changes nothing. -/
theorem put_lookup {key : α × β} {value : γ} {map : Nested α β γ}
    (found : lookup map key = some value) : put key value map = map := by
  cases outer : map[key.1]? with
  | none =>
      rw [lookup, outer] at found
      cases found
  | some inner =>
      rw [lookup_of_outer outer] at found
      have stays : inner.insert key.2 value = inner := by
        apply Std.ExtTreeMap.ext_getElem?
        intro other
        rw [Std.ExtTreeMap.getElem?_insert]
        split_ifs with same
        · rw [← found, Std.LawfulEqOrd.eq_of_compare same]
        · rfl
      apply Std.ExtTreeMap.ext_getElem?
      intro other
      rw [put, Std.ExtTreeMap.getElem?_insert,
        Std.ExtTreeMap.getD_eq_getD_getElem?, outer]
      dsimp only [Option.getD_some]
      rw [stays]
      split_ifs with same
      · rw [← outer, Std.LawfulEqOrd.eq_of_compare same]
      · rfl

/-! ## The list of keys -/

theorem mem_pairs_iff {map : Nested α β γ} {key : α × β} :
    key ∈ pairs map ↔ (lookup map key).isSome := by
  rw [pairs, List.mem_flatMap]
  constructor
  · rintro ⟨⟨outer, inner⟩, stored, here⟩
    rcases List.mem_map.mp here with ⟨innerKey, isKey, rfl⟩
    rw [Std.ExtTreeMap.mem_toList_iff_getElem?_eq_some] at stored
    rw [lookup_of_outer stored, ← Std.ExtTreeMap.mem_iff_isSome_getElem?]
    exact Std.ExtTreeMap.mem_keys.mp isKey
  · intro present
    cases outer : map[key.1]? with
    | none =>
        rw [lookup, outer] at present
        cases present
    | some inner =>
        rw [lookup_of_outer outer,
          ← Std.ExtTreeMap.mem_iff_isSome_getElem?] at present
        exact ⟨(key.1, inner),
          Std.ExtTreeMap.mem_toList_iff_getElem?_eq_some.mpr outer,
          List.mem_map.mpr
            ⟨key.2, Std.ExtTreeMap.mem_keys.mpr present, rfl⟩⟩

/-- Every key is listed once. -/
theorem nodup_pairs (map : Nested α β γ) : (pairs map).Nodup := by
  rw [pairs, List.nodup_flatMap]
  constructor
  · intro entry _
    apply List.Nodup.map
    · intro left right same
      exact congrArg Prod.snd same
    · exact Std.ExtTreeMap.distinct_keys.imp fun apart same =>
        apart (by rw [same]; exact Std.ReflOrd.compare_self)
  · apply Std.ExtTreeMap.distinct_keys_toList.imp
    intro left right apart key inLeft inRight
    rcases List.mem_map.mp inLeft with ⟨_, _, rfl⟩
    rcases List.mem_map.mp inRight with ⟨_, _, same⟩
    apply apart
    rw [← congrArg Prod.fst same]
    exact Std.ReflOrd.compare_self

end PrivateDatagram.Library.NestedMap
