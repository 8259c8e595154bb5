import Mathlib.Data.List.Nodup
import Mathlib.Order.Lattice

/-!
# Ordered stores

A store of values under keys that are kept in ascending order, with an iterator
that starts at a key.  What the iterator finds before it leaves a class of keys
is the part of the store in that class, where no key of another class lies
between two keys of the class.
-/

namespace PrivateDatagram.Library.OrderedStore

variable {K V : Type} [LinearOrder K]

structure Store (K V : Type) [LinearOrder K] where
  entries : List (K × V)
  ascending : entries.Pairwise fun entry other => entry.1 < other.1

namespace Store

def get (key : K) (store : Store K V) : Option V :=
  (store.entries.find? fun entry => entry.1 = key).map Prod.snd

def erase (key : K) (store : Store K V) : Store K V where
  entries := store.entries.filter fun entry => entry.1 ≠ key
  ascending := store.ascending.filter _

def put (key : K) (value : V) (store : Store K V) : Store K V where
  entries := store.entries.filter (fun entry => entry.1 < key) ++
    (key, value) :: store.entries.filter fun entry => key < entry.1
  ascending := by
    rw [List.pairwise_append]
    refine ⟨store.ascending.filter _, ?_, ?_⟩
    · rw [List.pairwise_cons]
      refine ⟨fun entry here => ?_, store.ascending.filter _⟩
      simpa using (List.mem_filter.mp here).2
    · intro entry low other high
      have below : entry.1 < key := by simpa using (List.mem_filter.mp low).2
      rcases List.mem_cons.mp high with rfl | above
      · exact below
      · exact below.trans (by simpa using (List.mem_filter.mp above).2)

/-- The entries that an iterator passes after `Seek`. -/
def seek (key : K) (store : Store K V) : List (K × V) :=
  store.entries.dropWhile fun entry => entry.1 < key

theorem mem_entries_iff {store : Store K V} {key : K} {value : V} :
    (key, value) ∈ store.entries ↔ store.get key = some value := by
  unfold get
  constructor
  · intro here
    cases found : store.entries.find? fun entry => decide (entry.1 = key) with
    | none =>
        have differ := List.find?_eq_none.mp found _ here
        simp at differ
    | some entry =>
        have same := List.find?_some found
        rw [decide_eq_true_eq] at same
        have distinct : (store.entries.map Prod.fst).Nodup :=
          List.pairwise_map.mpr (store.ascending.imp ne_of_lt)
        have equal := List.inj_on_of_nodup_map distinct
          (List.mem_of_find?_eq_some found) here same
        rw [equal]
        rfl
  · intro found
    rcases Option.map_eq_some_iff.mp found with ⟨entry, here, rfl⟩
    have same := List.find?_some here
    rw [decide_eq_true_eq] at same
    rw [← same]
    exact List.mem_of_find?_eq_some here

/-- Stores that hold the same entries under a key. -/
theorem get_congr {store other : Store K V} {key : K}
    (same : ∀ value, (key, value) ∈ store.entries ↔
      (key, value) ∈ other.entries) : store.get key = other.get key := by
  apply Option.ext
  intro value
  rw [← mem_entries_iff, ← mem_entries_iff]
  exact same value

@[simp]
theorem get_erase_self (key : K) (store : Store K V) :
    (store.erase key).get key = none := by
  rw [Option.eq_none_iff_forall_ne_some]
  intro value found
  have here := mem_entries_iff.mpr found
  simpa using (List.mem_filter.mp here).2

theorem get_erase_of_ne {key other : K} (differ : other ≠ key)
    (store : Store K V) : (store.erase key).get other = store.get other := by
  apply get_congr
  intro value
  simp [erase, differ]

/-- Erasing some keys one by one. -/
theorem get_foldl_erase {ι : Type} (keyOf : ι → K) (items : List ι) (key : K)
    (store : Store K V) :
    (items.foldl (fun store item => store.erase (keyOf item)) store).get key =
      if key ∈ items.map keyOf then none else store.get key := by
  induction items generalizing store with
  | nil => simp
  | cons item rest ih =>
      rw [List.foldl_cons, ih, List.map_cons]
      by_cases same : key = keyOf item
      · simp [same]
      · rw [get_erase_of_ne same]
        simp [same]

/-! ## Iterating -/

variable {α : Type} {r : α → α → Prop} {p : α → Bool}

/-- Whatever comes before an element of the class is in the class as well. -/
def Closed (r : α → α → Prop) (p : α → Bool) (entries : List α) : Prop :=
  ∀ entry ∈ entries, ∀ other ∈ entries, r entry other →
    p other = true → p entry = true

theorem Closed.tail {entry : α} {rest : List α}
    (closed : Closed r p (entry :: rest)) : Closed r p rest :=
  fun first here second there =>
    closed first (List.mem_cons_of_mem _ here) second
      (List.mem_cons_of_mem _ there)

/-- Once the class is left it is not entered again. -/
theorem Closed.left {entry : α} {rest : List α}
    (closed : Closed r p (entry :: rest))
    (before : ∀ other ∈ rest, r entry other) (outside : ¬ p entry = true) :
    ∀ other ∈ rest, ¬ p other = true :=
  fun other here inside => outside
    (closed entry List.mem_cons_self other (List.mem_cons_of_mem _ here)
      (before other here) inside)

theorem takeWhile_eq_filter {entries : List α} (sorted : entries.Pairwise r)
    (closed : Closed r p entries) :
    entries.takeWhile p = entries.filter p := by
  induction entries with
  | nil => rfl
  | cons entry rest ih =>
      rw [List.pairwise_cons] at sorted
      by_cases inside : p entry = true
      · rw [List.takeWhile_cons_of_pos inside, List.filter_cons_of_pos inside,
          ih sorted.2 closed.tail]
      · rw [List.takeWhile_cons_of_neg inside, List.filter_cons_of_neg inside,
          List.filter_eq_nil_iff.mpr (closed.left sorted.1 inside)]

theorem dropWhile_eq_filter {entries : List α} (sorted : entries.Pairwise r)
    (closed : Closed r p entries) :
    entries.dropWhile p = entries.filter fun entry => !p entry := by
  induction entries with
  | nil => rfl
  | cons entry rest ih =>
      rw [List.pairwise_cons] at sorted
      by_cases inside : p entry = true
      · rw [List.dropWhile_cons_of_pos inside,
          List.filter_cons_of_neg (by simp [inside]), ih sorted.2 closed.tail]
      · rw [List.dropWhile_cons_of_neg inside, eq_comm,
          List.filter_eq_self]
        intro other here
        rcases List.mem_cons.mp here with rfl | later
        · simp [inside]
        · simp [closed.left sorted.1 inside other later]

theorem seek_eq_filter (key : K) (store : Store K V) :
    store.seek key = store.entries.filter fun entry => key ≤ entry.1 := by
  unfold seek
  rw [dropWhile_eq_filter store.ascending]
  · simp only [← decide_not, not_lt]
  · intro entry _ other _ less below
    rw [decide_eq_true_eq] at below ⊢
    exact less.trans below

/-- What an iterator passes while it is in a class of keys. -/
theorem seek_takeWhile_eq_filter (key : K) (store : Store K V)
    {within : K → Bool}
    (convex : ∀ first second, key ≤ first → first < second →
      within second = true → within first = true) :
    (store.seek key).takeWhile (fun entry => within entry.1) =
      store.entries.filter fun entry => key ≤ entry.1 && within entry.1 := by
  rw [seek_eq_filter, takeWhile_eq_filter (store.ascending.filter _)]
  · rw [List.filter_filter]
    simp only [Bool.and_comm]
  · intro entry here other _ less inside
    have above := (List.mem_filter.mp here).2
    rw [decide_eq_true_eq] at above
    exact convex _ _ above less inside

end Store

end PrivateDatagram.Library.OrderedStore
