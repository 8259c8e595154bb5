import Mathlib.Data.List.Basic

/-!
# Buffers with checked access

A buffer has a fixed size.  Its elements are loaded from an index on, and
stored from the start on.  An access that leaves the buffer gives nothing.
-/

namespace PrivateDatagram.Library.CheckedBuffer

abbrev Buffer (α : Type) (n : Nat) :=
  {elements : List α // elements.length = n}

variable {α : Type} {n : Nat}

def load (buffer : Buffer α n) (index count : Nat) : Option (List α) :=
  if index + count ≤ n then
    some ((buffer.val.drop index).take count)
  else
    none

def store (buffer : Buffer α n) (elements : List α) :
    Option (Buffer α n) :=
  if fits : elements.length ≤ n then
    some ⟨elements ++ buffer.val.drop elements.length, by
      rw [List.length_append, List.length_drop, buffer.property]
      exact Nat.add_sub_of_le fits⟩
  else
    none

theorem load_inside (buffer : Buffer α n) {count : Nat}
    (inside : count ≤ n) :
    load buffer 0 count = some (buffer.val.take count) := by
  simp [load, inside]

/-- What fits is stored, and all behind it stays. -/
theorem store_inside (buffer : Buffer α n) {elements : List α}
    (inside : elements.length ≤ n) :
    ∃ stored : Buffer α n, store buffer elements = some stored ∧
      stored.val = elements ++ buffer.val.drop elements.length := by
  simp [store, inside]

theorem getElem?_inside (buffer : Buffer α n) {index : Nat}
    (inside : index < n) : ∃ element, buffer.val[index]? = some element := by
  have bound : index < buffer.val.length := by
    rw [buffer.property]
    exact inside
  exact ⟨_, List.getElem?_eq_getElem bound⟩

theorem getElem?_outside (buffer : Buffer α n) {index : Nat}
    (outside : n ≤ index) : buffer.val[index]? = none := by
  apply List.getElem?_eq_none
  rw [buffer.property]
  exact outside

end PrivateDatagram.Library.CheckedBuffer
