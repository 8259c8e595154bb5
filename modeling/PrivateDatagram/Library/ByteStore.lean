import PrivateDatagram.Library.ByteFormat

/-!
# Byte arrays that are written in place

A file is a list of bytes that can be overwritten at an offset, extended with
zeros and truncated.  `StoredAt` says that certain bytes stand at an offset;
the lemmas below say which operations keep them there.  Two extents that do
not overlap cannot disturb one another.
-/

namespace PrivateDatagram.Library.ByteStore

open ByteFormat

/-- Lengthen to `size` bytes with zeros; never shortens. -/
def extendTo (size : Nat) (content : Bytes) : Bytes :=
  content ++ List.replicate (size - content.length) 0

/-- Make the content exactly `size` bytes long. -/
def truncateTo (size : Nat) (content : Bytes) : Bytes :=
  (extendTo size content).take size

/-- Write `data` at `offset`, filling a gap before it with zeros. -/
def overwrite (offset : Nat) (data content : Bytes) : Bytes :=
  truncateTo offset content ++ data ++ content.drop (offset + data.length)

/-- These bytes stand at this offset. -/
def StoredAt (content : Bytes) (offset : Nat) (data : Bytes) : Prop :=
  ∀ index < data.length, content[offset + index]? = data[index]?

/-! ## Reading single bytes -/

theorem getElem?_extendTo {size index : Nat} {content : Bytes}
    (inside : index < content.length) :
    (extendTo size content)[index]? = content[index]? := by
  rw [extendTo, List.getElem?_append_left inside]

theorem getElem?_truncateTo {size index : Nat} {content : Bytes}
    (inside : index < content.length) (kept : index < size) :
    (truncateTo size content)[index]? = content[index]? := by
  rw [truncateTo, List.getElem?_take, if_pos kept,
    getElem?_extendTo inside]

@[simp]
theorem length_truncateTo (size : Nat) (content : Bytes) :
    (truncateTo size content).length = size := by
  simp only [truncateTo, extendTo, List.length_take, List.length_append,
    List.length_replicate]
  omega

theorem getElem?_overwrite_before {offset index : Nat} {data content : Bytes}
    (inside : index < content.length) (before : index < offset) :
    (overwrite offset data content)[index]? = content[index]? := by
  rw [overwrite, List.append_assoc, List.getElem?_append_left (by simpa),
    getElem?_truncateTo inside before]

theorem getElem?_overwrite_inside {offset index : Nat}
    {data content : Bytes} (inside : index < data.length) :
    (overwrite offset data content)[offset + index]? = data[index]? := by
  rw [overwrite, List.append_assoc, List.getElem?_append_right (by simp),
    List.getElem?_append_left (by simpa)]
  simp

theorem getElem?_overwrite_after {offset index : Nat} {data content : Bytes}
    (after : offset + data.length ≤ index) :
    (overwrite offset data content)[index]? = content[index]? := by
  rw [overwrite, List.getElem?_append_right (by simpa using after),
    List.getElem?_drop]
  simp only [List.length_append, length_truncateTo]
  congr 1
  omega

/-! ## What stays where it is -/

namespace StoredAt

theorem lt_length {content data : Bytes} {offset index : Nat}
    (stored : StoredAt content offset data) (inside : index < data.length) :
    offset + index < content.length := by
  have here := stored index inside
  rw [List.getElem?_eq_getElem inside] at here
  exact (List.getElem?_eq_some_iff.mp here).1

/-- Stored bytes are what a reader at the offset finds first. -/
theorem drop_eq {content data : Bytes} {offset : Nat}
    (stored : StoredAt content offset data) :
    content.drop offset =
      data ++ content.drop (offset + data.length) := by
  apply List.ext_getElem?
  intro index
  rw [List.getElem?_drop]
  by_cases inside : index < data.length
  · rw [stored index inside, List.getElem?_append_left inside]
  · rw [List.getElem?_append_right (Nat.not_lt.mp inside),
      List.getElem?_drop]
    congr 1
    omega

theorem extendTo {content data : Bytes} {offset : Nat}
    (stored : StoredAt content offset data) (size : Nat) :
    StoredAt (extendTo size content) offset data := by
  intro index inside
  rw [getElem?_extendTo (stored.lt_length inside)]
  exact stored index inside

theorem truncateTo {content data : Bytes} {offset size : Nat}
    (stored : StoredAt content offset data)
    (kept : offset + data.length ≤ size) :
    StoredAt (truncateTo size content) offset data := by
  intro index inside
  rw [getElem?_truncateTo (stored.lt_length inside) (by omega)]
  exact stored index inside

/-- Writing beside stored bytes leaves them alone. -/
theorem overwrite_disjoint {content data written : Bytes}
    {offset position : Nat} (stored : StoredAt content offset data)
    (disjoint :
      offset + data.length ≤ position ∨
        position + written.length ≤ offset) :
    StoredAt (overwrite position written content) offset data := by
  intro index inside
  rcases disjoint with before | after
  · rw [getElem?_overwrite_before (stored.lt_length inside) (by omega)]
    exact stored index inside
  · rw [getElem?_overwrite_after (by omega)]
    exact stored index inside

/-- Rewriting the first bytes of what is stored keeps the others. -/
theorem overwrite_front {content front behind written : Bytes}
    {offset : Nat} (stored : StoredAt content offset (front ++ behind))
    (sameLength : written.length = front.length) :
    StoredAt (overwrite offset written content) offset
      (written ++ behind) := by
  intro index inside
  by_cases inFront : index < written.length
  · rw [getElem?_overwrite_inside inFront,
      List.getElem?_append_left inFront]
  · rw [List.length_append] at inside
    have found := stored index (by rw [List.length_append]; omega)
    rw [getElem?_overwrite_after (by omega), found,
      List.getElem?_append_right (by omega),
      List.getElem?_append_right (by omega), sameLength]

end StoredAt

theorem storedAt_overwrite (offset : Nat) (data content : Bytes) :
    StoredAt (overwrite offset data content) offset data := by
  intro index inside
  exact getElem?_overwrite_inside inside

end PrivateDatagram.Library.ByteStore
