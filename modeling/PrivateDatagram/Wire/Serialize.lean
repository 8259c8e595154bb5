import PrivateDatagram.Library.ByteFormat

/-!
# The serialization layer

The encodings of `serialize.h` on which every record of the program rests:
native integers in little-endian order, 256-bit and 160-bit numbers, booleans
as one byte, and vectors and strings behind a compact size.

`readCompactSize` refuses both overlong encodings and sizes above `maxSize`;
`writeCompactSize` has neither limit.  A vector that is too long is therefore
written without complaint and can never be read back.
-/

namespace PrivateDatagram.Wire.Serialize

open Library.ByteFormat

abbrev UInt256 := BitVec 256
abbrev UInt160 := BitVec 160

instance : LawfulBEq UInt256 := inferInstance

instance : Std.TransOrd UInt256 := inferInstance

/-! ## Native types -/

def uint256 : Format UInt256 := word 32

def uint160 : Format UInt160 := word 20

def uint32 : Format UInt32 :=
  (word 4).through
    { toFun := UInt32.toBitVec
      invFun := UInt32.ofBitVec
      left_inv := fun _ => rfl
      right_inv := fun _ => rfl }

def uint64 : Format UInt64 :=
  (word 8).through
    { toFun := UInt64.toBitVec
      invFun := UInt64.ofBitVec
      left_inv := fun _ => rfl
      right_inv := fun _ => rfl }

def int32 : Format Int32 :=
  (word 4).through
    { toFun := Int32.toBitVec
      invFun := Int32.ofBitVec
      left_inv := fun _ => rfl
      right_inv := fun _ => rfl }

def int64 : Format Int64 :=
  (word 8).through
    { toFun := Int64.toBitVec
      invFun := Int64.ofBitVec
      left_inv := fun _ => rfl
      right_inv := fun _ => rfl }

theorem uint256_canonical : uint256.Canonical := word_canonical 32

theorem uint160_canonical : uint160.Canonical := word_canonical 20

theorem uint32_canonical : uint32.Canonical :=
  (word_canonical 4).through _

theorem uint64_canonical : uint64.Canonical :=
  (word_canonical 8).through _

theorem int32_canonical : int32.Canonical :=
  (word_canonical 4).through _

theorem int64_canonical : int64.Canonical :=
  (word_canonical 8).through _

/--
A boolean is one byte.  Every non-zero byte reads as `true`, so this format
is lossless and not canonical.
-/
def boolean : Format Bool where
  encode value := littleEndian 1 (if value then 1 else 0)
  decode := do
    let f ← readNumber 1
    pure (decide (f ≠ 0))
  Fits _ := True
  lossless := by
    intro value _
    rw [← List.append_nil (littleEndian 1 _)]
    cases value with
    | false =>
        have zero : Consumes (readNumber 1) (littleEndian 1 0) 0 :=
          readNumber_consumes (by simp)
        exact zero.bind (Consumes.pure false)
    | true =>
        have one : Consumes (readNumber 1) (littleEndian 1 1) 1 :=
          readNumber_consumes (by simp)
        exact one.bind (Consumes.pure true)

/-! ## Compact sizes -/

/-- `MAX_SIZE`: the largest size `ReadCompactSize` returns. -/
def maxSize : Nat := 0x02000000

def writeCompactSize (nSize : Nat) : Bytes :=
  if nSize < 253 then
    littleEndian 1 nSize
  else if nSize ≤ 0xffff then
    littleEndian 1 253 ++ littleEndian 2 nSize
  else if nSize ≤ 0xffffffff then
    littleEndian 1 254 ++ littleEndian 4 nSize
  else
    littleEndian 1 255 ++ littleEndian 8 nSize

/-- The size announced by the prefix byte, before the limit is applied. -/
def readCompactSizeAfter (chSize : Nat) : Decoder Nat :=
  if chSize < 253 then
    pure chSize
  else if chSize = 253 then do
    let xSize ← readNumber 2
    if xSize < 253 then refuse "non-canonical ReadCompactSize()"
    else pure xSize
  else if chSize = 254 then do
    let xSize ← readNumber 4
    if xSize < 0x10000 then refuse "non-canonical ReadCompactSize()"
    else pure xSize
  else do
    let xSize ← readNumber 8
    if xSize < 0x100000000 then refuse "non-canonical ReadCompactSize()"
    else pure xSize

def readUnlimitedCompactSize : Decoder Nat := do
  let chSize ← readNumber 1
  readCompactSizeAfter chSize

def readCompactSize : Decoder Nat := do
  let nSizeRet ← readUnlimitedCompactSize
  if nSizeRet > maxSize then refuse "ReadCompactSize() : size too large"
  else pure nSizeRet

/-- The word behind a prefix byte, when it is large enough for its prefix. -/
theorem prefixed_consumes {width least nSize : Nat}
    (small : nSize < 256 ^ width) (enough : least ≤ nSize) :
    Consumes
      (do
        let xSize ← readNumber width
        if xSize < least then refuse "non-canonical ReadCompactSize()"
        else pure xSize)
      (littleEndian width nSize) nSize := by
  rw [← List.append_nil (littleEndian width nSize)]
  refine (readNumber_consumes small).bind ?_
  rw [if_neg (Nat.not_lt.mpr enough)]
  exact Consumes.pure nSize

theorem readUnlimitedCompactSize_consumes {nSize : Nat}
    (small : nSize < 2 ^ 64) :
    Consumes readUnlimitedCompactSize (writeCompactSize nSize) nSize := by
  unfold writeCompactSize
  split_ifs with one two four
  · rw [← List.append_nil (littleEndian 1 nSize)]
    refine (readNumber_consumes (by omega)).bind ?_
    rw [readCompactSizeAfter, if_pos one]
    exact Consumes.pure nSize
  · refine (readNumber_consumes (by omega)).bind ?_
    exact prefixed_consumes (by omega) (by omega)
  · refine (readNumber_consumes (by omega)).bind ?_
    exact prefixed_consumes (by omega) (by omega)
  · refine (readNumber_consumes (by omega)).bind ?_
    exact prefixed_consumes (by omega) (by omega)

theorem prefixed_ok {width least nSize : Nat} {input rest : Bytes}
    (accepted :
      (do
        let xSize ← readNumber width
        if xSize < least then refuse "non-canonical ReadCompactSize()"
        else pure xSize : Decoder Nat) input = .ok (nSize, rest)) :
    nSize < 256 ^ width ∧ least ≤ nSize ∧
      input = littleEndian width nSize ++ rest := by
  rcases bind_ok accepted with ⟨xSize, middle, read, continued⟩
  rcases readNumber_ok read with ⟨small, split⟩
  split_ifs at continued with short
  · cases continued
  · rcases pure_ok continued with ⟨rfl, rfl⟩
    exact ⟨small, Nat.not_lt.mp short, split⟩

theorem readUnlimitedCompactSize_ok {nSize : Nat} {input rest : Bytes}
    (accepted : readUnlimitedCompactSize input = .ok (nSize, rest)) :
    input = writeCompactSize nSize ++ rest := by
  rcases bind_ok accepted with ⟨chSize, middle, read, continued⟩
  rcases readNumber_ok read with ⟨small, split⟩
  subst split
  unfold readCompactSizeAfter at continued
  unfold writeCompactSize
  split_ifs at continued with one two four
  · rcases pure_ok continued with ⟨rfl, rfl⟩
    rw [if_pos one]
  · rcases prefixed_ok continued with ⟨bound, enough, rfl⟩
    rw [if_neg (by omega), if_pos (by omega), two, List.append_assoc]
  · rcases prefixed_ok continued with ⟨bound, enough, rfl⟩
    rw [if_neg (by omega), if_neg (by omega), if_pos (by omega), four,
      List.append_assoc]
  · rcases prefixed_ok continued with ⟨bound, enough, rfl⟩
    have last : chSize = 255 := by omega
    rw [if_neg (by omega), if_neg (by omega), if_neg (by omega), last,
      List.append_assoc]

/-- Compact sizes up to `maxSize`. -/
def compactSize : Format Nat where
  encode := writeCompactSize
  decode := readCompactSize
  Fits nSize := nSize ≤ maxSize
  lossless := by
    intro nSize fits
    have small : nSize < 2 ^ 64 := by
      unfold maxSize at fits
      omega
    rw [← List.append_nil (writeCompactSize nSize)]
    refine (readUnlimitedCompactSize_consumes small).bind ?_
    rw [if_neg (Nat.not_lt.mpr fits)]
    exact Consumes.pure nSize

theorem compactSize_canonical : compactSize.Canonical := by
  intro input nSize rest accepted
  rcases bind_ok accepted with ⟨nSizeRet, middle, read, continued⟩
  split_ifs at continued with large
  · cases continued
  · rcases pure_ok continued with ⟨rfl, rfl⟩
    exact ⟨Nat.not_lt.mp large, readUnlimitedCompactSize_ok read⟩

/-- Within 64 bits a compact size marks its own end. -/
theorem writeCompactSize_unambiguous :
    Unambiguous writeCompactSize (fun nSize => nSize < 2 ^ 64) :=
  unambiguous_of_consumes
    (fun _ small => readUnlimitedCompactSize_consumes small)

/-! ## Vectors and strings -/

/-- `std::vector<unsigned char>`, `std::vector<char>` and `std::string`. -/
def blob : Format Bytes := Format.blob compactSize

theorem blob_canonical : blob.Canonical :=
  compactSize_canonical.blob

/-- `std::vector<T>` for any other `T`. -/
def vector {α : Type} (item : Format α) : Format (List α) :=
  Format.list compactSize item

theorem vector_canonical {α : Type} {item : Format α}
    (canonical : item.Canonical) : (vector item).Canonical :=
  compactSize_canonical.list canonical

end PrivateDatagram.Wire.Serialize
