import Mathlib.Tactic.Ring
import PrivateDatagram.Wire.Serialize
import PrivateDatagram.Wire.VarInt

/-!
# Canonical lengths

`WriteVarInt` fills an array with the digits of the number, the lowest first,
and then writes the array backwards.  The array has a byte for every seven bits
of the type.  Here the number is a word of that type, and a store behind the
array fails.  The bytes are those of the number itself, so that they do not
depend on the type.
-/

namespace PrivateDatagram.Wire.CanonicalLengths

open Library.ByteFormat Serialize VarInt

/-! ## Compact sizes -/

/-- `GetSizeOfCompactSize`. -/
def getSizeOfCompactSize (nSize : Nat) : Nat :=
  if nSize < 253 then 1
  else if nSize ≤ 0xffff then 1 + 2
  else if nSize ≤ 0xffffffff then 1 + 4
  else 1 + 8

theorem length_writeCompactSize (nSize : Nat) :
    (writeCompactSize nSize).length = getSizeOfCompactSize nSize := by
  rw [writeCompactSize, getSizeOfCompactSize]
  split_ifs <;> simp only [List.length_append, length_littleEndian]

/-! ## The array of a variable-length integer -/

/-- `len ? 0x80 : 0x00`, with what is stored so far. -/
def digitMark (tmp : Bytes) : UInt8 :=
  if tmp.length ≠ 0 then 0x80 else 0x00

/-- The loop of `WriteVarInt` over `tmp`. -/
def fillTmp {width : Nat} (n : BitVec width) (tmp : Bytes) : Option Bytes :=
  if tmp.length < (width + 6) / 7 then
    let tmp := tmp ++ [UInt8.ofNat (n &&& 0x7f).toNat ||| digitMark tmp]
    if n ≤ 0x7f then some tmp else fillTmp ((n >>> 7) - 1) tmp
  else none
termination_by (width + 6) / 7 - tmp.length
decreasing_by
  rw [List.length_append, List.length_singleton]
  omega

/-- `WriteVarInt`; none is a store behind its array. -/
def writeWord {width : Nat} (n : BitVec width) : Option Bytes :=
  (fillTmp n []).map List.reverse

/-- The seven bits, of which a narrow word has fewer. -/
theorem toNat_sevenBits (width : Nat) :
    (0x7f : BitVec width).toNat = 2 ^ min 7 width - 1 := by
  have number : (0x7f : BitVec width).toNat = 127 % 2 ^ width :=
    BitVec.toNat_ofNat 127 width
  rw [number]
  rcases Nat.lt_or_ge width 7 with narrow | wide
  · have all : ∀ width < 7, 127 % 2 ^ width = 2 ^ min 7 width - 1 := by decide
    exact all width narrow
  · have most : 2 ^ 7 ≤ 2 ^ width := Nat.pow_le_pow_right (by decide) wide
    rw [Nat.min_eq_left wide, Nat.mod_eq_of_lt (by omega)]
    rfl

theorem le_sevenBits_iff {width : Nat} (n : BitVec width) :
    n ≤ 0x7f ↔ n.toNat ≤ 0x7f := by
  have below := n.isLt
  rw [BitVec.le_def, toNat_sevenBits]
  rcases Nat.le_total 7 width with wide | narrow
  · rw [Nat.min_eq_left wide]
    rfl
  · have most : 2 ^ width ≤ 2 ^ 7 := Nat.pow_le_pow_right (by decide) narrow
    rw [Nat.min_eq_right narrow]
    omega

theorem toNat_and_sevenBits {width : Nat} (n : BitVec width) :
    (n &&& 0x7f).toNat = n.toNat % 128 := by
  have below := n.isLt
  rw [BitVec.toNat_and, toNat_sevenBits, Nat.and_two_pow_sub_one_eq_mod]
  rcases Nat.le_total 7 width with wide | narrow
  · rw [Nat.min_eq_left wide]
  · have most : 2 ^ width ≤ 2 ^ 7 := Nat.pow_le_pow_right (by decide) narrow
    rw [Nat.min_eq_right narrow, Nat.mod_eq_of_lt below,
      Nat.mod_eq_of_lt (by omega)]

/-- The subtraction does not wrap. -/
theorem toNat_nextDigits {width : Nat} {n : BitVec width}
    (large : ¬ n ≤ 0x7f) : ((n >>> 7) - 1).toNat = n.toNat / 128 - 1 := by
  have above := mt (le_sevenBits_iff n).mpr large
  have below := n.isLt
  have shifted : (n >>> 7).toNat = n.toNat / 128 := by
    rw [BitVec.toNat_ushiftRight, Nat.shiftRight_eq_div_pow]
  have one : (1 : BitVec width).toNat = 1 := by
    have number : (1 : BitVec width).toNat = 1 % 2 ^ width :=
      BitVec.toNat_ofNat 1 width
    rw [number, Nat.mod_eq_of_lt (by omega)]
  rw [BitVec.toNat_sub_of_le, shifted, one]
  rw [BitVec.le_def, shifted, one]
  omega

/-- `GetSizeOfVarInt` of a word. -/
def getSizeOfVarInt {width : Nat} (n : BitVec width) : Nat :=
  if n ≤ 0x7f then 1 else getSizeOfVarInt ((n >>> 7) - 1) + 1
termination_by n.toNat
decreasing_by
  rename_i large
  have above := mt (le_sevenBits_iff n).mpr large
  rw [toNat_nextDigits large]
  omega

theorem getSizeOfVarInt_eq {width : Nat} (n : BitVec width) :
    getSizeOfVarInt n = sizeOfVarInt n.toNat := by
  induction n using getSizeOfVarInt.induct with
  | case1 n small =>
      have least := (le_sevenBits_iff n).mp small
      rw [getSizeOfVarInt, sizeOfVarInt, if_pos small, if_pos (by omega)]
  | case2 n large ih =>
      have above := mt (le_sevenBits_iff n).mpr large
      have next : (((n >>> 7) - 1).toNat : Int) =
          (n.toNat : Int) / 128 - 1 := by
        rw [toNat_nextDigits large]
        omega
      rw [getSizeOfVarInt, sizeOfVarInt, if_neg large, if_neg (by omega), ih,
        next]

theorem digitMark_append (tmp : Bytes) (byte : UInt8) :
    digitMark (tmp ++ [byte]) = 0x80 := by
  rw [digitMark, List.length_append, List.length_singleton,
    if_pos (Nat.succ_ne_zero _)]

/-- As long as the array has room, the digits are stored in reverse. -/
theorem fillTmp_eq {width : Nat} (n : BitVec width) (tmp : Bytes)
    (room : tmp.length + sizeOfVarInt n.toNat ≤ (width + 6) / 7) :
    fillTmp n tmp =
      some (tmp ++ (varIntBytes (digitMark tmp) n.toNat).reverse) := by
  induction value : n.toNat using Nat.strong_induction_on
    generalizing n tmp with
  | h value' ih =>
      subst value
      have some' := sizeOfVarInt_pos n.toNat
      have digit : ((n.toNat : Int) % 128).toNat = n.toNat % 128 := by omega
      have inside : tmp.length < (width + 6) / 7 := by omega
      rw [fillTmp, if_pos inside, varIntBytes, toNat_and_sevenBits, digit,
        List.reverse_append, List.reverse_singleton]
      simp only
      by_cases small : n ≤ 0x7f
      · have least : (n.toNat : Int) ≤ 0x7f := by
          exact_mod_cast (le_sevenBits_iff n).mp small
        rw [if_pos small, if_pos least, List.reverse_nil, List.append_nil]
      · have above : ¬ (n.toNat : Int) ≤ 0x7f := by
          exact_mod_cast mt (le_sevenBits_iff n).mpr small
        have next := toNat_nextDigits small
        have nextInt : (((n >>> 7) - 1).toNat : Int) =
            (n.toNat : Int) / 128 - 1 := by
          omega
        rw [sizeOfVarInt, if_neg above, ← nextInt] at room
        rw [if_neg small, if_neg above, ← nextInt, ← List.append_assoc]
        have rest := ih ((n >>> 7) - 1).toNat (by omega) ((n >>> 7) - 1)
          (tmp ++ [UInt8.ofNat (n.toNat % 128) ||| digitMark tmp]) (by
            rw [List.length_append, List.length_singleton]
            omega) rfl
        rw [digitMark_append] at rest
        exact rest

theorem pow_le_varIntBound (bytes : Nat) :
    (128 : Int) ^ (bytes + 1) ≤ varIntBound bytes := by
  induction bytes with
  | zero => exact Int.le_refl 128
  | succ bytes ih =>
      rw [varIntBound, pow_succ']
      omega

/-- Every digit of a word has room. -/
theorem sizeOfVarInt_le {width : Nat} (positive : 0 < width)
    (n : BitVec width) : sizeOfVarInt n.toNat ≤ (width + 6) / 7 := by
  have last : (width + 6) / 7 = (width - 1) / 7 + 1 := by omega
  have bits : width ≤ 7 * ((width - 1) / 7 + 1) := by omega
  have digits : n.toNat < 128 ^ ((width - 1) / 7 + 1) := by
    calc n.toNat < 2 ^ width := n.isLt
      _ ≤ 2 ^ (7 * ((width - 1) / 7 + 1)) :=
        Nat.pow_le_pow_right (by decide) bits
      _ = 128 ^ ((width - 1) / 7 + 1) := by rw [Nat.pow_mul]
  have bound := pow_le_varIntBound ((width - 1) / 7)
  rw [last, sizeOfVarInt_le_iff]
  have below : (n.toNat : Int) < 128 ^ ((width - 1) / 7 + 1) := by
    exact_mod_cast digits
  omega

/-- No store of `WriteVarInt` is behind its array. -/
theorem writeWord_eq {width : Nat} (positive : 0 < width) (n : BitVec width) :
    writeWord n = some (writeVarInt n.toNat) := by
  have filled := fillTmp_eq n [] (by
    rw [List.length_nil, Nat.zero_add]
    exact sizeOfVarInt_le positive n)
  rw [writeWord, filled, Option.map_some, List.nil_append, List.reverse_reverse]
  rfl

/-! ## The encodings -/

/-- The encoding of a number does not start that of another. -/
theorem writeVarInt_prefix_free {n m : Nat} (small : n < 2 ^ 64)
    (otherSmall : m < 2 ^ 64) (starts : writeVarInt n <+: writeVarInt m) :
    n = m := by
  have unambiguous := unambiguous_of_consumes
    (fun number (fits : number < 2 ^ 64) => readVarInt_consumes 64 number fits)
  rcases starts with ⟨rest, same⟩
  rw [← List.append_nil (writeVarInt m)] at same
  exact (unambiguous n m rest [] small otherSmall same).1

/--
Compact sizes up to the limit and words of 32 and 64 bits have one encoding
each, which is read back and whose length is known before, and no encoding of
a word is the start of another.
-/
theorem lengths_canonical :
    (∀ nSize, nSize ≤ maxSize →
      Consumes readCompactSize (writeCompactSize nSize) nSize ∧
        getSizeOfCompactSize nSize = (writeCompactSize nSize).length) ∧
    (∀ input nSize rest, readCompactSize input = .ok (nSize, rest) →
      nSize ≤ maxSize ∧ input = writeCompactSize nSize ++ rest) ∧
    (∀ width, width = 32 ∨ width = 64 → ∀ n : BitVec width,
      ∃ bytes, writeWord n = some bytes ∧
        Consumes (readVarInt width) bytes n.toNat ∧
        getSizeOfVarInt n = bytes.length) ∧
    ∀ width other, width = 32 ∨ width = 64 → other = 32 ∨ other = 64 →
      ∀ (n : BitVec width) (m : BitVec other) (bytes longer : Bytes),
        writeWord n = some bytes → writeWord m = some longer →
          bytes <+: longer → n.toNat = m.toNat := by
  have wide : ∀ width, width = 32 ∨ width = 64 →
      0 < width ∧ 2 ^ width ≤ 2 ^ 64 := by
    rintro width (rfl | rfl) <;> decide
  refine ⟨?_, compactSize_canonical, ?_, ?_⟩
  · intro nSize fits
    have size := length_writeCompactSize nSize
    exact ⟨compactSize.lossless nSize fits, size.symm⟩
  · intro width known n
    refine ⟨writeVarInt n.toNat, writeWord_eq (wide width known).1 n,
      readVarInt_consumes width _ n.isLt, ?_⟩
    rw [getSizeOfVarInt_eq, length_writeVarInt]
  · intro width other known otherKnown n m bytes longer written otherWritten
      starts
    rw [writeWord_eq (wide width known).1] at written
    rw [writeWord_eq (wide other otherKnown).1] at otherWritten
    cases written
    cases otherWritten
    exact writeVarInt_prefix_free
      (Nat.lt_of_lt_of_le n.isLt (wide width known).2)
      (Nat.lt_of_lt_of_le m.isLt (wide other otherKnown).2) starts

end PrivateDatagram.Wire.CanonicalLengths
