import Mathlib.Data.Nat.Bitwise
import Mathlib.Data.UInt

/-!
# Bits packed into bytes

Bits are packed eight to a byte, the first one as the least significant bit.
Unpacking gives as many bits as the bytes have, so the last byte is padded
with zeros.
-/

namespace PrivateDatagram.Library.BitPacking

/-- Whether the byte of a place has its bit. -/
def bitAt (bytes : List UInt8) (place : Nat) : Bool :=
  match bytes[place / 8]? with
  | none => false
  | some byte => (byte &&& (1 <<< UInt8.ofNat (place % 8))) != 0

/-- Or a bit into the byte of a place. -/
def orBit (bytes : List UInt8) (place : Nat) (bit : Bool) : List UInt8 :=
  bytes.modify (place / 8) fun byte =>
    byte ||| (bit.toUInt8 <<< UInt8.ofNat (place % 8))

/-- The bits from a place on are packed into the bytes. -/
def packFrom : Nat → List Bool → List UInt8 → List UInt8
  | _, [], bytes => bytes
  | place, bit :: bits, bytes =>
      packFrom (place + 1) bits (orBit bytes place bit)

def pack (bits : List Bool) : List UInt8 :=
  packFrom 0 bits (List.replicate ((bits.length + 7) / 8) 0)

def unpack (bytes : List UInt8) : List Bool :=
  (List.range (bytes.length * 8)).map (bitAt bytes)

/-! ## One byte -/

theorem toNat_shifted (bit : Bool) {place : Nat} (inside : place < 8) :
    (bit.toUInt8 <<< UInt8.ofNat place).toNat = bit.toNat * 2 ^ place := by
  have small : 2 ^ place < 2 ^ 8 :=
    Nat.pow_lt_pow_right Nat.one_lt_two inside
  rw [UInt8.toNat_shiftLeft, UInt8.toNat_ofNat',
    Nat.mod_eq_of_lt (show place < 2 ^ 8 by omega), Nat.mod_eq_of_lt inside,
    Nat.shiftLeft_eq]
  cases bit with
  | false =>
      rw [show false.toUInt8.toNat = 0 from rfl, Bool.toNat_false]
      simp
  | true =>
      rw [show true.toUInt8.toNat = 1 from rfl, Bool.toNat_true, Nat.one_mul,
        Nat.mod_eq_of_lt small]

theorem testBit_byte (byte : UInt8) {place : Nat} (inside : place < 8) :
    ((byte &&& (1 <<< UInt8.ofNat place)) != 0) =
      byte.toNat.testBit place := by
  have shifted := toNat_shifted true inside
  rw [Bool.toNat_true, Nat.one_mul] at shifted
  have masked : (byte &&& (1 <<< UInt8.ofNat place)).toNat =
      (byte.toNat.testBit place).toNat * 2 ^ place := by
    rw [UInt8.toNat_and, ← Nat.and_two_pow, ← shifted]
    rfl
  rw [Bool.eq_iff_iff, bne_iff_ne, ne_eq, ← UInt8.toNat_inj, masked]
  cases byte.toNat.testBit place with
  | false => simp
  | true => simp

theorem testBit_shifted (bit : Bool) {place other : Nat}
    (inside : place < 8) :
    (bit.toUInt8 <<< UInt8.ofNat place).toNat.testBit other =
      (bit && decide (other = place)) := by
  rw [toNat_shifted bit inside]
  cases bit with
  | false => simp
  | true =>
      rw [Bool.toNat_true, Nat.one_mul, Nat.testBit_two_pow, Bool.true_and,
        decide_eq_decide]
      exact eq_comm

/-! ## Many bytes -/

@[simp]
theorem length_orBit (bytes : List UInt8) (place : Nat) (bit : Bool) :
    (orBit bytes place bit).length = bytes.length :=
  List.length_modify _ _ _

theorem bitAt_eq_testBit {bytes : List UInt8} {place : Nat} {byte : UInt8}
    (found : bytes[place / 8]? = some byte) :
    bitAt bytes place = byte.toNat.testBit (place % 8) := by
  unfold bitAt
  rw [found]
  exact testBit_byte byte (Nat.mod_lt _ (by omega))

/-- Packing a bit sets its place only. -/
theorem bitAt_orBit {bytes : List UInt8} {place : Nat}
    (inside : place < bytes.length * 8) (bit : Bool) (other : Nat) :
    bitAt (orBit bytes place bit) other =
      (bitAt bytes other || (bit && decide (other = place))) := by
  by_cases outside : bytes.length ≤ other / 8
  · have apart : ¬ other = place := by omega
    unfold bitAt
    rw [List.getElem?_eq_none outside, List.getElem?_eq_none (by simpa)]
    simp [apart]
  · have found := List.getElem?_eq_getElem (Nat.not_le.mp outside)
    rw [bitAt_eq_testBit found]
    by_cases sameByte : place / 8 = other / 8
    · have written : (orBit bytes place bit)[other / 8]? = some
          (bytes[other / 8] |||
            (bit.toUInt8 <<< UInt8.ofNat (place % 8))) := by
        unfold orBit
        rw [List.getElem?_modify, found]
        simp [sameByte]
      have samePlace : other % 8 = place % 8 ↔ other = place := by omega
      rw [bitAt_eq_testBit written, UInt8.toNat_or, Nat.testBit_or,
        testBit_shifted bit (Nat.mod_lt _ (by omega)),
        decide_eq_decide.mpr samePlace]
    · have kept : (orBit bytes place bit)[other / 8]? =
          some bytes[other / 8] := by
        unfold orBit
        rw [List.getElem?_modify, found]
        simp [sameByte]
      have apart : ¬ other = place := by omega
      rw [bitAt_eq_testBit kept]
      simp [apart]

theorem length_packFrom (place : Nat) (bits : List Bool)
    (bytes : List UInt8) :
    (packFrom place bits bytes).length = bytes.length := by
  induction bits generalizing place bytes with
  | nil => rfl
  | cons bit bits ih => rw [packFrom, ih, length_orBit]

theorem bitAt_packFrom {place : Nat} {bits : List Bool}
    {bytes : List UInt8} (inside : place + bits.length ≤ bytes.length * 8)
    (other : Nat) :
    bitAt (packFrom place bits bytes) other =
      (bitAt bytes other ||
        (decide (place ≤ other) && bits.getD (other - place) false)) := by
  induction bits generalizing place bytes with
  | nil => simp [packFrom]
  | cons bit bits ih =>
      rw [List.length_cons] at inside
      rw [packFrom, ih (by rw [length_orBit]; omega),
        bitAt_orBit (by omega), Bool.or_assoc]
      congr 1
      rcases Nat.lt_trichotomy other place with before | same | after
      · simp [show ¬ place ≤ other by omega,
          show ¬ place + 1 ≤ other by omega, show ¬ other = place by omega]
      · simp [same]
      · obtain ⟨later, shift⟩ : ∃ later, other - place = later + 1 :=
          ⟨other - place - 1, by omega⟩
        simp [shift, show other - (place + 1) = later by omega,
          show place ≤ other by omega, show place + 1 ≤ other by omega,
          show ¬ other = place by omega]

theorem length_pack (bits : List Bool) :
    (pack bits).length = (bits.length + 7) / 8 := by
  unfold pack
  rw [length_packFrom, List.length_replicate]

theorem length_unpack (bytes : List UInt8) :
    (unpack bytes).length = bytes.length * 8 := by
  unfold unpack
  rw [List.length_map, List.length_range]

theorem bitAt_zeros (count place : Nat) :
    bitAt (List.replicate count 0) place = false := by
  unfold bitAt
  rw [List.getElem?_replicate]
  split_ifs
  · simp
  · rfl

theorem getElem?_unpack (bytes : List UInt8) {place : Nat}
    (inside : place < bytes.length * 8) :
    (unpack bytes)[place]? = some (bitAt bytes place) := by
  unfold unpack
  rw [List.getElem?_map, List.getElem?_range inside]
  rfl

theorem bitAt_pack (bits : List Bool) (place : Nat) :
    bitAt (pack bits) place = bits.getD place false := by
  unfold pack
  rw [bitAt_packFrom (by rw [List.length_replicate]; omega), bitAt_zeros]
  simp

/-- What is unpacked are the bits, and zeros up to the end of the byte. -/
theorem unpack_pack (bits : List Bool) :
    unpack (pack bits) = bits ++
      List.replicate ((bits.length + 7) / 8 * 8 - bits.length) false := by
  have size : (unpack (pack bits)).length =
      (bits.length + 7) / 8 * 8 := by
    rw [length_unpack, length_pack]
  have whole : (bits ++ List.replicate
      ((bits.length + 7) / 8 * 8 - bits.length) false).length =
        (bits.length + 7) / 8 * 8 := by
    rw [List.length_append, List.length_replicate]
    omega
  refine List.ext_getElem? fun place => ?_
  by_cases inside : place < (bits.length + 7) / 8 * 8
  · rw [getElem?_unpack _ (by rwa [length_pack]), bitAt_pack,
      List.getElem?_append]
    split_ifs with early
    · rw [List.getD_eq_getElem _ _ early, List.getElem?_eq_getElem early]
    · rw [List.getD_eq_default _ _ (by omega),
        List.getElem?_replicate_of_lt (by omega)]
  · rw [List.getElem?_eq_none (by omega), List.getElem?_eq_none (by omega)]

end PrivateDatagram.Library.BitPacking
