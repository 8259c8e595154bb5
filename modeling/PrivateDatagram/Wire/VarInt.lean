import Mathlib.Data.Nat.Bitwise
import PrivateDatagram.Library.ByteFormat

/-!
# Variable-length integers

`WriteVarInt` writes seven bits in a byte, the highest first, and marks every
byte but the last.  One is subtracted from all digits but the last, so that no
number has two encodings.  The template is instantiated at `int`, `unsigned
int` and `uint64_t`: the writer takes the number of any of them, and the
reader cuts to the width of the type.
-/

namespace PrivateDatagram.Wire.VarInt

open Library.ByteFormat

/-! ## Writing -/

/--
The loop of `WriteVarInt`, the bytes in the order in which they are written.
`mark` is the high bit of the last of them.
-/
def varIntBytes (mark : UInt8) (n : Int) : Bytes :=
  (if n ≤ 0x7f then [] else varIntBytes 0x80 (n / 128 - 1)) ++
    [UInt8.ofNat (n % 128).toNat ||| mark]
termination_by n.toNat
decreasing_by omega

def writeVarInt (n : Int) : Bytes :=
  varIntBytes 0 n

/-- `GetSizeOfVarInt`. -/
def sizeOfVarInt (n : Int) : Nat :=
  if n ≤ 0x7f then 1 else sizeOfVarInt (n / 128 - 1) + 1
termination_by n.toNat
decreasing_by omega

theorem length_varIntBytes (mark : UInt8) (n : Int) :
    (varIntBytes mark n).length = sizeOfVarInt n := by
  induction n using sizeOfVarInt.induct generalizing mark with
  | case1 n small =>
      rw [varIntBytes, sizeOfVarInt, if_pos small, if_pos small]
      rfl
  | case2 n large ih =>
      rw [varIntBytes, sizeOfVarInt, if_neg large, if_neg large,
        List.length_append, ih, List.length_singleton]

theorem length_writeVarInt (n : Int) :
    (writeVarInt n).length = sizeOfVarInt n :=
  length_varIntBytes 0 n

theorem writeVarInt_of_small {n : Nat} (small : n < 128) :
    writeVarInt n = [UInt8.ofNat n] := by
  have digit : ((n : Int) % 128).toNat = n := by omega
  rw [writeVarInt, varIntBytes, if_pos (by omega), digit, List.nil_append,
    UInt8.or_zero]

theorem sizeOfVarInt_pos (n : Int) : 0 < sizeOfVarInt n := by
  rw [sizeOfVarInt]
  split_ifs
  · exact Nat.one_pos
  · exact Nat.succ_pos _

/-! ## Reading -/

/-- The loop of `ReadVarInt` at a type of the given width. -/
def readVarIntLoop (width : Nat) : Nat → Bytes → Except StreamError (Nat × Bytes)
  | _, [] => .error .endOfData
  | n, chData :: rest =>
      let n := (n <<< 7 ||| (chData &&& 0x7f).toNat) % 2 ^ width
      if chData &&& 0x80 ≠ 0 then
        readVarIntLoop width ((n + 1) % 2 ^ width) rest
      else
        .ok (n, rest)

def readVarInt (width : Nat) : Decoder Nat :=
  readVarIntLoop width 0

/-- The seven bits of a byte, and its mark. -/
theorem digit_byte (digit : Nat) (small : digit < 128) (mark : Bool) :
    let chData := UInt8.ofNat digit ||| if mark then 0x80 else 0
    (chData &&& 0x7f).toNat = digit ∧ (chData &&& 0x80 ≠ 0 ↔ mark = true) := by
  have all : ∀ digit : Fin 128, ∀ mark : Bool,
      ((UInt8.ofNat digit ||| if mark then 0x80 else 0) &&& 0x7f).toNat =
        digit.val ∧
      ((UInt8.ofNat digit ||| if mark then 0x80 else 0) &&& 0x80 ≠ 0 ↔
        mark = true) := by
    decide
  exact all ⟨digit, small⟩ mark

theorem shifted_digit (n : Nat) {digit : Nat} (small : digit < 128) :
    n <<< 7 ||| digit = 128 * n + digit := by
  rw [Nat.shiftLeft_eq, Nat.mul_comm]
  exact (Nat.two_pow_add_eq_or_of_lt (i := 7) small n).symm

/-- One byte of the loop, for a number that fits. -/
theorem readVarIntLoop_cons {width n digit : Nat} (small : digit < 128)
    (mark : Bool) (fits : 128 * n + digit < 2 ^ width) (rest : Bytes) :
    readVarIntLoop width n
        ((UInt8.ofNat digit ||| if mark then 0x80 else 0) :: rest) =
      if mark then
        readVarIntLoop width ((128 * n + digit + 1) % 2 ^ width) rest
      else .ok (128 * n + digit, rest) := by
  rcases digit_byte digit small mark with ⟨bits, marked⟩
  simp only [readVarIntLoop]
  rw [bits, shifted_digit n small, Nat.mod_eq_of_lt fits]
  exact if_congr marked rfl rfl

/-- The marked bytes leave the loop one past their number. -/
theorem readVarIntLoop_marked (width n : Nat)
    (fits : n + 1 < 2 ^ width) (rest : Bytes) :
    readVarIntLoop width 0 (varIntBytes 0x80 n ++ rest) =
      readVarIntLoop width (n + 1) rest := by
  induction n using Nat.strong_induction_on generalizing rest with
  | h n ih =>
      have digit : ((n : Int) % 128).toNat = n % 128 := by omega
      have small : n % 128 < 128 := Nat.mod_lt n (by decide)
      have parts : 128 * (n / 128) + n % 128 = n := Nat.div_add_mod n 128
      have byte := readVarIntLoop_cons (n := n / 128) small true
        (by omega : 128 * (n / 128) + n % 128 < 2 ^ width) rest
      rw [parts, Nat.mod_eq_of_lt fits, if_pos rfl, if_pos rfl] at byte
      rw [varIntBytes, digit]
      rcases Nat.lt_or_ge n 128 with last | more
      · rw [if_pos (by omega), List.nil_append, List.singleton_append]
        rw [Nat.div_eq_of_lt last] at byte
        exact byte
      · have previous : (n : Int) / 128 - 1 = ((n / 128 - 1 : Nat) : Int) := by
          omega
        have before := ih (n / 128 - 1) (by omega) (by omega)
          ((UInt8.ofNat (n % 128) ||| 0x80) :: rest)
        rw [Nat.sub_add_cancel (by omega)] at before
        rw [if_neg (by omega), previous, List.append_assoc,
          List.singleton_append, before]
        exact byte

/-- What is written is read back, at every width that holds the number. -/
theorem readVarInt_consumes (width n : Nat) (fits : n < 2 ^ width) :
    Consumes (readVarInt width) (writeVarInt n) n := by
  intro rest
  have digit : ((n : Int) % 128).toNat = n % 128 := by omega
  have small : n % 128 < 128 := Nat.mod_lt n (by decide)
  have parts : 128 * (n / 128) + n % 128 = n := Nat.div_add_mod n 128
  have byte := readVarIntLoop_cons (n := n / 128) small false
    (by omega : 128 * (n / 128) + n % 128 < 2 ^ width) rest
  rw [parts, if_neg Bool.false_ne_true, if_neg Bool.false_ne_true] at byte
  rw [readVarInt, writeVarInt, varIntBytes, digit]
  rcases Nat.lt_or_ge n 128 with last | more
  · rw [if_pos (by omega), List.nil_append, List.singleton_append]
    rw [Nat.div_eq_of_lt last] at byte
    exact byte
  · have previous : (n : Int) / 128 - 1 = ((n / 128 - 1 : Nat) : Int) := by
      omega
    have before := readVarIntLoop_marked width (n / 128 - 1)
      (by omega) ((UInt8.ofNat (n % 128) ||| 0) :: rest)
    rw [Nat.sub_add_cancel (by omega)] at before
    rw [if_neg (by omega), previous, List.append_assoc,
      List.singleton_append, before]
    exact byte

/-! ## Sizes -/

/-- The first number whose encoding has more than `bytes + 1` bytes. -/
def varIntBound : Nat → Int
  | 0 => 128
  | bytes + 1 => 128 * (varIntBound bytes + 1)

theorem varIntBound_pos (bytes : Nat) : 128 ≤ varIntBound bytes := by
  induction bytes with
  | zero => exact Int.le_refl 128
  | succ bytes ih =>
      rw [varIntBound]
      omega

theorem sizeOfVarInt_le_iff (n : Int) (bytes : Nat) :
    sizeOfVarInt n ≤ bytes + 1 ↔ n < varIntBound bytes := by
  induction bytes generalizing n with
  | zero =>
      rw [sizeOfVarInt, varIntBound]
      have positive := sizeOfVarInt_pos (n / 128 - 1)
      split_ifs <;> omega
  | succ bytes ih =>
      rw [sizeOfVarInt, varIntBound]
      have before := ih (n / 128 - 1)
      have least := varIntBound_pos bytes
      split_ifs <;> omega

/-- The numbers at which an encoding of 32 bits becomes longer. -/
def boundaries : List Int := [128, 16512, 2113664, 270549120]

/-- Two encodings of 32 bits have one length when no boundary is between. -/
theorem sizeOfVarInt_eq_iff {left right : Int} (leftSmall : left < 2 ^ 32)
    (rightSmall : right < 2 ^ 32) :
    sizeOfVarInt left = sizeOfVarInt right ↔
      ∀ boundary ∈ boundaries, (left < boundary ↔ right < boundary) := by
  have bounds : boundaries =
      [varIntBound 0, varIntBound 1, varIntBound 2, varIntBound 3] := by
    decide
  have last : (2 : Int) ^ 32 ≤ varIntBound 4 := by decide
  simp only [bounds, List.forall_mem_cons, ← sizeOfVarInt_le_iff]
  have leftFive := (sizeOfVarInt_le_iff left 4).mpr (by omega)
  have rightFive := (sizeOfVarInt_le_iff right 4).mpr (by omega)
  have leftPos := sizeOfVarInt_pos left
  have rightPos := sizeOfVarInt_pos right
  constructor
  · intro same
    rw [same]
    simp
  · rintro ⟨one, two, three, four, _⟩
    omega

end PrivateDatagram.Wire.VarInt
