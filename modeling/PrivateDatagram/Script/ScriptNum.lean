import PrivateDatagram.Script.Instructions

/-!
# Script numbers

`CScriptNum` reads numbers of at most four bytes, little-endian with the sign
in the highest bit, and writes whatever the arithmetic on them gives.
-/

namespace PrivateDatagram.Script.ScriptNum

open Library.ByteFormat Instructions

def nMaxNumSize : Nat := 4

/-- The bounds of `int64_t`. -/
def int64Min : Int := -9223372036854775808
def int64Max : Int := 9223372036854775807

/-- A number held as an `int64_t`. -/
structure CScriptNum where
  mValue : Int
deriving DecidableEq, Repr

/-- The test for an encoding with a byte too many. -/
def nonMinimal (vch : Valtype) : Bool :=
  vch ≠ [] && vch.getLastD 0 &&& 0x7f = 0 &&
    (vch.length ≤ 1 || vch.getD (vch.length - 2) 0 &&& 0x80 = 0)

/-- `set_vch`; taking the remainder removes the sign bit. -/
def setVch (vch : Valtype) : Int :=
  if vch = [] then 0
  else
    let result := ofLittleEndian vch
    if vch.getLastD 0 &&& 0x80 ≠ 0 then
      -(result % 2 ^ (8 * vch.length - 1) : Nat)
    else result

namespace CScriptNum

def getint (bn : CScriptNum) : Int :=
  if bn.mValue > 2147483647 then 2147483647
  else if bn.mValue < -2147483648 then -2147483648
  else bn.mValue

end CScriptNum

/-- The bytes of a `uint64_t` without leading zeros, the lowest first. -/
def absBytes : Nat → Nat → Bytes
  | 0, _ => []
  | digits + 1, absvalue =>
      if absvalue = 0 then []
      else UInt8.ofNat absvalue :: absBytes digits (absvalue / 256)

def serialize (value : Int) : Valtype :=
  if value = 0 then []
  else
    let result := absBytes 8 value.natAbs
    if result.getLastD 0 &&& 0x80 ≠ 0 then
      result ++ [if value < 0 then 0x80 else 0]
    else if value < 0 then
      result.dropLast ++ [result.getLastD 0 ||| 0x80]
    else result

def CScriptNum.getvch (bn : CScriptNum) : Valtype := serialize bn.mValue

/-! ## Bounds -/

theorem setVch_bounds {vch : Valtype} (length : vch.length ≤ nMaxNumSize) :
    -4294967296 < setVch vch ∧ setVch vch < 4294967296 := by
  have small : ofLittleEndian vch < 4294967296 :=
    (ofLittleEndian_lt vch).trans_le
      (Nat.pow_le_pow_right (by decide) length)
  have smaller := Nat.mod_le (ofLittleEndian vch) (2 ^ (8 * vch.length - 1))
  unfold setVch
  dsimp only
  generalize ofLittleEndian vch % 2 ^ (8 * vch.length - 1) = masked
    at smaller ⊢
  split_ifs <;> constructor <;> omega

theorem absBytes_length (digits absvalue : Nat) :
    (absBytes digits absvalue).length ≤ digits := by
  induction digits generalizing absvalue with
  | zero => exact Nat.le_refl 0
  | succ digits ih =>
      unfold absBytes
      split_ifs
      · exact Nat.zero_le _
      · exact Nat.succ_le_succ (ih _)

theorem serialize_length (value : Int) : (serialize value).length ≤ 9 := by
  have digits := absBytes_length 8 value.natAbs
  simp only [serialize, apply_ite List.length, List.length_append,
    List.length_dropLast, List.length_nil, List.length_singleton]
  split_ifs <;> omega

theorem getvch_length (bn : CScriptNum) :
    bn.getvch.length ≤ maxScriptElementSize :=
  (serialize_length bn.mValue).trans (by decide)

/-! ## Round trips -/

theorem ofLittleEndian_append (first second : Bytes) :
    ofLittleEndian (first ++ second) =
      ofLittleEndian first + 256 ^ first.length * ofLittleEndian second := by
  induction first with
  | nil => simp [ofLittleEndian]
  | cons byte first ih =>
      rw [List.cons_append, ofLittleEndian, ofLittleEndian, ih,
        List.length_cons, Nat.pow_succ', Nat.mul_add, Nat.add_assoc,
        Nat.mul_assoc]

theorem hasSign_iff (byte : UInt8) : byte &&& 0x80 ≠ 0 ↔ 128 ≤ byte.toNat := by
  have every : ∀ n < 256, n &&& 128 ≠ 0 ↔ 128 ≤ n := by decide +kernel
  rw [ne_eq, ← UInt8.toNat_inj, UInt8.toNat_and]
  exact every byte.toNat byte.toNat_lt

theorem noDigits_iff (byte : UInt8) :
    byte &&& 0x7f = 0 ↔ byte.toNat % 128 = 0 := by
  have every : ∀ n < 256, n &&& 127 = 0 ↔ n % 128 = 0 := by decide +kernel
  rw [← UInt8.toNat_inj, UInt8.toNat_and]
  exact every byte.toNat byte.toNat_lt

theorem toNat_withSign {byte : UInt8} (low : byte.toNat < 128) :
    (byte ||| 0x80).toNat = byte.toNat + 128 := by
  have every : ∀ n < 128, n ||| 128 = n + 128 := by decide +kernel
  rw [UInt8.toNat_or]
  exact every byte.toNat low

/-- The bytes of a number end in one that is not zero. -/
theorem absBytes_spec {digits absvalue : Nat} (positive : absvalue ≠ 0)
    (small : absvalue < 256 ^ digits) :
    ∃ low last, absBytes digits absvalue = low ++ [last] ∧
      0 < last.toNat ∧
      ofLittleEndian low + 256 ^ low.length * last.toNat = absvalue := by
  induction digits generalizing absvalue with
  | zero => omega
  | succ digits ih =>
      have byte : (UInt8.ofNat absvalue).toNat = absvalue % 256 :=
        UInt8.toNat_ofNat'
      rw [absBytes, if_neg positive]
      by_cases high : absvalue / 256 = 0
      · refine ⟨[], UInt8.ofNat absvalue, ?_, by omega, ?_⟩
        · cases digits <;> simp [absBytes, high]
        · simp [ofLittleEndian]
          omega
      · rw [Nat.pow_succ] at small
        rcases ih high (by omega) with ⟨low, last, bytes, nonzero, sum⟩
        refine ⟨UInt8.ofNat absvalue :: low, last, ?_, nonzero, ?_⟩
        · rw [bytes, List.cons_append]
        · rw [ofLittleEndian, byte, List.length_cons, Nat.pow_succ',
            Nat.mul_assoc, Nat.add_assoc, ← Nat.mul_add, sum]
          omega

theorem setVch_append (low : Bytes) (last : UInt8) :
    setVch (low ++ [last]) =
      if 128 ≤ last.toNat then
        -((ofLittleEndian low + 256 ^ low.length * (last.toNat - 128) : Nat) :
          Int)
      else (ofLittleEndian low + 256 ^ low.length * last.toNat : Nat) := by
  have value : ofLittleEndian (low ++ [last]) =
      ofLittleEndian low + 256 ^ low.length * last.toNat := by
    rw [ofLittleEndian_append, ofLittleEndian, ofLittleEndian, Nat.mul_zero,
      Nat.add_zero]
  have nonempty : low ++ [last] ≠ [] := by simp
  unfold setVch
  rw [if_neg nonempty, List.getLastD_concat]
  dsimp only
  rw [value]
  by_cases sign : 128 ≤ last.toNat
  · have size : 8 * (low ++ [last]).length - 1 = 8 * low.length + 7 := by
      rw [List.length_append, List.length_singleton]
      omega
    have weight : 2 ^ (8 * low.length + 7) = 256 ^ low.length * 128 := by
      rw [Nat.pow_add, Nat.pow_mul]
    have inside := ofLittleEndian_lt low
    have byte : last.toNat < 256 := last.toNat_lt
    have masked : (ofLittleEndian low + 256 ^ low.length * last.toNat) %
        (256 ^ low.length * 128) =
          ofLittleEndian low + 256 ^ low.length * (last.toNat - 128) := by
      have split : ofLittleEndian low + 256 ^ low.length * last.toNat =
          ofLittleEndian low + 256 ^ low.length * (last.toNat - 128) +
            256 ^ low.length * 128 := by
        rw [Nat.add_assoc, ← Nat.mul_add, Nat.sub_add_cancel sign]
      have bound : ofLittleEndian low +
          256 ^ low.length * (last.toNat - 128) <
            256 ^ low.length * 128 := by
        have fewer : 256 ^ low.length * (last.toNat - 128 + 1) ≤
            256 ^ low.length * 128 :=
          Nat.mul_le_mul_left _ (by omega)
        rw [Nat.mul_add] at fewer
        omega
      rw [split, Nat.add_mod_right, Nat.mod_eq_of_lt bound]
    rw [if_pos ((hasSign_iff last).mpr sign), if_pos sign, size, weight,
      masked]
  · rw [if_neg fun has => sign ((hasSign_iff last).mp has), if_neg sign]

theorem nonMinimal_append {low : Bytes} {last : UInt8}
    (needed : last.toNat % 128 = 0 →
      ∃ before byte, low = before ++ [byte] ∧ 128 ≤ byte.toNat) :
    nonMinimal (low ++ [last]) = false := by
  unfold nonMinimal
  by_cases noDigits : last.toNat % 128 = 0
  · rcases needed noDigits with ⟨before, byte, rfl, sign⟩
    have length : (before ++ [byte] ++ [last]).length =
        before.length + 2 := by
      simp
    have read : (before ++ [byte] ++ [last]).getD before.length 0 =
        byte := by
      simp
    have long : ¬ before.length + 2 ≤ 1 := by omega
    have has := (hasSign_iff byte).mpr sign
    rw [length, Nat.add_sub_cancel, read, decide_eq_false long,
      decide_eq_false has]
    simp
  · have digits : ¬ last &&& 0x7f = 0 :=
      fun none => noDigits ((noDigits_iff last).mp none)
    rw [List.getLastD_concat]
    simp [digits]

theorem serialize_eq {value : Int} (nonzero : value ≠ 0) {low : Bytes}
    {last : UInt8} (bytes : absBytes 8 value.natAbs = low ++ [last]) :
    serialize value =
      if 128 ≤ last.toNat then
        low ++ [last] ++ [if value < 0 then 0x80 else 0]
      else if value < 0 then low ++ [last ||| 0x80]
      else low ++ [last] := by
  unfold serialize
  rw [if_neg nonzero, bytes]
  dsimp only
  rw [List.getLastD_concat, List.dropLast_concat]
  simp only [hasSign_iff]

/-- The weight of the last byte bounds how many there are. -/
theorem length_lt_of_weight {count bound last absvalue : Nat}
    (weighs : 256 ^ count * last ≤ absvalue)
    (light : absvalue < 256 ^ bound * last) : count < bound := by
  by_contra long
  have more : 256 ^ bound ≤ 256 ^ count :=
    Nat.pow_le_pow_right (by omega) (Nat.not_lt.mp long)
  have heavier := Nat.mul_le_mul_right last more
  omega

/-- A number of 31 bits is read back from its bytes, which are minimal. -/
theorem setVch_serialize {value : Int} (low : -2 ^ 31 < value)
    (high : value < 2 ^ 31) :
    (serialize value).length ≤ nMaxNumSize ∧
      nonMinimal (serialize value) = false ∧
      setVch (serialize value) = value := by
  by_cases zero : value = 0
  · rw [zero]
    decide
  · rcases absBytes_spec (show value.natAbs ≠ 0 by omega)
      (show value.natAbs < 256 ^ 8 by omega) with
      ⟨front, last, bytes, nonzero, sum⟩
    have short : front.length < 4 :=
      length_lt_of_weight (Nat.le.intro ((Nat.add_comm _ _).trans sum))
        (by omega)
    rw [serialize_eq zero bytes]
    by_cases sign : 128 ≤ last.toNat
    · -- the sign does not fit into the last byte
      have shorter : front.length < 3 :=
        length_lt_of_weight
          (Nat.le.intro ((Nat.add_comm _ _).trans sum)) (by omega)
      have whole : ofLittleEndian (front ++ [last]) = value.natAbs := by
        rw [ofLittleEndian_append, ofLittleEndian, ofLittleEndian,
          Nat.mul_zero, Nat.add_zero, sum]
      rw [if_pos sign]
      refine ⟨?_, nonMinimal_append fun _ => ⟨front, last, rfl, sign⟩, ?_⟩
      · rw [List.length_append, List.length_append, List.length_singleton,
          List.length_singleton]
        unfold nMaxNumSize
        omega
      · rw [setVch_append, whole]
        by_cases negative : value < 0
        · have signOnly : (0x80 : UInt8).toNat - 128 = 0 := rfl
          rw [if_pos negative, if_pos (by decide), signOnly, Nat.mul_zero,
            Nat.add_zero]
          omega
        · have nothing : (0 : UInt8).toNat = 0 := rfl
          rw [if_neg negative, if_neg (by decide), nothing, Nat.mul_zero,
            Nat.add_zero]
          omega
    · have digits : ¬ last.toNat % 128 = 0 := by omega
      rw [if_neg sign]
      by_cases negative : value < 0
      · have withSign := toNat_withSign (Nat.not_le.mp sign)
        rw [if_pos negative]
        refine ⟨?_, nonMinimal_append fun none => ?_, ?_⟩
        · rw [List.length_append, List.length_singleton]
          unfold nMaxNumSize
          omega
        · omega
        · rw [setVch_append, if_pos (by omega), withSign,
            Nat.add_sub_cancel, sum]
          omega
      · rw [if_neg negative]
        refine ⟨?_, nonMinimal_append fun none => absurd none digits, ?_⟩
        · rw [List.length_append, List.length_singleton]
          unfold nMaxNumSize
          omega
        · rw [setVch_append, if_neg sign, sum]
          omega

end PrivateDatagram.Script.ScriptNum
