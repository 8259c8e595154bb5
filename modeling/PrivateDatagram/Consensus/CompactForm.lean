import PrivateDatagram.Consensus.ProofOfWork
import PrivateDatagram.Consensus.WideOperators

/-!
# The compact form of a target

`GetCompact` keeps the leading bytes of a number: three of them, or two when
the highest bit of the leading byte is set, since this bit is the sign.
Decoding gives the number with the other bytes cleared, which is `truncated`.
It never decreases when the number grows.
-/

namespace PrivateDatagram.Consensus.CompactForm

open Wire.Serialize Consensus.BaseUint
open Consensus.BaseUintBits (wordAt hasBit hasBit_eq_testBit)
open WideOperators ProofOfWork

/-! ## The encoding -/

/-- `GetLow64`. -/
def getLow64 (a : UInt256) : UInt64 :=
  let pn := (ofUInt256 a).pn
  (wordAt pn 0).toUInt64 ||| (wordAt pn 1).toUInt64 <<< 32

/-- The leading three bytes, before the sign bit is looked at. -/
def leadingBytes (a : UInt256) (nSize : Nat) : UInt32 :=
  if nSize ≤ 3 then
    (getLow64 a <<< UInt64.ofNat (8 * (3 - nSize))).toUInt32
  else
    (getLow64 (shiftedRight a (8 * (nSize - 3)))).toUInt32

/-- `GetCompact`; none is a failed assertion. -/
def getCompact (a : UInt256) (fNegative : Bool) : Option UInt32 :=
  let nSize := (bits a + 7) / 8
  let nCompact := leadingBytes a nSize
  let signBit := nCompact &&& 0x00800000 ≠ 0
  let nSize := if signBit then nSize + 1 else nSize
  let nCompact := if signBit then nCompact >>> 8 else nCompact
  if nCompact &&& ~~~0x007fffff = 0 ∧ nSize < 256 then
    let nCompact := nCompact ||| UInt32.ofNat nSize <<< 24
    some (nCompact |||
      if fNegative && nCompact &&& 0x007fffff ≠ 0 then 0x00800000 else 0)
  else none

/-! ## The number of the leading bytes -/

/-- The size byte, once the sign bit is clear. -/
def compactSize (n : Nat) : Nat :=
  if n = 0 then 0 else n.size / 8 + 1

/-- The mantissa, once the sign bit is clear. -/
def compactMantissa (n : Nat) : Nat :=
  if compactSize n ≤ 3 then n * 256 ^ (3 - compactSize n)
  else n / 256 ^ (compactSize n - 3)

/-- The bytes that the compact form leaves out. -/
def droppedBytes (n : Nat) : Nat :=
  n.size / 8 - 2

/-- The number with the bytes cleared that are left out. -/
def truncated (n : Nat) : Nat :=
  n / 256 ^ droppedBytes n * 256 ^ droppedBytes n

theorem toNat_getLow64 (a : UInt256) :
    (getLow64 a).toNat = a.toNat % 2 ^ 64 := by
  have whole : value (ofUInt256 a).pn = a.toNat := toNat_ofUInt256 a
  have length : (ofUInt256 a).pn.length = 8 := (ofUInt256 a).size
  simp only [getLow64]
  generalize (ofUInt256 a).pn = pn at whole length
  match pn, length with
  | low :: high :: pn, _ =>
      have lowSmall := low.toNat_lt
      have highSmall := high.toNat_lt
      have distance : (32 : UInt64).toNat % 64 = 32 := rfl
      have shifted : (high.toUInt64 <<< 32).toNat = 2 ^ 32 * high.toNat := by
        rw [UInt64.toNat_shiftLeft, distance, UInt32.toNat_toUInt64,
          Nat.shiftLeft_eq]
        omega
      have first : wordAt (low :: high :: pn) 0 = low := rfl
      have second : wordAt (low :: high :: pn) 1 = high := rfl
      rw [first, second, UInt64.toNat_or, shifted, UInt32.toNat_toUInt64,
        Nat.or_comm, ← Nat.two_pow_add_eq_or_of_lt lowSmall, ← whole,
        value_cons, value_cons]
      omega

/-- A number of `s` bytes, moved to three bytes. -/
theorem toNat_leadingBytes (a : UInt256) {nSize : Nat}
    (enough : a.toNat < 256 ^ nSize) :
    (leadingBytes a nSize).toNat =
      (if nSize ≤ 3 then a.toNat * 256 ^ (3 - nSize)
      else a.toNat / 256 ^ (nSize - 3)) ∧
    (leadingBytes a nSize).toNat < 2 ^ 24 := by
  have bytes : (256 : Nat) ^ 3 = 2 ^ 24 := by decide
  simp only [leadingBytes]
  split_ifs with small
  · have room : a.toNat * 256 ^ (3 - nSize) < 2 ^ 24 := by
      rw [← bytes, ← Nat.sub_add_cancel small, Nat.pow_add,
        Nat.add_sub_cancel, Nat.mul_comm]
      exact Nat.mul_lt_mul_of_pos_left enough (Nat.pow_pos (by decide))
    have narrow : a.toNat < 2 ^ 64 := by
      have atMost : 256 ^ nSize ≤ 256 ^ 3 :=
        Nat.pow_le_pow_right (by decide) small
      rw [bytes] at atMost
      omega
    have distance : (UInt64.ofNat (8 * (3 - nSize))).toNat % 64 =
        8 * (3 - nSize) := by
      rw [UInt64.toNat_ofNat']
      omega
    have exact' : (getLow64 a <<< UInt64.ofNat (8 * (3 - nSize))).toNat =
        a.toNat * 256 ^ (3 - nSize) := by
      rw [UInt64.toNat_shiftLeft, distance, toNat_getLow64,
        Nat.mod_eq_of_lt narrow, Nat.shiftLeft_eq, Nat.pow_mul]
      exact Nat.mod_eq_of_lt (Nat.lt_trans room (by decide))
    rw [UInt64.toNat_toUInt32, exact',
      Nat.mod_eq_of_lt (Nat.lt_trans room (by decide))]
    exact ⟨rfl, room⟩
  · have room : a.toNat / 256 ^ (nSize - 3) < 2 ^ 24 := by
      apply Nat.div_lt_of_lt_mul
      rw [← bytes, ← Nat.pow_add, Nat.sub_add_cancel (by omega)]
      exact enough
    have power : 2 ^ (8 * (nSize - 3)) = 256 ^ (nSize - 3) := by
      rw [Nat.pow_mul]
    rw [UInt64.toNat_toUInt32, toNat_getLow64, toNat_shiftedRight, power,
      Nat.mod_eq_of_lt (Nat.lt_trans room (by decide)),
      Nat.mod_eq_of_lt (Nat.lt_trans room (by decide))]
    exact ⟨rfl, room⟩

/-- The bytes of a number, rounded up. -/
theorem lt_pow_bytes (n : Nat) : n < 256 ^ ((n.size + 7) / 8) := by
  calc
    n < 2 ^ n.size := Nat.lt_size_self n
    _ ≤ 2 ^ (8 * ((n.size + 7) / 8)) :=
      Nat.pow_le_pow_right (by decide) (by omega)
    _ = 256 ^ ((n.size + 7) / 8) := by rw [Nat.pow_mul]

/-- The sign bit is taken exactly when the leading byte is full. -/
theorem signBit_iff {n nSize : Nat} (positive : 0 < nSize) :
    2 ^ 23 ≤ (if nSize ≤ 3 then n * 256 ^ (3 - nSize)
      else n / 256 ^ (nSize - 3)) ↔ 8 * nSize - 1 < n.size := by
  have byte : (256 : Nat) = 2 ^ 8 := by decide
  rw [Nat.lt_size, byte, ← Nat.pow_mul, ← Nat.pow_mul]
  split_ifs with small
  · have power : 2 ^ 23 = 2 ^ (8 * nSize - 1) * 2 ^ (8 * (3 - nSize)) := by
      rw [← Nat.pow_add]
      congr 1
      omega
    rw [power]
    exact Nat.mul_le_mul_right_iff (Nat.two_pow_pos _)
  · have power : 2 ^ (8 * nSize - 1) = 2 ^ 23 * 2 ^ (8 * (nSize - 3)) := by
      rw [← Nat.pow_add]
      congr 1
      omega
    rw [power]
    exact Nat.le_div_iff_mul_le (Nat.two_pow_pos _)

/-- The two parts of the result, the sign bit clear. -/
theorem adjusted_parts {n m nSize : Nat} (bytes : nSize = (n.size + 7) / 8)
    (leading : m = if nSize ≤ 3 then n * 256 ^ (3 - nSize)
      else n / 256 ^ (nSize - 3)) (room : m < 2 ^ 24) :
    (if 2 ^ 23 ≤ m then nSize + 1 else nSize) = compactSize n ∧
      (if 2 ^ 23 ≤ m then m / 256 else m) = compactMantissa n ∧
      compactMantissa n < 2 ^ 23 := by
  rcases Nat.eq_zero_or_pos n with rfl | nonzero
  · have none : nSize = 0 := by
      rw [bytes, Nat.size_zero]
    have zero : m = 0 := by
      rw [leading, none]
      rfl
    rw [none, zero]
    decide
  · have sized := Nat.size_pos.mpr nonzero
    have positive : 0 < nSize := by omega
    have sign := signBit_iff (n := n) positive
    rw [← leading] at sign
    have whole : compactSize n = n.size / 8 + 1 := if_neg (by omega)
    by_cases full : 2 ^ 23 ≤ m
    · have top := sign.mp full
      have size : nSize + 1 = compactSize n := by omega
      have mantissa : m / 256 = compactMantissa n := by
        rw [compactMantissa, ← size, leading]
        rcases Nat.lt_trichotomy nSize 3 with less | three | more
        · have bytes' : 3 - nSize = 3 - (nSize + 1) + 1 := by omega
          rw [if_pos (by omega), if_pos (by omega), bytes', Nat.pow_succ,
            ← Nat.mul_assoc, Nat.mul_div_cancel _ (by decide)]
        · rw [if_pos (by omega), if_neg (by omega), three]
          simp
        · have bytes' : nSize + 1 - 3 = nSize - 3 + 1 := by omega
          rw [if_neg (by omega), if_neg (by omega), bytes', Nat.pow_succ,
            Nat.div_div_eq_div_mul]
      rw [if_pos full, if_pos full, ← mantissa]
      exact ⟨size, rfl, by omega⟩
    · have partial' : ¬ 8 * nSize - 1 < n.size := fun top => full (sign.mpr top)
      have size : nSize = compactSize n := by omega
      rw [if_neg full, if_neg full, compactMantissa, ← size, ← leading]
      exact ⟨rfl, rfl, Nat.lt_of_not_le full⟩

theorem compactSize_lt (a : UInt256) : compactSize a.toNat < 256 := by
  have words : a.toNat.size ≤ 256 := Nat.size_le.mpr a.isLt
  rw [compactSize]
  split_ifs
  · decide
  · omega

/-- `0x00800000` is the bit 23. -/
theorem and_signBit_iff (p : UInt32) (room : p.toNat < 2 ^ 24) :
    p &&& 0x00800000 ≠ 0 ↔ 2 ^ 23 ≤ p.toNat := by
  have bit := hasBit_eq_testBit p (by decide : 23 < 32)
  have mask : (1 : UInt32) <<< UInt32.ofNat 23 = 0x00800000 := by decide
  rw [hasBit, mask] at bit
  rw [← decide_eq_true_iff (p := p &&& 0x00800000 ≠ 0), bit]
  constructor
  · exact Nat.ge_two_pow_of_testBit
  · intro large
    rw [Nat.testBit_eq_decide_div_mod_eq, decide_eq_true_iff]
    omega

/-- The assertion on the mantissa. -/
theorem and_not_mantissa {p : UInt32} (room : p.toNat < 2 ^ 23) :
    p &&& ~~~0x007fffff = 0 := by
  have mask : (~~~0x007fffff : UInt32).toNat = 2 ^ 23 * 511 := by decide
  apply UInt32.toNat_inj.mp
  rw [UInt32.toNat_and, mask]
  apply Nat.eq_of_testBit_eq
  intro j
  rw [Nat.testBit_and, Nat.testBit_two_pow_mul]
  rcases Nat.lt_or_ge j 23 with low | high
  · simp [Nat.not_le.mpr low]
  · have clear : p.toNat.testBit j = false :=
      Nat.testBit_lt_two_pow (Nat.lt_of_lt_of_le room
        (Nat.pow_le_pow_right (by decide) high))
    rw [clear, Bool.false_and]
    simp

/-- No assertion fails, and the parts stand side by side. -/
theorem getCompact_eq (a : UInt256) :
    ∃ nCompact, getCompact a false = some nCompact ∧
      nCompact.toNat =
        compactMantissa a.toNat + 2 ^ 24 * compactSize a.toNat := by
  have enough : a.toNat < 256 ^ ((bits a + 7) / 8) := by
    rw [bits_eq_size]
    exact lt_pow_bytes a.toNat
  rcases toNat_leadingBytes a enough with ⟨leading, room⟩
  have sign := and_signBit_iff _ room
  rcases adjusted_parts (n := a.toNat) (by rw [bits_eq_size]) leading room with
    ⟨size, mantissa, small⟩
  have sizeSmall := compactSize_lt a
  simp only [getCompact]
  generalize leadingBytes a ((bits a + 7) / 8) = nCompact at *
  generalize (bits a + 7) / 8 = nSize at *
  have sizes : (if nCompact &&& 0x00800000 ≠ 0 then nSize + 1 else nSize) =
      compactSize a.toNat := by
    rw [← size]
    exact if_congr sign rfl rfl
  have mantissas : (if nCompact &&& 0x00800000 ≠ 0 then nCompact >>> 8
      else nCompact).toNat = compactMantissa a.toNat := by
    rw [← mantissa]
    by_cases full : nCompact &&& 0x00800000 ≠ 0
    · rw [if_pos full, if_pos (sign.mp full), UInt32.toNat_shiftRight]
      exact Nat.shiftRight_eq_div_pow _ _
    · rw [if_neg full, if_neg (fun large => full (sign.mpr large))]
  rw [sizes]
  generalize (if nCompact &&& 0x00800000 ≠ 0 then nCompact >>> 8
      else nCompact) = word at mantissas ⊢
  have shifted : (UInt32.ofNat (compactSize a.toNat) <<< 24).toNat =
      2 ^ 24 * compactSize a.toNat := by
    have distance : (24 : UInt32).toNat % 32 = 24 := rfl
    rw [UInt32.toNat_shiftLeft, distance, UInt32.toNat_ofNat',
      Nat.shiftLeft_eq, Nat.mul_comm]
    omega
  rw [if_pos ⟨and_not_mantissa (mantissas ▸ small), sizeSmall⟩]
  refine ⟨_, rfl, ?_⟩
  have both : (word ||| UInt32.ofNat (compactSize a.toNat) <<< 24).toNat =
      compactMantissa a.toNat + 2 ^ 24 * compactSize a.toNat := by
    rw [UInt32.toNat_or, shifted, mantissas, Nat.or_comm,
      ← Nat.two_pow_add_eq_or_of_lt (Nat.lt_trans small (by decide)),
      Nat.add_comm]
  simp only [Bool.false_and, Bool.false_eq_true, if_false, UInt32.or_zero]
  exact both

/-! ## Decoding -/

theorem truncated_le (n : Nat) : truncated n ≤ n :=
  Nat.div_mul_le_self n _

/-- The number that the two parts denote is the number, truncated. -/
theorem compactParts_value (n : Nat) :
    (if compactSize n ≤ 3 then compactMantissa n / 256 ^ (3 - compactSize n)
      else compactMantissa n * 256 ^ (compactSize n - 3)) = truncated n := by
  rcases Nat.eq_zero_or_pos n with rfl | nonzero
  · decide
  · have whole : compactSize n = n.size / 8 + 1 := if_neg (by omega)
    rw [compactMantissa, truncated, droppedBytes]
    split_ifs with small
    · have none : n.size / 8 - 2 = 0 := by omega
      rw [none, pow_zero, Nat.div_one, Nat.mul_one,
        Nat.mul_div_cancel _ (Nat.pow_pos (by decide))]
    · have some' : compactSize n - 3 = n.size / 8 - 2 := by omega
      rw [some']

/-- The two parts of what is encoded, with a clear sign bit between. -/
theorem getCompact_parts {a : UInt256} {nCompact : UInt32}
    (encoded : getCompact a false = some nCompact) :
    nCompact.toNat >>> 24 = compactSize a.toNat ∧
      nCompact.toNat &&& 0x007fffff = compactMantissa a.toNat ∧
      nCompact.toNat % 2 ^ 24 < 2 ^ 23 := by
  rcases getCompact_eq a with ⟨found, same, parts⟩
  rw [encoded] at same
  cases same
  have leading := toNat_leadingBytes a (by
    rw [bits_eq_size]
    exact lt_pow_bytes a.toNat : a.toNat < 256 ^ ((bits a + 7) / 8))
  have small := (adjusted_parts (n := a.toNat) (by rw [bits_eq_size])
    leading.1 leading.2).2.2
  have mask : nCompact.toNat &&& 0x007fffff = nCompact.toNat % 2 ^ 23 :=
    Nat.and_two_pow_sub_one_eq_mod nCompact.toNat 23
  rw [Nat.shiftRight_eq_div_pow, mask, parts]
  omega

/-- Decoding the compact form clears the bytes that it leaves out. -/
theorem compactValue_getCompact {a : UInt256} {nCompact : UInt32}
    (encoded : getCompact a false = some nCompact) :
    compactValue nCompact = truncated a.toNat := by
  rcases getCompact_parts encoded with ⟨size, word, _⟩
  rw [← compactParts_value]
  simp only [compactValue]
  rw [size, word]

theorem setCompact_getCompact {a : UInt256} {nCompact : UInt32}
    (encoded : getCompact a false = some nCompact) :
    (setCompact nCompact).bnTarget.toNat = truncated a.toNat := by
  have value := compactValue_getCompact encoded
  rw [toNat_bnTarget, value]
  rw [value]
  exact Nat.lt_of_le_of_lt (truncated_le _) a.isLt

/-- A greater number is not smaller in its leading bytes. -/
theorem truncated_monotone : Monotone truncated := by
  intro n m below
  have sizes := Nat.size_le_size below
  rcases Nat.eq_or_lt_of_le (Nat.div_le_div_right (c := 8) sizes) with
    same | longer
  · have dropped : droppedBytes n = droppedBytes m := by
      rw [droppedBytes, same, droppedBytes]
    rw [truncated, truncated, dropped]
    exact Nat.mul_le_mul_right _ (Nat.div_le_div_right below)
  · -- The highest bit of `m` is kept and lies above all of `n`.
    have kept : 2 ^ (8 * (m.size / 8) - 1) ≤ truncated m := by
      have least : 2 ^ (8 * (m.size / 8) - 1) ≤ m :=
        Nat.lt_size.mp (by omega)
      have power : 256 ^ droppedBytes m = 2 ^ (8 * (m.size / 8 - 2)) := by
        rw [Nat.pow_mul, droppedBytes]
      have split : 2 ^ (8 * (m.size / 8) - 1) =
          2 ^ (8 * (m.size / 8) - 1 - 8 * (m.size / 8 - 2)) *
            2 ^ (8 * (m.size / 8 - 2)) := by
        rw [← Nat.pow_add]
        congr 1
        omega
      rw [truncated, power, split]
      apply Nat.mul_le_mul_right
      rw [Nat.le_div_iff_mul_le (Nat.two_pow_pos _), ← split]
      exact least
    calc
      truncated n ≤ n := truncated_le n
      _ ≤ 2 ^ n.size := Nat.le_of_lt (Nat.lt_size_self n)
      _ ≤ 2 ^ (8 * (m.size / 8) - 1) :=
        Nat.pow_le_pow_right (by decide) (by omega)
      _ ≤ truncated m := kept

end PrivateDatagram.Consensus.CompactForm
