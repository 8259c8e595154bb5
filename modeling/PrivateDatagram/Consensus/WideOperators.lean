import PrivateDatagram.Consensus.BaseUintBits

/-!
# Operators of wide unsigned integers

`BaseUint width` holds exactly `width` words, and its operators run the loops
over them.  `operator/=` is a long division in base two that throws on a zero
divisor.  A `uint256` is a `BaseUint` of eight words.
-/

namespace PrivateDatagram.Consensus.WideOperators

open Library.LongArithmetic Wire.Serialize Consensus.BaseUint BaseUintBits

/-! ## Division -/

/-- `operator-=`. -/
def subtract (a b : List UInt32) : List UInt32 :=
  addLoop 0 a (negate b)

theorem length_subtract {a b : List UInt32} (same : a.length = b.length) :
    (subtract a b).length = a.length := by
  rw [subtract, length_addLoop]
  rw [length_negate, same]

/-- `pn[shift / 32] |= (1 << (shift & 31))`. -/
def setBit (pn : List UInt32) (shift : Nat) : List UInt32 :=
  orAt pn (shift / 32) (1 <<< UInt32.ofNat (shift &&& 31))

theorem value_setBit (pn : List UInt32) {shift : Nat}
    (inside : shift < 32 * pn.length) :
    value (setBit pn shift) = value pn ||| 2 ^ shift := by
  have low : shift &&& 31 = shift % 32 := Nat.and_two_pow_sub_one_eq_mod shift 5
  apply Nat.eq_of_testBit_eq
  intro j
  have inWord : j % 32 < 32 := Nat.mod_lt j (by decide)
  have inShift : shift % 32 < 32 := Nat.mod_lt shift (by decide)
  have one : (1 : UInt32).toNat = 2 ^ 0 := rfl
  rw [Bool.eq_iff_iff, setBit, orAt_testBit pn _ j (by omega), low,
    shiftLeft_testBit _ inShift inWord, Nat.testBit_or, Bool.or_eq_true,
    one, Nat.testBit_two_pow, Nat.testBit_two_pow]
  simp only [decide_eq_true_iff]
  apply or_congr_right
  constructor
  · rintro ⟨word, least, bit⟩
    omega
  · rintro rfl
    exact ⟨rfl, Nat.le_refl _, (Nat.sub_self _).symm⟩

/-- The loop of `operator/=`, with one step more than the shift. -/
def divideLoop : Nat → List UInt32 → List UInt32 → List UInt32 → List UInt32
  | 0, _, _, pn => pn
  | shift + 1, num, div, pn =>
      if compareLoop num div num.length ≥ 0 then
        divideLoop shift (subtract num div) (shiftRight div 1)
          (setBit pn shift)
      else
        divideLoop shift num (shiftRight div 1) pn

theorem compareLoop_nonneg_iff {a b : List UInt32}
    (same : a.length = b.length) :
    compareLoop a b a.length ≥ 0 ↔ value b ≤ value a := by
  rw [compareLoop_eq_sign, List.take_length, same, List.take_length, ge_iff_le,
    Int.sign_nonneg_iff]
  omega

theorem length_divideLoop (steps : Nat) (num div pn : List UInt32) :
    (divideLoop steps num div pn).length = pn.length := by
  induction steps generalizing num div pn with
  | zero => rfl
  | succ shift ih =>
      rw [divideLoop]
      split_ifs
      · rw [ih, setBit, length_orAt]
      · rw [ih]

/-- The words of the quotient follow the division of the numbers. -/
theorem value_divideLoop (steps : Nat) (num div pn : List UInt32)
    (dividend : num.length = pn.length) (divisor : div.length = pn.length)
    (inside : steps ≤ 32 * pn.length) :
    value (divideLoop steps num div pn) =
      (shiftSubtract steps (value num) (value div) (value pn)).1 := by
  induction steps generalizing num div pn with
  | zero => rfl
  | succ shift ih =>
      have same : num.length = div.length := dividend.trans divisor.symm
      have halved : value (shiftRight div 1) = value div / 2 :=
        value_shiftRight div 1
      rw [divideLoop, shiftSubtract]
      simp only [compareLoop_nonneg_iff same]
      split_ifs with above
      · rw [ih, subtract, value_addLoop_negate num div same above, halved,
          value_setBit pn (by omega)]
        · rw [length_subtract same, setBit, length_orAt, dividend]
        · rw [length_shiftRight, setBit, length_orAt, divisor]
        · rw [setBit, length_orAt]
          omega
      · rw [ih, halved]
        · exact dividend
        · rw [length_shiftRight, divisor]
        · omega

/-- `operator/=`. -/
def divide (num div : List UInt32) : Option (List UInt32) :=
  let quotient := List.replicate num.length 0
  let numBits := bits num
  let divBits := bits div
  if divBits = 0 then none
  else if divBits > numBits then some quotient
  else
    let shift := numBits - divBits
    some (divideLoop (shift + 1) num (shiftLeft div shift) quotient)

theorem divide_eq_none_iff (num div : List UInt32) :
    divide num div = none ↔ value div = 0 := by
  have zero : bits div = 0 ↔ value div = 0 := by
    rw [bits_eq_size, Nat.size_eq_zero]
  simp only [divide]
  rw [← zero]
  split_ifs with none
  · simp [none]
  · simp [none]
  · simp [none]

theorem divide_eq {num div : List UInt32} (same : num.length = div.length)
    (nonzero : value div ≠ 0) :
    ∃ quotient, divide num div = some quotient ∧
      quotient.length = num.length ∧
      value quotient = value num / value div := by
  have positive := Nat.pos_of_ne_zero nonzero
  have some' : bits div ≠ 0 := by
    rw [bits_eq_size, Ne, Nat.size_eq_zero]
    exact nonzero
  simp only [divide]
  rw [if_neg some']
  split_ifs with longer
  · refine ⟨_, rfl, List.length_replicate, ?_⟩
    rw [bits_eq_size, bits_eq_size] at longer
    have below : value num < value div := by
      apply Nat.lt_of_not_le
      intro above
      exact absurd (Nat.size_le_size above) (Nat.not_le.mpr longer)
    rw [value_replicate_zero, Nat.div_eq_of_lt below]
  · have least := Nat.le_of_not_lt longer
    have words : bits num ≤ 32 * num.length := by
      rw [bits_eq_size]
      exact Nat.size_le.mpr (value_lt num)
    refine ⟨_, rfl, ?_, ?_⟩
    · rw [length_divideLoop, List.length_replicate]
    · rw [bits_eq_size, bits_eq_size] at least
      rw [bits_eq_size] at words some'
      have aligned : value (shiftLeft div (bits num - bits div)) =
          value div * 2 ^ (bits num - bits div) := by
        rw [value_shiftLeft, Nat.mod_eq_of_lt]
        rw [bits_eq_size, bits_eq_size]
        calc
          value div * 2 ^ ((value num).size - (value div).size) <
              2 ^ (value div).size *
                2 ^ ((value num).size - (value div).size) :=
            Nat.mul_lt_mul_of_pos_right (Nat.lt_size_self _)
              (Nat.two_pow_pos _)
          _ = 2 ^ (value num).size := by
            rw [← Nat.pow_add, Nat.add_sub_cancel' least]
          _ ≤ 2 ^ (32 * div.length) :=
            Nat.pow_le_pow_right (by decide) (same ▸ words)
      rw [value_divideLoop, aligned, value_replicate_zero, bits_eq_size,
        bits_eq_size, shiftSubtract_eq_div_mod _ _ _ positive (by omega)]
      · rw [List.length_replicate]
      · rw [length_shiftLeft, List.length_replicate, same]
      · rw [List.length_replicate, bits_eq_size, bits_eq_size]
        omega

/-! ## Numbers of a fixed width -/

/-- `base_uint`. -/
structure BaseUint (width : Nat) where
  pn : List UInt32
  size : pn.length = width
deriving DecidableEq, Repr

namespace BaseUint

variable {width : Nat}

/-- The number that the words denote. -/
def toNat (a : BaseUint width) : Nat :=
  value a.pn

theorem toNat_lt (a : BaseUint width) : a.toNat < 2 ^ (32 * width) := by
  have bounded := value_lt a.pn
  rw [a.size] at bounded
  exact bounded

@[ext]
theorem ext_toNat {a b : BaseUint width} (equal : a.toNat = b.toNat) :
    a = b := by
  cases a with
  | mk pn size =>
      cases b with
      | mk bs other =>
          have same := value_inj (size.trans other.symm) equal
          cases same
          rfl

/-- The words of a number. -/
def ofNat (width n : Nat) : BaseUint width :=
  ⟨wordsOf width n, length_wordsOf width n⟩

@[simp]
theorem toNat_ofNat (width n : Nat) :
    (ofNat width n).toNat = n % 2 ^ (32 * width) :=
  value_wordsOf width n

/-- `operator+=`. -/
def plus (a b : BaseUint width) : BaseUint width :=
  ⟨addLoop 0 a.pn b.pn, by
    rw [length_addLoop _ _ _ (by rw [a.size, b.size]), a.size]⟩

theorem toNat_plus (a b : BaseUint width) :
    (a.plus b).toNat = (a.toNat + b.toNat) % 2 ^ (32 * width) := by
  have sum := value_addLoop a.pn b.pn (a.size.trans b.size.symm)
  rw [a.size] at sum
  exact sum

/-- `operator*=(uint32_t)`. -/
def timesWord (a : BaseUint width) (b32 : UInt32) : BaseUint width :=
  ⟨scaleLoop b32 0 a.pn, (length_scaleLoop b32 0 a.pn).trans a.size⟩

theorem toNat_timesWord (a : BaseUint width) (b32 : UInt32) :
    (a.timesWord b32).toNat = a.toNat * b32.toNat % 2 ^ (32 * width) := by
  have product := value_scaleLoop b32 a.pn
  rw [a.size] at product
  exact product

/-- `operator*=`. -/
def times (a b : BaseUint width) : BaseUint width :=
  ⟨rowsLoop b.pn 0 a.pn (List.replicate width 0), by
    rw [length_rowsLoop]
    · exact List.length_replicate
    · rw [List.length_replicate, b.size]⟩

theorem toNat_times (a b : BaseUint width) :
    (a.times b).toNat = a.toNat * b.toNat % 2 ^ (32 * width) := by
  have product := value_rowsLoop a.pn b.pn (a.size.trans b.size.symm)
  rw [a.size] at product
  exact product

/-- `operator/=`; none is the `uint_error`. -/
def dividedBy (a b : BaseUint width) : Option (BaseUint width) :=
  (divide a.pn b.pn).bind fun pn =>
    if size : pn.length = width then some ⟨pn, size⟩ else none

theorem dividedBy_eq {a b quotient : BaseUint width} :
    a.dividedBy b = some quotient ↔
      b.toNat ≠ 0 ∧ quotient.toNat = a.toNat / b.toNat := by
  by_cases zero : b.toNat = 0
  · have none := (divide_eq_none_iff a.pn b.pn).mpr zero
    simp [dividedBy, none, zero]
  · rcases divide_eq (a.size.trans b.size.symm) zero with
      ⟨pn, divided, length, number⟩
    have size := length.trans a.size
    simp only [dividedBy, divided, Option.bind_some, dif_pos size,
      Option.some.injEq, ne_eq, zero, not_false_eq_true, true_and]
    constructor
    · rintro rfl
      exact number
    · intro same
      apply ext_toNat
      exact number.trans same.symm

end BaseUint

/-! ## Numbers of 256 bits -/

/-- The eight words of a `uint256`. -/
def ofUInt256 (a : UInt256) : BaseUint 8 :=
  BaseUint.ofNat 8 a.toNat

def toUInt256 (a : BaseUint 8) : UInt256 :=
  BitVec.ofNat 256 a.toNat

@[simp]
theorem toNat_ofUInt256 (a : UInt256) : (ofUInt256 a).toNat = a.toNat := by
  rw [ofUInt256, BaseUint.toNat_ofNat]
  exact Nat.mod_eq_of_lt a.isLt

@[simp]
theorem toNat_toUInt256 (a : BaseUint 8) : (toUInt256 a).toNat = a.toNat := by
  rw [toUInt256, BitVec.toNat_ofNat]
  exact Nat.mod_eq_of_lt a.toNat_lt

/-- `operator+=` of `uint256`. -/
def plus (a b : UInt256) : UInt256 :=
  toUInt256 ((ofUInt256 a).plus (ofUInt256 b))

theorem plus_eq_add (a b : UInt256) : plus a b = a + b := by
  apply BitVec.eq_of_toNat_eq
  rw [plus, toNat_toUInt256, BaseUint.toNat_plus, toNat_ofUInt256,
    toNat_ofUInt256, BitVec.toNat_add]

/-- `operator*=(uint32_t)` of `uint256`. -/
def timesWord (a : UInt256) (b32 : UInt32) : UInt256 :=
  toUInt256 ((ofUInt256 a).timesWord b32)

theorem toNat_timesWord (a : UInt256) (b32 : UInt32) :
    (timesWord a b32).toNat = a.toNat * b32.toNat % 2 ^ 256 := by
  rw [timesWord, toNat_toUInt256, BaseUint.toNat_timesWord, toNat_ofUInt256]

/-- `operator*=` of `uint256`. -/
def times (a b : UInt256) : UInt256 :=
  toUInt256 ((ofUInt256 a).times (ofUInt256 b))

theorem toNat_times (a b : UInt256) :
    (times a b).toNat = a.toNat * b.toNat % 2 ^ 256 := by
  rw [times, toNat_toUInt256, BaseUint.toNat_times, toNat_ofUInt256,
    toNat_ofUInt256]

/-- The words multiply like the bit vectors. -/
theorem times_eq_mul (a b : UInt256) : times a b = a * b := by
  apply BitVec.eq_of_toNat_eq
  rw [toNat_times, BitVec.toNat_mul]

/-- `operator/=` of `uint256`; none is the `uint_error`. -/
def dividedBy (a b : UInt256) : Option UInt256 :=
  ((ofUInt256 a).dividedBy (ofUInt256 b)).map toUInt256

theorem dividedBy_eq {a b : UInt256} (nonzero : b.toNat ≠ 0) :
    dividedBy a b = some (BitVec.ofNat 256 (a.toNat / b.toNat)) := by
  have small : a.toNat / b.toNat < 2 ^ 256 :=
    Nat.lt_of_le_of_lt (Nat.div_le_self _ _) a.isLt
  have divided : (ofUInt256 a).dividedBy (ofUInt256 b) =
      some (BaseUint.ofNat 8 (a.toNat / b.toNat)) := by
    rw [BaseUint.dividedBy_eq, BaseUint.toNat_ofNat, toNat_ofUInt256,
      toNat_ofUInt256]
    exact ⟨nonzero, Nat.mod_eq_of_lt small⟩
  rw [dividedBy, divided, Option.map_some, toUInt256, BaseUint.toNat_ofNat]
  congr 2
  exact Nat.mod_eq_of_lt small

/-- `bits()` of `uint256`. -/
def bits (a : UInt256) : Nat :=
  BaseUintBits.bits (ofUInt256 a).pn

theorem bits_eq_size (a : UInt256) : bits a = a.toNat.size := by
  rw [bits, BaseUintBits.bits_eq_size]
  exact congrArg Nat.size (toNat_ofUInt256 a)

/-- `operator>>=` of `uint256`. -/
def shiftedRight (a : UInt256) (shift : Nat) : UInt256 :=
  BitVec.ofNat 256 (value (shiftRight (ofUInt256 a).pn shift))

theorem toNat_shiftedRight (a : UInt256) (shift : Nat) :
    (shiftedRight a shift).toNat = a.toNat / 2 ^ shift := by
  have same : value (ofUInt256 a).pn = a.toNat := toNat_ofUInt256 a
  rw [shiftedRight, value_shiftRight, same, BitVec.toNat_ofNat]
  exact Nat.mod_eq_of_lt (Nat.lt_of_le_of_lt (Nat.div_le_self _ _) a.isLt)

/-- `operator<<=` of `uint256`. -/
def shiftedLeft (a : UInt256) (shift : Nat) : UInt256 :=
  BitVec.ofNat 256 (value (shiftLeft (ofUInt256 a).pn shift))

theorem toNat_shiftedLeft (a : UInt256) (shift : Nat) :
    (shiftedLeft a shift).toNat = a.toNat * 2 ^ shift % 2 ^ 256 := by
  have same : value (ofUInt256 a).pn = a.toNat := toNat_ofUInt256 a
  rw [shiftedLeft, value_shiftLeft, same, (ofUInt256 a).size,
    BitVec.toNat_ofNat]
  exact Nat.mod_mod _ _

/-- `operator~` of `uint256`. -/
def complemented (a : UInt256) : UInt256 :=
  BitVec.ofNat 256 (value (complement (ofUInt256 a).pn))

theorem toNat_complemented (a : UInt256) :
    (complemented a).toNat = 2 ^ 256 - 1 - a.toNat := by
  have same : value (ofUInt256 a).pn = a.toNat := toNat_ofUInt256 a
  have flipped := value_complement (ofUInt256 a).pn
  rw [(ofUInt256 a).size, same] at flipped
  rw [complemented, BitVec.toNat_ofNat, Nat.mod_eq_of_lt]
  · omega
  · omega

/-- The bits are flipped like those of the bit vector. -/
theorem complemented_eq_not (a : UInt256) : complemented a = ~~~a := by
  apply BitVec.eq_of_toNat_eq
  rw [toNat_complemented, BitVec.toNat_not]

end PrivateDatagram.Consensus.WideOperators
