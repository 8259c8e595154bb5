import PrivateDatagram.Consensus.WideOperators

/-!
# Wide integers and their own operands

The operators are those of arithmetic modulo `2 ^ 256`.  Each takes its right
operand by reference, which may be the object that it changes.  `operator/=`
copies both operands first, and the other loops read a word before they store
it.  `operator*=` clears its object before it reads the operand, so that an
object multiplied by itself is zero.
-/

namespace PrivateDatagram.Consensus.WideIntegers

open Wire.Serialize (UInt256)
open Consensus.BaseUint
open Consensus.BaseUintBits (wordAt wordAt_of_length_le)
open WideOperators

/-! ## The product with an operand by reference -/

/-- What a reference refers to, beside the object that is changed. -/
inductive Operand where
  | other (b : UInt256)
  | itself
deriving DecidableEq, Repr

/-- The number of the operand before the operation. -/
def Operand.number (a : UInt256) : Operand → UInt256
  | other b => b
  | itself => a

/-- `b.pn`, while the object has the words `pn`. -/
def Operand.words (pn : List UInt32) : Operand → List UInt32
  | other b => (ofUInt256 b).pn
  | itself => pn

/-- The inner loop of `operator*=` from the index `i` on. -/
def innerLoop (b : Operand) (aj : UInt32) (j : Nat) :
    Nat → Nat → UInt64 → List UInt32 → List UInt32
  | 0, _, _, pn => pn
  | left + 1, i, carry, pn =>
      let n := carry + (wordAt pn (i + j)).toUInt64 +
        aj.toUInt64 * (wordAt (b.words pn) i).toUInt64
      innerLoop b aj j left (i + 1) (n >>> 32) (pn.set (i + j) (lowWord n))

/-- The outer loop of `operator*=` from the index `j` on. -/
def outerLoop (b : Operand) (a : List UInt32) :
    Nat → Nat → List UInt32 → List UInt32
  | 0, _, pn => pn
  | left + 1, j, pn =>
      outerLoop b a left (j + 1)
        (innerLoop b (wordAt a j) j (pn.length - j) 0 0 pn)

/-- `operator*=`, after `*this = 0`. -/
def timesOperand (a : UInt256) (b : Operand) : UInt256 :=
  let words := (ofUInt256 a).pn
  BitVec.ofNat 256
    (value (outerLoop b words words.length 0 (List.replicate words.length 0)))

theorem drop_eq_wordAt {pn : List UInt32} {i : Nat} (inside : i < pn.length) :
    pn.drop i = wordAt pn i :: pn.drop (i + 1) := by
  rw [List.drop_eq_getElem_cons inside, wordAt,
    List.getElem?_eq_getElem inside, Option.getD_some]

/-- The words up to one that was stored. -/
theorem take_set_succ {pn : List UInt32} {i : Nat} (inside : i < pn.length)
    (word : UInt32) : (pn.set i word).take (i + 1) = pn.take i ++ [word] := by
  rw [List.take_add_one, List.take_set_of_le (Nat.le_refl i),
    List.getElem?_set_self inside, Option.toList_some]

/-- Another object is read as it is, word by word. -/
theorem innerLoop_other (b : UInt256) (aj : UInt32) {j left i : Nat}
    (carry : UInt64) {pn : List UInt32} (size : pn.length = 8)
    (rest : i + j + left = 8) :
    innerLoop (.other b) aj j left i carry pn =
      pn.take (i + j) ++
        rowLoop aj carry (pn.drop (i + j)) ((ofUInt256 b).pn.drop i) := by
  induction left generalizing i carry pn with
  | zero =>
      have none : pn.drop (i + j) = [] := List.drop_eq_nil_of_le (by omega)
      rw [innerLoop, none, List.take_of_length_le (by omega), rowLoop,
        List.append_nil]
      rintro p _ _ _ ⟨⟩
  | succ left ih =>
      have inside : i + j < pn.length := by omega
      have operand : i < (ofUInt256 b).pn.length := by
        rw [(ofUInt256 b).size]
        omega
      have next : i + 1 + j = i + j + 1 := by omega
      rw [innerLoop, drop_eq_wordAt inside, drop_eq_wordAt operand, rowLoop,
        ih _ ((List.length_set).trans size) (by omega), next,
        take_set_succ inside, List.drop_set_of_lt (Nat.lt_succ_self _),
        List.append_assoc, List.singleton_append]
      rfl

theorem outerLoop_other (b : UInt256) (a : List UInt32) {left j : Nat}
    {pn : List UInt32} (size : pn.length = 8) (width : a.length = 8)
    (rest : j + left = 8) :
    outerLoop (.other b) a left j pn =
      rowsLoop (ofUInt256 b).pn j (a.drop j) pn := by
  induction left generalizing j pn with
  | zero =>
      have none : a.drop j = [] := List.drop_eq_nil_of_le (by omega)
      rw [outerLoop, none, rowsLoop]
  | succ left ih =>
      have inside : j < a.length := by omega
      have row := innerLoop_other b (wordAt a j) 0 size
        (by omega : 0 + j + (pn.length - j) = 8)
      rw [Nat.zero_add, List.drop_zero] at row
      have length : (pn.take j ++
          rowLoop (wordAt a j) 0 (pn.drop j) (ofUInt256 b).pn).length = 8 := by
        rw [List.length_append, length_rowLoop, List.length_take,
          List.length_drop]
        · omega
        · rw [List.length_drop, (ofUInt256 b).size]
          omega
      rw [outerLoop, drop_eq_wordAt inside, rowsLoop, row,
        ih length (by omega)]

/-- With another object the loops are those of the model without references. -/
theorem timesOperand_other (a b : UInt256) :
    timesOperand a (.other b) = times a b := by
  have size := (ofUInt256 a).size
  rw [timesOperand, outerLoop_other b _ (by rw [List.length_replicate, size])
    size (by rw [size]), List.drop_zero, size]
  rfl

/-- An object that is zero stays so when it is read as the operand. -/
theorem innerLoop_itself (aj : UInt32) (j left i width : Nat) :
    innerLoop .itself aj j left i 0 (List.replicate width 0) =
      List.replicate width 0 := by
  induction left generalizing i with
  | zero => rfl
  | succ left ih =>
      have zero : ∀ k, wordAt (List.replicate width 0) k = 0 := by
        intro k
        rw [wordAt, List.getElem?_replicate]
        split_ifs <;> rfl
      have sum : (0 : UInt64) + (0 : UInt32).toUInt64 +
          aj.toUInt64 * (0 : UInt32).toUInt64 = 0 := by
        have none : (0 : UInt32).toUInt64 = 0 := rfl
        rw [none, UInt64.mul_zero]
        rfl
      simp only [innerLoop, Operand.words, zero, sum]
      have low : lowWord 0 = 0 := rfl
      have carried : (0 : UInt64) >>> 32 = 0 := rfl
      rw [low, carried, List.set_replicate_self]
      exact ih (i + 1)

theorem outerLoop_itself (a : List UInt32) (left j width : Nat) :
    outerLoop .itself a left j (List.replicate width 0) =
      List.replicate width 0 := by
  induction left generalizing j with
  | zero => rfl
  | succ left ih =>
      rw [outerLoop, innerLoop_itself]
      exact ih (j + 1)

/-- An object multiplied by itself is zero. -/
theorem timesOperand_itself (a : UInt256) : timesOperand a .itself = 0 := by
  rw [timesOperand, outerLoop_itself, value_replicate_zero]
  rfl

/-! ## The operators -/

/-- `CompareTo`. -/
def compareTo (a b : UInt256) : Int :=
  compareLoop (ofUInt256 a).pn (ofUInt256 b).pn 8

theorem compareTo_eq_sign (a b : UInt256) :
    compareTo a b = ((a.toNat : Int) - b.toNat).sign := by
  have left : value (ofUInt256 a).pn = a.toNat := toNat_ofUInt256 a
  have right : value (ofUInt256 b).pn = b.toNat := toNat_ofUInt256 b
  rw [compareTo, compareLoop_eq_sign,
    List.take_of_length_le (Nat.le_of_eq (ofUInt256 a).size),
    List.take_of_length_le (Nat.le_of_eq (ofUInt256 b).size), left, right]

/-- `operator/=`, whose operands are both copied first. -/
def dividedByOperand (a : UInt256) (b : Operand) : Option UInt256 :=
  dividedBy a (b.number a)

/-- The operators follow the arithmetic of the numbers modulo `2 ^ 256`. -/
structure Modular (a : UInt256) (b : Operand) (b32 shift : UInt32) : Prop where
  product :
    (timesOperand a b).toNat = a.toNat * (b.number a).toNat % 2 ^ 256
  wordProduct : (timesWord a b32).toNat = a.toNat * b32.toNat % 2 ^ 256
  quotient : b.number a ≠ 0 → ∃ quotient,
    dividedByOperand a b = some quotient ∧
      quotient.toNat = a.toNat / (b.number a).toNat
  zeroDivisor : b.number a = 0 → dividedByOperand a b = none
  left :
    (shiftedLeft a shift.toNat).toNat = a.toNat * 2 ^ shift.toNat % 2 ^ 256
  right : (shiftedRight a shift.toNat).toNat = a.toNat / 2 ^ shift.toNat
  shiftedOut : 256 ≤ shift.toNat →
    shiftedLeft a shift.toNat = 0 ∧ shiftedRight a shift.toNat = 0
  noBit : bits a = 0 ↔ a = 0
  highestBit : ∀ n, bits a = n + 1 ↔
    a.toNat.testBit n = true ∧ ∀ m, n < m → a.toNat.testBit m = false
  order :
    compareTo a (b.number a) = ((a.toNat : Int) - (b.number a).toNat).sign

theorem dividedBy_zero (a : UInt256) : dividedBy a 0 = none := by
  have failed : (ofUInt256 a).dividedBy (ofUInt256 0) = none := by
    rw [← Option.not_isSome_iff_eq_none, Option.isSome_iff_exists]
    rintro ⟨quotient, divided⟩
    exact (BaseUint.dividedBy_eq.mp divided).1 (toNat_ofUInt256 0)
  rw [dividedBy, failed]
  rfl

theorem size_eq_succ_iff (x n : Nat) :
    x.size = n + 1 ↔
      x.testBit n = true ∧ ∀ m, n < m → x.testBit m = false := by
  constructor
  · intro size
    have low : 2 ^ n ≤ x := Nat.lt_size.mp (by omega)
    have high : x < 2 ^ (n + 1) := Nat.size_le.mp (by omega)
    refine ⟨Nat.testBit_of_two_pow_le_and_two_pow_add_one_gt low high, ?_⟩
    intro m above
    apply Nat.testBit_lt_two_pow
    exact Nat.lt_of_lt_of_le high (Nat.pow_le_pow_right (by decide) above)
  · rintro ⟨set, above⟩
    apply BaseUintBits.size_eq_of_testBit set
    exact Nat.lt_pow_two_of_testBit x above

/-- Counts from the width on shift everything out. -/
theorem shifted_out (a : UInt256) {shift : Nat} (out : 256 ≤ shift) :
    shiftedLeft a shift = 0 ∧ shiftedRight a shift = 0 := by
  have power : 2 ^ 256 ∣ 2 ^ shift := Nat.pow_dvd_pow 2 out
  refine ⟨?_, ?_⟩
  · apply BitVec.eq_of_toNat_eq
    rw [toNat_shiftedLeft]
    exact Nat.mod_eq_zero_of_dvd (Nat.dvd_mul_left_of_dvd power _)
  · apply BitVec.eq_of_toNat_eq
    rw [toNat_shiftedRight]
    exact Nat.div_eq_of_lt (Nat.lt_of_lt_of_le a.isLt
      (Nat.pow_le_pow_right (by decide) out))

/-- All but the product follow the numbers, and so it does where it holds. -/
theorem modular_iff_product (a : UInt256) (b : Operand) (b32 shift : UInt32) :
    Modular a b b32 shift ↔
      (timesOperand a b).toNat = a.toNat * (b.number a).toNat % 2 ^ 256 := by
  refine ⟨Modular.product, fun product => ?_⟩
  refine ⟨product, toNat_timesWord a b32, ?_, ?_, toNat_shiftedLeft a _,
    toNat_shiftedRight a _, shifted_out a, ?_, ?_, compareTo_eq_sign a _⟩
  · intro nonzero
    have positive : (b.number a).toNat ≠ 0 :=
      fun zero => nonzero (BitVec.eq_of_toNat_eq zero)
    refine ⟨_, dividedBy_eq positive, ?_⟩
    rw [BitVec.toNat_ofNat]
    exact Nat.mod_eq_of_lt (Nat.lt_of_le_of_lt (Nat.div_le_self _ _) a.isLt)
  · intro zero
    rw [dividedByOperand, zero, dividedBy_zero]
  · rw [bits_eq_size, Nat.size_eq_zero]
    constructor
    · exact fun zero => BitVec.eq_of_toNat_eq zero
    · rintro rfl
      rfl
  · intro n
    rw [bits_eq_size, size_eq_succ_iff]

/--
The operators follow the numbers for all operands that are other objects; for
the object itself they do when its square is zero modulo `2 ^ 256`.
-/
theorem wide_integers_iff (a : UInt256) (b : Operand) (b32 shift : UInt32) :
    Modular a b b32 shift ↔ (b = .itself → 2 ^ 128 ∣ a.toNat) := by
  rw [modular_iff_product]
  cases b with
  | other b =>
      rw [timesOperand_other, toNat_times]
      constructor
      · rintro _ ⟨⟩
      · intro _
        rfl
  | itself =>
      have square : 2 ^ 256 ∣ a.toNat * a.toNat ↔ 2 ^ 128 ∣ a.toNat := by
        have power : (2 : Nat) ^ 256 = (2 ^ 128) ^ 2 := by rw [← Nat.pow_mul]
        rw [power, ← Nat.pow_two]
        exact Nat.pow_dvd_pow_iff (by decide)
      rw [timesOperand_itself, Operand.number]
      constructor
      · intro none _
        exact square.mp (Nat.dvd_of_mod_eq_zero none.symm)
      · intro divides
        exact (Nat.mod_eq_zero_of_dvd (square.mpr (divides rfl))).symm

/-- The square of two is not zero. -/
theorem multiplied_by_itself :
    ¬ ∀ (a : UInt256) (b : Operand) (b32 shift : UInt32),
      Modular a b b32 shift := by
  intro claim
  have square := (claim 2 .itself 0 0).product
  rw [timesOperand_itself] at square
  exact absurd square (by decide)

end PrivateDatagram.Consensus.WideIntegers
