import Mathlib.Data.Nat.Digits.Lemmas
import Mathlib.Data.Nat.Size

/-!
# Arithmetic on digit lists of a fixed length

A list of digits in base `base`, the lowest first, denotes
`Nat.ofDigits base digits`.  `mulAdd` is one row of the written multiplication
and `rows` adds one row for each digit of the multiplier, both cut to the
length of the list.  `shiftSubtract` divides by a divisor that moves down one
place at each step.
-/

namespace PrivateDatagram.Library.LongArithmetic

/-! ## One row -/

section Rows

variable (base : Nat)

/-- Adds `factor` times the digits `xs` and a carry to the digits `ds`. -/
def mulAdd (factor : Nat) : Nat → List Nat → List Nat → List Nat
  | carry, d :: ds, x :: xs =>
      let n := carry + d + factor * x
      n % base :: mulAdd factor (n / base) ds xs
  | _, _, _ => []

theorem length_mulAdd (factor carry : Nat) (ds xs : List Nat)
    (enough : ds.length ≤ xs.length) :
    (mulAdd base factor carry ds xs).length = ds.length := by
  induction ds generalizing carry xs with
  | nil => rfl
  | cons d ds ih =>
      cases xs with
      | nil => simp at enough
      | cons x xs =>
          simp only [mulAdd, List.length_cons]
          rw [ih _ xs (Nat.le_of_succ_le_succ enough)]

/-- A row is exact up to the carry that leaves the last place. -/
theorem ofDigits_mulAdd (factor carry : Nat) (ds xs : List Nat)
    (enough : ds.length ≤ xs.length) :
    Nat.ofDigits base (mulAdd base factor carry ds xs) =
      (carry + Nat.ofDigits base ds + factor * Nat.ofDigits base xs) %
        base ^ ds.length := by
  induction ds generalizing carry xs with
  | nil =>
      simp only [mulAdd, Nat.ofDigits_nil, List.length_nil, pow_zero,
        Nat.mod_one]
  | cons d ds ih =>
      cases xs with
      | nil => simp at enough
      | cons x xs =>
          have shorter := Nat.le_of_succ_le_succ enough
          have regroup :
              carry + (d + base * Nat.ofDigits base ds) +
                  factor * (x + base * Nat.ofDigits base xs) =
                carry + d + factor * x +
                  base * (Nat.ofDigits base ds +
                    factor * Nat.ofDigits base xs) := by
            ring
          simp only [mulAdd, Nat.ofDigits_cons, List.length_cons,
            Nat.pow_succ']
          rw [ih _ xs shorter, regroup, Nat.mod_mul, Nat.add_mul_mod_self_left]
          rcases Nat.eq_zero_or_pos base with zero | positive
          · simp [zero]
          · rw [Nat.add_mul_div_left _ _ positive, ← Nat.add_assoc]

/-! ## All rows -/

/-- Row `j` is added from place `j` on. -/
def rowAt (bs : List Nat) (place factor : Nat) (acc : List Nat) :
    List Nat :=
  acc.take place ++ mulAdd base factor 0 (acc.drop place) bs

theorem length_rowAt (bs : List Nat) (place factor : Nat)
    (acc : List Nat) (same : acc.length = bs.length) :
    (rowAt base bs place factor acc).length = acc.length := by
  simp only [rowAt, List.length_append, List.length_take]
  rw [length_mulAdd]
  · simp only [List.length_drop]
    omega
  · simp only [List.length_drop]
    omega

theorem ofDigits_rowAt (bs : List Nat) (place factor : Nat)
    (acc : List Nat) (same : acc.length = bs.length)
    (inside : place ≤ acc.length) :
    Nat.ofDigits base (rowAt base bs place factor acc) ≡
      Nat.ofDigits base acc +
        base ^ place * (factor * Nat.ofDigits base bs)
      [MOD base ^ acc.length] := by
  have cut : (acc.take place).length = place := by
    simp only [List.length_take]
    omega
  have rest : (acc.drop place).length = acc.length - place := by
    simp only [List.length_drop]
  have row := ofDigits_mulAdd base factor 0 (acc.drop place) bs (by omega)
  have power :
      base ^ acc.length = base ^ place * base ^ (acc.length - place) := by
    rw [← Nat.pow_add, Nat.add_sub_cancel' inside]
  have whole : Nat.ofDigits base acc =
      Nat.ofDigits base (acc.take place) +
        base ^ place * Nat.ofDigits base (acc.drop place) := by
    conv_lhs => rw [← List.take_append_drop place acc]
    rw [Nat.ofDigits_append, cut]
  rw [rowAt, Nat.ofDigits_append, cut, row, rest, whole, power,
    Nat.zero_add, Nat.add_assoc (Nat.ofDigits base (acc.take place)),
    ← Nat.mul_add]
  apply Nat.ModEq.add_left
  apply Nat.ModEq.mul_left'
  exact Nat.mod_modEq _ _

/-- The rows of all digits of `as`, the first at place `place`. -/
def rows (bs : List Nat) : Nat → List Nat → List Nat → List Nat
  | _, [], acc => acc
  | place, a :: as, acc => rows bs (place + 1) as (rowAt base bs place a acc)

theorem ofDigits_rows (bs : List Nat) (place : Nat) (as acc : List Nat)
    (same : acc.length = bs.length) (inside : place + as.length ≤ acc.length) :
    Nat.ofDigits base (rows base bs place as acc) ≡
      Nat.ofDigits base acc +
        base ^ place * (Nat.ofDigits base as * Nat.ofDigits base bs)
      [MOD base ^ acc.length] := by
  induction as generalizing place acc with
  | nil =>
      simp only [rows, Nat.ofDigits_nil, Nat.zero_mul, Nat.mul_zero,
        Nat.add_zero]
      exact Nat.ModEq.rfl
  | cons a as ih =>
      simp only [List.length_cons] at inside
      have kept := length_rowAt base bs place a acc same
      have later := ih (place + 1) (rowAt base bs place a acc)
        (kept.trans same) (by omega)
      rw [kept] at later
      have row := ofDigits_rowAt base bs place a acc same (by omega)
      have regroup :
          Nat.ofDigits base acc +
              base ^ place * (Nat.ofDigits base (a :: as) *
                Nat.ofDigits base bs) =
            Nat.ofDigits base acc +
              base ^ place * (a * Nat.ofDigits base bs) +
              base ^ (place + 1) * (Nat.ofDigits base as *
                Nat.ofDigits base bs) := by
        simp only [Nat.ofDigits_cons, Nat.pow_succ]
        ring
      rw [regroup]
      exact later.trans (row.add_right _)

end Rows

/-! ## Division by shifting and subtracting -/

/--
The quotient and the remainder after the given number of steps.  The divisor
stands at the place of the next bit of the quotient.
-/
def shiftSubtract : Nat → Nat → Nat → Nat → Nat × Nat
  | 0, num, _, quotient => (quotient, num)
  | steps + 1, num, div, quotient =>
      if div ≤ num then
        shiftSubtract steps (num - div) (div / 2) (quotient ||| 2 ^ steps)
      else
        shiftSubtract steps num (div / 2) quotient

/-- What is left of the number is below twice the shifted divisor. -/
theorem shiftSubtract_eq (steps num divisor quotient : Nat)
    (bounded : num < divisor * 2 ^ steps) (aligned : 2 ^ steps ∣ quotient) :
    shiftSubtract steps num (divisor * 2 ^ steps / 2) quotient =
      (quotient + num / divisor, num % divisor) := by
  induction steps generalizing num quotient with
  | zero =>
      rw [pow_zero, Nat.mul_one] at bounded
      rw [shiftSubtract, Nat.div_eq_of_lt bounded, Nat.mod_eq_of_lt bounded,
        Nat.add_zero]
  | succ steps ih =>
      have halved : divisor * 2 ^ (steps + 1) / 2 = divisor * 2 ^ steps := by
        rw [Nat.pow_succ, ← Nat.mul_assoc, Nat.mul_div_cancel _ (by decide)]
      have twice : divisor * 2 ^ (steps + 1) =
          divisor * 2 ^ steps + divisor * 2 ^ steps := by
        rw [Nat.pow_succ]
        ring
      have half : 2 ^ steps ∣ quotient :=
        Nat.dvd_trans (Nat.pow_dvd_pow 2 (Nat.le_succ steps)) aligned
      have positive : 0 < divisor := by
        rcases Nat.eq_zero_or_pos divisor with zero | positive
        · simp [zero] at bounded
        · exact positive
      rw [halved, shiftSubtract]
      split_ifs with subtract
      · have bit : quotient ||| 2 ^ steps = quotient + 2 ^ steps := by
          rcases aligned with ⟨high, rfl⟩
          exact (Nat.two_pow_add_eq_or_of_lt
            (Nat.pow_lt_pow_right (by decide) (Nat.lt_succ_self steps))
            high).symm
        have step := ih (num - divisor * 2 ^ steps) (quotient + 2 ^ steps)
          (by omega) (Nat.dvd_add half (Nat.dvd_refl _))
        rw [bit, step, Nat.sub_mul_mod subtract, Nat.add_assoc]
        congr 2
        have split : num = num - divisor * 2 ^ steps + divisor * 2 ^ steps :=
          (Nat.sub_add_cancel subtract).symm
        conv_rhs => rw [split, Nat.add_mul_div_left _ _ positive]
        exact Nat.add_comm _ _
      · exact ih num quotient (by omega) half

/-- A divisor that starts below the top bit of the number leaves nothing. -/
theorem shiftSubtract_eq_div_mod (num divisor shift : Nat)
    (positive : 0 < divisor) (top : num.size ≤ divisor.size + shift) :
    shiftSubtract (shift + 1) num (divisor * 2 ^ shift) 0 =
      (num / divisor, num % divisor) := by
  have below : num < divisor * 2 ^ (shift + 1) := by
    have lower : 2 ^ (divisor.size - 1) ≤ divisor := by
      apply Nat.lt_size.mp
      have := Nat.size_pos.mpr positive
      omega
    have size := Nat.size_pos.mpr positive
    calc
      num < 2 ^ num.size := Nat.lt_size_self num
      _ ≤ 2 ^ (divisor.size + shift) := Nat.pow_le_pow_right (by decide) top
      _ = 2 ^ (divisor.size - 1) * 2 ^ (shift + 1) := by
        rw [← Nat.pow_add]
        congr 1
        omega
      _ ≤ divisor * 2 ^ (shift + 1) := Nat.mul_le_mul_right _ lower
  have whole := shiftSubtract_eq (shift + 1) num divisor 0 below
    (Nat.dvd_zero _)
  have halved : divisor * 2 ^ (shift + 1) / 2 = divisor * 2 ^ shift := by
    rw [Nat.pow_succ, ← Nat.mul_assoc, Nat.mul_div_cancel _ (by decide)]
  rw [halved, Nat.zero_add] at whole
  exact whole

end PrivateDatagram.Library.LongArithmetic
