import Mathlib.Data.Nat.Digits.Lemmas

/-!
# Changing the radix in a buffer

A number is read digit by digit and kept in a buffer of digits in another
radix.  Both lists have the highest digit first.  A digit is taken in by
multiplying the buffer and adding, from the lowest place up; a carry is left
over only if the buffer is too short.
-/

namespace PrivateDatagram.Library.RadixBuffer

variable {base radix : Nat}

/-- `carry + radix * digits`, from the lowest place up. -/
def scaleAdd (base radix : Nat) : Nat → List Nat → List Nat × Nat
  | carry, [] => ([], carry)
  | carry, digit :: digits =>
      let sum := carry + radix * digit
      let higher := scaleAdd base radix (sum / base) digits
      (sum % base :: higher.1, higher.2)

/-- The buffer after one more digit, and the carry that is left. -/
def takeIn (base radix : Nat) (buffer : List Nat) (digit : Nat) :
    List Nat × Nat :=
  let sum := scaleAdd base radix digit buffer.reverse
  (sum.1.reverse, sum.2)

/-- The number of the digits. -/
def value (base : Nat) (digits : List Nat) : Nat :=
  Nat.ofDigits base digits.reverse

/-- The digits of a number, without leading zeros. -/
def digitsOf (base number : Nat) : List Nat :=
  (Nat.digits base number).reverse

@[simp]
theorem value_nil (base : Nat) : value base [] = 0 :=
  rfl

theorem value_append (base : Nat) (first second : List Nat) :
    value base (first ++ second) =
      value base first * base ^ second.length + value base second := by
  unfold value
  rw [List.reverse_append, Nat.ofDigits_append, List.length_reverse]
  ring

theorem value_cons (base digit : Nat) (digits : List Nat) :
    value base (digit :: digits) =
      digit * base ^ digits.length + value base digits := by
  have single : value base [digit] = digit := by
    simp [value]
  rw [← List.singleton_append, value_append, single]

theorem value_replicate (base count : Nat) :
    value base (List.replicate count 0) = 0 := by
  induction count with
  | zero => rfl
  | succ count ih => rw [List.replicate_succ, value_cons, Nat.zero_mul, ih]

/-! ## Taking in a digit -/

@[simp]
theorem length_scaleAdd (carry : Nat) (digits : List Nat) :
    (scaleAdd base radix carry digits).1.length = digits.length := by
  induction digits generalizing carry with
  | nil => rfl
  | cons digit digits ih => rw [scaleAdd, List.length_cons, ih,
      List.length_cons]

theorem scaleAdd_lt (positive : 0 < base) (carry : Nat)
    (digits : List Nat) :
    ∀ digit ∈ (scaleAdd base radix carry digits).1, digit < base := by
  induction digits generalizing carry with
  | nil => exact fun _ member => absurd member List.not_mem_nil
  | cons digit digits ih =>
      rw [scaleAdd, List.forall_mem_cons]
      exact ⟨Nat.mod_lt _ positive, ih _⟩

/-- Nothing is lost but the carry. -/
theorem ofDigits_scaleAdd (carry : Nat) (digits : List Nat) :
    Nat.ofDigits base (scaleAdd base radix carry digits).1 +
        base ^ digits.length * (scaleAdd base radix carry digits).2 =
      carry + radix * Nat.ofDigits base digits := by
  induction digits generalizing carry with
  | nil => simp [scaleAdd]
  | cons digit digits ih =>
      have rest := ih ((carry + radix * digit) / base)
      have whole := Nat.mod_add_div (carry + radix * digit) base
      simp only [scaleAdd, Nat.ofDigits_cons, List.length_cons, Nat.pow_succ']
      rw [Nat.add_assoc, Nat.mul_assoc, ← Nat.mul_add, rest, Nat.mul_add,
        ← Nat.add_assoc, whole]
      ring

/-- A digit is taken in without a carry where there is room for it. -/
theorem takeIn_room {buffer : List Nat} {digit : Nat}
    (positive : 0 < base) (small : digit < radix)
    (room : (value base buffer + 1) * radix ≤ base ^ buffer.length) :
    (takeIn base radix buffer digit).2 = 0 ∧
      (takeIn base radix buffer digit).1.length = buffer.length ∧
      value base (takeIn base radix buffer digit).1 =
        value base buffer * radix + digit ∧
      ∀ other ∈ (takeIn base radix buffer digit).1, other < base := by
  have sum : Nat.ofDigits base
        (scaleAdd base radix digit buffer.reverse).1 +
          base ^ buffer.reverse.length *
            (scaleAdd base radix digit buffer.reverse).2 =
      digit + radix * Nat.ofDigits base buffer.reverse :=
    ofDigits_scaleAdd digit buffer.reverse
  rw [List.length_reverse] at sum
  have noCarry : (takeIn base radix buffer digit).2 = 0 := by
    refine Nat.eq_zero_of_not_pos fun carry => ?_
    have heavy := Nat.le_mul_of_pos_right (base ^ buffer.length) carry
    have light : digit + radix * Nat.ofDigits base buffer.reverse <
        base ^ buffer.length := by
      unfold value at room
      rw [Nat.add_mul, Nat.mul_comm] at room
      omega
    change base ^ buffer.length ≤ base ^ buffer.length *
      (scaleAdd base radix digit buffer.reverse).2 at heavy
    omega
  refine ⟨noCarry, ?_, ?_, ?_⟩
  · simp [takeIn]
  · change (scaleAdd base radix digit buffer.reverse).2 = 0 at noCarry
    rw [noCarry, Nat.mul_zero, Nat.add_zero] at sum
    unfold value takeIn
    rw [List.reverse_reverse, sum]
    ring
  · intro other member
    exact scaleAdd_lt positive digit _ other (List.mem_reverse.mp member)

/-! ## Enough room -/

/-- A size by a rational bound on the logarithm is enough. -/
theorem pow_le_pow_of_ratio {size count digits room : Nat}
    (nonzero : digits ≠ 0) (ratio : radix ^ digits ≤ base ^ room)
    (positive : 0 < base) (enough : room * count ≤ digits * size) :
    radix ^ count ≤ base ^ size := by
  refine (Nat.pow_le_pow_iff_left nonzero).mp ?_
  calc
    (radix ^ count) ^ digits = (radix ^ digits) ^ count := by
      rw [← Nat.pow_mul, ← Nat.pow_mul, Nat.mul_comm]
    _ ≤ (base ^ room) ^ count := Nat.pow_le_pow_left ratio count
    _ = base ^ (room * count) := (Nat.pow_mul _ _ _).symm
    _ ≤ base ^ (digits * size) := Nat.pow_le_pow_right positive enough
    _ = (base ^ size) ^ digits := by rw [← Nat.pow_mul, Nat.mul_comm]

/-! ## Leading zeros -/

theorem value_digitsOf (base number : Nat) :
    value base (digitsOf base number) = number := by
  unfold value digitsOf
  rw [List.reverse_reverse, Nat.ofDigits_digits]

theorem digitsOf_lt (large : 1 < base) (number : Nat) :
    ∀ digit ∈ digitsOf base number, digit < base :=
  fun _ member => Nat.digits_lt_base large (List.mem_reverse.mp member)

/-- Digits that do not start with zero are those of their number. -/
theorem digitsOf_value (large : 1 < base) {digits : List Nat}
    (small : ∀ digit ∈ digits, digit < base)
    (proper : digits.head? ≠ some 0) :
    digitsOf base (value base digits) = digits := by
  unfold digitsOf value
  rw [Nat.digits_ofDigits base large digits.reverse
    (fun digit member => small digit (List.mem_reverse.mp member)),
    List.reverse_reverse]
  intro nonempty zero
  rw [List.getLast_reverse] at zero
  have some : digits ≠ [] := mt List.reverse_eq_nil_iff.mpr nonempty
  exact proper (by rw [List.head?_eq_some_head some, zero])

theorem digitsOf_proper (base number : Nat) :
    (digitsOf base number).head? ≠ some 0 := by
  unfold digitsOf
  rw [List.head?_reverse]
  by_cases zero : number = 0
  · rw [zero, Nat.digits_zero]
    exact Option.some_ne_none 0 ∘ Eq.symm
  · have some := Nat.digits_ne_nil_iff_ne_zero (b := base).mpr zero
    rw [List.getLast?_eq_some_getLast some, ne_eq, Option.some.injEq]
    exact Nat.getLast_digit_ne_zero base zero

/-- Without its leading zeros a buffer holds the digits of its number. -/
theorem dropWhile_zero (large : 1 < base) {buffer : List Nat}
    (small : ∀ digit ∈ buffer, digit < base) :
    buffer.dropWhile (· = 0) = digitsOf base (value base buffer) := by
  induction buffer with
  | nil => simp [digitsOf]
  | cons digit buffer ih =>
      by_cases zero : digit = 0
      · rw [List.dropWhile_cons_of_pos (by simpa using zero),
          ih fun other member => small other (List.mem_cons_of_mem _ member),
          value_cons, zero, Nat.zero_mul, Nat.zero_add]
      · rw [List.dropWhile_cons_of_neg (by simpa using zero),
          digitsOf_value large small (by simpa using zero)]

end PrivateDatagram.Library.RadixBuffer
