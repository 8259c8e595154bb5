import Mathlib.Tactic.FieldSimp
import PrivateDatagram.Library.DecimalText
import PrivateDatagram.Library.RadixBuffer

/-!
# Decimal fractions

The number that the digits before and after a decimal point stand for, and
the same number counted in units of a fixed decimal place.  Both lists have
the highest digit first.
-/

namespace PrivateDatagram.Library.DecimalFraction

open DecimalText RadixBuffer

/-- The number of the digits before and after the point. -/
def fraction (whole places : List Nat) : ℚ :=
  value 10 whole + value 10 places / 10 ^ places.length

/-- The same number in units of a decimal place that is not before the last
digit. -/
def scaled (count : Nat) (whole places : List Nat) : Nat :=
  value 10 whole * 10 ^ count + value 10 places * 10 ^ (count - places.length)

theorem scaled_eq {count : Nat} (whole : List Nat) {places : List Nat}
    (fits : places.length ≤ count) :
    (scaled count whole places : ℚ) = fraction whole places * 10 ^ count := by
  have parts : (10 : ℚ) ^ count =
      10 ^ places.length * 10 ^ (count - places.length) := by
    rw [← pow_add, Nat.add_sub_cancel' fits]
  unfold scaled fraction
  push_cast
  rw [add_mul, parts]
  field_simp

/-- Zeros after the last digit change nothing. -/
theorem scaled_zeros {count zeros : Nat} (whole : List Nat)
    {places : List Nat} (fits : places.length + zeros ≤ count) :
    scaled count whole (places ++ List.replicate zeros 0) =
      scaled count whole places := by
  have moved : count - places.length =
      zeros + (count - (places.length + zeros)) := by
    omega
  unfold scaled
  rw [value_append, value_replicate, List.length_append,
    List.length_replicate, Nat.add_zero, moved, Nat.pow_add, Nat.mul_assoc]

theorem value_lt {digits : List Nat} (small : ∀ digit ∈ digits, digit < 10) :
    value 10 digits < 10 ^ digits.length := by
  have bound := Nat.ofDigits_lt_base_pow_length (b := 10) (by decide)
    fun digit member => small digit (List.mem_reverse.mp member)
  rwa [List.length_reverse] at bound

theorem scaled_lt {count : Nat} {whole places : List Nat}
    (smallWhole : ∀ digit ∈ whole, digit < 10)
    (small : ∀ digit ∈ places, digit < 10) (fits : places.length ≤ count) :
    scaled count whole places < 10 ^ (whole.length + count) := by
  have units : value 10 places * 10 ^ (count - places.length) <
      10 ^ count := by
    calc
      value 10 places * 10 ^ (count - places.length) <
          10 ^ places.length * 10 ^ (count - places.length) :=
        Nat.mul_lt_mul_of_pos_right (value_lt small)
          (Nat.pow_pos (by decide))
      _ = 10 ^ count := by rw [← Nat.pow_add, Nat.add_sub_cancel' fits]
  calc
    scaled count whole places <
        value 10 whole * 10 ^ count + 10 ^ count :=
      Nat.add_lt_add_left units _
    _ = (value 10 whole + 1) * 10 ^ count := by ring
    _ ≤ 10 ^ whole.length * 10 ^ count :=
      Nat.mul_le_mul_right _ (value_lt smallWhole)
    _ = 10 ^ (whole.length + count) := (Nat.pow_add _ _ _).symm

/-! ## Printed numbers -/

/-- The text of a number is the text of its digits. -/
theorem exists_digits (n : Nat) :
    ∃ digits : List Nat, (∀ digit ∈ digits, digit < 10) ∧
      natText n = digits.map Nat.digitChar ∧ value 10 digits = n := by
  induction n using Nat.strong_induction_on with
  | _ n ih =>
      by_cases small : n < 10
      · refine ⟨[n], by simpa using small, ?_, by simp [value]⟩
        exact Nat.toDigits_of_lt_base small
      · rcases ih (n / 10) (by omega) with ⟨digits, below, text, number⟩
        refine ⟨digits ++ [n % 10], ?_, ?_, ?_⟩
        · intro digit member
          rcases List.mem_append.mp member with earlier | last
          · exact below digit earlier
          · rw [List.mem_singleton.mp last]
            exact Nat.mod_lt n (by decide)
        · rw [natText_step (by omega), text, List.map_append,
            List.map_singleton]
        · rw [value_append, number, value_cons]
          simp only [List.length_singleton, List.length_nil, value_nil]
          omega

theorem length_natText_le {n count : Nat} (positive : 0 < count)
    (small : n < 10 ^ count) : (natText n).length ≤ count :=
  (Nat.length_toDigits_le_iff (by decide) positive).mpr small

end PrivateDatagram.Library.DecimalFraction
