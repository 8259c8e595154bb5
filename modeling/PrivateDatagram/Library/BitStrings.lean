import Mathlib.Tactic.Ring

/-!
# Strings of bits

Numbers as strings of so many bits, the highest first, and the words that a
string of bits is cut into.  Cutting into words of one length is unique as
long as less than a word is left over.
-/

namespace PrivateDatagram.Library.BitStrings

variable {α β : Type}

/-- The lowest bits of a number, the highest of them first. -/
def bits : Nat → Nat → List Bool
  | 0, _ => []
  | width + 1, number => bits width (number / 2) ++ [decide (number % 2 = 1)]

@[simp]
theorem length_bits (width number : Nat) :
    (bits width number).length = width := by
  induction width generalizing number with
  | zero => rfl
  | succ width ih => rw [bits, List.length_append, ih, List.length_singleton]

@[simp]
theorem bits_nothing (number : Nat) : bits 0 number = [] :=
  rfl

/-- Two strings side by side are the string of one number. -/
theorem bits_join (high : Nat) {width low : Nat} (small : low < 2 ^ width)
    (front : Nat) :
    bits front high ++ bits width low =
      bits (front + width) (high * 2 ^ width + low) := by
  induction width generalizing low with
  | zero =>
      rw [Nat.pow_zero, Nat.lt_one_iff] at small
      rw [small, bits_nothing, List.append_nil, Nat.pow_zero, Nat.mul_one,
        Nat.add_zero, Nat.add_zero]
  | succ width ih =>
      rw [Nat.pow_succ] at small
      have half : (high * 2 ^ (width + 1) + low) / 2 =
          high * 2 ^ width + low / 2 := by
        rw [Nat.pow_succ, ← Nat.mul_assoc]
        omega
      have last : (high * 2 ^ (width + 1) + low) % 2 = low % 2 := by
        rw [Nat.pow_succ, ← Nat.mul_assoc]
        omega
      rw [← Nat.add_assoc, bits, bits, half, last, ← ih (by omega),
        List.append_assoc]

/-- The same bits cut at another place. -/
theorem bits_recut {front width high low front' width' high' low' : Nat}
    (small : low < 2 ^ width) (small' : low' < 2 ^ width')
    (length : front + width = front' + width')
    (number : high * 2 ^ width + low = high' * 2 ^ width' + low') :
    bits front high ++ bits width low =
      bits front' high' ++ bits width' low' := by
  rw [bits_join high small, bits_join high' small', length, number]

theorem bits_injective {width first second : Nat}
    (smallFirst : first < 2 ^ width) (smallSecond : second < 2 ^ width)
    (same : bits width first = bits width second) : first = second := by
  induction width generalizing first second with
  | zero => omega
  | succ width ih =>
      rw [Nat.pow_succ] at smallFirst smallSecond
      rcases List.append_inj' same rfl with ⟨front, last⟩
      have halves := ih (by omega) (by omega) front
      rw [List.singleton_inj, decide_eq_decide] at last
      omega

/-- Words of one length are read back from their string. -/
theorem flatMap_append_injective {word : α → List β} {length : Nat}
    (equal : ∀ a, (word a).length = length)
    (injective : ∀ a b, word a = word b → a = b) {first second : List α}
    {rest other : List β} (short : rest.length < length)
    (shortOther : other.length < length)
    (same : first.flatMap word ++ rest = second.flatMap word ++ other) :
    first = second ∧ rest = other := by
  induction first generalizing second with
  | nil =>
      cases second with
      | nil => exact ⟨rfl, same⟩
      | cons b second =>
          have lengths := congrArg List.length same
          simp only [List.flatMap_nil, List.nil_append, List.flatMap_cons,
            List.length_append, equal] at lengths
          omega
  | cons a first ih =>
      cases second with
      | nil =>
          have lengths := congrArg List.length same
          simp only [List.flatMap_nil, List.nil_append, List.flatMap_cons,
            List.length_append, equal] at lengths
          omega
      | cons b second =>
          rw [List.flatMap_cons, List.flatMap_cons, List.append_assoc,
            List.append_assoc] at same
          rcases List.append_inj same ((equal a).trans (equal b).symm) with
            ⟨here, later⟩
          rcases ih later with ⟨rfl, sameRest⟩
          exact ⟨by rw [injective a b here], sameRest⟩

end PrivateDatagram.Library.BitStrings
