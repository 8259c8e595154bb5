import Mathlib.Algebra.Order.Ring.Int
import Mathlib.Data.List.Induction
import Mathlib.Tactic.Ring

/-!
# Decimal texts

The decimal text of an integer, and the texts of two integers one after the
other.  Nothing marks where the first ends, so the leading digits of the
second can be read as the last digits of the first.
-/

namespace PrivateDatagram.Library.DecimalText

/-- The decimal text of a number. -/
def natText (n : Nat) : List Char :=
  Nat.toDigits 10 n

/-- The decimal text of an integer. -/
def intText : Int → List Char
  | .ofNat n => natText n
  | .negSucc n => '-' :: natText (n + 1)

theorem toString_toList (n : Int) : (toString n).toList = intText n := by
  cases n with
  | ofNat n => exact Nat.toList_repr
  | negSucc n =>
      rw [Int.toString_eq_repr]
      change ("-" ++ Nat.repr (n + 1)).toList = '-' :: natText (n + 1)
      rw [String.toList_append, Nat.toList_repr]
      rfl

/-! ## Numbers -/

theorem natText_ne_nil (n : Nat) : natText n ≠ [] :=
  Nat.toDigits_ne_nil

theorem natText_isDigit {n : Nat} {c : Char} (here : c ∈ natText n) :
    c.isDigit = true :=
  Nat.isDigit_of_mem_toDigits (by decide) (by decide) here

theorem minus_notMem_natText (n : Nat) : '-' ∉ natText n := by
  intro here
  exact absurd (natText_isDigit here) (by decide)

theorem natText_injective : Function.Injective natText := by
  intro n m same
  calc
    n = Nat.ofDigitChars 10 (natText n) 0 := Nat.ofDigitChars_ten_toDigits.symm
    _ = Nat.ofDigitChars 10 (natText m) 0 := by rw [same]
    _ = m := Nat.ofDigitChars_ten_toDigits

theorem natText_step {n : Nat} (large : 10 ≤ n) :
    natText n = natText (n / 10) ++ [Nat.digitChar (n % 10)] :=
  Nat.toDigits_of_base_le (by decide) large

/-- Two numbers side by side are the text of one. -/
theorem natText_append {n : Nat} (positive : 0 < n) (m : Nat) :
    natText n ++ natText m = natText (n * 10 ^ (natText m).length + m) := by
  induction m using Nat.base_induction 10 (by decide) with
  | single m small =>
      have single : natText m = [m.digitChar] := Nat.toDigits_of_lt_base small
      rw [single, List.length_singleton, pow_one, ← single, Nat.mul_comm]
      exact Nat.toDigits_append_toDigits (by decide) positive small
  | digit m digit small mPositive ih =>
      have parts : natText (10 * m + digit) = natText m ++ natText digit :=
        (Nat.toDigits_append_toDigits (by decide) mPositive small).symm
      have single : (natText digit).length = 1 := by
        unfold natText
        rw [Nat.toDigits_of_lt_base small, List.length_singleton]
      have whole : n * 10 ^ ((natText m).length + 1) + (10 * m + digit) =
          10 * (n * 10 ^ (natText m).length + m) + digit := by
        ring
      rw [parts, List.length_append, single, whole, ← List.append_assoc, ih]
      exact Nat.toDigits_append_toDigits (by decide) (by omega) small

/-- A nonempty beginning of the text of a number is the text of a number. -/
theorem natText_prefix {n : Nat} {front back : List Char}
    (parts : natText n = front ++ back) (nonempty : front ≠ []) :
    ∃ m, front = natText m ∧ (0 < n → 0 < m) := by
  induction back using List.reverseRecOn generalizing n with
  | nil =>
      rw [List.append_nil] at parts
      exact ⟨n, parts.symm, id⟩
  | append_singleton back c ih =>
      have large : 10 ≤ n := by
        by_contra small
        have single : natText n = [n.digitChar] :=
          Nat.toDigits_of_lt_base (by omega)
        have lengths := congrArg List.length (single.symm.trans parts)
        have positive := List.length_pos_iff.mpr nonempty
        rw [List.length_append, List.length_append, List.length_singleton,
          List.length_singleton] at lengths
        omega
      rw [natText_step large, ← List.append_assoc] at parts
      rcases ih (List.append_inj' parts rfl).1 with ⟨m, isFront, positive⟩
      exact ⟨m, isFront, fun _ => positive (by omega)⟩

/-! ## Integers -/

theorem intText_ofNat (n : Nat) : intText n = natText n := rfl

theorem intText_neg {n : Nat} (positive : 0 < n) :
    intText (-n) = '-' :: natText n := by
  cases n with
  | zero => omega
  | succ n => rfl

theorem intText_ne_nil (n : Int) : intText n ≠ [] := by
  cases n with
  | ofNat n => exact natText_ne_nil n
  | negSucc n => exact List.cons_ne_nil _ _

/-- An integer whose text has no sign is a number. -/
theorem nonneg_of_minus_notMem {n : Int} (unsigned : '-' ∉ intText n) :
    0 ≤ n := by
  cases n with
  | ofNat n => exact Int.natCast_nonneg n
  | negSucc n => exact absurd List.mem_cons_self unsigned

theorem intText_injective : Function.Injective intText := by
  intro n m same
  cases n with
  | ofNat n =>
      cases m with
      | ofNat m => exact congrArg Int.ofNat (natText_injective same)
      | negSucc m =>
          refine absurd ?_ (minus_notMem_natText n)
          change '-' ∈ intText (Int.ofNat n)
          rw [same]
          exact List.mem_cons_self
  | negSucc n =>
      cases m with
      | ofNat m =>
          refine absurd ?_ (minus_notMem_natText m)
          change '-' ∈ intText (Int.ofNat m)
          rw [← same]
          exact List.mem_cons_self
      | negSucc m =>
          have digits := natText_injective (List.cons.inj same).2
          exact congrArg Int.negSucc (Nat.succ.inj digits)

/-! ## Two integers side by side -/

/--
The leading digits of `b`, which make up `lead`, move to the end of `a`: the
outcome is `c` and `d`.
-/
def Moved (a b c d : Int) : Prop :=
  a ≠ 0 ∧ ∃ lead rest : Nat, 0 < lead ∧
    b = lead * 10 ^ (natText rest).length + rest ∧ d = rest ∧
    c = a * 10 ^ (natText lead).length + a.sign * lead

theorem append_value {n : Nat} (positive : 0 < n) (power lead : Nat) :
    (n : Int) * 10 ^ power + (n : Int).sign * lead =
      ((n * 10 ^ power + lead : Nat) : Int) := by
  rw [Int.sign_eq_one_of_pos (by omega)]
  push_cast
  ring

theorem append_neg_value {n : Nat} (positive : 0 < n) (power lead : Nat) :
    -(n : Int) * 10 ^ power + (-(n : Int)).sign * lead =
      -((n * 10 ^ power + lead : Nat) : Int) := by
  rw [Int.sign_eq_neg_one_of_neg (by omega)]
  push_cast
  ring

theorem intText_append {a : Int} (nonzero : a ≠ 0) (lead : Nat) :
    intText a ++ natText lead =
      intText (a * 10 ^ (natText lead).length + a.sign * lead) := by
  rcases Int.eq_nat_or_neg a with ⟨n, rfl | rfl⟩
  · have positive : 0 < n := by omega
    rw [append_value positive, intText_ofNat, intText_ofNat,
      natText_append positive]
  · have positive : 0 < n := by omega
    have large : 0 < n * 10 ^ (natText lead).length + lead :=
      Nat.add_pos_left (Nat.mul_pos positive (Nat.pow_pos (by decide))) _
    rw [append_neg_value positive, intText_neg positive, intText_neg large,
      List.cons_append, natText_append positive]

theorem Moved.sameText {a b c d : Int} (moved : Moved a b c d) :
    intText a ++ intText b = intText c ++ intText d := by
  rcases moved with ⟨nonzero, lead, rest, positive, rfl, rfl, rfl⟩
  have second : (lead : Int) * 10 ^ (natText rest).length + rest =
      ((lead * 10 ^ (natText rest).length + rest : Nat) : Int) := by
    push_cast
    rfl
  rw [second, intText_ofNat, intText_ofNat, ← natText_append positive,
    ← intText_append nonzero, List.append_assoc]

/-- A number with a digit behind it has several digits. -/
theorem ten_le_append {n : Nat} (positive : 0 < n) (m : Nat) :
    10 ≤ n * 10 ^ (natText m).length + m := by
  have nonempty := List.length_pos_iff.mpr (natText_ne_nil m)
  calc
    10 = 1 * 10 ^ 1 := rfl
    _ ≤ n * 10 ^ (natText m).length :=
      Nat.mul_le_mul positive (Nat.pow_le_pow_right (by decide) nonempty)
    _ ≤ n * 10 ^ (natText m).length + m := Nat.le_add_right _ _

theorem Moved.second_large {a b c d : Int} (moved : Moved a b c d) :
    10 ≤ b := by
  rcases moved with ⟨_, lead, rest, positive, rfl, _, _⟩
  exact_mod_cast ten_le_append positive rest

theorem Moved.first_large {a b c d : Int} (moved : Moved a b c d) :
    10 ≤ c.natAbs := by
  rcases moved with ⟨nonzero, lead, _, _, _, _, rfl⟩
  rcases Int.eq_nat_or_neg a with ⟨n, rfl | rfl⟩
  · have positive : 0 < n := by omega
    rw [append_value positive, Int.natAbs_natCast]
    exact ten_le_append positive lead
  · have positive : 0 < n := by omega
    rw [append_neg_value positive, Int.natAbs_neg, Int.natAbs_natCast]
    exact ten_le_append positive lead

/-- A sign stands in front of a text only. -/
theorem minus_notMem_tail {n : Int} {front back : List Char}
    (parts : intText n = front ++ back) (nonempty : front ≠ []) :
    '-' ∉ back := by
  intro here
  cases n with
  | ofNat n =>
      refine minus_notMem_natText n ?_
      rw [← intText_ofNat]
      change '-' ∈ intText (Int.ofNat n)
      rw [parts]
      exact List.mem_append_right _ here
  | negSucc n =>
      cases front with
      | nil => exact nonempty rfl
      | cons sign front =>
          refine minus_notMem_natText (n + 1) ?_
          rw [(List.cons.inj parts).2]
          exact List.mem_append_right _ here

theorem positive_of_parts {n : Nat} {front back : List Char}
    (parts : natText n = front ++ back) (front_ne : front ≠ [])
    (back_ne : back ≠ []) : 0 < n := by
  by_contra zero
  have single : natText n = ['0'] := by
    rw [Nat.eq_zero_of_not_pos zero]
    rfl
  have lengths := congrArg List.length (single.symm.trans parts)
  have frontPositive := List.length_pos_iff.mpr front_ne
  have backPositive := List.length_pos_iff.mpr back_ne
  rw [List.length_append, List.length_singleton] at lengths
  omega

/-- The characters between two cuts of one text have moved. -/
theorem moved_of_cuts {a b c d : Int} {between : List Char}
    (first : intText c = intText a ++ between)
    (second : intText b = between ++ intText d) (nonempty : between ≠ []) :
    Moved a b c d := by
  have plainBetween := minus_notMem_tail first (intText_ne_nil a)
  have plainRest := minus_notMem_tail second nonempty
  have nonnegB : 0 ≤ b := by
    apply nonneg_of_minus_notMem
    rw [second]
    intro here
    rcases List.mem_append.mp here with inBetween | inRest
    · exact plainBetween inBetween
    · exact plainRest inRest
  rcases Int.eq_ofNat_of_zero_le nonnegB with ⟨n, rfl⟩
  rcases Int.eq_ofNat_of_zero_le (nonneg_of_minus_notMem plainRest) with
    ⟨rest, rfl⟩
  rw [intText_ofNat, intText_ofNat] at second
  rcases natText_prefix second nonempty with ⟨lead, rfl, leading⟩
  have positive := leading (positive_of_parts second nonempty
    (natText_ne_nil rest))
  rw [natText_append positive] at second
  have nonzero : a ≠ 0 := by
    rintro rfl
    have nonnegC : 0 ≤ c := by
      apply nonneg_of_minus_notMem
      rw [first]
      intro here
      rcases List.mem_append.mp here with zero | inBetween
      · exact absurd zero (by decide)
      · exact plainBetween inBetween
    rcases Int.eq_ofNat_of_zero_le nonnegC with ⟨k, rfl⟩
    rcases natText_prefix first (intText_ne_nil 0) with ⟨m, zero, large⟩
    have isZero : 0 = m := natText_injective zero
    have kPositive := positive_of_parts first (intText_ne_nil 0) nonempty
    have := large kPositive
    omega
  refine ⟨nonzero, lead, rest, positive, ?_, rfl, ?_⟩
  · rw [natText_injective second]
    push_cast
    rfl
  · rw [intText_append nonzero] at first
    exact intText_injective first

/--
Two pairs of integers have one text exactly when they are equal, or digits
move from one to the other.
-/
theorem intText_append_eq_iff {a b c d : Int} :
    intText a ++ intText b = intText c ++ intText d ↔
      (a = c ∧ b = d) ∨ Moved a b c d ∨ Moved c d a b := by
  constructor
  · intro same
    rcases List.append_eq_append_iff.mp same with
      ⟨between, first, second⟩ | ⟨between, first, second⟩
    · by_cases empty : between = []
      · rw [empty, List.append_nil] at first
        rw [empty, List.nil_append] at second
        exact .inl ⟨(intText_injective first).symm, intText_injective second⟩
      · exact .inr (.inl (moved_of_cuts first second empty))
    · by_cases empty : between = []
      · rw [empty, List.append_nil] at first
        rw [empty, List.nil_append] at second
        exact .inl ⟨intText_injective first,
          (intText_injective second).symm⟩
      · exact .inr (.inr (moved_of_cuts first second empty))
  · rintro (⟨rfl, rfl⟩ | moved | moved)
    · rfl
    · exact moved.sameText
    · exact moved.sameText.symm

end PrivateDatagram.Library.DecimalText
