import Mathlib.Tactic.Ring
import PrivateDatagram.Validation.CheckTransaction
import PrivateDatagram.Wire.Compressor

/-!
# Amounts and their codes

Compression goes from an amount to its one form, the digits before at most nine
zeros, and on to the code of the form.  Decompression goes the other way.

The arithmetic of both functions is repeated here with a failure wherever an
operation would leave the 64 bits.  What does not fail is what the functions
compute.
-/

namespace PrivateDatagram.Chainstate.AmountCompression

open Validation.CheckTransaction Wire.Compressor

/-! ## Arithmetic that does not wrap -/

/-- A result of `uint64_t` arithmetic; none if it would wrap. -/
def uint64 (exact : Int) : Option UInt64 :=
  if 0 ≤ exact ∧ exact < 2 ^ 64 then some (UInt64.ofNat exact.toNat) else none

/-- `CompressAmount`; none also for its failed assertion. -/
def compressExact (n : UInt64) : Option UInt64 :=
  if n = 0 then some 0
  else
    let (n, e) := stripZeros 9 n
    if e < 9 then
      let d := n % 10
      let n := n / 10
      if 1 ≤ d ∧ d ≤ 9 then do
        let product ← uint64 (n.toNat * 9)
        let sum ← uint64 (product.toNat + d.toNat)
        let before ← uint64 (sum.toNat - 1)
        let tens ← uint64 (before.toNat * 10)
        let next ← uint64 (1 + tens.toNat)
        uint64 (next.toNat + e)
      else none
    else do
      let before ← uint64 (n.toNat - 1)
      let tens ← uint64 (before.toNat * 10)
      let next ← uint64 (1 + tens.toNat)
      uint64 (next.toNat + 9)

/-- The last loop of `DecompressAmount`. -/
def timesTenExact : Nat → UInt64 → Option UInt64
  | 0, n => some n
  | e + 1, n => do
      let n ← uint64 (n.toNat * 10)
      timesTenExact e n

/-- The digits that `DecompressAmount` puts together. -/
def digitsExact (e x : UInt64) : Option UInt64 :=
  if e < 9 then do
    let d ← uint64 ((x % 9).toNat + 1)
    let x := x / 9
    let tens ← uint64 (x.toNat * 10)
    uint64 (tens.toNat + d.toNat)
  else uint64 (x.toNat + 1)

/-- `DecompressAmount`. -/
def decompressExact (x : UInt64) : Option UInt64 :=
  if x = 0 then some 0
  else do
    let x ← uint64 (x.toNat - 1)
    let e := x % 10
    let x := x / 10
    let n ← digitsExact e x
    timesTenExact e.toNat n

theorem uint64_eq_some_iff {exact : Int} {word : UInt64} :
    uint64 exact = some word ↔ exact = word.toNat := by
  have below := word.toNat_lt
  rw [uint64]
  constructor
  · intro fits
    split_ifs at fits with range
    have small : exact.toNat < 2 ^ 64 := by omega
    rw [← Option.some.inj fits, UInt64.toNat_ofNat_of_lt' small,
      Int.toNat_of_nonneg range.1]
  · intro same
    rw [if_pos (by omega), same, Int.toNat_natCast, UInt64.ofNat_toNat]

/-- The computation gives this number. -/
def Gives (computed : Option UInt64) (n : Nat) : Prop :=
  ∃ word : UInt64, computed = some word ∧ word.toNat = n

theorem gives_uint64 {exact : Int} {n : Nat} (same : exact = n)
    (small : n < 2 ^ 64) : Gives (uint64 exact) n := by
  have number := UInt64.toNat_ofNat_of_lt' small
  refine ⟨UInt64.ofNat n, ?_, number⟩
  rw [uint64_eq_some_iff, number, same]

/-- A step whose result fits goes on with it. -/
theorem Gives.bind {exact : Int} {next : UInt64 → Option UInt64} {n m : Nat}
    (same : exact = n) (small : n < 2 ^ 64)
    (rest : ∀ word : UInt64, word.toNat = n → Gives (next word) m) :
    Gives (uint64 exact >>= next) m := by
  rcases gives_uint64 same small with ⟨word, fits, number⟩
  rw [fits]
  exact rest word number

/-! ## Both functions on forms -/

theorem form_ne_zero {n : UInt64} {m e : Nat} (stripped : Stripped m e)
    (value : n.toNat = m * 10 ^ e) : n ≠ 0 := by
  rintro rfl
  have positive := Nat.mul_pos stripped.positive
    (Nat.pow_pos (by decide : 0 < 10) : 0 < 10 ^ e)
  rw [← value] at positive
  exact absurd positive (Nat.lt_irrefl 0)

theorem stripZeros_form {n : UInt64} {m e : Nat} (stripped : Stripped m e)
    (value : n.toNat = m * 10 ^ e) : stripZeros 9 n = (UInt64.ofNat m, e) := by
  rcases exists_form (form_ne_zero stripped value) with
    ⟨left, zeros, other, parts, found⟩
  rcases stripped_unique stripped other (value.symm.trans parts) with
    ⟨digits, exponent⟩
  rw [found, digits, exponent]

/-- Compression fails nowhere that the code fits. -/
theorem compressExact_form {n : UInt64} {m e : Nat} (stripped : Stripped m e)
    (value : n.toNat = m * 10 ^ e) (small : formCode m e < 2 ^ 64) :
    Gives (compressExact n) (formCode m e) := by
  have exponent := stripped.exponent
  have positive := stripped.positive
  have fits : m < 2 ^ 64 := by
    have below : m ≤ m * 10 ^ e :=
      Nat.le_mul_of_pos_right _ (Nat.pow_pos (by decide))
    have bounded := n.toNat_lt
    omega
  have digits := UInt64.toNat_ofNat_of_lt' fits
  have one : (1 : UInt64).toNat = 1 := rfl
  have nine : (9 : UInt64).toNat = 9 := rfl
  have ten : (10 : UInt64).toNat = 10 := rfl
  simp only [compressExact, if_neg (form_ne_zero stripped value),
    stripZeros_form stripped value]
  rw [formCode] at small ⊢
  by_cases few : e < 9
  · have last := stripped.last few
    have digit : (UInt64.ofNat m % 10).toNat = m % 10 := by
      rw [UInt64.toNat_mod, digits, ten]
    have quotient : (UInt64.ofNat m / 10).toNat = m / 10 := by
      rw [UInt64.toNat_div, digits, ten]
    have asserted : 1 ≤ UInt64.ofNat m % 10 ∧ UInt64.ofNat m % 10 ≤ 9 := by
      rw [UInt64.le_iff_toNat_le, UInt64.le_iff_toNat_le, digit, one, nine]
      omega
    rw [if_pos few] at small
    rw [if_pos few, if_pos few, if_pos asserted]
    apply Gives.bind (n := m / 10 * 9) (by omega) (by omega)
    intro product productIs
    apply Gives.bind (n := m / 10 * 9 + m % 10) (by omega) (by omega)
    intro sum sumIs
    apply Gives.bind (n := m / 10 * 9 + m % 10 - 1) (by omega) (by omega)
    intro before beforeIs
    apply Gives.bind (n := (m / 10 * 9 + m % 10 - 1) * 10) (by omega)
      (by omega)
    intro tens tensIs
    apply Gives.bind (n := 1 + (m / 10 * 9 + m % 10 - 1) * 10) (by omega)
      (by omega)
    intro next nextIs
    exact gives_uint64 (by omega) small
  · rw [if_neg few] at small
    rw [if_neg few, if_neg few]
    apply Gives.bind (n := m - 1) (by omega) (by omega)
    intro before beforeIs
    apply Gives.bind (n := (m - 1) * 10) (by omega) (by omega)
    intro tens tensIs
    apply Gives.bind (n := 1 + (m - 1) * 10) (by omega) (by omega)
    intro next nextIs
    exact gives_uint64 (by omega) small

/-- The loop fails when the product does not fit. -/
theorem timesTenExact_eq (e : Nat) (n : UInt64) :
    timesTenExact e n = uint64 (n.toNat * 10 ^ e : Nat) := by
  induction e generalizing n with
  | zero =>
      rw [timesTenExact, pow_zero, Nat.mul_one]
      exact (uint64_eq_some_iff.mpr rfl).symm
  | succ e ih =>
      have parts : n.toNat * 10 ^ (e + 1) = n.toNat * 10 * 10 ^ e := by
        rw [pow_succ', Nat.mul_assoc]
      rw [timesTenExact, parts]
      by_cases fits : n.toNat * 10 < 2 ^ 64
      · have same : (n.toNat : Int) * 10 = (n.toNat * 10 : Nat) :=
          (Int.natCast_mul _ 10).symm
        rcases gives_uint64 same fits with ⟨word, step, number⟩
        rw [step, ← number]
        exact ih word
      · have more : n.toNat * 10 ≤ n.toNat * 10 * 10 ^ e :=
          Nat.le_mul_of_pos_right _ (Nat.pow_pos (by decide))
        have stopped : uint64 ((n.toNat : Int) * 10) = none := by
          rw [uint64, if_neg (by omega)]
        rw [stopped, uint64, if_neg (by omega)]
        rfl

/-- The digits never fail to fit. -/
theorem digitsExact_gives {x e q : UInt64} (nonzero : 0 < x.toNat)
    (exponent : e.toNat = (x.toNat - 1) % 10)
    (quotient : q.toNat = (x.toNat - 1) / 10) :
    Gives (digitsExact e q) (codeDigits x.toNat) := by
  have bounded := x.toNat_lt
  have nine : (9 : UInt64).toNat = 9 := rfl
  have few : e < 9 ↔ (x.toNat - 1) % 10 < 9 := by
    rw [UInt64.lt_iff_toNat_lt, exponent, nine]
  have rest : (q % 9).toNat = (x.toNat - 1) / 10 % 9 := by
    rw [UInt64.toNat_mod, quotient, nine]
  have whole : (q / 9).toNat = (x.toNat - 1) / 10 / 9 := by
    rw [UInt64.toNat_div, quotient, nine]
  rw [digitsExact, codeDigits]
  by_cases less : (x.toNat - 1) % 10 < 9
  · rw [if_pos (few.mpr less), if_pos less]
    apply Gives.bind (n := (x.toNat - 1) / 10 % 9 + 1) (by omega) (by omega)
    intro d dIs
    apply Gives.bind (n := (x.toNat - 1) / 10 / 9 * 10) (by omega) (by omega)
    intro tens tensIs
    exact gives_uint64 (by omega) (by omega)
  · rw [if_neg (mt few.mp less), if_neg less]
    exact gives_uint64 (by omega) (by omega)

/-- Decompression fails exactly where the amount does not fit. -/
theorem decompressExact_form {x : UInt64} (nonzero : x ≠ 0) :
    decompressExact x =
      uint64 (codeDigits x.toNat * 10 ^ codeExponent x.toNat : Nat) := by
  have positive : 0 < x.toNat :=
    Nat.pos_of_ne_zero fun zero => nonzero (UInt64.toNat_inj.mp zero)
  have bounded := x.toNat_lt
  have ten : (10 : UInt64).toNat = 10 := rfl
  have same : (x.toNat : Int) - 1 = (x.toNat - 1 : Nat) := by omega
  rcases gives_uint64 same (by omega) with ⟨before, step, number⟩
  have exponent : (before % 10).toNat = (x.toNat - 1) % 10 := by
    rw [UInt64.toNat_mod, number, ten]
  have quotient : (before / 10).toNat = (x.toNat - 1) / 10 := by
    rw [UInt64.toNat_div, number, ten]
  rcases digitsExact_gives positive exponent quotient with
    ⟨digits, together, digitsIs⟩
  rw [decompressExact, if_neg nonzero, step, codeExponent, ← digitsIs,
    ← exponent, ← timesTenExact_eq]
  simp only [Option.bind_eq_bind, Option.bind_some, together]

/-! ## What does not fail is what the functions compute -/

theorem add_of_uint64 {a b sum : UInt64}
    (fits : uint64 (a.toNat + b.toNat) = some sum) : a + b = sum := by
  have exact' := uint64_eq_some_iff.mp fits
  have below := sum.toNat_lt
  apply UInt64.toNat_inj.mp
  rw [UInt64.toNat_add]
  omega

theorem sub_of_uint64 {a b rest : UInt64}
    (fits : uint64 (a.toNat - b.toNat) = some rest) : a - b = rest := by
  have exact' := uint64_eq_some_iff.mp fits
  have below := a.toNat_lt
  apply UInt64.toNat_inj.mp
  rw [UInt64.toNat_sub]
  omega

theorem mul_of_uint64 {a b product : UInt64}
    (fits : uint64 (a.toNat * b.toNat) = some product) : a * b = product := by
  have exact' := uint64_eq_some_iff.mp fits
  apply UInt64.toNat_inj.mp
  rw [← Int.natCast_mul, Int.natCast_inj] at exact'
  rw [UInt64.toNat_mul, exact', Nat.mod_eq_of_lt product.toNat_lt]

theorem compressAmount_of_exact {n x : UInt64}
    (done : compressExact n = some x) : compressAmount n = x := by
  rw [compressExact] at done
  rw [compressAmount]
  split_ifs at done ⊢ with zero
  · exact Option.some.inj done
  · have room := stripZeros_spec (Nat.le_refl 9) n
    rcases room with ⟨m, e, found, bounded, _⟩
    rw [Nat.sub_self, Nat.zero_add] at found
    rw [found] at done ⊢
    have small : e < 2 ^ 64 := by omega
    have exponent := UInt64.toNat_ofNat_of_lt' small
    simp only at done ⊢
    split_ifs at done ⊢ with few asserted
    · rcases Option.bind_eq_some_iff.mp done with ⟨product, fits, done⟩
      rw [mul_of_uint64 (b := 9) fits]
      rcases Option.bind_eq_some_iff.mp done with ⟨sum, fits, done⟩
      rw [add_of_uint64 fits]
      rcases Option.bind_eq_some_iff.mp done with ⟨before, fits, done⟩
      rw [sub_of_uint64 (b := 1) fits]
      rcases Option.bind_eq_some_iff.mp done with ⟨tens, fits, done⟩
      rw [mul_of_uint64 (b := 10) fits]
      rcases Option.bind_eq_some_iff.mp done with ⟨next, fits, done⟩
      rw [add_of_uint64 (a := 1) fits]
      rw [← exponent] at done
      exact add_of_uint64 done
    · rcases Option.bind_eq_some_iff.mp done with ⟨before, fits, done⟩
      rw [sub_of_uint64 (b := 1) fits]
      rcases Option.bind_eq_some_iff.mp done with ⟨tens, fits, done⟩
      rw [mul_of_uint64 (b := 10) fits]
      rcases Option.bind_eq_some_iff.mp done with ⟨next, fits, done⟩
      rw [add_of_uint64 (a := 1) fits]
      exact add_of_uint64 (b := 9) done

theorem timesTen_of_exact {e : Nat} {n amount : UInt64}
    (done : timesTenExact e n = some amount) : timesTen e n = amount := by
  induction e generalizing n with
  | zero => exact Option.some.inj done
  | succ e ih =>
      rw [timesTenExact] at done
      rcases Option.bind_eq_some_iff.mp done with ⟨product, fits, done⟩
      rw [timesTen, mul_of_uint64 (b := 10) fits]
      exact ih done

theorem decompressAmount_of_exact {x n : UInt64}
    (done : decompressExact x = some n) : decompressAmount x = n := by
  rw [decompressExact] at done
  rw [decompressAmount]
  split_ifs at done ⊢ with zero
  · exact Option.some.inj done
  · rcases Option.bind_eq_some_iff.mp done with ⟨before, fits, done⟩
    rw [sub_of_uint64 (b := 1) fits]
    rcases Option.bind_eq_some_iff.mp done with ⟨digits, together, done⟩
    rw [← timesTen_of_exact done]
    rw [digitsExact] at together
    simp only
    split_ifs at together ⊢ with few
    · rcases Option.bind_eq_some_iff.mp together with ⟨d, fits, together⟩
      rw [add_of_uint64 (b := 1) fits]
      rcases Option.bind_eq_some_iff.mp together with ⟨tens, fits, together⟩
      rw [mul_of_uint64 (b := 10) fits, add_of_uint64 together]
    · rw [add_of_uint64 (b := 1) together]

/-! ## The bijection -/

/-- A code whose amount fits is the code of its amount. -/
theorem compressExact_decompress {x n : UInt64}
    (done : decompressExact x = some n) : compressExact n = some x := by
  by_cases zero : x = 0
  · rw [decompressExact, if_pos zero] at done
    rw [← Option.some.inj done, zero]
    rfl
  · rw [decompressExact_form zero, uint64_eq_some_iff, Int.natCast_inj] at done
    have positive : 0 < x.toNat :=
      Nat.pos_of_ne_zero fun none => zero (UInt64.toNat_inj.mp none)
    have code := formCode_code positive
    have small : formCode (codeDigits x.toNat) (codeExponent x.toNat) <
        2 ^ 64 := by
      rw [code]
      exact x.toNat_lt
    rcases compressExact_form (stripped_code x.toNat) done.symm small with
      ⟨word, compressed, number⟩
    rw [compressed, UInt64.toNat_inj.mp (number.trans code)]

/-- An amount of sixty bits has a code, and is restored from it. -/
theorem decompressExact_compress {n : UInt64} (small : n.toNat < 2 ^ 60) :
    ∃ x, compressExact n = some x ∧ decompressExact x = some n := by
  by_cases zero : n = 0
  · rw [zero]
    exact ⟨0, rfl, rfl⟩
  · rcases exists_form zero with ⟨m, e, stripped, value, _⟩
    have bounded : m < 2 ^ 60 := by
      have below : m ≤ m * 10 ^ e :=
        Nat.le_mul_of_pos_right _ (Nat.pow_pos (by decide))
      omega
    have fits : formCode m e < 2 ^ 64 := by
      rw [formCode]
      split_ifs <;> omega
    rcases compressExact_form stripped value fits with
      ⟨x, compressed, number⟩
    refine ⟨x, compressed, ?_⟩
    have nonzero : x ≠ 0 := by
      rintro rfl
      exact absurd number (Nat.ne_of_lt (formCode_pos m e))
    rw [decompressExact_form nonzero, number, codeDigits_formCode stripped,
      codeExponent_formCode stripped, uint64_eq_some_iff, value]

/--
Amounts up to the greatest and codes whose amount fits are turned into each
other without a wrap.
-/
theorem amount_compression_bijective :
    (∀ n : UInt64, n ≤ maxMoneyOut.toUInt64 →
      compressExact n = some (compressAmount n) ∧
        decompressExact (compressAmount n) = some n ∧
        decompressAmount (compressAmount n) = n) ∧
    ∀ x n : UInt64, decompressExact x = some n →
      decompressAmount x = n ∧ compressExact n = some x ∧
        compressAmount n = x := by
  refine ⟨?_, ?_⟩
  · intro n bounded
    have most : maxMoneyOut.toUInt64.toNat < 2 ^ 60 := by decide
    have small : n.toNat < 2 ^ 60 :=
      Nat.lt_of_le_of_lt (UInt64.le_iff_toNat_le.mp bounded) most
    rcases decompressExact_compress small with ⟨x, compressed, restored⟩
    have code := compressAmount_of_exact compressed
    rw [code]
    exact ⟨compressed, restored, decompressAmount_of_exact restored⟩
  · intro x n restored
    have compressed := compressExact_decompress restored
    exact ⟨decompressAmount_of_exact restored, compressed,
      compressAmount_of_exact compressed⟩

end PrivateDatagram.Chainstate.AmountCompression
