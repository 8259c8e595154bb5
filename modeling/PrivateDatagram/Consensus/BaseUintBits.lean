import PrivateDatagram.Consensus.BaseUint

/-!
# Bits of wide unsigned integers

`bits` finds the highest bit that is set.  The shifts go over the source words
in order, and each word is or-ed into the two words that its bits move to.
After `n` words the bits that are set are exactly those of the first `n`
words, moved.
-/

namespace PrivateDatagram.Consensus.BaseUintBits

open Consensus.BaseUint

/-! ## Single bits -/

/-- The word at an index, zero behind the end. -/
def wordAt (pn : List UInt32) (i : Nat) : UInt32 :=
  pn[i]?.getD 0

theorem toNat_testBit_high (p : UInt32) {bit : Nat} (high : 32 ≤ bit) :
    p.toNat.testBit bit = false := by
  apply Nat.testBit_lt_two_pow
  exact Nat.lt_of_lt_of_le p.toNat_lt
    (Nat.pow_le_pow_right (by decide) high)

theorem wordAt_of_length_le {pn : List UInt32} {i : Nat}
    (outside : pn.length ≤ i) : wordAt pn i = 0 := by
  rw [wordAt, List.getElem?_eq_none outside, Option.getD_none]

theorem value_testBit (pn : List UInt32) (j : Nat) :
    (value pn).testBit j = (wordAt pn (j / 32)).toNat.testBit (j % 32) := by
  induction pn generalizing j with
  | nil => simp [wordAt]
  | cons p pn ih =>
      rw [value_cons, Nat.add_comm, Nat.testBit_two_pow_mul_add _ p.toNat_lt]
      split_ifs with low
      · rw [Nat.div_eq_of_lt low, Nat.mod_eq_of_lt low]
        rfl
      · have next : j / 32 = (j - 32) / 32 + 1 := by omega
        have same : j % 32 = (j - 32) % 32 := by omega
        rw [ih, next, same]
        rfl

/-! ## The highest bit -/

/-- `pn[pos] & 1 << bits`. -/
def hasBit (p : UInt32) (bits : Nat) : Bool :=
  p &&& (1 <<< UInt32.ofNat bits) ≠ 0

theorem hasBit_eq_testBit (p : UInt32) {bits : Nat} (inside : bits < 32) :
    hasBit p bits = p.toNat.testBit bits := by
  have mask : ((1 : UInt32) <<< UInt32.ofNat bits).toNat = 2 ^ bits := by
    have one : (1 : UInt32).toNat = 1 := rfl
    have small : 2 ^ bits < 2 ^ 32 := Nat.pow_lt_pow_right (by decide) inside
    rw [UInt32.toNat_shiftLeft, UInt32.toNat_ofNat', one,
      Nat.mod_eq_of_lt (Nat.lt_trans inside (by decide)),
      Nat.mod_eq_of_lt inside, Nat.one_shiftLeft, Nat.mod_eq_of_lt small]
  have zero : p &&& (1 <<< UInt32.ofNat bits) = 0 ↔
      p.toNat &&& 2 ^ bits = 0 := by
    rw [← UInt32.toNat_inj, UInt32.toNat_and, mask]
    rfl
  rw [hasBit, Bool.eq_iff_iff, decide_eq_true_iff, Ne, zero,
    Nat.and_two_pow]
  cases p.toNat.testBit bits <;> simp

/-- The inner loop of `bits`, from the given bit down to the second. -/
def topBitLoop (p : UInt32) : Nat → Nat
  | 0 => 1
  | bits + 1 =>
      if hasBit p (bits + 1) then bits + 1 + 1 else topBitLoop p bits

/-- The outer loop of `bits`, on the words below the index. -/
def bitsLoop (pn : List UInt32) : Nat → Nat
  | 0 => 0
  | pos + 1 =>
      if wordAt pn pos ≠ 0 then 32 * pos + topBitLoop (wordAt pn pos) 31
      else bitsLoop pn pos

theorem size_eq_of_testBit {n bit : Nat} (set : n.testBit bit = true)
    (bounded : n < 2 ^ (bit + 1)) : n.size = bit + 1 := by
  apply Nat.le_antisymm
  · exact Nat.size_le.mpr bounded
  · exact Nat.lt_size.mpr (Nat.ge_two_pow_of_testBit set)

theorem topBitLoop_eq_size (p : UInt32) (bits : Nat) (inside : bits < 32)
    (nonzero : p.toNat ≠ 0) (bounded : p.toNat < 2 ^ (bits + 1)) :
    topBitLoop p bits = p.toNat.size := by
  induction bits with
  | zero =>
      have one : p.toNat = 1 := by omega
      rw [one, topBitLoop, Nat.size_one]
  | succ bits ih =>
      rw [topBitLoop, hasBit_eq_testBit p inside]
      split_ifs with set
      · exact (size_eq_of_testBit set bounded).symm
      · apply ih (by omega)
        apply Nat.lt_of_not_le
        intro large
        apply set
        rw [Nat.testBit_eq_decide_div_mod_eq, decide_eq_true_iff]
        have quotient : p.toNat / 2 ^ (bits + 1) = 1 := by
          apply Nat.div_eq_of_lt_le
          · omega
          · rw [Nat.pow_succ] at bounded
            omega
        rw [quotient]

/-- Above a number of `k` bits, the bits of the rest follow. -/
theorem size_add_two_pow_mul {low high k : Nat} (below : low < 2 ^ k)
    (nonzero : high ≠ 0) : (low + 2 ^ k * high).size = k + high.size := by
  have positive : 0 < high.size := Nat.size_pos.mpr (Nat.pos_of_ne_zero nonzero)
  apply Nat.le_antisymm
  · apply Nat.size_le.mpr
    have upper : high + 1 ≤ 2 ^ high.size := Nat.lt_size_self high
    calc
      low + 2 ^ k * high < 2 ^ k * (high + 1) := by
        rw [Nat.mul_succ]
        omega
      _ ≤ 2 ^ k * 2 ^ high.size := Nat.mul_le_mul_left _ upper
      _ = 2 ^ (k + high.size) := (Nat.pow_add 2 k high.size).symm
  · have lower : 2 ^ (high.size - 1) ≤ high := Nat.lt_size.mp (by omega)
    have split : k + high.size = k + (high.size - 1) + 1 := by omega
    rw [split]
    apply Nat.lt_size.mpr
    calc
      2 ^ (k + (high.size - 1)) = 2 ^ k * 2 ^ (high.size - 1) :=
        Nat.pow_add 2 k (high.size - 1)
      _ ≤ 2 ^ k * high := Nat.mul_le_mul_left _ lower
      _ ≤ low + 2 ^ k * high := Nat.le_add_left _ _

theorem bitsLoop_eq_size (pn : List UInt32) (pos : Nat) :
    bitsLoop pn pos = (value (pn.take pos)).size := by
  induction pos with
  | zero => rfl
  | succ pos ih =>
      rw [bitsLoop, value_take_succ]
      change _ = (_ + _ * (wordAt pn pos).toNat).size
      have zero : wordAt pn pos = 0 ↔ (wordAt pn pos).toNat = 0 :=
        UInt32.toNat_inj.symm
      split_ifs with nonzero
      · have some := mt zero.mpr nonzero
        rw [topBitLoop_eq_size _ _ (by decide) some (wordAt pn pos).toNat_lt,
          size_add_two_pow_mul (value_take_lt pn pos) some]
      · have none := zero.mp (not_not.mp nonzero)
        rw [ih, none, Nat.mul_zero, Nat.add_zero]

/-- `bits()`. -/
def bits (pn : List UInt32) : Nat :=
  bitsLoop pn pn.length

theorem bits_eq_size (pn : List UInt32) : bits pn = (value pn).size := by
  rw [bits, bitsLoop_eq_size, List.take_length]

/-! ## Or-ing into a word -/

/-- `pn[i] |= word`. -/
def orAt (pn : List UInt32) (i : Nat) (word : UInt32) : List UInt32 :=
  pn.modify i (· ||| word)

@[simp]
theorem length_orAt (pn : List UInt32) (i : Nat) (word : UInt32) :
    (orAt pn i word).length = pn.length :=
  List.length_modify _ _ _

theorem orAt_testBit (pn : List UInt32) {i : Nat} (word : UInt32) (j : Nat)
    (inside : i < pn.length) :
    (value (orAt pn i word)).testBit j = true ↔
      (value pn).testBit j = true ∨
        (j / 32 = i ∧ word.toNat.testBit (j % 32) = true) := by
  rw [value_testBit, value_testBit, orAt, wordAt, wordAt,
    List.getElem?_modify]
  by_cases here : i = j / 32
  · have found : pn[j / 32]? = some (wordAt pn (j / 32)) := by
      rw [wordAt, List.getElem?_eq_getElem (here ▸ inside), Option.getD_some]
    rw [found]
    simp [here]
  · simp [here, Ne.symm here]

/-! ## Shifts -/

section Shifts

variable (a : List UInt32) (k shift : Nat)

/-- One word of `operator<<=`, whose bits go to at most two words. -/
def shiftLeftStep (pn : List UInt32) (i : Nat) : List UInt32 :=
  let pn :=
    if i + k + 1 < a.length ∧ shift ≠ 0 then
      orAt pn (i + k + 1) (wordAt a i >>> UInt32.ofNat (32 - shift))
    else pn
  if i + k < a.length then
    orAt pn (i + k) (wordAt a i <<< UInt32.ofNat shift)
  else pn

/-- One word of `operator>>=`. -/
def shiftRightStep (pn : List UInt32) (i : Nat) : List UInt32 :=
  let pn :=
    if k + 1 ≤ i ∧ shift ≠ 0 then
      orAt pn (i - k - 1) (wordAt a i <<< UInt32.ofNat (32 - shift))
    else pn
  if k ≤ i then
    orAt pn (i - k) (wordAt a i >>> UInt32.ofNat shift)
  else pn

end Shifts

/-- `operator<<=`. -/
def shiftLeft (a : List UInt32) (shift : Nat) : List UInt32 :=
  (List.range a.length).foldl (shiftLeftStep a (shift / 32) (shift % 32))
    (List.replicate a.length 0)

/-- `operator>>=`. -/
def shiftRight (a : List UInt32) (shift : Nat) : List UInt32 :=
  (List.range a.length).foldl (shiftRightStep a (shift / 32) (shift % 32))
    (List.replicate a.length 0)

theorem shiftLeft_testBit (p : UInt32) {shift bit : Nat} (small : shift < 32)
    (inside : bit < 32) :
    (p <<< UInt32.ofNat shift).toNat.testBit bit = true ↔
      shift ≤ bit ∧ p.toNat.testBit (bit - shift) = true := by
  rw [UInt32.toNat_shiftLeft, UInt32.toNat_ofNat',
    Nat.mod_eq_of_lt (Nat.lt_trans small (by decide)), Nat.mod_eq_of_lt small,
    Nat.testBit_mod_two_pow, Nat.testBit_shiftLeft]
  simp [inside]

theorem shiftRight_testBit (p : UInt32) {shift : Nat} (small : shift < 32)
    (bit : Nat) :
    (p >>> UInt32.ofNat shift).toNat.testBit bit = true ↔
      bit + shift < 32 ∧ p.toNat.testBit (bit + shift) = true := by
  rw [UInt32.toNat_shiftRight, UInt32.toNat_ofNat',
    Nat.mod_eq_of_lt (Nat.lt_trans small (by decide)), Nat.mod_eq_of_lt small,
    Nat.testBit_shiftRight, Nat.add_comm]
  refine ⟨fun found => ⟨?_, found⟩, And.right⟩
  apply Nat.lt_of_not_le
  intro beyond
  rw [toNat_testBit_high p beyond] at found
  cases found

/-- Where the bits of word `i` go to the left. -/
theorem moved_left_iff (set : Nat → Prop) {i k shift j : Nat}
    (small : shift < 32) :
    (32 * k + shift ≤ j ∧ (j - (32 * k + shift)) / 32 = i ∧
        set ((j - (32 * k + shift)) % 32)) ↔
      (j / 32 = i + k ∧ shift ≤ j % 32 ∧ set (j % 32 - shift)) ∨
        (j / 32 = i + k + 1 ∧ j % 32 < shift ∧
          set (j % 32 + (32 - shift))) := by
  rcases Nat.lt_or_ge (j % 32) shift with high | low
  · constructor
    · rintro ⟨_, word, found⟩
      have place : (j - (32 * k + shift)) % 32 = j % 32 + (32 - shift) := by
        omega
      rw [place] at found
      exact .inr ⟨by omega, high, found⟩
    · rintro (⟨_, _, _⟩ | ⟨word, _, found⟩)
      · omega
      · have place : (j - (32 * k + shift)) % 32 = j % 32 + (32 - shift) := by
          omega
        rw [place]
        exact ⟨by omega, by omega, found⟩
  · constructor
    · rintro ⟨_, word, found⟩
      have place : (j - (32 * k + shift)) % 32 = j % 32 - shift := by omega
      rw [place] at found
      exact .inl ⟨by omega, low, found⟩
    · rintro (⟨word, _, found⟩ | ⟨_, _, _⟩)
      · have place : (j - (32 * k + shift)) % 32 = j % 32 - shift := by omega
        rw [place]
        exact ⟨by omega, by omega, found⟩
      · omega

/-- Where the bits of word `i` go to the right. -/
theorem moved_right_iff (set : Nat → Prop) {i k shift j : Nat}
    (small : shift < 32) :
    ((j + (32 * k + shift)) / 32 = i ∧
        set ((j + (32 * k + shift)) % 32)) ↔
      (j / 32 + k = i ∧ j % 32 + shift < 32 ∧ set (j % 32 + shift)) ∨
        (j / 32 + k + 1 = i ∧ 32 - shift ≤ j % 32 ∧
          set (j % 32 - (32 - shift))) := by
  rcases Nat.lt_or_ge (j % 32 + shift) 32 with low | high
  · have place : (j + (32 * k + shift)) % 32 = j % 32 + shift := by omega
    rw [place]
    constructor
    · rintro ⟨word, found⟩
      exact .inl ⟨by omega, low, found⟩
    · rintro (⟨word, _, found⟩ | ⟨_, _, _⟩)
      · exact ⟨by omega, found⟩
      · omega
  · have place : (j + (32 * k + shift)) % 32 = j % 32 - (32 - shift) := by
      omega
    rw [place]
    constructor
    · rintro ⟨word, found⟩
      exact .inr ⟨by omega, by omega, found⟩
    · rintro (⟨_, _, _⟩ | ⟨word, _, found⟩)
      · omega
      · exact ⟨by omega, found⟩

theorem length_shiftLeftStep (a : List UInt32) (k shift : Nat)
    (pn : List UInt32) (i : Nat) :
    (shiftLeftStep a k shift pn i).length = pn.length := by
  simp only [shiftLeftStep]
  split_ifs <;> simp only [length_orAt]

theorem length_shiftRightStep (a : List UInt32) (k shift : Nat)
    (pn : List UInt32) (i : Nat) :
    (shiftRightStep a k shift pn i).length = pn.length := by
  simp only [shiftRightStep]
  split_ifs <;> simp only [length_orAt]

/-- Or-ing in under a condition. -/
theorem orIf_testBit (pn : List UInt32) {i : Nat} (word : UInt32) (j : Nat)
    {condition : Prop} [Decidable condition]
    (inside : condition → i < pn.length) :
    (value (if condition then orAt pn i word else pn)).testBit j = true ↔
      (value pn).testBit j = true ∨
        (condition ∧ j / 32 = i ∧ word.toNat.testBit (j % 32) = true) := by
  by_cases met : condition
  · rw [if_pos met, orAt_testBit pn word j (inside met)]
    simp only [met, true_and]
  · rw [if_neg met]
    simp only [met, false_and, or_false]

/-- One step adds the bits of its word, moved, as far as there is room. -/
theorem shiftLeftStep_testBit (a pn : List UInt32) {k shift i : Nat}
    (same : pn.length = a.length) (small : shift < 32) (j : Nat) :
    (value (shiftLeftStep a k shift pn i)).testBit j = true ↔
      (value pn).testBit j = true ∨
        (j < 32 * a.length ∧ 32 * k + shift ≤ j ∧
          (j - (32 * k + shift)) / 32 = i ∧
          (wordAt a i).toNat.testBit
            ((j - (32 * k + shift)) % 32) = true) := by
  have inside : j % 32 < 32 := Nat.mod_lt j (by decide)
  have high :
      ((i + k + 1 < a.length ∧ shift ≠ 0) ∧ j / 32 = i + k + 1 ∧
          (wordAt a i >>> UInt32.ofNat (32 - shift)).toNat.testBit
            (j % 32) = true) ↔
        j < 32 * a.length ∧ j / 32 = i + k + 1 ∧ j % 32 < shift ∧
          (wordAt a i).toNat.testBit (j % 32 + (32 - shift)) = true := by
    constructor
    · rintro ⟨⟨_, some⟩, word, found⟩
      rw [shiftRight_testBit _ (by omega)] at found
      exact ⟨by omega, word, by omega, found.2⟩
    · rintro ⟨_, word, less, found⟩
      rw [shiftRight_testBit _ (by omega)]
      exact ⟨⟨by omega, by omega⟩, word, by omega, found⟩
  have low :
      (i + k < a.length ∧ j / 32 = i + k ∧
          (wordAt a i <<< UInt32.ofNat shift).toNat.testBit (j % 32) = true) ↔
        j < 32 * a.length ∧ j / 32 = i + k ∧ shift ≤ j % 32 ∧
          (wordAt a i).toNat.testBit (j % 32 - shift) = true := by
    rw [shiftLeft_testBit _ small inside]
    apply and_congr_left
    rintro ⟨word, _⟩
    omega
  have room : i + k < a.length →
      i + k < (if i + k + 1 < a.length ∧ shift ≠ 0 then
        orAt pn (i + k + 1) (wordAt a i >>> UInt32.ofNat (32 - shift))
        else pn).length := by
    intro less
    split_ifs
    · rw [length_orAt, same]
      exact less
    · rw [same]
      exact less
  simp only [shiftLeftStep]
  rw [orIf_testBit _ _ _ room, orIf_testBit pn _ j (fun met => same ▸ met.1),
    high, low, moved_left_iff
      (fun bit => (wordAt a i).toNat.testBit bit = true) small,
    and_or_left, or_assoc, or_comm (a := _ ∧ _ ∧ j % 32 < shift ∧ _)]

theorem shiftRightStep_testBit (a pn : List UInt32) {k shift i : Nat}
    (same : pn.length = a.length) (small : shift < 32) (less : i < a.length)
    (j : Nat) :
    (value (shiftRightStep a k shift pn i)).testBit j = true ↔
      (value pn).testBit j = true ∨
        ((j + (32 * k + shift)) / 32 = i ∧
          (wordAt a i).toNat.testBit
            ((j + (32 * k + shift)) % 32) = true) := by
  have inside : j % 32 < 32 := Nat.mod_lt j (by decide)
  have low :
      ((k + 1 ≤ i ∧ shift ≠ 0) ∧ j / 32 = i - k - 1 ∧
          (wordAt a i <<< UInt32.ofNat (32 - shift)).toNat.testBit
            (j % 32) = true) ↔
        j / 32 + k + 1 = i ∧ 32 - shift ≤ j % 32 ∧
          (wordAt a i).toNat.testBit (j % 32 - (32 - shift)) = true := by
    constructor
    · rintro ⟨⟨_, some⟩, word, found⟩
      rw [shiftLeft_testBit _ (by omega) inside] at found
      exact ⟨by omega, found⟩
    · rintro ⟨word, found⟩
      rw [shiftLeft_testBit _ (by omega) inside]
      exact ⟨⟨by omega, by omega⟩, by omega, found⟩
  have high :
      (k ≤ i ∧ j / 32 = i - k ∧
          (wordAt a i >>> UInt32.ofNat shift).toNat.testBit (j % 32) = true) ↔
        j / 32 + k = i ∧ j % 32 + shift < 32 ∧
          (wordAt a i).toNat.testBit (j % 32 + shift) = true := by
    rw [shiftRight_testBit _ small, ← and_assoc]
    apply and_congr_left
    rintro _
    omega
  have room : k ≤ i →
      i - k < (if k + 1 ≤ i ∧ shift ≠ 0 then
        orAt pn (i - k - 1) (wordAt a i <<< UInt32.ofNat (32 - shift))
        else pn).length := by
    intro _
    split_ifs
    · rw [length_orAt]
      omega
    · omega
  simp only [shiftRightStep]
  rw [orIf_testBit _ _ _ room, orIf_testBit pn _ j (by omega), high, low,
    moved_right_iff (fun bit => (wordAt a i).toNat.testBit bit = true) small,
    or_assoc, or_comm (a := j / 32 + k + 1 = i ∧ _)]

/-! ## All words -/

theorem length_foldl {step : List UInt32 → Nat → List UInt32}
    (keeps : ∀ pn i, (step pn i).length = pn.length) (n : Nat)
    (pn : List UInt32) :
    ((List.range n).foldl step pn).length = pn.length := by
  induction n with
  | zero => rfl
  | succ n ih =>
      rw [List.range_succ, List.foldl_append, List.foldl_cons, List.foldl_nil,
        keeps, ih]

theorem length_shiftLeft (a : List UInt32) (shift : Nat) :
    (shiftLeft a shift).length = a.length := by
  rw [shiftLeft, length_foldl (length_shiftLeftStep a _ _),
    List.length_replicate]

theorem length_shiftRight (a : List UInt32) (shift : Nat) :
    (shiftRight a shift).length = a.length := by
  rw [shiftRight, length_foldl (length_shiftRightStep a _ _),
    List.length_replicate]

/-- A loop that adds bits to zeros has those that some step adds. -/
theorem foldl_testBit {step : List UInt32 → Nat → List UInt32}
    {adds : Nat → Nat → Prop} {width : Nat}
    (keeps : ∀ pn i, (step pn i).length = pn.length)
    (spec : ∀ pn i j, pn.length = width → i < width →
      ((value (step pn i)).testBit j = true ↔
        (value pn).testBit j = true ∨ adds i j))
    {n : Nat} (within : n ≤ width) (j : Nat) :
    (value ((List.range n).foldl step
        (List.replicate width 0))).testBit j = true ↔
      ∃ i < n, adds i j := by
  induction n with
  | zero => simp [value_replicate_zero]
  | succ n ih =>
      have length : ((List.range n).foldl step
          (List.replicate width 0)).length = width := by
        rw [length_foldl keeps, List.length_replicate]
      rw [List.range_succ, List.foldl_append, List.foldl_cons, List.foldl_nil,
        spec _ _ _ length within, ih (Nat.le_of_succ_le within),
        Nat.exists_lt_succ_right]

/-- `operator<<=` multiplies by a power of two and drops what leaves. -/
theorem value_shiftLeft (a : List UInt32) (shift : Nat) :
    value (shiftLeft a shift) =
      value a * 2 ^ shift % 2 ^ (32 * a.length) := by
  have parts : 32 * (shift / 32) + shift % 32 = shift := Nat.div_add_mod _ _
  apply Nat.eq_of_testBit_eq
  intro j
  have moved := foldl_testBit (length_shiftLeftStep a (shift / 32) _)
    (fun pn i j same _ =>
      shiftLeftStep_testBit a pn same (Nat.mod_lt shift (by decide)) j)
    (Nat.le_refl a.length) j
  rw [Bool.eq_iff_iff, shiftLeft, moved, parts, Nat.testBit_mod_two_pow,
    ← Nat.shiftLeft_eq, Nat.testBit_shiftLeft]
  simp only [Bool.and_eq_true, decide_eq_true_iff, ge_iff_le,
    value_testBit a]
  constructor
  · rintro ⟨i, _, room, least, rfl, found⟩
    exact ⟨room, least, found⟩
  · rintro ⟨room, least, found⟩
    exact ⟨_, by omega, room, least, rfl, found⟩

/-- `operator>>=` divides by a power of two. -/
theorem value_shiftRight (a : List UInt32) (shift : Nat) :
    value (shiftRight a shift) = value a / 2 ^ shift := by
  have parts : 32 * (shift / 32) + shift % 32 = shift := Nat.div_add_mod _ _
  apply Nat.eq_of_testBit_eq
  intro j
  have moved := foldl_testBit (length_shiftRightStep a (shift / 32) _)
    (fun pn i j same less =>
      shiftRightStep_testBit a pn same (Nat.mod_lt shift (by decide)) less j)
    (Nat.le_refl a.length) j
  rw [Bool.eq_iff_iff, shiftRight, moved, parts,
    ← Nat.shiftRight_eq_div_pow, Nat.testBit_shiftRight, Nat.add_comm shift,
    value_testBit]
  constructor
  · rintro ⟨i, _, rfl, found⟩
    exact found
  · intro found
    refine ⟨_, ?_, rfl, found⟩
    apply Nat.lt_of_not_le
    intro outside
    rw [wordAt_of_length_le outside] at found
    simp at found

end PrivateDatagram.Consensus.BaseUintBits
