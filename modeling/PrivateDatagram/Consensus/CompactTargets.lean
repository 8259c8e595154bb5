import PrivateDatagram.Consensus.CompactForm

/-!
# Canonical compact targets

The compact forms that `GetCompact` produces are those with a clear sign bit,
a number of at most 256 bits and a mantissa that no smaller size has room for.
They are ordered like the numbers they stand for.
-/

namespace PrivateDatagram.Consensus.CompactTargets

open Wire.Serialize (UInt256)
open ProofOfWork CompactForm

/-! ## The leading bytes -/

/-- The bytes of a number. -/
def byteLength (n : Nat) : Nat :=
  (n.size + 7) / 8

/-- The leading byte of a number. -/
def topByte (n : Nat) : Nat :=
  n / 256 ^ (byteLength n - 1)

/-- How many leading bytes stay, one less before a full leading byte. -/
def keptBytes (n : Nat) : Nat :=
  if 0x80 ≤ topByte n then 2 else 3

/-- The number with all bytes cleared behind its first ones. -/
def clearedBehind (kept n : Nat) : Nat :=
  n / 256 ^ (byteLength n - kept) * 256 ^ (byteLength n - kept)

theorem topByte_full_iff {n : Nat} (positive : 0 < n) :
    0x80 ≤ topByte n ↔ n.size = 8 * byteLength n := by
  have sized := Nat.size_pos.mpr positive
  have power : 256 ^ (byteLength n - 1) = 2 ^ (8 * (byteLength n - 1)) := by
    rw [Nat.pow_mul]
  have bit : 0x80 * 2 ^ (8 * (byteLength n - 1)) =
      2 ^ (8 * byteLength n - 1) := by
    have seven : (0x80 : Nat) = 2 ^ 7 := rfl
    rw [seven, ← Nat.pow_add]
    congr 1
    rw [byteLength]
    omega
  rw [topByte, power, Nat.le_div_iff_mul_le (Nat.two_pow_pos _), bit,
    ← Nat.lt_size, byteLength]
  omega

/-- What is left out are the bytes behind the leading ones. -/
theorem clearedBehind_keptBytes (n : Nat) :
    clearedBehind (keptBytes n) n = truncated n := by
  rcases Nat.eq_zero_or_pos n with rfl | positive
  · rw [clearedBehind, truncated, Nat.zero_div, Nat.zero_div, Nat.zero_mul,
      Nat.zero_mul]
  · have full := topByte_full_iff positive
    have dropped : byteLength n - keptBytes n = droppedBytes n := by
      rw [keptBytes, droppedBytes]
      rw [byteLength] at full ⊢
      split_ifs with top
      · have whole := full.mp top
        omega
      · have part := mt full.mpr top
        omega
    rw [clearedBehind, dropped, truncated]

/-! ## The parts of a compact form -/

/-- The size byte. -/
def sizeByte (nCompact : UInt32) : Nat :=
  nCompact.toNat >>> 24

/-- The mantissa as it stands. -/
def mantissa (nCompact : UInt32) : Nat :=
  nCompact.toNat &&& 0x007fffff

/-- A form without a sign that no other form of its number is shorter than. -/
structure Canonical (nCompact : UInt32) : Prop where
  unsigned : nCompact.toNat &&& 0x00800000 = 0
  fits : compactValue nCompact < 2 ^ 256
  shortest : nCompact = 0 ∨
    (2 ^ 15 ≤ mantissa nCompact ∧
      256 ^ (3 - sizeByte nCompact) ∣ mantissa nCompact)

theorem sizeByte_eq (nCompact : UInt32) :
    sizeByte nCompact = nCompact.toNat / 2 ^ 24 :=
  Nat.shiftRight_eq_div_pow _ _

theorem mantissa_eq (nCompact : UInt32) :
    mantissa nCompact = nCompact.toNat % 2 ^ 23 :=
  Nat.and_two_pow_sub_one_eq_mod nCompact.toNat 23

theorem signBit_clear_iff (nCompact : UInt32) :
    nCompact.toNat &&& 0x00800000 = 0 ↔ nCompact.toNat % 2 ^ 24 < 2 ^ 23 := by
  have bit : nCompact.toNat &&& 0x00800000 =
      (nCompact.toNat.testBit 23).toNat * 2 ^ 23 :=
    Nat.and_two_pow nCompact.toNat 23
  rw [bit, Nat.testBit_eq_decide_div_mod_eq]
  by_cases set : nCompact.toNat / 2 ^ 23 % 2 = 1
  · rw [decide_eq_true set, Bool.toNat_true]
    omega
  · rw [decide_eq_false set, Bool.toNat_false]
    omega

/-! ## Encoding -/

/-- The sign that is asked for does not touch the assertions. -/
theorem getCompact_isSome (a : UInt256) (fNegative : Bool) :
    (getCompact a fNegative).isSome = true := by
  rcases getCompact_eq a with ⟨nCompact, encoded, _⟩
  have unsigned : (getCompact a false).isSome = true := by
    rw [encoded]
    rfl
  simp only [getCompact, Option.isSome_ite] at unsigned ⊢
  exact unsigned

theorem compactSize_monotone : Monotone compactSize := by
  intro n m below
  have sizes := Nat.div_le_div_right (c := 8) (Nat.size_le_size below)
  rw [compactSize, compactSize]
  split_ifs <;> omega

/-- With as many bytes the greater number has the greater mantissa. -/
theorem compactMantissa_le {n m : Nat} (below : n ≤ m)
    (same : compactSize n = compactSize m) :
    compactMantissa n ≤ compactMantissa m := by
  rw [compactMantissa, compactMantissa, same]
  split_ifs
  · exact Nat.mul_le_mul_right _ below
  · exact Nat.div_le_div_right below

theorem getCompact_monotone {a b : UInt256} (below : a ≤ b)
    {left right : UInt32} (encoded : getCompact a false = some left)
    (otherEncoded : getCompact b false = some right) : left ≤ right := by
  rcases getCompact_eq a with ⟨_, found, leftParts⟩
  rcases getCompact_eq b with ⟨_, otherFound, rightParts⟩
  rw [encoded] at found
  rw [otherEncoded] at otherFound
  cases found
  cases otherFound
  have size := (getCompact_parts encoded).1
  rw [Nat.shiftRight_eq_div_pow] at size
  have number : a.toNat ≤ b.toNat := BitVec.le_def.mp below
  have sizes := compactSize_monotone number
  rw [UInt32.le_iff_toNat_le, leftParts, rightParts]
  rcases Nat.eq_or_lt_of_le sizes with same | less
  · have mantissas := compactMantissa_le number same
    omega
  · omega

/-! ## Canonical forms -/

/-- A mantissa of two or three used bytes belongs to its size. -/
theorem compactSize_of_bounds {n size : Nat} (positive : 0 < size)
    (low : 2 ^ (8 * size - 9) ≤ n) (high : n < 2 ^ (8 * size - 1)) :
    compactSize n = size := by
  have least := Nat.lt_size.mpr low
  have most := Nat.size_le.mpr high
  have nonzero : n ≠ 0 := by
    rintro rfl
    exact absurd (Nat.two_pow_pos (8 * size - 9)) (Nat.not_lt.mpr low)
  rw [compactSize, if_neg nonzero]
  omega

/-- No smaller size has room for the mantissa of a number. -/
theorem compactMantissa_shortest {n : Nat} (positive : 0 < n) :
    2 ^ 15 ≤ compactMantissa n ∧
      256 ^ (3 - compactSize n) ∣ compactMantissa n := by
  have sized := Nat.size_pos.mpr positive
  have whole : compactSize n = n.size / 8 + 1 := if_neg (by omega)
  have least : 2 ^ (8 * compactSize n - 9) ≤ n := Nat.lt_size.mp (by omega)
  have byte : (256 : Nat) = 2 ^ 8 := rfl
  rw [compactMantissa]
  split_ifs with small
  · refine ⟨?_, Nat.dvd_mul_left _ _⟩
    calc 2 ^ 15
        ≤ 2 ^ (8 * compactSize n - 9 + 8 * (3 - compactSize n)) :=
          Nat.pow_le_pow_right (by decide) (by omega)
      _ = 2 ^ (8 * compactSize n - 9) * 256 ^ (3 - compactSize n) := by
          rw [byte, ← Nat.pow_mul, ← Nat.pow_add]
      _ ≤ n * 256 ^ (3 - compactSize n) := Nat.mul_le_mul_right _ least
  · have none : 3 - compactSize n = 0 := by omega
    refine ⟨?_, by rw [none]; exact Nat.one_dvd _⟩
    rw [byte, ← Nat.pow_mul, Nat.le_div_iff_mul_le (Nat.two_pow_pos _),
      ← Nat.pow_add]
    have exponent : 15 + 8 * (compactSize n - 3) = 8 * compactSize n - 9 := by
      omega
    rw [exponent]
    exact least

/-- What is encoded is canonical. -/
theorem canonical_of_getCompact {a : UInt256} {nCompact : UInt32}
    (encoded : getCompact a false = some nCompact) : Canonical nCompact := by
  rcases getCompact_parts encoded with ⟨size, word, clear⟩
  refine ⟨(signBit_clear_iff nCompact).mpr clear, ?_, ?_⟩
  · rw [compactValue_getCompact encoded]
    exact Nat.lt_of_le_of_lt (truncated_le _) a.isLt
  · rcases Nat.eq_zero_or_pos a.toNat with zero | positive
    · left
      rcases getCompact_eq a with ⟨_, found, parts⟩
      rw [encoded] at found
      cases found
      rw [zero] at parts
      exact UInt32.toNat_inj.mp parts
    · right
      rw [sizeByte, mantissa, size, word]
      exact compactMantissa_shortest positive

/-- A mantissa that loses zeros only, in at most three bytes. -/
theorem parts_of_short {n size : Nat} (positive : 0 < size) (small : size ≤ 3)
    (low : 2 ^ 15 ≤ n * 256 ^ (3 - size))
    (high : n * 256 ^ (3 - size) < 2 ^ 23) :
    compactSize n = size ∧ compactMantissa n = n * 256 ^ (3 - size) := by
  have byte : (256 : Nat) = 2 ^ 8 := rfl
  have sized : compactSize n = size := by
    rw [byte, ← Nat.pow_mul] at low high
    apply compactSize_of_bounds positive
    · rcases Nat.eq_or_lt_of_le positive with one | more
      · rw [← one]
        apply Nat.pos_of_ne_zero
        rintro rfl
        rw [Nat.zero_mul] at low
        omega
      · have exponent : 15 = 8 * size - 9 + 8 * (3 - size) := by omega
        rw [exponent, Nat.pow_add] at low
        exact Nat.le_of_mul_le_mul_right low (Nat.two_pow_pos _)
    · have exponent : 23 = 8 * size - 1 + 8 * (3 - size) := by omega
      rw [exponent, Nat.pow_add] at high
      exact Nat.lt_of_mul_lt_mul_right high
  rw [compactMantissa, sized, if_pos small]
  exact ⟨rfl, rfl⟩

/-- A mantissa with more bytes behind it. -/
theorem parts_of_long {m size : Nat} (large : 3 < size) (low : 2 ^ 15 ≤ m)
    (high : m < 2 ^ 23) :
    compactSize (m * 256 ^ (size - 3)) = size ∧
      compactMantissa (m * 256 ^ (size - 3)) = m := by
  have byte : (256 : Nat) = 2 ^ 8 := rfl
  have sized : compactSize (m * 256 ^ (size - 3)) = size := by
    rw [byte, ← Nat.pow_mul]
    apply compactSize_of_bounds (by omega)
    · have exponent : 8 * size - 9 = 15 + 8 * (size - 3) := by omega
      rw [exponent, Nat.pow_add]
      exact Nat.mul_le_mul_right _ low
    · have exponent : 8 * size - 1 = 23 + 8 * (size - 3) := by omega
      rw [exponent, Nat.pow_add]
      exact Nat.mul_lt_mul_of_pos_right high (Nat.two_pow_pos _)
  rw [compactMantissa, sized, if_neg (by omega)]
  exact ⟨rfl, Nat.mul_div_cancel _ (Nat.pow_pos (by decide))⟩

/-- The parts of a canonical form are those of its number. -/
theorem Canonical.parts {nCompact : UInt32} (canonical : Canonical nCompact) :
    compactSize (compactValue nCompact) = sizeByte nCompact ∧
      compactMantissa (compactValue nCompact) = mantissa nCompact := by
  rcases canonical.shortest with rfl | ⟨low, whole⟩
  · decide
  · have high : mantissa nCompact < 2 ^ 23 := by
      rw [mantissa_eq]
      exact Nat.mod_lt _ (by decide)
    rcases Nat.lt_or_ge 3 (sizeByte nCompact) with large | small
    · have value : compactValue nCompact =
          mantissa nCompact * 256 ^ (sizeByte nCompact - 3) :=
        if_neg (Nat.not_le.mpr large)
      rw [value]
      exact parts_of_long large low high
    · have value : compactValue nCompact =
          mantissa nCompact / 256 ^ (3 - sizeByte nCompact) :=
        if_pos small
      have restored := Nat.div_mul_cancel whole
      have positive : 0 < sizeByte nCompact := by
        apply Nat.pos_of_ne_zero
        intro none
        rw [none] at whole
        have least := Nat.le_of_dvd (by omega) whole
        omega
      rw [value]
      rw [← restored] at low high
      have parts := parts_of_short positive small low high
      rw [restored] at parts
      exact parts

/-- A canonical form is what its number is encoded to. -/
theorem getCompact_of_canonical {nCompact : UInt32}
    (canonical : Canonical nCompact) :
    getCompact (setCompact nCompact).bnTarget false = some nCompact := by
  rcases getCompact_eq (setCompact nCompact).bnTarget with
    ⟨found, encoded, number⟩
  have clear := (signBit_clear_iff nCompact).mp canonical.unsigned
  rcases canonical.parts with ⟨size, word⟩
  rw [toNat_bnTarget canonical.fits, size, word, sizeByte_eq, mantissa_eq]
    at number
  have same : found = nCompact := by
    apply UInt32.toNat_inj.mp
    omega
  rw [encoded, same]

/--
Encoding never fails, keeps the leading bytes without a flag and keeps the
order; the forms that come back from their target are the canonical ones; and
the overflow flag is exact.
-/
theorem compact_targets :
    (∀ (x : UInt256) (fNegative : Bool),
      (getCompact x fNegative).isSome = true) ∧
    (∀ (x : UInt256) (nCompact : UInt32),
      getCompact x false = some nCompact →
        (setCompact nCompact).bnTarget.toNat =
            clearedBehind (keptBytes x.toNat) x.toNat ∧
          (setCompact nCompact).bnTarget ≤ x ∧
          (setCompact nCompact).fNegative = false ∧
          (setCompact nCompact).fOverflow = false) ∧
    (∀ (x y : UInt256) (left right : UInt32), x ≤ y →
      getCompact x false = some left → getCompact y false = some right →
        left ≤ right) ∧
    (∀ nCompact : UInt32,
      getCompact (setCompact nCompact).bnTarget false = some nCompact ↔
        Canonical nCompact) ∧
    ∀ nCompact : UInt32,
      (setCompact nCompact).fOverflow = true ↔
        2 ^ 256 ≤ compactValue nCompact := by
  refine ⟨getCompact_isSome, ?_, ?_, ?_, fOverflow_iff⟩
  · intro x nCompact encoded
    have target := setCompact_getCompact encoded
    have canonical := canonical_of_getCompact encoded
    refine ⟨?_, ?_, ?_, ?_⟩
    · rw [target, clearedBehind_keptBytes]
    · rw [BitVec.le_def, target]
      exact truncated_le x.toNat
    · rw [← Bool.not_eq_true, fNegative_iff]
      exact fun negative => negative.2 canonical.unsigned
    · rw [← Bool.not_eq_true, fOverflow_iff]
      exact Nat.not_le.mpr canonical.fits
  · intro x y left right below encoded otherEncoded
    exact getCompact_monotone below encoded otherEncoded
  · intro nCompact
    exact ⟨canonical_of_getCompact, getCompact_of_canonical⟩

end PrivateDatagram.Consensus.CompactTargets
