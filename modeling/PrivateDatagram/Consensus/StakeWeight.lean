import PrivateDatagram.Consensus.ProofOfStake

/-!
# The weight of a stake

`stakeTargetHit` accepts a kernel hash below the target times the weight of
the coin, one for each hundred base units.  The product keeps 256 bits.  As
long as it fits, a heavier coin accepts whatever a lighter one does.
-/

namespace PrivateDatagram.Consensus.StakeWeight

open Wire.Serialize ProofOfStake

/-- `uint256(nValueIn) / 100`, without a bound. -/
def weight (nValueIn : Int64) : Nat :=
  nValueIn.toInt.toNat / 100

/-- The target that the weight reaches, cut to 256 bits. -/
theorem stakeTargetHit_iff {nValueIn : Int64} (notNegative : 0 ≤ nValueIn)
    (hash bnTarget : UInt256) :
    stakeTargetHit hash nValueIn bnTarget = true ↔
      hash.toNat < weight nValueIn * bnTarget.toNat % 2 ^ 256 := by
  have value : nValueIn.toUInt64.toNat = nValueIn.toInt.toNat :=
    Int64.toNat_toUInt64_of_le notNegative
  have small := nValueIn.toUInt64.toNat_lt
  have quotient : (BitVec.ofNat 256 nValueIn.toUInt64.toNat / 100 :
      UInt256).toNat = weight nValueIn := by
    rw [BitVec.toNat_udiv, BitVec.toNat_ofNat,
      Nat.mod_eq_of_lt (Nat.lt_trans small (by decide)), value]
    rfl
  rw [stakeTargetHit, decide_eq_true_iff, BitVec.lt_def, BitVec.toNat_mul,
    quotient]

theorem stakeTargetHit_iff_of_fits {nValueIn : Int64}
    (notNegative : 0 ≤ nValueIn) (hash : UInt256) {bnTarget : UInt256}
    (fits : weight nValueIn * bnTarget.toNat < 2 ^ 256) :
    stakeTargetHit hash nValueIn bnTarget = true ↔
      hash.toNat < weight nValueIn * bnTarget.toNat := by
  rw [stakeTargetHit_iff notNegative, Nat.mod_eq_of_lt fits]

theorem weight_le_weight {lighter heavier : Int64}
    (less : lighter ≤ heavier) : weight lighter ≤ weight heavier := by
  have values : lighter.toInt ≤ heavier.toInt := Int64.le_iff_toInt_le.mp less
  exact Nat.div_le_div_right (Int.toNat_le_toNat values)

/--
For all hashes the test is the comparison without a bound, and keeps what a
lighter coin accepts, exactly when the heavier product fits.
-/
theorem stake_weight_iff (bnTarget : UInt256) (lighter heavier : Int64)
    (notNegative : 0 ≤ lighter) (less : lighter ≤ heavier) :
    (∀ hash : UInt256,
      (stakeTargetHit hash lighter bnTarget = true →
        stakeTargetHit hash heavier bnTarget = true) ∧
      (stakeTargetHit hash lighter bnTarget = true ↔
        hash.toNat < weight lighter * bnTarget.toNat) ∧
      (stakeTargetHit hash heavier bnTarget = true ↔
        hash.toNat < weight heavier * bnTarget.toNat)) ↔
      weight heavier * bnTarget.toNat < 2 ^ 256 := by
  have above : 0 ≤ heavier := Int64.le_trans notNegative less
  have products : weight lighter * bnTarget.toNat ≤
      weight heavier * bnTarget.toNat :=
    Nat.mul_le_mul_right _ (weight_le_weight less)
  constructor
  · intro faithful
    have greatest := (faithful (BitVec.allOnes 256)).2.2
    have top : (BitVec.allOnes 256).toNat = 2 ^ 256 - 1 :=
      BitVec.toNat_allOnes
    rw [stakeTargetHit_iff above, top] at greatest
    -- The greatest hash is below no number of 256 bits.
    have cut := Nat.mod_lt (weight heavier * bnTarget.toNat)
      (Nat.two_pow_pos 256)
    omega
  · intro fits hash
    have light := stakeTargetHit_iff_of_fits notNegative hash
      (Nat.lt_of_le_of_lt products fits)
    have heavy := stakeTargetHit_iff_of_fits above hash fits
    refine ⟨fun hit => ?_, light, heavy⟩
    apply heavy.mpr
    exact Nat.lt_of_lt_of_le (light.mp hit) products

theorem stake_weight_iff_coin :
    stakeTargetHit 9 200000000 (2 ^ 200) = true :=
  ((stake_weight_iff (2 ^ 200) 100000000 200000000 (by decide)
    (by decide)).mpr (by decide +kernel) 9).1 (by decide +kernel)

/--
At a target of `2 ^ 224` a weight of `2 ^ 32` reaches nothing at all, where a
weight of one does.
-/
theorem heavier_stake_misses :
    ¬ ∀ (hash bnTarget : UInt256) (lighter heavier : Int64),
      0 ≤ lighter → lighter ≤ heavier → heavier ≤ 12800000000000000 →
        (stakeTargetHit hash lighter bnTarget = true →
          stakeTargetHit hash heavier bnTarget = true) ∧
        (stakeTargetHit hash heavier bnTarget = true ↔
          hash.toNat < weight heavier * bnTarget.toNat) := by
  intro claim
  have heavier := (claim 0 (BitVec.ofNat 256 (2 ^ 224)) 100 429496729600
    (by decide) (by decide) (by decide)).1 (by decide +kernel)
  exact absurd heavier (by decide +kernel)

end PrivateDatagram.Consensus.StakeWeight
