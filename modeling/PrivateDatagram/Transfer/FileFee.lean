import Mathlib.Data.UInt

/-!
# The fee of a file

The fee grows with the size of a file and with the days for which it is kept.
It is computed in unsigned words, and a fee of zero is replaced by the rate.
-/

namespace PrivateDatagram.Transfer.FileFee

structure CFileFeeRate where
  nSatoshisPerKPerM : Int64
deriving DecidableEq, Repr

/-- The size turns the product into an unsigned one. -/
def getFee (rate : CFileFeeRate) (nSize : UInt64) (nDays : UInt32) : Int64 :=
  let nFee := (rate.nSatoshisPerKPerM.toUInt64 * nSize / 1000 *
    nDays.toUInt64).toInt64
  if nFee = 0 ∧ rate.nSatoshisPerKPerM > 0 then
    rate.nSatoshisPerKPerM
  else
    nFee

def minFileFee : CFileFeeRate := ⟨50⟩

/-! ## The charge without bounds -/

/-- The whole thousands of the product, for each day. -/
def charge (rate : CFileFeeRate) (nSize : UInt64) (nDays : UInt32) : Nat :=
  rate.nSatoshisPerKPerM.toInt.toNat * nSize.toNat / 1000 * nDays.toNat

/-- Neither the product nor the charge wraps around. -/
structure Bounded (rate : CFileFeeRate) (nSize : UInt64) (nDays : UInt32) :
    Prop where
  product : rate.nSatoshisPerKPerM.toInt.toNat * nSize.toNat < 2 ^ 64
  charge : charge rate nSize nDays < 2 ^ 63

section Monotone

variable {rate : CFileFeeRate} {nSize nSize' : UInt64} {nDays nDays' : UInt32}

theorem charge_mono (size : nSize ≤ nSize') (days : nDays ≤ nDays') :
    charge rate nSize nDays ≤ charge rate nSize' nDays' := by
  apply Nat.mul_le_mul
  · apply Nat.div_le_div_right
    exact Nat.mul_le_mul_left _ (UInt64.le_iff_toNat_le.mp size)
  · exact UInt32.le_iff_toNat_le.mp days

theorem Bounded.mono (bounded : Bounded rate nSize' nDays')
    (size : nSize ≤ nSize') (days : nDays ≤ nDays') :
    Bounded rate nSize nDays where
  product := by
    apply lt_of_le_of_lt _ bounded.product
    exact Nat.mul_le_mul_left _ (UInt64.le_iff_toNat_le.mp size)
  charge := (charge_mono size days).trans_lt bounded.charge

end Monotone

/-! ## The fee -/

section Fee

variable {rate : CFileFeeRate} {nSize : UInt64} {nDays : UInt32}

theorem toNat_charge (nonneg : 0 ≤ rate.nSatoshisPerKPerM)
    (bounded : Bounded rate nSize nDays) :
    (rate.nSatoshisPerKPerM.toUInt64 * nSize / 1000 *
      nDays.toUInt64).toNat = charge rate nSize nDays := by
  have product := bounded.product
  have small := bounded.charge
  have toNat : rate.nSatoshisPerKPerM.toUInt64.toNat =
      rate.nSatoshisPerKPerM.toInt.toNat :=
    Int64.toNat_toUInt64_of_le nonneg
  have thousand : (1000 : UInt64).toNat = 1000 := rfl
  simp only [charge] at small ⊢
  rw [UInt64.toNat_mul, UInt64.toNat_div, UInt64.toNat_mul, toNat, thousand,
    UInt32.toNat_toUInt64, Nat.mod_eq_of_lt product,
    Nat.mod_eq_of_lt (small.trans (by decide))]

theorem toInt_toInt64 {word : UInt64} (small : word.toNat < 2 ^ 63) :
    word.toInt64.toInt = word.toNat := by
  rw [← Int64.toInt_toBitVec, UInt64.toBitVec_toInt64,
    BitVec.toInt_eq_toNat_of_lt, UInt64.toNat_toBitVec]
  rw [UInt64.toNat_toBitVec]
  omega

theorem toInt_nonneg (nonneg : 0 ≤ rate.nSatoshisPerKPerM) :
    0 ≤ rate.nSatoshisPerKPerM.toInt := by
  simpa using Int64.le_iff_toInt_le.mp nonneg

/-- The fee is the charge, or the rate where there is none. -/
theorem toInt_getFee (nonneg : 0 ≤ rate.nSatoshisPerKPerM)
    (bounded : Bounded rate nSize nDays) :
    (getFee rate nSize nDays).toInt =
      if charge rate nSize nDays = 0 then rate.nSatoshisPerKPerM.toInt
      else charge rate nSize nDays := by
  have toNat := toNat_charge nonneg bounded
  have toInt := toInt_toInt64 (toNat ▸ bounded.charge)
  rw [toNat] at toInt
  have zero : (rate.nSatoshisPerKPerM.toUInt64 * nSize / 1000 *
      nDays.toUInt64).toInt64 = 0 ↔ charge rate nSize nDays = 0 := by
    rw [← Int64.toInt_inj, toInt, Int64.toInt_zero, Int.natCast_eq_zero]
  have least := toInt_nonneg nonneg
  simp only [getFee, zero]
  split_ifs with minimum none
  · rfl
  · exact absurd minimum.1 none
  · have rateZero : ¬ 0 < rate.nSatoshisPerKPerM.toInt := by
      intro positive
      apply minimum
      exact ⟨‹_›, Int64.lt_iff_toInt_lt.mpr (by simpa using positive)⟩
    rw [toInt, ‹charge rate nSize nDays = 0›]
    exact (le_antisymm (not_lt.mp rateZero) least).symm
  · exact toInt

end Fee

/-- A larger or longer kept file does not cost less, but where there is no
charge for the other one and the rate is above the charge for this one. -/
theorem file_fee_monotone (rate : CFileFeeRate) (nSize nSize' : UInt64)
    (nDays nDays' : UInt32) (nonneg : 0 ≤ rate.nSatoshisPerKPerM)
    (size : nSize ≤ nSize') (days : nDays ≤ nDays')
    (bounded : Bounded rate nSize' nDays') :
    0 ≤ getFee rate nSize nDays ∧
      (getFee rate nSize nDays ≤ getFee rate nSize' nDays' ↔
        ¬ (charge rate nSize nDays = 0 ∧ 0 < charge rate nSize' nDays' ∧
          charge rate nSize' nDays' <
            rate.nSatoshisPerKPerM.toInt.toNat)) := by
  have less : charge rate nSize nDays ≤ charge rate nSize' nDays' :=
    charge_mono size days
  have least := toInt_nonneg nonneg
  have fee := toInt_getFee nonneg (bounded.mono size days)
  have fee' := toInt_getFee nonneg bounded
  constructor
  · apply Int64.le_iff_toInt_le.mpr
    rw [fee, Int64.toInt_zero]
    split_ifs
    · exact least
    · exact Int.natCast_nonneg _
  · rw [Int64.le_iff_toInt_le, fee, fee']
    split_ifs <;> omega

/-- Two files under the rate of the network. -/
theorem file_fee_monotone_network :
    0 ≤ getFee minFileFee 1000 1 ∧
      (getFee minFileFee 1000 1 ≤ getFee minFileFee 2000 30 ↔
        ¬ (charge minFileFee 1000 1 = 0 ∧ 0 < charge minFileFee 2000 30 ∧
          charge minFileFee 2000 30 <
            minFileFee.nSatoshisPerKPerM.toInt.toNat)) :=
  file_fee_monotone minFileFee 1000 2000 1 30 (by decide) (by decide)
    (by decide) ⟨by decide, by decide⟩

/-- One byte costs more than twenty, and a long kept file may have a negative
fee. -/
theorem file_fee_not_monotone :
    (1 : UInt64) ≤ 20 ∧
      ¬ getFee minFileFee 1 1 ≤ getFee minFileFee 20 1 ∧
      Bounded minFileFee 20 1 ∧
      getFee minFileFee 288230376151711744 1000 < 0 := by
  refine ⟨by decide, by decide, ⟨by decide, by decide⟩, by decide⟩

end PrivateDatagram.Transfer.FileFee
