import Mathlib.Tactic.NormNum.Pow
import PrivateDatagram.Wire.Serialize

/-!
# Proof of work

`SetCompact` decodes the 32 bits of `nBits` into a 256-bit target, with flags
for a negative number and for one that does not fit.  The flags are exact:
`compactValue` is the number that the bits denote, of any size, and the target
is that number whenever the overflow flag is clear.

`CheckProofOfWork` compares the target with the limit of the network.  The
comparison of the hash with the target is commented out in the source.
-/

namespace PrivateDatagram.Consensus.ProofOfWork

open Wire.Serialize

/-! ## The compact form -/

structure Compact where
  bnTarget : UInt256
  fNegative : Bool
  fOverflow : Bool
deriving DecidableEq, Repr

/-- The mantissa, shifted down when the size is below three bytes. -/
def compactWord (nCompact : UInt32) : Nat :=
  let nSize := nCompact.toNat >>> 24
  let nWord := nCompact.toNat &&& 0x007fffff
  if nSize ≤ 3 then nWord >>> (8 * (3 - nSize)) else nWord

/-- `SetCompact`. -/
def setCompact (nCompact : UInt32) : Compact :=
  let nSize := nCompact.toNat >>> 24
  let nWord := compactWord nCompact
  { bnTarget :=
      if nSize ≤ 3 then
        BitVec.ofNat 256 nWord
      else
        BitVec.ofNat 256 nWord <<< (8 * (nSize - 3))
    fNegative := nWord ≠ 0 && nCompact.toNat &&& 0x00800000 ≠ 0
    fOverflow := nWord ≠ 0 && (nSize > 34 || (nWord > 0xff && nSize > 33) ||
      (nWord > 0xffff && nSize > 32)) }

/-- The number that the bits denote, sign apart. -/
def compactValue (nCompact : UInt32) : Nat :=
  let nSize := nCompact.toNat >>> 24
  let nWord := nCompact.toNat &&& 0x007fffff
  if nSize ≤ 3 then nWord / 256 ^ (3 - nSize) else nWord * 256 ^ (nSize - 3)

theorem compactWord_lt (nCompact : UInt32) :
    compactWord nCompact < 2 ^ 23 := by
  have masked : nCompact.toNat &&& 0x007fffff < 2 ^ 23 :=
    Nat.lt_of_le_of_lt Nat.and_le_right (by decide)
  unfold compactWord
  dsimp only
  split_ifs
  · exact Nat.lt_of_le_of_lt (Nat.shiftRight_le _ _) masked
  · exact masked

theorem compactValue_of_small {nCompact : UInt32}
    (small : nCompact.toNat >>> 24 ≤ 3) :
    compactValue nCompact = compactWord nCompact := by
  unfold compactValue compactWord
  dsimp only
  rw [if_pos small, if_pos small]
  generalize nCompact.toNat >>> 24 = nSize
  rw [Nat.shiftRight_eq_div_pow, Nat.pow_mul]

theorem compactValue_of_large {nCompact : UInt32}
    (large : ¬ nCompact.toNat >>> 24 ≤ 3) :
    compactValue nCompact =
      compactWord nCompact * 256 ^ (nCompact.toNat >>> 24 - 3) := by
  unfold compactValue compactWord
  dsimp only
  rw [if_neg large, if_neg large]

theorem compactValue_eq_zero_iff (nCompact : UInt32) :
    compactValue nCompact = 0 ↔ compactWord nCompact = 0 := by
  by_cases small : nCompact.toNat >>> 24 ≤ 3
  · rw [compactValue_of_small small]
  · rw [compactValue_of_large small, Nat.mul_eq_zero]
    simp

/-- The three tests for overflow, each for one more byte of the mantissa. -/
theorem two_pow_256_le_iff {nWord nSize : Nat} (bound : nWord < 2 ^ 23) :
    2 ^ 256 ≤ nWord * 256 ^ (nSize - 3) ↔
      nWord ≠ 0 ∧ ((nSize > 34 ∨ (nWord > 0xff ∧ nSize > 33)) ∨
        (nWord > 0xffff ∧ nSize > 32)) := by
  have bytes : (2 : Nat) ^ 256 = 256 ^ 32 := by decide
  rw [bytes]
  rcases Nat.lt_or_ge nSize 33 with fits | atLeast
  · have small : nWord * 256 ^ (nSize - 3) < 256 ^ 32 :=
      calc
        nWord * 256 ^ (nSize - 3) ≤ nWord * 256 ^ 29 :=
          Nat.mul_le_mul_left _ (Nat.pow_le_pow_right (by decide) (by omega))
        _ < 2 ^ 23 * 256 ^ 29 :=
          Nat.mul_lt_mul_of_pos_right bound (by decide)
        _ ≤ 256 ^ 32 := by decide
    omega
  · rcases Nat.lt_or_ge 34 nSize with beyond | atMost
    · have power : 256 ^ 32 ≤ 256 ^ (nSize - 3) :=
        Nat.pow_le_pow_right (by decide) (by omega)
      by_cases zero : nWord = 0
      · simp [zero]
      · have large : 256 ^ 32 ≤ nWord * 256 ^ (nSize - 3) :=
          Nat.le_trans power (Nat.le_mul_of_pos_left _ (by omega))
        exact ⟨fun _ => ⟨zero, .inl (.inl beyond)⟩, fun _ => large⟩
    · have sizes : nSize = 33 ∨ nSize = 34 := by omega
      rcases sizes with rfl | rfl
      · norm_num
        omega
      · norm_num
        omega

theorem fOverflow_iff (nCompact : UInt32) :
    (setCompact nCompact).fOverflow = true ↔
      2 ^ 256 ≤ compactValue nCompact := by
  have bound := compactWord_lt nCompact
  unfold setCompact
  simp only [Bool.and_eq_true, Bool.or_eq_true, decide_eq_true_eq]
  by_cases small : nCompact.toNat >>> 24 ≤ 3
  · rw [compactValue_of_small small]
    constructor
    · omega
    · intro large
      have : (2 : Nat) ^ 23 < 2 ^ 256 := by decide
      omega
  · rw [compactValue_of_large small, two_pow_256_le_iff bound]

theorem fNegative_iff (nCompact : UInt32) :
    (setCompact nCompact).fNegative = true ↔
      compactValue nCompact ≠ 0 ∧ nCompact.toNat &&& 0x00800000 ≠ 0 := by
  rw [Ne, compactValue_eq_zero_iff]
  simp [setCompact]

/-- What fits is decoded exactly. -/
theorem toNat_bnTarget {nCompact : UInt32}
    (fits : compactValue nCompact < 2 ^ 256) :
    (setCompact nCompact).bnTarget.toNat = compactValue nCompact := by
  unfold setCompact
  dsimp only
  by_cases small : nCompact.toNat >>> 24 ≤ 3
  · rw [compactValue_of_small small] at fits ⊢
    rw [if_pos small, BitVec.toNat_ofNat, Nat.mod_eq_of_lt fits]
  · rw [compactValue_of_large small] at fits ⊢
    have power : 256 ^ (nCompact.toNat >>> 24 - 3) =
        2 ^ (8 * (nCompact.toNat >>> 24 - 3)) := by
      rw [Nat.pow_mul]
    have word : compactWord nCompact < 2 ^ 256 :=
      Nat.lt_trans (compactWord_lt nCompact) (by decide)
    rw [power] at fits ⊢
    rw [if_neg small, BitVec.toNat_shiftLeft, BitVec.toNat_ofNat,
      Nat.mod_eq_of_lt word, Nat.shiftLeft_eq, Nat.mod_eq_of_lt fits]

/-- The bits denote a positive number of at most 256 bits. -/
structure Decodes (nBits : UInt32) (target : Nat) : Prop where
  value : compactValue nBits = target
  notNegative : nBits.toNat &&& 0x00800000 = 0
  notZero : 0 < target
  noOverflow : target < 2 ^ 256

/-! ## The check -/

structure PowParams where
  fSkipProofOfWorkCheck : Bool
  bnProofOfWorkLimit : UInt256

/-- `CheckProofOfWork`; the hash is not looked at. -/
def checkProofOfWork (params : PowParams) (_hash : UInt256)
    (nBits : UInt32) : Bool :=
  if params.fSkipProofOfWorkCheck then
    true
  else
    let compact := setCompact nBits
    if compact.fNegative || compact.bnTarget = 0 || compact.fOverflow ||
        compact.bnTarget > params.bnProofOfWorkLimit then
      false
    else
      true

theorem checkProofOfWork_iff {params : PowParams}
    (checked : params.fSkipProofOfWorkCheck = false) (hash : UInt256)
    (nBits : UInt32) :
    checkProofOfWork params hash nBits = true ↔
      ∃ target, Decodes nBits target ∧
        target ≤ params.bnProofOfWorkLimit.toNat := by
  have asNumber : (setCompact nBits).bnTarget = 0 ↔
      (setCompact nBits).bnTarget.toNat = 0 :=
    BitVec.toNat_inj.symm
  unfold checkProofOfWork
  rw [checked, if_neg (by decide)]
  simp only [Bool.or_eq_true, decide_eq_true_eq, fNegative_iff,
    fOverflow_iff, asNumber, gt_iff_lt, BitVec.lt_def]
  constructor
  · intro accepted
    split_ifs at accepted with refused
    simp only [not_or, Nat.not_le, Nat.not_lt] at refused
    rcases refused with ⟨⟨⟨sign, zero⟩, overflow⟩, limit⟩
    rw [toNat_bnTarget overflow] at zero limit
    refine ⟨_, ⟨rfl, ?_, Nat.pos_of_ne_zero zero, overflow⟩, limit⟩
    by_contra negative
    exact sign ⟨zero, negative⟩
  · rintro ⟨target, decodes, limit⟩
    have fits := decodes.noOverflow
    rw [← decodes.value] at fits
    rw [toNat_bnTarget fits, decodes.value, if_neg]
    simp only [not_or, Nat.not_le, Nat.not_lt]
    refine ⟨⟨⟨?_, Nat.ne_of_gt decodes.notZero⟩, decodes.noOverflow⟩, limit⟩
    rintro ⟨_, negative⟩
    exact negative decodes.notNegative

/--
Acceptance is sound exactly for the hashes that meet the target of their
bits, whenever these are in range.
-/
theorem proof_of_work_sound_iff (params : PowParams) (hash : UInt256)
    (nBits : UInt32) (checked : params.fSkipProofOfWorkCheck = false) :
    (checkProofOfWork params hash nBits = true →
        ∃ target, Decodes nBits target ∧
          target ≤ params.bnProofOfWorkLimit.toNat ∧ hash.toNat ≤ target) ↔
      (∀ target, Decodes nBits target →
        target ≤ params.bnProofOfWorkLimit.toNat → hash.toNat ≤ target) := by
  rw [checkProofOfWork_iff checked]
  constructor
  · intro sound target decodes limit
    rcases sound ⟨target, decodes, limit⟩ with ⟨other, again, _, meets⟩
    rw [← again.value, decodes.value] at meets
    exact meets
  · rintro meets ⟨target, decodes, limit⟩
    exact ⟨target, decodes, limit, meets target decodes limit⟩

/-! ## A hash above its target -/

/-- `CMainParams`: the limit is `~uint256(0) >> 20`. -/
def mainParams : PowParams := ⟨false, BitVec.allOnes 256 >>> 20⟩

/-- The starting difficulty of the main network. -/
def startBits : UInt32 := 0x1e0fffff

theorem startBits_decodes : Decodes startBits (0x0fffff * 256 ^ 27) := by
  constructor
  · decide
  · decide
  · decide
  · decide

theorem proof_of_work_sound_iff_zeroHash :
    checkProofOfWork mainParams 0 startBits = true ∧
      ∃ target, Decodes startBits target ∧
        target ≤ mainParams.bnProofOfWorkLimit.toNat ∧
          (0 : UInt256).toNat ≤ target := by
  have accepted : checkProofOfWork mainParams 0 startBits = true := by
    decide
  refine ⟨accepted, (proof_of_work_sound_iff mainParams 0 startBits
    rfl).mpr ?_ accepted⟩
  intro target _ _
  exact Nat.zero_le target

/-- The greatest hash of all is accepted at the starting difficulty. -/
theorem hash_above_target_accepted :
    ¬ ∀ (params : PowParams) (hash : UInt256) (nBits : UInt32),
      params.fSkipProofOfWorkCheck = false →
      checkProofOfWork params hash nBits = true →
        ∃ target, Decodes nBits target ∧
          target ≤ params.bnProofOfWorkLimit.toNat ∧
            hash.toNat ≤ target := by
  intro claim
  have accepted : checkProofOfWork mainParams (BitVec.allOnes 256)
      startBits = true := by
    decide
  rcases claim mainParams (BitVec.allOnes 256) startBits rfl accepted
    with ⟨target, decodes, _, meets⟩
  rw [← decodes.value, startBits_decodes.value] at meets
  exact absurd meets (by decide)

end PrivateDatagram.Consensus.ProofOfWork
