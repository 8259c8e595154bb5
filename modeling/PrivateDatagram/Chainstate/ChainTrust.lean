import PrivateDatagram.Chainstate.BlockWork

/-!
# Chain trust

The trust of a proof-of-stake block is meant to be the same quotient as its
work.  The numerator is written as one, shifted by the full width, and the
shift leaves zero: no such block adds anything to the trust of its chain.  A
proof-of-work block adds at least one.
-/

namespace PrivateDatagram.Chainstate.ChainTrust

open Wire.Serialize Consensus.ProofOfWork Consensus.WideOperators BlockWork

/-! ## The trust of a block -/

/-- The number that a block adds, for a target that is not zero. -/
def addedTrust (block : CBlock) : Nat :=
  if block.fProofOfStake then 0
  else max 1 ((2 ^ 236 - 1) / ((bnTarget block).toNat + 1))

theorem addedTrust_lt (block : CBlock) : addedTrust block < 2 ^ 256 := by
  have quotient := Nat.div_le_self (2 ^ 236 - 1) ((bnTarget block).toNat + 1)
  rw [addedTrust]
  split_ifs
  · decide
  · omega

theorem addedTrust_pos_iff (block : CBlock) :
    0 < addedTrust block ↔ block.fProofOfStake = false := by
  rw [addedTrust]
  split_ifs with stake
  · simp [stake]
  · simp [stake]

theorem getBlockTrust_eq {block : CBlock}
    (nonzero : 0 < (bnTarget block).toNat) :
    getBlockTrust block = some (BitVec.ofNat 256 (addedTrust block)) := by
  have above : ¬ bnTarget block ≤ 0 := by
    rw [BitVec.le_def]
    exact Nat.not_le.mpr nonzero
  rw [getBlockTrust, if_neg above, addedTrust, bnTarget, dividedBy_target,
    dividedBy_target, shiftedLeft_width, toNat_ones_shifted]
  generalize quotient :
    (2 ^ 236 - 1) / ((setCompact block.nBits).bnTarget.toNat + 1) = trust
  have small : trust < 2 ^ 256 := by
    rw [← quotient]
    exact Nat.lt_of_le_of_lt (Nat.div_le_self _ _) (by decide)
  have above : BitVec.ofNat 256 trust > 1 ↔ 1 < trust := by
    have one : (1 : UInt256).toNat = 1 := rfl
    rw [gt_iff_lt, BitVec.lt_def, one, BitVec.toNat_ofNat,
      Nat.mod_eq_of_lt small]
  split_ifs with stake
  · rw [Nat.zero_div]
  · rw [Option.map_some, Option.some.injEq]
    split_ifs with large
    · rw [Nat.max_eq_right (Nat.le_of_lt (above.mp large))]
    · rw [Nat.max_eq_left (Nat.le_of_not_lt fun more =>
        large (above.mpr more))]
      rfl

/-- What the trust of a block is meant to be. -/
structure Reflected (block : CBlock) : Prop where
  stake : block.fProofOfStake = true → ∃ trust,
    getBlockTrust block = some trust ∧
      trust.toNat = 2 ^ 256 / ((bnTarget block).toNat + 1)
  positive : ∃ trust, getBlockTrust block = some trust ∧ 1 ≤ trust.toNat

theorem reflected_iff {block : CBlock}
    (nonzero : 0 < (bnTarget block).toNat) :
    Reflected block ↔ block.fProofOfStake = false := by
  have trust := getBlockTrust_eq nonzero
  have number : (BitVec.ofNat 256 (addedTrust block)).toNat =
      addedTrust block := by
    rw [BitVec.toNat_ofNat, Nat.mod_eq_of_lt (addedTrust_lt block)]
  constructor
  · rintro ⟨_, found, same, positive⟩
    rw [trust] at same
    cases same
    rw [number] at positive
    exact (addedTrust_pos_iff block).mp positive
  · intro work
    refine ⟨fun stake => absurd stake (by simp [work]), _, trust, ?_⟩
    rw [number]
    exact (addedTrust_pos_iff block).mpr work

/-! ## The trust of a chain -/

/-- The trust of a chain over unbounded numbers; the first block, which is
the last of the list, adds nothing. -/
def exactChainTrust (chain : List CBlock) : Nat :=
  (chain.dropLast.map addedTrust).sum

/-- Each entry has more trust than its parent, which comes after it. -/
def TrustIncreases : List CBlockIndex → Prop :=
  List.IsChain fun pindex pprev => pprev.bnChainTrust < pindex.bnChainTrust

/-- A sum is above its first part when the second is positive and the sum
keeps to 256 bits. -/
theorem lt_plus_iff {a b : UInt256} :
    a < plus a b ↔ 0 < b.toNat ∧ a.toNat + b.toNat < 2 ^ 256 := by
  have left := a.isLt
  have right := b.isLt
  rw [BitVec.lt_def, plus_eq_add, BitVec.toNat_add]
  omega

theorem exactChainTrust_cons (block : CBlock) {older : List CBlock}
    (behind : older ≠ []) :
    exactChainTrust (block :: older) =
      addedTrust block + exactChainTrust older := by
  rw [exactChainTrust, List.dropLast_cons_of_ne_nil behind, List.map_cons,
    List.sum_cons]
  rfl

/-- One more block on top of a chain. -/
theorem trust_step {block : CBlock} {older : List CBlock}
    {pindex pprev : CBlockIndex} {index : List CBlockIndex} {trust : UInt256}
    (behind : older ≠ []) (added : trust.toNat = addedTrust block)
    (sum : pindex.bnChainTrust = plus pprev.bnChainTrust trust)
    (least : exactChainTrust older < 2 ^ 256 →
      pprev.bnChainTrust.toNat = exactChainTrust older)
    (increases : TrustIncreases (pprev :: index) ↔
      (∀ other ∈ older.dropLast, other.fProofOfStake = false) ∧
        exactChainTrust older < 2 ^ 256) :
    (TrustIncreases (pindex :: pprev :: index) ↔
      (∀ other ∈ (block :: older).dropLast, other.fProofOfStake = false) ∧
        exactChainTrust (block :: older) < 2 ^ 256) ∧
    (exactChainTrust (block :: older) < 2 ^ 256 →
      pindex.bnChainTrust.toNat = exactChainTrust (block :: older)) := by
  have here : pprev.bnChainTrust < pindex.bnChainTrust ↔
      block.fProofOfStake = false ∧
        pprev.bnChainTrust.toNat + addedTrust block < 2 ^ 256 := by
    rw [sum, lt_plus_iff, added, addedTrust_pos_iff]
  rw [exactChainTrust_cons block behind, List.dropLast_cons_of_ne_nil behind,
    List.forall_mem_cons]
  constructor
  · refine List.isChain_cons_cons.trans ?_
    refine (and_congr here increases).trans ?_
    constructor
    · rintro ⟨⟨work, fits⟩, works, small⟩
      exact ⟨⟨work, works⟩, by rw [least small] at fits; omega⟩
    · rintro ⟨⟨work, works⟩, fits⟩
      have small : exactChainTrust older < 2 ^ 256 := by omega
      exact ⟨⟨work, by rw [least small]; omega⟩, works, small⟩
  · intro fits
    have small : exactChainTrust older < 2 ^ 256 := by omega
    rw [sum, plus_of_fits]
    · rw [added, least small, Nat.add_comm]
    · rw [added, least small]
      omega

/-- The last entry of a chain has the trust of the chain, modulo the width. -/
theorem indexChain_trust {chain : List CBlock}
    (nonzero : ∀ block ∈ chain, 0 < (bnTarget block).toNat) :
    ∃ index, indexChain chain = some index ∧ index.length = chain.length ∧
      (TrustIncreases index ↔
        (∀ block ∈ chain.dropLast, block.fProofOfStake = false) ∧
          exactChainTrust chain < 2 ^ 256) ∧
      (exactChainTrust chain < 2 ^ 256 →
        (index.head?.elim 0 CBlockIndex.bnChainTrust).toNat =
          exactChainTrust chain) := by
  induction chain with
  | nil =>
      refine ⟨[], rfl, rfl, ?_, fun _ => rfl⟩
      exact ⟨fun _ => ⟨by simp, by decide⟩, fun _ => .nil⟩
  | cons block older ih =>
      rw [List.forall_mem_cons] at nonzero
      rcases ih nonzero.2 with ⟨index, indexed, length, increases, sum⟩
      rcases getBlockTrust_some block with ⟨trust, trusted⟩
      have proved := getBlockProof_eq_bits block
      have added : trust.toNat = addedTrust block := by
        have same := trusted.symm.trans (getBlockTrust_eq nonzero.1)
        cases same
        rw [BitVec.toNat_ofNat, Nat.mod_eq_of_lt (addedTrust_lt block)]
      refine ⟨_, indexChain_cons trusted proved indexed, ?_, ?_⟩
      · rw [List.length_cons, List.length_cons, length]
      cases index with
      | nil =>
          have first : older = [] := List.length_eq_zero_iff.mp length.symm
          subst first
          have none : exactChainTrust [block] < 2 ^ 256 := by
            rw [exactChainTrust, List.dropLast_singleton]
            decide
          refine ⟨⟨fun _ => ⟨by simp, none⟩, fun _ => ?_⟩, fun _ => rfl⟩
          exact List.isChain_singleton _
      | cons pprev index =>
          have behind : older ≠ [] := by
            rintro rfl
            cases length
          exact trust_step behind added rfl sum increases

/--
The trust of a block is as it is meant to be exactly for proof-of-work blocks.
The trust of a chain grows with every block exactly when all of them after
the first are proof-of-work blocks and the exact sum keeps to 256 bits.
-/
theorem trust_reflected_iff (block : CBlock)
    (nonzero : 0 < (bnTarget block).toNat)
    (_proper : (bnTarget block).toNat < 2 ^ 256 - 1) (chain : List CBlock)
    (decoded : ∀ block ∈ chain, 0 < (bnTarget block).toNat ∧
      (bnTarget block).toNat < 2 ^ 256 - 1) :
    (Reflected block ↔ block.fProofOfStake = false) ∧
      ∃ index, indexChain chain = some index ∧
        index.length = chain.length ∧
        (TrustIncreases index ↔
          (∀ block ∈ chain.dropLast, block.fProofOfStake = false) ∧
            exactChainTrust chain < 2 ^ 256) := by
  rcases indexChain_trust fun block member => (decoded block member).1 with
    ⟨index, indexed, length, increases, _⟩
  exact ⟨reflected_iff nonzero, index, indexed, length, increases⟩

theorem trust_reflected_iff_start :
    (Reflected ⟨startBits, false⟩ ↔ false = false) ∧
    ∃ index, indexChain [⟨startBits, false⟩, ⟨startBits, false⟩] =
        some index ∧
      index.length = 2 ∧
      (TrustIncreases index ↔
        (∀ block ∈ ([⟨startBits, false⟩, ⟨startBits, false⟩] :
          List CBlock).dropLast, block.fProofOfStake = false) ∧
          exactChainTrust [⟨startBits, false⟩, ⟨startBits, false⟩] <
            2 ^ 256) := by
  have decoded : ∀ block ∈ ([⟨startBits, false⟩, ⟨startBits, false⟩] :
      List CBlock), 0 < (bnTarget block).toNat ∧
        (bnTarget block).toNat < 2 ^ 256 - 1 := by
    decide +kernel
  have start := decoded _ List.mem_cons_self
  exact trust_reflected_iff _ start.1 start.2 _ decoded

/-- A proof-of-stake block at the starting difficulty has no trust. -/
theorem stake_trustless :
    ¬ ((∀ block : CBlock, 0 < (bnTarget block).toNat →
        (bnTarget block).toNat < 2 ^ 256 - 1 → Reflected block) ∧
      ∀ chain : List CBlock,
        (∀ block ∈ chain, 0 < (bnTarget block).toNat ∧
          (bnTarget block).toNat < 2 ^ 256 - 1) →
          ∃ index, indexChain chain = some index ∧ TrustIncreases index) := by
  rintro ⟨reflected, _⟩
  have nonzero : 0 < (bnTarget ⟨startBits, true⟩).toNat := by
    decide +kernel
  have stake := (reflected_iff nonzero).mp
    (reflected ⟨startBits, true⟩ nonzero (by decide +kernel))
  cases stake

end PrivateDatagram.Chainstate.ChainTrust
