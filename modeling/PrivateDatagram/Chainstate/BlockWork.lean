import PrivateDatagram.Chainstate.ActiveChain
import PrivateDatagram.Consensus.WideOperators

/-!
# Block work

`AddToBlockIndex` gives every entry two sums over its chain: the work, to
which each block adds `GetBlockProof`, and the trust, to which it adds
`GetBlockTrust`.  Both are quotients of numbers of 256 bits.

`2 ^ 256` itself has no such form.  `GetBlockProof` divides the complement of
the target instead and adds one, which is exact for every target that bits
can denote.
-/

namespace PrivateDatagram.Chainstate.BlockWork

open Wire.Serialize Consensus.ProofOfWork Consensus.WideOperators

/-! ## The functions -/

/-- What the two functions read of a block. -/
structure CBlock where
  nBits : UInt32
  fProofOfStake : Bool
deriving DecidableEq, Repr

/-- The target that `SetCompact` reads from the bits. -/
def bnTarget (block : CBlock) : UInt256 := (setCompact block.nBits).bnTarget

/-- `GetBlockProof`; none is a division by zero. -/
def getBlockProof (block : CBlock) : Option UInt256 :=
  let bits := setCompact block.nBits
  if bits.fNegative || bits.fOverflow || bits.bnTarget = 0 then
    some 0
  else
    (dividedBy (complemented bits.bnTarget) (plus bits.bnTarget 1)).map
      fun quotient => plus quotient 1

/-- `CBlockIndex::GetBlockTrust`; none is a division by zero. -/
def getBlockTrust (block : CBlock) : Option UInt256 :=
  if bnTarget block ≤ 0 then
    some 0
  else if block.fProofOfStake then
    dividedBy (shiftedLeft 1 256) (plus (bnTarget block) 1)
  else
    (dividedBy (shiftedRight (complemented 0) 20)
      (plus (bnTarget block) 1)).map fun bnPoWTrust =>
        if bnPoWTrust > 1 then bnPoWTrust else 1

/-- The sums of an entry. -/
structure CBlockIndex where
  block : CBlock
  bnChainTrust : UInt256
  nChainWork : UInt256
deriving DecidableEq, Repr

/-- `AddToBlockIndex`; the trust of a block without a parent stays zero. -/
def addToBlockIndex (block : CBlock) (pprev : Option CBlockIndex) :
    Option CBlockIndex :=
  (match pprev with
  | none => some 0
  | some pprev => (getBlockTrust block).map (plus pprev.bnChainTrust)).bind
    fun bnChainTrust => (getBlockProof block).map fun proof =>
      { block := block
        bnChainTrust := bnChainTrust
        nChainWork := plus (pprev.elim 0 CBlockIndex.nChainWork) proof }

/-- The entries of a chain of blocks, the newest first. -/
def indexChain : List CBlock → Option (List CBlockIndex)
  | [] => some []
  | block :: older =>
      (indexChain older).bind fun chain =>
        (addToBlockIndex block chain.head?).map (· :: chain)

/-! ## Targets -/

/-- One more than a target keeps to 256 bits. -/
theorem bnTarget_lt (nBits : UInt32) :
    (setCompact nBits).bnTarget.toNat + 1 < 2 ^ 256 := by
  have word := compactWord_lt nBits
  have room := (setCompact nBits).bnTarget.isLt
  by_cases small : nBits.toNat >>> 24 ≤ 3
  · have target : (setCompact nBits).bnTarget =
        BitVec.ofNat 256 (compactWord nBits) := if_pos small
    rw [target, BitVec.toNat_ofNat, Nat.mod_eq_of_lt (by omega)]
    omega
  · have target : (setCompact nBits).bnTarget =
        BitVec.ofNat 256 (compactWord nBits) <<<
          (8 * (nBits.toNat >>> 24 - 3)) := if_neg small
    -- The lowest byte of a shifted target is zero.
    have even : (setCompact nBits).bnTarget.toNat % 2 = 0 := by
      obtain ⟨shift, positive⟩ : ∃ shift,
          8 * (nBits.toNat >>> 24 - 3) = shift + 1 :=
        ⟨8 * (nBits.toNat >>> 24 - 3) - 1, by omega⟩
      have half : (2 : Nat) ∣ 2 ^ 256 := ⟨2 ^ 255, by decide⟩
      rw [target, BitVec.toNat_shiftLeft, positive, Nat.shiftLeft_eq,
        Nat.mod_mod_of_dvd _ half, Nat.pow_succ, ← Nat.mul_assoc,
        Nat.mul_mod_left]
    omega

theorem toNat_target_succ (nBits : UInt32) :
    (plus (setCompact nBits).bnTarget 1).toNat =
      (setCompact nBits).bnTarget.toNat + 1 := by
  have one : (1 : UInt256).toNat = 1 := rfl
  rw [plus_eq_add, BitVec.toNat_add, one, Nat.mod_eq_of_lt (bnTarget_lt nBits)]

/-- No divisor is zero. -/
theorem dividedBy_target (a : UInt256) (nBits : UInt32) :
    dividedBy a (plus (setCompact nBits).bnTarget 1) =
      some (BitVec.ofNat 256
        (a.toNat / ((setCompact nBits).bnTarget.toNat + 1))) := by
  rw [dividedBy_eq, toNat_target_succ]
  rw [toNat_target_succ]
  exact Nat.succ_ne_zero _

theorem toNat_quotient (a : UInt256) (divisor : Nat) :
    (BitVec.ofNat 256 (a.toNat / divisor)).toNat = a.toNat / divisor := by
  rw [BitVec.toNat_ofNat]
  exact Nat.mod_eq_of_lt (Nat.lt_of_le_of_lt (Nat.div_le_self _ _) a.isLt)

/-! ## The work of a block -/

/-- The work of a target over unbounded numbers. -/
def exactWork (target : Nat) : Nat := 2 ^ 256 / (target + 1)

/-- The quotient of the complement is one less. -/
theorem exactWork_eq {target : Nat} (room : target < 2 ^ 256) :
    (2 ^ 256 - 1 - target) / (target + 1) + 1 = exactWork target := by
  have split : 2 ^ 256 = 2 ^ 256 - 1 - target + (target + 1) := by omega
  rw [exactWork]
  conv_rhs => rw [split]
  exact (Nat.add_div_right _ (Nat.succ_pos target)).symm

theorem exactWork_pos {target : Nat} (room : target < 2 ^ 256) :
    1 ≤ exactWork target :=
  (Nat.one_le_div_iff (Nat.succ_pos target)).mpr room

theorem exactWork_antitone {target other : Nat} (less : target ≤ other) :
    exactWork other ≤ exactWork target :=
  Nat.div_le_div_left (Nat.succ_le_succ less) (Nat.succ_pos target)

theorem exactWork_lt {target : Nat} (positive : 0 < target) :
    exactWork target < 2 ^ 256 :=
  Nat.div_lt_self (by decide) (by omega)

/-- Decoded bits pass the test at the beginning. -/
theorem Decodes.passes {nBits : UInt32} {target : Nat}
    (decodes : Decodes nBits target) :
    ((setCompact nBits).fNegative || (setCompact nBits).fOverflow ||
        decide ((setCompact nBits).bnTarget = 0)) = false ∧
      (setCompact nBits).bnTarget.toNat = target := by
  have fits := decodes.noOverflow
  rw [← decodes.value] at fits
  have number := toNat_bnTarget fits
  rw [decodes.value] at number
  refine ⟨?_, number⟩
  have positive := decodes.notZero
  have asNumber : (setCompact nBits).bnTarget = 0 ↔
      (setCompact nBits).bnTarget.toNat = 0 :=
    BitVec.toNat_inj.symm
  have sign : ¬ (setCompact nBits).fNegative = true := by
    rw [fNegative_iff]
    exact fun negative => negative.2 decodes.notNegative
  have size : ¬ (setCompact nBits).fOverflow = true := by
    rw [fOverflow_iff]
    omega
  rw [Bool.not_eq_true] at sign size
  rw [sign, size, Bool.or_self, Bool.false_or, decide_eq_false_iff_not,
    asNumber]
  omega

/-- The work of a block is exact. -/
theorem getBlockProof_eq {block : CBlock} {target : Nat}
    (decodes : Decodes block.nBits target) :
    ∃ proof, getBlockProof block = some proof ∧
      proof.toNat = exactWork target := by
  rcases Decodes.passes decodes with ⟨passes, number⟩
  have proof : getBlockProof block = some (plus (BitVec.ofNat 256
      ((complemented (setCompact block.nBits).bnTarget).toNat /
        ((setCompact block.nBits).bnTarget.toNat + 1))) 1) := by
    simp only [getBlockProof]
    rw [passes, if_neg Bool.false_ne_true, dividedBy_target, Option.map_some]
  have one : (1 : UInt256).toNat = 1 := rfl
  refine ⟨_, proof, ?_⟩
  rw [plus_eq_add, BitVec.toNat_add, toNat_quotient, toNat_complemented,
    number, one, exactWork_eq decodes.noOverflow]
  exact Nat.mod_eq_of_lt (exactWork_lt decodes.notZero)

/-- The words give the number of the bit vectors. -/
theorem getBlockProof_eq_bits (block : CBlock) :
    getBlockProof block =
      some (ActiveChain.getBlockProof block.nBits) := by
  have numbers : (complemented (setCompact block.nBits).bnTarget).toNat /
      ((setCompact block.nBits).bnTarget.toNat + 1) =
        (~~~(setCompact block.nBits).bnTarget /
          ((setCompact block.nBits).bnTarget + 1)).toNat := by
    rw [complemented_eq_not, ← toNat_target_succ, plus_eq_add,
      BitVec.toNat_udiv]
  simp only [getBlockProof, ActiveChain.getBlockProof]
  split_ifs
  · rfl
  · rw [dividedBy_target, numbers, BitVec.ofNat_toNat, BitVec.setWidth_eq,
      Option.map_some, plus_eq_add]

/-! ## Entries -/

theorem toNat_ones_shifted :
    (shiftedRight (complemented 0) 20).toNat = 2 ^ 236 - 1 := by
  rw [toNat_shiftedRight, toNat_complemented]
  decide

/-- The shift by the full width leaves nothing. -/
theorem shiftedLeft_width : (shiftedLeft 1 256).toNat = 0 := by
  rw [toNat_shiftedLeft]
  decide

/-- No function throws. -/
theorem getBlockTrust_some (block : CBlock) :
    ∃ trust, getBlockTrust block = some trust := by
  rw [getBlockTrust, bnTarget, dividedBy_target, dividedBy_target]
  split_ifs
  · exact ⟨_, rfl⟩
  · exact ⟨_, rfl⟩
  · exact ⟨_, rfl⟩

/-- What an entry gets from its block and its parent. -/
theorem addToBlockIndex_eq {block : CBlock} {trust proof : UInt256}
    (trusted : getBlockTrust block = some trust)
    (proved : getBlockProof block = some proof)
    (pprev : Option CBlockIndex) :
    addToBlockIndex block pprev =
      some ⟨block, pprev.elim 0 fun pprev => plus pprev.bnChainTrust trust,
        plus (pprev.elim 0 CBlockIndex.nChainWork) proof⟩ := by
  unfold addToBlockIndex
  rw [trusted, proved]
  cases pprev with
  | none => rfl
  | some pprev => rfl

/-- Every chain of blocks is indexed, block by block. -/
theorem indexChain_cons {block : CBlock} {trust proof : UInt256}
    (trusted : getBlockTrust block = some trust)
    (proved : getBlockProof block = some proof) {older : List CBlock}
    {chain : List CBlockIndex} (indexed : indexChain older = some chain) :
    indexChain (block :: older) = some
      (⟨block, chain.head?.elim 0 fun pprev => plus pprev.bnChainTrust trust,
        plus (chain.head?.elim 0 CBlockIndex.nChainWork) proof⟩ ::
          chain) := by
  rw [indexChain, indexed, Option.bind_some,
    addToBlockIndex_eq trusted proved, Option.map_some]

/-! ## The work of a chain -/

/-- The work of a chain over unbounded numbers. -/
def exactChainWork (chain : List CBlock) : Nat :=
  (chain.map fun block => exactWork (compactValue block.nBits)).sum

/-- Each entry has more work than its parent, which comes after it. -/
def WorkIncreases : List CBlockIndex → Prop :=
  List.IsChain fun pindex pprev => pprev.nChainWork < pindex.nChainWork

/-- A sum that does not wrap is above both parts. -/
theorem plus_of_fits {a b : UInt256} (fits : a.toNat + b.toNat < 2 ^ 256) :
    (plus a b).toNat = a.toNat + b.toNat := by
  rw [plus_eq_add, BitVec.toNat_add, Nat.mod_eq_of_lt fits]

theorem indexChain_work {chain : List CBlock}
    (decodes : ∀ block ∈ chain, ∃ target, Decodes block.nBits target)
    (fits : exactChainWork chain < 2 ^ 256) :
    ∃ index, indexChain chain = some index ∧ WorkIncreases index ∧
      (index.head?.elim 0 CBlockIndex.nChainWork).toNat =
        exactChainWork chain := by
  induction chain with
  | nil => exact ⟨[], rfl, .nil, rfl⟩
  | cons block older ih =>
      rw [List.forall_mem_cons] at decodes
      rcases decodes with ⟨⟨target, here⟩, behind⟩
      have total : exactChainWork (block :: older) =
          exactWork target + exactChainWork older := by
        rw [exactChainWork, List.map_cons, List.sum_cons, here.value]
        rfl
      rw [total] at fits
      rcases ih behind (by omega) with ⟨index, indexed, increases, sum⟩
      rcases getBlockTrust_some block with ⟨trust, trusted⟩
      rcases getBlockProof_eq here with ⟨proof, proved, work⟩
      have added : (plus (index.head?.elim 0 CBlockIndex.nChainWork)
          proof).toNat = exactChainWork older + exactWork target := by
        rw [plus_of_fits (by omega), sum, work]
      refine ⟨_, indexChain_cons trusted proved indexed, ?_, ?_⟩
      · cases index with
        | nil => exact List.isChain_singleton _
        | cons pprev index =>
            have positive := exactWork_pos here.noOverflow
            refine List.isChain_cons_cons.mpr ⟨?_, increases⟩
            rw [BitVec.lt_def]
            change pprev.nChainWork.toNat = _ at sum
            exact lt_of_lt_of_eq (by omega) added.symm
      · rw [total, Nat.add_comm]
        exact added

/--
The work of a block is the exact quotient, at least one, and not greater for
a greater target.  Along a chain whose exact total keeps to 256 bits the work
grows with every block.
-/
theorem work_exact :
    (∀ (block : CBlock) (target : Nat), Decodes block.nBits target →
      ∃ proof, getBlockProof block = some proof ∧
        proof.toNat = 2 ^ 256 / (target + 1) ∧ 1 ≤ proof.toNat) ∧
    (∀ (block other : CBlock) (target larger : Nat),
      Decodes block.nBits target → Decodes other.nBits larger →
      target ≤ larger → ∃ proof smaller,
        getBlockProof block = some proof ∧
        getBlockProof other = some smaller ∧ smaller ≤ proof) ∧
    ∀ chain : List CBlock,
      (∀ block ∈ chain, ∃ target, Decodes block.nBits target) →
      exactChainWork chain < 2 ^ 256 →
        ∃ index, indexChain chain = some index ∧ WorkIncreases index := by
  refine ⟨?_, ?_, ?_⟩
  · intro block target decodes
    rcases getBlockProof_eq decodes with ⟨proof, proved, work⟩
    exact ⟨proof, proved, work, work ▸ exactWork_pos decodes.noOverflow⟩
  · intro block other target larger decodes decodesOther less
    rcases getBlockProof_eq decodes with ⟨proof, proved, work⟩
    rcases getBlockProof_eq decodesOther with ⟨smaller, provedOther, less'⟩
    refine ⟨proof, smaller, proved, provedOther, ?_⟩
    rw [BitVec.le_def, work, less']
    exact exactWork_antitone less
  · intro chain decodes fits
    rcases indexChain_work decodes fits with ⟨index, indexed, increases, _⟩
    exact ⟨index, indexed, increases⟩

/-- Two blocks at the starting difficulty. -/
theorem work_exact_start :
    (∃ proof, getBlockProof ⟨startBits, false⟩ = some proof ∧
      proof.toNat = 2 ^ 256 / (0x0fffff * 256 ^ 27 + 1) ∧
        1 ≤ proof.toNat) ∧
    (∃ proof smaller, getBlockProof ⟨startBits, false⟩ = some proof ∧
      getBlockProof ⟨startBits, true⟩ = some smaller ∧ smaller ≤ proof) ∧
    ∃ index, indexChain [⟨startBits, true⟩, ⟨startBits, false⟩] =
      some index ∧ WorkIncreases index := by
  have decodes : ∀ block ∈ ([⟨startBits, true⟩, ⟨startBits, false⟩] :
      List CBlock), ∃ target, Decodes block.nBits target := by
    simp only [List.forall_mem_cons]
    exact ⟨⟨_, startBits_decodes⟩, ⟨_, startBits_decodes⟩, by simp⟩
  exact ⟨work_exact.1 _ _ startBits_decodes,
    work_exact.2.1 _ _ _ _ startBits_decodes startBits_decodes le_rfl,
    work_exact.2.2 _ decodes (by decide +kernel)⟩

end PrivateDatagram.Chainstate.BlockWork
