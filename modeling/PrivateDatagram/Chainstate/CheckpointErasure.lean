import PrivateDatagram.Chainstate.Accumulators

/-!
# Erasing checkpoints

`EraseCheckpoints` erases the accumulator values of a range of blocks, but not
those that the block before the range still refers to.  It lists the checksums
of that block and looks for the whole checkpoint of a block in the list, where
the checksum of the denomination is meant.
-/

namespace PrivateDatagram.Chainstate.Accumulators

open Wire.Serialize Consensus.ProofOfStake

/-- The values of checksums, in memory and in the database. -/
@[ext]
structure AccumulatorValues where
  mapAccumulatorValues : AccumulatorDB
  zerocoinDB : AccumulatorDB

namespace AccumulatorValues

/-- Both values of a checksum. -/
def stored (values : AccumulatorValues) (nChecksum : UInt32) :
    Option CBigNum × Option CBigNum :=
  (values.mapAccumulatorValues nChecksum, values.zerocoinDB nChecksum)

def eraseChecksum (nChecksum : UInt32) (values : AccumulatorValues) :
    AccumulatorValues where
  mapAccumulatorValues :=
    Function.update values.mapAccumulatorValues nChecksum none
  zerocoinDB := Function.update values.zerocoinDB nChecksum none

/-- `EraseAccumulatorValues`, in memory as well. -/
def eraseAccumulatorValues (nCheckpointErase nCheckpointPrevious : UInt256)
    (values : AccumulatorValues) : AccumulatorValues :=
  zerocoinDenomList.foldl (fun values denom =>
    if parseChecksum nCheckpointErase denom.val =
        parseChecksum nCheckpointPrevious denom.val then
      values
    else
      values.eraseChecksum (parseChecksum nCheckpointErase denom.val)) values

end AccumulatorValues

/-- The checksums of a checkpoint, in the order of the denominations. -/
def checksums (nCheckpoint : UInt256) : List UInt32 :=
  zerocoinDenomList.map fun denom => parseChecksum nCheckpoint denom.val

/-- `count` of a checkpoint in a list of checksums is not zero. -/
def isCounted (nCheckpoint : UInt256) (checksums : List UInt32) : Bool :=
  checksums.any fun nChecksum =>
    BitVec.ofNat 256 nChecksum.toNat = nCheckpoint

/-- A round of the loop of `EraseCheckpoints`. -/
def eraseBlock (listCheckpointsPrev : List UInt32)
    (values : AccumulatorValues) (pindex : CBlock) : AccumulatorValues :=
  let nCheckpointDelete := pindex.nAccumulatorCheckpoint
  zerocoinDenomList.foldl (fun values denom =>
    if isCounted nCheckpointDelete listCheckpointsPrev then
      values
    else
      values.eraseChecksum (parseChecksum nCheckpointDelete denom.val)) values

/-- The blocks that the loop visits; the first of them in any case. -/
def visited (chainActive : List CBlock) (nStartHeight nEndHeight : Nat) :
    List CBlock :=
  (chainActive.drop nStartHeight).take
    (min (chainActive.length - 1) nEndHeight - nStartHeight + 1)

/-- `EraseCheckpoints`, which needs a block before the first. -/
def eraseCheckpoints (chainActive : List CBlock)
    (nStartHeight nEndHeight : Nat) (values : AccumulatorValues) :
    Option (Bool × AccumulatorValues) :=
  if chainActive.length ≤ nStartHeight then
    some (false, values)
  else
    match nStartHeight with
    | 0 => none
    | nPrevHeight + 1 =>
        match chainActive[nPrevHeight]? with
        | none => none
        | some pprev =>
            let listCheckpointsPrev := checksums pprev.nAccumulatorCheckpoint
            some (true,
              (visited chainActive nStartHeight nEndHeight).foldl
                (eraseBlock listCheckpointsPrev) values)

/-- The blocks of a range that are on the chain. -/
def inRange (chainActive : List CBlock) (nStartHeight nEndHeight : Nat) :
    List CBlock :=
  (chainActive.drop nStartHeight).take (nEndHeight - nStartHeight + 1)

/-! ## What is promised -/

/-- A checksum of one denomination here and of another one there. -/
def Shared (nCheckpoint nCheckpointPrevious : UInt256) (nChecksum : UInt32) :
    Prop :=
  ∃ denom other : Denomination, denom ≠ other ∧
    parseChecksum nCheckpoint denom.val = nChecksum ∧
      parseChecksum nCheckpointPrevious other.val = nChecksum

/-- What erasing the checkpoints of some blocks leaves. -/
structure ErasesCheckpoints (nCheckpointPrevious : UInt256)
    (blocks : List CBlock) (before after : AccumulatorValues) : Prop where
  kept : ∀ nChecksum ∈ checksums nCheckpointPrevious,
    after.stored nChecksum = before.stored nChecksum
  erased : ∀ block ∈ blocks,
    ∀ nChecksum ∈ checksums block.nAccumulatorCheckpoint,
      nChecksum ∉ checksums nCheckpointPrevious →
        after.stored nChecksum = (none, none)
  single : ∀ block, blocks = [block] → ∀ nChecksum,
    ¬ Shared block.nAccumulatorCheckpoint nCheckpointPrevious nChecksum →
      after.stored nChecksum =
        (before.eraseAccumulatorValues block.nAccumulatorCheckpoint
          nCheckpointPrevious).stored nChecksum

/-- A checksum of a block whose checkpoint is not, as a number, a checksum of
the checkpoint before. -/
def Deleted (nCheckpointPrevious : UInt256) (blocks : List CBlock)
    (nChecksum : UInt32) : Prop :=
  ∃ block ∈ blocks, nChecksum ∈ checksums block.nAccumulatorCheckpoint ∧
    isCounted block.nAccumulatorCheckpoint (checksums nCheckpointPrevious) =
      false

/-- No checksum is deleted that should stay or stays that should be deleted,
unless it has no value. -/
structure Erasable (nCheckpointPrevious : UInt256) (blocks : List CBlock)
    (values : AccumulatorValues) : Prop where
  kept : ∀ nChecksum ∈ checksums nCheckpointPrevious,
    Deleted nCheckpointPrevious blocks nChecksum →
      values.stored nChecksum = (none, none)
  erased : ∀ block ∈ blocks,
    ∀ nChecksum ∈ checksums block.nAccumulatorCheckpoint,
      nChecksum ∉ checksums nCheckpointPrevious →
        Deleted nCheckpointPrevious blocks nChecksum ∨
          values.stored nChecksum = (none, none)

/-! ## What is left -/

namespace AccumulatorValues

@[simp]
theorem stored_eraseChecksum_self (nChecksum : UInt32)
    (values : AccumulatorValues) :
    (values.eraseChecksum nChecksum).stored nChecksum = (none, none) := by
  simp [eraseChecksum, stored]

theorem stored_eraseChecksum_of_ne {nChecksum other : UInt32}
    (differ : other ≠ nChecksum) (values : AccumulatorValues) :
    (values.eraseChecksum nChecksum).stored other = values.stored other := by
  simp [eraseChecksum, stored, differ]

/-- Some denominations keep their checksums, the others erase them. -/
theorem stored_foldl (keep : Denomination → Prop) [DecidablePred keep]
    (checksum : Denomination → UInt32) (denoms : List Denomination)
    (values : AccumulatorValues) (nChecksum : UInt32) :
    (denoms.foldl (fun values denom => if keep denom then values
        else values.eraseChecksum (checksum denom)) values).stored nChecksum =
      if ∃ denom ∈ denoms, ¬ keep denom ∧ checksum denom = nChecksum then
        (none, none)
      else
        values.stored nChecksum := by
  induction denoms generalizing values with
  | nil => simp
  | cons denom denoms ih =>
      have split : (∃ other ∈ denom :: denoms,
          ¬ keep other ∧ checksum other = nChecksum) ↔
          (¬ keep denom ∧ checksum denom = nChecksum) ∨
            ∃ other ∈ denoms, ¬ keep other ∧ checksum other = nChecksum :=
        List.exists_mem_cons_iff _ _ _
      rw [List.foldl_cons, ih]
      by_cases later : ∃ other ∈ denoms,
          ¬ keep other ∧ checksum other = nChecksum
      · rw [if_pos later, if_pos (split.mpr (.inr later))]
      · rw [if_neg later]
        by_cases kept : keep denom
        · rw [if_pos kept, if_neg]
          exact fun here => (split.mp here).elim (fun now => now.1 kept) later
        · rw [if_neg kept]
          by_cases same : checksum denom = nChecksum
          · rw [same, stored_eraseChecksum_self,
              if_pos (split.mpr (.inl ⟨kept, same⟩))]
          · rw [stored_eraseChecksum_of_ne (Ne.symm same), if_neg]
            exact fun here => (split.mp here).elim (fun now => same now.2)
              later

theorem stored_eraseAccumulatorValues
    (nCheckpointErase nCheckpointPrevious : UInt256)
    (values : AccumulatorValues) (nChecksum : UInt32) :
    (values.eraseAccumulatorValues nCheckpointErase
        nCheckpointPrevious).stored nChecksum =
      if ∃ denom ∈ zerocoinDenomList,
          ¬ parseChecksum nCheckpointErase denom.val =
            parseChecksum nCheckpointPrevious denom.val ∧
          parseChecksum nCheckpointErase denom.val = nChecksum then
        (none, none)
      else
        values.stored nChecksum :=
  stored_foldl _ _ _ _ _

end AccumulatorValues

theorem mem_checksums {nCheckpoint : UInt256} {nChecksum : UInt32} :
    nChecksum ∈ checksums nCheckpoint ↔
      ∃ denom : Denomination,
        parseChecksum nCheckpoint denom.val = nChecksum := by
  simp [checksums, mem_zerocoinDenomList]

theorem stored_eraseBlock (listCheckpointsPrev : List UInt32)
    (values : AccumulatorValues) (block : CBlock) (nChecksum : UInt32) :
    (eraseBlock listCheckpointsPrev values block).stored nChecksum =
      if isCounted block.nAccumulatorCheckpoint listCheckpointsPrev = false ∧
          nChecksum ∈ checksums block.nAccumulatorCheckpoint then
        (none, none)
      else
        values.stored nChecksum := by
  unfold eraseBlock
  dsimp only
  rw [AccumulatorValues.stored_foldl]
  refine if_congr ?_ rfl rfl
  simp [mem_checksums, mem_zerocoinDenomList]

theorem deleted_cons {nCheckpointPrevious : UInt256} {block : CBlock}
    {blocks : List CBlock} {nChecksum : UInt32} :
    Deleted nCheckpointPrevious (block :: blocks) nChecksum ↔
      (isCounted block.nAccumulatorCheckpoint
          (checksums nCheckpointPrevious) = false ∧
        nChecksum ∈ checksums block.nAccumulatorCheckpoint) ∨
        Deleted nCheckpointPrevious blocks nChecksum := by
  unfold Deleted
  rw [List.exists_mem_cons_iff, and_comm]

/-- The loop erases what is deleted and leaves the rest. -/
theorem stored_eraseBlocks (nCheckpointPrevious : UInt256)
    (blocks : List CBlock) (values : AccumulatorValues) (nChecksum : UInt32) :
    (Deleted nCheckpointPrevious blocks nChecksum ∧
      (blocks.foldl (eraseBlock (checksums nCheckpointPrevious))
        values).stored nChecksum = (none, none)) ∨
    (¬ Deleted nCheckpointPrevious blocks nChecksum ∧
      (blocks.foldl (eraseBlock (checksums nCheckpointPrevious))
        values).stored nChecksum = values.stored nChecksum) := by
  induction blocks generalizing values with
  | nil =>
      refine .inr ⟨?_, rfl⟩
      rintro ⟨_, here, _⟩
      cases here
  | cons block blocks ih =>
      rw [List.foldl_cons, deleted_cons]
      rcases ih (eraseBlock (checksums nCheckpointPrevious) values block) with
        ⟨deleted, stored⟩ | ⟨spared, stored⟩
      · exact .inl ⟨.inr deleted, stored⟩
      · rw [stored, stored_eraseBlock]
        by_cases now : isCounted block.nAccumulatorCheckpoint
            (checksums nCheckpointPrevious) = false ∧
              nChecksum ∈ checksums block.nAccumulatorCheckpoint
        · exact .inl ⟨.inl now, if_pos now⟩
        · exact .inr ⟨fun deleted => deleted.elim now spared, if_neg now⟩

/-! ## The exact condition -/

/-- On one block, what is promised of each checksum is what
`EraseAccumulatorValues` does, up to shared checksums. -/
theorem single_of_kept_erased {nCheckpointPrevious : UInt256}
    {block : CBlock} {before after : AccumulatorValues}
    (kept : ∀ nChecksum ∈ checksums nCheckpointPrevious,
      after.stored nChecksum = before.stored nChecksum)
    (erased : ∀ nChecksum ∈ checksums block.nAccumulatorCheckpoint,
      nChecksum ∉ checksums nCheckpointPrevious →
        after.stored nChecksum = (none, none))
    (others : ∀ nChecksum ∉ checksums block.nAccumulatorCheckpoint,
      after.stored nChecksum = before.stored nChecksum)
    {nChecksum : UInt32}
    (apart : ¬ Shared block.nAccumulatorCheckpoint nCheckpointPrevious
      nChecksum) :
    after.stored nChecksum =
      (before.eraseAccumulatorValues block.nAccumulatorCheckpoint
        nCheckpointPrevious).stored nChecksum := by
  rw [AccumulatorValues.stored_eraseAccumulatorValues]
  split
  case isTrue changed =>
    rcases changed with ⟨denom, _, differ, here⟩
    refine erased nChecksum (mem_checksums.mpr ⟨denom, here⟩) ?_
    intro before
    rcases mem_checksums.mp before with ⟨other, there⟩
    refine apart ⟨denom, other, ?_, here, there⟩
    rintro rfl
    exact differ (here.trans there.symm)
  case isFalse same =>
    by_cases ofBlock : nChecksum ∈ checksums block.nAccumulatorCheckpoint
    · rcases mem_checksums.mp ofBlock with ⟨denom, here⟩
      refine kept nChecksum (mem_checksums.mpr ⟨denom, ?_⟩)
      by_contra differ
      exact same ⟨denom, mem_zerocoinDenomList denom,
        fun equal => differ (equal ▸ here), here⟩
    · exact others nChecksum ofBlock

/-- The loop erases as promised exactly when the checkpoints are erasable. -/
theorem erasesCheckpoints_iff (nCheckpointPrevious : UInt256)
    (blocks : List CBlock) (values : AccumulatorValues) :
    ErasesCheckpoints nCheckpointPrevious blocks values
        (blocks.foldl (eraseBlock (checksums nCheckpointPrevious)) values) ↔
      Erasable nCheckpointPrevious blocks values := by
  have spec := stored_eraseBlocks nCheckpointPrevious blocks values
  generalize blocks.foldl (eraseBlock (checksums nCheckpointPrevious)) values =
    after at spec ⊢
  constructor
  · intro erases
    constructor
    · intro nChecksum listed deleted
      rcases spec nChecksum with ⟨_, stored⟩ | ⟨spared, _⟩
      · rw [← erases.kept nChecksum listed, stored]
      · exact absurd deleted spared
    · intro block here nChecksum ofBlock unlisted
      rcases spec nChecksum with ⟨deleted, _⟩ | ⟨_, stored⟩
      · exact .inl deleted
      · rw [← stored]
        exact .inr (erases.erased block here nChecksum ofBlock unlisted)
  · intro erasable
    have kept : ∀ nChecksum ∈ checksums nCheckpointPrevious,
        after.stored nChecksum = values.stored nChecksum := by
      intro nChecksum listed
      rcases spec nChecksum with ⟨deleted, stored⟩ | ⟨_, stored⟩
      · rw [stored, erasable.kept nChecksum listed deleted]
      · exact stored
    have erased : ∀ block ∈ blocks,
        ∀ nChecksum ∈ checksums block.nAccumulatorCheckpoint,
          nChecksum ∉ checksums nCheckpointPrevious →
            after.stored nChecksum = (none, none) := by
      intro block here nChecksum ofBlock unlisted
      rcases spec nChecksum with ⟨_, stored⟩ | ⟨spared, stored⟩
      · exact stored
      · rw [stored]
        exact (erasable.erased block here nChecksum ofBlock
          unlisted).resolve_left spared
    refine ⟨kept, erased, ?_⟩
    rintro block rfl nChecksum apart
    refine single_of_kept_erased kept (erased block List.mem_cons_self) ?_
      apart
    intro other notOfBlock
    rcases spec other with ⟨⟨found, here, ofBlock, _⟩, _⟩ | ⟨_, stored⟩
    · rw [List.mem_singleton.mp here] at ofBlock
      exact absurd ofBlock notOfBlock
    · exact stored

theorem visited_eq_inRange {chainActive : List CBlock} {nStartHeight : Nat}
    (onChain : nStartHeight < chainActive.length) (nEndHeight : Nat) :
    visited chainActive nStartHeight nEndHeight =
      inRange chainActive nStartHeight nEndHeight := by
  unfold visited inRange
  rw [List.take_eq_take_iff, List.length_drop]
  omega

/--
`EraseCheckpoints` behind a block erases as promised exactly when the
checkpoints of the range are erasable.
-/
theorem eraseCheckpoints_iff {chainActive : List CBlock} {nPrevHeight : Nat}
    {pprev : CBlock} (behind : chainActive[nPrevHeight]? = some pprev)
    (nEndHeight : Nat) (values : AccumulatorValues) :
    ∃ done after,
      eraseCheckpoints chainActive (nPrevHeight + 1) nEndHeight values =
        some (done, after) ∧
      (ErasesCheckpoints pprev.nAccumulatorCheckpoint
          (inRange chainActive (nPrevHeight + 1) nEndHeight) values after ↔
        Erasable pprev.nAccumulatorCheckpoint
          (inRange chainActive (nPrevHeight + 1) nEndHeight) values) := by
  by_cases beyond : chainActive.length ≤ nPrevHeight + 1
  · refine ⟨false, values, by rw [eraseCheckpoints, if_pos beyond], ?_⟩
    have none : inRange chainActive (nPrevHeight + 1) nEndHeight = [] := by
      rw [inRange, List.drop_eq_nil_of_le beyond, List.take_nil]
    rw [none]
    exact erasesCheckpoints_iff pprev.nAccumulatorCheckpoint [] values
  · refine ⟨true, (visited chainActive (nPrevHeight + 1) nEndHeight).foldl
      (eraseBlock (checksums pprev.nAccumulatorCheckpoint)) values, ?_, ?_⟩
    · rw [eraseCheckpoints, if_neg beyond]
      simp only [behind]
    · rw [visited_eq_inRange (not_le.mp beyond)]
      exact erasesCheckpoints_iff _ _ _

/-! ## A checkpoint that stays -/

/-- A block whose checkpoint has the checksums 1 to 8. -/
def countedBlock : CBlock where
  nAccumulatorCheckpoint := packed [1, 2, 3, 4, 5, 6, 7, 8]
  mints := []

/-- Every checksum has a value. -/
def fullValues : AccumulatorValues :=
  ⟨fun _ => some 5, fun _ => some 5⟩

theorem countedBlock_erases_iff :
    ∃ done after,
      eraseCheckpoints [countedBlock, countedBlock] (0 + 1) 1 fullValues =
        some (done, after) ∧
      (ErasesCheckpoints countedBlock.nAccumulatorCheckpoint
          (inRange [countedBlock, countedBlock] (0 + 1) 1) fullValues after ↔
        Erasable countedBlock.nAccumulatorCheckpoint
          (inRange [countedBlock, countedBlock] (0 + 1) 1) fullValues) :=
  eraseCheckpoints_iff rfl 1 fullValues

/-- The checkpoint has not changed, and its values are erased. -/
theorem countedBlock_erased :
    eraseCheckpoints [countedBlock, countedBlock] 1 1 fullValues =
        some (true, eraseBlock [1, 2, 3, 4, 5, 6, 7, 8] fullValues
          countedBlock) ∧
      (eraseBlock [1, 2, 3, 4, 5, 6, 7, 8] fullValues countedBlock).stored 1 =
        (none, none) ∧
      ¬ ErasesCheckpoints countedBlock.nAccumulatorCheckpoint [countedBlock]
        fullValues (eraseBlock [1, 2, 3, 4, 5, 6, 7, 8] fullValues
          countedBlock) := by
  have listed : checksums countedBlock.nAccumulatorCheckpoint =
      [1, 2, 3, 4, 5, 6, 7, 8] := by decide
  have gone : (eraseBlock [1, 2, 3, 4, 5, 6, 7, 8] fullValues
      countedBlock).stored 1 = (none, none) := by decide
  refine ⟨?_, gone, fun erases => ?_⟩
  · rw [← listed]
    rfl
  · have stays := erases.kept 1 (by rw [listed]; decide)
    rw [gone] at stays
    exact absurd stays (by decide)

end PrivateDatagram.Chainstate.Accumulators
