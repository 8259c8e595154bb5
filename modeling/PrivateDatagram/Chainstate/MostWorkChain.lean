import PrivateDatagram.Chainstate.BlockIndexActivation

/-!
# The best usable candidate

`FindMostWorkChain` takes the candidate with the most work and walks down to
the active chain.  At the first entry that is invalid or has no data it throws
out everything from the candidate to there, marks it, and starts again.

The marks go only to entries above an unusable one, so which candidates are
blocked never changes during the search.  Every round throws out the candidate
it began with, and no candidate that is not blocked.
-/

namespace PrivateDatagram.Chainstate.MostWorkChain

open Library.Ranking Wire.Serialize
open Chainstate.ActiveChain (CBlockHeader)
open BlockIndex BlockIndexTree BlockIndexFlags BlockIndexActivation

variable {state middle state' : ChainState} {pindex pindexTest : Branch}

/-! ## Usable candidates -/

/-- An entry off the active chain that is invalid or has no data. -/
structure Unusable (state : ChainState) (pindex : Branch) : Prop where
  entry : pindex ≠ []
  outside : ¬ contains state pindex
  bad : (state.entry pindex).failed = true ∨
    (state.entry pindex).haveData = false

/-- A path through an unusable entry. -/
def Blocked (state : ChainState) (pindex : Branch) : Prop :=
  ∃ ancestor, ancestor <:+ pindex ∧ Unusable state ancestor

/-- All ancestors off the active chain have data and no failure flag. -/
def Usable (state : ChainState) (pindex : Branch) : Prop :=
  ∀ ancestor, ancestor <:+ pindex → ancestor ≠ [] →
    ¬ contains state ancestor →
    (state.entry ancestor).failed = false ∧
      (state.entry ancestor).haveData = true

/-- What the assertion of the walk asks of the ancestors off the chain. -/
def LinkedOffChain (state : ChainState) (pindex : Branch) : Prop :=
  ∀ ancestor, ancestor <:+ pindex → ancestor ≠ [] →
    ¬ contains state ancestor →
    (state.entry ancestor).nChainTx ≠ 0 ∨ (state.entry ancestor).nHeight = 0

theorem usable_iff : Usable state pindex ↔ ¬ Blocked state pindex := by
  constructor
  · rintro usable ⟨ancestor, suffix, nonempty, outside, bad⟩
    rcases usable ancestor suffix nonempty outside with ⟨valid, haveData⟩
    rcases bad with failed | missing
    · exact Bool.false_ne_true (valid.symm.trans failed)
    · exact Bool.false_ne_true (missing.symm.trans haveData)
  · intro unblocked ancestor suffix nonempty outside
    constructor
    · by_contra failed
      exact unblocked ⟨ancestor, suffix, nonempty, outside,
        .inl (Bool.eq_true_of_not_eq_false failed)⟩
    · by_contra missing
      exact unblocked ⟨ancestor, suffix, nonempty, outside,
        .inr (Bool.eq_false_of_not_eq_true missing)⟩

theorem Blocked.of_suffix {ancestor : Branch}
    (blocked : Blocked state ancestor) (suffix : ancestor <:+ pindex) :
    Blocked state pindex := by
  rcases blocked with ⟨first, within, unusable⟩
  exact ⟨first, within.trans suffix, unusable⟩

/-- The walk finds an unusable entry, or it proves the candidate usable. -/
theorem findUnusable_spec (linked : LinkedOffChain state pindex) :
    (findUnusable state pindex = some none ∧ ¬ Blocked state pindex) ∨
      ∃ pindexTest, findUnusable state pindex = some (some pindexTest) ∧
        pindexTest <:+ pindex ∧ Unusable state pindexTest := by
  induction pindex with
  | nil =>
      refine .inl ⟨rfl, ?_⟩
      rintro ⟨ancestor, suffix, unusable⟩
      exact unusable.entry (List.suffix_nil.mp suffix)
  | cons block pprev hypothesis =>
      have nonempty := List.cons_ne_nil block pprev
      unfold findUnusable
      dsimp only
      split_ifs with onChain unlinked bad
      · refine .inl ⟨rfl, ?_⟩
        rintro ⟨ancestor, suffix, unusable⟩
        exact unusable.outside (suffix.trans onChain)
      · rcases linked _ List.suffix_rfl nonempty onChain with set | first
        · exact absurd unlinked.1 set
        · exact absurd first unlinked.2
      · rw [Bool.not_eq_true] at bad
        exact .inr ⟨_, rfl, List.suffix_rfl, nonempty, onChain, bad⟩
      · have behind : LinkedOffChain state pprev := fun ancestor suffix =>
          linked ancestor (suffix.trans (List.suffix_cons _ _))
        rcases hypothesis behind with ⟨found, free⟩ | found
        · refine .inl ⟨found, ?_⟩
          rintro ⟨ancestor, suffix, unusable⟩
          rcases List.suffix_cons_iff.mp suffix with rfl | within
          · rw [Bool.not_eq_true] at bad
            exact bad unusable.bad
          · exact free ⟨ancestor, within, unusable⟩
        · rcases found with ⟨pindexTest, found, suffix, unusable⟩
          exact .inr ⟨pindexTest, found,
            suffix.trans (List.suffix_cons _ _), unusable⟩

/-! ## What a round removes -/

/-- The entry without `BLOCK_FAILED_CHILD`. -/
def unmarked (entry : CBlockIndex) : CBlockIndex :=
  { entry with failedChild := false }

/-- Blocked entries get marks and stop being candidates; nothing else. -/
structure Removed (state state' : ChainState) : Prop where
  chainActive : state'.chainActive = state.chainActive
  parts : ∀ pindex,
    unmarked (state'.entry pindex) = unmarked (state.entry pindex)
  more : ∀ pindex, (state.entry pindex).failed = true →
    (state'.entry pindex).failed = true
  marked : ∀ pindex, (state'.entry pindex).failed = true →
    (state.entry pindex).failed = true ∨ Blocked state pindex
  fewer : state'.setBlockIndexCandidates ⊆ state.setBlockIndexCandidates
  removed : ∀ candidate ∈ state.setBlockIndexCandidates,
    candidate ∉ state'.setBlockIndexCandidates → Blocked state candidate

namespace Removed

theorem refl (state : ChainState) : Removed state state :=
  ⟨rfl, fun _ => rfl, fun _ => id, fun _ => .inl, fun _ => id,
    fun _ member absent => absurd member absent⟩

/-- What does not look at the mark stays the same. -/
theorem part_eq {β : Type} (removed : Removed state state')
    (part : CBlockIndex → β)
    (blind : ∀ entry, part (unmarked entry) = part entry)
    (pindex : Branch) :
    part (state'.entry pindex) = part (state.entry pindex) := by
  rw [← blind, removed.parts, blind]

theorem haveData (removed : Removed state state') (pindex : Branch) :
    (state'.entry pindex).haveData = (state.entry pindex).haveData :=
  removed.part_eq _ (fun _ => rfl) pindex

theorem contains_iff (removed : Removed state state') (pindex : Branch) :
    contains state' pindex ↔ contains state pindex := by
  unfold contains
  rw [removed.chainActive]

theorem unusable (removed : Removed state state')
    (unusable : Unusable state pindex) : Unusable state' pindex := by
  rcases unusable with ⟨entry, outside, bad⟩
  refine ⟨entry, mt (removed.contains_iff pindex).mp outside, ?_⟩
  rw [removed.haveData]
  exact bad.imp (removed.more pindex) id

/-- No round changes which paths are blocked. -/
theorem blocked_iff (removed : Removed state state') (pindex : Branch) :
    Blocked state' pindex ↔ Blocked state pindex := by
  constructor
  · rintro ⟨ancestor, suffix, entry, outside, bad⟩
    rw [removed.contains_iff] at outside
    rw [removed.haveData] at bad
    rcases bad with failed | missing
    · rcases removed.marked ancestor failed with before | blocked
      · exact ⟨ancestor, suffix, entry, outside, .inl before⟩
      · exact blocked.of_suffix suffix
    · exact ⟨ancestor, suffix, entry, outside, .inr missing⟩
  · rintro ⟨ancestor, suffix, unusable⟩
    exact ⟨ancestor, suffix, removed.unusable unusable⟩

theorem trans (one : Removed state middle) (two : Removed middle state') :
    Removed state state' := by
  refine ⟨?_, ?_, ?_, ?_, ?_, ?_⟩
  · exact two.chainActive.trans one.chainActive
  · intro pindex
    exact (two.parts pindex).trans (one.parts pindex)
  · intro pindex failed
    exact two.more pindex (one.more pindex failed)
  · intro pindex failed
    rcases two.marked pindex failed with before | blocked
    · exact one.marked pindex before
    · exact .inr ((one.blocked_iff pindex).mp blocked)
  · exact List.Subset.trans two.fewer one.fewer
  · intro candidate member absent
    by_cases between : candidate ∈ middle.setBlockIndexCandidates
    · exact (one.blocked_iff candidate).mp
        (two.removed candidate between absent)
    · exact one.removed candidate member between

theorem linked (removed : Removed state state')
    (linked : LinkedOffChain state pindex) : LinkedOffChain state' pindex := by
  intro ancestor suffix nonempty outside
  rw [removed.part_eq CBlockIndex.nChainTx fun _ => rfl,
    removed.part_eq CBlockIndex.nHeight fun _ => rfl]
  exact linked ancestor suffix nonempty
    (mt (removed.contains_iff ancestor).mpr outside)

theorem workComparator_eq (removed : Removed state state')
    (pa pb : Branch) :
    workComparator state' pa pb = workComparator state pa pb := by
  simp only [workComparator,
    removed.part_eq CBlockIndex.nChainWork fun _ => rfl,
    removed.part_eq CBlockIndex.nSequenceId fun _ => rfl,
    removed.part_eq CBlockIndex.address fun _ => rfl]

end Removed

theorem removed_eraseCandidate (blocked : Blocked state pindex) :
    Removed state (eraseCandidate pindex state) := by
  refine ⟨rfl, fun _ => rfl, fun _ => id, fun _ => .inl, ?_, ?_⟩
  · intro candidate member
    exact (mem_eraseCandidate.mp member).1
  · intro candidate member absent
    by_cases same : candidate = pindex
    · exact same ▸ blocked
    · exact absurd (mem_eraseCandidate.mpr ⟨member, same⟩) absent

theorem removed_markChild (blocked : Blocked state pindex) :
    Removed state (state.modify pindex (·.markChild)) := by
  refine ⟨rfl, ?_, ?_, ?_, fun _ => id, ?_⟩
  · intro other
    by_cases same : other = pindex
    · subst same
      simp [ChainState.modify, CBlockIndex.markChild, unmarked]
    · simp [ChainState.modify, same]
  · intro other failed
    by_cases same : other = pindex
    · subst same
      simp [ChainState.modify, CBlockIndex.markChild, CBlockIndex.failed]
    · simpa [ChainState.modify, same] using failed
  · intro other failed
    by_cases same : other = pindex
    · exact .inr (same ▸ blocked)
    · exact .inl (by simpa [ChainState.modify, same] using failed)
  · intro candidate member absent
    exact absurd member absent

theorem removed_unlinked (pairs : List (Branch × Branch)) :
    Removed state { state with mapBlocksUnlinked := pairs } :=
  ⟨rfl, fun _ => rfl, fun _ => id, fun _ => .inl, fun _ => id,
    fun _ member absent => absurd member absent⟩

/-- The loop over the entries above an unusable one. -/
theorem removed_removeChain (unusable : Unusable state pindexTest)
    (suffix : pindexTest <:+ pindex) (fFailedChain : Bool) :
    Removed state (removeChain pindexTest fFailedChain pindex state) := by
  induction pindex generalizing state with
  | nil => exact .refl state
  | cons block pprev hypothesis =>
      have blocked : Blocked state (block :: pprev) :=
        ⟨pindexTest, suffix, unusable⟩
      unfold removeChain
      dsimp only
      split_ifs with arrived failed
      · exact .refl state
      all_goals
        have within : pindexTest <:+ pprev :=
          (List.suffix_cons_iff.mp suffix).resolve_left (Ne.symm arrived)
      · have marked := removed_markChild blocked
        have first := marked.trans (removed_eraseCandidate
          ((marked.blocked_iff _).mpr blocked))
        exact first.trans (hypothesis (first.unusable unusable) within)
      · have added : Removed state _ := removed_unlinked
          (state.mapBlocksUnlinked ++ [(pprev, block :: pprev)])
        have first := added.trans (removed_eraseCandidate
          ((added.blocked_iff _).mpr blocked))
        exact first.trans (hypothesis (first.unusable unusable) within)

theorem removed_discard (unusable : Unusable state pindexTest)
    (suffix : pindexTest <:+ pindex) :
    Removed state (discard pindex pindexTest state) := by
  have chain := removed_removeChain unusable suffix
    (state.entry pindexTest).failed
  refine chain.trans (removed_eraseCandidate ?_)
  exact ⟨pindexTest, List.suffix_rfl, chain.unusable unusable⟩

/-! ## The search -/

/-- The greatest candidate that is usable, or that there is none. -/
def IsGreatest (state : ChainState) : Option Branch → Prop
  | none => ∀ candidate ∈ state.setBlockIndexCandidates,
      ¬ Usable state candidate
  | some pindex =>
      pindex ∈ state.setBlockIndexCandidates ∧ Usable state pindex ∧
        ∀ candidate ∈ state.setBlockIndexCandidates,
          Usable state candidate → ¬ workComparator state pindex candidate

theorem Removed.isGreatest (removed : Removed state state')
    {result : Option Branch} (greatest : IsGreatest state' result) :
    IsGreatest state result := by
  have usable : ∀ pindex, Usable state' pindex ↔ Usable state pindex := by
    intro pindex
    rw [usable_iff, usable_iff, removed.blocked_iff]
  have kept : ∀ candidate ∈ state.setBlockIndexCandidates,
      Usable state candidate →
        candidate ∈ state'.setBlockIndexCandidates := by
    intro candidate member free
    by_contra absent
    exact usable_iff.mp free (removed.removed candidate member absent)
  cases result with
  | none =>
      intro candidate member free
      exact greatest candidate (kept candidate member free)
        ((usable candidate).mpr free)
  | some pindex =>
      rcases greatest with ⟨member, free, best⟩
      refine ⟨removed.fewer member, (usable pindex).mp free, ?_⟩
      intro candidate within other
      rw [← removed.workComparator_eq]
      exact best candidate (kept candidate within other)
        ((usable candidate).mpr other)

/--
`FindMostWorkChain` ends.  It returns the greatest of the candidates all of
whose ancestors off the active chain have data and no failure flag, nothing if
there are none, and removes only candidates above an unusable entry.
-/
theorem findMostWorkChain_greatest (state : ChainState)
    (linked : ∀ candidate ∈ state.setBlockIndexCandidates,
      LinkedOffChain state candidate) :
    ∃ result state', findMostWorkChain state = some (result, state') ∧
      IsGreatest state result ∧
      state'.setBlockIndexCandidates ⊆ state.setBlockIndexCandidates ∧
      ∀ candidate ∈ state.setBlockIndexCandidates,
        candidate ∉ state'.setBlockIndexCandidates →
          Blocked state candidate := by
  suffices search : ∃ result state',
      findMostWorkChain state = some (result, state') ∧
        IsGreatest state result ∧ Removed state state' by
    rcases search with ⟨result, state', ends, greatest, removed⟩
    exact ⟨result, state', ends, greatest, removed.fewer, removed.removed⟩
  induction state using findMostWorkChain.induct with
  | case1 state found =>
      refine ⟨none, state, ?_, ?_, .refl state⟩
      · rw [findMostWorkChain]
        split <;> simp_all
      · intro candidate member
        rw [best_eq_none found] at member
        cases member
  | case2 state pindexNew found stuck =>
      rcases findUnusable_spec (linked _ (best_mem found)) with
        ⟨ends, _⟩ | ⟨_, ends, _⟩
      · cases stuck.symm.trans ends
      · cases stuck.symm.trans ends
  | case3 state pindexNew found usable =>
      rcases findUnusable_spec (linked _ (best_mem found)) with
        ⟨_, free⟩ | ⟨_, ends, _⟩
      · refine ⟨some pindexNew, state,
          findMostWorkChain_of_usable found usable, ?_, .refl state⟩
        refine ⟨best_mem found, usable_iff.mpr free, ?_⟩
        intro candidate member _
        rw [workComparator_iff, not_lt]
        exact rank_le_best (workComparator_iff state) found candidate member
      · cases usable.symm.trans ends
  | case4 state pindexNew found pindexTest ends hypothesis =>
      rcases findUnusable_spec (linked _ (best_mem found)) with
        ⟨free, _⟩ | ⟨_, same, suffix, unusable⟩
      · cases ends.symm.trans free
      · obtain rfl := Option.some.inj
          (Option.some.inj (ends.symm.trans same))
        have removed := removed_discard unusable suffix
        rcases hypothesis fun candidate member =>
          removed.linked (linked candidate (removed.fewer member)) with
          ⟨result, state', rest, greatest, later⟩
        refine ⟨result, state', ?_, removed.isGreatest greatest,
          removed.trans later⟩
        rw [findMostWorkChain_of_unusable found ends]
        exact rest

/-! ## A candidate without data -/

/-- A header with a name. -/
def headerOf (hash hashPrevBlock : UInt256) : CBlockHeader :=
  ⟨hash, hashPrevBlock, 1, 0, 0x1e0fffff⟩

/-- Two blocks on the active one; the upper one has no data any more. -/
def prunedState : ChainState where
  mapBlockIndex := []
  entry pindex :=
    { CBlockIndex.null pindex.length with
      nChainWork := BitVec.ofNat 256 pindex.length
      nChainTx := 1
      haveData := pindex.length ≤ 2 }
  setBlockIndexCandidates :=
    [[headerOf 2 1, headerOf 1 0],
      [headerOf 3 2, headerOf 2 1, headerOf 1 0]]
  mapBlocksUnlinked := []
  chainActive := [headerOf 1 0]
  nBlockSequenceId := 1

theorem findMostWorkChain_greatest_pruned :
    ∃ result state', findMostWorkChain prunedState = some (result, state') ∧
      IsGreatest prunedState result ∧
      state'.setBlockIndexCandidates ⊆
        prunedState.setBlockIndexCandidates ∧
      ∀ candidate ∈ prunedState.setBlockIndexCandidates,
        candidate ∉ state'.setBlockIndexCandidates →
          Blocked prunedState candidate :=
  findMostWorkChain_greatest prunedState
    fun _ _ _ _ _ _ => .inl (show (1 : UInt32) ≠ 0 by decide)

end PrivateDatagram.Chainstate.MostWorkChain
