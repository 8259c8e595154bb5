import PrivateDatagram.Chainstate.BlockIndexActivation

/-!
# Commands on the block index

`InvalidateBlock` gives entries flags and goes back to before them, and
`ReconsiderBlock` takes flags away.  New headers and new data may come at any
time.
-/

namespace PrivateDatagram.Chainstate.BlockIndexCommands

open BlockIndex BlockIndexTree BlockIndexData BlockIndexFlags
open Chainstate.ActiveChain (CBlockHeader getBlockProof)

variable {genesis : CBlockHeader} {state state' : ChainState}
  {pindex other : Branch}

/-- Nothing but the tip is needed to go back to. -/
theorem settled_mk (base : Base genesis state) (caused : Caused state)
    (active : Active state state.chainActive)
    (candidates : Candidates state state.chainActive) :
    Settled genesis state :=
  ⟨base, caused, active, candidates, active.member, active.linked,
    active.clear, le_rfl⟩

/-- A linked entry is valid up to its transactions. -/
theorem isValid_iff (base : Base genesis state)
    (member : pindex ∈ state.mapBlockIndex) (linked : Linked state pindex) :
    (state.entry pindex).isValid blockValidTransactions = true ↔
      (state.entry pindex).failed = false := by
  obtain ⟨_, ⟨filled, _⟩, levels⟩ := base
  have haveData := (filled.linked pindex member linked).1
  have level := (levels.transactions pindex member).mpr
    ((filled.received pindex member).mp haveData)
  unfold CBlockIndex.isValid
  rw [decide_eq_true level, Bool.and_true, Bool.not_eq_true']

/-! ## `InvalidateBlock` -/

/-- The active chain after the disconnections. -/
structure Disconnected (pindex : Branch) (state state' : ChainState) :
    Prop where
  flagged : Flagged pindex state state'
  suffix : state'.chainActive <:+ state.chainActive
  nonempty : state'.chainActive ≠ []
  outside : ¬ pindex <:+ state'.chainActive

theorem disconnectFrom_spec {branch : Branch}
    (tip : state.chainActive = branch)
    (ends : disconnectFrom pindex branch state = some state') :
    Disconnected pindex state state' := by
  induction branch generalizing state with
  | nil => cases ends
  | cons block pprev ih =>
      unfold disconnectFrom at ends
      split_ifs at ends with contained
      · obtain ⟨flagged, suffix, nonempty, outside⟩ := ih rfl ends
        have marked : Flagged pindex state _ :=
          (flagged_markChild contained).lower pprev
        refine ⟨marked.trans flagged, ?_, nonempty, outside⟩
        rw [tip]
        exact suffix.trans (List.suffix_cons block pprev)
      · cases ends
        rw [← tip] at contained
        exact ⟨.refl _ _, List.suffix_rfl, by rw [tip]; exact nofun,
          contained⟩

/-- An entry that can be a candidate. -/
def Usable (state : ChainState) (pindex : Branch) : Prop :=
  (state.entry pindex).isValid blockValidTransactions ∧
    (state.entry pindex).nChainTx ≠ 0 ∧
    ¬ workComparator state pindex state.chainActive

theorem mem_insertCandidate :
    other ∈ (insertCandidate pindex state).setBlockIndexCandidates ↔
      other = pindex ∨ other ∈ state.setBlockIndexCandidates :=
  List.mem_insert_iff

theorem readdCandidates_spec (entries : List Branch) (state : ChainState) :
    ∃ candidates, readdCandidates entries state =
        { state with setBlockIndexCandidates := candidates } ∧
      ∀ candidate, candidate ∈ candidates ↔
        candidate ∈ state.setBlockIndexCandidates ∨
          candidate ∈ entries ∧ Usable state candidate := by
  induction entries generalizing state with
  | nil => exact ⟨_, rfl, fun _ => by simp⟩
  | cons pindex entries ih =>
      unfold readdCandidates
      dsimp only
      split_ifs with usable
      · obtain ⟨candidates, result, mem_iff⟩ :=
          ih (insertCandidate pindex state)
        refine ⟨candidates, result, fun candidate => ?_⟩
        rw [mem_iff, mem_insertCandidate, List.mem_cons]
        constructor
        · rintro ((rfl | before) | ⟨member, later⟩)
          · exact .inr ⟨.inl rfl, usable⟩
          · exact .inl before
          · exact .inr ⟨.inr member, later⟩
        · rintro (before | ⟨rfl | member, later⟩)
          · exact .inl (.inr before)
          · exact .inl (.inl rfl)
          · exact .inr ⟨member, later⟩
      · obtain ⟨candidates, result, mem_iff⟩ := ih state
        refine ⟨candidates, result, fun candidate => ?_⟩
        rw [mem_iff, List.mem_cons]
        constructor
        · rintro (before | ⟨member, later⟩)
          · exact .inl before
          · exact .inr ⟨.inr member, later⟩
        · rintro (before | ⟨rfl | member, later⟩)
          · exact .inl before
          · exact absurd later usable
          · exact .inr ⟨member, later⟩

theorem flagged_invalid (pindex : Branch) (state : ChainState) :
    ((invalidBlockFound pindex state).entry pindex).failedValid = true := by
  have self := Function.update_self pindex (state.entry pindex).markValid
    state.entry
  exact (congrArg CBlockIndex.failedValid self :)

/-- After the disconnections the candidates are all those that are not worse
than the new tip. -/
theorem settled_readdCandidates (settled : Settled genesis state)
    (disconnected : Disconnected pindex state state')
    (nonempty : pindex ≠ [])
    (invalid : (state'.entry pindex).failedValid = true) :
    Settled genesis (readdCandidates state'.mapBlockIndex state') := by
  obtain ⟨flagged, suffix, behind, outside⟩ := disconnected
  have base := settled.base.same flagged.same
  have rank := flagged.same.core.rank
  have less := settled.base.tree.rank_le settled.active.member suffix behind
  have before := settled.active.suffix settled.base.tree settled.base.data
    suffix behind
  obtain ⟨member, linked, clear, scripts⟩ := before.same flagged.same
    (flagged.clear outside before.clear)
  obtain ⟨candidates, result, mem_iff⟩ :=
    readdCandidates_spec state'.mapBlockIndex state'
  rw [result]
  refine settled_mk ?_ ?_ ⟨member, linked, clear, scripts⟩ ⟨?_, ?_⟩
  · exact base.same ⟨⟨rfl, rfl, fun _ => rfl⟩, fun _ => rfl⟩
  · exact flagged.caused settled.caused
      ⟨pindex, List.suffix_rfl, nonempty, invalid⟩
  · intro candidate within
    rcases (mem_iff candidate).mp within with old | ⟨there, usable⟩
    · obtain ⟨indexed, isLinked, atLeast⟩ :=
        settled.candidates.good candidate (flagged.fewer candidate old)
      refine ⟨?_, (Linked.congr flagged.same.core _).mpr isLinked, ?_⟩
      · change candidate ∈ state'.mapBlockIndex
        rw [flagged.same.core.mapBlockIndex]
        exact indexed
      · change BlockIndexTree.rank state' _ ≤ BlockIndexTree.rank state' _
        rw [rank, rank]
        exact less.trans atLeast
    · obtain ⟨_, isLinked, atLeast⟩ := usable
      rw [workComparator_iff, not_lt] at atLeast
      exact ⟨there, isLinked, atLeast⟩
  · intro other there isLinked unflagged atLeast
    refine (mem_iff other).mpr (.inr ⟨there, ?_, isLinked, ?_⟩)
    · exact (isValid_iff base there isLinked).mpr unflagged
    · rw [workComparator_iff, not_lt]
      exact atLeast

theorem settled_invalidateBlock (settled : Settled genesis state)
    (nonempty : pindex ≠ [])
    (ends : invalidateBlock pindex state = some state') :
    Settled genesis state' := by
  unfold invalidateBlock at ends
  dsimp only at ends
  cases goes : disconnectFrom pindex
      (invalidBlockFound pindex state).chainActive
      (invalidBlockFound pindex state) with
  | none =>
      rw [goes] at ends
      cases ends
  | some middle =>
      rw [goes] at ends
      cases ends
      have disconnected := disconnectFrom_spec rfl goes
      obtain ⟨flagged, suffix, behind, outside⟩ := disconnected
      have first : Flagged pindex state _ := flagged_invalidBlockFound
      exact settled_readdCandidates settled
        ⟨first.trans flagged, suffix, behind, outside⟩ nonempty
        (flagged.failedValid pindex (flagged_invalid pindex state))

/-! ## `ReconsiderBlock` -/

/-- The search for the ancestor finds the descendants. -/
theorem getAncestor_eq_iff (tree : Tree genesis state)
    (member : pindex ∈ state.mapBlockIndex)
    (there : other ∈ state.mapBlockIndex) :
    getAncestor state (state.entry pindex).nHeight other = pindex ↔
      pindex <:+ other := by
  have height := tree.nHeight pindex member
  have height' := tree.nHeight other there
  by_cases long : (state.entry pindex).nHeight < other.length
  · rw [tree.getAncestor_eq there long]
    constructor
    · intro same
      rw [← same]
      exact ancestorAt_suffix _ _
    · intro suffix
      rw [← ancestorAt_of_suffix suffix (by omega)]
      unfold ancestorAt
      rw [height, Nat.sub_self, List.drop_zero]
  · refine iff_of_false ?_ ?_
    · unfold getAncestor
      dsimp only
      rw [if_pos (by omega)]
      exact (tree.ne_nil member).symm
    · intro suffix
      have short := suffix.length_le
      omega

/-- One entry of the loop of `ReconsiderBlock`. -/
def reconsiderEntry (pindex : Branch) (nHeight : Nat) (other : Branch)
    (state : ChainState) : ChainState :=
  if ¬ (state.entry other).isValid blockValidTransactions ∧
      getAncestor state nHeight other = pindex then
    let state := state.modify other (·.clearFailed)
    let entry := state.entry other
    if entry.isValid blockValidTransactions ∧ entry.nChainTx ≠ 0 ∧
        workComparator state state.chainActive other then
      insertCandidate other state
    else
      state
  else
    state

/-- Entries from one on lose their flags, and become candidates again. -/
structure Cleared (first : Branch) (state state' : ChainState) : Prop where
  same : SameFlagged state state'
  chainActive : state'.chainActive = state.chainActive
  outside : ∀ pindex, ¬ first <:+ pindex →
    state'.entry pindex = state.entry pindex
  fewer : ∀ pindex, (state.entry pindex).failed = false →
    (state'.entry pindex).failed = false
  kept : ∀ candidate ∈ state.setBlockIndexCandidates,
    candidate ∈ state'.setBlockIndexCandidates
  good : ∀ candidate ∈ state'.setBlockIndexCandidates,
    candidate ∈ state.setBlockIndexCandidates ∨
      candidate ∈ state.mapBlockIndex ∧ Linked state candidate ∧
        rank state state.chainActive < rank state candidate
  offered : ∀ pindex ∈ state.mapBlockIndex,
    (state.entry pindex).failed = true →
    (state'.entry pindex).failed = false → Linked state pindex →
    rank state state.chainActive < rank state pindex →
    pindex ∈ state'.setBlockIndexCandidates

theorem Cleared.refl (first : Branch) (state : ChainState) :
    Cleared first state state := by
  refine ⟨.refl state, rfl, fun _ _ => rfl, fun _ => id, fun _ => id,
    fun _ => .inl, ?_⟩
  intro pindex _ flagged unflagged
  rw [flagged] at unflagged
  cases unflagged

theorem Cleared.trans {first : Branch} {middle : ChainState}
    (one : Cleared first state middle) (two : Cleared first middle state') :
    Cleared first state state' := by
  have rank := one.same.core.rank
  have linked := Linked.congr one.same.core
  have index := one.same.core.mapBlockIndex
  refine ⟨one.same.trans two.same, two.chainActive.trans one.chainActive, ?_,
    ?_, ?_, ?_, ?_⟩
  · intro pindex outside
    rw [two.outside pindex outside, one.outside pindex outside]
  · intro pindex unflagged
    exact two.fewer pindex (one.fewer pindex unflagged)
  · intro candidate member
    exact two.kept candidate (one.kept candidate member)
  · intro candidate member
    rcases two.good candidate member with before | new
    · exact one.good candidate before
    · rw [index, linked, rank, rank, one.chainActive] at new
      exact .inr new
  · intro pindex member flagged unflagged isLinked better
    cases between : (middle.entry pindex).failed with
    | false =>
        exact two.kept pindex (one.offered pindex member flagged between
          isLinked better)
    | true =>
        refine two.offered pindex ?_ between unflagged ?_ ?_
        · rw [index]
          exact member
        · exact (linked pindex).mpr isLinked
        · rw [rank, rank, one.chainActive]
          exact better

/-- The entry without flags. -/
abbrev cleared (other : Branch) (state : ChainState) : ChainState :=
  state.modify other (·.clearFailed)

theorem cleared_entry_of_ne (apart : pindex ≠ other) :
    (cleared other state).entry pindex = state.entry pindex :=
  Function.update_of_ne apart _ _

theorem cleared_failed : ((cleared other state).entry other).failed =
    false := by
  have self : (cleared other state).entry other = _ :=
    Function.update_self ..
  rw [self]
  rfl

theorem sameFlagged_cleared (other : Branch) (state : ChainState) :
    SameFlagged state (cleared other state) := by
  refine ⟨sameCore_modify state other fun _ => rfl, ?_⟩
  intro pindex
  by_cases same : pindex = other
  · have self : (cleared other state).entry other = _ :=
      Function.update_self ..
    rw [same, self]
    rfl
  · rw [cleared_entry_of_ne same]

/-- Only the flags of one descendant are gone, and it is a candidate if it is
better than the tip. -/
theorem cleared_of_candidates {candidates : List Branch}
    (there : other ∈ state.mapBlockIndex) (suffix : pindex <:+ other)
    (kept : ∀ candidate ∈ state.setBlockIndexCandidates,
      candidate ∈ candidates)
    (new : ∀ candidate ∈ candidates,
      candidate ∈ state.setBlockIndexCandidates ∨ candidate = other ∧
        Linked state other ∧
        rank state state.chainActive < rank state other)
    (offered : Linked state other →
      rank state state.chainActive < rank state other →
      other ∈ candidates) :
    Cleared pindex state
      { cleared other state with setBlockIndexCandidates := candidates } := by
  obtain ⟨⟨index, unlinked, parts⟩, validity⟩ :=
    sameFlagged_cleared other state
  refine ⟨⟨⟨index, unlinked, parts⟩, validity⟩, rfl, ?_, ?_, kept, ?_, ?_⟩
  · intro entry outside
    refine cleared_entry_of_ne ?_
    rintro rfl
    exact outside suffix
  · intro entry unflagged
    change ((cleared other state).entry entry).failed = false
    by_cases same : entry = other
    · rw [same, cleared_failed]
    · rw [cleared_entry_of_ne same]
      exact unflagged
  · intro candidate member
    rcases new candidate member with before | ⟨rfl, linked, better⟩
    · exact .inl before
    · exact .inr ⟨there, linked, better⟩
  · intro entry _ flagged unflagged linked better
    change ((cleared other state).entry entry).failed = false at unflagged
    by_cases same : entry = other
    · rw [same] at linked better ⊢
      exact offered linked better
    · rw [cleared_entry_of_ne same, flagged] at unflagged
      cases unflagged

theorem cleared_reconsiderEntry (base : Base genesis state)
    (member : pindex ∈ state.mapBlockIndex)
    (there : other ∈ state.mapBlockIndex) :
    Cleared pindex state (reconsiderEntry pindex
        (state.entry pindex).nHeight other state) ∧
      (pindex <:+ other → ((reconsiderEntry pindex
        (state.entry pindex).nHeight other state).entry other).failed =
          false) := by
  have same := sameFlagged_cleared other state
  have linked := Linked.congr same.core other
  have rank := same.core.rank
  have descends := getAncestor_eq_iff base.tree member there
  unfold reconsiderEntry
  split_ifs with found
  · have suffix := descends.mp found.2
    have isValid := fun isLinked => (isValid_iff (base.same same) there
      (linked.mpr isLinked)).mpr cleared_failed
    dsimp only
    split_ifs with better
    · have ranks := better.2.2
      rw [workComparator_iff, rank, rank] at ranks
      refine ⟨cleared_of_candidates there suffix ?_ ?_ ?_,
        fun _ => cleared_failed⟩
      · intro candidate before
        exact mem_insertCandidate.mpr (.inr before)
      · intro candidate within
        rcases mem_insertCandidate.mp within with rfl | before
        · exact .inr ⟨rfl, linked.mp better.2.1, ranks⟩
        · exact .inl before
      · intro _ _
        exact mem_insertCandidate.mpr (.inl rfl)
    · refine ⟨cleared_of_candidates there suffix (fun _ => id)
        (fun _ => .inl) ?_, fun _ => cleared_failed⟩
      intro isLinked ranks
      refine absurd ⟨isValid isLinked, linked.mpr isLinked, ?_⟩ better
      rw [workComparator_iff, rank, rank]
      exact ranks
  · refine ⟨.refl _ _, ?_⟩
    intro suffix
    have valid := not_not.mp fun invalid =>
      found ⟨invalid, descends.mpr suffix⟩
    unfold CBlockIndex.isValid at valid
    rw [Bool.and_eq_true, Bool.not_eq_true'] at valid
    exact valid.1

/-- The loop of `ReconsiderBlock` leaves no descendant with a flag. -/
theorem cleared_reconsiderEntries (base : Base genesis state)
    (member : pindex ∈ state.mapBlockIndex) (entries : List Branch)
    (there : ∀ other ∈ entries, other ∈ state.mapBlockIndex) :
    Cleared pindex state (reconsiderEntries pindex
        (state.entry pindex).nHeight entries state) ∧
      ∀ other ∈ entries, pindex <:+ other → ((reconsiderEntries pindex
        (state.entry pindex).nHeight entries state).entry other).failed =
          false := by
  induction entries generalizing state with
  | nil => exact ⟨.refl _ _, nofun⟩
  | cons first entries ih =>
      rw [List.forall_mem_cons] at there
      obtain ⟨step, unflagged⟩ :=
        cleared_reconsiderEntry base member there.1
      have index := step.same.core.mapBlockIndex
      have height := step.same.core.sameTree.nHeight pindex
      rw [← index] at member there
      obtain ⟨run, rest⟩ := ih (base.same step.same) member there.2
      rw [height] at run rest
      refine ⟨step.trans run, ?_⟩
      intro other within suffix
      rcases List.mem_cons.mp within with rfl | within
      · exact run.fewer other (unflagged suffix)
      · exact rest other within suffix

/-- No flag is left for the loop over the ancestors. -/
theorem reconsiderAncestors_of_clear (clear : Clear state pindex) :
    reconsiderAncestors pindex state = state := by
  induction pindex with
  | nil => rfl
  | cons block pprev ih =>
      unfold reconsiderAncestors
      rw [clear _ List.suffix_rfl (List.cons_ne_nil _ _),
        if_neg Bool.false_ne_true]
      exact ih (clear.suffix (List.suffix_cons _ _))

theorem settled_cleared (settled : Settled genesis state)
    (cleared : Cleared pindex state state')
    (unflagged : ∀ other ∈ state.mapBlockIndex, pindex <:+ other →
      (state'.entry other).failed = false) : Settled genesis state' := by
  have same := cleared.same
  have rank := same.core.rank
  have linked := Linked.congr same.core
  have index := same.core.mapBlockIndex
  have clear : Clear state' state.chainActive := by
    intro ancestor within nonempty
    exact cleared.fewer ancestor
      (settled.active.clear ancestor within nonempty)
  refine settled_mk (settled.base.same same) ?_ ?_ ⟨?_, ?_⟩
  · intro other member marked
    rw [index] at member
    have outside : ¬ pindex <:+ other := by
      intro suffix
      have flag := unflagged other member suffix
      unfold CBlockIndex.failed at flag
      rw [marked, Bool.or_true] at flag
      cases flag
    rw [cleared.outside other outside] at marked
    obtain ⟨ancestor, suffix, nonempty, invalid⟩ :=
      settled.caused other member marked
    refine ⟨ancestor, suffix, nonempty, ?_⟩
    rw [cleared.outside ancestor fun within =>
      outside (within.trans suffix)]
    exact invalid
  · rw [cleared.chainActive]
    exact settled.active.same same clear
  · intro candidate member
    rw [index, linked, rank, rank, cleared.chainActive]
    rcases cleared.good candidate member with before | ⟨there, new, better⟩
    · exact settled.candidates.good candidate before
    · exact ⟨there, new, better.le⟩
  · intro other member isLinked unflagged atLeast
    rw [index] at member
    rw [linked] at isLinked
    rw [rank, rank, cleared.chainActive] at atLeast
    cases before : (state.entry other).failed with
    | false =>
        exact cleared.kept other (settled.candidates.complete other member
          isLinked before atLeast)
    | true =>
        refine cleared.offered other member before unflagged isLinked
          (lt_of_le_of_ne atLeast ?_)
        intro equal
        have tip := settled.base.tree.rank_injective settled.active.member
          member equal
        have valid := settled.active.clear _ List.suffix_rfl
          (settled.base.tree.ne_nil settled.active.member)
        rw [tip, before] at valid
        cases valid

/-- No flag is cleared above the block. -/
theorem settled_reconsiderBlock (settled : Settled genesis state)
    (member : pindex ∈ state.mapBlockIndex)
    (ancestors : Clear state pindex.tail) :
    Settled genesis (reconsiderBlock pindex state) := by
  obtain ⟨cleared, unflagged⟩ := cleared_reconsiderEntries settled.base
    member state.mapBlockIndex fun _ => id
  have clear : Clear (reconsiderEntries pindex (state.entry pindex).nHeight
      state.mapBlockIndex state) pindex := by
    intro ancestor within nonempty
    by_cases same : ancestor = pindex
    · rw [same]
      exact unflagged pindex member List.suffix_rfl
    · have behind : ancestor <:+ pindex.tail := by
        cases pindex with
        | nil => exact absurd (List.suffix_nil.mp within) nonempty
        | cons block pprev =>
            exact (List.suffix_cons_iff.mp within).resolve_left same
      exact cleared.fewer ancestor (ancestors ancestor behind nonempty)
  unfold reconsiderBlock
  rw [reconsiderAncestors_of_clear clear]
  exact settled_cleared settled cleared unflagged

/-! ## New headers -/

section NewHeader

variable {block : CBlockHeader} {address : Nat} {pprev : Branch}
  (new : block :: pprev ∉ state.mapBlockIndex)
include new

/-- Nothing changes about the ancestors of an entry. -/
theorem grown_ancestor (tree : Tree genesis state)
    (member : pindex ∈ state.mapBlockIndex) (suffix : other <:+ pindex)
    (nonempty : other ≠ []) :
    (grown block pprev address state).entry other = state.entry other :=
  entry_grown new (tree.suffix member suffix nonempty)

theorem grown_chainTx (tree : Tree genesis state)
    (member : pindex ∈ state.mapBlockIndex) :
    chainTx (grown block pprev address state) pindex =
      chainTx state pindex := by
  induction pindex with
  | nil => rfl
  | cons newest older ih =>
      rw [chainTx, chainTx, entry_grown new member]
      by_cases first : older = []
      · rw [first]
        rfl
      · rw [ih (tree.pprev _ member first)]

theorem grown_tail (tree : Tree genesis state)
    (member : pindex ∈ state.mapBlockIndex) (behind : pindex.tail ≠ []) :
    (grown block pprev address state).entry pindex.tail =
      state.entry pindex.tail :=
  entry_grown new (tree.pprev pindex member behind)

theorem filled_grown (tree : Tree genesis state) (filled : Filled state)
    (behind : pprev ≠ []) : Filled (grown block pprev address state) := by
  have self : (grown block pprev address state).entry (block :: pprev) = _ :=
    entry_grown_self.trans (headerPart_newEntry behind)
  constructor
  · intro other member
    rcases List.mem_cons.mp member with rfl | member
    · rw [self]
      exact iff_of_false Bool.false_ne_true (not_not.mpr rfl)
    · rw [entry_grown new member]
      exact filled.received other member
  · intro other member linked
    unfold Linked at linked ⊢
    rcases List.mem_cons.mp member with rfl | member
    · rw [self] at linked
      exact absurd rfl linked
    · rw [entry_grown new member] at linked ⊢
      obtain ⟨haveData, parent, count⟩ := filled.linked other member linked
      refine ⟨haveData, fun more => ?_, ?_⟩
      · rw [grown_tail new tree member more]
        exact parent more
      · rw [grown_chainTx new tree member]
        exact count
  · intro other member unlinked
    unfold Linked at unlinked
    rcases List.mem_cons.mp member with rfl | member
    · rw [self]
      rfl
    · rw [entry_grown new member] at unlinked ⊢
      exact filled.unlinked other member unlinked

theorem waits_grown (tree : Tree genesis state) (waits : Waits state [])
    (behind : pprev ≠ []) : Waits (grown block pprev address state) [] := by
  have self : (grown block pprev address state).entry (block :: pprev) = _ :=
    entry_grown_self.trans (headerPart_newEntry behind)
  constructor
  · exact waits.nodup
  · intro parent other
    unfold Linked
    change (parent, other) ∈ state.mapBlocksUnlinked ↔ _
    rw [waits.waiting]
    by_cases same : other = block :: pprev
    · rw [same, self]
      refine iff_of_false (fun old => new old.1) ?_
      rintro ⟨_, _, _, haveData, _⟩
      exact Bool.false_ne_true haveData
    · rw [entry_grown_of_ne same]
      change _ ↔ other ∈ _ :: _ ∧ _
      rw [List.mem_cons, or_iff_right same]
      rfl
  · intro other member
    rcases List.mem_cons.mp member with rfl | member
    · rw [self]
      intro haveData
      exact absurd haveData Bool.false_ne_true
    · unfold Linked
      rw [entry_grown new member]
      intro haveData unlinked outside
      obtain ⟨more, parent⟩ :=
        waits.behind other member haveData unlinked outside
      rw [grown_tail new tree member more]
      exact ⟨more, parent⟩

theorem levels_grown (tree : Tree genesis state) (levels : Levels state)
    (behind : pprev ≠ []) : Levels (grown block pprev address state) := by
  have self : (grown block pprev address state).entry (block :: pprev) = _ :=
    entry_grown_self.trans (headerPart_newEntry behind)
  constructor
  · intro other member
    rcases List.mem_cons.mp member with rfl | member
    · rw [self]
    · rw [entry_grown new member]
      exact levels.tree other member
  · intro other member
    rcases List.mem_cons.mp member with rfl | member
    · rw [self]
      refine iff_of_false ?_ (not_not.mpr rfl)
      change ¬ blockValidTransactions ≤ blockValidTree
      decide
    · rw [entry_grown new member]
      exact levels.transactions other member
  · intro other member
    rcases List.mem_cons.mp member with rfl | member
    · rw [self]
      intro (high : blockValidChain ≤ blockValidTree)
      exact absurd high (by decide)
    · rw [entry_grown new member]
      intro high
      obtain ⟨scripts, parent⟩ := levels.scripts other member high
      refine ⟨scripts, fun more => ?_⟩
      have behind : other.tail ≠ [] := by
        intro none
        rw [none] at more
        exact more rfl
      rw [grown_tail new tree member behind]
      exact parent more

theorem rank_grown (member : pindex ∈ state.mapBlockIndex) :
    rank (grown block pprev address state) pindex = rank state pindex := by
  unfold rank
  rw [entry_grown new member]

theorem settled_grown (settled : Settled genesis state)
    (known : pprev ∈ state.mapBlockIndex)
    (fresh : ∀ pindex ∈ state.mapBlockIndex,
      (state.entry pindex).address ≠ address)
    (work : (state.entry pprev).nChainWork <
      (state.entry pprev).nChainWork + getBlockProof block.nBits) :
    Settled genesis (grown block pprev address state) := by
  obtain ⟨⟨tree, data, levels⟩, caused, active, candidates, _⟩ := settled
  have behind := tree.ne_nil known
  have self : (grown block pprev address state).entry (block :: pprev) = _ :=
    entry_grown_self.trans (headerPart_newEntry behind)
  have tip : (grown block pprev address state).chainActive =
    state.chainActive := rfl
  have ancestor : ∀ {other ancestor : Branch},
      other ∈ state.mapBlockIndex → ancestor <:+ other → ancestor ≠ [] →
      (grown block pprev address state).entry ancestor =
        state.entry ancestor :=
    fun member => grown_ancestor new tree member
  refine settled_mk ⟨tree.grow new known fresh work,
    ⟨filled_grown new tree data.filled behind,
      waits_grown new tree data.waits behind⟩,
    levels_grown new tree levels behind⟩ ?_ ⟨?_, ?_, ?_, ?_⟩ ⟨?_, ?_⟩
  · intro other member marked
    rcases List.mem_cons.mp member with rfl | member
    · rw [self] at marked
      cases marked
    · rw [entry_grown new member] at marked
      obtain ⟨cause, suffix, nonempty, invalid⟩ := caused other member marked
      refine ⟨cause, suffix, nonempty, ?_⟩
      rw [ancestor member suffix nonempty]
      exact invalid
  · exact List.mem_cons_of_mem _ active.member
  · unfold Linked
    rw [tip, entry_grown new active.member]
    exact active.linked
  · intro other within nonempty
    rw [ancestor active.member within nonempty]
    exact active.clear other within nonempty
  · intro other within more
    have nonempty : other ≠ [] := by
      rintro rfl
      exact more rfl
    rw [ancestor active.member within nonempty]
    exact active.scripts other within more
  · intro candidate within
    obtain ⟨member, linked, atLeast⟩ := candidates.good candidate within
    unfold Linked
    rw [entry_grown new member, rank_grown new member, tip,
      rank_grown new active.member]
    exact ⟨List.mem_cons_of_mem _ member, linked, atLeast⟩
  · intro other member linked unflagged atLeast
    unfold Linked at linked
    rcases List.mem_cons.mp member with rfl | member
    · rw [self] at linked
      exact absurd rfl linked
    · rw [entry_grown new member] at linked unflagged
      rw [rank_grown new member, tip, rank_grown new active.member]
        at atLeast
      exact candidates.complete other member linked unflagged atLeast

end NewHeader

/-- A header that is known already changes nothing. -/
theorem settled_addToBlockIndex {block : CBlockHeader} {address : Nat}
    {pprev : Branch} (settled : Settled genesis state)
    (known : findBlock block.hashPrevBlock state = some pprev)
    (fresh : ∀ pindex ∈ state.mapBlockIndex,
      (state.entry pindex).address ≠ address)
    (work : findBlock block.hash state = none →
      (state.entry pprev).nChainWork <
        (state.entry pprev).nChainWork + getBlockProof block.nBits) :
    Settled genesis (addToBlockIndex block address state) := by
  cases found : findBlock block.hash state with
  | none =>
      rw [addToBlockIndex_eq found known]
      exact settled_grown (notMem_of_findBlock found) settled
        (findBlock_mem known) fresh (work found)
  | some pindex =>
      unfold addToBlockIndex
      rw [found]
      exact settled

/-! ## New data -/

/-- What holds whichever entries are in the queue. -/
structure Kept (state : ChainState) : Prop where
  levels : Levels state
  caused : Caused state
  active : Active state state.chainActive
  candidates : Candidates state state.chainActive

section Arrival

variable {nTx : UInt32} (base : Base genesis state)
  (may : MayArrive state pindex nTx)
include base may

/-- A field that the data leave alone. -/
theorem arrived_field {α : Type} (read : CBlockIndex → α)
    (stays : ∀ entry nTx haveData validity,
      read { entry with nTx, haveData, validity } = read entry)
    (other : Branch) :
    read ((arrived nTx pindex state).entry other) =
      read (state.entry other) := by
  by_cases same : other = pindex
  · rw [same, (entry_arrived base.levels base.data may).2.2, stays]
  · rw [entry_arrived_of_ne same]

theorem rank_arrived (other : Branch) :
    rank (arrived nTx pindex state) other = rank state other := by
  have same := arrived_field base may
    (fun entry => (entry.nChainWork, entry.nSequenceId, entry.address))
    (fun _ _ _ _ => rfl) other
  rw [Prod.mk.injEq, Prod.mk.injEq] at same
  unfold rank
  dsimp only
  rw [same.1, same.2.1, same.2.2]

theorem kept_arrived (caused : Caused state)
    (active : Active state state.chainActive)
    (candidates : Candidates state state.chainActive) :
    Kept (arrived nTx pindex state) := by
  have failed := arrived_field base may CBlockIndex.failed
    fun _ _ _ _ => rfl
  have failedValid := arrived_field base may CBlockIndex.failedValid
    fun _ _ _ _ => rfl
  have failedChild := arrived_field base may CBlockIndex.failedChild
    fun _ _ _ _ => rfl
  have rank := rank_arrived base may
  obtain ⟨tree, data, levels⟩ := base
  have linked := linked_arrived levels data may
  have tip : (arrived nTx pindex state).chainActive =
    state.chainActive := rfl
  refine ⟨levels_arrived levels data may, ?_, ⟨active.member, ?_, ?_, ?_⟩,
    ⟨?_, ?_⟩⟩
  · intro other member marked
    rw [failedChild] at marked
    obtain ⟨ancestor, suffix, nonempty, invalid⟩ :=
      caused other member marked
    refine ⟨ancestor, suffix, nonempty, ?_⟩
    rw [failedValid]
    exact invalid
  · rw [linked]
    exact active.linked
  · intro ancestor within nonempty
    rw [failed]
    exact active.clear ancestor within nonempty
  · intro ancestor within more
    have apart : ancestor ≠ pindex := by
      rintro rfl
      exact not_suffix_of_linked tree data levels may active.member
        active.linked within
    rw [entry_arrived_of_ne apart]
    exact active.scripts ancestor within more
  · intro candidate member
    rw [linked, rank, rank, tip]
    exact candidates.good candidate member
  · intro other member isLinked unflagged atLeast
    rw [linked] at isLinked
    rw [failed] at unflagged
    rw [rank, rank, tip] at atLeast
    exact candidates.complete other member isLinked unflagged atLeast

end Arrival

theorem kept_waiting (kept : Kept state) : Kept (waiting pindex state) := by
  obtain ⟨⟨low, transactions, scripts⟩, caused,
    ⟨member, linked, clear, valid⟩, ⟨good, complete⟩⟩ := kept
  exact ⟨⟨low, transactions, scripts⟩, caused,
    ⟨member, linked, clear, valid⟩, ⟨good, complete⟩⟩

theorem mem_offer :
    other ∈ (offer pindex state).setBlockIndexCandidates ↔
      other ∈ state.setBlockIndexCandidates ∨ other = pindex ∧
        (state.chainActive = [] ∨
          rank state state.chainActive ≤ rank state pindex) := by
  have order : rank state state.chainActive ≤ rank state pindex ↔
      ¬ workComparator state pindex state.chainActive := by
    rw [workComparator_iff, not_lt]
  rw [order]
  unfold offer
  split_ifs with offered
  · rw [mem_insertCandidate, or_comm, and_iff_left offered]
  · rw [or_iff_left fun new => offered new.2]

theorem mem_linkOne :
    other ∈ (linkOne pindex state).setBlockIndexCandidates ↔
      other ∈ state.setBlockIndexCandidates ∨ other = pindex ∧
        (state.chainActive = [] ∨
          rank (linkOne pindex state) state.chainActive ≤
            rank (linkOne pindex state) pindex) := by
  have entry := (offer_entry pindex (fillChain pindex state)).1
  have ranks : ∀ entry', rank (linkOne pindex state) entry' =
      rank (fillChain pindex state) entry' := by
    intro entry'
    change rank { offer pindex (fillChain pindex state) with
      mapBlocksUnlinked := _ } entry' = _
    unfold rank
    dsimp only
    rw [entry]
  rw [ranks, ranks]
  exact mem_offer

section LinkOne

variable {start : Branch} {queue : List Branch}

/-- An entry that is linked is offered as a candidate. -/
theorem kept_linkOne (tree : Tree genesis state)
    (inv : Queue start state (pindex :: queue)) (kept : Kept state) :
    Kept (linkOne pindex state) := by
  have spec := linkOne_spec pindex state
  have index := spec.mapBlockIndex
  have tip := spec.chainActive
  obtain ⟨indexed, _, unlinked, _⟩ := inv.ready pindex List.mem_cons_self
  have linked := spec.linked_iff inv tree
  have failed := spec.field CBlockIndex.failed fun _ _ _ => rfl
  have failedValid := spec.field CBlockIndex.failedValid fun _ _ _ => rfl
  have failedChild := spec.field CBlockIndex.failedChild fun _ _ _ => rfl
  have validity := spec.field CBlockIndex.validity fun _ _ _ => rfl
  have rank : ∀ other, other ≠ pindex →
      rank (linkOne pindex state) other = rank state other := by
    intro other apart
    unfold BlockIndexTree.rank
    rw [spec.others other apart]
  obtain ⟨levels, caused, active, candidates⟩ := kept
  have before : ∀ other, Linked state other → other ≠ pindex := by
    rintro other isLinked rfl
    exact unlinked isLinked
  have top := rank _ (before _ active.linked)
  refine ⟨levels.congr index validity
    (spec.field CBlockIndex.nTx fun _ _ _ => rfl), ?_, ?_, ⟨?_, ?_⟩⟩
  · intro other member marked
    rw [index] at member
    rw [failedChild] at marked
    obtain ⟨ancestor, suffix, nonempty, invalid⟩ :=
      caused other member marked
    refine ⟨ancestor, suffix, nonempty, ?_⟩
    rw [failedValid]
    exact invalid
  · rw [tip]
    refine ⟨?_, (linked _).mpr (.inl active.linked), ?_, ?_⟩
    · rw [index]
      exact active.member
    · intro ancestor within nonempty
      rw [failed]
      exact active.clear ancestor within nonempty
    · intro ancestor within more
      rw [validity]
      exact active.scripts ancestor within more
  · intro candidate member
    rw [index, linked, tip, top]
    rcases mem_linkOne.mp member with old | ⟨rfl, none | atLeast⟩
    · obtain ⟨there, isLinked, atLeast⟩ := candidates.good candidate old
      rw [rank candidate (before candidate isLinked)]
      exact ⟨there, .inl isLinked, atLeast⟩
    · have nonempty := tree.ne_nil active.member
      exact absurd none nonempty
    · rw [top] at atLeast
      exact ⟨indexed, .inr rfl, atLeast⟩
  · intro other member isLinked unflagged atLeast
    rw [index] at member
    rw [failed] at unflagged
    rw [tip] at atLeast
    rcases (linked other).mp isLinked with old | rfl
    · rw [top, rank other (before other old)] at atLeast
      exact mem_linkOne.mpr (.inl (candidates.complete other member old
        unflagged atLeast))
    · exact mem_linkOne.mpr (.inr ⟨rfl, .inr atLeast⟩)

end LinkOne

theorem settled_receivedBlockTransactions {nTx : UInt32}
    (settled : Settled genesis state) (may : MayArrive state pindex nTx) :
    Settled genesis (receivedBlockTransactions nTx pindex state) := by
  obtain ⟨⟨tree, data, levels⟩, caused, active, candidates, _⟩ := settled
  have arrives := kept_arrived ⟨tree, data, levels⟩ may caused active
    candidates
  obtain ⟨⟨levels, caused, active, candidates⟩, data, tree⟩ :=
    received_run tree levels data may arrives kept_waiting
      fun _ _ _ tree inv kept => kept_linkOne tree inv kept
  exact settled_mk ⟨tree, data, levels⟩ caused active candidates

end PrivateDatagram.Chainstate.BlockIndexCommands
