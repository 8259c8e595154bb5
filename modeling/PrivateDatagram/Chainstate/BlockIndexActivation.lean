import PrivateDatagram.Chainstate.BlockIndexFlags

/-!
# Activation of the best chain

A round looks for the candidate with the most work and connects blocks towards
it, until there is more work than before or a block does not connect.
-/

namespace PrivateDatagram.Chainstate.BlockIndexActivation

open Library.ForkPoint Library.Ranking BlockIndex BlockIndexTree BlockIndexData
  BlockIndexFlags
open Chainstate.ActiveChain (CBlockHeader)

variable {genesis : CBlockHeader} {state state' : ChainState}
  {anchor pindex other : Branch}

/-! ## The most work -/

/-- On a linked branch the walk ends at the active chain or at an entry that
cannot be used. -/
theorem findUnusable_cases (linked : ∀ ancestor, ancestor <:+ pindex →
      ancestor ≠ [] → Linked state ancestor) :
    (findUnusable state pindex = some none ∧
      ∀ ancestor, ancestor <:+ pindex → ancestor ≠ [] →
        ¬ ancestor <:+ state.chainActive →
        (state.entry ancestor).failed = false) ∨
    ∃ pindexTest, findUnusable state pindex = some (some pindexTest) ∧
      pindexTest <:+ pindex ∧ pindexTest ≠ [] ∧
      ¬ pindexTest <:+ state.chainActive ∧
      ((state.entry pindexTest).failed = true ∨
        (state.entry pindexTest).haveData = false) := by
  induction pindex with
  | nil =>
      refine .inl ⟨rfl, ?_⟩
      intro ancestor within nonempty
      exact absurd (List.suffix_nil.mp within) nonempty
  | cons block pprev ih =>
      have here := linked (block :: pprev) List.suffix_rfl
        (List.cons_ne_nil _ _)
      unfold findUnusable
      dsimp only
      split_ifs with onChain unlinked unusable
      · refine .inl ⟨rfl, ?_⟩
        intro ancestor within _ outside
        exact absurd (within.trans onChain) outside
      · exact absurd unlinked.1 here
      · refine .inr ⟨_, rfl, List.suffix_rfl, List.cons_ne_nil _ _, onChain,
          ?_⟩
        rw [Bool.not_eq_true] at unusable
        exact unusable
      · rw [not_or, Bool.not_eq_true] at unusable
        rcases ih fun ancestor within => linked ancestor
          (within.trans (List.suffix_cons _ _)) with ⟨found, usable⟩ | found
        · refine .inl ⟨found, ?_⟩
          intro ancestor within nonempty outside
          rcases List.suffix_cons_iff.mp within with rfl | within
          · exact unusable.1
          · exact usable ancestor within nonempty outside
        · obtain ⟨pindexTest, found, within, rest⟩ := found
          exact .inr ⟨pindexTest, found,
            within.trans (List.suffix_cons _ _), rest⟩

theorem removeChain_chainActive (pindexTest : Branch) (fFailedChain : Bool)
    (pindexFailed : Branch) (state : ChainState) :
    (removeChain pindexTest fFailedChain pindexFailed state).chainActive =
      state.chainActive := by
  induction pindexFailed generalizing state with
  | nil => rfl
  | cons block pprev ih =>
      unfold removeChain
      dsimp only
      split_ifs
      · rfl
      · exact ih _
      · exact ih _

theorem flagged_removeChain {pindexTest pindexFailed : Branch}
    (suffix : pindexTest <:+ pindexFailed) (state : ChainState) :
    Flagged pindexTest state
      (removeChain pindexTest true pindexFailed state) := by
  induction pindexFailed generalizing state with
  | nil => exact .refl _ _
  | cons block pprev ih =>
      unfold removeChain
      dsimp only
      rw [if_pos rfl]
      split_ifs with arrived
      · exact .refl _ _
      · have within := (List.suffix_cons_iff.mp suffix).resolve_left
          (Ne.symm arrived)
        exact (flagged_markChild suffix).trans (ih within _)

/-- An invalid entry is discarded with everything after it. -/
theorem flagged_discard {pindexTest : Branch} (suffix : pindexTest <:+ pindex)
    (failed : (state.entry pindexTest).failed = true) :
    Flagged pindexTest state
      (discard pindex pindexTest state) := by
  unfold BlockIndex.discard
  rw [failed]
  have removed := flagged_removeChain suffix state
  refine removed.trans (flagged_eraseCandidate ?_)
  by_contra unflagged
  rw [Bool.not_eq_true] at unflagged
  have before := removed.more pindexTest unflagged
  rw [failed] at before
  cases before

theorem discard_held (held : Held genesis anchor state) {pindexTest : Branch}
    (member : pindex ∈ state.mapBlockIndex)
    (suffix : pindexTest <:+ pindex) (nonempty : pindexTest ≠ [])
    (outside : ¬ pindexTest <:+ state.chainActive)
    (failed : (state.entry pindexTest).failed = true) :
    Held genesis anchor (discard pindex pindexTest state) := by
  have flagged := flagged_discard suffix failed
  refine held.flagged flagged ?_ outside ?_ ?_
  · exact removeChain_chainActive _ _ _ _
  · intro within
    have clear := held.clear pindexTest within nonempty
    rw [failed] at clear
    cases clear
  · obtain ⟨ancestor, within, behind, invalid⟩ := held.caused.cause
      (held.base.tree.suffix member suffix nonempty) nonempty failed
    exact ⟨ancestor, within, behind, flagged.failedValid _ invalid⟩

/-- The candidate with the most work, with nothing invalid on its way. -/
structure MostWork (state : ChainState) (pindex : Branch) : Prop where
  candidate : pindex ∈ state.setBlockIndexCandidates
  best : ∀ candidate ∈ state.setBlockIndexCandidates,
    rank state candidate ≤ rank state pindex
  clear : Clear state pindex

theorem findMostWorkChain_of_usable
    (found : bestCandidate state = some pindex)
    (usable : findUnusable state pindex = some none) :
    findMostWorkChain state = some (some pindex, state) := by
  rw [findMostWorkChain]
  split
  · simp_all
  · rename_i here
    obtain rfl := Option.some.inj (here.symm.trans found)
    split <;> simp_all

theorem findMostWorkChain_of_unusable {pindexTest : Branch}
    (found : bestCandidate state = some pindex)
    (unusable : findUnusable state pindex = some (some pindexTest)) :
    findMostWorkChain state =
      findMostWorkChain (discard pindex pindexTest state) := by
  conv_lhs => rw [findMostWorkChain]
  split
  · simp_all
  · rename_i here
    obtain rfl := Option.some.inj (here.symm.trans found)
    split <;> simp_all

theorem findMostWorkChain_spec (held : Held genesis anchor state) :
    ∃ pindex state', findMostWorkChain state = some (some pindex, state') ∧
      Held genesis anchor state' ∧ state'.chainActive = state.chainActive ∧
      MostWork state' pindex := by
  induction state using findMostWorkChain.induct with
  | case1 state none =>
      have member := held.anchor_candidate
      rw [best_eq_none none] at member
      cases member
  | case2 state pindexNew found stuck =>
      have linked := held.linked_ancestor (best_mem found)
      rcases findUnusable_cases linked with ⟨usable, _⟩ | ⟨_, unusable, _⟩
      · rw [stuck] at usable
        cases usable
      · rw [stuck] at unusable
        cases unusable
  | case3 state pindexNew found usable =>
      have linked := held.linked_ancestor (best_mem found)
      refine ⟨pindexNew, state, ?_, held, rfl, best_mem found,
        rank_le_best (workComparator_iff state) found, ?_⟩
      · exact findMostWorkChain_of_usable found usable
      · intro ancestor within nonempty
        by_cases onChain : ancestor <:+ state.chainActive
        · exact held.active.clear ancestor onChain nonempty
        · rcases findUnusable_cases linked with ⟨_, valid⟩ | ⟨_, unusable, _⟩
          · exact valid ancestor within nonempty onChain
          · rw [usable] at unusable
            cases unusable
  | case4 state pindexNew found pindexTest unusable ih =>
      have member := best_mem found
      have linked := held.linked_ancestor member
      rcases findUnusable_cases linked with ⟨usable, _⟩ |
        ⟨_, same, suffix, nonempty, outside, failed⟩
      · rw [unusable] at usable
        cases usable
      · rw [unusable] at same
        cases same
        have haveData := (held.ancestor member suffix nonempty).2
        rw [haveData, or_iff_left Bool.false_ne_true.symm] at failed
        obtain ⟨pindex, state', reaches, rest⟩ := ih (discard_held held
          (held.candidates.good _ member).1 suffix nonempty outside failed)
        refine ⟨pindex, state', ?_, ?_⟩
        · rw [findMostWorkChain_of_unusable found unusable]
          exact reaches
        · obtain ⟨kept, chainActive, most⟩ := rest
          exact ⟨kept, chainActive.trans (removeChain_chainActive _ _ _ _),
            most⟩

/-! ## Connecting -/

theorem corePart_raiseValidity (nUpTo : Nat) (entry : CBlockIndex) :
    corePart (entry.raiseValidity nUpTo) = corePart entry := by
  unfold CBlockIndex.raiseValidity
  split_ifs <;> rfl

theorem raiseValidity_flags (nUpTo : Nat) (entry : CBlockIndex) :
    (entry.raiseValidity nUpTo).failedValid = entry.failedValid ∧
      (entry.raiseValidity nUpTo).failedChild = entry.failedChild := by
  unfold CBlockIndex.raiseValidity
  split_ifs
  · exact ⟨rfl, rfl⟩
  · exact ⟨rfl, rfl⟩
  · exact ⟨rfl, rfl⟩

theorem validity_raiseValidity {nUpTo : Nat} {entry : CBlockIndex}
    (unflagged : entry.failed = false) :
    (entry.raiseValidity nUpTo).validity = max entry.validity nUpTo := by
  unfold CBlockIndex.raiseValidity
  rw [unflagged, if_neg Bool.false_ne_true]
  split_ifs with low
  · exact (max_eq_right low.le).symm
  · exact (max_eq_left (not_lt.mp low)).symm

/-- Neither the flags nor the core differ, and candidates only go. -/
structure Advanced (state state' : ChainState) : Prop where
  core : SameCore state state'
  flags : ∀ pindex,
    (state'.entry pindex).failedValid = (state.entry pindex).failedValid ∧
      (state'.entry pindex).failedChild = (state.entry pindex).failedChild
  fewer : ∀ candidate ∈ state'.setBlockIndexCandidates,
    candidate ∈ state.setBlockIndexCandidates

theorem Advanced.failed (advanced : Advanced state state')
    (pindex : Branch) :
    (state'.entry pindex).failed = (state.entry pindex).failed := by
  unfold CBlockIndex.failed
  rw [(advanced.flags pindex).1, (advanced.flags pindex).2]

theorem Advanced.clear (advanced : Advanced state state')
    (clear : Clear state pindex) : Clear state' pindex := by
  intro ancestor within nonempty
  rw [advanced.failed]
  exact clear ancestor within nonempty

theorem Advanced.caused (advanced : Advanced state state')
    (caused : Caused state) : Caused state' := by
  intro pindex member marked
  rw [advanced.core.mapBlockIndex] at member
  rw [(advanced.flags pindex).2] at marked
  obtain ⟨ancestor, suffix, nonempty, invalid⟩ := caused pindex member marked
  refine ⟨ancestor, suffix, nonempty, ?_⟩
  rw [(advanced.flags ancestor).1]
  exact invalid

theorem Advanced.trim (advanced : Advanced state state')
    {candidates : List Branch} (fewer : ∀ candidate ∈ candidates,
      candidate ∈ state'.setBlockIndexCandidates) :
    Advanced state
      { state' with setBlockIndexCandidates := candidates } := by
  obtain ⟨⟨index, unlinked, parts⟩, flags, before⟩ := advanced
  exact ⟨⟨index, unlinked, parts⟩, flags,
    fun candidate member => before candidate (fewer candidate member)⟩

theorem connectTip_entry_of_ne (apart : other ≠ pindex) :
    (connectTip pindex state).entry other = state.entry other :=
  Function.update_of_ne apart _ _

theorem connectTip_entry_self :
    (connectTip pindex state).entry pindex =
      (state.entry pindex).raiseValidity blockValidScripts :=
  Function.update_self ..

theorem advanced_connectTip (state : ChainState) (pindex : Branch) :
    Advanced state (connectTip pindex state) := by
  obtain ⟨index, unlinked, parts⟩ := sameCore_modify state pindex
    (corePart_raiseValidity blockValidScripts)
  refine ⟨⟨index, unlinked, parts⟩, ?_, fun _ => id⟩
  intro other
  by_cases same : other = pindex
  · rw [same, connectTip_entry_self]
    exact raiseValidity_flags _ _
  · rw [connectTip_entry_of_ne same]
    exact ⟨rfl, rfl⟩

/-- A block that can be connected to the tip. -/
structure Next (state : ChainState) (pindex : Branch) : Prop where
  member : pindex ∈ state.mapBlockIndex
  linked : Linked state pindex
  clear : Clear state pindex

theorem Next.advanced (next : Next state pindex)
    (advanced : Advanced state state') : Next state' pindex where
  member := by
    rw [advanced.core.mapBlockIndex]
    exact next.member
  linked := (Linked.congr advanced.core pindex).mpr next.linked
  clear := advanced.clear next.clear

section Connect

variable (next : Next state pindex)
include next

theorem Next.validity (nonempty : pindex ≠ []) :
    ((connectTip pindex state).entry pindex).validity =
      max (state.entry pindex).validity blockValidScripts := by
  rw [connectTip_entry_self]
  exact validity_raiseValidity (next.clear pindex List.suffix_rfl nonempty)

theorem Next.validity_le (nonempty : pindex ≠ []) (other : Branch) :
    (state.entry other).validity ≤
      ((connectTip pindex state).entry other).validity := by
  by_cases same : other = pindex
  · rw [same, next.validity nonempty]
    exact le_max_left _ _
  · rw [connectTip_entry_of_ne same]

theorem Next.levels (base : Base genesis state)
    (active : Active state state.chainActive)
    (tail : pindex.tail = state.chainActive) :
    Levels (connectTip pindex state) := by
  obtain ⟨tree, data, levels⟩ := base
  have nonempty := tree.ne_nil next.member
  have raised := next.validity nonempty
  have validity_le := next.validity_le nonempty
  have core := (advanced_connectTip state pindex).core
  constructor <;> rw [core.mapBlockIndex]
  · intro other member
    exact (levels.tree other member).trans (validity_le other)
  · intro other member
    rw [core.nTx]
    by_cases same : other = pindex
    · have haveData := (data.filled.linked pindex next.member
        next.linked).1
      rw [same, raised]
      refine iff_of_true ((Nat.le_max_right _ _).trans' (by decide)) ?_
      exact (data.filled.received pindex next.member).mp haveData
    · rw [connectTip_entry_of_ne same]
      exact levels.transactions other member
  · intro other member high
    by_cases same : other = pindex
    · rw [same, raised, tail]
      refine ⟨le_max_right _ _, ?_⟩
      intro behind
      exact (active.scripts _ List.suffix_rfl behind).trans (validity_le _)
    · rw [connectTip_entry_of_ne same] at high ⊢
      obtain ⟨scripts, parent⟩ := levels.scripts other member high
      exact ⟨scripts, fun behind => (parent behind).trans (validity_le _)⟩

theorem Next.active (base : Base genesis state)
    (active : Active state state.chainActive)
    (tail : pindex.tail = state.chainActive) :
    Active (connectTip pindex state) pindex := by
  have nonempty := base.tree.ne_nil next.member
  have advanced := advanced_connectTip state pindex
  have there := next.advanced advanced
  refine ⟨there.member, there.linked, there.clear, ?_⟩
  intro ancestor within behind
  by_cases same : ancestor = pindex
  · rw [same, next.validity nonempty]
    exact le_max_right _ _
  · have before : ancestor <:+ state.chainActive := by
      cases pindex with
      | nil => exact absurd rfl nonempty
      | cons block pprev =>
          rw [← tail]
          exact (List.suffix_cons_iff.mp within).resolve_left same
    exact (active.scripts ancestor before behind).trans
      (next.validity_le nonempty ancestor)

end Connect

/-- The better of the anchor and a new tip. -/
def raise (state : ChainState) (anchor pindex : Branch) : Branch :=
  if rank state anchor ≤ rank state pindex then pindex else anchor

theorem le_raise (state : ChainState) (anchor pindex : Branch) :
    rank state anchor ≤ rank state (raise state anchor pindex) ∧
      rank state pindex ≤ rank state (raise state anchor pindex) := by
  unfold raise
  split_ifs with less
  · exact ⟨less, le_rfl⟩
  · exact ⟨le_rfl, (not_le.mp less).le⟩

theorem raise_next (held : Held genesis anchor state)
    (next : Next state pindex) : Next state (raise state anchor pindex) := by
  unfold raise
  split_ifs
  · exact next
  · exact ⟨held.member, held.linked, held.clear⟩

/-- Only the candidates that are worse than the tip are removed. -/
theorem prune_eq {tip : Branch} (chainActive : state.chainActive = tip)
    (member : other ∈ state.setBlockIndexCandidates)
    (atLeast : rank state tip ≤ rank state other) :
    ∃ candidates, pruneBlockIndexCandidates state =
        some { state with setBlockIndexCandidates := candidates } ∧
      ∀ candidate, candidate ∈ candidates ↔
        candidate ∈ state.setBlockIndexCandidates ∧
          rank state tip ≤ rank state candidate := by
  have mem_iff : ∀ candidate, candidate ∈
      (state.setBlockIndexCandidates.filter fun candidate =>
        ¬ workComparator state candidate state.chainActive) ↔
      candidate ∈ state.setBlockIndexCandidates ∧
        rank state tip ≤ rank state candidate := by
    intro candidate
    rw [List.mem_filter, decide_eq_true_eq, workComparator_iff, not_lt,
      chainActive]
  unfold pruneBlockIndexCandidates
  dsimp only
  rw [if_neg]
  · exact ⟨_, rfl, mem_iff⟩
  · intro none
    have stays := (mem_iff other).mpr ⟨member, atLeast⟩
    rw [none] at stays
    cases stays

/-- After a block is connected, the candidates that are worse are gone. -/
theorem connect_held (held : Held genesis anchor state)
    (next : Next state pindex) (tail : pindex.tail = state.chainActive) :
    ∃ state', pruneBlockIndexCandidates (connectTip pindex state) =
        some state' ∧
      Held genesis (raise state anchor pindex) state' ∧
      Advanced state state' ∧ state'.chainActive = pindex := by
  have base := held.base
  have advanced := advanced_connectTip state pindex
  obtain ⟨member, linked, clear⟩ := raise_next held next
  obtain ⟨above, behind⟩ := le_raise state anchor pindex
  have candidate := held.candidates.complete _ member linked
    (clear _ List.suffix_rfl (base.tree.ne_nil member)) above
  obtain ⟨low, transactions, high⟩ := next.levels base held.active tail
  obtain ⟨indexed, active, valid, scripts⟩ :=
    next.active base held.active tail
  have tip : (connectTip pindex state).chainActive = pindex := rfl
  obtain ⟨candidates, pruned, mem_iff⟩ := prune_eq tip candidate
    (by rw [advanced.core.rank, advanced.core.rank]; exact behind)
  have trimmed := advanced.trim
    fun other within => ((mem_iff other).mp within).1
  have rank := trimmed.core.rank
  have isLinked := Linked.congr trimmed.core
  refine ⟨_, pruned, ⟨⟨base.tree.same trimmed.core.sameTree,
    base.data.same trimmed.core, low, transactions, high⟩,
    trimmed.caused held.caused, ⟨indexed, active, valid, scripts⟩,
    ⟨?_, ?_⟩, member, (isLinked _).mpr linked, trimmed.clear clear, ?_⟩,
    trimmed, rfl⟩
  · intro other within
    obtain ⟨before, atLeast⟩ := (mem_iff other).mp within
    obtain ⟨there, linked, _⟩ := held.candidates.good other before
    exact ⟨there, (isLinked other).mpr linked, atLeast⟩
  · intro other there linked unflagged atLeast
    rw [trimmed.failed] at unflagged
    rw [rank, rank] at atLeast
    refine (mem_iff other).mpr ⟨?_, ?_⟩
    · exact held.candidates.complete other there
        ((isLinked other).mp linked) unflagged (above.trans atLeast)
    · rw [advanced.core.rank, advanced.core.rank]
      exact behind.trans atLeast
  · rw [rank, rank]
    exact behind

/-! ## Rounds -/

/-- The blocks up to the anchor are on the active chain, or they were. -/
def Rests (stood : List Branch) (anchor : Branch) (state : ChainState) :
    Prop :=
  ∀ ancestor, ancestor <:+ anchor →
    ancestor <:+ state.chainActive ∨ ∃ tip ∈ stood, ancestor <:+ tip

/-- Candidates only go, and the order stays. -/
structure Fewer (state state' : ChainState) : Prop where
  rank : ∀ pindex, rank state' pindex = rank state pindex
  fewer : ∀ candidate ∈ state'.setBlockIndexCandidates,
    candidate ∈ state.setBlockIndexCandidates

theorem Fewer.refl (state : ChainState) : Fewer state state :=
  ⟨fun _ => rfl, fun _ => id⟩

theorem Fewer.trans {middle : ChainState} (one : Fewer state middle)
    (two : Fewer middle state') : Fewer state state' :=
  ⟨fun pindex => (two.rank pindex).trans (one.rank pindex),
    fun candidate member => one.fewer candidate (two.fewer candidate member)⟩

/-- How the connecting loop leaves the state. -/
structure Connected (genesis : CBlockHeader) (stood : List Branch)
    (state state' : ChainState) : Prop where
  held : ∃ anchor, Held genesis anchor state' ∧ Rests stood anchor state'
  fewer : Fewer state state'

theorem not_suffix_tail (nonempty : pindex ≠ []) :
    ¬ pindex <:+ pindex.tail := by
  intro suffix
  have short := suffix.length_le
  have positive := List.length_pos_of_ne_nil nonempty
  rw [List.length_tail] at short
  omega

section ConnectBlocks

variable {stood : List Branch} (held : Held genesis anchor state)
  (rests : Rests stood anchor state) (next : Next state pindex)
  (tail : pindex.tail = state.chainActive)
include held rests next tail

/-- A block that does not connect keeps nothing from being gone back to. -/
theorem connected_invalidBlockFound
    (new : ∀ tip ∈ stood, ¬ pindex <:+ tip) :
    Connected genesis stood state (invalidBlockFound pindex state) := by
  have flagged : Flagged pindex state _ := flagged_invalidBlockFound
  have nonempty := held.base.tree.ne_nil next.member
  have outside : ¬ pindex <:+ state.chainActive := by
    rw [← tail]
    exact not_suffix_tail nonempty
  refine ⟨⟨anchor, held.flagged flagged rfl outside ?_ ?_, rests⟩,
    flagged.same.core.rank, flagged.fewer⟩
  · intro within
    rcases rests pindex within with here | ⟨tip, member, earlier⟩
    · exact outside here
    · exact new tip member earlier
  · refine ⟨pindex, List.suffix_rfl, nonempty, ?_⟩
    have self := Function.update_self pindex (state.entry pindex).markValid
      state.entry
    exact (congrArg CBlockIndex.failedValid self :)

theorem connected_connectTip :
    ∃ state', pruneBlockIndexCandidates (connectTip pindex state) =
        some state' ∧
      (∃ anchor', Held genesis anchor' state' ∧
        Rests stood anchor' state') ∧
      Advanced state state' ∧ state'.chainActive = pindex := by
  obtain ⟨state', pruned, held', advanced, chainActive⟩ :=
    connect_held held next tail
  refine ⟨state', pruned, ⟨_, held', ?_⟩, advanced, chainActive⟩
  intro ancestor within
  rw [chainActive]
  unfold raise at within
  split_ifs at within
  · exact .inl within
  · rcases rests ancestor within with here | earlier
    · rw [← tail] at here
      exact .inl (here.trans (List.tail_suffix pindex))
    · exact .inr earlier

end ConnectBlocks

theorem connectBlocks_spec {verdict : Branch → Verdict} {pindexOldTip : Branch}
    {stood blocks : List Branch} (held : Held genesis anchor state)
    (rests : Rests stood anchor state)
    (next : ∀ pindex ∈ blocks, Next state pindex)
    (climbs : Climbs state.chainActive blocks)
    (valid : ∀ pindex ∈ blocks, verdict pindex = .invalid →
      ∀ tip ∈ stood, ¬ pindex <:+ tip) :
    ∃ state', connectBlocks verdict pindexOldTip blocks state =
        some state' ∧ Connected genesis stood state state' := by
  induction blocks generalizing anchor state with
  | nil => exact ⟨state, rfl, ⟨anchor, held, rests⟩, .refl state⟩
  | cons pindex blocks ih =>
      obtain ⟨tail, climbs⟩ := climbs
      rw [List.forall_mem_cons] at next valid
      unfold connectBlocks
      rw [if_neg (not_not.mpr tail)]
      cases result : verdict pindex with
      | invalid =>
          exact ⟨_, rfl, connected_invalidBlockFound held rests next.1 tail
            (valid.1 result)⟩
      | corrupted => exact ⟨_, rfl, ⟨anchor, held, rests⟩, .refl state⟩
      | accepted =>
          obtain ⟨middle, pruned, ⟨anchor', held', rests'⟩, advanced,
            chainActive⟩ := connected_connectTip held rests next.1 tail
          have fewer : Fewer state middle :=
            ⟨advanced.core.rank, advanced.fewer⟩
          dsimp only
          rw [pruned]
          dsimp only
          split_ifs with better
          · exact ⟨middle, rfl, ⟨anchor', held', rests'⟩, fewer⟩
          · rw [← chainActive] at climbs
            obtain ⟨state', connects, kept, later⟩ := ih held' rests'
              (fun other member => (next.2 other member).advanced advanced)
              climbs valid.2
            exact ⟨state', connects, kept, fewer.trans later⟩

/-- The verdict does not turn against a block that was on the active chain
before. -/
def Keeps (past : List Branch) (verdict : Branch → Verdict)
    (state : ChainState) : Prop :=
  ∀ tip ∈ past, ∀ pindex, pindex <:+ tip → ¬ contains state pindex →
    verdict pindex ≠ .invalid

theorem activateBestChainStep_spec {verdict : Branch → Verdict}
    {past : List Branch} (held : Held genesis anchor state)
    (most : MostWork state pindex) (rests : Rests past anchor state)
    (keeps : Keeps past verdict state) :
    ∃ state', activateBestChainStep verdict pindex state = some state' ∧
      Connected genesis (state.chainActive :: past) state state' := by
  have tree := held.base.tree
  have indexed := (held.candidates.good pindex most.candidate).1
  have onChain := forkPoint_suffix_chain state.chainActive pindex
  have onBranch := forkPoint_suffix_branch state.chainActive pindex
  have nonempty : forkPoint state.chainActive pindex ≠ [] := by
    have root := suffix_forkPoint
      (tree.genesis_suffix held.active.member) (tree.genesis_suffix indexed)
    intro none
    rw [none, List.suffix_nil] at root
    cases root
  have lower := held.lower onChain nonempty
  have outside : ∀ other ∈ above (forkPoint state.chainActive pindex).length
      pindex, ¬ other <:+ state.chainActive := by
    intro other member onOld
    obtain ⟨within, long⟩ := mem_above.mp member
    have short := (suffix_forkPoint onOld within).length_le
    omega
  have lowered : Rests (state.chainActive :: past) anchor
      { state with chainActive := forkPoint state.chainActive pindex } := by
    intro ancestor within
    rcases rests ancestor within with here | ⟨tip, member, earlier⟩
    · exact .inr ⟨_, List.mem_cons_self, here⟩
    · exact .inr ⟨tip, List.mem_cons_of_mem _ member, earlier⟩
  have next : ∀ other ∈ above (forkPoint state.chainActive pindex).length
      pindex, Next
        { state with chainActive := forkPoint state.chainActive pindex }
        other := by
    intro other member
    have within := (mem_above.mp member).1
    have behind := List.ne_nil_of_length_pos
      (Nat.zero_lt_of_lt (mem_above.mp member).2)
    have there := tree.suffix indexed within behind
    have linked := (held.ancestor most.candidate within behind).1
    exact ⟨there, linked, most.clear.suffix within⟩
  have valid : ∀ other ∈ above (forkPoint state.chainActive pindex).length
      pindex, verdict other = .invalid →
        ∀ tip ∈ state.chainActive :: past, ¬ other <:+ tip := by
    intro other member invalid tip before earlier
    rcases List.mem_cons.mp before with rfl | before
    · exact outside other member earlier
    · exact keeps tip before other earlier (outside other member) invalid
  obtain ⟨state', connects, kept, rank, fewer⟩ := connectBlocks_spec lower
    lowered next (climbs_above onBranch) valid
  exact ⟨state', connects, kept, rank, fewer⟩

/-- Once the tip has the most work, nothing else is needed to go back to. -/
theorem settled_of_best (held : Held genesis anchor state)
    (best : ∀ candidate ∈ state.setBlockIndexCandidates,
      rank state candidate ≤ rank state state.chainActive) :
    Settled genesis state := by
  have least := best anchor held.anchor_candidate
  have same := held.base.tree.rank_injective held.member held.active.member
    (le_antisymm least held.behind)
  rw [same] at held
  exact held

/-- What a round ends with. -/
structure Rounded (genesis : CBlockHeader) (stood : List Branch)
    (last : Bool) (state : ChainState) : Prop where
  held : ∃ anchor, Held genesis anchor state ∧ Rests stood anchor state
  settled : last = true → Settled genesis state

theorem activateRound_spec {verdict : Branch → Verdict} {past : List Branch}
    (held : Held genesis anchor state) (rests : Rests past anchor state)
    (keeps : Keeps past verdict state) :
    ∃ last state', activateRound verdict state = some (last, state') ∧
      Rounded genesis (state.chainActive :: past) last state' := by
  obtain ⟨pindex, middle, found, kept, chainActive, most⟩ :=
    findMostWorkChain_spec held
  unfold activateRound
  rw [found]
  dsimp only
  unfold Rests at rests
  unfold Keeps contains at keeps
  rw [← chainActive] at rests keeps ⊢
  split_ifs with arrived
  · refine ⟨_, _, rfl, ⟨anchor, kept, ?_⟩, fun _ => settled_of_best kept ?_⟩
    · intro ancestor within
      rcases rests ancestor within with here | ⟨tip, member, earlier⟩
      · exact .inl here
      · exact .inr ⟨tip, List.mem_cons_of_mem _ member, earlier⟩
    · rw [← arrived]
      exact most.best
  · obtain ⟨state', connects, connected, fewer⟩ :=
      activateBestChainStep_spec kept most rests keeps
    rw [connects]
    refine ⟨_, _, rfl, connected, ?_⟩
    intro last
    have arrived := of_decide_eq_true last
    obtain ⟨anchor', held', _⟩ := connected
    refine settled_of_best held' ?_
    intro candidate member
    rw [← arrived, fewer.rank, fewer.rank]
    exact most.best candidate (fewer.fewer candidate member)

/-- No block that was on the active chain at the beginning of a round, and is
not any more, turns out to be invalid in a later round of the same run. -/
def Returning : List Branch → List (Branch → Verdict) → ChainState → Prop
  | _, [], _ => True
  | past, verdict :: verdicts, state =>
      Keeps past verdict state ∧
        ∀ state', activateRound verdict state = some (false, state') →
          Returning (state.chainActive :: past) verdicts state'

theorem activateBestChain_run {verdicts : List (Branch → Verdict)}
    {past : List Branch} (held : Held genesis anchor state)
    (rests : Rests past anchor state)
    (returning : Returning past verdicts state)
    (ends : activateBestChain verdicts state = some state') :
    Settled genesis state' := by
  induction verdicts generalizing anchor past state with
  | nil => cases ends
  | cons verdict verdicts ih =>
      obtain ⟨keeps, later⟩ := returning
      obtain ⟨last, middle, round, ⟨anchor', held', rests'⟩, settled⟩ :=
        activateRound_spec held rests keeps
      unfold activateBestChain at ends
      rw [round] at ends
      cases last with
      | true =>
          cases ends
          exact settled rfl
      | false => exact ih held' rests' (later middle round) ends

/-- A run of `ActivateBestChain` that completes leaves nothing to do. -/
theorem settled_activateBestChain {verdicts : List (Branch → Verdict)}
    (settled : Settled genesis state)
    (returning : Returning [] verdicts state)
    (ends : activateBestChain verdicts state = some state') :
    Settled genesis state' :=
  activateBestChain_run settled (fun _ => .inl) returning ends

end PrivateDatagram.Chainstate.BlockIndexActivation
