import PrivateDatagram.Chainstate.BlockIndexData

/-!
# Flags and candidates

While blocks are disconnected and connected, the tip may be worse than
before.  What the search falls back on is an anchor, an entry that is not
worse than the tip and whose blocks all connect: every entry that is at least
as good as the anchor stays a candidate unless it fails.
-/

namespace PrivateDatagram.Chainstate.BlockIndexFlags

open BlockIndex BlockIndexTree BlockIndexData
open Chainstate.ActiveChain (CBlockHeader)

variable {genesis : CBlockHeader} {state state' : ChainState}
  {anchor pindex other : Branch}

/-! ## Invariants -/

/-- What the flags, the candidates and the tip have no part in. -/
structure Base (genesis : CBlockHeader) (state : ChainState) : Prop where
  tree : Tree genesis state
  data : Data state
  levels : Levels state

/-- A branch without a flag. -/
def Clear (state : ChainState) (pindex : Branch) : Prop :=
  ∀ ancestor, ancestor <:+ pindex → ancestor ≠ [] →
    (state.entry ancestor).failed = false

/-- Only descendants of an invalid block are marked as such. -/
def Caused (state : ChainState) : Prop :=
  ∀ pindex ∈ state.mapBlockIndex,
    (state.entry pindex).failedChild = true →
    ∃ ancestor, ancestor <:+ pindex ∧ ancestor ≠ [] ∧
      (state.entry ancestor).failedValid = true

/-- The active chain up to a tip. -/
structure Active (state : ChainState) (tip : Branch) : Prop where
  member : tip ∈ state.mapBlockIndex
  linked : Linked state tip
  clear : Clear state tip
  scripts : ∀ ancestor, ancestor <:+ tip → ancestor.tail ≠ [] →
    blockValidScripts ≤ (state.entry ancestor).validity

structure Candidates (state : ChainState) (anchor : Branch) : Prop where
  good : ∀ candidate ∈ state.setBlockIndexCandidates,
    candidate ∈ state.mapBlockIndex ∧ Linked state candidate ∧
      rank state state.chainActive ≤ rank state candidate
  complete : ∀ pindex ∈ state.mapBlockIndex, Linked state pindex →
    (state.entry pindex).failed = false →
    rank state anchor ≤ rank state pindex →
    pindex ∈ state.setBlockIndexCandidates

/-- The state in the middle of an activation. -/
structure Held (genesis : CBlockHeader) (anchor : Branch)
    (state : ChainState) : Prop where
  base : Base genesis state
  caused : Caused state
  active : Active state state.chainActive
  candidates : Candidates state anchor
  member : anchor ∈ state.mapBlockIndex
  linked : Linked state anchor
  clear : Clear state anchor
  behind : rank state state.chainActive ≤ rank state anchor

/-- The state between two calls. -/
def Settled (genesis : CBlockHeader) (state : ChainState) : Prop :=
  Held genesis state.chainActive state

theorem Held.anchor_candidate (held : Held genesis anchor state) :
    anchor ∈ state.setBlockIndexCandidates :=
  held.candidates.complete anchor held.member held.linked
    (held.clear anchor List.suffix_rfl (held.base.tree.ne_nil held.member))
    le_rfl

theorem Clear.suffix (clear : Clear state pindex) (suffix : other <:+ pindex) :
    Clear state other := by
  intro ancestor within
  exact clear ancestor (within.trans suffix)

theorem Active.suffix (active : Active state pindex)
    (tree : Tree genesis state) (data : Data state)
    (suffix : other <:+ pindex) (nonempty : other ≠ []) :
    Active state other where
  member := tree.suffix active.member suffix nonempty
  linked := data.filled.suffix tree active.member active.linked suffix
    nonempty
  clear := active.clear.suffix suffix
  scripts ancestor within :=
    active.scripts ancestor (within.trans suffix)

theorem Caused.cause (caused : Caused state)
    (member : pindex ∈ state.mapBlockIndex) (nonempty : pindex ≠ [])
    (failed : (state.entry pindex).failed = true) :
    ∃ ancestor, ancestor <:+ pindex ∧ ancestor ≠ [] ∧
      (state.entry ancestor).failedValid = true := by
  rcases Bool.or_eq_true_iff.mp failed with invalid | marked
  · exact ⟨pindex, List.suffix_rfl, nonempty, invalid⟩
  · exact caused pindex member marked

/-- The data up to a candidate are there. -/
theorem Held.ancestor (held : Held genesis anchor state)
    (member : pindex ∈ state.setBlockIndexCandidates)
    (suffix : other <:+ pindex) (nonempty : other ≠ []) :
    Linked state other ∧ (state.entry other).haveData = true := by
  obtain ⟨tree, ⟨filled, _⟩, _⟩ := held.base
  obtain ⟨indexed, linked, _⟩ := held.candidates.good pindex member
  have behind := filled.suffix tree indexed linked suffix nonempty
  exact ⟨behind, (filled.linked other (tree.suffix indexed suffix nonempty)
    behind).1⟩

theorem Held.linked_ancestor (held : Held genesis anchor state)
    (member : pindex ∈ state.setBlockIndexCandidates) :
    ∀ ancestor, ancestor <:+ pindex → ancestor ≠ [] →
      Linked state ancestor :=
  fun _ suffix nonempty => (held.ancestor member suffix nonempty).1

/-! ## Changes of flags -/

/-- Only flags, candidates and the tip differ. -/
structure SameFlagged (state state' : ChainState) : Prop where
  core : SameCore state state'
  validity : ∀ pindex, (state'.entry pindex).validity =
    (state.entry pindex).validity

theorem SameFlagged.refl (state : ChainState) : SameFlagged state state :=
  ⟨.refl state, fun _ => rfl⟩

theorem SameFlagged.trans {state'' : ChainState}
    (first : SameFlagged state state')
    (second : SameFlagged state' state'') : SameFlagged state state'' :=
  ⟨first.core.trans second.core,
    fun pindex => (second.validity pindex).trans (first.validity pindex)⟩

theorem Base.same (base : Base genesis state)
    (same : SameFlagged state state') : Base genesis state' where
  tree := base.tree.same same.core.sameTree
  data := base.data.same same.core
  levels := base.levels.congr same.core.mapBlockIndex same.validity
    same.core.nTx

theorem Active.same (active : Active state pindex)
    (same : SameFlagged state state') (clear : Clear state' pindex) :
    Active state' pindex where
  member := by
    rw [same.core.mapBlockIndex]
    exact active.member
  linked := (Linked.congr same.core pindex).mpr active.linked
  clear := clear
  scripts ancestor within behind := by
    rw [same.validity]
    exact active.scripts ancestor within behind

/-- Entries from one on get flags and are no candidates any more. -/
structure Flagged (first : Branch) (state state' : ChainState) : Prop where
  same : SameFlagged state state'
  outside : ∀ pindex, ¬ first <:+ pindex →
    state'.entry pindex = state.entry pindex
  failedValid : ∀ pindex, (state.entry pindex).failedValid = true →
    (state'.entry pindex).failedValid = true
  more : ∀ pindex, (state'.entry pindex).failed = false →
    (state.entry pindex).failed = false
  fewer : ∀ candidate ∈ state'.setBlockIndexCandidates,
    candidate ∈ state.setBlockIndexCandidates
  kept : ∀ candidate ∈ state.setBlockIndexCandidates,
    (state'.entry candidate).failed = false →
    candidate ∈ state'.setBlockIndexCandidates

theorem Flagged.refl (first : Branch) (state : ChainState) :
    Flagged first state state :=
  ⟨.refl state, fun _ _ => rfl, fun _ => id, fun _ => id, fun _ => id,
    fun _ member _ => member⟩

theorem Flagged.trans {first : Branch} {middle : ChainState}
    (one : Flagged first state middle) (two : Flagged first middle state') :
    Flagged first state state' := by
  refine ⟨one.same.trans two.same, ?_, ?_, ?_, ?_, ?_⟩
  · intro pindex outside
    rw [two.outside pindex outside, one.outside pindex outside]
  · intro pindex marked
    exact two.failedValid pindex (one.failedValid pindex marked)
  · intro pindex unflagged
    exact one.more pindex (two.more pindex unflagged)
  · intro candidate member
    exact one.fewer candidate (two.fewer candidate member)
  · intro candidate member unflagged
    exact two.kept candidate (one.kept candidate member
      (two.more candidate unflagged)) unflagged

/-- The tip has no part in it. -/
theorem Flagged.lower {first : Branch} (flagged : Flagged first state state')
    (fork : Branch) :
    Flagged first state { state' with chainActive := fork } := by
  obtain ⟨⟨⟨index, unlinked, parts⟩, validity⟩, outside, invalid, more, fewer,
    kept⟩ := flagged
  exact ⟨⟨⟨index, unlinked, parts⟩, validity⟩, outside, invalid, more, fewer,
    kept⟩

theorem mem_eraseCandidate {candidate : Branch} :
    candidate ∈ (eraseCandidate pindex state).setBlockIndexCandidates ↔
      candidate ∈ state.setBlockIndexCandidates ∧ candidate ≠ pindex := by
  unfold eraseCandidate
  rw [List.mem_filter, decide_eq_true_eq]

/-- One entry that has a flag afterwards is no candidate any more. -/
theorem flagged_modify {first : Branch} {change : CBlockIndex → CBlockIndex}
    (suffix : first <:+ pindex)
    (core : ∀ entry, corePart (change entry) = corePart entry)
    (validity : ∀ entry, (change entry).validity = entry.validity)
    (failedValid : ∀ entry, entry.failedValid = true →
      (change entry).failedValid = true)
    (flags : (change (state.entry pindex)).failed = true) :
    Flagged first state
      (eraseCandidate pindex (state.modify pindex change)) := by
  have self : (state.modify pindex change).entry pindex =
      change (state.entry pindex) := Function.update_self ..
  have others : ∀ other, other ≠ pindex →
      (state.modify pindex change).entry other = state.entry other :=
    fun other apart => Function.update_of_ne apart _ _
  obtain ⟨index, unlinked, parts⟩ := sameCore_modify state pindex core
  refine ⟨⟨⟨index, unlinked, parts⟩, ?_⟩, ?_, ?_, ?_, ?_, ?_⟩
  · intro other
    by_cases same : other = pindex
    · rw [same]
      exact (congrArg CBlockIndex.validity self).trans (validity _)
    · exact congrArg CBlockIndex.validity (others other same)
  · intro other outside
    refine others other ?_
    rintro rfl
    exact outside suffix
  · intro other marked
    change ((state.modify pindex change).entry other).failedValid = true
    by_cases same : other = pindex
    · rw [same] at marked ⊢
      rw [self]
      exact failedValid _ marked
    · rw [others other same]
      exact marked
  · intro other
    change ((state.modify pindex change).entry other).failed = false → _
    by_cases same : other = pindex
    · rw [same, self, flags]
      exact nofun
    · rw [others other same]
      exact id
  · intro candidate member
    exact (mem_eraseCandidate.mp member).1
  · intro candidate member
    change ((state.modify pindex change).entry candidate).failed = false → _
    intro unflagged
    refine mem_eraseCandidate.mpr ⟨member, ?_⟩
    rintro rfl
    rw [self, flags] at unflagged
    cases unflagged

theorem flagged_markChild {first : Branch} (suffix : first <:+ pindex) :
    Flagged first state
      (eraseCandidate pindex (state.modify pindex (·.markChild))) :=
  flagged_modify suffix (fun _ => rfl) (fun _ => rfl) (fun _ => id)
    (Bool.or_true _)

theorem flagged_invalidBlockFound :
    Flagged pindex state (invalidBlockFound pindex state) :=
  flagged_modify List.suffix_rfl (fun _ => rfl) (fun _ => rfl)
    (fun _ _ => rfl) (Bool.true_or _)

theorem flagged_eraseCandidate (failed : (state.entry pindex).failed = true) :
    Flagged pindex state (eraseCandidate pindex state) := by
  refine ⟨⟨⟨rfl, rfl, fun _ => rfl⟩, fun _ => rfl⟩, fun _ _ => rfl,
    fun _ => id, fun _ => id, ?_, ?_⟩
  · intro candidate member
    exact (mem_eraseCandidate.mp member).1
  · intro candidate member unflagged
    refine mem_eraseCandidate.mpr ⟨member, ?_⟩
    rintro rfl
    exact Bool.noConfusion (failed.symm.trans unflagged)

/-- A branch that does not get to the first entry keeps its flags. -/
theorem Flagged.clear {first : Branch} (flagged : Flagged first state state')
    (outside : ¬ first <:+ pindex) (clear : Clear state pindex) :
    Clear state' pindex := by
  intro ancestor within nonempty
  rw [flagged.outside ancestor fun suffix => outside (suffix.trans within)]
  exact clear ancestor within nonempty

theorem Flagged.caused {first : Branch}
    (flagged : Flagged first state state') (caused : Caused state)
    (cause : ∃ ancestor, ancestor <:+ first ∧ ancestor ≠ [] ∧
      (state'.entry ancestor).failedValid = true) : Caused state' := by
  intro pindex member marked
  by_cases inside : first <:+ pindex
  · obtain ⟨ancestor, suffix, nonempty, invalid⟩ := cause
    exact ⟨ancestor, suffix.trans inside, nonempty, invalid⟩
  · rw [flagged.same.core.mapBlockIndex] at member
    rw [flagged.outside pindex inside] at marked
    obtain ⟨ancestor, suffix, nonempty, invalid⟩ :=
      caused pindex member marked
    exact ⟨ancestor, suffix, nonempty, flagged.failedValid _ invalid⟩

/-- Nothing on the way to the tip or to the anchor gets a flag. -/
theorem Held.flagged (held : Held genesis anchor state) {first : Branch}
    (flagged : Flagged first state state')
    (chainActive : state'.chainActive = state.chainActive)
    (tip : ¬ first <:+ state.chainActive) (outside : ¬ first <:+ anchor)
    (cause : ∃ ancestor, ancestor <:+ first ∧ ancestor ≠ [] ∧
      (state'.entry ancestor).failedValid = true) :
    Held genesis anchor state' := by
  have same := flagged.same
  have linked := Linked.congr same.core
  have rank := same.core.rank
  have index := same.core.mapBlockIndex
  refine ⟨held.base.same same, flagged.caused held.caused cause, ?_,
    ⟨?_, ?_⟩, ?_, ?_, flagged.clear outside held.clear, ?_⟩
  · rw [chainActive]
    exact held.active.same same (flagged.clear tip held.active.clear)
  · intro candidate member
    rw [index, linked, rank, rank, chainActive]
    exact held.candidates.good candidate (flagged.fewer candidate member)
  · intro pindex member isLinked unflagged atLeast
    rw [index] at member
    rw [linked] at isLinked
    rw [rank, rank] at atLeast
    exact flagged.kept pindex (held.candidates.complete pindex member isLinked
      (flagged.more pindex unflagged) atLeast) unflagged
  · rw [index]
    exact held.member
  · rw [linked]
    exact held.linked
  · rw [rank, rank, chainActive]
    exact held.behind

/-- The tip goes back. -/
theorem Held.lower (held : Held genesis anchor state) {fork : Branch}
    (suffix : fork <:+ state.chainActive) (nonempty : fork ≠ []) :
    Held genesis anchor { state with chainActive := fork } := by
  have base := held.base
  have less := base.tree.rank_le held.active.member suffix nonempty
  refine ⟨⟨base.tree.same ⟨rfl, fun _ => rfl⟩,
    base.data.same ⟨rfl, rfl, fun _ => rfl⟩,
    base.levels.congr rfl (fun _ => rfl) fun _ => rfl⟩, held.caused, ?_,
    ⟨?_, held.candidates.complete⟩, held.member, held.linked, held.clear,
    less.trans held.behind⟩
  · obtain ⟨member, linked, clear, scripts⟩ :=
      held.active.suffix base.tree base.data suffix nonempty
    exact ⟨member, linked, clear, scripts⟩
  · intro candidate member
    obtain ⟨indexed, linked, atLeast⟩ := held.candidates.good candidate member
    exact ⟨indexed, linked, less.trans atLeast⟩

end PrivateDatagram.Chainstate.BlockIndexFlags
