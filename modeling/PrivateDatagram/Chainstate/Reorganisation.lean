import PrivateDatagram.Chainstate.ActiveChain

/-!
# The depth of a reorganisation

Between two arrivals the tip is the best of all entries that no failed block
stands in the way of.  From that it follows what an arrival can do: nothing,
or a switch to the new entry, or an attempt at it that ends with a block that
does not connect and the way back.

The header check bounds how far the new block is below the tip, not how far
its fork point is.  A branch that keeps up with the active chain can therefore
fork from it further down than the limit.
-/

namespace PrivateDatagram.Chainstate.Reorganisation

open Wire.Serialize Library.ForkPoint ActiveChain

/-! ## The order of the candidates -/

def Worse (pa pb : Branch) : Prop := workComparator pa pb = true

theorem worse_iff (pa pb : Branch) :
    Worse pa pb ↔ (nChainWork pa).toNat < (nChainWork pb).toNat ∨
      ((nChainWork pa).toNat = (nChainWork pb).toNat ∧
        nSequenceId pb < nSequenceId pa) := by
  unfold Worse workComparator
  split_ifs with more less
  · rw [gt_iff_lt, BitVec.lt_def] at more
    simp only [false_iff]
    omega
  · rw [BitVec.lt_def] at less
    simp only [true_iff]
    exact Or.inl less
  · rw [gt_iff_lt, BitVec.lt_def] at more
    rw [BitVec.lt_def] at less
    rw [decide_eq_true_iff]
    omega

theorem Worse.trans {first second third : Branch}
    (one : Worse first second) (two : Worse second third) :
    Worse first third := by
  rw [worse_iff] at *
  omega

theorem Worse.asymm {first second : Branch} (one : Worse first second) :
    ¬ Worse second first := by
  rw [worse_iff] at *
  omega

theorem worse_irrefl (pindex : Branch) : ¬ Worse pindex pindex := by
  rw [worse_iff]
  omega

/-- No better than another entry. -/
def AtMost (pindex best : Branch) : Prop := pindex = best ∨ Worse pindex best

theorem AtMost.not_worse {pindex best : Branch}
    (atMost : AtMost pindex best) : ¬ Worse best pindex := by
  rcases atMost with rfl | worse
  · exact worse_irrefl _
  · exact worse.asymm

theorem AtMost.trans_worse {pindex best better : Branch}
    (atMost : AtMost pindex best) (worse : Worse best better) :
    Worse pindex better := by
  rcases atMost with rfl | below
  · exact worse
  · exact below.trans worse

theorem AtMost.work_le {pindex best : Branch} (atMost : AtMost pindex best) :
    ¬ nChainWork pindex > nChainWork best := by
  have notWorse := atMost.not_worse
  rw [worse_iff] at notWorse
  rw [gt_iff_lt, BitVec.lt_def]
  omega

theorem bestCandidate_mem {candidates : List Branch} {best : Branch}
    (found : bestCandidate candidates = some best) : best ∈ candidates := by
  induction candidates generalizing best with
  | nil => cases found
  | cons pindex rest ih =>
      rw [bestCandidate] at found
      cases later : bestCandidate rest with
      | none =>
          rw [later] at found
          cases found
          exact List.mem_cons_self
      | some other =>
          rw [later] at found
          dsimp only at found
          split_ifs at found
          · cases found
            exact List.mem_cons_self
          · cases found
            exact List.mem_cons_of_mem _ (ih later)

/-- A candidate that no other beats is the one at the end of the set. -/
theorem bestCandidate_eq {candidates : List Branch} {best : Branch}
    (member : best ∈ candidates)
    (beats : ∀ candidate ∈ candidates, AtMost candidate best) :
    bestCandidate candidates = some best := by
  induction candidates with
  | nil => cases member
  | cons pindex rest ih =>
      have firstAtMost := beats pindex List.mem_cons_self
      have restAtMost := fun candidate (inRest : candidate ∈ rest) =>
        beats candidate (List.mem_cons_of_mem _ inRest)
      rw [bestCandidate]
      by_cases inRest : best ∈ rest
      · rw [ih inRest restAtMost]
        exact if_neg firstAtMost.not_worse
      · have isFirst : best = pindex :=
          (List.mem_cons.mp member).resolve_right inRest
        subst isFirst
        cases later : bestCandidate rest with
        | none => rfl
        | some other =>
            have otherIn := bestCandidate_mem later
            rcases restAtMost other otherIn with rfl | worse
            · exact absurd otherIn inRest
            · exact if_pos worse

/-! ## Failed entries on the way -/

theorem failedAncestor_some {chainActive : Branch} {failed : List Branch}
    {pindex found : Branch}
    (stopped : failedAncestor chainActive failed pindex = some found) :
    found ∈ failed ∧ found <:+ pindex ∧ found ≠ [] := by
  induction pindex with
  | nil => cases stopped
  | cons newest older ih =>
      rw [failedAncestor] at stopped
      split_ifs at stopped with onChain isFailed
      · cases stopped
        exact ⟨isFailed, List.suffix_rfl, List.cons_ne_nil _ _⟩
      · rcases ih stopped with ⟨member, within, nonempty⟩
        exact ⟨member, within.trans (List.suffix_cons _ _), nonempty⟩

theorem failedAncestor_none {chainActive : Branch} {failed : List Branch}
    {pindex part : Branch}
    (passed : failedAncestor chainActive failed pindex = none)
    (within : part <:+ pindex) (nonempty : part ≠ []) :
    part <:+ chainActive ∨ part ∉ failed := by
  induction pindex with
  | nil => exact absurd (List.suffix_nil.mp within) nonempty
  | cons newest older ih =>
      rw [failedAncestor] at passed
      split_ifs at passed with onChain isFailed
      · exact Or.inl (within.trans onChain)
      · rcases List.suffix_cons_iff.mp within with rfl | inside
        · exact Or.inr isFailed
        · exact ih passed inside

theorem failedAncestor_eq_none (chainActive : Branch) {failed : List Branch}
    {pindex : Branch}
    (clear : ∀ part, part <:+ pindex → part ≠ [] → part ∉ failed) :
    failedAncestor chainActive failed pindex = none := by
  cases stopped : failedAncestor chainActive failed pindex with
  | none => rfl
  | some found =>
      rcases failedAncestor_some stopped with ⟨member, within, nonempty⟩
      exact absurd member (clear found within nonempty)

/-! ## On the way to an entry -/

/-- The best candidate is an entry whose blocks all connect. -/
structure Towards (params : ChainParams) (target : Branch)
    (state : ChainState) : Prop where
  member : target ∈ state.setBlockIndexCandidates
  best : ∀ candidate ∈ state.setBlockIndexCandidates,
    AtMost candidate target
  way : ∀ part, part <:+ target → part ≠ [] →
    params.connects part = true ∧ part ∉ state.failed ∧ AtMost part target

theorem findMostWorkChain_towards {params : ChainParams} {target : Branch}
    {state : ChainState} (towards : Towards params target state)
    (rounds : Nat) :
    findMostWorkChain (rounds + 1) state = (some target, state) := by
  have clear := failedAncestor_eq_none state.chainActive
    fun part within nonempty => (towards.way part within nonempty).2.1
  rw [findMostWorkChain, bestCandidate_eq towards.member towards.best]
  dsimp only
  rw [clear]

/-- The parts of a state that activation does not touch. -/
def SameIndex (state state' : ChainState) : Prop :=
  state'.mapBlockIndex = state.mapBlockIndex ∧
    state'.nBlockSequenceId = state.nBlockSequenceId

theorem mem_prune {state : ChainState} {candidate : Branch} :
    candidate ∈ (pruneBlockIndexCandidates state).setBlockIndexCandidates ↔
      candidate ∈ state.setBlockIndexCandidates ∧
        ¬ Worse candidate state.chainActive := by
  rw [pruneBlockIndexCandidates, List.mem_filter, Worse]
  simp

/-- Connecting blocks of the target ends at one of them. -/
theorem connectBlocks_towards {params : ChainParams} {target : Branch}
    {pindexOldTip : Branch} {path : List Branch} {state : ChainState}
    (towards : Towards params target state) (nonempty : path ≠ [])
    (within : ∀ part ∈ path, part <:+ target ∧ part ≠ []) :
    (connectBlocks params pindexOldTip path state).chainActive ∈ path ∧
      Towards params target (connectBlocks params pindexOldTip path state) ∧
      (connectBlocks params pindexOldTip path state).failed = state.failed ∧
      SameIndex state (connectBlocks params pindexOldTip path state) := by
  induction path generalizing state with
  | nil => exact absurd rfl nonempty
  | cons part rest ih =>
      rcases within part List.mem_cons_self with ⟨onTarget, partNonempty⟩
      rcases towards.way part onTarget partNonempty with
        ⟨connects, _, atMost⟩
      have pruned : Towards params target (pruneBlockIndexCandidates
          { state with chainActive := part }) := by
        refine ⟨?_, ?_, towards.way⟩
        · exact mem_prune.mpr ⟨towards.member, atMost.not_worse⟩
        · intro candidate member
          exact towards.best candidate (mem_prune.mp member).1
      rw [connectBlocks, if_pos connects]
      dsimp only
      split_ifs with more
      · exact ⟨List.mem_cons_self, pruned, rfl, rfl, rfl⟩
      · cases rest with
        | nil => exact ⟨List.mem_cons_self, pruned, rfl, rfl, rfl⟩
        | cons next rest =>
            have later := ih pruned (List.cons_ne_nil _ _) fun other member =>
              within other (List.mem_cons_of_mem _ member)
            exact ⟨List.mem_cons_of_mem _ later.1, later.2⟩

theorem findFork_eq (chainActive pindex : Branch) :
    findFork chainActive pindex = forkPoint chainActive pindex :=
  forkPoint_drop chainActive pindex

/-- One step towards an entry. -/
theorem step_towards {params : ChainParams} {target : Branch}
    {state : ChainState} (towards : Towards params target state) :
    ∃ state', activateBestChainStep params target state =
        (state.chainActive.length -
          (forkPoint state.chainActive target).length, state') ∧
      state'.chainActive <:+ target ∧
      (state'.chainActive = target ∨
        (forkPoint state.chainActive target).length <
          state'.chainActive.length) ∧
      Towards params target state' ∧ state'.failed = state.failed ∧
      SameIndex state state' := by
  have moved : Towards params target
      { state with chainActive := forkPoint state.chainActive target } :=
    ⟨towards.member, towards.best, towards.way⟩
  rw [activateBestChainStep, findFork_eq]
  by_cases nothing :
      above (forkPoint state.chainActive target).length target = []
  · -- The target is behind the tip.
    have within := forkPoint_suffix_branch state.chainActive target
    have counted := length_above
      (forkPoint state.chainActive target).length target
    rw [nothing, List.length_nil] at counted
    have whole := within.eq_of_length
      (Nat.le_antisymm within.length_le (by omega))
    rw [nothing]
    exact ⟨_, rfl, within, Or.inl whole, moved, rfl, rfl, rfl⟩
  · have ways : ∀ part ∈
        above (forkPoint state.chainActive target).length target,
        part <:+ target ∧ part ≠ [] := by
      intro part member
      rcases mem_above.mp member with ⟨within, long⟩
      refine ⟨within, ?_⟩
      rintro rfl
      cases long
    rcases connectBlocks_towards moved nothing ways with
      ⟨reached, kept, sameFailed, sameIndex⟩
    rcases mem_above.mp reached with ⟨within, long⟩
    exact ⟨_, rfl, within, Or.inr long, kept, sameFailed, sameIndex⟩

/-- The tip is the best candidate: there is nothing to do. -/
theorem activate_nothing {params : ChainParams} {rounds : Nat}
    {state state' : ChainState} {target : Branch}
    (best : findMostWorkChain (state.setBlockIndexCandidates.length + 1)
      state = (some target, state'))
    (arrived : target = state'.chainActive) :
    activateBestChain params (rounds + 1) state = some ([], state') := by
  rw [activateBestChain, best]
  exact if_pos arrived

/-- One round, where the best candidate is not the tip. -/
theorem activate_round {params : ChainParams} {rounds count : Nat}
    {state state' state'' : ChainState} {target : Branch}
    (best : findMostWorkChain (state.setBlockIndexCandidates.length + 1)
      state = (some target, state'))
    (elsewhere : target ≠ state'.chainActive)
    (stepped : activateBestChainStep params target state' =
      (count, state'')) :
    activateBestChain params (rounds + 1) state =
      if target = state''.chainActive then
        some ([count], state'')
      else
        (activateBestChain params rounds state'').map
          fun (later, state) => (count :: later, state) := by
  rw [activateBestChain, best]
  dsimp only
  rw [if_neg elsewhere, stepped]

/-- From a block of the target on, activation only connects. -/
theorem activate_upwards {params : ChainParams} {target : Branch}
    {rounds : Nat} {state : ChainState}
    (towards : Towards params target state)
    (onTarget : state.chainActive <:+ target) (rest : 0 < rounds)
    (enough : target.length - state.chainActive.length ≤ rounds) :
    ∃ disconnected state',
      activateBestChain params rounds state = some (disconnected, state') ∧
      (∀ count ∈ disconnected, count = 0) ∧ state'.chainActive = target ∧
      Towards params target state' ∧ state'.failed = state.failed ∧
      SameIndex state state' := by
  induction rounds generalizing state with
  | zero => cases rest
  | succ rounds ih =>
      have best := findMostWorkChain_towards towards
        state.setBlockIndexCandidates.length
      by_cases arrived : target = state.chainActive
      · exact ⟨[], state, activate_nothing best arrived, by simp,
          arrived.symm, towards, rfl, rfl, rfl⟩
      · rcases step_towards towards with
          ⟨state', stepped, within, progress, kept, sameFailed, sameIndex⟩
        have fork : forkPoint state.chainActive target = state.chainActive := by
          rw [forkPoint_comm, forkPoint_of_suffix onTarget]
        rw [fork, Nat.sub_self] at stepped
        rw [fork] at progress
        rw [activate_round best arrived stepped]
        by_cases reached : target = state'.chainActive
        · rw [if_pos reached]
          exact ⟨[0], state', rfl, by simp, reached.symm, kept, sameFailed,
            sameIndex⟩
        · have longer := progress.resolve_left (Ne.symm reached)
          have shorter : state'.chainActive.length < target.length := by
            refine lt_of_le_of_ne within.length_le ?_
            intro same
            exact reached (within.eq_of_length same).symm
          rcases ih kept within (by omega) (by omega) with
            ⟨disconnected, last, ran, zeros, arrives, lastKept, lastFailed,
              lastIndex⟩
          rw [if_neg reached, ran]
          refine ⟨0 :: disconnected, last, rfl, ?_, arrives, lastKept,
            lastFailed.trans sameFailed, lastIndex.1.trans sameIndex.1,
            lastIndex.2.trans sameIndex.2⟩
          intro count member
          rcases List.mem_cons.mp member with rfl | later
          · rfl
          · exact zeros count later

/-- From anywhere, only the first step disconnects. -/
theorem activate_back {params : ChainParams} {target : Branch}
    {rounds : Nat} {state state' : ChainState}
    (best : findMostWorkChain (state.setBlockIndexCandidates.length + 1)
      state = (some target, state'))
    (towards : Towards params target state') (real : target ≠ [])
    (enough : target.length ≤ rounds) :
    ∃ disconnected last,
      activateBestChain params rounds state = some (disconnected, last) ∧
      (∀ count ∈ disconnected, count ≤ state'.chainActive.length -
        (forkPoint state'.chainActive target).length) ∧
      last.chainActive = target ∧ Towards params target last ∧
      last.failed = state'.failed ∧ SameIndex state' last := by
  have positive : 0 < target.length := List.length_pos_iff.mpr real
  cases rounds with
  | zero => omega
  | succ rounds =>
      by_cases arrived : target = state'.chainActive
      · exact ⟨[], state', activate_nothing best arrived, by simp,
          arrived.symm, towards, rfl, rfl, rfl⟩
      · rcases step_towards towards with
          ⟨next, stepped, within, progress, kept, sameFailed, sameIndex⟩
        rw [activate_round best arrived stepped]
        by_cases reached : target = next.chainActive
        · rw [if_pos reached]
          exact ⟨_, next, rfl, by simp, reached.symm, kept, sameFailed,
            sameIndex⟩
        · have longer := progress.resolve_left (Ne.symm reached)
          have shorter : next.chainActive.length < target.length := by
            refine lt_of_le_of_ne within.length_le ?_
            intro same
            exact reached (within.eq_of_length same).symm
          have left : 0 < rounds := by omega
          rcases activate_upwards kept within left (by omega) with
            ⟨disconnected, last, ran, zeros, arrives, lastKept, lastFailed,
              lastIndex⟩
          rw [if_neg reached, ran]
          refine ⟨_, last, rfl, ?_, arrives, lastKept,
            lastFailed.trans sameFailed, lastIndex.1.trans sameIndex.1,
            lastIndex.2.trans sameIndex.2⟩
          intro count member
          rcases List.mem_cons.mp member with rfl | later
          · exact Nat.le_refl _
          · rw [zeros count later]
            exact Nat.zero_le _

/-! ## A better entry that cannot be reached -/

/--
A tip and perhaps one better candidate.  What is known of the state while the
better one is out of reach.
-/
structure Hopeless (params : ChainParams) (target better : Branch)
    (state : ChainState) : Prop where
  member : target ∈ state.setBlockIndexCandidates
  best : ∀ candidate ∈ state.setBlockIndexCandidates,
    candidate = better ∨ AtMost candidate target
  beaten : Worse target better
  way : ∀ part, part <:+ target → part ≠ [] →
    params.connects part = true ∧ part ∉ state.failed ∧ AtMost part target
  blocked : better ∈ state.setBlockIndexCandidates →
    (failedAncestor state.chainActive state.failed better).isSome = true

theorem mem_removeChain {pindexNew pindexTest candidate : Branch}
    {state : ChainState} :
    candidate ∈
        (removeChain pindexNew pindexTest state).setBlockIndexCandidates ↔
      candidate ∈ state.setBlockIndexCandidates ∧
        candidate ∉ above pindexTest.length pindexNew ∧
          candidate ≠ pindexTest := by
  rw [removeChain, List.mem_filter, decide_eq_true_iff]

section Hopeless

variable {params : ChainParams} {target better cause : Branch}
  {state : ChainState}

/-- No block of the target descends from the cause of the failure. -/
theorem Hopeless.apart (hopeless : Hopeless params target better state)
    (isFailed : cause ∈ state.failed) (within : cause <:+ better)
    (nonempty : cause ≠ []) {part : Branch} (onTarget : part <:+ target) :
    part ∉ above cause.length better ∧ part ≠ cause := by
  have notBehind : ¬ cause <:+ part := by
    intro behind
    exact (hopeless.way cause (behind.trans onTarget) nonempty).2.1 isFailed
  constructor
  · intro inside
    rcases mem_above.mp inside with ⟨onBetter, longer⟩
    exact notBehind (List.suffix_of_suffix_length_le within onBetter
      (Nat.le_of_lt longer))
  · rintro rfl
    exact notBehind List.suffix_rfl

theorem Hopeless.removed (hopeless : Hopeless params target better state)
    (isFailed : cause ∈ state.failed) (within : cause <:+ better)
    (nonempty : cause ≠ []) :
    Towards params target (removeChain better cause state) := by
  refine ⟨?_, ?_, ?_⟩
  · exact mem_removeChain.mpr ⟨hopeless.member,
      hopeless.apart isFailed within nonempty List.suffix_rfl⟩
  · intro candidate inSet
    rcases mem_removeChain.mp inSet with ⟨wasThere, notAbove, notCause⟩
    refine (hopeless.best candidate wasThere).resolve_left ?_
    rintro rfl
    rcases Nat.lt_or_ge cause.length candidate.length with longer | same
    · exact notAbove (mem_above.mpr ⟨List.suffix_rfl, longer⟩)
    · exact notCause (within.eq_of_length
        (Nat.le_antisymm within.length_le same)).symm
  · intro part onTarget real
    rcases hopeless.way part onTarget real with
      ⟨connects, notFailed, atMost⟩
    refine ⟨connects, ?_, atMost⟩
    intro marked
    rcases List.mem_append.mp marked with inside | old
    · exact (hopeless.apart isFailed within nonempty onTarget).1 inside
    · exact notFailed old

/-- Without the better entry the target is the best. -/
theorem Hopeless.towards (hopeless : Hopeless params target better state)
    (gone : better ∉ state.setBlockIndexCandidates) :
    Towards params target state := by
  refine ⟨hopeless.member, ?_, hopeless.way⟩
  intro candidate inSet
  refine (hopeless.best candidate inSet).resolve_left ?_
  rintro rfl
  exact gone inSet

/-- `FindMostWorkChain` drops the better entry and returns the tip. -/
theorem findMostWorkChain_hopeless
    (hopeless : Hopeless params target better state) :
    ∃ state', findMostWorkChain
        (state.setBlockIndexCandidates.length + 1) state =
          (some target, state') ∧
      Towards params target state' ∧
      state'.chainActive = state.chainActive ∧ SameIndex state state' ∧
      (∀ part ∈ state.failed, part ∈ state'.failed) ∧
      ([] ∉ state.failed → [] ∉ state'.failed) := by
  by_cases member : better ∈ state.setBlockIndexCandidates
  · rcases Option.isSome_iff_exists.mp (hopeless.blocked member) with
      ⟨cause, stopped⟩
    rcases failedAncestor_some stopped with ⟨isFailed, within, nonempty⟩
    have beats : ∀ candidate ∈ state.setBlockIndexCandidates,
        AtMost candidate better := by
      intro candidate inSet
      rcases hopeless.best candidate inSet with rfl | atMost
      · exact Or.inl rfl
      · exact Or.inr (atMost.trans_worse hopeless.beaten)
    have towards := hopeless.removed isFailed within nonempty
    have two : ∃ rounds, state.setBlockIndexCandidates.length = rounds + 1 :=
      Nat.exists_eq_succ_of_ne_zero
        (Nat.pos_iff_ne_zero.mp (List.length_pos_of_mem member))
    rcases two with ⟨rounds, counted⟩
    refine ⟨removeChain better cause state, ?_, towards, rfl, ⟨rfl, rfl⟩, ?_,
      ?_⟩
    · rw [findMostWorkChain, bestCandidate_eq member beats]
      dsimp only
      rw [stopped, counted]
      exact findMostWorkChain_towards towards rounds
    · intro part old
      exact List.mem_append_right _ old
    · intro notEmpty marked
      rcases List.mem_append.mp marked with inside | old
      · cases (mem_above.mp inside).2
      · exact notEmpty old
  · have towards := hopeless.towards member
    exact ⟨state, findMostWorkChain_towards towards _, towards, rfl,
      ⟨rfl, rfl⟩, fun _ => id, id⟩

end Hopeless

/-! ## Connecting the new entry -/

/-- A block that connects, with no more work than the old tip, is one step. -/
theorem connectBlocks_cons {params : ChainParams} {pindexOldTip part : Branch}
    (rest : List Branch) (state : ChainState)
    (connects : params.connects part = true)
    (less : ¬ nChainWork part > nChainWork pindexOldTip) :
    connectBlocks params pindexOldTip (part :: rest) state =
      connectBlocks params pindexOldTip rest
        (pruneBlockIndexCandidates { state with chainActive := part }) := by
  rw [connectBlocks, if_pos connects]
  exact if_neg less

/-- All blocks connect, and only the last has more work than the old tip. -/
theorem connectBlocks_all {params : ChainParams} {pindexOldTip last : Branch}
    {before : List Branch} (state : ChainState)
    (connects : ∀ part ∈ before ++ [last], params.connects part = true)
    (less : ∀ part ∈ before, ¬ nChainWork part > nChainWork pindexOldTip) :
    (connectBlocks params pindexOldTip (before ++ [last])
        state).chainActive = last ∧
      (connectBlocks params pindexOldTip (before ++ [last])
        state).failed = state.failed ∧
      SameIndex state
        (connectBlocks params pindexOldTip (before ++ [last]) state) ∧
      ∀ candidate, candidate ∈ (connectBlocks params pindexOldTip
          (before ++ [last]) state).setBlockIndexCandidates ↔
        candidate ∈ state.setBlockIndexCandidates ∧
          ∀ part ∈ before ++ [last], ¬ Worse candidate part := by
  induction before generalizing state with
  | nil =>
      have ends : connectBlocks params pindexOldTip [last] state =
          pruneBlockIndexCandidates { state with chainActive := last } := by
        rw [connectBlocks, if_pos (connects last (by simp))]
        dsimp only
        split_ifs <;> rfl
      rw [List.nil_append, ends]
      refine ⟨rfl, rfl, ⟨rfl, rfl⟩, ?_⟩
      intro candidate
      rw [mem_prune]
      simp
  | cons part rest ih =>
      rw [List.cons_append, connectBlocks_cons _ _
        (connects part List.mem_cons_self) (less part List.mem_cons_self)]
      have later := ih (pruneBlockIndexCandidates
        { state with chainActive := part })
        (fun other member => connects other (List.mem_cons_of_mem _ member))
        (fun other member => less other (List.mem_cons_of_mem _ member))
      refine ⟨later.1, later.2.1, later.2.2.1, ?_⟩
      intro candidate
      rw [later.2.2.2, mem_prune, List.forall_mem_cons, and_assoc]

/-- The first block that does not connect ends the attempt. -/
theorem connectBlocks_fails {params : ChainParams}
    {pindexOldTip wrong : Branch} {before after : List Branch}
    (state : ChainState)
    (connects : ∀ part ∈ before, params.connects part = true)
    (less : ∀ part ∈ before, ¬ nChainWork part > nChainWork pindexOldTip)
    (fails : params.connects wrong = false) :
    (connectBlocks params pindexOldTip (before ++ wrong :: after)
        state).chainActive = before.getLastD state.chainActive ∧
      (connectBlocks params pindexOldTip (before ++ wrong :: after)
        state).failed = wrong :: state.failed ∧
      SameIndex state (connectBlocks params pindexOldTip
        (before ++ wrong :: after) state) ∧
      ∀ candidate, candidate ∈ (connectBlocks params pindexOldTip
          (before ++ wrong :: after) state).setBlockIndexCandidates ↔
        candidate ∈ state.setBlockIndexCandidates ∧ candidate ≠ wrong ∧
          ∀ part ∈ before, ¬ Worse candidate part := by
  induction before generalizing state with
  | nil =>
      rw [List.nil_append, connectBlocks, if_neg (by simp [fails])]
      refine ⟨rfl, rfl, ⟨rfl, rfl⟩, ?_⟩
      intro candidate
      rw [List.mem_filter, decide_eq_true_iff]
      simp
  | cons part rest ih =>
      rw [List.cons_append, connectBlocks_cons _ _
        (connects part List.mem_cons_self) (less part List.mem_cons_self)]
      have later := ih (pruneBlockIndexCandidates
        { state with chainActive := part })
        (fun other member => connects other (List.mem_cons_of_mem _ member))
        (fun other member => less other (List.mem_cons_of_mem _ member))
      refine ⟨?_, later.2.1, later.2.2.1, ?_⟩
      · rw [later.1, List.getLastD_cons]
        rfl
      · intro candidate
        rw [later.2.2.2, mem_prune, List.forall_mem_cons]
        tauto

/-! ## Between two arrivals -/

/-- No failed block stands in the way of an entry. -/
def Clear (state : ChainState) (pindex : Branch) : Prop :=
  ∀ part, part <:+ pindex → part ∉ state.failed

/-- What holds after each activation. -/
structure Settled (params : ChainParams) (state : ChainState) : Prop where
  tip : state.chainActive ∈ state.mapBlockIndex
  nonempty : [] ∉ state.mapBlockIndex
  entries : ∀ pindex ∈ state.mapBlockIndex, ∀ part, part <:+ pindex →
    part ≠ [] → part ∈ state.mapBlockIndex
  ids : ∀ pindex ∈ state.mapBlockIndex,
    nSequenceId pindex < state.nBlockSequenceId
  best : ∀ pindex ∈ state.mapBlockIndex, Clear state pindex →
    AtMost pindex state.chainActive
  real : [] ∉ state.failed
  towards : Towards params state.chainActive state

/-- An entry that is new to a settled state. -/
structure Arrives (params : ChainParams) (state : ChainState)
    (pindexNew : Branch) : Prop where
  settled : Settled params state
  entry : ∃ newest pindexPrev, pindexNew = newest :: pindexPrev ∧
    pindexPrev ∈ state.mapBlockIndex ∧
    newest.nSequenceId = state.nBlockSequenceId

section Arrival

variable {params : ChainParams} {state last : ChainState}
variable {pindexNew : Branch}

theorem Arrives.nonempty (arrives : Arrives params state pindexNew) :
    pindexNew ≠ [] := by
  rcases arrives.entry with ⟨newest, pindexPrev, rfl, _⟩
  exact List.cons_ne_nil _ _

/-- The other blocks of a new entry are known. -/
theorem Arrives.known (arrives : Arrives params state pindexNew)
    {part : Branch} (within : part <:+ pindexNew) (real : part ≠ []) :
    part = pindexNew ∨ part ∈ state.mapBlockIndex := by
  rcases arrives.entry with ⟨newest, pindexPrev, rfl, prevKnown, _⟩
  rcases List.suffix_cons_iff.mp within with whole | inside
  · exact Or.inl whole
  · exact Or.inr (arrives.settled.entries pindexPrev prevKnown part inside real)

theorem Arrives.tip_nonempty (arrives : Arrives params state pindexNew) :
    state.chainActive ≠ [] := by
  intro empty
  have known := arrives.settled.tip
  rw [empty] at known
  exact arrives.settled.nonempty known

/-- A new entry that is not worse than the tip has more work. -/
theorem Arrives.beats (arrives : Arrives params state pindexNew)
    (notWorse : ¬ Worse pindexNew state.chainActive) :
    Worse state.chainActive pindexNew := by
  have older := arrives.settled.ids _ arrives.settled.tip
  rcases arrives.entry with ⟨newest, pindexPrev, rfl, _, id⟩
  have newId : nSequenceId (newest :: pindexPrev) =
      state.nBlockSequenceId := id
  rw [worse_iff] at notWorse ⊢
  omega

/-- The new entry is in the index and activation has come to an end. -/
theorem Arrives.settles (arrives : Arrives params state pindexNew)
    (index : last.mapBlockIndex = pindexNew :: state.mapBlockIndex)
    (ids : last.nBlockSequenceId = state.nBlockSequenceId + 1)
    (tip : last.chainActive ∈ last.mapBlockIndex)
    (failed : ∀ part ∈ state.failed, part ∈ last.failed)
    (real : [] ∉ last.failed)
    (older : AtMost state.chainActive last.chainActive)
    (newest : Clear last pindexNew → AtMost pindexNew last.chainActive)
    (towards : Towards params last.chainActive last) :
    Settled params last := by
  refine ⟨tip, ?_, ?_, ?_, ?_, real, towards⟩
  · rw [index]
    intro member
    rcases List.mem_cons.mp member with isNew | old
    · exact arrives.nonempty isNew.symm
    · exact arrives.settled.nonempty old
  · rw [index]
    intro pindex member part within partReal
    rcases List.mem_cons.mp member with rfl | old
    · rcases arrives.known within partReal with rfl | known
      · exact List.mem_cons_self
      · exact List.mem_cons_of_mem _ known
    · exact List.mem_cons_of_mem _
        (arrives.settled.entries pindex old part within partReal)
  · rw [index, ids]
    intro pindex member
    rcases List.mem_cons.mp member with rfl | old
    · rcases arrives.entry with ⟨block, pindexPrev, rfl, _, id⟩
      have newId : nSequenceId (block :: pindexPrev) =
          state.nBlockSequenceId := id
      omega
    · exact Nat.lt_succ_of_lt (arrives.settled.ids pindex old)
  · rw [index]
    intro pindex member clear
    rcases List.mem_cons.mp member with rfl | old
    · exact newest clear
    · have wasClear : Clear state pindex := fun part within isFailed =>
        clear part within (failed part isFailed)
      rcases arrives.settled.best pindex old wasClear with rfl | worse
      · exact older
      · rcases older with same | better
        · rw [← same]
          exact Or.inr worse
        · exact Or.inr (worse.trans better)

/-- The way from the active chain to a new entry. -/
def pathTo (state : ChainState) (pindexNew : Branch) : List Branch :=
  above (findFork state.chainActive pindexNew).length pindexNew

/-- What the steps of an activation may disconnect, by the path they try. -/
def CountsWithin (params : ChainParams) (state : ChainState)
    (pindexNew : Branch) (disconnected : List Nat) : Prop :=
  ∀ count ∈ disconnected,
    count ≤ state.chainActive.length -
        (findFork state.chainActive pindexNew).length ∨
      ((∃ part ∈ pathTo state pindexNew, params.connects part = false) ∧
        count ≤
          ((pathTo state pindexNew).takeWhile params.connects).length)

/-- What an arrival comes to. -/
def Outcome (params : ChainParams) (state : ChainState)
    (pindexNew : Branch) : Prop :=
  ∃ disconnected last,
    activateBestChain params (state.chainActive.length + 1)
      (addToBlockIndex pindexNew state) = some (disconnected, last) ∧
    Settled params last ∧ CountsWithin params state pindexNew disconnected

/-- A worse entry changes nothing but the index. -/
theorem Arrives.worse (arrives : Arrives params state pindexNew)
    (worse : Worse pindexNew state.chainActive) :
    ∃ last, activateBestChain params (state.chainActive.length + 1)
        (addToBlockIndex pindexNew state) = some ([], last) ∧
      Settled params last := by
  have same : (addToBlockIndex pindexNew state).setBlockIndexCandidates =
      state.setBlockIndexCandidates := if_pos worse
  have towards : Towards params state.chainActive
      (addToBlockIndex pindexNew state) := by
    refine ⟨?_, ?_, arrives.settled.towards.way⟩
    · rw [same]
      exact arrives.settled.towards.member
    · rw [same]
      exact arrives.settled.towards.best
  refine ⟨_, activate_nothing (findMostWorkChain_towards towards _) rfl, ?_⟩
  exact arrives.settles rfl rfl
    (List.mem_cons_of_mem _ arrives.settled.tip) (fun _ => id)
    arrives.settled.real (Or.inl rfl) (fun _ => Or.inr worse) towards

/-- The candidates after a better entry came in. -/
theorem Arrives.candidates (arrives : Arrives params state pindexNew)
    (notWorse : ¬ Worse pindexNew state.chainActive) :
    (addToBlockIndex pindexNew state).setBlockIndexCandidates =
      pindexNew :: state.setBlockIndexCandidates ∧
    ∀ candidate ∈ pindexNew :: state.setBlockIndexCandidates,
      candidate = pindexNew ∨ AtMost candidate state.chainActive := by
  refine ⟨if_neg notWorse, ?_⟩
  intro candidate member
  rcases List.mem_cons.mp member with isNew | old
  · exact Or.inl isNew
  · exact Or.inr (arrives.settled.towards.best candidate old)

/-- A better entry behind a failed block is dropped. -/
theorem Arrives.blocked (arrives : Arrives params state pindexNew)
    (notWorse : ¬ Worse pindexNew state.chainActive) {cause : Branch}
    (stopped : failedAncestor state.chainActive state.failed pindexNew =
      some cause) :
    Outcome params state pindexNew := by
  rcases arrives.candidates notWorse with ⟨same, beaten⟩
  have hopeless : Hopeless params state.chainActive pindexNew
      (addToBlockIndex pindexNew state) := by
    refine ⟨?_, ?_, arrives.beats notWorse, arrives.settled.towards.way, ?_⟩
    · rw [same]
      exact List.mem_cons_of_mem _ arrives.settled.towards.member
    · rw [same]
      exact beaten
    · intro _
      exact Option.isSome_iff_exists.mpr ⟨cause, stopped⟩
  rcases findMostWorkChain_hopeless hopeless with
    ⟨last, found, towards, sameTip, sameIndex, failed, real⟩
  have tip : last.chainActive = state.chainActive := sameTip
  refine ⟨[], last, activate_nothing found tip.symm, ?_,
    fun count impossible => by cases impossible⟩
  have index : last.mapBlockIndex = pindexNew :: state.mapBlockIndex :=
    sameIndex.1
  refine arrives.settles index sameIndex.2 ?_ failed
    (real arrives.settled.real) (Or.inl tip.symm) ?_ ?_
  · rw [tip, index]
    exact List.mem_cons_of_mem _ arrives.settled.tip
  · intro clear
    rcases failedAncestor_some stopped with ⟨isFailed, within, _⟩
    exact absurd (failed cause isFailed) (clear cause within)
  · rw [tip]
    exact towards

/-- What is known of the way to a better entry that nothing blocks. -/
structure OpenWay (params : ChainParams) (state : ChainState)
    (pindexNew : Branch) : Prop where
  arrives : Arrives params state pindexNew
  notWorse : ¬ Worse pindexNew state.chainActive
  passed : failedAncestor state.chainActive state.failed pindexNew = none

namespace OpenWay

/-- The new entry is not on the active chain. -/
theorem fork_short (way : OpenWay params state pindexNew) :
    (findFork state.chainActive pindexNew).length < pindexNew.length := by
  have within := forkPoint_suffix_branch state.chainActive pindexNew
  rw [findFork_eq]
  refine lt_of_le_of_ne within.length_le ?_
  intro same
  have whole := within.eq_of_length same
  have onChain := forkPoint_suffix_chain state.chainActive pindexNew
  rw [whole] at onChain
  have settled := way.arrives.settled
  have known := settled.entries _ settled.tip pindexNew onChain
    way.arrives.nonempty
  have old := settled.ids pindexNew known
  rcases way.arrives.entry with ⟨newest, pindexPrev, rfl, _, id⟩
  have newId : nSequenceId (newest :: pindexPrev) =
      state.nBlockSequenceId := id
  omega

theorem path_eq (way : OpenWay params state pindexNew) :
    ∃ before, pathTo state pindexNew = before ++ [pindexNew] ∧
      ∀ part ∈ before, part <:+ pindexNew ∧ part ≠ [] ∧
        part ≠ pindexNew := by
  have short := way.fork_short
  unfold pathTo
  rcases way.arrives.entry with ⟨newest, pindexPrev, rfl, _⟩
  rw [List.length_cons] at short
  rw [above, if_neg (Nat.not_le_of_lt short)]
  refine ⟨_, rfl, ?_⟩
  intro part member
  rcases mem_above.mp member with ⟨within, long⟩
  refine ⟨within.trans (List.suffix_cons _ _), ?_, ?_⟩
  · rintro rfl
    cases long
  · rintro rfl
    have bound := within.length_le
    rw [List.length_cons] at bound
    omega

theorem not_failed (way : OpenWay params state pindexNew) {part : Branch}
    (within : part <:+ pindexNew) : part ∉ state.failed := by
  by_cases real : part = []
  · rw [real]
    exact way.arrives.settled.real
  · rcases failedAncestor_none way.passed within real with onChain | clear
    · exact (way.arrives.settled.towards.way part onChain real).2.1
    · exact clear

/-- The blocks before the new one are no better than the tip. -/
theorem atMost (way : OpenWay params state pindexNew) {part : Branch}
    (within : part <:+ pindexNew) (real : part ≠ [])
    (other : part ≠ pindexNew) : AtMost part state.chainActive := by
  have known := (way.arrives.known within real).resolve_left other
  apply way.arrives.settled.best part known
  intro inner inside
  exact way.not_failed (inside.trans within)

/-- `FindMostWorkChain` returns the new entry. -/
theorem found (way : OpenWay params state pindexNew) (rounds : Nat) :
    findMostWorkChain (rounds + 1) (addToBlockIndex pindexNew state) =
      (some pindexNew, addToBlockIndex pindexNew state) := by
  rcases way.arrives.candidates way.notWorse with ⟨same, beaten⟩
  have beats : ∀ candidate ∈ pindexNew :: state.setBlockIndexCandidates,
      AtMost candidate pindexNew := by
    intro candidate member
    rcases beaten candidate member with isNew | atMost
    · exact Or.inl isNew
    · exact Or.inr (atMost.trans_worse (way.arrives.beats way.notWorse))
  rw [findMostWorkChain, same, bestCandidate_eq List.mem_cons_self beats]
  dsimp only
  have passed : failedAncestor (addToBlockIndex pindexNew state).chainActive
      (addToBlockIndex pindexNew state).failed pindexNew = none := way.passed
  rw [passed]

theorem elsewhere (way : OpenWay params state pindexNew) :
    pindexNew ≠ state.chainActive := by
  intro same
  have beats := way.arrives.beats way.notWorse
  rw [same] at beats
  exact worse_irrefl _ beats

/-- The state in which the way up starts. -/
def start (state : ChainState) (pindexNew : Branch) : ChainState :=
  { addToBlockIndex pindexNew state with
    chainActive := findFork state.chainActive pindexNew }

/-- The state after the first step. -/
def attempt (params : ChainParams) (state : ChainState)
    (pindexNew : Branch) : ChainState :=
  connectBlocks params state.chainActive (pathTo state pindexNew)
    (start state pindexNew)

theorem round (way : OpenWay params state pindexNew) :
    activateBestChain params (state.chainActive.length + 1)
        (addToBlockIndex pindexNew state) =
      if pindexNew = (attempt params state pindexNew).chainActive then
        some ([state.chainActive.length -
          (findFork state.chainActive pindexNew).length],
          attempt params state pindexNew)
      else
        (activateBestChain params state.chainActive.length
          (attempt params state pindexNew)).map fun (later, last) =>
            ((state.chainActive.length -
              (findFork state.chainActive pindexNew).length) :: later,
              last) :=
  activate_round (way.found _) way.elsewhere rfl

/-- Up to the fork the blocks are those of the old chain. -/
theorem connects_branch (way : OpenWay params state pindexNew)
    (connects : ∀ part ∈ pathTo state pindexNew,
      params.connects part = true) {part : Branch}
    (within : part <:+ pindexNew) (real : part ≠ []) :
    params.connects part = true := by
  by_cases early :
      (findFork state.chainActive pindexNew).length < part.length
  · exact connects part (mem_above.mpr ⟨within, early⟩)
  · have fork := forkPoint_suffix_branch state.chainActive pindexNew
    rw [findFork_eq] at early
    have below := List.suffix_of_suffix_length_le within fork
      (Nat.le_of_not_lt early)
    exact (way.arrives.settled.towards.way part
      (below.trans (forkPoint_suffix_chain _ _)) real).1

/-- All blocks connect: the new entry becomes the tip. -/
theorem switches (way : OpenWay params state pindexNew)
    (connects : ∀ part ∈ pathTo state pindexNew,
      params.connects part = true) :
    Outcome params state pindexNew := by
  rcases way.path_eq with ⟨before, path, members⟩
  rcases way.arrives.candidates way.notWorse with ⟨same, beaten⟩
  have beats := way.arrives.beats way.notWorse
  have less : ∀ part ∈ before,
      ¬ nChainWork part > nChainWork state.chainActive := by
    intro part member
    rcases members part member with ⟨within, real, other⟩
    exact (way.atMost within real other).work_le
  have result := connectBlocks_all (start state pindexNew)
    (path ▸ connects) less
  rw [← path, ← attempt] at result
  rcases result with ⟨tip, sameFailed, sameIndex, candidates⟩
  have round := way.round
  rw [if_pos tip.symm] at round
  refine ⟨_, _, round, ?_, ?_⟩
  · have towards : Towards params pindexNew
        (attempt params state pindexNew) := by
      refine ⟨?_, ?_, ?_⟩
      · rw [candidates]
        refine ⟨?_, ?_⟩
        · have added : pindexNew ∈
              (addToBlockIndex pindexNew state).setBlockIndexCandidates := by
            rw [same]
            exact List.mem_cons_self
          exact added
        · rw [path]
          intro part member
          rcases List.mem_append.mp member with early | final
          · rcases members part early with ⟨within, real, other⟩
            exact ((way.atMost within real other).trans_worse beats).asymm
          · rw [List.mem_singleton.mp final]
            exact worse_irrefl _
      · intro candidate member
        rcases (candidates candidate).mp member with ⟨wasThere, notWorse⟩
        have old : candidate ∈
            (addToBlockIndex pindexNew state).setBlockIndexCandidates :=
          wasThere
        rw [same] at old
        rcases beaten candidate old with isNew | atMost
        · exact Or.inl isNew
        · exact Or.inr (atMost.trans_worse beats)
      · intro part within real
        refine ⟨way.connects_branch connects within real, ?_, ?_⟩
        · rw [sameFailed]
          exact way.not_failed within
        · by_cases whole : part = pindexNew
          · exact Or.inl whole
          · exact Or.inr ((way.atMost within real whole).trans_worse beats)
    have index := sameIndex.1
    refine way.arrives.settles index sameIndex.2 ?_ ?_ ?_ ?_ ?_ ?_
    · rw [tip, index]
      exact List.mem_cons_self
    · intro part old
      rw [sameFailed]
      exact old
    · rw [sameFailed]
      exact way.arrives.settled.real
    · rw [tip]
      exact Or.inr beats
    · intro _
      rw [tip]
      exact Or.inl rfl
    · rw [tip]
      exact towards
  · intro count member
    rw [List.mem_singleton.mp member]
    exact Or.inl (Nat.le_refl _)

end OpenWay

/-- The way to a better entry, with the first block that does not connect. -/
structure BrokenWay (params : ChainParams) (state : ChainState)
    (pindexNew : Branch) (before : List Branch) (wrong : Branch)
    (after : List Branch) : Prop extends
    OpenWay params state pindexNew where
  path : pathTo state pindexNew = before ++ wrong :: after
  connects : ∀ part ∈ before, params.connects part = true
  fails : params.connects wrong = false

namespace BrokenWay

variable {before after : List Branch} {wrong : Branch}

theorem wrong_length
    (way : BrokenWay params state pindexNew before wrong after) :
    wrong <:+ pindexNew ∧ wrong.length =
      (findFork state.chainActive pindexNew).length + before.length + 1 := by
  have member : wrong ∈ pathTo state pindexNew := by
    rw [way.path]
    exact List.mem_append_right _ List.mem_cons_self
  exact ⟨(mem_above.mp member).1,
    length_of_mem_above (Nat.le_of_lt way.fork_short) way.path⟩

/-- The blocks before the wrong one are shorter branches. -/
theorem earlier (way : BrokenWay params state pindexNew before wrong after)
    {part : Branch} (member : part ∈ before) :
    part <:+ pindexNew ∧ part.length < wrong.length ∧
      (findFork state.chainActive pindexNew).length < part.length := by
  rcases List.append_of_mem member with ⟨front, back, shape⟩
  have split : pathTo state pindexNew =
      front ++ part :: (back ++ wrong :: after) := by
    rw [way.path, shape, List.append_assoc, List.cons_append]
  have onPath : part ∈ pathTo state pindexNew := by
    rw [split]
    exact List.mem_append_right _ List.mem_cons_self
  have length := length_of_mem_above (Nat.le_of_lt way.fork_short) split
  have wrongLength := way.wrong_length.2
  have counted : before.length = front.length + (back.length + 1) := by
    rw [shape, List.length_append, List.length_cons]
  exact ⟨(mem_above.mp onPath).1, by omega, by omega⟩

theorem not_new (way : BrokenWay params state pindexNew before wrong after)
    {part : Branch} (shorter : part.length < wrong.length) :
    part ≠ pindexNew := by
  rintro rfl
  have bound := way.wrong_length.1.length_le
  omega

theorem before_atMost
    (way : BrokenWay params state pindexNew before wrong after)
    {part : Branch} (member : part ∈ before) :
    AtMost part state.chainActive := by
  rcases way.earlier member with ⟨within, shorter, longer⟩
  refine way.toOpenWay.atMost within ?_ (way.not_new shorter)
  rintro rfl
  cases longer

theorem tip_apart
    (way : BrokenWay params state pindexNew before wrong after)
    {part : Branch} (onChain : part <:+ state.chainActive)
    (real : part ≠ []) : part ≠ wrong := by
  rintro rfl
  have connects :=
    (way.arrives.settled.towards.way part onChain real).1
  rw [way.fails] at connects
  cases connects

/-- The state in which the attempt ends. -/
theorem result (way : BrokenWay params state pindexNew before wrong after) :
    (OpenWay.attempt params state pindexNew).chainActive =
        before.getLastD (findFork state.chainActive pindexNew) ∧
      (OpenWay.attempt params state pindexNew).failed =
        wrong :: state.failed ∧
      SameIndex (addToBlockIndex pindexNew state)
        (OpenWay.attempt params state pindexNew) ∧
      ∀ candidate, candidate ∈ (OpenWay.attempt params state
          pindexNew).setBlockIndexCandidates ↔
        candidate ∈
            (addToBlockIndex pindexNew state).setBlockIndexCandidates ∧
          candidate ≠ wrong ∧ ∀ part ∈ before, ¬ Worse candidate part := by
  unfold OpenWay.attempt
  rw [way.path]
  exact connectBlocks_fails (OpenWay.start state pindexNew) way.connects
    (fun part member => (way.before_atMost member).work_le) way.fails

/-- The attempt ends on the way, after the blocks that connect. -/
theorem stop (way : BrokenWay params state pindexNew before wrong after) :
    (OpenWay.attempt params state pindexNew).chainActive <:+ pindexNew ∧
      forkPoint state.chainActive pindexNew <:+
        (OpenWay.attempt params state pindexNew).chainActive ∧
      (OpenWay.attempt params state pindexNew).chainActive.length =
        (findFork state.chainActive pindexNew).length + before.length := by
  have fork := forkPoint_suffix_branch state.chainActive pindexNew
  rw [way.result.1]
  rcases List.eq_nil_or_concat before with rfl | ⟨front, final, rfl⟩
  · rw [List.getLastD_nil, findFork_eq]
    exact ⟨fork, List.suffix_rfl, rfl⟩
  · rw [List.concat_eq_append] at way ⊢
    rw [List.getLastD_concat]
    have member : final ∈ front ++ [final] :=
      List.mem_append_right _ List.mem_cons_self
    rcases way.earlier member with ⟨within, _, longer⟩
    have split : pathTo state pindexNew =
        front ++ final :: (wrong :: after) := by
      rw [way.path, List.append_assoc, List.singleton_append]
    have length := length_of_mem_above (Nat.le_of_lt way.fork_short) split
    rw [findFork_eq] at longer
    refine ⟨within, ?_, ?_⟩
    · exact List.suffix_of_suffix_length_le fork within (Nat.le_of_lt longer)
    · rw [length, List.length_append, List.length_singleton]
      omega

/-- After the attempt the new entry is out of reach. -/
theorem hopeless
    (way : BrokenWay params state pindexNew before wrong after) :
    Hopeless params state.chainActive pindexNew
      (OpenWay.attempt params state pindexNew) := by
  have settled := way.arrives.settled
  rcases way.arrives.candidates way.notWorse with ⟨same, beaten⟩
  rcases way.result with ⟨_, failed, _, candidates⟩
  refine ⟨?_, ?_, way.arrives.beats way.notWorse, ?_, ?_⟩
  · rw [candidates, same]
    exact ⟨List.mem_cons_of_mem _ settled.towards.member,
      way.tip_apart List.suffix_rfl way.arrives.tip_nonempty,
      fun part member => (way.before_atMost member).not_worse⟩
  · intro candidate member
    rw [candidates, same] at member
    exact beaten candidate member.1
  · intro part onChain real
    rcases settled.towards.way part onChain real with
      ⟨connects, notFailed, atMost⟩
    refine ⟨connects, ?_, atMost⟩
    rw [failed]
    intro marked
    rcases List.mem_cons.mp marked with isWrong | old
    · exact way.tip_apart onChain real isWrong
    · exact notFailed old
  · intro _
    rcases way.wrong_length with ⟨onNew, length⟩
    have stopLength := way.stop.2.2
    cases passed : failedAncestor
        (OpenWay.attempt params state pindexNew).chainActive
        (OpenWay.attempt params state pindexNew).failed pindexNew with
    | some cause => rfl
    | none =>
        have real : wrong ≠ [] := by
          rintro rfl
          cases length
        rcases failedAncestor_none passed onNew real with onStop | clear
        · have bound := onStop.length_le
          omega
        · rw [failed] at clear
          exact absurd List.mem_cons_self clear

/-- Activation returns to the old tip. -/
theorem returns (way : BrokenWay params state pindexNew before wrong after) :
    ∃ disconnected last,
      activateBestChain params (state.chainActive.length + 1)
        (addToBlockIndex pindexNew state) = some (disconnected, last) ∧
      Settled params last ∧
      ∀ count ∈ disconnected,
        count ≤ state.chainActive.length -
            (findFork state.chainActive pindexNew).length ∨
          count ≤ before.length := by
  rcases way.result with ⟨_, failed, sameIndex, _⟩
  rcases way.stop with ⟨stopOn, pastFork, stopLength⟩
  rcases way.wrong_length with ⟨wrongOn, wrongLength⟩
  have notThere : pindexNew ≠
      (OpenWay.attempt params state pindexNew).chainActive :=
    Ne.symm (way.not_new (by omega))
  rcases findMostWorkChain_hopeless way.hopeless with
    ⟨middle, found, towards, sameTip, middleIndex, middleFailed, middleReal⟩
  rcases activate_back found towards way.arrives.tip_nonempty
    (Nat.le_refl _) with
    ⟨disconnected, last, ran, counts, arrived, lastTowards, lastFailed,
      lastIndex⟩
  have round := way.toOpenWay.round
  rw [if_neg notThere, ran, Option.map_some] at round
  have marks : ∀ part ∈ wrong :: state.failed, part ∈ last.failed := by
    intro part member
    rw [lastFailed]
    apply middleFailed
    rw [failed]
    exact member
  refine ⟨_, last, round, ?_, ?_⟩
  · have index : last.mapBlockIndex = pindexNew :: state.mapBlockIndex :=
      (lastIndex.1.trans middleIndex.1).trans sameIndex.1
    refine way.arrives.settles index
      ((lastIndex.2.trans middleIndex.2).trans sameIndex.2) ?_
      (fun part old => marks part (List.mem_cons_of_mem _ old)) ?_ ?_ ?_ ?_
    · rw [arrived, index]
      exact List.mem_cons_of_mem _ way.arrives.settled.tip
    · rw [lastFailed]
      apply middleReal
      rw [failed]
      intro impossible
      rcases List.mem_cons.mp impossible with isWrong | old
      · rw [← isWrong] at wrongLength
        cases wrongLength
      · exact way.arrives.settled.real old
    · rw [arrived]
      exact Or.inl rfl
    · intro clear
      exact absurd (marks wrong List.mem_cons_self) (clear wrong wrongOn)
    · rw [arrived]
      exact lastTowards
  · intro count member
    rcases List.mem_cons.mp member with rfl | later
    · exact Or.inl (Nat.le_refl _)
    · right
      have bound := counts count later
      have fork : forkPoint middle.chainActive state.chainActive =
          forkPoint state.chainActive pindexNew := by
        rw [sameTip, forkPoint_comm]
        exact forkPoint_of_between pastFork stopOn
      rw [fork, sameTip, ← findFork_eq] at bound
      omega

end BrokenWay

/-- Either all blocks of a path connect or there is a first that does not. -/
theorem all_or_first (connects : Branch → Bool) (path : List Branch) :
    (∀ part ∈ path, connects part = true) ∨
      ∃ wrong after, path = path.takeWhile connects ++ wrong :: after ∧
        (∀ part ∈ path.takeWhile connects, connects part = true) ∧
        connects wrong = false := by
  induction path with
  | nil => exact Or.inl fun part impossible => by cases impossible
  | cons part rest ih =>
      cases here : connects part with
      | false =>
          right
          rw [List.takeWhile_cons_of_neg (by simp [here])]
          refine ⟨part, rest, rfl, ?_, here⟩
          intro other impossible
          cases impossible
      | true =>
          rw [List.takeWhile_cons_of_pos here]
          rcases ih with all | ⟨wrong, after, shape, good, fails⟩
          · left
            exact List.forall_mem_cons.mpr ⟨here, all⟩
          · right
            refine ⟨wrong, after, ?_, List.forall_mem_cons.mpr ⟨here, good⟩,
              fails⟩
            rw [List.cons_append, ← shape]

/-- Every arrival of a better entry settles again. -/
theorem Arrives.better (arrives : Arrives params state pindexNew)
    (notWorse : ¬ Worse pindexNew state.chainActive) :
    Outcome params state pindexNew := by
  cases passed : failedAncestor state.chainActive state.failed pindexNew with
  | some cause => exact arrives.blocked notWorse passed
  | none =>
      have way : OpenWay params state pindexNew := ⟨arrives, notWorse, passed⟩
      rcases all_or_first params.connects (pathTo state pindexNew) with
        all | ⟨wrong, after, path, connects, fails⟩
      · exact way.switches all
      · have broken : BrokenWay params state pindexNew
            ((pathTo state pindexNew).takeWhile params.connects) wrong
            after := ⟨way, path, connects, fails⟩
        rcases broken.returns with ⟨disconnected, last, ran, settled, counts⟩
        refine ⟨disconnected, last, ran, settled, ?_⟩
        intro count member
        rcases counts count member with within | within
        · exact Or.inl within
        · refine Or.inr ⟨⟨wrong, ?_, fails⟩, within⟩
          rw [path]
          exact List.mem_append_right _ List.mem_cons_self

end Arrival

/-! ## Runs -/

theorem findBlock_mem {hash : UInt256} {state : ChainState}
    {pindex : Branch} (found : findBlock hash state = some pindex) :
    pindex ∈ state.mapBlockIndex :=
  List.mem_of_find?_eq_some found

theorem arrives_of_accepted {params : ChainParams} {state : ChainState}
    {block : CBlockHeader} {pindexNew : Branch}
    (settled : Settled params state)
    (accepted : acceptedEntry params state block = some pindexNew) :
    Arrives params state pindexNew := by
  refine ⟨settled, ?_⟩
  unfold acceptedEntry at accepted
  split_ifs at accepted
  cases found : findBlock block.hashPrevBlock state with
  | none =>
      rw [found] at accepted
      cases accepted
  | some pindexPrev =>
      rw [found] at accepted
      dsimp only at accepted
      split_ifs at accepted
      split at accepted
      · cases accepted
      · cases accepted
        exact ⟨_, pindexPrev, rfl, findBlock_mem found, rfl⟩

/--
If the new block is a better candidate than the tip, then it does not fork from
the active chain further down than the limit, and no more than that many blocks
of its branch come before one that does not connect.
-/
def Shallow (params : ChainParams) (state : ChainState)
    (block : CBlockHeader) : Prop :=
  ∀ pindexNew, acceptedEntry params state block = some pindexNew →
    workComparator pindexNew state.chainActive = false →
      ((state.chainActive.length -
        (findFork state.chainActive pindexNew).length : Nat) : Int) ≤
          params.nMaxReorgDepth ∧
      ((∀ part ∈ pathTo state pindexNew, params.connects part = true) ∨
        (((pathTo state pindexNew).takeWhile params.connects).length : Int) ≤
          params.nMaxReorgDepth)

instance (params : ChainParams) (state : ChainState) (block : CBlockHeader) :
    Decidable (Shallow params state block) :=
  match accepted : acceptedEntry params state block with
  | none => isTrue fun _ isSome => by
      rw [accepted] at isSome
      cases isSome
  | some pindexNew =>
      decidable_of_iff
        (workComparator pindexNew state.chainActive = false →
          ((state.chainActive.length -
            (findFork state.chainActive pindexNew).length : Nat) : Int) ≤
              params.nMaxReorgDepth ∧
          ((∀ part ∈ pathTo state pindexNew, params.connects part = true) ∨
            (((pathTo state pindexNew).takeWhile params.connects).length :
              Int) ≤ params.nMaxReorgDepth)) <| by
        simp only [Shallow, accepted, Option.some.injEq, forall_eq']

/-- One block: activation ends, and disconnects no more than allowed. -/
theorem processBlock_settles {params : ChainParams} {state : ChainState}
    (settled : Settled params state) (block : CBlockHeader) :
    ∃ disconnected last,
      processBlock params state block = some (disconnected, last) ∧
      Settled params last ∧
      (Shallow params state block → ∀ count ∈ disconnected,
        (count : Int) ≤ params.nMaxReorgDepth) := by
  unfold processBlock
  cases accepted : acceptedEntry params state block with
  | none =>
      refine ⟨[], state, activate_nothing
        (findMostWorkChain_towards settled.towards _) rfl, settled, ?_⟩
      intro _ count impossible
      cases impossible
  | some pindexNew =>
      have arrives := arrives_of_accepted settled accepted
      by_cases worse : Worse pindexNew state.chainActive
      · rcases arrives.worse worse with ⟨last, ran, lastSettled⟩
        refine ⟨[], last, ran, lastSettled, ?_⟩
        intro _ count impossible
        cases impossible
      · rcases arrives.better worse with
          ⟨disconnected, last, ran, lastSettled, counts⟩
        refine ⟨disconnected, last, ran, lastSettled, ?_⟩
        intro shallow count member
        rcases shallow pindexNew accepted (Bool.eq_false_of_not_eq_true worse)
          with ⟨depth, connected⟩
        rcases counts count member with within | ⟨⟨part, onPath, fails⟩, within⟩
        · omega
        · rcases connected with all | few
          · rw [all part onPath] at fails
            cases fails
          · omega

/-- Every block of a run is shallow when it arrives. -/
def ShallowRun (params : ChainParams) : ChainState → List CBlockHeader → Prop
  | _, [] => True
  | state, block :: rest =>
      Shallow params state block ∧
        ∀ disconnected last,
          processBlock params state block = some (disconnected, last) →
            ShallowRun params last rest

instance (params : ChainParams) : (state : ChainState) →
    (blocks : List CBlockHeader) → Decidable (ShallowRun params state blocks)
  | _, [] => isTrue trivial
  | state, block :: rest =>
      match processed : processBlock params state block with
      | none =>
          decidable_of_iff (Shallow params state block) <| by
            simp only [ShallowRun, processed, reduceCtorEq, false_implies,
              implies_true, and_true]
      | some (_, last) =>
          have : Decidable (ShallowRun params last rest) :=
            instDecidableShallowRun params last rest
          decidable_of_iff
            (Shallow params state block ∧ ShallowRun params last rest) <| by
            simp only [ShallowRun, processed, Option.some.injEq,
              Prod.mk.injEq, and_imp, forall_eq', forall_apply_eq_imp_iff]

theorem run_settles {params : ChainParams} {state : ChainState}
    (settled : Settled params state) (blocks : List CBlockHeader) :
    ∃ disconnected last, run params state blocks =
        some (disconnected, last) ∧
      (ShallowRun params state blocks → ∀ count ∈ disconnected,
        (count : Int) ≤ params.nMaxReorgDepth) := by
  induction blocks generalizing state with
  | nil =>
      refine ⟨[], state, rfl, ?_⟩
      intro _ count impossible
      cases impossible
  | cons block rest ih =>
      rcases processBlock_settles settled block with
        ⟨first, middle, processed, middleSettled, firstCounts⟩
      rcases ih middleSettled with ⟨later, last, ran, laterCounts⟩
      refine ⟨first ++ later, last, ?_, ?_⟩
      · rw [run, processed]
        dsimp only
        rw [ran]
      · rintro ⟨shallow, shallowLater⟩ count member
        rcases List.mem_append.mp member with early | late
        · exact firstCounts shallow count early
        · exact laterCounts (shallowLater _ _ processed) count late

theorem genesis_settled (params : ChainParams) (genesis : CBlockHeader)
    (connects : params.connects [⟨genesis, 0⟩] = true) :
    Settled params (genesisState genesis) := by
  have only : ∀ part, part <:+ [⟨genesis, 0⟩] → part ≠ [] →
      part = [(⟨genesis, 0⟩ : CBlockIndex)] := by
    intro part within real
    rcases List.suffix_cons_iff.mp within with whole | inside
    · exact whole
    · exact absurd (List.suffix_nil.mp inside) real
  refine ⟨List.mem_cons_self, by simp [genesisState], ?_, ?_, ?_,
    by simp [genesisState], ?_⟩
  · intro pindex member part within real
    rw [List.mem_singleton.mp member] at within
    rw [only part within real]
    exact List.mem_cons_self
  · intro pindex member
    rw [List.mem_singleton.mp member]
    exact Nat.zero_lt_one
  · intro pindex member _
    exact Or.inl (List.mem_singleton.mp member)
  · refine ⟨List.mem_cons_self, ?_, ?_⟩
    · intro candidate member
      exact Or.inl (List.mem_singleton.mp member)
    · intro part within real
      rw [only part within real]
      exact ⟨connects, by simp [genesisState], Or.inl rfl⟩

/-- A limit, no checkpoints, and every block connects. -/
def limitOnly (nMaxReorgDepth : Int) : ChainParams :=
  ⟨nMaxReorgDepth, false, [], fun _ => true⟩

def blockAt (hash hashPrevBlock : UInt256) (height : Nat) : CBlockHeader :=
  ⟨hash, hashPrevBlock, 3, .ofNat (height + 1), 0x1d00ffff⟩

/-- The block of a height of the first branch; genesis is number zero. -/
def firstBranch (height : Nat) : CBlockHeader :=
  blockAt (.ofNat 256 height) (.ofNat 256 (height - 1)) height

/-- The block of a height of a second branch that forks at genesis. -/
def secondBranch (height : Nat) : CBlockHeader :=
  blockAt (.ofNat 256 (1000 + height))
    (if height = 1 then 0 else .ofNat 256 (1000 + height - 1)) height

/--
The first branch grows to the limit, the second begins just in time, the first
goes one further, and the second overtakes it.
-/
def overtaken (limit : Nat) : List CBlockHeader :=
  (List.range limit).map (fun height => firstBranch (height + 1)) ++
    [secondBranch 1, firstBranch (limit + 1)] ++
    (List.range (limit + 1)).map fun height => secondBranch (height + 2)

end PrivateDatagram.Chainstate.Reorganisation
