import PrivateDatagram.Chainstate.BlockIndexCommands
import PrivateDatagram.Library.GuardedRun

/-!
# `CheckBlockIndex`

Every assertion holds between two calls, from genesis on, as long as no call
does one of the few things that leave a flag or a container behind.
-/

namespace PrivateDatagram.Chainstate.BlockIndexCheck

open Wire.Serialize Library.ForkPoint Library.GuardedRun BlockIndex
  BlockIndexTree BlockIndexData BlockIndexFlags BlockIndexActivation
  BlockIndexCommands
open Chainstate.ActiveChain (CBlockHeader getBlockProof)

variable {genesis : CBlockHeader} {state : ChainState}
  {pindex other : Branch}

/-! ## The assertions about an entry -/

theorem firstOn_eq_none {condition : Branch → Bool} :
    firstOn condition pindex = none ↔
      ∀ ancestor, ancestor <:+ pindex → ancestor ≠ [] →
        condition ancestor = false := by
  unfold firstOn
  rw [List.find?_eq_none]
  constructor
  · intro none ancestor within nonempty
    have outside := none ancestor (mem_above.mpr
      ⟨within, List.length_pos_of_ne_nil nonempty⟩)
    exact Bool.eq_false_of_not_eq_true outside
  · intro none ancestor member
    obtain ⟨within, long⟩ := mem_above.mp member
    rw [none ancestor within (List.ne_nil_of_length_pos long)]
    exact Bool.false_ne_true

/-- An entry is linked when all the data up to it are there. -/
theorem received_iff_linked (tree : Tree genesis state) (data : Data state)
    (member : pindex ∈ state.mapBlockIndex) :
    Received state pindex ↔ Linked state pindex := by
  constructor
  · intro received
    induction pindex with
    | nil => exact absurd member tree.nonempty
    | cons block pprev ih =>
        by_contra unlinked
        obtain ⟨behind, parent⟩ := data.waits.behind _ member
          (received _ List.suffix_rfl (List.cons_ne_nil _ _)) unlinked
          List.not_mem_nil
        refine parent (ih (tree.pprev _ member behind) ?_)
        intro ancestor within
        exact received ancestor (within.trans (List.suffix_cons _ _))
  · intro linked ancestor within nonempty
    have behind := data.filled.suffix tree member linked within nonempty
    exact (data.filled.linked ancestor (tree.suffix member within nonempty)
      behind).1

theorem firstMissing_iff (tree : Tree genesis state) (data : Data state)
    (member : pindex ∈ state.mapBlockIndex) :
    firstOn (fun ancestor => ¬ (state.entry ancestor).haveData) pindex =
      none ↔ Linked state pindex := by
  rw [firstOn_eq_none, ← received_iff_linked tree data member]
  refine forall_congr' fun ancestor => ?_
  simp

/-- An entry with valid scripts has only such ancestors. -/
theorem scripts_suffix (tree : Tree genesis state) (levels : Levels state)
    (member : pindex ∈ state.mapBlockIndex)
    (high : blockValidChain ≤ (state.entry pindex).validity)
    (suffix : other <:+ pindex) (behind : other.tail ≠ []) :
    blockValidScripts ≤ (state.entry other).validity := by
  induction pindex with
  | nil =>
      rw [List.suffix_nil.mp suffix] at behind
      exact absurd rfl behind
  | cons block pprev ih =>
      obtain ⟨scripts, parent⟩ := levels.scripts _ member high
      rcases List.suffix_cons_iff.mp suffix with rfl | within
      · exact scripts
      · have more : pprev.tail ≠ [] := by
          intro none
          have short := within.length_le
          have long := List.length_pos_of_ne_nil behind
          have short' := congrArg List.length none
          rw [List.length_tail] at long short'
          rw [List.length_nil] at short'
          omega
        have nonempty : pprev ≠ [] := by
          rintro rfl
          exact more rfl
        have lower : blockValidChain ≤ (state.entry pprev).validity :=
          le_trans (by decide) (parent more)
        exact ih (tree.pprev _ member nonempty) lower within

/-- No entry on the way is below a level that they all have. -/
theorem belowValidity_none {nUpTo : Nat}
    (high : ∀ ancestor, ancestor <:+ pindex → ancestor.tail ≠ [] →
      nUpTo ≤ (state.entry ancestor).validity) :
    firstOn (belowValidity state nUpTo) pindex = none := by
  rw [firstOn_eq_none]
  intro ancestor within _
  unfold belowValidity
  rw [decide_eq_false_iff_not]
  rintro ⟨behind, low⟩
  exact absurd (high ancestor within behind) (not_le.mpr low)

section Entry

variable (settled : Settled genesis state)
  (member : pindex ∈ state.mapBlockIndex)
include settled member

theorem pskip_spec (high : ¬ pindex.length - 1 < 2) :
    (state.entry pindex).pskip ≠ [] ∧
      (state.entry (state.entry pindex).pskip).nHeight <
        pindex.length - 1 := by
  have tree := settled.base.tree
  have height := tree.nHeight pindex member
  have behind : pindex.tail ≠ [] := by
    intro none
    have short := congrArg List.length none
    rw [List.length_tail, List.length_nil] at short
    omega
  have less : getSkipHeight (state.entry pindex).nHeight <
      (state.entry pindex).nHeight := getSkipHeight_lt (by omega)
  have skip := tree.pskip pindex member behind
  change _ = ancestorAt _ _ at skip
  have length : (ancestorAt (getSkipHeight (state.entry pindex).nHeight)
      pindex).length = _ := length_ancestorAt (by omega)
  rw [← skip] at length
  have nonempty := List.ne_nil_of_length_pos
    (Nat.lt_of_lt_of_eq (Nat.succ_pos _) length.symm)
  have suffix : (state.entry pindex).pskip <:+ pindex := by
    rw [skip]
    exact ancestorAt_suffix _ _
  have height' := tree.nHeight _ (tree.suffix member suffix nonempty)
  exact ⟨nonempty, by omega⟩

/-- A failure flag has a cause on the way. -/
theorem unflagged_of_firstInvalid
    (none : firstOn (fun ancestor => (state.entry ancestor).failedValid)
      pindex = none) : (state.entry pindex).failed = false := by
  rw [firstOn_eq_none] at none
  by_contra flagged
  rw [Bool.not_eq_false] at flagged
  obtain ⟨ancestor, suffix, nonempty, invalid⟩ := settled.caused.cause
    member (settled.base.tree.ne_nil member) flagged
  rw [none ancestor suffix nonempty] at invalid
  cases invalid

theorem candidate_check :
    (if ¬ workComparator state pindex state.chainActive ∧
        firstOn (fun ancestor => ¬ (state.entry ancestor).haveData) pindex =
          none then
      decide (firstOn (fun ancestor => (state.entry ancestor).failedValid)
        pindex = none → pindex ∈ state.setBlockIndexCandidates)
    else
      decide (pindex ∉ state.setBlockIndexCandidates)) = true := by
  have missing := firstMissing_iff settled.base.tree settled.base.data member
  split_ifs with good
  · obtain ⟨atLeast, complete⟩ := good
    rw [workComparator_iff, not_lt] at atLeast
    refine decide_eq_true fun none => ?_
    exact settled.candidates.complete pindex member (missing.mp complete)
      (unflagged_of_firstInvalid settled member none) atLeast
  · refine decide_eq_true fun candidate => ?_
    obtain ⟨_, linked, atLeast⟩ := settled.candidates.good pindex candidate
    refine good ⟨?_, missing.mpr linked⟩
    rw [workComparator_iff, not_lt]
    exact atLeast

theorem unlinked_check :
    (if pindex.tail ≠ [] ∧ (state.entry pindex).haveData ∧
        firstOn (fun ancestor => ¬ (state.entry ancestor).haveData) pindex ≠
          none then
      decide (firstOn (fun ancestor => (state.entry ancestor).failedValid)
        pindex = none → (pindex.tail, pindex) ∈ state.mapBlocksUnlinked)
    else
      decide ((pindex.tail, pindex) ∉ state.mapBlocksUnlinked)) = true := by
  have missing := firstMissing_iff settled.base.tree settled.base.data member
  have waiting := settled.base.data.waits.waiting pindex.tail pindex
  split_ifs with due
  · obtain ⟨behind, haveData, incomplete⟩ := due
    refine decide_eq_true fun _ => waiting.mpr ⟨member, rfl, behind, haveData,
      ?_, List.not_mem_nil⟩
    exact fun linked => incomplete (missing.mpr linked)
  · refine decide_eq_true fun found => ?_
    obtain ⟨_, _, behind, haveData, unlinked, _⟩ := waiting.mp found
    exact due ⟨behind, haveData, fun complete =>
      unlinked (missing.mp complete)⟩

/-- All the assertions about an entry hold. -/
theorem checkEntry_of_settled :
    checkEntry genesis.hash state pindex = true := by
  obtain ⟨tree, data, levels⟩ := settled.base
  have nonempty := tree.ne_nil member
  have height := tree.nHeight pindex member
  have missing := firstMissing_iff tree data member
  have candidates := candidate_check settled member
  have unlinked := unlinked_check settled member
  unfold checkEntry
  dsimp only
  rw [candidates, unlinked]
  simp only [Bool.and_true, Bool.and_eq_true, decide_eq_true_eq]
  refine ⟨⟨⟨⟨⟨⟨⟨⟨⟨⟨⟨⟨?_, ?_⟩, ?_⟩, ?_⟩, ?_⟩, ?_⟩, ?_⟩, ?_⟩, ?_⟩, ?_⟩, ?_⟩,
    ?_⟩, ?_⟩
  · intro first
    rw [tree.first pindex member first]
    rfl
  · intro first
    have root := tree.genesis_suffix settled.active.member
    rw [tree.first pindex member first]
    exact List.suffix_iff_eq_drop.mp root
  · rw [← not_iff_not, Bool.not_eq_false]
    exact data.filled.received pindex member
  · rw [gt_iff_lt, UInt32.pos_iff_ne_zero]
    exact levels.transactions pindex member
  · intro none
    exact data.filled.unlinked pindex member (not_not.mpr none)
  · rw [ne_eq, missing]
    exact not_not
  · omega
  · by_cases first : pindex.tail = []
    · exact .inl first
    · exact .inr (BitVec.le_of_lt (tree.nChainWork pindex member first))
  · by_cases low : pindex.length - 1 < 2
    · exact .inl low
    · exact .inr (pskip_spec settled member low)
  · refine belowValidity_none fun ancestor within behind => ?_
    have nonempty : ancestor ≠ [] := by
      rintro rfl
      exact behind rfl
    exact levels.tree ancestor (tree.suffix member within nonempty)
  · intro high
    refine belowValidity_none fun ancestor within behind => ?_
    exact le_trans (by decide)
      (scripts_suffix tree levels member high within behind)
  · intro high
    refine belowValidity_none fun ancestor within behind => ?_
    exact scripts_suffix tree levels member (le_trans (by decide) high)
      within behind
  · exact unflagged_of_firstInvalid settled member

end Entry

/-! ## The whole index -/

theorem visited_of_tree (tree : Tree genesis state) :
    visited state = state.mapBlockIndex := by
  refine List.filter_eq_self.mpr ?_
  intro pindex member
  refine decide_eq_true fun ancestor within => ?_
  obtain ⟨suffix, long⟩ := mem_above.mp within
  exact tree.suffix member suffix (List.ne_nil_of_length_pos long)

/-- Only genesis has no parent. -/
theorem length_roots (tree : Tree genesis state) :
    (state.mapBlockIndex.filter fun pindex =>
      pindex.tail = []).length = 1 := by
  have only : ∀ pindex ∈ state.mapBlockIndex.filter fun pindex =>
      pindex.tail = [], pindex = [genesis] := by
    intro pindex within
    obtain ⟨member, first⟩ := List.mem_filter.mp within
    exact tree.first pindex member (of_decide_eq_true first)
  have root : [genesis] ∈ state.mapBlockIndex.filter fun pindex =>
      pindex.tail = [] :=
    List.mem_filter.mpr ⟨tree.root, decide_eq_true rfl⟩
  have once := tree.nodup.filter fun pindex => decide (pindex.tail = [])
  rw [List.eq_replicate_of_mem only, List.nodup_replicate] at once
  have some := List.length_pos_of_mem root
  omega

theorem checkBlockIndex_of_settled (settled : Settled genesis state) :
    checkBlockIndex genesis.hash state = true := by
  have tree := settled.base.tree
  have nonempty := tree.ne_nil settled.active.member
  unfold checkBlockIndex
  rw [if_neg nonempty, visited_of_tree tree, length_roots tree,
    decide_eq_true rfl, decide_eq_true rfl, Bool.and_true, Bool.true_and,
    List.all_eq_true]
  exact fun pindex member => checkEntry_of_settled settled member

/-- The check, and in particular what it says about the two containers. -/
structure Consistent (genesis : CBlockHeader) (state : ChainState) :
    Prop where
  check : checkBlockIndex genesis.hash state = true
  linked : ∀ pindex ∈ state.mapBlockIndex,
    (state.entry pindex).nChainTx ≠ 0 ↔ Received state pindex
  flags : ∀ pindex ∈ state.mapBlockIndex,
    (state.entry pindex).failed = true →
    ∃ ancestor, ancestor <:+ pindex ∧ ancestor ≠ [] ∧
      (state.entry ancestor).failedValid = true
  candidates : ∀ pindex ∈ state.mapBlockIndex, Received state pindex →
    (∀ ancestor, ancestor <:+ pindex → ancestor ≠ [] →
      (state.entry ancestor).failedValid = false) →
    workComparator state pindex state.chainActive = false →
    pindex ∈ state.setBlockIndexCandidates
  unlinked : ∀ pprev pindex,
    (pprev, pindex) ∈ state.mapBlocksUnlinked ↔
      pindex ∈ state.mapBlockIndex ∧ pprev = pindex.tail ∧ pprev ≠ [] ∧
        (state.entry pindex).haveData = true ∧ ¬ Received state pindex

theorem consistent_of_settled (settled : Settled genesis state) :
    Consistent genesis state := by
  obtain ⟨tree, data, levels⟩ := settled.base
  have cause : ∀ pindex ∈ state.mapBlockIndex,
      (state.entry pindex).failed = true →
      ∃ ancestor, ancestor <:+ pindex ∧ ancestor ≠ [] ∧
        (state.entry ancestor).failedValid = true :=
    fun _ member => settled.caused.cause member (tree.ne_nil member)
  refine ⟨checkBlockIndex_of_settled settled, ?_, cause, ?_, ?_⟩
  · intro pindex member
    exact (received_iff_linked tree data member).symm
  · intro pindex member received valid atLeast
    have linked := (received_iff_linked tree data member).mp received
    rw [← Bool.not_eq_true, workComparator_iff, not_lt] at atLeast
    refine settled.candidates.complete pindex member linked ?_ atLeast
    by_contra flagged
    rw [Bool.not_eq_false] at flagged
    obtain ⟨ancestor, suffix, nonempty, invalid⟩ := cause pindex member flagged
    rw [valid ancestor suffix nonempty] at invalid
    cases invalid
  · intro pprev pindex
    rw [data.waits.waiting]
    constructor
    · rintro ⟨member, same, behind, haveData, unlinked, _⟩
      exact ⟨member, same, behind, haveData, fun received =>
        unlinked ((received_iff_linked tree data member).mp received)⟩
    · rintro ⟨member, same, behind, haveData, incomplete⟩
      exact ⟨member, same, behind, haveData, fun linked =>
        incomplete ((received_iff_linked tree data member).mpr linked),
        List.not_mem_nil⟩

/-! ## Runs -/

def emptyState : ChainState where
  mapBlockIndex := []
  entry := fun _ => .null 0
  setBlockIndexCandidates := []
  mapBlocksUnlinked := []
  chainActive := []
  nBlockSequenceId := 1

/-- `InitBlockIndex`. -/
def initBlockIndex (genesis : CBlockHeader) (address : Nat) :
    Option ChainState :=
  activateBestChain [fun _ => .accepted]
    (receivedBlockTransactions 1 [genesis]
      (addToBlockIndex genesis address emptyState))

/-- The entry of genesis. -/
def genesisEntry (genesis : CBlockHeader) (address : Nat) : CBlockIndex :=
  { CBlockIndex.null address with
    nChainWork := getBlockProof genesis.nBits
    nTx := 1
    nChainTx := 1
    nSequenceId := 1
    validity := blockValidScripts
    haveData := true }

/-- What it leaves. -/
def genesisState (genesis : CBlockHeader) (address : Nat) : ChainState where
  mapBlockIndex := [[genesis]]
  entry := Function.update (fun _ => .null 0) [genesis]
    (genesisEntry genesis address)
  setBlockIndexCandidates := [[genesis]]
  mapBlocksUnlinked := []
  chainActive := [genesis]
  nBlockSequenceId := 2

/-- Before its block is connected. -/
def receivedGenesis (genesis : CBlockHeader) (address : Nat) : ChainState :=
  { genesisState genesis address with
    entry := Function.update (fun _ => .null 0) [genesis]
      { genesisEntry genesis address with
        validity := blockValidTransactions }
    chainActive := [] }

theorem receivedGenesis_eq (genesis : CBlockHeader) (address : Nat) :
    receivedBlockTransactions 1 [genesis]
        (addToBlockIndex genesis address emptyState) =
      receivedGenesis genesis address := by
  unfold receivedBlockTransactions
  rw [if_pos (.inl rfl), linkQueue]
  change linkQueue [] _ = _
  rw [linkQueue]
  simp [addToBlockIndex, findBlock, emptyState, offer, fillChain,
    eraseUnlinkedAfter, insertCandidate, ChainState.modify, genesisState,
    newEntry, CBlockIndex.raiseValidity, CBlockIndex.receive,
    CBlockIndex.null, CBlockIndex.failed, receivedGenesis, genesisEntry,
    blockValidTree, blockValidTransactions]

theorem initBlockIndex_eq (genesis : CBlockHeader) (address : Nat) :
    initBlockIndex genesis address = some (genesisState genesis address) := by
  have usable : findUnusable (receivedGenesis genesis address) [genesis] =
      some none := by
    simp [findUnusable, contains, receivedGenesis, genesisEntry,
      CBlockIndex.failed, CBlockIndex.null]
  unfold initBlockIndex
  rw [receivedGenesis_eq]
  unfold activateBestChain activateRound
  rw [findMostWorkChain_of_usable rfl usable]
  simp [activateBestChainStep, findFork, forkPoint, above, connectBlocks,
    pruneBlockIndexCandidates, connectTip, ChainState.modify, genesisState,
    receivedGenesis, genesisEntry, CBlockIndex.raiseValidity,
    CBlockIndex.failed, CBlockIndex.null, blockValidTransactions,
    blockValidScripts, workComparator]

/-- A call, with the verdicts of the rounds of `ActivateBestChain`. -/
inductive Step where
  | header (block : CBlockHeader) (address : Nat)
  | data (pindex : Branch) (nTx : UInt32)
  | activate (verdicts : List (Branch → Verdict))
  | invalidate (pindex : Branch) (verdicts : List (Branch → Verdict))
  | reconsider (pindex : Branch) (verdicts : List (Branch → Verdict))

def perform (state : ChainState) : Step → Option ChainState
  | .header block address => some (addToBlockIndex block address state)
  | .data pindex nTx => some (receivedBlockTransactions nTx pindex state)
  | .activate verdicts => activateBestChain verdicts state
  | .invalidate pindex verdicts =>
      (invalidateBlock pindex state).bind (activateBestChain verdicts)
  | .reconsider pindex verdicts =>
      activateBestChain verdicts (reconsiderBlock pindex state)

/-- Calls that do not complete are left out. -/
def step (state : ChainState) (call : Step) : ChainState :=
  (perform state call).getD state

/-- What the callers see to: the parent of a header is known, a new object
gets memory of its own, data come once, and only entries are invalidated and
reconsidered. -/
def Given (state : ChainState) : Step → Prop
  | .header block address =>
      (findBlock block.hashPrevBlock state).isSome ∧
        ∀ pindex ∈ state.mapBlockIndex,
          (state.entry pindex).address ≠ address
  | .data pindex _ =>
      pindex ∈ state.mapBlockIndex ∧ (state.entry pindex).haveData = false
  | .activate _ => True
  | .invalidate pindex _ => pindex ∈ state.mapBlockIndex
  | .reconsider pindex _ => pindex ∈ state.mapBlockIndex

instance (state : ChainState) (call : Step) : Decidable (Given state call) :=
  match call with
  | .header _ _ => inferInstanceAs (Decidable (_ ∧ _))
  | .data _ _ => inferInstanceAs (Decidable (_ ∧ _))
  | .activate _ => inferInstanceAs (Decidable True)
  | .invalidate _ _ => inferInstanceAs (Decidable (_ ∈ _))
  | .reconsider _ _ => inferInstanceAs (Decidable (_ ∈ _))

/-- The calls that leave nothing behind. -/
def Meets (state : ChainState) : Step → Prop
  | .header block _ =>
      findBlock block.hash state = none →
      ∀ pprev, findBlock block.hashPrevBlock state = some pprev →
        (state.entry pprev).nChainWork <
          (state.entry pprev).nChainWork + getBlockProof block.nBits
  | .data pindex nTx => MayArrive state pindex nTx
  | .activate verdicts => Returning [] verdicts state
  | .invalidate pindex verdicts =>
      ∀ state', invalidateBlock pindex state = some state' →
        Returning [] verdicts state'
  | .reconsider pindex verdicts =>
      Clear state pindex.tail ∧
        Returning [] verdicts (reconsiderBlock pindex state)

section Genesis

variable (genesis : CBlockHeader) (address : Nat)

theorem genesisState_entry :
    (genesisState genesis address).entry [genesis] =
      genesisEntry genesis address := by
  exact Function.update_self [genesis] (genesisEntry genesis address)
    fun _ => CBlockIndex.null 0

variable {genesis}

theorem suffix_genesis {ancestor : Branch} (suffix : ancestor <:+ [genesis])
    (nonempty : ancestor ≠ []) : ancestor = [genesis] := by
  rcases List.suffix_cons_iff.mp suffix with same | none
  · exact same
  · exact absurd (List.suffix_nil.mp none) nonempty

variable {address}

theorem mem_genesisState (member : pindex ∈
    (genesisState genesis address).mapBlockIndex) : pindex = [genesis] :=
  List.mem_singleton.mp member

theorem tree_genesisState : Tree genesis (genesisState genesis address) := by
  have self := genesisState_entry genesis address
  refine ⟨List.nodup_singleton _, nofun, List.mem_singleton_self _, ?_, ?_,
    ?_, ?_, ?_, ?_⟩
  · intro pindex member _
    exact mem_genesisState member
  · intro pindex member behind
    rw [mem_genesisState member] at behind
    exact absurd rfl behind
  · intro pindex member
    rw [mem_genesisState member, self]
    rfl
  · intro pindex member behind
    rw [mem_genesisState member] at behind
    exact absurd rfl behind
  · intro pindex member behind
    rw [mem_genesisState member] at behind
    exact absurd rfl behind
  · intro pindex member other there _
    rw [mem_genesisState member, mem_genesisState there]

theorem linked_genesisState : Linked (genesisState genesis address)
    [genesis] := by
  unfold Linked
  rw [genesisState_entry]
  exact (by decide : (1 : UInt32) ≠ 0)

theorem data_genesisState : Data (genesisState genesis address) := by
  have self := genesisState_entry genesis address
  have linked : Linked (genesisState genesis address) [genesis] :=
    linked_genesisState
  refine ⟨⟨?_, ?_, ?_⟩, ⟨List.nodup_nil, ?_, ?_⟩⟩
  · intro pindex member
    rw [mem_genesisState member, self]
    exact iff_of_true rfl (by decide : (1 : UInt32) ≠ 0)
  · intro pindex member _
    rw [mem_genesisState member]
    refine ⟨by rw [self]; rfl, fun behind => absurd rfl behind, ?_⟩
    unfold chainTx chainTx
    rw [self]
    rfl
  · intro pindex member unlinked
    rw [mem_genesisState member] at unlinked
    exact absurd linked unlinked
  · intro pprev pindex
    refine iff_of_false List.not_mem_nil ?_
    rintro ⟨member, same, behind, _⟩
    rw [mem_genesisState member] at same
    exact behind same
  · intro pindex member _ unlinked
    rw [mem_genesisState member] at unlinked
    exact absurd linked unlinked

theorem settled_genesisState :
    Settled genesis (genesisState genesis address) := by
  have self := genesisState_entry genesis address
  refine settled_mk ⟨tree_genesisState, data_genesisState, ?_, ?_, ?_⟩ ?_
    ⟨List.mem_singleton_self _, linked_genesisState, ?_, ?_⟩ ⟨?_, ?_⟩
  · intro pindex member
    rw [mem_genesisState member, self]
    change blockValidTree ≤ blockValidScripts
    decide
  · intro pindex member
    rw [mem_genesisState member, self]
    refine iff_of_true ?_ (by decide : (1 : UInt32) ≠ 0)
    change blockValidTransactions ≤ blockValidScripts
    decide
  · intro pindex member _
    rw [mem_genesisState member, self]
    exact ⟨le_rfl, fun behind => absurd rfl behind⟩
  · intro pindex member marked
    rw [mem_genesisState member, self] at marked
    cases marked
  · intro ancestor within nonempty
    rw [suffix_genesis within nonempty, self]
    rfl
  · intro ancestor within behind
    have nonempty : ancestor ≠ [] := by
      rintro rfl
      exact behind rfl
    rw [suffix_genesis within nonempty] at behind
    exact absurd rfl behind
  · intro candidate member
    rw [List.mem_singleton.mp member]
    exact ⟨List.mem_singleton_self _, linked_genesisState, le_rfl⟩
  · intro pindex member _ _ _
    exact member

end Genesis

theorem settled_step {call : Step} (settled : Settled genesis state)
    (given : Given state call) (meets : Meets state call) :
    Settled genesis (step state call) := by
  unfold step
  cases result : perform state call with
  | none => exact settled
  | some state' =>
      rw [Option.getD_some]
      cases call with
      | header block address =>
          cases result
          obtain ⟨known, fresh⟩ := given
          obtain ⟨pprev, parent⟩ := Option.isSome_iff_exists.mp known
          exact settled_addToBlockIndex settled parent fresh
            fun unknown => meets unknown pprev parent
      | data pindex nTx =>
          cases result
          exact settled_receivedBlockTransactions settled meets
      | activate verdicts =>
          exact settled_activateBestChain settled meets result
      | invalidate pindex verdicts =>
          obtain ⟨middle, ends, activates⟩ := Option.bind_eq_some_iff.mp result
          have nonempty := settled.base.tree.ne_nil given
          exact settled_activateBestChain
            (settled_invalidateBlock settled nonempty ends)
            (meets middle ends) activates
      | reconsider pindex verdicts =>
          exact settled_activateBestChain
            (settled_reconsiderBlock settled given meets.1) meets.2 result

/-- In a run from genesis whose calls leave nothing behind, the index is
consistent in every state. -/
theorem block_index_consistent (genesis : CBlockHeader) (address : Nat)
    (calls : List Step)
    (along : Along step
      (fun state call => Given state call ∧ Meets state call) calls
      (genesisState genesis address)) :
    Always step (Consistent genesis) calls
      (genesisState genesis address) := by
  have kept : ∀ state call, Settled genesis state →
      Given state call ∧ Meets state call →
      Settled genesis (step state call) :=
    fun _ _ settled meets => settled_step settled meets.1 meets.2
  have holds : ∀ state, Settled genesis state → Consistent genesis state :=
    fun _ => consistent_of_settled
  exact Along.always kept holds settled_genesisState along

/-- Without blocks that turn out to be invalid there is nothing to keep. -/
theorem returning_of_valid {past : List Branch}
    {verdicts : List (Branch → Verdict)}
    (valid : ∀ verdict ∈ verdicts, ∀ pindex, verdict pindex ≠ .invalid) :
    Returning past verdicts state := by
  induction verdicts generalizing past state with
  | nil => trivial
  | cons verdict verdicts ih =>
      rw [List.forall_mem_cons] at valid
      exact ⟨fun _ _ pindex _ _ => valid.1 pindex, fun _ _ => ih valid.2⟩

/-! ## Small runs -/

section Example

/-- Headers with the same work. -/
def headerOf (hash hashPrevBlock : UInt256) : CBlockHeader where
  hash := hash
  hashPrevBlock := hashPrevBlock
  nVersion := 3
  nTime := 0
  nBits := 0x1e0fffff

def headerG : CBlockHeader := headerOf 1 0
def headerA : CBlockHeader := headerOf 2 1
def headerB : CBlockHeader := headerOf 3 2
def headerC : CBlockHeader := headerOf 4 2

def accepting : List (Branch → Verdict) :=
  List.replicate 3 fun _ => .accepted

theorem returning_accepting : Returning [] accepting state := by
  refine returning_of_valid ?_
  intro verdict member pindex
  rw [List.eq_of_mem_replicate member]
  exact nofun

/-- A block comes, and it is invalidated and reconsidered. -/
def singleRun : List Step := [
  .header headerA 2, .data [headerA, headerG] 1, .activate accepting,
  .invalidate [headerA, headerG] accepting,
  .reconsider [headerA, headerG] accepting]

theorem single_consistent :
    Always step (Consistent headerG) singleRun (genesisState headerG 1) := by
  refine block_index_consistent headerG 1 singleRun
    ⟨⟨by decide +kernel, ?_⟩, ⟨by decide +kernel, ?_⟩, ⟨trivial, ?_⟩,
      ⟨by decide +kernel, ?_⟩, ⟨by decide +kernel, ?_, ?_⟩, trivial⟩
  · intro _ pprev found
    have known : findBlock headerA.hashPrevBlock (genesisState headerG 1) =
        some [headerG] := by decide +kernel
    cases known.symm.trans found
    decide +kernel
  · refine ⟨by decide +kernel, by decide +kernel, by decide,
      by decide +kernel, .inr (by decide +kernel), ?_⟩
    intro other member _ _
    have counted : ∀ other ∈ (addToBlockIndex headerA 2
        (genesisState headerG 1)).mapBlockIndex,
        (chainTx (addToBlockIndex headerA 2 (genesisState headerG 1)) other +
          (1 : UInt32).toNat) % 2 ^ 32 ≠ 0 := by
      decide +kernel
    exact counted other member
  · exact returning_accepting
  · exact fun _ _ => returning_accepting
  · intro ancestor within nonempty
    rw [suffix_genesis within nonempty]
    decide +kernel
  · exact returning_accepting

/-- Two blocks on top of one that is invalidated, and only one of them is
reconsidered. -/
def siblingsRun : List Step := [
  .header headerA 2, .header headerB 3, .header headerC 4,
  .data [headerA, headerG] 1, .data [headerB, headerA, headerG] 1,
  .data [headerC, headerA, headerG] 1, .activate accepting,
  .invalidate [headerA, headerG] accepting,
  .reconsider [headerB, headerA, headerG] accepting]

/-- The other one keeps its flag, and nothing on its way is invalid. -/
theorem reconsidered_sibling_inconsistent :
    ¬ ∀ (genesis : CBlockHeader) (address : Nat) (calls : List Step),
      Along step Given calls (genesisState genesis address) →
      Always step (Consistent genesis) calls
        (genesisState genesis address) := by
  intro all
  have always := all headerG 1 siblingsRun (by
    refine ⟨?_, ?_, ?_, ?_, ?_, ?_, ?_, ?_, ?_, trivial⟩ <;>
      decide +kernel)
  obtain ⟨_, _, _, _, _, _, _, _, _, last⟩ := always
  exact absurd last.check (by decide +kernel)

end Example

end PrivateDatagram.Chainstate.BlockIndexCheck
