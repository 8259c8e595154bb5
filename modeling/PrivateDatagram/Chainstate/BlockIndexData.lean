import PrivateDatagram.Chainstate.BlockIndexTree

/-!
# The data of the entries

An entry is linked, with a number of transactions on its chain, when all its
ancestors have their data.  One with data that is not linked yet waits in
`mapBlocksUnlinked` for the entry before it.
-/

namespace PrivateDatagram.Chainstate.BlockIndexData

open BlockIndex BlockIndexTree
open Chainstate.ActiveChain (CBlockHeader)

variable {genesis : CBlockHeader} {state state' : ChainState}
  {pindex other : Branch}

/-! ## Linked entries -/

def Linked (state : ChainState) (pindex : Branch) : Prop :=
  (state.entry pindex).nChainTx ≠ 0

/-- The transactions of a block and its ancestors. -/
def chainTx (state : ChainState) : Branch → Nat
  | [] => 0
  | block :: pprev =>
      chainTx state pprev + (state.entry (block :: pprev)).nTx.toNat

/-- All the data up to an entry. -/
def Received (state : ChainState) (pindex : Branch) : Prop :=
  ∀ ancestor, ancestor <:+ pindex → ancestor ≠ [] →
    (state.entry ancestor).haveData = true

/-- The part that does not depend on what waits. -/
structure Filled (state : ChainState) : Prop where
  received : ∀ pindex ∈ state.mapBlockIndex,
    (state.entry pindex).haveData = true ↔ (state.entry pindex).nTx ≠ 0
  linked : ∀ pindex ∈ state.mapBlockIndex, Linked state pindex →
    (state.entry pindex).haveData = true ∧
      (pindex.tail ≠ [] → Linked state pindex.tail) ∧
      (state.entry pindex).nChainTx.toNat = chainTx state pindex % 2 ^ 32
  unlinked : ∀ pindex ∈ state.mapBlockIndex, ¬ Linked state pindex →
    (state.entry pindex).nSequenceId = 0

/-- `mapBlocksUnlinked` has exactly what waits, apart from some entries. -/
structure Waits (state : ChainState) (queue : List Branch) : Prop where
  nodup : state.mapBlocksUnlinked.Nodup
  waiting : ∀ pprev pindex, (pprev, pindex) ∈ state.mapBlocksUnlinked ↔
    pindex ∈ state.mapBlockIndex ∧ pprev = pindex.tail ∧ pprev ≠ [] ∧
      (state.entry pindex).haveData = true ∧ ¬ Linked state pindex ∧
      pindex ∉ queue
  behind : ∀ pindex ∈ state.mapBlockIndex,
    (state.entry pindex).haveData = true → ¬ Linked state pindex →
    pindex ∉ queue → pindex.tail ≠ [] ∧ ¬ Linked state pindex.tail

/-- Between two calls nothing is in the queue. -/
structure Data (state : ChainState) : Prop where
  filled : Filled state
  waits : Waits state []

/-! ## Validity -/

structure Levels (state : ChainState) : Prop where
  tree : ∀ pindex ∈ state.mapBlockIndex,
    blockValidTree ≤ (state.entry pindex).validity
  transactions : ∀ pindex ∈ state.mapBlockIndex,
    blockValidTransactions ≤ (state.entry pindex).validity ↔
      (state.entry pindex).nTx ≠ 0
  scripts : ∀ pindex ∈ state.mapBlockIndex,
    blockValidChain ≤ (state.entry pindex).validity →
    blockValidScripts ≤ (state.entry pindex).validity ∧
      (pindex.tail.tail ≠ [] →
        blockValidScripts ≤ (state.entry pindex.tail).validity)

theorem Levels.congr (levels : Levels state)
    (mapBlockIndex : state'.mapBlockIndex = state.mapBlockIndex)
    (validity : ∀ pindex, (state'.entry pindex).validity =
      (state.entry pindex).validity)
    (nTx : ∀ pindex, (state'.entry pindex).nTx = (state.entry pindex).nTx) :
    Levels state' := by
  constructor <;> rw [mapBlockIndex]
  · intro pindex member
    rw [validity]
    exact levels.tree pindex member
  · intro pindex member
    rw [validity, nTx]
    exact levels.transactions pindex member
  · intro pindex member
    rw [validity, validity]
    exact levels.scripts pindex member

theorem Linked.congr (same : SameCore state state') (pindex : Branch) :
    Linked state' pindex ↔ Linked state pindex := by
  unfold Linked
  rw [same.nChainTx]

theorem chainTx_congr (nTx : ∀ pindex, (state'.entry pindex).nTx =
    (state.entry pindex).nTx) (pindex : Branch) :
    chainTx state' pindex = chainTx state pindex := by
  induction pindex with
  | nil => rfl
  | cons block pprev ih => rw [chainTx, chainTx, ih, nTx]

theorem Filled.same (filled : Filled state) (same : SameCore state state') :
    Filled state' := by
  constructor <;> rw [same.mapBlockIndex]
  · intro pindex member
    rw [same.haveData, same.nTx]
    exact filled.received pindex member
  · intro pindex member linked
    rw [same.haveData, Linked.congr same, same.nChainTx, chainTx_congr same.nTx]
    exact filled.linked pindex member ((Linked.congr same pindex).mp linked)
  · intro pindex member unlinked
    rw [same.nSequenceId]
    exact filled.unlinked pindex member
      fun linked => unlinked ((Linked.congr same pindex).mpr linked)

theorem Waits.same {queue : List Branch} (waits : Waits state queue)
    (same : SameCore state state') : Waits state' queue := by
  constructor
  · rw [same.mapBlocksUnlinked]
    exact waits.nodup
  · intro pprev pindex
    rw [same.mapBlocksUnlinked, same.mapBlockIndex, same.haveData,
      Linked.congr same]
    exact waits.waiting pprev pindex
  · rw [same.mapBlockIndex]
    intro pindex member
    rw [same.haveData, Linked.congr same, Linked.congr same]
    exact waits.behind pindex member

theorem Data.same (data : Data state) (same : SameCore state state') :
    Data state' :=
  ⟨data.filled.same same, data.waits.same same⟩

/-- The ancestors of a linked entry are linked. -/
theorem Filled.suffix (filled : Filled state) (tree : Tree genesis state)
    (member : pindex ∈ state.mapBlockIndex) (linked : Linked state pindex)
    (suffix : other <:+ pindex) (nonempty : other ≠ []) :
    Linked state other := by
  induction pindex with
  | nil => exact absurd (List.suffix_nil.mp suffix) nonempty
  | cons block pprev ih =>
      rcases List.suffix_cons_iff.mp suffix with rfl | within
      · exact linked
      · have behind : pprev ≠ [] := by
          rintro rfl
          exact nonempty (List.suffix_nil.mp within)
        exact ih (tree.pprev _ member behind)
          ((filled.linked _ member linked).2.1 behind) within

/-! ## Linking -/

/-- One entry of the queue is linked. -/
def linkOne (pindex : Branch) (state : ChainState) : ChainState :=
  eraseUnlinkedAfter pindex (offer pindex (fillChain pindex state))

theorem offer_entry (pindex : Branch) (state : ChainState) :
    (offer pindex state).entry = state.entry ∧
      (offer pindex state).mapBlockIndex = state.mapBlockIndex ∧
      (offer pindex state).chainActive = state.chainActive := by
  unfold offer
  split_ifs
  · exact ⟨rfl, rfl, rfl⟩
  · exact ⟨rfl, rfl, rfl⟩

/-- What linking changes. -/
structure LinkedOne (pindex : Branch) (state state' : ChainState) :
    Prop where
  mapBlockIndex : state'.mapBlockIndex = state.mapBlockIndex
  chainActive : state'.chainActive = state.chainActive
  mapBlocksUnlinked : state'.mapBlocksUnlinked =
    state.mapBlocksUnlinked.filter fun pair => ¬ pair.1 = pindex
  self : state'.entry pindex = { state.entry pindex with
    nChainTx :=
      (if pindex.tail = [] then 0
        else (state.entry pindex.tail).nChainTx) +
      (state.entry pindex).nTx
    nSequenceId := state.nBlockSequenceId }
  others : ∀ other, other ≠ pindex → state'.entry other = state.entry other

theorem linkOne_spec (pindex : Branch) (state : ChainState) :
    LinkedOne pindex state (linkOne pindex state) := by
  obtain ⟨entry, mapBlockIndex, chainActive⟩ :=
    offer_entry pindex (fillChain pindex state)
  constructor
  · exact mapBlockIndex
  · exact chainActive
  · exact eraseUnlinkedAfter_offer pindex state
  · refine (congrFun entry pindex).trans ?_
    exact Function.update_self ..
  · intro other apart
    refine (congrFun entry other).trans ?_
    exact Function.update_of_ne apart _ _

/-- A field that linking leaves alone. -/
theorem LinkedOne.field (linked : LinkedOne pindex state state') {α : Type}
    (read : CBlockIndex → α)
    (stays : ∀ entry nChainTx nSequenceId,
      read { entry with nChainTx, nSequenceId } = read entry)
    (other : Branch) :
    read (state'.entry other) = read (state.entry other) := by
  by_cases same : other = pindex
  · rw [same, linked.self, stays]
  · rw [linked.others other same]

theorem LinkedOne.sameTree (linked : LinkedOne pindex state state') :
    SameTree state state' :=
  ⟨linked.mapBlockIndex, linked.field headerPart fun _ _ _ => rfl⟩

theorem LinkedOne.chainTx (linked : LinkedOne pindex state state')
    (other : Branch) : chainTx state' other = chainTx state other :=
  chainTx_congr (linked.field CBlockIndex.nTx fun _ _ _ => rfl) other

/-- The queue of `ReceivedBlockTransactions`, which begins with one block. -/
structure Queue (start : Branch) (state : ChainState) (queue : List Branch) :
    Prop where
  filled : Filled state
  waits : Waits state queue
  nodup : queue.Nodup
  ready : ∀ pindex ∈ queue, pindex ∈ state.mapBlockIndex ∧
    (state.entry pindex).haveData = true ∧ ¬ Linked state pindex ∧
    (pindex.tail ≠ [] → Linked state pindex.tail)
  starts : ∀ pindex ∈ queue, start <:+ pindex
  counted : ∀ pindex ∈ state.mapBlockIndex, start <:+ pindex →
    Received state pindex → chainTx state pindex % 2 ^ 32 ≠ 0

section LinkOne

variable {start : Branch} {queue : List Branch}

theorem Queue.received (inv : Queue start state (pindex :: queue))
    (tree : Tree genesis state) : Received state pindex := by
  obtain ⟨member, haveData, _, behind⟩ :=
    inv.ready pindex List.mem_cons_self
  cases pindex with
  | nil => exact absurd member tree.nonempty
  | cons block pprev =>
      intro ancestor suffix nonempty
      rcases List.suffix_cons_iff.mp suffix with rfl | within
      · exact haveData
      · have more : pprev ≠ [] := by
          rintro rfl
          exact nonempty (List.suffix_nil.mp within)
        have parent := tree.pprev _ member more
        have linked := inv.filled.suffix tree parent (behind more) within
          nonempty
        exact (inv.filled.linked ancestor (tree.suffix parent within
          nonempty) linked).1

/-- The number of transactions is no multiple of the word size. -/
theorem Queue.nChainTx (inv : Queue start state (pindex :: queue))
    (tree : Tree genesis state)
    (linked : LinkedOne pindex state state') :
    (state'.entry pindex).nChainTx.toNat = chainTx state pindex % 2 ^ 32 ∧
      Linked state' pindex := by
  obtain ⟨member, haveData, _, behind⟩ :=
    inv.ready pindex List.mem_cons_self
  have total : (state'.entry pindex).nChainTx.toNat =
      chainTx state pindex % 2 ^ 32 := by
    rw [linked.self]
    dsimp only
    cases pindex with
    | nil => exact absurd member tree.nonempty
    | cons block pprev =>
        rw [chainTx]
        rw [List.tail_cons] at behind ⊢
        split_ifs with first
        · have small := (state.entry (block :: pprev)).nTx.toNat_lt
          rw [first, chainTx, UInt32.zero_add, Nat.zero_add, ← first,
            Nat.mod_eq_of_lt small]
        · have parent := tree.pprev _ member first
          have count := (inv.filled.linked pprev parent
            (behind first)).2.2
          rw [UInt32.toNat_add, count, Nat.mod_add_mod]
  refine ⟨total, ?_⟩
  unfold Linked
  intro none
  rw [none, UInt32.toNat_zero] at total
  exact inv.counted pindex member (inv.starts pindex List.mem_cons_self)
    (inv.received tree) total.symm

/-- One entry more is linked. -/
theorem LinkedOne.linked_iff (inv : Queue start state (pindex :: queue))
    (tree : Tree genesis state) (linked : LinkedOne pindex state state')
    (other : Branch) :
    Linked state' other ↔ Linked state other ∨ other = pindex := by
  by_cases same : other = pindex
  · rw [same]
    exact iff_of_true (inv.nChainTx tree linked).2 (.inr rfl)
  · unfold Linked
    rw [linked.others other same, or_iff_left same]

theorem mem_unlinkedAfter :
    other ∈ unlinkedAfter pindex state ↔
      (pindex, other) ∈ state.mapBlocksUnlinked := by
  unfold unlinkedAfter
  rw [List.mem_map]
  constructor
  · rintro ⟨⟨pprev, later⟩, member, rfl⟩
    obtain ⟨member, same⟩ := List.mem_filter.mp member
    rw [← of_decide_eq_true same]
    exact member
  · intro member
    exact ⟨(pindex, other), List.mem_filter.mpr
      ⟨member, decide_eq_true rfl⟩, rfl⟩

theorem nodup_unlinkedAfter (nodup : state.mapBlocksUnlinked.Nodup) :
    (unlinkedAfter pindex state).Nodup := by
  refine List.Nodup.map_on ?_ (nodup.filter _)
  rintro ⟨pprev, left⟩ member ⟨pprev', right⟩ member' same
  have first := of_decide_eq_true (List.mem_filter.mp member).2
  have second := of_decide_eq_true (List.mem_filter.mp member').2
  exact Prod.ext (first.trans second.symm) same

theorem Queue.filled_step (inv : Queue start state (pindex :: queue))
    (tree : Tree genesis state) (linked : LinkedOne pindex state state') :
    Filled state' := by
  obtain ⟨member, haveData, _, behind⟩ :=
    inv.ready pindex List.mem_cons_self
  constructor <;> rw [linked.mapBlockIndex]
  · intro other member
    rw [linked.field CBlockIndex.haveData fun _ _ _ => rfl,
      linked.field CBlockIndex.nTx fun _ _ _ => rfl]
    exact inv.filled.received other member
  · intro other member isLinked
    rw [linked.field CBlockIndex.haveData fun _ _ _ => rfl, linked.chainTx,
      linked.linked_iff inv tree]
    rcases (linked.linked_iff inv tree other).mp isLinked with before | rfl
    · obtain ⟨haveData, parent, count⟩ :=
        inv.filled.linked other member before
      refine ⟨haveData, fun more => .inl (parent more), ?_⟩
      have apart : other ≠ pindex := by
        rintro rfl
        exact (inv.ready other List.mem_cons_self).2.2.1 before
      rw [linked.others other apart]
      exact count
    · exact ⟨haveData, fun more => .inl (behind more),
        (inv.nChainTx tree linked).1⟩
  · intro other member unlinked
    have before := mt (linked.linked_iff inv tree other).mpr unlinked
    rw [not_or] at before
    rw [linked.others other before.2]
    exact inv.filled.unlinked other member before.1

theorem Queue.waits_step (inv : Queue start state (pindex :: queue))
    (tree : Tree genesis state) (linked : LinkedOne pindex state state') :
    Waits state' (queue ++ unlinkedAfter pindex state) := by
  have waiting := inv.waits.waiting
  constructor
  · rw [linked.mapBlocksUnlinked]
    exact inv.waits.nodup.filter _
  · intro pprev other
    rw [linked.mapBlocksUnlinked, List.mem_filter, waiting,
      linked.mapBlockIndex, linked.field CBlockIndex.haveData
        fun _ _ _ => rfl, linked.linked_iff inv tree, List.mem_append,
      mem_unlinkedAfter, List.mem_cons, decide_eq_true_eq, waiting]
    constructor
    · rintro ⟨⟨member, rfl, behind, haveData, unlinked, outside⟩, apart⟩
      rw [not_or] at outside
      refine ⟨member, rfl, behind, haveData, ?_, ?_⟩
      · exact not_or.mpr ⟨unlinked, outside.1⟩
      · refine not_or.mpr ⟨outside.2, ?_⟩
        rintro ⟨_, same, _⟩
        exact apart same.symm
    · rintro ⟨member, rfl, behind, haveData, unlinked, outside⟩
      rw [not_or] at unlinked outside
      have away : ¬ (other = pindex ∨ other ∈ queue) :=
        not_or.mpr ⟨unlinked.2, outside.1⟩
      refine ⟨⟨member, rfl, behind, haveData, unlinked.1, away⟩, ?_⟩
      rintro rfl
      refine outside.2 ⟨member, rfl, behind, haveData, unlinked.1, ?_⟩
      rw [List.mem_cons]
      exact away
  · rw [linked.mapBlockIndex]
    intro other member
    rw [linked.field CBlockIndex.haveData fun _ _ _ => rfl,
      linked.linked_iff inv tree, linked.linked_iff inv tree,
      List.mem_append, mem_unlinkedAfter, waiting]
    intro haveData unlinked outside
    rw [not_or] at unlinked outside
    have away : other ∉ pindex :: queue := by
      rw [List.mem_cons]
      exact not_or.mpr ⟨unlinked.2, outside.1⟩
    obtain ⟨behind, parent⟩ :=
      inv.waits.behind other member haveData unlinked.1 away
    refine ⟨behind, not_or.mpr ⟨parent, ?_⟩⟩
    intro same
    exact outside.2 ⟨member, same.symm, same ▸ behind, haveData,
      unlinked.1, away⟩

theorem Queue.step (inv : Queue start state (pindex :: queue))
    (tree : Tree genesis state) (linked : LinkedOne pindex state state') :
    Queue start state' (queue ++ unlinkedAfter pindex state) := by
  obtain ⟨first, nodup⟩ := List.nodup_cons.mp inv.nodup
  have waiting := inv.waits.waiting
  refine ⟨inv.filled_step tree linked, inv.waits_step tree linked,
    ?_, ?_, ?_, ?_⟩
  · refine nodup.append (nodup_unlinkedAfter inv.waits.nodup) ?_
    intro other here there
    have waits := (waiting pindex other).mp (mem_unlinkedAfter.mp there)
    exact waits.2.2.2.2.2 (List.mem_cons_of_mem _ here)
  · intro other member
    rw [linked.mapBlockIndex, linked.field CBlockIndex.haveData
      fun _ _ _ => rfl, linked.linked_iff inv tree,
      linked.linked_iff inv tree]
    rcases List.mem_append.mp member with here | there
    · obtain ⟨member, haveData, unlinked, behind⟩ :=
        inv.ready other (List.mem_cons_of_mem _ here)
      refine ⟨member, haveData, not_or.mpr ⟨unlinked, ?_⟩,
        fun more => .inl (behind more)⟩
      rintro rfl
      exact first here
    · obtain ⟨member, same, _, haveData, unlinked, outside⟩ :=
        (waiting pindex other).mp (mem_unlinkedAfter.mp there)
      refine ⟨member, haveData, not_or.mpr ⟨unlinked, ?_⟩,
        fun _ => .inr same.symm⟩
      rintro rfl
      exact outside List.mem_cons_self
  · intro other member
    rcases List.mem_append.mp member with here | there
    · exact inv.starts other (List.mem_cons_of_mem _ here)
    · have waits := (waiting pindex other).mp (mem_unlinkedAfter.mp there)
      have before := inv.starts pindex List.mem_cons_self
      rw [waits.2.1] at before
      exact before.trans (List.tail_suffix other)
  · rw [linked.mapBlockIndex]
    intro other
    unfold Received
    rw [linked.chainTx]
    simp only [linked.field CBlockIndex.haveData fun _ _ _ => rfl]
    exact inv.counted other

/-- What each step of the loop keeps holds at its end. -/
theorem linkQueue_run {property : ChainState → Prop}
    (step : ∀ pindex queue state, Tree genesis state →
      Queue start state (pindex :: queue) → property state →
      property (linkOne pindex state))
    (tree : Tree genesis state) (inv : Queue start state queue)
    (holds : property state) :
    property (linkQueue queue state) ∧ Data (linkQueue queue state) ∧
      Tree genesis (linkQueue queue state) := by
  induction queue, state using linkQueue.induct with
  | case1 state =>
      rw [linkQueue]
      exact ⟨holds, ⟨inv.filled, inv.waits⟩, tree⟩
  | case2 pindex queue state ih =>
      rw [linkQueue]
      have linked := linkOne_spec pindex state
      exact ih (tree.same linked.sameTree) (inv.step tree linked)
        (step pindex queue state tree inv holds)

end LinkOne

/-! ## The arrival of a block -/

section Arrival

variable {nTx : UInt32}

/-- The data of a block may arrive: they are new, no flag keeps them from being
counted, and no complete chain gets a multiple of `2 ^ 32` transactions. -/
structure MayArrive (state : ChainState) (pindex : Branch) (nTx : UInt32) :
    Prop where
  member : pindex ∈ state.mapBlockIndex
  new : (state.entry pindex).haveData = false
  some : nTx ≠ 0
  valid : (state.entry pindex).failed = false
  parent : Linked state pindex.tail ∨
    (state.entry pindex.tail).failed = false
  counted : ∀ other ∈ state.mapBlockIndex, pindex <:+ other →
    (∀ ancestor, ancestor <:+ other → ancestor ≠ [] → ancestor ≠ pindex →
      (state.entry ancestor).haveData = true) →
    (chainTx state other + nTx.toNat) % 2 ^ 32 ≠ 0

/-- The entry with its data, before it is linked. -/
def arrived (nTx : UInt32) (pindex : Branch) (state : ChainState) :
    ChainState :=
  state.modify pindex (·.receive nTx)

theorem entry_arrived (levels : Levels state) (data : Data state)
    (may : MayArrive state pindex nTx) :
    (state.entry pindex).nTx = 0 ∧ ¬ Linked state pindex ∧
      (arrived nTx pindex state).entry pindex =
        { state.entry pindex with
          nTx := nTx, haveData := true,
          validity := blockValidTransactions } := by
  have member := may.member
  have none : (state.entry pindex).nTx = 0 := by
    by_contra some
    have haveData := (data.filled.received pindex member).mpr some
    rw [may.new] at haveData
    cases haveData
  have unlinked : ¬ Linked state pindex := by
    intro linked
    have haveData := (data.filled.linked pindex member linked).1
    rw [may.new] at haveData
    cases haveData
  have low : (state.entry pindex).validity < blockValidTransactions := by
    by_contra high
    exact (levels.transactions pindex member).mp (not_lt.mp high) none
  refine ⟨none, unlinked, ?_⟩
  have zero : (state.entry pindex).nChainTx = 0 := not_not.mp unlinked
  have valid := may.valid
  unfold arrived ChainState.modify CBlockIndex.receive
    CBlockIndex.raiseValidity
  dsimp only
  rw [Function.update_self]
  unfold CBlockIndex.failed at valid ⊢
  dsimp only
  rw [valid, if_neg Bool.false_ne_true, if_pos low, ← zero]

theorem entry_arrived_of_ne (apart : other ≠ pindex) :
    (arrived nTx pindex state).entry other = state.entry other :=
  Function.update_of_ne apart _ _

theorem linked_arrived (levels : Levels state) (data : Data state)
    (may : MayArrive state pindex nTx) (other : Branch) :
    Linked (arrived nTx pindex state) other ↔ Linked state other := by
  unfold Linked
  by_cases same : other = pindex
  · rw [same, (entry_arrived levels data may).2.2]
  · rw [entry_arrived_of_ne same]

theorem chainTx_arrived (levels : Levels state) (data : Data state)
    (may : MayArrive state pindex nTx) (nonempty : pindex ≠ [])
    (other : Branch) :
    chainTx (arrived nTx pindex state) other =
      chainTx state other + if pindex <:+ other then nTx.toNat else 0 := by
  induction other with
  | nil =>
      rw [if_neg fun suffix => nonempty (List.suffix_nil.mp suffix)]
      rfl
  | cons block pprev ih =>
      obtain ⟨none, _, self⟩ := entry_arrived levels data may
      rw [chainTx, chainTx, ih]
      by_cases same : pindex = block :: pprev
      · rw [← same, self, none, if_pos List.suffix_rfl, if_neg]
        · simp
        · rw [same]
          intro suffix
          have short := suffix.length_le
          rw [List.length_cons] at short
          omega
      · rw [entry_arrived_of_ne (Ne.symm same)]
        have iff : pindex <:+ block :: pprev ↔ pindex <:+ pprev := by
          rw [List.suffix_cons_iff, or_iff_right same]
        rw [if_congr iff rfl rfl]
        omega

/-- A linked entry does not come after the block. -/
theorem not_suffix_of_linked (tree : Tree genesis state) (data : Data state)
    (levels : Levels state) (may : MayArrive state pindex nTx)
    (member : other ∈ state.mapBlockIndex) (linked : Linked state other) :
    ¬ pindex <:+ other := by
  intro suffix
  exact (entry_arrived levels data may).2.1 (data.filled.suffix tree member
    linked suffix (tree.ne_nil may.member))

theorem filled_arrived (tree : Tree genesis state) (levels : Levels state)
    (data : Data state) (may : MayArrive state pindex nTx) :
    Filled (arrived nTx pindex state) := by
  obtain ⟨_, unlinked, self⟩ := entry_arrived levels data may
  have linked_iff := linked_arrived levels data may
  constructor
  · intro other member
    by_cases same : other = pindex
    · rw [same, self]
      exact iff_of_true rfl may.some
    · rw [entry_arrived_of_ne same]
      exact data.filled.received other member
  · intro other member linked
    rw [linked_iff] at linked ⊢
    have apart : other ≠ pindex := by
      rintro rfl
      exact unlinked linked
    rw [entry_arrived_of_ne apart, chainTx_arrived levels data may
      (tree.ne_nil may.member), if_neg (not_suffix_of_linked tree data
        levels may member linked)]
    exact data.filled.linked other member linked
  · intro other member notLinked
    rw [linked_iff] at notLinked
    have before := data.filled.unlinked other member notLinked
    by_cases same : other = pindex
    · rw [same, self]
      rw [same] at before
      exact before
    · rw [entry_arrived_of_ne same]
      exact before

/-- The block is in the queue. -/
theorem waits_arrived (levels : Levels state) (data : Data state)
    (may : MayArrive state pindex nTx) :
    Waits (arrived nTx pindex state) [pindex] := by
  have linked_iff := linked_arrived levels data may
  have others : ∀ other, other ≠ pindex →
      (arrived nTx pindex state).entry other = state.entry other :=
    fun other => entry_arrived_of_ne
  constructor
  · exact data.waits.nodup
  · intro pprev other
    rw [linked_iff, List.mem_singleton]
    by_cases same : other = pindex
    · refine iff_of_false ?_ fun ⟨_, _, _, _, _, apart⟩ => apart same
      intro waiting
      have haveData := ((data.waits.waiting pprev other).mp waiting).2.2.2.1
      rw [same, may.new] at haveData
      cases haveData
    · rw [others other same]
      refine (data.waits.waiting pprev other).trans ?_
      simp [same, arrived, ChainState.modify]
  · intro other member haveData unlinked outside
    rw [linked_iff] at unlinked ⊢
    rw [List.mem_singleton] at outside
    rw [others other outside] at haveData
    exact data.waits.behind other member haveData unlinked
      List.not_mem_nil

theorem levels_arrived (levels : Levels state) (data : Data state)
    (may : MayArrive state pindex nTx) :
    Levels (arrived nTx pindex state) := by
  obtain ⟨none, _, self⟩ := entry_arrived levels data may
  constructor
  · intro other member
    by_cases same : other = pindex
    · rw [same, self]
      change blockValidTree ≤ blockValidTransactions
      decide
    · rw [entry_arrived_of_ne same]
      exact levels.tree other member
  · intro other member
    by_cases same : other = pindex
    · rw [same, self]
      exact iff_of_true le_rfl may.some
    · rw [entry_arrived_of_ne same]
      exact levels.transactions other member
  · intro other member
    by_cases same : other = pindex
    · rw [same, self]
      intro (high : blockValidChain ≤ blockValidTransactions)
      exact absurd high (by decide)
    · rw [entry_arrived_of_ne same]
      intro high
      obtain ⟨scripts, parent⟩ := levels.scripts other member high
      refine ⟨scripts, fun behind => ?_⟩
      have valid := parent behind
      by_cases above : other.tail = pindex
      · rw [above] at valid
        have transactions : blockValidTransactions ≤
            (state.entry pindex).validity :=
          le_trans (by decide) valid
        exact absurd none
          ((levels.transactions pindex may.member).mp transactions)
      · rw [entry_arrived_of_ne above]
        exact valid

theorem sameTree_arrived (levels : Levels state) (data : Data state)
    (may : MayArrive state pindex nTx) :
    SameTree state (arrived nTx pindex state) := by
  refine ⟨rfl, fun other => ?_⟩
  by_cases same : other = pindex
  · rw [same, (entry_arrived levels data may).2.2]
    rfl
  · rw [entry_arrived_of_ne same]

theorem queue_arrived (tree : Tree genesis state) (levels : Levels state)
    (data : Data state) (may : MayArrive state pindex nTx)
    (parent : pindex.tail ≠ [] → Linked state pindex.tail) :
    Queue pindex (arrived nTx pindex state) [pindex] := by
  obtain ⟨_, unlinked, self⟩ := entry_arrived levels data may
  refine ⟨filled_arrived tree levels data may, waits_arrived levels data may,
    List.nodup_singleton _, ?_, ?_, ?_⟩
  · intro other here
    rw [List.mem_singleton.mp here, linked_arrived levels data may,
      linked_arrived levels data may, self]
    exact ⟨may.member, rfl, unlinked, parent⟩
  · intro other here
    rw [List.mem_singleton.mp here]
  · intro other member suffix received
    rw [chainTx_arrived levels data may (tree.ne_nil may.member),
      if_pos suffix]
    refine may.counted other member suffix ?_
    intro ancestor within nonempty apart
    have haveData := received ancestor within nonempty
    rw [entry_arrived_of_ne apart] at haveData
    exact haveData

/-- The block waits for the one before it. -/
def waiting (pindex : Branch) (state : ChainState) : ChainState :=
  { state with
    mapBlocksUnlinked :=
      state.mapBlocksUnlinked ++ [(pindex.tail, pindex)] }

theorem data_waiting (tree : Tree genesis state) (levels : Levels state)
    (data : Data state) (may : MayArrive state pindex nTx)
    (behind : pindex.tail ≠ []) (parent : ¬ Linked state pindex.tail) :
    Data (waiting pindex (arrived nTx pindex state)) := by
  obtain ⟨_, unlinked, self⟩ := entry_arrived levels data may
  have linked_iff := linked_arrived levels data may
  have filled := filled_arrived tree levels data may
  have waits := waits_arrived levels data may
  have haveData : ((arrived nTx pindex state).entry pindex).haveData =
      true := by
    rw [self]
  refine ⟨⟨filled.received, ?_, filled.unlinked⟩, ?_, ?_, ?_⟩
  · intro other member linked
    have count : chainTx (waiting pindex (arrived nTx pindex state)) other =
        chainTx (arrived nTx pindex state) other := by
      refine chainTx_congr ?_ other
      exact fun _ => rfl
    rw [count]
    exact filled.linked other member linked
  · refine waits.nodup.append (List.nodup_singleton _) ?_
    intro pair here there
    rw [List.mem_singleton.mp there] at here
    have outside := ((waits.waiting _ _).mp here).2.2.2.2.2
    exact outside (List.mem_singleton.mpr rfl)
  · intro pprev other
    change (pprev, other) ∈ _ ++ _ ↔ other ∈ state.mapBlockIndex ∧ _ ∧ _ ∧
      ((arrived nTx pindex state).entry other).haveData = true ∧
      ¬ Linked (arrived nTx pindex state) other ∧ _
    rw [List.mem_append, waits.waiting, List.mem_singleton,
      List.mem_singleton, Prod.mk.injEq]
    by_cases same : other = pindex
    · rw [same, haveData, linked_iff]
      constructor
      · rintro (⟨_, _, _, _, _, outside⟩ | ⟨rfl, _⟩)
        · exact absurd rfl outside
        · exact ⟨may.member, rfl, behind, rfl, unlinked, List.not_mem_nil⟩
      · rintro ⟨_, tail, _⟩
        exact .inr ⟨tail, rfl⟩
    · rw [or_iff_left fun new => same new.2]
      simp [same, arrived, ChainState.modify]
  · intro other member haveData notLinked _
    have notLinked : ¬ Linked (arrived nTx pindex state) other := notLinked
    change _ ∧ ¬ Linked (arrived nTx pindex state) other.tail
    by_cases same : other = pindex
    · rw [same, linked_iff]
      exact ⟨behind, parent⟩
    · refine waits.behind other member haveData notLinked ?_
      rw [List.mem_singleton]
      exact same

theorem nChainTx_arrived_tail (tree : Tree genesis state)
    (may : MayArrive state pindex nTx) :
    (arrived nTx pindex state).entry pindex.tail =
      state.entry pindex.tail := by
  refine entry_arrived_of_ne ?_
  intro same
  have short := congrArg List.length same
  have positive := List.length_pos_of_ne_nil (tree.ne_nil may.member)
  rw [List.length_tail] at short
  omega

theorem received_of_linked (tree : Tree genesis state)
    (may : MayArrive state pindex nTx)
    (ready : pindex.tail = [] ∨ Linked state pindex.tail) :
    receivedBlockTransactions nTx pindex state =
      linkQueue [pindex] (arrived nTx pindex state) := by
  unfold Linked at ready
  rw [← nChainTx_arrived_tail tree may] at ready
  unfold receivedBlockTransactions
  exact if_pos ready

theorem received_of_unlinked (tree : Tree genesis state)
    (levels : Levels state) (may : MayArrive state pindex nTx)
    (behind : pindex.tail ≠ []) (parent : ¬ Linked state pindex.tail) :
    receivedBlockTransactions nTx pindex state =
      waiting pindex (arrived nTx pindex state) := by
  have same := nChainTx_arrived_tail tree may
  have valid : ((arrived nTx pindex state).entry pindex.tail).isValid
      blockValidTree := by
    have level := levels.tree _ (tree.pprev pindex may.member behind)
    have unflagged := may.parent.resolve_left parent
    rw [same]
    unfold CBlockIndex.isValid
    rw [unflagged]
    exact decide_eq_true level
  unfold Linked at parent
  rw [← same] at parent
  unfold receivedBlockTransactions
  exact (if_neg (not_or.mpr ⟨behind, parent⟩)).trans (if_pos valid)

/-- What the arrival and each link keep holds in the end. -/
theorem received_run {property : ChainState → Prop}
    (tree : Tree genesis state) (levels : Levels state) (data : Data state)
    (may : MayArrive state pindex nTx)
    (arrives : property (arrived nTx pindex state))
    (waits : property (arrived nTx pindex state) →
      property (waiting pindex (arrived nTx pindex state)))
    (step : ∀ other queue middle, Tree genesis middle →
      Queue pindex middle (other :: queue) → property middle →
      property (linkOne other middle)) :
    property (receivedBlockTransactions nTx pindex state) ∧
      Data (receivedBlockTransactions nTx pindex state) ∧
      Tree genesis (receivedBlockTransactions nTx pindex state) := by
  have grown := tree.same (sameTree_arrived levels data may)
  by_cases ready : pindex.tail = [] ∨ Linked state pindex.tail
  · rw [received_of_linked tree may ready]
    exact linkQueue_run step grown (queue_arrived tree levels data may
      fun behind => ready.resolve_left behind) arrives
  · obtain ⟨behind, parent⟩ := not_or.mp ready
    rw [received_of_unlinked tree levels may behind parent]
    exact ⟨waits arrives, data_waiting tree levels data may behind parent,
      grown.same ⟨rfl, fun _ => rfl⟩⟩

end Arrival

end PrivateDatagram.Chainstate.BlockIndexData
