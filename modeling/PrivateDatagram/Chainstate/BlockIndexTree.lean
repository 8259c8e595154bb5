import Mathlib.Data.Prod.Lex
import PrivateDatagram.Chainstate.BlockIndex

/-!
# The tree of entries

What does not change once an entry is there: its ancestors, the skip pointers
over them, and the growing chain work.
-/

namespace PrivateDatagram.Chainstate.BlockIndexTree

open Wire.Serialize Library.ForkPoint BlockIndex
open Chainstate.ActiveChain (CBlockHeader getBlockProof)

variable {genesis : CBlockHeader} {state state' : ChainState}
  {pindex other : Branch}

/-! ## The order -/

/-- More work first, then the earlier sequence id, then the lower address. -/
def rank (state : ChainState) (pindex : Branch) : ℕ ×ₗ ℕᵒᵈ ×ₗ ℕᵒᵈ :=
  let entry := state.entry pindex
  toLex (entry.nChainWork.toNat,
    toLex (.toDual entry.nSequenceId.toNat, .toDual entry.address))

theorem workComparator_iff (state : ChainState) (pa pb : Branch) :
    workComparator state pa pb ↔ rank state pa < rank state pb := by
  unfold workComparator rank
  dsimp only
  rw [Prod.Lex.toLex_lt_toLex, Prod.Lex.toLex_lt_toLex,
    OrderDual.toDual_lt_toDual, OrderDual.toDual_lt_toDual,
    OrderDual.toDual.injective.eq_iff]
  split_ifs with more less earlier later
  · rw [gt_iff_lt, BitVec.lt_def] at more
    simp only [false_iff]
    omega
  · rw [BitVec.lt_def] at less
    simp only [true_iff]
    exact .inl less
  · rw [gt_iff_lt, BitVec.lt_def] at more
    rw [BitVec.lt_def] at less
    rw [UInt32.lt_iff_toNat_lt] at earlier
    simp only [false_iff]
    omega
  · rw [gt_iff_lt, BitVec.lt_def] at more
    rw [BitVec.lt_def] at less
    rw [gt_iff_lt, UInt32.lt_iff_toNat_lt] at later
    simp only [true_iff]
    omega
  · rw [gt_iff_lt, BitVec.lt_def] at more
    rw [BitVec.lt_def] at less
    rw [UInt32.lt_iff_toNat_lt] at earlier
    rw [gt_iff_lt, UInt32.lt_iff_toNat_lt] at later
    rw [decide_eq_true_iff]
    omega

theorem rank_lt_of_work {pa pb : Branch}
    (less : (state.entry pa).nChainWork < (state.entry pb).nChainWork) :
    rank state pa < rank state pb := by
  rw [BitVec.lt_def] at less
  exact Prod.Lex.toLex_lt_toLex.mpr (.inl less)

theorem address_eq_of_rank {pa pb : Branch}
    (same : rank state pa = rank state pb) :
    (state.entry pa).address = (state.entry pb).address := by
  have inner := congrArg Prod.snd (toLex.injective same)
  have last := congrArg Prod.snd (toLex.injective inner)
  exact OrderDual.toDual.injective last

/-! ## Entries in the tree -/

structure Tree (genesis : CBlockHeader) (state : ChainState) : Prop where
  nodup : state.mapBlockIndex.Nodup
  nonempty : [] ∉ state.mapBlockIndex
  root : [genesis] ∈ state.mapBlockIndex
  first : ∀ pindex ∈ state.mapBlockIndex, pindex.tail = [] →
    pindex = [genesis]
  pprev : ∀ pindex ∈ state.mapBlockIndex, pindex.tail ≠ [] →
    pindex.tail ∈ state.mapBlockIndex
  nHeight : ∀ pindex ∈ state.mapBlockIndex,
    (state.entry pindex).nHeight + 1 = pindex.length
  pskip : ∀ pindex ∈ state.mapBlockIndex, pindex.tail ≠ [] →
    (state.entry pindex).pskip = pindex.drop
      (pindex.length - (getSkipHeight (state.entry pindex).nHeight + 1))
  nChainWork : ∀ pindex ∈ state.mapBlockIndex, pindex.tail ≠ [] →
    (state.entry pindex.tail).nChainWork < (state.entry pindex).nChainWork
  address : ∀ pindex ∈ state.mapBlockIndex, ∀ other ∈ state.mapBlockIndex,
    (state.entry pindex).address = (state.entry other).address →
    pindex = other

theorem Tree.ne_nil (tree : Tree genesis state)
    (member : pindex ∈ state.mapBlockIndex) : pindex ≠ [] := by
  rintro rfl
  exact tree.nonempty member

/-- The ancestors of an entry are there. -/
theorem Tree.suffix (tree : Tree genesis state)
    (member : pindex ∈ state.mapBlockIndex) (suffix : other <:+ pindex)
    (nonempty : other ≠ []) : other ∈ state.mapBlockIndex := by
  induction pindex with
  | nil => exact absurd (List.suffix_nil.mp suffix) nonempty
  | cons block pprev ih =>
      rcases List.suffix_cons_iff.mp suffix with rfl | within
      · exact member
      · refine ih (tree.pprev _ member ?_) within
        rintro (rfl : pprev = [])
        exact nonempty (List.suffix_nil.mp within)

/-- Every entry goes back to genesis. -/
theorem Tree.genesis_suffix (tree : Tree genesis state)
    (member : pindex ∈ state.mapBlockIndex) : [genesis] <:+ pindex := by
  induction pindex with
  | nil => exact absurd member tree.nonempty
  | cons block pprev ih =>
      by_cases first : pprev = []
      · rw [tree.first _ member first]
      · exact (ih (tree.pprev _ member first)).trans
          (List.suffix_cons block pprev)

/-- An ancestor has less work. -/
theorem Tree.work_lt (tree : Tree genesis state)
    (member : pindex ∈ state.mapBlockIndex) (suffix : other <:+ pindex)
    (nonempty : other ≠ []) (apart : other ≠ pindex) :
    (state.entry other).nChainWork < (state.entry pindex).nChainWork := by
  induction pindex with
  | nil => exact absurd (List.suffix_nil.mp suffix) apart
  | cons block pprev ih =>
      have within := (List.suffix_cons_iff.mp suffix).resolve_left apart
      have behind : pprev ≠ [] := by
        rintro rfl
        exact nonempty (List.suffix_nil.mp within)
      have step := tree.nChainWork _ member behind
      by_cases same : other = pprev
      · rw [same]
        exact step
      · exact BitVec.lt_trans
          (ih (tree.pprev _ member behind) within same) step

theorem Tree.rank_le (tree : Tree genesis state)
    (member : pindex ∈ state.mapBlockIndex) (suffix : other <:+ pindex)
    (nonempty : other ≠ []) : rank state other ≤ rank state pindex := by
  by_cases same : other = pindex
  · rw [same]
  · exact (rank_lt_of_work
      (tree.work_lt member suffix nonempty same)).le

/-- No two entries have the same rank. -/
theorem Tree.rank_injective (tree : Tree genesis state)
    (member : pindex ∈ state.mapBlockIndex)
    (member' : other ∈ state.mapBlockIndex)
    (same : rank state pindex = rank state other) : pindex = other :=
  tree.address pindex member other member' (address_eq_of_rank same)

/-! ## Skip pointers -/

/-- The ancestor at a height. -/
def ancestorAt (height : Nat) (pindex : Branch) : Branch :=
  pindex.drop (pindex.length - (height + 1))

theorem ancestorAt_suffix (height : Nat) (pindex : Branch) :
    ancestorAt height pindex <:+ pindex :=
  List.drop_suffix _ _

theorem length_ancestorAt {height : Nat} (bound : height < pindex.length) :
    (ancestorAt height pindex).length = height + 1 := by
  unfold ancestorAt
  rw [List.length_drop]
  omega

/-- A suffix with at least this height has the same ancestor. -/
theorem ancestorAt_of_suffix {height : Nat} (suffix : other <:+ pindex)
    (bound : height < other.length) :
    ancestorAt height other = ancestorAt height pindex := by
  refine List.IsSuffix.eq_of_length ?_ ?_
  · refine List.suffix_of_suffix_length_le
      ((ancestorAt_suffix height other).trans suffix)
      (ancestorAt_suffix height pindex) ?_
    rw [length_ancestorAt bound,
      length_ancestorAt (bound.trans_le suffix.length_le)]
  · rw [length_ancestorAt bound,
      length_ancestorAt (bound.trans_le suffix.length_le)]

theorem Tree.getAncestorLoop_eq (tree : Tree genesis state) {height : Nat}
    (heightWalk : Nat) (member : pindex ∈ state.mapBlockIndex)
    (at_height : pindex.length = heightWalk + 1)
    (bound : height ≤ heightWalk) :
    getAncestorLoop state height heightWalk pindex =
      ancestorAt height pindex := by
  induction heightWalk using Nat.strong_induction_on generalizing pindex with
  | h heightWalk ih =>
      rw [getAncestorLoop]
      split_ifs with arrived
      · have same : height = heightWalk := by omega
        unfold ancestorAt
        rw [at_height, same, Nat.sub_self, List.drop_zero]
      · have behind : pindex.tail ≠ [] := by
          intro none
          have short := congrArg List.length none
          rw [List.length_tail, at_height, List.length_nil] at short
          omega
        have positive : 0 < heightWalk := by omega
        dsimp only
        split_ifs with skips
        · have less := getSkipHeight_lt positive
          have reaches : height ≤ getSkipHeight heightWalk := by
            rcases skips with same | ⟨above, _⟩
            · exact same.ge
            · exact above.le
          have recorded : (state.entry pindex).nHeight = heightWalk := by
            have height := tree.nHeight pindex member
            omega
          have skip := tree.pskip pindex member behind
          rw [recorded] at skip
          change _ = ancestorAt (getSkipHeight heightWalk) pindex at skip
          have length : (ancestorAt (getSkipHeight heightWalk)
              pindex).length = getSkipHeight heightWalk + 1 :=
            length_ancestorAt (by omega)
          have nonempty : ancestorAt (getSkipHeight heightWalk)
              pindex ≠ [] := by
            intro none
            rw [none] at length
            cases length
          rw [skip, ih _ less (tree.suffix member
            (ancestorAt_suffix _ _) nonempty) length reaches]
          exact ancestorAt_of_suffix (ancestorAt_suffix _ _) (by omega)
        · have length : pindex.tail.length = heightWalk - 1 + 1 := by
            rw [List.length_tail, at_height]
            omega
          rw [ih _ (by omega) (tree.pprev pindex member behind) length
            (by omega)]
          exact ancestorAt_of_suffix (List.tail_suffix pindex) (by omega)

theorem Tree.getAncestor_eq (tree : Tree genesis state) {height : Nat}
    (member : pindex ∈ state.mapBlockIndex)
    (bound : height < pindex.length) :
    getAncestor state height pindex = ancestorAt height pindex := by
  have recorded := tree.nHeight pindex member
  unfold getAncestor
  dsimp only
  rw [if_neg (by omega)]
  exact tree.getAncestorLoop_eq _ member recorded.symm (by omega)

/-! ## Changes of other fields -/

/-- What an entry gets with its header. -/
def headerPart (entry : CBlockIndex) : CBlockIndex :=
  { CBlockIndex.null entry.address with
    pskip := entry.pskip, nHeight := entry.nHeight,
    nChainWork := entry.nChainWork }

/-- The entries are the same, with the same headers. -/
structure SameTree (state state' : ChainState) : Prop where
  mapBlockIndex : state'.mapBlockIndex = state.mapBlockIndex
  headers : ∀ pindex, headerPart (state'.entry pindex) =
    headerPart (state.entry pindex)

section SameTree

variable (same : SameTree state state') (pindex : Branch)
include same

theorem SameTree.address : (state'.entry pindex).address =
    (state.entry pindex).address :=
  (congrArg CBlockIndex.address (same.headers pindex) :)

theorem SameTree.pskip : (state'.entry pindex).pskip =
    (state.entry pindex).pskip :=
  (congrArg CBlockIndex.pskip (same.headers pindex) :)

theorem SameTree.nHeight : (state'.entry pindex).nHeight =
    (state.entry pindex).nHeight :=
  (congrArg CBlockIndex.nHeight (same.headers pindex) :)

theorem SameTree.nChainWork : (state'.entry pindex).nChainWork =
    (state.entry pindex).nChainWork :=
  (congrArg CBlockIndex.nChainWork (same.headers pindex) :)

end SameTree

theorem Tree.same (tree : Tree genesis state) (same : SameTree state state') :
    Tree genesis state' := by
  obtain ⟨nodup, nonempty, root, first, pprev, nHeight, pskip, nChainWork,
    address⟩ := tree
  constructor <;> rw [same.mapBlockIndex]
  · exact nodup
  · exact nonempty
  · exact root
  · exact first
  · exact pprev
  · intro pindex member
    rw [same.nHeight]
    exact nHeight pindex member
  · intro pindex member behind
    rw [same.pskip, same.nHeight]
    exact pskip pindex member behind
  · intro pindex member behind
    rw [same.nChainWork, same.nChainWork]
    exact nChainWork pindex member behind
  · intro pindex member other member' equal
    rw [same.address, same.address] at equal
    exact address pindex member other member' equal

/-- Everything but the validity and the flags. -/
def corePart (entry : CBlockIndex) : CBlockIndex :=
  { entry with validity := 0, failedValid := false, failedChild := false }

/-- Only validity, flags, candidates and the tip may differ. -/
structure SameCore (state state' : ChainState) : Prop where
  mapBlockIndex : state'.mapBlockIndex = state.mapBlockIndex
  mapBlocksUnlinked : state'.mapBlocksUnlinked = state.mapBlocksUnlinked
  core : ∀ pindex, corePart (state'.entry pindex) =
    corePart (state.entry pindex)

theorem SameCore.refl (state : ChainState) : SameCore state state :=
  ⟨rfl, rfl, fun _ => rfl⟩

theorem SameCore.trans {state'' : ChainState} (first : SameCore state state')
    (second : SameCore state' state'') : SameCore state state'' :=
  ⟨second.mapBlockIndex.trans first.mapBlockIndex,
    second.mapBlocksUnlinked.trans first.mapBlocksUnlinked,
    fun pindex => (second.core pindex).trans (first.core pindex)⟩

section SameCore

variable (same : SameCore state state')
include same

theorem SameCore.sameTree : SameTree state state' :=
  ⟨same.mapBlockIndex, fun pindex =>
    (congrArg headerPart (same.core pindex) :)⟩

variable (pindex : Branch)

theorem SameCore.nTx : (state'.entry pindex).nTx =
    (state.entry pindex).nTx :=
  (congrArg CBlockIndex.nTx (same.core pindex) :)

theorem SameCore.nChainTx : (state'.entry pindex).nChainTx =
    (state.entry pindex).nChainTx :=
  (congrArg CBlockIndex.nChainTx (same.core pindex) :)

theorem SameCore.nSequenceId : (state'.entry pindex).nSequenceId =
    (state.entry pindex).nSequenceId :=
  (congrArg CBlockIndex.nSequenceId (same.core pindex) :)

theorem SameCore.haveData : (state'.entry pindex).haveData =
    (state.entry pindex).haveData :=
  (congrArg CBlockIndex.haveData (same.core pindex) :)

theorem SameCore.rank : rank state' pindex = rank state pindex := by
  unfold BlockIndexTree.rank
  dsimp only
  rw [same.sameTree.nChainWork, same.nSequenceId, same.sameTree.address]

end SameCore

/-- A change of the validity or the flags of one entry. -/
theorem sameCore_modify (state : ChainState) (pindex : Branch)
    {change : CBlockIndex → CBlockIndex}
    (core : ∀ entry, corePart (change entry) = corePart entry) :
    SameCore state (state.modify pindex change) := by
  refine ⟨rfl, rfl, ?_⟩
  intro other
  unfold ChainState.modify
  dsimp only
  rw [Function.update_apply]
  split_ifs with same
  · rw [same, core]
  · rfl

/-! ## A new header -/

section NewHeader

variable {block : CBlockHeader} {address : Nat} {pprev : Branch}

theorem findBlock_mem {hash : UInt256} (found : findBlock hash state =
    some pindex) : pindex ∈ state.mapBlockIndex :=
  List.mem_of_find?_eq_some found

/-- A header that is not known yet. -/
theorem notMem_of_findBlock (unknown : findBlock block.hash state = none) :
    block :: pprev ∉ state.mapBlockIndex := by
  intro member
  have differs := List.find?_eq_none.mp unknown _ member
  simp at differs

theorem headerPart_newEntry (behind : pprev ≠ []) :
    (newEntry block pprev address state).raiseValidity blockValidTree =
      { CBlockIndex.null address with
        pskip := getAncestor state
          (getSkipHeight ((state.entry pprev).nHeight + 1)) pprev
        nHeight := (state.entry pprev).nHeight + 1
        nChainWork :=
          (state.entry pprev).nChainWork + getBlockProof block.nBits
        validity := blockValidTree } := by
  unfold newEntry
  rw [if_neg behind]
  rfl

/-- The state with an entry more. -/
def grown (block : CBlockHeader) (pprev : Branch) (address : Nat)
    (state : ChainState) : ChainState :=
  { state with
    mapBlockIndex := (block :: pprev) :: state.mapBlockIndex
    entry := Function.update state.entry (block :: pprev)
      ((newEntry block pprev address state).raiseValidity blockValidTree) }

theorem addToBlockIndex_eq (unknown : findBlock block.hash state = none)
    (known : findBlock block.hashPrevBlock state = some pprev) :
    addToBlockIndex block address state = grown block pprev address state := by
  unfold addToBlockIndex grown
  rw [unknown, known]
  rfl

theorem entry_grown_self : (grown block pprev address state).entry
    (block :: pprev) =
      (newEntry block pprev address state).raiseValidity blockValidTree :=
  Function.update_self ..

theorem entry_grown_of_ne (apart : pindex ≠ block :: pprev) :
    (grown block pprev address state).entry pindex = state.entry pindex :=
  Function.update_of_ne apart _ _

theorem entry_grown (new : block :: pprev ∉ state.mapBlockIndex)
    (member : pindex ∈ state.mapBlockIndex) :
    (grown block pprev address state).entry pindex = state.entry pindex := by
  refine entry_grown_of_ne ?_
  rintro rfl
  exact new member

theorem Tree.grow (tree : Tree genesis state)
    (new : block :: pprev ∉ state.mapBlockIndex)
    (known : pprev ∈ state.mapBlockIndex)
    (fresh : ∀ pindex ∈ state.mapBlockIndex,
      (state.entry pindex).address ≠ address)
    (work : (state.entry pprev).nChainWork <
      (state.entry pprev).nChainWork + getBlockProof block.nBits) :
    Tree genesis (grown block pprev address state) := by
  have behind := tree.ne_nil known
  have self : (grown block pprev address state).entry (block :: pprev) = _ :=
    entry_grown_self.trans (headerPart_newEntry behind)
  have height := tree.nHeight pprev known
  refine ⟨?_, ?_, ?_, ?_, ?_, ?_, ?_, ?_, ?_⟩
  · exact List.nodup_cons.mpr ⟨new, tree.nodup⟩
  · intro member
    rcases List.mem_cons.mp member with same | member
    · cases same
    · exact tree.nonempty member
  · exact List.mem_cons_of_mem _ tree.root
  · intro pindex member first
    rcases List.mem_cons.mp member with rfl | member
    · exact absurd first behind
    · exact tree.first pindex member first
  · intro pindex member more
    rcases List.mem_cons.mp member with rfl | member
    · exact List.mem_cons_of_mem _ known
    · exact List.mem_cons_of_mem _ (tree.pprev pindex member more)
  · intro pindex member
    rcases List.mem_cons.mp member with rfl | member
    · rw [self, List.length_cons]
      dsimp only
      omega
    · rw [entry_grown new member]
      exact tree.nHeight pindex member
  · intro pindex member more
    rcases List.mem_cons.mp member with rfl | member
    · rw [self]
      dsimp only
      have less : getSkipHeight ((state.entry pprev).nHeight + 1) <
          (state.entry pprev).nHeight + 1 := getSkipHeight_lt (by omega)
      rw [tree.getAncestor_eq known (by omega)]
      exact ancestorAt_of_suffix (List.suffix_cons block pprev) (by omega)
    · rw [entry_grown new member]
      exact tree.pskip pindex member more
  · intro pindex member more
    rcases List.mem_cons.mp member with rfl | member
    · rw [self, List.tail_cons, entry_grown new known]
      exact work
    · rw [entry_grown new member,
        entry_grown new (tree.pprev pindex member more)]
      exact tree.nChainWork pindex member more
  · intro pindex member other member' equal
    rcases List.mem_cons.mp member with rfl | member
    · rcases List.mem_cons.mp member' with rfl | member'
      · rfl
      · rw [self, entry_grown new member'] at equal
        exact absurd equal.symm (fresh other member')
    · rcases List.mem_cons.mp member' with rfl | member'
      · rw [self, entry_grown new member] at equal
        exact absurd equal (fresh pindex member)
      · rw [entry_grown new member, entry_grown new member'] at equal
        exact tree.address pindex member other member' equal

end NewHeader

end PrivateDatagram.Chainstate.BlockIndexTree
