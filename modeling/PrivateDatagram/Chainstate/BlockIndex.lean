import PrivateDatagram.Chainstate.ActiveChain
import PrivateDatagram.Library.Ranking

/-!
# The block index

Headers get entries in a tree, and their data arrive in any order.  Two
containers follow the entries: `setBlockIndexCandidates` has those that could
become the tip, and `mapBlocksUnlinked` those with data that wait for the data
of an ancestor.  Flags mark the entries that are invalid or descend from an
invalid one.

An entry is named by the list of the headers from it back to genesis, so
`pprev` is the tail, and no header stands for a null pointer.  Files are read
and written without errors, and an assertion that fails is `none`.
`pindexBestInvalid` and `pindexBestHeader` are left out, which decide nothing
here.
-/

namespace PrivateDatagram.Chainstate.BlockIndex

open Wire.Serialize Library.ForkPoint Library.Ranking
open Chainstate.ActiveChain (CBlockHeader getBlockProof)

/-! ## Entries -/

/-- A pointer to an entry. -/
abbrev Branch := List CBlockHeader

def blockValidTree : Nat := 2
def blockValidTransactions : Nat := 3
def blockValidChain : Nat := 4
def blockValidScripts : Nat := 5

/-- The last four fields are parts of `nStatus`. -/
structure CBlockIndex where
  /-- Where the object is in memory. -/
  address : Nat
  pskip : Branch
  nHeight : Nat
  nChainWork : UInt256
  nTx : UInt32
  nChainTx : UInt32
  nSequenceId : UInt32
  validity : Nat
  haveData : Bool
  failedValid : Bool
  failedChild : Bool

/-- After `SetNull`. -/
def CBlockIndex.null (address : Nat) : CBlockIndex where
  address := address
  pskip := []
  nHeight := 0
  nChainWork := 0
  nTx := 0
  nChainTx := 0
  nSequenceId := 0
  validity := 0
  haveData := false
  failedValid := false
  failedChild := false

/-- A bit of `BLOCK_FAILED_MASK`. -/
def CBlockIndex.failed (pindex : CBlockIndex) : Bool :=
  pindex.failedValid || pindex.failedChild

def CBlockIndex.isValid (nUpTo : Nat) (pindex : CBlockIndex) : Bool :=
  !pindex.failed && nUpTo ≤ pindex.validity

def CBlockIndex.raiseValidity (nUpTo : Nat) (pindex : CBlockIndex) :
    CBlockIndex :=
  if pindex.failed then
    pindex
  else if pindex.validity < nUpTo then
    { pindex with validity := nUpTo }
  else
    pindex

structure ChainState where
  mapBlockIndex : List Branch
  /-- What the pointers point to. -/
  entry : Branch → CBlockIndex
  setBlockIndexCandidates : List Branch
  mapBlocksUnlinked : List (Branch × Branch)
  chainActive : Branch
  nBlockSequenceId : UInt32

def ChainState.modify (state : ChainState) (pindex : Branch)
    (change : CBlockIndex → CBlockIndex) : ChainState :=
  { state with
    entry := Function.update state.entry pindex
      (change (state.entry pindex)) }

/-- `mapBlockIndex.find`. -/
def findBlock (hash : UInt256) (state : ChainState) : Option Branch :=
  state.mapBlockIndex.find? fun pindex =>
    pindex.head?.any fun block => block.hash = hash

/-- `CBlockIndexWorkComparator`. -/
def workComparator (state : ChainState) (pa pb : Branch) : Bool :=
  let a := state.entry pa
  let b := state.entry pb
  if a.nChainWork > b.nChainWork then
    false
  else if a.nChainWork < b.nChainWork then
    true
  else if a.nSequenceId < b.nSequenceId then
    false
  else if a.nSequenceId > b.nSequenceId then
    true
  else
    a.address > b.address

def insertCandidate (pindex : Branch) (state : ChainState) : ChainState :=
  { state with
    setBlockIndexCandidates := state.setBlockIndexCandidates.insert pindex }

def eraseCandidate (pindex : Branch) (state : ChainState) : ChainState :=
  { state with
    setBlockIndexCandidates :=
      state.setBlockIndexCandidates.filter fun other => other ≠ pindex }

/-- `chainActive.Contains`. -/
def contains (state : ChainState) (pindex : Branch) : Prop :=
  pindex <:+ state.chainActive

instance (state : ChainState) (pindex : Branch) :
    Decidable (contains state pindex) :=
  inferInstanceAs (Decidable (pindex <:+ state.chainActive))

/-! ## Ancestors -/

/-- Turn the lowest one bit into a zero. -/
def invertLowestOne (n : Nat) : Nat := n &&& (n - 1)

def getSkipHeight (height : Nat) : Nat :=
  if height < 2 then
    0
  else if height % 2 = 1 then
    invertLowestOne (invertLowestOne (height - 1)) + 1
  else
    invertLowestOne height

theorem invertLowestOne_le (n : Nat) : invertLowestOne n ≤ n - 1 :=
  Nat.and_le_right

theorem getSkipHeight_lt {height : Nat} (positive : 0 < height) :
    getSkipHeight height < height := by
  unfold getSkipHeight
  split_ifs with small odd
  · exact positive
  · have inner := invertLowestOne_le (height - 1)
    have outer := invertLowestOne_le (invertLowestOne (height - 1))
    omega
  · have once := invertLowestOne_le height
    omega

/-- The walk of `GetAncestor`. -/
def getAncestorLoop (state : ChainState) (height heightWalk : Nat)
    (pindexWalk : Branch) : Branch :=
  if heightWalk ≤ height then
    pindexWalk
  else
    let heightSkip := getSkipHeight heightWalk
    let heightSkipPrev := getSkipHeight (heightWalk - 1)
    if heightSkip = height ∨ (heightSkip > height ∧
        ¬ (heightSkipPrev < heightSkip - 2 ∧ heightSkipPrev ≥ height)) then
      getAncestorLoop state height heightSkip (state.entry pindexWalk).pskip
    else
      getAncestorLoop state height (heightWalk - 1) pindexWalk.tail
termination_by heightWalk
decreasing_by
  · exact getSkipHeight_lt (by omega)
  · omega

def getAncestor (state : ChainState) (height : Nat) (pindex : Branch) :
    Branch :=
  let nHeight := (state.entry pindex).nHeight
  if height > nHeight then
    []
  else
    getAncestorLoop state height nHeight pindex

/-! ## Headers and data -/

/-- The entry of a new header. -/
def newEntry (block : CBlockHeader) (pprev : Branch) (address : Nat)
    (state : ChainState) : CBlockIndex :=
  if pprev = [] then
    { CBlockIndex.null address with nChainWork := getBlockProof block.nBits }
  else
    let nHeight := (state.entry pprev).nHeight + 1
    { CBlockIndex.null address with
      pskip := getAncestor state (getSkipHeight nHeight) pprev
      nHeight := nHeight
      nChainWork :=
        (state.entry pprev).nChainWork + getBlockProof block.nBits }

def addToBlockIndex (block : CBlockHeader) (address : Nat)
    (state : ChainState) : ChainState :=
  match findBlock block.hash state with
  | some _ => state
  | none =>
      let pprev := (findBlock block.hashPrevBlock state).getD []
      let pindexNew := block :: pprev
      { state with
        mapBlockIndex := pindexNew :: state.mapBlockIndex
        entry := Function.update state.entry pindexNew
          ((newEntry block pprev address state).raiseValidity
            blockValidTree) }

/-- The entry has the data of all its ancestors, and its own. -/
def fillChain (pindex : Branch) (state : ChainState) : ChainState :=
  { state.modify pindex fun entry =>
      { entry with
        nChainTx :=
          (if pindex.tail = [] then 0
            else (state.entry pindex.tail).nChainTx) + entry.nTx
        nSequenceId := state.nBlockSequenceId } with
    nBlockSequenceId := state.nBlockSequenceId + 1 }

/-- It becomes a candidate when it is not worse than the tip. -/
def offer (pindex : Branch) (state : ChainState) : ChainState :=
  if state.chainActive = [] ∨
      ¬ workComparator state pindex state.chainActive then
    insertCandidate pindex state
  else
    state

/-- `mapBlocksUnlinked.equal_range`. -/
def unlinkedAfter (pindex : Branch) (state : ChainState) : List Branch :=
  (state.mapBlocksUnlinked.filter fun pair => pair.1 = pindex).map Prod.snd

def eraseUnlinkedAfter (pindex : Branch) (state : ChainState) : ChainState :=
  { state with
    mapBlocksUnlinked :=
      state.mapBlocksUnlinked.filter fun pair => ¬ pair.1 = pindex }

theorem length_unlinkedAfter (pindex : Branch) (state : ChainState) :
    (unlinkedAfter pindex state).length +
        (eraseUnlinkedAfter pindex state).mapBlocksUnlinked.length =
      state.mapBlocksUnlinked.length := by
  have parts := state.mapBlocksUnlinked.length_eq_length_filter_add
    fun pair => decide (pair.1 = pindex)
  simp only [unlinkedAfter, eraseUnlinkedAfter, List.length_map, decide_not]
  exact parts.symm

theorem offer_mapBlocksUnlinked (pindex : Branch) (state : ChainState) :
    (offer pindex state).mapBlocksUnlinked = state.mapBlocksUnlinked := by
  unfold offer
  split_ifs
  · rfl
  · rfl

theorem eraseUnlinkedAfter_offer (pindex : Branch) (state : ChainState) :
    (eraseUnlinkedAfter pindex
        (offer pindex (fillChain pindex state))).mapBlocksUnlinked =
      (eraseUnlinkedAfter pindex state).mapBlocksUnlinked := by
  unfold eraseUnlinkedAfter
  dsimp only
  rw [offer_mapBlocksUnlinked]
  rfl

/-- The loop of `ReceivedBlockTransactions`. -/
def linkQueue : List Branch → ChainState → ChainState
  | [], state => state
  | pindex :: queue, state =>
      linkQueue (queue ++ unlinkedAfter pindex state)
        (eraseUnlinkedAfter pindex (offer pindex (fillChain pindex state)))
termination_by queue state => queue.length + state.mapBlocksUnlinked.length
decreasing_by
  have parts := length_unlinkedAfter pindex state
  rw [eraseUnlinkedAfter_offer, List.length_append, List.length_cons]
  omega

/-- What `ReceivedBlockTransactions` writes into the entry. -/
def CBlockIndex.receive (nTx : UInt32) (pindex : CBlockIndex) : CBlockIndex :=
  { pindex with nTx := nTx, nChainTx := 0, haveData := true }.raiseValidity
    blockValidTransactions

/-- The block has as many transactions. -/
def receivedBlockTransactions (nTx : UInt32) (pindexNew : Branch)
    (state : ChainState) : ChainState :=
  let state := state.modify pindexNew (·.receive nTx)
  let pprev := pindexNew.tail
  if pprev = [] ∨ (state.entry pprev).nChainTx ≠ 0 then
    linkQueue [pindexNew] state
  else if (state.entry pprev).isValid blockValidTree then
    { state with
      mapBlocksUnlinked := state.mapBlocksUnlinked ++ [(pprev, pindexNew)] }
  else
    state

/-! ## The most work -/

/-- `nStatus |= BLOCK_FAILED_CHILD`. -/
def CBlockIndex.markChild (pindex : CBlockIndex) : CBlockIndex :=
  { pindex with failedChild := true }

/-- `nStatus |= BLOCK_FAILED_VALID`. -/
def CBlockIndex.markValid (pindex : CBlockIndex) : CBlockIndex :=
  { pindex with failedValid := true }

/-- The walk of `FindMostWorkChain` from a candidate to the active chain, and
the first entry on it that cannot be used. -/
def findUnusable (state : ChainState) : Branch → Option (Option Branch)
  | [] => some none
  | block :: pprev =>
      let entry := state.entry (block :: pprev)
      if contains state (block :: pprev) then
        some none
      else if entry.nChainTx = 0 ∧ entry.nHeight ≠ 0 then
        none
      else if entry.failed ∨ ¬ entry.haveData then
        some (some (block :: pprev))
      else
        findUnusable state pprev

/-- Everything from `pindexFailed` to before `pindexTest` is no candidate. -/
def removeChain (pindexTest : Branch) (fFailedChain : Bool) :
    Branch → ChainState → ChainState
  | [], state => state
  | block :: pprev, state =>
      let pindexFailed := block :: pprev
      if pindexFailed = pindexTest then
        state
      else
        removeChain pindexTest fFailedChain pprev
          (eraseCandidate pindexFailed
            (if fFailedChain then
              state.modify pindexFailed (·.markChild)
            else
              { state with
                mapBlocksUnlinked :=
                  state.mapBlocksUnlinked ++ [(pprev, pindexFailed)] }))

theorem removeChain_candidates (pindexTest : Branch) (fFailedChain : Bool)
    (pindexFailed : Branch) (state : ChainState) :
    List.Sublist (removeChain pindexTest fFailedChain pindexFailed
        state).setBlockIndexCandidates state.setBlockIndexCandidates := by
  induction pindexFailed generalizing state with
  | nil => exact .refl _
  | cons block pprev ih =>
      unfold removeChain
      dsimp only
      split_ifs
      · exact .refl _
      · exact (ih _).trans List.filter_sublist
      · exact (ih _).trans List.filter_sublist

/-- Remove an entry that cannot be used, and what comes after it. -/
def discard (pindexNew pindexTest : Branch) (state : ChainState) :
    ChainState :=
  eraseCandidate pindexTest
    (removeChain pindexTest (state.entry pindexTest).failed pindexNew state)

theorem discard_candidates (pindexNew pindexTest : Branch)
    (state : ChainState) :
    List.Sublist (discard pindexNew pindexTest state).setBlockIndexCandidates
      state.setBlockIndexCandidates :=
  List.filter_sublist.trans (removeChain_candidates _ _ _ _)

theorem notMem_discard {pindexNew : Branch} (nonempty : pindexNew ≠ [])
    (pindexTest : Branch) (state : ChainState) :
    pindexNew ∉ (discard pindexNew pindexTest state).setBlockIndexCandidates := by
  intro member
  obtain ⟨member, apart⟩ := List.mem_filter.mp member
  cases pindexNew with
  | nil => exact nonempty rfl
  | cons block pprev =>
      unfold removeChain at member
      dsimp only at member
      rw [if_neg (of_decide_eq_true apart)] at member
      have before := (removeChain_candidates _ _ _ _).subset member
      have kept := (List.mem_filter.mp before).2
      exact of_decide_eq_true kept rfl

theorem findUnusable_ne_nil {state : ChainState} {pindexNew : Branch}
    {pindexTest : Branch}
    (unusable : findUnusable state pindexNew = some (some pindexTest)) :
    pindexNew ≠ [] := by
  rintro rfl
  cases unusable

/-- `setBlockIndexCandidates.rbegin()`. -/
def bestCandidate (state : ChainState) : Option Branch :=
  best (workComparator state) state.setBlockIndexCandidates

theorem bestCandidate_mem {state : ChainState} {pindexNew : Branch}
    (found : bestCandidate state = some pindexNew) :
    pindexNew ∈ state.setBlockIndexCandidates :=
  best_mem found

/-- The entry and the state after the removals. -/
def findMostWorkChain (state : ChainState) :
    Option (Option Branch × ChainState) :=
  match _found : bestCandidate state with
  | none => some (none, state)
  | some pindexNew =>
      match _unusable : findUnusable state pindexNew with
      | none => none
      | some none => some (some pindexNew, state)
      | some (some pindexTest) =>
          findMostWorkChain (discard pindexNew pindexTest state)
termination_by state.setBlockIndexCandidates.length
decreasing_by
  have sublist := discard_candidates pindexNew pindexTest state
  refine lt_of_le_of_ne sublist.length_le ?_
  intro same
  have member := bestCandidate_mem ‹_›
  rw [← sublist.eq_of_length same] at member
  exact notMem_discard (findUnusable_ne_nil ‹_›) pindexTest state member

/-! ## Activation -/

/-- How `ConnectTip` ends: the block is accepted, it violates a rule, or it
does but the data could be corrupted. -/
inductive Verdict where
  | accepted
  | invalid
  | corrupted
deriving DecidableEq

/-- `CChain::FindFork`. -/
def findFork (state : ChainState) (pindex : Branch) : Branch :=
  forkPoint state.chainActive pindex

/-- `PruneBlockIndexCandidates`. -/
def pruneBlockIndexCandidates (state : ChainState) : Option ChainState :=
  let setBlockIndexCandidates := state.setBlockIndexCandidates.filter
    fun candidate => ¬ workComparator state candidate state.chainActive
  if setBlockIndexCandidates = [] then
    none
  else
    some { state with setBlockIndexCandidates }

/-- What `ConnectTip` does to the index when it succeeds. -/
def connectTip (pindexNew : Branch) (state : ChainState) : ChainState :=
  { state.modify pindexNew (·.raiseValidity blockValidScripts) with
    chainActive := pindexNew }

/-- `InvalidBlockFound`. -/
def invalidBlockFound (pindex : Branch) (state : ChainState) : ChainState :=
  eraseCandidate pindex (state.modify pindex (·.markValid))

/-- The connecting loop of `ActivateBestChainStep`.  It stops at a block that
does not connect, and as soon as there is more work than before. -/
def connectBlocks (verdict : Branch → Verdict) (pindexOldTip : Branch) :
    List Branch → ChainState → Option ChainState
  | [], state => some state
  | pindexConnect :: vpindexToConnect, state =>
      if pindexConnect.tail ≠ state.chainActive then
        none
      else
        match verdict pindexConnect with
        | .invalid => some (invalidBlockFound pindexConnect state)
        | .corrupted => some state
        | .accepted =>
            match pruneBlockIndexCandidates
                (connectTip pindexConnect state) with
            | none => none
            | some state =>
                if pindexOldTip = [] ∨
                    (state.entry pindexConnect).nChainWork >
                      (state.entry pindexOldTip).nChainWork then
                  some state
                else
                  connectBlocks verdict pindexOldTip vpindexToConnect state

/-- The batches of blocks to connect are put together. -/
def activateBestChainStep (verdict : Branch → Verdict)
    (pindexMostWork : Branch) (state : ChainState) : Option ChainState :=
  let pindexFork := findFork state pindexMostWork
  connectBlocks verdict state.chainActive
    (above pindexFork.length pindexMostWork)
    { state with chainActive := pindexFork }

/-- One round of `ActivateBestChain`, and whether it is the last one. -/
def activateRound (verdict : Branch → Verdict) (state : ChainState) :
    Option (Bool × ChainState) :=
  match findMostWorkChain state with
  | none => none
  | some (none, state) => some (true, state)
  | some (some pindexMostWork, state) =>
      if pindexMostWork = state.chainActive then
        some (true, state)
      else
        (activateBestChainStep verdict pindexMostWork state).map fun state =>
          (pindexMostWork = state.chainActive, state)

/-- `ActivateBestChain` with the verdicts of its rounds.  It does not complete
when they do not suffice. -/
def activateBestChain : List (Branch → Verdict) → ChainState →
    Option ChainState
  | [], _ => none
  | verdict :: verdicts, state =>
      match activateRound verdict state with
      | none => none
      | some (true, state) => some state
      | some (false, state) => activateBestChain verdicts state

/-! ## Commands -/

/-- The loop of `InvalidateBlock` that disconnects.  Without a tip there is no
state to go on with. -/
def disconnectFrom (pindex : Branch) : Branch → ChainState →
    Option ChainState
  | [], _ => none
  | block :: pprev, state =>
      if pindex <:+ block :: pprev then
        disconnectFrom pindex pprev
          { eraseCandidate (block :: pprev)
              (state.modify (block :: pprev) (·.markChild)) with
            chainActive := pprev }
      else
        some state

/-- The loop of `InvalidateBlock` over the entries. -/
def readdCandidates : List Branch → ChainState → ChainState
  | [], state => state
  | pindex :: entries, state =>
      let entry := state.entry pindex
      readdCandidates entries
        (if entry.isValid blockValidTransactions ∧ entry.nChainTx ≠ 0 ∧
            ¬ workComparator state pindex state.chainActive then
          insertCandidate pindex state
        else
          state)

def invalidateBlock (pindex : Branch) (state : ChainState) :
    Option ChainState :=
  let state := invalidBlockFound pindex state
  (disconnectFrom pindex state.chainActive state).map fun state =>
    readdCandidates state.mapBlockIndex state

/-- `nStatus &= ~BLOCK_FAILED_MASK`. -/
def CBlockIndex.clearFailed (pindex : CBlockIndex) : CBlockIndex :=
  { pindex with failedValid := false, failedChild := false }

/-- The loop of `ReconsiderBlock` over the entries. -/
def reconsiderEntries (pindex : Branch) (nHeight : Nat) :
    List Branch → ChainState → ChainState
  | [], state => state
  | other :: entries, state =>
      reconsiderEntries pindex nHeight entries
        (if ¬ (state.entry other).isValid blockValidTransactions ∧
            getAncestor state nHeight other = pindex then
          let state := state.modify other (·.clearFailed)
          let entry := state.entry other
          if entry.isValid blockValidTransactions ∧ entry.nChainTx ≠ 0 ∧
              workComparator state state.chainActive other then
            insertCandidate other state
          else
            state
        else
          state)

/-- The loop of `ReconsiderBlock` over the ancestors. -/
def reconsiderAncestors : Branch → ChainState → ChainState
  | [], state => state
  | block :: pprev, state =>
      reconsiderAncestors pprev
        (if (state.entry (block :: pprev)).failed then
          state.modify (block :: pprev) (·.clearFailed)
        else
          state)

def reconsiderBlock (pindex : Branch) (state : ChainState) : ChainState :=
  reconsiderAncestors pindex
    (reconsiderEntries pindex (state.entry pindex).nHeight
      state.mapBlockIndex state)

/-! ## The check -/

section Check

variable (hashGenesisBlock : UInt256) (state : ChainState)

/-- The oldest entry on the way from genesis that meets a condition. -/
def firstOn (condition : Branch → Bool) (pindex : Branch) : Option Branch :=
  (above 0 pindex).find? condition

/-- The entries that the depth-first search gets to. -/
def visited : List Branch :=
  state.mapBlockIndex.filter fun pindex =>
    ∀ ancestor ∈ above 0 pindex, ancestor ∈ state.mapBlockIndex

def belowValidity (nUpTo : Nat) (pindex : Branch) : Bool :=
  pindex.tail ≠ [] ∧ (state.entry pindex).validity < nUpTo

/-- The assertions about an entry, in their order. -/
def checkEntry (pindex : Branch) : Bool :=
  let entry := state.entry pindex
  let pprev := pindex.tail
  let nHeight := pindex.length - 1
  let pindexFirstInvalid :=
    firstOn (fun ancestor => (state.entry ancestor).failedValid) pindex
  let pindexFirstMissing :=
    firstOn (fun ancestor => ¬ (state.entry ancestor).haveData) pindex
  let pindexFirstNotTreeValid :=
    firstOn (belowValidity state blockValidTree) pindex
  let pindexFirstNotChainValid :=
    firstOn (belowValidity state blockValidChain) pindex
  let pindexFirstNotScriptsValid :=
    firstOn (belowValidity state blockValidScripts) pindex
  let foundInUnlinked := (pprev, pindex) ∈ state.mapBlocksUnlinked
  decide (pprev = [] → pindex.map (·.hash) = [hashGenesisBlock]) &&
  decide (pprev = [] →
    pindex = state.chainActive.drop (state.chainActive.length - 1)) &&
  decide (entry.haveData = false ↔ entry.nTx = 0) &&
  decide (entry.validity ≥ blockValidTransactions ↔ entry.nTx > 0) &&
  decide (entry.nChainTx = 0 → entry.nSequenceId = 0) &&
  decide (pindexFirstMissing ≠ none ↔ entry.nChainTx = 0) &&
  decide (entry.nHeight = nHeight) &&
  decide (pprev = [] ∨
    entry.nChainWork ≥ (state.entry pprev).nChainWork) &&
  decide (nHeight < 2 ∨ entry.pskip ≠ [] ∧
    (state.entry entry.pskip).nHeight < nHeight) &&
  decide (pindexFirstNotTreeValid = none) &&
  decide (entry.validity ≥ blockValidChain →
    pindexFirstNotChainValid = none) &&
  decide (entry.validity ≥ blockValidScripts →
    pindexFirstNotScriptsValid = none) &&
  decide (pindexFirstInvalid = none → entry.failed = false) &&
  (if ¬ workComparator state pindex state.chainActive ∧
      pindexFirstMissing = none then
    decide (pindexFirstInvalid = none →
      pindex ∈ state.setBlockIndexCandidates)
  else
    decide (pindex ∉ state.setBlockIndexCandidates)) &&
  if pprev ≠ [] ∧ entry.haveData ∧ pindexFirstMissing ≠ none then
    decide (pindexFirstInvalid = none → foundInUnlinked)
  else
    decide ¬ foundInUnlinked

/-- `CheckBlockIndex`: whether all of its assertions hold. -/
def checkBlockIndex : Bool :=
  if state.chainActive = [] then
    state.mapBlockIndex.length ≤ 1
  else
    decide ((state.mapBlockIndex.filter fun pindex =>
      pindex.tail = []).length = 1) &&
    (visited state).all (checkEntry hashGenesisBlock state) &&
    decide ((visited state).length = state.mapBlockIndex.length)

end Check

end PrivateDatagram.Chainstate.BlockIndex
