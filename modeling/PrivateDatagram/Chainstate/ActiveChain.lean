import PrivateDatagram.Consensus.ProofOfWork
import PrivateDatagram.Library.ForkPoint

/-!
# The active chain

Blocks arrive one by one.  `ContextualCheckBlockHeader` compares the height of
a header with that of the active chain, `AddToBlockIndex` gives it an entry,
and `ActivateBestChain` moves the tip to the entry with the most work whose
blocks can be connected.

An entry is here the list of the blocks from it back to genesis, so `pprev` is
the tail and the height is one less than the length.  Reading and writing
files is taken to succeed, and every block is there before its descendants.
-/

namespace PrivateDatagram.Chainstate.ActiveChain

open Wire.Serialize Consensus.ProofOfWork Library.ForkPoint

/-! ## Entries -/

structure CBlockHeader where
  hash : UInt256
  hashPrevBlock : UInt256
  nVersion : Int32
  nTime : UInt32
  nBits : UInt32
deriving DecidableEq, Repr

structure CBlockIndex where
  header : CBlockHeader
  nSequenceId : Nat
deriving DecidableEq, Repr

/-- An entry with everything behind `pprev`. -/
abbrev Branch := List CBlockIndex

def nHeight (pindex : Branch) : Int := pindex.length - 1

/-- `GetBlockProof`. -/
def getBlockProof (nBits : UInt32) : UInt256 :=
  let bits := setCompact nBits
  if bits.fNegative || bits.fOverflow || bits.bnTarget = 0 then
    0
  else
    ~~~bits.bnTarget / (bits.bnTarget + 1) + 1

def nChainWork : Branch → UInt256
  | [] => 0
  | pindex :: pprev => nChainWork pprev + getBlockProof pindex.header.nBits

def nSequenceId (pindex : Branch) : Nat :=
  match pindex with
  | [] => 0
  | newest :: _ => newest.nSequenceId

/-- `CBlockIndexWorkComparator`; sequence ids are not given out twice. -/
def workComparator (pa pb : Branch) : Bool :=
  if nChainWork pa > nChainWork pb then false
  else if nChainWork pa < nChainWork pb then true
  else nSequenceId pa > nSequenceId pb

/-- The middle of the times of the last eleven blocks. -/
def getMedianTimePast (pindex : Branch) : Nat :=
  let times := (pindex.take 11).map fun block => block.header.nTime.toNat
  (times.insertionSort (· ≤ ·)).getD (times.length / 2) 0

/-! ## Headers -/

structure ChainParams where
  /-- `GetArg("-maxreorg", Params().MaxReorganizationDepth())`. -/
  nMaxReorgDepth : Int
  /-- `Checkpoints::fEnabled`. -/
  fCheckpoints : Bool
  /-- `mapCheckpoints`, by height. -/
  mapCheckpoints : List (Int × UInt256)
  /-- Whether `ConnectTip` accepts a block on top of its own ancestors. -/
  connects : Branch → Bool

structure ChainState where
  mapBlockIndex : List Branch
  setBlockIndexCandidates : List Branch
  /-- The entries with a bit of `BLOCK_FAILED_MASK`. -/
  failed : List Branch
  chainActive : Branch
  nBlockSequenceId : Nat

/-- `mapBlockIndex.find`. -/
def findBlock (hash : UInt256) (state : ChainState) : Option Branch :=
  state.mapBlockIndex.find? fun pindex =>
    match pindex with
    | [] => false
    | newest :: _ => newest.header.hash = hash

/-- `Checkpoints::CheckBlock`. -/
def checkpointsCheckBlock (params : ChainParams) (height : Int)
    (hash : UInt256) : Bool :=
  !params.fCheckpoints ||
    match params.mapCheckpoints.lookup height with
    | none => true
    | some expected => hash = expected

/-- `Checkpoints::GetLastCheckpoint`. -/
def getLastCheckpoint (params : ChainParams) (state : ChainState) :
    Option Branch :=
  if params.fCheckpoints then
    params.mapCheckpoints.reverse.findSome? fun checkpoint =>
      findBlock checkpoint.2 state
  else
    none

inductive HeaderReject where
  | olderThanMaxReorg
  | timeTooOld
  | checkpointMismatch
  | olderThanCheckpoint
  | badVersion
deriving DecidableEq, Repr

/-- `ContextualCheckBlockHeader` for a block that is not genesis. -/
def contextualCheckBlockHeader (params : ChainParams) (state : ChainState)
    (block : CBlockHeader) (pindexPrev : Branch) :
    Except HeaderReject Unit :=
  let height := nHeight pindexPrev + 1
  if nHeight state.chainActive - height ≥ params.nMaxReorgDepth then
    .error .olderThanMaxReorg
  else if block.nTime.toNat ≤ getMedianTimePast pindexPrev then
    .error .timeTooOld
  else if !checkpointsCheckBlock params height block.hash then
    .error .checkpointMismatch
  else if (getLastCheckpoint params state).any
      fun pcheckpoint => height < nHeight pcheckpoint then
    .error .olderThanCheckpoint
  else if block.nVersion < 3 then
    .error .badVersion
  else
    .ok ()

/--
What `AcceptBlockHeader` makes of a block: the new entry, or nothing where the
header is known, has no valid parent or is rejected.
-/
def acceptedEntry (params : ChainParams) (state : ChainState)
    (block : CBlockHeader) : Option Branch :=
  if (findBlock block.hash state).isSome then
    none
  else
    match findBlock block.hashPrevBlock state with
    | none => none
    | some pindexPrev =>
        if pindexPrev ∈ state.failed then
          none
        else
          match contextualCheckBlockHeader params state block pindexPrev with
          | .error _ => none
          | .ok _ => some (⟨block, state.nBlockSequenceId⟩ :: pindexPrev)

/-- `AddToBlockIndex` and `ReceivedBlockTransactions`. -/
def addToBlockIndex (pindexNew : Branch) (state : ChainState) : ChainState :=
  { state with
    mapBlockIndex := pindexNew :: state.mapBlockIndex
    setBlockIndexCandidates :=
      if workComparator pindexNew state.chainActive then
        state.setBlockIndexCandidates
      else
        pindexNew :: state.setBlockIndexCandidates
    nBlockSequenceId := state.nBlockSequenceId + 1 }

/-! ## The most work -/

/-- The end of `setBlockIndexCandidates`. -/
def bestCandidate : List Branch → Option Branch
  | [] => none
  | pindex :: rest =>
      match bestCandidate rest with
      | none => some pindex
      | some best => if workComparator best pindex then pindex else best

/-- The first failed entry on the way from a candidate to the active chain. -/
def failedAncestor (chainActive : Branch) (failed : List Branch) :
    Branch → Option Branch
  | [] => none
  | pindexTest :: pprev =>
      if (pindexTest :: pprev) <:+ chainActive then none
      else if (pindexTest :: pprev) ∈ failed then some (pindexTest :: pprev)
      else failedAncestor chainActive failed pprev

/-- Remove a failed chain from the candidates and mark it down to the cause. -/
def removeChain (pindexNew pindexTest : Branch) (state : ChainState) :
    ChainState :=
  let chain := above pindexTest.length pindexNew
  { state with
    failed := chain ++ state.failed
    setBlockIndexCandidates := state.setBlockIndexCandidates.filter
      fun candidate => candidate ∉ chain ∧ candidate ≠ pindexTest }

/-- `FindMostWorkChain`; every round removes a candidate. -/
def findMostWorkChain : Nat → ChainState → Option Branch × ChainState
  | 0, state => (none, state)
  | rounds + 1, state =>
      match bestCandidate state.setBlockIndexCandidates with
      | none => (none, state)
      | some pindexNew =>
          match failedAncestor state.chainActive state.failed pindexNew with
          | none => (some pindexNew, state)
          | some pindexTest =>
              findMostWorkChain rounds (removeChain pindexNew pindexTest state)

/-! ## Activation -/

/-- `CChain::FindFork`. -/
def findFork (chainActive pindex : Branch) : Branch :=
  forkPoint chainActive (pindex.drop (pindex.length - chainActive.length))

/-- `PruneBlockIndexCandidates`. -/
def pruneBlockIndexCandidates (state : ChainState) : ChainState :=
  { state with
    setBlockIndexCandidates := state.setBlockIndexCandidates.filter
      fun candidate => !workComparator candidate state.chainActive }

/--
The connecting loop of `ActivateBestChainStep`.  It stops at a block that does
not connect, and as soon as there is more work than before.
-/
def connectBlocks (params : ChainParams) (pindexOldTip : Branch) :
    List Branch → ChainState → ChainState
  | [], state => state
  | pindexConnect :: rest, state =>
      if params.connects pindexConnect then
        let state := pruneBlockIndexCandidates
          { state with chainActive := pindexConnect }
        if nChainWork pindexConnect > nChainWork pindexOldTip then
          state
        else
          connectBlocks params pindexOldTip rest state
      else
        { state with
          failed := pindexConnect :: state.failed
          setBlockIndexCandidates := state.setBlockIndexCandidates.filter
            fun candidate => candidate ≠ pindexConnect }

/-- `ActivateBestChainStep`, with the number of blocks it disconnects. -/
def activateBestChainStep (params : ChainParams) (pindexMostWork : Branch)
    (state : ChainState) : Nat × ChainState :=
  let pindexFork := findFork state.chainActive pindexMostWork
  (state.chainActive.length - pindexFork.length,
    connectBlocks params state.chainActive
      (above pindexFork.length pindexMostWork)
      { state with chainActive := pindexFork })

/--
`ActivateBestChain`: what each step disconnects, and the state.  Nothing is
returned if the rounds do not suffice.
-/
def activateBestChain (params : ChainParams) :
    Nat → ChainState → Option (List Nat × ChainState)
  | 0, _ => none
  | rounds + 1, state =>
      match findMostWorkChain (state.setBlockIndexCandidates.length + 1)
          state with
      | (none, state) => some ([], state)
      | (some pindexMostWork, state) =>
          if pindexMostWork = state.chainActive then
            some ([], state)
          else
            let (disconnected, state) :=
              activateBestChainStep params pindexMostWork state
            if pindexMostWork = state.chainActive then
              some ([disconnected], state)
            else
              (activateBestChain params rounds state).map
                fun (later, state) => (disconnected :: later, state)

/-- A block arrives and the best chain is activated. -/
def processBlock (params : ChainParams) (state : ChainState)
    (block : CBlockHeader) : Option (List Nat × ChainState) :=
  let state :=
    match acceptedEntry params state block with
    | none => state
    | some pindexNew => addToBlockIndex pindexNew state
  activateBestChain params (state.chainActive.length + 1) state

/-- Blocks arrive one by one; what each activation step disconnects. -/
def run (params : ChainParams) : ChainState → List CBlockHeader →
    Option (List Nat × ChainState)
  | state, [] => some ([], state)
  | state, block :: rest =>
      match processBlock params state block with
      | none => none
      | some (disconnected, state) =>
          match run params state rest with
          | none => none
          | some (later, state) => some (disconnected ++ later, state)

/-- A node that has only the genesis block. -/
def genesisState (genesis : CBlockHeader) : ChainState where
  mapBlockIndex := [[⟨genesis, 0⟩]]
  setBlockIndexCandidates := [[⟨genesis, 0⟩]]
  failed := []
  chainActive := [⟨genesis, 0⟩]
  nBlockSequenceId := 1

end PrivateDatagram.Chainstate.ActiveChain
