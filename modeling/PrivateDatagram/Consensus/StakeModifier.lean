import PrivateDatagram.Wire.Serialize

/-!
# The stake modifier

`AddToBlockIndex` gives every block a stake modifier, computed from the
entries of its ancestors.  A pointer to an entry is here the list of the entry
and everything behind `pprev`, which is never changed once it is built.

The modifier of the first block after genesis is `uint64_t("stakemodifier")`,
the address at which the process holds the string.  Everything later is a
function of the blocks and of that number.
-/

namespace PrivateDatagram.Consensus.StakeModifier

open Library.ByteFormat Wire.Serialize

/-! ## Constants -/

/-- `getIntervalVersion`; both networks have the same interval. -/
def intervalVersion : Nat := 60

def modifierIntervalRatio : Nat := 3

/-! ## The block index -/

/-- What the index takes from a block. -/
structure Block where
  hash : UInt256
  hashPrevBlock : UInt256
  nTime : UInt32
  fProofOfStake : Bool
  nAccumulatorCheckpoint : UInt256
deriving DecidableEq, Repr

structure CBlockIndex where
  block : Block
  nHeight : Nat
  nStakeModifier : UInt64
  /-- `BLOCK_STAKE_MODIFIER` of `nFlags`. -/
  fGeneratedStakeModifier : Bool
deriving DecidableEq, Repr

namespace CBlockIndex

def getBlockHash (pindex : CBlockIndex) : UInt256 := pindex.block.hash

def getBlockTime (pindex : CBlockIndex) : Int := pindex.block.nTime.toNat

/-- `GetStakeEntropyBit`, the lowest bit of the hash. -/
def getStakeEntropyBit (pindex : CBlockIndex) : UInt64 :=
  if pindex.getBlockHash.getLsbD 0 then 1 else 0

end CBlockIndex

/-- `mapBlockIndex`, with the chain behind each entry. -/
abbrev BlockMap := UInt256 → Option (List CBlockIndex)

structure KernelParams where
  hash256 : Bytes → UInt256
  /-- `Params().ModifierUpgradeBlock()`. -/
  nModifierUpdateBlock : Nat

/-! ## Selection -/

/-- `GetStakeModifierSelectionIntervalSection`. -/
def selectionIntervalSection (nSection : Nat) : Nat :=
  intervalVersion * 63 / (63 + (63 - nSection) * (modifierIntervalRatio - 1))

/-- `GetStakeModifierSelectionInterval`. -/
def selectionInterval : Nat :=
  ((List.range 64).map selectionIntervalSection).sum

/-- `GetLastStakeModifier`; nothing where no ancestor generated one. -/
def getLastStakeModifier : List CBlockIndex → Option (UInt64 × Int)
  | [] => none
  | pindex :: pprev =>
      if pindex.fGeneratedStakeModifier then
        some (pindex.nStakeModifier, pindex.getBlockTime)
      else
        getLastStakeModifier pprev

/-- The selection hash of a candidate; proof of stake is favoured. -/
def selectionHash (params : KernelParams) (fModifierV2 : Bool)
    (nStakeModifierPrev : UInt64) (pindex : CBlockIndex) : UInt256 :=
  let hashProof :=
    if fModifierV2 then pindex.getBlockHash
    else if pindex.block.fProofOfStake then 0
    else pindex.getBlockHash
  let hashSelection := params.hash256
    (uint256.encode hashProof ++ uint64.encode nStakeModifierPrev)
  if pindex.block.fProofOfStake then hashSelection >>> 32 else hashSelection

/--
The loop of `SelectBlockFromCandidates`.  The switch to the new calculation
is decided at the first candidate, and `best` is the selection so far.
-/
def selectBlockFromCandidates (params : KernelParams) (index : BlockMap)
    (selected : List UInt256) (nSelectionIntervalStop : Int)
    (nStakeModifierPrev : UInt64) (fModifierV2 : Option Bool)
    (best : Option (UInt256 × CBlockIndex)) :
    List (Nat × UInt256) → Option CBlockIndex
  | [] => best.map Prod.snd
  | item :: rest =>
      match index item.2 with
      | none => none
      | some [] => none
      | some (pindex :: _) =>
          if best.isSome && pindex.getBlockTime > nSelectionIntervalStop then
            best.map Prod.snd
          else
            let fV2 := fModifierV2.getD
              (pindex.nHeight ≥ params.nModifierUpdateBlock)
            let continueWith := fun best =>
              selectBlockFromCandidates params index selected
                nSelectionIntervalStop nStakeModifierPrev (some fV2) best rest
            if pindex.getBlockHash ∈ selected then
              continueWith best
            else
              let hashSelection :=
                selectionHash params fV2 nStakeModifierPrev pindex
              match best with
              | none => continueWith (some (hashSelection, pindex))
              | some (hashBest, _) =>
                  if hashSelection < hashBest then
                    continueWith (some (hashSelection, pindex))
                  else
                    continueWith best

/-- The loop over the rounds; a failed selection leaves nothing. -/
def selectRounds (params : KernelParams) (index : BlockMap)
    (vSortedByTimestamp : List (Nat × UInt256)) (nStakeModifier : UInt64) :
    Nat → Nat → Int → List UInt256 → UInt64 → Option UInt64
  | 0, _, _, _, nStakeModifierNew => some nStakeModifierNew
  | rounds + 1, nRound, nSelectionIntervalStop, selected,
      nStakeModifierNew =>
      let stop := nSelectionIntervalStop + selectionIntervalSection nRound
      match selectBlockFromCandidates params index selected stop
          nStakeModifier none none vSortedByTimestamp with
      | none => none
      | some pindex =>
          selectRounds params index vSortedByTimestamp nStakeModifier rounds
            (nRound + 1) stop (pindex.getBlockHash :: selected)
            (nStakeModifierNew |||
              pindex.getStakeEntropyBit <<< nRound.toUInt64)

/-- The order of `pair<int64_t, uint256>`. -/
def timestampLe (left right : Nat × UInt256) : Bool :=
  left.1 < right.1 || (left.1 = right.1 && left.2 ≤ right.2)

/-- The candidates, sorted by time and then by hash. -/
def sortedByTimestamp (nSelectionIntervalStart : Int)
    (chain : List CBlockIndex) : List (Nat × UInt256) :=
  let recent := chain.takeWhile fun pindex =>
    pindex.getBlockTime ≥ nSelectionIntervalStart
  let pairs := recent.map fun pindex =>
    (pindex.block.nTime.toNat, pindex.getBlockHash)
  pairs.reverse.mergeSort timestampLe

/-! ## The next modifier -/

structure Modifier where
  /-- What the function returns; its caller only logs a failure. -/
  ok : Bool
  nStakeModifier : UInt64
  fGeneratedStakeModifier : Bool
deriving DecidableEq, Repr

/--
`ComputeNextStakeModifier`, in a process that holds the string
`"stakemodifier"` at the address `literal`.
-/
def computeNextStakeModifier (params : KernelParams) (literal : UInt64)
    (index : BlockMap) (pindexPrev : List CBlockIndex) : Modifier :=
  match pindexPrev with
  | [] => ⟨true, 0, true⟩
  | prev :: _ =>
      if prev.nHeight = 0 then
        ⟨true, literal, true⟩
      else
        match getLastStakeModifier pindexPrev with
        | none => ⟨false, 0, false⟩
        | some (nStakeModifier, nModifierTime) =>
            if nModifierTime / intervalVersion ≥
                prev.getBlockTime / intervalVersion then
              ⟨true, nStakeModifier, false⟩
            else
              let nSelectionIntervalStart :=
                prev.getBlockTime / intervalVersion * intervalVersion -
                  selectionInterval
              let vSortedByTimestamp :=
                sortedByTimestamp nSelectionIntervalStart pindexPrev
              match selectRounds params index vSortedByTimestamp
                  nStakeModifier (min 64 vSortedByTimestamp.length) 0
                  nSelectionIntervalStart [] 0 with
              | none => ⟨false, nStakeModifier, false⟩
              | some nStakeModifierNew => ⟨true, nStakeModifierNew, true⟩

/-- The new entry that `AddToBlockIndex` makes behind a parent. -/
def newEntry (params : KernelParams) (literal : UInt64) (index : BlockMap)
    (block : Block) (pprev : List CBlockIndex) : CBlockIndex :=
  match pprev with
  | [] => ⟨block, 0, 0, false⟩
  | parent :: _ =>
      let modifier := computeNextStakeModifier params literal index pprev
      ⟨block, parent.nHeight + 1, modifier.nStakeModifier,
        modifier.fGeneratedStakeModifier⟩

/-- `AddToBlockIndex`; without a known parent the block starts a chain. -/
def addToBlockIndex (params : KernelParams) (literal : UInt64)
    (block : Block) (index : BlockMap) : BlockMap :=
  match index block.hash with
  | some _ => index
  | none =>
      let pprev := (index block.hashPrevBlock).getD []
      Function.update index block.hash
        (some (newEntry params literal index block pprev :: pprev))

/-! ## What the computation reads -/

theorem selectBlockFromCandidates_congr {params : KernelParams}
    {index index' : BlockMap} {items : List (Nat × UInt256)}
    (agree : ∀ item ∈ items, index item.2 = index' item.2)
    (selected : List UInt256) (nSelectionIntervalStop : Int)
    (nStakeModifierPrev : UInt64) (fModifierV2 : Option Bool)
    (best : Option (UInt256 × CBlockIndex)) :
    selectBlockFromCandidates params index selected nSelectionIntervalStop
        nStakeModifierPrev fModifierV2 best items =
      selectBlockFromCandidates params index' selected
        nSelectionIntervalStop nStakeModifierPrev fModifierV2 best items := by
  induction items generalizing fModifierV2 best with
  | nil => rfl
  | cons item rest ih =>
      rw [List.forall_mem_cons] at agree
      simp only [selectBlockFromCandidates, agree.1, ih agree.2]

theorem selectRounds_congr {params : KernelParams} {index index' : BlockMap}
    {items : List (Nat × UInt256)}
    (agree : ∀ item ∈ items, index item.2 = index' item.2)
    (nStakeModifier : UInt64) (rounds nRound : Nat) (stop : Int)
    (selected : List UInt256) (nStakeModifierNew : UInt64) :
    selectRounds params index items nStakeModifier rounds nRound stop
        selected nStakeModifierNew =
      selectRounds params index' items nStakeModifier rounds nRound stop
        selected nStakeModifierNew := by
  induction rounds generalizing nRound stop selected nStakeModifierNew with
  | zero => rfl
  | succ rounds ih =>
      simp only [selectRounds, selectBlockFromCandidates_congr agree, ih]

/-- Every candidate is a block of the chain. -/
theorem mem_sortedByTimestamp {start : Int} {chain : List CBlockIndex}
    {item : Nat × UInt256} (member : item ∈ sortedByTimestamp start chain) :
    ∃ pindex ∈ chain, pindex.getBlockHash = item.2 := by
  unfold sortedByTimestamp at member
  rw [List.mem_mergeSort, List.mem_reverse, List.mem_map] at member
  rcases member with ⟨pindex, recent, rfl⟩
  exact ⟨pindex, List.takeWhile_subset _ recent, rfl⟩

/-- The computation reads the index at the blocks of the chain only. -/
theorem computeNextStakeModifier_congr {params : KernelParams}
    {literal : UInt64} {index index' : BlockMap} {chain : List CBlockIndex}
    (agree : ∀ pindex ∈ chain,
      index pindex.getBlockHash = index' pindex.getBlockHash) :
    computeNextStakeModifier params literal index chain =
      computeNextStakeModifier params literal index' chain := by
  have candidates : ∀ start, ∀ item ∈ sortedByTimestamp start chain,
      index item.2 = index' item.2 := by
    intro start item member
    rcases mem_sortedByTimestamp member with ⟨pindex, inChain, same⟩
    rw [← same]
    exact agree pindex inChain
  cases chain with
  | nil => rfl
  | cons prev rest =>
      simp only [computeNextStakeModifier, selectRounds_congr (candidates _)]

/-- Past the first block the address of the string plays no part. -/
theorem computeNextStakeModifier_literal {params : KernelParams}
    {index : BlockMap} {prev : CBlockIndex} {rest : List CBlockIndex}
    (later : prev.nHeight ≠ 0) (literal literal' : UInt64) :
    computeNextStakeModifier params literal index (prev :: rest) =
      computeNextStakeModifier params literal' index (prev :: rest) := by
  unfold computeNextStakeModifier
  dsimp only
  rw [if_neg later, if_neg later]

theorem newEntry_congr {params : KernelParams} {literal : UInt64}
    {index index' : BlockMap} {block : Block} {pprev : List CBlockIndex}
    (agree : ∀ pindex ∈ pprev,
      index pindex.getBlockHash = index' pindex.getBlockHash) :
    newEntry params literal index block pprev =
      newEntry params literal index' block pprev := by
  cases pprev with
  | nil => rfl
  | cons parent rest =>
      simp only [newEntry, computeNextStakeModifier_congr agree]

@[simp]
theorem newEntry_block (params : KernelParams) (literal : UInt64)
    (index : BlockMap) (block : Block) (pprev : List CBlockIndex) :
    (newEntry params literal index block pprev).block = block := by
  cases pprev <;> rfl

/-! ## Runs -/

/-- Blocks are indexed by processes that hold the string somewhere. -/
abbrev Event := UInt64 × Block

/-- The index after a run, with restarts between any two blocks. -/
def runIndex (params : KernelParams) (events : List Event) : BlockMap :=
  events.foldl (fun index event =>
    addToBlockIndex params event.1 event.2 index) fun _ => none

/-- The address of the string in the process that indexed a block. -/
def addressIn (events : List Event) (hash : UInt256) : UInt64 :=
  match events.find? fun event => event.2.hash = hash with
  | none => 0
  | some event => event.1

/-- The parent of a chain is where the index says. -/
def Behind (index : BlockMap) : List CBlockIndex → Prop
  | [] => True
  | parent :: rest => index parent.getBlockHash = some (parent :: rest)

/-- Every entry was made from the entries behind it. -/
def Indexed (params : KernelParams) (address : UInt256 → UInt64)
    (index : BlockMap) : Prop :=
  ∀ hash chain, index hash = some chain → ∃ pindex pprev,
    chain = pindex :: pprev ∧ pindex.getBlockHash = hash ∧
      Behind index pprev ∧
      pindex = newEntry params (address hash) index pindex.block pprev

theorem Indexed.tail {params : KernelParams} {address : UInt256 → UInt64}
    {index : BlockMap} (indexed : Indexed params address index)
    {parent : CBlockIndex} {rest : List CBlockIndex}
    (behind : Behind index (parent :: rest)) : Behind index rest := by
  rcases indexed _ _ behind with ⟨pindex, pprev, same, _, next, _⟩
  cases same
  exact next

theorem Indexed.made {params : KernelParams} {address : UInt256 → UInt64}
    {index : BlockMap} (indexed : Indexed params address index)
    {pindex : CBlockIndex} {pprev : List CBlockIndex}
    (behind : Behind index (pindex :: pprev)) :
    pindex = newEntry params (address pindex.getBlockHash) index pindex.block
      pprev := by
  rcases indexed _ _ behind with ⟨_, _, same, _, _, made⟩
  cases same
  exact made

/-- Two indexes with the same chain agree on its blocks. -/
theorem agree_of_behind {params : KernelParams}
    {address address' : UInt256 → UInt64} {index index' : BlockMap}
    (indexed : Indexed params address index)
    (indexed' : Indexed params address' index') {chain : List CBlockIndex}
    (behind : Behind index chain) (behind' : Behind index' chain) :
    ∀ pindex ∈ chain,
      index pindex.getBlockHash = index' pindex.getBlockHash := by
  induction chain with
  | nil => simp
  | cons parent rest ih =>
      rw [List.forall_mem_cons]
      refine ⟨?_, ih (indexed.tail behind) (indexed'.tail behind')⟩
      rw [behind, behind']

theorem isSome_of_behind {params : KernelParams}
    {address : UInt256 → UInt64} {index : BlockMap}
    (indexed : Indexed params address index) {chain : List CBlockIndex}
    (behind : Behind index chain) :
    ∀ pindex ∈ chain, (index pindex.getBlockHash).isSome = true := by
  induction chain with
  | nil => simp
  | cons parent rest ih =>
      rw [List.forall_mem_cons]
      refine ⟨?_, ih (indexed.tail behind)⟩
      rw [behind]
      rfl

theorem Indexed.nHeight {params : KernelParams} {address : UInt256 → UInt64}
    {index : BlockMap} (indexed : Indexed params address index)
    {pindex : CBlockIndex} {pprev : List CBlockIndex}
    (behind : Behind index (pindex :: pprev)) :
    pindex.nHeight = pprev.length := by
  induction pprev generalizing pindex with
  | nil =>
      rcases indexed _ _ behind with ⟨_, _, same, _, _, made⟩
      cases same
      rw [made]
      rfl
  | cons parent rest ih =>
      have height := ih (indexed.tail behind)
      rcases indexed _ _ behind with ⟨_, _, same, _, _, made⟩
      cases same
      rw [made, List.length_cons, ← height]
      rfl

/-- One call adds at most one entry, where there was none. -/
theorem addToBlockIndex_indexed {params : KernelParams}
    {address : UInt256 → UInt64} {index : BlockMap}
    (indexed : Indexed params address index) (literal : UInt64)
    (block : Block)
    (fresh : index block.hash = none → address block.hash = literal) :
    Indexed params address (addToBlockIndex params literal block index) := by
  unfold addToBlockIndex
  cases known : index block.hash with
  | some chain => exact indexed
  | none =>
      have literalEq := fresh known
      dsimp only
      -- Chains that are already there do not mention the new hash.
      have kept : ∀ chain, Behind index chain → ∀ entry,
          Behind (Function.update index block.hash (some entry)) chain ∧
            ∀ pindex ∈ chain, index pindex.getBlockHash =
              Function.update index block.hash (some entry)
                pindex.getBlockHash := by
        intro chain behind entry
        have other : ∀ pindex ∈ chain, pindex.getBlockHash ≠ block.hash := by
          intro pindex member same
          have present := isSome_of_behind indexed behind pindex member
          rw [same, known] at present
          cases present
        refine ⟨?_, ?_⟩
        · cases chain with
          | nil => trivial
          | cons parent rest =>
              rw [Behind, Function.update_of_ne (other parent (by simp))]
              exact behind
        · intro pindex member
          rw [Function.update_of_ne (other pindex member)]
      have parent : Behind index ((index block.hashPrevBlock).getD []) := by
        cases found : index block.hashPrevBlock with
        | none => trivial
        | some chain =>
            rcases indexed _ _ found with ⟨pindex, pprev, rfl, here, _, _⟩
            rw [Option.getD_some, Behind, here, found]
      intro hash chain found
      by_cases same : hash = block.hash
      · subst same
        rw [Function.update_self] at found
        cases found
        refine ⟨_, _, rfl, ?_, (kept _ parent _).1, ?_⟩
        · rw [CBlockIndex.getBlockHash, newEntry_block]
        · rw [newEntry_block, literalEq]
          exact newEntry_congr (kept _ parent _).2
      · rw [Function.update_of_ne same] at found
        rcases indexed _ _ found with ⟨pindex, pprev, rfl, here, next, made⟩
        refine ⟨pindex, pprev, rfl, here, (kept _ next _).1, ?_⟩
        rw [← newEntry_congr (kept _ next _).2]
        exact made

theorem addToBlockIndex_isSome (params : KernelParams) (literal : UInt64)
    (block : Block) (index : BlockMap) (hash : UInt256) :
    (addToBlockIndex params literal block index hash).isSome =
      ((index hash).isSome || decide (block.hash = hash)) := by
  unfold addToBlockIndex
  cases known : index block.hash with
  | some chain =>
      dsimp only
      by_cases same : block.hash = hash
      · rw [← same, known]
        rfl
      · simp [same]
  | none =>
      dsimp only
      by_cases same : block.hash = hash
      · rw [← same]
        simp
      · rw [Function.update_of_ne (Ne.symm same)]
        simp [same]

theorem runIndex_concat (params : KernelParams) (events : List Event)
    (event : Event) :
    runIndex params (events ++ [event]) =
      addToBlockIndex params event.1 event.2 (runIndex params events) := by
  rw [runIndex, List.foldl_append]
  rfl

/-- The index holds the blocks of the run. -/
theorem runIndex_isSome (params : KernelParams) (events : List Event)
    (hash : UInt256) :
    (runIndex params events hash).isSome =
      events.any fun event => event.2.hash = hash := by
  induction events using List.reverseRecOn with
  | nil => rfl
  | append_singleton events event ih =>
      rw [runIndex_concat, addToBlockIndex_isSome, ih, List.any_append]
      simp

theorem addressIn_concat (events : List Event) (event : Event)
    (hash : UInt256) :
    addressIn (events ++ [event]) hash =
      if (events.any fun event => event.2.hash = hash) then
        addressIn events hash
      else if event.2.hash = hash then event.1 else 0 := by
  unfold addressIn
  rw [List.find?_append]
  cases found : events.find? fun event => event.2.hash = hash with
  | some earlier =>
      have present : (events.any fun event => event.2.hash = hash) = true :=
        List.any_eq_true.mpr ⟨earlier, List.mem_of_find?_eq_some found,
          by simpa using List.find?_some found⟩
      rw [if_pos present]
      rfl
  | none =>
      have absent : (events.any fun event => event.2.hash = hash) = false := by
        rw [List.any_eq_false]
        exact List.find?_eq_none.mp found
      rw [absent, if_neg (by simp)]
      by_cases same : event.2.hash = hash
      · simp [same]
      · simp [same]

theorem runIndex_indexed (params : KernelParams) (events : List Event) :
    Indexed params (addressIn events) (runIndex params events) := by
  induction events using List.reverseRecOn with
  | nil =>
      intro hash chain found
      cases found
  | append_singleton events event ih =>
      rw [runIndex_concat]
      apply addToBlockIndex_indexed
      · intro hash chain found
        have present : (events.any fun event => event.2.hash = hash) =
            true := by
          rw [← runIndex_isSome params, found]
          rfl
        rw [addressIn_concat, if_pos present]
        exact ih hash chain found
      · intro absent
        have none : (events.any fun other => other.2.hash =
            event.2.hash) = false := by
          rw [← runIndex_isSome params, absent]
          rfl
        rw [addressIn_concat, none, if_neg (by simp), if_pos rfl]

/-! ## Two runs -/

/-- The modifiers and flags along a chain. -/
def modifiers (chain : List CBlockIndex) : List (UInt64 × Bool) :=
  chain.map fun pindex =>
    (pindex.nStakeModifier, pindex.fGeneratedStakeModifier)

/-- The first block after genesis. -/
def firstBlock (blocks : List Block) : Option Block := blocks.reverse[1]?

theorem firstBlock_cons {block first : Block} {rest : List Block}
    (found : firstBlock rest = some first) :
    firstBlock (block :: rest) = some first := by
  unfold firstBlock at found ⊢
  rw [List.reverse_cons, List.getElem?_append_left]
  · exact found
  · exact (List.getElem?_eq_some_iff.mp found).1

/-- The first block after genesis has the address for its modifier. -/
theorem Indexed.firstModifier {params : KernelParams}
    {address : UInt256 → UInt64} {index : BlockMap}
    (indexed : Indexed params address index) {chain : List CBlockIndex}
    (behind : Behind index chain) {pindex : CBlockIndex}
    (first : chain.reverse[1]? = some pindex) :
    pindex.nStakeModifier = address pindex.getBlockHash := by
  induction chain with
  | nil => cases first
  | cons newest pprev ih =>
      rw [List.reverse_cons] at first
      by_cases long : 1 < pprev.reverse.length
      · rw [List.getElem?_append_left long] at first
        exact ih (indexed.tail behind) first
      · rw [List.getElem?_append_right (by omega)] at first
        have isNewest : newest = pindex ∧ pprev.length = 1 := by
          rw [List.getElem?_singleton] at first
          split_ifs at first with here
          rw [List.length_reverse] at here long
          exact ⟨Option.some.inj first, by omega⟩
        rcases isNewest with ⟨rfl, length⟩
        rcases List.length_eq_one_iff.mp length with ⟨genesis, rfl⟩
        have height : genesis.nHeight = 0 :=
          indexed.nHeight (indexed.tail behind)
        rw [indexed.made behind]
        simp only [newEntry, computeNextStakeModifier]
        rw [if_pos height]
        rfl

/-- The literal counts for a child of genesis only. -/
theorem newEntry_literal {params : KernelParams} {literal literal' : UInt64}
    {index : BlockMap} {block : Block} {pprev : List CBlockIndex}
    (same : ∀ parent rest, pprev = parent :: rest → parent.nHeight = 0 →
      literal = literal') :
    newEntry params literal index block pprev =
      newEntry params literal' index block pprev := by
  cases pprev with
  | nil => rfl
  | cons parent rest =>
      simp only [newEntry]
      by_cases genesis : parent.nHeight = 0
      · rw [same parent rest rfl genesis]
      · rw [computeNextStakeModifier_literal genesis literal literal']

/-- With the same address for the first block the chains are the same. -/
theorem chain_eq {params : KernelParams}
    {address address' : UInt256 → UInt64} {index index' : BlockMap}
    (indexed : Indexed params address index)
    (indexed' : Indexed params address' index')
    {chain chain' : List CBlockIndex} (behind : Behind index chain)
    (behind' : Behind index' chain')
    (same : chain.map CBlockIndex.block = chain'.map CBlockIndex.block)
    (addresses : ∀ block,
      firstBlock (chain.map CBlockIndex.block) = some block →
        address block.hash = address' block.hash) :
    chain = chain' := by
  induction chain generalizing chain' with
  | nil =>
      symm
      simpa using same
  | cons pindex pprev ih =>
      cases chain' with
      | nil => simp at same
      | cons pindex' pprev' =>
          rw [List.map_cons, List.map_cons, List.cons.injEq] at same
          have tails : pprev = pprev' := by
            apply ih (indexed.tail behind) (indexed'.tail behind') same.2
            intro block found
            exact addresses block (firstBlock_cons found)
          subst tails
          have agree := agree_of_behind indexed indexed'
            (indexed.tail behind) (indexed'.tail behind')
          have made := indexed.made behind
          have made' := indexed'.made behind'
          have hash : pindex'.getBlockHash = pindex.getBlockHash :=
            congrArg Block.hash same.1.symm
          rw [hash, ← same.1, ← newEntry_congr agree] at made'
          have entries : pindex = pindex' := by
            rw [made, made']
            apply newEntry_literal
            rintro parent rest rfl genesis
            -- Only genesis has height zero, so the block is the first one.
            have height := indexed.nHeight (indexed.tail behind)
            rw [genesis] at height
            have short := List.length_eq_zero_iff.mp height.symm
            subst short
            exact addresses pindex.block rfl
          rw [entries]

theorem behind_of_found {params : KernelParams} {address : UInt256 → UInt64}
    {index : BlockMap} (indexed : Indexed params address index)
    {hash : UInt256} {chain : List CBlockIndex}
    (found : index hash = some chain) : Behind index chain := by
  rcases indexed _ _ found with ⟨pindex, pprev, rfl, rfl, _, _⟩
  exact found

/--
Two nodes with the same chain have the same modifiers and flags along it
exactly when the string was at the same address in the two processes that
indexed the first block after genesis.
-/
theorem stake_modifiers_agree_iff (params : KernelParams)
    (first second : List Event) (hash : UInt256)
    (chain chain' : List CBlockIndex)
    (found : runIndex params first hash = some chain)
    (found' : runIndex params second hash = some chain')
    (same : chain.map CBlockIndex.block = chain'.map CBlockIndex.block) :
    modifiers chain = modifiers chain' ↔
      ∀ block, firstBlock (chain.map CBlockIndex.block) = some block →
        addressIn first block.hash = addressIn second block.hash := by
  have indexed := runIndex_indexed params first
  have indexed' := runIndex_indexed params second
  have behind := behind_of_found indexed found
  have behind' := behind_of_found indexed' found'
  constructor
  · intro agree block isFirst
    have here := isFirst
    have there := isFirst
    rw [same] at there
    rw [firstBlock, ← List.map_reverse, List.getElem?_map] at here there
    rcases Option.map_eq_some_iff.mp here with ⟨pindex, at1, rfl⟩
    rcases Option.map_eq_some_iff.mp there with ⟨pindex', at1', equal⟩
    have modifier : pindex.nStakeModifier = pindex'.nStakeModifier := by
      have reversed := congrArg (fun list => list.reverse[1]?) agree
      simp only [modifiers, ← List.map_reverse, List.getElem?_map, at1,
        at1', Option.map_some, Option.some.injEq, Prod.mk.injEq] at reversed
      exact reversed.1
    rw [indexed.firstModifier behind at1,
      indexed'.firstModifier behind' at1', CBlockIndex.getBlockHash,
      CBlockIndex.getBlockHash, equal] at modifier
    exact modifier
  · intro addresses
    rw [chain_eq indexed indexed' behind behind' same addresses]

/-! ## Two addresses -/

/-- Genesis and the two blocks on top of it, two minutes apart. -/
def genesis : Block := ⟨11, 0, 1000000, false, 0⟩
def blockOne : Block := ⟨12, 11, 1000120, false, 0⟩
def blockTwo : Block := ⟨13, 12, 1000240, false, 0⟩

/-- The first block was indexed with the string at `literal`. -/
def indexing (literal elsewhere : UInt64) : List Event :=
  [(elsewhere, genesis), (literal, blockOne), (elsewhere, blockTwo)]

/-- A sum to which each byte and its place contribute, as a hash. -/
def weightedSum (bytes : Bytes) : UInt256 :=
  BitVec.ofNat 256 (bytes.foldl (fun sum byte => 3 * sum + byte.toNat) 0)

def plainParams : KernelParams := ⟨weightedSum, 0⟩

theorem stake_modifiers_agree_iff_threeBlocks :
    ∃ chain chain',
      runIndex plainParams (indexing 0x555000 0x1) 13 = some chain ∧
      runIndex plainParams (indexing 0x555000 0x2) 13 = some chain' ∧
      chain.length = 3 ∧ modifiers chain = modifiers chain' := by
  have ends : (runIndex plainParams (indexing 0x555000 0x1) 13).isSome ∧
      (runIndex plainParams (indexing 0x555000 0x2) 13).isSome := by
    decide +kernel
  rcases Option.isSome_iff_exists.mp ends.1 with ⟨chain, found⟩
  rcases Option.isSome_iff_exists.mp ends.2 with ⟨chain', found'⟩
  have blocks : (runIndex plainParams (indexing 0x555000 0x1) 13).map
      (List.map CBlockIndex.block) = some [blockTwo, blockOne, genesis] := by
    decide +kernel
  have blocks' : (runIndex plainParams (indexing 0x555000 0x2) 13).map
      (List.map CBlockIndex.block) = some [blockTwo, blockOne, genesis] := by
    decide +kernel
  rw [found] at blocks
  rw [found'] at blocks'
  have three : chain.map CBlockIndex.block = [blockTwo, blockOne, genesis] :=
    Option.some.inj blocks
  have three' : chain'.map CBlockIndex.block =
      [blockTwo, blockOne, genesis] :=
    Option.some.inj blocks'
  refine ⟨chain, chain', found, found', ?_, ?_⟩
  · rw [← List.length_map CBlockIndex.block, three]
    rfl
  · refine (stake_modifiers_agree_iff plainParams _ _ 13 chain chain' found
      found' (three.trans three'.symm)).mpr ?_
    intro block isFirst
    rw [three] at isFirst
    cases isFirst
    decide

/-- Two processes that load the program at different addresses disagree. -/
theorem modifier_depends_on_process :
    ¬ ∀ (params : KernelParams) (first second : List Event)
        (hash : UInt256) (chain chain' : List CBlockIndex),
      runIndex params first hash = some chain →
      runIndex params second hash = some chain' →
      chain.map CBlockIndex.block = chain'.map CBlockIndex.block →
        modifiers chain = modifiers chain' := by
  intro claim
  have index : ∀ literal, runIndex plainParams
      [(literal, genesis), (literal, blockOne)] 12 =
        some [⟨blockOne, 1, literal, true⟩, ⟨genesis, 0, 0, false⟩] := by
    intro literal
    rfl
  have agree := claim plainParams _ _ 12 _ _ (index 0x555000)
    (index 0x777000) rfl
  exact absurd agree (by decide)

end PrivateDatagram.Consensus.StakeModifier
