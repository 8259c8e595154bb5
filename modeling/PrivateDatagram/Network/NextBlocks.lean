import PrivateDatagram.Chainstate.SkipList

/-!
# The next blocks to download

`FindNextBlocksToDownload` goes up from the last block that a peer has in
common with us towards the best block that it is known to have, and picks blocks
that are neither stored nor in flight.  It reads the way up in batches: the last
block of a batch comes from `GetAncestor`, the others from `pprev`, and each is
written to its place in `vToFetch`.

The batches together are the whole way up, block after block, whatever their
sizes.  So the search is one scan that ends at an invalid block, behind the
window, with enough blocks, or at the end of the way.

A null pointer that is dereferenced, an index outside of `vToFetch`, and too
few rounds of a loop are no result.
-/

namespace PrivateDatagram.Network.NextBlocks

open Library.ParentForest Wire.Serialize Chainstate.SkipList

variable {P : Type}

/-! ## State -/

abbrev NodeId := Int

/-- `BLOCK_DOWNLOAD_WINDOW`. -/
def blockDownloadWindow : Nat := 1024

def blockValidMask : UInt32 := 7
def blockValidTree : UInt32 := 2
def blockHaveData : UInt32 := 8
def blockFailedMask : UInt32 := 96

/-- The blocks we know, and those that were asked for. -/
structure Index (P : Type) where
  memory : Memory P
  nChainWork : P → UInt256
  nStatus : P → UInt32
  nChainTx : P → UInt32
  getBlockHash : P → UInt256
  mapBlockIndex : UInt256 → Option P
  /-- The blocks of `chainActive`, genesis first. -/
  vChain : List P
  /-- The peer that a block was asked from. -/
  mapBlocksInFlight : UInt256 → Option NodeId

structure CNodeState (P : Type) where
  pindexBestKnownBlock : Option P
  hashLastUnknownBlock : UInt256
  pindexLastCommonBlock : Option P

namespace Index

/-- `IsValid(BLOCK_VALID_TREE)`. -/
def isValidTree (index : Index P) (pindex : P) : Bool :=
  if index.nStatus pindex &&& blockFailedMask ≠ 0 then
    false
  else
    index.nStatus pindex &&& blockValidMask ≥ blockValidTree

def haveData (index : Index P) (pindex : P) : Bool :=
  index.nStatus pindex &&& blockHaveData ≠ 0

/-- The peer that the block was asked from. -/
def source (index : Index P) (pindex : P) : Option NodeId :=
  index.mapBlocksInFlight (index.getBlockHash pindex)

end Index

/-- `ProcessBlockAvailability`. -/
def processBlockAvailability (index : Index P) (state : CNodeState P) :
    CNodeState P :=
  if state.hashLastUnknownBlock = 0 then
    state
  else
    match index.mapBlockIndex state.hashLastUnknownBlock with
    | none => state
    | some known =>
        if index.nChainWork known > 0 then
          { state with
            pindexBestKnownBlock :=
              match state.pindexBestKnownBlock with
              | none => some known
              | some best =>
                  if index.nChainWork known ≥ index.nChainWork best then
                    some known
                  else
                    some best
            hashLastUnknownBlock := 0 }
        else
          state

/-! ## The scan of a batch -/

/-- What the search changes. -/
structure Search (P : Type) where
  pindexLastCommonBlock : Option P
  vBlocks : List P
  waitingfor : NodeId
  nodeStaller : NodeId

/-- One block of a batch; `true` when the function returns here. -/
def scanBlock (index : Index P) (nodeid : NodeId) (count : Nat)
    (nWindowEnd : Int) (pindex : P) (search : Search P) : Bool × Search P :=
  if !index.isValidTree pindex then
    (true, search)
  else if index.haveData pindex then
    if index.nChainTx pindex ≠ 0 then
      (false, { search with pindexLastCommonBlock := some pindex })
    else
      (false, search)
  else
    match index.source pindex with
    | none =>
        if (index.memory pindex).nHeight > nWindowEnd then
          if search.vBlocks.length = 0 ∧ search.waitingfor ≠ nodeid then
            (true, { search with nodeStaller := search.waitingfor })
          else
            (true, search)
        else
          let search := { search with vBlocks := search.vBlocks ++ [pindex] }
          (decide (search.vBlocks.length = count), search)
    | some source =>
        if search.waitingfor = -1 then
          (false, { search with waitingfor := source })
        else
          (false, search)

/-- The loop over `vToFetch`. -/
def scanBlocks (index : Index P) (nodeid : NodeId) (count : Nat)
    (nWindowEnd : Int) : List (Option P) → Search P →
      Option (Bool × Search P)
  | [], search => some (false, search)
  | none :: _, _ => none
  | some pindex :: rest, search =>
      match scanBlock index nodeid count nWindowEnd pindex search with
      | (true, search) => some (true, search)
      | (false, search) => scanBlocks index nodeid count nWindowEnd rest search

/-! ## The batches -/

/-- `vToFetch.resize`. -/
def resize (size : Nat) (vToFetch : List (Option P)) : List (Option P) :=
  vToFetch.take size ++ List.replicate (size - vToFetch.length) none

/-- The loop that follows `pprev` from the index on down. -/
def fillToFetch (memory : Memory P) :
    Nat → List (Option P) → Option (List (Option P))
  | 0, vToFetch => some vToFetch
  | i + 1, vToFetch =>
      match vToFetch[i + 1]? with
      | some (some pindex) =>
          fillToFetch memory i (vToFetch.set i (memory pindex).pprev)
      | _ => none

/-- The conversion of a `size_t` to `int`. -/
def asInt (size : Nat) : Int :=
  if size % 2 ^ 32 < 2 ^ 31 then size % 2 ^ 32 else size % 2 ^ 32 - 2 ^ 32

/-- The number of blocks of the next batch. -/
def batchSize (count length : Nat) (remaining : Int) : Int :=
  min remaining (max (asInt ((count + 2 ^ 64 - length) % 2 ^ 64)) 128)

/-- The next batch: its last block, and `vToFetch`. -/
def fetchBatch (memory : Memory P) (pindexBest : P) (height nToFetch : Int)
    (vToFetch : List (Option P)) : Option (Option P × List (Option P)) :=
  if nToFetch < 1 then
    none
  else do
    let last := nToFetch.toNat - 1
    let pindexWalk ← getAncestor memory pindexBest (height + nToFetch)
    let vToFetch ← fillToFetch memory last
      ((resize nToFetch.toNat vToFetch).set last pindexWalk)
    pure (pindexWalk, vToFetch)

/-- The outer loop. -/
def downloadLoop (index : Index P) (nodeid : NodeId) (count : Nat)
    (nWindowEnd nMaxHeight : Int) (pindexBest : P) :
    Nat → Option P → List (Option P) → Search P → Option (Search P)
  | 0, _, _, _ => none
  | _ + 1, none, _, _ => none
  | rounds + 1, some walk, vToFetch, search =>
      let height : Int := (index.memory walk).nHeight
      if height < nMaxHeight then do
        let nToFetch :=
          batchSize count search.vBlocks.length (nMaxHeight - height)
        let (pindexWalk, vToFetch) ←
          fetchBatch index.memory pindexBest height nToFetch vToFetch
        match ← scanBlocks index nodeid count nWindowEnd vToFetch search with
        | (true, search) => pure search
        | (false, search) =>
            downloadLoop index nodeid count nWindowEnd nMaxHeight pindexBest
              rounds pindexWalk vToFetch search
      else
        some search

/-! ## The function -/

/-- The last common block, before it is corrected: the recorded one, or the
active block at the height of the lower tip. -/
def guess (index : Index P) (state : CNodeState P) (pindexBest : P) :
    Option P :=
  state.pindexLastCommonBlock.or
    index.vChain[min (index.memory pindexBest).nHeight
      (index.vChain.length - 1)]?

structure Result (P : Type) where
  state : CNodeState P
  vBlocks : List P
  nodeStaller : NodeId

/-- The part behind the last common block. -/
def searchFrom [DecidableEq P] (index : Index P) (rounds : Nat) (nodeid : NodeId)
    (count : Nat) (vBlocks : List P) (nodeStaller : NodeId)
    (state : CNodeState P) (pindexBest pindexLastCommon : P) :
    Option (Result P) :=
  if pindexLastCommon = pindexBest then
    some ⟨state, vBlocks, nodeStaller⟩
  else do
    let height : Int := (index.memory pindexLastCommon).nHeight
    let nWindowEnd := height + blockDownloadWindow
    let nMaxHeight :=
      min ((index.memory pindexBest).nHeight : Int) (nWindowEnd + 1)
    let search ← downloadLoop index nodeid count nWindowEnd nMaxHeight
      pindexBest rounds (some pindexLastCommon) []
      ⟨some pindexLastCommon, vBlocks, -1, nodeStaller⟩
    pure
      { state :=
          { state with pindexLastCommonBlock := search.pindexLastCommonBlock }
        vBlocks := search.vBlocks
        nodeStaller := search.nodeStaller }

/-- `FindNextBlocksToDownload`. -/
def findNextBlocksToDownload [DecidableEq P] (index : Index P)
    (rounds : Nat) (nodeid : NodeId) (count : UInt32) (vBlocks : List P)
    (nodeStaller : NodeId) (state : CNodeState P) : Option (Result P) :=
  if count = 0 then
    some ⟨state, vBlocks, nodeStaller⟩
  else
    let state := processBlockAvailability index state
    match state.pindexBestKnownBlock, index.vChain.getLast? with
    | none, _ => some ⟨state, vBlocks, nodeStaller⟩
    | some _, none => none
    | some pindexBest, some tip =>
        if index.nChainWork pindexBest < index.nChainWork tip then
          some ⟨state, vBlocks, nodeStaller⟩
        else do
          let pindexLastCommon ← lastCommonAncestor index.memory rounds
            (← guess index state pindexBest) pindexBest
          searchFrom index rounds nodeid count.toNat vBlocks nodeStaller
            { state with pindexLastCommonBlock := pindexLastCommon }
            pindexBest (← pindexLastCommon)

/-! ## One batch -/

variable {index : Index P} {blocks : Set P}

theorem length_resize (size : Nat) (vToFetch : List (Option P)) :
    (resize size vToFetch).length = size := by
  rw [resize, List.length_append, List.length_take, List.length_replicate]
  omega

/-- The loop leaves the way up to the block it starts at. -/
theorem fillToFetch_eq {memory : Memory P} (linked : Linked memory blocks)
    {i : Nat} {vToFetch : List (Option P)} {pindex : P}
    (member : pindex ∈ blocks) (bound : i ≤ nHeight memory pindex)
    (start : vToFetch[i]? = some (some pindex)) :
    fillToFetch memory i vToFetch =
      some ((pathTo (pprev memory) (i + 1) pindex).map some ++
        vToFetch.drop (i + 1)) := by
  induction i generalizing vToFetch pindex with
  | zero =>
      cases vToFetch with
      | nil => cases start
      | cons first rest =>
          cases Option.some.inj start
          cases link : pprev memory pindex <;>
            simp [fillToFetch, pathTo, link]
  | succ i hypothesis =>
      obtain ⟨lower, _⟩ := List.getElem?_eq_some_iff.mp start
      cases link : pprev memory pindex with
      | none =>
          have zero := linked.forest.root pindex member link
          omega
      | some above =>
          rcases linked.forest.child pindex member above link with
            ⟨inside, height⟩
          have next : (vToFetch.set i (some above))[i]? =
              some (some above) :=
            List.getElem?_set_self (by omega)
          have rest : (vToFetch.set i (some above)).drop (i + 1) =
              some pindex :: vToFetch.drop (i + 2) := by
            rw [List.drop_set_of_lt (Nat.lt_succ_self i),
              List.drop_eq_getElem?_toList_append, start]
            rfl
          rw [fillToFetch, start]
          change fillToFetch memory i
            (vToFetch.set i (pprev memory pindex)) = _
          rw [link, hypothesis inside (by omega) next, rest,
            pathTo_succ link]
          simp

/-- A batch is the way up from a height to the block after so many. -/
theorem fetchBatch_eq {memory : Memory P} (linked : Linked memory blocks)
    {pindexBest next : P} (member : pindexBest ∈ blocks) {height size : Nat}
    (positive : 1 ≤ size) (bound : height + size ≤ nHeight memory pindexBest)
    (reached : follow (pprev memory)
      (nHeight memory pindexBest - (height + size)) pindexBest = some next)
    (vToFetch : List (Option P)) :
    fetchBatch memory pindexBest height size vToFetch =
      some (some next, (pathTo (pprev memory) size next).map some) := by
  rcases linked.forest.follow_height member reached with ⟨inside, sum⟩
  have found := getAncestor_eq linked member bound
  rw [reached] at found
  have length := length_resize size vToFetch
  have last : ((resize size vToFetch).set (size - 1) (some next))[size - 1]? =
      some (some next) :=
    List.getElem?_set_self (by omega)
  have filled := fillToFetch_eq linked inside (by omega) last
  have whole : size - 1 + 1 = size := by omega
  have none : ((resize size vToFetch).set (size - 1)
      (some next)).drop size = [] := by
    rw [List.drop_eq_nil_iff, List.length_set]
    omega
  rw [whole, none, List.append_nil] at filled
  unfold fetchBatch
  rw [if_neg (by omega), ← Nat.cast_add, found]
  simp only [Int.toNat_natCast, Option.bind_eq_bind, Option.bind_some]
  rw [filled]
  rfl

theorem batchSize_spec (count length remaining : Nat)
    (positive : 1 ≤ remaining) :
    ∃ size : Nat, batchSize count length remaining = size ∧
      1 ≤ size ∧ size ≤ remaining := by
  refine ⟨(batchSize count length remaining).toNat, ?_, ?_, ?_⟩
  all_goals
    unfold batchSize
    omega

/-! ## The scan of the whole way -/

theorem scanBlocks_append {nodeid : NodeId} {count : Nat} {nWindowEnd : Int}
    (front back : List (Option P)) (search : Search P) :
    scanBlocks index nodeid count nWindowEnd (front ++ back) search =
      (scanBlocks index nodeid count nWindowEnd front search).bind
        fun ended =>
          if ended.1 then
            some ended
          else
            scanBlocks index nodeid count nWindowEnd back ended.2 := by
  induction front generalizing search with
  | nil => rfl
  | cons first front hypothesis =>
      cases first with
      | none => rfl
      | some pindex =>
          rw [List.cons_append, scanBlocks, scanBlocks]
          split
          · rfl
          · exact hypothesis _

/-- The batches make up the way from a block to the height of the end. -/
theorem downloadLoop_eq (linked : Linked index.memory blocks)
    (nodeid : NodeId) (count : Nat) (nWindowEnd : Int) {pindexBest : P}
    (member : pindexBest ∈ blocks) {nMaxHeight : Nat}
    (bound : nMaxHeight ≤ nHeight index.memory pindexBest) {top : P}
    (reached : follow (pprev index.memory)
      (nHeight index.memory pindexBest - nMaxHeight) pindexBest = some top)
    {rounds : Nat} {walk : P} (onWay : walk ∈ blocks)
    (below : nHeight index.memory walk ≤ nMaxHeight)
    (path : IsAncestor (pprev index.memory) walk pindexBest)
    (enough : nMaxHeight - nHeight index.memory walk < rounds)
    (vToFetch : List (Option P)) (search : Search P) :
    downloadLoop index nodeid count nWindowEnd nMaxHeight pindexBest rounds
        (some walk) vToFetch search =
      (scanBlocks index nodeid count nWindowEnd
        ((pathTo (pprev index.memory)
          (nMaxHeight - nHeight index.memory walk) top).map some)
        search).map Prod.snd := by
  induction rounds generalizing walk vToFetch search with
  | zero => omega
  | succ rounds hypothesis =>
      rw [downloadLoop]
      change (if (nHeight index.memory walk : Int) < nMaxHeight then _
        else _) = _
      split_ifs with more
      · have steps : (nMaxHeight : Int) - nHeight index.memory walk =
            (nMaxHeight - nHeight index.memory walk : Nat) := by
          omega
        rcases batchSize_spec count search.vBlocks.length
          (nMaxHeight - nHeight index.memory walk) (by omega) with
          ⟨size, sized, positive, fits⟩
        rcases linked.forest.follow_some member
          (nHeight index.memory pindexBest -
            (nHeight index.memory walk + size)) (by omega) with
          ⟨next, inside, passed, sum⟩
        have batch := fetchBatch_eq linked member positive (by omega) passed
          vToFetch
        have later : follow (pprev index.memory)
            (nMaxHeight - nHeight index.memory walk - size) top =
              some next := by
          have split : nHeight index.memory pindexBest -
              (nHeight index.memory walk + size) =
                (nHeight index.memory pindexBest - nMaxHeight) +
                  (nMaxHeight - nHeight index.memory walk - size) := by
            omega
          rwa [split, follow_add, reached, Option.bind_some] at passed
        have way : pathTo (pprev index.memory) (size +
            (nMaxHeight - nHeight index.memory walk - size)) top = _ :=
          pathTo_add later
        have whole : size + (nMaxHeight - nHeight index.memory walk - size) =
            nMaxHeight - nHeight index.memory walk := by
          omega
        have rest : nMaxHeight - nHeight index.memory walk - size =
            nMaxHeight - nHeight index.memory next := by
          omega
        rw [whole] at way
        rw [way, List.map_append, scanBlocks_append]
        change (fetchBatch index.memory pindexBest
          (nHeight index.memory walk)
          (batchSize count search.vBlocks.length
            (nMaxHeight - nHeight index.memory walk)) vToFetch).bind _ = _
        rw [steps, sized, batch, Option.bind_some]
        dsimp only
        cases scanned : scanBlocks index nodeid count nWindowEnd
          ((pathTo (pprev index.memory) size next).map some) search with
        | none => rfl
        | some ended =>
            rcases ended with ⟨returned, search'⟩
            cases returned with
            | true => rfl
            | false =>
                rw [rest]
                exact hypothesis inside (by omega) (.of_follow passed)
                  (by omega) _ _
      · have none : nMaxHeight - nHeight index.memory walk = 0 := by omega
        rw [none]
        rfl

/-- Not stored, and not asked from anybody. -/
structure Wanted (index : Index P) (pindex : P) : Prop where
  missing : index.haveData pindex = false
  free : index.source pindex = none

/-- How the scan of one block can end. -/
inductive Scanned (index : Index P) (count : Nat) (nWindowEnd : Int)
    (pindex : P) (search : Search P) : Bool × Search P → Prop where
  /-- The block is invalid. -/
  | invalid (failed : index.isValidTree pindex = false) :
      Scanned index count nWindowEnd pindex search (true, search)
  /-- The block is passed over. -/
  | passed (search' : Search P) (useless : ¬ Wanted index pindex)
      (same : search'.vBlocks = search.vBlocks) :
      Scanned index count nWindowEnd pindex search (false, search')
  /-- The block is behind the window. -/
  | outside (search' : Search P)
      (high : (nHeight index.memory pindex : Int) > nWindowEnd)
      (same : search'.vBlocks = search.vBlocks) :
      Scanned index count nWindowEnd pindex search (true, search')
  /-- The block is appended, perhaps as the last. -/
  | appended (search' : Search P) (wanted : Wanted index pindex)
      (low : (nHeight index.memory pindex : Int) ≤ nWindowEnd)
      (more : search'.vBlocks = search.vBlocks ++ [pindex]) :
      Scanned index count nWindowEnd pindex search
        (decide (search'.vBlocks.length = count), search')

theorem scanBlock_scanned (nodeid : NodeId) (count : Nat) (nWindowEnd : Int)
    (pindex : P) (search : Search P) :
    Scanned index count nWindowEnd pindex search
      (scanBlock index nodeid count nWindowEnd pindex search) := by
  unfold scanBlock
  split
  next invalid => exact .invalid (by simpa using invalid)
  next =>
    split
    next stored =>
      have useless : ¬ Wanted index pindex := fun wanted =>
        Bool.false_ne_true (wanted.missing.symm.trans stored)
      split
      · exact .passed _ useless rfl
      · exact .passed _ useless rfl
    next stored =>
      rw [Bool.not_eq_true] at stored
      split
      next free =>
        split
        next high =>
          split
          · exact .outside _ high rfl
          · exact .outside _ high rfl
        next low => exact .appended _ ⟨stored, free⟩ (not_lt.mp low) rfl
      next source asked =>
        have useless : ¬ Wanted index pindex := by
          intro wanted
          cases asked.symm.trans wanted.free
        split
        · exact .passed _ useless rfl
        · exact .passed _ useless rfl

/-- What a scan appends. -/
structure Appends (index : Index P) (count : Nat) (nWindowEnd : Int)
    (way before after new : List P) : Prop where
  append : after = before ++ new
  sublist : new.Sublist way
  wanted : ∀ pindex ∈ new, Wanted index pindex ∧
    (nHeight index.memory pindex : Int) ≤ nWindowEnd
  bound : after.length ≤ count
  /-- With room left, nothing before the first invalid block is left out. -/
  complete : after.length < count → ∀ pindex ∈ way,
    Wanted index pindex → (nHeight index.memory pindex : Int) ≤ nWindowEnd →
    (∀ other ∈ way,
      nHeight index.memory other ≤ nHeight index.memory pindex →
        index.isValidTree other = true) →
    pindex ∈ new

/-- Nothing is appended when the first block cannot be passed. -/
theorem Appends.nothing {count : Nat} {nWindowEnd : Int} {way before : List P}
    (room : before.length ≤ count)
    (stops : ∀ pindex ∈ way,
      (nHeight index.memory pindex : Int) ≤ nWindowEnd →
      ¬ ∀ other ∈ way,
        nHeight index.memory other ≤ nHeight index.memory pindex →
          index.isValidTree other = true) :
    Appends index count nWindowEnd way before before [] :=
  ⟨(List.append_nil _).symm, List.nil_sublist _, nofun, room,
    fun _ pindex member _ low valid =>
      absurd valid (stops pindex member low)⟩

/-- A block that is not wanted changes nothing. -/
theorem Appends.skip {count : Nat} {nWindowEnd : Int} {pindex : P}
    {rest before after new : List P} (useless : ¬ Wanted index pindex)
    (appends : Appends index count nWindowEnd rest before after new) :
    Appends index count nWindowEnd (pindex :: rest) before after new := by
  refine ⟨appends.append, appends.sublist.cons _, appends.wanted,
    appends.bound, ?_⟩
  intro room other member wanted low valid
  rcases List.mem_cons.mp member with rfl | within
  · exact absurd wanted useless
  · exact appends.complete room other within wanted low fun below inside =>
      valid below (List.mem_cons_of_mem _ inside)

/-- A wanted block comes before what is appended later. -/
theorem Appends.push {count : Nat} {nWindowEnd : Int} {pindex : P}
    {rest before after new : List P} (wanted : Wanted index pindex)
    (low : (nHeight index.memory pindex : Int) ≤ nWindowEnd)
    (appends : Appends index count nWindowEnd rest (before ++ [pindex])
      after new) :
    Appends index count nWindowEnd (pindex :: rest) before after
      (pindex :: new) := by
  refine ⟨?_, appends.sublist.cons_cons _, ?_, appends.bound, ?_⟩
  · rw [appends.append, List.append_assoc, List.singleton_append]
  · rw [List.forall_mem_cons]
    exact ⟨⟨wanted, low⟩, appends.wanted⟩
  · intro room other member needed small valid
    rcases List.mem_cons.mp member with rfl | within
    · exact List.mem_cons_self
    · exact List.mem_cons_of_mem _ (appends.complete room other within needed
        small fun below inside =>
          valid below (List.mem_cons_of_mem _ inside))

theorem scanBlocks_appends (nodeid : NodeId) {count : Nat} (nWindowEnd : Int)
    {way : List P} (increasing : way.Pairwise fun first second =>
      nHeight index.memory first < nHeight index.memory second)
    {search : Search P} (room : search.vBlocks.length < count) :
    ∃ returned search' new,
      scanBlocks index nodeid count nWindowEnd (way.map some) search =
        some (returned, search') ∧
      Appends index count nWindowEnd way search.vBlocks search'.vBlocks
        new := by
  induction way generalizing search with
  | nil => exact ⟨false, search, [], rfl, .nothing room.le nofun⟩
  | cons pindex rest hypothesis =>
      rw [List.pairwise_cons] at increasing
      rcases increasing with ⟨lowest, increasing⟩
      have head : ∀ other ∈ pindex :: rest,
          nHeight index.memory pindex ≤ nHeight index.memory other := by
        rw [List.forall_mem_cons]
        exact ⟨le_rfl, fun other member => (lowest other member).le⟩
      rw [List.map_cons, scanBlocks]
      have scanned : Scanned index count nWindowEnd pindex search _ :=
        scanBlock_scanned nodeid count nWindowEnd pindex search
      generalize scanBlock index nodeid count nWindowEnd pindex search =
        ended at scanned
      cases scanned with
      | invalid failed =>
          refine ⟨true, search, [], rfl, .nothing room.le ?_⟩
          intro other member _ valid
          have first := valid pindex List.mem_cons_self (head other member)
          exact Bool.false_ne_true (failed.symm.trans first)
      | passed search' useless same =>
          rw [← same] at room ⊢
          rcases hypothesis increasing room with
            ⟨returned, search'', new, found, appends⟩
          exact ⟨returned, search'', new, found, appends.skip useless⟩
      | outside search' high same =>
          refine ⟨true, search', [], rfl, ?_⟩
          rw [same]
          refine .nothing room.le ?_
          intro other member low _
          have above := head other member
          omega
      | appended search' wanted low more =>
          by_cases full : search'.vBlocks.length = count
          · rw [decide_eq_true full]
            refine ⟨true, search', [pindex], rfl, ?_⟩
            refine Appends.push wanted low ?_
            rw [← more]
            refine ⟨(List.append_nil _).symm, List.nil_sublist _, nofun,
              full.le, ?_⟩
            intro free
            exact absurd full free.ne
          · rw [decide_eq_false full]
            have length := congrArg List.length more
            rw [List.length_append, List.length_singleton] at length
            have continues : search'.vBlocks.length < count := by omega
            rcases hypothesis increasing continues with
              ⟨returned, search'', new, found, appends⟩
            refine ⟨returned, search'', pindex :: new, found, ?_⟩
            rw [more] at appends
            exact appends.push wanted low

/-! ## The search -/

/-- The tree of blocks, with the active chain in it. -/
structure BlockTree (index : Index P) (blocks : Set P) : Prop where
  linked : Linked index.memory blocks
  root : ∃ genesis, ∀ pindex ∈ blocks,
    pprev index.memory pindex = none → pindex = genesis
  known : ∀ hash pindex, index.mapBlockIndex hash = some pindex →
    pindex ∈ blocks
  active : ∀ pindex ∈ index.vChain, pindex ∈ blocks

/-- The blocks that are recorded for a peer are in the tree. -/
structure PeerState (blocks : Set P) (state : CNodeState P) : Prop where
  best : ∀ pindex, state.pindexBestKnownBlock = some pindex →
    pindex ∈ blocks
  lastCommon : ∀ pindex, state.pindexLastCommonBlock = some pindex →
    pindex ∈ blocks

theorem processBlockAvailability_peerState (tree : BlockTree index blocks)
    {state : CNodeState P} (peer : PeerState blocks state) :
    PeerState blocks (processBlockAvailability index state) := by
  unfold processBlockAvailability
  split
  · exact peer
  · split
    · exact peer
    next known found =>
      have inside := tree.known _ known found
      split
      · refine ⟨?_, peer.lastCommon⟩
        dsimp only
        split
        · rintro pindex ⟨⟩
          exact inside
        next best recorded =>
          split_ifs
          · rintro pindex ⟨⟩
            exact inside
          · rintro pindex ⟨⟩
            exact peer.best best recorded
      · exact peer

/-- Any two blocks of the tree have genesis in common. -/
theorem BlockTree.common (tree : BlockTree index blocks) {pa pb : P}
    (memberA : pa ∈ blocks) (memberB : pb ∈ blocks) {result : Option P}
    (deepest : IsDeepestCommon (pprev index.memory) (nHeight index.memory)
      pa pb result) :
    ∃ pindex, result = some pindex := by
  rcases tree.root with ⟨genesis, unique⟩
  have toGenesis : ∀ pindex ∈ blocks,
      IsAncestor (pprev index.memory) genesis pindex := by
    intro pindex member
    rcases tree.linked.forest.follow_some member _ le_rfl with
      ⟨first, inside, reached, sum⟩
    cases link : pprev index.memory first with
    | none =>
        rw [← unique first inside link]
        exact .of_follow reached
    | some above =>
        have lower := (tree.linked.forest.child first inside above link).2
        omega
  cases result with
  | some pindex => exact ⟨pindex, rfl⟩
  | none =>
      exact absurd ⟨toGenesis pa memberA, toGenesis pb memberB⟩
        (deepest genesis)

/-- What the blocks to download are for. -/
structure Downloads (index : Index P) (count : Nat)
    (pindexBest pindexLastCommon : P) (vBlocks : List P) : Prop where
  bound : vBlocks.length ≤ count
  distinct : vBlocks.Nodup
  each : ∀ pindex ∈ vBlocks,
    IsAncestor (pprev index.memory) pindex pindexBest ∧
      Wanted index pindex ∧
      nHeight index.memory pindex ≤
        nHeight index.memory pindexLastCommon + blockDownloadWindow
  /-- With room left, all such blocks on the way from the last common block up
  to the first invalid one are there. -/
  complete : vBlocks.length < count → ∀ pindex,
    IsAncestor (pprev index.memory) pindex pindexBest →
    nHeight index.memory pindexLastCommon < nHeight index.memory pindex →
    nHeight index.memory pindex ≤
      nHeight index.memory pindexLastCommon + blockDownloadWindow →
    Wanted index pindex →
    (∀ other, IsAncestor (pprev index.memory) other pindex →
      nHeight index.memory pindexLastCommon < nHeight index.memory other →
      index.isValidTree other = true) →
    pindex ∈ vBlocks

/-- A scan of the whole way finds the blocks to download. -/
theorem Appends.downloads (linked : Linked index.memory blocks)
    {pindexBest pindexLastCommon top : P} (member : pindexBest ∈ blocks)
    (path : IsAncestor (pprev index.memory) top pindexBest)
    (lower : nHeight index.memory pindexLastCommon ≤
      nHeight index.memory top)
    (height : nHeight index.memory top =
      min (nHeight index.memory pindexBest)
        (nHeight index.memory pindexLastCommon + blockDownloadWindow + 1))
    {count : Nat} {vBlocks new : List P}
    (appends : Appends index count
      (nHeight index.memory pindexLastCommon + blockDownloadWindow : Nat)
      (pathTo (pprev index.memory) (nHeight index.memory top -
        nHeight index.memory pindexLastCommon) top) [] vBlocks new) :
    Downloads index count pindexBest pindexLastCommon vBlocks := by
  have topIn := (linked.forest.ancestor_height member path).1
  have onPath := linked.forest.mem_pathTo topIn (Nat.sub_le
    (nHeight index.memory top) (nHeight index.memory pindexLastCommon))
  have increasing := linked.forest.pathTo_increasing topIn (Nat.sub_le
    (nHeight index.memory top) (nHeight index.memory pindexLastCommon))
  have same : vBlocks = new := appends.append
  subst same
  refine ⟨appends.bound, ?_, ?_, ?_⟩
  · exact appends.sublist.nodup
      (increasing.imp fun less same => absurd (same ▸ less) (lt_irrefl _))
  · intro pindex found
    rcases appends.wanted pindex found with ⟨wanted, low⟩
    have way := (onPath pindex).mp (appends.sublist.subset found)
    exact ⟨way.1.trans path, wanted, by omega⟩
  · intro room pindex onBest above window wanted valid
    have bound := (linked.forest.ancestor_height member onBest).2.1
    have onTop := linked.forest.ancestor_of_height_le member onBest path
      (by omega)
    refine appends.complete room pindex ((onPath pindex).mpr
      ⟨onTop, by omega⟩) wanted (by omega) ?_
    intro other onWay order
    rcases (onPath other).mp onWay with ⟨otherOnTop, high⟩
    exact valid other (linked.forest.ancestor_of_height_le topIn otherOnTop
      onTop order) (by omega)

theorem searchFrom_downloads [DecidableEq P]
    (linked : Linked index.memory blocks)
    {pindexBest pindexLastCommon : P} (member : pindexBest ∈ blocks)
    (common : IsAncestor (pprev index.memory) pindexLastCommon pindexBest)
    (nodeid : NodeId) {count : Nat} (positive : 0 < count)
    (nodeStaller : NodeId) (state : CNodeState P) :
    ∃ result, (∀ rounds, nHeight index.memory pindexBest < rounds →
        searchFrom index rounds nodeid count [] nodeStaller state pindexBest
          pindexLastCommon = some result) ∧
      Downloads index count pindexBest pindexLastCommon result.vBlocks := by
  rcases linked.forest.ancestor_height member common with
    ⟨inside, lower, _⟩
  by_cases same : pindexLastCommon = pindexBest
  · refine ⟨⟨state, [], nodeStaller⟩, fun rounds _ => if_pos same, ?_⟩
    refine ⟨positive.le, List.nodup_nil, nofun, ?_⟩
    intro _ pindex onWay above
    have bound := (linked.forest.ancestor_height member onWay).2.1
    rw [same] at above
    omega
  · obtain ⟨nMaxHeight, maximum⟩ : ∃ nMaxHeight, nMaxHeight =
        min (nHeight index.memory pindexBest)
          (nHeight index.memory pindexLastCommon + blockDownloadWindow + 1) :=
      ⟨_, rfl⟩
    rcases linked.forest.follow_some member
      (nHeight index.memory pindexBest - nMaxHeight) (by omega) with
      ⟨top, topIn, reached, sum⟩
    have height : nHeight index.memory top = nMaxHeight := by omega
    have increasing := linked.forest.pathTo_increasing topIn (Nat.sub_le
      (nHeight index.memory top) (nHeight index.memory pindexLastCommon))
    have room : (⟨some pindexLastCommon, [], -1, nodeStaller⟩ :
        Search P).vBlocks.length < count := positive
    rcases scanBlocks_appends nodeid
      (nHeight index.memory pindexLastCommon + blockDownloadWindow : Nat)
      increasing room with ⟨returned, search, new, scanned, appends⟩
    refine ⟨⟨{ state with
      pindexLastCommonBlock := search.pindexLastCommonBlock },
      search.vBlocks, search.nodeStaller⟩, ?_,
      appends.downloads linked member (.of_follow reached) (by omega)
        (height.trans maximum)⟩
    intro rounds enough
    have loop := downloadLoop_eq linked nodeid count
      (nHeight index.memory pindexLastCommon + blockDownloadWindow : Nat)
      member (by omega) reached inside (by omega) common
      (show _ < rounds by omega) []
      ⟨some pindexLastCommon, [], -1, nodeStaller⟩
    rw [← height, scanned, height] at loop
    have window : (nHeight index.memory pindexLastCommon : Int) +
        blockDownloadWindow =
          (nHeight index.memory pindexLastCommon + blockDownloadWindow :
            Nat) := by
      omega
    have limit : min (nHeight index.memory pindexBest : Int)
        ((nHeight index.memory pindexLastCommon + blockDownloadWindow :
          Nat) + 1) = nMaxHeight := by
      omega
    unfold searchFrom
    rw [if_neg same]
    change (downloadLoop index nodeid count
      ((nHeight index.memory pindexLastCommon : Int) + blockDownloadWindow)
      (min (nHeight index.memory pindexBest : Int)
        ((nHeight index.memory pindexLastCommon : Int) +
          blockDownloadWindow + 1)) pindexBest rounds _ _ _).bind _ = _
    rw [window, limit, loop]
    rfl

/-- The guess is a block of the tree. -/
theorem guess_mem (tree : BlockTree index blocks) {state : CNodeState P}
    (peer : PeerState blocks state) {tip : P}
    (tipped : index.vChain.getLast? = some tip) (pindexBest : P) :
    ∃ start ∈ blocks, guess index state pindexBest = some start := by
  unfold guess
  cases recorded : state.pindexLastCommonBlock with
  | some start => exact ⟨start, peer.lastCommon start recorded, rfl⟩
  | none =>
      have nonempty : index.vChain ≠ [] := by
        intro empty
        rw [empty] at tipped
        cases tipped
      have positive := List.length_pos_of_ne_nil nonempty
      have inside : min (index.memory pindexBest).nHeight
          (index.vChain.length - 1) < index.vChain.length := by
        omega
      refine ⟨index.vChain[min (index.memory pindexBest).nHeight
        (index.vChain.length - 1)], ?_, ?_⟩
      · exact tree.active _ (List.getElem_mem inside)
      · rw [Option.none_or, List.getElem?_eq_getElem inside]

/--
The blocks that `FindNextBlocksToDownload` appends for a peer whose best block
has at least as much work as the tip.  The last common block is the deepest
common ancestor of that block and of the recorded or guessed one.
-/
theorem next_blocks_to_download [DecidableEq P]
    (tree : BlockTree index blocks)
    {state : CNodeState P} (peer : PeerState blocks state)
    {pindexBest tip : P}
    (best : (processBlockAvailability index state).pindexBestKnownBlock =
      some pindexBest)
    (tipped : index.vChain.getLast? = some tip)
    (work : index.nChainWork tip ≤ index.nChainWork pindexBest)
    (nodeid : NodeId) (count : UInt32) (nodeStaller : NodeId) :
    ∃ start pindexLastCommon result,
      guess index (processBlockAvailability index state) pindexBest =
        some start ∧
      IsDeepestCommon (pprev index.memory) (nHeight index.memory) start
        pindexBest (some pindexLastCommon) ∧
      (∀ rounds, nHeight index.memory pindexBest + 1 < rounds →
        findNextBlocksToDownload index rounds nodeid count [] nodeStaller
          state = some result) ∧
      Downloads index count.toNat pindexBest pindexLastCommon
        result.vBlocks := by
  have checked := processBlockAvailability_peerState tree peer
  have member := checked.best pindexBest best
  rcases guess_mem tree checked tipped pindexBest with
    ⟨start, inside, guessed⟩
  have ancestor : ∀ rounds, nHeight index.memory pindexBest + 1 < rounds →
      ∃ common, lastCommonAncestor index.memory rounds start pindexBest =
          some common ∧
        IsDeepestCommon (pprev index.memory) (nHeight index.memory) start
          pindexBest common :=
    fun rounds enough =>
      lastCommonAncestor_deepest tree.linked inside member (by omega)
  rcases ancestor _ (Nat.lt_succ_self _) with ⟨common, _, deepest⟩
  rcases tree.common inside member deepest with ⟨pindexLastCommon, rfl⟩
  by_cases zero : count = 0
  · refine ⟨start, pindexLastCommon, ⟨state, [], nodeStaller⟩, guessed,
      deepest, fun rounds _ => if_pos zero, ?_⟩
    refine ⟨Nat.zero_le _, List.nodup_nil, nofun, ?_⟩
    intro room
    rw [zero] at room
    cases room
  · have positive : 0 < count.toNat :=
      Nat.pos_of_ne_zero fun none => zero (UInt32.toNat_inj.mp none)
    rcases searchFrom_downloads tree.linked member deepest.2.1 nodeid positive
      nodeStaller { processBlockAvailability index state with
        pindexLastCommonBlock := some pindexLastCommon } with
      ⟨result, found, downloads⟩
    refine ⟨start, pindexLastCommon, result, guessed, deepest, ?_, downloads⟩
    intro rounds enough
    rcases ancestor rounds enough with ⟨common, meets, deepest'⟩
    have unique := tree.linked.forest.isDeepestCommon_unique inside deepest'
      deepest
    unfold findNextBlocksToDownload
    rw [if_neg zero]
    simp only [best, tipped]
    rw [if_neg (BitVec.not_lt.mpr work)]
    simp only [guessed, Option.bind_eq_bind, Option.bind_some, meets, unique]
    simpa only [best] using found rounds (by omega)

/-! ## Two headers above genesis -/

def threeLinks : Memory Nat
  | 0 => ⟨none, none, 0⟩
  | 1 => ⟨some 0, some 0, 1⟩
  | _ => ⟨some 1, some 0, 2⟩

/-- Only genesis is stored and active. -/
def threeBlocks : Index Nat where
  memory := threeLinks
  nChainWork pindex := BitVec.ofNat 256 pindex
  nStatus pindex := if pindex = 0 then 10 else 2
  nChainTx _ := 1
  getBlockHash pindex := BitVec.ofNat 256 pindex
  mapBlockIndex _ := none
  vChain := [0]
  mapBlocksInFlight _ := none

theorem threeBlocks_tree : BlockTree threeBlocks {0, 1, 2} := by
  refine ⟨⟨⟨?_, ?_⟩, ?_⟩, ⟨0, ?_⟩, ?_, ?_⟩
  · rintro pindex (rfl | rfl | rfl) <;> decide
  · rintro pindex (rfl | rfl | rfl) above link <;> cases link <;>
      exact ⟨by simp, rfl⟩
  · rintro pindex (rfl | rfl | rfl) <;> decide
  · rintro pindex (rfl | rfl | rfl) <;> decide
  · intro hash pindex found
    cases found
  · rintro pindex member
    simp_all [threeBlocks]

def peerOfThree : CNodeState Nat := ⟨some 2, 0, none⟩

theorem next_blocks_to_download_three :
    ∃ start pindexLastCommon result,
      guess threeBlocks (processBlockAvailability threeBlocks peerOfThree)
          2 = some start ∧
        IsDeepestCommon (pprev threeLinks) (nHeight threeLinks) start 2
          (some pindexLastCommon) ∧
        (∀ rounds, 3 < rounds →
          findNextBlocksToDownload threeBlocks rounds 7 16 [] (-1)
            peerOfThree = some result) ∧
        Downloads threeBlocks 16 2 pindexLastCommon result.vBlocks :=
  next_blocks_to_download threeBlocks_tree
    ⟨fun _ best => by cases best; simp, fun _ common => by cases common⟩
    rfl rfl (by decide) 7 16 (-1)

end PrivateDatagram.Network.NextBlocks
