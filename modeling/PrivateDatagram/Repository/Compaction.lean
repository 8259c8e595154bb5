import PrivateDatagram.Repository.Runs

/-!
# Compaction

`ShrinkRecycledFiles` collects the positions in the index, copies the live
files at these positions into temporary blocks and renames the temporary
blocks over the original ones.  The positions are collected in a map from
which each position is erased, and into which none is ever inserted.  So the
copying loop, modelled here with all its branches, has nothing to do, and the
pass ends by putting an empty or a left-over temporary block in the place of
the first block.
-/

namespace PrivateDatagram.Repository.Compaction

open Library.ByteFormat Library.ByteStore Wire.Serialize Records Manager
  StoredFiles Runs

/-! ## How a pass ends -/

inductive ShrinkOutcome where
  /-- "diskfile don't need cleaning" -/
  | notNeeded
  /-- An error was logged or an exception left the function. -/
  | stopped
  /-- A vector was indexed out of range. -/
  | undefined
  | completed
deriving DecidableEq, Repr

/-- An early end of the pass, with the state it leaves behind. -/
abbrev ShrinkStop := ShrinkOutcome × RepositoryState

/-- The local variables of the copying loop. -/
structure ShrinkProgress where
  state : RepositoryState
  syncState : FileRepositoryBlockSyncState
  /-- `vNewTempFileRepositoryBlockInfo` and `nNewRepositoryBlockIndex`. -/
  table : BlockTable

/-! ## Collecting the positions -/

/-- `CFileRepositoryBlockDiskPos::operator<`. -/
def positionOrder : CFileRepositoryBlockDiskPos →
    CFileRepositoryBlockDiskPos → Ordering :=
  compareLex (compareOn (·.nBlockFileIndex)) (compareOn (·.nOffset))

instance : Std.TransCmp positionOrder :=
  inferInstanceAs (Std.TransCmp (compareLex
    (compareOn CFileRepositoryBlockDiskPos.nBlockFileIndex)
    (compareOn CFileRepositoryBlockDiskPos.nOffset)))

abbrev RepositoryFileMap :=
  Std.ExtTreeMap CFileRepositoryBlockDiskPos UInt8 positionOrder

/-- The loop "Load positions from database". -/
def fetchPositions (positions : List CFileRepositoryBlockDiskPos)
    (repositoryFileMap : RepositoryFileMap) : RepositoryFileMap :=
  positions.foldl (fun collected pos => collected.erase pos)
    repositoryFileMap

/-! ## Copying one file -/

def writeSyncState (syncState : FileRepositoryBlockSyncState)
    (state : RepositoryState) : RepositoryState :=
  { state with
    pblockfiletree := { state.pblockfiletree with
      fileRepositoryBlockSyncState := some syncState } }

/-- `srcBlockInfo.SubtractFile`. -/
def subtractFromSource (environment : Environment)
    (srcFilePos : CFileRepositoryBlockDiskPos) (nBytesSize : UInt32)
    (state : RepositoryState) : RepositoryState :=
  { state with
    table := state.table.modifyAt srcFilePos.nBlockFileIndex
      (·.subtractFile environment.time nBytesSize) }

/-- `handleEmptySrcFile`. -/
def handleEmptySrcFile (srcFilePos : CFileRepositoryBlockDiskPos)
    (progress : ShrinkProgress) : Except ShrinkStop ShrinkProgress :=
  let state := progress.state
  let number := srcFilePos.nBlockFileIndex
  if (state.disk (.blk number)).isNone then
    .error (.stopped, state)
  else
    let state :=
      { state with
        disk := Function.update state.disk (.blk number) none
        pblockfiletree := { state.pblockfiletree with
          fileRepositoryBlockInfo :=
            state.pblockfiletree.fileRepositoryBlockInfo.erase number } }
    if progress.syncState.nProcessedSourceBlocks ≠ number then
      let syncState :=
        { progress.syncState with nProcessedSourceBlocks := number }
      .ok { progress with state := writeSyncState syncState state, syncState }
    else
      .ok { progress with state }

/-- The call of `handleEmptySrcFile` behind `IsBlockFileEmpty`. -/
def removeSourceIfEmpty (srcFilePos : CFileRepositoryBlockDiskPos)
    (progress : ShrinkProgress) : Except ShrinkStop ShrinkProgress :=
  match progress.state.table.vblockFileInfo[srcFilePos.nBlockFileIndex]? with
  | none => .error (.undefined, progress.state)
  | some srcBlockInfo =>
      if srcBlockInfo.isBlockFileEmpty then
        handleEmptySrcFile srcFilePos progress
      else
        .ok progress

/-- "update sync state after add new temp file". -/
def recordTempBlock (newPos : CFileRepositoryBlockDiskPos)
    (progress : ShrinkProgress) : Except ShrinkStop ShrinkProgress :=
  let processed := progress.syncState.nProcessedTempBlocks
  if processed ≠ newPos.nBlockFileIndex then
    -- The first time `nProcessedTempBlocks` is still -1.
    match processed with
    | .negSucc _ => .error (.undefined, progress.state)
    | .ofNat number =>
        match progress.table.vblockFileInfo[number]? with
        | none => .error (.undefined, progress.state)
        | some info =>
            let syncState :=
              { progress.syncState with
                nProcessedTempBlocks := newPos.nBlockFileIndex }
            let tree := progress.state.pblockfiletree
            let state :=
              { progress.state with
                pblockfiletree := { tree with
                  fileRepositoryBlockInfo :=
                    tree.fileRepositoryBlockInfo.insert number info } }
            .ok { progress with
              state := writeSyncState syncState state, syncState }
  else
    .ok progress

/-- A removed file is dropped from the index and not copied. -/
def dropRemovedFile (environment : Environment)
    (srcFilePos : CFileRepositoryBlockDiskPos) (fileHash : UInt256)
    (nRepositoryFileSize : UInt32) (progress : ShrinkProgress) :
    Except ShrinkStop ShrinkProgress :=
  let state := subtractFromSource environment srcFilePos nRepositoryFileSize
    progress.state
  if (state.pblockfiletree.fileIndex[fileHash]?).isNone then
    .error (.stopped, state)
  else
    match eraseFileIndex environment fileHash state with
    | none => .error (.stopped, state)
    | some state => removeSourceIfEmpty srcFilePos { progress with state }

/-- A live file goes to the end of the temporary blocks. -/
def copyFile (params : Params) (environment : Environment)
    (srcFilePos : CFileRepositoryBlockDiskPos) (file : CDBFile)
    (nRepositoryFileSize : UInt32) (progress : ShrinkProgress) :
    Except ShrinkStop ShrinkProgress :=
  let allocation := findAndAllocateBlockFile environment nRepositoryFileSize
    true progress.table progress.state
  let table := allocation.2.1
  let state := allocation.2.2
  match allocation.1 with
  | none => .error (.stopped, state)
  | some newPosAtTempFile =>
      match writeFileRepositoryBlockToDiskFrom params (file.serialize params)
          environment newPosAtTempFile true state with
      | none => .error (.stopped, state)
      | some state =>
          match writeFileIndex environment file.fileHash newPosAtTempFile
              state with
          | none => .error (.stopped, state)
          | some state => do
              let state := subtractFromSource environment srcFilePos
                nRepositoryFileSize (countAddedFile nRepositoryFileSize state)
              let progress ← removeSourceIfEmpty srcFilePos
                { progress with state, table }
              recordTempBlock newPosAtTempFile progress

/-- The body of the loop "fill temp files". -/
def shrinkEntry (params : Params) (environment : Environment)
    (srcFilePos : CFileRepositoryBlockDiskPos) (progress : ShrinkProgress) :
    Except ShrinkStop ShrinkProgress :=
  let state := progress.state
  match state.table.vblockFileInfo[srcFilePos.nBlockFileIndex]? with
  | none => .error (.undefined, state)
  | some _ =>
      match readFileBlockFromDisk params environment srcFilePos false
          state with
      | none => .error (.stopped, state)
      | some file =>
          let nRepositoryFileSize := getRepositoryFileSize params file
          -- Measuring the file has refreshed its hash.
          let file := file.updateFileHash params
          if file.removed then
            dropRemovedFile environment srcFilePos file.fileHash
              nRepositoryFileSize progress
          else
            copyFile params environment srcFilePos file nRepositoryFileSize
              progress

def shrinkEntries (params : Params) (environment : Environment) :
    List CFileRepositoryBlockDiskPos → ShrinkProgress →
      Except ShrinkStop ShrinkProgress
  | [], progress => .ok progress
  | srcFilePos :: rest, progress => do
      let progress ← shrinkEntry params environment srcFilePos progress
      shrinkEntries params environment rest progress

/-! ## The pass -/

/-- Opening the first temporary block creates it or keeps what it has. -/
def createTempBlock (environment : Environment) (state : RepositoryState) :
    RepositoryState :=
  if environment.openFails then
    state
  else
    { state with disk := state.disk.edit (.tmpBlk 0) id }

/-- `RenameTmpOriginalFileBlockDisk`, which throws on a missing file. -/
def renameTmpOriginalFileBlockDisk (number : Nat) (state : RepositoryState) :
    Option RepositoryState :=
  match state.disk (.tmpBlk number) with
  | none => none
  | some content =>
      some { state with
        disk := Function.update
          (Function.update state.disk (.blk number) (some content))
          (.tmpBlk number) none }

def renameTempBlocks : List Nat → RepositoryState →
    Except ShrinkStop RepositoryState
  | [], state => .ok state
  | number :: rest, state =>
      match renameTmpOriginalFileBlockDisk number state with
      | none => .error (.stopped, state)
      | some state => renameTempBlocks rest state

/-- What follows the copying loop, where the database takes all writes. -/
def finishShrink (progress : ShrinkProgress) : ShrinkStop :=
  let state := saveManagerState progress.table
    { progress.state with table := progress.table }
  match renameTempBlocks (List.range (progress.table.lastBlockFileIndex + 1))
      state with
  | .error stop => stop
  | .ok state => (.completed, writeSyncState .null state)

/-- `ShrinkRecycledFiles` from its `WRITE_LOCK` on. -/
def shrinkUnderWriteLock (params : Params) (environment : Environment)
    (state : RepositoryState) : ShrinkStop :=
  let state := { state with dbFileRepositoryState := .null }
  match state.pblockfiletree.fileRepositoryBlockSyncState with
  | none => (.stopped, state)
  | some syncState =>
      if syncState ≠ .null then
        (.stopped, state)
      else
        let state := createTempBlock environment state
        let repositoryFileMap := fetchPositions (indexedPositions state) ∅
        let state := writeSyncState .null state
        match shrinkEntries params environment repositoryFileMap.keys
            ⟨state, .null, .single environment.time⟩ with
        | .error stop => stop
        | .ok progress => finishShrink progress

/-- `ShrinkRecycledFiles`. -/
def shrinkRecycledFiles (params : Params) (environment : Environment)
    (state : RepositoryState) : ShrinkOutcome × RepositoryState :=
  if !state.dbFileRepositoryState.isClearDiskSpaceNeeded then
    (.notNeeded, state)
  else
    shrinkUnderWriteLock params environment state

/-! ## What a pass really does -/

/-- Erasing from the empty map collects nothing. -/
theorem fetchPositions_empty (positions : List CFileRepositoryBlockDiskPos) :
    fetchPositions positions ∅ = ∅ := by
  induction positions with
  | nil => rfl
  | cons pos rest ih =>
      rw [fetchPositions, List.foldl_cons, Std.ExtTreeMap.erase_empty]
      exact ih

/-- The content that the first block gets when the pass ends. -/
def leftOver (state : RepositoryState) : Bytes :=
  (state.disk (.tmpBlk 0)).getD []

/-- Only the first block and the bookkeeping have changed. -/
structure Shrunk (state state' : RepositoryState) : Prop where
  needed : state.dbFileRepositoryState.isClearDiskSpaceNeeded = true
  index : state'.pblockfiletree.fileIndex = state.pblockfiletree.fileIndex
  first : state'.disk (.blk 0) = some (leftOver state)
  others : ∀ number, number ≠ 0 →
    state'.disk (.blk number) = state.disk (.blk number)

/-- With nothing copied the pass renames the first temporary block. -/
theorem finishShrink_single (state : RepositoryState)
    (syncState : FileRepositoryBlockSyncState) (time : Int) :
    finishShrink ⟨state, syncState, .single time⟩ =
      match state.disk (.tmpBlk 0) with
      | none =>
          (.stopped, saveManagerState (.single time)
            { state with table := .single time })
      | some content =>
          (.completed, writeSyncState .null
            { saveManagerState (.single time)
                { state with table := .single time } with
              disk := Function.update
                (Function.update state.disk (.blk 0) (some content))
                (.tmpBlk 0) none }) := by
  cases found : state.disk (.tmpBlk 0) <;>
    simp [finishShrink, BlockTable.single, renameTempBlocks,
      renameTmpOriginalFileBlockDisk, saveManagerState, found]

theorem createTempBlock_tree (environment : Environment)
    (state : RepositoryState) :
    (createTempBlock environment state).pblockfiletree =
      state.pblockfiletree := by
  unfold createTempBlock
  split_ifs <;> rfl

theorem createTempBlock_blk (environment : Environment)
    (state : RepositoryState) (number : Nat) :
    (createTempBlock environment state).disk (.blk number) =
      state.disk (.blk number) := by
  unfold createTempBlock
  split_ifs
  · rfl
  · dsimp only [Disk.edit]
    rw [Function.update_of_ne (by simp)]

theorem createTempBlock_tmpBlk {environment : Environment}
    {state : RepositoryState} {content : Bytes}
    (found : (createTempBlock environment state).disk (.tmpBlk 0) =
      some content) :
    content = leftOver state := by
  unfold createTempBlock at found
  split_ifs at found
  · rw [leftOver, found]
    rfl
  · dsimp only [Disk.edit] at found
    rw [Function.update_self] at found
    exact (Option.some.inj found).symm

/-- The positions are never collected, so the loop has nothing to copy. -/
theorem shrinkUnderWriteLock_eq (params : Params) (environment : Environment)
    (state : RepositoryState) :
    shrinkUnderWriteLock params environment state =
      if state.pblockfiletree.fileRepositoryBlockSyncState = some .null then
        finishShrink
          ⟨writeSyncState .null (createTempBlock environment
            { state with dbFileRepositoryState := .null }),
            .null, .single environment.time⟩
      else (.stopped, { state with dbFileRepositoryState := .null }) := by
  have nothing : (∅ : RepositoryFileMap).keys = [] := rfl
  unfold shrinkUnderWriteLock
  dsimp only
  rw [fetchPositions_empty, nothing]
  cases found : state.pblockfiletree.fileRepositoryBlockSyncState with
  | none => rw [if_neg (by simp)]
  | some syncState =>
      dsimp only
      by_cases fresh : syncState = .null
      · rw [if_neg (not_not_intro fresh), if_pos (congrArg some fresh)]
        rfl
      · rw [if_pos fresh, if_neg (mt Option.some.inj fresh)]

/-- However the pass ends, it can only have touched the first block. -/
theorem shrinkUnderWriteLock_frame (params : Params)
    (environment : Environment) (state : RepositoryState) :
    (shrinkUnderWriteLock params environment state).2.pblockfiletree.fileIndex
        = state.pblockfiletree.fileIndex ∧
      ∀ number, number ≠ 0 →
        (shrinkUnderWriteLock params environment state).2.disk (.blk number) =
          state.disk (.blk number) := by
  rw [shrinkUnderWriteLock_eq]
  split_ifs
  · rw [finishShrink_single]
    constructor
    · split
      all_goals
        change (createTempBlock _ _).pblockfiletree.fileIndex = _
        rw [createTempBlock_tree]
    · intro number different
      split
      · exact createTempBlock_blk environment _ number
      · dsimp only [writeSyncState]
        rw [Function.update_of_ne (by simp),
          Function.update_of_ne (by simpa using different)]
        exact createTempBlock_blk environment _ number
  · exact ⟨rfl, fun _ _ => rfl⟩

theorem shrinkUnderWriteLock_needed (params : Params)
    (environment : Environment) (state : RepositoryState) :
    (shrinkUnderWriteLock params environment state).1 ≠ .notNeeded := by
  rw [shrinkUnderWriteLock_eq]
  split_ifs
  · rw [finishShrink_single]
    split <;> simp
  · simp

theorem shrinkRecycledFiles_completed {params : Params}
    {environment : Environment} {state state' : RepositoryState}
    (ran : shrinkRecycledFiles params environment state =
      (.completed, state')) :
    Shrunk state state' := by
  unfold shrinkRecycledFiles at ran
  split_ifs at ran with idle
  · cases ran
  · have frame := shrinkUnderWriteLock_frame params environment state
    rw [ran] at frame
    refine ⟨by simpa using idle, frame.1, ?_, frame.2⟩
    rw [shrinkUnderWriteLock_eq] at ran
    split_ifs at ran
    · rw [finishShrink_single] at ran
      split at ran
      · cases ran
      case h_2 content found =>
        cases ran
        dsimp only [writeSyncState]
        rw [Function.update_of_ne (by simp), Function.update_self,
          createTempBlock_tmpBlk found]
        rfl
    · cases ran

/-- A pass that finds nothing to clean changes nothing. -/
theorem shrinkRecycledFiles_notNeeded {params : Params}
    {environment : Environment} {state state' : RepositoryState}
    (ran : shrinkRecycledFiles params environment state =
      (.notNeeded, state')) :
    state.dbFileRepositoryState.isClearDiskSpaceNeeded = false ∧
      state' = state := by
  unfold shrinkRecycledFiles at ran
  split_ifs at ran with idle
  · cases ran
    exact ⟨by simpa using idle, rfl⟩
  · exact absurd (congrArg Prod.fst ran)
      (shrinkUnderWriteLock_needed params environment state)

/-! ## When compaction preserves the content -/

/-- A file is read from one place of one block file. -/
theorem readFileBlockFromDisk_congr {params : Params}
    {pos : CFileRepositoryBlockDiskPos} {isTmp isTmp' : Bool}
    {state state' : RepositoryState}
    (same : state.disk (filePosFilename pos.nBlockFileIndex isTmp) =
      state'.disk (filePosFilename pos.nBlockFileIndex isTmp')) :
    readFileBlockFromDisk params steady pos isTmp state =
      readFileBlockFromDisk params steady pos isTmp' state' := by
  simp only [readFileBlockFromDisk, readFileBlockFromDiskTo, same]

/-- Nothing is read from an empty file, as nothing is from a missing one. -/
theorem readFileBlockFromDisk_nil {params : Params}
    {pos : CFileRepositoryBlockDiskPos} {isTmp : Bool}
    {state : RepositoryState}
    (empty : (state.disk
      (filePosFilename pos.nBlockFileIndex isTmp)).getD [] = []) :
    readFileBlockFromDisk params steady pos isTmp state = none := by
  rw [readFileBlockFromDisk, readFileBlockFromDiskTo, if_neg (by decide)]
  cases found : state.disk (filePosFilename pos.nBlockFileIndex isTmp) with
  | none => rfl
  | some content =>
      rw [found] at empty
      cases empty
      dsimp only
      rw [List.drop_nil]
      rfl

/--
After the pass a file of the first block is read from what used to be the
temporary block, and a file of another block from where it was.
-/
theorem Shrunk.contents {state state' : RepositoryState}
    (shrunk : Shrunk state state') (params : Params) {hash : UInt256}
    {pos : CFileRepositoryBlockDiskPos} (indexed : Indexed state hash pos) :
    contents params state' hash =
      if pos.nBlockFileIndex = 0 then
        readFileBlockFromDisk params steady pos true state
      else contents params state hash := by
  have indexed' : Indexed state' hash pos := by
    rw [Indexed, shrunk.index]
    exact indexed
  rw [contents_of_indexed params indexed', contents_of_indexed params indexed]
  split_ifs with first
  · cases found : state.disk (.tmpBlk 0) with
    | none =>
        have empty : leftOver state = [] := by
          rw [leftOver, found]
          rfl
        rw [readFileBlockFromDisk_nil, readFileBlockFromDisk_nil]
        · rw [first]
          exact empty
        · rw [first]
          change (state'.disk (.blk 0)).getD [] = []
          rw [shrunk.first, empty]
          rfl
    | some content =>
        apply readFileBlockFromDisk_congr
        rw [first]
        change state'.disk (.blk 0) = state.disk (.tmpBlk 0)
        rw [shrunk.first, leftOver, found]
        rfl
  · apply readFileBlockFromDisk_congr
    exact shrunk.others _ first

/--
Every file that is not marked removed is found again with the same value, and
its hash is still in the index.
-/
def Preserves (params : Params) (state state' : RepositoryState) : Prop :=
  ∀ hash file, contents params state hash = some file →
    file.removed = false →
      contents params state' hash = some file ∧
        (state'.pblockfiletree.fileIndex[hash]?).isSome

/-- The temporary block has every live file of the first block in place. -/
def FirstBlockCopied (params : Params) (state : RepositoryState) : Prop :=
  ∀ hash pos file, Indexed state hash pos → pos.nBlockFileIndex = 0 →
    contents params state hash = some file → file.removed = false →
      readFileBlockFromDisk params steady pos true state = some file

theorem indexed_of_contents {params : Params} {state : RepositoryState}
    {hash : UInt256} {file : CDBFile}
    (found : contents params state hash = some file) :
    ∃ pos, Indexed state hash pos := by
  cases entry : state.pblockfiletree.fileIndex[hash]? with
  | none =>
      rw [contents_of_absent params entry] at found
      cases found
  | some pos => exact ⟨pos, entry⟩

theorem Shrunk.preserves_iff {state state' : RepositoryState}
    (shrunk : Shrunk state state') (params : Params) :
    Preserves params state state' ↔ FirstBlockCopied params state := by
  constructor
  · intro preserves hash pos file indexed first found live
    have after := (preserves hash file found live).1
    rw [shrunk.contents params indexed, if_pos first] at after
    exact after
  · intro copied hash file found live
    rcases indexed_of_contents found with ⟨pos, indexed⟩
    constructor
    · rw [shrunk.contents params indexed]
      split_ifs with first
      · exact copied hash pos file indexed first found live
      · exact found
    · rw [shrunk.index, indexed]
      rfl

/--
A pass that runs to its end preserves the live files exactly when there was
nothing to clean, or when a left-over temporary block already had the live
files of the first block.
-/
theorem shrink_preserves_iff {params : Params} {environment : Environment}
    {state state' : RepositoryState} {outcome : ShrinkOutcome}
    (ran : shrinkRecycledFiles params environment state = (outcome, state'))
    (ended : outcome = .notNeeded ∨ outcome = .completed) :
    Preserves params state state' ↔
      state.dbFileRepositoryState.isClearDiskSpaceNeeded = false ∨
        FirstBlockCopied params state := by
  rcases ended with rfl | rfl
  · rcases shrinkRecycledFiles_notNeeded ran with ⟨idle, rfl⟩
    refine iff_of_true ?_ (.inl idle)
    intro hash file found _
    rcases indexed_of_contents found with ⟨pos, indexed⟩
    refine ⟨found, ?_⟩
    rw [indexed]
    rfl
  · have shrunk := shrinkRecycledFiles_completed ran
    rw [shrunk.preserves_iff params, shrunk.needed]
    simp

/-! ## A live file is lost -/

def erasedFile : CDBFile := ⟨7, 100, false, true, [7]⟩

def liveFile : CDBFile := ⟨8, 100, false, false, [8]⟩

def livePos : CFileRepositoryBlockDiskPos := ⟨0, 48, 48⟩

/-- Two files were saved and the first of them was erased. -/
def halfErased : RepositoryState where
  table := ⟨[⟨96, 2, 1, 1, false⟩], 0, by decide⟩
  dbFileRepositoryState := ⟨96, 1, 2, 48, 1⟩
  lastUpdateTime := 0
  pblockfiletree :=
    { fileIndex := Std.ExtTreeMap.insert ∅ 8 livePos
      fileRepositoryBlockInfo := ∅
      lastFileRepositoryBlock := some 0
      fileRepositoryBlockSyncState := some .null
      dbFileRepositoryState := none }
  disk :=
    let allocated : Disk := Disk.edit (.blk 0) (extendTo 0x2000000) fun _ => none
    let erased := allocated.edit (.blk 0)
      (overwrite 0 (diskRecord sampleParams
        (erasedFile.serialize sampleParams)))
    erased.edit (.blk 0)
      (overwrite livePos.nOffset.toNat (diskRecord sampleParams
        (liveFile.serialize sampleParams)))

theorem halfErased_indexed {hash : UInt256}
    {pos : CFileRepositoryBlockDiskPos} (indexed : Indexed halfErased hash pos) :
    hash = 8 ∧ pos = livePos := by
  change (Std.ExtTreeMap.insert (∅ : Std.ExtTreeMap UInt256 _ keyOrder) 8
    livePos)[hash]? = some pos at indexed
  by_cases same : hash = 8
  · subst same
    rw [Std.ExtTreeMap.getElem?_insert_self] at indexed
    exact ⟨rfl, (Option.some.inj indexed).symm⟩
  · rw [getElem?_insert_of_ne same, Std.ExtTreeMap.getElem?_empty] at indexed
    cases indexed

theorem halfErased_entry : Indexed halfErased 8 livePos := by
  rw [Indexed]
  exact Std.ExtTreeMap.getElem?_insert_self

theorem halfErased_holds :
    HoldsFile sampleParams halfErased.disk livePos liveFile :=
  holdsFile_write (show liveFile.vBytes.length ≤ maxSize by decide)
    (diskRecord_fileRecord sampleParams liveFile) (by decide +kernel) _

theorem halfErased_coherent : Coherent sampleParams halfErased := by
  refine ⟨⟨?_, ?_⟩, ?_, ?_⟩
  · intro left right leftPos rightPos different leftIn rightIn
    rcases halfErased_indexed leftIn with ⟨rfl, _⟩
    rcases halfErased_indexed rightIn with ⟨rfl, _⟩
    exact absurd rfl different
  · intro hash pos indexed
    rcases halfErased_indexed indexed with ⟨rfl, rfl⟩
    exact ⟨liveFile, halfErased_holds, rfl, by decide +kernel⟩
  · intro info member
    rw [List.mem_singleton.mp member, toNat_maxFileBlockFileSize]
    decide
  · intro hash pos indexed
    rcases halfErased_indexed indexed with ⟨_, rfl⟩
    exact ⟨⟨96, 2, 1, 1, false⟩, rfl, by decide⟩

theorem halfErased_completes :
    shrinkRecycledFiles sampleParams roomyDisk halfErased =
      (.completed,
        (shrinkRecycledFiles sampleParams roomyDisk halfErased).2) :=
  Prod.ext (by decide +kernel) rfl

theorem halfErased_no_copy :
    readFileBlockFromDisk sampleParams steady livePos true halfErased =
      none :=
  readFileBlockFromDisk_nil (by decide +kernel)

/-- Compaction does not preserve the content of a coherent repository. -/
theorem shrink_loses_live_file :
    ¬ ∀ params environment state state', Coherent params state →
      shrinkRecycledFiles params environment state = (.completed, state') →
        Preserves params state state' := by
  intro claim
  have preserved := claim _ _ _ _ halfErased_coherent halfErased_completes 8
    liveFile (contents_of_holds halfErased_entry halfErased_holds) rfl
  have shrunk := shrinkRecycledFiles_completed halfErased_completes
  have lost := shrunk.contents sampleParams halfErased_entry
  rw [if_pos (show livePos.nBlockFileIndex = 0 from rfl),
    halfErased_no_copy, preserved.1] at lost
  cases lost

theorem shrink_preserves_iff_halfErased :
    ¬ Preserves sampleParams halfErased
      (shrinkRecycledFiles sampleParams roomyDisk halfErased).2 := by
  rw [shrink_preserves_iff halfErased_completes (.inr rfl)]
  rintro (idle | copied)
  · exact absurd idle (by decide +kernel)
  · have read := copied 8 livePos liveFile halfErased_entry rfl
      (contents_of_holds halfErased_entry halfErased_holds) rfl
    rw [halfErased_no_copy] at read
    cases read

end PrivateDatagram.Repository.Compaction
