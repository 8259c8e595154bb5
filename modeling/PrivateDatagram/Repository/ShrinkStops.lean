import PrivateDatagram.Repository.Compaction

/-!
# Passes that do not run

A compaction may end before it has rewritten any block file.  The counters of
the repository are set to zero before the first of these ends, but behind the
check whether anything is to be cleaned.
-/

namespace PrivateDatagram.Repository.ShrinkStops

open Records Manager Runs Compaction

/-- The writes of `SaveManagerState`. -/
inductive SaveWrite where
  | blockInfo (nFile : Nat)
  | lastBlock
  | syncBlocks
  | repositoryState
  | syncState
deriving DecidableEq, Repr

/-- What goes wrong with the database. -/
structure ShrinkFaults where
  /-- A position in the index cannot be decoded. -/
  indexUnreadable : Bool
  syncWriteFails : Bool
  /-- The write at which `SaveManagerState` fails. -/
  saveFails : Option SaveWrite
  /-- The write "sync is over" at the end fails. -/
  endWriteFails : Bool
deriving DecidableEq, Repr

/-- The infos written up to the one that fails: whether none does, whether
there are any, and what is stored. -/
def saveBlockInfosStepwise (fails : Option SaveWrite) (lastUpdateTime : Int) :
    Nat → List CFileRepositoryBlockInfo →
      Std.ExtTreeMap Nat CFileRepositoryBlockInfo →
      Bool × Bool × Std.ExtTreeMap Nat CFileRepositoryBlockInfo
  | _, [], stored => (true, false, stored)
  | nFile, info :: rest, stored =>
      if info.lastWriteTime ≤ lastUpdateTime then
        saveBlockInfosStepwise fails lastUpdateTime (nFile + 1) rest stored
      else if fails = some (.blockInfo nFile) then
        (false, true, stored)
      else
        let saved := saveBlockInfosStepwise fails lastUpdateTime (nFile + 1)
          rest (stored.insert nFile info)
        (saved.1, true, saved.2.2)

/-- `SaveManagerState`, and whether it succeeds. -/
def saveManagerStateStepwise (fails : Option SaveWrite) (table : BlockTable)
    (state : RepositoryState) : Bool × RepositoryState :=
  let tree := state.pblockfiletree
  let saved := saveBlockInfosStepwise fails state.lastUpdateTime 0
    table.vblockFileInfo tree.fileRepositoryBlockInfo
  let tree := { tree with fileRepositoryBlockInfo := saved.2.2 }
  if !saved.1 || (saved.2.1 && fails = some .lastBlock) then
    (false, { state with pblockfiletree := tree })
  else
    let tree :=
      { tree with
        lastFileRepositoryBlock :=
          if saved.2.1 then some table.lastBlockFileIndex
          else tree.lastFileRepositoryBlock }
    if saved.2.1 && fails = some .syncBlocks then
      (false, { state with pblockfiletree := tree })
    else
      let counters :=
        { state.dbFileRepositoryState with
          nBlocksCount := UInt32.ofNat (table.lastBlockFileIndex + 1) }
      let state := { state with dbFileRepositoryState := counters }
      if fails = some .repositoryState then
        (false, { state with pblockfiletree := tree })
      else
        (fails ≠ some .syncState,
          { state with
            pblockfiletree :=
              { tree with dbFileRepositoryState := some counters } })

/-- What follows the copying loop.  With the last write the pass is over,
whether it fails or not. -/
def finishShrinkStepwise (faults : ShrinkFaults) (progress : ShrinkProgress) :
    ShrinkStop :=
  match saveManagerStateStepwise faults.saveFails progress.table
      { progress.state with table := progress.table } with
  | (false, state) => (.stopped, state)
  | (true, state) =>
      match renameTempBlocks
          (List.range (progress.table.lastBlockFileIndex + 1)) state with
      | .error stop => stop
      | .ok state =>
          (.completed,
            if faults.endWriteFails then state else writeSyncState .null state)

def shrinkUnderWriteLockStepwise (params : Params)
    (environment : Environment) (faults : ShrinkFaults)
    (state : RepositoryState) : ShrinkStop :=
  let state := { state with dbFileRepositoryState := .null }
  match state.pblockfiletree.fileRepositoryBlockSyncState with
  | none => (.stopped, state)
  | some syncState =>
      if syncState ≠ .null then
        (.stopped, state)
      else
        let state := createTempBlock environment state
        if faults.indexUnreadable then
          (.stopped, state)
        else
          let repositoryFileMap := fetchPositions (indexedPositions state) ∅
          if faults.syncWriteFails then
            (.stopped, state)
          else
            let state := writeSyncState .null state
            match shrinkEntries params environment repositoryFileMap.keys
                ⟨state, .null, .single environment.time⟩ with
            | .error stop => stop
            | .ok progress => finishShrinkStepwise faults progress

/-- `ShrinkRecycledFiles`. -/
def shrinkStepwise (params : Params) (environment : Environment)
    (faults : ShrinkFaults) (state : RepositoryState) : ShrinkStop :=
  if !state.dbFileRepositoryState.isClearDiskSpaceNeeded then
    (.notNeeded, state)
  else
    shrinkUnderWriteLockStepwise params environment faults state

/-! ## Ends of a pass -/

/-- No block file has been rewritten. -/
structure NotRun (state : RepositoryState) (stop : ShrinkStop) : Prop where
  outcome : stop.1 ≠ .completed
  blocks : ∀ number, stop.2.disk (.blk number) = state.disk (.blk number)

structure Untouched (state state' : RepositoryState) : Prop where
  index : state'.pblockfiletree.fileIndex = state.pblockfiletree.fileIndex
  infos : state'.table = state.table
  counters : state'.dbFileRepositoryState = state.dbFileRepositoryState

/-- Whether `SaveManagerState` comes to the write, with one block whose info
has changed or has not. -/
def SaveWrite.isMade (changed : Bool) : SaveWrite → Bool
  | .blockInfo nFile => changed && nFile = 0
  | .lastBlock | .syncBlocks => changed
  | .repositoryState | .syncState => true

/-- Nothing ends the pass before the first temporary block is renamed. -/
structure Runs (environment : Environment) (faults : ShrinkFaults)
    (state : RepositoryState) : Prop where
  sync : state.pblockfiletree.fileRepositoryBlockSyncState = some .null
  readable : faults.indexUnreadable = false
  written : faults.syncWriteFails = false
  saved : ∀ write, faults.saveFails = some write →
    write.isMade (state.lastUpdateTime < environment.time) = false
  opened : environment.openFails = false ∨
    (state.disk (.tmpBlk 0)).isSome = true

/-- Counters that need no cleaning are not those before a needed pass. -/
theorem not_untouched {state state' : RepositoryState}
    (needed : state.dbFileRepositoryState.isClearDiskSpaceNeeded = true)
    (idle : state'.dbFileRepositoryState.isClearDiskSpaceNeeded = false) :
    ¬ Untouched state state' := by
  intro untouched
  rw [untouched.counters, needed] at idle
  cases idle

/-- The first temporary block is there, unless it could not be opened. -/
theorem createTempBlock_isSome (environment : Environment)
    (state : RepositoryState) :
    ((createTempBlock environment state).disk (.tmpBlk 0)).isSome = true ↔
      environment.openFails = false ∨
        (state.disk (.tmpBlk 0)).isSome = true := by
  simp only [createTempBlock]
  split_ifs with fails
  · simp [fails]
  · simp [fails, Disk.edit]

/-- The copying loop has nothing to do. -/
theorem shrinkUnderWriteLockStepwise_eq (params : Params)
    (environment : Environment) (faults : ShrinkFaults)
    (state : RepositoryState) :
    shrinkUnderWriteLockStepwise params environment faults state =
      if state.pblockfiletree.fileRepositoryBlockSyncState = some .null then
        if faults.indexUnreadable ∨ faults.syncWriteFails then
          (.stopped, createTempBlock environment
            { state with dbFileRepositoryState := .null })
        else
          finishShrinkStepwise faults
            ⟨writeSyncState .null (createTempBlock environment
              { state with dbFileRepositoryState := .null }),
              .null, .single environment.time⟩
      else (.stopped, { state with dbFileRepositoryState := .null }) := by
  have nothing : (∅ : RepositoryFileMap).keys = [] := rfl
  simp only [shrinkUnderWriteLockStepwise, fetchPositions_empty, nothing,
    shrinkEntries]
  cases state.pblockfiletree.fileRepositoryBlockSyncState with
  | none => simp
  | some syncState =>
      by_cases fresh : syncState = .null
      · cases unreadable : faults.indexUnreadable <;>
          cases unwritten : faults.syncWriteFails <;>
          simp [fresh]
      · simp [fresh]

theorem saveBlockInfosStepwise_eq (lastUpdateTime : Int) (nFile : Nat)
    (infos : List CFileRepositoryBlockInfo)
    (stored : Std.ExtTreeMap Nat CFileRepositoryBlockInfo) :
    saveBlockInfosStepwise none lastUpdateTime nFile infos stored =
      (true, saveBlockInfos lastUpdateTime nFile infos stored) := by
  induction infos generalizing nFile stored with
  | nil => rfl
  | cons info rest ih =>
      rw [saveBlockInfosStepwise, saveBlockInfos, ih, ih]
      split <;> rfl

/-- Where the database works, this is `shrinkRecycledFiles`. -/
theorem shrinkStepwise_eq (params : Params) (environment : Environment)
    (state : RepositoryState) :
    shrinkStepwise params environment ⟨false, false, none, false⟩ state =
      shrinkRecycledFiles params environment state := by
  have saves (table : BlockTable) (state : RepositoryState) :
      saveManagerStateStepwise none table state =
        (true, saveManagerState table state) := by
    simp [saveManagerStateStepwise, saveManagerState,
      saveBlockInfosStepwise_eq]
  have finishes (progress : ShrinkProgress) :
      finishShrinkStepwise ⟨false, false, none, false⟩ progress =
        finishShrink progress := by
    rw [finishShrinkStepwise, saves, finishShrink]
    rfl
  have same : shrinkUnderWriteLockStepwise params environment
      ⟨false, false, none, false⟩ state =
        shrinkUnderWriteLock params environment state := by
    rw [shrinkUnderWriteLockStepwise_eq, shrinkUnderWriteLock_eq, finishes]
    simp
  rw [shrinkStepwise, shrinkRecycledFiles, same]

/-- Saving the state of one block fails exactly at a write that it makes, and
the block files and the candidates for removal stay as they are. -/
theorem saveManagerStateStepwise_single (fails : Option SaveWrite)
    (time : Int) (state : RepositoryState) :
    ((saveManagerStateStepwise fails (.single time) state).1 = true ↔
      ∀ write, fails = some write →
        write.isMade (state.lastUpdateTime < time) = false) ∧
      (saveManagerStateStepwise fails (.single time) state).2.disk =
        state.disk ∧
      (saveManagerStateStepwise fails (.single time)
        state).2.dbFileRepositoryState.isClearDiskSpaceNeeded =
          state.dbFileRepositoryState.isClearDiskSpaceNeeded := by
  have infos : (BlockTable.single time).vblockFileInfo.map
      (·.lastWriteTime) = [time] := rfl
  obtain ⟨info, single, isTime⟩ := List.map_eq_singleton_iff.mp infos
  unfold saveManagerStateStepwise
  rw [single]
  simp only [saveBlockInfosStepwise, isTime]
  by_cases changed : state.lastUpdateTime < time
  · rw [if_neg (Int.not_le.mpr changed)]
    rcases fails with _ | write
    · simp [CDBFileRepositoryState.isClearDiskSpaceNeeded]
    · cases write with
      | blockInfo nFile =>
          by_cases first : nFile = 0 <;>
            simp [changed, first, SaveWrite.isMade,
              CDBFileRepositoryState.isClearDiskSpaceNeeded]
      | _ =>
          simp [changed, SaveWrite.isMade,
            CDBFileRepositoryState.isClearDiskSpaceNeeded]
  · rw [if_pos (Int.not_lt.mp changed)]
    rcases fails with _ | write
    · simp [CDBFileRepositoryState.isClearDiskSpaceNeeded]
    · cases write <;>
        simp [changed, SaveWrite.isMade,
          CDBFileRepositoryState.isClearDiskSpaceNeeded]

/-- The state in which `SaveManagerState` is called. -/
def beforeSave (environment : Environment) (state : RepositoryState) :
    RepositoryState :=
  { writeSyncState .null (createTempBlock environment
      { state with dbFileRepositoryState := .null }) with
    table := .single environment.time }

theorem createTempBlock_keeps (environment : Environment)
    (state : RepositoryState) :
    (createTempBlock environment state).dbFileRepositoryState =
        state.dbFileRepositoryState ∧
      (createTempBlock environment state).lastUpdateTime =
        state.lastUpdateTime := by
  unfold createTempBlock
  split_ifs
  · exact ⟨rfl, rfl⟩
  · exact ⟨rfl, rfl⟩

/-- Saving then fails exactly at a write that it makes.  The block files are
as they were, but for the temporary one, and the counters need no cleaning. -/
theorem save_beforeSave (fails : Option SaveWrite)
    (environment : Environment) (state : RepositoryState) :
    ∃ success saved,
      saveManagerStateStepwise fails (.single environment.time)
        (beforeSave environment state) = (success, saved) ∧
      (success = true ↔ ∀ write, fails = some write →
        write.isMade (state.lastUpdateTime < environment.time) = false) ∧
      saved.disk = (createTempBlock environment
        { state with dbFileRepositoryState := .null }).disk ∧
      saved.dbFileRepositoryState.isClearDiskSpaceNeeded = false := by
  rcases createTempBlock_keeps environment
    { state with dbFileRepositoryState := .null } with ⟨counters, updated⟩
  rcases saveManagerStateStepwise_single fails environment.time
    (beforeSave environment state) with ⟨succeeds, disk, idle⟩
  have sameTime : (beforeSave environment state).lastUpdateTime =
      state.lastUpdateTime := updated
  have idleBefore : (beforeSave
      environment state).dbFileRepositoryState.isClearDiskSpaceNeeded =
        false := by
    change CDBFileRepositoryState.isClearDiskSpaceNeeded
      (createTempBlock environment _).dbFileRepositoryState = _
    rw [counters]
    rfl
  rw [sameTime] at succeeds
  rw [idleBefore] at idle
  exact ⟨_, _, rfl, succeeds, disk, idle⟩

/-- What follows the copying loop, by the first temporary block. -/
theorem finishShrinkStepwise_single {faults : ShrinkFaults}
    {environment : Environment} {state saved : RepositoryState}
    {success : Bool}
    (saves : saveManagerStateStepwise faults.saveFails
      (.single environment.time) (beforeSave environment state) =
        (success, saved)) :
    finishShrinkStepwise faults
        ⟨writeSyncState .null (createTempBlock environment
          { state with dbFileRepositoryState := .null }),
          .null, .single environment.time⟩ =
      if success then
        match renameTmpOriginalFileBlockDisk 0 saved with
        | none => (.stopped, saved)
        | some renamed =>
            (.completed, if faults.endWriteFails then renamed
              else writeSyncState .null renamed)
      else (.stopped, saved) := by
  unfold finishShrinkStepwise
  dsimp only
  rw [← beforeSave, saves]
  cases success with
  | false => rfl
  | true =>
      simp only [BlockTable.single, List.range_succ, List.range_zero,
        List.nil_append, renameTempBlocks, if_true]
      cases renameTmpOriginalFileBlockDisk 0 saved with
      | none => rfl
      | some renamed => rfl

/-- A needed pass that stops early leaves counters that need no cleaning. -/
theorem stopped_idle (params : Params) {environment : Environment}
    {faults : ShrinkFaults} {state : RepositoryState}
    (early : ¬ Runs environment faults state) :
    NotRun state
        (shrinkUnderWriteLockStepwise params environment faults state) ∧
      (shrinkUnderWriteLockStepwise params environment faults
        state).2.dbFileRepositoryState.isClearDiskSpaceNeeded = false := by
  rw [shrinkUnderWriteLockStepwise_eq]
  split_ifs with sync broken
  · refine ⟨⟨by simp, createTempBlock_blk environment _⟩, ?_⟩
    rw [(createTempBlock_keeps environment _).1]
    rfl
  · rcases not_or.mp broken with ⟨readable, written⟩
    rcases save_beforeSave faults.saveFails environment state with
      ⟨success, saved, saves, succeeds, disk, idle⟩
    have blocks (number : Nat) : saved.disk (.blk number) =
        state.disk (.blk number) := by
      rw [disk]
      exact createTempBlock_blk environment _ number
    rw [finishShrinkStepwise_single saves]
    cases success with
    | false => exact ⟨⟨by simp, blocks⟩, idle⟩
    | true =>
        -- So the temporary block could not be opened.
        have missing : saved.disk (.tmpBlk 0) = none := by
          rw [← Option.not_isSome_iff_eq_none, disk]
          intro there
          exact early ⟨sync, by simpa using readable, by simpa using written,
            succeeds.mp rfl, (createTempBlock_isSome environment
              { state with dbFileRepositoryState := .null }).mp there⟩
        rw [if_pos rfl, renameTmpOriginalFileBlockDisk, missing]
        exact ⟨⟨by simp, blocks⟩, idle⟩
  · exact ⟨⟨by simp, fun _ => rfl⟩, rfl⟩

/-- Otherwise the pass comes to its end. -/
theorem runs_completed (params : Params) {environment : Environment}
    {faults : ShrinkFaults} {state : RepositoryState}
    (runs : Runs environment faults state) :
    (shrinkUnderWriteLockStepwise params environment faults state).1 =
      .completed := by
  have there := (createTempBlock_isSome environment
    { state with dbFileRepositoryState := .null }).mpr runs.opened
  rcases Option.isSome_iff_exists.mp there with ⟨content, found⟩
  rcases save_beforeSave faults.saveFails environment state with
    ⟨success, saved, saves, succeeds, disk, _⟩
  cases succeeds.mpr runs.saved
  rw [shrinkUnderWriteLockStepwise_eq, if_pos runs.sync,
    if_neg (by simp [runs.readable, runs.written]),
    finishShrinkStepwise_single saves, if_pos rfl,
    renameTmpOriginalFileBlockDisk, disk, found]

/-- A pass that does not run changes nothing exactly where there is nothing to
clean, or where nothing keeps the pass from running. -/
theorem stopped_pass_untouched_iff (params : Params)
    (environment : Environment) (faults : ShrinkFaults)
    (state : RepositoryState) :
    (NotRun state (shrinkStepwise params environment faults state) →
      Untouched state (shrinkStepwise params environment faults state).2) ↔
      state.dbFileRepositoryState.isClearDiskSpaceNeeded = false ∨
        Runs environment faults state := by
  cases needed : state.dbFileRepositoryState.isClearDiskSpaceNeeded with
  | false =>
      simp only [shrinkStepwise, needed, Bool.not_false, if_true, true_or,
        iff_true]
      exact fun _ => ⟨rfl, rfl, rfl⟩
  | true =>
      simp only [shrinkStepwise, needed, Bool.not_true, Bool.false_eq_true,
        if_false, Bool.true_eq_false, false_or]
      by_cases runs : Runs environment faults state
      · exact iff_of_true
          (fun stopped => absurd (runs_completed params runs) stopped.outcome)
          runs
      · obtain ⟨stopped, idle⟩ := stopped_idle params runs
        exact iff_of_false
          (fun untouched => not_untouched needed idle (untouched stopped))
          runs

/-- The sync state of the last pass is not the one of its end. -/
def interrupted : RepositoryState :=
  { halfErased with
    pblockfiletree := { halfErased.pblockfiletree with
      fileRepositoryBlockSyncState := some ⟨false, 0, 0⟩ } }

/-- The pass stops, and the two files are no longer counted. -/
theorem interrupted_loses_counters :
    shrinkStepwise sampleParams roomyDisk ⟨false, false, none, false⟩
        interrupted =
        (.stopped, { interrupted with dbFileRepositoryState := .null }) ∧
      NotRun interrupted
        (.stopped, { interrupted with dbFileRepositoryState := .null }) ∧
      ¬ Untouched interrupted
        { interrupted with dbFileRepositoryState := .null } := by
  have needed : interrupted.dbFileRepositoryState.isClearDiskSpaceNeeded =
      true := by decide +kernel
  have stopped := shrinkUnderWriteLockStepwise_eq sampleParams roomyDisk
    ⟨false, false, none, false⟩ interrupted
  rw [if_neg (by simp [interrupted, FileRepositoryBlockSyncState.null])]
    at stopped
  refine ⟨?_, ⟨by simp, fun _ => rfl⟩, not_untouched needed rfl⟩
  simp only [shrinkStepwise, needed, Bool.not_true, Bool.false_eq_true,
    if_false, stopped]

end PrivateDatagram.Repository.ShrinkStops
