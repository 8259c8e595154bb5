import PrivateDatagram.Repository.Accounting
import PrivateDatagram.Repository.Compaction

/-!
# Saving and loading the manager

`SaveManagerState` writes the infos of the blocks that were written to since
the manager was constructed, and `LoadManagerState` reads them back in a new
manager.  The comparison is with the second of the construction, so an info
that changes in that second is skipped for good; so is a block that is closed
without being written to.  Infos behind the last block stay in the database
and come back with the next start.

A call reads the clock once.
-/

namespace PrivateDatagram.Repository.Restart

open Records Manager Allocation StoredFiles Runs Compaction

abbrev BlockInfos := Std.ExtTreeMap Nat CFileRepositoryBlockInfo

/-! ## Loading -/

/--
The loop over the infos up to the last block.  Without the first info the rest
keep their defaults; another one may only be missing after a failed sync, and
then the next number is skipped as well.
-/
def readBlockInfos (time : Int) (isNull : Bool) (stored : BlockInfos) :
    Nat → Nat → Bool → Option (List CFileRepositoryBlockInfo)
  | 0, _, _ => some []
  | remaining + 1, nFile, skipped =>
      if skipped then
        (readBlockInfos time isNull stored remaining (nFile + 1) false).map
          (.null time :: ·)
      else
        match stored[nFile]? with
        | some info =>
            (readBlockInfos time isNull stored remaining (nFile + 1)
              false).map (info :: ·)
        | none =>
            if nFile = 0 then
              some (List.replicate (remaining + 1) (.null time))
            else if isNull then
              none
            else
              (readBlockInfos time isNull stored remaining (nFile + 1)
                true).map (.null time :: ·)

/-- The infos behind the last block, up to the first that is missing. -/
def probeBlockInfos (stored : BlockInfos) :
    Nat → Nat → List CFileRepositoryBlockInfo
  | 0, _ => []
  | rounds + 1, nFile =>
      match stored[nFile]? with
      | none => []
      | some info => info :: probeBlockInfos stored rounds (nFile + 1)

/-- The counters that are summed up from the infos. -/
def recount (infos : List CFileRepositoryBlockInfo) :
    CDBFileRepositoryState :=
  { CDBFileRepositoryState.null with
    nBlocksCount := UInt32.ofNat infos.length
    filesCount := (infos.map (·.nFilesCount)).sum
    nTotalFileStorageSize := (infos.map fun info =>
      info.nBlockSize.toUInt64).sum }

/-- The renaming loop of `FinishFileRepositorySync`. -/
def finishRenames : List Nat → RepositoryState → Option RepositoryState
  | [], state => some state
  | number :: rest, state =>
      if (state.disk (.blk number)).isNone then
        none
      else
        match renameTmpOriginalFileBlockDisk number state with
        | none => none
        | some state => finishRenames rest state

def finishFileRepositorySync (syncState : FileRepositoryBlockSyncState)
    (state : RepositoryState) : Option RepositoryState :=
  (finishRenames (List.range (syncState.nProcessedTempBlocks + 1).toNat)
    state).map (writeSyncState .null)

/--
`LoadManagerState` in a manager constructed at `lastUpdateTime`.  Nothing is
returned where it reports an error or an exception leaves it.
-/
def loadManagerState (fReindex : Bool) (lastUpdateTime time : Int)
    (tree : CBlockFileTreeDB) (disk : Disk) : Option RepositoryState :=
  let syncState := tree.fileRepositoryBlockSyncState.getD .null
  let nLast := tree.lastFileRepositoryBlock.getD 0
  match readBlockInfos time (syncState = .null) tree.fileRepositoryBlockInfo
      (nLast + 1) 0 false with
  | none => none
  | some infos =>
      let stored :=
        if tree.fileRepositoryBlockInfo[0]?.isNone then
          tree.fileRepositoryBlockInfo.insert 0 (.null time)
        else
          tree.fileRepositoryBlockInfo
      match infos ++ probeBlockInfos stored stored.size (nLast + 1) with
      | [] => none
      | first :: rest =>
          let table : BlockTable := ⟨first :: rest, rest.length, rfl⟩
          let loaded : RepositoryState :=
            { table
              dbFileRepositoryState := tree.dbFileRepositoryState.getD .null
              lastUpdateTime
              pblockfiletree :=
                { tree with
                  fileRepositoryBlockInfo := stored
                  lastFileRepositoryBlock := some nLast
                  fileRepositoryBlockSyncState := some syncState }
              disk }
          let state :=
            if fReindex || tree.dbFileRepositoryState.isNone then
              saveManagerState table
                { loaded with
                  dbFileRepositoryState := recount table.vblockFileInfo }
            else
              loaded
          if syncState = .null then some state
          else finishFileRepositorySync syncState state

/-! ## A vector in the database -/

/-- The database holds the vector and no info behind it. -/
def Matches (infos : List CFileRepositoryBlockInfo) (stored : BlockInfos) :
    Prop :=
  ∀ nFile : Nat, infos[nFile]? = stored[nFile]?

/-- The database has room for as many infos as it holds. -/
theorem Matches.length_le {infos : List CFileRepositoryBlockInfo}
    {stored : BlockInfos} (matches' : Matches infos stored) :
    infos.length ≤ stored.size := by
  have inside : List.range infos.length ⊆ stored.keys := by
    intro nFile member
    have short := List.mem_range.mp member
    rw [Std.ExtTreeMap.mem_keys, Std.ExtTreeMap.mem_iff_isSome_getElem?,
      ← matches' nFile, List.getElem?_eq_getElem short]
    rfl
  have counted := (List.nodup_range.subperm inside).length_le
  rw [List.length_range, Std.ExtTreeMap.length_keys] at counted
  exact counted

theorem readBlockInfos_of_matches {infos : List CFileRepositoryBlockInfo}
    {stored : BlockInfos} (matches' : Matches infos stored) (time : Int)
    (isNull : Bool) {remaining nFile : Nat}
    (inside : nFile + remaining ≤ infos.length) :
    readBlockInfos time isNull stored remaining nFile false =
      some ((infos.drop nFile).take remaining) := by
  induction remaining generalizing nFile with
  | zero => rfl
  | succ remaining ih =>
      have here : nFile < infos.length := by omega
      rw [readBlockInfos, if_neg Bool.false_ne_true, ← matches' nFile,
        List.getElem?_eq_getElem here]
      dsimp only
      rw [ih (by omega), List.drop_eq_getElem_cons here]
      rfl

theorem probeBlockInfos_of_matches {infos : List CFileRepositoryBlockInfo}
    {stored : BlockInfos} (matches' : Matches infos stored)
    {rounds nFile : Nat} (enough : infos.length ≤ nFile + rounds) :
    probeBlockInfos stored rounds nFile = infos.drop nFile := by
  induction rounds generalizing nFile with
  | zero =>
      rw [List.drop_eq_nil_of_le (by omega)]
      rfl
  | succ rounds ih =>
      rw [probeBlockInfos, ← matches' nFile]
      by_cases here : nFile < infos.length
      · rw [List.getElem?_eq_getElem here]
        dsimp only
        rw [ih (by omega), List.drop_eq_getElem_cons here]
      · rw [List.getElem?_eq_none (Nat.le_of_not_lt here),
          List.drop_eq_nil_of_le (Nat.le_of_not_lt here)]

/-! ## Saving -/

/-- The info was written to after the manager was constructed. -/
def Written (lastUpdateTime : Int) (info : CFileRepositoryBlockInfo) : Prop :=
  lastUpdateTime < info.lastWriteTime

theorem saveBlockInfos_before {lastUpdateTime : Int} {first nFile : Nat}
    (before : nFile < first) (infos : List CFileRepositoryBlockInfo)
    (stored : BlockInfos) :
    (saveBlockInfos lastUpdateTime first infos stored).2[nFile]? =
      stored[nFile]? := by
  induction infos generalizing first stored with
  | nil => rfl
  | cons info rest ih =>
      rw [saveBlockInfos]
      split_ifs
      · exact ih (Nat.lt_succ_of_lt before) stored
      · rw [ih (Nat.lt_succ_of_lt before), Std.ExtTreeMap.getElem?_insert,
          if_neg (by simpa using Nat.ne_of_gt before)]

theorem saveBlockInfos_behind {lastUpdateTime : Int} {first nFile : Nat}
    {infos : List CFileRepositoryBlockInfo}
    (behind : first + infos.length ≤ nFile) (stored : BlockInfos) :
    (saveBlockInfos lastUpdateTime first infos stored).2[nFile]? =
      stored[nFile]? := by
  induction infos generalizing first stored with
  | nil => rfl
  | cons info rest ih =>
      rw [List.length_cons] at behind
      rw [saveBlockInfos]
      split_ifs
      · exact ih (by omega) stored
      · rw [ih (by omega), Std.ExtTreeMap.getElem?_insert, if_neg]
        rw [Std.LawfulEqCmp.compare_eq_iff_eq]
        omega

theorem saveBlockInfos_at (lastUpdateTime : Int) (first : Nat) {offset : Nat}
    {infos : List CFileRepositoryBlockInfo} {info : CFileRepositoryBlockInfo}
    (here : infos[offset]? = some info) (stored : BlockInfos) :
    (Written lastUpdateTime info →
      (saveBlockInfos lastUpdateTime first infos stored).2[first + offset]? =
        some info) ∧
    (¬ Written lastUpdateTime info →
      (saveBlockInfos lastUpdateTime first infos stored).2[first + offset]? =
        stored[first + offset]?) := by
  induction infos generalizing first offset stored with
  | nil => cases here
  | cons newest rest ih =>
      rw [saveBlockInfos]
      cases offset with
      | zero =>
          cases here
          simp only [Nat.add_zero]
          constructor
          · intro written
            rw [if_neg (Int.not_le.mpr written),
              saveBlockInfos_before (Nat.lt_succ_self first)]
            exact Std.ExtTreeMap.getElem?_insert_self
          · intro skipped
            rw [if_pos (Int.not_lt.mp skipped)]
            exact saveBlockInfos_before (Nat.lt_succ_self first) rest stored
      | succ offset =>
          rw [List.getElem?_cons_succ] at here
          have next : first + (offset + 1) = first + 1 + offset := by omega
          rw [next]
          split_ifs
          · exact ih (first + 1) here stored
          · have later := ih (first + 1) here (stored.insert first newest)
            refine ⟨later.1, fun skipped => (later.2 skipped).trans ?_⟩
            rw [Std.ExtTreeMap.getElem?_insert, if_neg]
            rw [Std.LawfulEqCmp.compare_eq_iff_eq]
            omega

/-- Saving leaves the vector in the database, if the rest was there before. -/
theorem saveBlockInfos_matches {lastUpdateTime : Int}
    {infos saved : List CFileRepositoryBlockInfo} {stored : BlockInfos}
    (matches' : Matches saved stored)
    (short : saved.length ≤ infos.length)
    (kept : ∀ (nFile : Nat) info, infos[nFile]? = some info →
      Written lastUpdateTime info ∨ saved[nFile]? = some info) :
    Matches infos (saveBlockInfos lastUpdateTime 0 infos stored).2 := by
  intro nFile
  cases here : infos[nFile]? with
  | none =>
      have behind := List.getElem?_eq_none_iff.mp here
      rw [saveBlockInfos_behind (by omega), ← matches' nFile]
      exact (List.getElem?_eq_none (by omega)).symm
  | some info =>
      have spec := saveBlockInfos_at lastUpdateTime 0 here stored
      rw [Nat.zero_add] at spec
      by_cases written : Written lastUpdateTime info
      · exact (spec.1 written).symm
      · rw [spec.2 written, ← matches' nFile]
        exact ((kept nFile info here).resolve_left written).symm

/-! ## What the database is good for -/

/--
The database holds a vector from which the table differs only in infos that
were written to since the manager was constructed.
-/
structure Recoverable (state : RepositoryState) : Prop where
  infos : ∃ saved,
    Matches saved state.pblockfiletree.fileRepositoryBlockInfo ∧
      saved.length ≤ state.table.vblockFileInfo.length ∧
      (∀ (nFile : Nat) info, state.table.vblockFileInfo[nFile]? = some info →
        Written state.lastUpdateTime info ∨ saved[nFile]? = some info) ∧
      ∃ last, state.pblockfiletree.lastFileRepositoryBlock = some last ∧
        last < saved.length
  sync : state.pblockfiletree.fileRepositoryBlockSyncState = some .null

/-- The database holds the table itself. -/
structure Persisted (state : RepositoryState) : Prop where
  infos : Matches state.table.vblockFileInfo
    state.pblockfiletree.fileRepositoryBlockInfo
  last : ∃ last, state.pblockfiletree.lastFileRepositoryBlock = some last ∧
    last < state.table.vblockFileInfo.length
  sync : state.pblockfiletree.fileRepositoryBlockSyncState = some .null

theorem Persisted.recoverable {state : RepositoryState}
    (persisted : Persisted state) :
    Recoverable state where
  infos :=
    ⟨_, persisted.infos, Nat.le_refl _, fun _ _ => Or.inr, persisted.last⟩
  sync := persisted.sync

theorem persisted_saveManagerState {state : RepositoryState}
    (recoverable : Recoverable state) :
    Persisted (saveManagerState state.table state) := by
  rcases recoverable.infos with
    ⟨saved, matches', short, kept, last, isLast, inside⟩
  refine ⟨saveBlockInfos_matches matches' short kept, ?_, recoverable.sync⟩
  unfold saveManagerState
  dsimp only
  split_ifs
  · refine ⟨_, rfl, ?_⟩
    rw [← state.table.last]
    exact Nat.lt_succ_self _
  · exact ⟨last, isLast, Nat.lt_of_lt_of_le inside short⟩

/-- Loading yields the vector of the database. -/
theorem loadManagerState_of_matches {saved : List CFileRepositoryBlockInfo}
    {tree : CBlockFileTreeDB} {last : Nat} (fReindex : Bool)
    (lastUpdateTime time : Int) (disk : Disk)
    (matches' : Matches saved tree.fileRepositoryBlockInfo)
    (isLast : tree.lastFileRepositoryBlock = some last)
    (inside : last < saved.length)
    (sync : tree.fileRepositoryBlockSyncState = some .null) :
    ∃ state,
      loadManagerState fReindex lastUpdateTime time tree disk = some state ∧
        state.table.vblockFileInfo = saved ∧ Persisted state ∧
        (fReindex = false → ∀ counters,
          tree.dbFileRepositoryState = some counters →
            state.dbFileRepositoryState = counters) := by
  have first : tree.fileRepositoryBlockInfo[0]?.isNone = false := by
    rw [← matches' 0, List.getElem?_eq_getElem (by omega)]
    rfl
  have whole : saved.take (last + 1) ++ saved.drop (last + 1) = saved :=
    List.take_append_drop _ _
  unfold loadManagerState
  rw [sync, isLast]
  dsimp only [Option.getD_some]
  rw [readBlockInfos_of_matches matches' _ _ (by omega), List.drop_zero,
    first, if_neg Bool.false_ne_true]
  dsimp only
  rw [probeBlockInfos_of_matches matches'
    (Nat.le_trans matches'.length_le (Nat.le_add_left _ _)), whole]
  cases saved with
  | nil => cases inside
  | cons info rest =>
      have loaded : ∀ counters, Persisted
          { table := ⟨info :: rest, rest.length, rfl⟩
            dbFileRepositoryState := counters
            lastUpdateTime := lastUpdateTime
            pblockfiletree :=
              { tree with
                lastFileRepositoryBlock := some last
                fileRepositoryBlockSyncState := some .null }
            disk := disk } :=
        fun _ => ⟨matches', ⟨last, rfl, inside⟩, rfl⟩
      dsimp only
      rw [if_pos rfl]
      refine ⟨_, rfl, ?_⟩
      split_ifs with counts
      · refine ⟨rfl, persisted_saveManagerState (loaded _).recoverable, ?_⟩
        rintro rfl counters isCounted
        rw [isCounted] at counts
        cases counts
      · refine ⟨rfl, loaded _, ?_⟩
        intro _ counters isCounted
        rw [isCounted]
        rfl

/-! ## The table between two saves -/

/-- The infos that differ were written to, and none is gone. -/
structure Rewritten (lastUpdateTime : Int) (table table' : BlockTable) :
    Prop where
  grows : table.vblockFileInfo.length ≤ table'.vblockFileInfo.length
  changed : ∀ (nFile : Nat) info, table'.vblockFileInfo[nFile]? = some info →
    Written lastUpdateTime info ∨ table.vblockFileInfo[nFile]? = some info

theorem Rewritten.refl (lastUpdateTime : Int) (table : BlockTable) :
    Rewritten lastUpdateTime table table :=
  ⟨Nat.le_refl _, fun _ _ => Or.inr⟩

theorem Rewritten.trans {lastUpdateTime : Int}
    {first second third : BlockTable}
    (one : Rewritten lastUpdateTime first second)
    (two : Rewritten lastUpdateTime second third) :
    Rewritten lastUpdateTime first third where
  grows := Nat.le_trans one.grows two.grows
  changed := by
    intro nFile info here
    rcases two.changed nFile info here with written | before
    · exact Or.inl written
    · exact one.changed nFile info before

theorem rewritten_modifyLast {lastUpdateTime : Int} {table : BlockTable}
    {change : CFileRepositoryBlockInfo → CFileRepositoryBlockInfo}
    (here : Written lastUpdateTime (change table.current) ∨
      change table.current = table.current) :
    Rewritten lastUpdateTime table (table.modifyLast change) where
  grows := by
    change _ ≤ (table.vblockFileInfo.modify _ _).length
    rw [List.length_modify]
  changed := by
    intro nFile info found
    rw [getElem?_modifyLast] at found
    split_ifs at found with isLast
    · cases found
      subst isLast
      rcases here with written | same
      · exact Or.inl written
      · rw [same]
        exact Or.inr (getElem?_last table)
    · exact Or.inr found

theorem rewritten_emplaceBack {lastUpdateTime : Int} (table : BlockTable)
    {info : CFileRepositoryBlockInfo} (written : Written lastUpdateTime info) :
    Rewritten lastUpdateTime table (table.emplaceBack info) where
  grows := by
    change _ ≤ (table.vblockFileInfo ++ [info]).length
    rw [List.length_append]
    exact Nat.le_add_right _ _
  changed := by
    intro nFile other found
    change (table.vblockFileInfo ++ [info])[nFile]? = some other at found
    rcases List.mem_append.mp (List.mem_of_getElem? found) with _ | new
    · rw [List.getElem?_append] at found
      split_ifs at found with inside
      · exact Or.inr found
      · rw [List.mem_singleton.mp (List.mem_of_getElem? found)]
        exact Or.inl written
    · rw [List.mem_singleton.mp new]
      exact Or.inl written

/-- The last block is written to, so what closes it reaches the database. -/
def Closes (nAddSize : UInt32) (state : RepositoryState) : Prop :=
  state.table.current.nBlockSize + nAddSize ≥ maxFileBlockFileSize →
    state.table.current.isFull = true ∨
      Written state.lastUpdateTime state.table.current

/-- What the manager has in the database besides the file index. -/
structure SameBooks (state state' : RepositoryState) : Prop where
  lastUpdateTime : state'.lastUpdateTime = state.lastUpdateTime
  stored : state'.pblockfiletree.fileRepositoryBlockInfo =
    state.pblockfiletree.fileRepositoryBlockInfo
  last : state'.pblockfiletree.lastFileRepositoryBlock =
    state.pblockfiletree.lastFileRepositoryBlock
  sync : state'.pblockfiletree.fileRepositoryBlockSyncState =
    state.pblockfiletree.fileRepositoryBlockSyncState

theorem Recoverable.rewritten {state state' : RepositoryState}
    (recoverable : Recoverable state) (same : SameBooks state state')
    (rewritten : Rewritten state.lastUpdateTime state.table state'.table) :
    Recoverable state' := by
  rcases recoverable.infos with ⟨saved, matches', short, kept, last⟩
  refine ⟨⟨saved, ?_, Nat.le_trans short rewritten.grows, ?_, ?_⟩, ?_⟩
  · rw [same.stored]
    exact matches'
  · intro nFile info here
    rw [same.lastUpdateTime]
    rcases rewritten.changed nFile info here with written | before
    · exact Or.inl written
    · exact kept nFile info before
  · rw [same.last]
    exact last
  · rw [same.sync]
    exact recoverable.sync

theorem makeRoom_rewritten {environment : Environment} {nAddSize : UInt32}
    {state : RepositoryState}
    (late : state.lastUpdateTime < environment.time)
    (closes : Closes nAddSize state) :
    Rewritten state.lastUpdateTime state.table
        (makeRoom environment nAddSize false state.table state).1 ∧
      SameBooks state
        (makeRoom environment nAddSize false state.table state).2 := by
  unfold makeRoom
  split_ifs with full
  · unfold startNewBlock flushFileRepositoryBlock
    dsimp only
    constructor
    · refine (rewritten_modifyLast ?_).trans
        (rewritten_emplaceBack _ (by exact late))
      rcases closes full with isFull | written
      · right
        rw [← isFull]
      · left
        exact written
    · split_ifs <;> exact ⟨rfl, rfl, rfl, rfl⟩
  · exact ⟨.refl _ _, ⟨rfl, rfl, rfl, rfl⟩⟩

theorem placeFile_rewritten {environment : Environment} {nAddSize : UInt32}
    {lastUpdateTime : Int} {table table' : BlockTable}
    {state state' : RepositoryState}
    {result : Option CFileRepositoryBlockDiskPos}
    (late : lastUpdateTime < environment.time)
    (placed : placeFile environment nAddSize false table state =
      (result, table', state')) :
    Rewritten lastUpdateTime table table' ∧ SameBooks state state' := by
  have written : Rewritten lastUpdateTime table
      (table.modifyLast (·.addFile environment.time nAddSize)) :=
    rewritten_modifyLast (Or.inl late)
  unfold placeFile at placed
  dsimp only at placed
  split_ifs at placed
  · cases placed
    exact ⟨written, ⟨rfl, rfl, rfl, rfl⟩⟩
  · cases placed
    refine ⟨written, ?_⟩
    unfold allocateFileRange
    split_ifs <;> exact ⟨rfl, rfl, rfl, rfl⟩
  · cases placed
    exact ⟨written, ⟨rfl, rfl, rfl, rfl⟩⟩

theorem SameBooks.trans {first second third : RepositoryState}
    (one : SameBooks first second) (two : SameBooks second third) :
    SameBooks first third :=
  ⟨two.lastUpdateTime.trans one.lastUpdateTime, two.stored.trans one.stored,
    two.last.trans one.last, two.sync.trans one.sync⟩

theorem recoverable_allocate {environment : Environment} {nAddSize : UInt32}
    {state state' : RepositoryState}
    {result : Option CFileRepositoryBlockDiskPos}
    (recoverable : Recoverable state)
    (late : state.lastUpdateTime < environment.time)
    (closes : Closes nAddSize state)
    (found : allocate environment nAddSize state = (result, state')) :
    Recoverable state' := by
  rcases call : findAndAllocateBlockFile environment nAddSize false
    state.table state with ⟨reached, table, middle⟩
  rw [allocate, call] at found
  cases found
  unfold findAndAllocateBlockFile at call
  split_ifs at call
  · cases call
    exact recoverable
  · have room := makeRoom_rewritten late closes
    have placed := placeFile_rewritten late call
    have same := room.2.trans placed.2
    exact recoverable.rewritten
      ⟨same.lastUpdateTime, same.stored, same.last, same.sync⟩
      (room.1.trans placed.1)

/-! ## Steps -/

/-- A call, a pass, a save of the state, or a start over the same database. -/
inductive Step where
  | call (environment : Environment) (request : Call)
  | shrinkRecycledFiles (environment : Environment)
  | saveFileRepositoryState
  | restart (fReindex : Bool) (lastUpdateTime time : Int)

namespace Step

/-- The state that a step leaves; a start may fail. -/
def perform (params : Params) : Step → RepositoryState →
    Option RepositoryState
  | .call environment request, state =>
      some (Runs.perform params environment request state).2
  | .shrinkRecycledFiles environment, state =>
      some (Compaction.shrinkRecycledFiles params environment state).2
  | .saveFileRepositoryState, state =>
      some (saveManagerState state.table state)
  | .restart fReindex lastUpdateTime time, state =>
      loadManagerState fReindex lastUpdateTime time state.pblockfiletree
        state.disk

/--
A file is saved after the second in which the manager was constructed, and
closes no block that was last written to before.  A pass that shrinks the
repository runs after that second too, with one block at most in the database.
-/
def Safe (params : Params) : Step → RepositoryState → Prop
  | .call environment (.saveFile file _), state =>
      state.lastUpdateTime < environment.time ∧
        Closes (getRepositoryFileSize params file) state
  | .shrinkRecycledFiles environment, state =>
      state.dbFileRepositoryState.isClearDiskSpaceNeeded = true →
        state.lastUpdateTime < environment.time ∧
          state.pblockfiletree.fileRepositoryBlockInfo[1]? = none
  | _, _ => True

end Step

/-- The states of all runs whose steps are allowed where they are taken. -/
inductive Reachable (params : Params)
    (allowed : Step → RepositoryState → Prop) : RepositoryState → Prop where
  | start (lastUpdateTime time : Int) :
      Reachable params allowed (emptyRepository lastUpdateTime time)
  | step {state state' : RepositoryState} (step : Step)
      (reached : Reachable params allowed state)
      (isAllowed : allowed step state)
      (performed : step.perform params state = some state') :
      Reachable params allowed state'

theorem recoverable_start (lastUpdateTime time : Int) :
    Recoverable (emptyRepository lastUpdateTime time) := by
  have persisted : Persisted (emptyRepository lastUpdateTime time) := by
    refine ⟨?_, ⟨0, rfl, Nat.zero_lt_one⟩, rfl⟩
    intro nFile
    change [CFileRepositoryBlockInfo.null time][nFile]? =
      (Std.ExtTreeMap.insert ∅ 0 (.null time) : BlockInfos)[nFile]?
    rw [Std.ExtTreeMap.getElem?_insert]
    cases nFile with
    | zero => rfl
    | succ nFile => simp
  exact persisted.recoverable

theorem recoverable_saveFile {params : Params} {environment : Environment}
    {file : CDBFile} {state : RepositoryState}
    (recoverable : Recoverable state)
    (late : state.lastUpdateTime < environment.time)
    (closes : Closes (getRepositoryFileSize params file) state) :
    Recoverable (saveFile params environment file state).2 := by
  rcases call : allocate environment (getRepositoryFileSize params file)
    state with ⟨result, middle⟩
  have allocated := recoverable_allocate recoverable late closes call
  have kept : ∀ state', SameBooks middle state' →
      state'.table = middle.table → Recoverable state' := by
    intro state' same table
    refine allocated.rewritten same ?_
    rw [table]
    exact .refl _ _
  rcases Accounting.saveFile_cases call with done | ⟨pos, rfl, done | done⟩
  · rw [done]
    exact allocated
  · rw [done]
    exact kept _ ⟨rfl, rfl, rfl, rfl⟩ rfl
  · rw [done]
    exact kept _ ⟨rfl, rfl, rfl, rfl⟩ rfl

/-- Neither the table nor its copy in the database is touched. -/
def LeavesBooks (state state' : RepositoryState) : Prop :=
  SameBooks state state' ∧ state'.table = state.table

theorem LeavesBooks.refl (state : RepositoryState) :
    LeavesBooks state state :=
  ⟨⟨rfl, rfl, rfl, rfl⟩, rfl⟩

theorem LeavesBooks.trans {first second third : RepositoryState}
    (one : LeavesBooks first second) (two : LeavesBooks second third) :
    LeavesBooks first third :=
  ⟨one.1.trans two.1, two.2.trans one.2⟩

theorem Recoverable.leaves {state state' : RepositoryState}
    (recoverable : Recoverable state) (leaves : LeavesBooks state state') :
    Recoverable state' := by
  refine recoverable.rewritten leaves.1 ?_
  rw [leaves.2]
  exact .refl _ _

theorem eraseFile_leavesBooks (params : Params) (environment : Environment)
    (file : CDBFile) (state : RepositoryState) :
    LeavesBooks state (eraseFile params environment file state).2 := by
  rcases Accounting.eraseFile_cases params environment file state with
    done | ⟨pos, _, done | ⟨stored, _, _, done⟩⟩
  · rw [done]
    exact .refl state
  · rw [done]
    exact ⟨⟨rfl, rfl, rfl, rfl⟩, rfl⟩
  · rw [done]
    exact ⟨⟨rfl, rfl, rfl, rfl⟩, rfl⟩

theorem recycleEntry_leavesBooks {params : Params}
    {environment : Environment} {pos : CFileRepositoryBlockDiskPos}
    {state state' : RepositoryState}
    (done : recycleEntry params environment pos state = some state') :
    LeavesBooks state state' := by
  rw [recycleEntry] at done
  split at done
  · cases done
  · split_ifs at done
    · cases done
      exact .refl state
    · split at done
      · cases done
      case h_2 written =>
        rcases write_some written with ⟨_, disk⟩
        subst disk
        cases done
        exact ⟨⟨rfl, rfl, rfl, rfl⟩, rfl⟩
    · cases done
      exact .refl state

theorem recycleEntries_leavesBooks (params : Params)
    (environment : Environment)
    (positions : List CFileRepositoryBlockDiskPos)
    (state : RepositoryState) :
    LeavesBooks state
      (recycleEntries params environment positions state).2 := by
  induction positions generalizing state with
  | nil => exact .refl state
  | cons pos rest ih =>
      rw [recycleEntries]
      cases done : recycleEntry params environment pos state with
      | none => exact .refl state
      | some state' =>
          exact (recycleEntry_leavesBooks done).trans (ih state')

/-- A pass leaves one empty block in the table and in the database. -/
theorem recoverable_shrink {params : Params} {environment : Environment}
    {state : RepositoryState} (recoverable : Recoverable state)
    (safe : (Step.shrinkRecycledFiles environment).Safe params state) :
    Recoverable
      (Compaction.shrinkRecycledFiles params environment state).2 := by
  unfold Compaction.shrinkRecycledFiles
  split_ifs with idle
  · exact recoverable
  · rcases safe (by simpa using idle) with ⟨late, single⟩
    rw [shrinkUnderWriteLock_eq, if_pos recoverable.sync, finishShrink_single]
    have tree := createTempBlock_tree environment
      { state with dbFileRepositoryState := .null }
    have time : (createTempBlock environment
        { state with dbFileRepositoryState := .null }).lastUpdateTime =
          state.lastUpdateTime := by
      unfold createTempBlock
      split_ifs <;> rfl
    generalize createTempBlock environment
      { state with dbFileRepositoryState := .null } = opened at tree time
    have emptied : Recoverable
        { writeSyncState .null opened with
          table := .single environment.time } := by
      rcases recoverable.infos with ⟨saved, matches', _, _, last⟩
      refine ⟨⟨saved, ?_, ?_, ?_, ?_⟩, rfl⟩
      · change Matches saved opened.pblockfiletree.fileRepositoryBlockInfo
        rw [tree]
        exact matches'
      · have short := (matches' 1).trans single
        exact List.getElem?_eq_none_iff.mp short
      · intro nFile info here
        left
        rw [List.mem_singleton.mp (List.mem_of_getElem? here)]
        change opened.lastUpdateTime < environment.time
        rw [time]
        exact late
      · change ∃ last, opened.pblockfiletree.lastFileRepositoryBlock =
          some last ∧ _
        rw [tree]
        exact last
    have persisted := (persisted_saveManagerState emptied).recoverable
    split
    · exact persisted
    · refine persisted.leaves ⟨⟨rfl, rfl, rfl, ?_⟩, rfl⟩
      exact persisted.sync.symm

theorem Recoverable.step {params : Params} {state state' : RepositoryState}
    {step : Step} (recoverable : Recoverable state)
    (safe : step.Safe params state)
    (performed : step.perform params state = some state') :
    Recoverable state' := by
  cases step with
  | call environment request =>
      cases performed
      cases request with
      | saveFile file admitted =>
          exact recoverable_saveFile recoverable safe.1 safe.2
      | eraseFile file =>
          exact recoverable.leaves
            (eraseFile_leavesBooks params environment file state)
      | findAndRecycleExpiredFiles =>
          exact recoverable.leaves
            (recycleEntries_leavesBooks params environment _ state)
      | getFile fileHash => exact recoverable
  | shrinkRecycledFiles environment =>
      cases performed
      exact recoverable_shrink recoverable safe
  | saveFileRepositoryState =>
      cases performed
      exact (persisted_saveManagerState recoverable).recoverable
  | restart fReindex lastUpdateTime time =>
      rcases recoverable.infos with
        ⟨saved, matches', _, _, last, isLast, inside⟩
      rcases loadManagerState_of_matches fReindex lastUpdateTime time
        state.disk matches' isLast inside recoverable.sync with
        ⟨loaded, done, _, persisted, _⟩
      have same := done.symm.trans performed
      cases same
      exact persisted.recoverable

theorem recoverable_of_reachable {params : Params} {state : RepositoryState}
    (reachable : Reachable params (Step.Safe params) state) :
    Recoverable state := by
  induction reachable with
  | start lastUpdateTime time => exact recoverable_start lastUpdateTime time
  | step step _ safe performed ih => exact ih.step safe performed

/-! ## A restart -/

/-- Size, number of files and flag of a block. -/
def blockSummary (info : CFileRepositoryBlockInfo) : UInt32 × UInt32 × Bool :=
  (info.nBlockSize, info.nFilesCount, info.isFull)

/-- A manager agrees with the one that saved the state. -/
structure SameManager (saved loaded : RepositoryState) : Prop where
  infos : loaded.table.vblockFileInfo.map blockSummary =
    saved.table.vblockFileInfo.map blockSummary
  last : loaded.table.lastBlockFileIndex = saved.table.lastBlockFileIndex

/--
Saving the state and loading it in a new manager, whenever that is
constructed, yields the same manager.  With `-reindex` the counters are summed
up anew.
-/
def SurvivesRestart (state : RepositoryState) : Prop :=
  let saved := saveManagerState state.table state
  ∀ fReindex lastUpdateTime time, ∃ loaded,
    loadManagerState fReindex lastUpdateTime time saved.pblockfiletree
        saved.disk = some loaded ∧
      SameManager saved loaded ∧
      (fReindex = false →
        loaded.dbFileRepositoryState = saved.dbFileRepositoryState)

theorem Recoverable.survives {state : RepositoryState}
    (recoverable : Recoverable state) : SurvivesRestart state := by
  intro fReindex lastUpdateTime time
  have persisted := persisted_saveManagerState recoverable
  rcases persisted.last with ⟨last, isLast, inside⟩
  rcases loadManagerState_of_matches fReindex lastUpdateTime time _
    persisted.infos isLast inside persisted.sync with
    ⟨loaded, done, table, _, counters⟩
  refine ⟨loaded, done, ⟨by rw [table], ?_⟩, ?_⟩
  · have lengths := congrArg List.length table
    rw [← loaded.table.last, ← BlockTable.last] at lengths
    exact Nat.succ.inj lengths
  · intro plain
    exact counters plain _ rfl

/--
In a run whose steps are safe the state survives a restart, wherever the run
has come to.
-/
theorem state_survives_restart (params : Params) (state : RepositoryState)
    (reachable : Reachable params (Step.Safe params) state) :
    SurvivesRestart state :=
  (recoverable_of_reachable reachable).survives

/-- A repository with one file, saved one second after the start. -/
def nextSecond : RepositoryState :=
  (saveFile sampleParams roomyDisk sampleFile (emptyRepository 0 0)).2

theorem state_survives_restart_nextSecond :
    ∃ loaded, loadManagerState false 2 2
        (saveManagerState nextSecond.table nextSecond).pblockfiletree
        (saveManagerState nextSecond.table nextSecond).disk = some loaded ∧
      loaded.table.vblockFileInfo.map blockSummary = [(48, 1, false)] := by
  have reachable : Reachable sampleParams (Step.Safe sampleParams)
      nextSecond := by
    refine .step (.call roomyDisk (.saveFile sampleFile sampleFile_admitted))
      (.start 0 0) ⟨by decide, ?_⟩ rfl
    intro full
    exact absurd full (by decide +kernel)
  rcases state_survives_restart sampleParams nextSecond reachable false 2 2
    with ⟨loaded, done, same, _⟩
  exact ⟨loaded, done, same.infos.trans (by decide +kernel)⟩

/-- A repository with one file, saved in the second of the start. -/
def sameSecond : RepositoryState :=
  (saveFile sampleParams roomyDisk sampleFile (emptyRepository 1 1)).2

theorem file_of_first_second_forgotten :
    ¬ ∀ (params : Params) (state : RepositoryState),
      Reachable params (fun _ _ => True) state → SurvivesRestart state := by
  intro survives
  have reachable : Reachable sampleParams (fun _ _ => True) sameSecond :=
    .step (.call roomyDisk (.saveFile sampleFile sampleFile_admitted))
      (.start 1 1) trivial rfl
  rcases survives sampleParams sameSecond reachable false 2 2 with
    ⟨loaded, done, same, _⟩
  have forgotten : (loadManagerState false 2 2
      (saveManagerState sameSecond.table sameSecond).pblockfiletree
      (saveManagerState sameSecond.table sameSecond).disk).map
        (fun state => state.table.vblockFileInfo.map blockSummary) =
          some [(0, 0, false)] := by
    decide +kernel
  rw [done, Option.map_some, same.infos] at forgotten
  exact absurd forgotten (by decide +kernel)

end PrivateDatagram.Repository.Restart
