import PrivateDatagram.Library.ReaderWriter
import PrivateDatagram.Repository.Compaction

/-!
# The repository lock

Each operation of the repository is a program of atomic steps under
`cs_RepositoryReadWriteLock`.  The mode in which a macro takes the mutex is
what `sync.h` makes of it: `READ_LOCK` declares a `CSharedLock`, which is a
`boost::unique_lock`, and `WRITE_LOCK` a `CUniqueLock`, which is a
`boost::shared_lock`.  Two operations that write can therefore be inside the
lock at the same time.
-/

namespace PrivateDatagram.Repository.Locking

open Library.ByteFormat Library.ReaderWriter Wire.Serialize Records Manager
  Allocation StoredFiles Compaction Runs

/-! ## Lock classes -/

/-- The guard classes of `sync.h`. -/
inductive LockClass where
  | cSharedLock
  | cUniqueLock
deriving DecidableEq, Repr

/-- The mode of the boost guard behind the typedef. -/
def LockClass.mode : LockClass → Mode
  | .cSharedLock => .exclusive
  | .cUniqueLock => .shared

inductive LockMacro where
  | readLock
  | writeLock
deriving DecidableEq, Repr

/-- `READ_LOCK` and `WRITE_LOCK`. -/
def LockMacro.lockClass : LockMacro → LockClass
  | .readLock => .cSharedLock
  | .writeLock => .cUniqueLock

def lockMode (lock : LockMacro) : Mode := lock.lockClass.mode

/-! ## Operations as programs -/

/-- The repository, and the extents given out since the last compaction. -/
structure Shared where
  repository : RepositoryState
  extents : List CFileRepositoryBlockDiskPos

inductive Operation where
  | saveFile (file : CDBFile)
  | eraseFile (file : CDBFile)
  | findAndRecycleExpiredFiles
  | shrinkRecycledFiles
  | getFile (fileHash : UInt256)

inductive Result where
  | saved (success : Bool)
  | erased (success : Bool)
  | recycled (finished : Bool)
  | shrunk (outcome : ShrinkOutcome)
  | found (file : Option CDBFile)

abbrev RepositoryProgram := Program LockMacro Shared Result

/-- A step on the repository alone. -/
def lift (change : RepositoryState → RepositoryState) (shared : Shared) :
    Shared :=
  { shared with repository := change shared.repository }

/-- A step that may fail and then changes nothing. -/
def attempt (change : RepositoryState → Option RepositoryState)
    (failed succeeded : RepositoryProgram) : RepositoryProgram :=
  .act (lift fun state => (change state).getD state) fun shared =>
    if (change shared.repository).isSome then succeeded else failed

/-- Leave the lock and return. -/
def finish (result : Result) : RepositoryProgram := .release (.ret result)

/-- The step that gives out an extent. -/
def allocateShared (environment : Environment) (nDBFileSize : UInt32)
    (shared : Shared) : Shared :=
  let allocation := allocate environment nDBFileSize shared.repository
  ⟨allocation.2, allocation.1.toList ++ shared.extents⟩

section

variable (params : Params) (environment : Environment)

def saveSection (file : CDBFile) : RepositoryProgram :=
  let nRepositoryFileSize := getRepositoryFileSize params file
  .act (allocateShared environment nRepositoryFileSize) fun shared =>
    match (allocate environment nRepositoryFileSize shared.repository).1 with
    | none => finish (.saved false)
    | some filePos =>
        attempt
          (writeFileRepositoryBlockToDiskFrom params (file.serialize params)
            environment filePos false)
          (finish (.saved false))
          (attempt
            (writeFileIndex environment (file.calcFileHash params) filePos)
            (finish (.saved false))
            (.act (lift (countAddedFile nRepositoryFileSize)) fun _ =>
              finish (.saved true)))

def eraseSection (file : CDBFile) : RepositoryProgram :=
  .act id fun shared =>
    match shared.repository.pblockfiletree.fileIndex[file.fileHash]? with
    | none => finish (.erased false)
    | some pos =>
        attempt (eraseFileIndex environment file.fileHash)
          (finish (.erased false))
          (attempt (removeFileRepositoryBlockFromDisk params environment pos)
            (finish (.erased false))
            (.act
              (lift (countRemovedFile (getRepositoryFileSize params file)))
              fun _ => finish (.erased true)))

def recycleSection : List CFileRepositoryBlockDiskPos → RepositoryProgram
  | [] => finish (.recycled true)
  | pos :: rest =>
      .act id fun shared =>
        match readFileBlockHeaderFromDisk params environment pos false
            shared.repository with
        | none => finish (.recycled false)
        | some fileHeader =>
            if fileHeader.removed then
              recycleSection rest
            else if environment.adjustedTime >
                fileHeader.fileExpiredDate.toNat ∧ !fileHeader.isMine then
              attempt
                (writeFileRepositoryBlockToDiskFrom params
                  { fileHeader with removed := true }.serialize environment
                  pos false)
                (finish (.recycled false))
                (.act (lift (countRemovedFile pos.nFileSize)) fun _ =>
                  recycleSection rest)
            else
              recycleSection rest

def getSection (fileHash : UInt256) : RepositoryProgram :=
  .act id fun shared =>
    match shared.repository.pblockfiletree.fileIndex[fileHash]? with
    | none => finish (.found none)
    | some posFile =>
        .act id fun shared =>
          finish (.found (readFileBlockFromDisk params environment posFile
            false shared.repository))

/-- The state behind one round of the copying loop. -/
def roundState : Except ShrinkStop ShrinkProgress → RepositoryState
  | .error stop => stop.2
  | .ok progress => progress.state

/-- The state behind the renaming loop. -/
def renamedState : Except ShrinkStop RepositoryState → RepositoryState
  | .error stop => stop.2
  | .ok state => state

/-- What follows the copying loop; `SaveManagerState` locks once more. -/
def finishSection (table : BlockTable) : RepositoryProgram :=
  .act (fun shared => ⟨{ shared.repository with table }, []⟩) fun _ =>
    .acquire .writeLock <|
      .act (lift (saveManagerState table)) fun _ =>
        .release <|
          let numbers := List.range (table.lastBlockFileIndex + 1)
          .act (lift fun state => renamedState (renameTempBlocks numbers state))
            fun shared =>
              match renameTempBlocks numbers shared.repository with
              | .error stop => finish (.shrunk stop.1)
              | .ok _ =>
                  .act (lift (writeSyncState .null)) fun _ =>
                    finish (.shrunk .completed)

def copySection : List CFileRepositoryBlockDiskPos →
    FileRepositoryBlockSyncState → BlockTable → RepositoryProgram
  | [], _, table => finishSection table
  | srcFilePos :: rest, syncState, table =>
      let round (state : RepositoryState) :=
        shrinkEntry params environment srcFilePos ⟨state, syncState, table⟩
      .act (lift fun state => roundState (round state)) fun shared =>
        match round shared.repository with
        | .error stop => finish (.shrunk stop.1)
        | .ok progress => copySection rest progress.syncState progress.table

/-- `ShrinkRecycledFiles` from its `WRITE_LOCK` on. -/
def shrinkSection : RepositoryProgram :=
  .act (lift fun state => { state with dbFileRepositoryState := .null })
    fun shared =>
      match shared.repository.pblockfiletree.fileRepositoryBlockSyncState with
      | none => finish (.shrunk .stopped)
      | some syncState =>
          if syncState ≠ .null then
            finish (.shrunk .stopped)
          else
            .act (lift (createTempBlock environment)) fun _ =>
              .act id fun shared =>
                let repositoryFileMap :=
                  fetchPositions (indexedPositions shared.repository) ∅
                .act (lift (writeSyncState .null)) fun _ =>
                  copySection params environment repositoryFileMap.keys .null
                    (.single environment.time)

/-- An operation with the locks it takes. -/
def Operation.program : Operation → RepositoryProgram
  | .saveFile file =>
      .acquire .writeLock (saveSection params environment file)
  | .eraseFile file =>
      .acquire .writeLock (eraseSection params environment file)
  | .findAndRecycleExpiredFiles =>
      .acquire .writeLock <| .act id fun shared =>
        recycleSection params environment
          (indexedPositions shared.repository)
  | .shrinkRecycledFiles =>
      .acquire .readLock <| .act id fun shared =>
        if !shared.repository.dbFileRepositoryState.isClearDiskSpaceNeeded then
          finish (.shrunk .notNeeded)
        else
          .release (.acquire .writeLock (shrinkSection params environment))
  | .getFile fileHash =>
      .acquire .readLock (getSection params environment fileHash)

end

/-! ## Every operation takes its steps under the lock -/

theorem wellLocked_finish (result : Result) : WellLocked 1 (finish result) :=
  ⟨Nat.one_pos, rfl⟩

theorem wellLocked_attempt
    {change : RepositoryState → Option RepositoryState}
    {failed succeeded : RepositoryProgram} (onFailure : WellLocked 1 failed)
    (onSuccess : WellLocked 1 succeeded) :
    WellLocked 1 (attempt change failed succeeded) := by
  refine ⟨Nat.one_pos, ?_⟩
  intro shared
  dsimp only
  split_ifs
  · exact onSuccess
  · exact onFailure

/-- Two steps that may fail, and one that counts. -/
theorem wellLocked_attempts
    (first second : RepositoryState → Option RepositoryState)
    (count : Shared → Shared) (failed succeeded : Result) :
    WellLocked 1 (attempt first (finish failed) (attempt second
      (finish failed) (.act count fun _ => finish succeeded))) := by
  refine wellLocked_attempt (wellLocked_finish _) ?_
  refine wellLocked_attempt (wellLocked_finish _) ?_
  exact ⟨Nat.one_pos, fun _ => wellLocked_finish _⟩

theorem wellLocked_saveSection (params : Params) (environment : Environment)
    (file : CDBFile) :
    WellLocked 1 (saveSection params environment file) := by
  refine ⟨Nat.one_pos, ?_⟩
  intro shared
  dsimp only
  split
  · exact wellLocked_finish _
  · exact wellLocked_attempts _ _ _ _ _

theorem wellLocked_eraseSection (params : Params) (environment : Environment)
    (file : CDBFile) :
    WellLocked 1 (eraseSection params environment file) := by
  refine ⟨Nat.one_pos, ?_⟩
  intro shared
  dsimp only
  split
  · exact wellLocked_finish _
  · exact wellLocked_attempts _ _ _ _ _

theorem wellLocked_recycleSection (params : Params)
    (environment : Environment)
    (positions : List CFileRepositoryBlockDiskPos) :
    WellLocked 1 (recycleSection params environment positions) := by
  induction positions with
  | nil => exact wellLocked_finish _
  | cons pos rest ih =>
      refine ⟨Nat.one_pos, ?_⟩
      intro shared
      dsimp only
      split
      · exact wellLocked_finish _
      · split_ifs
        · exact ih
        · exact wellLocked_attempt (wellLocked_finish _)
            ⟨Nat.one_pos, fun _ => ih⟩
        · exact ih

theorem wellLocked_finishSection (table : BlockTable) :
    WellLocked 1 (finishSection table) := by
  refine ⟨Nat.one_pos, fun _ => ⟨Nat.two_pos, fun _ => ⟨Nat.two_pos, ?_⟩⟩⟩
  refine ⟨Nat.one_pos, ?_⟩
  intro shared
  dsimp only
  split
  · exact wellLocked_finish _
  · exact ⟨Nat.one_pos, fun _ => wellLocked_finish _⟩

theorem wellLocked_copySection (params : Params) (environment : Environment)
    (positions : List CFileRepositoryBlockDiskPos)
    (syncState : FileRepositoryBlockSyncState) (table : BlockTable) :
    WellLocked 1
      (copySection params environment positions syncState table) := by
  induction positions generalizing syncState table with
  | nil => exact wellLocked_finishSection table
  | cons pos rest ih =>
      refine ⟨Nat.one_pos, ?_⟩
      intro shared
      dsimp only
      split
      · exact wellLocked_finish _
      · exact ih _ _

theorem wellLocked_shrinkSection (params : Params)
    (environment : Environment) :
    WellLocked 1 (shrinkSection params environment) := by
  refine ⟨Nat.one_pos, ?_⟩
  intro shared
  dsimp only
  split
  · exact wellLocked_finish _
  · split_ifs
    · exact wellLocked_finish _
    · refine ⟨Nat.one_pos, fun _ => ⟨Nat.one_pos, fun _ => ?_⟩⟩
      exact ⟨Nat.one_pos, fun _ => wellLocked_copySection _ _ _ _ _⟩

theorem wellLocked_program (params : Params) (environment : Environment)
    (operation : Operation) :
    WellLocked 0 (operation.program params environment) := by
  cases operation with
  | saveFile file => exact wellLocked_saveSection params environment file
  | eraseFile file => exact wellLocked_eraseSection params environment file
  | findAndRecycleExpiredFiles =>
      exact ⟨Nat.one_pos, fun _ => wellLocked_recycleSection _ _ _⟩
  | shrinkRecycledFiles =>
      refine ⟨Nat.one_pos, ?_⟩
      intro shared
      dsimp only
      split_ifs
      · exact wellLocked_finish _
      · exact ⟨Nat.one_pos, wellLocked_shrinkSection params environment⟩
  | getFile fileHash =>
      refine ⟨Nat.one_pos, ?_⟩
      intro shared
      dsimp only
      split
      · exact wellLocked_finish _
      · exact ⟨Nat.one_pos, fun _ => wellLocked_finish _⟩

/-! ## An undisturbed section is the sequential operation -/

theorem runSection_attempt
    (change : RepositoryState → Option RepositoryState)
    (failed succeeded : RepositoryProgram) (shared : Shared) :
    runSection (attempt change failed succeeded) 1 shared =
      match change shared.repository with
      | none => runSection failed 1 shared
      | some state =>
          runSection succeeded 1 { shared with repository := state } := by
  rw [attempt, runSection]
  cases outcome : change shared.repository with
  | none => simp [lift, outcome]
  | some state => simp [lift, outcome]

theorem runSection_finish (result : Result) (shared : Shared) :
    runSection (finish result) 1 shared = (shared, .ret result) :=
  rfl

theorem runSection_saveSection (params : Params) (environment : Environment)
    (file : CDBFile) (shared : Shared) :
    runSection (saveSection params environment file) 1 shared =
      (⟨(saveFile params environment file shared.repository).2,
        (allocate environment (getRepositoryFileSize params file)
          shared.repository).1.toList ++ shared.extents⟩,
        .ret (.saved
          (saveFile params environment file shared.repository).1)) := by
  rw [saveSection, runSection, saveFile]
  dsimp only [allocateShared]
  rcases allocate environment (getRepositoryFileSize params file)
    shared.repository with ⟨result, state⟩
  cases result with
  | none => rfl
  | some filePos =>
      dsimp only
      rw [runSection_attempt, serialize_updateFileHash,
        updateFileHash_fileHash]
      cases writeFileRepositoryBlockToDiskFrom params (file.serialize params)
        environment filePos false state with
      | none => rfl
      | some written =>
          dsimp only
          rw [runSection_attempt]
          cases writeFileIndex environment (file.calcFileHash params) filePos
            written with
          | none => rfl
          | some indexed => rfl

theorem runSection_eraseSection (params : Params) (environment : Environment)
    (file : CDBFile) (shared : Shared) :
    runSection (eraseSection params environment file) 1 shared =
      ({ shared with
          repository :=
            (eraseFile params environment file shared.repository).2 },
        .ret (.erased
          (eraseFile params environment file shared.repository).1)) := by
  rw [eraseSection, runSection, eraseFile]
  dsimp only [id]
  cases shared.repository.pblockfiletree.fileIndex[file.fileHash]? with
  | none => rfl
  | some pos =>
      dsimp only
      rw [runSection_attempt]
      cases eraseFileIndex environment file.fileHash shared.repository with
      | none => rfl
      | some dropped =>
          dsimp only
          rw [runSection_attempt]
          cases removeFileRepositoryBlockFromDisk params environment pos
            dropped with
          | none => rfl
          | some marked => rfl

theorem runSection_recycleSection (params : Params)
    (environment : Environment)
    (positions : List CFileRepositoryBlockDiskPos) (shared : Shared) :
    runSection (recycleSection params environment positions) 1 shared =
      ({ shared with
          repository := (recycleEntries params environment positions
            shared.repository).2 },
        .ret (.recycled (recycleEntries params environment positions
          shared.repository).1)) := by
  induction positions generalizing shared with
  | nil => rfl
  | cons pos rest ih =>
      rw [recycleSection, runSection, recycleEntries, recycleEntry]
      dsimp only [id]
      cases readFileBlockHeaderFromDisk params environment pos false
        shared.repository with
      | none => rfl
      | some fileHeader =>
          dsimp only
          split_ifs
          · exact ih shared
          · rw [runSection_attempt]
            cases writeFileRepositoryBlockToDiskFrom params
              { fileHeader with removed := true }.serialize environment pos
              false shared.repository with
            | none => rfl
            | some written => exact ih _
          · exact ih shared

theorem runSection_getSection (params : Params) (environment : Environment)
    (fileHash : UInt256) (shared : Shared) :
    runSection (getSection params environment fileHash) 1 shared =
      (shared, .ret (.found
        (getFile params environment fileHash shared.repository))) := by
  rw [getSection, runSection, getFile]
  dsimp only [id]
  cases shared.repository.pblockfiletree.fileIndex[fileHash]? with
  | none => rfl
  | some posFile => rfl

theorem runSection_finishSection (table : BlockTable)
    (syncState : FileRepositoryBlockSyncState) (shared : Shared) :
    runSection (finishSection table) 1 shared =
      (⟨(finishShrink ⟨shared.repository, syncState, table⟩).2, []⟩,
        .ret (.shrunk
          (finishShrink ⟨shared.repository, syncState, table⟩).1)) := by
  rw [finishSection, finishShrink]
  simp only [runSection, lift, Nat.reduceAdd, Nat.reduceLeDiff, ↓reduceIte,
    Nat.reduceSub]
  cases renameTempBlocks (List.range (table.lastBlockFileIndex + 1))
    (saveManagerState table { shared.repository with table }) with
  | error stop => rfl
  | ok state => rfl

/-- How the pass ends when the copying loop has ended. -/
def endOfShrink : Except ShrinkStop ShrinkProgress → ShrinkStop
  | .error stop => stop
  | .ok progress => finishShrink progress

theorem runSection_copySection (params : Params) (environment : Environment)
    (positions : List CFileRepositoryBlockDiskPos)
    (syncState : FileRepositoryBlockSyncState) (table : BlockTable)
    (shared : Shared) :
    ∃ extents,
      runSection (copySection params environment positions syncState table) 1
          shared =
        (⟨(endOfShrink (shrinkEntries params environment positions
            ⟨shared.repository, syncState, table⟩)).2, extents⟩,
          .ret (.shrunk (endOfShrink (shrinkEntries params environment
            positions ⟨shared.repository, syncState, table⟩)).1)) := by
  induction positions generalizing syncState table shared with
  | nil => exact ⟨[], runSection_finishSection table syncState shared⟩
  | cons srcFilePos rest ih =>
      rw [copySection, runSection, shrinkEntries]
      dsimp only
      cases round : shrinkEntry params environment srcFilePos
        ⟨shared.repository, syncState, table⟩ with
      | error stop =>
          refine ⟨shared.extents, ?_⟩
          rw [runSection_finish, lift, round]
          rfl
      | ok progress =>
          rcases ih progress.syncState progress.table
            (lift (fun state => roundState (shrinkEntry params environment
              srcFilePos ⟨state, syncState, table⟩)) shared) with
            ⟨extents, ran⟩
          refine ⟨extents, ?_⟩
          rw [ran, lift, round]
          rfl

theorem runSection_shrinkSection (params : Params)
    (environment : Environment) (shared : Shared) :
    ∃ extents,
      runSection (shrinkSection params environment) 1 shared =
        (⟨(shrinkUnderWriteLock params environment shared.repository).2,
          extents⟩,
          .ret (.shrunk (shrinkUnderWriteLock params environment
            shared.repository).1)) := by
  rw [shrinkSection, runSection, shrinkUnderWriteLock]
  dsimp only
  cases shared.repository.pblockfiletree.fileRepositoryBlockSyncState with
  | none => exact ⟨_, rfl⟩
  | some syncState =>
      dsimp only
      split_ifs
      · exact ⟨_, rfl⟩
      · rcases runSection_copySection params environment _ .null
          (.single environment.time) _ with ⟨extents, ran⟩
        exact ⟨extents, ran⟩

/-! ## Extents never overlap -/

/-- The extents given out since the last compaction are apart. -/
structure ExtentsApart (shared : Shared) : Prop where
  bounded : BlocksBounded shared.repository.table
  inside : ∀ pos ∈ shared.extents, InsideBlock shared.repository.table pos
  disjoint : shared.extents.Pairwise DisjointExtents

theorem ExtentsApart.sameTable {shared : Shared} {state : RepositoryState}
    (apart : ExtentsApart shared)
    (table : state.table = shared.repository.table) :
    ExtentsApart { shared with repository := state } := by
  refine ⟨?_, ?_, apart.disjoint⟩
  · rw [table]
    exact apart.bounded
  · rw [table]
    exact apart.inside

theorem ExtentsApart.allocate {shared : Shared} (apart : ExtentsApart shared)
    (environment : Environment) (nDBFileSize : UInt32) :
    ExtentsApart (allocateShared environment nDBFileSize shared) := by
  rcases call : Manager.allocate environment nDBFileSize shared.repository with
    ⟨result, state⟩
  rcases allocate_spec apart.bounded call with ⟨kept, bounded, _, handed⟩
  rw [allocateShared, call]
  refine ⟨bounded, ?_, ?_⟩
  · intro pos member
    rcases List.mem_append.mp member with new | old
    · exact (handed pos (Option.mem_toList.mp new)).2.inside
    · exact kept.inside pos (apart.inside pos old)
  · cases result with
    | none => exact apart.disjoint
    | some pos =>
        refine List.Pairwise.cons ?_ apart.disjoint
        intro other member
        exact (handed pos rfl).2.disjoint other (apart.inside other member)

theorem keeps_attempt {change : RepositoryState → Option RepositoryState}
    {failed succeeded : RepositoryProgram}
    (table : ∀ state state', change state = some state' →
      state'.table = state.table)
    (onFailure : Keeps ExtentsApart failed)
    (onSuccess : Keeps ExtentsApart succeeded) :
    Keeps ExtentsApart (attempt change failed succeeded) := by
  intro shared apart
  constructor
  · apply apart.sameTable
    dsimp only
    cases outcome : change shared.repository with
    | none => rfl
    | some state => exact table _ _ outcome
  · dsimp only
    split_ifs
    · exact onSuccess
    · exact onFailure

theorem keeps_lift {change : RepositoryState → RepositoryState}
    {next : Shared → RepositoryProgram}
    (table : ∀ state, (change state).table = state.table)
    (goesOn : ∀ shared, Keeps ExtentsApart (next shared)) :
    Keeps ExtentsApart (.act (lift change) next) :=
  fun shared apart =>
    ⟨apart.sameTable (table shared.repository), goesOn shared⟩

theorem write_table {params : Params} {object : Bytes}
    {environment : Environment} {pos : CFileRepositoryBlockDiskPos}
    (state state' : RepositoryState)
    (written : writeFileRepositoryBlockToDiskFrom params object environment
      pos false state = some state') :
    state'.table = state.table := by
  rw [(write_some written).2]

theorem keeps_saveSection (params : Params) (environment : Environment)
    (file : CDBFile) :
    Keeps ExtentsApart (saveSection params environment file) := by
  intro shared apart
  refine ⟨apart.allocate environment _, ?_⟩
  dsimp only
  split
  · trivial
  · refine keeps_attempt write_table trivial ?_
    refine keeps_attempt ?_ trivial (keeps_lift (fun _ => rfl) fun _ => trivial)
    intro state state' written
    rw [writeFileIndex_some written]

theorem keeps_eraseSection (params : Params) (environment : Environment)
    (file : CDBFile) :
    Keeps ExtentsApart (eraseSection params environment file) := by
  intro shared apart
  refine ⟨apart, ?_⟩
  dsimp only
  split
  · trivial
  · refine keeps_attempt ?_ trivial (keeps_attempt ?_ trivial
      (keeps_lift (fun _ => rfl) fun _ => trivial))
    · intro state state' erased
      rw [eraseFileIndex_some erased]
    · intro state state' removed
      unfold removeFileRepositoryBlockFromDisk at removed
      split at removed
      · cases removed
      · exact write_table state state' removed

theorem keeps_recycleSection (params : Params) (environment : Environment)
    (positions : List CFileRepositoryBlockDiskPos) :
    Keeps ExtentsApart (recycleSection params environment positions) := by
  induction positions with
  | nil => trivial
  | cons pos rest ih =>
      intro shared apart
      refine ⟨apart, ?_⟩
      dsimp only
      split
      · trivial
      · split_ifs
        · exact ih
        · exact keeps_attempt write_table trivial
            (keeps_lift (fun _ => rfl) fun _ => ih)
        · exact ih

theorem renamedState_table (numbers : List Nat) (state : RepositoryState) :
    (renamedState (renameTempBlocks numbers state)).table = state.table := by
  induction numbers generalizing state with
  | nil => rfl
  | cons number rest ih =>
      rw [renameTempBlocks, renameTmpOriginalFileBlockDisk]
      cases state.disk (.tmpBlk number) with
      | none => rfl
      | some content => exact ih _

theorem keeps_finishSection (time : Int) :
    Keeps ExtentsApart (finishSection (.single time)) := by
  intro shared _
  constructor
  · refine ⟨?_, ?_, List.Pairwise.nil⟩
    · intro info member
      rw [List.mem_singleton.mp member]
      exact Nat.zero_le _
    · intro pos member
      cases member
  · refine keeps_lift (fun _ => rfl) fun _ => ?_
    refine keeps_lift (renamedState_table _) fun shared => ?_
    split
    · trivial
    · exact keeps_lift (fun _ => rfl) fun _ => trivial

theorem keeps_shrinkSection (params : Params) (environment : Environment) :
    Keeps ExtentsApart (shrinkSection params environment) := by
  refine keeps_lift (fun _ => rfl) fun shared => ?_
  split
  · trivial
  · split_ifs
    · trivial
    · refine keeps_lift ?_ fun _ => fun shared apart => ⟨apart, ?_⟩
      · intro state
        unfold createTempBlock
        split_ifs <;> rfl
      · have nothing : (∅ : RepositoryFileMap).keys = [] := rfl
        dsimp only
        rw [fetchPositions_empty, nothing]
        exact keeps_lift (fun _ => rfl) fun _ =>
          keeps_finishSection environment.time

theorem keeps_program (params : Params) (environment : Environment)
    (operation : Operation) :
    Keeps ExtentsApart (operation.program params environment) := by
  cases operation with
  | saveFile file => exact keeps_saveSection params environment file
  | eraseFile file => exact keeps_eraseSection params environment file
  | findAndRecycleExpiredFiles =>
      exact fun _ apart => ⟨apart, keeps_recycleSection _ _ _⟩
  | shrinkRecycledFiles =>
      intro shared apart
      refine ⟨apart, ?_⟩
      dsimp only
      split_ifs
      · trivial
      · exact keeps_shrinkSection params environment
  | getFile fileHash =>
      intro shared apart
      refine ⟨apart, ?_⟩
      dsimp only
      split
      · trivial
      · exact fun _ apart => ⟨apart, trivial⟩

/-! ## Runs in which writers come one at a time -/

section

variable {ι : Type}

abbrev RepositoryConfig (ι : Type) := Config ι LockMacro Shared Result

/-- Operations that were issued but have not begun. -/
def issued (params : Params) (operations : ι → Environment × Operation)
    (thread : ι) : RepositoryProgram :=
  (operations thread).2.program params (operations thread).1

/--
An operation that is about to take `WRITE_LOCK` finds no other operation
inside its `WRITE_LOCK`.
-/
def NoOtherWriter (config : RepositoryConfig ι) (thread : ι) : Prop :=
  ∀ rest, (config.threads thread).program = .acquire .writeLock rest →
    ∀ other, other ≠ thread →
      LockMacro.writeLock ∉ (config.threads other).held

theorem solo_of_noOtherWriter (config : RepositoryConfig ι) (thread : ι)
    (noOther : NoOtherWriter config thread) :
    Solo lockMode config thread := by
  intro label rest current shared other different holder member isShared
  cases label with
  | readLock => cases shared
  | writeLock =>
      cases holder with
      | readLock => cases isShared
      | writeLock => exact noOther rest current other different member

/-- While one operation is inside its `WRITE_LOCK`, no other is inside. -/
def WritersExclude (config : RepositoryConfig ι) : Prop :=
  ∀ writer other, writer ≠ other →
    LockMacro.writeLock ∈ (config.threads writer).held →
      (config.threads other).held = []

variable [DecidableEq ι]

/-- What it means that the operations are serialised. -/
structure Serialised (params : Params)
    (operations : ι → Environment × Operation) (start : RepositoryState)
    (config : RepositoryConfig ι) : Prop where
  excluded : WritersExclude config
  /-- No two extents given out since the last compaction overlap. -/
  apart : config.shared.extents.Pairwise DisjointExtents
  /-- No update is lost: the state comes from one section after the other. -/
  serial : ∃ serial,
    SerialReaches ⟨issued params operations, ⟨start, []⟩⟩ serial ∧
      Explains serial config
  /-- A read returns what the repository had between two sections. -/
  reads : ∀ thread environment fileHash result,
    operations thread = (environment, .getFile fileHash) →
    (config.threads thread).program = .ret (.found result) →
      ∃ serial,
        SerialReaches ⟨issued params operations, ⟨start, []⟩⟩ serial ∧
          result = getFile params environment fileHash
            serial.shared.repository

/-- A read that takes place serially reads the repository as it is then. -/
theorem serial_reads {params : Params}
    {operations : ι → Environment × Operation} {start : RepositoryState}
    {serial : Serial ι LockMacro Shared Result}
    (reached : SerialReaches ⟨issued params operations, ⟨start, []⟩⟩ serial)
    {thread : ι} {environment : Environment} {fileHash : UInt256}
    (operation : operations thread = (environment, .getFile fileHash)) :
    serial.programs thread = issued params operations thread ∨
      ∃ before,
        SerialReaches ⟨issued params operations, ⟨start, []⟩⟩ before ∧
          serial.programs thread = .ret (.found (getFile params environment
            fileHash before.shared.repository)) := by
  have program : issued params operations thread =
      .acquire .readLock (getSection params environment fileHash) := by
    rw [issued, operation]
    rfl
  induction reached with
  | refl => exact .inl rfl
  | @next serial actor label rest before current ih =>
      by_cases same : thread = actor
      · subst same
        rcases ih with waiting | ⟨_, _, returned⟩
        · rw [waiting, program] at current
          cases current
          refine .inr ⟨serial, before, ?_⟩
          rw [Serial.after, runSection_getSection]
          exact Function.update_self _ _ _
        · rw [returned] at current
          cases current
      · have unchanged : (serial.after actor rest).programs thread =
            serial.programs thread := Function.update_of_ne same _ _
        rw [unchanged]
        exact ih

/--
In every run in which writers come one at a time the operations are
serialised, however they are interleaved otherwise.
-/
theorem operations_serialised {params : Params}
    {operations : ι → Environment × Operation} {start : RepositoryState}
    {config : RepositoryConfig ι} (bounded : BlocksBounded start.table)
    (run : Reaches lockMode NoOtherWriter
      (.initial (issued params operations) ⟨start, []⟩) config) :
    Serialised params operations start config := by
  have locked : ∀ thread, WellLocked 0 (issued params operations thread) :=
    fun thread => wellLocked_program params _ _
  rcases solo_serialises locked (run.mono solo_of_noOtherWriter) with
    ⟨disciplined, exclusive, serial, reached, explains⟩
  have apart : ExtentsApart config.shared :=
    keeps_reaches (fun thread => keeps_program params _ _)
      ⟨bounded, fun _ member => absurd member List.not_mem_nil,
        List.Pairwise.nil⟩ run
  refine ⟨?_, apart.disjoint, ⟨serial, reached, explains⟩, ?_⟩
  · intro writer other different inside
    exact exclusive.others (List.ne_nil_of_mem inside) other different.symm
  · intro thread environment fileHash result operation returned
    have depth := disciplined thread
    rw [returned] at depth
    have outside := explains.outside thread (List.length_eq_zero_iff.mp depth)
    rw [returned] at outside
    rcases serial_reads reached operation with
      waiting | ⟨before, reachedBefore, found⟩
    · rw [waiting, issued, operation] at outside
      cases outside
    · rw [found] at outside
      cases outside
      exact ⟨before, reachedBefore, rfl⟩

end

/-! ## Two writers inside the lock -/

/-- The same file is saved twice at the same time. -/
def twoSaves (_ : Bool) : Environment × Operation :=
  (roomyDisk, .saveFile sampleFile)

def beforeSaves : RepositoryConfig Bool :=
  .initial (issued sampleParams twoSaves) ⟨emptyRepository 0 0, []⟩

/-- One of the saves has taken the lock. -/
def oneInside : RepositoryConfig Bool :=
  beforeSaves.set false
    ⟨saveSection sampleParams roomyDisk sampleFile, [.writeLock]⟩
    beforeSaves.shared

theorem oneInside_step : Step lockMode false beforeSaves oneInside := by
  apply Step.acquire rfl
  intro thread holder member
  cases member

theorem second_step :
    Step lockMode true oneInside
      (oneInside.set true
        ⟨saveSection sampleParams roomyDisk sampleFile, [.writeLock]⟩
        oneInside.shared) := by
  apply Step.acquire rfl
  intro thread holder _
  cases thread <;> cases holder <;> simp_all [oneInside, beforeSaves,
    Config.set, Config.initial, lockMode, LockMacro.lockClass, LockClass.mode]

/-- `WRITE_LOCK` lets a second writer in. -/
theorem writers_meet :
    ¬ ∀ (params : Params) (operations : Bool → Environment × Operation)
      (start : RepositoryState) (config : RepositoryConfig Bool),
      BlocksBounded start.table →
      Reaches lockMode (fun _ _ => True)
        (.initial (issued params operations) ⟨start, []⟩) config →
      WritersExclude config := by
  intro claim
  have bounded := (invariant_start sampleParams 0 0).coherent.bounded
  have excluded := claim sampleParams twoSaves (emptyRepository 0 0) _ bounded
    (.step true (.step false .refl trivial oneInside_step) trivial second_step)
  have outside := excluded true false (by decide) (by simp)
  simp [oneInside, beforeSaves, Config.set] at outside

/-! ## A save between the two locks of a compaction -/

def shrinkAndSave : Bool → Environment × Operation
  | true => (roomyDisk, .shrinkRecycledFiles)
  | false => (roomyDisk, .saveFile sampleFile)

/-- There is space to clear. -/
def oneRemoved : RepositoryState :=
  { emptyRepository 0 0 with
    dbFileRepositoryState :=
      { CDBFileRepositoryState.null with removeCandidatesTotalSize := 1 } }

/-- Only a step that takes `WRITE_LOCK` has a condition. -/
theorem noOtherWriter_of_ne {ι : Type} {config : RepositoryConfig ι}
    {thread : ι}
    (elsewhere : ∀ rest,
      (config.threads thread).program ≠ .acquire .writeLock rest) :
    NoOtherWriter config thread :=
  fun rest current => absurd current (elsewhere rest)

theorem operations_serialised_interleaved :
    ∃ config : RepositoryConfig Bool,
      (config.threads true).program =
        .acquire .writeLock (shrinkSection sampleParams roomyDisk) ∧
      (config.threads false).held = [.writeLock] ∧
      config.shared.extents = [⟨0, 0, 48⟩] ∧
      Serialised sampleParams shrinkAndSave oneRemoved config := by
  have run : Reaches lockMode NoOtherWriter
      (.initial (issued sampleParams shrinkAndSave) ⟨oneRemoved, []⟩) _ :=
    .refl
  -- `READ_LOCK`, the question whether to compact, and out again
  replace run := run.step true (noOtherWriter_of_ne (by rintro _ ⟨⟩))
    (Step.acquire rfl fun _ => rfl)
  replace run := run.step true (noOtherWriter_of_ne (by rintro _ ⟨⟩))
    (Step.act rfl)
  replace run := run.step true (noOtherWriter_of_ne (by rintro _ ⟨⟩))
    (Step.release rfl)
  -- The save comes first to `WRITE_LOCK`.
  replace run := run.step false
    (fun _ _ other _ member => by cases other <;> cases member)
    (Step.acquire rfl fun thread _ member => by
      cases thread <;> cases member)
  replace run := run.step false (noOtherWriter_of_ne (by rintro _ ⟨⟩))
    (Step.act rfl)
  exact ⟨_, rfl, rfl, by decide +kernel, operations_serialised
    (invariant_start sampleParams 0 0).coherent.bounded run⟩

end PrivateDatagram.Repository.Locking
