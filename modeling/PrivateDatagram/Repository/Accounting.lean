import PrivateDatagram.Repository.Runs

/-!
# The counters of the repository

`CDBFileRepositoryState` counts "all files in all blocks", in number and in
bytes, and among them the files that are marked removed.  A `Ledger` lists the
extents of the files that were saved.  Erasing a file or saving another one
under the same hash takes nothing off this list: until the block files are
shrunk, every file is still where it was written.

In every run, with calls that fail too, the first two counters agree with the
list.  The other two agree with the files on it that are marked removed, as
long as every mark is counted once: no file comes with the mark, and none is
erased that has it.
-/

namespace PrivateDatagram.Repository.Accounting

open Library.ByteStore Wire.Serialize Records Manager Allocation StoredFiles
  Runs

/-! ## Ledgers -/

structure Ledger where
  state : RepositoryState
  /-- The extents of all files that were saved, the latest first. -/
  stored : List CFileRepositoryBlockDiskPos

def Ledger.start (lastUpdateTime time : Int) : Ledger :=
  ⟨emptyRepository lastUpdateTime time, []⟩

/-- A save that reports success adds its extent. -/
def Ledger.after (params : Params) (environment : Environment) (call : Call)
    (ledger : Ledger) : Ledger where
  state := (perform params environment call ledger.state).2
  stored :=
    if (perform params environment call ledger.state).1 then
      givenOut params environment call ledger.state ++ ledger.stored
    else
      ledger.stored

/-- The ledgers of all runs whose calls are allowed where they are made. -/
inductive Reachable (params : Params)
    (allowed : Call → RepositoryState → Prop) : Ledger → Prop where
  | start (lastUpdateTime time : Int) :
      Reachable params allowed (.start lastUpdateTime time)
  | call {ledger : Ledger} (environment : Environment) (call : Call)
      (reached : Reachable params allowed ledger)
      (isAllowed : allowed call ledger.state) :
      Reachable params allowed (ledger.after params environment call)

def filesNumber (files : List CFileRepositoryBlockDiskPos) : UInt32 :=
  UInt32.ofNat files.length

def storageSize (files : List CFileRepositoryBlockDiskPos) : UInt64 :=
  (files.map fun pos => pos.nFileSize.toUInt64).sum

/-- Whether the record at a position is marked removed. -/
def removedAt (params : Params) (state : RepositoryState)
    (pos : CFileRepositoryBlockDiskPos) : Bool :=
  match readFileBlockHeaderFromDisk params steady pos false state with
  | none => false
  | some fileHeader => fileHeader.removed

def removedFiles (params : Params) (ledger : Ledger) :
    List CFileRepositoryBlockDiskPos :=
  ledger.stored.filter (removedAt params ledger.state)

/-- Only a save adds to the list. -/
theorem stored_after {params : Params} {environment : Environment}
    {call : Call} {ledger : Ledger}
    (none : givenOut params environment call ledger.state = []) :
    (ledger.after params environment call).stored = ledger.stored := by
  rw [Ledger.after, none, List.nil_append, ite_self]

/-! ## What the counters do -/

/-- Everything but the number of blocks. -/
def SameCounts (counters counters' : CDBFileRepositoryState) : Prop :=
  counters'.filesCount = counters.filesCount ∧
    counters'.nTotalFileStorageSize = counters.nTotalFileStorageSize ∧
    counters'.removeCandidatesFilesCount =
      counters.removeCandidatesFilesCount ∧
    counters'.removeCandidatesTotalSize = counters.removeCandidatesTotalSize

theorem SameCounts.refl (counters : CDBFileRepositoryState) :
    SameCounts counters counters :=
  ⟨rfl, rfl, rfl, rfl⟩

theorem addFile_counts (fileSize : UInt64)
    (counters : CDBFileRepositoryState) :
    counters.addFile fileSize =
      { counters with
        nTotalFileStorageSize := counters.nTotalFileStorageSize + fileSize
        filesCount := counters.filesCount + 1 } := by
  unfold CDBFileRepositoryState.addFile
  rfl

theorem subtractFile_counts (fileSize : UInt64)
    (counters : CDBFileRepositoryState) :
    counters.subtractFile fileSize =
      { counters with
        removeCandidatesTotalSize :=
          counters.removeCandidatesTotalSize + fileSize
        removeCandidatesFilesCount :=
          counters.removeCandidatesFilesCount + 1 } := by
  unfold CDBFileRepositoryState.subtractFile
  rfl

theorem makeRoom_counts (environment : Environment) (nAddSize : UInt32)
    (table : BlockTable) (state : RepositoryState) :
    SameCounts state.dbFileRepositoryState
      (makeRoom environment nAddSize false table
        state).2.dbFileRepositoryState := by
  unfold makeRoom
  split_ifs
  · unfold startNewBlock flushFileRepositoryBlock
    dsimp only
    split_ifs <;> exact .refl _
  · exact .refl _

theorem placeFile_counts {environment : Environment} {nAddSize : UInt32}
    {table table' : BlockTable} {state state' : RepositoryState}
    {result : Option CFileRepositoryBlockDiskPos}
    (placed : placeFile environment nAddSize false table state =
      (result, table', state')) :
    state'.dbFileRepositoryState = state.dbFileRepositoryState := by
  unfold placeFile at placed
  dsimp only at placed
  split_ifs at placed
  · cases placed
    rfl
  · cases placed
    unfold allocateFileRange
    split_ifs <;> rfl
  · cases placed
    rfl

/-- Looking for room counts nothing. -/
theorem allocate_counts {environment : Environment} {nDBFileSize : UInt32}
    {state state' : RepositoryState}
    {result : Option CFileRepositoryBlockDiskPos}
    (found : allocate environment nDBFileSize state = (result, state')) :
    SameCounts state.dbFileRepositoryState state'.dbFileRepositoryState := by
  rcases call : findAndAllocateBlockFile environment nDBFileSize false
    state.table state with ⟨reached, table, middle⟩
  rw [allocate, call] at found
  cases found
  unfold findAndAllocateBlockFile at call
  split_ifs at call
  · cases call
    exact .refl _
  · have counts := makeRoom_counts environment nDBFileSize state.table state
    rw [← placeFile_counts call] at counts
    exact counts

/-! ## The invariant -/

/-- The files on the list are on disk, and the first counters count them. -/
structure Booked (params : Params) (ledger : Ledger) : Prop where
  bounded : BlocksBounded ledger.state.table
  inside : ∀ pos ∈ ledger.stored, InsideBlock ledger.state.table pos
  disjoint : ledger.stored.Pairwise DisjointExtents
  held : ∀ pos ∈ ledger.stored,
    ∃ file, HoldsFile params ledger.state.disk pos file
  indexed : ∀ hash pos, Indexed ledger.state hash pos → pos ∈ ledger.stored
  number : ledger.state.dbFileRepositoryState.filesCount =
    filesNumber ledger.stored
  size : ledger.state.dbFileRepositoryState.nTotalFileStorageSize =
    storageSize ledger.stored

/-- The other counters count the files on the list that are marked removed. -/
structure MarksCounted (params : Params) (ledger : Ledger) : Prop where
  number : ledger.state.dbFileRepositoryState.removeCandidatesFilesCount =
    filesNumber (removedFiles params ledger)
  size : ledger.state.dbFileRepositoryState.removeCandidatesTotalSize =
    storageSize (removedFiles params ledger)

theorem HoldsFile.removedAt {params : Params} {state : RepositoryState}
    {pos : CFileRepositoryBlockDiskPos} {file : CDBFile}
    (holds : HoldsFile params state.disk pos file) :
    removedAt params state pos = file.removed := by
  rw [Accounting.removedAt, holds.readHeader rfl]
  rfl

theorem filesNumber_cons (pos : CFileRepositoryBlockDiskPos)
    (files : List CFileRepositoryBlockDiskPos) :
    filesNumber (pos :: files) = filesNumber files + 1 := by
  rw [filesNumber, List.length_cons, UInt32.ofNat_add]
  rfl

theorem storageSize_cons (pos : CFileRepositoryBlockDiskPos)
    (files : List CFileRepositoryBlockDiskPos) :
    storageSize (pos :: files) =
      storageSize files + pos.nFileSize.toUInt64 := by
  rw [storageSize, List.map_cons, List.sum_cons, UInt64.add_comm]
  rfl

theorem filesNumber_perm {files files' : List CFileRepositoryBlockDiskPos}
    (perm : files.Perm files') : filesNumber files = filesNumber files' := by
  rw [filesNumber, perm.length_eq, filesNumber]

theorem storageSize_perm {files files' : List CFileRepositoryBlockDiskPos}
    (perm : files.Perm files') : storageSize files = storageSize files' := by
  apply (perm.map fun pos => pos.nFileSize.toUInt64).foldr_eq'
  intro first _ second _ total
  rw [← UInt64.add_assoc, UInt64.add_comm second, UInt64.add_assoc]

section Steps

variable {params : Params} {ledger ledger' : Ledger}

/-- Files that are still held are marked as before. -/
theorem removedFiles_congr {files : List CFileRepositoryBlockDiskPos}
    {state state' : RepositoryState}
    (held : ∀ pos ∈ files, ∃ file, HoldsFile params state.disk pos file)
    (kept : ∀ pos ∈ files, ∀ file, HoldsFile params state.disk pos file →
      HoldsFile params state'.disk pos file) :
    files.filter (removedAt params state') =
      files.filter (removedAt params state) := by
  apply List.filter_congr
  intro pos member
  rcases held pos member with ⟨file, holds⟩
  rw [HoldsFile.removedAt holds,
    HoldsFile.removedAt (kept pos member file holds)]

/-- A call that saves nothing and marks nothing. -/
theorem quiet_step (booked : Booked params ledger)
    (bounded : BlocksBounded ledger'.state.table)
    (inside : ∀ pos, InsideBlock ledger.state.table pos →
      InsideBlock ledger'.state.table pos)
    (kept : ∀ pos ∈ ledger.stored, ∀ file,
      HoldsFile params ledger.state.disk pos file →
        HoldsFile params ledger'.state.disk pos file)
    (index : ∀ hash pos, Indexed ledger'.state hash pos →
      Indexed ledger.state hash pos)
    (counts : SameCounts ledger.state.dbFileRepositoryState
      ledger'.state.dbFileRepositoryState)
    (stored : ledger'.stored = ledger.stored) :
    Booked params ledger' ∧
      (MarksCounted params ledger → MarksCounted params ledger') := by
  rcases counts with ⟨number, size, removedNumber, removedSize⟩
  constructor
  · constructor
    · exact bounded
    · rw [stored]
      exact fun pos member => inside pos (booked.inside pos member)
    · rw [stored]
      exact booked.disjoint
    · rw [stored]
      intro pos member
      rcases booked.held pos member with ⟨file, holds⟩
      exact ⟨file, kept pos member file holds⟩
    · rw [stored]
      exact fun hash pos here => booked.indexed hash pos (index hash pos here)
    · rw [stored, number, booked.number]
    · rw [stored, size, booked.size]
  · intro marks
    have same : removedFiles params ledger' = removedFiles params ledger := by
      unfold removedFiles
      rw [stored]
      exact removedFiles_congr booked.held kept
    constructor
    · rw [same, removedNumber, marks.number]
    · rw [same, removedSize, marks.size]

/-- A save: one more extent, behind all others. -/
theorem added_step {pos : CFileRepositoryBlockDiskPos} {file : CDBFile}
    (booked : Booked params ledger)
    (bounded : BlocksBounded ledger'.state.table)
    (inside : ∀ pos, InsideBlock ledger.state.table pos →
      InsideBlock ledger'.state.table pos)
    (fresh : Fresh ledger.state.table ledger'.state.table pos)
    (kept : ∀ pos ∈ ledger.stored, ∀ file,
      HoldsFile params ledger.state.disk pos file →
        HoldsFile params ledger'.state.disk pos file)
    (written : HoldsFile params ledger'.state.disk pos file)
    (index : ∀ hash other, Indexed ledger'.state hash other →
      other = pos ∨ Indexed ledger.state hash other)
    (counts : SameCounts (ledger.state.dbFileRepositoryState.addFile
      pos.nFileSize.toUInt64) ledger'.state.dbFileRepositoryState)
    (stored : ledger'.stored = pos :: ledger.stored) :
    Booked params ledger' ∧ (file.removed = false →
      MarksCounted params ledger → MarksCounted params ledger') := by
  rw [addFile_counts] at counts
  rcases counts with ⟨number, size, removedNumber, removedSize⟩
  constructor
  · constructor
    · exact bounded
    · rw [stored, List.forall_mem_cons]
      exact ⟨fresh.inside,
        fun other member => inside other (booked.inside other member)⟩
    · rw [stored]
      refine .cons ?_ booked.disjoint
      intro other member
      exact fresh.disjoint other (booked.inside other member)
    · rw [stored, List.forall_mem_cons]
      refine ⟨⟨file, written⟩, ?_⟩
      intro other member
      rcases booked.held other member with ⟨held, holds⟩
      exact ⟨held, kept other member held holds⟩
    · rw [stored]
      intro hash other here
      rcases index hash other here with rfl | old
      · exact List.mem_cons_self
      · exact List.mem_cons_of_mem _ (booked.indexed hash other old)
    · rw [stored, filesNumber_cons, number, booked.number]
    · rw [stored, storageSize_cons, size, booked.size]
  · intro unmarked marks
    have same : removedFiles params ledger' = removedFiles params ledger := by
      unfold removedFiles
      rw [stored, List.filter_cons, HoldsFile.removedAt written, unmarked,
        if_neg (by simp)]
      exact removedFiles_congr booked.held kept
    constructor
    · rw [same, removedNumber]
      exact marks.number
    · rw [same, removedSize]
      exact marks.size

/-- The other files lie apart from a file on the list. -/
theorem Booked.apart {pos : CFileRepositoryBlockDiskPos}
    {others : List CFileRepositoryBlockDiskPos}
    (booked : Booked params ledger)
    (perm : ledger.stored.Perm (pos :: others)) :
    ∀ other ∈ others, DisjointExtents other pos := by
  have pairwise := (perm.pairwise_iff DisjointExtents.symm).mp booked.disjoint
  intro other there
  exact ((List.pairwise_cons.mp pairwise).1 other there).symm

/-- A new mark adds its file to those that are marked. -/
theorem removedFiles_marked {pos : CFileRepositoryBlockDiskPos}
    {stored others : List CFileRepositoryBlockDiskPos}
    {state state' : RepositoryState}
    (perm : stored.Perm (pos :: others))
    (held : ∀ other ∈ others,
      ∃ file, HoldsFile params state.disk other file)
    (kept : ∀ other ∈ others, ∀ file,
      HoldsFile params state.disk other file →
        HoldsFile params state'.disk other file)
    (before : removedAt params state pos = false)
    (after : removedAt params state' pos = true) :
    (stored.filter (removedAt params state')).Perm
      (pos :: stored.filter (removedAt params state)) := by
  have old := perm.filter (removedAt params state)
  have new := perm.filter (removedAt params state')
  rw [List.filter_cons_of_neg (by simp [before])] at old
  rw [List.filter_cons_of_pos after, removedFiles_congr held kept] at new
  exact new.trans (old.symm.cons pos)

/-- One file on the list is marked removed and counted with a size. -/
theorem marked_step {pos : CFileRepositoryBlockDiskPos}
    {file file' : CDBFile} {fileSize : UInt64}
    (booked : Booked params ledger) (member : pos ∈ ledger.stored)
    (table : ledger'.state.table = ledger.state.table)
    (holds : HoldsFile params ledger.state.disk pos file)
    (changed : OnlyChangedAt pos ledger.state.disk ledger'.state.disk)
    (holds' : HoldsFile params ledger'.state.disk pos file')
    (marked : file'.removed = true)
    (index : ∀ hash other, Indexed ledger'.state hash other →
      Indexed ledger.state hash other)
    (counts : ledger'.state.dbFileRepositoryState =
      ledger.state.dbFileRepositoryState.subtractFile fileSize)
    (stored : ledger'.stored = ledger.stored) :
    Booked params ledger' ∧
      (file.removed = false → fileSize = pos.nFileSize.toUInt64 →
        MarksCounted params ledger → MarksCounted params ledger') := by
  rw [subtractFile_counts] at counts
  have perm := List.perm_cons_erase member
  generalize ledger.stored.erase pos = others at perm
  have heldOthers : ∀ other ∈ others,
      ∃ held, HoldsFile params ledger.state.disk other held :=
    fun other there =>
      booked.held other (perm.mem_iff.mpr (List.mem_cons_of_mem _ there))
  have kept : ∀ other ∈ others, ∀ held,
      HoldsFile params ledger.state.disk other held →
        HoldsFile params ledger'.state.disk other held :=
    fun other there held => changed.holdsFile (booked.apart perm other there)
  constructor
  · constructor
    · rw [table]
      exact booked.bounded
    · rw [stored, table]
      exact booked.inside
    · rw [stored]
      exact booked.disjoint
    · rw [stored]
      intro other there
      rcases List.mem_cons.mp (perm.mem_iff.mp there) with rfl | there
      · exact ⟨file', holds'⟩
      · rcases heldOthers other there with ⟨held, holdsOther⟩
        exact ⟨held, kept other there held holdsOther⟩
    · rw [stored]
      exact fun hash other here =>
        booked.indexed hash other (index hash other here)
    · rw [stored, counts]
      exact booked.number
    · rw [stored, counts]
      exact booked.size
  · rintro unmarked rfl marks
    have now : (removedFiles params ledger').Perm
        (pos :: removedFiles params ledger) := by
      rw [removedFiles, stored]
      exact removedFiles_marked perm heldOthers kept
        ((HoldsFile.removedAt holds).trans unmarked)
        ((HoldsFile.removedAt holds').trans marked)
    constructor
    · rw [filesNumber_perm now, filesNumber_cons, ← marks.number, counts]
    · rw [storageSize_perm now, storageSize_cons, ← marks.size, counts]

end Steps

/-! ## The calls -/

/-- The disk after a record is written to an extent. -/
def recordWritten (params : Params) (file : CDBFile)
    (pos : CFileRepositoryBlockDiskPos) (disk : Disk) : Disk :=
  disk.edit (.blk pos.nBlockFileIndex)
    (overwrite pos.nOffset.toNat (diskRecord params (file.serialize params)))

theorem holdsFile_recordWritten {params : Params} {file : CDBFile}
    {pos : CFileRepositoryBlockDiskPos} (admitted : Admitted file)
    (length : (diskRecord params (file.serialize params)).length =
      pos.nFileSize.toNat) (disk : Disk) :
    HoldsFile params (recordWritten params file pos disk) pos
      (file.updateFileHash params) :=
  holdsFile_write (show Admitted (file.updateFileHash params) from admitted)
    (diskRecord_fileRecord params file) length disk

/-- A save stops after one of its steps, or goes through all of them. -/
theorem saveFile_cases {params : Params} {environment : Environment}
    {file : CDBFile} {state middle : RepositoryState}
    {result : Option CFileRepositoryBlockDiskPos}
    (call : allocate environment (getRepositoryFileSize params file) state =
      (result, middle)) :
    saveFile params environment file state = (false, middle) ∨
      ∃ pos, result = some pos ∧
        (saveFile params environment file state =
            (false, { middle with
              disk := recordWritten params file pos middle.disk }) ∨
          saveFile params environment file state =
            (true, { middle with
              disk := recordWritten params file pos middle.disk
              pblockfiletree := { middle.pblockfiletree with
                fileIndex := middle.pblockfiletree.fileIndex.insert
                  (file.calcFileHash params) pos }
              dbFileRepositoryState :=
                middle.dbFileRepositoryState.addFile
                  (getRepositoryFileSize params file).toUInt64 })) := by
  rw [saveFile, call]
  cases result with
  | none => exact .inl rfl
  | some pos =>
      dsimp only
      cases written : writeFileRepositoryBlockToDiskFrom params
          ((file.updateFileHash params).serialize params) environment pos
          false middle with
      | none => exact .inl rfl
      | some state =>
          have disk : state = { middle with
              disk := recordWritten params file pos middle.disk } := by
            rw [recordWritten, ← serialize_updateFileHash]
            exact (write_some written).2
          subst disk
          refine .inr ⟨pos, rfl, ?_⟩
          dsimp only
          cases entered : writeFileIndex environment
              (file.updateFileHash params).fileHash pos
              { middle with
                disk := recordWritten params file pos middle.disk } with
          | none => exact .inl rfl
          | some state =>
              have tree := writeFileIndex_some entered
              subst tree
              exact .inr rfl

theorem indexed_insert {index : Std.ExtTreeMap UInt256
    CFileRepositoryBlockDiskPos keyOrder} {hash key : UInt256}
    {pos other : CFileRepositoryBlockDiskPos}
    (found : (index.insert key pos)[hash]? = some other) :
    other = pos ∨ index[hash]? = some other := by
  by_cases same : hash = key
  · subst same
    rw [Std.ExtTreeMap.getElem?_insert_self] at found
    exact .inl (Option.some.inj found).symm
  · rw [getElem?_insert_of_ne same] at found
    exact .inr found

/-- Counting one more file keeps equal counters equal. -/
theorem SameCounts.addFile {counters counters' : CDBFileRepositoryState}
    (counts : SameCounts counters counters') (fileSize : UInt64) :
    SameCounts (counters.addFile fileSize) (counters'.addFile fileSize) := by
  rcases counts with ⟨number, total, removedNumber, removedSize⟩
  rw [addFile_counts, addFile_counts]
  exact ⟨congrArg (· + 1) number, congrArg (· + fileSize) total,
    removedNumber, removedSize⟩

/-- A call that fails, and neither saves nor marks anything. -/
theorem failed_step {params : Params} {ledger : Ledger}
    {environment : Environment} {call : Call} {state : RepositoryState}
    (booked : Booked params ledger)
    (failed : perform params environment call ledger.state = (false, state))
    (bounded : BlocksBounded state.table)
    (inside : ∀ pos, InsideBlock ledger.state.table pos →
      InsideBlock state.table pos)
    (kept : ∀ pos ∈ ledger.stored, ∀ file,
      HoldsFile params ledger.state.disk pos file →
        HoldsFile params state.disk pos file)
    (index : ∀ hash pos, Indexed state hash pos →
      Indexed ledger.state hash pos)
    (counts : SameCounts ledger.state.dbFileRepositoryState
      state.dbFileRepositoryState) :
    Booked params (ledger.after params environment call) ∧
      (MarksCounted params ledger →
        MarksCounted params (ledger.after params environment call)) := by
  have after : ledger.after params environment call =
      ⟨state, ledger.stored⟩ := by
    rw [Ledger.after, failed]
    rfl
  rw [after]
  exact quiet_step booked bounded inside kept index counts rfl

/-- What is held stays so while room is found for another file. -/
theorem Booked.kept {params : Params} {ledger : Ledger}
    {table' : BlockTable} {disk' : Disk} (booked : Booked params ledger)
    (keeps : Kept ledger.state.table ledger.state.disk table' disk') :
    ∀ pos ∈ ledger.stored, ∀ stored,
      HoldsFile params ledger.state.disk pos stored →
        HoldsFile params disk' pos stored := by
  rintro pos member stored ⟨small, bytes, record, here⟩
  exact ⟨small, bytes, record,
    keeps.stored pos bytes (booked.inside pos member) here⟩

/-- It stays so when the record of that file is written, too. -/
theorem Booked.kept_written {params : Params} {ledger : Ledger}
    {table' : BlockTable} {disk' : Disk} {file : CDBFile}
    {pos : CFileRepositoryBlockDiskPos} (booked : Booked params ledger)
    (keeps : Kept ledger.state.table ledger.state.disk table' disk')
    (fresh : Fresh ledger.state.table table' pos)
    (length : (diskRecord params (file.serialize params)).length =
      pos.nFileSize.toNat) :
    ∀ other ∈ ledger.stored, ∀ stored,
      HoldsFile params ledger.state.disk other stored →
        HoldsFile params (recordWritten params file pos disk') other
          stored := by
  intro other member stored holds
  exact (onlyChangedAt_overwrite (Nat.le_of_eq length) disk').holdsFile
    (fresh.disjoint other (booked.inside other member)).symm
    (booked.kept keeps other member stored holds)

theorem after_saveFile {params : Params} {ledger : Ledger} {file : CDBFile}
    (booked : Booked params ledger) (environment : Environment)
    (admitted : Admitted file) :
    Booked params (ledger.after params environment (.saveFile file admitted)) ∧
      (file.removed = false → MarksCounted params ledger →
        MarksCounted params
          (ledger.after params environment (.saveFile file admitted))) := by
  rcases call : allocate environment (getRepositoryFileSize params file)
    ledger.state with ⟨result, middle⟩
  have counts := allocate_counts call
  rcases allocate_spec booked.bounded call with
    ⟨keeps, bounded, tree, handed⟩
  have index : ∀ hash other, Indexed middle hash other →
      Indexed ledger.state hash other := by
    intro hash other here
    rw [Indexed, tree] at here
    exact here
  rcases saveFile_cases call with done | ⟨pos, rfl, outcome⟩
  · have failed : perform params environment (.saveFile file admitted)
        ledger.state = (false, _) := done
    have quiet := failed_step booked failed bounded keeps.inside
      (booked.kept keeps) index counts
    exact ⟨quiet.1, fun _ => quiet.2⟩
  · rcases handed pos rfl with ⟨size, fresh⟩
    have length : (diskRecord params (file.serialize params)).length =
        pos.nFileSize.toNat := by
      rw [size, getRepositoryFileSize_toNat params admitted]
    have kept := booked.kept_written keeps fresh length
    rcases outcome with done | done
    · have failed : perform params environment (.saveFile file admitted)
          ledger.state = (false, _) := done
      have quiet := failed_step booked failed bounded keeps.inside kept index
        counts
      exact ⟨quiet.1, fun _ => quiet.2⟩
    · have written := holdsFile_recordWritten admitted length middle.disk
      simp only [Ledger.after, perform, done, givenOut, call,
        Option.toList_some, List.singleton_append, if_true]
      change _ ∧ ((file.updateFileHash params).removed = false → _)
      refine added_step booked bounded keeps.inside fresh kept written ?_
        ?_ rfl
      · intro hash other here
        rw [Indexed] at here
        dsimp only at here
        rw [tree] at here
        exact indexed_insert here
      · rw [size]
        exact counts.addFile _

/-- The state without an entry of the index. -/
def entryDropped (hash : UInt256) (state : RepositoryState) :
    RepositoryState :=
  { state with
    pblockfiletree := { state.pblockfiletree with
      fileIndex := state.pblockfiletree.fileIndex.erase hash } }

/-- The state once the record of a file is rewritten with its mark. -/
def recordMarked (params : Params) (stored : CDBFile)
    (pos : CFileRepositoryBlockDiskPos) (fileSize : UInt32)
    (state : RepositoryState) : RepositoryState :=
  countRemovedFile fileSize { state with
    disk := recordWritten params { stored with removed := true } pos
      state.disk }

/-- An erase stops after one of its steps, or goes through all of them. -/
theorem eraseFile_cases (params : Params) (environment : Environment)
    (file : CDBFile) (state : RepositoryState) :
    eraseFile params environment file state = (false, state) ∨
      ∃ pos, Indexed state file.fileHash pos ∧
        (eraseFile params environment file state =
            (false, entryDropped file.fileHash state) ∨
          ∃ stored, environment.openFails = false ∧
            readFileBlockFromDisk params environment pos false state =
              some stored ∧
            eraseFile params environment file state =
              (true, recordMarked params stored pos
                (getRepositoryFileSize params file)
                (entryDropped file.fileHash state))) := by
  unfold eraseFile
  cases indexed : state.pblockfiletree.fileIndex[file.fileHash]? with
  | none => exact .inl rfl
  | some pos =>
      dsimp only
      cases entry : eraseFileIndex environment file.fileHash state with
      | none => exact .inl rfl
      | some dropped =>
          have tree : dropped = entryDropped file.fileHash state :=
            eraseFileIndex_some entry
          subst tree
          refine .inr ⟨pos, indexed, ?_⟩
          dsimp only
          cases removed : removeFileRepositoryBlockFromDisk params environment
              pos (entryDropped file.fileHash state) with
          | none => exact .inl rfl
          | some marked =>
              unfold removeFileRepositoryBlockFromDisk at removed
              split at removed
              · cases removed
              case h_2 stored read =>
                rcases write_some removed with ⟨opens, disk⟩
                subst disk
                exact .inr ⟨stored, opens, read, rfl⟩

/-- An erase of a file that is there succeeds unless a write fails. -/
theorem eraseFile_succeeds {params : Params} {environment : Environment}
    {file stored : CDBFile} {state : RepositoryState}
    {pos : CFileRepositoryBlockDiskPos}
    (indexed : Indexed state file.fileHash pos)
    (holds : HoldsFile params state.disk pos stored)
    (opens : environment.openFails = false)
    (writes : environment.indexWriteFails = false) :
    eraseFile params environment file state =
      (true, recordMarked params stored pos
        (getRepositoryFileSize params file)
        (entryDropped file.fileHash state)) := by
  have read : readFileBlockFromDisk params environment pos false
      (entryDropped file.fileHash state) = some stored :=
    holds.read opens
  have dropped : eraseFileIndex environment file.fileHash state =
      some (entryDropped file.fileHash state) := by
    rw [eraseFileIndex, writes, if_neg (by simp)]
    rfl
  rw [eraseFile, indexed]
  dsimp only
  rw [dropped]
  dsimp only
  rw [removeFileRepositoryBlockFromDisk, read]
  dsimp only
  rw [writeFileRepositoryBlockToDiskFrom, opens, if_neg (by simp)]
  rfl

/-- The file is not marked yet, and is handed over with its stored size. -/
def ErasedOnce (params : Params) (file : CDBFile) (state : RepositoryState) :
    Prop :=
  ∀ pos, Indexed state file.fileHash pos →
    removedAt params state pos = false ∧
      getRepositoryFileSize params file = pos.nFileSize

theorem indexed_of_erase {index : Std.ExtTreeMap UInt256
    CFileRepositoryBlockDiskPos keyOrder} {hash key : UInt256}
    {other : CFileRepositoryBlockDiskPos}
    (found : (index.erase key)[hash]? = some other) :
    index[hash]? = some other := by
  rw [getElem?_erase] at found
  split_ifs at found
  exact found

theorem after_eraseFile {params : Params} {ledger : Ledger}
    (booked : Booked params ledger) (environment : Environment)
    (file : CDBFile) :
    Booked params (ledger.after params environment (.eraseFile file)) ∧
      (ErasedOnce params file ledger.state → MarksCounted params ledger →
        MarksCounted params
          (ledger.after params environment (.eraseFile file))) := by
  rcases eraseFile_cases params environment file ledger.state with
    done | ⟨pos, indexed, outcome⟩
  · have failed : perform params environment (.eraseFile file) ledger.state =
        (false, ledger.state) := done
    have quiet := failed_step booked failed booked.bounded
      (fun _ inside => inside) (fun _ _ _ holds => holds)
      (fun _ _ here => here) (.refl _)
    exact ⟨quiet.1, fun _ => quiet.2⟩
  · rcases outcome with done | ⟨stored, opens, read, done⟩
    · have failed : perform params environment (.eraseFile file)
          ledger.state =
            (false, entryDropped file.fileHash ledger.state) := done
      have quiet := failed_step booked failed booked.bounded
        (fun _ inside => inside) (fun _ _ _ holds => holds)
        (fun _ _ => indexed_of_erase) (.refl _)
      exact ⟨quiet.1, fun _ => quiet.2⟩
    · have member := booked.indexed _ _ indexed
      rcases booked.held pos member with ⟨held, holds⟩
      rw [holds.read opens] at read
      cases read
      have admitted : Admitted { stored with removed := true } := holds.1
      have length : (diskRecord params
          ({ stored with removed := true }.serialize params)).length =
            pos.nFileSize.toNat := by
        rw [diskRecord_serialize_length, holds.length, encode_length,
          encode_length]
      have holds' := holdsFile_recordWritten admitted length
        ledger.state.disk
      have after : ledger.after params environment (.eraseFile file) =
          ⟨recordMarked params stored pos (getRepositoryFileSize params file)
            (entryDropped file.fileHash ledger.state), ledger.stored⟩ := by
        simp only [Ledger.after, perform, done, givenOut, List.nil_append,
          ite_self]
      rw [after]
      refine And.imp_right ?_ (marked_step booked member rfl holds
        (onlyChangedAt_overwrite (Nat.le_of_eq length) ledger.state.disk)
        holds' rfl (fun _ _ => indexed_of_erase) rfl rfl)
      intro counted once
      rcases once pos indexed with ⟨unmarked, size⟩
      rw [HoldsFile.removedAt holds] at unmarked
      exact counted unmarked (congrArg UInt32.toUInt64 size)

/-- Recycling an entry does nothing, or marks its file and counts it. -/
theorem recycleEntry_counts {params : Params} {environment : Environment}
    {pos : CFileRepositoryBlockDiskPos} {state state' : RepositoryState}
    {file : CDBFile} (holds : HoldsFile params state.disk pos file)
    (done : recycleEntry params environment pos state = some state') :
    state' = state ∨
      file.removed = false ∧
        (recycled environment.adjustedTime file).removed = true ∧
        state'.dbFileRepositoryState =
          state.dbFileRepositoryState.subtractFile pos.nFileSize.toUInt64 := by
  rw [recycleEntry, holds.readHeader (recycleEntry_opens done)] at done
  dsimp only at done
  split_ifs at done with removed expired
  · exact .inl (Option.some.inj done).symm
  · split at done
    · cases done
    case h_2 marked written =>
      rcases write_some written with ⟨_, disk⟩
      subst disk
      cases done
      have live : file.removed = false := Bool.eq_false_iff.mpr removed
      refine .inr ⟨live, ?_, rfl⟩
      rw [recycled, if_pos ⟨by rw [live]; rfl, expired⟩]
  · exact .inl (Option.some.inj done).symm

theorem after_recycleEntry {params : Params} {environment : Environment}
    {stored : List CFileRepositoryBlockDiskPos}
    {state state' : RepositoryState} {pos : CFileRepositoryBlockDiskPos}
    (booked : Booked params ⟨state, stored⟩) (member : pos ∈ stored)
    (done : recycleEntry params environment pos state = some state') :
    Booked params ⟨state', stored⟩ ∧
      (MarksCounted params ⟨state, stored⟩ →
        MarksCounted params ⟨state', stored⟩) := by
  rcases booked.held pos member with ⟨file, holds⟩
  rcases recycleEntry_some holds done with ⟨same, changed, holds'⟩
  rcases recycleEntry_counts holds done with rfl | ⟨live, marked, counts⟩
  · exact ⟨booked, fun marks => marks⟩
  · have step : Booked params ⟨state', stored⟩ ∧
        (file.removed = false →
          pos.nFileSize.toUInt64 = pos.nFileSize.toUInt64 →
            MarksCounted params ⟨state, stored⟩ →
              MarksCounted params ⟨state', stored⟩) :=
      marked_step booked member same.1 holds changed holds' marked
        (fun _ _ => same.indexed.mp) counts rfl
    exact ⟨step.1, step.2 live rfl⟩

/-- A pass over files on the list, as far as it gets. -/
theorem after_recycleEntries {params : Params} {environment : Environment}
    {stored positions : List CFileRepositoryBlockDiskPos}
    {state : RepositoryState} (booked : Booked params ⟨state, stored⟩)
    (members : ∀ pos ∈ positions, pos ∈ stored) :
    Booked params
        ⟨(recycleEntries params environment positions state).2, stored⟩ ∧
      (MarksCounted params ⟨state, stored⟩ → MarksCounted params
        ⟨(recycleEntries params environment positions state).2, stored⟩) := by
  induction positions generalizing state with
  | nil => exact ⟨booked, fun marks => marks⟩
  | cons pos rest ih =>
      rw [List.forall_mem_cons] at members
      rw [recycleEntries]
      cases done : recycleEntry params environment pos state with
      | none => exact ⟨booked, fun marks => marks⟩
      | some middle =>
          rcases after_recycleEntry booked members.1 done with
            ⟨booked', marks'⟩
          rcases ih booked' members.2 with ⟨bookedAll, marksAll⟩
          exact ⟨bookedAll, fun marks => marksAll (marks' marks)⟩

theorem after_recycle {params : Params} {ledger : Ledger}
    (booked : Booked params ledger) (environment : Environment) :
    Booked params
        (ledger.after params environment .findAndRecycleExpiredFiles) ∧
      (MarksCounted params ledger → MarksCounted params
        (ledger.after params environment .findAndRecycleExpiredFiles)) := by
  have members : ∀ pos ∈ indexedPositions ledger.state,
      pos ∈ ledger.stored := by
    intro pos member
    rcases List.mem_map.mp member with ⟨entry, listed, rfl⟩
    exact booked.indexed entry.1 entry.2 (indexed_of_mem_toList listed)
  have stored : (ledger.after params environment
      .findAndRecycleExpiredFiles).stored = ledger.stored :=
    stored_after rfl
  have pass : ledger.after params environment .findAndRecycleExpiredFiles =
      ⟨(recycleEntries params environment (indexedPositions ledger.state)
        ledger.state).2, ledger.stored⟩ := by
    rw [← stored]
    rfl
  rw [pass]
  exact after_recycleEntries booked members

/-- An erase that succeeds takes the file off the index. -/
theorem fileIndex_after_eraseFile {params : Params} {ledger : Ledger}
    {environment : Environment} {file : CDBFile}
    {pos : CFileRepositoryBlockDiskPos} (booked : Booked params ledger)
    (indexed : Indexed ledger.state file.fileHash pos)
    (opens : environment.openFails = false)
    (writes : environment.indexWriteFails = false) :
    (ledger.after params environment
        (.eraseFile file)).state.pblockfiletree.fileIndex =
      ledger.state.pblockfiletree.fileIndex.erase file.fileHash := by
  rcases booked.held _ (booked.indexed _ _ indexed) with ⟨stored, holds⟩
  have done := eraseFile_succeeds indexed holds opens writes
  have state : (ledger.after params environment (.eraseFile file)).state =
      _ := congrArg Prod.snd done
  rw [state]
  rfl

/-! ## Runs -/

/-- The calls that count every mark once. -/
def CountedOnce (params : Params) : Call → RepositoryState → Prop
  | .saveFile file _, _ => file.removed = false
  | .eraseFile file, state => ErasedOnce params file state
  | _, _ => True

theorem after_call {params : Params} {ledger : Ledger}
    (booked : Booked params ledger) (environment : Environment)
    (call : Call) :
    Booked params (ledger.after params environment call) ∧
      (CountedOnce params call ledger.state → MarksCounted params ledger →
        MarksCounted params (ledger.after params environment call)) := by
  cases call with
  | saveFile file admitted => exact after_saveFile booked environment admitted
  | eraseFile file => exact after_eraseFile booked environment file
  | findAndRecycleExpiredFiles =>
      rcases after_recycle booked environment with ⟨booked', marks⟩
      exact ⟨booked', fun _ => marks⟩
  | getFile fileHash =>
      have stored : (ledger.after params environment
          (.getFile fileHash)).stored = ledger.stored :=
        stored_after rfl
      have same : ledger.after params environment (.getFile fileHash) =
          ledger := by
        exact congrArg (Ledger.mk ledger.state) stored
      rw [same]
      exact ⟨booked, fun _ marks => marks⟩

theorem booked_start (params : Params) (lastUpdateTime time : Int) :
    Booked params (.start lastUpdateTime time) where
  bounded := by
    intro info member
    rw [List.mem_singleton.mp member]
    exact Nat.zero_le _
  inside := by
    intro pos member
    cases member
  disjoint := List.Pairwise.nil
  held := by
    intro pos member
    cases member
  indexed := by
    intro hash pos here
    cases here
  number := rfl
  size := rfl

theorem booked_of_reachable {params : Params}
    {allowed : Call → RepositoryState → Prop} {ledger : Ledger}
    (reachable : Reachable params allowed ledger) :
    Booked params ledger := by
  induction reachable with
  | start lastUpdateTime time => exact booked_start params lastUpdateTime time
  | call environment call _ _ ih => exact (after_call ih environment call).1

theorem marksCounted_of_reachable {params : Params} {ledger : Ledger}
    (reachable : Reachable params (CountedOnce params) ledger) :
    MarksCounted params ledger := by
  induction reachable with
  | start lastUpdateTime time => exact ⟨rfl, rfl⟩
  | call environment call reached isAllowed ih =>
      exact (after_call (booked_of_reachable reached) environment
        call).2 isAllowed ih

/--
In every run the counters of files count the files that were saved, each of
which is still on disk; and in every run that counts each mark once, the
counters of candidates count the files among them that are marked removed.
-/
theorem counters_count_stored {params : Params} {ledger : Ledger} :
    (Reachable params (fun _ _ => True) ledger →
      (∀ pos ∈ ledger.stored, (readFileBlockFromDisk params steady pos false
        ledger.state).isSome = true) ∧
      ledger.state.dbFileRepositoryState.filesCount =
        filesNumber ledger.stored ∧
      ledger.state.dbFileRepositoryState.nTotalFileStorageSize =
        storageSize ledger.stored) ∧
    (Reachable params (CountedOnce params) ledger →
      ledger.state.dbFileRepositoryState.removeCandidatesFilesCount =
        filesNumber (removedFiles params ledger) ∧
      ledger.state.dbFileRepositoryState.removeCandidatesTotalSize =
        storageSize (removedFiles params ledger)) := by
  constructor
  · intro reachable
    have booked := booked_of_reachable reachable
    refine ⟨?_, booked.number, booked.size⟩
    intro pos member
    rcases booked.held pos member with ⟨file, holds⟩
    rw [holds.read rfl]
    rfl
  · intro reachable
    have marks := marksCounted_of_reachable reachable
    exact ⟨marks.number, marks.size⟩

/-! ## One file -/

/-- One file is saved. -/
def oneFile : Ledger :=
  (Ledger.start 0 0).after sampleParams roomyDisk
    (.saveFile sampleFile sampleFile_admitted)

/-- The clock stands past the lifetime of the file. -/
def lateDisk : Environment := { roomyDisk with adjustedTime := 200 }

/-- The file expires. -/
def expired : Ledger :=
  oneFile.after sampleParams lateDisk .findAndRecycleExpiredFiles

theorem oneFile_stored : oneFile.stored = [⟨0, 0, 48⟩] := by
  decide +kernel

theorem expired_stored : expired.stored = [⟨0, 0, 48⟩] :=
  (stored_after rfl).trans oneFile_stored

theorem counters_count_stored_expired :
    expired.stored = [⟨0, 0, 48⟩] ∧
      expired.state.dbFileRepositoryState.filesCount = 1 ∧
      expired.state.dbFileRepositoryState.removeCandidatesFilesCount =
        filesNumber (removedFiles sampleParams expired) := by
  have reachable (allowed : Call → RepositoryState → Prop)
      (saving : allowed (.saveFile sampleFile sampleFile_admitted)
        (Ledger.start 0 0).state)
      (recycling : allowed .findAndRecycleExpiredFiles oneFile.state) :
      Reachable sampleParams allowed expired :=
    .call _ _ (.call _ _ (.start 0 0) saving) recycling
  have files := (counters_count_stored.1
    (reachable (fun _ _ => True) trivial trivial)).2.1
  have marks := counters_count_stored.2 (reachable _ rfl trivial)
  rw [expired_stored] at files
  exact ⟨expired_stored, files, marks.1⟩

/-- The file is erased instead. -/
def erased : Ledger :=
  oneFile.after sampleParams roomyDisk
    (.eraseFile ⟨7, 100, false, false, [7]⟩)

theorem erased_stored : erased.stored = [⟨0, 0, 48⟩] :=
  (stored_after rfl).trans oneFile_stored

theorem oneFile_indexed : Indexed oneFile.state 7 ⟨0, 0, 48⟩ := by
  unfold Indexed
  decide +kernel

theorem oneFile_dropped :
    (oneFile.state.pblockfiletree.fileIndex.erase 7).toList = [] := by
  decide +kernel

theorem erased_indexedPositions : indexedPositions erased.state = [] := by
  have before : Booked sampleParams oneFile :=
    (after_call (booked_start sampleParams 0 0) roomyDisk _).1
  have dropped : erased.state.pblockfiletree.fileIndex =
      oneFile.state.pblockfiletree.fileIndex.erase 7 :=
    fileIndex_after_eraseFile before oneFile_indexed rfl rfl
  rw [indexedPositions, dropped, oneFile_dropped]
  rfl

/-- The index has lost the file, but the counters have not. -/
theorem erased_file_still_counted :
    ¬ ∀ (params : Params) (ledger : Ledger),
      Reachable params (fun _ _ => True) ledger →
        ledger.state.dbFileRepositoryState.filesCount =
            filesNumber (indexedPositions ledger.state) ∧
          ledger.state.dbFileRepositoryState.nTotalFileStorageSize =
            storageSize (indexedPositions ledger.state) ∧
          ledger.state.dbFileRepositoryState.removeCandidatesFilesCount =
            filesNumber (removedFiles params ledger) ∧
          ledger.state.dbFileRepositoryState.removeCandidatesTotalSize =
            storageSize (removedFiles params ledger) := by
  intro claim
  have reachable : Reachable sampleParams (fun _ _ => True) erased :=
    .call _ _ (.call _ _ (.start 0 0) trivial) trivial
  have equal := (claim sampleParams erased reachable).1
  rw [(booked_of_reachable reachable).number, erased_stored,
    erased_indexedPositions] at equal
  exact absurd equal (by decide)

end PrivateDatagram.Repository.Accounting
