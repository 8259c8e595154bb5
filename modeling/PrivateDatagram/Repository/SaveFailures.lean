import PrivateDatagram.Repository.Runs

/-!
# Saves that fail

A save may fail in several places, and each of them may fail on its own.  The
table of the blocks is changed before all of them but one, the check of the
size of the file, and nothing changes it back.  An exception counts as a
failure.
-/

namespace PrivateDatagram.Repository.SaveFailures

open Library.ByteFormat Library.ByteStore Wire.Serialize Records Manager
  Allocation Runs

/-- What goes wrong in one save. -/
structure SaveFaults where
  /-- Opening the last block file to flush it, to enlarge it and to write. -/
  flushOpenFails : Bool
  rangeOpenFails : Bool
  writeOpenFails : Bool
  ftellFails : Bool
  /-- How much of a record the disk takes. -/
  writtenBytes : Nat
  indexWriteFails : Bool
deriving DecidableEq, Repr

/-! ## The steps of a save -/

/-- The same surroundings, but for the next block file that is opened. -/
def opening (environment : Environment) (openFails : Bool) : Environment :=
  { environment with openFails }

/-- The same surroundings, but for the next write to the index. -/
def indexing (environment : Environment) (indexWriteFails : Bool) :
    Environment :=
  { environment with indexWriteFails }

/-- `FindAndAllocateBlockFile`. -/
@[irreducible]
def allocateStepwise (environment : Environment) (faults : SaveFaults)
    (nAddSize : UInt32) (state : RepositoryState) :
    Option CFileRepositoryBlockDiskPos × RepositoryState :=
  if nAddSize > maxFileBlockFileSize then
    (none, state)
  else
    let room := makeRoom (opening environment faults.flushOpenFails) nAddSize
      false state.table state
    let result := placeFile (opening environment faults.rangeOpenFails)
      nAddSize false room.1 room.2
    (result.1, { result.2.2 with table := result.2.1 })

/-- `WriteFileRepositoryBlockToDiskFrom`, which asks for the position behind
the first eight bytes. -/
def writeStepwise (params : Params) (object : Bytes) (faults : SaveFaults)
    (pos : CFileRepositoryBlockDiskPos) (state : RepositoryState) :
    Bool × RepositoryState :=
  let record := diskRecord params object
  let written (count : Nat) : RepositoryState :=
    { state with
      disk := state.disk.edit (filePosFilename pos.nBlockFileIndex false)
        (overwrite pos.nOffset.toNat (record.take count)) }
  if faults.writeOpenFails then
    (false, state)
  else if faults.writtenBytes < 8 then
    (false, written faults.writtenBytes)
  else if faults.ftellFails then
    (false, written 8)
  else if faults.writtenBytes < record.length then
    (false, written faults.writtenBytes)
  else
    (true, written record.length)

/-- `SaveFile`. -/
def saveFileStepwise (params : Params) (environment : Environment)
    (faults : SaveFaults) (file : CDBFile) (state : RepositoryState) :
    Bool × RepositoryState :=
  let nRepositoryFileSize := getRepositoryFileSize params file
  let file := file.updateFileHash params
  match allocateStepwise environment faults nRepositoryFileSize state with
  | (none, state) => (false, state)
  | (some filePos, state) =>
      let write := writeStepwise params (file.serialize params) faults filePos
        state
      if !write.1 then
        (false, write.2)
      else
        match writeFileIndex (indexing environment faults.indexWriteFails)
            file.fileHash filePos write.2 with
        | none => (false, write.2)
        | some state => (true, countAddedFile nRepositoryFileSize state)

/-! ## The same steps as before -/

theorem eight_le_diskRecord (params : Params) (object : Bytes) :
    8 ≤ (diskRecord params object).length := by
  have size (value : UInt32) : (uint32.encode value).length = 4 :=
    length_littleEndian 4 _
  simp only [diskRecord, List.length_append, size,
    params.messageStart_length]
  omega

theorem allocateStepwise_eq {environment : Environment}
    {faults : SaveFaults} (flush : faults.flushOpenFails =
      environment.openFails)
    (range : faults.rangeOpenFails = environment.openFails)
    (nAddSize : UInt32) (state : RepositoryState) :
    allocateStepwise environment faults nAddSize state =
      allocate environment nAddSize state := by
  simp only [allocateStepwise, allocate, findAndAllocateBlockFile, flush,
    range]
  split_ifs <;> rfl

/-- What the disk takes whole is written as before. -/
theorem writeStepwise_whole (params : Params) {object : Bytes}
    {environment : Environment} {faults : SaveFaults}
    (write : faults.writeOpenFails = environment.openFails)
    (ftell : faults.ftellFails = false)
    (enough : (diskRecord params object).length ≤ faults.writtenBytes)
    (pos : CFileRepositoryBlockDiskPos) (state : RepositoryState) :
    writeStepwise params object faults pos state =
      match writeFileRepositoryBlockToDiskFrom params object environment pos
        false state with
      | none => (false, state)
      | some state => (true, state) := by
  have front := (eight_le_diskRecord params object).trans enough
  simp only [writeStepwise, writeFileRepositoryBlockToDiskFrom, write, ftell,
    if_neg (Nat.not_lt.mpr front), if_neg (Nat.not_lt.mpr enough),
    List.take_length, Bool.false_eq_true, if_false]
  split_ifs <;> rfl

/-- Where each step fails like the surroundings, this is `saveFile`. -/
theorem saveFileStepwise_eq (params : Params) {environment : Environment}
    {faults : SaveFaults} {file : CDBFile}
    (flush : faults.flushOpenFails = environment.openFails)
    (range : faults.rangeOpenFails = environment.openFails)
    (write : faults.writeOpenFails = environment.openFails)
    (ftell : faults.ftellFails = false)
    (enough : (diskRecord params (file.serialize params)).length ≤
      faults.writtenBytes)
    (index : faults.indexWriteFails = environment.indexWriteFails)
    (state : RepositoryState) :
    saveFileStepwise params environment faults file state =
      saveFile params environment file state := by
  have same : indexing environment environment.indexWriteFails =
      environment := rfl
  simp only [saveFileStepwise, saveFile, allocateStepwise_eq flush range,
    serialize_updateFileHash, index, same]
  rcases allocate environment (getRepositoryFileSize params file) state with
    ⟨_ | filePos, reached⟩
  · rfl
  · simp only [writeStepwise_whole params write ftell enough]
    cases writeFileRepositoryBlockToDiskFrom params (file.serialize params)
      environment filePos false reached with
    | none => rfl
    | some written => rfl

/-! ## When a step fails -/

/-- A file at this offset reaches into a new chunk, for which the disk has no
space. -/
@[irreducible]
def chunkRefused (environment : Environment) (nAddSize nOffset : UInt32) :
    Bool :=
  chunks (nOffset + nAddSize) > chunks nOffset &&
    !checkDiskSpace environment
      (chunks (nOffset + nAddSize) * fileBlockFileChunkSize -
        nOffset).toUInt64

def outOfDiskSpace (environment : Environment) (nAddSize : UInt32)
    (table : BlockTable) : Bool :=
  chunkRefused environment nAddSize
    (if table.current.nBlockSize + nAddSize ≥ maxFileBlockFileSize then 0
      else table.current.nBlockSize)

/-- One of the steps behind the check of the size fails. -/
def StepFails (params : Params) (environment : Environment)
    (faults : SaveFaults) (file : CDBFile) (table : BlockTable) : Prop :=
  outOfDiskSpace environment (getRepositoryFileSize params file) table ∨
    faults.writeOpenFails ∨ faults.ftellFails ∨
    faults.writtenBytes <
      (diskRecord params (file.serialize params)).length ∨
    faults.indexWriteFails

/-! ## Allocation -/

/-- The block that a file is put into has its offset and any infos. -/
theorem makeRoom_current (environment : Environment) (nAddSize : UInt32)
    (table : BlockTable) (state : RepositoryState) :
    (makeRoom environment nAddSize false table state).1.current.nBlockSize =
      if table.current.nBlockSize + nAddSize ≥ maxFileBlockFileSize then 0
      else table.current.nBlockSize := by
  simp only [makeRoom]
  split_ifs
  · rw [startNewBlock, current_emplaceBack]
    rfl
  · rfl

theorem current_modifyLast (table : BlockTable)
    (change : CFileRepositoryBlockInfo → CFileRepositoryBlockInfo) :
    (table.modifyLast change).current = change table.current := by
  apply current_eq
  rw [getElem?_modifyLast]
  exact if_pos rfl

theorem placeFile_table (environment : Environment) (nAddSize : UInt32)
    (table : BlockTable) (state : RepositoryState) :
    (placeFile environment nAddSize false table state).2.1 =
      table.modifyLast (·.addFile environment.time nAddSize) := by
  simp only [placeFile]
  split_ifs <;> rfl

/-- Another file is counted, or another block has been opened. -/
theorem placeFile_changes (flushing placing : Environment)
    (nAddSize : UInt32) (table : BlockTable) (state : RepositoryState) :
    (placeFile placing nAddSize false
      (makeRoom flushing nAddSize false table state).1
      (makeRoom flushing nAddSize false table state).2).2.1 ≠ table := by
  simp only [placeFile_table, makeRoom]
  split_ifs
  · intro same
    replace same := congrArg (·.vblockFileInfo.length) same
    simp [startNewBlock, BlockTable.modifyLast, BlockTable.modifyAt,
      BlockTable.emplaceBack] at same
  · intro same
    replace same := congrArg (·.current.nFilesCount) same
    simp [current_modifyLast, CFileRepositoryBlockInfo.addFile] at same

theorem placeFile_none_iff (environment : Environment) (nAddSize : UInt32)
    (table : BlockTable) (state : RepositoryState) :
    (placeFile environment nAddSize false table state).1 = none ↔
      chunkRefused environment nAddSize table.current.nBlockSize = true := by
  simp only [placeFile, current_modifyLast, CFileRepositoryBlockInfo.addFile,
    chunkRefused, Bool.and_eq_true, decide_eq_true_eq]
  split_ifs with more space
  · exact iff_of_true rfl ⟨more, space⟩
  · exact iff_of_false (by simp) fun full => space full.2
  · exact iff_of_false (by simp) fun full => more full.1

theorem allocateStepwise_large {environment : Environment}
    {faults : SaveFaults} {nAddSize : UInt32} {state : RepositoryState}
    (large : nAddSize > maxFileBlockFileSize) :
    allocateStepwise environment faults nAddSize state = (none, state) := by
  rw [allocateStepwise, if_pos large]

/-- What an allocation gives, and the table that it leaves. -/
theorem allocateStepwise_small (environment : Environment)
    (faults : SaveFaults) (state : RepositoryState) {nAddSize : UInt32}
    (small : ¬ nAddSize > maxFileBlockFileSize) :
    ∃ room result, room = makeRoom (opening environment faults.flushOpenFails)
        nAddSize false state.table state ∧
      result = placeFile (opening environment faults.rangeOpenFails) nAddSize
        false room.1 room.2 ∧
      allocateStepwise environment faults nAddSize state =
        (result.1, { result.2.2 with table := result.2.1 }) := by
  rw [allocateStepwise, if_neg small]
  exact ⟨_, _, rfl, rfl, rfl⟩

theorem chunkRefused_opening (environment : Environment) (openFails : Bool)
    (nAddSize nOffset : UInt32) :
    chunkRefused (opening environment openFails) nAddSize nOffset =
      chunkRefused environment nAddSize nOffset := by
  simp only [chunkRefused, checkDiskSpace, opening]

/-- An allocation changes the table, also where it fails. -/
theorem allocateStepwise_changes (environment : Environment)
    (faults : SaveFaults) (state : RepositoryState) {nAddSize : UInt32}
    (small : ¬ nAddSize > maxFileBlockFileSize) :
    (allocateStepwise environment faults nAddSize state).2.table ≠
        state.table ∧
      ((allocateStepwise environment faults nAddSize state).1 = none ↔
        outOfDiskSpace environment nAddSize state.table = true) := by
  obtain ⟨room, result, room_eq, result_eq, allocated⟩ :=
    allocateStepwise_small environment faults state small
  have verdict : (allocateStepwise environment faults nAddSize state).1 =
      result.1 := by rw [allocated]
  have table : (allocateStepwise environment faults nAddSize state).2.table =
      result.2.1 := by rw [allocated]
  constructor
  · rw [table, result_eq, room_eq]
    exact placeFile_changes _ _ nAddSize state.table state
  · rw [verdict, result_eq, placeFile_none_iff, room_eq, makeRoom_current,
      chunkRefused_opening, outOfDiskSpace]

/-! ## Failures -/

theorem writeStepwise_table (params : Params) (object : Bytes)
    (faults : SaveFaults) (pos : CFileRepositoryBlockDiskPos)
    (state : RepositoryState) :
    (writeStepwise params object faults pos state).2.table =
      state.table := by
  simp only [writeStepwise]
  split_ifs <;> rfl

theorem writeStepwise_true_iff (params : Params) (object : Bytes)
    (faults : SaveFaults) (pos : CFileRepositoryBlockDiskPos)
    (state : RepositoryState) :
    (writeStepwise params object faults pos state).1 = true ↔
      ¬ (faults.writeOpenFails ∨ faults.ftellFails ∨
        faults.writtenBytes < (diskRecord params object).length) := by
  have front := eight_le_diskRecord params object
  simp only [writeStepwise]
  split_ifs with opens short ftell long
  · simp [opens]
  · have less := short.trans_le front
    simp [less]
  · simp [ftell]
  · simp [long]
  · simp [opens, ftell, long]

theorem writeFileIndex_indexing (environment : Environment)
    (indexWriteFails : Bool) (fileHash : UInt256)
    (pos : CFileRepositoryBlockDiskPos) (state : RepositoryState) :
    writeFileIndex (indexing environment indexWriteFails) fileHash pos state =
      none ↔ indexWriteFails = true := by
  cases indexWriteFails <;> simp [writeFileIndex, indexing]

/-- The save of a file that has its place. -/
theorem saveFileStepwise_placed {params : Params} {environment : Environment}
    {faults : SaveFaults} {file : CDBFile} {state reached : RepositoryState}
    {filePos : CFileRepositoryBlockDiskPos}
    (placed : allocateStepwise environment faults
      (getRepositoryFileSize params file) state = (some filePos, reached)) :
    ((saveFileStepwise params environment faults file state).1 = false ↔
        faults.writeOpenFails ∨ faults.ftellFails ∨
          faults.writtenBytes <
            (diskRecord params (file.serialize params)).length ∨
          faults.indexWriteFails) ∧
      ((saveFileStepwise params environment faults file state).1 = false →
        (saveFileStepwise params environment faults file state).2.table =
          reached.table) := by
  have table := writeStepwise_table params (file.serialize params) faults
    filePos reached
  have wrote := writeStepwise_true_iff params (file.serialize params) faults
    filePos reached
  have indexed := writeFileIndex_indexing environment faults.indexWriteFails
    (file.updateFileHash params).fileHash filePos
    (writeStepwise params (file.serialize params) faults filePos reached).2
  rw [saveFileStepwise, placed]
  dsimp only
  rw [serialize_updateFileHash]
  by_cases whole : (writeStepwise params (file.serialize params) faults
    filePos reached).1 = true
  · have others := wrote.mp whole
    rw [if_neg (by simp [whole])]
    cases entered : writeFileIndex (indexing environment
      faults.indexWriteFails) (file.updateFileHash params).fileHash filePos
      (writeStepwise params (file.serialize params) faults filePos reached).2
      with
    | none =>
        have fails := indexed.mp entered
        exact ⟨iff_of_true rfl (.inr (.inr (.inr fails))), fun _ => table⟩
    | some _ =>
        have works := mt indexed.mpr (entered ▸ Option.some_ne_none _)
        refine ⟨iff_of_false (by simp) ?_, fun refused => by cases refused⟩
        rintro (opens | ftell | short | index)
        · exact others (.inl opens)
        · exact others (.inr (.inl ftell))
        · exact others (.inr (.inr short))
        · exact works index
  · rw [if_pos (by simpa using whole)]
    refine ⟨iff_of_true rfl ?_, fun _ => table⟩
    rcases not_not.mp (mt wrote.mpr whole) with opens | ftell | short
    · exact .inl opens
    · exact .inr (.inl ftell)
    · exact .inr (.inr (.inl short))

/-- A file that is not too large is saved unless a step fails, and then the
table is not the one before. -/
theorem saveFileStepwise_small (environment : Environment)
    (faults : SaveFaults) (state : RepositoryState) {params : Params}
    {file : CDBFile}
    (small : ¬ getRepositoryFileSize params file > maxFileBlockFileSize) :
    ((saveFileStepwise params environment faults file state).1 = false ↔
        StepFails params environment faults file state.table) ∧
      ((saveFileStepwise params environment faults file state).1 = false →
        (saveFileStepwise params environment faults file state).2.table ≠
          state.table) := by
  obtain ⟨changed, full⟩ := allocateStepwise_changes environment faults state
    small
  rcases allocation : allocateStepwise environment faults
    (getRepositoryFileSize params file) state with ⟨_ | filePos, reached⟩
  · simp only [allocation, true_iff] at changed full
    rw [saveFileStepwise, allocation]
    exact ⟨iff_of_true rfl (.inl full), fun _ => changed⟩
  · simp only [allocation, reduceCtorEq, false_iff] at changed full
    obtain ⟨failed, table⟩ := saveFileStepwise_placed allocation
    rw [StepFails, or_iff_right full]
    exact ⟨failed, fun refused => table refused ▸ changed⟩

/-- A save that fails leaves the repository as it was exactly where the file
is too large, or no step can fail. -/
theorem failed_save_unchanged_iff (params : Params)
    (environment : Environment) (faults : SaveFaults) (file : CDBFile)
    (state : RepositoryState) :
    ((saveFileStepwise params environment faults file state).1 = false →
      (saveFileStepwise params environment faults file state).2.table =
          state.table ∧
        (saveFileStepwise params environment faults file
          state).2.dbFileRepositoryState = state.dbFileRepositoryState) ↔
      getRepositoryFileSize params file > maxFileBlockFileSize ∨
        ¬ StepFails params environment faults file state.table := by
  by_cases large : getRepositoryFileSize params file > maxFileBlockFileSize
  · refine iff_of_true (fun _ => ?_) (.inl large)
    rw [saveFileStepwise, allocateStepwise_large large]
    exact ⟨rfl, rfl⟩
  · obtain ⟨failed, changed⟩ := saveFileStepwise_small environment faults
      state large
    constructor
    · intro unchanged
      refine .inr fun fails => ?_
      exact changed (failed.mpr fails) (unchanged (failed.mpr fails)).1
    · rintro (_ | steps) refused
      · contradiction
      · exact absurd (failed.mp refused) steps

/-- A disk without any space, on which nothing else fails. -/
def fullDisk : Environment := ⟨1, 1, 0, false, false⟩

def noFaults : SaveFaults := ⟨false, false, false, false, 1000, false⟩

/-- The first file that is refused for want of space is counted all the
same. -/
theorem refused_file_is_counted :
    (saveFileStepwise sampleParams fullDisk noFaults sampleFile
        (emptyRepository 0 1)).1 = false ∧
      (emptyRepository 0 1).table.current.nFilesCount = 0 ∧
      (saveFileStepwise sampleParams fullDisk noFaults sampleFile
        (emptyRepository 0 1)).2.table.current.nFilesCount = 1 := by
  decide +kernel

end PrivateDatagram.Repository.SaveFailures
