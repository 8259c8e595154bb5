import Std.Data.ExtTreeMap
import PrivateDatagram.Repository.Records

/-!
# The file repository manager

Files are appended to numbered block files.  A LevelDB tree maps the hash of
a file to its position, and the manager keeps a vector of block infos next to
a record of global counters.

LevelDB is a set of ordered maps and the file system a partial map from paths
to bytes.  What a call reads from outside the repository (clocks, free space,
whether a block file opens and the index accepts a write) is its
`Environment`.  A member function that reports failure still leaves its state
changes behind, so each operation returns its verdict beside the new state.
-/

namespace PrivateDatagram.Repository.Manager

open Library.ByteFormat Library.ByteStore Wire.Serialize Records

/-!
## Constants

The large constants, and what is computed from them, are unfolded on demand
only: reducing 32-bit arithmetic with an unknown operand counts in unary.
-/

/-- `MAX_FILEBLOCKFILE_SIZE`, 256 MiB. -/
@[irreducible]
def maxFileBlockFileSize : UInt32 := 0x10000000

/-- `FILEBLOCKFILE_CHUNK_SIZE`, 32 MiB. -/
@[irreducible]
def fileBlockFileChunkSize : UInt32 := 0x2000000

/-- `nMinDiskSpace`, 50 MiB. -/
@[irreducible]
def nMinDiskSpace : UInt64 := 52428800

theorem toNat_maxFileBlockFileSize :
    maxFileBlockFileSize.toNat = 0x10000000 := by
  unfold maxFileBlockFileSize
  rfl

/-- `REMOVED_FILES_SIZE_SHRINK_PERCENT`. -/
def removedFilesSizeShrinkPercent : UInt64 := 10

/-! ## Metadata -/

structure CFileRepositoryBlockInfo where
  nBlockSize : UInt32
  nFilesCount : UInt32
  firstWriteTime : Int
  lastWriteTime : Int
  isFull : Bool
deriving DecidableEq, Repr

namespace CFileRepositoryBlockInfo

/-- `SetNull`, which stamps the info with the current time. -/
def null (time : Int) : CFileRepositoryBlockInfo :=
  ⟨0, 0, 0, time, false⟩

def isBlockFileEmpty (info : CFileRepositoryBlockInfo) : Bool :=
  info.nBlockSize = 0 && info.nFilesCount = 0

def addFile (time : Int) (nAddSize : UInt32)
    (info : CFileRepositoryBlockInfo) : CFileRepositoryBlockInfo :=
  { info with
    firstWriteTime :=
      if info.nFilesCount = 0 then time else info.firstWriteTime
    nFilesCount := info.nFilesCount + 1
    nBlockSize := info.nBlockSize + nAddSize
    lastWriteTime := time }

def subtractFile (time : Int) (nBytesSize : UInt32)
    (info : CFileRepositoryBlockInfo) : CFileRepositoryBlockInfo :=
  if info.nFilesCount = 0 || nBytesSize > info.nBlockSize then
    info
  else
    { info with
      nBlockSize := info.nBlockSize - nBytesSize
      nFilesCount := info.nFilesCount - 1
      lastWriteTime := time }

end CFileRepositoryBlockInfo

/-- The position of a file; the null position is never stored. -/
structure CFileRepositoryBlockDiskPos where
  nBlockFileIndex : Nat
  nOffset : UInt32
  nFileSize : UInt32
deriving DecidableEq, Repr

structure CDBFileRepositoryState where
  nTotalFileStorageSize : UInt64
  nBlocksCount : UInt32
  filesCount : UInt32
  removeCandidatesTotalSize : UInt64
  removeCandidatesFilesCount : UInt32
deriving DecidableEq, Repr

namespace CDBFileRepositoryState

def null : CDBFileRepositoryState := ⟨0, 0, 0, 0, 0⟩

@[irreducible]
def addFile (fileSize : UInt64) (counters : CDBFileRepositoryState) :
    CDBFileRepositoryState :=
  { counters with
    nTotalFileStorageSize := counters.nTotalFileStorageSize + fileSize
    filesCount := counters.filesCount + 1 }

@[irreducible]
def subtractFile (fileSize : UInt64) (counters : CDBFileRepositoryState) :
    CDBFileRepositoryState :=
  { counters with
    removeCandidatesTotalSize :=
      counters.removeCandidatesTotalSize + fileSize
    removeCandidatesFilesCount := counters.removeCandidatesFilesCount + 1 }

def isClearDiskSpaceNeeded (counters : CDBFileRepositoryState) : Bool :=
  counters.removeCandidatesTotalSize >
    removedFilesSizeShrinkPercent * counters.nTotalFileStorageSize / 100

end CDBFileRepositoryState

structure FileRepositoryBlockSyncState where
  isSync : Bool
  nProcessedSourceBlocks : Int
  nProcessedTempBlocks : Int
deriving DecidableEq, Repr

def FileRepositoryBlockSyncState.null : FileRepositoryBlockSyncState :=
  ⟨false, -1, -1⟩

/--
The infos of the block files together with the number of the last block.  The
two are only ever changed together: the last block is the end of the vector.
-/
structure BlockTable where
  vblockFileInfo : List CFileRepositoryBlockInfo
  lastBlockFileIndex : Nat
  last : lastBlockFileIndex + 1 = vblockFileInfo.length
deriving DecidableEq

namespace BlockTable

/-- `vblockFileInfo[lastBlockFileIndex]`. -/
def current (table : BlockTable) : CFileRepositoryBlockInfo :=
  table.vblockFileInfo.get
    ⟨table.lastBlockFileIndex, by rw [← table.last]; exact Nat.lt_succ_self _⟩

/-- A vector with the info of one empty block. -/
def single (time : Int) : BlockTable :=
  ⟨[.null time], 0, rfl⟩

def modifyAt (number : Nat)
    (change : CFileRepositoryBlockInfo → CFileRepositoryBlockInfo)
    (table : BlockTable) : BlockTable where
  vblockFileInfo := table.vblockFileInfo.modify number change
  lastBlockFileIndex := table.lastBlockFileIndex
  last := by rw [List.length_modify]; exact table.last

def modifyLast
    (change : CFileRepositoryBlockInfo → CFileRepositoryBlockInfo)
    (table : BlockTable) : BlockTable :=
  table.modifyAt table.lastBlockFileIndex change

def emplaceBack (info : CFileRepositoryBlockInfo) (table : BlockTable) :
    BlockTable where
  vblockFileInfo := table.vblockFileInfo ++ [info]
  lastBlockFileIndex := table.vblockFileInfo.length
  last := by rw [List.length_append, List.length_singleton]

end BlockTable

/-! ## The database and the disk -/

/-- LevelDB compares keys byte by byte. -/
def keyOrder (left right : UInt256) : Ordering :=
  compareOn (fun hash : UInt256 => littleEndian 32 hash.toNat) left right

instance : Std.TransCmp keyOrder :=
  inferInstanceAs (Std.TransCmp
    (compareOn fun hash : UInt256 => littleEndian 32 hash.toNat))

theorem keyOrder_eq {left right : UInt256}
    (equal : keyOrder left right = .eq) : left = right := by
  have bytes :
      littleEndian 32 left.toNat = littleEndian 32 right.toNat :=
    Std.LawfulEqOrd.eq_of_compare equal
  have fits (hash : UInt256) : hash.toNat % 256 ^ 32 = hash.toNat :=
    Nat.mod_eq_of_lt hash.isLt
  have numbers := congrArg ofLittleEndian bytes
  rw [ofLittleEndian_littleEndian, ofLittleEndian_littleEndian, fits,
    fits] at numbers
  exact BitVec.eq_of_toNat_eq numbers

instance : Std.LawfulEqCmp keyOrder where
  eq_of_compare := keyOrder_eq

/-- `CBlockFileTreeDB`, one map or cell per kind of key. -/
structure CBlockFileTreeDB where
  fileIndex : Std.ExtTreeMap UInt256 CFileRepositoryBlockDiskPos keyOrder
  fileRepositoryBlockInfo : Std.ExtTreeMap Nat CFileRepositoryBlockInfo
  lastFileRepositoryBlock : Option Nat
  fileRepositoryBlockSyncState : Option FileRepositoryBlockSyncState
  dbFileRepositoryState : Option CDBFileRepositoryState

/-- The two families of files in the `files` directory. -/
inductive BlockPath where
  | blk (number : Nat)
  | tmpBlk (number : Nat)
deriving DecidableEq, Repr

/-- `GetTmpFilePosFilename` or `GetFilePosFilename`. -/
def filePosFilename (number : Nat) (isTmp : Bool) : BlockPath :=
  if isTmp then .tmpBlk number else .blk number

abbrev Disk := BlockPath → Option Bytes

/-- Open for writing, which creates a missing file, and change the content. -/
def Disk.edit (path : BlockPath) (change : Bytes → Bytes) (disk : Disk) :
    Disk :=
  Function.update disk path (some (change ((disk path).getD [])))

structure RepositoryState where
  /-- `vFileRepositoryBlockInfo` and `nLastFileRepositoryBlock`. -/
  table : BlockTable
  dbFileRepositoryState : CDBFileRepositoryState
  lastUpdateTime : Int
  pblockfiletree : CBlockFileTreeDB
  disk : Disk

/-- What a call depends on besides the repository. -/
structure Environment where
  /-- `GetTimeMillis() / 1000`. -/
  time : Int
  /-- `GetAdjustedTime()`. -/
  adjustedTime : Int
  nFreeBytesAvailable : UInt64
  /-- Whether `OpenDiskFile` fails on an existing or creatable file. -/
  openFails : Bool
  /-- Whether LevelDB refuses a write to the file index. -/
  indexWriteFails : Bool
deriving DecidableEq, Repr

@[irreducible]
def checkDiskSpace (environment : Environment) (nAdditionalBytes : UInt64) :
    Bool :=
  !(environment.nFreeBytesAvailable < nMinDiskSpace + nAdditionalBytes)

/-! ## Reading and writing records -/

/-- `ReadFileBlockFromDiskTo`. -/
def readFileBlockFromDiskTo {α : Type} (params : Params)
    (object : Decoder α) (environment : Environment)
    (pos : CFileRepositoryBlockDiskPos) (isTmp : Bool)
    (state : RepositoryState) : Option α :=
  if environment.openFails then
    none
  else
    match state.disk (filePosFilename pos.nBlockFileIndex isTmp) with
    | none => none
    | some content =>
        match readDiskRecord params object
            (content.drop pos.nOffset.toNat) with
        | .error _ => none
        | .ok (value, _) => some value

def readFileBlockFromDisk (params : Params) (environment : Environment)
    (pos : CFileRepositoryBlockDiskPos) (isTmp : Bool)
    (state : RepositoryState) : Option CDBFile :=
  readFileBlockFromDiskTo params CDBFile.format.decode environment pos isTmp
    state

def readFileBlockHeaderFromDisk (params : Params)
    (environment : Environment) (pos : CFileRepositoryBlockDiskPos)
    (isTmp : Bool) (state : RepositoryState) : Option CDBFileHeaderOnly :=
  readFileBlockFromDiskTo params CDBFileHeaderOnly.format.decode environment
    pos isTmp state

/-- `WriteFileRepositoryBlockToDiskFrom`, for an object already serialized. -/
def writeFileRepositoryBlockToDiskFrom (params : Params) (object : Bytes)
    (environment : Environment) (pos : CFileRepositoryBlockDiskPos)
    (isTmp : Bool) (state : RepositoryState) : Option RepositoryState :=
  if environment.openFails then
    none
  else
    some { state with
      disk := state.disk.edit (filePosFilename pos.nBlockFileIndex isTmp)
        (overwrite pos.nOffset.toNat (diskRecord params object)) }

/-- `GetRepositoryFileSize`: message start, size field and file. -/
def getRepositoryFileSize (params : Params) (file : CDBFile) : UInt32 :=
  UInt32.ofNat (file.serialize params).length + 4 + 4

/-! ## Allocation -/

/-- `FlushFileRepositoryBlock` with `fFinalize`: cut the file to its size. -/
def flushFileRepositoryBlock (environment : Environment)
    (nLastBlockIndex : Nat) (nLastBlockSize : UInt32) (isTmp : Bool)
    (state : RepositoryState) : RepositoryState :=
  if environment.openFails then
    state
  else
    { state with
      disk := state.disk.edit (filePosFilename nLastBlockIndex isTmp)
        (truncateTo nLastBlockSize.toNat) }

/-- The last block has no room left: close it and open the next one. -/
def startNewBlock (environment : Environment) (isTmp : Bool)
    (table : BlockTable) (state : RepositoryState) :
    BlockTable × RepositoryState :=
  let state := flushFileRepositoryBlock environment
    table.lastBlockFileIndex table.current.nBlockSize isTmp state
  let table :=
    (table.modifyLast fun info => { info with isFull := true }).emplaceBack
      (.null environment.time)
  (table, { state with
    dbFileRepositoryState :=
      { state.dbFileRepositoryState with
        nBlocksCount := UInt32.ofNat table.vblockFileInfo.length } })

/-- `AllocateFileRange` on the block file, up to a position. -/
def allocateFileRange (environment : Environment) (number : Nat)
    (isTmp : Bool) (endPosition : UInt32) (state : RepositoryState) :
    RepositoryState :=
  if environment.openFails then
    state
  else
    { state with
      disk := state.disk.edit (filePosFilename number isTmp)
        (extendTo endPosition.toNat) }

/-- The number of chunks that hold `size` bytes. -/
@[irreducible]
def chunks (size : UInt32) : UInt32 :=
  (size + fileBlockFileChunkSize - 1) / fileBlockFileChunkSize

/-- Go on to a new block when the file would fill the last one. -/
def makeRoom (environment : Environment) (nAddSize : UInt32) (isTmp : Bool)
    (table : BlockTable) (state : RepositoryState) :
    BlockTable × RepositoryState :=
  if table.current.nBlockSize + nAddSize ≥ maxFileBlockFileSize then
    startNewBlock environment isTmp table state
  else
    (table, state)

/-- Put the file at the end of the last block and enlarge the block file. -/
def placeFile (environment : Environment) (nAddSize : UInt32) (isTmp : Bool)
    (table : BlockTable) (state : RepositoryState) :
    Option CFileRepositoryBlockDiskPos × BlockTable × RepositoryState :=
  let pos : CFileRepositoryBlockDiskPos :=
    ⟨table.lastBlockFileIndex, table.current.nBlockSize, nAddSize⟩
  let table := table.modifyLast (·.addFile environment.time nAddSize)
  let nOldChunks := chunks pos.nOffset
  let nNewChunks := chunks table.current.nBlockSize
  let endPosition := nNewChunks * fileBlockFileChunkSize
  if nNewChunks > nOldChunks then
    if !checkDiskSpace environment (endPosition - pos.nOffset).toUInt64 then
      (none, table, state)
    else
      (some pos, table,
        allocateFileRange environment pos.nBlockFileIndex isTmp endPosition
          state)
  else
    (some pos, table, state)

/-- `FindAndAllocateBlockFile`; no position means that it failed. -/
def findAndAllocateBlockFile (environment : Environment) (nAddSize : UInt32)
    (isTmp : Bool) (table : BlockTable) (state : RepositoryState) :
    Option CFileRepositoryBlockDiskPos × BlockTable × RepositoryState :=
  if nAddSize > maxFileBlockFileSize then
    (none, table, state)
  else
    let room := makeRoom environment nAddSize isTmp table state
    placeFile environment nAddSize isTmp room.1 room.2

/-! ## Saving, erasing and reading files -/

def writeFileIndex (environment : Environment) (fileHash : UInt256)
    (pos : CFileRepositoryBlockDiskPos) (state : RepositoryState) :
    Option RepositoryState :=
  if environment.indexWriteFails then
    none
  else
    some { state with
      pblockfiletree := { state.pblockfiletree with
        fileIndex := state.pblockfiletree.fileIndex.insert fileHash pos } }

def eraseFileIndex (environment : Environment) (fileHash : UInt256)
    (state : RepositoryState) : Option RepositoryState :=
  if environment.indexWriteFails then
    none
  else
    some { state with
      pblockfiletree := { state.pblockfiletree with
        fileIndex := state.pblockfiletree.fileIndex.erase fileHash } }

def countAddedFile (fileSize : UInt32) (state : RepositoryState) :
    RepositoryState :=
  { state with
    dbFileRepositoryState :=
      state.dbFileRepositoryState.addFile fileSize.toUInt64 }

def countRemovedFile (fileSize : UInt32) (state : RepositoryState) :
    RepositoryState :=
  { state with
    dbFileRepositoryState :=
      state.dbFileRepositoryState.subtractFile fileSize.toUInt64 }

/-- `FindAndAllocateBlockFile` on the manager's own table. -/
@[irreducible]
def allocate (environment : Environment) (nDBFileSize : UInt32)
    (state : RepositoryState) :
    Option CFileRepositoryBlockDiskPos × RepositoryState :=
  let result := findAndAllocateBlockFile environment nDBFileSize false
    state.table state
  (result.1, { result.2.2 with table := result.2.1 })

/--
`SaveFile`.  Measuring the file refreshes its hash, so it is stored and
indexed under the hash of its content.
-/
def saveFile (params : Params) (environment : Environment) (file : CDBFile)
    (state : RepositoryState) : Bool × RepositoryState :=
  let nRepositoryFileSize := getRepositoryFileSize params file
  let file := file.updateFileHash params
  match allocate environment nRepositoryFileSize state with
  | (none, state) => (false, state)
  | (some filePos, state) =>
      match writeFileRepositoryBlockToDiskFrom params (file.serialize params)
          environment filePos false state with
      | none => (false, state)
      | some state =>
          match writeFileIndex environment file.fileHash filePos state with
          | none => (false, state)
          | some state => (true, countAddedFile nRepositoryFileSize state)

/-- `RemoveFileRepositoryBlockFromDisk` of a position. -/
def removeFileRepositoryBlockFromDisk (params : Params)
    (environment : Environment) (pos : CFileRepositoryBlockDiskPos)
    (state : RepositoryState) : Option RepositoryState :=
  match readFileBlockFromDisk params environment pos false state with
  | none => none
  | some file =>
      writeFileRepositoryBlockToDiskFrom params
        ({ file with removed := true }.serialize params) environment pos false
        state

/-- `EraseFile`, which looks the file up under the hash it is given with. -/
def eraseFile (params : Params) (environment : Environment) (file : CDBFile)
    (state : RepositoryState) : Bool × RepositoryState :=
  match state.pblockfiletree.fileIndex[file.fileHash]? with
  | none => (false, state)
  | some pos =>
      match eraseFileIndex environment file.fileHash state with
      | none => (false, state)
      | some state =>
          match removeFileRepositoryBlockFromDisk params environment pos
              state with
          | none => (false, state)
          | some state =>
              (true, countRemovedFile (getRepositoryFileSize params file) state)

def getFile (params : Params) (environment : Environment)
    (fileHash : UInt256) (state : RepositoryState) : Option CDBFile :=
  match state.pblockfiletree.fileIndex[fileHash]? with
  | none => none
  | some posFile =>
      readFileBlockFromDisk params environment posFile false state

/-! ## Recycling -/

/-- What recycling does to one index entry; `none` ends the pass. -/
def recycleEntry (params : Params) (environment : Environment)
    (pos : CFileRepositoryBlockDiskPos) (state : RepositoryState) :
    Option RepositoryState :=
  match readFileBlockHeaderFromDisk params environment pos false state with
  | none => none
  | some fileHeader =>
      if fileHeader.removed then
        some state
      else if environment.adjustedTime > fileHeader.fileExpiredDate.toNat ∧
          !fileHeader.isMine then
        match writeFileRepositoryBlockToDiskFrom params
            { fileHeader with removed := true }.serialize environment pos false
            state with
        | none => none
        | some state => some (countRemovedFile pos.nFileSize state)
      else
        some state

def recycleEntries (params : Params) (environment : Environment) :
    List CFileRepositoryBlockDiskPos → RepositoryState →
      Bool × RepositoryState
  | [], state => (true, state)
  | pos :: rest, state =>
      match recycleEntry params environment pos state with
      | none => (false, state)
      | some state => recycleEntries params environment rest state

/-- The positions in the index, in the order of a LevelDB cursor. -/
def indexedPositions (state : RepositoryState) :
    List CFileRepositoryBlockDiskPos :=
  state.pblockfiletree.fileIndex.toList.map Prod.snd

/--
`FindAndRecycleExpiredFiles`.  The source returns nothing; the verdict here
says whether the pass reached the end of the index.
-/
def findAndRecycleExpiredFiles (params : Params) (environment : Environment)
    (state : RepositoryState) : Bool × RepositoryState :=
  recycleEntries params environment (indexedPositions state) state

/-! ## Saving the manager's own state -/

/-- The infos written since the manager was constructed. -/
def saveBlockInfos (lastUpdateTime : Int) :
    Nat → List CFileRepositoryBlockInfo →
      Std.ExtTreeMap Nat CFileRepositoryBlockInfo →
      Bool × Std.ExtTreeMap Nat CFileRepositoryBlockInfo
  | _, [], stored => (false, stored)
  | nFile, info :: rest, stored =>
      if info.lastWriteTime ≤ lastUpdateTime then
        saveBlockInfos lastUpdateTime (nFile + 1) rest stored
      else
        (true, (saveBlockInfos lastUpdateTime (nFile + 1) rest
          (stored.insert nFile info)).2)

/-- `SaveManagerState`. -/
def saveManagerState (table : BlockTable) (state : RepositoryState) :
    RepositoryState :=
  let tree := state.pblockfiletree
  let saved := saveBlockInfos state.lastUpdateTime 0 table.vblockFileInfo
    tree.fileRepositoryBlockInfo
  let counters :=
    { state.dbFileRepositoryState with
      nBlocksCount := UInt32.ofNat (table.lastBlockFileIndex + 1) }
  { state with
    dbFileRepositoryState := counters
    pblockfiletree :=
      { tree with
        fileRepositoryBlockInfo := saved.2
        lastFileRepositoryBlock :=
          if saved.1 then some table.lastBlockFileIndex
          else tree.lastFileRepositoryBlock
        dbFileRepositoryState := some counters } }

/--
The repository of a node that starts for the first time: what
`LoadManagerState` sets up over an empty database and an empty directory.
-/
def emptyRepository (lastUpdateTime time : Int) : RepositoryState where
  table := .single time
  dbFileRepositoryState := { CDBFileRepositoryState.null with nBlocksCount := 1 }
  lastUpdateTime := lastUpdateTime
  pblockfiletree :=
    { fileIndex := ∅
      fileRepositoryBlockInfo :=
        Std.ExtTreeMap.insert ∅ 0 (CFileRepositoryBlockInfo.null time)
      lastFileRepositoryBlock := some 0
      fileRepositoryBlockSyncState := some .null
      dbFileRepositoryState :=
        some { CDBFileRepositoryState.null with nBlocksCount := 1 } }
  disk := fun _ => none

end PrivateDatagram.Repository.Manager
