import PrivateDatagram.Repository.Allocation

/-!
# Index and block files agree

`Coherent` is the invariant of the repository: every index entry points at a
record of a file with that hash, inside its block and apart from every other
indexed record.  Saving, erasing and recycling keep it.  Its part `Readable`
says nothing of the infos of the blocks.

Seen through the index the repository is a partial map from hashes to files.
The results below say what each operation does to that map: `saveFile`
replaces one value, `eraseFile` removes one, and recycling marks the expired
foreign files as removed and touches nothing else.
-/

namespace PrivateDatagram.Repository.StoredFiles

open Library.ByteFormat Library.ByteStore Wire.Serialize Records Manager
  Allocation

/-! ## Files at positions -/

/-- The extent is filled by a readable record of the file. -/
def HoldsFile (params : Params) (disk : Disk)
    (pos : CFileRepositoryBlockDiskPos) (file : CDBFile) : Prop :=
  Admitted file ∧ ∃ bytes, FileRecord params file bytes ∧
    Stored disk pos bytes

theorem HoldsFile.read {params : Params} {environment : Environment}
    {state : RepositoryState} {pos : CFileRepositoryBlockDiskPos}
    {file : CDBFile} (holds : HoldsFile params state.disk pos file)
    (opens : environment.openFails = false) :
    readFileBlockFromDisk params environment pos false state =
      some file := by
  rcases holds with ⟨admitted, bytes, record, _, content, found, here⟩
  have decoded := record.read_file admitted
    (content.drop (pos.nOffset.toNat + bytes.length))
  rw [← here.drop_eq] at decoded
  rw [readFileBlockFromDisk, readFileBlockFromDiskTo, opens, if_neg (by simp),
    filePosFilename, if_neg (by simp), found]
  dsimp only
  rw [decoded]

theorem HoldsFile.readHeader {params : Params} {environment : Environment}
    {state : RepositoryState} {pos : CFileRepositoryBlockDiskPos}
    {file : CDBFile} (holds : HoldsFile params state.disk pos file)
    (opens : environment.openFails = false) :
    readFileBlockHeaderFromDisk params environment pos false state =
      some file.header := by
  rcases holds with ⟨_, bytes, record, _, content, found, here⟩
  have decoded := record.read_header
    (content.drop (pos.nOffset.toNat + bytes.length))
  rw [← here.drop_eq] at decoded
  rw [readFileBlockHeaderFromDisk, readFileBlockFromDiskTo, opens,
    if_neg (by simp), filePosFilename, if_neg (by simp), found]
  dsimp only
  rw [decoded]

/-! ## Rewriting in place -/

/-- Only the extent of `pos` may have changed. -/
def OnlyChangedAt (pos : CFileRepositoryBlockDiskPos) (disk disk' : Disk) :
    Prop :=
  ∀ other bytes, DisjointExtents other pos → Stored disk other bytes →
    Stored disk' other bytes

theorem OnlyChangedAt.holdsFile {params : Params} {disk disk' : Disk}
    {pos other : CFileRepositoryBlockDiskPos} {file : CDBFile}
    (changed : OnlyChangedAt pos disk disk')
    (apart : DisjointExtents other pos)
    (holds : HoldsFile params disk other file) :
    HoldsFile params disk' other file := by
  rcases holds with ⟨admitted, bytes, record, stored⟩
  exact ⟨admitted, bytes, record, changed other bytes apart stored⟩

theorem onlyChangedAt_overwrite {pos : CFileRepositoryBlockDiskPos}
    {data : Bytes} (short : data.length ≤ pos.nFileSize.toNat)
    (disk : Disk) :
    OnlyChangedAt pos disk
      (disk.edit (.blk pos.nBlockFileIndex)
        (overwrite pos.nOffset.toNat data)) := by
  intro other bytes apart stored
  apply stored_edit stored
  intro same content here
  apply here.overwrite_disjoint
  rw [stored.1]
  rcases apart same with before | after
  · exact .inl before
  · exact .inr (Nat.le_trans (Nat.add_le_add_left short _) after)

/-- Writing a record that fills the extent. -/
theorem holdsFile_write {params : Params} {file : CDBFile}
    {pos : CFileRepositoryBlockDiskPos} {bytes : Bytes}
    (admitted : Admitted file) (record : FileRecord params file bytes)
    (length : bytes.length = pos.nFileSize.toNat) (disk : Disk) :
    HoldsFile params
      (disk.edit (.blk pos.nBlockFileIndex)
        (overwrite pos.nOffset.toNat bytes)) pos file := by
  refine ⟨admitted, bytes, record, length, _, Function.update_self _ _ _, ?_⟩
  exact storedAt_overwrite _ _ _

/-- Writing a header over the front of a record. -/
theorem HoldsFile.writeHeader {params : Params} {disk : Disk}
    {pos : CFileRepositoryBlockDiskPos} {file : CDBFile}
    (holds : HoldsFile params disk pos file) (header : CDBFileHeaderOnly) :
    HoldsFile params
      (disk.edit (.blk pos.nBlockFileIndex)
        (overwrite pos.nOffset.toNat (diskRecord params header.serialize)))
      pos
      ⟨header.fileHash, header.fileExpiredDate, header.isMine,
        header.removed, file.vBytes⟩ := by
  rcases holds with ⟨admitted, bytes, record, length, content, found, here⟩
  rcases record.overwrite_header here header with
    ⟨bytes', record', sameLength, here'⟩
  refine ⟨admitted, bytes', record', sameLength.trans length, _, ?_, here'⟩
  rw [Disk.edit, Function.update_self, found]
  rfl

theorem HoldsFile.length {params : Params} {disk : Disk}
    {pos : CFileRepositoryBlockDiskPos} {file : CDBFile}
    (holds : HoldsFile params disk pos file) :
    pos.nFileSize.toNat = 8 + (CDBFile.format.encode file).length := by
  rcases holds with ⟨_, bytes, record, length, _⟩
  rw [← length]
  exact record.length

/-- The record of a file and its header record fit where the file stood. -/
theorem HoldsFile.header_short {params : Params} {disk : Disk}
    {pos : CFileRepositoryBlockDiskPos} {file : CDBFile}
    (holds : HoldsFile params disk pos file) (header : CDBFileHeaderOnly) :
    (diskRecord params header.serialize).length ≤ pos.nFileSize.toNat := by
  have size (value : UInt32) : (uint32.encode value).length = 4 :=
    length_littleEndian 4 _
  have whole : CDBFile.format.encode file =
      file.header.serialize ++ blob.encode file.vBytes := rfl
  rw [holds.length, whole, diskRecord]
  simp only [List.length_append, header_serialize_length, size,
    params.messageStart_length]
  omega

/-! ## The repository as a map -/

/-- A call during which nothing outside the repository fails. -/
def steady : Environment := ⟨0, 0, 0, false, false⟩

/-- The file that `getFile` finds under each hash. -/
def contents (params : Params) (state : RepositoryState)
    (hash : UInt256) : Option CDBFile :=
  getFile params steady hash state

theorem getFile_eq_contents {environment : Environment}
    (opens : environment.openFails = false) (params : Params)
    (state : RepositoryState) (hash : UInt256) :
    getFile params environment hash state = contents params state hash := by
  have steadyOpens : steady.openFails = false := rfl
  simp only [contents, getFile, readFileBlockFromDisk,
    readFileBlockFromDiskTo, opens, steadyOpens]

/-- The index entry of a hash. -/
def Indexed (state : RepositoryState) (hash : UInt256)
    (pos : CFileRepositoryBlockDiskPos) : Prop :=
  state.pblockfiletree.fileIndex[hash]? = some pos

theorem contents_of_indexed (params : Params) {state : RepositoryState}
    {hash : UInt256} {pos : CFileRepositoryBlockDiskPos}
    (indexed : Indexed state hash pos) :
    contents params state hash =
      readFileBlockFromDisk params steady pos false state := by
  rw [contents, getFile, indexed]

theorem contents_of_holds {params : Params} {state : RepositoryState}
    {hash : UInt256} {pos : CFileRepositoryBlockDiskPos} {file : CDBFile}
    (indexed : Indexed state hash pos)
    (holds : HoldsFile params state.disk pos file) :
    contents params state hash = some file := by
  rw [contents_of_indexed params indexed]
  exact holds.read rfl

theorem contents_of_absent (params : Params) {state : RepositoryState}
    {hash : UInt256}
    (absent : state.pblockfiletree.fileIndex[hash]? = none) :
    contents params state hash = none := by
  rw [contents, getFile, absent]

/--
Each index entry points at a record of a file with that hash, apart from the
other indexed records.  Reading and recycling need no more than this.
-/
structure Readable (params : Params) (state : RepositoryState) : Prop where
  apart : ∀ left right leftPos rightPos, left ≠ right →
    Indexed state left leftPos → Indexed state right rightPos →
    DisjointExtents leftPos rightPos
  held : ∀ hash pos, Indexed state hash pos →
    ∃ file, HoldsFile params state.disk pos file ∧ file.fileHash = hash ∧
      file.calcFileHash params = hash

/--
The index and the block files agree, and the infos of the blocks cover what
is indexed, so that the next file is placed behind it.
-/
structure Coherent (params : Params) (state : RepositoryState) : Prop
    extends Readable params state where
  bounded : BlocksBounded state.table
  inside : ∀ hash pos, Indexed state hash pos → InsideBlock state.table pos

/-- Fewer entries stay apart. -/
theorem Readable.restrict {params : Params} {state state' : RepositoryState}
    (readable : Readable params state)
    (old : ∀ hash pos, Indexed state' hash pos → Indexed state hash pos)
    (held : ∀ hash pos, Indexed state' hash pos →
      ∃ file, HoldsFile params state'.disk pos file ∧ file.fileHash = hash ∧
        file.calcFileHash params = hash) :
    Readable params state' := by
  refine ⟨?_, held⟩
  intro left right leftPos rightPos different leftIn rightIn
  exact readable.apart left right leftPos rightPos different
    (old _ _ leftIn) (old _ _ rightIn)

/-- Over the same table they also stay inside their blocks. -/
theorem Coherent.restrict {params : Params} {state state' : RepositoryState}
    (coherent : Coherent params state) (table : state'.table = state.table)
    (old : ∀ hash pos, Indexed state' hash pos → Indexed state hash pos)
    (readable : Readable params state') :
    Coherent params state' := by
  refine ⟨readable, ?_, ?_⟩
  · rw [table]
    exact coherent.bounded
  · intro hash pos indexed
    rw [table]
    exact coherent.inside hash pos (old hash pos indexed)

/-- Two states whose other entries are held alike have the same contents. -/
theorem contents_congr {params : Params} {state state' : RepositoryState}
    {hash : UInt256} (readable : Readable params state)
    (sameEntry : state'.pblockfiletree.fileIndex[hash]? =
      state.pblockfiletree.fileIndex[hash]?)
    (kept : ∀ pos file, Indexed state hash pos →
      HoldsFile params state.disk pos file →
        HoldsFile params state'.disk pos file) :
    contents params state' hash = contents params state hash := by
  cases found : state.pblockfiletree.fileIndex[hash]? with
  | none =>
      rw [contents_of_absent params found,
        contents_of_absent params (sameEntry.trans found)]
  | some pos =>
      rcases readable.held hash pos found with ⟨file, holds, _⟩
      rw [contents_of_holds found holds,
        contents_of_holds (sameEntry.trans found) (kept pos file found holds)]

/-! ## Sizes -/

theorem writeCompactSize_length (nSize : Nat) :
    (writeCompactSize nSize).length ≤ 9 := by
  unfold writeCompactSize
  split_ifs <;> simp

theorem encode_length (file : CDBFile) :
    (CDBFile.format.encode file).length =
      38 + ((writeCompactSize file.vBytes.length).length +
        file.vBytes.length) := by
  have whole : CDBFile.format.encode file =
      file.header.serialize ++
        (writeCompactSize file.vBytes.length ++ file.vBytes) := rfl
  rw [whole, List.length_append, header_serialize_length, List.length_append]

theorem diskRecord_serialize_length (params : Params) (file : CDBFile) :
    (diskRecord params (file.serialize params)).length =
      8 + (CDBFile.format.encode file).length := by
  have sameLength :
      (CDBFile.format.encode (file.updateFileHash params)).length =
        (CDBFile.format.encode file).length := by
    rw [encode_length, encode_length]
    rfl
  rw [(diskRecord_fileRecord params file).length, sameLength]

/-- An admitted file is measured without overflow. -/
theorem getRepositoryFileSize_toNat (params : Params) {file : CDBFile}
    (admitted : Admitted file) :
    (getRepositoryFileSize params file).toNat =
      (diskRecord params (file.serialize params)).length := by
  have recordLength := diskRecord_serialize_length params file
  have prefixLength := writeCompactSize_length file.vBytes.length
  have serialized : (file.serialize params).length + 8 =
      (diskRecord params (file.serialize params)).length := by
    have size (value : UInt32) : (uint32.encode value).length = 4 :=
      length_littleEndian 4 _
    simp only [diskRecord, List.length_append, size,
      params.messageStart_length]
    omega
  rw [Admitted, maxSize] at admitted
  rw [encode_length] at recordLength
  rw [getRepositoryFileSize, UInt32.toNat_add, UInt32.toNat_add,
    UInt32.toNat_ofNat']
  change (((file.serialize params).length % 2 ^ 32 + 4) % 2 ^ 32 + 4) %
    2 ^ 32 = _
  omega

/-! ## What the elementary writes do -/

theorem write_some {params : Params} {object : Bytes}
    {environment : Environment} {pos : CFileRepositoryBlockDiskPos}
    {state state' : RepositoryState}
    (written : writeFileRepositoryBlockToDiskFrom params object environment
      pos false state = some state') :
    environment.openFails = false ∧
      state' = { state with
        disk := state.disk.edit (.blk pos.nBlockFileIndex)
          (overwrite pos.nOffset.toNat (diskRecord params object)) } := by
  unfold writeFileRepositoryBlockToDiskFrom at written
  split_ifs at written with fails
  exact ⟨Bool.eq_false_iff.mpr fails, (Option.some.inj written).symm⟩

theorem writeFileIndex_some {environment : Environment} {hash : UInt256}
    {pos : CFileRepositoryBlockDiskPos} {state state' : RepositoryState}
    (written : writeFileIndex environment hash pos state = some state') :
    state' = { state with
      pblockfiletree := { state.pblockfiletree with
        fileIndex := state.pblockfiletree.fileIndex.insert hash pos } } := by
  unfold writeFileIndex at written
  split_ifs at written
  exact (Option.some.inj written).symm

theorem eraseFileIndex_some {environment : Environment} {hash : UInt256}
    {state state' : RepositoryState}
    (erased : eraseFileIndex environment hash state = some state') :
    state' = { state with
      pblockfiletree := { state.pblockfiletree with
        fileIndex := state.pblockfiletree.fileIndex.erase hash } } := by
  unfold eraseFileIndex at erased
  split_ifs at erased
  exact (Option.some.inj erased).symm

/-! ## Saving -/

theorem allocate_spec {environment : Environment} {nDBFileSize : UInt32}
    {state state' : RepositoryState}
    {result : Option CFileRepositoryBlockDiskPos}
    (bounded : BlocksBounded state.table)
    (found : allocate environment nDBFileSize state = (result, state')) :
    Kept state.table state.disk state'.table state'.disk ∧
      BlocksBounded state'.table ∧
      state'.pblockfiletree = state.pblockfiletree ∧
      ∀ pos, result = some pos →
        pos.nFileSize = nDBFileSize ∧ Fresh state.table state'.table pos := by
  rcases call : findAndAllocateBlockFile environment nDBFileSize false
    state.table state with ⟨reached, table, middle⟩
  rw [allocate, call] at found
  cases found
  have allocated := findAndAllocateBlockFile_spec bounded call
  exact ⟨allocated.kept, allocated.bounded, allocated.tree, allocated.fresh⟩

theorem allocate_size {environment : Environment} {nDBFileSize : UInt32}
    {state state' : RepositoryState} {pos : CFileRepositoryBlockDiskPos}
    (found : allocate environment nDBFileSize state = (some pos, state')) :
    pos.nFileSize = nDBFileSize := by
  rcases call : findAndAllocateBlockFile environment nDBFileSize false
    state.table state with ⟨reached, table, middle⟩
  rw [allocate, call] at found
  cases found
  exact findAndAllocateBlockFile_size call

/-- A save that succeeds went through all of its steps. -/
theorem saveFile_ok {params : Params} {environment : Environment}
    {file : CDBFile} {state state' : RepositoryState}
    (saved : saveFile params environment file state = (true, state')) :
    ∃ pos middle,
      allocate environment (getRepositoryFileSize params file) state =
        (some pos, middle) ∧
      state'.table = middle.table ∧
      state'.disk = middle.disk.edit (.blk pos.nBlockFileIndex)
        (overwrite pos.nOffset.toNat
          (diskRecord params (file.serialize params))) ∧
      state'.pblockfiletree.fileIndex =
        middle.pblockfiletree.fileIndex.insert (file.calcFileHash params)
          pos := by
  rcases call : allocate environment (getRepositoryFileSize params file)
    state with ⟨result, middle⟩
  rw [saveFile, call] at saved
  cases result with
  | none => cases saved
  | some pos =>
      refine ⟨pos, middle, rfl, ?_⟩
      dsimp only at saved
      split at saved
      · cases saved
      case h_2 written stored =>
        split at saved
        · cases saved
        case h_2 indexed entered =>
          cases saved
          have tree := writeFileIndex_some entered
          have disk := (write_some stored).2
          rw [serialize_updateFileHash] at disk
          subst tree disk
          exact ⟨rfl, rfl, rfl⟩

/-- Where a save puts its file, and what it does to the map of files. -/
structure Saved (params : Params) (file : CDBFile)
    (pos : CFileRepositoryBlockDiskPos) (state state' : RepositoryState) :
    Prop where
  coherent : Coherent params state'
  inside : ∀ other, InsideBlock state.table other →
    InsideBlock state'.table other
  fresh : Fresh state.table state'.table pos
  index : state'.pblockfiletree.fileIndex =
    state.pblockfiletree.fileIndex.insert (file.calcFileHash params) pos
  contents : contents params state' =
    Function.update (contents params state) (file.calcFileHash params)
      (some (file.updateFileHash params))

theorem getElem?_insert_of_ne {α : Type}
    {index : Std.ExtTreeMap UInt256 α keyOrder} {hash other : UInt256}
    {value : α} (different : hash ≠ other) :
    (index.insert other value)[hash]? = index[hash]? := by
  rw [Std.ExtTreeMap.getElem?_insert, if_neg]
  intro equal
  exact different (keyOrder_eq equal).symm

/-- A new entry behind everything else keeps the repository coherent. -/
theorem coherent_insert {params : Params} {state state' : RepositoryState}
    {hash : UInt256} {pos : CFileRepositoryBlockDiskPos}
    (coherent : Coherent params state)
    (bounded : BlocksBounded state'.table)
    (inside : ∀ other, InsideBlock state.table other →
      InsideBlock state'.table other)
    (fresh : Fresh state.table state'.table pos)
    (index : state'.pblockfiletree.fileIndex =
      state.pblockfiletree.fileIndex.insert hash pos)
    (others : ∀ other stored, InsideBlock state.table other →
      HoldsFile params state.disk other stored →
        HoldsFile params state'.disk other stored)
    (held : ∃ file, HoldsFile params state'.disk pos file ∧
      file.fileHash = hash ∧ file.calcFileHash params = hash) :
    Coherent params state' := by
  have cases_of : ∀ entry other, Indexed state' entry other →
      (entry = hash ∧ other = pos) ∨
        (entry ≠ hash ∧ Indexed state entry other) := by
    intro entry other indexed
    rw [Indexed, index] at indexed
    by_cases same : entry = hash
    · subst same
      rw [Std.ExtTreeMap.getElem?_insert_self] at indexed
      exact .inl ⟨rfl, (Option.some.inj indexed).symm⟩
    · rw [getElem?_insert_of_ne same] at indexed
      exact .inr ⟨same, indexed⟩
  refine ⟨⟨?_, ?_⟩, bounded, ?_⟩
  · intro left right leftPos rightPos different leftIn rightIn
    rcases cases_of left leftPos leftIn with ⟨rfl, rfl⟩ | ⟨_, leftOld⟩
    · rcases cases_of right rightPos rightIn with ⟨rfl, _⟩ | ⟨_, rightOld⟩
      · exact absurd rfl different
      · exact fresh.disjoint rightPos (coherent.inside _ _ rightOld)
    · rcases cases_of right rightPos rightIn with ⟨rfl, rfl⟩ | ⟨_, rightOld⟩
      · exact (fresh.disjoint leftPos (coherent.inside _ _ leftOld)).symm
      · exact coherent.apart left right _ _ different leftOld rightOld
  · intro entry other indexed
    rcases cases_of entry other indexed with ⟨rfl, rfl⟩ | ⟨_, old⟩
    · exact held
    · rcases coherent.held entry other old with ⟨file, holds, hashes⟩
      exact ⟨file, others other file (coherent.inside _ _ old) holds, hashes⟩
  · intro entry other indexed
    rcases cases_of entry other indexed with ⟨_, rfl⟩ | ⟨_, old⟩
    · exact fresh.inside
    · exact inside other (coherent.inside entry other old)

theorem saveFile_spec {params : Params} {environment : Environment}
    {file : CDBFile} {state state' : RepositoryState}
    (coherent : Coherent params state) (admitted : Admitted file)
    (saved : saveFile params environment file state = (true, state')) :
    ∃ pos middle,
      allocate environment (getRepositoryFileSize params file) state =
        (some pos, middle) ∧ Saved params file pos state state' := by
  rcases saveFile_ok saved with ⟨pos, middle, call, table, disk, index⟩
  rcases allocate_spec coherent.bounded call with
    ⟨kept, bounded, tree, handed⟩
  rcases handed pos rfl with ⟨size, fresh⟩
  rw [tree] at index
  rw [← table] at kept bounded fresh
  have length : (diskRecord params (file.serialize params)).length =
      pos.nFileSize.toNat := by
    rw [size, getRepositoryFileSize_toNat params admitted]
  have written : HoldsFile params state'.disk pos
      (file.updateFileHash params) := by
    have admitted' : Admitted (file.updateFileHash params) := admitted
    rw [disk]
    exact holdsFile_write admitted' (diskRecord_fileRecord params file) length
      middle.disk
  have others : ∀ other stored, InsideBlock state.table other →
      HoldsFile params state.disk other stored →
        HoldsFile params state'.disk other stored := by
    rintro other stored inside ⟨small, bytes, record, here⟩
    rw [disk]
    exact (onlyChangedAt_overwrite (Nat.le_of_eq length) middle.disk).holdsFile
      (fresh.disjoint other inside).symm
      ⟨small, bytes, record, kept.stored other bytes inside here⟩
  refine ⟨pos, middle, call, ?_, kept.inside, fresh, index, ?_⟩
  · exact coherent_insert coherent bounded kept.inside fresh index others
      ⟨_, written, rfl, rfl⟩
  · funext hash
    by_cases same : hash = file.calcFileHash params
    · subst same
      rw [Function.update_self]
      apply contents_of_holds _ written
      rw [Indexed, index, Std.ExtTreeMap.getElem?_insert_self]
    · rw [Function.update_of_ne same]
      apply contents_congr coherent.toReadable
      · rw [index, getElem?_insert_of_ne same]
      · intro other stored indexed
        exact others other stored (coherent.inside hash other indexed)

/-- Whatever the state, the file of a save is found afterwards. -/
theorem saveFile_contents {params : Params} {environment : Environment}
    {file : CDBFile} {state state' : RepositoryState}
    (admitted : Admitted file)
    (saved : saveFile params environment file state = (true, state')) :
    contents params state' (file.calcFileHash params) =
      some (file.updateFileHash params) := by
  rcases saveFile_ok saved with ⟨pos, middle, call, _, disk, index⟩
  have length : (diskRecord params (file.serialize params)).length =
      pos.nFileSize.toNat := by
    rw [allocate_size call, getRepositoryFileSize_toNat params admitted]
  have written : HoldsFile params state'.disk pos
      (file.updateFileHash params) := by
    rw [disk]
    exact holdsFile_write (show Admitted (file.updateFileHash params) from
      admitted) (diskRecord_fileRecord params file) length middle.disk
  apply contents_of_holds _ written
  rw [Indexed, index, Std.ExtTreeMap.getElem?_insert_self]

/-- A save that is given room and meets no failure reports success. -/
theorem saveFile_succeeds {params : Params} {environment : Environment}
    {file : CDBFile} {state middle : RepositoryState}
    {pos : CFileRepositoryBlockDiskPos}
    (call : allocate environment (getRepositoryFileSize params file) state =
      (some pos, middle))
    (opens : environment.openFails = false)
    (writes : environment.indexWriteFails = false) :
    (saveFile params environment file state).1 = true := by
  rw [saveFile, call]
  dsimp only
  rw [writeFileRepositoryBlockToDiskFrom, opens, if_neg (by simp)]
  dsimp only
  rw [writeFileIndex, writes, if_neg (by simp)]

/-! ## Erasing -/

theorem getElem?_erase {α : Type}
    (index : Std.ExtTreeMap UInt256 α keyOrder) (hash other : UInt256) :
    (index.erase other)[hash]? =
      if hash = other then none else index[hash]? := by
  rw [Std.ExtTreeMap.getElem?_erase]
  by_cases same : hash = other
  · subst same
    rw [if_pos Std.ReflCmp.compare_self, if_pos rfl]
  · rw [if_neg same, if_neg]
    intro equal
    exact same (keyOrder_eq equal).symm

/-- An erase that succeeds rewrote the record and dropped its entry. -/
theorem eraseFile_ok {params : Params} {environment : Environment}
    {file : CDBFile} {state state' : RepositoryState}
    (erased : eraseFile params environment file state = (true, state')) :
    ∃ pos stored,
      Indexed state file.fileHash pos ∧
      readFileBlockFromDisk params environment pos false state =
        some stored ∧
      environment.openFails = false ∧
      state'.table = state.table ∧
      state'.disk = state.disk.edit (.blk pos.nBlockFileIndex)
        (overwrite pos.nOffset.toNat
          (diskRecord params
            ({ stored with removed := true }.serialize params))) ∧
      state'.pblockfiletree.fileIndex =
        state.pblockfiletree.fileIndex.erase file.fileHash := by
  unfold eraseFile at erased
  split at erased
  · cases erased
  case h_2 pos indexed =>
    split at erased
    · cases erased
    case h_2 dropped entry =>
      have tree := eraseFileIndex_some entry
      subst tree
      split at erased
      · cases erased
      case h_2 marked removed =>
        unfold removeFileRepositoryBlockFromDisk at removed
        split at removed
        · cases removed
        case h_2 stored read =>
          rcases write_some removed with ⟨opens, disk⟩
          subst disk
          cases erased
          exact ⟨pos, stored, indexed, read, opens, rfl, rfl, rfl⟩

theorem eraseFile_spec {params : Params} {environment : Environment}
    {file : CDBFile} {state state' : RepositoryState}
    (coherent : Coherent params state)
    (erased : eraseFile params environment file state = (true, state')) :
    Coherent params state' ∧ state'.table = state.table ∧
      state'.pblockfiletree.fileIndex =
        state.pblockfiletree.fileIndex.erase file.fileHash ∧
      contents params state' =
        Function.update (contents params state) file.fileHash none := by
  rcases eraseFile_ok erased with
    ⟨pos, stored, indexed, read, opens, table, disk, index⟩
  rcases coherent.held _ pos indexed with ⟨found, holds, _⟩
  rw [holds.read opens] at read
  cases read
  have length : (diskRecord params
      ({ stored with removed := true }.serialize params)).length =
        pos.nFileSize.toNat := by
    rw [diskRecord_serialize_length, holds.length, encode_length,
      encode_length]
  have changed : OnlyChangedAt pos state.disk state'.disk := by
    rw [disk]
    exact onlyChangedAt_overwrite (Nat.le_of_eq length) state.disk
  have entry : ∀ hash, state'.pblockfiletree.fileIndex[hash]? =
      if hash = file.fileHash then none
      else state.pblockfiletree.fileIndex[hash]? := by
    intro hash
    rw [index, getElem?_erase]
  have old : ∀ hash other, Indexed state' hash other →
      hash ≠ file.fileHash ∧ Indexed state hash other := by
    intro hash other here
    rw [Indexed, entry] at here
    split_ifs at here with same
    exact ⟨same, here⟩
  have older : ∀ hash other, Indexed state' hash other →
      Indexed state hash other := fun hash other here =>
    (old hash other here).2
  refine ⟨coherent.restrict table older (coherent.toReadable.restrict older ?_),
    table, index, ?_⟩
  · intro hash other here
    rcases old hash other here with ⟨different, here⟩
    rcases coherent.held hash other here with ⟨held, holdsOther, hashes⟩
    refine ⟨held, changed.holdsFile ?_ holdsOther, hashes⟩
    exact coherent.apart hash _ other pos different here indexed
  · funext hash
    by_cases same : hash = file.fileHash
    · rw [same, Function.update_self]
      apply contents_of_absent
      rw [entry, if_pos rfl]
    · rw [Function.update_of_ne same]
      apply contents_congr coherent.toReadable
      · rw [entry, if_neg same]
      · intro other held here
        exact changed.holdsFile
          (coherent.apart hash _ other pos same here indexed)

/-! ## Recycling -/

/-- What a recycling pass at a given time makes of a stored file. -/
def recycled (now : Int) (file : CDBFile) : CDBFile :=
  if !file.removed ∧ now > file.fileExpiredDate.toNat ∧ !file.isMine then
    { file with removed := true }
  else
    file

theorem recycled_recycled (now : Int) (file : CDBFile) :
    recycled now (recycled now file) = recycled now file := by
  unfold recycled
  split_ifs <;> simp_all

/-- The table and the index are as before. -/
def SamePositions (state state' : RepositoryState) : Prop :=
  state'.table = state.table ∧
    state'.pblockfiletree.fileIndex = state.pblockfiletree.fileIndex

theorem SamePositions.indexed {state state' : RepositoryState}
    (same : SamePositions state state') {hash : UInt256}
    {pos : CFileRepositoryBlockDiskPos} :
    Indexed state' hash pos ↔ Indexed state hash pos := by
  rw [Indexed, Indexed, same.2]

/-- An entry can be recycled only where its block can be opened. -/
theorem recycleEntry_opens {params : Params} {environment : Environment}
    {pos : CFileRepositoryBlockDiskPos} {state state' : RepositoryState}
    (done : recycleEntry params environment pos state = some state') :
    environment.openFails = false := by
  cases fails : environment.openFails with
  | false => rfl
  | true =>
      rw [recycleEntry, readFileBlockHeaderFromDisk, readFileBlockFromDiskTo,
        if_pos fails] at done
      cases done

/-- Recycling one entry changes the file at that position and no other. -/
theorem recycleEntry_some {params : Params} {environment : Environment}
    {pos : CFileRepositoryBlockDiskPos} {state state' : RepositoryState}
    {file : CDBFile} (holds : HoldsFile params state.disk pos file)
    (done : recycleEntry params environment pos state = some state') :
    SamePositions state state' ∧
      OnlyChangedAt pos state.disk state'.disk ∧
      HoldsFile params state'.disk pos
        (recycled environment.adjustedTime file) := by
  rw [recycleEntry, holds.readHeader (recycleEntry_opens done)] at done
  dsimp only at done
  split_ifs at done with removed expired
  · cases done
    have same : recycled environment.adjustedTime file = file := by
      have skipped : file.removed = true := removed
      simp [recycled, skipped]
    rw [same]
    exact ⟨⟨rfl, rfl⟩, fun _ _ _ stored => stored, holds⟩
  · split at done
    · cases done
    case h_2 marked written =>
      rcases write_some written with ⟨_, disk⟩
      subst disk
      cases done
      have live : file.removed = false := Bool.eq_false_iff.mpr removed
      have same : recycled environment.adjustedTime file =
          { file with removed := true } :=
        if_pos ⟨by rw [live]; rfl, expired⟩
      rw [same]
      refine ⟨⟨rfl, rfl⟩, ?_, holds.writeHeader _⟩
      exact onlyChangedAt_overwrite (holds.header_short _) state.disk
  · cases done
    have same : recycled environment.adjustedTime file = file :=
      if_neg (fun both => expired both.2)
    rw [same]
    exact ⟨⟨rfl, rfl⟩, fun _ _ _ stored => stored, holds⟩

theorem recycled_hashes (params : Params) (now : Int) (file : CDBFile) :
    (recycled now file).fileHash = file.fileHash ∧
      (recycled now file).calcFileHash params = file.calcFileHash params := by
  unfold recycled
  split_ifs <;> exact ⟨rfl, rfl⟩

theorem recycleEntry_spec {params : Params} {environment : Environment}
    {hash : UInt256} {pos : CFileRepositoryBlockDiskPos}
    {state state' : RepositoryState} (readable : Readable params state)
    (indexed : Indexed state hash pos)
    (done : recycleEntry params environment pos state = some state') :
    Readable params state' ∧ SamePositions state state' ∧
      contents params state' =
        Function.update (contents params state) hash
          ((contents params state hash).map
            (recycled environment.adjustedTime)) := by
  rcases readable.held hash pos indexed with ⟨file, holds, hashes⟩
  rcases recycleEntry_some holds done with ⟨same, changed, holds'⟩
  have others : ∀ entry other held, entry ≠ hash →
      Indexed state entry other → HoldsFile params state.disk other held →
        HoldsFile params state'.disk other held := by
    intro entry other held different here holdsOther
    exact changed.holdsFile
      (readable.apart entry hash other pos different here indexed) holdsOther
  refine ⟨readable.restrict (fun _ _ => same.indexed.mp) ?_, same, ?_⟩
  · intro entry other here
    have here := same.indexed.mp here
    by_cases equal : entry = hash
    · subst equal
      cases indexed.symm.trans here
      rcases recycled_hashes params environment.adjustedTime file with
        ⟨sameHash, sameCalc⟩
      exact ⟨_, holds', sameHash.trans hashes.1, sameCalc.trans hashes.2⟩
    · rcases readable.held entry other here with ⟨held, holdsOther, agree⟩
      exact ⟨held, others entry other held equal here holdsOther, agree⟩
  · funext entry
    by_cases equal : entry = hash
    · subst equal
      rw [Function.update_self, contents_of_holds indexed holds,
        contents_of_holds (same.indexed.mpr indexed) holds']
      rfl
    · rw [Function.update_of_ne equal]
      apply contents_congr readable
      · rw [same.2]
      · intro other held here
        exact others entry other held equal here

/-- An entry that is readable is recycled whenever the block file opens. -/
theorem recycleEntry_progress {params : Params} {environment : Environment}
    {hash : UInt256} {pos : CFileRepositoryBlockDiskPos}
    {state : RepositoryState} (readable : Readable params state)
    (opens : environment.openFails = false)
    (indexed : Indexed state hash pos) :
    ∃ state', recycleEntry params environment pos state = some state' := by
  rcases readable.held hash pos indexed with ⟨file, holds, _⟩
  rw [recycleEntry, holds.readHeader opens]
  dsimp only
  split_ifs
  · exact ⟨_, rfl⟩
  · rw [writeFileRepositoryBlockToDiskFrom, opens, if_neg (by simp)]
    exact ⟨_, rfl⟩
  · exact ⟨_, rfl⟩

/-- A pass over some entries of the index recycles exactly these. -/
theorem recycleEntries_spec {params : Params} {environment : Environment}
    {entries : List (UInt256 × CFileRepositoryBlockDiskPos)}
    {state state' : RepositoryState} (readable : Readable params state)
    (indexed : ∀ entry ∈ entries, Indexed state entry.1 entry.2)
    (done : recycleEntries params environment (entries.map Prod.snd) state =
      (true, state')) :
    Readable params state' ∧ SamePositions state state' ∧
      ∀ hash, contents params state' hash =
        if hash ∈ entries.map Prod.fst then
          (contents params state hash).map (recycled environment.adjustedTime)
        else contents params state hash := by
  induction entries generalizing state with
  | nil =>
      cases done
      exact ⟨readable, ⟨rfl, rfl⟩, fun hash => by simp⟩
  | cons entry rest ih =>
      rw [List.map_cons, recycleEntries] at done
      split at done
      · cases done
      case h_2 middle first =>
        rcases recycleEntry_spec readable (indexed entry (by simp)) first with
          ⟨readable', same, changed⟩
        have restIndexed : ∀ other ∈ rest, Indexed middle other.1 other.2 :=
          fun other member => same.indexed.mpr (indexed other (by simp [member]))
        rcases ih readable' restIndexed done with ⟨final, sameRest, contents'⟩
        refine ⟨final, ⟨sameRest.1.trans same.1, sameRest.2.trans same.2⟩, ?_⟩
        intro hash
        rw [contents', changed, List.map_cons]
        by_cases here : hash = entry.1
        · subst here
          rw [Function.update_self, if_pos List.mem_cons_self, Option.map_map]
          have idempotent : recycled environment.adjustedTime ∘
              recycled environment.adjustedTime =
                recycled environment.adjustedTime :=
            funext (recycled_recycled environment.adjustedTime)
          rw [idempotent, ite_self]
        · rw [Function.update_of_ne here]
          simp only [List.mem_cons, here, false_or]

theorem recycleEntries_progress {params : Params} {environment : Environment}
    {entries : List (UInt256 × CFileRepositoryBlockDiskPos)}
    {state : RepositoryState} (readable : Readable params state)
    (opens : environment.openFails = false)
    (indexed : ∀ entry ∈ entries, Indexed state entry.1 entry.2) :
    ∃ state', recycleEntries params environment (entries.map Prod.snd) state =
      (true, state') := by
  induction entries generalizing state with
  | nil => exact ⟨state, rfl⟩
  | cons entry rest ih =>
      have here := indexed entry (by simp)
      rcases recycleEntry_progress readable opens here with ⟨middle, first⟩
      rcases recycleEntry_spec readable here first with ⟨readable', same, _⟩
      rw [List.map_cons, recycleEntries, first]
      apply ih readable'
      intro other member
      exact same.indexed.mpr (indexed other (by simp [member]))

theorem indexed_of_mem_toList {state : RepositoryState}
    {entry : UInt256 × CFileRepositoryBlockDiskPos}
    (member : entry ∈ state.pblockfiletree.fileIndex.toList) :
    Indexed state entry.1 entry.2 :=
  Std.ExtTreeMap.mem_toList_iff_getElem?_eq_some.mp member

/-- A pass that reaches the end of the index recycles every file. -/
theorem findAndRecycleExpiredFiles_readable {params : Params}
    {environment : Environment} {state state' : RepositoryState}
    (readable : Readable params state)
    (done : findAndRecycleExpiredFiles params environment state =
      (true, state')) :
    Readable params state' ∧ SamePositions state state' ∧
      ∀ hash, contents params state' hash =
        (contents params state hash).map
          (recycled environment.adjustedTime) := by
  rcases recycleEntries_spec readable (fun _ => indexed_of_mem_toList) done
    with ⟨readable', same, contents'⟩
  refine ⟨readable', same, ?_⟩
  intro hash
  rw [contents']
  split_ifs with listed
  · rfl
  · have absent : state.pblockfiletree.fileIndex[hash]? = none := by
      cases found : state.pblockfiletree.fileIndex[hash]? with
      | none => rfl
      | some pos =>
          refine absurd (List.mem_map.mpr ⟨(hash, pos), ?_, rfl⟩) listed
          exact Std.ExtTreeMap.mem_toList_iff_getElem?_eq_some.mpr found
    rw [contents_of_absent params absent]
    rfl

theorem findAndRecycleExpiredFiles_progress {params : Params}
    {environment : Environment} {state : RepositoryState}
    (readable : Readable params state)
    (opens : environment.openFails = false) :
    ∃ state', findAndRecycleExpiredFiles params environment state =
      (true, state') :=
  recycleEntries_progress readable opens fun _ => indexed_of_mem_toList

/-- A pass that cannot open the block files changes nothing. -/
theorem findAndRecycleExpiredFiles_closed {params : Params}
    {environment : Environment} (state : RepositoryState)
    (fails : environment.openFails = true) :
    (findAndRecycleExpiredFiles params environment state).2 = state := by
  rw [findAndRecycleExpiredFiles]
  cases indexedPositions state with
  | nil => rfl
  | cons pos rest =>
      rw [recycleEntries, recycleEntry, readFileBlockHeaderFromDisk,
        readFileBlockFromDiskTo, if_pos fails]

theorem findAndRecycleExpiredFiles_spec {params : Params}
    {environment : Environment} {state state' : RepositoryState}
    (coherent : Coherent params state)
    (done : findAndRecycleExpiredFiles params environment state =
      (true, state')) :
    Coherent params state' ∧ SamePositions state state' ∧
      ∀ hash, contents params state' hash =
        (contents params state hash).map
          (recycled environment.adjustedTime) := by
  rcases findAndRecycleExpiredFiles_readable coherent.toReadable done with
    ⟨readable, same, contents'⟩
  exact ⟨coherent.restrict same.1 (fun _ _ => same.indexed.mp) readable, same,
    contents'⟩

end PrivateDatagram.Repository.StoredFiles
