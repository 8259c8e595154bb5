import PrivateDatagram.Repository.Runs

/-!
# Recycling in place

Recycling writes the record of a header over the front of the record of a
file.  The headers of both are encoded alike, so that only the size in front
of the record and the flag change, and whoever reads the position finds the
file with the flag set.
-/

namespace PrivateDatagram.Repository.RecycleInPlace

open Library.ByteFormat Library.ByteStore Wire.Serialize Records Manager
  StoredFiles Runs

/-- The record of a file stands at the position, whether or not a reader
admits the file. -/
structure FileAt (params : Params) (disk : Disk)
    (pos : CFileRepositoryBlockDiskPos) (file : CDBFile)
    (content bytes : Bytes) : Prop where
  record : FileRecord params file bytes
  found : disk (.blk pos.nBlockFileIndex) = some content
  stored : StoredAt content pos.nOffset.toNat bytes

/-! ## Readers -/

/-- What is read at a position where a block file is found. -/
theorem read_found {α : Type} (params : Params) (object : Decoder α)
    {environment : Environment} {pos : CFileRepositoryBlockDiskPos}
    {state : RepositoryState} {content : Bytes}
    (opens : environment.openFails = false)
    (found : state.disk (.blk pos.nBlockFileIndex) = some content) :
    readFileBlockFromDiskTo params object environment pos false state =
      (readDiskRecord params object
        (content.drop pos.nOffset.toNat)).toOption.map Prod.fst := by
  simp only [readFileBlockFromDiskTo, opens, Bool.false_eq_true, if_false,
    filePosFilename, found]
  cases readDiskRecord params object (content.drop pos.nOffset.toNat) <;> rfl

theorem readDiskRecord_front {α : Type} (params : Params)
    (object : Decoder α) (nSize : UInt32) (rest : Bytes) :
    readDiskRecord params object
        (params.messageStart ++ (uint32.encode nSize ++ rest)) =
      object rest := by
  have start := readBytes_consumes params.messageStart
  rw [params.messageStart_length] at start
  rw [readDiskRecord, Consumes.run start,
    Consumes.run (uint32.lossless nSize trivial),
    if_neg (not_not_intro rfl)]

/-- A file is its header and then its bytes. -/
theorem decode_file (file : CDBFile) (rest : Bytes) :
    CDBFile.format.decode (file.header.serialize ++ rest) =
      (blob.decode rest).map fun read =>
        ({ file with vBytes := read.1 }, read.2) := by
  have header := CDBFileHeaderOnly.format.lossless file.header
    ⟨trivial, trivial, trivial, trivial⟩
  have pair : (CDBFileHeaderOnly.format.pair blob).decode
      (file.header.serialize ++ rest) =
        (blob.decode rest).map fun read =>
          ((file.header, read.1), read.2) := by
    change (CDBFileHeaderOnly.format.decode >>= _) _ = _
    rw [CDBFileHeaderOnly.serialize, Consumes.run header]
    cases read : blob.decode rest <;>
      simp only [bind, StateT.bind, Except.bind, read] <;> rfl
  change ((CDBFileHeaderOnly.format.pair blob).decode _).bind _ = _
  rw [pair]
  cases blob.decode rest <;> rfl

section Readers

variable {params : Params} {environment : Environment}
  {pos : CFileRepositoryBlockDiskPos} {file : CDBFile}
  {state : RepositoryState} {content bytes : Bytes}

theorem FileAt.readHeader (held : FileAt params state.disk pos file content
      bytes) (opens : environment.openFails = false) :
    readFileBlockHeaderFromDisk params environment pos false state =
      some file.header := by
  have decoded := held.record.read_header
    (content.drop (pos.nOffset.toNat + bytes.length))
  rw [← held.stored.drop_eq] at decoded
  rw [readFileBlockHeaderFromDisk, read_found params _ opens held.found,
    decoded]
  rfl

/-- The header is read, and then the bytes, unless they are too many. -/
theorem FileAt.readFile (held : FileAt params state.disk pos file content
      bytes) (opens : environment.openFails = false) :
    readFileBlockFromDisk params environment pos false state =
      (blob.decode (blob.encode file.vBytes ++
        content.drop (pos.nOffset.toNat + bytes.length))).toOption.map
          fun read => { file with vBytes := read.1 } := by
  obtain ⟨nSize, parts⟩ := held.record
  have front : content.drop pos.nOffset.toNat =
      params.messageStart ++ (uint32.encode nSize ++ (file.header.serialize ++
        (blob.encode file.vBytes ++
          content.drop (pos.nOffset.toNat + bytes.length)))) := by
    rw [held.stored.drop_eq]
    nth_rewrite 1 [parts]
    simp only [List.append_assoc]
    rfl
  rw [readFileBlockFromDisk, read_found params _ opens held.found, front,
    readDiskRecord_front, decode_file]
  cases blob.decode (blob.encode file.vBytes ++
    content.drop (pos.nOffset.toNat + bytes.length)) <;> rfl

end Readers

/-! ## Bytes -/

/-- Two lists that agree in front of one part and between it and another
one. -/
theorem getElem?_same {start left right middle leftRest rightRest : Bytes}
    (length : left.length = right.length) {index : Nat}
    (place : index < start.length ∨ start.length + left.length ≤ index ∧
      index < start.length + left.length + middle.length) :
    (start ++ (left ++ (middle ++ leftRest)))[index]? =
      (start ++ (right ++ (middle ++ rightRest)))[index]? := by
  rcases place with before | ⟨behind, inside⟩
  · rw [List.getElem?_append_left before, List.getElem?_append_left before]
  · rw [List.getElem?_append_right (by omega),
      List.getElem?_append_right (by omega),
      List.getElem?_append_left (by omega),
      List.getElem?_append_right (by omega),
      List.getElem?_append_right (by omega),
      List.getElem?_append_left (by omega), length]

/-- A header up to its last flag. -/
def headerFront (header : CDBFileHeaderOnly) : Bytes :=
  uint256.encode header.fileHash ++
    (uint32.encode header.fileExpiredDate ++ boolean.encode header.isMine)

theorem length_headerFront (header : CDBFileHeaderOnly) :
    (headerFront header).length = 37 := by
  simp [headerFront, uint256, uint32, boolean, Format.through]

theorem serialize_header (header : CDBFileHeaderOnly) :
    header.serialize = headerFront header ++ boolean.encode header.removed := by
  simp [CDBFileHeaderOnly.serialize, CDBFileHeaderOnly.format, headerFront,
    Format.through, Format.pair]

def marked (file : CDBFile) : CDBFile := { file with removed := true }

/-- The record of the marked header begins like the one of the file, but for
the size and the flag. -/
theorem marked_getElem? {params : Params} {file : CDBFile} {bytes : Bytes}
    (record : FileRecord params file bytes) {index : Nat}
    (inside : index < 46) (size : ¬ (4 ≤ index ∧ index < 8))
    (flag : index ≠ 45) :
    (diskRecord params (marked file).header.serialize)[index]? =
      bytes[index]? := by
  obtain ⟨nSize, rfl⟩ := record
  have word (value : UInt32) : (uint32.encode value).length = 4 :=
    length_littleEndian 4 _
  have whole : CDBFile.format.encode file =
      file.header.serialize ++ blob.encode file.vBytes := rfl
  have front : headerFront (marked file).header = headerFront file.header :=
    rfl
  rw [diskRecord, whole, serialize_header, serialize_header, front,
    List.append_assoc]
  apply getElem?_same
  · rw [word, word]
  · rw [params.messageStart_length, word, length_headerFront]
    omega

theorem length_markedRecord (params : Params) (file : CDBFile) :
    (diskRecord params (marked file).header.serialize).length = 46 := by
  have word (value : UInt32) : (uint32.encode value).length = 4 :=
    length_littleEndian 4 _
  rw [diskRecord, List.length_append, List.length_append, word,
    params.messageStart_length, header_serialize_length]

/-! ## Overwriting -/

section Overwriting

variable {params : Params} {disk : Disk} {pos : CFileRepositoryBlockDiskPos}
  {file : CDBFile} {content bytes : Bytes}

/-- The block file with the record of the marked header. -/
def markedContent (params : Params) (pos : CFileRepositoryBlockDiskPos)
    (file : CDBFile) (content : Bytes) : Bytes :=
  overwrite pos.nOffset.toNat
    (diskRecord params (marked file).header.serialize) content

theorem FileAt.record_long
    (held : FileAt params disk pos file content bytes) :
    45 < bytes.length := by
  have length := held.record.length
  have whole : CDBFile.format.encode file =
      file.header.serialize ++ blob.encode file.vBytes := rfl
  rw [whole, List.length_append, header_serialize_length] at length
  omega

theorem FileAt.length_le (held : FileAt params disk pos file content bytes) :
    pos.nOffset.toNat + 46 ≤ content.length :=
  held.stored.lt_length held.record_long

theorem FileAt.getElem?_marked
    (held : FileAt params disk pos file content bytes) {index : Nat}
    (size : ¬ (pos.nOffset.toNat + 4 ≤ index ∧
      index < pos.nOffset.toNat + 8))
    (flag : index ≠ pos.nOffset.toNat + 45) :
    (markedContent params pos file content)[index]? = content[index]? := by
  have length := length_markedRecord params file
  have enough := held.length_le
  rcases lt_or_ge index pos.nOffset.toNat with before | behind
  · exact getElem?_overwrite_before (by omega) before
  · obtain ⟨inner, rfl⟩ := Nat.exists_eq_add_of_le behind
    by_cases inside : inner < 46
    · have here : inner < bytes.length :=
        lt_of_lt_of_le inside held.record_long
      rw [markedContent, getElem?_overwrite_inside (length ▸ inside),
        held.stored inner here]
      exact marked_getElem? held.record inside (by omega) (by omega)
    · exact getElem?_overwrite_after (by omega)

theorem FileAt.length_marked
    (held : FileAt params disk pos file content bytes) :
    (markedContent params pos file content).length = content.length := by
  have enough := held.length_le
  simp only [markedContent, overwrite, List.length_append,
    length_truncateTo, List.length_drop, length_markedRecord]
  omega

/-- The position holds the marked file, with a record of the same length. -/
theorem FileAt.mark (held : FileAt params disk pos file content bytes) :
    ∃ bytes', bytes'.length = bytes.length ∧
      FileAt params
        (disk.edit (.blk pos.nBlockFileIndex)
          (overwrite pos.nOffset.toNat
            (diskRecord params (marked file).header.serialize)))
        pos (marked file) (markedContent params pos file content) bytes' := by
  obtain ⟨bytes', record, length, stored⟩ :=
    held.record.overwrite_header held.stored (marked file).header
  refine ⟨bytes', length, record, ?_, stored⟩
  simp only [Disk.edit, Function.update_self, held.found, Option.getD_some,
    markedContent]

end Overwriting

/-- Only the size in front of the record and the flag may have changed, and
readers find the flag set. -/
structure MarkedInPlace (params : Params) (environment : Environment)
    (pos : CFileRepositoryBlockDiskPos) (file : CDBFile) (content : Bytes)
    (state state' : RepositoryState) : Prop where
  others : ∀ path, path ≠ .blk pos.nBlockFileIndex →
    state'.disk path = state.disk path
  bytes : ∃ content', state'.disk (.blk pos.nBlockFileIndex) = some content' ∧
    content'.length = content.length ∧
    ∀ index, ¬ (pos.nOffset.toNat + 4 ≤ index ∧
      index < pos.nOffset.toNat + 8) → index ≠ pos.nOffset.toNat + 45 →
        content'[index]? = content[index]?
  header : readFileBlockHeaderFromDisk params environment pos false state' =
    some (marked file).header
  read : readFileBlockFromDisk params environment pos false state' =
    (readFileBlockFromDisk params environment pos false state).map marked
  admitted : Admitted file →
    readFileBlockFromDisk params environment pos false state' =
      some (marked file)

theorem markedInPlace_of {params : Params} {environment : Environment}
    {pos : CFileRepositoryBlockDiskPos} {file : CDBFile}
    {content bytes : Bytes} {state state' : RepositoryState}
    (held : FileAt params state.disk pos file content bytes)
    (opens : environment.openFails = false)
    (disk : state'.disk = state.disk.edit (.blk pos.nBlockFileIndex)
      (overwrite pos.nOffset.toNat
        (diskRecord params (marked file).header.serialize))) :
    MarkedInPlace params environment pos file content state state' := by
  obtain ⟨bytes', length, after⟩ := held.mark
  rw [← disk] at after
  have behind : (markedContent params pos file content).drop
      (pos.nOffset.toNat + bytes'.length) =
        content.drop (pos.nOffset.toNat + bytes.length) := by
    have long := held.record_long
    apply List.ext_getElem?
    intro index
    rw [List.getElem?_drop, List.getElem?_drop, length]
    apply held.getElem?_marked <;> omega
  have read := after.readFile opens
  rw [behind] at read
  constructor
  · intro path other
    rw [disk, Disk.edit, Function.update_of_ne other]
  · exact ⟨_, after.found, held.length_marked, fun index size flag =>
      held.getElem?_marked size flag⟩
  · exact after.readHeader opens
  · rw [read, held.readFile opens, Option.map_map]
    rfl
  · intro admitted
    have decoded := blob.lossless file.vBytes admitted
      (content.drop (pos.nOffset.toNat + bytes.length))
    have same : (marked file).vBytes = file.vBytes := rfl
    rw [read, same, decoded]
    rfl

/-- A file that recycling comes to is marked in place where it has expired,
and is left alone otherwise. -/
theorem recycled_in_place {params : Params} {environment : Environment}
    {pos : CFileRepositoryBlockDiskPos} {file : CDBFile}
    {content bytes : Bytes} {state state' : RepositoryState}
    (held : FileAt params state.disk pos file content bytes)
    (done : recycleEntry params environment pos state = some state') :
    (file.removed = false ∧
        environment.adjustedTime > file.fileExpiredDate.toNat ∧
        file.isMine = false →
      MarkedInPlace params environment pos file content state state') ∧
    (¬ (file.removed = false ∧
        environment.adjustedTime > file.fileExpiredDate.toNat ∧
        file.isMine = false) → state' = state) := by
  have opens := recycleEntry_opens done
  rw [recycleEntry, held.readHeader opens] at done
  dsimp only [CDBFile.header] at done
  split_ifs at done with removed expired
  · cases done
    exact ⟨fun live => by simp [removed] at live, fun _ => rfl⟩
  · split at done
    · cases done
    case h_2 written stored =>
      obtain ⟨-, rfl⟩ := write_some stored
      cases done
      constructor
      · intro _
        exact markedInPlace_of held opens rfl
      · intro idle
        exact absurd ⟨by simpa using removed, expired.1,
          by simpa using expired.2⟩ idle
  · cases done
    refine ⟨fun live => absurd ⟨live.2.1, ?_⟩ expired, fun _ => rfl⟩
    simp [live.2.2]

/-! ## One file -/

/-- The sample file behind three bytes. -/
def sampleContent : Bytes :=
  overwrite 3 (diskRecord sampleParams (sampleFile.serialize sampleParams)) []

def sampleState : RepositoryState :=
  { emptyRepository 0 1 with
    disk := Function.update (fun _ => none) (.blk 0) (some sampleContent) }

def samplePos : CFileRepositoryBlockDiskPos := ⟨0, 3, 48⟩

theorem sample_fileAt :
    FileAt sampleParams sampleState.disk samplePos
      (sampleFile.updateFileHash sampleParams) sampleContent
      (diskRecord sampleParams (sampleFile.serialize sampleParams)) where
  record := diskRecord_fileRecord sampleParams sampleFile
  found := by simp [sampleState, samplePos]
  stored := storedAt_overwrite _ _ _

/-- The sample file has expired at 100. -/
theorem recycled_in_place_sample :
    ∃ state', recycleEntry sampleParams { roomyDisk with adjustedTime := 200 }
        samplePos sampleState = some state' ∧
      MarkedInPlace sampleParams { roomyDisk with adjustedTime := 200 }
        samplePos (sampleFile.updateFileHash sampleParams) sampleContent
        sampleState state' := by
  have done : (recycleEntry sampleParams
      { roomyDisk with adjustedTime := 200 } samplePos
      sampleState).isSome = true := by decide +kernel
  obtain ⟨state', reached⟩ := Option.isSome_iff_exists.mp done
  exact ⟨state', reached,
    (recycled_in_place sample_fileAt reached).1 (by decide)⟩

end PrivateDatagram.Repository.RecycleInPlace
