import PrivateDatagram.Library.ByteStore
import PrivateDatagram.Wire.Serialize

/-!
# Stored files

A stored file is a `CDBFile`: a header (content hash, expiry date and two
flags) followed by the encrypted bytes.  `CDBFileHeaderOnly` is the header on
its own.  Because the two classes serialize the header in the same way, a
header can be rewritten in place in front of the bytes.

On disk a record starts with the network's message start and a size.  The
reader checks the former and ignores the latter.
-/

namespace PrivateDatagram.Repository.Records

open Library.ByteFormat Library.ByteStore Wire.Serialize

/-! ## Files -/

structure CDBFile where
  fileHash : UInt256
  fileExpiredDate : UInt32
  isMine : Bool
  removed : Bool
  vBytes : Bytes
deriving DecidableEq, Repr

structure CDBFileHeaderOnly where
  fileHash : UInt256
  fileExpiredDate : UInt32
  isMine : Bool
  removed : Bool
deriving DecidableEq, Repr

def CDBFile.header (file : CDBFile) : CDBFileHeaderOnly :=
  ⟨file.fileHash, file.fileExpiredDate, file.isMine, file.removed⟩

def CDBFileHeaderOnly.format : Format CDBFileHeaderOnly :=
  (uint256.pair (uint32.pair (boolean.pair boolean))).through
    { toFun := fun value =>
        (value.fileHash, value.fileExpiredDate, value.isMine, value.removed)
      invFun := fun value =>
        ⟨value.1, value.2.1, value.2.2.1, value.2.2.2⟩
      left_inv := fun _ => rfl
      right_inv := fun _ => rfl }

/-- The fields of `CDBFile::SerializationOp`, read in order. -/
def CDBFile.format : Format CDBFile :=
  (CDBFileHeaderOnly.format.pair blob).through
    { toFun := fun value => (value.header, value.vBytes)
      invFun := fun value =>
        ⟨value.1.fileHash, value.1.fileExpiredDate, value.1.isMine,
          value.1.removed, value.2⟩
      left_inv := fun _ => rfl
      right_inv := fun _ => rfl }

/-- What the network and the hash function contribute. -/
structure Params where
  /-- The double SHA-256 of `hash.h`. -/
  hash256 : Bytes → UInt256
  /-- `Params().MessageStart()`. -/
  messageStart : Bytes
  messageStart_length : messageStart.length = 4

def CDBFile.calcFileHash (params : Params) (file : CDBFile) : UInt256 :=
  params.hash256 file.vBytes

def CDBFile.updateFileHash (params : Params) (file : CDBFile) : CDBFile :=
  { file with fileHash := file.calcFileHash params }

@[simp]
theorem updateFileHash_fileHash (params : Params) (file : CDBFile) :
    (file.updateFileHash params).fileHash = file.calcFileHash params :=
  rfl

/-- Writing a `CDBFile` refreshes its hash first. -/
def CDBFile.serialize (params : Params) (file : CDBFile) : Bytes :=
  CDBFile.format.encode (file.updateFileHash params)

@[simp]
theorem serialize_updateFileHash (params : Params) (file : CDBFile) :
    (file.updateFileHash params).serialize params = file.serialize params :=
  rfl

def CDBFileHeaderOnly.serialize (header : CDBFileHeaderOnly) : Bytes :=
  CDBFileHeaderOnly.format.encode header

@[simp]
theorem header_serialize_length (header : CDBFileHeaderOnly) :
    header.serialize.length = 38 := by
  simp [CDBFileHeaderOnly.serialize, CDBFileHeaderOnly.format,
    Format.through, Format.pair, uint256, uint32, boolean]

/-! ## Records on disk -/

/--
What `WriteFileRepositoryBlockToDiskFrom` writes: the message start, the
size of the serialized object, and the object.
-/
def diskRecord (params : Params) (object : Bytes) : Bytes :=
  params.messageStart ++
    (uint32.encode (UInt32.ofNat object.length) ++ object)

/-- `ReadFileBlockFromDiskTo`, on what follows the position sought. -/
def readDiskRecord {α : Type} (params : Params) (object : Decoder α) :
    Decoder α := do
  let messageStart ← readBytes 4
  let _nSize ← uint32.decode
  if messageStart ≠ params.messageStart then
    refuse "Read file error. Message start missmatch"
  else
    object

/--
A file record as it may stand on disk.  The size field counts the whole file
after a save and only the header after the file was recycled.
-/
def FileRecord (params : Params) (file : CDBFile) (bytes : Bytes) : Prop :=
  ∃ nSize : UInt32,
    bytes = params.messageStart ++
      (uint32.encode nSize ++ CDBFile.format.encode file)

/-- A file the reader admits. -/
def Admitted (file : CDBFile) : Prop := file.vBytes.length ≤ maxSize

theorem file_fits {file : CDBFile} (admitted : Admitted file) :
    CDBFile.format.Fits file :=
  ⟨⟨trivial, trivial, trivial, trivial⟩, admitted⟩

theorem diskRecord_fileRecord (params : Params) (file : CDBFile) :
    FileRecord params (file.updateFileHash params)
      (diskRecord params (file.serialize params)) :=
  ⟨_, rfl⟩

theorem readDiskRecord_consumes {α : Type} (params : Params)
    {object : Decoder α} {bytes : Bytes} {value : α} (nSize : UInt32)
    (read : Consumes object bytes value) :
    Consumes (readDiskRecord params object)
      (params.messageStart ++ (uint32.encode nSize ++ bytes)) value := by
  have start := readBytes_consumes params.messageStart
  rw [params.messageStart_length] at start
  refine start.bind ?_
  refine (uint32.lossless nSize trivial).bind ?_
  rw [if_neg (not_not_intro rfl)]
  exact read

/-- A file record reads back as its file. -/
theorem FileRecord.read_file {params : Params} {file : CDBFile}
    {bytes : Bytes} (record : FileRecord params file bytes)
    (admitted : Admitted file) :
    Consumes (readDiskRecord params CDBFile.format.decode) bytes file := by
  rcases record with ⟨nSize, rfl⟩
  exact readDiskRecord_consumes params nSize
    (CDBFile.format.lossless file (file_fits admitted))

/-- Read for its header alone, it reads as the header. -/
theorem FileRecord.read_header {params : Params} {file : CDBFile}
    {bytes : Bytes} (record : FileRecord params file bytes) (rest : Bytes) :
    readDiskRecord params CDBFileHeaderOnly.format.decode (bytes ++ rest) =
      .ok (file.header, blob.encode file.vBytes ++ rest) := by
  rcases record with ⟨nSize, rfl⟩
  have whole := readDiskRecord_consumes params nSize
    (CDBFileHeaderOnly.format.lossless file.header
      ⟨trivial, trivial, trivial, trivial⟩)
    (blob.encode file.vBytes ++ rest)
  rw [← whole]
  congr 1
  simp only [List.append_assoc]
  rfl

theorem FileRecord.length {params : Params} {file : CDBFile} {bytes : Bytes}
    (record : FileRecord params file bytes) :
    bytes.length = 8 + (CDBFile.format.encode file).length := by
  rcases record with ⟨nSize, rfl⟩
  have size : (uint32.encode nSize).length = 4 := length_littleEndian 4 _
  rw [List.length_append, List.length_append, size,
    params.messageStart_length]
  omega

/--
Overwriting the front of a file record with the record of a new header gives
the record of the file with that header.
-/
theorem FileRecord.overwrite_header {params : Params} {file : CDBFile}
    {bytes content : Bytes} {offset : Nat}
    (record : FileRecord params file bytes)
    (stored : StoredAt content offset bytes) (header : CDBFileHeaderOnly) :
    ∃ bytes',
      FileRecord params
        ⟨header.fileHash, header.fileExpiredDate, header.isMine,
          header.removed, file.vBytes⟩ bytes' ∧
      bytes'.length = bytes.length ∧
      StoredAt
        (overwrite offset (diskRecord params header.serialize) content)
        offset bytes' := by
  rcases record with ⟨nSize, rfl⟩
  have split :
      params.messageStart ++
          (uint32.encode nSize ++ CDBFile.format.encode file) =
        (params.messageStart ++
            (uint32.encode nSize ++ file.header.serialize)) ++
          blob.encode file.vBytes := by
    simp only [List.append_assoc]
    rfl
  have front :
      (diskRecord params header.serialize).length =
        (params.messageStart ++
          (uint32.encode nSize ++ file.header.serialize)).length := by
    have size (value : UInt32) : (uint32.encode value).length = 4 :=
      length_littleEndian 4 _
    simp only [diskRecord, List.length_append, size,
      header_serialize_length]
  rw [split] at stored
  refine ⟨diskRecord params header.serialize ++ blob.encode file.vBytes,
    ⟨UInt32.ofNat header.serialize.length, ?_⟩, ?_,
    stored.overwrite_front front⟩
  · simp only [diskRecord, List.append_assoc]
    rfl
  · rw [split, List.length_append, List.length_append, front]

end PrivateDatagram.Repository.Records
