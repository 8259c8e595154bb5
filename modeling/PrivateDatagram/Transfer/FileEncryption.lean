import PrivateDatagram.Library.ByteFormat
import PrivateDatagram.Library.CipherModes

/-!
# File encryption

Files travel encrypted with AES-256 in CBC mode.  In front of a file are the
initial vector and an encrypted random block, and the file is padded with
random bytes and their number.  Both directions go through a buffer, but cut
the stream at different places.  OpenSSL is a parameter.
-/

namespace PrivateDatagram.Transfer.FileEncryption

open Library.ByteFormat Library.CipherModes

def aesBlockSize : Nat := 16
def bufferSize : Nat := 2048

structure AESKey where
  key : Bytes
  length : key.length = 32

abbrev AesBlock := Block UInt8 aesBlockSize

/-- `AES_cbc_encrypt` with the two schedules of a key.  The state is `iv`. -/
structure AesCbc where
  encrypt : Mode AesBlock UInt8
  decrypt : Mode AesBlock UInt8

structure AesCbc.Sound (cbc : AesCbc) : Prop where
  encrypt : Streams aesBlockSize cbc.encrypt
  decrypt : Streams aesBlockSize cbc.decrypt
  undoes : Undoes aesBlockSize cbc.encrypt cbc.decrypt

/-- What `RAND_bytes` and `rand() & 0xFF` give. -/
structure Random where
  iv : AesBlock
  block : AesBlock
  rand : Nat → UInt8

/-! ## Streams -/

/-- A stream that ends too early throws an exception. -/
def readStream (count : Nat) (srcStream : Bytes) : Option (Bytes × Bytes) :=
  if count ≤ srcStream.length then
    some (srcStream.take count, srcStream.drop count)
  else
    none

def readIv (srcStream : Bytes) : Option (AesBlock × Bytes) :=
  if enough : aesBlockSize ≤ srcStream.length then
    some (⟨srcStream.take aesBlockSize, List.length_take_of_le enough⟩,
      srcStream.drop aesBlockSize)
  else
    none

/-- How much of the rest of a stream is read at once. -/
def readSize (left : Nat) : Nat :=
  if bufferSize > left then left else bufferSize

theorem readSize_decreases {left : Nat} (more : readSize left ≠ left) :
    left - readSize left < left := by
  unfold readSize bufferSize at *
  split_ifs at more ⊢
  · exact absurd rfl more
  · omega

/-! ## Encryption -/

/-- Fill the last block, or add one. -/
def paddingLength (read : Nat) : Nat :=
  let fill := aesBlockSize - read % aesBlockSize
  if fill = 0 then aesBlockSize else fill

def padding (rand : Nat → UInt8) (read : Nat) : Bytes :=
  (List.range (paddingLength read - 1)).map rand ++
    [UInt8.ofNat (paddingLength read)]

/-- The loop, where `left` is `size - totalRead`.  It gives what it writes,
and the size of the last chunk. -/
def encryptLoop (aesKey : AesCbc) (rand : Nat → UInt8) (left : Nat)
    (iv : AesBlock) (srcStream : Bytes) : Option (Bytes × Nat) :=
  match readStream (readSize left) srcStream with
  | none => none
  | some (srcBuf, srcStream) =>
      if _last : readSize left = left then
        let srcBuf := srcBuf ++ padding rand (readSize left)
        some ((aesKey.encrypt iv srcBuf).1, readSize left)
      else
        let encBuf := aesKey.encrypt iv srcBuf
        match encryptLoop aesKey rand (left - readSize left) encBuf.2
            srcStream with
        | none => none
        | some (written, read) => some (encBuf.1 ++ written, read)
termination_by left
decreasing_by exact readSize_decreases _last

/-- The stream that is written, and `outSize`, which leaves out the random
block. -/
def encryptAES (aes : AESKey → AesCbc) (random : Random) (key : AESKey)
    (srcStream : Bytes) (size : Nat) : Option (Bytes × Nat) :=
  let encBuf := (aes key).encrypt random.iv random.block.val
  match encryptLoop (aes key) random.rand size encBuf.2 srcStream with
  | none => none
  | some (written, read) =>
      let fill :=
        if size % aesBlockSize = 0 then
          aesBlockSize
        else
          aesBlockSize - read % aesBlockSize
      some (random.iv.val ++ encBuf.1 ++ written,
        size + aesBlockSize + fill)

/-! ## Decryption -/

/-- The result, with the stream that is written.  `outSize` is only set in the
end. -/
inductive Decryption where
  | refused (dstStream : Bytes)
  | done (dstStream : Bytes) (outSize : Nat)
deriving DecidableEq, Repr

/-- The result, when a chunk has been written before. -/
def Decryption.behind (decBuf : Bytes) : Decryption → Decryption
  | .refused dstStream => .refused (decBuf ++ dstStream)
  | .done dstStream outSize =>
      .done (decBuf ++ dstStream) (decBuf.length + outSize)

/-- The last chunk without its padding.  The source reads in front of the
buffer when the chunk is empty. -/
def unpad (decBuf : Bytes) (read : Nat) : Option Decryption :=
  if read = 0 then
    none
  else
    match decBuf[read - 1]? with
    | none => none
    | some paddingBytes =>
        if paddingBytes.toNat > read then
          some (.refused [])
        else
          some (.done (decBuf.take (read - paddingBytes.toNat))
            (read - paddingBytes.toNat))

def decryptLoop (aesKey : AesCbc) (left : Nat) (iv : AesBlock)
    (srcStream : Bytes) : Option Decryption :=
  match readStream (readSize left) srcStream with
  | none => none
  | some (srcBuf, srcStream) =>
      let decBuf := aesKey.decrypt iv srcBuf
      if _last : readSize left = left then
        unpad decBuf.1 (readSize left)
      else
        match decryptLoop aesKey (left - readSize left) decBuf.2
            srcStream with
        | none => none
        | some result => some (result.behind decBuf.1)
termination_by left
decreasing_by exact readSize_decreases _last

def decryptAES (aes : AESKey → AesCbc) (key : AESKey) (srcStream : Bytes)
    (size : Nat) : Option Decryption :=
  if size < aesBlockSize * 2 then
    some (.refused [])
  else
    match readIv srcStream with
    | none => none
    | some (iv, srcStream) =>
        match readStream aesBlockSize srcStream with
        | none => none
        | some (srcBuf, srcStream) =>
            decryptLoop (aes key) (size - aesBlockSize * 2)
              ((aes key).decrypt iv srcBuf).2 srcStream

/-! ## Padding -/

theorem paddingLength_bounds (read : Nat) :
    0 < paddingLength read ∧ paddingLength read ≤ aesBlockSize := by
  unfold paddingLength aesBlockSize
  dsimp only
  split_ifs <;> omega

theorem length_padding (rand : Nat → UInt8) (read : Nat) :
    (padding rand read).length = paddingLength read := by
  have positive := (paddingLength_bounds read).1
  rw [padding, List.length_append, List.length_map, List.length_range,
    List.length_singleton]
  omega

/-- A padded file consists of whole blocks. -/
theorem dvd_padded (rand : Nat → UInt8) (bytes : Bytes) :
    aesBlockSize ∣ (bytes ++ padding rand bytes.length).length := by
  rw [List.length_append, length_padding, paddingLength, aesBlockSize]
  split <;> omega

theorem paddingLength_congr {left right : Nat}
    (same : left % aesBlockSize = right % aesBlockSize) :
    paddingLength left = paddingLength right := by
  simp only [paddingLength, same]

theorem padding_congr (rand : Nat → UInt8) {left right : Nat}
    (same : left % aesBlockSize = right % aesBlockSize) :
    padding rand left = padding rand right := by
  rw [padding, paddingLength_congr same, padding]

/-- The padding of a chunk that is not empty can be taken off. -/
theorem unpad_padded (rand : Nat → UInt8) (bytes : Bytes) (length : Nat) :
    unpad (bytes ++ padding rand length)
        (bytes ++ padding rand length).length =
      some (.done bytes bytes.length) := by
  obtain ⟨positive, bound⟩ := paddingLength_bounds length
  have padded : (bytes ++ padding rand length).length =
      bytes.length + paddingLength length := by
    rw [List.length_append, length_padding]
  have before : (bytes ++ (List.range (paddingLength length - 1)).map
      rand).length = bytes.length + paddingLength length - 1 := by
    rw [List.length_append, List.length_map, List.length_range]
    omega
  have last : (bytes ++ padding rand length)[
      bytes.length + paddingLength length - 1]? =
        some (UInt8.ofNat (paddingLength length)) := by
    rw [padding, ← List.append_assoc, ← before, List.getElem?_concat_length]
  have value : (UInt8.ofNat (paddingLength length)).toNat =
      paddingLength length := by
    unfold aesBlockSize at bound
    rw [UInt8.toNat_ofNat']
    omega
  rw [unpad, padded, if_neg (by omega), last]
  dsimp only
  rw [value, if_neg (by omega), Nat.add_sub_cancel, List.take_left]

/-! ## Both loops -/

theorem readStream_append {count : Nat} {bytes rest : Bytes}
    (length : bytes.length = count) :
    readStream count (bytes ++ rest) = some (bytes, rest) := by
  rw [readStream, if_pos]
  · rw [List.take_left' length, List.drop_left' length]
  · rw [List.length_append, length]
    exact Nat.le_add_right count _

theorem readIv_append (iv : AesBlock) (rest : Bytes) :
    readIv (iv.val ++ rest) = some (iv, rest) := by
  have enough : aesBlockSize ≤ (iv.val ++ rest).length := by
    rw [List.length_append, iv.property]
    exact Nat.le_add_right _ _
  rw [readIv, dif_pos enough]
  simp only [List.take_left' iv.property, List.drop_left' iv.property]

/-- A stream that starts with a full buffer and goes on. -/
structure Chunked (srcStream chunk rest : Bytes) : Prop where
  parts : srcStream = chunk ++ rest
  length : chunk.length = bufferSize
  whole : aesBlockSize ∣ chunk.length
  more : rest ≠ []
  read : readSize srcStream.length = bufferSize
  left : srcStream.length - bufferSize = rest.length
  shorter : rest.length < srcStream.length
  full : bufferSize ≠ srcStream.length

/-- Any other stream is read at once. -/
theorem readSize_cases (srcStream : Bytes) :
    readSize srcStream.length = srcStream.length ∨
      ∃ chunk rest, Chunked srcStream chunk rest := by
  by_cases small : srcStream.length ≤ bufferSize
  · left
    unfold readSize
    split_ifs <;> omega
  · right
    have length : (srcStream.take bufferSize).length = bufferSize :=
      List.length_take_of_le (by omega)
    have positive : 0 < bufferSize := by decide
    refine ⟨srcStream.take bufferSize, srcStream.drop bufferSize,
      (List.take_append_drop _ _).symm, length, ?_, ?_, if_neg (by omega),
      List.length_drop.symm, ?_, by omega⟩
    · rw [length]
      decide
    · rw [Ne, List.drop_eq_nil_iff]
      exact small
    · rw [List.length_drop]
      omega

theorem readStream_all (srcStream : Bytes) :
    readStream srcStream.length srcStream = some (srcStream, []) := by
  simp [readStream]

/-- The chunks are encrypted as if they were one. -/
theorem encryptLoop_eq {aesKey : AesCbc} (sound : aesKey.Sound)
    (rand : Nat → UInt8) (iv : AesBlock) (srcStream : Bytes) :
    ∃ read, encryptLoop aesKey rand srcStream.length iv srcStream =
      some ((aesKey.encrypt iv
        (srcStream ++ padding rand srcStream.length)).1, read) := by
  induction size : srcStream.length using Nat.strong_induction_on
    generalizing iv srcStream with
  | _ size ih =>
      rw [← size]
      rcases readSize_cases srcStream with all | ⟨chunk, rest, chunked⟩
      · refine ⟨srcStream.length, ?_⟩
        rw [encryptLoop, all, readStream_all]
        dsimp only
        rw [dif_pos rfl]
      · obtain ⟨read, later⟩ := ih rest.length (size ▸ chunked.shorter)
          (aesKey.encrypt iv chunk).2 rest rfl
        have same : padding rand srcStream.length =
            padding rand rest.length := by
          apply padding_congr
          obtain ⟨count, blocks⟩ := chunked.whole
          rw [chunked.parts, List.length_append, blocks, Nat.mul_add_mod]
        have joined := sound.encrypt.append iv chunk
          (rest ++ padding rand rest.length) chunked.whole
          (dvd_padded rand rest)
        refine ⟨read, ?_⟩
        have first : readStream bufferSize srcStream = some (chunk, rest) := by
          rw [chunked.parts, readStream_append chunked.length]
        rw [encryptLoop, chunked.read, first]
        dsimp only
        rw [dif_neg chunked.full, chunked.left, later, same]
        rw [chunked.parts, List.append_assoc, joined]

/-- The end of a file that is not in the first chunk. -/
theorem cut_padded {chunk rest bytes pad : Bytes}
    (parts : bytes ++ pad = chunk ++ rest)
    (short : pad.length ≤ rest.length) :
    ∃ later, bytes = chunk ++ later ∧ rest = later ++ pad := by
  rcases List.append_eq_append_iff.mp parts with
    ⟨extra, chunk_eq, pad_eq⟩ | ⟨later, bytes_eq, rest_eq⟩
  · have none : extra = [] := by
      rw [pad_eq, List.length_append] at short
      exact List.length_eq_zero_iff.mp (by omega)
    rw [none] at chunk_eq pad_eq
    refine ⟨[], ?_, pad_eq.symm⟩
    rw [chunk_eq, List.append_nil, List.append_nil]
  · exact ⟨later, bytes_eq, rest_eq⟩

/-- The chunks are decrypted as if they were one. -/
theorem decryptLoop_eq {aesKey : AesCbc} (sound : aesKey.Sound)
    (rand : Nat → UInt8) (length : Nat) (iv : AesBlock)
    (srcStream bytes : Bytes) (whole : aesBlockSize ∣ srcStream.length)
    (padded : (aesKey.decrypt iv srcStream).1 =
      bytes ++ padding rand length) :
    decryptLoop aesKey srcStream.length iv srcStream =
      some (.done bytes bytes.length) := by
  induction size : srcStream.length using Nat.strong_induction_on
    generalizing iv srcStream bytes with
  | _ size ih =>
      rw [← size]
      have same := sound.decrypt.length iv srcStream whole
      rcases readSize_cases srcStream with all | ⟨chunk, rest, chunked⟩
      · rw [decryptLoop, all, readStream_all]
        dsimp only
        rw [dif_pos rfl, ← same, padded, unpad_padded]
      · have remaining : aesBlockSize ∣ rest.length := by
          rw [chunked.parts, List.length_append] at whole
          exact (Nat.dvd_add_right chunked.whole).mp whole
        have joined := sound.decrypt.append iv chunk rest chunked.whole
          remaining
        have short : (padding rand length).length ≤
            (aesKey.decrypt (aesKey.decrypt iv chunk).2 rest).1.length := by
          rw [sound.decrypt.length _ _ remaining, length_padding]
          exact (paddingLength_bounds length).2.trans
            (Nat.le_of_dvd (List.length_pos_of_ne_nil chunked.more) remaining)
        rw [chunked.parts, joined] at padded
        obtain ⟨later, rfl, end_eq⟩ := cut_padded padded.symm short
        have result := ih rest.length (size ▸ chunked.shorter) _ rest later
          remaining end_eq rfl
        have first : readStream bufferSize srcStream = some (chunk, rest) := by
          rw [chunked.parts, readStream_append chunked.length]
        rw [decryptLoop, chunked.read, first]
        dsimp only
        rw [dif_neg chunked.full, chunked.left, result]
        simp [Decryption.behind]

/-! ## The round trip -/

/-- What is decrypted behind the initial vector and the random block. -/
theorem decryptAES_append (aes : AESKey → AesCbc) (key : AESKey)
    (iv : AesBlock) {first : Bytes} (length : first.length = aesBlockSize)
    (written : Bytes) :
    decryptAES aes key (iv.val ++ (first ++ written))
        (iv.val ++ (first ++ written)).length =
      decryptLoop (aes key) written.length ((aes key).decrypt iv first).2
        written := by
  have size : (iv.val ++ (first ++ written)).length =
      aesBlockSize * 2 + written.length := by
    rw [List.length_append, List.length_append, iv.property, length]
    omega
  rw [decryptAES, size, if_neg (by omega), readIv_append]
  dsimp only
  rw [readStream_append length]
  dsimp only
  rw [Nat.add_sub_cancel_left]

/-- The initial vector, the random block and the padded file. -/
theorem encryptAES_eq (aes : AESKey → AesCbc) {key : AESKey}
    (sound : (aes key).Sound) (random : Random) (bytes : Bytes) :
    ∃ outSize, encryptAES aes random key bytes bytes.length =
      some (random.iv.val ++
        (((aes key).encrypt random.iv random.block.val).1 ++
          ((aes key).encrypt
            ((aes key).encrypt random.iv random.block.val).2
            (bytes ++ padding random.rand bytes.length)).1), outSize) := by
  obtain ⟨read, encrypted⟩ := encryptLoop_eq sound random.rand
    ((aes key).encrypt random.iv random.block.val).2 bytes
  simp only [encryptAES, encrypted, List.append_assoc]
  exact ⟨_, rfl⟩

/-- Whatever the random bytes are, decryption gives back the file. -/
theorem file_encryption_round_trip (aes : AESKey → AesCbc) (key : AESKey)
    (sound : (aes key).Sound) (random : Random) (bytes : Bytes) :
    ∃ encoded outSize,
      encryptAES aes random key bytes bytes.length =
        some (encoded, outSize) ∧
      decryptAES aes key encoded encoded.length =
        some (.done bytes bytes.length) := by
  have whole_block : aesBlockSize ∣ random.block.val.length :=
    Dvd.intro 1 ((Nat.mul_one _).trans random.block.property.symm)
  have first := sound.undoes random.iv random.block.val whole_block
  have first_length := sound.encrypt.length random.iv _ whole_block
  obtain ⟨outSize, encrypted⟩ := encryptAES_eq aes sound random bytes
  refine ⟨_, outSize, encrypted, ?_⟩
  rw [decryptAES_append aes key random.iv
    (first_length.trans random.block.property), first]
  have whole := dvd_padded random.rand bytes
  refine decryptLoop_eq sound random.rand bytes.length _ _ bytes ?_ ?_
  · rw [sound.encrypt.length _ _ whole]
    exact whole
  · exact congrArg Prod.fst (sound.undoes _ _ whole)

/-! ## AES-256 on two files -/

/-- The bytewise exclusive or of two blocks. -/
def xor (left right : AesBlock) : AesBlock :=
  ⟨List.zipWith (· ^^^ ·) left.val right.val, by
    rw [List.length_zipWith, left.property, right.property, Nat.min_self]⟩

theorem xor_cancels (block before : AesBlock) :
    xor (xor block before) before = block := by
  apply Subtype.ext
  apply List.ext_getElem
  · exact (xor _ before).property.trans block.property.symm
  · intro i inside _
    simp only [xor, List.getElem_zipWith]
    rw [UInt8.xor_assoc, UInt8.xor_self, UInt8.xor_zero]

/-- CBC with a permutation of the blocks. -/
def cbcOf (permutation : Equiv.Perm AesBlock) : AesCbc where
  encrypt := blockwise (chain permutation xor)
  decrypt := blockwise (unchain permutation xor)

theorem cbcOf_sound (permutation : Equiv.Perm AesBlock) :
    (cbcOf permutation).Sound where
  encrypt := streams_blockwise
  decrypt := streams_blockwise
  undoes := undoes_blockwise (unchain_chain xor_cancels)

/-- A block that is zero but for its last byte. -/
def lastByte (byte : UInt8) : AesBlock :=
  ⟨List.replicate 15 0 ++ [byte], rfl⟩

/-- AES-256 of the zero block under the zero key. -/
def zeroCipher : AesBlock :=
  ⟨[0xdc, 0x95, 0xc0, 0x78, 0xa2, 0x40, 0x89, 0x89,
    0xad, 0x48, 0xa2, 0x14, 0x92, 0x84, 0x20, 0x87], rfl⟩

/-- The padding of an empty file, encrypted behind it. -/
def paddingCipher : AesBlock :=
  ⟨[0xbf, 0xa0, 0xd4, 0xc2, 0x68, 0x10, 0x89, 0x1b,
    0x96, 0x43, 0x79, 0x02, 0xc7, 0x71, 0x11, 0xda], rfl⟩

/-- A file of more than one block. -/
def twentyBytes : Bytes := (List.range 20).map fun i => UInt8.ofNat (i + 1)

def firstBlock : AesBlock := ⟨twentyBytes.take 16, rfl⟩

def lastBlock : AesBlock :=
  ⟨twentyBytes.drop 16 ++ padding (fun _ => 0) 20, rfl⟩

/-- Its blocks, encrypted behind the zero block and behind one another. -/
def firstCipher : AesBlock :=
  ⟨[0x11, 0x42, 0x14, 0xf2, 0x90, 0xa2, 0xf7, 0xb2,
    0x45, 0x56, 0x8f, 0x14, 0xc9, 0x36, 0x16, 0x90], rfl⟩

def lastCipher : AesBlock :=
  ⟨[0x8d, 0x9f, 0x65, 0x76, 0xc5, 0x5b, 0x6e, 0x5f,
    0x20, 0xf5, 0x12, 0x23, 0x73, 0x5f, 0xc9, 0xc3], rfl⟩

/-- A permutation that is AES-256 under the zero key on these blocks. -/
def zeroKeyAes : Equiv.Perm AesBlock :=
  ((Equiv.swap (lastByte 0) zeroCipher).trans
    (Equiv.swap (xor (lastByte 16) zeroCipher) paddingCipher)).trans
    ((Equiv.swap (xor firstBlock zeroCipher) firstCipher).trans
      (Equiv.swap (xor lastBlock firstCipher) lastCipher))

example :
    zeroKeyAes (lastByte 0) = zeroCipher ∧
      zeroKeyAes (xor (lastByte 16) zeroCipher) = paddingCipher ∧
      zeroKeyAes (xor firstBlock zeroCipher) = firstCipher ∧
      zeroKeyAes (xor lastBlock firstCipher) = lastCipher := by
  decide +kernel

def zeroRandom : Random := ⟨lastByte 0, lastByte 0, fun _ => 0⟩

theorem file_encryption_round_trip_twentyBytes :
    ∃ encoded outSize,
      encryptAES (fun _ => cbcOf zeroKeyAes) zeroRandom
        ⟨List.replicate 32 0, rfl⟩ twentyBytes 20 =
          some (encoded, outSize) ∧
      decryptAES (fun _ => cbcOf zeroKeyAes) ⟨List.replicate 32 0, rfl⟩
        encoded encoded.length = some (.done twentyBytes 20) :=
  file_encryption_round_trip (fun _ => cbcOf zeroKeyAes)
    ⟨List.replicate 32 0, rfl⟩ (cbcOf_sound zeroKeyAes) zeroRandom twentyBytes

end PrivateDatagram.Transfer.FileEncryption
