import PrivateDatagram.Library.CheckedBuffer
import PrivateDatagram.Transfer.FileEncryption

/-!
# The buffers of the decryption

The decryption of a file once more, with the two buffers that its chunks go
through.  Each access to a buffer is checked, so that bytes which nobody has
encrypted may not lead out of them.  No stream is long enough for a sum of its
sizes to wrap around, but the index of the last byte of a chunk does.
-/

namespace PrivateDatagram.Transfer.DecryptionBuffers

open Library.ByteFormat Library.CipherModes Library.CheckedBuffer FileEncryption

/-- Why a run ends before the function returns. -/
inductive Stop where
  | endOfData
  | outside
deriving DecidableEq, Repr

def orStop {α : Type} (stop : Stop) : Option α → Except Stop α
  | none => .error stop
  | some value => .ok value

@[simp]
theorem orStop_none {α : Type} (stop : Stop) :
    orStop stop (none : Option α) = .error stop := rfl

@[simp]
theorem orStop_some {α : Type} (stop : Stop) (value : α) :
    orStop stop (some value) = pure value := rfl

/-- The whole blocks that some bytes reach into. -/
def blocksLength (length : Nat) : Nat :=
  (length + (aesBlockSize - 1)) / aesBlockSize * aesBlockSize

/-- `AES_cbc_encrypt` with the schedule of a key.  It reads the blocks that
the length reaches into, and writes at most as much. -/
structure AesMemory where
  decrypt : AesBlock → Bytes → Nat → Bytes × AesBlock
  footprint : ∀ iv srcBuf length,
    (decrypt iv srcBuf length).1.length ≤ blocksLength length

abbrev ChunkBuffer := Buffer UInt8 (bufferSize + aesBlockSize)

structure Buffers where
  srcBuf : ChunkBuffer
  decBuf : ChunkBuffer

/-- Read a chunk and decrypt it. -/
def decryptChunk (aesKey : AesMemory) (read : Nat) (iv : AesBlock)
    (buffers : Buffers) (srcStream : Bytes) :
    Except Stop (AesBlock × Buffers × Bytes) := do
  let (bytes, srcStream) ← orStop .endOfData (readStream read srcStream)
  let srcBuf ← orStop .outside (store buffers.srcBuf bytes)
  let input ← orStop .outside (load srcBuf 0 (blocksLength read))
  let (output, iv) := aesKey.decrypt iv input read
  let decBuf ← orStop .outside (store buffers.decBuf output)
  return (iv, ⟨srcBuf, decBuf⟩, srcStream)

/-- Write the last chunk without its padding. -/
def writeLast (decBuf : ChunkBuffer) (read : Nat) :
    Except Stop Decryption := do
  let last := (UInt64.ofNat read - 1).toNat
  let paddingBytes ← orStop .outside decBuf.val[last]?
  if paddingBytes.toNat > read then
    return .refused []
  else
    let bufSize := read - paddingBytes.toNat
    let written ← orStop .outside (load decBuf 0 bufSize)
    return .done written bufSize

def decryptChunks (aesKey : AesMemory) (left : Nat) (iv : AesBlock)
    (buffers : Buffers) (srcStream : Bytes) : Except Stop Decryption :=
  match decryptChunk aesKey (readSize left) iv buffers srcStream with
  | .error stop => .error stop
  | .ok (iv, buffers, srcStream) =>
      if _last : readSize left = left then
        writeLast buffers.decBuf (readSize left)
      else
        match load buffers.decBuf 0 (readSize left) with
        | none => .error .outside
        | some written =>
            match decryptChunks aesKey (left - readSize left) iv buffers
                srcStream with
            | .error stop => .error stop
            | .ok result => .ok (result.behind written)
termination_by left
decreasing_by exact readSize_decreases _last

/-- The buffers hold any bytes in the beginning. -/
def decryptInBuffers (aes : AESKey → AesMemory) (key : AESKey)
    (buffers : Buffers) (srcStream : Bytes) (size : Nat) :
    Except Stop Decryption :=
  if size < aesBlockSize * 2 then
    .ok (.refused [])
  else
    match readIv srcStream with
    | none => .error .endOfData
    | some (iv, srcStream) =>
        match decryptChunk (aes key) aesBlockSize iv buffers srcStream with
        | .error stop => .error stop
        | .ok (iv, buffers, srcStream) =>
            decryptChunks (aes key) (size - aesBlockSize * 2) iv buffers
              srcStream

/-! ## One chunk -/

theorem blocksLength_le {read : Nat} (small : read ≤ bufferSize) :
    blocksLength read ≤ bufferSize + aesBlockSize := by
  simp only [blocksLength, bufferSize, aesBlockSize] at small ⊢
  omega

theorem readSize_le (left : Nat) :
    readSize left ≤ bufferSize ∧ readSize left ≤ left := by
  simp only [readSize]
  split_ifs with small
  · exact ⟨small.le, le_rfl⟩
  · exact ⟨le_rfl, Nat.le_of_not_lt small⟩

/-- The blocks that are decrypted for a chunk.  The last one may end with what
the buffer held before. -/
def chunkInput (buffers : Buffers) (read : Nat) (srcStream : Bytes) : Bytes :=
  (srcStream.take read ++ buffers.srcBuf.val.drop read).take
    (blocksLength read)

/-- No chunk leaves the buffers, whatever it holds. -/
theorem decryptChunk_contained (aesKey : AesMemory) {read : Nat}
    (iv : AesBlock) (buffers : Buffers) {srcStream : Bytes}
    (small : read ≤ bufferSize) (enough : read ≤ srcStream.length) :
    ∃ decrypted : Buffers,
      decryptChunk aesKey read iv buffers srcStream =
        .ok ((aesKey.decrypt iv (chunkInput buffers read srcStream) read).2,
          decrypted, srcStream.drop read) ∧
      ∃ behind, decrypted.decBuf.val =
        (aesKey.decrypt iv (chunkInput buffers read srcStream) read).1 ++
          behind := by
  have taken : (srcStream.take read).length = read :=
    List.length_take_of_le enough
  have stream : readStream read srcStream =
      some (srcStream.take read, srcStream.drop read) := by
    simp [readStream, enough]
  have blocks := blocksLength_le small
  have room : (srcStream.take read).length ≤ bufferSize + aesBlockSize := by
    rw [taken]
    exact small.trans (Nat.le_add_right _ _)
  obtain ⟨srcBuf, filled, bytes⟩ := store_inside buffers.srcBuf room
  rw [taken] at bytes
  have input : load srcBuf 0 (blocksLength read) =
      some (chunkInput buffers read srcStream) := by
    rw [load_inside srcBuf blocks, bytes, chunkInput]
  obtain ⟨decBuf, decrypted, output⟩ := store_inside buffers.decBuf
    ((aesKey.footprint iv (chunkInput buffers read srcStream) read).trans
      blocks)
  refine ⟨⟨srcBuf, decBuf⟩, ?_, _, output⟩
  simp only [decryptChunk, stream, orStop_some, pure_bind, filled, input,
    decrypted]
  rfl

/-! ## The last chunk -/

/-- What is written is reported, and is not larger than this. -/
def Fits (size : Nat) : Decryption → Prop
  | .refused dstStream => dstStream.length ≤ size
  | .done dstStream outSize =>
      outSize = dstStream.length ∧ dstStream.length ≤ size

theorem Fits.behind {size : Nat} {result : Decryption}
    (fits : Fits size result) (chunk : Bytes) :
    Fits (chunk.length + size) (result.behind chunk) := by
  cases result with
  | refused dstStream =>
      simp only [Fits, Decryption.behind, List.length_append] at fits ⊢
      exact Nat.add_le_add_left fits _
  | done dstStream outSize =>
      simp only [Fits, Decryption.behind, List.length_append] at fits ⊢
      exact ⟨congrArg _ fits.1, Nat.add_le_add_left fits.2 _⟩

theorem lastIndex {read : Nat} (positive : 0 < read)
    (small : read ≤ bufferSize) :
    (UInt64.ofNat read - 1).toNat = read - 1 := by
  have one : (1 : UInt64) = UInt64.ofNat 1 := rfl
  simp only [bufferSize] at small
  rw [one, ← UInt64.ofNat_sub positive, UInt64.toNat_ofNat']
  omega

/-- The padding of a chunk that is not empty never leaves it. -/
theorem writeLast_contained (decBuf : ChunkBuffer) {read : Nat}
    (positive : 0 < read) (small : read ≤ bufferSize) :
    ∃ result, writeLast decBuf read = .ok result ∧ Fits read result := by
  have room : read ≤ bufferSize + aesBlockSize :=
    small.trans (Nat.le_add_right _ _)
  obtain ⟨paddingBytes, last⟩ := getElem?_inside decBuf
    (Nat.sub_one_lt_of_le positive room)
  simp only [writeLast, lastIndex positive small, last, orStop_some,
    pure_bind]
  split_ifs with more
  · exact ⟨_, rfl, Nat.zero_le _⟩
  · have less : read - paddingBytes.toNat ≤ read := Nat.sub_le _ _
    rw [load_inside decBuf (less.trans room)]
    refine ⟨_, rfl, ?_, ?_⟩
    · rw [List.length_take_of_le]
      rw [decBuf.property]
      exact less.trans room
    · exact (List.length_take_le _ _).trans less

/-- The byte in front of an empty chunk is outside of the buffer. -/
theorem writeLast_empty (decBuf : ChunkBuffer) :
    writeLast decBuf 0 = .error .outside := by
  have last : decBuf.val[(UInt64.ofNat 0 - 1).toNat]? = none :=
    getElem?_outside decBuf (by decide)
  simp only [writeLast, last, orStop_none]
  rfl

/-! ## All chunks -/

theorem decryptChunks_contained (aesKey : AesMemory) (left : Nat)
    (iv : AesBlock) (buffers : Buffers) (srcStream : Bytes)
    (positive : 0 < left) (enough : left ≤ srcStream.length) :
    ∃ result, decryptChunks aesKey left iv buffers srcStream = .ok result ∧
      Fits left result := by
  induction left using Nat.strong_induction_on
    generalizing iv buffers srcStream with
  | _ left ih =>
      obtain ⟨small, less⟩ := readSize_le left
      obtain ⟨decrypted, chunk, -⟩ := decryptChunk_contained aesKey iv
        buffers small (less.trans enough)
      rw [decryptChunks, chunk]
      by_cases last : readSize left = left
      · simp only [dif_pos last]
        rw [last] at small ⊢
        exact writeLast_contained decrypted.decBuf positive small
      · have room : readSize left ≤ bufferSize + aesBlockSize :=
          small.trans (Nat.le_add_right _ _)
        have remaining : left - readSize left ≤
            (srcStream.drop (readSize left)).length := by
          rw [List.length_drop]
          exact Nat.sub_le_sub_right enough _
        obtain ⟨result, rest, fits⟩ := ih (left - readSize left)
          (readSize_decreases last)
          (aesKey.decrypt iv (chunkInput buffers (readSize left) srcStream)
            (readSize left)).2
          decrypted _ (Nat.sub_pos_of_lt (lt_of_le_of_ne less last)) remaining
        simp only [dif_neg last, load_inside decrypted.decBuf room, rest]
        refine ⟨_, rfl, ?_⟩
        have length : (decrypted.decBuf.val.take (readSize left)).length =
            readSize left := by
          rw [List.length_take_of_le]
          rw [decrypted.decBuf.property]
          exact room
        have sum : (decrypted.decBuf.val.take (readSize left)).length +
            (left - readSize left) = left := by
          rw [length]
          exact Nat.add_sub_of_le less
        have all := fits.behind (decrypted.decBuf.val.take (readSize left))
        rw [sum] at all
        exact all

/-! ## The whole file -/

/-- The initial vector and the random block are in front of the chunks. -/
theorem decryptInBuffers_eq (aes : AESKey → AesMemory) (key : AESKey)
    (buffers : Buffers) {srcStream : Bytes}
    (enough : aesBlockSize * 2 ≤ srcStream.length) :
    ∃ (iv : AesBlock) (decrypted : Buffers),
      decryptInBuffers aes key buffers srcStream srcStream.length =
        decryptChunks (aes key) (srcStream.length - aesBlockSize * 2) iv
          decrypted (srcStream.drop (aesBlockSize * 2)) := by
  have first : aesBlockSize ≤ srcStream.length :=
    (Nat.le_mul_of_pos_right _ (by decide)).trans enough
  have second : aesBlockSize ≤ (srcStream.drop aesBlockSize).length := by
    rw [List.length_drop]
    exact Nat.le_sub_of_add_le (Nat.mul_two aesBlockSize ▸ enough)
  have vector : readIv srcStream =
      some (⟨srcStream.take aesBlockSize, List.length_take_of_le first⟩,
        srcStream.drop aesBlockSize) := by
    simp [readIv, first]
  obtain ⟨decrypted, chunk, -⟩ := decryptChunk_contained (aes key)
    ⟨srcStream.take aesBlockSize, List.length_take_of_le first⟩ buffers
    (by decide : aesBlockSize ≤ bufferSize) second
  simp only [decryptInBuffers, if_neg (Nat.not_lt_of_le enough), vector,
    chunk, List.drop_drop]
  exact ⟨_, decrypted, rfl⟩

theorem decryptInBuffers_empty (aes : AESKey → AesMemory) (key : AESKey)
    (buffers : Buffers) {srcStream : Bytes}
    (length : srcStream.length = aesBlockSize * 2) :
    decryptInBuffers aes key buffers srcStream srcStream.length =
      .error .outside := by
  obtain ⟨iv, decrypted, run⟩ := decryptInBuffers_eq aes key buffers
    length.ge
  obtain ⟨chunks, chunk, -⟩ := decryptChunk_contained (aes key) iv decrypted
    (Nat.zero_le bufferSize)
    (Nat.zero_le (srcStream.drop (aesBlockSize * 2)).length)
  have none : readSize 0 = 0 := rfl
  rw [run, length, Nat.sub_self, decryptChunks, none, chunk]
  simp only [dif_pos, writeLast_empty]

/-- Whatever the bytes are, the decryption stays in its buffers and gives no
more than the bytes behind the random block, unless there are none. -/
theorem decryption_contained_iff (aes : AESKey → AesMemory) (key : AESKey)
    (buffers : Buffers) (srcStream : Bytes) :
    (∃ result,
      decryptInBuffers aes key buffers srcStream srcStream.length =
        .ok result ∧
      Fits (srcStream.length - aesBlockSize * 2) result) ↔
      srcStream.length ≠ aesBlockSize * 2 := by
  constructor
  · rintro ⟨result, run, -⟩ length
    rw [decryptInBuffers_empty aes key buffers length] at run
    exact absurd run (by simp)
  · intro other
    by_cases short : srcStream.length < aesBlockSize * 2
    · refine ⟨.refused [], ?_, Nat.zero_le _⟩
      simp only [decryptInBuffers, if_pos short]
    · have enough := Nat.le_of_not_lt short
      obtain ⟨iv, decrypted, run⟩ := decryptInBuffers_eq aes key buffers
        enough
      rw [run]
      apply decryptChunks_contained
      · exact Nat.sub_pos_of_lt (lt_of_le_of_ne enough other.symm)
      · exact List.length_drop.ge

/-- The cipher of streams, on memory. -/
def AesMemory.ofCbc (cbc : AesCbc) : AesMemory where
  decrypt iv srcBuf length :=
    ((cbc.decrypt iv srcBuf).1.take (blocksLength length),
      (cbc.decrypt iv srcBuf).2)
  footprint _ _ length := List.length_take_le (blocksLength length) _

/-- Buffers that nothing has been written to. -/
def zeroBuffers : Buffers where
  srcBuf := ⟨List.replicate (bufferSize + aesBlockSize) 0,
    List.length_replicate⟩
  decBuf := ⟨List.replicate (bufferSize + aesBlockSize) 0,
    List.length_replicate⟩

/-- Behind an initial vector and a random block of zeros, the decryption
leaves its buffer. -/
theorem decryption_of_zeros_outside :
    decryptInBuffers (fun _ => .ofCbc (cbcOf zeroKeyAes))
      ⟨List.replicate 32 0, rfl⟩ zeroBuffers (List.replicate 32 0)
      (List.replicate 32 (0 : UInt8)).length = .error .outside ∧
    ¬ ∃ result,
      decryptInBuffers (fun _ => .ofCbc (cbcOf zeroKeyAes))
        ⟨List.replicate 32 0, rfl⟩ zeroBuffers (List.replicate 32 0)
        (List.replicate 32 (0 : UInt8)).length = .ok result := by
  have outside := decryptInBuffers_empty
    (fun _ => .ofCbc (cbcOf zeroKeyAes)) ⟨List.replicate 32 0, rfl⟩
    zeroBuffers (List.length_replicate (n := 32) (a := (0 : UInt8)))
  exact ⟨outside, by simp only [outside, reduceCtorEq, exists_false,
    not_false_eq_true]⟩

/-! ## Whole blocks -/

theorem blocksLength_whole {read : Nat} (whole : aesBlockSize ∣ read) :
    blocksLength read = read := by
  obtain ⟨count, rfl⟩ := whole
  simp only [blocksLength, aesBlockSize]
  omega

/-- The cipher gives as many bytes as it gets, on whole blocks. -/
def KeepsLength (cbc : AesCbc) : Prop :=
  ∀ iv bytes, aesBlockSize ∣ bytes.length →
    (cbc.decrypt iv bytes).1.length = bytes.length

section Lengths

variable {cbc : AesCbc} (keepsLength : KeepsLength cbc)
include keepsLength

/-- The buffers hold what the streams give. -/
theorem decryptChunk_whole {read : Nat} (iv : AesBlock) (buffers : Buffers)
    {srcStream bytes rest : Bytes} (whole : aesBlockSize ∣ read)
    (small : read ≤ bufferSize)
    (stream : readStream read srcStream = some (bytes, rest)) :
    ∃ decrypted : Buffers,
      decryptChunk (.ofCbc cbc) read iv buffers srcStream =
        .ok ((cbc.decrypt iv bytes).2, decrypted, rest) ∧
      (cbc.decrypt iv bytes).1.length = read ∧
      ∃ behind, decrypted.decBuf.val =
        (cbc.decrypt iv bytes).1 ++ behind := by
  simp only [readStream] at stream
  split_ifs at stream with enough
  obtain ⟨rfl, rfl⟩ := Prod.mk.inj (Option.some.inj stream)
  have taken : (srcStream.take read).length = read :=
    List.length_take_of_le enough
  have length := keepsLength iv (srcStream.take read) (taken.symm ▸ whole)
  rw [taken] at length
  have input : chunkInput buffers read srcStream = srcStream.take read := by
    rw [chunkInput, blocksLength_whole whole, List.take_left' taken]
  have output : ((AesMemory.ofCbc cbc).decrypt iv (srcStream.take read)
      read) = cbc.decrypt iv (srcStream.take read) := by
    simp only [AesMemory.ofCbc, blocksLength_whole whole]
    rw [List.take_of_length_le length.le]
  obtain ⟨decrypted, chunk, behind, bytes⟩ :=
    decryptChunk_contained (.ofCbc cbc) iv buffers small enough
  rw [input, output] at chunk bytes
  exact ⟨decrypted, chunk, length, behind, bytes⟩

omit keepsLength in
theorem writeLast_whole (decBuf : ChunkBuffer) {output behind : Bytes}
    (small : output.length ≤ bufferSize)
    (bytes : decBuf.val = output ++ behind) :
    (writeLast decBuf output.length).toOption =
      unpad output output.length := by
  by_cases none : output.length = 0
  · rw [none, writeLast_empty, unpad, if_pos rfl]
    rfl
  · have positive := Nat.pos_of_ne_zero none
    have inside := Nat.sub_one_lt_of_lt positive
    have last : decBuf.val[output.length - 1]? =
        some output[output.length - 1] := by
      rw [bytes, List.getElem?_append_left inside,
        List.getElem?_eq_getElem inside]
    simp only [writeLast, unpad, lastIndex positive small, last, if_neg none,
      List.getElem?_eq_getElem inside, orStop_some, pure_bind]
    split_ifs with more
    · rfl
    · have less : output.length -
          output[output.length - 1].toNat ≤ output.length := Nat.sub_le _ _
      have room := less.trans (small.trans (Nat.le_add_right _ aesBlockSize))
      rw [load_inside decBuf room, bytes, List.take_append_of_le_length less]
      rfl

theorem decryptChunks_whole (left : Nat) (iv : AesBlock)
    (buffers : Buffers) (srcStream : Bytes) (whole : aesBlockSize ∣ left) :
    (decryptChunks (.ofCbc cbc) left iv buffers srcStream).toOption =
      decryptLoop cbc left iv srcStream := by
  induction left using Nat.strong_induction_on
    generalizing iv buffers srcStream with
  | _ left ih =>
      obtain ⟨small, less⟩ := readSize_le left
      have chunked : aesBlockSize ∣ readSize left := by
        simp only [readSize]
        split_ifs
        · exact whole
        · decide
      rw [decryptChunks, decryptLoop]
      cases stream : readStream (readSize left) srcStream with
      | none =>
          have stopped : decryptChunk (.ofCbc cbc) (readSize left) iv buffers
              srcStream = .error .endOfData := by
            simp only [decryptChunk, stream, orStop_none]
            rfl
          rw [stopped]
          rfl
      | some parts =>
          obtain ⟨decrypted, chunk, length, behind, bytes⟩ :=
            decryptChunk_whole keepsLength iv buffers chunked small stream
          rw [chunk]
          by_cases last : readSize left = left
          · simp only [dif_pos last]
            rw [← length] at small ⊢
            exact writeLast_whole decrypted.decBuf small bytes
          · have room : readSize left ≤ bufferSize + aesBlockSize :=
              small.trans (Nat.le_add_right _ _)
            have rest := ih (left - readSize left)
              (readSize_decreases last) (cbc.decrypt iv parts.1).2 decrypted
              parts.2 (Nat.dvd_sub whole chunked)
            simp only [dif_neg last, load_inside decrypted.decBuf room]
            rw [← rest, bytes, List.take_left' length]
            cases decryptChunks (.ofCbc cbc) (left - readSize left)
              (cbc.decrypt iv parts.1).2 decrypted parts.2 <;> rfl

end Lengths

/-- On whole blocks, the buffers change nothing in the loop over the chunks. -/
theorem decryptInBuffers_whole (aes : AESKey → AesCbc) {key : AESKey}
    (keepsLength : KeepsLength (aes key)) (buffers : Buffers)
    (srcStream : Bytes) (size : Nat) (whole : aesBlockSize ∣ size) :
    (decryptInBuffers (fun key => .ofCbc (aes key)) key buffers srcStream
      size).toOption = decryptAES aes key srcStream size := by
  simp only [decryptInBuffers, decryptAES]
  split_ifs with short
  · rfl
  · cases readIv srcStream with
    | none => rfl
    | some parts =>
        cases stream : readStream aesBlockSize parts.2 with
        | none =>
            simp only [decryptChunk, stream, orStop_none]
            rfl
        | some blocks =>
            obtain ⟨decrypted, chunk, -⟩ := decryptChunk_whole keepsLength
              parts.1 buffers dvd_rfl (by decide) stream
            simp only [chunk, stream]
            exact decryptChunks_whole keepsLength _ _ decrypted _
              (Nat.dvd_sub whole (Dvd.intro 2 rfl))

/-- The file of twenty bytes as it is encrypted. -/
def twentyEncrypted : Bytes :=
  (lastByte 0).val ++ zeroCipher.val ++ firstCipher.val ++ lastCipher.val

theorem decryptInBuffers_whole_twentyBytes :
    (decryptInBuffers (fun _ => .ofCbc (cbcOf zeroKeyAes))
      ⟨List.replicate 32 0, rfl⟩ zeroBuffers twentyEncrypted 64).toOption =
      decryptAES (fun _ => cbcOf zeroKeyAes) ⟨List.replicate 32 0, rfl⟩
        twentyEncrypted 64 :=
  decryptInBuffers_whole (fun _ => cbcOf zeroKeyAes)
    (cbcOf_sound zeroKeyAes).decrypt.length zeroBuffers _ 64 ⟨4, rfl⟩

end PrivateDatagram.Transfer.DecryptionBuffers
