import PrivateDatagram.Transfer.FileEncryption

/-!
# The size of an encrypted file

The size of an encrypted file is known in three ways: the encryption writes
it, reports it, and the fee of a file is taken from a formula.  The last two
agree, and both leave out the random block.
-/

namespace PrivateDatagram.Transfer.EncryptedSize

open Library.ByteFormat Library.CipherModes FileEncryption

def calcEncodedFileSize (srcSize : UInt64) : UInt64 :=
  let blockSize := UInt64.ofNat aesBlockSize
  blockSize + srcSize +
    (if srcSize % blockSize = 0 then blockSize
      else blockSize - srcSize % blockSize)

/-! ## The writer -/

@[simp]
theorem readStream_enough {count : Nat} {srcStream : Bytes}
    (enough : count ≤ srcStream.length) :
    readStream count srcStream =
      some (srcStream.take count, srcStream.drop count) := by
  simp [readStream, enough]

/-- A chunk that is not the last one fills the buffer. -/
theorem readSize_full {left : Nat} (more : readSize left ≠ left) :
    readSize left = bufferSize ∧ bufferSize < left := by
  simp only [readSize] at more ⊢
  split_ifs at more ⊢ with large
  · exact absurd rfl more
  · exact ⟨rfl, lt_of_le_of_ne (Nat.le_of_not_lt large) more⟩

/-- The padding as the fee and the reported size have it. -/
theorem paddingLength_eq (read : Nat) :
    paddingLength read =
      if read % aesBlockSize = 0 then aesBlockSize
      else aesBlockSize - read % aesBlockSize := by
  have less : read % aesBlockSize < aesBlockSize :=
    Nat.mod_lt read (by decide)
  by_cases zero : read % aesBlockSize = 0
  · simp [paddingLength, zero]
  · rw [paddingLength, if_neg (Nat.sub_ne_zero_of_lt less), if_neg zero]

/-- What is written after the random block is the file and its padding. -/
theorem encryptLoop_length {aesKey : AesCbc}
    (streams : Streams aesBlockSize aesKey.encrypt) (rand : Nat → UInt8)
    (left : Nat) (iv : AesBlock) (srcStream : Bytes)
    (enough : left ≤ srcStream.length) :
    ∃ written read,
      encryptLoop aesKey rand left iv srcStream = some (written, read) ∧
      written.length = left + paddingLength left ∧
      read % aesBlockSize = left % aesBlockSize := by
  induction left using Nat.strong_induction_on generalizing iv srcStream with
  | _ left ih =>
      by_cases last : readSize left = left
      · have taken : (srcStream.take left).length = left :=
          List.length_take_of_le enough
        have whole := dvd_padded rand (srcStream.take left)
        rw [taken] at whole
        rw [encryptLoop, last, readStream_enough enough]
        simp only [dif_pos]
        refine ⟨_, left, rfl, ?_, rfl⟩
        rw [streams.length _ _ whole, List.length_append, taken,
          length_padding]
      · obtain ⟨full, larger⟩ := readSize_full last
        have taken : (srcStream.take bufferSize).length = bufferSize :=
          List.length_take_of_le (larger.le.trans enough)
        have dropped : left - bufferSize ≤
            (srcStream.drop bufferSize).length := by
          rw [List.length_drop]
          exact Nat.sub_le_sub_right enough bufferSize
        obtain ⟨written, read, later, length, rest⟩ :=
          ih (left - bufferSize) (Nat.sub_lt_of_pos_le (by decide) larger.le)
            (aesKey.encrypt iv (srcStream.take bufferSize)).2 _ dropped
        have same : (left - bufferSize) % aesBlockSize =
            left % aesBlockSize := by
          simp only [aesBlockSize, bufferSize] at larger ⊢
          omega
        have whole : aesBlockSize ∣ (srcStream.take bufferSize).length := by
          rw [taken]
          decide
        have chunk := streams.length iv _ whole
        refine ⟨(aesKey.encrypt iv (srcStream.take bufferSize)).1 ++ written,
          read, ?_, ?_, rest.trans same⟩
        · rw [encryptLoop, full,
            readStream_enough (larger.le.trans enough)]
          simp only [dif_neg (full ▸ last), later]
        · rw [List.length_append, chunk, taken, length,
            paddingLength_congr same]
          omega

/-! ## The reported size -/

theorem encryptAES_length (aes : AESKey → AesCbc) {key : AESKey}
    (streams : Streams aesBlockSize (aes key).encrypt) (random : Random)
    (srcStream : Bytes) (size : Nat) (enough : size ≤ srcStream.length) :
    ∃ written,
      encryptAES aes random key srcStream size =
        some (written, aesBlockSize + size + paddingLength size) ∧
      written.length =
        aesBlockSize + aesBlockSize + size + paddingLength size := by
  have whole : aesBlockSize ∣ random.block.val.length :=
    ⟨1, random.block.property⟩
  have first := streams.length random.iv _ whole
  obtain ⟨written, read, later, length, rest⟩ :=
    encryptLoop_length streams random.rand size
      ((aes key).encrypt random.iv random.block.val).2 srcStream enough
  have fill : (if size % aesBlockSize = 0 then aesBlockSize
      else aesBlockSize - read % aesBlockSize) = paddingLength size := by
    rw [rest, paddingLength_eq]
  refine ⟨random.iv.val ++ ((aes key).encrypt random.iv random.block.val).1 ++
    written, ?_, ?_⟩
  · simp only [encryptAES, later, fill]
    rw [Nat.add_comm aesBlockSize]
  · rw [List.length_append, List.length_append, first, length,
      random.iv.property, random.block.property]
    omega

theorem calcEncodedFileSize_eq (size : Nat) :
    calcEncodedFileSize (UInt64.ofNat size) =
      UInt64.ofNat (aesBlockSize + size + paddingLength size) := by
  have rest : (UInt64.ofNat size % UInt64.ofNat aesBlockSize) =
      UInt64.ofNat (size % aesBlockSize) := by
    apply UInt64.toNat_inj.mp
    simp [aesBlockSize]
    omega
  have zero : UInt64.ofNat (size % aesBlockSize) = 0 ↔
      size % aesBlockSize = 0 := by
    rw [← UInt64.toNat_inj]
    simp [aesBlockSize]
    omega
  have less : size % aesBlockSize ≤ aesBlockSize :=
    (Nat.mod_lt size (by decide)).le
  have fill : UInt64.ofNat (paddingLength size) =
      if UInt64.ofNat (size % aesBlockSize) = 0 then UInt64.ofNat aesBlockSize
      else UInt64.ofNat aesBlockSize - UInt64.ofNat (size % aesBlockSize) := by
    simp only [zero, paddingLength_eq]
    split_ifs with whole
    · rfl
    · exact UInt64.ofNat_sub less
  simp only [calcEncodedFileSize, rest, UInt64.ofNat_add, fill]

/-- A file of any size is written with one block more than what is reported
and paid for. -/
theorem encrypted_size_differs (aes : AESKey → AesCbc) {key : AESKey}
    (sound : (aes key).Sound) (random : Random) (srcStream : Bytes)
    (size : Nat) (enough : size ≤ srcStream.length) :
    ∃ written outSize,
      encryptAES aes random key srcStream size = some (written, outSize) ∧
      calcEncodedFileSize (UInt64.ofNat size) = UInt64.ofNat outSize ∧
      written.length = outSize + aesBlockSize ∧
      written.length ≠ outSize ∧
      written.length ≠ (calcEncodedFileSize (UInt64.ofNat size)).toNat := by
  obtain ⟨written, encrypted, length⟩ :=
    encryptAES_length aes sound.encrypt random srcStream size enough
  have positive : 0 < aesBlockSize := by decide
  have formula := calcEncodedFileSize_eq size
  have most : (calcEncodedFileSize (UInt64.ofNat size)).toNat ≤
      aesBlockSize + size + paddingLength size := by
    rw [formula, UInt64.toNat_ofNat']
    exact Nat.mod_le _ _
  refine ⟨written, _, encrypted, formula, ?_, ?_, ?_⟩
  · omega
  · omega
  · omega

theorem encrypted_size_differs_twentyBytes :
    ∃ written outSize,
      encryptAES (fun _ => cbcOf zeroKeyAes) zeroRandom
        ⟨List.replicate 32 0, rfl⟩ twentyBytes 20 =
          some (written, outSize) ∧
      calcEncodedFileSize (UInt64.ofNat 20) = UInt64.ofNat outSize ∧
      written.length = outSize + aesBlockSize ∧
      written.length ≠ outSize ∧
      written.length ≠ (calcEncodedFileSize (UInt64.ofNat 20)).toNat :=
  encrypted_size_differs (fun _ => cbcOf zeroKeyAes)
    (cbcOf_sound zeroKeyAes) zeroRandom twentyBytes 20 le_rfl

/-- For the empty file 48 bytes are written, and 32 are reported. -/
theorem empty_file_written :
    ∃ written,
      encryptAES (fun _ => cbcOf zeroKeyAes) zeroRandom
        ⟨List.replicate 32 0, rfl⟩ [] 0 = some (written, 32) ∧
      written.length = 48 ∧ calcEncodedFileSize 0 = 32 ∧
      ¬ (written.length = 32 ∧
        written.length = (calcEncodedFileSize 0).toNat) := by
  obtain ⟨written, encrypted, length⟩ :=
    encryptAES_length (fun _ => cbcOf zeroKeyAes)
      (cbcOf_sound zeroKeyAes).encrypt zeroRandom [] 0 (Nat.zero_le _)
  refine ⟨written, encrypted, length, by decide, fun agree => ?_⟩
  exact absurd (length.symm.trans agree.1) (by decide)

end PrivateDatagram.Transfer.EncryptedSize
