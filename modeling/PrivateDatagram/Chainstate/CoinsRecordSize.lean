import PrivateDatagram.Chainstate.CoinsRoundTrip

/-!
# The declared size of a coin record

`GetSerializeSize` adds up the parts that `Serialize` writes, but takes eight
times the count of the mask bytes for the header code where `Serialize` takes
sixteen.  The two sizes are equal exactly when both codes are encoded in as
many bytes, and the sum fits its 32 bits.
-/

namespace PrivateDatagram.Chainstate.CoinsRecordSize

open Library.ByteFormat Wire.Transaction Wire.VarInt Wire.Compressor Coins
  CoinsMask CoinsRecord CoinsRoundTrip

/-! ## The sum -/

/-- `nCode` of `GetSerializeSize`. -/
def sizeCode (coins : CCoins) (nMaskCode : Nat) : UInt32 :=
  8 * maskCount coins nMaskCode + headerFlags coins

/-- `nSize` once the mask is measured. -/
def declaredSize (keys : KeyLibrary) (coins : CCoins)
    (nMaskSize nMaskCode : Nat) : UInt32 :=
  let nSize := UInt32.ofNat (sizeOfVarInt coins.nVersion.toInt)
  let nSize :=
    nSize + UInt32.ofNat (sizeOfVarInt (sizeCode coins nMaskCode).toNat)
  let nSize := nSize + UInt32.ofNat nMaskSize
  let nSize := (unspentOutputs coins).foldl
    (fun nSize txout => nSize + txOutSize keys txout) nSize
  nSize + UInt32.ofNat (sizeOfVarInt coins.nHeight.toInt)

/-- `GetSerializeSize`; none is a failed assertion or a loop without end. -/
def getSerializeSize (keys : KeyLibrary) (coins : CCoins) : Option UInt32 :=
  (calcMaskSize coins.vout).bind fun sizes =>
    if firstTwo coins || sizes.2 ≠ 0 then
      some (declaredSize keys coins sizes.1 sizes.2)
    else none

/-- The bytes of a record with the given header code. -/
def recordLength (keys : KeyLibrary) (coins : CCoins) (nMaskSize : Nat)
    (nCode : UInt32) : Nat :=
  sizeOfVarInt coins.nVersion.toInt + sizeOfVarInt nCode.toNat + nMaskSize +
    ((unspentOutputs coins).map fun txout =>
      (serializeTxOut keys txout).length).sum +
    sizeOfVarInt coins.nHeight.toInt

theorem length_recordBytes (keys : KeyLibrary) (coins : CCoins)
    (nMaskSize nMaskCode : Nat) :
    (recordBytes keys coins nMaskSize nMaskCode).length =
      recordLength keys coins nMaskSize (headerCode coins nMaskCode) := by
  simp only [recordBytes, recordLength, maskBytes, List.length_append,
    length_writeVarInt, List.length_map, List.length_range,
    List.length_flatMap]
  omega

theorem foldl_txOutSize (keys : KeyLibrary) (vout : List CTxOut) (n : Nat) :
    vout.foldl (fun nSize txout => nSize + txOutSize keys txout)
        (UInt32.ofNat n) =
      UInt32.ofNat (n + (vout.map fun txout =>
        (serializeTxOut keys txout).length).sum) := by
  induction vout generalizing n with
  | nil => rfl
  | cons txout vout ih =>
      rw [List.foldl_cons, txOutSize_eq, ← UInt32.ofNat_add, ih,
        List.map_cons, List.sum_cons, Nat.add_assoc]

theorem declaredSize_eq (keys : KeyLibrary) (coins : CCoins)
    (nMaskSize nMaskCode : Nat) :
    declaredSize keys coins nMaskSize nMaskCode =
      UInt32.ofNat
        (recordLength keys coins nMaskSize (sizeCode coins nMaskCode)) := by
  simp only [declaredSize]
  rw [← UInt32.ofNat_add, ← UInt32.ofNat_add, foldl_txOutSize,
    ← UInt32.ofNat_add]
  rfl

/-! ## When the sizes agree -/

/-- Both codes are encoded in as many bytes. -/
def SameLength (left right : UInt32) : Prop :=
  ∀ boundary ∈ boundaries,
    ((left.toNat : Int) < boundary ↔ (right.toNat : Int) < boundary)

instance (left right : UInt32) : Decidable (SameLength left right) :=
  inferInstanceAs (Decidable (∀ boundary ∈ boundaries, _))

theorem sizeOfVarInt_word (nCode : UInt32) :
    sizeOfVarInt nCode.toNat ≤ 5 := by
  apply (sizeOfVarInt_le_iff _ 4).mpr
  have small := nCode.toNat_lt
  have last : (2 : Int) ^ 32 ≤ varIntBound 4 := by decide
  omega

theorem sameLength_iff (left right : UInt32) :
    SameLength left right ↔
      sizeOfVarInt left.toNat = sizeOfVarInt right.toNat := by
  have leftSmall := left.toNat_lt
  have rightSmall := right.toNat_lt
  exact (sizeOfVarInt_eq_iff (by omega) (by omega)).symm

/-- A sum of 32 bits is the length exactly when nothing is cut or missing. -/
theorem declaredSize_toNat_iff (keys : KeyLibrary) (coins : CCoins)
    (nMaskSize nMaskCode : Nat) :
    (declaredSize keys coins nMaskSize nMaskCode).toNat =
        (recordBytes keys coins nMaskSize nMaskCode).length ↔
      recordLength keys coins nMaskSize (headerCode coins nMaskCode) < 2 ^ 32 ∧
        SameLength (sizeCode coins nMaskCode) (headerCode coins nMaskCode) := by
  rw [declaredSize_eq, UInt32.toNat_ofNat', length_recordBytes,
    sameLength_iff]
  have declared := sizeOfVarInt_word (sizeCode coins nMaskCode)
  have written := sizeOfVarInt_word (headerCode coins nMaskCode)
  simp only [recordLength]
  omega

/--
The declared size is the written one exactly when the record is shorter than
`2 ^ 32` bytes and no boundary of the encoding lies between the two codes.
-/
theorem declared_size_iff (keys : KeyLibrary) (coins : CCoins)
    (nMaskSize nMaskCode : Nat) (bytes : Bytes)
    (calculated : calcMaskSize coins.vout = some (nMaskSize, nMaskCode))
    (written : serialize keys coins = some bytes) :
    (getSerializeSize keys coins).map UInt32.toNat = some bytes.length ↔
      recordLength keys coins nMaskSize (headerCode coins nMaskCode) < 2 ^ 32 ∧
        SameLength (sizeCode coins nMaskCode) (headerCode coins nMaskCode) := by
  rw [serialize, calculated, Option.bind_some] at written
  rw [getSerializeSize, calculated, Option.bind_some]
  split_ifs at written ⊢ with asserted
  cases written
  rw [Option.map_some, Option.some.injEq, declaredSize_toNat_iff]

/-- A record of outputs of value zero, with a mask of full bytes. -/
theorem repeated_serialize {count : Nat}
    (fits : 2 + 8 * count ≤ 2 ^ 32 - 6) :
    serialize noKeys (repeated (2 + 8 * count)) =
      some (recordBytes noKeys (repeated (2 + 8 * count)) count count) := by
  have first : firstTwo (repeated (2 + 8 * count)) = true := by
    rw [firstTwo, repeated_available (by omega), Bool.true_or]
  rw [serialize, repeated_sizes fits, Option.bind_some, first, Bool.true_or,
    if_pos rfl]

/-- Ten outputs: the codes are 20 and 28. -/
theorem declared_size_iff_tenOutputs :
    (getSerializeSize noKeys (repeated 10)).map UInt32.toNat =
      some (recordBytes noKeys (repeated 10) 1 1).length := by
  have fits : 2 + 8 * 1 ≤ 2 ^ 32 - 6 := by decide
  have txout : (serializeTxOut noKeys ⟨0, []⟩).length = 2 := by
    have parts : serializeTxOut noKeys ⟨0, []⟩ =
        writeVarInt (0 : Nat) ++ (writeVarInt (6 : Nat) ++ []) := rfl
    rw [parts, writeVarInt_of_small (by decide),
      writeVarInt_of_small (by decide)]
    rfl
  have outputs : ((unspentOutputs (repeated 10)).map fun txout =>
      (serializeTxOut noKeys txout).length).sum = 20 := by
    have all : unspentOutputs (repeated 10) = List.replicate 10 ⟨0, []⟩ :=
      rfl
    rw [all, List.map_replicate, txout]
    rfl
  apply (declared_size_iff noKeys (repeated 10) 1 1 _ (repeated_sizes fits)
    (repeated_serialize fits)).mpr
  refine ⟨?_, by decide⟩
  have version := (sizeOfVarInt_le_iff (repeated 10).nVersion.toInt 0).mpr
    (by decide)
  have height := (sizeOfVarInt_le_iff (repeated 10).nHeight.toInt 0).mpr
    (by decide)
  have header := sizeOfVarInt_word (headerCode (repeated 10) 1)
  rw [recordLength, outputs]
  omega

/-- Sixty-six outputs: the codes are 76 and 140. -/
theorem declared_size_differs :
    ¬ ∀ (keys : KeyLibrary) (coins : CCoins) (bytes : Bytes),
      0 ≤ coins.nVersion → coins.nHeight < 2 ^ 27 →
      serialize keys coins = some bytes →
        (getSerializeSize keys coins).map UInt32.toNat =
          some bytes.length := by
  intro claim
  have fits : 2 + 8 * 8 ≤ 2 ^ 32 - 6 := by decide
  have sizes : calcMaskSize (repeated 66).vout = some (8, 8) :=
    repeated_sizes fits
  have two : firstTwo (repeated 66) = true := by decide
  have same := claim noKeys (repeated 66) _ (by decide) (by decide)
    (repeated_serialize fits)
  rw [getSerializeSize, sizes, Option.bind_some, two, Bool.true_or,
    if_pos rfl, Option.map_some, Option.some.injEq,
    declaredSize_toNat_iff] at same
  exact absurd (same.2 128 (by decide)) (by decide)

end PrivateDatagram.Chainstate.CoinsRecordSize
