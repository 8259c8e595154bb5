import PrivateDatagram.Chainstate.CoinsRoundTrip

/-!
# Undo records

A `CTxInUndo` keeps a spent output for the disconnection of its block.  One
number holds the height and below it two flags.  The version stands behind it
when the height is not zero, since only the last output of a transaction to be
spent has a height, and the output follows in compressed form.

The record is read into an object of the empty constructor, whose version is
zero.
-/

namespace PrivateDatagram.Chainstate.UndoRecord

open Library.ByteFormat Wire.Transaction Wire.VarInt Wire.Compressor
  Validation.CheckTransaction Coins CoinsRecord CoinsRoundTrip

/-! ## The record -/

/-- The height and the two flags, in 32 bits. -/
def undoCode (undo : CTxInUndo) : UInt32 :=
  undo.nHeight * 4 + (if undo.fCoinBase then 2 else 0) +
    (if undo.fCoinStake then 1 else 0)

def serialize (keys : KeyLibrary) (undo : CTxInUndo) : Bytes :=
  writeVarInt (undoCode undo).toNat ++
    ((if undo.nHeight > 0 then writeVarInt undo.nVersion.toInt else []) ++
      serializeTxOut keys undo.txout)

/-- The version, which stays zero without a height. -/
def readVersion (nHeight : Nat) : Decoder Nat :=
  if nHeight > 0 then readVarInt 32 else pure 0

def unserialize (keys : KeyLibrary) : Decoder CTxInUndo := do
  let nCode ← readVarInt 32
  let nHeight := nCode >>> 2
  let nVersion ← readVersion nHeight
  let txout ← unserializeTxOut keys
  pure ⟨txout, nCode &&& 2 ≠ 0, nCode &&& 1 ≠ 0, UInt32.ofNat nHeight,
    Int32.ofNat nVersion⟩

/-- `GetSerializeSize`, the sum of the three parts. -/
def getSerializeSize (keys : KeyLibrary) (undo : CTxInUndo) : UInt32 :=
  UInt32.ofNat (sizeOfVarInt (undoCode undo).toNat) +
    (if undo.nHeight > 0 then UInt32.ofNat (sizeOfVarInt undo.nVersion.toInt)
      else 0) +
    txOutSize keys undo.txout

/-- The declared size is that of the record, in 32 bits. -/
theorem getSerializeSize_eq (keys : KeyLibrary) (undo : CTxInUndo) :
    getSerializeSize keys undo =
      UInt32.ofNat (serialize keys undo).length := by
  rw [getSerializeSize, serialize, txOutSize_eq, List.length_append,
    List.length_append, length_writeVarInt, UInt32.ofNat_add,
    UInt32.ofNat_add, UInt32.add_assoc]
  split_ifs with positive
  · rw [length_writeVarInt]
  · rfl

/-! ## The code -/

/-- The flags of the code. -/
def undoFlags (undo : CTxInUndo) : Nat :=
  (if undo.fCoinBase then 2 else 0) + if undo.fCoinStake then 1 else 0

/-- Each flag has a bit of its own. -/
theorem undoFlags_bits (undo : CTxInUndo) :
    undoFlags undo < 4 ∧
      decide (undoFlags undo &&& 2 ≠ 0) = undo.fCoinBase ∧
      decide (undoFlags undo &&& 1 ≠ 0) = undo.fCoinStake := by
  rw [undoFlags]
  generalize undo.fCoinBase = base
  generalize undo.fCoinStake = stake
  revert base stake
  decide

theorem toNat_undoCode {undo : CTxInUndo} (low : undo.nHeight < 2 ^ 30) :
    (undoCode undo).toNat = 4 * undo.nHeight.toNat + undoFlags undo := by
  have bounded : undo.nHeight.toNat < 2 ^ 30 := UInt32.lt_iff_toNat_lt.mp low
  have four : (4 : UInt32).toNat = 4 := rfl
  have base : (if undo.fCoinBase then 2 else 0 : UInt32).toNat =
      if undo.fCoinBase then 2 else 0 := by
    split_ifs <;> rfl
  have stake : (if undo.fCoinStake then 1 else 0 : UInt32).toNat =
      if undo.fCoinStake then 1 else 0 := by
    split_ifs <;> rfl
  have small := (undoFlags_bits undo).1
  rw [undoFlags] at small ⊢
  rw [undoCode, UInt32.toNat_add, UInt32.toNat_add, UInt32.toNat_mul, four,
    base, stake]
  omega

/-- The code keeps its parts while the height stays below 30 bits. -/
theorem undoCode_parts {undo : CTxInUndo} (low : undo.nHeight < 2 ^ 30) :
    (undoCode undo).toNat >>> 2 = undo.nHeight.toNat ∧
      decide ((undoCode undo).toNat &&& 2 ≠ 0) = undo.fCoinBase ∧
      decide ((undoCode undo).toNat &&& 1 ≠ 0) = undo.fCoinStake := by
  rcases undoFlags_bits undo with ⟨small, base, stake⟩
  have code := toNat_undoCode low
  have bits : ∀ mask, mask < 2 ^ 2 →
      (undoCode undo).toNat &&& mask = undoFlags undo &&& mask := by
    intro mask smallMask
    have flags : (undoCode undo).toNat % 2 ^ 2 = undoFlags undo := by omega
    rw [and_low smallMask, flags]
  refine ⟨?_, ?_, ?_⟩
  · rw [Nat.shiftRight_eq_div_pow]
    omega
  · rw [bits 2 (by decide), base]
  · rw [bits 1 (by decide), stake]

/-! ## The round trip -/

/-- A record of a spent output, with the version only behind a height. -/
structure Restorable (undo : CTxInUndo) : Prop where
  height : undo.nHeight < 2 ^ 30
  version : 0 ≤ undo.nVersion
  unversioned : undo.nHeight = 0 → undo.nVersion = 0
  value : moneyRange undo.txout.nValue = true

/-- The version is read where it was written. -/
theorem readVersion_consumes {undo : CTxInUndo}
    (restorable : Restorable undo) :
    Consumes (readVersion undo.nHeight.toNat)
      (if undo.nHeight > 0 then writeVarInt undo.nVersion.toInt else [])
      undo.nVersion.toNatClampNeg := by
  have same : undo.nHeight > 0 ↔ undo.nHeight.toNat > 0 :=
    UInt32.lt_iff_toNat_lt
  rw [readVersion]
  by_cases positive : undo.nHeight.toNat > 0
  · rw [if_pos positive, if_pos (same.mpr positive)]
    exact readVarInt_int32 restorable.version
  · have zero : undo.nHeight = 0 :=
      UInt32.toNat_inj.mp (Nat.eq_zero_of_not_pos positive)
    rw [if_neg positive, if_neg (mt same.mp positive),
      restorable.unversioned zero]
    exact Consumes.pure 0

theorem unserialize_consumes {keys : KeyLibrary} (curve : keys.Decompresses)
    {undo : CTxInUndo} (restorable : Restorable undo)
    (short : undo.txout.scriptPubKey.length + nSpecialScripts < 2 ^ 32) :
    Consumes (unserialize keys) (serialize keys undo) undo := by
  rcases undoCode_parts restorable.height with ⟨height, base, stake⟩
  rcases (moneyRange_iff _).mp restorable.value with ⟨notNegative, bounded⟩
  rw [toInt_maxMoneyOut] at bounded
  have output := unserializeTxOut_consumes curve undo.txout
    (Int64.le_iff_toInt_le.mpr notNegative) (by omega) short
  apply (readVarInt_consumes 32 _ (undoCode undo).toNat_lt).bind
  simp only [height]
  apply (readVersion_consumes restorable).bind
  rw [← List.append_nil (serializeTxOut keys undo.txout)]
  apply output.bind
  rw [base, stake, UInt32.ofNat_toNat,
    Int32.ofNat_toNatClampNeg _ restorable.version]
  exact Consumes.pure undo

/--
What is written for a spent output is read back, whatever stands behind it, and
the declared size counts the bytes in 32 bits.
-/
theorem undo_round_trip (keys : KeyLibrary) (curve : keys.Decompresses)
    (undo : CTxInUndo) (restorable : Restorable undo)
    (short : undo.txout.scriptPubKey.length + nSpecialScripts < 2 ^ 32) :
    Consumes (unserialize keys) (serialize keys undo) undo ∧
      (getSerializeSize keys undo).toNat =
        (serialize keys undo).length % 2 ^ 32 := by
  refine ⟨unserialize_consumes curve restorable short, ?_⟩
  rw [getSerializeSize_eq, UInt32.toNat_ofNat']

/-- The last output of a block reward, paid to the generator. -/
def reward : CTxInUndo where
  txout := ⟨5000000000, 65 :: generator ++ [opCheckSig]⟩
  fCoinBase := true
  fCoinStake := false
  nHeight := 120891
  nVersion := 1

theorem undo_round_trip_reward :
    Consumes (unserialize generatorKeys) (serialize generatorKeys reward)
        reward ∧
      (getSerializeSize generatorKeys reward).toNat =
        (serialize generatorKeys reward).length % 2 ^ 32 :=
  undo_round_trip generatorKeys generatorKeys_decompresses reward
    ⟨by decide, by decide, by decide, by decide⟩ (by decide)

/-! ## A script whose length is cut -/

/-- An output of value zero that is not the last of its transaction. -/
def worthless (script : CScript) : CTxInUndo :=
  ⟨⟨0, script⟩, false, false, 0, 0⟩

theorem worthless_restorable (script : CScript) :
    Restorable (worthless script) where
  height := by
    show (0 : UInt32) < 2 ^ 30
    decide
  version := Int32.le_refl 0
  unversioned := fun _ => rfl
  value := by
    show moneyRange 0 = true
    decide

theorem serialize_worthless (keys : KeyLibrary) (script : CScript) :
    serialize keys (worthless script) =
      [0, 0] ++ serializeScript keys script := by
  have zero : writeVarInt (0 : Nat) = [0] := writeVarInt_of_small (by decide)
  have code : (undoCode (worthless script)).toNat = 0 := rfl
  have height : ¬ (worthless script).nHeight > 0 := UInt32.lt_irrefl 0
  have amount :
      (compressAmount (worthless script).txout.nValue.toUInt64).toNat = 0 :=
    rfl
  rw [serialize, code, if_neg height, serializeTxOut, amount, zero]
  rfl

/-- The reader takes the zeros for a hash. -/
theorem zeros_not_read {n : Nat}
    (cut : UInt32.ofNat (n + nSpecialScripts) = 0) (long : 67 < n) :
    ¬ Consumes (unserialize noKeys)
      (serialize noKeys (worthless (List.replicate n 0)))
      (worthless (List.replicate n 0)) := by
  intro read
  have hash := unserialize_consumes noKeys_decompresses
    (worthless_restorable zeroHash) (by decide)
  rw [serialize_worthless, serializeScript_zeros cut long] at read
  rw [serialize_worthless, serializeScript_zeroHash] at hash
  have zeros : List.replicate n (0 : UInt8) =
      List.replicate 20 0 ++ List.replicate (n - 20) 0 := by
    rw [← List.replicate_add]
    congr 1
    omega
  have split : [0, 0] ++ 0 :: List.replicate n (0 : UInt8) ++ [] =
      [0, 0] ++ 0 :: List.replicate 20 0 ++ List.replicate (n - 20) 0 := by
    rw [zeros, List.append_nil, List.append_assoc]
    rfl
  have whole := read []
  rw [split, hash (List.replicate (n - 20) 0)] at whole
  have same := congrArg (fun undo => undo.txout.scriptPubKey.length)
    (Prod.mk.inj (Except.ok.inj whole)).1
  have size : zeroHash.length = 25 := by decide
  simp only [worthless, List.length_replicate, size] at same
  omega

/-- The longest script whose length is not cut makes `2 ^ 32` bytes. -/
theorem length_serialize_zeros {n : Nat}
    (longest : n + nSpecialScripts = 2 ^ 32 - 1) :
    (serialize noKeys (worthless (List.replicate n 0))).length = 2 ^ 32 := by
  have six : nSpecialScripts = 6 := rfl
  have size : (markedSize (List.replicate n 0)).toNat = 2 ^ 32 - 1 := by
    rw [markedSize, List.length_replicate, longest]
    rfl
  have five : sizeOfVarInt ((2 ^ 32 - 1 : Nat) : Int) = 5 := by
    have most := (sizeOfVarInt_le_iff ((2 ^ 32 - 1 : Nat) : Int) 4).mpr
      (by decide)
    have least := mt (sizeOfVarInt_le_iff ((2 ^ 32 - 1 : Nat) : Int) 3).mp
      (by decide)
    omega
  rw [serialize_worthless, serializeScript, compress_zeros (by omega)]
  simp only [size, List.length_append, List.length_replicate,
    length_writeVarInt, five]
  rw [six] at longest
  show 2 + (5 + n) = 2 ^ 32
  omega

/-- The declared size of that record is zero. -/
theorem size_not_counted {n : Nat}
    (longest : n + nSpecialScripts = 2 ^ 32 - 1) :
    ¬ ((worthless (List.replicate n 0)).txout.scriptPubKey.length +
        nSpecialScripts < 2 ^ 32 →
      (getSerializeSize noKeys (worthless (List.replicate n 0))).toNat =
        (serialize noKeys (worthless (List.replicate n 0))).length) := by
  intro counted
  have short : (worthless (List.replicate n 0)).txout.scriptPubKey.length +
      nSpecialScripts < 2 ^ 32 := by
    show (List.replicate n 0).length + nSpecialScripts < 2 ^ 32
    rw [List.length_replicate, longest]
    decide
  have declared := counted short
  have below := UInt32.toNat_lt
    (getSerializeSize noKeys (worthless (List.replicate n 0)))
  rw [declared, length_serialize_zeros longest] at below
  exact Nat.lt_irrefl _ below

/-- Without a bound a script is not read back, or not all of it is counted. -/
theorem undo_counters_wrap :
    (¬ ∀ (keys : KeyLibrary) (undo : CTxInUndo), keys.Decompresses →
      Restorable undo →
        Consumes (unserialize keys) (serialize keys undo) undo) ∧
    ¬ ∀ (keys : KeyLibrary) (undo : CTxInUndo), keys.Decompresses →
      Restorable undo →
      undo.txout.scriptPubKey.length + nSpecialScripts < 2 ^ 32 →
        (getSerializeSize keys undo).toNat =
          (serialize keys undo).length := by
  refine ⟨fun claim => ?_, fun claim => ?_⟩
  · have long : 67 < 2 ^ 32 - 6 := by decide
    have cut : UInt32.ofNat (2 ^ 32 - 6 + nSpecialScripts) = 0 := by decide
    exact zeros_not_read cut long
      (claim noKeys _ noKeys_decompresses (worthless_restorable _))
  · have longest : 2 ^ 32 - 7 + nSpecialScripts = 2 ^ 32 - 1 := by decide
    exact size_not_counted longest
      (claim noKeys _ noKeys_decompresses (worthless_restorable _))

end PrivateDatagram.Chainstate.UndoRecord
