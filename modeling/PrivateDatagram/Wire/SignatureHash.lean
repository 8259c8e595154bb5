import PrivateDatagram.Wire.Script

/-!
# What a signature commits to

`SignatureHash` feeds the hash with its own serialization of the transaction,
written by `CTransactionSignatureSerializer`.  It "serializes like
CTransaction", but it was not extended when the transaction gained a type, a
meta object and a file list: with `SIGHASH_ALL` it writes the version, the
inputs, the outputs and the lock time, and nothing else.
-/

namespace PrivateDatagram.Wire.SignatureHash

open Library.ByteFormat Serialize Transaction Wire.Script

/-! ## The signature serializer -/

def sighashAll : Int32 := 1
def sighashNone : Int32 := 2
def sighashSingle : Int32 := 3
def sighashAnyoneCanPay : Int32 := 0x80

structure CTransactionSignatureSerializer where
  txTo : CTransaction
  scriptCode : CScript
  nIn : UInt32
  fAnyoneCanPay : Bool
  fHashSingle : Bool
  fHashNone : Bool

def CTransactionSignatureSerializer.new (txTo : CTransaction)
    (scriptCode : CScript) (nIn : UInt32) (nHashType : Int32) :
    CTransactionSignatureSerializer where
  txTo := txTo
  scriptCode := scriptCode
  nIn := nIn
  fAnyoneCanPay := nHashType &&& sighashAnyoneCanPay != 0
  fHashSingle := nHashType &&& 0x1f == sighashSingle
  fHashNone := nHashType &&& 0x1f == sighashNone

/-- The first loop of `SerializeScriptCode`. -/
def countCodeSeparators (it : CScript) : Nat :=
  let read := getOp2 it
  if _ok : read.ok then
    (if read.opcode = opCodeSeparator then 1 else 0) +
      countCodeSeparators read.pc
  else
    0
termination_by it.length
decreasing_by exact getOp2_length _ok

/--
The second loop.  `itBegin` and `it` are the rests of the script at the two
iterators; a piece ends before a separator, or where reading stopped.
-/
def writeScriptPieces (itBegin it : CScript) : Bytes :=
  let read := getOp2 it
  if _ok : read.ok then
    if read.opcode = opCodeSeparator then
      itBegin.take (itBegin.length - read.pc.length - 1) ++
        writeScriptPieces read.pc read.pc
    else
      writeScriptPieces itBegin read.pc
  else if itBegin ≠ [] then
    itBegin.take (itBegin.length - read.pc.length)
  else
    []
termination_by it.length
decreasing_by
  · exact getOp2_length _ok
  · exact getOp2_length _ok

namespace CTransactionSignatureSerializer

def serializeScriptCode (self : CTransactionSignatureSerializer) : Bytes :=
  writeCompactSize
      (self.scriptCode.length - countCodeSeparators self.scriptCode) ++
    writeScriptPieces self.scriptCode self.scriptCode

/-- One input of `txTo`; `txin` is `txTo.vin[nInput]`. -/
def serializeTxIn (self : CTransactionSignatureSerializer) (nInput : Nat)
    (txin : CTxIn) : Bytes :=
  COutPoint.format.encode txin.prevout ++
    ((if nInput ≠ self.nIn.toNat then blob.encode []
      else self.serializeScriptCode) ++
      (if nInput ≠ self.nIn.toNat ∧ (self.fHashSingle ∨ self.fHashNone) then
        int32.encode 0
      else
        uint32.encode txin.nSequence))

def serializeInput (self : CTransactionSignatureSerializer) (nInput : Nat) :
    Bytes :=
  let nInput := if self.fAnyoneCanPay then self.nIn.toNat else nInput
  match self.txTo.vin[nInput]? with
  | some txin => self.serializeTxIn nInput txin
  | none => []

def serializeOutput (self : CTransactionSignatureSerializer)
    (nOutput : Nat) : Bytes :=
  if self.fHashSingle ∧ nOutput ≠ self.nIn.toNat then
    CTxOut.format.encode ⟨-1, []⟩
  else
    match self.txTo.vout[nOutput]? with
    | some txout => CTxOut.format.encode txout
    | none => []

/-- The counts are `unsigned int`. -/
def nInputs (self : CTransactionSignatureSerializer) : Nat :=
  if self.fAnyoneCanPay then 1 else self.txTo.vin.length % 2 ^ 32

def nOutputs (self : CTransactionSignatureSerializer) : Nat :=
  if self.fHashNone then 0
  else if self.fHashSingle then (self.nIn + 1).toNat
  else self.txTo.vout.length % 2 ^ 32

def serialize (self : CTransactionSignatureSerializer) : Bytes :=
  int32.encode self.txTo.nVersion ++
    (writeCompactSize self.nInputs ++
      ((List.range self.nInputs).flatMap self.serializeInput ++
        (writeCompactSize self.nOutputs ++
          ((List.range self.nOutputs).flatMap self.serializeOutput ++
            uint32.encode self.txTo.nLockTime))))

end CTransactionSignatureSerializer

/--
The bytes `SignatureHash` feeds to the hash, or `none` where it returns the
constant one without hashing.
-/
def signaturePreimage (scriptCode : CScript) (txTo : CTransaction)
    (nIn : UInt32) (nHashType : Int32) : Option Bytes :=
  if txTo.vin.length ≤ nIn.toNat then
    none
  else if nHashType &&& 0x1f = sighashSingle ∧
      txTo.vout.length ≤ nIn.toNat then
    none
  else
    some ((CTransactionSignatureSerializer.new txTo scriptCode nIn
      nHashType).serialize ++ int32.encode nHashType)

/-! ## The fields that are and are not signed -/

/-- What `SIGHASH_ALL` writes, apart from the script code. -/
structure SignedFields where
  nVersion : Int32
  inputs : List (COutPoint × UInt32)
  outputs : List CTxOut
  nLockTime : UInt32

/-- The prevout and sequence number of an input. -/
def inputFields (txin : CTxIn) : COutPoint × UInt32 :=
  (txin.prevout, txin.nSequence)

def signedFields (tx : CTransaction) : SignedFields where
  nVersion := tx.nVersion
  inputs := (tx.vin.take (tx.vin.length % 2 ^ 32)).map inputFields
  outputs := tx.vout.take (tx.vout.length % 2 ^ 32)
  nLockTime := tx.nLockTime

/-- The meta object and file list as the transaction serializer writes them. -/
inductive WrittenMeta where
  | nothing
  | paymentRequest (value : CPaymentRequest)
  | paymentConfirm (value : CPaymentConfirm)
  | fileTransfer (value : CFileMeta) (vfiles : List CFile)

def writtenMeta (tx : CTransaction) : WrittenMeta :=
  if tx.type = txFilePaymentRequest then
    .paymentRequest tx.metadata.getOrRecreatePaymentRequest
  else if tx.type = txFilePaymentConfirm then
    .paymentConfirm tx.metadata.getOrRecreatePaymentConfirm
  else if tx.type = txFileTransfer then
    .fileTransfer tx.metadata.getOrRecreateFileMeta tx.vfiles
  else
    .nothing

/--
What the transaction serializer writes and the signature serializer does not:
the type, the meta object, the files, and the inputs and outputs that a
32-bit count cuts off.
-/
structure UnsignedFields where
  type : Int32
  metadata : WrittenMeta
  moreInputs : List (COutPoint × UInt32)
  moreOutputs : List CTxOut

def unsignedFields (tx : CTransaction) : UnsignedFields where
  type := tx.type
  metadata := writtenMeta tx
  moreInputs := (tx.vin.drop (tx.vin.length % 2 ^ 32)).map inputFields
  moreOutputs := tx.vout.drop (tx.vout.length % 2 ^ 32)

/-- Equal in every serialized field, except for the scriptSigs. -/
structure SameExceptScriptSigs (left right : CTransaction) : Prop where
  nVersion : left.nVersion = right.nVersion
  type : left.type = right.type
  metadata : writtenMeta left = writtenMeta right
  vin : left.vin.map inputFields = right.vin.map inputFields
  vout : left.vout = right.vout
  nLockTime : left.nLockTime = right.nLockTime

/-- Two lists agree on a prefix exactly when they agree index by index. -/
theorem take_map_eq_iff {α β : Type} (view : α → β) {left right : List α}
    {leftCount rightCount : Nat} (leftEnough : leftCount ≤ left.length)
    (rightEnough : rightCount ≤ right.length) :
    (left.take leftCount).map view = (right.take rightCount).map view ↔
      leftCount = rightCount ∧
        ∀ index < leftCount,
          left[index]?.map view = right[index]?.map view := by
  constructor
  · intro equal
    have counts := congrArg List.length equal
    simp only [List.length_map, List.length_take] at counts
    refine ⟨by omega, ?_⟩
    intro index inside
    have here := congrArg (fun values => values[index]?) equal
    simp only [List.getElem?_map, List.getElem?_take] at here
    rw [if_pos inside, if_pos (by omega)] at here
    exact here
  · rintro ⟨rfl, pointwise⟩
    apply List.ext_getElem?
    intro index
    simp only [List.getElem?_map, List.getElem?_take]
    split_ifs with inside
    · exact pointwise index inside
    · rfl

theorem signedFields_eq_iff (left right : CTransaction) :
    signedFields left = signedFields right ↔
      left.nVersion = right.nVersion ∧
      (left.vin.length % 2 ^ 32 = right.vin.length % 2 ^ 32 ∧
        ∀ nInput < left.vin.length % 2 ^ 32,
          left.vin[nInput]?.map inputFields =
            right.vin[nInput]?.map inputFields) ∧
      (left.vout.length % 2 ^ 32 = right.vout.length % 2 ^ 32 ∧
        ∀ nOutput < left.vout.length % 2 ^ 32,
          left.vout[nOutput]? = right.vout[nOutput]?) ∧
      left.nLockTime = right.nLockTime := by
  have inputs := take_map_eq_iff inputFields
    (Nat.mod_le left.vin.length (2 ^ 32))
    (Nat.mod_le right.vin.length (2 ^ 32))
  have outputs := take_map_eq_iff (fun txout : CTxOut => txout)
    (Nat.mod_le left.vout.length (2 ^ 32))
    (Nat.mod_le right.vout.length (2 ^ 32))
  simp only [List.map_id', Option.map_id'] at outputs
  simp only [signedFields, SignedFields.mk.injEq, inputs, outputs]

/-- Signed and unsigned fields together are all the serialized ones. -/
theorem sameExceptScriptSigs_iff (left right : CTransaction) :
    SameExceptScriptSigs left right ↔
      signedFields left = signedFields right ∧
        unsignedFields left = unsignedFields right := by
  constructor
  · intro same
    have vinLength := congrArg List.length same.vin
    simp only [List.length_map] at vinLength
    simp only [signedFields, unsignedFields, List.map_take, List.map_drop,
      vinLength, same.vin, same.vout, same.nVersion, same.nLockTime,
      same.type, same.metadata, and_self]
  · rintro ⟨signed, unsigned⟩
    simp only [signedFields, unsignedFields, SignedFields.mk.injEq,
      UnsignedFields.mk.injEq] at signed unsigned
    rcases signed with ⟨nVersion, inputs, outputs, nLockTime⟩
    rcases unsigned with ⟨type, metadata, moreInputs, moreOutputs⟩
    refine ⟨nVersion, type, metadata, ?_, ?_, nLockTime⟩
    · rw [← List.take_append_drop (left.vin.length % 2 ^ 32) left.vin,
        ← List.take_append_drop (right.vin.length % 2 ^ 32) right.vin,
        List.map_append, List.map_append, inputs, moreInputs]
    · rw [← List.take_append_drop (left.vout.length % 2 ^ 32) left.vout,
        ← List.take_append_drop (right.vout.length % 2 ^ 32) right.vout,
        outputs, moreOutputs]

/-! ## The bytes determine exactly the signed fields -/

/-- A `std::vector` has a 64-bit size. -/
def ScriptSizesFit (tx : CTransaction) : Prop :=
  ∀ txout ∈ tx.vout, txout.scriptPubKey.length < 2 ^ 64

theorem blob_encode_unambiguous :
    Unambiguous blob.encode (fun bytes => bytes.length < 2 ^ 64) := by
  intro left right leftRest rightRest leftFits rightFits equal
  change writeCompactSize left.length ++ left ++ leftRest =
    writeCompactSize right.length ++ right ++ rightRest at equal
  rw [List.append_assoc, List.append_assoc] at equal
  rcases writeCompactSize_unambiguous _ _ _ _ leftFits rightFits equal with
    ⟨sameLength, bytesEqual⟩
  exact List.append_inj bytesEqual sameLength

theorem CTxOut.encode_unambiguous :
    Unambiguous CTxOut.format.encode
      (fun txout => txout.scriptPubKey.length < 2 ^ 64) := by
  intro left right leftRest rightRest leftFits rightFits equal
  change int64.encode left.nValue ++ blob.encode left.scriptPubKey ++
      leftRest =
    int64.encode right.nValue ++ blob.encode right.scriptPubKey ++
      rightRest at equal
  rw [List.append_assoc, List.append_assoc] at equal
  rcases int64.unambiguous _ _ _ _ trivial trivial equal with
    ⟨sameValue, scriptEqual⟩
  rcases blob_encode_unambiguous _ _ _ _ leftFits rightFits scriptEqual with
    ⟨sameScript, restEqual⟩
  refine ⟨?_, restEqual⟩
  cases left
  cases right
  simp only [CTxOut.mk.injEq]
  exact ⟨sameValue, sameScript⟩

section SighashAll

variable (scriptCode : CScript) (nIn : UInt32)

/-- The serializer `SignatureHash` builds for `SIGHASH_ALL`. -/
def serializerAll (tx : CTransaction) : CTransactionSignatureSerializer :=
  .new tx scriptCode nIn sighashAll

theorem serializerAll_input (tx : CTransaction) {nInput : Nat}
    {txin : CTxIn} (here : tx.vin[nInput]? = some txin) :
    (serializerAll scriptCode nIn tx).serializeInput nInput =
      COutPoint.format.encode txin.prevout ++
        ((if nInput ≠ nIn.toNat then blob.encode []
          else (serializerAll scriptCode nIn tx).serializeScriptCode) ++
          uint32.encode txin.nSequence) := by
  have none : (serializerAll scriptCode nIn tx).fAnyoneCanPay = false := rfl
  have one : (serializerAll scriptCode nIn tx).fHashSingle = false := rfl
  have two : (serializerAll scriptCode nIn tx).fHashNone = false := rfl
  have whole : (serializerAll scriptCode nIn tx).txTo = tx := rfl
  have index : (serializerAll scriptCode nIn tx).nIn = nIn := rfl
  simp only [CTransactionSignatureSerializer.serializeInput,
    CTransactionSignatureSerializer.serializeTxIn, none, one, two, whole,
    index, here, Bool.false_eq_true, if_false, or_false, and_false]

theorem serializerAll_output (tx : CTransaction) {nOutput : Nat}
    {txout : CTxOut} (here : tx.vout[nOutput]? = some txout) :
    (serializerAll scriptCode nIn tx).serializeOutput nOutput =
      CTxOut.format.encode txout := by
  have one : (serializerAll scriptCode nIn tx).fHashSingle = false := rfl
  have whole : (serializerAll scriptCode nIn tx).txTo = tx := rfl
  simp only [CTransactionSignatureSerializer.serializeOutput, one, whole,
    here, Bool.false_eq_true, false_and, if_false]

theorem serializerAll_serialize (tx : CTransaction) :
    (serializerAll scriptCode nIn tx).serialize =
      int32.encode tx.nVersion ++
        (writeCompactSize (tx.vin.length % 2 ^ 32) ++
          ((List.range (tx.vin.length % 2 ^ 32)).flatMap
              (serializerAll scriptCode nIn tx).serializeInput ++
            (writeCompactSize (tx.vout.length % 2 ^ 32) ++
              ((List.range (tx.vout.length % 2 ^ 32)).flatMap
                  (serializerAll scriptCode nIn tx).serializeOutput ++
                uint32.encode tx.nLockTime)))) :=
  rfl

/-- Every input and output below the 32-bit counts is there. -/
theorem getElem?_of_lt_mod {α : Type} {values : List α} {index : Nat}
    (inside : index < values.length % 2 ^ 32) :
    ∃ value, values[index]? = some value := by
  have enough : index < values.length :=
    Nat.lt_of_lt_of_le inside (Nat.mod_le _ _)
  exact ⟨values[index], List.getElem?_eq_getElem enough⟩

theorem serializerAll_congr {left right : CTransaction}
    (same : signedFields left = signedFields right) :
    (serializerAll scriptCode nIn left).serialize =
      (serializerAll scriptCode nIn right).serialize := by
  rw [signedFields_eq_iff] at same
  rcases same with ⟨nVersion, ⟨inputs, inputsSame⟩,
    ⟨outputs, outputsSame⟩, nLockTime⟩
  have inputPieces :
      (List.range (left.vin.length % 2 ^ 32)).flatMap
          (serializerAll scriptCode nIn left).serializeInput =
        (List.range (left.vin.length % 2 ^ 32)).flatMap
          (serializerAll scriptCode nIn right).serializeInput := by
    apply List.flatMap_congr
    intro nInput inside
    rw [List.mem_range] at inside
    rcases getElem?_of_lt_mod inside with ⟨leftIn, leftHere⟩
    rcases getElem?_of_lt_mod (inputs ▸ inside) with ⟨rightIn, rightHere⟩
    have fields := inputsSame nInput inside
    rw [leftHere, rightHere] at fields
    simp only [Option.map_some, Option.some.injEq, inputFields,
      Prod.mk.injEq] at fields
    rw [serializerAll_input scriptCode nIn left leftHere,
      serializerAll_input scriptCode nIn right rightHere, fields.1, fields.2]
    rfl
  have outputPieces :
      (List.range (left.vout.length % 2 ^ 32)).flatMap
          (serializerAll scriptCode nIn left).serializeOutput =
        (List.range (left.vout.length % 2 ^ 32)).flatMap
          (serializerAll scriptCode nIn right).serializeOutput := by
    apply List.flatMap_congr
    intro nOutput inside
    rw [List.mem_range] at inside
    rcases getElem?_of_lt_mod inside with ⟨leftOut, leftHere⟩
    have rightHere := (outputsSame nOutput inside).symm.trans leftHere
    rw [serializerAll_output scriptCode nIn left leftHere,
      serializerAll_output scriptCode nIn right rightHere]
  rw [serializerAll_serialize, serializerAll_serialize, inputPieces,
    outputPieces, nVersion, nLockTime, inputs, outputs]

theorem serializerAll_input_piece {left right : CTransaction}
    {nInput : Nat} {leftIn rightIn : CTxIn}
    (leftHere : left.vin[nInput]? = some leftIn)
    (rightHere : right.vin[nInput]? = some rightIn)
    {leftRest rightRest : Bytes}
    (equal :
      (serializerAll scriptCode nIn left).serializeInput nInput ++ leftRest =
        (serializerAll scriptCode nIn right).serializeInput nInput ++
          rightRest) :
    inputFields leftIn = inputFields rightIn ∧ leftRest = rightRest := by
  rw [serializerAll_input scriptCode nIn left leftHere,
    serializerAll_input scriptCode nIn right rightHere] at equal
  simp only [List.append_assoc] at equal
  rcases COutPoint.format.unambiguous _ _ _ _ ⟨trivial, trivial⟩
    ⟨trivial, trivial⟩ equal with ⟨samePrevout, afterPrevout⟩
  -- Both sides write the same script code: it comes from the caller.
  have afterScript := List.append_cancel_left afterPrevout
  rcases uint32.unambiguous _ _ _ _ trivial trivial afterScript with
    ⟨sameSequence, restEqual⟩
  exact ⟨Prod.ext samePrevout sameSequence, restEqual⟩

theorem mod_lt_two_pow_64 (size : Nat) : size % 2 ^ 32 < 2 ^ 64 := by
  omega

theorem serializerAll_signedFields {left right : CTransaction}
    (leftFits : ScriptSizesFit left) (rightFits : ScriptSizesFit right)
    {leftRest rightRest : Bytes}
    (equal :
      (serializerAll scriptCode nIn left).serialize ++ leftRest =
        (serializerAll scriptCode nIn right).serialize ++ rightRest) :
    signedFields left = signedFields right := by
  rw [serializerAll_serialize, serializerAll_serialize] at equal
  simp only [List.append_assoc] at equal
  rcases int32.unambiguous _ _ _ _ trivial trivial equal with
    ⟨nVersion, equal₁⟩
  rcases writeCompactSize_unambiguous _ _ _ _ (mod_lt_two_pow_64 _)
    (mod_lt_two_pow_64 _) equal₁ with ⟨inputs, equal₂⟩
  rw [← inputs] at equal₂
  rcases flatMap_unambiguous
      (fun nInput =>
        left.vin[nInput]?.map inputFields =
          right.vin[nInput]?.map inputFields)
      (by
        intro nInput inside _ _ pieces
        rw [List.mem_range] at inside
        rcases getElem?_of_lt_mod inside with ⟨leftIn, leftHere⟩
        rcases getElem?_of_lt_mod (inputs ▸ inside) with
          ⟨rightIn, rightHere⟩
        rcases serializerAll_input_piece scriptCode nIn leftHere rightHere
          pieces with ⟨same, restEqual⟩
        rw [leftHere, rightHere, Option.map_some, Option.map_some, same]
        exact ⟨rfl, restEqual⟩) equal₂ with ⟨inputsSame, equal₃⟩
  rcases writeCompactSize_unambiguous _ _ _ _ (mod_lt_two_pow_64 _)
    (mod_lt_two_pow_64 _) equal₃ with ⟨outputs, equal₄⟩
  rw [← outputs] at equal₄
  rcases flatMap_unambiguous
      (fun nOutput => left.vout[nOutput]? = right.vout[nOutput]?)
      (by
        intro nOutput inside _ _ pieces
        rw [List.mem_range] at inside
        rcases getElem?_of_lt_mod inside with ⟨leftOut, leftHere⟩
        rcases getElem?_of_lt_mod (outputs ▸ inside) with
          ⟨rightOut, rightHere⟩
        rw [serializerAll_output scriptCode nIn left leftHere,
          serializerAll_output scriptCode nIn right rightHere] at pieces
        rcases CTxOut.encode_unambiguous _ _ _ _
          (leftFits _ (List.mem_of_getElem? leftHere))
          (rightFits _ (List.mem_of_getElem? rightHere)) pieces with
          ⟨same, restEqual⟩
        rw [leftHere, rightHere, same]
        exact ⟨rfl, restEqual⟩) equal₄ with ⟨outputsSame, equal₅⟩
  rcases uint32.unambiguous _ _ _ _ trivial trivial equal₅ with
    ⟨nLockTime, _⟩
  rw [signedFields_eq_iff]
  refine ⟨nVersion, ⟨inputs, ?_⟩, ⟨outputs, ?_⟩, nLockTime⟩
  · intro nInput inside
    exact inputsSame nInput (List.mem_range.mpr inside)
  · intro nOutput inside
    exact outputsSame nOutput (List.mem_range.mpr inside)

end SighashAll

/-! ## Exactly when SIGHASH_ALL commits to the whole transaction -/

theorem signaturePreimage_all (scriptCode : CScript) (tx : CTransaction)
    {nIn : UInt32} (inside : nIn.toNat < tx.vin.length) :
    signaturePreimage scriptCode tx nIn sighashAll =
      some ((serializerAll scriptCode nIn tx).serialize ++
        int32.encode sighashAll) := by
  have other : sighashAll &&& 0x1f ≠ sighashSingle := by decide
  unfold signaturePreimage
  rw [if_neg (Nat.not_le.mpr inside), if_neg (fun both => other both.1)]
  rfl

theorem signaturePreimage_outside (scriptCode : CScript) (tx : CTransaction)
    {nIn : UInt32} (outside : tx.vin.length ≤ nIn.toNat)
    (nHashType : Int32) :
    signaturePreimage scriptCode tx nIn nHashType = none := by
  unfold signaturePreimage
  rw [if_pos outside]

/--
Equal preimages mean equal transactions exactly when nothing is hashed for
one of them, when the signed fields already differ, or when the fields that
only the transaction serializer writes agree.
-/
theorem signature_commits_iff (left right : CTransaction) (nIn : UInt32)
    (scriptCode : CScript) (leftFits : ScriptSizesFit left)
    (rightFits : ScriptSizesFit right) :
    (∀ bytes,
      signaturePreimage scriptCode left nIn sighashAll = some bytes →
      signaturePreimage scriptCode right nIn sighashAll = some bytes →
      SameExceptScriptSigs left right) ↔
    (left.vin.length ≤ nIn.toNat ∨ right.vin.length ≤ nIn.toNat ∨
      signedFields left ≠ signedFields right ∨
      unsignedFields left = unsignedFields right) := by
  constructor
  · intro commits
    by_cases leftOutside : left.vin.length ≤ nIn.toNat
    · exact Or.inl leftOutside
    by_cases rightOutside : right.vin.length ≤ nIn.toNat
    · exact Or.inr (Or.inl rightOutside)
    by_cases signed : signedFields left = signedFields right
    · have leftBytes := signaturePreimage_all scriptCode left
        (Nat.not_le.mp leftOutside)
      have rightBytes := signaturePreimage_all scriptCode right
        (Nat.not_le.mp rightOutside)
      rw [← serializerAll_congr scriptCode nIn signed] at rightBytes
      have same := commits _ leftBytes rightBytes
      exact Or.inr (Or.inr (Or.inr
        ((sameExceptScriptSigs_iff left right).mp same).2))
    · exact Or.inr (Or.inr (Or.inl signed))
  · intro condition bytes leftBytes rightBytes
    have leftInside : nIn.toNat < left.vin.length := by
      by_contra outside
      rw [signaturePreimage_outside scriptCode left
        (Nat.not_lt.mp outside)] at leftBytes
      cases leftBytes
    have rightInside : nIn.toNat < right.vin.length := by
      by_contra outside
      rw [signaturePreimage_outside scriptCode right
        (Nat.not_lt.mp outside)] at rightBytes
      cases rightBytes
    rw [signaturePreimage_all scriptCode left leftInside] at leftBytes
    rw [signaturePreimage_all scriptCode right rightInside] at rightBytes
    have equal := Option.some.inj (leftBytes.trans rightBytes.symm)
    have signed := serializerAll_signedFields scriptCode nIn leftFits
      rightFits equal
    rw [sameExceptScriptSigs_iff]
    refine ⟨signed, ?_⟩
    rcases condition with outside | outside | differ | unsigned
    · omega
    · omega
    · exact absurd signed differ
    · exact unsigned

/-- A payment of one output to one key. -/
def plainPayment : CTransaction where
  hash := 1
  nVersion := 1
  type := txPayment
  vin := [⟨⟨7, 0⟩, [], 0xffffffff⟩]
  vout := [⟨5, [0x51]⟩]
  metadata := .plain txMetaEmpty
  vfiles := []
  nLockTime := 0

/-- The same spend, announcing a file. -/
def announcedFile : CTransaction where
  hash := 2
  nVersion := 1
  type := txFileTransfer
  vin := [⟨⟨7, 0⟩, [], 0xffffffff⟩]
  vout := [⟨5, [0x51]⟩]
  metadata := .fileMeta ⟨txMetaFile, 9, [1, 2, 3]⟩
  vfiles := [⟨11, 3600, 0⟩]
  nLockTime := 0

/-- The payment with a signature in place. -/
def signedPayment : CTransaction :=
  { plainPayment with
    hash := 3
    vin := [⟨⟨7, 0⟩, [0x51, 0x52], 0xffffffff⟩] }

theorem signature_commits_payment :
    signaturePreimage [0x51] plainPayment 0 sighashAll =
        signaturePreimage [0x51] signedPayment 0 sighashAll ∧
      SameExceptScriptSigs plainPayment signedPayment := by
  have zeroInside : (0 : UInt32).toNat < 1 := by decide
  have plainBytes := signaturePreimage_all [0x51] plainPayment zeroInside
  have signed : signedFields plainPayment = signedFields signedPayment := rfl
  have signedBytes := signaturePreimage_all [0x51] signedPayment zeroInside
  rw [← serializerAll_congr [0x51] 0 signed] at signedBytes
  have commits := (signature_commits_iff plainPayment signedPayment 0 [0x51]
    (by unfold ScriptSizesFit; decide)
    (by unfold ScriptSizesFit; decide)).mpr (Or.inr (Or.inr (Or.inr rfl)))
  exact ⟨plainBytes.trans signedBytes.symm,
    commits _ plainBytes signedBytes⟩

/-- The type, the meta object and the files can be changed under a signature. -/
theorem signature_does_not_commit :
    ¬ ∀ (left right : CTransaction) (nIn : UInt32) (scriptCode : CScript)
        (bytes : Bytes),
      signaturePreimage scriptCode left nIn sighashAll = some bytes →
      signaturePreimage scriptCode right nIn sighashAll = some bytes →
      SameExceptScriptSigs left right := by
  intro claim
  have zeroInside : (0 : UInt32).toNat < 1 := by decide
  have leftBytes := signaturePreimage_all [0x51] plainPayment zeroInside
  have signed : signedFields plainPayment = signedFields announcedFile := rfl
  have rightBytes := signaturePreimage_all [0x51] announcedFile zeroInside
  rw [← serializerAll_congr [0x51] 0 signed] at rightBytes
  have same := claim plainPayment announcedFile 0 [0x51] _ leftBytes rightBytes
  exact absurd same.type (by decide)

end PrivateDatagram.Wire.SignatureHash
