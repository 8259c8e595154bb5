import PrivateDatagram.Wire.Serialize

/-!
# Transactions

The data model of `primitives/transaction.h` and its two serializers.  A
transaction carries a meta object behind a polymorphic holder; which class is
written, and whether a file list follows, is decided by the transaction type
alone.

`CMutableTransaction` and `CTransaction` each have their own copy of the
serialization code.  `CTransaction` also caches its hash, which the
deserializer and the conversion from `CMutableTransaction` recompute.  The
source's field `meta` is called `metadata` here, and fields that are never
serialized (`prevPubKey`, `nRounds`) are left out.
-/

namespace PrivateDatagram.Wire.Transaction

open Library.ByteFormat Serialize

/-! ## Inputs, outputs and files -/

abbrev CScript := Bytes

structure COutPoint where
  hash : UInt256
  n : UInt32
deriving DecidableEq, Repr

structure CTxIn where
  prevout : COutPoint
  scriptSig : CScript
  nSequence : UInt32
deriving DecidableEq, Repr

structure CTxOut where
  nValue : Int64
  scriptPubKey : CScript
deriving DecidableEq, Repr

structure CFile where
  fileHash : UInt256
  nLifeTime : UInt32
  nFlags : UInt32
deriving DecidableEq, Repr

def COutPoint.isNull (outpoint : COutPoint) : Bool :=
  outpoint.hash = 0 ∧ outpoint.n = 0xffffffff

/-- `FLATDATA(*this)`: the hash and the index without padding. -/
def COutPoint.format : Format COutPoint :=
  (uint256.pair uint32).through
    { toFun := fun value => (value.hash, value.n)
      invFun := fun value => ⟨value.1, value.2⟩
      left_inv := fun _ => rfl
      right_inv := fun _ => rfl }

def CTxIn.format : Format CTxIn :=
  (COutPoint.format.pair (blob.pair uint32)).through
    { toFun := fun value =>
        (value.prevout, value.scriptSig, value.nSequence)
      invFun := fun value => ⟨value.1, value.2.1, value.2.2⟩
      left_inv := fun _ => rfl
      right_inv := fun _ => rfl }

def CTxOut.format : Format CTxOut :=
  (int64.pair blob).through
    { toFun := fun value => (value.nValue, value.scriptPubKey)
      invFun := fun value => ⟨value.1, value.2⟩
      left_inv := fun _ => rfl
      right_inv := fun _ => rfl }

def CFile.format : Format CFile :=
  (uint256.pair (uint32.pair uint32)).through
    { toFun := fun value => (value.fileHash, value.nLifeTime, value.nFlags)
      invFun := fun value => ⟨value.1, value.2.1, value.2.2⟩
      left_inv := fun _ => rfl
      right_inv := fun _ => rfl }

theorem COutPoint.format_canonical : COutPoint.format.Canonical :=
  (uint256_canonical.pair uint32_canonical).through _

theorem CTxIn.format_canonical : CTxIn.format.Canonical :=
  (COutPoint.format_canonical.pair
    (blob_canonical.pair uint32_canonical)).through _

theorem CTxOut.format_canonical : CTxOut.format.Canonical :=
  (int64_canonical.pair blob_canonical).through _

theorem CFile.format_canonical : CFile.format.Canonical :=
  (uint256_canonical.pair
    (uint32_canonical.pair uint32_canonical)).through _

/-! ## Meta objects -/

def txMetaEmpty : UInt32 := 0
def txMetaFile : UInt32 := 1

structure CPaymentRequest where
  nFlags : UInt32
  sComment : Bytes
  nPrice : Int64
  nFileSize : UInt64
  paymentAddress : UInt160
deriving DecidableEq, Repr

structure CPaymentConfirm where
  nFlags : UInt32
  requestTxid : UInt256
  nLifeTime : UInt32
  vfPublicKey : Bytes
deriving DecidableEq, Repr

structure CFileMeta where
  nFlags : UInt32
  confirmTxId : UInt256
  vfEncodedMeta : Bytes
deriving DecidableEq, Repr

def CPaymentRequest.format : Format CPaymentRequest :=
  (uint32.pair (blob.pair (int64.pair (uint64.pair uint160)))).through
    { toFun := fun value =>
        (value.nFlags, value.sComment, value.nPrice, value.nFileSize,
          value.paymentAddress)
      invFun := fun value =>
        ⟨value.1, value.2.1, value.2.2.1, value.2.2.2.1, value.2.2.2.2⟩
      left_inv := fun _ => rfl
      right_inv := fun _ => rfl }

def CPaymentConfirm.format : Format CPaymentConfirm :=
  (uint32.pair (uint256.pair (uint32.pair blob))).through
    { toFun := fun value =>
        (value.nFlags, value.requestTxid, value.nLifeTime,
          value.vfPublicKey)
      invFun := fun value =>
        ⟨value.1, value.2.1, value.2.2.1, value.2.2.2⟩
      left_inv := fun _ => rfl
      right_inv := fun _ => rfl }

def CFileMeta.format : Format CFileMeta :=
  (uint32.pair (uint256.pair blob)).through
    { toFun := fun value =>
        (value.nFlags, value.confirmTxId, value.vfEncodedMeta)
      invFun := fun value => ⟨value.1, value.2.1, value.2.2⟩
      left_inv := fun _ => rfl
      right_inv := fun _ => rfl }

theorem CPaymentRequest.format_canonical :
    CPaymentRequest.format.Canonical :=
  (uint32_canonical.pair (blob_canonical.pair (int64_canonical.pair
    (uint64_canonical.pair uint160_canonical)))).through _

theorem CPaymentConfirm.format_canonical :
    CPaymentConfirm.format.Canonical :=
  (uint32_canonical.pair (uint256_canonical.pair
    (uint32_canonical.pair blob_canonical))).through _

theorem CFileMeta.format_canonical : CFileMeta.format.Canonical :=
  (uint32_canonical.pair (uint256_canonical.pair blob_canonical)).through _

/-- What `PtrContainer<CTransactionMeta>` can point to. -/
inductive CTransactionMeta where
  | plain (nFlags : UInt32)
  | paymentRequest (value : CPaymentRequest)
  | paymentConfirm (value : CPaymentConfirm)
  | fileMeta (value : CFileMeta)
deriving DecidableEq, Repr

namespace CTransactionMeta

/--
`getOrRecreate<CPaymentRequest>`.  The constructor of a fresh object leaves
`nFileSize` uninitialised; zero stands for whatever is found there.
-/
def getOrRecreatePaymentRequest : CTransactionMeta → CPaymentRequest
  | paymentRequest value => value
  | _ => ⟨txMetaFile, [], 0, 0, 0⟩

/-- `getOrRecreate<CPaymentConfirm>`. -/
def getOrRecreatePaymentConfirm : CTransactionMeta → CPaymentConfirm
  | paymentConfirm value => value
  | _ => ⟨txMetaFile, 0, 0, []⟩

/-- `getOrRecreate<CFileMeta>`. -/
def getOrRecreateFileMeta : CTransactionMeta → CFileMeta
  | fileMeta value => value
  | _ => ⟨txMetaFile, 0, []⟩

end CTransactionMeta

/-! ## Transactions -/

def txPayment : Int32 := 1
def txFilePaymentRequest : Int32 := 2
def txFilePaymentConfirm : Int32 := 3
def txFileTransfer : Int32 := 4

structure CMutableTransaction where
  nVersion : Int32
  type : Int32
  vin : List CTxIn
  vout : List CTxOut
  metadata : CTransactionMeta
  vfiles : List CFile
  nLockTime : UInt32
deriving DecidableEq, Repr

/-- The same fields with the cached hash. -/
structure CTransaction where
  hash : UInt256
  nVersion : Int32
  type : Int32
  vin : List CTxIn
  vout : List CTxOut
  metadata : CTransactionMeta
  vfiles : List CFile
  nLockTime : UInt32
deriving DecidableEq, Repr

/-- The default constructor of both classes. -/
def CMutableTransaction.fresh : CMutableTransaction :=
  ⟨1, txPayment, [], [], .plain txMetaEmpty, [], 0⟩

/-! ### The part of the encoding that the type selects -/

/-- The branches of `SerializationOp` on the type, when writing. -/
def writeMeta (type : Int32) (metadata : CTransactionMeta)
    (vfiles : List CFile) : Bytes :=
  if type = txFilePaymentRequest then
    CPaymentRequest.format.encode metadata.getOrRecreatePaymentRequest
  else if type = txFilePaymentConfirm then
    CPaymentConfirm.format.encode metadata.getOrRecreatePaymentConfirm
  else if type = txFileTransfer then
    CFileMeta.format.encode metadata.getOrRecreateFileMeta ++
      (vector CFile.format).encode vfiles
  else
    []

/--
The branches of `SerializationOp` on the type, when reading.  What the type
does not select keeps the value it had in the object read into.
-/
def readMeta (type : Int32) (metadata : CTransactionMeta)
    (vfiles : List CFile) : Decoder (CTransactionMeta × List CFile) :=
  if type = txFilePaymentRequest then do
    let value ← CPaymentRequest.format.decode
    pure (.paymentRequest value, vfiles)
  else if type = txFilePaymentConfirm then do
    let value ← CPaymentConfirm.format.decode
    pure (.paymentConfirm value, vfiles)
  else if type = txFileTransfer then do
    let value ← CFileMeta.format.decode
    let files ← (vector CFile.format).decode
    pure (.fileMeta value, files)
  else
    pure (metadata, vfiles)

/-! ### The two serializers -/

namespace CMutableTransaction

def serialize (tx : CMutableTransaction) : Bytes :=
  int32.encode tx.nVersion ++
    (int32.encode tx.type ++
      ((vector CTxIn.format).encode tx.vin ++
        ((vector CTxOut.format).encode tx.vout ++
          (writeMeta tx.type tx.metadata tx.vfiles ++
            uint32.encode tx.nLockTime))))

/-- Read over an existing object. -/
def unserialize (target : CMutableTransaction) :
    Decoder CMutableTransaction := do
  let nVersion ← int32.decode
  let type ← int32.decode
  let vin ← (vector CTxIn.format).decode
  let vout ← (vector CTxOut.format).decode
  let selected ← readMeta type target.metadata target.vfiles
  let nLockTime ← uint32.decode
  pure ⟨nVersion, type, vin, vout, selected.1, selected.2, nLockTime⟩

/-- `SerializeHash(*this)`, for the double SHA-256 `hash256`. -/
def getHash (hash256 : Bytes → UInt256) (tx : CMutableTransaction) :
    UInt256 :=
  hash256 tx.serialize

end CMutableTransaction

namespace CTransaction

def serialize (tx : CTransaction) : Bytes :=
  int32.encode tx.nVersion ++
    (int32.encode tx.type ++
      ((vector CTxIn.format).encode tx.vin ++
        ((vector CTxOut.format).encode tx.vout ++
          (writeMeta tx.type tx.metadata tx.vfiles ++
            uint32.encode tx.nLockTime))))

def updateHash (hash256 : Bytes → UInt256) (tx : CTransaction) :
    CTransaction :=
  { tx with hash := hash256 tx.serialize }

/-- Read over an existing object, then refresh the cached hash. -/
def unserialize (hash256 : Bytes → UInt256) (target : CTransaction) :
    Decoder CTransaction := do
  let nVersion ← int32.decode
  let type ← int32.decode
  let vin ← (vector CTxIn.format).decode
  let vout ← (vector CTxOut.format).decode
  let selected ← readMeta type target.metadata target.vfiles
  let nLockTime ← uint32.decode
  pure (updateHash hash256
    ⟨target.hash, nVersion, type, vin, vout, selected.1, selected.2,
      nLockTime⟩)

/-- `CTransaction(const CMutableTransaction&)`. -/
def ofMutable (hash256 : Bytes → UInt256) (tx : CMutableTransaction) :
    CTransaction :=
  updateHash hash256
    ⟨0, tx.nVersion, tx.type, tx.vin, tx.vout, tx.metadata, tx.vfiles,
      tx.nLockTime⟩

/-- `CMutableTransaction(const CTransaction&)`. -/
def toMutable (tx : CTransaction) : CMutableTransaction :=
  ⟨tx.nVersion, tx.type, tx.vin, tx.vout, tx.metadata, tx.vfiles,
    tx.nLockTime⟩

/-- The cached value. -/
def getHash (tx : CTransaction) : UInt256 := tx.hash

end CTransaction

end PrivateDatagram.Wire.Transaction
