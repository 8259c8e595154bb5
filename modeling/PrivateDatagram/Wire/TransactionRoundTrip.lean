import PrivateDatagram.Wire.Transaction

/-!
# Transactions survive the wire

Every transaction whose vectors the reader admits is read back from its own
encoding, by both serializers and over any object it is read into.  What a
reader accepts is conversely the encoding of what it returns, so the hash of
a transaction does not depend on how it was transported.

The limit on vectors is real: `WriteCompactSize` has none, and a transaction
with a longer script is written and then refused.
-/

namespace PrivateDatagram.Wire.TransactionRoundTrip

open Library.ByteFormat Serialize Transaction

/-! ## Which transactions are in range -/

/-- The holder contains the class that the type announces. -/
def MetaMatchesType (type : Int32) : CTransactionMeta → Prop
  | .plain nFlags =>
      nFlags = txMetaEmpty ∧ type ≠ txFilePaymentRequest ∧
        type ≠ txFilePaymentConfirm ∧ type ≠ txFileTransfer
  | .paymentRequest _ => type = txFilePaymentRequest
  | .paymentConfirm _ => type = txFilePaymentConfirm
  | .fileMeta _ => type = txFileTransfer

/-- Every vector in a meta object has at most `maxSize` bytes. -/
def MetaWithinMaxSize : CTransactionMeta → Prop
  | .plain _ => True
  | .paymentRequest value => value.sComment.length ≤ maxSize
  | .paymentConfirm value => value.vfPublicKey.length ≤ maxSize
  | .fileMeta value => value.vfEncodedMeta.length ≤ maxSize

/-- Every vector of the transaction has at most `maxSize` elements. -/
structure WithinMaxSize (tx : CMutableTransaction) : Prop where
  vin : tx.vin.length ≤ maxSize
  scriptSigs : ∀ txin ∈ tx.vin, txin.scriptSig.length ≤ maxSize
  vout : tx.vout.length ≤ maxSize
  scriptPubKeys : ∀ txout ∈ tx.vout, txout.scriptPubKey.length ≤ maxSize
  metadata : MetaWithinMaxSize tx.metadata
  vfiles : tx.vfiles.length ≤ maxSize

/-- Equal in every field that the serializer writes for the type. -/
structure SameWritten (left right : CMutableTransaction) : Prop where
  nVersion : left.nVersion = right.nVersion
  type : left.type = right.type
  vin : left.vin = right.vin
  vout : left.vout = right.vout
  metadata :
    left.type = txFilePaymentRequest ∨ left.type = txFilePaymentConfirm ∨
      left.type = txFileTransfer → left.metadata = right.metadata
  vfiles : left.type = txFileTransfer → left.vfiles = right.vfiles
  nLockTime : left.nLockTime = right.nLockTime

theorem vin_fits {tx : CMutableTransaction} (within : WithinMaxSize tx) :
    (vector CTxIn.format).Fits tx.vin := by
  refine ⟨within.vin, ?_⟩
  intro txin member
  exact ⟨⟨trivial, trivial⟩, within.scriptSigs txin member, trivial⟩

theorem vout_fits {tx : CMutableTransaction} (within : WithinMaxSize tx) :
    (vector CTxOut.format).Fits tx.vout := by
  refine ⟨within.vout, ?_⟩
  intro txout member
  exact ⟨trivial, within.scriptPubKeys txout member⟩

theorem vfiles_fits {vfiles : List CFile}
    (within : vfiles.length ≤ maxSize) :
    (vector CFile.format).Fits vfiles := by
  refine ⟨within, ?_⟩
  intro file _
  exact ⟨trivial, trivial, trivial⟩

/-! ## The part selected by the type -/

/-- What `readMeta` leaves in the object it reads into. -/
def selectedBy (type : Int32) (written stale : CTransactionMeta × List CFile) :
    CTransactionMeta × List CFile :=
  if type = txFilePaymentRequest ∨ type = txFilePaymentConfirm then
    (written.1, stale.2)
  else if type = txFileTransfer then
    written
  else
    stale

theorem confirm_ne_request : txFilePaymentConfirm ≠ txFilePaymentRequest := by
  decide

theorem transfer_ne_request : txFileTransfer ≠ txFilePaymentRequest := by
  decide

theorem transfer_ne_confirm : txFileTransfer ≠ txFilePaymentConfirm := by
  decide

theorem readMeta_consumes {type : Int32} {metadata : CTransactionMeta}
    {vfiles : List CFile} (fits : MetaMatchesType type metadata)
    (metaWithin : MetaWithinMaxSize metadata)
    (filesWithin : vfiles.length ≤ maxSize)
    (staleMeta : CTransactionMeta) (staleFiles : List CFile) :
    Consumes (readMeta type staleMeta staleFiles)
      (writeMeta type metadata vfiles)
      (selectedBy type (metadata, vfiles) (staleMeta, staleFiles)) := by
  unfold readMeta writeMeta selectedBy
  cases metadata with
  | plain nFlags =>
      rcases fits with ⟨_, request, confirm, transfer⟩
      simp only [if_neg request, if_neg confirm, if_neg transfer,
        if_neg (not_or.mpr ⟨request, confirm⟩)]
      exact Consumes.pure _
  | paymentRequest value =>
      cases fits
      simp only [if_true, true_or]
      rw [← List.append_nil (CPaymentRequest.format.encode _)]
      refine (CPaymentRequest.format.lossless value ?_).bind
        (Consumes.pure _)
      exact ⟨trivial, metaWithin, trivial, trivial, trivial⟩
  | paymentConfirm value =>
      cases fits
      simp only [if_true, or_true, if_neg confirm_ne_request]
      rw [← List.append_nil (CPaymentConfirm.format.encode _)]
      refine (CPaymentConfirm.format.lossless value ?_).bind
        (Consumes.pure _)
      exact ⟨trivial, trivial, trivial, metaWithin⟩
  | fileMeta value =>
      cases fits
      simp only [if_true, if_neg transfer_ne_request,
        if_neg transfer_ne_confirm,
        if_neg (not_or.mpr ⟨transfer_ne_request, transfer_ne_confirm⟩)]
      refine (CFileMeta.format.lossless value ?_).bind ?_
      · exact ⟨trivial, trivial, metaWithin⟩
      · rw [← List.append_nil ((vector CFile.format).encode vfiles)]
        exact ((vector CFile.format).lossless vfiles
          (vfiles_fits filesWithin)).bind (Consumes.pure _)

theorem readMeta_ok {type : Int32} {staleMeta metadata : CTransactionMeta}
    {staleFiles vfiles : List CFile} {input rest : Bytes}
    (accepted :
      readMeta type staleMeta staleFiles input =
        .ok ((metadata, vfiles), rest)) :
    input = writeMeta type metadata vfiles ++ rest := by
  unfold readMeta at accepted
  unfold writeMeta
  split_ifs at accepted ⊢
  · rcases bind_ok accepted with ⟨value, middle, read, returned⟩
    rcases pure_ok returned with ⟨equal, rfl⟩
    cases equal
    exact (CPaymentRequest.format_canonical _ _ _ read).2
  · rcases bind_ok accepted with ⟨value, middle, read, returned⟩
    rcases pure_ok returned with ⟨equal, rfl⟩
    cases equal
    exact (CPaymentConfirm.format_canonical _ _ _ read).2
  · rcases bind_ok accepted with ⟨value, middle, read, continued⟩
    rcases bind_ok continued with ⟨files, final, filesRead, returned⟩
    rcases pure_ok returned with ⟨equal, rfl⟩
    cases equal
    have split := (CFileMeta.format_canonical _ _ _ read).2
    have filesSplit :=
      (vector_canonical CFile.format_canonical _ _ _ filesRead).2
    rw [split, filesSplit, List.append_assoc]
    rfl
  · rcases pure_ok accepted with ⟨_, rfl⟩
    rfl

/-! ## Whole transactions -/

/-- The object left behind by reading `tx` over `target`. -/
def overlay (tx target : CMutableTransaction) : CMutableTransaction :=
  let selected :=
    selectedBy tx.type (tx.metadata, tx.vfiles)
      (target.metadata, target.vfiles)
  { tx with metadata := selected.1, vfiles := selected.2 }

theorem overlay_sameWritten (tx target : CMutableTransaction) :
    SameWritten (overlay tx target) tx where
  nVersion := rfl
  type := rfl
  vin := rfl
  vout := rfl
  metadata := by
    intro written
    change tx.type = _ ∨ tx.type = _ ∨ tx.type = _ at written
    simp only [overlay, selectedBy]
    split_ifs with earlier transfer
    · rfl
    · rfl
    · tauto
  vfiles := by
    intro transfer
    change tx.type = _ at transfer
    simp only [overlay, selectedBy]
    have other :
        ¬(tx.type = txFilePaymentRequest ∨
          tx.type = txFilePaymentConfirm) := by
      rw [transfer]
      decide
    rw [if_neg other, if_pos transfer]
  nLockTime := rfl

theorem unserialize_consumes {tx : CMutableTransaction}
    (fits : MetaMatchesType tx.type tx.metadata)
    (within : WithinMaxSize tx) (target : CMutableTransaction) :
    Consumes (CMutableTransaction.unserialize target) tx.serialize
      (overlay tx target) := by
  refine (int32.lossless tx.nVersion trivial).bind ?_
  refine (int32.lossless tx.type trivial).bind ?_
  refine ((vector CTxIn.format).lossless tx.vin (vin_fits within)).bind ?_
  refine ((vector CTxOut.format).lossless tx.vout (vout_fits within)).bind ?_
  refine (readMeta_consumes fits within.metadata within.vfiles
    target.metadata target.vfiles).bind ?_
  rw [← List.append_nil (uint32.encode tx.nLockTime)]
  exact (uint32.lossless tx.nLockTime trivial).bind (Consumes.pure _)

theorem unserialize_ok {target tx : CMutableTransaction}
    {input rest : Bytes}
    (accepted :
      CMutableTransaction.unserialize target input = .ok (tx, rest)) :
    input = tx.serialize ++ rest := by
  rcases bind_ok accepted with ⟨nVersion, input₁, read₁, accepted₁⟩
  rcases bind_ok accepted₁ with ⟨type, input₂, read₂, accepted₂⟩
  rcases bind_ok accepted₂ with ⟨vin, input₃, read₃, accepted₃⟩
  rcases bind_ok accepted₃ with ⟨vout, input₄, read₄, accepted₄⟩
  rcases bind_ok accepted₄ with ⟨selected, input₅, read₅, accepted₅⟩
  rcases bind_ok accepted₅ with ⟨nLockTime, input₆, read₆, returned⟩
  rcases pure_ok returned with ⟨rfl, rfl⟩
  rw [(int32_canonical _ _ _ read₁).2, (int32_canonical _ _ _ read₂).2,
    (vector_canonical CTxIn.format_canonical _ _ _ read₃).2,
    (vector_canonical CTxOut.format_canonical _ _ _ read₄).2,
    readMeta_ok read₅, (uint32_canonical _ _ _ read₆).2]
  simp only [CMutableTransaction.serialize, List.append_assoc]

/-- The immutable reader is the mutable one followed by the conversion. -/
theorem unserialize_immutable (hash256 : Bytes → UInt256)
    (target : CTransaction) :
    CTransaction.unserialize hash256 target =
      (do
        let tx ← CMutableTransaction.unserialize target.toMutable
        pure (CTransaction.ofMutable hash256 tx)) := by
  simp only [CMutableTransaction.unserialize, CTransaction.unserialize,
    bind_assoc, pure_bind]
  rfl

/-- Over a fresh object nothing is left over from before. -/
theorem overlay_fresh {tx : CMutableTransaction}
    (fits : MetaMatchesType tx.type tx.metadata)
    (noFiles : tx.type ≠ txFileTransfer → tx.vfiles = []) :
    overlay tx .fresh = tx := by
  rcases tx with ⟨nVersion, type, vin, vout, metadata, vfiles, nLockTime⟩
  simp only [overlay, selectedBy, CMutableTransaction.fresh] at fits noFiles ⊢
  split_ifs with earlier transfer
  · have other : type ≠ txFileTransfer := by
      rcases earlier with rfl | rfl <;> decide
    rw [noFiles other]
  · rfl
  · rw [not_or] at earlier
    cases metadata with
    | plain nFlags => rw [noFiles transfer, fits.1]
    | paymentRequest value => exact absurd fits earlier.1
    | paymentConfirm value => exact absurd fits earlier.2
    | fileMeta value => exact absurd fits transfer

theorem serialize_of_sameWritten {left right : CMutableTransaction}
    (same : SameWritten left right) : left.serialize = right.serialize := by
  have selected :
      writeMeta left.type left.metadata left.vfiles =
        writeMeta right.type right.metadata right.vfiles := by
    rw [← same.type]
    unfold writeMeta
    split_ifs with request confirm transfer
    · rw [same.metadata (Or.inl request)]
    · rw [same.metadata (Or.inr (Or.inl confirm))]
    · rw [same.metadata (Or.inr (Or.inr transfer)), same.vfiles transfer]
    · rfl
  simp only [CMutableTransaction.serialize, selected]
  rw [same.nVersion, same.type, same.vin, same.vout, same.nLockTime]

/-- A reader never returns a script longer than `maxSize`. -/
theorem unserialize_scriptSigs {target tx : CMutableTransaction}
    {input rest : Bytes}
    (accepted :
      CMutableTransaction.unserialize target input = .ok (tx, rest)) :
    ∀ txin ∈ tx.vin, txin.scriptSig.length ≤ maxSize := by
  rcases bind_ok accepted with ⟨nVersion, input₁, _, accepted₁⟩
  rcases bind_ok accepted₁ with ⟨type, input₂, _, accepted₂⟩
  rcases bind_ok accepted₂ with ⟨vin, input₃, read₃, accepted₃⟩
  rcases bind_ok accepted₃ with ⟨vout, input₄, _, accepted₄⟩
  rcases bind_ok accepted₄ with ⟨selected, input₅, _, accepted₅⟩
  rcases bind_ok accepted₅ with ⟨nLockTime, input₆, _, returned⟩
  rcases pure_ok returned with ⟨rfl, rfl⟩
  intro txin member
  exact ((vector_canonical CTxIn.format_canonical _ _ _ read₃).1.2
    txin member).2.1

/-! ## The round trip -/

/--
Both serializers read back what they write, consuming exactly those bytes,
and agree on bytes and hashes; and what they accept is what they would write.
-/
theorem transaction_round_trip (hash256 : Bytes → UInt256) :
    (∀ (mtx target : CMutableTransaction) (rest : Bytes),
      MetaMatchesType mtx.type mtx.metadata → WithinMaxSize mtx →
      ∃ result,
        CMutableTransaction.unserialize target (mtx.serialize ++ rest) =
          .ok (result, rest) ∧
        SameWritten result mtx ∧
        result.getHash hash256 = mtx.getHash hash256 ∧
        (target = .fresh →
          (mtx.type ≠ txFileTransfer → mtx.vfiles = []) → result = mtx)) ∧
    (∀ (mtx : CMutableTransaction) (target : CTransaction) (rest : Bytes),
      MetaMatchesType mtx.type mtx.metadata → WithinMaxSize mtx →
      ∃ result,
        CTransaction.unserialize hash256 target
            ((CTransaction.ofMutable hash256 mtx).serialize ++ rest) =
          .ok (result, rest) ∧
        SameWritten result.toMutable mtx ∧
        result.getHash = (CTransaction.ofMutable hash256 mtx).getHash) ∧
    (∀ mtx : CMutableTransaction,
      (CTransaction.ofMutable hash256 mtx).serialize = mtx.serialize ∧
      (CTransaction.ofMutable hash256 mtx).getHash = mtx.getHash hash256) ∧
    (∀ (target result : CMutableTransaction) (input rest : Bytes),
      CMutableTransaction.unserialize target input = .ok (result, rest) →
      input = result.serialize ++ rest) ∧
    (∀ (target result : CTransaction) (input rest : Bytes),
      CTransaction.unserialize hash256 target input = .ok (result, rest) →
      input = result.serialize ++ rest) := by
  refine ⟨?_, ?_, ?_, ?_, ?_⟩
  · intro mtx target rest fits within
    have same := overlay_sameWritten mtx target
    refine ⟨overlay mtx target, unserialize_consumes fits within target rest,
      same, ?_, ?_⟩
    · exact congrArg hash256 (serialize_of_sameWritten same)
    · rintro rfl noFiles
      exact overlay_fresh fits noFiles
  · intro mtx target rest fits within
    have read := unserialize_consumes fits within target.toMutable rest
    have same := overlay_sameWritten mtx target.toMutable
    refine ⟨CTransaction.ofMutable hash256 (overlay mtx target.toMutable),
      ?_, same, ?_⟩
    · rw [unserialize_immutable]
      change (CMutableTransaction.unserialize _ (mtx.serialize ++ rest)).bind
        _ = _
      rw [read]
      rfl
    · exact congrArg hash256 (serialize_of_sameWritten same)
  · intro mtx
    exact ⟨rfl, rfl⟩
  · intro target result input rest accepted
    exact unserialize_ok accepted
  · intro target result input rest accepted
    rw [unserialize_immutable] at accepted
    rcases bind_ok accepted with ⟨tx, middle, read, returned⟩
    rcases pure_ok returned with ⟨rfl, rfl⟩
    exact unserialize_ok read

/-- A file transfer with one announced file, spending one output. -/
def sampleTransfer : CMutableTransaction where
  nVersion := 1
  type := txFileTransfer
  vin := [⟨⟨7, 0⟩, [0x51], 0xffffffff⟩]
  vout := [⟨5, [0x52, 0x53]⟩]
  metadata := .fileMeta ⟨txMetaFile, 9, [1, 2, 3]⟩
  vfiles := [⟨11, 3600, 0⟩]
  nLockTime := 0

theorem sampleTransfer_within : WithinMaxSize sampleTransfer where
  vin := by decide
  scriptSigs := by decide
  vout := by decide
  scriptPubKeys := by decide
  metadata := by
    simp only [sampleTransfer, MetaWithinMaxSize]
    decide
  vfiles := by decide

theorem transaction_round_trip_sample :
    ∃ result,
      CMutableTransaction.unserialize .fresh
          (sampleTransfer.serialize ++ [0xff]) = .ok (result, [0xff]) ∧
      result = sampleTransfer := by
  have trip := (transaction_round_trip fun _ => 0).1 sampleTransfer .fresh
    [0xff] rfl sampleTransfer_within
  rcases trip with ⟨result, read, _, _, whole⟩
  exact ⟨result, read, whole rfl (fun other => absurd rfl other)⟩

/-- A payment whose only input script is one byte too long to be read. -/
def oversizedScriptSig : CMutableTransaction where
  nVersion := 1
  type := txPayment
  vin := [⟨⟨7, 0⟩, List.replicate (maxSize + 1) 0, 0xffffffff⟩]
  vout := []
  metadata := .plain txMetaEmpty
  vfiles := []
  nLockTime := 0

/-- Without the limit on vectors the round trip fails. -/
theorem round_trip_needs_maxSize :
    ¬ ∀ mtx : CMutableTransaction, MetaMatchesType mtx.type mtx.metadata →
      ∃ result,
        CMutableTransaction.unserialize .fresh mtx.serialize =
          .ok (result, []) ∧ SameWritten result mtx := by
  intro claim
  have fits : MetaMatchesType oversizedScriptSig.type
      oversizedScriptSig.metadata :=
    ⟨rfl, by decide, by decide, by decide⟩
  rcases claim oversizedScriptSig fits with ⟨result, read, same⟩
  have short := unserialize_scriptSigs read
  rw [same.vin] at short
  have length := short _ (List.mem_singleton.mpr rfl)
  rw [List.length_replicate] at length
  omega

end PrivateDatagram.Wire.TransactionRoundTrip
