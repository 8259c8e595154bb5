import PrivateDatagram.Transfer.Downloads
import PrivateDatagram.Validation.CheckTransaction

/-!
# File transfers without files

Block connection and the message handlers read `vfiles[0]` of every file
transfer they meet.  The reads are in range exactly when the transaction has
a file, and `CheckTransaction` does not ask for one: of `vfiles` it sees only
the size in bytes and the hash of the whole.
-/

namespace PrivateDatagram.Validation.FileTransfers

open Wire.Transaction Transfer.Downloads CheckTransaction

/-! ## The readers of `vfiles[0]` -/

theorem isFileTransactionExpired_isSome_iff (around : Surroundings)
    (tx : CTransaction) (blockTime : Int) :
    (isFileTransactionExpired around tx blockTime).isSome = true ↔
      tx.vfiles ≠ [] := by
  unfold isFileTransactionExpired
  cases tx.vfiles <;> simp

theorem isFileReceiveNeeded_isSome {tx : CTransaction}
    (files : tx.vfiles ≠ []) (around : Surroundings) (blockTime : Int)
    (node : Node) :
    (isFileReceiveNeeded around tx blockTime node).isSome = true := by
  rcases Option.isSome_iff_exists.mp
    ((isFileTransactionExpired_isSome_iff around tx blockTime).mpr files)
    with ⟨expired, answer⟩
  rcases List.exists_cons_of_ne_nil files with ⟨file, rest, listed⟩
  unfold isFileReceiveNeeded
  rw [answer, listed]
  cases expired <;> split_ifs <;> rfl

theorem requireFile_isSome {tx : CTransaction}
    (files : tx.type = txFileTransfer → tx.vfiles ≠ [])
    (around : Surroundings) (blockTime : UInt32) (node : Node) :
    (requireFile around blockTime tx node).isSome = true := by
  unfold requireFile
  by_cases transfer : tx.type = txFileTransfer
  · rw [if_neg (by simpa using transfer)]
    rcases Option.isSome_iff_exists.mp (isFileReceiveNeeded_isSome
      (files transfer) around blockTime.toNat node) with ⟨needed, answer⟩
    rcases List.exists_cons_of_ne_nil (files transfer)
      with ⟨file, rest, listed⟩
    rw [answer, listed]
    cases needed
    · rfl
    · dsimp only
      split_ifs <;> rfl
  · rw [if_pos transfer]
    rfl

/-- The loop over a block whose file transfers all have files. -/
theorem handleFileTransferTx_isSome {vtx : List CTransaction}
    (files : ∀ tx ∈ vtx, tx.type = txFileTransfer → tx.vfiles ≠ [])
    (around : Surroundings) (blockTime : UInt32) (node : Node) :
    (handleFileTransferTx around blockTime vtx node).isSome = true := by
  induction vtx generalizing node with
  | nil => rfl
  | cons tx rest ih =>
      rw [List.forall_mem_cons] at files
      rcases Option.isSome_iff_exists.mp
        (requireFile_isSome files.1 around blockTime node) with ⟨next, ran⟩
      rw [handleFileTransferTx, ran]
      exact ih files.2 next

/-- No read of `vfiles[0]` of this transaction is out of range. -/
structure AccessesInRange (tx : CTransaction) : Prop where
  expired : ∀ around blockTime,
    (isFileTransactionExpired around tx blockTime).isSome = true
  receiveNeeded : ∀ around blockTime node,
    (isFileReceiveNeeded around tx blockTime node).isSome = true
  existByTx : ∀ around fileTxHash node,
    around.getTransaction fileTxHash = some tx →
      (isFileExistByTx around fileTxHash node).isSome = true
  /-- In a block whose other file transfers have files. -/
  handled : ∀ around blockTime vtx node,
    (∀ other ∈ vtx, other.type = txFileTransfer →
      other = tx ∨ other.vfiles ≠ []) →
        (handleFileTransferTx around blockTime vtx node).isSome = true

theorem accessesInRange {tx : CTransaction} (files : tx.vfiles ≠ []) :
    AccessesInRange tx where
  expired := fun around blockTime =>
    (isFileTransactionExpired_isSome_iff around tx blockTime).mpr files
  receiveNeeded := isFileReceiveNeeded_isSome files
  existByTx := by
    intro around fileTxHash node found
    rcases List.exists_cons_of_ne_nil files with ⟨file, rest, listed⟩
    rw [isFileExistByTx, found]
    dsimp only
    rw [listed]
    rfl
  handled := by
    intro around blockTime vtx node others
    apply handleFileTransferTx_isSome
    intro other member transfer
    rcases others other member transfer with rfl | filled
    · exact files
    · exact filled

/--
An accepted file transfer is safe to read exactly when it has a file; none of
the conditions of acceptance provides one.
-/
theorem file_accesses_iff (checks : ZerocoinChecks) (fZerocoinActive : Bool)
    (tx : CTransaction) (_transfer : tx.type = txFileTransfer) :
    (checkTransaction checks fZerocoinActive tx = .ok () →
        tx.vfiles ≠ [] ∧ AccessesInRange tx) ↔
      (tx.vfiles ≠ [] ∨ ¬ Acceptable checks fZerocoinActive tx) := by
  rw [checkTransaction_ok_iff]
  constructor
  · intro safe
    by_cases acceptable : Acceptable checks fZerocoinActive tx
    · exact .inl (safe acceptable).1
    · exact .inr acceptable
  · rintro (files | refused) acceptable
    · exact ⟨files, accessesInRange files⟩
    · exact absurd acceptable refused

/-! ## A transfer of nothing -/

/-- A transfer of the given files, as it comes off the wire. -/
def transferOf (vfiles : List CFile) : CTransaction :=
  .ofMutable (fun _ => 5)
    { nVersion := 1
      type := txFileTransfer
      vin := [⟨⟨7, 0⟩, [0x51], 0xffffffff⟩]
      vout := [⟨5, [0x52, 0x53]⟩]
      metadata := .fileMeta ⟨txMetaFile, 9, [1, 2, 3]⟩
      vfiles := vfiles
      nLockTime := 0 }

theorem file_accesses_iff_oneFile :
    checkTransaction noZerocoins true (transferOf [⟨6, 3600, 0⟩]) = .ok () ∧
      AccessesInRange (transferOf [⟨6, 3600, 0⟩]) := by
  have accepted : checkTransaction noZerocoins true
      (transferOf [⟨6, 3600, 0⟩]) = .ok () := by
    decide +kernel
  have files : (transferOf [⟨6, 3600, 0⟩]).vfiles ≠ [] := by
    decide
  exact ⟨accepted, ((file_accesses_iff noZerocoins true _ rfl).mpr
    (.inl files) accepted).2⟩

theorem transfer_without_files_accepted :
    ¬ ∀ (checks : ZerocoinChecks) (fZerocoinActive : Bool)
        (tx : CTransaction), tx.type = txFileTransfer →
      checkTransaction checks fZerocoinActive tx = .ok () →
        tx.vfiles ≠ [] ∧ AccessesInRange tx := by
  intro claim
  have accepted : checkTransaction noZerocoins true (transferOf []) =
      .ok () := by
    decide +kernel
  exact (claim noZerocoins true (transferOf []) rfl accepted).1 rfl

end PrivateDatagram.Validation.FileTransfers
