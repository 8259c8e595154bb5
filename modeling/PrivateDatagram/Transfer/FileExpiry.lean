import PrivateDatagram.Transfer.DownloadState

/-!
# The two expiry rules

`HandleFileTransferTx` adds the time of the block and the lifetime of the file
in 32 bits and stores the sum with the required file; `ProcessRequiredFiles`
compares the stored time.  `IsFileTransactionExpired` adds the same two numbers
in 64 bits.  The lifetime comes from the transaction, which may carry any 32-bit
number, so the rules agree exactly when the sum fits into 32 bits.
-/

namespace PrivateDatagram.Transfer.FileExpiry

open Wire.Serialize Wire.Transaction Repository.Runs Downloads DownloadState

/-! ## The stored rule -/

/-- The loop of `ProcessRequiredFiles` drops the required file when it visits it. -/
def DropsRequired (around : Surroundings) (fileTxHash : UInt256)
    (node : Node) : Prop :=
  fileTxHash ∉ (collectRequired around [fileTxHash] [] node).2.requiredFilesMap

theorem dropsRequired_iff {fileTxHash : UInt256} {node : Node}
    {required : RequiredFile}
    (entry : node.requiredFilesMap[fileTxHash]? = some required)
    (around : Surroundings) :
    DropsRequired around fileTxHash node ↔
      around.storage.adjustedTime > required.fileExpirationTime.toNat := by
  have present : fileTxHash ∈ node.requiredFilesMap := by
    rw [Std.ExtTreeMap.mem_iff_isSome_getElem?, entry]
    rfl
  unfold DropsRequired
  rw [collectRequired, entry]
  dsimp only
  split
  next expired => simpa [collectRequired, eraseRequired] using expired
  next valid =>
    refine iff_of_false (fun dropped => dropped ?_) valid
    split
    · exact present
    · split
      · exact present
      · split_ifs <;> exact present

/-! ## The entry of a file that is needed -/

/-- A needed file gets the sum in 32 bits. -/
theorem requireFile_entry {around : Surroundings} {blockTime : UInt32}
    {tx : CTransaction} {node node' : Node}
    (ran : requireFile around blockTime tx node = some node')
    (transfer : tx.type = txFileTransfer)
    (needed : isFileReceiveNeeded around tx blockTime.toNat node = some true) :
    ∃ file, tx.vfiles.head? = some file ∧
      ∃ time, node'.requiredFilesMap[tx.getHash]? =
        some ⟨time, blockTime + file.nLifeTime⟩ := by
  unfold requireFile at ran
  rw [if_neg (by simpa using transfer), needed] at ran
  cases files : tx.vfiles with
  | nil => simp [files] at ran
  | cons file others =>
      refine ⟨file, rfl, ?_⟩
      simp only [files] at ran
      split_ifs at ran
      · cases ran
        refine ⟨around.timeMicros, ?_⟩
        simp [setRequestExpiration, Std.ExtTreeMap.getD_insert_self]
      · cases ran
        refine ⟨around.timeMicros + requiredFileRequestTimeout, ?_⟩
        simp

/-! ## When the rules agree -/

/-- The two rules give the same answer at every time. -/
def RulesAgree (tx : CTransaction) (blockTime : UInt32) (node : Node) : Prop :=
  ∀ around : Surroundings,
    DropsRequired around tx.getHash node ↔
      isFileTransactionExpired around tx blockTime.toNat = some true

/-- The surroundings at another adjusted time. -/
def atTime (around : Surroundings) (adjustedTime : Int) : Surroundings :=
  { around with
    storage := { around.storage with adjustedTime := adjustedTime } }

/--
The entry that `HandleFileTransferTx` creates expires by both rules at the
same times exactly when the time of the block and the lifetime of the file add
up to less than `2 ^ 32`.
-/
theorem expiry_rules_agree_iff {around : Surroundings} {blockTime : UInt32}
    {tx : CTransaction} {node node' : Node}
    (ran : requireFile around blockTime tx node = some node')
    (transfer : tx.type = txFileTransfer)
    (needed : isFileReceiveNeeded around tx blockTime.toNat node = some true) :
    RulesAgree tx blockTime node' ↔
      ∀ file, tx.vfiles.head? = some file →
        blockTime.toNat + file.nLifeTime.toNat < 2 ^ 32 := by
  rcases requireFile_entry ran transfer needed with ⟨file, first, time, entry⟩
  have drops := dropsRequired_iff entry
  have expired : ∀ around : Surroundings,
      isFileTransactionExpired around tx blockTime.toNat = some true ↔
        around.storage.adjustedTime >
          (blockTime.toNat + file.nLifeTime.toNat : Nat) := by
    intro around
    cases files : tx.vfiles with
    | nil => simp [files] at first
    | cons head others =>
        have same : head = file := by simpa [files] using first
        simp [isFileTransactionExpired, files, same]
  have stored : (blockTime + file.nLifeTime).toNat =
      (blockTime.toNat + file.nLifeTime.toNat) % 2 ^ 32 :=
    UInt32.toNat_add _ _
  simp only [RulesAgree, drops, expired, stored, first, Option.some.injEq,
    forall_eq']
  constructor
  · intro agree
    -- The last second of the file by the 64-bit rule.
    have last := agree (atTime around
      (blockTime.toNat + file.nLifeTime.toNat : Nat))
    have kept := mt last.mp (lt_irrefl _)
    simp only [atTime, gt_iff_lt, Int.ofNat_lt, not_lt] at kept
    exact kept.trans_lt (Nat.mod_lt _ (Nat.two_pow_pos 32))
  · intro fits other
    rw [Nat.mod_eq_of_lt fits]

/-! ## A lifetime that wraps -/

/-- A transfer of one file with the given lifetime. -/
def transferFor (nLifeTime : UInt32) : CTransaction :=
  .ofMutable sampleParams.hash256
    { nVersion := 1
      type := txFileTransfer
      vin := [⟨⟨7, 0⟩, [0x51], 0xffffffff⟩]
      vout := [⟨5, [0x52, 0x53]⟩]
      metadata := .fileMeta ⟨txMetaFile, 9, [1, 2, 3]⟩
      vfiles := [⟨8, nLifeTime, 0⟩]
      nLockTime := 0 }

/-- A masternode at the time of a block in November 2023. -/
def thatDay : Surroundings := atTime (connectedAt 0) 1700000000

/-- The masternode requires the file. -/
theorem transferFor_required :
    isFileReceiveNeeded thatDay (transferFor 3600)
      (1700000000 : UInt32).toNat requiring = some true ∧
    isFileReceiveNeeded thatDay (transferFor 4294967295)
      (1700000000 : UInt32).toNat requiring = some true := by
  decide +kernel

theorem transferFor_ran :
    (requireFile thatDay 1700000000 (transferFor 3600)
      requiring).isSome = true ∧
    (requireFile thatDay 1700000000 (transferFor 4294967295)
      requiring).isSome = true := by
  decide +kernel

/-- With a lifetime of an hour the rules agree. -/
theorem expiry_rules_agree_hour :
    ∃ node', requireFile thatDay 1700000000 (transferFor 3600) requiring =
      some node' ∧ RulesAgree (transferFor 3600) 1700000000 node' := by
  rcases Option.isSome_iff_exists.mp transferFor_ran.1 with ⟨node', ran⟩
  refine ⟨node', ran, ?_⟩
  apply (expiry_rules_agree_iff ran rfl transferFor_required.1).mpr
  rintro file ⟨⟩
  decide

/-- The longest lifetime is over by the stored rule when it begins. -/
theorem expiry_rules_differ :
    ¬ ∀ (around : Surroundings) (blockTime : UInt32) (tx : CTransaction)
      (node node' : Node),
      requireFile around blockTime tx node = some node' →
      tx.type = txFileTransfer →
      isFileReceiveNeeded around tx blockTime.toNat node = some true →
      RulesAgree tx blockTime node' := by
  intro always
  rcases Option.isSome_iff_exists.mp transferFor_ran.2 with ⟨node', ran⟩
  have agree := always _ _ _ _ _ ran rfl transferFor_required.2 thatDay
  rcases requireFile_entry ran rfl transferFor_required.2
    with ⟨file, first, time, entry⟩
  cases first
  have passed : thatDay.storage.adjustedTime >
      ((1700000000 : UInt32) + 4294967295).toNat := by
    decide
  have dropped : DropsRequired thatDay (transferFor 4294967295).getHash node' :=
    (dropsRequired_iff entry thatDay).mpr passed
  have valid : ¬ isFileTransactionExpired thatDay (transferFor 4294967295)
      (1700000000 : UInt32).toNat = some true := by
    decide +kernel
  exact valid (agree.mp dropped)

end PrivateDatagram.Transfer.FileExpiry
