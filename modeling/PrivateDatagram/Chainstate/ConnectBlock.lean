import PrivateDatagram.Chainstate.StakeSpent
import PrivateDatagram.Chainstate.ZerocoinSpends
import PrivateDatagram.Validation.BudgetPayments
import PrivateDatagram.Wallet.OwnMints

/-!
# Traces of a block

`ConnectBlock` checks a block and then stores what follows from it.  Before the
point where nothing should be stored it calls `CheckBlock`, whose payee check
keeps the history of budget payments, and `UpdateZPIVSupply`, which keeps the
mints of the wallet.

The checks that only read are taken by their verdict, and the data that the
stages get from the block as they get it.  Storing succeeds.
-/

namespace PrivateDatagram.Chainstate.ConnectBlock

open Wire.Serialize Wire.Transaction Coins
open Chainstate.Disconnect (plainTx)
open Chainstate.StakeSpent (StakeMap connectStakes)
open Chainstate.ZerocoinSpends (writeCoinSpend)
open Validation.BudgetPayments Wallet.OwnMints

/-! ## The state and a call -/

/-- What is stored besides the view and the entry of the block index. -/
structure Stores where
  pwalletMain : Option CWallet
  /-- The spends and mints of `zerocoinDB`. -/
  coinSpends : UInt256 → Option UInt256
  coinMints : UInt256 → Option UInt256
  /-- The accumulator values of `zerocoinDB`, by checksum. -/
  accumulators : UInt32 → Option Nat
  mapStakeSpent : StakeMap
  mapPayment_History : PaymentHistory

structure Call where
  fJustCheck : Bool
  fAlreadyChecked : Bool
  vtx : List CTransaction
  /-- `pindex->nHeight`. -/
  nHeight : Int
  /-- `Params().LAST_POW_BLOCK()`. -/
  nLastPowBlock : Int
  maxReorganizationDepth : Int
  /-- The checks of `CheckBlock` before the payee. -/
  checkedBefore : Bool
  /-- There is a tip, the height is known and the initial download is over. -/
  checksPayee : Bool
  rules : PayeeRules
  manager : CBudgetManager
  /-- The height that `CheckBlock` finds for the block. -/
  nPayeeHeight : Int
  /-- The checks of `CheckBlock` after the payee. -/
  checkedAfter : Bool
  isGenesis : Bool
  /-- The loop over the transactions. -/
  transactionsValid : Bool
  /-- `pindex->pprev`. -/
  hasPrev : Bool
  /-- `BlockToZerocoinMintList`. -/
  listMints : List CZerocoinMint
  mintContext : MintContext
  /-- No denomination is spent more often than there are coins of it. -/
  supplyValid : Bool
  /-- `IsBlockValueValid`. -/
  valueValid : Bool
  /-- `ValidateAccumulatorCheckpoint`. -/
  checkpointValid : Bool
  /-- `control.Wait()`. -/
  scriptsValid : Bool
  /-- Serials and transactions that spend them. -/
  vSpends : List (UInt256 × UInt256)
  /-- `IsMyZerocoinSpend`. -/
  isMySpend : UInt256 → Bool
  /-- Public coins and transactions that mint them. -/
  vMints : List (UInt256 × UInt256)
  /-- What `DatabaseChecksums` writes. -/
  checksums : List (UInt32 × Nat)

namespace Call

/--
The outputs of the transaction that pays: the coinbase, or the coinstake once
the proof-of-work period is over.
-/
def payeeOutputs (call : Call) : List CTxOut :=
  let position := if call.nLastPowBlock < call.nPayeeHeight then 1 else 0
  match call.vtx[position]? with
  | none => []
  | some txNew => txNew.vout

def isProofOfStake (call : Call) : Bool :=
  match call.vtx[1]? with
  | none => false
  | some tx => isCoinStake tx

/-- The kind of the block is that of its period. -/
def periodValid (call : Call) : Bool :=
  if call.nHeight ≤ call.nLastPowBlock then !call.isProofOfStake
  else call.isProofOfStake

end Call

/-! ## The stages -/

/-- `IsBlockPayeeValid` on the history of the state. -/
def payeeCheck (call : Call) (stores : Stores) : Bool × PaymentHistory :=
  isBlockPayeeValid call.rules call.manager call.payeeOutputs
    call.nPayeeHeight stores.mapPayment_History

def checkBlock (call : Call) (stores : Stores) : Bool × Stores :=
  if !call.checkedBefore then
    (false, stores)
  else if call.checksPayee then
    ((payeeCheck call stores).1 && call.checkedAfter,
      { stores with mapPayment_History := (payeeCheck call stores).2 })
  else
    (call.checkedAfter, stores)

/-- `CheckBlock` where it is called. -/
def checkStage (call : Call) (stores : Stores) : Bool × Stores :=
  if call.fAlreadyChecked then (true, stores) else checkBlock call stores

def updateZPIVSupply (call : Call) (stores : Stores) : Bool × Stores :=
  if call.hasPrev then
    (call.supplyValid,
      { stores with
        pwalletMain :=
          stores.pwalletMain.map (trackMints call.mintContext call.listMints) })
  else
    (true, stores)

/-- Own spends are added to the wallet, each transaction once. -/
def addSpends (call : Call) (wallet : CWallet) : CWallet :=
  (call.vSpends.foldl
    (fun state spend =>
      if call.isMySpend spend.1 ∧ spend.2 ∉ state.2 then
        (state.1.addToWallet spend.2 (call.mintContext.merkleTx spend.2),
          spend.2 :: state.2)
      else
        state) (wallet, ([] : List UInt256))).1

/-- What is stored once the block is accepted. -/
def storeBlock (call : Call) (stores : Stores) : Stores :=
  { stores with
    pwalletMain := stores.pwalletMain.map (addSpends call)
    coinSpends := call.vSpends.foldl writeCoinSpend stores.coinSpends
    coinMints := call.vMints.foldl writeCoinSpend stores.coinMints
    accumulators := call.checksums.foldl
      (fun values entry => Function.update values entry.1 (some entry.2))
      stores.accumulators
    mapStakeSpent := connectStakes call.maxReorganizationDepth call.vtx
      call.nHeight stores.mapStakeSpent }

/-- The last checks, and what is stored after them. -/
def finish (call : Call) (stores : Stores) : Bool × Stores :=
  if !call.valueValid || !call.checkpointValid || !call.scriptsValid then
    (false, stores)
  -- nothing before this point should store anything
  else if call.fJustCheck then (true, stores)
  else (true, storeBlock call stores)

def connectBlock (call : Call) (stores : Stores) : Bool × Stores :=
  match checkStage call stores with
  | (false, stores) => (false, stores)
  | (true, stores) =>
      if call.isGenesis then (true, stores)
      else if !call.periodValid || !call.transactionsValid then (false, stores)
      else
        match updateZPIVSupply call stores with
        | (false, stores) => (false, stores)
        | (true, stores) => finish call stores

/-! ## No trace -/

/-- A block that is only checked or is rejected leaves the stores as they are. -/
def LeavesNoTrace (call : Call) (stores : Stores) : Prop :=
  call.fJustCheck = true ∨ (connectBlock call stores).1 = false →
    (connectBlock call stores).2 = stores

/-- `CheckBlock` is left out or accepts the block. -/
def Checked (call : Call) (stores : Stores) : Prop :=
  call.fAlreadyChecked = true ∨
    call.checkedBefore = true ∧ call.checkedAfter = true ∧
      (call.checksPayee = true → (payeeCheck call stores).1 = true)

/-- The block comes to `UpdateZPIVSupply`. -/
def ReachesSupply (call : Call) (stores : Stores) : Prop :=
  Checked call stores ∧ call.isGenesis = false ∧ call.periodValid = true ∧
    call.transactionsValid = true ∧ call.hasPrev = true

/-- All checks accept the block. -/
def Accepted (call : Call) (stores : Stores) : Prop :=
  Checked call stores ∧
    (call.isGenesis = true ∨
      call.periodValid = true ∧ call.transactionsValid = true ∧
        (call.hasPrev = true → call.supplyValid = true) ∧
        call.valueValid = true ∧ call.checkpointValid = true ∧
        call.scriptsValid = true)

/--
Either the payee is not checked or every budget that is asked finds its
proposal paid and nothing of another cycle.
-/
def HistorySettled (call : Call) (stores : Stores) : Prop :=
  call.fAlreadyChecked = false → call.checkedBefore = true →
    call.checksPayee = true →
    asksBudgets call.rules call.manager call.nPayeeHeight = true →
      AllQuiet call.payeeOutputs call.nPayeeHeight
        (call.manager.nCountThreshold call.nPayeeHeight)
        stores.mapPayment_History call.manager.mapFinalizedBudgets

/--
Either the block does not come to `UpdateZPIVSupply`, or the wallet has its own
mints of the block and their transactions already.
-/
def WalletSettled (call : Call) (stores : Stores) : Prop :=
  ReachesSupply call stores → ∀ wallet, stores.pwalletMain = some wallet →
    ∀ mint ∈ call.listMints, wallet.isMyMint mint.hashPubcoin = true →
      Recorded call.mintContext call.listMints wallet mint

/-! ## Stage by stage -/

section Stages

variable {call : Call} {stores : Stores}

theorem checkStage_checked_iff :
    (checkStage call stores).1 = true ↔ Checked call stores := by
  unfold checkStage checkBlock Checked
  cases call.fAlreadyChecked <;> cases call.checkedBefore <;>
    cases call.checksPayee <;> simp [and_comm]

/-- The check changes the history only. -/
theorem checkStage_stores (call : Call) (stores : Stores) :
    ∃ history, (checkStage call stores).2 =
      { stores with mapPayment_History := history } := by
  unfold checkStage checkBlock
  split_ifs
  · exact ⟨stores.mapPayment_History, rfl⟩
  · exact ⟨stores.mapPayment_History, rfl⟩
  · exact ⟨_, rfl⟩
  · exact ⟨stores.mapPayment_History, rfl⟩

theorem history_eq_iff {history : PaymentHistory} :
    { stores with mapPayment_History := history } = stores ↔
      history = stores.mapPayment_History := by
  constructor
  · intro same
    exact congrArg Stores.mapPayment_History same
  · rintro rfl
    rfl

theorem checkStage_kept_iff :
    (checkStage call stores).2 = stores ↔ HistorySettled call stores := by
  unfold checkStage checkBlock HistorySettled
  cases call.fAlreadyChecked with
  | true => simp
  | false =>
      cases call.checkedBefore with
      | false => simp
      | true =>
          cases call.checksPayee with
          | false => simp
          | true =>
              have kept := isBlockPayeeValid_kept_iff call.rules call.manager
                call.payeeOutputs call.nPayeeHeight stores.mapPayment_History
              rw [← payeeCheck, ← history_eq_iff] at kept
              simpa using kept

/-- The wallet after the loop over the mints. -/
theorem wallet_kept_iff :
    stores.pwalletMain.map (trackMints call.mintContext call.listMints) =
        stores.pwalletMain ↔
      ∀ wallet, stores.pwalletMain = some wallet →
        ∀ mint ∈ call.listMints, wallet.isMyMint mint.hashPubcoin = true →
          Recorded call.mintContext call.listMints wallet mint := by
  cases stores.pwalletMain with
  | none => simp
  | some wallet =>
      rw [Option.map_some, Option.some.injEq, trackMints_kept_iff]
      simp

/-- The stores after both stages are those before exactly when neither acts. -/
theorem tracked_kept_iff (reaches : ReachesSupply call stores) :
    { (checkStage call stores).2 with
        pwalletMain := (checkStage call stores).2.pwalletMain.map
          (trackMints call.mintContext call.listMints) } = stores ↔
      HistorySettled call stores ∧ WalletSettled call stores := by
  rw [← checkStage_kept_iff]
  rcases checkStage_stores call stores with ⟨history, shape⟩
  rw [shape, history_eq_iff]
  unfold WalletSettled
  simp only [reaches, forall_const]
  rw [← wallet_kept_iff]
  constructor
  · intro same
    exact ⟨congrArg Stores.mapPayment_History same,
      congrArg Stores.pwalletMain same⟩
  · rintro ⟨rfl, sameWallet⟩
    rw [sameWallet]

theorem checked_kept_iff (early : ¬ ReachesSupply call stores) :
    (checkStage call stores).2 = stores ↔
      HistorySettled call stores ∧ WalletSettled call stores := by
  rw [checkStage_kept_iff]
  exact ⟨fun settled => ⟨settled, fun reaches => absurd reaches early⟩,
    And.left⟩

/-- The stores when a block is neither rejected earlier nor stored. -/
structure Reached (call : Call) (stores reached : Stores) : Prop where
  late : ReachesSupply call stores →
    reached = { (checkStage call stores).2 with
      pwalletMain := (checkStage call stores).2.pwalletMain.map
        (trackMints call.mintContext call.listMints) }
  early : ¬ ReachesSupply call stores → reached = (checkStage call stores).2

theorem Reached.kept_iff {reached : Stores}
    (isReached : Reached call stores reached) :
    reached = stores ↔
      HistorySettled call stores ∧ WalletSettled call stores := by
  by_cases reaches : ReachesSupply call stores
  · rw [isReached.late reaches]
    exact tracked_kept_iff reaches
  · rw [isReached.early reaches]
    exact checked_kept_iff reaches

/-- How a call ends. -/
inductive Ends (call : Call) (stores reached : Stores) : Bool × Stores → Prop
  | rejected (invalid : ¬ Accepted call stores) :
      Ends call stores reached (false, reached)
  | accepted (valid : Accepted call stores) :
      Ends call stores reached (true, reached)
  | stored (valid : Accepted call stores) (full : call.fJustCheck = false) :
      Ends call stores reached (true, storeBlock call reached)

theorem ends_finish {reached : Stores}
    (valid : Checked call stores) (period : call.periodValid = true)
    (transactions : call.transactionsValid = true)
    (other : call.isGenesis = false)
    (supply : call.hasPrev = true → call.supplyValid = true) :
    Ends call stores reached (finish call reached) := by
  unfold finish
  split_ifs with bad justCheck
  · apply Ends.rejected
    rintro ⟨_, genesis | ⟨_, _, _, value, checkpoint, scripts⟩⟩
    · rw [other] at genesis
      cases genesis
    · simp [value, checkpoint, scripts] at bad
  · apply Ends.accepted
    simp only [Bool.or_eq_true, Bool.not_eq_true', not_or,
      Bool.not_eq_false] at bad
    exact ⟨valid, Or.inr ⟨period, transactions, supply, bad.1.1, bad.1.2,
      bad.2⟩⟩
  · apply Ends.stored
    · simp only [Bool.or_eq_true, Bool.not_eq_true', not_or,
        Bool.not_eq_false] at bad
      exact ⟨valid, Or.inr ⟨period, transactions, supply, bad.1.1, bad.1.2,
        bad.2⟩⟩
    · exact eq_false_of_ne_true justCheck

theorem reached_early (never : ¬ ReachesSupply call stores) :
    Reached call stores (checkStage call stores).2 :=
  ⟨fun reaches => absurd reaches never, fun _ => rfl⟩

theorem reached_late (reaches : ReachesSupply call stores) :
    Reached call stores { (checkStage call stores).2 with
      pwalletMain := (checkStage call stores).2.pwalletMain.map
        (trackMints call.mintContext call.listMints) } :=
  ⟨fun _ => rfl, fun never => absurd reaches never⟩

/-- From `UpdateZPIVSupply` on. -/
theorem supply_ends (valid : Checked call stores)
    (other : call.isGenesis = false) (period : call.periodValid = true)
    (transactions : call.transactionsValid = true) :
    ∃ reached, Reached call stores reached ∧
      Ends call stores reached
        (match updateZPIVSupply call (checkStage call stores).2 with
        | (false, stores) => (false, stores)
        | (true, stores) => finish call stores) := by
  rw [updateZPIVSupply]
  cases hasPrev : call.hasPrev with
  | false =>
      have never : ¬ ReachesSupply call stores := by
        rintro ⟨_, _, _, _, prev⟩
        rw [hasPrev] at prev
        cases prev
      rw [if_neg Bool.false_ne_true]
      refine ⟨_, reached_early never,
        ends_finish valid period transactions other ?_⟩
      intro prev
      rw [hasPrev] at prev
      cases prev
  | true =>
      have reaches : ReachesSupply call stores :=
        ⟨valid, other, period, transactions, hasPrev⟩
      rw [if_pos rfl]
      refine ⟨_, reached_late reaches, ?_⟩
      cases supply : call.supplyValid with
      | true =>
          exact ends_finish valid period transactions other fun _ => supply
      | false =>
          apply Ends.rejected
          rintro ⟨_, genesis | ⟨_, _, enough, _⟩⟩
          · rw [other] at genesis
            cases genesis
          · rw [enough hasPrev] at supply
            cases supply

/-- A block of the wrong period or with a bad transaction. -/
theorem early_ends (other : call.isGenesis = false)
    (bad : (!call.periodValid || !call.transactionsValid) = true) :
    ¬ ReachesSupply call stores ∧ ¬ Accepted call stores := by
  constructor
  · rintro ⟨_, _, period, transactions, _⟩
    simp [period, transactions] at bad
  · rintro ⟨_, genesis | ⟨period, transactions, _⟩⟩
    · rw [other] at genesis
      cases genesis
    · simp [period, transactions] at bad

/-- Every call reaches some stores and ends there. -/
theorem connectBlock_ends (call : Call) (stores : Stores) :
    ∃ reached, Reached call stores reached ∧
      Ends call stores reached (connectBlock call stores) := by
  have checked : (checkStage call stores).1 = true ↔ Checked call stores :=
    checkStage_checked_iff
  have early := @reached_early call stores
  have supply := @supply_ends call stores
  rw [connectBlock]
  cases stage : checkStage call stores with
  | mk ok kept =>
      rw [stage] at checked early supply
      cases ok with
      | false =>
          have invalid : ¬ Checked call stores :=
            fun valid => Bool.false_ne_true (checked.mpr valid)
          exact ⟨kept, early fun reaches => invalid reaches.1,
            Ends.rejected fun accepted => invalid accepted.1⟩
      | true =>
          have valid : Checked call stores := checked.mp rfl
          dsimp only
          split_ifs with genesis bad
          · refine ⟨kept, early ?_, Ends.accepted ⟨valid, Or.inl genesis⟩⟩
            rintro ⟨_, other, _⟩
            rw [genesis] at other
            cases other
          · have other := eq_false_of_ne_true genesis
            have ends := @early_ends call stores other bad
            exact ⟨kept, early ends.1, Ends.rejected ends.2⟩
          · simp only [Bool.or_eq_true, Bool.not_eq_true', not_or,
              Bool.not_eq_false] at bad
            exact supply valid (eq_false_of_ne_true genesis) bad.1 bad.2

end Stages

/--
A call leaves no trace exactly when it connects a valid block for good, or
neither the payee check nor the loop over the mints has anything to keep.
-/
theorem leaves_no_trace_iff (call : Call) (stores : Stores) :
    LeavesNoTrace call stores ↔
      call.fJustCheck = false ∧ Accepted call stores ∨
        HistorySettled call stores ∧ WalletSettled call stores := by
  rcases connectBlock_ends call stores with ⟨reached, isReached, ends⟩
  rw [← isReached.kept_iff]
  unfold LeavesNoTrace
  cases result : connectBlock call stores with
  | mk verdict last =>
      rw [result] at ends
      cases ends with
      | rejected invalid =>
          simp only [or_true, forall_const]
          constructor
          · exact Or.inr
          · rintro (⟨_, valid⟩ | kept)
            · exact absurd valid invalid
            · exact kept
      | accepted valid =>
          cases justCheck : call.fJustCheck with
          | true => simp
          | false => simp [valid]
      | stored valid full => simp [full, valid]

/-! ## A template that pays a proposal -/

/-- A budget for height 100 that pays one proposal. -/
def oneProposal : CFinalizedBudget :=
  ⟨100, [⟨7, [0x52], 5⟩], 10⟩

/-- The check of a block of height 100 that pays the proposal. -/
def template : Call where
  fJustCheck := true
  fAlreadyChecked := false
  vtx := [plainTx 1 [⟨⟨0, 0xffffffff⟩, [0x51, 0x51], 0⟩] [⟨0, []⟩],
    plainTx 2 [⟨⟨9, 0⟩, [0x51], 0xffffffff⟩]
      [⟨0, []⟩, ⟨6, [0x53]⟩, ⟨5, [0x52]⟩]]
  nHeight := 100
  nLastPowBlock := 50
  maxReorganizationDepth := 100
  checkedBefore := true
  checksPayee := true
  rules := ⟨true, true, true, true, true⟩
  manager := ⟨[oneProposal], 20⟩
  nPayeeHeight := 100
  checkedAfter := true
  isGenesis := false
  transactionsValid := true
  hasPrev := true
  listMints := []
  mintContext := ⟨100, fun _ => none, fun _ => ⟨0, -1, [], 0⟩⟩
  supplyValid := true
  valueValid := true
  checkpointValid := true
  scriptsValid := true
  vSpends := []
  isMySpend := fun _ => false
  vMints := []
  checksums := []

def emptyStores : Stores :=
  ⟨none, fun _ => none, fun _ => none, fun _ => none, fun _ => none,
    fun _ => none⟩

theorem template_enters_payment :
    ¬ ∀ (call : Call) (stores : Stores), LeavesNoTrace call stores := by
  intro noTrace
  have kept := noTrace template emptyStores (Or.inl rfl)
  have entered : (connectBlock template emptyStores).2.mapPayment_History 7 =
      some 100 := by
    decide +kernel
  rw [kept] at entered
  cases entered

end PrivateDatagram.Chainstate.ConnectBlock
