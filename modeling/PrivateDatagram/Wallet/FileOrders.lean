import Std.Data.ExtTreeMap
import PrivateDatagram.Repository.Records
import PrivateDatagram.Wire.Transaction

/-!
# Orders of files

A buyer pays for a file with a confirmation of the seller's payment request.
The seller's wallet keeps the confirmations it finds in blocks in
`mapMaturationPaymentConfirmTransactions`.  With every block it goes through
them, and answers those that are deep enough with a file transfer.

What the functions read from the chain, the mempool, the keys and the file
repository is their `Surroundings`; each round of the loop has its own.  The
wallet database works.  A meta object of the wrong class is undefined
behaviour in the source; here the function returns nothing.
-/

namespace PrivateDatagram.Wallet.FileOrders

open Library.ByteFormat Wire.Serialize Wire.Transaction Repository.Records

/-- `FILE_PAYMENT_MATURITY`. -/
def filePaymentMaturity : Int := 5

/-! ## State -/

/-- The file of a payment request, until it is sent. -/
structure CWalletFileTx where
  paymentRequestTxid : UInt256
  vchBytes : Bytes
  filename : Bytes
  destinationAddress : UInt160
deriving DecidableEq, Repr

/-- A file transfer that the wallet has made, and what it answers. -/
structure Delivery where
  confirmTx : CTransaction
  requestTxid : UInt256
  requestTx : CTransaction
  transfer : CTransaction
deriving DecidableEq, Repr

structure CWallet where
  mapWallet : UInt256 → Option CTransaction
  keyed : ∀ txid tx, mapWallet txid = some tx → tx.getHash = txid
  mapMaturation : Std.ExtTreeMap UInt256 CTransaction
  /-- The `wftx` records of the wallet database. -/
  walletFileTxs : UInt256 → Option CWalletFileTx
  /-- The `wftxis` records; a missing one reads as false. -/
  walletFileTxSent : UInt256 → Bool
  /-- The file transfers among the transactions of the wallet. -/
  deliveries : List Delivery

/-- What `CreateTransaction` chooses by itself. -/
structure Funding where
  hash : UInt256
  vin : List CTxIn
  vout : List CTxOut
  nLockTime : UInt32
deriving DecidableEq, Repr

structure Surroundings where
  /-- `GetDepthInMainChain(true)` of a wallet transaction. -/
  depth : UInt256 → Int
  isMine : CTransaction → Bool
  /-- `GetCredit(ISMINE_ALL)` and `GetDebit(ISMINE_ALL)`. -/
  getCredit : CTransaction → Int64
  getDebit : CTransaction → Int64
  /-- Whether `AddToWallet` can write the transaction. -/
  writesToDisk : Bool
  /-- `GetTransaction` with `fAllowSlow`. -/
  getTransaction : UInt256 → Option CTransaction
  getTransaction_hash : ∀ txid tx, getTransaction txid = some tx →
    tx.getHash = txid
  /-- The wallet is locked, or unlocked for other purposes only. -/
  isLocked : Bool
  /-- `GetAdjustedTime()`. -/
  adjustedTime : Int
  /-- The meta data of a file, encrypted for the buyer. -/
  encryptMeta : CWalletFileTx → Bytes → Option Bytes
  /-- The file under the key that goes with the meta data. -/
  encryptFile : CWalletFileTx → Bytes
  calcFileHash : Bytes → UInt256
  saveFileDB : CDBFile → Bool
  /-- The coins for a transaction to the destination. -/
  createTransaction : UInt160 → CFileMeta → CFile → Option Funding
  acceptToMemoryPool : CTransaction → Bool
  /-- The transaction was received long enough ago to be sent once more. -/
  resends : UInt256 → Bool

/-! ## Transactions of blocks -/

def isFromMe (around : Surroundings) (tx : CTransaction) : Bool :=
  around.getDebit tx > 0

/-- `AddToWallet`; a known transaction keeps its entry. -/
def addToWallet (tx : CTransaction) (wallet : CWallet) : CWallet :=
  match wallet.mapWallet tx.getHash with
  | some _ => wallet
  | none =>
      { wallet with
        mapWallet := Function.update wallet.mapWallet tx.getHash (some tx)
        keyed := by
          intro txid found stored
          by_cases same : txid = tx.getHash
          · rw [same, Function.update_self] at stored
            rw [same, ← Option.some.inj stored]
          · rw [Function.update_of_ne same] at stored
            exact wallet.keyed txid found stored }

/-- `ProcessFileTransaction`, for a transaction of a block. -/
def processFileTransaction (around : Surroundings) (tx : CTransaction)
    (wallet : CWallet) : Option CWallet :=
  if isFromMe around tx || !around.isMine tx then
    some wallet
  else if tx.type = txFileTransfer then
    match tx.metadata with
    | .fileMeta fileMeta =>
        some { wallet with
          mapMaturation := wallet.mapMaturation.erase fileMeta.confirmTxId }
    | _ => none
  else if tx.type = txFilePaymentConfirm then
    if wallet.mapMaturation.contains tx.getHash then
      some wallet
    else
      match wallet.mapWallet tx.getHash with
      | none => some wallet
      | some walletTx =>
          some { wallet with
            mapMaturation := wallet.mapMaturation.insert tx.getHash walletTx }
  else
    some wallet

/-- `SyncTransaction`, with a block or without one. -/
def syncTransaction (around : Surroundings) (tx : CTransaction)
    (pblock : Bool) (wallet : CWallet) : Option CWallet :=
  if (wallet.mapWallet tx.getHash).isSome || around.isMine tx ||
      isFromMe around tx then
    let wallet := addToWallet tx wallet
    if around.writesToDisk && pblock then
      processFileTransaction around tx wallet
    else
      some wallet
  else
    some wallet

/-! ## Sending a file -/

/-- The transaction that `CreateTransaction` makes for a file. -/
def fileTransfer (file : CFile) (fileMeta : CFileMeta) (funding : Funding) :
    CTransaction :=
  ⟨funding.hash, 1, txFileTransfer, funding.vin, funding.vout,
    .fileMeta fileMeta, [file], funding.nLockTime⟩

inductive SendResult where
  /-- `CreateTransaction` has failed. -/
  | notCreated
  /-- The transaction is in the wallet, but not in the mempool. -/
  | refused (newTx : CTransaction)
  | sent (newTx : CTransaction)
deriving DecidableEq, Repr

/-- `SendFileTx`, up to the entry in the wallet. -/
def sendFileTx (around : Surroundings) (file : CFile) (fileMeta : CFileMeta)
    (dest : UInt160) : SendResult :=
  match around.createTransaction dest fileMeta file with
  | none => .notCreated
  | some funding =>
      let newTx := fileTransfer file fileMeta funding
      if around.acceptToMemoryPool newTx then .sent newTx else .refused newTx

/-- `CommitTransaction` records the transaction before anything else. -/
def record (delivery : Delivery) (wallet : CWallet) : CWallet :=
  { addToWallet delivery.transfer wallet with
    deliveries := wallet.deliveries ++ [delivery] }

/-- `EraseWalletFileTx` and `WriteWalletFileTxSent`. -/
def markSent (requestTxid : UInt256) (wallet : CWallet) : CWallet :=
  { wallet with
    walletFileTxs := Function.update wallet.walletFileTxs requestTxid none
    walletFileTxSent :=
      Function.update wallet.walletFileTxSent requestTxid true }

/-- What a call or a loop returns, and the file transfers it has sent. -/
structure Answer where
  confirmed : Bool
  wallet : CWallet
  sent : List Delivery

/-- The end of `OnPaymentConfirmed`, once the file is read. -/
def deliver (around : Surroundings) (tx : CTransaction)
    (paymentConfirm : CPaymentConfirm) (requestTx : CTransaction)
    (walletFileTx : CWalletFileTx) (wallet : CWallet) : Answer :=
  match around.encryptMeta walletFileTx paymentConfirm.vfPublicKey with
  | none => ⟨false, wallet, []⟩
  | some vfEncodedMeta =>
      let vBytes := around.encryptFile walletFileTx
      let fileHash := around.calcFileHash vBytes
      let fileExpiredDate :=
        around.adjustedTime + paymentConfirm.nLifeTime.toNat
      if !around.saveFileDB ⟨fileHash, UInt32.ofInt fileExpiredDate, true,
          false, vBytes⟩ then
        ⟨false, wallet, []⟩
      else
        let delivery := Delivery.mk tx paymentConfirm.requestTxid requestTx
        match sendFileTx around ⟨fileHash, paymentConfirm.nLifeTime, 0⟩
            ⟨txMetaFile, tx.getHash, vfEncodedMeta⟩
            walletFileTx.destinationAddress with
        | .notCreated => ⟨false, wallet, []⟩
        | .refused newTx => ⟨false, record (delivery newTx) wallet, []⟩
        | .sent newTx =>
            ⟨true, markSent paymentConfirm.requestTxid
                (record (delivery newTx) wallet),
              [delivery newTx]⟩

/-- The payment request, from the wallet or from the chain. -/
def findRequest (around : Surroundings) (requestTxid : UInt256)
    (wallet : CWallet) : Option CTransaction :=
  match wallet.mapWallet requestTxid with
  | some paymentRequestTx => some paymentRequestTx
  | none => around.getTransaction requestTxid

/-- `OnPaymentConfirmed`. -/
def onPaymentConfirmed (around : Surroundings) (tx : CTransaction)
    (wallet : CWallet) : Option Answer :=
  if tx.type ≠ txFilePaymentConfirm then
    some ⟨true, wallet, []⟩
  else
    match tx.metadata with
    | .paymentConfirm paymentConfirm =>
        if wallet.walletFileTxSent paymentConfirm.requestTxid then
          some ⟨true, wallet, []⟩
        else
          match findRequest around paymentConfirm.requestTxid wallet with
          | none => some ⟨false, wallet, []⟩
          | some requestTx =>
              if requestTx.type ≠ txFilePaymentRequest then
                some ⟨false, wallet, []⟩
              else
                match requestTx.metadata with
                | .paymentRequest paymentRequest =>
                    if around.getCredit tx - around.getDebit tx <
                        paymentRequest.nPrice then
                      some ⟨false, wallet, []⟩
                    else
                      match wallet.walletFileTxs
                          paymentConfirm.requestTxid with
                      | none => some ⟨false, wallet, []⟩
                      | some walletFileTx =>
                          if around.isLocked then
                            some ⟨false, wallet, []⟩
                          else
                            some (deliver around tx paymentConfirm requestTx
                              walletFileTx wallet)
                | _ => none
    | _ => none

/-! ## The loop over the orders -/

def isFilePaymentTxConfirmed (around : Surroundings) (tx : CTransaction) :
    Bool :=
  around.depth tx.getHash ≥ filePaymentMaturity

/-- What an event leaves, sends, and reports as confirmed. -/
structure Outcome where
  wallet : CWallet
  sent : List Delivery
  /-- The orders for which `OnPaymentConfirmed` has reported success. -/
  succeeded : List UInt256

/-- The loop of `ProcessFileContract` over the rest of the map. -/
def processOrders (around : Nat → Surroundings) :
    Nat → List (UInt256 × CTransaction) → CWallet → Option Outcome
  | _, [], wallet => some ⟨wallet, [], []⟩
  | round, (txid, tx) :: rest, wallet =>
      if isFilePaymentTxConfirmed (around round) tx then
        match onPaymentConfirmed (around round) tx wallet with
        | none => none
        | some answer =>
            if answer.confirmed then
              let wallet :=
                { answer.wallet with
                  mapMaturation := answer.wallet.mapMaturation.erase txid }
              (processOrders around (round + 1) rest wallet).map
                fun outcome =>
                  { outcome with
                    sent := answer.sent ++ outcome.sent
                    succeeded := txid :: outcome.succeeded }
            else
              (processOrders around (round + 1) rest answer.wallet).map
                fun outcome =>
                  { outcome with sent := answer.sent ++ outcome.sent }
      else
        processOrders around (round + 1) rest wallet

def processFileContract (around : Nat → Surroundings) (wallet : CWallet) :
    Option Outcome :=
  processOrders around 0 wallet.mapMaturation.toList wallet

/-! ## Other events -/

/-- The user offers a file with a payment request. -/
def writeWalletFileTx (walletFileTx : CWalletFileTx) (wallet : CWallet) :
    CWallet :=
  { wallet with
    walletFileTxs := Function.update wallet.walletFileTxs
      walletFileTx.paymentRequestTxid (some walletFileTx) }

/-- The file transfers that `ResendWalletTransactions` relays. -/
def resendWalletTransactions (around : Surroundings) (wallet : CWallet) :
    List Delivery :=
  wallet.deliveries.filter fun delivery =>
    around.resends delivery.transfer.getHash &&
      around.depth delivery.transfer.getHash = 0

/-! ## Runs -/

inductive Event where
  | syncTransaction (around : Surroundings) (tx : CTransaction)
      (pblock : Bool)
  | processFileContract (around : Nat → Surroundings)
  | writeWalletFileTx (walletFileTx : CWalletFileTx)
  | resendWalletTransactions (around : Surroundings)

def Event.perform : Event → CWallet → Option Outcome
  | .syncTransaction around tx pblock, wallet =>
      (FileOrders.syncTransaction around tx pblock wallet).map (⟨·, [], []⟩)
  | .processFileContract around, wallet =>
      FileOrders.processFileContract around wallet
  | .writeWalletFileTx walletFileTx, wallet =>
      some ⟨FileOrders.writeWalletFileTx walletFileTx wallet, [], []⟩
  | .resendWalletTransactions around, wallet =>
      some ⟨wallet, FileOrders.resendWalletTransactions around wallet, []⟩

structure Step where
  before : CWallet
  event : Event
  outcome : Outcome

/-- The steps of a run, with the wallet it has come to. -/
inductive Run (start : CWallet) : List Step → CWallet → Prop where
  | nil : Run start [] start
  | snoc {steps : List Step} {wallet : CWallet} {event : Event}
      {outcome : Outcome} (reached : Run start steps wallet)
      (performed : event.perform wallet = some outcome) :
      Run start (steps ++ [⟨wallet, event, outcome⟩]) outcome.wallet

theorem Run.performed {start wallet : CWallet} {steps : List Step}
    (run : Run start steps wallet) :
    ∀ step ∈ steps, step.event.perform step.before = some step.outcome := by
  induction run with
  | nil =>
      intro step impossible
      cases impossible
  | snoc _ performed ih =>
      intro step here
      rcases List.mem_append.mp here with earlier | last
      · exact ih step earlier
      · rw [List.mem_singleton.mp last]
        exact performed

/-! ## Orders that are kept -/

/-- An order leaves the map only when its payment was reported confirmed. -/
def Step.KeepsOrders (step : Step) : Prop :=
  ∀ txid ∈ step.before.mapMaturation,
    txid ∉ step.outcome.wallet.mapMaturation → txid ∈ step.outcome.succeeded

/--
A block brings a file transfer from elsewhere that pays the wallet and names a
waiting order.
-/
def Step.NamesOrder (step : Step) : Prop :=
  ∃ around tx fileMeta, step.event = .syncTransaction around tx true ∧
    tx.type = txFileTransfer ∧ tx.metadata = .fileMeta fileMeta ∧
    around.isMine tx = true ∧ isFromMe around tx = false ∧
    around.writesToDisk = true ∧
    fileMeta.confirmTxId ∈ step.before.mapMaturation

theorem addToWallet_fields (tx : CTransaction) (wallet : CWallet) :
    (addToWallet tx wallet).mapMaturation = wallet.mapMaturation ∧
      (addToWallet tx wallet).walletFileTxSent = wallet.walletFileTxSent ∧
      (addToWallet tx wallet).deliveries = wallet.deliveries := by
  unfold addToWallet
  split
  · exact ⟨rfl, rfl, rfl⟩
  · exact ⟨rfl, rfl, rfl⟩

/--
The delivery answers a confirmation of its request whose net credit is at
least the price.
-/
structure PaidFor (around : Surroundings) (delivery : Delivery) : Prop where
  confirm : delivery.confirmTx.type = txFilePaymentConfirm
  names : ∃ paymentConfirm,
    delivery.confirmTx.metadata = .paymentConfirm paymentConfirm ∧
      paymentConfirm.requestTxid = delivery.requestTxid
  request : delivery.requestTx.getHash = delivery.requestTxid
  price : ∃ paymentRequest, delivery.requestTx.type = txFilePaymentRequest ∧
    delivery.requestTx.metadata = .paymentRequest paymentRequest ∧
      paymentRequest.nPrice ≤
        around.getCredit delivery.confirmTx -
          around.getDebit delivery.confirmTx

/-- The same surroundings with a mempool that takes everything. -/
def takesAll (around : Surroundings) : Surroundings :=
  { around with acceptToMemoryPool := fun _ => true }

/-- The transfer that is made for an order: what is sent if the mempool takes
it. -/
def transferOf (around : Surroundings) (tx : CTransaction)
    (wallet : CWallet) : Option CTransaction :=
  (onPaymentConfirmed (takesAll around) tx wallet).bind fun answer =>
    answer.sent.head?.map Delivery.transfer

/-- The ways an order is answered. -/
inductive Answers (around : Surroundings) (tx : CTransaction)
    (wallet : CWallet) : Answer → Prop where
  /-- Nothing is made. -/
  | nothing (confirmed : Bool) : Answers around tx wallet
      ⟨confirmed, wallet, []⟩
  /-- The mempool refuses the transfer. -/
  | refused (delivery : Delivery)
      (made : transferOf around tx wallet = some delivery.transfer)
      (paid : PaidFor around delivery) (answers : delivery.confirmTx = tx)
      (refused : around.acceptToMemoryPool delivery.transfer = false) :
      Answers around tx wallet ⟨false, record delivery wallet, []⟩
  | sent (delivery : Delivery) (paid : PaidFor around delivery)
      (answers : delivery.confirmTx = tx)
      (unsent : wallet.walletFileTxSent delivery.requestTxid = false) :
      Answers around tx wallet
        ⟨true, markSent delivery.requestTxid (record delivery wallet),
          [delivery]⟩

theorem sendFileTx_refused {around : Surroundings} {file : CFile}
    {fileMeta : CFileMeta} {dest : UInt160} {newTx : CTransaction}
    (refused : sendFileTx around file fileMeta dest = .refused newTx) :
    sendFileTx (takesAll around) file fileMeta dest = .sent newTx ∧
      around.acceptToMemoryPool newTx = false := by
  unfold sendFileTx at refused ⊢
  split at refused
  · cases refused
  case h_2 funding made =>
    dsimp only at refused
    split_ifs at refused with accepted
    cases refused
    have madeToo : (takesAll around).createTransaction dest fileMeta file =
        some funding := made
    rw [madeToo]
    exact ⟨rfl, Bool.eq_false_iff.mpr accepted⟩

theorem deliver_answers {around : Surroundings} {tx : CTransaction}
    {paymentConfirm : CPaymentConfirm} {requestTx : CTransaction}
    {wallet : CWallet}
    (paid : ∀ transfer, PaidFor around
      ⟨tx, paymentConfirm.requestTxid, requestTx, transfer⟩)
    (unsent : wallet.walletFileTxSent paymentConfirm.requestTxid = false)
    {walletFileTx : CWalletFileTx}
    (called : onPaymentConfirmed (takesAll around) tx wallet =
      some (deliver (takesAll around) tx paymentConfirm requestTx walletFileTx
        wallet)) :
    Answers around tx wallet
      (deliver around tx paymentConfirm requestTx walletFileTx wallet) := by
  unfold deliver at called ⊢
  split
  · exact .nothing false
  case h_2 vfEncodedMeta encoded =>
    have encodedToo : (takesAll around).encryptMeta walletFileTx
        paymentConfirm.vfPublicKey = some vfEncodedMeta := encoded
    rw [encodedToo] at called
    dsimp only at called ⊢
    split_ifs with unsaved
    · exact .nothing false
    · split
      · exact .nothing false
      case h_2 newTx refused =>
        have reason := sendFileTx_refused refused
        refine .refused _ ?_ (paid newTx) rfl reason.2
        rw [if_neg (by exact unsaved)] at called
        unfold transferOf
        rw [called]
        have sent := reason.1
        dsimp only [takesAll] at sent ⊢
        rw [Option.bind_some, sent]
        rfl
      case h_3 newTx _ => exact .sent _ (paid newTx) rfl unsent

theorem findRequest_hash {around : Surroundings} {requestTxid : UInt256}
    {wallet : CWallet} {requestTx : CTransaction}
    (found : findRequest around requestTxid wallet = some requestTx) :
    requestTx.getHash = requestTxid := by
  unfold findRequest at found
  split at found
  case h_1 stored =>
    cases found
    exact wallet.keyed _ _ stored
  · exact around.getTransaction_hash _ _ found

theorem onPaymentConfirmed_answers {around : Surroundings}
    {tx : CTransaction} {wallet : CWallet} {answer : Answer}
    (called : onPaymentConfirmed around tx wallet = some answer) :
    Answers around tx wallet answer := by
  unfold onPaymentConfirmed at called
  split at called
  · cases called
    exact .nothing true
  case isFalse isConfirm =>
    split at called
    case h_1 paymentConfirm isMeta =>
      split at called
      · cases called
        exact .nothing true
      case isFalse unsent =>
        split at called
        · cases called
          exact .nothing false
        case h_2 requestTx found =>
          split at called
          · cases called
            exact .nothing false
          case isFalse isRequest =>
            split at called
            case h_1 paymentRequest requestMeta =>
              split at called
              · cases called
                exact .nothing false
              case isFalse enough =>
                split at called
                · cases called
                  exact .nothing false
                case h_2 walletFileTx stored =>
                  split at called
                  · cases called
                    exact .nothing false
                  case isFalse unlocked =>
                    cases called
                    apply deliver_answers
                    · intro transfer
                      exact ⟨not_not.mp isConfirm,
                        ⟨paymentConfirm, isMeta, rfl⟩,
                        findRequest_hash found,
                        ⟨paymentRequest, not_not.mp isRequest, requestMeta,
                          Int64.not_lt.mp enough⟩⟩
                    · exact Bool.eq_false_iff.mpr unsent
                    · -- The mempool is asked after all of these branches.
                      have foundToo : findRequest (takesAll around) _ wallet =
                        some requestTx := found
                      rw [onPaymentConfirmed, if_neg isConfirm, isMeta]
                      dsimp only
                      rw [if_neg unsent, foundToo]
                      dsimp only
                      rw [if_neg isRequest, requestMeta]
                      dsimp only
                      rw [if_neg (by exact enough), stored]
                      exact if_neg unlocked
            · cases called
    · cases called

theorem record_mapMaturation (delivery : Delivery) (wallet : CWallet) :
    (record delivery wallet).mapMaturation = wallet.mapMaturation :=
  (addToWallet_fields delivery.transfer wallet).1

theorem record_walletFileTxSent (delivery : Delivery) (wallet : CWallet) :
    (record delivery wallet).walletFileTxSent = wallet.walletFileTxSent :=
  (addToWallet_fields delivery.transfer wallet).2.1

theorem Answers.mapMaturation {around : Surroundings} {tx : CTransaction}
    {wallet : CWallet} {answer : Answer}
    (answers : Answers around tx wallet answer) :
    answer.wallet.mapMaturation = wallet.mapMaturation := by
  cases answers with
  | nothing confirmed => rfl
  | refused delivery => exact record_mapMaturation delivery wallet
  | sent delivery => exact record_mapMaturation delivery wallet

/-- What one round of the loop can do. -/
theorem processOrders_cases {around : Nat → Surroundings} {round : Nat}
    {txid : UInt256} {tx : CTransaction}
    {rest : List (UInt256 × CTransaction)} {wallet : CWallet}
    {outcome : Outcome}
    (done : processOrders around round ((txid, tx) :: rest) wallet =
      some outcome) :
    (isFilePaymentTxConfirmed (around round) tx = false ∧
      processOrders around (round + 1) rest wallet = some outcome) ∨
    ∃ answer later, isFilePaymentTxConfirmed (around round) tx = true ∧
      onPaymentConfirmed (around round) tx wallet = some answer ∧
      ((answer.confirmed = true ∧
          processOrders around (round + 1) rest
            { answer.wallet with
              mapMaturation := answer.wallet.mapMaturation.erase txid } =
                some later ∧
          outcome = { later with
            sent := answer.sent ++ later.sent
            succeeded := txid :: later.succeeded }) ∨
        (answer.confirmed = false ∧
          processOrders around (round + 1) rest answer.wallet = some later ∧
          outcome = { later with sent := answer.sent ++ later.sent })) := by
  rw [processOrders] at done
  split at done
  case isTrue deep =>
    split at done
    · cases done
    case h_2 answer called =>
      right
      split at done
      case isTrue success =>
        rcases Option.map_eq_some_iff.mp done with ⟨later, goesOn, rfl⟩
        exact ⟨answer, later, deep, called, .inl ⟨success, goesOn, rfl⟩⟩
      case isFalse failure =>
        rcases Option.map_eq_some_iff.mp done with ⟨later, goesOn, rfl⟩
        exact ⟨answer, later, deep, called,
          .inr ⟨Bool.eq_false_iff.mpr failure, goesOn, rfl⟩⟩
  case isFalse shallow =>
    exact .inl ⟨Bool.eq_false_iff.mpr shallow, done⟩

theorem processOrders_keeps {around : Nat → Surroundings} {round : Nat}
    {orders : List (UInt256 × CTransaction)} {wallet : CWallet}
    {outcome : Outcome}
    (done : processOrders around round orders wallet = some outcome) :
    ∀ txid ∈ wallet.mapMaturation, txid ∉ outcome.wallet.mapMaturation →
      txid ∈ outcome.succeeded := by
  induction orders generalizing round wallet outcome with
  | nil =>
      cases done
      intro txid here gone
      exact absurd here gone
  | cons order rest ih =>
      rcases order with ⟨own, tx⟩
      intro txid here gone
      rcases processOrders_cases done with ⟨_, later⟩ |
        ⟨answer, later, _, called, ⟨_, goesOn, rfl⟩ | ⟨_, goesOn, rfl⟩⟩
      · exact ih later txid here gone
      · by_cases same : txid = own
        · exact List.mem_cons.mpr (.inl same)
        · refine List.mem_cons_of_mem _ (ih goesOn txid ?_ gone)
          rw [← (onPaymentConfirmed_answers called).mapMaturation] at here
          rw [Std.ExtTreeMap.mem_erase]
          exact ⟨by simpa using fun equal => same equal.symm, here⟩
      · rw [← (onPaymentConfirmed_answers called).mapMaturation] at here
        exact ih goesOn txid here gone

theorem processFileTransaction_keeps_iff {around : Surroundings}
    {tx : CTransaction} {wallet wallet' : CWallet}
    (done : processFileTransaction around tx wallet = some wallet') :
    (∀ txid ∈ wallet.mapMaturation, txid ∈ wallet'.mapMaturation) ↔
      ¬ ∃ fileMeta, tx.type = txFileTransfer ∧
        tx.metadata = .fileMeta fileMeta ∧ around.isMine tx = true ∧
        isFromMe around tx = false ∧
        fileMeta.confirmTxId ∈ wallet.mapMaturation := by
  unfold processFileTransaction at done
  split at done
  case isTrue ignored =>
    cases done
    refine ⟨fun _ => ?_, fun _ _ here => here⟩
    rintro ⟨fileMeta, _, _, mine, notMe, _⟩
    rw [notMe, mine] at ignored
    cases ignored
  case isFalse considered =>
    have relevant : isFromMe around tx = false ∧ around.isMine tx = true := by
      simpa using considered
    split at done
    case isTrue isTransfer =>
      split at done
      case h_1 fileMeta isMeta =>
        cases done
        constructor
        · rintro keeps ⟨named, _, sameMeta, _, _, here⟩
          rw [isMeta] at sameMeta
          cases sameMeta
          have still := keeps _ here
          simp at still
        · intro unnamed txid here
          rw [Std.ExtTreeMap.mem_erase]
          refine ⟨?_, here⟩
          intro same
          apply unnamed
          refine ⟨fileMeta, isTransfer, isMeta, relevant.2, relevant.1, ?_⟩
          rwa [Std.LawfulEqOrd.eq_of_compare same]
      · cases done
    case isFalse notTransfer =>
      have unnamed : ¬ ∃ fileMeta, tx.type = txFileTransfer ∧
          tx.metadata = .fileMeta fileMeta ∧ around.isMine tx = true ∧
          isFromMe around tx = false ∧
          fileMeta.confirmTxId ∈ wallet.mapMaturation :=
        fun ⟨_, isTransfer, _⟩ => notTransfer isTransfer
      refine iff_of_true ?_ unnamed
      intro txid here
      split_ifs at done
      · cases done
        exact here
      · split at done
        · cases done
          exact here
        · cases done
          exact Std.ExtTreeMap.mem_insert.mpr (.inr here)
      · cases done
        exact here

theorem syncTransaction_keeps_iff {around : Surroundings}
    {tx : CTransaction} {pblock : Bool} {wallet wallet' : CWallet}
    (done : syncTransaction around tx pblock wallet = some wallet') :
    (∀ txid ∈ wallet.mapMaturation, txid ∈ wallet'.mapMaturation) ↔
      ¬ ∃ fileMeta, pblock = true ∧ tx.type = txFileTransfer ∧
        tx.metadata = .fileMeta fileMeta ∧ around.isMine tx = true ∧
        isFromMe around tx = false ∧ around.writesToDisk = true ∧
        fileMeta.confirmTxId ∈ wallet.mapMaturation := by
  have same := (addToWallet_fields tx wallet).1
  unfold syncTransaction at done
  split at done
  · dsimp only at done
    split at done
    case isTrue processed =>
      have both : around.writesToDisk = true ∧ pblock = true := by
        simpa using processed
      rw [← same, processFileTransaction_keeps_iff done, not_iff_not]
      constructor
      · rintro ⟨fileMeta, isTransfer, isMeta, mine, notMe, here⟩
        exact ⟨fileMeta, both.2, isTransfer, isMeta, mine, notMe, both.1,
          here⟩
      · rintro ⟨fileMeta, _, isTransfer, isMeta, mine, notMe, _, here⟩
        exact ⟨fileMeta, isTransfer, isMeta, mine, notMe, here⟩
    case isFalse skipped =>
      cases done
      refine iff_of_true (fun txid here => by rwa [same]) ?_
      rintro ⟨_, pblock, _, _, _, _, writes, _⟩
      exact skipped (by rw [writes, pblock]; rfl)
  case isFalse foreign =>
    cases done
    refine iff_of_true (fun _ here => here) ?_
    rintro ⟨_, _, _, _, mine, _, _, _⟩
    exact foreign (by rw [mine]; simp)

/-- Only a transfer that names an order takes it out unanswered. -/
theorem Step.keepsOrders_iff {step : Step}
    (performed : step.event.perform step.before = some step.outcome) :
    step.KeepsOrders ↔ ¬ step.NamesOrder := by
  rcases step with ⟨before, event, outcome⟩
  unfold Step.KeepsOrders Step.NamesOrder
  dsimp only at performed ⊢
  cases event with
  | syncTransaction around tx pblock =>
      rcases Option.map_eq_some_iff.mp performed with ⟨wallet, done, rfl⟩
      have keeps := syncTransaction_keeps_iff done
      constructor
      · rintro kept ⟨_, _, fileMeta, same, named⟩
        cases same
        refine keeps.mp ?_ ⟨fileMeta, rfl, named⟩
        intro txid here
        by_contra gone
        cases kept txid here gone
      · intro unnamed txid here gone
        refine absurd (keeps.mpr ?_ txid here) gone
        rintro ⟨fileMeta, rfl, named⟩
        exact unnamed ⟨around, tx, fileMeta, rfl, named⟩
  | processFileContract around =>
      refine iff_of_true (processOrders_keeps performed) ?_
      rintro ⟨_, _, _, impossible, _⟩
      cases impossible
  | writeWalletFileTx walletFileTx =>
      cases performed
      refine iff_of_true (fun _ here gone => absurd here gone) ?_
      rintro ⟨_, _, _, impossible, _⟩
      cases impossible
  | resendWalletTransactions around =>
      cases performed
      refine iff_of_true (fun _ here gone => absurd here gone) ?_
      rintro ⟨_, _, _, impossible, _⟩
      cases impossible

/--
A run keeps its orders until they are confirmed exactly when no block of it
brings a file transfer from elsewhere that names one of them.
-/
theorem orders_kept_iff (start wallet : CWallet) (steps : List Step)
    (run : Run start steps wallet) :
    (∀ step ∈ steps, step.KeepsOrders) ↔
      ∀ step ∈ steps, ¬ step.NamesOrder := by
  constructor
  · intro kept step here
    exact (Step.keepsOrders_iff (run.performed step here)).mp (kept step here)
  · intro unnamed step here
    exact (Step.keepsOrders_iff (run.performed step here)).mpr
      (unnamed step here)

/-! ### A stranger's file transfer -/

/-- The wallet of a seller; all goes well, and payments are deep enough. -/
def sampleAround : Surroundings where
  depth := fun _ => 6
  isMine := fun _ => true
  getCredit := fun _ => 100
  getDebit := fun _ => 0
  writesToDisk := true
  getTransaction := fun _ => none
  getTransaction_hash := by
    intro txid tx impossible
    cases impossible
  isLocked := false
  adjustedTime := 0
  encryptMeta := fun _ _ => some []
  encryptFile := fun walletFileTx => walletFileTx.vchBytes
  calcFileHash := fun _ => 3
  saveFileDB := fun _ => true
  createTransaction := fun _ _ _ => some ⟨20, [], [], 0⟩
  acceptToMemoryPool := fun _ => true
  resends := fun _ => true

def emptyWallet : CWallet where
  mapWallet := fun _ => none
  keyed := by
    intro txid tx impossible
    cases impossible
  mapMaturation := ∅
  walletFileTxs := fun _ => none
  walletFileTxSent := fun _ => false
  deliveries := []

/-- A confirmation of payment request 10. -/
def confirmTx : CTransaction :=
  ⟨11, 1, txFilePaymentConfirm, [], [], .paymentConfirm ⟨1, 10, 60, []⟩, [], 0⟩

/-- A file transfer that calls transaction 11 its confirmation. -/
def strangersTransfer : CTransaction :=
  ⟨12, 1, txFileTransfer, [], [], .fileMeta ⟨1, 11, []⟩, [⟨3, 60, 0⟩], 0⟩

def orderedOutcome : Outcome :=
  ⟨{ addToWallet confirmTx emptyWallet with
      mapMaturation := (∅ : Std.ExtTreeMap UInt256 CTransaction).insert 11
        confirmTx }, [], []⟩

def orderedStep : Step :=
  ⟨emptyWallet, .syncTransaction sampleAround confirmTx true, orderedOutcome⟩

theorem orderedStep_performed :
    orderedStep.event.perform emptyWallet = some orderedOutcome := rfl

theorem orders_kept_ordered : orderedStep.KeepsOrders := by
  have run : Run emptyWallet [orderedStep] orderedOutcome.wallet :=
    .snoc .nil orderedStep_performed
  refine (orders_kept_iff _ _ _ run).mpr ?_ orderedStep
    (List.mem_singleton_self _)
  intro step here
  rw [List.mem_singleton.mp here]
  rintro ⟨_, tx, _, same, isTransfer, _⟩
  cases same
  exact absurd isTransfer (by decide)

theorem stranger_removes_order :
    ¬ ∀ (start wallet : CWallet) (steps : List Step), Run start steps wallet →
      ∀ step ∈ steps, step.KeepsOrders := by
  intro kept
  let event : Event := .syncTransaction sampleAround strangersTransfer true
  cases performed : event.perform orderedOutcome.wallet with
  | none => cases performed
  | some outcome =>
      have run : Run emptyWallet
          ([orderedStep] ++ [⟨orderedOutcome.wallet, event, outcome⟩])
          outcome.wallet :=
        .snoc (.snoc .nil orderedStep_performed) performed
      have keeps := kept _ _ _ run ⟨orderedOutcome.wallet, event, outcome⟩
        (by simp)
      refine (Step.keepsOrders_iff performed).mp keeps
        ⟨sampleAround, strangersTransfer, ⟨1, 11, []⟩, rfl, rfl, rfl, rfl, rfl,
          rfl, ?_⟩
      change (11 : UInt256) ∈
        (∅ : Std.ExtTreeMap UInt256 CTransaction).insert 11 confirmTx
      exact Std.ExtTreeMap.mem_insert_self

end PrivateDatagram.Wallet.FileOrders
