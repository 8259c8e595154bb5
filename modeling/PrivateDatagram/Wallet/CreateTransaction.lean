import PrivateDatagram.Transfer.FileFee
import PrivateDatagram.Wallet.CoinSelection

/-!
# CreateTransaction

The loop of `CreateTransaction`: it builds the outputs for the payees, selects
coins for them and the fee, puts the change somewhere, signs, and starts over
with a higher fee until the fee is enough for the size.

A created transaction balances as long as the amounts do not overflow.
-/

namespace PrivateDatagram.Wallet.CreateTransaction

open Library.ByteFormat Transfer Wire.Serialize Wire.Transaction
open Wallet.CoinSelection (CWalletTx WalletOutput cent)

/-! ## Fees -/

structure CFeeRate where
  nSatoshisPerK : Int64
deriving DecidableEq, Repr

/-- The size turns the product into an unsigned one. -/
def CFeeRate.getFee (rate : CFeeRate) (nSize : UInt64) : Int64 :=
  let nFee := (rate.nSatoshisPerK.toUInt64 * nSize / 1000).toInt64
  if nFee = 0 ∧ rate.nSatoshisPerK > 0 then rate.nSatoshisPerK else nFee

/-- The fee settings of the wallet, and the estimate of the mempool. -/
structure FeePolicy where
  payTxFee : CFeeRate
  fPayAtLeastCustomFee : Bool
  /-- `pool.estimateFee(nTxConfirmTarget)`. -/
  estimateFee : CFeeRate
  minTxFee : CFeeRate
  minRelayTxFee : CFeeRate
  maxTxFee : Int64
  fSendFreeTransactions : Bool
deriving DecidableEq, Repr

def getMinimumFee (policy : FeePolicy) (nTxBytes : UInt32) : Int64 :=
  let nFeeNeeded := policy.payTxFee.getFee nTxBytes.toUInt64
  let nFeeNeeded :=
    if policy.fPayAtLeastCustomFee ∧ nFeeNeeded > 0 ∧
        nFeeNeeded < policy.payTxFee.nSatoshisPerK then
      policy.payTxFee.nSatoshisPerK
    else
      nFeeNeeded
  let nFeeNeeded :=
    if nFeeNeeded = 0 then policy.estimateFee.getFee nTxBytes.toUInt64
    else nFeeNeeded
  let nFeeNeeded :=
    if nFeeNeeded = 0 then policy.minTxFee.getFee nTxBytes.toUInt64
    else nFeeNeeded
  let nFeeNeeded :=
    if nFeeNeeded < policy.minRelayTxFee.getFee nTxBytes.toUInt64 then
      policy.minRelayTxFee.getFee nTxBytes.toUInt64
    else
      nFeeNeeded
  if nFeeNeeded > policy.maxTxFee then policy.maxTxFee else nFeeNeeded

/-- `IsDust(::minRelayTxFee)`. -/
def isDust (policy : FeePolicy) (txout : CTxOut) : Bool :=
  let nSize := UInt64.ofNat (CTxOut.format.encode txout).length + 148
  txout.nValue < 3 * policy.minRelayTxFee.getFee nSize

/-- `MAX_STANDARD_TX_SIZE`. -/
def maxStandardTxSize : UInt32 := 100000

/-- `MAX_FREE_TRANSACTION_CREATE_SIZE`. -/
def maxFreeTransactionCreateSize : UInt32 := 1000

/-! ## What is asked for -/

inductive AvailableCoinsType where
  | allCoins
  | onlyDenominated
  | onlyNot10000IfMn
  | onlyNonDenominatedNot10000IfMn
  | only10000
  | stakableCoins
deriving DecidableEq, Repr

structure CCoinControl where
  /-- The script for `destChange`, unless it is a `CNoDestination`. -/
  destChange : Option CScript
  fSplitBlock : Bool
  nSplitBlock : Int32
deriving DecidableEq, Repr

/-- The arguments, with the type, the metadata and the files of `wtxNew`. -/
structure Request where
  vecSend : List (CScript × Int64)
  type : Int32
  metadata : CTransactionMeta
  vfiles : List CFile
  coinControl : Option CCoinControl
  coinType : AvailableCoinsType
  useIX : Bool
  nFeePay : Int64
deriving DecidableEq, Repr

/-- `if (useIX && nFeePay < CENT) nFeePay = CENT`. -/
def Request.feePay (request : Request) : Int64 :=
  if request.useIX ∧ request.nFeePay < cent then cent else request.nFeePay

/-- What the function asks the wallet and the node, in each round. -/
structure Node {P : Type} (mapWallet : P → CWalletTx) where
  hash256 : Bytes → UInt256
  policy : FeePolicy
  /-- `GetHash` of a transaction of the wallet. -/
  txHash : P → UInt256
  /-- `SelectCoins` in a round, with the coins in the order of the set. -/
  selectCoins : Nat → Int64 → Option (List (WalletOutput mapWallet) × Int64)
  /-- The script for the reserved key. -/
  reservedKeyScript : Nat → CScript
  /-- `GetRandInt(size + 1)`. -/
  getRandInt : Nat → (size : Nat) → Fin (size + 1)
  /-- `SignSignature` of an input: its script, unless signing fails. -/
  signSignature : WalletOutput mapWallet → CMutableTransaction → Nat →
    Option CScript
  /-- Whether the priority is high enough to send for free. -/
  enoughPriority : Nat → Bool
  /-- `GetTransaction`, down to the file size of the payment request. -/
  requestFileSize : UInt256 → Option UInt64
  /-- The lifetime in days, rounded. -/
  roundDays : UInt32 → UInt32

/-! ## Amounts and outputs -/

/-- The loop that adds up the amounts, nothing when they are refused. -/
def sumAmounts : List (CScript × Int64) → Int64 → Option Int64
  | [], nValue => if nValue < 0 then none else some nValue
  | s :: rest, nValue =>
      if nValue < 0 then none else sumAmounts rest (nValue + s.2)

/-- The outputs of a transaction that splits nothing. -/
def plainOutputs (policy : FeePolicy) (type : Int32) :
    List (CScript × Int64) → Except String (List CTxOut)
  | [] => .ok []
  | s :: rest => do
      let txout : CTxOut := ⟨s.2, s.1⟩
      if isDust policy txout ∧ type ≠ txFilePaymentRequest ∧
          type ≠ txFilePaymentConfirm then
        .error "Transaction amount too small"
      else do
        let vout ← plainOutputs policy type rest
        .ok (txout :: vout)

/-- The value of the i-th part; the last one gets the remainder. -/
def splitValue (nSplitBlock : Int32) (value : Int64) (i : Nat) : Int64 :=
  if i + 1 = nSplitBlock.toInt.toNat then
    ((value / nSplitBlock.toInt64).toUInt64 +
      (value % nSplitBlock.toInt64).toUInt64).toInt64
  else
    value / nSplitBlock.toInt64

/-- The parts for one payee. -/
def splitOutputs (nSplitBlock : Int32) (s : CScript × Int64) : List CTxOut :=
  (List.range nSplitBlock.toInt.toNat).map fun i =>
    ⟨splitValue nSplitBlock s.2 i, s.1⟩

/-- The outputs to the payees. -/
def payeeOutputs (policy : FeePolicy) (request : Request) :
    Except String (List CTxOut) :=
  match request.coinControl with
  | none => .ok (request.vecSend.flatMap (splitOutputs 1))
  | some coinControl =>
      if coinControl.fSplitBlock then
        .ok (request.vecSend.flatMap (splitOutputs coinControl.nSplitBlock))
      else
        plainOutputs policy request.type request.vecSend

/-- The reason when `SelectCoins` fails. -/
def selectionFailure (request : Request) : String :=
  (match request.coinType with
  | .allCoins => "Insufficient funds."
  | .onlyNot10000IfMn =>
      "Unable to locate enough funds for this transaction that are not " ++
        "equal 10000 PDG."
  | .onlyNonDenominatedNot10000IfMn =>
      "Unable to locate enough Obfuscation non-denominated funds for this " ++
        "transaction that are not equal 10000 PDG."
  | _ =>
      "Unable to locate enough Obfuscation denominated funds for this " ++
        "transaction. Obfuscation uses exact denominated amounts to send " ++
        "funds, you might simply need to anonymize some more coins.") ++
    if request.useIX then
      " SwiftX requires inputs with at least 6 confirmations, you might " ++
        "need to wait a few minutes and try again."
    else
      ""

/-! ## The change -/

/-- The change added to the first output with its script. -/
def combineChange (scriptChange : CScript) (nChange : Int64) :
    List CTxOut → Option (List CTxOut)
  | [] => none
  | txout :: rest =>
      if scriptChange = txout.scriptPubKey then
        some ({ txout with nValue := txout.nValue + nChange } :: rest)
      else
        (combineChange scriptChange nChange rest).map (txout :: ·)

section

variable {P : Type} {mapWallet : P → CWalletTx}

/-- An output of its own for the change, or a higher fee if that were dust. -/
def insertChange (node : Node mapWallet) (round : Nat)
    (scriptChange : CScript) (nChange : Int64) (vout : List CTxOut)
    (nFeeRet : Int64) : List CTxOut × Int64 :=
  let newTxOut : CTxOut := ⟨nChange, scriptChange⟩
  if isDust node.policy newTxOut then
    (vout, nFeeRet + nChange)
  else
    (vout.insertIdx (node.getRandInt round vout.length) newTxOut, nFeeRet)

/-- Where the change goes; the outputs and the fee afterwards. -/
def placeChange (node : Node mapWallet) (request : Request) (round : Nat)
    (nChange : Int64) (vout : List CTxOut) (nFeeRet : Int64) :
    List CTxOut × Int64 :=
  if nChange > 0 then
    match request.coinControl.bind CCoinControl.destChange with
    | some scriptChange =>
        match combineChange scriptChange nChange vout with
        | some vout => (vout, nFeeRet)
        | none => insertChange node round scriptChange nChange vout nFeeRet
    | none =>
        insertChange node round (node.reservedKeyScript round) nChange vout
          nFeeRet
  else
    (vout, nFeeRet)

/-- Denominated transactions leave the change to the fee. -/
def settleChange (node : Node mapWallet) (request : Request) (round : Nat)
    (nChange : Int64) (vout : List CTxOut) (nFeeRet : Int64) :
    List CTxOut × Int64 :=
  if request.coinType = .onlyDenominated then
    placeChange node request round 0 vout (nFeeRet + nChange)
  else
    placeChange node request round nChange vout nFeeRet

/-! ## A round -/

/-- `COutPoint(coin.first->GetHash(), coin.second)`. -/
def outPoint (node : Node mapWallet) (coin : WalletOutput mapWallet) :
    COutPoint :=
  ⟨node.txHash coin.tx, UInt32.ofNat coin.i⟩

/-- The transaction before it is signed. -/
def unsigned (node : Node mapWallet) (request : Request)
    (coins : List (WalletOutput mapWallet)) (vout : List CTxOut) :
    CMutableTransaction :=
  { CMutableTransaction.fresh with
    type := request.type
    vin := coins.map fun coin => ⟨outPoint node coin, [], 0xffffffff⟩
    vout := vout
    metadata := request.metadata
    vfiles := if request.type = txFileTransfer then request.vfiles else [] }

/-- The loop over the coins that signs the inputs from one on. -/
def signInputs (node : Node mapWallet) :
    List (WalletOutput mapWallet) → Nat → CMutableTransaction →
      Option CMutableTransaction
  | [], _, txNew => some txNew
  | coin :: rest, nIn, txNew => do
      let scriptSig ← node.signSignature coin txNew nIn
      signInputs node rest (nIn + 1)
        { txNew with
          vin := txNew.vin.modify nIn fun txin =>
            { txin with scriptSig := scriptSig } }

/-- `GetFileFee`. -/
def getFileFee (node : Node mapWallet) (confirm : CPaymentConfirm) : Int64 :=
  match node.requestFileSize confirm.requestTxid with
  | some nFileSize =>
      FileFee.getFee FileFee.minFileFee nFileSize
        (node.roundDays confirm.nLifeTime)
  | none => 0

/-- The minimum fee of a size, doubled for a payment request. -/
def sizeFee (node : Node mapWallet) (request : Request) (nBytes : UInt32) :
    Int64 :=
  getMinimumFee node.policy nBytes *
    if request.type = txFilePaymentRequest then 2 else 1

/-- The file fee, for a payment confirmation, whose metadata is cast without a
check. -/
def fileFee (node : Node mapWallet) (request : Request) : Int64 :=
  if request.type = txFilePaymentConfirm then
    getFileFee node request.metadata.getOrRecreatePaymentConfirm
  else
    0

def feeNeeded (node : Node mapWallet) (request : Request) (nBytes : UInt32) :
    Int64 :=
  max request.feePay (sizeFee node request nBytes) + fileFee node request

/-- Whether a transaction of this size may be sent for free. -/
def canBeFree (node : Node mapWallet) (round : Nat) (nBytes : UInt32) : Bool :=
  node.policy.fSendFreeTransactions &&
    decide (nBytes ≤ maxFreeTransactionCreateSize) &&
    node.enoughPriority round

/-- `nBytes`. -/
def sizeOf (tx : CTransaction) : UInt32 :=
  UInt32.ofNat tx.serialize.length

inductive RoundEnd where
  | failed (strFailReason : String)
  | created (wtxNew : CTransaction) (nFeeRet : Int64)
  | again (nFeeRet : Int64)
deriving DecidableEq, Repr

/-- The checks of size and fee, once the transaction is signed. -/
def checkFee (node : Node mapWallet) (request : Request) (round : Nat)
    (wtxNew : CTransaction) (nFeeRet : Int64) : RoundEnd :=
  let nBytes := sizeOf wtxNew
  if nBytes ≥ maxStandardTxSize then
    .failed "Transaction too large"
  else if canBeFree node round nBytes then
    .created wtxNew nFeeRet
  else if feeNeeded node request nBytes <
      node.policy.minRelayTxFee.getFee nBytes.toUInt64 then
    .failed "Transaction too large for fee policy"
  else if nFeeRet ≥ feeNeeded node request nBytes then
    .created wtxNew nFeeRet
  else
    .again (feeNeeded node request nBytes)

/-- One round of the loop. -/
def runRound (node : Node mapWallet) (request : Request) (nValue : Int64)
    (round : Nat) (nFeeRet : Int64) : RoundEnd :=
  match payeeOutputs node.policy request with
  | .error strFailReason => .failed strFailReason
  | .ok vout =>
      match node.selectCoins round (nValue + nFeeRet) with
      | none => .failed (selectionFailure request)
      | some (coins, nValueIn) =>
          let settled := settleChange node request round
            (nValueIn - nValue - nFeeRet) vout nFeeRet
          match signInputs node coins 0
              (unsigned node request coins settled.1) with
          | none => .failed "Signing transaction failed"
          | some txNew =>
              checkFee node request round (.ofMutable node.hash256 txNew)
                settled.2

/-! ## The loop -/

inductive Outcome where
  | failed (strFailReason : String)
  | created (wtxNew : CTransaction) (nFeeRet : Int64)
deriving DecidableEq, Repr

/-- The rounds from one on, nothing when the fuel does not suffice. -/
def runRounds (node : Node mapWallet) (request : Request) (nValue : Int64) :
    Nat → Nat → Int64 → Option Outcome
  | 0, _, _ => none
  | fuel + 1, round, nFeeRet =>
      match runRound node request nValue round nFeeRet with
      | .failed strFailReason => some (.failed strFailReason)
      | .created wtxNew nFeeRet => some (.created wtxNew nFeeRet)
      | .again nFeeRet =>
          runRounds node request nValue fuel (round + 1) nFeeRet

/-- The fee that the loop starts with. -/
def startFee (request : Request) : Int64 :=
  if request.feePay > 0 then request.feePay else 0

def createTransaction (node : Node mapWallet) (request : Request)
    (fuel : Nat) : Option Outcome :=
  match sumAmounts request.vecSend 0 with
  | none => some (.failed "Transaction amounts must be positive")
  | some nValue =>
      if request.vecSend.isEmpty then
        some (.failed "Transaction amounts must be positive")
      else
        runRounds node request nValue fuel 0 (startFee request)

end

/-! ## Amounts that do not overflow -/

/-- An integer that is a `CAmount`. -/
def Fits (amount : Int) : Prop :=
  -2 ^ 63 ≤ amount ∧ amount < 2 ^ 63

instance (amount : Int) : Decidable (Fits amount) :=
  inferInstanceAs (Decidable (_ ∧ _))

theorem Fits.toInt_add {left right : Int64}
    (fits : Fits (left.toInt + right.toInt)) :
    (left + right).toInt = left.toInt + right.toInt := by
  obtain ⟨low, high⟩ := fits
  rw [Int64.toInt_add]
  exact Int.bmod_eq_of_le (by omega) (by omega)

theorem Fits.toInt_sub {left right : Int64}
    (fits : Fits (left.toInt - right.toInt)) :
    (left - right).toInt = left.toInt - right.toInt := by
  obtain ⟨low, high⟩ := fits
  rw [Int64.toInt_sub]
  exact Int.bmod_eq_of_le (by omega) (by omega)

/-! ## What is paid -/

/-- The part of a payment that counts for some scripts. -/
def share (counts : CScript → Bool) (script : CScript) (value : Int) : Int :=
  if counts script then value else 0

/-- What the outputs pay to some scripts. -/
def paid (counts : CScript → Bool) (vout : List CTxOut) : Int :=
  (vout.map fun txout =>
    share counts txout.scriptPubKey txout.nValue.toInt).sum

/-- What some scripts are to be paid. -/
def requested (counts : CScript → Bool) (vecSend : List (CScript × Int64)) :
    Int :=
  (vecSend.map fun s => share counts s.1 s.2.toInt).sum

/-- All scripts. -/
def everyScript (_ : CScript) : Bool := true

section

variable {counts : CScript → Bool}

theorem paid_cons (txout : CTxOut) (vout : List CTxOut) :
    paid counts (txout :: vout) =
      share counts txout.scriptPubKey txout.nValue.toInt +
        paid counts vout := by
  rw [paid, List.map_cons, List.sum_cons]
  rfl

theorem paid_append (left right : List CTxOut) :
    paid counts (left ++ right) = paid counts left + paid counts right := by
  rw [paid, List.map_append, List.sum_append]
  rfl

theorem requested_cons (s : CScript × Int64)
    (vecSend : List (CScript × Int64)) :
    requested counts (s :: vecSend) =
      share counts s.1 s.2.toInt + requested counts vecSend := by
  rw [requested, List.map_cons, List.sum_cons]
  rfl

theorem share_add (script : CScript) (left right : Int) :
    share counts script (left + right) =
      share counts script left + share counts script right := by
  unfold share
  split_ifs
  · rfl
  · rfl

theorem share_zero (script : CScript) : share counts script 0 = 0 := by
  unfold share
  split_ifs
  · rfl
  · rfl

theorem paid_insertIdx (txout : CTxOut) {vout : List CTxOut} {position : Nat}
    (inRange : position ≤ vout.length) :
    paid counts (vout.insertIdx position txout) =
      share counts txout.scriptPubKey txout.nValue.toInt +
        paid counts vout := by
  rw [← paid_cons]
  exact ((List.perm_insertIdx txout vout inRange).map _).sum_eq

end

/-! ## The amounts of the payees -/

theorem sumAmounts_nonneg {vecSend : List (CScript × Int64)}
    {start nValue : Int64} (added : sumAmounts vecSend start = some nValue) :
    0 ≤ start.toInt := by
  have zero : (0 : Int64).toInt = 0 := rfl
  by_contra negative
  have negative : start < 0 := by
    rw [Int64.lt_iff_toInt_lt, zero]
    omega
  cases vecSend with
  | nil =>
      rw [sumAmounts, if_pos negative] at added
      cases added
  | cons s rest =>
      rw [sumAmounts, if_pos negative] at added
      cases added

/-- The check for negative totals finds every overflow. -/
theorem toInt_sumAmounts {vecSend : List (CScript × Int64)}
    {start nValue : Int64} (nonneg : ∀ s ∈ vecSend, 0 ≤ s.2.toInt)
    (added : sumAmounts vecSend start = some nValue) :
    0 ≤ nValue.toInt ∧
      nValue.toInt = start.toInt + requested everyScript vecSend := by
  have startNonneg := sumAmounts_nonneg added
  induction vecSend generalizing start with
  | nil =>
      rw [sumAmounts] at added
      split_ifs at added
      obtain ⟨⟩ := added
      exact ⟨startNonneg, (add_zero _).symm⟩
  | cons s rest hypothesis =>
      rw [List.forall_mem_cons] at nonneg
      rw [sumAmounts] at added
      split_ifs at added
      have nextNonneg := sumAmounts_nonneg added
      have exact : (start + s.2).toInt = start.toInt + s.2.toInt := by
        have startHigh := start.toInt_lt
        have amountHigh := s.2.toInt_lt
        have amountLow := nonneg.1
        rw [Int64.toInt_add, Int.bmod_def] at nextNonneg ⊢
        omega
      have next := hypothesis nonneg.2 added nextNonneg
      rw [requested_cons, share, everyScript, if_pos rfl, ← add_assoc,
        ← exact]
      exact next

/-! ## The outputs of the payees -/

/-- Outputs that pay what is requested, none of them negative. -/
structure PaysOff (vecSend : List (CScript × Int64)) (vout : List CTxOut) :
    Prop where
  nonneg : ∀ txout ∈ vout, 0 ≤ txout.nValue.toInt
  paid : ∀ counts, paid counts vout = requested counts vecSend

theorem PaysOff.cons {s : CScript × Int64} {vecSend : List (CScript × Int64)}
    {first rest : List CTxOut} (one : PaysOff [s] first)
    (others : PaysOff vecSend rest) :
    PaysOff (s :: vecSend) (first ++ rest) where
  nonneg := by
    intro txout mem
    obtain mem | mem := List.mem_append.mp mem
    · exact one.nonneg txout mem
    · exact others.nonneg txout mem
  paid := by
    intro counts
    rw [paid_append, one.paid, others.paid, requested_cons, requested_cons]
    simp [requested]

theorem paysOff_plainOutputs {policy : FeePolicy} {type : Int32}
    {vecSend : List (CScript × Int64)} {vout : List CTxOut}
    (nonneg : ∀ s ∈ vecSend, 0 ≤ s.2.toInt)
    (built : plainOutputs policy type vecSend = .ok vout) :
    PaysOff vecSend vout := by
  induction vecSend generalizing vout with
  | nil =>
      obtain ⟨⟩ := built
      refine ⟨?_, fun _ => rfl⟩
      rintro _ ⟨⟩
  | cons s rest hypothesis =>
      rw [List.forall_mem_cons] at nonneg
      rw [plainOutputs] at built
      split_ifs at built
      cases others : plainOutputs policy type rest with
      | error strFailReason =>
          rw [others] at built
          cases built
      | ok vout' =>
          rw [others] at built
          obtain ⟨⟩ := built
          have one : PaysOff [s] [⟨s.2, s.1⟩] := by
            refine ⟨?_, fun _ => rfl⟩
            intro txout mem
            rw [List.mem_singleton.mp mem]
            exact nonneg.1
          exact one.cons (hypothesis nonneg.2 others)

/-- The quotient, for all parts but the last. -/
theorem toInt_splitValue {nSplitBlock : Int32} {value : Int64}
    (positive : 0 < nSplitBlock.toInt) (nonneg : 0 ≤ value.toInt) (i : Nat) :
    (splitValue nSplitBlock value i).toInt =
      value.toInt / nSplitBlock.toInt +
        if i + 1 = nSplitBlock.toInt.toNat then
          value.toInt % nSplitBlock.toInt
        else
          0 := by
  have divisor : nSplitBlock.toInt64.toInt = nSplitBlock.toInt :=
    Int32.toInt_toInt64 nSplitBlock
  have notMinusOne : nSplitBlock.toInt64 ≠ -1 := by
    intro minusOne
    rw [minusOne] at divisor
    have negative : (-1 : Int64).toInt = -1 := by decide
    omega
  have quotient : (value / nSplitBlock.toInt64).toInt =
      value.toInt / nSplitBlock.toInt := by
    rw [Int64.toInt_div_of_ne_right _ _ notMinusOne, divisor,
      Int.tdiv_eq_ediv_of_nonneg nonneg]
  have remainder : (value % nSplitBlock.toInt64).toInt =
      value.toInt % nSplitBlock.toInt := by
    rw [Int64.toInt_mod, divisor, Int.tmod_eq_emod_of_nonneg nonneg]
  unfold splitValue
  split_ifs
  · have parts := Int.mul_ediv_add_emod value.toInt nSplitBlock.toInt
    have quotientNonneg : 0 ≤ value.toInt / nSplitBlock.toInt :=
      Int.ediv_nonneg nonneg positive.le
    have remainderNonneg := Int.emod_nonneg value.toInt positive.ne'
    have high := value.toInt_lt
    have once : value.toInt / nSplitBlock.toInt ≤
        nSplitBlock.toInt * (value.toInt / nSplitBlock.toInt) :=
      le_mul_of_one_le_left quotientNonneg positive
    have sum : ((value / nSplitBlock.toInt64).toUInt64 +
        (value % nSplitBlock.toInt64).toUInt64).toInt64 =
          value / nSplitBlock.toInt64 + value % nSplitBlock.toInt64 := rfl
    rw [sum, Fits.toInt_add, quotient, remainder]
    rw [quotient, remainder]
    exact ⟨by omega, by omega⟩
  · rw [quotient, add_zero]

/-- The parts add up to the value. -/
theorem sum_splitValue {nSplitBlock : Int32} {value : Int64}
    (positive : 0 < nSplitBlock.toInt) (nonneg : 0 ≤ value.toInt) :
    ((List.range nSplitBlock.toInt.toNat).map fun i =>
      (splitValue nSplitBlock value i).toInt).sum = value.toInt := by
  obtain ⟨count, counted⟩ :
      ∃ count : Nat, nSplitBlock.toInt.toNat = count + 1 :=
    ⟨nSplitBlock.toInt.toNat - 1, by omega⟩
  have total : nSplitBlock.toInt = count + 1 := by omega
  have others : (List.range count).map (fun i =>
      (splitValue nSplitBlock value i).toInt) =
        (List.range count).map fun _ => value.toInt / nSplitBlock.toInt := by
    apply List.map_congr_left
    intro i mem
    rw [List.mem_range] at mem
    rw [toInt_splitValue positive nonneg, if_neg (by omega), add_zero]
  have parts := Int.mul_ediv_add_emod value.toInt nSplitBlock.toInt
  rw [counted, List.range_succ, List.map_append, List.sum_append, others,
    List.map_const', List.sum_replicate, List.length_range,
    List.map_singleton, List.sum_singleton, toInt_splitValue positive nonneg,
    if_pos counted.symm, nsmul_eq_mul, ← add_assoc]
  rw [total, add_mul, one_mul, ← total] at parts
  exact parts

theorem share_sum {counts : CScript → Bool} (script : CScript)
    (values : List Int) :
    (values.map fun value => share counts script value).sum =
      share counts script values.sum := by
  induction values with
  | nil => exact (share_zero script).symm
  | cons value values hypothesis =>
      rw [List.map_cons, List.sum_cons, hypothesis, List.sum_cons, share_add]

theorem paysOff_splitOutputs {nSplitBlock : Int32} {s : CScript × Int64}
    (positive : 0 < nSplitBlock.toInt) (nonneg : 0 ≤ s.2.toInt) :
    PaysOff [s] (splitOutputs nSplitBlock s) := by
  constructor
  · intro txout mem
    obtain ⟨i, -, rfl⟩ := List.mem_map.mp mem
    rw [toInt_splitValue positive nonneg]
    have quotientNonneg : 0 ≤ s.2.toInt / nSplitBlock.toInt :=
      Int.ediv_nonneg nonneg positive.le
    have remainderNonneg := Int.emod_nonneg s.2.toInt positive.ne'
    split_ifs
    · omega
    · omega
  · intro counts
    have values := sum_splitValue positive nonneg
    rw [splitOutputs, paid, List.map_map, requested, List.map_singleton,
      List.sum_singleton, ← values, ← share_sum, List.map_map]
    rfl

theorem paysOff_flatMap {nSplitBlock : Int32}
    (positive : 0 < nSplitBlock.toInt) {vecSend : List (CScript × Int64)}
    (nonneg : ∀ s ∈ vecSend, 0 ≤ s.2.toInt) :
    PaysOff vecSend (vecSend.flatMap (splitOutputs nSplitBlock)) := by
  induction vecSend with
  | nil =>
      refine ⟨?_, fun _ => rfl⟩
      rintro _ ⟨⟩
  | cons s rest hypothesis =>
      rw [List.forall_mem_cons] at nonneg
      rw [List.flatMap_cons]
      exact (paysOff_splitOutputs positive nonneg.1).cons
        (hypothesis nonneg.2)

/-- A split count is at least one. -/
def SplitsPositively (request : Request) : Prop :=
  ∀ coinControl, request.coinControl = some coinControl →
    coinControl.fSplitBlock = true → 0 < coinControl.nSplitBlock.toInt

theorem paysOff_payeeOutputs {policy : FeePolicy} {request : Request}
    (nonneg : ∀ s ∈ request.vecSend, 0 ≤ s.2.toInt)
    (splits : SplitsPositively request) {vout : List CTxOut}
    (built : payeeOutputs policy request = .ok vout) :
    PaysOff request.vecSend vout := by
  unfold payeeOutputs at built
  cases control : request.coinControl with
  | none =>
      rw [control] at built
      obtain ⟨⟩ := built
      exact paysOff_flatMap (by decide) nonneg
  | some coinControl =>
      rw [control] at built
      dsimp only at built
      split_ifs at built with split
      · obtain ⟨⟩ := built
        exact paysOff_flatMap (splits coinControl control split) nonneg
      · exact paysOff_plainOutputs nonneg built

/-- No single output is above the total. -/
theorem PaysOff.value_le {vecSend : List (CScript × Int64)}
    {vout : List CTxOut} (paysOff : PaysOff vecSend vout) {txout : CTxOut}
    (mem : txout ∈ vout) :
    txout.nValue.toInt ≤ requested everyScript vecSend := by
  rw [← paysOff.paid everyScript]
  apply List.single_le_sum
  · rintro _ valueMem
    obtain ⟨other, otherMem, rfl⟩ := List.mem_map.mp valueMem
    exact paysOff.nonneg other otherMem
  · exact List.mem_map.mpr ⟨txout, mem, rfl⟩

/-! ## The change -/

/-- Outputs and a fee after an amount was distributed: some of it to a script
for change, the rest to the fee. -/
structure Distributed (isChange : CScript → Prop) (amount : Int)
    (before after : List CTxOut × Int64) (scriptChange : CScript)
    (left : Int) : Prop where
  nonneg : 0 ≤ left
  script : 0 < left → isChange scriptChange
  paid : ∀ counts, paid counts after.1 =
    paid counts before.1 + share counts scriptChange left
  le : before.2.toInt ≤ after.2.toInt
  fee : after.2.toInt = before.2.toInt + amount - left

/-- All of it to the fee. -/
theorem distributed_toFee (isChange : CScript → Prop) (scriptChange : CScript)
    (vout : List CTxOut) {nChange nFeeRet : Int64}
    (nonneg : 0 ≤ nChange.toInt)
    (fits : Fits (nFeeRet.toInt + nChange.toInt)) :
    Distributed isChange nChange.toInt (vout, nFeeRet)
      (vout, nFeeRet + nChange) scriptChange 0 := by
  refine ⟨le_rfl, fun impossible => absurd impossible (lt_irrefl 0), ?_, ?_,
    ?_⟩
  · intro counts
    rw [share_zero, add_zero]
  · rw [fits.toInt_add]
    exact le_add_of_nonneg_right nonneg
  · rw [fits.toInt_add, sub_zero]

theorem combineChange_paid {scriptChange : CScript} {nChange : Int64}
    {vout combined : List CTxOut}
    (fits : ∀ txout ∈ vout, Fits (txout.nValue.toInt + nChange.toInt))
    (found : combineChange scriptChange nChange vout = some combined)
    (counts : CScript → Bool) :
    paid counts combined =
      paid counts vout + share counts scriptChange nChange.toInt := by
  induction vout generalizing combined with
  | nil => cases found
  | cons txout rest hypothesis =>
      rw [List.forall_mem_cons] at fits
      rw [combineChange] at found
      split_ifs at found with same
      · obtain ⟨⟩ := found
        rw [paid_cons, paid_cons, fits.1.toInt_add, share_add, same]
        exact add_right_comm _ _ _
      · obtain ⟨combined', found', rfl⟩ := Option.map_eq_some_iff.mp found
        rw [paid_cons, paid_cons, hypothesis fits.2 found', add_assoc]

section

variable {P : Type} {mapWallet : P → CWalletTx}

/-- The script that the change goes to. -/
def IsChangeScript (node : Node mapWallet) (request : Request)
    (script : CScript) : Prop :=
  match request.coinControl.bind CCoinControl.destChange with
  | some scriptChange => script = scriptChange
  | none => ∃ round, script = node.reservedKeyScript round

theorem insertChange_distributed {node : Node mapWallet} (round : Nat)
    {isChange : CScript → Prop} {scriptChange : CScript}
    (known : isChange scriptChange) {nChange : Int64} {vout : List CTxOut}
    {nFeeRet : Int64} (nonneg : 0 ≤ nChange.toInt)
    (fits : Fits (nFeeRet.toInt + nChange.toInt)) :
    ∃ left, Distributed isChange nChange.toInt (vout, nFeeRet)
      (insertChange node round scriptChange nChange vout nFeeRet)
      scriptChange left := by
  unfold insertChange
  dsimp only
  split_ifs
  · exact ⟨0, distributed_toFee isChange scriptChange vout nonneg fits⟩
  · refine ⟨nChange.toInt, nonneg, fun _ => known, ?_, le_rfl, ?_⟩
    · intro counts
      rw [paid_insertIdx _ (Nat.lt_succ_iff.mp (Fin.isLt _)), add_comm]
    · exact (add_sub_cancel_right _ _).symm

theorem placeChange_distributed {node : Node mapWallet} {request : Request}
    (round : Nat) {nChange : Int64} {vout : List CTxOut} {nFeeRet : Int64}
    (nonneg : 0 ≤ nChange.toInt)
    (fitsFee : Fits (nFeeRet.toInt + nChange.toInt))
    (fitsOutputs : ∀ txout ∈ vout,
      Fits (txout.nValue.toInt + nChange.toInt)) :
    ∃ scriptChange left, Distributed (IsChangeScript node request)
      nChange.toInt (vout, nFeeRet)
      (placeChange node request round nChange vout nFeeRet) scriptChange
      left := by
  unfold placeChange
  have zero : (0 : Int64).toInt = 0 := rfl
  by_cases positive : nChange > 0
  · rw [if_pos positive]
    cases custom : request.coinControl.bind CCoinControl.destChange with
    | none =>
        have known : IsChangeScript node request
            (node.reservedKeyScript round) := by
          rw [IsChangeScript, custom]
          exact ⟨round, rfl⟩
        exact ⟨_, insertChange_distributed round known nonneg fitsFee⟩
    | some scriptChange =>
        have known : IsChangeScript node request scriptChange := by
          rw [IsChangeScript, custom]
        dsimp only
        cases found : combineChange scriptChange nChange vout with
        | none =>
            exact ⟨_, insertChange_distributed round known nonneg fitsFee⟩
        | some combined =>
            refine ⟨scriptChange, nChange.toInt, nonneg, fun _ => known, ?_,
              le_rfl, ?_⟩
            · exact combineChange_paid fitsOutputs found
            · exact (add_sub_cancel_right _ _).symm
  · rw [if_neg positive]
    rw [gt_iff_lt, Int64.lt_iff_toInt_lt, zero] at positive
    refine ⟨[], 0, le_rfl, fun impossible => absurd impossible (lt_irrefl 0),
      ?_, le_rfl, ?_⟩
    · intro counts
      rw [share_zero, add_zero]
    · dsimp only
      omega

theorem settleChange_distributed (node : Node mapWallet) (request : Request)
    (round : Nat) {nChange : Int64} {vout : List CTxOut} {nFeeRet : Int64}
    (nonneg : 0 ≤ nChange.toInt)
    (fitsFee : Fits (nFeeRet.toInt + nChange.toInt))
    (fitsOutputs : ∀ txout ∈ vout,
      Fits (txout.nValue.toInt + nChange.toInt)) :
    ∃ scriptChange left, Distributed (IsChangeScript node request)
      nChange.toInt (vout, nFeeRet)
      (settleChange node request round nChange vout nFeeRet) scriptChange
      left := by
  unfold settleChange
  split_ifs
  · rw [placeChange, if_neg (by decide)]
    exact ⟨[], 0, distributed_toFee _ [] vout nonneg fitsFee⟩
  · exact placeChange_distributed round nonneg fitsFee fitsOutputs

/-! ## Signing -/

theorem map_modify_of_eq {α β : Type} {change : α → α} {part : α → β}
    (same : ∀ value, part (change value) = part value) (values : List α)
    (index : Nat) : (values.modify index change).map part =
      values.map part := by
  induction values generalizing index with
  | nil =>
      rw [List.modify_nil]
  | cons value values hypothesis =>
      cases index with
      | zero => rw [List.modify_zero_cons, List.map_cons, List.map_cons, same]
      | succ index =>
          rw [List.modify_succ_cons, List.map_cons, List.map_cons,
            hypothesis]

/-- Signing changes scripts of inputs only. -/
theorem signInputs_keeps {node : Node mapWallet}
    {coins : List (WalletOutput mapWallet)} {nIn : Nat}
    {txNew signed : CMutableTransaction}
    (ran : signInputs node coins nIn txNew = some signed) :
    signed.vout = txNew.vout ∧
      signed.vin.map CTxIn.prevout = txNew.vin.map CTxIn.prevout := by
  induction coins generalizing nIn txNew with
  | nil =>
      obtain ⟨⟩ := ran
      exact ⟨rfl, rfl⟩
  | cons coin rest hypothesis =>
      obtain ⟨scriptSig, -, ran⟩ := Option.bind_eq_some_iff.mp ran
      obtain ⟨vout, vin⟩ := hypothesis ran
      refine ⟨vout, vin.trans ?_⟩
      apply map_modify_of_eq
      intro txin
      rfl

/-! ## One round -/

/-- `SelectCoins` finds distinct coins of at least the target, and returns
their total. -/
def SelectsEnough (node : Node mapWallet) : Prop :=
  ∀ round nTargetValue coins nValueIn,
    node.selectCoins round nTargetValue = some (coins, nValueIn) →
      coins.Nodup ∧
        (coins.map fun coin => coin.nValue.toInt).sum = nValueIn.toInt ∧
        nTargetValue.toInt ≤ nValueIn.toInt

/-- The inputs balance the outputs and the fee, and every script receives what
was requested for it and, if it is the script for change, the change. -/
structure Balanced (node : Node mapWallet) (request : Request)
    (tx : CTransaction) (nFeeRet : Int64) : Prop where
  inputs : ∃ coins : List (WalletOutput mapWallet), coins.Nodup ∧
    tx.vin.map CTxIn.prevout = coins.map (outPoint node) ∧
    (coins.map fun coin => coin.nValue.toInt).sum =
      paid everyScript tx.vout + nFeeRet.toInt
  payees : ∃ scriptChange nChange, 0 ≤ nChange ∧
    (0 < nChange → IsChangeScript node request scriptChange) ∧
    ∀ script, paid (fun other => other = script) tx.vout =
      requested (fun other => other = script) request.vecSend +
        if scriptChange = script then nChange else 0

/-- How a round may end that began with a fee. -/
inductive EndsWell (node : Node mapWallet) (request : Request) (round : Nat)
    (nFeeRet : Int64) : RoundEnd → Prop
  | failed (strFailReason : String) :
      EndsWell node request round nFeeRet (.failed strFailReason)
  | created {tx : CTransaction} {fee : Int64}
      (balanced : Balanced node request tx fee)
      (grows : nFeeRet.toInt ≤ fee.toInt)
      (enough : canBeFree node round (sizeOf tx) = true ∨
        (feeNeeded node request (sizeOf tx)).toInt ≤ fee.toInt) :
      EndsWell node request round nFeeRet (.created tx fee)
  | again {nBytes : UInt32} (small : nBytes < maxStandardTxSize)
      (grows : nFeeRet.toInt < (feeNeeded node request nBytes).toInt) :
      EndsWell node request round nFeeRet
        (.again (feeNeeded node request nBytes))

theorem checkFee_endsWell {node : Node mapWallet} {request : Request}
    (round : Nat) {tx : CTransaction} {nFeeRet fee : Int64}
    (balanced : Balanced node request tx fee)
    (grows : nFeeRet.toInt ≤ fee.toInt) :
    EndsWell node request round nFeeRet
      (checkFee node request round tx fee) := by
  unfold checkFee
  dsimp only
  by_cases large : sizeOf tx ≥ maxStandardTxSize
  · rw [if_pos large]
    exact .failed _
  rw [if_neg large]
  have small : sizeOf tx < maxStandardTxSize := UInt32.not_le.mp large
  by_cases free : canBeFree node round (sizeOf tx) = true
  · rw [if_pos free]
    exact .created balanced grows (Or.inl free)
  rw [if_neg free]
  split_ifs with tooLarge enough
  · exact .failed _
  · exact .created balanced grows (Or.inr (Int64.le_iff_toInt_le.mp enough))
  · rw [ge_iff_le, Int64.le_iff_toInt_le, not_le] at enough
    exact .again small (grows.trans_lt enough)

/-- A total that covers the outputs and the fee leaves the rest. -/
theorem toInt_rest {nValueIn nValue nFeeRet : Int64}
    (nonneg : 0 ≤ nValue.toInt) (feeNonneg : 0 ≤ nFeeRet.toInt)
    (enough : nValue.toInt + nFeeRet.toInt ≤ nValueIn.toInt) :
    (nValueIn - nValue - nFeeRet).toInt =
      nValueIn.toInt - nValue.toInt - nFeeRet.toInt := by
  have high := nValueIn.toInt_lt
  have partFits : Fits (nValueIn.toInt - nValue.toInt) :=
    ⟨by omega, by omega⟩
  rw [Fits.toInt_sub, partFits.toInt_sub]
  rw [partFits.toInt_sub]
  exact ⟨by omega, by omega⟩

/-- The signed transaction balances when the rest was distributed. -/
theorem balanced_of_distributed {node : Node mapWallet} {request : Request}
    {coins : List (WalletOutput mapWallet)} {vout : List CTxOut}
    {nValueIn nValue nFeeRet : Int64} {settled : List CTxOut × Int64}
    {scriptChange : CScript} {left : Int}
    (distinct : coins.Nodup)
    (sum : (coins.map fun coin => coin.nValue.toInt).sum = nValueIn.toInt)
    (total : nValue.toInt = requested everyScript request.vecSend)
    (paysOff : PaysOff request.vecSend vout)
    (distributed : Distributed (IsChangeScript node request)
      (nValueIn.toInt - nValue.toInt - nFeeRet.toInt) (vout, nFeeRet) settled
      scriptChange left) {txNew : CMutableTransaction}
    (signed : signInputs node coins 0
      (unsigned node request coins settled.1) = some txNew) :
    Balanced node request (CTransaction.ofMutable node.hash256 txNew)
      settled.2 := by
  obtain ⟨outputs, inputs⟩ := signInputs_keeps signed
  have vout' : (CTransaction.ofMutable node.hash256 txNew).vout =
      settled.1 := outputs
  refine ⟨⟨coins, distinct, ?_, ?_⟩, scriptChange, left, distributed.nonneg,
    distributed.script, fun script => ?_⟩
  · exact inputs.trans (by rw [unsigned, List.map_map]; rfl)
  · have all := distributed.paid everyScript
    have fee := distributed.fee
    rw [paysOff.paid everyScript, share, everyScript, if_pos rfl] at all
    rw [vout', all, sum]
    dsimp only at fee
    omega
  · have one := distributed.paid fun other => other = script
    rw [paysOff.paid] at one
    rw [vout', one, share]
    simp

theorem runRound_endsWell {node : Node mapWallet} {request : Request}
    (selects : SelectsEnough node)
    (amounts : ∀ s ∈ request.vecSend, 0 ≤ s.2.toInt)
    (splits : SplitsPositively request) {nValue nFeeRet : Int64}
    (total : nValue.toInt = requested everyScript request.vecSend)
    (nonneg : 0 ≤ nValue.toInt) (feeNonneg : 0 ≤ nFeeRet.toInt)
    (fits : Fits (nValue.toInt + nFeeRet.toInt)) (round : Nat) :
    EndsWell node request round nFeeRet
      (runRound node request nValue round nFeeRet) := by
  unfold runRound
  cases built : payeeOutputs node.policy request with
  | error strFailReason => exact .failed strFailReason
  | ok vout =>
      dsimp only
      cases selected : node.selectCoins round (nValue + nFeeRet) with
      | none => exact .failed _
      | some selection =>
          obtain ⟨coins, nValueIn⟩ := selection
          obtain ⟨distinct, sum, enough⟩ :=
            selects round _ coins nValueIn selected
          rw [fits.toInt_add] at enough
          have paysOff := paysOff_payeeOutputs amounts splits built
          have high := nValueIn.toInt_lt
          have change := toInt_rest nonneg feeNonneg enough
          have changeNonneg : 0 ≤ (nValueIn - nValue - nFeeRet).toInt := by
            omega
          have fitsOutputs : ∀ txout ∈ vout, Fits (txout.nValue.toInt +
              (nValueIn - nValue - nFeeRet).toInt) := by
            intro txout mem
            have low := paysOff.nonneg txout mem
            have le := paysOff.value_le mem
            exact ⟨by omega, by omega⟩
          have fitsFee : Fits (nFeeRet.toInt +
              (nValueIn - nValue - nFeeRet).toInt) :=
            ⟨by omega, by omega⟩
          obtain ⟨scriptChange, left, distributed⟩ :=
            settleChange_distributed node request round changeNonneg fitsFee
              fitsOutputs
          dsimp only
          generalize settleChange node request round
            (nValueIn - nValue - nFeeRet) vout nFeeRet = settled
            at distributed
          rw [change] at distributed
          cases signed : signInputs node coins 0
              (unsigned node request coins settled.1) with
          | none => exact .failed _
          | some txNew =>
              exact checkFee_endsWell round (balanced_of_distributed distinct
                sum total paysOff distributed signed) distributed.le

/-! ## The run -/

/-- The fees that the rounds begin with. -/
inductive Reached (node : Node mapWallet) (request : Request)
    (nValue : Int64) : Nat → Int64 → Prop
  | start : Reached node request nValue 0 (startFee request)
  | again {round : Nat} {nFeeRet next : Int64}
      (reached : Reached node request nValue round nFeeRet)
      (ran : runRound node request nValue round nFeeRet = .again next) :
      Reached node request nValue (round + 1) next

/-- No round asks for more than a `CAmount`. -/
def AmountsFit (node : Node mapWallet) (request : Request) : Prop :=
  ∀ nValue, sumAmounts request.vecSend 0 = some nValue →
    ∀ round nFeeRet, Reached node request nValue round nFeeRet →
      Fits (nValue.toInt + nFeeRet.toInt)

/-- What the minimum fee is multiplied with. -/
def feeFactor (request : Request) : Int :=
  if request.type = txFilePaymentRequest then 2 else 1

/-- The round is reached, and creates the transaction. -/
def CreatedIn (node : Node mapWallet) (request : Request) (round : Nat)
    (tx : CTransaction) (nFeeRet : Int64) : Prop :=
  ∃ nValue fee, sumAmounts request.vecSend 0 = some nValue ∧
    Reached node request nValue round fee ∧
    runRound node request nValue round fee = .created tx nFeeRet

/-- The fee of a transaction that is created, and not for free, is computed
without an overflow. -/
def FeesFit (node : Node mapWallet) (request : Request) : Prop :=
  ∀ round tx nFeeRet, CreatedIn node request round tx nFeeRet →
    canBeFree node round (sizeOf tx) = false →
      Fits ((getMinimumFee node.policy (sizeOf tx)).toInt *
          feeFactor request) ∧
        Fits (max request.feePay.toInt
            (sizeFee node request (sizeOf tx)).toInt +
          (fileFee node request).toInt)

/-- A round that goes on asks for the fee of the size that it came to. -/
theorem runRound_again {node : Node mapWallet} {request : Request}
    {nValue nFeeRet next : Int64} {round : Nat}
    (ran : runRound node request nValue round nFeeRet = .again next) :
    ∃ nBytes, nBytes < maxStandardTxSize ∧
      next = feeNeeded node request nBytes := by
  unfold runRound at ran
  cases built : payeeOutputs node.policy request with
  | error strFailReason =>
      rw [built] at ran
      cases ran
  | ok vout =>
      rw [built] at ran
      dsimp only at ran
      cases selected : node.selectCoins round (nValue + nFeeRet) with
      | none =>
          rw [selected] at ran
          cases ran
      | some selection =>
          rw [selected] at ran
          dsimp only at ran
          split at ran
          · cases ran
          · unfold checkFee at ran
            dsimp only at ran
            split_ifs at ran with large
            obtain ⟨⟩ := ran
            exact ⟨_, UInt32.not_le.mp large, rfl⟩

/-- It is enough that the total fits with every fee there may be. -/
theorem amountsFit_of_fees {node : Node mapWallet} {request : Request}
    (fits : ∀ nValue, sumAmounts request.vecSend 0 = some nValue →
      Fits (nValue.toInt + (startFee request).toInt) ∧
        ∀ nBytes, nBytes < maxStandardTxSize →
          Fits (nValue.toInt + (feeNeeded node request nBytes).toInt)) :
    AmountsFit node request := by
  intro nValue added round nFeeRet reached
  obtain ⟨start, later⟩ := fits nValue added
  cases reached with
  | start => exact start
  | again before ran =>
      obtain ⟨nBytes, small, rfl⟩ := runRound_again ran
      exact later nBytes small

theorem toInt_max (left right : Int64) :
    (max left right).toInt = max left.toInt right.toInt := by
  have definition : max left right = if left ≤ right then right else left :=
    rfl
  rw [definition]
  split_ifs with le
  · exact (max_eq_right (Int64.le_iff_toInt_le.mp le)).symm
  · rw [Int64.le_iff_toInt_le, not_le] at le
    exact (max_eq_left le.le).symm

theorem feeNeeded_ge {node : Node mapWallet} {request : Request}
    {nBytes : UInt32}
    (product : Fits ((getMinimumFee node.policy nBytes).toInt *
      feeFactor request))
    (sum : Fits (max request.feePay.toInt (sizeFee node request nBytes).toInt +
      (fileFee node request).toInt)) :
    (getMinimumFee node.policy nBytes).toInt * feeFactor request +
      (fileFee node request).toInt ≤ (feeNeeded node request nBytes).toInt := by
  have factor : (if request.type = txFilePaymentRequest then 2 else 1 :
      Int64).toInt = feeFactor request := by
    unfold feeFactor
    split_ifs
    · decide
    · decide
  have size : (sizeFee node request nBytes).toInt =
      (getMinimumFee node.policy nBytes).toInt * feeFactor request := by
    obtain ⟨low, high⟩ := product
    rw [sizeFee, Int64.toInt_mul, factor]
    exact Int.bmod_eq_of_le (by omega) (by omega)
  rw [← toInt_max] at sum
  rw [feeNeeded, sum.toInt_add, toInt_max, size]
  have le := le_max_right request.feePay.toInt
    ((getMinimumFee node.policy nBytes).toInt * feeFactor request)
  omega

/-- A created transaction: balanced, and with a fee that is enough, unless the
round that creates it may send it for free. -/
structure Correct (node : Node mapWallet) (request : Request)
    (tx : CTransaction) (nFeeRet : Int64) : Prop
    extends Balanced node request tx nFeeRet where
  feePay : request.nFeePay.toInt ≤ nFeeRet.toInt
  fee : ∃ round, CreatedIn node request round tx nFeeRet ∧
    (canBeFree node round (sizeOf tx) = false →
      (getMinimumFee node.policy (sizeOf tx)).toInt * feeFactor request +
        (fileFee node request).toInt ≤ nFeeRet.toInt)

theorem nFeePay_le_feePay (request : Request) :
    request.nFeePay.toInt ≤ request.feePay.toInt := by
  unfold Request.feePay
  split_ifs with raised
  · exact (Int64.lt_iff_toInt_lt.mp raised.2).le
  · exact le_rfl

theorem startFee_ge (request : Request) :
    0 ≤ (startFee request).toInt ∧
      request.feePay.toInt ≤ (startFee request).toInt := by
  have zero : (0 : Int64).toInt = 0 := rfl
  unfold startFee
  split_ifs with positive
  · rw [gt_iff_lt, Int64.lt_iff_toInt_lt, zero] at positive
    exact ⟨positive.le, le_rfl⟩
  · rw [gt_iff_lt, Int64.lt_iff_toInt_lt, zero, not_lt] at positive
    rw [zero]
    exact ⟨le_rfl, positive⟩

section

variable {node : Node mapWallet} {request : Request} {nValue : Int64}

/-- Every round that begins with a fee that was reached ends well; and the fee
only grows. -/
theorem Reached.endsWell (selects : SelectsEnough node)
    (amounts : ∀ s ∈ request.vecSend, 0 ≤ s.2.toInt)
    (splits : SplitsPositively request) (fits : AmountsFit node request)
    (added : sumAmounts request.vecSend 0 = some nValue) {round : Nat}
    {nFeeRet : Int64}
    (reached : Reached node request nValue round nFeeRet) :
    0 ≤ nFeeRet.toInt ∧ request.feePay.toInt ≤ nFeeRet.toInt ∧
      EndsWell node request round nFeeRet
        (runRound node request nValue round nFeeRet) := by
  obtain ⟨nonneg, total⟩ := toInt_sumAmounts amounts added
  have total : nValue.toInt = requested everyScript request.vecSend :=
    total.trans (zero_add _)
  have bounds : 0 ≤ nFeeRet.toInt ∧ request.feePay.toInt ≤ nFeeRet.toInt := by
    induction reached with
    | start => exact startFee_ge request
    | @again round nFeeRet next before ran hypothesis =>
        obtain ⟨low, feePay⟩ := hypothesis
        have ended := runRound_endsWell selects amounts splits total nonneg
          low (fits nValue added round nFeeRet before) round
        rw [ran] at ended
        cases ended with
        | again small grows => exact ⟨by omega, by omega⟩
  exact ⟨bounds.1, bounds.2, runRound_endsWell selects amounts splits total
    nonneg bounds.1 (fits nValue added round nFeeRet reached) round⟩

/-- What the rounds from a reached one on create is correct. -/
theorem runRounds_correct (selects : SelectsEnough node)
    (amounts : ∀ s ∈ request.vecSend, 0 ≤ s.2.toInt)
    (splits : SplitsPositively request) (fits : AmountsFit node request)
    (fees : FeesFit node request)
    (added : sumAmounts request.vecSend 0 = some nValue) {fuel round : Nat}
    {nFeeRet fee : Int64} {tx : CTransaction}
    (reached : Reached node request nValue round nFeeRet)
    (ran : runRounds node request nValue fuel round nFeeRet =
      some (.created tx fee)) :
    Correct node request tx fee := by
  induction fuel generalizing round nFeeRet with
  | zero => cases ran
  | succ fuel hypothesis =>
      obtain ⟨-, feePay, ended⟩ :=
        reached.endsWell selects amounts splits fits added
      have asked := nFeePay_le_feePay request
      rw [runRounds] at ran
      cases outcome : runRound node request nValue round nFeeRet with
      | failed strFailReason =>
          rw [outcome] at ran
          cases ran
      | again next =>
          rw [outcome] at ran
          exact hypothesis (reached.again outcome) ran
      | created wtxNew nFee =>
          rw [outcome] at ran ended
          obtain ⟨⟩ := ran
          cases ended with
          | created balanced grows enough =>
              have created : CreatedIn node request round tx fee :=
                ⟨nValue, nFeeRet, added, reached, outcome⟩
              refine ⟨balanced, by omega, round, created, ?_⟩
              intro notFree
              obtain ⟨product, sum⟩ := fees round tx fee created notFree
              obtain free | enough := enough
              · rw [notFree] at free
                cases free
              · exact (feeNeeded_ge product sum).trans enough

/-- Each round that goes on raises the fee, up to the bound. -/
theorem runRounds_isSome (selects : SelectsEnough node)
    (amounts : ∀ s ∈ request.vecSend, 0 ≤ s.2.toInt)
    (splits : SplitsPositively request) (fits : AmountsFit node request)
    (added : sumAmounts request.vecSend 0 = some nValue) {bound : Int}
    (bounded : ∀ nBytes, nBytes < maxStandardTxSize →
      (feeNeeded node request nBytes).toInt ≤ bound)
    {fuel round : Nat} {nFeeRet : Int64}
    (reached : Reached node request nValue round nFeeRet)
    (enough : (bound - nFeeRet.toInt).toNat < fuel) :
    (runRounds node request nValue fuel round nFeeRet).isSome = true := by
  induction fuel generalizing round nFeeRet with
  | zero => exact absurd enough (Nat.not_lt_zero _)
  | succ fuel hypothesis =>
      obtain ⟨-, -, ended⟩ :=
        reached.endsWell selects amounts splits fits added
      rw [runRounds]
      cases outcome : runRound node request nValue round nFeeRet with
      | failed strFailReason => rfl
      | created wtxNew nFee => rfl
      | again next =>
          rw [outcome] at ended
          cases ended with
          | @again nBytes small grows =>
              have below := bounded nBytes small
              exact hypothesis (reached.again outcome) (by omega)

/-- As long as no amount overflows, what is created is correct, and the loop
ends when the fee for a size is bounded. -/
theorem createTransaction_correct (selects : SelectsEnough node)
    (amounts : ∀ s ∈ request.vecSend, 0 ≤ s.2.toInt)
    (splits : SplitsPositively request) (fits : AmountsFit node request)
    (fees : FeesFit node request) :
    (∀ fuel tx nFeeRet, createTransaction node request fuel =
        some (.created tx nFeeRet) → Correct node request tx nFeeRet) ∧
      ∀ bound : Int, (∀ nBytes, nBytes < maxStandardTxSize →
          (feeNeeded node request nBytes).toInt ≤ bound) →
        ∀ fuel, (bound - (startFee request).toInt).toNat < fuel →
          (createTransaction node request fuel).isSome = true := by
  constructor
  · intro fuel tx nFeeRet created
    unfold createTransaction at created
    cases added : sumAmounts request.vecSend 0 with
    | none =>
        rw [added] at created
        cases created
    | some nValue =>
        rw [added] at created
        dsimp only at created
        split_ifs at created
        · cases created
        · exact runRounds_correct selects amounts splits fits fees added
            .start created
  · intro bound bounded fuel enough
    unfold createTransaction
    cases added : sumAmounts request.vecSend 0 with
    | none => rfl
    | some nValue =>
        dsimp only
        split_ifs
        · rfl
        · exact runRounds_isSome selects amounts splits fits added bounded
            .start enough

end

end

/-! ## A node without fees -/

/-- No fee is asked for, and one coin is all there is to select. -/
def freeNode : Node CoinSelection.oneCoinWallet where
  hash256 := fun _ => 7
  policy := ⟨⟨0⟩, false, ⟨0⟩, ⟨0⟩, ⟨0⟩, 0, false⟩
  txHash := fun _ => 5
  selectCoins := fun _ nTargetValue =>
    if nTargetValue ≤ 0 then
      some ([], 0)
    else if nTargetValue ≤ Chainstate.Coins.coin then
      some ([CoinSelection.oneCoin.out], Chainstate.Coins.coin)
    else
      none
  reservedKeyScript := fun _ => [1]
  getRandInt := fun _ _ => 0
  signSignature := fun _ _ _ => some []
  enoughPriority := fun _ => false
  requestFileSize := fun _ => none
  roundDays := id

/-- A payment of an amount to one script. -/
def payment (value nFeePay : Int64) : Request :=
  ⟨[([2], value)], txPayment, .plain txMetaEmpty, [], none, .allCoins, false,
    nFeePay⟩

theorem selectsEnough_freeNode : SelectsEnough freeNode := by
  intro round nTargetValue coins nValueIn selected
  unfold freeNode at selected
  dsimp only at selected
  split_ifs at selected with nothing oneCoin
  · obtain ⟨⟩ := selected
    exact ⟨List.nodup_nil, rfl, Int64.le_iff_toInt_le.mp nothing⟩
  · obtain ⟨⟩ := selected
    exact ⟨List.nodup_singleton _, by decide,
      Int64.le_iff_toInt_le.mp oneCoin⟩

theorem getFee_zero (nSize : UInt64) : CFeeRate.getFee ⟨0⟩ nSize = 0 := by
  have zero : Int64.toUInt64 0 = 0 := rfl
  rw [CFeeRate.getFee, zero, UInt64.zero_mul, UInt64.zero_div]
  rfl

theorem getMinimumFee_freeNode (nBytes : UInt32) :
    getMinimumFee freeNode.policy nBytes = 0 := by
  simp [getMinimumFee, freeNode, getFee_zero]

theorem feeNeeded_freeNode (value : Int64) (nBytes : UInt32) :
    feeNeeded freeNode (payment value 0) nBytes = 0 := by
  rw [feeNeeded, sizeFee, getMinimumFee_freeNode]
  rfl

theorem createTransaction_correct_payment :
    (∀ fuel tx nFeeRet, createTransaction freeNode (payment 70000000 0) fuel =
        some (.created tx nFeeRet) →
          Correct freeNode (payment 70000000 0) tx nFeeRet) ∧
      ∀ bound : Int, (∀ nBytes, nBytes < maxStandardTxSize →
          (feeNeeded freeNode (payment 70000000 0) nBytes).toInt ≤ bound) →
        ∀ fuel, (bound - (startFee (payment 70000000 0)).toInt).toNat < fuel →
          (createTransaction freeNode (payment 70000000 0) fuel).isSome =
            true := by
  apply createTransaction_correct selectsEnough_freeNode
  · decide
  · rintro _ ⟨⟩
  · apply amountsFit_of_fees
    rintro _ ⟨⟩
    refine ⟨by decide, fun nBytes _ => ?_⟩
    rw [feeNeeded_freeNode]
    decide
  · intro _ tx _ _ _
    rw [sizeFee, getMinimumFee_freeNode]
    decide

/-- The transaction that pays without an input. -/
def unfunded : CTransaction :=
  .ofMutable freeNode.hash256
    (unsigned freeNode (payment Int64.maxValue 1) []
      [⟨Int64.maxValue, [2]⟩])

/-- With the largest amount and the least fee the total overflows, nothing is
selected, and the payment is created all the same. -/
theorem createTransaction_overflow :
    SelectsEnough freeNode ∧
      (∀ s ∈ (payment Int64.maxValue 1).vecSend, 0 ≤ s.2.toInt) ∧
      SplitsPositively (payment Int64.maxValue 1) ∧
      createTransaction freeNode (payment Int64.maxValue 1) 1 =
        some (.created unfunded 1) ∧
      ¬Correct freeNode (payment Int64.maxValue 1) unfunded 1 := by
  refine ⟨selectsEnough_freeNode, by decide, ?_, by rfl, ?_⟩
  · rintro _ ⟨⟩
  · intro correct
    obtain ⟨coins, -, inputs, sum⟩ := correct.inputs
    have none : coins = [] := List.map_eq_nil_iff.mp inputs.symm
    rw [none] at sum
    revert sum
    decide

end PrivateDatagram.Wallet.CreateTransaction
