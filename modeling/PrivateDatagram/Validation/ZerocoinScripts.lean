import PrivateDatagram.Chainstate.Accumulators
import PrivateDatagram.Validation.CheckTransaction

/-!
# Reading zerocoin scripts

Zerocoin scripts are recognised by their first byte.  `IsZerocoinSpend` reads
that byte of the first input without asking whether there is one, and the coins
are cut out of a script from a fixed offset on without asking whether it is
that long.

The checks of `CheckTransaction` are repeated here with these reads in them: a
read out of range is a failure of its own, and an exception of the zerocoin
library leaves the function.
-/

namespace PrivateDatagram.Validation.ZerocoinScripts

open Library.ByteFormat Wire.Serialize Wire.Transaction Wire.Script
  Chainstate.Coins
open Chainstate.Accumulators
  (CBigNum amountToZerocoinDenomination)
open Consensus.ProofOfStake (CoinDenomination)
open Validation.CheckTransaction
  (Failure ZerocoinChecks evaluate isRefusedEmpty checkDuplicateInputs
    checkInputForm moneyRange maxMoneyOut maxZerocoinTxSize
    maxZerocoinSpendsPerTransaction rejectInvalid)

/-- `SCRIPT_OFFSET`. -/
def scriptOffset : Nat := 6

/-- `BIGNUM_SIZE`. -/
def bignumSize : Nat := 4

/-! ## The zerocoin library -/

structure PublicCoin where
  value : CBigNum
  denomination : CoinDenomination
deriving DecidableEq, Repr

/-- What is read from a `libzerocoin::CoinSpend`. -/
structure CoinSpend where
  denomination : CoinDenomination
  txOutHash : UInt256
  accumulatorChecksum : UInt32
  coinSerialNumber : CBigNum
deriving DecidableEq, Repr

structure Library where
  hash256 : Bytes → UInt256
  /-- `CBigNum::setvch`. -/
  setvch : Bytes → CBigNum
  validate : PublicCoin → Bool
  /-- The constructor from a stream; nothing when it throws. -/
  coinSpend : Bytes → Option CoinSpend
  readAccumulatorValue : UInt32 → Option CBigNum
  /-- `CoinSpend::Verify` with an accumulator of the value. -/
  verify : CoinSpend → CBigNum → Bool

/-- Why a function does not return true. -/
inductive Interruption where
  | failure (failure : Failure)
  | exception
deriving DecidableEq, Repr

def ofFailure {α : Type} : Except Failure α → Except Interruption α
  | .ok value => .ok value
  | .error failure => .error (.failure failure)

/-- `state.DoS(100, error(...))`. -/
def refuse {α : Type} : Except Interruption α :=
  .error (.failure (.dos 100 0 ""))

/-- The same when a function has returned false, whose `nDoS` stays. -/
def orRefuse {α : Type} : Except Interruption α → Except Interruption α
  | .error (.failure (.dos level _ _)) =>
      .error (.failure (.dos (level + 100) 0 ""))
  | result => result

/-! ## Mints -/

/-- The bytes from `begin() + offset` on. -/
def sliceFrom (offset : Nat) (script : CScript) :
    Except Interruption Bytes :=
  if script.length < offset then
    .error (.failure .outOfRange)
  else
    .ok (script.drop offset)

def txOutToPublicCoin (library : Library) (txout : CTxOut) :
    Except Interruption PublicCoin := do
  let vchZeroMint ← sliceFrom scriptOffset txout.scriptPubKey
  let denomination := amountToZerocoinDenomination txout.nValue
  if denomination = .error then
    refuse
  else
    .ok ⟨library.setvch vchZeroMint, denomination⟩

def checkZerocoinMint (library : Library) (txout : CTxOut) :
    Except Interruption Unit := do
  let pubCoin ← orRefuse (txOutToPublicCoin library txout)
  if !library.validate pubCoin then refuse else .ok ()

/-! ## Spends -/

def txInToZerocoinSpend (library : Library) (txin : CTxIn) :
    Except Interruption CoinSpend := do
  let dataTxIn ← sliceFrom bignumSize txin.scriptSig
  match library.coinSpend dataTxIn with
  | none => .error .exception
  | some spend => .ok spend

/-- The branch on `fVerifySignature`. -/
def checkSignature (library : Library) (fVerifySignature : Bool)
    (newSpend : CoinSpend) : Except Interruption Unit :=
  if !fVerifySignature then
    .ok ()
  else
    match library.readAccumulatorValue newSpend.accumulatorChecksum with
    | none => refuse
    | some bnAccumulatorValue =>
        if !library.verify newSpend bnAccumulatorValue then
          refuse
        else
          .ok ()

/-- The loop of `CheckZerocoinSpend`. -/
def checkSpends (library : Library) (fVerifySignature : Bool)
    (hashTxOut : UInt256) : List CTxIn → List CBigNum → Int64 → Bool →
      Except Interruption (Int64 × Bool)
  | [], _, nTotalRedeemed, fValidated => .ok (nTotalRedeemed, fValidated)
  | txin :: rest, serials, nTotalRedeemed, fValidated =>
      if !isZerocoinSpend txin.scriptSig then
        checkSpends library fVerifySignature hashTxOut rest serials
          nTotalRedeemed fValidated
      else do
        let newSpend ← txInToZerocoinSpend library txin
        if newSpend.denomination = .error then
          refuse
        else if newSpend.denomination.toInt64 ≠
            txin.nSequence.toUInt64.toInt64 then
          refuse
        else if newSpend.txOutHash ≠ hashTxOut then
          refuse
        else do
          checkSignature library fVerifySignature newSpend
          if newSpend.coinSerialNumber ∈ serials then
            refuse
          else
            checkSpends library fVerifySignature hashTxOut rest
              (newSpend.coinSerialNumber :: serials)
              (nTotalRedeemed + newSpend.denomination.toInt64 * coin) true

/-- `GetValueOut`, which throws. -/
def getValueOut : List CTxOut → Int64 → Except Interruption Int64
  | [], nValueOut => .ok nValueOut
  | txout :: rest, nValueOut =>
      if txout.nValue < 0 then
        .error .exception
      else if nValueOut + txout.nValue < nValueOut then
        .error .exception
      else
        getValueOut rest (nValueOut + txout.nValue)

/-- `nTotalRedeemed < tx.GetValueOut()`, except for a coinstake. -/
def spendsTooMuch (tx : CTransaction) (nTotalRedeemed : Int64) :
    Except Interruption Bool :=
  if isCoinStake tx then
    .ok false
  else do
    let nValueOut ← getValueOut tx.vout 0
    .ok (nTotalRedeemed < nValueOut)

def checkZerocoinSpend (library : Library) (fVerifySignature : Bool)
    (tx : CTransaction) : Except Interruption Unit :=
  let outs := tx.vout.countP fun out => !isZerocoinMint out.scriptPubKey
  if tx.vout.length > 2 ∧ outs > 2 ∧ isCoinStake tx = false then
    refuse
  else do
    let hashTxOut := CMutableTransaction.getHash library.hash256
      { CMutableTransaction.fresh with vout := tx.vout }
    let redeemed ←
      checkSpends library fVerifySignature hashTxOut tx.vin [] 0 false
    let tooMuch ← spendsTooMuch tx redeemed.1
    if tooMuch then
      refuse
    else if !redeemed.2 then
      -- `return fValidated`, which gives no score
      .error (.failure (.dos 0 0 ""))
    else
      .ok ()

/-! ## Transactions -/

/-- `if (fZerocoinActive && txout.IsZerocoinMint())`. -/
def checkMint (library : Library) (fZerocoinActive : Bool)
    (txout : CTxOut) : Except Interruption Unit :=
  if fZerocoinActive && isZerocoinMint txout.scriptPubKey then
    orRefuse (checkZerocoinMint library txout)
  else
    .ok ()

/-- The loop over the outputs. -/
def checkOutputs (library : Library) (fZerocoinActive : Bool)
    (tx : CTransaction) : List CTxOut → Int64 → Nat →
      Except Interruption Nat
  | [], _, nZCSpendCount => .ok nZCSpendCount
  | txout :: rest, nValueOut, nZCSpendCount => do
      let refused ← ofFailure (isRefusedEmpty tx txout)
      if refused then
        refuse
      else if txout.nValue < 0 then
        .error (.failure (.dos 100 rejectInvalid "bad-txns-vout-negative"))
      else if txout.nValue > maxMoneyOut then
        .error (.failure (.dos 100 rejectInvalid "bad-txns-vout-toolarge"))
      else if !moneyRange (nValueOut + txout.nValue) then
        .error (.failure
          (.dos 100 rejectInvalid "bad-txns-txouttotal-toolarge"))
      else do
        checkMint library fZerocoinActive txout
        checkOutputs library fZerocoinActive tx rest
          (nValueOut + txout.nValue)
          (if fZerocoinActive && isZerocoinSpend txout.scriptPubKey then
            nZCSpendCount + 1
          else
            nZCSpendCount)

/-- The checks behind `if (fZerocoinActive)`. -/
def checkZerocoins (library : Library)
    (fVerifySignature fZerocoinActive : Bool) (tx : CTransaction)
    (nZCSpendCount : Nat) : Except Interruption Unit :=
  if !fZerocoinActive then
    .ok ()
  else if nZCSpendCount > maxZerocoinSpendsPerTransaction then
    refuse
  else do
    let isSpend ← ofFailure (evaluate (isZerocoinSpendTx tx))
    if isSpend then
      if !tx.vin.all fun txin => isZerocoinSpend txin.scriptSig then
        refuse
      else
        orRefuse (checkZerocoinSpend library fVerifySignature tx)
    else
      .ok ()

/-- `CheckTransaction`, with its reads of zerocoin scripts. -/
def checkTransaction (library : Library)
    (fVerifySignature fZerocoinActive : Bool) (tx : CTransaction) :
    Except Interruption Unit :=
  if tx.vin.isEmpty then
    .error (.failure (.dos 10 rejectInvalid "bad-txns-vin-empty"))
  else if tx.vout.isEmpty then
    .error (.failure (.dos 10 rejectInvalid "bad-txns-vout-empty"))
  else if tx.serialize.length > maxZerocoinTxSize then
    .error (.failure (.dos 100 rejectInvalid "bad-txns-oversize"))
  else do
    let nZCSpendCount ←
      checkOutputs library fZerocoinActive tx tx.vout 0 0
    checkZerocoins library fVerifySignature fZerocoinActive tx nZCSpendCount
    ofFailure (checkDuplicateInputs tx.vin [])
    ofFailure (checkInputForm fZerocoinActive tx)

/-! ## Reads in range -/

/-- The function reads no script out of range. -/
def InRange {α : Type} (result : Except Interruption α) : Prop :=
  result ≠ .error (.failure .outOfRange)

@[simp]
theorem inRange_ok {α : Type} (value : α) :
    InRange (.ok value : Except Interruption α) := by
  rintro ⟨⟩

@[simp]
theorem inRange_refuse {α : Type} :
    InRange (refuse : Except Interruption α) := by
  rintro ⟨⟩

@[simp]
theorem inRange_exception {α : Type} :
    InRange (.error .exception : Except Interruption α) := by
  rintro ⟨⟩

@[simp]
theorem inRange_dos {α : Type} (level : Nat) (chRejectCode : UInt8)
    (strRejectReason : String) :
    InRange (.error (.failure (.dos level chRejectCode strRejectReason)) :
      Except Interruption α) := by
  rintro ⟨⟩

theorem inRange_bind {α β : Type} {first : Except Interruption α}
    {next : α → Except Interruption β} (start : InRange first)
    (rest : ∀ value, first = .ok value → InRange (next value)) :
    InRange (first >>= next) := by
  cases first with
  | ok value => exact rest value rfl
  | error interruption =>
      rintro ⟨⟩
      exact start rfl

theorem inRange_ite {α : Type} {condition : Prop} [Decidable condition]
    {first second : Except Interruption α}
    (yes : condition → InRange first) (no : ¬condition → InRange second) :
    InRange (if condition then first else second) := by
  split_ifs with holds
  · exact yes holds
  · exact no holds

@[simp]
theorem inRange_orRefuse {α : Type} {result : Except Interruption α} :
    InRange (orRefuse result) ↔ InRange result := by
  unfold orRefuse
  split
  · exact iff_of_true (inRange_dos _ _ _) (inRange_dos _ _ _)
  · rfl

@[simp]
theorem orRefuse_eq_ok {α : Type} {result : Except Interruption α}
    {value : α} : orRefuse result = .ok value ↔ result = .ok value := by
  unfold orRefuse
  split <;> simp

theorem bind_eq_ok {α β : Type} {first : Except Interruption α}
    {next : α → Except Interruption β} {result : β} :
    (first >>= next) = .ok result ↔
      ∃ value, first = .ok value ∧ next value = .ok result := by
  cases first with
  | error interruption =>
      refine iff_of_false (fun impossible => by cases impossible) ?_
      rintro ⟨_, impossible, _⟩
      cases impossible
  | ok value =>
      constructor
      · intro ran
        exact ⟨value, rfl, ran⟩
      · rintro ⟨_, ⟨⟩, ran⟩
        exact ran

theorem inRange_sliceFrom_iff (offset : Nat) (script : CScript) :
    InRange (sliceFrom offset script) ↔ offset ≤ script.length := by
  unfold sliceFrom
  split_ifs with short
  · exact iff_of_false (fun inRange => inRange rfl) (not_le.mpr short)
  · exact iff_of_true (inRange_ok _) (not_lt.mp short)

theorem inRange_txOutToPublicCoin_iff (library : Library) (txout : CTxOut) :
    InRange (txOutToPublicCoin library txout) ↔
      scriptOffset ≤ txout.scriptPubKey.length := by
  rw [← inRange_sliceFrom_iff]
  unfold txOutToPublicCoin
  constructor
  · intro inRange outside
    rw [outside] at inRange
    exact inRange rfl
  · intro inRange
    refine inRange_bind inRange fun _ _ => ?_
    dsimp only
    split_ifs <;> simp

theorem inRange_txInToZerocoinSpend_iff (library : Library) (txin : CTxIn) :
    InRange (txInToZerocoinSpend library txin) ↔
      bignumSize ≤ txin.scriptSig.length := by
  rw [← inRange_sliceFrom_iff]
  unfold txInToZerocoinSpend
  constructor
  · intro inRange outside
    rw [outside] at inRange
    exact inRange rfl
  · intro inRange
    refine inRange_bind inRange fun _ _ => ?_
    split <;> simp

/-! ## Scripts that are long enough -/

/-- The first input has a script where its first byte is read, and zerocoin
scripts reach to where the coin begins. -/
structure LongEnough (tx : CTransaction) : Prop where
  first : ∀ txin, tx.vin.head? = some txin → txin.prevout.hash = 0 →
    txin.scriptSig ≠ []
  mints : ∀ txout ∈ tx.vout, isZerocoinMint txout.scriptPubKey = true →
    scriptOffset ≤ txout.scriptPubKey.length
  spends : ∀ txin ∈ tx.vin, isZerocoinSpend txin.scriptSig = true →
    bignumSize ≤ txin.scriptSig.length

theorem isZerocoinSpendTx_ne_none_iff (tx : CTransaction) :
    isZerocoinSpendTx tx ≠ none ↔
      ∀ txin, tx.vin.head? = some txin → txin.prevout.hash = 0 →
        txin.scriptSig ≠ [] := by
  unfold isZerocoinSpendTx
  cases tx.vin with
  | nil => simp
  | cons txin rest =>
      simp only [List.head?_cons, Option.some.injEq, forall_eq']
      by_cases null : txin.prevout.hash = 0
      · rw [if_neg (not_not.mpr null), ne_eq, Option.map_eq_none_iff,
          List.head?_eq_none_iff]
        exact ⟨fun known _ => known, fun known => known null⟩
      · rw [if_pos null]
        exact iff_of_true (by rintro ⟨⟩) (absurd · null)

theorem isCoinBase_ne_none {tx : CTransaction}
    (known : isZerocoinSpendTx tx ≠ none) : isCoinBase tx ≠ none := by
  unfold isCoinBase
  split
  · split_ifs
    · simpa [containsZerocoins] using known
    · simp
  · simp

theorem inRange_evaluate {value : Option Bool} (known : value ≠ none) :
    InRange (ofFailure (evaluate value)) := by
  cases value with
  | none => exact absurd rfl known
  | some verdict => exact inRange_ok verdict

theorem inRange_isRefusedEmpty {tx : CTransaction}
    (known : isCoinBase tx ≠ none) (txout : CTxOut) :
    InRange (ofFailure (isRefusedEmpty tx txout)) := by
  unfold isRefusedEmpty
  split_ifs
  · apply inRange_evaluate
    simpa [CheckTransaction.isUserTransaction] using known
  · exact inRange_ok false

theorem inRange_checkZerocoinMint {library : Library} {txout : CTxOut}
    (long : scriptOffset ≤ txout.scriptPubKey.length) :
    InRange (checkZerocoinMint library txout) := by
  refine inRange_bind (inRange_orRefuse.mpr
    ((inRange_txOutToPublicCoin_iff library txout).mpr long)) fun _ _ => ?_
  split_ifs <;> simp

theorem inRange_checkMint {library : Library} {fZerocoinActive : Bool}
    {txout : CTxOut}
    (long : isZerocoinMint txout.scriptPubKey = true →
      scriptOffset ≤ txout.scriptPubKey.length) :
    InRange (checkMint library fZerocoinActive txout) := by
  unfold checkMint
  split_ifs with mint
  · rw [Bool.and_eq_true] at mint
    exact inRange_orRefuse.mpr (inRange_checkZerocoinMint (long mint.2))
  · exact inRange_ok ()

theorem inRange_checkOutputs {library : Library} {fZerocoinActive : Bool}
    {tx : CTransaction} (known : isCoinBase tx ≠ none)
    {vout : List CTxOut} (mints : ∀ txout ∈ vout,
      isZerocoinMint txout.scriptPubKey = true →
        scriptOffset ≤ txout.scriptPubKey.length)
    (nValueOut : Int64) (nZCSpendCount : Nat) :
    InRange (checkOutputs library fZerocoinActive tx vout nValueOut
      nZCSpendCount) := by
  induction vout generalizing nValueOut nZCSpendCount with
  | nil => exact inRange_ok nZCSpendCount
  | cons txout rest hypothesis =>
      rw [List.forall_mem_cons] at mints
      rw [checkOutputs]
      refine inRange_bind (inRange_isRefusedEmpty known txout) fun _ _ => ?_
      refine inRange_ite (fun _ => inRange_refuse) fun _ => ?_
      refine inRange_ite (fun _ => inRange_dos _ _ _) fun _ => ?_
      refine inRange_ite (fun _ => inRange_dos _ _ _) fun _ => ?_
      refine inRange_ite (fun _ => inRange_dos _ _ _) fun _ => ?_
      exact inRange_bind (inRange_checkMint mints.1) fun _ _ =>
        hypothesis mints.2 _ _

theorem inRange_checkSignature (library : Library)
    (fVerifySignature : Bool) (newSpend : CoinSpend) :
    InRange (checkSignature library fVerifySignature newSpend) := by
  refine inRange_ite (fun _ => inRange_ok ()) fun _ => ?_
  split
  · exact inRange_refuse
  · exact inRange_ite (fun _ => inRange_refuse) fun _ => inRange_ok ()

theorem inRange_checkSpends {library : Library} {fVerifySignature : Bool}
    {hashTxOut : UInt256} {vin : List CTxIn} (spends : ∀ txin ∈ vin,
      isZerocoinSpend txin.scriptSig = true →
        bignumSize ≤ txin.scriptSig.length)
    (serials : List CBigNum) (nTotalRedeemed : Int64) (fValidated : Bool) :
    InRange (checkSpends library fVerifySignature hashTxOut vin serials
      nTotalRedeemed fValidated) := by
  induction vin generalizing serials nTotalRedeemed fValidated with
  | nil => exact inRange_ok _
  | cons txin rest hypothesis =>
      rw [List.forall_mem_cons] at spends
      rw [checkSpends]
      refine inRange_ite (fun _ => hypothesis spends.2 _ _ _) fun spend => ?_
      rw [Bool.not_eq_true', Bool.not_eq_false] at spend
      refine inRange_bind ((inRange_txInToZerocoinSpend_iff library txin).mpr
        (spends.1 spend)) fun newSpend _ => ?_
      refine inRange_ite (fun _ => inRange_refuse) fun _ => ?_
      refine inRange_ite (fun _ => inRange_refuse) fun _ => ?_
      refine inRange_ite (fun _ => inRange_refuse) fun _ => ?_
      refine inRange_bind (inRange_checkSignature library fVerifySignature
        newSpend) fun _ _ => ?_
      exact inRange_ite (fun _ => inRange_refuse) fun _ =>
        hypothesis spends.2 _ _ _

theorem inRange_getValueOut (vout : List CTxOut) (nValueOut : Int64) :
    InRange (getValueOut vout nValueOut) := by
  induction vout generalizing nValueOut with
  | nil => exact inRange_ok nValueOut
  | cons txout rest hypothesis =>
      refine inRange_ite (fun _ => inRange_exception) fun _ => ?_
      exact inRange_ite (fun _ => inRange_exception) fun _ => hypothesis _

theorem inRange_checkZerocoinSpend {library : Library}
    {fVerifySignature : Bool} {tx : CTransaction} (spends : ∀ txin ∈ tx.vin,
      isZerocoinSpend txin.scriptSig = true →
        bignumSize ≤ txin.scriptSig.length) :
    InRange (checkZerocoinSpend library fVerifySignature tx) := by
  refine inRange_ite (fun _ => inRange_refuse) fun _ => ?_
  refine inRange_bind (inRange_checkSpends spends _ _ _) fun _ _ => ?_
  refine inRange_bind ?_ fun _ _ => ?_
  · refine inRange_ite (fun _ => inRange_ok false) fun _ => ?_
    exact inRange_bind (inRange_getValueOut tx.vout 0) fun _ _ =>
      inRange_ok _
  · refine inRange_ite (fun _ => inRange_refuse) fun _ => ?_
    exact inRange_ite (fun _ => inRange_dos _ _ _) fun _ => inRange_ok ()

theorem inRange_checkZerocoins {library : Library}
    {fVerifySignature fZerocoinActive : Bool} {tx : CTransaction}
    (known : isZerocoinSpendTx tx ≠ none) (spends : ∀ txin ∈ tx.vin,
      isZerocoinSpend txin.scriptSig = true →
        bignumSize ≤ txin.scriptSig.length) (nZCSpendCount : Nat) :
    InRange (checkZerocoins library fVerifySignature fZerocoinActive tx
      nZCSpendCount) := by
  refine inRange_ite (fun _ => inRange_ok ()) fun _ => ?_
  refine inRange_ite (fun _ => inRange_refuse) fun _ => ?_
  refine inRange_bind (inRange_evaluate known) fun _ _ => ?_
  refine inRange_ite (fun _ => ?_) fun _ => inRange_ok ()
  exact inRange_ite (fun _ => inRange_refuse) fun _ =>
    inRange_orRefuse.mpr (inRange_checkZerocoinSpend spends)

theorem inRange_checkDuplicateInputs (vin : List CTxIn)
    (vInOutPoints : List COutPoint) :
    InRange (ofFailure (checkDuplicateInputs vin vInOutPoints)) := by
  induction vin generalizing vInOutPoints with
  | nil => exact inRange_ok ()
  | cons txin rest hypothesis =>
      rw [checkDuplicateInputs]
      split_ifs
      · exact inRange_dos _ _ _
      · exact hypothesis _
      · exact hypothesis _

theorem inRange_checkInputForm {fZerocoinActive : Bool}
    {tx : CTransaction} (known : isCoinBase tx ≠ none)
    (spendKnown : isZerocoinSpendTx tx ≠ none) :
    InRange (ofFailure (checkInputForm fZerocoinActive tx)) := by
  obtain ⟨fCoinBase, coinBase⟩ := Option.ne_none_iff_exists'.mp known
  obtain ⟨fSpend, spend⟩ := Option.ne_none_iff_exists'.mp spendKnown
  obtain ⟨isSpend, asked⟩ : ∃ isSpend,
      CheckTransaction.isActiveSpend fZerocoinActive tx = .ok isSpend := by
    unfold CheckTransaction.isActiveSpend
    split_ifs
    · exact ⟨fSpend, CheckTransaction.evaluate_eq_ok.mpr spend⟩
    · exact ⟨false, rfl⟩
  unfold checkInputForm
  rw [CheckTransaction.evaluate_eq_ok.mpr coinBase, asked]
  simp only [bind, Except.bind]
  split_ifs <;> simp [ofFailure]

/-- No script is read out of range when all of them are long enough. -/
theorem inRange_checkTransaction {tx : CTransaction} (long : LongEnough tx)
    (library : Library) (fVerifySignature fZerocoinActive : Bool) :
    InRange (checkTransaction library fVerifySignature fZerocoinActive tx) := by
  have spendKnown := (isZerocoinSpendTx_ne_none_iff tx).mpr long.first
  have known := isCoinBase_ne_none spendKnown
  refine inRange_ite (fun _ => inRange_dos _ _ _) fun _ => ?_
  refine inRange_ite (fun _ => inRange_dos _ _ _) fun _ => ?_
  refine inRange_ite (fun _ => inRange_dos _ _ _) fun _ => ?_
  refine inRange_bind (inRange_checkOutputs known long.mints 0 0)
    fun nZCSpendCount _ => ?_
  refine inRange_bind
    (inRange_checkZerocoins spendKnown long.spends nZCSpendCount) fun _ _ => ?_
  refine inRange_bind (inRange_checkDuplicateInputs tx.vin []) fun _ _ => ?_
  exact inRange_checkInputForm known spendKnown

/-! ## What is accepted is well formed -/

theorem checkOutputs_ok_mints {library : Library} {tx : CTransaction}
    {vout : List CTxOut} {nValueOut : Int64} {nZCSpendCount result : Nat}
    (checked : checkOutputs library true tx vout nValueOut nZCSpendCount =
      .ok result) : ∀ txout ∈ vout,
        isZerocoinMint txout.scriptPubKey = true →
          checkZerocoinMint library txout = .ok () := by
  induction vout generalizing nValueOut nZCSpendCount with
  | nil => exact fun _ absent => absurd absent List.not_mem_nil
  | cons txout rest hypothesis =>
      rw [checkOutputs, bind_eq_ok] at checked
      obtain ⟨refused, _, checked⟩ := checked
      split_ifs at checked
      all_goals first | cases checked | skip
      all_goals
        obtain ⟨⟨⟩, mint, checked⟩ := bind_eq_ok.mp checked
        refine List.forall_mem_cons.mpr ⟨fun isMint => ?_, hypothesis checked⟩
        rw [checkMint, isMint] at mint
        exact orRefuse_eq_ok.mp mint

theorem checkSpends_ok_spends {library : Library} {fVerifySignature : Bool}
    {hashTxOut : UInt256} {vin : List CTxIn} {serials : List CBigNum}
    {nTotalRedeemed : Int64} {fValidated : Bool} {result : Int64 × Bool}
    (checked : checkSpends library fVerifySignature hashTxOut vin serials
      nTotalRedeemed fValidated = .ok result) :
    ∀ txin ∈ vin, isZerocoinSpend txin.scriptSig = true →
      ∃ newSpend, txInToZerocoinSpend library txin = .ok newSpend ∧
        newSpend.denomination ≠ .error := by
  induction vin generalizing serials nTotalRedeemed fValidated with
  | nil => exact fun _ absent => absurd absent List.not_mem_nil
  | cons txin rest hypothesis =>
      rw [checkSpends] at checked
      rw [List.forall_mem_cons]
      split_ifs at checked with other
      · refine ⟨fun spend => ?_, hypothesis checked⟩
        rw [spend] at other
        cases other
      · obtain ⟨newSpend, read, checked⟩ := bind_eq_ok.mp checked
        split_ifs at checked with unknown
        all_goals first | cases checked | skip
        all_goals obtain ⟨⟨⟩, _, checked⟩ := bind_eq_ok.mp checked
        · cases checked
        · exact ⟨fun _ => ⟨newSpend, read, unknown⟩, hypothesis checked⟩

/-- `CheckTransaction` accepts only well-formed zerocoins: a mint holds a
valid coin, and every input of a zerocoin spend reads as a spend. -/
structure WellFormed (library : Library) (tx : CTransaction) : Prop where
  mints : ∀ txout ∈ tx.vout, isZerocoinMint txout.scriptPubKey = true →
    ∃ pubCoin, txOutToPublicCoin library txout = .ok pubCoin ∧
      library.validate pubCoin = true
  spends : isZerocoinSpendTx tx = some true → ∀ txin ∈ tx.vin,
    ∃ newSpend, txInToZerocoinSpend library txin = .ok newSpend ∧
      newSpend.denomination ≠ .error

theorem checkZerocoinMint_eq_ok {library : Library} {txout : CTxOut}
    (checked : checkZerocoinMint library txout = .ok ()) :
    ∃ pubCoin, txOutToPublicCoin library txout = .ok pubCoin ∧
      library.validate pubCoin = true := by
  obtain ⟨pubCoin, read, checked⟩ := bind_eq_ok.mp checked
  refine ⟨pubCoin, orRefuse_eq_ok.mp read, ?_⟩
  split_ifs at checked with invalid
  · cases checked
  · simpa using invalid

theorem checkZerocoins_eq_ok {library : Library} {fVerifySignature : Bool}
    {tx : CTransaction} {nZCSpendCount : Nat}
    (checked : checkZerocoins library fVerifySignature true tx
      nZCSpendCount = .ok ())
    (spend : isZerocoinSpendTx tx = some true) :
    (∀ txin ∈ tx.vin, isZerocoinSpend txin.scriptSig = true) ∧
      checkZerocoinSpend library fVerifySignature tx = .ok () := by
  unfold checkZerocoins at checked
  rw [if_neg (by simp)] at checked
  by_cases many : nZCSpendCount > maxZerocoinSpendsPerTransaction
  · rw [if_pos many] at checked
    cases checked
  rw [if_neg many, spend] at checked
  obtain ⟨isSpend, ⟨⟩, checked⟩ := bind_eq_ok.mp checked
  rw [if_pos rfl] at checked
  split_ifs at checked with mixed
  · cases checked
  · rw [Bool.not_eq_true', Bool.not_eq_false, List.all_eq_true] at mixed
    exact ⟨mixed, orRefuse_eq_ok.mp checked⟩

theorem wellFormed_of_checkTransaction {library : Library}
    {fVerifySignature : Bool} {tx : CTransaction}
    (accepted : checkTransaction library fVerifySignature true tx = .ok ()) :
    WellFormed library tx := by
  unfold checkTransaction at accepted
  split_ifs at accepted
  obtain ⟨nZCSpendCount, outputs, accepted⟩ := bind_eq_ok.mp accepted
  obtain ⟨⟨⟩, zerocoins, -⟩ := bind_eq_ok.mp accepted
  constructor
  · intro txout mem mint
    exact checkZerocoinMint_eq_ok
      (checkOutputs_ok_mints outputs txout mem mint)
  · intro spend txin mem
    obtain ⟨looks, zerocoins⟩ := checkZerocoins_eq_ok zerocoins spend
    unfold checkZerocoinSpend at zerocoins
    dsimp only at zerocoins
    split_ifs at zerocoins
    all_goals first | cases zerocoins | skip
    obtain ⟨redeemed, checked, -⟩ := bind_eq_ok.mp zerocoins
    exact checkSpends_ok_spends checked txin mem (looks txin mem)

/-! ## Zerocoin scripts are read safely -/

/-- No function reads a script beyond its end, and what is malformed is not
accepted. -/
structure ReadSafely (library : Library) (tx : CTransaction) : Prop where
  spendTx : isZerocoinSpendTx tx ≠ none
  coinBase : isCoinBase tx ≠ none
  mints : ∀ txout ∈ tx.vout, isZerocoinMint txout.scriptPubKey = true →
    InRange (txOutToPublicCoin library txout)
  spends : ∀ txin ∈ tx.vin, isZerocoinSpend txin.scriptSig = true →
    InRange (txInToZerocoinSpend library txin)
  checked : ∀ fVerifySignature fZerocoinActive,
    InRange (checkTransaction library fVerifySignature fZerocoinActive tx)
  rejected : ∀ fVerifySignature, ¬WellFormed library tx →
    checkTransaction library fVerifySignature true tx ≠ .ok ()

/-- Zerocoin scripts are read safely exactly when they are long enough. -/
theorem readSafely_iff (library : Library) (tx : CTransaction) :
    ReadSafely library tx ↔ LongEnough tx := by
  constructor
  · intro safe
    refine ⟨(isZerocoinSpendTx_ne_none_iff tx).mp safe.spendTx,
      fun txout mem mint => ?_, fun txin mem spend => ?_⟩
    · exact (inRange_txOutToPublicCoin_iff library txout).mp
        (safe.mints txout mem mint)
    · exact (inRange_txInToZerocoinSpend_iff library txin).mp
        (safe.spends txin mem spend)
  · intro long
    have known := (isZerocoinSpendTx_ne_none_iff tx).mpr long.first
    constructor
    · exact known
    · exact isCoinBase_ne_none known
    · intro txout mem mint
      exact (inRange_txOutToPublicCoin_iff library txout).mpr
        (long.mints txout mem mint)
    · intro txin mem spend
      exact (inRange_txInToZerocoinSpend_iff library txin).mpr
        (long.spends txin mem spend)
    · exact inRange_checkTransaction long library
    · intro fVerifySignature malformed accepted
      exact malformed (wellFormed_of_checkTransaction accepted)

/-- A transaction with a mint that is only its first byte. -/
def truncatedMint (library : Library) : CTransaction :=
  .ofMutable library.hash256
    { CMutableTransaction.fresh with
      vin := [⟨⟨1, 0⟩, [], 0⟩]
      vout := [⟨coin, [opZerocoinMint]⟩] }

/-- Whatever the library does, the coin of a truncated mint is cut out beyond
the end of its script. -/
theorem checkTransaction_truncatedMint_eq (library : Library)
    (fVerifySignature : Bool) :
    checkTransaction library fVerifySignature true (truncatedMint library) =
      .error (.failure .outOfRange) := by
  rfl

/-- A library that accepts no coin. -/
def rejectingLibrary : Library where
  hash256 := fun _ => 7
  setvch := fun _ => 0
  validate := fun _ => false
  coinSpend := fun _ => none
  readAccumulatorValue := fun _ => none
  verify := fun _ _ => false

theorem checkTransaction_truncatedMint :
    ¬InRange (checkTransaction rejectingLibrary true true
        (truncatedMint rejectingLibrary)) ∧
      ¬ReadSafely rejectingLibrary (truncatedMint rejectingLibrary) := by
  have outside := checkTransaction_truncatedMint_eq rejectingLibrary true
  refine ⟨fun inRange => inRange outside, fun safe => ?_⟩
  exact safe.checked true true outside

end PrivateDatagram.Validation.ZerocoinScripts
