import PrivateDatagram.Chainstate.MoneySupply
import PrivateDatagram.Library.PooledRanks
import PrivateDatagram.Library.StoppingRuns
import PrivateDatagram.Mempool.TxMemPool
import PrivateDatagram.Wallet.CreateTransaction

/-!
# Fee estimates

`CMinerPolicyEstimator` keeps fees and priorities of confirmed transactions in
buckets by the number of blocks that they took.  An estimate is read from a
sorted copy of all the samples, which is made when it is first asked for and
dropped when a block is seen.

Fees and priorities go the same way, so the functions for them are one with
the kind of the samples as a parameter.  A priority is a floating point
number, about whose order nothing is used.  Texts for the log are left out,
but not the estimates that are made for them.
-/

namespace PrivateDatagram.Mempool.FeeEstimates

open Chainstate.MoneySupply (getValueOut)
open Library.ByteFormat (ok_bind)
open Library.PooledRanks Library.StoppingRuns
open Wallet.CreateTransaction (CFeeRate)
open Wire.Transaction (txPayment txMetaEmpty)

/-- An access out of range, a failed assertion, or the exception of
`GetValueOut`. -/
inductive Failure where
  | outOfRange
  | assertion
  | valueOut
deriving DecidableEq, Repr

/-! ## Fee rates -/

/-- `CFeeRate(nFeePaid, nSize)`; the size turns the product into an unsigned
one. -/
def feeRateOf (nFeePaid : Int64) (nSize : UInt64) : CFeeRate :=
  if nSize > 0 then ⟨((nFeePaid * 1000).toUInt64 / nSize).toInt64⟩ else ⟨0⟩

/-- `a > b`. -/
def greaterRate (a b : CFeeRate) : Bool :=
  a.nSatoshisPerK > b.nSatoshisPerK

/-- `GetFeePerK`. -/
def getFeePerK (rate : CFeeRate) : Int64 :=
  rate.getFee 1000

/-! ## Entries -/

structure CTxMemPoolEntry extends TxMemPool.CTxMemPoolEntry where
  nFee : Int64
  nModSize : UInt64
  dPriority : Float
  nHeight : UInt32

/-- `GetPriority`; `GetValueOut` may throw. -/
def getPriority (entry : CTxMemPoolEntry) (currentHeight : UInt32) :
    Except Failure Float :=
  match getValueOut entry.tx with
  | none => .error .valueOut
  | some nValueOut =>
      let nValueIn := nValueOut + entry.nFee
      let deltaPriority :=
        Float.ofNat (currentHeight - entry.nHeight).toNat *
          Float.ofInt nValueIn.toInt / Float.ofNat entry.nModSize.toNat
      .ok (entry.dPriority + deltaPriority)

/-- `AllowFreeThreshold`. -/
def allowFreeThreshold : Float :=
  Float.ofNat (100000000 * 1440 / 250)

/-- `AllowFree`. -/
def allowFree (dPriority : Float) : Bool :=
  dPriority > allowFreeThreshold

/-! ## The estimator -/

/-- A `circular_buffer` of 100 samples for the fees, and one for the
priorities. -/
structure CBlockAverage where
  feeSamples : BoundedBuffer CFeeRate 100
  prioritySamples : BoundedBuffer Float 100

/-- `AreSane` of a fee. -/
def areSaneFee (fee minRelayFee : CFeeRate) : Bool :=
  if greaterRate ⟨0⟩ fee then false
  else if getFeePerK fee > getFeePerK minRelayFee * 10000 then false
  else true

/-- `AreSane` of a priority. -/
def areSanePriority (priority : Float) : Bool :=
  priority ≥ 0

structure CMinerPolicyEstimator where
  history : List CBlockAverage
  sortedFeeSamples : List CFeeRate
  sortedPrioritySamples : List Float
  nBestSeenHeight : Int32

/-- `CMinerPolicyEstimator(nEntries)`. -/
def start (nEntries : Nat) : CMinerPolicyEstimator where
  history := List.replicate nEntries ⟨.empty, .empty⟩
  sortedFeeSamples := []
  sortedPrioritySamples := []
  nBestSeenHeight := 0

abbrev Estimating := EStateM Failure CMinerPolicyEstimator

/-! ## Confirmed transactions -/

/-- `history[index]` is changed. -/
def changeBucket (index : Nat) (change : CBlockAverage → CBlockAverage) :
    Estimating Unit := do
  let est ← get
  if index < est.history.length then
    set { est with history := est.history.modify index change }
  else
    throw .outOfRange

def CBlockAverage.recordFee (feeRate : CFeeRate) (average : CBlockAverage) :
    CBlockAverage :=
  { average with feeSamples := average.feeSamples.push feeRate }

def CBlockAverage.recordPriority (priority : Float)
    (average : CBlockAverage) : CBlockAverage :=
  { average with prioritySamples := average.prioritySamples.push priority }

/-- `seenTxConfirm`. -/
def seenTxConfirm (feeRate minRelayFee : CFeeRate) (dPriority : Float)
    (nBlocksAgo : Nat) : Estimating Unit := do
  let est ← get
  -- last entry records "everything else"
  let nBlocksTruncated : Int := min nBlocksAgo (est.history.length - 1)
  if nBlocksTruncated < 0 then
    throw .assertion
  else
    let sufficientFee := greaterRate feeRate minRelayFee
    let sufficientPriority := allowFree dPriority
    if sufficientFee && !sufficientPriority &&
        areSaneFee feeRate minRelayFee then
      changeBucket nBlocksTruncated.toNat (.recordFee feeRate)
    else if sufficientPriority && !sufficientFee &&
        areSanePriority dPriority then
      changeBucket nBlocksTruncated.toNat (.recordPriority dPriority)
    else
      pure ()

/-- `entriesByConfirmations.at(place).push_back(entry)`. -/
def pushAt {α : Type} (buckets : List (List α)) (place : Int) (entry : α) :
    Except Failure (List (List α)) :=
  if 0 ≤ place ∧ place < buckets.length then
    .ok (buckets.modify place.toNat (· ++ [entry]))
  else
    .error .outOfRange

/-- The loop over the entries of a block; `size` is `history.size()`. -/
def fillBuckets (size : Nat) (nBlockHeight : Int32) :
    List CTxMemPoolEntry → List (List CTxMemPoolEntry) →
      Except Failure (List (List CTxMemPoolEntry))
  | [], buckets => .ok buckets
  | entry :: entries, buckets =>
      -- unsigned, and then an int again
      let delta := (nBlockHeight.toUInt32 - entry.nHeight).toInt32.toInt
      if delta ≤ 0 then
        fillBuckets size nBlockHeight entries buckets
      else do
        -- last bucket is catch-all
        let delta : Int := if delta - 1 ≥ size then size else delta
        let buckets ← pushAt buckets (delta - 1) entry
        fillBuckets size nBlockHeight entries buckets

/-- What `random_shuffle` does to each of the buckets. -/
structure Sampling where
  shuffle : Nat → List CTxMemPoolEntry → List CTxMemPoolEntry
  isPerm : ∀ bucket entries, (shuffle bucket entries).Perm entries

/-- At most 10 random entries of a bucket. -/
def Sampling.sample (sampling : Sampling) (bucket : Nat)
    (e : List CTxMemPoolEntry) : List CTxMemPoolEntry :=
  if e.length > 10 then (sampling.shuffle bucket e).take 10 else e

/-- The body of the loop over the sampled entries of a bucket. -/
def confirmEntry (minRelayFee : CFeeRate) (bucket : Nat)
    (entry : CTxMemPoolEntry) : Estimating Unit := do
  let feeRate := feeRateOf entry.nFee (UInt64.ofNat entry.nTxSize)
  -- want priority when it went in
  match getPriority entry entry.nHeight with
  | .error failure => throw failure
  | .ok dPriority => seenTxConfirm feeRate minRelayFee dPriority bucket

/-! ## Estimates -/

/-- The samples of a kind, their sorted copy, and the estimate without
enough of them. -/
structure Kind (α : Type) where
  samples : CBlockAverage → List α
  sorted : CMinerPolicyEstimator → List α
  keep : CMinerPolicyEstimator → List α → CMinerPolicyEstimator
  greater : α → α → Bool
  noData : α

def feeKind : Kind CFeeRate where
  samples average := average.feeSamples.elements
  sorted est := est.sortedFeeSamples
  keep est sorted := { est with sortedFeeSamples := sorted }
  greater := greaterRate
  noData := ⟨0⟩

def priorityKind : Kind Float where
  samples average := average.prioritySamples.elements
  sorted est := est.sortedPrioritySamples
  keep est sorted := { est with sortedPrioritySamples := sorted }
  greater a b := a > b
  noData := -1

section Kind

variable {α : Type} (kind : Kind α)

/-- The sorted copy is made when it is empty. -/
def sortSamples : Estimating Unit := do
  let est ← get
  if (kind.sorted est).length = 0 then
    set (kind.keep est
      (sortDown kind.greater (est.history.flatMap kind.samples)))
  else
    pure ()

/-- `history.at(bucket).FeeSamples()`. -/
def bucketSize (bucket : Nat) : Estimating Nat := do
  let est ← get
  match est.history[bucket]? with
  | none => throw .outOfRange
  | some average => pure (kind.samples average).length

/-- The loop that adds the sizes of the buckets before one. -/
def prevSize : Nat → Estimating Nat
  | 0 => pure 0
  | bucket + 1 => do
      let nPrevSize ← prevSize bucket
      let size ← bucketSize kind bucket
      pure (nPrevSize + size)

/-- The nth highest sample, for n the number of samples in the buckets before
and half the samples in the bucket. -/
def pickSample (bucket : Nat) : Estimating α := do
  let est ← get
  let nBucketSize ← bucketSize kind bucket
  let nPrevSize ← prevSize kind bucket
  let index := min (nPrevSize + nBucketSize / 2)
    ((kind.sorted est).length - 1)
  match (kind.sorted est)[index]? with
  | none => throw .outOfRange
  | some sample => pure sample

/-- The estimate for a bucket of the history. -/
def estimateAt (bucket : Nat) : Estimating α := do
  sortSamples kind
  let est ← get
  if (kind.sorted est).length < 11 then pure kind.noData
  else pickSample kind bucket

/-- `estimateFee` and `estimatePriority`. -/
def estimate (nBlocksToConfirm : Int) : Estimating α := do
  let nBlocksToConfirm := nBlocksToConfirm - 1
  let est ← get
  if nBlocksToConfirm < 0 ∨ nBlocksToConfirm ≥ est.history.length then
    pure kind.noData
  else
    estimateAt kind nBlocksToConfirm.toNat

end Kind

def estimateFee (nBlocksToConfirm : Int) : Estimating CFeeRate :=
  estimate feeKind nBlocksToConfirm

def estimatePriority (nBlocksToConfirm : Int) : Estimating Float :=
  estimate priorityKind nBlocksToConfirm

/-! ## Blocks -/

/-- The estimates that are made for the log, where a bucket has samples. -/
def reportAverage (bucket : Nat) (average : CBlockAverage) :
    Estimating Unit :=
  if average.feeSamples.elements.length +
      average.prioritySamples.elements.length > 0 then do
    let _ ← estimateFee (bucket + 1)
    let _ ← estimatePriority (bucket + 1)
    pure ()
  else
    pure ()

/-- The body of the loop that reports the buckets to the log. -/
def reportBucket (bucket : Nat) : Estimating Unit := do
  let est ← get
  match est.history[bucket]? with
  | none => throw .outOfRange
  | some average => reportAverage bucket average

/-- The loop over the sampled entries of all buckets. -/
def recordBuckets (minRelayFee : CFeeRate) (sampling : Sampling)
    (entriesByConfirmations : List (List CTxMemPoolEntry)) :
    Estimating Unit :=
  forM entriesByConfirmations.zipIdx fun (e, bucket) =>
    forM (sampling.sample bucket e) (confirmEntry minRelayFee bucket)

/-- The sorted copies are dropped. -/
def clearSorted (est : CMinerPolicyEstimator) : CMinerPolicyEstimator :=
  { est with sortedFeeSamples := [], sortedPrioritySamples := [] }

/-- The loop that reports the buckets to the log. -/
def reportBuckets : Estimating Unit := do
  let est ← get
  forM (List.range est.history.length) reportBucket

/-- `seenBlock`. -/
def seenBlock (entries : List CTxMemPoolEntry) (nBlockHeight : Int32)
    (minRelayFee : CFeeRate) (sampling : Sampling) : Estimating Unit := do
  let est ← get
  -- ignore side chains and re-orgs
  if nBlockHeight ≤ est.nBestSeenHeight then
    pure ()
  else do
    set { est with nBestSeenHeight := nBlockHeight }
    match fillBuckets est.history.length nBlockHeight entries
        (List.replicate est.history.length []) with
    | .error failure => throw failure
    | .ok entriesByConfirmations => do
        recordBuckets minRelayFee sampling entriesByConfirmations
        modify clearSorted
        reportBuckets

/-! ## Calls -/

/-- A call of the estimator. -/
inductive Call where
  | seenBlock (entries : List CTxMemPoolEntry) (nBlockHeight : Int32)
      (minRelayFee : CFeeRate) (sampling : Sampling)
  | estimateFee (nBlocksToConfirm : Int)
  | estimatePriority (nBlocksToConfirm : Int)

def Call.run : Call → Estimating Unit
  | .seenBlock entries nBlockHeight minRelayFee sampling =>
      FeeEstimates.seenBlock entries nBlockHeight minRelayFee sampling
  | .estimateFee nBlocksToConfirm => do
      let _ ← FeeEstimates.estimateFee nBlocksToConfirm
      pure ()
  | .estimatePriority nBlocksToConfirm => do
      let _ ← FeeEstimates.estimatePriority nBlocksToConfirm
      pure ()

/-- The estimator after a call, also where an exception ends it. -/
def Call.after (est : CMinerPolicyEstimator) (call : Call) :
    CMinerPolicyEstimator :=
  match call.run est with
  | .ok _ later => later
  | .error _ later => later

/-- The estimator after a sequence of calls. -/
def afterCalls (nEntries : Nat) (calls : List Call) : CMinerPolicyEstimator :=
  calls.foldl Call.after (start nEntries)

/-! ## What an estimate returns -/

section Estimate

variable {α : Type} {kind : Kind α} {est : CMinerPolicyEstimator}

/-- Only the sorted copy is replaced. -/
structure Kind.Lawful (kind : Kind α) : Prop where
  sorted_keep : ∀ est sorted, kind.sorted (kind.keep est sorted) = sorted
  history_keep : ∀ est sorted, (kind.keep est sorted).history = est.history
  keep_keep : ∀ est sorted other,
    kind.keep (kind.keep est sorted) other = kind.keep est other

theorem feeKind_lawful : feeKind.Lawful :=
  ⟨fun _ _ => rfl, fun _ _ => rfl, fun _ _ _ => rfl⟩

theorem priorityKind_lawful : priorityKind.Lawful :=
  ⟨fun _ _ => rfl, fun _ _ => rfl, fun _ _ _ => rfl⟩

/-- The samples in the buckets. -/
def buckets (kind : Kind α) (est : CMinerPolicyEstimator) : List (List α) :=
  est.history.map kind.samples

/-- The estimator with its sorted copy. -/
def refreshed (kind : Kind α) (est : CMinerPolicyEstimator) :
    CMinerPolicyEstimator :=
  if (kind.sorted est).length = 0 then
    kind.keep est (sortDown kind.greater (est.history.flatMap kind.samples))
  else
    est

/-- The sample at the rank of a bucket. -/
def ranked (kind : Kind α) (est : CMinerPolicyEstimator) (bucket : Nat) :
    Option α :=
  (kind.sorted est)[min (rank (buckets kind est) bucket)
    ((kind.sorted est).length - 1)]?

theorem refreshed_history (lawful : kind.Lawful) :
    (refreshed kind est).history = est.history := by
  unfold refreshed
  split_ifs
  · exact lawful.history_keep _ _
  · rfl

/-- A sorted copy is not made twice. -/
theorem refreshed_refreshed (lawful : kind.Lawful) :
    refreshed kind (refreshed kind est) = refreshed kind est := by
  by_cases empty : (kind.sorted est).length = 0
  · have once : refreshed kind est = kind.keep est
        (sortDown kind.greater (est.history.flatMap kind.samples)) :=
      if_pos empty
    rw [once, refreshed, lawful.history_keep, lawful.keep_keep, ite_self]
  · have same : refreshed kind est = est := if_neg empty
    rw [same, same]

theorem sortSamples_run :
    sortSamples kind est = .ok ⟨⟩ (refreshed kind est) := by
  have step : sortSamples kind est =
      (if (kind.sorted est).length = 0 then
        set (kind.keep est
          (sortDown kind.greater (est.history.flatMap kind.samples)))
      else
        pure () : Estimating Unit) est := rfl
  rw [step, refreshed]
  split_ifs <;> rfl

theorem bucketSize_run {bucket : Nat} (inside : bucket < est.history.length) :
    bucketSize kind bucket est =
      .ok ((buckets kind est).getD bucket []).length est := by
  have step : bucketSize kind bucket est =
      (match est.history[bucket]? with
      | none => throw .outOfRange
      | some average => pure (kind.samples average).length :
        Estimating Nat) est := rfl
  rw [step, List.getElem?_eq_getElem inside, buckets,
    List.getD_eq_getElem _ _ (by simpa using inside), List.getElem_map]
  rfl

theorem prevSize_run {bucket : Nat} (inside : bucket ≤ est.history.length) :
    prevSize kind bucket est =
      .ok (countBefore (buckets kind est) bucket) est := by
  induction bucket with
  | zero => rfl
  | succ bucket ih =>
      rw [prevSize, bind_ok (ih (by omega)), bind_ok (bucketSize_run inside),
        countBefore_succ]
      rfl

/-- Outside of the history nothing is estimated. -/
theorem estimate_outside {nBlocksToConfirm : Int}
    (outside : nBlocksToConfirm < 1 ∨
      nBlocksToConfirm > est.history.length) :
    estimate kind nBlocksToConfirm est = .ok kind.noData est := by
  have none : nBlocksToConfirm - 1 < 0 ∨
      nBlocksToConfirm - 1 ≥ est.history.length := by
    omega
  exact congrFun (if_pos none) est

/-- The rank is inside the sorted copy. -/
theorem pickSample_run {bucket : Nat} (inside : bucket < est.history.length)
    (many : 11 ≤ (kind.sorted est).length) :
    ∃ sample, ranked kind est bucket = some sample ∧
      pickSample kind bucket est = .ok sample est := by
  have present : min (rank (buckets kind est) bucket)
      ((kind.sorted est).length - 1) < (kind.sorted est).length := by
    omega
  have found := List.getElem?_eq_getElem present
  refine ⟨_, found, ?_⟩
  have step : pickSample kind bucket est =
      (bucketSize kind bucket >>= fun nBucketSize =>
        prevSize kind bucket >>= fun nPrevSize =>
          match (kind.sorted est)[min (nPrevSize + nBucketSize / 2)
            ((kind.sorted est).length - 1)]? with
          | none => throw .outOfRange
          | some sample => pure sample) est := rfl
  rw [step, bind_ok (bucketSize_run inside), bind_ok (prevSize_run inside.le)]
  change (match (kind.sorted est)[min (rank (buckets kind est) bucket)
    ((kind.sorted est).length - 1)]? with
    | none => throw .outOfRange
    | some sample => pure sample : Estimating α) est = _
  rw [found]
  rfl

/-- The estimate for a bucket is the sample at its rank, unless there are too
few of them. -/
def IsEstimate (kind : Kind α) (est : CMinerPolicyEstimator) (bucket : Nat)
    (value : α) : Prop :=
  ((kind.sorted est).length < 11 ∧ value = kind.noData) ∨
    (11 ≤ (kind.sorted est).length ∧ ranked kind est bucket = some value)

theorem estimate_inside (lawful : kind.Lawful) {bucket : Nat}
    (inside : bucket < est.history.length) :
    ∃ value, estimate kind (bucket + 1) est =
        .ok value (refreshed kind est) ∧
      IsEstimate kind (refreshed kind est) bucket value := by
  have inRange : ¬ ((bucket : Int) + 1 - 1 < 0 ∨
      (bucket : Int) + 1 - 1 ≥ est.history.length) := by
    omega
  have place : ((bucket : Int) + 1 - 1).toNat = bucket := by omega
  have started : estimate kind (bucket + 1) est =
      estimateAt kind ((bucket : Int) + 1 - 1).toNat est :=
    congrFun (if_neg inRange) est
  have sorted : estimateAt kind bucket est =
      (if (kind.sorted (refreshed kind est)).length < 11 then pure kind.noData
        else pickSample kind bucket : Estimating α) (refreshed kind est) :=
    bind_ok sortSamples_run
  rw [started, place, sorted]
  by_cases few : (kind.sorted (refreshed kind est)).length < 11
  · rw [if_pos few]
    exact ⟨_, rfl, .inl ⟨few, rfl⟩⟩
  · rw [if_neg few]
    have insideToo : bucket < (refreshed kind est).history.length := by
      rwa [refreshed_history lawful]
    rcases @pickSample_run α kind _ bucket insideToo (by omega) with
      ⟨sample, found, run⟩
    exact ⟨sample, run, .inr ⟨by omega, found⟩⟩

/-- An estimate may make the sorted copy. -/
theorem estimate_ends (lawful : kind.Lawful) (nBlocksToConfirm : Int) :
    ∃ value later, estimate kind nBlocksToConfirm est = .ok value later ∧
      (later = est ∨ later = refreshed kind est) := by
  by_cases outside : nBlocksToConfirm < 1 ∨
      nBlocksToConfirm > est.history.length
  · exact ⟨_, _, estimate_outside outside, .inl rfl⟩
  · rcases Int.eq_ofNat_of_zero_le (show 0 ≤ nBlocksToConfirm - 1 by omega)
      with ⟨bucket, isBucket⟩
    obtain rfl : nBlocksToConfirm = bucket + 1 := by omega
    rcases estimate_inside lawful (show bucket < est.history.length by omega)
      with ⟨value, run, _⟩
    exact ⟨value, _, run, .inr rfl⟩

end Estimate

/-! ## What is kept -/

/-- A bucket has the fee. -/
def Held (est : CMinerPolicyEstimator) (rate : CFeeRate) : Prop :=
  ∃ average ∈ est.history, rate ∈ average.feeSamples.elements

/-- The buckets are there, and the sorted copy is sorted and has fees of a
kind only. -/
structure Kept (size : Nat) (known : CFeeRate → Prop)
    (est : CMinerPolicyEstimator) : Prop where
  size_eq : est.history.length = size
  sorted : est.sortedFeeSamples.Pairwise fun high low =>
    low.nSatoshisPerK.toInt ≤ high.nSatoshisPerK.toInt
  known : ∀ rate ∈ est.sortedFeeSamples, known rate

section Kept

variable {size : Nat} {known : CFeeRate → Prop} {est : CMinerPolicyEstimator}

theorem Kept.mono {other : CFeeRate → Prop} (kept : Kept size known est)
    (weaker : ∀ rate, known rate → other rate) : Kept size other est :=
  ⟨kept.size_eq, kept.sorted, fun rate member =>
    weaker rate (kept.known rate member)⟩

theorem greaterRate_iff (a b : CFeeRate) :
    greaterRate a b = true ↔ b.nSatoshisPerK.toInt < a.nSatoshisPerK.toInt := by
  rw [greaterRate, decide_eq_true_eq, gt_iff_lt, Int64.lt_iff_toInt_lt]

/-- Making the sorted copy keeps what is kept. -/
theorem Kept.refreshed (kept : Kept size known est)
    (held : ∀ rate, Held est rate → known rate) :
    Kept size known (refreshed feeKind est) := by
  unfold FeeEstimates.refreshed
  split_ifs
  · refine ⟨kept.size_eq, sortDown_sorted greaterRate_iff _, ?_⟩
    intro rate member
    rcases List.mem_flatMap.mp (mem_sortDown.mp member) with
      ⟨average, inHistory, inBucket⟩
    exact held rate ⟨average, inHistory, inBucket⟩
  · exact kept

theorem Kept.refreshed_priority (kept : Kept size known est) :
    Kept size known (FeeEstimates.refreshed priorityKind est) := by
  unfold FeeEstimates.refreshed
  split_ifs
  · exact ⟨kept.size_eq, kept.sorted, kept.known⟩
  · exact kept

/-- An estimate keeps what is kept, and the buckets. -/
theorem estimateFee_meets {stop : Failure → CMinerPolicyEstimator → Prop}
    {history : List CBlockAverage}
    (held : ∀ average ∈ history, ∀ rate ∈ average.feeSamples.elements,
      known rate) (nBlocksToConfirm : Int) :
    Meets stop (fun est => Kept size known est ∧ est.history = history)
      (estimateFee nBlocksToConfirm)
      fun _ est => Kept size known est ∧ est.history = history := by
  rintro est ⟨kept, rfl⟩
  rcases @estimate_ends _ _ est feeKind_lawful nBlocksToConfirm with
    ⟨value, later, run, rfl | rfl⟩
  · rw [estimateFee, run]
    exact ⟨kept, rfl⟩
  · rw [estimateFee, run]
    exact ⟨kept.refreshed fun rate ⟨average, inHistory, inBucket⟩ =>
      held average inHistory rate inBucket, refreshed_history feeKind_lawful⟩

theorem estimatePriority_meets {stop : Failure → CMinerPolicyEstimator → Prop}
    {history : List CBlockAverage} (nBlocksToConfirm : Int) :
    Meets stop (fun est => Kept size known est ∧ est.history = history)
      (estimatePriority nBlocksToConfirm)
      fun _ est => Kept size known est ∧ est.history = history := by
  rintro est ⟨kept, rfl⟩
  rcases @estimate_ends _ _ est priorityKind_lawful nBlocksToConfirm with
    ⟨value, later, run, rfl | rfl⟩
  · rw [estimatePriority, run]
    exact ⟨kept, rfl⟩
  · rw [estimatePriority, run]
    exact ⟨kept.refreshed_priority, refreshed_history priorityKind_lawful⟩

theorem reportBucket_meets {stop : Failure → CMinerPolicyEstimator → Prop}
    {history : List CBlockAverage}
    (held : ∀ average ∈ history, ∀ rate ∈ average.feeSamples.elements,
      known rate) {bucket : Nat} (inside : bucket < history.length) :
    Meets stop (fun est => Kept size known est ∧ est.history = history)
      (reportBucket bucket)
      fun _ est => Kept size known est ∧ est.history = history := by
  have reports : Meets stop
      (fun est => Kept size known est ∧ est.history = history)
      (reportAverage bucket history[bucket])
      fun _ est => Kept size known est ∧ est.history = history := by
    refine Meets.ite (fun _ => ?_) fun _ => Meets.pure fun _ same => same
    exact (estimateFee_meets held _).bind fun _ =>
      (estimatePriority_meets _).bind fun _ => Meets.pure fun _ same => same
  rintro est ⟨kept, rfl⟩
  have step : reportBucket bucket est =
      (match est.history[bucket]? with
      | none => throw .outOfRange
      | some average => reportAverage bucket average :
        Estimating Unit) est := rfl
  rw [step, List.getElem?_eq_getElem inside]
  exact reports est ⟨kept, rfl⟩

/-! ## What a block keeps -/

/-- What may be left where a block ends early. -/
def Ended (size : Nat) (known : CFeeRate → Prop) (failure : Failure)
    (est : CMinerPolicyEstimator) : Prop :=
  failure = .valueOut ∧ Kept size known est

theorem changeBucket_meets {index : Nat} (inside : index < size)
    (change : CBlockAverage → CBlockAverage) :
    Meets (Ended size known) (Kept size known) (changeBucket index change)
      fun _ => Kept size known := by
  intro est kept
  have present : index < est.history.length := kept.size_eq ▸ inside
  have step : changeBucket index change est =
      .ok ⟨⟩ { est with history := est.history.modify index change } :=
    congrFun (if_pos present) est
  rw [step]
  exact ⟨(List.length_modify _ _ _).trans kept.size_eq, kept.sorted,
    kept.known⟩

theorem seenTxConfirm_meets (positive : 0 < size)
    (feeRate minRelayFee : CFeeRate) (dPriority : Float) (nBlocksAgo : Nat) :
    Meets (Ended size known) (Kept size known)
      (seenTxConfirm feeRate minRelayFee dPriority nBlocksAgo)
      fun _ => Kept size known := by
  intro est kept
  have nonneg : ¬ min (nBlocksAgo : Int) (est.history.length - 1) < 0 := by
    have := kept.size_eq
    omega
  have inside : (min (nBlocksAgo : Int) (est.history.length - 1)).toNat <
      size := by
    have := kept.size_eq
    omega
  refine Meets.ite (fun negative => absurd negative nonneg) (fun _ => ?_) est
    kept
  refine Meets.ite (fun _ => changeBucket_meets inside _) fun _ => ?_
  refine Meets.ite (fun _ => changeBucket_meets inside _) fun _ => ?_
  exact Meets.pure fun _ same => same

theorem getPriority_failure {entry : CTxMemPoolEntry} {height : UInt32}
    {failure : Failure} (failed : getPriority entry height = .error failure) :
    failure = .valueOut := by
  unfold getPriority at failed
  split at failed
  · exact (Except.error.inj failed).symm
  · exact absurd failed nofun

theorem confirmEntry_meets (positive : 0 < size) (minRelayFee : CFeeRate)
    (bucket : Nat) (entry : CTxMemPoolEntry) :
    Meets (Ended size known) (Kept size known)
      (confirmEntry minRelayFee bucket entry) fun _ => Kept size known := by
  unfold confirmEntry
  cases priority : getPriority entry entry.nHeight with
  | error failure =>
      exact Meets.throw fun _ kept => ⟨getPriority_failure priority, kept⟩
  | ok dPriority =>
      exact seenTxConfirm_meets positive _ minRelayFee dPriority bucket

/-- Every entry has a bucket. -/
theorem fillBuckets_ok (positive : 0 < size) (nBlockHeight : Int32)
    (entries : List CTxMemPoolEntry)
    {filled : List (List CTxMemPoolEntry)} (length : filled.length = size) :
    ∃ later, fillBuckets size nBlockHeight entries filled = .ok later := by
  induction entries generalizing filled with
  | nil => exact ⟨filled, rfl⟩
  | cons entry entries ih =>
      rw [fillBuckets]
      generalize (nBlockHeight.toUInt32 - entry.nHeight).toInt32.toInt = delta
      dsimp only
      by_cases reorg : delta ≤ 0
      · rw [if_pos reorg]
        exact ih length
      · rw [if_neg reorg]
        have inside : 0 ≤ (if delta - 1 ≥ size then (size : Int) else delta) -
              1 ∧
            (if delta - 1 ≥ size then (size : Int) else delta) - 1 <
              filled.length := by
          split_ifs <;> omega
        rw [pushAt, if_pos inside, ok_bind]
        exact ih ((List.length_modify _ _ _).trans length)

theorem recordBuckets_meets (positive : 0 < size) (minRelayFee : CFeeRate)
    (sampling : Sampling) (filled : List (List CTxMemPoolEntry)) :
    Meets (Ended size known) (Kept size known)
      (recordBuckets minRelayFee sampling filled) fun _ => Kept size known :=
  Meets.forM _ fun ⟨_, bucket⟩ _ => Meets.forM _ fun entry _ =>
    confirmEntry_meets positive minRelayFee bucket entry

/-- The reports leave sorted copies of what the buckets have. -/
theorem reportBuckets_meets :
    Meets (Ended size known) (fun est => Kept size (Held est) est)
      reportBuckets fun _ est => Kept size (Held est) est := by
  intro est kept
  have loop : Meets (Ended size known)
      (fun later => Kept size (Held est) later ∧ later.history = est.history)
      (forM (List.range est.history.length) reportBucket)
      fun _ later => Kept size (Held est) later ∧
        later.history = est.history := by
    refine Meets.forM _ fun bucket member => reportBucket_meets ?_
      (List.mem_range.mp member)
    exact fun average inHistory rate inBucket => ⟨average, inHistory, inBucket⟩
  refine loop.mono (fun _ same => same) (fun _ later same => ?_) est
    ⟨kept, rfl⟩
  refine same.1.mono fun rate ⟨average, inHistory, inBucket⟩ => ?_
  exact ⟨average, same.2 ▸ inHistory, inBucket⟩

/-- A block leaves fees in the sorted copy that were known or that a bucket
has now. -/
theorem seenBlock_meets (positive : 0 < size)
    (entries : List CTxMemPoolEntry) (nBlockHeight : Int32)
    (minRelayFee : CFeeRate) (sampling : Sampling) :
    Meets (Ended size known) (Kept size known)
      (seenBlock entries nBlockHeight minRelayFee sampling)
      fun _ est => Kept size (fun rate => known rate ∨ Held est rate) est := by
  intro est kept
  refine Meets.ite (fun _ => ?_) (fun _ => ?_) est kept
  · exact Meets.pure fun _ same => same.mono fun _ => .inl
  · have seen : Meets (Ended size known) (Kept size known)
        (set { est with nBestSeenHeight := nBlockHeight } : Estimating PUnit)
        fun _ => Kept size known :=
      fun _ _ => ⟨kept.size_eq, kept.sorted, kept.known⟩
    have cleared : Meets (Ended size known) (Kept size known)
        (modify clearSorted : Estimating PUnit)
        fun _ est => Kept size (Held est) est :=
      Meets.modify fun _ same => ⟨same.size_eq, .nil, nofun⟩
    have nonempty : 0 < est.history.length := kept.size_eq ▸ positive
    rcases fillBuckets_ok nonempty nBlockHeight entries
        List.length_replicate with ⟨filled, run⟩
    rw [run]
    refine seen.bind fun _ => ?_
    refine (recordBuckets_meets positive minRelayFee sampling filled).bind
      fun _ => cleared.bind fun _ => ?_
    exact reportBuckets_meets.mono (fun _ same => same)
      fun _ _ same => same.mono fun _ => .inr

end Kept

/-! ## Runs -/

/-- After some first part of the calls a bucket holds the fee. -/
def Recorded (nEntries : Nat) (calls : List Call) (rate : CFeeRate) : Prop :=
  ∃ front, front <+: calls ∧ Held (afterCalls nEntries front) rate

section Runs

variable {nEntries : Nat}

theorem Recorded.now {calls : List Call} {rate : CFeeRate}
    (held : Held (afterCalls nEntries calls) rate) :
    Recorded nEntries calls rate :=
  ⟨calls, List.prefix_rfl, held⟩

theorem Recorded.later {calls : List Call} {rate : CFeeRate}
    (recorded : Recorded nEntries calls rate) (call : Call) :
    Recorded nEntries (calls ++ [call]) rate := by
  rcases recorded with ⟨front, part, held⟩
  exact ⟨front, part.trans (List.prefix_append _ _), held⟩

/-- A call ends normally, or with the exception of `GetValueOut`, and leaves
fees in the sorted copy that were known or that a bucket has now. -/
theorem Call.run_meets {known : CFeeRate → Prop} (positive : 0 < nEntries)
    (call : Call) :
    Meets (Ended nEntries known)
      (fun est => Kept nEntries known est ∧ ∀ rate, Held est rate → known rate)
      call.run
      fun _ est =>
        Kept nEntries (fun rate => known rate ∨ Held est rate) est := by
  rintro est ⟨kept, held⟩
  have heldHere : ∀ average ∈ est.history,
      ∀ rate ∈ average.feeSamples.elements, known rate :=
    fun average inHistory rate inBucket =>
      held rate ⟨average, inHistory, inBucket⟩
  cases call with
  | seenBlock entries nBlockHeight minRelayFee sampling =>
      exact seenBlock_meets positive entries nBlockHeight minRelayFee sampling
        est kept
  | estimateFee nBlocksToConfirm =>
      have ends : Meets (Ended nEntries known)
          (fun later => Kept nEntries known later ∧
            later.history = est.history)
          (Call.estimateFee nBlocksToConfirm).run
          fun _ later =>
            Kept nEntries (fun rate => known rate ∨ Held later rate) later :=
        (estimateFee_meets heldHere nBlocksToConfirm).bind fun _ =>
          Meets.pure fun _ same => same.1.mono fun _ => .inl
      exact ends est ⟨kept, rfl⟩
  | estimatePriority nBlocksToConfirm =>
      have ends : Meets (Ended nEntries known)
          (fun later => Kept nEntries known later ∧
            later.history = est.history)
          (Call.estimatePriority nBlocksToConfirm).run
          fun _ later =>
            Kept nEntries (fun rate => known rate ∨ Held later rate) later :=
        (estimatePriority_meets nBlocksToConfirm).bind fun _ =>
          Meets.pure fun _ same => same.1.mono fun _ => .inl
      exact ends est ⟨kept, rfl⟩

theorem afterCalls_append (calls : List Call) (call : Call) :
    afterCalls nEntries (calls ++ [call]) =
      call.after (afterCalls nEntries calls) := by
  rw [afterCalls, List.foldl_append, List.foldl_cons, List.foldl_nil,
    afterCalls]

theorem afterCalls_kept (positive : 0 < nEntries) (calls : List Call) :
    Kept nEntries (Recorded nEntries calls) (afterCalls nEntries calls) := by
  induction calls using List.reverseRecOn with
  | nil => exact ⟨List.length_replicate, .nil, nofun⟩
  | append_singleton calls call ih =>
      have meets := call.run_meets positive (afterCalls nEntries calls)
        ⟨ih, fun rate => Recorded.now⟩
      have isAfter := @afterCalls_append nEntries calls call
      unfold Call.after at isAfter
      cases run : call.run (afterCalls nEntries calls) with
      | ok _ later =>
          rw [run] at meets isAfter
          dsimp only at meets isAfter
          rw [isAfter]
          refine meets.mono fun rate => ?_
          rintro (before | held)
          · exact before.later call
          · exact Recorded.now (isAfter ▸ held)
      | error _ later =>
          rw [run] at meets isAfter
          dsimp only at meets isAfter
          rw [isAfter]
          exact meets.2.mono fun rate before => before.later call

/-- No access is out of range, and no assertion fails. -/
theorem call_safe (positive : 0 < nEntries) (calls : List Call) (call : Call)
    {failure : Failure} {later : CMinerPolicyEstimator}
    (failed : call.run (afterCalls nEntries calls) = .error failure later) :
    failure = .valueOut :=
  ((call.run_meets positive).of_error
    ⟨afterCalls_kept positive calls, fun _ => Recorded.now⟩ failed).1

end Runs

/-! ## Estimates after a run -/

/-- Asked again, an estimate is the same. -/
theorem estimateFee_again {est : CMinerPolicyEstimator} {bucket : Nat}
    (inside : bucket < est.history.length) :
    ∃ value, estimateFee (bucket + 1) est =
        .ok value (refreshed feeKind est) ∧
      estimateFee (bucket + 1) (refreshed feeKind est) =
        .ok value (refreshed feeKind est) ∧
      IsEstimate feeKind (refreshed feeKind est) bucket value := by
  have insideToo : bucket < (refreshed feeKind est).history.length := by
    rwa [refreshed_history feeKind_lawful]
  rcases estimate_inside feeKind_lawful inside with ⟨value, run, isEstimate⟩
  rcases estimate_inside feeKind_lawful insideToo with
    ⟨other, runAgain, isEstimateToo⟩
  rw [refreshed_refreshed feeKind_lawful] at runAgain isEstimateToo
  have same : value = other := by
    rcases isEstimate with ⟨few, rfl⟩ | ⟨many, found⟩
    · rcases isEstimateToo with ⟨_, rfl⟩ | ⟨many, _⟩
      · rfl
      · omega
    · rcases isEstimateToo with ⟨few, _⟩ | ⟨_, foundToo⟩
      · omega
      · exact Option.some.inj (found.symm.trans foundToo)
  subst same
  exact ⟨value, run, runAgain, isEstimate⟩

/-- An estimate that is not zero is in the sorted copy. -/
theorem IsEstimate.known {size bucket : Nat} {known : CFeeRate → Prop}
    {est : CMinerPolicyEstimator} {value : CFeeRate}
    (isEstimate : IsEstimate feeKind est bucket value)
    (kept : Kept size known est) (nonzero : value ≠ ⟨0⟩) : known value := by
  rcases isEstimate with ⟨_, zero⟩ | ⟨_, found⟩
  · exact absurd zero nonzero
  · exact kept.known value (List.mem_of_getElem? found)

/-- The estimate for a later bucket is not higher. -/
theorem IsEstimate.antitone {size first second : Nat}
    {known : CFeeRate → Prop} {est : CMinerPolicyEstimator}
    {high low : CFeeRate} (kept : Kept size known est)
    (ordered : first ≤ second) (isHigh : IsEstimate feeKind est first high)
    (isLow : IsEstimate feeKind est second low) :
    low.nSatoshisPerK ≤ high.nSatoshisPerK := by
  rw [Int64.le_iff_toInt_le]
  rcases isHigh with ⟨few, rfl⟩ | ⟨many, atHigh⟩
  · rcases isLow with ⟨_, rfl⟩ | ⟨many, _⟩
    · exact le_rfl
    · omega
  · rcases isLow with ⟨few, _⟩ | ⟨_, atLow⟩
    · omega
    · have ranks := rank_mono (buckets feeKind est) ordered
      exact sorted_antitone
        (fun low high => low.nSatoshisPerK.toInt ≤ high.nSatoshisPerK.toInt)
        (fun _ => le_rfl) kept.sorted (min_le_min_right _ ranks) atHigh atLow

/-- After any calls the estimates fall with the number of blocks, one that is
not zero is a recorded fee, and no call goes out of range. -/
theorem fee_estimates_monotone {nEntries : Nat} (positive : 0 < nEntries)
    (calls : List Call) :
    (∀ front call back, calls = front ++ call :: back →
        ∀ failure later,
          call.run (afterCalls nEntries front) = .error failure later →
            failure = .valueOut) ∧
      ∀ n m : Int, 1 ≤ n → n ≤ m → m ≤ nEntries → ∃ high low later,
        estimateFee n (afterCalls nEntries calls) = .ok high later ∧
          estimateFee m (afterCalls nEntries calls) = .ok low later ∧
          estimateFee n later = .ok high later ∧
          estimateFee m later = .ok low later ∧
          low.nSatoshisPerK ≤ high.nSatoshisPerK ∧
          (high ≠ ⟨0⟩ → Recorded nEntries calls high) ∧
          (low ≠ ⟨0⟩ → Recorded nEntries calls low) := by
  refine ⟨fun front call _ _ _ _ failed => call_safe positive front call failed,
    fun n m large ordered inside => ?_⟩
  rcases Int.eq_ofNat_of_zero_le (show 0 ≤ n - 1 by omega) with
    ⟨first, isFirst⟩
  rcases Int.eq_ofNat_of_zero_le (show 0 ≤ m - 1 by omega) with
    ⟨second, isSecond⟩
  obtain rfl : n = first + 1 := by omega
  obtain rfl : m = second + 1 := by omega
  have kept := afterCalls_kept positive calls
  have keptLater := kept.refreshed fun _ => Recorded.now
  have size := kept.size_eq
  rcases estimateFee_again (show first < (afterCalls nEntries calls
      ).history.length by omega) with ⟨high, runHigh, againHigh, isHigh⟩
  rcases estimateFee_again (show second < (afterCalls nEntries calls
      ).history.length by omega) with ⟨low, runLow, againLow, isLow⟩
  exact ⟨high, low, _, runHigh, runLow, againHigh, againLow,
    isHigh.antitone keptLater (by omega) isLow, isHigh.known keptLater,
    isLow.known keptLater⟩

/-- A transaction that has waited in the pool since height 100. -/
def waiting : CTxMemPoolEntry where
  tx := ⟨5, 1, txPayment, [⟨⟨4, 0⟩, [], 0⟩], [⟨1, []⟩], .plain txMetaEmpty, [],
    0⟩
  nTxSize := 200
  nFee := 40000
  nModSize := 200
  dPriority := Float.ofNat 0
  nHeight := 100

/-- Two blocks that confirm ten of them each. -/
def twoBlocks : List Call :=
  [105, 106].map fun nBlockHeight =>
    .seenBlock (List.replicate 10 waiting) nBlockHeight ⟨1000⟩
      ⟨fun _ entries => entries, fun _ _ => .refl _⟩

/-- The estimator of the memory pool has 25 buckets. -/
theorem fee_estimates_monotone_pool :
    ∃ high low later,
      estimateFee 2 (afterCalls 25 twoBlocks) = .ok high later ∧
        estimateFee 25 (afterCalls 25 twoBlocks) = .ok low later ∧
        low.nSatoshisPerK ≤ high.nSatoshisPerK ∧
        (low ≠ ⟨0⟩ → Recorded 25 twoBlocks low) := by
  have pool := fee_estimates_monotone (show 0 < 25 by decide) twoBlocks
  rcases pool.2 2 25 (by decide) (by decide) (by decide) with
    ⟨high, low, later, runHigh, runLow, _, _, ordered, _, recorded⟩
  exact ⟨high, low, later, runHigh, runLow, ordered, recorded⟩

end PrivateDatagram.Mempool.FeeEstimates
