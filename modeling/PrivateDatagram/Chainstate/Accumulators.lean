import PrivateDatagram.Consensus.ProofOfStake

/-!
# Accumulator checkpoints

Every ten blocks the header of a block has a checkpoint of the accumulators
with the mints of the blocks before.  `CalculateAccumulatorCheckpoint` starts
from the last checkpoint and adds the mints of ten blocks to it, those 20 to
11 blocks before.

The accumulators of libzerocoin and the checksum of a value are functions of
`Zerocoin`; the zerocoin database, the files on disk and a request to shut
down belong to the `Surroundings` of a block.
-/

namespace PrivateDatagram.Chainstate.Accumulators

open Wire.Serialize Consensus.ProofOfStake

abbrev CBigNum := Int

/-! ## Mints -/

/-- The denominations of `zerocoinDenomList`. -/
abbrev Denomination := { denomination : CoinDenomination //
  denomination ≠ .error }

def zerocoinDenomList : List Denomination :=
  [⟨.one, by decide⟩, ⟨.five, by decide⟩, ⟨.ten, by decide⟩,
    ⟨.fifty, by decide⟩, ⟨.oneHundred, by decide⟩, ⟨.fiveHundred, by decide⟩,
    ⟨.oneThousand, by decide⟩, ⟨.fiveThousand, by decide⟩]

/-- `AmountToZerocoinDenomination`. -/
def amountToZerocoinDenomination (amount : Int64) : CoinDenomination :=
  match zerocoinDenomList.find? fun denomination =>
      denomination.val.toInt64 * 100000000 = amount with
  | some denomination => denomination.val
  | none => .error

structure PublicCoin where
  value : CBigNum
  denomination : Denomination
deriving DecidableEq

/-- An output that mints, with the number in its script. -/
structure CMintOut where
  nValue : Int64
  publicZerocoin : CBigNum
deriving DecidableEq, Repr

def txOutToPublicCoin (txout : CMintOut) : Option PublicCoin :=
  let denomination := amountToZerocoinDenomination txout.nValue
  if known : denomination = .error then none
  else some ⟨txout.publicZerocoin, denomination, known⟩

structure CBlock where
  nAccumulatorCheckpoint : UInt256
  /-- The mint outputs of the transactions, in their order. -/
  mints : List CMintOut
deriving DecidableEq, Repr

/-- `BlockToPubcoinList`; `ValidOutPoint` filters nothing out. -/
def blockToPubcoinList (block : CBlock) : Option (List PublicCoin) :=
  block.mints.mapM txOutToPublicCoin

/-! ## Accumulators -/

/-- What the code has from libzerocoin and from the hash function. -/
structure Zerocoin where
  accumulatorBase : CBigNum
  /-- `increment` of an accumulator by a coin. -/
  increment : CBigNum → CBigNum → CBigNum
  getChecksum : CBigNum → UInt32

abbrev AccumulatorMap := Denomination → CBigNum

def resetMap (zerocoin : Zerocoin) : AccumulatorMap :=
  fun _ => zerocoin.accumulatorBase

/-- `Accumulate` without validation. -/
def accumulate (zerocoin : Zerocoin) (mapAccumulators : AccumulatorMap)
    (pubCoin : PublicCoin) : AccumulatorMap :=
  Function.update mapAccumulators pubCoin.denomination
    (zerocoin.increment (mapAccumulators pubCoin.denomination) pubCoin.value)

/-- The checksums of all values, one after the other. -/
def getCheckpoint (zerocoin : Zerocoin) (mapAccumulators : AccumulatorMap) :
    UInt256 :=
  zerocoinDenomList.foldl (fun nCheckpoint denom =>
    nCheckpoint <<< 32 |||
      BitVec.ofNat 256 (zerocoin.getChecksum (mapAccumulators denom)).toNat) 0

/-- The records of `zerocoinDB` that hold accumulator values. -/
abbrev AccumulatorDB := UInt32 → Option CBigNum

/-- `Load` of a checkpoint, if all its checksums are in the database. -/
def loadMap (zerocoinDB : AccumulatorDB) (nCheckpoint : UInt256) :
    Option AccumulatorMap :=
  let value := fun denom : Denomination =>
    zerocoinDB (parseChecksum nCheckpoint denom.val)
  if zerocoinDenomList.all fun denom => (value denom).isSome then
    some fun denom => (value denom).getD 0
  else
    none

/-! ## Parameters of the networks -/

structure CChainParams where
  nZerocoinStartHeight : Nat
  nBlockZerocoinV2 : Nat
  /-- `mapCheckpoints`, by height. -/
  mapCheckpoints : List (Nat × AccumulatorMap)

def mainParams : CChainParams := ⟨20, 20, [(0, fun _ => 0)]⟩

def testNetParams : CChainParams := ⟨20, 100, [(0, fun _ => 0)]⟩

def regTestParams : CChainParams := ⟨20, 100, [(0, fun _ => 0)]⟩

/-- The loop of `GetClosestCheckpoint`. -/
def closestHeight (nHeight nHeightCheckpoint : Int) :
    List (Nat × AccumulatorMap) → Int
  | [] => nHeightCheckpoint
  | it :: rest =>
      if (it.1 : Int) < nHeight then
        let first := if nHeightCheckpoint = -1 then (it.1 : Int)
          else nHeightCheckpoint
        closestHeight nHeight
          (if nHeight - it.1 < first then (it.1 : Int) else first) rest
      else
        closestHeight nHeight nHeightCheckpoint rest

/-- `GetClosestCheckpoint`, with the height it sets. -/
def getClosestCheckpoint (params : CChainParams) (nHeight : Nat) :
    Int × AccumulatorMap :=
  let nHeightCheckpoint := closestHeight nHeight (-1) params.mapCheckpoints
  match params.mapCheckpoints.find? fun it =>
      (it.1 : Int) = nHeightCheckpoint with
  | some it => (nHeightCheckpoint, it.2)
  | none => (nHeightCheckpoint, fun _ => 0)

/-! ## Checkpoints of blocks -/

structure Surroundings where
  zerocoinDB : AccumulatorDB
  /-- `ShutdownRequested()` when the loop is at this height. -/
  shutdownRequested : Nat → Bool
  /-- Whether the block of this height can be read. -/
  readBlockFromDisk : Nat → Bool

/-- `InitializeAccumulators`, with the `nHeightCheckpoint` it sets. -/
def initializeAccumulators (params : CChainParams) (zerocoin : Zerocoin)
    (around : Surroundings) (chainActive : List CBlock) (nHeight : Nat) :
    Option (Int × AccumulatorMap) :=
  if nHeight < params.nZerocoinStartHeight then
    none
  else if nHeight ≥ params.nBlockZerocoinV2 ∧
      nHeight ≤ params.nBlockZerocoinV2 + 20 then
    let checkpoint := getClosestCheckpoint params nHeight
    if checkpoint.1 < 0 then none else some checkpoint
  else
    match chainActive[nHeight - 1]? with
    | none => none
    | some pprev =>
        if pprev.nAccumulatorCheckpoint = 0 then
          some (nHeight, resetMap zerocoin)
        else
          match loadMap around.zerocoinDB pprev.nAccumulatorCheckpoint with
          | none => none
          | some mapAccumulators => some (nHeight, mapAccumulators)

structure Calculated where
  nCheckpoint : UInt256
  mapAccumulators : AccumulatorMap
  /-- The heights of the blocks whose mints have been added. -/
  accumulated : List Nat

/-- The variables of the loop over the blocks. -/
structure Progress where
  mapAccumulators : AccumulatorMap
  nTotalMintsFound : Nat
  accumulated : List Nat

/-- The loop over the blocks, with the number of rounds that are left. -/
def accumulateBlocks (params : CChainParams) (zerocoin : Zerocoin)
    (around : Surroundings) (chainActive : List CBlock) :
    Nat → Nat → Progress → Option Progress
  | 0, _, progress => some progress
  | rounds + 1, nHeight, progress =>
      if around.shutdownRequested nHeight then
        none
      else if nHeight < params.nZerocoinStartHeight then
        accumulateBlocks params zerocoin around chainActive rounds
          (nHeight + 1) progress
      else if !around.readBlockFromDisk nHeight then
        none
      else
        match chainActive[nHeight]?.bind blockToPubcoinList with
        | none => none
        | some listPubcoins =>
            accumulateBlocks params zerocoin around chainActive rounds
              (nHeight + 1)
              ⟨listPubcoins.foldl (accumulate zerocoin)
                  progress.mapAccumulators,
                progress.nTotalMintsFound + listPubcoins.length,
                progress.accumulated ++ [nHeight]⟩

/-- `CalculateAccumulatorCheckpoint`. -/
def calculateAccumulatorCheckpoint (params : CChainParams)
    (zerocoin : Zerocoin) (around : Surroundings) (chainActive : List CBlock)
    (nHeight : Nat) (mapAccumulators : AccumulatorMap) : Option Calculated :=
  if nHeight < params.nBlockZerocoinV2 then
    some ⟨0, mapAccumulators, []⟩
  else
    match chainActive[nHeight - 1]? with
    | none => none
    | some pprev =>
        if nHeight % 10 ≠ 0 then
          some ⟨pprev.nAccumulatorCheckpoint, mapAccumulators, []⟩
        else
          match initializeAccumulators params zerocoin around chainActive
              nHeight with
          | none => none
          | some (nHeightCheckpoint, mapAccumulators) =>
              if nHeightCheckpoint < 20 then
                some ⟨pprev.nAccumulatorCheckpoint, mapAccumulators, []⟩
              else
                let first := (nHeightCheckpoint - 20).toNat
                match accumulateBlocks params zerocoin around chainActive
                    (nHeight - 10 - first) first
                    ⟨mapAccumulators, 0, []⟩ with
                | none => none
                | some progress =>
                    some ⟨if progress.nTotalMintsFound = 0 then
                        pprev.nAccumulatorCheckpoint
                      else
                        getCheckpoint zerocoin progress.mapAccumulators,
                      progress.mapAccumulators, progress.accumulated⟩

/--
`ValidateAccumulatorCheckpoint`, for a block on top of the active chain; the
accumulators that it leaves, if the block passes.
-/
def validateAccumulatorCheckpoint (params : CChainParams)
    (zerocoin : Zerocoin) (around : Surroundings) (chainActive : List CBlock)
    (block : CBlock) (fVerifyingBlocks : Bool)
    (mapAccumulators : AccumulatorMap) : Option AccumulatorMap :=
  let nHeight := chainActive.length
  if nHeight < params.nBlockZerocoinV2 || fVerifyingBlocks then
    some mapAccumulators
  else if nHeight % 10 = 0 then
    match calculateAccumulatorCheckpoint params zerocoin around chainActive
        nHeight mapAccumulators with
    | none => none
    | some calculated =>
        if calculated.nCheckpoint ≠ block.nAccumulatorCheckpoint then none
        else some calculated.mapAccumulators
  else
    match chainActive[nHeight - 1]? with
    | none => none
    | some pprev =>
        if block.nAccumulatorCheckpoint ≠ pprev.nAccumulatorCheckpoint then
          none
        else
          some mapAccumulators

/-! ## Checksums -/

/-- Checksums, one after the other. -/
def packed (checksums : List UInt32) : UInt256 :=
  checksums.foldl (fun nCheckpoint checksum =>
    nCheckpoint <<< 32 ||| BitVec.ofNat 256 checksum.toNat) 0

theorem getCheckpoint_eq (zerocoin : Zerocoin)
    (mapAccumulators : AccumulatorMap) :
    getCheckpoint zerocoin mapAccumulators =
      packed (zerocoinDenomList.map fun denom =>
        zerocoin.getChecksum (mapAccumulators denom)) := rfl

theorem shift_or_toNat {n : UInt256} (small : n.toNat < 2 ^ 224)
    (checksum : UInt32) :
    (n <<< 32 ||| BitVec.ofNat 256 checksum.toNat).toNat =
      n.toNat * 2 ^ 32 + checksum.toNat := by
  have bound := checksum.toNat_lt
  rw [BitVec.toNat_or, BitVec.toNat_shiftLeft, BitVec.toNat_ofNat,
    Nat.mod_eq_of_lt (by rw [Nat.shiftLeft_eq]; omega),
    Nat.mod_eq_of_lt (by omega), ← Nat.shiftLeft_add_eq_or_of_lt bound,
    Nat.shiftLeft_eq]

theorem packed_concat (checksums : List UInt32) (checksum : UInt32) :
    packed (checksums ++ [checksum]) =
      packed checksums <<< 32 ||| BitVec.ofNat 256 checksum.toNat := by
  unfold packed
  rw [List.foldl_append]
  rfl

theorem packed_lt (checksums : List UInt32) (few : checksums.length ≤ 8) :
    (packed checksums).toNat < 2 ^ (32 * checksums.length) := by
  induction checksums using List.reverseRecOn with
  | nil => decide
  | append_singleton checksums checksum ih =>
      rw [List.length_append, List.length_singleton] at few ⊢
      have before := ih (by omega)
      have small : (packed checksums).toNat < 2 ^ 224 :=
        before.trans_le (Nat.pow_le_pow_right (by decide) (by omega))
      have bound := checksum.toNat_lt
      rw [packed_concat, shift_or_toNat small, Nat.mul_add, Nat.mul_one,
        Nat.pow_add]
      calc
        (packed checksums).toNat * 2 ^ 32 + checksum.toNat
          < (packed checksums).toNat * 2 ^ 32 + 2 ^ 32 :=
            Nat.add_lt_add_left bound _
        _ = ((packed checksums).toNat + 1) * 2 ^ 32 :=
            (Nat.succ_mul _ _).symm
        _ ≤ 2 ^ (32 * checksums.length) * 2 ^ 32 :=
            Nat.mul_le_mul_right _ before

theorem packed_small {checksums : List UInt32}
    (few : checksums.length ≤ 7) : (packed checksums).toNat < 2 ^ 224 :=
  (packed_lt checksums (by omega)).trans_le
    (Nat.pow_le_pow_right (by decide) (by omega))

/-- A shift drops the last checksums. -/
theorem packed_shift (front back : List UInt32)
    (few : (front ++ back).length ≤ 8) :
    packed (front ++ back) >>> (32 * back.length) = packed front := by
  induction back using List.reverseRecOn with
  | nil => rw [List.append_nil, List.length_nil, Nat.mul_zero,
      BitVec.ushiftRight_zero]
  | append_singleton back checksum ih =>
      rw [← List.append_assoc, List.length_append, List.length_singleton]
        at few
      have small : (packed (front ++ back)).toNat < 2 ^ 224 :=
        packed_small (by omega)
      have last : packed (front ++ back ++ [checksum]) >>> 32 =
          packed (front ++ back) := by
        apply BitVec.eq_of_toNat_eq
        have bound := checksum.toNat_lt
        rw [BitVec.toNat_ushiftRight, packed_concat, shift_or_toNat small,
          Nat.shiftRight_eq_div_pow]
        omega
      rw [← List.append_assoc, List.length_append, List.length_singleton,
        Nat.mul_add, Nat.add_comm, BitVec.shiftRight_add, last]
      exact ih (by omega)

theorem packed_last {front : List UInt32} (few : front.length ≤ 7)
    (checksum : UInt32) :
    UInt32.ofNat (packed (front ++ [checksum])).toNat = checksum := by
  rw [packed_concat, shift_or_toNat (packed_small few)]
  apply UInt32.toNat_inj.mp
  have bound := checksum.toNat_lt
  rw [UInt32.toNat_ofNat']
  omega

theorem mem_zerocoinDenomList (denom : Denomination) :
    denom ∈ zerocoinDenomList := by
  rcases denom with ⟨denomination, known⟩
  cases denomination with
  | error => exact absurd rfl known
  | one => exact .head _
  | five => exact .tail _ (.head _)
  | ten => exact .tail _ (.tail _ (.head _))
  | fifty => simp [zerocoinDenomList]
  | oneHundred => simp [zerocoinDenomList]
  | fiveHundred => simp [zerocoinDenomList]
  | oneThousand => simp [zerocoinDenomList]
  | fiveThousand => simp [zerocoinDenomList]

/-- A denomination finds its checksum in a checkpoint. -/
theorem parseChecksum_getCheckpoint (zerocoin : Zerocoin)
    (mapAccumulators : AccumulatorMap) (denom : Denomination) :
    parseChecksum (getCheckpoint zerocoin mapAccumulators) denom.val =
      zerocoin.getChecksum (mapAccumulators denom) := by
  rcases List.append_of_mem (mem_zerocoinDenomList denom) with
    ⟨front, back, parts⟩
  have lengths := congrArg List.length parts
  rw [List.length_append, List.length_cons,
    show zerocoinDenomList.length = 8 from rfl] at lengths
  have position : CoinDenomination.all.idxOf denom.val = front.length := by
    have distinct : zerocoinDenomList.Nodup := by decide
    rw [parts] at distinct
    have fresh : denom ∉ front := fun here =>
      (List.nodup_cons.mp (List.nodup_middle.mp distinct)).1
        (List.mem_append_left _ here)
    have all : CoinDenomination.all =
        zerocoinDenomList.map Subtype.val := rfl
    rw [all, parts, List.map_append, List.map_cons,
      List.idxOf_append_of_notMem, List.idxOf_cons_self, List.length_map,
      Nat.add_zero]
    intro here
    rcases List.mem_map.mp here with ⟨other, inFront, same⟩
    rw [Subtype.ext same] at inFront
    exact fresh inFront
  have count : CoinDenomination.all.length = 8 := rfl
  unfold parseChecksum
  dsimp only
  rw [position, count, if_pos (by omega),
    show 8 - 1 - front.length = back.length by omega, getCheckpoint_eq, parts,
    List.map_append, List.map_cons, List.append_cons]
  have dropped := packed_shift
    (front.map (fun denom => zerocoin.getChecksum (mapAccumulators denom)) ++
      [zerocoin.getChecksum (mapAccumulators denom)])
    (back.map fun denom => zerocoin.getChecksum (mapAccumulators denom))
    (by simp only [List.length_append, List.length_map,
      List.length_singleton]; omega)
  rw [List.length_map] at dropped
  rw [dropped]
  exact packed_last (by rw [List.length_map]; omega) _

/-! ## The database -/

/-- Each record is a value that occurs, under its checksum. -/
def Sound (zerocoin : Zerocoin) (values : Set CBigNum)
    (zerocoinDB : AccumulatorDB) : Prop :=
  ∀ nChecksum value, zerocoinDB nChecksum = some value →
    value ∈ values ∧ zerocoin.getChecksum value = nChecksum

/-- A sound database leads from a checkpoint back to its accumulators. -/
theorem loadMap_eq {zerocoin : Zerocoin} {values : Set CBigNum}
    (distinct : ∀ value ∈ values, ∀ other ∈ values,
      zerocoin.getChecksum value = zerocoin.getChecksum other →
        value = other)
    {zerocoinDB : AccumulatorDB} (sound : Sound zerocoin values zerocoinDB)
    {mapAccumulators loaded : AccumulatorMap}
    (occur : ∀ denom, mapAccumulators denom ∈ values)
    (found : loadMap zerocoinDB (getCheckpoint zerocoin mapAccumulators) =
      some loaded) : loaded = mapAccumulators := by
  unfold loadMap at found
  dsimp only at found
  split at found
  case isTrue complete =>
    funext denom
    have stored := List.all_eq_true.mp complete denom
      (mem_zerocoinDenomList denom)
    rcases Option.isSome_iff_exists.mp stored with ⟨value, isStored⟩
    rw [← Option.some.inj found]
    dsimp only
    rw [isStored, Option.getD_some]
    rcases sound _ _ isStored with ⟨isValue, checksum⟩
    rw [parseChecksum_getCheckpoint] at checksum
    exact distinct value isValue _ (occur denom) checksum
  · cases found

end PrivateDatagram.Chainstate.Accumulators
