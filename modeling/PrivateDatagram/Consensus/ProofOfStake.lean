import PrivateDatagram.Chainstate.Coins
import PrivateDatagram.Consensus.ProofOfWork
import PrivateDatagram.Consensus.StakeModifier

/-!
# Proof of stake

`Stake` searches the next seconds for a kernel hash below the weighted target,
behind two tests on the age of the coin.  `CheckProofOfStake` recomputes the
kernel hash of a block.  Both read the coin through a `CStakeInput`, an output
of a transaction or a zerocoin.

The script interpreter, the zerocoin library, the transaction index and the
files on disk are functions of the `Surroundings`.  A read out of range leaves
nothing, like an error of the source.
-/

namespace PrivateDatagram.Consensus.ProofOfStake

open Library.ByteFormat Wire.Serialize Wire.Transaction Chainstate.Coins
  ProofOfWork StakeModifier

/-! ## Constants -/

def nStakeMinAge : UInt32 := 60 * 60

def nHashDrift : Nat := 45

/-- `Params().Zerocoin_StartHeight()`. -/
def zerocoinStartHeight : Nat := 20

/-! ## Surroundings -/

inductive CoinDenomination where
  | error
  | one
  | five
  | ten
  | fifty
  | oneHundred
  | fiveHundred
  | oneThousand
  | fiveThousand
deriving DecidableEq, Repr

namespace CoinDenomination

def toInt64 : CoinDenomination → Int64
  | error => 0
  | one => 1
  | five => 5
  | ten => 10
  | fifty => 50
  | oneHundred => 100
  | fiveHundred => 500
  | oneThousand => 1000
  | fiveThousand => 5000

/-- `zerocoinDenomList`, the smallest first. -/
def all : List CoinDenomination :=
  [one, five, ten, fifty, oneHundred, fiveHundred, oneThousand, fiveThousand]

end CoinDenomination

inductive SpendType where
  | spend
  | stake
  | mnCollateral
  | signMessage
deriving DecidableEq, Repr

/-- What is read from a `libzerocoin::CoinSpend`. -/
structure CoinSpend where
  spendType : SpendType
  accumulatorChecksum : UInt32
  denomination : CoinDenomination
  /-- `getCoinSerialNumber().getuint256()`. -/
  serial : UInt256
deriving DecidableEq, Repr

structure CBlock where
  nTime : UInt32
  nBits : UInt32
  vtx : List CTransaction

structure Surroundings where
  hash256 : Bytes → UInt256
  /-- The blocks of `chainActive` by height. -/
  chainActive : List CBlockIndex
  mapBlockIndex : UInt256 → Option CBlockIndex
  /-- `GetTransaction` with `fAllowSlow`, and the hash of the block. -/
  getTransaction : UInt256 → Option (CTransaction × UInt256)
  /-- `nTime` of the block that `ReadBlockFromDisk` finds. -/
  readBlockFromDisk : CBlockIndex → Option UInt32
  /-- `VerifyScript` with the standard flags, for input 0. -/
  verifyScript : CScript → CScript → CTransaction → Bool
  /-- Nothing where the library throws. -/
  txInToZerocoinSpend : CTxIn → Option CoinSpend

/-! ## Stake inputs -/

inductive StakeInput where
  /-- `CZPivStake` of a spend, as a block carries it, not of a mint. -/
  | zpiv (spend : CoinSpend)
  /-- `CPivStake`. -/
  | piv (txFrom : CTransaction) (nPosition : UInt32)
deriving DecidableEq, Repr

/--
`ParseChecksum`, the 32 bits of one denomination.  For an unknown one the
shift wraps around and nothing is left.
-/
def parseChecksum (nChecksum : UInt256) (denomination : CoinDenomination) :
    UInt32 :=
  let pos := CoinDenomination.all.idxOf denomination
  if pos < CoinDenomination.all.length then
    let shift := 32 * (CoinDenomination.all.length - 1 - pos)
    UInt32.ofNat (nChecksum >>> shift).toNat
  else
    0

/--
The loop of `GetChecksumHeight`, at a given height.  At every tenth block it
skips forward by ten.  The rounds are bounded by the length of the chain.
-/
def checksumHeightFrom (around : Surroundings) (nChecksum : UInt32)
    (denomination : CoinDenomination) : Nat → Nat → Nat
  | 0, _ => 0
  | rounds + 1, nHeight =>
      match around.chainActive[nHeight]? with
      | none => 0
      | some pindex =>
          if parseChecksum pindex.block.nAccumulatorCheckpoint
              denomination = nChecksum then
            nHeight
          else if nHeight % 10 = 0 then
            checksumHeightFrom around nChecksum denomination rounds
              (nHeight + 10)
          else
            checksumHeightFrom around nChecksum denomination rounds
              (nHeight + 1)

/-- `GetChecksumHeight`. -/
def getChecksumHeight (around : Surroundings) (nChecksum : UInt32)
    (denomination : CoinDenomination) : Nat :=
  checksumHeightFrom around nChecksum denomination around.chainActive.length
    zerocoinStartHeight

/-- `CPivStake::GetIndexFrom`. -/
def pivIndexFrom (around : Surroundings) (txFrom : CTransaction) :
    Option CBlockIndex :=
  match around.getTransaction txFrom.getHash with
  | none => none
  | some (_, hashBlock) =>
      match around.mapBlockIndex hashBlock with
      | none => none
      | some pindex =>
          if around.chainActive[pindex.nHeight]? = some pindex then
            some pindex
          else
            none

/-- `CZPivStake::GetIndexFrom`, for a spend. -/
def zpivIndexFrom (around : Surroundings) (spend : CoinSpend) :
    Option CBlockIndex :=
  let nHeightChecksum := getChecksumHeight around spend.accumulatorChecksum
    spend.denomination
  if nHeightChecksum < zerocoinStartHeight then
    none
  else
    around.chainActive[nHeightChecksum]?

/-- The loop of `GetKernelStakeModifier`, over the blocks that follow. -/
def kernelModifierAfter (limit nStakeModifierTime : Int)
    (pindex : CBlockIndex) : List CBlockIndex → Option UInt64
  | [] =>
      if nStakeModifierTime < limit then none
      else some pindex.nStakeModifier
  | pindexNext :: rest =>
      if nStakeModifierTime < limit then
        kernelModifierAfter limit
          (if pindexNext.fGeneratedStakeModifier then pindexNext.getBlockTime
          else nStakeModifierTime)
          pindexNext rest
      else
        some pindex.nStakeModifier

/-- `GetKernelStakeModifier`. -/
def getKernelStakeModifier (around : Surroundings)
    (hashBlockFrom : UInt256) : Option UInt64 :=
  match around.mapBlockIndex hashBlockFrom with
  | none => none
  | some pindexFrom =>
      kernelModifierAfter (pindexFrom.getBlockTime + selectionInterval)
        pindexFrom.getBlockTime pindexFrom
        (around.chainActive.drop (pindexFrom.nHeight + 1))

/-- `nAccumulatorCheckpoint.Get64()`. -/
def get64 (value : UInt256) : UInt64 := UInt64.ofNat value.toNat

/-- The loop of `CZPivStake::GetModifier`, an hour past the block. -/
def checkpointAfter (nTimeBlockFrom : Int) :
    List CBlockIndex → Option UInt64
  | [] => none
  | pindex :: rest =>
      if pindex.getBlockTime - nTimeBlockFrom > 60 * 60 then
        some (get64 pindex.block.nAccumulatorCheckpoint)
      else
        checkpointAfter nTimeBlockFrom rest

namespace StakeInput

def getIndexFrom (around : Surroundings) : StakeInput → Option CBlockIndex
  | zpiv spend => zpivIndexFrom around spend
  | piv txFrom _ => pivIndexFrom around txFrom

def getValue : StakeInput → Option Int64
  | zpiv spend => some (spend.denomination.toInt64 * coin)
  | piv txFrom nPosition =>
      txFrom.vout[nPosition.toNat]?.map CTxOut.nValue

def getModifier (around : Surroundings) : StakeInput → Option UInt64
  | zpiv spend =>
      match zpivIndexFrom around spend with
      | none => none
      | some pindex =>
          checkpointAfter pindex.getBlockTime
            (around.chainActive.drop pindex.nHeight)
  | piv txFrom _ =>
      match pivIndexFrom around txFrom with
      | none => none
      | some pindexFrom =>
          getKernelStakeModifier around pindexFrom.getBlockHash

/-- The hash of the serial, or the outpoint. -/
def getUniqueness (around : Surroundings) : StakeInput → Bytes
  | zpiv spend =>
      uint256.encode (around.hash256 (uint256.encode spend.serial))
  | piv txFrom nPosition =>
      uint32.encode nPosition ++ uint256.encode txFrom.getHash

end StakeInput

/-! ## The kernel -/

/-- `stakeTargetHit`; the product is taken in 256 bits. -/
def stakeTargetHit (hashProofOfStake : UInt256) (nValueIn : Int64)
    (bnTargetPerCoinDay : UInt256) : Bool :=
  let bnCoinDayWeight : UInt256 :=
    BitVec.ofNat 256 nValueIn.toUInt64.toNat / 100
  hashProofOfStake < bnCoinDayWeight * bnTargetPerCoinDay

/-- The hash that `CheckStake` computes. -/
def kernelHash (around : Surroundings) (ssUniqueID : Bytes)
    (nStakeModifier : UInt64) (nTimeBlockFrom nTimeTx : UInt32) : UInt256 :=
  around.hash256 (uint64.encode nStakeModifier ++
    (uint32.encode nTimeBlockFrom ++ (ssUniqueID ++ uint32.encode nTimeTx)))

/-- `CheckStake`; the hash is returned besides. -/
def checkStake (around : Surroundings) (ssUniqueID : Bytes)
    (nValueIn : Int64) (nStakeModifier : UInt64) (bnTarget : UInt256)
    (nTimeBlockFrom nTimeTx : UInt32) : Bool :=
  stakeTargetHit
    (kernelHash around ssUniqueID nStakeModifier nTimeBlockFrom nTimeTx)
    nValueIn bnTarget

/--
The loop of `Stake`, from the latest time down.  `newBlock` says before which
rounds the chain has grown.
-/
def tryTimes (around : Surroundings) (ssUniqueID : Bytes) (nValueIn : Int64)
    (nStakeModifier : UInt64) (bnTarget : UInt256)
    (nTimeBlockFrom nTimeTx : UInt32) (newBlock : Nat → Bool) :
    Nat → Option UInt32
  | 0 => none
  | rounds + 1 =>
      let i := nHashDrift - (rounds + 1)
      if newBlock i then
        none
      else
        let nTryTime := nTimeTx + (rounds + 1).toUInt32
        if checkStake around ssUniqueID nValueIn nStakeModifier bnTarget
            nTimeBlockFrom nTryTime then
          some nTryTime
        else
          tryTimes around ssUniqueID nValueIn nStakeModifier bnTarget
            nTimeBlockFrom nTimeTx newBlock rounds

/-- `Stake`, with the new `nTimeTx` where it succeeds. -/
def stake (around : Surroundings) (stakeInput : StakeInput)
    (nBits nTimeBlockFrom nTimeTx : UInt32) (newBlock : Nat → Bool) :
    Option UInt32 :=
  if nTimeTx < nTimeBlockFrom then
    none
  else if nTimeBlockFrom + nStakeMinAge > nTimeTx then
    none
  else
    match stakeInput.getModifier around, stakeInput.getValue with
    | some nStakeModifier, some nValueIn =>
        tryTimes around (stakeInput.getUniqueness around) nValueIn
          nStakeModifier (setCompact nBits).bnTarget nTimeBlockFrom nTimeTx
          newBlock nHashDrift
    | _, _ => none

/-! ## The verifier -/

/-- The stake that a coinstake carries in its first input. -/
def stakeInputOf (around : Surroundings) (tx : CTransaction) :
    Option StakeInput :=
  match tx.vin, isZerocoinSpendTx tx with
  | txin :: _, some true =>
      match around.txInToZerocoinSpend txin with
      | none => none
      | some spend =>
          if spend.spendType ≠ .stake then none else some (.zpiv spend)
  | txin :: _, some false =>
      match around.getTransaction txin.prevout.hash with
      | none => none
      | some (txPrev, _) =>
          match txPrev.vout[txin.prevout.n.toNat]? with
          | none => none
          | some txout =>
              if !around.verifyScript txin.scriptSig txout.scriptPubKey
                  tx then
                none
              else
                some (.piv txPrev txin.prevout.n)
  | _, _ => none

structure AcceptedStake where
  stakeInput : StakeInput
  nBlockFromTime : UInt32
  hashProofOfStake : UInt256
deriving DecidableEq, Repr

/-- The kernel test at the end of `CheckProofOfStake`. -/
def checkKernel (around : Surroundings) (block : CBlock)
    (stakeInput : StakeInput) (nBlockFromTime : UInt32) :
    Option AcceptedStake :=
  match stakeInput.getModifier around, stakeInput.getValue with
  | some nStakeModifier, some nValueIn =>
      if checkStake around (stakeInput.getUniqueness around) nValueIn
          nStakeModifier (setCompact block.nBits).bnTarget nBlockFromTime
          block.nTime then
        some ⟨stakeInput, nBlockFromTime,
          kernelHash around (stakeInput.getUniqueness around) nStakeModifier
            nBlockFromTime block.nTime⟩
      else
        none
  | _, _ => none

/-- `CheckProofOfStake`. -/
def checkProofOfStake (around : Surroundings) (block : CBlock) :
    Option AcceptedStake :=
  match block.vtx[1]? with
  | none => none
  | some tx =>
      if !isCoinStake tx then
        none
      else
        match stakeInputOf around tx with
        | none => none
        | some stakeInput =>
            match stakeInput.getIndexFrom around with
            | none => none
            | some pindex =>
                match around.readBlockFromDisk pindex with
                | none => none
                | some nBlockFromTime =>
                    checkKernel around block stakeInput nBlockFromTime

/-! ## What the staker demands -/

/-- The conditions of `Stake`, for a kernel with the given times. -/
structure StakeConditions (around : Surroundings) (stakeInput : StakeInput)
    (nBits nTimeBlockFrom nTimeTx : UInt32) : Prop where
  notBefore : nTimeBlockFrom ≤ nTimeTx
  oldEnough : nTimeBlockFrom + nStakeMinAge ≤ nTimeTx
  belowTarget : ∃ nStakeModifier nValueIn,
    stakeInput.getModifier around = some nStakeModifier ∧
      stakeInput.getValue = some nValueIn ∧
      checkStake around (stakeInput.getUniqueness around) nValueIn
        nStakeModifier (setCompact nBits).bnTarget nTimeBlockFrom nTimeTx =
          true

theorem tryTimes_some {around : Surroundings} {ssUniqueID : Bytes}
    {nValueIn : Int64} {nStakeModifier : UInt64} {bnTarget : UInt256}
    {nTimeBlockFrom nTimeTx found : UInt32} {newBlock : Nat → Bool}
    {rounds : Nat}
    (ran : tryTimes around ssUniqueID nValueIn nStakeModifier bnTarget
      nTimeBlockFrom nTimeTx newBlock rounds = some found) :
    (∃ drift ≤ rounds, found = nTimeTx + drift.toUInt32) ∧
      checkStake around ssUniqueID nValueIn nStakeModifier bnTarget
        nTimeBlockFrom found = true := by
  induction rounds with
  | zero => cases ran
  | succ rounds ih =>
      rw [tryTimes] at ran
      dsimp only at ran
      split_ifs at ran with grown hit
      · cases ran
        exact ⟨⟨rounds + 1, Nat.le_refl _, rfl⟩, hit⟩
      · rcases ih ran with ⟨⟨drift, bound, same⟩, hit⟩
        exact ⟨⟨drift, Nat.le_succ_of_le bound, same⟩, hit⟩

/-- What `Stake` finds for such an input meets them, as long as the clock does
not wrap.  A mint of the wallet, which it is asked for, too, is left out. -/
theorem stake_meets_conditions {around : Surroundings}
    {stakeInput : StakeInput} {nBits nTimeBlockFrom nTimeTx found : UInt32}
    {newBlock : Nat → Bool} (clock : nTimeTx.toNat + nHashDrift < 2 ^ 32)
    (ran : stake around stakeInput nBits nTimeBlockFrom nTimeTx newBlock =
      some found) :
    StakeConditions around stakeInput nBits nTimeBlockFrom found := by
  unfold stake at ran
  split_ifs at ran with early young
  split at ran
  case h_2 => cases ran
  case h_1 nStakeModifier nValueIn modifier value =>
    rcases tryTimes_some ran with ⟨⟨drift, bound, rfl⟩, hit⟩
    have later : nTimeTx ≤ nTimeTx + drift.toUInt32 := by
      rw [UInt32.le_iff_toNat_le, UInt32.toNat_add]
      have small : drift.toUInt32.toNat = drift :=
        Nat.mod_eq_of_lt (by omega)
      rw [small, Nat.mod_eq_of_lt (by omega)]
      omega
    exact
      { notBefore := UInt32.le_trans (UInt32.not_lt.mp early) later
        oldEnough := UInt32.le_trans (UInt32.not_lt.mp young) later
        belowTarget := ⟨nStakeModifier, nValueIn, modifier, value, hit⟩ }

/-- Acceptance is the kernel test, and nothing about the age of the coin. -/
theorem checkProofOfStake_some {around : Surroundings} {block : CBlock}
    {accepted : AcceptedStake}
    (ran : checkProofOfStake around block = some accepted) :
    ∃ nStakeModifier nValueIn,
      accepted.stakeInput.getModifier around = some nStakeModifier ∧
        accepted.stakeInput.getValue = some nValueIn ∧
        checkStake around (accepted.stakeInput.getUniqueness around)
          nValueIn nStakeModifier (setCompact block.nBits).bnTarget
          accepted.nBlockFromTime block.nTime = true := by
  unfold checkProofOfStake at ran
  split at ran
  · cases ran
  split_ifs at ran
  split at ran
  · cases ran
  split at ran
  · cases ran
  split at ran
  · cases ran
  unfold checkKernel at ran
  split at ran
  case h_2 => cases ran
  case h_1 nStakeModifier nValueIn modifier value =>
    split_ifs at ran with hit
    cases ran
    exact ⟨nStakeModifier, nValueIn, modifier, value, hit⟩

/-- The time of the block that the staked coin comes from. -/
def sourceTime (around : Surroundings) (block : CBlock) : Option UInt32 :=
  match block.vtx[1]? with
  | none => none
  | some tx =>
      match stakeInputOf around tx with
      | none => none
      | some stakeInput =>
          match stakeInput.getIndexFrom around with
          | none => none
          | some pindex => around.readBlockFromDisk pindex

/-- The verifier hashes with that time. -/
theorem sourceTime_of_accepted {around : Surroundings} {block : CBlock}
    {accepted : AcceptedStake}
    (ran : checkProofOfStake around block = some accepted) :
    sourceTime around block = some accepted.nBlockFromTime := by
  unfold checkProofOfStake at ran
  split at ran
  · cases ran
  case h_2 tx second =>
    split_ifs at ran
    split at ran
    · cases ran
    case h_2 stakeInput carried =>
      split at ran
      · cases ran
      case h_2 pindex from' =>
        split at ran
        · cases ran
        case h_2 nBlockFromTime read =>
          unfold checkKernel at ran
          split at ran
          case h_2 => cases ran
          case h_1 =>
            split_ifs at ran
            cases ran
            simp only [sourceTime, second, carried, from', read]

/--
An accepted block meets the staker's conditions exactly when its time is at
least `nStakeMinAge` past the block of the coin, by the staker's own tests.
-/
theorem accepted_stake_conditions_iff (around : Surroundings)
    (block : CBlock) (accepted : AcceptedStake)
    (ran : checkProofOfStake around block = some accepted) :
    StakeConditions around accepted.stakeInput block.nBits
        accepted.nBlockFromTime block.nTime ↔
      ∀ nTimeBlockFrom, sourceTime around block = some nTimeBlockFrom →
        ¬ block.nTime < nTimeBlockFrom ∧
          ¬ nTimeBlockFrom + nStakeMinAge > block.nTime := by
  have source := sourceTime_of_accepted ran
  constructor
  · intro conditions nTimeBlockFrom found
    rw [source] at found
    cases found
    exact ⟨UInt32.not_lt.mpr conditions.notBefore,
      UInt32.not_lt.mpr conditions.oldEnough⟩
  · intro inTime
    rcases inTime _ source with ⟨notBefore, oldEnough⟩
    exact ⟨UInt32.not_lt.mp notBefore, UInt32.not_lt.mp oldEnough,
      checkProofOfStake_some ran⟩

/-! ## A coin that is too young -/

/-- A transaction whose output is staked. -/
def staked : CTransaction :=
  .ofMutable (fun _ => 5)
    { nVersion := 1
      type := txPayment
      vin := [⟨⟨7, 0⟩, [0x51], 0xffffffff⟩]
      vout := [⟨100000000, [0x51]⟩]
      metadata := .plain txMetaEmpty
      vfiles := []
      nLockTime := 0 }

/-- The coinstake that spends it. -/
def coinStake : CTransaction :=
  .ofMutable (fun _ => 6)
    { nVersion := 1
      type := txPayment
      vin := [⟨⟨5, 0⟩, [0x51], 0xffffffff⟩]
      vout := [⟨0, []⟩, ⟨100000000, [0x51]⟩]
      metadata := .plain txMetaEmpty
      vfiles := []
      nLockTime := 0 }

/-- The block of the coin, at time 10000, and the next, two hours later. -/
def chain : List CBlockIndex :=
  [⟨⟨21, 20, 10000, false, 0⟩, 0, 1, true⟩,
    ⟨⟨22, 21, 17200, false, 0⟩, 1, 2, true⟩]

def small : Surroundings where
  hash256 := weightedSum
  chainActive := chain
  mapBlockIndex := fun hash => chain.find? fun pindex =>
    pindex.getBlockHash = hash
  getTransaction := fun hash => if hash = 5 then some (staked, 21) else none
  readBlockFromDisk := fun pindex => some pindex.block.nTime
  verifyScript := fun _ _ _ => true
  txInToZerocoinSpend := fun _ => none

/-- A block with this coinstake. -/
def stakedAt (nTime : UInt32) : CBlock :=
  ⟨nTime, 0x1e0fffff, [staked, coinStake]⟩

theorem accepted_stake_conditions_iff_twoHours :
    ∃ accepted, checkProofOfStake small (stakedAt 17200) = some accepted ∧
      StakeConditions small accepted.stakeInput (stakedAt 17200).nBits
        accepted.nBlockFromTime (stakedAt 17200).nTime := by
  have ran : checkProofOfStake small (stakedAt 17200) =
      some ⟨.piv staked 0, 10000, 4316907628363282602873111⟩ := by
    decide +kernel
  refine ⟨_, ran, (accepted_stake_conditions_iff small _ _ ran).mpr ?_⟩
  intro nTimeBlockFrom found
  rw [sourceTime_of_accepted ran] at found
  cases found
  decide

/-- A block from before the coin existed is accepted. -/
theorem young_coin_accepted :
    ¬ ∀ (around : Surroundings) (block : CBlock) (accepted : AcceptedStake),
      checkProofOfStake around block = some accepted →
        StakeConditions around accepted.stakeInput block.nBits
          accepted.nBlockFromTime block.nTime := by
  intro claim
  have ran : checkProofOfStake small (stakedAt 9999) =
      some ⟨.piv staked 0, 10000, 4316907628363282602871968⟩ := by
    decide +kernel
  have conditions := claim small (stakedAt 9999) _ ran
  exact absurd conditions.notBefore (by decide)

end PrivateDatagram.Consensus.ProofOfStake
