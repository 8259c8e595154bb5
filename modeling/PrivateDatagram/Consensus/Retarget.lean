import PrivateDatagram.Consensus.CompactForm

/-!
# The next target

`GetNextWorkRequired` derives the bits of the next block from the chain.  Up
to the last proof-of-work block it averages the last targets and scales them
with the time that the blocks took.  Past it, the previous target moves toward
the target spacing.

The factor of the second branch has 64 bits, and the operator that takes it is
the one with a factor of 32 bits.  Its product is cut to 256 bits.
-/

namespace PrivateDatagram.Consensus.Retarget

open Wire.Serialize WideOperators ProofOfWork CompactForm

/-! ## The chain -/

/-- What is read of a `CBlockIndex`; behind it in a chain stands `pprev`. -/
structure CBlockIndex where
  nHeight : Int
  nTime : UInt32
  nBits : UInt32
deriving DecidableEq, Repr

namespace CBlockIndex

def getBlockTime (pindex : CBlockIndex) : Int := pindex.nTime.toNat

/-- The target that `SetCompact` reads from the bits. -/
def bnTarget (pindex : CBlockIndex) : UInt256 :=
  (setCompact pindex.nBits).bnTarget

end CBlockIndex

structure RetargetParams where
  bnProofOfWorkLimit : UInt256
  nLastPOWBlock : Int
  nTargetSpacing : Int

/-- An `int64_t` where a `uint32_t` is expected. -/
def toUInt32 (n : Int) : UInt32 :=
  UInt32.ofNat (n % 2 ^ 32).toNat

/-- An `int64_t` where a `uint256` is expected, through `uint64_t`. -/
def ofInt64 (n : Int) : UInt256 :=
  BitVec.ofNat 256 (n % 2 ^ 64).toNat

/-! ## The average of the last targets -/

def pastBlocksMin : Int := 24

def pastBlocksMax : Int := 24

/-- The variables of the loop. -/
structure Averaging where
  pastDifficultyAverage : UInt256
  pastDifficultyAveragePrev : UInt256
  nActualTimespan : Int
  lastBlockTime : Int
  countBlocks : Int
deriving DecidableEq, Repr

/-- The average with one block more; none is a division by zero. -/
def averaged (past : Averaging) (reading : CBlockIndex) : Option UInt256 :=
  if past.countBlocks = 1 then
    some reading.bnTarget
  else
    dividedBy
      (plus
        (timesWord past.pastDifficultyAveragePrev
          (toUInt32 past.countBlocks))
        reading.bnTarget)
      (ofInt64 (past.countBlocks + 1))

/-- One block of the loop. -/
def readBlock (past : Averaging) (reading : CBlockIndex) :
    Option Averaging :=
  let past := { past with countBlocks := past.countBlocks + 1 }
  (if past.countBlocks ≤ pastBlocksMin then
    (averaged past reading).map fun average =>
      { past with
        pastDifficultyAverage := average
        pastDifficultyAveragePrev := average }
  else some past).map fun past =>
    { past with
      nActualTimespan :=
        if past.lastBlockTime > 0 then
          past.nActualTimespan + (past.lastBlockTime - reading.getBlockTime)
        else past.nActualTimespan
      lastBlockTime := reading.getBlockTime }

/-- The loop over the chain, from the block number `i` on. -/
def readBlocks (i : Nat) : List CBlockIndex → Averaging → Option Averaging
  | [], past => some past
  | reading :: pprev, past =>
      if ¬ reading.nHeight > 0 then some past
      else if pastBlocksMax > 0 ∧ i > pastBlocksMax then some past
      else (readBlock past reading).bind (readBlocks (i + 1) pprev)

/-- The branch of proof of work. -/
def darkGravity (params : RetargetParams) (chain : List CBlockIndex) :
    Option UInt32 :=
  (readBlocks 1 chain ⟨0, 0, 0, 0, 0⟩).bind fun past =>
    let nTargetTimespan := past.countBlocks * params.nTargetSpacing
    let nActualTimespan :=
      if past.nActualTimespan < nTargetTimespan.tdiv 3 then
        nTargetTimespan.tdiv 3
      else past.nActualTimespan
    let nActualTimespan :=
      if nActualTimespan > nTargetTimespan * 3 then nTargetTimespan * 3
      else nActualTimespan
    let bnNew :=
      timesWord past.pastDifficultyAverage (toUInt32 nActualTimespan)
    (dividedBy bnNew (ofInt64 nTargetTimespan)).bind fun bnNew =>
      getCompact
        (if bnNew > params.bnProofOfWorkLimit then params.bnProofOfWorkLimit
        else bnNew) false

/-! ## The branch of proof of stake -/

def bnTargetLimit : UInt256 := BitVec.allOnes 256 >>> 24

def nTargetSpacing : Int := 60

def nTargetTimespan : Int := 60 * 40

def nInterval : Int := nTargetTimespan.tdiv nTargetSpacing

/-- `nActualSpacing`. -/
def actualSpacing (last pprev : CBlockIndex) : Int :=
  let spacing := last.getBlockTime - pprev.getBlockTime
  if spacing < 0 then 1 else spacing

def proofOfStakeWork (last pprev : CBlockIndex) : Option UInt32 :=
  let nActualSpacing := actualSpacing last pprev
  let bnNew := timesWord last.bnTarget
    (toUInt32
      ((nInterval - 1) * nTargetSpacing + nActualSpacing + nActualSpacing))
  (dividedBy bnNew (ofInt64 ((nInterval + 1) * nTargetSpacing))).bind
    fun bnNew =>
      getCompact
        (if bnNew ≤ 0 ∨ bnNew > bnTargetLimit then bnTargetLimit else bnNew)
        false

/--
`GetNextWorkRequired`, on the chain from the last block back.  None is an
exception, a failed assertion or a missing `pprev`.
-/
def getNextWorkRequired (params : RetargetParams) :
    List CBlockIndex → Option UInt32
  | [] => getCompact params.bnProofOfWorkLimit false
  | last :: older =>
      if last.nHeight = 0 ∨ last.nHeight < pastBlocksMin then
        getCompact params.bnProofOfWorkLimit false
      else if last.nHeight > params.nLastPOWBlock then
        older.head?.bind (proofOfStakeWork last)
      else
        darkGravity params (last :: older)

/-! ## The rule over unbounded numbers -/

/-- The limit of the branch, `2 ^ 232 - 1`. -/
def targetLimit : Nat := 2 ^ 232 - 1

/-- The time between two blocks, one second when it is negative. -/
def gap (last pprev : CBlockIndex) : Nat :=
  if last.nTime < pprev.nTime then 1
  else last.nTime.toNat - pprev.nTime.toNat

/-- The limit in place of zero and of everything above it. -/
def limited (quotient : Nat) : Nat :=
  if quotient = 0 ∨ targetLimit < quotient then targetLimit else quotient

def retargeted (target gap : Nat) : Nat :=
  limited (target * (2340 + 2 * gap) / 2460)

/-- The factor keeps to 32 bits and the product to 256. -/
structure Fits (target gap : Nat) : Prop where
  factor : 2340 + 2 * gap < 2 ^ 32
  product : target * (2340 + 2 * gap) < 2 ^ 256

/-- The block is past the last proof-of-work block. -/
structure PastProofOfWork (params : RetargetParams) (last : CBlockIndex) :
    Prop where
  high : pastBlocksMin ≤ last.nHeight
  stake : params.nLastPOWBlock < last.nHeight

theorem actualSpacing_eq_gap (last pprev : CBlockIndex) :
    actualSpacing last pprev = gap last pprev := by
  have spacing : last.getBlockTime - pprev.getBlockTime =
      (last.nTime.toNat : Int) - pprev.nTime.toNat := rfl
  simp only [actualSpacing, gap]
  rcases UInt32.lt_or_le last.nTime pprev.nTime with before | after
  · have less := UInt32.lt_iff_toNat_lt.mp before
    rw [if_pos before, if_pos (by omega)]
    rfl
  · have least := UInt32.le_iff_toNat_le.mp after
    rw [if_neg (UInt32.not_lt.mpr after), if_neg (by omega)]
    omega

theorem toNat_bnTargetLimit : bnTargetLimit.toNat = targetLimit := by
  decide +kernel

theorem limited_le (quotient : Nat) : limited quotient ≤ targetLimit := by
  rw [limited]
  split_ifs with out
  · exact Nat.le_refl _
  · omega

/-- The tests of the branch are those of the rule. -/
theorem limited_target {quotient : Nat} (small : quotient < 2 ^ 256) :
    (if BitVec.ofNat 256 quotient ≤ 0 ∨ BitVec.ofNat 256 quotient >
        bnTargetLimit then bnTargetLimit else BitVec.ofNat 256 quotient) =
      BitVec.ofNat 256 (limited quotient) := by
  have number : (BitVec.ofNat 256 quotient).toNat = quotient := by
    rw [BitVec.toNat_ofNat, Nat.mod_eq_of_lt small]
  have limit : BitVec.ofNat 256 targetLimit = bnTargetLimit := by
    decide +kernel
  have tests : BitVec.ofNat 256 quotient ≤ 0 ∨
      BitVec.ofNat 256 quotient > bnTargetLimit ↔
        quotient = 0 ∨ targetLimit < quotient := by
    have zero : (0 : UInt256).toNat = 0 := rfl
    rw [BitVec.le_def, gt_iff_lt, BitVec.lt_def, number, toNat_bnTargetLimit,
      zero, Nat.le_zero]
  rw [limited]
  by_cases out : quotient = 0 ∨ targetLimit < quotient
  · rw [if_pos out, if_pos (tests.mpr out), limit]
  · rw [if_neg out, if_neg (fun met => out (tests.mp met))]

/-- The code, with its factor and its product as they are cut. -/
theorem proofOfStakeWork_eq (last pprev : CBlockIndex) :
    proofOfStakeWork last pprev =
      getCompact (BitVec.ofNat 256 (limited
        (last.bnTarget.toNat * ((2340 + 2 * gap last pprev) % 2 ^ 32) %
          2 ^ 256 / 2460))) false := by
  have factor : (toUInt32 ((nInterval - 1) * nTargetSpacing +
      actualSpacing last pprev + actualSpacing last pprev)).toNat =
        (2340 + 2 * gap last pprev) % 2 ^ 32 := by
    have constants : (nInterval - 1) * nTargetSpacing = 2340 := by decide
    rw [toUInt32, actualSpacing_eq_gap, constants, UInt32.toNat_ofNat']
    omega
  have divisor : (ofInt64 ((nInterval + 1) * nTargetSpacing)).toNat = 2460 := by
    decide
  have small : (last.bnTarget.toNat * ((2340 + 2 * gap last pprev) % 2 ^ 32) %
      2 ^ 256) / 2460 < 2 ^ 256 :=
    Nat.lt_of_le_of_lt (Nat.div_le_self _ _)
      (Nat.mod_lt _ (Nat.two_pow_pos _))
  simp only [proofOfStakeWork]
  rw [dividedBy_eq (by rw [divisor]; decide), divisor, toNat_timesWord, factor,
    Option.bind_some, limited_target small]

theorem getNextWorkRequired_eq {params : RetargetParams} {last : CBlockIndex}
    (past : PastProofOfWork params last) (pprev : CBlockIndex)
    (older : List CBlockIndex) :
    getNextWorkRequired params (last :: pprev :: older) =
      proofOfStakeWork last pprev := by
  have high : ¬ (last.nHeight = 0 ∨ last.nHeight < pastBlocksMin) := by
    have above := past.high
    have positive : 0 < pastBlocksMin := by decide
    omega
  rw [getNextWorkRequired, if_neg high, if_pos past.stake]
  rfl

/-- Where nothing is cut, the result is that of the rule. -/
theorem getNextWorkRequired_of_fits {params : RetargetParams}
    {last pprev : CBlockIndex} (older : List CBlockIndex)
    (past : PastProofOfWork params last)
    (fits : Fits last.bnTarget.toNat (gap last pprev)) :
    getNextWorkRequired params (last :: pprev :: older) =
      getCompact (BitVec.ofNat 256
        (retargeted last.bnTarget.toNat (gap last pprev))) false := by
  rw [getNextWorkRequired_eq past, proofOfStakeWork_eq,
    Nat.mod_eq_of_lt fits.factor, Nat.mod_eq_of_lt fits.product]
  rfl

/-! ## A longer gap -/

theorem quotient_eq_zero_iff {target : Nat} (positive : 0 < target)
    (gap : Nat) :
    target * (2340 + 2 * gap) / 2460 = 0 ↔ target = 1 ∧ gap < 60 := by
  rw [Nat.div_eq_zero_iff]
  constructor
  · rintro (zero | small)
    · cases zero
    · rcases Nat.lt_or_ge target 2 with one | more
      · have unit : target = 1 := by omega
        rw [unit] at small
        exact ⟨unit, by omega⟩
      · have double : 2 * (2340 + 2 * gap) ≤ target * (2340 + 2 * gap) :=
          Nat.mul_le_mul_right _ more
        omega
  · rintro ⟨rfl, short⟩
    exact .inr (by omega)

/-- Only a quotient that was zero is above one that is not. -/
theorem retargeted_le {target shorter longer : Nat} (positive : 0 < target)
    (less : shorter ≤ longer)
    (kept : ¬ (target = 1 ∧ shorter < 60 ∧ 60 ≤ longer)) :
    retargeted target shorter ≤ retargeted target longer := by
  have grows : target * (2340 + 2 * shorter) / 2460 ≤
      target * (2340 + 2 * longer) / 2460 :=
    Nat.div_le_div_right (Nat.mul_le_mul_left _ (by omega))
  have zeroShort := quotient_eq_zero_iff positive shorter
  have zeroLong := quotient_eq_zero_iff positive longer
  have same : target * (2340 + 2 * shorter) / 2460 = 0 →
      target * (2340 + 2 * longer) / 2460 = 0 := by
    intro none
    rcases zeroShort.mp none with ⟨one, short⟩
    exact zeroLong.mpr ⟨one, by omega⟩
  rw [retargeted, retargeted]
  generalize target * (2340 + 2 * shorter) / 2460 = before at grows same
  generalize target * (2340 + 2 * longer) / 2460 = after at grows same
  by_cases out : after = 0 ∨ targetLimit < after
  · have limit : limited after = targetLimit := if_pos out
    rw [limit]
    exact limited_le before
  · have inside : ¬ (before = 0 ∨ targetLimit < before) := by
      rintro (none | above)
      · exact out (.inl (same none))
      · exact out (.inr (Nat.lt_of_lt_of_le above grows))
    rw [limited, limited, if_neg out, if_neg inside]
    exact grows

/-- What the bits of a retargeted number decode to. -/
theorem setCompact_retargeted {quotient : Nat} {nBits : UInt32}
    (encoded : getCompact (BitVec.ofNat 256 (limited quotient)) false =
      some nBits) :
    (setCompact nBits).bnTarget.toNat = truncated (limited quotient) := by
  have small : limited quotient < 2 ^ 256 :=
    Nat.lt_of_le_of_lt (limited_le quotient) (by decide +kernel)
  have decoded := setCompact_getCompact encoded
  rw [BitVec.toNat_ofNat, Nat.mod_eq_of_lt small] at decoded
  exact decoded

/--
While nothing is cut, the result is the compact form of the exact quotient,
or of the limit.  A longer gap then does not give a harder target, unless the
target is one and the quotient of the shorter gap alone is zero.
-/
theorem retarget_exact (params : RetargetParams) :
    (∀ (last pprev : CBlockIndex) (older : List CBlockIndex),
      PastProofOfWork params last →
      Fits last.bnTarget.toNat (gap last pprev) →
        getNextWorkRequired params (last :: pprev :: older) =
          getCompact (BitVec.ofNat 256
            (retargeted last.bnTarget.toNat (gap last pprev))) false) ∧
    ∀ (last pprev : CBlockIndex) (older : List CBlockIndex)
      (last' pprev' : CBlockIndex) (older' : List CBlockIndex),
      PastProofOfWork params last → PastProofOfWork params last' →
      0 < last.bnTarget.toNat → last'.bnTarget = last.bnTarget →
      Fits last.bnTarget.toNat (gap last pprev) →
      Fits last.bnTarget.toNat (gap last' pprev') →
      gap last pprev ≤ gap last' pprev' →
      ¬ (last.bnTarget.toNat = 1 ∧ gap last pprev < 60 ∧
        60 ≤ gap last' pprev') →
        ∃ nBits nBits',
          getNextWorkRequired params (last :: pprev :: older) = some nBits ∧
          getNextWorkRequired params (last' :: pprev' :: older') =
            some nBits' ∧
          (setCompact nBits).bnTarget ≤ (setCompact nBits').bnTarget := by
  constructor
  · intro last pprev older past fits
    exact getNextWorkRequired_of_fits older past fits
  · intro last pprev older last' pprev' older' past past' positive same fits
      fits' less kept
    have short := getNextWorkRequired_of_fits older past fits
    have long := getNextWorkRequired_of_fits older' past' (same ▸ fits')
    rw [same] at long
    rcases getCompact_eq (BitVec.ofNat 256
      (retargeted last.bnTarget.toNat (gap last pprev))) with
      ⟨nBits, encoded, _⟩
    rcases getCompact_eq (BitVec.ofNat 256
      (retargeted last.bnTarget.toNat (gap last' pprev'))) with
      ⟨nBits', encoded', _⟩
    refine ⟨nBits, nBits', short.trans encoded, long.trans encoded', ?_⟩
    rw [BitVec.le_def, setCompact_retargeted encoded,
      setCompact_retargeted encoded']
    apply truncated_monotone
    exact retargeted_le positive less kept

/-! ## Cuts on the main network -/

/-- `CMainParams`. -/
def mainParams : RetargetParams :=
  ⟨BitVec.allOnes 256 >>> 20, 300, 60⟩

/-- A block after the last proof-of-work block. -/
def blockAt (nTime nBits : UInt32) : CBlockIndex :=
  ⟨301, nTime, nBits⟩

theorem blockAt_past (nTime nBits : UInt32) :
    PastProofOfWork mainParams (blockAt nTime nBits) :=
  ⟨by change (24 : Int) ≤ 301; decide, by change (300 : Int) < 301; decide⟩

/-- Equal bits come from numbers with equal leading bytes. -/
theorem truncated_eq_of_getCompact_eq {left right : Nat}
    (same : getCompact (BitVec.ofNat 256 (limited left)) false =
      getCompact (BitVec.ofNat 256 (limited right)) false) :
    truncated (limited left) = truncated (limited right) := by
  rcases getCompact_eq (BitVec.ofNat 256 (limited left)) with
    ⟨nBits, encoded, _⟩
  rw [← setCompact_retargeted encoded]
  rw [encoded] at same
  exact setCompact_retargeted same.symm

/-- An exact result has the leading bytes of what is cut. -/
theorem truncated_of_exact {params : RetargetParams}
    {last pprev : CBlockIndex} {older : List CBlockIndex}
    (past : PastProofOfWork params last)
    (exact' : getNextWorkRequired params (last :: pprev :: older) =
      getCompact (BitVec.ofNat 256
        (retargeted last.bnTarget.toNat (gap last pprev))) false) :
    truncated (limited
        (last.bnTarget.toNat * ((2340 + 2 * gap last pprev) % 2 ^ 32) %
          2 ^ 256 / 2460)) =
      truncated (retargeted last.bnTarget.toNat (gap last pprev)) := by
  rw [getNextWorkRequired_eq past, proofOfStakeWork_eq] at exact'
  exact truncated_eq_of_getCompact_eq exact'

theorem retarget_exact_minutes :
    getNextWorkRequired mainParams
        [blockAt 60 0x1c00ffff, blockAt 0 0x1c00ffff] =
      getCompact (BitVec.ofNat 256
        (retargeted (blockAt 60 0x1c00ffff).bnTarget.toNat
          (gap (blockAt 60 0x1c00ffff) (blockAt 0 0x1c00ffff)))) false ∧
    ∃ nBits nBits',
      getNextWorkRequired mainParams
          [blockAt 60 0x1c00ffff, blockAt 0 0x1c00ffff] = some nBits ∧
      getNextWorkRequired mainParams
          [blockAt 120 0x1c00ffff, blockAt 0 0x1c00ffff] = some nBits' ∧
      (setCompact nBits).bnTarget ≤ (setCompact nBits').bnTarget := by
  have short : Fits (blockAt 60 0x1c00ffff).bnTarget.toNat
      (gap (blockAt 60 0x1c00ffff) (blockAt 0 0x1c00ffff)) :=
    ⟨by decide, by decide +kernel⟩
  have long : Fits (blockAt 60 0x1c00ffff).bnTarget.toNat
      (gap (blockAt 120 0x1c00ffff) (blockAt 0 0x1c00ffff)) :=
    ⟨by decide, by decide +kernel⟩
  exact ⟨(retarget_exact mainParams).1 _ _ [] (blockAt_past _ _) short,
    (retarget_exact mainParams).2 _ _ [] (blockAt 120 0x1c00ffff) _ []
      (blockAt_past _ _) (blockAt_past _ _) (by decide +kernel) rfl short long
      (by decide) (by decide +kernel)⟩

/--
A gap of 68 years cuts the factor, one of 194 days at the limit cuts the
product, and at a target of one a gap of a minute is harder than none.
-/
theorem retarget_cut :
    (¬ ∀ (params : RetargetParams) (last pprev : CBlockIndex)
        (older : List CBlockIndex),
      PastProofOfWork params last →
      0 < last.bnTarget.toNat → last.bnTarget.toNat ≤ targetLimit →
      last.bnTarget.toNat * (2340 + 2 * gap last pprev) < 2 ^ 256 →
        getNextWorkRequired params (last :: pprev :: older) =
          getCompact (BitVec.ofNat 256
            (retargeted last.bnTarget.toNat (gap last pprev))) false) ∧
    (¬ ∀ (params : RetargetParams) (last pprev : CBlockIndex)
        (older : List CBlockIndex),
      PastProofOfWork params last →
      0 < last.bnTarget.toNat → last.bnTarget.toNat ≤ targetLimit →
      2340 + 2 * gap last pprev < 2 ^ 32 →
        getNextWorkRequired params (last :: pprev :: older) =
          getCompact (BitVec.ofNat 256
            (retargeted last.bnTarget.toNat (gap last pprev))) false) ∧
    ¬ ∀ (params : RetargetParams) (last pprev : CBlockIndex)
        (older : List CBlockIndex) (last' pprev' : CBlockIndex)
        (older' : List CBlockIndex),
      PastProofOfWork params last → PastProofOfWork params last' →
      0 < last.bnTarget.toNat → last.bnTarget.toNat ≤ targetLimit →
      last'.bnTarget = last.bnTarget →
      Fits last.bnTarget.toNat (gap last pprev) →
      Fits last.bnTarget.toNat (gap last' pprev') →
      gap last pprev ≤ gap last' pprev' →
        ∃ nBits nBits',
          getNextWorkRequired params (last :: pprev :: older) = some nBits ∧
          getNextWorkRequired params (last' :: pprev' :: older') =
            some nBits' ∧
          (setCompact nBits).bnTarget ≤ (setCompact nBits').bnTarget := by
  refine ⟨fun claim => ?_, fun claim => ?_, fun claim => ?_⟩
  · have exact' := claim mainParams (blockAt 2147482479 0x03010000)
      (blockAt 0 0x03010000) [] (blockAt_past _ _) (by decide +kernel)
      (by decide +kernel) (by decide +kernel)
    exact absurd (truncated_of_exact (blockAt_past _ _) exact')
      (by decide +kernel)
  · have exact' := claim mainParams (blockAt 16777216 0x1e00ffff)
      (blockAt 0 0x1e00ffff) [] (blockAt_past _ _) (by decide +kernel)
      (by decide +kernel) (by decide +kernel)
    exact absurd (truncated_of_exact (blockAt_past _ _) exact')
      (by decide +kernel)
  · have none : Fits (blockAt 0 0x01010000).bnTarget.toNat
        (gap (blockAt 0 0x01010000) (blockAt 0 0x01010000)) :=
      ⟨by decide, by decide +kernel⟩
    have minute : Fits (blockAt 0 0x01010000).bnTarget.toNat
        (gap (blockAt 60 0x01010000) (blockAt 0 0x01010000)) :=
      ⟨by decide, by decide +kernel⟩
    rcases claim mainParams (blockAt 0 0x01010000) (blockAt 0 0x01010000) []
      (blockAt 60 0x01010000) (blockAt 0 0x01010000) [] (blockAt_past _ _)
      (blockAt_past _ _) (by decide +kernel) (by decide +kernel) rfl none
      minute (by decide) with ⟨nBits, nBits', short, long, easier⟩
    rw [getNextWorkRequired_of_fits [] (blockAt_past _ _) none] at short
    rw [getNextWorkRequired_of_fits [] (blockAt_past _ _) minute] at long
    rw [BitVec.le_def, setCompact_retargeted short,
      setCompact_retargeted long] at easier
    exact absurd easier (by decide +kernel)

end PrivateDatagram.Consensus.Retarget
