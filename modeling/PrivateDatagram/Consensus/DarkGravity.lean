import PrivateDatagram.Consensus.ChainParams
import PrivateDatagram.Consensus.Retarget

/-!
# The average of the last targets

The branch of proof of work averages the targets of the last 24 blocks, each
new one with the weight one, and scales the average with the time between the
first and the last of them.  `averageFrom` is the same average over unbounded
numbers, and the code follows it as long as no sum and no product leaves the
256 bits.

The limits of the networks decide whether one can.  On the main network 4320
targets fit into 256 bits; on the network for regression tests not even three.
-/

namespace PrivateDatagram.Consensus.DarkGravity

open Wire.Serialize WideOperators
open Consensus.ChainParams (Network)
open Consensus.ProofOfWork (setCompact)
open CompactForm Retarget

/-! ## The networks -/

/-- The `CChainParams` of a network. -/
def params : Network → RetargetParams
  | .main => mainParams
  | .testnet => { mainParams with nLastPOWBlock := 4000000 }
  | .regtest =>
      { mainParams with
        nLastPOWBlock := 4000000
        bnProofOfWorkLimit := BitVec.allOnes 256 >>> 1 }
  | .unittest => mainParams

/-! ## The rule over unbounded numbers -/

/-- The average of `count` targets and more; the last one counts twice. -/
def averageFrom (count average : Nat) : List Nat → Nat
  | [] => average
  | target :: targets =>
      averageFrom (count + 1)
        ((average * (count + 1) + target) / (count + 2)) targets

/-- The average of the targets from the newest on. -/
def averageOf : List Nat → Nat
  | [] => 0
  | target :: targets => averageFrom 1 target targets

/-- No sum under an average leaves the 256 bits. -/
def SumsFit (count average : Nat) : List Nat → Prop
  | [] => True
  | target :: targets =>
      average * (count + 1) + target < 2 ^ 256 ∧
        SumsFit (count + 1)
          ((average * (count + 1) + target) / (count + 2)) targets

/-- The target timespan of 24 blocks. -/
def targetTimespan : Nat := 1440

/-- The time between two blocks, between a third of the target timespan and
three times as much. -/
def clampedTimespan (newest oldest : CBlockIndex) : Nat :=
  max (targetTimespan / 3) (min (targetTimespan * 3)
    (newest.nTime.toNat - oldest.nTime.toNat))

/-- The blocks that are read: the newest, those between, and the oldest. -/
structure Window where
  newest : CBlockIndex
  between : List CBlockIndex
  oldest : CBlockIndex
  size : between.length = 22

namespace Window

def blocks (window : Window) : List CBlockIndex :=
  window.newest :: (window.between ++ [window.oldest])

def targets (window : Window) : List Nat :=
  window.blocks.map fun pindex => pindex.bnTarget.toNat

def average (window : Window) : Nat := averageOf window.targets

def timespan (window : Window) : Nat :=
  clampedTimespan window.newest window.oldest

/-- The target before it is limited. -/
def retargeted (window : Window) : Nat :=
  window.average * window.timespan / targetTimespan

/-- No sum and no product leaves the 256 bits. -/
structure Fits (window : Window) : Prop where
  sums : SumsFit 1 window.newest.bnTarget.toNat window.targets.tail
  product : window.average * window.timespan < 2 ^ 256

end Window

/-! ## What the code computes on the way -/

/-- The sums of the loop, as numbers of any size, from a state on. -/
def loopSums : List CBlockIndex → Averaging → List Nat
  | [], _ => []
  | reading :: pprev, past =>
      (if past.countBlocks = 0 then []
      else [past.pastDifficultyAveragePrev.toNat *
        (past.countBlocks + 1).toNat + reading.bnTarget.toNat]) ++
          (readBlock past reading).elim [] (loopSums pprev)

/-- The sums and the product of the branch, as numbers of any size. -/
def intermediates (window : Window) : List Nat :=
  loopSums window.blocks ⟨0, 0, 0, 0, 0⟩ ++
    (readBlocks 1 window.blocks ⟨0, 0, 0, 0, 0⟩).elim [] fun past =>
      [past.pastDifficultyAverage.toNat * window.timespan]

/-- A chain of at least 25 blocks up to the last proof-of-work block, with
targets in range and positive times. -/
structure Chain (params : RetargetParams) where
  window : Window
  older : List CBlockIndex
  notFirst : older ≠ []
  heights : ∀ pindex pprev, pindex :: pprev <:+ window.blocks ++ older →
    pindex.nHeight = pprev.length
  work : window.newest.nHeight ≤ params.nLastPOWBlock
  targets : ∀ pindex ∈ window.blocks ++ older, 0 < pindex.bnTarget.toNat ∧
    pindex.bnTarget.toNat ≤ params.bnProofOfWorkLimit.toNat
  times : ∀ pindex ∈ window.blocks ++ older, 0 < pindex.nTime.toNat

def Chain.blocks {params : RetargetParams} (chain : Chain params) :
    List CBlockIndex :=
  chain.window.blocks ++ chain.older

/-- Nothing wraps, and the result is the compact form of the exact quotient or
of the limit. -/
structure Exact {params : RetargetParams} (chain : Chain params) : Prop where
  fits : ∀ number ∈ intermediates chain.window, number < 2 ^ 256
  result : ∃ nBits, getNextWorkRequired params chain.blocks = some nBits ∧
    getCompact (BitVec.ofNat 256
      (min params.bnProofOfWorkLimit.toNat chain.window.retargeted)) false =
        some nBits ∧
    (setCompact nBits).bnTarget.toNat ≤ params.bnProofOfWorkLimit.toNat

/-! ## One block -/

/-- The variables of the loop after `count` blocks, the last of them read. -/
structure Follows (newest last : CBlockIndex) (count average : Nat)
    (past : Averaging) : Prop where
  counted : past.countBlocks = count
  averaged : past.pastDifficultyAverage.toNat = average
  previous : past.pastDifficultyAveragePrev.toNat = average
  timespan : past.nActualTimespan = newest.getBlockTime - last.getBlockTime
  time : past.lastBlockTime = last.getBlockTime

theorem toNat_ofInt64 {n : Nat} (small : n < 2 ^ 64) :
    (ofInt64 n).toNat = n := by
  rw [ofInt64, BitVec.toNat_ofNat]
  omega

theorem toNat_toUInt32 {n : Nat} (small : n < 2 ^ 32) :
    (toUInt32 n).toNat = n := by
  rw [toUInt32, UInt32.toNat_ofNat']
  omega

/-- The first block gives its own target. -/
theorem readBlock_first (newest : CBlockIndex) :
    ∃ past, readBlock ⟨0, 0, 0, 0, 0⟩ newest = some past ∧
      Follows newest newest 1 newest.bnTarget.toNat past := by
  refine ⟨_, rfl, rfl, rfl, rfl, ?_, rfl⟩
  exact (Int.sub_self _).symm

section Step

variable {newest last reading : CBlockIndex} {count average : Nat}
  {past : Averaging}

/-- The average of the next block, as the words have it. -/
theorem averaged_next (follows : Follows newest last count average past)
    (positive : 0 < count) (room : count < 24) (reading : CBlockIndex) :
    averaged { past with countBlocks := past.countBlocks + 1 } reading =
      some (BitVec.ofNat 256
        ((average * (count + 1) + reading.bnTarget.toNat) % 2 ^ 256 /
          (count + 2))) := by
  have later : past.countBlocks + 1 = (count + 1 : Nat) := by
    rw [follows.counted, Nat.cast_succ]
  have next : past.countBlocks + 1 + 1 = (count + 2 : Nat) := by
    rw [follows.counted]
    omega
  have divisor : (ofInt64 (count + 2 : Nat)).toNat = count + 2 :=
    toNat_ofInt64 (by omega)
  have notFirst : ¬ past.countBlocks + 1 = 1 := by
    rw [follows.counted]
    omega
  rw [averaged]
  dsimp only
  rw [if_neg notFirst, next, later, dividedBy_eq (by rw [divisor]; omega),
    divisor, plus_eq_add, BitVec.toNat_add, toNat_timesWord,
    toNat_toUInt32 (by omega), follows.previous, Nat.mod_add_mod]

/-- A block more. -/
theorem readBlock_eq (follows : Follows newest last count average past)
    (positive : 0 < count) (room : count < 24)
    (time : 0 < last.nTime.toNat) (reading : CBlockIndex) :
    readBlock past reading =
      let word := BitVec.ofNat 256
        ((average * (count + 1) + reading.bnTarget.toNat) % 2 ^ 256 /
          (count + 2))
      some ⟨word, word, past.nActualTimespan +
        (past.lastBlockTime - reading.getBlockTime), reading.getBlockTime,
          past.countBlocks + 1⟩ := by
  have averaged := averaged_next follows positive room reading
  have reads : past.countBlocks + 1 ≤ pastBlocksMin := by
    rw [follows.counted, pastBlocksMin]
    omega
  have later : past.lastBlockTime > 0 := by
    rw [follows.time, CBlockIndex.getBlockTime]
    omega
  simp only [readBlock]
  rw [if_pos reads, averaged, Option.map_some, Option.map_some, if_pos later]

/-- While its sum fits, a block adds its target to the average. -/
theorem follows_next (follows : Follows newest last count average past)
    (positive : 0 < count) (room : count < 24)
    (time : 0 < last.nTime.toNat)
    (fits : average * (count + 1) + reading.bnTarget.toNat < 2 ^ 256) :
    ∃ next, readBlock past reading = some next ∧
      Follows newest reading (count + 1)
        ((average * (count + 1) + reading.bnTarget.toNat) / (count + 2))
        next := by
  have quotient := Nat.div_le_self
    (average * (count + 1) + reading.bnTarget.toNat) (count + 2)
  have number : (BitVec.ofNat 256
      ((average * (count + 1) + reading.bnTarget.toNat) % 2 ^ 256 /
        (count + 2))).toNat =
      (average * (count + 1) + reading.bnTarget.toNat) / (count + 2) := by
    rw [Nat.mod_eq_of_lt fits, BitVec.toNat_ofNat, Nat.mod_eq_of_lt]
    omega
  refine ⟨_, readBlock_eq follows positive room time reading, ?_, number,
    number, ?_, rfl⟩
  · change past.countBlocks + 1 = _
    rw [follows.counted, Nat.cast_succ]
  · change past.nActualTimespan + (past.lastBlockTime - _) = _
    rw [follows.timespan, follows.time]
    omega

end Step

/-! ## The loop -/

/-- The loop ends after 24 blocks. -/
theorem readBlocks_end (older : List CBlockIndex) (past : Averaging) :
    readBlocks 25 older past = some past := by
  cases older with
  | nil => rfl
  | cons reading pprev =>
      have enough : pastBlocksMax > 0 ∧ ((25 : Nat) : Int) > pastBlocksMax := by
        decide
      rw [readBlocks]
      split_ifs
      · rfl
      · rfl

/-- The loop over the rest of the window, while the sums fit. -/
theorem readBlocks_follows {newest last : CBlockIndex}
    {between : List CBlockIndex} {count average : Nat} {past : Averaging}
    (follows : Follows newest last count average past) (positive : 0 < count)
    (size : count + between.length = 24)
    (high : ∀ pindex ∈ between, pindex.nHeight > 0)
    (times : ∀ pindex ∈ last :: between, 0 < pindex.nTime.toNat)
    (fits : SumsFit count average
      (between.map fun pindex => pindex.bnTarget.toNat))
    (older : List CBlockIndex) :
    ∃ after, readBlocks (count + 1) (between ++ older) past = some after ∧
      Follows newest ((last :: between).getLast (List.cons_ne_nil _ _)) 24
        (averageFrom count average
          (between.map fun pindex => pindex.bnTarget.toNat)) after := by
  induction between generalizing last count average past with
  | nil =>
      have all : count = 24 := size
      subst all
      exact ⟨past, readBlocks_end older past, follows⟩
  | cons reading between ih =>
      rw [List.length_cons] at size
      rw [List.forall_mem_cons] at high times
      rw [List.map_cons, SumsFit] at fits
      rcases follows_next follows positive (by omega) times.1 fits.1 with
        ⟨next, reads, followsNext⟩
      rcases ih followsNext (Nat.succ_pos count) (by omega) high.2 times.2
        fits.2 with ⟨after, rest, followsAfter⟩
      refine ⟨after, ?_, followsAfter⟩
      have running : ¬ (pastBlocksMax > 0 ∧
          ((count + 1 : Nat) : Int) > pastBlocksMax) := by
        rw [pastBlocksMax]
        omega
      rw [List.cons_append, readBlocks, if_neg (not_not.mpr high.1),
        if_neg running, reads]
      exact rest

/-- The sums of the code fit exactly when those of the rule do. -/
theorem loopSums_fit_iff {newest last : CBlockIndex}
    {between : List CBlockIndex} {count average : Nat} {past : Averaging}
    (follows : Follows newest last count average past) (positive : 0 < count)
    (size : count + between.length = 24)
    (times : ∀ pindex ∈ last :: between, 0 < pindex.nTime.toNat) :
    (∀ number ∈ loopSums between past, number < 2 ^ 256) ↔
      SumsFit count average
        (between.map fun pindex => pindex.bnTarget.toNat) := by
  induction between generalizing last count average past with
  | nil => exact iff_of_true (by simp [loopSums]) trivial
  | cons reading between ih =>
      rw [List.length_cons] at size
      rw [List.forall_mem_cons] at times
      have later : past.countBlocks ≠ 0 := by
        rw [follows.counted]
        omega
      have sum : past.pastDifficultyAveragePrev.toNat *
            (past.countBlocks + 1).toNat + reading.bnTarget.toNat =
          average * (count + 1) + reading.bnTarget.toNat := by
        rw [follows.previous, follows.counted]
        rfl
      rw [loopSums, if_neg later, sum, List.map_cons, SumsFit,
        List.forall_mem_append, List.forall_mem_singleton]
      refine and_congr_right fun fits => ?_
      rcases follows_next follows positive (by omega) times.1 fits with
        ⟨next, reads, followsNext⟩
      rw [reads]
      exact ih followsNext (Nat.succ_pos count) (by omega) times.2

/-! ## The window -/

namespace Chain

variable {params : RetargetParams} (chain : Chain params)

theorem between_targets : chain.window.targets.tail =
    (chain.window.between ++ [chain.window.oldest]).map
      fun pindex => pindex.bnTarget.toNat :=
  rfl

/-- The blocks that are read have positive heights. -/
theorem heights_pos : ∀ pindex ∈ chain.window.blocks, pindex.nHeight > 0 := by
  intro pindex member
  rcases List.append_of_mem member with ⟨above, below, split⟩
  have suffix : pindex :: (below ++ chain.older) <:+
      chain.window.blocks ++ chain.older :=
    ⟨above, by rw [split, List.append_assoc, List.cons_append]⟩
  have some' := List.length_pos_of_ne_nil chain.notFirst
  rw [chain.heights _ _ suffix, List.length_append]
  omega

theorem times_pos : ∀ pindex ∈ chain.window.blocks,
    0 < pindex.nTime.toNat :=
  fun pindex member => chain.times pindex (List.mem_append_left _ member)

theorem readBlock_newest :
    ∃ past, readBlock ⟨0, 0, 0, 0, 0⟩ chain.window.newest = some past ∧
      Follows chain.window.newest chain.window.newest 1
        chain.window.newest.bnTarget.toNat past :=
  readBlock_first chain.window.newest

theorem rest_size :
    1 + (chain.window.between ++ [chain.window.oldest]).length = 24 := by
  rw [List.length_append, chain.window.size]
  rfl

/-- While the sums fit, the loop ends with the average of the rule. -/
theorem readBlocks_window
    (fits : SumsFit 1 chain.window.newest.bnTarget.toNat
      chain.window.targets.tail) (older : List CBlockIndex) :
    ∃ past, readBlocks 1 (chain.window.blocks ++ older) ⟨0, 0, 0, 0, 0⟩ =
        some past ∧
      Follows chain.window.newest chain.window.oldest 24
        chain.window.average past := by
  rcases chain.readBlock_newest with ⟨past, first, follows⟩
  have high := chain.heights_pos
  have times := chain.times_pos
  rw [Window.blocks] at times
  rw [Window.blocks, List.forall_mem_cons] at high
  rcases readBlocks_follows follows (by decide) chain.rest_size high.2 times
    fits older with ⟨after, rest, followsAfter⟩
  have running : ¬ (pastBlocksMax > 0 ∧ ((1 : Nat) : Int) >
      pastBlocksMax) := by decide
  refine ⟨after, ?_, ?_⟩
  · rw [Window.blocks, List.cons_append, readBlocks,
      if_neg (not_not.mpr high.1), if_neg running, first]
    exact rest
  · have last : (chain.window.newest :: (chain.window.between ++
        [chain.window.oldest])).getLast (List.cons_ne_nil _ _) =
          chain.window.oldest :=
      List.getLast_append_singleton
        (chain.window.newest :: chain.window.between)
    rw [last] at followsAfter
    exact followsAfter

/-- Nothing wraps in the code exactly when nothing does in the rule. -/
theorem intermediates_fit_iff :
    (∀ number ∈ intermediates chain.window, number < 2 ^ 256) ↔
      chain.window.Fits := by
  rcases chain.readBlock_newest with ⟨past, first, follows⟩
  have times := chain.times_pos
  rw [Window.blocks] at times
  have sums := loopSums_fit_iff follows (by decide) chain.rest_size times
  have loop : loopSums chain.window.blocks ⟨0, 0, 0, 0, 0⟩ =
      loopSums (chain.window.between ++ [chain.window.oldest]) past := by
    rw [Window.blocks, loopSums, first]
    rfl
  rw [intermediates, List.forall_mem_append, loop, sums,
    ← chain.between_targets]
  constructor
  · rintro ⟨fits, product⟩
    rcases chain.readBlocks_window fits [] with ⟨after, reads, ends⟩
    rw [List.append_nil] at reads
    rw [reads, Option.elim_some, List.forall_mem_singleton,
      ends.averaged] at product
    exact ⟨fits, product⟩
  · rintro ⟨fits, product⟩
    rcases chain.readBlocks_window fits [] with ⟨after, reads, ends⟩
    rw [List.append_nil] at reads
    rw [reads, Option.elim_some, List.forall_mem_singleton, ends.averaged]
    exact ⟨fits, product⟩

/-! ## The result -/

/-- The clamps of the code are those of the rule. -/
theorem clamped_timespan (newest oldest : CBlockIndex) :
    (let nActualTimespan :=
      if newest.getBlockTime - oldest.getBlockTime < (1440 : Int).tdiv 3 then
        (1440 : Int).tdiv 3
      else newest.getBlockTime - oldest.getBlockTime
    if nActualTimespan > 1440 * 3 then 1440 * 3 else nActualTimespan) =
      (clampedTimespan newest oldest : Int) := by
  have third : (1440 : Int).tdiv 3 = 480 := by decide
  rw [third, clampedTimespan, targetTimespan, CBlockIndex.getBlockTime,
    CBlockIndex.getBlockTime]
  dsimp only
  split_ifs <;> omega

theorem clampedTimespan_le (newest oldest : CBlockIndex) :
    clampedTimespan newest oldest ≤ 4320 := by
  rw [clampedTimespan, targetTimespan]
  omega

/-- A block in the branch: the chain goes to the averaging. -/
theorem getNextWorkRequired_chain :
    getNextWorkRequired params chain.blocks =
      darkGravity params chain.blocks := by
  have height := chain.heights chain.window.newest
    (chain.window.between ++ [chain.window.oldest] ++ chain.older)
    (List.suffix_refl _)
  have some' := List.length_pos_of_ne_nil chain.notFirst
  have size := chain.rest_size
  rw [List.length_append] at height
  have deep : ¬ (chain.window.newest.nHeight = 0 ∨
      chain.window.newest.nHeight < pastBlocksMin) := by
    rw [pastBlocksMin]
    omega
  rw [Chain.blocks, Window.blocks, List.cons_append, getNextWorkRequired,
    if_neg deep, if_neg (Int.not_lt.mpr chain.work)]

/-- The limit in place of everything above it. -/
theorem limited_eq {limit : UInt256} {quotient : Nat}
    (small : quotient < 2 ^ 256) :
    (if BitVec.ofNat 256 quotient > limit then limit
      else BitVec.ofNat 256 quotient) =
        BitVec.ofNat 256 (min limit.toNat quotient) := by
  have above : BitVec.ofNat 256 quotient > limit ↔ limit.toNat < quotient := by
    rw [gt_iff_lt, BitVec.lt_def, BitVec.toNat_ofNat,
      Nat.mod_eq_of_lt small]
  by_cases more : limit.toNat < quotient
  · rw [if_pos (above.mpr more), Nat.min_eq_left (Nat.le_of_lt more),
      BitVec.ofNat_toNat, BitVec.setWidth_eq]
  · rw [if_neg (fun larger => more (above.mp larger)),
      Nat.min_eq_right (Nat.le_of_not_lt more)]

/-- While nothing wraps, the branch follows the rule. -/
theorem darkGravity_eq (spacing : params.nTargetSpacing = 60)
    (fits : chain.window.Fits) :
    darkGravity params chain.blocks =
      getCompact (BitVec.ofNat 256
        (min params.bnProofOfWorkLimit.toNat chain.window.retargeted))
          false := by
  rcases chain.readBlocks_window fits.sums chain.older with
    ⟨past, reads, ends⟩
  have target : past.countBlocks * params.nTargetSpacing = 1440 := by
    rw [ends.counted, spacing]
    rfl
  have clamped := clamped_timespan chain.window.newest chain.window.oldest
  have factor : (toUInt32 (clampedTimespan chain.window.newest
      chain.window.oldest)).toNat = chain.window.timespan :=
    toNat_toUInt32 ((clampedTimespan_le _ _).trans_lt (by decide))
  have divisor : (ofInt64 1440).toNat = 1440 := by decide
  have quotient : chain.window.retargeted < 2 ^ 256 :=
    (Nat.div_le_self _ _).trans_lt fits.product
  rw [darkGravity, Chain.blocks, reads, Option.bind_some]
  simp only [target, ends.timespan] at clamped ⊢
  rw [clamped, dividedBy_eq (by rw [divisor]; decide), divisor,
    toNat_timesWord, factor, ends.averaged, Nat.mod_eq_of_lt fits.product,
    Option.bind_some]
  exact congrArg (getCompact · false) (limited_eq quotient)

theorem exact_iff (spacing : params.nTargetSpacing = 60) :
    Exact chain ↔ chain.window.Fits := by
  refine ⟨fun exact' => chain.intermediates_fit_iff.mp exact'.fits, ?_⟩
  intro fits
  refine ⟨chain.intermediates_fit_iff.mpr fits, ?_⟩
  rcases getCompact_eq (BitVec.ofNat 256
    (min params.bnProofOfWorkLimit.toNat chain.window.retargeted)) with
    ⟨nBits, encoded, _⟩
  have number : (BitVec.ofNat 256 (min params.bnProofOfWorkLimit.toNat
      chain.window.retargeted)).toNat =
        min params.bnProofOfWorkLimit.toNat chain.window.retargeted := by
    rw [BitVec.toNat_ofNat, Nat.mod_eq_of_lt]
    exact (Nat.min_le_left _ _).trans_lt params.bnProofOfWorkLimit.isLt
  refine ⟨nBits, ?_, encoded, ?_⟩
  · rw [chain.getNextWorkRequired_chain, chain.darkGravity_eq spacing fits,
      encoded]
  · rw [setCompact_getCompact encoded, number]
    exact (truncated_le _).trans (Nat.min_le_left _ _)

end Chain

/-! ## Limits that keep everything to 256 bits -/

/-- An average of targets in range is in range. -/
theorem average_step_le {limit count average target : Nat}
    (averaged : average ≤ limit) (inRange : target ≤ limit) :
    (average * (count + 1) + target) / (count + 2) ≤ limit := by
  apply Nat.div_le_of_le_mul
  calc
    average * (count + 1) + target ≤ limit * (count + 1) + limit :=
      Nat.add_le_add (Nat.mul_le_mul_right _ averaged) inRange
    _ = (count + 2) * limit := by ring

theorem averageFrom_le {limit : Nat} {targets : List Nat}
    (inRange : ∀ target ∈ targets, target ≤ limit) {count average : Nat}
    (averaged : average ≤ limit) :
    averageFrom count average targets ≤ limit := by
  induction targets generalizing count average with
  | nil => exact averaged
  | cons target targets ih =>
      rw [List.forall_mem_cons] at inRange
      exact ih inRange.2 (average_step_le averaged inRange.1)

theorem sumsFit_of_le {limit : Nat} (small : limit * 25 < 2 ^ 256)
    {targets : List Nat} (inRange : ∀ target ∈ targets, target ≤ limit)
    {count average : Nat} (size : count + targets.length ≤ 24)
    (averaged : average ≤ limit) : SumsFit count average targets := by
  induction targets generalizing count average with
  | nil => trivial
  | cons target targets ih =>
      rw [List.length_cons] at size
      rw [List.forall_mem_cons] at inRange
      refine ⟨?_, ih inRange.2 (by omega)
        (average_step_le averaged inRange.1)⟩
      calc
        average * (count + 1) + target ≤ limit * (count + 1) + limit :=
          Nat.add_le_add (Nat.mul_le_mul_right _ averaged) inRange.1
        _ = limit * (count + 2) := by ring
        _ ≤ limit * 25 := Nat.mul_le_mul_left _ (by omega)
        _ < 2 ^ 256 := small

/-- Nothing wraps where 4320 times the limit keeps to 256 bits. -/
theorem Chain.fits_of_limit {params : RetargetParams} (chain : Chain params)
    (small : params.bnProofOfWorkLimit.toNat * 4320 < 2 ^ 256) :
    chain.window.Fits := by
  have inRange : ∀ target ∈ chain.window.targets,
      target ≤ params.bnProofOfWorkLimit.toNat := by
    intro target member
    rcases List.mem_map.mp member with ⟨pindex, read, rfl⟩
    exact (chain.targets pindex (List.mem_append_left _ read)).2
  have size := chain.rest_size
  rw [Window.targets, Window.blocks, List.map_cons,
    List.forall_mem_cons] at inRange
  constructor
  · refine sumsFit_of_le (by omega) inRange.2 ?_ inRange.1
    rw [List.length_map]
    exact size.le
  · have average : chain.window.average ≤
        params.bnProofOfWorkLimit.toNat :=
      averageFrom_le inRange.2 inRange.1
    exact (Nat.mul_le_mul average (clampedTimespan_le _ _)).trans_lt small

theorem params_spacing (network : Network) :
    (params network).nTargetSpacing = 60 := by
  cases network <;> rfl

theorem params_limit_small {network : Network}
    (public' : network ≠ .regtest) :
    (params network).bnProofOfWorkLimit.toNat * 4320 < 2 ^ 256 := by
  cases network with
  | regtest => exact absurd rfl public'
  | main => decide +kernel
  | testnet => decide +kernel
  | unittest => decide +kernel

/--
On every network and for every chain in the branch, the result is the exact
one and nothing wraps if and only if the averages over unbounded numbers keep
to 256 bits, as they always do outside the network for regression tests.
-/
theorem darkGravity_exact_iff (network : Network)
    (chain : Chain (params network)) :
    (Exact chain ↔ chain.window.Fits) ∧
      (network ≠ .regtest → chain.window.Fits) :=
  ⟨chain.exact_iff (params_spacing network),
    fun public' => chain.fits_of_limit (params_limit_small public')⟩

/-! ## The network for regression tests -/

/-- A block a minute, all with the same bits. -/
def steadyBlock (nBits : UInt32) (height : Nat) : CBlockIndex :=
  ⟨height, UInt32.ofNat (60 * (height + 1)), nBits⟩

/-- The blocks below a height, the highest first. -/
def steadyBlocks (nBits : UInt32) : Nat → List CBlockIndex
  | 0 => []
  | height + 1 => steadyBlock nBits height :: steadyBlocks nBits height

theorem mem_steadyBlocks {nBits : UInt32} {height : Nat}
    {pindex : CBlockIndex} (member : pindex ∈ steadyBlocks nBits height) :
    ∃ below < height, pindex = steadyBlock nBits below := by
  induction height with
  | zero => cases member
  | succ height ih =>
      rcases List.mem_cons.mp member with same | older
      · exact ⟨height, Nat.lt_succ_self height, same⟩
      · rcases ih older with ⟨below, less, same⟩
        exact ⟨below, Nat.lt_succ_of_lt less, same⟩

theorem length_steadyBlocks (nBits : UInt32) (height : Nat) :
    (steadyBlocks nBits height).length = height := by
  induction height with
  | zero => rfl
  | succ height ih => rw [steadyBlocks, List.length_cons, ih]

theorem steadyBlocks_heights {nBits : UInt32} {height : Nat}
    {pindex : CBlockIndex} {pprev : List CBlockIndex}
    (suffix : pindex :: pprev <:+ steadyBlocks nBits height) :
    pindex.nHeight = pprev.length := by
  induction height with
  | zero => cases List.suffix_nil.mp suffix
  | succ height ih =>
      rcases List.suffix_cons_iff.mp suffix with same | older
      · cases same
        rw [length_steadyBlocks]
        rfl
      · exact ih older

/-- The shortest chain in the branch, with the same bits throughout. -/
def steadyChain (params : RetargetParams) (nBits : UInt32)
    (work : 24 ≤ params.nLastPOWBlock)
    (inRange : 0 < (setCompact nBits).bnTarget.toNat ∧
      (setCompact nBits).bnTarget.toNat ≤ params.bnProofOfWorkLimit.toNat) :
    Chain params where
  window :=
    { newest := steadyBlock nBits 24
      between := ((steadyBlocks nBits 24).take 22)
      oldest := steadyBlock nBits 1
      size := rfl }
  older := [steadyBlock nBits 0]
  notFirst := List.cons_ne_nil _ _
  heights := fun _ _ suffix =>
    steadyBlocks_heights (show _ <:+ steadyBlocks nBits 25 from suffix)
  work := work
  targets := by
    intro pindex member
    rcases mem_steadyBlocks (show pindex ∈ steadyBlocks nBits 25 from member)
      with ⟨height, _, rfl⟩
    exact inRange
  times := by
    intro pindex member
    rcases mem_steadyBlocks (show pindex ∈ steadyBlocks nBits 25 from member)
      with ⟨height, less, rfl⟩
    change 0 < (UInt32.ofNat (60 * (height + 1))).toNat
    rw [UInt32.toNat_ofNat']
    omega

/-- The starting difficulty of the main network is in range. -/
theorem darkGravity_exact_main :
    Exact (steadyChain (params .main) 0x1e0fffff (by decide)
      (by decide +kernel)) :=
  (darkGravity_exact_iff .main _).1.mpr
    ((darkGravity_exact_iff .main _).2 (by decide))

/-- At the lowest difficulty for regression tests the second sum wraps. -/
theorem regtest_wraps :
    ¬ ∀ (network : Network) (chain : Chain (params network)), Exact chain := by
  intro claim
  have chain := claim .regtest (steadyChain (params .regtest) 0x207fffff
    (by decide) (by decide +kernel))
  have fits := (Chain.exact_iff _ (params_spacing .regtest)).mp chain
  exact absurd fits.sums.1 (by decide +kernel)

end PrivateDatagram.Consensus.DarkGravity
