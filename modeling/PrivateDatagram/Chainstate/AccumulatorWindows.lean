import PrivateDatagram.Chainstate.Accumulators

/-!
# Windows of accumulator checkpoints

The blocks whose mints go into the checkpoints of an active chain.  From
thirty blocks after the start of version 2 on, each checkpoint adds the ten
blocks that come after those of the last one.  Before that the hard-coded
checkpoint is at height 0, and nothing is added.
-/

namespace PrivateDatagram.Chainstate.Accumulators

open Wire.Serialize

/-! ## Active chains -/

def networks : List CChainParams := [mainParams, testNetParams, regTestParams]

section Chains

variable (params : CChainParams) (zerocoin : Zerocoin)
  (around : Nat → Surroundings) (values : Set CBigNum)
  (chain : List CBlock)

/-- The blocks have been connected one after the other, from the first on. -/
def Connected : Prop :=
  ∀ nHeight block, chain[nHeight]? = some block →
    (validateAccumulatorCheckpoint params zerocoin (around nHeight)
      (chain.take nHeight) block false (resetMap zerocoin)).isSome = true

/-- The heights whose mints were added for the checkpoint of a height. -/
def accumulatedAt (nHeight : Nat) : List Nat :=
  match calculateAccumulatorCheckpoint params zerocoin (around nHeight)
      (chain.take nHeight) nHeight (resetMap zerocoin) with
  | none => []
  | some calculated => calculated.accumulated

/-- The heights up to this one that have a checkpoint of their own. -/
def checkpointHeights (nHeight : Nat) : List Nat :=
  (List.range (nHeight + 1)).filter fun height =>
    params.nBlockZerocoinV2 ≤ height ∧ height % 10 = 0

/-- All windows up to a height. -/
def windows (nHeight : Nat) : List Nat :=
  (checkpointHeights params nHeight).flatMap
    (accumulatedAt params zerocoin around chain)

def checkpointAt (nHeight : Nat) : UInt256 :=
  match chain[nHeight]? with
  | none => 0
  | some block => block.nAccumulatorCheckpoint

def mintsAt (nHeight : Nat) : List PublicCoin :=
  ((chain[nHeight]?).bind blockToPubcoinList).getD []

/-- The mints from one height up to, but not including, another. -/
def mintsBetween (start stop : Nat) : List PublicCoin :=
  (List.range' start (stop - start)).flatMap (mintsAt chain)

/-- The accumulators over the mints up to eleven blocks before. -/
def covered (nHeight : Nat) : AccumulatorMap :=
  (mintsBetween chain params.nZerocoinStartHeight (nHeight - 10)).foldl
    (accumulate zerocoin) (resetMap zerocoin)

/-- A checkpoint stands for accumulators; the one without mints may be zero. -/
def Stands (mapAccumulators : AccumulatorMap) (nCheckpoint : UInt256) :
    Prop :=
  (nCheckpoint = 0 ∧ mapAccumulators = resetMap zerocoin) ∨
    (nCheckpoint = getCheckpoint zerocoin mapAccumulators ∧
      nCheckpoint ≠ 0 ∧ ∀ denom, mapAccumulators denom ∈ values)

/--
Each mint is in exactly one window, and the checkpoint of a height stands for
the accumulators over exactly the mints up to eleven blocks before.
-/
def MintsEnterOnce : Prop :=
  ∀ nHeight, nHeight < chain.length → params.nBlockZerocoinV2 ≤ nHeight →
    nHeight % 10 = 0 →
    (∀ height, params.nZerocoinStartHeight ≤ height →
      mintsAt chain height ≠ [] →
      (windows params zerocoin around chain nHeight).count height =
        if height + 11 ≤ nHeight then 1 else 0) ∧
    Stands zerocoin values (covered params zerocoin chain nHeight)
      (checkpointAt chain nHeight)

/--
No block before the tenth one of version 2 has mints that a checkpoint should
cover, and version 2 starts with empty accumulators.
-/
def NoEarlyMints : Prop :=
  ∀ nHeight, nHeight < chain.length → params.nBlockZerocoinV2 ≤ nHeight →
    nHeight % 10 = 0 →
    (∀ height, params.nZerocoinStartHeight ≤ height →
      height < params.nBlockZerocoinV2 + 10 → height + 11 ≤ nHeight →
      mintsAt chain height = []) ∧
    Stands zerocoin values (resetMap zerocoin)
      (checkpointAt chain (params.nBlockZerocoinV2 - 1))

/--
The values that occur: those of the accumulators over the mints, and those in
the database.  They have different checksums.
-/
structure Occurring : Prop where
  covered : ∀ nHeight denom,
    covered params zerocoin chain nHeight denom ∈ values
  stored : ∀ nHeight, Sound zerocoin values (around nHeight).zerocoinDB
  distinct : ∀ value ∈ values, ∀ other ∈ values,
    zerocoin.getChecksum value = zerocoin.getChecksum other → value = other
  nonzero : ∀ mapAccumulators : AccumulatorMap,
    (∀ denom, mapAccumulators denom ∈ values) →
      getCheckpoint zerocoin mapAccumulators ≠ 0

end Chains

/-! ## Parameters -/

/-- What the parameters of all networks have in common. -/
structure Regular (params : CChainParams) : Prop where
  start : params.nZerocoinStartHeight ≤ params.nBlockZerocoinV2
  positive : 0 < params.nBlockZerocoinV2
  aligned : params.nBlockZerocoinV2 % 10 = 0
  hard : params.mapCheckpoints = [(0, fun _ => 0)]

theorem networks_regular {params : CChainParams} (known : params ∈ networks) :
    Regular params := by
  rcases List.mem_cons.mp known with rfl | others
  · exact ⟨by decide, by decide, by decide, rfl⟩
  · rcases List.mem_cons.mp others with rfl | last
    · exact ⟨by decide, by decide, by decide, rfl⟩
    · rw [List.mem_singleton.mp last]
      exact ⟨by decide, by decide, by decide, rfl⟩

theorem Regular.closest {params : CChainParams} (regular : Regular params)
    {nHeight : Nat} (positive : 0 < nHeight) :
    getClosestCheckpoint params nHeight = (0, fun _ => 0) := by
  have height : closestHeight nHeight (-1) [(0, fun _ => 0)] = 0 := by
    rw [closestHeight, if_pos (by omega), closestHeight]
    dsimp only
    rw [if_pos rfl]
    split <;> rfl
  unfold getClosestCheckpoint
  rw [regular.hard, height]
  rfl

/-! ## Single checkpoints -/

section Steps

variable {params : CChainParams} {zerocoin : Zerocoin}
  {around : Nat → Surroundings} {chain : List CBlock} {nHeight : Nat}

theorem checkpointAt_of_get {block : CBlock}
    (found : chain[nHeight]? = some block) :
    checkpointAt chain nHeight = block.nAccumulatorCheckpoint := by
  unfold checkpointAt
  rw [found]

/-- Between the checkpoints the headers repeat the last one. -/
theorem Connected.repeats (connected : Connected params zerocoin around chain)
    (inside : nHeight < chain.length)
    (late : params.nBlockZerocoinV2 ≤ nHeight) (between : nHeight % 10 ≠ 0) :
    checkpointAt chain nHeight = checkpointAt chain (nHeight - 1) := by
  have found := List.getElem?_eq_getElem inside
  have valid := connected nHeight _ found
  have length : (chain.take nHeight).length = nHeight :=
    List.length_take_of_le inside.le
  unfold validateAccumulatorCheckpoint at valid
  dsimp only at valid
  rw [length, Bool.or_false, if_neg (by simpa using late), if_neg between,
    List.getElem?_take_of_lt (by omega)] at valid
  split at valid
  · cases valid
  case h_2 pprev previous =>
    split at valid
    · cases valid
    case isFalse same =>
      rw [checkpointAt_of_get found, checkpointAt_of_get previous]
      exact not_not.mp same

/-- The header of a block with a checkpoint has the calculated one. -/
theorem Connected.calculates
    (connected : Connected params zerocoin around chain)
    (inside : nHeight < chain.length)
    (late : params.nBlockZerocoinV2 ≤ nHeight) (aligned : nHeight % 10 = 0) :
    ∃ calculated, calculateAccumulatorCheckpoint params zerocoin
        (around nHeight) (chain.take nHeight) nHeight (resetMap zerocoin) =
          some calculated ∧
      calculated.nCheckpoint = checkpointAt chain nHeight := by
  have found := List.getElem?_eq_getElem inside
  have valid := connected nHeight _ found
  have length : (chain.take nHeight).length = nHeight :=
    List.length_take_of_le inside.le
  unfold validateAccumulatorCheckpoint at valid
  dsimp only at valid
  rw [length, Bool.or_false, if_neg (by simpa using late),
    if_pos aligned] at valid
  split at valid
  · cases valid
  case h_2 calculated isCalculated =>
    split at valid
    · cases valid
    case isFalse same =>
      refine ⟨calculated, isCalculated, ?_⟩
      rw [checkpointAt_of_get found]
      exact not_not.mp same

theorem calculate_previous {calculated : Calculated}
    (late : params.nBlockZerocoinV2 ≤ nHeight)
    (isCalculated : calculateAccumulatorCheckpoint params zerocoin
      (around nHeight) (chain.take nHeight) nHeight (resetMap zerocoin) =
        some calculated) (positive : 0 < nHeight) :
    ∃ pprev, chain[nHeight - 1]? = some pprev := by
  unfold calculateAccumulatorCheckpoint at isCalculated
  rw [if_neg (by omega), List.getElem?_take_of_lt (by omega)] at isCalculated
  split at isCalculated
  · cases isCalculated
  case h_2 pprev previous => exact ⟨pprev, previous⟩

/-- With the hard-coded checkpoint at height 0 nothing is added. -/
theorem Regular.early (regular : Regular params) {pprev : CBlock}
    (previous : chain[nHeight - 1]? = some pprev)
    (late : params.nBlockZerocoinV2 ≤ nHeight)
    (early : nHeight ≤ params.nBlockZerocoinV2 + 20)
    (aligned : nHeight % 10 = 0) :
    calculateAccumulatorCheckpoint params zerocoin (around nHeight)
        (chain.take nHeight) nHeight (resetMap zerocoin) =
      some ⟨pprev.nAccumulatorCheckpoint, fun _ => 0, []⟩ := by
  have positive := regular.positive
  have start := regular.start
  unfold calculateAccumulatorCheckpoint initializeAccumulators
  rw [if_neg (by omega), List.getElem?_take_of_lt (by omega), previous]
  dsimp only
  rw [if_neg (by omega), if_neg (by omega), if_pos ⟨late, early⟩,
    regular.closest (by omega)]
  rfl

theorem mintsAt_take {height : Nat} (below : height < nHeight) :
    mintsAt (chain.take nHeight) height = mintsAt chain height := by
  unfold mintsAt
  rw [List.getElem?_take_of_lt below]

/-- The loop adds the mints of all blocks, from the start height on. -/
theorem accumulateBlocks_spec {around : Surroundings} {rounds first : Nat}
    {progress result : Progress}
    (started : params.nZerocoinStartHeight ≤ first)
    (done : accumulateBlocks params zerocoin around chain rounds first
      progress = some result) :
    result = ⟨((List.range' first rounds).flatMap (mintsAt chain)).foldl
        (accumulate zerocoin) progress.mapAccumulators,
      progress.nTotalMintsFound +
        ((List.range' first rounds).flatMap (mintsAt chain)).length,
      progress.accumulated ++ List.range' first rounds⟩ := by
  induction rounds generalizing first progress with
  | zero =>
      cases done
      simp
  | succ rounds ih =>
      rw [accumulateBlocks, if_neg (by omega : ¬ first <
        params.nZerocoinStartHeight)] at done
      split_ifs at done
      split at done
      · cases done
      case h_2 listPubcoins found =>
        have mints : mintsAt chain first = listPubcoins := by
          unfold mintsAt
          rw [found]
          rfl
        rw [ih (by omega) done, List.range'_succ, List.flatMap_cons, mints,
          List.foldl_append, List.length_append, List.append_assoc,
          Nat.add_assoc]
        rfl

/-- Later on, the accumulators start from the checkpoint before. -/
theorem Regular.initializes (regular : Regular params) {pprev : CBlock}
    (previous : chain[nHeight - 1]? = some pprev)
    (late : params.nBlockZerocoinV2 + 20 < nHeight) {around : Surroundings}
    {initialized : Int × AccumulatorMap}
    (done : initializeAccumulators params zerocoin around
      (chain.take nHeight) nHeight = some initialized) :
    initialized.1 = nHeight ∧
      (checkpointAt chain (nHeight - 1) = 0 ∧
          initialized.2 = resetMap zerocoin ∨
        checkpointAt chain (nHeight - 1) ≠ 0 ∧
          loadMap around.zerocoinDB (checkpointAt chain (nHeight - 1)) =
            some initialized.2) := by
  have start := regular.start
  unfold initializeAccumulators at done
  rw [if_neg (by omega), if_neg (by omega),
    List.getElem?_take_of_lt (by omega), previous] at done
  rw [checkpointAt_of_get previous]
  dsimp only at done
  split at done
  case isTrue zero =>
    cases done
    exact ⟨rfl, .inl ⟨zero, rfl⟩⟩
  case isFalse nonzero =>
    split at done
    · cases done
    case h_2 mapAccumulators loaded =>
      cases done
      exact ⟨rfl, .inr ⟨nonzero, loaded⟩⟩

/-- What a later checkpoint is calculated from. -/
theorem Regular.later (regular : Regular params) {calculated : Calculated}
    (late : params.nBlockZerocoinV2 + 20 < nHeight)
    (aligned : nHeight % 10 = 0)
    (isCalculated : calculateAccumulatorCheckpoint params zerocoin
      (around nHeight) (chain.take nHeight) nHeight (resetMap zerocoin) =
        some calculated) :
    calculated.accumulated = List.range' (nHeight - 20) 10 ∧
      ∃ initial,
        (checkpointAt chain (nHeight - 1) = 0 ∧
            initial = resetMap zerocoin ∨
          checkpointAt chain (nHeight - 1) ≠ 0 ∧
            loadMap (around nHeight).zerocoinDB
              (checkpointAt chain (nHeight - 1)) = some initial) ∧
        calculated.nCheckpoint =
          if mintsBetween chain (nHeight - 20) (nHeight - 10) = [] then
            checkpointAt chain (nHeight - 1)
          else
            getCheckpoint zerocoin
              ((mintsBetween chain (nHeight - 20) (nHeight - 10)).foldl
                (accumulate zerocoin) initial) := by
  have start := regular.start
  rcases calculate_previous (by omega) isCalculated (by omega) with
    ⟨pprev, previous⟩
  unfold calculateAccumulatorCheckpoint at isCalculated
  rw [if_neg (by omega), List.getElem?_take_of_lt (by omega),
    previous] at isCalculated
  dsimp only at isCalculated
  rw [if_neg (by omega)] at isCalculated
  split at isCalculated
  · cases isCalculated
  case h_2 nHeightCheckpoint initial initialized =>
    rcases regular.initializes previous late initialized with
      ⟨isHeight, ways⟩
    dsimp only at isHeight ways
    have rounds : nHeight - 10 - (nHeightCheckpoint - 20).toNat = 10 := by
      omega
    have first : (nHeightCheckpoint - 20).toNat = nHeight - 20 := by omega
    rw [if_neg (by omega), rounds, first] at isCalculated
    split at isCalculated
    · cases isCalculated
    case h_2 progress done =>
      have spec := accumulateBlocks_spec (by omega) done
      have mints : (List.range' (nHeight - 20) 10).flatMap
          (mintsAt (chain.take nHeight)) =
            mintsBetween chain (nHeight - 20) (nHeight - 10) := by
        unfold mintsBetween
        rw [show nHeight - 10 - (nHeight - 20) = 10 by omega]
        refine List.flatMap_congr ?_
        intro height here
        rw [List.mem_range'_1] at here
        exact mintsAt_take (by omega)
      rw [mints] at spec
      rw [← Option.some.inj isCalculated, spec]
      refine ⟨List.nil_append _, initial, ways, ?_⟩
      simp only [Nat.zero_add, List.length_eq_zero_iff,
        checkpointAt_of_get previous]

end Steps

/-! ## All windows -/

theorem checkpointHeights_first {params : CChainParams}
    (regular : Regular params) :
    checkpointHeights params params.nBlockZerocoinV2 =
      [params.nBlockZerocoinV2] := by
  unfold checkpointHeights
  have before : (List.range params.nBlockZerocoinV2).filter (fun height =>
      params.nBlockZerocoinV2 ≤ height ∧ height % 10 = 0) = [] := by
    refine List.filter_eq_nil_iff.mpr ?_
    intro height here
    have below := List.mem_range.mp here
    simp
    omega
  rw [List.range_succ, List.filter_append, before, List.nil_append,
    List.filter_cons_of_pos (by simp [regular.aligned]), List.filter_nil]

theorem checkpointHeights_next {params : CChainParams} {nHeight : Nat}
    (late : params.nBlockZerocoinV2 ≤ nHeight) (aligned : nHeight % 10 = 0) :
    checkpointHeights params (nHeight + 10) =
      checkpointHeights params nHeight ++ [nHeight + 10] := by
  have last : ∀ i ∈ List.range 10,
      decide (params.nBlockZerocoinV2 ≤ nHeight + 1 + i ∧
        (nHeight + 1 + i) % 10 = 0) = decide (i = 9) := by
    intro i here
    have below := List.mem_range.mp here
    refine decide_eq_decide.mpr ?_
    omega
  unfold checkpointHeights
  rw [show nHeight + 10 + 1 = nHeight + 1 + 10 by omega, List.range_add,
    List.filter_append, List.filter_map]
  congr 1
  have filtered := List.filter_congr last
  change ((List.range 10).filter fun i =>
    decide (params.nBlockZerocoinV2 ≤ nHeight + 1 + i ∧
      (nHeight + 1 + i) % 10 = 0)).map (nHeight + 1 + ·) = [nHeight + 10]
  rw [filtered]
  rfl

section Runs

variable {params : CChainParams} {zerocoin : Zerocoin}
  {around : Nat → Surroundings} {chain : List CBlock}

theorem Connected.accumulatedAt_early (regular : Regular params)
    (connected : Connected params zerocoin around chain) {nHeight : Nat}
    (inside : nHeight < chain.length)
    (late : params.nBlockZerocoinV2 ≤ nHeight)
    (early : nHeight ≤ params.nBlockZerocoinV2 + 20)
    (aligned : nHeight % 10 = 0) :
    accumulatedAt params zerocoin around chain nHeight = [] ∧
      checkpointAt chain nHeight = checkpointAt chain (nHeight - 1) := by
  have positive := regular.positive
  rcases connected.calculates inside late aligned with
    ⟨calculated, isCalculated, header⟩
  rcases calculate_previous late isCalculated (by omega) with
    ⟨pprev, previous⟩
  rw [regular.early previous late early aligned] at isCalculated
  rw [← header, ← Option.some.inj isCalculated, checkpointAt_of_get previous]
  refine ⟨?_, rfl⟩
  unfold accumulatedAt
  rw [regular.early previous late early aligned]

/-- From the first checkpoint on, each one adds ten blocks. -/
theorem Connected.windows_eq (regular : Regular params)
    (connected : Connected params zerocoin around chain) (n : Nat)
    (inside : params.nBlockZerocoinV2 + 10 * n < chain.length) :
    windows params zerocoin around chain (params.nBlockZerocoinV2 + 10 * n) =
      List.range' (params.nBlockZerocoinV2 + 10) (10 * (n - 2)) := by
  have aligned := regular.aligned
  induction n with
  | zero =>
      unfold windows
      rw [Nat.mul_zero, Nat.add_zero, checkpointHeights_first regular,
        List.flatMap_singleton]
      exact (connected.accumulatedAt_early regular (by omega) le_rfl
        (by omega) aligned).1
  | succ n ih =>
      have here : params.nBlockZerocoinV2 + 10 * (n + 1) =
          params.nBlockZerocoinV2 + 10 * n + 10 := by
        omega
      rw [here] at inside ⊢
      have before := ih (by omega)
      unfold windows at before ⊢
      rw [checkpointHeights_next (by omega) (by omega), List.flatMap_append,
        before, List.flatMap_singleton]
      by_cases early : n < 2
      · rw [(connected.accumulatedAt_early regular inside (by omega)
          (by omega) (by omega)).1, List.append_nil,
          show n - 2 = 0 by omega, show n + 1 - 2 = 0 by omega]
      · rcases connected.calculates inside (by omega) (by omega) with
          ⟨calculated, isCalculated, _⟩
        have window := (regular.later (by omega) (by omega) isCalculated).1
        unfold accumulatedAt
        rw [isCalculated]
        dsimp only
        rw [window, show n + 1 - 2 = n - 2 + 1 by omega, Nat.mul_add,
          ← List.range'_append_1,
          show params.nBlockZerocoinV2 + 10 * n + 10 - 20 =
            params.nBlockZerocoinV2 + 10 + 10 * (n - 2) by omega]

/-- The headers from one checkpoint up to the next are the same. -/
theorem Connected.checkpointAt_before
    (connected : Connected params zerocoin around chain) {nHeight : Nat}
    (inside : nHeight + 10 < chain.length)
    (late : params.nBlockZerocoinV2 ≤ nHeight) (aligned : nHeight % 10 = 0) :
    checkpointAt chain (nHeight + 10 - 1) = checkpointAt chain nHeight := by
  have steps : ∀ i < 10,
      checkpointAt chain (nHeight + i) = checkpointAt chain nHeight := by
    intro i below
    induction i with
    | zero => rfl
    | succ i ih =>
        rw [connected.repeats (by omega) (by omega) (by omega)]
        exact ih (by omega)
  exact steps 9 (by decide)

theorem Connected.checkpointAt_early (regular : Regular params)
    (connected : Connected params zerocoin around chain) {n : Nat}
    (early : n ≤ 2)
    (inside : params.nBlockZerocoinV2 + 10 * n < chain.length) :
    checkpointAt chain (params.nBlockZerocoinV2 + 10 * n) =
      checkpointAt chain (params.nBlockZerocoinV2 - 1) := by
  have aligned := regular.aligned
  induction n with
  | zero =>
      exact (connected.accumulatedAt_early regular inside (by omega)
        (by omega) (by omega)).2
  | succ n ih =>
      have here : params.nBlockZerocoinV2 + 10 * (n + 1) =
          params.nBlockZerocoinV2 + 10 * n + 10 := by
        omega
      rw [here] at inside ⊢
      rw [(connected.accumulatedAt_early regular inside (by omega) (by omega)
          (by omega)).2,
        connected.checkpointAt_before inside (by omega) (by omega)]
      exact ih (by omega) (by omega)

theorem mintsBetween_eq_nil {start stop : Nat}
    (none : ∀ height, start ≤ height → height < stop →
      mintsAt chain height = []) : mintsBetween chain start stop = [] := by
  unfold mintsBetween
  refine List.flatMap_eq_nil_iff.mpr ?_
  intro height here
  rw [List.mem_range'_1] at here
  exact none height here.1 (by omega)

theorem covered_empty {nHeight : Nat}
    (none : ∀ height, params.nZerocoinStartHeight ≤ height →
      height + 11 ≤ nHeight → mintsAt chain height = []) :
    covered params zerocoin chain nHeight = resetMap zerocoin := by
  unfold covered
  rw [mintsBetween_eq_nil fun height started below =>
    none height started (by omega)]
  rfl

theorem mintsBetween_append {start middle stop : Nat}
    (first : start ≤ middle) (second : middle ≤ stop) :
    mintsBetween chain start stop =
      mintsBetween chain start middle ++ mintsBetween chain middle stop := by
  unfold mintsBetween
  rw [← List.flatMap_append,
    show stop - start = middle - start + (stop - middle) by omega,
    ← List.range'_append_1, show start + (middle - start) = middle by omega]

/-- The next checkpoint covers ten more blocks. -/
theorem covered_next {nHeight : Nat}
    (late : params.nZerocoinStartHeight + 10 ≤ nHeight) :
    covered params zerocoin chain (nHeight + 10) =
      (mintsBetween chain (nHeight - 10) nHeight).foldl
        (accumulate zerocoin) (covered params zerocoin chain nHeight) := by
  unfold covered
  rw [← List.foldl_append, ← mintsBetween_append (by omega) (by omega)]
  rfl

variable {values : Set CBigNum}

/-- The accumulators that a checkpoint is loaded into are those it is for. -/
theorem Stands.initial (occurring :
      Occurring params zerocoin around values chain)
    {mapAccumulators initial : AccumulatorMap} {nCheckpoint : UInt256}
    (stands : Stands zerocoin values mapAccumulators nCheckpoint)
    {nHeight : Nat}
    (ways : nCheckpoint = 0 ∧ initial = resetMap zerocoin ∨
      nCheckpoint ≠ 0 ∧
        loadMap (around nHeight).zerocoinDB nCheckpoint = some initial) :
    initial = mapAccumulators := by
  rcases stands with ⟨zero, empty⟩ | ⟨same, nonzero, occur⟩
  · rcases ways with ⟨_, isReset⟩ | ⟨nonzero, _⟩
    · rw [isReset, empty]
    · exact absurd zero nonzero
  · rcases ways with ⟨zero, _⟩ | ⟨_, loaded⟩
    · exact absurd zero nonzero
    · rw [same] at loaded
      exact loadMap_eq occurring.distinct (occurring.stored nHeight) occur
        loaded

theorem Connected.stands (regular : Regular params)
    (connected : Connected params zerocoin around chain)
    (occurring : Occurring params zerocoin around values chain)
    (noEarly : NoEarlyMints params zerocoin values chain) (n : Nat)
    (inside : params.nBlockZerocoinV2 + 10 * n < chain.length) :
    Stands zerocoin values
      (covered params zerocoin chain (params.nBlockZerocoinV2 + 10 * n))
      (checkpointAt chain (params.nBlockZerocoinV2 + 10 * n)) := by
  have aligned := regular.aligned
  have start := regular.start
  induction n with
  | zero =>
      have none := noEarly _ inside (by omega) (by omega)
      rw [connected.checkpointAt_early regular (by decide) inside,
        covered_empty fun height started below =>
          none.1 height started (by omega) (by omega)]
      exact none.2
  | succ n ih =>
      by_cases early : n + 1 ≤ 2
      · have none := noEarly _ inside (by omega) (by omega)
        rw [connected.checkpointAt_early regular early inside,
          covered_empty fun height started below =>
            none.1 height started (by omega) (by omega)]
        exact none.2
      · have here : params.nBlockZerocoinV2 + 10 * (n + 1) =
            params.nBlockZerocoinV2 + 10 * n + 10 := by
          omega
        rw [here] at inside ⊢
        have before := ih (by omega)
        rcases connected.calculates inside (by omega) (by omega) with
          ⟨calculated, isCalculated, header⟩
        rcases (regular.later (by omega) (by omega) isCalculated).2 with
          ⟨initial, ways, checkpoint⟩
        rw [connected.checkpointAt_before inside (by omega) (by omega)]
          at ways checkpoint
        have isInitial := before.initial occurring ways
        rw [isInitial,
          show params.nBlockZerocoinV2 + 10 * n + 10 - 20 =
            params.nBlockZerocoinV2 + 10 * n - 10 by omega,
          show params.nBlockZerocoinV2 + 10 * n + 10 - 10 =
            params.nBlockZerocoinV2 + 10 * n by omega] at checkpoint
        rw [← header, checkpoint]
        split
        case isTrue none =>
          rw [covered_next (by omega), none]
          exact before
        case isFalse some =>
          rw [← covered_next (by omega)]
          exact .inr ⟨rfl, occurring.nonzero _ (occurring.covered _),
            occurring.covered _⟩

theorem Connected.count_windows (regular : Regular params)
    (connected : Connected params zerocoin around chain) (n : Nat)
    (inside : params.nBlockZerocoinV2 + 10 * n < chain.length)
    (height : Nat) :
    (windows params zerocoin around chain
      (params.nBlockZerocoinV2 + 10 * n)).count height =
        if params.nBlockZerocoinV2 + 10 ≤ height ∧
          height + 11 ≤ params.nBlockZerocoinV2 + 10 * n then 1 else 0 := by
  rw [connected.windows_eq regular n inside,
    List.Nodup.count (List.nodup_range' 1)]
  refine if_congr ?_ rfl rfl
  rw [List.mem_range'_1]
  omega

end Runs

/--
On the chains of all networks each mint enters the accumulators exactly once
if and only if no mint comes before the tenth block of version 2.
-/
theorem mints_enter_once_iff (params : CChainParams)
    (known : params ∈ networks) (zerocoin : Zerocoin)
    (around : Nat → Surroundings) (values : Set CBigNum)
    (chain : List CBlock) (connected : Connected params zerocoin around chain)
    (occurring : Occurring params zerocoin around values chain) :
    MintsEnterOnce params zerocoin around values chain ↔
      NoEarlyMints params zerocoin values chain := by
  have regular := networks_regular known
  have aligned := regular.aligned
  have number : ∀ nHeight, params.nBlockZerocoinV2 ≤ nHeight →
      nHeight % 10 = 0 →
      ∃ n, nHeight = params.nBlockZerocoinV2 + 10 * n := by
    intro nHeight late tenth
    exact ⟨(nHeight - params.nBlockZerocoinV2) / 10, by omega⟩
  constructor
  · intro once nHeight inside late tenth
    have none : ∀ nHeight, nHeight < chain.length →
        params.nBlockZerocoinV2 ≤ nHeight → nHeight % 10 = 0 →
        ∀ height, params.nZerocoinStartHeight ≤ height →
          height < params.nBlockZerocoinV2 + 10 → height + 11 ≤ nHeight →
          mintsAt chain height = [] := by
      intro nHeight inside late tenth height started early below
      by_contra some
      have count := (once nHeight inside late tenth).1 height started some
      rcases number nHeight late tenth with ⟨n, rfl⟩
      rw [connected.count_windows regular n inside height, if_pos below,
        if_neg (by omega)] at count
      cases count
    refine ⟨none nHeight inside late tenth, ?_⟩
    have first := (once params.nBlockZerocoinV2 (by omega) le_rfl aligned).2
    rw [covered_empty fun height started below =>
      none params.nBlockZerocoinV2 (by omega) le_rfl aligned height started
        (by omega) below] at first
    have before := connected.checkpointAt_early regular
      (by decide : 0 ≤ 2) (by omega)
    rw [Nat.mul_zero, Nat.add_zero] at before
    rwa [before] at first
  · intro noEarly nHeight inside late tenth
    rcases number nHeight late tenth with ⟨n, rfl⟩
    refine ⟨?_, connected.stands regular occurring noEarly n inside⟩
    intro height started some
    rw [connected.count_windows regular n inside height]
    refine if_congr ?_ rfl rfl
    refine ⟨fun both => both.2, fun below => ⟨?_, below⟩⟩
    by_contra early
    exact some ((noEarly _ inside late tenth).1 height started (by omega)
      below)

/-! ### A single mint -/

/-- Small accumulators, which work like those of libzerocoin. -/
def sampleZerocoin : Zerocoin where
  accumulatorBase := 961
  increment := fun value coin => value ^ coin.toNat % 3233
  getChecksum := fun value => UInt32.ofNat value.toNat

def sampleAround (_nHeight : Nat) : Surroundings where
  zerocoinDB := fun _ => none
  shutdownRequested := fun _ => false
  readBlockFromDisk := fun _ => true

theorem one_ne_error : Consensus.ProofOfStake.CoinDenomination.one ≠ .error :=
  by decide

def sampleCoin : PublicCoin :=
  ⟨3, .one, one_ne_error⟩

/-- A chain with a mint at one height, and a checkpoint in its last block. -/
def sampleChain (size mintHeight : Nat) (last : UInt256) : List CBlock :=
  (List.range size).map fun nHeight =>
    ⟨if nHeight + 1 = size then last else 0,
      if nHeight = mintHeight then [⟨100000000, 3⟩] else []⟩

theorem sampleChain_length (size mintHeight : Nat) (last : UInt256) :
    (sampleChain size mintHeight last).length = size := by
  unfold sampleChain
  rw [List.length_map, List.length_range]

theorem sampleChain_get {size nHeight : Nat} (mintHeight : Nat)
    (last : UInt256) (inside : nHeight < size) :
    (sampleChain size mintHeight last)[nHeight]? =
      some ⟨if nHeight + 1 = size then last else 0,
        if nHeight = mintHeight then [⟨100000000, 3⟩] else []⟩ := by
  unfold sampleChain
  rw [List.getElem?_map, List.getElem?_range inside]
  rfl

theorem sampleChain_mintsAt {size mintHeight : Nat} (last : UInt256)
    (inside : mintHeight < size) (nHeight : Nat) :
    mintsAt (sampleChain size mintHeight last) nHeight =
      if nHeight = mintHeight then [sampleCoin] else [] := by
  unfold mintsAt
  by_cases below : nHeight < size
  · rw [sampleChain_get mintHeight last below]
    by_cases here : nHeight = mintHeight
    · rw [if_pos here, if_pos here]
      rfl
    · rw [if_neg here, if_neg here]
      rfl
  · rw [List.getElem?_eq_none (by rw [sampleChain_length]; omega),
      if_neg (by omega)]
    rfl

theorem mintsBetween_single {chain : List CBlock} {mintHeight : Nat}
    {coin : PublicCoin}
    (single : ∀ nHeight, mintsAt chain nHeight =
      if nHeight = mintHeight then [coin] else []) (start stop : Nat) :
    mintsBetween chain start stop = [] ∨
      mintsBetween chain start stop = [coin] := by
  have none : ∀ first last, (last ≤ mintHeight ∨ mintHeight < first) →
      mintsBetween chain first last = [] := by
    intro first last outside
    refine mintsBetween_eq_nil fun height started below => ?_
    rw [single, if_neg (by omega)]
  by_cases here : start ≤ mintHeight ∧ mintHeight < stop
  · right
    have middle : mintsBetween chain mintHeight (mintHeight + 1) = [coin] := by
      unfold mintsBetween
      rw [Nat.add_sub_cancel_left, List.range'_one, List.flatMap_singleton,
        single, if_pos rfl]
    rw [mintsBetween_append here.1 here.2.le,
      mintsBetween_append (Nat.le_succ mintHeight) here.2, middle,
      none start mintHeight (.inl le_rfl),
      none (mintHeight + 1) stop (.inr (Nat.lt_succ_self _))]
    rfl
  · left
    by_cases before : stop ≤ mintHeight
    · exact none start stop (.inl before)
    · exact none start stop (.inr (by omega))

/-- The values of the accumulators, with the mint and without it. -/
def sampleValues : Set CBigNum := {961, 961 ^ 3 % 3233}

theorem sampleChain_occurring (params : CChainParams) {size mintHeight : Nat}
    (last : UInt256) (inside : mintHeight < size) :
    Occurring params sampleZerocoin sampleAround sampleValues
      (sampleChain size mintHeight last) := by
  constructor
  · intro nHeight denom
    unfold covered
    rcases mintsBetween_single (sampleChain_mintsAt last inside)
      params.nZerocoinStartHeight (nHeight - 10) with empty | coin
    · rw [empty]
      exact .inl rfl
    · rw [coin]
      by_cases same : denom = sampleCoin.denomination
      · right
        change accumulate sampleZerocoin (resetMap sampleZerocoin)
          sampleCoin denom = 961 ^ 3 % 3233
        unfold accumulate
        rw [same, Function.update_self]
        rfl
      · left
        change accumulate sampleZerocoin (resetMap sampleZerocoin)
          sampleCoin denom = 961
        unfold accumulate
        rw [Function.update_of_ne same]
        rfl
  · intro nHeight nChecksum value stored
    cases stored
  · intro value isValue other isOther same
    rcases isValue with rfl | rfl
    · rcases isOther with rfl | rfl
      · rfl
      · exact absurd same (by decide)
    · rcases isOther with rfl | rfl
      · exact absurd same (by decide)
      · rfl
  · intro mapAccumulators occur zero
    have checksum := parseChecksum_getCheckpoint sampleZerocoin
      mapAccumulators sampleCoin.denomination
    rw [zero] at checksum
    rcases occur sampleCoin.denomination with value | value
    · rw [value] at checksum
      exact absurd checksum (by decide)
    · rw [value] at checksum
      exact absurd checksum (by decide)

/-- Headers without a checkpoint pass as long as nothing is added. -/
theorem validate_zero {params : CChainParams} (regular : Regular params)
    {zerocoin : Zerocoin} {around : Nat → Surroundings}
    {chain : List CBlock} {nHeight : Nat} {pprev block : CBlock}
    (inside : nHeight < chain.length) (header : block.nAccumulatorCheckpoint = 0)
    (previous : chain[nHeight - 1]? = some pprev)
    (zero : pprev.nAccumulatorCheckpoint = 0)
    (early : nHeight < params.nBlockZerocoinV2 + 30) :
    (validateAccumulatorCheckpoint params zerocoin (around nHeight)
      (chain.take nHeight) block false (resetMap zerocoin)).isSome = true := by
  have aligned := regular.aligned
  have length : (chain.take nHeight).length = nHeight :=
    List.length_take_of_le inside.le
  unfold validateAccumulatorCheckpoint
  dsimp only
  rw [length, Bool.or_false, header]
  by_cases late : params.nBlockZerocoinV2 ≤ nHeight
  · have positive := regular.positive
    rw [if_neg (by simpa using late)]
    by_cases tenth : nHeight % 10 = 0
    · rw [if_pos tenth, regular.early previous late (by omega) tenth, zero]
      rfl
    · rw [if_neg tenth, List.getElem?_take_of_lt (by omega), previous]
      dsimp only
      rw [zero]
      rfl
  · rw [if_pos (by simpa using late)]
    rfl

theorem sampleChain_connected {params : CChainParams}
    (regular : Regular params) {size mintHeight : Nat} {last : UInt256}
    (early : size ≤ params.nBlockZerocoinV2 + 31)
    (tip : ∀ block, (sampleChain size mintHeight last)[size - 1]? =
        some block →
      (validateAccumulatorCheckpoint params sampleZerocoin
        (sampleAround (size - 1))
        ((sampleChain size mintHeight last).take (size - 1)) block false
        (resetMap sampleZerocoin)).isSome = true) :
    Connected params sampleZerocoin sampleAround
      (sampleChain size mintHeight last) := by
  intro nHeight block found
  have inside : nHeight < size := by
    rcases List.getElem?_eq_some_iff.mp found with ⟨below, _⟩
    rwa [sampleChain_length] at below
  by_cases isTip : nHeight + 1 = size
  · rw [show nHeight = size - 1 by omega] at found ⊢
    exact tip block found
  · have header := (sampleChain_get mintHeight last inside).symm.trans found
    rw [if_neg isTip] at header
    by_cases first : nHeight = 0
    · have positive := regular.positive
      rw [first]
      unfold validateAccumulatorCheckpoint
      rw [List.take_zero]
      dsimp only
      rw [if_pos (by simpa using positive)]
      rfl
    · have previous := sampleChain_get mintHeight last
        (show nHeight - 1 < size by omega)
      rw [if_neg (by omega)] at previous
      refine validate_zero regular ?_ ?_ previous rfl (by omega)
      · rwa [sampleChain_length]
      · rw [← Option.some.inj header]

/-- The main network, with a mint at height 35 and the tip at height 50. -/
theorem mints_enter_once_main :
    MintsEnterOnce mainParams sampleZerocoin sampleAround sampleValues
      (sampleChain 51 35 (getCheckpoint sampleZerocoin
        (accumulate sampleZerocoin (resetMap sampleZerocoin) sampleCoin))) := by
  have known : mainParams ∈ networks := List.mem_cons_self
  refine (mints_enter_once_iff mainParams known _ _ _ _ ?_ ?_).mpr ?_
  · refine sampleChain_connected (networks_regular known) (by decide) ?_
    intro block found
    rw [sampleChain_get _ _ (by decide)] at found
    cases found
    decide
  · exact sampleChain_occurring mainParams _ (by decide)
  · intro nHeight inside late tenth
    refine ⟨?_, ?_⟩
    · intro height _ early _
      rw [sampleChain_mintsAt _ (by decide), if_neg]
      change height < 20 + 10 at early
      omega
    · left
      exact ⟨by decide, rfl⟩

theorem mint_never_enters :
    ¬ ∀ params ∈ networks, ∀ (zerocoin : Zerocoin)
      (around : Nat → Surroundings) (values : Set CBigNum)
      (chain : List CBlock), Connected params zerocoin around chain →
        Occurring params zerocoin around values chain →
          MintsEnterOnce params zerocoin around values chain := by
  intro once
  have known : testNetParams ∈ networks := by simp [networks]
  have connected : Connected testNetParams sampleZerocoin sampleAround
      (sampleChain 121 105 0) := by
    refine sampleChain_connected (networks_regular known) (by decide) ?_
    intro block found
    rw [sampleChain_get _ _ (by decide)] at found
    cases found
    refine validate_zero (networks_regular known) ?_ rfl
      (sampleChain_get 105 0 (by decide)) rfl (by decide)
    rw [sampleChain_length]
    decide
  have covers := once testNetParams known sampleZerocoin sampleAround
    sampleValues (sampleChain 121 105 0) connected
    (sampleChain_occurring testNetParams 0 (by decide)) 120
    (by rw [sampleChain_length]; decide) (by decide) (by decide)
  have count := covers.1 105 (by decide)
    (by rw [sampleChain_mintsAt 0 (by decide), if_pos rfl]; decide)
  have none := connected.count_windows (networks_regular known) 2
    (by rw [sampleChain_length]; decide) 105
  rw [show 120 = testNetParams.nBlockZerocoinV2 + 10 * 2 from rfl, none,
    if_neg (by decide), if_pos (by decide)] at count
  cases count

end PrivateDatagram.Chainstate.Accumulators
