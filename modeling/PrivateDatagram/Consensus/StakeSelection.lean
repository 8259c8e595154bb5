import PrivateDatagram.Library.OrderedScan
import PrivateDatagram.Consensus.StakeModifier

/-!
# The blocks behind a stake modifier

A new modifier takes one bit from each of up to 64 blocks of the last minutes.
In every round the interval grows, and among the candidates in it that are
not selected yet the one with the least selection hash is taken; when there
is none in the interval, it is the earliest one that is left.

The loop scans all candidates, sorted by time and hash, and skips the selected
ones as it goes.
-/

namespace PrivateDatagram.Consensus.StakeSelection

open Library.OrderedScan Wire.Serialize StakeModifier

/-! ## Candidates -/

/-- The entry of a block in `vSortedByTimestamp`. -/
def timePair (pindex : CBlockIndex) : Nat × UInt256 :=
  (pindex.block.nTime.toNat, pindex.getBlockHash)

/-- The order of the candidates: by time, then by hash. -/
def Earlier (first second : CBlockIndex) : Prop :=
  first.block.nTime.toNat < second.block.nTime.toNat ∨
    first.block.nTime.toNat = second.block.nTime.toNat ∧
      first.getBlockHash < second.getBlockHash

/-- The candidates: the newest blocks of the chain, back to the first one
before the start of the selection. -/
def window (nSelectionIntervalStart : Int) (chain : List CBlockIndex) :
    List CBlockIndex :=
  chain.takeWhile fun pindex =>
    pindex.getBlockTime ≥ nSelectionIntervalStart

/-- The candidates in the order of `vSortedByTimestamp`. -/
def sortedWindow (nSelectionIntervalStart : Int)
    (chain : List CBlockIndex) : List CBlockIndex :=
  (window nSelectionIntervalStart chain).reverse.mergeSort
    fun first second => timestampLe (timePair first) (timePair second)

theorem sortedByTimestamp_eq (start : Int) (chain : List CBlockIndex) :
    sortedByTimestamp start chain =
      (sortedWindow start chain).map timePair := by
  rw [sortedWindow, List.map_mergeSort (s := timestampLe) fun _ _ _ _ => rfl,
    List.map_reverse]
  rfl

theorem mem_sortedWindow {start : Int} {chain : List CBlockIndex}
    {pindex : CBlockIndex} :
    pindex ∈ sortedWindow start chain ↔ pindex ∈ window start chain := by
  rw [sortedWindow, List.mem_mergeSort, List.mem_reverse]

theorem length_sortedWindow (start : Int) (chain : List CBlockIndex) :
    (sortedWindow start chain).length = (window start chain).length := by
  rw [sortedWindow, List.length_mergeSort, List.length_reverse]

theorem timestampLe_iff (left right : Nat × UInt256) :
    timestampLe left right = true ↔
      left.1 < right.1 ∨ left.1 = right.1 ∧ left.2.toNat ≤ right.2.toNat := by
  simp [timestampLe, BitVec.le_def]

theorem nodup_sortedWindow {chain : List CBlockIndex}
    (distinct : (chain.map CBlockIndex.getBlockHash).Nodup) (start : Int) :
    ((sortedWindow start chain).map CBlockIndex.getBlockHash).Nodup := by
  have recent : ((window start chain).map CBlockIndex.getBlockHash).Nodup :=
    distinct.sublist ((List.takeWhile_sublist _).map _)
  have perm : ((sortedWindow start chain).map CBlockIndex.getBlockHash).Perm
      ((window start chain).map CBlockIndex.getBlockHash) :=
    ((List.mergeSort_perm _ _).trans (List.reverse_perm _)).map _
  exact perm.nodup_iff.mpr recent

/-- Different hashes make the order strict. -/
theorem sortedWindow_ordered {chain : List CBlockIndex}
    (distinct : (chain.map CBlockIndex.getBlockHash).Nodup) (start : Int) :
    (sortedWindow start chain).Pairwise Earlier := by
  have sorted : (sortedWindow start chain).Pairwise fun first second =>
      timestampLe (timePair first) (timePair second) = true := by
    apply List.pairwise_mergeSort
    · intro first second third
      simp only [timestampLe_iff]
      omega
    · intro first second
      rw [Bool.or_eq_true, timestampLe_iff, timestampLe_iff]
      omega
  have apart := List.pairwise_map.mp (nodup_sortedWindow distinct start)
  refine (sorted.and apart).imp ?_
  rintro first second ⟨order, hashes⟩
  rw [timestampLe_iff] at order
  rcases order with before | ⟨same, less⟩
  · exact .inl before
  · refine .inr ⟨same, BitVec.lt_def.mpr (lt_of_le_of_ne less ?_)⟩
    exact fun equal => hashes (BitVec.eq_of_toNat_eq equal)

theorem Earlier.asymm (first second : CBlockIndex)
    (before : Earlier first second) : ¬ Earlier second first := by
  rw [Earlier, BitVec.lt_def] at before ⊢
  omega

/-! ## One round -/

/-- A candidate is in the interval of the round. -/
def Inside (nSelectionIntervalStop : Int) (pindex : CBlockIndex) : Prop :=
  pindex.getBlockTime ≤ nSelectionIntervalStop

instance (stop : Int) : DecidablePred (Inside stop) := fun pindex =>
  inferInstanceAs (Decidable (pindex.getBlockTime ≤ stop))

theorem inside_of_earlier (stop : Int) (first second : CBlockIndex)
    (before : Earlier first second) (inside : Inside stop second) :
    Inside stop first := by
  rw [Inside, CBlockIndex.getBlockTime] at inside ⊢
  rw [Earlier] at before
  omega

/-- The index holds the entries under their hashes. -/
def Listed (index : BlockMap) (entries : List CBlockIndex) : Prop :=
  ∀ pindex ∈ entries, ∃ pprev,
    index pindex.getBlockHash = some (pindex :: pprev)

/-- The selection hash as a number. -/
def rank (params : KernelParams) (fModifierV2 : Bool)
    (nStakeModifierPrev : UInt64) (pindex : CBlockIndex) : Nat :=
  (selectionHash params fModifierV2 nStakeModifierPrev pindex).toNat

/-- The loop scans the candidates that are not selected. -/
theorem selectBlockFromCandidates_eq {params : KernelParams}
    {index : BlockMap} {selected : List UInt256} {stop : Int}
    {nStakeModifierPrev : UInt64} {fModifierV2 : Bool}
    {entries : List CBlockIndex} (listed : Listed index entries)
    (ordered : entries.Pairwise Earlier) (best : Option CBlockIndex) :
    selectBlockFromCandidates params index selected stop nStakeModifierPrev
        (some fModifierV2)
        (best.map fun pindex =>
          (selectionHash params fModifierV2 nStakeModifierPrev pindex,
            pindex))
        (entries.map timePair) =
      scan (rank params fModifierV2 nStakeModifierPrev) (Inside stop) best
        (entries.filter fun pindex => pindex.getBlockHash ∉ selected) := by
  induction entries generalizing best with
  | nil =>
      rw [List.map_nil, selectBlockFromCandidates, Option.map_map]
      cases best with
      | none => rfl
      | some pindex => rfl
  | cons pindex entries ih =>
      rcases listed pindex List.mem_cons_self with ⟨pprev, here⟩
      rcases List.pairwise_cons.mp ordered with ⟨behind, rest⟩
      have later := ih (fun other member =>
        listed other (List.mem_cons_of_mem _ member)) rest
      rw [List.map_cons, selectBlockFromCandidates, timePair]
      dsimp only
      rw [here]
      dsimp only [Option.getD_some]
      cases best with
      | none =>
          simp only [Option.map_none, Option.isSome_none, Bool.false_and,
            Bool.false_eq_true, if_false]
          by_cases isSelected : pindex.getBlockHash ∈ selected
          · rw [if_pos isSelected, List.filter_cons_of_neg (by simpa)]
            exact later none
          · rw [if_neg isSelected, List.filter_cons_of_pos (by simpa), scan]
            exact later (some pindex)
      | some best =>
          simp only [Option.map_some, Option.isSome_some, Bool.true_and,
            decide_eq_true_eq, gt_iff_lt]
          by_cases inside : Inside stop pindex
          · rw [if_neg (Int.not_lt.mpr inside)]
            by_cases isSelected : pindex.getBlockHash ∈ selected
            · rw [if_pos isSelected, List.filter_cons_of_neg (by simpa)]
              exact later (some best)
            · rw [if_neg isSelected, List.filter_cons_of_pos (by simpa), scan,
                if_pos inside]
              by_cases less :
                  rank params fModifierV2 nStakeModifierPrev pindex <
                    rank params fModifierV2 nStakeModifierPrev best
              · rw [if_pos (BitVec.lt_def.mpr less), if_pos less]
                exact later (some pindex)
              · rw [if_neg fun below => less (BitVec.lt_def.mp below),
                  if_neg less]
                exact later (some best)
          · -- Whatever comes later is outside as well.
            rw [if_pos (Int.not_le.mp inside)]
            refine (scan_outside fun other member => ?_).symm
            rcases List.mem_cons.mp (List.mem_of_mem_filter member) with
              rfl | after
            · exact inside
            · exact fun isInside =>
                inside (inside_of_earlier _ _ _ (behind other after) isInside)

/-- The first candidate decides on the calculation. -/
theorem selectBlockFromCandidates_first {params : KernelParams}
    {index : BlockMap} {selected : List UInt256} {stop : Int}
    {nStakeModifierPrev : UInt64} {first : CBlockIndex}
    {entries : List CBlockIndex} (listed : Listed index (first :: entries)) :
    selectBlockFromCandidates params index selected stop nStakeModifierPrev
        none none ((first :: entries).map timePair) =
      selectBlockFromCandidates params index selected stop nStakeModifierPrev
        (some (first.nHeight ≥ params.nModifierUpdateBlock)) none
        ((first :: entries).map timePair) := by
  rcases listed first List.mem_cons_self with ⟨pprev, here⟩
  rw [List.map_cons, selectBlockFromCandidates, selectBlockFromCandidates,
    timePair]
  dsimp only
  rw [here]
  rfl

/-- A round chooses among the candidates whose hashes are not selected. -/
theorem round_chosen {params : KernelParams} {index : BlockMap}
    {selected : List UInt256} (stop : Int) (nStakeModifierPrev : UInt64)
    {first : CBlockIndex} {entries : List CBlockIndex}
    (listed : Listed index (first :: entries))
    (ordered : (first :: entries).Pairwise Earlier)
    (left : ∃ pindex ∈ first :: entries, pindex.getBlockHash ∉ selected) :
    ∃ choice, selectBlockFromCandidates params index selected stop
        nStakeModifierPrev none none ((first :: entries).map timePair) =
          some choice ∧
      Chosen Earlier
        (rank params (first.nHeight ≥ params.nModifierUpdateBlock)
          nStakeModifierPrev)
        (Inside stop)
        {pindex | pindex ∈ first :: entries ∧
          pindex.getBlockHash ∉ selected} choice := by
  have nonempty : (first :: entries).filter
      (fun pindex => pindex.getBlockHash ∉ selected) ≠ [] := by
    rcases left with ⟨pindex, member, unselected⟩
    exact List.ne_nil_of_mem (List.mem_filter.mpr ⟨member, by simpa⟩)
  rcases scan_chosen
    (rank params (first.nHeight ≥ params.nModifierUpdateBlock)
      nStakeModifierPrev) (ordered.filter _) Earlier.asymm
    (inside_of_earlier stop) nonempty with ⟨choice, scanned, chosen⟩
  refine ⟨choice, ?_, ?_⟩
  · rw [selectBlockFromCandidates_first listed, ← scanned]
    exact selectBlockFromCandidates_eq listed ordered none
  · have same : {pindex | pindex ∈ (first :: entries).filter
        fun pindex => pindex.getBlockHash ∉ selected} =
        {pindex | pindex ∈ first :: entries ∧
          pindex.getBlockHash ∉ selected} := by
      ext pindex
      simp [List.mem_filter]
    rw [← same]
    exact chosen

/-! ## All rounds -/

/-- The end of the interval of a round. -/
def intervalEnd (nSelectionIntervalStart : Int) (nRound : Nat) : Int :=
  nSelectionIntervalStart +
    ((List.range (nRound + 1)).map selectionIntervalSection).sum

/-- The blocks that are selected, in the order of the rounds.  The earliest
candidate decides on the calculation of the selection hash. -/
structure Selects (params : KernelParams) (nStakeModifier : UInt64)
    (nSelectionIntervalStart : Int) (candidates : Set CBlockIndex)
    (first : CBlockIndex) (selected : List CBlockIndex) : Prop where
  candidate : ∀ pindex ∈ selected, pindex ∈ candidates
  distinct : selected.Nodup
  chosen : ∀ nRound pindex, selected[nRound]? = some pindex →
    Chosen Earlier
      (rank params (first.nHeight ≥ params.nModifierUpdateBlock)
        nStakeModifier)
      (Inside (intervalEnd nSelectionIntervalStart nRound))
      {pindex | pindex ∈ candidates ∧ pindex ∉ selected.take nRound} pindex

/-- The bits of a modifier are the entropy bits of the selected blocks. -/
def HasBits (selected : List CBlockIndex) (nStakeModifier : UInt64) : Prop :=
  ∀ bit, nStakeModifier.toNat.testBit bit =
    selected[bit]?.elim false fun pindex => pindex.getStakeEntropyBit = 1

theorem testBit_entropy (pindex : CBlockIndex) {nRound : Nat}
    (small : nRound < 64) (bit : Nat) :
    (pindex.getStakeEntropyBit <<< nRound.toUInt64).toNat.testBit bit =
      (decide (bit = nRound) && decide (pindex.getStakeEntropyBit = 1)) := by
  have distance : nRound.toUInt64.toNat % 64 = nRound := by
    rw [Nat.toUInt64, UInt64.toNat_ofNat']
    omega
  rw [UInt64.toNat_shiftLeft, distance, CBlockIndex.getStakeEntropyBit]
  split_ifs
  · have power : (1 : UInt64).toNat <<< nRound % 2 ^ 64 = 2 ^ nRound := by
      have one : (1 : UInt64).toNat = 1 := rfl
      rw [one, Nat.shiftLeft_eq, Nat.one_mul, Nat.mod_eq_of_lt]
      exact Nat.pow_lt_pow_right (by decide) small
    rw [power, Nat.testBit_two_pow]
    simp [eq_comm]
  · have zero : (0 : UInt64).toNat <<< nRound % 2 ^ 64 = 0 := by
      have none : (0 : UInt64).toNat = 0 := rfl
      rw [none, Nat.zero_shiftLeft, Nat.zero_mod]
    rw [zero, Nat.zero_testBit]
    simp

theorem HasBits.concat {selected : List CBlockIndex} {nStakeModifier : UInt64}
    (bits : HasBits selected nStakeModifier) (small : selected.length < 64)
    (pindex : CBlockIndex) :
    HasBits (selected ++ [pindex])
      (nStakeModifier |||
        pindex.getStakeEntropyBit <<< selected.length.toUInt64) := by
  intro bit
  rw [UInt64.toNat_or, Nat.testBit_or, bits bit, testBit_entropy _ small]
  rcases Nat.lt_trichotomy bit selected.length with before | same | after
  · rw [List.getElem?_append_left before]
    simp [Nat.ne_of_lt before]
  · rw [same, List.getElem?_concat_length, List.getElem?_eq_none le_rfl]
    simp
  · rw [List.getElem?_eq_none (Nat.le_of_lt after), List.getElem?_eq_none]
    · simp [Nat.ne_of_gt after]
    · rw [List.length_append, List.length_singleton]
      exact after

section Rounds

variable {params : KernelParams} {nStakeModifier : UInt64} {start : Int}
  {first : CBlockIndex} {entries selected : List CBlockIndex}

/-- A block more. -/
theorem Selects.concat {candidates : Set CBlockIndex} {choice : CBlockIndex}
    (selects : Selects params nStakeModifier start candidates first selected)
    (chosen : Chosen Earlier
      (rank params (first.nHeight ≥ params.nModifierUpdateBlock)
        nStakeModifier)
      (Inside (intervalEnd start selected.length))
      {pindex | pindex ∈ candidates ∧ pindex ∉ selected} choice) :
    Selects params nStakeModifier start candidates first
      (selected ++ [choice]) := by
  rcases chosen.member with ⟨candidate, unselected⟩
  constructor
  · intro pindex member
    rcases List.mem_append.mp member with earlier | last
    · exact selects.candidate pindex earlier
    · exact List.mem_singleton.mp last ▸ candidate
  · rw [List.nodup_append]
    refine ⟨selects.distinct, List.nodup_singleton choice, ?_⟩
    intro pindex earlier other last same
    rw [List.mem_singleton.mp last] at same
    exact unselected (same ▸ earlier)
  · intro nRound pindex found
    rcases Nat.lt_trichotomy nRound selected.length with before | same | after
    · rw [List.getElem?_append_left before] at found
      rw [List.take_append_of_le_length (Nat.le_of_lt before)]
      exact selects.chosen nRound pindex found
    · subst same
      rw [List.getElem?_concat_length] at found
      cases found
      rw [List.take_left']
      · exact chosen
      · rfl
    · rw [List.getElem?_eq_none] at found
      · cases found
      · rw [List.length_append, List.length_singleton]
        exact after

theorem intervalEnd_eq (start : Int) (nRound : Nat) :
    start + ((List.range nRound).map selectionIntervalSection).sum +
        selectionIntervalSection nRound = intervalEnd start nRound := by
  rw [intervalEnd, List.range_succ, List.map_append, List.sum_append,
    List.map_singleton, List.sum_singleton, Nat.cast_add, Int.add_assoc]

/-- Among different hashes a candidate is selected when its hash is. -/
theorem hash_selected_iff
    (apart : (entries.map CBlockIndex.getBlockHash).Nodup)
    (candidate : ∀ pindex ∈ selected, pindex ∈ entries)
    {pindex : CBlockIndex} (member : pindex ∈ entries) :
    pindex.getBlockHash ∈ (selected.map CBlockIndex.getBlockHash).reverse ↔
      pindex ∈ selected := by
  rw [List.mem_reverse, List.mem_map]
  constructor
  · rintro ⟨other, isSelected, same⟩
    rw [List.inj_on_of_nodup_map apart member (candidate other isSelected)
      same.symm]
    exact isSelected
  · exact fun isSelected => ⟨pindex, isSelected, rfl⟩

/-- Fewer blocks are selected than there are candidates, so one is left. -/
theorem exists_unselected
    (apart : ((first :: entries).map CBlockIndex.getBlockHash).Nodup)
    (candidate : ∀ pindex ∈ selected, pindex ∈ first :: entries)
    (fewer : selected.length < (first :: entries).length) :
    ∃ pindex ∈ first :: entries, pindex.getBlockHash ∉
      (selected.map CBlockIndex.getBlockHash).reverse := by
  by_contra none
  simp only [not_exists, not_and, not_not] at none
  have subset : first :: entries ⊆ selected := fun pindex member =>
    (hash_selected_iff apart candidate member).mp (none pindex member)
  have nodup : (first :: entries).Nodup := apart.of_map _
  have bound := (nodup.subperm subset).length_le
  omega

/-- The candidates with a hash that is not selected are those that are not
selected. -/
theorem unselected_eq
    (apart : ((first :: entries).map CBlockIndex.getBlockHash).Nodup)
    (candidate : ∀ pindex ∈ selected, pindex ∈ first :: entries) :
    {pindex | pindex ∈ first :: entries ∧ pindex.getBlockHash ∉
        (selected.map CBlockIndex.getBlockHash).reverse} =
      {pindex | pindex ∈ first :: entries ∧ pindex ∉ selected} := by
  ext pindex
  refine and_congr_right fun member => ?_
  rw [hash_selected_iff apart candidate member]

/-- The rounds that are left select as many blocks. -/
theorem selectRounds_selects {index : BlockMap}
    (listed : Listed index (first :: entries))
    (ordered : (first :: entries).Pairwise Earlier)
    (apart : ((first :: entries).map CBlockIndex.getBlockHash).Nodup)
    (rounds : Nat) {nStakeModifierNew : UInt64}
    (enough : selected.length + rounds ≤ (first :: entries).length)
    (most : selected.length + rounds ≤ 64)
    (selects : Selects params nStakeModifier start
      {pindex | pindex ∈ first :: entries} first selected)
    (bits : HasBits selected nStakeModifierNew) :
    ∃ all modifier,
      selectRounds params index ((first :: entries).map timePair)
          nStakeModifier rounds selected.length
          (start + ((List.range selected.length).map
            selectionIntervalSection).sum)
          (selected.map CBlockIndex.getBlockHash).reverse
          nStakeModifierNew = some modifier ∧
        all.length = selected.length + rounds ∧
        Selects params nStakeModifier start
          {pindex | pindex ∈ first :: entries} first all ∧
        HasBits all modifier := by
  induction rounds generalizing selected nStakeModifierNew with
  | zero => exact ⟨selected, nStakeModifierNew, rfl, rfl, selects, bits⟩
  | succ rounds ih =>
      have candidate : ∀ pindex ∈ selected, pindex ∈ first :: entries :=
        selects.candidate
      have left := exists_unselected apart candidate (by omega)
      rcases round_chosen (intervalEnd start selected.length) nStakeModifier
        listed ordered left with ⟨choice, found, chosen⟩
      rw [unselected_eq apart candidate] at chosen
      rcases ih (by rw [List.length_append, List.length_singleton]; omega)
        (by rw [List.length_append, List.length_singleton]; omega)
        (selects.concat chosen) (bits.concat (by omega) choice) with
        ⟨all, modifier, rest, length, selectsAll, bitsAll⟩
      refine ⟨all, modifier, ?_, ?_, selectsAll, bitsAll⟩
      · rw [List.length_append, List.length_singleton, List.range_succ,
          List.map_append, List.sum_append, List.map_singleton,
          List.sum_singleton, Nat.cast_add, ← Int.add_assoc,
          List.map_append, List.map_singleton, List.reverse_append,
          List.reverse_singleton, List.singleton_append] at rest
        simp only [selectRounds]
        rw [intervalEnd_eq, found, ← intervalEnd_eq]
        exact rest
      · rw [length, List.length_append, List.length_singleton]
        omega

end Rounds

/-! ## The next modifier -/

section Chains

variable {params : KernelParams} {address : UInt256 → UInt64}
  {index : BlockMap} {chain : List CBlockIndex}

/-- Every entry of a chain is where the index says. -/
theorem suffix_of_behind (indexed : Indexed params address index)
    (behind : Behind index chain) {pindex : CBlockIndex}
    (member : pindex ∈ chain) :
    ∃ pprev, pindex :: pprev <:+ chain ∧
      index pindex.getBlockHash = some (pindex :: pprev) := by
  induction chain with
  | nil => cases member
  | cons newest older ih =>
      rcases List.mem_cons.mp member with rfl | later
      · exact ⟨older, List.suffix_refl _, behind⟩
      · rcases ih (indexed.tail behind) later with ⟨pprev, suffix, found⟩
        exact ⟨pprev, suffix.trans (List.suffix_cons _ _), found⟩

/-- The hashes along a chain are different. -/
theorem nodup_of_behind (indexed : Indexed params address index)
    (behind : Behind index chain) :
    (chain.map CBlockIndex.getBlockHash).Nodup := by
  induction chain with
  | nil => exact List.nodup_nil
  | cons newest older ih =>
      rw [List.map_cons, List.nodup_cons]
      refine ⟨fun repeated => ?_, ih (indexed.tail behind)⟩
      rcases List.mem_map.mp repeated with ⟨pindex, member, same⟩
      rcases suffix_of_behind indexed (indexed.tail behind) member with
        ⟨pprev, suffix, found⟩
      have here : index newest.getBlockHash = some (newest :: older) := behind
      rw [same, here] at found
      cases found
      have shorter := suffix.length_le
      rw [List.length_cons] at shorter
      omega

/-- Past the first block some block behind has generated a modifier. -/
theorem getLastStakeModifier_some (indexed : Indexed params address index)
    {prev : CBlockIndex} {pprev : List CBlockIndex}
    (behind : Behind index (prev :: pprev)) (past : prev.nHeight ≠ 0) :
    ∃ last, getLastStakeModifier (prev :: pprev) = some last := by
  induction pprev generalizing prev with
  | nil => exact absurd (indexed.nHeight behind) past
  | cons parent pprev ih =>
      rw [getLastStakeModifier]
      split_ifs with generated
      · exact ⟨_, rfl⟩
      · refine ih (indexed.tail behind) fun genesis => generated ?_
        rw [indexed.made behind]
        simp only [newEntry, computeNextStakeModifier]
        rw [if_pos genesis]

end Chains

/-- `nSelectionIntervalStart`. -/
def selectionStart (prev : CBlockIndex) : Int :=
  prev.getBlockTime / intervalVersion * intervalVersion - selectionInterval

/-- The block before the new one is always a candidate. -/
theorem window_ne_nil (prev : CBlockIndex) (pprev : List CBlockIndex) :
    window (selectionStart prev) (prev :: pprev) ≠ [] := by
  have recent : prev.getBlockTime ≥ selectionStart prev := by
    rw [selectionStart, intervalVersion]
    omega
  rw [window, List.takeWhile_cons_of_pos (by simpa using recent)]
  exact List.cons_ne_nil _ _

/--
Past the first block a modifier has always been generated.  When its interval
has ended, the next one succeeds, and its bits are the entropy bits of the
blocks that the rule selects, as many as there are candidates or 64.
-/
theorem stake_modifier_selects (params : KernelParams) (events : List Event)
    (literal : UInt64) (prev : CBlockIndex) (pprev : List CBlockIndex)
    (found : runIndex params events prev.getBlockHash = some (prev :: pprev))
    (past : prev.nHeight ≠ 0) :
    ∃ nStakeModifier nModifierTime,
      getLastStakeModifier (prev :: pprev) =
        some (nStakeModifier, nModifierTime) ∧
      (nModifierTime / intervalVersion < prev.getBlockTime / intervalVersion →
        ∃ first selected nStakeModifierNew,
          computeNextStakeModifier params literal (runIndex params events)
            (prev :: pprev) = ⟨true, nStakeModifierNew, true⟩ ∧
          first ∈ window (selectionStart prev) (prev :: pprev) ∧
          (∀ other ∈ window (selectionStart prev) (prev :: pprev),
            first = other ∨ Earlier first other) ∧
          selected.length = min 64
            (window (selectionStart prev) (prev :: pprev)).length ∧
          Selects params nStakeModifier (selectionStart prev)
            {pindex | pindex ∈ window (selectionStart prev) (prev :: pprev)}
            first selected ∧
          HasBits selected nStakeModifierNew) := by
  have indexed := runIndex_indexed params events
  have behind : Behind (runIndex params events) (prev :: pprev) := found
  rcases getLastStakeModifier_some indexed behind past with
    ⟨⟨nStakeModifier, nModifierTime⟩, last⟩
  refine ⟨nStakeModifier, nModifierTime, last, fun ended => ?_⟩
  have apart := nodup_of_behind indexed behind
  have ordered := sortedWindow_ordered apart (selectionStart prev)
  have distinct := nodup_sortedWindow apart (selectionStart prev)
  have size := length_sortedWindow (selectionStart prev) (prev :: pprev)
  have listed : Listed (runIndex params events)
      (sortedWindow (selectionStart prev) (prev :: pprev)) := by
    intro pindex member
    have inChain := List.takeWhile_subset _ (mem_sortedWindow.mp member)
    rcases suffix_of_behind indexed behind inChain with ⟨rest, _, here⟩
    exact ⟨rest, here⟩
  have members : ∀ pindex,
      pindex ∈ sortedWindow (selectionStart prev) (prev :: pprev) ↔
        pindex ∈ window (selectionStart prev) (prev :: pprev) :=
    fun _ => mem_sortedWindow
  have sorted := sortedByTimestamp_eq (selectionStart prev) (prev :: pprev)
  generalize sortedWindow (selectionStart prev) (prev :: pprev) = entries
    at ordered distinct size listed members sorted
  cases entries with
  | nil =>
      exact absurd (List.length_eq_zero_iff.mp size.symm)
        (window_ne_nil prev pprev)
  | cons first entries =>
      have nothing : Selects params nStakeModifier (selectionStart prev)
          {pindex | pindex ∈ first :: entries} first [] :=
        ⟨by simp, List.nodup_nil, by simp⟩
      have noBits : HasBits [] 0 := fun bit => Nat.zero_testBit bit
      rcases selectRounds_selects listed ordered distinct
        (min 64 (first :: entries).length) (by simp) (by simp) nothing noBits with
        ⟨selected, modifier, rounds, length, selects, bits⟩
      have candidates : {pindex | pindex ∈ first :: entries} =
          {pindex | pindex ∈ window (selectionStart prev)
            (prev :: pprev)} := by
        ext pindex
        exact members pindex
      rw [candidates] at selects
      refine ⟨first, selected, modifier, ?_,
        (members first).mp List.mem_cons_self, ?_, ?_, selects, bits⟩
      · simp only [computeNextStakeModifier]
        rw [if_neg past, last]
        dsimp only
        rw [if_neg (Int.not_le.mpr ended)]
        have start : prev.getBlockTime / intervalVersion * intervalVersion -
            selectionInterval = selectionStart prev := rfl
        rw [List.length_nil, List.range_zero, List.map_nil, List.sum_nil,
          Nat.cast_zero, Int.add_zero, List.map_nil,
          List.reverse_nil] at rounds
        rw [start, sorted, List.length_map, rounds]
      · intro other member
        rcases List.mem_cons.mp ((members other).mpr member) with rfl | later
        · exact .inl rfl
        · exact .inr ((List.pairwise_cons.mp ordered).1 other later)
      · rw [length, List.length_nil, Nat.zero_add, size]

/-- The chain of the two minutes, with the modifier of its first block. -/
theorem stake_modifier_selects_threeBlocks :
    ∃ prev pprev, runIndex plainParams (indexing 0x555000 0x1) 13 =
        some (prev :: pprev) ∧
      ∃ nStakeModifierNew, computeNextStakeModifier plainParams 0
        (runIndex plainParams (indexing 0x555000 0x1)) (prev :: pprev) =
          ⟨true, nStakeModifierNew, true⟩ := by
  have found : runIndex plainParams (indexing 0x555000 0x1) 13 =
      some [⟨blockTwo, 2, 0x555000, false⟩, ⟨blockOne, 1, 0x555000, true⟩,
        ⟨genesis, 0, 0, false⟩] := by
    decide +kernel
  rcases stake_modifier_selects plainParams (indexing 0x555000 0x1) 0
    ⟨blockTwo, 2, 0x555000, false⟩ _ found (by decide) with
    ⟨nStakeModifier, nModifierTime, last, selects⟩
  cases last
  rcases selects (by decide) with ⟨_, _, nStakeModifierNew, computed, _⟩
  exact ⟨_, _, found, nStakeModifierNew, computed⟩

end PrivateDatagram.Consensus.StakeSelection
