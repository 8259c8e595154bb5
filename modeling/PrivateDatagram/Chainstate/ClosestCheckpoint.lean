import PrivateDatagram.Chainstate.Accumulators

/-!
# The closest checkpoint

`GetClosestCheckpoint` goes through the checkpoints by ascending height and
takes a height over when its distance to the requested height is below the
best height so far.  So it ends with the last checkpoint below the requested
height, or with the first one, and which of the two depends on the first.
-/

namespace PrivateDatagram.Chainstate.Accumulators

/-- `mapCheckpoints`, by ascending height. -/
structure CheckpointMap where
  entries : List (Nat × AccumulatorMap)
  ascending : entries.Pairwise fun it other => it.1 < other.1

/-- `GetClosestCheckpoint`, of any height. -/
def closestCheckpoint (mapCheckpoints : List (Nat × AccumulatorMap))
    (nHeight : Int) : Int × AccumulatorMap :=
  let nHeightCheckpoint := closestHeight nHeight (-1) mapCheckpoints
  match mapCheckpoints.find? fun it =>
      (it.1 : Int) = nHeightCheckpoint with
  | some it => (nHeightCheckpoint, it.2)
  | none => (nHeightCheckpoint, fun _ => 0)

/-- What a caller expects from `GetClosestCheckpoint`. -/
inductive Closest (checkpoints : List (Nat × AccumulatorMap))
    (nHeight : Int) : Int × AccumulatorMap → Prop
  | absent (above : ∀ it ∈ checkpoints, nHeight ≤ it.1) :
      Closest checkpoints nHeight (-1, fun _ => 0)
  | greatest (it : Nat × AccumulatorMap) (isCheckpoint : it ∈ checkpoints)
      (below : (it.1 : Int) < nHeight)
      (others : ∀ other ∈ checkpoints, (other.1 : Int) < nHeight →
        other.1 ≤ it.1) :
      Closest checkpoints nHeight (it.1, it.2)

namespace CheckpointMap

/-- The checkpoints below a height. -/
def below (checkpoints : CheckpointMap) (nHeight : Int) :
    List (Nat × AccumulatorMap) :=
  checkpoints.entries.filter fun it => (it.1 : Int) < nHeight

/--
The last checkpoint below a height is the only one there, or it is closer to
that height than the first one is to the first block.
-/
def Near (checkpoints : CheckpointMap) (nHeight : Int) : Prop :=
  ∀ first ∈ (checkpoints.below nHeight).head?,
    ∀ last ∈ (checkpoints.below nHeight).getLast?,
      first.1 = last.1 ∨ nHeight - last.1 < first.1

theorem mem_below {checkpoints : CheckpointMap} {nHeight : Int}
    {it : Nat × AccumulatorMap} :
    it ∈ checkpoints.below nHeight ↔
      it ∈ checkpoints.entries ∧ (it.1 : Int) < nHeight := by
  unfold below
  rw [List.mem_filter, decide_eq_true_eq]

theorem below_ascending (checkpoints : CheckpointMap) (nHeight : Int) :
    (checkpoints.below nHeight).Pairwise fun it other => it.1 < other.1 :=
  checkpoints.ascending.filter _

/-- A height stands for one checkpoint. -/
theorem entry_unique {checkpoints : CheckpointMap}
    {it other : Nat × AccumulatorMap} (isEntry : it ∈ checkpoints.entries)
    (isOther : other ∈ checkpoints.entries) (same : it.1 = other.1) :
    it = other := by
  have distinct : (checkpoints.entries.map Prod.fst).Nodup :=
    List.pairwise_map.mpr (checkpoints.ascending.imp Nat.ne_of_lt)
  exact List.inj_on_of_nodup_map distinct isEntry isOther same

end CheckpointMap

/-! ## The loop -/

/-- The loop passes over checkpoints that are not below the height. -/
theorem closestHeight_filter (nHeight : Int)
    (checkpoints : List (Nat × AccumulatorMap)) (nHeightCheckpoint : Int) :
    closestHeight nHeight nHeightCheckpoint
        (checkpoints.filter fun it => (it.1 : Int) < nHeight) =
      closestHeight nHeight nHeightCheckpoint checkpoints := by
  induction checkpoints generalizing nHeightCheckpoint with
  | nil => rfl
  | cons it rest ih =>
      by_cases isBelow : (it.1 : Int) < nHeight
      · rw [List.filter_cons_of_pos (by simpa using isBelow)]
        simp only [closestHeight, if_pos isBelow]
        exact ih _
      · rw [List.filter_cons_of_neg (by simpa using isBelow)]
        simp only [closestHeight, if_neg isBelow]
        exact ih _

/-- The height that the rest of the loop ends with. -/
def settled (nHeight : Int) (best : Nat) :
    Option (Nat × AccumulatorMap) → Nat
  | none => best
  | some last => if nHeight - last.1 < best then last.1 else best

/-- Once the loop has a height, only the last checkpoint can replace it. -/
theorem closestHeight_settled {nHeight : Int}
    {checkpoints : List (Nat × AccumulatorMap)} {best : Nat}
    (isBelow : ∀ it ∈ checkpoints, (it.1 : Int) < nHeight)
    (ascending : checkpoints.Pairwise fun it other => it.1 < other.1)
    (above : ∀ it ∈ checkpoints, best ≤ it.1) :
    closestHeight nHeight best checkpoints =
      settled nHeight best checkpoints.getLast? := by
  induction checkpoints generalizing best with
  | nil => rfl
  | cons it rest ih =>
      have first : (it.1 : Int) < nHeight := isBelow it List.mem_cons_self
      have bound : best ≤ it.1 := above it List.mem_cons_self
      have later : ∀ other ∈ rest, it.1 < other.1 := fun other isOther =>
        List.rel_of_pairwise_cons ascending isOther
      have next : ∀ height : Nat, height ≤ it.1 →
          closestHeight nHeight height rest =
            settled nHeight height rest.getLast? := fun height low =>
        ih (fun other isOther => isBelow other (List.mem_cons_of_mem _ isOther))
          (List.Pairwise.of_cons ascending)
          fun other isOther => low.trans (later other isOther).le
      have chosen : (best : Int) ≠ -1 := by omega
      simp only [closestHeight, if_pos first, if_neg chosen]
      -- A later checkpoint is higher and closer, so it wins against `it`
      -- and wins against `best` whenever `it` does.
      by_cases closer : nHeight - it.1 < best
      · rw [if_pos closer, next it.1 le_rfl, List.getLast?_cons]
        cases isLast : rest.getLast? with
        | none => simp [settled, closer]
        | some last =>
            have higher := later last (List.mem_of_getLast? isLast)
            simp only [settled, Option.getD_some]
            rw [if_pos (by omega), if_pos (by omega)]
      · rw [if_neg closer, next best bound, List.getLast?_cons]
        cases isLast : rest.getLast? with
        | none => simp [settled, closer]
        | some last => rfl

/-- The loop ends with the last or the first checkpoint below the height. -/
theorem closestHeight_eq {checkpoints : CheckpointMap} {nHeight : Int}
    {first last : Nat × AccumulatorMap}
    (isFirst : (checkpoints.below nHeight).head? = some first)
    (isLast : (checkpoints.below nHeight).getLast? = some last) :
    closestHeight nHeight (-1) checkpoints.entries =
      if nHeight - last.1 < first.1 then (last.1 : Int) else first.1 := by
  rw [← closestHeight_filter]
  change closestHeight nHeight (-1) (checkpoints.below nHeight) = _
  have ascending := checkpoints.below_ascending nHeight
  have isBelow : ∀ it ∈ checkpoints.below nHeight, (it.1 : Int) < nHeight :=
    fun it here => (CheckpointMap.mem_below.mp here).2
  cases entries : checkpoints.below nHeight with
  | nil => rw [entries] at isFirst; cases isFirst
  | cons it rest =>
      rw [entries] at isFirst isLast ascending isBelow
      cases isFirst
      have chosen : (first.1 : Int) ≠ -1 := by omega
      -- The first checkpoint is taken whatever its distance is.
      have start : closestHeight nHeight (-1) (first :: rest) =
          closestHeight nHeight first.1 (first :: rest) := by
        have isFirstBelow := isBelow first List.mem_cons_self
        simp only [closestHeight, if_pos isFirstBelow, if_neg chosen, if_true,
          ite_self]
      rw [start, closestHeight_settled isBelow ascending, isLast]
      · simp only [settled]
        split <;> rfl
      · intro other isOther
        rcases List.mem_cons.mp isOther with same | later
        · rw [same]
        · exact (List.rel_of_pairwise_cons ascending later).le

theorem closestHeight_none {checkpoints : CheckpointMap} {nHeight : Int}
    (isEmpty : checkpoints.below nHeight = []) :
    closestHeight nHeight (-1) checkpoints.entries = -1 := by
  rw [← closestHeight_filter]
  change closestHeight nHeight (-1) (checkpoints.below nHeight) = _
  rw [isEmpty]
  rfl

/-! ## The checkpoint that is returned -/

theorem closestCheckpoint_none {checkpoints : CheckpointMap} {nHeight : Int}
    (isEmpty : checkpoints.below nHeight = []) :
    closestCheckpoint checkpoints.entries nHeight = (-1, fun _ => 0) := by
  have missing : (checkpoints.entries.find? fun it =>
      decide ((it.1 : Int) = -1)) = none := by
    rw [List.find?_eq_none]
    intro it _
    rw [decide_eq_true_eq]
    omega
  unfold closestCheckpoint
  simp only [closestHeight_none isEmpty, missing]

/-- The height in the answer is that of the checkpoint beside it. -/
theorem closestCheckpoint_of_height {checkpoints : CheckpointMap}
    {nHeight : Int} {it : Nat × AccumulatorMap}
    (isEntry : it ∈ checkpoints.entries)
    (height : closestHeight nHeight (-1) checkpoints.entries = it.1) :
    closestCheckpoint checkpoints.entries nHeight =
      ((it.1 : Int), it.2) := by
  unfold closestCheckpoint
  simp only [height]
  cases found : checkpoints.entries.find? fun other =>
      decide ((other.1 : Int) = it.1) with
  | none =>
      have differ := List.find?_eq_none.mp found it isEntry
      rw [decide_eq_true_eq] at differ
      exact absurd rfl differ
  | some other =>
      have same := List.find?_some found
      rw [decide_eq_true_eq, Int.ofNat_inj] at same
      rw [CheckpointMap.entry_unique (List.mem_of_find?_eq_some found) isEntry
        same]

/-- The last checkpoint below a height is the greatest. -/
theorem le_last {checkpoints : CheckpointMap} {nHeight : Int}
    {last : Nat × AccumulatorMap}
    (isLast : (checkpoints.below nHeight).getLast? = some last) :
    ∀ other ∈ checkpoints.entries, (other.1 : Int) < nHeight →
      other.1 ≤ last.1 := by
  intro other isOther isBelow
  have here := CheckpointMap.mem_below.mpr ⟨isOther, isBelow⟩
  rcases List.getLast?_eq_some_iff.mp isLast with ⟨front, parts⟩
  have ascending := checkpoints.below_ascending nHeight
  rw [parts] at here ascending
  rcases List.mem_append.mp here with inFront | same
  · exact ((List.pairwise_append.mp ascending).2.2 other inFront last
      List.mem_cons_self).le
  · rw [List.mem_singleton.mp same]

/-- The height of the answer is settled by what a caller expects. -/
theorem Closest.height {checkpoints : CheckpointMap} {nHeight : Int}
    {last : Nat × AccumulatorMap}
    (isLast : (checkpoints.below nHeight).getLast? = some last)
    {answer : Int × AccumulatorMap}
    (closest : Closest checkpoints.entries nHeight answer) :
    answer.1 = last.1 := by
  have here := CheckpointMap.mem_below.mp (List.mem_of_getLast? isLast)
  cases closest with
  | absent above => exact absurd here.2 (not_lt.mpr (above last here.1))
  | greatest it isCheckpoint isBelow others =>
      exact congrArg Nat.cast (le_antisymm
        (le_last isLast it isCheckpoint isBelow) (others last here.1 here.2))

/--
`GetClosestCheckpoint` returns the greatest checkpoint below a height exactly
when that checkpoint is near.
-/
theorem closestCheckpoint_iff_near (checkpoints : CheckpointMap)
    (nHeight : Int) :
    Closest checkpoints.entries nHeight
        (closestCheckpoint checkpoints.entries nHeight) ↔
      checkpoints.Near nHeight := by
  cases entries : checkpoints.below nHeight with
  | nil =>
      constructor
      · intro _ first isFirst
        rw [entries] at isFirst
        cases isFirst
      · intro _
        rw [closestCheckpoint_none entries]
        refine .absent fun it isEntry => not_lt.mp fun isBelow => ?_
        have here := CheckpointMap.mem_below.mpr ⟨isEntry, isBelow⟩
        rw [entries] at here
        cases here
  | cons first rest =>
      have isFirst : (checkpoints.below nHeight).head? = some first := by
        rw [entries]
        rfl
      have notEmpty : checkpoints.below nHeight ≠ [] := by
        rw [entries]
        exact List.cons_ne_nil first rest
      have isLast := List.getLast?_eq_some_getLast notEmpty
      generalize (checkpoints.below nHeight).getLast notEmpty = last at isLast
      have height := closestHeight_eq isFirst isLast
      have firstHere := CheckpointMap.mem_below.mp (List.mem_of_head? isFirst)
      have lastHere := CheckpointMap.mem_below.mp (List.mem_of_getLast? isLast)
      constructor
      · intro closest other isOther final isFinal
        cases isFirst.symm.trans isOther
        cases isLast.symm.trans isFinal
        by_contra far
        rw [not_or] at far
        rw [if_neg far.2] at height
        have answer := closest.height isLast
        rw [closestCheckpoint_of_height firstHere.1 height] at answer
        exact far.1 (Int.ofNat_inj.mp answer)
      · intro near
        have reached : closestHeight nHeight (-1) checkpoints.entries =
            last.1 := by
          rcases near first isFirst last isLast with same | closer
          · rw [height, same, ite_self]
          · rw [height, if_pos closer]
        rw [closestCheckpoint_of_height lastHere.1 reached]
        exact .greatest last lastHere.1 lastHere.2 (le_last isLast)

/-- Checkpoints at the heights 10 and 20. -/
def twoCheckpoints : CheckpointMap where
  entries := [(10, fun _ => 1), (20, fun _ => 2)]
  ascending := by simp

/-- At height 100 the answer is the checkpoint at height 10. -/
theorem closestCheckpoint_far :
    (closestCheckpoint twoCheckpoints.entries 100).1 = 10 ∧
      ¬ Closest twoCheckpoints.entries 100
        (closestCheckpoint twoCheckpoints.entries 100) := by
  have height : (closestCheckpoint twoCheckpoints.entries 100).1 = 10 := by
    decide
  refine ⟨height, fun closest => ?_⟩
  have isLast : (twoCheckpoints.below 100).getLast? =
      some (20, fun _ => 2) := by
    rfl
  have answer := closest.height isLast
  rw [height] at answer
  exact absurd answer (by decide)

end PrivateDatagram.Chainstate.Accumulators
