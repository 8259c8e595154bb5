import Mathlib.Data.List.Basic

/-!
# Passed marks

A mark goes through a series of stages.  Each stage drops the mark unless it
keeps its value; a marking stage then sets a fresh mark where there is none.
A mark is there at the end, whatever it was at the start, when the last mark
that was set or kept cannot be dropped any more.
-/

namespace PrivateDatagram.Library.PassedMark

variable {σ α : Type*} (keeps : σ → α → Bool) (marks : σ → Bool) (fresh : α)

def passStage (mark : Option α) (stage : σ) : Option α :=
  let kept := mark.filter (keeps stage)
  if marks stage then some (kept.getD fresh) else kept

def passes (stages : List σ) (mark : Option α) : Option α :=
  stages.foldl (passStage keeps marks fresh) mark

variable {keeps marks fresh}

theorem pass_kept {stage : σ} {value : α}
    (kept : keeps stage value = true) :
    passStage keeps marks fresh (some value) stage = some value := by
  unfold passStage
  rw [Option.filter_some_pos kept]
  exact ite_self _

/-- A value after a stage is fresh or was there before. -/
theorem pass_value {stage : σ} {mark : Option α} {value : α}
    (passed : passStage keeps marks fresh mark stage = some value) :
    value = fresh ∨ mark = some value ∧ keeps stage value = true := by
  unfold passStage at passed
  dsimp only at passed
  cases kept : mark.filter (keeps stage) with
  | some old =>
      rw [kept, Option.getD_some, ite_self] at passed
      cases passed
      exact .inr (Option.filter_eq_some_iff.mp kept)
  | none =>
      rw [kept] at passed
      split at passed
      · cases passed
        exact .inl rfl
      · cases passed

theorem passes_kept {stages : List σ} {value : α}
    (kept : ∀ stage ∈ stages, keeps stage value = true) :
    passes keeps marks fresh stages (some value) = some value := by
  induction stages with
  | nil => rfl
  | cons stage stages ih =>
      unfold passes
      rw [List.foldl_cons, pass_kept (kept stage List.mem_cons_self)]
      exact ih fun other here => kept other (List.mem_cons_of_mem _ here)

theorem passes_value {stages : List σ} {mark : Option α} {value : α}
    (passed : passes keeps marks fresh stages mark = some value) :
    value = fresh ∨
      mark = some value ∧ ∀ stage ∈ stages, keeps stage value = true := by
  induction stages generalizing mark with
  | nil =>
      refine .inr ⟨passed, ?_⟩
      intro stage impossible
      cases impossible
  | cons stage stages ih =>
      rcases ih passed with isFresh | ⟨before, later⟩
      · exact .inl isFresh
      · rcases pass_value before with isFresh | ⟨old, kept⟩
        · exact .inl isFresh
        · exact .inr ⟨old, List.forall_mem_cons.mpr ⟨kept, later⟩⟩

theorem passes_append (first later : List σ) (mark : Option α) :
    passes keeps marks fresh (first ++ later) mark =
      passes keeps marks fresh later (passes keeps marks fresh first mark) :=
  List.foldl_append

/-- Without a marking stage only what all stages keep is left. -/
theorem passes_unmarked {stages : List σ} {mark : Option α} {value : α}
    (unmarked : ∀ stage ∈ stages, marks stage = false)
    (passed : passes keeps marks fresh stages mark = some value) :
    mark = some value ∧ ∀ stage ∈ stages, keeps stage value = true := by
  induction stages generalizing mark with
  | nil =>
      refine ⟨passed, ?_⟩
      intro stage impossible
      cases impossible
  | cons stage stages ih =>
      rcases List.forall_mem_cons.mp unmarked with ⟨here, later⟩
      obtain ⟨before, kept⟩ := ih later passed
      unfold passStage at before
      rw [here] at before
      obtain ⟨old, keptHere⟩ := Option.filter_eq_some_iff.mp before
      exact ⟨old, List.forall_mem_cons.mpr ⟨keptHere, kept⟩⟩

theorem exists_last_marking {stages : List σ} {stage : σ}
    (here : stage ∈ stages) (isMarking : marks stage = true) :
    ∃ first last later, stages = first ++ last :: later ∧
      marks last = true ∧ ∀ other ∈ later, marks other = false := by
  induction stages generalizing stage with
  | nil => cases here
  | cons head stages ih =>
      by_cases laterMarks : ∃ other ∈ stages, marks other = true
      · obtain ⟨other, member, isMarking⟩ := laterMarks
        obtain ⟨first, last, later, split, lastMarks, unmarked⟩ :=
          ih member isMarking
        exact ⟨head :: first, last, later, by rw [split]; rfl, lastMarks,
          unmarked⟩
      · have unmarked : ∀ other ∈ stages, marks other = false :=
          fun other member => eq_false_of_ne_true fun isMarking =>
            laterMarks ⟨other, member, isMarking⟩
        rcases List.mem_cons.mp here with rfl | member
        · exact ⟨[], stage, stages, rfl, isMarking, unmarked⟩
        · exact absurd ⟨stage, member, isMarking⟩ laterMarks

/-- A mark is there at a final stage, whatever it was at the start, if and
only if a marking stage comes before from which on all values are kept that
were kept until then. -/
theorem always_marked_iff {stages : List σ} {final : σ}
    (keepsFresh : ∀ stage ∈ stages ++ [final], keeps stage fresh = true) :
    (∀ mark, ((passes keeps marks fresh stages mark).filter
        (keeps final)).isSome) ↔
      ∃ first stage later, stages = first ++ stage :: later ∧
        marks stage = true ∧ ∀ value,
          (∀ other ∈ first ++ [stage], keeps other value = true) →
            ∀ other ∈ later ++ [final], keeps other value = true := by
  constructor
  · intro always
    have marked : ∃ stage ∈ stages, marks stage = true := by
      by_contra none
      have unmarked : ∀ stage ∈ stages, marks stage = false :=
        fun stage here => eq_false_of_ne_true fun isMarking =>
          none ⟨stage, here, isMarking⟩
      obtain ⟨value, passed⟩ := Option.isSome_iff_exists.mp (always .none)
      have before := (Option.filter_eq_some_iff.mp passed).1
      cases (passes_unmarked unmarked before).1
    obtain ⟨stage, here, isMarking⟩ := marked
    obtain ⟨first, last, later, rfl, lastMarks, unmarked⟩ :=
      exists_last_marking here isMarking
    refine ⟨first, last, later, rfl, lastMarks, ?_⟩
    intro value kept
    obtain ⟨left, passed⟩ := Option.isSome_iff_exists.mp (always (some value))
    obtain ⟨atEnd, keptLast⟩ := Option.filter_eq_some_iff.mp passed
    rw [List.append_cons, passes_append, passes_kept kept] at atEnd
    obtain ⟨same, keptLater⟩ := passes_unmarked unmarked atEnd
    cases same
    intro other member
    rcases List.mem_append.mp member with member | member
    · exact keptLater other member
    · rw [List.mem_singleton.mp member]
      exact keptLast
  · rintro ⟨first, stage, later, rfl, isMarking, stays⟩ mark
    have set : ∃ value, passes keeps marks fresh (first ++ [stage]) mark =
        some value := by
      rw [passes_append]
      refine ⟨((passes keeps marks fresh first mark).filter
        (keeps stage)).getD fresh, ?_⟩
      exact if_pos isMarking
    obtain ⟨value, isSet⟩ := set
    have kept : ∀ other ∈ later ++ [final], keeps other value = true := by
      rcases passes_value isSet with rfl | ⟨_, keptFirst⟩
      · intro other member
        refine keepsFresh other ?_
        rw [List.append_assoc]
        exact List.mem_append_right _ (List.mem_cons_of_mem _ member)
      · exact stays value keptFirst
    rw [List.append_cons, passes_append, isSet, passes_kept fun other member =>
      kept other (List.mem_append_left _ member)]
    rw [Option.filter_some_pos
      (kept final (List.mem_append_right _ List.mem_cons_self))]
    rfl

end PrivateDatagram.Library.PassedMark
