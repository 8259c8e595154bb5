import Mathlib.Logic.Basic

/-!
# Guarded runs

When a condition on single steps is exactly what a property needs to hold in
all states of a run.
-/

namespace PrivateDatagram.Library.GuardedRun

variable {σ ι : Type*} (next : σ → ι → σ)

/-- The property holds in all states of a run. -/
def Always (property : σ → Prop) : List ι → σ → Prop
  | [], state => property state
  | input :: inputs, state =>
      property state ∧ Always property inputs (next state input)

/-- The condition holds of all steps of a run. -/
def Along (condition : σ → ι → Prop) : List ι → σ → Prop
  | [], _ => True
  | input :: inputs, state =>
      condition state input ∧ Along condition inputs (next state input)

variable {next}

theorem along_trivial (inputs : List ι) (state : σ) :
    Along next (fun _ _ => True) inputs state := by
  induction inputs generalizing state with
  | nil => trivial
  | cons input inputs ih => exact ⟨trivial, ih _⟩

theorem Always.start {property : σ → Prop} {inputs : List ι} {state : σ}
    (always : Always next property inputs state) : property state := by
  cases inputs with
  | nil => exact always
  | cons input inputs => exact always.1

theorem always_iff_along {property : σ → Prop} {condition : σ → ι → Prop}
    (step : ∀ state input, property state →
      (property (next state input) ↔ condition state input))
    {state : σ} (start : property state) (inputs : List ι) :
    Always next property inputs state ↔
      Along next condition inputs state := by
  induction inputs generalizing state with
  | nil => exact iff_of_true start trivial
  | cons input inputs ih =>
      unfold Always Along
      constructor
      · rintro ⟨_, later⟩
        exact ⟨(step state input start).mp later.start,
          (ih later.start).mp later⟩
      · rintro ⟨meets, later⟩
        have after := (step state input start).mpr meets
        exact ⟨start, (ih after).mpr later⟩

/-- A property of the states of runs along which a condition keeps an
invariant. -/
theorem Along.always {invariant property : σ → Prop}
    {condition : σ → ι → Prop}
    (step : ∀ state input, invariant state → condition state input →
      invariant (next state input))
    (holds : ∀ state, invariant state → property state)
    {state : σ} (start : invariant state) {inputs : List ι}
    (along : Along next condition inputs state) :
    Always next property inputs state := by
  induction inputs generalizing state with
  | nil => exact holds state start
  | cons input inputs ih =>
      obtain ⟨meets, later⟩ := along
      exact ⟨holds state start, ih (step state input start meets) later⟩

/-- A property of the steps of such runs. -/
theorem Along.imp {invariant : σ → Prop} {condition result : σ → ι → Prop}
    (step : ∀ state input, invariant state → condition state input →
      invariant (next state input) ∧ result state input)
    {state : σ} (start : invariant state) {inputs : List ι}
    (along : Along next condition inputs state) :
    Along next result inputs state := by
  induction inputs generalizing state with
  | nil => trivial
  | cons input inputs ih =>
      obtain ⟨meets, later⟩ := along
      obtain ⟨kept, reached⟩ := step state input start meets
      exact ⟨reached, ih kept later⟩

end PrivateDatagram.Library.GuardedRun
