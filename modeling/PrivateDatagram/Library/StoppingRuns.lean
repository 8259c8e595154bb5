import Mathlib.Logic.Basic

/-!
# Runs that may stop early

A program changes a state and returns a value, or stops early and leaves the
state as it is at that moment.  A triple says how a program may end: by
returning with the postcondition, or by stopping with the stop condition, which
is the same for all parts of a program.
-/

namespace PrivateDatagram.Library.StoppingRuns

variable {σ ε α β : Type}

/-- Started with the precondition, the program ends in one of the two ways. -/
def Meets (stop : ε → σ → Prop) (pre : σ → Prop) (program : EStateM ε σ α)
    (post : α → σ → Prop) : Prop :=
  ∀ state, pre state →
    match program state with
    | .ok value after => post value after
    | .error reason after => stop reason after

variable {stop : ε → σ → Prop} {pre pre' : σ → Prop}
  {program : EStateM ε σ α} {post post' : α → σ → Prop}
  {next : α → EStateM ε σ β} {final : β → σ → Prop}

theorem Meets.pure {value : α} (holds : ∀ state, pre state → post value state) :
    Meets stop pre (Pure.pure value) post :=
  holds

theorem Meets.throw {reason : ε}
    (holds : ∀ state, pre state → stop reason state) :
    Meets stop pre (MonadExcept.throw reason) post :=
  holds

theorem Meets.modify {change : σ → σ} {post : PUnit → σ → Prop}
    (holds : ∀ state, pre state → post ⟨⟩ (change state)) :
    Meets stop pre (modify change) post :=
  holds

theorem Meets.bind {middle : α → σ → Prop}
    (first : Meets stop pre program middle)
    (rest : ∀ value, Meets stop (middle value) (next value) final) :
    Meets stop pre (program >>= next) final := by
  intro state holds
  have reached := first state holds
  show match EStateM.bind program next state with
    | .ok value after => final value after
    | .error reason after => stop reason after
  unfold EStateM.bind
  cases ended : program state with
  | ok value after =>
      rw [ended] at reached
      exact rest value after reached
  | error reason after =>
      rw [ended] at reached
      exact reached

theorem Meets.of_ok (meets : Meets stop pre program post) {state after : σ}
    {value : α} (holds : pre state)
    (ended : program state = .ok value after) : post value after := by
  have reached := meets state holds
  rw [ended] at reached
  exact reached

theorem Meets.of_error (meets : Meets stop pre program post)
    {state after : σ} {reason : ε} (holds : pre state)
    (ended : program state = .error reason after) : stop reason after := by
  have reached := meets state holds
  rw [ended] at reached
  exact reached

/-- The rule of consequence. -/
theorem Meets.mono (meets : Meets stop pre program post)
    (stronger : ∀ state, pre' state → pre state)
    (weaker : ∀ value state, post value state → post' value state) :
    Meets stop pre' program post' := by
  intro state holds
  have reached := meets state (stronger state holds)
  cases ended : program state with
  | ok value after =>
      rw [ended] at reached
      exact weaker value after reached
  | error reason after =>
      rw [ended] at reached
      exact reached

theorem Meets.ite {condition : Prop} [Decidable condition]
    {other : EStateM ε σ α}
    (yes : condition → Meets stop pre program post)
    (no : ¬ condition → Meets stop pre other post) :
    Meets stop pre (if condition then program else other) post := by
  by_cases holds : condition
  · rw [if_pos holds]
    exact yes holds
  · rw [if_neg holds]
    exact no holds

/-- A quantity of the state may be given a name. -/
theorem Meets.naming {ι : Type} {named : ι → σ → Prop}
    (meets : ∀ index, Meets stop (named index) program post) :
    Meets stop (fun state => ∃ index, named index state) program post :=
  fun state ⟨index, holds⟩ => meets index state holds

/-- The rule for loops over a list. -/
theorem Meets.forM {ι : Type} {body : ι → EStateM ε σ PUnit}
    {invariant : σ → Prop} (items : List ι)
    (keeps : ∀ item ∈ items,
      Meets stop invariant (body item) fun _ => invariant) :
    Meets stop invariant (forM items body) fun _ => invariant := by
  induction items with
  | nil => exact fun _ holds => holds
  | cons item items ih =>
      rw [List.forM_cons]
      exact (keeps item List.mem_cons_self).bind fun _ =>
        ih fun other member => keeps other (List.mem_cons_of_mem _ member)

/-! ## Following one run -/

theorem bind_ok {state after : σ} {value : α}
    (ended : program state = .ok value after) :
    (program >>= next) state = next value after := by
  show EStateM.bind program next state = _
  unfold EStateM.bind
  rw [ended]

theorem bind_error {state after : σ} {reason : ε}
    (ended : program state = .error reason after) :
    (program >>= next) state = .error reason after := by
  show EStateM.bind program next state = _
  unfold EStateM.bind
  rw [ended]

end PrivateDatagram.Library.StoppingRuns
