import Mathlib.Data.Set.Basic

/-!
# Filters without false negatives

Every key has its places, and a filter is the set of the places that are
marked.  A key is added by marking its places and is held if they are all
marked.

A filter that is used in a run may fail at a step.  If no step fails and
every step keeps what is held, then a key that was taken in is held at the
end of the run.
-/

namespace PrivateDatagram.Library.MembershipFilter

section Marks

variable {Key Place : Type}

/-- All places of the key are marked. -/
def Holds (places : Key → Set Place) (marks : Set Place) (key : Key) : Prop :=
  places key ⊆ marks

/-- Mark the places of a key. -/
def add (places : Key → Set Place) (marks : Set Place) (key : Key) :
    Set Place :=
  marks ∪ places key

variable {places : Key → Set Place} {marks later : Set Place} {key : Key}

theorem Holds.mono (held : Holds places marks key) (grown : marks ⊆ later) :
    Holds places later key :=
  held.trans grown

theorem subset_add : marks ⊆ add places marks key :=
  Set.subset_union_left

theorem holds_add : Holds places (add places marks key) key :=
  Set.subset_union_right

end Marks

section Runs

variable {σ ι κ ε : Type} (step : σ → ι → Except ε σ)
  (takes : σ → ι → κ → Prop)

/-- One input after the other. -/
def run : List ι → σ → Except ε σ
  | [], state => .ok state
  | input :: inputs, state => step state input >>= run inputs

/-- The key is taken in by a step of the run. -/
inductive Taken : σ → List ι → κ → Prop
  | now {state : σ} {input : ι} {inputs : List ι} {key : κ}
      (taken : takes state input key) : Taken state (input :: inputs) key
  | later {state next : σ} {input : ι} {inputs : List ι} {key : κ}
      (reached : step state input = .ok next)
      (taken : Taken next inputs key) : Taken state (input :: inputs) key

variable {step takes}

/-- Runs that never fail and never forget. -/
theorem run_holds {invariant : σ → Prop} {holds : σ → κ → Prop}
    (works : ∀ state input, invariant state →
      ∃ next, step state input = .ok next ∧ invariant next ∧
        (∀ key, takes state input key → holds next key) ∧
        ∀ key, holds state key → holds next key)
    {state : σ} (start : invariant state) (inputs : List ι) :
    ∃ reached, run step inputs state = .ok reached ∧ invariant reached ∧
      (∀ key, Taken step takes state inputs key → holds reached key) ∧
      ∀ key, holds state key → holds reached key := by
  induction inputs generalizing state with
  | nil => exact ⟨state, rfl, start, nofun, fun _ held => held⟩
  | cons input inputs ih =>
      rcases works state input start with
        ⟨next, stepped, after, fresh, kept⟩
      rcases ih after with ⟨reached, ran, good, taken, keeps⟩
      refine ⟨reached, ?_, good, ?_, fun key held => keeps key (kept key held)⟩
      · rw [run, stepped]
        exact ran
      · intro key member
        cases member with
        | now here => exact keeps key (fresh key here)
        | later same there =>
            rw [stepped] at same
            cases same
            exact taken key there

end Runs

end PrivateDatagram.Library.MembershipFilter
