import Mathlib.Tactic.SplitIfs

/-!
# Loops with fuel

Programs whose loops may go on forever, run with fuel.  `Halts` is total
correctness: with enough fuel the program returns one value, whatever the fuel,
and the value meets the postcondition.
-/

namespace PrivateDatagram.Library.FueledLoops

/-- A program that may run out of fuel. -/
abbrev Fueled := ReaderT Nat Option

variable {α β σ ι : Type}

/-- `do { body } while (again)`, with one unit of fuel for each round. -/
def doWhile (body : σ → σ) (again : σ → Bool) (start : σ) : Fueled σ :=
  fun fuel => rounds fuel start
where
  rounds : Nat → σ → Option σ
    | 0, _ => none
    | fuel + 1, state =>
        if again (body state) then rounds fuel (body state)
        else some (body state)

/-- A loop over a list. -/
def forEach (body : ι → σ → Fueled σ) : List ι → σ → Fueled σ
  | [], state => pure state
  | item :: items, state => do
      let next ← body item state
      forEach body items next

/-- Total correctness. -/
def Halts (program : Fueled α) (post : α → Prop) : Prop :=
  ∃ value, post value ∧
    ∃ enough, ∀ fuel, enough ≤ fuel → program.run fuel = some value

theorem Halts.pure {post : α → Prop} {value : α} (holds : post value) :
    Halts (Pure.pure value) post :=
  ⟨value, holds, 0, fun _ _ => rfl⟩

theorem Halts.mono {program : Fueled α} {post post' : α → Prop}
    (halts : Halts program post) (weaken : ∀ value, post value → post' value) :
    Halts program post' := by
  obtain ⟨value, holds, enough, ran⟩ := halts
  exact ⟨value, weaken value holds, enough, ran⟩

/-- A program returns one value only. -/
theorem Halts.and {program : Fueled α} {post post' : α → Prop}
    (first : Halts program post) (second : Halts program post') :
    Halts program fun value => post value ∧ post' value := by
  obtain ⟨value, holds, enough, ran⟩ := first
  obtain ⟨other, holds', enough', ran'⟩ := second
  have same : some other = some value :=
    (ran' _ (Nat.le_max_right enough enough')).symm.trans
      (ran _ (Nat.le_max_left enough enough'))
  rw [Option.some.inj same] at holds'
  exact ⟨value, ⟨holds, holds'⟩, enough, ran⟩

theorem Halts.exists {program : Fueled α} {post : α → Prop}
    (halts : Halts program post) : ∃ value, post value :=
  halts.imp fun _ => And.left

theorem Halts.bind {program : Fueled α} {post : α → Prop}
    (halts : Halts program post) {rest : α → Fueled β} {post' : β → Prop}
    (next : ∀ value, post value → Halts (rest value) post') :
    Halts (program >>= rest) post' := by
  obtain ⟨value, holds, enough, ran⟩ := halts
  obtain ⟨result, holds', enough', ran'⟩ := next value holds
  refine ⟨result, holds', max enough enough', fun fuel large => ?_⟩
  have first := ran fuel (Nat.le_trans (Nat.le_max_left _ _) large)
  have second := ran' fuel (Nat.le_trans (Nat.le_max_right _ _) large)
  rw [ReaderT.run_bind, first]
  exact second

theorem Halts.ite {condition : Prop} [Decidable condition]
    {first second : Fueled α} {post : α → Prop}
    (yes : condition → Halts first post)
    (no : ¬condition → Halts second post) :
    Halts (if condition then first else second) post := by
  split_ifs with holds
  · exact yes holds
  · exact no holds

/-- The rule for loops: every round ends with the postcondition, or with the
invariant and a smaller variant. -/
theorem doWhile_halts {body : σ → σ} {again : σ → Bool}
    {invariant post : σ → Prop} (variant : σ → Nat)
    (done : ∀ state, invariant state → again (body state) = false →
      post (body state))
    (round : ∀ state, invariant state → again (body state) = true →
      invariant (body state) ∧ variant (body state) < variant state)
    {start : σ} (holds : invariant start) :
    Halts (doWhile body again start) post := by
  generalize measured : variant start = bound
  induction bound using Nat.strongRecOn generalizing start with
  | ind bound hypothesis =>
      cases ends : again (body start) with
      | false =>
          refine ⟨body start, done start holds ends, 1, fun fuel large => ?_⟩
          obtain ⟨fuel, rfl⟩ := Nat.exists_eq_add_of_le' large
          exact if_neg (by rw [ends]; exact Bool.false_ne_true)
      | true =>
          obtain ⟨kept, less⟩ := round start holds ends
          rw [measured] at less
          obtain ⟨value, meets, enough, ran⟩ := hypothesis _ less kept rfl
          refine ⟨value, meets, enough + 1, fun fuel large => ?_⟩
          obtain ⟨fuel, rfl⟩ :=
            Nat.exists_eq_add_of_le' (Nat.le_of_add_left_le large)
          exact (if_pos ends).trans (ran fuel (Nat.le_of_add_le_add_right large))

/-- The rule for a loop over a list, with an invariant about the items that
are left. -/
theorem forEach_halts {body : ι → σ → Fueled σ}
    (invariant : List ι → σ → Prop)
    (step : ∀ item items state, invariant (item :: items) state →
      Halts (body item state) (invariant items))
    {items : List ι} {start : σ} (holds : invariant items start) :
    Halts (forEach body items start) (invariant []) := by
  induction items generalizing start with
  | nil => exact .pure holds
  | cons item items hypothesis =>
      exact (step item items start holds).bind fun _ => hypothesis

end PrivateDatagram.Library.FueledLoops
