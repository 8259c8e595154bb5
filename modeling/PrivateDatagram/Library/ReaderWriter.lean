import Mathlib.Logic.Function.Basic

/-!
# Programs over a reader-writer mutex

Threads run programs made of atomic steps on a shared state.  A program
acquires a mutex in shared or in exclusive mode and releases it again;
exclusive mode excludes everybody, shared mode excludes exclusive mode only.
A section is what a program does between its outermost acquire and the
matching release.

A run is *solo* when nobody acquires in shared mode while another thread
holds the mutex in shared mode.  In a solo run at most one thread is inside
the mutex, and every configuration is explained by a serial execution, in
which the sections of all threads take place one after the other.
-/

namespace PrivateDatagram.Library.ReaderWriter

inductive Mode where
  | shared
  | exclusive
deriving DecidableEq, Repr

/--
A program over locks with labels `κ` and a shared state `σ`.  An atomic step
changes the state and chooses how to go on by the state it found.
-/
inductive Program (κ σ α : Type) where
  | ret (result : α)
  | acquire (label : κ) (rest : Program κ σ α)
  | release (rest : Program κ σ α)
  | act (update : σ → σ) (next : σ → Program κ σ α)

structure Thread (κ σ α : Type) where
  program : Program κ σ α
  /-- The locks the thread holds, the innermost first. -/
  held : List κ

structure Config (ι κ σ α : Type) where
  threads : ι → Thread κ σ α
  shared : σ

variable {ι κ σ α : Type}

/-- Every thread is at the start of its program and holds nothing. -/
def Config.initial (programs : ι → Program κ σ α) (shared : σ) :
    Config ι κ σ α :=
  ⟨fun thread => ⟨programs thread, []⟩, shared⟩

/-! ## The mutex -/

/-- The mutex admits a new holder in the mode of the label. -/
def Permits (mode : κ → Mode) (config : Config ι κ σ α) (label : κ) : Prop :=
  match mode label with
  | .exclusive => ∀ thread, (config.threads thread).held = []
  | .shared => ∀ thread, ∀ holder ∈ (config.threads thread).held,
      mode holder = .shared

/--
If the thread is about to acquire in shared mode, then no other thread holds
the mutex in shared mode.
-/
def Solo (mode : κ → Mode) (config : Config ι κ σ α) (thread : ι) : Prop :=
  ∀ label rest, (config.threads thread).program = .acquire label rest →
    mode label = .shared →
      ∀ other, other ≠ thread →
        ∀ holder ∈ (config.threads other).held, mode holder ≠ .shared

/-- At most one thread is inside the mutex. -/
def Exclusive (config : Config ι κ σ α) : Prop :=
  ∀ left right, (config.threads left).held ≠ [] →
    (config.threads right).held ≠ [] → left = right

theorem exclusive_initial (programs : ι → Program κ σ α) (shared : σ) :
    Exclusive (Config.initial programs shared) :=
  fun _ _ inside => absurd rfl inside

/-- In an exclusive configuration the others of an inside thread are out. -/
theorem Exclusive.others {config : Config ι κ σ α}
    (exclusive : Exclusive config) {thread : ι}
    (inside : (config.threads thread).held ≠ []) (other : ι)
    (different : other ≠ thread) : (config.threads other).held = [] := by
  by_contra otherIn
  exact different (exclusive other thread otherIn inside)

/-- Nobody else is inside when a solo thread is let in. -/
theorem others_outside {mode : κ → Mode} {config : Config ι κ σ α}
    {thread : ι} {label : κ} {rest : Program κ σ α}
    (solo : Solo mode config thread)
    (current : (config.threads thread).program = .acquire label rest)
    (permitted : Permits mode config label) {other : ι}
    (different : other ≠ thread) : (config.threads other).held = [] := by
  unfold Permits at permitted
  split at permitted
  · exact permitted other
  case h_2 shared =>
    apply List.eq_nil_iff_forall_not_mem.mpr
    intro holder member
    exact solo label rest current shared other different holder member
      (permitted other holder member)

/-! ## Well-locked programs -/

/-- Steps are taken under the lock, and what is acquired is released. -/
def WellLocked : Nat → Program κ σ α → Prop
  | depth, .ret _ => depth = 0
  | depth, .acquire _ rest => WellLocked (depth + 1) rest
  | depth, .release rest => 0 < depth ∧ WellLocked (depth - 1) rest
  | depth, .act _ next => 0 < depth ∧ ∀ shared, WellLocked depth (next shared)

/-- Every thread is well locked at the depth it has reached. -/
def Disciplined (config : Config ι κ σ α) : Prop :=
  ∀ thread, WellLocked (config.threads thread).held.length
    (config.threads thread).program

/-- A thread that takes a step of its own is inside. -/
theorem held_ne_nil {config : Config ι κ σ α}
    (disciplined : Disciplined config) {thread : ι} {update : σ → σ}
    {next : σ → Program κ σ α} {held : List κ}
    (current : config.threads thread = ⟨.act update next, held⟩) :
    held ≠ [] := by
  have here := disciplined thread
  rw [current] at here
  exact List.length_pos_iff.mp here.1

/-! ## Sections -/

/-- Run on to the end of the outermost section. -/
def runSection : Program κ σ α → Nat → σ → σ × Program κ σ α
  | .ret result, _, shared => (shared, .ret result)
  | .acquire _ rest, depth, shared => runSection rest (depth + 1) shared
  | .release rest, depth, shared =>
      if depth ≤ 1 then (shared, rest) else runSection rest (depth - 1) shared
  | .act update next, depth, shared =>
      runSection (next shared) depth (update shared)

/-- Threads between sections. -/
structure Serial (ι κ σ α : Type) where
  programs : ι → Program κ σ α
  shared : σ

/--
The configuration is what the serial execution has, but for a thread that is
inside a section: it will end that section as it would have serially.
-/
structure Explains (serial : Serial ι κ σ α) (config : Config ι κ σ α) :
    Prop where
  outside : ∀ thread, (config.threads thread).held = [] →
    (config.threads thread).program = serial.programs thread
  quiet : (∀ thread, (config.threads thread).held = []) →
    config.shared = serial.shared
  inside : ∀ thread, (config.threads thread).held ≠ [] →
    ∃ label rest, serial.programs thread = .acquire label rest ∧
      runSection (config.threads thread).program
        (config.threads thread).held.length config.shared =
      runSection rest 1 serial.shared

theorem explains_initial (programs : ι → Program κ σ α) (shared : σ) :
    Explains ⟨programs, shared⟩ (Config.initial programs shared) :=
  ⟨fun _ _ => rfl, fun _ => rfl, fun _ inside => absurd rfl inside⟩

/-! ## Invariants of single steps -/

/-- Every atomic step of the program keeps the property. -/
def Keeps (good : σ → Prop) : Program κ σ α → Prop
  | .ret _ => True
  | .acquire _ rest => Keeps good rest
  | .release rest => Keeps good rest
  | .act update next =>
      ∀ shared, good shared → good (update shared) ∧ Keeps good (next shared)

variable [DecidableEq ι]

/-- Let one thread execute its next section. -/
def Serial.after (serial : Serial ι κ σ α) (thread : ι)
    (rest : Program κ σ α) : Serial ι κ σ α :=
  ⟨Function.update serial.programs thread
    (runSection rest 1 serial.shared).2, (runSection rest 1 serial.shared).1⟩

/-- One section after the other. -/
inductive SerialReaches (start : Serial ι κ σ α) : Serial ι κ σ α → Prop where
  | refl : SerialReaches start start
  | next {serial : Serial ι κ σ α} {thread : ι} {label : κ}
      {rest : Program κ σ α} (reached : SerialReaches start serial)
      (current : serial.programs thread = .acquire label rest) :
      SerialReaches start (serial.after thread rest)

/-! ## Interleaved execution -/

def Config.set (config : Config ι κ σ α) (thread : ι)
    (new : Thread κ σ α) (shared : σ) : Config ι κ σ α :=
  ⟨Function.update config.threads thread new, shared⟩

@[simp]
theorem threads_set_self (config : Config ι κ σ α) (thread : ι)
    (new : Thread κ σ α) (shared : σ) :
    (config.set thread new shared).threads thread = new := by
  simp [Config.set]

theorem threads_set_of_ne (config : Config ι κ σ α) {thread other : ι}
    (different : other ≠ thread) (new : Thread κ σ α) (shared : σ) :
    (config.set thread new shared).threads other = config.threads other := by
  simp [Config.set, different]

/-- One atomic step of one thread. -/
inductive Step (mode : κ → Mode) (thread : ι) :
    Config ι κ σ α → Config ι κ σ α → Prop where
  | acquire {config : Config ι κ σ α} {label : κ} {rest : Program κ σ α}
      {held : List κ}
      (current : config.threads thread = ⟨.acquire label rest, held⟩)
      (permitted : Permits mode config label) :
      Step mode thread config
        (config.set thread ⟨rest, label :: held⟩ config.shared)
  | release {config : Config ι κ σ α} {label : κ} {rest : Program κ σ α}
      {held : List κ}
      (current : config.threads thread = ⟨.release rest, label :: held⟩) :
      Step mode thread config
        (config.set thread ⟨rest, held⟩ config.shared)
  | act {config : Config ι κ σ α} {update : σ → σ}
      {next : σ → Program κ σ α} {held : List κ}
      (current : config.threads thread = ⟨.act update next, held⟩) :
      Step mode thread config
        (config.set thread ⟨next config.shared, held⟩ (update config.shared))

/-- The configurations that steps with a given condition lead to. -/
inductive Reaches (mode : κ → Mode)
    (condition : Config ι κ σ α → ι → Prop) (start : Config ι κ σ α) :
    Config ι κ σ α → Prop where
  | refl : Reaches mode condition start start
  | step {config config' : Config ι κ σ α} (thread : ι)
      (reached : Reaches mode condition start config)
      (met : condition config thread)
      (stepped : Step mode thread config config') :
      Reaches mode condition start config'

theorem Reaches.mono {mode : κ → Mode}
    {strong weak : Config ι κ σ α → ι → Prop} {start config : Config ι κ σ α}
    (implies : ∀ config thread, strong config thread → weak config thread)
    (run : Reaches mode strong start config) :
    Reaches mode weak start config := by
  induction run with
  | refl => exact .refl
  | step thread _ met stepped ih =>
      exact .step thread ih (implies _ thread met) stepped

theorem disciplined_set {config : Config ι κ σ α} {thread : ι}
    {new : Thread κ σ α} {shared : σ} (disciplined : Disciplined config)
    (locked : WellLocked new.held.length new.program) :
    Disciplined (config.set thread new shared) := by
  intro other
  by_cases same : other = thread
  · subst same
    rw [threads_set_self]
    exact locked
  · rw [threads_set_of_ne config same]
    exact disciplined other

theorem disciplined_step {mode : κ → Mode} {thread : ι}
    {config config' : Config ι κ σ α} (disciplined : Disciplined config)
    (stepped : Step mode thread config config') : Disciplined config' := by
  have here := disciplined thread
  cases stepped with
  | acquire current _ =>
      rw [current] at here
      exact disciplined_set disciplined here
  | release current =>
      rw [current] at here
      exact disciplined_set disciplined here.2
  | act current =>
      rw [current] at here
      exact disciplined_set disciplined (here.2 config.shared)

/-- What all the programs keep holds however they are interleaved. -/
theorem keeps_reaches {mode : κ → Mode}
    {condition : Config ι κ σ α → ι → Prop} {good : σ → Prop}
    {programs : ι → Program κ σ α} {shared : σ} {config : Config ι κ σ α}
    (keeps : ∀ thread, Keeps good (programs thread)) (initially : good shared)
    (run : Reaches mode condition (.initial programs shared) config) :
    good config.shared := by
  have invariant : good config.shared ∧
      ∀ thread, Keeps good (config.threads thread).program := by
    induction run with
    | refl => exact ⟨initially, keeps⟩
    | @step config config' thread _ _ stepped ih =>
        rcases ih with ⟨here, others⟩
        have current := others thread
        have goesOn : ∀ (new : Thread κ σ α) (shared' : σ), good shared' →
            Keeps good new.program →
              good (config.set thread new shared').shared ∧
                ∀ other, Keeps good
                  ((config.set thread new shared').threads other).program := by
          intro new shared' good' keeps'
          refine ⟨good', ?_⟩
          intro other
          by_cases same : other = thread
          · subst same
            rw [threads_set_self]
            exact keeps'
          · rw [threads_set_of_ne config same]
            exact others other
        cases stepped with
        | acquire found _ =>
            rw [found] at current
            exact goesOn _ _ here current
        | release found =>
            rw [found] at current
            exact goesOn _ _ here current
        | act found =>
            rw [found] at current
            exact goesOn _ _ (current _ here).1 (current _ here).2
  exact invariant.1

/-! ## Exclusion in solo runs -/

theorem exclusive_set {config : Config ι κ σ α} {thread : ι}
    {new : Thread κ σ α} {shared : σ}
    (others : ∀ other, other ≠ thread → (config.threads other).held = []) :
    Exclusive (config.set thread new shared) := by
  have only : ∀ other,
      ((config.set thread new shared).threads other).held ≠ [] →
        other = thread := by
    intro other inside
    by_cases same : other = thread
    · exact same
    · rw [threads_set_of_ne config same, others other same] at inside
      exact absurd rfl inside
  intro left right leftIn rightIn
  exact (only left leftIn).trans (only right rightIn).symm

/-- Whoever takes a solo step is alone with the mutex. -/
theorem step_others {mode : κ → Mode} {thread : ι}
    {config config' : Config ι κ σ α} (disciplined : Disciplined config)
    (exclusive : Exclusive config) (solo : Solo mode config thread)
    (stepped : Step mode thread config config') (other : ι)
    (different : other ≠ thread) : (config.threads other).held = [] := by
  cases stepped with
  | acquire current permitted =>
      exact others_outside solo (congrArg Thread.program current) permitted
        different
  | release current =>
      apply exclusive.others _ other different
      rw [current]
      exact List.cons_ne_nil _ _
  | act current =>
      apply exclusive.others _ other different
      rw [current]
      exact held_ne_nil disciplined current

theorem exclusive_step {mode : κ → Mode} {thread : ι}
    {config config' : Config ι κ σ α} (disciplined : Disciplined config)
    (exclusive : Exclusive config) (solo : Solo mode config thread)
    (stepped : Step mode thread config config') : Exclusive config' := by
  have others := step_others disciplined exclusive solo stepped
  cases stepped <;> exact exclusive_set others

/-! ## Serialisation of solo runs -/

/-- A thread goes on inside its section. -/
theorem explains_inside {serial : Serial ι κ σ α} {config : Config ι κ σ α}
    {thread : ι} {program : Program κ σ α} {held : List κ} {shared : σ}
    (explains : Explains serial config)
    (others : ∀ other, other ≠ thread → (config.threads other).held = [])
    (nonempty : held ≠ [])
    (section' : ∃ label rest, serial.programs thread = .acquire label rest ∧
      runSection program held.length shared =
        runSection rest 1 serial.shared) :
    Explains serial (config.set thread ⟨program, held⟩ shared) := by
  refine ⟨?_, ?_, ?_⟩
  · intro other out
    by_cases same : other = thread
    · subst same
      rw [threads_set_self] at out
      exact absurd out nonempty
    · rw [threads_set_of_ne config same] at out ⊢
      exact explains.outside other out
  · intro quiet
    have here := quiet thread
    rw [threads_set_self] at here
    exact absurd here nonempty
  · intro other inside
    by_cases same : other = thread
    · subst same
      rw [threads_set_self]
      exact section'
    · rw [threads_set_of_ne config same, others other same] at inside
      exact absurd rfl inside

/-- A thread leaves its section: the serial execution takes the section. -/
theorem explains_leave {serial : Serial ι κ σ α} {config : Config ι κ σ α}
    {thread : ι} {rest first : Program κ σ α} {shared : σ}
    (explains : Explains serial config)
    (others : ∀ other, other ≠ thread → (config.threads other).held = [])
    (ends : runSection first 1 serial.shared = (shared, rest)) :
    Explains (serial.after thread first)
      (config.set thread ⟨rest, []⟩ shared) := by
  refine ⟨?_, ?_, ?_⟩
  · intro other out
    by_cases same : other = thread
    · subst same
      rw [threads_set_self]
      simp only [Serial.after, ends, Function.update_self]
    · rw [threads_set_of_ne config same] at out ⊢
      simp only [Serial.after, Function.update_of_ne same]
      exact explains.outside other out
  · intro _
    change shared = (runSection first 1 serial.shared).1
    rw [ends]
  · intro other inside
    by_cases same : other = thread
    · subst same
      rw [threads_set_self] at inside
      exact absurd rfl inside
    · rw [threads_set_of_ne config same, others other same] at inside
      exact absurd rfl inside

theorem explains_step {mode : κ → Mode} {thread : ι}
    {start serial : Serial ι κ σ α} {config config' : Config ι κ σ α}
    (disciplined : Disciplined config) (exclusive : Exclusive config)
    (solo : Solo mode config thread)
    (reached : SerialReaches start serial) (explains : Explains serial config)
    (stepped : Step mode thread config config') :
    ∃ serial', SerialReaches start serial' ∧ Explains serial' config' := by
  have others := step_others disciplined exclusive solo stepped
  have inside := explains.inside thread
  cases stepped with
  | @acquire label rest held current permitted =>
      refine ⟨serial, reached,
        explains_inside explains others (List.cons_ne_nil _ _) ?_⟩
      rw [current] at inside
      cases held with
      | nil =>
          have quiet : ∀ other, (config.threads other).held = [] := by
            intro other
            by_cases same : other = thread
            · rw [same, current]
            · exact others other same
          have program := explains.outside thread (quiet thread)
          rw [current] at program
          refine ⟨label, rest, program.symm, ?_⟩
          rw [explains.quiet quiet]
          rfl
      | cons inner outer => exact inside (List.cons_ne_nil _ _)
  | @release label rest held current =>
      rw [current] at inside
      rcases inside (List.cons_ne_nil _ _) with ⟨entry, first, program, ends⟩
      cases held with
      | nil =>
          exact ⟨serial.after thread first, .next reached program,
            explains_leave explains others ends.symm⟩
      | cons inner outer =>
          refine ⟨serial, reached,
            explains_inside explains others (List.cons_ne_nil _ _) ?_⟩
          refine ⟨entry, first, program, ?_⟩
          rw [← ends]
          exact (if_neg (by simp)).symm
  | act current =>
      have nonempty := held_ne_nil disciplined current
      rw [current] at inside
      exact ⟨serial, reached,
        explains_inside explains others nonempty (inside nonempty)⟩

/--
In a solo run of well-locked programs at most one thread is inside, and a
serial execution explains what has been reached.
-/
theorem solo_serialises {mode : κ → Mode} {programs : ι → Program κ σ α}
    {shared : σ} {config : Config ι κ σ α}
    (locked : ∀ thread, WellLocked 0 (programs thread))
    (run : Reaches mode (Solo mode) (.initial programs shared) config) :
    Disciplined config ∧ Exclusive config ∧
      ∃ serial, SerialReaches ⟨programs, shared⟩ serial ∧
        Explains serial config := by
  induction run with
  | refl =>
      exact ⟨locked, exclusive_initial programs shared, _, .refl,
        explains_initial programs shared⟩
  | step thread _ solo stepped ih =>
      rcases ih with ⟨disciplined, exclusive, serial, reached, explains⟩
      exact ⟨disciplined_step disciplined stepped,
        exclusive_step disciplined exclusive solo stepped,
        explains_step disciplined exclusive solo reached explains stepped⟩

end PrivateDatagram.Library.ReaderWriter
