import PrivateDatagram.Script.Operations

/-!
# Rules for the stack operations

Triples for the primitive operations that speak of the stack by its size.
All elements that were ever on a stack are small, and an evaluation stops with
an error code or for a script number that cannot be read.
-/

namespace PrivateDatagram.Script.StackRules

open Library.StoppingRuns Wire.Transaction Instructions EvalMachine ScriptNum
  Operations

/-- The exception is about a number that is too long or not minimal. -/
def OfScriptNum : Thrown → Prop
  | .scriptNumOverflow vch => vch.length > nMaxNumSize
  | .nonMinimalScriptNum vch => nonMinimal vch = true
  | .outOfRange => False
  | .popOfEmptyStack => False

/-- An error code, or an exception about a number. -/
def Expected : Stop → Prop
  | .error _ => True
  | .thrown exception => OfScriptNum exception
  | .undefinedAccess => False
  | .assertionFailed => False

/-- The history knows the stacks, and nothing in it is too big. -/
structure Recorded (machine : Machine) : Prop where
  small : ∀ vch ∈ machine.seen, vch.length ≤ maxScriptElementSize
  stack : ∀ vch ∈ machine.stack, vch ∈ machine.seen
  altstack : ∀ vch ∈ machine.altstack, vch ∈ machine.seen

/-- The invariant of the loop, apart from the stack limit. -/
structure Good (machine : Machine) : Prop where
  recorded : Recorded machine
  nOpCount : machine.nOpCount ≤ 201

/-- The invariant, where the stack holds `n` elements. -/
def Ready (n : Nat) (machine : Machine) : Prop :=
  Good machine ∧ machine.stack.length = n

def Stopped (stop : Stop) (machine : Machine) : Prop :=
  Expected stop ∧ Recorded machine

abbrev Safe {α : Type} (pre : Machine → Prop) (program : Eval α)
    (post : α → Machine → Prop) : Prop :=
  Meets Stopped pre program post

variable {α β : Type} {n : Nat} {program : Eval β}
  {next : α → Eval β} {post : β → Machine → Prop} {vch : Valtype}

/-! ## What changes the machine -/

section Changes

variable {machine : Machine}

/-- The stack may be rearranged or lose elements. -/
theorem Good.shrink (good : Good machine) {stack : List Valtype}
    (kept : ∀ vch ∈ stack, vch ∈ machine.stack) :
    Good { machine with stack := stack } :=
  ⟨⟨good.recorded.small,
    fun vch member => good.recorded.stack vch (kept vch member),
    good.recorded.altstack⟩, good.nOpCount⟩

theorem Good.shrinkAlt (good : Good machine) {altstack : List Valtype}
    (kept : ∀ vch ∈ altstack, vch ∈ machine.altstack) :
    Good { machine with altstack := altstack } :=
  ⟨⟨good.recorded.small, good.recorded.stack,
    fun vch member => good.recorded.altstack vch (kept vch member)⟩,
    good.nOpCount⟩

/-- A small element may be added to the history and to the stack. -/
theorem Good.grow (good : Good machine)
    (small : vch.length ≤ maxScriptElementSize) {stack : List Valtype}
    (kept : ∀ other ∈ stack, other = vch ∨ other ∈ machine.stack) :
    Good { machine with stack := stack, seen := vch :: machine.seen } where
  recorded := {
    small := List.forall_mem_cons.mpr ⟨small, good.recorded.small⟩
    stack := fun other member =>
      List.mem_cons.mpr
        ((kept other member).imp_right (good.recorded.stack other))
    altstack := fun other member =>
      List.mem_cons_of_mem _ (good.recorded.altstack other member) }
  nOpCount := good.nOpCount

theorem Good.growAlt (good : Good machine)
    (small : vch.length ≤ maxScriptElementSize) :
    Good { machine with
      altstack := vch :: machine.altstack
      seen := vch :: machine.seen } where
  recorded := {
    small := List.forall_mem_cons.mpr ⟨small, good.recorded.small⟩
    stack := fun other member =>
      List.mem_cons_of_mem _ (good.recorded.stack other member)
    altstack := List.forall_mem_cons.mpr ⟨List.mem_cons_self,
      fun other member =>
        List.mem_cons_of_mem _ (good.recorded.altstack other member)⟩ }
  nOpCount := good.nOpCount

/-- Conditionals and code separators do not touch the stacks. -/
theorem Good.control (good : Good machine) {vfExec : List Bool}
    {pbegincodehash : CScript} :
    Good { machine with
      vfExec := vfExec, pbegincodehash := pbegincodehash } :=
  ⟨⟨good.recorded.small, good.recorded.stack, good.recorded.altstack⟩,
    good.nOpCount⟩

end Changes

/-! ## Ends and tests -/

theorem safe_error (serror : ScriptError) :
    Safe (Ready n) (throw (.error serror) : Eval β) post :=
  .throw fun _ ready => ⟨trivial, ready.1.recorded⟩

/-- A program is left with the invariant. -/
theorem safe_good {k : Nat} {program : Eval α}
    (safe : Safe (Ready n) program fun _ => Ready k) :
    Safe (Ready n) program fun _ => Good :=
  safe.mono (fun _ ready => ready) fun _ _ ready => ready.1

theorem safe_pure : Safe (Ready n) (pure ()) fun _ => Good :=
  .pure fun _ ready => ready.1

theorem safe_failIf {condition : Prop} [Decidable condition]
    {serror : ScriptError} {next : Unit → Eval β}
    (rest : ¬ condition → Safe (Ready n) (next ()) post) :
    Safe (Ready n) (failIf condition serror >>= next) post := by
  intro machine ready
  by_cases holds : condition
  · rw [bind_error (failIf_error holds serror)]
    exact ⟨trivial, ready.1.recorded⟩
  · rw [bind_ok (failIf_run holds serror)]
    exact rest holds machine ready

theorem safe_assert {condition : Prop} [Decidable condition]
    {next : Unit → Eval β} (holds : condition)
    (rest : Safe (Ready n) (next ()) post) :
    Safe (Ready n) (assert condition >>= next) post := by
  intro machine ready
  rw [bind_ok (assert_run holds)]
  exact rest machine ready

theorem safe_stackSize {next : Int → Eval β}
    (rest : Safe (Ready n) (next n) post) :
    Safe (Ready n) (stackSize >>= next) post := by
  intro machine ready
  have sized : stackSize machine = .ok (machine.stack.length : Int) machine :=
    rfl
  rw [bind_ok sized, ready.2]
  exact rest machine ready

theorem safe_requireSize {size : Int} {serror : ScriptError}
    {next : Unit → Eval β}
    (rest : size ≤ n → Safe (Ready n) (next ()) post) :
    Safe (Ready n) (requireSize size serror >>= next) post := by
  intro machine ready
  by_cases enough : size ≤ n
  · rw [← ready.2] at enough
    rw [bind_ok (requireSize_run enough serror)]
    exact rest (ready.2 ▸ enough) machine ready
  · rw [← ready.2] at enough
    rw [bind_error (requireSize_error (not_le.mp enough) serror)]
    exact ⟨trivial, ready.1.recorded⟩

/-! ## Reading the machine -/

theorem safe_get {next : Machine → Eval β}
    (rest : ∀ found, Safe (Ready n) (next found) post) :
    Safe (Ready n) (get >>= next) post :=
  fun machine ready => rest machine machine ready

theorem safe_stacktop {i : Int} {next : Valtype → Eval β}
    (low : -n ≤ i) (high : i < 0)
    (rest : ∀ vch, vch.length ≤ maxScriptElementSize →
      Safe (Ready n) (next vch) post) :
    Safe (Ready n) (stacktop i >>= next) post := by
  intro machine ready
  rw [← ready.2] at low
  obtain ⟨vch, member, found⟩ := entry_inside low high
  rw [bind_ok (stacktop_run found)]
  exact rest vch
    (ready.1.recorded.small vch (ready.1.recorded.stack vch member))
    machine ready

/-! ## Changing the stack -/

theorem safe_pushBack (small : vch.length ≤ maxScriptElementSize) :
    Safe (Ready n) (pushBack vch) fun _ => Ready (n + 1) := by
  intro machine ready
  exact ⟨ready.1.grow small fun other member => List.mem_cons.mp member,
    congrArg Nat.succ ready.2⟩

theorem safe_pushBackAlt (small : vch.length ≤ maxScriptElementSize) :
    Safe (Ready n) (pushBackAlt vch) fun _ => Ready n := by
  intro machine ready
  exact ⟨ready.1.growAlt small, ready.2⟩

theorem safe_popstack (nonempty : 1 ≤ n) :
    Safe (Ready n) popstack fun _ => Ready (n - 1) := by
  intro machine ready
  cases shape : machine.stack with
  | nil =>
      have noneLeft := ready.2
      rw [shape, List.length_nil] at noneLeft
      omega
  | cons top rest =>
      rw [popstack_run shape]
      refine ⟨ready.1.shrink fun vch member => ?_, ?_⟩
      · rw [shape]
        exact List.mem_cons_of_mem top member
      · rw [← ready.2, shape]
        rfl

theorem safe_popMany {count : Nat} (enough : count ≤ n) :
    Safe (Ready n) (popMany count) fun _ => Ready (n - count) := by
  induction count generalizing n with
  | zero => exact .pure fun _ ready => ready
  | succ count ih =>
      refine (safe_popstack (by omega)).bind fun _ => ?_
      rw [Nat.sub_add_eq, Nat.sub_right_comm]
      exact ih (by omega)

theorem safe_erase {first last : Int} (low : 0 ≤ last)
    (order : last ≤ first) (high : first ≤ n) :
    Safe (Ready n) (erase first last) fun _ =>
      Ready (n - (first - last).toNat) := by
  intro machine ready
  rw [← ready.2] at high
  rw [erase_run low order high]
  refine ⟨ready.1.shrink fun vch member => ?_, ?_⟩
  · exact (List.mem_append.mp member).elim
      (fun kept => List.mem_of_mem_take kept)
      fun kept => List.mem_of_mem_drop kept
  · rw [← ready.2]
    simp only [List.length_append, List.length_take, List.length_drop]
    omega

theorem safe_insert {position : Nat} (high : position ≤ n)
    (small : vch.length ≤ maxScriptElementSize) :
    Safe (Ready n) (insert position vch) fun _ => Ready (n + 1) := by
  intro machine ready
  rw [← ready.2] at high
  rw [insert_run high]
  refine ⟨ready.1.grow small fun other member => ?_, ?_⟩
  · rcases List.mem_append.mp member with above | below
    · exact .inr (List.mem_of_mem_take above)
    · exact (List.mem_cons.mp below).imp_right List.mem_of_mem_drop
  · rw [← ready.2]
    simp only [List.length_append, List.length_take, List.length_cons,
      List.length_drop]
    omega

theorem safe_swap {i j : Int} (lowI : -n ≤ i) (highI : i < 0)
    (lowJ : -n ≤ j) (highJ : j < 0) :
    Safe (Ready n) (swap i j) fun _ => Ready n := by
  intro machine ready
  rw [← ready.2] at lowI lowJ
  obtain ⟨vchI, memberI, foundI⟩ := entry_inside lowI highI
  obtain ⟨vchJ, memberJ, foundJ⟩ := entry_inside lowJ highJ
  rw [swap_run foundI foundJ]
  refine ⟨ready.1.shrink fun vch member => ?_, ?_⟩
  · rcases List.mem_or_eq_of_mem_set member with inner | rfl
    · rcases List.mem_or_eq_of_mem_set inner with kept | rfl
      · exact kept
      · exact memberJ
    · exact memberI
  · rw [← ready.2]
    simp only [List.length_set]

theorem safe_verifyTop {fSuccess : Bool} {serror : ScriptError}
    (nonempty : 1 ≤ n) :
    Safe (Ready n) (verifyTop fSuccess serror) fun _ => Good :=
  safe_failIf fun _ => safe_good (safe_popstack nonempty)

end PrivateDatagram.Script.StackRules
