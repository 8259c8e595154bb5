import PrivateDatagram.Library.StoppingRuns
import PrivateDatagram.Script.Instructions

/-!
# The script machine

The local variables of `EvalScript` and what it does to its two stacks.  A
stack is a list with its top first, so that `stacktop(-1)` is the head.  An
evaluation ends early with an error code, with an exception, with an access
that `vector` leaves undefined, or with a failed assertion.
-/

namespace PrivateDatagram.Script.EvalMachine

open Library.StoppingRuns Wire.Transaction Instructions

inductive ScriptError where
  | unknownError
  | evalFalse
  | opReturn
  | scriptSize
  | pushSize
  | opCount
  | stackSize
  | sigCount
  | pubkeyCount
  | verify
  | equalVerify
  | checkMultisigVerify
  | checkSigVerify
  | numEqualVerify
  | badOpcode
  | disabledOpcode
  | invalidStackOperation
  | invalidAltStackOperation
  | unbalancedConditional
  | sigHashType
  | sigDer
  | minimalData
  | sigPushOnly
  | sigHighS
  | sigNullDummy
  | pubkeyType
  | discourageUpgradableNops
deriving DecidableEq, Repr

/-- What `EvalScript` can throw inside its `try` block. -/
inductive Thrown where
  | scriptNumOverflow (vch : Valtype)
  | nonMinimalScriptNum (vch : Valtype)
  | outOfRange
  | popOfEmptyStack
deriving DecidableEq, Repr

inductive Stop where
  | error (serror : ScriptError)
  | thrown (exception : Thrown)
  | undefinedAccess
  | assertionFailed
deriving DecidableEq, Repr

structure Machine where
  stack : List Valtype
  altstack : List Valtype
  vfExec : List Bool
  nOpCount : Int
  /-- The script from the last code separator on. -/
  pbegincodehash : CScript
  /-- History: whatever was put on a stack. -/
  seen : List Valtype
deriving DecidableEq, Repr

abbrev Eval := EStateM Stop Machine

/-- `return set_error(serror, …)` if the condition holds. -/
def failIf (condition : Prop) [Decidable condition] (serror : ScriptError) :
    Eval Unit :=
  if condition then throw (.error serror) else pure ()

def assert (condition : Prop) [Decidable condition] : Eval Unit :=
  if condition then pure () else throw .assertionFailed

/-! ## The stack -/

/-- `at(size() + i)`. -/
def entry (stack : List Valtype) (i : Int) : Option Valtype :=
  if i < 0 then stack[(-i - 1).toNat]? else none

def stacktop (i : Int) : Eval Valtype := do
  match entry (← get).stack i with
  | some vch => pure vch
  | none => throw (.thrown .outOfRange)

def stackSize : Eval Int := do
  return (← get).stack.length

/-- Fail where the stack holds less than `size` elements. -/
def requireSize (size : Int) (serror : ScriptError) : Eval Unit := do
  failIf ((← stackSize) < size) serror

def pushBack (vch : Valtype) : Eval Unit :=
  modify fun machine =>
    { machine with stack := vch :: machine.stack, seen := vch :: machine.seen }

def popstack : Eval Unit := do
  match (← get).stack with
  | [] => throw (.thrown .popOfEmptyStack)
  | _ :: rest => modify fun machine => { machine with stack := rest }

/-- `stack.erase(stack.end() - first, stack.end() - last)`. -/
def erase (first last : Int) : Eval Unit := do
  let stack := (← get).stack
  if 0 ≤ last ∧ last ≤ first ∧ first ≤ stack.length then
    modify fun machine =>
      { machine with
        stack := stack.take last.toNat ++ stack.drop first.toNat }
  else throw .undefinedAccess

/-- `stack.insert(stack.end() - position, vch)`. -/
def insert (position : Nat) (vch : Valtype) : Eval Unit := do
  let stack := (← get).stack
  if position ≤ stack.length then
    modify fun machine =>
      { machine with
        stack := stack.take position ++ vch :: stack.drop position
        seen := vch :: machine.seen }
  else throw .undefinedAccess

/-- `swap(stacktop(i), stacktop(j))`. -/
def swap (i j : Int) : Eval Unit := do
  let vchI ← stacktop i
  let vchJ ← stacktop j
  modify fun machine =>
    { machine with
      stack := (machine.stack.set (-i - 1).toNat vchJ).set
        (-j - 1).toNat vchI }

/-! ## The alternative stack -/

def altstacktop (i : Int) : Eval Valtype := do
  match entry (← get).altstack i with
  | some vch => pure vch
  | none => throw (.thrown .outOfRange)

def pushBackAlt (vch : Valtype) : Eval Unit :=
  modify fun machine =>
    { machine with
      altstack := vch :: machine.altstack
      seen := vch :: machine.seen }

def popaltstack : Eval Unit := do
  match (← get).altstack with
  | [] => throw (.thrown .popOfEmptyStack)
  | _ :: rest => modify fun machine => { machine with altstack := rest }

/-! ## Counting operations -/

/-- `nOpCount += count` and the test against the limit. -/
def countOps (count : Int) : Eval Unit := do
  modify fun machine =>
    { machine with nOpCount := machine.nOpCount + count }
  failIf ((← get).nOpCount > 201) .opCount

/-! ## Single runs -/

section Runs

variable {machine : Machine}

theorem failIf_run {condition : Prop} [Decidable condition]
    (fails : ¬ condition) (serror : ScriptError) :
    failIf condition serror machine = .ok () machine := by
  rw [failIf, if_neg fails]
  rfl

theorem failIf_error {condition : Prop} [Decidable condition]
    (holds : condition) (serror : ScriptError) :
    failIf condition serror machine = .error (.error serror) machine := by
  rw [failIf, if_pos holds]
  rfl

theorem assert_run {condition : Prop} [Decidable condition]
    (holds : condition) : assert condition machine = .ok () machine := by
  rw [assert, if_pos holds]
  rfl

theorem requireSize_run {size : Int}
    (enough : size ≤ machine.stack.length) (serror : ScriptError) :
    requireSize size serror machine = .ok () machine :=
  failIf_run (not_lt.mpr enough) serror

theorem requireSize_error {size : Int}
    (short : machine.stack.length < size) (serror : ScriptError) :
    requireSize size serror machine = .error (.error serror) machine :=
  failIf_error short serror

theorem entry_inside {stack : List Valtype} {i : Int}
    (low : -stack.length ≤ i) (high : i < 0) :
    ∃ vch ∈ stack, entry stack i = some vch := by
  have inside : (-i - 1).toNat < stack.length := by omega
  refine ⟨stack[(-i - 1).toNat], List.getElem_mem inside, ?_⟩
  rw [entry, if_pos high, List.getElem?_eq_getElem inside]

theorem stacktop_run {i : Int} {vch : Valtype}
    (found : entry machine.stack i = some vch) :
    stacktop i machine = .ok vch machine := by
  show (match entry machine.stack i with
    | some vch => pure vch
    | none => throw (.thrown .outOfRange) : Eval Valtype) machine = _
  rw [found]
  rfl

theorem altstacktop_run {i : Int} {vch : Valtype}
    (found : entry machine.altstack i = some vch) :
    altstacktop i machine = .ok vch machine := by
  show (match entry machine.altstack i with
    | some vch => pure vch
    | none => throw (.thrown .outOfRange) : Eval Valtype) machine = _
  rw [found]
  rfl

theorem popstack_run {vch : Valtype} {rest : List Valtype}
    (top : machine.stack = vch :: rest) :
    popstack machine = .ok () { machine with stack := rest } := by
  cases machine
  cases top
  rfl

theorem popaltstack_run {vch : Valtype} {rest : List Valtype}
    (top : machine.altstack = vch :: rest) :
    popaltstack machine = .ok () { machine with altstack := rest } := by
  cases machine
  cases top
  rfl

theorem erase_run {first last : Int} (low : 0 ≤ last) (order : last ≤ first)
    (high : first ≤ machine.stack.length) :
    erase first last machine = .ok () { machine with
      stack := machine.stack.take last.toNat ++
        machine.stack.drop first.toNat } := by
  show (if 0 ≤ last ∧ last ≤ first ∧ first ≤ machine.stack.length then _
    else _ : Eval Unit) machine = _
  rw [if_pos ⟨low, order, high⟩]
  rfl

theorem insert_run {position : Nat} (high : position ≤ machine.stack.length)
    (vch : Valtype) :
    insert position vch machine = .ok () { machine with
      stack := machine.stack.take position ++
        vch :: machine.stack.drop position
      seen := vch :: machine.seen } := by
  show (if position ≤ machine.stack.length then _
    else _ : Eval Unit) machine = _
  rw [if_pos high]
  rfl

theorem swap_run {i j : Int} {vchI vchJ : Valtype}
    (foundI : entry machine.stack i = some vchI)
    (foundJ : entry machine.stack j = some vchJ) :
    swap i j machine = .ok () { machine with
      stack := (machine.stack.set (-i - 1).toNat vchJ).set
        (-j - 1).toNat vchI } := by
  show (stacktop i >>= fun _ => _ : Eval Unit) machine = _
  rw [bind_ok (stacktop_run foundI), bind_ok (stacktop_run foundJ)]
  rfl

theorem countOps_run {count : Int} (few : machine.nOpCount + count ≤ 201) :
    countOps count machine = .ok ()
      { machine with nOpCount := machine.nOpCount + count } :=
  failIf_run (not_lt.mpr few) .opCount

theorem countOps_error {count : Int}
    (many : 201 < machine.nOpCount + count) :
    countOps count machine = .error (.error .opCount)
      { machine with nOpCount := machine.nOpCount + count } :=
  failIf_error many .opCount

end Runs

end PrivateDatagram.Script.EvalMachine
