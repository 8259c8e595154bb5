import PrivateDatagram.Script.EvalScript
import PrivateDatagram.Script.OperationSafety

/-!
# Evaluation is safe and bounded

One instruction keeps the invariant and the stack limit, and so does a whole
script.  The assertion of `VerifyScript` holds, because a script hash cannot be
compared on an empty stack.
-/

namespace PrivateDatagram.Script.EvalSafety

open Library.StoppingRuns Wire.Transaction Wire.Script Instructions EvalMachine
  SignatureEncoding Operations StackRules OperationSafety EvalScript

variable (context : Context) {n : Nat}

/-! ## The switch -/

def SafeCase (group : Case) : Prop :=
  ∀ opcode ∈ group.labels, SafeOp (group.body opcode)

theorem switch_safe {groups : List Case}
    (safe : ∀ group ∈ groups, SafeCase group) (opcode : UInt8) :
    SafeOp (switch groups opcode) := by
  intro n
  unfold switch
  split
  next group found =>
    have labelled := List.find?_some found
    exact safe group (List.mem_of_find?_eq_some found) opcode
      (List.contains_iff_mem.mp labelled) n
  next => exact safe_error _

theorem cases_safe (fExec : Bool) (pc : CScript) :
    ∀ group ∈ cases context fExec pc, SafeCase group := by
  simp only [cases, List.forall_mem_cons, List.not_mem_nil, false_imp_iff,
    implies_true, and_true]
  exact ⟨fun opcode _ => execPushNumber_safe opcode,
    fun _ _ _ => safe_pure,
    fun _ _ => failIf_safe _ _,
    fun opcode _ => execIf_safe fExec opcode,
    fun _ _ => changeConditional_safe _,
    fun _ _ => changeConditional_safe _,
    fun _ _ => execVerify_safe,
    fun _ _ _ => safe_error _,
    fun _ _ => execToAltStack_safe,
    fun _ _ => execFromAltStack_safe,
    fun _ _ => dropTop_safe 2,
    fun _ _ => copyToTop_safe (by decide),
    fun _ _ => copyToTop_safe (by decide),
    fun _ _ => copyToTop_safe (by decide),
    fun _ _ => exec2Rot_safe,
    fun _ _ => swapPairs_safe (by decide),
    fun _ _ => execIfDup_safe,
    fun _ _ => execDepth_safe,
    fun _ _ => dropTop_safe 1,
    fun _ _ => copyToTop_safe (by decide),
    fun _ _ => execNip_safe,
    fun _ _ => copyToTop_safe (by decide),
    fun opcode _ => execPickRoll_safe context opcode,
    fun _ _ => swapPairs_safe (by decide),
    fun _ _ => swapPairs_safe (by decide),
    fun _ _ => execTuck_safe,
    fun _ _ => execSize_safe,
    fun opcode _ => execEqual_safe opcode,
    fun _ known => execUnary_safe context known,
    fun _ known => execBinary_safe context known,
    fun _ _ => execWithin_safe context,
    fun opcode _ => execHash_safe context opcode,
    fun _ _ => execCodeSeparator_safe pc,
    fun opcode _ => execCheckSig_safe context opcode,
    fun opcode _ => execCheckMultisig_safe context opcode⟩

/-! ## One instruction -/

/-- The invariant of the loop. -/
structure Bounded (machine : Machine) : Prop where
  good : Good machine
  stackSize : machine.stack.length + machine.altstack.length ≤ 1000

theorem ready_of_good {machine : Machine} (good : Good machine) :
    ∃ n, Ready n machine :=
  ⟨machine.stack.length, good, rfl⟩

theorem safe_countOpcode (opcode : UInt8) {next : Unit → Eval Unit}
    {post : Unit → Machine → Prop}
    (rest : Safe (Ready n) (next ()) post) :
    Safe (Ready n) (countOpcode opcode >>= next) post := by
  unfold countOpcode
  split
  · exact safe_countOps rest
  · exact rest

theorem carryOut_safe (fExec : Bool) {read : Instruction}
    (small : read.vchRet.length ≤ maxScriptElementSize) :
    SafeOp (carryOut context fExec read) := by
  intro n
  refine .ite (fun _ => ?_) fun _ => .ite (fun _ => ?_) fun _ => safe_pure
  · exact safe_failIf fun _ => safe_good (safe_pushBack small)
  · exact switch_safe (cases_safe context fExec read.pc) read.opcode n

theorem checkStackSize_safe :
    Safe (Ready n) checkStackSize fun _ => Bounded := by
  intro machine ready
  by_cases tooMany : machine.stack.length + machine.altstack.length > 1000
  · have stops : checkStackSize machine =
        .error (.error .stackSize) machine :=
      failIf_error tooMany _
    rw [stops]
    exact ⟨trivial, ready.1.recorded⟩
  · have runs : checkStackSize machine = .ok () machine :=
      failIf_run tooMany _
    rw [runs]
    exact ⟨ready.1, not_lt.mp tooMany⟩

theorem evalInstruction_safe (read : Instruction) :
    Safe Bounded (evalInstruction context read) fun _ => Bounded := by
  have ready : ∀ n, Safe (Ready n) (evalInstruction context read)
      fun _ => Bounded := by
    intro n
    refine safe_get fun found => ?_
    refine safe_failIf fun small => ?_
    refine safe_countOpcode read.opcode ?_
    refine safe_failIf fun _ => ?_
    refine (carryOut_safe context _ (not_lt.mp small) n).bind fun _ => ?_
    exact (Meets.naming fun n => checkStackSize_safe).mono
      (fun _ good => ready_of_good good) fun _ _ bounded => bounded
  exact (Meets.naming ready).mono (fun _ bounded => ready_of_good bounded.good)
    fun _ _ bounded => bounded

/-! ## A script -/

theorem evalLoop_safe (pc : CScript) :
    Safe Bounded (evalLoop context pc) fun _ => Bounded := by
  induction pc using evalLoop.induct with
  | case1 =>
      rw [evalLoop, if_pos rfl]
      exact .pure fun _ bounded => bounded
  | case2 pc more unread =>
      rw [evalLoop_unread context more unread]
      exact .throw fun _ bounded => ⟨trivial, bounded.good.recorded⟩
  | case3 pc more read found ih =>
      rw [evalLoop_read context found]
      exact (evalInstruction_safe context read).bind fun _ => ih

theorem start_bounded (script : CScript) {stack : List Valtype}
    (few : stack.length ≤ 1000)
    (small : ∀ vch ∈ stack, vch.length ≤ maxScriptElementSize) :
    Bounded (start script stack) where
  good := {
    recorded := {
      small := small
      stack := fun _ member => member
      altstack := fun _ member => nomatch member }
    nOpCount := (by decide : (0 : Int) ≤ 201) }
  stackSize := by
    show stack.length + 0 ≤ 1000
    omega

/-- An evaluation returns true or false, with the machine in order. -/
theorem evalScript_ends (script : CScript) {stack : List Valtype}
    (few : stack.length ≤ 1000)
    (small : ∀ vch ∈ stack, vch.length ≤ maxScriptElementSize) :
    (∃ machine, evalScript context script stack = .ok () machine ∧
      Bounded machine ∧ machine.vfExec = []) ∨
    ∃ serror machine,
      evalScript context script stack = .error (.error serror) machine ∧
        Recorded machine := by
  have bounded := start_bounded script few small
  by_cases big : script.length > 10000
  · exact .inr ⟨_, _, if_pos big, bounded.good.recorded⟩
  · cases guarded : evalGuarded context script stack with
    | ok value machine =>
        have reached := (evalLoop_safe context script).of_ok bounded guarded
        by_cases closed : machine.vfExec = []
        · refine .inl ⟨machine, ?_, reached, closed⟩
          simp [evalScript, big, guarded, closed]
        · refine .inr ⟨.unbalancedConditional, machine, ?_,
            reached.good.recorded⟩
          simp [evalScript, big, guarded, closed]
    | error stop machine =>
        have stopped :=
          (evalLoop_safe context script).of_error bounded guarded
        cases stop with
        | error serror =>
            refine .inr ⟨serror, machine, ?_, stopped.2⟩
            simp [evalScript, big, guarded]
        | thrown exception =>
            refine .inr ⟨.unknownError, machine, ?_, stopped.2⟩
            simp [evalScript, big, guarded]
        | undefinedAccess => exact stopped.1.elim
        | assertionFailed => exact stopped.1.elim

/-- What is promised of the evaluation of a script on an initial stack. -/
structure SafeEvaluation (script : CScript) (stack : List Valtype) :
    Prop where
  /-- The handler is entered for numbers only. -/
  caught : ∀ exception machine,
    evalGuarded context script stack = .error (.thrown exception) machine →
    OfScriptNum exception
  /-- The function returns: true, or false with an error code. -/
  returns : (∃ machine, evalScript context script stack = .ok () machine) ∨
    ∃ serror machine,
      evalScript context script stack = .error (.error serror) machine
  /-- Nothing that was ever on a stack is too big. -/
  elements : Recorded (finalMachine (evalScript context script stack))
  accepted : ∀ machine, evalScript context script stack = .ok () machine →
    machine.stack.length ≤ 1000 ∧ machine.vfExec = [] ∧
      machine.nOpCount ≤ 201

theorem safeEvaluation {script : CScript} {stack : List Valtype}
    (few : stack.length ≤ 1000)
    (small : ∀ vch ∈ stack, vch.length ≤ maxScriptElementSize) :
    SafeEvaluation context script stack := by
  have caught : ∀ exception machine,
      evalGuarded context script stack = .error (.thrown exception) machine →
      OfScriptNum exception := fun exception machine thrown =>
    ((evalLoop_safe context script).of_error
      (start_bounded script few small) thrown).1
  rcases evalScript_ends context script few small with
    ⟨machine, runs, reached, closed⟩ | ⟨serror, machine, stops, recorded⟩
  · refine ⟨caught, .inl ⟨machine, runs⟩, ?_, fun other ok => ?_⟩
    · rw [runs]
      exact reached.good.recorded
    · rw [runs] at ok
      cases ok
      have limit := reached.stackSize
      exact ⟨by omega, closed, reached.good.nOpCount⟩
  · refine ⟨caught, .inr ⟨serror, machine, stops⟩, ?_, fun other ok => ?_⟩
    · rw [stops]
      exact recorded
    · rw [stops] at ok
      cases ok

/-! ## Verification -/

/-- The result is a value with the property, or an error code. -/
def Answers {α : Type} (post : α → Prop) (result : Except Stop α) : Prop :=
  (∃ value, result = .ok value ∧ post value) ∨
    ∃ serror, result = .error (.error serror)

theorem Answers.bind {α β : Type} {middle : α → Prop} {post : β → Prop}
    {result : Except Stop α} {next : α → Except Stop β}
    (first : Answers middle result)
    (rest : ∀ value, middle value → Answers post (next value)) :
    Answers post (result >>= next) := by
  rcases first with ⟨value, rfl, holds⟩ | ⟨serror, rfl⟩
  · exact rest value holds
  · exact .inr ⟨serror, rfl⟩

theorem throwIf_answers (condition : Bool) (serror : ScriptError) :
    Answers (fun _ => True) (throwIf condition serror) := by
  cases condition
  · exact .inl ⟨(), rfl, trivial⟩
  · exact .inr ⟨serror, rfl⟩

theorem requireTrue_answers (stack : List Valtype) :
    Answers (fun _ => True) (requireTrue stack) := by
  cases stack with
  | nil => exact .inr ⟨.evalFalse, rfl⟩
  | cons back rest =>
      by_cases isTrue : castToBool back = true
      · exact .inl ⟨(), if_pos isTrue, trivial⟩
      · exact .inr ⟨.evalFalse, if_neg isTrue⟩

/-- A stack that an evaluation may start with. -/
def SmallStack (stack : List Valtype) : Prop :=
  stack.length ≤ 1000 ∧ ∀ vch ∈ stack, vch.length ≤ maxScriptElementSize

theorem evalStack_answers (script : CScript) {stack : List Valtype}
    (small : SmallStack stack) :
    Answers (fun after => SmallStack after ∧
        evalStack context script stack = .ok after)
      (evalStack context script stack) := by
  rcases evalScript_ends context script small.1 small.2 with
    ⟨machine, runs, reached, _⟩ | ⟨serror, machine, stops, _⟩
  · have result : evalStack context script stack = .ok machine.stack := by
      rw [evalStack, runs]
    have recorded := reached.good.recorded
    have limit := reached.stackSize
    exact .inl ⟨machine.stack, result, ⟨by omega, fun vch member =>
      recorded.small vch (recorded.stack vch member)⟩, result⟩
  · exact .inr ⟨serror, by rw [evalStack, stops]⟩

/-- The hash of an empty stack cannot be taken. -/
theorem evalStack_scriptHash {script : CScript}
    (isHash : isPayToScriptHash script = true) :
    evalStack context script [] =
      .error (.error .invalidStackOperation) := by
  simp only [isPayToScriptHash, Bool.and_eq_true, decide_eq_true_eq]
    at isHash
  obtain ⟨⟨⟨length, first⟩, _⟩, _⟩ := isHash
  cases script with
  | nil => simp at length
  | cons opcode rest =>
      cases Option.some.inj first
      have read : getOp (opHash160 :: rest) = some ⟨opHash160, [], rest⟩ :=
        rfl
      have stops : evalInstruction context ⟨opHash160, [], rest⟩
          (start (opHash160 :: rest) []) =
        .error (.error .invalidStackOperation)
          { start (opHash160 :: rest) [] with nOpCount := 1 } := rfl
      have guarded : evalGuarded context (opHash160 :: rest) [] =
          .error (.error .invalidStackOperation)
            { start (opHash160 :: rest) [] with nOpCount := 1 } := by
        rw [evalGuarded, evalLoop_read context read]
        exact bind_error stops
      have short : ¬ (opHash160 :: rest).length > 10000 := by omega
      rw [evalStack, evalScript, if_neg short, guarded]

theorem verifyScriptHash_answers (scriptSig : CScript)
    {stackCopy : List Valtype} (saved : stackCopy ≠ [])
    (small : SmallStack stackCopy) :
    Answers (fun _ => True) (verifyScriptHash context scriptSig stackCopy) := by
  refine (throwIf_answers _ _).bind fun _ _ => ?_
  cases stackCopy with
  | nil => exact absurd rfl saved
  | cons pubKeySerialized rest =>
      have smaller : SmallStack rest :=
        ⟨(Nat.le_succ _).trans small.1,
          fun vch member => small.2 vch (List.mem_cons_of_mem _ member)⟩
      exact (evalStack_answers context pubKeySerialized smaller).bind
        fun after _ => requireTrue_answers after

theorem verifyScript_answers (scriptSig scriptPubKey : CScript) :
    Answers (fun _ => True) (verifyScript context scriptSig scriptPubKey) := by
  have nothing : SmallStack [] :=
    ⟨Nat.zero_le _, fun _ member => nomatch member⟩
  refine (throwIf_answers _ _).bind fun _ _ => ?_
  refine (evalStack_answers context scriptSig nothing).bind
    fun saved found => ?_
  refine (evalStack_answers context scriptPubKey found.1).bind
    fun after evaluated => ?_
  refine (requireTrue_answers after).bind fun _ _ => ?_
  by_cases hashed : (hasFlag context.flags verifyP2SH &&
    isPayToScriptHash scriptPubKey) = true
  · have both := Bool.and_eq_true_iff.mp hashed
    rw [if_pos hashed, if_pos both.1]
    refine verifyScriptHash_answers context scriptSig (fun empty => ?_)
      found.1
    rw [empty, evalStack_scriptHash context both.2] at evaluated
    exact nomatch evaluated.2
  · rw [if_neg hashed]
    exact .inl ⟨(), rfl, trivial⟩

/-- Evaluation is safe and bounded, and the assertion about the saved stack
holds. -/
theorem evaluation_safe :
    (∀ (script : CScript) (stack : List Valtype), stack.length ≤ 1000 →
      (∀ vch ∈ stack, vch.length ≤ maxScriptElementSize) →
      SafeEvaluation context script stack) ∧
    ∀ scriptSig scriptPubKey : CScript,
      verifyScript context scriptSig scriptPubKey ≠
        .error .assertionFailed := by
  refine ⟨fun script stack few small => safeEvaluation context few small,
    fun scriptSig scriptPubKey failed => ?_⟩
  rcases verifyScript_answers context scriptSig scriptPubKey with
    ⟨_, answer, _⟩ | ⟨_, answer⟩ <;>
    exact nomatch failed.symm.trans answer

/-- A signature check in one branch, an addition in the other. -/
def branchingScript : CScript :=
  [opIf, opCheckSig, opElse, op1, opAdd, opEndIf]

theorem evaluation_safe_branches :
    SafeEvaluation (plainContext fun sig key _ => sig = key) branchingScript
        [[1], [3], [3]] ∧
      SafeEvaluation (plainContext fun sig key _ => sig = key) branchingScript
        [[], [2]] := by
  have safe := (evaluation_safe (plainContext fun sig key _ => sig = key)).1
    branchingScript
  exact ⟨safe _ (by decide) (by decide), safe _ (by decide) (by decide)⟩

end PrivateDatagram.Script.EvalSafety
