import PrivateDatagram.Script.Operations

/-!
# The interpreter

`EvalScript` reads one instruction after the other and carries it out, and
`VerifyScript` evaluates a signature script, the script it answers and, for a
script hash, the script that was hashed.
-/

namespace PrivateDatagram.Script.EvalScript

open Wire.Transaction Wire.Script Instructions EvalMachine SignatureEncoding
  Operations

/-- The opcodes that fail a script wherever they stand in it. -/
def disabledOpcodes : List UInt8 := [
  opCat, opSubstr, opLeft, opRight, opInvert, opAnd, opOr, opXor, op2Mul,
  op2Div, opMul, opDiv, opMod, opLShift, opRShift]

/-- A group of `case` labels and what stands behind it. -/
structure Case where
  labels : List UInt8
  body : UInt8 → Eval Unit

def switch (cases : List Case) (opcode : UInt8) : Eval Unit :=
  match cases.find? fun group => group.labels.contains opcode with
  | some group => group.body opcode
  | none => throw (.error .badOpcode)

variable (context : Context)

/-- The groups of the big `switch`; the iterator is behind the opcode. -/
def cases (fExec : Bool) (pc : CScript) : List Case := [
  ⟨[op1Negate, op1, op2, op3, op4, op5, op6, op7, op8, op9, op10, op11, op12,
    op13, op14, op15, op16], execPushNumber⟩,
  ⟨[opNop], fun _ => pure ()⟩,
  ⟨[opNop1, opNop2, opNop3, opNop4, opNop5, opNop6, opNop7, opNop8, opNop9,
    opNop10], fun _ => execNopN context⟩,
  ⟨[opIf, opNotIf], execIf fExec⟩,
  ⟨[opElse], fun _ => execElse⟩,
  ⟨[opEndIf], fun _ => execEndIf⟩,
  ⟨[opVerify], fun _ => execVerify⟩,
  ⟨[opReturn], fun _ => throw (.error .opReturn)⟩,
  ⟨[opToAltStack], fun _ => execToAltStack⟩,
  ⟨[opFromAltStack], fun _ => execFromAltStack⟩,
  ⟨[op2Drop], fun _ => exec2Drop⟩,
  ⟨[op2Dup], fun _ => exec2Dup⟩,
  ⟨[op3Dup], fun _ => exec3Dup⟩,
  ⟨[op2Over], fun _ => exec2Over⟩,
  ⟨[op2Rot], fun _ => exec2Rot⟩,
  ⟨[op2Swap], fun _ => exec2Swap⟩,
  ⟨[opIfDup], fun _ => execIfDup⟩,
  ⟨[opDepth], fun _ => execDepth⟩,
  ⟨[opDrop], fun _ => execDrop⟩,
  ⟨[opDup], fun _ => execDup⟩,
  ⟨[opNip], fun _ => execNip⟩,
  ⟨[opOver], fun _ => execOver⟩,
  ⟨[opPick, opRoll], execPickRoll context⟩,
  ⟨[opRot], fun _ => execRot⟩,
  ⟨[opSwap], fun _ => execSwap⟩,
  ⟨[opTuck], fun _ => execTuck⟩,
  ⟨[opSize], fun _ => execSize⟩,
  ⟨[opEqual, opEqualVerify], execEqual⟩,
  ⟨[op1Add, op1Sub, opNegate, opAbs, opNot, op0NotEqual],
    execUnary context⟩,
  ⟨[opAdd, opSub, opBoolAnd, opBoolOr, opNumEqual, opNumEqualVerify,
    opNumNotEqual, opLessThan, opGreaterThan, opLessThanOrEqual,
    opGreaterThanOrEqual, opMin, opMax], execBinary context⟩,
  ⟨[opWithin], fun _ => execWithin context⟩,
  ⟨[opRipemd160, opSha1, opSha256, opHash160, opHash256],
    execHash context⟩,
  ⟨[opCodeSeparator], fun _ => execCodeSeparator pc⟩,
  ⟨[opCheckSig, opCheckSigVerify], execCheckSig context⟩,
  ⟨[opCheckMultisig, opCheckMultisigVerify], execCheckMultisig context⟩]

/-- `OP_RESERVED` does not count towards the limit. -/
def countOpcode (opcode : UInt8) : Eval Unit :=
  if opcode > op16 then countOps 1 else pure ()

/-- Push the operand, or do what stands behind the opcode. -/
def carryOut (fExec : Bool) (read : Instruction) : Eval Unit :=
  if fExec && read.opcode ≤ opPushData4 then do
    failIf (context.fRequireMinimal &&
      !checkMinimalPush read.vchRet read.opcode) .minimalData
    pushBack read.vchRet
  else if fExec || (opIf ≤ read.opcode && read.opcode ≤ opEndIf) then
    switch (cases context fExec read.pc) read.opcode
  else pure ()

def checkStackSize : Eval Unit := do
  let machine ← get
  failIf (machine.stack.length + machine.altstack.length > 1000) .stackSize

/-- What one round of the loop does with the instruction it has read. -/
def evalInstruction (read : Instruction) : Eval Unit := do
  let fExec := !(← get).vfExec.contains false
  failIf (read.vchRet.length > maxScriptElementSize) .pushSize
  countOpcode read.opcode
  failIf (disabledOpcodes.contains read.opcode) .disabledOpcode
  carryOut context fExec read
  checkStackSize

/-- The loop; every read moves the iterator, so it ends. -/
def evalLoop (pc : CScript) : Eval Unit :=
  if pc = [] then pure ()
  else
    match _ : getOp pc with
    | none => throw (.error .badOpcode)
    | some read => do
        evalInstruction context read
        evalLoop read.pc
termination_by pc.length
decreasing_by exact getOp_length ‹_›

theorem evalLoop_read {pc : CScript} {read : Instruction}
    (found : getOp pc = some read) :
    evalLoop context pc = (do
      evalInstruction context read
      evalLoop context read.pc) := by
  have more : pc ≠ [] := by
    rintro rfl
    exact nomatch found
  rw [evalLoop, if_neg more]
  split
  next unread => exact absurd (unread.symm.trans found) nofun
  next read' found' => cases Option.some.inj (found.symm.trans found'); rfl

theorem evalLoop_unread {pc : CScript} (more : pc ≠ [])
    (unread : getOp pc = none) :
    evalLoop context pc = throw (.error .badOpcode) := by
  rw [evalLoop, if_neg more]
  split
  · rfl
  next read found => exact absurd (unread.symm.trans found) nofun

def start (script : CScript) (stack : List Valtype) : Machine where
  stack := stack
  altstack := []
  vfExec := []
  nOpCount := 0
  pbegincodehash := script
  seen := stack

/-- The result, and the machine as it is in the end. -/
abbrev Result := EStateM.Result Stop Machine Unit

def finalMachine : Result → Machine
  | .ok () machine => machine
  | .error _ machine => machine

/-- The `try` block. -/
def evalGuarded (script : CScript) (stack : List Valtype) : Result :=
  evalLoop context script (start script stack)

def evalScript (script : CScript) (stack : List Valtype) : Result :=
  if script.length > 10000 then
    .error (.error .scriptSize) (start script stack)
  else
    match evalGuarded context script stack with
    | .error (.thrown _) machine => .error (.error .unknownError) machine
    | .error stop machine => .error stop machine
    | .ok () machine =>
        if machine.vfExec ≠ [] then
          .error (.error .unbalancedConditional) machine
        else .ok () machine

/-- Evaluate a script for the stack it leaves. -/
def evalStack (script : CScript) (stack : List Valtype) :
    Except Stop (List Valtype) :=
  match evalScript context script stack with
  | .ok () machine => .ok machine.stack
  | .error stop _ => .error stop

/-- The tests that the stack is not empty and has a true value on top. -/
def requireTrue (stack : List Valtype) : Except Stop Unit :=
  match stack with
  | [] => throw (.error .evalFalse)
  | back :: _ =>
      if castToBool back then pure () else throw (.error .evalFalse)

def throwIf (condition : Bool) (serror : ScriptError) : Except Stop Unit :=
  if condition then throw (.error serror) else pure ()

/-- The validation for script hashes, on the stack that was saved. -/
def verifyScriptHash (scriptSig : CScript) (stackCopy : List Valtype) :
    Except Stop Unit := do
  throwIf (!isPushOnly scriptSig) .sigPushOnly
  match stackCopy with
  | [] => throw .assertionFailed
  | pubKeySerialized :: stackCopy =>
      let stackCopy ← evalStack context pubKeySerialized stackCopy
      requireTrue stackCopy

def verifyScript (scriptSig scriptPubKey : CScript) : Except Stop Unit := do
  throwIf (hasFlag context.flags verifySigPushOnly && !isPushOnly scriptSig)
    .sigPushOnly
  let stack ← evalStack context scriptSig []
  let stackCopy := if hasFlag context.flags verifyP2SH then stack else []
  let stack ← evalStack context scriptPubKey stack
  requireTrue stack
  if hasFlag context.flags verifyP2SH && isPayToScriptHash scriptPubKey then
    verifyScriptHash context scriptSig stackCopy

end PrivateDatagram.Script.EvalScript
