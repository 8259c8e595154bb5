import PrivateDatagram.Library.CheckedBuffer
import PrivateDatagram.Script.ScriptNum
import PrivateDatagram.Script.SignatureEncoding

/-!
# Operations

What `EvalScript` does for each opcode, one definition for each group of
`case` labels.  Where a group treats its opcodes differently, the opcode is a
parameter.
-/

namespace PrivateDatagram.Script.Operations

open Library.CheckedBuffer Wire.Transaction Wire.Script Instructions EvalMachine
  ScriptNum SignatureEncoding

/--
What an evaluation is given beside the script: the flags, the signature
checker, and the hash functions, each of which fills a vector of fixed size.
-/
structure Context where
  flags : UInt32
  checkSig : Valtype → Valtype → CScript → Bool
  ripemd160 : Valtype → Buffer UInt8 20
  sha1 : Valtype → Buffer UInt8 20
  sha256 : Valtype → Buffer UInt8 32
  hash160 : Valtype → Buffer UInt8 20
  hash256 : Valtype → Buffer UInt8 32

def Context.fRequireMinimal (context : Context) : Bool :=
  hasFlag context.flags verifyMinimalData

/-- No flags, and hash functions that give zeros. -/
def plainContext (checkSig : Valtype → Valtype → CScript → Bool) :
    Context where
  flags := 0
  checkSig := checkSig
  ripemd160 _ := ⟨List.replicate 20 0, rfl⟩
  sha1 _ := ⟨List.replicate 20 0, rfl⟩
  sha256 _ := ⟨List.replicate 32 0, rfl⟩
  hash160 _ := ⟨List.replicate 20 0, rfl⟩
  hash256 _ := ⟨List.replicate 32 0, rfl⟩

def vchTrue : Valtype := [1]
def vchFalse : Valtype := []

def ofBool (fValue : Bool) : Valtype := if fValue then vchTrue else vchFalse

/-- The last byte may be a negative zero. -/
def castToBool : Valtype → Bool
  | [] => false
  | [byte] => byte ≠ 0 && byte ≠ 0x80
  | byte :: rest => byte ≠ 0 || castToBool rest

variable (context : Context)

/-- The constructor of `CScriptNum` from a vector. -/
def scriptNum (vch : Valtype) : Eval CScriptNum :=
  if vch.length > nMaxNumSize then throw (.thrown (.scriptNumOverflow vch))
  else if context.fRequireMinimal && nonMinimal vch then
    throw (.thrown (.nonMinimalScriptNum vch))
  else pure ⟨setVch vch⟩

/-- The result of a `…VERIFY` opcode is taken off the stack again. -/
def verifyTop (fSuccess : Bool) (serror : ScriptError) : Eval Unit := do
  failIf (fSuccess = false) serror
  popstack

def popMany : Nat → Eval Unit
  | 0 => pure ()
  | count + 1 => do
      popstack
      popMany count

/-! ## Values and control -/

def execPushNumber (opcode : UInt8) : Eval Unit :=
  pushBack (CScriptNum.getvch ⟨opcode.toNat - (op1.toNat - 1)⟩)

def execNopN : Eval Unit :=
  failIf (hasFlag context.flags verifyDiscourageUpgradableNops)
    .discourageUpgradableNops

def pushCondition (fValue : Bool) : Eval Unit :=
  modify fun machine => { machine with vfExec := fValue :: machine.vfExec }

def execIf (fExec : Bool) (opcode : UInt8) : Eval Unit := do
  if fExec then
    requireSize 1 .unbalancedConditional
    let fValue := castToBool (← stacktop (-1))
    popstack
    pushCondition (if opcode = opNotIf then !fValue else fValue)
  else
    pushCondition false

/-- Change the innermost conditional, if there is one. -/
def changeConditional (change : Bool → List Bool → List Bool) :
    Eval Unit := do
  match (← get).vfExec with
  | [] => throw (.error .unbalancedConditional)
  | back :: rest =>
      modify fun machine => { machine with vfExec := change back rest }

def execElse : Eval Unit := changeConditional fun back rest => (!back) :: rest
def execEndIf : Eval Unit := changeConditional fun _ rest => rest

def execVerify : Eval Unit := do
  requireSize 1 .invalidStackOperation
  verifyTop (castToBool (← stacktop (-1))) .verify

/-! ## The stacks -/

def execToAltStack : Eval Unit := do
  requireSize 1 .invalidStackOperation
  pushBackAlt (← stacktop (-1))
  popstack

def execFromAltStack : Eval Unit := do
  failIf ((← get).altstack.length < 1) .invalidAltStackOperation
  pushBack (← altstacktop (-1))
  popaltstack

def dropTop (count : Nat) : Eval Unit := do
  requireSize count .invalidStackOperation
  popMany count

def execDrop : Eval Unit := dropTop 1
def exec2Drop : Eval Unit := dropTop 2

def stacktops : List Int → Eval (List Valtype)
  | [] => pure []
  | i :: positions => do
      let vch ← stacktop i
      let vchs ← stacktops positions
      return vch :: vchs

/-- Push copies of the elements at some positions. -/
def copyToTop (size : Int) (positions : List Int) : Eval Unit := do
  requireSize size .invalidStackOperation
  forM (← stacktops positions) pushBack

def execDup : Eval Unit := copyToTop 1 [-1]
def exec2Dup : Eval Unit := copyToTop 2 [-2, -1]
def exec3Dup : Eval Unit := copyToTop 3 [-3, -2, -1]
def execOver : Eval Unit := copyToTop 2 [-2]
def exec2Over : Eval Unit := copyToTop 4 [-4, -3]

/-- Exchange elements pair by pair. -/
def swapPairs (size : Int) (pairs : List (Int × Int)) : Eval Unit := do
  requireSize size .invalidStackOperation
  forM pairs fun pair => swap pair.1 pair.2

def execSwap : Eval Unit := swapPairs 2 [(-2, -1)]
def exec2Swap : Eval Unit := swapPairs 4 [(-4, -2), (-3, -1)]
def execRot : Eval Unit := swapPairs 3 [(-3, -2), (-2, -1)]

def exec2Rot : Eval Unit := do
  requireSize 6 .invalidStackOperation
  let vch1 ← stacktop (-6)
  let vch2 ← stacktop (-5)
  erase 6 4
  pushBack vch1
  pushBack vch2

def execIfDup : Eval Unit := do
  requireSize 1 .invalidStackOperation
  let vch ← stacktop (-1)
  if castToBool vch then pushBack vch

def execDepth : Eval Unit := do
  pushBack (CScriptNum.getvch ⟨← stackSize⟩)

def execNip : Eval Unit := do
  requireSize 2 .invalidStackOperation
  erase 2 1

def execPickRoll (opcode : UInt8) : Eval Unit := do
  requireSize 2 .invalidStackOperation
  let n := (← scriptNum context (← stacktop (-1))).getint
  popstack
  failIf (n < 0 ∨ n ≥ (← stackSize)) .invalidStackOperation
  let vch ← stacktop (-n - 1)
  if opcode = opRoll then erase (n + 1) n
  pushBack vch

def execTuck : Eval Unit := do
  requireSize 2 .invalidStackOperation
  insert 2 (← stacktop (-1))

def execSize : Eval Unit := do
  requireSize 1 .invalidStackOperation
  pushBack (CScriptNum.getvch ⟨(← stacktop (-1)).length⟩)

def execEqual (opcode : UInt8) : Eval Unit := do
  requireSize 2 .invalidStackOperation
  let vch1 ← stacktop (-2)
  let vch2 ← stacktop (-1)
  popMany 2
  pushBack (ofBool (vch1 = vch2))
  if opcode = opEqualVerify then verifyTop (vch1 = vch2) .equalVerify

/-! ## Numbers -/

/-- `operator+=`. -/
def addAssign (bn rhs : CScriptNum) : Eval CScriptNum := do
  assert (rhs.mValue = 0 ∨
    (rhs.mValue > 0 ∧ bn.mValue ≤ int64Max - rhs.mValue) ∨
    (rhs.mValue < 0 ∧ bn.mValue ≥ int64Min - rhs.mValue))
  return ⟨bn.mValue + rhs.mValue⟩

/-- `operator-=`. -/
def subAssign (bn rhs : CScriptNum) : Eval CScriptNum := do
  assert (rhs.mValue = 0 ∨
    (rhs.mValue > 0 ∧ bn.mValue ≥ int64Min + rhs.mValue) ∨
    (rhs.mValue < 0 ∧ bn.mValue ≤ int64Max + rhs.mValue))
  return ⟨bn.mValue - rhs.mValue⟩

/-- The unary `operator-`. -/
def negate (bn : CScriptNum) : Eval CScriptNum := do
  assert (bn.mValue ≠ int64Min)
  return ⟨-bn.mValue⟩

def numOfBool (fValue : Bool) : CScriptNum := ⟨if fValue then 1 else 0⟩

def bnZero : CScriptNum := ⟨0⟩
def bnOne : CScriptNum := ⟨1⟩

def unaryResult (opcode : UInt8) (bn : CScriptNum) : Eval CScriptNum :=
  if opcode = op1Add then addAssign bn bnOne
  else if opcode = op1Sub then subAssign bn bnOne
  else if opcode = opNegate then negate bn
  else if opcode = opAbs then
    if bn.mValue < bnZero.mValue then negate bn else pure bn
  else if opcode = opNot then
    pure (numOfBool (bn.mValue = bnZero.mValue))
  else if opcode = op0NotEqual then
    pure (numOfBool (bn.mValue ≠ bnZero.mValue))
  else throw .assertionFailed

def execUnary (opcode : UInt8) : Eval Unit := do
  requireSize 1 .invalidStackOperation
  let bn ← scriptNum context (← stacktop (-1))
  let bn ← unaryResult opcode bn
  popstack
  pushBack bn.getvch

def binaryResult (opcode : UInt8) (bn1 bn2 : CScriptNum) :
    Eval CScriptNum :=
  let value1 := bn1.mValue
  let value2 := bn2.mValue
  if opcode = opAdd then pure ⟨value1 + value2⟩
  else if opcode = opSub then pure ⟨value1 - value2⟩
  else if opcode = opBoolAnd then
    pure (numOfBool (value1 ≠ bnZero.mValue ∧ value2 ≠ bnZero.mValue))
  else if opcode = opBoolOr then
    pure (numOfBool (value1 ≠ bnZero.mValue ∨ value2 ≠ bnZero.mValue))
  else if opcode = opNumEqual then pure (numOfBool (value1 = value2))
  else if opcode = opNumEqualVerify then pure (numOfBool (value1 = value2))
  else if opcode = opNumNotEqual then pure (numOfBool (value1 ≠ value2))
  else if opcode = opLessThan then pure (numOfBool (value1 < value2))
  else if opcode = opGreaterThan then pure (numOfBool (value1 > value2))
  else if opcode = opLessThanOrEqual then pure (numOfBool (value1 ≤ value2))
  else if opcode = opGreaterThanOrEqual then
    pure (numOfBool (value1 ≥ value2))
  else if opcode = opMin then pure (if value1 < value2 then bn1 else bn2)
  else if opcode = opMax then pure (if value1 > value2 then bn1 else bn2)
  else throw .assertionFailed

def execBinary (opcode : UInt8) : Eval Unit := do
  requireSize 2 .invalidStackOperation
  let bn1 ← scriptNum context (← stacktop (-2))
  let bn2 ← scriptNum context (← stacktop (-1))
  let bn ← binaryResult opcode bn1 bn2
  popMany 2
  pushBack bn.getvch
  if opcode = opNumEqualVerify then
    verifyTop (castToBool (← stacktop (-1))) .numEqualVerify

def execWithin : Eval Unit := do
  requireSize 3 .invalidStackOperation
  let bn1 ← scriptNum context (← stacktop (-3))
  let bn2 ← scriptNum context (← stacktop (-2))
  let bn3 ← scriptNum context (← stacktop (-1))
  popMany 3
  pushBack (ofBool (bn2.mValue ≤ bn1.mValue ∧ bn1.mValue < bn3.mValue))

/-! ## Hashes and signatures -/

def hashOf (opcode : UInt8) (vch : Valtype) : Valtype :=
  if opcode = opRipemd160 then (context.ripemd160 vch).val
  else if opcode = opSha1 then (context.sha1 vch).val
  else if opcode = opSha256 then (context.sha256 vch).val
  else if opcode = opHash160 then (context.hash160 vch).val
  else (context.hash256 vch).val

def execHash (opcode : UInt8) : Eval Unit := do
  requireSize 1 .invalidStackOperation
  let vchHash := hashOf context opcode (← stacktop (-1))
  popstack
  pushBack vchHash

/-- The hash starts after the code separator. -/
def execCodeSeparator (pc : CScript) : Eval Unit :=
  modify fun machine => { machine with pbegincodehash := pc }

/-- Both tests on the encodings, in the order in which they set the error. -/
def checkEncodings (vchSig vchPubKey : Valtype) : Eval Unit :=
  let tests : Except ScriptError Unit := do
    checkSignatureEncoding vchSig context.flags
    checkPubKeyEncoding vchPubKey context.flags
  match tests with
  | .ok () => pure ()
  | .error serror => throw (.error serror)

def execCheckSig (opcode : UInt8) : Eval Unit := do
  requireSize 2 .invalidStackOperation
  let vchSig ← stacktop (-2)
  let vchPubKey ← stacktop (-1)
  let scriptCode :=
    findAndDelete (← get).pbegincodehash (pushScript vchSig)
  checkEncodings context vchSig vchPubKey
  let fSuccess := context.checkSig vchSig vchPubKey scriptCode
  popMany 2
  pushBack (ofBool fSuccess)
  if opcode = opCheckSigVerify then verifyTop fSuccess .checkSigVerify

/-! ## Multisig -/

/-- Drop the signatures, since none can sign itself. -/
def dropSignatures : Nat → Int → CScript → Eval CScript
  | 0, _, scriptCode => pure scriptCode
  | count + 1, isig, scriptCode => do
      let vchSig ← stacktop (-isig)
      dropSignatures count (isig + 1)
        (findAndDelete scriptCode (pushScript vchSig))

/-- The loop that looks for a key to every signature, and `fSuccess`. -/
def checkSignatures (scriptCode : CScript)
    (isig ikey nSigsCount nKeysCount : Int) : Eval Bool :=
  if left : 0 < nSigsCount then do
    let vchSig ← stacktop (-isig)
    let vchPubKey ← stacktop (-ikey)
    checkEncodings context vchSig vchPubKey
    let fOk := context.checkSig vchSig vchPubKey scriptCode
    let isig' := if fOk then isig + 1 else isig
    let nSigsCount' := if fOk then nSigsCount - 1 else nSigsCount
    -- More signatures are left than keys: too many have failed.
    if many : nSigsCount' > nKeysCount - 1 then pure false
    else
      checkSignatures scriptCode isig' (ikey + 1) nSigsCount' (nKeysCount - 1)
  else pure true
termination_by nKeysCount.toNat
decreasing_by
  dsimp only [nSigsCount'] at many
  split_ifs at many <;> omega

def execCheckMultisig (opcode : UInt8) : Eval Unit := do
  requireSize 1 .invalidStackOperation
  let nKeysCount := (← scriptNum context (← stacktop (-1))).getint
  failIf (nKeysCount < 0 ∨ nKeysCount > 20) .pubkeyCount
  countOps nKeysCount
  let ikey := 2
  let i := ikey + nKeysCount
  requireSize i .invalidStackOperation
  let nSigsCount := (← scriptNum context (← stacktop (-i))).getint
  failIf (nSigsCount < 0 ∨ nSigsCount > nKeysCount) .sigCount
  let isig := i + 1
  let i := isig + nSigsCount
  requireSize i .invalidStackOperation
  let scriptCode ←
    dropSignatures nSigsCount.toNat isig (← get).pbegincodehash
  let fSuccess ←
    checkSignatures context scriptCode isig ikey nSigsCount nKeysCount
  popMany (i - 1).toNat
  -- One element more is consumed, whose contents nothing depends on.
  requireSize 1 .invalidStackOperation
  if hasFlag context.flags verifyNullDummy then
    failIf ((← stacktop (-1)).length ≠ 0) .sigNullDummy
  popstack
  pushBack (ofBool fSuccess)
  if opcode = opCheckMultisigVerify then
    verifyTop fSuccess .checkMultisigVerify

end PrivateDatagram.Script.Operations
