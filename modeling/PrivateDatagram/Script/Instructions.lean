import PrivateDatagram.Wire.Script

/-!
# Instructions

The opcodes the interpreter knows, the instruction reader with its operand,
and the two walks over a script that read it: the push-only test and the
removal of a byte string at instruction boundaries.
-/

namespace PrivateDatagram.Script.Instructions

open Library.ByteFormat Wire.Transaction Wire.Script

abbrev Valtype := Bytes

def maxScriptElementSize : Nat := 520

/-! ## Opcodes -/

def op0 : UInt8 := 0x00
def op1Negate : UInt8 := 0x4f
def op1 : UInt8 := 0x51
def op2 : UInt8 := 0x52
def op3 : UInt8 := 0x53
def op4 : UInt8 := 0x54
def op5 : UInt8 := 0x55
def op6 : UInt8 := 0x56
def op7 : UInt8 := 0x57
def op8 : UInt8 := 0x58
def op9 : UInt8 := 0x59
def op10 : UInt8 := 0x5a
def op11 : UInt8 := 0x5b
def op12 : UInt8 := 0x5c
def op13 : UInt8 := 0x5d
def op14 : UInt8 := 0x5e
def op15 : UInt8 := 0x5f
def op16 : UInt8 := 0x60

-- Control.
def opNop : UInt8 := 0x61
def opIf : UInt8 := 0x63
def opNotIf : UInt8 := 0x64
def opElse : UInt8 := 0x67
def opEndIf : UInt8 := 0x68
def opVerify : UInt8 := 0x69

-- Stack operations.
def opToAltStack : UInt8 := 0x6b
def opFromAltStack : UInt8 := 0x6c
def op2Drop : UInt8 := 0x6d
def op2Dup : UInt8 := 0x6e
def op3Dup : UInt8 := 0x6f
def op2Over : UInt8 := 0x70
def op2Rot : UInt8 := 0x71
def op2Swap : UInt8 := 0x72
def opIfDup : UInt8 := 0x73
def opDepth : UInt8 := 0x74
def opDrop : UInt8 := 0x75
def opDup : UInt8 := 0x76
def opNip : UInt8 := 0x77
def opOver : UInt8 := 0x78
def opPick : UInt8 := 0x79
def opRoll : UInt8 := 0x7a
def opRot : UInt8 := 0x7b
def opSwap : UInt8 := 0x7c
def opTuck : UInt8 := 0x7d

-- Splice operations.
def opCat : UInt8 := 0x7e
def opSubstr : UInt8 := 0x7f
def opLeft : UInt8 := 0x80
def opRight : UInt8 := 0x81
def opSize : UInt8 := 0x82

-- Bit logic.
def opInvert : UInt8 := 0x83
def opAnd : UInt8 := 0x84
def opOr : UInt8 := 0x85
def opXor : UInt8 := 0x86
def opEqualVerify : UInt8 := 0x88

-- Numbers.
def op1Add : UInt8 := 0x8b
def op1Sub : UInt8 := 0x8c
def op2Mul : UInt8 := 0x8d
def op2Div : UInt8 := 0x8e
def opNegate : UInt8 := 0x8f
def opAbs : UInt8 := 0x90
def opNot : UInt8 := 0x91
def op0NotEqual : UInt8 := 0x92
def opAdd : UInt8 := 0x93
def opSub : UInt8 := 0x94
def opMul : UInt8 := 0x95
def opDiv : UInt8 := 0x96
def opMod : UInt8 := 0x97
def opLShift : UInt8 := 0x98
def opRShift : UInt8 := 0x99
def opBoolAnd : UInt8 := 0x9a
def opBoolOr : UInt8 := 0x9b
def opNumEqual : UInt8 := 0x9c
def opNumEqualVerify : UInt8 := 0x9d
def opNumNotEqual : UInt8 := 0x9e
def opLessThan : UInt8 := 0x9f
def opGreaterThan : UInt8 := 0xa0
def opLessThanOrEqual : UInt8 := 0xa1
def opGreaterThanOrEqual : UInt8 := 0xa2
def opMin : UInt8 := 0xa3
def opMax : UInt8 := 0xa4
def opWithin : UInt8 := 0xa5

-- Crypto.
def opRipemd160 : UInt8 := 0xa6
def opSha1 : UInt8 := 0xa7
def opSha256 : UInt8 := 0xa8
def opHash256 : UInt8 := 0xaa
def opCheckSig : UInt8 := 0xac
def opCheckSigVerify : UInt8 := 0xad
def opCheckMultisig : UInt8 := 0xae
def opCheckMultisigVerify : UInt8 := 0xaf

-- Expansion.
def opNop1 : UInt8 := 0xb0
def opNop2 : UInt8 := 0xb1
def opNop3 : UInt8 := 0xb2
def opNop4 : UInt8 := 0xb3
def opNop5 : UInt8 := 0xb4
def opNop6 : UInt8 := 0xb5
def opNop7 : UInt8 := 0xb6
def opNop8 : UInt8 := 0xb7
def opNop9 : UInt8 := 0xb8
def opNop10 : UInt8 := 0xb9

/-! ## Reading an instruction -/

/-- What a successful `GetOp` gives; the iterator is the rest of the script. -/
structure Instruction where
  opcode : UInt8
  vchRet : Valtype
  pc : CScript
deriving DecidableEq, Repr

def readOperand (opcode : UInt8) (nSize : Nat) (pc : CScript) :
    Option Instruction :=
  if pc.length % 2 ^ 32 < nSize then none
  else some ⟨opcode, pc.take nSize, pc.drop nSize⟩

def readSizedOperand (opcode : UInt8) (width : Nat) (pc : CScript) :
    Option Instruction :=
  if pc.length < width then none
  else readOperand opcode (ofLittleEndian (pc.take width)) (pc.drop width)

/-- `GetOp` with the operand. -/
def getOp : CScript → Option Instruction
  | [] => none
  | opcode :: pc =>
      if opcode ≤ opPushData4 then
        if opcode < opPushData1 then readOperand opcode opcode.toNat pc
        else if opcode = opPushData1 then readSizedOperand opcode 1 pc
        else if opcode = opPushData2 then readSizedOperand opcode 2 pc
        else readSizedOperand opcode 4 pc
      else some ⟨opcode, [], pc⟩

/-- What a reader without the operand finds. -/
def found (read : OpRead) : Option (UInt8 × CScript) :=
  if read.ok then some (read.opcode, read.pc) else none

theorem readOperand_found (opcode : UInt8) (nSize : Nat) (pc : CScript) :
    (readOperand opcode nSize pc).map (fun read => (read.opcode, read.pc)) =
      found (skipOperand opcode nSize pc) := by
  unfold readOperand skipOperand
  by_cases short : pc.length % 2 ^ 32 < nSize
  · rw [if_pos short, if_pos short]
    rfl
  · rw [if_neg short, if_neg short]
    rfl

theorem readSizedOperand_found (opcode : UInt8) (width : Nat)
    (pc : CScript) :
    (readSizedOperand opcode width pc).map
        (fun read => (read.opcode, read.pc)) =
      found (skipSizedOperand opcode width pc) := by
  unfold readSizedOperand skipSizedOperand
  by_cases short : pc.length < width
  · rw [if_pos short, if_pos short]
    rfl
  · rw [if_neg short, if_neg short]
    exact readOperand_found opcode _ _

/-- With or without the operand, the reader finds the same. -/
theorem getOp_found (script : CScript) :
    (getOp script).map (fun read => (read.opcode, read.pc)) =
      found (getOp2 script) := by
  cases script with
  | nil => rfl
  | cons opcode pc =>
      unfold getOp getOp2
      simp only [apply_ite found, apply_ite (Option.map _),
        readOperand_found, readSizedOperand_found]
      rfl

/-- A successful read moves the iterator. -/
theorem getOp_length {script : CScript} {read : Instruction}
    (success : getOp script = some read) :
    read.pc.length < script.length := by
  have same := getOp_found script
  rw [success] at same
  by_cases ok : (getOp2 script).ok = true
  · have pcs : read.pc = (getOp2 script).pc := by
      simp [found, ok] at same
      exact same.2
    rw [pcs]
    exact getOp2_length ok
  · simp [found, ok] at same

/-! ## Walks over a script -/

/-- `IsPushOnly`: all opcodes up to `OP_16` count, also `OP_RESERVED`. -/
def isPushOnly (pc : CScript) : Bool :=
  if pc = [] then true
  else
    match _ : getOp pc with
    | none => false
    | some read =>
        if read.opcode > op16 then false else isPushOnly read.pc
termination_by pc.length
decreasing_by exact getOp_length ‹_›

/-- Erase the byte string at the iterator as often as it stands there. -/
def eraseHere (b pc : CScript) : CScript :=
  if b ≠ [] ∧ b <+: pc then eraseHere b (pc.drop b.length) else pc
termination_by pc.length
decreasing_by
  rename_i here
  have length := here.2.length_le
  have positive := List.length_pos_iff.mpr here.1
  rw [List.length_drop]
  omega

theorem eraseHere_length (b pc : CScript) :
    (eraseHere b pc).length ≤ pc.length := by
  induction pc using eraseHere.induct b with
  | case1 pc here ih =>
      rw [eraseHere, if_pos here]
      rw [List.length_drop] at ih
      omega
  | case2 pc away =>
      rw [eraseHere, if_neg away]

/-- The walk of `FindAndDelete` from the iterator on. -/
def deleteFrom (b pc : CScript) : CScript :=
  match _ : getOp (eraseHere b pc) with
  | none => eraseHere b pc
  | some read =>
      (eraseHere b pc).take ((eraseHere b pc).length - read.pc.length) ++
        deleteFrom b read.pc
termination_by pc.length
decreasing_by
  have moved := getOp_length ‹_›
  have erased := eraseHere_length b pc
  omega

def findAndDelete (script b : CScript) : CScript :=
  if b = [] then script else deleteFrom b script

/-- `CScript(b)`: the script that pushes the bytes. -/
def pushScript (b : Valtype) : CScript :=
  if b.length < 0x4c then UInt8.ofNat b.length :: b
  else if b.length ≤ 0xff then opPushData1 :: littleEndian 1 b.length ++ b
  else if b.length ≤ 0xffff then opPushData2 :: littleEndian 2 b.length ++ b
  else opPushData4 :: littleEndian 4 b.length ++ b

end PrivateDatagram.Script.Instructions
