import PrivateDatagram.Wire.Transaction

/-!
# Scripts

The parts of `script.h` that transaction handling reads: the first-byte tests
for zerocoin scripts and the opcode reader.  `GetOp2` moves its iterator
before it knows whether the operand is complete, so the position it leaves
behind on failure is part of its result.
-/

namespace PrivateDatagram.Wire.Script

open Library.ByteFormat Transaction

def opPushData1 : UInt8 := 0x4c
def opPushData2 : UInt8 := 0x4d
def opPushData4 : UInt8 := 0x4e
def opReturn : UInt8 := 0x6a
def opEqual : UInt8 := 0x87
def opHash160 : UInt8 := 0xa9
def opCodeSeparator : UInt8 := 0xab
def opZerocoinMint : UInt8 := 0xc1
def opZerocoinSpend : UInt8 := 0xc2
def opInvalidOpcode : UInt8 := 0xff

def isZerocoinMint (script : CScript) : Bool :=
  script.head? = some opZerocoinMint

def isZerocoinSpend (script : CScript) : Bool :=
  script.head? = some opZerocoinSpend

def isUnspendable (script : CScript) : Bool :=
  script.head? = some opReturn

def isPayToScriptHash (script : CScript) : Bool :=
  script.length = 23 && script[0]? = some opHash160 &&
    script[1]? = some 0x14 && script[22]? = some opEqual

/-- The result of `GetOp2`; the iterator is the rest of the script. -/
structure OpRead where
  ok : Bool
  opcode : UInt8
  pc : CScript
deriving DecidableEq, Repr

/-- Skip an operand of `nSize` bytes.  The length test is on 32 bits. -/
def skipOperand (opcode : UInt8) (nSize : Nat) (pc : CScript) : OpRead :=
  if pc.length % 2 ^ 32 < nSize then
    ⟨false, opInvalidOpcode, pc⟩
  else
    ⟨true, opcode, pc.drop nSize⟩

/-- Read an operand behind a length of `width` bytes. -/
def skipSizedOperand (opcode : UInt8) (width : Nat) (pc : CScript) : OpRead :=
  if pc.length < width then
    ⟨false, opInvalidOpcode, pc⟩
  else
    skipOperand opcode (ofLittleEndian (pc.take width)) (pc.drop width)

def getOp2 : CScript → OpRead
  | [] => ⟨false, opInvalidOpcode, []⟩
  | opcode :: pc =>
      if opcode ≤ opPushData4 then
        if opcode < opPushData1 then
          skipOperand opcode opcode.toNat pc
        else if opcode = opPushData1 then
          skipSizedOperand opcode 1 pc
        else if opcode = opPushData2 then
          skipSizedOperand opcode 2 pc
        else
          skipSizedOperand opcode 4 pc
      else
        ⟨true, opcode, pc⟩

theorem skipOperand_length (opcode : UInt8) (nSize : Nat) (pc : CScript) :
    (skipOperand opcode nSize pc).pc.length ≤ pc.length := by
  unfold skipOperand
  split_ifs <;> simp

theorem skipSizedOperand_length (opcode : UInt8) (width : Nat)
    (pc : CScript) :
    (skipSizedOperand opcode width pc).pc.length ≤ pc.length := by
  unfold skipSizedOperand
  split_ifs
  · simp
  · have moved := skipOperand_length opcode
      (ofLittleEndian (pc.take width)) (pc.drop width)
    rw [List.length_drop] at moved
    omega

/-- A successful read moves the iterator. -/
theorem getOp2_length {script : CScript} (read : (getOp2 script).ok = true) :
    (getOp2 script).pc.length < script.length := by
  cases script with
  | nil => simp [getOp2] at read
  | cons opcode pc =>
      have moved : (getOp2 (opcode :: pc)).pc.length ≤ pc.length := by
        simp only [getOp2]
        split_ifs
        · exact skipOperand_length _ _ _
        · exact skipSizedOperand_length _ _ _
        · exact skipSizedOperand_length _ _ _
        · exact skipSizedOperand_length _ _ _
        · exact Nat.le_refl _
      rw [List.length_cons]
      omega

end PrivateDatagram.Wire.Script
