import PrivateDatagram.Script.Building

/-!
# Standard scripts

`Solver` compares a script with the templates of the standard outputs.  It
answers at once for scripts that have a fixed form of their own.
-/

namespace PrivateDatagram.Script.Standard

open Wire.Transaction Wire.Script Instructions

/-- `txnouttype`. -/
inductive TxnOutType where
  | nonstandard
  | pubKey
  | pubKeyHash
  | scriptHash
  | multisig
  | nullData
  | zerocoinMint
deriving DecidableEq, Repr

-- Template matching opcodes.
def opSmallInteger : UInt8 := 0xfa
def opPubKeys : UInt8 := 0xfb
def opPubKeyHash : UInt8 := 0xfd
def opPubKey : UInt8 := 0xfe

/-- `mTemplates`, in the order of the types. -/
def mTemplates : List (TxnOutType × CScript) :=
  [(.pubKey, [opPubKey, opCheckSig]),
    (.pubKeyHash,
      [opDup, opHash160, opPubKeyHash, opEqualVerify, opCheckSig]),
    (.multisig,
      [opSmallInteger, opPubKeys, opSmallInteger, opCheckMultisig])]

/-- What `Solver` returns, and what it leaves in its arguments. -/
structure Solved where
  found : Bool
  typeRet : TxnOutType
  vSolutionsRet : List Valtype
deriving DecidableEq, Repr

def isPubKeySize (vch1 : Valtype) : Bool :=
  33 ≤ vch1.length && vch1.length ≤ 65

/-- `DecodeOP_N`, for `OP_0` and `OP_1` up to `OP_16`. -/
def decodeOpN (opcode : UInt8) : UInt8 :=
  if opcode = op0 then 0 else opcode - (op1 - 1)

/-- The loop over the public keys: the keys, and the instruction read last. -/
def readPubKeys (read1 : Instruction) : List Valtype × Instruction :=
  if isPubKeySize read1.vchRet then
    match _ : getOp read1.pc with
    | none =>
        ([read1.vchRet], ⟨opInvalidOpcode, [], (getOp2 read1.pc).pc⟩)
    | some next =>
        let rest := readPubKeys next
        (read1.vchRet :: rest.1, rest.2)
  else
    ([], read1)
termination_by read1.pc.length
decreasing_by exact getOp_length ‹_›

/-- The tests of one instruction: what is pushed onto the solutions. -/
def compareOp (read1 read2 : Instruction) : Option (List Valtype) :=
  if read2.opcode = opPubKey then
    if isPubKeySize read1.vchRet then some [read1.vchRet] else none
  else if read2.opcode = opPubKeyHash then
    if read1.vchRet.length = 20 then some [read1.vchRet] else none
  else if read2.opcode = opSmallInteger then
    if read1.opcode = op0 || (op1 ≤ read1.opcode && read1.opcode ≤ op16) then
      some [[decodeOpN read1.opcode]]
    else none
  else if read1.opcode ≠ read2.opcode ∨ read1.vchRet ≠ read2.vchRet then none
  else some []

/-- The loop over a script and a template: the solutions of a match. -/
def matchFrom (vSolutionsRet : List Valtype) (pc1 pc2 : CScript) :
    Option (List Valtype) :=
  if pc1 = [] ∧ pc2 = [] then some vSolutionsRet
  else
    match getOp pc1, _ : getOp pc2 with
    | some read1, some read2 =>
        if read2.opcode = opPubKeys then
          let keys := readPubKeys read1
          match _ : getOp read2.pc with
          | none => none
          | some next2 =>
              (compareOp keys.2 next2).bind fun pushed =>
                matchFrom (vSolutionsRet ++ keys.1 ++ pushed) keys.2.pc
                  next2.pc
        else
          (compareOp read1 read2).bind fun pushed =>
            matchFrom (vSolutionsRet ++ pushed) read1.pc read2.pc
    | _, _ => none
termination_by pc2.length
decreasing_by
  · have first := getOp_length ‹getOp pc2 = _›
    have second := getOp_length ‹getOp read2.pc = _›
    omega
  · exact getOp_length ‹_›

/-- The first byte of a solution. -/
def firstByte (vch : Valtype) : Nat :=
  (vch.headD 0).toNat

/-- The additional checks for `TX_MULTISIG`. -/
def isMultisig (vSolutionsRet : List Valtype) : Bool :=
  let m := firstByte (vSolutionsRet.headD [])
  let n := firstByte (vSolutionsRet.getLastD [])
  !(m < 1 || n < 1 || m > n || vSolutionsRet.length - 2 ≠ n)

/-- The scan of the templates. -/
def scanTemplates (script1 : CScript) : List (TxnOutType × CScript) → Solved
  | [] => ⟨false, .nonstandard, []⟩
  | (type, script2) :: templates =>
      match matchFrom [] script1 script2 with
      | none => scanTemplates script1 templates
      | some vSolutionsRet =>
          ⟨type ≠ .multisig || isMultisig vSolutionsRet, type, vSolutionsRet⟩

/-- `Solver`; `none` when it takes bytes from behind the end of a script that
is too short for a mint. -/
def solver (scriptPubKey : CScript) : Option Solved :=
  if isPayToScriptHash scriptPubKey then
    some ⟨true, .scriptHash, [(scriptPubKey.drop 2).take 20]⟩
  else if isZerocoinMint scriptPubKey then
    if scriptPubKey.length > 150 then some ⟨false, .zerocoinMint, []⟩
    else if scriptPubKey.length < 2 then none
    else some ⟨true, .zerocoinMint, [scriptPubKey.drop 2]⟩
  else if scriptPubKey.head? = some opReturn &&
      isPushOnly scriptPubKey.tail then
    some ⟨true, .nullData, []⟩
  else
    some (scanTemplates scriptPubKey mTemplates)

/-! ## Which scripts it solves -/

/-- Only a mint opcode alone is too short. -/
theorem solver_none_iff (scriptPubKey : CScript) :
    solver scriptPubKey = none ↔ scriptPubKey = [opZerocoinMint] := by
  constructor
  · intro failed
    unfold solver at failed
    split_ifs at failed with _ mint _ short
    cases scriptPubKey with
    | nil => exact absurd mint (by decide)
    | cons first rest =>
        have ended : rest = [] := by
          rw [List.length_cons] at short
          exact List.length_eq_zero_iff.mp (by omega)
        have same : first = opZerocoinMint := by
          simpa [isZerocoinMint] using mint
        rw [same, ended]
  · rintro rfl
    rfl

end PrivateDatagram.Script.Standard
