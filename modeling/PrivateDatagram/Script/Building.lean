import PrivateDatagram.Library.CheckedBuffer
import PrivateDatagram.Script.ScriptNum

/-!
# Building scripts

A script is built with `<<` from data, integers and opcodes, and read back
with `GetOp`.  The reader compares the size of an operand with what is left of
the script modulo 2^32, so a script of 4 GiB and more may not be read back.

Integers are pushed with one byte where there is an opcode for them, and as
the bytes of a `CScriptNum` otherwise.
-/

namespace PrivateDatagram.Script.Building

open Library.ByteFormat
open Library.CheckedBuffer (Buffer load)
open Wire.Transaction Wire.Script Instructions ScriptNum

/-! ## Writing -/

/-- `push_int64`, the bytes it appends. -/
def pushInt64 (n : Int) : CScript :=
  if n = -1 ∨ (n ≥ 1 ∧ n ≤ 16) then [UInt8.ofNat (n + 0x50).toNat]
  else if n = 0 then [op0]
  else pushScript (serialize n)

/-- What is pushed with `<<`. -/
inductive Item where
  | data (b : Valtype)
  | integer (b : Int)
  | opcode (opcode : UInt8)
deriving DecidableEq, Repr

/-- The bytes that `<<` appends. -/
def Item.bytes : Item → CScript
  | data b => pushScript b
  | integer b => pushInt64 b
  | opcode op => [op]

/-- `CScript() << … << …`. -/
def build (items : List Item) : CScript :=
  items.foldl (fun script item => script ++ item.bytes) []

/-! ## Reading -/

/-- `GetOp` again and again, up to the end of the script. -/
def readAll (pc : CScript) : Option (List (UInt8 × Valtype)) :=
  if pc = [] then some []
  else
    match _ : getOp pc with
    | none => none
    | some read =>
        (readAll read.pc).map fun rest => (read.opcode, read.vchRet) :: rest
termination_by pc.length
decreasing_by exact getOp_length ‹_›

/-- The operand of `GetOp2` at an index; no result is an access outside the
script. -/
def operandAt (script : CScript) (opcode : UInt8) (nSize pc : Nat) :
    Option (Option (UInt8 × Valtype × Nat)) :=
  if (script.length - pc) % 2 ^ 32 < nSize then
    some none
  else
    (load (⟨script, rfl⟩ : Buffer UInt8 script.length) pc nSize).map
      fun vchRet => some (opcode, vchRet, pc + nSize)

def sizedOperandAt (script : CScript) (opcode : UInt8) (width pc : Nat) :
    Option (Option (UInt8 × Valtype × Nat)) :=
  if script.length - pc < width then
    some none
  else
    (load (⟨script, rfl⟩ : Buffer UInt8 script.length) pc width).bind
      fun bytes =>
        operandAt script opcode (ofLittleEndian bytes) (pc + width)

/-- `GetOp2` with an index for the iterator, and each access checked. -/
def getOpAt (script : CScript) (pc : Nat) :
    Option (Option (UInt8 × Valtype × Nat)) :=
  if pc ≥ script.length then
    some none
  else
    (script[pc]?).bind fun opcode =>
      if opcode ≤ opPushData4 then
        if opcode < opPushData1 then
          operandAt script opcode opcode.toNat (pc + 1)
        else if opcode = opPushData1 then
          sizedOperandAt script opcode 1 (pc + 1)
        else if opcode = opPushData2 then
          sizedOperandAt script opcode 2 (pc + 1)
        else
          sizedOperandAt script opcode 4 (pc + 1)
      else
        some (some (opcode, [], pc + 1))

/-- `CScriptNum(vch, true)`. -/
def minimalNumber (vch : Valtype) : Option Int :=
  if vch.length > nMaxNumSize then none
  else if nonMinimal vch then none
  else some (setVch vch)

/-- The integer that an instruction pushes, with `DecodeOP_N` for the opcodes
from `OP_1` to `OP_16`. -/
def decodeInteger (opcode : UInt8) (vchRet : Valtype) : Option Int :=
  if opcode = op0 then some 0
  else if opcode = op1Negate then some (-1)
  else if op1 ≤ opcode ∧ opcode ≤ op16 then some ((opcode.toNat : Int) - 0x50)
  else minimalNumber vchRet

/-! ## No read past the end -/

/-- The reader at an index reads what the reader of the rest reads. -/
def atIndex (script : CScript) (read : Option Instruction) :
    Option (Option (UInt8 × Valtype × Nat)) :=
  some (read.map fun read =>
    (read.opcode, read.vchRet, script.length - read.pc.length))

theorem load_rest {script : CScript} {pc count : Nat}
    (inside : pc + count ≤ script.length) :
    load (⟨script, rfl⟩ : Buffer UInt8 script.length) pc count =
      some ((script.drop pc).take count) :=
  if_pos inside

theorem operandAt_eq {script : CScript} (opcode : UInt8) (nSize : Nat)
    {pc : Nat} (inside : pc ≤ script.length) :
    operandAt script opcode nSize pc =
      atIndex script (readOperand opcode nSize (script.drop pc)) := by
  have rest := List.length_drop (i := pc) (l := script)
  unfold operandAt readOperand
  rw [rest]
  split_ifs with short
  · rfl
  · have wrapped := Nat.mod_le (script.length - pc) (2 ^ 32)
    rw [load_rest (by omega)]
    simp only [Option.map_some, atIndex, List.drop_drop, List.length_drop]
    rw [show script.length - (script.length - (pc + nSize)) = pc + nSize by
      omega]

theorem sizedOperandAt_eq {script : CScript} (opcode : UInt8) (width : Nat)
    {pc : Nat} (inside : pc ≤ script.length) :
    sizedOperandAt script opcode width pc =
      atIndex script (readSizedOperand opcode width (script.drop pc)) := by
  unfold sizedOperandAt readSizedOperand
  rw [List.length_drop]
  split_ifs with short
  · rfl
  · rw [load_rest (by omega), Option.bind_some,
      operandAt_eq opcode _ (by omega), List.drop_drop]

theorem getOpAt_eq (script : CScript) (pc : Nat) :
    getOpAt script pc = atIndex script (getOp (script.drop pc)) := by
  unfold getOpAt
  split_ifs with ended
  · rw [List.drop_eq_nil_of_le ended]
    rfl
  · have more : pc < script.length := Nat.not_le.mp ended
    rw [List.getElem?_eq_getElem more, Option.bind_some,
      List.drop_eq_getElem_cons more]
    have single : atIndex script
        (some ⟨script[pc], [], script.drop (pc + 1)⟩) =
          some (some (script[pc], [], pc + 1)) := by
      simp only [atIndex, Option.map_some, List.length_drop]
      rw [show script.length - (script.length - (pc + 1)) = pc + 1 by omega]
    unfold getOp
    simp only [apply_ite (atIndex script), operandAt_eq _ _ more,
      sizedOperandAt_eq _ _ more, single]

/-- Each success moves the index and stays within the script. -/
theorem getOpAt_inside (script : CScript) (pc : Nat) :
    ∃ result, getOpAt script pc = some result ∧
      ∀ opcode vchRet next, result = some (opcode, vchRet, next) →
        pc < next ∧ next ≤ script.length := by
  refine ⟨_, getOpAt_eq script pc, ?_⟩
  intro opcode vchRet next moved
  rcases Option.map_eq_some_iff.mp moved with ⟨read, success, result⟩
  have shorter := getOp_length success
  rw [List.length_drop] at shorter
  simp only [Prod.mk.injEq] at result
  omega

/-! ## Reading what was written -/

/-- The opcode in front of data. -/
def pushOpcode (b : Valtype) : UInt8 :=
  if b.length < 0x4c then UInt8.ofNat b.length
  else if b.length ≤ 0xff then opPushData1
  else if b.length ≤ 0xffff then opPushData2
  else opPushData4

/-- The opcode and the data that a reader should find. -/
def Item.expected : Item → UInt8 × Valtype
  | data b => (pushOpcode b, b)
  | integer b =>
      if b = -1 ∨ (b ≥ 1 ∧ b ≤ 16) then (UInt8.ofNat (b + 0x50).toNat, [])
      else if b = 0 then (op0, [])
      else (pushOpcode (serialize b), serialize b)
  | opcode op => (op, [])

/-- What may be pushed. -/
def Item.WellFormed : Item → Prop
  | data b => b.length < 2 ^ 32
  | integer b => -2 ^ 31 < b ∧ b < 2 ^ 31
  | opcode op => opPushData4 < op

/-- From the data of each item to the end of the script there are, modulo
2^32, as many bytes as the data has. -/
def Fits : List Item → Prop
  | [] => True
  | item :: later =>
      item.expected.2.length ≤
          (item.expected.2.length + (build later).length) % 2 ^ 32 ∧
        Fits later

theorem build_eq_flatMap (items : List Item) :
    build items = items.flatMap Item.bytes := by
  have start : ∀ script : CScript,
      items.foldl (fun script item => script ++ item.bytes) script =
        script ++ items.flatMap Item.bytes := by
    induction items with
    | nil => simp
    | cons item items ih =>
        intro script
        rw [List.foldl_cons, ih, List.flatMap_cons, List.append_assoc]
  exact start []

theorem build_cons (item : Item) (items : List Item) :
    build (item :: items) = item.bytes ++ build items := by
  rw [build_eq_flatMap, build_eq_flatMap, List.flatMap_cons]

theorem readOperand_append (opcode : UInt8) (b rest : CScript) :
    readOperand opcode b.length (b ++ rest) =
      if (b.length + rest.length) % 2 ^ 32 < b.length then none
      else some ⟨opcode, b, rest⟩ := by
  unfold readOperand
  rw [List.length_append, List.take_left, List.drop_left]

theorem readSizedOperand_append (opcode : UInt8) {width : Nat}
    {b : CScript} (fits : b.length < 256 ^ width) (rest : CScript) :
    readSizedOperand opcode width
        (littleEndian width b.length ++ b ++ rest) =
      readOperand opcode b.length (b ++ rest) := by
  have size := length_littleEndian width b.length
  unfold readSizedOperand
  rw [if_neg (by simp [size]), List.append_assoc,
    List.take_left' size, List.drop_left' size,
    ofLittleEndian_littleEndian, Nat.mod_eq_of_lt fits]

theorem getOp_pushData1 (pc : CScript) :
    getOp (opPushData1 :: pc) = readSizedOperand opPushData1 1 pc := by
  rw [getOp, if_pos (by decide), if_neg (by decide), if_pos rfl]

theorem getOp_pushData2 (pc : CScript) :
    getOp (opPushData2 :: pc) = readSizedOperand opPushData2 2 pc := by
  rw [getOp, if_pos (by decide), if_neg (by decide), if_neg (by decide),
    if_pos rfl]

theorem getOp_pushData4 (pc : CScript) :
    getOp (opPushData4 :: pc) = readSizedOperand opPushData4 4 pc := by
  rw [getOp, if_pos (by decide), if_neg (by decide), if_neg (by decide),
    if_neg (by decide)]

/-- The reader finds data that was pushed, if it fits. -/
theorem getOp_pushScript {b : Valtype} (short : b.length < 2 ^ 32)
    (rest : CScript) :
    getOp (pushScript b ++ rest) =
      if (b.length + rest.length) % 2 ^ 32 < b.length then none
      else some ⟨pushOpcode b, b, rest⟩ := by
  unfold pushScript pushOpcode
  by_cases tiny : b.length < 0x4c
  · have size : (UInt8.ofNat b.length).toNat = b.length := by
      rw [UInt8.toNat_ofNat', Nat.mod_eq_of_lt (by omega)]
    have low : UInt8.ofNat b.length ≤ opPushData4 := by
      rw [UInt8.le_iff_toNat_le, size]
      exact le_of_lt (tiny.trans (by decide))
    have lower : UInt8.ofNat b.length < opPushData1 := by
      rw [UInt8.lt_iff_toNat_lt, size]
      exact tiny
    rw [if_pos tiny, if_pos tiny, List.cons_append, getOp, if_pos low,
      if_pos lower, size, readOperand_append]
  · rw [if_neg tiny, if_neg tiny]
    by_cases small : b.length ≤ 0xff
    · rw [if_pos small, if_pos small, List.cons_append, List.cons_append,
        getOp_pushData1, readSizedOperand_append opPushData1 (by omega),
        readOperand_append]
    · rw [if_neg small, if_neg small]
      by_cases medium : b.length ≤ 0xffff
      · rw [if_pos medium, if_pos medium, List.cons_append, List.cons_append,
          getOp_pushData2, readSizedOperand_append opPushData2 (by omega),
          readOperand_append]
      · rw [if_neg medium, if_neg medium, List.cons_append, List.cons_append,
          getOp_pushData4, readSizedOperand_append opPushData4 (by omega),
          readOperand_append]

theorem getOp_opcode {op : UInt8} (above : opPushData4 < op)
    (rest : CScript) : getOp (op :: rest) = some ⟨op, [], rest⟩ := by
  rw [getOp, if_neg (UInt8.not_le.mpr above)]

theorem serialize_short (b : Int) : (serialize b).length < 2 ^ 32 := by
  have bound := serialize_length b
  omega

theorem expected_small {b : Int} (small : b = -1 ∨ (b ≥ 1 ∧ b ≤ 16)) :
    (Item.integer b).expected = (UInt8.ofNat (b + 0x50).toNat, []) :=
  if_pos small

theorem expected_large {b : Int} (large : ¬ (b = -1 ∨ (b ≥ 1 ∧ b ≤ 16)))
    (nonzero : b ≠ 0) :
    (Item.integer b).expected = (pushOpcode (serialize b), serialize b) :=
  (if_neg large).trans (if_neg nonzero)

/-- Each item is found, if its data fits. -/
theorem getOp_item {item : Item} (wellFormed : item.WellFormed)
    (rest : CScript) :
    getOp (item.bytes ++ rest) =
      if (item.expected.2.length + rest.length) % 2 ^ 32 <
        item.expected.2.length then none
      else some ⟨item.expected.1, item.expected.2, rest⟩ := by
  cases item with
  | data b => exact getOp_pushScript wellFormed rest
  | opcode op => exact getOp_opcode wellFormed rest
  | integer b =>
      by_cases small : b = -1 ∨ (b ≥ 1 ∧ b ≤ 16)
      · have above : opPushData4 < UInt8.ofNat (b + 0x50).toNat := by
          rw [UInt8.lt_iff_toNat_lt, UInt8.toNat_ofNat',
            show opPushData4.toNat = 78 from rfl]
          omega
        rw [Item.bytes, pushInt64, if_pos small, expected_small small]
        exact getOp_opcode above rest
      · by_cases zero : b = 0
        · rw [zero]
          exact readOperand_append op0 [] rest
        · rw [Item.bytes, pushInt64, if_neg small, if_neg zero,
            expected_large small zero]
          exact getOp_pushScript (serialize_short b) rest

theorem bytes_ne_nil (item : Item) : item.bytes ≠ [] := by
  have pushed : ∀ b, pushScript b ≠ [] := by
    intro b
    unfold pushScript
    split_ifs <;> exact List.cons_ne_nil _ _
  cases item with
  | data b => exact pushed b
  | opcode op => exact List.cons_ne_nil op []
  | integer b =>
      simp only [Item.bytes, pushInt64]
      split_ifs
      · exact List.cons_ne_nil _ _
      · exact List.cons_ne_nil _ _
      · exact pushed _

theorem readAll_some {pc : CScript} {read : Instruction}
    (success : getOp pc = some read) :
    readAll pc =
      (readAll read.pc).map fun rest => (read.opcode, read.vchRet) :: rest := by
  have nonempty : pc ≠ [] := by
    rintro rfl
    cases success
  rw [readAll, if_neg nonempty]
  split
  · next failed =>
      rw [failed] at success
      cases success
  · next found =>
      rw [found] at success
      cases success
      rfl

theorem readAll_none {pc : CScript} (nonempty : pc ≠ [])
    (failure : getOp pc = none) : readAll pc = none := by
  rw [readAll, if_neg nonempty]
  split
  · rfl
  · next found =>
      rw [found] at failure
      cases failure

/-- What was pushed is read back exactly if all data fits. -/
theorem readAll_build_iff {items : List Item}
    (wellFormed : ∀ item ∈ items, item.WellFormed) :
    readAll (build items) = some (items.map Item.expected) ↔ Fits items := by
  induction items with
  | nil => exact iff_of_true (by simp [build, readAll]) trivial
  | cons item items ih =>
      rw [List.forall_mem_cons] at wellFormed
      have read := getOp_item wellFormed.1 (build items)
      rw [build_cons, Fits]
      by_cases short : (item.expected.2.length + (build items).length) %
          2 ^ 32 < item.expected.2.length
      · rw [if_pos short] at read
        rw [readAll_none (by simp [bytes_ne_nil]) read]
        refine iff_of_false nofun fun fits => ?_
        exact absurd fits.1 (Nat.not_le.mpr short)
      · rw [if_neg short] at read
        rw [readAll_some read, List.map_cons]
        have rest := ih wellFormed.2
        rw [← rest, and_iff_right (Nat.not_lt.mp short)]
        simp

/-- The reader takes no more than what was pushed. -/
theorem expected_length (item : Item) :
    item.expected.2.length ≤ item.bytes.length := by
  have pushed : ∀ b, b.length ≤ (pushScript b).length := by
    intro b
    unfold pushScript
    split_ifs <;> simp only [List.length_cons, List.length_append] <;> omega
  cases item with
  | data b => exact pushed b
  | opcode op => exact Nat.zero_le _
  | integer b =>
      by_cases small : b = -1 ∨ (b ≥ 1 ∧ b ≤ 16)
      · rw [expected_small small]
        exact Nat.zero_le _
      · by_cases zero : b = 0
        · rw [zero]
          exact Nat.zero_le _
        · rw [expected_large small zero, Item.bytes, pushInt64,
            if_neg small, if_neg zero]
          exact pushed _

/-- Everything fits in a script shorter than 2^32 bytes. -/
theorem fits_of_length {items : List Item}
    (short : (build items).length < 2 ^ 32) : Fits items := by
  induction items with
  | nil => trivial
  | cons item items ih =>
      rw [build_cons, List.length_append] at short
      have bound := expected_length item
      refine ⟨?_, ih (by omega)⟩
      rw [Nat.mod_eq_of_lt (by omega)]
      exact Nat.le_add_right _ _

/-! ## Integers -/

/-- The opcodes that push 1 to 16. -/
theorem decodeInteger_small {b : Int} (one : b ≥ 1) (sixteen : b ≤ 16) :
    decodeInteger (UInt8.ofNat (b + 0x50).toNat) [] = some b := by
  have code : (UInt8.ofNat (b + 0x50).toNat).toNat = (b + 0x50).toNat :=
    UInt8.toNat_ofNat_of_lt' (show (b + 0x50).toNat < 256 by omega)
  have notZero : UInt8.ofNat (b + 0x50).toNat ≠ op0 := by
    rw [ne_eq, ← UInt8.toNat_inj, code, show op0.toNat = 0 from rfl]
    omega
  have notNegate : UInt8.ofNat (b + 0x50).toNat ≠ op1Negate := by
    rw [ne_eq, ← UInt8.toNat_inj, code,
      show op1Negate.toNat = 0x4f from rfl]
    omega
  have small : op1 ≤ UInt8.ofNat (b + 0x50).toNat ∧
      UInt8.ofNat (b + 0x50).toNat ≤ op16 := by
    rw [UInt8.le_iff_toNat_le, UInt8.le_iff_toNat_le, code,
      show op1.toNat = 0x51 from rfl, show op16.toNat = 0x60 from rfl]
    omega
  unfold decodeInteger
  rw [if_neg notZero, if_neg notNegate, if_pos small, code, Option.some.injEq]
  omega

/-- An integer of 31 bits is decoded to itself. -/
theorem decodeInteger_expected {b : Int} (low : -2 ^ 31 < b)
    (high : b < 2 ^ 31) :
    decodeInteger (Item.integer b).expected.1 (Item.integer b).expected.2 =
      some b := by
  by_cases small : b = -1 ∨ (b ≥ 1 ∧ b ≤ 16)
  · rw [expected_small small]
    rcases small with rfl | ⟨one, sixteen⟩
    · rfl
    · exact decodeInteger_small one sixteen
  · by_cases zero : b = 0
    · rw [zero]
      rfl
    · rw [expected_large small zero]
      rcases setVch_serialize low high with ⟨short, minimal, value⟩
      have some : (serialize b).length ≠ 0 := by
        intro empty
        rw [List.eq_nil_of_length_eq_zero empty] at value
        exact zero value.symm
      have few : (serialize b).length ≤ 4 := short
      have code : (pushOpcode (serialize b)).toNat = (serialize b).length := by
        unfold pushOpcode
        rw [if_pos (by omega), UInt8.toNat_ofNat', Nat.mod_eq_of_lt (by omega)]
      have notZero : pushOpcode (serialize b) ≠ op0 := by
        rw [ne_eq, ← UInt8.toNat_inj, code]
        exact some
      have notNegate : pushOpcode (serialize b) ≠ op1Negate := by
        rw [ne_eq, ← UInt8.toNat_inj, code,
          show op1Negate.toNat = 0x4f from rfl]
        omega
      have notSmall : ¬ (op1 ≤ pushOpcode (serialize b) ∧
          pushOpcode (serialize b) ≤ op16) := by
        rw [UInt8.le_iff_toNat_le, code, show op1.toNat = 0x51 from rfl]
        omega
      unfold decodeInteger minimalNumber
      rw [if_neg notZero, if_neg notNegate, if_neg notSmall,
        if_neg (Nat.not_lt.mpr short), minimal, value]
      rfl

/-- A pushed integer is not another one with something behind it. -/
theorem pushInt64_distinct {b other : Int} (low : -2 ^ 31 < b)
    (high : b < 2 ^ 31) (low' : -2 ^ 31 < other) (high' : other < 2 ^ 31)
    (isPrefix : pushInt64 b <+: pushInt64 other) : b = other := by
  have bounded : ∀ n, (pushInt64 n).length ≤ 14 := by
    intro n
    have bound := serialize_length n
    unfold pushInt64 pushScript
    split_ifs <;>
      simp only [List.length_cons, List.length_append, List.length_nil,
        length_littleEndian] <;> omega
  rcases isPrefix with ⟨rest, whole⟩
  have size := congrArg List.length whole
  have lengthOther := bounded other
  rw [List.length_append] at size
  have fits := expected_length (.integer b)
  have fitsOther := expected_length (.integer other)
  have length := bounded b
  have first := getOp_item
    (show (Item.integer b).WellFormed from ⟨low, high⟩) rest
  have second := getOp_item
    (show (Item.integer other).WellFormed from ⟨low', high'⟩) []
  simp only [Item.bytes] at first second fits fitsOther
  rw [if_neg (by rw [Nat.mod_eq_of_lt (by omega)]; omega), whole] at first
  rw [List.append_nil, first, if_neg (by
    rw [List.length_nil, Nat.mod_eq_of_lt (by omega)]
    omega)] at second
  simp only [Option.some.injEq, Instruction.mk.injEq] at second
  have decoded := decodeInteger_expected low high
  rw [second.1, second.2.1, decodeInteger_expected low' high'] at decoded
  exact (Option.some.inj decoded).symm

/-- No script starts with two different integers. -/
theorem pushInt64_apart {b other : Int} (low : -2 ^ 31 < b)
    (high : b < 2 ^ 31) (low' : -2 ^ 31 < other) (high' : other < 2 ^ 31)
    {script : CScript} (starts : pushInt64 b <+: script)
    (startsToo : pushInt64 other <+: script) : b = other := by
  rcases Nat.le_total (pushInt64 b).length (pushInt64 other).length with
    shorter | longer
  · exact pushInt64_distinct low high low' high'
      (List.prefix_of_prefix_length_le starts startsToo shorter)
  · exact (pushInt64_distinct low' high' low high
      (List.prefix_of_prefix_length_le startsToo starts longer)).symm

/--
Items that are pushed one after another are read back, up to the end of the
script, exactly if their data fits, which it does in every script shorter than
2^32 bytes.  Integers of 31 bits are decoded to themselves, so the heights of
two blocks are not both in front of one script.  On any script, each success
moves the iterator, and no access is outside.
-/
theorem script_reads_back_iff {items : List Item}
    (wellFormed : ∀ item ∈ items, item.WellFormed) :
    (readAll (build items) = some (items.map Item.expected) ↔ Fits items) ∧
    (∀ b : Int, -2 ^ 31 < b → b < 2 ^ 31 →
      decodeInteger (Item.integer b).expected.1
        (Item.integer b).expected.2 = some b) ∧
    (∀ nHeight other : Int, -2 ^ 31 < nHeight → nHeight < 2 ^ 31 →
      -2 ^ 31 < other → other < 2 ^ 31 → nHeight ≠ other →
        ∀ scriptSig, ¬ (build [.integer nHeight] <+: scriptSig ∧
          build [.integer other] <+: scriptSig)) ∧
    ∀ script pc, ∃ result, getOpAt script pc = some result ∧
      ∀ opcode vchRet next, result = some (opcode, vchRet, next) →
        pc < next ∧ next ≤ script.length := by
  refine ⟨readAll_build_iff wellFormed,
    fun b low high => decodeInteger_expected low high, ?_, getOpAt_inside⟩
  rintro nHeight other low high low' high' apart scriptSig ⟨starts, startsToo⟩
  exact apart (pushInt64_apart low high low' high' starts startsToo)

/-- Data, a small and a large integer and an opcode. -/
theorem script_reads_back_iff_four :
    readAll (build [.data [7, 8], .integer 3, .integer 300, .opcode opDup]) =
      some [(2, [7, 8]), (op3, []), (2, [44, 1]), (opDup, [])] := by
  have wellFormed : ∀ item ∈ [Item.data [7, 8], .integer 3, .integer 300,
      .opcode opDup], item.WellFormed := by
    simp [Item.WellFormed]
    decide
  exact (script_reads_back_iff wellFormed).1.mpr
    (fits_of_length (by decide))

/-- One byte is pushed, and then so much data that there are 2^32 bytes from
that byte on. -/
theorem long_script_unread :
    ∃ items : List Item, (∀ item ∈ items, item.WellFormed) ∧
      readAll (build items) ≠ some (items.map Item.expected) := by
  obtain ⟨long, size⟩ : ∃ long : Valtype, long.length = 2 ^ 32 - 6 :=
    ⟨List.replicate (2 ^ 32 - 6) 0, List.length_replicate⟩
  have wellFormed : ∀ item ∈ [Item.data [0], .data long],
      item.WellFormed := by
    rw [List.forall_mem_cons, List.forall_mem_singleton]
    exact ⟨show 1 < 2 ^ 32 by decide, size.trans_lt (by decide)⟩
  have pushed : (build [.data long]).length = 2 ^ 32 - 1 := by
    rw [build_cons, Item.bytes, pushScript, if_neg (by omega),
      if_neg (by omega), if_neg (by omega), List.length_append,
      List.length_append, List.length_cons, length_littleEndian, size]
    rfl
  refine ⟨[.data [0], .data long], wellFormed, ?_⟩
  rw [ne_eq, readAll_build_iff wellFormed]
  rintro ⟨first, _⟩
  rw [pushed] at first
  exact absurd first (by decide)

end PrivateDatagram.Script.Building
