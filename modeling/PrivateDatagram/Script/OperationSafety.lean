import PrivateDatagram.Script.StackRules

/-!
# Every operation is safe

Started with the invariant, no operation leaves the stack, fails an assertion
or puts an element on a stack that is too big, and the invariant holds after
it.
-/

namespace PrivateDatagram.Script.OperationSafety

open Library.CheckedBuffer Library.StoppingRuns Wire.Transaction Instructions
  EvalMachine ScriptNum Operations StackRules

variable {β : Type} {n : Nat} {post : β → Machine → Prop}
  (context : Context)

/-- The operation may be started on a stack of any size. -/
def SafeOp (operation : Eval Unit) : Prop :=
  ∀ n, Safe (Ready n) operation fun _ => Good

theorem ofBool_length (fValue : Bool) :
    (ofBool fValue).length ≤ maxScriptElementSize := by
  cases fValue <;> decide

/-! ## Values and control -/

theorem execPushNumber_safe (opcode : UInt8) :
    SafeOp (execPushNumber opcode) :=
  fun _ => safe_good (safe_pushBack (getvch_length _))

theorem failIf_safe (condition : Prop) [Decidable condition]
    (serror : ScriptError) : SafeOp (failIf condition serror) :=
  fun _ => .ite (fun _ => safe_error serror) fun _ => safe_pure

theorem pushCondition_safe (fValue : Bool) : SafeOp (pushCondition fValue) :=
  fun _ => .modify fun _ ready => ready.1.control

theorem execIf_safe (fExec : Bool) (opcode : UInt8) :
    SafeOp (execIf fExec opcode) := by
  intro n
  refine .ite (fun _ => ?_) fun _ => pushCondition_safe false n
  refine safe_requireSize fun one => ?_
  refine safe_stacktop (by omega) (by omega) fun vch _ => ?_
  refine (safe_popstack (by omega)).bind fun _ => ?_
  exact pushCondition_safe _ _

theorem changeConditional_safe (change : Bool → List Bool → List Bool) :
    SafeOp (changeConditional change) := by
  intro n machine ready
  cases shape : machine.vfExec with
  | nil =>
      have stops : changeConditional change machine =
          .error (.error .unbalancedConditional) machine := by
        cases machine
        cases shape
        rfl
      rw [stops]
      exact ⟨trivial, ready.1.recorded⟩
  | cons back rest =>
      have runs : changeConditional change machine =
          .ok () { machine with vfExec := change back rest } := by
        cases machine
        cases shape
        rfl
      rw [runs]
      exact ready.1.control

theorem execVerify_safe : SafeOp execVerify := by
  intro n
  refine safe_requireSize fun one => ?_
  refine safe_stacktop (by omega) (by omega) fun vch _ => ?_
  exact safe_verifyTop (by omega)

/-! ## The stacks -/

theorem execToAltStack_safe : SafeOp execToAltStack := by
  intro n
  refine safe_requireSize fun one => ?_
  refine safe_stacktop (by omega) (by omega) fun vch small => ?_
  refine (safe_pushBackAlt small).bind fun _ => ?_
  exact safe_good (safe_popstack (by omega))

theorem execFromAltStack_safe : SafeOp execFromAltStack := by
  intro n machine ready
  cases shape : machine.altstack with
  | nil =>
      have stops : execFromAltStack machine =
          .error (.error .invalidAltStackOperation) machine := by
        show (failIf (machine.altstack.length < 1) _ >>= fun _ => _ :
          Eval Unit) machine = _
        exact bind_error (failIf_error (by simp [shape]) _)
      rw [stops]
      exact ⟨trivial, ready.1.recorded⟩
  | cons vch rest =>
      have found : entry machine.altstack (-1) = some vch := by
        rw [shape]
        rfl
      have small := ready.1.recorded.small vch
        (ready.1.recorded.altstack vch (shape ▸ List.mem_cons_self))
      have runs : execFromAltStack machine = .ok () { machine with
          stack := vch :: machine.stack
          altstack := rest
          seen := vch :: machine.seen } := by
        show (failIf (machine.altstack.length < 1) _ >>= fun _ => _ :
          Eval Unit) machine = _
        rw [bind_ok (failIf_run (by simp [shape]) _),
          bind_ok (altstacktop_run found)]
        exact popaltstack_run shape
      rw [runs]
      refine (ready.1.shrinkAlt fun other member => ?_).grow small
        fun other member => List.mem_cons.mp member
      rw [shape]
      exact List.mem_cons_of_mem vch member

theorem dropTop_safe (count : Nat) : SafeOp (dropTop count) := by
  intro n
  refine safe_requireSize fun enough => ?_
  exact safe_good (safe_popMany (by omega))

/-- The copies are as small as the originals. -/
theorem safe_stacktops {positions : List Int}
    {next : List Valtype → Eval β}
    (inside : ∀ i ∈ positions, -n ≤ i ∧ i < 0)
    (rest : ∀ vchs : List Valtype,
      (∀ vch ∈ vchs, vch.length ≤ maxScriptElementSize) →
      Safe (Ready n) (next vchs) post) :
    Safe (Ready n) (stacktops positions >>= next) post := by
  induction positions generalizing next with
  | nil => exact rest [] fun _ member => nomatch member
  | cons i positions ih =>
      obtain ⟨first, others⟩ := List.forall_mem_cons.mp inside
      rw [stacktops, bind_assoc]
      refine safe_stacktop first.1 first.2 fun vch small => ?_
      rw [bind_assoc]
      refine ih others fun vchs allSmall => ?_
      rw [pure_bind]
      exact rest (vch :: vchs) (List.forall_mem_cons.mpr ⟨small, allSmall⟩)

theorem safe_pushAll {vchs : List Valtype}
    (small : ∀ vch ∈ vchs, vch.length ≤ maxScriptElementSize) :
    Safe (Ready n) (forM vchs pushBack) fun _ => Good := by
  have loop : Safe (fun machine => ∃ n, Ready n machine) (forM vchs pushBack)
      fun _ machine => ∃ n, Ready n machine :=
    .forM vchs fun vch member => .naming fun n =>
      (safe_pushBack (small vch member)).mono (fun _ ready => ready)
        fun _ _ ready => ⟨n + 1, ready⟩
  exact loop.mono (fun _ ready => ⟨n, ready⟩) fun _ _ ⟨_, ready⟩ => ready.1

theorem copyToTop_safe {size : Int} {positions : List Int}
    (inside : ∀ i ∈ positions, -size ≤ i ∧ i < 0) :
    SafeOp (copyToTop size positions) := by
  intro n
  refine safe_requireSize fun enough => ?_
  refine safe_stacktops (fun i member => ?_) fun vchs small => ?_
  · have bounds := inside i member
    omega
  · exact safe_pushAll small

theorem swapPairs_safe {size : Int} {pairs : List (Int × Int)}
    (inside : ∀ pair ∈ pairs, (-size ≤ pair.1 ∧ pair.1 < 0) ∧
      -size ≤ pair.2 ∧ pair.2 < 0) :
    SafeOp (swapPairs size pairs) := by
  intro n
  refine safe_requireSize fun enough => ?_
  refine safe_good (.forM pairs fun pair member => ?_)
  have bounds := inside pair member
  exact safe_swap (by omega) (by omega) (by omega) (by omega)

theorem exec2Rot_safe : SafeOp exec2Rot := by
  intro n
  refine safe_requireSize fun six => ?_
  refine safe_stacktop (by omega) (by omega) fun vch1 small1 => ?_
  refine safe_stacktop (by omega) (by omega) fun vch2 small2 => ?_
  refine (safe_erase (by omega) (by omega) (by omega)).bind fun _ => ?_
  refine (safe_pushBack small1).bind fun _ => ?_
  exact safe_good (safe_pushBack small2)

theorem execIfDup_safe : SafeOp execIfDup := by
  intro n
  refine safe_requireSize fun one => ?_
  refine safe_stacktop (by omega) (by omega) fun vch small => ?_
  exact .ite (fun _ => safe_good (safe_pushBack small)) fun _ => safe_pure

theorem execDepth_safe : SafeOp execDepth :=
  fun _ => safe_stackSize (safe_good (safe_pushBack (getvch_length _)))

theorem execNip_safe : SafeOp execNip := by
  intro n
  refine safe_requireSize fun two => ?_
  exact safe_good (safe_erase (by omega) (by omega) (by omega))

theorem execTuck_safe : SafeOp execTuck := by
  intro n
  refine safe_requireSize fun two => ?_
  refine safe_stacktop (by omega) (by omega) fun vch small => ?_
  exact safe_good (safe_insert (by omega) small)

theorem execSize_safe : SafeOp execSize := by
  intro n
  refine safe_requireSize fun one => ?_
  refine safe_stacktop (by omega) (by omega) fun vch _ => ?_
  exact safe_good (safe_pushBack (getvch_length _))

theorem execEqual_safe (opcode : UInt8) : SafeOp (execEqual opcode) := by
  intro n
  refine safe_requireSize fun two => ?_
  refine safe_stacktop (by omega) (by omega) fun vch1 _ => ?_
  refine safe_stacktop (by omega) (by omega) fun vch2 _ => ?_
  refine (safe_popMany (by omega)).bind fun _ => ?_
  refine (safe_pushBack (ofBool_length _)).bind fun _ => ?_
  exact .ite (fun _ => safe_verifyTop (by omega)) fun _ => safe_pure

/-! ## Numbers -/

theorem safe_scriptNum {vch : Valtype} {next : CScriptNum → Eval β}
    (rest : ∀ bn : CScriptNum, -4294967296 < bn.mValue →
      bn.mValue < 4294967296 → Safe (Ready n) (next bn) post) :
    Safe (Ready n) (scriptNum context vch >>= next) post := by
  intro machine ready
  by_cases long : vch.length > nMaxNumSize
  · have stops : scriptNum context vch machine =
        .error (.thrown (.scriptNumOverflow vch)) machine := by
      rw [scriptNum, if_pos long]
      rfl
    rw [bind_error stops]
    exact ⟨long, ready.1.recorded⟩
  · by_cases minimal : context.fRequireMinimal && nonMinimal vch
    · have stops : scriptNum context vch machine =
          .error (.thrown (.nonMinimalScriptNum vch)) machine := by
        rw [scriptNum, if_neg long, if_pos minimal]
        rfl
      rw [bind_error stops]
      exact ⟨(Bool.and_eq_true_iff.mp minimal).2, ready.1.recorded⟩
    · have runs : scriptNum context vch machine =
          .ok ⟨setVch vch⟩ machine := by
        rw [scriptNum, if_neg long, if_neg minimal]
        rfl
      have bounds := setVch_bounds (not_lt.mp long)
      rw [bind_ok runs]
      exact rest ⟨setVch vch⟩ bounds.1 bounds.2 machine ready

theorem execPickRoll_safe (opcode : UInt8) :
    SafeOp (execPickRoll context opcode) := by
  intro n
  refine safe_requireSize fun two => ?_
  refine safe_stacktop (by omega) (by omega) fun vch _ => ?_
  refine safe_scriptNum context fun bn _ _ => ?_
  refine (safe_popstack (by omega)).bind fun _ => ?_
  refine safe_stackSize ?_
  refine safe_failIf fun inside => ?_
  refine safe_stacktop (by omega) (by omega) fun vch small => ?_
  refine .ite (fun _ => ?_) fun _ => safe_good (safe_pushBack small)
  refine (safe_erase (by omega) (by omega) (by omega)).bind fun _ => ?_
  exact safe_good (safe_pushBack small)

/-- No assertion fails in the arithmetic on operands. -/
theorem safe_unaryResult {opcode : UInt8} {bn : CScriptNum}
    {next : CScriptNum → Eval β}
    (known : opcode ∈
      [op1Add, op1Sub, opNegate, opAbs, opNot, op0NotEqual])
    (low : -4294967296 < bn.mValue) (high : bn.mValue < 4294967296)
    (rest : ∀ bn, Safe (Ready n) (next bn) post) :
    Safe (Ready n) (unaryResult opcode bn >>= next) post := by
  have one : bnOne.mValue = 1 := rfl
  have least : int64Min = -9223372036854775808 := rfl
  have most : int64Max = 9223372036854775807 := rfl
  have negated : Safe (Ready n) (negate bn >>= next) post := by
    rw [negate, bind_assoc]
    refine safe_assert (by omega) ?_
    rw [pure_bind]
    exact rest _
  simp only [List.mem_cons, List.not_mem_nil, or_false] at known
  rcases known with rfl | rfl | rfl | rfl | rfl | rfl
  · show Safe (Ready n) (addAssign bn bnOne >>= next) post
    rw [addAssign, bind_assoc]
    refine safe_assert (by omega) ?_
    rw [pure_bind]
    exact rest _
  · show Safe (Ready n) (subAssign bn bnOne >>= next) post
    rw [subAssign, bind_assoc]
    refine safe_assert (by omega) ?_
    rw [pure_bind]
    exact rest _
  · exact negated
  · show Safe (Ready n) ((if bn.mValue < bnZero.mValue then negate bn
      else pure bn) >>= next) post
    by_cases isNegative : bn.mValue < bnZero.mValue
    · rw [if_pos isNegative]
      exact negated
    · rw [if_neg isNegative, pure_bind]
      exact rest bn
  · exact rest _
  · exact rest _

theorem execUnary_safe {opcode : UInt8} (known : opcode ∈
    [op1Add, op1Sub, opNegate, opAbs, opNot, op0NotEqual]) :
    SafeOp (execUnary context opcode) := by
  intro n
  refine safe_requireSize fun one => ?_
  refine safe_stacktop (by omega) (by omega) fun vch _ => ?_
  refine safe_scriptNum context fun bn low high => ?_
  refine safe_unaryResult known low high fun bn => ?_
  refine (safe_popstack (by omega)).bind fun _ => ?_
  exact safe_good (safe_pushBack (getvch_length _))

/-- The opcodes that `execBinary` tells apart give a number. -/
theorem binaryResult_pure {opcode : UInt8} (known : opcode ∈
    [opAdd, opSub, opBoolAnd, opBoolOr, opNumEqual, opNumEqualVerify,
      opNumNotEqual, opLessThan, opGreaterThan, opLessThanOrEqual,
      opGreaterThanOrEqual, opMin, opMax]) (bn1 bn2 : CScriptNum) :
    ∃ bn, binaryResult opcode bn1 bn2 = pure bn := by
  simp only [List.mem_cons, List.not_mem_nil, or_false] at known
  rcases known with rfl | rfl | rfl | rfl | rfl | rfl | rfl | rfl | rfl |
    rfl | rfl | rfl | rfl
  all_goals exact ⟨_, rfl⟩

theorem execBinary_safe {opcode : UInt8} (known : opcode ∈
    [opAdd, opSub, opBoolAnd, opBoolOr, opNumEqual, opNumEqualVerify,
      opNumNotEqual, opLessThan, opGreaterThan, opLessThanOrEqual,
      opGreaterThanOrEqual, opMin, opMax]) :
    SafeOp (execBinary context opcode) := by
  intro n
  refine safe_requireSize fun two => ?_
  refine safe_stacktop (by omega) (by omega) fun vch1 _ => ?_
  refine safe_scriptNum context fun bn1 _ _ => ?_
  refine safe_stacktop (by omega) (by omega) fun vch2 _ => ?_
  refine safe_scriptNum context fun bn2 _ _ => ?_
  obtain ⟨bn, result⟩ := binaryResult_pure known bn1 bn2
  rw [result, pure_bind]
  refine (safe_popMany (by omega)).bind fun _ => ?_
  refine (safe_pushBack (getvch_length _)).bind fun _ => ?_
  refine .ite (fun _ => ?_) fun _ => safe_pure
  refine safe_stacktop (by omega) (by omega) fun vch _ => ?_
  exact safe_verifyTop (by omega)

theorem execWithin_safe : SafeOp (execWithin context) := by
  intro n
  refine safe_requireSize fun three => ?_
  refine safe_stacktop (by omega) (by omega) fun vch1 _ => ?_
  refine safe_scriptNum context fun bn1 _ _ => ?_
  refine safe_stacktop (by omega) (by omega) fun vch2 _ => ?_
  refine safe_scriptNum context fun bn2 _ _ => ?_
  refine safe_stacktop (by omega) (by omega) fun vch3 _ => ?_
  refine safe_scriptNum context fun bn3 _ _ => ?_
  refine (safe_popMany (by omega)).bind fun _ => ?_
  exact safe_good (safe_pushBack (ofBool_length _))

/-! ## Hashes and signatures -/

theorem digest_length {size : Nat} (digest : Buffer UInt8 size)
    (fits : size ≤ maxScriptElementSize) :
    digest.val.length ≤ maxScriptElementSize :=
  digest.property.le.trans fits

theorem hashOf_length (opcode : UInt8) (vch : Valtype) :
    (hashOf context opcode vch).length ≤ maxScriptElementSize := by
  unfold hashOf
  split_ifs
  all_goals exact digest_length _ (by decide)

theorem execHash_safe (opcode : UInt8) :
    SafeOp (execHash context opcode) := by
  intro n
  refine safe_requireSize fun one => ?_
  refine safe_stacktop (by omega) (by omega) fun vch _ => ?_
  refine (safe_popstack (by omega)).bind fun _ => ?_
  exact safe_good (safe_pushBack (hashOf_length context opcode vch))

theorem execCodeSeparator_safe (pc : CScript) :
    SafeOp (execCodeSeparator pc) :=
  fun _ => .modify fun _ ready => ready.1.control

theorem safe_checkEncodings {vchSig vchPubKey : Valtype}
    {next : Unit → Eval β} (rest : Safe (Ready n) (next ()) post) :
    Safe (Ready n) (checkEncodings context vchSig vchPubKey >>= next)
      post := by
  unfold checkEncodings
  dsimp only
  split
  · exact rest
  · exact fun machine ready => ⟨trivial, ready.1.recorded⟩

theorem execCheckSig_safe (opcode : UInt8) :
    SafeOp (execCheckSig context opcode) := by
  intro n
  refine safe_requireSize fun two => ?_
  refine safe_stacktop (by omega) (by omega) fun vchSig _ => ?_
  refine safe_stacktop (by omega) (by omega) fun vchPubKey _ => ?_
  refine safe_get fun found => ?_
  refine safe_checkEncodings context ?_
  refine (safe_popMany (by omega)).bind fun _ => ?_
  refine (safe_pushBack (ofBool_length _)).bind fun _ => ?_
  exact .ite (fun _ => safe_verifyTop (by omega)) fun _ => safe_pure

/-! ## Multisig -/

theorem safe_countOps {count : Int} {next : Unit → Eval β}
    (rest : Safe (Ready n) (next ()) post) :
    Safe (Ready n) (countOps count >>= next) post := by
  intro machine ready
  by_cases few : machine.nOpCount + count ≤ 201
  · rw [bind_ok (countOps_run few)]
    exact rest _ ⟨⟨⟨ready.1.recorded.small, ready.1.recorded.stack,
      ready.1.recorded.altstack⟩, few⟩, ready.2⟩
  · rw [bind_error (countOps_error (not_le.mp few))]
    exact ⟨trivial, ready.1.recorded.small, ready.1.recorded.stack,
      ready.1.recorded.altstack⟩

theorem safe_dropSignatures {count : Nat} {isig : Int}
    (scriptCode : CScript) (low : 1 ≤ isig) (high : isig + count ≤ n + 1) :
    Safe (Ready n) (dropSignatures count isig scriptCode) fun _ =>
      Ready n := by
  induction count generalizing isig scriptCode with
  | zero => exact .pure fun _ ready => ready
  | succ count ih =>
      refine safe_stacktop (by omega) (by omega) fun vchSig _ => ?_
      exact ih _ (by omega) (by omega)

/-- The signatures and the keys that are left stay on the stack, and there are
never more signatures than keys. -/
theorem safe_checkSignatures (scriptCode : CScript)
    {isig ikey nSigsCount nKeysCount : Int}
    (lowSig : 1 ≤ isig) (highSig : isig + nSigsCount ≤ n + 1)
    (lowKey : 1 ≤ ikey) (highKey : ikey + nKeysCount ≤ n + 1)
    (enough : nSigsCount ≤ nKeysCount) :
    Safe (Ready n)
      (checkSignatures context scriptCode isig ikey nSigsCount nKeysCount)
      fun _ => Ready n := by
  induction keys : nKeysCount.toNat
    generalizing isig ikey nSigsCount nKeysCount with
  | zero =>
      rw [checkSignatures, dif_neg (by omega)]
      exact .pure fun _ ready => ready
  | succ keys' ih =>
      by_cases left : 0 < nSigsCount
      · rw [checkSignatures, dif_pos left]
        refine safe_stacktop (by omega) (by omega) fun vchSig _ => ?_
        refine safe_stacktop (by omega) (by omega) fun vchPubKey _ => ?_
        refine safe_checkEncodings context ?_
        cases context.checkSig vchSig vchPubKey scriptCode with
        | true =>
            simp only [↓reduceIte]
            rw [dif_neg (by omega)]
            exact ih (by omega) (by omega) (by omega) (by omega) (by omega)
              (by omega)
        | false =>
            simp only [Bool.false_eq_true, ↓reduceIte]
            by_cases many : nSigsCount > nKeysCount - 1
            · rw [dif_pos many]
              exact .pure fun _ ready => ready
            · rw [dif_neg many]
              exact ih (by omega) (by omega) (by omega) (by omega)
                (by omega) (by omega)
      · rw [checkSignatures, dif_neg left]
        exact .pure fun _ ready => ready

theorem execCheckMultisig_safe (opcode : UInt8) :
    SafeOp (execCheckMultisig context opcode) := by
  intro n
  refine safe_requireSize fun one => ?_
  refine safe_stacktop (by omega) (by omega) fun vch _ => ?_
  refine safe_scriptNum context fun bn _ _ => ?_
  refine safe_failIf fun keys => ?_
  refine safe_countOps ?_
  refine safe_requireSize fun holdsKeys => ?_
  refine safe_stacktop (by omega) (by omega) fun vch' _ => ?_
  refine safe_scriptNum context fun bn' _ _ => ?_
  refine safe_failIf fun sigs => ?_
  refine safe_requireSize fun holdsSigs => ?_
  refine safe_get fun found => ?_
  refine (safe_dropSignatures _ (by omega) (by omega)).bind fun code => ?_
  refine (safe_checkSignatures context code (by omega) (by omega)
    (by omega) (by omega) (by omega)).bind fun fSuccess => ?_
  refine (safe_popMany (by omega)).bind fun _ => ?_
  refine safe_requireSize fun dummy => ?_
  have finish : Safe (Ready (n - (2 + bn.getint + 1 + bn'.getint - 1).toNat))
      (do
        popstack
        pushBack (ofBool fSuccess)
        if opcode = opCheckMultisigVerify then
          verifyTop fSuccess .checkMultisigVerify)
      fun _ => Good := by
    refine (safe_popstack (by omega)).bind fun _ => ?_
    refine (safe_pushBack (ofBool_length _)).bind fun _ => ?_
    exact .ite (fun _ => safe_verifyTop (by omega)) fun _ => safe_pure
  refine .ite (fun _ => ?_) fun _ => finish
  refine safe_stacktop (by omega) (by omega) fun vch'' _ => ?_
  exact safe_failIf fun _ => finish

end PrivateDatagram.Script.OperationSafety
