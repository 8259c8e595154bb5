import PrivateDatagram.Library.OrderedMatching
import PrivateDatagram.Script.EvalScript

/-!
# Multisig

`OP_CHECKMULTISIG` on arguments it admits, whose encodings it accepts: it
pushes true exactly when the signatures match distinct keys in order.
-/

namespace PrivateDatagram.Script.Multisig

open Library.OrderedMatching Library.StoppingRuns Wire.Transaction Instructions
  EvalMachine ScriptNum SignatureEncoding Operations EvalScript

variable (context : Context)

/-! ## Arguments -/

/-- What a script pushes for the opcode, in the order of the script. -/
structure Arguments where
  dummy : Valtype
  sigs : List Valtype
  sigsCount : Valtype
  keys : List Valtype
  keysCount : Valtype

/-- The stack with the arguments on it, the last one on top. -/
def Arguments.pushedOn (arguments : Arguments) (rest : List Valtype) :
    List Valtype :=
  arguments.keysCount :: (arguments.keys.reverse ++
    arguments.sigsCount :: (arguments.sigs.reverse ++
      arguments.dummy :: rest))

section Layout

variable (arguments : Arguments) (rest : List Valtype)

theorem length_pushedOn : (arguments.pushedOn rest).length =
    arguments.keys.length + arguments.sigs.length + 3 + rest.length := by
  simp only [Arguments.pushedOn, List.length_cons, List.length_append,
    List.length_reverse]
  omega

theorem drop_keysCount : (arguments.pushedOn rest).drop 1 =
    arguments.keys.reverse ++ arguments.sigsCount ::
      (arguments.sigs.reverse ++ arguments.dummy :: rest) :=
  rfl

theorem drop_keys :
    (arguments.pushedOn rest).drop (arguments.keys.length + 1) =
      arguments.sigsCount ::
        (arguments.sigs.reverse ++ arguments.dummy :: rest) := by
  rw [Nat.add_comm, ← List.drop_drop, drop_keysCount, List.drop_left']
  exact List.length_reverse

theorem drop_sigsCount :
    (arguments.pushedOn rest).drop (arguments.keys.length + 2) =
      arguments.sigs.reverse ++ arguments.dummy :: rest := by
  rw [← List.tail_drop, drop_keys]
  rfl

theorem drop_sigs : (arguments.pushedOn rest).drop
    (arguments.keys.length + arguments.sigs.length + 2) =
      arguments.dummy :: rest := by
  rw [Nat.add_right_comm, ← List.drop_drop, drop_sigsCount, List.drop_left']
  exact List.length_reverse

end Layout

/-- The bytes can be read as the number. -/
structure Reads (vch : Valtype) (value : Int) : Prop where
  short : vch.length ≤ nMaxNumSize
  minimal : ¬ (context.fRequireMinimal && nonMinimal vch) = true
  value : setVch vch = value

/-- The numbers are those of the lists, and the limits of the opcode hold. -/
structure Admitted (nOpCount : Int) (arguments : Arguments) : Prop where
  keysCount : Reads context arguments.keysCount arguments.keys.length
  keysLimit : arguments.keys.length ≤ 20
  opsLimit : nOpCount + arguments.keys.length ≤ 201
  sigsCount : Reads context arguments.sigsCount arguments.sigs.length
  sigsLimit : arguments.sigs.length ≤ arguments.keys.length
  dummy : hasFlag context.flags verifyNullDummy = true →
    arguments.dummy = []

/-- No test on an encoding fails. -/
structure WellEncoded (sigs keys : List Valtype) : Prop where
  sigs : ∀ sig ∈ sigs, checkSignatureEncoding sig context.flags = .ok ()
  keys : ∀ key ∈ keys, checkPubKeyEncoding key context.flags = .ok ()

/-- The script that is signed, without the signatures, the last one first. -/
def scriptCodeOf (pbegincodehash : CScript) (sigs : List Valtype) : CScript :=
  sigs.reverse.foldl (fun scriptCode sig =>
    findAndDelete scriptCode (pushScript sig)) pbegincodehash

/-! ## Parts of the run -/

section Parts

variable {context} {machine : Machine}

theorem entry_drop {stack rest : List Valtype} {vch : Valtype} {i : Nat}
    {position : Int} (below : stack.drop i = vch :: rest)
    (counted : position = -((i : Int) + 1)) :
    entry stack position = some vch := by
  have index : (-position - 1).toNat = i := by omega
  rw [entry, if_pos (by omega), index, ← List.head?_drop, below]
  rfl

theorem drop_next {stack rest : List Valtype} {vch : Valtype} {i : Nat}
    (below : stack.drop i = vch :: rest) : stack.drop (i + 1) = rest := by
  rw [← List.tail_drop, below]
  rfl

theorem scriptNum_run {vch : Valtype} {value : Int}
    (reads : Reads context vch value) :
    scriptNum context vch machine = .ok ⟨value⟩ machine := by
  rw [scriptNum, if_neg (not_lt.mpr reads.short), if_neg reads.minimal,
    reads.value]
  rfl

theorem popMany_run {count : Nat} (enough : count ≤ machine.stack.length) :
    popMany count machine =
      .ok () { machine with stack := machine.stack.drop count } := by
  induction count generalizing machine with
  | zero => rfl
  | succ count ih =>
      cases shape : machine.stack with
      | nil => simp [shape] at enough
      | cons vch rest =>
          show (popstack >>= fun _ => popMany count : Eval Unit) machine = _
          rw [shape] at enough
          rw [bind_ok (popstack_run shape), ih]
          · rfl
          · exact Nat.le_of_succ_le_succ enough

theorem checkEncodings_run {sig key : Valtype}
    (sigOk : checkSignatureEncoding sig context.flags = .ok ())
    (keyOk : checkPubKeyEncoding key context.flags = .ok ()) :
    checkEncodings context sig key machine = .ok () machine := by
  rw [checkEncodings, sigOk, keyOk]
  rfl

theorem dropSignatures_run {sigs below : List Valtype} {i : Nat}
    (scriptCode : CScript) (shape : machine.stack.drop i = sigs ++ below) :
    dropSignatures sigs.length (i + 1) scriptCode machine =
      .ok (sigs.foldl (fun scriptCode sig =>
        findAndDelete scriptCode (pushScript sig)) scriptCode) machine := by
  induction sigs generalizing i scriptCode with
  | nil => rfl
  | cons sig sigs ih =>
      show (stacktop (-((i : Int) + 1)) >>= fun _ => _ : Eval CScript)
        machine = _
      rw [bind_ok (stacktop_run (entry_drop shape rfl))]
      exact ih _ (drop_next shape)

theorem WellEncoded.mono {sigs sigs' keys keys' : List Valtype}
    (encoded : WellEncoded context sigs keys) (fewerSigs : sigs' ⊆ sigs)
    (fewerKeys : keys' ⊆ keys) : WellEncoded context sigs' keys' where
  sigs sig member := encoded.sigs sig (fewerSigs member)
  keys key member := encoded.keys key (fewerKeys member)

section Round

variable {scriptCode : CScript} {sig key : Valtype}
  {belowSigs belowKeys : List Valtype} {i j : Nat}
  {nSigsCount nKeysCount : Int}

theorem checkSignatures_done (isig ikey : Int) (noneLeft : nSigsCount ≤ 0) :
    checkSignatures context scriptCode isig ikey nSigsCount nKeysCount
      machine = .ok true machine := by
  rw [checkSignatures, dif_neg (not_lt.mpr noneLeft)]
  rfl

/-- One round of the loop. -/
theorem checkSignatures_round
    (sigShape : machine.stack.drop i = sig :: belowSigs)
    (keyShape : machine.stack.drop j = key :: belowKeys)
    (sigOk : checkSignatureEncoding sig context.flags = .ok ())
    (keyOk : checkPubKeyEncoding key context.flags = .ok ())
    (left : 0 < nSigsCount) :
    checkSignatures context scriptCode (i + 1) (j + 1) nSigsCount nKeysCount
      machine =
      if context.checkSig sig key scriptCode then
        if nSigsCount > nKeysCount then .ok false machine
        else checkSignatures context scriptCode ((i + 1 : Nat) + 1)
          ((j + 1 : Nat) + 1) (nSigsCount - 1) (nKeysCount - 1) machine
      else
        if nSigsCount > nKeysCount - 1 then .ok false machine
        else checkSignatures context scriptCode (i + 1)
          ((j + 1 : Nat) + 1) nSigsCount (nKeysCount - 1) machine := by
  rw [checkSignatures, dif_pos left,
    bind_ok (stacktop_run (entry_drop sigShape rfl)),
    bind_ok (stacktop_run (entry_drop keyShape rfl)),
    bind_ok (checkEncodings_run sigOk keyOk)]
  push_cast
  cases context.checkSig sig key scriptCode with
  | true =>
      simp only [↓reduceIte]
      by_cases many : nSigsCount > nKeysCount
      · rw [if_pos many, dif_pos (by omega)]
        rfl
      · rw [if_neg many, dif_neg (by omega)]
  | false =>
      simp only [Bool.false_eq_true, ↓reduceIte]
      by_cases many : nSigsCount > nKeysCount - 1
      · rw [if_pos many, dif_pos many]
        rfl
      · rw [if_neg many, dif_neg many]

end Round

/-- The loop is the greedy matching of what is left, the topmost first. -/
theorem checkSignatures_run (scriptCode : CScript)
    {sigs belowSigs keys belowKeys : List Valtype} {i j : Nat}
    (sigsShape : machine.stack.drop i = sigs ++ belowSigs)
    (keysShape : machine.stack.drop j = keys ++ belowKeys)
    (encoded : WellEncoded context sigs keys)
    (enough : sigs.length ≤ keys.length) :
    checkSignatures context scriptCode (i + 1) (j + 1) sigs.length
        keys.length machine =
      .ok (greedy (fun sig key => context.checkSig sig key scriptCode)
        sigs keys) machine := by
  induction keys generalizing sigs i j with
  | nil =>
      cases List.length_eq_zero_iff.mp (Nat.le_zero.mp enough)
      rw [greedy]
      exact checkSignatures_done _ _ (Int.le_refl 0)
  | cons key keys ih =>
      cases sigs with
      | nil =>
          rw [greedy]
          exact checkSignatures_done _ _ (Int.le_refl 0)
      | cons sig sigs =>
          have fewerKeys : keys ⊆ key :: keys := List.subset_cons_self key keys
          rw [checkSignatures_round sigsShape keysShape
            (encoded.sigs sig List.mem_cons_self)
            (encoded.keys key List.mem_cons_self) (by simp), greedy]
          rw [List.length_cons, List.length_cons] at enough ⊢
          push_cast
          rw [Int.add_sub_cancel, Int.add_sub_cancel]
          by_cases accepted : context.checkSig sig key scriptCode = true
          · rw [if_pos accepted, if_pos accepted, if_neg (by omega)]
            exact_mod_cast ih (drop_next sigsShape) (drop_next keysShape)
              (encoded.mono (List.subset_cons_self sig sigs) fewerKeys)
              (Nat.le_of_succ_le_succ enough)
          · rw [if_neg accepted, if_neg accepted]
            by_cases many : (sigs.length : Int) + 1 > keys.length
            · rw [if_pos many, greedy_of_length_lt _ (by
                rw [List.length_cons]
                omega)]
            · rw [if_neg many]
              exact_mod_cast ih sigsShape (drop_next keysShape)
                (encoded.mono (List.Subset.refl _) fewerKeys)
                (by rw [List.length_cons]; omega)

theorem getint_small {value : Int} (low : 0 ≤ value) (high : value ≤ 20) :
    CScriptNum.getint ⟨value⟩ = value := by
  rw [CScriptNum.getint, if_neg (by dsimp only; omega),
    if_neg (by dsimp only; omega)]

/-- What is left of the opcode when only the dummy is on top. -/
theorem finish_run {vch : Valtype} {rest : List Valtype} {fSuccess : Bool}
    (shape : machine.stack = vch :: rest)
    (dummy : hasFlag context.flags verifyNullDummy = true → vch = []) :
    ∃ after,
      (do
        requireSize 1 .invalidStackOperation
        if hasFlag context.flags verifyNullDummy then
          failIf ((← stacktop (-1)).length ≠ 0) .sigNullDummy
        popstack
        pushBack (ofBool fSuccess)
        if opCheckMultisig = opCheckMultisigVerify then
          verifyTop fSuccess .checkMultisigVerify : Eval Unit) machine =
        .ok () after ∧
      after.stack = ofBool fSuccess :: rest := by
  have enough : (1 : Int) ≤ machine.stack.length := by
    rw [shape, List.length_cons]
    omega
  have top : entry machine.stack (-1) = some vch := by
    rw [shape]
    rfl
  refine ⟨{ machine with
    stack := ofBool fSuccess :: rest
    seen := ofBool fSuccess :: machine.seen }, ?_, rfl⟩
  rw [bind_ok (requireSize_run enough _)]
  by_cases flag : hasFlag context.flags verifyNullDummy = true
  · have short : ¬ vch.length ≠ 0 := by
      rw [dummy flag]
      decide
    rw [if_pos flag, bind_ok (stacktop_run top),
      bind_ok (failIf_run short _)]
    exact bind_ok (popstack_run shape)
  · rw [if_neg flag]
    exact bind_ok (popstack_run shape)

/-- The opcode takes its arguments off and pushes what the loop found. -/
theorem execCheckMultisig_run {arguments : Arguments} {rest : List Valtype}
    (pushed : machine.stack = arguments.pushedOn rest)
    (admitted : Admitted context machine.nOpCount arguments)
    (encoded : WellEncoded context arguments.sigs arguments.keys) :
    ∃ after,
      execCheckMultisig context opCheckMultisig machine = .ok () after ∧
      after.stack = ofBool (greedy (fun sig key => context.checkSig sig key
        (scriptCodeOf machine.pbegincodehash arguments.sigs))
          arguments.sigs.reverse arguments.keys.reverse) :: rest := by
  let counted : Machine :=
    { machine with nOpCount := machine.nOpCount + arguments.keys.length }
  have stack : counted.stack = arguments.pushedOn rest := pushed
  have size : (counted.stack.length : Int) = arguments.keys.length +
      arguments.sigs.length + 3 + rest.length := by
    rw [stack, length_pushedOn]
    push_cast
    rfl
  have keysLimit := admitted.keysLimit
  have sigsLimit := admitted.sigsLimit
  have keysEntry : entry machine.stack (-1) = some arguments.keysCount := by
    rw [pushed]
    rfl
  have sigsEntry : entry counted.stack (-(2 + (arguments.keys.length : Int))) =
      some arguments.sigsCount :=
    entry_drop (stack ▸ drop_keys arguments rest) (by push_cast; omega)
  have sigsBelow := drop_sigsCount arguments rest
  have keysBelow := drop_keysCount arguments rest
  rw [← stack] at sigsBelow keysBelow
  have encodedBackwards :
      WellEncoded context arguments.sigs.reverse arguments.keys.reverse :=
    ⟨fun sig member => encoded.sigs sig (List.mem_reverse.mp member),
      fun key member => encoded.keys key (List.mem_reverse.mp member)⟩
  have dropped := dropSignatures_run machine.pbegincodehash sigsBelow
  have looped := checkSignatures_run
    (scriptCodeOf machine.pbegincodehash arguments.sigs) sigsBelow keysBelow
    encodedBackwards (by simpa only [List.length_reverse] using sigsLimit)
  simp only [List.length_reverse] at dropped looped
  have popped := @popMany_run counted
    (arguments.keys.length + arguments.sigs.length + 2) (by omega)
  rw [stack, drop_sigs] at popped
  have isig : 2 + (arguments.keys.length : Int) + 1 =
      ((arguments.keys.length + 2 : Nat) : Int) + 1 := by
    push_cast
    omega
  have popCount : (2 + (arguments.keys.length : Int) + 1 +
      arguments.sigs.length - 1).toNat =
        arguments.keys.length + arguments.sigs.length + 2 := by
    omega
  have found : (get : Eval Machine) counted = .ok counted counted := rfl
  have sized : (1 : Int) ≤ machine.stack.length := by
    show 1 ≤ (counted.stack.length : Int)
    omega
  change checkSignatures _ _ _ 2 _ _ _ = _ at looped
  -- The counts and the tests on them.
  show ∃ after, (requireSize 1 _ >>= fun _ => _ : Eval Unit) machine =
    .ok () after ∧ _
  rw [bind_ok (requireSize_run sized _), bind_ok (stacktop_run keysEntry),
    bind_ok (scriptNum_run admitted.keysCount)]
  dsimp only
  rw [getint_small (by omega) (by omega), bind_ok (failIf_run (by omega) _),
    bind_ok (countOps_run admitted.opsLimit)]
  change ∃ after, (_ : Eval Unit) counted = .ok () after ∧ _
  rw [bind_ok (requireSize_run (by omega) _), bind_ok (stacktop_run sigsEntry),
    bind_ok (scriptNum_run admitted.sigsCount),
    getint_small (by omega) (by omega), bind_ok (failIf_run (by omega) _),
    bind_ok (requireSize_run (by omega) _)]
  -- The signatures, and the stack without the arguments.
  rw [bind_ok found, Int.toNat_natCast, popCount, isig, bind_ok dropped]
  change ∃ after, (checkSignatures context
    (scriptCodeOf machine.pbegincodehash arguments.sigs) _ _ _ _ >>=
      fun _ => _ : Eval Unit) counted = .ok () after ∧ _
  rw [bind_ok looped, bind_ok popped]
  exact finish_run rfl admitted.dummy

end Parts

/-! ## What the opcode pushes -/

theorem ofBool_eq_vchTrue (fValue : Bool) :
    ofBool fValue = vchTrue ↔ fValue = true := by
  cases fValue <;> decide

/-- Carried out on arguments it admits, `OP_CHECKMULTISIG` replaces them by
true exactly if the signatures match distinct keys in order. -/
theorem checkMultisig_matches {machine : Machine} {arguments : Arguments}
    {rest : List Valtype} (pc : CScript)
    (pushed : machine.stack = arguments.pushedOn rest)
    (admitted : Admitted context machine.nOpCount arguments)
    (encoded : WellEncoded context arguments.sigs arguments.keys) :
    ∃ after result,
      carryOut context true ⟨opCheckMultisig, [], pc⟩ machine =
        .ok () after ∧
      after.stack = result :: rest ∧
      (result = vchTrue ∨ result = vchFalse) ∧
      (result = vchTrue ↔
        Matches (fun sig key => context.checkSig sig key
            (scriptCodeOf machine.pbegincodehash arguments.sigs))
          arguments.sigs arguments.keys) := by
  obtain ⟨after, runs, result⟩ :=
    execCheckMultisig_run pushed admitted encoded
  refine ⟨after, _, runs, result, ?_, ?_⟩
  · cases greedy (fun sig key => context.checkSig sig key
      (scriptCodeOf machine.pbegincodehash arguments.sigs))
      arguments.sigs.reverse arguments.keys.reverse
    · exact .inr rfl
    · exact .inl rfl
  · rw [ofBool_eq_vchTrue, greedy_iff_matches, matches_reverse]

/-- Two signatures, three keys, and a key accepts what equals it. -/
theorem checkMultisig_matches_twoOfThree :
    ∃ after result,
      carryOut (plainContext fun sig key _ => sig = key) true
          ⟨opCheckMultisig, [], []⟩
          (start [] [[3], [9], [8], [7], [2], [9], [7], []]) =
        .ok () after ∧
      after.stack = [result] ∧ (result = vchTrue ∨ result = vchFalse) ∧
      (result = vchTrue ↔ Matches (fun sig key : Valtype => sig = key)
        [[7], [9]] [[7], [8], [9]]) := by
  have pushed : (start [] [[3], [9], [8], [7], [2], [9], [7], []]).stack =
      Arguments.pushedOn ⟨[], [[7], [9]], [2], [[7], [8], [9]], [3]⟩ [] :=
    rfl
  refine checkMultisig_matches (plainContext fun sig key _ => sig = key) []
    pushed ?_ ⟨?_, ?_⟩
  · exact ⟨⟨by decide, by decide, rfl⟩, by decide, by decide,
      ⟨by decide, by decide, rfl⟩, by decide, by decide⟩
  · simp only [List.forall_mem_cons]
    exact ⟨rfl, rfl, nofun⟩
  · simp only [List.forall_mem_cons]
    exact ⟨rfl, rfl, rfl, nofun⟩

end PrivateDatagram.Script.Multisig
