import PrivateDatagram.Chainstate.Coins

/-!
# Budget payments

A superblock may pay a proposal of a finalized budget.  Whether it does is
asked by `IsBlockPayeeValid`, on every check of a block.  The answer goes
through `IsPaidAlready`, which keeps the payments of the current cycle in
`mapPayment_History`: it drops those of other cycles and enters the proposal.
-/

namespace PrivateDatagram.Validation.BudgetPayments

open Wire.Serialize Wire.Transaction

/-! ## Finalized budgets -/

structure CTxBudgetPayment where
  nProposalHash : UInt256
  payee : CScript
  nAmount : Int64
deriving DecidableEq, Repr

structure CFinalizedBudget where
  nBlockStart : Int
  vecBudgetPayments : List CTxBudgetPayment
  /-- `GetVoteCount`. -/
  nVoteCount : Int
deriving DecidableEq, Repr

/-- The last height; a sum of `int`s, which does not overflow here. -/
def CFinalizedBudget.getBlockEnd (budget : CFinalizedBudget) : Int :=
  budget.nBlockStart + (budget.vecBudgetPayments.length - 1)

/-- A height within the payments of the budget. -/
def CFinalizedBudget.covers (budget : CFinalizedBudget) (height : Int) :
    Bool :=
  budget.nBlockStart ≤ height ∧ height ≤ budget.getBlockEnd

/-- `mapPayment_History`. -/
abbrev PaymentHistory := UInt256 → Option Int

def isPaidAlready (budget : CFinalizedBudget) (nProposalHash : UInt256)
    (nBlockHeight : Int) (history : PaymentHistory) : Bool × PaymentHistory :=
  let current : PaymentHistory := fun proposal =>
    (history proposal).filter budget.covers
  match current nProposalHash with
  | none =>
      (false, Function.update current nProposalHash (some nBlockHeight))
  | some _ => (true, current)

inductive TrxValidationStatus where
  | inValid
  | valid
  | doublePayment
  | voteThreshold
deriving DecidableEq, Repr

/-- An output that pays a proposal. -/
def pays (payment : CTxBudgetPayment) (out : CTxOut) : Bool :=
  payment.payee = out.scriptPubKey ∧ payment.nAmount = out.nValue

/-- The loop over the outputs; it stops at a double payment. -/
def checkOutputs (budget : CFinalizedBudget) (payment : CTxBudgetPayment)
    (nBlockHeight : Int) : List CTxOut → TrxValidationStatus →
      PaymentHistory → TrxValidationStatus × PaymentHistory
  | [], status, history => (status, history)
  | out :: rest, status, history =>
      if pays payment out then
        match isPaidAlready budget payment.nProposalHash nBlockHeight
            history with
        | (true, history) => (.doublePayment, history)
        | (false, history) =>
            checkOutputs budget payment nBlockHeight rest .valid history
      else
        checkOutputs budget payment nBlockHeight rest status history

/-- `CFinalizedBudget::IsTransactionValid`. -/
def CFinalizedBudget.isTransactionValid (budget : CFinalizedBudget)
    (vout : List CTxOut) (nBlockHeight : Int) (history : PaymentHistory) :
    TrxValidationStatus × PaymentHistory :=
  let nCurrentBudgetPayment := nBlockHeight - budget.nBlockStart
  if nCurrentBudgetPayment < 0 then
    (.inValid, history)
  else
    match budget.vecBudgetPayments[nCurrentBudgetPayment.toNat]? with
    | none => (.inValid, history)
    | some payment =>
        checkOutputs budget payment nBlockHeight vout .inValid history

/-! ## The budget manager -/

structure CBudgetManager where
  /-- In the order of the hashes. -/
  mapFinalizedBudgets : List CFinalizedBudget
  /-- `mnodeman.CountEnabled(ActiveProtocol())`. -/
  nEnabled : Nat
deriving DecidableEq, Repr

namespace CBudgetManager

def nHighestCount (manager : CBudgetManager) (least nBlockHeight : Int) :
    Int :=
  manager.mapFinalizedBudgets.foldl
    (fun highest budget =>
      if highest < budget.nVoteCount ∧ budget.covers nBlockHeight then
        budget.nVoteCount
      else
        highest) least

def isBudgetPaymentBlock (manager : CBudgetManager) (nBlockHeight : Int) :
    Bool :=
  ((manager.nEnabled / 20 : Nat) : Int) <
    manager.nHighestCount (-1) nBlockHeight

def nCountThreshold (manager : CBudgetManager) (nBlockHeight : Int) : Int :=
  manager.nHighestCount 0 nBlockHeight - (manager.nEnabled / 10 : Nat)

end CBudgetManager

/-- The loop over the budgets with enough votes; it stops at a valid payment. -/
def askBudgets (vout : List CTxOut) (nBlockHeight nCountThreshold : Int) :
    List CFinalizedBudget → TrxValidationStatus → Bool → PaymentHistory →
      TrxValidationStatus × PaymentHistory
  | [], status, fThreshold, history =>
      (if fThreshold then status else .voteThreshold, history)
  | budget :: rest, status, fThreshold, history =>
      if nCountThreshold < budget.nVoteCount then
        if budget.covers nBlockHeight then
          match budget.isTransactionValid vout nBlockHeight history with
          | (.valid, history) => (.valid, history)
          | (status, history) =>
              askBudgets vout nBlockHeight nCountThreshold rest status true
                history
        else
          askBudgets vout nBlockHeight nCountThreshold rest status true history
      else
        askBudgets vout nBlockHeight nCountThreshold rest status fThreshold
          history

/-- `CBudgetManager::IsTransactionValid`. -/
def CBudgetManager.isTransactionValid (manager : CBudgetManager)
    (vout : List CTxOut) (nBlockHeight : Int) (history : PaymentHistory) :
    TrxValidationStatus × PaymentHistory :=
  if manager.nHighestCount 0 nBlockHeight < (manager.nEnabled / 20 : Nat) then
    (.inValid, history)
  else
    askBudgets vout nBlockHeight (manager.nCountThreshold nBlockHeight)
      manager.mapFinalizedBudgets .inValid false history

/-! ## Payees -/

/-- What `IsBlockPayeeValid` reads besides the budgets. -/
structure PayeeRules where
  /-- `masternodeSync.IsSynced()`. -/
  isSynced : Bool
  /-- `SPORK_13_ENABLE_SUPERBLOCKS`. -/
  superblocks : Bool
  /-- `SPORK_9_MASTERNODE_BUDGET_ENFORCEMENT`. -/
  budgetEnforcement : Bool
  /-- `SPORK_8_MASTERNODE_PAYMENT_ENFORCEMENT`. -/
  paymentEnforcement : Bool
  /-- `masternodePayments.IsTransactionValid`. -/
  masternodePaid : Bool
deriving DecidableEq, Repr

/-- Whether the budgets are asked at all. -/
def asksBudgets (rules : PayeeRules) (manager : CBudgetManager)
    (nBlockHeight : Int) : Bool :=
  rules.isSynced && rules.superblocks &&
    manager.isBudgetPaymentBlock nBlockHeight

/-- `IsBlockPayeeValid`, on the outputs of the transaction that pays. -/
def isBlockPayeeValid (rules : PayeeRules) (manager : CBudgetManager)
    (vout : List CTxOut) (nBlockHeight : Int) (history : PaymentHistory) :
    Bool × PaymentHistory :=
  let otherwise := rules.masternodePaid || !rules.paymentEnforcement
  if !rules.isSynced then
    (true, history)
  else if rules.superblocks && manager.isBudgetPaymentBlock nBlockHeight then
    match manager.isTransactionValid vout nBlockHeight history with
    | (.valid, history) => (true, history)
    | (.inValid, history) =>
        (if rules.budgetEnforcement then false else otherwise, history)
    | (_, history) => (otherwise, history)
  else
    (otherwise, history)

/-! ## What asking does to the history -/

/-- The budget finds its proposal paid and nothing of another cycle. -/
structure Settled (budget : CFinalizedBudget) (payment : CTxBudgetPayment)
    (history : PaymentHistory) : Prop where
  current : ∀ proposal height, history proposal = some height →
    budget.covers height = true
  paid : (history payment.nProposalHash).isSome = true

/--
A change that no later payment at the same height takes back: an entry of
another height is gone, or a new one of this height is there.
-/
def Changed (nBlockHeight : Int) (before after : PaymentHistory) : Prop :=
  (∃ proposal height, before proposal = some height ∧
    height ≠ nBlockHeight ∧ after proposal ≠ some height) ∨
  ∃ proposal, before proposal = none ∧ after proposal = some nBlockHeight

theorem Changed.ne {nBlockHeight : Int} {before after : PaymentHistory}
    (changed : Changed nBlockHeight before after) : after ≠ before := by
  rintro rfl
  rcases changed with ⟨proposal, height, old, _, gone⟩ |
    ⟨proposal, absent, present⟩
  · exact gone old
  · rw [absent] at present
    cases present

theorem isPaidAlready_settled {budget : CFinalizedBudget}
    {payment : CTxBudgetPayment} {history : PaymentHistory}
    (settled : Settled budget payment history) (nBlockHeight : Int) :
    isPaidAlready budget payment.nProposalHash nBlockHeight history =
      (true, history) := by
  have same : (fun proposal => (history proposal).filter budget.covers) =
      history := by
    funext proposal
    cases found : history proposal with
    | none => rfl
    | some height =>
        exact Option.filter_some_pos (settled.current proposal height found)
  rcases Option.isSome_iff_exists.mp settled.paid with ⟨height, found⟩
  unfold isPaidAlready
  dsimp only
  rw [same, found, Option.filter_some_pos (settled.current _ height found)]

theorem isPaidAlready_entry {budget : CFinalizedBudget} (nBlockHeight : Int)
    (history : PaymentHistory) (asked proposal : UInt256) :
    (isPaidAlready budget asked nBlockHeight history).2 proposal =
      if proposal = asked ∧ (history asked).filter budget.covers = none then
        some nBlockHeight
      else
        (history proposal).filter budget.covers := by
  unfold isPaidAlready
  dsimp only
  cases found : (history asked).filter budget.covers with
  | some height => simp
  | none =>
      by_cases here : proposal = asked
      · subst here
        simp
      · simp [here]

theorem Changed.isPaidAlready {budget : CFinalizedBudget} {nBlockHeight : Int}
    {before history : PaymentHistory}
    (changed : Changed nBlockHeight before history)
    (inCycle : budget.covers nBlockHeight = true) (asked : UInt256) :
    Changed nBlockHeight before
      (isPaidAlready budget asked nBlockHeight history).2 := by
  rcases changed with ⟨proposal, height, old, other, gone⟩ |
    ⟨proposal, absent, present⟩
  · refine Or.inl ⟨proposal, height, old, other, ?_⟩
    rw [isPaidAlready_entry]
    split_ifs
    · exact fun same => other (Option.some.inj same).symm
    · exact fun same => gone (Option.filter_eq_some_iff.mp same).1
  · refine Or.inr ⟨proposal, absent, ?_⟩
    rw [isPaidAlready_entry]
    split_ifs
    · rfl
    · rw [present]
      exact Option.filter_some_pos inCycle

theorem isPaidAlready_changed {budget : CFinalizedBudget}
    {payment : CTxBudgetPayment} {nBlockHeight : Int}
    {history : PaymentHistory} (inCycle : budget.covers nBlockHeight = true)
    (unsettled : ¬ Settled budget payment history) :
    Changed nBlockHeight history
      (isPaidAlready budget payment.nProposalHash nBlockHeight history).2 := by
  by_cases current : ∀ proposal height, history proposal = some height →
      budget.covers height = true
  · have absent : history payment.nProposalHash = none := by
      rw [← Option.not_isSome_iff_eq_none]
      exact fun paid => unsettled ⟨current, paid⟩
    refine Or.inr ⟨payment.nProposalHash, absent, ?_⟩
    rw [isPaidAlready_entry, absent]
    exact if_pos ⟨rfl, rfl⟩
  · push Not at current
    rcases current with ⟨proposal, height, old, outside⟩
    have other : height ≠ nBlockHeight := by
      rintro rfl
      exact outside inCycle
    refine Or.inl ⟨proposal, height, old, other, ?_⟩
    rw [isPaidAlready_entry]
    split_ifs
    · exact fun same => other (Option.some.inj same).symm
    · intro same
      exact outside (Option.filter_eq_some_iff.mp same).2

/-! ## One budget -/

theorem checkOutputs_unpaid {budget : CFinalizedBudget}
    {payment : CTxBudgetPayment} {nBlockHeight : Int} {vout : List CTxOut}
    (unpaid : ∀ out ∈ vout, pays payment out = false)
    (status : TrxValidationStatus) (history : PaymentHistory) :
    checkOutputs budget payment nBlockHeight vout status history =
      (status, history) := by
  induction vout with
  | nil => rfl
  | cons out rest ih =>
      rcases List.forall_mem_cons.mp unpaid with ⟨here, later⟩
      rw [checkOutputs, here]
      exact ih later

/-- What the first output does not pay is paid by a later one. -/
theorem paid_later {payment : CTxBudgetPayment} {out : CTxOut}
    {rest : List CTxOut} (here : pays payment out = false)
    (paid : ∃ other ∈ out :: rest, pays payment other = true) :
    ∃ other ∈ rest, pays payment other = true := by
  rcases paid with ⟨other, member, pays⟩
  rcases List.mem_cons.mp member with rfl | later
  · rw [here] at pays
    cases pays
  · exact ⟨other, later, pays⟩

theorem checkOutputs_settled {budget : CFinalizedBudget}
    {payment : CTxBudgetPayment} {nBlockHeight : Int} {vout : List CTxOut}
    {history : PaymentHistory} (settled : Settled budget payment history)
    (paid : ∃ out ∈ vout, pays payment out = true)
    (status : TrxValidationStatus) :
    checkOutputs budget payment nBlockHeight vout status history =
      (.doublePayment, history) := by
  induction vout with
  | nil =>
      rcases paid with ⟨out, impossible, _⟩
      cases impossible
  | cons out rest ih =>
      rw [checkOutputs]
      cases here : pays payment out with
      | true =>
          rw [if_pos rfl, isPaidAlready_settled settled]
      | false =>
          rw [if_neg Bool.false_ne_true]
          exact ih (paid_later here paid)

theorem Changed.checkOutputs {budget : CFinalizedBudget}
    {payment : CTxBudgetPayment} {nBlockHeight : Int}
    {before history : PaymentHistory} {vout : List CTxOut}
    (changed : Changed nBlockHeight before history)
    (inCycle : budget.covers nBlockHeight = true)
    (status : TrxValidationStatus) :
    Changed nBlockHeight before
      (checkOutputs budget payment nBlockHeight vout status history).2 := by
  induction vout generalizing status history with
  | nil => exact changed
  | cons out rest ih =>
      rw [BudgetPayments.checkOutputs]
      split_ifs
      · have after := changed.isPaidAlready inCycle payment.nProposalHash
        cases asked : BudgetPayments.isPaidAlready budget
            payment.nProposalHash nBlockHeight history with
        | mk paid history' =>
            rw [asked] at after
            cases paid with
            | true => exact after
            | false => exact ih after .valid
      · exact ih changed status

theorem checkOutputs_changed {budget : CFinalizedBudget}
    {payment : CTxBudgetPayment} {nBlockHeight : Int} {vout : List CTxOut}
    {history : PaymentHistory} (inCycle : budget.covers nBlockHeight = true)
    (unsettled : ¬ Settled budget payment history)
    (paid : ∃ out ∈ vout, pays payment out = true)
    (status : TrxValidationStatus) :
    Changed nBlockHeight history
      (checkOutputs budget payment nBlockHeight vout status history).2 := by
  induction vout generalizing status with
  | nil =>
      rcases paid with ⟨out, impossible, _⟩
      cases impossible
  | cons out rest ih =>
      rw [checkOutputs]
      cases here : pays payment out with
      | true =>
          rw [if_pos rfl]
          have after := isPaidAlready_changed inCycle unsettled
          cases asked : isPaidAlready budget payment.nProposalHash
              nBlockHeight history with
          | mk already history' =>
              rw [asked] at after
              cases already with
              | true => exact after
              | false => exact after.checkOutputs inCycle .valid
      | false =>
          rw [if_neg Bool.false_ne_true]
          exact ih (paid_later here paid) status

/-- If the block pays what the budget has for it, the payment is settled. -/
def Quiet (vout : List CTxOut) (nBlockHeight : Int)
    (history : PaymentHistory) (budget : CFinalizedBudget) : Prop :=
  ∀ payment, budget.vecBudgetPayments[(nBlockHeight -
      budget.nBlockStart).toNat]? = some payment →
    (∃ out ∈ vout, pays payment out = true) → Settled budget payment history

theorem isTransactionValid_quiet {budget : CFinalizedBudget}
    {vout : List CTxOut} {nBlockHeight : Int} {history : PaymentHistory}
    (quiet : Quiet vout nBlockHeight history budget) :
    ∃ status, budget.isTransactionValid vout nBlockHeight history =
        (status, history) ∧ status ≠ .valid := by
  unfold CFinalizedBudget.isTransactionValid
  dsimp only
  split_ifs
  · exact ⟨.inValid, rfl, by decide⟩
  · cases payments : budget.vecBudgetPayments[(nBlockHeight -
        budget.nBlockStart).toNat]? with
    | none => exact ⟨.inValid, rfl, by decide⟩
    | some payment =>
        by_cases paid : ∃ out ∈ vout, pays payment out = true
        · exact ⟨.doublePayment,
            checkOutputs_settled (quiet payment payments paid) paid .inValid,
            by decide⟩
        · push Not at paid
          refine ⟨.inValid, checkOutputs_unpaid ?_ .inValid history,
            by decide⟩
          intro out member
          exact eq_false_of_ne_true (paid out member)

theorem Changed.isTransactionValid {budget : CFinalizedBudget}
    {vout : List CTxOut} {nBlockHeight : Int}
    {before history : PaymentHistory}
    (changed : Changed nBlockHeight before history)
    (inCycle : budget.covers nBlockHeight = true) :
    Changed nBlockHeight before
      (budget.isTransactionValid vout nBlockHeight history).2 := by
  unfold CFinalizedBudget.isTransactionValid
  dsimp only
  split_ifs
  · exact changed
  · split
    · exact changed
    · exact changed.checkOutputs inCycle .inValid

theorem isTransactionValid_changed {budget : CFinalizedBudget}
    {vout : List CTxOut} {nBlockHeight : Int} {history : PaymentHistory}
    (inCycle : budget.covers nBlockHeight = true)
    (loud : ¬ Quiet vout nBlockHeight history budget) :
    Changed nBlockHeight history
      (budget.isTransactionValid vout nBlockHeight history).2 := by
  unfold Quiet at loud
  push Not at loud
  rcases loud with ⟨payment, payments, paid, unsettled⟩
  have started : ¬ nBlockHeight - budget.nBlockStart < 0 := by
    have bounds := of_decide_eq_true inCycle
    omega
  unfold CFinalizedBudget.isTransactionValid
  dsimp only
  rw [if_neg started, payments]
  exact checkOutputs_changed inCycle unsettled paid .inValid

/-! ## All budgets -/

/-- Every budget that is asked is quiet. -/
def AllQuiet (vout : List CTxOut) (nBlockHeight nCountThreshold : Int)
    (history : PaymentHistory) (budgets : List CFinalizedBudget) : Prop :=
  ∀ budget ∈ budgets, nCountThreshold < budget.nVoteCount →
    budget.covers nBlockHeight = true →
      Quiet vout nBlockHeight history budget

theorem Changed.askBudgets {vout : List CTxOut}
    {nBlockHeight nCountThreshold : Int} {before history : PaymentHistory}
    {budgets : List CFinalizedBudget}
    (changed : Changed nBlockHeight before history)
    (status : TrxValidationStatus) (fThreshold : Bool) :
    Changed nBlockHeight before (askBudgets vout nBlockHeight nCountThreshold
      budgets status fThreshold history).2 := by
  induction budgets generalizing history status fThreshold with
  | nil => exact changed
  | cons budget rest ih =>
      rw [BudgetPayments.askBudgets]
      by_cases votes : nCountThreshold < budget.nVoteCount
      · rw [if_pos votes]
        by_cases inCycle : budget.covers nBlockHeight = true
        · rw [if_pos inCycle]
          have after : Changed nBlockHeight before
              (budget.isTransactionValid vout nBlockHeight history).2 :=
            changed.isTransactionValid inCycle
          split
          · rename_i asked
            rw [asked] at after
            exact after
          · rename_i asked
            rw [asked] at after
            exact ih after _ true
        · rw [if_neg inCycle]
          exact ih changed status true
      · rw [if_neg votes]
        exact ih changed status fThreshold

/-- The budgets leave the history as it is exactly when all are quiet. -/
theorem askBudgets_kept_iff {vout : List CTxOut}
    {nBlockHeight nCountThreshold : Int} {history : PaymentHistory}
    {budgets : List CFinalizedBudget} (status : TrxValidationStatus)
    (fThreshold : Bool) :
    (askBudgets vout nBlockHeight nCountThreshold budgets status fThreshold
        history).2 = history ↔
      AllQuiet vout nBlockHeight nCountThreshold history budgets := by
  unfold AllQuiet
  induction budgets generalizing status fThreshold with
  | nil => simp [askBudgets]
  | cons budget rest ih =>
      rw [askBudgets, List.forall_mem_cons]
      by_cases votes : nCountThreshold < budget.nVoteCount
      · rw [if_pos votes]
        by_cases inCycle : budget.covers nBlockHeight = true
        · rw [if_pos inCycle]
          by_cases quiet : Quiet vout nBlockHeight history budget
          · rcases isTransactionValid_quiet quiet with
              ⟨status', asked, notValid⟩
            rw [asked]
            have goes : ∀ status'', status'' ≠ TrxValidationStatus.valid →
                (match (status'', history) with
                  | (.valid, history) => (.valid, history)
                  | (status, history) =>
                      askBudgets vout nBlockHeight nCountThreshold rest
                        status true history) =
                  askBudgets vout nBlockHeight nCountThreshold rest status''
                    true history := by
              intro status'' other
              cases status'' <;> first | rfl | exact absurd rfl other
            rw [goes status' notValid, ih]
            exact ⟨fun later => ⟨fun _ _ => quiet, later⟩, And.right⟩
          · have after := isTransactionValid_changed inCycle quiet
            constructor
            · intro kept
              exfalso
              cases asked : budget.isTransactionValid vout nBlockHeight
                  history with
              | mk status' history' =>
                  rw [asked] at after kept
                  cases status' with
                  | valid => exact after.ne kept
                  | inValid => exact (after.askBudgets _ _).ne kept
                  | doublePayment => exact (after.askBudgets _ _).ne kept
                  | voteThreshold => exact (after.askBudgets _ _).ne kept
            · rintro ⟨here, _⟩
              exact absurd (here votes inCycle) quiet
        · rw [if_neg inCycle, ih]
          exact ⟨fun later => ⟨fun _ covers => absurd covers inCycle, later⟩,
            And.right⟩
      · rw [if_neg votes, ih]
        exact ⟨fun later => ⟨fun more => absurd more votes, later⟩, And.right⟩

theorem nHighestCount_mono (manager : CBudgetManager) (nBlockHeight : Int)
    {least more : Int} (le : least ≤ more) :
    manager.nHighestCount least nBlockHeight ≤
      manager.nHighestCount more nBlockHeight := by
  unfold CBudgetManager.nHighestCount
  induction manager.mapFinalizedBudgets generalizing least more with
  | nil => exact le
  | cons budget rest ih =>
      rw [List.foldl_cons, List.foldl_cons]
      apply ih
      cases budget.covers nBlockHeight with
      | true =>
          simp only [and_true]
          split_ifs <;> omega
      | false =>
          simp only [Bool.false_eq_true, and_false, if_false]
          exact le

/-- The verdict on a block for an answer of the budgets. -/
def PayeeRules.verdict (rules : PayeeRules) : TrxValidationStatus → Bool
  | .valid => true
  | .inValid =>
      (rules.masternodePaid || !rules.paymentEnforcement) &&
        !rules.budgetEnforcement
  | .doublePayment => rules.masternodePaid || !rules.paymentEnforcement
  | .voteThreshold => rules.masternodePaid || !rules.paymentEnforcement

/-- At a budget payment block some budget has enough votes to be asked. -/
theorem isTransactionValid_asked {manager : CBudgetManager}
    {nBlockHeight : Int}
    (paymentBlock : manager.isBudgetPaymentBlock nBlockHeight = true)
    (vout : List CTxOut) (history : PaymentHistory) :
    manager.isTransactionValid vout nBlockHeight history =
      askBudgets vout nBlockHeight (manager.nCountThreshold nBlockHeight)
        manager.mapFinalizedBudgets .inValid false history := by
  have high := of_decide_eq_true paymentBlock
  have more := nHighestCount_mono manager nBlockHeight
    (by decide : (-1 : Int) ≤ 0)
  unfold CBudgetManager.isTransactionValid
  exact if_neg (by omega)

theorem isBlockPayeeValid_asked {rules : PayeeRules}
    {manager : CBudgetManager} {nBlockHeight : Int}
    (asks : asksBudgets rules manager nBlockHeight = true)
    (vout : List CTxOut) (history : PaymentHistory) :
    isBlockPayeeValid rules manager vout nBlockHeight history =
      (askBudgets vout nBlockHeight (manager.nCountThreshold nBlockHeight)
        manager.mapFinalizedBudgets .inValid false history).map
          rules.verdict id := by
  unfold asksBudgets at asks
  rw [Bool.and_assoc, Bool.and_eq_true_iff] at asks
  obtain ⟨synced, superblock⟩ := asks
  have paymentBlock := (Bool.and_eq_true_iff.mp superblock).2
  unfold isBlockPayeeValid
  dsimp only
  rw [synced, Bool.not_true, if_neg Bool.false_ne_true, if_pos superblock,
    isTransactionValid_asked paymentBlock]
  rcases askBudgets vout nBlockHeight (manager.nCountThreshold nBlockHeight)
    manager.mapFinalizedBudgets .inValid false history with ⟨status, after⟩
  cases status with
  | valid => rfl
  | doublePayment => rfl
  | voteThreshold => rfl
  | inValid =>
      unfold PayeeRules.verdict
      cases rules.budgetEnforcement with
      | true => simp
      | false => simp

theorem isBlockPayeeValid_unasked {rules : PayeeRules}
    {manager : CBudgetManager} {nBlockHeight : Int}
    (unasked : asksBudgets rules manager nBlockHeight = false)
    (vout : List CTxOut) (history : PaymentHistory) :
    isBlockPayeeValid rules manager vout nBlockHeight history =
      (!rules.isSynced || rules.masternodePaid || !rules.paymentEnforcement,
        history) := by
  unfold asksBudgets at unasked
  unfold isBlockPayeeValid
  cases synced : rules.isSynced with
  | false => rfl
  | true =>
      rw [synced, Bool.true_and] at unasked
      dsimp only
      rw [unasked]
      rfl

/--
`IsBlockPayeeValid` leaves the history as it is exactly when the budgets are
not asked or all quiet.
-/
theorem isBlockPayeeValid_kept_iff (rules : PayeeRules)
    (manager : CBudgetManager) (vout : List CTxOut) (nBlockHeight : Int)
    (history : PaymentHistory) :
    (isBlockPayeeValid rules manager vout nBlockHeight history).2 = history ↔
      (asksBudgets rules manager nBlockHeight = true →
        AllQuiet vout nBlockHeight (manager.nCountThreshold nBlockHeight)
          history manager.mapFinalizedBudgets) := by
  cases asks : asksBudgets rules manager nBlockHeight with
  | true =>
      rw [isBlockPayeeValid_asked asks, forall_prop_of_true rfl]
      exact askBudgets_kept_iff ..
  | false =>
      rw [isBlockPayeeValid_unasked asks]
      exact iff_of_true rfl nofun

end PrivateDatagram.Validation.BudgetPayments
