import PrivateDatagram.Library.PassedMark
import PrivateDatagram.Validation.BudgetPayments

/-!
# Repeated payee checks

Whether `IsBlockPayeeValid` can say of a block what it would say on a fresh
node, whatever blocks were checked before.  Only the first check of a block
with a budget payment finds the payment open: it enters the proposal into
`mapPayment_History`, and the next check takes the block for a double payment.
-/

namespace PrivateDatagram.Validation.BudgetPayments

open Library.PassedMark Wire.Serialize Wire.Transaction

/-! ## Runs -/

/-- One call of `IsBlockPayeeValid`. -/
structure PayeeCheck where
  rules : PayeeRules
  manager : CBudgetManager
  vout : List CTxOut
  nBlockHeight : Int

/-- What the checks leave of an empty history. -/
def historyAfter (checks : List PayeeCheck) : PaymentHistory :=
  checks.foldl (fun history check =>
    (isBlockPayeeValid check.rules check.manager check.vout
      check.nBlockHeight history).2) fun _ => none

/-! ## Payments of a block -/

/-- A budget, and its payment for a height. -/
structure Due where
  budget : CFinalizedBudget
  payment : CTxBudgetPayment

/-- The budget with its payment, when the block makes it. -/
def CFinalizedBudget.due (vout : List CTxOut) (nBlockHeight : Int)
    (budget : CFinalizedBudget) : Option Due :=
  (budget.vecBudgetPayments[(nBlockHeight - budget.nBlockStart).toNat]?.filter
    fun payment => vout.any (pays payment)).map (Due.mk budget)

/-- The budgets that have enough votes and a payment for the height. -/
def askedOf (nCountThreshold nBlockHeight : Int)
    (budgets : List CFinalizedBudget) : List CFinalizedBudget :=
  budgets.filter fun budget =>
    nCountThreshold < budget.nVoteCount && budget.covers nBlockHeight

def CBudgetManager.asked (manager : CBudgetManager) (nBlockHeight : Int) :
    List CFinalizedBudget :=
  askedOf (manager.nCountThreshold nBlockHeight) nBlockHeight
    manager.mapFinalizedBudgets

/-- The payments that the block makes of the budgets that are asked. -/
def CBudgetManager.dues (manager : CBudgetManager) (vout : List CTxOut)
    (nBlockHeight : Int) : List Due :=
  (manager.asked nBlockHeight).filterMap (·.due vout nBlockHeight)

/-- Exactly one output makes the payment. -/
def Due.madeOnce (due : Due) (vout : List CTxOut) : Bool :=
  vout.countP (pays due.payment) = 1

/-- The budget finds its payment valid. -/
def Due.opens (due : Due) (vout : List CTxOut) (nBlockHeight : Int)
    (history : PaymentHistory) : Bool :=
  due.madeOnce vout && !(isPaidAlready due.budget
    due.payment.nProposalHash nBlockHeight history).1

/-- The history after the budget has been asked. -/
def Due.note (due : Due) (nBlockHeight : Int) (history : PaymentHistory) :
    PaymentHistory :=
  (isPaidAlready due.budget due.payment.nProposalHash nBlockHeight history).2

/-- Some budget finds its payment valid. -/
def anyOpens (vout : List CTxOut) (nBlockHeight : Int) :
    List Due → PaymentHistory → Bool
  | [], _ => false
  | due :: rest, history =>
      due.opens vout nBlockHeight history ||
        anyOpens vout nBlockHeight rest (due.note nBlockHeight history)

/-! ## One budget -/

theorem isPaidAlready_settles {budget : CFinalizedBudget}
    {payment : CTxBudgetPayment} {nBlockHeight : Int}
    (inCycle : budget.covers nBlockHeight = true) (history : PaymentHistory) :
    Settled budget payment
      (isPaidAlready budget payment.nProposalHash nBlockHeight history).2 := by
  refine ⟨?_, ?_⟩
  · intro proposal height found
    rw [isPaidAlready_entry] at found
    split at found
    · cases found
      exact inCycle
    · exact (Option.filter_eq_some_iff.mp found).2
  · rw [isPaidAlready_entry]
    split
    · rfl
    case isFalse recorded =>
      rw [← Option.ne_none_iff_isSome]
      exact fun absent => recorded ⟨rfl, absent⟩

theorem checkOutputs_eq {budget : CFinalizedBudget}
    {payment : CTxBudgetPayment} {nBlockHeight : Int}
    (inCycle : budget.covers nBlockHeight = true) (vout : List CTxOut)
    (status : TrxValidationStatus) (history : PaymentHistory) :
    checkOutputs budget payment nBlockHeight vout status history =
      if vout.any (pays payment) then
        (if (Due.mk budget payment).opens vout nBlockHeight history then
          .valid
        else
          .doublePayment,
        (Due.mk budget payment).note nBlockHeight history)
      else
        (status, history) := by
  induction vout with
  | nil => rfl
  | cons out rest ih =>
      rw [checkOutputs, List.any_cons]
      cases here : pays payment out with
      | false =>
          rw [if_neg Bool.false_ne_true, ih, Bool.false_or]
          unfold Due.opens Due.madeOnce
          rw [List.countP_cons_of_neg (by rw [here]; decide)]
      | true =>
          rw [if_pos rfl, Bool.true_or, if_pos rfl]
          unfold Due.opens Due.madeOnce Due.note
          rw [List.countP_cons_of_pos here]
          have settled : Settled budget payment _ :=
            isPaidAlready_settles inCycle history
          cases asked : isPaidAlready budget payment.nProposalHash
              nBlockHeight history with
          | mk already history' =>
              rw [asked] at settled
              cases already with
              | true => simp
              | false =>
                  dsimp only
                  by_cases more : ∃ out ∈ rest, pays payment out = true
                  · rw [checkOutputs_settled settled more]
                    have positive := List.countP_pos_iff.mpr more
                    rw [if_neg]
                    simp
                    omega
                  · have unpaid : ∀ out ∈ rest, pays payment out = false :=
                      fun out member => eq_false_of_ne_true fun paid =>
                        more ⟨out, member, paid⟩
                    rw [checkOutputs_unpaid unpaid, List.countP_eq_zero.mpr]
                    · rfl
                    · intro out member
                      rw [unpaid out member]
                      decide

theorem isTransactionValid_due {budget : CFinalizedBudget}
    {nBlockHeight : Int} (inCycle : budget.covers nBlockHeight = true)
    (vout : List CTxOut) (history : PaymentHistory) :
    budget.isTransactionValid vout nBlockHeight history =
      match budget.due vout nBlockHeight with
      | some due =>
          (if due.opens vout nBlockHeight history then .valid
            else .doublePayment, due.note nBlockHeight history)
      | none => (.inValid, history) := by
  have started : ¬ nBlockHeight - budget.nBlockStart < 0 := by
    have bounds := of_decide_eq_true inCycle
    omega
  unfold CFinalizedBudget.isTransactionValid CFinalizedBudget.due
  dsimp only
  rw [if_neg started]
  cases budget.vecBudgetPayments[(nBlockHeight -
      budget.nBlockStart).toNat]? with
  | none => rfl
  | some payment =>
      dsimp only
      rw [checkOutputs_eq inCycle]
      cases made : vout.any (pays payment) with
      | true =>
          rw [Option.filter_some, made]
          rfl
      | false =>
          rw [Option.filter_some, made]
          rfl

/-! ## The loop over the budgets -/

/-- The answer of a budget that does not find its payment valid. -/
def CFinalizedBudget.refusal (vout : List CTxOut) (nBlockHeight : Int)
    (budget : CFinalizedBudget) : TrxValidationStatus :=
  if (budget.due vout nBlockHeight).isSome then .doublePayment else .inValid

/-- The answer of the last of the budgets, if they all refuse. -/
def lastRefusal (vout : List CTxOut) (nBlockHeight : Int)
    (status : TrxValidationStatus) (budgets : List CFinalizedBudget) :
    TrxValidationStatus :=
  (budgets.getLast?.map (·.refusal vout nBlockHeight)).getD status

theorem lastRefusal_cons (vout : List CTxOut) (nBlockHeight : Int)
    (status : TrxValidationStatus) (budget : CFinalizedBudget)
    (budgets : List CFinalizedBudget) :
    lastRefusal vout nBlockHeight status (budget :: budgets) =
      lastRefusal vout nBlockHeight (budget.refusal vout nBlockHeight)
        budgets := by
  unfold lastRefusal
  rw [List.getLast?_cons]
  cases budgets.getLast? with
  | none => rfl
  | some last => rfl

theorem askedOf_cons {nCountThreshold nBlockHeight : Int}
    {budget : CFinalizedBudget} (votes : nCountThreshold < budget.nVoteCount)
    (inCycle : budget.covers nBlockHeight = true)
    (budgets : List CFinalizedBudget) :
    askedOf nCountThreshold nBlockHeight (budget :: budgets) =
      budget :: askedOf nCountThreshold nBlockHeight budgets :=
  List.filter_cons_of_pos
    (Bool.and_eq_true_iff.mpr ⟨decide_eq_true votes, inCycle⟩)

theorem askedOf_skip {nCountThreshold nBlockHeight : Int}
    {budget : CFinalizedBudget}
    (notAsked : nCountThreshold < budget.nVoteCount →
      budget.covers nBlockHeight = false) (budgets : List CFinalizedBudget) :
    askedOf nCountThreshold nBlockHeight (budget :: budgets) =
      askedOf nCountThreshold nBlockHeight budgets := by
  refine List.filter_cons_of_neg ?_
  rw [Bool.and_eq_true_iff, decide_eq_true_iff]
  rintro ⟨votes, inCycle⟩
  rw [notAsked votes] at inCycle
  cases inCycle

/-- The loop ends at a budget that finds its payment valid, else with the
answer of the last one that was asked. -/
theorem askBudgets_eq (vout : List CTxOut)
    (nBlockHeight nCountThreshold : Int) (budgets : List CFinalizedBudget)
    (status : TrxValidationStatus) (fThreshold : Bool)
    (history : PaymentHistory) :
    (askBudgets vout nBlockHeight nCountThreshold budgets status fThreshold
        history).1 =
      if anyOpens vout nBlockHeight
          ((askedOf nCountThreshold nBlockHeight budgets).filterMap
            (·.due vout nBlockHeight)) history then
        .valid
      else if fThreshold ||
          budgets.any (nCountThreshold < ·.nVoteCount) then
        lastRefusal vout nBlockHeight status
          (askedOf nCountThreshold nBlockHeight budgets)
      else
        .voteThreshold := by
  induction budgets generalizing status fThreshold history with
  | nil =>
      unfold askBudgets
      simp [askedOf, anyOpens, lastRefusal]
  | cons budget budgets ih =>
      rw [askBudgets, List.any_cons]
      by_cases votes : nCountThreshold < budget.nVoteCount
      · rw [if_pos votes, decide_eq_true votes, Bool.true_or, Bool.or_true]
        cases inCycle : budget.covers nBlockHeight with
        | true =>
            rw [if_pos rfl, askedOf_cons votes inCycle,
              isTransactionValid_due inCycle, lastRefusal_cons,
              List.filterMap_cons]
            unfold CFinalizedBudget.refusal
            cases budget.due vout nBlockHeight with
            | none =>
                dsimp only
                rw [ih, Bool.true_or]
                rfl
            | some due =>
                dsimp only
                rw [anyOpens]
                cases due.opens vout nBlockHeight history with
                | true => rfl
                | false =>
                    rw [Bool.false_or, if_neg Bool.false_ne_true]
                    dsimp only
                    rw [ih, Bool.true_or]
                    rfl
        | false =>
            rw [if_neg Bool.false_ne_true, askedOf_skip fun _ => inCycle, ih,
              Bool.true_or]
      · rw [if_neg votes, askedOf_skip fun more => absurd more votes, ih,
          decide_eq_false votes, Bool.false_or]

/-! ## Verdicts -/

/-- Without a valid budget payment the block is taken for an invalid budget
payment: some budget has enough votes, and the last one that was asked does
not get its payment. -/
def CBudgetManager.lacksPayment (manager : CBudgetManager)
    (vout : List CTxOut) (nBlockHeight : Int) : Bool :=
  manager.mapFinalizedBudgets.any
      (manager.nCountThreshold nBlockHeight < ·.nVoteCount) &&
    (manager.asked nBlockHeight).getLast?.all
      fun budget => (budget.due vout nBlockHeight).isNone

/-- The block is accepted without a valid budget payment. -/
def standsAlone (rules : PayeeRules) (manager : CBudgetManager)
    (vout : List CTxOut) (nBlockHeight : Int) : Bool :=
  (rules.masternodePaid || !rules.paymentEnforcement) &&
    !(rules.budgetEnforcement && manager.lacksPayment vout nBlockHeight)

theorem lastRefusal_inValid {vout : List CTxOut} {nBlockHeight : Int}
    {budgets : List CFinalizedBudget} :
    lastRefusal vout nBlockHeight .inValid budgets =
      if budgets.getLast?.all fun budget =>
          (budget.due vout nBlockHeight).isNone then
        .inValid
      else
        .doublePayment := by
  unfold lastRefusal CFinalizedBudget.refusal
  cases budgets.getLast? with
  | none => rfl
  | some budget =>
      cases due : budget.due vout nBlockHeight with
      | none => simp [due]
      | some _ => simp [due]

/-- The verdict on a block whose height has budget payments. -/
theorem verdict_eq {rules : PayeeRules} {manager : CBudgetManager}
    {nBlockHeight : Int}
    (asks : asksBudgets rules manager nBlockHeight = true)
    (vout : List CTxOut) (history : PaymentHistory) :
    (isBlockPayeeValid rules manager vout nBlockHeight history).1 =
      (anyOpens vout nBlockHeight (manager.dues vout nBlockHeight) history ||
        standsAlone rules manager vout nBlockHeight) := by
  rw [isBlockPayeeValid_asked asks, Prod.map_fst, askBudgets_eq,
    lastRefusal_inValid, Bool.false_or]
  unfold standsAlone CBudgetManager.dues CBudgetManager.lacksPayment
    CBudgetManager.asked
  split
  case isTrue opens =>
    rw [opens, Bool.true_or]
    rfl
  case isFalse closed =>
    rw [eq_false_of_ne_true closed, Bool.false_or]
    split
    case isTrue votes =>
      rw [votes, Bool.true_and]
      split
      case isTrue lacks =>
        rw [lacks, Bool.and_true]
        rfl
      case isFalse finds =>
        rw [eq_false_of_ne_true finds, Bool.and_false]
        exact (Bool.and_true _).symm
    case isFalse noVotes =>
      rw [eq_false_of_ne_true noVotes, Bool.false_and, Bool.and_false]
      exact (Bool.and_true _).symm

/-- Where there are no budget payments the history does not matter. -/
theorem verdict_unasked {rules : PayeeRules} {manager : CBudgetManager}
    {nBlockHeight : Int}
    (unasked : asksBudgets rules manager nBlockHeight = false)
    (vout : List CTxOut) (history other : PaymentHistory) :
    (isBlockPayeeValid rules manager vout nBlockHeight history).1 =
      (isBlockPayeeValid rules manager vout nBlockHeight other).1 := by
  rw [isBlockPayeeValid_unasked unasked, isBlockPayeeValid_unasked unasked]

/-! ## Open payments -/

theorem asked_covers {manager : CBudgetManager} {nBlockHeight : Int}
    {vout : List CTxOut} {due : Due}
    (member : due ∈ manager.dues vout nBlockHeight) :
    due.budget.covers nBlockHeight = true := by
  obtain ⟨budget, asked, isDue⟩ := List.mem_filterMap.mp member
  have covers := (Bool.and_eq_true_iff.mp (List.mem_filter.mp asked).2).2
  obtain ⟨payment, _, rfl⟩ := Option.map_eq_some_iff.mp isDue
  exact covers

/-- What a series of payments leaves of the entry of a proposal. -/
def entryAfter (nBlockHeight : Int) (proposal : UInt256) (dues : List Due)
    (entry : Option Int) : Option Int :=
  passes (fun due : Due => due.budget.covers)
    (fun due => due.payment.nProposalHash = proposal) nBlockHeight dues entry

theorem note_entry (due : Due) (nBlockHeight : Int)
    (history : PaymentHistory) (proposal : UInt256) :
    due.note nBlockHeight history proposal =
      entryAfter nBlockHeight proposal [due] (history proposal) := by
  unfold Due.note entryAfter passes passStage
  rw [isPaidAlready_entry, List.foldl_cons, List.foldl_nil]
  by_cases same : proposal = due.payment.nProposalHash
  · subst same
    cases (history due.payment.nProposalHash).filter due.budget.covers with
    | none => simp
    | some height => simp
  · rw [if_neg fun both => same both.1]
    refine (if_neg ?_).symm
    exact fun marked => same (of_decide_eq_true marked).symm

theorem opens_iff (due : Due) (vout : List CTxOut) (nBlockHeight : Int)
    (history : PaymentHistory) :
    due.opens vout nBlockHeight history = true ↔ due.madeOnce vout = true ∧
      (history due.payment.nProposalHash).filter due.budget.covers = none := by
  unfold Due.opens isPaidAlready
  dsimp only
  rw [Bool.and_eq_true_iff]
  refine and_congr_right fun _ => ?_
  cases (history due.payment.nProposalHash).filter due.budget.covers with
  | none => exact iff_of_true rfl rfl
  | some height => exact iff_of_false nofun nofun

/-- A budget finds its payment valid when the payments before it leave no
entry of its proposal. -/
theorem anyOpens_iff (vout : List CTxOut) (nBlockHeight : Int)
    (dues : List Due) (history : PaymentHistory) :
    anyOpens vout nBlockHeight dues history = true ↔
      ∃ first due later, dues = first ++ due :: later ∧
        due.madeOnce vout = true ∧
        (entryAfter nBlockHeight due.payment.nProposalHash first
          (history due.payment.nProposalHash)).filter
            due.budget.covers = none := by
  induction dues generalizing history with
  | nil =>
      refine iff_of_false nofun ?_
      rintro ⟨first, due, later, impossible, _⟩
      cases first with
      | nil => cases impossible
      | cons head first => cases impossible
  | cons head dues ih =>
      rw [anyOpens, Bool.or_eq_true, opens_iff, ih]
      have noted : ∀ proposal first, entryAfter nBlockHeight proposal first
          (head.note nBlockHeight history proposal) =
            entryAfter nBlockHeight proposal (head :: first)
              (history proposal) := by
        intro proposal first
        rw [note_entry]
        exact (passes_append [head] first _).symm
      constructor
      · rintro (⟨once, absent⟩ | ⟨first, due, later, rfl, once, absent⟩)
        · exact ⟨[], head, dues, rfl, once, absent⟩
        · rw [noted] at absent
          exact ⟨head :: first, due, later, rfl, once, absent⟩
      · rintro ⟨first, due, later, split, once, absent⟩
        cases first with
        | nil =>
            cases split
            exact .inl ⟨once, absent⟩
        | cons other first =>
            cases split
            rw [← noted] at absent
            exact .inr ⟨first, due, later, rfl, once, absent⟩

/-! ## Entries -/

/-- A budget with one payment. -/
def oneBudget (nBlockHeight : Int) (nProposalHash : UInt256) :
    CFinalizedBudget :=
  ⟨nBlockHeight, [⟨nProposalHash, [], 0⟩], 1⟩

/-- A check of a block that makes the payment of such a budget. -/
def paymentCheck (nBlockHeight : Int) (nProposalHash : UInt256) :
    PayeeCheck :=
  ⟨⟨true, true, true, true, true⟩,
    ⟨[oneBudget nBlockHeight nProposalHash], 10⟩, [⟨0, []⟩], nBlockHeight⟩

theorem oneBudget_covers (nBlockHeight : Int) (nProposalHash : UInt256) :
    (oneBudget nBlockHeight nProposalHash).covers nBlockHeight = true := by
  simp [oneBudget, CFinalizedBudget.covers, CFinalizedBudget.getBlockEnd]

theorem paymentCheck_note (nBlockHeight : Int) (proposal : UInt256)
    (history : PaymentHistory) :
    (isBlockPayeeValid (paymentCheck nBlockHeight proposal).rules
        (paymentCheck nBlockHeight proposal).manager
        (paymentCheck nBlockHeight proposal).vout
        (paymentCheck nBlockHeight proposal).nBlockHeight history).2 =
      (Due.mk (oneBudget nBlockHeight proposal) ⟨proposal, [], 0⟩).note
        nBlockHeight history := by
  have inCycle := oneBudget_covers nBlockHeight proposal
  have due : (oneBudget nBlockHeight proposal).due [⟨0, []⟩] nBlockHeight =
      some ⟨oneBudget nBlockHeight proposal, ⟨proposal, [], 0⟩⟩ := by
    simp [oneBudget, CFinalizedBudget.due, pays]
  have votes : (oneBudget nBlockHeight proposal).nVoteCount = 1 := rfl
  unfold isBlockPayeeValid paymentCheck CBudgetManager.isBudgetPaymentBlock
    CBudgetManager.isTransactionValid CBudgetManager.nCountThreshold
    CBudgetManager.nHighestCount
  simp only [askBudgets, inCycle, isTransactionValid_due inCycle, due, votes,
    List.foldl_cons, List.foldl_nil]
  cases (Due.mk (oneBudget nBlockHeight proposal) ⟨proposal, [], 0⟩).opens
      [⟨0, []⟩] nBlockHeight history with
  | true => rfl
  | false => rfl

theorem historyAfter_payments (nBlockHeight : Int)
    (proposals : List UInt256) (proposal : UInt256) :
    historyAfter (proposals.map (paymentCheck nBlockHeight)) proposal =
      if proposal ∈ proposals then some nBlockHeight else none := by
  have each : ∀ history : PaymentHistory,
      (∀ other height, history other = some height →
        height = nBlockHeight) →
      (proposals.map (paymentCheck nBlockHeight)).foldl (fun history check =>
        (isBlockPayeeValid check.rules check.manager check.vout
          check.nBlockHeight history).2) history proposal =
        if proposal ∈ proposals then some nBlockHeight
        else history proposal := by
    intro history atHeight
    induction proposals generalizing history with
    | nil => rfl
    | cons head proposals ih =>
        rw [List.map_cons, List.foldl_cons, paymentCheck_note]
        have noted : ∀ other, (Due.mk (oneBudget nBlockHeight head)
            ⟨head, [], 0⟩).note nBlockHeight history other =
              if other = head then some nBlockHeight
              else history other := by
          intro other
          have keeps : (history other).filter
              (oneBudget nBlockHeight head).covers = history other := by
            cases found : history other with
            | none => rfl
            | some height =>
                rw [atHeight other height found]
                exact Option.filter_some_pos (oneBudget_covers _ _)
          unfold Due.note
          rw [isPaidAlready_entry, keeps]
          by_cases here : other = head
          · subst here
            rw [keeps, if_pos rfl]
            cases found : history other with
            | none => exact if_pos ⟨rfl, rfl⟩
            | some height =>
                rw [atHeight other height found]
                exact ite_self _
          · rw [if_neg here, if_neg fun both => here both.1]
        rw [ih]
        · rw [noted]
          by_cases here : proposal = head
          · simp [here]
          · simp [here]
        · intro other height found
          rw [noted] at found
          split at found
          · exact (Option.some.inj found).symm
          · exact atHeight other height found
  exact each _ fun _ _ impossible => nomatch impossible

/-! ## Repeatable verdicts -/

/-- No budget is the only one to decide: each that the block pays once comes
after another one that is paid and has the same proposal, and from that one on
all heights are in the cycles that were in those before. -/
def Noted (vout : List CTxOut) (dues : List Due) : Prop :=
  ∀ first due later, dues = first ++ due :: later →
    due.madeOnce vout = true →
      ∃ before earlier between, first = before ++ earlier :: between ∧
        earlier.payment.nProposalHash = due.payment.nProposalHash ∧
        ∀ height,
          (∀ other ∈ before ++ [earlier],
            other.budget.covers height = true) →
          ∀ other ∈ between ++ [due], other.budget.covers height = true

theorem never_opens_iff {vout : List CTxOut} {nBlockHeight : Int}
    {dues : List Due}
    (inCycle : ∀ due ∈ dues, due.budget.covers nBlockHeight = true) :
    (∀ checks, anyOpens vout nBlockHeight dues (historyAfter checks) =
        false) ↔ Noted vout dues := by
  have keepsFresh : ∀ {first due later}, dues = first ++ due :: later →
      ∀ other ∈ first ++ [due],
        other.budget.covers nBlockHeight = true := by
    rintro first due later rfl other member
    refine inCycle other ?_
    rw [List.append_cons]
    exact List.mem_append_left _ member
  have noted_iff : ∀ {first due later}, dues = first ++ due :: later →
      ((∀ mark, ((entryAfter nBlockHeight due.payment.nProposalHash first
        mark).filter due.budget.covers).isSome) ↔ _) :=
    fun split => always_marked_iff (keepsFresh split)
  constructor
  · intro never first due later split once
    have always : ∀ mark, ((entryAfter nBlockHeight
        due.payment.nProposalHash first mark).filter
          due.budget.covers).isSome := by
      intro mark
      obtain ⟨checks, entry⟩ : ∃ checks,
          historyAfter checks due.payment.nProposalHash = mark := by
        cases mark with
        | none => exact ⟨[], rfl⟩
        | some height =>
            refine ⟨[due.payment.nProposalHash].map (paymentCheck height), ?_⟩
            rw [historyAfter_payments, if_pos List.mem_cons_self]
      have closed := never checks
      rw [← Bool.not_eq_true, anyOpens_iff] at closed
      rw [← Option.ne_none_iff_isSome, ← entry]
      exact fun absent => closed ⟨first, due, later, split, once, absent⟩
    obtain ⟨before, earlier, between, isFirst, sameProposal, stays⟩ :=
      (noted_iff split).mp always
    exact ⟨before, earlier, between, isFirst, of_decide_eq_true sameProposal,
      stays⟩
  · intro noted checks
    rw [← Bool.not_eq_true, anyOpens_iff]
    rintro ⟨first, due, later, split, once, absent⟩
    obtain ⟨before, earlier, between, isFirst, sameProposal, stays⟩ :=
      noted first due later split once
    have always := (noted_iff split).mpr ⟨before, earlier, between, isFirst,
      decide_eq_true sameProposal, stays⟩
    have present := always (historyAfter checks due.payment.nProposalHash)
    rw [absent] at present
    cases present

/-- With all proposals recorded at the height no budget finds its payment
valid. -/
theorem anyOpens_recorded {vout : List CTxOut} {nBlockHeight : Int}
    {dues : List Due} {history : PaymentHistory}
    (inCycle : ∀ due ∈ dues, due.budget.covers nBlockHeight = true)
    (recorded : ∀ due ∈ dues,
      history due.payment.nProposalHash = some nBlockHeight) :
    anyOpens vout nBlockHeight dues history = false := by
  rw [← Bool.not_eq_true, anyOpens_iff]
  rintro ⟨first, due, later, rfl, _, absent⟩
  have here : due ∈ first ++ due :: later :=
    List.mem_append_right _ List.mem_cons_self
  unfold entryAfter at absent
  rw [recorded due here, passes_kept fun other member =>
      inCycle other (List.mem_append_left _ member),
    Option.filter_some_pos (inCycle due here)] at absent
  cases absent

/-- The verdict on a block is the one of a fresh node after all checks if and
only if the budgets are not asked, the block stands without a budget payment,
or no budget payment can be open. -/
theorem payee_verdict_repeatable_iff (rules : PayeeRules)
    (manager : CBudgetManager) (vout : List CTxOut) (nBlockHeight : Int) :
    (∀ checks,
      (isBlockPayeeValid rules manager vout nBlockHeight
          (historyAfter checks)).1 =
        (isBlockPayeeValid rules manager vout nBlockHeight
          (historyAfter [])).1) ↔
      (asksBudgets rules manager nBlockHeight = true →
        standsAlone rules manager vout nBlockHeight = true ∨
          Noted vout (manager.dues vout nBlockHeight)) := by
  cases asks : asksBudgets rules manager nBlockHeight with
  | false =>
      refine iff_of_true ?_ nofun
      exact fun checks => verdict_unasked asks vout _ _
  | true =>
      rw [forall_prop_of_true rfl, ← never_opens_iff fun _ => asked_covers]
      simp only [verdict_eq asks]
      cases standsAlone rules manager vout nBlockHeight with
      | true =>
          simp only [Bool.or_true, implies_true, true_or]
      | false =>
          simp only [Bool.or_false, Bool.false_eq_true, false_or]
          constructor
          · intro same
            have closed : anyOpens vout nBlockHeight
                (manager.dues vout nBlockHeight)
                (historyAfter (((manager.dues vout nBlockHeight).map
                  (·.payment.nProposalHash)).map
                    (paymentCheck nBlockHeight))) = false := by
              refine anyOpens_recorded (fun _ => asked_covers) ?_
              intro due member
              rw [historyAfter_payments]
              exact if_pos (List.mem_map_of_mem member)
            rw [same] at closed
            exact fun checks => (same checks).trans closed
          · intro never checks
            rw [never, never]

/-- A superblock that pays its proposal and no masternode, at height 1000. -/
def superblockCheck : PayeeCheck :=
  ⟨⟨true, true, true, true, false⟩,
    ⟨[⟨1000, [⟨7, [118], 50⟩], 1⟩], 10⟩, [⟨50, [118]⟩], 1000⟩

/-- The superblock is accepted by a fresh node, but not a second time. -/
theorem second_check_differs :
    ¬ ∀ checks,
      (isBlockPayeeValid superblockCheck.rules superblockCheck.manager
          superblockCheck.vout superblockCheck.nBlockHeight
          (historyAfter checks)).1 =
        (isBlockPayeeValid superblockCheck.rules superblockCheck.manager
          superblockCheck.vout superblockCheck.nBlockHeight
          (historyAfter [])).1 := by
  intro same
  exact absurd (same [superblockCheck]) (by decide)

end PrivateDatagram.Validation.BudgetPayments
