import PrivateDatagram.Governance.WinnerVotes
import PrivateDatagram.Validation.RepeatedPayments
import PrivateDatagram.Wire.Script

/-!
# Payments of a node's own blocks

`FillBlockPayee` completes the transaction of a new block that pays, and
`IsBlockPayeeValid` checks it.  A masternode that is filled in is always
accepted.  A budget is filled in by its votes alone, but checked against the
payment history and against the other budgets.
-/

namespace PrivateDatagram.Validation.OwnPayments

open Governance.WinnerVotes BudgetPayments Wire.Transaction

/-- `MNPAYMENTS_SIGNATURES_REQUIRED`. -/
def mnpaymentsSignaturesRequired : Int := 6

/-! ## The state of a node -/

structure Node where
  /-- The height of the tip. -/
  nHeight : Int
  /-- `masternodeSync.IsSynced()`. -/
  isSynced : Bool
  /-- `SPORK_13_ENABLE_SUPERBLOCKS`. -/
  superblocks : Bool
  /-- `SPORK_9_MASTERNODE_BUDGET_ENFORCEMENT`. -/
  budgetEnforcement : Bool
  /-- `SPORK_8_MASTERNODE_PAYMENT_ENFORCEMENT`. -/
  paymentEnforcement : Bool
  manager : CBudgetManager
  history : PaymentHistory
  mapMasternodeBlocks : Int → Option CMasternodeBlockPayees
  /-- `AddWinningMasternode` stores the payees under their height. -/
  named : ∀ nBlockHeight blockPayees,
    mapMasternodeBlocks nBlockHeight = some blockPayees →
      blockPayees.nBlockHeight = nBlockHeight
  /-- The script of `mnodeman.GetCurrentMasterNode(1)`. -/
  currentMasterNode : Option CScript
  getBlockValue : Int → Int64
  /-- The network is `CBaseChainParams::TESTNET`. -/
  testnet : Bool

/-- The height of the next block. -/
def Node.next (node : Node) : Int := node.nHeight + 1

/-- `GetMasternodePayment`; it does not use `isZPIVStake`. -/
def Node.getMasternodePayment (node : Node) (nHeight : Int)
    (blockValue : Int64) : Int64 :=
  if node.testnet && nHeight < 200 then
    0
  else if nHeight = 0 then
    0
  else
    blockValue - blockValue / 5

/-! ## Masternode payments -/

/-- The loop of `CMasternodeBlockPayees::GetPayee`. -/
def getPayee : List CMasternodePayee → Int → Option CScript → Option CScript
  | [], _, payee => payee
  | p :: payees, nVotes, payee =>
      if p.nVotes > nVotes then
        getPayee payees p.nVotes (some p.scriptPubKey)
      else
        getPayee payees nVotes payee

def Node.getBlockPayee (node : Node) (nBlockHeight : Int) : Option CScript :=
  match node.mapMasternodeBlocks nBlockHeight with
  | none => none
  | some blockPayees => getPayee blockPayees.vecPayments (-1) none

def nMaxSignatures (payees : List CMasternodePayee) : Int :=
  payees.foldl (fun most payee =>
    if payee.nVotes ≥ most ∧ payee.nVotes ≥ mnpaymentsSignaturesRequired then
      payee.nVotes
    else
      most) 0

/-- An output pays the payee. -/
def paysPayee (required : Int64) (payee : CMasternodePayee) (out : CTxOut) :
    Bool :=
  payee.scriptPubKey = out.scriptPubKey ∧ required ≤ out.nValue

/-- `CMasternodeBlockPayees::IsTransactionValid`. -/
def Node.payeesValid (node : Node) (blockPayees : CMasternodeBlockPayees)
    (vout : List CTxOut) : Bool :=
  let required := node.getMasternodePayment blockPayees.nBlockHeight
    (node.getBlockValue blockPayees.nBlockHeight)
  if nMaxSignatures blockPayees.vecPayments <
      mnpaymentsSignaturesRequired then
    true
  else
    blockPayees.vecPayments.any fun payee =>
      payee.nVotes ≥ mnpaymentsSignaturesRequired &&
        vout.any (paysPayee required payee)

/-- `CMasternodePayments::IsTransactionValid`. -/
def Node.masternodePaid (node : Node) (vout : List CTxOut)
    (nBlockHeight : Int) : Bool :=
  match node.mapMasternodeBlocks nBlockHeight with
  | none => true
  | some blockPayees => node.payeesValid blockPayees vout

/-- The stake reward without the masternode's part, unless it is a mint. -/
def withoutPayment (payment : Int64) (payeeOut : CTxOut)
    (vout : List CTxOut) : List CTxOut :=
  if ((vout ++ [payeeOut])[1]?).any
      fun out => Wire.Script.isZerocoinMint out.scriptPubKey then
    vout
  else
    vout.modify (vout.length - 1) fun out =>
      { out with nValue := out.nValue - payment }

/-- The first output of a coinbase, with the value.  A new output has an
empty script. -/
def reward (value : Int64) (vout : List CTxOut) : CTxOut :=
  ⟨value, (vout.head?.map (·.scriptPubKey)).getD []⟩

/-- `CMasternodePayments::FillBlockPayee`, on the outputs. -/
def Node.fillMasternode (node : Node) (fProofOfStake : Bool)
    (vout : List CTxOut) : List CTxOut :=
  let payee := match node.getBlockPayee node.next with
    | some payee => some payee
    | none => node.currentMasterNode
  let blockValue := node.getBlockValue node.next
  let payment := node.getMasternodePayment node.next blockValue
  match payee with
  | some payee =>
      if fProofOfStake then
        withoutPayment payment ⟨payment, payee⟩ vout ++ [⟨payment, payee⟩]
      else
        [reward (blockValue - payment) vout, ⟨payment, payee⟩]
  | none =>
      if fProofOfStake then
        vout
      else
        reward (blockValue - payment) vout :: vout.tail

/-! ## Budget payments -/

def CFinalizedBudget.getPayeeAndAmount (budget : CFinalizedBudget)
    (nBlockHeight : Int) : Option CTxBudgetPayment :=
  let i := nBlockHeight - budget.nBlockStart
  if i < 0 then
    none
  else if i > budget.vecBudgetPayments.length - 1 then
    none
  else
    budget.vecBudgetPayments[i.toNat]?

/-- The loop that grabs the highest count, with the payment it finds. -/
def grabHighest (nBlockHeight : Int) :
    List CFinalizedBudget → Int → Option CTxBudgetPayment →
      Option CTxBudgetPayment
  | [], _, found => found
  | budget :: budgets, nHighestCount, found =>
      match CFinalizedBudget.getPayeeAndAmount budget nBlockHeight with
      | some payment =>
          if budget.nVoteCount > nHighestCount ∧
              budget.covers nBlockHeight then
            grabHighest nBlockHeight budgets budget.nVoteCount (some payment)
          else
            grabHighest nBlockHeight budgets nHighestCount found
      | none => grabHighest nBlockHeight budgets nHighestCount found

/-- The budget payment that is filled in. -/
def Node.topPayment (node : Node) : Option CTxBudgetPayment :=
  grabHighest node.next node.manager.mapFinalizedBudgets 0 none

def CTxBudgetPayment.out (payment : CTxBudgetPayment) : CTxOut :=
  ⟨payment.nAmount, payment.payee⟩

/-- The outputs before that of the budget payment.  A coinbase has the value
of the last block. -/
def Node.ownOutputs (node : Node) (fProofOfStake : Bool)
    (vout : List CTxOut) : List CTxOut :=
  if fProofOfStake then
    vout
  else
    [reward (node.getBlockValue node.nHeight) vout]

/-- `CBudgetManager::FillBlockPayee`, on the outputs. -/
def Node.fillBudget (node : Node) (fProofOfStake : Bool)
    (vout : List CTxOut) : List CTxOut :=
  match node.topPayment with
  | some payment =>
      node.ownOutputs fProofOfStake vout ++ [CTxBudgetPayment.out payment]
  | none =>
      if fProofOfStake then
        vout
      else
        reward (node.getBlockValue node.nHeight) vout :: vout.tail

/-! ## Filling and checking -/

def Node.fillBlockPayee (node : Node) (fProofOfStake : Bool)
    (vout : List CTxOut) : List CTxOut :=
  if node.superblocks && node.manager.isBudgetPaymentBlock node.next then
    node.fillBudget fProofOfStake vout
  else
    node.fillMasternode fProofOfStake vout

def Node.rules (node : Node) (vout : List CTxOut) : PayeeRules :=
  ⟨node.isSynced, node.superblocks, node.budgetEnforcement,
    node.paymentEnforcement, node.masternodePaid vout node.next⟩

/-- `IsBlockPayeeValid` for the next height. -/
def Node.accepts (node : Node) (vout : List CTxOut) : Bool :=
  (isBlockPayeeValid (node.rules vout) node.manager vout node.next
    node.history).1

/-! ## Masternodes -/

/-- `GetPayee` finds a payee with the most votes. -/
theorem getPayee_cases (payees : List CMasternodePayee) (nVotes : Int)
    (payee : Option CScript) :
    (getPayee payees nVotes payee = payee ∧
      ∀ p ∈ payees, p.nVotes ≤ nVotes) ∨
    ∃ most ∈ payees,
      getPayee payees nVotes payee = some most.scriptPubKey ∧
        nVotes < most.nVotes ∧ ∀ p ∈ payees, p.nVotes ≤ most.nVotes := by
  induction payees generalizing nVotes payee with
  | nil => exact .inl ⟨rfl, nofun⟩
  | cons p payees ih =>
      simp only [List.forall_mem_cons]
      rw [getPayee]
      by_cases more : p.nVotes > nVotes
      · rw [if_pos more]
        rcases ih p.nVotes (some p.scriptPubKey) with
          ⟨found, all⟩ | ⟨most, isMost, found, above, all⟩
        · exact .inr ⟨p, List.mem_cons_self, found, more, Int.le_refl _, all⟩
        · exact .inr ⟨most, List.mem_cons_of_mem _ isMost, found, by omega,
            by omega, all⟩
      · rw [if_neg more]
        rcases ih nVotes payee with
          ⟨found, all⟩ | ⟨most, isMost, found, above, all⟩
        · exact .inl ⟨found, by omega, all⟩
        · exact .inr ⟨most, List.mem_cons_of_mem _ isMost, found, above,
            by omega, all⟩

/-- A payee has the signatures that are counted. -/
theorem exists_of_nMaxSignatures {payees : List CMasternodePayee}
    (signed : ¬ nMaxSignatures payees < mnpaymentsSignaturesRequired) :
    ∃ p ∈ payees, p.nVotes ≥ mnpaymentsSignaturesRequired := by
  by_contra few
  push Not at few
  refine signed ?_
  have zero : ∀ most < mnpaymentsSignaturesRequired,
      payees.foldl (fun most payee =>
        if payee.nVotes ≥ most ∧
            payee.nVotes ≥ mnpaymentsSignaturesRequired then
          payee.nVotes
        else
          most) most < mnpaymentsSignaturesRequired := by
    clear signed
    induction payees with
    | nil => exact fun most low => low
    | cons p payees ih =>
        intro most low
        rw [List.forall_mem_cons] at few
        rw [List.foldl_cons, if_neg fun both => by omega]
        exact ih few.2 most low
  exact zero 0 (by decide)

/-- The payee with the most votes of the next block. -/
theorem getBlockPayee_most {node : Node} {blockPayees : CMasternodeBlockPayees}
    (found : node.mapMasternodeBlocks node.next = some blockPayees)
    {voted : CMasternodePayee} (member : voted ∈ blockPayees.vecPayments)
    (votes : voted.nVotes ≥ mnpaymentsSignaturesRequired) :
    ∃ most ∈ blockPayees.vecPayments,
      node.getBlockPayee node.next = some most.scriptPubKey ∧
        most.nVotes ≥ mnpaymentsSignaturesRequired := by
  unfold mnpaymentsSignaturesRequired at votes ⊢
  unfold Node.getBlockPayee
  rw [found]
  rcases getPayee_cases blockPayees.vecPayments (-1) none with
    ⟨_, all⟩ | ⟨most, isMost, isPayee, _, all⟩
  · have few := all voted member
    omega
  · have atMost := all voted member
    exact ⟨most, isMost, isPayee, by omega⟩

/-- A masternode that is filled in has its payment. -/
theorem fillMasternode_pays {node : Node} {payee : CScript}
    (found : node.getBlockPayee node.next = some payee) (fProofOfStake : Bool)
    (vout : List CTxOut) :
    ⟨node.getMasternodePayment node.next (node.getBlockValue node.next),
      payee⟩ ∈ node.fillMasternode fProofOfStake vout := by
  unfold Node.fillMasternode
  rw [found]
  cases fProofOfStake with
  | true => exact List.mem_append_right _ (List.mem_singleton_self _)
  | false => exact List.mem_cons_of_mem _ (List.mem_singleton_self _)

theorem fillMasternode_paid (node : Node) (fProofOfStake : Bool)
    (vout : List CTxOut) :
    node.masternodePaid (node.fillMasternode fProofOfStake vout) node.next =
      true := by
  unfold Node.masternodePaid
  cases found : node.mapMasternodeBlocks node.next with
  | none => rfl
  | some blockPayees =>
      unfold Node.payeesValid
      dsimp only
      rw [node.named node.next blockPayees found]
      split_ifs
      case pos => rfl
      case neg signed =>
        obtain ⟨voted, member, votes⟩ := exists_of_nMaxSignatures signed
        obtain ⟨most, isMost, isPayee, enough⟩ :=
          getBlockPayee_most found member votes
        rw [List.any_eq_true]
        refine ⟨most, isMost, ?_⟩
        rw [Bool.and_eq_true, decide_eq_true_iff, List.any_eq_true]
        refine ⟨enough, _, fillMasternode_pays isPayee fProofOfStake vout, ?_⟩
        exact decide_eq_true ⟨rfl, Int64.le_refl _⟩

/-! ## Budgets -/

theorem getPayeeAndAmount_covered {budget : CFinalizedBudget}
    {nBlockHeight : Int} (covers : budget.covers nBlockHeight = true) :
    ∃ payment,
      CFinalizedBudget.getPayeeAndAmount budget nBlockHeight =
        some payment := by
  have bounds := of_decide_eq_true covers
  unfold CFinalizedBudget.getBlockEnd at bounds
  unfold CFinalizedBudget.getPayeeAndAmount
  dsimp only
  rw [if_neg (by omega), if_neg (by omega)]
  exact ⟨_, List.getElem?_eq_getElem (by omega)⟩

/-- A payment is found when a budget has votes for the height. -/
theorem grabHighest_isSome {nBlockHeight : Int}
    {budgets : List CFinalizedBudget} {nHighestCount : Int}
    {found : Option CTxBudgetPayment}
    (votes : found.isSome = true ∨ ∃ budget ∈ budgets,
      budget.nVoteCount > nHighestCount ∧
        budget.covers nBlockHeight = true) :
    (grabHighest nBlockHeight budgets nHighestCount found).isSome := by
  induction budgets generalizing nHighestCount found with
  | nil =>
      rcases votes with before | ⟨_, impossible, _⟩
      · exact before
      · cases impossible
  | cons budget budgets ih =>
      have later : ¬ (budget.nVoteCount > nHighestCount ∧
          budget.covers nBlockHeight = true) →
          found.isSome = true ∨ ∃ budget ∈ budgets,
            budget.nVoteCount > nHighestCount ∧
              budget.covers nBlockHeight = true := by
        refine fun skipped => votes.imp_right ?_
        rintro ⟨other, member, counted⟩
        rcases List.mem_cons.mp member with rfl | here
        · exact absurd counted skipped
        · exact ⟨other, here, counted⟩
      rw [grabHighest]
      by_cases counted : budget.nVoteCount > nHighestCount ∧
          budget.covers nBlockHeight = true
      · obtain ⟨payment, isPayment⟩ := getPayeeAndAmount_covered counted.2
        rw [isPayment]
        dsimp only
        rw [if_pos counted]
        exact ih (.inl rfl)
      · cases CFinalizedBudget.getPayeeAndAmount budget nBlockHeight with
        | none => exact ih (later counted)
        | some payment =>
            dsimp only
            rw [if_neg counted]
            exact ih (later counted)

theorem nHighestCount_cases (manager : CBudgetManager)
    (least nBlockHeight : Int) :
    manager.nHighestCount least nBlockHeight = least ∨
      ∃ budget ∈ manager.mapFinalizedBudgets,
        budget.nVoteCount = manager.nHighestCount least nBlockHeight ∧
          budget.covers nBlockHeight = true := by
  unfold CBudgetManager.nHighestCount
  generalize manager.mapFinalizedBudgets = budgets
  induction budgets generalizing least with
  | nil => exact .inl rfl
  | cons budget budgets ih =>
      rw [List.foldl_cons]
      split_ifs
      case pos counted =>
        rcases ih budget.nVoteCount with same | ⟨other, member, found⟩
        · exact .inr ⟨budget, List.mem_cons_self, same.symm, counted.2⟩
        · exact .inr ⟨other, List.mem_cons_of_mem _ member, found⟩
      case neg =>
        refine (ih least).imp_right ?_
        rintro ⟨other, member, found⟩
        exact ⟨other, List.mem_cons_of_mem _ member, found⟩

theorem topPayment_isSome {node : Node}
    (paymentBlock : node.manager.isBudgetPaymentBlock node.next = true) :
    ∃ payment, node.topPayment = some payment := by
  have high := of_decide_eq_true paymentBlock
  refine Option.isSome_iff_exists.mp (grabHighest_isSome (.inr ?_))
  rcases nHighestCount_cases node.manager (-1) node.next with
    none | ⟨budget, member, votes, covers⟩
  · omega
  · exact ⟨budget, member, by omega, covers⟩

/-! ## Acceptance -/

/-- A budget that is asked finds its payment made by one output, and its
proposal unpaid, as the history is when it is asked. -/
def Node.OpenPayment (node : Node) (vout : List CTxOut) : Prop :=
  ∃ first due later, node.manager.dues vout node.next = first ++ due :: later ∧
    due.madeOnce vout = true ∧
      (entryAfter node.next due.payment.nProposalHash first
        (node.history due.payment.nProposalHash)).filter
          due.budget.covers = none

/-- The outputs of a block that pays the top payment. -/
def Node.withTop (node : Node) (fProofOfStake : Bool) (vout : List CTxOut)
    (payment : CTxBudgetPayment) : List CTxOut :=
  node.ownOutputs fProofOfStake vout ++ [CTxBudgetPayment.out payment]

/-- The top payment is one that the check finds, or can do without. -/
def Node.AcceptsTop (node : Node) (fProofOfStake : Bool) (vout : List CTxOut)
    (payment : CTxBudgetPayment) : Prop :=
  let outputs := node.withTop fProofOfStake vout payment
  node.OpenPayment outputs ∨
    standsAlone (node.rules outputs) node.manager outputs node.next = true

/-- The next block is checked for a budget payment. -/
def Node.asksBudgets (node : Node) : Bool :=
  node.isSynced && node.superblocks &&
    node.manager.isBudgetPaymentBlock node.next

/-- A node accepts its own block if and only if the block is not checked for
a budget payment, or the check accepts the budget payment with the most
votes. -/
theorem own_block_accepted_iff (node : Node) (fProofOfStake : Bool)
    (vout : List CTxOut) :
    node.accepts (node.fillBlockPayee fProofOfStake vout) = true ↔
      (node.asksBudgets = true →
        ∃ payment, node.topPayment = some payment ∧
          node.AcceptsTop fProofOfStake vout payment) := by
  have sameAsks : ∀ outputs, asksBudgets (node.rules outputs) node.manager
      node.next = node.asksBudgets := fun _ => rfl
  unfold Node.accepts Node.fillBlockPayee
  cases asks : node.asksBudgets with
  | true =>
      have superblock := asks
      unfold Node.asksBudgets at superblock
      rw [Bool.and_assoc, Bool.and_eq_true_iff] at superblock
      obtain ⟨payment, isTop⟩ := topPayment_isSome
        (Bool.and_eq_true_iff.mp superblock.2).2
      have filled : node.fillBudget fProofOfStake vout =
          node.withTop fProofOfStake vout payment := by
        unfold Node.fillBudget
        rw [isTop]
        rfl
      rw [if_pos superblock.2, filled, verdict_eq ((sameAsks _).trans asks),
        Bool.or_eq_true, anyOpens_iff, forall_prop_of_true rfl, isTop]
      constructor
      · exact fun accepted => ⟨payment, rfl, accepted⟩
      · rintro ⟨other, isOther, accepted⟩
        cases isOther
        exact accepted
  | false =>
      refine iff_of_true ?_ nofun
      rw [isBlockPayeeValid_unasked ((sameAsks _).trans asks)]
      unfold Node.asksBudgets at asks
      unfold Node.rules
      dsimp only
      cases synced : node.isSynced with
      | false => rfl
      | true =>
          rw [synced, Bool.true_and] at asks
          rw [asks, if_neg Bool.false_ne_true, fillMasternode_paid]
          rfl

/-- A synced node at height 999 with one finalized budget for the next block,
whose proposal is in the history, and a masternode with six votes. -/
def paidNode (history : PaymentHistory) : Node where
  nHeight := 999
  isSynced := true
  superblocks := true
  budgetEnforcement := true
  paymentEnforcement := true
  manager := ⟨[⟨1000, [⟨7, [118], 50⟩], 1⟩], 10⟩
  history := history
  mapMasternodeBlocks := fun nBlockHeight =>
    some ⟨nBlockHeight, [⟨[119], 6⟩]⟩
  named := by
    rintro nBlockHeight _ ⟨⟩
    rfl
  currentMasterNode := none
  getBlockValue := fun _ => 100
  testnet := false

example : (paidNode fun _ => none).accepts
    ((paidNode fun _ => none).fillBlockPayee false [⟨0, [120]⟩]) = true := by
  decide

/-- The budget payment of a coinbase is not accepted when its proposal has
been paid in another block of the height. -/
theorem own_superblock_refused :
    ¬ ∀ (node : Node) (fProofOfStake : Bool) (vout : List CTxOut),
      node.accepts (node.fillBlockPayee fProofOfStake vout) = true := by
  intro accepted
  have refused := accepted (paidNode fun proposal =>
    if proposal = 7 then some 1000 else none) false [⟨0, [120]⟩]
  exact absurd refused (by decide)

end PrivateDatagram.Validation.OwnPayments
