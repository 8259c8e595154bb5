import Mathlib.Algebra.Order.Ring.Int
import Mathlib.Algebra.Order.BigOperators.Group.List
import PrivateDatagram.Governance.BudgetProposals
import PrivateDatagram.Validation.BudgetPayments

/-!
# Finalized budgets

A finalized budget comes from a peer, with a list of payments.  `IsValid`
compares the sum of the amounts with the budget of the superblock.  The sum is
one of 64 bits, and the single amounts are not looked at.
-/

namespace PrivateDatagram.Governance.FinalizedBudgets

open Wire.Serialize Chainstate.Coins
open Validation.BudgetPayments (CTxBudgetPayment)
open BudgetProposals

structure CFinalizedBudget where
  strBudgetName : String
  nBlockStart : Int32
  vecBudgetPayments : List CTxBudgetPayment
  nFeeTXHash : UInt256
  nTime : Int64
deriving DecidableEq, Repr

structure Surroundings where
  /-- The height of `chainActive.Tip()`. -/
  tip : Option Int32
  findProposal : UInt256 → Option CBudgetProposal
  isBudgetCollateralValid : CFinalizedBudget → CollateralCheck

namespace CFinalizedBudget

/-- `GetBlockEnd`; without payments it is the block before the first. -/
def getBlockEnd (budget : CFinalizedBudget) : Int32 :=
  budget.nBlockStart + Int32.ofInt (budget.vecBudgetPayments.length - 1)

def getTotalPayout (budget : CFinalizedBudget) : Int64 :=
  budget.vecBudgetPayments.foldl (fun ret payment => ret + payment.nAmount) 0

/-- `GetProposals`: the names of the proposals, or their hashes. -/
def getProposals (around : Surroundings) (budget : CFinalizedBudget) :
    String :=
  budget.vecBudgetPayments.foldl (fun ret payment =>
    let token := match around.findProposal payment.nProposalHash with
      | some proposal => proposal.strProposalName
      | none => payment.nProposalHash.toHex
    if ret = "" then token else ret ++ "," ++ token) ""

/-- The answer of `IsValid`, the error it leaves and the budget, whose time
the check of the collateral can set. -/
structure Verdict where
  valid : Bool
  strError : String
  budget : CFinalizedBudget

def isValid (params : CChainParams) (around : Surroundings)
    (strError : String) (fCheckCollateral : Bool)
    (budget : CFinalizedBudget) : Verdict :=
  let cycle := getBudgetPaymentCycleBlocks params
  let text := "Budget " ++ budget.strBudgetName ++ " (" ++
    budget.getProposals around ++ ")"
  if budget.nBlockStart % cycle ≠ 0 then
    ⟨false, "Invalid BlockStart", budget⟩
  else if budget.getBlockEnd - budget.nBlockStart > 100 then
    ⟨false, "Invalid BlockEnd", budget⟩
  else if Int32.ofInt budget.vecBudgetPayments.length > 100 then
    ⟨false, "Invalid budget payments count (too many)", budget⟩
  else if budget.strBudgetName = "" then
    ⟨false, "Invalid Budget Name", budget⟩
  else if budget.nBlockStart = 0 then
    ⟨false, text ++ " Invalid BlockStart == 0", budget⟩
  else if budget.nFeeTXHash = 0 then
    ⟨false, text ++ " Invalid FeeTx == 0", budget⟩
  else if budget.getTotalPayout >
      getTotalBudget params around.tip budget.nBlockStart then
    ⟨false, text ++ " Invalid Payout (more than max)", budget⟩
  else
    let checked := if fCheckCollateral then
        around.isBudgetCollateralValid budget
      else
        ⟨true, "", none⟩
    let budget := { budget with nTime := checked.nTime.getD budget.nTime }
    if !checked.valid then
      ⟨false, text ++ " Invalid Collateral : " ++ checked.strError, budget⟩
    else
      match around.tip with
      | none => ⟨true, strError, budget⟩
      | some nCurrentHeight =>
          let nBlockStart := nCurrentHeight - nCurrentHeight % cycle + cycle
          let nMaxAge := nBlockStart - 2 * cycle
          if budget.getBlockEnd < nMaxAge then
            ⟨false, text ++ " (ends at block " ++
              toString budget.getBlockEnd ++ ") too old and obsolete", budget⟩
          else
            ⟨true, strError, budget⟩

/-! ## The payout -/

/-- The sum of the amounts, without a bound. -/
def payout (budget : CFinalizedBudget) : Int :=
  (budget.vecBudgetPayments.map fun payment => payment.nAmount.toInt).sum

/-- What a finalized budget may pay. -/
structure Within (total : Int64) (budget : CFinalizedBudget) : Prop where
  amounts : ∀ payment ∈ budget.vecBudgetPayments,
    0 < payment.nAmount.toInt ∧ payment.nAmount.toInt ≤ total.toInt
  sum : 0 < budget.payout ∧ budget.payout ≤ total.toInt

/-- What `IsValid` does not look at. -/
structure Addable (budget : CFinalizedBudget) : Prop where
  some : budget.vecBudgetPayments ≠ []
  positive : ∀ payment ∈ budget.vecBudgetPayments, 0 < payment.nAmount.toInt
  fits : budget.payout < 2 ^ 63

theorem toInt_foldl (payments : List CTxBudgetPayment) (ret : Int64) :
    (payments.foldl (fun ret payment => ret + payment.nAmount) ret).toInt =
      (ret.toInt + (payments.map fun payment =>
        payment.nAmount.toInt).sum).bmod (2 ^ 64) := by
  induction payments generalizing ret with
  | nil =>
      rw [List.foldl_nil, List.map_nil, List.sum_nil, Int.add_zero]
      have low := ret.le_toInt
      have high := ret.toInt_lt
      exact (Int.bmod_eq_of_le (by omega) (by omega)).symm
  | cons payment payments ih =>
      rw [List.foldl_cons, ih, Int64.toInt_add, Int.bmod_add_bmod,
        List.map_cons, List.sum_cons, Int.add_assoc]

/-- The payout of the code is the sum, on 64 bits. -/
theorem toInt_getTotalPayout (budget : CFinalizedBudget) :
    budget.getTotalPayout.toInt = budget.payout.bmod (2 ^ 64) := by
  unfold getTotalPayout payout
  rw [toInt_foldl, Int64.toInt_zero, Int.zero_add]

/-- Of the checks, the one that is about amounts. -/
theorem getTotalPayout_le_of_isValid {params : CChainParams}
    {around : Surroundings} {strError : String} {fCheckCollateral : Bool}
    {budget : CFinalizedBudget}
    (accepted : (budget.isValid params around strError
      fCheckCollateral).valid = true) :
    budget.getTotalPayout ≤
      getTotalBudget params around.tip budget.nBlockStart := by
  by_contra more
  have refused : budget.getTotalPayout >
      getTotalBudget params around.tip budget.nBlockStart :=
    Int64.not_le.mp more
  unfold isValid at accepted
  dsimp only at accepted
  rw [if_pos refused] at accepted
  split_ifs at accepted

/-- A payment is at most the sum of all. -/
theorem le_payout {budget : CFinalizedBudget}
    (positive : ∀ payment ∈ budget.vecBudgetPayments,
      0 < payment.nAmount.toInt)
    {payment : CTxBudgetPayment}
    (isPayment : payment ∈ budget.vecBudgetPayments) :
    payment.nAmount.toInt ≤ budget.payout := by
  apply List.single_le_sum
  · intro amount isAmount
    rcases List.mem_map.mp isAmount with ⟨other, isOther, rfl⟩
    exact (positive other isOther).le
  · exact List.mem_map_of_mem isPayment

theorem payout_pos {budget : CFinalizedBudget}
    (positive : ∀ payment ∈ budget.vecBudgetPayments,
      0 < payment.nAmount.toInt)
    (some : budget.vecBudgetPayments ≠ []) : 0 < budget.payout := by
  rcases List.exists_mem_of_ne_nil _ some with ⟨payment, isPayment⟩
  exact (positive payment isPayment).trans_le (le_payout positive isPayment)

/--
An accepted budget pays within the total exactly when it has payments, each of
them positive, and their sum is within the range of an amount.
-/
theorem within_iff {params : CChainParams} {around : Surroundings}
    {strError : String} {fCheckCollateral : Bool} {budget : CFinalizedBudget}
    (accepted : (budget.isValid params around strError
      fCheckCollateral).valid = true) :
    budget.Within (getTotalBudget params around.tip budget.nBlockStart) ↔
      budget.Addable := by
  have bounded := getTotalPayout_le_of_isValid accepted
  rw [Int64.le_iff_toInt_le, toInt_getTotalPayout] at bounded
  constructor
  · intro within
    refine ⟨?_, fun payment isPayment =>
      (within.amounts payment isPayment).1, ?_⟩
    · intro isEmpty
      have positive := within.sum.1
      rw [payout, isEmpty] at positive
      exact absurd positive (by decide)
    · exact within.sum.2.trans_lt (Int64.toInt_lt _)
  · rintro ⟨some, positive, fits⟩
    have above := payout_pos positive some
    rw [Int.bmod_eq_of_le (by omega) (by omega)] at bounded
    refine ⟨fun payment isPayment => ⟨positive payment isPayment, ?_⟩,
      above, bounded⟩
    exact (le_payout positive isPayment).trans bounded

end CFinalizedBudget

/-- A node at height 100, which finds every collateral. -/
def nodeAtHundred : Surroundings where
  tip := some 100
  findProposal := fun _ => none
  isBudgetCollateralValid := fun _ => ⟨true, "", none⟩

/-- A budget for the first superblock of the main network. -/
def budgetOf (amounts : List Int64) : CFinalizedBudget where
  strBudgetName := "main"
  nBlockStart := 43200
  vecBudgetPayments := amounts.map fun nAmount => ⟨7, [], nAmount⟩
  nFeeTXHash := 9
  nTime := 0

/-- Two payments, of 500 and of 100 coins. -/
theorem twoPayments_within :
    ((budgetOf [50000000000, 10000000000]).isValid mainParams nodeAtHundred ""
      true).valid = true ∧
      ((budgetOf [50000000000, 10000000000]).Within
          (getTotalBudget mainParams (some 100) 43200) ↔
        (budgetOf [50000000000, 10000000000]).Addable) := by
  have accepted : ((budgetOf [50000000000, 10000000000]).isValid mainParams
      nodeAtHundred "" true).valid = true := by decide
  exact ⟨accepted, CFinalizedBudget.within_iff accepted⟩

/-- Two payments of fifty thousand million coins each, which add up to less
than nothing. -/
theorem largePayments_accepted :
    ((budgetOf [5000000000000000000, 5000000000000000000]).isValid mainParams
      nodeAtHundred "" true).valid = true ∧
      (budgetOf [5000000000000000000, 5000000000000000000]).getTotalPayout =
        -8446744073709551616 ∧
      getTotalBudget mainParams (some 100) 43200 = 64800000000000 ∧
      ¬ (budgetOf [5000000000000000000, 5000000000000000000]).Within
        (getTotalBudget mainParams (some 100) 43200) := by
  refine ⟨by decide, by decide, by decide, fun within => ?_⟩
  exact absurd within.sum.2 (by decide)

end PrivateDatagram.Governance.FinalizedBudgets
