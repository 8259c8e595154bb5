import Mathlib.Algebra.Order.Ring.Int
import PrivateDatagram.Library.Picking
import PrivateDatagram.Library.Rationing
import PrivateDatagram.Governance.BudgetProposals

/-!
# Budget allotment

`GetBudget` sorts the proposals by their votes and gives the budget of the
next superblock to those that pass a first check, as long as it lasts.  What a
proposal gets is written into the proposal, for all that pass the first check.
A proposal that does not pass it keeps the allotment of an earlier call.
-/

namespace PrivateDatagram.Governance.BudgetProposals

open Library.Picking Library.Rationing Wire.Serialize Chainstate.Coins

/-! ## The proposals of the manager -/

/-- `mapProposals`. -/
@[ext]
structure ProposalMap where
  entries : List (UInt256 × CBudgetProposal)
  distinct : (entries.map Prod.fst).Nodup

/-- The map with its proposals changed in place. -/
def ProposalMap.update
    (change : UInt256 → CBudgetProposal → CBudgetProposal)
    (mapProposals : ProposalMap) : ProposalMap where
  entries := mapProposals.entries.map fun entry =>
    (entry.1, change entry.1 entry.2)
  distinct := by
    rw [List.map_map]
    exact mapProposals.distinct

def ProposalMap.cleanAndRemove (around : Surroundings)
    (mapProposals : ProposalMap) : ProposalMap :=
  mapProposals.update fun _ proposal => proposal.cleanAndRemove around

/-- `SetAllotted(GetAmount())`, for the proposal of a key. -/
def ProposalMap.allotAmount (key : UInt256) (mapProposals : ProposalMap) :
    ProposalMap :=
  mapProposals.update fun other proposal =>
    if other = key then { proposal with nAlloted := proposal.nAmount }
    else proposal

/-- `SetAllotted(0)`. -/
def ProposalMap.allotNothing (key : UInt256) (mapProposals : ProposalMap) :
    ProposalMap :=
  mapProposals.update fun other proposal =>
    if other = key then { proposal with nAlloted := 0 } else proposal

/-! ## `GetBudget` -/

/-- An element of `vBudgetPorposalsSort`; the key stands for the pointer. -/
structure Candidate where
  key : UInt256
  proposal : CBudgetProposal
  votes : Int
deriving DecidableEq

def sortProposalsByVotes (left right : Candidate) : Bool :=
  if left.votes ≠ right.votes then left.votes > right.votes
  else left.proposal.nFeeTXHash > right.proposal.nFeeTXHash

def candidates (mapProposals : ProposalMap) : List Candidate :=
  mapProposals.entries.map fun entry =>
    ⟨entry.1, entry.2, entry.2.getYeas - entry.2.getNays⟩

/-- The first check. -/
def CBudgetProposal.eligible (params : CChainParams) (around : Surroundings)
    (period : Period) (proposal : CBudgetProposal) : Bool :=
  proposal.fValid && proposal.inPeriod period &&
    proposal.getYeas - proposal.getNays > (around.countEnabled / 10 : Nat) &&
    proposal.isEstablished params around

/-- The variables of the loop. -/
structure Grants where
  nBudgetAllocated : Int64
  mapProposals : ProposalMap
  vBudgetProposalsRet : List Candidate

def allot (params : CChainParams) (around : Surroundings) (period : Period)
    (nTotalBudget : Int64) (grants : Grants) (candidate : Candidate) :
    Grants :=
  if candidate.proposal.eligible params around period then
    if candidate.proposal.nAmount + grants.nBudgetAllocated ≤ nTotalBudget then
      { nBudgetAllocated :=
          grants.nBudgetAllocated + candidate.proposal.nAmount
        mapProposals := grants.mapProposals.allotAmount candidate.key
        vBudgetProposalsRet := grants.vBudgetProposalsRet ++ [candidate] }
    else
      { grants with
        mapProposals := grants.mapProposals.allotNothing candidate.key }
  else
    grants

/-- `GetBudget`: the proposals that it leaves and those that it returns, with
their votes. -/
def getBudget (params : CChainParams) (around : Surroundings)
    (sortBy : SortBy sortProposalsByVotes) (mapProposals : ProposalMap) :
    ProposalMap × List Candidate :=
  let mapProposals := mapProposals.cleanAndRemove around
  let vBudgetPorposalsSort := sortBy.sort (candidates mapProposals)
  match around.tip with
  | none => (mapProposals, [])
  | some nHeight =>
      let period := nextPeriod (getBudgetPaymentCycleBlocks params) nHeight
      let nTotalBudget := getTotalBudget params around.tip period.nBlockStart
      let grants := vBudgetPorposalsSort.foldl
        (allot params around period nTotalBudget) ⟨0, mapProposals, []⟩
      (grants.mapProposals, grants.vBudgetProposalsRet)

/-! ## Amounts -/

/-- The largest total budget of a superblock. -/
def mostBudget : Int := 64800000000000

/-- An amount that some superblock can pay. -/
def Payable (nAmount : Int64) : Prop :=
  0 ≤ nAmount.toInt ∧ nAmount.toInt ≤ mostBudget

instance (nAmount : Int64) : Decidable (Payable nAmount) :=
  inferInstanceAs (Decidable (_ ∧ _))

theorem ite_both {α : Type} {P : α → Prop} {condition : Prop}
    [Decidable condition] {yes no : α} (onYes : P yes) (onNo : P no) :
    P (if condition then yes else no) := by
  by_cases holds : condition
  · rwa [if_pos holds]
  · rwa [if_neg holds]

theorem getTotalBudget_payable (params : CChainParams) (tip : Option Int32)
    (nHeight : Int32) : Payable (getTotalBudget params tip nHeight) := by
  unfold getTotalBudget
  refine ite_both (by decide) (ite_both (by decide) (ite_both (by decide) ?_))
  -- The subsidy is the budget of a block, ten times over.
  iterate 11 refine ite_both (P := fun nSubsidy : Int64 =>
    Payable (nSubsidy / 100 * 10 * 1440 * 30)) (by decide) ?_
  decide

theorem passed_of_valid {condition : Prop} [Decidable condition]
    {refused next : CBudgetProposal.Verdict}
    (valid : (if condition then refused else next).valid = true)
    (isRefused : refused.valid = false) :
    ¬ condition ∧ next.valid = true := by
  by_cases holds : condition
  · rw [if_pos holds, isRefused] at valid
    cases valid
  · rw [if_neg holds] at valid
    exact ⟨holds, valid⟩

/-- Proposals that `IsValid` has accepted at some time. -/
def CBudgetProposal.Accepted (proposal : CBudgetProposal) : Prop :=
  ∃ params around strError fCheckCollateral,
    (proposal.isValid params around strError fCheckCollateral).valid = true

theorem CBudgetProposal.Accepted.payable {proposal : CBudgetProposal}
    (accepted : proposal.Accepted) : Payable proposal.nAmount := by
  rcases accepted with ⟨params, around, strError, fCheckCollateral, valid⟩
  unfold CBudgetProposal.isValid at valid
  obtain ⟨_, valid⟩ := passed_of_valid valid rfl
  obtain ⟨_, valid⟩ := passed_of_valid valid rfl
  obtain ⟨_, valid⟩ := passed_of_valid valid rfl
  obtain ⟨enough, valid⟩ := passed_of_valid valid rfl
  obtain ⟨_, valid⟩ := passed_of_valid valid rfl
  obtain ⟨_, valid⟩ := passed_of_valid valid rfl
  obtain ⟨_, valid⟩ := passed_of_valid valid rfl
  obtain ⟨bounded, valid⟩ := passed_of_valid valid rfl
  have ten : (10 * coin).toInt = 1000000000 := by decide
  rw [Int64.not_lt, Int64.le_iff_toInt_le, ten] at enough
  rw [gt_iff_lt, Int64.not_lt, Int64.le_iff_toInt_le] at bounded
  have most := (getTotalBudget_payable params around.tip
    proposal.nBlockStart).2
  exact ⟨by omega, bounded.trans most⟩

/-- Two amounts of which one is at most a total budget. -/
theorem toInt_add_payable {a b : Int64} (payable : Payable a)
    (other : Payable b) : (a + b).toInt = a.toInt + b.toInt := by
  unfold Payable mostBudget at payable other
  rw [Int64.toInt_add]
  exact Int.bmod_eq_of_le (by omega) (by omega)

/-! ## The loop -/

section Loop

variable {params : CChainParams} {around : Surroundings} {period : Period}
  {nTotalBudget : Int64}

/-- What a candidate asks for. -/
def Candidate.amount (candidate : Candidate) : Int :=
  candidate.proposal.nAmount.toInt

/-- The candidates that pass the first check. -/
def asking (params : CChainParams) (around : Surroundings) (period : Period)
    (sorted : List Candidate) : List Candidate :=
  sorted.filter fun candidate =>
    candidate.proposal.eligible params around period

/-- What the loop makes of a proposal. -/
def settle (asked granted : List Candidate) (key : UInt256)
    (proposal : CBudgetProposal) : CBudgetProposal :=
  if key ∈ asked.map Candidate.key then
    { proposal with nAlloted :=
        if key ∈ granted.map Candidate.key then proposal.nAmount else 0 }
  else
    proposal

theorem ProposalMap.update_update (mapProposals : ProposalMap)
    (change later : UInt256 → CBudgetProposal → CBudgetProposal) :
    (mapProposals.update change).update later =
      mapProposals.update fun key proposal =>
        later key (change key proposal) := by
  ext1
  simp only [ProposalMap.update, List.map_map]
  rfl

theorem ProposalMap.update_self (mapProposals : ProposalMap) :
    (mapProposals.update fun _ proposal => proposal) = mapProposals := by
  ext1
  simp [ProposalMap.update]

theorem settle_nil :
    settle [] [] = fun _ proposal => proposal := by
  funext key proposal
  simp [settle]

/-- A candidate that is granted comes first. -/
theorem settle_grant {asked granted : List Candidate} {candidate : Candidate}
    (fresh : candidate.key ∉ asked.map Candidate.key)
    (key : UInt256) (proposal : CBudgetProposal) :
    settle asked granted key
        (if key = candidate.key then
          { proposal with nAlloted := proposal.nAmount } else proposal) =
      settle (candidate :: asked) (candidate :: granted) key proposal := by
  unfold settle
  by_cases same : key = candidate.key
  · simp [same, fresh]
  · simp [same]

/-- A candidate that is passed over comes first. -/
theorem settle_pass {asked granted : List Candidate} {candidate : Candidate}
    (fresh : candidate.key ∉ asked.map Candidate.key)
    (missing : candidate.key ∉ granted.map Candidate.key)
    (key : UInt256) (proposal : CBudgetProposal) :
    settle asked granted key
        (if key = candidate.key then { proposal with nAlloted := 0 }
          else proposal) =
      settle (candidate :: asked) granted key proposal := by
  unfold settle
  by_cases same : key = candidate.key
  · simp [same, fresh, missing]
  · simp [same]

theorem allot_ineligible {grants : Grants} {candidate : Candidate}
    (fails : ¬ candidate.proposal.eligible params around period = true) :
    allot params around period nTotalBudget grants candidate = grants := by
  rw [allot, if_neg fails]

theorem allot_fits {grants : Grants} {candidate : Candidate}
    (asks : candidate.proposal.eligible params around period = true)
    (fits : candidate.proposal.nAmount + grants.nBudgetAllocated ≤
      nTotalBudget) :
    allot params around period nTotalBudget grants candidate =
      ⟨grants.nBudgetAllocated + candidate.proposal.nAmount,
        grants.mapProposals.allotAmount candidate.key,
        grants.vBudgetProposalsRet ++ [candidate]⟩ := by
  rw [allot, if_pos asks, if_pos fits]

theorem allot_misses {grants : Grants} {candidate : Candidate}
    (asks : candidate.proposal.eligible params around period = true)
    (misses : ¬ candidate.proposal.nAmount + grants.nBudgetAllocated ≤
      nTotalBudget) :
    allot params around period nTotalBudget grants candidate =
      { grants with
        mapProposals := grants.mapProposals.allotNothing candidate.key } := by
  rw [allot, if_pos asks, if_neg misses]

/-- The loop is a rationing of the total budget. -/
theorem foldl_allot {sorted : List Candidate} {grants : Grants}
    (payable : ∀ candidate ∈ sorted, Payable candidate.proposal.nAmount)
    (distinct : (sorted.map Candidate.key).Nodup)
    (total : Payable nTotalBudget)
    (given : 0 ≤ grants.nBudgetAllocated.toInt ∧
      grants.nBudgetAllocated.toInt ≤ nTotalBudget.toInt) :
    let granted := grant Candidate.amount nTotalBudget.toInt
      grants.nBudgetAllocated.toInt (asking params around period sorted)
    (sorted.foldl (allot params around period nTotalBudget)
        grants).mapProposals =
        grants.mapProposals.update
          (settle (asking params around period sorted) granted) ∧
      (sorted.foldl (allot params around period nTotalBudget)
        grants).vBudgetProposalsRet =
          grants.vBudgetProposalsRet ++ granted := by
  induction sorted generalizing grants with
  | nil =>
      simp only [asking, List.filter_nil, grant, settle_nil,
        ProposalMap.update_self, List.foldl_nil, List.append_nil, and_self]
  | cons candidate rest ih =>
      have payableRest : ∀ other ∈ rest, Payable other.proposal.nAmount :=
        fun other here => payable other (List.mem_cons_of_mem _ here)
      have amount := payable candidate List.mem_cons_self
      rw [List.map_cons, List.nodup_cons] at distinct
      rw [List.foldl_cons]
      by_cases asks : candidate.proposal.eligible params around period = true
      case neg =>
        have listed : asking params around period (candidate :: rest) =
            asking params around period rest :=
          List.filter_cons_of_neg asks
        rw [allot_ineligible asks, listed]
        exact ih payableRest distinct.2 given
      have listed : asking params around period (candidate :: rest) =
          candidate :: asking params around period rest :=
        List.filter_cons_of_pos asks
      have fresh : candidate.key ∉
          (asking params around period rest).map Candidate.key :=
        fun here => distinct.1 ((List.filter_sublist.map _).subset here)
      have sum : (candidate.proposal.nAmount + grants.nBudgetAllocated).toInt =
          grants.nBudgetAllocated.toInt + candidate.amount := by
        rw [toInt_add_payable amount ⟨given.1, given.2.trans total.2⟩,
          Int.add_comm]
        rfl
      by_cases fits : candidate.proposal.nAmount + grants.nBudgetAllocated ≤
          nTotalBudget
      · have room := Int64.le_iff_toInt_le.mp fits
        rw [sum] at room
        rw [Int64.add_comm] at sum
        have step := @ih ⟨grants.nBudgetAllocated +
            candidate.proposal.nAmount,
            grants.mapProposals.allotAmount candidate.key,
            grants.vBudgetProposalsRet ++ [candidate]⟩ payableRest
          distinct.2 (by
            dsimp only
            rw [sum]
            exact ⟨Int.add_nonneg given.1 amount.1, room⟩)
        dsimp only at step ⊢
        rw [allot_fits asks fits, listed, grant_fits room, step.1, step.2, sum]
        refine ⟨?_, ?_⟩
        · rw [ProposalMap.allotAmount, ProposalMap.update_update]
          simp only [settle_grant fresh]
        · rw [List.append_assoc, List.singleton_append]
      · have misses : ¬ grants.nBudgetAllocated.toInt + candidate.amount ≤
            nTotalBudget.toInt := by
          rw [← sum]
          exact fun room => fits (Int64.le_iff_toInt_le.mpr room)
        have step := @ih { grants with mapProposals :=
          grants.mapProposals.allotNothing candidate.key } payableRest
            distinct.2 given
        dsimp only at step ⊢
        rw [allot_misses asks fits, listed, grant_misses misses, step.1,
          step.2]
        refine ⟨?_, rfl⟩
        rw [ProposalMap.allotNothing, ProposalMap.update_update]
        have missing : candidate.key ∉ (grant Candidate.amount
            nTotalBudget.toInt grants.nBudgetAllocated.toInt
            (asking params around period rest)).map Candidate.key :=
          fun here => fresh (((grant_sublist _ _).map _).subset here)
        simp only [settle_pass fresh missing]

end Loop

/-! ## The whole function -/

/-- `GetTotalBudget` of the next superblock. -/
def nextTotalBudget (params : CChainParams) (around : Surroundings) : Int64 :=
  match around.tip with
  | none => 0
  | some nHeight => getTotalBudget params around.tip
      (nextPeriod (getBudgetPaymentCycleBlocks params) nHeight).nBlockStart

/-- The first check for the next superblock, which fails without a tip. -/
def CBudgetProposal.eligibleNext (params : CChainParams)
    (around : Surroundings) (proposal : CBudgetProposal) : Bool :=
  match around.tip with
  | none => false
  | some nHeight => proposal.eligible params around
      (nextPeriod (getBudgetPaymentCycleBlocks params) nHeight)

section GetBudget

variable (params : CChainParams) (around : Surroundings)
  (sortBy : SortBy sortProposalsByVotes) (mapProposals : ProposalMap)

/-- The candidates in the order in which they have their turn. -/
def turns : List Candidate :=
  sortBy.sort (candidates (mapProposals.cleanAndRemove around))

def askingNext : List Candidate :=
  (turns around sortBy mapProposals).filter fun candidate =>
    candidate.proposal.eligibleNext params around

def grantedNext : List Candidate :=
  grant Candidate.amount (nextTotalBudget params around).toInt 0
    (askingNext params around sortBy mapProposals)

variable {params around sortBy mapProposals}

theorem mem_candidates {candidate : Candidate} :
    candidate ∈ candidates mapProposals ↔
      (candidate.key, candidate.proposal) ∈ mapProposals.entries ∧
        candidate.votes =
          candidate.proposal.getYeas - candidate.proposal.getNays := by
  unfold candidates
  rw [List.mem_map]
  constructor
  · rintro ⟨entry, here, rfl⟩
    exact ⟨here, rfl⟩
  · rintro ⟨here, votes⟩
    refine ⟨_, here, ?_⟩
    rw [← votes]

theorem turns_perm :
    (turns around sortBy mapProposals).Perm
      (candidates (mapProposals.cleanAndRemove around)) :=
  sortBy.perm _

theorem turns_distinct :
    ((turns around sortBy mapProposals).map Candidate.key).Nodup := by
  apply (turns_perm.map Candidate.key).nodup_iff.mpr
  unfold candidates
  rw [List.map_map]
  exact (mapProposals.cleanAndRemove around).distinct

/-- Two candidates of a key are one. -/
theorem turns_unique {candidate other : Candidate}
    (here : candidate ∈ turns around sortBy mapProposals)
    (there : other ∈ turns around sortBy mapProposals)
    (same : candidate.key = other.key) : candidate = other :=
  List.inj_on_of_nodup_map turns_distinct here there same

theorem turns_payable
    (valid : ∀ entry ∈ mapProposals.entries, entry.2.Accepted) :
    ∀ candidate ∈ turns around sortBy mapProposals,
      Payable candidate.proposal.nAmount := by
  intro candidate here
  have entry := (mem_candidates.mp (turns_perm.mem_iff.mp here)).1
  rcases List.mem_map.mp entry with ⟨before, isEntry, same⟩
  rw [Prod.mk.injEq] at same
  rw [← same.2]
  exact (valid before isEntry).payable

theorem nextTotalBudget_payable : Payable (nextTotalBudget params around) := by
  unfold nextTotalBudget
  split
  case h_1 => decide
  case h_2 => exact getTotalBudget_payable _ _ _

/-- What the loop leaves and returns, with or without a tip. -/
theorem getBudget_eq
    (valid : ∀ entry ∈ mapProposals.entries, entry.2.Accepted) :
    getBudget params around sortBy mapProposals =
      ((mapProposals.cleanAndRemove around).update
          (settle (askingNext params around sortBy mapProposals)
            (grantedNext params around sortBy mapProposals)),
        grantedNext params around sortBy mapProposals) := by
  cases tip : around.tip with
  | none =>
      have none : askingNext params around sortBy mapProposals = [] := by
        unfold askingNext CBudgetProposal.eligibleNext
        rw [tip]
        exact List.filter_false _
      unfold getBudget grantedNext
      simp only [tip, none, grant, settle_nil, ProposalMap.update_self]
  | some nHeight =>
      have asks : askingNext params around sortBy mapProposals =
          asking params around
            (nextPeriod (getBudgetPaymentCycleBlocks params) nHeight)
            (turns around sortBy mapProposals) := by
        unfold askingNext CBudgetProposal.eligibleNext asking
        rw [tip]
      have total : nextTotalBudget params around =
          getTotalBudget params around.tip
            (nextPeriod (getBudgetPaymentCycleBlocks params)
              nHeight).nBlockStart := by
        unfold nextTotalBudget
        rw [tip]
      have payable : Payable (nextTotalBudget params around) :=
        nextTotalBudget_payable
      have loop := @foldl_allot params around
        (nextPeriod (getBudgetPaymentCycleBlocks params) nHeight)
        (nextTotalBudget params around) (turns around sortBy mapProposals)
        ⟨0, mapProposals.cleanAndRemove around, []⟩ (turns_payable valid)
        turns_distinct payable ⟨Int.le_refl 0, payable.1⟩
      dsimp only at loop
      rw [Int64.toInt_zero, List.nil_append, ← asks] at loop
      unfold getBudget
      simp only [tip]
      rw [← tip, ← total]
      exact Prod.ext loop.1 loop.2

/-! ### What is promised -/

variable (params around sortBy mapProposals) in
/-- What `GetBudget` is to leave and to return. -/
structure Allotted (result : ProposalMap × List Candidate) : Prop where
  listed : ∀ candidate ∈ result.2,
    candidate ∈ turns around sortBy mapProposals ∧
      candidate.proposal.eligibleNext params around = true
  amounts : ∀ entry ∈ result.1.entries,
    entry.2.nAlloted =
      if entry.1 ∈ result.2.map Candidate.key then entry.2.nAmount else 0
  ordered : result.2.Pairwise fun left right =>
    right.votes < left.votes ∨ right.votes = left.votes ∧
      right.proposal.nFeeTXHash ≤ left.proposal.nFeeTXHash
  /-- The candidates in front have left too little. -/
  noneSkipped : ∀ front candidate back,
    turns around sortBy mapProposals = front ++ candidate :: back →
      candidate.proposal.eligibleNext params around = true →
        candidate ∉ result.2 →
          (nextTotalBudget params around).toInt <
            (front.map fun other =>
              if other ∈ result.2 then other.amount else 0).sum +
                candidate.amount
  sum : (result.1.entries.map fun entry => entry.2.nAlloted.toInt).sum ≤
    (nextTotalBudget params around).toInt

theorem grantedNext_sublist :
    (grantedNext params around sortBy mapProposals).Sublist
      (turns around sortBy mapProposals) :=
  (grant_sublist _ _).trans List.filter_sublist

theorem not_sortProposalsByVotes {left right : Candidate}
    (notBefore : sortProposalsByVotes right left = false) :
    right.votes < left.votes ∨ right.votes = left.votes ∧
      right.proposal.nFeeTXHash ≤ left.proposal.nFeeTXHash := by
  unfold sortProposalsByVotes at notBefore
  split at notBefore
  case isTrue differ =>
    rw [decide_eq_false_iff_not, not_lt] at notBefore
    exact .inl (lt_of_le_of_ne notBefore differ)
  case isFalse same =>
    rw [decide_eq_false_iff_not] at notBefore
    exact .inr ⟨not_not.mp same, BitVec.not_lt.mp notBefore⟩

theorem grantedNext_ordered :
    (grantedNext params around sortBy mapProposals).Pairwise
      fun left right =>
        right.votes < left.votes ∨ right.votes = left.votes ∧
          right.proposal.nFeeTXHash ≤ left.proposal.nFeeTXHash := by
  have sorted := sortBy.sorted
    (candidates (mapProposals.cleanAndRemove around))
  exact (sorted.sublist grantedNext_sublist).imp not_sortProposalsByVotes

theorem grantedNext_noneSkipped {front back : List Candidate}
    {candidate : Candidate}
    (parts : turns around sortBy mapProposals = front ++ candidate :: back)
    (asks : candidate.proposal.eligibleNext params around = true)
    (skipped : candidate ∉ grantedNext params around sortBy mapProposals) :
    (nextTotalBudget params around).toInt <
      (front.map fun other =>
        if other ∈ grantedNext params around sortBy mapProposals then
          other.amount
        else
          0).sum + candidate.amount := by
  have distinct : (front ++ candidate :: back).Nodup := by
    rw [← parts]
    exact List.Nodup.of_map _ turns_distinct
  have asked : askingNext params around sortBy mapProposals =
      front.filter (fun other => other.proposal.eligibleNext params around) ++
        candidate :: back.filter fun other =>
          other.proposal.eligibleNext params around := by
    rw [askingNext, parts, List.filter_append]
    exact congrArg _ (List.filter_cons_of_pos asks)
  unfold grantedNext at *
  rw [asked] at skipped ⊢
  have misses := misses_of_not_granted skipped
  rw [Int.zero_add, not_le] at misses
  have part : (grant Candidate.amount (nextTotalBudget params around).toInt 0
      (front.filter fun other =>
        other.proposal.eligibleNext params around)).Sublist front :=
    (grant_sublist _ _).trans List.filter_sublist
  rw [← sum_counted part (List.nodup_append.mp distinct).1] at misses
  refine lt_of_lt_of_eq misses ?_
  congr 2
  apply List.map_congr_left
  intro other isFront
  -- What is granted behind the candidates in front is not one of them.
  have behind : other ∉ grant Candidate.amount
      (nextTotalBudget params around).toInt
      (0 + taken Candidate.amount (grant Candidate.amount
        (nextTotalBudget params around).toInt 0 (front.filter fun other =>
          other.proposal.eligibleNext params around)))
      (candidate :: back.filter fun other =>
        other.proposal.eligibleNext params around) := by
    intro here
    have listed : other ∈ candidate :: back :=
      (List.filter_sublist.cons_cons candidate).subset
        ((grant_sublist _ _).subset here)
    exact (List.nodup_append.mp distinct).2.2 other isFront other listed rfl
  refine if_congr ?_ rfl rfl
  rw [grant_append, List.mem_append, or_iff_left behind]

theorem mem_grantedNext_keys {candidate : Candidate}
    (here : candidate ∈ turns around sortBy mapProposals) :
    candidate.key ∈
        (grantedNext params around sortBy mapProposals).map Candidate.key ↔
      candidate ∈ grantedNext params around sortBy mapProposals := by
  constructor
  · intro listed
    rcases List.mem_map.mp listed with ⟨other, granted, same⟩
    rwa [← turns_unique (grantedNext_sublist.subset granted) here same]
  · exact List.mem_map_of_mem

/-- What the proposals that are returned ask for, as a sum over all. -/
theorem sum_amounts :
    ((mapProposals.cleanAndRemove around).entries.map fun entry =>
        if entry.1 ∈
            (grantedNext params around sortBy mapProposals).map Candidate.key
        then entry.2.nAmount.toInt else 0).sum =
      taken Candidate.amount
        (grantedNext params around sortBy mapProposals) := by
  have distinct : (turns around sortBy mapProposals).Nodup :=
    List.Nodup.of_map _ turns_distinct
  calc
    _ = ((candidates (mapProposals.cleanAndRemove around)).map
          fun candidate =>
            if candidate.key ∈ (grantedNext params around sortBy
              mapProposals).map Candidate.key
            then candidate.amount else 0).sum := by
        unfold candidates
        rw [List.map_map]
        rfl
    _ = ((turns around sortBy mapProposals).map fun candidate =>
            if candidate.key ∈ (grantedNext params around sortBy
              mapProposals).map Candidate.key
            then candidate.amount else 0).sum :=
        (turns_perm.map _).sum_eq.symm
    _ = ((turns around sortBy mapProposals).map fun candidate =>
            if candidate ∈ grantedNext params around sortBy mapProposals
            then candidate.amount else 0).sum := by
        congr 1
        apply List.map_congr_left
        intro candidate here
        exact if_congr (mem_grantedNext_keys here) rfl rfl
    _ = _ := sum_counted grantedNext_sublist distinct

theorem settle_nAmount (asked granted : List Candidate) (key : UInt256)
    (proposal : CBudgetProposal) :
    (settle asked granted key proposal).nAmount = proposal.nAmount := by
  unfold settle
  split <;> rfl

/-- What is allotted, when it is allotted to those that are returned. -/
theorem sum_allotted {after : ProposalMap}
    (left : after = (mapProposals.cleanAndRemove around).update
      (settle (askingNext params around sortBy mapProposals)
        (grantedNext params around sortBy mapProposals)))
    (amounts : ∀ entry ∈ after.entries, entry.2.nAlloted =
      if entry.1 ∈
          (grantedNext params around sortBy mapProposals).map Candidate.key
      then entry.2.nAmount else 0) :
    (after.entries.map fun entry => entry.2.nAlloted.toInt).sum ≤
      (nextTotalBudget params around).toInt := by
  have allotted : (after.entries.map fun entry => entry.2.nAlloted.toInt) =
      (mapProposals.cleanAndRemove around).entries.map fun entry =>
        if entry.1 ∈
            (grantedNext params around sortBy mapProposals).map Candidate.key
        then entry.2.nAmount.toInt else 0 := by
    rw [List.map_congr_left fun entry here =>
      congrArg Int64.toInt (amounts entry here), left]
    simp only [ProposalMap.update, List.map_map, Function.comp_def,
      settle_nAmount, apply_ite Int64.toInt, Int64.toInt_zero]
  rw [allotted, sum_amounts]
  have payable : Payable (nextTotalBudget params around) :=
    nextTotalBudget_payable
  have bounded : 0 + taken Candidate.amount
      (grantedNext params around sortBy mapProposals) ≤
        (nextTotalBudget params around).toInt :=
    taken_grant_le payable.1 _
  rwa [Int.zero_add] at bounded

/-! ### The exact condition -/

/-- A proposal of the map has its turn. -/
theorem exists_turn {entry : UInt256 × CBudgetProposal}
    (here : entry ∈ (mapProposals.cleanAndRemove around).entries) :
    ∃ candidate ∈ turns around sortBy mapProposals,
      candidate.key = entry.1 ∧ candidate.proposal = entry.2 := by
  refine ⟨⟨entry.1, entry.2, entry.2.getYeas - entry.2.getNays⟩, ?_, rfl, rfl⟩
  exact turns_perm.mem_iff.mpr (mem_candidates.mpr ⟨here, rfl⟩)

theorem mem_askingNext_keys {entry : UInt256 × CBudgetProposal}
    (here : entry ∈ (mapProposals.cleanAndRemove around).entries) :
    entry.1 ∈
        (askingNext params around sortBy mapProposals).map Candidate.key ↔
      entry.2.eligibleNext params around = true := by
  obtain ⟨candidate, turn, key, proposal⟩ :
      ∃ candidate ∈ turns around sortBy mapProposals,
        candidate.key = entry.1 ∧ candidate.proposal = entry.2 :=
    exists_turn here
  rw [← key, ← proposal]
  constructor
  · intro listed
    rcases List.mem_map.mp listed with ⟨other, asks, same⟩
    rcases List.mem_filter.mp asks with ⟨there, eligible⟩
    rwa [← turns_unique there turn same]
  · intro eligible
    exact List.mem_map_of_mem (List.mem_filter.mpr ⟨turn, eligible⟩)

theorem grantedNext_sublist_asking :
    (grantedNext params around sortBy mapProposals).Sublist
      (askingNext params around sortBy mapProposals) :=
  grant_sublist _ _

/-- A proposal that does not pass the first check is left alone. -/
theorem settle_ineligible {entry : UInt256 × CBudgetProposal}
    (here : entry ∈ (mapProposals.cleanAndRemove around).entries)
    (fails : entry.2.eligibleNext params around = false) :
    settle (askingNext params around sortBy mapProposals)
        (grantedNext params around sortBy mapProposals) entry.1 entry.2 =
        entry.2 ∧
      entry.1 ∉
        (grantedNext params around sortBy mapProposals).map
          Candidate.key := by
  have unasked : entry.1 ∉
      (askingNext params around sortBy mapProposals).map Candidate.key := by
    rw [mem_askingNext_keys here, fails]
    exact Bool.false_ne_true
  refine ⟨if_neg unasked, fun granted => unasked ?_⟩
  exact (grantedNext_sublist_asking.map _).subset granted

variable (params around mapProposals) in
/-- The proposals that do not pass the first check have nothing allotted. -/
def Cleared : Prop :=
  ∀ entry ∈ (mapProposals.cleanAndRemove around).entries,
    entry.2.eligibleNext params around = false → entry.2.nAlloted = 0

/--
`GetBudget` does what it is to do exactly when the proposals that do not pass
the first check had nothing allotted before.
-/
theorem getBudget_allotted_iff
    (valid : ∀ entry ∈ mapProposals.entries, entry.2.Accepted) :
    Allotted params around sortBy mapProposals
        (getBudget params around sortBy mapProposals) ↔
      Cleared params around mapProposals := by
  rw [getBudget_eq valid]
  constructor
  · intro allotted entry here fails
    obtain ⟨same, ungranted⟩ :=
      @settle_ineligible params around sortBy mapProposals entry here fails
    have left := allotted.amounts _ (List.mem_map_of_mem here)
    dsimp only at left
    rwa [same, if_neg ungranted] at left
  · intro cleared
    have amounts : ∀ entry ∈ ((mapProposals.cleanAndRemove around).update
        (settle (askingNext params around sortBy mapProposals)
          (grantedNext params around sortBy mapProposals))).entries,
        entry.2.nAlloted =
          if entry.1 ∈ (grantedNext params around sortBy
            mapProposals).map Candidate.key
          then entry.2.nAmount else 0 := by
      intro entry here
      rcases List.mem_map.mp here with ⟨before, wasHere, rfl⟩
      dsimp only
      cases asks : before.2.eligibleNext params around with
      | false =>
          obtain ⟨same, ungranted⟩ :=
            @settle_ineligible params around sortBy mapProposals before
              wasHere asks
          rw [same, if_neg ungranted]
          exact cleared before wasHere asks
      | true =>
          unfold settle
          rw [if_pos ((mem_askingNext_keys wasHere).mpr asks)]
    refine ⟨?_, amounts, grantedNext_ordered, ?_, sum_allotted rfl amounts⟩
    · intro candidate here
      exact List.mem_filter.mp (grantedNext_sublist_asking.subset here)
    · intro front candidate back parts asks skipped
      exact grantedNext_noneSkipped parts asks skipped

end GetBudget

/-! ## An earlier allotment -/

theorem notAfter_iff (left right : Candidate) :
    notAfter sortProposalsByVotes left right = true ↔
      right.votes < left.votes ∨ right.votes = left.votes ∧
        right.proposal.nFeeTXHash ≤ left.proposal.nFeeTXHash := by
  unfold notAfter
  rw [Bool.not_eq_true']
  refine ⟨not_sortProposalsByVotes, fun ordered => ?_⟩
  unfold sortProposalsByVotes
  split
  case isTrue differ =>
    rw [decide_eq_false_iff_not, not_lt]
    exact (ordered.resolve_right fun equal => differ equal.1).le
  case isFalse same =>
    rw [decide_eq_false_iff_not]
    refine BitVec.not_lt.mpr (ordered.resolve_left fun less => ?_).2
    exact less.ne (not_not.mp same)

/-- One of the sorts that the comparator allows, a stable one. -/
def stableSort : SortBy sortProposalsByVotes :=
  SortBy.merge sortProposalsByVotes
    (by
      intro left middle right first second
      rw [notAfter_iff] at *
      rcases first with less | ⟨same, fee⟩
      · rcases second with lessAgain | ⟨sameAgain, _⟩
        · exact .inl (lessAgain.trans less)
        · exact .inl (sameAgain ▸ less)
      · rcases second with less | ⟨sameAgain, feeAgain⟩
        · exact .inl (same ▸ less)
        · exact .inr ⟨sameAgain.trans same, BitVec.le_trans feeAgain fee⟩)
    (by
      intro left right
      rw [Bool.or_eq_true, notAfter_iff, notAfter_iff]
      rcases lt_trichotomy left.votes right.votes with less | same | more
      · exact .inr (.inl less)
      · rcases BitVec.le_total left.proposal.nFeeTXHash
          right.proposal.nFeeTXHash with fee | fee
        · exact .inr (.inr ⟨same, fee⟩)
        · exact .inl (.inr ⟨same.symm, fee⟩)
      · exact .inl (.inl more))

/-- A proposal for one payment of fifty coins, which it got at block 43200. -/
def paidProposal (nAlloted : Int64) : CBudgetProposal :=
  .broadcast 43200 "paid" 1 [0x51] 5000000000 43200 7 nAlloted

def nodeAt (nHeight : Int32) : Surroundings where
  tip := some nHeight
  countEnabled := 0
  find := fun _ => false
  getTime := 1000000
  isBudgetCollateralValid := fun _ => ⟨true, "", none⟩

def onlyProposal (proposal : CBudgetProposal) : ProposalMap where
  entries := [(1, proposal)]
  distinct := List.nodup_singleton _

/-- A proposal with nothing allotted, after its only superblock. -/
theorem unpaidProposal_allotted_iff :
    Allotted mainParams (nodeAt 50000) stableSort
        (onlyProposal (paidProposal 0))
        (getBudget mainParams (nodeAt 50000) stableSort
          (onlyProposal (paidProposal 0))) ↔
      Cleared mainParams (nodeAt 50000) (onlyProposal (paidProposal 0)) :=
  getBudget_allotted_iff fun entry here => by
    rw [List.mem_singleton.mp here]
    exact ⟨mainParams, nodeAt 100, "", true, by decide⟩

/-- The same with the allotment of an earlier call, which stays. -/
theorem paidProposal_kept :
    (paidProposal 5000000000).Accepted ∧
      ¬ Allotted mainParams (nodeAt 50000) stableSort
        (onlyProposal (paidProposal 5000000000))
        (getBudget mainParams (nodeAt 50000) stableSort
          (onlyProposal (paidProposal 5000000000))) := by
  have accepted : (paidProposal 5000000000).Accepted :=
    ⟨mainParams, nodeAt 100, "", true, by decide⟩
  refine ⟨accepted, fun allotted => ?_⟩
  have valid : ∀ entry ∈ (onlyProposal (paidProposal 5000000000)).entries,
      entry.2.Accepted := by
    intro entry here
    rw [List.mem_singleton.mp here]
    exact accepted
  rw [getBudget_eq valid] at allotted
  have here : ((1 : UInt256), paidProposal 5000000000) ∈
      ((onlyProposal (paidProposal 5000000000)).cleanAndRemove
        (nodeAt 50000)).entries := List.mem_singleton.mpr rfl
  have fails : (paidProposal 5000000000).eligibleNext mainParams
      (nodeAt 50000) = false := by decide
  obtain ⟨same, ungranted⟩ := @settle_ineligible mainParams (nodeAt 50000)
    stableSort _ (1, paidProposal 5000000000) here fails
  have left := allotted.amounts _ (List.mem_map_of_mem here)
  dsimp only at left same ungranted
  rw [same, if_neg ungranted] at left
  exact absurd left (by decide)

end PrivateDatagram.Governance.BudgetProposals
