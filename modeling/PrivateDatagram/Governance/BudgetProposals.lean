import PrivateDatagram.Consensus.ChainParams
import PrivateDatagram.Wire.Script

/-!
# Budget proposals

A proposal asks for an amount in each of a number of superblocks.  Its first
and last block are `int`s, and so is what is computed from them: the cycle of
the network, the payments in all and those that are left.  `GetBudget` takes a
proposal into the next superblock when its blocks enclose the cycle that the
superblock begins.
-/

namespace PrivateDatagram.Governance.BudgetProposals

open Wire.Serialize Wire.Transaction Wire.Script Chainstate.Coins
open Consensus.ChainParams (Network)

/-! ## Parameters -/

structure CChainParams where
  networkID : Network
  lastPowBlock : Int32
  zerocoinBlockV2Start : Int32
deriving DecidableEq, Repr

def mainParams : CChainParams := ⟨.main, 300, 20⟩

def getBudgetPaymentCycleBlocks (params : CChainParams) : Int32 :=
  Consensus.ChainParams.getBudgetPaymentCycleBlocks params.networkID

/-! ## Proposals -/

def voteYes : Int32 := 1

def voteNo : Int32 := 2

structure CBudgetVote where
  vin : CTxIn
  nVote : Int32
  fValid : Bool
deriving DecidableEq, Repr

structure CBudgetProposal where
  nAlloted : Int64
  fValid : Bool
  strProposalName : String
  nBlockStart : Int32
  nBlockEnd : Int32
  nAmount : Int64
  address : CScript
  nTime : Int64
  nFeeTXHash : UInt256
  /-- The votes of `mapVotes`, in the order of their keys. -/
  mapVotes : List CBudgetVote
deriving DecidableEq, Repr

/-- What `IsBudgetCollateralValid` answers, and what it sets. -/
structure CollateralCheck where
  valid : Bool
  /-- The error of a check that fails. -/
  strError : String
  nTime : Option Int64

/-- What a proposal is checked against. -/
structure Surroundings where
  /-- The height of `chainActive.Tip()`. -/
  tip : Option Int32
  /-- `mnodeman.CountEnabled`. -/
  countEnabled : Nat
  /-- Whether `mnodeman.Find` knows the masternode. -/
  find : CTxIn → Bool
  getTime : Int64
  isBudgetCollateralValid : CBudgetProposal → CollateralCheck

/-- `CBudgetManager::GetTotalBudget`. -/
def getTotalBudget (params : CChainParams) (tip : Option Int32)
    (nHeight : Int32) : Int64 :=
  if tip.isNone then
    0
  else if params.networkID = .testnet then
    500 * coin / 100 * 10 * 146
  else
    let nSubsidy : Int64 :=
      if nHeight ≤ params.lastPowBlock ∧ nHeight ≥ 151200 then 50 * coin
      else if nHeight ≤ 302399 ∧ nHeight > params.lastPowBlock then 50 * coin
      else if nHeight ≤ 345599 ∧ nHeight ≥ 302400 then 45 * coin
      else if nHeight ≤ 388799 ∧ nHeight ≥ 345600 then 40 * coin
      else if nHeight ≤ 431999 ∧ nHeight ≥ 388800 then 35 * coin
      else if nHeight ≤ 475199 ∧ nHeight ≥ 432000 then 30 * coin
      else if nHeight ≤ 518399 ∧ nHeight ≥ 475200 then 25 * coin
      else if nHeight ≤ 561599 ∧ nHeight ≥ 518400 then 20 * coin
      else if nHeight ≤ 604799 ∧ nHeight ≥ 561600 then 15 * coin
      else if nHeight ≤ 647999 ∧ nHeight ≥ 604800 then 10 * coin
      else if nHeight ≥ params.zerocoinBlockV2Start then 10 * coin
      else 5 * coin
    if nHeight ≤ 172800 then 648000 * coin
    else nSubsidy / 100 * 10 * 1440 * 30

/-- The blocks of the cycle that follows a height. -/
structure Period where
  nBlockStart : Int32
  nBlockEnd : Int32

def nextPeriod (cycle nHeight : Int32) : Period :=
  let nBlockStart := nHeight - nHeight % cycle + cycle
  ⟨nBlockStart, nBlockStart + cycle - 1⟩

namespace CBudgetProposal

def getYeas (proposal : CBudgetProposal) : Int :=
  proposal.mapVotes.countP fun vote => vote.nVote = voteYes && vote.fValid

def getNays (proposal : CBudgetProposal) : Int :=
  proposal.mapVotes.countP fun vote => vote.nVote = voteNo && vote.fValid

/-- `CleanAndRemove(false)`: signatures are not checked. -/
def cleanAndRemove (around : Surroundings) (proposal : CBudgetProposal) :
    CBudgetProposal :=
  { proposal with mapVotes := proposal.mapVotes.map fun vote =>
      { vote with fValid := around.find vote.vin } }

def isEstablished (params : CChainParams) (around : Surroundings)
    (proposal : CBudgetProposal) : Bool :=
  if params.networkID = .main then
    proposal.nTime < around.getTime - 60 * 60 * 24
  else
    proposal.nTime < around.getTime - 60 * 5

def getBlockStartCycle (cycle : Int32) (proposal : CBudgetProposal) : Int32 :=
  proposal.nBlockStart - proposal.nBlockStart % cycle

def getBlockEndCycle (proposal : CBudgetProposal) : Int32 :=
  proposal.nBlockEnd

def getBlockCurrentCycle (cycle : Int32) (tip : Option Int32)
    (proposal : CBudgetProposal) : Int32 :=
  match tip with
  | none => -1
  | some nHeight =>
      if nHeight ≥ proposal.getBlockEndCycle then -1
      else nHeight - nHeight % cycle

def getTotalPaymentCount (cycle : Int32) (proposal : CBudgetProposal) :
    Int32 :=
  (proposal.getBlockEndCycle - proposal.getBlockStartCycle cycle) / cycle

def getRemainingPaymentCount (cycle : Int32) (tip : Option Int32)
    (proposal : CBudgetProposal) : Int32 :=
  let nPayments := (proposal.getBlockEndCycle -
    proposal.getBlockCurrentCycle cycle tip) / cycle - 1
  if proposal.getTotalPaymentCount cycle < nPayments then
    proposal.getTotalPaymentCount cycle
  else
    nPayments

/-- The part of the first check of `GetBudget` that is about blocks. -/
def inPeriod (proposal : CBudgetProposal) (period : Period) : Bool :=
  proposal.nBlockStart ≤ period.nBlockStart &&
    proposal.nBlockEnd ≥ period.nBlockEnd

/-- The constructor of `CBudgetProposalBroadcast`, which leaves `nAlloted` as
it is in memory. -/
def broadcast (cycle : Int32) (strProposalName : String)
    (nPaymentCount : Int32) (address : CScript) (nAmount : Int64)
    (nBlockStart : Int32) (nFeeTXHash : UInt256) (nAlloted : Int64) :
    CBudgetProposal :=
  let nCycleStart := nBlockStart - nBlockStart % cycle
  { nAlloted := nAlloted
    fValid := true
    strProposalName := strProposalName
    nBlockStart := nBlockStart
    nBlockEnd := nCycleStart + (cycle + 1) * nPaymentCount
    nAmount := nAmount
    address := address
    nTime := 0
    nFeeTXHash := nFeeTXHash
    mapVotes := [] }

/-- The answer of `IsValid`, the error it leaves and the proposal, whose time
the check of the collateral can set. -/
structure Verdict where
  valid : Bool
  strError : String
  proposal : CBudgetProposal

def isValid (params : CChainParams) (around : Surroundings)
    (strError : String) (fCheckCollateral : Bool)
    (proposal : CBudgetProposal) : Verdict :=
  let text := "Proposal " ++ proposal.strProposalName
  if proposal.getNays - proposal.getYeas > (around.countEnabled / 10 : Nat)
  then
    ⟨false, text ++ ": Active removal", proposal⟩
  else if proposal.nBlockStart < 0 then
    ⟨false, "Invalid Proposal", proposal⟩
  else if proposal.nBlockEnd < proposal.nBlockStart then
    ⟨false, text ++ ": Invalid nBlockEnd (end before start)", proposal⟩
  else if proposal.nAmount < 10 * coin then
    ⟨false, text ++ ": Invalid nAmount", proposal⟩
  else if proposal.address = [] then
    ⟨false, text ++ ": Invalid Payment Address", proposal⟩
  else
    let checked := if fCheckCollateral then
        around.isBudgetCollateralValid proposal
      else
        ⟨true, "", none⟩
    let proposal :=
      { proposal with nTime := checked.nTime.getD proposal.nTime }
    if !checked.valid then
      ⟨false, text ++ ": Invalid collateral", proposal⟩
    else if isPayToScriptHash proposal.address then
      ⟨false, text ++ ": Multisig is not currently supported.", proposal⟩
    else if proposal.nAmount >
        getTotalBudget params around.tip proposal.nBlockStart then
      ⟨false, text ++ ": Payment more than max", proposal⟩
    else
      match around.tip with
      | none => ⟨true, text ++ ": Tip is NULL", proposal⟩
      | some nHeight =>
          let cycle := getBudgetPaymentCycleBlocks params
          let nProposalEnd := proposal.nBlockStart +
            cycle * proposal.getTotalPaymentCount cycle
          if nProposalEnd < nHeight then
            ⟨false, text ++ ": Invalid nBlockEnd (" ++ toString nProposalEnd ++
              ") < current height (" ++ toString nHeight ++ ")", proposal⟩
          else
            ⟨true, strError, proposal⟩

end CBudgetProposal

end PrivateDatagram.Governance.BudgetProposals
