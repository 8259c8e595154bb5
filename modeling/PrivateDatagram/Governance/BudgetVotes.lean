import Std.Data.ExtTreeMap
import PrivateDatagram.Library.SpacedRegister
import PrivateDatagram.Wire.Transaction

/-!
# Budget votes

Proposals and finalized budgets come in messages of their own, and so do the
votes of the masternodes for them.  A vote for an item that is not known waits
in an orphan map until the item comes.  A vote of a masternode replaces its
last one when it is at least an hour later.

Proposals and finalized budgets are handled in the same way; they differ in
their `Kind`.  Items, votes and outpoints stand for their hashes, signatures
are left out.  Votes that are dated before 1970 are left out, too: the
difference of two times may then overflow.
-/

namespace PrivateDatagram.Governance.BudgetVotes

open Library.SpacedRegister Wire.Serialize Wire.Transaction

/-- `BUDGET_VOTE_UPDATE_MIN`. -/
def budgetVoteUpdateMin : Int64 := 60 * 60

/-! ## Votes -/

inductive Kind where
  | proposal
  | finalizedBudget
deriving DecidableEq, Repr

/-- The type of `nVote`, which only votes for proposals have. -/
def Choice : Kind → Type
  | .proposal => Int32
  | .finalizedBudget => Unit

structure Vote (kind : Kind) where
  vin : CTxIn
  /-- `nProposalHash` or `nBudgetHash`. -/
  itemHash : UInt256
  nVote : Choice kind
  nTime : Int64
  dated : 0 ≤ nTime

instance (kind : Kind) : DecidableEq (Choice kind) :=
  match kind with
  | .proposal => inferInstanceAs (DecidableEq Int32)
  | .finalizedBudget => inferInstanceAs (DecidableEq Unit)

instance (kind : Kind) : DecidableEq (Vote kind)
  | ⟨vin, itemHash, nVote, nTime, _⟩, ⟨vin', itemHash', nVote', nTime', _⟩ =>
    decidable_of_iff (vin = vin' ∧ itemHash = itemHash' ∧ nVote = nVote' ∧
      nTime = nTime') (by rw [Vote.mk.injEq])

abbrev CBudgetVote := Vote .proposal

abbrev CFinalizedBudgetVote := Vote .finalizedBudget

/-- `mapVotes` of an item, by masternode. -/
abbrev Votes (kind : Kind) := COutPoint → Option (Vote kind)

/-- `AddOrUpdateVote` of a proposal or a finalized budget. -/
def addOrUpdateVote {kind : Kind} (getTime : Int64) (vote : Vote kind)
    (mapVotes : Votes kind) : Votes kind × Bool :=
  let insert :=
    if vote.nTime > getTime + 60 * 60 then (mapVotes, false)
    else (Function.update mapVotes vote.vin.prevout (some vote), true)
  match mapVotes vote.vin.prevout with
  | some old =>
      if old.nTime > vote.nTime then (mapVotes, false)
      else if vote.nTime - old.nTime < budgetVoteUpdateMin then
        (mapVotes, false)
      else insert
  | none => insert

/-! ## The budget manager -/

/-- What the manager has of one kind. -/
structure Ballots (kind : Kind) where
  /-- `mapProposals` or `mapFinalizedBudgets`. -/
  items : UInt256 → Option (Votes kind)
  /-- `vecImmatureBudgetProposals` or `vecImmatureFinalizedBudgets`. -/
  immature : List UInt256
  seenItems : UInt256 → Bool
  seenVotes : Vote kind → Bool
  /-- The votes for unknown items, by item. -/
  orphans : Std.ExtTreeMap UInt256 (Vote kind)

structure CBudgetManager where
  ballots : (kind : Kind) → Ballots kind
  askedForSourceProposalOrBudget : UInt256 → Option Int64

def CBudgetManager.set {kind : Kind} (ballots : Ballots kind)
    (manager : CBudgetManager) : CBudgetManager :=
  { manager with ballots := Function.update manager.ballots kind ballots }

structure Surroundings where
  fLiteMode : Bool
  /-- `masternodeSync.IsBlockchainSynced()` and `IsSynced()`. -/
  isBlockchainSynced : Bool
  isSynced : Bool
  /-- Whether `mnodeman.Find` knows the masternode. -/
  find : CTxIn → Bool
  signatureValid : (kind : Kind) → Vote kind → Bool
  /-- `IsBudgetCollateralValid`, with the `nConf` it sets. -/
  isBudgetCollateralValid : Kind → UInt256 → Bool × Int
  /-- `IsValid` of the broadcast, and of the item made from it. -/
  isValid : Kind → UInt256 → Bool
  getTime : Int64

/-- A message, and whether it is a vote or an item. -/
inductive Message where
  | item (kind : Kind) (hash : UInt256)
  | vote (kind : Kind) (vote : Vote kind)
deriving DecidableEq

namespace Message

def mprop (proposal : UInt256) : Message := .item .proposal proposal

def mvote (vote : CBudgetVote) : Message := .vote .proposal vote

def fbs (finalizedBudget : UInt256) : Message :=
  .item .finalizedBudget finalizedBudget

def fbvote (vote : CFinalizedBudgetVote) : Message :=
  .vote .finalizedBudget vote

end Message

/-- `UpdateProposal` or `UpdateFinalizedBudget`, for a known item. -/
def Ballots.updateItem {kind : Kind} (getTime : Int64) (vote : Vote kind)
    (ballots : Ballots kind) : Option (Ballots kind × Bool) :=
  (ballots.items vote.itemHash).map fun mapVotes =>
    let updated := addOrUpdateVote getTime vote mapVotes
    ({ ballots with
      items := Function.update ballots.items vote.itemHash
        (some updated.1) }, updated.2)

/-- What a message leads to. -/
structure Outcome where
  manager : CBudgetManager
  relayed : Bool
  misbehaving : Nat
  /-- Whether the peer is asked for the masternode. -/
  askForMN : Bool
  /-- The items that the peer is asked for with `mnvs`. -/
  pushed : List UInt256

def ignore (manager : CBudgetManager) : Outcome :=
  ⟨manager, false, 0, false, []⟩

/-- `UpdateProposal` or `UpdateFinalizedBudget`, for a vote of a peer. -/
def updateItem {kind : Kind} (around : Surroundings) (vote : Vote kind)
    (manager : CBudgetManager) : Outcome :=
  let ballots := manager.ballots kind
  match ballots.updateItem around.getTime vote with
  | some updated => ⟨manager.set updated.1, updated.2, 0, false, []⟩
  | none =>
      if !around.isSynced then
        ignore manager
      else
        let manager := manager.set
          { ballots with
            orphans := ballots.orphans.insert vote.itemHash vote }
        if (manager.askedForSourceProposalOrBudget vote.itemHash).isSome then
          ignore manager
        else
          ⟨{ manager with
              askedForSourceProposalOrBudget := Function.update
                manager.askedForSourceProposalOrBudget vote.itemHash
                (some around.getTime) },
            false, 0, false, [vote.itemHash]⟩

def updateProposal (around : Surroundings) (vote : CBudgetVote) :=
  updateItem around vote

def updateFinalizedBudget (around : Surroundings)
    (vote : CFinalizedBudgetVote) :=
  updateItem around vote

/-- One round of a loop of `CheckOrphanVotes`. -/
def Ballots.checkOrphan {kind : Kind} (getTime : Int64)
    (ballots : Ballots kind) (orphan : UInt256 × Vote kind) : Ballots kind :=
  match ballots.updateItem getTime orphan.2 with
  | some (updated, true) =>
      { updated with orphans := updated.orphans.erase orphan.1 }
  | some (updated, false) => updated
  | none => ballots

def Ballots.checkOrphans {kind : Kind} (getTime : Int64)
    (ballots : Ballots kind) : Ballots kind :=
  ballots.orphans.toList.foldl (Ballots.checkOrphan getTime) ballots

/-- `CheckOrphanVotes`, for proposals and then for finalized budgets. -/
def checkOrphanVotes (getTime : Int64) (manager : CBudgetManager) :
    CBudgetManager :=
  let manager :=
    manager.set ((manager.ballots .proposal).checkOrphans getTime)
  manager.set ((manager.ballots .finalizedBudget).checkOrphans getTime)

/-- The messages `mprop` and `fbs`, with `AddProposal` and its sibling. -/
def processItem (around : Surroundings) (kind : Kind) (hash : UInt256)
    (manager : CBudgetManager) : Outcome :=
  let ballots := manager.ballots kind
  if ballots.seenItems hash then
    ignore manager
  else
    let collateral := around.isBudgetCollateralValid kind hash
    if !collateral.1 then
      if collateral.2 ≥ 1 then
        ignore (manager.set
          { ballots with immature := ballots.immature ++ [hash] })
      else
        ignore manager
    else
      let ballots :=
        { ballots with
          seenItems := Function.update ballots.seenItems hash true }
      if !around.isValid kind hash then
        ignore (manager.set ballots)
      else if (ballots.items hash).isSome then
        ignore (checkOrphanVotes around.getTime (manager.set ballots))
      else
        let ballots :=
          { ballots with
            items := Function.update ballots.items hash
              (some fun _ => none) }
        ⟨checkOrphanVotes around.getTime (manager.set ballots), true, 0,
          false, []⟩

/-- The messages `mvote` and `fbvote`. -/
def processVote {kind : Kind} (around : Surroundings) (vote : Vote kind)
    (manager : CBudgetManager) : Outcome :=
  let ballots := manager.ballots kind
  if ballots.seenVotes vote then
    ignore manager
  else if !around.find vote.vin then
    ⟨manager, false, 0, true, []⟩
  else
    let manager := manager.set
      { ballots with
        seenVotes := Function.update ballots.seenVotes vote true }
    if !around.signatureValid kind vote then
      ⟨manager, false, if around.isSynced then 20 else 0, true, []⟩
    else
      updateItem around vote manager

/-- `ProcessMessage`, for the messages with items and votes. -/
def processMessage (around : Surroundings) (message : Message)
    (manager : CBudgetManager) : Outcome :=
  if around.fLiteMode || !around.isBlockchainSynced then
    ignore manager
  else
    match message with
    | .item kind hash => processItem around kind hash manager
    | .vote _ vote => processVote around vote manager

/-! ## One item -/

variable {kind : Kind}

/-- What the manager has for one item: its votes when it is known, and the
vote that waits for it. -/
@[ext]
structure View (kind : Kind) where
  votes : Option (Votes kind)
  orphan : Option (Vote kind)

def Ballots.view (ballots : Ballots kind) (hash : UInt256) : View kind :=
  ⟨ballots.items hash, ballots.orphans[hash]?⟩

def CBudgetManager.view (manager : CBudgetManager) (kind : Kind)
    (hash : UInt256) : View kind :=
  (manager.ballots kind).view hash

/-- The time of a vote, and how far two of a masternode are apart. -/
def Vote.time (vote : Vote kind) : Int := vote.nTime.toInt

def voteGap : Int := budgetVoteUpdateMin.toInt

/-- `mapVotes` after a vote that is not too far ahead of the clock. -/
def withVote (vote : Vote kind) (mapVotes : Votes kind) : Votes kind :=
  Function.update mapVotes vote.vin.prevout
    (renew Vote.time voteGap (mapVotes vote.vin.prevout) vote)

/-- The item after a vote for it. -/
def View.vote (vote : Vote kind) (view : View kind) : View kind :=
  match view.votes with
  | some mapVotes => { view with votes := some (withVote vote mapVotes) }
  | none => { view with orphan := some vote }

/-- The votes of an item that comes to be known. -/
def View.firstVotes (view : View kind) : Votes kind :=
  match view.orphan with
  | some vote => withVote vote fun _ => none
  | none => fun _ => none

/-- The item after the message with it. -/
def View.arrive (view : View kind) : View kind :=
  match view.votes with
  | some _ => view
  | none => ⟨some view.firstVotes, none⟩

/-- The item after the vote that waits for it has been tried. -/
def View.tryVote (getTime : Int64) (vote : Vote kind) (view : View kind) :
    View kind :=
  match view.votes with
  | some mapVotes =>
      let updated := addOrUpdateVote getTime vote mapVotes
      ⟨some updated.1, if updated.2 then none else view.orphan⟩
  | none => view

def View.tryOrphan (getTime : Int64) (view : View kind) : View kind :=
  match view.orphan with
  | some vote => view.tryVote getTime vote
  | none => view

/-- The two comparisons with the last vote say whether it is too recent. -/
theorem tooSoon_iff (vote old : Vote kind) :
    (old.nTime > vote.nTime ∨ vote.nTime - old.nTime < budgetVoteUpdateMin) ↔
      vote.time - old.time < voteGap := by
  unfold Vote.time voteGap
  by_cases later : old.nTime > vote.nTime
  · have positive : 0 < budgetVoteUpdateMin.toInt := by decide
    have earlier := Int64.lt_iff_toInt_lt.mp later
    refine iff_of_true (.inl later) ?_
    omega
  · rw [or_iff_right later, Int64.lt_iff_toInt_lt,
      Int64.toInt_sub_of_le _ _ old.dated (Int64.not_lt.mp later)]

theorem addOrUpdateVote_votes {getTime : Int64} {vote : Vote kind}
    (timely : vote.nTime ≤ getTime + 60 * 60) (mapVotes : Votes kind) :
    (addOrUpdateVote getTime vote mapVotes).1 = withVote vote mapVotes := by
  have inTime : ¬ vote.nTime > getTime + 60 * 60 := Int64.not_lt.mpr timely
  unfold addOrUpdateVote withVote renew
  rw [if_neg inTime]
  cases found : mapVotes vote.vin.prevout with
  | none => rfl
  | some old =>
      dsimp only
      by_cases soon : vote.time - old.time < voteGap
      · rw [if_pos soon, ← found, Function.update_eq_self]
        rcases (tooSoon_iff vote old).mpr soon with later | recent
        · rw [if_pos later]
        · rw [if_pos recent, ite_self]
      · have apart := mt (tooSoon_iff vote old).mp soon
        rw [not_or] at apart
        rw [if_neg soon, if_neg apart.1, if_neg apart.2]

theorem addOrUpdateVote_first {getTime : Int64} {vote : Vote kind}
    (timely : vote.nTime ≤ getTime + 60 * 60) {mapVotes : Votes kind}
    (first : mapVotes vote.vin.prevout = none) :
    (addOrUpdateVote getTime vote mapVotes).2 = true := by
  have inTime : ¬ vote.nTime > getTime + 60 * 60 := Int64.not_lt.mpr timely
  unfold addOrUpdateVote
  rw [if_neg inTime, first]

/-! ## Orphans -/

/-- An orphan is kept under the item that it is for. -/
def Ballots.Keyed (ballots : Ballots kind) : Prop :=
  ∀ hash (vote : Vote kind),
    ballots.orphans[hash]? = some vote → vote.itemHash = hash

theorem checkOrphan_elsewhere {getTime : Int64} {ballots : Ballots kind}
    {hash other : UInt256} {vote : Vote kind} (keyed : vote.itemHash = hash)
    (elsewhere : other ≠ hash) :
    (ballots.checkOrphan getTime (hash, vote)).view other =
      ballots.view other := by
  have keep : ∀ mapVotes : Option (Votes kind),
      Function.update ballots.items vote.itemHash mapVotes other =
        ballots.items other :=
    fun mapVotes => Function.update_of_ne (keyed ▸ elsewhere) _ _
  unfold Ballots.checkOrphan Ballots.updateItem Ballots.view
  cases ballots.items vote.itemHash with
  | none => rfl
  | some mapVotes =>
      dsimp only [Option.map_some]
      cases (addOrUpdateVote getTime vote mapVotes).2 with
      | true =>
          dsimp only
          rw [keep, Std.ExtTreeMap.getElem?_erase, if_neg]
          intro same
          exact elsewhere (Std.LawfulEqOrd.eq_of_compare same).symm
      | false =>
          dsimp only
          rw [keep]

theorem checkOrphan_here {getTime : Int64} {ballots : Ballots kind}
    {hash : UInt256} {vote : Vote kind} (keyed : vote.itemHash = hash) :
    (ballots.checkOrphan getTime (hash, vote)).view hash =
      (ballots.view hash).tryVote getTime vote := by
  subst keyed
  unfold Ballots.checkOrphan Ballots.updateItem Ballots.view View.tryVote
  cases known : ballots.items vote.itemHash with
  | none =>
      dsimp only [Option.map_none]
      rw [known]
  | some mapVotes =>
      dsimp only [Option.map_some]
      cases (addOrUpdateVote getTime vote mapVotes).2 with
      | true =>
          dsimp only
          rw [Function.update_self, Std.ExtTreeMap.getElem?_erase_self]
          rfl
      | false =>
          dsimp only
          rw [Function.update_self]
          rfl

theorem checkOrphan_unlisted {getTime : Int64} {hash : UInt256}
    {orphans : List (UInt256 × Vote kind)} (ballots : Ballots kind)
    (keyed : ∀ orphan ∈ orphans, orphan.2.itemHash = orphan.1)
    (unlisted : ∀ orphan ∈ orphans, orphan.1 ≠ hash) :
    (orphans.foldl (Ballots.checkOrphan getTime) ballots).view hash =
      ballots.view hash := by
  induction orphans generalizing ballots with
  | nil => rfl
  | cons orphan orphans ih =>
      rw [List.foldl_cons, ih _
        (fun other here => keyed other (List.mem_cons_of_mem _ here))
        (fun other here => unlisted other (List.mem_cons_of_mem _ here))]
      exact checkOrphan_elsewhere (keyed orphan List.mem_cons_self)
        (unlisted orphan List.mem_cons_self).symm

theorem checkOrphans_view {ballots : Ballots kind} (keyed : ballots.Keyed)
    (getTime : Int64) (hash : UInt256) :
    (ballots.checkOrphans getTime).view hash =
      (ballots.view hash).tryOrphan getTime := by
  have listed : ∀ orphan ∈ ballots.orphans.toList,
      orphan.2.itemHash = orphan.1 := by
    intro orphan here
    exact keyed _ _
      (Std.ExtTreeMap.mem_toList_iff_getElem?_eq_some.mp here)
  unfold Ballots.checkOrphans View.tryOrphan
  cases waiting : (ballots.view hash).orphan with
  | none =>
      refine checkOrphan_unlisted _ listed ?_
      intro orphan here same
      have found := Std.ExtTreeMap.mem_toList_iff_getElem?_eq_some.mp here
      rw [same] at found
      cases found.symm.trans waiting
  | some vote =>
      have here : (hash, vote) ∈ ballots.orphans.toList :=
        Std.ExtTreeMap.mem_toList_iff_getElem?_eq_some.mpr waiting
      have distinct := ballots.orphans.distinct_keys_toList
      obtain ⟨before, after, split⟩ := List.append_of_mem here
      rw [split] at listed distinct ⊢
      obtain ⟨_, distinctAfter, distinctBefore⟩ :=
        List.pairwise_append.mp distinct
      rw [List.foldl_append, List.foldl_cons, checkOrphan_unlisted,
        checkOrphan_here, checkOrphan_unlisted]
      · intro orphan inBefore
        exact listed orphan (List.mem_append_left _ inBefore)
      · intro orphan inBefore same
        refine distinctBefore orphan inBefore _ List.mem_cons_self ?_
        rw [same]
        exact Std.ReflCmp.compare_self
      · exact keyed hash vote waiting
      · intro orphan inAfter
        exact listed orphan (List.mem_append_right _
          (List.mem_cons_of_mem _ inAfter))
      · intro orphan inAfter same
        refine (List.pairwise_cons.mp distinctAfter).1 orphan inAfter ?_
        rw [same]
        exact Std.ReflCmp.compare_self

/-! ## Steps -/

/-- The vote that is recorded for an item and a masternode. -/
def recorded (manager : CBudgetManager) (kind : Kind) (hash : UInt256)
    (masternode : COutPoint) : Option (Vote kind) :=
  ((manager.ballots kind).items hash).bind (· masternode)

/-- Whether the manager has seen the message. -/
def CBudgetManager.seen (manager : CBudgetManager) : Message → Bool
  | .item kind hash => (manager.ballots kind).seenItems hash
  | .vote kind vote => (manager.ballots kind).seenVotes vote

/-- A synced node that knows the masternodes, whose clock allows all votes of
the set, and that accepts the items of the set it is said to accept. -/
structure Fair (accepts : Kind → UInt256 → Bool) (messages : Set Message)
    (around : Surroundings) : Prop where
  full : around.fLiteMode = false
  isBlockchainSynced : around.isBlockchainSynced = true
  isSynced : around.isSynced = true
  known : ∀ kind vote, .vote kind vote ∈ messages →
    around.find vote.vin = true
  signed : ∀ kind vote, .vote kind vote ∈ messages →
    around.signatureValid kind vote = true
  timely : ∀ kind vote, .vote kind vote ∈ messages →
    vote.nTime ≤ around.getTime + 60 * 60
  verdict : ∀ kind hash, .item kind hash ∈ messages →
    ((around.isBudgetCollateralValid kind hash).1 &&
      around.isValid kind hash) = accepts kind hash

/-- Only votes of the set wait, each for the unknown item that it names. -/
structure Sound (messages : Set Message) (manager : CBudgetManager) :
    Prop where
  keyed : ∀ kind, (manager.ballots kind).Keyed
  listed : ∀ kind hash vote, (manager.view kind hash).orphan = some vote →
    Message.vote kind vote ∈ messages
  apart : ∀ kind hash mapVotes,
    (manager.view kind hash).votes = some mapVotes →
      (manager.view kind hash).orphan = none

/-- A message changes what there is for one item at most. -/
structure Changes (manager next : CBudgetManager) (kind : Kind)
    (hash : UInt256) (change : View kind → View kind) : Prop where
  here : next.view kind hash = change (manager.view kind hash)
  elsewhere : ∀ other otherHash, (other = kind → otherHash ≠ hash) →
    next.view other otherHash = manager.view other otherHash

section Steps

variable {accepts : Kind → UInt256 → Bool} {messages : Set Message}
  {around : Surroundings} {manager : CBudgetManager}

@[simp]
theorem set_ballots (manager : CBudgetManager) (ballots : Ballots kind) :
    (manager.set ballots).ballots kind = ballots :=
  Function.update_self ..

theorem set_ballots_of_ne {other : Kind} (manager : CBudgetManager)
    (ballots : Ballots kind) (elsewhere : other ≠ kind) :
    (manager.set ballots).ballots other = manager.ballots other :=
  Function.update_of_ne elsewhere ..

theorem set_set (manager : CBudgetManager) (first second : Ballots kind) :
    (manager.set first).set second = manager.set second := by
  unfold CBudgetManager.set
  rw [Function.update_idem]

theorem checkOrphanVotes_view {getTime : Int64}
    (keyed : ∀ kind, (manager.ballots kind).Keyed) (kind : Kind)
    (hash : UInt256) :
    (checkOrphanVotes getTime manager).view kind hash =
      (manager.view kind hash).tryOrphan getTime := by
  unfold checkOrphanVotes CBudgetManager.view
  cases kind with
  | proposal =>
      rw [set_ballots_of_ne _ _ (by decide), set_ballots]
      exact checkOrphans_view (keyed .proposal) getTime hash
  | finalizedBudget =>
      rw [set_ballots, set_ballots_of_ne _ _ (by decide)]
      exact checkOrphans_view (keyed .finalizedBudget) getTime hash

/-- The ballots after a new vote. -/
def Ballots.afterVote (vote : Vote kind) (ballots : Ballots kind) :
    Ballots kind :=
  let ballots :=
    { ballots with
      seenVotes := Function.update ballots.seenVotes vote true }
  match ballots.items vote.itemHash with
  | some mapVotes =>
      { ballots with
        items := Function.update ballots.items vote.itemHash
          (some (withVote vote mapVotes)) }
  | none =>
      { ballots with
        orphans := ballots.orphans.insert vote.itemHash vote }

theorem processMessage_synced (fair : Fair accepts messages around)
    (message : Message) :
    processMessage around message manager =
      match message with
      | .item kind hash => processItem around kind hash manager
      | .vote _ vote => processVote around vote manager := by
  unfold processMessage
  rw [fair.full, fair.isBlockchainSynced]
  rfl

theorem processMessage_seen (fair : Fair accepts messages around)
    {message : Message} (seen : manager.seen message = true) :
    (processMessage around message manager).manager = manager := by
  rw [processMessage_synced fair]
  cases message with
  | item kind hash =>
      have known : (manager.ballots kind).seenItems hash = true := seen
      dsimp only
      unfold processItem
      rw [if_pos known]
      rfl
  | vote kind vote =>
      have known : (manager.ballots kind).seenVotes vote = true := seen
      dsimp only
      unfold processVote
      rw [if_pos known]
      rfl

theorem processMessage_vote (fair : Fair accepts messages around)
    {vote : Vote kind} (listed : .vote kind vote ∈ messages)
    (unseen : manager.seen (.vote kind vote) = false) :
    (processMessage around (.vote kind vote) manager).manager.ballots =
      (manager.set ((manager.ballots kind).afterVote vote)).ballots := by
  have new : ¬ (manager.ballots kind).seenVotes vote = true := by
    rw [Bool.not_eq_true]
    exact unseen
  rw [processMessage_synced fair]
  dsimp only
  unfold processVote updateItem Ballots.updateItem Ballots.afterVote
  rw [if_neg new, fair.known kind vote listed, fair.signed kind vote listed,
    fair.isSynced]
  simp only [Bool.not_true, Bool.false_eq_true, if_false, set_ballots]
  cases (manager.ballots kind).items vote.itemHash with
  | some mapVotes =>
      dsimp only [Option.map_some]
      rw [set_set, addOrUpdateVote_votes (fair.timely kind vote listed)]
  | none =>
      dsimp only [Option.map_none]
      rw [set_set]
      split
      · rfl
      · rfl

theorem afterVote_here (ballots : Ballots kind) (vote : Vote kind) :
    (ballots.afterVote vote).view vote.itemHash =
      (ballots.view vote.itemHash).vote vote := by
  unfold Ballots.afterVote Ballots.view View.vote
  dsimp only
  cases known : ballots.items vote.itemHash with
  | some mapVotes =>
      dsimp only
      rw [Function.update_self]
  | none =>
      dsimp only
      rw [known, Std.ExtTreeMap.getElem?_insert_self]

theorem afterVote_elsewhere (ballots : Ballots kind) (vote : Vote kind)
    {other : UInt256} (elsewhere : other ≠ vote.itemHash) :
    (ballots.afterVote vote).view other = ballots.view other := by
  unfold Ballots.afterVote Ballots.view
  dsimp only
  cases ballots.items vote.itemHash with
  | some mapVotes =>
      dsimp only
      rw [Function.update_of_ne elsewhere]
  | none =>
      dsimp only
      rw [Std.ExtTreeMap.getElem?_insert, if_neg]
      intro same
      exact elsewhere (Std.LawfulEqOrd.eq_of_compare same).symm

theorem afterVote_seen (ballots : Ballots kind) (vote : Vote kind) :
    (ballots.afterVote vote).seenItems = ballots.seenItems ∧
      (ballots.afterVote vote).seenVotes =
        Function.update ballots.seenVotes vote true := by
  unfold Ballots.afterVote
  dsimp only
  cases ballots.items vote.itemHash with
  | some mapVotes => exact ⟨rfl, rfl⟩
  | none => exact ⟨rfl, rfl⟩

/-- What a change of the ballots of one kind leaves. -/
theorem changes_of_ballots {next : CBudgetManager} {ballots : Ballots kind}
    {hash : UInt256} {change : View kind → View kind}
    (next_eq : next.ballots = (manager.set ballots).ballots)
    (here : ballots.view hash = change ((manager.ballots kind).view hash))
    (elsewhere : ∀ other, other ≠ hash →
      ballots.view other = (manager.ballots kind).view other) :
    Changes manager next kind hash change := by
  refine ⟨?_, ?_⟩
  · unfold CBudgetManager.view
    rw [next_eq, set_ballots, here]
  · intro other otherHash notHere
    unfold CBudgetManager.view
    rw [next_eq]
    by_cases same : other = kind
    · subst same
      rw [set_ballots]
      exact elsewhere otherHash (notHere rfl)
    · rw [set_ballots_of_ne _ _ same]

/-- A message that the ballots of one kind say nothing new about. -/
theorem seen_of_ballots {next : CBudgetManager} {ballots : Ballots kind}
    (next_eq : next.ballots = (manager.set ballots).ballots)
    {message : Message}
    (items : ∀ hash, message = .item kind hash →
      ballots.seenItems hash = (manager.ballots kind).seenItems hash)
    (votes : ∀ vote, message = .vote kind vote →
      ballots.seenVotes vote = (manager.ballots kind).seenVotes vote) :
    next.seen message = manager.seen message := by
  unfold CBudgetManager.seen
  rw [next_eq]
  cases message with
  | item other hash =>
      dsimp only
      by_cases same : other = kind
      · subst same
        rw [set_ballots]
        exact items hash rfl
      · rw [set_ballots_of_ne _ _ same]
  | vote other vote =>
      dsimp only
      by_cases same : other = kind
      · subst same
        rw [set_ballots]
        exact votes vote rfl
      · rw [set_ballots_of_ne _ _ same]

theorem vote_changes (fair : Fair accepts messages around)
    {vote : Vote kind} (listed : .vote kind vote ∈ messages)
    (unseen : manager.seen (.vote kind vote) = false) :
    Changes manager
      (processMessage around (.vote kind vote) manager).manager kind
      vote.itemHash (View.vote vote) :=
  changes_of_ballots (processMessage_vote fair listed unseen)
    (afterVote_here _ vote) fun _ => afterVote_elsewhere _ vote

theorem vote_seen (fair : Fair accepts messages around)
    {vote : Vote kind} (listed : .vote kind vote ∈ messages)
    (unseen : manager.seen (.vote kind vote) = false) (message : Message) :
    (processMessage around (.vote kind vote) manager).manager.seen message =
        true ↔
      manager.seen message = true ∨ message = .vote kind vote := by
  obtain ⟨sameItems, votes⟩ := afterVote_seen (manager.ballots kind) vote
  have next_eq := processMessage_vote fair listed unseen
  by_cases same : message = .vote kind vote
  · subst same
    refine iff_of_true ?_ (.inr rfl)
    unfold CBudgetManager.seen
    dsimp only
    rw [next_eq, set_ballots, votes, Function.update_self]
  · rw [seen_of_ballots next_eq]
    · exact (or_iff_left same).symm
    · intro hash _
      rw [sameItems]
    · rintro other rfl
      rw [votes, Function.update_of_ne]
      rintro rfl
      exact same rfl

theorem checkOrphan_seen {getTime : Int64}
    (orphans : List (UInt256 × Vote kind)) (ballots : Ballots kind) :
    (orphans.foldl (Ballots.checkOrphan getTime) ballots).seenItems =
        ballots.seenItems ∧
      (orphans.foldl (Ballots.checkOrphan getTime) ballots).seenVotes =
        ballots.seenVotes := by
  induction orphans generalizing ballots with
  | nil => exact ⟨rfl, rfl⟩
  | cons orphan orphans ih =>
      have step : (ballots.checkOrphan getTime orphan).seenItems =
            ballots.seenItems ∧
          (ballots.checkOrphan getTime orphan).seenVotes =
            ballots.seenVotes := by
        unfold Ballots.checkOrphan Ballots.updateItem
        cases ballots.items orphan.2.itemHash with
        | none => exact ⟨rfl, rfl⟩
        | some mapVotes =>
            dsimp only [Option.map_some]
            cases (addOrUpdateVote getTime orphan.2 mapVotes).2 with
            | true => exact ⟨rfl, rfl⟩
            | false => exact ⟨rfl, rfl⟩
      rw [List.foldl_cons]
      exact ⟨(ih _).1.trans step.1, (ih _).2.trans step.2⟩

theorem checkOrphanVotes_seen (getTime : Int64) (manager : CBudgetManager)
    (message : Message) :
    (checkOrphanVotes getTime manager).seen message =
      manager.seen message := by
  have kept : ∀ kind, ((checkOrphanVotes getTime manager).ballots
      kind).seenItems = (manager.ballots kind).seenItems ∧
      ((checkOrphanVotes getTime manager).ballots kind).seenVotes =
        (manager.ballots kind).seenVotes := by
    intro kind
    unfold checkOrphanVotes
    cases kind with
    | proposal =>
        rw [set_ballots_of_ne _ _ (by decide), set_ballots]
        exact checkOrphan_seen _ _
    | finalizedBudget =>
        rw [set_ballots, set_ballots_of_ne _ _ (by decide)]
        exact checkOrphan_seen _ _
  cases message with
  | item kind hash => exact congrFun (kept kind).1 hash
  | vote kind vote => exact congrFun (kept kind).2 vote

/-- The ballots with an accepted item, before its orphan is looked at. -/
def Ballots.entered (hash : UInt256) (ballots : Ballots kind) :
    Ballots kind :=
  { ballots with
    seenItems := Function.update ballots.seenItems hash true
    items :=
      match ballots.items hash with
      | some _ => ballots.items
      | none => Function.update ballots.items hash (some fun _ => none) }

theorem entered_here (ballots : Ballots kind) (hash : UInt256) :
    (ballots.entered hash).view hash =
      ⟨some ((ballots.view hash).votes.getD fun _ => none),
        (ballots.view hash).orphan⟩ := by
  unfold Ballots.entered Ballots.view
  dsimp only
  cases known : ballots.items hash with
  | some mapVotes =>
      dsimp only [Option.getD_some]
      rw [known]
  | none =>
      dsimp only [Option.getD_none]
      rw [Function.update_self]

theorem entered_elsewhere (ballots : Ballots kind) {hash other : UInt256}
    (elsewhere : other ≠ hash) :
    (ballots.entered hash).view other = ballots.view other := by
  unfold Ballots.entered Ballots.view
  dsimp only
  cases ballots.items hash with
  | some mapVotes => rfl
  | none =>
      dsimp only
      rw [Function.update_of_ne elsewhere]

theorem processMessage_accepted (fair : Fair accepts messages around)
    {hash : UInt256} (listed : .item kind hash ∈ messages)
    (unseen : manager.seen (.item kind hash) = false)
    (accepted : accepts kind hash = true) :
    (processMessage around (.item kind hash) manager).manager =
      checkOrphanVotes around.getTime
        (manager.set ((manager.ballots kind).entered hash)) := by
  have new : ¬ (manager.ballots kind).seenItems hash = true := by
    rw [Bool.not_eq_true]
    exact unseen
  have verdict := fair.verdict kind hash listed
  rw [accepted, Bool.and_eq_true] at verdict
  rw [processMessage_synced fair]
  dsimp only
  unfold processItem Ballots.entered
  rw [if_neg new]
  dsimp only
  rw [verdict.1, verdict.2]
  simp only [Bool.not_true, Bool.false_eq_true, if_false]
  cases known : (manager.ballots kind).items hash with
  | some mapVotes =>
      rfl
  | none => rfl

theorem processMessage_refused (fair : Fair accepts messages around)
    {hash : UInt256} (listed : .item kind hash ∈ messages)
    (unseen : manager.seen (.item kind hash) = false)
    (refused : accepts kind hash = false) :
    ∃ immature seenItems,
      (∀ other, other ≠ hash →
        seenItems other = (manager.ballots kind).seenItems other) ∧
      (processMessage around (.item kind hash) manager).manager.ballots =
        (manager.set { manager.ballots kind with
          immature := immature, seenItems := seenItems }).ballots := by
  have new : ¬ (manager.ballots kind).seenItems hash = true := by
    rw [Bool.not_eq_true]
    exact unseen
  have verdict := fair.verdict kind hash listed
  rw [refused] at verdict
  have same : (manager.set (manager.ballots kind)).ballots =
      manager.ballots :=
    Function.update_eq_self ..
  rw [processMessage_synced fair]
  dsimp only
  unfold processItem
  rw [if_neg new]
  dsimp only
  cases collateral : (around.isBudgetCollateralValid kind hash).1 with
  | false =>
      simp only [Bool.not_false, if_true]
      split
      · exact ⟨_, _, fun _ _ => rfl, rfl⟩
      · exact ⟨_, _, fun _ _ => rfl, same.symm⟩
  | true =>
      rw [collateral, Bool.true_and] at verdict
      simp only [Bool.not_true, Bool.false_eq_true, if_false, verdict,
        Bool.not_false, if_true]
      exact ⟨_, _, fun other elsewhere =>
        Function.update_of_ne elsewhere .., rfl⟩

theorem View.tryOrphan_apart {view : View kind} (getTime : Int64)
    (apart : ∀ mapVotes, view.votes = some mapVotes → view.orphan = none) :
    view.tryOrphan getTime = view := by
  unfold View.tryOrphan View.tryVote
  cases waiting : view.orphan with
  | none => rfl
  | some vote =>
      dsimp only
      cases known : view.votes with
      | none => rfl
      | some mapVotes =>
          rw [apart mapVotes known] at waiting
          cases waiting

theorem View.tryOrphan_entered {view : View kind} {getTime : Int64}
    (apart : ∀ mapVotes, view.votes = some mapVotes → view.orphan = none)
    (timely : ∀ vote, view.orphan = some vote →
      vote.nTime ≤ getTime + 60 * 60) :
    View.tryOrphan getTime
        ⟨some (view.votes.getD fun _ => none), view.orphan⟩ =
      view.arrive := by
  unfold View.arrive View.firstVotes
  cases known : view.votes with
  | some mapVotes =>
      rw [apart mapVotes known]
      exact View.ext known.symm (apart mapVotes known).symm
  | none =>
      unfold View.tryOrphan View.tryVote
      cases waiting : view.orphan with
      | none => rfl
      | some vote =>
          have inTime := timely vote waiting
          dsimp only [Option.getD_none]
          rw [addOrUpdateVote_votes inTime, addOrUpdateVote_first inTime rfl,
            if_pos rfl]

theorem item_changes (fair : Fair accepts messages around)
    (sound : Sound messages manager) {hash : UInt256}
    (listed : .item kind hash ∈ messages)
    (unseen : manager.seen (.item kind hash) = false) :
    Changes manager
      (processMessage around (.item kind hash) manager).manager kind hash
      (if accepts kind hash then View.arrive else id) := by
  cases accepted : accepts kind hash with
  | false =>
      obtain ⟨immature, seenItems, _, next_eq⟩ :=
        processMessage_refused fair listed unseen accepted
      exact changes_of_ballots next_eq rfl fun _ _ => rfl
  | true =>
      have entered : Changes manager
          (manager.set ((manager.ballots kind).entered hash)) kind hash
          fun view =>
            ⟨some (view.votes.getD fun _ => none), view.orphan⟩ :=
        changes_of_ballots rfl (entered_here _ hash) fun _ elsewhere =>
          entered_elsewhere _ elsewhere
      have keyed : ∀ other, ((manager.set
          ((manager.ballots kind).entered hash)).ballots other).Keyed := by
        intro other
        by_cases same : other = kind
        · subst same
          rw [set_ballots]
          exact sound.keyed other
        · rw [set_ballots_of_ne _ _ same]
          exact sound.keyed other
      rw [processMessage_accepted fair listed unseen accepted, if_pos rfl]
      refine ⟨?_, ?_⟩
      · rw [checkOrphanVotes_view keyed, entered.here]
        refine View.tryOrphan_entered (sound.apart kind hash) ?_
        intro vote waiting
        exact fair.timely kind vote (sound.listed kind hash vote waiting)
      · intro other otherHash elsewhere
        rw [checkOrphanVotes_view keyed,
          entered.elsewhere other otherHash elsewhere]
        exact View.tryOrphan_apart _ (sound.apart other otherHash)

theorem item_seen (fair : Fair accepts messages around) {hash : UInt256}
    (listed : .item kind hash ∈ messages)
    (unseen : manager.seen (.item kind hash) = false) {message : Message}
    (other : message ≠ .item kind hash) :
    (processMessage around (.item kind hash) manager).manager.seen message =
      manager.seen message := by
  have notHash : ∀ otherHash, message = .item kind otherHash →
      otherHash ≠ hash := by
    rintro _ rfl rfl
    exact other rfl
  cases accepted : accepts kind hash with
  | false =>
      obtain ⟨immature, seenItems, same, next_eq⟩ :=
        processMessage_refused fair listed unseen accepted
      exact seen_of_ballots next_eq
        (fun otherHash isItem => same otherHash (notHash otherHash isItem))
        fun _ _ => rfl
  | true =>
      rw [processMessage_accepted fair listed unseen accepted,
        checkOrphanVotes_seen]
      exact seen_of_ballots rfl
        (fun otherHash isItem =>
          Function.update_of_ne (notHash otherHash isItem) ..)
        fun _ _ => rfl

theorem Sound.of_changes (sound : Sound messages manager)
    {next : CBudgetManager} {hash : UInt256}
    {change : View kind → View kind}
    (changes : Changes manager next kind hash change)
    (orphan : ∀ vote, (change (manager.view kind hash)).orphan = some vote →
      vote.itemHash = hash ∧ .vote kind vote ∈ messages)
    (apart : ∀ mapVotes,
      (change (manager.view kind hash)).votes = some mapVotes →
        (change (manager.view kind hash)).orphan = none) :
    Sound messages next := by
  have each : ∀ other otherHash,
      (∀ vote, (next.view other otherHash).orphan = some vote →
        vote.itemHash = otherHash ∧ .vote other vote ∈ messages) ∧
      ∀ mapVotes, (next.view other otherHash).votes = some mapVotes →
        (next.view other otherHash).orphan = none := by
    intro other otherHash
    by_cases same : other = kind ∧ otherHash = hash
    · obtain ⟨rfl, rfl⟩ := same
      rw [changes.here]
      exact ⟨orphan, apart⟩
    · rw [changes.elsewhere other otherHash
        fun sameKind sameHash => same ⟨sameKind, sameHash⟩]
      refine ⟨fun vote waiting => ⟨?_, ?_⟩, sound.apart other otherHash⟩
      · exact sound.keyed other otherHash vote waiting
      · exact sound.listed other otherHash vote waiting
  refine ⟨?_, ?_, ?_⟩
  · intro other otherHash vote waiting
    exact ((each other otherHash).1 vote waiting).1
  · intro other otherHash vote waiting
    exact ((each other otherHash).1 vote waiting).2
  · intro other otherHash
    exact (each other otherHash).2

/-- What waits after a vote: what waited before it, or the vote itself. -/
theorem View.vote_orphan {view : View kind} {vote other : Vote kind}
    (waiting : (view.vote vote).orphan = some other) :
    view.orphan = some other ∨ vote = other := by
  unfold View.vote at waiting
  split at waiting
  · exact .inl waiting
  · exact .inr (Option.some.inj waiting)

theorem View.vote_apart {view : View kind} (vote : Vote kind)
    (apart : ∀ mapVotes, view.votes = some mapVotes → view.orphan = none)
    {mapVotes : Votes kind} (known : (view.vote vote).votes = some mapVotes) :
    (view.vote vote).orphan = none := by
  unfold View.vote at known ⊢
  split at known
  case h_1 wasKnown => exact apart _ wasKnown
  case h_2 unknown => cases unknown.symm.trans known

/-- Nothing waits for an item that has come. -/
theorem View.arrive_orphan {view : View kind}
    (apart : ∀ mapVotes, view.votes = some mapVotes → view.orphan = none) :
    view.arrive.orphan = none := by
  unfold View.arrive
  split
  case h_1 known => exact apart _ known
  · rfl

theorem processMessage_sound (fair : Fair accepts messages around)
    (sound : Sound messages manager) {message : Message}
    (listed : message ∈ messages) :
    Sound messages (processMessage around message manager).manager := by
  cases seen : manager.seen message with
  | true =>
      rw [processMessage_seen fair seen]
      exact sound
  | false =>
      cases message with
      | vote kind vote =>
          refine sound.of_changes (vote_changes fair listed seen) ?_
            fun _ => View.vote_apart vote (sound.apart kind vote.itemHash)
          intro other waiting
          rcases View.vote_orphan waiting with before | rfl
          · exact ⟨sound.keyed _ _ other before,
              sound.listed _ _ other before⟩
          · exact ⟨rfl, listed⟩
      | item kind hash =>
          have changes := item_changes fair sound listed seen
          cases accepted : accepts kind hash with
          | false =>
              rw [accepted, if_neg Bool.false_ne_true] at changes
              refine sound.of_changes changes ?_ (sound.apart kind hash)
              intro vote waiting
              exact ⟨sound.keyed kind hash vote waiting,
                sound.listed kind hash vote waiting⟩
          | true =>
              rw [accepted, if_pos rfl] at changes
              have gone := View.arrive_orphan (sound.apart kind hash)
              refine sound.of_changes changes ?_ fun _ _ => gone
              intro vote waiting
              cases gone.symm.trans waiting

/-- The vote is one of the masternode for the item. -/
def Vote.Names (vote : Vote kind) (hash : UInt256) (masternode : COutPoint) :
    Prop :=
  vote.itemHash = hash ∧ vote.vin.prevout = masternode

theorem View.vote_known {view : View kind} {mapVotes : Votes kind}
    (known : view.votes = some mapVotes) (vote : Vote kind) :
    (view.vote vote).votes = some (withVote vote mapVotes) := by
  unfold View.vote
  rw [known]

theorem View.vote_unknown {view : View kind} (unknown : view.votes = none)
    (vote : Vote kind) : view.vote vote = ⟨none, some vote⟩ := by
  unfold View.vote
  rw [unknown]

theorem View.arrive_known {view : View kind} (known : view.votes.isSome) :
    view.arrive = view := by
  obtain ⟨mapVotes, isKnown⟩ := Option.isSome_iff_exists.mp known
  unfold View.arrive
  rw [isKnown]

theorem View.arrive_unknown {view : View kind} (unknown : view.votes = none) :
    view.arrive = ⟨some view.firstVotes, none⟩ := by
  unfold View.arrive
  rw [unknown]

theorem processMessage_seen_of_ne (fair : Fair accepts messages around)
    {message other : Message} (listed : message ∈ messages)
    (different : other ≠ message) :
    (processMessage around message manager).manager.seen other =
      manager.seen other := by
  cases seen : manager.seen message with
  | true => rw [processMessage_seen fair seen]
  | false =>
      cases message with
      | item kind hash => exact item_seen fair listed seen different
      | vote kind vote =>
          rw [Bool.eq_iff_iff, vote_seen fair listed seen]
          exact ⟨fun cases => cases.resolve_right different, .inl⟩

theorem processMessage_seen_vote (fair : Fair accepts messages around)
    {message : Message} (listed : message ∈ messages) (vote : Vote kind) :
    (processMessage around message manager).manager.seen (.vote kind vote) =
        true ↔
      manager.seen (.vote kind vote) = true ∨
        message = .vote kind vote := by
  by_cases same : message = .vote kind vote
  · subst same
    refine iff_of_true ?_ (.inr rfl)
    cases seen : manager.seen (.vote kind vote) with
    | true =>
        rw [processMessage_seen fair seen]
        exact seen
    | false => exact (vote_seen fair listed seen _).mpr (.inr rfl)
  · rw [processMessage_seen_of_ne fair listed (Ne.symm same)]
    exact ⟨.inl, fun cases => cases.resolve_right same⟩

/-- What leaves an item as it is. -/
theorem processMessage_view (fair : Fair accepts messages around)
    (sound : Sound messages manager) {message : Message}
    (listed : message ∈ messages) {hash : UInt256}
    (item : message = .item kind hash → accepts kind hash = true →
      (manager.view kind hash).votes.isSome)
    (votes : ∀ vote, message = .vote kind vote →
      manager.seen message = false → vote.itemHash ≠ hash) :
    (processMessage around message manager).manager.view kind hash =
      manager.view kind hash := by
  cases seen : manager.seen message with
  | true => rw [processMessage_seen fair seen]
  | false =>
      cases message with
      | item other otherHash =>
          have changes := item_changes fair sound listed seen
          by_cases here : kind = other ∧ hash = otherHash
          · obtain ⟨rfl, rfl⟩ := here
            rw [changes.here]
            split
            case isTrue accepted => exact View.arrive_known (item rfl accepted)
            · rfl
          · exact changes.elsewhere kind hash
              fun sameKind sameHash => here ⟨sameKind, sameHash⟩
      | vote other vote =>
          refine (vote_changes fair listed seen).elsewhere kind hash ?_
          rintro rfl same
          exact votes vote rfl seen same.symm

theorem recorded_eq_view (manager : CBudgetManager) (hash : UInt256)
    (masternode : COutPoint) :
    recorded manager kind hash masternode =
      (manager.view kind hash).votes.bind (· masternode) := rfl

/-- A message as a known item sees it. -/
theorem known_step (fair : Fair accepts messages around)
    (sound : Sound messages manager) {message : Message}
    (listed : message ∈ messages) {hash : UInt256}
    (known : (manager.view kind hash).votes.isSome)
    (masternode : COutPoint) :
    ((processMessage around message manager).manager.view kind
        hash).votes.isSome ∧
      ((∃ vote, message = .vote kind vote ∧ manager.seen message = false ∧
          vote.Names hash masternode ∧
          recorded (processMessage around message manager).manager kind hash
              masternode =
            renew Vote.time voteGap
              (recorded manager kind hash masternode) vote) ∨
        ((∀ vote, message = .vote kind vote → manager.seen message = false →
            ¬ vote.Names hash masternode) ∧
          recorded (processMessage around message manager).manager kind hash
              masternode =
            recorded manager kind hash masternode)) := by
  rw [recorded_eq_view, recorded_eq_view]
  by_cases voted : ∃ vote, message = .vote kind vote ∧
      manager.seen message = false ∧ vote.itemHash = hash
  · obtain ⟨vote, rfl, unseen, rfl⟩ := voted
    obtain ⟨mapVotes, isKnown⟩ := Option.isSome_iff_exists.mp known
    rw [(vote_changes fair listed unseen).here, View.vote_known isKnown,
      isKnown]
    refine ⟨rfl, ?_⟩
    by_cases names : vote.vin.prevout = masternode
    · refine .inl ⟨vote, rfl, unseen, ⟨rfl, names⟩, ?_⟩
      subst names
      exact Function.update_self ..
    · refine .inr ⟨?_, Function.update_of_ne (Ne.symm names) ..⟩
      intro other sameMessage _ namesOther
      cases sameMessage
      exact names namesOther.2
  · have same := processMessage_view fair sound listed (fun _ _ => known)
      fun vote isVote unseen sameHash =>
        voted ⟨vote, isVote, unseen, sameHash⟩
    rw [same]
    refine ⟨known, .inr ⟨?_, rfl⟩⟩
    intro vote isVote unseen names
    exact voted ⟨vote, isVote, unseen, names.1⟩

/-- A message as an item sees it that stays unknown. -/
theorem unknown_step (fair : Fair accepts messages around)
    (sound : Sound messages manager) {message : Message}
    (listed : message ∈ messages) {hash : UInt256}
    (unknown : (manager.view kind hash).votes = none)
    (refused : message = .item kind hash → accepts kind hash = false) :
    ((processMessage around message manager).manager.view kind hash).votes =
        none ∧
      ((∃ vote, message = .vote kind vote ∧ manager.seen message = false ∧
          vote.itemHash = hash ∧
          ((processMessage around message manager).manager.view kind
            hash).orphan = some vote) ∨
        ((∀ vote, message = .vote kind vote → manager.seen message = false →
            vote.itemHash ≠ hash) ∧
          ((processMessage around message manager).manager.view kind
              hash).orphan =
            (manager.view kind hash).orphan)) := by
  by_cases voted : ∃ vote, message = .vote kind vote ∧
      manager.seen message = false ∧ vote.itemHash = hash
  · obtain ⟨vote, rfl, unseen, rfl⟩ := voted
    rw [(vote_changes fair listed unseen).here, View.vote_unknown unknown]
    exact ⟨rfl, .inl ⟨vote, rfl, unseen, rfl, rfl⟩⟩
  · have others : ∀ vote, message = .vote kind vote →
        manager.seen message = false → vote.itemHash ≠ hash :=
      fun vote isVote unseen sameHash =>
        voted ⟨vote, isVote, unseen, sameHash⟩
    have same := processMessage_view fair sound listed
      (fun isItem accepted => absurd accepted (by simp [refused isItem]))
      others
    rw [same]
    exact ⟨unknown, .inr ⟨others, rfl⟩⟩

end Steps

end PrivateDatagram.Governance.BudgetVotes
