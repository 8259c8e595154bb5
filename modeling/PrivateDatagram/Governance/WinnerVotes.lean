import PrivateDatagram.Library.GuardedRun
import PrivateDatagram.Wire.Transaction

/-!
# Votes for masternode payees

Masternodes vote for the payee of a block with `mnw` messages.  The votes are
kept by their hash and counted by height and payee.  `CanVote` remembers the
last height that a masternode voted for, and refuses that height only.

Heights are unbounded here.  Only those near the tip come to a computation, so
that nothing overflows in the source.
-/

namespace PrivateDatagram.Governance.WinnerVotes

open Library.ByteFormat Library.GuardedRun Wire.Serialize Wire.Transaction

/-- `MNPAYMENTS_SIGNATURES_TOTAL`. -/
def mnpaymentsSignaturesTotal : Int := 10

/-! ## Votes and payees -/

structure CMasternodePaymentWinner where
  vinMasternode : CTxIn
  nBlockHeight : Int
  payee : CScript
  vchSig : Bytes
deriving DecidableEq, Repr

/-- What `GetHash` hashes; it stands for the hash. -/
def CMasternodePaymentWinner.getHash (winner : CMasternodePaymentWinner) :
    CScript × Int × COutPoint :=
  (winner.payee, winner.nBlockHeight, winner.vinMasternode.prevout)

/-- `mapMasternodePayeeVotes`, which has one vote for each hash. -/
structure PayeeVotes where
  winners : List CMasternodePaymentWinner
  distinct : (winners.map (·.getHash)).Nodup

namespace PayeeVotes

def contains (votes : PayeeVotes) (winner : CMasternodePaymentWinner) :
    Bool :=
  votes.winners.any (·.getHash = winner.getHash)

def insert (votes : PayeeVotes) (winner : CMasternodePaymentWinner)
    (new : votes.contains winner = false) : PayeeVotes where
  winners := winner :: votes.winners
  distinct := by
    rw [List.map_cons, List.nodup_cons]
    refine ⟨?_, votes.distinct⟩
    intro here
    obtain ⟨other, member, same⟩ := List.mem_map.mp here
    have absent := List.any_eq_false.mp new other member
    exact absent (decide_eq_true same)

def filter (votes : PayeeVotes) (keep : CMasternodePaymentWinner → Bool) :
    PayeeVotes where
  winners := votes.winners.filter keep
  distinct := votes.distinct.sublist (List.filter_sublist.map _)

end PayeeVotes

structure CMasternodePayee where
  scriptPubKey : CScript
  nVotes : Int
deriving DecidableEq, Repr

structure CMasternodeBlockPayees where
  nBlockHeight : Int
  vecPayments : List CMasternodePayee
deriving DecidableEq, Repr

def addPayee (payeeIn : CScript) (nIncrement : Int) :
    List CMasternodePayee → List CMasternodePayee
  | [] => [⟨payeeIn, nIncrement⟩]
  | payee :: rest =>
      if payee.scriptPubKey = payeeIn then
        { payee with nVotes := payee.nVotes + nIncrement } :: rest
      else
        payee :: addPayee payeeIn nIncrement rest

def CMasternodeBlockPayees.addPayee (payeeIn : CScript) (nIncrement : Int)
    (blockPayees : CMasternodeBlockPayees) : CMasternodeBlockPayees :=
  { blockPayees with
    vecPayments :=
      WinnerVotes.addPayee payeeIn nIncrement blockPayees.vecPayments }

/-! ## Payments -/

structure CMasternodePayments where
  mapMasternodePayeeVotes : PayeeVotes
  mapMasternodeBlocks : Int → Option CMasternodeBlockPayees
  /-- By `prevout.hash + prevout.n`. -/
  mapMasternodesLastVote : UInt256 → Option Int

structure Surroundings where
  /-- `masternodeSync.IsBlockchainSynced()` and `IsSynced()`. -/
  isBlockchainSynced : Bool
  isSynced : Bool
  fLiteMode : Bool
  /-- The version of the peer. -/
  nVersion : Int
  /-- `ActiveProtocol()`. -/
  activeProtocol : Int
  /-- The height of the tip, when `cs_main` is free and there is one. -/
  tipHeight : Option Int
  /-- `mnodeman.CountEnabled()`. -/
  countEnabled : Nat
  /-- `mnodeman.size()`. -/
  size : Nat
  /-- The protocol version of a masternode that `mnodeman.Find` knows. -/
  find : CTxIn → Option Int
  /-- `mnodeman.GetMasternodeRank` with the active protocol. -/
  getMasternodeRank : CTxIn → Int → Int
  /-- `SignatureValid`. -/
  signatureValid : CMasternodePaymentWinner → Bool
  /-- Whether `GetBlockHash` finds the height. -/
  getBlockHash : Int → Bool

def CMasternodePaymentWinner.isValid (around : Surroundings)
    (winner : CMasternodePaymentWinner) : Bool :=
  match around.find winner.vinMasternode with
  | none => false
  | some protocolVersion =>
      if protocolVersion < around.activeProtocol then
        false
      else
        around.getMasternodeRank winner.vinMasternode
          (winner.nBlockHeight - 100) ≤ mnpaymentsSignaturesTotal

/-- The key of a masternode in `mapMasternodesLastVote`. -/
def voteKey (outMasternode : COutPoint) : UInt256 :=
  outMasternode.hash + BitVec.ofNat 256 outMasternode.n.toNat

def canVote (outMasternode : COutPoint) (nBlockHeight : Int)
    (payments : CMasternodePayments) : Bool × CMasternodePayments :=
  if payments.mapMasternodesLastVote (voteKey outMasternode) =
      some nBlockHeight then
    (false, payments)
  else
    (true, { payments with
      mapMasternodesLastVote := Function.update
        payments.mapMasternodesLastVote (voteKey outMasternode)
        (some nBlockHeight) })

def addWinningMasternode (around : Surroundings)
    (winnerIn : CMasternodePaymentWinner) (payments : CMasternodePayments) :
    Bool × CMasternodePayments :=
  if !around.getBlockHash (winnerIn.nBlockHeight - 100) then
    (false, payments)
  else if new : payments.mapMasternodePayeeVotes.contains winnerIn = false then
    let blockPayees :=
      (payments.mapMasternodeBlocks winnerIn.nBlockHeight).getD
        ⟨winnerIn.nBlockHeight, []⟩
    (true, { payments with
      mapMasternodePayeeVotes :=
        payments.mapMasternodePayeeVotes.insert winnerIn new
      mapMasternodeBlocks := Function.update payments.mapMasternodeBlocks
        winnerIn.nBlockHeight (some (blockPayees.addPayee winnerIn.payee 1)) })
  else
    (false, payments)

/-- What the message `mnw` leads to. -/
structure Outcome where
  payments : CMasternodePayments
  relayed : Bool
  misbehaving : Nat
  askForMN : Bool

def ignore (payments : CMasternodePayments) : Outcome :=
  ⟨payments, false, 0, false⟩

/-- `nFirstBlock`, a double that is cut to an int. -/
def nFirstBlock (nHeight : Int) (countEnabled : Nat) : Int :=
  (4 * nHeight - 5 * countEnabled).tdiv 4

/-- The message `mnw` at a tip of the height. -/
def processWinner (around : Surroundings) (nHeight : Int)
    (winner : CMasternodePaymentWinner) (payments : CMasternodePayments) :
    Outcome :=
  if payments.mapMasternodePayeeVotes.contains winner then
    ignore payments
  else if winner.nBlockHeight < nFirstBlock nHeight around.countEnabled ∨
      winner.nBlockHeight > nHeight + 20 then
    ignore payments
  else if !winner.isValid around then
    ignore payments
  else
    match canVote winner.vinMasternode.prevout winner.nBlockHeight
        payments with
    | (false, payments) => ignore payments
    | (true, payments) =>
        if !around.signatureValid winner then
          ⟨payments, false, if around.isSynced then 20 else 0, true⟩
        else
          let added := addWinningMasternode around winner payments
          ⟨added.2, added.1, 0, false⟩

/-- `ProcessMessageMasternodePayments`, for the message `mnw`. -/
def processMnw (around : Surroundings) (winner : CMasternodePaymentWinner)
    (payments : CMasternodePayments) : Outcome :=
  if !around.isBlockchainSynced then
    ignore payments
  else if around.fLiteMode then
    ignore payments
  else if around.nVersion < around.activeProtocol then
    ignore payments
  else
    match around.tipHeight with
    | none => ignore payments
    | some nHeight => processWinner around nHeight winner payments

/-- `nLimit`, with a double that is cut to an int. -/
def nLimit (size : Nat) : Int := max (5 * size / 4 : Nat) 1000

/-- A vote that `CleanPaymentList` removes. -/
def isOld (nHeight nLimit : Int) (winner : CMasternodePaymentWinner) : Bool :=
  nHeight - winner.nBlockHeight > nLimit

/-- The blocks without those of the votes. -/
def eraseBlocks (winners : List CMasternodePaymentWinner)
    (blocks : Int → Option CMasternodeBlockPayees) :
    Int → Option CMasternodeBlockPayees :=
  winners.foldl (fun blocks winner =>
    Function.update blocks winner.nBlockHeight none) blocks

def cleanPaymentList (around : Surroundings)
    (payments : CMasternodePayments) : CMasternodePayments :=
  match around.tipHeight with
  | none => payments
  | some nHeight =>
      let old := isOld nHeight (nLimit around.size)
      let votes := payments.mapMasternodePayeeVotes
      { payments with
        mapMasternodePayeeVotes := votes.filter fun winner => !old winner
        mapMasternodeBlocks := eraseBlocks (votes.winners.filter old)
          payments.mapMasternodeBlocks }

/-! ## Runs -/

inductive Step where
  | mnw (around : Surroundings) (winner : CMasternodePaymentWinner)
  | cleanPaymentList (around : Surroundings)

def CMasternodePayments.step (payments : CMasternodePayments) :
    Step → CMasternodePayments
  | .mnw around winner => (processMnw around winner payments).payments
  | .cleanPaymentList around => cleanPaymentList around payments

/-! ## Tallies -/

/-- `nVotes` of a payee in a list of payees. -/
def nVotesIn (payee : CScript) (payees : List CMasternodePayee) : Int :=
  ((payees.find? (·.scriptPubKey = payee)).map (·.nVotes)).getD 0

/-- The payees of a height. -/
def CMasternodePayments.payeesAt (payments : CMasternodePayments)
    (nBlockHeight : Int) : List CMasternodePayee :=
  match payments.mapMasternodeBlocks nBlockHeight with
  | none => []
  | some blockPayees => blockPayees.vecPayments

/-- The recorded votes for a payee and a height. -/
def CMasternodePayments.recordedVotes (payments : CMasternodePayments)
    (nBlockHeight : Int) (payee : CScript) : Nat :=
  payments.mapMasternodePayeeVotes.winners.countP fun winner =>
    winner.nBlockHeight = nBlockHeight ∧ winner.payee = payee

/-- Each payee of a height is there once, with the number of its votes. -/
structure Tallied (payments : CMasternodePayments) : Prop where
  payees : ∀ nBlockHeight,
    ((payments.payeesAt nBlockHeight).map (·.scriptPubKey)).Nodup
  counts : ∀ nBlockHeight payee,
    nVotesIn payee (payments.payeesAt nBlockHeight) =
      payments.recordedVotes nBlockHeight payee

/-- Each masternode has one vote for each height at most. -/
def OneVote (payments : CMasternodePayments) : Prop :=
  ∀ vote ∈ payments.mapMasternodePayeeVotes.winners,
    ∀ other ∈ payments.mapMasternodePayeeVotes.winners,
      vote.vinMasternode.prevout = other.vinMasternode.prevout →
        vote.nBlockHeight = other.nBlockHeight → vote = other

theorem addPayee_payees (payeeIn : CScript) (nIncrement : Int)
    (payees : List CMasternodePayee) :
    (addPayee payeeIn nIncrement payees).map (·.scriptPubKey) =
      if payeeIn ∈ payees.map (·.scriptPubKey) then
        payees.map (·.scriptPubKey)
      else
        payees.map (·.scriptPubKey) ++ [payeeIn] := by
  induction payees with
  | nil => rfl
  | cons payee rest ih =>
      rw [addPayee, List.map_cons]
      by_cases here : payee.scriptPubKey = payeeIn
      · rw [if_pos here, if_pos (List.mem_cons.mpr (.inl here.symm))]
        rfl
      · rw [if_neg here, List.map_cons, ih]
        by_cases later : payeeIn ∈ rest.map (·.scriptPubKey)
        · rw [if_pos later, if_pos (List.mem_cons_of_mem _ later)]
        · rw [if_neg later, if_neg]
          · rfl
          · rw [List.mem_cons, not_or]
            exact ⟨Ne.symm here, later⟩

theorem addPayee_nodup {payeeIn : CScript} {nIncrement : Int}
    {payees : List CMasternodePayee}
    (nodup : (payees.map (·.scriptPubKey)).Nodup) :
    ((addPayee payeeIn nIncrement payees).map (·.scriptPubKey)).Nodup := by
  rw [addPayee_payees]
  split
  · exact nodup
  case isFalse new =>
    refine List.nodup_append.mpr ⟨nodup, List.nodup_singleton _, ?_⟩
    intro payee here other isNew same
    rw [List.mem_singleton.mp isNew] at same
    exact new (same ▸ here)

theorem nVotesIn_addPayee (payee payeeIn : CScript) (nIncrement : Int)
    (payees : List CMasternodePayee) :
    nVotesIn payee (addPayee payeeIn nIncrement payees) =
      nVotesIn payee payees +
        if payeeIn = payee then nIncrement else 0 := by
  unfold nVotesIn
  induction payees with
  | nil =>
      rw [addPayee]
      by_cases same : payeeIn = payee
      · simp [same]
      · simp [same]
  | cons entry rest ih =>
      rw [addPayee]
      by_cases here : entry.scriptPubKey = payeeIn
      · rw [if_pos here]
        by_cases same : payeeIn = payee
        · simp [here, same]
        · simp [here, same]
      · rw [if_neg here]
        by_cases same : entry.scriptPubKey = payee
        · have other : payeeIn ≠ payee := fun isPayee =>
            here (same.trans isPayee.symm)
          simp [same, other]
        · rw [List.find?_cons_of_neg (by simpa using same), ih,
            List.find?_cons_of_neg (by simpa using same)]

/-! ## Messages -/

/-- The message comes to `CanVote`. -/
def reachesCanVote (around : Surroundings)
    (winner : CMasternodePaymentWinner) (payments : CMasternodePayments) :
    Bool :=
  around.isBlockchainSynced && !around.fLiteMode &&
    decide (around.activeProtocol ≤ around.nVersion) &&
      !payments.mapMasternodePayeeVotes.contains winner &&
        winner.isValid around && around.tipHeight.any fun nHeight =>
          decide (nFirstBlock nHeight around.countEnabled ≤
            winner.nBlockHeight ∧ winner.nBlockHeight ≤ nHeight + 20)

/-- The message passes all checks, so that its vote is added. -/
structure Accepted (around : Surroundings)
    (winner : CMasternodePaymentWinner) (payments : CMasternodePayments) :
    Prop where
  reaches : reachesCanVote around winner payments = true
  canVote : payments.mapMasternodesLastVote
    (voteKey winner.vinMasternode.prevout) ≠ some winner.nBlockHeight
  signatureValid : around.signatureValid winner = true
  getBlockHash : around.getBlockHash (winner.nBlockHeight - 100) = true

/-- The votes and tallies after a vote has been added. -/
structure Added (winner : CMasternodePaymentWinner)
    (payments after : CMasternodePayments) : Prop where
  winners : after.mapMasternodePayeeVotes.winners =
    winner :: payments.mapMasternodePayeeVotes.winners
  payeesHere : after.payeesAt winner.nBlockHeight =
    addPayee winner.payee 1 (payments.payeesAt winner.nBlockHeight)
  payeesElsewhere : ∀ nBlockHeight, nBlockHeight ≠ winner.nBlockHeight →
    after.payeesAt nBlockHeight = payments.payeesAt nBlockHeight

/-- The votes and tallies are as they were. -/
structure Kept (payments after : CMasternodePayments) : Prop where
  votes : after.mapMasternodePayeeVotes = payments.mapMasternodePayeeVotes
  blocks : after.mapMasternodeBlocks = payments.mapMasternodeBlocks

theorem addWinningMasternode_added {around : Surroundings}
    {winner : CMasternodePaymentWinner} {payments : CMasternodePayments}
    (known : around.getBlockHash (winner.nBlockHeight - 100) = true)
    (new : payments.mapMasternodePayeeVotes.contains winner = false) :
    Added winner payments
      (addWinningMasternode around winner payments).2 := by
  unfold addWinningMasternode
  rw [known, Bool.not_true, if_neg Bool.false_ne_true, dif_pos new]
  refine ⟨rfl, ?_, ?_⟩
  · unfold CMasternodePayments.payeesAt
    dsimp only
    rw [Function.update_self]
    cases payments.mapMasternodeBlocks winner.nBlockHeight with
    | none => rfl
    | some blockPayees => rfl
  · intro nBlockHeight elsewhere
    unfold CMasternodePayments.payeesAt
    dsimp only
    rw [Function.update_of_ne elsewhere]

theorem addWinningMasternode_kept {around : Surroundings}
    {winner : CMasternodePaymentWinner} {payments : CMasternodePayments}
    (unknown : around.getBlockHash (winner.nBlockHeight - 100) = false) :
    (addWinningMasternode around winner payments).2 = payments := by
  unfold addWinningMasternode
  rw [unknown]
  rfl

/-- The message after `CanVote`. -/
def afterCanVote (around : Surroundings) (winner : CMasternodePaymentWinner)
    (payments : CMasternodePayments) : CMasternodePayments :=
  let voted := (canVote winner.vinMasternode.prevout winner.nBlockHeight
    payments).2
  if around.signatureValid winner = true then
    (addWinningMasternode around winner voted).2
  else
    voted

/-- A message that does not come to `CanVote` changes nothing. -/
theorem processMnw_payments (around : Surroundings)
    (winner : CMasternodePaymentWinner) (payments : CMasternodePayments) :
    (processMnw around winner payments).payments =
      if reachesCanVote around winner payments = true ∧
          payments.mapMasternodesLastVote
            (voteKey winner.vinMasternode.prevout) ≠
              some winner.nBlockHeight then
        afterCanVote around winner payments
      else
        payments := by
  unfold processMnw reachesCanVote
  by_cases synced : around.isBlockchainSynced = true
  case neg => simp [synced, ignore]
  by_cases lite : around.fLiteMode = true
  case pos => simp [synced, lite, ignore]
  by_cases version : around.nVersion < around.activeProtocol
  · simp [synced, lite, version, ignore]
  cases tip : around.tipHeight with
  | none => simp [synced, lite, version, ignore]
  | some nHeight =>
      by_cases old : payments.mapMasternodePayeeVotes.contains winner = true
      · simp [synced, lite, version, old, processWinner, ignore]
      by_cases range : winner.nBlockHeight <
          nFirstBlock nHeight around.countEnabled ∨
            winner.nBlockHeight > nHeight + 20
      · have outside : ¬ (nFirstBlock nHeight around.countEnabled ≤
            winner.nBlockHeight ∧ winner.nBlockHeight ≤ nHeight + 20) := by
          omega
        simp [synced, lite, version, old, range, outside, processWinner,
          ignore]
      have inRange : nFirstBlock nHeight around.countEnabled ≤
          winner.nBlockHeight ∧ winner.nBlockHeight ≤ nHeight + 20 := by
        omega
      by_cases valid : winner.isValid around = true
      case neg =>
        simp [synced, lite, version, old, range, valid, processWinner, ignore]
      by_cases voted : payments.mapMasternodesLastVote
          (voteKey winner.vinMasternode.prevout) = some winner.nBlockHeight
      · simp [synced, lite, version, old, range, valid, voted, processWinner,
          canVote, ignore]
      · cases signed : around.signatureValid winner with
        | false =>
            simp [synced, lite, version, old, range, inRange, valid, voted,
              signed, processWinner, afterCanVote, canVote]
        | true =>
            simp [synced, lite, version, old, range, inRange, valid, voted,
              signed, processWinner, afterCanVote, canVote]

theorem addWinningMasternode_lastVote (around : Surroundings)
    (winner : CMasternodePaymentWinner) (payments : CMasternodePayments) :
    (addWinningMasternode around winner payments).2.mapMasternodesLastVote =
      payments.mapMasternodesLastVote := by
  unfold addWinningMasternode
  split_ifs <;> rfl

/-- A message that comes to `CanVote` leaves its height there. -/
theorem processMnw_lastVote (around : Surroundings)
    (winner : CMasternodePaymentWinner) (payments : CMasternodePayments) :
    (processMnw around winner payments).payments.mapMasternodesLastVote =
      if reachesCanVote around winner payments then
        Function.update payments.mapMasternodesLastVote
          (voteKey winner.vinMasternode.prevout) (some winner.nBlockHeight)
      else
        payments.mapMasternodesLastVote := by
  rw [processMnw_payments]
  by_cases reaches : reachesCanVote around winner payments = true
  · rw [if_pos reaches]
    by_cases voted : payments.mapMasternodesLastVote
        (voteKey winner.vinMasternode.prevout) = some winner.nBlockHeight
    · rw [if_neg (fun both => both.2 voted), ← voted, Function.update_eq_self]
    · rw [if_pos ⟨reaches, voted⟩, afterCanVote, canVote, if_neg voted]
      dsimp only
      split_ifs
      · exact addWinningMasternode_lastVote around winner _
      · rfl
  · rw [if_neg (fun both => reaches both.1), if_neg reaches]

theorem Accepted.new {around : Surroundings}
    {winner : CMasternodePaymentWinner} {payments : CMasternodePayments}
    (accepted : Accepted around winner payments) :
    payments.mapMasternodePayeeVotes.contains winner = false := by
  have reaches := accepted.reaches
  unfold reachesCanVote at reaches
  simp only [Bool.and_eq_true, Bool.not_eq_true'] at reaches
  exact reaches.1.1.2

/-- A message adds its vote if it is accepted, else votes and tallies stay. -/
theorem processMnw_cases (around : Surroundings)
    (winner : CMasternodePaymentWinner) (payments : CMasternodePayments) :
    (Accepted around winner payments ∧
        Added winner payments (processMnw around winner payments).payments) ∨
      (¬ Accepted around winner payments ∧
        Kept payments (processMnw around winner payments).payments) := by
  rw [processMnw_payments]
  by_cases reaches : reachesCanVote around winner payments = true
  case neg =>
    rw [if_neg fun both => reaches both.1]
    exact .inr ⟨fun accepted => reaches accepted.reaches, rfl, rfl⟩
  by_cases voted : payments.mapMasternodesLastVote
      (voteKey winner.vinMasternode.prevout) = some winner.nBlockHeight
  · rw [if_neg fun both => both.2 voted]
    exact .inr ⟨fun accepted => accepted.canVote voted, rfl, rfl⟩
  rw [if_pos ⟨reaches, voted⟩, afterCanVote, canVote, if_neg voted]
  dsimp only
  by_cases signed : around.signatureValid winner = true
  case neg =>
    rw [if_neg signed]
    exact .inr ⟨fun accepted => signed accepted.signatureValid, rfl, rfl⟩
  rw [if_pos signed]
  by_cases known : around.getBlockHash (winner.nBlockHeight - 100) = true
  · have accepted : Accepted around winner payments :=
      ⟨reaches, voted, signed, known⟩
    have added : Added winner { payments with
        mapMasternodesLastVote := Function.update
          payments.mapMasternodesLastVote
          (voteKey winner.vinMasternode.prevout)
          (some winner.nBlockHeight) } _ :=
      addWinningMasternode_added known accepted.new
    exact .inl ⟨accepted, added.winners, added.payeesHere,
      added.payeesElsewhere⟩
  · rw [addWinningMasternode_kept (Bool.eq_false_iff.mpr known)]
    exact .inr ⟨fun accepted => known accepted.getBlockHash, rfl, rfl⟩

theorem Kept.tallied {payments after : CMasternodePayments}
    (kept : Kept payments after) (tallied : Tallied payments) :
    Tallied after := by
  have payeesAt : ∀ nBlockHeight,
      after.payeesAt nBlockHeight = payments.payeesAt nBlockHeight := by
    intro nBlockHeight
    unfold CMasternodePayments.payeesAt
    rw [kept.blocks]
  refine ⟨?_, ?_⟩
  · intro nBlockHeight
    rw [payeesAt]
    exact tallied.payees nBlockHeight
  · intro nBlockHeight payee
    unfold CMasternodePayments.recordedVotes
    rw [payeesAt, kept.votes]
    exact tallied.counts nBlockHeight payee

theorem Kept.oneVote {payments after : CMasternodePayments}
    (kept : Kept payments after) (one : OneVote payments) : OneVote after := by
  unfold OneVote
  rw [kept.votes]
  exact one

theorem Added.tallied {winner : CMasternodePaymentWinner}
    {payments after : CMasternodePayments}
    (added : Added winner payments after) (tallied : Tallied payments) :
    Tallied after := by
  refine ⟨?_, ?_⟩
  · intro nBlockHeight
    by_cases here : nBlockHeight = winner.nBlockHeight
    · rw [here, added.payeesHere]
      exact addPayee_nodup (tallied.payees _)
    · rw [added.payeesElsewhere nBlockHeight here]
      exact tallied.payees nBlockHeight
  · intro nBlockHeight payee
    have before := tallied.counts nBlockHeight payee
    unfold CMasternodePayments.recordedVotes at before ⊢
    rw [added.winners, List.countP_cons]
    by_cases here : nBlockHeight = winner.nBlockHeight
    · rw [here] at before ⊢
      rw [added.payeesHere, nVotesIn_addPayee, before]
      by_cases same : winner.payee = payee
      · simp [same]
      · simp [same]
    · rw [added.payeesElsewhere nBlockHeight here, before,
        if_neg (by simpa using fun same => absurd same.symm here)]
      simp

/-- The masternode of the vote has a vote for the height. -/
def SecondVote (winner : CMasternodePaymentWinner)
    (payments : CMasternodePayments) : Prop :=
  ∃ vote ∈ payments.mapMasternodePayeeVotes.winners,
    vote.vinMasternode.prevout = winner.vinMasternode.prevout ∧
      vote.nBlockHeight = winner.nBlockHeight

theorem Added.oneVote_iff {winner : CMasternodePaymentWinner}
    {payments after : CMasternodePayments}
    (added : Added winner payments after) (one : OneVote payments)
    (new : payments.mapMasternodePayeeVotes.contains winner = false) :
    OneVote after ↔ ¬ SecondVote winner payments := by
  have absent : winner ∉ payments.mapMasternodePayeeVotes.winners := by
    intro member
    exact List.any_eq_false.mp new winner member (decide_eq_true rfl)
  unfold OneVote
  rw [added.winners]
  constructor
  · rintro oneAfter ⟨vote, member, sameMasternode, sameHeight⟩
    have same := oneAfter vote (List.mem_cons_of_mem _ member) winner
      List.mem_cons_self sameMasternode sameHeight
    exact absent (same ▸ member)
  · intro first vote member other memberOther sameMasternode sameHeight
    rcases List.mem_cons.mp member with rfl | here
    · rcases List.mem_cons.mp memberOther with rfl | hereOther
      · rfl
      · exact absurd ⟨other, hereOther, sameMasternode.symm, sameHeight.symm⟩
          first
    · rcases List.mem_cons.mp memberOther with rfl | hereOther
      case inl => exact absurd ⟨vote, here, sameMasternode, sameHeight⟩ first
      case inr => exact one vote here other hereOther sameMasternode sameHeight

/-! ## Cleaning -/

theorem eraseBlocks_apply (winners : List CMasternodePaymentWinner)
    (blocks : Int → Option CMasternodeBlockPayees) (nBlockHeight : Int) :
    eraseBlocks winners blocks nBlockHeight =
      if nBlockHeight ∈ winners.map (·.nBlockHeight) then none
      else blocks nBlockHeight := by
  unfold eraseBlocks
  induction winners generalizing blocks with
  | nil => rfl
  | cons winner winners ih =>
      rw [List.foldl_cons, ih, List.map_cons, Function.update_apply]
      by_cases here : nBlockHeight = winner.nBlockHeight
      · simp [here]
      · simp [here]

/-- All votes for a height are old or none is, so that they are removed
together with their tally. -/
theorem cleanPaymentList_tallied (around : Surroundings)
    {payments : CMasternodePayments} (tallied : Tallied payments) :
    Tallied (cleanPaymentList around payments) := by
  unfold cleanPaymentList
  cases around.tipHeight with
  | none => exact tallied
  | some nHeight =>
      suffices each : ∀ nBlockHeight,
          (((CMasternodePayments.payeesAt _ nBlockHeight).map
            (·.scriptPubKey)).Nodup ∧
          ∀ payee, nVotesIn payee (CMasternodePayments.payeesAt _
            nBlockHeight) = CMasternodePayments.recordedVotes _ nBlockHeight
              payee) from
        ⟨fun nBlockHeight => (each nBlockHeight).1,
          fun nBlockHeight => (each nBlockHeight).2⟩
      intro nBlockHeight
      have before := tallied.counts nBlockHeight
      unfold CMasternodePayments.payeesAt CMasternodePayments.recordedVotes
        PayeeVotes.filter
      dsimp only
      rw [eraseBlocks_apply]
      by_cases erased : nBlockHeight ∈
          (payments.mapMasternodePayeeVotes.winners.filter
            (isOld nHeight (nLimit around.size))).map (·.nBlockHeight)
      · rw [if_pos erased]
        refine ⟨List.nodup_nil, fun payee => ?_⟩
        obtain ⟨winner, isErased, rfl⟩ := List.mem_map.mp erased
        have old := of_decide_eq_true (List.mem_filter.mp isErased).2
        rw [List.countP_eq_zero.mpr]
        · rfl
        · intro other member counted
          have young := (List.mem_filter.mp member).2
          have sameHeight := (of_decide_eq_true counted).1
          unfold isOld at young
          rw [sameHeight, decide_eq_true old] at young
          cases young
      · rw [if_neg erased]
        refine ⟨tallied.payees nBlockHeight, fun payee => ?_⟩
        refine (before payee).trans ?_
        unfold CMasternodePayments.recordedVotes
        rw [List.countP_filter]
        refine congrArg Nat.cast (List.countP_congr fun winner member => ?_)
        rw [Bool.and_eq_true]
        refine (and_iff_left_of_imp fun counted => ?_).symm
        have sameHeight := (of_decide_eq_true counted).1
        rw [Bool.not_eq_true']
        refine eq_false_of_ne_true fun old => erased ?_
        exact sameHeight ▸ List.mem_map_of_mem
          (List.mem_filter.mpr ⟨member, old⟩)

theorem cleanPaymentList_oneVote (around : Surroundings)
    {payments : CMasternodePayments} (one : OneVote payments) :
    OneVote (cleanPaymentList around payments) := by
  unfold cleanPaymentList
  cases around.tipHeight with
  | none => exact one
  | some nHeight =>
      intro vote here other hereOther
      exact one vote (List.mem_filter.mp here).1 other
        (List.mem_filter.mp hereOther).1

/-! ## One vote for each height -/

theorem step_tallied {payments : CMasternodePayments}
    (tallied : Tallied payments) (step : Step) :
    Tallied (payments.step step) := by
  cases step with
  | mnw around winner =>
      rcases processMnw_cases around winner payments with
        ⟨_, added⟩ | ⟨_, kept⟩
      · exact added.tallied tallied
      · exact kept.tallied tallied
  | cleanPaymentList around => exact cleanPaymentList_tallied around tallied

theorem step_oneVote_iff {payments : CMasternodePayments}
    (one : OneVote payments) (step : Step) :
    OneVote (payments.step step) ↔ ∀ around winner,
      step = .mnw around winner → Accepted around winner payments →
        ¬ SecondVote winner payments := by
  cases step with
  | mnw around winner =>
      rcases processMnw_cases around winner payments with
        ⟨accepted, added⟩ | ⟨refused, kept⟩
      · refine (added.oneVote_iff one accepted.new).trans ⟨?_, ?_⟩
        · rintro first _ _ ⟨⟩ _
          exact first
        · exact fun first => first around winner rfl accepted
      · refine iff_of_true (kept.oneVote one) ?_
        rintro _ _ ⟨⟩ accepted
        exact absurd accepted refused
  | cleanPaymentList around =>
      exact iff_of_true (cleanPaymentList_oneVote around one) nofun

/-! ### What a masternode said last -/

/-- The payments, and the winners that have come to `CanVote`, the last one
first. -/
structure History where
  payments : CMasternodePayments
  heard : List CMasternodePaymentWinner

def History.step (history : History) : Step → History
  | .mnw around winner =>
      ⟨history.payments.step (.mnw around winner),
        if reachesCanVote around winner history.payments then
          winner :: history.heard
        else
          history.heard⟩
  | .cleanPaymentList around =>
      ⟨history.payments.step (.cleanPaymentList around), history.heard⟩

/-- The height that was heard last under a key, or else the one that was there
at the start. -/
def lastHeight (start : CMasternodePayments) (key : UInt256) :
    List CMasternodePaymentWinner → Option Int
  | [] => start.mapMasternodesLastVote key
  | winner :: earlier =>
      if voteKey winner.vinMasternode.prevout = key then
        some winner.nBlockHeight
      else
        lastHeight start key earlier

/-- `mapMasternodesLastVote` has what was heard last under each key. -/
def Recalls (start : CMasternodePayments) (history : History) : Prop :=
  ∀ key, history.payments.mapMasternodesLastVote key =
    lastHeight start key history.heard

theorem Recalls.step {start : CMasternodePayments} {history : History}
    (recalls : Recalls start history) (step : Step) :
    Recalls start (history.step step) := by
  intro key
  cases step with
  | mnw around winner =>
      change (processMnw around winner
        history.payments).payments.mapMasternodesLastVote key = _
      rw [processMnw_lastVote, History.step]
      dsimp only
      split
      · rw [lastHeight, Function.update_apply, recalls key]
        simp only [eq_comm]
      · exact recalls key
  | cleanPaymentList around =>
      refine Eq.trans ?_ (recalls key)
      change (cleanPaymentList around
        history.payments).mapMasternodesLastVote key = _
      unfold cleanPaymentList
      split <;> rfl

/--
When a masternode that has a vote for a height sends another one, which is
signed and whose block is known, then the last message under its key that came
to `CanVote` was for this height.
-/
def SaidLast (start : CMasternodePayments) (history : History) :
    Step → Prop
  | .mnw around winner =>
      SecondVote winner history.payments →
        reachesCanVote around winner history.payments = true →
          around.signatureValid winner = true →
            around.getBlockHash (winner.nBlockHeight - 100) = true →
              lastHeight start (voteKey winner.vinMasternode.prevout)
                history.heard = some winner.nBlockHeight
  | .cleanPaymentList _ => True

theorem saidLast_iff {start : CMasternodePayments} {history : History}
    (recalls : Recalls start history) (one : OneVote history.payments)
    (step : Step) :
    OneVote (history.step step).payments ↔ SaidLast start history step := by
  have same : (history.step step).payments = history.payments.step step := by
    cases step <;> rfl
  rw [same, step_oneVote_iff one]
  cases step with
  | mnw around winner =>
      dsimp only [SaidLast]
      rw [← recalls]
      constructor
      · intro first second reaches signed known
        by_contra voted
        exact first around winner rfl ⟨reaches, voted, signed, known⟩ second
      · rintro said _ _ ⟨⟩ accepted second
        exact accepted.canVote (said second accepted.reaches
          accepted.signatureValid accepted.getBlockHash)
  | cleanPaymentList around => exact iff_of_true nofun trivial

/-- In all states of a run each masternode has one vote for each height at
most, and the tallies count the votes, if and only if a masternode that votes
again for a height has said nothing else in between. -/
theorem votes_counted_once_iff (steps : List Step)
    (start : CMasternodePayments) (one : OneVote start)
    (tallied : Tallied start) :
    Always CMasternodePayments.step
        (fun payments => OneVote payments ∧ Tallied payments) steps start ↔
      Along History.step (SaidLast start) steps ⟨start, []⟩ := by
  suffices general : ∀ history, Recalls start history →
      OneVote history.payments → Tallied history.payments →
        (Always CMasternodePayments.step
            (fun payments => OneVote payments ∧ Tallied payments) steps
              history.payments ↔
          Along History.step (SaidLast start) steps history) from
    general ⟨start, []⟩ (fun _ => rfl) one tallied
  induction steps with
  | nil =>
      intro history _ one tallied
      exact iff_of_true ⟨one, tallied⟩ trivial
  | cons step steps ih =>
      intro history recalls one tallied
      have same : (history.step step).payments =
          history.payments.step step := by
        cases step <;> rfl
      have stillTallied := step_tallied tallied step
      have said := saidLast_iff recalls one step
      rw [← same] at stillTallied
      have later := fun one => ih (history.step step) (recalls.step step) one
        stillTallied
      unfold Always Along
      rw [← same, ← said]
      constructor
      · rintro ⟨_, always⟩
        exact ⟨always.start.1, (later always.start.1).mp always⟩
      · rintro ⟨oneAfter, along⟩
        exact ⟨⟨one, tallied⟩, (later oneAfter).mpr along⟩

/-- Payments without any votes. -/
def noPayments : CMasternodePayments :=
  ⟨⟨[], List.nodup_nil⟩, fun _ => none, fun _ => none⟩

/-- A synced node at height 100 that accepts all votes. -/
def openNode : Surroundings :=
  ⟨true, true, false, 1, 1, some 100, 10, 10, fun _ => some 1, fun _ _ => 1,
    fun _ => true, fun _ => true⟩

/-- A vote of one masternode. -/
def voteFor (nBlockHeight : Int) (payee : CScript) :
    CMasternodePaymentWinner :=
  ⟨⟨⟨5, 0⟩, [], 0⟩, nBlockHeight, payee, []⟩

theorem noPayments_tallied : Tallied noPayments :=
  ⟨fun _ => List.nodup_nil, fun _ _ => rfl⟩

/-- The second vote for the height is refused. -/
theorem votes_counted_once_refused :
    Always CMasternodePayments.step
      (fun payments => OneVote payments ∧ Tallied payments)
      [.mnw openNode (voteFor 110 [1]), .mnw openNode (voteFor 110 [2])]
      noPayments := by
  refine (votes_counted_once_iff _ noPayments nofun
    noPayments_tallied).mpr ⟨?_, ?_, trivial⟩
  · rintro ⟨vote, impossible, _⟩
    cases impossible
  · intro _ _ _ _
    decide

/-- With a vote for another height in between a masternode votes twice. -/
theorem masternode_votes_twice :
    ¬ Always CMasternodePayments.step
      (fun payments => OneVote payments ∧ Tallied payments)
      [.mnw openNode (voteFor 110 [1]), .mnw openNode (voteFor 111 [1]),
        .mnw openNode (voteFor 110 [2])] noPayments := by
  rintro ⟨_, _, _, one, _⟩
  have same := one (voteFor 110 [1]) (by decide) (voteFor 110 [2]) (by decide)
    rfl rfl
  exact absurd same (by decide)

end PrivateDatagram.Governance.WinnerVotes
