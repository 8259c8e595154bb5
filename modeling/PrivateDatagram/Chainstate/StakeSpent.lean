import PrivateDatagram.Chainstate.Disconnect
import PrivateDatagram.Library.ForkPoint

/-!
# Spent stakes

`AcceptBlock` judges the inputs of a coinstake before the block is connected.
It has only the coins of the tip, the recent spends in `mapStakeSpent` and the
blocks of the fork to go by.  Here its verdict is compared with the coins after
the block's own parent.

A branch is the list of the blocks from an entry back to genesis, without
genesis, whose outputs cannot be spent.  The height is the length.
-/

namespace PrivateDatagram.Chainstate.StakeSpent

open Wire.Serialize Wire.Transaction Wire.Script Coins Disconnect
  Library.ForkPoint

/-! ## Blocks and their coins -/

structure CBlock where
  hash : UInt256
  vtx : List CTransaction
deriving DecidableEq, Repr

abbrev Branch := List CBlock

def nHeight (pindex : Branch) : Int := pindex.length

/-- The coins after the last block of a branch. -/
def coinsAfter : Branch → Option CoinsMap
  | [] => some fun _ => none
  | block :: pprev =>
      match coinsAfter pprev with
      | none => none
      | some view =>
          (connectTransactions block.vtx (.ofNat (pprev.length + 1)) view).map
            Prod.snd

/-- `IsProofOfStake`, with the coinstake. -/
def coinStakeOf (block : CBlock) : Option CTransaction :=
  match block.vtx with
  | _ :: tx :: _ => if isCoinStake tx then some tx else none
  | _ => none

/-! ## Recent spends -/

/-- `mapStakeSpent`. -/
abbrev StakeMap := COutPoint → Option Int

/-- `insert`, which leaves an entry that is there. -/
def insertSpent (nHeight : Int) (spent : StakeMap) (out : COutPoint) :
    StakeMap :=
  Function.update spent out (some ((spent out).getD nHeight))

/-- The outpoints that `ConnectBlock` enters. -/
def recordedInputs (tx : CTransaction) : List COutPoint :=
  if isCoinBase tx = some true then [] else tx.vin.map CTxIn.prevout

/-- What `ConnectBlock` does to the map. -/
def connectStakes (maxReorganizationDepth : Int) (vtx : List CTransaction)
    (nHeight : Int) (spent : StakeMap) : StakeMap := fun out =>
  ((vtx.flatMap recordedInputs).foldl (insertSpent nHeight) spent out).filter
    fun height => nHeight - maxReorganizationDepth ≤ height

/-- The inputs that `DisconnectBlock` restores are erased from the map. -/
def disconnectStakes (vtx : List CTransaction) (spent : StakeMap) :
    StakeMap := fun out =>
  if out ∈ vtx.flatMap fun tx => (spentInputs tx).map CTxIn.prevout then
    none
  else
    spent out

structure Node where
  chainActive : Branch
  pcoinsTip : CoinsMap
  mapStakeSpent : StakeMap

inductive Event where
  | connect (block : CBlock)
  | disconnect
deriving DecidableEq, Repr

/--
One block on top of the active chain, or one less.  The coins of the tip are
those after the active chain.
-/
def step (maxReorganizationDepth : Int) (node : Node) : Event → Option Node
  | .connect block =>
      (coinsAfter (block :: node.chainActive)).map fun view =>
        { chainActive := block :: node.chainActive
          pcoinsTip := view
          mapStakeSpent := connectStakes maxReorganizationDepth block.vtx
            (nHeight node.chainActive + 1) node.mapStakeSpent }
  | .disconnect =>
      match node.chainActive with
      | [] => none
      | block :: pprev =>
          (coinsAfter pprev).map fun view =>
            { chainActive := pprev
              pcoinsTip := view
              mapStakeSpent := disconnectStakes block.vtx node.mapStakeSpent }

def genesisNode : Node := ⟨[], fun _ => none, fun _ => none⟩

def run (maxReorganizationDepth : Int) : Node → List Event → Option Node
  | node, [] => some node
  | node, event :: rest =>
      match step maxReorganizationDepth node event with
      | none => none
      | some node => run maxReorganizationDepth node rest

/-! ## What the map says -/

/-- A block of the active chain at this height spends the output. -/
def SpentAt (chainActive : Branch) (height : Int) (out : COutPoint) : Prop :=
  ∃ block pprev, (block :: pprev) <:+ chainActive ∧
    height = nHeight pprev + 1 ∧
    out ∈ block.vtx.flatMap fun tx => (spentInputs tx).map CTxIn.prevout

/-- The entries of the map for an output are right. -/
def EntriesRight (out : COutPoint) (node : Node) : Prop :=
  ∀ height, node.mapStakeSpent out = some height →
    SpentAt node.chainActive height out

/-- The block has the output in no input that is not spent, as those of a
zerocoin spend. -/
def SpendsWhatItHas (out : COutPoint) : Event → Prop
  | .connect block => ∀ tx ∈ block.vtx, out ∈ recordedInputs tx →
      out ∈ (spentInputs tx).map CTxIn.prevout
  | .disconnect => True

theorem SpentAt.extend {chainActive : Branch} {height : Int}
    {out : COutPoint} (spentAt : SpentAt chainActive height out)
    (block : CBlock) : SpentAt (block :: chainActive) height out := by
  rcases spentAt with ⟨spender, pprev, behind, rest⟩
  exact ⟨spender, pprev, behind.trans (List.suffix_cons block chainActive),
    rest⟩

/-- An entry is from before or has the height of the block. -/
theorem foldl_insertSpent {nHeight height : Int} {out : COutPoint}
    {outs : List COutPoint} {spent : StakeMap}
    (entered : outs.foldl (insertSpent nHeight) spent out = some height) :
    spent out = some height ∨ out ∈ outs ∧ height = nHeight := by
  induction outs generalizing spent with
  | nil => exact .inl entered
  | cons first rest ih =>
      rcases ih entered with before | ⟨member, new⟩
      · by_cases same : out = first
        · subst same
          rw [insertSpent, Function.update_self] at before
          cases known : spent out with
          | none =>
              rw [known] at before
              exact .inr ⟨List.mem_cons_self, (Option.some.inj before).symm⟩
          | some old =>
              rw [known] at before
              exact .inl before
        · rw [insertSpent, Function.update_of_ne same] at before
          exact .inl before
      · exact .inr ⟨List.mem_cons_of_mem first member, new⟩

theorem entriesRight_step {maxReorganizationDepth : Int} {node later : Node}
    {event : Event} {out : COutPoint} (right : EntriesRight out node)
    (spends : SpendsWhatItHas out event)
    (stepped : step maxReorganizationDepth node event = some later) :
    EntriesRight out later := by
  intro height entry
  cases event with
  | connect block =>
      rcases Option.map_eq_some_iff.mp stepped with ⟨view, _, rfl⟩
      rcases foldl_insertSpent (Option.filter_eq_some_iff.mp entry).1 with
        before | ⟨member, rfl⟩
      · exact (right height before).extend block
      · refine ⟨block, node.chainActive, List.suffix_rfl, rfl, ?_⟩
        rcases List.mem_flatMap.mp member with ⟨tx, inBlock, recorded⟩
        exact List.mem_flatMap.mpr ⟨tx, inBlock, spends tx inBlock recorded⟩
  | disconnect =>
      unfold step at stepped
      dsimp only at stepped
      split at stepped
      · cases stepped
      · rename_i block pprev active
        rcases Option.map_eq_some_iff.mp stepped with ⟨view, _, rfl⟩
        dsimp only [disconnectStakes] at entry
        split_ifs at entry with erased
        rcases active ▸ right height entry with ⟨spender, older, behind, rest⟩
        rcases List.suffix_cons_iff.mp behind with same | behind
        · cases same
          exact absurd rest.2 erased
        · exact ⟨spender, older, behind, rest⟩

/-- In every run an entry has the height at which the active chain spends the
output, if no zerocoin spend has it in an input. -/
theorem entriesRight_run {maxReorganizationDepth : Int} {events : List Event}
    {start node : Node} {out : COutPoint} (right : EntriesRight out start)
    (spend : ∀ event ∈ events, SpendsWhatItHas out event)
    (ran : run maxReorganizationDepth start events = some node) :
    EntriesRight out node := by
  induction events generalizing start with
  | nil =>
      cases ran
      exact right
  | cons event rest ih =>
      rcases List.forall_mem_cons.mp spend with ⟨here, later⟩
      rw [run] at ran
      split at ran
      · cases ran
      case h_2 next stepped =>
        exact ih (entriesRight_step right here stepped) later ran

theorem genesisNode_entriesRight (out : COutPoint) :
    EntriesRight out genesisNode := nofun

/-! ## The test of `AcceptBlock` -/

inductive StakeReject where
  | spendNotFound
  | earlySpend
  | doubleSpend
deriving DecidableEq, Repr

/-- The loop over the inputs, entered where not all are at the tip. -/
def checkStakeSpent (spent : StakeMap) (nHeightPrev : Int) :
    List CTxIn → Except StakeReject Unit
  | [] => .ok ()
  | txin :: rest =>
      match spent txin.prevout with
      | none => .error .spendNotFound
      | some height =>
          if height ≤ nHeightPrev then .error .earlySpend
          else checkStakeSpent spent nHeightPrev rest

/-- Whether a transaction has one of the inputs. -/
def spendsOneOf (vin : List CTxIn) (tx : CTransaction) : Bool :=
  tx.vin.any fun txin => vin.any fun stakeIn => stakeIn.prevout = txin.prevout

/-- The loop from the parent back to the active chain. -/
def checkFork (chainActive : Branch) (vin : List CTxIn) :
    Branch → Except StakeReject Unit
  | [] => .ok ()
  | last :: pprev =>
      if (last :: pprev) <:+ chainActive then .ok ()
      else if last.vtx.any (spendsOneOf vin) then .error .doubleSpend
      else checkFork chainActive vin pprev

/-- The test of a coinstake whose block has the given parent. -/
def checkStake (node : Node) (pindexPrev : Branch) (coinstake : CTransaction) :
    Option (Except StakeReject Unit) :=
  (haveInputs coinstake node.pcoinsTip).map fun atTip =>
    match (if atTip then .ok () else
        checkStakeSpent node.mapStakeSpent (nHeight pindexPrev)
          coinstake.vin) with
    | .error reason => .error reason
    | .ok _ => checkFork node.chainActive coinstake.vin pindexPrev

/-- The test of a block; without a stake there is nothing to test. -/
def spentStakeTest (node : Node) (pindexPrev : Branch) (block : CBlock) :
    Option (Except StakeReject Unit) :=
  match coinStakeOf block with
  | none => some (.ok ())
  | some coinstake => checkStake node pindexPrev coinstake

/-! ## Availability after a branch -/

/-- Whether the transaction leaves an available output at a position. -/
def creates (tx : CTransaction) (n : UInt32) : Bool :=
  match tx.vout[n.toNat]? with
  | none => false
  | some txout =>
      !isNull txout && !isUnspendable txout.scriptPubKey &&
        !isZerocoinMint txout.scriptPubKey

theorem unspent_clearUnspendable (coins : CCoins) (nPos : Nat) :
    coins.clearUnspendable.unspent nPos =
      (coins.vout[nPos]?).filter fun txout =>
        !isNull txout && !isUnspendable txout.scriptPubKey := by
  unfold CCoins.clearUnspendable
  rw [unspent_cleanup, CCoins.unspent, List.getElem?_map]
  cases coins.vout[nPos]? with
  | none => rfl
  | some txout =>
      by_cases unspendable : isUnspendable txout.scriptPubKey = true
      · simp [Option.filter, unspendable, isNull, nullTxOut]
      · simp [Option.filter, unspendable]

theorem any_unspent_fromTx {tx : CTransaction} {nHeight : Int32}
    {created : CCoins} (outputs : CCoins.fromTx tx nHeight = some created)
    (n : UInt32) :
    ((created.unspent n.toNat).any fun txout =>
      !isZerocoinMint txout.scriptPubKey) = creates tx n := by
  rcases Option.map_eq_some_iff.mp outputs with ⟨fCoinBase, _, rfl⟩
  rw [unspent_clearUnspendable, creates]
  cases tx.vout[n.toNat]? with
  | none => rfl
  | some txout =>
      by_cases kept :
          (!isNull txout && !isUnspendable txout.scriptPubKey) = true
      · simp [kept]
      · simp [kept]

/-- What a transaction does to one outpoint. -/
theorem available_updateCoins {tx : CTransaction} {nHeight : Int32}
    {view after : CoinsMap} {undos : List CTxInUndo}
    (done : updateCoins tx nHeight view = some (undos, after))
    (out : COutPoint) :
    after.available out =
      if tx.getHash = out.hash then creates tx out.n
      else if out ∈ (spentInputs tx).map CTxIn.prevout then false
      else view.available out := by
  rcases updateCoins_some done with
    ⟨_, created, middle, _, outputs, spent, rfl⟩
  rw [available_eq, available_eq]
  by_cases here : tx.getHash = out.hash
  · rw [if_pos here, ← unspent_eq, CoinsView.unspent, ← here,
      CoinsView.entry_put_self]
    exact any_unspent_fromTx outputs out.n
  · rw [if_neg here, ← unspent_eq, CoinsView.unspent,
      CoinsView.entry_put_of_ne (Ne.symm here), ← CoinsView.unspent,
      unspent_spendInputs spent]
    split_ifs <;> rfl

/--
Whether an outpoint is available after the given transactions, the newest
first: the last one that creates it or spends it decides.
-/
def leftBy (before : Bool) (out : COutPoint) : List CTransaction → Bool
  | [] => before
  | tx :: older =>
      if tx.getHash = out.hash then creates tx out.n
      else if out ∈ (spentInputs tx).map CTxIn.prevout then false
      else leftBy before out older

theorem leftBy_append (before : Bool) (out : COutPoint)
    (newer older : List CTransaction) :
    leftBy before out (newer ++ older) =
      leftBy (leftBy before out older) out newer := by
  induction newer with
  | nil => rfl
  | cons tx rest ih => rw [List.cons_append, leftBy, leftBy, ih]

theorem available_updateAll {nHeight : Int32} {vtx : List CTransaction}
    {view after : CoinsMap} {undos : List (List CTxInUndo)}
    (done : updateAll nHeight vtx view = some (undos, after))
    (out : COutPoint) :
    after.available out = leftBy (view.available out) out vtx.reverse := by
  induction vtx generalizing view undos with
  | nil =>
      cases done
      rfl
  | cons tx rest ih =>
      rw [updateAll] at done
      split at done
      · cases done
      · rename_i undo middle first
        split at done
        · cases done
        · rename_i undos' last later
          cases done
          rw [ih later, List.reverse_cons, leftBy_append,
            available_updateCoins first]
          rfl

/-- The transactions from a block back to the active chain, newest first. -/
def forkTransactions (chainActive : Branch) : Branch → List CTransaction
  | [] => []
  | last :: pprev =>
      if (last :: pprev) <:+ chainActive then []
      else last.vtx.reverse ++ forkTransactions chainActive pprev

/-- The coins where a branch leaves the active chain. -/
def forkView (chainActive pindex : Branch) : CoinsMap :=
  (coinsAfter (forkPoint chainActive pindex)).getD fun _ => none

theorem coinsAfter_cons {block : CBlock} {pprev : Branch} {view : CoinsMap}
    (found : coinsAfter (block :: pprev) = some view) :
    ∃ before undos, coinsAfter pprev = some before ∧
      updateAll (.ofNat (pprev.length + 1)) block.vtx before =
        some (undos, view) := by
  rw [coinsAfter] at found
  split at found
  · cases found
  · rename_i before isSome
    rcases Option.map_eq_some_iff.mp found with ⟨⟨undos, view'⟩, done, rfl⟩
    rcases Option.map_eq_some_iff.mp done with ⟨⟨all, last⟩, connected, same⟩
    cases same
    exact ⟨before, all, isSome, connected⟩

/-- The coins of a branch are those at its fork point and what it did since. -/
theorem available_coinsAfter (chainActive : Branch) {pindex : Branch}
    {view : CoinsMap} (found : coinsAfter pindex = some view)
    (out : COutPoint) :
    view.available out =
      leftBy ((forkView chainActive pindex).available out) out
        (forkTransactions chainActive pindex) := by
  induction pindex generalizing view with
  | nil =>
      cases found
      rfl
  | cons last pprev ih =>
      unfold forkView
      rw [forkTransactions, forkPoint]
      by_cases onChain : (last :: pprev) <:+ chainActive
      · rw [if_pos onChain, if_pos onChain, found]
        rfl
      · rcases coinsAfter_cons found with ⟨before, undos, isSome, connected⟩
        rw [if_neg onChain, if_neg onChain, leftBy_append,
          available_updateAll connected, ih isSome]
        rfl

/-! ## What the loops find -/

theorem checkStakeSpent_ok_iff (spent : StakeMap) (nHeightPrev : Int)
    (vin : List CTxIn) :
    checkStakeSpent spent nHeightPrev vin = .ok () ↔
      ∀ txin ∈ vin, (spent txin.prevout).any (nHeightPrev < ·) = true := by
  induction vin with
  | nil => simp [checkStakeSpent]
  | cons txin rest ih =>
      rw [checkStakeSpent, List.forall_mem_cons, ← ih]
      cases spent txin.prevout with
      | none => simp
      | some height =>
          by_cases early : height ≤ nHeightPrev
          · simp [early]
          · simp [early, Int.not_le.mp early]

/-- No transaction of the fork has one of the inputs. -/
def Untouched (chainActive pindexPrev : Branch) (coinstake : CTransaction) :
    Prop :=
  ∀ tx ∈ forkTransactions chainActive pindexPrev,
    spendsOneOf coinstake.vin tx = false

theorem checkFork_ok_iff (chainActive pindexPrev : Branch)
    (coinstake : CTransaction) :
    checkFork chainActive coinstake.vin pindexPrev = .ok () ↔
      Untouched chainActive pindexPrev coinstake := by
  unfold Untouched
  induction pindexPrev with
  | nil => simp [checkFork, forkTransactions]
  | cons last pprev ih =>
      rw [checkFork, forkTransactions]
      by_cases onChain : (last :: pprev) <:+ chainActive
      · simp [onChain]
      · rw [if_neg onChain, if_neg onChain]
        by_cases hit : last.vtx.any (spendsOneOf coinstake.vin) = true
        · rw [if_pos hit]
          rcases List.any_eq_true.mp hit with ⟨tx, member, spends⟩
          constructor
          · intro impossible
            cases impossible
          · intro untouched
            have kept := untouched tx (List.mem_append_left _
              (List.mem_reverse.mpr member))
            rw [spends] at kept
            cases kept
        · rw [if_neg hit, ih]
          have clean : ∀ tx ∈ last.vtx.reverse,
              spendsOneOf coinstake.vin tx = false := by
            simpa using hit
          simp only [List.mem_append, or_imp, forall_and]
          exact ⟨fun older => ⟨clean, older⟩, fun both => both.2⟩

/-- The newest transaction with the hash decides, or what was there before. -/
def heldBy (before : Bool) (out : COutPoint) (txs : List CTransaction) :
    Bool :=
  match txs.find? fun tx => tx.getHash = out.hash with
  | none => before
  | some tx => creates tx out.n

theorem leftBy_of_unspent {before : Bool} {out : COutPoint}
    {txs : List CTransaction}
    (unspent : ∀ tx ∈ txs, out ∉ (spentInputs tx).map CTxIn.prevout) :
    leftBy before out txs = heldBy before out txs := by
  induction txs with
  | nil => rfl
  | cons tx older ih =>
      rcases List.forall_mem_cons.mp unspent with ⟨here, later⟩
      rw [leftBy, heldBy, List.find?_cons]
      by_cases same : tx.getHash = out.hash
      · simp [same]
      · rw [if_neg same, if_neg here, ih later]
        simp [same, heldBy]

theorem not_spent_of_untouched {coinstake tx : CTransaction} {txin : CTxIn}
    (untouched : spendsOneOf coinstake.vin tx = false)
    (member : txin ∈ coinstake.vin) :
    txin.prevout ∉ (spentInputs tx).map CTxIn.prevout := by
  intro spent
  rcases List.mem_map.mp spent with ⟨other, inSpent, same⟩
  have inVin : other ∈ tx.vin := by
    unfold spentInputs at inSpent
    split_ifs at inSpent
    · exact inSpent
    · cases inSpent
  have hit : spendsOneOf coinstake.vin tx = true := by
    refine List.any_eq_true.mpr ⟨other, inVin, ?_⟩
    exact List.any_eq_true.mpr ⟨txin, member, decide_eq_true same.symm⟩
  rw [hit] at untouched
  cases untouched

/-! ## Judged by its own chain -/

section Verdict

variable (maxReorganizationDepth : Int) (node : Node) (pindexPrev : Branch)
  (coinstake : CTransaction)

/--
The test passes only blocks whose stake is available after their parent, and
rejects none such that forks within the limit.
-/
structure JudgedByItsChain (viewPrev : CoinsMap) (block : CBlock) : Prop where
  sound : spentStakeTest node pindexPrev block = some (.ok ()) →
    ∀ txin ∈ coinstake.vin, viewPrev.available txin.prevout = true
  complete : (∀ txin ∈ coinstake.vin,
      viewPrev.available txin.prevout = true) →
    nHeight node.chainActive -
        nHeight (forkPoint node.chainActive pindexPrev) ≤
      maxReorganizationDepth →
    ∀ reason, spentStakeTest node pindexPrev block ≠ some (.error reason)

/-- An input is unspent at the fork point or made by a block of the fork. -/
def Own (out : COutPoint) : Prop :=
  heldBy ((forkView node.chainActive pindexPrev).available out) out
    (forkTransactions node.chainActive pindexPrev) = true

/-- Every input is in the map, spent above the parent's height. -/
def SpentAbove : Prop :=
  ∀ txin ∈ coinstake.vin,
    (node.mapStakeSpent txin.prevout).any (nHeight pindexPrev < ·) = true

def ForksWithin : Prop :=
  nHeight node.chainActive -
      nHeight (forkPoint node.chainActive pindexPrev) ≤ maxReorganizationDepth

/-- An input that the parent's chain does not have is taken for good. -/
structure ForeignPasses : Prop where
  untouched : Untouched node.chainActive pindexPrev coinstake
  foreign : ∃ txin ∈ coinstake.vin, ¬ Own node pindexPrev txin.prevout
  found : haveInputs coinstake node.pcoinsTip = some true ∨
    haveInputs coinstake node.pcoinsTip = some false ∧
      SpentAbove node pindexPrev coinstake

/-- Inputs of the parent's chain, neither all at the tip nor all spent above. -/
structure OwnRejected : Prop where
  untouched : Untouched node.chainActive pindexPrev coinstake
  own : ∀ txin ∈ coinstake.vin, Own node pindexPrev txin.prevout
  within : ForksWithin maxReorganizationDepth node pindexPrev
  absent : haveInputs coinstake node.pcoinsTip = some false
  notAbove : ¬ SpentAbove node pindexPrev coinstake

/-- The fork has one of the inputs, but makes it again later. -/
structure RemadeRejected : Prop where
  touched : ¬ Untouched node.chainActive pindexPrev coinstake
  left : ∀ txin ∈ coinstake.vin,
    leftBy ((forkView node.chainActive pindexPrev).available txin.prevout)
      txin.prevout (forkTransactions node.chainActive pindexPrev) = true
  within : ForksWithin maxReorganizationDepth node pindexPrev
  readable : (haveInputs coinstake node.pcoinsTip).isSome = true

variable {maxReorganizationDepth node pindexPrev coinstake}

theorem leftBy_iff_own
    (untouched : Untouched node.chainActive pindexPrev coinstake)
    {txin : CTxIn} (member : txin ∈ coinstake.vin) :
    leftBy ((forkView node.chainActive pindexPrev).available txin.prevout)
        txin.prevout (forkTransactions node.chainActive pindexPrev) = true ↔
      Own node pindexPrev txin.prevout := by
  rw [leftBy_of_unspent, Own]
  intro tx inFork
  exact not_spent_of_untouched (untouched tx inFork) member

/-- When the test passes. -/
theorem checkStake_ok_iff :
    checkStake node pindexPrev coinstake = some (.ok ()) ↔
      Untouched node.chainActive pindexPrev coinstake ∧
        (haveInputs coinstake node.pcoinsTip = some true ∨
          haveInputs coinstake node.pcoinsTip = some false ∧
            SpentAbove node pindexPrev coinstake) := by
  unfold checkStake SpentAbove
  rw [← checkFork_ok_iff, ← checkStakeSpent_ok_iff]
  cases haveInputs coinstake node.pcoinsTip with
  | none => simp
  | some atTip =>
      cases atTip with
      | true => simp
      | false =>
          cases checkStakeSpent node.mapStakeSpent (nHeight pindexPrev)
              coinstake.vin with
          | error reason => simp
          | ok done => simp

/-- A test that has a verdict and does not pass rejects. -/
theorem checkStake_error_iff :
    (∃ reason, checkStake node pindexPrev coinstake = some (.error reason)) ↔
      (haveInputs coinstake node.pcoinsTip).isSome = true ∧
        checkStake node pindexPrev coinstake ≠ some (.ok ()) := by
  have verdict : (checkStake node pindexPrev coinstake).isSome =
      (haveInputs coinstake node.pcoinsTip).isSome := Option.isSome_map
  rw [← verdict]
  cases checkStake node pindexPrev coinstake with
  | none => simp
  | some result =>
      cases result with
      | error reason => simp
      | ok done => simp

theorem spentStakeTest_eq {block : CBlock}
    (isStake : coinStakeOf block = some coinstake) :
    spentStakeTest node pindexPrev block =
      checkStake node pindexPrev coinstake := by
  rw [spentStakeTest, isStake]

/-- A wrong pass is the pass of a foreign input. -/
theorem foreignPasses_iff {viewPrev : CoinsMap}
    (prev : coinsAfter pindexPrev = some viewPrev) :
    ForeignPasses node pindexPrev coinstake ↔
      checkStake node pindexPrev coinstake = some (.ok ()) ∧
        ∃ txin ∈ coinstake.vin, viewPrev.available txin.prevout ≠ true := by
  rw [checkStake_ok_iff]
  constructor
  · rintro ⟨untouched, ⟨txin, member, foreign⟩, found⟩
    refine ⟨⟨untouched, found⟩, txin, member, ?_⟩
    rw [Ne, available_coinsAfter node.chainActive prev,
      leftBy_iff_own untouched member]
    exact foreign
  · rintro ⟨⟨untouched, found⟩, txin, member, gone⟩
    refine ⟨untouched, ⟨txin, member, ?_⟩, found⟩
    rw [Ne, available_coinsAfter node.chainActive prev,
      leftBy_iff_own untouched member] at gone
    exact gone

/-- Where neither way to pass is open, the tip misses an input. -/
theorem absent_of_fails
    (readable : (haveInputs coinstake node.pcoinsTip).isSome = true)
    (fails : ¬ (haveInputs coinstake node.pcoinsTip = some true ∨
      haveInputs coinstake node.pcoinsTip = some false ∧
        SpentAbove node pindexPrev coinstake)) :
    haveInputs coinstake node.pcoinsTip = some false ∧
      ¬ SpentAbove node pindexPrev coinstake := by
  cases found : haveInputs coinstake node.pcoinsTip with
  | none =>
      rw [found] at readable
      cases readable
  | some atTip =>
      cases atTip with
      | false => exact ⟨rfl, fun above => fails (Or.inr ⟨found, above⟩)⟩
      | true => exact absurd (Or.inl found) fails

/-- A wrong rejection is one of two kinds. -/
theorem rejected_iff {viewPrev : CoinsMap}
    (prev : coinsAfter pindexPrev = some viewPrev) :
    OwnRejected maxReorganizationDepth node pindexPrev coinstake ∨
        RemadeRejected maxReorganizationDepth node pindexPrev coinstake ↔
      (∀ txin ∈ coinstake.vin, viewPrev.available txin.prevout = true) ∧
        ForksWithin maxReorganizationDepth node pindexPrev ∧
        ∃ reason, checkStake node pindexPrev coinstake =
          some (.error reason) := by
  rw [checkStake_error_iff, Ne, checkStake_ok_iff]
  have left : ∀ out, viewPrev.available out = leftBy
      ((forkView node.chainActive pindexPrev).available out) out
        (forkTransactions node.chainActive pindexPrev) :=
    available_coinsAfter node.chainActive prev
  constructor
  · rintro (⟨untouched, own, within, absent, notAbove⟩ |
      ⟨touched, remade, within, readable⟩)
    · refine ⟨?_, within, ?_, ?_⟩
      · intro txin member
        rw [left, leftBy_iff_own untouched member]
        exact own txin member
      · rw [absent]
        rfl
      · rintro ⟨_, atTip | ⟨_, above⟩⟩
        · rw [absent] at atTip
          cases atTip
        · exact notAbove above
    · refine ⟨?_, within, readable, fun passes => touched passes.1⟩
      intro txin member
      rw [left]
      exact remade txin member
  · rintro ⟨available, within, readable, fails⟩
    by_cases untouched : Untouched node.chainActive pindexPrev coinstake
    · rcases absent_of_fails readable
        (fun passes => fails ⟨untouched, passes⟩) with ⟨absent, notAbove⟩
      refine Or.inl ⟨untouched, ?_, within, absent, notAbove⟩
      intro txin member
      rw [← leftBy_iff_own untouched member, ← left]
      exact available txin member
    · refine Or.inr ⟨untouched, ?_, within, readable⟩
      intro txin member
      rw [← left]
      exact available txin member

end Verdict

/-- The test is right exactly where none of the three kinds of slips occurs. -/
theorem stake_judged_by_its_chain_iff (maxReorganizationDepth : Int)
    (node : Node) (pindexPrev : Branch) (viewPrev : CoinsMap) (block : CBlock)
    (coinstake : CTransaction)
    (isStake : coinStakeOf block = some coinstake)
    (prev : coinsAfter pindexPrev = some viewPrev) :
    JudgedByItsChain maxReorganizationDepth node pindexPrev coinstake viewPrev
        block ↔
      ¬ ForeignPasses node pindexPrev coinstake ∧
      ¬ OwnRejected maxReorganizationDepth node pindexPrev coinstake ∧
      ¬ RemadeRejected maxReorganizationDepth node pindexPrev coinstake := by
  rw [← not_or, foreignPasses_iff prev, rejected_iff prev]
  constructor
  · rintro ⟨sound, complete⟩
    rw [spentStakeTest_eq isStake] at sound complete
    constructor
    · rintro ⟨passes, txin, member, gone⟩
      exact gone (sound passes txin member)
    · rintro ⟨available, within, reason, rejects⟩
      exact complete available within reason rejects
  · rintro ⟨noPass, noReject⟩
    refine ⟨?_, ?_⟩
    · rw [spentStakeTest_eq isStake]
      intro passes txin member
      by_contra gone
      exact noPass ⟨passes, txin, member, gone⟩
    · rw [spentStakeTest_eq isStake]
      intro available within reason rejects
      exact noReject ⟨available, within, reason, rejects⟩

/-! ## A stake of the other branch -/

def coinbaseOf (hash : UInt256) : CTransaction :=
  plainTx hash [⟨⟨0, 0xffffffff⟩, [0x51, 0x51], 0⟩] [⟨5, [0x52]⟩]

/-- A block with a coinbase. -/
def firstBlock : CBlock := ⟨101, [coinbaseOf 1]⟩

/-- A block on the first that pays the coin of its coinbase to transaction 3. -/
def payingBlock : CBlock :=
  ⟨102, [coinbaseOf 2,
    plainTx 3 [⟨⟨1, 0⟩, [0x51], 0xffffffff⟩] [⟨5, [0x52]⟩]]⟩

/-- A coinstake that spends the first output of a transaction. -/
def stakeOf (hash : UInt256) : CTransaction :=
  plainTx 5 [⟨⟨hash, 0⟩, [0x51], 0xffffffff⟩] [⟨0, []⟩, ⟨6, [0x52]⟩]

def stakingBlock (hash : UInt256) : CBlock :=
  ⟨103, [coinbaseOf 4, stakeOf hash]⟩

/-- The node after the two blocks. -/
def twoBlocks : Node :=
  (run 100 genesisNode [.connect firstBlock, .connect payingBlock]).getD
    genesisNode

theorem twoBlocks_reached :
    run 100 genesisNode [.connect firstBlock, .connect payingBlock] =
      some twoBlocks := by
  have reached : (run 100 genesisNode
      [.connect firstBlock, .connect payingBlock]).isSome = true := by
    decide +kernel
  rcases Option.isSome_iff_exists.mp reached with ⟨node, ran⟩
  rw [twoBlocks, ran]
  rfl

theorem firstBlock_coins : ∃ view, coinsAfter [firstBlock] = some view := by
  apply Option.isSome_iff_exists.mp
  decide +kernel

theorem stake_of_spent_coin_judged :
    ∃ viewPrev, coinsAfter [firstBlock] = some viewPrev ∧
      JudgedByItsChain 100 twoBlocks [firstBlock] (stakeOf 1) viewPrev
        (stakingBlock 1) := by
  rcases firstBlock_coins with ⟨viewPrev, prev⟩
  refine ⟨viewPrev, prev, ?_⟩
  apply (stake_judged_by_its_chain_iff 100 twoBlocks [firstBlock] viewPrev
    (stakingBlock 1) (stakeOf 1) (by decide +kernel) prev).mpr
  refine ⟨?_, ?_, ?_⟩
  · rintro ⟨_, foreign, _⟩
    have own : ∀ txin ∈ (stakeOf 1).vin,
        heldBy ((forkView twoBlocks.chainActive [firstBlock]).available
          txin.prevout) txin.prevout
          (forkTransactions twoBlocks.chainActive [firstBlock]) = true := by
      decide +kernel
    rcases foreign with ⟨txin, member, other⟩
    exact other (own txin member)
  · intro rejected
    apply rejected.notAbove
    unfold SpentAbove
    decide +kernel
  · intro rejected
    apply rejected.touched
    unfold Untouched
    decide +kernel

theorem stake_of_other_branch_passes :
    ¬ ∀ (maxReorganizationDepth : Int) (events : List Event) (node : Node)
        (pindexPrev : Branch) (viewPrev : CoinsMap) (block : CBlock)
        (coinstake : CTransaction),
      run maxReorganizationDepth genesisNode events = some node →
      coinStakeOf block = some coinstake →
      coinsAfter pindexPrev = some viewPrev →
      JudgedByItsChain maxReorganizationDepth node pindexPrev coinstake
        viewPrev block := by
  intro judged
  rcases firstBlock_coins with ⟨viewPrev, prev⟩
  have verdict := judged 100 _ twoBlocks [firstBlock] viewPrev
    (stakingBlock 3) (stakeOf 3) twoBlocks_reached (by decide +kernel) prev
  have passes : spentStakeTest twoBlocks [firstBlock] (stakingBlock 3) =
      some (.ok ()) := by
    decide +kernel
  have there := verdict.sound passes ⟨⟨3, 0⟩, [0x51], 0xffffffff⟩
    List.mem_cons_self
  have absent : ((coinsAfter [firstBlock]).map fun view =>
      view.available ⟨3, 0⟩) = some false := by
    decide +kernel
  rw [prev, Option.map_some, there] at absent
  cases absent

end PrivateDatagram.Chainstate.StakeSpent
