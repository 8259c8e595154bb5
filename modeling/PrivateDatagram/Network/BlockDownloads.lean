import PrivateDatagram.Library.GuardedRun
import PrivateDatagram.Library.PartialMap
import PrivateDatagram.Wire.Serialize

/-!
# Blocks in flight

Each node has a queue of the blocks that were requested from it.
`mapBlocksInFlight` finds a block in the queues, and counters have the length
of each queue and the number of all blocks with validated headers.
-/

namespace PrivateDatagram.Network.BlockDownloads

open Library.GuardedRun Library.PartialMap Wire.Serialize

abbrev NodeId := Int

structure QueuedBlock where
  hash : UInt256
  nTime : Int
  nValidatedQueuedBefore : Int
  fValidatedHeaders : Bool
deriving DecidableEq, Repr

/-- The part of a node's state that is about blocks in flight. -/
structure CNodeState where
  vBlocksInFlight : List QueuedBlock
  nBlocksInFlight : Int
  nStallingSince : Int
deriving DecidableEq, Repr

structure Downloads where
  mapNodeState : AList fun _ : NodeId => CNodeState
  /-- A node, and the entry that the iterator stands at. -/
  mapBlocksInFlight : UInt256 → Option (NodeId × QueuedBlock)
  nQueuedValidatedHeaders : Int

def initializeNode (nodeid : NodeId) (downloads : Downloads) : Downloads :=
  match downloads.mapNodeState.lookup nodeid with
  | some _ => downloads
  | none =>
      { downloads with
        mapNodeState := downloads.mapNodeState.insert nodeid ⟨[], 0, 0⟩ }

/-- The node is known, or the process ends here. -/
def finalizeNode (nodeid : NodeId) (downloads : Downloads) : Downloads :=
  match downloads.mapNodeState.lookup nodeid with
  | none => downloads
  | some state =>
      { downloads with
        mapBlocksInFlight := eraseKeys
          (state.vBlocksInFlight.map (·.hash)) downloads.mapBlocksInFlight
        mapNodeState := downloads.mapNodeState.erase nodeid }

/-- The state of a node without an entry. -/
def CNodeState.without (entry : QueuedBlock) (state : CNodeState) :
    CNodeState where
  vBlocksInFlight := state.vBlocksInFlight.erase entry
  nBlocksInFlight := state.nBlocksInFlight - 1
  nStallingSince := 0

def markBlockAsReceived (hash : UInt256) (downloads : Downloads) :
    Downloads :=
  match downloads.mapBlocksInFlight hash with
  | none => downloads
  | some (nodeid, entry) =>
      match downloads.mapNodeState.lookup nodeid with
      | none => downloads
      | some state =>
          { mapNodeState :=
              downloads.mapNodeState.insert nodeid (state.without entry)
            mapBlocksInFlight :=
              Function.update downloads.mapBlocksInFlight hash none
            nQueuedValidatedHeaders := downloads.nQueuedValidatedHeaders -
              entry.fValidatedHeaders.toInt }

/-- The state of a node with a new entry. -/
def CNodeState.withNew (entry : QueuedBlock) (state : CNodeState) :
    CNodeState :=
  { state with
    vBlocksInFlight := state.vBlocksInFlight ++ [entry]
    nBlocksInFlight := state.nBlocksInFlight + 1 }

/-- Queue a block that is in no queue. -/
def queueBlock (nodeid : NodeId) (hash : UInt256) (known : Bool)
    (nTime : Int) (downloads : Downloads) : Downloads :=
  match downloads.mapNodeState.lookup nodeid with
  | none => downloads
  | some state =>
      let newentry : QueuedBlock :=
        ⟨hash, nTime, downloads.nQueuedValidatedHeaders, known⟩
      { mapNodeState :=
          downloads.mapNodeState.insert nodeid (state.withNew newentry)
        mapBlocksInFlight := Function.update downloads.mapBlocksInFlight hash
          (some (nodeid, newentry))
        nQueuedValidatedHeaders :=
          downloads.nQueuedValidatedHeaders + known.toInt }

/-- The node is known, as the function asserts.  The header is known when
`pindex` is given. -/
def markBlockAsInFlight (nodeid : NodeId) (hash : UInt256) (known : Bool)
    (nTime : Int) (downloads : Downloads) : Downloads :=
  match downloads.mapNodeState.lookup nodeid with
  | none => downloads
  | some _ =>
      queueBlock nodeid hash known nTime (markBlockAsReceived hash downloads)

def noDownloads : Downloads := ⟨∅, fun _ => none, 0⟩

/-! ## Runs -/

inductive Step where
  | initializeNode (nodeid : NodeId)
  | finalizeNode (nodeid : NodeId)
  | markBlockAsInFlight (nodeid : NodeId) (hash : UInt256) (known : Bool)
      (nTime : Int)
  | markBlockAsReceived (hash : UInt256)

/-- A call that would end the process leaves the state as it is. -/
def Downloads.step (downloads : Downloads) : Step → Downloads
  | .initializeNode nodeid => BlockDownloads.initializeNode nodeid downloads
  | .finalizeNode nodeid => BlockDownloads.finalizeNode nodeid downloads
  | .markBlockAsInFlight nodeid hash known nTime =>
      BlockDownloads.markBlockAsInFlight nodeid hash known nTime downloads
  | .markBlockAsReceived hash =>
      BlockDownloads.markBlockAsReceived hash downloads

/-! ## Accounting -/

/-- The entries with validated headers. -/
def CNodeState.validated (state : CNodeState) : Nat :=
  state.vBlocksInFlight.countP (·.fValidatedHeaders)

/-- A queue of a connected node has the entry. -/
def Downloads.InFlight (downloads : Downloads) (nodeid : NodeId)
    (entry : QueuedBlock) : Prop :=
  ∃ state, downloads.mapNodeState.lookup nodeid = some state ∧
    entry ∈ state.vBlocksInFlight

/-- The map has exactly the entries of the queues, each under its hash, a
queue has a hash once, and the counters are right. -/
structure Accounted (downloads : Downloads) : Prop where
  listed : ∀ hash nodeid entry,
    downloads.mapBlocksInFlight hash = some (nodeid, entry) ↔
      downloads.InFlight nodeid entry ∧ entry.hash = hash
  distinct : ∀ nodeid state,
    downloads.mapNodeState.lookup nodeid = some state →
      (state.vBlocksInFlight.map (·.hash)).Nodup
  counted : ∀ nodeid state,
    downloads.mapNodeState.lookup nodeid = some state →
      state.nBlocksInFlight = state.vBlocksInFlight.length
  headers : downloads.nQueuedValidatedHeaders =
    total CNodeState.validated downloads.mapNodeState

section Accounting

variable {downloads : Downloads}

theorem Accounted.entry_eq (accounted : Accounted downloads)
    {nodeid other : NodeId} {entry otherEntry : QueuedBlock}
    (inFlight : downloads.InFlight nodeid entry)
    (otherInFlight : downloads.InFlight other otherEntry)
    (sameHash : entry.hash = otherEntry.hash) :
    nodeid = other ∧ entry = otherEntry := by
  have found := (accounted.listed entry.hash nodeid entry).mpr ⟨inFlight, rfl⟩
  have foundOther := (accounted.listed entry.hash other otherEntry).mpr
    ⟨otherInFlight, sameHash.symm⟩
  have same := Option.some.inj (found.symm.trans foundOther)
  exact ⟨congrArg Prod.fst same, congrArg Prod.snd same⟩

/-- A received block is taken out of the queue that has it. -/
theorem Accounted.inFlight_without (accounted : Accounted downloads)
    {nodeid : NodeId} {state : CNodeState} {entry : QueuedBlock}
    (isNode : downloads.mapNodeState.lookup nodeid = some state)
    (queued : entry ∈ state.vBlocksInFlight) {after : Downloads}
    (changed : after.mapNodeState =
      downloads.mapNodeState.insert nodeid (state.without entry))
    (other : NodeId) (otherEntry : QueuedBlock) :
    after.InFlight other otherEntry ↔
      downloads.InFlight other otherEntry ∧
        otherEntry.hash ≠ entry.hash := by
  have nodup := (accounted.distinct nodeid state isNode).of_map
  have apart : ∀ {other otherEntry}, downloads.InFlight other otherEntry →
      otherEntry.hash = entry.hash → other = nodeid ∧ otherEntry = entry :=
    fun inFlight sameHash =>
      accounted.entry_eq inFlight ⟨state, isNode, queued⟩ sameHash
  unfold Downloads.InFlight at apart ⊢
  rw [changed, lookup_insert_eq]
  split_ifs
  case pos here =>
    subst here
    constructor
    · rintro ⟨_, ⟨⟩, member⟩
      have old := List.mem_of_mem_erase member
      refine ⟨⟨state, isNode, old⟩, fun sameHash => ?_⟩
      rw [(apart ⟨state, isNode, old⟩ sameHash).2] at member
      exact nodup.not_mem_erase member
    · rintro ⟨⟨_, isState, member⟩, different⟩
      cases isNode.symm.trans isState
      refine ⟨_, rfl, (List.mem_erase_of_ne ?_).mpr member⟩
      rintro rfl
      exact different rfl
  case neg elsewhere =>
    refine ⟨fun inFlight => ⟨inFlight, fun sameHash => ?_⟩, And.left⟩
    exact elsewhere (apart inFlight sameHash).1

theorem validated_without {state : CNodeState} {entry : QueuedBlock}
    (queued : entry ∈ state.vBlocksInFlight) :
    (state.validated : Int) =
      (state.without entry).validated + entry.fValidatedHeaders.toInt := by
  unfold CNodeState.validated CNodeState.without
  rw [(List.perm_cons_erase queued).countP_eq, List.countP_cons]
  cases entry.fValidatedHeaders with
  | true => simp
  | false => simp

theorem markBlockAsReceived_accounted (accounted : Accounted downloads)
    (hash : UInt256) : Accounted (markBlockAsReceived hash downloads) := by
  unfold markBlockAsReceived
  cases found : downloads.mapBlocksInFlight hash with
  | none => exact accounted
  | some place =>
      obtain ⟨nodeid, entry⟩ := place
      obtain ⟨⟨state, isNode, queued⟩, rfl⟩ :=
        (accounted.listed hash nodeid entry).mp found
      dsimp only
      rw [isNode]
      dsimp only
      refine ⟨?_, ?_, ?_, ?_⟩
      · intro hash other otherEntry
        rw [accounted.inFlight_without isNode queued rfl]
        dsimp only
        rw [Function.update_apply]
        split_ifs
        case pos here =>
          rw [here]
          exact iff_of_false nofun fun both => both.1.2 both.2
        case neg elsewhere =>
          rw [accounted.listed]
          refine and_congr_left fun isHash => (and_iff_left ?_).symm
          rw [isHash]
          exact elsewhere
      · apply of_lookup_insert accounted.distinct
        exact (accounted.distinct nodeid state isNode).sublist
          (List.erase_sublist.map _)
      · apply of_lookup_insert accounted.counted
        have before := accounted.counted nodeid state isNode
        have length := List.length_pos_of_mem queued
        unfold CNodeState.without
        dsimp only
        rw [List.length_erase_of_mem queued]
        omega
      · have before := accounted.headers
        have taken := total_erase CNodeState.validated isNode
        have validated := validated_without queued
        dsimp only
        rw [total_insert_erase]
        omega

theorem markBlockAsReceived_absent (accounted : Accounted downloads)
    (hash : UInt256) :
    (markBlockAsReceived hash downloads).mapBlocksInFlight hash = none := by
  unfold markBlockAsReceived
  cases found : downloads.mapBlocksInFlight hash with
  | none => exact found
  | some place =>
      obtain ⟨nodeid, entry⟩ := place
      obtain ⟨⟨state, isNode, _⟩, _⟩ :=
        (accounted.listed hash nodeid entry).mp found
      dsimp only
      rw [isNode]
      exact Function.update_self ..

/-- A new block is in the queue of its node. -/
theorem inFlight_withNew {nodeid : NodeId} {state : CNodeState}
    {newentry : QueuedBlock}
    (isNode : downloads.mapNodeState.lookup nodeid = some state)
    {after : Downloads} (changed : after.mapNodeState =
      downloads.mapNodeState.insert nodeid (state.withNew newentry))
    (other : NodeId) (entry : QueuedBlock) :
    after.InFlight other entry ↔ downloads.InFlight other entry ∨
      (other = nodeid ∧ entry = newentry) := by
  unfold Downloads.InFlight
  rw [changed, lookup_insert_eq]
  split_ifs
  case pos here =>
    subst here
    simp only [isNode, Option.some.injEq, exists_eq_left', true_and]
    unfold CNodeState.withNew
    rw [List.mem_append, List.mem_singleton]
  case neg elsewhere => simp [elsewhere]

/-- A block without a place is in no queue. -/
theorem Accounted.unseen (accounted : Accounted downloads) {hash : UInt256}
    (absent : downloads.mapBlocksInFlight hash = none) {nodeid : NodeId}
    {entry : QueuedBlock} (inFlight : downloads.InFlight nodeid entry) :
    entry.hash ≠ hash := by
  rintro rfl
  have found := (accounted.listed entry.hash nodeid entry).mpr
    ⟨inFlight, rfl⟩
  cases absent.symm.trans found

theorem validated_withNew (state : CNodeState) (entry : QueuedBlock) :
    ((state.withNew entry).validated : Int) =
      state.validated + entry.fValidatedHeaders.toInt := by
  unfold CNodeState.validated CNodeState.withNew
  rw [List.countP_append, List.countP_singleton]
  cases entry.fValidatedHeaders with
  | true => simp
  | false => simp

theorem queueBlock_accounted (accounted : Accounted downloads)
    {hash : UInt256} (absent : downloads.mapBlocksInFlight hash = none)
    (nodeid : NodeId) (known : Bool) (nTime : Int) :
    Accounted (queueBlock nodeid hash known nTime downloads) := by
  unfold queueBlock
  cases isNode : downloads.mapNodeState.lookup nodeid with
  | none => exact accounted
  | some state =>
      dsimp only
      refine ⟨?_, ?_, ?_, ?_⟩
      · intro other otherNode entry
        rw [inFlight_withNew isNode rfl]
        dsimp only
        rw [Function.update_apply]
        split_ifs
        case pos here =>
          subst here
          rw [Option.some.injEq, Prod.mk.injEq]
          constructor
          · rintro ⟨rfl, rfl⟩
            exact ⟨.inr ⟨rfl, rfl⟩, rfl⟩
          · rintro ⟨old | ⟨isSame, isNew⟩, isHash⟩
            · exact absurd isHash (accounted.unseen absent old)
            · exact ⟨isSame.symm, isNew.symm⟩
        case neg elsewhere =>
          rw [accounted.listed]
          refine and_congr_left fun isHash => (or_iff_left ?_).symm
          rintro ⟨_, rfl⟩
          exact elsewhere isHash.symm
      · apply of_lookup_insert accounted.distinct
        unfold CNodeState.withNew
        dsimp only
        rw [List.map_append]
        refine (accounted.distinct nodeid state isNode).append
          (List.nodup_singleton _) (List.disjoint_singleton.mpr ?_)
        intro here
        obtain ⟨entry, member, isHash⟩ := List.mem_map.mp here
        exact accounted.unseen absent ⟨state, isNode, member⟩ isHash
      · apply of_lookup_insert accounted.counted
        have before := accounted.counted nodeid state isNode
        unfold CNodeState.withNew
        dsimp only
        rw [List.length_append, before]
        rfl
      · have before := accounted.headers
        have taken := total_erase CNodeState.validated isNode
        have added := validated_withNew state
          ⟨hash, nTime, downloads.nQueuedValidatedHeaders, known⟩
        dsimp only at added ⊢
        rw [total_insert_erase]
        omega

theorem initializeNode_accounted (accounted : Accounted downloads)
    (nodeid : NodeId) : Accounted (initializeNode nodeid downloads) := by
  unfold initializeNode
  cases isNew : downloads.mapNodeState.lookup nodeid with
  | some _ => exact accounted
  | none =>
      refine ⟨?_, ?_, ?_, ?_⟩
      · intro hash other entry
        rw [accounted.listed]
        refine and_congr_left fun _ => ?_
        unfold Downloads.InFlight
        dsimp only
        rw [lookup_insert_eq]
        split_ifs
        case pos here =>
          rw [here, isNew]
          simp
        case neg => rfl
      · exact of_lookup_insert accounted.distinct List.nodup_nil
      · exact of_lookup_insert accounted.counted rfl
      · dsimp only
        rw [total_insert _ isNew]
        exact accounted.headers

theorem inFlight_erase (nodeid : NodeId) {after : Downloads}
    (changed : after.mapNodeState = downloads.mapNodeState.erase nodeid)
    (other : NodeId) (entry : QueuedBlock) :
    after.InFlight other entry ↔
      other ≠ nodeid ∧ downloads.InFlight other entry := by
  unfold Downloads.InFlight
  rw [changed]
  by_cases here : other = nodeid
  · rw [here, AList.lookup_erase]
    simp
  · rw [AList.lookup_erase_ne here]
    simp [here]

/-- The counter of validated headers is not told about a lost queue. -/
theorem finalizeNode_accounted_iff (accounted : Accounted downloads)
    (nodeid : NodeId) :
    Accounted (finalizeNode nodeid downloads) ↔
      ∀ entry, downloads.InFlight nodeid entry →
        entry.fValidatedHeaders = false := by
  unfold finalizeNode
  cases isNode : downloads.mapNodeState.lookup nodeid with
  | none =>
      refine iff_of_true accounted ?_
      rintro entry ⟨state, impossible, _⟩
      cases isNode.symm.trans impossible
  | some state =>
      have taken := total_erase CNodeState.validated isNode
      have before := accounted.headers
      have noneValidated : state.validated = 0 ↔
          ∀ entry, downloads.InFlight nodeid entry →
            entry.fValidatedHeaders = false := by
        unfold CNodeState.validated Downloads.InFlight
        simp [isNode]
      rw [← noneValidated]
      constructor
      · intro after
        have headers := after.headers
        dsimp only at headers
        omega
      · intro noHeaders
        refine ⟨?_, ?_, ?_, ?_⟩
        · intro hash other entry
          rw [inFlight_erase nodeid rfl]
          dsimp only
          rw [eraseKeys_apply]
          split_ifs
          case pos here =>
            obtain ⟨lost, queued, isHash⟩ := List.mem_map.mp here
            refine iff_of_false nofun ?_
            rintro ⟨⟨elsewhere, inFlight⟩, sameHash⟩
            refine elsewhere (accounted.entry_eq inFlight
              ⟨state, isNode, queued⟩ (sameHash.trans isHash.symm)).1
          case neg kept =>
            rw [accounted.listed]
            refine and_congr_left fun isHash => (and_iff_right_of_imp ?_).symm
            rintro ⟨otherState, isOther, member⟩ rfl
            cases isNode.symm.trans isOther
            exact kept (isHash ▸ List.mem_map_of_mem member)
        · intro other otherState isOther
          exact accounted.distinct other otherState (of_lookup_erase isOther).2
        · intro other otherState isOther
          exact accounted.counted other otherState (of_lookup_erase isOther).2
        · dsimp only
          omega

end Accounting

/-! ## Runs without lost headers -/

/-- A node that is finalized has no block with a validated header in
flight. -/
def KeepsHeaders (downloads : Downloads) : Step → Prop
  | .finalizeNode nodeid => ∀ entry, downloads.InFlight nodeid entry →
      entry.fValidatedHeaders = false
  | _ => True

theorem step_accounted_iff {downloads : Downloads}
    (accounted : Accounted downloads) (step : Step) :
    Accounted (downloads.step step) ↔ KeepsHeaders downloads step := by
  cases step with
  | initializeNode nodeid =>
      exact iff_of_true (initializeNode_accounted accounted nodeid) trivial
  | finalizeNode nodeid => exact finalizeNode_accounted_iff accounted nodeid
  | markBlockAsReceived hash =>
      exact iff_of_true (markBlockAsReceived_accounted accounted hash) trivial
  | markBlockAsInFlight nodeid hash known nTime =>
      refine iff_of_true ?_ trivial
      unfold Downloads.step markBlockAsInFlight
      dsimp only
      cases downloads.mapNodeState.lookup nodeid with
      | none => exact accounted
      | some _ =>
          exact queueBlock_accounted
            (markBlockAsReceived_accounted accounted hash)
            (markBlockAsReceived_absent accounted hash) nodeid known nTime

theorem noDownloads_accounted : Accounted noDownloads where
  listed hash nodeid entry := by
    refine iff_of_false nofun ?_
    rintro ⟨⟨state, impossible, _⟩, _⟩
    cases impossible
  distinct := nofun
  counted := nofun
  headers := rfl

/-- In all states of a run the map and the counters agree with the queues if
and only if no node is finalized with a validated header in flight. -/
theorem downloads_accounted_iff (steps : List Step) :
    Always Downloads.step Accounted steps noDownloads ↔
      Along Downloads.step KeepsHeaders steps noDownloads := by
  refine always_iff_along ?_ noDownloads_accounted steps
  exact fun downloads step accounted => step_accounted_iff accounted step

/-- A node that disconnects with a known block in flight leaves the counter
of validated headers at one. -/
theorem lost_queue_counted :
    ¬ Always Downloads.step Accounted
      [.initializeNode 1, .markBlockAsInFlight 1 7 true 0, .finalizeNode 1]
      noDownloads := by
  rintro ⟨_, _, _, accounted⟩
  exact absurd accounted.headers (by decide)

end PrivateDatagram.Network.BlockDownloads
