import PrivateDatagram.Governance.BudgetVotes

/-!
# Budget tallies

When all orders of a set of budget items and votes leave the same votes.  An
unknown item keeps one early vote only, that of the masternode whose vote came
last; of two votes of a masternode that are less than an hour apart the first
to arrive stays.
-/

namespace PrivateDatagram.Governance.BudgetVotes

open Library.SpacedRegister Wire.Serialize Wire.Transaction

variable {kind : Kind}

/-! ## Runs -/

structure Delivery where
  around : Surroundings
  message : Message

def deliver (deliveries : List Delivery) (manager : CBudgetManager) :
    CBudgetManager :=
  deliveries.foldl (fun manager delivery =>
    (processMessage delivery.around delivery.message manager).manager) manager

/-- The node receives the messages of the set, each of them at least once. -/
structure Order (accepts : Kind → UInt256 → Bool) (messages : Set Message)
    (deliveries : List Delivery) : Prop where
  fair : ∀ delivery ∈ deliveries, Fair accepts messages delivery.around
  messages_eq : ∀ message,
    message ∈ deliveries.map Delivery.message ↔ message ∈ messages

section Runs

variable {accepts : Kind → UInt256 → Bool} {messages : Set Message}
  {deliveries : List Delivery} {manager : CBudgetManager}

/-- Fair deliveries of messages of the set. -/
def Honest (accepts : Kind → UInt256 → Bool) (messages : Set Message)
    (deliveries : List Delivery) : Prop :=
  ∀ delivery ∈ deliveries,
    Fair accepts messages delivery.around ∧ delivery.message ∈ messages

theorem Order.honest (order : Order accepts messages deliveries) :
    Honest accepts messages deliveries := by
  intro delivery here
  refine ⟨order.fair delivery here, ?_⟩
  exact (order.messages_eq delivery.message).mp (List.mem_map_of_mem here)

theorem Honest.head {delivery : Delivery}
    (honest : Honest accepts messages (delivery :: deliveries)) :
    Fair accepts messages delivery.around ∧ delivery.message ∈ messages :=
  honest delivery List.mem_cons_self

theorem Honest.tail {delivery : Delivery}
    (honest : Honest accepts messages (delivery :: deliveries)) :
    Honest accepts messages deliveries :=
  fun other here => honest other (List.mem_cons_of_mem _ here)

/-- The vote is delivered, and is new to the manager. -/
def Comes (manager : CBudgetManager) (deliveries : List Delivery)
    (vote : Vote kind) : Prop :=
  .vote kind vote ∈ deliveries.map Delivery.message ∧
    manager.seen (.vote kind vote) = false

/-- The votes that come are the first message, when it is one, and those that
come afterwards. -/
theorem comes_cons {delivery : Delivery}
    (honest : Honest accepts messages (delivery :: deliveries))
    (vote : Vote kind) :
    Comes manager (delivery :: deliveries) vote ↔
      (delivery.message = .vote kind vote ∧
          manager.seen delivery.message = false) ∨
        Comes (processMessage delivery.around delivery.message
          manager).manager deliveries vote := by
  have seen : _ ↔ manager.seen (.vote kind vote) = true ∨ _ :=
    processMessage_seen_vote honest.head.1 honest.head.2 vote
  unfold Comes
  rw [List.map_cons, List.mem_cons, ← Bool.not_eq_true, ← Bool.not_eq_true,
    ← Bool.not_eq_true, seen]
  by_cases same : delivery.message = .vote kind vote
  · simp [same]
  · simp [same, Ne.symm same]

theorem known_run (honest : Honest accepts messages deliveries)
    (sound : Sound messages manager) {hash : UInt256}
    (known : (manager.view kind hash).votes.isSome)
    (masternode : COutPoint) :
    ∃ entries : List (Vote kind),
      (∀ vote, vote ∈ entries ↔
        vote.Names hash masternode ∧ Comes manager deliveries vote) ∧
      recorded (deliver deliveries manager) kind hash masternode =
        final Vote.time voteGap
          (recorded manager kind hash masternode) entries := by
  induction deliveries generalizing manager with
  | nil =>
      refine ⟨[], ?_, rfl⟩
      intro vote
      refine iff_of_false nofun ?_
      rintro ⟨_, impossible, _⟩
      cases impossible
  | cons delivery deliveries ih =>
      obtain ⟨fair, listed⟩ := honest.head
      obtain ⟨stillKnown, step⟩ :=
        known_step fair sound listed known masternode
      obtain ⟨entries, entries_iff, left⟩ := ih honest.tail
        (processMessage_sound fair sound listed) stillKnown
      rcases step with ⟨vote, isVote, unseen, names, next⟩ | ⟨other, next⟩
      · refine ⟨vote :: entries, ?_, ?_⟩
        · intro entry
          rw [List.mem_cons, entries_iff, comes_cons honest, isVote]
          rw [isVote] at unseen
          constructor
          · rintro (rfl | ⟨namesEntry, comes⟩)
            · exact ⟨names, .inl ⟨rfl, unseen⟩⟩
            · exact ⟨namesEntry, .inr comes⟩
          · rintro ⟨namesEntry, ⟨same, _⟩ | comes⟩
            · cases same
              exact .inl rfl
            · exact .inr ⟨namesEntry, comes⟩
        · rw [final_cons, ← next]
          exact left
      · refine ⟨entries, ?_, ?_⟩
        · intro entry
          rw [entries_iff, comes_cons honest]
          refine and_congr_right fun names => ?_
          refine ⟨.inr, fun cases => cases.resolve_left ?_⟩
          rintro ⟨isEntry, unseen⟩
          exact other entry isEntry unseen names
        · rw [← next]
          exact left

/-- An item that is not accepted stays unknown. -/
theorem unknown_run (honest : Honest accepts messages deliveries)
    (sound : Sound messages manager) {hash : UInt256}
    (unknown : (manager.view kind hash).votes = none)
    (refused : .item kind hash ∈ deliveries.map Delivery.message →
      accepts kind hash = false) :
    ((deliver deliveries manager).view kind hash).votes = none := by
  induction deliveries generalizing manager with
  | nil => exact unknown
  | cons delivery deliveries ih =>
      obtain ⟨fair, listed⟩ := honest.head
      rw [List.map_cons, List.mem_cons] at refused
      have step := unknown_step fair sound listed unknown
        fun same => refused (.inl same.symm)
      exact ih honest.tail (processMessage_sound fair sound listed) step.1
        fun here => refused (.inr here)

theorem seen_run (honest : Honest accepts messages deliveries)
    {message : Message}
    (absent : message ∉ deliveries.map Delivery.message) :
    (deliver deliveries manager).seen message = manager.seen message := by
  induction deliveries generalizing manager with
  | nil => rfl
  | cons delivery deliveries ih =>
      rw [List.map_cons, List.mem_cons, not_or] at absent
      refine (ih honest.tail absent.2).trans ?_
      exact processMessage_seen_of_ne honest.head.1 honest.head.2 absent.1

theorem sound_run (honest : Honest accepts messages deliveries)
    (sound : Sound messages manager) :
    Sound messages (deliver deliveries manager) := by
  induction deliveries generalizing manager with
  | nil => exact sound
  | cons delivery deliveries ih =>
      exact ih honest.tail
        (processMessage_sound honest.head.1 sound honest.head.2)

/-- The first vote recorded for an item that comes to be known. -/
theorem firstVotes_final {view : View kind} {hash : UInt256}
    (keyed : ∀ vote, view.orphan = some vote → vote.itemHash = hash)
    (masternode : COutPoint) :
    ∃ entries : List (Vote kind),
      (∀ vote, vote ∈ entries ↔
        vote.Names hash masternode ∧ view.orphan = some vote) ∧
      view.firstVotes masternode =
        final Vote.time voteGap none entries := by
  unfold View.firstVotes
  cases waiting : view.orphan with
  | none =>
      refine ⟨[], ?_, rfl⟩
      intro vote
      exact iff_of_false nofun nofun
  | some orphan =>
      have names := keyed orphan waiting
      dsimp only
      unfold withVote
      by_cases same : masternode = orphan.vin.prevout
      · refine ⟨[orphan], ?_, ?_⟩
        · intro vote
          rw [List.mem_singleton, Option.some_inj]
          refine ⟨?_, fun both => both.2.symm⟩
          rintro rfl
          exact ⟨⟨names, same.symm⟩, rfl⟩
        · rw [same, Function.update_self]
          rfl
      · refine ⟨[], ?_, Function.update_of_ne same ..⟩
        intro vote
        refine iff_of_false nofun ?_
        rintro ⟨namesVote, isOrphan⟩
        cases isOrphan
        exact same namesVote.2.symm

theorem processMessage_arrives {around : Surroundings}
    (fair : Fair accepts messages around)
    (sound : Sound messages manager) {hash : UInt256}
    (listed : .item kind hash ∈ messages)
    (unseen : manager.seen (.item kind hash) = false)
    (unknown : (manager.view kind hash).votes = none)
    (accepted : accepts kind hash = true) :
    (processMessage around (.item kind hash) manager).manager.view kind hash =
      ⟨some (manager.view kind hash).firstVotes, none⟩ := by
  rw [(item_changes fair sound listed unseen).here, if_pos accepted,
    View.arrive_unknown unknown]

/-- The set has one vote for the item at most. -/
def SingleVote (messages : Set Message) (kind : Kind) (hash : UInt256) :
    Prop :=
  ∀ vote other : Vote kind, .vote kind vote ∈ messages →
    .vote kind other ∈ messages → vote.itemHash = hash →
      other.itemHash = hash → vote = other

/-- The vote waits for its item, or is going to come. -/
def Due (manager : CBudgetManager) (deliveries : List Delivery)
    (hash : UInt256) (vote : Vote kind) : Prop :=
  (manager.view kind hash).orphan = some vote ∨
    Comes manager deliveries vote

/-- The item itself: what waits is recorded, what comes is tried later. -/
theorem arrival_now {around : Surroundings} {hash : UInt256}
    (honest : Honest accepts messages
      (⟨around, .item kind hash⟩ :: deliveries))
    (sound : Sound messages manager)
    (unknown : (manager.view kind hash).votes = none)
    (accepted : accepts kind hash = true)
    (unseen : manager.seen (.item kind hash) = false)
    (masternode : COutPoint) :
    ∃ entries : List (Vote kind),
      (∀ vote, vote ∈ entries ↔ vote.Names hash masternode ∧
        Due manager (⟨around, .item kind hash⟩ :: deliveries) hash vote) ∧
      recorded (deliver (⟨around, .item kind hash⟩ :: deliveries) manager)
          kind hash masternode =
        final Vote.time voteGap none entries := by
  obtain ⟨fair, listed⟩ := honest.head
  have arrives :=
    processMessage_arrives fair sound listed unseen unknown accepted
  have known : ((processMessage around (.item kind hash)
      manager).manager.view kind hash).votes.isSome := by
    rw [arrives]
    rfl
  obtain ⟨later, later_iff, left⟩ := known_run honest.tail
    (processMessage_sound fair sound listed) known masternode
  have keyed : ∀ vote, (manager.view kind hash).orphan = some vote →
      vote.itemHash = hash :=
    sound.keyed kind hash
  obtain ⟨first, first_iff, recordedFirst⟩ :=
    firstVotes_final keyed masternode
  refine ⟨first ++ later, ?_, ?_⟩
  · intro vote
    have notVote : ¬ (Message.item kind hash = .vote kind vote ∧
        manager.seen (.item kind hash) = false) := nofun
    unfold Due
    rw [List.mem_append, first_iff, later_iff, comes_cons honest,
      ← and_or_left, or_iff_right notVote]
  · have atFirst : recorded (processMessage around (.item kind hash)
          manager).manager kind hash masternode =
        (manager.view kind hash).firstVotes masternode := by
      rw [recorded_eq_view, arrives]
      rfl
    rw [final_append, ← recordedFirst, ← atFirst]
    exact left

/-- Before the item comes, its only vote stays due. -/
theorem due_cons {delivery : Delivery}
    (honest : Honest accepts messages (delivery :: deliveries))
    (sound : Sound messages manager) {hash : UInt256}
    (unknown : (manager.view kind hash).votes = none)
    (refused : delivery.message = .item kind hash →
      accepts kind hash = false)
    (single : SingleVote messages kind hash) {vote : Vote kind}
    (names : vote.itemHash = hash) :
    Due (processMessage delivery.around delivery.message manager).manager
        deliveries hash vote ↔
      Due manager (delivery :: deliveries) hash vote := by
  obtain ⟨fair, listed⟩ := honest.head
  obtain ⟨_, step⟩ := unknown_step fair sound listed unknown refused
  unfold Due
  rw [comes_cons honest]
  rcases step with ⟨first, isVote, new, forItem, orphan⟩ | ⟨other, orphan⟩
  · rw [orphan, isVote]
    rw [isVote] at listed new
    constructor
    · rintro (same | comes)
      · cases same
        exact .inr (.inl ⟨rfl, new⟩)
      · exact .inr (.inr comes)
    · rintro (waiting | ⟨same, _⟩ | comes)
      · have waits := sound.listed kind hash vote waiting
        rw [single vote first waits listed names forItem]
        exact .inl rfl
      · cases same
        exact .inl rfl
      · exact .inr comes
  · rw [orphan]
    refine or_congr_right ?_
    refine ⟨.inr, fun cases => cases.resolve_left ?_⟩
    rintro ⟨isVote, new⟩
    exact other vote isVote new names

/-- An accepted item gets the only vote for it, before or after it comes. -/
theorem arrival_run (honest : Honest accepts messages deliveries)
    (sound : Sound messages manager) {hash : UInt256}
    (unknown : (manager.view kind hash).votes = none)
    (delivered : .item kind hash ∈ deliveries.map Delivery.message)
    (accepted : accepts kind hash = true)
    (unseen : manager.seen (.item kind hash) = false)
    (single : SingleVote messages kind hash) (masternode : COutPoint) :
    ∃ entries : List (Vote kind),
      (∀ vote, vote ∈ entries ↔
        vote.Names hash masternode ∧ Due manager deliveries hash vote) ∧
      recorded (deliver deliveries manager) kind hash masternode =
        final Vote.time voteGap none entries := by
  induction deliveries generalizing manager with
  | nil => cases delivered
  | cons delivery deliveries ih =>
      obtain ⟨fair, listed⟩ := honest.head
      by_cases isItem : delivery.message = .item kind hash
      · obtain ⟨around, _⟩ := delivery
        cases isItem
        exact arrival_now honest sound unknown accepted unseen masternode
      · have refused : delivery.message = .item kind hash →
            accepts kind hash = false :=
          fun same => absurd same isItem
        have stillUnseen : _ = manager.seen (.item kind hash) :=
          processMessage_seen_of_ne fair listed (Ne.symm isItem)
        have later := (List.mem_cons.mp delivered).resolve_left
          (Ne.symm isItem)
        have stillUnknown :=
          (unknown_step fair sound listed unknown refused).1
        obtain ⟨entries, entries_iff, left⟩ := ih honest.tail
          (processMessage_sound fair sound listed) stillUnknown later
          (stillUnseen.trans unseen)
        refine ⟨entries, ?_, left⟩
        intro vote
        rw [entries_iff]
        refine and_congr_right fun names => ?_
        exact due_cons honest sound unknown refused single names.1

end Runs

/-! ## Two orders -/

section Orders

variable {accepts : Kind → UInt256 → Bool} {messages : Set Message}
  {around : Surroundings} {manager : CBudgetManager}

/-- The votes of the set that a masternode has for an item. -/
def votesFor (messages : Set Message) (kind : Kind) (hash : UInt256)
    (masternode : COutPoint) : Set (Vote kind) :=
  {vote | vote.Names hash masternode ∧ .vote kind vote ∈ messages}

/-- The set decides which vote of each masternode is left: a known item has one
last vote of it, an item that comes to be known has one vote at all. -/
def Decided (accepts : Kind → UInt256 → Bool) (messages : Set Message)
    (start : CBudgetManager) (kind : Kind) (hash : UInt256) : Prop :=
  match (start.view kind hash).votes with
  | some mapVotes => ∀ masternode vote other,
      Last Vote.time voteGap (mapVotes masternode)
        (votesFor messages kind hash masternode) vote →
      Last Vote.time voteGap (mapVotes masternode)
        (votesFor messages kind hash masternode) other →
      vote = other
  | none => .item kind hash ∈ messages → accepts kind hash = true →
      SingleVote messages kind hash

theorem sound_of_noOrphans (messages : Set Message)
    (noOrphans : ∀ kind, (manager.ballots kind).orphans = ∅) :
    Sound messages manager := by
  have empty : ∀ (kind : Kind) (hash : UInt256),
      (manager.ballots kind).orphans[hash]? = none := by
    intro kind hash
    rw [noOrphans]
    exact Std.ExtTreeMap.getElem?_empty
  refine ⟨?_, ?_, fun kind hash _ _ => empty kind hash⟩
  · intro kind hash vote waiting
    cases (empty kind hash).symm.trans waiting
  · intro kind hash vote waiting
    cases (empty kind hash).symm.trans waiting

theorem comes_iff {deliveries : List Delivery}
    (order : Order accepts messages deliveries)
    (unseen : ∀ message ∈ messages, manager.seen message = false)
    (vote : Vote kind) :
    Comes manager deliveries vote ↔ .vote kind vote ∈ messages := by
  unfold Comes
  rw [order.messages_eq]
  exact ⟨And.left, fun here => ⟨here, unseen _ here⟩⟩

/-- Of a known item, a masternode's votes of the set are tried one after the
other. -/
theorem recorded_known {start : CBudgetManager} {deliveries : List Delivery}
    (order : Order accepts messages deliveries)
    (sound : Sound messages start)
    (unseen : ∀ message ∈ messages, start.seen message = false)
    {hash : UInt256} {mapVotes : Votes kind}
    (known : (start.view kind hash).votes = some mapVotes)
    (masternode : COutPoint) :
    ∃ entries : List (Vote kind),
      (∀ vote, vote ∈ entries ↔
        vote ∈ votesFor messages kind hash masternode) ∧
      recorded (deliver deliveries start) kind hash masternode =
        final Vote.time voteGap (mapVotes masternode)
          entries := by
  have isKnown : (start.view kind hash).votes.isSome := by
    rw [known]
    rfl
  obtain ⟨entries, entries_iff, left⟩ :=
    known_run order.honest sound isKnown masternode
  refine ⟨entries, ?_, ?_⟩
  · intro vote
    rw [entries_iff, comes_iff order unseen]
    rfl
  · rw [left, recorded_eq_view, known]
    rfl

/-- So are those of an item that comes, when it has one vote at most. -/
theorem recorded_arrived {start : CBudgetManager} {deliveries : List Delivery}
    (order : Order accepts messages deliveries)
    (noOrphans : ∀ kind, (start.ballots kind).orphans = ∅)
    (unseen : ∀ message ∈ messages, start.seen message = false)
    {hash : UInt256} (unknown : (start.view kind hash).votes = none)
    (listed : .item kind hash ∈ messages)
    (accepted : accepts kind hash = true)
    (single : SingleVote messages kind hash) (masternode : COutPoint) :
    ∃ entries : List (Vote kind),
      (∀ vote, vote ∈ entries ↔
        vote ∈ votesFor messages kind hash masternode) ∧
      recorded (deliver deliveries start) kind hash masternode =
        final Vote.time voteGap none entries := by
  have noOrphan : (start.view kind hash).orphan = none := by
    unfold CBudgetManager.view Ballots.view
    rw [noOrphans]
    exact Std.ExtTreeMap.getElem?_empty
  obtain ⟨entries, entries_iff, left⟩ := arrival_run order.honest
    (sound_of_noOrphans messages noOrphans) unknown
    ((order.messages_eq _).mpr listed) accepted (unseen _ listed) single
    masternode
  refine ⟨entries, ?_, left⟩
  intro vote
  unfold Due at entries_iff
  rw [entries_iff, noOrphan, comes_iff order unseen]
  simp [votesFor]

theorem recorded_eq_of_decided {start : CBudgetManager}
    (noOrphans : ∀ kind, (start.ballots kind).orphans = ∅)
    (unseen : ∀ message ∈ messages, start.seen message = false)
    {hash : UInt256} (decided : Decided accepts messages start kind hash)
    {first second : List Delivery} (firstOrder : Order accepts messages first)
    (secondOrder : Order accepts messages second) (masternode : COutPoint) :
    recorded (deliver first start) kind hash masternode =
      recorded (deliver second start) kind hash masternode := by
  have positive : 0 < voteGap := by decide
  have sound := sound_of_noOrphans messages noOrphans
  unfold Decided at decided
  split at decided
  case h_1 mapVotes known =>
    obtain ⟨entries, entries_iff, left⟩ :=
      recorded_known firstOrder sound unseen known masternode
    obtain ⟨others, others_iff, leftOther⟩ :=
      recorded_known secondOrder sound unseen known masternode
    rw [left, leftOther]
    exact final_eq_of_single positive entries_iff others_iff
      (decided masternode)
  case h_2 unknown =>
    by_cases arrives : .item kind hash ∈ messages ∧ accepts kind hash = true
    · obtain ⟨listed, accepted⟩ := arrives
      have single := decided listed accepted
      obtain ⟨entries, entries_iff, left⟩ := recorded_arrived firstOrder
        noOrphans unseen unknown listed accepted single masternode
      obtain ⟨others, others_iff, leftOther⟩ := recorded_arrived secondOrder
        noOrphans unseen unknown listed accepted single masternode
      rw [left, leftOther]
      refine final_eq_of_single positive entries_iff others_iff ?_
      intro vote other last lastOther
      exact single vote other last.member.2 lastOther.member.2
        last.member.1.1 lastOther.member.1.1
    · have stays : ∀ {deliveries}, Order accepts messages deliveries →
          recorded (deliver deliveries start) kind hash masternode =
            none := by
        intro deliveries order
        rw [recorded_eq_view, unknown_run order.honest sound unknown]
        · rfl
        · intro delivered
          rw [← Bool.not_eq_true]
          exact fun accepted =>
            arrives ⟨(order.messages_eq _).mp delivered, accepted⟩
      rw [stays firstOrder, stays secondOrder]

/-- A fair node exists for every set of messages. -/
theorem exists_fair (accepts : Kind → UInt256 → Bool)
    (messages : List Message) :
    ∃ around, Fair accepts {message | message ∈ messages} around := by
  refine ⟨⟨false, true, true, fun _ => true, fun _ _ => true,
    fun kind hash => (accepts kind hash, 0), fun _ _ => true,
    Int64.maxValue - 60 * 60⟩,
    rfl, rfl, rfl, fun _ _ _ => rfl, fun _ _ _ => rfl, ?_,
    fun kind hash _ => Bool.and_true _⟩
  intro kind vote _
  -- The clock is as late as it can be.
  have latest : Int64.maxValue - 60 * 60 + 60 * 60 = Int64.maxValue := by
    decide
  dsimp only
  rw [latest]
  exact Int64.le_maxValue vote.nTime

theorem order_of_fair (fair : Fair accepts messages around)
    {list : List Message}
    (same : ∀ message, message ∈ list ↔ message ∈ messages) :
    Order accepts messages (list.map (Delivery.mk around)) := by
  refine ⟨?_, ?_⟩
  · intro delivery here
    obtain ⟨message, _, rfl⟩ := List.mem_map.mp here
    exact fair
  · intro message
    rw [List.map_map, ← same]
    have identity : Delivery.message ∘ Delivery.mk around = id := rfl
    rw [identity, List.map_id]

/-- A last vote that comes before all others is left. -/
theorem recorded_first {hash : UInt256} {masternode : COutPoint}
    {mapVotes : Votes kind} {vote : Vote kind} {deliveries : List Delivery}
    (fair : Fair accepts messages around)
    (honest : Honest accepts messages deliveries)
    (sound : Sound messages manager)
    (known : (manager.view kind hash).votes = some mapVotes)
    (unseen : manager.seen (.vote kind vote) = false)
    (last : Last Vote.time voteGap (mapVotes masternode)
      (votesFor messages kind hash masternode) vote) :
    recorded (deliver (⟨around, .vote kind vote⟩ :: deliveries) manager) kind
      hash masternode = some vote := by
  obtain ⟨names, listed⟩ := last.member
  have isKnown : (manager.view kind hash).votes.isSome := by
    rw [known]
    rfl
  obtain ⟨stillKnown, step⟩ :=
    known_step fair sound listed isKnown masternode
  obtain ⟨entries, entries_iff, left⟩ := known_run honest
    (processMessage_sound fair sound listed) stillKnown masternode
  rcases step with ⟨same, isVote, _, _, next⟩ | ⟨other, _⟩
  · cases isVote
    refine left.trans ?_
    rw [next, ← final_cons, recorded_eq_view, known]
    refine last.final_first (by decide) ?_
    intro entry here
    obtain ⟨namesEntry, comes⟩ := (entries_iff entry).mp here
    obtain ⟨delivery, inside, isEntry⟩ := List.mem_map.mp comes.1
    exact ⟨namesEntry, isEntry ▸ (honest delivery inside).2⟩
  · exact absurd names (other vote rfl unseen)

/-- A vote that comes right before its item is left. -/
theorem recorded_last {vote : Vote kind} {deliveries : List Delivery}
    (fair : Fair accepts messages around)
    (honest : Honest accepts messages deliveries)
    (sound : Sound messages manager)
    (unknown : (manager.view kind vote.itemHash).votes = none)
    (listed : .vote kind vote ∈ messages)
    (item : .item kind vote.itemHash ∈ messages)
    (accepted : accepts kind vote.itemHash = true)
    (unseen : ∀ message ∈ messages, manager.seen message = false)
    (newVote : .vote kind vote ∉ deliveries.map Delivery.message)
    (newItem :
      .item kind vote.itemHash ∉ deliveries.map Delivery.message)
    (masternode : COutPoint) :
    recorded (deliver (deliveries ++
        [⟨around, .vote kind vote⟩, ⟨around, .item kind vote.itemHash⟩])
        manager) kind vote.itemHash masternode =
      withVote vote (fun _ => none) masternode := by
  have before : ((deliver deliveries manager).view kind
      vote.itemHash).votes = none :=
    unknown_run honest sound unknown fun here => absurd here newItem
  have voteUnseen : (deliver deliveries manager).seen (.vote kind vote) =
      false :=
    (seen_run honest newVote).trans (unseen _ listed)
  have voted := vote_changes fair listed voteUnseen
  have stillSound := processMessage_sound fair (sound_run honest sound) listed
  have view := voted.here
  rw [View.vote_unknown before] at view
  have different : Message.item kind vote.itemHash ≠ .vote kind vote := nofun
  have itemUnseen : (processMessage around (.vote kind vote)
      (deliver deliveries manager)).manager.seen
        (.item kind vote.itemHash) = false := by
    rw [processMessage_seen_of_ne fair listed different,
      seen_run honest newItem]
    exact unseen _ item
  have arrives := processMessage_arrives fair stillSound item itemUnseen
    (by rw [view]) accepted
  rw [view] at arrives
  unfold deliver
  rw [List.foldl_append]
  refine (recorded_eq_view _ _ _).trans ?_
  refine (congrArg (fun view : View kind =>
    view.votes.bind (· masternode)) arrives).trans ?_
  rfl

theorem withVote_injective {vote other : Vote kind}
    (same : ∀ masternode, withVote vote (fun _ => none) masternode =
      withVote other (fun _ => none) masternode) :
    vote = other := by
  have atMasternode := same vote.vin.prevout
  unfold withVote at atMasternode
  rw [Function.update_self, Function.update_apply] at atMasternode
  split at atMasternode
  · exact Option.some.inj atMasternode
  · cases atMasternode

/-- Any two orders of the messages leave the same votes. -/
def OrderIrrelevant (accepts : Kind → UInt256 → Bool)
    (messages : Set Message) (start : CBudgetManager) : Prop :=
  ∀ first second, Order accepts messages first →
    Order accepts messages second → ∀ kind hash masternode,
      recorded (deliver first start) kind hash masternode =
        recorded (deliver second start) kind hash masternode

theorem last_unique_of_irrelevant {messages : List Message}
    {start : CBudgetManager} (sound : Sound {m | m ∈ messages} start)
    (unseen : ∀ message ∈ messages, start.seen message = false)
    (irrelevant : OrderIrrelevant accepts {m | m ∈ messages} start)
    {hash : UInt256} {mapVotes : Votes kind}
    (known : (start.view kind hash).votes = some mapVotes)
    {masternode : COutPoint} {vote other : Vote kind}
    (last : Last Vote.time voteGap (mapVotes masternode)
      (votesFor {m | m ∈ messages} kind hash masternode) vote)
    (lastOther : Last Vote.time voteGap (mapVotes masternode)
      (votesFor {m | m ∈ messages} kind hash masternode) other) :
    vote = other := by
  obtain ⟨around, fair⟩ := exists_fair accepts messages
  have ordered : ∀ {vote : Vote kind}, .vote kind vote ∈ messages →
      Order accepts {m | m ∈ messages}
        ((.vote kind vote :: messages).map (Delivery.mk around)) := by
    intro vote listed
    refine order_of_fair fair fun message => ?_
    rw [List.mem_cons]
    refine or_iff_right_of_imp ?_
    rintro rfl
    exact listed
  have left : ∀ {vote : Vote kind},
      Last Vote.time voteGap (mapVotes masternode)
        (votesFor {m | m ∈ messages} kind hash masternode) vote →
      recorded (deliver ((.vote kind vote :: messages).map
        (Delivery.mk around)) start) kind hash masternode = some vote := by
    intro vote last
    have honest := (ordered last.member.2).honest
    exact recorded_first fair honest.tail sound known
      (unseen _ last.member.2) last
  have same := irrelevant _ _ (ordered last.member.2)
    (ordered lastOther.member.2) kind hash masternode
  rw [left last, left lastOther] at same
  exact Option.some.inj same

/-- The other messages of the set. -/
def others (messages : List Message) (vote : Vote kind) :
    List Message :=
  messages.filter fun message =>
    message ≠ .vote kind vote ∧ message ≠ .item kind vote.itemHash

theorem mem_others {messages : List Message} {vote : Vote kind}
    {message : Message} :
    message ∈ others messages vote ↔ message ∈ messages ∧
      message ≠ .vote kind vote ∧ message ≠ .item kind vote.itemHash := by
  unfold others
  rw [List.mem_filter, decide_eq_true_iff]

/-- The messages with a vote and then its item last. -/
def voteLast (messages : List Message) (vote : Vote kind) :
    List Message :=
  others messages vote ++ [.vote kind vote, .item kind vote.itemHash]

theorem order_voteLast {messages : List Message} {vote : Vote kind}
    (fair : Fair accepts {m | m ∈ messages} around)
    (listed : .vote kind vote ∈ messages)
    (item : .item kind vote.itemHash ∈ messages) :
    Order accepts {m | m ∈ messages}
      ((voteLast messages vote).map (Delivery.mk around)) := by
  refine order_of_fair fair fun message => ?_
  unfold voteLast
  rw [List.mem_append, List.mem_pair, mem_others]
  constructor
  · rintro (⟨here, _⟩ | rfl | rfl)
    · exact here
    · exact listed
    · exact item
  · intro here
    by_cases isVote : message = .vote kind vote
    · exact .inr (.inl isVote)
    · by_cases isItem : message = .item kind vote.itemHash
      · exact .inr (.inr isItem)
      · exact .inl ⟨here, isVote, isItem⟩

theorem recorded_voteLast {messages : List Message} {vote : Vote kind}
    (fair : Fair accepts {m | m ∈ messages} around)
    (sound : Sound {m | m ∈ messages} manager)
    (unknown : (manager.view kind vote.itemHash).votes = none)
    (listed : .vote kind vote ∈ messages)
    (item : .item kind vote.itemHash ∈ messages)
    (accepted : accepts kind vote.itemHash = true)
    (unseen : ∀ message ∈ messages, manager.seen message = false)
    (masternode : COutPoint) :
    recorded (deliver ((voteLast messages vote).map (Delivery.mk around))
        manager) kind vote.itemHash masternode =
      withVote vote (fun _ => none) masternode := by
  have honest := (order_voteLast fair listed item).honest
  unfold voteLast at honest ⊢
  rw [List.map_append] at honest ⊢
  have absent : ∀ message, message ∈ ((others messages vote).map
      (Delivery.mk around)).map Delivery.message →
        message ≠ .vote kind vote ∧ message ≠ .item kind vote.itemHash := by
    intro message here
    simp only [List.map_map, List.mem_map] at here
    obtain ⟨_, other, rfl⟩ := here
    exact (mem_others.mp other).2
  refine recorded_last fair ?_ sound unknown listed item accepted unseen
    (fun here => (absent _ here).1 rfl) (fun here => (absent _ here).2 rfl)
    masternode
  exact fun delivery here => honest delivery (List.mem_append_left _ here)

theorem singleVote_of_irrelevant {messages : List Message}
    {start : CBudgetManager} (sound : Sound {m | m ∈ messages} start)
    (unseen : ∀ message ∈ messages, start.seen message = false)
    (irrelevant : OrderIrrelevant accepts {m | m ∈ messages} start)
    {hash : UInt256} (unknown : (start.view kind hash).votes = none)
    (item : .item kind hash ∈ messages)
    (accepted : accepts kind hash = true) :
    SingleVote {m | m ∈ messages} kind hash := by
  intro vote other listed listedOther names namesOther
  obtain ⟨around, fair⟩ := exists_fair accepts messages
  subst names
  refine withVote_injective fun masternode => ?_
  rw [← recorded_voteLast fair sound unknown listed item accepted unseen]
  rw [← namesOther] at unknown item accepted
  rw [← recorded_voteLast fair sound unknown listedOther item accepted unseen,
    namesOther]
  rw [namesOther] at item
  refine irrelevant _ _ (order_voteLast fair listed item) ?_ kind _ masternode
  exact order_voteLast fair listedOther (namesOther ▸ item)

/-- All orders of the messages leave the same votes if and only if the set
decides them. -/
theorem tallies_agree_iff (accepts : Kind → UInt256 → Bool)
    (messages : List Message) (start : CBudgetManager)
    (noOrphans : ∀ kind, (start.ballots kind).orphans = ∅)
    (unseen : ∀ message ∈ messages, start.seen message = false) :
    OrderIrrelevant accepts {m | m ∈ messages} start ↔
      ∀ kind hash, Decided accepts {m | m ∈ messages} start kind hash := by
  have sound := sound_of_noOrphans {m | m ∈ messages} noOrphans
  constructor
  · intro irrelevant kind hash
    unfold Decided
    split
    case h_1 mapVotes known =>
      intro masternode vote other
      exact last_unique_of_irrelevant sound unseen irrelevant known
    case h_2 unknown =>
      exact singleVote_of_irrelevant sound unseen irrelevant unknown
  · intro decided first second firstOrder secondOrder kind hash masternode
    exact recorded_eq_of_decided noOrphans unseen (decided kind hash)
      firstOrder secondOrder masternode

end Orders

/-! ## Example -/

/-- A node that has no items and no votes. -/
def newManager : CBudgetManager :=
  ⟨fun _ => ⟨fun _ => none, [], fun _ => false, fun _ => false, ∅⟩,
    fun _ => none⟩

/-- A synced node that accepts everything. -/
def syncedNode : Surroundings :=
  ⟨false, true, true, fun _ => true, fun _ _ => true, fun _ _ => (true, 0),
    fun _ _ => true, 1000⟩

/-- A yes of the masternode with the output `n` for the proposal with hash
7. -/
def yesVote (n : UInt32) : CBudgetVote :=
  ⟨⟨⟨1, n⟩, [], 0⟩, 7, (1 : Int32), 1000, by decide⟩

theorem tallies_agree_oneVote :
    OrderIrrelevant (fun _ _ => true)
      {m | m ∈ [Message.mprop 7, Message.mvote (yesVote 0)]} newManager := by
  refine (tallies_agree_iff (fun _ _ => true)
    [Message.mprop 7, Message.mvote (yesVote 0)] newManager
    (fun _ => rfl) (by decide)).mpr ?_
  intro kind hash _ _ vote other listed listedOther _ _
  have only : ∀ {vote : Vote kind},
      .vote kind vote ∈ [Message.mprop 7, Message.mvote (yesVote 0)] →
        Message.vote kind vote = Message.mvote (yesVote 0) :=
    fun listed => (List.mem_pair.mp listed).resolve_left nofun
  cases (only listed).trans (only listedOther).symm
  rfl

/-- Of two votes that come before their proposal the first one is lost. -/
theorem early_vote_lost :
    ¬ OrderIrrelevant (fun _ _ => true)
      {m | m ∈ [Message.mprop 7, Message.mvote (yesVote 0),
        Message.mvote (yesVote 1)]} newManager := by
  intro irrelevant
  have fair : Fair (fun _ _ => true)
      {m | m ∈ [Message.mprop 7, Message.mvote (yesVote 0),
        Message.mvote (yesVote 1)]} syncedNode := by
    refine ⟨rfl, rfl, rfl, fun _ _ _ => rfl, fun _ _ _ => rfl, ?_,
      fun _ _ _ => rfl⟩
    intro kind vote listed
    simp only [Set.mem_ofPred_eq, List.mem_cons, List.not_mem_nil,
      or_false] at listed
    rcases listed with impossible | isVote | isVote
    · cases impossible
    · cases isVote
      decide
    · cases isVote
      decide
  have same := irrelevant
    ([Message.mvote (yesVote 0), Message.mvote (yesVote 1),
      Message.mprop 7].map (Delivery.mk syncedNode))
    ([Message.mprop 7, Message.mvote (yesVote 0),
      Message.mvote (yesVote 1)].map (Delivery.mk syncedNode))
    (order_of_fair fair fun message => ?_)
    (order_of_fair fair fun message => Iff.rfl) .proposal 7 ⟨1, 0⟩
  · exact absurd same (by decide)
  · simp only [Set.mem_ofPred_eq, List.mem_cons, List.not_mem_nil, or_false]
    exact or_assoc.symm.trans or_comm

end PrivateDatagram.Governance.BudgetVotes
