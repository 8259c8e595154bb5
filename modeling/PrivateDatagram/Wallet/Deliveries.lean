import PrivateDatagram.Wallet.FileOrders

/-!
# Deliveries of files

The seller answers the confirmation of a payment request with a file transfer,
and then marks the request as sent.  `CommitTransaction` has the transfer in
the wallet before it asks the mempool, and a transfer that the mempool refuses
counts as not sent.
-/

namespace PrivateDatagram.Wallet.FileOrders

open Wire.Serialize Wire.Transaction

/-- The file transfers that a run has sent. -/
def sentBy (steps : List Step) : List Delivery :=
  steps.flatMap fun step => step.outcome.sent

/-- The mempool takes the transfers that the rounds of the loop make. -/
def Takes (around : Nat → Surroundings) :
    Nat → List (UInt256 × CTransaction) → CWallet → Prop
  | _, [], _ => True
  | round, (txid, tx) :: rest, wallet =>
      if isFilePaymentTxConfirmed (around round) tx then
        (∀ transfer ∈ transferOf (around round) tx wallet,
          (around round).acceptToMemoryPool transfer = true) ∧
        ∀ answer ∈ onPaymentConfirmed (around round) tx wallet,
          Takes around (round + 1) rest
            (if answer.confirmed then
              { answer.wallet with
                mapMaturation := answer.wallet.mapMaturation.erase txid }
            else
              answer.wallet)
      else
        Takes around (round + 1) rest wallet

/-- A mempool that takes everything takes what is made. -/
theorem takes_of_all {around : Nat → Surroundings}
    (all : ∀ round transfer,
      (around round).acceptToMemoryPool transfer = true)
    (round : Nat) (orders : List (UInt256 × CTransaction))
    (wallet : CWallet) : Takes around round orders wallet := by
  induction orders generalizing round wallet with
  | nil => trivial
  | cons order rest ih =>
      rw [Takes]
      split_ifs
      · exact ⟨fun transfer _ => all round transfer,
          fun answer _ => ih (round + 1) _⟩
      · exact ih (round + 1) wallet

/-- The mempool takes the file transfers that are made in this event. -/
def Event.Accepts (event : Event) (wallet : CWallet) : Prop :=
  ∀ around, event = .processFileContract around →
    Takes around 0 wallet.mapMaturation.toList wallet

/--
The event answers a confirmation that is deep enough and pays the price of its
request.
-/
def Event.Makes (event : Event) (delivery : Delivery) : Prop :=
  ∃ around round, event = .processFileContract around ∧
    isFilePaymentTxConfirmed (around round) delivery.confirmTx = true ∧
    PaidFor (around round) delivery

/-! ## Growing wallets -/

/-- What a step does with the deliveries of a wallet. -/
structure Grows (made : Delivery → Prop) (wallet wallet' : CWallet)
    (sent : List Delivery) : Prop where
  keeps : wallet.deliveries ⊆ wallet'.deliveries
  adds : ∀ delivery ∈ wallet'.deliveries, delivery ∈ wallet.deliveries ∨
    made delivery
  sends : sent ⊆ wallet'.deliveries

theorem Grows.of_eq {made : Delivery → Prop} {wallet wallet' : CWallet}
    (same : wallet'.deliveries = wallet.deliveries) :
    Grows made wallet wallet' [] := by
  refine ⟨?_, ?_, List.nil_subset _⟩
  · rw [same]
    exact List.Subset.refl _
  · intro delivery here
    rw [same] at here
    exact .inl here

theorem Grows.trans {made : Delivery → Prop} {wallet middle wallet' : CWallet}
    {sent sent' : List Delivery} (first : Grows made wallet middle sent)
    (second : Grows made middle wallet' sent') :
    Grows made wallet wallet' (sent ++ sent') := by
  constructor
  · exact List.Subset.trans first.keeps second.keeps
  · intro delivery here
    rcases second.adds delivery here with earlier | isMade
    · exact first.adds delivery earlier
    · exact .inr isMade
  · intro delivery here
    rcases List.mem_append.mp here with early | late
    · exact second.keeps (first.sends early)
    · exact second.sends late

/-- A request with a delivery is marked, and has no other delivery. -/
structure Once (wallet : CWallet) : Prop where
  flagged : ∀ delivery ∈ wallet.deliveries,
    wallet.walletFileTxSent delivery.requestTxid = true
  single : ∀ delivery ∈ wallet.deliveries, ∀ other ∈ wallet.deliveries,
    delivery.requestTxid = other.requestTxid → delivery = other

theorem Once.of_eq {wallet wallet' : CWallet} (once : Once wallet)
    (deliveries : wallet'.deliveries = wallet.deliveries)
    (sent : wallet'.walletFileTxSent = wallet.walletFileTxSent) :
    Once wallet' := by
  refine ⟨?_, ?_⟩
  · rw [deliveries, sent]
    exact once.flagged
  · rw [deliveries]
    exact once.single

/-! ## Single answers -/

theorem record_grows {made : Delivery → Prop} {delivery : Delivery}
    {wallet wallet' : CWallet} {sent : List Delivery}
    (same : wallet'.deliveries = (record delivery wallet).deliveries)
    (isMade : made delivery) (sends : sent ⊆ [delivery]) :
    Grows made wallet wallet' sent := by
  have extended : wallet'.deliveries = wallet.deliveries ++ [delivery] := same
  refine ⟨?_, ?_, ?_⟩
  · rw [extended]
    exact List.subset_append_left _ _
  · intro other here
    rw [extended] at here
    rcases List.mem_append.mp here with earlier | last
    · exact .inl earlier
    · rw [List.mem_singleton.mp last]
      exact .inr isMade
  · rw [extended]
    exact List.Subset.trans sends (List.subset_append_right _ _)

theorem Answers.grows {around : Surroundings} {tx : CTransaction}
    {wallet : CWallet} {answer : Answer} {made : Delivery → Prop}
    (answers : Answers around tx wallet answer)
    (makes : ∀ delivery, delivery.confirmTx = tx →
      PaidFor around delivery → made delivery) :
    Grows made wallet answer.wallet answer.sent := by
  cases answers with
  | nothing confirmed => exact .of_eq rfl
  | refused delivery _ paid confirms _ =>
      exact record_grows rfl (makes delivery confirms paid)
        (List.nil_subset _)
  | sent delivery paid confirms _ =>
      exact record_grows rfl (makes delivery confirms paid)
        (List.Subset.refl _)

theorem Once.markSent {wallet : CWallet} (once : Once wallet)
    {delivery : Delivery}
    (unsent : wallet.walletFileTxSent delivery.requestTxid = false) :
    Once (markSent delivery.requestTxid (record delivery wallet)) := by
  have new : ∀ other ∈ wallet.deliveries,
      other.requestTxid ≠ delivery.requestTxid := by
    intro other here same
    have marked := once.flagged other here
    rw [same, unsent] at marked
    cases marked
  have flags := record_walletFileTxSent delivery wallet
  constructor
  · intro other here
    change Function.update (record delivery wallet).walletFileTxSent
      delivery.requestTxid true other.requestTxid = true
    rcases List.mem_append.mp here with earlier | last
    · rw [Function.update_of_ne (new other earlier), flags]
      exact once.flagged other earlier
    · rw [List.mem_singleton.mp last, Function.update_self]
  · intro one hereOne other hereOther same
    rcases List.mem_append.mp hereOne with earlierOne | lastOne
    · rcases List.mem_append.mp hereOther with earlierOther | lastOther
      · exact once.single one earlierOne other earlierOther same
      · rw [List.mem_singleton.mp lastOther] at same
        exact absurd same (new one earlierOne)
    · rw [List.mem_singleton.mp lastOne] at same ⊢
      rcases List.mem_append.mp hereOther with earlierOther | lastOther
      · exact absurd same.symm (new other earlierOther)
      · exact (List.mem_singleton.mp lastOther).symm

theorem Answers.once {around : Surroundings} {tx : CTransaction}
    {wallet : CWallet} {answer : Answer}
    (answers : Answers around tx wallet answer)
    (accepts : ∀ transfer ∈ transferOf around tx wallet,
      around.acceptToMemoryPool transfer = true) (once : Once wallet) :
    Once answer.wallet := by
  cases answers with
  | nothing confirmed => exact once
  | refused delivery made _ _ refused =>
      rw [accepts _ made] at refused
      cases refused
  | sent delivery _ _ unsent => exact once.markSent unsent

/-! ## Rounds and steps -/

theorem processOrders_grows {around : Nat → Surroundings} {round : Nat}
    {orders : List (UInt256 × CTransaction)} {wallet : CWallet}
    {outcome : Outcome}
    (done : processOrders around round orders wallet = some outcome) :
    Grows (Event.processFileContract around).Makes wallet outcome.wallet
      outcome.sent := by
  induction orders generalizing round wallet outcome with
  | nil =>
      cases done
      exact .of_eq rfl
  | cons order rest ih =>
      rcases order with ⟨txid, tx⟩
      rcases processOrders_cases done with ⟨_, later⟩ |
        ⟨answer, later, deep, called, ways⟩
      · exact ih later
      · have answers := onPaymentConfirmed_answers called
        have first : Grows (Event.processFileContract around).Makes wallet
            answer.wallet answer.sent := by
          refine answers.grows fun delivery confirms paid => ?_
          exact ⟨around, round, rfl, by rwa [confirms], paid⟩
        rcases ways with ⟨_, goesOn, rfl⟩ | ⟨_, goesOn, rfl⟩
        · have second := ih goesOn
          exact first.trans ⟨second.keeps, second.adds, second.sends⟩
        · exact first.trans (ih goesOn)

theorem processOrders_once {around : Nat → Surroundings} {round : Nat}
    {orders : List (UInt256 × CTransaction)} {wallet : CWallet}
    {outcome : Outcome}
    (done : processOrders around round orders wallet = some outcome)
    (takes : Takes around round orders wallet) (once : Once wallet) :
    Once outcome.wallet := by
  induction orders generalizing round wallet outcome with
  | nil =>
      cases done
      exact once
  | cons order rest ih =>
      rcases order with ⟨txid, tx⟩
      rw [Takes] at takes
      rcases processOrders_cases done with ⟨shallow, later⟩ |
        ⟨answer, later, deep, called, ways⟩
      · rw [if_neg (by simp [shallow])] at takes
        exact ih later takes once
      · rw [if_pos deep] at takes
        have answered :=
          (onPaymentConfirmed_answers called).once takes.1 once
        have takesLater := takes.2 answer called
        rcases ways with ⟨success, goesOn, rfl⟩ | ⟨failure, goesOn, rfl⟩
        · rw [if_pos success] at takesLater
          have after : Once later.wallet :=
            ih goesOn takesLater (answered.of_eq rfl rfl)
          exact after
        · rw [if_neg (by simp [failure])] at takesLater
          have after : Once later.wallet := ih goesOn takesLater answered
          exact after

/-- A transaction of a block leaves the deliveries and the marks alone. -/
theorem syncTransaction_frame {around : Surroundings} {tx : CTransaction}
    {pblock : Bool} {wallet wallet' : CWallet}
    (done : syncTransaction around tx pblock wallet = some wallet') :
    wallet'.deliveries = wallet.deliveries ∧
      wallet'.walletFileTxSent = wallet.walletFileTxSent := by
  have added := (addToWallet_fields tx wallet).2
  have processed : ∀ {wallet' : CWallet},
      processFileTransaction around tx (addToWallet tx wallet) =
        some wallet' →
      wallet'.deliveries = wallet.deliveries ∧
        wallet'.walletFileTxSent = wallet.walletFileTxSent := by
    intro wallet' done
    unfold processFileTransaction at done
    repeat' split at done
    all_goals cases done
    all_goals exact ⟨added.2, added.1⟩
  unfold syncTransaction at done
  split at done
  · dsimp only at done
    split at done
    · exact processed done
    · cases done
      exact ⟨added.2, added.1⟩
  · cases done
    exact ⟨rfl, rfl⟩

theorem perform_grows {event : Event} {wallet : CWallet} {outcome : Outcome}
    (performed : event.perform wallet = some outcome) :
    Grows event.Makes wallet outcome.wallet outcome.sent := by
  cases event with
  | syncTransaction around tx pblock =>
      rcases Option.map_eq_some_iff.mp performed with ⟨wallet', done, rfl⟩
      exact .of_eq (syncTransaction_frame done).1
  | processFileContract around => exact processOrders_grows performed
  | writeWalletFileTx walletFileTx =>
      cases performed
      exact .of_eq rfl
  | resendWalletTransactions around =>
      cases performed
      refine ⟨List.Subset.refl _, fun _ here => .inl here, ?_⟩
      exact List.filter_subset_self _

theorem perform_once {event : Event} {wallet : CWallet} {outcome : Outcome}
    (performed : event.perform wallet = some outcome)
    (accepts : event.Accepts wallet) (once : Once wallet) :
    Once outcome.wallet := by
  cases event with
  | syncTransaction around tx pblock =>
      rcases Option.map_eq_some_iff.mp performed with ⟨wallet', done, rfl⟩
      have frame := syncTransaction_frame done
      exact once.of_eq frame.1 frame.2
  | processFileContract around =>
      exact processOrders_once performed (accepts around rfl) once
  | writeWalletFileTx walletFileTx =>
      cases performed
      exact once.of_eq rfl rfl
  | resendWalletTransactions around =>
      cases performed
      exact once

/-! ## Whole runs -/

theorem Run.grows {start wallet : CWallet} {steps : List Step}
    (run : Run start steps wallet) :
    Grows (fun delivery => ∃ tick ∈ steps, tick.event.Makes delivery)
      start wallet (sentBy steps) := by
  induction run with
  | nil => exact .of_eq rfl
  | snoc reached performed ih =>
      have last := perform_grows performed
      unfold sentBy at ih ⊢
      rw [List.flatMap_append, List.flatMap_singleton]
      refine Grows.trans ⟨ih.keeps, ?_, ih.sends⟩
        ⟨last.keeps, ?_, last.sends⟩
      · intro delivery here
        refine (ih.adds delivery here).imp_right ?_
        rintro ⟨tick, earlier, makes⟩
        exact ⟨tick, List.mem_append_left _ earlier, makes⟩
      · intro delivery here
        refine (last.adds delivery here).imp_right ?_
        intro makes
        exact ⟨_, List.mem_append_right _ (List.mem_singleton_self _), makes⟩

theorem Run.once {start wallet : CWallet} {steps : List Step}
    (run : Run start steps wallet) (fresh : start.deliveries = [])
    (accepts : ∀ step ∈ steps, step.event.Accepts step.before) : Once wallet := by
  induction run with
  | nil =>
      constructor
      · rw [fresh]
        intro delivery impossible
        cases impossible
      · rw [fresh]
        intro delivery impossible
        cases impossible
  | snoc reached performed ih =>
      refine perform_once performed ?_ (ih ?_)
      · exact accepts _ (List.mem_append_right _ (List.mem_singleton_self _))
      · intro step earlier
        exact accepts step (List.mem_append_left _ earlier)

/-- A run up to one of its steps. -/
theorem Run.upTo {start wallet : CWallet} {steps before after : List Step}
    {step : Step} (run : Run start steps wallet)
    (split : steps = before ++ step :: after) :
    Run start (before ++ [step]) step.outcome.wallet := by
  induction run generalizing after with
  | nil =>
      exact absurd split (by simp)
  | snoc reached performed ih =>
      rcases List.eq_nil_or_concat after with none | ⟨init, last, isLast⟩
      · rw [none] at split
        rw [← split]
        rcases List.append_inj' split rfl with ⟨_, same⟩
        rw [← (List.cons.inj same).1]
        exact .snoc reached performed
      · rw [isLast, List.concat_eq_append, ← List.cons_append,
          ← List.append_assoc] at split
        exact ih (List.append_inj' split rfl).1

/-- The run of a list of events. -/
def performAll (wallet : CWallet) : List Event → Option (List Step × CWallet)
  | [] => some ([], wallet)
  | event :: events =>
      match event.perform wallet with
      | none => none
      | some outcome =>
          (performAll outcome.wallet events).map fun later =>
            (⟨wallet, event, outcome⟩ :: later.1, later.2)

theorem performAll_extends {start wallet wallet' : CWallet}
    {earlier steps : List Step} {events : List Event}
    (reached : Run start earlier wallet)
    (done : performAll wallet events = some (steps, wallet')) :
    Run start (earlier ++ steps) wallet' := by
  induction events generalizing earlier wallet steps with
  | nil =>
      cases done
      rw [List.append_nil]
      exact reached
  | cons event events ih =>
      rw [performAll] at done
      split at done
      · cases done
      case h_2 outcome performed =>
        rcases Option.map_eq_some_iff.mp done with ⟨⟨later, _⟩, goesOn, same⟩
        cases same
        have further := ih (.snoc reached performed) goesOn
        rw [List.append_assoc] at further
        exact further

theorem performAll_events {wallet wallet' : CWallet} {steps : List Step}
    {events : List Event}
    (done : performAll wallet events = some (steps, wallet')) :
    ∀ step ∈ steps, step.event ∈ events := by
  induction events generalizing wallet steps with
  | nil =>
      cases done
      intro step impossible
      cases impossible
  | cons event events ih =>
      rw [performAll] at done
      split at done
      · cases done
      · rcases Option.map_eq_some_iff.mp done with ⟨⟨later, _⟩, goesOn, same⟩
        cases same
        intro step here
        rcases List.mem_cons.mp here with rfl | here
        · exact List.mem_cons_self
        · exact List.mem_cons_of_mem _ (ih goesOn step here)

theorem performAll_run {start wallet : CWallet} {steps : List Step}
    {events : List Event}
    (done : performAll start events = some (steps, wallet)) :
    Run start steps wallet :=
  performAll_extends .nil done

/-- No request is answered with two different file transfers. -/
def AtMostOnce (steps : List Step) : Prop :=
  ∀ delivery ∈ sentBy steps, ∀ other ∈ sentBy steps,
    delivery.requestTxid = other.requestTxid →
      delivery.transfer = other.transfer

/--
What a step sends was made, in this step or before it, for a confirmation that
was deep enough and paid the price.
-/
def AgainstPayment (steps : List Step) : Prop :=
  ∀ before step after, steps = before ++ step :: after →
    ∀ delivery ∈ step.outcome.sent,
      ∃ tick ∈ before ++ [step], tick.event.Makes delivery

instance (steps : List Step) : Decidable (AtMostOnce steps) :=
  inferInstanceAs (Decidable (∀ delivery ∈ sentBy steps,
    ∀ other ∈ sentBy steps, delivery.requestTxid = other.requestTxid →
      delivery.transfer = other.transfer))

theorem Run.againstPayment {start wallet : CWallet} {steps : List Step}
    (run : Run start steps wallet) (fresh : start.deliveries = []) :
    AgainstPayment steps := by
  intro before step after split delivery sent
  have grows := (run.upTo split).grows
  have sentEarlier : delivery ∈ sentBy (before ++ [step]) := by
    unfold sentBy
    rw [List.flatMap_append, List.flatMap_singleton]
    exact List.mem_append_right _ sent
  rcases grows.adds delivery (grows.sends sentEarlier) with old | made
  · rw [fresh] at old
    cases old
  · exact made

/--
A run in which the mempool takes all file transfers that are made delivers
each file at most once, and only against payment.
-/
theorem delivered_once (start wallet : CWallet) (steps : List Step)
    (run : Run start steps wallet) (fresh : start.deliveries = [])
    (accepts : ∀ step ∈ steps, step.event.Accepts step.before) :
    AtMostOnce steps ∧ AgainstPayment steps := by
  refine ⟨?_, run.againstPayment fresh⟩
  intro delivery sent other sentOther same
  have once := run.once fresh accepts
  have sends := run.grows.sends
  rw [once.single delivery (sends sent) other (sends sentOther) same]

/-! ### A transfer that the mempool refuses at first -/

/-- Payment request 10, at a price of 50. -/
def requestTx : CTransaction :=
  ⟨10, 1, txFilePaymentRequest, [], [], .paymentRequest ⟨1, [], 50, 1, 5⟩,
    [], 0⟩

/-- The seller's wallet, with the hash of the transfer it makes next. -/
def sellersAround (hash : UInt256) (accepts : Bool) : Surroundings where
  depth := fun _ => 6
  isMine := fun _ => true
  getCredit := fun _ => 100
  getDebit := fun _ => 0
  writesToDisk := true
  getTransaction := fun txid => if txid = 10 then some requestTx else none
  getTransaction_hash := by
    intro txid tx found
    split_ifs at found with same
    rw [same, ← Option.some.inj found]
    rfl
  isLocked := false
  adjustedTime := 0
  encryptMeta := fun _ _ => some []
  encryptFile := fun walletFileTx => walletFileTx.vchBytes
  calcFileHash := fun _ => 3
  saveFileDB := fun _ => true
  createTransaction := fun _ _ _ => some ⟨hash, [], [], 0⟩
  acceptToMemoryPool := fun _ => accepts
  resends := fun _ => true

def offering : Event :=
  .writeWalletFileTx ⟨10, [7], [], 5⟩

def confirming : Event :=
  .syncTransaction (sellersAround 20 true) confirmTx true

def answering (hash : UInt256) (accepts : Bool) : Event :=
  .processFileContract fun _ => sellersAround hash accepts

def relaying : Event :=
  .resendWalletTransactions
    { sellersAround 20 true with depth := fun _ => 0 }

/-- A run that sends transfer 21 for request 10. -/
theorem delivered_once_answered : ∃ wallet steps, Run emptyWallet steps wallet ∧
    (sentBy steps).map (fun delivery => delivery.transfer.getHash) = [21] ∧
    AtMostOnce steps ∧ AgainstPayment steps := by
  have computed : (performAll emptyWallet
      [offering, confirming, answering 21 true]).map (fun result =>
        (sentBy result.1).map fun delivery => delivery.transfer.getHash) =
      some [21] := by
    decide
  rcases Option.map_eq_some_iff.mp computed with ⟨⟨steps, wallet⟩, run, sent⟩
  refine ⟨wallet, steps, performAll_run run, sent, ?_⟩
  refine delivered_once _ _ _ (performAll_run run) rfl ?_
  intro step here around isTick
  refine takes_of_all (fun round transfer => ?_) _ _ _
  have isEvent := performAll_events run step here
  rw [isTick] at isEvent
  simp only [List.mem_cons, List.not_mem_nil, or_false] at isEvent
  rcases isEvent with impossible | impossible | same
  · cases impossible
  · cases impossible
  · cases same
    rfl

def refusedFirst : List Event :=
  [offering, confirming, answering 20 false, answering 21 true, relaying]

theorem refused_transfer_sent_later :
    ¬ ∀ (start wallet : CWallet) (steps : List Step), Run start steps wallet →
      start.deliveries = [] → AtMostOnce steps ∧ AgainstPayment steps := by
  intro once
  have computed : (performAll emptyWallet refusedFirst).map
      (fun result => decide (AtMostOnce result.1)) = some false := by
    decide
  rcases Option.map_eq_some_iff.mp computed with ⟨⟨steps, wallet⟩, run, twice⟩
  exact of_decide_eq_false twice (once _ _ _ (performAll_run run) rfl).1

end PrivateDatagram.Wallet.FileOrders
