import PrivateDatagram.Wallet.MintSpends

/-!
# Spends with change

`minimizeChange` goes below the target and then over it with one more coin,
drops what the change would return, and finds the coins again for the amount
that is left.  `calculateChange` compares it with a single coin over the
target, or with the highest coins until the target is met.
-/

namespace PrivateDatagram.Wallet.MintSelection

open Library.ChangeMaking Library.FueledLoops
open Consensus.ProofOfStake (CoinDenomination)

/-! ## Coins that are held -/

/-- Only coins that are held are used. -/
def Within (held used : DenomMap) : Prop :=
  ∀ coin ∈ reversed, used coin ≤ held coin

theorem Within.zero (held : DenomMap) : Within held fun _ => 0 :=
  fun _ _ => Nat.zero_le _

theorem Within.update {held used : DenomMap} (within : Within held used)
    {coin : CoinDenomination} {count : Nat} (le : count ≤ held coin) :
    Within held (Function.update used coin count) := by
  intro other mem
  by_cases same : other = coin
  · subst same
    rw [Function.update_self]
    exact le
  · rw [Function.update_of_ne same]
    exact within other mem

/-- Coins that are held are used, and the amounts are those of the coins. -/
structure Taken.Sound (held : DenomMap) (target : Int) (s : Taken) : Prop
    extends s.Balanced target where
  within : Within held s.mapUsed

theorem Taken.sound_start (held : DenomMap) (nValueTarget : Int64) :
    (Taken.start nValueTarget).Sound held nValueTarget.toInt where
  toBalanced := balanced_start nValueTarget
  within := .zero held

theorem Taken.Sound.take {held : DenomMap} {target : Int} {s : Taken}
    (sound : s.Sound held target) {coin : CoinDenomination}
    (mem : coin ∈ reversed) (nonneg : 0 ≤ s.nRemainingValue.toInt)
    (free : s.mapUsed coin < held coin) : (s.take coin).Sound held target where
  toBalanced := sound.toBalanced.take mem nonneg
  within := sound.within.update free

/-! ## Below the target -/

/-- The loop of `undercut` takes no more of a denomination. -/
def Taken.Stuck (held : DenomMap) (coin : CoinDenomination) (s : Taken) :
    Prop :=
  s.nRemainingValue.toInt ≤ value coin ∨ held coin ≤ s.mapUsed coin

theorem canUndercut_iff {held : DenomMap} {coin : CoinDenomination}
    {s : Taken} :
    canUndercut held coin s = true ↔
      value coin < s.nRemainingValue.toInt ∧ s.mapUsed coin < held coin := by
  rw [canUndercut, Bool.and_eq_true, decide_eq_true_eq, decide_eq_true_eq,
    Int64.lt_iff_toInt_lt, value]

theorem Taken.Stuck.of_not_canUndercut {held : DenomMap}
    {coin : CoinDenomination} {s : Taken}
    (stops : canUndercut held coin s = false) : s.Stuck held coin := by
  by_contra more
  rw [Stuck, not_or, not_le, not_le] at more
  rw [canUndercut_iff.mpr more] at stops
  exact Bool.noConfusion stops

theorem Taken.Stuck.take {held : DenomMap} {coin other : CoinDenomination}
    {s : Taken} (stuck : s.Stuck held other)
    (nonneg : 0 ≤ s.nRemainingValue.toInt) :
    (s.take coin).Stuck held other := by
  have positive := value_nonneg coin
  rw [Stuck, toInt_take_remaining coin nonneg]
  exact stuck.imp (by omega) fun full =>
    full.trans (mapUsed_le_take coin other s)

/-- Below the target, and no denomination that the loop has come by and that is
allowed fits any more. -/
structure Undercut (held : DenomMap) (nextToMaxDenom : CoinDenomination)
    (target : Int) (items : List CoinDenomination) (s : Taken) : Prop
    extends s.Sound held target where
  listed : ∀ coin ∈ items, coin ∈ reversed
  nonneg : 0 ≤ s.nRemainingValue.toInt
  stuck : ∀ coin ∈ reversed, coin ∉ items →
    coin.toInt64 ≤ nextToMaxDenom.toInt64 → s.Stuck held coin

theorem Undercut.take {held : DenomMap} {nextToMaxDenom : CoinDenomination}
    {target : Int} {items : List CoinDenomination} {coin : CoinDenomination}
    {s : Taken} (below : Undercut held nextToMaxDenom target (coin :: items) s)
    (takes : canUndercut held coin s = true) :
    Undercut held nextToMaxDenom target (coin :: items) (s.take coin) := by
  obtain ⟨large, free⟩ := canUndercut_iff.mp takes
  refine ⟨below.toSound.take (below.listed coin List.mem_cons_self)
    below.nonneg free, below.listed, ?_, fun other mem out small =>
    (below.stuck other mem out small).take below.nonneg⟩
  rw [Taken.toInt_take_remaining coin below.nonneg]
  omega

/-- A denomination is left when it is not allowed, or does not fit. -/
theorem Undercut.next {held : DenomMap} {nextToMaxDenom : CoinDenomination}
    {target : Int} {items : List CoinDenomination} {coin : CoinDenomination}
    {s : Taken} (below : Undercut held nextToMaxDenom target (coin :: items) s)
    (stuck : coin.toInt64 ≤ nextToMaxDenom.toInt64 → s.Stuck held coin) :
    Undercut held nextToMaxDenom target items s where
  toSound := below.toSound
  listed := (List.forall_mem_cons.mp below.listed).2
  nonneg := below.nonneg
  stuck := by
    intro other mem out small
    by_cases same : other = coin
    · subst same
      exact stuck small
    · exact below.stuck other mem
        (List.not_mem_cons_of_ne_of_not_mem same out) small

theorem undercut_halts (held : DenomMap) (nextToMaxDenom : CoinDenomination)
    {nValueTarget : Int64} (positive : 0 < nValueTarget.toInt) :
    Halts (undercut nextToMaxDenom nValueTarget held)
      (Undercut held nextToMaxDenom nValueTarget.toInt []) := by
  refine forEach_halts
    (Undercut held nextToMaxDenom nValueTarget.toInt) ?_ ?_
  · intro coin items s below
    apply Halts.ite
    · intro allowed
      have loop : Halts (takeWhile coin (canUndercut held coin)
          (canUndercut held coin) s) fun s =>
            Undercut held nextToMaxDenom nValueTarget.toInt (coin :: items) s ∧
            canUndercut held coin s = false := by
        refine takeWhile_halts _ (fun s => held coin - s.mapUsed coin)
          (fun _ goes => goes) (fun s below takes _ => below.take takes) ?_
          below
        intro s _ _ goes
        obtain ⟨-, free⟩ := canUndercut_iff.mp goes
        have more := Taken.take_mapUsed_self coin s
        omega
      exact loop.mono fun s post =>
        post.1.next fun _ => .of_not_canUndercut post.2
    · intro high
      exact .pure (below.next fun small => absurd small high)
  · exact ⟨Taken.sound_start held nValueTarget, fun _ mem => mem,
      positive.le, fun coin mem out => absurd mem out⟩

/-! ## Over the target -/

/-- At most one coin over the target. -/
structure Taken.Filled (held : DenomMap) (target : Int) (s : Taken) : Prop
    extends s.Sound held target where
  low : -highest ≤ s.nRemainingValue.toInt

theorem Taken.Filled.total_le {held : DenomMap} {target : Int} {s : Taken}
    (filled : s.Filled held target) : total s.mapUsed ≤ target + highest := by
  have low := filled.low
  rw [filled.remaining] at low
  omega

/-- The target is passed, or nothing is changed and no coin could pass it. -/
theorem fillUp_filled {held : DenomMap} {target : Int} {s : Taken}
    (sound : s.Sound held target) (nonneg : 0 ≤ s.nRemainingValue.toInt)
    {items : List CoinDenomination}
    (listed : ∀ coin ∈ items, coin ∈ reversed) :
    (fillUp held items s).Filled held target ∧
      ((fillUp held items s).nRemainingValue.toInt < 0 ∨
        ∀ coin ∈ items, value coin ≤ s.nRemainingValue.toInt ∨
          held coin ≤ s.mapUsed coin) := by
  have highest_nonneg : -highest ≤ 0 := by decide
  induction items with
  | nil =>
      exact ⟨⟨sound, highest_nonneg.trans nonneg⟩,
        .inr fun _ absent => absurd absent List.not_mem_nil⟩
  | cons coin items hypothesis =>
      rw [List.forall_mem_cons] at listed
      rw [fillUp]
      by_cases takes : toAmount coin > s.nRemainingValue ∧
          s.mapUsed coin < held coin
      · have large : s.nRemainingValue.toInt < value coin :=
          Int64.lt_iff_toInt_lt.mp takes.1
        have passed : (s.take coin).nRemainingValue.toInt < 0 := by
          rw [Taken.toInt_take_remaining coin nonneg]
          omega
        have small := value_le_highest coin
        rw [if_pos takes, if_pos (Int64.lt_iff_toInt_lt.mpr passed)]
        refine ⟨⟨sound.take listed.1 nonneg takes.2, ?_⟩, .inl passed⟩
        rw [Taken.toInt_take_remaining coin nonneg]
        omega
      · have stays : ¬s.nRemainingValue < 0 := by
          rw [Int64.lt_iff_toInt_lt]
          exact nonneg.not_gt
        rw [if_neg takes, if_neg stays]
        rw [not_and_or, gt_iff_lt, Int64.lt_iff_toInt_lt, not_lt,
          not_lt] at takes
        obtain ⟨filled, passed | stuck⟩ := hypothesis listed.2
        · exact ⟨filled, .inl passed⟩
        · exact ⟨filled, .inr (List.forall_mem_cons.mpr ⟨takes, stuck⟩)⟩

/-! ## Coins that come back -/

/-- What cancelling keeps. -/
structure Overlap.Sound (held : DenomMap) (bound : Int) (s : Overlap) :
    Prop where
  within : Within held s.used.mapUsed
  used : s.used.amountUsed = .ofInt (total s.used.mapUsed)
  total_le : total s.used.mapUsed ≤ bound

theorem Overlap.cancel_of_not_both {coin : CoinDenomination} {s : Overlap}
    (none : s.both coin = false) : s.cancel coin = s :=
  if_neg (by rw [none]; exact Bool.false_ne_true)

theorem Overlap.both_iff {coin : CoinDenomination} {s : Overlap} :
    s.both coin = true ↔
      s.mapAltChange coin ≠ 0 ∧ s.used.mapUsed coin ≠ 0 := by
  rw [both, Bool.and_eq_true, decide_eq_true_eq, decide_eq_true_eq]

theorem Overlap.Sound.cancel {held : DenomMap} {bound : Int} {s : Overlap}
    (sound : s.Sound held bound) {coin : CoinDenomination}
    (mem : coin ∈ reversed) : (s.cancel coin).Sound held bound := by
  cases both : s.both coin with
  | false =>
      rw [cancel_of_not_both both]
      exact sound
  | true =>
      obtain ⟨-, some⟩ := Overlap.both_iff.mp both
      have less : total (Function.update s.used.mapUsed coin
          (s.used.mapUsed coin - 1)) =
            total s.used.mapUsed - value coin := by
        rw [total_update mem, Int.natCast_sub (Nat.pos_of_ne_zero some),
          Int.natCast_one, sub_sub_cancel_left, Int.neg_mul, Int.one_mul]
        rfl
      rw [Overlap.cancel, if_pos both]
      constructor
      · exact sound.within.update
          ((Nat.sub_le _ 1).trans (sound.within coin mem))
      · rw [less, Int64.ofInt_sub, ← sound.used, value, Int64.ofInt_toInt]
      · rw [less]
        exact (sub_le_self _ (value_nonneg coin)).trans sound.total_le

theorem cancelOverlap_halts {held : DenomMap} {bound : Int} {start : Overlap}
    (sound : start.Sound held bound) :
    Halts (cancelOverlap start) fun s => s.Sound held bound ∧
      ((∀ coin ∈ reversed, start.both coin = false) → s = start) := by
  have each : Halts (cancelOverlap start) fun s =>
      (∀ coin ∈ ([] : List CoinDenomination), coin ∈ reversed) ∧
      s.Sound held bound ∧
      ((∀ coin ∈ reversed, start.both coin = false) → s = start) := by
    refine forEach_halts (fun items s => (∀ coin ∈ items, coin ∈ reversed) ∧
      s.Sound held bound ∧
      ((∀ coin ∈ reversed, start.both coin = false) → s = start)) ?_
      ⟨fun _ => mem_reversed.mpr, sound, fun _ => rfl⟩
    rintro coin items s ⟨listed, current⟩
    rw [List.forall_mem_cons] at listed
    have kept : ∀ s, (s.Sound held bound ∧
        ((∀ coin ∈ reversed, start.both coin = false) → s = start)) →
        (s.cancel coin).Sound held bound ∧
        ((∀ coin ∈ reversed, start.both coin = false) →
          s.cancel coin = start) := by
      rintro s ⟨sound, same⟩
      refine ⟨sound.cancel listed.1, fun none => ?_⟩
      rw [same none]
      exact Overlap.cancel_of_not_both (none coin listed.1)
    refine doWhile_halts (fun s => s.used.mapUsed coin)
      (fun s current _ => ⟨listed.2, kept s current⟩)
      (fun s current goes => ⟨kept s current, ?_⟩) current
    obtain ⟨-, left⟩ := Overlap.both_iff.mp goes
    cases both : s.both coin with
    | false =>
        rw [Overlap.cancel_of_not_both both, both] at goes
        exact Bool.noConfusion goes
    | true =>
        have less : (s.cancel coin).used.mapUsed coin =
            s.used.mapUsed coin - 1 := by
          rw [Overlap.cancel, if_pos both]
          exact Function.update_self ..
        rw [less] at left ⊢
        omega
  exact each.mono fun s post => post.2

/-! ## The alternative -/

/-- What `minimizeChange` has found before it compares the numbers of coins. -/
structure Alternative (held : DenomMap) (nextToMaxDenom : CoinDenomination)
    (nValueTarget : Int64) (filled : Overlap) (cancelled : Overlap)
    (used change : DenomMap) : Prop where
  below : ∃ below, Undercut held nextToMaxDenom nValueTarget.toInt [] below ∧
    filled.used = fillUp held zerocoinDenomList below
  coinsBack : ∃ plenty remaining, Greedy value plenty filled.mapAltChange
    reversed (filled.used.amountUsed - nValueTarget).toInt remaining
  sound : cancelled.Sound held (nValueTarget.toInt + highest)
  same : (∀ coin ∈ reversed, filled.both coin = false) → cancelled = filled
  spent : ∃ remaining, Greedy value held used reversed
    cancelled.used.amountUsed.toInt remaining
  left : size change reversed = changeSize value reversed
    (cancelled.used.amountUsed - nValueTarget).toInt

theorem minimizeChange_halts (nMaxNumberOfSpends nChangeCount : Int32)
    (nextToMaxDenom : CoinDenomination) {nValueTarget : Int64}
    (positive : 0 < nValueTarget.toInt) (held saved : DenomMap) :
    Halts (minimizeChange nMaxNumberOfSpends nChangeCount nextToMaxDenom
      nValueTarget held saved) fun result =>
        ∃ filled cancelled used change,
          Alternative held nextToMaxDenom nValueTarget filled cancelled used
            change ∧
          (result = (nChangeCount, saved) ∨
            getNumberOfCoinsUsed change < nChangeCount ∧
              result = (getNumberOfCoinsUsed change, used)) := by
  have listed : ∀ coin ∈ zerocoinDenomList, coin ∈ reversed :=
    fun coin => mem_reversed.mpr
  refine (undercut_halts held nextToMaxDenom positive).bind
    fun below undercut => ?_
  have filled := (fillUp_filled undercut.toSound undercut.nonneg listed).1
  refine (getChange_halts _).bind fun alt altPost => ?_
  have start : Overlap.Sound held (nValueTarget.toInt + highest)
      ⟨fillUp held zerocoinDenomList below, alt⟩ :=
    ⟨filled.within, filled.used, filled.total_le⟩
  refine (cancelOverlap_halts start).bind fun cancelled cancelledPost => ?_
  refine (getSpendCoins_halts _ held).bind fun used usedPost => ?_
  refine (getChange_halts _).bind fun change changePost => ?_
  have alternative : Alternative held nextToMaxDenom nValueTarget
      ⟨fillUp held zerocoinDenomList below, alt⟩ cancelled used change :=
    { below := ⟨below, undercut, rfl⟩
      coinsBack := altPost.2
      sound := cancelledPost.1
      same := cancelledPost.2
      spent := usedPost
      left := changePost.1 }
  apply Halts.ite
  · intro better
    exact .pure ⟨_, _, _, _, alternative, .inr ⟨better.1, rfl⟩⟩
  · intro _
    exact .pure ⟨_, _, _, _, alternative, .inl rfl⟩

/-- Only coins that are held are spent; there are none, or their total is an
amount and the change is counted right. -/
structure Settled (held : DenomMap) (target : Int)
    (result : Int32 × DenomMap) : Prop where
  within : Within held result.2
  settled : (∀ coin ∈ reversed, result.2 coin = 0) ∨
    total result.2 < 2 ^ 63 ∧ total result.2 ≤ target + highest ∧
      result.1 = .ofNat (changeSize value reversed (total result.2 - target))

theorem Settled.of_amount {held used change : DenomMap}
    {nValueTarget amount : Int64} (positive : 0 < nValueTarget.toInt)
    (within : Within held used) (spent : amount.toInt = total used)
    (low : total used ≤ nValueTarget.toInt + highest)
    (left : size change reversed =
      changeSize value reversed (amount - nValueTarget).toInt) :
    Settled held nValueTarget.toInt (getNumberOfCoinsUsed change, used) := by
  have bounded := nValueTarget.toInt_lt
  have nonneg := total_nonneg used
  have fits := amount.toInt_lt
  rw [spent] at fits
  have excess : (amount - nValueTarget).toInt =
      total used - nValueTarget.toInt := by
    rw [Int64.toInt_sub, spent]
    exact Int.bmod_eq_of_le (by omega) (by omega)
  rw [excess] at left
  refine ⟨within, .inr ⟨fits, low, ?_⟩⟩
  rw [getNumberOfCoinsUsed_eq, left]

theorem Alternative.settled {held : DenomMap}
    {nextToMaxDenom : CoinDenomination} {nValueTarget : Int64}
    {filled cancelled : Overlap} {used change : DenomMap}
    (found : Alternative held nextToMaxDenom nValueTarget filled cancelled
      used change) (positive : 0 < nValueTarget.toInt) :
    Settled held nValueTarget.toInt (getNumberOfCoinsUsed change, used) := by
  have bounded := nValueTarget.toInt_lt
  have nonneg := total_nonneg cancelled.used.mapUsed
  have small : total cancelled.used.mapUsed ≤
      nValueTarget.toInt + 500000000000 := found.sound.total_le
  obtain ⟨remaining, greedy⟩ := found.spent
  by_cases fits : total cancelled.used.mapUsed < 2 ^ 63
  · -- The amount is met again exactly.
    have amount : cancelled.used.amountUsed.toInt =
        total cancelled.used.mapUsed := by
      rw [found.sound.used]
      exact Int64.toInt_ofInt_of_le (by omega) fits
    rw [amount] at greedy
    obtain ⟨exact, -⟩ :=
      greedy.exact descends_reversed found.sound.within rfl
    have again : total used = total cancelled.used.mapUsed := by
      have rest : remaining = total cancelled.used.mapUsed - total used :=
        greedy.remaining_eq
      omega
    exact .of_amount positive greedy.le_held (amount.trans again.symm)
      (again.trans_le found.sound.total_le) found.left
  · -- A wrapped amount is negative, so that no coins are found for it.
    have debt : cancelled.used.amountUsed.toInt < 0 := by
      rw [found.sound.used, Int64.toInt_ofInt, Int.bmod_def]
      simp only [Int64.size]
      split_ifs <;> omega
    exact ⟨greedy.le_held,
      .inl (greedy.eq_zero_of_neg descends_reversed.positive debt)⟩

/-! ## Meeting the target -/

/-- The coins used are those of the denominations before `items`, all of them
unless the target is met; what they are worth is not rounded up beyond a
multiple of the highest. -/
structure Met (held : DenomMap) (target : Int)
    (items : List CoinDenomination) (s : Taken) : Prop
    extends s.Filled held target where
  listed : ∀ coin ∈ items, coin ∈ reversed
  multiple : ∀ coin ∈ items, value coin ∣ total s.mapUsed
  capped : ∀ cap, target ≤ cap → highest ∣ cap → total s.mapUsed ≤ cap
  full : s.nRemainingValue.toInt ≤ 0 ∨ ∀ coin ∈ reversed, coin ∉ items →
    held coin ≤ s.mapUsed coin

theorem Met.take {held : DenomMap} {target : Int}
    {items : List CoinDenomination} {coin : CoinDenomination} {s : Taken}
    (met : Met held target (coin :: items) s)
    (lower : ∀ other ∈ items, value other ∣ value coin)
    (left : 0 < s.nRemainingValue.toInt)
    (free : s.mapUsed coin < held coin) :
    Met held target (coin :: items) (s.take coin) := by
  have mem := met.listed coin List.mem_cons_self
  have added := Taken.total_take mem s
  have below : total s.mapUsed < target := by
    rw [met.remaining] at left
    omega
  refine ⟨⟨met.toSound.take mem left.le free, ?_⟩, met.listed, ?_, ?_, ?_⟩
  · have small := value_le_highest coin
    rw [Taken.toInt_take_remaining coin left.le]
    omega
  · rw [added]
    intro other listed
    refine Int.dvd_add (met.multiple other listed) ?_
    obtain rfl | listed := List.mem_cons.mp listed
    · exact Int.dvd_refl _
    · exact lower other listed
  · intro cap atMost divides
    have whole : value coin ∣ cap - total s.mapUsed :=
      Int.dvd_sub ((value_dvd_highest mem).trans divides)
        (met.multiple coin List.mem_cons_self)
    have fits := Int.le_of_dvd (by omega) whole
    omega
  · right
    intro other listed out
    exact (met.full.resolve_left (by omega) other listed out).trans
      (Taken.mapUsed_le_take coin other s)

theorem Met.next {held : DenomMap} {target : Int}
    {items : List CoinDenomination} {coin : CoinDenomination} {s : Taken}
    (met : Met held target (coin :: items) s)
    (stops : s.nRemainingValue.toInt ≤ 0 ∨ held coin ≤ s.mapUsed coin) :
    Met held target items s where
  toFilled := met.toFilled
  listed := (List.forall_mem_cons.mp met.listed).2
  multiple := (List.forall_mem_cons.mp met.multiple).2
  capped := met.capped
  full := by
    obtain paid | all := stops
    · exact .inl paid
    · refine met.full.imp_right fun full other mem out => ?_
      by_cases same : other = coin
      · exact same ▸ all
      · exact full other mem (List.not_mem_cons_of_ne_of_not_mem same out)

theorem Met.stop {held : DenomMap} {target : Int}
    {items : List CoinDenomination} {s : Taken} (met : Met held target items s)
    (paid : s.nRemainingValue.toInt < 0) : Met held target [] s where
  toFilled := met.toFilled
  listed := fun _ absent => absurd absent List.not_mem_nil
  multiple := fun _ absent => absurd absent List.not_mem_nil
  capped := met.capped
  full := .inl paid.le

theorem meetTarget_halts {held : DenomMap} {target : Int}
    {items : List CoinDenomination} (descends : Descends value items)
    {start : Taken} (met : Met held target items start)
    (unused : ∀ coin ∈ items, start.mapUsed coin = 0) :
    Halts (meetTarget held items start) (Met held target []) := by
  induction items generalizing start with
  | nil => exact .pure met
  | cons coin items hypothesis =>
      have absent := (List.nodup_cons.mp descends.nodup).1
      have lower := (List.pairwise_cons.mp descends.divides).1
      rw [List.forall_mem_cons] at unused
      rw [meetTarget]
      have loop : Halts (takeWhile coin
          (fun s => held coin ≠ 0 && decide (0 < s.nRemainingValue))
          (fun s => decide (0 < s.nRemainingValue) &&
            decide (s.mapUsed coin < held coin)) start) fun s =>
          (Met held target (coin :: items) s ∧
            ∀ other ∈ items, s.mapUsed other = 0) ∧
          (decide (0 < s.nRemainingValue) &&
            decide (s.mapUsed coin < held coin)) = false := by
        refine takeWhile_halts _ (fun s => held coin - s.mapUsed coin)
          ?_ ?_ ?_ ⟨met, unused.2⟩
        · intro s goes
          rw [Bool.and_eq_true, decide_eq_true_eq, decide_eq_true_eq] at goes ⊢
          exact ⟨Nat.ne_of_gt (Nat.zero_lt_of_lt goes.2), goes.1⟩
        · rintro s ⟨met, others⟩ takes round
          rw [Bool.and_eq_true, decide_eq_true_eq, decide_eq_true_eq,
            Int64.lt_iff_toInt_lt] at takes
          -- At the start none of the coins is used.
          have free : s.mapUsed coin < held coin := by
            obtain rfl | goes := round
            · rw [unused.1]
              exact Nat.pos_of_ne_zero takes.1
            · rw [Bool.and_eq_true, decide_eq_true_eq,
                decide_eq_true_eq] at goes
              exact goes.2
          refine ⟨met.take lower takes.2 free, fun other mem => ?_⟩
          rw [Taken.take_mapUsed_of_ne (ne_of_mem_of_not_mem mem absent)]
          exact others other mem
        · rintro s _ _ goes
          rw [Bool.and_eq_true, decide_eq_true_eq, decide_eq_true_eq] at goes
          have more := Taken.take_mapUsed_self coin s
          omega
      refine loop.bind fun s post => ?_
      obtain ⟨⟨met, others⟩, stops⟩ := post
      rw [Bool.and_eq_false_iff, decide_eq_false_iff_not,
        decide_eq_false_iff_not, Int64.lt_iff_toInt_lt, not_lt,
        not_lt] at stops
      apply Halts.ite
      · intro paid
        exact .pure (met.stop (Int64.lt_iff_toInt_lt.mp paid))
      · intro _
        exact hypothesis descends.tail (met.next stops) others

/-! ## Change for a target -/

/-- The largest amount that is a number of coins of the highest
denomination. -/
def roundAmount : Int := 18446744 * highest

theorem minDenomOverTarget_some {nValueTarget : Int64} {held : DenomMap}
    {minDenom : CoinDenomination}
    (found : minDenomOverTarget nValueTarget held = some minDenom) :
    minDenom ∈ reversed ∧ nValueTarget.toInt < value minDenom ∧
      held minDenom ≠ 0 := by
  have passes := List.find?_some found
  rw [Bool.and_eq_true, decide_eq_true_eq, decide_eq_true_eq,
    Int64.lt_iff_toInt_lt] at passes
  exact ⟨mem_reversed.mpr (List.mem_of_find?_eq_some found), passes⟩

/-- One coin over the target. -/
theorem Settled.oneCoin {nValueTarget : Int64} {held change : DenomMap}
    {minDenom : CoinDenomination} (positive : 0 < nValueTarget.toInt)
    (found : minDenomOverTarget nValueTarget held = some minDenom)
    (left : size change reversed = changeSize value reversed
      (toAmount minDenom - nValueTarget).toInt) :
    Settled held nValueTarget.toInt (getNumberOfCoinsUsed change,
      Function.update (fun _ => 0) minDenom 1) := by
  obtain ⟨mem, -, some⟩ := minDenomOverTarget_some found
  have one : total (Function.update (fun _ => 0) minDenom 1) =
      value minDenom := by
    rw [total_update mem, total_zero, Int.natCast_one, Int.natCast_zero,
      sub_zero, Int.one_mul, zero_add]
  have small := value_le_highest minDenom
  exact .of_amount positive ((Within.zero held).update
    (Nat.pos_of_ne_zero some)) one.symm (by omega) left

/-- A total that is not beyond the round amount has not wrapped. -/
theorem Met.settled {nValueTarget : Int64} {held change : DenomMap}
    {s : Taken} (met : Met held nValueTarget.toInt [] s)
    (positive : 0 < nValueTarget.toInt)
    (round : nValueTarget.toInt ≤ roundAmount)
    (left : size change reversed = changeSize value reversed
      (s.amountUsed - nValueTarget).toInt) :
    Settled held nValueTarget.toInt
      (getNumberOfCoinsUsed change, s.mapUsed) := by
  have nonneg := total_nonneg s.mapUsed
  have capped : total s.mapUsed ≤ 9223372000000000000 :=
    met.capped roundAmount round (Int.dvd_mul_left _ _)
  have spent : s.amountUsed.toInt = total s.mapUsed := by
    rw [met.used]
    exact Int64.toInt_ofInt_of_le (by omega) (by omega)
  exact .of_amount positive met.within spent met.total_le left

theorem Met.start (held : DenomMap) {nValueTarget : Int64}
    (positive : 0 < nValueTarget.toInt) :
    Met held nValueTarget.toInt reversed (.start nValueTarget) where
  toSound := Taken.sound_start held nValueTarget
  low := (show -highest ≤ 0 by decide).trans positive.le
  listed := fun _ mem => mem
  multiple := fun coin _ => by
    rw [Taken.start, total_zero]
    exact Int.dvd_zero _
  capped := fun cap atMost _ => by
    rw [Taken.start, total_zero]
    omega
  full := .inr fun coin mem out => absurd mem out

theorem calculateChange_settled (nMaxNumberOfSpends : Int32)
    (fMinimizeChange : Bool) {nValueTarget : Int64}
    (positive : 0 < nValueTarget.toInt)
    (round : nValueTarget.toInt ≤ roundAmount) (held : DenomMap) :
    Halts (calculateChange nMaxNumberOfSpends fMinimizeChange nValueTarget
      held) (Settled held nValueTarget.toInt) := by
  rw [calculateChange]
  cases found : minDenomOverTarget nValueTarget held with
  | some minDenom =>
      refine (getChange_halts _).bind fun change post => ?_
      have single := Settled.oneCoin positive found post.1
      apply Halts.ite
      · intro _
        refine (minimizeChange_halts _ _ _ positive held _).bind
          fun other post => ?_
        obtain ⟨_, _, _, _, alternative, kept | ⟨-, better⟩⟩ := post
        · apply Halts.ite
          · exact fun _ => .pure (kept ▸ single)
          · exact fun _ => .pure single
        · apply Halts.ite
          · exact fun _ => .pure (better ▸ alternative.settled positive)
          · exact fun _ => .pure single
      · exact fun _ => .pure single
  | none =>
      refine (meetTarget_halts descends_reversed (.start held positive)
        (fun _ _ => rfl)).bind fun s met => ?_
      refine (getChange_halts _).bind fun change post => ?_
      have highestFirst := met.settled positive round post.1
      refine (minimizeChange_halts _ _ _ positive held _).bind
        fun other post => ?_
      apply Halts.ite
      · exact fun _ => .pure highestFirst
      · intro _
        obtain ⟨_, _, _, _, alternative, kept | ⟨-, better⟩⟩ := post
        · exact .pure (kept ▸ highestFirst)
        · exact .pure (better ▸ alternative.settled positive)

end PrivateDatagram.Wallet.MintSelection
