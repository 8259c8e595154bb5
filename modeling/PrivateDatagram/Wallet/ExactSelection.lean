import PrivateDatagram.Wallet.MintChange

/-!
# Selections are exact about value

`SelectMintsFromList` returns distinct unused mints, their total and the number
of coins in the change, and finds an exact selection within the limit when
there is one.  It does so for the targets that are at most the largest amount
of whole coins of the highest denomination.
-/

namespace PrivateDatagram.Wallet.MintSelection

open Library.ChangeMaking Library.FueledLoops
open Consensus.ProofOfStake (CoinDenomination)

/-! ## The property -/

def unusedMints (listMints : List CMintMeta) : List CMintMeta :=
  listMints.filter fun mint => !mint.isUsed

/-- What a selection that is not empty has. -/
structure Selected.Sound (nValueTarget : Int64) (listMints : List CMintMeta)
    (s : Selected) : Prop where
  unused : s.vSelectedMints.Subperm (unusedMints listMints)
  distinct : listMints.Nodup → s.vSelectedMints.Nodup
  selectedValue : s.nSelectedValue.toInt = amountOf s.vSelectedMints
  enough : nValueTarget.toInt ≤ amountOf s.vSelectedMints
  coinsReturned : s.nCoinsReturned.toInt = changeSize value reversed
    (amountOf s.vSelectedMints - nValueTarget.toInt)

/-- Whenever some unused mints within the limit have exactly the target value,
the selection does. -/
def Selected.Complete (nValueTarget : Int64) (nMaxNumberOfSpends : Int32)
    (listMints : List CMintMeta) (s : Selected) : Prop :=
  ∀ chosen : List CMintMeta, chosen.Subperm (unusedMints listMints) →
    amountOf chosen = nValueTarget.toInt →
    (chosen.length : Int) ≤ nMaxNumberOfSpends.toInt →
      amountOf s.vSelectedMints = nValueTarget.toInt ∧
      (s.vSelectedMints.length : Int) ≤ nMaxNumberOfSpends.toInt

/-- The selection ends and is exact about value, for all mints, limits and
modes. -/
def SelectsExactly (nValueTarget : Int64) : Prop :=
  ∀ (nSelectedValue : Int64) (nMaxNumberOfSpends : Int32)
    (fMinimizeChange : Bool) (listMints : List CMintMeta)
    (mapOfDenomsHeld : DenomMap),
    (∀ denom ∈ zerocoinDenomList,
      mapOfDenomsHeld denom = available listMints denom) →
    Halts (selectMintsFromList nValueTarget nSelectedValue nMaxNumberOfSpends
      fMinimizeChange listMints mapOfDenomsHeld) fun s =>
        (s.vSelectedMints ≠ [] → s.Sound nValueTarget listMints) ∧
        s.Complete nValueTarget nMaxNumberOfSpends listMints

/-! ## Sets of mints -/

theorem available_cons_unused {mint : CMintMeta} (fresh : mint.isUsed = false)
    (mints : List CMintMeta) :
    available (mint :: mints) =
      Function.update (available mints) mint.denom
        (available mints mint.denom + 1) := by
  funext denom
  by_cases same : denom = mint.denom
  · subst same
    rw [Function.update_self]
    exact available_cons_of_unused mints (isUnused_iff.mpr ⟨fresh, rfl⟩)
  · rw [Function.update_of_ne same]
    exact available_cons_of_not mints fun unused =>
      same (isUnused_iff.mp unused).2

theorem value_of_notMem {denom : CoinDenomination} (out : denom ∉ reversed) :
    value denom = 0 := by
  revert out
  cases denom <;> decide

theorem amountOf_cons (mint : CMintMeta) (mints : List CMintMeta) :
    amountOf (mint :: mints) = value mint.denom + amountOf mints := by
  rw [amountOf, List.map_cons, List.sum_cons]
  rfl

/-- Unused mints counted by denomination. -/
theorem amountOf_eq_total {mints : List CMintMeta}
    (fresh : ∀ mint ∈ mints, mint.isUsed = false) :
    amountOf mints = total (available mints) ∧
      size (available mints) reversed ≤ mints.length := by
  induction mints with
  | nil => decide
  | cons mint mints hypothesis =>
      rw [List.forall_mem_cons] at fresh
      obtain ⟨amount, fewer⟩ := hypothesis fresh.2
      rw [amountOf_cons, amount, available_cons_unused fresh.1,
        List.length_cons]
      by_cases mem : mint.denom ∈ reversed
      · have more : size (Function.update (available mints) mint.denom
            (available mints mint.denom + 1)) reversed +
              available mints mint.denom =
            size (available mints) reversed +
              (available mints mint.denom + 1) :=
          size_update descends_reversed.nodup mem _
        rw [total_succ mem, add_comm]
        exact ⟨rfl, by omega⟩
      · have same : ∀ other ∈ reversed, Function.update (available mints)
            mint.denom (available mints mint.denom + 1) other =
              available mints other :=
          update_of_notMem mem _
        rw [value_of_notMem mem, zero_add, total, total, worth_congr same,
          size_congr same]
        exact ⟨rfl, fewer.trans (Nat.le_succ _)⟩

theorem available_le_of_subperm {chosen listMints : List CMintMeta}
    (part : chosen.Subperm (unusedMints listMints))
    (denom : CoinDenomination) :
    available chosen denom ≤ available listMints denom :=
  (part.countP_le _).trans (List.Sublist.countP_le List.filter_sublist)

/-! ## The exact attempt -/

/-- Mints within the limit that have the target value are at least as many as
those of the exact attempt, which then succeeds. -/
theorem getIdealSpends_best {nValueTarget : Int64}
    {listMints chosen : List CMintMeta}
    (part : chosen.Subperm (unusedMints listMints))
    (meets : amountOf chosen = nValueTarget.toInt) :
    (getIdealSpends nValueTarget listMints).1 = true ∧
      size (getIdealSpends nValueTarget listMints).2 reversed ≤
        chosen.length := by
  obtain ⟨remaining, greedy, exact⟩ :=
    getIdealSpends_greedy nValueTarget listMints
  have fresh : ∀ mint ∈ chosen, mint.isUsed = false := by
    intro mint mem
    have unused := (List.mem_filter.mp (part.subset mem)).2
    rwa [Bool.not_eq_true'] at unused
  obtain ⟨amount, fewer⟩ := amountOf_eq_total fresh
  obtain ⟨none, fewest⟩ := greedy.exact descends_reversed
    (fun denom _ => available_le_of_subperm part denom)
    (amount.symm.trans meets)
  exact ⟨exact.mpr none, fewest.trans fewer⟩

theorem getIdealSpends_held {nValueTarget : Int64}
    {listMints : List CMintMeta} :
    ∀ coin ∈ reversed, (getIdealSpends nValueTarget listMints).2 coin ≤
      available listMints coin := by
  obtain ⟨remaining, greedy, -⟩ :=
    getIdealSpends_greedy nValueTarget listMints
  exact greedy.le_held

theorem getIdealSpends_total {nValueTarget : Int64}
    {listMints : List CMintMeta}
    (ideal : (getIdealSpends nValueTarget listMints).1 = true) :
    total (getIdealSpends nValueTarget listMints).2 = nValueTarget.toInt := by
  obtain ⟨remaining, greedy, exact⟩ :=
    getIdealSpends_greedy nValueTarget listMints
  have rest : remaining = nValueTarget.toInt -
      total (getIdealSpends nValueTarget listMints).2 := greedy.remaining_eq
  rw [exact.mp ideal] at rest
  omega

/-- The cast of the limit keeps what is within it. -/
theorem le_limit_of_le {length : Nat} {nMaxNumberOfSpends : Int32}
    (within : (length : Int) ≤ nMaxNumberOfSpends.toInt) :
    length ≤ nMaxNumberOfSpends.toInt64.toUInt64.toNat := by
  have nonneg : 0 ≤ nMaxNumberOfSpends.toInt64 := by
    rw [Int64.le_iff_toInt_le, Int32.toInt_toInt64]
    exact (Int.natCast_nonneg length).trans within
  rw [Int64.toNat_toUInt64_of_le nonneg, Int64.toNatClampNeg,
    Int32.toInt_toInt64]
  omega

/-! ## Sound selections -/

/-- Mints that were found for coins that are held. -/
theorem Selected.sound_of_spends {nValueTarget nSpentValue : Int64}
    {listMints : List CMintMeta} {used : DenomMap} {nCoinsReturned : Int32}
    {nNeededSpends : Int32}
    (enough : ∀ coin ∈ reversed, used coin ≤ available listMints coin)
    (spent : nSpentValue.toInt = total used)
    (meets : nValueTarget.toInt ≤ total used)
    (returned : nCoinsReturned.toInt =
      changeSize value reversed (total used - nValueTarget.toInt)) :
    Selected.Sound nValueTarget listMints
      ⟨mintsFor listMints used reversed, nSpentValue, nCoinsReturned,
        nNeededSpends⟩ := by
  have amount : amountOf (mintsFor listMints used reversed) = total used :=
    amountOf_mintsFor enough
  have part : (mintsFor listMints used reversed).Subperm
      (unusedMints listMints) :=
    mintsFor_subperm listMints used descends_reversed.nodup
  constructor
  · exact part
  · intro nodup
    obtain ⟨ordered, perm, sublist⟩ := part
    exact perm.nodup_iff.mp ((nodup.filter _).sublist sublist)
  · exact spent.trans amount.symm
  · exact meets.trans_eq amount.symm
  · rw [amount]
    exact returned

theorem selectWithChange_sound {nValueTarget : Int64}
    (positive : 0 < nValueTarget.toInt)
    (round : nValueTarget.toInt ≤ roundAmount) (nSelectedValue : Int64)
    (nMaxNumberOfSpends : Int32) (fMinimizeChange : Bool)
    {listMints : List CMintMeta} {held : DenomMap}
    (heldEq : ∀ coin ∈ zerocoinDenomList,
      held coin = available listMints coin) (nNeededSpends : Int32) :
    Halts (selectWithChange nValueTarget nSelectedValue nMaxNumberOfSpends
      fMinimizeChange listMints held nNeededSpends) fun s =>
        s.vSelectedMints ≠ [] → s.Sound nValueTarget listMints := by
  refine (calculateChange_settled nMaxNumberOfSpends fMinimizeChange positive
    round held).bind fun change settled => ?_
  have enough : ∀ coin ∈ reversed,
      change.2 coin ≤ available listMints coin := fun coin mem =>
    (settled.within coin mem).trans_eq (heldEq coin (mem_reversed.mp mem))
  apply Halts.ite
  · intro _
    exact .pure fun some => absurd rfl some
  · intro returns
    refine (getSpends_halts enough).bind fun s spends => .pure ?_
    obtain ⟨selected, spent⟩ := spends
    rw [selected, spent]
    intro some
    obtain none | ⟨fits, low, count⟩ := settled.settled
    · have length := length_mintsFor enough
      have empty : size change.2 reversed = 0 :=
        (size_congr none).trans (by decide)
      rw [empty, List.length_eq_zero_iff] at length
      exact absurd length some
    · have nonneg := total_nonneg change.2
      have excess : 0 < total change.2 - nValueTarget.toInt := by
        by_contra! nonpos
        rw [count, changeSize_of_nonpos descends_reversed.positive
          nonpos] at returns
        exact returns rfl
      have bounded : (changeSize value reversed
          (total change.2 - nValueTarget.toInt) : Int) * 100000000 ≤
            total change.2 - nValueTarget.toInt :=
        changeSize_mul_le (by decide) (by decide) excess.le
      have small : total change.2 ≤ nValueTarget.toInt + 500000000000 := low
      refine Selected.sound_of_spends enough
        (Int64.toInt_ofInt_of_le (by omega) fits) (by omega) ?_
      rw [count]
      exact Int32.toInt_ofNat_of_lt (by omega)

/-- Up to the round amount every selection is exact. -/
theorem selectsExactly_of_le {nValueTarget : Int64}
    (positive : 0 < nValueTarget.toInt)
    (round : nValueTarget.toInt ≤ roundAmount) :
    SelectsExactly nValueTarget := by
  intro nSelectedValue nMaxNumberOfSpends fMinimizeChange listMints held heldEq
  have best := @getIdealSpends_best nValueTarget listMints
  have enough := @getIdealSpends_held nValueTarget listMints
  rw [selectMintsFromList]
  apply Halts.ite
  · intro ideal
    have amount := getIdealSpends_total ideal
    refine (getSpends_halts enough).bind fun s spends => ?_
    obtain ⟨selected, spent⟩ := spends
    have length : s.vSelectedMints.length =
        size (getIdealSpends nValueTarget listMints).2 reversed := by
      rw [selected, length_mintsFor enough]
    apply Halts.ite
    · intro _
      refine .pure ⟨fun _ => ?_, fun chosen part meets within => ?_⟩
      · rw [selected]
        refine Selected.sound_of_spends enough ?_ amount.ge ?_
        · rw [spent, amount, Int64.ofInt_toInt]
        · rw [amount, sub_self,
            changeSize_of_nonpos descends_reversed.positive le_rfl]
          rfl
      · have fewest := (best part meets).2
        rw [← length] at fewest
        refine ⟨?_, (Int.ofNat_le.mpr fewest).trans within⟩
        rw [selected, amountOf_mintsFor enough]
        exact amount
    · intro tooMany
      refine (selectWithChange_sound positive round _ _ _ heldEq _).mono
        fun s sound => ⟨sound, fun chosen part meets within => ?_⟩
      have fewest := (best part meets).2
      rw [← length] at fewest
      exact absurd (le_limit_of_le ((Int.ofNat_le.mpr fewest).trans within))
        tooMany
  · intro notIdeal
    exact (selectWithChange_sound positive round _ _ _ heldEq _).mono
      fun s sound => ⟨sound, fun chosen part meets _ =>
        absurd (best part meets).1 notIdeal⟩

/-! ## Totals that wrap -/

/-- Enough mints of the highest denomination to pass every amount. -/
def heavyMints : List CMintMeta :=
  (List.range 18446745).map fun serial =>
    ⟨.ofNat 256 serial, .fiveThousand, false⟩

/-- Only coins of the highest denomination are held, and one more than make up
the round amount. -/
structure Heavy (held : DenomMap) : Prop where
  some : held .fiveThousand = 18446745
  none : ∀ coin ≠ .fiveThousand, held coin = 0

theorem heavy_available : Heavy (available heavyMints) where
  some := by
    rw [available, heavyMints, List.countP_map, List.countP_eq_length.mpr,
      List.length_range]
    exact fun _ _ => rfl
  none := by
    intro coin different
    rw [available, heavyMints, List.countP_map]
    apply List.countP_eq_zero.mpr
    intro serial _ unused
    exact different (isUnused_iff.mp unused).2

theorem reversed_eq : reversed = .fiveThousand :: reversed.tail := by
  decide

/-- The difference of the wrapped total and the target has not wrapped. -/
theorem wrapped_excess {nValueTarget : Int64}
    (wraps : roundAmount < nValueTarget.toInt) :
    (Int64.ofInt 9223372500000000000 - nValueTarget).toInt =
      9223372500000000000 - nValueTarget.toInt := by
  have large : 9223372000000000000 < nValueTarget.toInt := wraps
  have small := nValueTarget.toInt_lt
  have excess : Int64.ofInt 9223372500000000000 - nValueTarget =
      .ofInt (9223372500000000000 - nValueTarget.toInt) := by
    rw [Int64.ofInt_sub, Int64.ofInt_toInt]
  rw [excess]
  exact Int64.toInt_ofInt_of_le (by omega) (by omega)

/-- That difference is at least a coin, so that change is returned. -/
theorem wrapped_change_ne_zero {nValueTarget : Int64}
    (wraps : roundAmount < nValueTarget.toInt) :
    Int32.ofNat (changeSize value reversed
      (9223372500000000000 - nValueTarget.toInt)) ≠ 0 := by
  have large : 9223372000000000000 < nValueTarget.toInt := wraps
  have small := nValueTarget.toInt_lt
  have some : 0 < changeSize value reversed
      (9223372500000000000 - nValueTarget.toInt) := by
    have one : value .one = 100000000 := by decide
    have mem : CoinDenomination.one ∈ reversed := by decide
    exact changeSize_pos mem descends_reversed.positive (by omega)
  have bounded : (changeSize value reversed
      (9223372500000000000 - nValueTarget.toInt) : Int) * 100000000 ≤
        9223372500000000000 - nValueTarget.toInt :=
    changeSize_mul_le (by decide) (by decide) (by omega)
  intro zero
  have equal := congrArg Int32.toInt zero
  rw [Int32.toInt_ofNat_of_lt (by omega)] at equal
  change (_ : Int) = 0 at equal
  omega

section

variable {held : DenomMap} (heavy : Heavy held)

include heavy

theorem Heavy.total_eq {used : DenomMap} (within : Within held used) :
    total used = used .fiveThousand * 500000000000 ∧
      used .fiveThousand ≤ 18446745 := by
  have bounded := within .fiveThousand (by decide)
  rw [heavy.some] at bounded
  refine ⟨?_, bounded⟩
  have same : ∀ coin ∈ reversed, used coin =
      Function.update (fun _ => 0) CoinDenomination.fiveThousand
        (used .fiveThousand) coin := by
    intro coin mem
    by_cases highest : coin = .fiveThousand
    · subst highest
      rw [Function.update_self]
    · have nothing := within coin mem
      rw [heavy.none coin highest] at nothing
      rw [Function.update_of_ne highest]
      exact Nat.le_zero.mp nothing
  have one : value .fiveThousand = 500000000000 := by decide
  have only : total used = total (Function.update (fun _ => 0)
      CoinDenomination.fiveThousand (used .fiveThousand)) := worth_congr same
  rw [only, total_update (by decide), total_zero, zero_add, one,
    Int.natCast_zero, sub_zero]

theorem Heavy.getMaxDenomHeld_eq : getMaxDenomHeld held = .fiveThousand := by
  rw [getMaxDenomHeld, reversed_eq, List.find?_cons_of_pos]
  · rfl
  · rw [heavy.some]
    decide

variable {nValueTarget : Int64} (wraps : roundAmount < nValueTarget.toInt)

include wraps

theorem Heavy.met_total {s : Taken}
    (met : Met held nValueTarget.toInt [] s) :
    total s.mapUsed = 9223372500000000000 := by
  have large : 9223372000000000000 < nValueTarget.toInt := wraps
  obtain ⟨amount, bounded⟩ := heavy.total_eq met.within
  have remaining := met.remaining
  obtain paid | full := met.full
  · omega
  · have all := full .fiveThousand (by decide) List.not_mem_nil
    rw [heavy.some] at all
    omega

/-- One coin less is below the target, and the last one is filled in. -/
theorem Heavy.filled_total {below : Taken}
    (undercut : Undercut held .fiveThousand nValueTarget.toInt [] below) :
    total (fillUp held zerocoinDenomList below).mapUsed =
      9223372500000000000 := by
  have large : 9223372000000000000 < nValueTarget.toInt := wraps
  have small := nValueTarget.toInt_lt
  have one : value .fiveThousand = 500000000000 := by decide
  obtain ⟨amount, bounded⟩ := heavy.total_eq undercut.within
  have remaining := undercut.remaining
  have nonneg := undercut.nonneg
  have almost : below.mapUsed .fiveThousand = 18446744 := by
    have stuck := undercut.stuck .fiveThousand (by decide) List.not_mem_nil
      (by decide)
    rw [Taken.Stuck, heavy.some, one] at stuck
    omega
  obtain ⟨filled, passed | stuck⟩ := fillUp_filled undercut.toSound nonneg
    fun _ => mem_reversed.mpr
  · obtain ⟨amount', bounded'⟩ := heavy.total_eq filled.within
    have remaining' := filled.remaining
    omega
  · have last := stuck .fiveThousand (by decide)
    rw [heavy.some, one] at last
    omega

/-- The alternative returns as much change. -/
theorem Heavy.alternative_change {filled cancelled : Overlap}
    {used change : DenomMap}
    (found : Alternative held .fiveThousand nValueTarget filled cancelled
      used change) :
    size change reversed = changeSize value reversed
      (9223372500000000000 - nValueTarget.toInt) := by
  have large : 9223372000000000000 < nValueTarget.toInt := wraps
  obtain ⟨below, undercut, fills⟩ := found.below
  have listed : ∀ coin ∈ zerocoinDenomList, coin ∈ reversed :=
    fun _ => mem_reversed.mpr
  obtain ⟨sound, -⟩ :=
    fillUp_filled undercut.toSound undercut.nonneg listed
  have amount : filled.used.amountUsed = .ofInt 9223372500000000000 := by
    rw [fills, sound.used, heavy.filled_total wraps undercut]
  -- No coin of the highest denomination comes back, and no other is used.
  have noneBack : filled.mapAltChange .fiveThousand = 0 := by
    obtain ⟨plenty, remaining, greedy⟩ := found.coinsBack
    rw [amount, wrapped_excess wraps, reversed_eq] at greedy
    have one : value .fiveThousand = 500000000000 := by decide
    cases greedy with
    | cons available fits most rest =>
        rw [one] at fits
        omega
  have noOverlap : ∀ coin ∈ reversed, filled.both coin = false := by
    intro coin mem
    rw [← Bool.not_eq_true, Overlap.both_iff, not_and_or, not_not, not_not]
    by_cases highest : coin = .fiveThousand
    · exact .inl (highest ▸ noneBack)
    · have nothing := sound.within coin mem
      rw [heavy.none coin highest, ← fills] at nothing
      exact .inr (Nat.le_zero.mp nothing)
  rw [found.left, found.same noOverlap, amount, wrapped_excess wraps]

/-- The total of the coins is not an amount, but the change is returned. -/
theorem Heavy.calculateChange_halts (nMaxNumberOfSpends : Int32)
    (fMinimizeChange : Bool) :
    Halts (calculateChange nMaxNumberOfSpends fMinimizeChange nValueTarget
      held) fun change => Within held change.2 ∧
        total change.2 = 9223372500000000000 ∧ change.1 ≠ 0 := by
  have large : 9223372000000000000 < nValueTarget.toInt := wraps
  have small := nValueTarget.toInt_lt
  have positive : 0 < nValueTarget.toInt := by omega
  rw [calculateChange]
  cases found : minDenomOverTarget nValueTarget held with
  | some minDenom =>
      obtain ⟨-, larger, -⟩ := minDenomOverTarget_some found
      have low : value minDenom ≤ 500000000000 := value_le_highest minDenom
      omega
  | none =>
      refine (meetTarget_halts descends_reversed (.start held positive)
        (fun _ _ => rfl)).bind fun s met => ?_
      have amount := heavy.met_total wraps met
      refine (getChange_halts _).bind fun change post => ?_
      have count : getNumberOfCoinsUsed change = .ofNat (changeSize value
          reversed (9223372500000000000 - nValueTarget.toInt)) := by
        rw [getNumberOfCoinsUsed_eq, post.1, met.used, amount,
          wrapped_excess wraps]
      rw [heavy.getMaxDenomHeld_eq]
      have kept : Within held s.mapUsed ∧
          total s.mapUsed = 9223372500000000000 ∧
          getNumberOfCoinsUsed change ≠ 0 :=
        ⟨met.within, amount, count ▸ wrapped_change_ne_zero wraps⟩
      refine (minimizeChange_halts _ _ _ positive held _).bind
        fun other post => ?_
      apply Halts.ite
      · exact fun _ => .pure kept
      · intro _
        obtain ⟨_, _, _, _, alternative, same | ⟨less, -⟩⟩ := post
        · exact .pure (same ▸ kept)
        · have equal := heavy.alternative_change wraps alternative
          rw [getNumberOfCoinsUsed_eq, equal, ← count] at less
          exact absurd less Int32.lt_irrefl

end

/-- Beyond the round amount the value that is returned may have wrapped. -/
theorem heavyMints_selection {nValueTarget : Int64}
    (wraps : roundAmount < nValueTarget.toInt) (nSelectedValue : Int64)
    (nMaxNumberOfSpends : Int32) (fMinimizeChange : Bool) :
    Halts (selectMintsFromList nValueTarget nSelectedValue nMaxNumberOfSpends
      fMinimizeChange heavyMints (available heavyMints)) fun s =>
        amountOf s.vSelectedMints = 9223372500000000000 ∧
        s.nSelectedValue = .ofInt 9223372500000000000 := by
  have heavy := heavy_available
  have large : 9223372000000000000 < nValueTarget.toInt := wraps
  have small := nValueTarget.toInt_lt
  have notIdeal : ¬(getIdealSpends nValueTarget heavyMints).1 = true := by
    intro ideal
    have amount := getIdealSpends_total ideal
    have within : Within (available heavyMints)
        (getIdealSpends nValueTarget heavyMints).2 := getIdealSpends_held
    have multiple := heavy.total_eq within
    omega
  rw [selectMintsFromList]
  refine .ite (fun ideal => absurd ideal notIdeal) fun _ => ?_
  refine (heavy.calculateChange_halts wraps _ _).bind fun change post => ?_
  obtain ⟨within, amount, returns⟩ := post
  refine .ite (fun none => absurd none returns) fun _ => ?_
  refine (getSpends_halts within).bind fun s spends => .pure ?_
  rw [spends.1, spends.2, amountOf_mintsFor within]
  exact ⟨amount, congrArg Int64.ofInt amount⟩

theorem not_selectsExactly_of_gt {nValueTarget : Int64}
    (wraps : roundAmount < nValueTarget.toInt) :
    ¬SelectsExactly nValueTarget := by
  intro exact
  obtain ⟨s, ⟨sound, -⟩, amount, selected⟩ :=
    ((exact 0 0 false heavyMints (available heavyMints) fun _ _ => rfl).and
      (heavyMints_selection wraps 0 0 false)).exists
  have some : s.vSelectedMints ≠ [] := by
    intro none
    rw [none] at amount
    exact absurd amount (by decide)
  have value := (sound some).selectedValue
  have small := s.nSelectedValue.toInt_lt
  omega

/-- Selections are exact about value for a target if and only if it is at most
the largest amount of whole coins of the highest denomination. -/
theorem selectsExactly_iff {nValueTarget : Int64}
    (positive : 0 < nValueTarget) :
    SelectsExactly nValueTarget ↔ nValueTarget ≤ 9223372000000000000 := by
  rw [Int64.le_iff_toInt_le]
  constructor
  · intro exact
    by_contra! wraps
    exact not_selectsExactly_of_gt wraps exact
  · intro round
    exact selectsExactly_of_le (Int64.lt_iff_toInt_lt.mp positive) round

theorem selectsExactly_iff_oneCoin :
    (0 : Int64) < 100000000 ∧
      (SelectsExactly 100000000 ↔
        (100000000 : Int64) ≤ 9223372000000000000) :=
  ⟨by decide, selectsExactly_iff (by decide)⟩

/-- A spend of 26 with one coin of five and four of ten takes three of ten. -/
example :
    let listMints := [⟨1, .five, false⟩, ⟨2, .ten, false⟩, ⟨3, .ten, false⟩,
      ⟨4, .ten, false⟩, ⟨5, .ten, false⟩]
    ((selectMintsFromList 2600000000 0 7 true listMints
      (available listMints)).run 9).map
        (fun s => (s.vSelectedMints.map CMintMeta.hashSerial,
          s.nSelectedValue, s.nCoinsReturned)) =
      some ([2, 3, 4], 3000000000, 4) := by
  decide +kernel

/-- Mints of more than any amount are selected, and their value wraps. -/
theorem selectMintsFromList_overflow :
    ¬SelectsExactly 9223372036800000000 ∧
      Halts (selectMintsFromList 9223372036800000000 0 7 false heavyMints
        (available heavyMints)) fun s =>
          amountOf s.vSelectedMints = 9223372500000000000 ∧
          s.nSelectedValue = -9223371573709551616 := by
  have wraps : roundAmount < (9223372036800000000 : Int64).toInt := by decide
  refine ⟨not_selectsExactly_of_gt wraps, ?_⟩
  refine (heavyMints_selection wraps 0 7 false).mono fun s post => ?_
  obtain ⟨amount, selected⟩ := post
  refine ⟨amount, selected.trans ?_⟩
  decide

end PrivateDatagram.Wallet.MintSelection
