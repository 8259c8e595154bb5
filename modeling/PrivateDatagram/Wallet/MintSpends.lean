import PrivateDatagram.Wallet.MintSelectionLoops

/-!
# Spends and change

The passes over the denominations from the highest on take the most of each:
`getSpendCoins` and `getIdealSpends` of the coins held, `getChange` without a
limit.  `getSpends` finds the mints for the coins when there are enough.
-/

namespace PrivateDatagram.Wallet.MintSelection

open Library.ChangeMaking Library.FueledLoops
open Consensus.ProofOfStake (CoinDenomination)

/-! ## Taking the most of each denomination -/

theorem TakesMost.unused {coin : CoinDenomination} {allowed : Nat → Bool}
    {start s : Taken} {count : Nat}
    (most : TakesMost coin allowed start s count)
    {items : List CoinDenomination} (absent : coin ∉ items)
    (unused : ∀ other ∈ items, start.mapUsed other = 0) :
    ∀ other ∈ items, s.mapUsed other = 0 := by
  intro other mem
  rw [most.mapUsed, Function.update_of_ne (ne_of_mem_of_not_mem mem absent)]
  exact unused other mem

/-- One denomination, and then the others. -/
theorem TakesMost.greedy_cons {coin : CoinDenomination}
    {allowed : Nat → Bool} {start s s' : Taken} {count : Nat}
    {held : DenomMap} {items : List CoinDenomination} {remaining : Int}
    (most : TakesMost coin allowed start s count)
    (unused : start.mapUsed coin = 0) (absent : coin ∉ items)
    (available : count ≤ held coin)
    (stops : s.nRemainingValue.toInt < value coin ∨ count = held coin)
    (same : ∀ other ∉ items, s'.mapUsed other = s.mapUsed other)
    (rest : Greedy value held s'.mapUsed items s.nRemainingValue.toInt
      remaining) :
    (∀ other ∉ coin :: items, s'.mapUsed other = start.mapUsed other) ∧
      Greedy value held s'.mapUsed (coin :: items)
        start.nRemainingValue.toInt remaining := by
  constructor
  · intro other out
    rw [List.mem_cons, not_or] at out
    rw [same other out.2, most.mapUsed, Function.update_of_ne out.1]
  · have taken : s'.mapUsed coin = count := by
      rw [same coin absent, most.mapUsed_self, unused, Nat.zero_add]
    rw [most.remaining] at stops rest
    rw [← taken] at available stops rest
    exact .cons available (taken ▸ most.fits) stops rest

theorem takeEach_halts (can : CoinDenomination → Taken → Bool)
    (allowed : CoinDenomination → Nat → Bool) (held : DenomMap)
    (means : ∀ coin s, can coin s =
      (decide (toAmount coin ≤ s.nRemainingValue) &&
        allowed coin (s.mapUsed coin)))
    {bound : Int}
    (caps : ∀ coin ∈ reversed, ∀ count : Nat,
      (count * value coin ≤ bound ∨ count = 0) →
      (∀ before < count, allowed coin before = true) → count ≤ held coin)
    (full : ∀ coin count, allowed coin count = false → held coin ≤ count)
    {items : List CoinDenomination} (nodup : items.Nodup)
    (listed : ∀ coin ∈ items, coin ∈ reversed) (start : Taken)
    (unused : ∀ coin ∈ items, start.mapUsed coin = 0)
    (small : start.nRemainingValue.toInt ≤ bound) :
    Halts (forEach (fun coin => takeWhile coin (can coin) (can coin)) items
      start) fun s =>
        (∀ coin ∉ items, s.mapUsed coin = start.mapUsed coin) ∧
        ∃ remaining, Greedy value held s.mapUsed items
          start.nRemainingValue.toInt remaining := by
  induction items generalizing start with
  | nil => exact .pure ⟨fun _ _ => rfl, _, .nil _⟩
  | cons coin items hypothesis =>
      obtain ⟨absent, nodup⟩ := List.nodup_cons.mp nodup
      rw [List.forall_mem_cons] at listed unused
      refine (takeMost_halts listed.1 (means coin) start).bind fun s post => ?_
      obtain ⟨count, most, stops⟩ := post
      have less : s.nRemainingValue.toInt ≤ start.nRemainingValue.toInt := by
        have nonneg : 0 ≤ (count : Int) * value coin :=
          mul_nonneg (Int.natCast_nonneg _) (value_nonneg coin)
        rw [most.remaining]
        exact sub_le_self _ nonneg
      have rest := hypothesis nodup listed.2 s
        (most.unused absent unused.2) (less.trans small)
      refine rest.mono fun s' post => ?_
      obtain ⟨same, remaining, greedy⟩ := post
      have allowedCount : ∀ before < count, allowed coin before = true := by
        intro before earlier
        have may := most.allowed before earlier
        rwa [unused.1, Nat.zero_add] at may
      have available : count ≤ held coin :=
        caps coin listed.1 count (most.fits.imp_left (·.trans small))
          allowedCount
      have ends : s.nRemainingValue.toInt < value coin ∨
          count = held coin := by
        refine stops.imp_right fun stuck => ?_
        have atLeast := full coin _ stuck
        rw [most.mapUsed_self, unused.1, Nat.zero_add] at atLeast
        exact Nat.le_antisymm available atLeast
      obtain ⟨others, all⟩ :=
        most.greedy_cons unused.1 absent available ends same greedy
      exact ⟨others, remaining, all⟩

theorem getSpendCoins_halts (nValueTarget : Int64) (held : DenomMap) :
    Halts (getSpendCoins nValueTarget held) fun used =>
      ∃ remaining, Greedy value held used reversed nValueTarget.toInt
        remaining := by
  have each := takeEach_halts (canSpend held)
    (fun coin count => decide (count < held coin)) held (fun _ _ => rfl) ?_ ?_
    descends_reversed.nodup (fun _ mem => mem) (.start nValueTarget)
    (fun _ _ => rfl) le_rfl
  · exact each.bind fun s post => .pure post.2
  · intro coin _ count _ below
    by_contra! more
    have last := below (held coin) more
    rw [decide_eq_true_eq] at last
    exact Nat.lt_irrefl _ last
  · intro coin count stuck
    rw [decide_eq_false_iff_not] at stuck
    exact Nat.not_lt.mp stuck

/-- The change has as many coins as its greedy decomposition, and coins bigger
than the amount are not among it. -/
theorem getChange_halts (nValueTarget : Int64) :
    Halts (getChange nValueTarget) fun change =>
      size change reversed =
        changeSize value reversed nValueTarget.toInt ∧
      ∃ plenty remaining, Greedy value plenty change reversed
        nValueTarget.toInt remaining := by
  have large : ∀ coin ∈ reversed,
      nValueTarget.toInt <
        ((nValueTarget.toInt.toNat + 1 : Nat) : Int) * value coin := by
    intro coin mem
    have one : 1 ≤ value coin := value_pos mem
    calc nValueTarget.toInt < (nValueTarget.toInt.toNat + 1 : Nat) := by
          omega
      _ = ((nValueTarget.toInt.toNat + 1 : Nat) : Int) * 1 :=
          (Int.mul_one _).symm
      _ ≤ ((nValueTarget.toInt.toNat + 1 : Nat) : Int) * value coin :=
          mul_le_mul_of_nonneg_left one (Int.natCast_nonneg _)
  have each := takeEach_halts canChange (fun _ _ => true)
    (fun _ => nValueTarget.toInt.toNat + 1)
    (fun _ _ => (Bool.and_true _).symm) ?_ ?_ descends_reversed.nodup
    (fun _ mem => mem) (.start nValueTarget) (fun _ _ => rfl) le_rfl
  · refine each.bind fun s post => .pure ?_
    obtain ⟨-, remaining, greedy⟩ := post
    exact ⟨greedy.size_eq_changeSize descends_reversed.positive large, _,
      remaining, greedy⟩
  · rintro coin mem count (fits | rfl) -
    · by_contra! more
      have above : ((nValueTarget.toInt.toNat + 1 : Nat) : Int) * value coin ≤
          count * value coin :=
        mul_le_mul_of_nonneg_right (by omega) (value_nonneg coin)
      exact absurd (above.trans fits) (large coin mem).not_ge
    · exact Nat.zero_le _
  · intro coin count stuck
    exact Bool.noConfusion stuck

/-! ## The unused mints -/

/-- An unused mint of a denomination. -/
def isUnused (denom : CoinDenomination) (mint : CMintMeta) : Bool :=
  !mint.isUsed && decide (denom = mint.denom)

theorem isUnused_iff {denom : CoinDenomination} {mint : CMintMeta} :
    isUnused denom mint = true ↔
      mint.isUsed = false ∧ denom = mint.denom := by
  rw [isUnused, Bool.and_eq_true, Bool.not_eq_true', decide_eq_true_eq]

/-- The number of unused mints of each denomination. -/
def available (listMints : List CMintMeta) : DenomMap :=
  fun denom => listMints.countP (isUnused denom)

theorem available_cons_of_unused {denom : CoinDenomination}
    {mint : CMintMeta} (mints : List CMintMeta)
    (unused : isUnused denom mint = true) :
    available (mint :: mints) denom = available mints denom + 1 :=
  List.countP_cons_of_pos unused

theorem available_cons_of_not {denom : CoinDenomination}
    {mint : CMintMeta} (mints : List CMintMeta)
    (other : ¬isUnused denom mint = true) :
    available (mint :: mints) denom = available mints denom :=
  List.countP_cons_of_neg other

/-! ## Exact spends -/

theorem idealMints_cons (coin : CoinDenomination) (mint : CMintMeta)
    (mints : List CMintMeta) (s : Taken) :
    idealMints coin (mint :: mints) s =
      if isUnused coin mint = true then
        if value coin ≤ s.nRemainingValue.toInt then
          if (s.take coin).nRemainingValue.toInt < value coin then s.take coin
          else idealMints coin mints (s.take coin)
        else s
      else if mint.isUsed = false ∧ s.nRemainingValue.toInt < value coin then s
      else idealMints coin mints s := by
  have unused := @isUnused_iff coin mint
  simp only [idealMints, value, ge_iff_le, Int64.le_iff_toInt_le,
    Int64.lt_iff_toInt_lt]
  split_ifs <;> grind

/-- The loop over the mints takes the most of a denomination. -/
theorem idealMints_takesMost (coin : CoinDenomination)
    (mints : List CMintMeta) {start s : Taken} {count : Nat}
    (most : TakesMost coin (fun _ => true) start s count) :
    ∃ more, TakesMost coin (fun _ => true) start (idealMints coin mints s)
        (count + more) ∧
      more ≤ available mints coin ∧
      ((idealMints coin mints s).nRemainingValue.toInt < value coin ∨
        more = available mints coin) := by
  induction mints generalizing s count with
  | nil => exact ⟨0, most, Nat.le_refl 0, .inr rfl⟩
  | cons mint mints hypothesis =>
      rw [idealMints_cons]
      by_cases unused : isUnused coin mint = true
      · rw [if_pos unused, available_cons_of_unused mints unused]
        by_cases large : value coin ≤ s.nRemainingValue.toInt
        · rw [if_pos large]
          have taken := most.take large rfl
          split_ifs with small
          · exact ⟨1, taken, Nat.le_add_left 1 _, .inl small⟩
          · obtain ⟨more, again, le, stops⟩ := hypothesis taken
            rw [Nat.add_assoc, Nat.add_comm 1] at again
            exact ⟨more + 1, again, Nat.add_le_add_right le 1,
              stops.imp_right (congrArg (· + 1))⟩
        · rw [if_neg large]
          exact ⟨0, most, Nat.zero_le _, .inl (Int.not_le.mp large)⟩
      · rw [if_neg unused, available_cons_of_not mints unused]
        split_ifs with small
        · exact ⟨0, most, Nat.zero_le _, .inl small.2⟩
        · exact hypothesis most

theorem idealMints_foldl (listMints : List CMintMeta)
    {items : List CoinDenomination} (nodup : items.Nodup) {start : Taken}
    (unused : ∀ coin ∈ items, start.mapUsed coin = 0) {s : Taken}
    (run : items.foldl (fun s coin => idealMints coin listMints s) start = s) :
    (∀ coin ∉ items, s.mapUsed coin = start.mapUsed coin) ∧
      Greedy value (available listMints) s.mapUsed items
        start.nRemainingValue.toInt s.nRemainingValue.toInt := by
  induction items generalizing start with
  | nil =>
      obtain rfl : start = s := run
      exact ⟨fun _ _ => rfl, .nil _⟩
  | cons coin items hypothesis =>
      obtain ⟨absent, nodup⟩ := List.nodup_cons.mp nodup
      rw [List.forall_mem_cons] at unused
      obtain ⟨count, most, le, stops⟩ :=
        idealMints_takesMost coin listMints (.refl coin (fun _ => true) start)
      rw [Nat.zero_add] at most
      obtain ⟨same, greedy⟩ :=
        hypothesis nodup (most.unused absent unused.2) run
      exact most.greedy_cons unused.1 absent le stops same greedy

theorem getIdealSpends_greedy (nValueTarget : Int64)
    (listMints : List CMintMeta) :
    ∃ remaining, Greedy value (available listMints)
        (getIdealSpends nValueTarget listMints).2 reversed
        nValueTarget.toInt remaining ∧
      ((getIdealSpends nValueTarget listMints).1 = true ↔ remaining = 0) := by
  refine ⟨_, (idealMints_foldl listMints descends_reversed.nodup
    (fun _ _ => rfl) rfl).2, ?_⟩
  rw [getIdealSpends, decide_eq_true_eq, ← Int64.toInt_inj]
  rfl

/-! ## Finding the mints -/

/-- The first unused mints of a denomination. -/
def firstMints (listMints : List CMintMeta) (denom : CoinDenomination)
    (count : Nat) : List CMintMeta :=
  (listMints.filter (isUnused denom)).take count

theorem mem_firstMints {listMints : List CMintMeta}
    {denom : CoinDenomination} {count : Nat} {mint : CMintMeta}
    (mem : mint ∈ firstMints listMints denom count) :
    isUnused denom mint = true :=
  (List.mem_filter.mp (List.mem_of_mem_take mem)).2

theorem length_firstMints {listMints : List CMintMeta}
    {denom : CoinDenomination} {count : Nat}
    (enough : count ≤ available listMints denom) :
    (firstMints listMints denom count).length = count := by
  rw [available, List.countP_eq_length_filter] at enough
  rw [firstMints, List.length_take]
  exact Nat.min_eq_left enough

/-- One pass over the mints takes the first ones, as far as they go. -/
theorem pickMints_eq (coin : CoinDenomination) (mints : List CMintMeta)
    (s : Picked) :
    pickMints coin mints s =
      { vSelectedMints := s.vSelectedMints ++
          firstMints mints coin (s.mapOfDenomsUsed coin)
        mapOfDenomsUsed := Function.update s.mapOfDenomsUsed coin
          (s.mapOfDenomsUsed coin - available mints coin)
        nCoinsSpentValue := s.nCoinsSpentValue +
          .ofInt ((min (s.mapOfDenomsUsed coin) (available mints coin) : Nat) *
            value coin) } := by
  induction mints generalizing s with
  | nil =>
      have nothing : s.nCoinsSpentValue + .ofInt 0 = s.nCoinsSpentValue :=
        Int64.add_zero _
      rw [pickMints, firstMints, available, List.countP_nil, Nat.min_zero,
        Int.natCast_zero, Int.zero_mul, Nat.sub_zero,
        Function.update_eq_self, List.filter_nil, List.take_nil,
        List.append_nil, nothing]
  | cons mint mints hypothesis =>
      by_cases unused : isUnused coin mint = true
      · obtain ⟨fresh, same⟩ := isUnused_iff.mp unused
        rw [available_cons_of_unused mints unused, firstMints,
          List.filter_cons_of_pos unused]
        cases count : s.mapOfDenomsUsed coin with
        | zero =>
            rw [pickMints, if_neg (by simp [count]), hypothesis, count,
              firstMints]
            simp
        | succ left =>
            have takes : (!mint.isUsed) = true ∧ coin = mint.denom ∧
                s.mapOfDenomsUsed coin ≠ 0 := by
              rw [fresh, count]
              exact ⟨rfl, same, Nat.succ_ne_zero left⟩
            have one : ((min (left + 1) (available mints coin + 1) : Nat) :
                Int) * value coin = value coin +
                  (min left (available mints coin) : Nat) * value coin := by
              rw [Nat.add_min_add_right, Int.natCast_add, Int.add_mul,
                Int.natCast_one, Int.one_mul, add_comm]
            rw [pickMints, if_pos takes, hypothesis, one, Int64.ofInt_add,
              value, Int64.ofInt_toInt, ← Int64.add_assoc]
            simp only [Function.update_self, Function.update_idem, count,
              Nat.add_sub_cancel, Nat.add_sub_add_right, List.append_assoc,
              List.take_succ_cons, List.singleton_append, firstMints]
      · have skips : ¬((!mint.isUsed) = true ∧ coin = mint.denom ∧
            s.mapOfDenomsUsed coin ≠ 0) := by
          rintro ⟨fresh, same, -⟩
          exact unused (isUnused_iff.mpr ⟨by simpa using fresh, same⟩)
        rw [pickMints, if_neg skips, hypothesis,
          available_cons_of_not mints unused, firstMints, firstMints,
          List.filter_cons_of_neg unused]

/-- The loop for a denomination ends after one pass when there are enough. -/
theorem pickLoop_halts (coin : CoinDenomination) (listMints : List CMintMeta)
    {start : Picked}
    (enough : start.mapOfDenomsUsed coin ≤ available listMints coin) :
    Halts (doWhile (pickMints coin listMints)
      (fun s => s.mapOfDenomsUsed coin ≠ 0) start)
      fun s => s = pickMints coin listMints start := by
  have ends : (pickMints coin listMints start).mapOfDenomsUsed coin = 0 := by
    rw [pickMints_eq]
    exact (Function.update_self ..).trans (Nat.sub_eq_zero_of_le enough)
  have done : ∀ s, start = s →
      decide ((pickMints coin listMints s).mapOfDenomsUsed coin ≠ 0) = false →
      pickMints coin listMints s = pickMints coin listMints start := by
    rintro s rfl _
    rfl
  have round : ∀ s, start = s →
      decide ((pickMints coin listMints s).mapOfDenomsUsed coin ≠ 0) = true →
      start = pickMints coin listMints s ∧ 0 < 0 := by
    rintro s rfl goes
    rw [decide_eq_true_eq] at goes
    exact absurd ends goes
  exact doWhile_halts (fun _ => 0) done round rfl

/-- The mints that are found for the coins. -/
def mintsFor (listMints : List CMintMeta) (used : DenomMap)
    (items : List CoinDenomination) : List CMintMeta :=
  items.flatMap fun denom => firstMints listMints denom (used denom)

theorem pickEach_halts (listMints : List CMintMeta)
    {items : List CoinDenomination} (nodup : items.Nodup) (start : Picked)
    (enough : ∀ coin ∈ items,
      start.mapOfDenomsUsed coin ≤ available listMints coin) :
    Halts (forEach
      (fun coin => doWhile (pickMints coin listMints)
        fun s => s.mapOfDenomsUsed coin ≠ 0) items start) fun s =>
      s.vSelectedMints = start.vSelectedMints ++
        mintsFor listMints start.mapOfDenomsUsed items ∧
      s.nCoinsSpentValue = start.nCoinsSpentValue +
        .ofInt (worth value start.mapOfDenomsUsed items) := by
  induction items generalizing start with
  | nil =>
      exact .pure ⟨(List.append_nil _).symm, (Int64.add_zero _).symm⟩
  | cons coin items hypothesis =>
      obtain ⟨absent, nodup⟩ := List.nodup_cons.mp nodup
      rw [List.forall_mem_cons] at enough
      refine (pickLoop_halts coin listMints enough.1).bind fun s picked => ?_
      have same : ∀ other ∈ items,
          s.mapOfDenomsUsed other = start.mapOfDenomsUsed other := by
        intro other mem
        rw [picked, pickMints_eq]
        exact update_of_notMem absent _ other mem
      have rest := hypothesis nodup s fun other mem =>
        (same other mem).trans_le (enough.2 other mem)
      refine rest.mono fun s' post => ?_
      obtain ⟨selected, spent⟩ := post
      have sameMints : mintsFor listMints s.mapOfDenomsUsed items =
          mintsFor listMints start.mapOfDenomsUsed items := by
        rw [mintsFor, mintsFor]
        apply List.flatMap_congr
        intro other mem
        rw [same other mem]
      rw [selected, spent, sameMints, worth_congr same, picked, pickMints_eq,
        Nat.min_eq_left enough.1, worth_cons, Int64.ofInt_add,
        Int64.add_assoc, List.append_assoc]
      exact ⟨rfl, rfl⟩

theorem getSpends_halts {listMints : List CMintMeta} {used : DenomMap}
    (enough : ∀ coin ∈ reversed, used coin ≤ available listMints coin) :
    Halts (getSpends listMints used) fun s =>
      s.vSelectedMints = mintsFor listMints used reversed ∧
      s.nCoinsSpentValue = .ofInt (total used) := by
  have each := pickEach_halts listMints descends_reversed.nodup
    ⟨[], used, 0⟩ enough
  refine each.mono fun s post => ?_
  rw [List.nil_append, Int64.zero_add] at post
  exact post

/-! ## What was found -/

/-- What mints are worth. -/
def amountOf (mints : List CMintMeta) : Int :=
  (mints.map fun mint => value mint.denom).sum

theorem mem_mintsFor {listMints : List CMintMeta} {used : DenomMap}
    {items : List CoinDenomination} {mint : CMintMeta}
    (mem : mint ∈ mintsFor listMints used items) :
    mint.denom ∈ items ∧ isUnused mint.denom mint = true := by
  rw [mintsFor, List.mem_flatMap] at mem
  obtain ⟨denom, listed, mem⟩ := mem
  have unused := mem_firstMints mem
  obtain ⟨-, rfl⟩ := isUnused_iff.mp unused
  exact ⟨listed, unused⟩

theorem length_mintsFor {listMints : List CMintMeta} {used : DenomMap}
    {items : List CoinDenomination}
    (enough : ∀ coin ∈ items, used coin ≤ available listMints coin) :
    (mintsFor listMints used items).length = size used items := by
  induction items with
  | nil => rfl
  | cons coin items hypothesis =>
      rw [List.forall_mem_cons] at enough
      rw [size_cons, ← hypothesis enough.2, mintsFor, List.flatMap_cons,
        List.length_append, length_firstMints enough.1]
      rfl

theorem amountOf_of_same {mints : List CMintMeta} {amount : Int}
    (same : ∀ mint ∈ mints, value mint.denom = amount) :
    amountOf mints = mints.length * amount := by
  induction mints with
  | nil => exact (Int.zero_mul amount).symm
  | cons mint mints hypothesis =>
      rw [List.forall_mem_cons] at same
      have rest := hypothesis same.2
      rw [amountOf] at rest ⊢
      rw [List.map_cons, List.sum_cons, rest, same.1, List.length_cons,
        Int.natCast_add, Int.add_mul, Int.natCast_one, Int.one_mul, add_comm]

theorem amountOf_mintsFor {listMints : List CMintMeta} {used : DenomMap}
    {items : List CoinDenomination}
    (enough : ∀ coin ∈ items, used coin ≤ available listMints coin) :
    amountOf (mintsFor listMints used items) = worth value used items := by
  induction items with
  | nil => rfl
  | cons coin items hypothesis =>
      rw [List.forall_mem_cons] at enough
      have each : ∀ mint ∈ firstMints listMints coin (used coin),
          value mint.denom = value coin := by
        intro mint mem
        rw [(isUnused_iff.mp (mem_firstMints mem)).2]
      have first : amountOf (firstMints listMints coin (used coin)) =
          used coin * value coin := by
        rw [amountOf_of_same each, length_firstMints enough.1]
      rw [worth_cons, ← hypothesis enough.2, ← first, mintsFor,
        List.flatMap_cons, amountOf, List.map_append, List.sum_append]
      rfl

theorem count_mintsFor_le (listMints : List CMintMeta) (used : DenomMap)
    {items : List CoinDenomination} (nodup : items.Nodup) (mint : CMintMeta) :
    (mintsFor listMints used items).count mint ≤
      (listMints.filter fun mint => !mint.isUsed).count mint := by
  induction items with
  | nil => exact Nat.zero_le _
  | cons coin items hypothesis =>
      obtain ⟨absent, nodup⟩ := List.nodup_cons.mp nodup
      rw [mintsFor, List.flatMap_cons, List.count_append]
      by_cases same : coin = mint.denom
      · have others : mint ∉ mintsFor listMints used items := by
          intro mem
          rw [same] at absent
          exact absent (mem_mintsFor mem).1
        have sublist : (firstMints listMints coin (used coin)).Sublist
            (listMints.filter fun mint => !mint.isUsed) := by
          apply (List.take_sublist _ _).trans
          apply List.monotone_filter_right
          intro mint unused
          rw [(isUnused_iff.mp unused).1]
          rfl
        have none : List.count mint (mintsFor listMints used items) = 0 :=
          List.count_eq_zero.mpr others
        rw [mintsFor] at none
        rw [none, Nat.add_zero]
        exact sublist.count_le mint
      · have first : mint ∉ firstMints listMints coin (used coin) :=
          fun mem => same (isUnused_iff.mp (mem_firstMints mem)).2
        rw [List.count_eq_zero.mpr first, Nat.zero_add]
        exact hypothesis nodup

/-- No mint is found twice, and all of them are unused. -/
theorem mintsFor_subperm (listMints : List CMintMeta) (used : DenomMap)
    {items : List CoinDenomination} (nodup : items.Nodup) :
    (mintsFor listMints used items).Subperm
      (listMints.filter fun mint => !mint.isUsed) :=
  List.subperm_ext_iff.mpr fun mint _ =>
    count_mintsFor_le listMints used nodup mint

end PrivateDatagram.Wallet.MintSelection
