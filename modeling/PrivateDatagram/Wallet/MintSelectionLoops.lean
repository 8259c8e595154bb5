import PrivateDatagram.Library.ChangeMaking
import PrivateDatagram.Wallet.MintSelection

/-!
# The loops of mint selection

What each loop of the selection returns: it always halts, takes coins of one
denomination, and stops only when no more may be taken.
-/

namespace PrivateDatagram.Wallet.MintSelection

open Library.ChangeMaking Library.FueledLoops
open Consensus.ProofOfStake (CoinDenomination)

/-! ## Denominations -/

def value (denom : CoinDenomination) : Int :=
  (toAmount denom).toInt

/-- One coin of the highest denomination. -/
def highest : Int := 500000000000

/-- The denominations form a chain of divisors. -/
theorem descends_reversed : Descends value reversed where
  nodup := by decide
  positive := by decide
  divides := by decide

theorem value_nonneg (denom : CoinDenomination) : 0 ≤ value denom := by
  cases denom <;> decide

theorem value_dvd_highest {denom : CoinDenomination} :
    denom ∈ reversed → value denom ∣ highest := by
  cases denom <;> decide

theorem value_le_highest (denom : CoinDenomination) :
    value denom ≤ highest := by
  cases denom <;> decide

theorem mem_reversed {denom : CoinDenomination} :
    denom ∈ reversed ↔ denom ∈ zerocoinDenomList :=
  List.mem_reverse

theorem value_pos {denom : CoinDenomination} (mem : denom ∈ reversed) :
    0 < value denom :=
  descends_reversed.positive denom mem

/-- What the coins are worth, without wrapping. -/
def total (counts : DenomMap) : Int :=
  worth value counts reversed

theorem total_nonneg (counts : DenomMap) : 0 ≤ total counts :=
  worth_nonneg descends_reversed

theorem total_zero : total (fun _ => 0) = 0 := by
  decide

theorem total_update {counts : DenomMap} {denom : CoinDenomination}
    (mem : denom ∈ reversed) (count : Nat) :
    total (Function.update counts denom count) =
      total counts + ((count : Int) - counts denom) * value denom :=
  worth_update descends_reversed.nodup mem count

/-- One coin more. -/
theorem total_succ {denom : CoinDenomination} (mem : denom ∈ reversed)
    (counts : DenomMap) :
    total (Function.update counts denom (counts denom + 1)) =
      total counts + value denom := by
  rw [total_update mem, Int.natCast_add, add_sub_cancel_left,
    Int.natCast_one, Int.one_mul]

theorem getNumberOfCoinsUsed_eq (counts : DenomMap) :
    getNumberOfCoinsUsed counts = .ofNat (size counts reversed) := by
  have folded : ∀ (denoms : List CoinDenomination) (start : Nat),
      denoms.foldl
        (fun nChangeCount denom => nChangeCount + .ofNat (counts denom))
        (Int32.ofNat start) = .ofNat (start + size counts denoms) := by
    intro denoms
    induction denoms with
    | nil => exact fun start => rfl
    | cons denom denoms hypothesis =>
        intro start
        rw [List.foldl_cons, ← Int32.ofNat_add, hypothesis, size_cons,
          Nat.add_assoc]
  rw [reversed, size_reverse]
  exact (folded zerocoinDenomList 0).trans (by rw [Nat.zero_add])

/-! ## Taking a coin -/

theorem Taken.take_mapUsed (coin : CoinDenomination) (s : Taken) :
    (s.take coin).mapUsed =
      Function.update s.mapUsed coin (s.mapUsed coin + 1) :=
  rfl

theorem Taken.take_mapUsed_self (coin : CoinDenomination) (s : Taken) :
    (s.take coin).mapUsed coin = s.mapUsed coin + 1 :=
  Function.update_self ..

theorem Taken.take_mapUsed_of_ne {coin other : CoinDenomination}
    (different : other ≠ coin) (s : Taken) :
    (s.take coin).mapUsed other = s.mapUsed other :=
  Function.update_of_ne different ..

theorem Taken.mapUsed_le_take (coin other : CoinDenomination) (s : Taken) :
    s.mapUsed other ≤ (s.take coin).mapUsed other := by
  by_cases same : other = coin
  · rw [same, take_mapUsed_self]
    exact Nat.le_succ _
  · rw [take_mapUsed_of_ne same]

theorem Taken.toInt_take_remaining (coin : CoinDenomination) {s : Taken}
    (nonneg : 0 ≤ s.nRemainingValue.toInt) :
    (s.take coin).nRemainingValue.toInt =
      s.nRemainingValue.toInt - value coin := by
  have high := s.nRemainingValue.toInt_lt
  have low := value_nonneg coin
  have small : value coin ≤ 500000000000 := value_le_highest coin
  rw [Taken.take, Int64.toInt_sub]
  exact Int.bmod_eq_of_le (by rw [value] at small; omega)
    (by rw [value] at low; omega)

/-- What is left and what is used make up the target; the amount that is used
may have wrapped. -/
structure Taken.Balanced (target : Int) (s : Taken) : Prop where
  remaining : s.nRemainingValue.toInt = target - total s.mapUsed
  used : s.amountUsed = .ofInt (total s.mapUsed)

theorem Taken.balanced_start (nValueTarget : Int64) :
    (Taken.start nValueTarget).Balanced nValueTarget.toInt where
  remaining := by
    rw [Taken.start, total_zero, sub_zero]
  used := by
    rw [Taken.start, total_zero]
    rfl

theorem Taken.total_take {coin : CoinDenomination} (mem : coin ∈ reversed)
    (s : Taken) :
    total (s.take coin).mapUsed = total s.mapUsed + value coin :=
  total_succ mem s.mapUsed

theorem Taken.Balanced.take {target : Int} {s : Taken}
    (balanced : s.Balanced target) {coin : CoinDenomination}
    (mem : coin ∈ reversed) (nonneg : 0 ≤ s.nRemainingValue.toInt) :
    (s.take coin).Balanced target := by
  have added := total_take mem s
  constructor
  · rw [toInt_take_remaining coin nonneg, added, balanced.remaining]
    exact sub_sub _ _ _
  · rw [added, Int64.ofInt_add, ← balanced.used, value, Int64.ofInt_toInt]
    rfl

/-! ## Taking several coins -/

/-- A loop that takes coins keeps an invariant that taking one keeps, at the
start or in a later round. -/
theorem takeWhile_halts {coin : CoinDenomination} {first again : Taken → Bool}
    {start : Taken} (invariant : Taken → Prop) (variant : Taken → Nat)
    (goesOn : ∀ s, again s = true → first s = true)
    (kept : ∀ s, invariant s → first s = true → s = start ∨ again s = true →
      invariant (s.take coin))
    (less : ∀ s, invariant s → first s = true →
      again (s.take coin) = true → variant (s.take coin) < variant s)
    (holds : invariant start) :
    Halts (takeWhile coin first again start) fun s =>
      invariant s ∧ again s = false := by
  have body : ∀ s, invariant s ∧ (s = start ∨ again s = true) →
      invariant (if first s = true then s.take coin else s) := by
    rintro s ⟨current, round⟩
    split_ifs with takes
    · exact kept s current takes round
    · exact current
  refine doWhile_halts variant (fun s current ends => ⟨body s current, ends⟩)
    (fun s current goes => ⟨⟨body s current, .inr goes⟩, ?_⟩)
    ⟨holds, .inl rfl⟩
  by_cases takes : first s = true
  · rw [if_pos takes] at goes ⊢
    exact less s current.1 takes goes
  · rw [if_neg takes] at goes
    exact absurd (goesOn s goes) takes

/-- As many coins as fit are taken, or as many as are allowed. -/
structure TakesMost (coin : CoinDenomination) (allowed : Nat → Bool)
    (start s : Taken) (count : Nat) : Prop where
  mapUsed : s.mapUsed = Function.update start.mapUsed coin
    (start.mapUsed coin + count)
  remaining : s.nRemainingValue.toInt =
    start.nRemainingValue.toInt - count * value coin
  fits : count * value coin ≤ start.nRemainingValue.toInt ∨ count = 0
  allowed : ∀ before < count, allowed (start.mapUsed coin + before) = true

theorem TakesMost.refl (coin : CoinDenomination) (allowed : Nat → Bool)
    (start : Taken) : TakesMost coin allowed start start 0 where
  mapUsed := (Function.update_eq_self coin start.mapUsed).symm
  remaining := by
    rw [Int.natCast_zero, Int.zero_mul, sub_zero]
  fits := .inr rfl
  allowed := fun _ none => absurd none (Nat.not_lt_zero _)

theorem TakesMost.mapUsed_self {coin : CoinDenomination}
    {allowed : Nat → Bool} {start s : Taken} {count : Nat}
    (most : TakesMost coin allowed start s count) :
    s.mapUsed coin = start.mapUsed coin + count := by
  rw [most.mapUsed, Function.update_self]

theorem TakesMost.take {coin : CoinDenomination} {allowed : Nat → Bool}
    {start s : Taken} {count : Nat}
    (most : TakesMost coin allowed start s count)
    (large : value coin ≤ s.nRemainingValue.toInt)
    (may : allowed (s.mapUsed coin) = true) :
    TakesMost coin allowed start (s.take coin) (count + 1) := by
  have one : ((count + 1 : Nat) : Int) * value coin =
      count * value coin + value coin := by
    rw [Int.natCast_add, Int.add_mul, Int.natCast_one, Int.one_mul]
  have remaining := most.remaining
  constructor
  · rw [Taken.take_mapUsed, most.mapUsed_self, most.mapUsed,
      Function.update_idem, Nat.add_assoc]
  · rw [Taken.toInt_take_remaining coin ((value_nonneg coin).trans large), one,
      remaining]
    exact sub_sub _ _ _
  · left
    omega
  · intro before less
    obtain earlier | rfl := Nat.lt_succ_iff_lt_or_eq.mp less
    · exact most.allowed before earlier
    · rw [← most.mapUsed_self]
      exact may

theorem takeMost_halts {coin : CoinDenomination} (mem : coin ∈ reversed)
    {allowed : Nat → Bool} {can : Taken → Bool}
    (means : ∀ s, can s =
      (decide (toAmount coin ≤ s.nRemainingValue) &&
        allowed (s.mapUsed coin))) (start : Taken) :
    Halts (takeWhile coin can can start) fun s =>
      ∃ count, TakesMost coin allowed start s count ∧
        (s.nRemainingValue.toInt < value coin ∨
          allowed (s.mapUsed coin) = false) := by
  have able : ∀ s, can s = true ↔
      value coin ≤ s.nRemainingValue.toInt ∧
        allowed (s.mapUsed coin) = true := by
    intro s
    rw [means, Bool.and_eq_true, decide_eq_true_eq, Int64.le_iff_toInt_le,
      value]
  have positive := value_pos mem
  have halts : Halts (takeWhile coin can can start) fun s =>
      (∃ count, TakesMost coin allowed start s count) ∧ can s = false := by
    refine takeWhile_halts
      (fun s => ∃ count, TakesMost coin allowed start s count)
      (fun s => s.nRemainingValue.toInt.toNat)
      (fun s goes => goes) ?_ ?_ ⟨0, .refl coin allowed start⟩
    · rintro s ⟨count, most⟩ takes -
      obtain ⟨large, may⟩ := (able s).mp takes
      exact ⟨count + 1, most.take large may⟩
    · intro s _ takes _
      obtain ⟨large, -⟩ := (able s).mp takes
      rw [Taken.toInt_take_remaining coin (positive.le.trans large)]
      omega
  refine halts.mono fun s post => ?_
  obtain ⟨⟨count, most⟩, stops⟩ := post
  refine ⟨count, most, ?_⟩
  by_contra! more
  rw [Bool.ne_false_iff] at more
  rw [(able s).mpr more] at stops
  exact Bool.noConfusion stops

end PrivateDatagram.Wallet.MintSelection
