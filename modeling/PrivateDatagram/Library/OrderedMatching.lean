import Mathlib.Data.Fin.Pigeonhole
import Mathlib.Data.List.NodupEquivFin

/-!
# Ordered matchings

The items of one list are assigned to distinct slots of another, in order.
Giving each item the first slot that accepts it, and never going back on that,
misses no matching.
-/

namespace PrivateDatagram.Library.OrderedMatching

open List

variable {α β : Type}

/-- Every item can be assigned to a slot that accepts it, in order. -/
def Matches (accepts : α → β → Bool) (items : List α) (slots : List β) :
    Prop :=
  ∃ assign : Fin items.length → Fin slots.length,
    StrictMono assign ∧
      ∀ item, accepts (items.get item) (slots.get (assign item)) = true

/-- Assign every item to the first slot left that accepts it. -/
def greedy (accepts : α → β → Bool) : List α → List β → Bool
  | [], _ => true
  | _ :: _, [] => false
  | item :: items, slot :: slots =>
      if accepts item slot then greedy accepts items slots
      else greedy accepts (item :: items) slots

variable {accepts : α → β → Bool} {items : List α} {slots : List β}

/-! ## Matchings as lists -/

theorem matches_iff_sublistForall₂ :
    Matches accepts items slots ↔
      SublistForall₂ (fun item slot => accepts item slot = true)
        items slots := by
  rw [sublistForall₂_iff]
  constructor
  · rintro ⟨assign, mono, accepted⟩
    refine ⟨ofFn fun item => slots.get (assign item), ?_, ?_⟩
    · rw [forall₂_iff_get]
      refine ⟨(length_ofFn).symm, fun index bound bound' => ?_⟩
      simpa using accepted ⟨index, bound⟩
    · rw [sublist_iff_exists_fin_orderEmbedding_get_eq]
      let cast := Fin.castOrderIso
        (length_ofFn (f := fun item => slots.get (assign item)))
      refine ⟨cast.toOrderEmbedding.trans
        (OrderEmbedding.ofStrictMono assign mono), fun index => ?_⟩
      rw [get_eq_getElem, List.getElem_ofFn]
      rfl
  · rintro ⟨assigned, accepted, sublist⟩
    rw [sublist_iff_exists_fin_orderEmbedding_get_eq] at sublist
    obtain ⟨embedding, same⟩ := sublist
    rw [forall₂_iff_get] at accepted
    obtain ⟨length, accepted⟩ := accepted
    refine ⟨fun item => embedding (Fin.cast length item),
      fun first second less => ?_, fun item => ?_⟩
    · exact embedding.strictMono less
    · rw [← same]
      exact accepted item item.isLt (length ▸ item.isLt)

/-- Reading both lists from the other end changes nothing. -/
theorem matches_reverse :
    Matches accepts items.reverse slots.reverse ↔
      Matches accepts items slots := by
  simp only [matches_iff_sublistForall₂, sublistForall₂_iff]
  constructor
  · rintro ⟨assigned, accepted, sublist⟩
    refine ⟨assigned.reverse, ?_, ?_⟩
    · simpa using rel_reverse accepted
    · simpa using sublist.reverse
  · rintro ⟨assigned, accepted, sublist⟩
    exact ⟨assigned.reverse, rel_reverse accepted, sublist.reverse⟩

/-! ## Nothing is lost by being greedy -/

/-- Without its first item and its first slot, what was matched still is:
whoever had the first slot was the first item. -/
theorem sublistForall₂_tails {R : α → β → Prop} {item : α} {slot : β}
    (matching : SublistForall₂ R (item :: items) (slot :: slots)) :
    SublistForall₂ R items slots := by
  cases matching with
  | cons _ rest => exact rest
  | cons_right rest =>
      rw [sublistForall₂_iff] at rest ⊢
      obtain ⟨assigned, accepted, sublist⟩ := rest
      cases accepted with
      | cons _ later => exact ⟨_, later, sublist_of_cons_sublist sublist⟩

theorem greedy_iff_matches (accepts : α → β → Bool) (items : List α)
    (slots : List β) :
    greedy accepts items slots = true ↔ Matches accepts items slots := by
  rw [matches_iff_sublistForall₂]
  induction items, slots using greedy.induct accepts with
  | case1 slots =>
      exact iff_of_true (by rw [greedy]) .nil
  | case2 item items =>
      rw [greedy]
      refine iff_of_false Bool.false_ne_true fun matching => ?_
      cases matching
  | case3 item items slot slots accepted ih =>
      rw [greedy, if_pos accepted, ih]
      exact ⟨.cons accepted, sublistForall₂_tails⟩
  | case4 item items slot slots refused ih =>
      rw [greedy, if_neg refused, ih]
      constructor
      · exact .cons_right
      · intro matching
        cases matching with
        | cons accepted _ => exact absurd accepted refused
        | cons_right rest => exact rest

/-- More items than slots cannot be matched. -/
theorem greedy_of_length_lt (accepts : α → β → Bool)
    (short : slots.length < items.length) :
    greedy accepts items slots = false := by
  rw [Bool.eq_false_iff, ne_eq, greedy_iff_matches]
  rintro ⟨assign, mono, _⟩
  have fits := Fin.le_of_injective assign mono.injective
  omega

end PrivateDatagram.Library.OrderedMatching
