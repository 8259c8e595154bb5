import Mathlib.Data.List.Basic

/-!
# Trees of pairs

A list is hashed in pairs until one value is left.  A last value without a
partner is paired with itself, so two lists may have the same pairs: a list
that ends in a value twice, and the list without the second one.  When no
level ends that way and the node function has no collision on the pairs of
two lists, the last value determines the list.
-/

namespace PrivateDatagram.Library.PairTree

variable {α : Type*}

/-- The pairs of a list. -/
def pairs : List α → List (α × α)
  | [] => []
  | [left] => [(left, left)]
  | left :: right :: rest => (left, right) :: pairs rest

/-- The list ends in a pair of the same value. -/
def TwinEnd : List α → Prop
  | [] => False
  | [_] => False
  | [left, right] => left = right
  | _ :: _ :: rest => TwinEnd rest

instance TwinEnd.decidable [DecidableEq α] :
    (list : List α) → Decidable (TwinEnd list)
  | [] => inferInstanceAs (Decidable False)
  | [_] => inferInstanceAs (Decidable False)
  | [left, right] => inferInstanceAs (Decidable (left = right))
  | _ :: _ :: third :: rest =>
      TwinEnd.decidable (third :: rest)

/-- The level above a list. -/
def above (node : α → α → α) (list : List α) : List α :=
  (pairs list).map fun pair => node pair.1 pair.2

/-- The levels of the tree over a list.  There is a next one over a level of
two values or more. -/
inductive Level (node : α → α → α) (leaves : List α) :
    Nat → List α → Prop
  | leaves : Level node leaves 0 leaves
  | above {height : Nat} {list : List α} :
      Level node leaves height list → 1 < list.length →
        Level node leaves (height + 1) (above node list)

/-- A pair that is hashed in the tree over a list. -/
def Hashed (node : α → α → α) (leaves : List α) (pair : α × α) : Prop :=
  ∃ height list, Level node leaves height list ∧ 1 < list.length ∧
    pair ∈ pairs list

/-- Some level ends in a pair of the same value. -/
def Mutated (node : α → α → α) (leaves : List α) : Prop :=
  ∃ height list, Level node leaves height list ∧ 1 < list.length ∧
    TwinEnd list

/-- The node function has no collision on the pairs of two trees, and gives
no leaf of them. -/
structure CollisionFree (node : α → α → α) (leaves others : List α) :
    Prop where
  injective : ∀ pair other : α × α,
    Hashed node leaves pair ∨ Hashed node others pair →
      Hashed node leaves other ∨ Hashed node others other →
        node pair.1 pair.2 = node other.1 other.2 → pair = other
  disjoint : ∀ pair : α × α,
    Hashed node leaves pair ∨ Hashed node others pair →
      node pair.1 pair.2 ∉ leaves ∧ node pair.1 pair.2 ∉ others

section Pairs

variable {list other : List α}

theorem length_pairs (list : List α) :
    (pairs list).length = (list.length + 1) / 2 := by
  fun_induction pairs list with
  | case1 => simp
  | case2 left => simp
  | case3 left right rest ih =>
      rw [List.length_cons, ih, List.length_cons, List.length_cons]
      omega

theorem mem_of_mem_pairs {pair : α × α} (member : pair ∈ pairs list) :
    pair.1 ∈ list := by
  fun_induction pairs list with
  | case1 => cases member
  | case2 left =>
      rw [List.mem_singleton.mp member]
      exact List.mem_singleton_self left
  | case3 left right rest ih =>
      rcases List.mem_cons.mp member with rfl | later
      · exact List.mem_cons_self
      · exact List.mem_cons_of_mem _ (List.mem_cons_of_mem _ (ih later))

theorem pairs_eq_nil (same : pairs list = []) : list = [] := by
  have noPairs := length_pairs list
  rw [same, List.length_nil] at noPairs
  exact List.eq_nil_of_length_eq_zero (by omega)

theorem eq_singleton {left : α} (single : ¬ TwinEnd list)
    (same : pairs list = [(left, left)]) : list = [left] := by
  cases list with
  | nil => cases same
  | cons first rest =>
      cases rest with
      | nil =>
          cases same
          rfl
      | cons second rest =>
          rw [pairs, List.cons.injEq, Prod.mk.injEq] at same
          obtain ⟨⟨rfl, rfl⟩, noMore⟩ := same
          rw [pairs_eq_nil noMore] at single
          exact absurd rfl single

theorem not_twinEnd_rest {left right : α} {rest : List α}
    (single : ¬ TwinEnd (left :: right :: rest)) : ¬ TwinEnd rest := by
  cases rest with
  | nil => exact id
  | cons third rest => exact single

theorem twinEnd_cons_cons {left right : α} {rest : List α} :
    TwinEnd (left :: right :: rest) ↔
      rest = [] ∧ left = right ∨ TwinEnd rest := by
  cases rest with
  | nil => exact ⟨fun twin => .inl ⟨rfl, twin⟩, fun cases =>
      cases.elim And.right False.elim⟩
  | cons third rest => exact ⟨.inr, fun cases => cases.resolve_left nofun⟩

/-- Without a twin end the pairs determine the list. -/
theorem eq_of_pairs_eq (single : ¬ TwinEnd list)
    (singleOther : ¬ TwinEnd other) (same : pairs list = pairs other) :
    list = other := by
  fun_induction pairs list generalizing other with
  | case1 => exact (pairs_eq_nil same.symm).symm
  | case2 left => exact (eq_singleton singleOther same.symm).symm
  | case3 left right rest ih =>
      cases other with
      | nil => cases same
      | cons left' rest' =>
          cases rest' with
          | nil => cases eq_singleton single same
          | cons right' rest' =>
              rw [pairs, List.cons.injEq, Prod.mk.injEq] at same
              obtain ⟨⟨rfl, rfl⟩, sameRest⟩ := same
              rw [ih (not_twinEnd_rest single) (not_twinEnd_rest singleOther)
                sameRest]

end Pairs

theorem eq_of_map_eq {β γ : Type*} {f : β → γ} {list other : List β}
    (injective : ∀ a ∈ list, ∀ b ∈ other, f a = f b → a = b)
    (same : list.map f = other.map f) : list = other := by
  induction list generalizing other with
  | nil => exact (List.map_eq_nil_iff.mp same.symm).symm
  | cons a list ih =>
      cases other with
      | nil => cases same
      | cons b other =>
          rw [List.map_cons, List.map_cons, List.cons.injEq] at same
          rw [injective a List.mem_cons_self b List.mem_cons_self same.1,
            ih ?_ same.2]
          intro c member d memberOther
          exact injective c (List.mem_cons_of_mem _ member) d
            (List.mem_cons_of_mem _ memberOther)

section Levels

variable {node : α → α → α} {leaves others : List α}

theorem length_above (node : α → α → α) (list : List α) :
    (above node list).length = (list.length + 1) / 2 := by
  rw [above, List.length_map, length_pairs]

theorem Level.unique {height : Nat} {list other : List α}
    (level : Level node leaves height list)
    (levelOther : Level node leaves height other) : list = other := by
  induction level generalizing other with
  | leaves =>
      cases levelOther
      rfl
  | above below long ih =>
      cases levelOther with
      | above belowOther longOther => rw [ih belowOther]

/-- The levels below another one are long. -/
theorem Level.long_below {height low : Nat} {list lower : List α}
    (level : Level node leaves height list)
    (levelLower : Level node leaves low lower) (isLower : low < height) :
    1 < lower.length := by
  induction level with
  | leaves => exact absurd isLower (Nat.not_lt_zero low)
  | above below long ih =>
      rcases Nat.lt_succ_iff_lt_or_eq.mp isLower with deeper | rfl
      · exact ih deeper
      · exact levelLower.unique below ▸ long

theorem Hashed.long {pair : α × α} (hashed : Hashed node leaves pair) :
    1 < leaves.length := by
  obtain ⟨height, list, level, long, _⟩ := hashed
  cases height with
  | zero => exact level.unique .leaves ▸ long
  | succ height => exact level.long_below .leaves (Nat.succ_pos height)

theorem Hashed.of_mem {height : Nat} {list : List α}
    (level : Level node leaves height list) (long : 1 < list.length)
    {value : α} (member : value ∈ above node list) :
    ∃ pair ∈ pairs list, node pair.1 pair.2 = value ∧
      Hashed node leaves pair := by
  obtain ⟨pair, isPair, isValue⟩ := List.mem_map.mp member
  exact ⟨pair, isPair, isValue, height, list, level, long, isPair⟩

/-- A value of two trees is at the same height in both. -/
theorem Level.height_eq (free : CollisionFree node leaves others)
    {height heightOther : Nat} {list other : List α}
    (level : Level node leaves height list)
    (levelOther : Level node others heightOther other) {value : α}
    (member : value ∈ list) (memberOther : value ∈ other) :
    height = heightOther := by
  induction level generalizing heightOther other value with
  | leaves =>
      cases levelOther with
      | leaves => rfl
      | above below long =>
          obtain ⟨pair, _, rfl, hashed⟩ := Hashed.of_mem below long memberOther
          exact absurd member (free.disjoint pair (.inr hashed)).1
  | above below long ih =>
      obtain ⟨pair, isPair, isValue, hashed⟩ := Hashed.of_mem below long member
      cases levelOther with
      | leaves =>
          rw [← isValue] at memberOther
          exact absurd memberOther (free.disjoint pair (.inl hashed)).2
      | above belowOther longOther =>
          obtain ⟨another, isAnother, isSame, hashedOther⟩ :=
            Hashed.of_mem belowOther longOther memberOther
          have samePair := free.injective pair another (.inl hashed)
            (.inr hashedOther) (isValue.trans isSame.symm)
          rw [ih belowOther (mem_of_mem_pairs isPair)
            (samePair ▸ mem_of_mem_pairs isAnother)]

/-- Equal levels of one height have equal leaves below them. -/
theorem Level.leaves_eq (free : CollisionFree node leaves others)
    (single : ¬ Mutated node leaves) (singleOther : ¬ Mutated node others)
    {height : Nat} {list other : List α}
    (level : Level node leaves height list)
    (levelOther : Level node others height other) (same : list = other) :
    leaves = others := by
  induction level generalizing other with
  | leaves =>
      cases levelOther
      exact same
  | @above height lower below long ih =>
      cases levelOther with
      | @above _ lowerOther belowOther longOther =>
          have samePairs : pairs lower = pairs lowerOther := by
            refine eq_of_map_eq (fun pair isPair another isAnother => ?_) same
            exact free.injective pair another
              (.inl ⟨_, _, below, long, isPair⟩)
              (.inr ⟨_, _, belowOther, longOther, isAnother⟩)
          refine ih belowOther (eq_of_pairs_eq ?_ ?_ samePairs)
          · exact fun twin => single ⟨_, _, below, long, twin⟩
          · exact fun twin => singleOther ⟨_, _, belowOther, longOther, twin⟩

/-- The root determines the leaves. -/
theorem leaves_eq_of_root (free : CollisionFree node leaves others)
    (single : ¬ Mutated node leaves) (singleOther : ¬ Mutated node others)
    {height heightOther : Nat} {root : α}
    (level : Level node leaves height [root])
    (levelOther : Level node others heightOther [root]) : leaves = others := by
  have sameHeight := level.height_eq free levelOther
    (List.mem_singleton_self root) (List.mem_singleton_self root)
  exact level.leaves_eq free single singleOther (sameHeight ▸ levelOther) rfl

end Levels

end PrivateDatagram.Library.PairTree
