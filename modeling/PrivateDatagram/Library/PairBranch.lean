import Mathlib.Algebra.Order.Ring.Nat
import Mathlib.Data.Nat.Log
import PrivateDatagram.Library.PairTree

/-!
# Branches in trees of pairs

A leaf of a tree of pairs, its position, and the value it is paired with on
each level give the root.  The other way round, the root determines the leaf
at a position, unless two pairs collide.  Positions behind the last leaf stand
for copies of leaves.
-/

namespace PrivateDatagram.Library.PairBranch

open PairTree

variable {α : Type*} {node : α → α → α} {list leaves : List α}

/-! ## Positions on the level above -/

theorem getElem?_pairs {place : Nat} {left right : α}
    (isLeft : list[2 * place]? = some left)
    (isRight : list[min (2 * place + 1) (list.length - 1)]? = some right) :
    (pairs list)[place]? = some (left, right) := by
  fun_induction pairs list generalizing place with
  | case1 => cases isLeft
  | case2 only =>
      obtain rfl : place = 0 := by
        have inside := (List.getElem?_eq_some_iff.mp isLeft).1
        rw [List.length_singleton] at inside
        omega
      cases isLeft
      cases isRight
      rfl
  | case3 first second rest ih =>
      cases place with
      | zero =>
          have next : min (2 * 0 + 1)
              ((first :: second :: rest).length - 1) = 1 := by
            simp only [List.length_cons]
            omega
          rw [next] at isRight
          cases isLeft
          cases isRight
          rfl
      | succ place =>
          have inside := (List.getElem?_eq_some_iff.mp isLeft).1
          have next : min (2 * (place + 1) + 1)
              ((first :: second :: rest).length - 1) =
                min (2 * place + 1) (rest.length - 1) + 2 := by
            simp only [List.length_cons] at inside ⊢
            omega
          rw [next] at isRight
          exact ih isLeft isRight

theorem getElem?_above {place : Nat} {left right : α}
    (isLeft : list[2 * place]? = some left)
    (isRight : list[min (2 * place + 1) (list.length - 1)]? = some right) :
    (above node list)[place]? = some (node left right) := by
  unfold above
  rw [List.getElem?_map, getElem?_pairs isLeft isRight]
  rfl

/-- A value of the level above is that of a pair. -/
theorem above_eq_some {place : Nat} {value : α}
    (found : (above node list)[place]? = some value) :
    ∃ left right, list[2 * place]? = some left ∧
      list[min (2 * place + 1) (list.length - 1)]? = some right ∧
      (left, right) ∈ pairs list ∧ node left right = value := by
  have inside := (List.getElem?_eq_some_iff.mp found).1
  rw [length_above] at inside
  have isLeft := List.getElem?_eq_getElem
    (show 2 * place < list.length by omega)
  have isRight := List.getElem?_eq_getElem
    (show min (2 * place + 1) (list.length - 1) < list.length by omega)
  refine ⟨_, _, isLeft, isRight,
    List.mem_of_getElem? (getElem?_pairs isLeft isRight), ?_⟩
  rw [getElem?_above isLeft isRight] at found
  exact Option.some.inj found

/-! ## The levels one above the other -/

/-- How many values a level has. -/
def width (size height : Nat) : Nat :=
  (size + 2 ^ height - 1) / 2 ^ height

theorem lt_width_iff (size height place : Nat) :
    place < width size height ↔ place * 2 ^ height < size := by
  have positive := Nat.two_pow_pos height
  unfold width
  rw [← Nat.add_one_le_iff, Nat.le_div_iff_mul_le positive, Nat.add_mul]
  omega

theorem width_succ (size height : Nat) :
    width size (height + 1) = (width size height + 1) / 2 := by
  have positive := Nat.two_pow_pos height
  unfold width
  rw [← Nat.add_div_right _ positive, Nat.div_div_eq_div_mul, Nat.pow_succ]
  congr 1
  omega

theorem length_iterate_above (node : α → α → α) (list : List α)
    (height : Nat) :
    ((above node)^[height] list).length = width list.length height := by
  induction height with
  | zero => simp [width]
  | succ height ih =>
      rw [Function.iterate_succ_apply', length_above, ih, width_succ]

theorem iterate_level (node : α → α → α) {height : Nat}
    (long : ∀ low < height, 1 < width leaves.length low) :
    Level node leaves height ((above node)^[height] leaves) := by
  induction height with
  | zero => exact .leaves
  | succ height ih =>
      rw [Function.iterate_succ_apply']
      refine .above (ih fun low below => long low (by omega)) ?_
      rw [length_iterate_above]
      exact long height (Nat.lt_succ_self height)

/-- The leaves below a value. -/
def under {β : Type*} (height place : Nat) (leaves : List β) : List β :=
  (leaves.drop (place * 2 ^ height)).take (2 ^ height)

theorem under_succ {β : Type*} (height place : Nat) (leaves : List β) :
    under (height + 1) place leaves =
      under height (place * 2) leaves ++
        under height (place * 2 + 1) leaves := by
  unfold under
  rw [Nat.pow_succ, Nat.mul_two (2 ^ height), List.take_add,
    List.drop_drop, Nat.mul_assoc, ← Nat.mul_two, Nat.mul_comm 2,
    Nat.add_mul, Nat.one_mul, Nat.mul_assoc, Nat.mul_comm 2]

theorem under_eq_nil {β : Type*} {height place : Nat} {leaves : List β}
    (behind : leaves.length ≤ place * 2 ^ height) :
    under height place leaves = [] := by
  unfold under
  rw [List.drop_eq_nil_of_le behind, List.take_nil]

theorem under_zero {β : Type*} {place : Nat} {leaves : List β} {leaf : β}
    (found : leaves[place]? = some leaf) :
    under 0 place leaves = [leaf] := by
  rcases List.getElem?_eq_some_iff.mp found with ⟨inside, rfl⟩
  unfold under
  rw [Nat.pow_zero, Nat.mul_one, List.drop_eq_getElem_cons inside,
    List.take_succ_cons, List.take_zero]

theorem length_under_congr {β γ : Type*} {list : List β} {other : List γ}
    (same : list.length = other.length) (height place : Nat) :
    (under height place list).length = (under height place other).length := by
  unfold under
  rw [List.length_take, List.length_take, List.length_drop,
    List.length_drop, same]

theorem length_under_pos {β : Type*} {height place : Nat} {leaves : List β}
    (inside : place * 2 ^ height < leaves.length) :
    0 < (under height place leaves).length := by
  have positive := Nat.two_pow_pos height
  unfold under
  rw [List.length_take, List.length_drop]
  omega

/-! ## Climbing a branch -/

/-- A value and the one it is paired with, in their order. -/
def pairAt (place : Nat) (value other : α) : α × α :=
  if place % 2 = 1 then (other, value) else (value, other)

/-- The value at the end of a branch. -/
def climb (node : α → α → α) : α → List α → Nat → α
  | value, [], _ => value
  | value, other :: branch, place =>
      climb node
        (node (pairAt place value other).1 (pairAt place value other).2)
        branch (place / 2)

/-- The pairs that are hashed on the way. -/
def climbed (node : α → α → α) : α → List α → Nat → List (α × α)
  | _, [], _ => []
  | value, other :: branch, place =>
      pairAt place value other ::
        climbed node
          (node (pairAt place value other).1 (pairAt place value other).2)
          branch (place / 2)

/-- The place of the sibling, which is the same place at a ragged edge. -/
def sibling (size place : Nat) : Nat :=
  min (if place % 2 = 1 then place - 1 else place + 1) (size - 1)

/-- A value paired with its sibling is the value above. -/
theorem getElem?_above_pairAt {place : Nat} {value other : α}
    (isValue : list[place]? = some value)
    (isOther : list[sibling list.length place]? = some other) :
    (above node list)[place / 2]? = some
      (node (pairAt place value other).1 (pairAt place value other).2) := by
  have inside := (List.getElem?_eq_some_iff.mp isValue).1
  unfold sibling at isOther
  unfold pairAt
  by_cases odd : place % 2 = 1
  · rw [if_pos odd] at isOther ⊢
    refine getElem?_above ?_ ?_
    · rwa [show 2 * (place / 2) = min (place - 1) (list.length - 1) by omega]
    · rwa [show min (2 * (place / 2) + 1) (list.length - 1) = place by omega]
  · rw [if_neg odd] at isOther ⊢
    refine getElem?_above ?_ ?_
    · rwa [show 2 * (place / 2) = place by omega]
    · rwa [show 2 * (place / 2) + 1 = place + 1 by omega]

/-! ## What a branch proves -/

/-- The leaf whose copy stands at a place. -/
def leafAt (size place : Nat) : Nat :=
  if 1 < size then
    min (2 * leafAt ((size + 1) / 2) (place / 2) + place % 2) (size - 1)
  else
    0
termination_by size

/-- Each leaf stands at its own place. -/
theorem leafAt_eq {size place : Nat} (inside : place < size) :
    leafAt size place = place := by
  induction size using Nat.strong_induction_on generalizing place with
  | h size ih =>
      rw [leafAt]
      split_ifs with long
      · rw [ih ((size + 1) / 2) (by omega) (by omega)]
        omega
      · omega

/-- Two different pairs have one value, one pair of the tree and one that is
hashed along the branch. -/
def Collision (node : α → α → α) (leaves : List α) (value : α)
    (branch : List α) (place : Nat) : Prop :=
  ∃ pair other, pair ≠ other ∧
    node pair.1 pair.2 = node other.1 other.2 ∧
      Hashed node leaves pair ∧ other ∈ climbed node value branch place

theorem clog_size {size : Nat} (long : 1 < size) :
    Nat.clog 2 size = Nat.clog 2 ((size + 1) / 2) + 1 := by
  rw [Nat.clog_of_two_le Nat.one_lt_two long]
  rfl

/-- The lower places of a pair that is the same. -/
theorem getElem?_of_pairAt {lower place : Nat} {left right value other : α}
    (isLeft : list[2 * lower]? = some left)
    (isRight : list[min (2 * lower + 1) (list.length - 1)]? = some right)
    (same : (left, right) = pairAt place value other) :
    list[min (2 * lower + place % 2) (list.length - 1)]? = some value := by
  have inside := (List.getElem?_eq_some_iff.mp isLeft).1
  unfold pairAt at same
  split_ifs at same with odd
  · cases same
    rwa [odd]
  · cases same
    rwa [show min (2 * lower + place % 2) (list.length - 1) = 2 * lower by
      omega]

/-- The tree has one root. -/
theorem root_unique {height top : Nat} {value root : α}
    (level : Level node leaves height [value])
    (isRoot : Level node leaves top [root]) : value = root := by
  rcases Nat.lt_trichotomy height top with below | same | above
  · exact absurd (isRoot.long_below level below) (Nat.lt_irrefl 1)
  · cases (same ▸ level).unique isRoot
    rfl
  · exact absurd (level.long_below isRoot above) (Nat.lt_irrefl 1)

/-- A branch that ends at the root starts at the leaf of its place. -/
theorem climb_root {height top : Nat} {root : α}
    (level : Level node leaves height list)
    (isRoot : Level node leaves top [root]) (nonempty : 0 < list.length)
    {value : α} {branch : List α} {place : Nat}
    (ofHeight : branch.length = Nat.clog 2 list.length)
    (climbs : climb node value branch place = root) :
    list[leafAt list.length place]? = some value ∨
      Collision node leaves value branch place := by
  induction size : list.length using Nat.strong_induction_on
    generalizing height list value branch place with
  | h n ih =>
      subst size
      have shorter := length_above node list
      by_cases long : 1 < list.length
      · rw [clog_size long] at ofHeight
        obtain ⟨other, branch, rfl⟩ :=
          List.exists_cons_of_length_eq_add_one ofHeight
        rw [climb] at climbs
        rw [List.length_cons, ← shorter] at ofHeight
        have onAbove := ih (above node list).length (by omega)
          (level.above long) (by omega) (Nat.succ.inj ofHeight) climbs rfl
        rw [leafAt, if_pos long, ← shorter]
        rcases onAbove with found | ⟨pair, another, apart, same, hashed, later⟩
        · rcases above_eq_some found with
            ⟨left, right, isLeft, isRight, isPair, same⟩
          by_cases equal : (left, right) = pairAt place value other
          · exact .inl (getElem?_of_pairAt isLeft isRight equal)
          · exact .inr ⟨_, _, equal, same, ⟨_, _, level, long, isPair⟩,
              List.mem_cons_self⟩
        · exact .inr ⟨pair, another, apart, same, hashed,
            List.mem_cons_of_mem _ later⟩
      · obtain ⟨only, rfl⟩ := List.length_eq_one_iff.mp
          (show list.length = 1 by omega)
        cases List.eq_nil_of_length_eq_zero ofHeight
        have same : value = only :=
          climbs.trans (root_unique level isRoot).symm
        rw [leafAt, if_neg long, same]
        exact .inl rfl

end PrivateDatagram.Library.PairBranch
