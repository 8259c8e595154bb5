import Mathlib.Data.Set.Basic

/-!
# Parent pointers

Nodes that point to their parents and record their height.  In a forest the
pointers end at nodes of height zero, so the ancestor at a height is unique, and
two nodes have a deepest common ancestor unless they stand in different trees.
-/

namespace PrivateDatagram.Library.ParentForest

variable {α : Type*} {parent : α → Option α}

/-- Follow the pointers a number of times. -/
def follow (parent : α → Option α) : Nat → α → Option α
  | 0, node => some node
  | steps + 1, node => (parent node).bind (follow parent steps)

@[simp]
theorem follow_zero (node : α) : follow parent 0 node = some node :=
  rfl

theorem follow_succ (steps : Nat) (node : α) :
    follow parent (steps + 1) node =
      (parent node).bind (follow parent steps) :=
  rfl

theorem follow_add (first second : Nat) (node : α) :
    follow parent (first + second) node =
      (follow parent first node).bind (follow parent second) := by
  induction first generalizing node with
  | zero => rw [Nat.zero_add, follow_zero, Option.bind_some]
  | succ first hypothesis =>
      rw [Nat.succ_add, follow_succ, follow_succ]
      cases parent node with
      | none => rfl
      | some above => exact hypothesis above

/-- Reached by following the pointers; a node is an ancestor of itself. -/
def IsAncestor (parent : α → Option α) (ancestor node : α) : Prop :=
  ∃ steps, follow parent steps node = some ancestor

theorem IsAncestor.refl (node : α) : IsAncestor parent node node :=
  ⟨0, rfl⟩

theorem IsAncestor.trans {first second third : α}
    (lower : IsAncestor parent first second)
    (upper : IsAncestor parent second third) :
    IsAncestor parent first third := by
  rcases lower with ⟨below, lower⟩
  rcases upper with ⟨above, upper⟩
  refine ⟨above + below, ?_⟩
  rw [follow_add, upper, Option.bind_some, lower]

/-- Following further. -/
theorem IsAncestor.of_follow {ancestor node : α} {steps : Nat}
    (reached : follow parent steps node = some ancestor) :
    IsAncestor parent ancestor node :=
  ⟨steps, reached⟩

theorem isAncestor_of_parent {node above ancestor : α}
    (link : parent node = some above)
    (isAncestor : IsAncestor parent ancestor above) :
    IsAncestor parent ancestor node := by
  rcases isAncestor with ⟨steps, reached⟩
  refine ⟨steps + 1, ?_⟩
  rw [follow_succ, link, Option.bind_some, reached]

/-- The pointers stay in a set of nodes and go down by one each time. -/
structure Forest (parent : α → Option α) (height : α → Nat)
    (nodes : Set α) : Prop where
  root : ∀ node ∈ nodes, parent node = none → height node = 0
  child : ∀ node ∈ nodes, ∀ above, parent node = some above →
    above ∈ nodes ∧ height node = height above + 1

namespace Forest

variable {height : α → Nat} {nodes : Set α} {node ancestor other : α}

theorem follow_height (forest : Forest parent height nodes)
    (member : node ∈ nodes) {steps : Nat}
    (reached : follow parent steps node = some ancestor) :
    ancestor ∈ nodes ∧ height ancestor + steps = height node := by
  induction steps generalizing node with
  | zero =>
      cases reached
      exact ⟨member, rfl⟩
  | succ steps hypothesis =>
      rw [follow_succ] at reached
      cases above : parent node with
      | none =>
          rw [above] at reached
          cases reached
      | some next =>
          rw [above] at reached
          rcases forest.child node member next above with ⟨inside, lower⟩
          rcases hypothesis inside reached with ⟨within, sum⟩
          exact ⟨within, by omega⟩

/-- The pointers can be followed down to height zero. -/
theorem follow_some (forest : Forest parent height nodes)
    (member : node ∈ nodes) (steps : Nat) (bound : steps ≤ height node) :
    ∃ ancestor ∈ nodes, follow parent steps node = some ancestor ∧
      height ancestor + steps = height node := by
  induction steps generalizing node with
  | zero => exact ⟨node, member, rfl, rfl⟩
  | succ steps hypothesis =>
      cases above : parent node with
      | none =>
          have zero := forest.root node member above
          omega
      | some next =>
          rcases forest.child node member next above with ⟨inside, lower⟩
          rcases hypothesis inside (by omega) with
            ⟨ancestor, within, reached, sum⟩
          refine ⟨ancestor, within, ?_, by omega⟩
          rw [follow_succ, above]
          exact reached

/-- Pointers of other nodes do not matter. -/
theorem follow_congr (forest : Forest parent height nodes)
    {parent' : α → Option α}
    (agree : ∀ node ∈ nodes, parent' node = parent node)
    (member : node ∈ nodes) (steps : Nat) :
    follow parent' steps node = follow parent steps node := by
  induction steps generalizing node with
  | zero => rfl
  | succ steps hypothesis =>
      rw [follow_succ, follow_succ, agree node member]
      cases above : parent node with
      | none => rfl
      | some next => exact hypothesis (forest.child node member next above).1

theorem ancestor_height (forest : Forest parent height nodes)
    (member : node ∈ nodes) (isAncestor : IsAncestor parent ancestor node) :
    ancestor ∈ nodes ∧ height ancestor ≤ height node ∧
      follow parent (height node - height ancestor) node =
        some ancestor := by
  rcases isAncestor with ⟨steps, reached⟩
  rcases forest.follow_height member reached with ⟨inside, sum⟩
  refine ⟨inside, by omega, ?_⟩
  rw [← sum, Nat.add_sub_cancel_left]
  exact reached

/-- The lower of two ancestors of a node is an ancestor of the higher. -/
theorem ancestor_of_height_le (forest : Forest parent height nodes)
    (member : node ∈ nodes) (low : IsAncestor parent ancestor node)
    (high : IsAncestor parent other node)
    (order : height ancestor ≤ height other) :
    IsAncestor parent ancestor other := by
  rcases forest.ancestor_height member low with ⟨_, _, reached⟩
  rcases forest.ancestor_height member high with ⟨_, bound, passed⟩
  refine ⟨height other - height ancestor, ?_⟩
  have split : height node - height ancestor =
      (height node - height other) + (height other - height ancestor) := by
    omega
  rwa [split, follow_add, passed, Option.bind_some] at reached

theorem ancestor_unique (forest : Forest parent height nodes)
    (member : node ∈ nodes) (one : IsAncestor parent ancestor node)
    (two : IsAncestor parent other node)
    (same : height ancestor = height other) : ancestor = other := by
  rcases forest.ancestor_height member one with ⟨_, _, reached⟩
  rcases forest.ancestor_height member two with ⟨_, _, passed⟩
  rw [same, passed] at reached
  exact (Option.some.inj reached).symm

/-- A proper ancestor is one of the parent. -/
theorem isAncestor_parent (forest : Forest parent height nodes)
    {node ancestor : α} (member : node ∈ nodes)
    (isAncestor : IsAncestor parent ancestor node)
    (less : height ancestor < height node) :
    ∃ above, parent node = some above ∧
      IsAncestor parent ancestor above := by
  rcases forest.ancestor_height member isAncestor with ⟨_, _, reached⟩
  obtain ⟨steps, split⟩ : ∃ steps,
      height node - height ancestor = steps + 1 :=
    ⟨height node - height ancestor - 1, by omega⟩
  rw [split, follow_succ] at reached
  cases above : parent node with
  | none =>
      rw [above] at reached
      cases reached
  | some next =>
      rw [above] at reached
      exact ⟨next, rfl, steps, reached⟩

end Forest

/-! ## The way up to a node -/

/-- The last nodes on the way up to a node, which is one of them. -/
def pathTo (parent : α → Option α) : Nat → α → List α
  | 0, _ => []
  | steps + 1, node =>
      ((parent node).elim [] (pathTo parent steps)) ++ [node]

theorem pathTo_succ {steps : Nat} {node above : α}
    (link : parent node = some above) :
    pathTo parent (steps + 1) node = pathTo parent steps above ++ [node] := by
  rw [pathTo, link, Option.elim_some]

/-- A way up is a shorter one and what comes after it. -/
theorem pathTo_add {above below : Nat} {node middle : α}
    (reached : follow parent above node = some middle) :
    pathTo parent (below + above) node =
      pathTo parent below middle ++ pathTo parent above node := by
  induction above generalizing node with
  | zero =>
      cases reached
      rw [Nat.add_zero, pathTo, List.append_nil]
  | succ above hypothesis =>
      rw [follow_succ] at reached
      cases link : parent node with
      | none =>
          rw [link] at reached
          cases reached
      | some next =>
          rw [link] at reached
          rw [← Nat.add_assoc, pathTo_succ link, pathTo_succ link,
            hypothesis reached, List.append_assoc]

namespace Forest

variable {height : α → Nat} {nodes : Set α} {node : α}

theorem mem_pathTo (forest : Forest parent height nodes)
    (member : node ∈ nodes) {steps : Nat} (bound : steps ≤ height node)
    (other : α) :
    other ∈ pathTo parent steps node ↔
      IsAncestor parent other node ∧ height node < height other + steps := by
  induction steps generalizing node with
  | zero =>
      refine iff_of_false List.not_mem_nil ?_
      rintro ⟨isAncestor, high⟩
      have low := (forest.ancestor_height member isAncestor).2.1
      omega
  | succ steps hypothesis =>
      cases link : parent node with
      | none =>
          have zero := forest.root node member link
          omega
      | some above =>
          rcases forest.child node member above link with ⟨inside, lower⟩
          rw [pathTo_succ link, List.mem_append, List.mem_singleton,
            hypothesis inside (by omega)]
          constructor
          · rintro (⟨isAncestor, high⟩ | rfl)
            · exact ⟨isAncestor_of_parent link isAncestor, by omega⟩
            · exact ⟨.refl other, by omega⟩
          · rintro ⟨isAncestor, high⟩
            have low := (forest.ancestor_height member isAncestor).2.1
            rcases low.lt_or_eq with less | same
            · rcases forest.isAncestor_parent member isAncestor less with
                ⟨next, link', onAbove⟩
              cases link.symm.trans link'
              exact .inl ⟨onAbove, by omega⟩
            · exact .inr (forest.ancestor_unique member isAncestor
                (.refl node) same)

/-- The heights grow along the way. -/
theorem pathTo_increasing (forest : Forest parent height nodes)
    (member : node ∈ nodes) {steps : Nat} (bound : steps ≤ height node) :
    (pathTo parent steps node).Pairwise fun first second =>
      height first < height second := by
  induction steps generalizing node with
  | zero => exact .nil
  | succ steps hypothesis =>
      cases link : parent node with
      | none =>
          have zero := forest.root node member link
          omega
      | some above =>
          rcases forest.child node member above link with ⟨inside, lower⟩
          rw [pathTo_succ link, List.pairwise_append]
          refine ⟨hypothesis inside (by omega),
            List.pairwise_singleton _ _, ?_⟩
          intro first onPath second last
          cases List.mem_singleton.mp last
          have isAncestor :=
            ((forest.mem_pathTo inside (by omega) first).mp onPath).1
          have low := (forest.ancestor_height inside isAncestor).2.1
          omega

end Forest

/-! ## Common ancestors -/

/-- The deepest node that is an ancestor of both, or that there is none. -/
def IsDeepestCommon (parent : α → Option α) (height : α → Nat)
    (left right : α) : Option α → Prop
  | none => ∀ node, ¬ (IsAncestor parent node left ∧
      IsAncestor parent node right)
  | some deepest => IsAncestor parent deepest left ∧
      IsAncestor parent deepest right ∧
      ∀ node, IsAncestor parent node left → IsAncestor parent node right →
        height node ≤ height deepest

/-- Only the common ancestors matter. -/
theorem IsDeepestCommon.congr {height : α → Nat} {left right left' right' : α}
    (same : ∀ node,
      IsAncestor parent node left ∧ IsAncestor parent node right ↔
        IsAncestor parent node left' ∧ IsAncestor parent node right')
    {result : Option α}
    (deepest : IsDeepestCommon parent height left right result) :
    IsDeepestCommon parent height left' right' result := by
  cases result with
  | none =>
      intro node common
      exact deepest node ((same node).mpr common)
  | some result =>
      rcases deepest with ⟨onLeft, onRight, most⟩
      rcases (same result).mp ⟨onLeft, onRight⟩ with ⟨onLeft', onRight'⟩
      refine ⟨onLeft', onRight', ?_⟩
      intro node left' right'
      rcases (same node).mpr ⟨left', right'⟩ with ⟨left, right⟩
      exact most node left right

namespace Forest

variable {height : α → Nat} {nodes : Set α} {left right : α}

theorem isDeepestCommon_self (forest : Forest parent height nodes)
    {node : α} (member : node ∈ nodes) :
    IsDeepestCommon parent height node node (some node) :=
  ⟨.refl node, .refl node, fun _ onLeft _ =>
    (forest.ancestor_height member onLeft).2.1⟩

/-- A common ancestor of different nodes of one height is lower. -/
theorem common_lt (forest : Forest parent height nodes)
    (leftIn : left ∈ nodes) (rightIn : right ∈ nodes)
    (level : height left = height right) (apart : left ≠ right) {node : α}
    (onLeft : IsAncestor parent node left)
    (onRight : IsAncestor parent node right) :
    height node < height left := by
  refine lt_of_le_of_ne (forest.ancestor_height leftIn onLeft).2.1 ?_
  intro same
  have first := forest.ancestor_unique leftIn onLeft (.refl left) same
  have second := forest.ancestor_unique rightIn onRight (.refl right)
    (same.trans level)
  exact apart (first.symm.trans second)

theorem isDeepestCommon_roots (forest : Forest parent height nodes)
    (leftIn : left ∈ nodes) (rightIn : right ∈ nodes)
    (leftRoot : height left = 0) (rightRoot : height right = 0)
    (apart : left ≠ right) :
    IsDeepestCommon parent height left right none := by
  rintro node ⟨onLeft, onRight⟩
  have less := forest.common_lt leftIn rightIn
    (leftRoot.trans rightRoot.symm) apart onLeft onRight
  omega

/-- Different nodes of one height have the common ancestors of their parents. -/
theorem isDeepestCommon_parents (forest : Forest parent height nodes)
    (leftIn : left ∈ nodes) (rightIn : right ∈ nodes)
    (level : height left = height right) (apart : left ≠ right)
    {leftAbove rightAbove : α} (leftLink : parent left = some leftAbove)
    (rightLink : parent right = some rightAbove) {result : Option α}
    (deepest : IsDeepestCommon parent height leftAbove rightAbove result) :
    IsDeepestCommon parent height left right result := by
  refine deepest.congr fun node => ⟨?_, ?_⟩
  · rintro ⟨onLeft, onRight⟩
    exact ⟨isAncestor_of_parent leftLink onLeft,
      isAncestor_of_parent rightLink onRight⟩
  · rintro ⟨onLeft, onRight⟩
    have less := forest.common_lt leftIn rightIn level apart onLeft onRight
    rcases forest.isAncestor_parent leftIn onLeft less with
      ⟨_, link, onLeftAbove⟩
    rcases forest.isAncestor_parent rightIn onRight (level ▸ less) with
      ⟨_, link', onRightAbove⟩
    cases leftLink.symm.trans link
    cases rightLink.symm.trans link'
    exact ⟨onLeftAbove, onRightAbove⟩

/-- The higher node can be replaced by its ancestor at the other height. -/
theorem isDeepestCommon_level (forest : Forest parent height nodes)
    (leftIn : left ∈ nodes) (rightIn : right ∈ nodes) {lowered : α}
    (above : IsAncestor parent lowered left)
    (level : height lowered = height right) {result : Option α}
    (deepest : IsDeepestCommon parent height lowered right result) :
    IsDeepestCommon parent height left right result := by
  refine deepest.congr fun node => ⟨?_, ?_⟩
  · rintro ⟨onLowered, onRight⟩
    exact ⟨onLowered.trans above, onRight⟩
  · rintro ⟨onLeft, onRight⟩
    have bound := (forest.ancestor_height rightIn onRight).2.1
    exact ⟨forest.ancestor_of_height_le leftIn onLeft above
      (bound.trans level.ge), onRight⟩

end Forest

/-- The deepest common ancestor is unique. -/
theorem Forest.isDeepestCommon_unique {height : α → Nat} {nodes : Set α}
    {left right : α} (forest : Forest parent height nodes)
    (leftIn : left ∈ nodes) {one two : Option α}
    (first : IsDeepestCommon parent height left right one)
    (second : IsDeepestCommon parent height left right two) : one = two := by
  cases one with
  | none =>
      cases two with
      | none => rfl
      | some other => exact absurd ⟨second.1, second.2.1⟩ (first other)
  | some node =>
      cases two with
      | none => exact absurd ⟨first.1, first.2.1⟩ (second node)
      | some other =>
          have low := second.2.2 node first.1 first.2.1
          have high := first.2.2 other second.1 second.2.1
          rw [forest.ancestor_unique leftIn first.1 second.1
            (Nat.le_antisymm low high)]

theorem IsDeepestCommon.symm {height : α → Nat} {left right : α}
    {result : Option α}
    (deepest : IsDeepestCommon parent height left right result) :
    IsDeepestCommon parent height right left result := by
  cases result with
  | none => exact fun node common => deepest node common.symm
  | some result =>
      rcases deepest with ⟨onLeft, onRight, most⟩
      exact ⟨onRight, onLeft, fun node right left => most node left right⟩

end PrivateDatagram.Library.ParentForest
