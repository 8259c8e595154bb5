import PrivateDatagram.Chainstate.BlockIndex
import PrivateDatagram.Library.ParentForest

/-!
# Skip pointers

A `CBlockIndex` points to its parent and, with `pskip`, to one of its ancestors.
`GetAncestor` walks down with either pointer and computes the heights of the
targets as it goes; `BuildSkip` sets `pskip` with the walk of the parent.

The walk is right for a block when all the skip pointers below it are, so the
blocks of a tree are right one after another.  `LastCommonAncestor` brings two
blocks to one height and steps back from there.

A null pointer is `none` within the result.  No result at all means that a
null pointer was dereferenced or an assertion failed.
-/

namespace PrivateDatagram.Chainstate.SkipList

open Library.ParentForest
open Chainstate.BlockIndex (getSkipHeight getSkipHeight_lt)

variable {P : Type}

/-- The part of a `CBlockIndex` that links the blocks. -/
structure Links (P : Type) where
  pprev : Option P
  pskip : Option P
  nHeight : Nat
deriving DecidableEq, Repr

/-- What the pointers point to. -/
abbrev Memory (P : Type) := P → Links P

def pprev (memory : Memory P) (pindex : P) : Option P :=
  (memory pindex).pprev

def nHeight (memory : Memory P) (pindex : P) : Nat :=
  (memory pindex).nHeight

/-! ## The functions -/

/-- The loop of `GetAncestor`. -/
def getAncestorWalk (memory : Memory P) (height heightWalk : Nat)
    (pindexWalk : Option P) : Option (Option P) :=
  if heightWalk ≤ height then
    some pindexWalk
  else
    match pindexWalk with
    | none => none
    | some walk =>
        let heightSkip := getSkipHeight heightWalk
        let heightSkipPrev := getSkipHeight (heightWalk - 1)
        if heightSkip = height ∨ (heightSkip > height ∧
            ¬ ((heightSkipPrev : Int) < heightSkip - 2 ∧
              heightSkipPrev ≥ height)) then
          getAncestorWalk memory height heightSkip (memory walk).pskip
        else
          getAncestorWalk memory height (heightWalk - 1) (memory walk).pprev
termination_by heightWalk
decreasing_by
  · exact getSkipHeight_lt (by omega)
  · omega

/-- `CBlockIndex::GetAncestor`. -/
def getAncestor (memory : Memory P) (pindex : P) (height : Int) :
    Option (Option P) :=
  let nHeight := (memory pindex).nHeight
  if height > nHeight ∨ height < 0 then
    some none
  else
    getAncestorWalk memory height.toNat nHeight (some pindex)

section

variable [DecidableEq P]

/-- `pindex->pskip = pskip`. -/
def setSkip (memory : Memory P) (pindex : P) (pskip : Option P) : Memory P :=
  Function.update memory pindex { memory pindex with pskip := pskip }

/-- `CBlockIndex::BuildSkip`. -/
def buildSkip (memory : Memory P) (pindex : P) : Option (Memory P) :=
  match (memory pindex).pprev with
  | none => some memory
  | some pprev =>
      (getAncestor memory pprev
        (getSkipHeight (memory pindex).nHeight)).map (setSkip memory pindex)

/-- A new object is linked to its parent. -/
def link (memory : Memory P) (pindex : P) (pprev : Option P) : Memory P :=
  Function.update memory pindex
    { pprev := pprev
      pskip := none
      nHeight := match pprev with
        | none => 0
        | some pprev => (memory pprev).nHeight + 1 }

/-- Set `pprev` and `nHeight` of a new object and call `BuildSkip`. -/
def addBlock (memory : Memory P) (pindex : P) (pprev : Option P) :
    Option (Memory P) :=
  buildSkip (link memory pindex pprev) pindex

/-- One block after the other, each with its parent. -/
def build : List (P × Option P) → Memory P → Option (Memory P)
  | [], memory => some memory
  | (pindex, pprev) :: steps, memory =>
      (addBlock memory pindex pprev).bind (build steps)

/-- The loop of `LastCommonAncestor`; it has no result in too few rounds. -/
def lastCommonAncestorLoop (memory : Memory P) :
    Nat → Option P → Option P → Option (Option P)
  | 0, _, _ => none
  | rounds + 1, pa, pb =>
      match pa, pb with
      | some a, some b =>
          if a = b then
            some (some a)
          else
            lastCommonAncestorLoop memory rounds (memory a).pprev
              (memory b).pprev
      | pa, pb => if pa = pb then some pa else none

/-- `LastCommonAncestor`. -/
def lastCommonAncestor (memory : Memory P) (rounds : Nat) (pa pb : P) :
    Option (Option P) :=
  if (memory pa).nHeight > (memory pb).nHeight then
    (getAncestor memory pa (memory pb).nHeight).bind fun pa =>
      lastCommonAncestorLoop memory rounds pa (some pb)
  else if (memory pb).nHeight > (memory pa).nHeight then
    (getAncestor memory pb (memory pa).nHeight).bind fun pb =>
      lastCommonAncestorLoop memory rounds (some pa) pb
  else
    lastCommonAncestorLoop memory rounds (some pa) (some pb)

end

/-! ## Blocks whose skip pointers are right -/

/-- The blocks form a forest, and `pskip` is the ancestor at its height. -/
structure Linked (memory : Memory P) (blocks : Set P) : Prop where
  forest : Forest (pprev memory) (nHeight memory) blocks
  pskip : ∀ pindex ∈ blocks, pprev memory pindex ≠ none →
    (memory pindex).pskip = follow (pprev memory)
      (nHeight memory pindex - getSkipHeight (nHeight memory pindex)) pindex

/-- The walk follows `pprev` down to the height. -/
theorem getAncestorWalk_eq {memory : Memory P} {blocks : Set P}
    (linked : Linked memory blocks) {height : Nat} (heightWalk : Nat)
    {pindex : P} (member : pindex ∈ blocks)
    (atHeight : nHeight memory pindex = heightWalk)
    (bound : height ≤ heightWalk) :
    getAncestorWalk memory height heightWalk (some pindex) =
      some (follow (pprev memory) (heightWalk - height) pindex) := by
  induction heightWalk using Nat.strong_induction_on generalizing pindex with
  | h heightWalk hypothesis =>
      rw [getAncestorWalk]
      split_ifs with arrived
      · have none : heightWalk - height = 0 := by omega
        rw [none, follow_zero]
      · have proper : pprev memory pindex ≠ none := by
          intro root
          have zero := linked.forest.root pindex member root
          omega
        dsimp only
        split_ifs with skips
        · have less : getSkipHeight heightWalk < heightWalk :=
            getSkipHeight_lt (by omega)
          have reaches : height ≤ getSkipHeight heightWalk := by
            rcases skips with same | ⟨above, _⟩
            · exact same.ge
            · exact above.le
          have skip := linked.pskip pindex member proper
          rw [atHeight] at skip
          rcases linked.forest.follow_some member
            (heightWalk - getSkipHeight heightWalk) (by omega) with
            ⟨target, inside, reached, sum⟩
          rw [skip, reached, hypothesis _ less inside (by omega) reaches]
          have split : heightWalk - height =
              (heightWalk - getSkipHeight heightWalk) +
                (getSkipHeight heightWalk - height) := by
            omega
          rw [split, follow_add, reached, Option.bind_some]
        · rcases Option.ne_none_iff_exists'.mp proper with ⟨above, parent⟩
          rcases linked.forest.child pindex member above parent with
            ⟨inside, lower⟩
          have split : heightWalk - height =
              heightWalk - 1 - height + 1 := by
            omega
          change getAncestorWalk memory height (heightWalk - 1)
            (pprev memory pindex) = _
          rw [parent, hypothesis _ (by omega) inside (by omega) (by omega),
            split, follow_succ, parent, Option.bind_some]

/-- The block at a height that is reached by following `pprev`, or a null
pointer for a height out of range. -/
def IsAtHeight (memory : Memory P) (pindex : P) (height : Int) :
    Option P → Prop
  | none => height < 0 ∨ height > nHeight memory pindex
  | some ancestor => IsAncestor (pprev memory) ancestor pindex ∧
      nHeight memory ancestor = height

theorem getAncestor_eq {memory : Memory P} {blocks : Set P}
    (linked : Linked memory blocks) {pindex : P} (member : pindex ∈ blocks)
    {height : Nat} (bound : height ≤ nHeight memory pindex) :
    getAncestor memory pindex height =
      some (follow (pprev memory) (nHeight memory pindex - height)
        pindex) := by
  have inside : ¬ ((height : Int) > (memory pindex).nHeight ∨
      (height : Int) < 0) := by
    change ¬ ((height : Int) > nHeight memory pindex ∨ (height : Int) < 0)
    omega
  unfold getAncestor
  dsimp only
  rw [if_neg inside]
  exact getAncestorWalk_eq linked _ member rfl bound

theorem getAncestor_isAtHeight {memory : Memory P} {blocks : Set P}
    (linked : Linked memory blocks) {pindex : P} (member : pindex ∈ blocks)
    (height : Int) :
    ∃ result, getAncestor memory pindex height = some result ∧
      IsAtHeight memory pindex height result := by
  by_cases outside : height > nHeight memory pindex ∨ height < 0
  · exact ⟨none, if_pos outside, outside.symm⟩
  · obtain ⟨steps, rfl⟩ : ∃ steps : Nat, height = steps :=
      ⟨height.toNat, by omega⟩
    have bound : steps ≤ nHeight memory pindex := by omega
    rcases linked.forest.follow_some member
      (nHeight memory pindex - steps) (by omega) with
      ⟨ancestor, _, reached, sum⟩
    refine ⟨some ancestor, ?_, .of_follow reached, by omega⟩
    rw [getAncestor_eq linked member bound, reached]

/-! ## Adding a block -/

theorem Linked.empty (memory : Memory P) : Linked memory ∅ :=
  ⟨⟨fun _ member => member.elim, fun _ member => member.elim⟩,
    fun _ member => member.elim⟩

/-- Objects that are no blocks do not matter. -/
theorem Linked.of_agree {memory memory' : Memory P} {blocks : Set P}
    (linked : Linked memory blocks)
    (agree : ∀ pindex ∈ blocks, memory' pindex = memory pindex) :
    Linked memory' blocks := by
  have links : ∀ pindex ∈ blocks,
      pprev memory' pindex = pprev memory pindex := by
    intro pindex member
    unfold pprev
    rw [agree pindex member]
  have heights : ∀ pindex ∈ blocks,
      nHeight memory' pindex = nHeight memory pindex := by
    intro pindex member
    unfold nHeight
    rw [agree pindex member]
  have forest : Forest (pprev memory') (nHeight memory') blocks := by
    constructor
    · intro pindex member root
      rw [links pindex member] at root
      rw [heights pindex member]
      exact linked.forest.root pindex member root
    · intro pindex member above parent
      rw [links pindex member] at parent
      rcases linked.forest.child pindex member above parent with
        ⟨inside, lower⟩
      refine ⟨inside, ?_⟩
      rw [heights pindex member, heights above inside]
      exact lower
  refine ⟨forest, ?_⟩
  intro pindex member proper
  rw [links pindex member] at proper
  rw [agree pindex member, heights pindex member,
    linked.pskip pindex member proper]
  exact (linked.forest.follow_congr links member _).symm

/-- One more block over blocks that are linked. -/
theorem Linked.insert {memory : Memory P} {blocks : Set P}
    (linked : Linked memory blocks) {pindex : P}
    (root : pprev memory pindex = none → nHeight memory pindex = 0)
    (child : ∀ above, pprev memory pindex = some above →
      above ∈ blocks ∧ nHeight memory pindex = nHeight memory above + 1)
    (pskip : pprev memory pindex ≠ none →
      (memory pindex).pskip = follow (pprev memory)
        (nHeight memory pindex - getSkipHeight (nHeight memory pindex))
        pindex) :
    Linked memory (insert pindex blocks) := by
  refine ⟨⟨?_, ?_⟩, ?_⟩
  · rintro node (rfl | member)
    · exact root
    · exact linked.forest.root node member
  · rintro node (rfl | member) above parent
    · rcases child above parent with ⟨inside, lower⟩
      exact ⟨.inr inside, lower⟩
    · rcases linked.forest.child node member above parent with
        ⟨inside, lower⟩
      exact ⟨.inr inside, lower⟩
  · rintro node (rfl | member)
    · exact pskip
    · exact linked.pskip node member

section

variable [DecidableEq P]

@[simp]
theorem pprev_setSkip (memory : Memory P) (pindex : P) (pskip : Option P) :
    pprev (setSkip memory pindex pskip) = pprev memory := by
  funext other
  by_cases same : other = pindex
  · simp [pprev, setSkip, same]
  · simp [pprev, setSkip, same]

@[simp]
theorem nHeight_setSkip (memory : Memory P) (pindex : P)
    (pskip : Option P) :
    nHeight (setSkip memory pindex pskip) = nHeight memory := by
  funext other
  by_cases same : other = pindex
  · simp [nHeight, setSkip, same]
  · simp [nHeight, setSkip, same]

@[simp]
theorem pskip_setSkip (memory : Memory P) (pindex : P) (pskip : Option P) :
    (setSkip memory pindex pskip pindex).pskip = pskip := by
  simp [setSkip]

@[simp]
theorem pprev_link (memory : Memory P) (pindex : P) (parent : Option P) :
    pprev (link memory pindex parent) pindex = parent := by
  simp [pprev, link]

theorem nHeight_link_none (memory : Memory P) (pindex : P) :
    nHeight (link memory pindex none) pindex = 0 := by
  simp [nHeight, link]

theorem nHeight_link_some (memory : Memory P) {pindex above : P}
    (apart : above ≠ pindex) :
    nHeight (link memory pindex (some above)) pindex =
      nHeight (link memory pindex (some above)) above + 1 := by
  simp [nHeight, link, apart]

/-- `BuildSkip` links a new block with a parent among the linked ones. -/
theorem buildSkip_linked {memory : Memory P} {blocks : Set P}
    (linked : Linked memory blocks) {pindex above : P}
    (fresh : pindex ∉ blocks) (parent : pprev memory pindex = some above)
    (inside : above ∈ blocks)
    (height : nHeight memory pindex = nHeight memory above + 1) :
    ∃ pskip, buildSkip memory pindex = some (setSkip memory pindex pskip) ∧
      Linked (setSkip memory pindex pskip) (insert pindex blocks) := by
  have lower : getSkipHeight (nHeight memory pindex) <
      nHeight memory pindex := getSkipHeight_lt (by omega)
  have skip := getAncestor_eq linked inside
    (show getSkipHeight (nHeight memory pindex) ≤ nHeight memory above by
      omega)
  refine ⟨follow (pprev memory) (nHeight memory above -
    getSkipHeight (nHeight memory pindex)) above, ?_, ?_⟩
  · unfold buildSkip
    rw [show (memory pindex).pprev = some above from parent]
    change (getAncestor memory above
      (getSkipHeight (nHeight memory pindex))).map _ = _
    rw [skip, Option.map_some]
  · have others : Linked (setSkip memory pindex (follow (pprev memory)
        (nHeight memory above - getSkipHeight (nHeight memory pindex))
          above)) blocks :=
      linked.of_agree fun other member =>
        Function.update_of_ne (ne_of_mem_of_not_mem member fresh) _ _
    apply others.insert
    · intro root
      rw [pprev_setSkip, parent] at root
      cases root
    · intro other link
      rw [pprev_setSkip, parent] at link
      cases link
      rw [nHeight_setSkip]
      exact ⟨inside, height⟩
    · intro _
      have steps : nHeight memory pindex -
          getSkipHeight (nHeight memory pindex) =
            nHeight memory above -
              getSkipHeight (nHeight memory pindex) + 1 := by
        omega
      rw [pprev_setSkip, nHeight_setSkip, pskip_setSkip, steps,
        follow_succ, parent, Option.bind_some]

/-- A new block is linked like the others. -/
theorem addBlock_linked {memory : Memory P} {blocks : Set P}
    (linked : Linked memory blocks) {pindex : P} (fresh : pindex ∉ blocks)
    {parent : Option P} (known : ∀ above, parent = some above →
      above ∈ blocks) :
    ∃ memory', addBlock memory pindex parent = some memory' ∧
      Linked memory' (insert pindex blocks) ∧
      pprev memory' pindex = parent ∧
      ∀ other, other ≠ pindex → memory' other = memory other := by
  have apart : ∀ other ∈ blocks, other ≠ pindex :=
    fun other member => ne_of_mem_of_not_mem member fresh
  have others : ∀ other, other ≠ pindex →
      link memory pindex parent other = memory other :=
    fun other different => Function.update_of_ne different _ _
  have before : Linked (link memory pindex parent) blocks :=
    linked.of_agree fun other member => others other (apart other member)
  have self := pprev_link memory pindex parent
  cases parent with
  | none =>
      refine ⟨link memory pindex none, ?_, ?_, self, others⟩
      · unfold addBlock buildSkip
        rw [show (link memory pindex none pindex).pprev = none from self]
      · refine before.insert (fun _ => nHeight_link_none memory pindex) ?_
          (fun proper => absurd self proper)
        intro above parent
        cases self.symm.trans parent
  | some above =>
      have inside := known above rfl
      rcases buildSkip_linked before fresh self inside
        (nHeight_link_some memory (apart above inside)) with
        ⟨pskip, built, linkedAll⟩
      refine ⟨_, built, linkedAll, ?_, ?_⟩
      · rw [pprev_setSkip, self]
      · intro other different
        rw [setSkip, Function.update_of_ne different, others other different]

/-! ## Building a tree -/

/-- The objects are new, and every parent comes before its children. -/
def InOrder : Set P → List (P × Option P) → Prop
  | _, [] => True
  | earlier, (pindex, parent) :: steps =>
      pindex ∉ earlier ∧ (∀ above, parent = some above → above ∈ earlier) ∧
        InOrder (insert pindex earlier) steps

/-- The blocks that the steps add. -/
def added (steps : List (P × Option P)) : Set P :=
  { pindex | pindex ∈ steps.map Prod.fst }

theorem build_linked {steps : List (P × Option P)} {memory : Memory P}
    {earlier : Set P} (linked : Linked memory earlier)
    (inOrder : InOrder earlier steps) :
    ∃ memory', build steps memory = some memory' ∧
      Linked memory' (earlier ∪ added steps) ∧
      (∀ step ∈ steps, pprev memory' step.1 = step.2) ∧
      ∀ pindex ∈ earlier, memory' pindex = memory pindex := by
  induction steps generalizing memory earlier with
  | nil =>
      refine ⟨memory, rfl, ?_, nofun, fun _ _ => rfl⟩
      simpa [added] using linked
  | cons step steps hypothesis =>
      rcases step with ⟨pindex, parent⟩
      rcases inOrder with ⟨fresh, known, later⟩
      rcases addBlock_linked linked fresh known with
        ⟨middle, first, linkedAll, self, others⟩
      rcases hypothesis linkedAll later with
        ⟨memory', rest, linkedLater, parents, kept⟩
      refine ⟨memory', ?_, ?_, ?_, ?_⟩
      · rw [build, first, Option.bind_some, rest]
      · have same : insert pindex earlier ∪ added steps =
            earlier ∪ added ((pindex, parent) :: steps) := by
          ext other
          simp [added]
          tauto
        rwa [same] at linkedLater
      · rw [List.forall_mem_cons]
        refine ⟨?_, parents⟩
        unfold pprev at self ⊢
        rw [kept pindex (Set.mem_insert _ _), self]
      · intro other member
        rw [kept other (.inr member)]
        exact others other (ne_of_mem_of_not_mem member fresh)

/-! ## Common ancestors -/

/-- Two blocks at one height meet where their paths do. -/
theorem lastCommonAncestorLoop_deepest {memory : Memory P} {blocks : Set P}
    (linked : Linked memory blocks) (rounds : Nat) {pa pb : P}
    (memberA : pa ∈ blocks) (memberB : pb ∈ blocks)
    (level : nHeight memory pa = nHeight memory pb)
    (enough : nHeight memory pa + 1 < rounds) :
    ∃ result, lastCommonAncestorLoop memory rounds (some pa) (some pb) =
        some result ∧
      IsDeepestCommon (pprev memory) (nHeight memory) pa pb result := by
  induction rounds generalizing pa pb with
  | zero => omega
  | succ rounds hypothesis =>
      rw [lastCommonAncestorLoop]
      split_ifs with same
      · cases same
        exact ⟨some pa, rfl, linked.forest.isDeepestCommon_self memberA⟩
      · change ∃ result, lastCommonAncestorLoop memory rounds
          (pprev memory pa) (pprev memory pb) = some result ∧ _
        cases linkA : pprev memory pa with
        | none =>
            have rootA := linked.forest.root pa memberA linkA
            cases linkB : pprev memory pb with
            | none =>
                have rootB := linked.forest.root pb memberB linkB
                obtain ⟨more, rfl⟩ : ∃ more, rounds = more + 1 :=
                  ⟨rounds - 1, by omega⟩
                exact ⟨none, by simp [lastCommonAncestorLoop],
                  linked.forest.isDeepestCommon_roots memberA memberB
                    rootA rootB same⟩
            | some b =>
                have lower := (linked.forest.child pb memberB b linkB).2
                omega
        | some a =>
            rcases linked.forest.child pa memberA a linkA with
              ⟨insideA, lowerA⟩
            cases linkB : pprev memory pb with
            | none =>
                have rootB := linked.forest.root pb memberB linkB
                omega
            | some b =>
                rcases linked.forest.child pb memberB b linkB with
                  ⟨insideB, lowerB⟩
                rcases hypothesis insideA insideB (by omega) (by omega) with
                  ⟨result, found, deepest⟩
                exact ⟨result, found, linked.forest.isDeepestCommon_parents
                  memberA memberB level same linkA linkB deepest⟩

theorem lastCommonAncestor_deepest {memory : Memory P} {blocks : Set P}
    (linked : Linked memory blocks) {pa pb : P} (memberA : pa ∈ blocks)
    (memberB : pb ∈ blocks) {rounds : Nat}
    (enough : min (nHeight memory pa) (nHeight memory pb) + 1 < rounds) :
    ∃ result, lastCommonAncestor memory rounds pa pb = some result ∧
      IsDeepestCommon (pprev memory) (nHeight memory) pa pb result := by
  change ∃ result, (if nHeight memory pa > nHeight memory pb then
    (getAncestor memory pa (nHeight memory pb)).bind _
    else if nHeight memory pb > nHeight memory pa then
      (getAncestor memory pb (nHeight memory pa)).bind _
    else _) = some result ∧ _
  split_ifs with higher lower
  · rcases linked.forest.follow_some memberA
      (nHeight memory pa - nHeight memory pb) (by omega) with
      ⟨a, inside, reached, sum⟩
    rcases lastCommonAncestorLoop_deepest linked rounds inside memberB
      (by omega) (by omega) with ⟨result, found, deepest⟩
    refine ⟨result, ?_, linked.forest.isDeepestCommon_level memberA memberB
      (.of_follow reached) (by omega) deepest⟩
    rw [getAncestor_eq linked memberA higher.le, reached, Option.bind_some,
      found]
  · rcases linked.forest.follow_some memberB
      (nHeight memory pb - nHeight memory pa) (by omega) with
      ⟨b, inside, reached, sum⟩
    rcases lastCommonAncestorLoop_deepest linked rounds memberA inside
      (by omega) (by omega) with ⟨result, found, deepest⟩
    refine ⟨result, ?_, (linked.forest.isDeepestCommon_level memberB memberA
      (.of_follow reached) (by omega) deepest.symm).symm⟩
    rw [getAncestor_eq linked memberB lower.le, reached, Option.bind_some,
      found]
  · exact lastCommonAncestorLoop_deepest linked rounds memberA memberB
      (by omega) (by omega)

/--
For blocks built one after another with `BuildSkip`, `GetAncestor` returns the
block that `pprev` leads to at each height, and a null pointer out of range;
`LastCommonAncestor` returns the deepest common ancestor.
-/
theorem skip_list_ancestors (steps : List (P × Option P))
    (inOrder : InOrder ∅ steps) (start : Memory P) :
    ∃ memory, build steps start = some memory ∧
      (∀ step ∈ steps, pprev memory step.1 = step.2) ∧
      (∀ pindex ∈ added steps, ∀ height : Int,
        ∃ result, getAncestor memory pindex height = some result ∧
          IsAtHeight memory pindex height result) ∧
      ∀ pa ∈ added steps, ∀ pb ∈ added steps, ∀ rounds,
        min (nHeight memory pa) (nHeight memory pb) + 1 < rounds →
          ∃ result, lastCommonAncestor memory rounds pa pb = some result ∧
            IsDeepestCommon (pprev memory) (nHeight memory) pa pb
              result := by
  rcases build_linked (.empty start) inOrder with
    ⟨memory, built, linked, parents, _⟩
  rw [Set.empty_union] at linked
  refine ⟨memory, built, parents, ?_, ?_⟩
  · intro pindex member height
    exact getAncestor_isAtHeight linked member height
  · intro pa memberA pb memberB rounds enough
    exact lastCommonAncestor_deepest linked memberA memberB enough

/-- Genesis, two blocks after it, and a branch after the first of them. -/
def fourBlocks : List (Nat × Option Nat) :=
  [(0, none), (1, some 0), (2, some 1), (3, some 1)]

theorem skip_list_ancestors_fourBlocks :
    ∃ memory, build fourBlocks (fun _ => ⟨none, none, 0⟩) = some memory ∧
      (∃ result, getAncestor memory 2 0 = some result ∧
        IsAtHeight memory 2 0 result) ∧
      ∃ rounds result,
        lastCommonAncestor memory rounds 2 3 = some result ∧
          IsDeepestCommon (pprev memory) (nHeight memory) 2 3 result := by
  rcases skip_list_ancestors fourBlocks (by simp [fourBlocks, InOrder])
    (fun _ => ⟨none, none, 0⟩) with ⟨memory, built, _, heights, common⟩
  have two : 2 ∈ added fourBlocks := by simp [added, fourBlocks]
  have three : 3 ∈ added fourBlocks := by simp [added, fourBlocks]
  exact ⟨memory, built, heights 2 two 0, _,
    common 2 two 3 three _ (Nat.lt_succ_self _)⟩

end

end PrivateDatagram.Chainstate.SkipList
