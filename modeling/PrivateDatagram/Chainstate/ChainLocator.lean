import PrivateDatagram.Chainstate.SkipList

/-!
# Active chains and locators

A `CChain` is an array with the block of each height.  `SetTip` resizes the
array and writes the ancestors of the new tip from the top down until it meets
an entry that is right already; everything below that entry was written for
an earlier tip and is right too.

A locator lists hashes of ancestors of a block, one height after the other at
first and then at distances that double.  It finds the ancestors in the array
or with the skip pointers.

A null pointer is `none` within the result.  No result at all means that a
null pointer was dereferenced, an access left the array, or that the loop
needs more rounds.
-/

namespace PrivateDatagram.Chainstate.ChainLocator

open Library.ParentForest SkipList

variable {P : Type} {H : Type}

/-! ## The functions -/

/-- `CChain`. -/
structure CChain (P : Type) where
  vChain : List (Option P) := []
deriving DecidableEq, Repr

/-- `CChain::Genesis`. -/
def CChain.genesis (chain : CChain P) : Option P :=
  if chain.vChain.length > 0 then chain.vChain[0]?.join else none

/-- `CChain::Tip` without `fProofOfStake`. -/
def CChain.tip (chain : CChain P) : Option P :=
  if chain.vChain.length < 1 then none
  else chain.vChain[chain.vChain.length - 1]?.join

/-- `CChain::operator[]`. -/
def CChain.entry (chain : CChain P) (nHeight : Int) : Option P :=
  if nHeight < 0 ∨ nHeight ≥ chain.vChain.length then none
  else chain.vChain[nHeight.toNat]?.join

/-- `CChain::Height`. -/
def CChain.height (chain : CChain P) : Int :=
  chain.vChain.length - 1

/-- `std::vector::resize`. -/
def resize (vChain : List (Option P)) (size : Nat) : List (Option P) :=
  vChain.take size ++ List.replicate (size - vChain.length) none

/-- `CBlockLocator`. -/
structure CBlockLocator (H : Type) where
  vHave : List H
deriving DecidableEq, Repr

section

variable [DecidableEq P]

/-- `CChain::Contains`. -/
def CChain.contains (chain : CChain P) (memory : Memory P) (pindex : P) :
    Bool :=
  chain.entry (nHeight memory pindex) = some pindex

/-- The loop of `SetTip`. -/
def setTipLoop (memory : Memory P) :
    Nat → List (Option P) → Option P → Option (List (Option P))
  | 0, _, _ => none
  | _ + 1, vChain, none => some vChain
  | rounds + 1, vChain, some pindex =>
      match vChain[nHeight memory pindex]? with
      | none => none
      | some entry =>
          if entry = some pindex then
            some vChain
          else
            setTipLoop memory rounds
              (vChain.set (nHeight memory pindex) (some pindex))
              (pprev memory pindex)

/-- `CChain::SetTip`. -/
def setTip (memory : Memory P) (rounds : Nat) (chain : CChain P) :
    Option P → Option (CChain P)
  | none => some { chain with vChain := [] }
  | some pindex =>
      (setTipLoop memory rounds
        (resize chain.vChain (nHeight memory pindex + 1)) (some pindex)).map
          fun vChain => { chain with vChain := vChain }

/-- One call of `SetTip` after the other. -/
def setTips (memory : Memory P) (rounds : Nat) :
    CChain P → List (Option P) → Option (CChain P)
  | chain, [] => some chain
  | chain, pindex :: later =>
      (setTip memory rounds chain pindex).bind fun chain =>
        setTips memory rounds chain later

/-- The loop of `GetLocator`; `nStep` is an `int`. -/
def getLocatorLoop (memory : Memory P) (getBlockHash : P → H)
    (chain : CChain P) :
    Nat → Int → List H → Option P → Option (List H)
  | 0, _, _, _ => none
  | _ + 1, _, vHave, none => some vHave
  | rounds + 1, nStep, vHave, some pindex =>
      let vHave := vHave ++ [getBlockHash pindex]
      if nHeight memory pindex = 0 then
        some vHave
      else
        let height := max ((nHeight memory pindex : Int) - nStep) 0
        let next :=
          if chain.contains memory pindex then some (chain.entry height)
          else getAncestor memory pindex height
        let nStep :=
          if vHave.length > 10 then (nStep * 2).bmod (2 ^ 32) else nStep
        next.bind (getLocatorLoop memory getBlockHash chain rounds nStep vHave)

/-- `CChain::GetLocator`. -/
def getLocator (memory : Memory P) (getBlockHash : P → H) (rounds : Nat)
    (chain : CChain P) (pindex : Option P) : Option (CBlockLocator H) :=
  let pindex := if pindex = none then chain.tip else pindex
  (getLocatorLoop memory getBlockHash chain rounds 1 [] pindex).map
    CBlockLocator.mk

/-- The loop of `FindFork`. -/
def findForkLoop (memory : Memory P) (chain : CChain P) :
    Nat → Option P → Option (Option P)
  | 0, _ => none
  | _ + 1, none => some none
  | rounds + 1, some pindex =>
      if chain.contains memory pindex then some (some pindex)
      else findForkLoop memory chain rounds (pprev memory pindex)

/-- `CChain::FindFork`. -/
def findFork (memory : Memory P) (rounds : Nat) (chain : CChain P)
    (pindex : P) : Option (Option P) :=
  if (nHeight memory pindex : Int) > chain.height then
    (getAncestor memory pindex chain.height).bind
      (findForkLoop memory chain rounds)
  else
    findForkLoop memory chain rounds (some pindex)

/-- `FindForkInGlobalIndex`. -/
def findForkInGlobalIndex (memory : Memory P) (mapBlockIndex : H → Option P)
    (chain : CChain P) (locator : CBlockLocator H) : Option P :=
  go locator.vHave
where
  /-- The loop over the hashes. -/
  go : List H → Option P
    | [] => chain.genesis
    | hash :: vHave =>
        match mapBlockIndex hash with
        | none => go vHave
        | some pindex =>
            if chain.contains memory pindex then some pindex else go vHave

end

/-! ## Trees of blocks -/

/-- Blocks that are added one after another, each but genesis to a parent. -/
structure BlockTree (P : Type) where
  genesis : P
  steps : List (P × Option P)
  inOrder : InOrder ∅ ((genesis, none) :: steps)
  children : ∀ step ∈ steps, step.2 ≠ none

def BlockTree.blocks (tree : BlockTree P) : Set P :=
  added ((tree.genesis, none) :: tree.steps)

/-- The blocks are linked with `BuildSkip`. -/
def BlockTree.build [DecidableEq P] (tree : BlockTree P) (start : Memory P) :
    Option (Memory P) :=
  SkipList.build ((tree.genesis, none) :: tree.steps) start

/-! ## What the array holds -/

/-- The array of a chain with a tip, which is none before the first one. -/
def Shows (memory : Memory P) (blocks : Set P) (chain : CChain P) :
    Option P → Prop
  | none => chain.vChain = []
  | some tip => tip ∈ blocks ∧
      chain.vChain.length = nHeight memory tip + 1 ∧
      ∀ height ≤ nHeight memory tip, chain.vChain[height]? =
        some (follow (pprev memory) (nHeight memory tip - height) tip)

/-- Below each entry that is set stand its ancestors. -/
def Settled (memory : Memory P) (vChain : List (Option P)) : Prop :=
  ∀ height pindex, vChain[height]? = some (some pindex) →
    nHeight memory pindex = height ∧ ∀ below ≤ height,
      vChain[below]? =
        some (follow (pprev memory) (height - below) pindex)

section

variable {memory : Memory P} {blocks : Set P} {chain : CChain P}

theorem getElem?_resize (vChain : List (Option P)) (size index : Nat) :
    (resize vChain size)[index]? =
      if index < size then some vChain[index]?.join else none := by
  unfold resize
  rw [List.getElem?_append, List.length_take, List.getElem?_take,
    List.getElem?_replicate]
  split_ifs with one two three <;> try omega
  · rw [List.getElem?_eq_getElem (by omega)]
    rfl
  · rw [List.getElem?_eq_none (by omega)]
    rfl
  · rfl

theorem length_resize (vChain : List (Option P)) (size : Nat) :
    (resize vChain size).length = size := by
  unfold resize
  rw [List.length_append, List.length_take, List.length_replicate]
  omega

/-- The entries of a chain are settled, also in an array of another size. -/
theorem Shows.settled (linked : Linked memory blocks) {tip : Option P}
    (shows : Shows memory blocks chain tip) (size : Nat) :
    Settled memory (resize chain.vChain size) := by
  intro height pindex entry
  rw [getElem?_resize] at entry
  split_ifs at entry with inside
  cases tip with
  | none =>
      rw [shows] at entry
      cases entry
  | some tip =>
      rcases shows with ⟨member, length, entries⟩
      have bound : height ≤ nHeight memory tip := by
        by_contra above
        rw [List.getElem?_eq_none (by omega)] at entry
        cases entry
      rw [entries height bound] at entry
      have reached : follow (pprev memory) (nHeight memory tip - height)
          tip = some pindex := Option.some.inj entry
      have sum := (linked.forest.follow_height member reached).2
      refine ⟨by omega, ?_⟩
      intro below low
      have split : nHeight memory tip - below =
          (nHeight memory tip - height) + (height - below) := by
        omega
      rw [getElem?_resize, if_pos (by omega), entries below (by omega),
        split, follow_add, reached]
      rfl

theorem Shows.entry {tip : P} (shows : Shows memory blocks chain tip)
    {height : Nat} (bound : height ≤ nHeight memory tip) :
    chain.entry height =
      follow (pprev memory) (nHeight memory tip - height) tip := by
  rcases shows with ⟨_, length, entries⟩
  unfold CChain.entry
  rw [if_neg (by omega), Int.toNat_natCast, entries height bound]
  rfl

theorem Shows.entry_above {tip : P} (shows : Shows memory blocks chain tip)
    {height : Nat} (above : nHeight memory tip < height) :
    chain.entry height = none := by
  unfold CChain.entry
  rw [if_pos (by have length := shows.2.1; omega)]

theorem Shows.tip {tip : Option P} (shows : Shows memory blocks chain tip) :
    chain.tip = tip := by
  unfold CChain.tip
  cases tip with
  | none =>
      rw [show chain.vChain = [] from shows]
      rfl
  | some tip =>
      rcases shows with ⟨_, length, entries⟩
      rw [if_neg (by omega), length, Nat.add_sub_cancel,
        entries _ le_rfl, Nat.sub_self]
      rfl

/-- All blocks descend from one that has no parent. -/
def HasGenesis (memory : Memory P) (blocks : Set P) (genesis : P) : Prop :=
  genesis ∈ blocks ∧
    ∀ node ∈ blocks, pprev memory node = none → node = genesis

theorem HasGenesis.eq_of_height (linked : Linked memory blocks) {genesis : P}
    (root : HasGenesis memory blocks genesis) {node : P}
    (member : node ∈ blocks) (zero : nHeight memory node = 0) :
    node = genesis := by
  refine root.2 node member (Option.eq_none_iff_forall_ne_some.mpr ?_)
  intro above link
  have lower := (linked.forest.child node member above link).2
  omega

theorem HasGenesis.isAncestor (linked : Linked memory blocks) {genesis : P}
    (root : HasGenesis memory blocks genesis) {node : P}
    (member : node ∈ blocks) :
    IsAncestor (pprev memory) genesis node := by
  rcases linked.forest.follow_some member (nHeight memory node) le_rfl with
    ⟨lowest, inside, reached, sum⟩
  rw [← root.eq_of_height linked inside (by omega)]
  exact .of_follow reached

/-! ## The trail of a locator -/

/-- The blocks whose hashes a locator lists. -/
structure IsTrail (memory : Memory P) (pindex : P) (trail : List P) :
    Prop where
  starts : trail.head? = some pindex
  ends : ∃ last, trail.getLast? = some last ∧ nHeight memory last = 0
  ancestors : ∀ node ∈ trail, IsAncestor (pprev memory) node pindex
  descending : trail.Pairwise fun first second =>
    nHeight memory second < nHeight memory first

theorem IsTrail.single {pindex : P} (root : nHeight memory pindex = 0) :
    IsTrail memory pindex [pindex] where
  starts := rfl
  ends := ⟨pindex, rfl, root⟩
  ancestors := by
    rintro node (_ | ⟨_, ⟨⟩⟩)
    exact .refl pindex
  descending := List.pairwise_singleton _ _

/-- A trail is extended by a block above it. -/
theorem IsTrail.cons (linked : Linked memory blocks) {pindex next : P}
    (member : pindex ∈ blocks) {trail : List P}
    (isTrail : IsTrail memory next trail)
    (isAncestor : IsAncestor (pprev memory) next pindex)
    (lower : nHeight memory next < nHeight memory pindex) :
    IsTrail memory pindex (pindex :: trail) where
  starts := rfl
  ends := by
    rcases isTrail.ends with ⟨last, ends, root⟩
    refine ⟨last, ?_, root⟩
    rw [List.getLast?_cons, ends]
    rfl
  ancestors := by
    rintro node (_ | ⟨_, inside⟩)
    · exact .refl pindex
    · exact (isTrail.ancestors node inside).trans isAncestor
  descending := by
    have inside := (linked.forest.ancestor_height member isAncestor).1
    refine List.pairwise_cons.mpr ⟨?_, isTrail.descending⟩
    intro node onTrail
    have low := (linked.forest.ancestor_height inside
      (isTrail.ancestors node onTrail)).2.1
    omega

/-! ## Writing the array -/

variable [DecidableEq P]

/-- The loop writes the ancestors of the block, or finds them written. -/
theorem setTipLoop_fills (linked : Linked memory blocks) (rounds : Nat)
    {vChain : List (Option P)} {pindex : P} (member : pindex ∈ blocks)
    (enough : nHeight memory pindex + 1 < rounds)
    (large : nHeight memory pindex < vChain.length)
    (settled : ∀ height ≤ nHeight memory pindex, ∀ node,
      vChain[height]? = some (some node) →
        nHeight memory node = height ∧ ∀ below ≤ height,
          vChain[below]? =
            some (follow (pprev memory) (height - below) node)) :
    ∃ vChain', setTipLoop memory rounds vChain (some pindex) =
        some vChain' ∧
      vChain'.length = vChain.length ∧
      (∀ height ≤ nHeight memory pindex, vChain'[height]? = some
        (follow (pprev memory) (nHeight memory pindex - height) pindex)) ∧
      ∀ height, nHeight memory pindex < height →
        vChain'[height]? = vChain[height]? := by
  induction rounds generalizing vChain pindex with
  | zero => omega
  | succ rounds hypothesis =>
      rw [setTipLoop, List.getElem?_eq_getElem large]
      dsimp only
      split_ifs with found
      · have entry : vChain[nHeight memory pindex]? = some (some pindex) := by
          rw [List.getElem?_eq_getElem large, found]
        exact ⟨vChain, rfl, rfl, (settled _ le_rfl pindex entry).2,
          fun _ _ => rfl⟩
      · -- The entries below are as they were when the loop goes on there.
        have others : ∀ height, height ≠ nHeight memory pindex →
            (vChain.set (nHeight memory pindex) (some pindex))[height]? =
              vChain[height]? :=
          fun height apart => List.getElem?_set_ne apart.symm
        have written : (vChain.set (nHeight memory pindex)
            (some pindex))[nHeight memory pindex]? = some (some pindex) :=
          List.getElem?_set_self large
        cases link : pprev memory pindex with
        | none =>
            have zero := linked.forest.root pindex member link
            obtain ⟨more, rfl⟩ : ∃ more, rounds = more + 1 :=
              ⟨rounds - 1, by omega⟩
            refine ⟨_, rfl, List.length_set, ?_, ?_⟩
            · intro height bound
              have same : height = nHeight memory pindex := by omega
              rw [same, written, Nat.sub_self, follow_zero]
            · intro height above
              exact others height above.ne'
        | some above =>
            rcases linked.forest.child pindex member above link with
              ⟨inside, lower⟩
            have shorter : nHeight memory above <
                (vChain.set (nHeight memory pindex)
                  (some pindex)).length := by
              rw [List.length_set]
              omega
            rcases hypothesis inside (by omega) shorter (by
                intro height bound node entry
                rw [others height (by omega)] at entry
                rcases settled height (by omega) node entry with
                  ⟨level, ancestors⟩
                refine ⟨level, fun below low => ?_⟩
                rw [others below (by omega), ancestors below low]) with
              ⟨vChain', ran, length, filled, kept⟩
            refine ⟨vChain', ran, length.trans List.length_set, ?_, ?_⟩
            · intro height bound
              rcases bound.lt_or_eq with less | same
              · have steps : nHeight memory pindex - height =
                    nHeight memory above - height + 1 := by
                  omega
                rw [filled height (by omega), steps, follow_succ, link,
                  Option.bind_some]
              · rw [kept height (by omega), same, written, Nat.sub_self,
                  follow_zero]
            · intro height higher
              rw [kept height (by omega), others height higher.ne']

/-- `SetTip` makes the array show the new tip, whatever it showed before. -/
theorem setTip_shows (linked : Linked memory blocks) {rounds : Nat}
    (enough : ∀ pindex ∈ blocks, nHeight memory pindex + 1 < rounds)
    {tip : Option P} (shows : Shows memory blocks chain tip)
    {pindex : Option P} (member : ∀ node ∈ pindex, node ∈ blocks) :
    ∃ chain', setTip memory rounds chain pindex = some chain' ∧
      Shows memory blocks chain' pindex := by
  cases pindex with
  | none => exact ⟨_, rfl, rfl⟩
  | some pindex =>
      have inside := member pindex rfl
      have length := length_resize chain.vChain (nHeight memory pindex + 1)
      rcases setTipLoop_fills linked rounds inside (enough pindex inside)
        ((Nat.lt_succ_self _).trans_eq length.symm)
        (fun height _ => shows.settled linked _ height) with
        ⟨vChain', ran, size, filled, _⟩
      refine ⟨⟨vChain'⟩, ?_, inside, size.trans length, filled⟩
      rw [setTip, ran, Option.map_some]

/-- The array shows the last tip after any number of calls. -/
theorem setTips_shows (linked : Linked memory blocks) {rounds : Nat}
    (enough : ∀ pindex ∈ blocks, nHeight memory pindex + 1 < rounds)
    {tip : Option P} (shows : Shows memory blocks chain tip)
    {tips : List (Option P)}
    (member : ∀ pindex, some pindex ∈ tips → pindex ∈ blocks) :
    ∃ chain', setTips memory rounds chain tips = some chain' ∧
      Shows memory blocks chain' (tips.getLastD tip) := by
  induction tips generalizing chain tip with
  | nil => exact ⟨chain, rfl, shows⟩
  | cons pindex later hypothesis =>
      have first : ∀ node ∈ pindex, node ∈ blocks := by
        rintro node ⟨⟩
        exact member node List.mem_cons_self
      rcases setTip_shows linked enough shows first with
        ⟨middle, set, showsMiddle⟩
      rcases hypothesis showsMiddle
        (fun node inside => member node (List.mem_cons_of_mem _ inside)) with
        ⟨chain', ran, showsLast⟩
      refine ⟨chain', ?_, ?_⟩
      · rw [setTips, set, Option.bind_some, ran]
      · rw [List.getLastD_cons]
        exact showsLast

/-- The chain contains the ancestors of its tip. -/
theorem Shows.contains_iff (linked : Linked memory blocks) {tip : Option P}
    (shows : Shows memory blocks chain tip) (pindex : P) :
    chain.contains memory pindex ↔
      ∃ top, tip = some top ∧ IsAncestor (pprev memory) pindex top := by
  unfold CChain.contains
  rw [decide_eq_true_iff]
  cases tip with
  | none =>
      have empty : chain.entry (nHeight memory pindex) = none := by
        unfold CChain.entry
        rw [show chain.vChain = [] from shows]
        simp
      simp [empty]
  | some tip =>
      constructor
      · intro entry
        refine ⟨tip, rfl, ?_⟩
        by_cases bound : nHeight memory pindex ≤ nHeight memory tip
        · rw [shows.entry bound] at entry
          exact .of_follow entry
        · rw [shows.entry_above (by omega)] at entry
          cases entry
      · rintro ⟨top, same, isAncestor⟩
        cases same
        rcases linked.forest.ancestor_height shows.1 isAncestor with
          ⟨_, bound, reached⟩
        rw [shows.entry bound, reached]

/-! ## The last common block -/

theorem findForkLoop_deepest (linked : Linked memory blocks)
    (rounds : Nat) {tip : P} (shows : Shows memory blocks chain (some tip))
    {pindex : P} (member : pindex ∈ blocks)
    (enough : nHeight memory pindex + 1 < rounds) :
    ∃ result, findForkLoop memory chain rounds (some pindex) =
        some result ∧
      IsDeepestCommon (pprev memory) (nHeight memory) pindex tip result := by
  have contained : ∀ node, chain.contains memory node ↔
      IsAncestor (pprev memory) node tip := by
    intro node
    rw [shows.contains_iff linked]
    simp
  induction rounds generalizing pindex with
  | zero => omega
  | succ rounds hypothesis =>
      rw [findForkLoop]
      split_ifs with found
      · refine ⟨some pindex, rfl, .refl pindex, (contained _).mp found, ?_⟩
        intro node onPindex _
        exact (linked.forest.ancestor_height member onPindex).2.1
      · rw [contained] at found
        cases link : pprev memory pindex with
        | none =>
            have zero := linked.forest.root pindex member link
            obtain ⟨more, rfl⟩ : ∃ more, rounds = more + 1 :=
              ⟨rounds - 1, by omega⟩
            refine ⟨none, rfl, ?_⟩
            rintro node ⟨onPindex, onTip⟩
            have low := (linked.forest.ancestor_height member onPindex).2.1
            have same := linked.forest.ancestor_unique member onPindex
              (.refl pindex) (by omega)
            exact found (same ▸ onTip)
        | some above =>
            rcases linked.forest.child pindex member above link with
              ⟨inside, lower⟩
            rcases hypothesis inside (by omega) with
              ⟨result, ran, deepest⟩
            refine ⟨result, ran, deepest.congr fun node => ⟨?_, ?_⟩⟩
            · rintro ⟨onAbove, onTip⟩
              exact ⟨isAncestor_of_parent link onAbove, onTip⟩
            · rintro ⟨onPindex, onTip⟩
              have low := (linked.forest.ancestor_height member onPindex).2.1
              have less : nHeight memory node < nHeight memory pindex := by
                refine lt_of_le_of_ne low fun same => found ?_
                rwa [← linked.forest.ancestor_unique member onPindex
                  (.refl pindex) same]
              rcases linked.forest.isAncestor_parent member onPindex less with
                ⟨_, link', onAbove⟩
              cases link.symm.trans link'
              exact ⟨onAbove, onTip⟩

theorem findFork_deepest (linked : Linked memory blocks) {rounds : Nat}
    (enough : ∀ pindex ∈ blocks, nHeight memory pindex + 1 < rounds)
    {tip : P} (shows : Shows memory blocks chain (some tip)) {pindex : P}
    (member : pindex ∈ blocks) :
    ∃ result, findFork memory rounds chain pindex = some result ∧
      IsDeepestCommon (pprev memory) (nHeight memory) pindex tip result := by
  have height : chain.height = nHeight memory tip := by
    have length := shows.2.1
    unfold CChain.height
    omega
  unfold findFork
  rw [height]
  split_ifs with higher
  · rcases linked.forest.follow_some member
      (nHeight memory pindex - nHeight memory tip) (by omega) with
      ⟨lowered, inside, reached, sum⟩
    rcases findForkLoop_deepest linked rounds shows inside
      (enough lowered inside) with ⟨result, ran, deepest⟩
    refine ⟨result, ?_, linked.forest.isDeepestCommon_level member shows.1
      (.of_follow reached) (by omega) deepest⟩
    rw [getAncestor_eq linked member (by omega), reached, Option.bind_some,
      ran]
  · exact findForkLoop_deepest linked rounds shows member
      (enough pindex member)

/-! ## The locator -/

/-- The array and the skip pointers lead to the same ancestor. -/
theorem next_ancestor (linked : Linked memory blocks) {tip : Option P}
    (shows : Shows memory blocks chain tip) {pindex : P}
    (member : pindex ∈ blocks) {height : Nat}
    (bound : height ≤ nHeight memory pindex) :
    ∃ next ∈ blocks,
      (if chain.contains memory pindex then some (chain.entry height)
        else getAncestor memory pindex height) = some (some next) ∧
      IsAncestor (pprev memory) next pindex ∧
      nHeight memory next = height := by
  rcases linked.forest.follow_some member
    (nHeight memory pindex - height) (by omega) with
    ⟨next, inside, reached, sum⟩
  refine ⟨next, inside, ?_, .of_follow reached, by omega⟩
  split_ifs with contained
  · rcases (shows.contains_iff linked pindex).mp contained with
      ⟨top, same, isAncestor⟩
    subst same
    rcases linked.forest.ancestor_height shows.1 isAncestor with
      ⟨_, low, passed⟩
    have split : nHeight memory top - height =
        (nHeight memory top - nHeight memory pindex) +
          (nHeight memory pindex - height) := by
      omega
    rw [shows.entry (bound.trans low), split, follow_add, passed,
      Option.bind_some, reached]
  · rw [getAncestor_eq linked member bound, reached]

/--
The loop lists a trail.  The distance is doubled only while it is at most what
has been descended, so it stays an `int` until genesis is reached.
-/
theorem getLocatorLoop_trail (linked : Linked memory blocks)
    {tip : Option P} (shows : Shows memory blocks chain tip)
    (getBlockHash : P → H) (rounds : Nat) {nStep : Int} (vHave : List H)
    {pindex : P} (member : pindex ∈ blocks)
    (enough : nHeight memory pindex < rounds)
    (fits : nHeight memory pindex = 0 ∨
      1 ≤ nStep ∧ nHeight memory pindex + nStep < 2 ^ 31) :
    ∃ trail, getLocatorLoop memory getBlockHash chain rounds nStep vHave
        (some pindex) = some (vHave ++ trail.map getBlockHash) ∧
      IsTrail memory pindex trail := by
  induction rounds generalizing nStep vHave pindex with
  | zero => omega
  | succ rounds hypothesis =>
      rw [getLocatorLoop]
      dsimp only
      by_cases root : nHeight memory pindex = 0
      · rw [if_pos root]
        exact ⟨[pindex], rfl, .single root⟩
      · rw [if_neg root]
        rcases fits.resolve_left root with ⟨positive, sum⟩
        obtain ⟨height, level⟩ : ∃ height : Nat,
            max ((nHeight memory pindex : Int) - nStep) 0 = height :=
          ⟨_, (Int.toNat_of_nonneg (le_max_right _ _)).symm⟩
        have bound : height ≤ nHeight memory pindex := by omega
        rcases next_ancestor linked shows member bound with
          ⟨next, inside, found, isAncestor, same⟩
        have later : nHeight memory next = 0 ∨
            1 ≤ (if (vHave ++ [getBlockHash pindex]).length > 10 then
                (nStep * 2).bmod (2 ^ 32) else nStep) ∧
              nHeight memory next +
                (if (vHave ++ [getBlockHash pindex]).length > 10 then
                  (nStep * 2).bmod (2 ^ 32) else nStep) < 2 ^ 31 := by
          rw [same]
          refine or_iff_not_imp_left.mpr fun climbing => ?_
          split_ifs
          · have exact : (nStep * 2).bmod (2 ^ 32) = nStep * 2 :=
              Int.bmod_eq_of_le (by omega) (by omega)
            omega
          · omega
        rcases hypothesis (vHave ++ [getBlockHash pindex]) inside
          (by omega) later with ⟨trail, ran, isTrail⟩
        refine ⟨pindex :: trail, ?_,
          isTrail.cons linked member isAncestor (by omega)⟩
        rw [level, found, Option.bind_some, ran, List.map_cons,
          List.append_assoc, List.singleton_append]

/-! ## The locator in another chain -/

/-- The highest block on a chain among those whose hashes are listed. -/
structure IsHighestListed (memory : Memory P) (blocks : Set P)
    (getBlockHash : P → H) (vHave : List H) (tip pindex : P) : Prop where
  listed : getBlockHash pindex ∈ vHave
  onChain : IsAncestor (pprev memory) pindex tip
  highest : ∀ node ∈ blocks, getBlockHash node ∈ vHave →
    IsAncestor (pprev memory) node tip →
      nHeight memory node ≤ nHeight memory pindex

/-- The search stops at the first block of a trail that is on the chain. -/
theorem findForkInGlobalIndex_trail (linked : Linked memory blocks)
    {tip : P} (shows : Shows memory blocks chain (some tip))
    {getBlockHash : P → H} {mapBlockIndex : H → Option P}
    (indexed : ∀ pindex ∈ blocks,
      mapBlockIndex (getBlockHash pindex) = some pindex)
    {trail : List P} (members : ∀ node ∈ trail, node ∈ blocks)
    (descending : trail.Pairwise fun first second =>
      nHeight memory second < nHeight memory first)
    (meets : ∃ node ∈ trail, IsAncestor (pprev memory) node tip) :
    ∃ pindex ∈ trail,
      findForkInGlobalIndex.go memory mapBlockIndex chain
          (trail.map getBlockHash) = some pindex ∧
        IsAncestor (pprev memory) pindex tip ∧
        ∀ node ∈ trail, IsAncestor (pprev memory) node tip →
          nHeight memory node ≤ nHeight memory pindex := by
  induction trail with
  | nil =>
      rcases meets with ⟨_, listed, _⟩
      cases listed
  | cons first later hypothesis =>
      have inside := members first List.mem_cons_self
      have contained : chain.contains memory first ↔
          IsAncestor (pprev memory) first tip := by
        rw [shows.contains_iff linked]
        simp
      rw [List.pairwise_cons] at descending
      rw [List.map_cons, findForkInGlobalIndex.go, indexed first inside]
      dsimp only
      split_ifs with found
      · refine ⟨first, List.mem_cons_self, rfl, contained.mp found, ?_⟩
        rintro node (_ | ⟨_, listed⟩) _
        · exact le_rfl
        · exact (descending.1 node listed).le
      · rw [contained] at found
        have rest : ∃ node ∈ later, IsAncestor (pprev memory) node tip := by
          rcases meets with ⟨node, _ | ⟨_, listed⟩, onChain⟩
          · exact absurd onChain found
          · exact ⟨node, listed, onChain⟩
        rcases hypothesis
          (fun node listed => members node (List.mem_cons_of_mem _ listed))
          descending.2 rest with ⟨pindex, listed, ran, onChain, highest⟩
        refine ⟨pindex, List.mem_cons_of_mem _ listed, ran, onChain, ?_⟩
        rintro node (_ | ⟨_, among⟩) onTip
        · exact absurd onTip found
        · exact highest node among onTip

/-! ## Chains and locators over one tree -/

theorem findFork_common (linked : Linked memory blocks) {genesis : P}
    (root : HasGenesis memory blocks genesis) {rounds : Nat}
    (enough : ∀ pindex ∈ blocks, nHeight memory pindex + 1 < rounds)
    {tip : P} (shows : Shows memory blocks chain (some tip)) {pindex : P}
    (member : pindex ∈ blocks) :
    ∃ fork, findFork memory rounds chain pindex = some (some fork) ∧
      IsDeepestCommon (pprev memory) (nHeight memory) pindex tip
        (some fork) := by
  rcases findFork_deepest linked enough shows member with
    ⟨result, ran, deepest⟩
  cases result with
  | none =>
      exact absurd ⟨root.isAncestor linked member,
        root.isAncestor linked shows.1⟩ (deepest genesis)
  | some fork => exact ⟨fork, ran, deepest⟩

theorem getLocator_trail (linked : Linked memory blocks) {genesis : P}
    (root : HasGenesis memory blocks genesis) {rounds : Nat}
    (enough : ∀ pindex ∈ blocks, nHeight memory pindex + 1 < rounds)
    (heights : ∀ pindex ∈ blocks, nHeight memory pindex + 1 < 2 ^ 31)
    {tip : Option P} (shows : Shows memory blocks chain tip)
    (getBlockHash : P → H) {pindex : P} (member : pindex ∈ blocks) :
    ∃ trail, getLocator memory getBlockHash rounds chain (some pindex) =
        some ⟨trail.map getBlockHash⟩ ∧
      IsTrail memory pindex trail ∧ trail.getLast? = some genesis := by
  have low := enough pindex member
  have fits := heights pindex member
  have once : nHeight memory pindex = 0 ∨
      1 ≤ (1 : Int) ∧ nHeight memory pindex + (1 : Int) < 2 ^ 31 := by
    omega
  rcases getLocatorLoop_trail linked shows getBlockHash rounds [] member
    (by omega) once with ⟨trail, ran, isTrail⟩
  refine ⟨trail, ?_, isTrail, ?_⟩
  · unfold getLocator
    rw [if_neg (Option.some_ne_none pindex)]
    dsimp only
    rw [ran, List.nil_append, Option.map_some]
  · rcases isTrail.ends with ⟨last, ends, zero⟩
    have above := isTrail.ancestors last (List.mem_of_getLast? ends)
    have inside := (linked.forest.ancestor_height member above).1
    rw [ends, root.eq_of_height linked inside zero]

theorem findForkInGlobalIndex_highest (linked : Linked memory blocks)
    {genesis : P} (root : HasGenesis memory blocks genesis) {tip : P}
    (shows : Shows memory blocks chain (some tip)) {getBlockHash : P → H}
    {mapBlockIndex : H → Option P}
    (indexed : ∀ pindex ∈ blocks,
      mapBlockIndex (getBlockHash pindex) = some pindex)
    {pindex : P} (member : pindex ∈ blocks) {trail : List P}
    (isTrail : IsTrail memory pindex trail)
    (ends : trail.getLast? = some genesis) :
    ∃ fork, findForkInGlobalIndex memory mapBlockIndex chain
        ⟨trail.map getBlockHash⟩ = some fork ∧
      IsHighestListed memory blocks getBlockHash (trail.map getBlockHash)
        tip fork ∧
      IsAncestor (pprev memory) fork pindex := by
  rcases findForkInGlobalIndex_trail linked shows indexed
    (fun node listed => (linked.forest.ancestor_height member
      (isTrail.ancestors node listed)).1)
    isTrail.descending ⟨genesis, List.mem_of_getLast? ends,
      root.isAncestor linked shows.1⟩ with
    ⟨fork, listed, ran, onChain, highest⟩
  refine ⟨fork, ran, ⟨List.mem_map_of_mem listed, onChain, ?_⟩,
    isTrail.ancestors fork listed⟩
  intro node inside among onTip
  rcases List.mem_map.mp among with ⟨other, onTrail, same⟩
  -- Different blocks are indexed under different hashes.
  have member' := (linked.forest.ancestor_height member
    (isTrail.ancestors other onTrail)).1
  have equal : some other = some node := by
    rw [← indexed other member', same, indexed node inside]
  cases equal
  exact highest node onTrail onTip

theorem BlockTree.linked (tree : BlockTree P) {start : Memory P}
    (built : tree.build start = some memory) :
    Linked memory tree.blocks ∧
      HasGenesis memory tree.blocks tree.genesis := by
  rcases build_linked (.empty start) tree.inOrder with
    ⟨memory', ran, linked, parents, _⟩
  cases built.symm.trans ran
  rw [Set.empty_union] at linked
  refine ⟨linked, List.mem_cons_self, ?_⟩
  intro node member orphan
  rcases List.mem_map.mp member with ⟨step, among, rfl⟩
  have parent := parents step among
  rcases List.mem_cons.mp among with rfl | later
  · rfl
  · exact absurd (parent.symm.trans orphan) (tree.children step later)

/--
For a tree of blocks whose heights are in the range of `int` and any sequence
of calls of `SetTip`: `CChain[h]` is the ancestor of the tip at each height,
`FindFork` returns the last common ancestor with the tip, and `GetLocator`
lists hashes of ancestors with falling heights, from the block itself to
genesis, in which `FindForkInGlobalIndex` finds the highest listed block of
any chain over the tree.
-/
theorem locator_finds_fork (tree : BlockTree P) {start memory : Memory P}
    (built : tree.build start = some memory)
    (heights : ∀ pindex ∈ tree.blocks, nHeight memory pindex + 1 < 2 ^ 31)
    (getBlockHash : P → H) (mapBlockIndex : H → Option P)
    (indexed : ∀ pindex ∈ tree.blocks,
      mapBlockIndex (getBlockHash pindex) = some pindex)
    (rounds : Nat)
    (enough : ∀ pindex ∈ tree.blocks, nHeight memory pindex + 1 < rounds)
    (tips : List (Option P))
    (known : ∀ pindex, some pindex ∈ tips → pindex ∈ tree.blocks) :
    ∃ chain, setTips memory rounds {} tips = some chain ∧
      chain.tip = tips.getLastD none ∧
      (∀ tip, chain.tip = some tip →
        (∀ height ≤ nHeight memory tip, ∃ pindex,
          chain.entry height = some pindex ∧
            IsAncestor (pprev memory) pindex tip ∧
            nHeight memory pindex = height) ∧
        ∀ pindex ∈ tree.blocks, ∃ fork,
          findFork memory rounds chain pindex = some (some fork) ∧
            IsDeepestCommon (pprev memory) (nHeight memory) pindex tip
              (some fork)) ∧
      ∀ pindex ∈ tree.blocks, ∃ trail,
        getLocator memory getBlockHash rounds chain (some pindex) =
            some ⟨trail.map getBlockHash⟩ ∧
          IsTrail memory pindex trail ∧ trail.getLast? = some tree.genesis ∧
          ∀ tips' : List (Option P),
            (∀ node, some node ∈ tips' → node ∈ tree.blocks) →
            ∀ other, setTips memory rounds {} tips' = some other →
            ∀ tip, other.tip = some tip →
              ∃ fork, findForkInGlobalIndex memory mapBlockIndex other
                  ⟨trail.map getBlockHash⟩ = some fork ∧
                IsHighestListed memory tree.blocks getBlockHash
                  (trail.map getBlockHash) tip fork ∧
                IsAncestor (pprev memory) fork pindex := by
  rcases tree.linked built with ⟨linked, root⟩
  have empty : Shows memory tree.blocks {} none := rfl
  rcases setTips_shows linked enough empty known with ⟨chain, ran, shows⟩
  refine ⟨chain, ran, shows.tip, ?_, ?_⟩
  · intro tip top
    rw [← shows.tip, top] at shows
    refine ⟨?_, fun pindex member =>
      findFork_common linked root enough shows member⟩
    intro height bound
    rcases linked.forest.follow_some shows.1
      (nHeight memory tip - height) (by omega) with
      ⟨pindex, _, reached, sum⟩
    exact ⟨pindex, (shows.entry bound).trans reached,
      .of_follow reached, by omega⟩
  · intro pindex member
    rcases getLocator_trail linked root enough heights shows getBlockHash
      member with ⟨trail, listed, isTrail, ends⟩
    refine ⟨trail, listed, isTrail, ends, ?_⟩
    intro tips' known' other ran' tip top
    rcases setTips_shows linked enough empty known' with
      ⟨_, again, showsOther⟩
    cases ran'.symm.trans again
    rw [← showsOther.tip, top] at showsOther
    exact findForkInGlobalIndex_highest linked root showsOther indexed
      member isTrail ends

/-- Genesis, two blocks after it, and a branch after the first of them. -/
def branchedTree : BlockTree Nat where
  genesis := 0
  steps := [(1, some 0), (2, some 1), (3, some 1)]
  inOrder := by simp [InOrder]
  children := by simp

theorem branchedTree_heights {memory : Memory Nat}
    (built : branchedTree.build (fun _ => ⟨none, none, 0⟩) = some memory)
    {pindex : Nat} (member : pindex ∈ branchedTree.blocks) :
    nHeight memory pindex ≤ 2 := by
  rcases build_linked (.empty _) branchedTree.inOrder with
    ⟨memory', ran, linked, parents, _⟩
  cases built.symm.trans ran
  simp only [branchedTree, List.forall_mem_cons] at parents
  rcases parents with ⟨zero, one, two, three, _⟩
  have inside : ∀ node, node < 4 →
      node ∈ ∅ ∪ added ((0, none) :: branchedTree.steps) := by
    simp [added, branchedTree]
    omega
  have atZero := linked.forest.root 0 (inside 0 (by omega)) zero
  have atOne := (linked.forest.child 1 (inside 1 (by omega)) 0 one).2
  have atTwo := (linked.forest.child 2 (inside 2 (by omega)) 1 two).2
  have atThree := (linked.forest.child 3 (inside 3 (by omega)) 1 three).2
  have cases : pindex = 0 ∨ pindex = 1 ∨ pindex = 2 ∨ pindex = 3 := by
    simpa [BlockTree.blocks, branchedTree, added] using member
  rcases cases with rfl | rfl | rfl | rfl <;> omega

theorem locator_finds_fork_branchedTree :
    ∃ memory chain trail, branchedTree.build (fun _ => ⟨none, none, 0⟩) =
        some memory ∧
      setTips memory 4 {} [some 2, none, some 3, some 2] = some chain ∧
      getLocator memory id 4 chain (some 3) = some ⟨trail⟩ ∧
      trail.getLast? = some 0 := by
  rcases build_linked (.empty fun _ => ⟨none, none, 0⟩)
    branchedTree.inOrder with ⟨memory, built, _⟩
  have low : ∀ pindex ∈ branchedTree.blocks, nHeight memory pindex ≤ 2 :=
    fun _ member => branchedTree_heights built member
  have inside : ∀ node, node < 4 → node ∈ branchedTree.blocks := by
    simp [BlockTree.blocks, added, branchedTree]
    omega
  rcases locator_finds_fork branchedTree built
    (fun pindex member => by have := low pindex member; omega)
    id some (fun _ _ => rfl)
    4 (fun pindex member => by have := low pindex member; omega)
    [some 2, none, some 3, some 2]
    (fun pindex member => inside pindex (by simp at member; omega)) with
    ⟨chain, ran, _, _, locators⟩
  rcases locators 3 (inside 3 (by omega)) with ⟨trail, listed, _, ends, _⟩
  refine ⟨memory, chain, trail, built, ran, ?_, ends⟩
  rwa [List.map_id] at listed

end

end PrivateDatagram.Chainstate.ChainLocator
