import PrivateDatagram.Transfer.DownloadState

/-!
# The choice of a peer

`FindFreeNode` walks through the candidates in the order of their ids and stops
at the first that is free: connected, not about to disconnect and not asked
for another file.  The variable for the result is assigned before the test, so
the last candidate that is not in use remains in it when the loop ends.  It is
returned although it is about to disconnect.
-/

namespace PrivateDatagram.Transfer.FreeNode

open Downloads DownloadState

variable {around : Surroundings} {node : Node}

/-- Connected, not about to disconnect, and not the source of a file in flight. -/
def isFree (around : Surroundings) (node : Node) (id : NodeId) : Bool :=
  around.findNode id == some false && !inUse node id

/-- The last candidate that is not the source of a file in flight. -/
def lastUnused (node : Node) (nodes : List NodeId) : Option NodeId :=
  (nodes.filter fun id => !inUse node id).getLast?

@[simp]
theorem isFree_iff {id : NodeId} :
    isFree around node id = true ↔
      around.findNode id = some false ∧ inUse node id = false := by
  simp [isFree]

theorem lastUnused_cons_inUse {id : NodeId} (used : inUse node id = true)
    (rest : List NodeId) :
    lastUnused node (id :: rest) = lastUnused node rest := by
  simp [lastUnused, used]

theorem lastUnused_cons_unused {id : NodeId} (unused : inUse node id = false)
    (rest : List NodeId) :
    lastUnused node (id :: rest) = some ((lastUnused node rest).getD id) := by
  simp [lastUnused, unused, List.getLast?_cons]

/-! ## The result of the loop -/

/-- A free candidate ends the loop. -/
theorem findFreeNodeAfter_cons_free {id : NodeId}
    (free : isFree around node id = true) (pNode : Option NodeId)
    (rest : List NodeId) :
    findFreeNodeAfter around node pNode (id :: rest) = some id := by
  rcases isFree_iff.mp free with ⟨connected, unused⟩
  simp [findFreeNodeAfter, connected, unused]

/-- A candidate that is in use leaves the variable as it is. -/
theorem findFreeNodeAfter_cons_inUse {id : NodeId}
    (used : inUse node id = true) (pNode : Option NodeId)
    (rest : List NodeId) :
    findFreeNodeAfter around node pNode (id :: rest) =
      findFreeNodeAfter around node pNode rest := by
  simp [findFreeNodeAfter, used]

/-- Any other candidate that is not free overwrites it. -/
theorem findFreeNodeAfter_cons_taken {id : NodeId}
    (unused : inUse node id = false)
    (taken : isFree around node id = false) (pNode : Option NodeId)
    (rest : List NodeId) :
    findFreeNodeAfter around node pNode (id :: rest) =
      findFreeNodeAfter around node ((around.findNode id).map fun _ => id)
        rest := by
  cases connected : around.findNode id with
  | none => simp [findFreeNodeAfter, unused, connected]
  | some fDisconnect =>
      cases fDisconnect with
      | false => simp [isFree, unused, connected] at taken
      | true => simp [findFreeNodeAfter, unused, connected]

/-- The loop returns the first free candidate. -/
theorem findFreeNodeAfter_of_free {nodes : List NodeId} {id : NodeId}
    (first : nodes.find? (isFree around node) = some id)
    (pNode : Option NodeId) :
    findFreeNodeAfter around node pNode nodes = some id := by
  induction nodes generalizing pNode with
  | nil => cases first
  | cons head rest hypothesis =>
      rw [List.find?_cons] at first
      split at first
      next free =>
        rw [findFreeNodeAfter_cons_free free, first]
      next taken =>
        cases used : inUse node head with
        | true =>
            rw [findFreeNodeAfter_cons_inUse used]
            exact hypothesis first _
        | false =>
            rw [findFreeNodeAfter_cons_taken used taken]
            exact hypothesis first _

/-- Without a free candidate the last unused one that is connected remains. -/
theorem findFreeNodeAfter_of_taken {nodes : List NodeId}
    (taken : ∀ id ∈ nodes, isFree around node id = false)
    (pNode : Option NodeId) :
    findFreeNodeAfter around node pNode nodes =
      match lastUnused node nodes with
      | none => pNode
      | some id => (around.findNode id).map fun _ => id := by
  induction nodes generalizing pNode with
  | nil => rfl
  | cons head rest hypothesis =>
      have others : ∀ id ∈ rest, isFree around node id = false :=
        fun id member => taken id (List.mem_cons_of_mem _ member)
      cases used : inUse node head with
      | true =>
          rw [findFreeNodeAfter_cons_inUse used, lastUnused_cons_inUse used]
          exact hypothesis others pNode
      | false =>
          rw [findFreeNodeAfter_cons_taken used (taken head List.mem_cons_self),
            lastUnused_cons_unused used, hypothesis others]
          cases lastUnused node rest <;> rfl

/-! ## When the choice is right -/

/-- What the choice of a peer is for. -/
structure ChoosesFree (around : Surroundings) (node : Node)
    (nodes : Std.ExtTreeSet NodeId) : Prop where
  found : (findFreeNode around node nodes).isSome = true ↔
    ∃ id ∈ nodes, isFree around node id = true
  free : ∀ id, findFreeNode around node nodes = some id →
    id ∈ nodes ∧ isFree around node id = true

/--
The choice is right exactly when some candidate is free or the last candidate
that is not in use is not connected any more.
-/
theorem findFreeNode_right_iff (around : Surroundings) (node : Node)
    (nodes : Std.ExtTreeSet NodeId) :
    ChoosesFree around node nodes ↔
      (∃ id ∈ nodes, isFree around node id = true) ∨
        ∀ id, lastUnused node nodes.toList = some id →
          around.findNode id = none := by
  cases first : nodes.toList.find? (isFree around node) with
  | some id =>
      have result : findFreeNode around node nodes = some id :=
        findFreeNodeAfter_of_free first none
      have member : id ∈ nodes :=
        Std.ExtTreeSet.mem_toList.mp (List.mem_of_find?_eq_some first)
      have free : isFree around node id = true := List.find?_some first
      refine iff_of_true ⟨?_, ?_⟩ (.inl ⟨id, member, free⟩)
      · simp only [result, Option.isSome_some, true_iff]
        exact ⟨id, member, free⟩
      · intro other chosen
        rw [result] at chosen
        cases chosen
        exact ⟨member, free⟩
  | none =>
      have taken : ∀ id ∈ nodes.toList, isFree around node id = false :=
        fun id member =>
          Bool.eq_false_of_not_eq_true (List.find?_eq_none.mp first id member)
      have nobody : ¬ ∃ id ∈ nodes, isFree around node id = true := by
        rintro ⟨id, member, free⟩
        rw [taken id (Std.ExtTreeSet.mem_toList.mpr member)] at free
        cases free
      have result := findFreeNodeAfter_of_taken taken none
      change findFreeNode around node nodes = _ at result
      rw [or_iff_right nobody]
      constructor
      · intro right id last
        have empty : ¬ (findFreeNode around node nodes).isSome = true :=
          fun some => nobody (right.found.mp some)
        simpa [result, last] using empty
      · intro absent
        have empty : findFreeNode around node nodes = none := by
          rw [result]
          cases last : lastUnused node nodes.toList with
          | none => rfl
          | some id => simp [absent id last]
        refine ⟨?_, ?_⟩
        · simpa [empty] using nobody
        · intro id chosen
          rw [empty] at chosen
          cases chosen

/-! ## A candidate that is about to disconnect -/

/-- Nothing is in flight, and every peer is about to disconnect. -/
def leaving : Surroundings :=
  { connectedAt 0 with findNode := fun _ => some true }

def onePeer : Std.ExtTreeSet NodeId := Std.ExtTreeSet.insert ∅ 3

/-- The only candidate is returned although it is about to disconnect. -/
theorem findFreeNode_leaving :
    ¬ ∀ (around : Surroundings) (node : Node)
      (nodes : Std.ExtTreeSet NodeId), ChoosesFree around node nodes := by
  intro always
  have chosen : findFreeNode leaving requiring onePeer = some 3 := by
    decide +kernel
  have free := ((always leaving requiring onePeer).free 3 chosen).2
  simp [isFree, leaving] at free

end PrivateDatagram.Transfer.FreeNode
