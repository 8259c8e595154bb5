import PrivateDatagram.Library.PairTree
import PrivateDatagram.Wire.Serialize

/-!
# The merkle root of a block

`BuildMerkleTree` keeps all levels of the tree in one vector, and notes when
a level of even size ends in two equal hashes.
-/

namespace PrivateDatagram.Consensus.MerkleRoot

open Library.PairTree Wire.Serialize

/-- The state of `BuildMerkleTree`. -/
structure Building where
  vMerkleTree : List UInt256
  mutated : Bool
deriving DecidableEq, Repr

section Code

-- `Hash` of two hashes
variable (hash : UInt256 → UInt256 → UInt256)

/-- The loop over the pairs of the level at `j`. -/
def hashPairs (j nSize i : Nat) (tree : Building) : Building :=
  if i < nSize then
    let i2 := min (i + 1) (nSize - 1)
    let left := tree.vMerkleTree.getD (j + i) 0
    let right := tree.vMerkleTree.getD (j + i2) 0
    hashPairs j nSize (i + 2)
      { vMerkleTree := tree.vMerkleTree ++ [hash left right]
        mutated := tree.mutated ||
          (i2 = i + 1 && i2 + 1 = nSize && left = right) }
  else
    tree
termination_by nSize - i

/-- The loop over the levels. -/
def hashLevels (j nSize : Nat) (tree : Building) : Building :=
  if 1 < nSize then
    hashLevels (j + nSize) ((nSize + 1) / 2) (hashPairs hash j nSize 0 tree)
  else
    tree
termination_by nSize

/-- The merkle root of a block with these transaction hashes, and
`fMutated`. -/
def buildMerkleTree (vtx : List UInt256) : UInt256 × Bool :=
  let tree := hashLevels hash 0 vtx.length ⟨vtx, false⟩
  (tree.vMerkleTree.getLast?.getD 0, tree.mutated)

end Code

/-! ## The levels in the vector -/

section Levels

variable {hash : UInt256 → UInt256 → UInt256}

theorem read_left (front done rest later : List UInt256)
    (left : UInt256) :
    (front ++ done ++ left :: rest ++ later).getD
      (front.length + done.length) 0 = left := by
  rw [← List.length_append]
  simp

theorem read_right (front done rest later : List UInt256)
    (left right : UInt256) :
    (front ++ done ++ left :: right :: rest ++ later).getD
      (front.length + (done.length + 1)) 0 = right := by
  have next := read_left front (done ++ [left]) rest later right
  rw [List.length_append, List.length_singleton] at next
  rw [← next, List.append_assoc front done, List.append_assoc front,
    List.append_assoc done]
  simp

/-- The loop over the pairs appends what is above the rest of the level. -/
theorem hashPairs_rest (hash : UInt256 → UInt256 → UInt256)
    (front done rest later : List UInt256) (mutated : Bool) :
    hashPairs hash front.length (done.length + rest.length) done.length
        ⟨front ++ done ++ rest ++ later, mutated⟩ =
      ⟨front ++ done ++ rest ++ later ++ above hash rest,
        mutated || decide (TwinEnd rest)⟩ := by
  unfold above
  fun_induction pairs rest generalizing done later mutated with
  | case1 =>
      have noTwin : decide (TwinEnd ([] : List UInt256)) = false := rfl
      rw [hashPairs, if_neg (by simp), noTwin]
      simp
  | case2 left =>
      have noTwin : decide (TwinEnd [left]) = false := rfl
      have same : min (done.length + 1) (done.length + [left].length - 1) =
          done.length := by simp
      rw [hashPairs, if_pos (by simp)]
      dsimp only
      rw [same, read_left, hashPairs, if_neg (by simp), noTwin]
      simp
  | case3 left right rest ih =>
      have next : min (done.length + 1)
          (done.length + (left :: right :: rest).length - 1) =
            done.length + 1 := by
        simp only [List.length_cons]
        omega
      have isLast : done.length + 1 + 1 =
          done.length + (left :: right :: rest).length ↔ rest = [] := by
        rw [← List.length_eq_zero_iff]
        simp only [List.length_cons]
        omega
      have after := ih (done ++ [left, right]) (later ++ [hash left right])
        (mutated || (rest = [] && left = right))
      have vector : front ++ (done ++ [left, right]) ++ rest ++
            (later ++ [hash left right]) =
          front ++ done ++ left :: right :: rest ++ later ++
            [hash left right] := by simp
      have size : done.length + 2 + rest.length =
          done.length + (left :: right :: rest).length := by
        simp only [List.length_cons]
        omega
      rw [vector, List.length_append, show [left, right].length = 2 from rfl,
        size] at after
      rw [hashPairs, if_pos (by simp)]
      dsimp only
      rw [next, read_left, read_right]
      simp only [isLast, decide_true, Bool.true_and]
      rw [after]
      simp [twinEnd_cons_cons, Bool.or_assoc]

/-- The next level is behind the vector. -/
theorem hashPairs_level (front list : List UInt256) (mutated : Bool) :
    hashPairs hash front.length list.length 0 ⟨front ++ list, mutated⟩ =
      ⟨front ++ list ++ above hash list,
        mutated || decide (TwinEnd list)⟩ := by
  have all := hashPairs_rest hash front [] list [] mutated
  rw [List.length_nil, Nat.zero_add, List.append_nil, List.append_nil] at all
  exact all

/-- From a level on, the vector ends with the root, and twin ends of the
levels are noted. -/
theorem hashLevels_level {leaves : List UInt256} {height : Nat}
    (front : List UInt256) {list : List UInt256} (nonempty : list ≠ [])
    (level : Level hash leaves height list) (mutated : Bool) :
    (∃ front' root top,
      (hashLevels hash front.length list.length
        ⟨front ++ list, mutated⟩).vMerkleTree = front' ++ [root] ∧
      Level hash leaves top [root]) ∧
    ((hashLevels hash front.length list.length
        ⟨front ++ list, mutated⟩).mutated = true ↔
      mutated = true ∨ ∃ higher other, height ≤ higher ∧
        Level hash leaves higher other ∧ 1 < other.length ∧
          TwinEnd other) := by
  induction size : list.length using Nat.strong_induction_on
    generalizing height front list mutated with
  | h nSize ih =>
      subst size
      rw [hashLevels]
      by_cases long : 1 < list.length
      · rw [if_pos long, hashPairs_level]
        have shorter := length_above hash list
        have after := ih (above hash list).length (by omega)
          (front ++ list) (by
            rw [ne_eq, ← List.length_eq_zero_iff]
            omega) (level.above long) (mutated || decide (TwinEnd list)) rfl
        rw [List.length_append, shorter] at after
        refine ⟨after.1, after.2.trans ?_⟩
        rw [Bool.or_eq_true, decide_eq_true_iff, or_assoc]
        refine or_congr_right ⟨?_, ?_⟩
        · rintro (twin | ⟨higher, other, above, found⟩)
          · exact ⟨height, list, Nat.le_refl _, level, long, twin⟩
          · exact ⟨higher, other, by omega, found⟩
        · rintro ⟨higher, other, above, isLevel, isLong, twin⟩
          rcases Nat.eq_or_lt_of_le above with rfl | higher
          · exact .inl (level.unique isLevel ▸ twin)
          · exact .inr ⟨_, other, higher, isLevel, isLong, twin⟩
      · have single : ∃ root, list = [root] := by
          refine List.length_eq_one_iff.mp ?_
          have := List.length_pos_of_ne_nil nonempty
          omega
        obtain ⟨root, rfl⟩ := single
        rw [if_neg long]
        refine ⟨⟨front, root, height, rfl, level⟩, .inl, fun noted => ?_⟩
        rcases noted with before | ⟨higher, other, above, isLevel, isLong, _⟩
        · exact before
        · rcases Nat.eq_or_lt_of_le above with rfl | higher
          · exact absurd (level.unique isLevel ▸ isLong) long
          · exact absurd (isLevel.long_below level higher) long

/-- The root of a block with transactions, and the flag. -/
theorem buildMerkleTree_spec (hash : UInt256 → UInt256 → UInt256)
    {vtx : List UInt256} (nonempty : vtx ≠ []) :
    (∃ top, Level hash vtx top [(buildMerkleTree hash vtx).1]) ∧
      ((buildMerkleTree hash vtx).2 = true ↔ Mutated hash vtx) := by
  obtain ⟨⟨front, root, top, isVector, isRoot⟩, noted⟩ :=
    hashLevels_level [] nonempty (Level.leaves : Level hash vtx 0 vtx) false
  unfold buildMerkleTree
  dsimp only
  rw [List.nil_append] at isVector noted
  rw [List.length_nil] at isVector noted
  refine ⟨⟨top, ?_⟩, noted.trans ⟨?_, ?_⟩⟩
  · rw [isVector, List.getLast?_concat, Option.getD_some]
    exact isRoot
  · rintro (impossible | ⟨height, list, _, found⟩)
    · cases impossible
    · exact ⟨height, list, found⟩
  · rintro ⟨height, list, found⟩
    exact .inr ⟨height, list, Nat.zero_le _, found⟩

end Levels

/-! ## The root commits to the transactions -/

/-- Two blocks with transactions, or without any, have the same transactions
if they have the same root and neither is mutated. -/
theorem merkle_root_commits (hash : UInt256 → UInt256 → UInt256)
    (vtx other : List UInt256) (alike : vtx = [] ↔ other = [])
    (free : CollisionFree hash vtx other)
    (sameRoot : (buildMerkleTree hash vtx).1 = (buildMerkleTree hash other).1)
    (unmutated : (buildMerkleTree hash vtx).2 = false)
    (unmutatedOther : (buildMerkleTree hash other).2 = false) :
    vtx = other := by
  by_cases empty : vtx = []
  · rw [empty, alike.mp empty]
  · obtain ⟨⟨_, isRoot⟩, noted⟩ := buildMerkleTree_spec hash empty
    obtain ⟨⟨_, isRootOther⟩, notedOther⟩ :=
      buildMerkleTree_spec hash fun emptyOther => empty (alike.mpr emptyOther)
    rw [← sameRoot] at isRootOther
    refine leaves_eq_of_root free (fun mutated => ?_) (fun mutated => ?_)
      isRoot isRootOther
    · cases unmutated.symm.trans (noted.mpr mutated)
    · cases unmutatedOther.symm.trans (notedOther.mpr mutated)

/-- A function without a collision on the few pairs below. -/
def sideBySide (left right : UInt256) : UInt256 := 16 * left + right

/-- What is hashed over three transactions. -/
def threePairs (first second third : UInt256) : List (UInt256 × UInt256) :=
  [(first, second), (third, third),
    (sideBySide first second, sideBySide third third)]

theorem hashed_three {first second third : UInt256}
    {pair : UInt256 × UInt256}
    (hashed : Hashed sideBySide [first, second, third] pair) :
    pair ∈ threePairs first second third := by
  obtain ⟨height, list, level, long, isPair⟩ := hashed
  have middle : Level sideBySide [first, second, third] 1
      [sideBySide first second, sideBySide third third] :=
    .above .leaves (by simp)
  have top := middle.above (by simp)
  have single : ¬ 1 < (above sideBySide
      [sideBySide first second, sideBySide third third]).length := by
    simp [above, pairs]
  rcases height with _ | _ | _ | height
  · rw [level.unique .leaves] at isPair
    exact List.mem_append_left [_] isPair
  · rw [level.unique middle] at isPair
    exact List.mem_append_right [(first, second), (third, third)] isPair
  · rw [level.unique top] at long
    exact absurd long single
  · exact absurd (level.long_below top (by omega)) single

theorem sideBySide_collisionFree :
    CollisionFree sideBySide [1, 2, 3] [1, 3, 2] := by
  have few : ∀ pair : UInt256 × UInt256,
      Hashed sideBySide [1, 2, 3] pair ∨ Hashed sideBySide [1, 3, 2] pair →
        pair ∈ threePairs 1 2 3 ++ threePairs 1 3 2 :=
    fun _ hashed =>
      List.mem_append.mpr (hashed.imp hashed_three hashed_three)
  constructor
  · intro pair other hashed hashedOther same
    have apart : ((threePairs 1 2 3 ++ threePairs 1 3 2).all fun pair =>
        (threePairs 1 2 3 ++ threePairs 1 3 2).all fun other =>
          sideBySide pair.1 pair.2 ≠ sideBySide other.1 other.2 ||
            pair = other) = true := by decide +kernel
    simpa [same] using List.all_eq_true.mp
      (List.all_eq_true.mp apart pair (few pair hashed)) other
        (few other hashedOther)
  · intro pair hashed
    have fresh : ((threePairs 1 2 3 ++ threePairs 1 3 2).all fun pair =>
        sideBySide pair.1 pair.2 ∉ ([1, 2, 3] : List UInt256) &&
          sideBySide pair.1 pair.2 ∉ ([1, 3, 2] : List UInt256)) = true := by
      decide +kernel
    simpa using List.all_eq_true.mp fresh pair (few pair hashed)

/-- Three transactions in another order have another root. -/
theorem merkle_root_commits_order :
    (buildMerkleTree sideBySide [1, 2, 3]).1 ≠
      (buildMerkleTree sideBySide [1, 3, 2]).1 := by
  intro sameRoot
  have unmutated : (buildMerkleTree sideBySide [1, 2, 3]).2 = false := by
    simp [buildMerkleTree, hashLevels, hashPairs, sideBySide]
  have unmutatedOther : (buildMerkleTree sideBySide [1, 3, 2]).2 = false := by
    simp [buildMerkleTree, hashLevels, hashPairs, sideBySide]
  have same := merkle_root_commits sideBySide [1, 2, 3] [1, 3, 2] (by decide)
    sideBySide_collisionFree sameRoot unmutated unmutatedOther
  exact absurd same (by decide)

/-- A block without transactions has the root of one whose only transaction
has the hash zero. -/
theorem empty_block_root :
    ¬ ∀ (hash : UInt256 → UInt256 → UInt256) (vtx other : List UInt256),
      CollisionFree hash vtx other →
        (buildMerkleTree hash vtx).1 = (buildMerkleTree hash other).1 →
          (buildMerkleTree hash vtx).2 = false →
            (buildMerkleTree hash other).2 = false → vtx = other := by
  intro commits
  have none : ∀ pair, ¬ (Hashed sideBySide [] pair ∨
      Hashed sideBySide [0] pair) := by
    rintro pair (hashed | hashed)
    · exact absurd hashed.long (by decide)
    · exact absurd hashed.long (by decide)
  have free : CollisionFree sideBySide [] [0] :=
    ⟨fun pair _ hashed => absurd hashed (none pair),
      fun pair hashed => absurd hashed (none pair)⟩
  have same := commits sideBySide [] [0] free
    (by simp [buildMerkleTree, hashLevels])
    (by simp [buildMerkleTree, hashLevels])
    (by simp [buildMerkleTree, hashLevels])
  cases same

end PrivateDatagram.Consensus.MerkleRoot
