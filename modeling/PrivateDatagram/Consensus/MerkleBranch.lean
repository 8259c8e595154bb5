import PrivateDatagram.Consensus.MerkleRoot
import PrivateDatagram.Library.PairBranch

/-!
# Merkle branches

`GetMerkleBranch` reads the sibling of a transaction and of each value above
it from the vector of `BuildMerkleTree`, which holds the levels one behind the
other.  `CheckMerkleBranch` hashes its way back to the root; the bits of the
index tell the sides.

No result means an access outside the vector.
-/

namespace PrivateDatagram.Consensus.MerkleBranch

open Library.PairTree Library.PairBranch MerkleRoot Wire.Serialize

/-- The transactions of a `CBlock`, by their hashes, and the tree that is kept
in memory with them. -/
structure CBlock where
  vtx : List UInt256
  vMerkleTree : List UInt256 := []
deriving DecidableEq, Repr

/-- `nIndex ^ 1`. -/
def flipLow (nIndex : Int) : Int :=
  if nIndex % 2 = 1 then nIndex - 1 else nIndex + 1

/-- The loop of `GetMerkleBranch`; `nIndex >>= 1` rounds down. -/
def branchLoop (vMerkleTree : List UInt256) (j nSize : Nat) (nIndex : Int)
    (vMerkleBranch : List UInt256) : Option (List UInt256) :=
  if 1 < nSize then
    let i := min (flipLow nIndex) ((nSize : Int) - 1)
    if j + i < 0 then
      none
    else
      (vMerkleTree[(j + i).toNat]?).bind fun hash =>
        branchLoop vMerkleTree (j + nSize) ((nSize + 1) / 2) (nIndex / 2)
          (vMerkleBranch ++ [hash])
  else
    some vMerkleBranch
termination_by nSize

section Code

-- `Hash` of two hashes
variable (hash : UInt256 → UInt256 → UInt256)

/-- `BuildMerkleTree`, which keeps the tree. -/
def CBlock.buildMerkleTree (block : CBlock) : UInt256 × CBlock :=
  let tree := hashLevels hash 0 block.vtx.length ⟨block.vtx, false⟩
  (tree.vMerkleTree.getLast?.getD 0,
    { block with vMerkleTree := tree.vMerkleTree })

/-- `GetMerkleBranch`, which builds the tree if there is none. -/
def CBlock.getMerkleBranch (block : CBlock) (nIndex : Int) :
    Option (List UInt256 × CBlock) :=
  let block :=
    if block.vMerkleTree.isEmpty then (block.buildMerkleTree hash).2
    else block
  (branchLoop block.vMerkleTree 0 block.vtx.length nIndex []).map
    fun vMerkleBranch => (vMerkleBranch, block)

/-- The loop of `CheckMerkleBranch`. -/
def checkLoop (hash : UInt256 → UInt256 → UInt256) :
    UInt256 → List UInt256 → Int → UInt256
  | value, [], _ => value
  | value, other :: vMerkleBranch, nIndex =>
      checkLoop hash
        (if nIndex % 2 = 1 then hash other value else hash value other)
        vMerkleBranch (nIndex / 2)

/-- `CheckMerkleBranch`. -/
def checkMerkleBranch (value : UInt256) (vMerkleBranch : List UInt256)
    (nIndex : Int) : UInt256 :=
  if nIndex = -1 then 0 else checkLoop hash value vMerkleBranch nIndex

end Code

variable {hash : UInt256 → UInt256 → UInt256} {leaves list : List UInt256}

/-! ## The check -/

theorem checkLoop_eq_climb (value : UInt256) (vMerkleBranch : List UInt256)
    (place : Nat) :
    checkLoop hash value vMerkleBranch place =
      climb hash value vMerkleBranch place := by
  induction vMerkleBranch generalizing value place with
  | nil => rfl
  | cons other vMerkleBranch ih =>
      have half : (place : Int) / 2 = (place / 2 : Nat) := by omega
      have side : (if (place : Int) % 2 = 1 then hash other value
          else hash value other) =
          hash (pairAt place value other).1 (pairAt place value other).2 := by
        unfold pairAt
        by_cases odd : place % 2 = 1
        · rw [if_pos odd, if_pos (by omega)]
        · rw [if_neg odd, if_neg (by omega)]
      rw [checkLoop, climb, half, side, ih]

theorem checkMerkleBranch_eq_climb (value : UInt256)
    (vMerkleBranch : List UInt256) (place : Nat) :
    checkMerkleBranch hash value vMerkleBranch place =
      climb hash value vMerkleBranch place := by
  unfold checkMerkleBranch
  rw [if_neg (by omega), checkLoop_eq_climb]

/-! ## The branch -/

/-- The levels that are in the vector stay there. -/
theorem hashLevels_prefix (hash : UInt256 → UInt256 → UInt256)
    (front list : List UInt256) (mutated : Bool) :
    front ++ list <+: (hashLevels hash front.length list.length
      ⟨front ++ list, mutated⟩).vMerkleTree := by
  induction size : list.length using Nat.strong_induction_on
    generalizing front list mutated with
  | h nSize ih =>
      subst size
      rw [hashLevels]
      by_cases long : 1 < list.length
      · have shorter := length_above hash list
        have more := ih (above hash list).length (by omega) (front ++ list)
          (above hash list) (mutated || decide (TwinEnd list)) rfl
        rw [List.length_append, shorter] at more
        rw [if_pos long, hashPairs_level]
        exact (List.prefix_append _ _).trans more
      · rw [if_neg long]

theorem flipLow_sibling {place : Nat} (inside : place < list.length) :
    min (flipLow place) ((list.length : Int) - 1) =
      sibling list.length place := by
  unfold flipLow sibling
  by_cases odd : place % 2 = 1
  · rw [if_pos odd, if_pos (by omega)]
    omega
  · rw [if_neg odd, if_neg (by omega)]
    omega

/-- A level is read behind the earlier ones, whatever comes later. -/
theorem hashLevels_read (hash : UInt256 → UInt256 → UInt256)
    (front list : List UInt256) (mutated : Bool) {place : Nat}
    (within : place < list.length) :
    (hashLevels hash front.length list.length
      ⟨front ++ list, mutated⟩).vMerkleTree[front.length + place]? =
        some list[place] := by
  rcases hashLevels_prefix hash front list mutated with ⟨later, vector⟩
  rw [← vector, List.getElem?_append_left (by
    rw [List.length_append]
    omega), List.getElem?_append_right (Nat.le_add_right _ _),
    Nat.add_sub_cancel_left, List.getElem?_eq_getElem within]

/-- From a level on, the loop reads a branch that leads to the root. -/
theorem branchLoop_level {height top : Nat} {root : UInt256}
    (level : Level hash leaves height list)
    (isRoot : Level hash leaves top [root]) (front : List UInt256)
    (mutated : Bool) {place : Nat} {value : UInt256}
    (found : list[place]? = some value) (vMerkleBranch : List UInt256) :
    ∃ branch, branchLoop (hashLevels hash front.length list.length
          ⟨front ++ list, mutated⟩).vMerkleTree
        front.length list.length place vMerkleBranch =
          some (vMerkleBranch ++ branch) ∧
      branch.length = Nat.clog 2 list.length ∧
      climb hash value branch place = root := by
  induction size : list.length using Nat.strong_induction_on
    generalizing height front list mutated place value vMerkleBranch with
  | h nSize ih =>
      subst size
      have inside := (List.getElem?_eq_some_iff.mp found).1
      by_cases long : 1 < list.length
      · have within : sibling list.length place < list.length := by
          unfold sibling
          omega
        have isOther := List.getElem?_eq_getElem within
        have read := hashLevels_read hash front list mutated within
        have shorter := length_above hash list
        have half : (place : Int) / 2 = (place / 2 : Nat) := by omega
        rcases ih (above hash list).length (by omega) (level.above long)
          (front ++ list) (mutated || decide (TwinEnd list))
          (getElem?_above_pairAt found isOther)
          (vMerkleBranch ++ [list[sibling list.length place]]) rfl with
          ⟨branch, ran, length, climbs⟩
        rw [List.length_append, shorter] at ran
        refine ⟨list[sibling list.length place] :: branch, ?_, ?_, climbs⟩
        · have vector : hashLevels hash front.length list.length
              ⟨front ++ list, mutated⟩ =
              hashLevels hash (front.length + list.length)
                ((list.length + 1) / 2) ⟨front ++ list ++ above hash list,
                  mutated || decide (TwinEnd list)⟩ := by
            rw [hashLevels, if_pos long, hashPairs_level]
          have index : ((front.length : Int) +
              (sibling list.length place : Nat)).toNat =
              front.length + sibling list.length place := by
            omega
          rw [branchLoop, if_pos long]
          dsimp only
          rw [flipLow_sibling inside, if_neg (by omega), index, read,
            Option.bind_some, half, vector, ran, List.append_assoc,
            List.singleton_append]
        · rw [List.length_cons, length, clog_size long, shorter]
      · obtain ⟨only, rfl⟩ := List.length_eq_one_iff.mp
          (show list.length = 1 by omega)
        obtain rfl : place = 0 := Nat.lt_one_iff.mp inside
        cases found
        refine ⟨[], ?_, ?_, root_unique level isRoot⟩
        · rw [branchLoop, if_neg long, List.append_nil]
        · rw [List.length_nil, List.length_singleton, Nat.clog_one_right]

/-! ## Branches verify -/

theorem buildMerkleTree_fst (hash : UInt256 → UInt256 → UInt256)
    (block : CBlock) :
    (block.buildMerkleTree hash).1 =
      (MerkleRoot.buildMerkleTree hash block.vtx).1 :=
  rfl

theorem buildMerkleTree_ne_nil (hash : UInt256 → UInt256 → UInt256)
    {block : CBlock} (nonempty : block.vtx ≠ []) :
    (block.buildMerkleTree hash).2.vMerkleTree ≠ [] := by
  intro empty
  have kept := hashLevels_prefix hash [] block.vtx false
  rw [List.nil_append] at kept
  exact nonempty (List.prefix_nil.mp (empty ▸ kept))

/-- The branch of a transaction, from a vector that holds the tree. -/
theorem branchLoop_verifies (hash : UInt256 → UInt256 → UInt256)
    (block : CBlock) {place : Nat} {value : UInt256}
    (found : block.vtx[place]? = some value) :
    ∃ branch, branchLoop (block.buildMerkleTree hash).2.vMerkleTree 0
        block.vtx.length place [] = some branch ∧
      branch.length = Nat.clog 2 block.vtx.length ∧
      checkMerkleBranch hash value branch place =
        (block.buildMerkleTree hash).1 := by
  have nonempty : block.vtx ≠ [] := by
    rintro empty
    rw [empty] at found
    cases found
  rcases (buildMerkleTree_spec hash nonempty).1 with ⟨top, isRoot⟩
  rcases branchLoop_level .leaves isRoot [] false found [] with
    ⟨branch, ran, length, climbs⟩
  refine ⟨branch, ran, length, ?_⟩
  rw [checkMerkleBranch_eq_climb, climbs, buildMerkleTree_fst]

/--
The branch of each transaction of a block leads to the root, whether the tree
was built before or is built now.  Only the hash of a transaction or of its
copy has a branch of the height of the tree that leads to the root, unless
two pairs of hashes collide.
-/
theorem merkle_branches_verify (hash : UInt256 → UInt256 → UInt256)
    (block : CBlock) (nonempty : block.vtx ≠ []) :
    (∀ (place : Nat) value, block.vtx[place]? = some value →
      ∃ branch,
        (block.buildMerkleTree hash).2.getMerkleBranch hash place =
            some (branch, (block.buildMerkleTree hash).2) ∧
          (block.vMerkleTree = [] →
            block.getMerkleBranch hash place =
              some (branch, (block.buildMerkleTree hash).2)) ∧
          branch.length = Nat.clog 2 block.vtx.length ∧
          checkMerkleBranch hash value branch place =
            (block.buildMerkleTree hash).1) ∧
    ∀ (place : Nat) value branch,
      branch.length = Nat.clog 2 block.vtx.length →
        checkMerkleBranch hash value branch place =
            (block.buildMerkleTree hash).1 →
          block.vtx[leafAt block.vtx.length place]? = some value ∧
              (place < block.vtx.length →
                leafAt block.vtx.length place = place) ∨
            Collision hash block.vtx value branch place := by
  refine ⟨?_, ?_⟩
  · intro place value found
    rcases branchLoop_verifies hash block found with
      ⟨branch, ran, length, verifies⟩
    refine ⟨branch, ?_, ?_, length, verifies⟩
    · have built := buildMerkleTree_ne_nil hash nonempty
      unfold CBlock.getMerkleBranch
      rw [if_neg (by rwa [List.isEmpty_iff])]
      dsimp only
      exact congrArg (Option.map _) ran
    · intro empty
      unfold CBlock.getMerkleBranch
      rw [if_pos (List.isEmpty_iff.mpr empty)]
      dsimp only
      exact congrArg (Option.map _) ran
  · intro place value branch ofHeight verifies
    rcases (buildMerkleTree_spec hash nonempty).1 with ⟨top, isRoot⟩
    rw [checkMerkleBranch_eq_climb, buildMerkleTree_fst] at verifies
    rcases climb_root .leaves isRoot (List.length_pos_of_ne_nil nonempty)
      ofHeight verifies with found | collision
    · exact .inl ⟨found, leafAt_eq⟩
    · exact .inr collision

/-- The last of three transactions is paired with itself. -/
theorem merkle_branches_verify_three :
    ∃ branch, CBlock.getMerkleBranch sideBySide ⟨[1, 2, 3], []⟩ 2 =
        some (branch,
          (CBlock.buildMerkleTree sideBySide ⟨[1, 2, 3], []⟩).2) ∧
      checkMerkleBranch sideBySide 3 branch 2 =
        (CBlock.buildMerkleTree sideBySide ⟨[1, 2, 3], []⟩).1 := by
  rcases (merkle_branches_verify sideBySide ⟨[1, 2, 3], []⟩ (by decide)).1 2 3
    rfl with ⟨branch, _, fresh, _, verifies⟩
  exact ⟨branch, fresh rfl, verifies⟩

end PrivateDatagram.Consensus.MerkleBranch
