import PrivateDatagram.Consensus.MerkleRoot
import PrivateDatagram.Library.BitPacking
import PrivateDatagram.Library.PairBranch

/-!
# Partial merkle trees

A `CPartialMerkleTree` shows that some transactions are in a block.  It is
built by a walk over the merkle tree, which writes a bit for each node and a
hash where it does not descend; extracting is the same walk, which reads both.
Bits are sent packed into bytes.

No result means an access outside a vector.
-/

namespace PrivateDatagram.Consensus.PartialMerkleTree

open Library.BitPacking Library.ByteFormat Library.PairTree Library.PairBranch
  Wire.Serialize

/-- `MAX_BLOCK_SIZE_CURRENT`. -/
def maxBlockSizeCurrent : Nat := 2000000

/-- `CPartialMerkleTree`. -/
structure CPartialMerkleTree where
  nTransactions : UInt32
  vBits : List Bool
  vHash : List UInt256
  fBad : Bool
deriving DecidableEq, Repr

/-! ## The functions -/

/-- `CalcTreeWidth`. -/
def calcTreeWidth (nTransactions : UInt32) (height : Nat) : Nat :=
  ((nTransactions.toNat + (1 <<< height) - 1) % 2 ^ 32) >>> height

theorem height_lt_of_width {nTransactions : UInt32} {height : Nat}
    (wide : 1 < calcTreeWidth nTransactions height) : height < 32 := by
  by_contra high
  have power : 2 ^ 32 ≤ 2 ^ height :=
    Nat.pow_le_pow_right (by omega) (by omega)
  unfold calcTreeWidth at wide
  rw [Nat.shiftRight_eq_div_pow, Nat.div_eq_of_lt
    ((Nat.mod_lt _ (by omega)).trans_le power)] at wide
  omega

/-- The loop that calculates the height of the tree. -/
def calcHeight (nTransactions : UInt32) (nHeight : Nat) : Nat :=
  if 1 < calcTreeWidth nTransactions nHeight then
    calcHeight nTransactions (nHeight + 1)
  else
    nHeight
termination_by 32 - nHeight
decreasing_by
  have := height_lt_of_width ‹_›
  omega

/-- The loop of `TraverseAndBuild` over the transactions below a node. -/
def parentOfMatch (nTransactions : UInt32) (vMatch : List Bool)
    (p stop : Nat) (fParentOfMatch : Bool) : Option Bool :=
  if p < stop ∧ p < nTransactions.toNat then
    (vMatch[p]?).bind fun matched =>
      parentOfMatch nTransactions vMatch (p + 1) stop
        (fParentOfMatch || matched)
  else
    some fParentOfMatch
termination_by stop - p

section Code

-- `Hash` of two hashes
variable (hash : UInt256 → UInt256 → UInt256)

/-- `CalcHash`. -/
def calcHash (nTransactions : UInt32) (vTxid : List UInt256) :
    Nat → Nat → Option UInt256
  | 0, pos => vTxid[pos]?
  | height + 1, pos => do
      let left ← calcHash nTransactions vTxid height (pos * 2)
      let right ←
        if pos * 2 + 1 < calcTreeWidth nTransactions height then
          calcHash nTransactions vTxid height (pos * 2 + 1)
        else
          some left
      some (hash left right)

/-- `TraverseAndBuild`, on `vBits` and `vHash`. -/
def traverseAndBuild (nTransactions : UInt32) (vTxid : List UInt256)
    (vMatch : List Bool) :
    Nat → Nat → List Bool × List UInt256 → Option (List Bool × List UInt256)
  | 0, pos, (vBits, vHash) => do
      let fParentOfMatch ← parentOfMatch nTransactions vMatch (pos <<< 0)
        ((pos + 1) <<< 0) false
      let value ← calcHash hash nTransactions vTxid 0 pos
      some (vBits ++ [fParentOfMatch], vHash ++ [value])
  | height + 1, pos, (vBits, vHash) => do
      let fParentOfMatch ← parentOfMatch nTransactions vMatch
        (pos <<< (height + 1)) ((pos + 1) <<< (height + 1)) false
      if fParentOfMatch then
        let built ← traverseAndBuild nTransactions vTxid vMatch height
          (pos * 2) (vBits ++ [fParentOfMatch], vHash)
        if pos * 2 + 1 < calcTreeWidth nTransactions height then
          traverseAndBuild nTransactions vTxid vMatch height (pos * 2 + 1)
            built
        else
          some built
      else
        let value ← calcHash hash nTransactions vTxid (height + 1) pos
        some (vBits ++ [fParentOfMatch], vHash ++ [value])

/-- The constructor for the transactions that match. -/
def construct (vTxid : List UInt256) (vMatch : List Bool) :
    Option CPartialMerkleTree := do
  let nTransactions := UInt32.ofNat vTxid.length
  let (vBits, vHash) ← traverseAndBuild hash nTransactions vTxid vMatch
    (calcHeight nTransactions 0) 0 ([], [])
  some { nTransactions, vBits, vHash, fBad := false }

end Code

/-- What `TraverseAndExtract` changes. -/
structure Extracting where
  nBitsUsed : Nat
  nHashUsed : Nat
  vMatch : List UInt256
  fBad : Bool
deriving DecidableEq, Repr

/-- Read a bit, or fail when there is none. -/
def withBit (tree : CPartialMerkleTree) (state : Extracting)
    (next : Bool → Extracting → Option (UInt256 × Extracting)) :
    Option (UInt256 × Extracting) :=
  if state.nBitsUsed ≥ tree.vBits.length then
    some (0, { state with fBad := true })
  else
    (tree.vBits[state.nBitsUsed]?).bind fun fParentOfMatch =>
      next fParentOfMatch { state with nBitsUsed := state.nBitsUsed + 1 }

/-- Read a hash, that of a transaction or one that stands for a subtree, or
fail when there is none. -/
def storedHash (tree : CPartialMerkleTree) (matched : Bool)
    (state : Extracting) : Option (UInt256 × Extracting) :=
  if state.nHashUsed ≥ tree.vHash.length then
    some (0, { state with fBad := true })
  else
    (tree.vHash[state.nHashUsed]?).map fun value =>
      (value, { state with
        nHashUsed := state.nHashUsed + 1
        vMatch := if matched then state.vMatch ++ [value]
          else state.vMatch })

/-- `TraverseAndExtract`. -/
def traverseAndExtract (hash : UInt256 → UInt256 → UInt256)
    (tree : CPartialMerkleTree) :
    Nat → Nat → Extracting → Option (UInt256 × Extracting)
  | 0, _, state =>
      withBit tree state fun fParentOfMatch state =>
        storedHash tree fParentOfMatch state
  | height + 1, pos, state =>
      withBit tree state fun fParentOfMatch state =>
        if fParentOfMatch then do
          let (left, state) ←
            traverseAndExtract hash tree height (pos * 2) state
          let (right, state) ←
            if pos * 2 + 1 < calcTreeWidth tree.nTransactions height then
              traverseAndExtract hash tree height (pos * 2 + 1) state
            else
              some (left, state)
          some (hash left right, state)
        else
          storedHash tree false state

/-- `ExtractMatches`: the root or zero, `vMatch` and the tree, whose `fBad`
may be set. -/
def extractMatches (hash : UInt256 → UInt256 → UInt256)
    (tree : CPartialMerkleTree) :
    Option (UInt256 × List UInt256 × CPartialMerkleTree) :=
  if tree.nTransactions = 0 then
    some (0, [], tree)
  else if tree.nTransactions.toNat > maxBlockSizeCurrent / 60 then
    some (0, [], tree)
  else if tree.vHash.length > tree.nTransactions.toNat then
    some (0, [], tree)
  else if tree.vBits.length < tree.vHash.length then
    some (0, [], tree)
  else do
    let (hashMerkleRoot, state) ← traverseAndExtract hash tree
      (calcHeight tree.nTransactions 0) 0 ⟨0, 0, [], tree.fBad⟩
    let tree := { tree with fBad := state.fBad }
    if tree.fBad then
      some (0, state.vMatch, tree)
    else if (state.nBitsUsed + 7) / 8 ≠ (tree.vBits.length + 7) / 8 then
      some (0, state.vMatch, tree)
    else if state.nHashUsed ≠ tree.vHash.length then
      some (0, state.vMatch, tree)
    else
      some (hashMerkleRoot, state.vMatch, tree)

/-- What is sent for a tree. -/
def sent : Format ((UInt32 × List UInt256) × Bytes) :=
  (uint32.pair (vector uint256)).pair blob

def serialize (tree : CPartialMerkleTree) : Bytes :=
  sent.encode ((tree.nTransactions, tree.vHash), pack tree.vBits)

def deserialize : Decoder CPartialMerkleTree := do
  let ((nTransactions, vHash), vBytes) ← sent.decode
  pure { nTransactions, vBits := unpack vBytes, vHash, fBad := false }

/-! ## No access outside a vector -/

/-- The counters stay within the vectors. -/
def Within (tree : CPartialMerkleTree) (state : Extracting) : Prop :=
  state.nBitsUsed ≤ tree.vBits.length ∧ state.nHashUsed ≤ tree.vHash.length

theorem withBit_within {tree : CPartialMerkleTree} {state : Extracting}
    (within : Within tree state)
    {next : Bool → Extracting → Option (UInt256 × Extracting)}
    (after : ∀ bit state, Within tree state →
      ∃ value state', next bit state = some (value, state') ∧
        Within tree state') :
    ∃ value state', withBit tree state next = some (value, state') ∧
      Within tree state' := by
  unfold withBit
  split_ifs with overflow
  · exact ⟨0, _, rfl, within⟩
  · rw [List.getElem?_eq_getElem (Nat.not_le.mp overflow)]
    exact after _ _ ⟨Nat.not_le.mp overflow, within.2⟩

theorem storedHash_within {tree : CPartialMerkleTree} {state : Extracting}
    (within : Within tree state) (matched : Bool) :
    ∃ value state', storedHash tree matched state = some (value, state') ∧
      Within tree state' := by
  unfold storedHash
  by_cases overflow : state.nHashUsed ≥ tree.vHash.length
  · rw [if_pos overflow]
    exact ⟨0, _, rfl, within⟩
  · rw [if_neg overflow, List.getElem?_eq_getElem (Nat.not_le.mp overflow)]
    exact ⟨_, _, rfl, within.1, Nat.not_le.mp overflow⟩

theorem traverseAndExtract_within (hash : UInt256 → UInt256 → UInt256)
    {tree : CPartialMerkleTree} (height pos : Nat) {state : Extracting}
    (within : Within tree state) :
    ∃ value state', traverseAndExtract hash tree height pos state =
        some (value, state') ∧ Within tree state' := by
  induction height generalizing pos state with
  | zero =>
      exact withBit_within within fun bit _ inside =>
        storedHash_within inside bit
  | succ height ih =>
      refine withBit_within within fun bit state inside => ?_
      cases bit with
      | false => exact storedHash_within inside false
      | true =>
          rcases ih (pos * 2) inside with ⟨left, middle, ran, still⟩
          simp only [if_true, ran, Option.bind_eq_bind, Option.bind_some]
          by_cases right : pos * 2 + 1 <
              calcTreeWidth tree.nTransactions height
          · rcases ih (pos * 2 + 1) still with ⟨value, last, ran', inside'⟩
            rw [if_pos right, ran']
            exact ⟨_, _, rfl, inside'⟩
          · rw [if_neg right]
            exact ⟨_, _, rfl, still⟩

theorem exists_of_ite {α : Type} {condition : Prop} [Decidable condition]
    {first second : Option α} (one : ∃ result, first = some result)
    (other : ∃ result, second = some result) :
    ∃ result, (if condition then first else second) = some result := by
  by_cases holds : condition
  · rwa [if_pos holds]
  · rwa [if_neg holds]

/-- Extracting from any tree reads within its vectors only. -/
theorem extractMatches_some (hash : UInt256 → UInt256 → UInt256)
    (tree : CPartialMerkleTree) :
    ∃ result, extractMatches hash tree = some result := by
  have start : Within tree ⟨0, 0, [], tree.fBad⟩ :=
    ⟨Nat.zero_le _, Nat.zero_le _⟩
  rcases traverseAndExtract_within hash (calcHeight tree.nTransactions 0) 0
    start with ⟨value, state, ran, _⟩
  unfold extractMatches
  rw [ran]
  rw [Option.bind_eq_bind, Option.bind_some]
  refine exists_of_ite ⟨_, rfl⟩ (exists_of_ite ⟨_, rfl⟩
    (exists_of_ite ⟨_, rfl⟩ (exists_of_ite ⟨_, rfl⟩ ?_)))
  exact exists_of_ite ⟨_, rfl⟩ (exists_of_ite ⟨_, rfl⟩
    (exists_of_ite ⟨_, rfl⟩ ⟨_, rfl⟩))

/-! ## The shape of the tree -/

section Shape

variable {count : Nat}

/-- The limit keeps the widths in the range of the machine words. -/
theorem calcTreeWidth_eq (small : count ≤ maxBlockSizeCurrent / 60)
    {height : Nat} (low : height ≤ 16) :
    calcTreeWidth (UInt32.ofNat count) height = width count height := by
  have limit : maxBlockSizeCurrent / 60 = 33333 := rfl
  have power : 2 ^ height ≤ 2 ^ 16 :=
    Nat.pow_le_pow_right (by omega) low
  unfold calcTreeWidth width
  rw [UInt32.toNat_ofNat', Nat.mod_eq_of_lt (by omega : count < 2 ^ 32),
    Nat.shiftLeft_eq, Nat.one_mul, Nat.mod_eq_of_lt (by omega),
    Nat.shiftRight_eq_div_pow]

/-- The height is the first one with a single value. -/
theorem calcHeight_spec (small : count ≤ maxBlockSizeCurrent / 60)
    {nHeight : Nat} (low : nHeight ≤ 16)
    (long : ∀ lower < nHeight, 1 < width count lower) :
    calcHeight (UInt32.ofNat count) nHeight ≤ 16 ∧
      width count (calcHeight (UInt32.ofNat count) nHeight) ≤ 1 ∧
      ∀ lower < calcHeight (UInt32.ofNat count) nHeight,
        1 < width count lower := by
  have limit : maxBlockSizeCurrent / 60 = 33333 := rfl
  induction rounds : 16 - nHeight generalizing nHeight with
  | zero =>
      obtain rfl : nHeight = 16 := by omega
      have single : ¬ 1 < width count 16 := by
        rw [lt_width_iff]
        omega
      rw [calcHeight, calcTreeWidth_eq small low, if_neg single]
      exact ⟨low, Nat.not_lt.mp single, long⟩
  | succ rounds ih =>
      rw [calcHeight, calcTreeWidth_eq small low]
      split_ifs with wide
      · refine ih (by omega) (fun lower below => ?_) (by omega)
        rcases Nat.lt_succ_iff_lt_or_eq.mp below with less | rfl
        · exact long lower less
        · exact wide
      · exact ⟨low, Nat.not_lt.mp wide, long⟩

end Shape

/-! ## Hashes and matches below a node -/

section Nodes

variable {hash : UInt256 → UInt256 → UInt256} {vTxid : List UInt256}

/-- `CalcHash` is the value in the level. -/
theorem calcHash_eq (small : vTxid.length ≤ maxBlockSizeCurrent / 60)
    {height : Nat} (low : height ≤ 16) {pos : Nat}
    (inside : pos * 2 ^ height < vTxid.length) :
    calcHash hash (UInt32.ofNat vTxid.length) vTxid height pos =
      ((above hash)^[height] vTxid)[pos]? := by
  induction height generalizing pos with
  | zero => rfl
  | succ height ih =>
      have size := length_iterate_above hash vTxid height
      have left : pos * 2 * 2 ^ height < vTxid.length := by
        rwa [Nat.mul_assoc, ← Nat.pow_succ']
      have leftIn := (lt_width_iff vTxid.length height (pos * 2)).mpr left
      rw [← size] at leftIn
      have isLeft := List.getElem?_eq_getElem leftIn
      rw [calcHash, ih (by omega) left, isLeft,
        calcTreeWidth_eq small (by omega), ← size,
        Function.iterate_succ_apply']
      simp only [Option.bind_eq_bind, Option.bind_some]
      generalize ((above hash)^[height] vTxid)[pos * 2] = value at isLeft ⊢
      rw [Nat.mul_comm] at isLeft
      by_cases right : pos * 2 + 1 < ((above hash)^[height] vTxid).length
      · have isRight := List.getElem?_eq_getElem right
        rw [if_pos right, ih (by omega)
          ((lt_width_iff _ _ _).mp (size ▸ right)), isRight]
        refine (getElem?_above isLeft ?_).symm
        rwa [Nat.min_eq_left (by omega), Nat.mul_comm]
      · rw [if_neg right]
        refine (getElem?_above isLeft ?_).symm
        rwa [show min (2 * pos + 1)
          (((above hash)^[height] vTxid).length - 1) = 2 * pos by omega]

/-- The loop finds whether a transaction below the node matches. -/
theorem parentOfMatch_eq {vMatch : List Bool}
    (small : vMatch.length < 2 ^ 32) (p stop : Nat) (fParentOfMatch : Bool) :
    parentOfMatch (UInt32.ofNat vMatch.length) vMatch p stop
        fParentOfMatch =
      some (fParentOfMatch ||
        ((vMatch.drop p).take (stop - p)).any id) := by
  have exact : (UInt32.ofNat vMatch.length).toNat = vMatch.length := by
    rw [UInt32.toNat_ofNat', Nat.mod_eq_of_lt small]
  induction rounds : stop - p generalizing p fParentOfMatch with
  | zero =>
      rw [parentOfMatch, if_neg (by omega)]
      simp
  | succ rounds ih =>
      rw [parentOfMatch, exact]
      by_cases inside : p < vMatch.length
      · rw [if_pos ⟨by omega, inside⟩, List.getElem?_eq_getElem inside,
          Option.bind_some, ih _ _ (by omega),
          List.drop_eq_getElem_cons inside, List.take_succ_cons,
          List.any_cons, Bool.or_assoc]
        rfl
      · rw [if_neg (fun both => inside both.2),
          List.drop_eq_nil_of_le (by omega)]
        simp

theorem parentOfMatch_under {vMatch : List Bool}
    (small : vMatch.length < 2 ^ 32) (height pos : Nat) :
    parentOfMatch (UInt32.ofNat vMatch.length) vMatch (pos <<< height)
        ((pos + 1) <<< height) false =
      some ((under height pos vMatch).any id) := by
  rw [parentOfMatch_eq small, Nat.shiftLeft_eq, Nat.shiftLeft_eq,
    Nat.add_mul, Nat.add_sub_cancel_left, Nat.one_mul, Bool.false_or]
  rfl

/-- The transactions that match, in their order. -/
def selected (vTxid : List UInt256) (vMatch : List Bool) : List UInt256 :=
  ((vTxid.zip vMatch).filter Prod.snd).map Prod.fst

theorem selected_append {first second : List UInt256}
    {matched others : List Bool} (same : first.length = matched.length) :
    selected (first ++ second) (matched ++ others) =
      selected first matched ++ selected second others := by
  unfold selected
  rw [List.zip_append same, List.filter_append, List.map_append]

theorem selected_none {vTxid : List UInt256} {vMatch : List Bool}
    (unmatched : vMatch.any id = false) : selected vTxid vMatch = [] := by
  unfold selected
  rw [List.map_eq_nil_iff, List.filter_eq_nil_iff]
  rintro ⟨txid, matched⟩ member isMatch
  have inside := (List.of_mem_zip member).2
  rw [List.any_eq_false] at unmatched
  exact unmatched matched inside isMatch

end Nodes

/-! ## Building and extracting -/

/-- So many bits and hashes are used, and these transactions match. -/
def Extracting.advance (state : Extracting) (bits hashes : Nat)
    (matched : List UInt256) : Extracting :=
  { state with
    nBitsUsed := state.nBitsUsed + bits
    nHashUsed := state.nHashUsed + hashes
    vMatch := state.vMatch ++ matched }

theorem Extracting.advance_advance (state : Extracting)
    (bits hashes bits' hashes' : Nat) (matched matched' : List UInt256) :
    (state.advance bits hashes matched).advance bits' hashes' matched' =
      state.advance (bits + bits') (hashes + hashes')
        (matched ++ matched') := by
  simp [Extracting.advance, Nat.add_assoc]

section Walk

variable {hash : UInt256 → UInt256 → UInt256} {tree : CPartialMerkleTree}
  {state : Extracting} {bits bits' : List Bool}
  {hashes hashes' matched matched' : List UInt256} {height pos : Nat}
  {left right : UInt256}

/-- These bits and hashes are read next. -/
def Ahead (tree : CPartialMerkleTree) (state : Extracting)
    (bits : List Bool) (hashes : List UInt256) : Prop :=
  bits <+: tree.vBits.drop state.nBitsUsed ∧
    hashes <+: tree.vHash.drop state.nHashUsed

theorem prefix_drop {α : Type} {first second list : List α} {count : Nat}
    (ahead : first ++ second <+: list.drop count) :
    second <+: list.drop (count + first.length) := by
  rcases ahead with ⟨later, whole⟩
  refine ⟨later, ?_⟩
  rw [← List.drop_drop, ← whole, List.append_assoc, List.drop_left]

theorem Ahead.first
    (ahead : Ahead tree state (bits ++ bits') (hashes ++ hashes')) :
    Ahead tree state bits hashes :=
  ⟨(List.prefix_append _ _).trans ahead.1,
    (List.prefix_append _ _).trans ahead.2⟩

theorem Ahead.second (matched : List UInt256)
    (ahead : Ahead tree state (bits ++ bits') (hashes ++ hashes')) :
    Ahead tree (state.advance bits.length hashes.length matched) bits'
      hashes' :=
  ⟨prefix_drop ahead.1, prefix_drop ahead.2⟩

theorem Ahead.after_bit {bit : Bool}
    (ahead : Ahead tree state (bit :: bits) hashes) :
    Ahead tree (state.advance 1 0 []) bits hashes :=
  ⟨prefix_drop (show [bit] ++ bits <+: _ from ahead.1), ahead.2⟩

theorem getElem?_of_prefix_drop {α : Type} {value : α} {rest list : List α}
    {count : Nat} (ahead : value :: rest <+: list.drop count) :
    count < list.length ∧ list[count]? = some value := by
  rcases ahead with ⟨later, whole⟩
  have found : (list.drop count)[0]? = some value := by
    rw [← whole]
    rfl
  rw [List.getElem?_drop, Nat.add_zero] at found
  exact ⟨(List.getElem?_eq_some_iff.mp found).1, found⟩

theorem withBit_read {bit : Bool}
    (ahead : Ahead tree state (bit :: bits) hashes)
    (next : Bool → Extracting → Option (UInt256 × Extracting)) :
    withBit tree state next = next bit (state.advance 1 0 []) := by
  rcases getElem?_of_prefix_drop ahead.1 with ⟨inside, found⟩
  unfold withBit
  rw [if_neg (Nat.not_le.mpr inside), found, Option.bind_some]
  simp [Extracting.advance]

theorem storedHash_read {value : UInt256}
    (ahead : Ahead tree state bits (value :: hashes)) (isMatch : Bool) :
    storedHash tree isMatch state = some (value,
      state.advance 0 1 (if isMatch then [value] else [])) := by
  rcases getElem?_of_prefix_drop ahead.2 with ⟨inside, found⟩
  unfold storedHash
  rw [if_neg (Nat.not_le.mpr inside), found]
  cases isMatch <;> simp [Extracting.advance]

/-- Extracting reads these bits and hashes, and returns the value of the node
and the transactions that match. -/
def Extracts (hash : UInt256 → UInt256 → UInt256) (tree : CPartialMerkleTree)
    (height pos : Nat) (bits : List Bool) (hashes : List UInt256)
    (top : UInt256) (matched : List UInt256) : Prop :=
  ∀ state, Ahead tree state bits hashes →
    traverseAndExtract hash tree height pos state =
      some (top, state.advance bits.length hashes.length matched)

theorem extracts_leaf (bit : Bool) (value : UInt256) (pos : Nat) :
    Extracts hash tree 0 pos [bit] [value] value
      (if bit then [value] else []) := by
  intro state ahead
  rw [traverseAndExtract, withBit_read ahead,
    storedHash_read ahead.after_bit, Extracting.advance_advance]
  rfl

theorem extracts_unmatched (height pos : Nat) (value : UInt256) :
    Extracts hash tree (height + 1) pos [false] [value] value [] := by
  intro state ahead
  rw [traverseAndExtract, withBit_read ahead, if_neg Bool.false_ne_true,
    storedHash_read ahead.after_bit, Extracting.advance_advance]
  rfl

/-- A node with two children. -/
theorem extracts_both
    (wide : pos * 2 + 1 < calcTreeWidth tree.nTransactions height)
    (first : Extracts hash tree height (pos * 2) bits hashes left matched)
    (second : Extracts hash tree height (pos * 2 + 1) bits' hashes' right
      matched') :
    Extracts hash tree (height + 1) pos (true :: (bits ++ bits'))
      (hashes ++ hashes') (hash left right) (matched ++ matched') := by
  intro state ahead
  have below := ahead.after_bit
  rw [traverseAndExtract, withBit_read ahead, if_pos rfl,
    first _ below.first]
  simp only [Option.bind_eq_bind, Option.bind_some, if_pos wide]
  rw [second _ (below.second matched)]
  simp only [Option.bind_some, Extracting.advance_advance]
  rw [List.length_cons, List.length_append, List.length_append,
    Nat.add_comm 1, Nat.zero_add, Nat.add_right_comm, List.nil_append]

/-- A node whose only child is paired with itself. -/
theorem extracts_single
    (ragged : ¬ pos * 2 + 1 < calcTreeWidth tree.nTransactions height)
    (first : Extracts hash tree height (pos * 2) bits hashes left matched) :
    Extracts hash tree (height + 1) pos (true :: bits) hashes
      (hash left left) matched := by
  intro state ahead
  rw [traverseAndExtract, withBit_read ahead, if_pos rfl,
    first _ ahead.after_bit]
  simp only [Option.bind_eq_bind, Option.bind_some, if_neg ragged,
    Extracting.advance_advance]
  rw [List.length_cons, Nat.add_comm 1, Nat.zero_add, List.nil_append]

end Walk

section Trees

variable {hash : UInt256 → UInt256 → UInt256} {vTxid : List UInt256}
  {vMatch : List Bool}

/-- What the walk writes for a node, and that extracting undoes it. -/
structure Built (hash : UInt256 → UInt256 → UInt256) (vTxid : List UInt256)
    (vMatch : List Bool) (height pos : Nat) (bits : List Bool)
    (hashes : List UInt256) (top : UInt256) : Prop where
  written : ∀ vBits vHash,
    traverseAndBuild hash (UInt32.ofNat vTxid.length) vTxid vMatch height pos
      (vBits, vHash) = some (vBits ++ bits, vHash ++ hashes)
  value : calcHash hash (UInt32.ofNat vTxid.length) vTxid height pos =
    some top
  fewHashes : hashes.length ≤ (under height pos vTxid).length
  fewerHashes : hashes.length ≤ bits.length
  fewBits : bits.length < 2 ^ (height + 1)
  extracts : ∀ tree : CPartialMerkleTree,
    tree.nTransactions = UInt32.ofNat vTxid.length →
      Extracts hash tree height pos bits hashes top
        (selected (under height pos vTxid) (under height pos vMatch))

theorem calcHash_some (hash : UInt256 → UInt256 → UInt256)
    (small : vTxid.length ≤ maxBlockSizeCurrent / 60)
    {height : Nat} (low : height ≤ 16) {pos : Nat}
    (inside : pos * 2 ^ height < vTxid.length) :
    ∃ top, calcHash hash (UInt32.ofNat vTxid.length) vTxid height pos =
      some top := by
  have bound := (lt_width_iff vTxid.length height pos).mpr inside
  rw [← length_iterate_above hash] at bound
  exact ⟨_, (calcHash_eq small low inside).trans
    (List.getElem?_eq_getElem bound)⟩

/-- A node without a match below it is not descended into. -/
theorem built_unmatched (hash : UInt256 → UInt256 → UInt256)
    (small : vTxid.length ≤ maxBlockSizeCurrent / 60)
    (matched : vMatch.length = vTxid.length) {height : Nat}
    (low : height + 1 ≤ 16) {pos : Nat}
    (inside : pos * 2 ^ (height + 1) < vTxid.length)
    (unmatched : (under (height + 1) pos vMatch).any id = false) :
    ∃ bits hashes top,
      Built hash vTxid vMatch (height + 1) pos bits hashes top := by
  have limit : maxBlockSizeCurrent / 60 = 33333 := rfl
  rcases calcHash_some hash small low inside with ⟨top, value⟩
  refine ⟨[false], [top], top, ?_, value, length_under_pos inside, le_rfl,
    ?_, ?_⟩
  · intro vBits vHash
    have parent := parentOfMatch_under (show vMatch.length < 2 ^ 32 by omega)
      (height + 1) pos
    rw [matched, unmatched] at parent
    rw [traverseAndBuild, parent]
    simp [value]
  · exact Nat.one_lt_two_pow (by omega)
  · intro tree _
    rw [selected_none unmatched]
    exact extracts_unmatched height pos top

theorem built_leaf (hash : UInt256 → UInt256 → UInt256)
    (small : vTxid.length ≤ maxBlockSizeCurrent / 60)
    (matched : vMatch.length = vTxid.length) {pos : Nat}
    (inside : pos < vTxid.length) :
    ∃ bits hashes top, Built hash vTxid vMatch 0 pos bits hashes top := by
  have limit : maxBlockSizeCurrent / 60 = 33333 := rfl
  have isTxid := List.getElem?_eq_getElem inside
  have isMatch := List.getElem?_eq_getElem (matched ▸ inside)
  refine ⟨[vMatch[pos]], [vTxid[pos]], vTxid[pos], ?_, isTxid, ?_, le_rfl,
    by simp, ?_⟩
  · intro vBits vHash
    have parent := parentOfMatch_under
      (show vMatch.length < 2 ^ 32 by omega) 0 pos
    rw [matched, under_zero isMatch] at parent
    rw [traverseAndBuild, parent]
    simp [calcHash, isTxid]
  · exact (congrArg List.length (under_zero isTxid)).ge
  · intro tree _
    rw [under_zero isTxid, under_zero isMatch]
    have same : selected [vTxid[pos]] [vMatch[pos]] =
        if vMatch[pos] then [vTxid[pos]] else [] := by
      cases vMatch[pos] <;> rfl
    rw [same]
    exact extracts_leaf vMatch[pos] vTxid[pos] pos

theorem parentOfMatch_true (small : vTxid.length ≤ maxBlockSizeCurrent / 60)
    (matched : vMatch.length = vTxid.length) {height pos : Nat}
    (isMatch : (under height pos vMatch).any id = true) :
    parentOfMatch (UInt32.ofNat vTxid.length) vMatch (pos <<< height)
      ((pos + 1) <<< height) false = some true := by
  have limit : maxBlockSizeCurrent / 60 = 33333 := rfl
  have parent := parentOfMatch_under
    (show vMatch.length < 2 ^ 32 by omega) height pos
  rwa [matched, isMatch] at parent

/-- A node is written with two children below it. -/
theorem Built.both (small : vTxid.length ≤ maxBlockSizeCurrent / 60)
    (matched : vMatch.length = vTxid.length) {height : Nat}
    (low : height ≤ 16) {pos : Nat}
    (isMatch : (under (height + 1) pos vMatch).any id = true)
    (wide : pos * 2 + 1 < width vTxid.length height)
    {bits bits' : List Bool} {hashes hashes' : List UInt256}
    {left right : UInt256}
    (first : Built hash vTxid vMatch height (pos * 2) bits hashes left)
    (second : Built hash vTxid vMatch height (pos * 2 + 1) bits' hashes'
      right) :
    Built hash vTxid vMatch (height + 1) pos (true :: (bits ++ bits'))
      (hashes ++ hashes') (hash left right) where
  written := by
    intro vBits vHash
    have both := calcTreeWidth_eq small low
    rw [traverseAndBuild, parentOfMatch_true small matched isMatch]
    simp only [Option.bind_eq_bind, Option.bind_some, if_true, both,
      if_pos wide, first.written, second.written, List.append_assoc,
      List.cons_append, List.nil_append]
  value := by
    simp only [calcHash, first.value, calcTreeWidth_eq small low,
      if_pos wide, second.value, Option.bind_eq_bind, Option.bind_some]
  fewHashes := by
    rw [under_succ, List.length_append, List.length_append]
    exact Nat.add_le_add first.fewHashes second.fewHashes
  fewerHashes := by
    have fewer := Nat.add_le_add first.fewerHashes second.fewerHashes
    rw [List.length_append, List.length_cons, List.length_append]
    omega
  fewBits := by
    have one := first.fewBits
    have two := second.fewBits
    rw [List.length_cons, List.length_append, Nat.pow_succ]
    omega
  extracts := by
    intro tree same
    have lengths := length_under_congr matched.symm height (pos * 2)
    rw [under_succ, under_succ, selected_append lengths]
    refine extracts_both ?_ (first.extracts tree same)
      (second.extracts tree same)
    rwa [same, calcTreeWidth_eq small low]

/-- A node is written with one child below it. -/
theorem Built.single (small : vTxid.length ≤ maxBlockSizeCurrent / 60)
    (matched : vMatch.length = vTxid.length) {height : Nat}
    (low : height ≤ 16) {pos : Nat}
    (isMatch : (under (height + 1) pos vMatch).any id = true)
    (ragged : ¬ pos * 2 + 1 < width vTxid.length height)
    {bits : List Bool} {hashes : List UInt256} {left : UInt256}
    (first : Built hash vTxid vMatch height (pos * 2) bits hashes left) :
    Built hash vTxid vMatch (height + 1) pos (true :: bits) hashes
      (hash left left) where
  written := by
    intro vBits vHash
    have single := calcTreeWidth_eq small low
    rw [traverseAndBuild, parentOfMatch_true small matched isMatch]
    simp only [Option.bind_eq_bind, Option.bind_some, if_true, single,
      if_neg ragged, first.written, List.append_assoc,
      List.singleton_append]
  value := by
    simp only [calcHash, first.value, calcTreeWidth_eq small low,
      if_neg ragged, Option.bind_eq_bind, Option.bind_some]
  fewHashes := by
    rw [under_succ, List.length_append]
    exact first.fewHashes.trans (Nat.le_add_right _ _)
  fewerHashes := first.fewerHashes.trans (Nat.le_succ _)
  fewBits := by
    have one := first.fewBits
    rw [List.length_cons, Nat.pow_succ]
    omega
  extracts := by
    intro tree same
    have behind : vTxid.length ≤ (pos * 2 + 1) * 2 ^ height := by
      rwa [lt_width_iff, Nat.not_lt] at ragged
    have behind' : vMatch.length ≤ (pos * 2 + 1) * 2 ^ height := by
      rwa [matched]
    rw [under_succ, under_succ, under_eq_nil behind, under_eq_nil behind',
      List.append_nil, List.append_nil]
    refine extracts_single ?_ (first.extracts tree same)
    rwa [same, calcTreeWidth_eq small low]

/-- The walk over a node and the extraction from what it wrote. -/
theorem built_node (hash : UInt256 → UInt256 → UInt256)
    (small : vTxid.length ≤ maxBlockSizeCurrent / 60)
    (matched : vMatch.length = vTxid.length) {height : Nat}
    (low : height ≤ 16) {pos : Nat}
    (inside : pos * 2 ^ height < vTxid.length) :
    ∃ bits hashes top, Built hash vTxid vMatch height pos bits hashes top := by
  induction height generalizing pos with
  | zero => exact built_leaf hash small matched (by simpa using inside)
  | succ height ih =>
      by_cases unmatched : (under (height + 1) pos vMatch).any id = false
      · exact built_unmatched hash small matched low inside unmatched
      · rw [Bool.not_eq_false] at unmatched
        have onLeft : pos * 2 * 2 ^ height < vTxid.length := by
          rwa [Nat.mul_assoc, ← Nat.pow_succ']
        rcases ih (by omega) onLeft with ⟨bits, hashes, left, first⟩
        by_cases wide : pos * 2 + 1 < width vTxid.length height
        · rcases ih (by omega) ((lt_width_iff _ _ _).mp wide) with
            ⟨bits', hashes', right, second⟩
          exact ⟨_, _, _, .both small matched (by omega) unmatched wide
            first second⟩
        · exact ⟨_, _, _, .single small matched (by omega) unmatched wide
            first⟩

/-! ## The round trip -/

theorem deserialize_serialize {tree : CPartialMerkleTree}
    (fewHashes : tree.vHash.length ≤ maxSize)
    (fewBits : (tree.vBits.length + 7) / 8 ≤ maxSize) (rest : Bytes) :
    deserialize (serialize tree ++ rest) =
      .ok ({ tree with
        vBits := unpack (pack tree.vBits)
        fBad := false }, rest) := by
  have fits : sent.Fits ((tree.nTransactions, tree.vHash),
      pack tree.vBits) :=
    ⟨⟨trivial, fewHashes, fun _ _ => trivial⟩,
      (length_pack tree.vBits).trans_le fewBits⟩
  exact (sent.lossless _ fits).run _ rest

/-- The whole tree is written, and its value is the merkle root. -/
theorem built_root (hash : UInt256 → UInt256 → UInt256)
    (small : vTxid.length ≤ maxBlockSizeCurrent / 60)
    (nonempty : vTxid ≠ []) (matched : vMatch.length = vTxid.length) :
    ∃ bits hashes,
      Built hash vTxid vMatch (calcHeight (UInt32.ofNat vTxid.length) 0) 0
        bits hashes (MerkleRoot.buildMerkleTree hash vTxid).1 ∧
      bits.length < 2 ^ 17 := by
  have positive := List.length_pos_of_ne_nil nonempty
  rcases calcHeight_spec small (Nat.zero_le 16) nofun with
    ⟨low, single, long⟩
  generalize calcHeight (UInt32.ofNat vTxid.length) 0 = height at *
  have inside : 0 * 2 ^ height < vTxid.length := by omega
  rcases built_node hash small matched low inside with
    ⟨bits, hashes, top, built⟩
  have some := (lt_width_iff vTxid.length height 0).mpr inside
  have size := length_iterate_above hash vTxid height
  obtain ⟨root, level⟩ := List.length_eq_one_iff.mp
    (show ((above hash)^[height] vTxid).length = 1 by omega)
  have isTop := (calcHash_eq small low inside).symm.trans built.value
  rw [level] at isTop
  cases isTop
  have isLevel := iterate_level hash long
  rw [level] at isLevel
  rcases (MerkleRoot.buildMerkleTree_spec hash nonempty).1 with ⟨_, isRoot⟩
  rw [root_unique isLevel isRoot] at built
  refine ⟨bits, hashes, built, ?_⟩
  exact built.fewBits.trans_le (Nat.pow_le_pow_right (by omega) (by omega))

theorem under_whole {β : Type} {leaves : List β} {height : Nat}
    (single : width leaves.length height ≤ 1) :
    under height 0 leaves = leaves := by
  have short := (lt_width_iff leaves.length height 1).not.mp
    (Nat.not_lt.mpr single)
  unfold under
  rw [Nat.zero_mul, List.drop_zero, List.take_of_length_le (by omega)]

/-- Extracting from the padded bits gives the root and the matches. -/
theorem extractMatches_built (small : vTxid.length ≤ maxBlockSizeCurrent / 60)
    (nonempty : vTxid ≠ []) (matched : vMatch.length = vTxid.length)
    {bits : List Bool} {hashes : List UInt256} {root : UInt256}
    (built : Built hash vTxid vMatch
      (calcHeight (UInt32.ofNat vTxid.length) 0) 0 bits hashes root)
    {tree : CPartialMerkleTree}
    (tree_eq : tree = ⟨UInt32.ofNat vTxid.length, unpack (pack bits), hashes,
      false⟩) :
    extractMatches hash tree = some (root, selected vTxid vMatch, tree) := by
  have limit : maxBlockSizeCurrent / 60 = 33333 := rfl
  have positive := List.length_pos_of_ne_nil nonempty
  have count : tree.nTransactions.toNat = vTxid.length := by
    rw [tree_eq, UInt32.toNat_ofNat', Nat.mod_eq_of_lt (by omega)]
  have some' : tree.nTransactions ≠ 0 := by
    intro zero
    rw [zero] at count
    exact absurd count.symm positive.ne'
  have isHashes : tree.vHash = hashes := by rw [tree_eq]
  have isBits : tree.vBits = bits ++ List.replicate
      ((bits.length + 7) / 8 * 8 - bits.length) false := by
    rw [tree_eq]
    exact unpack_pack bits
  have size : tree.vBits.length = (bits.length + 7) / 8 * 8 := by
    rw [isBits, List.length_append, List.length_replicate]
    omega
  have whole := (calcHeight_spec small (Nat.zero_le 16) nofun).2.1
  have fewHashes := built.fewHashes
  rw [under_whole whole] at fewHashes
  have fewerHashes := built.fewerHashes
  have numHashes := congrArg List.length isHashes
  have sameCount : tree.nTransactions = UInt32.ofNat vTxid.length := by
    rw [tree_eq]
  have ahead : Ahead tree ⟨0, 0, [], tree.fBad⟩ bits hashes := by
    refine ⟨?_, ?_⟩
    · rw [List.drop_zero, isBits]
      exact List.prefix_append _ _
    · rw [List.drop_zero, isHashes]
  have extracted := built.extracts tree sameCount _ ahead
  rw [under_whole whole, under_whole (matched ▸ whole)] at extracted
  unfold extractMatches
  rw [if_neg some', if_neg (by omega), if_neg (by omega), if_neg (by omega),
    sameCount, extracted]
  have good : tree.fBad = false := by rw [tree_eq]
  simp only [Option.bind_eq_bind, Option.bind_some, Extracting.advance]
  rw [good, if_neg Bool.false_ne_true, if_neg (by omega), if_neg (by omega)]
  rw [tree_eq]
  rfl

/--
The tree of a block's transactions and a subset of them survives being sent,
and extracting from what is received gives the merkle root and the subset.
Whatever is received, extracting returns without leaving the vectors.
-/
theorem partial_merkle_round_trip (hash : UInt256 → UInt256 → UInt256) :
    (∀ vTxid vMatch, vTxid ≠ [] →
      vTxid.length ≤ maxBlockSizeCurrent / 60 →
      vMatch.length = vTxid.length →
        ∃ tree, construct hash vTxid vMatch = some tree ∧
          ∀ rest, ∃ received,
            deserialize (serialize tree ++ rest) = .ok (received, rest) ∧
            extractMatches hash received =
              some ((MerkleRoot.buildMerkleTree hash vTxid).1,
                selected vTxid vMatch, received)) ∧
    ∀ bytes tree rest, deserialize bytes = .ok (tree, rest) →
      ∃ result, extractMatches hash tree = some result := by
  refine ⟨?_, fun _ tree _ _ => extractMatches_some hash tree⟩
  intro vTxid vMatch nonempty small matched
  rcases built_root hash small nonempty matched with
    ⟨bits, hashes, built, fewBits⟩
  refine ⟨⟨UInt32.ofNat vTxid.length, bits, hashes, false⟩, ?_, ?_⟩
  · have written := built.written [] []
    rw [List.nil_append, List.nil_append] at written
    unfold construct
    simp only [written, Option.bind_eq_bind, Option.bind_some]
  · intro rest
    have fewHashes := built.fewerHashes
    have limit : maxSize = 33554432 := rfl
    exact ⟨_, deserialize_serialize (by dsimp only; omega)
      (by dsimp only; omega) rest,
      extractMatches_built small nonempty matched built rfl⟩

/-- Three transactions, of which the last one matches. -/
theorem partial_merkle_round_trip_three :
    ∃ tree received,
      construct MerkleRoot.sideBySide [1, 2, 3] [false, false, true] =
        some tree ∧
      deserialize (serialize tree) = .ok (received, []) ∧
      extractMatches MerkleRoot.sideBySide received =
        some ((MerkleRoot.buildMerkleTree MerkleRoot.sideBySide [1, 2, 3]).1,
          [3], received) := by
  rcases (partial_merkle_round_trip MerkleRoot.sideBySide).1 [1, 2, 3]
    [false, false, true] (by decide) (by decide) rfl with
    ⟨tree, constructed, survives⟩
  rcases survives [] with ⟨received, arrived, extracted⟩
  rw [List.append_nil] at arrived
  exact ⟨tree, received, constructed, arrived, extracted⟩

end Trees

end PrivateDatagram.Consensus.PartialMerkleTree
