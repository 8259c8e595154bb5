import PrivateDatagram.Chainstate.Coins
import PrivateDatagram.Library.BitPacking

/-!
# The mask of a coin record

A record of coins says which outputs are unspent.  The first two have flags in
the header code, and every further eight share a byte of a mask.  Bytes behind
the last one that is not zero are left out, and the header code counts the
bytes that are not zero.  The reader takes bytes until it has seen as many.
-/

namespace PrivateDatagram.Chainstate.CoinsMask

open Library.ByteFormat Library.BitPacking Wire.Transaction Coins

/-! ## Flags of a byte -/

/-- The byte whose bit `i` is the flag `i`. -/
def packByte (flag : Nat → Bool) : UInt8 :=
  (List.range 8).foldl
    (fun chAvail i =>
      if flag i then chAvail ||| 1 <<< UInt8.ofNat i else chAvail) 0

/-- The flags of a byte, as the loop over `p` appends them. -/
def byteFlags (chAvail : UInt8) : List Bool :=
  (List.range 8).map fun p => chAvail &&& 1 <<< UInt8.ofNat p ≠ 0

/-- The loop sets the bits of the flags it has come to. -/
theorem testBit_pack (flag : Nat → Bool) {indices : List Nat}
    (inside : ∀ i ∈ indices, i < 8) (chAvail : UInt8) (p : Nat) :
    (indices.foldl (fun chAvail i =>
        if flag i then chAvail ||| 1 <<< UInt8.ofNat i else chAvail)
      chAvail).toNat.testBit p =
      (chAvail.toNat.testBit p || (decide (p ∈ indices) && flag p)) := by
  induction indices generalizing chAvail with
  | nil => simp
  | cons i indices ih =>
      rw [List.forall_mem_cons] at inside
      rw [List.foldl_cons, ih inside.2]
      by_cases set : flag i = true
      · have here : (chAvail ||| 1 <<< UInt8.ofNat i).toNat.testBit p =
            (chAvail.toNat.testBit p || decide (p = i)) := by
          rw [UInt8.toNat_or, Nat.testBit_or]
          congr 1
          exact (testBit_shifted true inside.1).trans (Bool.true_and _)
        rw [if_pos set, here, Bool.or_assoc]
        by_cases same : p = i
        · simp [same, set]
        · simp [same]
      · rw [if_neg set]
        by_cases same : p = i
        · simp [same, set]
        · simp [same]

/-- Every combination of eight flags comes back. -/
theorem byteFlags_packByte (flag : Nat → Bool) :
    byteFlags (packByte flag) = (List.range 8).map flag := by
  refine List.map_congr_left fun p member => ?_
  have inside := List.mem_range.mp member
  have bit := testBit_byte (packByte flag) inside
  have packed := testBit_pack flag (fun i => List.mem_range.mp) 0 p
  rw [UInt8.toNat_zero, Nat.zero_testBit, Bool.false_or,
    decide_eq_true member, Bool.true_and] at packed
  rw [← packed, Bool.eq_iff_iff, decide_eq_true_iff, ← bne_iff_ne, bit]
  rfl

theorem packByte_eq_zero_iff (flag : Nat → Bool) :
    packByte flag = 0 ↔ (List.range 8).any flag = false := by
  constructor
  · intro zero
    have flags := byteFlags_packByte flag
    rw [zero] at flags
    have none : byteFlags 0 = List.replicate 8 false := by decide
    rw [List.any_eq_false]
    intro i member set
    have found := List.mem_map_of_mem (f := flag) member
    rw [← flags, none, set] at found
    exact absurd found (by decide)
  · intro none
    rw [List.any_eq_false] at none
    have zero : ∀ (indices : List Nat) (chAvail : UInt8),
        (∀ i ∈ indices, ¬ flag i = true) →
        indices.foldl (fun chAvail i =>
          if flag i then chAvail ||| 1 <<< UInt8.ofNat i else chAvail)
          chAvail = chAvail := by
      intro indices chAvail unset
      induction indices with
      | nil => rfl
      | cons i indices ih =>
          rw [List.foldl_cons, if_neg (unset i (by simp))]
          exact ih fun i member => unset i (by simp [member])
    exact zero _ 0 none

/-! ## The mask of the outputs -/

/-- `i < vout.size() && !vout[i].IsNull()`. -/
def available (vout : List CTxOut) (i : Nat) : Bool :=
  (vout[i]?).any fun txout => !isNull txout

/-- `!fZero` for the byte `b`. -/
def byteUsed (vout : List CTxOut) (b : Nat) : Bool :=
  (List.range 8).any fun i => available vout (2 + b * 8 + i)

/-- `chAvail` for the byte `b`. -/
def chAvail (vout : List CTxOut) (b : Nat) : UInt8 :=
  packByte fun i => available vout (2 + b * 8 + i)

/-- One round of `CalcMaskSize`: `nLastUsedByte` and `nNonzeroBytes`. -/
def maskStep (vout : List CTxOut) (sizes : Nat × Nat) (b : Nat) : Nat × Nat :=
  if byteUsed vout b then (b + 1, sizes.2 + 1) else sizes

/--
`CalcMaskSize`: the bytes of the mask and those that are not zero.  With more
outputs the 32 bits of `2 + b * 8` wrap before they reach the size, and the
loop does not end.
-/
def calcMaskSize (vout : List CTxOut) : Option (Nat × Nat) :=
  if vout.length ≤ 2 ^ 32 - 6 then
    some ((List.range ((vout.length + 5) / 8)).foldl (maskStep vout) (0, 0))
  else none

/-- The mask that `Serialize` writes. -/
def maskBytes (vout : List CTxOut) (nMaskSize : Nat) : Bytes :=
  (List.range nMaskSize).map (chAvail vout)

theorem chAvail_ne_zero_iff (vout : List CTxOut) (b : Nat) :
    chAvail vout b ≠ 0 ↔ byteUsed vout b = true := by
  rw [chAvail, Ne, packByte_eq_zero_iff, byteUsed, Bool.not_eq_false]

/-- After `n` rounds: the last byte used, and how many of them there are. -/
structure Counted (vout : List CTxOut) (n : Nat) (sizes : Nat × Nat) :
    Prop where
  within : sizes.1 ≤ n
  count : sizes.2 = (List.range sizes.1).countP (byteUsed vout)
  last : sizes.1 ≠ 0 → byteUsed vout (sizes.1 - 1) = true
  behind : ∀ b, sizes.1 ≤ b → b < n → byteUsed vout b = false

theorem counted_start (vout : List CTxOut) : Counted vout 0 (0, 0) :=
  ⟨Nat.le_refl 0, rfl, fun nonzero => absurd rfl nonzero, fun _ _ less =>
    absurd less (Nat.not_lt_zero _)⟩

theorem Counted.step {vout : List CTxOut} {n : Nat} {sizes : Nat × Nat}
    (counted : Counted vout n sizes) :
    Counted vout (n + 1) (maskStep vout sizes n) := by
  rw [maskStep]
  split_ifs with used
  · -- The bytes between the last one used and this one are zero.
    have between : (List.range n).countP (byteUsed vout) =
        (List.range sizes.1).countP (byteUsed vout) := by
      have split : n = sizes.1 + (n - sizes.1) := by
        have within := counted.within
        omega
      rw [split, List.range_add, List.countP_append, List.countP_map,
        Nat.add_eq_left, List.countP_eq_zero]
      intro i member
      have less := List.mem_range.mp member
      have unused := counted.behind (sizes.1 + i) (by omega) (by omega)
      simp [unused]
    refine ⟨Nat.le_refl _, ?_, fun _ => used, ?_⟩
    · show sizes.2 + 1 = _
      rw [List.range_succ, List.countP_append, between, counted.count,
        List.countP_singleton, used]
      rfl
    · intro b least less
      exact absurd less (Nat.not_lt.mpr least)
  · refine ⟨Nat.le_succ_of_le counted.within, counted.count, counted.last, ?_⟩
    intro b least less
    rcases Nat.lt_succ_iff_lt_or_eq.mp less with before | rfl
    · exact counted.behind b least before
    · simpa using used

theorem counted_foldl (vout : List CTxOut) (n : Nat) :
    Counted vout n ((List.range n).foldl (maskStep vout) (0, 0)) := by
  induction n with
  | zero => exact counted_start vout
  | succ n ih =>
      rw [List.range_succ, List.foldl_append]
      exact ih.step

theorem calcMaskSize_eq {vout : List CTxOut} {nMaskSize nMaskCode : Nat}
    (calculated : calcMaskSize vout = some (nMaskSize, nMaskCode)) :
    vout.length ≤ 2 ^ 32 - 6 ∧
      Counted vout ((vout.length + 5) / 8) (nMaskSize, nMaskCode) := by
  rw [calcMaskSize] at calculated
  split_ifs at calculated with fits
  rw [← Option.some.inj calculated]
  exact ⟨fits, counted_foldl vout _⟩

/-! ## Reading the mask -/

/-- The loop of `Unserialize` over the mask. -/
def readMask : Nat → Bytes → Except StreamError (List Bool × Bytes)
  | 0, input => .ok ([], input)
  | _ + 1, [] => .error .endOfData
  | nMaskCode + 1, chAvail :: rest =>
      (readMask (if chAvail ≠ 0 then nMaskCode else nMaskCode + 1) rest).map
        fun read => (byteFlags chAvail ++ read.1, read.2)

/-- Bytes that do not end in zero are read to their end. -/
theorem readMask_consumes (mask : Bytes)
    (ended : ∀ chAvail ∈ mask.getLast?, chAvail ≠ 0) :
    Consumes (readMask (mask.countP (· ≠ 0))) mask
      (mask.flatMap byteFlags) := by
  intro rest
  induction mask with
  | nil =>
      rw [List.countP_nil, List.nil_append, readMask]
      rfl
  | cons chAvail mask ih =>
      have later : ∀ chAvail ∈ mask.getLast?, chAvail ≠ 0 := by
        intro last found
        apply ended
        rw [List.getLast?_cons, Option.mem_def.mp found]
        rfl
      have read := ih later
      rw [List.countP_cons, List.cons_append, List.flatMap_cons]
      by_cases used : chAvail ≠ 0
      · rw [if_pos (by simpa using used), readMask, if_pos used, read]
        rfl
      · have more : mask.countP (· ≠ 0) ≠ 0 := by
          intro none
          cases mask with
          | nil => exact used (ended chAvail rfl)
          | cons next mask =>
              have last := List.getLast?_eq_some_getLast (List.cons_ne_nil next mask)
              have nonzero := later _ last
              exact List.countP_eq_zero.mp none _
                (List.getLast_mem (List.cons_ne_nil next mask))
                (by simpa using nonzero)
        rcases Nat.exists_eq_succ_of_ne_zero more with ⟨count, counted⟩
        rw [counted] at read
        rw [if_neg (by simpa using used), counted, Nat.add_zero, readMask,
          if_neg used, read]
        rfl

end PrivateDatagram.Chainstate.CoinsMask
