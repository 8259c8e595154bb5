import Mathlib.Data.Nat.Bitwise
import PrivateDatagram.Library.LongArithmetic
import PrivateDatagram.Wire.Serialize

/-!
# Wide unsigned integers

`base_uint` keeps a number in words of 32 bits, the lowest first, and its
operators run over the words.  Sums and products keep a carry of 64 bits, the
shifts put each word in two places, and the comparison starts at the highest
word.

`BaseUint.toNat` is the number of the words.  Every operator is the operation
on this number modulo `2 ^ (32 * width)`.
-/

namespace PrivateDatagram.Consensus.BaseUint

open Library.LongArithmetic

/-! ## Words -/

/-- The number of the words `pn`, the lowest first. -/
def value (pn : List UInt32) : Nat :=
  Nat.ofDigits (2 ^ 32) (pn.map UInt32.toNat)

@[simp]
theorem value_nil : value [] = 0 :=
  rfl

@[simp]
theorem value_cons (p : UInt32) (pn : List UInt32) :
    value (p :: pn) = p.toNat + 2 ^ 32 * value pn :=
  rfl

theorem value_lt (pn : List UInt32) : value pn < 2 ^ (32 * pn.length) := by
  rw [Nat.pow_mul]
  have bounded := Nat.ofDigits_lt_base_pow_length
    (b := 2 ^ 32) (l := pn.map UInt32.toNat) (by decide) (by
      simp only [List.mem_map, forall_exists_index, and_imp,
        forall_apply_eq_imp_iff₂]
      intro p _
      exact p.toNat_lt)
  rw [List.length_map] at bounded
  exact bounded

theorem value_inj {left right : List UInt32}
    (same : left.length = right.length) (equal : value left = value right) :
    left = right := by
  induction left generalizing right with
  | nil =>
      exact (List.length_eq_zero_iff.mp same.symm).symm
  | cons p left ih =>
      cases right with
      | nil => simp at same
      | cons q right =>
          have pSmall := p.toNat_lt
          have qSmall := q.toNat_lt
          simp only [value_cons] at equal
          have first : p = q := UInt32.toNat_inj.mp (by omega)
          have rest := ih (Nat.succ.inj same) (by omega)
          rw [first, rest]

/-- The lowest words of a number. -/
def wordsOf : Nat → Nat → List UInt32
  | 0, _ => []
  | width + 1, n => UInt32.ofNat n :: wordsOf width (n / 2 ^ 32)

theorem length_wordsOf (width n : Nat) : (wordsOf width n).length = width := by
  induction width generalizing n with
  | zero => rfl
  | succ width ih => simp only [wordsOf, List.length_cons, ih]

theorem value_wordsOf (width n : Nat) :
    value (wordsOf width n) = n % 2 ^ (32 * width) := by
  induction width generalizing n with
  | zero => simp [wordsOf, Nat.mod_one]
  | succ width ih =>
      rw [wordsOf, value_cons, ih, Nat.mul_succ, Nat.add_comm (32 * width),
        Nat.pow_add, Nat.mod_mul]
      rfl

/-! ## Carries -/

/-- `n & 0xffffffff`, stored in a word. -/
def lowWord (n : UInt64) : UInt32 :=
  (n &&& 0xffffffff).toUInt32

@[simp]
theorem toNat_lowWord (n : UInt64) : (lowWord n).toNat = n.toNat % 2 ^ 32 := by
  have mask : (0xffffffff : UInt64).toNat = 2 ^ 32 - 1 := rfl
  rw [lowWord, UInt64.toNat_toUInt32, UInt64.toNat_and, mask,
    Nat.and_two_pow_sub_one_eq_mod, Nat.mod_mod]

@[simp]
theorem toNat_carry (n : UInt64) : (n >>> 32).toNat = n.toNat / 2 ^ 32 := by
  have distance : (32 : UInt64).toNat % 64 = 32 := rfl
  rw [UInt64.toNat_shiftRight, distance, Nat.shiftRight_eq_div_pow]

/-- The loop of `operator+=`. -/
def addLoop : UInt64 → List UInt32 → List UInt32 → List UInt32
  | carry, p :: pn, b :: bs =>
      let n := carry + p.toUInt64 + b.toUInt64
      lowWord n :: addLoop (n >>> 32) pn bs
  | _, _, _ => []

/-- The loop of `operator*=(uint32_t)`. -/
def scaleLoop (b32 : UInt32) : UInt64 → List UInt32 → List UInt32
  | _, [] => []
  | carry, p :: pn =>
      let n := carry + b32.toUInt64 * p.toUInt64
      lowWord n :: scaleLoop b32 (n >>> 32) pn

/-- The inner loop of `operator*=`, on the words from the outer index on. -/
def rowLoop (aj : UInt32) : UInt64 → List UInt32 → List UInt32 → List UInt32
  | carry, p :: pn, b :: bs =>
      let n := carry + p.toUInt64 + aj.toUInt64 * b.toUInt64
      lowWord n :: rowLoop aj (n >>> 32) pn bs
  | _, _, _ => []

/-- The outer loop of `operator*=`, from the index `j` on. -/
def rowsLoop (bs : List UInt32) : Nat → List UInt32 → List UInt32 → List UInt32
  | _, [], pn => pn
  | j, aj :: a, pn =>
      rowsLoop bs (j + 1) a (pn.take j ++ rowLoop aj 0 (pn.drop j) bs)

/-- The greatest carry leaves room for a word and a product of two words. -/
theorem row_fits {carry p a b : Nat} (carried : carry < 2 ^ 32)
    (word : p < 2 ^ 32) (left : a < 2 ^ 32) (right : b < 2 ^ 32) :
    carry + p + a * b < 2 ^ 64 := by
  have product : a * b ≤ (2 ^ 32 - 1) * (2 ^ 32 - 1) :=
    Nat.mul_le_mul (by omega) (by omega)
  omega

theorem map_rowLoop (aj : UInt32) (carry : UInt64) (pn bs : List UInt32)
    (carried : carry.toNat < 2 ^ 32) :
    (rowLoop aj carry pn bs).map UInt32.toNat =
      mulAdd (2 ^ 32) aj.toNat carry.toNat (pn.map UInt32.toNat)
        (bs.map UInt32.toNat) := by
  induction pn generalizing carry bs with
  | nil => rfl
  | cons p pn ih =>
      cases bs with
      | nil => rfl
      | cons b bs =>
          have fits := row_fits carried p.toNat_lt aj.toNat_lt b.toNat_lt
          have exact' : (carry + p.toUInt64 + aj.toUInt64 * b.toUInt64).toNat =
              carry.toNat + p.toNat + aj.toNat * b.toNat := by
            simp only [UInt64.toNat_add, UInt64.toNat_mul,
              UInt32.toNat_toUInt64]
            omega
          simp only [rowLoop, mulAdd, List.map_cons, toNat_lowWord, exact']
          rw [ih _ bs, toNat_carry, exact']
          rw [toNat_carry, exact']
          omega

theorem map_addLoop (carry : UInt64) (pn bs : List UInt32)
    (carried : carry.toNat < 2 ^ 32) :
    (addLoop carry pn bs).map UInt32.toNat =
      mulAdd (2 ^ 32) 1 carry.toNat (pn.map UInt32.toNat)
        (bs.map UInt32.toNat) := by
  induction pn generalizing carry bs with
  | nil => rfl
  | cons p pn ih =>
      cases bs with
      | nil => rfl
      | cons b bs =>
          have word := p.toNat_lt
          have other := b.toNat_lt
          have exact' : (carry + p.toUInt64 + b.toUInt64).toNat =
              carry.toNat + p.toNat + 1 * b.toNat := by
            simp only [UInt64.toNat_add, UInt32.toNat_toUInt64]
            omega
          simp only [addLoop, mulAdd, List.map_cons, toNat_lowWord, exact']
          rw [ih _ bs, toNat_carry, exact']
          rw [toNat_carry, exact']
          omega

theorem map_scaleLoop (b32 : UInt32) (carry : UInt64) (pn : List UInt32)
    (carried : carry.toNat < 2 ^ 32) :
    (scaleLoop b32 carry pn).map UInt32.toNat =
      mulAdd (2 ^ 32) b32.toNat carry.toNat (List.replicate pn.length 0)
        (pn.map UInt32.toNat) := by
  induction pn generalizing carry with
  | nil => rfl
  | cons p pn ih =>
      have fits := row_fits carried (Nat.two_pow_pos 32) b32.toNat_lt p.toNat_lt
      have exact' : (carry + b32.toUInt64 * p.toUInt64).toNat =
          carry.toNat + 0 + b32.toNat * p.toNat := by
        simp only [UInt64.toNat_add, UInt64.toNat_mul, UInt32.toNat_toUInt64]
        omega
      simp only [scaleLoop, List.length_cons, List.replicate_succ, mulAdd,
        List.map_cons, toNat_lowWord, exact']
      rw [ih, toNat_carry, exact']
      rw [toNat_carry, exact']
      omega

theorem length_rowLoop (aj : UInt32) (carry : UInt64) (pn bs : List UInt32)
    (enough : pn.length ≤ bs.length) :
    (rowLoop aj carry pn bs).length = pn.length := by
  induction pn generalizing carry bs with
  | nil => rfl
  | cons p pn ih =>
      cases bs with
      | nil => simp at enough
      | cons b bs =>
          simp only [rowLoop, List.length_cons]
          rw [ih _ bs (Nat.le_of_succ_le_succ enough)]

theorem length_addLoop (carry : UInt64) (pn bs : List UInt32)
    (enough : pn.length ≤ bs.length) :
    (addLoop carry pn bs).length = pn.length := by
  induction pn generalizing carry bs with
  | nil => rfl
  | cons p pn ih =>
      cases bs with
      | nil => simp at enough
      | cons b bs =>
          simp only [addLoop, List.length_cons]
          rw [ih _ bs (Nat.le_of_succ_le_succ enough)]

theorem length_scaleLoop (b32 : UInt32) (carry : UInt64) (pn : List UInt32) :
    (scaleLoop b32 carry pn).length = pn.length := by
  induction pn generalizing carry with
  | nil => rfl
  | cons p pn ih => simp only [scaleLoop, List.length_cons, ih]

theorem length_rowsLoop (bs : List UInt32) (j : Nat) (a pn : List UInt32)
    (same : pn.length = bs.length) :
    (rowsLoop bs j a pn).length = pn.length := by
  induction a generalizing j pn with
  | nil => rfl
  | cons aj a ih =>
      have kept : (pn.take j ++ rowLoop aj 0 (pn.drop j) bs).length =
          pn.length := by
        rw [List.length_append, length_rowLoop]
        · simp only [List.length_take, List.length_drop]
          omega
        · simp only [List.length_drop]
          omega
      rw [rowsLoop, ih _ _ (kept.trans same), kept]

theorem map_rowsLoop (bs : List UInt32) (j : Nat) (a pn : List UInt32) :
    (rowsLoop bs j a pn).map UInt32.toNat =
      rows (2 ^ 32) (bs.map UInt32.toNat) j (a.map UInt32.toNat)
        (pn.map UInt32.toNat) := by
  induction a generalizing j pn with
  | nil => rfl
  | cons aj a ih =>
      simp only [rowsLoop, List.map_cons, rows, rowAt]
      rw [ih, List.map_append, map_rowLoop _ _ _ _ (by decide), List.map_take,
        List.map_drop]
      rfl

/-! ## Sums and products of words -/

theorem value_addLoop (pn bs : List UInt32) (same : pn.length = bs.length) :
    value (addLoop 0 pn bs) =
      (value pn + value bs) % 2 ^ (32 * pn.length) := by
  have lengths : (pn.map UInt32.toNat).length ≤ (bs.map UInt32.toNat).length := by
    rw [List.length_map, List.length_map, same]
  rw [value, map_addLoop _ _ _ (by decide), ofDigits_mulAdd _ _ _ _ _ lengths,
    List.length_map, Nat.pow_mul, Nat.one_mul]
  have none : (0 : UInt64).toNat = 0 := rfl
  rw [none, Nat.zero_add]
  rfl

theorem value_scaleLoop (b32 : UInt32) (pn : List UInt32) :
    value (scaleLoop b32 0 pn) =
      value pn * b32.toNat % 2 ^ (32 * pn.length) := by
  have lengths : (List.replicate pn.length 0).length ≤
      (pn.map UInt32.toNat).length := by
    rw [List.length_replicate, List.length_map]
  have zeros : Nat.ofDigits (2 ^ 32) (List.replicate pn.length 0) = 0 := by
    induction pn.length with
    | zero => rfl
    | succ n ih =>
        rw [List.replicate_succ, Nat.ofDigits_cons, ih]
        rfl
  rw [value, map_scaleLoop _ _ _ (by decide),
    ofDigits_mulAdd _ _ _ _ _ lengths, List.length_replicate, Nat.pow_mul,
    zeros, Nat.mul_comm (value pn)]
  have none : (0 : UInt64).toNat = 0 := rfl
  rw [none, Nat.zero_add]
  rfl

theorem value_replicate_zero (width : Nat) :
    value (List.replicate width 0) = 0 := by
  induction width with
  | zero => rfl
  | succ width ih =>
      rw [List.replicate_succ, value_cons, ih]
      rfl

theorem value_rowsLoop (a bs : List UInt32) (same : a.length = bs.length) :
    value (rowsLoop bs 0 a (List.replicate a.length 0)) =
      value a * value bs % 2 ^ (32 * a.length) := by
  have lengths :
      ((List.replicate a.length (0 : UInt32)).map UInt32.toNat).length =
        (bs.map UInt32.toNat).length := by
    rw [List.length_map, List.length_map, List.length_replicate, same]
  have inside : 0 + (a.map UInt32.toNat).length ≤
      ((List.replicate a.length (0 : UInt32)).map UInt32.toNat).length := by
    simp
  have product := ofDigits_rows (2 ^ 32) _ 0 (a.map UInt32.toNat) _ lengths
    inside
  rw [← map_rowsLoop, List.length_map, List.length_replicate,
    ← Nat.pow_mul] at product
  have bounded := value_lt (rowsLoop bs 0 a (List.replicate a.length 0))
  rw [length_rowsLoop _ _ _ _ (by rw [List.length_replicate, same]),
    List.length_replicate] at bounded
  have start := value_replicate_zero a.length
  rw [value] at start
  rw [start, Nat.zero_add, pow_zero, Nat.one_mul] at product
  exact (Nat.mod_eq_of_lt bounded).symm.trans product

/-! ## Complement and order -/

/-- The loop of `operator++`: a word that wraps carries on, the last apart. -/
def incLoop : List UInt32 → List UInt32
  | [] => []
  | [p] => [p + 1]
  | p :: q :: pn =>
      if p + 1 = 0 then 0 :: incLoop (q :: pn) else (p + 1) :: q :: pn

theorem length_incLoop (pn : List UInt32) :
    (incLoop pn).length = pn.length := by
  induction pn with
  | nil => rfl
  | cons p pn ih =>
      cases pn with
      | nil => rfl
      | cons q pn =>
          rw [incLoop]
          split_ifs
          · rw [List.length_cons, ih, List.length_cons (a := p)]
          · rfl

theorem value_incLoop (pn : List UInt32) :
    value (incLoop pn) = (value pn + 1) % 2 ^ (32 * pn.length) := by
  induction pn with
  | nil => simp [incLoop]
  | cons p pn ih =>
      have next : (p + 1).toNat = (p.toNat + 1) % 2 ^ 32 := UInt32.toNat_add p 1
      have word := p.toNat_lt
      cases pn with
      | nil =>
          simp only [incLoop, value_cons, value_nil, List.length_cons,
            List.length_nil, next]
          omega
      | cons q pn =>
          have fits := value_lt (p :: q :: pn)
          rw [incLoop]
          split_ifs with wraps
          · have top : p.toNat + 1 = 2 ^ 32 := by
              rw [wraps] at next
              have zero : (0 : UInt32).toNat = 0 := rfl
              omega
            have regroup : p.toNat + 2 ^ 32 * value (q :: pn) + 1 =
                0 + 2 ^ 32 * (value (q :: pn) + 1) := by
              omega
            have power : 2 ^ (32 * (p :: q :: pn).length) =
                2 ^ 32 * 2 ^ (32 * (q :: pn).length) := by
              rw [List.length_cons, Nat.mul_succ, Nat.add_comm, Nat.pow_add]
            rw [value_cons, ih, value_cons p, regroup, power, Nat.zero_add,
              Nat.mul_mod_mul_left]
            exact Nat.zero_add _
          · have kept : (p + 1).toNat = p.toNat + 1 := by
              have nonzero : (p + 1).toNat ≠ 0 := fun zero =>
                wraps (UInt32.toNat_inj.mp zero)
              omega
            have room : value (p :: q :: pn) + 1 <
                2 ^ (32 * (p :: q :: pn).length) := by
              have above := value_lt (q :: pn)
              rw [List.length_cons, Nat.mul_succ, Nat.pow_add, value_cons]
              omega
            rw [Nat.mod_eq_of_lt room]
            simp only [value_cons, kept]
            omega

/-- The loop of `operator~`. -/
def complement (pn : List UInt32) : List UInt32 :=
  pn.map (~~~ ·)

theorem value_complement (pn : List UInt32) :
    value (complement pn) + value pn + 1 = 2 ^ (32 * pn.length) := by
  induction pn with
  | nil => rfl
  | cons p pn ih =>
      have word := p.toNat_lt
      have flipped : (~~~p).toNat = 2 ^ 32 - 1 - p.toNat := UInt32.toNat_not p
      rw [complement] at ih
      rw [List.length_cons, Nat.mul_succ, Nat.pow_add, ← ih, complement,
        List.map_cons, value_cons, value_cons, flipped]
      omega

/-- `operator-`: the complement and one more. -/
def negate (pn : List UInt32) : List UInt32 :=
  incLoop (complement pn)

theorem length_negate (pn : List UInt32) : (negate pn).length = pn.length := by
  rw [negate, length_incLoop, complement, List.length_map]

/-- `operator-=` of a number that is not the greater. -/
theorem value_addLoop_negate (pn bs : List UInt32)
    (same : pn.length = bs.length) (below : value bs ≤ value pn) :
    value (addLoop 0 pn (negate bs)) = value pn - value bs := by
  have bounded := value_lt pn
  have flipped := value_complement bs
  have lengths : (complement bs).length = bs.length := by
    rw [complement, List.length_map]
  rw [value_addLoop _ _ (by rw [length_negate, same]), negate, value_incLoop,
    lengths, ← same, Nat.add_mod_mod]
  rw [← same] at flipped
  have regroup : value pn + (value (complement bs) + 1) =
      value pn - value bs + 2 ^ (32 * pn.length) := by
    omega
  rw [regroup, Nat.add_mod_right]
  exact Nat.mod_eq_of_lt (by omega)

/-- The words below an index and the word at it. -/
theorem value_take_succ (pn : List UInt32) (i : Nat) :
    value (pn.take (i + 1)) =
      value (pn.take i) + 2 ^ (32 * i) * (pn[i]?.getD 0).toNat := by
  induction pn generalizing i with
  | nil => simp
  | cons p pn ih =>
      cases i with
      | zero => simp
      | succ i =>
          rw [List.take_succ_cons, List.take_succ_cons, value_cons, ih i,
            value_cons, List.getElem?_cons_succ, Nat.mul_succ,
            Nat.add_comm (32 * i), Nat.pow_add, Nat.mul_add, Nat.mul_assoc,
            Nat.add_assoc]

theorem value_take_lt (pn : List UInt32) (i : Nat) :
    value (pn.take i) < 2 ^ (32 * i) := by
  apply Nat.lt_of_lt_of_le (value_lt _)
  apply Nat.pow_le_pow_right (by decide)
  apply Nat.mul_le_mul_left
  exact List.length_take_le i pn

/-- The loop of `CompareTo`, on the words below the index. -/
def compareLoop (a b : List UInt32) : Nat → Int
  | 0 => 0
  | i + 1 =>
      if a[i]?.getD 0 < b[i]?.getD 0 then -1
      else if a[i]?.getD 0 > b[i]?.getD 0 then 1
      else compareLoop a b i

/-- A higher word decides, whatever is below. -/
theorem lower_word_lt {low base p q : Nat} (high : Nat) (below : low < base)
    (less : p < q) : low + base * p < high + base * q := by
  have step : base * (p + 1) ≤ base * q := Nat.mul_le_mul_left base less
  rw [Nat.mul_succ] at step
  omega

theorem compareLoop_eq_sign (a b : List UInt32) (i : Nat) :
    compareLoop a b i =
      ((value (a.take i) : Int) - value (b.take i)).sign := by
  induction i with
  | zero => rfl
  | succ i ih =>
      have aLow := value_take_lt a i
      have bLow := value_take_lt b i
      rw [compareLoop, value_take_succ, value_take_succ]
      simp only [UInt32.lt_iff_toNat_lt, gt_iff_lt]
      split_ifs with less more
      · have below := lower_word_lt (value (b.take i)) aLow less
        exact (Int.sign_eq_neg_one_of_neg (by omega)).symm
      · have above := lower_word_lt (value (a.take i)) bLow more
        exact (Int.sign_eq_one_of_pos (by omega)).symm
      · have equal : a[i]?.getD 0 = b[i]?.getD 0 := by
          apply UInt32.toNat_inj.mp
          omega
        rw [ih, equal]
        congr 1
        omega

end PrivateDatagram.Consensus.BaseUint
