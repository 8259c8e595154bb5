import PrivateDatagram.Library.DecimalFraction
import PrivateDatagram.Wire.Base58

/-!
# Money text

`FormatMoney` writes an amount of base units as coins with a decimal point,
and `ParseMoney` reads such a text.  A string is a list of bytes.
`ParseMoney` on a `std::string` reads it as a C string, up to the first zero
byte.
-/

namespace PrivateDatagram.Wire.MoneyText

open Library.ByteFormat Library.DecimalFraction Library.DecimalText
  Library.RadixBuffer
open Wire.Base58 (ascii isspace takeWhile_nonzero)

/-- What the language leaves undefined. -/
inductive Failure where
  | overflow
  | outOfRange
deriving DecidableEq, Repr

/-- `COIN`. -/
def COIN : Int :=
  100000000

/-- `CENT`. -/
def CENT : Int :=
  1000000

/-- A result of `int64_t` arithmetic. -/
def int64 (exact : Int) : Except Failure Int :=
  if -2 ^ 63 ≤ exact ∧ exact < 2 ^ 63 then .ok exact else .error .overflow

/-- `isdigit`. -/
def isdigit (c : UInt8) : Bool :=
  0x30 ≤ c && c ≤ 0x39

/-! ## Writing -/

/-- `%d`. -/
def decimal (n : Int) : List UInt8 :=
  (intText n).map ascii

/-- `%08d` of a number that is not negative. -/
def decimal8 (n : Int) : List UInt8 :=
  List.leftpad 8 (ascii '0') (decimal n)

/-- The loop that counts the zeros to trim, from the place `i` down. -/
def trimLoop (str : List UInt8) : Nat → Except Failure Nat
  | i + 2 =>
      match str[i + 2]?, str[i]? with
      | some last, some before =>
          if last = ascii '0' ∧ isdigit before then do
            let nTrim ← trimLoop str (i + 1)
            pure (nTrim + 1)
          else
            pure 0
      | _, _ => .error .outOfRange
  | i =>
      match str[i]? with
      | none => .error .outOfRange
      | some last =>
          -- str[i - 2] stands before the string
          if last = ascii '0' then .error .outOfRange else pure 0

/-- `n > 0 ? n : -n`. -/
def absolute (n : Int) : Except Failure Int :=
  if n > 0 then .ok n else int64 (-n)

/-- `FormatMoney`. -/
def formatMoney (n : Int) (fPlus : Bool) : Except Failure (List UInt8) := do
  let nAbs ← absolute n
  let quotient := nAbs.tdiv COIN
  let remainder := nAbs.tmod COIN
  let str := decimal quotient ++ ascii '.' :: decimal8 remainder
  let nTrim ← trimLoop str (str.length - 1)
  let str := str.take (str.length - nTrim)
  if n < 0 then pure (ascii '-' :: str)
  else if fPlus && n > 0 then pure (ascii '+' :: str)
  else pure str

/-! ## Reading -/

/-- One more digit of a number. -/
def takeDigit (number : Int) (c : UInt8) : Int :=
  number * 10 + ((c.toNat : Int) - 0x30)

/-- The number of a run of digits. -/
def digitsNumber (digits : List UInt8) : Int :=
  digits.foldl takeDigit 0

/-- `atoi64`, which is `strtoll` with base ten: the nearest `int64_t`. -/
def atoi64 (str : List UInt8) : Int :=
  let str := str.dropWhile isspace
  let negative := str.head? = some (ascii '-')
  let signed := negative ∨ str.head? = some (ascii '+')
  let number := digitsNumber ((if signed then str.drop 1 else str).takeWhile
    isdigit)
  max (-2 ^ 63) (min (2 ^ 63 - 1) (if negative then -number else number))

/-- The loop over the digits after the point: the units and the rest. -/
def fractionLoop :
    Int → Int → List UInt8 → Except Failure (Int × List UInt8)
  | nUnits, _, [] => .ok (nUnits, [])
  | nUnits, nMult, c :: p =>
      if isdigit c ∧ nMult > 0 then do
        let product ← int64 (nMult * ((c.toNat : Int) - 0x30))
        let nUnits ← int64 (nUnits + product)
        fractionLoop nUnits (nMult.tdiv 10) p
      else
        .ok (nUnits, c :: p)

/-- The loop over the characters: the digits before the point, the units after
it and the rest, or `false`. -/
def wholeLoop : List UInt8 → List UInt8 →
    Except Failure (Option (List UInt8 × Int × List UInt8))
  | strWhole, [] => .ok (some (strWhole, 0, []))
  | strWhole, c :: p =>
      if c = ascii '.' then do
        let (nUnits, p) ← fractionLoop 0 (CENT * 10) p
        pure (some (strWhole, nUnits, p))
      else if isspace c then .ok (some (strWhole, 0, c :: p))
      else if !isdigit c then .ok none
      else wholeLoop (strWhole ++ [c]) p

/-- `ParseMoney` on a C string: `nRet`, or `false`. -/
def parseMoney (pszIn : List UInt8) : Except Failure (Option Int) := do
  match ← wholeLoop [] (pszIn.dropWhile isspace) with
  | none => pure none
  | some (strWhole, nUnits, p) =>
      if !p.all isspace then pure none
      -- guard against 63 bit overflow
      else if strWhole.length > 10 then pure none
      else if nUnits < 0 ∨ nUnits > COIN then pure none
      else do
        let nWhole := atoi64 strWhole
        let product ← int64 (nWhole * COIN)
        let nValue ← int64 (product + nUnits)
        pure (some nValue)

/-- `ParseMoney` on a `std::string`, with `c_str()`. -/
def parseMoneyString (str : List UInt8) : Except Failure (Option Int) :=
  parseMoney (str.takeWhile (· ≠ 0))

/-! ## Digits -/

/-- The character of a digit. -/
def numeral (digit : Nat) : UInt8 :=
  UInt8.ofNat (0x30 + digit)

/-- The characters of digits. -/
def numerals (digits : List Nat) : List UInt8 :=
  digits.map numeral

@[simp]
theorem length_numerals (digits : List Nat) :
    (numerals digits).length = digits.length :=
  List.length_map numeral

theorem getElem?_numerals (digits : List Nat) (place : Nat) :
    (numerals digits)[place]? = (digits[place]?).map numeral :=
  List.getElem?_map

theorem numeral_plain : ∀ digit < 10,
    isdigit (numeral digit) = true ∧ isspace (numeral digit) = false ∧
      numeral digit ≠ ascii '.' ∧ numeral digit ≠ 0 ∧
      ((numeral digit).toNat : Int) - 0x30 = digit ∧
      ascii (Nat.digitChar digit) = numeral digit ∧
      (numeral digit = ascii '0' → digit = 0) := by
  decide +kernel

theorem space_plain {c : UInt8} (space : isspace c = true) :
    isdigit c = false ∧ c ≠ ascii '.' ∧ c ≠ 0 := by
  have every : ∀ n < 256, isspace (UInt8.ofNat n) = true →
      isdigit (UInt8.ofNat n) = false ∧ UInt8.ofNat n ≠ ascii '.' ∧
        UInt8.ofNat n ≠ 0 := by
    decide +kernel
  have plain := every c.toNat c.toNat_lt
  rw [UInt8.ofNat_toNat] at plain
  exact plain space

theorem eq_numeral {c : UInt8} (shown : isdigit c = true) :
    ∃ digit < 10, c = numeral digit := by
  have small := c.toNat_lt
  unfold isdigit at shown
  rw [Bool.and_eq_true, decide_eq_true_eq, decide_eq_true_eq,
    UInt8.le_iff_toNat_le, UInt8.le_iff_toNat_le] at shown
  change 48 ≤ c.toNat ∧ c.toNat ≤ 57 at shown
  refine ⟨c.toNat - 48, by omega, ?_⟩
  apply UInt8.toNat.inj
  rw [numeral, UInt8.toNat_ofNat']
  omega

/-- The digits that a string starts with. -/
theorem exists_numerals (str : List UInt8) :
    ∃ digits rest, (∀ digit ∈ digits, digit < 10) ∧
      str = numerals digits ++ rest ∧
      ∀ c ∈ rest.head?, isdigit c = false := by
  induction str with
  | nil => exact ⟨[], [], nofun, rfl, nofun⟩
  | cons c str ih =>
      cases shown : isdigit c with
      | false => exact ⟨[], c :: str, nofun, rfl, by simpa using shown⟩
      | true =>
          rcases eq_numeral shown with ⟨digit, small, rfl⟩
          rcases ih with ⟨digits, rest, smaller, rfl, stop⟩
          exact ⟨digit :: digits, rest,
            List.forall_mem_cons.mpr ⟨small, smaller⟩, rfl, stop⟩

theorem digitsNumber_numerals {digits : List Nat}
    (small : ∀ digit ∈ digits, digit < 10) :
    digitsNumber (numerals digits) = value 10 digits := by
  have onward : ∀ number : Int,
      (numerals digits).foldl takeDigit number =
        number * 10 ^ digits.length + value 10 digits := by
    induction digits with
    | nil => simp [numerals]
    | cons digit digits ih =>
        intro number
        rw [List.forall_mem_cons] at small
        have shown := (numeral_plain digit small.1).2.2.2.2.1
        rw [numerals, List.map_cons, List.foldl_cons, ← numerals,
          ih small.2, takeDigit, shown, value_cons, List.length_cons]
        push_cast
        ring
  have whole := onward 0
  rwa [Int.zero_mul, Int.zero_add] at whole

theorem numerals_isdigit {digits : List Nat}
    (small : ∀ digit ∈ digits, digit < 10) {c : UInt8}
    (member : c ∈ numerals digits) : isdigit c = true := by
  rcases List.mem_map.mp member with ⟨digit, here, rfl⟩
  exact (numeral_plain digit (small digit here)).1

theorem dropWhile_numerals {digits : List Nat}
    (small : ∀ digit ∈ digits, digit < 10) :
    (numerals digits).dropWhile isspace = numerals digits := by
  cases digits with
  | nil => rfl
  | cons digit digits =>
      have plain := numeral_plain digit (small digit List.mem_cons_self)
      exact List.dropWhile_cons_of_neg (by simp [plain.2.1])

theorem atoi64_numerals {digits : List Nat}
    (small : ∀ digit ∈ digits, digit < 10) (short : digits.length ≤ 10) :
    atoi64 (numerals digits) = value 10 digits := by
  have unsigned : ∀ sign : UInt8, isdigit sign = false →
      (numerals digits).head? ≠ some sign := by
    intro sign other first
    have shown := numerals_isdigit small (List.mem_of_head? first)
    exact absurd (shown.symm.trans other) (by decide)
  have bound : value 10 digits < 10 ^ 10 :=
    (value_lt small).trans_le (Nat.pow_le_pow_right (by decide) short)
  unfold atoi64
  simp only [dropWhile_numerals small, unsigned (ascii '-') (by decide),
    unsigned (ascii '+') (by decide), or_self, if_false]
  rw [List.takeWhile_eq_self_iff.mpr fun c => numerals_isdigit small,
    digitsNumber_numerals small]
  omega

/-! ## The loops -/

theorem int64_ok {exact : Int} (nonneg : 0 ≤ exact)
    (fits : exact < 2 ^ 63) : int64 exact = .ok exact :=
  if_pos ⟨by omega, fits⟩

/-- The multiplier while there is room for so many digits. -/
def multiplier : Nat → Int
  | 0 => 0
  | room + 1 => 10 ^ room

theorem multiplier_tdiv (room : Nat) :
    (multiplier (room + 1)).tdiv 10 = multiplier room := by
  cases room with
  | zero => rfl
  | succ room =>
      rw [multiplier, multiplier, pow_succ]
      exact Int.mul_tdiv_cancel _ (by decide)

/-- Digits are taken in while there is room. -/
theorem fractionLoop_numerals {digits : List Nat}
    (small : ∀ digit ∈ digits, digit < 10) {room : Nat}
    (fits : digits.length ≤ room) {nUnits : Nat}
    (bound : nUnits + 10 ^ room ≤ 2 ^ 63) (p : List UInt8) :
    fractionLoop nUnits (multiplier room) (numerals digits ++ p) =
      fractionLoop
        ((nUnits + value 10 digits * 10 ^ (room - digits.length) : Nat) : Int)
        (multiplier (room - digits.length)) p := by
  induction digits generalizing nUnits room with
  | nil => simp [numerals]
  | cons digit digits ih =>
      rw [List.forall_mem_cons] at small
      rw [List.length_cons] at fits
      rcases Nat.exists_eq_add_of_le' (Nat.le_trans (Nat.le_add_left 1 _) fits)
        with ⟨less, rfl⟩
      have plain := numeral_plain digit small.1
      have positive : multiplier (less + 1) > 0 :=
        pow_pos (by decide) less
      have step : digit * 10 ^ less + 10 ^ less ≤ 10 ^ (less + 1) := by
        calc
          digit * 10 ^ less + 10 ^ less = (digit + 1) * 10 ^ less := by ring
          _ ≤ 10 * 10 ^ less := Nat.mul_le_mul_right _ small.1
          _ = 10 ^ (less + 1) := (Nat.pow_succ').symm
      have power : 0 < 10 ^ less := Nat.pow_pos (by decide)
      have product : multiplier (less + 1) * digit =
          ((digit * 10 ^ less : Nat) : Int) := by
        rw [multiplier]
        push_cast
        ring
      rw [numerals, List.map_cons, List.cons_append, ← numerals,
        fractionLoop, if_pos ⟨plain.1, positive⟩, plain.2.2.2.2.1, product,
        int64_ok (Int.natCast_nonneg _) (by omega), ok_bind,
        int64_ok (by omega) (by omega), ok_bind, multiplier_tdiv,
        ← Int.natCast_add,
        ih small.2 (by omega) (by omega), List.length_cons, value_cons,
        Nat.add_sub_add_right, Nat.add_mul, Nat.mul_assoc, ← Nat.pow_add,
        Nat.add_sub_cancel' (Nat.le_of_succ_le_succ fits), Nat.add_assoc]

theorem fractionLoop_stop (nUnits : Int) {room : Nat} {p : List UInt8}
    (stop : room = 0 ∨ ∀ c ∈ p.head?, isdigit c = false) :
    fractionLoop nUnits (multiplier room) p = .ok (nUnits, p) := by
  cases p with
  | nil => rfl
  | cons c p =>
      rw [fractionLoop, if_neg]
      rintro ⟨shown, positive⟩
      rcases stop with rfl | stop
      · exact absurd positive (by decide)
      · rw [stop c rfl] at shown
        exact Bool.false_ne_true shown

theorem wholeLoop_numerals {digits : List Nat}
    (small : ∀ digit ∈ digits, digit < 10) (strWhole p : List UInt8) :
    wholeLoop strWhole (numerals digits ++ p) =
      wholeLoop (strWhole ++ numerals digits) p := by
  induction digits generalizing strWhole with
  | nil => simp [numerals]
  | cons digit digits ih =>
      rw [List.forall_mem_cons] at small
      have plain := numeral_plain digit small.1
      rw [numerals, List.map_cons, List.cons_append, ← numerals, wholeLoop,
        if_neg plain.2.2.1, if_neg (by simp [plain.2.1]),
        if_neg (by simp [plain.1]), ih small.2, List.append_assoc,
        List.singleton_append]

/-! ## Decimal texts -/

/-- Digits with white space around them, and perhaps a point among them. -/
structure Shows (text : List UInt8) (whole places : List Nat) : Prop where
  smallWhole : ∀ digit ∈ whole, digit < 10
  smallPlaces : ∀ digit ∈ places, digit < 10
  layout : ∃ before after, before.all isspace = true ∧
    after.all isspace = true ∧
    (text = before ++ (numerals whole ++
        (ascii '.' :: (numerals places ++ after))) ∨
      (places = [] ∧ text = before ++ (numerals whole ++ after)))

/-- The exact value of a decimal text is so many coins, in base units. -/
def Denotes (text : List UInt8) (nValue : Int) : Prop :=
  ∃ whole places, Shows text whole places ∧
    (nValue : ℚ) = fraction whole places * COIN

/-- Decimal texts with at most ten digits before the point and eight after. -/
def Readable (text : List UInt8) : Prop :=
  ∃ whole places, Shows text whole places ∧ whole.length ≤ 10 ∧
    places.length ≤ 8

theorem Shows.nonzero {text : List UInt8} {whole places : List Nat}
    (shows : Shows text whole places) : 0 ∉ text := by
  rcases shows.layout with ⟨before, after, blank, blankAfter, layout⟩
  rw [List.all_eq_true] at blank blankAfter
  have noZeroDigit : ∀ {digits : List Nat}, (∀ digit ∈ digits, digit < 10) →
      0 ∉ numerals digits := by
    intro digits small zero
    exact absurd (numerals_isdigit small zero) (by decide)
  have noZeroBlank : ∀ {spaces : List UInt8},
      (∀ c ∈ spaces, isspace c = true) → 0 ∉ spaces := by
    intro spaces blanks zero
    exact absurd (blanks 0 zero) (by decide)
  intro zero
  rcases layout with rfl | ⟨_, rfl⟩
  · rcases List.mem_append.mp zero with zero | zero
    · exact noZeroBlank blank zero
    rcases List.mem_append.mp zero with zero | zero
    · exact noZeroDigit shows.smallWhole zero
    rcases List.mem_cons.mp zero with zero | zero
    · exact absurd zero (by decide)
    rcases List.mem_append.mp zero with zero | zero
    · exact noZeroDigit shows.smallPlaces zero
    · exact noZeroBlank blankAfter zero
  · rcases List.mem_append.mp zero with zero | zero
    · exact noZeroBlank blank zero
    rcases List.mem_append.mp zero with zero | zero
    · exact noZeroDigit shows.smallWhole zero
    · exact noZeroBlank blankAfter zero

/-- White space in front is skipped. -/
theorem dropWhile_blank {before : List UInt8}
    (blank : before.all isspace = true) (p : List UInt8) :
    (before ++ p).dropWhile isspace = p.dropWhile isspace :=
  List.dropWhile_append_of_pos (List.all_eq_true.mp blank)

theorem dropWhile_numerals_append {digits : List Nat}
    (small : ∀ digit ∈ digits, digit < 10) (p : List UInt8) :
    (numerals digits ++ p).dropWhile isspace =
      numerals digits ++ if digits = [] then p.dropWhile isspace else p := by
  cases digits with
  | nil => simp [numerals]
  | cons digit digits =>
      have plain := numeral_plain digit (small digit List.mem_cons_self)
      rw [if_neg (List.cons_ne_nil _ _)]
      exact List.dropWhile_cons_of_neg (by simp [plain.2.1])

/-- The loop ends at a point with the units of the digits after it. -/
theorem wholeLoop_point (strWhole : List UInt8) {places : List Nat}
    (small : ∀ digit ∈ places, digit < 10) (fits : places.length ≤ 8)
    {after : List UInt8}
    (stop : places.length = 8 ∨ ∀ c ∈ after.head?, isdigit c = false) :
    wholeLoop strWhole (ascii '.' :: (numerals places ++ after)) =
      .ok (some (strWhole, (scaled 8 [] places : Int), after)) := by
  have run := @fractionLoop_numerals _ small 8 fits 0 (by decide) after
  rw [fractionLoop_stop _ (stop.imp_left fun full => by omega)] at run
  rw [wholeLoop, if_pos rfl]
  change (fractionLoop 0 (multiplier 8) _ >>= _) = _
  rw [show (0 : Int) = ((0 : Nat) : Int) from rfl, run, ok_bind]
  simp [scaled]
  rfl

/-- The loop ends at white space and at the end. -/
theorem wholeLoop_blank (strWhole : List UInt8) {after : List UInt8}
    (blank : after.all isspace = true) :
    wholeLoop strWhole after = .ok (some (strWhole, 0, after)) := by
  cases after with
  | nil => rfl
  | cons c after =>
      rw [List.all_cons, Bool.and_eq_true] at blank
      rw [wholeLoop, if_neg (space_plain blank.1).2.1, if_pos blank.1]

/-- What follows the loops. -/
theorem parseMoney_ends {pszIn after : List UInt8} {whole places : List Nat}
    (run : wholeLoop [] (pszIn.dropWhile isspace) =
      .ok (some (numerals whole, (scaled 8 [] places : Int), after)))
    (smallWhole : ∀ digit ∈ whole, digit < 10)
    (smallPlaces : ∀ digit ∈ places, digit < 10)
    (fits : places.length ≤ 8) :
    parseMoney pszIn =
      .ok (if after.all isspace = true ∧ whole.length ≤ 10 then
        some (scaled 8 whole places : Int) else none) := by
  have units := @scaled_lt 8 [] _ nofun smallPlaces fits
  rw [List.length_nil, Nat.zero_add] at units
  have parts : scaled 8 whole places =
      value 10 whole * 10 ^ 8 + scaled 8 [] places := by
    simp [scaled]
  rw [parseMoney, run, ok_bind]
  dsimp only
  rw [length_numerals]
  by_cases blank : after.all isspace = true
  · rw [if_neg (by simp [blank])]
    by_cases short : whole.length ≤ 10
    · have bound : value 10 whole < 10 ^ 10 :=
        (value_lt smallWhole).trans_le
          (Nat.pow_le_pow_right (by decide) short)
      have coin : COIN = ((10 ^ 8 : Nat) : Int) := rfl
      rw [if_neg (by omega), if_neg (by rw [coin]; omega),
        if_pos ⟨blank, short⟩, atoi64_numerals smallWhole short, coin,
        ← Int.natCast_mul, int64_ok (by omega) (by omega), ok_bind,
        ← Int.natCast_add, ← parts, int64_ok (by omega) (by omega), ok_bind]
      rfl
    · rw [if_pos (by omega), if_neg (fun both => short both.2)]
      rfl
  · rw [if_pos (by simp [blank]), if_neg (fun both => blank both.1)]
    rfl

theorem parseMoney_point {before after : List UInt8} {whole places : List Nat}
    (blank : before.all isspace = true)
    (smallWhole : ∀ digit ∈ whole, digit < 10)
    (smallPlaces : ∀ digit ∈ places, digit < 10)
    (fits : places.length ≤ 8)
    (stop : places.length = 8 ∨ ∀ c ∈ after.head?, isdigit c = false) :
    parseMoney (before ++ (numerals whole ++
        (ascii '.' :: (numerals places ++ after)))) =
      .ok (if after.all isspace = true ∧ whole.length ≤ 10 then
        some (scaled 8 whole places : Int) else none) := by
  refine parseMoney_ends ?_ smallWhole smallPlaces fits
  have kept : (ascii '.' :: (numerals places ++ after)).dropWhile isspace =
      ascii '.' :: (numerals places ++ after) :=
    List.dropWhile_cons_of_neg (by decide)
  rw [dropWhile_blank blank, dropWhile_numerals_append smallWhole, kept,
    ite_self, wholeLoop_numerals smallWhole, List.nil_append,
    wholeLoop_point _ smallPlaces fits stop]

/-- Without a point the digits end at white space, at another character or at
the end. -/
theorem parseMoney_plain {before after : List UInt8} {whole : List Nat}
    (blank : before.all isspace = true)
    (smallWhole : ∀ digit ∈ whole, digit < 10)
    (stop : ∀ c ∈ after.head?, isdigit c = false ∧ c ≠ ascii '.')
    (started : whole = [] → ∀ c ∈ after.head?, isspace c = false) :
    parseMoney (before ++ (numerals whole ++ after)) =
      .ok (if after.all isspace = true ∧ whole.length ≤ 10 then
        some (scaled 8 whole [] : Int) else none) := by
  have kept : (numerals whole ++ after).dropWhile isspace =
      numerals whole ++ after := by
    rw [dropWhile_numerals_append smallWhole]
    split_ifs with empty
    · cases after with
      | nil => rfl
      | cons c after =>
          rw [List.dropWhile_cons_of_neg (by simp [started empty c rfl])]
    · rfl
  by_cases blankAfter : after.all isspace = true
  · refine parseMoney_ends ?_ smallWhole nofun (Nat.zero_le _)
    rw [dropWhile_blank blank, kept, wholeLoop_numerals smallWhole,
      List.nil_append, wholeLoop_blank _ blankAfter]
    rfl
  · rw [if_neg (fun both => blankAfter both.1), parseMoney,
      dropWhile_blank blank, kept, wholeLoop_numerals smallWhole]
    cases after with
    | nil => exact absurd rfl blankAfter
    | cons c after =>
        have first := stop c rfl
        rw [wholeLoop, if_neg first.2]
        by_cases space : isspace c = true
        · rw [if_pos space, ok_bind]
          dsimp only
          rw [Bool.eq_false_of_not_eq_true blankAfter]
          rfl
        · rw [if_neg space, if_pos (by simp [first.1]), ok_bind]
          rfl

/-- A decimal text that is not too long is read. -/
theorem parseMoney_shows {text : List UInt8} {whole places : List Nat}
    (shows : Shows text whole places) (short : whole.length ≤ 10)
    (fits : places.length ≤ 8) :
    parseMoney text = .ok (some (scaled 8 whole places : Int)) := by
  rcases shows.layout with ⟨before, after, blank, blankAfter, layout⟩
  have stop : ∀ c ∈ after.head?, isdigit c = false ∧ c ≠ ascii '.' := by
    intro c first
    have plain := space_plain (List.all_eq_true.mp blankAfter c
      (List.mem_of_head? first))
    exact ⟨plain.1, plain.2.1⟩
  rcases layout with rfl | ⟨rfl, rfl⟩
  · rw [parseMoney_point blank shows.smallWhole shows.smallPlaces fits
      (.inr fun c first => (stop c first).1), if_pos ⟨blankAfter, short⟩]
  · by_cases empty : whole = []
    · have blanks : (before ++ after).all isspace = true := by
        rw [List.all_append, blank, blankAfter]
        rfl
      have nothing := @parseMoney_plain _ [] _ blanks shows.smallWhole
        nofun (fun _ => nofun)
      rw [if_pos ⟨rfl, short⟩] at nothing
      rw [← nothing, empty]
      simp [numerals]
    · rw [parseMoney_plain blank shows.smallWhole stop
        (fun none => absurd none empty), if_pos ⟨blankAfter, short⟩]

/-- `ParseMoney` returns, and what it accepts is a decimal text. -/
theorem parseMoney_returns (text : List UInt8) :
    ∃ outcome, parseMoney text = .ok outcome ∧
      ∀ nValue, outcome = some nValue →
        ∃ whole places, Shows text whole places ∧ whole.length ≤ 10 ∧
          places.length ≤ 8 ∧ nValue = scaled 8 whole places := by
  have blank : (text.takeWhile isspace).all isspace = true :=
    List.all_takeWhile
  have parts := List.takeWhile_append_dropWhile (p := isspace) (l := text)
  have started := List.head?_dropWhile_not isspace text
  rcases exists_numerals (text.dropWhile isspace) with
    ⟨whole, rest, smallWhole, shape, stop⟩
  rw [shape] at parts started
  have plain : (∀ c ∈ rest.head?, c ≠ ascii '.') → ∃ outcome,
      parseMoney text = .ok outcome ∧ ∀ nValue, outcome = some nValue →
        ∃ whole places, Shows text whole places ∧ whole.length ≤ 10 ∧
          places.length ≤ 8 ∧ nValue = scaled 8 whole places := by
    intro noPoint
    have run := parseMoney_plain blank smallWhole
      (fun c first => ⟨stop c first, noPoint c first⟩) (by
        rintro rfl c first
        rw [numerals, List.map_nil, List.nil_append,
          Option.mem_def.mp first] at started
        simpa using started)
    rw [parts] at run
    refine ⟨_, run, fun nValue found => ?_⟩
    split_ifs at found with accepted
    · exact ⟨whole, [], ⟨smallWhole, nofun, _, rest, blank, accepted.1,
        .inr ⟨rfl, parts.symm⟩⟩, accepted.2, Nat.zero_le _,
        (Option.some.inj found).symm⟩
  cases rest with
  | nil => exact plain nofun
  | cons c rest =>
      by_cases point : c = ascii '.'
      · subst point
        rcases exists_numerals rest with
          ⟨places, after, smallPlaces, rfl, stopAfter⟩
        by_cases fits : places.length ≤ 8
        · have run := parseMoney_point blank smallWhole smallPlaces fits
            (.inr stopAfter)
          rw [parts] at run
          refine ⟨_, run, fun nValue found => ?_⟩
          split_ifs at found with accepted
          · exact ⟨whole, places, ⟨smallWhole, smallPlaces, _, after, blank,
              accepted.1, .inl parts.symm⟩, accepted.2, fits,
              (Option.some.inj found).symm⟩
        · -- the ninth digit is left over
          have smallFirst : ∀ digit ∈ places.take 8, digit < 10 :=
            fun digit member => smallPlaces digit (List.mem_of_mem_take member)
          have eight : (places.take 8).length = 8 := by
            rw [List.length_take]
            omega
          have split : numerals places ++ after = numerals (places.take 8) ++
              (numerals (places.drop 8) ++ after) := by
            rw [← List.append_assoc, numerals, numerals, numerals,
              ← List.map_append, List.take_append_drop]
          have run := @parseMoney_point _ (numerals (places.drop 8) ++ after)
            _ _ blank smallWhole smallFirst eight.le (.inl eight)
          rw [← split, parts, if_neg] at run
          · exact ⟨none, run, nofun⟩
          · rintro ⟨blanks, _⟩
            have ninth : places[8] ∈ places.drop 8 :=
              List.mem_drop_iff_getElem.mpr ⟨0, by omega, rfl⟩
            have shown := numeral_plain places[8]
              (smallPlaces _ (List.mem_of_mem_drop ninth))
            have space := List.all_eq_true.mp blanks (numeral places[8])
              (List.mem_append_left _ (List.mem_map_of_mem ninth))
            exact absurd (shown.2.1.symm.trans space) Bool.false_ne_true
      · exact plain fun other first => by
          rw [← Option.some.inj first]
          exact point

/-! ## The written text -/

/-- `%d` writes the digits of a number. -/
theorem exists_decimal (n : Nat) {count : Nat} (positive : 0 < count)
    (small : n < 10 ^ count) :
    ∃ digits : List Nat, (∀ digit ∈ digits, digit < 10) ∧
      digits.length ≤ count ∧ decimal n = numerals digits ∧
      value 10 digits = n := by
  rcases exists_digits n with ⟨digits, below, text, number⟩
  have short := length_natText_le positive small
  rw [text, List.length_map] at short
  refine ⟨digits, below, short, ?_, number⟩
  rw [decimal, intText_ofNat, text, List.map_map, numerals]
  refine List.map_congr_left fun digit member => ?_
  exact (numeral_plain digit (below digit member)).2.2.2.2.2.1

/-- `%08d` writes eight digits. -/
theorem exists_decimal8 {n : Nat} (small : n < 10 ^ 8) :
    ∃ digits : List Nat, (∀ digit ∈ digits, digit < 10) ∧
      digits.length = 8 ∧ decimal8 n = numerals digits ∧
      value 10 digits = n := by
  rcases exists_decimal n (by decide) small with
    ⟨digits, below, short, text, number⟩
  refine ⟨List.replicate (8 - digits.length) 0 ++ digits, ?_, ?_, ?_, ?_⟩
  · intro digit member
    rcases List.mem_append.mp member with zero | later
    · rw [List.eq_of_mem_replicate zero]
      decide
    · exact below digit later
  · rw [List.length_append, List.length_replicate]
    omega
  · rw [decimal8, text, List.leftpad, numerals, numerals, List.length_map,
      List.map_append, List.map_replicate]
    rfl
  · rw [value_append, value_replicate, Nat.zero_mul, Nat.zero_add, number]

/-- The loop counts zeros and leaves two digits after the point. -/
theorem trimLoop_counts {str : List UInt8} {point i : Nat}
    (dot : str[point]? = some (ascii '.')) (start : point + 2 ≤ i)
    (digits : ∀ j, point < j → j ≤ i →
      ∃ c, str[j]? = some c ∧ isdigit c = true) :
    ∃ nTrim, trimLoop str i = .ok nTrim ∧ point + 2 + nTrim ≤ i ∧
      ∀ j, i < j + nTrim → j ≤ i → str[j]? = some (ascii '0') := by
  induction i, start using Nat.le_induction with
  | base =>
      rcases digits (point + 2) (by omega) le_rfl with ⟨last, here, _⟩
      refine ⟨0, ?_, le_rfl, fun j more less => absurd more (by omega)⟩
      rw [trimLoop, here, dot]
      dsimp only
      rw [if_neg fun both => absurd both.2 (by decide)]
      rfl
  | succ i start ih =>
      rcases Nat.exists_eq_add_of_le' (show 1 ≤ i by omega) with ⟨k, rfl⟩
      rcases digits (k + 2) (by omega) le_rfl with ⟨last, here, _⟩
      rcases digits k (by omega) (by omega) with ⟨before, there, shown⟩
      have step : trimLoop str (k + 2) =
          if last = ascii '0' ∧ isdigit before then do
            let nTrim ← trimLoop str (k + 1)
            pure (nTrim + 1)
          else pure 0 := by
        rw [trimLoop, here, there]
      rw [show k + 1 + 1 = k + 2 from rfl, step]
      by_cases zero : last = ascii '0'
      · rcases ih (fun j more less => digits j more (by omega)) with
          ⟨nTrim, run, room, zeros⟩
        refine ⟨nTrim + 1, ?_, by omega, fun j more less => ?_⟩
        · rw [if_pos ⟨zero, shown⟩, run, ok_bind]
          rfl
        · rcases Nat.lt_or_eq_of_le less with earlier | rfl
          · exact zeros j (by omega) (by omega)
          · rw [here, zero]
      · refine ⟨0, ?_, by omega, fun j more less => absurd more (by omega)⟩
        rw [if_neg fun both => zero both.1]
        rfl

/-- The zeros that are trimmed stand behind the digits that are kept. -/
theorem trim_places (whole : List Nat) {places : List Nat}
    (small : ∀ digit ∈ places, digit < 10) (many : 2 ≤ places.length) :
    ∃ kept nTrim, places = kept ++ List.replicate nTrim 0 ∧
      trimLoop (numerals whole ++ ascii '.' :: numerals places)
        (whole.length + places.length) = .ok nTrim := by
  have dot : (numerals whole ++ ascii '.' :: numerals places)[whole.length]? =
      some (ascii '.') := by
    rw [List.getElem?_append_right (by simp)]
    simp
  have after : ∀ j, (numerals whole ++
      ascii '.' :: numerals places)[whole.length + 1 + j]? =
        (places[j]?).map numeral := by
    intro j
    rw [List.getElem?_append_right (by simp; omega), length_numerals,
      show whole.length + 1 + j - whole.length = j + 1 by omega,
      List.getElem?_cons_succ, getElem?_numerals]
  have shown : ∀ j, whole.length < j → j ≤ whole.length + places.length →
      ∃ c, (numerals whole ++ ascii '.' :: numerals places)[j]? = some c ∧
        isdigit c = true := by
    intro j more less
    rcases Nat.exists_eq_add_of_le more with ⟨k, rfl⟩
    have inside : k < places.length := by omega
    refine ⟨numeral places[k], ?_, (numeral_plain _
      (small _ (List.getElem_mem inside))).1⟩
    rw [Nat.succ_eq_add_one, after, List.getElem?_eq_getElem inside]
    rfl
  rcases trimLoop_counts dot (Nat.add_le_add_left many _) shown with
    ⟨nTrim, run, room, zeros⟩
  refine ⟨places.take (places.length - nTrim), nTrim, ?_, run⟩
  have dropped : places.drop (places.length - nTrim) =
      List.replicate nTrim 0 := by
    refine List.eq_replicate_iff.mpr ⟨?_, fun digit member => ?_⟩
    · rw [List.length_drop]
      omega
    · rcases List.mem_drop_iff_getElem.mp member with ⟨k, inside, rfl⟩
      have zero := zeros (whole.length + 1 + (places.length - nTrim + k))
        (by omega) (by omega)
      rw [after, List.getElem?_eq_getElem (by omega), Option.map_some,
        Option.some.injEq] at zero
      exact (numeral_plain _ (small _ (List.getElem_mem _))
        ).2.2.2.2.2.2 zero
  rw [← dropped, List.take_append_drop]

theorem absolute_natCast {n : Nat} : absolute n = .ok (n : Int) := by
  unfold absolute
  split_ifs with positive
  · rfl
  · have zero : n = 0 := by omega
    rw [zero]
    rfl

/-- An amount is written as digits with a point among them. -/
theorem formatMoney_writes {n : Nat} (small : n < 10 ^ 18) :
    ∃ whole places : List Nat, (∀ digit ∈ whole, digit < 10) ∧
      (∀ digit ∈ places, digit < 10) ∧ whole.length ≤ 10 ∧
      places.length ≤ 8 ∧ scaled 8 whole places = n ∧
      formatMoney n false =
        .ok (numerals whole ++ ascii '.' :: numerals places) := by
  rcases exists_decimal (n / 10 ^ 8) (show 0 < 10 by decide) (by omega) with
    ⟨whole, smallWhole, short, wholeText, wholeNumber⟩
  rcases exists_decimal8 (Nat.mod_lt n (show 0 < 10 ^ 8 by decide)) with
    ⟨places, smallPlaces, eight, text, number⟩
  have quotient : (n : Int).tdiv COIN = ((n / 10 ^ 8 : Nat) : Int) := rfl
  have remainder : (n : Int).tmod COIN = ((n % 10 ^ 8 : Nat) : Int) := rfl
  have units : scaled 8 whole places = n := by
    rw [scaled, eight, wholeNumber, number, Nat.sub_self]
    omega
  rcases trim_places whole smallPlaces (by omega) with
    ⟨kept, nTrim, rfl, run⟩
  have length : kept.length + nTrim = 8 := by
    rw [← eight, List.length_append, List.length_replicate]
  have taken : (numerals whole ++
      ascii '.' :: numerals (kept ++ List.replicate nTrim 0)).take
        (whole.length + 9 - nTrim) =
      numerals whole ++ ascii '.' :: numerals kept := by
    rw [numerals, numerals, List.map_append, ← numerals, ← numerals,
      ← List.cons_append, ← List.append_assoc]
    exact List.take_left' (by
      rw [List.length_append, List.length_cons, length_numerals,
        length_numerals]
      omega)
  refine ⟨whole, kept, smallWhole, fun digit member =>
    smallPlaces digit (List.mem_append_left _ member), short, by omega, ?_, ?_⟩
  · rw [← units, scaled_zeros whole length.le]
  · rw [formatMoney, absolute_natCast, ok_bind]
    dsimp only
    rw [quotient, remainder, wholeText, text, List.length_append,
      List.length_cons, length_numerals, length_numerals, eight,
      show whole.length + (8 + 1) - 1 = whole.length + 8 from rfl, ← eight,
      run, ok_bind, eight]
    rw [show whole.length + (8 + 1) = whole.length + 9 from rfl, taken,
      if_neg (by omega), Bool.false_and, if_neg Bool.false_ne_true]
    rfl

/-! ## The round trip -/

/-- The value is that of the text, and below `10 ^ 10` coins. -/
theorem parseMoney_exact {text : List UInt8} {nValue : Int}
    (accepted : parseMoney text = .ok (some nValue)) :
    Readable text ∧ Denotes text nValue ∧ 0 ≤ nValue ∧
      nValue < 10 ^ 10 * COIN := by
  rcases parseMoney_returns text with ⟨outcome, run, exact⟩
  rw [accepted, Except.ok.injEq] at run
  rcases exact nValue run.symm with ⟨whole, places, shows, short, fits, rfl⟩
  have bound : scaled 8 whole places < 10 ^ 18 :=
    (scaled_lt shows.smallWhole shows.smallPlaces fits).trans_le
      (Nat.pow_le_pow_right (by decide) (by omega))
  have coin : (10 : Int) ^ 10 * COIN = ((10 ^ 18 : Nat) : Int) := rfl
  refine ⟨⟨whole, places, shows, short, fits⟩, ⟨whole, places, shows, ?_⟩,
    Int.natCast_nonneg _, ?_⟩
  · rw [Int.cast_natCast, scaled_eq whole fits]
    norm_num [COIN]
  · rw [coin]
    exact_mod_cast bound

theorem parse_formatMoney {n : Int} (nonneg : 0 ≤ n)
    (bound : n < 10 ^ 10 * COIN) :
    (formatMoney n false >>= parseMoneyString) = .ok (some n) := by
  rcases Int.eq_ofNat_of_zero_le nonneg with ⟨amount, rfl⟩
  have coin : (10 : Int) ^ 10 * COIN = ((10 ^ 18 : Nat) : Int) := rfl
  rw [coin] at bound
  rcases formatMoney_writes (Int.ofNat_lt.mp bound) with
    ⟨whole, places, smallWhole, smallPlaces, short, fits, number, written⟩
  have shows : Shows (numerals whole ++ ascii '.' :: numerals places) whole
      places :=
    ⟨smallWhole, smallPlaces, [], [], rfl, rfl, .inl (by simp)⟩
  rw [written, ok_bind, parseMoneyString, takeWhile_nonzero shows.nonzero,
    parseMoney_shows shows short fits, number]

/-- On a `std::string` the value is that of the text exactly when the text
does not go on after a zero character, or nothing is read in front of it. -/
theorem parseMoneyString_exact_iff (str : List UInt8) :
    (∀ nValue, parseMoneyString str = .ok (some nValue) →
        Denotes str nValue ∧ 0 ≤ nValue ∧ nValue < 10 ^ 10 * COIN) ↔
      0 ∉ str ∨ ¬ Readable (str.takeWhile (· ≠ 0)) := by
  constructor
  · intro exact
    by_contra neither
    rcases not_or.mp neither with ⟨_, readable⟩
    rcases not_not.mp readable with ⟨whole, places, shows, short, fits⟩
    rcases exact _ (parseMoney_shows shows short fits) with
      ⟨⟨_, _, shown, _⟩, _⟩
    exact neither (.inl shown.nonzero)
  · rintro (plain | unreadable) nValue accepted
    · rw [parseMoneyString, takeWhile_nonzero plain] at accepted
      exact (parseMoney_exact accepted).2
    · exact absurd (parseMoney_exact accepted).1 unreadable

/-- Amounts come back, and the value of a C string is exact, without an
overflow; that of a `std::string` is, as far as it has no zero character. -/
theorem money_text_exact_iff (str : List UInt8) :
    (∀ n : Int, 0 ≤ n → n < 10 ^ 10 * COIN →
        (formatMoney n false >>= parseMoneyString) = .ok (some n)) ∧
      (∀ psz : List UInt8, 0 ∉ psz →
        (∃ outcome, parseMoney psz = .ok outcome) ∧
          ∀ nValue, parseMoney psz = .ok (some nValue) →
            Denotes psz nValue ∧ 0 ≤ nValue ∧ nValue < 10 ^ 10 * COIN) ∧
      (∃ outcome, parseMoneyString str = .ok outcome) ∧
      ((∀ nValue, parseMoneyString str = .ok (some nValue) →
          Denotes str nValue ∧ 0 ≤ nValue ∧ nValue < 10 ^ 10 * COIN) ↔
        0 ∉ str ∨ ¬ Readable (str.takeWhile (· ≠ 0))) := by
  have returns : ∀ text, ∃ outcome, parseMoney text = .ok outcome := by
    intro text
    rcases parseMoney_returns text with ⟨outcome, run, _⟩
    exact ⟨outcome, run⟩
  exact ⟨fun n nonneg bound => parse_formatMoney nonneg bound,
    fun psz _ => ⟨returns psz, fun _ accepted => (parseMoney_exact accepted).2⟩,
    returns _, parseMoneyString_exact_iff str⟩

theorem money_text_exact_iff_half :
    (formatMoney 150000000 false >>= parseMoneyString) =
        .ok (some 150000000) ∧
      Denotes ([' ', '1', '.', '5'].map ascii) 150000000 := by
  have accepted : parseMoney ([' ', '1', '.', '5'].map ascii) =
      .ok (some 150000000) := by
    decide +kernel
  rcases money_text_exact_iff [] with ⟨written, read, _, _⟩
  exact ⟨written _ (by decide) (by decide),
    ((read _ (by decide)).2 _ accepted).1⟩

/-- The text may go on after a zero character. -/
theorem zero_character_hides :
    parseMoneyString [ascii '1', 0, ascii '2'] = .ok (some COIN) ∧
      ¬ Denotes [ascii '1', 0, ascii '2'] COIN := by
  refine ⟨by decide +kernel, ?_⟩
  rintro ⟨_, _, shows, _⟩
  exact shows.nonzero (by decide)

end PrivateDatagram.Wire.MoneyText
