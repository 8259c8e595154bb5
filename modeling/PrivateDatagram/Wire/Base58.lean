import Mathlib.Data.List.TakeWhile
import PrivateDatagram.Library.RadixBuffer
import PrivateDatagram.Wire.Serialize

/-!
# Base58

`EncodeBase58` and `DecodeBase58` change the radix of a byte string in a
buffer; leading zeros and leading `1`s stand for each other and are counted
apart, in an `int`.

A string is a list of bytes.  `DecodeBase58` on a `std::string` reads it as a
C string, up to the first zero byte.
-/

namespace PrivateDatagram.Wire.Base58

open Library.ByteFormat Library.RadixBuffer Serialize

/-- Why a function does not return. -/
inductive Failure where
  | assertion
  | lengthError
deriving DecidableEq, Repr

/-- A character of the source. -/
def ascii (character : Char) : UInt8 :=
  UInt8.ofNat character.toNat

/-- `pszBase58`. -/
def pszBase58 : List UInt8 :=
  ['1', '2', '3', '4', '5', '6', '7', '8', '9', 'A', 'B', 'C', 'D', 'E', 'F',
    'G', 'H', 'J', 'K', 'L', 'M', 'N', 'P', 'Q', 'R', 'S', 'T', 'U', 'V', 'W',
    'X', 'Y', 'Z', 'a', 'b', 'c', 'd', 'e', 'f', 'g', 'h', 'i', 'j', 'k', 'm',
    'n', 'o', 'p', 'q', 'r', 's', 't', 'u', 'v', 'w', 'x', 'y', 'z'].map ascii

/-- `pszBase58[digit]`. -/
def letter (digit : Nat) : UInt8 :=
  pszBase58.getD digit 0

/-- The characters of digits. -/
def text (digits : List Nat) : List UInt8 :=
  digits.map letter

/-- `isspace` in the `C` locale. -/
def isspace (c : UInt8) : Bool :=
  c = 0x20 || (0x09 ≤ c && c ≤ 0x0d)

/-- The loops that skip and count one character; `zeroes` is an `int`. -/
def skipCount (skipped : UInt8) : Int → List UInt8 → Int × List UInt8
  | zeroes, [] => (zeroes, [])
  | zeroes, c :: psz =>
      if c = skipped then skipCount skipped ((zeroes + 1).bmod (2 ^ 32)) psz
      else (zeroes, c :: psz)

/-- `reserve(zeroes + size)` and `assign(zeroes, c)` on an empty vector or
string; a negative number is larger than `max_size()`. -/
def reserveAssign (zeroes : Int) (size : Nat) (c : UInt8) :
    Except Failure (List UInt8) :=
  if zeroes + size < 0 then .error .lengthError
  else if zeroes < 0 then .error .lengthError
  else .ok (List.replicate zeroes.toNat c)

/-- The loop of `DecodeBase58` over the characters: the buffer and the rest of
the string, or `false`. -/
def decodeLoop : List Nat → List UInt8 →
    Except Failure (Option (List Nat × List UInt8))
  | b256, [] => .ok (some (b256, []))
  | b256, c :: psz =>
      if isspace c then
        .ok (some (b256, c :: psz))
      else
        match pszBase58.idxOf? c with
        | none => .ok none
        | some ch =>
            let sum := takeIn 256 58 b256 ch
            if sum.2 = 0 then decodeLoop sum.1 psz else .error .assertion

/-- `DecodeBase58` on a C string. -/
def decodeBase58 (psz : List UInt8) : Except Failure (Option Bytes) := do
  let psz := psz.dropWhile isspace
  let (zeroes, psz) := skipCount (ascii '1') 0 psz
  let b256 := List.replicate (psz.length * 733 / 1000 + 1) 0
  match ← decodeLoop b256 psz with
  | none => pure none
  | some (b256, psz) =>
      if psz.dropWhile isspace = [] then
        let it := b256.dropWhile (· = 0)
        let vch ← reserveAssign zeroes it.length 0
        pure (some (vch ++ it.map UInt8.ofNat))
      else
        pure none

/-- `DecodeBase58` on a `std::string`, with `c_str()`. -/
def decodeBase58String (str : List UInt8) : Except Failure (Option Bytes) :=
  decodeBase58 (str.takeWhile (· ≠ 0))

/-- Without a zero character `c_str()` is the whole string. -/
theorem takeWhile_nonzero {str : List UInt8} (plain : 0 ∉ str) :
    str.takeWhile (· ≠ 0) = str := by
  refine List.takeWhile_eq_self_iff.mpr fun c member => ?_
  have nonzero : c ≠ 0 := fun zero => plain (zero ▸ member)
  simpa using nonzero

/-- The loop of `EncodeBase58` over the bytes. -/
def encodeLoop : List Nat → Bytes → Except Failure (List Nat)
  | b58, [] => .ok b58
  | b58, byte :: bytes =>
      let sum := takeIn 58 256 b58 byte.toNat
      if sum.2 = 0 then encodeLoop sum.1 bytes else .error .assertion

/-- `EncodeBase58`. -/
def encodeBase58 (bytes : Bytes) : Except Failure (List UInt8) := do
  let (zeroes, bytes) := skipCount 0 0 bytes
  let b58 ← encodeLoop (List.replicate (bytes.length * 138 / 100 + 1) 0) bytes
  let it := b58.dropWhile (· = 0)
  let str ← reserveAssign zeroes it.length (ascii '1')
  pure (str ++ text it)

section Check

-- `Hash` of bytes
variable (hash : Bytes → UInt256)

/-- The first four bytes of the hash in memory. -/
def checksum (bytes : Bytes) : Bytes :=
  littleEndian 4 (hash bytes).toNat

/-- `EncodeBase58Check`. -/
def encodeBase58Check (vchIn : Bytes) : Except Failure (List UInt8) :=
  encodeBase58 (vchIn ++ checksum hash vchIn)

/-- `DecodeBase58Check` on a `std::string`. -/
def decodeBase58Check (str : List UInt8) :
    Except Failure (Option Bytes) := do
  match ← decodeBase58String str with
  | none => pure none
  | some vchRet =>
      if vchRet.length < 4 then
        pure none
      else
        let data := vchRet.take (vchRet.length - 4)
        if checksum hash data ≠ vchRet.drop (vchRet.length - 4) then
          pure none
        else
          pure (some data)

end Check

/-! ## Counting -/

/-- How many of a character come first. -/
def leading (c : UInt8) (str : List UInt8) : Nat :=
  (str.takeWhile (· = c)).length

/-- The count of so many in an `int`. -/
def counted (count : Nat) : Int :=
  (count : Int).bmod (2 ^ 32)

theorem skipCount_add (skipped : UInt8) (zeroes : Int) (str : List UInt8) :
    skipCount skipped (zeroes.bmod (2 ^ 32)) str =
      ((zeroes + leading skipped str).bmod (2 ^ 32),
        str.dropWhile (· = skipped)) := by
  induction str generalizing zeroes with
  | nil => simp [skipCount, leading]
  | cons c str ih =>
      unfold leading at *
      rw [skipCount]
      by_cases same : c = skipped
      · rw [if_pos same, Int.bmod_add_bmod, ih,
          List.takeWhile_cons_of_pos (by simpa using same),
          List.dropWhile_cons_of_pos (by simpa using same),
          List.length_cons, Nat.cast_succ, Int.add_right_comm, Int.add_assoc]
      · rw [if_neg same, List.takeWhile_cons_of_neg (by simpa using same),
          List.dropWhile_cons_of_neg (by simpa using same)]
        simp

theorem skipCount_eq (skipped : UInt8) (str : List UInt8) :
    skipCount skipped 0 str =
      (counted (leading skipped str), str.dropWhile (· = skipped)) := by
  have all := skipCount_add skipped 0 str
  rwa [Int.zero_add, Int.zero_bmod] at all

theorem replicate_leading (c : UInt8) (str : List UInt8) :
    List.replicate (leading c str) c ++ str.dropWhile (· = c) = str := by
  have every : ∀ other ∈ str.takeWhile (· = c), other = c := by
    intro other member
    simpa using List.mem_takeWhile_imp member
  rw [leading, ← List.eq_replicate_of_mem every, List.takeWhile_append_dropWhile]

theorem leading_replicate (c : UInt8) (count : Nat) {str : List UInt8}
    (apart : str.head? ≠ some c) :
    leading c (List.replicate count c ++ str) = count ∧
      (List.replicate count c ++ str).dropWhile (· = c) = str := by
  induction count with
  | zero =>
      cases str with
      | nil => exact ⟨rfl, rfl⟩
      | cons other str =>
          have different : ¬ other = c := by simpa using apart
          simp [leading, different]
  | succ count ih =>
      unfold leading at *
      rw [List.replicate_succ, List.cons_append,
        List.takeWhile_cons_of_pos (by simp),
        List.dropWhile_cons_of_pos (by simp), List.length_cons, ih.1]
      exact ⟨rfl, ih.2⟩

theorem head?_dropWhile (c : UInt8) (str : List UInt8) :
    (str.dropWhile (· = c)).head? ≠ some c := by
  intro same
  have kept := List.head?_dropWhile_not (· = c) str
  rw [same] at kept
  simp at kept

theorem counted_eq {count : Nat} (small : count < 2 ^ 31) :
    counted count = count :=
  Int.bmod_eq_of_le (by omega) (by omega)

theorem counted_lt (count : Nat) : counted count < 2 ^ 31 := by
  have bound := Int.bmod_lt (x := (count : Int)) (m := 2 ^ 32) (by decide)
  unfold counted
  omega

theorem reserveAssign_eq (zeroes : Int) (size : Nat) (c : UInt8) :
    reserveAssign zeroes size c =
      if zeroes < 0 then .error .lengthError
      else .ok (List.replicate zeroes.toNat c) := by
  unfold reserveAssign
  by_cases negative : zeroes < 0
  · simp [negative]
  · have notNegative : ¬ zeroes + size < 0 := by omega
    rw [if_neg notNegative]

/-! ## The alphabet -/

theorem idxOf?_letter : ∀ digit < 58,
    pszBase58.idxOf? (letter digit) = some digit := by
  decide +kernel

theorem letter_plain : ∀ digit < 58,
    isspace (letter digit) = false ∧ letter digit ≠ 0 ∧
      (letter digit = ascii '1' ↔ digit = 0) := by
  decide +kernel

theorem eq_letter {c : UInt8} {digit : Nat}
    (found : pszBase58.idxOf? c = some digit) :
    digit < 58 ∧ c = letter digit := by
  rcases List.idxOf?_eq_some_iff.mp found with ⟨inside, same, _⟩
  refine ⟨inside, ?_⟩
  rw [letter, List.getD_eq_getElem?_getD, List.getElem?_eq_getElem inside,
    same, Option.getD_some]

/-- The digits of a string, up to the first character that is none. -/
theorem exists_text (str : List UInt8) :
    ∃ digits rest, (∀ digit ∈ digits, digit < 58) ∧
      str = text digits ++ rest ∧
      ∀ c ∈ rest.head?, pszBase58.idxOf? c = none := by
  induction str with
  | nil => exact ⟨[], [], nofun, rfl, nofun⟩
  | cons c str ih =>
      cases found : pszBase58.idxOf? c with
      | none => exact ⟨[], c :: str, nofun, rfl, by simpa using found⟩
      | some digit =>
          rcases eq_letter found with ⟨small, rfl⟩
          rcases ih with ⟨digits, rest, smaller, rfl, stop⟩
          exact ⟨digit :: digits, rest,
            List.forall_mem_cons.mpr ⟨small, smaller⟩, rfl, stop⟩

/-! ## The loops -/

/-- Digits are taken in while there is room. -/
theorem decodeLoop_text {digits : List Nat}
    (small : ∀ digit ∈ digits, digit < 58) {b256 : List Nat}
    (buffer : ∀ digit ∈ b256, digit < 256)
    (room : (value 256 b256 + 1) * 58 ^ digits.length ≤
      256 ^ b256.length) :
    ∃ b256', (∀ rest, decodeLoop b256 (text digits ++ rest) =
        decodeLoop b256' rest) ∧
      value 256 b256' =
        value 256 b256 * 58 ^ digits.length + value 58 digits ∧
      ∀ digit ∈ b256', digit < 256 := by
  induction digits generalizing b256 with
  | nil => exact ⟨b256, fun _ => rfl, by simp, buffer⟩
  | cons digit digits ih =>
      rw [List.forall_mem_cons] at small
      rw [List.length_cons, Nat.pow_succ', ← Nat.mul_assoc] at room
      have positive : 0 < 58 ^ digits.length := Nat.pow_pos (by decide)
      have fits := (Nat.le_mul_of_pos_right _ positive).trans room
      rcases takeIn_room (show 0 < 256 by decide) small.1 fits with
        ⟨noCarry, length, sum, below⟩
      have smaller : value 256 (takeIn 256 58 b256 digit).1 + 1 ≤
          (value 256 b256 + 1) * 58 := by
        omega
      have roomLater := (Nat.mul_le_mul_right (58 ^ digits.length)
        smaller).trans room
      rw [← length] at roomLater
      rcases ih small.2 below roomLater with ⟨b256', ran, total, digits'⟩
      refine ⟨b256', fun rest => ?_, ?_, digits'⟩
      · have plain := letter_plain digit small.1
        rw [text, List.map_cons, List.cons_append, decodeLoop, plain.1,
          if_neg Bool.false_ne_true, idxOf?_letter digit small.1]
        dsimp only
        rw [if_pos noCarry]
        exact ran rest
      · rw [total, sum, value_cons, List.length_cons, Nat.pow_succ']
        ring

/-- The loop stops where there is no digit. -/
theorem decodeLoop_stop (b256 : List Nat) {rest : List UInt8}
    (stop : ∀ c ∈ rest.head?, pszBase58.idxOf? c = none) :
    decodeLoop b256 rest = .ok (some (b256, rest)) ∨
      decodeLoop b256 rest = .ok none ∧ rest.dropWhile isspace ≠ [] := by
  cases rest with
  | nil => exact .inl rfl
  | cons c rest =>
      have strange := stop c rfl
      rw [decodeLoop]
      by_cases space : isspace c = true
      · rw [if_pos space]
        exact .inl rfl
      · rw [if_neg space, strange, List.dropWhile_cons_of_neg space]
        exact .inr ⟨rfl, List.cons_ne_nil c rest⟩

theorem encodeLoop_bytes (bytes : Bytes) {b58 : List Nat}
    (buffer : ∀ digit ∈ b58, digit < 58)
    (room : (value 58 b58 + 1) * 256 ^ bytes.length ≤ 58 ^ b58.length) :
    ∃ b58', encodeLoop b58 bytes = .ok b58' ∧
      value 58 b58' = value 58 b58 * 256 ^ bytes.length +
        value 256 (bytes.map UInt8.toNat) ∧
      ∀ digit ∈ b58', digit < 58 := by
  induction bytes generalizing b58 with
  | nil => exact ⟨b58, rfl, by simp, buffer⟩
  | cons byte bytes ih =>
      rw [List.length_cons, Nat.pow_succ', ← Nat.mul_assoc] at room
      have positive : 0 < 256 ^ bytes.length := Nat.pow_pos (by decide)
      have fits := (Nat.le_mul_of_pos_right _ positive).trans room
      have small : byte.toNat < 256 := byte.toNat_lt
      rcases takeIn_room (show 0 < 58 by decide) small fits with
        ⟨noCarry, length, sum, below⟩
      have smaller : value 58 (takeIn 58 256 b58 byte.toNat).1 + 1 ≤
          (value 58 b58 + 1) * 256 := by
        omega
      have roomLater := (Nat.mul_le_mul_right (256 ^ bytes.length)
        smaller).trans room
      rw [← length] at roomLater
      rcases ih below roomLater with ⟨b58', ran, total, digits'⟩
      refine ⟨b58', ?_, ?_, digits'⟩
      · rw [encodeLoop, if_pos noCarry, ran]
      · rw [total, sum, List.map_cons, value_cons, List.length_cons,
          List.length_map, Nat.pow_succ']
        ring

/-! ## The functions -/

theorem digits_replicate (count radix : Nat) (positive : 0 < radix) :
    ∀ digit ∈ List.replicate count 0, digit < radix := by
  intro digit member
  rwa [List.eq_of_mem_replicate member]

/-- The buffer for bytes has room for all characters. -/
theorem decode_room (count more : Nat) :
    58 ^ count ≤ 256 ^ ((count + more) * 733 / 1000 + 1) := by
  have ratio : 58 ^ 86 ≤ 256 ^ 63 := by decide
  exact pow_le_pow_of_ratio (by decide) ratio (by decide) (by omega)

/-- The buffer for characters has room for all bytes. -/
theorem encode_room (count : Nat) :
    256 ^ count ≤ 58 ^ (count * 138 / 100 + 1) := by
  have ratio : 256 ^ 8 ≤ 58 ^ 11 := by decide
  exact pow_le_pow_of_ratio (by decide) ratio (by decide) (by omega)

/-- The number of bytes. -/
def number (bytes : Bytes) : Nat :=
  value 256 (bytes.map UInt8.toNat)

/-- What the loop of the encoder leaves. -/
theorem encodeLoop_start (bytes : Bytes) :
    ∃ b58, encodeLoop (List.replicate (bytes.length * 138 / 100 + 1) 0)
        bytes = .ok b58 ∧
      b58.dropWhile (· = 0) = digitsOf 58 (number bytes) := by
  have start := digits_replicate (bytes.length * 138 / 100 + 1) 58
    (by decide)
  have room := encode_room bytes.length
  rcases encodeLoop_bytes bytes start (by
    rwa [value_replicate, List.length_replicate, Nat.zero_add, Nat.one_mul])
    with ⟨b58, ran, total, small⟩
  rw [value_replicate, Nat.zero_mul, Nat.zero_add] at total
  exact ⟨b58, ran, by rw [dropWhile_zero (by decide) small, total, number]⟩

theorem encodeBase58_eq (bytes : Bytes) :
    encodeBase58 bytes =
      if counted (leading 0 bytes) < 0 then .error .lengthError
      else .ok (List.replicate (counted (leading 0 bytes)).toNat (ascii '1') ++
        text (digitsOf 58 (number (bytes.dropWhile (· = 0))))) := by
  rcases encodeLoop_start (bytes.dropWhile (· = 0)) with ⟨b58, ran, stripped⟩
  unfold encodeBase58
  rw [skipCount_eq]
  dsimp only
  rw [ran, ok_bind, reserveAssign_eq, stripped]
  by_cases negative : counted (leading 0 bytes) < 0
  · rw [if_pos negative, if_pos negative]
    rfl
  · rw [if_neg negative, if_neg negative, ok_bind]
    rfl

/-- What the loop of the decoder finds. -/
theorem decodeLoop_start {digits : List Nat}
    (small : ∀ digit ∈ digits, digit < 58) (rest : List UInt8) :
    ∃ b256, (∀ other : List UInt8,
        decodeLoop (List.replicate
          ((text digits ++ rest).length * 733 / 1000 + 1) 0)
          (text digits ++ other) = decodeLoop b256 other) ∧
      b256.dropWhile (· = 0) = digitsOf 256 (value 58 digits) := by
  have room := decode_room digits.length rest.length
  have length : (text digits ++ rest).length =
      digits.length + rest.length := by
    rw [List.length_append, text, List.length_map]
  rw [← length] at room
  have start := digits_replicate
    ((text digits ++ rest).length * 733 / 1000 + 1) 256 (by decide)
  rcases decodeLoop_text small start (by
    rw [value_replicate, List.length_replicate, Nat.zero_add, Nat.one_mul]
    exact room) with ⟨b256, ran, total, bytes⟩
  rw [value_replicate, Nat.zero_mul, Nat.zero_add] at total
  exact ⟨b256, ran, by rw [dropWhile_zero (by decide) bytes, total]⟩

theorem dropWhile_isspace {str : List UInt8}
    (plain : ∀ c ∈ str.head?, isspace c = false) :
    str.dropWhile isspace = str := by
  cases str with
  | nil => rfl
  | cons c str =>
      rw [List.dropWhile_cons_of_neg]
      simpa using plain c rfl

/-- The bytes of a number. -/
def bytesOf (number : Nat) : Bytes :=
  (digitsOf 256 number).map UInt8.ofNat

theorem text_plain {digits : List Nat}
    (small : ∀ digit ∈ digits, digit < 58) :
    ∀ c ∈ text digits, isspace c = false ∧ c ≠ 0 := by
  intro c member
  rcases List.mem_map.mp member with ⟨digit, inside, rfl⟩
  have plain := letter_plain digit (small digit inside)
  exact ⟨plain.1, plain.2.1⟩

/-- Only the digit zero is written as `1`. -/
theorem text_proper {digits : List Nat}
    (small : ∀ digit ∈ digits, digit < 58) (proper : digits.head? ≠ some 0) :
    (text digits).head? ≠ some (ascii '1') := by
  cases digits with
  | nil => exact nofun
  | cons digit digits =>
      have plain := letter_plain digit (small digit List.mem_cons_self)
      intro one
      have zero := plain.2.2.mp (Option.some.inj one)
      exact proper (congrArg some zero)

/-- What is read from so many `1`s and digits. -/
def decoded (count : Nat) (digits : List Nat) :
    Except Failure (Option Bytes) :=
  if counted count < 0 then .error .lengthError
  else .ok (some (List.replicate (counted count).toNat 0 ++
    bytesOf (value 58 digits)))

theorem decodeBase58_eq {digits : List Nat}
    (small : ∀ digit ∈ digits, digit < 58) {psz rest : List UInt8}
    (shape : (psz.dropWhile isspace).dropWhile (· = ascii '1') =
      text digits ++ rest)
    (stop : ∀ c ∈ rest.head?, pszBase58.idxOf? c = none) :
    decodeBase58 psz =
      if rest.dropWhile isspace = [] then
        decoded (leading (ascii '1') (psz.dropWhile isspace)) digits
      else .ok none := by
  rcases decodeLoop_start small rest with ⟨b256, ran, stripped⟩
  unfold decodeBase58
  dsimp only
  rw [skipCount_eq, shape]
  dsimp only
  rw [ran rest]
  rcases decodeLoop_stop b256 stop with ended | ⟨failed, more⟩
  · rw [ended, ok_bind]
    dsimp only
    by_cases last : rest.dropWhile isspace = []
    · rw [if_pos last, if_pos last, reserveAssign_eq, stripped, decoded]
      by_cases negative :
          counted (leading (ascii '1') (psz.dropWhile isspace)) < 0
      · rw [if_pos negative, if_pos negative]
        rfl
      · rw [if_neg negative, if_neg negative, ok_bind]
        rfl
    · rw [if_neg last, if_neg last]
      rfl
  · rw [failed, ok_bind, if_neg more]
    rfl

theorem decoded_small {count : Nat} (small : count < 2 ^ 31)
    (digits : List Nat) :
    decoded count digits =
      .ok (some (List.replicate count 0 ++ bytesOf (value 58 digits))) := by
  have notNegative : ¬ counted count < 0 := by
    rw [counted_eq small]
    omega
  rw [decoded, if_neg notNegative, counted_eq small, Int.toNat_natCast]

theorem ones_text_plain (count : Nat) {digits : List Nat}
    (small : ∀ digit ∈ digits, digit < 58) :
    ∀ c ∈ List.replicate count (ascii '1') ++ text digits,
      isspace c = false ∧ c ≠ 0 := by
  intro c member
  rcases List.mem_append.mp member with one | other
  · rw [List.eq_of_mem_replicate one]
    decide
  · exact text_plain small c other

/-- The decoder on `1`s and digits alone. -/
theorem decodeBase58String_text (count : Nat) {digits : List Nat}
    (small : ∀ digit ∈ digits, digit < 58) (proper : digits.head? ≠ some 0) :
    decodeBase58String (List.replicate count (ascii '1') ++ text digits) =
      decoded count digits := by
  have plain := ones_text_plain count small
  rcases leading_replicate (ascii '1') count (text_proper small proper) with
    ⟨ones, rest⟩
  have whole : (List.replicate count (ascii '1') ++ text digits).dropWhile
      isspace = List.replicate count (ascii '1') ++ text digits :=
    dropWhile_isspace fun c first => (plain c (List.mem_of_head? first)).1
  have shape : ((List.replicate count (ascii '1') ++ text digits).dropWhile
      isspace).dropWhile (· = ascii '1') = text digits ++ [] := by
    rw [whole, rest, List.append_nil]
  rw [decodeBase58String, takeWhile_nonzero fun member => (plain 0 member).2 rfl,
    decodeBase58_eq small shape nofun, List.dropWhile_nil, if_pos rfl, whole,
    ones]

/-! ## Bytes and numbers -/

theorem toNat_ofNat {digits : List Nat}
    (small : ∀ digit ∈ digits, digit < 256) :
    (digits.map UInt8.ofNat).map UInt8.toNat = digits := by
  rw [List.map_map]
  calc
    digits.map (UInt8.toNat ∘ UInt8.ofNat) = digits.map id :=
      List.map_congr_left fun digit member =>
        UInt8.toNat_ofNat_of_lt (small digit member)
    _ = digits := List.map_id digits

theorem ofNat_toNat (bytes : Bytes) :
    (bytes.map UInt8.toNat).map UInt8.ofNat = bytes := by
  rw [List.map_map]
  exact List.map_id'' (fun byte => UInt8.ofNat_toNat) bytes

theorem number_bytesOf (n : Nat) : number (bytesOf n) = n := by
  rw [number, bytesOf, toNat_ofNat (digitsOf_lt (by decide) n),
    value_digitsOf]

theorem bytesOf_number {bytes : Bytes} (proper : bytes.head? ≠ some 0) :
    bytesOf (number bytes) = bytes := by
  have small : ∀ digit ∈ bytes.map UInt8.toNat, digit < 256 := by
    intro digit member
    rcases List.mem_map.mp member with ⟨byte, _, rfl⟩
    exact byte.toNat_lt
  have first : (bytes.map UInt8.toNat).head? ≠ some 0 := by
    intro zero
    rw [List.head?_map, Option.map_eq_some_iff] at zero
    rcases zero with ⟨byte, same, zero⟩
    exact proper (same.trans (congrArg some (UInt8.toNat_inj.mp zero)))
  rw [bytesOf, number, digitsOf_value (by decide) small first, ofNat_toNat]

theorem bytesOf_proper (n : Nat) : (bytesOf n).head? ≠ some 0 := by
  intro zero
  rw [bytesOf, List.head?_map, Option.map_eq_some_iff] at zero
  rcases zero with ⟨digit, first, zero⟩
  have small : digit < 256 :=
    digitsOf_lt (by decide) n digit (List.mem_of_head? first)
  have same := congrArg UInt8.toNat zero
  rw [UInt8.toNat_ofNat_of_lt' small] at same
  exact digitsOf_proper 256 n (first.trans (congrArg some same))

/-! ## Round trips -/

/-- The bytes with so many of their leading zeros as an `int` counts. -/
def recounted (bytes : Bytes) : Bytes :=
  List.replicate (counted (leading 0 bytes)).toNat 0 ++
    bytes.dropWhile (· = 0)

theorem recounted_eq_iff (bytes : Bytes) :
    recounted bytes = bytes ∧ 0 ≤ counted (leading 0 bytes) ↔
      leading 0 bytes < 2 ^ 31 := by
  have apart := head?_dropWhile 0 bytes
  constructor
  · rintro ⟨same, _⟩
    have zeros := congrArg (leading 0) same
    rw [recounted, (leading_replicate 0 _ apart).1] at zeros
    have bound := counted_lt (leading 0 bytes)
    omega
  · intro small
    rw [recounted, counted_eq small, Int.toNat_natCast, replicate_leading]
    exact ⟨rfl, Int.natCast_nonneg _⟩

/-- What the decoder makes of the encoder's result. -/
theorem decode_encode (bytes : Bytes) :
    (encodeBase58 bytes >>= decodeBase58String) =
      if counted (leading 0 bytes) < 0 then .error .lengthError
      else .ok (some (recounted bytes)) := by
  rw [encodeBase58_eq]
  by_cases negative : counted (leading 0 bytes) < 0
  · rw [if_pos negative, if_pos negative]
    rfl
  · have bound := counted_lt (leading 0 bytes)
    have small : (counted (leading 0 bytes)).toNat < 2 ^ 31 := by omega
    rw [if_neg negative, if_neg negative, ok_bind,
      decodeBase58String_text _ (digitsOf_lt (by decide) _)
        (digitsOf_proper _ _),
      decoded_small small, value_digitsOf,
      bytesOf_number (head?_dropWhile 0 bytes), recounted]

theorem decode_encode_iff (bytes : Bytes) :
    (encodeBase58 bytes >>= decodeBase58String) = .ok (some bytes) ↔
      leading 0 bytes < 2 ^ 31 := by
  rw [decode_encode, ← recounted_eq_iff]
  by_cases negative : counted (leading 0 bytes) < 0
  · rw [if_pos negative]
    exact ⟨nofun, fun both => absurd negative (not_lt.mpr both.2)⟩
  · rw [if_neg negative, Except.ok.injEq, Option.some.injEq]
    exact ⟨fun same => ⟨same, not_lt.mp negative⟩, And.left⟩

section Check

variable (hash : Bytes → UInt256)

/-- `DecodeBase58Check` accepts the bytes before their checksum. -/
theorem decodeBase58Check_iff (str : List UInt8) (bytes : Bytes) :
    decodeBase58Check hash str = .ok (some bytes) ↔
      decodeBase58String str = .ok (some (bytes ++ checksum hash bytes)) := by
  have size : (bytes ++ checksum hash bytes).length = bytes.length + 4 := by
    rw [List.length_append, checksum, length_littleEndian]
  unfold decodeBase58Check
  constructor
  · cases read : decodeBase58String str with
    | error failure => exact nofun
    | ok result =>
        rw [ok_bind]
        cases result with
        | none => exact nofun
        | some vchRet =>
            dsimp only
            by_cases short : vchRet.length < 4
            · rw [if_pos short]
              exact nofun
            · rw [if_neg short]
              by_cases wrong : checksum hash (vchRet.take (vchRet.length - 4))
                  ≠ vchRet.drop (vchRet.length - 4)
              · rw [if_pos wrong]
                exact nofun
              · rw [if_neg wrong]
                intro accepted
                have data := Option.some.inj (Except.ok.inj accepted)
                rw [not_not, data] at wrong
                rw [wrong, ← data, List.take_append_drop]
  · intro read
    have data : (bytes ++ checksum hash bytes).take
        ((bytes ++ checksum hash bytes).length - 4) = bytes := by
      rw [size, Nat.add_sub_cancel, List.take_left]
    have check : (bytes ++ checksum hash bytes).drop
        ((bytes ++ checksum hash bytes).length - 4) = checksum hash bytes := by
      rw [size, Nat.add_sub_cancel, List.drop_left]
    rw [read, ok_bind]
    dsimp only
    rw [if_neg (by omega), data, check, if_neg (not_not.mpr rfl)]
    rfl

theorem decode_encode_check_iff (bytes : Bytes) :
    (encodeBase58Check hash bytes >>= decodeBase58Check hash) =
        .ok (some bytes) ↔
      leading 0 (bytes ++ checksum hash bytes) < 2 ^ 31 := by
  rw [← decode_encode_iff, encodeBase58Check]
  cases encodeBase58 (bytes ++ checksum hash bytes) with
  | error failure => exact ⟨nofun, nofun⟩
  | ok str => exact decodeBase58Check_iff hash str bytes

end Check

/-- What a string is made of that the decoder accepts. -/
theorem decodeBase58_accepts {psz : List UInt8} {vch : Bytes}
    (plain : ∀ c ∈ psz, isspace c = false)
    (accepted : decodeBase58 psz = .ok (some vch)) :
    ∃ digits, (∀ digit ∈ digits, digit < 58) ∧ digits.head? ≠ some 0 ∧
      psz = List.replicate (leading (ascii '1') psz) (ascii '1') ++
        text digits ∧
      decoded (leading (ascii '1') psz) digits = .ok (some vch) := by
  have start : psz.dropWhile isspace = psz :=
    dropWhile_isspace fun c first => plain c (List.mem_of_head? first)
  rcases exists_text (psz.dropWhile (· = ascii '1')) with
    ⟨digits, rest, small, shape, stop⟩
  have whole := replicate_leading (ascii '1') psz
  have ends : rest.dropWhile isspace = rest := by
    refine dropWhile_isspace fun c first => plain c ?_
    rw [← whole, shape]
    exact List.mem_append_right _
      (List.mem_append_right _ (List.mem_of_head? first))
  rw [decodeBase58_eq small (by rw [start, shape]) stop, ends, start]
    at accepted
  by_cases last : rest = []
  · rw [if_pos last] at accepted
    rw [last, List.append_nil] at shape
    refine ⟨digits, small, ?_, by rw [← shape, whole], accepted⟩
    intro zero
    refine head?_dropWhile (ascii '1') psz ?_
    rw [shape, text, List.head?_map, zero]
    rfl
  · rw [if_neg last] at accepted
    exact nomatch accepted

theorem encode_decoded {count : Nat} {digits : List Nat} {vch : Bytes}
    (small : ∀ digit ∈ digits, digit < 58) (proper : digits.head? ≠ some 0)
    (read : decoded count digits = .ok (some vch)) :
    encodeBase58 vch =
      .ok (List.replicate (counted count).toNat (ascii '1') ++
        text digits) := by
  unfold decoded at read
  by_cases negative : counted count < 0
  · rw [if_pos negative] at read
    exact nomatch read
  · rw [if_neg negative, Except.ok.injEq, Option.some.injEq] at read
    have bound := counted_lt count
    have fits : (counted count).toNat < 2 ^ 31 := by omega
    rcases leading_replicate 0 (counted count).toNat
      (bytesOf_proper (value 58 digits)) with ⟨zeros, rest⟩
    have notNegative : ¬ counted (counted count).toNat < 0 := by
      rw [counted_eq fits]
      omega
    rw [← read, encodeBase58_eq, zeros, rest, if_neg notNegative,
      counted_eq fits, Int.toNat_natCast, number_bytesOf,
      digitsOf_value (by decide) small proper]

/-- The encoder restores a string without white space. -/
theorem encode_decode_iff {str : List UInt8} {vch : Bytes}
    (plain : ∀ c ∈ str, isspace c = false)
    (accepted : decodeBase58String str = .ok (some vch)) :
    encodeBase58 vch = .ok str ↔
      leading (ascii '1') str < 2 ^ 31 ∧ 0 ∉ str := by
  have plainC : ∀ c ∈ str.takeWhile (· ≠ 0), isspace c = false :=
    fun c member => plain c (List.takeWhile_subset _ member)
  rcases decodeBase58_accepts plainC accepted with
    ⟨digits, small, proper, shape, read⟩
  rw [encode_decoded small proper read, Except.ok.injEq]
  constructor
  · intro same
    have bound :=
      counted_lt (leading (ascii '1') (str.takeWhile (· ≠ 0)))
    rw [← same]
    refine ⟨?_, fun zero => (ones_text_plain _ small 0 zero).2 rfl⟩
    rw [(leading_replicate _ _ (text_proper small proper)).1]
    omega
  · rintro ⟨few, noZero⟩
    rw [takeWhile_nonzero noZero] at shape ⊢
    rw [counted_eq few, Int.toNat_natCast, ← shape]

/-! ## Assertions -/

theorem encodeBase58_asserts (bytes : Bytes) :
    encodeBase58 bytes ≠ .error .assertion := by
  rw [encodeBase58_eq]
  split_ifs <;> exact nofun

theorem decodeBase58_asserts (psz : List UInt8) :
    decodeBase58 psz ≠ .error .assertion := by
  rcases exists_text ((psz.dropWhile isspace).dropWhile (· = ascii '1')) with
    ⟨digits, rest, small, shape, stop⟩
  rw [decodeBase58_eq small shape stop, decoded]
  split_ifs <;> exact nofun

theorem decodeBase58Check_asserts (hash : Bytes → UInt256)
    (str : List UInt8) :
    decodeBase58Check hash str ≠ .error .assertion := by
  have asserts := decodeBase58_asserts (str.takeWhile (· ≠ 0))
  unfold decodeBase58Check decodeBase58String
  cases read : decodeBase58 (str.takeWhile (· ≠ 0)) with
  | error failure =>
      intro failed
      rw [read] at asserts
      exact asserts (congrArg _ (Except.error.inj failed))
  | ok result =>
      rw [ok_bind]
      cases result with
      | none => exact nofun
      | some vchRet =>
          dsimp only
          split_ifs <;> exact nofun

/-! ## The bijection -/

/-- Bytes and strings come back as long as their leading zeros or `1`s fit
into an `int` and no string ends early at a zero character; no final carry is
left over. -/
theorem base58_bijection_iff (hash : Bytes → UInt256) :
    (∀ bytes, (encodeBase58 bytes >>= decodeBase58String) =
        .ok (some bytes) ↔ leading 0 bytes < 2 ^ 31) ∧
      (∀ bytes, (encodeBase58Check hash bytes >>= decodeBase58Check hash) =
          .ok (some bytes) ↔
        leading 0 (bytes ++ checksum hash bytes) < 2 ^ 31) ∧
      (∀ str vch, (∀ c ∈ str, isspace c = false) →
        decodeBase58String str = .ok (some vch) →
        (encodeBase58 vch = .ok str ↔
          leading (ascii '1') str < 2 ^ 31 ∧ 0 ∉ str)) ∧
      (∀ bytes, encodeBase58 bytes ≠ .error .assertion ∧
        encodeBase58Check hash bytes ≠ .error .assertion) ∧
      ∀ str, decodeBase58 str ≠ .error .assertion ∧
        decodeBase58String str ≠ .error .assertion ∧
        decodeBase58Check hash str ≠ .error .assertion :=
  ⟨decode_encode_iff, decode_encode_check_iff hash,
    fun _ _ plain accepted => encode_decode_iff plain accepted,
    fun bytes => ⟨encodeBase58_asserts bytes, encodeBase58_asserts _⟩,
    fun str => ⟨decodeBase58_asserts str, decodeBase58_asserts _,
      decodeBase58Check_asserts hash str⟩⟩

theorem base58_bijection_iff_two :
    (encodeBase58 [0, 0, 7] >>= decodeBase58String) = .ok (some [0, 0, 7]) ∧
      encodeBase58 [0, 0, 7] = .ok (['1', '1', '8'].map ascii) := by
  have plain : ∀ c ∈ ['1', '1', '8'].map ascii, isspace c = false := by
    decide +kernel
  have accepted : decodeBase58String (['1', '1', '8'].map ascii) =
      .ok (some [0, 0, 7]) := by
    decide +kernel
  rcases base58_bijection_iff fun _ => 0 with ⟨bytes, _, strings, _⟩
  exact ⟨(bytes [0, 0, 7]).mpr (by decide),
    (strings _ _ plain accepted).mpr (by decide)⟩

/-- An `int` does not hold the number of `2 ^ 31` zeros, and a string may go
on after a zero character. -/
theorem zeros_uncounted :
    (encodeBase58 (List.replicate (2 ^ 31) 0) >>= decodeBase58String) =
        .error .lengthError ∧
      decodeBase58String [ascii '1', 0] = .ok (some [0]) ∧
      encodeBase58 [0] ≠ .ok [ascii '1', 0] := by
  refine ⟨?_, rfl, ?_⟩
  · have zeros : leading 0 (List.replicate (2 ^ 31) 0 ++ []) = 2 ^ 31 :=
      (leading_replicate 0 (2 ^ 31) (by simp)).1
    rw [List.append_nil] at zeros
    rw [decode_encode, zeros, if_pos (by decide)]
  · have one : encodeBase58 [0] = .ok [ascii '1'] := rfl
    rw [one]
    exact nofun

end PrivateDatagram.Wire.Base58
