import PrivateDatagram.Library.BitStrings
import PrivateDatagram.Wire.Base58

/-!
# Base64 and Base32

The encoders and decoders of both are machines that read a character at a
time, with a mode for the number of bits that are left.  A decoder reads a C
string in memory: the list holds the characters and the zero byte after them,
and a read behind its end is a failure.
-/

namespace PrivateDatagram.Wire.BaseEncodings

open Library.BitStrings Library.ByteFormat
open Wire.Base58 (ascii)

/-- What the language leaves undefined. -/
inductive Failure where
  | pastEnd
deriving DecidableEq, Repr

/-- The variables of a loop: the string or the bytes, `mode` and `left`. -/
structure Loop where
  ret : List UInt8
  mode : Nat
  left : Nat
deriving DecidableEq, Repr

/-- The variables at the start. -/
def Loop.start : Loop :=
  ⟨[], 0, 0⟩

/-! ## Alphabets -/

/-- `pbase64`. -/
def pbase64 : List UInt8 :=
  ['A', 'B', 'C', 'D', 'E', 'F', 'G', 'H', 'I', 'J', 'K', 'L', 'M', 'N', 'O',
    'P', 'Q', 'R', 'S', 'T', 'U', 'V', 'W', 'X', 'Y', 'Z', 'a', 'b', 'c', 'd',
    'e', 'f', 'g', 'h', 'i', 'j', 'k', 'l', 'm', 'n', 'o', 'p', 'q', 'r', 's',
    't', 'u', 'v', 'w', 'x', 'y', 'z', '0', '1', '2', '3', '4', '5', '6', '7',
    '8', '9', '+', '/'].map ascii

/-- `pbase32`. -/
def pbase32 : List UInt8 :=
  ['a', 'b', 'c', 'd', 'e', 'f', 'g', 'h', 'i', 'j', 'k', 'l', 'm', 'n', 'o',
    'p', 'q', 'r', 's', 't', 'u', 'v', 'w', 'x', 'y', 'z', '2', '3', '4', '5',
    '6', '7'].map ascii

/-- `decode64_table`. -/
def decode64_table : List Int :=
  [-1, -1, -1, -1, -1, -1, -1, -1, -1, -1, -1, -1, -1, -1, -1, -1, -1, -1, -1,
    -1, -1, -1, -1, -1, -1, -1, -1, -1, -1, -1, -1, -1, -1, -1, -1, -1, -1, -1,
    -1, -1, -1, -1, -1, 62, -1, -1, -1, 63, 52, 53, 54, 55, 56, 57, 58, 59, 60,
    61, -1, -1, -1, -1, -1, -1, -1, 0, 1, 2, 3, 4, 5, 6, 7, 8, 9, 10, 11, 12,
    13, 14, 15, 16, 17, 18, 19, 20, 21, 22, 23, 24, 25, -1, -1, -1, -1, -1, -1,
    26, 27, 28, 29, 30, 31, 32, 33, 34, 35, 36, 37, 38, 39, 40, 41, 42, 43, 44,
    45, 46, 47, 48, 49, 50, 51, -1, -1, -1, -1, -1, -1, -1, -1, -1, -1, -1, -1,
    -1, -1, -1, -1, -1, -1, -1, -1, -1, -1, -1, -1, -1, -1, -1, -1, -1, -1, -1,
    -1, -1, -1, -1, -1, -1, -1, -1, -1, -1, -1, -1, -1, -1, -1, -1, -1, -1, -1,
    -1, -1, -1, -1, -1, -1, -1, -1, -1, -1, -1, -1, -1, -1, -1, -1, -1, -1, -1,
    -1, -1, -1, -1, -1, -1, -1, -1, -1, -1, -1, -1, -1, -1, -1, -1, -1, -1, -1,
    -1, -1, -1, -1, -1, -1, -1, -1, -1, -1, -1, -1, -1, -1, -1, -1, -1, -1, -1,
    -1, -1, -1, -1, -1, -1, -1, -1, -1, -1, -1, -1, -1, -1, -1, -1, -1, -1, -1,
    -1, -1, -1, -1, -1, -1, -1]

/-- `decode32_table`. -/
def decode32_table : List Int :=
  [-1, -1, -1, -1, -1, -1, -1, -1, -1, -1, -1, -1, -1, -1, -1, -1, -1, -1, -1,
    -1, -1, -1, -1, -1, -1, -1, -1, -1, -1, -1, -1, -1, -1, -1, -1, -1, -1, -1,
    -1, -1, -1, -1, -1, -1, -1, -1, -1, -1, -1, -1, 26, 27, 28, 29, 30, 31, -1,
    -1, -1, -1, -1, -1, -1, -1, -1, 0, 1, 2, 3, 4, 5, 6, 7, 8, 9, 10, 11, 12,
    13, 14, 15, 16, 17, 18, 19, 20, 21, 22, 23, 24, 25, -1, -1, -1, -1, -1, -1,
    0, 1, 2, 3, 4, 5, 6, 7, 8, 9, 10, 11, 12, 13, 14, 15, 16, 17, 18, 19, 20,
    21, 22, 23, 24, 25, -1, -1, -1, -1, -1, -1, -1, -1, -1, -1, -1, -1, -1, -1,
    -1, -1, -1, -1, -1, -1, -1, -1, -1, -1, -1, -1, -1, -1, -1, -1, -1, -1, -1,
    -1, -1, -1, -1, -1, -1, -1, -1, -1, -1, -1, -1, -1, -1, -1, -1, -1, -1, -1,
    -1, -1, -1, -1, -1, -1, -1, -1, -1, -1, -1, -1, -1, -1, -1, -1, -1, -1, -1,
    -1, -1, -1, -1, -1, -1, -1, -1, -1, -1, -1, -1, -1, -1, -1, -1, -1, -1, -1,
    -1, -1, -1, -1, -1, -1, -1, -1, -1, -1, -1, -1, -1, -1, -1, -1, -1, -1, -1,
    -1, -1, -1, -1, -1, -1, -1, -1, -1, -1, -1, -1, -1, -1, -1, -1, -1, -1, -1,
    -1, -1, -1, -1, -1]

/-- `table[(unsigned char)c]`. -/
def lookup (table : List Int) (c : UInt8) : Int :=
  table.getD c.toNat 0

/-- `pbase64[digit]`. -/
def letter64 (digit : Nat) : UInt8 :=
  pbase64.getD digit 0

/-- `pbase32[digit]`. -/
def letter32 (digit : Nat) : UInt8 :=
  pbase32.getD digit 0

/-! ## Base64 -/

/-- A round of the loop of `EncodeBase64`. -/
def encodeStep64 (loop : Loop) (byte : UInt8) : Loop :=
  let enc := byte.toNat
  match loop.mode with
  -- we have no bits
  | 0 => ⟨loop.ret ++ [letter64 (enc >>> 2)], 1, (enc &&& 3) <<< 4⟩
  -- we have two bits
  | 1 => ⟨loop.ret ++ [letter64 (loop.left ||| (enc >>> 4))], 2,
      (enc &&& 15) <<< 2⟩
  -- we have four bits
  | 2 => ⟨loop.ret ++ [letter64 (loop.left ||| (enc >>> 6)),
      letter64 (enc &&& 63)], 0, loop.left⟩
  | _ => loop

/-- `EncodeBase64`. -/
def encodeBase64 (bytes : Bytes) : List UInt8 :=
  let loop := bytes.foldl encodeStep64 Loop.start
  if loop.mode ≠ 0 then
    loop.ret ++ letter64 loop.left :: ascii '=' ::
      if loop.mode = 1 then [ascii '='] else []
  else
    loop.ret

/-- A round of the loop of `DecodeBase64`, for a character of the alphabet. -/
def decodeStep64 (loop : Loop) (dec : Nat) : Loop :=
  match loop.mode with
  -- we have no bits and get 6
  | 0 => ⟨loop.ret, 1, dec⟩
  -- we have 6 bits and keep 4
  | 1 => ⟨loop.ret ++ [UInt8.ofNat ((loop.left <<< 2) ||| (dec >>> 4))], 2,
      dec &&& 15⟩
  -- we have 4 bits and get 6, we keep 2
  | 2 => ⟨loop.ret ++ [UInt8.ofNat ((loop.left <<< 4) ||| (dec >>> 2))], 3,
      dec &&& 3⟩
  -- we have 2 bits and get 6
  | 3 => ⟨loop.ret ++ [UInt8.ofNat ((loop.left <<< 6) ||| dec)], 0,
      loop.left⟩
  | _ => loop

/-- The loop of the decoders: it ends at a character that is not in the
alphabet. -/
def decodeLoop (table : List Int) (step : Loop → Nat → Loop) :
    Loop → List UInt8 → Except Failure (Loop × List UInt8)
  | _, [] => .error .pastEnd
  | loop, c :: p =>
      let dec := lookup table c
      if dec = -1 then .ok (loop, c :: p)
      else decodeLoop table step (step loop dec.toNat) p

/-- `p[0] != '=' || ... || table[p[count]] != -1`. -/
def badPadding (table : List Int) : Nat → List UInt8 → Except Failure Bool
  | _, [] => .error .pastEnd
  | 0, c :: _ => .ok (lookup table c != -1)
  | count + 1, c :: p =>
      if c ≠ ascii '=' then .ok true else badPadding table count p

/-- `left || p[0] != '=' || ...`. -/
def badTail (table : List Int) (count : Nat) (loop : Loop)
    (p : List UInt8) : Except Failure Bool :=
  if loop.left ≠ 0 then .ok true else badPadding table count p

/-- `*pfInvalid` after the loop of `DecodeBase64`. -/
def invalid64 (loop : Loop) (p : List UInt8) : Except Failure Bool :=
  match loop.mode with
  -- 4n base64 characters processed: ok
  | 0 => .ok false
  -- 4n+1 base64 character processed: impossible
  | 1 => .ok true
  -- 4n+2 base64 characters processed: require '=='
  | 2 => badTail decode64_table 2 loop p
  -- 4n+3 base64 characters processed: require '='
  | 3 => badTail decode64_table 1 loop p
  | _ => .ok false

/-- `DecodeBase64` on a pointer: the bytes, and `*pfInvalid` where the pointer
is not null. -/
def decodeBase64 (p : List UInt8) (pfInvalid : Bool) :
    Except Failure (Bytes × Option Bool) := do
  let (loop, p) ← decodeLoop decode64_table decodeStep64 Loop.start p
  if pfInvalid then
    let invalid ← invalid64 loop p
    pure (loop.ret, some invalid)
  else
    pure (loop.ret, none)

/-- `DecodeBase64` on a `std::string`, with `c_str()`. -/
def decodeBase64String (str : List UInt8) : Except Failure Bytes := do
  let (vchRet, _) ← decodeBase64 (str ++ [0]) false
  pure vchRet

/-! ## Base32 -/

/-- A round of the loop of `EncodeBase32`. -/
def encodeStep32 (loop : Loop) (byte : UInt8) : Loop :=
  let enc := byte.toNat
  match loop.mode with
  -- we have no bits
  | 0 => ⟨loop.ret ++ [letter32 (enc >>> 3)], 1, (enc &&& 7) <<< 2⟩
  -- we have three bits
  | 1 => ⟨loop.ret ++ [letter32 (loop.left ||| (enc >>> 6)),
      letter32 ((enc >>> 1) &&& 31)], 2, (enc &&& 1) <<< 4⟩
  -- we have one bit
  | 2 => ⟨loop.ret ++ [letter32 (loop.left ||| (enc >>> 4))], 3,
      (enc &&& 15) <<< 1⟩
  -- we have four bits
  | 3 => ⟨loop.ret ++ [letter32 (loop.left ||| (enc >>> 7)),
      letter32 ((enc >>> 2) &&& 31)], 4, (enc &&& 3) <<< 3⟩
  -- we have two bits
  | 4 => ⟨loop.ret ++ [letter32 (loop.left ||| (enc >>> 5)),
      letter32 (enc &&& 31)], 0, loop.left⟩
  | _ => loop

/-- `nPadding`. -/
def nPadding : List Nat :=
  [0, 6, 4, 3, 1]

/-- `EncodeBase32`. -/
def encodeBase32 (bytes : Bytes) : List UInt8 :=
  let loop := bytes.foldl encodeStep32 Loop.start
  if loop.mode ≠ 0 then
    loop.ret ++ letter32 loop.left ::
      List.replicate (nPadding.getD loop.mode 0) (ascii '=')
  else
    loop.ret

/-- A round of the loop of `DecodeBase32`, for a character of the alphabet. -/
def decodeStep32 (loop : Loop) (dec : Nat) : Loop :=
  match loop.mode with
  -- we have no bits and get 5
  | 0 => ⟨loop.ret, 1, dec⟩
  -- we have 5 bits and keep 2
  | 1 => ⟨loop.ret ++ [UInt8.ofNat ((loop.left <<< 3) ||| (dec >>> 2))], 2,
      dec &&& 3⟩
  -- we have 2 bits and keep 7
  | 2 => ⟨loop.ret, 3, (loop.left <<< 5) ||| dec⟩
  -- we have 7 bits and keep 4
  | 3 => ⟨loop.ret ++ [UInt8.ofNat ((loop.left <<< 1) ||| (dec >>> 4))], 4,
      dec &&& 15⟩
  -- we have 4 bits, and keep 1
  | 4 => ⟨loop.ret ++ [UInt8.ofNat ((loop.left <<< 4) ||| (dec >>> 1))], 5,
      dec &&& 1⟩
  -- we have 1 bit, and keep 6
  | 5 => ⟨loop.ret, 6, (loop.left <<< 5) ||| dec⟩
  -- we have 6 bits, and keep 3
  | 6 => ⟨loop.ret ++ [UInt8.ofNat ((loop.left <<< 2) ||| (dec >>> 3))], 7,
      dec &&& 7⟩
  -- we have 3 bits, and keep 0
  | 7 => ⟨loop.ret ++ [UInt8.ofNat ((loop.left <<< 5) ||| dec)], 0,
      loop.left⟩
  | _ => loop

/-- `*pfInvalid` after the loop of `DecodeBase32`. -/
def invalid32 (loop : Loop) (p : List UInt8) : Except Failure Bool :=
  match loop.mode with
  -- 8n base32 characters processed: ok
  | 0 => .ok false
  -- 8n+1 base32 characters processed: impossible, and so +3 and +6
  | 1 | 3 | 6 => .ok true
  -- 8n+2 base32 characters processed: require '======'
  | 2 => badTail decode32_table 6 loop p
  -- 8n+4 base32 characters processed: require '===='
  | 4 => badTail decode32_table 4 loop p
  -- 8n+5 base32 characters processed: require '==='
  | 5 => badTail decode32_table 3 loop p
  -- 8n+7 base32 characters processed: require '='
  | 7 => badTail decode32_table 1 loop p
  | _ => .ok false

/-- `DecodeBase32` on a pointer: the bytes, and `*pfInvalid` where the pointer
is not null. -/
def decodeBase32 (p : List UInt8) (pfInvalid : Bool) :
    Except Failure (Bytes × Option Bool) := do
  let (loop, p) ← decodeLoop decode32_table decodeStep32 Loop.start p
  if pfInvalid then
    let invalid ← invalid32 loop p
    pure (loop.ret, some invalid)
  else
    pure (loop.ret, none)

/-- `DecodeBase32` on a `std::string`, with `c_str()`. -/
def decodeBase32String (str : List UInt8) : Except Failure Bytes := do
  let (vchRet, _) ← decodeBase32 (str ++ [0]) false
  pure vchRet

/-! ## Bits that are held -/

/-- The bits of a byte. -/
def byteBits (byte : UInt8) : List Bool :=
  bits 8 byte.toNat

/-- A character of the alphabet. -/
def Letter (table : List Int) (c : UInt8) : Prop :=
  lookup table c ≠ -1

/-- The bits that a character of the alphabet stands for. -/
def charBits (width : Nat) (table : List Int) (c : UInt8) : List Bool :=
  bits width (lookup table c).toNat

/-- The bits that were read are those of what is written, and then the bits
that the mode holds; `left` has them with `scale` zeros behind them. -/
structure Regrouped (modes : Nat) (held scale : Nat → Nat)
    (fine : UInt8 → Prop) (word : UInt8 → List Bool) (loop : Loop)
    (read : List Bool) : Prop where
  known : loop.mode < modes
  allFine : ∀ c ∈ loop.ret, fine c
  shown : ∃ kept < 2 ^ held loop.mode,
    (loop.mode ≠ 0 → loop.left = kept * 2 ^ scale loop.mode) ∧
      loop.ret.flatMap word ++ bits (held loop.mode) kept = read

section Regrouped

variable {modes : Nat} {held scale : Nat → Nat} {fine : UInt8 → Prop}
  {word : UInt8 → List Bool}

theorem Regrouped.start (known : 0 < modes) (empty : held 0 = 0) :
    Regrouped modes held scale fine word Loop.start [] := by
  refine ⟨known, nofun, 0, Nat.pow_pos (by decide),
    fun nonzero => absurd rfl nonzero, ?_⟩
  change bits (held 0) 0 = []
  rw [empty, bits_nothing]

/-- A step takes bits in and writes what it does not hold. -/
theorem Regrouped.next {ret more : List UInt8} {read : List Bool}
    {front kept width input mode left : Nat} (total kept' : Nat)
    (fineRet : ∀ c ∈ ret, fine c)
    (before : ret.flatMap word ++ bits front kept = read)
    (small : input < 2 ^ width) (known : mode < modes)
    (small' : kept' < 2 ^ held mode)
    (isLeft : mode ≠ 0 → left = kept' * 2 ^ scale mode)
    (fineMore : ∀ c ∈ more, fine c)
    {size : Nat} (written : more.flatMap word = bits size total)
    (length : front + width = size + held mode)
    (number : kept * 2 ^ width + input = total * 2 ^ held mode + kept') :
    Regrouped modes held scale fine word ⟨ret ++ more, mode, left⟩
      (read ++ bits width input) := by
  refine ⟨known, fun c member => ?_, kept', small', isLeft, ?_⟩
  · exact (List.mem_append.mp member).elim (fineRet c) (fineMore c)
  rw [List.flatMap_append, written, ← before, List.append_assoc,
    List.append_assoc, bits_recut small small' length number]

/-- A run takes all the bits in. -/
theorem Regrouped.run {α : Type} {step : Loop → α → Loop}
    {input : α → List Bool} {loop : Loop} {read : List Bool} (xs : List α)
    (takes : ∀ x ∈ xs, ∀ loop read,
      Regrouped modes held scale fine word loop read →
        Regrouped modes held scale fine word (step loop x) (read ++ input x))
    (before : Regrouped modes held scale fine word loop read) :
    Regrouped modes held scale fine word (xs.foldl step loop)
      (read ++ xs.flatMap input) := by
  induction xs generalizing loop read with
  | nil => rwa [List.flatMap_nil, List.append_nil]
  | cons x xs ih =>
      rw [List.foldl_cons, List.flatMap_cons, ← List.append_assoc]
      exact ih (fun y member => takes y (List.mem_cons_of_mem _ member))
        (takes x List.mem_cons_self loop read before)

end Regrouped

theorem or_low (high : Nat) {low width : Nat} (small : low < 2 ^ width) :
    high * 2 ^ width ||| low = high * 2 ^ width + low := by
  rw [Nat.mul_comm, Nat.two_pow_add_eq_or_of_lt small]

theorem shift_or (high : Nat) {low width : Nat} (small : low < 2 ^ width) :
    high <<< width ||| low = high * 2 ^ width + low := by
  rw [Nat.shiftLeft_eq, or_low high small]

theorem mask_low (number width : Nat) :
    number &&& (2 ^ width - 1) = number % 2 ^ width :=
  Nat.and_two_pow_sub_one_eq_mod number width

/-- A number below a product of powers, cut in two. -/
theorem shift_lt {number high low : Nat} (below : number < 2 ^ (high + low)) :
    number >>> low < 2 ^ high := by
  rw [Nat.shiftRight_eq_div_pow]
  exact Nat.div_lt_of_lt_mul (by rwa [← Nat.pow_add, Nat.add_comm])

theorem shift_add_mod (number low : Nat) :
    number >>> low * 2 ^ low + number % 2 ^ low = number := by
  rw [Nat.shiftRight_eq_div_pow, Nat.mul_comm]
  exact Nat.div_add_mod number (2 ^ low)

/-! ## Encoding -/

section Encoded

variable {modes : Nat} {held : Nat → Nat} {width : Nat} {table : List Int}
  {letter : Nat → UInt8} {ret : List UInt8} {read : List Bool}
  {mode left : Nat}

/-- The loop of an encoder has read these bits. -/
def Encoded (modes : Nat) (held : Nat → Nat) (width : Nat)
    (table : List Int) : Loop → List Bool → Prop :=
  Regrouped modes held (fun mode => width - held mode)
    (Letter table) (charBits width table)

/-- The table is the inverse of the alphabet. -/
def Inverse (width : Nat) (table : List Int) (letter : Nat → UInt8) : Prop :=
  ∀ digit < 2 ^ width, lookup table (letter digit) = digit

theorem Inverse.charBits_letter (inverse : Inverse width table letter)
    {digit : Nat} (small : digit < 2 ^ width) :
    charBits width table (letter digit) = bits width digit := by
  rw [charBits, inverse digit small, Int.toNat_natCast]

theorem Inverse.isLetter (inverse : Inverse width table letter)
    {digit : Nat} (small : digit < 2 ^ width) :
    Letter table (letter digit) := by
  rw [Letter, inverse digit small]
  omega

/-- One character takes the first bits of a byte. -/
theorem Encoded.first (mode' : Nat)
    (before : Encoded modes held width table ⟨ret, 0, left⟩ read)
    (inverse : Inverse width table letter) (byte : UInt8)
    (empty : held 0 = 0) (known : mode' < modes)
    (room : 8 = width + held mode') :
    Encoded modes held width table
      ⟨ret ++ [letter (byte.toNat >>> held mode')], mode',
        (byte.toNat &&& (2 ^ held mode' - 1)) <<< (width - held mode')⟩
      (read ++ byteBits byte) := by
  have below : byte.toNat < 2 ^ 8 := byte.toNat_lt
  have high := shift_lt (room ▸ below)
  rcases before with ⟨_, fine, kept, small, _, shown⟩
  dsimp only at small shown
  rw [empty, Nat.pow_zero, Nat.lt_one_iff] at small
  subst small
  refine Regrouped.next _ (byte.toNat % 2 ^ held mode') fine shown below known
    (Nat.mod_lt _ (Nat.pow_pos (by decide))) (fun _ => ?_)
    (List.forall_mem_singleton.mpr (inverse.isLetter high))
    ((List.flatMap_singleton _ _).trans (inverse.charBits_letter high))
    (by omega) ?_
  · rw [mask_low, Nat.shiftLeft_eq]
  · rw [Nat.zero_mul, Nat.zero_add, shift_add_mod]

/-- The bits in `left` and the first bits of a byte make up a word. -/
theorem Encoded.joined
    (before : Encoded modes held width table ⟨ret, mode, left⟩ read)
    (started : mode ≠ 0) (fits : held mode ≤ width) :
    ∃ kept, ret.flatMap (charBits width table) ++ bits (held mode) kept =
        read ∧
      ∀ part < 2 ^ (width - held mode),
        left ||| part = kept * 2 ^ (width - held mode) + part ∧
          left ||| part < 2 ^ width := by
  rcases before with ⟨_, _, kept, small, isLeft, shown⟩
  dsimp only at small isLeft shown
  refine ⟨kept, shown, fun part smallPart => ?_⟩
  have whole : left ||| part = kept * 2 ^ (width - held mode) + part := by
    rw [isLeft started, or_low kept smallPart]
  refine ⟨whole, ?_⟩
  rw [whole]
  calc
    kept * 2 ^ (width - held mode) + part <
        (kept + 1) * 2 ^ (width - held mode) := by
      rw [Nat.add_one_mul]
      exact Nat.add_lt_add_left smallPart _
    _ ≤ 2 ^ held mode * 2 ^ (width - held mode) :=
      Nat.mul_le_mul_right _ small
    _ = 2 ^ width := by rw [← Nat.pow_add, Nat.add_sub_cancel' fits]

/-- One character takes what is held and the first bits of a byte. -/
theorem Encoded.one (mode' : Nat)
    (before : Encoded modes held width table ⟨ret, mode, left⟩ read)
    (inverse : Inverse width table letter) (byte : UInt8) (started : mode ≠ 0)
    (fits : held mode ≤ width) (known : mode' < modes)
    (room : held mode + 8 = width + held mode') :
    Encoded modes held width table
      ⟨ret ++ [letter (left ||| byte.toNat >>> held mode')], mode',
        (byte.toNat &&& (2 ^ held mode' - 1)) <<< (width - held mode')⟩
      (read ++ byteBits byte) := by
  have below : byte.toNat < 2 ^ 8 := byte.toNat_lt
  have parts : 8 = width - held mode + held mode' := by omega
  rcases before.joined started fits with ⟨kept, shown, joined⟩
  rcases joined _ (shift_lt (parts ▸ below)) with ⟨whole, small⟩
  refine Regrouped.next _ (byte.toNat % 2 ^ held mode') before.allFine shown
    below known (Nat.mod_lt _ (Nat.pow_pos (by decide))) (fun _ => ?_)
    (List.forall_mem_singleton.mpr (inverse.isLetter small))
    ((List.flatMap_singleton _ _).trans (inverse.charBits_letter small))
    room ?_
  · rw [mask_low, Nat.shiftLeft_eq]
  · rw [whole, Nat.add_mul, Nat.add_assoc, shift_add_mod, Nat.mul_assoc,
      ← Nat.pow_add, ← parts]

/-- Two characters take what is held and the first bits of a byte. -/
theorem Encoded.two (mode' : Nat)
    (before : Encoded modes held width table ⟨ret, mode, left⟩ read)
    (inverse : Inverse width table letter) (byte : UInt8) (started : mode ≠ 0)
    (fits : held mode ≤ width) (known : mode' < modes)
    (room : held mode + 8 = width + width + held mode') :
    Encoded modes held width table
      ⟨ret ++ [letter (left ||| byte.toNat >>> (width + held mode')),
          letter (byte.toNat >>> held mode' &&& (2 ^ width - 1))], mode',
        (byte.toNat &&& (2 ^ held mode' - 1)) <<< (width - held mode')⟩
      (read ++ byteBits byte) := by
  have below : byte.toNat < 2 ^ 8 := byte.toNat_lt
  have parts : 8 = width - held mode + (width + held mode') := by omega
  rcases before.joined started fits with ⟨kept, shown, joined⟩
  rcases joined _ (shift_lt (parts ▸ below)) with ⟨whole, small⟩
  have middle : byte.toNat >>> held mode' &&& (2 ^ width - 1) < 2 ^ width := by
    rw [mask_low]
    exact Nat.mod_lt _ (Nat.pow_pos (by decide))
  have written : [letter (left ||| byte.toNat >>> (width + held mode')),
      letter (byte.toNat >>> held mode' &&& (2 ^ width - 1))].flatMap
        (charBits width table) =
      bits (width + width)
        ((left ||| byte.toNat >>> (width + held mode')) * 2 ^ width +
          (byte.toNat >>> held mode' &&& (2 ^ width - 1))) := by
    rw [List.flatMap_cons, List.flatMap_singleton,
      inverse.charBits_letter small, inverse.charBits_letter middle]
    exact bits_join _ middle width
  have fineMore := List.forall_mem_cons.mpr ⟨inverse.isLetter small,
    List.forall_mem_singleton.mpr (inverse.isLetter middle)⟩
  refine Regrouped.next _ (byte.toNat % 2 ^ held mode') before.allFine shown
    below known (Nat.mod_lt _ (Nat.pow_pos (by decide))) (fun _ => ?_)
    fineMore written room ?_
  · rw [mask_low, Nat.shiftLeft_eq]
  · have inner := shift_add_mod (byte.toNat >>> held mode') width
    rw [← Nat.shiftRight_add, Nat.add_comm (held mode')] at inner
    rw [whole, mask_low, Nat.add_mul (kept * _), Nat.mul_assoc,
      ← Nat.pow_add, Nat.add_assoc (kept * _), inner, Nat.add_mul,
      Nat.add_assoc, shift_add_mod, Nat.mul_assoc, ← Nat.pow_add,
      Nat.add_assoc, ← parts]

/-- Two characters take what is held and a whole byte. -/
theorem Encoded.last
    (before : Encoded modes held width table ⟨ret, mode, left⟩ read)
    (inverse : Inverse width table letter) (byte : UInt8) (started : mode ≠ 0)
    (fits : held mode ≤ width) (empty : held 0 = 0)
    (room : held mode + 8 = width + width) :
    Encoded modes held width table
      ⟨ret ++ [letter (left ||| byte.toNat >>> width),
          letter (byte.toNat &&& (2 ^ width - 1))], 0, left⟩
      (read ++ byteBits byte) := by
  have positive := Nat.zero_lt_of_lt before.known
  have two := before.two 0 inverse byte started fits positive (by omega)
  rcases two with ⟨known, fine, kept', small', _, shown⟩
  rw [empty] at fine
  refine ⟨known, fine, kept', small', fun nonzero => absurd rfl nonzero, ?_⟩
  rw [← shown]
  dsimp only
  rw [empty]
  rfl

end Encoded

/-! ## Decoding -/

section Decoded

variable {modes : Nat} {held : Nat → Nat} {width : Nat} {ret : List UInt8}
  {read : List Bool} {mode left dec : Nat}

/-- The loop of a decoder has read these bits. -/
def Decoded (modes : Nat) (held : Nat → Nat) : Loop → List Bool → Prop :=
  Regrouped modes held (fun _ => 0) (fun _ => True) byteBits

theorem byteBits_ofNat {number : Nat} (small : number < 2 ^ 8) :
    [UInt8.ofNat number].flatMap byteBits = bits 8 number := by
  rw [List.flatMap_singleton, byteBits, UInt8.toNat_ofNat',
    Nat.mod_eq_of_lt small]

/-- The first character is held. -/
theorem Decoded.first (mode' : Nat)
    (before : Decoded modes held ⟨ret, 0, left⟩ read)
    (below : dec < 2 ^ width) (empty : held 0 = 0) (known : mode' < modes)
    (room : width = held mode') :
    Decoded modes held ⟨ret, mode', dec⟩ (read ++ bits width dec) := by
  rcases before with ⟨_, fine, kept, small, _, shown⟩
  dsimp only at small shown
  rw [empty, Nat.pow_zero, Nat.lt_one_iff] at small
  rw [empty, small, bits_nothing, List.append_nil] at shown
  refine ⟨known, fine, dec, room ▸ below, fun _ => (Nat.mul_one dec).symm, ?_⟩
  dsimp only
  rw [shown, room]

theorem Decoded.joined (before : Decoded modes held ⟨ret, mode, left⟩ read)
    (started : mode ≠ 0) :
    left < 2 ^ held mode ∧
      ret.flatMap byteBits ++ bits (held mode) left = read := by
  rcases before with ⟨_, _, kept, small, isLeft, shown⟩
  dsimp only at small isLeft shown
  rw [isLeft started, Nat.pow_zero, Nat.mul_one]
  exact ⟨small, shown⟩

theorem join_lt {high low front : Nat} (small : high < 2 ^ front)
    (below : low < 2 ^ width) :
    high * 2 ^ width + low < 2 ^ (front + width) := by
  calc
    high * 2 ^ width + low < (high + 1) * 2 ^ width := by
      rw [Nat.add_one_mul]
      exact Nat.add_lt_add_left below _
    _ ≤ 2 ^ front * 2 ^ width := Nat.mul_le_mul_right _ small
    _ = 2 ^ (front + width) := (Nat.pow_add _ _ _).symm

/-- A character is put behind what is held. -/
theorem Decoded.gathers (mode' : Nat)
    (before : Decoded modes held ⟨ret, mode, left⟩ read)
    (below : dec < 2 ^ width) (started : mode ≠ 0) (known : mode' < modes)
    (room : held mode + width = held mode') :
    Decoded modes held ⟨ret, mode', left <<< width ||| dec⟩
      (read ++ bits width dec) := by
  rcases before.joined started with ⟨small, shown⟩
  refine ⟨known, before.allFine, left <<< width ||| dec, ?_,
    fun _ => (Nat.mul_one _).symm, ?_⟩
  · rw [shift_or left below, ← room]
    exact join_lt small below
  · dsimp only
    rw [shift_or left below, ← shown, ← room, ← bits_join left below,
      List.append_assoc]

/-- What is held and the first bits of a character make up a byte. -/
theorem Decoded.keeps (mode' high : Nat)
    (before : Decoded modes held ⟨ret, mode, left⟩ read)
    (below : dec < 2 ^ width) (started : mode ≠ 0) (known : mode' < modes)
    (parts : width = high + held mode') (room : held mode + high = 8) :
    Decoded modes held
      ⟨ret ++ [UInt8.ofNat (left <<< high ||| dec >>> held mode')], mode',
        dec &&& (2 ^ held mode' - 1)⟩ (read ++ bits width dec) := by
  rcases before.joined started with ⟨small, shown⟩
  have front := shift_lt (parts ▸ below)
  have joined := shift_or left front
  have byte : left <<< high ||| dec >>> held mode' < 2 ^ 8 := by
    rw [joined, ← room]
    exact join_lt small front
  refine Regrouped.next _ (dec % 2 ^ held mode') before.allFine shown below
    known (Nat.mod_lt _ (Nat.pow_pos (by decide))) (fun _ => ?_)
    (fun _ _ => trivial) (byteBits_ofNat byte) (by omega) ?_
  · rw [mask_low]
    exact (Nat.mul_one _).symm
  · rw [joined, Nat.add_mul, Nat.add_assoc, shift_add_mod, Nat.mul_assoc,
      ← Nat.pow_add, ← parts]

/-- What is held and a whole character make up a byte. -/
theorem Decoded.last (before : Decoded modes held ⟨ret, mode, left⟩ read)
    (below : dec < 2 ^ width) (started : mode ≠ 0) (empty : held 0 = 0)
    (room : held mode + width = 8) :
    Decoded modes held ⟨ret ++ [UInt8.ofNat (left <<< width ||| dec)], 0, left⟩
      (read ++ bits width dec) := by
  have positive := Nat.zero_lt_of_lt before.known
  have byte := before.keeps 0 width below started positive (by omega) room
  rcases byte with ⟨known, _, kept', small', _, shown⟩
  refine ⟨known, fun _ _ => trivial, kept', small', ?_, ?_⟩
  · exact fun nonzero => absurd rfl nonzero
  · rw [← shown]
    dsimp only
    rw [empty]
    rfl

end Decoded

/-! ## The steps -/

/-- The bits that the loop of `EncodeBase64` holds. -/
def encodeHeld64 : Nat → Nat
  | 1 => 2
  | 2 => 4
  | _ => 0

/-- The bits that the loop of `DecodeBase64` holds. -/
def decodeHeld64 : Nat → Nat
  | 1 => 6
  | 2 => 4
  | 3 => 2
  | _ => 0

/-- The bits that the loop of `EncodeBase32` holds. -/
def encodeHeld32 : Nat → Nat
  | 1 => 3
  | 2 => 1
  | 3 => 4
  | 4 => 2
  | _ => 0

/-- The bits that the loop of `DecodeBase32` holds. -/
def decodeHeld32 : Nat → Nat
  | 1 => 5
  | 2 => 2
  | 3 => 7
  | 4 => 4
  | 5 => 1
  | 6 => 6
  | 7 => 3
  | _ => 0

theorem inverse64 : Inverse 6 decode64_table letter64 := by
  unfold Inverse
  decide +kernel

theorem inverse32 : Inverse 5 decode32_table letter32 := by
  unfold Inverse
  decide +kernel

theorem encodeStep64_next {loop : Loop} {read : List Bool}
    (before : Encoded 3 encodeHeld64 6 decode64_table loop read)
    (byte : UInt8) :
    Encoded 3 encodeHeld64 6 decode64_table (encodeStep64 loop byte)
      (read ++ byteBits byte) := by
  rcases loop with ⟨ret, mode, left⟩
  match mode, before.known with
  | 0, _ => exact before.first 1 inverse64 byte rfl (by decide) rfl
  | 1, _ =>
      exact before.one 2 inverse64 byte (by decide) (by decide) (by decide) rfl
  | 2, _ => exact before.last inverse64 byte (by decide) (by decide) rfl rfl

theorem decodeStep64_next {loop : Loop} {read : List Bool}
    (before : Decoded 4 decodeHeld64 loop read) {dec : Nat}
    (below : dec < 2 ^ 6) :
    Decoded 4 decodeHeld64 (decodeStep64 loop dec) (read ++ bits 6 dec) := by
  rcases loop with ⟨ret, mode, left⟩
  match mode, before.known with
  | 0, _ => exact before.first 1 below rfl (by decide) rfl
  | 1, _ => exact before.keeps 2 2 below (by decide) (by decide) rfl rfl
  | 2, _ => exact before.keeps 3 4 below (by decide) (by decide) rfl rfl
  | 3, _ => exact before.last below (by decide) rfl rfl

theorem encodeStep32_next {loop : Loop} {read : List Bool}
    (before : Encoded 5 encodeHeld32 5 decode32_table loop read)
    (byte : UInt8) :
    Encoded 5 encodeHeld32 5 decode32_table (encodeStep32 loop byte)
      (read ++ byteBits byte) := by
  rcases loop with ⟨ret, mode, left⟩
  match mode, before.known with
  | 0, _ => exact before.first 1 inverse32 byte rfl (by decide) rfl
  | 1, _ =>
      exact before.two 2 inverse32 byte (by decide) (by decide) (by decide) rfl
  | 2, _ =>
      exact before.one 3 inverse32 byte (by decide) (by decide) (by decide) rfl
  | 3, _ =>
      exact before.two 4 inverse32 byte (by decide) (by decide) (by decide) rfl
  | 4, _ => exact before.last inverse32 byte (by decide) (by decide) rfl rfl

theorem decodeStep32_next {loop : Loop} {read : List Bool}
    (before : Decoded 8 decodeHeld32 loop read) {dec : Nat}
    (below : dec < 2 ^ 5) :
    Decoded 8 decodeHeld32 (decodeStep32 loop dec) (read ++ bits 5 dec) := by
  rcases loop with ⟨ret, mode, left⟩
  match mode, before.known with
  | 0, _ => exact before.first 1 below rfl (by decide) rfl
  | 1, _ => exact before.keeps 2 3 below (by decide) (by decide) rfl rfl
  | 2, _ => exact before.gathers 3 below (by decide) (by decide) rfl
  | 3, _ => exact before.keeps 4 1 below (by decide) (by decide) rfl rfl
  | 4, _ => exact before.keeps 5 4 below (by decide) (by decide) rfl rfl
  | 5, _ => exact before.gathers 6 below (by decide) (by decide) rfl
  | 6, _ => exact before.keeps 7 2 below (by decide) (by decide) rfl rfl
  | 7, _ => exact before.last below (by decide) rfl rfl

/-! ## The ends -/

section Ends

variable {modes : Nat} {held : Nat → Nat} {width : Nat} {table : List Int}
  {letter : Nat → UInt8} {loop : Loop} {read : List Bool}

/-- What is held goes into a last character, with zeros behind it. -/
theorem Encoded.finish {ret : List UInt8} {mode left : Nat}
    (encoded : Encoded modes held width table ⟨ret, mode, left⟩ read)
    (inverse : Inverse width table letter) (started : mode ≠ 0)
    (fits : held mode ≤ width) :
    (∀ c ∈ ret ++ [letter left], Letter table c) ∧
      (ret ++ [letter left]).flatMap (charBits width table) =
        read ++ bits (width - held mode) 0 := by
  rcases encoded with ⟨_, fine, kept, small, isLeft, shown⟩
  dsimp only at fine small isLeft shown
  have positive : 0 < 2 ^ (width - held mode) :=
    Nat.pow_pos (by decide)
  have whole : left = kept * 2 ^ (width - held mode) + 0 :=
    isLeft started
  have room : held mode + (width - held mode) = width :=
    Nat.add_sub_cancel' fits
  have below : left < 2 ^ width := by
    rw [whole, ← room]
    simpa using join_lt small positive
  constructor
  · intro c member
    rcases List.mem_append.mp member with earlier | last
    · exact fine c earlier
    · rw [List.mem_singleton.mp last]
      exact inverse.isLetter below
  · rw [List.flatMap_append, List.flatMap_singleton,
      inverse.charBits_letter below, ← shown, List.append_assoc,
      bits_join kept positive, ← whole, room]

theorem Encoded.stop (encoded : Encoded modes held width table loop read)
    (stopped : loop.mode = 0) (empty : held 0 = 0) :
    loop.ret.flatMap (charBits width table) = read := by
  rcases encoded with ⟨_, _, kept, _, _, shown⟩
  rwa [stopped, empty, bits_nothing, List.append_nil] at shown

theorem byteBits_injective (first second : UInt8)
    (same : byteBits first = byteBits second) : first = second :=
  UInt8.toNat.inj (bits_injective first.toNat_lt second.toNat_lt same)

/-- The bytes and fewer than eight zeros are read as the bytes. -/
theorem Decoded.exact {bytes : Bytes} {spare : Nat}
    (decoded : Decoded modes held loop (bytes.flatMap byteBits ++
      bits spare 0)) (few : spare < 8)
    (short : ∀ mode < modes, held mode < 8) :
    loop.ret = bytes ∧ held loop.mode = spare ∧
      (loop.mode ≠ 0 → loop.left = 0) := by
  rcases decoded with ⟨known, _, kept, small, isLeft, shown⟩
  have lengths : ∀ byte, (byteBits byte).length = 8 :=
    fun byte => length_bits 8 byte.toNat
  rcases flatMap_append_injective lengths byteBits_injective
      (by simpa using short _ known) (by simpa using few) shown with
    ⟨sameBytes, rest⟩
  have count := congrArg List.length rest
  rw [length_bits, length_bits] at count
  rw [← count] at rest
  have zero := bits_injective small (Nat.pow_pos (by decide)) rest
  exact ⟨sameBytes, count, fun started => by rw [isLeft started, zero]; rfl⟩

/-- A table gives words of a width, and -1 for the other characters, among
them the padding and the zero character. -/
structure Proper (width : Nat) (table : List Int) : Prop where
  small : ∀ c, Letter table c → (lookup table c).toNat < 2 ^ width
  padding : lookup table (ascii '=') = -1
  zero : lookup table 0 = -1

theorem Proper.of_entries (entries : ∀ n < 256, table.getD n 0 ≠ -1 →
      (table.getD n 0).toNat < 2 ^ width)
    (padding : lookup table (ascii '=') = -1) (zero : lookup table 0 = -1) :
    Proper width table :=
  ⟨fun c => entries c.toNat c.toNat_lt, padding, zero⟩

theorem proper64 : Proper 6 decode64_table :=
  .of_entries (by decide +kernel) (by decide) (by decide)

theorem proper32 : Proper 5 decode32_table :=
  .of_entries (by decide +kernel) (by decide) (by decide)

/-- The loop of a decoder takes the characters of the alphabet in. -/
theorem decodeLoop_letters {step : Loop → Nat → Loop} {chars p : List UInt8}
    {c : UInt8} (letters : ∀ c ∈ chars, Letter table c)
    (stop : lookup table c = -1) (loop : Loop) :
    decodeLoop table step loop (chars ++ c :: p) =
      .ok (chars.foldl (fun loop c => step loop (lookup table c).toNat) loop,
        c :: p) := by
  induction chars generalizing loop with
  | nil =>
      rw [List.nil_append, decodeLoop, if_pos stop, List.foldl_nil]
  | cons first chars ih =>
      rw [List.forall_mem_cons] at letters
      rw [List.cons_append, decodeLoop]
      rw [if_neg letters.1, ih letters.2]
      rfl

/-- The bytes come back from characters with padding behind them. -/
theorem decodeLoop_written {step : Loop → Nat → Loop} {chars : List UInt8}
    {bytes : Bytes} {spare : Nat} (pads : Nat) (proper : Proper width table)
    (takes : ∀ loop read, Decoded modes held loop read →
      ∀ dec < 2 ^ width, Decoded modes held (step loop dec)
        (read ++ bits width dec))
    (known : 0 < modes) (empty : held 0 = 0)
    (short : ∀ mode < modes, held mode < 8)
    (letters : ∀ c ∈ chars, Letter table c) (few : spare < 8)
    (written : chars.flatMap (charBits width table) =
      bytes.flatMap byteBits ++ bits spare 0) :
    ∃ last, decodeLoop table step Loop.start
        (chars ++ (List.replicate pads (ascii '=') ++ [0])) =
          .ok (last, List.replicate pads (ascii '=') ++ [0]) ∧
      last.ret = bytes ∧ last.mode < modes ∧ held last.mode = spare ∧
        (last.mode ≠ 0 → last.left = 0) := by
  have decoded : Decoded modes held
      (chars.foldl (fun loop c => step loop (lookup table c).toNat)
        Loop.start) (bytes.flatMap byteBits ++ bits spare 0) := by
    rw [← written, ← List.nil_append (chars.flatMap _)]
    exact Regrouped.run chars (fun c member loop read before =>
      takes loop read before _ (proper.small c (letters c member)))
      (.start known empty)
  refine ⟨_, ?_, (decoded.exact few short).1, decoded.known,
    (decoded.exact few short).2⟩
  cases pads with
  | zero => exact decodeLoop_letters letters proper.zero _
  | succ pads => exact decodeLoop_letters letters proper.padding _

theorem badPadding_pads (stop : lookup table 0 = -1) (count : Nat) :
    badPadding table count (List.replicate count (ascii '=') ++ [0]) =
      .ok false := by
  induction count with
  | zero =>
      rw [List.replicate_zero, List.nil_append, badPadding, stop]
      rfl
  | succ count ih =>
      rw [List.replicate_succ, List.cons_append, badPadding,
        if_neg (by simp), ih]

/-! ## Reading inside the string -/

/-- The loop stops at the zero character or before it. -/
theorem decodeLoop_inside {step : Loop → Nat → Loop}
    (stop : lookup table 0 = -1) (text : List UInt8) (loop : Loop) :
    ∃ last rest, decodeLoop table step loop (text ++ [0]) =
      .ok (last, rest ++ [0]) := by
  induction text generalizing loop with
  | nil =>
      refine ⟨loop, [], ?_⟩
      rw [List.nil_append, decodeLoop, if_pos stop]
  | cons c text ih =>
      rw [List.cons_append, decodeLoop]
      by_cases isStop : lookup table c = -1
      · exact ⟨loop, c :: text, if_pos isStop⟩
      · rw [if_neg isStop]
        exact ih _

/-- A padding character is read only if the ones before it are there. -/
theorem badPadding_inside (count : Nat) (text : List UInt8) :
    ∃ bad, badPadding table count (text ++ [0]) = .ok bad := by
  induction count generalizing text with
  | zero => cases text <;> exact ⟨_, rfl⟩
  | succ count ih =>
      cases text with
      | nil =>
          exact ⟨true, if_pos (by decide)⟩
      | cons c text =>
          rw [List.cons_append, badPadding]
          by_cases other : c ≠ ascii '='
          · exact ⟨true, if_pos other⟩
          · rw [if_neg other]
            exact ih text

theorem badTail_inside (count : Nat) (loop : Loop) (text : List UInt8) :
    ∃ bad, badTail table count loop (text ++ [0]) = .ok bad := by
  unfold badTail
  by_cases leftOver : loop.left ≠ 0
  · exact ⟨true, if_pos leftOver⟩
  · rw [if_neg leftOver]
    exact badPadding_inside count text

end Ends

/-! ## The round trips -/

/-- The characters of the bytes, with padding for the bits that are spare. -/
theorem encodeBase64_written (bytes : Bytes) :
    ∃ chars spare pads,
      encodeBase64 bytes = chars ++ List.replicate pads (ascii '=') ∧
      (∀ c ∈ chars, Letter decode64_table c) ∧
      chars.flatMap (charBits 6 decode64_table) =
        bytes.flatMap byteBits ++ bits spare 0 ∧
      (spare, pads) ∈ [(0, 0), (4, 2), (2, 1)] := by
  have encoded : Encoded 3 encodeHeld64 6 decode64_table
      (bytes.foldl encodeStep64 Loop.start) ([] ++ bytes.flatMap byteBits) :=
    Regrouped.run bytes (fun byte _ _ _ before =>
      encodeStep64_next before byte) (.start (by decide) rfl)
  rw [List.nil_append] at encoded
  unfold encodeBase64
  generalize bytes.foldl encodeStep64 Loop.start = loop at encoded
  rcases loop with ⟨ret, mode, left⟩
  match mode, encoded.known with
  | 0, _ => exact ⟨ret, 0, 0, (List.append_nil ret).symm, encoded.allFine,
      (encoded.stop rfl rfl).trans (List.append_nil _).symm, by decide⟩
  | 1, _ =>
      rcases encoded.finish inverse64 (by decide) (by decide) with
        ⟨letters, written⟩
      exact ⟨_, 4, 2, by rw [List.append_assoc]; rfl, letters,
        written, by decide⟩
  | 2, _ =>
      rcases encoded.finish inverse64 (by decide) (by decide) with
        ⟨letters, written⟩
      exact ⟨_, 2, 1, by rw [List.append_assoc]; rfl, letters,
        written, by decide⟩

theorem encodeBase32_written (bytes : Bytes) :
    ∃ chars spare pads,
      encodeBase32 bytes = chars ++ List.replicate pads (ascii '=') ∧
      (∀ c ∈ chars, Letter decode32_table c) ∧
      chars.flatMap (charBits 5 decode32_table) =
        bytes.flatMap byteBits ++ bits spare 0 ∧
      (spare, pads) ∈ [(0, 0), (2, 6), (4, 4), (1, 3), (3, 1)] := by
  have encoded : Encoded 5 encodeHeld32 5 decode32_table
      (bytes.foldl encodeStep32 Loop.start) ([] ++ bytes.flatMap byteBits) :=
    Regrouped.run bytes (fun byte _ _ _ before =>
      encodeStep32_next before byte) (.start (by decide) rfl)
  rw [List.nil_append] at encoded
  unfold encodeBase32
  generalize bytes.foldl encodeStep32 Loop.start = loop at encoded
  rcases loop with ⟨ret, mode, left⟩
  match mode, encoded.known with
  | 0, _ => exact ⟨ret, 0, 0, (List.append_nil ret).symm, encoded.allFine,
      (encoded.stop rfl rfl).trans (List.append_nil _).symm, by decide⟩
  | 1, _ =>
      rcases encoded.finish inverse32 (by decide) (by decide) with
        ⟨letters, written⟩
      exact ⟨_, 2, 6, by rw [List.append_assoc]; rfl, letters,
        written, by decide⟩
  | 2, _ =>
      rcases encoded.finish inverse32 (by decide) (by decide) with
        ⟨letters, written⟩
      exact ⟨_, 4, 4, by rw [List.append_assoc]; rfl, letters,
        written, by decide⟩
  | 3, _ =>
      rcases encoded.finish inverse32 (by decide) (by decide) with
        ⟨letters, written⟩
      exact ⟨_, 1, 3, by rw [List.append_assoc]; rfl, letters,
        written, by decide⟩
  | 4, _ =>
      rcases encoded.finish inverse32 (by decide) (by decide) with
        ⟨letters, written⟩
      exact ⟨_, 3, 1, by rw [List.append_assoc]; rfl, letters,
        written, by decide⟩

theorem badTail_pads {table : List Int} (stop : lookup table 0 = -1)
    (count : Nat) {loop : Loop} (nothing : loop.left = 0) :
    badTail table count loop (List.replicate count (ascii '=') ++ [0]) =
      .ok false := by
  rw [badTail, if_neg (not_not.mpr nothing), badPadding_pads stop]

theorem decode_encodeBase64 (bytes : Bytes) :
    decodeBase64 (encodeBase64 bytes ++ [0]) true =
        .ok (bytes, some false) ∧
      decodeBase64String (encodeBase64 bytes) = .ok bytes := by
  rcases encodeBase64_written bytes with
    ⟨chars, spare, pads, shape, letters, written, tail⟩
  have few : ∀ pair ∈ [(0, 0), (4, 2), (2, 1)], pair.1 < 8 := by
    decide
  rcases decodeLoop_written pads proper64
      (fun _ _ before _ below => decodeStep64_next before below) (by decide)
      rfl (by decide) letters (few _ tail) written with
    ⟨⟨ret, mode, left⟩, run, rfl, known, held, nothing⟩
  have valid : invalid64 ⟨ret, mode, left⟩
      (List.replicate pads (ascii '=') ++ [0]) = .ok false := by
    match mode, known with
    | 0, _ => rfl
    | 1, _ =>
        obtain rfl : 6 = spare := held
        exact absurd tail (by simp)
    | 2, _ =>
        obtain rfl : 4 = spare := held
        obtain rfl : pads = 2 := by simpa using tail
        exact badTail_pads proper64.zero 2 (nothing (Nat.succ_ne_zero _))
    | 3, _ =>
        obtain rfl : 2 = spare := held
        obtain rfl : pads = 1 := by simpa using tail
        exact badTail_pads proper64.zero 1 (nothing (Nat.succ_ne_zero _))
  constructor
  · rw [shape, List.append_assoc, decodeBase64, run, ok_bind]
    dsimp only
    rw [if_pos rfl, valid]
    rfl
  · rw [decodeBase64String, shape, List.append_assoc, decodeBase64, run]
    rfl

theorem decode_encodeBase32 (bytes : Bytes) :
    decodeBase32 (encodeBase32 bytes ++ [0]) true =
        .ok (bytes, some false) ∧
      decodeBase32String (encodeBase32 bytes) = .ok bytes := by
  rcases encodeBase32_written bytes with
    ⟨chars, spare, pads, shape, letters, written, tail⟩
  have few : ∀ pair ∈ [(0, 0), (2, 6), (4, 4), (1, 3), (3, 1)], pair.1 < 8 := by
    decide
  rcases decodeLoop_written pads proper32
      (fun _ _ before _ below => decodeStep32_next before below) (by decide)
      rfl (by decide) letters (few _ tail) written with
    ⟨⟨ret, mode, left⟩, run, rfl, known, held, nothing⟩
  have valid : invalid32 ⟨ret, mode, left⟩
      (List.replicate pads (ascii '=') ++ [0]) = .ok false := by
    match mode, known with
    | 0, _ => rfl
    | 1, _ =>
        obtain rfl : 5 = spare := held
        exact absurd tail (by simp)
    | 2, _ =>
        obtain rfl : 2 = spare := held
        obtain rfl : pads = 6 := by simpa using tail
        exact badTail_pads proper32.zero 6 (nothing (Nat.succ_ne_zero _))
    | 3, _ =>
        obtain rfl : 7 = spare := held
        exact absurd tail (by simp)
    | 4, _ =>
        obtain rfl : 4 = spare := held
        obtain rfl : pads = 4 := by simpa using tail
        exact badTail_pads proper32.zero 4 (nothing (Nat.succ_ne_zero _))
    | 5, _ =>
        obtain rfl : 1 = spare := held
        obtain rfl : pads = 3 := by simpa using tail
        exact badTail_pads proper32.zero 3 (nothing (Nat.succ_ne_zero _))
    | 6, _ =>
        obtain rfl : 6 = spare := held
        exact absurd tail (by simp)
    | 7, _ =>
        obtain rfl : 3 = spare := held
        obtain rfl : pads = 1 := by simpa using tail
        exact badTail_pads proper32.zero 1 (nothing (Nat.succ_ne_zero _))
  constructor
  · rw [shape, List.append_assoc, decodeBase32, run, ok_bind]
    dsimp only
    rw [if_pos rfl, valid]
    rfl
  · rw [decodeBase32String, shape, List.append_assoc, decodeBase32, run]
    rfl

theorem decodeBase64_inside (text : List UInt8) (pfInvalid : Bool) :
    ∃ outcome, decodeBase64 (text ++ [0]) pfInvalid = .ok outcome := by
  rcases decodeLoop_inside proper64.zero text Loop.start with
    ⟨last, rest, run⟩
  have checked : ∃ invalid, invalid64 last (rest ++ [0]) = .ok invalid := by
    unfold invalid64
    split
    · exact ⟨_, rfl⟩
    · exact ⟨_, rfl⟩
    · exact badTail_inside 2 last rest
    · exact badTail_inside 1 last rest
    · exact ⟨_, rfl⟩
  rcases checked with ⟨invalid, checked⟩
  rw [decodeBase64, run, ok_bind]
  dsimp only
  cases pfInvalid with
  | false => exact ⟨_, rfl⟩
  | true =>
      rw [if_pos rfl, checked]
      exact ⟨_, rfl⟩

theorem decodeBase32_inside (text : List UInt8) (pfInvalid : Bool) :
    ∃ outcome, decodeBase32 (text ++ [0]) pfInvalid = .ok outcome := by
  rcases decodeLoop_inside proper32.zero text Loop.start with
    ⟨last, rest, run⟩
  have checked : ∃ invalid, invalid32 last (rest ++ [0]) = .ok invalid := by
    unfold invalid32
    split
    · exact ⟨_, rfl⟩
    · exact ⟨_, rfl⟩
    · exact ⟨_, rfl⟩
    · exact ⟨_, rfl⟩
    · exact badTail_inside 6 last rest
    · exact badTail_inside 4 last rest
    · exact badTail_inside 3 last rest
    · exact badTail_inside 1 last rest
    · exact ⟨_, rfl⟩
  rcases checked with ⟨invalid, checked⟩
  rw [decodeBase32, run, ok_bind]
  dsimp only
  cases pfInvalid with
  | false => exact ⟨_, rfl⟩
  | true =>
      rw [if_pos rfl, checked]
      exact ⟨_, rfl⟩

/-- All bytes come back and are not reported as invalid, and no string is read
behind its end. -/
theorem base_encodings_round_trip :
    (∀ bytes : Bytes,
        decodeBase64 (encodeBase64 bytes ++ [0]) true =
            .ok (bytes, some false) ∧
          decodeBase64String (encodeBase64 bytes) = .ok bytes ∧
          decodeBase32 (encodeBase32 bytes ++ [0]) true =
            .ok (bytes, some false) ∧
          decodeBase32String (encodeBase32 bytes) = .ok bytes) ∧
      ∀ (text : List UInt8) (pfInvalid : Bool),
        (∃ outcome, decodeBase64 (text ++ [0]) pfInvalid = .ok outcome) ∧
          ∃ outcome, decodeBase32 (text ++ [0]) pfInvalid = .ok outcome :=
  ⟨fun bytes => ⟨(decode_encodeBase64 bytes).1, (decode_encodeBase64 bytes).2,
      (decode_encodeBase32 bytes).1, (decode_encodeBase32 bytes).2⟩,
    fun text pfInvalid => ⟨decodeBase64_inside text pfInvalid,
      decodeBase32_inside text pfInvalid⟩⟩

end PrivateDatagram.Wire.BaseEncodings
