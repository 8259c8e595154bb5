import PrivateDatagram.Wire.Script
import PrivateDatagram.Wire.VarInt

/-!
# Compressed outputs

`CTxOutCompressor` writes an amount without its trailing zeros and the usual
scripts by their hash or key.  Any other script stands behind its length, six
more than it is, so that the lengths below six are free for the special forms.

A positive amount has one form as digits before at most nine zeros, where the
last digit is zero only before all nine, and every positive code is that of one
such form.

A key of 65 bytes is written by its x coordinate and the parity of y.  What the
curve library says about keys is a parameter.
-/

namespace PrivateDatagram.Wire.Compressor

open Library.ByteFormat Transaction VarInt

/-! ## Amounts -/

/--
The loop of `CompressAmount` that strips zeros, with at most `left` rounds to
go; the number that is left and the exponent.
-/
def stripZeros : Nat → UInt64 → UInt64 × Nat
  | 0, n => (n, 9)
  | left + 1, n =>
      if n % 10 = 0 then stripZeros left (n / 10) else (n, 9 - (left + 1))

def compressAmount (n : UInt64) : UInt64 :=
  if n = 0 then 0
  else
    let (n, e) := stripZeros 9 n
    if e < 9 then
      let d := n % 10
      let n := n / 10
      1 + (n * 9 + d - 1) * 10 + UInt64.ofNat e
    else
      1 + (n - 1) * 10 + 9

/-- The last loop of `DecompressAmount`. -/
def timesTen : Nat → UInt64 → UInt64
  | 0, n => n
  | e + 1, n => timesTen e (n * 10)

def decompressAmount (x : UInt64) : UInt64 :=
  if x = 0 then 0
  else
    let x := x - 1
    let e := x % 10
    let x := x / 10
    let n :=
      if e < 9 then
        let d := x % 9 + 1
        let x := x / 9
        x * 10 + d
      else x + 1
    timesTen e.toNat n

theorem stripZeros_spec {left : Nat} (within : left ≤ 9) (n : UInt64) :
    ∃ m k, stripZeros left n = (m, 9 - left + k) ∧ k ≤ left ∧
      n.toNat = m.toNat * 10 ^ k ∧ (k < left → m.toNat % 10 ≠ 0) := by
  induction left generalizing n with
  | zero => exact ⟨n, 0, rfl, Nat.le_refl 0, by simp, by simp⟩
  | succ left ih =>
      have ten : (10 : UInt64).toNat = 10 := rfl
      have zero : n % 10 = 0 ↔ n.toNat % 10 = 0 := by
        rw [← UInt64.toNat_inj, UInt64.toNat_mod, ten]
        rfl
      rw [stripZeros]
      split_ifs with divisible
      · rcases ih (by omega) (n / 10) with ⟨m, k, stripped, room, value, last⟩
        refine ⟨m, k + 1, ?_, by omega, ?_, fun more => last (by omega)⟩
        · rw [stripped]
          congr 1
          omega
        · rw [UInt64.toNat_div, ten] at value
          have whole := zero.mp divisible
          rw [Nat.pow_succ, ← Nat.mul_assoc, ← value]
          omega
      · exact ⟨n, 0, rfl, Nat.zero_le _, by simp, fun _ => mt zero.mpr divisible⟩

theorem toNat_timesTen (e : Nat) (n : UInt64) :
    (timesTen e n).toNat = n.toNat * 10 ^ e % 2 ^ 64 := by
  induction e generalizing n with
  | zero =>
      rw [timesTen, pow_zero, Nat.mul_one, Nat.mod_eq_of_lt n.toNat_lt]
  | succ e ih =>
      have ten : (10 : UInt64).toNat = 10 := rfl
      rw [timesTen, ih, UInt64.toNat_mul, ten, Nat.mod_mul_mod,
        pow_succ' 10 e, Nat.mul_assoc]

theorem toNat_sub_one {n : UInt64} (positive : 0 < n.toNat) :
    (n - 1).toNat = n.toNat - 1 := by
  have one : (1 : UInt64).toNat = 1 := rfl
  rw [UInt64.toNat_sub_of_le, one]
  rw [UInt64.le_iff_toNat_le, one]
  exact positive

/-! ## Forms of amounts -/

/-- Digits without trailing zeros, unless nine were stripped. -/
structure Stripped (m e : Nat) : Prop where
  exponent : e ≤ 9
  positive : 0 < m
  last : e < 9 → m % 10 ≠ 0

/-- The code of a form. -/
def formCode (m e : Nat) : Nat :=
  if e < 9 then 1 + (m / 10 * 9 + m % 10 - 1) * 10 + e
  else 1 + (m - 1) * 10 + 9

/-- The digits of the form with a code. -/
def codeDigits (x : Nat) : Nat :=
  if (x - 1) % 10 < 9 then (x - 1) / 10 / 9 * 10 + ((x - 1) / 10 % 9 + 1)
  else (x - 1) / 10 + 1

/-- The zeros of the form with a code. -/
def codeExponent (x : Nat) : Nat :=
  (x - 1) % 10

theorem stripped_code (x : Nat) : Stripped (codeDigits x) (codeExponent x) := by
  refine ⟨?_, ?_, ?_⟩
  · rw [codeExponent]
    omega
  · rw [codeDigits]
    split_ifs <;> omega
  · intro few
    rw [codeExponent] at few
    rw [codeDigits, if_pos few]
    omega

theorem formCode_code {x : Nat} (positive : 0 < x) :
    formCode (codeDigits x) (codeExponent x) = x := by
  rw [formCode, codeDigits, codeExponent]
  split_ifs <;> omega

theorem formCode_pos (m e : Nat) : 0 < formCode m e := by
  rw [formCode]
  split_ifs <;> omega

theorem codeExponent_formCode {m e : Nat} (stripped : Stripped m e) :
    codeExponent (formCode m e) = e := by
  have exponent := stripped.exponent
  rw [codeExponent, formCode]
  split_ifs <;> omega

theorem codeDigits_formCode {m e : Nat} (stripped : Stripped m e) :
    codeDigits (formCode m e) = m := by
  have exponent := codeExponent_formCode stripped
  have positive := stripped.positive
  rw [codeExponent] at exponent
  rw [codeDigits, exponent, formCode]
  split_ifs with few
  · have last := stripped.last few
    omega
  · omega

/-- The form with the fewer zeros would end in one of the others. -/
theorem exponent_le {m e left zeros : Nat} (stripped : Stripped m e)
    (bounded : zeros ≤ 9) (same : m * 10 ^ e = left * 10 ^ zeros) :
    zeros ≤ e := by
  apply Nat.le_of_not_lt
  intro fewer
  have split : 10 ^ zeros = 10 ^ (zeros - e - 1) * 10 * 10 ^ e := by
    rw [← Nat.pow_succ, ← Nat.pow_add]
    congr 1
    omega
  rw [split, ← Nat.mul_assoc] at same
  have digits : m = left * 10 ^ (zeros - e - 1) * 10 := by
    rw [Nat.eq_of_mul_eq_mul_right (Nat.pow_pos (by decide)) same,
      Nat.mul_assoc]
  apply stripped.last (by omega)
  rw [digits, Nat.mul_mod_left]

/-- An amount has one form. -/
theorem stripped_unique {m e left zeros : Nat} (stripped : Stripped m e)
    (other : Stripped left zeros) (same : m * 10 ^ e = left * 10 ^ zeros) :
    m = left ∧ e = zeros := by
  have exponent : e = zeros :=
    Nat.le_antisymm (exponent_le other stripped.exponent same.symm)
      (exponent_le stripped other.exponent same)
  refine ⟨?_, exponent⟩
  rw [exponent] at same
  exact Nat.eq_of_mul_eq_mul_right (Nat.pow_pos (by decide)) same

/-- The loop of `CompressAmount` finds a form. -/
theorem exists_form {n : UInt64} (nonzero : n ≠ 0) :
    ∃ m e, Stripped m e ∧ n.toNat = m * 10 ^ e ∧
      stripZeros 9 n = (UInt64.ofNat m, e) := by
  rcases stripZeros_spec (Nat.le_refl 9) n with
    ⟨m, e, found, room, value, last⟩
  rw [Nat.sub_self, Nat.zero_add] at found
  have positive : 0 < m.toNat := by
    apply Nat.pos_of_ne_zero
    intro none
    rw [none, Nat.zero_mul] at value
    exact nonzero (UInt64.toNat_inj.mp value)
  refine ⟨m.toNat, e, ⟨room, positive, last⟩, value, ?_⟩
  rw [found, UInt64.ofNat_toNat]

/-- A compressed amount is the code of its form. -/
theorem toNat_compressAmount {n : UInt64} (small : n.toNat < 2 ^ 60)
    (nonzero : n ≠ 0) :
    ∃ m e, Stripped m e ∧ n.toNat = m * 10 ^ e ∧
      (compressAmount n).toNat = formCode m e := by
  rcases exists_form nonzero with ⟨m, e, stripped, value, found⟩
  have bounded : m < 2 ^ 60 := by
    have below : m ≤ m * 10 ^ e :=
      Nat.le_mul_of_pos_right _ (Nat.pow_pos (by decide))
    omega
  have fits : m < 2 ^ 64 := by omega
  have digits := UInt64.toNat_ofNat_of_lt' fits
  have positive := stripped.positive
  have room := stripped.exponent
  have one : (1 : UInt64).toNat = 1 := rfl
  have nine : (9 : UInt64).toNat = 9 := rfl
  have ten : (10 : UInt64).toNat = 10 := rfl
  refine ⟨m, e, stripped, value, ?_⟩
  simp only [compressAmount, if_neg nonzero, found, formCode]
  generalize UInt64.ofNat m = word at digits
  split_ifs with few
  · have digit := stripped.last few
    have exponent : (UInt64.ofNat e).toNat = e := by
      rw [UInt64.toNat_ofNat']
      omega
    have sum : (word / 10 * 9 + word % 10).toNat = m / 10 * 9 + m % 10 := by
      simp only [UInt64.toNat_add, UInt64.toNat_mul, UInt64.toNat_div,
        UInt64.toNat_mod, digits, nine, ten]
      omega
    have head := toNat_sub_one
      (by omega : 0 < (word / 10 * 9 + word % 10).toNat)
    simp only [UInt64.toNat_add, UInt64.toNat_mul, head, sum, exponent, one,
      ten]
    omega
  · have head := toNat_sub_one (by omega : 0 < word.toNat)
    simp only [UInt64.toNat_add, UInt64.toNat_mul, head, digits, one, nine,
      ten]
    omega

/-- Decompression takes the form apart again. -/
theorem toNat_decompressAmount {x : UInt64} (nonzero : x ≠ 0) :
    (decompressAmount x).toNat =
      codeDigits x.toNat * 10 ^ codeExponent x.toNat % 2 ^ 64 := by
  have bounded := x.toNat_lt
  have before := toNat_sub_one
    (Nat.pos_of_ne_zero fun zero => nonzero (UInt64.toNat_inj.mp zero))
  have one : (1 : UInt64).toNat = 1 := rfl
  have nine : (9 : UInt64).toNat = 9 := rfl
  have ten : (10 : UInt64).toNat = 10 := rfl
  have exponent : ((x - 1) % 10).toNat = codeExponent x.toNat := by
    rw [UInt64.toNat_mod, before, ten, codeExponent]
  have few : (x - 1) % 10 < 9 ↔ (x.toNat - 1) % 10 < 9 := by
    rw [UInt64.lt_iff_toNat_lt, exponent, nine, codeExponent]
  have digits : (if (x - 1) % 10 < 9 then
      (x - 1) / 10 / 9 * 10 + ((x - 1) / 10 % 9 + 1)
      else (x - 1) / 10 + 1).toNat = codeDigits x.toNat := by
    rw [codeDigits]
    by_cases less : (x.toNat - 1) % 10 < 9
    · rw [if_pos (few.mpr less), if_pos less]
      simp only [UInt64.toNat_add, UInt64.toNat_mul, UInt64.toNat_div,
        UInt64.toNat_mod, before, one, nine, ten]
      omega
    · rw [if_neg (mt few.mp less), if_neg less]
      simp only [UInt64.toNat_add, UInt64.toNat_div, before, one, ten]
      omega
  simp only [decompressAmount, if_neg nonzero]
  rw [toNat_timesTen, digits, exponent]

theorem decompressAmount_compressAmount {n : UInt64}
    (small : n.toNat < 2 ^ 60) :
    decompressAmount (compressAmount n) = n := by
  by_cases zero : n = 0
  · rw [zero]
    decide
  · rcases toNat_compressAmount small zero with
      ⟨m, e, stripped, value, compressed⟩
    have nonzero : compressAmount n ≠ 0 := by
      intro none
      rw [none] at compressed
      exact absurd compressed (Nat.ne_of_lt (formCode_pos m e))
    apply UInt64.toNat_inj.mp
    rw [toNat_decompressAmount nonzero, compressed,
      codeDigits_formCode stripped, codeExponent_formCode stripped, ← value,
      Nat.mod_eq_of_lt n.toNat_lt]

/-! ## Scripts -/

def opDup : UInt8 := 0x76
def opEqual : UInt8 := 0x87
def opEqualVerify : UInt8 := 0x88
def opHash160 : UInt8 := 0xa9
def opCheckSig : UInt8 := 0xac

/-- What the curve library says about the bytes of a key. -/
structure KeyLibrary where
  isFullyValid : Bytes → Bool
  /-- `CPubKey::Decompress`; none is false. -/
  decompress : Bytes → Option { key : Bytes // key.length = 65 }

/-- The x coordinate behind the parity of y. -/
def compressedKey (key : Bytes) : Bytes :=
  (2 ||| (key.getD 64 0 &&& 1)) :: (key.drop 1).take 32

/-- The x coordinate and the parity of a valid key give the key. -/
def KeyLibrary.Decompresses (keys : KeyLibrary) : Prop :=
  ∀ key : Bytes, key.length = 65 → key[0]? = some 4 →
    keys.isFullyValid key = true →
      (keys.decompress (compressedKey key)).map Subtype.val = some key

def isToKeyID (script : CScript) : Option Bytes :=
  if script.length = 25 ∧ script.take 3 = [opDup, opHash160, 20] ∧
      script.drop 23 = [opEqualVerify, opCheckSig] then
    some ((script.drop 3).take 20)
  else none

def isToScriptID (script : CScript) : Option Bytes :=
  if script.length = 23 ∧ script.take 2 = [opHash160, 20] ∧
      script.drop 22 = [opEqual] then
    some ((script.drop 2).take 20)
  else none

def isToPubKey (keys : KeyLibrary) (script : CScript) : Option Bytes :=
  if script.length = 35 ∧ script.take 1 = [33] ∧
      script.drop 34 = [opCheckSig] ∧
      (script[1]? = some 0x02 ∨ script[1]? = some 0x03) then
    some ((script.drop 1).take 33)
  else if script.length = 67 ∧ script.take 1 = [65] ∧
      script.drop 66 = [opCheckSig] ∧ script[1]? = some 0x04 then
    let pubkey := (script.drop 1).take 65
    if keys.isFullyValid pubkey then some pubkey else none
  else none

/-- The form of a key behind its first byte. -/
def compressKey (pubkey : Bytes) : Option Bytes :=
  if pubkey[0]? = some 0x02 ∨ pubkey[0]? = some 0x03 then
    some (pubkey.getD 0 0 :: (pubkey.drop 1).take 32)
  else if pubkey[0]? = some 0x04 then
    some ((0x04 ||| (pubkey.getD 64 0 &&& 0x01)) :: (pubkey.drop 1).take 32)
  else none

/-- `Compress`; none is false. -/
def compress (keys : KeyLibrary) (script : CScript) : Option Bytes :=
  match isToKeyID script with
  | some keyID => some (0x00 :: keyID)
  | none =>
      match isToScriptID script with
      | some scriptID => some (0x01 :: scriptID)
      | none => (isToPubKey keys script).bind compressKey

def getSpecialSize (nSize : Nat) : Nat :=
  if nSize = 0 ∨ nSize = 1 then 20
  else if nSize = 2 ∨ nSize = 3 ∨ nSize = 4 ∨ nSize = 5 then 32
  else 0

/-- `Decompress`; none is false. -/
def decompress (keys : KeyLibrary) (nSize : Nat) (input : Bytes) :
    Option CScript :=
  match nSize with
  | 0 => some ([opDup, opHash160, 20] ++ (input ++ [opEqualVerify, opCheckSig]))
  | 1 => some ([opHash160, 20] ++ (input ++ [opEqual]))
  | 2 => some ([33, 2] ++ (input ++ [opCheckSig]))
  | 3 => some ([33, 3] ++ (input ++ [opCheckSig]))
  | 4 | 5 =>
      (keys.decompress (UInt8.ofNat (nSize - 2) :: input)).map fun pubkey =>
        [65] ++ (pubkey.val ++ [opCheckSig])
  | _ => none

def nSpecialScripts : Nat := 6

/-- `nSize`, which keeps 32 bits of the length. -/
def markedSize (script : CScript) : UInt32 :=
  UInt32.ofNat (script.length + nSpecialScripts)

def serializeScript (keys : KeyLibrary) (script : CScript) : Bytes :=
  match compress keys script with
  | some compr => compr
  | none => writeVarInt (markedSize script).toNat ++ script

/-- The script is empty before, and stays so if `Decompress` fails. -/
def unserializeScript (keys : KeyLibrary) : Decoder CScript := do
  let nSize ← readVarInt 32
  if nSize < nSpecialScripts then
    let vch ← readBytes (getSpecialSize nSize)
    pure ((decompress keys nSize vch).getD [])
  else
    readBytes (nSize - nSpecialScripts)

/-- A script is its start, the part from there on and the rest. -/
theorem script_parts (script : CScript) (start size : Nat) :
    script.take start ++ ((script.drop start).take size ++
      script.drop (start + size)) = script := by
  rw [← List.drop_drop, List.take_append_drop, List.take_append_drop]

/-- A special form and what it is decompressed to. -/
structure Special (keys : KeyLibrary) (script : CScript) (compr : Bytes) :
    Prop where
  form : ∃ nSize payload, nSize < nSpecialScripts ∧
    compr = UInt8.ofNat nSize :: payload ∧
    payload.length = getSpecialSize nSize ∧
    decompress keys nSize payload = some script

theorem isToKeyID_special {keys : KeyLibrary} {script : CScript}
    {keyID : Bytes} (found : isToKeyID script = some keyID) :
    Special keys script (0x00 :: keyID) := by
  simp only [isToKeyID] at found
  split_ifs at found with shape
  cases found
  rcases shape with ⟨length, front, back⟩
  refine ⟨0, _, by decide, rfl, ?_, ?_⟩
  · simp only [List.length_take, List.length_drop, length]
    rfl
  · rw [decompress, ← front, ← back]
    exact congrArg some (script_parts script 3 20)

theorem isToScriptID_special {keys : KeyLibrary} {script : CScript}
    {scriptID : Bytes} (found : isToScriptID script = some scriptID) :
    Special keys script (0x01 :: scriptID) := by
  simp only [isToScriptID] at found
  split_ifs at found with shape
  cases found
  rcases shape with ⟨length, front, back⟩
  refine ⟨1, _, by decide, rfl, ?_, ?_⟩
  · simp only [List.length_take, List.length_drop, length]
    rfl
  · rw [decompress, ← front, ← back]
    exact congrArg some (script_parts script 2 20)

theorem take_two {script : CScript} {first second : UInt8}
    (front : script.take 1 = [first]) (next : script[1]? = some second) :
    script.take 2 = [first, second] := by
  rw [List.take_add_one, front, next]
  rfl

theorem parity_cases (byte : UInt8) : byte &&& 1 = 0 ∨ byte &&& 1 = 1 := by
  have bit : (byte &&& 1).toNat = byte.toNat % 2 := by
    rw [UInt8.toNat_and]
    exact Nat.and_one_is_mod byte.toNat
  rcases Nat.mod_two_eq_zero_or_one byte.toNat with even | odd
  · exact .inl (UInt8.toNat_inj.mp (bit.trans even))
  · exact .inr (UInt8.toNat_inj.mp (bit.trans odd))

/-- A key of 33 bytes is kept whole. -/
theorem shortKey_special {keys : KeyLibrary} {script : CScript}
    (length : script.length = 35) (front : script.take 1 = [33])
    (back : script.drop 34 = [opCheckSig]) {parity : UInt8}
    (header : script[1]? = some parity) (known : parity = 2 ∨ parity = 3) :
    Special keys script (parity :: (script.drop 2).take 32) := by
  have start := take_two front header
  have size : ((script.drop 2).take 32).length = 32 := by
    simp only [List.length_take, List.length_drop, length]
    rfl
  rcases known with rfl | rfl
  · refine ⟨2, _, by decide, rfl, size, ?_⟩
    rw [decompress, ← start, ← back]
    exact congrArg some (script_parts script 2 32)
  · refine ⟨3, _, by decide, rfl, size, ?_⟩
    rw [decompress, ← start, ← back]
    exact congrArg some (script_parts script 2 32)

/-- The two sizes of a key of 65 bytes, by the parity of y. -/
theorem parity_size (byte : UInt8) :
    ∃ nSize, (nSize = 4 ∨ nSize = 5) ∧
      0x04 ||| (byte &&& 1) = UInt8.ofNat nSize ∧
      2 ||| (byte &&& 1) = UInt8.ofNat (nSize - 2) := by
  rcases parity_cases byte with even | odd
  · rw [even]
    exact ⟨4, .inl rfl, rfl, rfl⟩
  · rw [odd]
    exact ⟨5, .inr rfl, rfl, rfl⟩

theorem decompress_longKey (keys : KeyLibrary) {nSize : Nat}
    (long : nSize = 4 ∨ nSize = 5) (input : Bytes) :
    decompress keys nSize input =
      (keys.decompress (UInt8.ofNat (nSize - 2) :: input)).map fun pubkey =>
        [65] ++ (pubkey.val ++ [opCheckSig]) := by
  rcases long with rfl | rfl
  · rfl
  · rfl

/-- A key of 65 bytes comes back from the curve library. -/
theorem longKey_special {keys : KeyLibrary} (curve : keys.Decompresses)
    {script : CScript} (length : script.length = 67)
    (front : script.take 1 = [65]) (back : script.drop 66 = [opCheckSig])
    (header : script[1]? = some 4)
    (valid : keys.isFullyValid ((script.drop 1).take 65) = true) :
    Special keys script
      ((0x04 ||| (((script.drop 1).take 65).getD 64 0 &&& 1)) ::
        (((script.drop 1).take 65).drop 1).take 32) := by
  have whole : [65] ++ ((script.drop 1).take 65 ++ [opCheckSig]) = script := by
    rw [← front, ← back]
    exact script_parts script 1 65
  have keyLength : ((script.drop 1).take 65).length = 65 := by
    simp only [List.length_take, List.length_drop, length]
    rfl
  have first : ((script.drop 1).take 65)[0]? = some 4 := by
    rw [List.getElem?_take_of_lt (by decide), List.getElem?_drop]
    exact header
  have restored := curve _ keyLength first valid
  generalize (script.drop 1).take 65 = key at *
  rcases Option.map_eq_some_iff.mp restored with ⟨found, decompressed, same⟩
  have size : ((key.drop 1).take 32).length = 32 := by
    simp only [List.length_take, List.length_drop, keyLength]
    rfl
  rcases parity_size (key.getD 64 0) with ⟨nSize, long, marked, parity⟩
  rw [compressedKey, parity] at decompressed
  rw [marked]
  refine ⟨nSize, _, ?_, rfl, ?_, ?_⟩
  · rcases long with rfl | rfl <;> decide
  · rw [size]
    rcases long with rfl | rfl <;> rfl
  · rw [decompress_longKey keys long, decompressed, Option.map_some, same,
      whole]

theorem isToPubKey_special {keys : KeyLibrary} (curve : keys.Decompresses)
    {script : CScript} {compr : Bytes}
    (found : (isToPubKey keys script).bind compressKey = some compr) :
    Special keys script compr := by
  rcases Option.bind_eq_some_iff.mp found with ⟨pubkey, key, compressed⟩
  simp only [isToPubKey] at key
  split_ifs at key with short long valid
  · cases key
    rcases short with ⟨length, front, back, header⟩
    have first : ((script.drop 1).take 33)[0]? = script[1]? := by
      rw [List.getElem?_take_of_lt (by decide), List.getElem?_drop]
    have payload : (((script.drop 1).take 33).drop 1).take 32 =
        (script.drop 2).take 32 := by
      rw [List.drop_take, List.take_take, List.drop_drop]
      rfl
    rw [compressKey, first, if_pos header, payload, List.getD_eq_getElem?_getD,
      first] at compressed
    cases compressed
    rcases header with two | three
    · rw [two]
      exact shortKey_special length front back two (.inl rfl)
    · rw [three]
      exact shortKey_special length front back three (.inr rfl)
  · cases key
    rcases long with ⟨length, front, back, header⟩
    have first : ((script.drop 1).take 65)[0]? = some 4 := by
      rw [List.getElem?_take_of_lt (by decide), List.getElem?_drop]
      exact header
    rw [compressKey, first, if_neg (by decide), if_pos rfl] at compressed
    cases compressed
    exact longKey_special curve length front back header valid

theorem compress_special {keys : KeyLibrary} (curve : keys.Decompresses)
    {script : CScript} {compr : Bytes}
    (compressed : compress keys script = some compr) :
    Special keys script compr := by
  rw [compress] at compressed
  split at compressed
  case h_1 keyID found =>
    cases compressed
    exact isToKeyID_special found
  case h_2 =>
    split at compressed
    case h_1 scriptID found =>
      cases compressed
      exact isToScriptID_special found
    case h_2 => exact isToPubKey_special curve compressed

/-- A script comes back whole, as long as its length is not cut. -/
theorem unserializeScript_consumes {keys : KeyLibrary}
    (curve : keys.Decompresses) (script : CScript)
    (short : script.length + nSpecialScripts < 2 ^ 32) :
    Consumes (unserializeScript keys) (serializeScript keys script) script := by
  rw [serializeScript]
  cases compressed : compress keys script with
  | some compr =>
      rcases compress_special curve compressed with
        ⟨nSize, payload, special, rfl, length, restored⟩
      have head := readVarInt_consumes 32 nSize
        (Nat.lt_trans special (by decide))
      rw [writeVarInt_of_small (Nat.lt_trans special (by decide))] at head
      have tail := readBytes_consumes payload
      rw [length] at tail
      apply head.bind
      rw [if_pos special, ← List.append_nil payload]
      apply tail.bind
      rw [restored]
      exact Consumes.pure script
  | none =>
      have size : (markedSize script).toNat =
          script.length + nSpecialScripts := by
        rw [markedSize, UInt32.toNat_ofNat', Nat.mod_eq_of_lt short]
      have head := readVarInt_consumes 32 _ (markedSize script).toNat_lt
      apply head.bind
      rw [size, if_neg (by omega), Nat.add_sub_cancel]
      exact readBytes_consumes script

/-- `CScriptCompressor::GetSerializeSize`. -/
def scriptSize (keys : KeyLibrary) (script : CScript) : UInt32 :=
  match compress keys script with
  | some compr => UInt32.ofNat compr.length
  | none =>
      UInt32.ofNat (script.length + sizeOfVarInt (markedSize script).toNat)

theorem scriptSize_eq (keys : KeyLibrary) (script : CScript) :
    scriptSize keys script =
      UInt32.ofNat (serializeScript keys script).length := by
  rw [scriptSize, serializeScript]
  cases compress keys script with
  | some compr => rfl
  | none =>
      rw [List.length_append, length_writeVarInt, Nat.add_comm]

/-! ## Outputs -/

def serializeTxOut (keys : KeyLibrary) (txout : CTxOut) : Bytes :=
  writeVarInt (compressAmount txout.nValue.toUInt64).toNat ++
    serializeScript keys txout.scriptPubKey

def unserializeTxOut (keys : KeyLibrary) : Decoder CTxOut := do
  let nVal ← readVarInt 64
  let scriptPubKey ← unserializeScript keys
  pure ⟨(decompressAmount (UInt64.ofNat nVal)).toInt64, scriptPubKey⟩

/-- `CTxOutCompressor::GetSerializeSize`, the sum of the two parts. -/
def txOutSize (keys : KeyLibrary) (txout : CTxOut) : UInt32 :=
  UInt32.ofNat (sizeOfVarInt (compressAmount txout.nValue.toUInt64).toNat) +
    scriptSize keys txout.scriptPubKey

theorem txOutSize_eq (keys : KeyLibrary) (txout : CTxOut) :
    txOutSize keys txout =
      UInt32.ofNat (serializeTxOut keys txout).length := by
  rw [txOutSize, serializeTxOut, scriptSize_eq, List.length_append,
    length_writeVarInt, UInt32.ofNat_add]

theorem unserializeTxOut_consumes {keys : KeyLibrary}
    (curve : keys.Decompresses) (txout : CTxOut)
    (notNegative : 0 ≤ txout.nValue) (bounded : txout.nValue.toInt < 2 ^ 60)
    (short : txout.scriptPubKey.length + nSpecialScripts < 2 ^ 32) :
    Consumes (unserializeTxOut keys) (serializeTxOut keys txout) txout := by
  have small : txout.nValue.toUInt64.toNat < 2 ^ 60 := by
    rw [Int64.toNat_toUInt64_of_le notNegative]
    change txout.nValue.toInt.toNat < 2 ^ 60
    omega
  have amount := readVarInt_consumes 64 _
    (compressAmount txout.nValue.toUInt64).toNat_lt
  have script := unserializeScript_consumes curve txout.scriptPubKey short
  apply amount.bind
  rw [← List.append_nil (serializeScript keys txout.scriptPubKey)]
  apply script.bind
  rw [UInt64.ofNat_toNat, decompressAmount_compressAmount small,
    Int64.toInt64_toUInt64]
  exact Consumes.pure txout

end PrivateDatagram.Wire.Compressor
