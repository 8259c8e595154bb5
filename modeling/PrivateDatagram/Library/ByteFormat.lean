import Mathlib.Data.UInt

/-!
# Byte formats

A stream of bytes is read by a decoder, which consumes a prefix of its input
or fails.  A `Format` pairs an encoder with a decoder and carries the proof
that every value in its range survives the round trip with any bytes behind
it.  `Format.Canonical` is the converse: whatever the decoder accepts is the
encoding of the value it returns.

The combinators at the end (fixed-width little-endian words, pairs,
length-prefixed blobs and lists) keep both properties, so that a record's
format is assembled from the formats of its fields.
-/

namespace PrivateDatagram.Library.ByteFormat

abbrev Bytes := List UInt8

/-! ## Little-endian digits -/

/-- The `width` low bytes of a number, least significant first. -/
def littleEndian : Nat → Nat → Bytes
  | 0, _ => []
  | width + 1, value =>
      UInt8.ofNat value :: littleEndian width (value / 256)

/-- The number whose little-endian bytes are given. -/
def ofLittleEndian : Bytes → Nat
  | [] => 0
  | byte :: rest => byte.toNat + 256 * ofLittleEndian rest

@[simp]
theorem length_littleEndian (width value : Nat) :
    (littleEndian width value).length = width := by
  induction width generalizing value with
  | zero => rfl
  | succ width ih => simp [littleEndian, ih]

theorem ofLittleEndian_littleEndian (width value : Nat) :
    ofLittleEndian (littleEndian width value) = value % 256 ^ width := by
  induction width generalizing value with
  | zero => simp [littleEndian, ofLittleEndian, Nat.mod_one]
  | succ width ih =>
      simp only [littleEndian, ofLittleEndian, ih, UInt8.toNat_ofNat']
      rw [Nat.pow_succ 256, Nat.mul_comm (256 ^ width) 256, Nat.mod_mul]

theorem ofLittleEndian_lt (bytes : Bytes) :
    ofLittleEndian bytes < 256 ^ bytes.length := by
  induction bytes with
  | nil => simp [ofLittleEndian]
  | cons byte rest ih =>
      have small : byte.toNat < 256 := byte.toNat_lt
      simp only [ofLittleEndian, List.length_cons, Nat.pow_succ]
      omega

theorem littleEndian_ofLittleEndian (bytes : Bytes) :
    littleEndian bytes.length (ofLittleEndian bytes) = bytes := by
  induction bytes with
  | nil => rfl
  | cons byte rest ih =>
      have small : byte.toNat < 256 := byte.toNat_lt
      have low :
          UInt8.ofNat (byte.toNat + 256 * ofLittleEndian rest) = byte := by
        apply UInt8.toNat_inj.mp
        rw [UInt8.toNat_ofNat']
        omega
      have high :
          (byte.toNat + 256 * ofLittleEndian rest) / 256 =
            ofLittleEndian rest := by
        omega
      simp only [ofLittleEndian, List.length_cons, littleEndian, low, high, ih]

/-! ## Decoders -/

/-- Why a stream refuses to deliver a value. -/
inductive StreamError where
  | endOfData
  | failure (what : String)
deriving DecidableEq, Repr

/-- A decoder returns a value and the bytes it has not consumed. -/
abbrev Decoder (α : Type) := StateT Bytes (Except StreamError) α

/-- Take exactly `count` bytes off the stream. -/
def readBytes (count : Nat) : Decoder Bytes := fun input =>
  if count ≤ input.length then
    .ok (input.take count, input.drop count)
  else
    .error .endOfData

/-- Refuse the stream. -/
def refuse {α : Type} (what : String) : Decoder α := fun _ =>
  .error (.failure what)

/-- The decoder turns exactly these bytes into this value. -/
def Consumes {α : Type} (decoder : Decoder α) (bytes : Bytes)
    (value : α) : Prop :=
  ∀ rest, decoder (bytes ++ rest) = .ok (value, rest)

theorem readBytes_consumes (bytes : Bytes) :
    Consumes (readBytes bytes.length) bytes bytes := by
  intro rest
  simp [readBytes]

theorem readBytes_ok {count : Nat} {input bytes rest : Bytes}
    (accepted : readBytes count input = .ok (bytes, rest)) :
    bytes.length = count ∧ input = bytes ++ rest := by
  unfold readBytes at accepted
  split at accepted
  case isTrue enough =>
    simp only [Except.ok.injEq, Prod.mk.injEq] at accepted
    rcases accepted with ⟨rfl, rfl⟩
    exact ⟨by simp [enough], by simp⟩
  case isFalse => simp at accepted

theorem Consumes.pure {α : Type} (value : α) :
    Consumes (Pure.pure value) [] value := by
  intro rest
  rfl

/-- What is left after the first value is read goes to the next decoder. -/
theorem Consumes.run {α β : Type} {decoder : Decoder α} {bytes : Bytes}
    {value : α} (head : Consumes decoder bytes value)
    (next : α → Decoder β) (rest : Bytes) :
    (decoder >>= next) (bytes ++ rest) = next value rest := by
  change (decoder (bytes ++ rest)).bind _ = _
  rw [head]
  rfl

theorem Consumes.bind {α β : Type} {decoder : Decoder α}
    {next : α → Decoder β} {first second : Bytes} {value : α} {result : β}
    (head : Consumes decoder first value)
    (tail : Consumes (next value) second result) :
    Consumes (decoder >>= next) (first ++ second) result := by
  intro rest
  rw [List.append_assoc, head.run]
  exact tail rest

theorem ok_bind {ε α β : Type} (value : α) (next : α → Except ε β) :
    (Except.ok value >>= next) = next value :=
  rfl

theorem pure_ok {α : Type} {value result : α} {input rest : Bytes}
    (accepted : (Pure.pure value : Decoder α) input = .ok (result, rest)) :
    result = value ∧ rest = input := by
  change Except.ok (value, input) = _ at accepted
  simp only [Except.ok.injEq, Prod.mk.injEq] at accepted
  exact ⟨accepted.1.symm, accepted.2.symm⟩

theorem bind_ok {α β : Type} {decoder : Decoder α}
    {next : α → Decoder β} {input rest : Bytes} {result : β}
    (accepted : (decoder >>= next) input = .ok (result, rest)) :
    ∃ value middle, decoder input = .ok (value, middle) ∧
      next value middle = .ok (result, rest) := by
  change (decoder input).bind _ = _ at accepted
  cases outcome : decoder input with
  | error reason =>
      rw [outcome] at accepted
      cases accepted
  | ok reached =>
      rw [outcome] at accepted
      exact ⟨reached.1, reached.2, rfl, accepted⟩

/-! ## Formats -/

/--
An encoder and a decoder that agree on every value in range.  `Fits` is the
range: a decoder may refuse values that the encoder writes without complaint.
-/
structure Format (α : Type) where
  encode : α → Bytes
  decode : Decoder α
  Fits : α → Prop
  lossless : ∀ value, Fits value → Consumes decode (encode value) value

/-- Whatever the decoder accepts is in range and is what the encoder writes. -/
def Format.Canonical {α : Type} (format : Format α) : Prop :=
  ∀ input value rest, format.decode input = .ok (value, rest) →
    format.Fits value ∧ input = format.encode value ++ rest

/--
Two encodings with anything behind them coincide only if the values do.
Unlike `lossless` this is about the encoder alone, also out of the decoder's
range.
-/
def Unambiguous {α : Type} (encode : α → Bytes) (domain : α → Prop) : Prop :=
  ∀ left right leftRest rightRest, domain left → domain right →
    encode left ++ leftRest = encode right ++ rightRest →
    left = right ∧ leftRest = rightRest

/-- Values that some decoder tells apart are told apart by their bytes. -/
theorem unambiguous_of_consumes {α : Type} {encode : α → Bytes}
    {domain : α → Prop} {decoder : Decoder α}
    (read : ∀ value, domain value → Consumes decoder (encode value) value) :
    Unambiguous encode domain := by
  intro left right leftRest rightRest leftIn rightIn equal
  have leftRead := read left leftIn leftRest
  rw [equal, read right rightIn rightRest] at leftRead
  simp only [Except.ok.injEq, Prod.mk.injEq] at leftRead
  exact ⟨leftRead.1.symm, leftRead.2.symm⟩

theorem Format.unambiguous {α : Type} (format : Format α) :
    Unambiguous format.encode format.Fits :=
  unambiguous_of_consumes format.lossless

/-- Two sequences of encodings that agree piece by piece. -/
theorem flatMap_unambiguous {ι : Type} (Same : ι → Prop)
    {left right : ι → Bytes} {indices : List ι}
    (piece : ∀ index ∈ indices, ∀ leftRest rightRest,
      left index ++ leftRest = right index ++ rightRest →
      Same index ∧ leftRest = rightRest)
    {leftRest rightRest : Bytes}
    (equal :
      indices.flatMap left ++ leftRest =
        indices.flatMap right ++ rightRest) :
    (∀ index ∈ indices, Same index) ∧ leftRest = rightRest := by
  induction indices with
  | nil => exact ⟨by simp, by simpa using equal⟩
  | cons head tail ih =>
      simp only [List.flatMap_cons, List.append_assoc] at equal
      rcases piece head (by simp) _ _ equal with ⟨headSame, tailEqual⟩
      rcases ih (fun index member => piece index (by simp [member]))
        tailEqual with ⟨tailSame, restEqual⟩
      refine ⟨?_, restEqual⟩
      intro index member
      rcases List.mem_cons.mp member with rfl | member
      · exact headSame
      · exact tailSame index member

/-! ### Words -/

/-- Read a number written in `width` little-endian bytes. -/
def readNumber (width : Nat) : Decoder Nat := do
  let bytes ← readBytes width
  pure (ofLittleEndian bytes)

theorem readNumber_consumes {width value : Nat}
    (small : value < 256 ^ width) :
    Consumes (readNumber width) (littleEndian width value) value := by
  have read := readBytes_consumes (littleEndian width value)
  rw [length_littleEndian] at read
  have same : ofLittleEndian (littleEndian width value) = value := by
    rw [ofLittleEndian_littleEndian, Nat.mod_eq_of_lt small]
  rw [← List.append_nil (littleEndian width value)]
  refine read.bind ?_
  rw [same]
  exact Consumes.pure value

theorem readNumber_ok {width value : Nat} {input rest : Bytes}
    (accepted : readNumber width input = .ok (value, rest)) :
    value < 256 ^ width ∧ input = littleEndian width value ++ rest := by
  rcases bind_ok accepted with ⟨bytes, middle, taken, returned⟩
  rcases readBytes_ok taken with ⟨sized, split⟩
  rcases pure_ok returned with ⟨rfl, rfl⟩
  subst sized
  refine ⟨ofLittleEndian_lt bytes, ?_⟩
  rw [littleEndian_ofLittleEndian]
  exact split

theorem two_pow_eight_mul (width : Nat) : 2 ^ (8 * width) = 256 ^ width := by
  rw [Nat.pow_mul]

/-- A word of `width` bytes, least significant byte first. -/
def word (width : Nat) : Format (BitVec (8 * width)) where
  encode value := littleEndian width value.toNat
  decode := do
    let number ← readNumber width
    pure (BitVec.ofNat _ number)
  Fits _ := True
  lossless := by
    intro value _
    have small : value.toNat < 256 ^ width := by
      rw [← two_pow_eight_mul]
      exact value.isLt
    rw [← List.append_nil (littleEndian width value.toNat)]
    refine (readNumber_consumes small).bind ?_
    rw [BitVec.ofNat_toNat, BitVec.setWidth_eq]
    exact Consumes.pure value

theorem word_canonical (width : Nat) : (word width).Canonical := by
  intro input value rest accepted
  rcases bind_ok accepted with ⟨number, middle, taken, returned⟩
  rcases readNumber_ok taken with ⟨small, split⟩
  rcases pure_ok returned with ⟨rfl, rfl⟩
  refine ⟨trivial, ?_⟩
  rw [← two_pow_eight_mul] at small
  change input = littleEndian width (BitVec.ofNat _ _).toNat ++ rest
  rw [BitVec.toNat_ofNat, Nat.mod_eq_of_lt small]
  exact split

@[simp]
theorem word_encode_length (width : Nat) (value : BitVec (8 * width)) :
    ((word width).encode value).length = width :=
  length_littleEndian width value.toNat

/-! ### Renaming and pairing -/

/-- Read and write a value through an equivalent representation. -/
def Format.through {α β : Type} (format : Format β) (view : α ≃ β) :
    Format α where
  encode value := format.encode (view value)
  decode := do
    let raw ← format.decode
    pure (view.symm raw)
  Fits value := format.Fits (view value)
  lossless := by
    intro value fits
    rw [← List.append_nil (format.encode (view value))]
    refine (format.lossless (view value) fits).bind ?_
    rw [view.symm_apply_apply]
    exact Consumes.pure value

theorem Format.Canonical.through {α β : Type} {format : Format β}
    (canonical : format.Canonical) (view : α ≃ β) :
    (format.through view).Canonical := by
  intro input value rest accepted
  rcases bind_ok accepted with ⟨raw, middle, read, returned⟩
  rcases pure_ok returned with ⟨rfl, rfl⟩
  rcases canonical input raw _ read with ⟨fits, split⟩
  simpa [Format.through] using And.intro fits split

/-- One value after the other. -/
def Format.pair {α β : Type} (first : Format α) (second : Format β) :
    Format (α × β) where
  encode value := first.encode value.1 ++ second.encode value.2
  decode := do
    let left ← first.decode
    let right ← second.decode
    pure (left, right)
  Fits value := first.Fits value.1 ∧ second.Fits value.2
  lossless := by
    intro value fits
    refine (first.lossless value.1 fits.1).bind ?_
    rw [← List.append_nil (second.encode value.2)]
    exact (second.lossless value.2 fits.2).bind (Consumes.pure _)

theorem Format.Canonical.pair {α β : Type} {first : Format α}
    {second : Format β} (firstCanonical : first.Canonical)
    (secondCanonical : second.Canonical) :
    (first.pair second).Canonical := by
  intro input value rest accepted
  rcases bind_ok accepted with ⟨left, middle, leftRead, continued⟩
  rcases bind_ok continued with ⟨right, final, rightRead, returned⟩
  rcases pure_ok returned with ⟨rfl, rfl⟩
  rcases firstCanonical _ _ _ leftRead with ⟨leftFits, leftSplit⟩
  rcases secondCanonical _ _ _ rightRead with ⟨rightFits, rightSplit⟩
  refine ⟨⟨leftFits, rightFits⟩, ?_⟩
  rw [leftSplit, rightSplit]
  simp [Format.pair]

/-! ### Length-prefixed values -/

/-- A byte string behind its length. -/
def Format.blob (count : Format Nat) : Format Bytes where
  encode bytes := count.encode bytes.length ++ bytes
  decode := do
    let size ← count.decode
    readBytes size
  Fits bytes := count.Fits bytes.length
  lossless := by
    intro bytes fits
    exact (count.lossless bytes.length fits).bind (readBytes_consumes bytes)

theorem Format.Canonical.blob {count : Format Nat}
    (canonical : count.Canonical) : (Format.blob count).Canonical := by
  intro input value rest accepted
  rcases bind_ok accepted with ⟨size, middle, sizeRead, taken⟩
  rcases canonical _ _ _ sizeRead with ⟨fits, split⟩
  rcases readBytes_ok taken with ⟨rfl, rfl⟩
  refine ⟨fits, ?_⟩
  rw [split]
  simp [Format.blob]

/-- Read `count` items one after the other. -/
def decodeMany {α : Type} (item : Decoder α) : Nat → Decoder (List α)
  | 0 => pure []
  | count + 1 => do
      let head ← item
      let tail ← decodeMany item count
      pure (head :: tail)

theorem decodeMany_consumes {α : Type} (item : Format α) (values : List α)
    (fits : ∀ value ∈ values, item.Fits value) :
    Consumes (decodeMany item.decode values.length)
      (values.flatMap item.encode) values := by
  induction values with
  | nil => exact Consumes.pure []
  | cons head tail ih =>
      have headRead := item.lossless head (fits head (by simp))
      have tailRead := ih (fun value member => fits value (by simp [member]))
      rw [List.flatMap_cons]
      refine headRead.bind ?_
      rw [← List.append_nil (tail.flatMap item.encode)]
      exact tailRead.bind (Consumes.pure _)

theorem decodeMany_ok {α : Type} {item : Format α}
    (canonical : item.Canonical) {count : Nat} {input rest : Bytes}
    {values : List α}
    (accepted : decodeMany item.decode count input = .ok (values, rest)) :
    values.length = count ∧ (∀ value ∈ values, item.Fits value) ∧
      input = values.flatMap item.encode ++ rest := by
  induction count generalizing input values with
  | zero =>
      rcases pure_ok accepted with ⟨rfl, rfl⟩
      simp
  | succ count ih =>
      rcases bind_ok accepted with ⟨head, middle, headRead, continued⟩
      rcases bind_ok continued with ⟨tail, final, tailRead, returned⟩
      rcases pure_ok returned with ⟨rfl, rfl⟩
      rcases canonical _ _ _ headRead with ⟨headFits, headSplit⟩
      rcases ih tailRead with ⟨rfl, tailFits, tailSplit⟩
      refine ⟨rfl, ?_, ?_⟩
      · intro value member
        rcases List.mem_cons.mp member with rfl | member
        · exact headFits
        · exact tailFits value member
      · rw [headSplit, tailSplit]
        simp

/-- A list behind its length. -/
def Format.list {α : Type} (count : Format Nat) (item : Format α) :
    Format (List α) where
  encode values := count.encode values.length ++ values.flatMap item.encode
  decode := do
    let size ← count.decode
    decodeMany item.decode size
  Fits values :=
    count.Fits values.length ∧ ∀ value ∈ values, item.Fits value
  lossless := by
    intro values fits
    exact (count.lossless values.length fits.1).bind
      (decodeMany_consumes item values fits.2)

theorem Format.Canonical.list {α : Type} {count : Format Nat}
    {item : Format α} (countCanonical : count.Canonical)
    (itemCanonical : item.Canonical) :
    (Format.list count item).Canonical := by
  intro input values rest accepted
  rcases bind_ok accepted with ⟨size, middle, sizeRead, continued⟩
  rcases countCanonical _ _ _ sizeRead with ⟨sizeFits, sizeSplit⟩
  rcases decodeMany_ok itemCanonical continued with ⟨rfl, itemsFit, itemsSplit⟩
  refine ⟨⟨sizeFits, itemsFit⟩, ?_⟩
  rw [sizeSplit, itemsSplit]
  simp [Format.list]

end PrivateDatagram.Library.ByteFormat
