import PrivateDatagram.Chainstate.CoinsRecord

/-!
# The round trip of coin records

An entry whose last output is unspent is read back from its record, with
nothing left of the bytes, as long as no counter of 32 bits wraps.  Each of
the three bounds is needed: a longer script loses its length, more mask bytes
lose their count, and with more outputs the mask is never measured.
-/

namespace PrivateDatagram.Chainstate.CoinsRoundTrip

open Library.ByteFormat Wire.Transaction Wire.VarInt Wire.Compressor Coins
  CoinsMask CoinsRecord

/--
What is written for an entry is read back as the entry, whatever stands behind
it, and the reader stops at its end.
-/
theorem coins_round_trip (keys : KeyLibrary) (curve : keys.Decompresses)
    (coins : CCoins) (storable : Storable coins) (fit : CountersFit coins) :
    ∃ bytes, serialize keys coins = some bytes ∧
      Consumes (unserialize keys) bytes coins :=
  unserialize_consumes curve storable fit

/-! ## An entry with a key -/

/-- The generator of the curve, as a key of 65 bytes. -/
def generator : Bytes :=
  [0x04,
    0x79, 0xbe, 0x66, 0x7e, 0xf9, 0xdc, 0xbb, 0xac, 0x55, 0xa0, 0x62, 0x95,
    0xce, 0x87, 0x0b, 0x07, 0x02, 0x9b, 0xfc, 0xdb, 0x2d, 0xce, 0x28, 0xd9,
    0x59, 0xf2, 0x81, 0x5b, 0x16, 0xf8, 0x17, 0x98,
    0x48, 0x3a, 0xda, 0x77, 0x26, 0xa3, 0xc4, 0x65, 0x5d, 0xa4, 0xfb, 0xfc,
    0x0e, 0x11, 0x08, 0xa8, 0xfd, 0x17, 0xb4, 0x48, 0xa6, 0x85, 0x54, 0x19,
    0x9c, 0x47, 0xd0, 0x8f, 0xfb, 0x10, 0xd4, 0xb8]

/-- The library on this key alone. -/
def generatorKeys : KeyLibrary where
  isFullyValid := fun key => key = generator
  decompress := fun short =>
    if short = compressedKey generator then some ⟨generator, rfl⟩ else none

theorem generatorKeys_decompresses : generatorKeys.Decompresses := by
  intro key _ _ valid
  have same : key = generator := of_decide_eq_true valid
  rw [same]
  simp [generatorKeys]

/-- The first output spent, a key behind it, and one output after nine more. -/
def minted : CCoins where
  fCoinBase := true
  fCoinStake := false
  vout := [nullTxOut, ⟨5000000000, 65 :: generator ++ [opCheckSig]⟩] ++
    List.replicate 9 nullTxOut ++ [⟨100, [0x51]⟩]
  nHeight := 120891
  nVersion := 1

theorem minted_storable : Storable minted := by
  refine ⟨by decide, by decide, by decide, by decide, ⟨100, [0x51]⟩, ?_⟩
  decide

theorem minted_fit : CountersFit minted := by
  refine ⟨by decide, ?_, by decide⟩
  intro nMaskSize nMaskCode calculated
  have sizes : calcMaskSize minted.vout = some (2, 1) := by decide
  rw [sizes] at calculated
  cases calculated
  decide

theorem coins_round_trip_minted :
    ∃ bytes, serialize generatorKeys minted = some bytes ∧
      Consumes (unserialize generatorKeys) bytes minted :=
  coins_round_trip generatorKeys generatorKeys_decompresses minted
    minted_storable minted_fit

/-! ## A script whose length is cut -/

/-- A library that finds no key valid. -/
def noKeys : KeyLibrary := ⟨fun _ => false, fun _ => none⟩

theorem noKeys_decompresses : noKeys.Decompresses := by
  intro key _ _ valid
  cases valid

/-- Outputs that are spent or of value zero, the last of them unspent. -/
theorem zero_storable {vout : List CTxOut}
    (zeros : ∀ txout ∈ vout, txout = nullTxOut ∨ txout.nValue = 0)
    (trimmed : Trimmed vout) : Storable ⟨false, false, vout, 0, 0⟩ where
  version := Int32.le_refl 0
  height := by
    show (0 : Int32) ≤ 0 ∧ (0 : Int32) < 2 ^ 27
    decide
  spent := by
    intro txout member null
    rcases zeros txout member with spent | zero
    · exact spent
    · have unspent : isNull txout = false := by
        rw [isNull, zero]
        rfl
      rw [unspent] at null
      cases null
  unspent := by
    intro txout member unspent
    rcases zeros txout member with rfl | zero
    · exact absurd unspent (by decide)
    · rw [zero]
      decide
  trimmed := trimmed

/-- One output of value zero. -/
def single (script : CScript) : CCoins :=
  ⟨false, false, [⟨0, script⟩], 0, 0⟩

theorem single_storable (script : CScript) : Storable (single script) := by
  apply zero_storable
  · intro txout member
    rw [List.mem_singleton.mp member]
    exact .inr rfl
  · exact ⟨⟨0, script⟩, rfl, rfl⟩

theorem single_sizes (script : CScript) :
    calcMaskSize (single script).vout = some (0, 0) := by
  have length : (single script).vout.length = 1 := rfl
  rw [calcMaskSize, length, if_pos (by decide)]
  rfl

theorem single_mask (script : CScript) :
    ∀ nMaskSize nMaskCode,
      calcMaskSize (single script).vout = some (nMaskSize, nMaskCode) →
        nMaskCode - (if firstTwo (single script) then 0 else 1) < 2 ^ 28 := by
  intro nMaskSize nMaskCode calculated
  rw [single_sizes] at calculated
  cases calculated
  split_ifs <;> decide

theorem single_serialize (keys : KeyLibrary) (script : CScript) :
    serialize keys (single script) =
      some ([0, 4, 0] ++ (serializeScript keys script ++ [0])) := by
  have zero : writeVarInt (0 : Nat) = [0] := writeVarInt_of_small (by decide)
  have four : writeVarInt (4 : Nat) = [4] := writeVarInt_of_small (by decide)
  have one : firstTwo (single script) = true := rfl
  have first : available (single script).vout 0 = true := rfl
  have second : available (single script).vout 1 = false := rfl
  have base : (single script).fCoinBase = false := rfl
  have stake : (single script).fCoinStake = false := rfl
  have code : (headerCode (single script) 0).toNat = 4 := by
    rw [headerCode, maskCount, headerFlags, one, first, second, base, stake]
    decide
  have outputs : (unspentOutputs (single script)).flatMap
      (serializeTxOut keys) = serializeTxOut keys ⟨0, script⟩ ++ [] := rfl
  have amount : (compressAmount (0 : Int64).toUInt64).toNat = 0 := rfl
  have version : (single script).nVersion.toInt = ((0 : Nat) : Int) := rfl
  have height : (single script).nHeight.toInt = ((0 : Nat) : Int) := rfl
  rw [serialize, single_sizes, Option.bind_some, one, Bool.true_or, if_pos rfl,
    recordBytes, version, height, code, outputs, serializeTxOut, amount, zero,
    four]
  simp [maskBytes]

/-- Zeros are no special form. -/
theorem compress_zeros {keys : KeyLibrary} {n : Nat} (long : 67 < n) :
    compress keys (List.replicate n 0) = none := by
  have length : (List.replicate n (0 : UInt8)).length = n :=
    List.length_replicate
  have key : isToKeyID (List.replicate n 0) = none := by
    rw [isToKeyID, if_neg]
    rintro ⟨size, _⟩
    omega
  have hash : isToScriptID (List.replicate n 0) = none := by
    rw [isToScriptID, if_neg]
    rintro ⟨size, _⟩
    omega
  have pubkey : isToPubKey keys (List.replicate n 0) = none := by
    rw [isToPubKey, if_neg, if_neg]
    · rintro ⟨size, _⟩
      omega
    · rintro ⟨size, _⟩
      omega
  simp only [compress, key, hash, pubkey, Option.bind_none]

/-- A script of that length is written without one. -/
theorem serializeScript_zeros {keys : KeyLibrary} {n : Nat}
    (cut : UInt32.ofNat (n + nSpecialScripts) = 0) (long : 67 < n) :
    serializeScript keys (List.replicate n 0) =
      0 :: List.replicate n 0 := by
  have length : (List.replicate n (0 : UInt8)).length = n :=
    List.length_replicate
  have zero : writeVarInt (0 : Nat) = [0] := writeVarInt_of_small (by decide)
  have size : (markedSize (List.replicate n 0)).toNat = 0 := by
    rw [markedSize, length, cut]
    rfl
  rw [serializeScript, compress_zeros long]
  simp only [size]
  rw [zero, List.singleton_append]

/-- The hash of all zeros. -/
def zeroHash : CScript :=
  [opDup, opHash160, 20] ++ (List.replicate 20 0 ++
    [opEqualVerify, opCheckSig])

theorem zeroHash_fit : CountersFit (single zeroHash) :=
  ⟨by decide, single_mask zeroHash, by decide⟩

theorem serializeScript_zeroHash :
    serializeScript noKeys zeroHash = 0 :: List.replicate 20 0 := by
  decide

/-- The reader takes the zeros for a hash. -/
theorem cut_script_not_read {n : Nat}
    (cut : UInt32.ofNat (n + nSpecialScripts) = 0) (long : 67 < n) :
    ¬ ∃ bytes, serialize noKeys (single (List.replicate n 0)) = some bytes ∧
      Consumes (unserialize noKeys) bytes (single (List.replicate n 0)) := by
  rintro ⟨bytes, written, read⟩
  rcases unserialize_consumes noKeys_decompresses (single_storable zeroHash)
    zeroHash_fit with ⟨other, otherWritten, otherRead⟩
  rw [single_serialize, serializeScript_zeros cut long] at written
  rw [single_serialize, serializeScript_zeroHash] at otherWritten
  have zeros : bytes = other ++ List.replicate (n - 20) 0 := by
    cases written
    cases otherWritten
    have split : n = 20 + (n - 20) := by omega
    have last : (0 : UInt8) :: List.replicate (n - 20) 0 =
        List.replicate (n - 20) 0 ++ [0] := by
      rw [← List.replicate_succ', List.replicate_succ]
    conv_lhs => rw [split, List.replicate_add]
    simp only [List.cons_append, List.append_assoc, List.nil_append]
    rw [last]
  have whole := read []
  have part := otherRead (List.replicate (n - 20) 0)
  rw [List.append_nil, zeros, part] at whole
  have same := congrArg (fun coins => coins.vout.map fun txout =>
    txout.scriptPubKey.length) (Prod.mk.inj (Except.ok.inj whole)).1
  simp only [single, List.map_cons, List.map_nil, List.length_replicate,
    List.cons.injEq, and_true] at same
  have size : zeroHash.length = 25 := by decide
  omega

/-! ## A count of mask bytes that is cut -/

/-- Outputs of value zero, all unspent. -/
def repeated (n : Nat) : CCoins :=
  ⟨false, false, List.replicate n ⟨0, []⟩, 0, 0⟩

theorem repeated_storable {n : Nat} (some' : 0 < n) :
    Storable (repeated n) := by
  apply zero_storable
  · intro txout member
    rw [List.eq_of_mem_replicate member]
    exact .inr rfl
  · refine ⟨⟨0, []⟩, ?_, rfl⟩
    rw [List.getLast?_replicate, if_neg (by omega)]

theorem repeated_available {n i : Nat} (inside : i < n) :
    available (repeated n).vout i = true := by
  apply (available_iff _ _).mpr
  refine ⟨⟨0, []⟩, ?_, rfl⟩
  show (List.replicate n _)[i]? = _
  rw [List.getElem?_replicate, if_pos inside]

/-- Every byte of the mask is used. -/
theorem repeated_sizes {count : Nat} (fits : 2 + 8 * count ≤ 2 ^ 32 - 6) :
    calcMaskSize (repeated (2 + 8 * count)).vout = some (count, count) := by
  have length : (repeated (2 + 8 * count)).vout.length = 2 + 8 * count :=
    List.length_replicate
  have rounds : (2 + 8 * count + 5) / 8 = count := by omega
  have used : ∀ b, b < count →
      byteUsed (repeated (2 + 8 * count)).vout b = true := by
    intro b less
    have here := byteUsed_of_available (by omega : 2 ≤ 2 + 8 * b)
      (repeated_available (by omega : 2 + 8 * b < 2 + 8 * count))
    have place : (2 + 8 * b - 2) / 8 = b := by omega
    rw [place] at here
    exact here
  have counted := counted_foldl (repeated (2 + 8 * count)).vout count
  rw [calcMaskSize, length, if_pos fits, rounds]
  generalize (List.range count).foldl
    (maskStep (repeated (2 + 8 * count)).vout) (0, 0) = sizes at counted
  have whole : sizes.1 = count := by
    apply Nat.le_antisymm counted.within
    apply Nat.le_of_not_lt
    intro less
    have unused := counted.behind sizes.1 (Nat.le_refl _) less
    rw [used _ less] at unused
    cases unused
  have all : sizes.2 = count := by
    rw [counted.count, whole, List.countP_eq_length.mpr, List.length_range]
    intro b member
    exact used b (List.mem_range.mp member)
  exact congrArg some (Prod.ext whole all)

theorem readOutputs_length {keys : KeyLibrary} {vAvail : List Bool}
    {vout : List CTxOut} {input rest : Bytes}
    (read : readOutputs keys vAvail input = .ok (vout, rest)) :
    vout.length = vAvail.length := by
  induction vAvail generalizing vout input rest with
  | nil =>
      rw [(pure_ok read).1]
      rfl
  | cons avail vAvail ih =>
      rw [readOutputs] at read
      split at read
      all_goals
        rcases bind_ok read with ⟨txout, middle, _, later⟩
        rcases bind_ok later with ⟨others, final, readOthers, returned⟩
        rw [(pure_ok returned).1, List.length_cons, ih readOthers,
          List.length_cons]

/-- A code that counts no byte of the mask leaves two outputs at most. -/
theorem length_le_two {keys : KeyLibrary} {coins : CCoins}
    {input rest : Bytes}
    (read : unserialize keys ([0, 12] ++ input) = .ok (coins, rest)) :
    coins.vout.length ≤ 2 := by
  have zero : writeVarInt (0 : Nat) = [0] := writeVarInt_of_small (by decide)
  have version := readVarInt_consumes 32 0 (by decide)
  have code := readVarInt_consumes 32 12 (by decide)
  have twelve : writeVarInt (12 : Nat) = [12] := writeVarInt_of_small (by decide)
  rw [zero] at version
  rw [twelve] at code
  rw [unserialize, List.cons_append, ← List.singleton_append, version.run,
    code.run] at read
  rcases bind_ok read with ⟨vAvail, middle, readFlags, later⟩
  rcases bind_ok later with ⟨vout, behind, readOuts, last⟩
  rcases bind_ok last with ⟨nHeight, final, _, returned⟩
  have flags : vAvail.length = 2 := by
    rw [readAvail] at readFlags
    rcases bind_ok readFlags with ⟨mask, _, readBytes, pair⟩
    have none : 12 / 16 + (if 12 &&& 12 ≠ 0 then 0 else 1) = 0 := by decide
    rw [none, readMask] at readBytes
    cases readBytes
    rw [(pure_ok pair).1]
    rfl
  rw [(pure_ok returned).1, CCoins.cleanup]
  have shorter := (List.rdropWhile_prefix isNull vout).length_le
  rw [readOutputs_length readOuts, flags] at shorter
  exact shorter

/-- The reader takes the mask for outputs. -/
theorem cut_mask_not_read {count : Nat} (fits : 2 + 8 * count ≤ 2 ^ 32 - 6)
    (cut : 16 * UInt32.ofNat count = 0) (some' : 0 < count) :
    ¬ ∃ bytes, serialize noKeys (repeated (2 + 8 * count)) = some bytes ∧
      Consumes (unserialize noKeys) bytes (repeated (2 + 8 * count)) := by
  rintro ⟨bytes, written, read⟩
  have first := repeated_available (by omega : 0 < 2 + 8 * count)
  have second := repeated_available (by omega : 1 < 2 + 8 * count)
  have two : firstTwo (repeated (2 + 8 * count)) = true := by
    rw [firstTwo, first, Bool.true_or]
  have base : (repeated (2 + 8 * count)).fCoinBase = false := rfl
  have stake : (repeated (2 + 8 * count)).fCoinStake = false := rfl
  have code : (headerCode (repeated (2 + 8 * count)) count).toNat = 12 := by
    rw [headerCode, maskCount, headerFlags, two, first, second, base, stake,
      if_pos rfl, UInt32.sub_zero, cut]
    decide
  have zero : writeVarInt (0 : Nat) = [0] := writeVarInt_of_small (by decide)
  have twelve : writeVarInt (12 : Nat) = [12] := writeVarInt_of_small (by decide)
  have version : (repeated (2 + 8 * count)).nVersion.toInt =
      ((0 : Nat) : Int) := rfl
  rw [serialize, repeated_sizes fits, Option.bind_some, two, Bool.true_or,
    if_pos rfl, recordBytes, version, code, zero, twelve] at written
  have whole := read []
  rw [List.append_nil, ← Option.some.inj written, ← List.append_assoc]
    at whole
  have few := length_le_two whole
  have length : (repeated (2 + 8 * count)).vout.length = 2 + 8 * count :=
    List.length_replicate
  omega

/-! ## Outputs that are not counted -/

/-- Spent outputs in front of one that is not. -/
def behindSpent (n : Nat) : CCoins :=
  ⟨false, false, List.replicate n nullTxOut ++ [⟨0, []⟩], 0, 0⟩

theorem behindSpent_storable (n : Nat) : Storable (behindSpent n) := by
  apply zero_storable
  · intro txout member
    rcases List.mem_append.mp member with spent | last
    · exact .inl (List.eq_of_mem_replicate spent)
    · rw [List.mem_singleton.mp last]
      exact .inr rfl
  · exact ⟨⟨0, []⟩, List.getLast?_concat, rfl⟩

theorem behindSpent_sizes {n : Nat} (many : 2 ^ 32 - 6 ≤ n) :
    calcMaskSize (behindSpent n).vout = none := by
  have length : (behindSpent n).vout.length = n + 1 := by
    show (List.replicate n nullTxOut ++ [_]).length = n + 1
    rw [List.length_append, List.length_replicate, List.length_singleton]
  rw [calcMaskSize, length, if_neg (by omega)]

/-- Without any one of the three bounds an entry is not read back. -/
theorem coins_counters_wrap :
    (¬ ∀ (keys : KeyLibrary) (coins : CCoins), keys.Decompresses →
      Storable coins → coins.vout.length ≤ 2 ^ 32 - 6 →
      (∀ nMaskSize nMaskCode,
        calcMaskSize coins.vout = some (nMaskSize, nMaskCode) →
          nMaskCode - (if firstTwo coins then 0 else 1) < 2 ^ 28) →
        ∃ bytes, serialize keys coins = some bytes ∧
          Consumes (unserialize keys) bytes coins) ∧
    (¬ ∀ (keys : KeyLibrary) (coins : CCoins), keys.Decompresses →
      Storable coins → coins.vout.length ≤ 2 ^ 32 - 6 →
      (∀ txout ∈ coins.vout,
        txout.scriptPubKey.length + nSpecialScripts < 2 ^ 32) →
        ∃ bytes, serialize keys coins = some bytes ∧
          Consumes (unserialize keys) bytes coins) ∧
    ¬ ∀ (keys : KeyLibrary) (coins : CCoins), keys.Decompresses →
      Storable coins →
      (∀ nMaskSize nMaskCode,
        calcMaskSize coins.vout = some (nMaskSize, nMaskCode) →
          nMaskCode - (if firstTwo coins then 0 else 1) < 2 ^ 28) →
      (∀ txout ∈ coins.vout,
        txout.scriptPubKey.length + nSpecialScripts < 2 ^ 32) →
        ∃ bytes, serialize keys coins = some bytes ∧
          Consumes (unserialize keys) bytes coins := by
  refine ⟨fun claim => ?_, fun claim => ?_, fun claim => ?_⟩
  · have long : 67 < 2 ^ 32 - 6 := by decide
    have cut : UInt32.ofNat (2 ^ 32 - 6 + nSpecialScripts) = 0 := by decide
    apply cut_script_not_read cut long
    have few : 1 ≤ 2 ^ 32 - 6 := by decide
    exact claim noKeys _ noKeys_decompresses (single_storable _) few
      (single_mask _)
  · have fits : 2 + 8 * 2 ^ 28 ≤ 2 ^ 32 - 6 := by decide
    have cut : 16 * UInt32.ofNat (2 ^ 28) = 0 := by decide
    apply cut_mask_not_read fits cut (by decide)
    apply claim noKeys _ noKeys_decompresses (repeated_storable (by omega))
    · rw [repeated, List.length_replicate]
      exact fits
    · intro txout member
      rw [List.eq_of_mem_replicate member]
      decide
  · rcases claim noKeys (behindSpent (2 ^ 32 - 6)) noKeys_decompresses
      (behindSpent_storable _) (by
        intro nMaskSize nMaskCode calculated
        rw [behindSpent_sizes (Nat.le_refl _)] at calculated
        cases calculated) (by
        intro txout member
        rcases List.mem_append.mp member with spent | last
        · rw [List.eq_of_mem_replicate spent]
          decide
        · rw [List.mem_singleton.mp last]
          decide) with ⟨bytes, written, _⟩
    rw [serialize, behindSpent_sizes (Nat.le_refl _)] at written
    cases written

end PrivateDatagram.Chainstate.CoinsRoundTrip
