import PrivateDatagram.Chainstate.CoinsMask
import PrivateDatagram.Validation.CheckTransaction
import PrivateDatagram.Wire.Compressor

/-!
# Coin records

The coin database keeps a `CCoins` as its version, a header code, the mask of
the unspent outputs, these outputs in compressed form and the height.  The
header code holds four flags in its low bits and above them the count of the
mask bytes that are not zero, one less when neither of the first two outputs
is unspent, since there is such a byte then.

The counters of the source have 32 bits.  A script of nearly `2 ^ 32` bytes or
`2 ^ 28` mask bytes wrap them.
-/

namespace PrivateDatagram.Chainstate.CoinsRecord

open Library.ByteFormat Wire.Transaction Wire.VarInt Wire.Compressor
  Validation.CheckTransaction Coins CoinsMask

/-! ## Writing -/

/-- The four flags of the header code. -/
def headerFlags (coins : CCoins) : UInt32 :=
  (if coins.fCoinBase then 1 else 0) + (if coins.fCoinStake then 2 else 0) +
    (if available coins.vout 0 then 4 else 0) +
    (if available coins.vout 1 then 8 else 0)

/-- Whether `fFirst || fSecond`. -/
def firstTwo (coins : CCoins) : Bool :=
  available coins.vout 0 || available coins.vout 1

/-- `nMaskCode - (fFirst || fSecond ? 0 : 1)`, in 32 bits. -/
def maskCount (coins : CCoins) (nMaskCode : Nat) : UInt32 :=
  UInt32.ofNat nMaskCode - if firstTwo coins then 0 else 1

/-- `nCode` of `Serialize`. -/
def headerCode (coins : CCoins) (nMaskCode : Nat) : UInt32 :=
  16 * maskCount coins nMaskCode + headerFlags coins

/-- The outputs that are not null. -/
def unspentOutputs (coins : CCoins) : List CTxOut :=
  coins.vout.filter fun txout => !isNull txout

/-- What `Serialize` writes once the mask is measured. -/
def recordBytes (keys : KeyLibrary) (coins : CCoins)
    (nMaskSize nMaskCode : Nat) : Bytes :=
  writeVarInt coins.nVersion.toInt ++
    (writeVarInt (headerCode coins nMaskCode).toNat ++
      (maskBytes coins.vout nMaskSize ++
        ((unspentOutputs coins).flatMap (serializeTxOut keys) ++
          writeVarInt coins.nHeight.toInt)))

/-- `Serialize`; none is a failed assertion or a loop without end. -/
def serialize (keys : KeyLibrary) (coins : CCoins) : Option Bytes :=
  (calcMaskSize coins.vout).bind fun sizes =>
    if firstTwo coins || sizes.2 ≠ 0 then
      some (recordBytes keys coins sizes.1 sizes.2)
    else none

/-! ## Reading -/

/-- The loop of `Unserialize` over `vAvail`. -/
def readOutputs (keys : KeyLibrary) : List Bool → Decoder (List CTxOut)
  | [] => pure []
  | avail :: vAvail => do
      let txout ← if avail then unserializeTxOut keys else pure nullTxOut
      let vout ← readOutputs keys vAvail
      pure (txout :: vout)

/-- `vAvail`, the flags of the first two outputs before those of the mask. -/
def readAvail (nCode : Nat) : Decoder (List Bool) := do
  let nMaskCode := nCode / 16 + if nCode &&& 12 ≠ 0 then 0 else 1
  let mask ← readMask nMaskCode
  pure (decide (nCode &&& 4 ≠ 0) :: decide (nCode &&& 8 ≠ 0) :: mask)

def unserialize (keys : KeyLibrary) : Decoder CCoins := do
  let nVersion ← readVarInt 32
  let nCode ← readVarInt 32
  let vAvail ← readAvail nCode
  let vout ← readOutputs keys vAvail
  let nHeight ← readVarInt 32
  pure (CCoins.mk (nCode &&& 1 ≠ 0) (nCode &&& 2 ≠ 0) vout
    (Int32.ofNat nHeight) (Int32.ofNat nVersion)).cleanup

/-! ## The header code -/

/-- A mask sees only the bits below its width. -/
theorem and_low {mask width : Nat} (small : mask < 2 ^ width) (n : Nat) :
    n &&& mask = n % 2 ^ width &&& mask := by
  have cut : (n &&& mask) % 2 ^ width = n % 2 ^ width &&& mask % 2 ^ width :=
    Nat.and_mod_two_pow
  have below : n &&& mask < 2 ^ width :=
    Nat.lt_of_le_of_lt Nat.and_le_right small
  rw [Nat.mod_eq_of_lt below, Nat.mod_eq_of_lt small] at cut
  exact cut

/-- The low four bits of a header code are those of its flags. -/
theorem and_header (count flags mask : Nat) (smallFlags : flags < 16)
    (smallMask : mask < 16) :
    (16 * count + flags) &&& mask = flags &&& mask := by
  have bits : ∀ n, n &&& mask = n % 2 ^ 4 &&& mask := and_low smallMask
  have low : (16 * count + flags) % 2 ^ 4 = flags := by omega
  rw [bits, low]

/-- What the reader takes from a header code. -/
structure Header (nCode : Nat) (coins : CCoins) (nMaskCode : Nat) : Prop where
  coinBase : decide (nCode &&& 1 ≠ 0) = coins.fCoinBase
  coinStake : decide (nCode &&& 2 ≠ 0) = coins.fCoinStake
  first : decide (nCode &&& 4 ≠ 0) = available coins.vout 0
  second : decide (nCode &&& 8 ≠ 0) = available coins.vout 1
  count : (nCode / 16 + if nCode &&& 12 ≠ 0 then 0 else 1) = nMaskCode

theorem toNat_maskCount {coins : CCoins} {nMaskCode : Nat}
    (some' : firstTwo coins = true ∨ nMaskCode ≠ 0)
    (room : nMaskCode - (if firstTwo coins then 0 else 1) < 2 ^ 28) :
    (maskCount coins nMaskCode).toNat =
      nMaskCode - if firstTwo coins then 0 else 1 := by
  have number : (UInt32.ofNat nMaskCode).toNat = nMaskCode := by
    rw [UInt32.toNat_ofNat']
    split_ifs at room <;> omega
  rw [maskCount]
  split_ifs with two
  · rw [UInt32.sub_zero, number, Nat.sub_zero]
  · have positive : nMaskCode ≠ 0 := some'.resolve_left two
    have one : (1 : UInt32).toNat = 1 := rfl
    rw [UInt32.toNat_sub_of_le, number, one]
    rw [UInt32.le_iff_toNat_le, number, one]
    omega

/-- Each flag has a bit of its own. -/
theorem headerFlags_bits (coins : CCoins) :
    (headerFlags coins).toNat < 16 ∧
      (decide ((headerFlags coins).toNat &&& 1 ≠ 0) = coins.fCoinBase ∧
        decide ((headerFlags coins).toNat &&& 2 ≠ 0) = coins.fCoinStake) ∧
      (decide ((headerFlags coins).toNat &&& 4 ≠ 0) = available coins.vout 0 ∧
        decide ((headerFlags coins).toNat &&& 8 ≠ 0) =
          available coins.vout 1) ∧
      ((headerFlags coins).toNat &&& 12 ≠ 0 ↔ firstTwo coins = true) := by
  rw [headerFlags, firstTwo]
  generalize coins.fCoinBase = one
  generalize coins.fCoinStake = two
  generalize available coins.vout 0 = four
  generalize available coins.vout 1 = eight
  revert one two four eight
  decide

theorem toNat_headerCode {coins : CCoins} {nMaskCode : Nat}
    (some' : firstTwo coins = true ∨ nMaskCode ≠ 0)
    (room : nMaskCode - (if firstTwo coins then 0 else 1) < 2 ^ 28) :
    (headerCode coins nMaskCode).toNat =
      16 * (nMaskCode - if firstTwo coins then 0 else 1) +
        (headerFlags coins).toNat := by
  have sixteen : (16 : UInt32).toNat = 16 := rfl
  have small := (headerFlags_bits coins).1
  rw [headerCode, UInt32.toNat_add, UInt32.toNat_mul,
    toNat_maskCount some' room, sixteen]
  omega

/-- The code keeps its parts while the count stays below 28 bits. -/
theorem headerCode_header {coins : CCoins} {nMaskCode : Nat}
    (some' : firstTwo coins = true ∨ nMaskCode ≠ 0)
    (room : nMaskCode - (if firstTwo coins then 0 else 1) < 2 ^ 28) :
    Header (headerCode coins nMaskCode).toNat coins nMaskCode := by
  rcases headerFlags_bits coins with
    ⟨small, ⟨base, stake⟩, ⟨first, second⟩, either⟩
  have code := toNat_headerCode some' room
  have bits : ∀ mask, mask < 16 → (headerCode coins nMaskCode).toNat &&& mask =
      (headerFlags coins).toNat &&& mask := by
    intro mask smallMask
    rw [code, and_header _ _ _ small smallMask]
  refine ⟨?_, ?_, ?_, ?_, ?_⟩
  · rw [bits 1 (by decide), base]
  · rw [bits 2 (by decide), stake]
  · rw [bits 4 (by decide), first]
  · rw [bits 8 (by decide), second]
  · have high : (headerCode coins nMaskCode).toNat / 16 =
        nMaskCode - if firstTwo coins then 0 else 1 := by
      rw [code]
      omega
    rw [bits 12 (by decide), high]
    by_cases two : firstTwo coins = true
    · rw [if_pos two, if_pos (either.mpr two), Nat.sub_zero, Nat.add_zero]
    · have positive : nMaskCode ≠ 0 := some'.resolve_left two
      rw [if_neg two, if_neg (mt either.mp two)]
      omega

/-! ## The outputs and their flags -/

/-- The outputs as the reader has them before `Cleanup`. -/
def paddedOutputs (vout : List CTxOut) (nMaskSize : Nat) : List CTxOut :=
  vout ++ List.replicate (2 + 8 * nMaskSize - vout.length) nullTxOut

/-- The last output is unspent. -/
def Trimmed (vout : List CTxOut) : Prop :=
  ∃ last, vout.getLast? = some last ∧ isNull last = false

theorem available_iff (vout : List CTxOut) (i : Nat) :
    available vout i = true ↔
      ∃ txout, vout[i]? = some txout ∧ isNull txout = false := by
  rw [available, Option.any_eq_true]
  simp only [Bool.not_eq_true']

theorem Trimmed.available {vout : List CTxOut} (trimmed : Trimmed vout) :
    0 < vout.length ∧ available vout (vout.length - 1) = true := by
  rcases trimmed with ⟨last, found, unspent⟩
  have nonempty : vout ≠ [] := by
    rintro rfl
    cases found
  refine ⟨List.length_pos_iff.mpr nonempty, ?_⟩
  rw [List.getLast?_eq_getElem?] at found
  exact (available_iff vout _).mpr ⟨last, found, unspent⟩

/-- An unspent output behind the first two uses its byte. -/
theorem byteUsed_of_available {vout : List CTxOut} {i : Nat} (behind : 2 ≤ i)
    (unspent : available vout i = true) :
    byteUsed vout ((i - 2) / 8) = true := by
  rw [byteUsed, List.any_eq_true]
  refine ⟨(i - 2) % 8, List.mem_range.mpr (Nat.mod_lt _ (by decide)), ?_⟩
  have place : 2 + (i - 2) / 8 * 8 + (i - 2) % 8 = i := by omega
  rw [place]
  exact unspent

theorem length_le_mask {vout : List CTxOut} {nMaskSize nMaskCode : Nat}
    (trimmed : Trimmed vout)
    (counted : Counted vout ((vout.length + 5) / 8) (nMaskSize, nMaskCode)) :
    vout.length ≤ 2 + 8 * nMaskSize := by
  rcases trimmed.available with ⟨positive, unspent⟩
  apply Nat.le_of_not_lt
  intro longer
  have used := byteUsed_of_available (by omega) unspent
  rw [counted.behind _ (by show nMaskSize ≤ _; omega) (by omega)] at used
  cases used

/-- The assertion of `Serialize`. -/
theorem some_available {coins : CCoins} {nMaskSize nMaskCode : Nat}
    (trimmed : Trimmed coins.vout)
    (counted : Counted coins.vout ((coins.vout.length + 5) / 8)
      (nMaskSize, nMaskCode)) :
    firstTwo coins = true ∨ nMaskCode ≠ 0 := by
  rcases trimmed.available with ⟨positive, unspent⟩
  have room := length_le_mask trimmed counted
  rcases Nat.lt_or_ge 2 coins.vout.length with more | few
  · right
    have used : byteUsed coins.vout (nMaskSize - 1) = true :=
      counted.last (by show nMaskSize ≠ 0; omega)
    have count : nMaskCode =
        (List.range nMaskSize).countP (byteUsed coins.vout) := counted.count
    rw [count, Ne, List.countP_eq_zero]
    intro none
    exact none _ (List.mem_range.mpr (by omega)) used
  · left
    rw [firstTwo, Bool.or_eq_true]
    have two : coins.vout.length - 1 = 0 ∨ coins.vout.length - 1 = 1 := by
      omega
    rcases two with zero | one
    · exact .inl (zero ▸ unspent)
    · exact .inr (one ▸ unspent)

/-- Chunks of eight in a row are one range. -/
theorem flatMap_range_eight (flag : Nat → Bool) (n : Nat) :
    (List.range n).flatMap (fun b =>
        (List.range 8).map fun p => flag (b * 8 + p)) =
      (List.range (8 * n)).map flag := by
  induction n with
  | zero => rfl
  | succ n ih =>
      have next : 8 * (n + 1) = 8 * n + 8 := Nat.mul_succ 8 n
      rw [List.range_succ (n := n), List.flatMap_append, ih,
        List.flatMap_singleton, next, List.range_add, List.map_append,
        List.map_map]
      congr 1
      apply List.map_congr_left
      intro p _
      show flag (n * 8 + p) = flag (8 * n + p)
      rw [Nat.mul_comm]

theorem map_padded (vout : List CTxOut) (nMaskSize : Nat) :
    (paddedOutputs vout nMaskSize).map (fun txout => !isNull txout) =
      (List.range (paddedOutputs vout nMaskSize).length).map
        (available vout) := by
  apply List.ext_getElem
  · rw [List.length_map, List.length_map, List.length_range]
  · intro i left right
    rw [List.getElem_map, List.getElem_map, List.getElem_range]
    simp only [paddedOutputs]
    rcases Nat.lt_or_ge i vout.length with inside | outside
    · rw [List.getElem_append_left inside, CoinsMask.available,
        List.getElem?_eq_getElem inside]
      rfl
    · rw [List.getElem_append_right outside, List.getElem_replicate,
        CoinsMask.available, List.getElem?_eq_none outside]
      rfl

/-- The flags of the header code and of the mask are those of the outputs. -/
theorem flags_padded {vout : List CTxOut} {nMaskSize : Nat}
    (room : vout.length ≤ 2 + 8 * nMaskSize) :
    available vout 0 :: available vout 1 ::
        (maskBytes vout nMaskSize).flatMap byteFlags =
      (paddedOutputs vout nMaskSize).map fun txout => !isNull txout := by
  have length : (paddedOutputs vout nMaskSize).length = 2 + 8 * nMaskSize := by
    rw [paddedOutputs, List.length_append, List.length_replicate]
    omega
  have bytes : (maskBytes vout nMaskSize).flatMap byteFlags =
      (List.range nMaskSize).flatMap fun b =>
        (List.range 8).map fun p => available vout (2 + (b * 8 + p)) := by
    rw [maskBytes, List.flatMap_map]
    congr 1
    funext b
    rw [chAvail, byteFlags_packByte]
    simp only [Nat.add_assoc]
  have two : List.range 2 = [0, 1] := rfl
  rw [map_padded, length, List.range_add, List.map_append, two, List.map_map,
    bytes, flatMap_range_eight fun i => available vout (2 + i)]
  rfl

theorem cleanup_padded {vout : List CTxOut} (trimmed : Trimmed vout)
    (nMaskSize : Nat) :
    (paddedOutputs vout nMaskSize).rdropWhile isNull = vout := by
  rw [paddedOutputs]
  generalize 2 + 8 * nMaskSize - vout.length = spent
  induction spent with
  | zero =>
      rw [List.replicate_zero, List.append_nil, List.rdropWhile_eq_self_iff]
      intro nonempty null
      rcases trimmed with ⟨last, found, unspent⟩
      rw [List.getLast?_eq_some_getLast nonempty] at found
      cases found
      rw [null] at unspent
      cases unspent
  | succ spent ih =>
      rw [List.replicate_succ', ← List.append_assoc,
        List.rdropWhile_concat_pos _ _ _ (by decide), ih]

/-- The padding is null and adds no bytes. -/
theorem filter_padded (vout : List CTxOut) (nMaskSize : Nat) :
    (paddedOutputs vout nMaskSize).filter (fun txout => !isNull txout) =
      vout.filter fun txout => !isNull txout := by
  have spent : (List.replicate (2 + 8 * nMaskSize - vout.length)
      nullTxOut).filter (fun txout => !isNull txout) = [] := by
    rw [List.filter_eq_nil_iff]
    intro txout member
    rw [List.eq_of_mem_replicate member]
    decide
  rw [paddedOutputs, List.filter_append, spent, List.append_nil]

/-- The flags lead through the outputs, the spent ones without bytes. -/
theorem readOutputs_consumes {keys : KeyLibrary} (vout : List CTxOut)
    (spent : ∀ txout ∈ vout, isNull txout = true → txout = nullTxOut)
    (unspent : ∀ txout ∈ vout, isNull txout = false →
      Consumes (unserializeTxOut keys) (serializeTxOut keys txout) txout) :
    Consumes (readOutputs keys (vout.map fun txout => !isNull txout))
      ((vout.filter fun txout => !isNull txout).flatMap (serializeTxOut keys))
      vout := by
  induction vout with
  | nil => exact Consumes.pure []
  | cons txout vout ih =>
      have later := ih (fun other member => spent other (by simp [member]))
        (fun other member => unspent other (by simp [member]))
      have tail : Consumes (readOutputs keys (vout.map fun txout =>
            !isNull txout) >>= fun rest => pure (txout :: rest))
          ((vout.filter fun txout => !isNull txout).flatMap
            (serializeTxOut keys)) (txout :: vout) := by
        rw [← List.append_nil (List.flatMap _ _)]
        exact later.bind (Consumes.pure _)
      rw [List.map_cons, readOutputs]
      cases null : isNull txout with
      | true =>
          have same := spent txout (by simp) null
          rw [List.filter_cons_of_neg (by simp [null]), ← List.nil_append
            (List.flatMap _ _)]
          apply (Consumes.pure nullTxOut).bind
          rw [← same]
          exact tail
      | false =>
          rw [List.filter_cons_of_pos (by simp [null]), List.flatMap_cons]
          exact (unspent txout (by simp) null).bind tail

/-! ## The round trip -/

/-- The entries that the database is asked to keep. -/
structure Storable (coins : CCoins) : Prop where
  version : 0 ≤ coins.nVersion
  height : 0 ≤ coins.nHeight ∧ coins.nHeight < 2 ^ 27
  spent : ∀ txout ∈ coins.vout, isNull txout = true → txout = nullTxOut
  unspent : ∀ txout ∈ coins.vout, isNull txout = false →
    0 ≤ txout.nValue ∧ txout.nValue ≤ maxMoneyOut
  trimmed : Trimmed coins.vout

/-- No counter of 32 bits wraps. -/
structure CountersFit (coins : CCoins) : Prop where
  outputs : coins.vout.length ≤ 2 ^ 32 - 6
  mask : ∀ nMaskSize nMaskCode,
    calcMaskSize coins.vout = some (nMaskSize, nMaskCode) →
      nMaskCode - (if firstTwo coins then 0 else 1) < 2 ^ 28
  scripts : ∀ txout ∈ coins.vout,
    txout.scriptPubKey.length + nSpecialScripts < 2 ^ 32

theorem readVarInt_int32 {n : Int32} (notNegative : 0 ≤ n) :
    Consumes (readVarInt 32) (writeVarInt n.toInt) n.toNatClampNeg := by
  have number : n.toInt = (n.toNatClampNeg : Int) := by
    have positive : 0 ≤ n.toInt := Int32.le_iff_toInt_le.mp notNegative
    exact (Int.toNat_of_nonneg positive).symm
  rw [number]
  exact readVarInt_consumes 32 _
    (Nat.lt_trans n.toNatClampNeg_lt (by decide))

/-- The flags of the outputs are read from the code and the mask. -/
theorem readAvail_consumes {coins : CCoins} {nCode nMaskSize nMaskCode : Nat}
    (header : Header nCode coins nMaskCode)
    (counted : Counted coins.vout ((coins.vout.length + 5) / 8)
      (nMaskSize, nMaskCode))
    (room : coins.vout.length ≤ 2 + 8 * nMaskSize) :
    Consumes (readAvail nCode) (maskBytes coins.vout nMaskSize)
      ((paddedOutputs coins.vout nMaskSize).map fun txout =>
        !isNull txout) := by
  have count : (maskBytes coins.vout nMaskSize).countP (· ≠ 0) = nMaskCode := by
    have counts : nMaskCode =
        (List.range nMaskSize).countP (byteUsed coins.vout) := counted.count
    rw [counts, maskBytes, List.countP_map]
    congr 1
    funext b
    rw [Bool.eq_iff_iff]
    simp only [Function.comp_apply, decide_eq_true_iff]
    exact chAvail_ne_zero_iff coins.vout b
  have ended : ∀ chAvail ∈ (maskBytes coins.vout nMaskSize).getLast?,
      chAvail ≠ 0 := by
    intro last found
    rw [maskBytes, List.getLast?_map, Option.mem_def,
      Option.map_eq_some_iff] at found
    rcases found with ⟨b, isLast, rfl⟩
    rw [List.getLast?_range] at isLast
    split_ifs at isLast with nonzero
    cases isLast
    exact (chAvail_ne_zero_iff coins.vout _).mpr (counted.last nonzero)
  have mask := readMask_consumes _ ended
  rw [count] at mask
  rw [← List.append_nil (maskBytes coins.vout nMaskSize), readAvail,
    header.count]
  apply mask.bind
  rw [header.first, header.second, flags_padded room]
  exact Consumes.pure _

theorem mem_padded {vout : List CTxOut} {nMaskSize : Nat} {txout : CTxOut}
    (member : txout ∈ paddedOutputs vout nMaskSize) :
    txout ∈ vout ∨ txout = nullTxOut := by
  rw [paddedOutputs, List.mem_append] at member
  exact member.imp_right List.eq_of_mem_replicate

/-- The outputs and the padding behind them. -/
theorem readOutputs_padded {keys : KeyLibrary} (curve : keys.Decompresses)
    {coins : CCoins} (storable : Storable coins) (fit : CountersFit coins)
    (nMaskSize : Nat) :
    Consumes
      (readOutputs keys ((paddedOutputs coins.vout nMaskSize).map
        fun txout => !isNull txout))
      ((unspentOutputs coins).flatMap (serializeTxOut keys))
      (paddedOutputs coins.vout nMaskSize) := by
  rw [unspentOutputs, ← filter_padded coins.vout nMaskSize]
  apply readOutputs_consumes
  · intro txout member null
    rcases mem_padded member with inside | padding
    · exact storable.spent txout inside null
    · exact padding
  · intro txout member unspent
    rcases mem_padded member with inside | rfl
    · rcases storable.unspent txout inside unspent with ⟨notNegative, most⟩
      have bounded := Int64.le_iff_toInt_le.mp most
      rw [toInt_maxMoneyOut] at bounded
      exact unserializeTxOut_consumes curve txout notNegative (by omega)
        (fit.scripts txout inside)
    · exact absurd unspent (by decide)

/-- The record of an entry is read back as the entry. -/
theorem unserialize_consumes {keys : KeyLibrary} (curve : keys.Decompresses)
    {coins : CCoins} (storable : Storable coins) (fit : CountersFit coins) :
    ∃ bytes, serialize keys coins = some bytes ∧
      Consumes (unserialize keys) bytes coins := by
  have calculated : ∃ sizes, calcMaskSize coins.vout = some sizes := by
    rw [calcMaskSize, if_pos fit.outputs]
    exact ⟨_, rfl⟩
  rcases calculated with ⟨⟨nMaskSize, nMaskCode⟩, calculated⟩
  have counted := (calcMaskSize_eq calculated).2
  have room := length_le_mask storable.trimmed counted
  have some' := some_available storable.trimmed counted
  have header := headerCode_header some' (fit.mask _ _ calculated)
  have asserted : (firstTwo coins || decide (nMaskCode ≠ 0)) = true := by
    rw [Bool.or_eq_true, decide_eq_true_iff]
    exact some'
  have outputs := readOutputs_padded curve storable fit nMaskSize
  refine ⟨recordBytes keys coins nMaskSize nMaskCode, ?_, ?_⟩
  · rw [serialize, calculated, Option.bind_some, if_pos asserted]
  apply (readVarInt_int32 storable.version).bind
  apply (readVarInt_consumes 32 _ (headerCode coins nMaskCode).toNat_lt).bind
  apply (readAvail_consumes header counted room).bind
  apply outputs.bind
  rw [← List.append_nil (writeVarInt coins.nHeight.toInt)]
  apply (readVarInt_int32 storable.height.1).bind
  rw [header.coinBase, header.coinStake,
    Int32.ofNat_toNatClampNeg _ storable.version,
    Int32.ofNat_toNatClampNeg _ storable.height.1, CCoins.cleanup,
    cleanup_padded storable.trimmed]
  exact Consumes.pure coins

end PrivateDatagram.Chainstate.CoinsRecord
