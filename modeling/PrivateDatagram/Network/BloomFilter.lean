import PrivateDatagram.Library.BitPacking
import PrivateDatagram.Library.MembershipFilter
import PrivateDatagram.Script.Standard

/-!
# Bloom filters

A peer sends a filter, and we tell it about the transactions that match.  The
filter is an array of bits and two flags that answer for a full and for an
empty array without looking at it.  A match may add to the filter while it is
being asked.

`Hash` divides by the number of bits, and its result is an index into the
array; both can fail, as can `Solver`.
-/

namespace PrivateDatagram.Network.BloomFilter

open Library.ByteFormat Library.BitPacking Library.MembershipFilter
  Wire.Serialize Wire.Transaction Script.Instructions Script.Building
  Script.Standard

/-! ## MurmurHash3 -/

def rotl32 (x r : UInt32) : UInt32 :=
  (x <<< r) ||| (x >>> (32 - r))

/-- What is done to a block before it goes into the hash. -/
def mixBlock (k1 : UInt32) : UInt32 :=
  rotl32 (k1 * 0xcc9e2d51) 15 * 0x1b873593

/-- The body: the hash of the blocks of four bytes, and the tail. -/
def hashBlocks : UInt32 → Bytes → UInt32 × Bytes
  | h1, byte0 :: byte1 :: byte2 :: byte3 :: rest =>
      let k1 := UInt32.ofNat (ofLittleEndian [byte0, byte1, byte2, byte3])
      hashBlocks (rotl32 (h1 ^^^ mixBlock k1) 13 * 5 + 0xe6546b64) rest
  | h1, tail => (h1, tail)

/-- `MurmurHash3`, for keys whose number of bytes is an `int`. -/
def murmurHash3 (nHashSeed : UInt32) (vDataToHash : Bytes) : UInt32 :=
  let (h1, tail) := hashBlocks nHashSeed vDataToHash
  let h1 :=
    if tail = [] then h1
    else h1 ^^^ mixBlock (UInt32.ofNat (ofLittleEndian tail))
  let h1 := h1 ^^^ UInt32.ofNat vDataToHash.length
  let h1 := (h1 ^^^ (h1 >>> 16)) * 0x85ebca6b
  let h1 := (h1 ^^^ (h1 >>> 13)) * 0xc2b2ae35
  h1 ^^^ (h1 >>> 16)

example : murmurHash3 0xfba4c795 [] = 0x6a396f08 ∧
    murmurHash3 0 [0x00, 0x11, 0x22, 0x33, 0x44, 0x55, 0x66] = 0xb074502c := by
  decide

/-! ## The filter -/

/-- `MAX_BLOOM_FILTER_SIZE`, in bytes. -/
def maxBloomFilterSize : Nat := 36000

/-- `MAX_HASH_FUNCS`. -/
def maxHashFuncs : Nat := 50

-- The first two bits of `nFlags`.
def bloomUpdateAll : UInt8 := 1
def bloomUpdateP2PubKeyOnly : UInt8 := 2
def bloomUpdateMask : UInt8 := 3

structure CBloomFilter where
  vData : Bytes
  isFull : Bool
  isEmpty : Bool
  nHashFuncs : UInt32
  nTweak : UInt32
  nFlags : UInt8
deriving DecidableEq, Repr

/-- Why a function does not return. -/
inductive Fault where
  | divisionByZero
  | outOfRange
  | lengthError
deriving DecidableEq, Repr

namespace CBloomFilter

/-- `Hash`. -/
def hash (filter : CBloomFilter) (nHashNum : UInt32) (vDataToHash : Bytes) :
    Except Fault Nat :=
  if filter.vData.length * 8 = 0 then .error .divisionByZero
  else .ok ((murmurHash3 (nHashNum * 0xfba4c795 + filter.nTweak)
    vDataToHash).toNat % (filter.vData.length * 8))

/-- The numbers of the hash functions. -/
def hashNums (filter : CBloomFilter) : List UInt32 :=
  (List.range filter.nHashFuncs.toNat).map UInt32.ofNat

/-- `vData[nIndex >> 3] |= (1 << (7 & nIndex))`. -/
def setBit (filter : CBloomFilter) (nIndex : Nat) :
    Except Fault CBloomFilter :=
  if nIndex >>> 3 < filter.vData.length then
    .ok { filter with
      vData := filter.vData.modify (nIndex >>> 3) fun byte =>
        byte ||| (1 <<< UInt8.ofNat (7 &&& nIndex)) }
  else
    .error .outOfRange

/-- `vData[nIndex >> 3] & (1 << (7 & nIndex))`. -/
def testBit (filter : CBloomFilter) (nIndex : Nat) : Except Fault Bool :=
  match filter.vData[nIndex >>> 3]? with
  | none => .error .outOfRange
  | some byte => .ok ((byte &&& (1 <<< UInt8.ofNat (7 &&& nIndex))) != 0)

/-- The loop of `insert`. -/
def setBits (vKey : Bytes) :
    List UInt32 → CBloomFilter → Except Fault CBloomFilter
  | [], filter => .ok filter
  | i :: nums, filter => do
      let nIndex ← filter.hash i vKey
      let filter ← filter.setBit nIndex
      setBits vKey nums filter

/-- `insert` of bytes. -/
def insert (filter : CBloomFilter) (vKey : Bytes) :
    Except Fault CBloomFilter :=
  if filter.isFull then .ok filter
  else do
    let filter ← setBits vKey filter.hashNums filter
    pure { filter with isEmpty := false }

/-- The loop of `contains`. -/
def testBits (filter : CBloomFilter) (vKey : Bytes) :
    List UInt32 → Except Fault Bool
  | [] => .ok true
  | i :: nums => do
      let nIndex ← filter.hash i vKey
      let bit ← filter.testBit nIndex
      if bit then testBits filter vKey nums else .ok false

/-- `contains` of bytes. -/
def contains (filter : CBloomFilter) (vKey : Bytes) : Except Fault Bool :=
  if filter.isFull then .ok true
  else if filter.isEmpty then .ok false
  else testBits filter vKey filter.hashNums

def isWithinSizeConstraints (filter : CBloomFilter) : Bool :=
  filter.vData.length ≤ maxBloomFilterSize &&
    filter.nHashFuncs.toNat ≤ maxHashFuncs

def updateEmptyFull (filter : CBloomFilter) : CBloomFilter :=
  { filter with
    isFull := filter.vData.all (· = 0xff)
    isEmpty := filter.vData.all (· = 0) }

/-- `vRecv >> filter`, over a new filter. -/
def unserialize : Decoder CBloomFilter := do
  let vData ← blob.decode
  let nHashFuncs ← uint32.decode
  let nTweak ← uint32.decode
  let nFlags ← readNumber 1
  pure ⟨vData, true, false, nHashFuncs, nTweak, UInt8.ofNat nFlags⟩

end CBloomFilter

/-- The filter of a peer after its message `filterload`. -/
def filterLoad (vRecv : Bytes) : Option CBloomFilter :=
  match CBloomFilter.unserialize vRecv with
  | .error _ => none
  | .ok (filter, _) =>
      if filter.isWithinSizeConstraints then some filter.updateEmptyFull
      else none

/-- The bytes of an outpoint. -/
def outPointKey (outpoint : COutPoint) : Bytes :=
  COutPoint.format.encode outpoint

/-- The bytes of a hash. -/
def hashKey (hash : UInt256) : Bytes :=
  uint256.encode hash

/-! ## Matching a transaction -/

namespace CBloomFilter

/-- Whether the filter contains a data element of a script from here on. -/
def matchScript (filter : CBloomFilter) (pc : CScript) : Except Fault Bool :=
  match _ : getOp pc with
  | none => .ok false
  | some read =>
      if read.vchRet ≠ [] then do
        if ← filter.contains read.vchRet then .ok true
        else filter.matchScript read.pc
      else filter.matchScript read.pc
termination_by pc.length
decreasing_by
  all_goals exact getOp_length ‹_›

/-- What a match does to the filter. -/
def updateMatched (filter : CBloomFilter) (outpoint : COutPoint)
    (scriptPubKey : CScript) : Except Fault CBloomFilter :=
  if filter.nFlags &&& bloomUpdateMask = bloomUpdateAll then
    filter.insert (outPointKey outpoint)
  else if filter.nFlags &&& bloomUpdateMask = bloomUpdateP2PubKeyOnly then
    match solver scriptPubKey with
    | none => .error .lengthError
    | some solved =>
        if solved.found &&
            (solved.typeRet = .pubKey || solved.typeRet = .multisig) then
          filter.insert (outPointKey outpoint)
        else .ok filter
  else .ok filter

/-- The loop over the outputs. -/
def matchOutputs (hash : UInt256) : Nat → List CTxOut → Bool → CBloomFilter →
    Except Fault (Bool × CBloomFilter)
  | _, [], fFound, filter => .ok (fFound, filter)
  | i, txout :: vout, fFound, filter => do
      if ← filter.matchScript txout.scriptPubKey then
        let filter ← filter.updateMatched ⟨hash, UInt32.ofNat i⟩
          txout.scriptPubKey
        matchOutputs hash (i + 1) vout true filter
      else
        matchOutputs hash (i + 1) vout fFound filter

/-- The loop over the inputs. -/
def matchInputs (filter : CBloomFilter) : List CTxIn → Except Fault Bool
  | [] => .ok false
  | txin :: vin => do
      if ← filter.contains (outPointKey txin.prevout) then .ok true
      else if ← filter.matchScript txin.scriptSig then .ok true
      else filter.matchInputs vin

/-- `IsRelevantAndUpdate`. -/
def isRelevantAndUpdate (filter : CBloomFilter) (tx : CTransaction) :
    Except Fault (Bool × CBloomFilter) :=
  if filter.isFull then .ok (true, filter)
  else if filter.isEmpty then .ok (false, filter)
  else do
    let fFound ← filter.contains (hashKey tx.getHash)
    let (fFound, filter) ← matchOutputs tx.getHash 0 tx.vout fFound filter
    if fFound then .ok (true, filter)
    else
      let relevant ← filter.matchInputs tx.vin
      pure (relevant, filter)

end CBloomFilter

/-! ## The bits -/

namespace CBloomFilter

/-- The result of `Hash`. -/
def index (filter : CBloomFilter) (vKey : Bytes) (i : UInt32) : Nat :=
  (murmurHash3 (i * 0xfba4c795 + filter.nTweak) vKey).toNat %
    (filter.vData.length * 8)

/-- The bits of a key. -/
def places (filter : CBloomFilter) (vKey : Bytes) : Set Nat :=
  {place | ∃ i ∈ filter.hashNums, place = filter.index vKey i}

/-- The bits that are set. -/
def marks (filter : CBloomFilter) : Set Nat :=
  {place | bitAt filter.vData place = true}

variable {filter : CBloomFilter}

theorem hash_eq (some : filter.vData ≠ []) (vKey : Bytes) (i : UInt32) :
    filter.hash i vKey = .ok (filter.index vKey i) := by
  have positive := List.length_pos_iff.mpr some
  unfold hash
  rw [if_neg (by omega), index]

theorem index_lt (some : filter.vData ≠ []) (vKey : Bytes) (i : UInt32) :
    filter.index vKey i < filter.vData.length * 8 := by
  have positive := List.length_pos_iff.mpr some
  exact Nat.mod_lt _ (by omega)

theorem shiftRight_three (nIndex : Nat) : nIndex >>> 3 = nIndex / 8 :=
  Nat.shiftRight_eq_div_pow nIndex 3

theorem seven_and (nIndex : Nat) : 7 &&& nIndex = nIndex % 8 := by
  rw [Nat.and_comm]
  exact Nat.and_two_pow_sub_one_eq_mod nIndex 3

theorem setBit_eq {nIndex : Nat}
    (inside : nIndex < filter.vData.length * 8) :
    filter.setBit nIndex =
      .ok { filter with vData := orBit filter.vData nIndex true } := by
  unfold setBit orBit
  rw [shiftRight_three, seven_and, if_pos (by omega)]
  rfl

theorem testBit_eq {nIndex : Nat}
    (inside : nIndex < filter.vData.length * 8) :
    filter.testBit nIndex = .ok (bitAt filter.vData nIndex) := by
  have found := List.getElem?_eq_getElem
    (show nIndex / 8 < filter.vData.length by omega)
  unfold testBit bitAt
  rw [shiftRight_three, seven_and, found]

/-- The loop of `insert` marks the bits of its hash functions. -/
theorem setBits_eq (filter : CBloomFilter) (some : filter.vData ≠ [])
    (vKey : Bytes) (nums : List UInt32) :
    ∃ vData, setBits vKey nums filter = .ok { filter with vData := vData } ∧
      vData.length = filter.vData.length ∧
      ∀ place, bitAt vData place = true ↔
        bitAt filter.vData place = true ∨
          ∃ i ∈ nums, place = filter.index vKey i := by
  induction nums generalizing filter with
  | nil =>
      refine ⟨filter.vData, rfl, rfl, fun place => ?_⟩
      simp
  | cons i nums ih =>
      have inside := index_lt some vKey i
      have size := length_orBit filter.vData (filter.index vKey i) true
      have someMore : orBit filter.vData (filter.index vKey i) true ≠ [] := by
        rw [← List.length_pos_iff, size]
        exact List.length_pos_iff.mpr some
      let marked := { filter with
        vData := orBit filter.vData (filter.index vKey i) true }
      have sameIndex : ∀ num, marked.index vKey num =
          filter.index vKey num := by
        intro num
        unfold index
        rw [size]
      rcases ih marked someMore with ⟨vData, ran, length, bits⟩
      refine ⟨vData, ?_, length.trans size, fun place => ?_⟩
      · rw [setBits, hash_eq some, ok_bind, setBit_eq inside, ok_bind]
        exact ran
      · rw [bits, bitAt_orBit inside]
        simp [sameIndex, or_assoc]

theorem testBits_iff (some : filter.vData ≠ []) (vKey : Bytes)
    (nums : List UInt32) :
    ∃ held, testBits filter vKey nums = .ok held ∧
      (held = true ↔
        ∀ i ∈ nums, bitAt filter.vData (filter.index vKey i) = true) := by
  induction nums with
  | nil => exact ⟨true, rfl, by simp⟩
  | cons i nums ih =>
      rcases ih with ⟨held, ran, whole⟩
      rw [testBits, hash_eq some, ok_bind,
        testBit_eq (index_lt some vKey i), ok_bind, ran]
      simp only [List.forall_mem_cons, ← whole]
      cases bitAt filter.vData (filter.index vKey i) with
      | false => exact ⟨false, rfl, by simp⟩
      | true => exact ⟨held, rfl, by simp⟩

end CBloomFilter

/-! ## The flags -/

/-- The flags tell the truth about the array, and an array without bits counts
as full. -/
structure Normal (filter : CBloomFilter) : Prop where
  full : filter.isFull = true →
    ∀ place < filter.vData.length * 8, bitAt filter.vData place = true
  empty : filter.isEmpty = true →
    ∀ place, bitAt filter.vData place = false
  some : filter.isFull = false → filter.vData ≠ []

/-- The filter says that it has the key. -/
def Contains (filter : CBloomFilter) (vKey : Bytes) : Prop :=
  filter.contains vKey = .ok true

/-- A filter that became another one has lost nothing. -/
structure Grown (filter later : CBloomFilter) : Prop where
  length : later.vData.length = filter.vData.length
  nHashFuncs : later.nHashFuncs = filter.nHashFuncs
  nTweak : later.nTweak = filter.nTweak
  nFlags : later.nFlags = filter.nFlags
  isFull : later.isFull = filter.isFull
  isEmpty : later.isEmpty = true → filter.isEmpty = true
  marks : filter.marks ⊆ later.marks

theorem Grown.refl (filter : CBloomFilter) : Grown filter filter :=
  ⟨rfl, rfl, rfl, rfl, rfl, id, subset_rfl⟩

theorem Grown.trans {filter middle later : CBloomFilter}
    (first : Grown filter middle) (second : Grown middle later) :
    Grown filter later where
  length := second.length.trans first.length
  nHashFuncs := second.nHashFuncs.trans first.nHashFuncs
  nTweak := second.nTweak.trans first.nTweak
  nFlags := second.nFlags.trans first.nFlags
  isFull := second.isFull.trans first.isFull
  isEmpty := first.isEmpty ∘ second.isEmpty
  marks := first.marks.trans second.marks

theorem Grown.places {filter later : CBloomFilter}
    (grown : Grown filter later) : later.places = filter.places := by
  funext vKey
  unfold CBloomFilter.places CBloomFilter.hashNums CBloomFilter.index
  rw [grown.length, grown.nHashFuncs, grown.nTweak]

theorem updateEmptyFull_normal (filter : CBloomFilter) :
    Normal filter.updateEmptyFull where
  full full place inside := by
    have short : place / 8 < filter.vData.length :=
      Nat.div_lt_of_lt_mul (by rwa [Nat.mul_comm] at inside)
    have found := List.getElem?_eq_getElem short
    have ones : filter.vData[place / 8] = 0xff := by
      simpa using List.all_eq_true.mp full _ (List.getElem_mem _)
    have every : ∀ place < 8, (0xff : UInt8).toNat.testBit place = true := by
      decide
    rw [ones] at found
    exact (bitAt_eq_testBit found).trans
      (every _ (Nat.mod_lt _ (by decide)))
  empty empty place := by
    change bitAt filter.vData place = false
    cases found : filter.vData[place / 8]? with
    | none =>
        unfold bitAt
        rw [found]
    | some byte =>
        have zero : byte = 0 := by
          simpa using List.all_eq_true.mp empty _
            (List.mem_of_getElem? found)
        rw [bitAt_eq_testBit found, zero]
        exact Nat.zero_testBit _
  some notFull := by
    rintro none
    unfold CBloomFilter.updateEmptyFull at notFull none
    dsimp only at notFull none
    rw [none] at notFull
    exact nomatch notFull

variable {filter : CBloomFilter}

theorem holds_iff (vKey : Bytes) :
    Holds filter.places filter.marks vKey ↔
      ∀ i ∈ filter.hashNums,
        bitAt filter.vData (filter.index vKey i) = true := by
  constructor
  · exact fun held i member => held ⟨i, member, rfl⟩
  · rintro marked place ⟨i, member, rfl⟩
    exact marked i member

/-- Every question is answered. -/
theorem contains_iff (normal : Normal filter) (vKey : Bytes) :
    ∃ held, filter.contains vKey = .ok held ∧
      (held = true ↔ filter.isFull = true ∨ filter.isEmpty = false ∧
        Holds filter.places filter.marks vKey) := by
  unfold CBloomFilter.contains
  cases full : filter.isFull with
  | true => exact ⟨true, rfl, by simp⟩
  | false =>
      rw [if_neg Bool.false_ne_true]
      cases empty : filter.isEmpty with
      | true => exact ⟨false, rfl, by simp⟩
      | false =>
          rcases CBloomFilter.testBits_iff (normal.some full) vKey
            filter.hashNums with ⟨held, ran, whole⟩
          refine ⟨held, by rw [if_neg Bool.false_ne_true, ran], ?_⟩
          rw [whole, ← holds_iff]
          simp

theorem Contains.mono {later : CBloomFilter} {vKey : Bytes}
    (held : Contains filter vKey) (normal : Normal filter)
    (normalLater : Normal later) (grown : Grown filter later) :
    Contains later vKey := by
  rcases contains_iff normal vKey with ⟨before, asked, meaning⟩
  rcases contains_iff normalLater vKey with ⟨after, askedLater, meaningLater⟩
  rw [Contains, asked, Except.ok.injEq, meaning] at held
  rw [Contains, askedLater, Except.ok.injEq, meaningLater, grown.isFull,
    grown.places]
  refine held.imp_right fun ⟨notEmpty, marked⟩ =>
    ⟨?_, marked.mono grown.marks⟩
  exact Bool.eq_false_iff.mpr fun empty =>
    Bool.eq_false_iff.mp notEmpty (grown.isEmpty empty)

/-- A key that was inserted is held. -/
theorem insert_works (normal : Normal filter) (vKey : Bytes) :
    ∃ later, filter.insert vKey = .ok later ∧ Normal later ∧
      Grown filter later ∧ Contains later vKey := by
  unfold CBloomFilter.insert
  cases full : filter.isFull with
  | true =>
      refine ⟨filter, rfl, normal, Grown.refl filter, ?_⟩
      rw [Contains, CBloomFilter.contains, full]
      rfl
  | false =>
      rw [if_neg Bool.false_ne_true]
      have some := normal.some full
      rcases CBloomFilter.setBits_eq filter some vKey filter.hashNums with
        ⟨vData, ran, length, bits⟩
      have added : ({ filter with
          vData := vData
          isEmpty := false } : CBloomFilter).marks =
            add filter.places filter.marks vKey :=
        Set.ext bits
      have normalLater : Normal { filter with
          vData := vData
          isEmpty := false } :=
        { full := fun full' => absurd (full.symm.trans full') nofun
          empty := nofun
          some := fun _ => by
            rw [← List.length_pos_iff, length]
            exact List.length_pos_iff.mpr some }
      have grown : Grown filter { filter with
          vData := vData
          isEmpty := false } :=
        ⟨length, rfl, rfl, rfl, rfl, nofun, by rw [added]; exact subset_add⟩
      rw [ran, ok_bind]
      refine ⟨_, rfl, normalLater, grown, ?_⟩
      rcases contains_iff normalLater vKey with ⟨held, asked, meaning⟩
      rw [Contains, asked, Except.ok.injEq, meaning, added, grown.places]
      exact .inr ⟨rfl, holds_add⟩

/-! ## Scripts -/

/-- The data elements of a script before the first opcode that cannot be
parsed. -/
def elements (pc : CScript) : List Valtype :=
  match _ : getOp pc with
  | none => []
  | some read => read.vchRet :: elements read.pc
termination_by pc.length
decreasing_by exact getOp_length ‹_›

/-- A data element of the script is held. -/
def Matches (filter : CBloomFilter) (script : CScript) : Prop :=
  ∃ data ∈ elements script, data ≠ [] ∧ Contains filter data

theorem elements_none {pc : CScript} (ended : getOp pc = none) :
    elements pc = [] := by
  rw [elements]
  split
  next => rfl
  next read found => exact absurd (ended.symm.trans found) nofun

theorem elements_some {pc : CScript} {read : Instruction}
    (found : getOp pc = some read) :
    elements pc = read.vchRet :: elements read.pc := by
  rw [elements]
  split
  next ended => exact absurd (found.symm.trans ended) nofun
  next other same =>
    rw [found] at same
    cases same
    rfl

theorem Matches.mono {later : CBloomFilter} {script : CScript}
    (matched : Matches filter script) (normal : Normal filter)
    (normalLater : Normal later) (grown : Grown filter later) :
    Matches later script := by
  rcases matched with ⟨data, member, nonempty, held⟩
  exact ⟨data, member, nonempty, held.mono normal normalLater grown⟩

theorem matchScript_none {pc : CScript} (ended : getOp pc = none) :
    filter.matchScript pc = .ok false := by
  rw [CBloomFilter.matchScript]
  split
  next => rfl
  next read found => exact absurd (ended.symm.trans found) nofun

theorem matchScript_some {pc : CScript} {read : Instruction}
    (found : getOp pc = some read) :
    filter.matchScript pc =
      if read.vchRet ≠ [] then do
        if ← filter.contains read.vchRet then .ok true
        else filter.matchScript read.pc
      else filter.matchScript read.pc := by
  rw [CBloomFilter.matchScript]
  split
  next ended => exact absurd (found.symm.trans ended) nofun
  next other same =>
    rw [found] at same
    cases same
    rfl

theorem matches_some {pc : CScript} {read : Instruction}
    (found : getOp pc = some read) :
    Matches filter pc ↔
      (read.vchRet ≠ [] ∧ Contains filter read.vchRet) ∨
        Matches filter read.pc := by
  unfold Matches
  rw [elements_some found]
  simp

theorem matchScript_iff (normal : Normal filter) (pc : CScript) :
    ∃ matched, filter.matchScript pc = .ok matched ∧
      (matched = true ↔ Matches filter pc) := by
  induction pc using elements.induct with
  | case1 pc ended =>
      refine ⟨false, matchScript_none ended, ?_⟩
      rw [Matches, elements_none ended]
      simp
  | case2 pc read found ih =>
      rcases ih with ⟨matched, ran, meaning⟩
      rcases contains_iff normal read.vchRet with ⟨held, asked, _⟩
      rw [matchScript_some found, matches_some found, Contains, asked]
      by_cases some : read.vchRet ≠ []
      · rw [if_pos some, ok_bind]
        cases held with
        | true => exact ⟨true, rfl, by simp [some]⟩
        | false => exact ⟨matched, ran, by simp [meaning]⟩
      · rw [if_neg some]
        exact ⟨matched, ran, by simp [some, meaning]⟩

/-- A script with data is no mint opcode alone. -/
theorem solver_matched {script : CScript} (matched : Matches filter script) :
    ∃ solved, solver script = some solved := by
  refine Option.ne_none_iff_exists'.mp fun failed => ?_
  rw [solver_none_iff] at failed
  rcases matched with ⟨data, member, nonempty, _⟩
  have only : elements script = [[]] := by
    rw [failed, elements_some (getOp_opcode (by decide) []),
      elements_none rfl]
  rw [only, List.mem_singleton] at member
  exact nonempty member

/-! ## The loops -/

/-- Whether the flags ask for the outpoint of an output that matches. -/
def updateRule (nFlags : UInt8) (scriptPubKey : CScript) : Bool :=
  nFlags &&& bloomUpdateMask = bloomUpdateAll ||
    nFlags &&& bloomUpdateMask = bloomUpdateP2PubKeyOnly &&
      (solver scriptPubKey).any fun solved => solved.found &&
        (solved.typeRet = .pubKey || solved.typeRet = .multisig)

theorem updateMatched_works (normal : Normal filter) (outpoint : COutPoint)
    {script : CScript} (matched : Matches filter script) :
    ∃ later, filter.updateMatched outpoint script = .ok later ∧
      Normal later ∧ Grown filter later ∧
      (updateRule filter.nFlags script = true →
        Contains later (outPointKey outpoint)) := by
  rcases insert_works normal (outPointKey outpoint) with
    ⟨later, inserted, normalLater, grown, held⟩
  rcases solver_matched matched with ⟨solved, ran⟩
  unfold CBloomFilter.updateMatched updateRule
  rw [ran, Option.any_some]
  by_cases all : filter.nFlags &&& bloomUpdateMask = bloomUpdateAll
  · rw [if_pos all]
    exact ⟨later, inserted, normalLater, grown, fun _ => held⟩
  · rw [if_neg all, decide_eq_false all, Bool.false_or]
    by_cases only :
        filter.nFlags &&& bloomUpdateMask = bloomUpdateP2PubKeyOnly
    · rw [if_pos only, decide_eq_true only, Bool.true_and]
      dsimp only
      split_ifs with asked
      · exact ⟨later, inserted, normalLater, grown, fun _ => held⟩
      · exact ⟨filter, rfl, normal, Grown.refl filter,
          fun rule => absurd rule asked⟩
    · rw [if_neg only, decide_eq_false only, Bool.false_and]
      exact ⟨filter, rfl, normal, Grown.refl filter, nofun⟩

/-- One output.  A match is kept, and what it adds is held. -/
theorem matchOutputs_step (hash : UInt256) (i : Nat) (txout : CTxOut)
    (fFound : Bool) (normal : Normal filter) :
    ∃ relevant next,
      (∀ vout, CBloomFilter.matchOutputs hash i (txout :: vout) fFound filter =
        CBloomFilter.matchOutputs hash (i + 1) vout relevant next) ∧
      Normal next ∧ Grown filter next ∧
      (fFound = true ∨ Matches filter txout.scriptPubKey →
        relevant = true) ∧
      (Matches filter txout.scriptPubKey →
        updateRule filter.nFlags txout.scriptPubKey = true →
        Contains next (outPointKey ⟨hash, UInt32.ofNat i⟩)) := by
  rcases matchScript_iff normal txout.scriptPubKey with
    ⟨matched, ran, meaning⟩
  cases matched with
  | true =>
      have matches' := meaning.mp rfl
      rcases updateMatched_works normal ⟨hash, UInt32.ofNat i⟩ matches' with
        ⟨next, updated, normalNext, grown, added⟩
      refine ⟨true, next, fun vout => ?_, normalNext, grown, fun _ => rfl,
        fun _ => added⟩
      rw [CBloomFilter.matchOutputs, ran, ok_bind, if_pos rfl, updated,
        ok_bind]
  | false =>
      have apart : ¬ Matches filter txout.scriptPubKey :=
        fun matches' => nomatch meaning.mpr matches'
      refine ⟨fFound, filter, fun vout => ?_, normal, Grown.refl filter,
        fun either => either.resolve_right apart,
        fun matches' => absurd matches' apart⟩
      rw [CBloomFilter.matchOutputs, ran, ok_bind,
        if_neg Bool.false_ne_true]

theorem matchOutputs_works (hash : UInt256) (vout : List CTxOut) (i : Nat)
    (fFound : Bool) (normal : Normal filter) :
    ∃ relevant later,
      CBloomFilter.matchOutputs hash i vout fFound filter =
        .ok (relevant, later) ∧
      Normal later ∧ Grown filter later ∧
      (fFound = true ∨ (∃ txout ∈ vout,
        Matches filter txout.scriptPubKey) → relevant = true) := by
  induction vout generalizing i fFound filter with
  | nil =>
      refine ⟨fFound, filter, rfl, normal, Grown.refl filter, ?_⟩
      simp
  | cons txout vout ih =>
      rcases matchOutputs_step hash i txout fFound normal with
        ⟨found, next, stepped, normalNext, grown, first, _⟩
      rcases ih (i + 1) found normalNext with
        ⟨relevant, later, ran, normalLater, grownLater, rest⟩
      refine ⟨relevant, later, (stepped vout).trans ran, normalLater,
        grown.trans grownLater, ?_⟩
      rintro (already | ⟨other, member, matched⟩)
      · exact rest (.inl (first (.inl already)))
      · rcases List.mem_cons.mp member with rfl | member
        · exact rest (.inl (first (.inr matched)))
        · exact rest (.inr ⟨other, member,
            matched.mono normal normalNext grown⟩)

/-- The outpoint of an output that matches when the loop comes to it. -/
theorem matchOutputs_adds (hash : UInt256) {before : List CTxOut}
    {txout : CTxOut} {after : List CTxOut} {i : Nat} {fFound : Bool}
    (normal : Normal filter) {found relevant : Bool}
    {middle later : CBloomFilter}
    (reached : CBloomFilter.matchOutputs hash i before fFound filter =
      .ok (found, middle))
    (matched : Matches middle txout.scriptPubKey)
    (rule : updateRule filter.nFlags txout.scriptPubKey = true)
    (ran : CBloomFilter.matchOutputs hash i (before ++ txout :: after) fFound
      filter = .ok (relevant, later)) :
    Contains later
      (outPointKey ⟨hash, UInt32.ofNat (i + before.length)⟩) := by
  induction before generalizing i fFound filter with
  | nil =>
      cases reached
      rcases matchOutputs_step hash i txout found normal with
        ⟨foundNext, next, stepped, normalNext, grown, _, adds⟩
      rcases matchOutputs_works hash after (i + 1) foundNext normalNext with
        ⟨_, _, rest, normalLater, grownLater, _⟩
      rw [List.nil_append, stepped, rest] at ran
      cases ran
      exact (adds matched rule).mono normalNext normalLater grownLater
  | cons first before ih =>
      rcases matchOutputs_step hash i first fFound normal with
        ⟨found, next, stepped, normalNext, grown, _, _⟩
      rw [stepped] at reached
      rw [List.cons_append, stepped] at ran
      rw [← grown.nFlags] at rule
      have held := ih normalNext reached rule ran
      rwa [Nat.add_assoc, Nat.add_comm 1] at held

theorem matchInputs_works (normal : Normal filter) (vin : List CTxIn) :
    ∃ relevant, filter.matchInputs vin = .ok relevant ∧
      ((∃ txin ∈ vin, Contains filter (outPointKey txin.prevout) ∨
        Matches filter txin.scriptSig) → relevant = true) := by
  induction vin with
  | nil => exact ⟨false, rfl, by simp⟩
  | cons txin vin ih =>
      rcases ih with ⟨relevant, ran, rest⟩
      rcases contains_iff normal (outPointKey txin.prevout) with
        ⟨held, asked, _⟩
      rcases matchScript_iff normal txin.scriptSig with
        ⟨matched, matchRan, meaning⟩
      rw [CBloomFilter.matchInputs, asked, ok_bind]
      by_cases spent : held = true
      · rw [if_pos spent]
        exact ⟨true, rfl, fun _ => rfl⟩
      rw [if_neg spent, matchRan, ok_bind]
      by_cases signed : matched = true
      · rw [if_pos signed]
        exact ⟨true, rfl, fun _ => rfl⟩
      rw [if_neg signed]
      refine ⟨relevant, ran, ?_⟩
      rintro ⟨other, member, named⟩
      rcases List.mem_cons.mp member with rfl | member
      · rcases named with same | data
        · rw [Contains, asked, Except.ok.injEq] at same
          exact absurd same spent
        · exact absurd (meaning.mpr data) signed
      · exact rest ⟨other, member, named⟩

/-! ## A transaction -/

/-- The scripts of a transaction. -/
def scripts (tx : CTransaction) : List CScript :=
  tx.vout.map CTxOut.scriptPubKey ++ tx.vin.map CTxIn.scriptSig

/-- The keys that make a transaction relevant. -/
def Names (tx : CTransaction) (vKey : Bytes) : Prop :=
  vKey = hashKey tx.getHash ∨
    (vKey ≠ [] ∧ ∃ script ∈ scripts tx, vKey ∈ elements script) ∨
    ∃ txin ∈ tx.vin, vKey = outPointKey txin.prevout

/-- The outpoints that a call adds: an output matches the filter as it is when
the loop comes to it, and the flags ask for it. -/
def Updates (filter : CBloomFilter) (tx : CTransaction)
    (outpoint : COutPoint) : Prop :=
  filter.isFull = false ∧ filter.isEmpty = false ∧
    ∃ before txout after fFound found middle,
      tx.vout = before ++ txout :: after ∧
      outpoint = ⟨tx.getHash, UInt32.ofNat before.length⟩ ∧
      filter.contains (hashKey tx.getHash) = .ok fFound ∧
      CBloomFilter.matchOutputs tx.getHash 0 before fFound filter =
        .ok (found, middle) ∧
      Matches middle txout.scriptPubKey ∧
      updateRule filter.nFlags txout.scriptPubKey = true

theorem contains_empty {vKey : Bytes} (notFull : filter.isFull = false)
    (empty : filter.isEmpty = true) : ¬ Contains filter vKey := by
  unfold Contains CBloomFilter.contains
  rw [notFull, empty]
  exact nofun

/-- What a key makes a transaction match: the outputs, or else the inputs. -/
theorem names_cases {tx : CTransaction} {vKey : Bytes}
    (named : Names tx vKey) (held : Contains filter vKey) :
    Contains filter (hashKey tx.getHash) ∨
      (∃ txout ∈ tx.vout, Matches filter txout.scriptPubKey) ∨
      ∃ txin ∈ tx.vin, Contains filter (outPointKey txin.prevout) ∨
        Matches filter txin.scriptSig := by
  rcases named with rfl | ⟨nonempty, script, member, element⟩ |
    ⟨txin, member, rfl⟩
  · exact .inl held
  · rcases List.mem_append.mp member with output | input
    · rcases List.mem_map.mp output with ⟨txout, inside, rfl⟩
      exact .inr (.inl ⟨txout, inside, vKey, element, nonempty, held⟩)
    · rcases List.mem_map.mp input with ⟨txin, inside, rfl⟩
      exact .inr (.inr ⟨txin, inside,
        .inr ⟨vKey, element, nonempty, held⟩⟩)
  · exact .inr (.inr ⟨txin, member, .inl held⟩)

/-- A call never fails, adds what the flags ask for, and finds a transaction
that has a key of the filter. -/
theorem isRelevantAndUpdate_works (normal : Normal filter)
    (tx : CTransaction) :
    ∃ relevant later, filter.isRelevantAndUpdate tx = .ok (relevant, later) ∧
      Normal later ∧ Grown filter later ∧
      (∀ outpoint, Updates filter tx outpoint →
        Contains later (outPointKey outpoint)) ∧
      ((∃ vKey, Names tx vKey ∧ Contains filter vKey) → relevant = true) := by
  unfold CBloomFilter.isRelevantAndUpdate
  by_cases full : filter.isFull = true
  · rw [if_pos full]
    exact ⟨true, filter, rfl, normal, Grown.refl filter,
      fun _ updates => absurd (full.symm.trans updates.1) nofun,
      fun _ => rfl⟩
  rw [if_neg full]
  by_cases empty : filter.isEmpty = true
  · rw [if_pos empty]
    refine ⟨false, filter, rfl, normal, Grown.refl filter,
      fun _ updates => absurd (empty.symm.trans updates.2.1) nofun, ?_⟩
    rintro ⟨vKey, _, held⟩
    exact absurd held (contains_empty (Bool.eq_false_iff.mpr full) empty)
  rcases contains_iff normal (hashKey tx.getHash) with ⟨fFound, asked, _⟩
  rcases matchOutputs_works tx.getHash tx.vout 0 fFound normal with
    ⟨found, later, ran, normalLater, grown, outputs⟩
  rcases matchInputs_works normalLater tx.vin with ⟨relevant, inRan, inputs⟩
  have adds : ∀ outpoint, Updates filter tx outpoint →
      Contains later (outPointKey outpoint) := by
    rintro outpoint ⟨_, _, before, txout, after, start, _, middle, split,
      rfl, asked', reached, matched, rule⟩
    rw [asked, Except.ok.injEq] at asked'
    subst asked'
    rw [split] at ran
    have held := matchOutputs_adds tx.getHash normal reached matched rule ran
    rwa [Nat.zero_add] at held
  rw [if_neg empty, asked, ok_bind, ran, ok_bind]
  dsimp only
  by_cases early : found = true
  · rw [if_pos early]
    exact ⟨true, later, rfl, normalLater, grown, adds, fun _ => rfl⟩
  rw [if_neg early, inRan, ok_bind]
  refine ⟨relevant, later, rfl, normalLater, grown, adds, ?_⟩
  rintro ⟨vKey, named, held⟩
  rcases names_cases named held with same | output | ⟨txin, member, input⟩
  · rw [Contains, asked, Except.ok.injEq] at same
    exact absurd (outputs (.inl same)) early
  · exact absurd (outputs (.inr output)) early
  · refine inputs ⟨txin, member, ?_⟩
    exact input.imp
      (fun spent => spent.mono normal normalLater grown)
      fun data => data.mono normal normalLater grown

/-! ## Runs -/

/-- What is done with a filter. -/
inductive Operation where
  | insert (vKey : Bytes)
  | insertOutPoint (outpoint : COutPoint)
  | insertHash (hash : UInt256)
  | isRelevantAndUpdate (tx : CTransaction)

def perform (filter : CBloomFilter) : Operation → Except Fault CBloomFilter
  | .insert vKey => filter.insert vKey
  | .insertOutPoint outpoint => filter.insert (outPointKey outpoint)
  | .insertHash hash => filter.insert (hashKey hash)
  | .isRelevantAndUpdate tx => do
      let (_, filter) ← filter.isRelevantAndUpdate tx
      pure filter

/-- The keys that an operation inserts, directly or by the update rule. -/
def Inserts (filter : CBloomFilter) : Operation → Bytes → Prop
  | .insert vKey, inserted => inserted = vKey
  | .insertOutPoint outpoint, inserted => inserted = outPointKey outpoint
  | .insertHash hash, inserted => inserted = hashKey hash
  | .isRelevantAndUpdate tx, inserted =>
      ∃ outpoint, Updates filter tx outpoint ∧ inserted = outPointKey outpoint

theorem perform_works (filter : CBloomFilter) (operation : Operation)
    (normal : Normal filter) :
    ∃ later, perform filter operation = .ok later ∧ Normal later ∧
      (∀ vKey, Inserts filter operation vKey → Contains later vKey) ∧
      ∀ vKey, Contains filter vKey → Contains later vKey := by
  have direct : ∀ inserted, ∃ later, filter.insert inserted = .ok later ∧
      Normal later ∧ (∀ vKey, vKey = inserted → Contains later vKey) ∧
      ∀ vKey, Contains filter vKey → Contains later vKey := by
    intro inserted
    rcases insert_works normal inserted with
      ⟨later, ran, normalLater, grown, held⟩
    refine ⟨later, ran, normalLater, ?_, fun vKey kept =>
      kept.mono normal normalLater grown⟩
    rintro vKey rfl
    exact held
  cases operation with
  | insert vKey => exact direct vKey
  | insertOutPoint outpoint => exact direct (outPointKey outpoint)
  | insertHash hash => exact direct (hashKey hash)
  | isRelevantAndUpdate tx =>
      rcases isRelevantAndUpdate_works normal tx with
        ⟨_, later, ran, normalLater, grown, adds, _⟩
      refine ⟨later, ?_, normalLater, ?_, fun vKey kept =>
        kept.mono normal normalLater grown⟩
      · rw [perform, ran]
        rfl
      · rintro vKey ⟨outpoint, updates, rfl⟩
        exact adds outpoint updates

theorem filterLoad_normal {vRecv : Bytes}
    (loaded : filterLoad vRecv = some filter) : Normal filter := by
  unfold filterLoad at loaded
  split at loaded
  · exact nomatch loaded
  · split_ifs at loaded
    cases loaded
    exact updateEmptyFull_normal _

/-- A filter that a peer has sent never fails and never forgets. -/
theorem filter_remembers {vRecv : Bytes} {filter : CBloomFilter}
    (loaded : filterLoad vRecv = some filter)
    (operations : List Operation) :
    ∃ reached, run perform operations filter = .ok reached ∧
      (∀ vKey, ∃ held, reached.contains vKey = .ok held) ∧
      (∀ vKey, Taken perform Inserts filter operations vKey →
        reached.contains vKey = .ok true) ∧
      ∀ tx, ∃ relevant later,
        reached.isRelevantAndUpdate tx = .ok (relevant, later) ∧
        ((∃ vKey, Taken perform Inserts filter operations vKey ∧
          Names tx vKey) → relevant = true) := by
  rcases run_holds perform_works (filterLoad_normal loaded) operations with
    ⟨reached, ran, normal, taken, _⟩
  refine ⟨reached, ran, fun vKey => ?_, taken, fun tx => ?_⟩
  · rcases contains_iff normal vKey with ⟨held, asked, _⟩
    exact ⟨held, asked⟩
  · rcases isRelevantAndUpdate_works normal tx with
      ⟨relevant, later, asked, _, _, _, found⟩
    refine ⟨relevant, later, asked, ?_⟩
    rintro ⟨vKey, inserted, named⟩
    exact found ⟨vKey, named, taken vKey inserted⟩

/-- A transaction that pays to a script with one data element. -/
def payingTx : CTransaction :=
  ⟨7, 1, txPayment, [⟨⟨4, 0⟩, [], 0⟩], [⟨1, [2, 0x99, 0x10]⟩],
    .plain txMetaEmpty, [], 0⟩

def spendingTx : CTransaction :=
  ⟨8, 1, txPayment, [⟨⟨7, 0⟩, [], 0⟩], [⟨1, []⟩], .plain txMetaEmpty, [], 0⟩

/-- A filter that is asked for the data element also matches what spends the
output. -/
theorem filter_remembers_spending :
    ∃ reached later,
      run perform [.insert [0x99, 0x10], .isRelevantAndUpdate payingTx]
        ⟨[0, 0, 0], false, true, 5, 0, 1⟩ = .ok reached ∧
      reached.isRelevantAndUpdate spendingTx = .ok (true, later) := by
  have loaded : filterLoad [3, 0, 0, 0, 5, 0, 0, 0, 0, 0, 0, 0, 1] =
      some ⟨[0, 0, 0], false, true, 5, 0, 1⟩ := rfl
  have inserted : perform ⟨[0, 0, 0], false, true, 5, 0, 1⟩
      (.insert [0x99, 0x10]) =
        .ok ⟨[8, 32, 65], false, false, 5, 0, 1⟩ := by
    decide +kernel
  have matched : Matches ⟨[8, 32, 65], false, false, 5, 0, 1⟩
      [2, 0x99, 0x10] := by
    refine ⟨[0x99, 0x10], ?_, by decide, by unfold Contains; decide +kernel⟩
    rw [elements_some (rfl : getOp [2, 0x99, 0x10] = some _)]
    exact List.mem_cons_self
  have updates : Updates ⟨[8, 32, 65], false, false, 5, 0, 1⟩ payingTx
      ⟨7, 0⟩ :=
    ⟨rfl, rfl, [], _, [], false, false, _, rfl, rfl, by decide +kernel, rfl,
      matched, by decide⟩
  rcases filter_remembers loaded
    [.insert [0x99, 0x10], .isRelevantAndUpdate payingTx] with
      ⟨reached, ran, _, _, relevance⟩
  rcases relevance spendingTx with ⟨relevant, later, asked, named⟩
  refine ⟨reached, later, ran, ?_⟩
  rw [asked, named ⟨_, .later inserted (.now ⟨_, updates, rfl⟩),
    .inr (.inr ⟨_, List.mem_cons_self, rfl⟩)⟩]

end PrivateDatagram.Network.BloomFilter
