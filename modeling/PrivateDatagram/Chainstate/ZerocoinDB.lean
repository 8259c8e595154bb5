import Mathlib.Data.List.Lex
import PrivateDatagram.Library.OrderedStore
import PrivateDatagram.Wire.Serialize

/-!
# The zerocoin database

`zerocoinDB` keeps mints, spends and accumulator values in one ordered store,
under keys that begin with a character for their kind.  `WipeCoins` goes over
the entries of a kind and erases, for each of them, the key that is made of the
kind and of the entry's value.  The value is the hash of a transaction, but the
keys of the kind are made of hashes of coins.
-/

namespace PrivateDatagram.Chainstate.ZerocoinDB

open Library.ByteFormat Library.OrderedStore Wire.Serialize

/-! ## Keys and values -/

/-- A key of the store.  Keys are compared byte by byte. -/
@[ext]
structure Slice where
  bytes : Bytes
deriving DecidableEq, Repr

def Slice.digits (slice : Slice) : List Nat := slice.bytes.map UInt8.toNat

theorem Slice.digits_injective : Function.Injective Slice.digits := by
  intro slice other same
  exact Slice.ext (List.map_injective_iff.mpr
    (fun _ _ => UInt8.toNat_inj.mp) same)

instance : LinearOrder Slice :=
  LinearOrder.lift' Slice.digits Slice.digits_injective

abbrev CZerocoinDB := Store Slice Bytes

/-- The characters `s` and `m`. -/
def spendType : UInt8 := 0x73

def mintType : UInt8 := 0x6d

/-- `make_pair(type, hash)`. -/
def coinKey (type : UInt8) (hash : UInt256) : Slice :=
  ⟨type :: uint256.encode hash⟩

/-- The number at the start of a value. -/
def readHash (value : Bytes) : Option UInt256 :=
  match uint256.decode value with
  | .ok (hash, _) => some hash
  | .error _ => none

def writeCoin (type : UInt8) (hash hashTx : UInt256) (db : CZerocoinDB) :
    CZerocoinDB :=
  db.put (coinKey type hash) (uint256.encode hashTx)

def readCoin (type : UInt8) (hash : UInt256) (db : CZerocoinDB) :
    Option UInt256 :=
  (db.get (coinKey type hash)).bind readHash

/-- `WriteCoinMint`, of the hash of a coin. -/
def writeCoinMint := writeCoin mintType

def readCoinMint := readCoin mintType

/-- `WriteCoinSpend`, of the hash of a serial number. -/
def writeCoinSpend := writeCoin spendType

def readCoinSpend := readCoin spendType

/-! ## `WipeCoins` -/

/-- The loop over the entries; without a result when something is thrown. -/
def collect (type : UInt8) : List (Slice × Bytes) → Option (List UInt256)
  | [] => some []
  | (key, value) :: rest =>
      match key.bytes with
      | [] => none
      | chType :: _ =>
          if chType = type then
            match readHash value with
            | none => none
            | some hash => (collect type rest).map (hash :: ·)
          else
            some []

def wipeCoins (strType : String) (db : CZerocoinDB) : Bool × CZerocoinDB :=
  if strType ≠ "spends" ∧ strType ≠ "mints" then
    (false, db)
  else
    let type := if strType = "spends" then spendType else mintType
    match collect type (db.seek (coinKey type 0)) with
    | none => (false, db)
    | some setDelete =>
        (true, setDelete.foldl (fun db hash => db.erase (coinKey type hash))
          db)

/-- The coins of a kind are gone, and nothing else is changed. -/
structure Wiped (type : UInt8) (before after : CZerocoinDB) : Prop where
  nothing : ∀ hash, readCoin type hash after = none
  others : ∀ key : Slice, key.bytes.head? ≠ some type →
    after.get key = before.get key

/-! ## The entries of a kind -/

/-- The keys of a kind that an iterator finds. -/
def ofType (type : UInt8) (key : Slice) : Bool :=
  key.bytes.head? = some type

def entriesOf (type : UInt8) (db : CZerocoinDB) : List (Slice × Bytes) :=
  db.entries.filter fun entry =>
    coinKey type 0 ≤ entry.1 && ofType type entry.1

theorem lt_iff {key other : Slice} :
    key < other ↔ key.digits < other.digits := Iff.rfl

theorem digits_of_type {type : UInt8} {key : Slice}
    (kind : ofType type key = true) :
    ∃ rest, key.digits = type.toNat :: rest := by
  rcases key with ⟨_ | ⟨chType, rest⟩⟩
  · cases kind
  · have same : chType = type := by simpa [ofType] using kind
    exact ⟨rest.map UInt8.toNat, by rw [same]; rfl⟩

/-- No key of another kind lies between two keys of a kind. -/
theorem ofType_convex {type : UInt8} {first second : Slice}
    (above : coinKey type 0 ≤ first) (less : first < second)
    (kind : ofType type second = true) : ofType type first = true := by
  obtain ⟨rest, digits⟩ := digits_of_type kind
  rw [lt_iff, digits] at less
  rw [← not_lt, lt_iff] at above
  rcases first with ⟨_ | ⟨chType, tail⟩⟩
  · exact absurd (List.nil_lt_cons _ _) above
  · change chType.toNat :: tail.map UInt8.toNat < _ at less
    change ¬ chType.toNat :: tail.map UInt8.toNat < type.toNat :: _ at above
    rw [List.cons_lt_cons_iff] at less above
    have same : chType = type := by
      apply UInt8.toNat_inj.mp
      omega
    simp [ofType, same]

/-- The loop goes over the entries of the kind. -/
theorem seek_takeWhile (type : UInt8) (db : CZerocoinDB) :
    (db.seek (coinKey type 0)).takeWhile (fun entry => ofType type entry.1) =
      entriesOf type db :=
  Store.seek_takeWhile_eq_filter _ _ fun _ _ above less kind =>
    ofType_convex above less kind

theorem seek_nonempty {type : UInt8} {db : CZerocoinDB}
    {entry : Slice × Bytes} (here : entry ∈ db.seek (coinKey type 0)) :
    entry.1.bytes ≠ [] := by
  rw [Store.seek_eq_filter] at here
  have above := (List.mem_filter.mp here).2
  rw [decide_eq_true_eq, ← not_lt, lt_iff] at above
  intro isEmpty
  apply above
  rw [Slice.digits, isEmpty]
  exact List.nil_lt_cons _ _

/-- What the loop collects: the values of the entries of the kind, if all of
them are numbers. -/
inductive Collects (ofKind : List (Slice × Bytes)) :
    Option (List UInt256) → Prop
  | throws {entry : Slice × Bytes} (here : entry ∈ ofKind)
      (fails : readHash entry.2 = none) : Collects ofKind none
  | returns {hashes : List UInt256}
      (numbers : ∀ entry ∈ ofKind, readHash entry.2 ≠ none)
      (mem_iff : ∀ hash, hash ∈ hashes ↔
        ∃ entry ∈ ofKind, readHash entry.2 = some hash) :
      Collects ofKind (some hashes)

theorem Collects.cons {entry : Slice × Bytes}
    {ofKind : List (Slice × Bytes)} {hash : UInt256}
    (isHash : readHash entry.2 = some hash)
    {collected : Option (List UInt256)} (collects : Collects ofKind collected) :
    Collects (entry :: ofKind) (collected.map (hash :: ·)) := by
  cases collects with
  | throws here fails => exact .throws (List.mem_cons_of_mem _ here) fails
  | returns numbers mem_iff =>
      refine .returns ?_ fun other => ?_
      · intro other here
        rcases List.mem_cons.mp here with rfl | later
        · rw [isHash]
          exact Option.some_ne_none hash
        · exact numbers other later
      · rw [List.exists_mem_cons_iff, isHash, List.mem_cons, mem_iff,
          Option.some.injEq, eq_comm]

theorem collect_collects {type : UInt8} {entries : List (Slice × Bytes)}
    (nonempty : ∀ entry ∈ entries, entry.1.bytes ≠ []) :
    Collects (entries.takeWhile fun entry => ofType type entry.1)
      (collect type entries) := by
  induction entries with
  | nil => exact .returns nofun fun _ => by simp
  | cons entry rest ih =>
      rcases entry with ⟨⟨_ | ⟨chType, tail⟩⟩, value⟩
      · exact absurd rfl (nonempty _ List.mem_cons_self)
      · have later := ih fun other here =>
          nonempty other (List.mem_cons_of_mem _ here)
        by_cases same : chType = type
        · have kind : ofType type ⟨chType :: tail⟩ = true := by
            simp [ofType, same]
          rw [List.takeWhile_cons_of_pos
            (p := fun entry : Slice × Bytes => ofType type entry.1) kind]
          simp only [collect, if_pos same]
          cases isHash : readHash value with
          | none => exact .throws List.mem_cons_self isHash
          | some hash => exact later.cons isHash
        · have kind : ¬ ofType type ⟨chType :: tail⟩ = true := by
            simp [ofType, same]
          rw [List.takeWhile_cons_of_neg
            (p := fun entry : Slice × Bytes => ofType type entry.1) kind]
          simp only [collect, if_neg same]
          exact .returns nofun fun _ => by simp

theorem collect_seek (type : UInt8) (db : CZerocoinDB) :
    Collects (entriesOf type db)
      (collect type (db.seek (coinKey type 0))) := by
  rw [← seek_takeWhile]
  exact collect_collects fun _ here => seek_nonempty here

/-! ## What is left -/

theorem coinKey_injective (type : UInt8) :
    Function.Injective (coinKey type) := by
  intro hash other same
  rw [coinKey, coinKey, Slice.mk.injEq, List.cons.injEq] at same
  have equal : uint256.encode hash ++ [] = uint256.encode other ++ [] := by
    rw [same.2]
  exact (uint256.unambiguous hash other [] [] trivial trivial equal).1

/-- `WipeCoins`, behind the name of the kind. -/
def wipeType (type : UInt8) (db : CZerocoinDB) : Bool × CZerocoinDB :=
  match collect type (db.seek (coinKey type 0)) with
  | none => (false, db)
  | some setDelete =>
      (true, setDelete.foldl (fun db hash => db.erase (coinKey type hash)) db)

theorem wipeCoins_spends (db : CZerocoinDB) :
    wipeCoins "spends" db = wipeType spendType db := rfl

theorem wipeCoins_mints (db : CZerocoinDB) :
    wipeCoins "mints" db = wipeType mintType db := rfl

/-- Keys of another kind are left alone. -/
theorem wipeType_others (type : UInt8) (db : CZerocoinDB) {key : Slice}
    (other : key.bytes.head? ≠ some type) :
    (wipeType type db).2.get key = db.get key := by
  unfold wipeType
  split
  · rfl
  · dsimp only
    rw [Store.get_foldl_erase, if_neg]
    intro here
    rcases List.mem_map.mp here with ⟨hash, _, rfl⟩
    exact other rfl

/-- A coin that can be read is the hash of a transaction in its kind, and
every value of the kind is a hash. -/
def Removable (type : UInt8) (db : CZerocoinDB) : Prop :=
  ∀ hash, readCoin type hash db ≠ none →
    (∀ entry ∈ entriesOf type db, readHash entry.2 ≠ none) ∧
      ∃ entry ∈ entriesOf type db, readHash entry.2 = some hash

theorem readCoin_foldl_erase (type : UInt8) (hashes : List UInt256)
    (hash : UInt256) (db : CZerocoinDB) :
    readCoin type hash (hashes.foldl
        (fun db other => db.erase (coinKey type other)) db) =
      if hash ∈ hashes then none else readCoin type hash db := by
  unfold readCoin
  simp only [Store.get_foldl_erase,
    List.mem_map_of_injective (coinKey_injective type)]
  split <;> rfl

/-- The coins of a kind are wiped exactly when all that can be read are
removable. -/
theorem wiped_iff (type : UInt8) (db : CZerocoinDB) :
    Wiped type db (wipeType type db).2 ↔ Removable type db := by
  have collects := collect_seek type db
  have left : Wiped type db (wipeType type db).2 ↔
      ∀ hash, readCoin type hash (wipeType type db).2 = none :=
    ⟨Wiped.nothing, fun nothing =>
      ⟨nothing, fun _ other => wipeType_others type db other⟩⟩
  rw [left]
  unfold wipeType
  cases collected : collect type (db.seek (coinKey type 0)) with
  | none =>
      rw [collected] at collects
      cases collects with
      | throws here fails =>
          dsimp only
          constructor
          · intro nothing hash found
            exact absurd (nothing hash) found
          · intro removable hash
            by_contra found
            exact (removable hash found).1 _ here fails
  | some hashes =>
      rw [collected] at collects
      cases collects with
      | returns numbers mem_iff =>
          dsimp only
          simp only [readCoin_foldl_erase]
          constructor
          · intro nothing hash found
            refine ⟨numbers, (mem_iff hash).mp ?_⟩
            by_contra kept
            have still := nothing hash
            rw [if_neg kept] at still
            exact found still
          · intro removable hash
            by_cases erased : hash ∈ hashes
            · rw [if_pos erased]
            · rw [if_neg erased]
              by_contra found
              exact erased ((mem_iff hash).mpr (removable hash found).2)

/--
Spends and mints are wiped exactly when the coins that can be read are hashes
of transactions.
-/
theorem wipeCoins_wiped_iff (db : CZerocoinDB) :
    (Wiped spendType db (wipeCoins "spends" db).2 ↔
      Removable spendType db) ∧
    (Wiped mintType db (wipeCoins "mints" db).2 ↔ Removable mintType db) := by
  rw [wipeCoins_spends, wipeCoins_mints]
  exact ⟨wiped_iff spendType db, wiped_iff mintType db⟩

/-! ## A single spend -/

def emptyDB : CZerocoinDB := ⟨[], List.Pairwise.nil⟩

/-- The spend of the serial with the hash 5, in the transaction 7. -/
def oneSpend : CZerocoinDB := writeCoinSpend 5 7 emptyDB

/-- The spend can still be read. -/
theorem oneSpend_kept :
    readCoinSpend 5 (wipeCoins "spends" oneSpend).2 = some 7 ∧
      ¬ Wiped spendType oneSpend (wipeCoins "spends" oneSpend).2 := by
  have kept : readCoinSpend 5 (wipeCoins "spends" oneSpend).2 = some 7 := by
    decide
  refine ⟨kept, fun wiped => ?_⟩
  have gone := wiped.nothing 5
  change readCoinSpend 5 _ = none at gone
  rw [kept] at gone
  cases gone

end PrivateDatagram.Chainstate.ZerocoinDB
