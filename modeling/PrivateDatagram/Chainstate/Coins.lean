import Mathlib.Data.List.DropRight
import PrivateDatagram.Wire.Script

/-!
# Coins

`CCoins` holds what is left of the outputs of one transaction.  A spent
output is null, and null outputs at the end are dropped.  Spending an output
returns the data that is needed to undo it: the output, and when it was the
last one also the metadata of the transaction.

A view of the coins has an entry for each transaction hash.  The simplest is
a plain map to unpruned entries; the layered caches of the source are compared
with it elsewhere, and keep some of what it drops.

`CTransaction::IsZerocoinSpend` reads the first byte of a script without
asking whether there is one.  Where the read is out of range the predicate,
and whatever depends on it, has no value.
-/

namespace PrivateDatagram.Chainstate.Coins

open Wire.Serialize Wire.Transaction Wire.Script

/-! ## Kinds of transactions -/

def nullTxOut : CTxOut := ⟨-1, []⟩

def isNull (txout : CTxOut) : Bool := txout.nValue = -1

def isEmpty (txout : CTxOut) : Bool :=
  txout.nValue = 0 && txout.scriptPubKey.isEmpty

/-- `CTransaction::IsZerocoinSpend`. -/
def isZerocoinSpendTx (tx : CTransaction) : Option Bool :=
  match tx.vin with
  | [] => some false
  | txin :: _ =>
      if txin.prevout.hash ≠ 0 then
        some false
      else
        txin.scriptSig.head?.map fun opcode => opcode = opZerocoinSpend

def isZerocoinMintTx (tx : CTransaction) : Bool :=
  tx.vout.any fun txout => isZerocoinMint txout.scriptPubKey

def containsZerocoins (tx : CTransaction) : Option Bool :=
  (isZerocoinSpendTx tx).map fun isSpend => isSpend || isZerocoinMintTx tx

def isCoinBase (tx : CTransaction) : Option Bool :=
  match tx.vin with
  | [txin] =>
      if txin.prevout.isNull then
        (containsZerocoins tx).map fun zerocoins => !zerocoins
      else
        some false
  | _ => some false

def isCoinStake (tx : CTransaction) : Bool :=
  match tx.vin with
  | [] => false
  | txin :: _ =>
      if txin.prevout.isNull && !isZerocoinSpend txin.scriptSig then
        false
      else
        match tx.vout with
        | first :: _ :: _ => isEmpty first
        | _ => false

/-! ## Entries -/

structure CCoins where
  fCoinBase : Bool
  fCoinStake : Bool
  vout : List CTxOut
  nHeight : Int32
  nVersion : Int32
deriving DecidableEq, Repr

structure CTxInUndo where
  txout : CTxOut
  fCoinBase : Bool
  fCoinStake : Bool
  nHeight : UInt32
  nVersion : Int32
deriving DecidableEq, Repr

namespace CCoins

/-- The empty constructor, and what `Clear` leaves. -/
def empty : CCoins := ⟨false, false, [], 0, 0⟩

/-- Remove spent outputs at the end of `vout`. -/
def cleanup (coins : CCoins) : CCoins :=
  { coins with vout := coins.vout.rdropWhile isNull }

def clearUnspendable (coins : CCoins) : CCoins :=
  let clear (txout : CTxOut) :=
    if isUnspendable txout.scriptPubKey then nullTxOut else txout
  { coins with vout := coins.vout.map clear }.cleanup

def isPruned (coins : CCoins) : Bool := coins.vout.all isNull

def isAvailable (nPos : UInt32) (coins : CCoins) : Bool :=
  match coins.vout[nPos.toNat]? with
  | none => false
  | some txout => !isNull txout && !isZerocoinMint txout.scriptPubKey

/-- `CCoins(tx, nHeight)` and `FromTx`. -/
def fromTx (tx : CTransaction) (nHeight : Int32) : Option CCoins :=
  (isCoinBase tx).map fun fCoinBase =>
    (CCoins.mk fCoinBase (isCoinStake tx) tx.vout nHeight
      tx.nVersion).clearUnspendable

/-- `Spend`; nothing is returned where the source returns false. -/
def spend (out : COutPoint) (coins : CCoins) : Option (CTxInUndo × CCoins) :=
  match coins.vout[out.n.toNat]? with
  | none => none
  | some txout =>
      if isNull txout then
        none
      else
        let spent :=
          { coins with vout := coins.vout.set out.n.toNat nullTxOut }.cleanup
        if spent.vout.isEmpty then
          some (⟨txout, spent.fCoinBase, spent.fCoinStake,
            spent.nHeight.toUInt32, spent.nVersion⟩, spent)
        else
          some (⟨txout, false, false, 0, 0⟩, spent)

end CCoins

/-! ## What spending does to the outputs that are left -/

/-- The unspent output at a position. -/
def CCoins.unspent (coins : CCoins) (nPos : Nat) : Option CTxOut :=
  coins.vout[nPos]?.filter fun txout => !isNull txout

/-- Dropping null outputs from the end drops no other. -/
theorem getElem?_rdropWhile {vout : List CTxOut} {nPos : Nat} :
    ((vout.rdropWhile isNull)[nPos]?).filter (fun txout => !isNull txout) =
      (vout[nPos]?).filter fun txout => !isNull txout := by
  induction vout using List.reverseRecOn with
  | nil => simp
  | append_singleton vout txout ih =>
      cases null : isNull txout with
      | false => rw [List.rdropWhile_concat_neg _ _ _ (by simp [null])]
      | true =>
          rw [List.rdropWhile_concat_pos _ _ _ null, ih]
          rcases Nat.lt_trichotomy nPos vout.length with before | here | after
          · rw [List.getElem?_append_left before]
          · subst here
            rw [List.getElem?_concat_length,
              List.getElem?_eq_none (Nat.le_refl _)]
            simp [Option.filter, null]
          · rw [List.getElem?_eq_none (Nat.le_of_lt after),
              List.getElem?_eq_none]
            rw [List.length_append, List.length_singleton]
            exact after

@[simp]
theorem unspent_cleanup (coins : CCoins) (nPos : Nat) :
    coins.cleanup.unspent nPos = coins.unspent nPos :=
  getElem?_rdropWhile

theorem isPruned_iff (coins : CCoins) :
    coins.isPruned = true ↔ ∀ nPos, coins.unspent nPos = none := by
  unfold CCoins.isPruned CCoins.unspent
  rw [List.all_eq_true]
  constructor
  · intro all nPos
    cases found : coins.vout[nPos]? with
    | none => rfl
    | some txout =>
        have null := all txout (List.mem_of_getElem? found)
        simp [null]
  · intro none txout member
    rcases List.mem_iff_getElem?.mp member with ⟨nPos, found⟩
    have gone := none nPos
    rw [found] at gone
    simpa using gone

theorem cleanup_cleanup (coins : CCoins) :
    coins.cleanup.cleanup = coins.cleanup := by
  unfold CCoins.cleanup
  rw [List.rdropWhile_idempotent]

/-- A trimmed entry with nothing unspent has no outputs. -/
theorem vout_nil_of_pruned {coins : CCoins} (trimmed : coins.cleanup = coins)
    (pruned : coins.isPruned = true) : coins.vout = [] := by
  have kept : coins.vout.rdropWhile isNull = coins.vout :=
    congrArg CCoins.vout trimmed
  rw [← kept, List.rdropWhile_eq_nil_iff]
  exact List.all_eq_true.mp pruned

/-- An output can be spent exactly when it is unspent. -/
theorem spend_isSome_iff (out : COutPoint) (coins : CCoins) :
    (coins.spend out).isSome = (coins.unspent out.n.toNat).isSome := by
  unfold CCoins.spend CCoins.unspent
  cases found : coins.vout[out.n.toNat]? with
  | none => rfl
  | some txout =>
      cases null : isNull txout with
      | true => simp [null]
      | false =>
          simp only [null]
          split_ifs <;> simp_all

theorem spend_some {out : COutPoint} {coins spent : CCoins}
    {undo : CTxInUndo} (done : coins.spend out = some (undo, spent)) :
    spent = { coins with
      vout := coins.vout.set out.n.toNat nullTxOut }.cleanup := by
  unfold CCoins.spend at done
  split at done
  · cases done
  · dsimp only at done
    split_ifs at done
    all_goals
      cases done
      rfl

/-- Spending an output leaves the others. -/
theorem unspent_spend {out : COutPoint} {coins spent : CCoins}
    {undo : CTxInUndo} (done : coins.spend out = some (undo, spent))
    (nPos : Nat) :
    spent.unspent nPos =
      if nPos = out.n.toNat then none else coins.unspent nPos := by
  rw [spend_some done, unspent_cleanup]
  unfold CCoins.unspent
  dsimp only
  by_cases here : nPos = out.n.toNat
  · subst here
    rw [List.getElem?_set, if_pos rfl, if_pos rfl]
    split_ifs <;> rfl
  · rw [List.getElem?_set_ne (Ne.symm here), if_neg here]

/-! ## Views -/

abbrev CoinsMap := UInt256 → Option CCoins

/-- An entry with nothing unspent counts as absent. -/
def unlessPruned (coins : CCoins) : Option CCoins :=
  if coins.isPruned then none else some coins

/-- The entry that `ModifyCoins` hands out. -/
def CoinsMap.entry (view : CoinsMap) (txid : UInt256) : CCoins :=
  (view txid).getD .empty

/-- Put a modified entry back, as the modifier's destructor does. -/
def CoinsMap.put (view : CoinsMap) (txid : UInt256) (coins : CCoins) :
    CoinsMap :=
  Function.update view txid (unlessPruned coins.cleanup)

theorem unlessPruned_some {coins found : CCoins}
    (kept : unlessPruned coins = some found) :
    coins = found ∧ coins.isPruned = false := by
  unfold unlessPruned at kept
  split_ifs at kept with pruned
  cases kept
  exact ⟨rfl, by simpa using pruned⟩

theorem put_self (view : CoinsMap) (txid : UInt256) (coins : CCoins) :
    view.put txid coins txid = unlessPruned coins.cleanup :=
  Function.update_self _ _ _

theorem put_of_ne {view : CoinsMap} {txid other : UInt256}
    (different : other ≠ txid) (coins : CCoins) :
    view.put txid coins other = view other :=
  Function.update_of_ne different _ _

theorem entry_put_self (view : CoinsMap) (txid : UInt256) (coins : CCoins)
    (nPos : Nat) :
    ((view.put txid coins).entry txid).unspent nPos = coins.unspent nPos := by
  rw [CoinsMap.entry, put_self, unlessPruned]
  split_ifs with pruned
  · have gone := (isPruned_iff _).mp pruned nPos
    rw [unspent_cleanup] at gone
    rw [gone]
    rfl
  · exact unspent_cleanup coins nPos

theorem entry_put_of_ne {view : CoinsMap} {txid other : UInt256}
    (different : other ≠ txid) (coins : CCoins) :
    (view.put txid coins).entry other = view.entry other := by
  rw [CoinsMap.entry, put_of_ne different]
  rfl

/--
A view of the coins: the entries that `ModifyCoins` hands out, and the view
after one of them was put back.
-/
class CoinsView (V : Type) where
  entry : V → UInt256 → CCoins
  put : V → UInt256 → CCoins → V
  entry_put_self : ∀ (view : V) (txid : UInt256) (coins : CCoins)
    (nPos : Nat), (entry (put view txid coins) txid).unspent nPos =
      coins.unspent nPos
  entry_put_of_ne : ∀ {view : V} {txid other : UInt256}, other ≠ txid →
    ∀ coins : CCoins, entry (put view txid coins) other = entry view other

instance : CoinsView CoinsMap where
  entry := CoinsMap.entry
  put := CoinsMap.put
  entry_put_self := entry_put_self
  entry_put_of_ne := entry_put_of_ne

section Updates

variable {V : Type} [CoinsView V]

/-- Spend the inputs in order; a failed assertion leaves nothing. -/
def spendInputs : List CTxIn → V → Option (List CTxInUndo × V)
  | [], view => some ([], view)
  | txin :: rest, view =>
      match (CoinsView.entry view txin.prevout.hash).spend txin.prevout with
      | none => none
      | some (undo, coins) =>
          match spendInputs rest
              (CoinsView.put view txin.prevout.hash coins) with
          | none => none
          | some (undos, view) => some (undo :: undos, view)

/-- Whether a transaction has inputs in the traditional sense. -/
def spendsCoins (tx : CTransaction) : Option Bool :=
  match isCoinBase tx, isZerocoinSpendTx tx with
  | some fCoinBase, some isSpend => some (!fCoinBase && !isSpend)
  | _, _ => none

/-- `UpdateCoins`, with the undo data of the transaction. -/
def updateCoins (tx : CTransaction) (nHeight : Int32) (view : V) :
    Option (List CTxInUndo × V) :=
  match spendsCoins tx, CCoins.fromTx tx nHeight with
  | some spends, some created =>
      match (if spends then spendInputs tx.vin view else some ([], view)) with
      | none => none
      | some (undos, view) =>
          some (undos, CoinsView.put view tx.getHash created)
  | _, _ => none

end Updates

/-- The unspent output that a view has at an outpoint. -/
def CoinsView.unspent {V : Type} [CoinsView V] (view : V) (out : COutPoint) :
    Option CTxOut :=
  (entry view out.hash).unspent out.n.toNat

/-- `HaveInputs`. -/
def haveInputs (tx : CTransaction) (view : CoinsMap) : Option Bool :=
  (spendsCoins tx).map fun spends =>
    !spends || tx.vin.all fun txin =>
      match view txin.prevout.hash with
      | none => false
      | some coins => coins.isAvailable txin.prevout.n

/-- `GetOutputFor`; a failed assertion leaves nothing. -/
def getOutputFor (input : CTxIn) (view : CoinsMap) : Option CTxOut :=
  match view input.prevout.hash with
  | none => none
  | some coins =>
      if coins.isAvailable input.prevout.n then
        coins.vout[input.prevout.n.toNat]?
      else
        none

/-- The loop of `GetValueIn`. -/
def sumInputs (view : CoinsMap) : List CTxIn → Int64 → Option Int64
  | [], nResult => some nResult
  | txin :: rest, nResult =>
      match getOutputFor txin view with
      | none => none
      | some txout => sumInputs view rest (nResult + txout.nValue)

/-- `COIN`. -/
def coin : Int64 := 100000000

/-- `GetZerocoinSpent`; the product is taken in 64 bits. -/
def getZerocoinSpent (tx : CTransaction) : Option Int64 :=
  (isZerocoinSpendTx tx).map fun isSpend =>
    if isSpend then
      (tx.vin.filter fun txin => isZerocoinSpend txin.scriptSig).foldl
        (fun nValueOut txin =>
          nValueOut + txin.nSequence.toUInt64.toInt64 * coin) 0
    else
      0

/-- `GetValueIn`. -/
def getValueIn (tx : CTransaction) (view : CoinsMap) : Option Int64 :=
  match isCoinBase tx, isZerocoinSpendTx tx with
  | some true, _ => some 0
  | some false, some true => getZerocoinSpent tx
  | some false, some false => sumInputs view tx.vin 0
  | _, _ => none

/-- The unspent output that a view has at an outpoint. -/
def CoinsMap.unspent (view : CoinsMap) (out : COutPoint) : Option CTxOut :=
  (view.entry out.hash).unspent out.n.toNat

/-- An output that `HaveInputs` finds. -/
def CoinsMap.available (view : CoinsMap) (out : COutPoint) : Bool :=
  match view out.hash with
  | none => false
  | some coins => coins.isAvailable out.n

/-- The unspent outputs are available, but for mints of zerocoins. -/
theorem available_eq (view : CoinsMap) (out : COutPoint) :
    view.available out = (view.unspent out).any fun txout =>
      !isZerocoinMint txout.scriptPubKey := by
  unfold CoinsMap.available CoinsMap.unspent CoinsMap.entry
  cases view out.hash with
  | none => rfl
  | some coins =>
      show coins.isAvailable out.n = _
      rw [Option.getD_some, CCoins.isAvailable, CCoins.unspent]
      cases coins.vout[out.n.toNat]? with
      | none => rfl
      | some txout => cases null : isNull txout <;> simp [null]

@[simp]
theorem unspent_eq (view : CoinsMap) (out : COutPoint) :
    CoinsView.unspent view out = view.unspent out :=
  rfl

section Spending

variable {V : Type} [CoinsView V]

open CoinsView

/-- In a view, too, only the spent output goes. -/
theorem unspent_put_spend {view : V} {out : COutPoint}
    {spent : CCoins} {undo : CTxInUndo}
    (done : (entry view out.hash).spend out = some (undo, spent))
    (other : COutPoint) :
    unspent (put view out.hash spent) other =
      if other = out then none else unspent view other := by
  unfold unspent
  by_cases sameHash : other.hash = out.hash
  · rw [sameHash, CoinsView.entry_put_self, unspent_spend done]
    rcases other with ⟨hash, n⟩
    rcases out with ⟨outHash, outN⟩
    cases sameHash
    by_cases sameN : n = outN
    · rw [sameN, if_pos rfl, if_pos rfl]
    · rw [if_neg (mt UInt32.toNat_inj.mp sameN), if_neg (by simpa using sameN)]
  · rw [CoinsView.entry_put_of_ne sameHash, if_neg]
    rintro rfl
    exact sameHash rfl

/--
The inputs can be spent in order exactly when each of them is unspent and
none is spent twice.
-/
theorem spendInputs_isSome_iff (vin : List CTxIn) (view : V) :
    (spendInputs vin view).isSome = true ↔
      (∀ txin ∈ vin, (unspent view txin.prevout).isSome = true) ∧
        (vin.map CTxIn.prevout).Nodup := by
  induction vin generalizing view with
  | nil => simp [spendInputs]
  | cons txin rest ih =>
      rw [spendInputs, List.map_cons, List.nodup_cons, List.forall_mem_cons]
      have first := spend_isSome_iff txin.prevout
        (entry view txin.prevout.hash)
      cases done : (entry view txin.prevout.hash).spend txin.prevout with
      | none =>
          rw [done] at first
          have spent : (unspent view txin.prevout).isSome = false :=
            first.symm
          simp [spent]
      | some reached =>
          rcases reached with ⟨undo, coins⟩
          rw [done] at first
          have isUnspent : (unspent view txin.prevout).isSome = true :=
            first.symm
          have after := unspent_put_spend done
          have step : (match spendInputs rest
              (put view txin.prevout.hash coins) with
              | none => none
              | some (undos, view) => some (undo :: undos, view)).isSome =
                (spendInputs rest (put view txin.prevout.hash coins)).isSome := by
            cases spendInputs rest (put view txin.prevout.hash coins) <;> rfl
          dsimp only
          rw [step, ih]
          simp only [isUnspent, true_and, after]
          constructor
          · rintro ⟨available, distinct⟩
            have apart : txin.prevout ∉ rest.map CTxIn.prevout := by
              intro member
              rcases List.mem_map.mp member with ⟨other, inRest, same⟩
              have gone := available other inRest
              rw [if_pos same] at gone
              cases gone
            refine ⟨?_, apart, distinct⟩
            intro other inRest
            have left := available other inRest
            split_ifs at left
            · cases left
            · exact left
          · rintro ⟨available, apart, distinct⟩
            refine ⟨?_, distinct⟩
            intro other inRest
            rw [if_neg]
            · exact available other inRest
            · intro same
              exact apart (List.mem_map.mpr ⟨other, inRest, same⟩)

end Spending

end PrivateDatagram.Chainstate.Coins
