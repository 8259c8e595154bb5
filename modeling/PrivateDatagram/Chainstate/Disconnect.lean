import PrivateDatagram.Chainstate.CoinsCache

/-!
# Disconnecting a block

`ConnectBlock` runs `UpdateCoins` over the transactions of a block and keeps
the undo data of all but the first.  `DisconnectBlock` walks the transactions
backwards: it removes the outputs of each and puts its inputs back.

The undo data of an output carries the metadata of its transaction only when
the output was the last one left, and `nHeight ≠ 0` is how the two cases are
told apart.  The restoring loop copies `fCoinBase`, `nHeight` and `nVersion`,
and leaves out `fCoinStake`.

A cache keeps an entry of which everything is spent, with its metadata, unless
the view below has nothing unspent of it.  Without metadata in the undo data
the output goes back into what is found there.
-/

namespace PrivateDatagram.Chainstate.Disconnect

open Wire.Serialize Wire.Transaction Coins
open CoinsCache
  (CCoinsViewDB CCoinsMap look look_cons Filled getCoins_spec setEntry
    lookup_setEntry_self lookup_setEntry_of_ne fetchForModify modifyCoins
    keptEntry modifyCoins_eq)

section Blocks

variable {V : Type} [CoinsView V]

/-! ## Connecting -/

/-- The `UpdateCoins` steps of a block, with the undo data of each. -/
def updateAll (nHeight : Int32) :
    List CTransaction → V → Option (List (List CTxInUndo) × V)
  | [], view => some ([], view)
  | tx :: rest, view =>
      match updateCoins tx nHeight view with
      | none => none
      | some (undo, view) =>
          match updateAll nHeight rest view with
          | none => none
          | some (undos, view) => some (undo :: undos, view)

/-- What `ConnectBlock` does to the view; `vtxundo` skips the first. -/
def connectTransactions (vtx : List CTransaction) (nHeight : Int32)
    (view : V) : Option (List (List CTxInUndo) × V) :=
  (updateAll nHeight vtx view).map fun (undos, view) => (undos.tail, view)

/-! ## Disconnecting -/

/-- `operator==` on entries. -/
def coinsEqual (a b : CCoins) : Bool :=
  (a.isPruned && b.isPruned) ||
    (a.fCoinBase == b.fCoinBase && a.fCoinStake == b.fCoinStake &&
      a.nHeight == b.nHeight && a.nVersion == b.nVersion && a.vout == b.vout)

/-- Compare the outputs with those of the block and remove them. -/
def removeOutputs (tx : CTransaction) (outsBlock : CCoins)
    (state : Bool × V) : Bool × V :=
  let outs := (CoinsView.entry state.2 tx.getHash).clearUnspendable
  let outs :=
    if outsBlock.nVersion < 0 then
      { outs with nVersion := outsBlock.nVersion }
    else
      outs
  (state.1 && coinsEqual outs outsBlock, CoinsView.put state.2 tx.getHash .empty)

/-- The entry that an output goes back into. -/
def restoreMetadata (undo : CTxInUndo) (coins : CCoins) : CCoins :=
  if undo.nHeight ≠ 0 then
    { CCoins.empty with
      fCoinBase := undo.fCoinBase
      nHeight := undo.nHeight.toInt32
      nVersion := undo.nVersion }
  else
    coins

/--
Put an output back.  The new size is computed in 32 bits; where it wraps the
write may be out of range, and nothing is returned.
-/
def restoreOutput (out : COutPoint) (undo : CTxInUndo) (coins : CCoins) :
    Option CCoins :=
  let vout := coins.vout ++
    List.replicate ((out.n + 1).toNat - coins.vout.length) nullTxOut
  if out.n.toNat < vout.length then
    some { coins with vout := vout.set out.n.toNat undo.txout }
  else
    none

def restoreInput (out : COutPoint) (undo : CTxInUndo)
    (state : Bool × V) : Option (Bool × V) :=
  let found := CoinsView.entry state.2 out.hash
  let coins := restoreMetadata undo found
  let fClean :=
    state.1 && (if undo.nHeight ≠ 0 then found.isPruned else !found.isPruned) &&
      !coins.isAvailable out.n
  (restoreOutput out undo coins).map fun coins =>
    (fClean, CoinsView.put state.2 out.hash coins)

/-- Restore the inputs of a transaction, the last one first. -/
def restoreInputs : List (CTxIn × CTxInUndo) → Bool × V →
    Option (Bool × V)
  | [], state => some state
  | (txin, undo) :: rest, state =>
      match restoreInputs rest state with
      | none => none
      | some state => restoreInput txin.prevout undo state

/--
One round of the loop.  The first transaction of a block has no undo data;
nothing is returned where the source reads past it or reports an error.
-/
def disconnectTx (nHeight : Int32) (tx : CTransaction)
    (txundo : Option (List CTxInUndo)) (state : Bool × V) :
    Option (Bool × V) :=
  match spendsCoins tx, CCoins.fromTx tx nHeight with
  | some spends, some outsBlock =>
      let state := removeOutputs tx outsBlock state
      if spends then
        match txundo with
        | none => none
        | some vprevout =>
            if vprevout.length ≠ tx.vin.length then
              none
            else
              restoreInputs (tx.vin.zip vprevout) state
      else
        some state
  | _, _ => none

/-- The loop over the transactions, the last one first. -/
def disconnectTxs (nHeight : Int32) :
    List (CTransaction × Option (List CTxInUndo)) → Bool × V →
      Option (Bool × V)
  | [], state => some state
  | (tx, txundo) :: rest, state =>
      match disconnectTxs nHeight rest state with
      | none => none
      | some state => disconnectTx nHeight tx txundo state

/--
`DisconnectBlock` on a block without zerocoins: whether the undo data fitted,
and the view.
-/
def disconnectBlock (vtx : List CTransaction)
    (vtxundo : List (List CTxInUndo)) (nHeight : Int32) (view : V) :
    Option (Bool × V) :=
  if vtxundo.length + 1 ≠ vtx.length then
    none
  else
    disconnectTxs nHeight (vtx.zip (none :: vtxundo.map some)) (true, view)

end Blocks

/-! ## Caches -/

/-- What `base->GetCoins` finds, and an empty entry where it finds none. -/
def below (base : CoinsMap) (txid : UInt256) : CCoins :=
  (base txid).getD .empty

/-- The flag `FRESH`, which an entry of a cache over this base has from the
time when it is fetched. -/
def isFresh (base : CoinsMap) (txid : UInt256) : Bool :=
  (below base txid).isPruned

/-- The entries of a cache. -/
structure CCoinsViewCache (base : CoinsMap) where
  cacheCoins : CoinsMap

/-- What is found after an entry came back to the cache. -/
def settled (base : CoinsMap) (txid : UInt256) (coins : CCoins) : CCoins :=
  if isFresh base txid && coins.cleanup.isPruned then below base txid
  else coins.cleanup

namespace CCoinsViewCache

variable {base : CoinsMap}

/-- `ModifyCoins`. -/
def entry (view : CCoinsViewCache base) (txid : UInt256) : CCoins :=
  (view.cacheCoins txid).getD (below base txid)

/-- The destructor of the modifier. -/
def put (view : CCoinsViewCache base) (txid : UInt256) (coins : CCoins) :
    CCoinsViewCache base :=
  ⟨Function.update view.cacheCoins txid
    (if isFresh base txid && coins.cleanup.isPruned then none
    else some coins.cleanup)⟩

theorem entry_put_self (view : CCoinsViewCache base) (txid : UInt256)
    (coins : CCoins) :
    (view.put txid coins).entry txid = settled base txid coins := by
  unfold entry put settled
  dsimp only
  rw [Function.update_self]
  split_ifs <;> rfl

theorem entry_put_of_ne {view : CCoinsViewCache base} {txid other : UInt256}
    (different : other ≠ txid) (coins : CCoins) :
    (view.put txid coins).entry other = view.entry other := by
  unfold entry put
  dsimp only
  rw [Function.update_of_ne different]

end CCoinsViewCache

theorem unspent_settled (base : CoinsMap) (txid : UInt256) (coins : CCoins)
    (nPos : Nat) : (settled base txid coins).unspent nPos =
      coins.unspent nPos := by
  unfold settled
  split_ifs with dropped
  · rw [Bool.and_eq_true] at dropped
    rw [(isPruned_iff _).mp dropped.1, ← unspent_cleanup coins,
      (isPruned_iff _).mp dropped.2]
  · exact unspent_cleanup coins nPos

instance (base : CoinsMap) : CoinsView (CCoinsViewCache base) where
  entry := CCoinsViewCache.entry
  put := CCoinsViewCache.put
  entry_put_self := fun view txid coins nPos => by
    rw [CCoinsViewCache.entry_put_self, unspent_settled]
  entry_put_of_ne := CCoinsViewCache.entry_put_of_ne

/-- The first cache of a stack shows this view of what the next ones have. -/
structure Shows {base : CoinsMap} (database : CCoinsViewDB)
    (cacheCoins : CCoinsMap) (caches : List CCoinsMap)
    (view : CCoinsViewCache base) : Prop where
  below : ∀ txid, look database caches txid = base txid
  entry : ∀ txid,
    (look database (cacheCoins :: caches) txid).getD .empty = view.entry txid
  fresh : ∀ txid entry, cacheCoins.lookup txid = some entry →
    entry.fresh = isFresh base txid

section Stacks

variable {base : CoinsMap} {database : CCoinsViewDB} {cacheCoins : CCoinsMap}
  {caches : List CCoinsMap} {view : CCoinsViewCache base}

/-- A new cache is a view without entries of its own. -/
theorem Shows.new (below : ∀ txid, look database caches txid = base txid) :
    Shows database ∅ caches (⟨fun _ => none⟩ : CCoinsViewCache base) where
  below := below
  entry txid := congrArg (·.getD .empty) (below txid)
  fresh := nofun

/-- What `ModifyCoins` hands out. -/
theorem Shows.fetchForModify (shows' : Shows database cacheCoins caches view)
    (txid : UInt256) :
    Filled database caches
        (fetchForModify database txid cacheCoins caches).2 ∧
      (fetchForModify database txid cacheCoins caches).1.coins =
        view.entry txid ∧
      (fetchForModify database txid cacheCoins caches).1.fresh =
        isFresh base txid := by
  have here := shows'.entry txid
  rw [look] at here
  unfold CoinsCache.fetchForModify
  cases cached : cacheCoins.lookup txid with
  | some entry =>
      rw [cached] at here
      exact ⟨Filled.refl _ _, here, shows'.fresh txid entry cached⟩
  | none =>
      rw [cached] at here
      dsimp only at here ⊢
      rcases getCoins_spec database txid caches with ⟨replied, filled, _⟩
      rcases fetched : CoinsCache.getCoins database txid caches with
        ⟨caches', reply⟩
      rw [fetched] at replied filled
      dsimp only at replied filled
      rw [← replied] at here
      rw [isFresh, Disconnect.below, ← shows'.below, ← replied]
      cases reply with
      | none => exact ⟨filled, here, rfl⟩
      | some coins => exact ⟨filled, here, rfl⟩

/-- An edit through `ModifyCoins` puts the entry back into the view. -/
theorem Shows.modifyCoins (shows' : Shows database cacheCoins caches view)
    (txid : UInt256) (edit : CCoins → CCoins) :
    ∃ cacheCoins' caches',
      modifyCoins database txid edit cacheCoins caches =
        cacheCoins' :: caches' ∧
      Shows database cacheCoins' caches'
        (view.put txid (edit (view.entry txid))) := by
  rcases shows'.fetchForModify txid with ⟨filled, handed, flag⟩
  rw [modifyCoins_eq]
  rcases fetched : CoinsCache.fetchForModify database txid cacheCoins caches
    with ⟨entry, caches'⟩
  rw [fetched] at filled handed flag
  dsimp only at filled handed flag ⊢
  have below := fun other => (filled.same other).trans (shows'.below other)
  refine ⟨_, _, rfl, below, fun other => ?_, fun other found cached => ?_⟩
  · rw [look_cons]
    by_cases here : other = txid
    · subst here
      rw [lookup_setEntry_self, CCoinsViewCache.entry_put_self, settled,
        keptEntry, handed, flag, below]
      split_ifs <;> rfl
    · rw [lookup_setEntry_of_ne here, CCoinsViewCache.entry_put_of_ne here,
        filled.same, ← look_cons, shows'.entry]
  · by_cases here : other = txid
    · subst here
      rw [lookup_setEntry_self, keptEntry] at cached
      split_ifs at cached
      cases cached
      exact flag
    · rw [lookup_setEntry_of_ne here] at cached
      exact shows'.fresh other found cached

end Stacks

/-! ## Well-formed entries -/

/--
What every entry of a view keeps: nothing null is left at the end, a spent
output is blank, and positions fit in 32 bits.
-/
structure WellFormed (coins : CCoins) : Prop where
  trimmed : coins.cleanup = coins
  blank : ∀ txout ∈ coins.vout, isNull txout = true → txout = nullTxOut
  size : coins.vout.length < 2 ^ 32

/-- A view of the coins whose entries are all well formed, and those below. -/
structure UtxoView where
  base : CoinsMap
  view : CCoinsViewCache base
  wellFormed : ∀ txid, WellFormed (view.entry txid)
  below : ∀ txid, WellFormed (below base txid)

/-- All fields of an entry but the outputs. -/
def metadata (coins : CCoins) : Bool × Bool × Int32 × Int32 :=
  (coins.fCoinBase, coins.fCoinStake, coins.nHeight, coins.nVersion)

theorem unspent_some_iff {coins : CCoins} {nPos : Nat} {txout : CTxOut} :
    coins.unspent nPos = some txout ↔
      coins.vout[nPos]? = some txout ∧ isNull txout = false := by
  simp [CCoins.unspent, Option.filter_eq_some_iff]

/-- The last output of a trimmed list is unspent. -/
theorem not_null_of_trimmed {vout : List CTxOut} {txout : CTxOut}
    (trimmed : (vout ++ [txout]).rdropWhile isNull = vout ++ [txout]) :
    isNull txout = false := by
  cases null : isNull txout with
  | false => rfl
  | true =>
      rw [List.rdropWhile_concat_pos _ _ _ null] at trimmed
      have shorter := (List.rdropWhile_prefix isNull vout).length_le
      rw [trimmed, List.length_append, List.length_singleton] at shorter
      omega

/-- A trimmed list is no longer than any that has the same unspent outputs. -/
theorem length_le_of_unspent {coins other : CCoins}
    (trimmed : coins.cleanup = coins)
    (same : ∀ nPos, coins.unspent nPos = other.unspent nPos) :
    coins.vout.length ≤ other.vout.length := by
  rcases List.eq_nil_or_concat coins.vout with empty | ⟨vout, txout, shape⟩
  · rw [empty]
    exact Nat.zero_le _
  · have kept : coins.vout.rdropWhile isNull = coins.vout :=
      congrArg CCoins.vout trimmed
    rw [shape, List.concat_eq_append] at kept
    have last : coins.unspent vout.length = some txout := by
      rw [unspent_some_iff, shape, List.concat_eq_append,
        List.getElem?_concat_length]
      exact ⟨rfl, not_null_of_trimmed kept⟩
    rw [same, unspent_some_iff] at last
    have bound := (List.getElem?_eq_some_iff.mp last.1).1
    rw [shape, List.length_concat]
    exact bound

/-- Trimmed entries with blank spent outputs are fixed by what is unspent. -/
theorem eq_of_unspent {coins other : CCoins}
    (trimmed : coins.cleanup = coins) (otherTrimmed : other.cleanup = other)
    (blank : ∀ txout ∈ coins.vout, isNull txout = true → txout = nullTxOut)
    (otherBlank :
      ∀ txout ∈ other.vout, isNull txout = true → txout = nullTxOut)
    (same : ∀ nPos, coins.unspent nPos = other.unspent nPos)
    (sameMetadata : metadata coins = metadata other) : coins = other := by
  have sameLength : coins.vout.length = other.vout.length :=
    Nat.le_antisymm (length_le_of_unspent trimmed same)
      (length_le_of_unspent otherTrimmed fun nPos => (same nPos).symm)
  have sameVout : coins.vout = other.vout := by
    apply List.ext_getElem sameLength
    intro nPos here there
    have unspent := same nPos
    rw [CCoins.unspent, CCoins.unspent, List.getElem?_eq_getElem here,
      List.getElem?_eq_getElem there] at unspent
    cases null : isNull coins.vout[nPos] with
    | false =>
        rw [Option.filter_some_pos (by simp [null])] at unspent
        have found := unspent.symm
        rw [Option.filter_eq_some_iff] at found
        exact (Option.some.inj found.1).symm
    | true =>
        rw [Option.filter_some_neg (by simp [null])] at unspent
        have otherNull := Option.filter_eq_none_iff.mp unspent.symm _ rfl
        rw [blank _ (List.getElem_mem here) null,
          otherBlank _ (List.getElem_mem there) (by simpa using otherNull)]
  rcases coins with ⟨fCoinBase, fCoinStake, vout, nHeight, nVersion⟩
  rcases other with ⟨fCoinBase', fCoinStake', vout', nHeight', nVersion'⟩
  cases sameVout
  simp only [metadata, Prod.mk.injEq] at sameMetadata
  rcases sameMetadata with ⟨rfl, rfl, rfl, rfl⟩
  rfl

/-! ## Spending and putting back one output -/

theorem unspent_isSome_of_unpruned {coins : CCoins}
    (unpruned : coins.isPruned = false) :
    ∃ nPos, (coins.unspent nPos).isSome = true := by
  by_contra none
  rw [(isPruned_iff coins).mpr] at unpruned
  · cases unpruned
  · intro nPos
    simpa using fun found => none ⟨nPos, found⟩

/-- What is left of a well-formed entry is at a 32-bit position. -/
theorem exists_unspent {coins : CCoins} (good : WellFormed coins)
    (unpruned : coins.isPruned = false) :
    ∃ n : UInt32, (coins.unspent n.toNat).isSome = true := by
  rcases unspent_isSome_of_unpruned unpruned with ⟨nPos, here⟩
  rcases Option.isSome_iff_exists.mp here with ⟨txout, output⟩
  have bound :=
    (List.getElem?_eq_some_iff.mp (unspent_some_iff.mp output).1).1
  have position : (UInt32.ofNat nPos).toNat = nPos :=
    UInt32.toNat_ofNat_of_lt (lt_trans bound good.size)
  refine ⟨UInt32.ofNat nPos, ?_⟩
  rw [position]
  exact here

/-- What the undo data of a spent output says. -/
theorem spend_undo {out : COutPoint} {coins spent : CCoins}
    {undo : CTxInUndo} (done : coins.spend out = some (undo, spent)) :
    coins.unspent out.n.toNat = some undo.txout ∧
      undo.nHeight = (if spent.isPruned then coins.nHeight.toUInt32 else 0) ∧
      (spent.isPruned = true →
        undo.fCoinBase = coins.fCoinBase ∧ undo.nVersion = coins.nVersion) := by
  have prunedIff : spent.vout.isEmpty = spent.isPruned := by
    have trimmed : spent.cleanup = spent := by
      rw [spend_some done, cleanup_cleanup]
    cases pruned : spent.isPruned with
    | true => rw [vout_nil_of_pruned trimmed pruned, List.isEmpty_nil]
    | false =>
        cases shape : spent.vout with
        | nil => simp [CCoins.isPruned, shape] at pruned
        | cons txout rest => rfl
  rw [← prunedIff]
  unfold CCoins.spend at done
  rw [unspent_some_iff]
  split at done
  · cases done
  · rename_i txout found
    dsimp only at done
    split_ifs at done with null emptied
    all_goals
      cases done
      simp [found, null, emptied]
    exact ⟨rfl, rfl, rfl⟩

theorem metadata_spend {out : COutPoint} {coins spent : CCoins}
    {undo : CTxInUndo} (done : coins.spend out = some (undo, spent)) :
    metadata spent = metadata coins := by
  rw [spend_some done]
  rfl

theorem length_cleanup_le (coins : CCoins) :
    coins.cleanup.vout.length ≤ coins.vout.length :=
  (List.rdropWhile_prefix isNull _).length_le

/-- Spending keeps an entry well formed. -/
theorem wellFormed_spend {out : COutPoint} {coins spent : CCoins}
    {undo : CTxInUndo} (good : WellFormed coins)
    (done : coins.spend out = some (undo, spent)) : WellFormed spent := by
  have shape := spend_some done
  refine ⟨?_, ?_, ?_⟩
  · rw [shape, cleanup_cleanup]
  · intro txout member null
    rw [shape] at member
    have before : txout ∈ coins.vout.set out.n.toNat nullTxOut :=
      (List.rdropWhile_prefix isNull _).subset member
    rcases List.mem_or_eq_of_mem_set before with old | new
    · exact good.blank txout old null
    · exact new
  · have bound := length_cleanup_le
      { coins with vout := coins.vout.set out.n.toNat nullTxOut }
    rw [← shape, List.length_set] at bound
    exact lt_of_le_of_lt bound good.size

/-- An output goes back without touching any other. -/
theorem restoreOutput_some {out : COutPoint}
    (fits : out.n.toNat + 1 < 2 ^ 32) (undo : CTxInUndo) (coins : CCoins) :
    ∃ restored, restoreOutput out undo coins = some restored ∧
      metadata restored = metadata coins ∧
      (∀ nPos, restored.unspent nPos =
        if nPos = out.n.toNat then
          (some undo.txout).filter fun txout => !isNull txout
        else
          coins.unspent nPos) ∧
      ∀ txout ∈ restored.vout,
        txout = undo.txout ∨ txout = nullTxOut ∨ txout ∈ coins.vout := by
  have next : (out.n + 1).toNat = out.n.toNat + 1 := by
    rw [UInt32.toNat_add]
    exact Nat.mod_eq_of_lt fits
  unfold restoreOutput
  dsimp only
  rw [next]
  have inside : out.n.toNat < (coins.vout ++ List.replicate
      (out.n.toNat + 1 - coins.vout.length) nullTxOut).length := by
    rw [List.length_append, List.length_replicate]
    omega
  rw [if_pos inside]
  refine ⟨_, rfl, rfl, ?_, ?_⟩
  · intro nPos
    unfold CCoins.unspent
    dsimp only
    by_cases here : nPos = out.n.toNat
    · subst here
      rw [if_pos rfl, List.getElem?_set_self inside]
    · rw [if_neg here, List.getElem?_set_ne (Ne.symm here)]
      by_cases old : nPos < coins.vout.length
      · rw [List.getElem?_append_left old]
      · rw [List.getElem?_append_right (Nat.le_of_not_lt old),
          List.getElem?_eq_none (Nat.le_of_not_lt old),
          List.getElem?_replicate]
        split_ifs <;> rfl
  · intro txout member
    rcases List.mem_or_eq_of_mem_set member with padded | new
    · rcases List.mem_append.mp padded with old | filler
      · exact Or.inr (Or.inr old)
      · exact Or.inr (Or.inl (List.eq_of_mem_replicate filler))
    · exact Or.inl new

/-! ## What one entry goes through -/

/-- Whether a full spend and its undo, which finds the given entry, bring the
metadata back. -/
def Undoable (found coins : CCoins) : Prop :=
  if coins.nHeight = 0 then metadata found = metadata coins
  else coins.fCoinStake = false

instance (found coins : CCoins) : Decidable (Undoable found coins) :=
  inferInstanceAs (Decidable (ite _ _ _))

theorem undoable_congr {coins other found found' : CCoins}
    (same : metadata coins = metadata other)
    (sameFound : metadata found = metadata found') :
    Undoable found coins ↔ Undoable found' other := by
  unfold Undoable
  rw [same, sameFound]
  simp only [metadata, Prod.mk.injEq] at same
  rw [same.2.1, same.2.2.1]

/-- Restoring into what is left gives the metadata back exactly when it can. -/
theorem metadata_restoreMetadata_iff {undo : CTxInUndo}
    {found coins : CCoins} (height : undo.nHeight = coins.nHeight.toUInt32)
    (base : undo.fCoinBase = coins.fCoinBase)
    (version : undo.nVersion = coins.nVersion) :
    metadata (restoreMetadata undo found) = metadata coins ↔
      Undoable found coins := by
  have zero : coins.nHeight.toUInt32 = 0 ↔ coins.nHeight = 0 := by
    constructor
    · intro none
      exact congrArg UInt32.toInt32 none
    · intro none
      rw [none]
      rfl
  unfold restoreMetadata Undoable
  rw [height, base, version]
  by_cases none : coins.nHeight = 0
  · rw [if_neg (not_not.mpr (zero.mpr none)), if_pos none]
  · rw [if_pos (mt zero.mp none), if_neg none]
    simp only [metadata, CCoins.empty, Prod.mk.injEq]
    constructor
    · rintro ⟨_, stake, _, _⟩
      exact stake.symm
    · intro stake
      exact ⟨trivial, stake.symm, rfl, trivial⟩

/-- An output or the metadata of an entry is not found any more. -/
def Lost (coins found : CCoins) : Prop :=
  (∃ nPos, (coins.unspent nPos).isSome = true ∧
    found.unspent nPos = none) ∨
    metadata found ≠ metadata coins

theorem Lost.ne {coins found : CCoins} (lost : Lost coins found) :
    found ≠ coins := by
  rintro rfl
  rcases lost with ⟨nPos, here, gone⟩ | different
  · rw [gone] at here
    cases here
  · exact different rfl

/-- Something was left of the entry, and is lost. -/
def Forgotten (before found : CCoins) : Prop :=
  before.isPruned = false ∧ Lost before found

/-- What is found in place of an entry when everything of it is spent. -/
def remains (base : CoinsMap) (txid : UInt256) (coins : CCoins) : CCoins :=
  if isFresh base txid then below base txid else coins

theorem metadata_remains {base : CoinsMap} {txid : UInt256}
    {coins other : CCoins} (same : metadata coins = metadata other) :
    metadata (remains base txid coins) =
      metadata (remains base txid other) := by
  unfold remains
  split_ifs
  · rfl
  · exact same

/-- Spending only ever takes outputs away. -/
structure Shrinks (base : CoinsMap) (txid : UInt256)
    (before after : CCoins) : Prop where
  untouched : before.isPruned = true → after = before
  left : after.isPruned = false → metadata after = metadata before
  gone : before.isPruned = false → after.isPruned = true →
    metadata after = metadata (remains base txid before)

section Entries

variable {base : CoinsMap} {txid : UInt256}

theorem Shrinks.refl (entry : CCoins) : Shrinks base txid entry entry where
  untouched := fun _ => rfl
  left := fun _ => rfl
  gone := fun left gone => by
    rw [left] at gone
    cases gone

theorem Shrinks.before {before after : CCoins}
    (shrinks : Shrinks base txid before after)
    (left : after.isPruned = false) : before.isPruned = false := by
  cases pruned : before.isPruned with
  | false => rfl
  | true =>
      rw [shrinks.untouched pruned, pruned] at left
      cases left

theorem Shrinks.trans {first second third : CCoins}
    (one : Shrinks base txid first second)
    (two : Shrinks base txid second third) :
    Shrinks base txid first third where
  untouched := by
    intro pruned
    have same := one.untouched pruned
    rw [two.untouched (same ▸ pruned), same]
  left := fun left =>
    (two.left left).trans (one.left (two.before left))
  gone := by
    intro left gone
    cases pruned : second.isPruned with
    | true =>
        rw [two.untouched pruned]
        exact one.gone left pruned
    | false =>
        rw [two.gone pruned gone]
        exact metadata_remains (one.left pruned)

/-- The undo of the rest has given an entry back as it was, or found nothing
left of it. -/
structure Same (after after' : CCoins) : Prop where
  left : after.isPruned = false → after' = after
  gone : after.isPruned = true → after'.vout = []

/--
How a part of a block and its undo act on one entry: `before` becomes `after`,
and where the rest of the undo left `after'`, this part leaves `before'`.
-/
structure Undoes (before after after' before' : CCoins) : Prop where
  untouched : before.isPruned = true → before' = after'
  restores : Same after after' → before.isPruned = false →
    (after.isPruned = true → Undoable after' before) → before' = before
  loses : Same after after' → before.isPruned = false →
    after.isPruned = true → ¬ Undoable after' before → Lost before before'
  stays : Forgotten after after' → Forgotten before before'

theorem Undoes.refl (entry found : CCoins) :
    Undoes entry entry found found where
  untouched := fun _ => rfl
  restores := fun same left _ => same.left left
  loses := by
    intro _ left gone
    rw [left] at gone
    cases gone
  stays := id

theorem Undoes.trans {first second third third' second' first' : CCoins}
    (shrinks : Shrinks base txid first second)
    (shrinks' : Shrinks base txid second third)
    (one : Undoes first second second' first')
    (two : Undoes second third third' second') :
    Undoes first third third' first' where
  untouched := by
    intro pruned
    rw [one.untouched pruned,
      two.untouched (shrinks.untouched pruned ▸ pruned)]
  restores := by
    intro same left undoable
    cases pruned : second.isPruned with
    | true =>
        have untouched := shrinks'.untouched pruned
        rw [untouched] at same undoable
        have kept := two.untouched pruned
        exact one.restores (kept ▸ same) left
          fun gone => kept ▸ undoable gone
    | false =>
        have restored := two.restores same pruned fun gone =>
          (undoable_congr (shrinks.left pruned) rfl).mpr (undoable gone)
        refine one.restores ⟨fun _ => restored, ?_⟩ left ?_ <;>
          · intro gone
            rw [pruned] at gone
            cases gone
  loses := by
    intro same left gone notUndoable
    cases pruned : second.isPruned with
    | true =>
        rw [shrinks'.untouched pruned] at same
        have kept := two.untouched pruned
        exact one.loses (kept ▸ same) left pruned (kept ▸ notUndoable)
    | false =>
        refine (one.stays ⟨pruned, two.loses same pruned gone ?_⟩).2
        rw [undoable_congr (shrinks.left pruned) rfl]
        exact notUndoable
  stays := fun forgotten => one.stays (two.stays forgotten)

/-! ## The inputs of a transaction -/

theorem unpruned_of_unspent {coins : CCoins} {nPos : Nat} {txout : CTxOut}
    (here : coins.unspent nPos = some txout) : coins.isPruned = false := by
  rw [Bool.eq_false_iff]
  intro pruned
  rw [(isPruned_iff _).mp pruned] at here
  cases here

/-- What is found of an entry that was spent from. -/
theorem settled_spent {out : COutPoint} {undo : CTxInUndo}
    {coins spent : CCoins} (done : coins.spend out = some (undo, spent)) :
    settled base txid spent =
      if spent.isPruned then remains base txid spent else spent := by
  unfold settled remains
  rw [spend_some done, cleanup_cleanup]
  cases isFresh base txid <;> simp

/-- Something is put into an entry, which is found as it was put. -/
theorem settled_unpruned {coins : CCoins}
    (unpruned : coins.isPruned = false) :
    settled base txid coins = coins.cleanup := by
  have left : coins.cleanup.isPruned = false := by
    rcases unspent_isSome_of_unpruned unpruned with ⟨nPos, here⟩
    rcases Option.isSome_iff_exists.mp here with ⟨txout, output⟩
    exact unpruned_of_unspent ((unspent_cleanup coins nPos).trans output)
  rw [settled, left, Bool.and_false, if_neg Bool.false_ne_true]

theorem isPruned_remains {coins : CCoins} (pruned : coins.isPruned = true) :
    (remains base txid coins).isPruned = true := by
  unfold remains
  split_ifs with fresh
  · exact fresh
  · exact pruned

theorem wellFormed_remains {coins : CCoins} (good : WellFormed coins)
    (goodBelow : WellFormed (below base txid)) :
    WellFormed (remains base txid coins) := by
  unfold remains
  split_ifs
  · exact goodBelow
  · exact good

/-- An output is back in an entry, which is as its base apart from it. -/
structure PutBack (out : COutPoint) (undo : CTxInUndo)
    (base restored : CCoins) : Prop where
  trimmed : restored.cleanup = restored
  sameMetadata : metadata restored = metadata base
  unspent : ∀ nPos, restored.unspent nPos =
    if nPos = out.n.toNat then some undo.txout else base.unspent nPos
  outputs : ∀ txout ∈ restored.vout,
    txout = undo.txout ∨ txout = nullTxOut ∨ txout ∈ base.vout

/-- The view after an output went back. -/
theorem restoreInput_some {out : COutPoint} {undo : CTxInUndo}
    {fClean fClean' : Bool} {view view' : CCoinsViewCache base}
    (fits : out.n.toNat + 1 < 2 ^ 32) (real : isNull undo.txout = false)
    (undone : restoreInput out undo (fClean, view) = some (fClean', view')) :
    (∀ txid, txid ≠ out.hash → view'.entry txid = view.entry txid) ∧
      PutBack out undo (restoreMetadata undo (view.entry out.hash))
        (view'.entry out.hash) := by
  rcases restoreOutput_some fits undo
    (restoreMetadata undo (view.entry out.hash)) with
    ⟨coins, restored, sameMetadata, unspent, outputs⟩
  unfold restoreInput at undone
  dsimp only [CoinsView.entry, CoinsView.put] at undone
  rw [restored, Option.map_some] at undone
  cases undone
  rw [Option.filter_some_pos (by simp [real])] at unspent
  have here : coins.isPruned = false :=
    unpruned_of_unspent ((unspent out.n.toNat).trans (if_pos rfl))
  refine ⟨fun txid different =>
    CCoinsViewCache.entry_put_of_ne different coins, ?_⟩
  rw [CCoinsViewCache.entry_put_self, settled_unpruned here]
  refine ⟨cleanup_cleanup coins, sameMetadata, ?_, ?_⟩
  · intro nPos
    rw [unspent_cleanup, unspent]
  · intro txout member
    exact outputs txout ((List.rdropWhile_prefix isNull _).subset member)

theorem shrinks_put_spend {view : CCoinsViewCache base} {out : COutPoint}
    {undo : CTxInUndo} {spent : CCoins}
    (done : (view.entry out.hash).spend out = some (undo, spent))
    (txid : UInt256) :
    Shrinks base txid (view.entry txid)
      ((view.put out.hash spent).entry txid) := by
  by_cases here : txid = out.hash
  · subst here
    have before := unpruned_of_unspent (spend_undo done).1
    rw [CCoinsViewCache.entry_put_self, settled_spent done]
    refine ⟨?_, ?_, ?_⟩
    · intro pruned
      rw [before] at pruned
      cases pruned
    · intro left
      split_ifs at left ⊢ with pruned
      · rw [isPruned_remains pruned] at left
        cases left
      · exact metadata_spend done
    · intro _ gone
      split_ifs at gone ⊢ with pruned
      · exact metadata_remains (metadata_spend done)
      · exact absurd gone pruned
  · rw [CCoinsViewCache.entry_put_of_ne here]
    exact Shrinks.refl _

theorem wellFormed_put_spend {view : CCoinsViewCache base} {out : COutPoint}
    {undo : CTxInUndo} {spent : CCoins}
    (good : WellFormed (view.entry txid))
    (goodBelow : WellFormed (below base txid))
    (done : (view.entry out.hash).spend out = some (undo, spent)) :
    WellFormed ((view.put out.hash spent).entry txid) := by
  by_cases here : txid = out.hash
  · subst here
    have after := wellFormed_spend good done
    rw [CCoinsViewCache.entry_put_self, settled_spent done]
    split_ifs
    · exact wellFormed_remains after goodBelow
    · exact after
  · rw [CCoinsViewCache.entry_put_of_ne here]
    exact good

/-- An output put back into what spending it left. -/
theorem PutBack.eq_before {out : COutPoint} {undo : CTxInUndo}
    {coins spent base restored : CCoins}
    (putBack : PutBack out undo base restored) (good : WellFormed coins)
    (done : coins.spend out = some (undo, spent))
    (others : ∀ nPos, nPos ≠ out.n.toNat →
      base.unspent nPos = coins.unspent nPos)
    (sameMetadata : metadata base = metadata coins)
    (blank : ∀ txout ∈ base.vout, isNull txout = true → txout = nullTxOut) :
    restored = coins := by
  have output := (spend_undo done).1
  apply eq_of_unspent putBack.trimmed good.trimmed _ good.blank
  · intro nPos
    rw [putBack.unspent]
    split_ifs with here
    · rw [here, output]
    · exact others nPos here
  · exact putBack.sameMetadata.trans sameMetadata
  · intro txout member null
    rcases putBack.outputs txout member with rfl | new | old
    · rw [(unspent_some_iff.mp output).2] at null
      cases null
    · exact new
    · exact blank txout old null

/-- Spending one of several outputs and putting it back, seen from the entry. -/
theorem undoes_spend_one {out : COutPoint} {undo : CTxInUndo}
    {coins spent after' restored : CCoins} (good : WellFormed coins)
    (done : coins.spend out = some (undo, spent))
    (unpruned : spent.isPruned = false)
    (putBack : PutBack out undo (restoreMetadata undo after') restored) :
    Undoes coins spent after' restored := by
  have left := unspent_spend done
  have before := unpruned_of_unspent (spend_undo done).1
  -- Other outputs are left, so the undo data has no metadata.
  have height := (spend_undo done).2.1
  rw [unpruned, if_neg Bool.false_ne_true] at height
  have base : restoreMetadata undo after' = after' := by
    rw [restoreMetadata, if_neg (by simp [height])]
  rw [base] at putBack
  refine ⟨?_, ?_, ?_, ?_⟩
  · intro pruned
    rw [before] at pruned
    cases pruned
  · intro same _ _
    cases same.left unpruned
    apply putBack.eq_before good done
    · intro nPos other
      rw [left, if_neg other]
    · exact metadata_spend done
    · exact (wellFormed_spend good done).blank
  · intro _ _ gone
    rw [unpruned] at gone
    cases gone
  · rintro ⟨_, lost⟩
    refine ⟨before, ?_⟩
    rcases lost with ⟨nPos, here, gone⟩ | different
    · left
      rw [left] at here
      split_ifs at here with same
      · cases here
      · refine ⟨nPos, here, ?_⟩
        rw [putBack.unspent, if_neg same, gone]
    · right
      rw [putBack.sameMetadata, ← metadata_spend done]
      exact different

/-- Spending the last output and putting it back. -/
theorem undoes_spend_last {out : COutPoint} {undo : CTxInUndo}
    {coins spent after after' restored : CCoins} (good : WellFormed coins)
    (done : coins.spend out = some (undo, spent))
    (pruned : spent.isPruned = true) (gone : after.isPruned = true)
    (putBack : PutBack out undo (restoreMetadata undo after') restored) :
    Undoes coins after after' restored := by
  rcases spend_undo done with ⟨output, height, fields⟩
  have before := unpruned_of_unspent output
  rw [pruned, if_pos rfl] at height
  rcases fields pruned with ⟨base, version⟩
  have keepsIff := @metadata_restoreMetadata_iff undo after' coins height base
    version
  refine ⟨?_, ?_, ?_, ?_⟩
  · intro impossible
    rw [before] at impossible
    cases impossible
  · intro same _ undoable
    have nothing : (restoreMetadata undo after').vout = [] := by
      unfold restoreMetadata
      split_ifs
      · rfl
      · exact same.gone gone
    apply putBack.eq_before good done
    · intro nPos other
      have left := unspent_spend done nPos
      rw [(isPruned_iff spent).mp pruned, if_neg other] at left
      rw [← left, CCoins.unspent, nothing]
      rfl
    · exact keepsIff.mpr (undoable gone)
    · intro txout impossible
      rw [nothing] at impossible
      cases impossible
  · intro _ _ _ notUndoable
    right
    rw [putBack.sameMetadata, Ne, keepsIff]
    exact notUndoable
  · rintro ⟨left, _⟩
    rw [gone] at left
    cases left

theorem undoes_input {out : COutPoint} {undo : CTxInUndo} {spent : CCoins}
    {fClean fClean' : Bool} {view after' before' : CCoinsViewCache base}
    (good : WellFormed (view.entry txid))
    (fits : out.n.toNat + 1 < 2 ^ 32)
    (done : (view.entry out.hash).spend out = some (undo, spent))
    (undone : restoreInput out undo (fClean, after') =
      some (fClean', before')) :
    Undoes (view.entry txid) ((view.put out.hash spent).entry txid)
      (after'.entry txid) (before'.entry txid) := by
  have real := (unspent_some_iff.mp (spend_undo done).1).2
  rcases restoreInput_some fits real undone with ⟨others, putBack⟩
  by_cases here : txid = out.hash
  · subst here
    rw [CCoinsViewCache.entry_put_self, settled_spent done]
    cases pruned : spent.isPruned with
    | false => exact undoes_spend_one good done pruned putBack
    | true =>
        exact undoes_spend_last good done pruned (isPruned_remains pruned)
          putBack
  · rw [CCoinsViewCache.entry_put_of_ne here, others txid here]
    exact Undoes.refl _ _

end Entries

section Views

variable {V : Type} [CoinsView V]

theorem spendInputs_cons {txin : CTxIn} {rest : List CTxIn} {view after : V}
    {undos : List CTxInUndo}
    (spent : spendInputs (txin :: rest) view = some (undos, after)) :
    ∃ undo coins undos',
      (CoinsView.entry view txin.prevout.hash).spend txin.prevout =
        some (undo, coins) ∧
      spendInputs rest (CoinsView.put view txin.prevout.hash coins) =
        some (undos', after) ∧
      undos = undo :: undos' := by
  rw [spendInputs] at spent
  cases done : (CoinsView.entry view txin.prevout.hash).spend
      txin.prevout with
  | none =>
      rw [done] at spent
      cases spent
  | some reached =>
      rcases reached with ⟨undo, coins⟩
      rw [done] at spent
      dsimp only at spent
      cases later : spendInputs rest
          (CoinsView.put view txin.prevout.hash coins) with
      | none =>
          rw [later] at spent
          cases spent
      | some reached =>
          rw [later] at spent
          cases spent
          exact ⟨undo, coins, reached.1, rfl, later, rfl⟩

theorem restoreInputs_cons {txin : CTxIn} {undo : CTxInUndo}
    {rest : List (CTxIn × CTxInUndo)} {state state' : Bool × V}
    (undone : restoreInputs ((txin, undo) :: rest) state = some state') :
    ∃ middle, restoreInputs rest state = some middle ∧
      restoreInput txin.prevout undo middle = some state' := by
  rw [restoreInputs] at undone
  cases later : restoreInputs rest state with
  | none =>
      rw [later] at undone
      cases undone
  | some middle =>
      rw [later] at undone
      exact ⟨middle, rfl, undone⟩

/-- Which outputs of one entry are left after spending inputs. -/
theorem unspent_spendInputs {vin : List CTxIn} {view after : V}
    {undos : List CTxInUndo}
    (spent : spendInputs vin view = some (undos, after)) (out : COutPoint) :
    CoinsView.unspent after out =
      if out ∈ vin.map CTxIn.prevout then none
      else CoinsView.unspent view out := by
  induction vin generalizing view undos with
  | nil =>
      cases spent
      rfl
  | cons txin rest ih =>
      rcases spendInputs_cons spent with ⟨undo, coins, undos', done, later, _⟩
      rw [ih later, unspent_put_spend done, List.map_cons]
      by_cases inRest : out ∈ rest.map CTxIn.prevout
      · rw [if_pos inRest, if_pos (List.mem_cons_of_mem _ inRest)]
      · rw [if_neg inRest]
        by_cases first : out = txin.prevout
        · rw [if_pos first, if_pos (first ▸ List.mem_cons_self)]
        · rw [if_neg first,
            if_neg (mt List.mem_cons.mp (not_or.mpr ⟨first, inRest⟩))]

end Views

section Inputs

variable {base : CoinsMap} {txid : UInt256} {vin : List CTxIn}
  {view after : CCoinsViewCache base} {undos : List CTxInUndo}

/-- What spending inputs does to one entry. -/
theorem spendInputs_entry (good : WellFormed (view.entry txid))
    (goodBelow : WellFormed (below base txid))
    (spent : spendInputs vin view = some (undos, after)) :
    Shrinks base txid (view.entry txid) (after.entry txid) ∧
      WellFormed (after.entry txid) := by
  induction vin generalizing view undos with
  | nil =>
      cases spent
      exact ⟨Shrinks.refl _, good⟩
  | cons txin rest ih =>
      rcases spendInputs_cons spent with ⟨undo, coins, undos', done, later, _⟩
      rcases ih (wellFormed_put_spend good goodBelow done) later with
        ⟨shrinks, kept⟩
      exact ⟨(shrinks_put_spend done txid).trans shrinks, kept⟩

/-- Spending the inputs and restoring them, seen from any entry. -/
theorem undoes_inputs {fClean fClean' : Bool}
    {after' before' : CCoinsViewCache base}
    (good : WellFormed (view.entry txid))
    (goodBelow : WellFormed (below base txid))
    (fits : ∀ txin ∈ vin, txin.prevout.n.toNat + 1 < 2 ^ 32)
    (spent : spendInputs vin view = some (undos, after))
    (undone : restoreInputs (vin.zip undos) (fClean, after') =
      some (fClean', before')) :
    Undoes (view.entry txid) (after.entry txid) (after'.entry txid)
      (before'.entry txid) := by
  induction vin generalizing view undos fClean' before' with
  | nil =>
      cases spent
      cases undone
      exact Undoes.refl _ _
  | cons txin rest ih =>
      rcases spendInputs_cons spent with ⟨undo, coins, undos', done, later, rfl⟩
      rcases restoreInputs_cons undone with ⟨⟨middleClean, middle'⟩, first, last⟩
      have goodLater := wellFormed_put_spend good goodBelow done
      have inner := ih goodLater
        (fun other member => fits other (List.mem_cons_of_mem _ member))
        later first
      exact Undoes.trans (shrinks_put_spend done txid)
        (spendInputs_entry goodLater goodBelow later).1
        (undoes_input good (fits txin List.mem_cons_self) done last) inner

end Inputs

/-! ## Positions in 32 bits -/

def Sized {base : CoinsMap} (view : CCoinsViewCache base) : Prop :=
  ∀ txid, (view.entry txid).vout.length < 2 ^ 32 ∧
    (below base txid).vout.length < 2 ^ 32

section Blocks

variable {base : CoinsMap} {view after : CCoinsViewCache base}
  {undos : List CTxInUndo}

theorem sized_put (sized : Sized view) (txid : UInt256) {coins : CCoins}
    (size : coins.vout.length < 2 ^ 32) : Sized (view.put txid coins) := by
  intro other
  refine ⟨?_, (sized other).2⟩
  by_cases here : other = txid
  · subst here
    rw [CCoinsViewCache.entry_put_self, settled]
    split_ifs
    · exact (sized other).2
    · exact lt_of_le_of_lt (length_cleanup_le coins) size
  · rw [CCoinsViewCache.entry_put_of_ne here]
    exact (sized other).1

/-- The positions that are spent fit, and the view stays as it was. -/
theorem sized_spendInputs {vin : List CTxIn} (sized : Sized view)
    (spent : spendInputs vin view = some (undos, after)) :
    Sized after ∧ undos.length = vin.length ∧
      ∀ txin ∈ vin, txin.prevout.n.toNat + 1 < 2 ^ 32 := by
  induction vin generalizing view undos with
  | nil =>
      cases spent
      exact ⟨sized, rfl, by simp⟩
  | cons txin rest ih =>
      rcases spendInputs_cons spent with ⟨undo, coins, undos', done, later, rfl⟩
      have size : (view.entry txin.prevout.hash).vout.length < 2 ^ 32 :=
        (sized _).1
      have output := (unspent_some_iff.mp (spend_undo done).1).1
      have inside := (List.getElem?_eq_some_iff.mp output).1
      have shrunk : coins.vout.length < 2 ^ 32 := by
        rw [spend_some done]
        refine lt_of_le_of_lt (length_cleanup_le _) ?_
        rw [List.length_set]
        exact size
      rcases ih (sized_put sized _ shrunk) later with ⟨after, lengths, fits⟩
      refine ⟨after, by simp [lengths], ?_⟩
      intro other member
      rcases List.mem_cons.mp member with rfl | inRest
      · exact lt_of_le_of_lt inside size
      · exact fits other inRest

theorem restoreInput_isSome {out : COutPoint}
    (fits : out.n.toNat + 1 < 2 ^ 32) (undo : CTxInUndo)
    (state : Bool × CCoinsViewCache base) :
    ∃ state', restoreInput out undo state = some state' := by
  rcases restoreOutput_some fits undo
    (restoreMetadata undo (CoinsView.entry state.2 out.hash)) with
    ⟨coins, restored, _⟩
  unfold restoreInput
  dsimp only
  rw [restored]
  exact ⟨_, rfl⟩

theorem restoreInputs_isSome {vin : List CTxIn}
    (fits : ∀ txin ∈ vin, txin.prevout.n.toNat + 1 < 2 ^ 32)
    (undos : List CTxInUndo) (state : Bool × CCoinsViewCache base) :
    ∃ state', restoreInputs (vin.zip undos) state = some state' := by
  induction vin generalizing undos with
  | nil => exact ⟨state, rfl⟩
  | cons txin rest ih =>
      cases undos with
      | nil => exact ⟨state, rfl⟩
      | cons undo undos =>
          rcases ih (fun other member =>
            fits other (List.mem_cons_of_mem _ member)) undos with
            ⟨middle, done⟩
          rw [List.zip_cons_cons, restoreInputs, done]
          exact restoreInput_isSome (fits txin List.mem_cons_self) undo middle

/-! ## The transactions of a block -/

/-- The inputs that a transaction spends from the view. -/
def spentInputs (tx : CTransaction) : List CTxIn :=
  if spendsCoins tx = some true then tx.vin else []

theorem updateCoins_some {V : Type} [CoinsView V] {tx : CTransaction}
    {nHeight : Int32} {view after : V}
    (done : updateCoins tx nHeight view = some (undos, after)) :
    ∃ spends created middle,
      spendsCoins tx = some spends ∧
      CCoins.fromTx tx nHeight = some created ∧
      spendInputs (spentInputs tx) view = some (undos, middle) ∧
      after = CoinsView.put middle tx.getHash created := by
  unfold updateCoins at done
  unfold spentInputs
  cases kind : spendsCoins tx with
  | none =>
      rw [kind] at done
      cases done
  | some spends =>
      cases outputs : CCoins.fromTx tx nHeight with
      | none =>
          rw [kind, outputs] at done
          cases done
      | some created =>
          rw [kind, outputs] at done
          dsimp only at done
          cases spends with
          | false =>
              cases done
              exact ⟨false, created, view, rfl, rfl, rfl, rfl⟩
          | true =>
              rw [if_pos rfl] at done ⊢
              cases spent : spendInputs tx.vin view with
              | none =>
                  rw [spent] at done
                  cases done
              | some reached =>
                  rw [spent] at done
                  cases done
                  exact ⟨true, created, reached.2, rfl, rfl, rfl, rfl⟩

/-- Disconnecting a transaction is removing its outputs, then restoring. -/
theorem disconnectTx_eq {tx : CTransaction} {nHeight : Int32}
    {txundo : Option (List CTxInUndo)} {spends : Bool} {created : CCoins}
    (state : Bool × CCoinsViewCache base)
    (kind : spendsCoins tx = some spends)
    (outputs : CCoins.fromTx tx nHeight = some created)
    (kept : spends = true → txundo = some undos)
    (lengths : undos.length = (spentInputs tx).length) :
    disconnectTx nHeight tx txundo state =
      restoreInputs ((spentInputs tx).zip undos)
        (removeOutputs tx created state) := by
  unfold disconnectTx
  unfold spentInputs at lengths ⊢
  rw [kind, outputs]
  dsimp only
  rw [kind] at lengths
  cases spends with
  | false => rfl
  | true =>
      rw [if_pos rfl] at lengths
      rw [kept rfl, if_pos rfl, if_pos rfl]
      dsimp only
      rw [if_neg (not_not.mpr lengths)]

/--
The outpoints spent up to and including the first transaction with the given
hash; from there on the entry is a new one.
-/
def spentBefore (txid : UInt256) : List CTransaction → List COutPoint
  | [] => []
  | tx :: rest =>
      (spentInputs tx).map CTxIn.prevout ++
        if tx.getHash = txid then [] else spentBefore txid rest

/-- Everything unspent of an entry is among the given outpoints. -/
def Exhausts (txid : UInt256) (coins : CCoins) (outs : List COutPoint) :
    Prop :=
  ∀ n : UInt32, (coins.unspent n.toNat).isSome = true → ⟨txid, n⟩ ∈ outs

/-- The block has a transaction with this hash. -/
abbrev Created (txid : UInt256) (vtx : List CTransaction) : Prop :=
  ∃ tx ∈ vtx, tx.getHash = txid

/--
What the undo finds of an entry of which the block spends everything: the entry
below where that has nothing unspent, or else the spent entry, which is empty
once the block made it anew.
-/
def leftover (base : CoinsMap) (txid : UInt256) (vtx : List CTransaction)
    (coins : CCoins) : CCoins :=
  remains base txid (if Created txid vtx then .empty else coins)

/--
When a block and its undo give an entry back: if the block spends all of it
then its metadata can be undone, and the block creates the entry anew only
after it spent all of it.
-/
def Restorable (base : CoinsMap) (txid : UInt256) (vtx : List CTransaction)
    (coins : CCoins) : Prop :=
  (Exhausts txid coins (spentBefore txid vtx) →
      Undoable (leftover base txid vtx coins) coins) ∧
    (Created txid vtx → Exhausts txid coins (spentBefore txid vtx))

/-- An entry comes back if it is restorable and is lost if it is not; where
there is none it stays so. -/
structure Outcome (base : CoinsMap) (txid : UInt256)
    (vtx : List CTransaction) (before before' : CCoins) : Prop where
  absent : before.isPruned = true → before' =
    if Created txid vtx then settled base txid .empty else before
  kept : before.isPruned = false → Restorable base txid vtx before →
    before' = before
  lost : before.isPruned = false → ¬ Restorable base txid vtx before →
    Lost before before'

/-- After the inputs are spent an entry is gone exactly when exhausted. -/
theorem spendInputs_pruned_iff {vin : List CTxIn} {txid : UInt256}
    (good : WellFormed (view.entry txid))
    (goodBelow : WellFormed (below base txid))
    (spent : spendInputs vin view = some (undos, after)) :
    (after.entry txid).isPruned = true ↔
      Exhausts txid (view.entry txid) (vin.map CTxIn.prevout) := by
  have left : ∀ n : UInt32, (after.entry txid).unspent n.toNat =
      if ⟨txid, n⟩ ∈ vin.map CTxIn.prevout then none
      else (view.entry txid).unspent n.toNat :=
    fun n => unspent_spendInputs spent ⟨txid, n⟩
  constructor
  · intro gone n unspent
    by_contra notSpent
    have here := left n
    rw [if_neg notSpent, (isPruned_iff _).mp gone] at here
    rw [← here] at unspent
    cases unspent
  · intro exhausts
    by_contra unpruned
    rcases exists_unspent (spendInputs_entry good goodBelow spent).2
      (eq_false_of_ne_true unpruned) with ⟨n, here⟩
    rw [left] at here
    split_ifs at here with spentHere
    · cases here
    · exact absurd (exhausts n here) spentHere

/-- What is left of an entry is exhausted by the rest of the spends. -/
theorem exhausts_append_iff {vin : List CTxIn} {txid : UInt256}
    (spent : spendInputs vin view = some (undos, after))
    (outs : List COutPoint) :
    Exhausts txid (view.entry txid) (vin.map CTxIn.prevout ++ outs) ↔
      Exhausts txid (after.entry txid) outs := by
  have unspent : ∀ n : UInt32, (after.entry txid).unspent n.toNat =
      if ⟨txid, n⟩ ∈ vin.map CTxIn.prevout then none
      else (view.entry txid).unspent n.toNat :=
    fun n => unspent_spendInputs spent ⟨txid, n⟩
  constructor
  · intro exhausts n here
    rw [unspent] at here
    split_ifs at here with spentHere
    · cases here
    · exact (List.mem_append.mp (exhausts n here)).resolve_left spentHere
  · intro exhausts n here
    by_cases spentHere : (⟨txid, n⟩ : COutPoint) ∈ vin.map CTxIn.prevout
    · exact List.mem_append_left _ spentHere
    · apply List.mem_append_right
      apply exhausts
      rw [unspent, if_neg spentHere]
      exact here

theorem isPruned_settled_empty (txid : UInt256) :
    (settled base txid .empty).isPruned = true := by
  rw [isPruned_iff]
  intro nPos
  rw [unspent_settled]
  rfl

theorem vout_settled_empty {txid : UInt256}
    (goodBelow : WellFormed (below base txid)) :
    (settled base txid .empty).vout = [] := by
  unfold settled
  split_ifs with fresh
  · exact vout_nil_of_pruned goodBelow.trimmed
      (Bool.and_eq_true_iff.mp fresh).1
  · rfl

/-- An empty entry is what is left once the block made the entry anew. -/
theorem leftover_created {txid : UInt256} {vtx : List CTransaction}
    (created : Created txid vtx) (coins : CCoins) :
    leftover base txid vtx coins = settled base txid .empty := by
  have pruned : CCoins.empty.cleanup.isPruned = true := rfl
  rw [leftover, if_pos created, remains, settled, pruned, Bool.and_true]
  rfl

/-- Nothing is left of a lost entry. -/
theorem forgotten_pruned {coins found : CCoins}
    (unpruned : coins.isPruned = false) (gone : found.isPruned = true) :
    Forgotten coins found := by
  rcases unspent_isSome_of_unpruned unpruned with ⟨nPos, here⟩
  exact ⟨unpruned, Or.inl ⟨nPos, here, (isPruned_iff _).mp gone nPos⟩⟩

section Outcomes

variable {txid : UInt256} {tx : CTransaction} {rest : List CTransaction}
  {middle before' : CCoinsViewCache base} {after' : CCoins}

/-- The transaction replaces the entry: only what is spent first comes back. -/
theorem outcome_of_created (isHere : tx.getHash = txid)
    (good : WellFormed (view.entry txid))
    (goodBelow : WellFormed (below base txid))
    (spent : spendInputs (spentInputs tx) view = some (undos, middle))
    (undoes : Undoes (view.entry txid) (middle.entry txid)
      (settled base txid .empty) (before'.entry txid)) :
    Outcome base txid (tx :: rest) (view.entry txid)
      (before'.entry txid) := by
  have outs : spentBefore txid (tx :: rest) =
      (spentInputs tx).map CTxIn.prevout := by
    rw [spentBefore, if_pos isHere, List.append_nil]
  have created : Created txid (tx :: rest) :=
    ⟨tx, List.mem_cons_self, isHere⟩
  have goneIff := spendInputs_pruned_iff good goodBelow spent
  rw [← outs] at goneIff
  have same : (middle.entry txid).isPruned = true →
      Same (middle.entry txid) (settled base txid .empty) := by
    intro gone
    refine ⟨fun left => ?_, fun _ => vout_settled_empty goodBelow⟩
    rw [gone] at left
    cases left
  have undoableIff : ∀ coins : CCoins,
      Undoable (leftover base txid (tx :: rest) coins) coins ↔
        Undoable (settled base txid .empty) coins :=
    fun coins => by rw [leftover_created created]
  refine ⟨?_, ?_, ?_⟩
  · intro absent
    rw [if_pos created, undoes.untouched absent]
  · intro unpruned restorable
    have exhausts := restorable.2 created
    exact undoes.restores (same (goneIff.mpr exhausts)) unpruned
      fun _ => (undoableIff _).mp (restorable.1 exhausts)
  · intro unpruned notRestorable
    cases reached : (middle.entry txid).isPruned with
    | true =>
        apply undoes.loses (same reached) unpruned reached
        intro undoable
        exact notRestorable ⟨fun _ => (undoableIff _).mpr undoable,
          fun _ => goneIff.mp reached⟩
    | false =>
        exact (undoes.stays (forgotten_pruned reached
          (isPruned_settled_empty txid))).2

/-- Nothing is left of the entry after the transaction. -/
theorem outcome_of_exhausted (isOther : tx.getHash ≠ txid)
    (good : WellFormed (view.entry txid))
    (goodBelow : WellFormed (below base txid))
    (spent : spendInputs (spentInputs tx) view = some (undos, middle))
    (gone : (middle.entry txid).isPruned = true)
    (later : Outcome base txid rest (middle.entry txid) after')
    (undoes : Undoes (view.entry txid) (middle.entry txid) after'
      (before'.entry txid)) :
    Outcome base txid (tx :: rest) (view.entry txid)
      (before'.entry txid) := by
  have created : Created txid (tx :: rest) ↔ Created txid rest := by
    simp [Created, isOther]
  have found := later.absent gone
  rcases spendInputs_entry good goodBelow spent with ⟨shrinks, goodMiddle⟩
  have same : Same (middle.entry txid) after' := by
    refine ⟨fun left => ?_, fun _ => ?_⟩
    · rw [gone] at left
      cases left
    · rw [found]
      split_ifs
      · exact vout_settled_empty goodBelow
      · exact vout_nil_of_pruned goodMiddle.trimmed gone
  have exhausted : Exhausts txid (view.entry txid)
      (spentBefore txid (tx :: rest)) := by
    intro n here
    rw [spentBefore, if_neg isOther]
    apply List.mem_append_left
    exact (spendInputs_pruned_iff good goodBelow spent).mp gone n here
  have undoableIff : (view.entry txid).isPruned = false →
      (Undoable (leftover base txid (tx :: rest) (view.entry txid))
        (view.entry txid) ↔ Undoable after' (view.entry txid)) := by
    intro unpruned
    apply undoable_congr rfl
    rw [found]
    by_cases again : Created txid rest
    · rw [if_pos again, leftover_created (created.mpr again)]
    · rw [if_neg again, leftover, if_neg (mt created.mp again),
        shrinks.gone unpruned gone]
  refine ⟨?_, ?_, ?_⟩
  · intro absent
    rw [undoes.untouched absent, found, shrinks.untouched absent]
    simp only [created]
  · intro unpruned restorable
    exact undoes.restores same unpruned
      fun _ => (undoableIff unpruned).mp (restorable.1 exhausted)
  · intro unpruned notRestorable
    apply undoes.loses same unpruned gone
    intro undoable
    exact notRestorable ⟨fun _ => (undoableIff unpruned).mpr undoable,
      fun _ => exhausted⟩

/-- What is left of the entry has the outcome of the rest. -/
theorem outcome_of_left (isOther : tx.getHash ≠ txid)
    (good : WellFormed (view.entry txid))
    (goodBelow : WellFormed (below base txid))
    (spent : spendInputs (spentInputs tx) view = some (undos, middle))
    (left : (middle.entry txid).isPruned = false)
    (later : Outcome base txid rest (middle.entry txid) after')
    (undoes : Undoes (view.entry txid) (middle.entry txid) after'
      (before'.entry txid)) :
    Outcome base txid (tx :: rest) (view.entry txid)
      (before'.entry txid) := by
  have created : Created txid (tx :: rest) ↔ Created txid rest := by
    simp [Created, isOther]
  have shrinks := (spendInputs_entry good goodBelow spent).1
  have unpruned := shrinks.before left
  have sameMetadata := shrinks.left left
  have sameLeftover : metadata (leftover base txid (tx :: rest)
      (view.entry txid)) =
        metadata (leftover base txid rest (middle.entry txid)) := by
    apply metadata_remains
    simp only [created]
    split_ifs
    · rfl
    · exact sameMetadata.symm
  have restorableIff : Restorable base txid (tx :: rest) (view.entry txid) ↔
      Restorable base txid rest (middle.entry txid) := by
    unfold Restorable
    rw [spentBefore, if_neg isOther, exhausts_append_iff spent, created,
      undoable_congr sameMetadata.symm sameLeftover]
  refine ⟨?_, ?_, ?_⟩
  · intro absent
    rw [unpruned] at absent
    cases absent
  · intro _ restorable
    have kept := later.kept left (restorableIff.mp restorable)
    refine undoes.restores ⟨fun _ => kept, ?_⟩ unpruned ?_ <;>
      · intro gone
        rw [left] at gone
        cases gone
  · intro _ notRestorable
    have lost := later.lost left (mt restorableIff.mpr notRestorable)
    exact (undoes.stays ⟨left, lost⟩).2

end Outcomes

theorem length_fromTx_le {tx : CTransaction} {nHeight : Int32}
    {created : CCoins} (outputs : CCoins.fromTx tx nHeight = some created) :
    created.vout.length ≤ tx.vout.length := by
  rcases Option.map_eq_some_iff.mp outputs with ⟨fCoinBase, _, rfl⟩
  refine le_trans (length_cleanup_le _) ?_
  rw [List.length_map]

theorem sized_updateCoins {tx : CTransaction} {nHeight : Int32}
    (sized : Sized view) (size : tx.vout.length < 2 ^ 32)
    (done : updateCoins tx nHeight view = some (undos, after)) :
    Sized after := by
  rcases updateCoins_some done with
    ⟨spends, created, middle, _, outputs, spent, rfl⟩
  exact sized_put (sized_spendInputs sized spent).1 _
    (lt_of_le_of_lt (length_fromTx_le outputs) size)

/-- One round of the loop, after the rounds for the rest of the block. -/
theorem disconnectTx_outcome {tx : CTransaction} {rest : List CTransaction}
    {nHeight : Int32} {after' : CCoinsViewCache base}
    {txundo : Option (List CTxInUndo)} (fClean : Bool) (sized : Sized view)
    (goodBelow : ∀ txid, WellFormed (below base txid))
    (done : updateCoins tx nHeight view = some (undos, after))
    (kept : spendsCoins tx = some true → txundo = some undos)
    (later : ∀ txid, WellFormed (after.entry txid) →
      Outcome base txid rest (after.entry txid) (after'.entry txid)) :
    ∃ fClean' before',
      disconnectTx nHeight tx txundo (fClean, after') =
        some (fClean', before') ∧
      ∀ txid, WellFormed (view.entry txid) →
        Outcome base txid (tx :: rest) (view.entry txid)
          (before'.entry txid) := by
  rcases updateCoins_some done with
    ⟨spends, created, middle, kind, outputs, spent, rfl⟩
  rcases sized_spendInputs sized spent with ⟨_, lengths, fits⟩
  have keptUndo : spends = true → txundo = some undos := by
    rintro rfl
    exact kept kind
  rcases restoreInputs_isSome fits undos
    (removeOutputs tx created (fClean, after')) with
    ⟨⟨fClean', before'⟩, undone⟩
  refine ⟨fClean', before', ?_, ?_⟩
  · rw [disconnectTx_eq _ kind outputs keptUndo lengths]
    exact undone
  · intro txid good
    have undoes := undoes_inputs good (goodBelow txid) fits spent undone
    dsimp only [CoinsView.put] at undoes
    by_cases isHere : tx.getHash = txid
    · subst isHere
      rw [CCoinsViewCache.entry_put_self] at undoes
      exact outcome_of_created rfl good (goodBelow _) spent undoes
    · rw [CCoinsViewCache.entry_put_of_ne (Ne.symm isHere)] at undoes
      have same : (middle.put tx.getHash created).entry txid =
          middle.entry txid :=
        CCoinsViewCache.entry_put_of_ne (Ne.symm isHere) created
      have laterHere := later txid
      dsimp only [CoinsView.put] at laterHere
      rw [same] at laterHere
      have outcome := laterHere
        (spendInputs_entry good (goodBelow txid) spent).2
      cases reached : (middle.entry txid).isPruned with
      | true =>
          exact outcome_of_exhausted isHere good (goodBelow txid) spent
            reached outcome undoes
      | false =>
          exact outcome_of_left isHere good (goodBelow txid) spent reached
            outcome undoes

theorem updateAll_cons {tx : CTransaction} {rest : List CTransaction}
    {nHeight : Int32} {undos : List (List CTxInUndo)}
    (connected : updateAll nHeight (tx :: rest) view = some (undos, after)) :
    ∃ undo middle undos', updateCoins tx nHeight view = some (undo, middle) ∧
      updateAll nHeight rest middle = some (undos', after) ∧
      undos = undo :: undos' := by
  rw [updateAll] at connected
  cases done : updateCoins tx nHeight view with
  | none =>
      rw [done] at connected
      cases connected
  | some reached =>
      rcases reached with ⟨undo, middle⟩
      rw [done] at connected
      dsimp only at connected
      cases later : updateAll nHeight rest middle with
      | none =>
          rw [later] at connected
          cases connected
      | some reached =>
          rw [later] at connected
          cases connected
          exact ⟨undo, middle, reached.1, rfl, later, rfl⟩

theorem length_updateAll {vtx : List CTransaction} {nHeight : Int32}
    {undos : List (List CTxInUndo)}
    (connected : updateAll nHeight vtx view = some (undos, after)) :
    undos.length = vtx.length := by
  induction vtx generalizing view undos with
  | nil =>
      cases connected
      rfl
  | cons tx rest ih =>
      rcases updateAll_cons connected with ⟨_, _, undos', _, later, rfl⟩
      rw [List.length_cons, List.length_cons, ih later]

/-- The loop over transactions that all have their undo data. -/
theorem disconnectTxs_outcome {vtx : List CTransaction} {nHeight : Int32}
    {undos : List (List CTxInUndo)} (fClean : Bool)
    (sized : Sized view) (goodBelow : ∀ txid, WellFormed (below base txid))
    (sizes : ∀ tx ∈ vtx, tx.vout.length < 2 ^ 32)
    (connected : updateAll nHeight vtx view = some (undos, after)) :
    ∃ fClean' before',
      disconnectTxs nHeight (vtx.zip (undos.map some)) (fClean, after) =
        some (fClean', before') ∧
      ∀ txid, WellFormed (view.entry txid) →
        Outcome base txid vtx (view.entry txid) (before'.entry txid) := by
  induction vtx generalizing view undos with
  | nil =>
      cases connected
      refine ⟨fClean, after, rfl, ?_⟩
      intro txid good
      refine ⟨fun _ => ?_, fun _ _ => rfl, ?_⟩
      · rw [if_neg (by simp [Created])]
      intro unpruned notRestorable
      refine absurd ⟨?_, ?_⟩ notRestorable
      · intro exhausts
        -- No block exhausts an entry without spending.
        rcases exists_unspent good unpruned with ⟨n, here⟩
        cases exhausts n here
      · rintro ⟨tx, ⟨⟩, _⟩
  | cons tx rest ih =>
      rcases updateAll_cons connected with
        ⟨undo, middle, undos', done, later, rfl⟩
      have sizedMiddle := sized_updateCoins sized
        (sizes tx List.mem_cons_self) done
      rcases ih sizedMiddle
        (fun other member => sizes other (List.mem_cons_of_mem _ member))
        later with ⟨middleClean, middle', undone, outcome⟩
      rcases disconnectTx_outcome middleClean sized goodBelow done
        (fun _ => rfl) outcome with ⟨fClean', before', undone', outcome'⟩
      refine ⟨fClean', before', ?_, outcome'⟩
      rw [List.map_cons, List.zip_cons_cons, disconnectTxs, undone]
      exact undone'

end Blocks

/-! ## Blocks -/

/--
A block of coinbase, coinstake and ordinary transactions.  `CheckBlock` asks
for the coinbase, and the size limits bound the number of outputs.
-/
structure PlainBlock where
  coinbase : CTransaction
  rest : List CTransaction
  isCoinBase : isCoinBase coinbase = some true
  noZerocoins : ∀ tx ∈ coinbase :: rest, containsZerocoins tx = some false
  sizes : ∀ tx ∈ coinbase :: rest, tx.vout.length < 2 ^ 32

def PlainBlock.vtx (block : PlainBlock) : List CTransaction :=
  block.coinbase :: block.rest

theorem spendsCoins_of_isCoinBase {tx : CTransaction}
    (base : isCoinBase tx = some true) : spendsCoins tx ≠ some true := by
  unfold spendsCoins
  rw [base]
  cases isZerocoinSpendTx tx <;> simp

/-- Disconnecting never fails on a block's own undo data. -/
theorem disconnectBlock_outcome (block : PlainBlock) (nHeight : Int32)
    (utxo : UtxoView) {vtxundo : List (List CTxInUndo)}
    {after : CCoinsViewCache utxo.base}
    (connected : connectTransactions block.vtx nHeight utxo.view =
      some (vtxundo, after)) :
    ∃ fClean view',
      disconnectBlock block.vtx vtxundo nHeight after =
        some (fClean, view') ∧
      ∀ txid, Outcome utxo.base txid block.vtx (utxo.view.entry txid)
        (view'.entry txid) := by
  have sized : Sized utxo.view :=
    fun txid => ⟨(utxo.wellFormed txid).size, (utxo.below txid).size⟩
  rcases Option.map_eq_some_iff.mp connected with
    ⟨⟨undos, reached⟩, updated, same⟩
  cases same
  rcases updateAll_cons updated with ⟨undo, middle, undos', done, later, rfl⟩
  have sizedMiddle := sized_updateCoins sized
    (block.sizes _ List.mem_cons_self) done
  rcases disconnectTxs_outcome true sizedMiddle utxo.below
    (fun tx member => block.sizes tx (List.mem_cons_of_mem _ member)) later
    with ⟨middleClean, middle', undone, outcome⟩
  rcases disconnectTx_outcome middleClean sized utxo.below done
    (fun spends => absurd spends (spendsCoins_of_isCoinBase block.isCoinBase))
    outcome with ⟨fClean, view', undone', outcome'⟩
  have lengths := length_updateAll later
  refine ⟨fClean, view', ?_,
    fun txid => outcome' txid (utxo.wellFormed txid)⟩
  rw [disconnectBlock, PlainBlock.vtx, List.tail_cons,
    if_neg (by simp [lengths]), List.zip_cons_cons, disconnectTxs, undone]
  exact undone'

theorem coinsEqual_of_pruned {coins other : CCoins}
    (pruned : coins.isPruned = true) (otherPruned : other.isPruned = true) :
    coinsEqual coins other = true := by
  unfold coinsEqual
  rw [pruned, otherPruned]
  rfl

/-- Entries with something unspent are equal only in all fields. -/
theorem coinsEqual_iff {coins other : CCoins}
    (left : other.isPruned = false) :
    coinsEqual coins other = true ↔ coins = other := by
  unfold coinsEqual
  rw [left, Bool.and_false, Bool.false_or]
  rcases coins with ⟨fCoinBase, fCoinStake, vout, nHeight, nVersion⟩
  rcases other with ⟨fCoinBase', fCoinStake', vout', nHeight', nVersion'⟩
  simp only [Bool.and_eq_true, beq_iff_eq, CCoins.mk.injEq]
  tauto

/-- What had nothing unspent has nothing unspent again. -/
theorem Outcome.stillAbsent {base : CoinsMap} {txid : UInt256}
    {vtx : List CTransaction} {before before' : CCoins}
    (outcome : Outcome base txid vtx before before')
    (pruned : before.isPruned = true) : before'.isPruned = true := by
  rw [outcome.absent pruned]
  split_ifs
  · exact isPruned_settled_empty txid
  · exact pruned

/--
Disconnecting a block gives every entry of the view back exactly when each is
restorable: an entry of which the block spends all is not that of a coinstake,
and if it is at height zero its metadata is that of the entry the undo finds;
and no transaction of the block replaces an entry that is not spent by then.
-/
theorem disconnect_restores_iff (block : PlainBlock) (nHeight : Int32)
    (utxo : UtxoView) {vtxundo : List (List CTxInUndo)}
    {after : CCoinsViewCache utxo.base}
    (connected : connectTransactions block.vtx nHeight utxo.view =
      some (vtxundo, after)) :
    ∃ fClean view',
      disconnectBlock block.vtx vtxundo nHeight after =
        some (fClean, view') ∧
      ((∀ txid, coinsEqual (view'.entry txid) (utxo.view.entry txid) = true) ↔
        ∀ txid, (utxo.view.entry txid).isPruned = false →
          Restorable utxo.base txid block.vtx (utxo.view.entry txid)) := by
  rcases disconnectBlock_outcome block nHeight utxo connected with
    ⟨fClean, view', undone, outcome⟩
  refine ⟨fClean, view', undone, ?_, ?_⟩
  · intro same txid left
    by_contra notRestorable
    have lost := (outcome txid).lost left notRestorable
    exact lost.ne ((coinsEqual_iff left).mp (same txid))
  · intro restorable txid
    cases pruned : (utxo.view.entry txid).isPruned with
    | true =>
        exact coinsEqual_of_pruned ((outcome txid).stillAbsent pruned) pruned
    | false =>
        rw [coinsEqual_iff pruned]
        exact (outcome txid).kept pruned (restorable txid pruned)

/-! ## A coinstake that comes back as something else -/

/-- A transaction with the given hash, inputs and outputs. -/
def plainTx (hash : UInt256) (vin : List CTxIn) (vout : List CTxOut) :
    CTransaction :=
  .ofMutable (fun _ => hash)
    { nVersion := 1
      type := txPayment
      vin := vin
      vout := vout
      metadata := .plain txMetaEmpty
      vfiles := []
      nLockTime := 0 }

/-- A coinbase, and a transaction that spends output 1 of transaction 7. -/
def spendingBlock : PlainBlock where
  coinbase := plainTx 1 [⟨⟨0, 0xffffffff⟩, [0x51, 0x51], 0⟩] [⟨0, []⟩]
  rest := [plainTx 2 [⟨⟨7, 1⟩, [0x51], 0xffffffff⟩] [⟨4, [0x52]⟩]]
  isCoinBase := by decide +kernel
  noZerocoins := by decide +kernel
  sizes := by decide +kernel

/-- Transaction 7, of height 10, with its second output unspent. -/
def lastOutput (fCoinStake : Bool) : CCoins :=
  ⟨false, fCoinStake, [nullTxOut, ⟨5, [0x52]⟩], 10, 1⟩

theorem wellFormed_empty : WellFormed .empty :=
  ⟨rfl, fun _ member => absurd member List.not_mem_nil, Nat.two_pow_pos 32⟩

theorem wellFormed_lastOutput (fCoinStake : Bool) :
    WellFormed (lastOutput fCoinStake) := by
  refine ⟨by cases fCoinStake <;> rfl, ?_, (by decide : (2 : Nat) < 2 ^ 32)⟩
  intro txout member null
  simp only [lastOutput, List.mem_cons, List.not_mem_nil, or_false] at member
  rcases member with rfl | rfl
  · rfl
  · cases null

/-- An empty cache over a base that has only transaction 7. -/
def lastOutputView (fCoinStake : Bool) : UtxoView where
  base := fun txid => if txid = 7 then some (lastOutput fCoinStake) else none
  view := ⟨fun _ => none⟩
  wellFormed := by
    intro txid
    show WellFormed ((if txid = 7 then _ else _ : Option CCoins).getD .empty)
    split_ifs
    · exact wellFormed_lastOutput fCoinStake
    · exact wellFormed_empty
  below := by
    intro txid
    show WellFormed ((if txid = 7 then _ else _ : Option CCoins).getD .empty)
    split_ifs
    · exact wellFormed_lastOutput fCoinStake
    · exact wellFormed_empty

theorem spendingBlock_connects (fCoinStake : Bool) :
    ∃ vtxundo after, connectTransactions spendingBlock.vtx 20
      (lastOutputView fCoinStake).view = some (vtxundo, after) := by
  have done : (connectTransactions spendingBlock.vtx 20
      (lastOutputView fCoinStake).view).isSome = true := by
    cases fCoinStake <;> decide +kernel
  rcases Option.isSome_iff_exists.mp done with ⟨⟨vtxundo, after⟩, connected⟩
  exact ⟨vtxundo, after, connected⟩

theorem disconnect_restores_iff_ordinary :
    ∃ vtxundo after fClean view',
      connectTransactions spendingBlock.vtx 20 (lastOutputView false).view =
        some (vtxundo, after) ∧
      disconnectBlock spendingBlock.vtx vtxundo 20 after =
        some (fClean, view') ∧
      ∀ txid, coinsEqual (view'.entry txid)
        ((lastOutputView false).view.entry txid) = true := by
  rcases spendingBlock_connects false with ⟨vtxundo, after, connected⟩
  rcases disconnect_restores_iff spendingBlock 20 (lastOutputView false)
    connected with ⟨fClean, view', undone, restores⟩
  refine ⟨vtxundo, after, fClean, view', connected, undone, ?_⟩
  apply restores.mpr
  intro txid left
  have found : (lastOutputView false).view.entry txid =
      (if txid = 7 then some (lastOutput false) else none).getD .empty := rfl
  rw [found] at left ⊢
  split_ifs at left ⊢ with isSeven
  · refine ⟨fun _ => ?_, ?_⟩
    · show Undoable _ (lastOutput false)
      exact rfl
    rintro ⟨tx, member, same⟩
    have others : ∀ tx ∈ spendingBlock.vtx, tx.getHash ≠ 7 := by
      decide +kernel
    exact absurd (same.trans isSeven) (others tx member)
  · cases left

theorem coinstake_not_restored :
    ¬ ∀ (block : PlainBlock) (nHeight : Int32) (utxo : UtxoView)
        (vtxundo : List (List CTxInUndo)) (after : CCoinsViewCache utxo.base),
      connectTransactions block.vtx nHeight utxo.view =
        some (vtxundo, after) →
      ∃ fClean view',
        disconnectBlock block.vtx vtxundo nHeight after =
          some (fClean, view') ∧
        ∀ txid, coinsEqual (view'.entry txid) (utxo.view.entry txid) =
          true := by
  intro claim
  rcases spendingBlock_connects true with ⟨vtxundo, after, connected⟩
  rcases claim spendingBlock 20 (lastOutputView true) vtxundo after connected
    with ⟨fClean, view', undone, same⟩
  have flag : (((connectTransactions spendingBlock.vtx 20
      (lastOutputView true).view).bind fun reached =>
        disconnectBlock spendingBlock.vtx reached.1 20 reached.2).map
          fun state => (state.2.entry 7).fCoinStake) = some false := by
    decide +kernel
  rw [connected, Option.bind_some, undone, Option.map_some] at flag
  have here := same 7
  rw [coinsEqual_iff (by decide +kernel)] at here
  rw [here] at flag
  cases flag

end PrivateDatagram.Chainstate.Disconnect
