import PrivateDatagram.Library.GuardedRun
import PrivateDatagram.Library.PartialMap
import PrivateDatagram.Wire.Script

/-!
# The memory pool

`mapNextTx` maps the outpoints that transactions of the pool spend to their
spenders.  It leads a removal to the transactions that depend on the removed
one.  Inputs of zerocoin spends are not put in, but they are taken out.  Fee
estimates and priorities are left out.
-/

namespace PrivateDatagram.Mempool.TxMemPool

open Library.GuardedRun Library.PartialMap Wire.Serialize Wire.Transaction

/-- `CTransaction::IsZerocoinSpend`. -/
def isZerocoinSpend (tx : CTransaction) : Bool :=
  match tx.vin with
  | [] => false
  | input :: _ =>
      input.prevout.hash = 0 ∧ Wire.Script.isZerocoinSpend input.scriptSig

/-! ## The pool -/

structure CTxMemPoolEntry where
  tx : CTransaction
  nTxSize : Nat

structure CInPoint where
  ptx : CTransaction
  n : Nat

structure CTxMemPool where
  mapTx : AList fun _ : UInt256 => CTxMemPoolEntry
  mapNextTx : COutPoint → Option CInPoint
  totalTxSize : Nat
  nTransactionsUpdated : Nat

/-- The outpoints that a transaction names. -/
def prevouts (tx : CTransaction) : List COutPoint := tx.vin.map (·.prevout)

/-- The outpoints with the points of the inputs that name them. -/
def inPoints (tx : CTransaction) : List (COutPoint × CInPoint) :=
  tx.vin.zipIdx.map fun input => (input.1.prevout, ⟨tx, input.2⟩)

def addUnchecked (hash : UInt256) (entry : CTxMemPoolEntry)
    (pool : CTxMemPool) : CTxMemPool where
  mapTx := pool.mapTx.insert hash entry
  mapNextTx :=
    if isZerocoinSpend entry.tx then
      pool.mapNextTx
    else
      insertAll (inPoints entry.tx) pool.mapNextTx
  totalTxSize := pool.totalTxSize + entry.nTxSize
  nTransactionsUpdated := pool.nTransactionsUpdated + 1

/-- The outpoint of an output. -/
def output (hash : UInt256) (i : Nat) : COutPoint := ⟨hash, UInt32.ofNat i⟩

/-- The hashes of the spenders of a transaction's outputs. -/
def spenders (hash : UInt256) (vout : List CTxOut) (pool : CTxMemPool) :
    List UInt256 :=
  (List.range vout.length).filterMap fun i =>
    (pool.mapNextTx (output hash i)).map (·.ptx.getHash)

/-- Take an entry out of the pool. -/
def removeEntry (hash : UInt256) (entry : CTxMemPoolEntry)
    (pool : CTxMemPool) : CTxMemPool where
  mapTx := pool.mapTx.erase hash
  mapNextTx := eraseKeys (prevouts entry.tx) pool.mapNextTx
  totalTxSize := pool.totalTxSize - entry.nTxSize
  nTransactionsUpdated := pool.nTransactionsUpdated + 1

/-- A removal leaves fewer entries. -/
theorem erase_shorter {mapTx : AList fun _ : UInt256 => CTxMemPoolEntry}
    {hash : UInt256} {entry : CTxMemPoolEntry}
    (found : mapTx.lookup hash = some entry) :
    (mapTx.erase hash).keys.length < mapTx.keys.length := by
  have present : hash ∈ mapTx.keys :=
    AList.lookup_isSome.mp (found ▸ rfl)
  rw [AList.keys_erase, List.length_erase_of_mem present]
  have := List.length_pos_of_mem present
  omega

/-- The loop of `remove`, with the transactions that it removes. -/
def removeLoop (fRecursive : Bool) (txToRemove : List UInt256)
    (pool : CTxMemPool) : CTxMemPool × List CTransaction :=
  match txToRemove with
  | [] => (pool, [])
  | hash :: txToRemove =>
      match _found : pool.mapTx.lookup hash with
      | none => removeLoop fRecursive txToRemove pool
      | some entry =>
          let children :=
            if fRecursive then spenders hash entry.tx.vout pool else []
          let result := removeLoop fRecursive (txToRemove ++ children)
            (removeEntry hash entry pool)
          (result.1, entry.tx :: result.2)
termination_by (pool.mapTx.keys.length, txToRemove.length)
decreasing_by
  · exact .right _ (Nat.lt_succ_self _)
  · exact .left _ _ (erase_shorter _found)

def remove (origTx : CTransaction) (fRecursive : Bool) (pool : CTxMemPool) :
    CTxMemPool × List CTransaction :=
  let children :=
    if fRecursive && (pool.mapTx.lookup origTx.getHash).isNone then
      spenders origTx.getHash origTx.vout pool
    else
      []
  removeLoop fRecursive (origTx.getHash :: children) pool

/-- The loop of `removeConflicts` over the inputs. -/
def removeConflictsOf (tx : CTransaction) (pool : CTxMemPool) :
    List CTxIn → CTxMemPool × List CTransaction
  | [] => (pool, [])
  | input :: vin =>
      match pool.mapNextTx input.prevout with
      | none => removeConflictsOf tx pool vin
      | some conflict =>
          if conflict.ptx.getHash ≠ tx.getHash then
            let one := remove conflict.ptx true pool
            let rest := removeConflictsOf tx one.1 vin
            (rest.1, one.2 ++ rest.2)
          else
            removeConflictsOf tx pool vin

def removeConflicts (tx : CTransaction) (pool : CTxMemPool) :
    CTxMemPool × List CTransaction :=
  removeConflictsOf tx pool tx.vin

/-- The transactions of a block leave the pool, and with them those that
conflict with them. -/
def removeForBlock (pool : CTxMemPool) :
    List CTransaction → CTxMemPool × List CTransaction
  | [] => (pool, [])
  | tx :: vtx =>
      let conflicts := removeConflicts tx (remove tx false pool).1
      let rest := removeForBlock conflicts.1 vtx
      (rest.1, conflicts.2 ++ rest.2)

def clear (pool : CTxMemPool) : CTxMemPool :=
  ⟨∅, fun _ => none, 0, pool.nTransactionsUpdated + 1⟩

def emptyPool : CTxMemPool := ⟨∅, fun _ => none, 0, 0⟩

/-! ## Runs -/

inductive Step where
  | addUnchecked (entry : CTxMemPoolEntry)
  | remove (origTx : CTransaction) (fRecursive : Bool)
  | removeConflicts (tx : CTransaction)
  | removeForBlock (vtx : List CTransaction)
  | clear

/-- The pool after a step, with the transactions that it has removed
recursively.  `remove` may be asked for one that is not in the pool. -/
def CTxMemPool.run (pool : CTxMemPool) :
    Step → CTxMemPool × List CTransaction
  | .addUnchecked entry =>
      (TxMemPool.addUnchecked entry.tx.getHash entry pool, [])
  | .remove origTx fRecursive =>
      let result := TxMemPool.remove origTx fRecursive pool
      let absent := (pool.mapTx.lookup origTx.getHash).isNone
      (result.1,
        if fRecursive then
          if absent then origTx :: result.2 else result.2
        else
          [])
  | .removeConflicts tx => TxMemPool.removeConflicts tx pool
  | .removeForBlock vtx => TxMemPool.removeForBlock pool vtx
  | .clear => (TxMemPool.clear pool, [])

def CTxMemPool.step (pool : CTxMemPool) (step : Step) : CTxMemPool :=
  (pool.run step).1

/-! ## Consistency -/

/-- The pool has the transaction. -/
def CTxMemPool.Pooled (pool : CTxMemPool) (tx : CTransaction) : Prop :=
  (pool.mapTx.lookup tx.getHash).map (·.tx) = some tx

/-- The pool has the transaction, and the transaction spends the outpoint. -/
structure CTxMemPool.Spends (pool : CTxMemPool) (tx : CTransaction)
    (prevout : COutPoint) : Prop where
  pooled : pool.Pooled tx
  transparent : isZerocoinSpend tx = false
  input : prevout ∈ prevouts tx

/-- `mapNextTx` has the inputs that transactions of the pool spend, each with
its spender and its index there, and `totalTxSize` is the size of all
entries. -/
structure Consistent (pool : CTxMemPool) : Prop where
  named : ∀ hash entry, pool.mapTx.lookup hash = some entry →
    entry.tx.getHash = hash
  points : ∀ prevout point, pool.mapNextTx prevout = some point →
    pool.Spends point.ptx prevout ∧
      (prevouts point.ptx)[point.n]? = some prevout
  spent : ∀ tx prevout, pool.Spends tx prevout →
    ∃ point, pool.mapNextTx prevout = some point ∧ point.ptx = tx
  size : pool.totalTxSize = total (·.nTxSize) pool.mapTx

/-- No transaction of the pool spends an output of the transaction. -/
def CTxMemPool.Unspent (pool : CTxMemPool) (parent : CTransaction) : Prop :=
  ∀ tx, ∀ i < parent.vout.length,
    ¬ pool.Spends tx (output parent.getHash i)

/-- The removal of a zerocoin spend takes nothing out of `mapNextTx`. -/
def CTxMemPool.Harmless (pool : CTxMemPool) (hash : UInt256) : Prop :=
  ∀ entry, pool.mapTx.lookup hash = some entry →
    isZerocoinSpend entry.tx = true →
      ∀ prevout ∈ prevouts entry.tx, pool.mapNextTx prevout = none

/-- Nothing has been put in. -/
structure Shrinks (pool after : CTxMemPool) : Prop where
  entries : ∀ hash entry, after.mapTx.lookup hash = some entry →
    pool.mapTx.lookup hash = some entry
  points : ∀ prevout point, after.mapNextTx prevout = some point →
    pool.mapNextTx prevout = some point

section Removal

variable {pool after : CTxMemPool}

theorem Shrinks.refl (pool : CTxMemPool) : Shrinks pool pool :=
  ⟨fun _ _ found => found, fun _ _ found => found⟩

theorem Shrinks.trans {last : CTxMemPool} (first : Shrinks pool after)
    (second : Shrinks after last) : Shrinks pool last where
  entries hash entry found :=
    first.entries hash entry (second.entries hash entry found)
  points prevout point found :=
    first.points prevout point (second.points prevout point found)

theorem Shrinks.pooled (shrinks : Shrinks pool after) {tx : CTransaction}
    (pooled : after.Pooled tx) : pool.Pooled tx := by
  obtain ⟨entry, found, isTx⟩ := Option.map_eq_some_iff.mp pooled
  exact Option.map_eq_some_iff.mpr
    ⟨entry, shrinks.entries _ entry found, isTx⟩

theorem Shrinks.spends (shrinks : Shrinks pool after) {tx : CTransaction}
    {prevout : COutPoint} (spends : after.Spends tx prevout) :
    pool.Spends tx prevout :=
  ⟨shrinks.pooled spends.pooled, spends.transparent, spends.input⟩

theorem Shrinks.unspent (shrinks : Shrinks pool after)
    {parent : CTransaction} (unspent : pool.Unspent parent) :
    after.Unspent parent :=
  fun tx i isOutput spends => unspent tx i isOutput (shrinks.spends spends)

theorem Shrinks.harmless (shrinks : Shrinks pool after) {hash : UInt256}
    (harmless : pool.Harmless hash) : after.Harmless hash := by
  intro entry found isSpend prevout member
  have before := harmless entry (shrinks.entries hash entry found) isSpend
    prevout member
  cases kept : after.mapNextTx prevout with
  | none => rfl
  | some point => cases before.symm.trans (shrinks.points prevout point kept)

theorem removeEntry_shrinks (pool : CTxMemPool) (hash : UInt256)
    (entry : CTxMemPoolEntry) : Shrinks pool (removeEntry hash entry pool) where
  entries _ _ found := (of_lookup_erase found).2
  points _ _ found := (of_eraseKeys found).2

/-- The transactions that remain are others than the removed one. -/
theorem removeEntry_pooled {hash : UInt256} {entry : CTxMemPoolEntry}
    {tx : CTransaction} (pooled : (removeEntry hash entry pool).Pooled tx) :
    tx.getHash ≠ hash := by
  obtain ⟨_, found, _⟩ := Option.map_eq_some_iff.mp pooled
  exact (of_lookup_erase found).1

theorem Consistent.entry_tx (consistent : Consistent pool) {hash : UInt256}
    {entry : CTxMemPoolEntry}
    (found : pool.mapTx.lookup hash = some entry) : pool.Pooled entry.tx := by
  unfold CTxMemPool.Pooled
  rw [consistent.named hash entry found, found, Option.map_some]

theorem Consistent.removeEntry (consistent : Consistent pool)
    {hash : UInt256} {entry : CTxMemPoolEntry}
    (found : pool.mapTx.lookup hash = some entry)
    (harmless : pool.Harmless hash) :
    Consistent (removeEntry hash entry pool) where
  named other otherEntry foundOther :=
    consistent.named other otherEntry (of_lookup_erase foundOther).2
  points prevout point foundPoint := by
    obtain ⟨kept, before⟩ := of_eraseKeys foundPoint
    obtain ⟨spends, isInput⟩ := consistent.points prevout point before
    refine ⟨⟨?_, spends.transparent, spends.input⟩, isInput⟩
    -- the removed transaction does not spend an outpoint that is kept
    have other : point.ptx.getHash ≠ hash := by
      intro isHash
      have pooled := spends.pooled
      unfold CTxMemPool.Pooled at pooled
      rw [isHash, found, Option.map_some, Option.some.injEq] at pooled
      exact kept (pooled ▸ spends.input)
    unfold CTxMemPool.Pooled TxMemPool.removeEntry
    rw [AList.lookup_erase_ne other]
    exact spends.pooled
  spent tx prevout spends := by
    have before := (removeEntry_shrinks pool hash entry).spends spends
    obtain ⟨point, foundPoint, isTx⟩ := consistent.spent tx prevout before
    refine ⟨point, ?_, isTx⟩
    change eraseKeys (prevouts entry.tx) pool.mapNextTx prevout = some point
    rw [eraseKeys_apply, if_neg, foundPoint]
    intro erased
    cases isSpend : isZerocoinSpend entry.tx with
    | true =>
        cases foundPoint.symm.trans
          (harmless entry found isSpend prevout erased)
    | false =>
        obtain ⟨another, foundAnother, isEntry⟩ := consistent.spent entry.tx
          prevout ⟨consistent.entry_tx found, isSpend, erased⟩
        cases foundPoint.symm.trans foundAnother
        refine removeEntry_pooled spends.pooled ?_
        rw [← isTx, isEntry]
        exact consistent.named hash entry found
  size := by
    have before := consistent.size
    have erased := total_erase (·.nTxSize) found
    change pool.totalTxSize - entry.nTxSize = total _ (pool.mapTx.erase hash)
    omega

/-- A hash that `mapNextTx` leads to is not of a zerocoin spend. -/
theorem Consistent.harmless_point (consistent : Consistent pool)
    {prevout : COutPoint} {point : CInPoint}
    (found : pool.mapNextTx prevout = some point) :
    pool.Harmless point.ptx.getHash := by
  intro entry foundEntry isSpend
  have spends := (consistent.points prevout point found).1
  have pooled := spends.pooled
  unfold CTxMemPool.Pooled at pooled
  rw [foundEntry, Option.map_some, Option.some.injEq] at pooled
  rw [pooled, spends.transparent] at isSpend
  cases isSpend

theorem mem_spenders {hash child : UInt256} {vout : List CTxOut} :
    child ∈ spenders hash vout pool ↔
      ∃ i < vout.length, ∃ point,
        pool.mapNextTx (output hash i) = some point ∧
          point.ptx.getHash = child := by
  unfold spenders
  rw [List.mem_filterMap]
  constructor
  · rintro ⟨i, inRange, isChild⟩
    obtain ⟨point, found, isHash⟩ := Option.map_eq_some_iff.mp isChild
    exact ⟨i, List.mem_range.mp inRange, point, found, isHash⟩
  · rintro ⟨i, inRange, point, found, isHash⟩
    exact ⟨i, List.mem_range.mpr inRange,
      Option.map_eq_some_iff.mpr ⟨point, found, isHash⟩⟩

theorem Consistent.harmless_spenders (consistent : Consistent pool)
    {hash child : UInt256} {vout : List CTxOut}
    (member : child ∈ spenders hash vout pool) : pool.Harmless child := by
  obtain ⟨_, _, point, found, rfl⟩ := mem_spenders.mp member
  exact consistent.harmless_point found

/-- The rest of the queue and the children of the removed transaction. -/
theorem Consistent.harmless_queue (consistent : Consistent pool)
    {hash : UInt256} {txToRemove : List UInt256}
    (harmless : ∀ other ∈ hash :: txToRemove, pool.Harmless other)
    (entry : CTxMemPoolEntry) (fRecursive : Bool) :
    ∀ other ∈ txToRemove ++
        (if fRecursive then spenders hash entry.tx.vout pool else []),
      (TxMemPool.removeEntry hash entry pool).Harmless other := by
  intro other member
  have shrinks := removeEntry_shrinks pool hash entry
  rcases List.mem_append.mp member with queued | child
  · exact shrinks.harmless (harmless other (List.mem_cons_of_mem _ queued))
  · split at child
    · exact shrinks.harmless (consistent.harmless_spenders child)
    · cases child

theorem removeLoop_consistent (fRecursive : Bool)
    {txToRemove : List UInt256} (consistent : Consistent pool)
    (harmless : ∀ hash ∈ txToRemove, pool.Harmless hash) :
    Consistent (removeLoop fRecursive txToRemove pool).1 ∧
      Shrinks pool (removeLoop fRecursive txToRemove pool).1 := by
  fun_induction removeLoop fRecursive txToRemove pool with
  | case1 pool => exact ⟨consistent, .refl pool⟩
  | case2 pool hash txToRemove missing ih =>
      exact ih consistent fun other queued =>
        harmless other (List.mem_cons_of_mem _ queued)
  | case3 pool hash txToRemove entry found children result ih =>
      obtain ⟨kept, shrinks⟩ := ih
        (consistent.removeEntry found (harmless hash List.mem_cons_self))
        (consistent.harmless_queue harmless entry fRecursive)
      exact ⟨kept, (removeEntry_shrinks pool hash entry).trans shrinks⟩

/-- What spends an output of the transaction is in the queue. -/
def CTxMemPool.Queued (pool : CTxMemPool) (txToRemove : List UInt256)
    (parent : CTransaction) : Prop :=
  ∀ tx, ∀ i < parent.vout.length,
    pool.Spends tx (output parent.getHash i) → tx.getHash ∈ txToRemove

theorem Consistent.queued_spenders (consistent : Consistent pool)
    (parent : CTransaction) :
    pool.Queued (spenders parent.getHash parent.vout pool) parent := by
  intro tx i isOutput spends
  obtain ⟨point, found, rfl⟩ := consistent.spent tx _ spends
  exact mem_spenders.mpr ⟨i, isOutput, point, found, rfl⟩

/-- A recursive removal ends with nothing that spends an output of what is
removed or was waited for. -/
theorem removeLoop_unspent {txToRemove : List UInt256}
    (consistent : Consistent pool)
    (harmless : ∀ hash ∈ txToRemove, pool.Harmless hash) :
    (∀ parent, pool.Queued txToRemove parent →
      (removeLoop true txToRemove pool).1.Unspent parent) ∧
    ∀ parent ∈ (removeLoop true txToRemove pool).2,
      (removeLoop true txToRemove pool).1.Unspent parent := by
  fun_induction removeLoop true txToRemove pool with
  | case1 pool =>
      refine ⟨fun parent queued tx i isOutput spends => ?_, nofun⟩
      exact List.not_mem_nil (queued tx i isOutput spends)
  | case2 pool hash txToRemove missing ih =>
      obtain ⟨waiting, removed⟩ := ih consistent fun other queued =>
        harmless other (List.mem_cons_of_mem _ queued)
      refine ⟨fun parent queued => waiting parent ?_, removed⟩
      intro tx i isOutput spends
      rcases List.mem_cons.mp (queued tx i isOutput spends) with isHash | later
      · have pooled := spends.pooled
        unfold CTxMemPool.Pooled at pooled
        rw [isHash, missing] at pooled
        cases pooled
      · exact later
  | case3 pool hash txToRemove entry found children result ih =>
      have shrinks := removeEntry_shrinks pool hash entry
      obtain ⟨waiting, removed⟩ := ih
        (consistent.removeEntry found (harmless hash List.mem_cons_self))
        (consistent.harmless_queue harmless entry true)
      refine ⟨fun parent queued => waiting parent ?_, fun parent member => ?_⟩
      · intro tx i isOutput spends
        have before := queued tx i isOutput (shrinks.spends spends)
        rcases List.mem_cons.mp before with isHash | later
        · exact absurd isHash (removeEntry_pooled spends.pooled)
        · exact List.mem_append_left _ later
      · rcases List.mem_cons.mp member with rfl | later
        · refine waiting entry.tx fun tx i isOutput spends => ?_
          have child := consistent.queued_spenders entry.tx tx i isOutput
            (shrinks.spends spends)
          rw [consistent.named hash entry found] at child
          exact List.mem_append_right _ child
        · exact removed parent later

theorem Consistent.harmless_children (consistent : Consistent pool)
    {origTx : CTransaction} (harmless : pool.Harmless origTx.getHash)
    (fRecursive : Bool) :
    ∀ hash ∈ origTx.getHash ::
        (if fRecursive && (pool.mapTx.lookup origTx.getHash).isNone then
          spenders origTx.getHash origTx.vout pool
        else
          []),
      pool.Harmless hash := by
  intro hash member
  rcases List.mem_cons.mp member with rfl | child
  · exact harmless
  · split at child
    · exact consistent.harmless_spenders child
    · cases child

theorem remove_consistent {origTx : CTransaction} (fRecursive : Bool)
    (consistent : Consistent pool)
    (harmless : pool.Harmless origTx.getHash) :
    Consistent (remove origTx fRecursive pool).1 ∧
      Shrinks pool (remove origTx fRecursive pool).1 :=
  removeLoop_consistent fRecursive consistent
    (consistent.harmless_children harmless fRecursive)

/-- A transaction that is asked for has its children in the queue, if it is
not in the pool itself. -/
theorem remove_unspent {origTx : CTransaction} (consistent : Consistent pool)
    (harmless : pool.Harmless origTx.getHash) :
    (pool.mapTx.lookup origTx.getHash = none →
      (remove origTx true pool).1.Unspent origTx) ∧
    ∀ parent ∈ (remove origTx true pool).2,
      (remove origTx true pool).1.Unspent parent := by
  obtain ⟨waiting, removed⟩ := removeLoop_unspent consistent
    (consistent.harmless_children harmless true)
  refine ⟨fun absent => waiting origTx ?_, removed⟩
  intro tx i isOutput spends
  rw [absent]
  exact List.mem_cons_of_mem _
    (consistent.queued_spenders origTx tx i isOutput spends)

/-- A removal that is not recursive takes the transaction out. -/
theorem remove_gone {origTx tx : CTransaction} (fRecursive : Bool)
    (consistent : Consistent pool)
    (harmless : pool.Harmless origTx.getHash)
    (pooled : (remove origTx fRecursive pool).1.Pooled tx) :
    tx.getHash ≠ origTx.getHash := by
  unfold remove at pooled
  rw [removeLoop] at pooled
  split at pooled
  case h_1 missing =>
    have shrinks := (removeLoop_consistent fRecursive consistent fun other
      queued => consistent.harmless_children harmless fRecursive other
        (List.mem_cons_of_mem _ queued)).2
    have before := shrinks.pooled pooled
    intro isHash
    unfold CTxMemPool.Pooled at before
    rw [isHash, missing] at before
    cases before
  case h_2 entry found =>
    have shrinks := (removeLoop_consistent fRecursive
      (consistent.removeEntry found harmless)
      (consistent.harmless_queue
        (consistent.harmless_children harmless fRecursive) entry
        fRecursive)).2
    exact removeEntry_pooled (shrinks.pooled pooled)

theorem removeConflictsOf_consistent (tx : CTransaction) (vin : List CTxIn)
    (consistent : Consistent pool) :
    Consistent (removeConflictsOf tx pool vin).1 ∧
      Shrinks pool (removeConflictsOf tx pool vin).1 ∧
      ∀ parent ∈ (removeConflictsOf tx pool vin).2,
        (removeConflictsOf tx pool vin).1.Unspent parent := by
  induction vin generalizing pool with
  | nil => exact ⟨consistent, .refl pool, nofun⟩
  | cons input vin ih =>
      unfold removeConflictsOf
      cases found : pool.mapNextTx input.prevout with
      | none => exact ih consistent
      | some conflict =>
          have harmless := consistent.harmless_point found
          obtain ⟨kept, shrinks⟩ := remove_consistent true consistent harmless
          have removed := (remove_unspent consistent harmless).2
          dsimp only
          split_ifs
          · obtain ⟨keptAll, shrinksAll, removedAll⟩ := ih kept
            refine ⟨keptAll, shrinks.trans shrinksAll, fun parent member => ?_⟩
            rcases List.mem_append.mp member with first | later
            · exact shrinksAll.unspent (removed parent first)
            · exact removedAll parent later
          · exact ih consistent

/-- What the removal of a zerocoin spend takes out of `mapNextTx` belongs to
transactions that are gone by then. -/
def CTxMemPool.HarmlessAfter (pool : CTxMemPool) (gone : List CTransaction)
    (hash : UInt256) : Prop :=
  ∀ entry, pool.mapTx.lookup hash = some entry →
    isZerocoinSpend entry.tx = true →
      ∀ prevout ∈ prevouts entry.tx, ∀ point,
        pool.mapNextTx prevout = some point →
          point.ptx.getHash ∈ gone.map (·.getHash)

theorem harmlessAfter_nil {hash : UInt256} :
    pool.HarmlessAfter [] hash ↔ pool.Harmless hash := by
  refine forall_congr' fun entry => imp_congr_right fun _ =>
    imp_congr_right fun _ => forall₂_congr fun prevout _ => ?_
  rw [Option.eq_none_iff_forall_ne_some]
  exact forall_congr' fun point => imp_congr_right fun _ =>
    iff_false_intro List.not_mem_nil

/-- The same for each transaction of a block, where those before it are
gone. -/
def CTxMemPool.HarmlessBlock (pool : CTxMemPool) (vtx : List CTransaction) :
    Prop :=
  ∀ before tx later, vtx = before ++ tx :: later →
    pool.HarmlessAfter before tx.getHash

theorem removeForBlock_consistent (vtx : List CTransaction)
    (consistent : Consistent pool) (harmless : pool.HarmlessBlock vtx) :
    Consistent (removeForBlock pool vtx).1 ∧
      Shrinks pool (removeForBlock pool vtx).1 ∧
      ∀ parent ∈ (removeForBlock pool vtx).2,
        (removeForBlock pool vtx).1.Unspent parent := by
  induction vtx generalizing pool with
  | nil => exact ⟨consistent, .refl pool, nofun⟩
  | cons tx vtx ih =>
      have first := harmlessAfter_nil.mp (harmless [] tx vtx rfl)
      obtain ⟨kept, shrinks⟩ := remove_consistent false consistent first
      obtain ⟨keptConflicts, shrinksConflicts, removed⟩ :=
        removeConflictsOf_consistent tx tx.vin kept
      have shrinksBoth := shrinks.trans shrinksConflicts
      have harmlessRest :
          (removeConflicts tx (remove tx false pool).1).1.HarmlessBlock
            vtx := by
        intro before other later isBlock entry found isSpend prevout member
          point foundPoint
        have gone := harmless (tx :: before) other later
          (by rw [isBlock, List.cons_append]) entry
          (shrinksBoth.entries _ entry found) isSpend prevout member point
          (shrinksBoth.points prevout point foundPoint)
        rcases List.mem_cons.mp gone with isTx | earlier
        · have pooled :=
            (keptConflicts.points prevout point foundPoint).1.pooled
          exact absurd isTx (remove_gone false consistent first
            (shrinksConflicts.pooled pooled))
        · exact earlier
      obtain ⟨keptAll, shrinksAll, removedAll⟩ := ih keptConflicts harmlessRest
      refine ⟨keptAll, shrinksBoth.trans shrinksAll, fun parent member => ?_⟩
      rcases List.mem_append.mp member with conflict | later
      · exact shrinksAll.unspent (removed parent conflict)
      · exact removedAll parent later

end Removal

/-! ## Additions -/

theorem keys_inPoints (tx : CTransaction) :
    (inPoints tx).map Prod.fst = prevouts tx := by
  unfold inPoints prevouts
  rw [List.map_map]
  conv_rhs => rw [← List.zipIdx_map_fst 0 tx.vin, List.map_map]
  rfl

theorem of_mem_inPoints {tx : CTransaction} {prevout : COutPoint}
    {point : CInPoint} (member : (prevout, point) ∈ inPoints tx) :
    point.ptx = tx ∧ (prevouts tx)[point.n]? = some prevout := by
  obtain ⟨⟨input, n⟩, isInput, isPoint⟩ := List.mem_map.mp member
  cases isPoint
  refine ⟨rfl, ?_⟩
  unfold prevouts
  rw [List.getElem?_map, List.mem_zipIdx_iff_getElem?.mp isInput]
  rfl

/-- What `AcceptToMemoryPool` guarantees: the transaction is not in the pool,
and conflicts with nothing there. -/
structure Acceptable (entry : CTxMemPoolEntry) (pool : CTxMemPool) :
    Prop where
  new : pool.mapTx.lookup entry.tx.getHash = none
  free : isZerocoinSpend entry.tx = false →
    ∀ prevout ∈ prevouts entry.tx, pool.mapNextTx prevout = none

section Addition

variable {pool : CTxMemPool} {entry : CTxMemPoolEntry}

theorem Acceptable.pooled_iff (acceptable : Acceptable entry pool)
    (tx : CTransaction) :
    (addUnchecked entry.tx.getHash entry pool).Pooled tx ↔
      tx = entry.tx ∨ pool.Pooled tx := by
  unfold CTxMemPool.Pooled addUnchecked
  by_cases here : tx.getHash = entry.tx.getHash
  · rw [here, AList.lookup_insert, acceptable.new, Option.map_some,
      Option.some.injEq]
    exact ⟨fun isTx => .inl isTx.symm, fun known => known.elim Eq.symm nofun⟩
  · rw [AList.lookup_insert_ne here]
    refine ⟨.inr, fun known => known.resolve_left ?_⟩
    rintro rfl
    exact here rfl

theorem addUnchecked_points (acceptable : Acceptable entry pool)
    (consistent : Consistent pool) {prevout : COutPoint} {point : CInPoint}
    (found : (addUnchecked entry.tx.getHash entry pool).mapNextTx prevout =
      some point) :
    (addUnchecked entry.tx.getHash entry pool).Spends point.ptx prevout ∧
      (prevouts point.ptx)[point.n]? = some prevout := by
  have old : pool.mapNextTx prevout = some point →
      (addUnchecked entry.tx.getHash entry pool).Spends point.ptx prevout ∧
        (prevouts point.ptx)[point.n]? = some prevout := by
    intro before
    obtain ⟨spends, isInput⟩ := consistent.points prevout point before
    exact ⟨⟨(acceptable.pooled_iff _).mpr (.inr spends.pooled),
      spends.transparent, spends.input⟩, isInput⟩
  unfold addUnchecked at found
  dsimp only at found
  split at found
  case isTrue => exact old found
  case isFalse transparent =>
    by_cases member : prevout ∈ (inPoints entry.tx).map Prod.fst
    · obtain ⟨value, isPoint, stored⟩ :=
        insertAll_of_mem pool.mapNextTx member
      cases stored.symm.trans found
      obtain ⟨isTx, isInput⟩ := of_mem_inPoints isPoint
      rw [keys_inPoints] at member
      rw [isTx]
      refine ⟨⟨?_, eq_false_of_ne_true transparent, member⟩, isInput⟩
      exact (acceptable.pooled_iff entry.tx).mpr (.inl rfl)
    · rw [insertAll_of_notMem member] at found
      exact old found

theorem addUnchecked_spent (acceptable : Acceptable entry pool)
    (consistent : Consistent pool) {tx : CTransaction} {prevout : COutPoint}
    (spends : (addUnchecked entry.tx.getHash entry pool).Spends tx prevout) :
    ∃ point,
      (addUnchecked entry.tx.getHash entry pool).mapNextTx prevout =
        some point ∧ point.ptx = tx := by
  unfold addUnchecked
  dsimp only
  rcases (acceptable.pooled_iff tx).mp spends.pooled with rfl | pooled
  · rw [if_neg (by rw [spends.transparent]; exact Bool.false_ne_true)]
    obtain ⟨point, isPoint, stored⟩ :=
      insertAll_of_mem pool.mapNextTx
        ((keys_inPoints entry.tx).symm ▸ spends.input)
    exact ⟨point, stored, (of_mem_inPoints isPoint).1⟩
  · obtain ⟨point, before, isTx⟩ := consistent.spent tx prevout
      ⟨pooled, spends.transparent, spends.input⟩
    refine ⟨point, ?_, isTx⟩
    split
    case isTrue => exact before
    case isFalse transparent =>
      rw [insertAll_of_notMem, before]
      intro member
      rw [keys_inPoints] at member
      cases before.symm.trans
        (acceptable.free (eq_false_of_ne_true transparent) prevout member)

theorem addUnchecked_consistent (acceptable : Acceptable entry pool)
    (consistent : Consistent pool) :
    Consistent (addUnchecked entry.tx.getHash entry pool) where
  named hash other found := by
    unfold addUnchecked at found
    by_cases here : hash = entry.tx.getHash
    · rw [here, AList.lookup_insert] at found
      cases found
      exact here.symm
    · rw [AList.lookup_insert_ne here] at found
      exact consistent.named hash other found
  points _ _ found := addUnchecked_points acceptable consistent found
  spent _ _ spends := addUnchecked_spent acceptable consistent spends
  size := by
    unfold addUnchecked
    dsimp only
    rw [total_insert _ acceptable.new, consistent.size]

end Addition

/-! ## Runs without harm -/

/-- Transactions are added as `AcceptToMemoryPool` does it. -/
def Accepted (pool : CTxMemPool) : Step → Prop
  | .addUnchecked entry => Acceptable entry pool
  | _ => True

/-- A zerocoin spend that leaves the pool by itself or with a block shares no
outpoint with a transaction that spends it in the pool. -/
def KeepsInputs (pool : CTxMemPool) : Step → Prop
  | .remove origTx _ => pool.Harmless origTx.getHash
  | .removeForBlock vtx => pool.HarmlessBlock vtx
  | _ => True

/-- Nothing in the pool spends an output of what a step has removed
recursively. -/
def NoOrphans (pool : CTxMemPool) (step : Step) : Prop :=
  ∀ parent ∈ (pool.run step).2, (pool.run step).1.Unspent parent

theorem clear_consistent (pool : CTxMemPool) : Consistent (clear pool) where
  named := nofun
  points := nofun
  spent tx prevout spends := by
    cases spends.pooled
  size := rfl

theorem step_consistent {pool : CTxMemPool} {step : Step}
    (consistent : Consistent pool) (accepted : Accepted pool step)
    (keeps : KeepsInputs pool step) :
    Consistent (pool.step step) ∧ NoOrphans pool step := by
  cases step with
  | addUnchecked entry =>
      exact ⟨addUnchecked_consistent accepted consistent, nofun⟩
  | remove origTx fRecursive =>
      refine ⟨(remove_consistent fRecursive consistent keeps).1, ?_⟩
      unfold NoOrphans CTxMemPool.run
      cases fRecursive with
      | false => exact nofun
      | true =>
          obtain ⟨asked, removed⟩ := remove_unspent consistent keeps
          dsimp only
          rw [if_pos rfl]
          split_ifs
          case pos absent =>
            intro parent member
            rcases List.mem_cons.mp member with rfl | later
            · exact asked (Option.isNone_iff_eq_none.mp absent)
            · exact removed parent later
          case neg => exact removed
  | removeConflicts tx =>
      have after := removeConflictsOf_consistent tx tx.vin consistent
      exact ⟨after.1, after.2.2⟩
  | removeForBlock vtx =>
      have after := removeForBlock_consistent vtx consistent keeps
      exact ⟨after.1, after.2.2⟩
  | clear => exact ⟨clear_consistent pool, nofun⟩

theorem emptyPool_consistent : Consistent emptyPool where
  named := nofun
  points := nofun
  spent tx prevout spends := by
    cases spends.pooled
  size := rfl

/-- From the empty pool, the pool is consistent in all states of a run in
which no zerocoin spend leaves with an outpoint of another transaction, and a
recursive removal leaves no orphans. -/
theorem pool_consistent (steps : List Step)
    (accepted : Along CTxMemPool.step (fun pool step =>
      Accepted pool step ∧ KeepsInputs pool step) steps emptyPool) :
    Always CTxMemPool.step Consistent steps emptyPool ∧
      Along CTxMemPool.step NoOrphans steps emptyPool := by
  refine ⟨accepted.always ?_ (fun _ consistent => consistent)
    emptyPool_consistent, accepted.imp ?_ emptyPool_consistent⟩
  · intro pool step consistent meets
    exact (step_consistent consistent meets.1 meets.2).1
  · intro pool step consistent meets
    exact step_consistent consistent meets.1 meets.2

/-- A payment of one output that spends an output of the transaction 9. -/
def pooledPayment : CTransaction :=
  ⟨5, 1, txPayment, [⟨⟨9, 0⟩, [], 0⟩], [⟨1, []⟩], .plain txMetaEmpty, [], 0⟩

/-- A payment that spends the output of the first. -/
def dependentPayment : CTransaction :=
  ⟨6, 1, txPayment, [⟨⟨5, 0⟩, [], 0⟩], [⟨1, []⟩], .plain txMetaEmpty, [], 0⟩

/-- A zerocoin spend whose second input names the same output. -/
def sharingSpend : CTransaction :=
  ⟨7, 1, txPayment,
    [⟨⟨0, 0⟩, [Wire.Script.opZerocoinSpend], 0⟩, ⟨⟨9, 0⟩, [], 0⟩], [⟨1, []⟩],
    .plain txMetaEmpty, [], 0⟩

theorem pool_consistent_dependents :
    Always CTxMemPool.step Consistent
        [.addUnchecked ⟨pooledPayment, 100⟩,
          .addUnchecked ⟨dependentPayment, 100⟩, .remove pooledPayment true]
        emptyPool ∧
      Along CTxMemPool.step NoOrphans
        [.addUnchecked ⟨pooledPayment, 100⟩,
          .addUnchecked ⟨dependentPayment, 100⟩, .remove pooledPayment true]
        emptyPool := by
  refine pool_consistent _
    ⟨⟨⟨rfl, fun _ _ _ => rfl⟩, trivial⟩, ⟨⟨by decide, ?_⟩, trivial⟩,
      ⟨trivial, ?_⟩, trivial⟩
  · intro _ prevout member
    rw [List.mem_singleton.mp member]
    decide
  · intro entry found isSpend
    have isPayment : entry = ⟨pooledPayment, 100⟩ :=
      Option.some.inj (found.symm.trans (by rfl))
    rw [isPayment] at isSpend
    exact absurd isSpend (by decide)

/-- The payment and the zerocoin spend are in the pool. -/
def sharedPool : CTxMemPool :=
  (emptyPool.step (.addUnchecked ⟨pooledPayment, 100⟩)).step
    (.addUnchecked ⟨sharingSpend, 100⟩)

theorem sharedPool_removeForBlock :
    sharedPool.step (.removeForBlock [sharingSpend]) =
      removeEntry 7 ⟨sharingSpend, 100⟩ sharedPool := by
  have removed : (remove sharingSpend false sharedPool).1 =
      removeEntry 7 ⟨sharingSpend, 100⟩ sharedPool := by
    unfold remove
    rw [removeLoop]
    split
    case h_1 missing => exact absurd missing (by decide)
    case h_2 entry found =>
      have isSpend : ⟨sharingSpend, 100⟩ = entry :=
        Option.some.inj (Eq.trans (by rfl) found)
      dsimp only
      rw [← isSpend, if_neg Bool.false_ne_true, Bool.false_and,
        if_neg Bool.false_ne_true, List.append_nil, removeLoop]
      rfl
  change (removeForBlock sharedPool [sharingSpend]).1 = _
  unfold removeForBlock
  rw [removed]
  rfl

/-- A block with the zerocoin spend takes the input of the payment out. -/
theorem sharing_spend_takes_input :
    ¬ Always CTxMemPool.step Consistent
      [.addUnchecked ⟨pooledPayment, 100⟩, .addUnchecked ⟨sharingSpend, 100⟩,
        .removeForBlock [sharingSpend]] emptyPool := by
  rintro ⟨_, _, _, consistent⟩
  change Consistent (sharedPool.step (.removeForBlock [sharingSpend]))
    at consistent
  rw [sharedPool_removeForBlock] at consistent
  obtain ⟨point, found, _⟩ := consistent.spent pooledPayment ⟨9, 0⟩
    ⟨by rfl, by decide, by decide⟩
  cases found

end PrivateDatagram.Mempool.TxMemPool
