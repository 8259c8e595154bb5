import PrivateDatagram.Library.GuardedRun
import PrivateDatagram.Library.NestedMap
import PrivateDatagram.Wire.Transaction

/-!
# Orphan transactions

Transactions whose parents are not known wait in a pool.
`mapOrphanTransactionsByPrev` leads from a parent to the orphans that spend
its outputs.
-/

namespace PrivateDatagram.Mempool.OrphanPool

open Library.GuardedRun Library.NestedMap Wire.Serialize Wire.Transaction

abbrev NodeId := Int

structure COrphanTx where
  tx : CTransaction
  fromPeer : NodeId

structure Orphans where
  mapOrphanTransactions : Std.ExtTreeMap UInt256 COrphanTx
  /-- The sets of orphans, by the hash of a parent. -/
  mapOrphanTransactionsByPrev : Nested UInt256 UInt256 Unit

/-- The links of an orphan with the given hash to the parents of its inputs.
A parent of several inputs is named several times. -/
def links (hash : UInt256) (vin : List CTxIn) : List (UInt256 × UInt256) :=
  vin.map fun txin => (txin.prevout.hash, hash)

def addOrphanTx (tx : CTransaction) (peer : NodeId) (pool : Orphans) :
    Bool × Orphans :=
  let hash := tx.getHash
  let sz := tx.serialize.length % 2 ^ 32
  if hash ∈ pool.mapOrphanTransactions then
    (false, pool)
  else if sz > 5000 then
    (false, pool)
  else
    (true,
      { mapOrphanTransactions :=
          pool.mapOrphanTransactions.insert hash ⟨tx, peer⟩
        mapOrphanTransactionsByPrev := putAll (links hash tx.vin) ()
          pool.mapOrphanTransactionsByPrev })

def eraseOrphanTx (hash : UInt256) (pool : Orphans) : Orphans :=
  match pool.mapOrphanTransactions[hash]? with
  | none => pool
  | some orphan =>
      { mapOrphanTransactions := pool.mapOrphanTransactions.erase hash
        mapOrphanTransactionsByPrev := removeAll (links hash orphan.tx.vin)
          pool.mapOrphanTransactionsByPrev }

/-- The loop of `EraseOrphansFor`.  Its iterator has left an entry before the
entry is erased. -/
def eraseOrphansLoop (peer : NodeId) (pool : Orphans) :
    List (UInt256 × COrphanTx) → Orphans
  | [] => pool
  | entry :: entries =>
      if entry.2.fromPeer = peer then
        eraseOrphansLoop peer (eraseOrphanTx entry.2.tx.getHash pool) entries
      else
        eraseOrphansLoop peer pool entries

def eraseOrphansFor (peer : NodeId) (pool : Orphans) : Orphans :=
  eraseOrphansLoop peer pool pool.mapOrphanTransactions.toList

/-- The orphan to evict: the `lower_bound` of a random hash, or else the
first one. -/
def evict (randomhash : UInt256) (pool : Orphans) : Option UInt256 :=
  match pool.mapOrphanTransactions.keys.find? (randomhash ≤ ·) with
  | some hash => some hash
  | none => pool.mapOrphanTransactions.keys.head?

theorem mem_of_evict {randomhash hash : UInt256} {pool : Orphans}
    (chosen : evict randomhash pool = some hash) :
    hash ∈ pool.mapOrphanTransactions := by
  unfold evict at chosen
  split at chosen
  case h_1 found =>
    cases chosen
    exact Std.ExtTreeMap.mem_keys.mp (List.mem_of_find?_eq_some found)
  case h_2 => exact Std.ExtTreeMap.mem_keys.mp (List.mem_of_head? chosen)

/-- An erasure leaves one orphan less. -/
theorem size_eraseOrphanTx {hash : UInt256} {pool : Orphans}
    (pooled : hash ∈ pool.mapOrphanTransactions) :
    (eraseOrphanTx hash pool).mapOrphanTransactions.size <
      pool.mapOrphanTransactions.size := by
  rw [eraseOrphanTx, Std.ExtTreeMap.getElem?_eq_some_getElem pooled]
  dsimp only
  rw [Std.ExtTreeMap.size_erase,
    if_pos (Std.ExtTreeMap.mem_iff_contains.mp pooled)]
  have occupied : pool.mapOrphanTransactions.size ≠ 0 := by
    intro empty
    rw [Std.ExtTreeMap.eq_empty_iff_size_eq_zero.mpr empty] at pooled
    exact Std.ExtTreeMap.not_mem_empty pooled
  omega

/-- The loop of `LimitOrphanTxSize`, with the number of evicted orphans. -/
def limitOrphansLoop (nMaxOrphans : Nat) (getRandHash : Nat → UInt256)
    (nEvicted : Nat) (pool : Orphans) : Nat × Orphans :=
  if pool.mapOrphanTransactions.size > nMaxOrphans then
    match _chosen : evict (getRandHash nEvicted) pool with
    | none => (nEvicted, pool)
    | some hash =>
        limitOrphansLoop nMaxOrphans getRandHash (nEvicted + 1)
          (eraseOrphanTx hash pool)
  else
    (nEvicted, pool)
termination_by pool.mapOrphanTransactions.size
decreasing_by exact size_eraseOrphanTx (mem_of_evict _chosen)

/-- `getRandHash` has the random hash of each round. -/
def limitOrphanTxSize (nMaxOrphans : Nat) (getRandHash : Nat → UInt256)
    (pool : Orphans) : Nat × Orphans :=
  limitOrphansLoop nMaxOrphans getRandHash 0 pool

def emptyPool : Orphans := ⟨∅, ∅⟩

/-! ## Runs -/

inductive Step where
  | addOrphanTx (tx : CTransaction) (peer : NodeId)
  | eraseOrphanTx (hash : UInt256)
  | eraseOrphansFor (peer : NodeId)
  | limitOrphanTxSize (nMaxOrphans : Nat) (getRandHash : Nat → UInt256)

def Orphans.step (pool : Orphans) : Step → Orphans
  | .addOrphanTx tx peer => (OrphanPool.addOrphanTx tx peer pool).2
  | .eraseOrphanTx hash => OrphanPool.eraseOrphanTx hash pool
  | .eraseOrphansFor peer => OrphanPool.eraseOrphansFor peer pool
  | .limitOrphanTxSize nMaxOrphans getRandHash =>
      (OrphanPool.limitOrphanTxSize nMaxOrphans getRandHash pool).2

/-! ## Consistency -/

/-- The orphan is in the set of the parent. -/
def Orphans.Linked (pool : Orphans) (prev hash : UInt256) : Prop :=
  (lookup pool.mapOrphanTransactionsByPrev (prev, hash)).isSome

/-- The pool has an orphan under the hash that spends an output of the
parent. -/
def Orphans.Spends (pool : Orphans) (prev hash : UInt256) : Prop :=
  ∃ orphan, pool.mapOrphanTransactions[hash]? = some orphan ∧
    prev ∈ orphan.tx.vin.map (·.prevout.hash)

structure Consistent (pool : Orphans) : Prop where
  named : ∀ (hash : UInt256) (orphan : COrphanTx),
    pool.mapOrphanTransactions[hash]? = some orphan →
      orphan.tx.getHash = hash
  linked : ∀ prev hash, pool.Linked prev hash ↔ pool.Spends prev hash
  noEmpty : NoEmpty pool.mapOrphanTransactionsByPrev

/-- What a step is to leave: no orphan of a peer, or few enough orphans. -/
def Orphans.Cleared (pool : Orphans) (step : Step) : Prop :=
  match step with
  | .eraseOrphansFor peer =>
      ∀ (hash : UInt256) (orphan : COrphanTx),
        (pool.step step).mapOrphanTransactions[hash]? = some orphan →
          orphan.fromPeer ≠ peer
  | .limitOrphanTxSize nMaxOrphans _ =>
      (pool.step step).mapOrphanTransactions.size ≤ nMaxOrphans
  | _ => True

theorem consistent_emptyPool : Consistent emptyPool where
  named hash orphan found := by simp [emptyPool] at found
  linked prev hash := by
    simp [Orphans.Linked, Orphans.Spends, emptyPool, lookup_empty]
  noEmpty := noEmpty_empty

theorem mem_links_iff {hash prev other : UInt256} {vin : List CTxIn} :
    (prev, other) ∈ links hash vin ↔
      other = hash ∧ prev ∈ vin.map (·.prevout.hash) := by
  simp only [links, List.mem_map, Prod.mk.injEq]
  constructor
  · rintro ⟨txin, member, rfl, rfl⟩
    exact ⟨rfl, txin, member, rfl⟩
  · rintro ⟨rfl, txin, member, rfl⟩
    exact ⟨txin, member, rfl, rfl⟩

/-! ## Additions and erasures -/

theorem Consistent.addOrphanTx {pool : Orphans}
    (consistent : Consistent pool) (tx : CTransaction) (peer : NodeId) :
    Consistent (addOrphanTx tx peer pool).2 := by
  unfold OrphanPool.addOrphanTx
  dsimp only
  split_ifs with known big
  · exact consistent
  · exact consistent
  refine ⟨?_, ?_, consistent.noEmpty.putAll _ _⟩
  · intro hash orphan found
    rw [Std.ExtTreeMap.getElem?_insert] at found
    split_ifs at found with here
    · cases found
      exact Std.LawfulEqOrd.eq_of_compare here
    · exact consistent.named hash orphan found
  · intro prev hash
    unfold Orphans.Linked Orphans.Spends
    dsimp only
    rw [lookup_putAll, Std.ExtTreeMap.getElem?_insert]
    by_cases here : hash = tx.getHash
    · have absent : ¬ pool.Linked prev hash := by
        rintro linked
        obtain ⟨orphan, found, _⟩ := (consistent.linked prev hash).mp linked
        rw [here] at found
        exact known (Std.ExtTreeMap.mem_iff_isSome_getElem?.mpr (found ▸ rfl))
      unfold Orphans.Linked at absent
      rw [here] at absent ⊢
      rw [if_pos Std.ReflOrd.compare_self]
      split_ifs with linked
      · rw [mem_links_iff] at linked
        exact iff_of_true rfl ⟨_, rfl, linked.2⟩
      · apply iff_of_false absent
        rintro ⟨_, same, spent⟩
        cases same
        exact linked (mem_links_iff.mpr ⟨rfl, spent⟩)
    · have apart : compare tx.getHash hash ≠ .eq := by
        simpa using fun same => here same.symm
      rw [if_neg apart, if_neg fun member => here (mem_links_iff.mp member).1]
      exact consistent.linked prev hash

theorem Consistent.eraseOrphanTx {pool : Orphans}
    (consistent : Consistent pool) (hash : UInt256) :
    Consistent (eraseOrphanTx hash pool) := by
  unfold OrphanPool.eraseOrphanTx
  split
  case h_1 => exact consistent
  case h_2 orphan pooled =>
    refine ⟨?_, ?_, consistent.noEmpty.removeAll _⟩
    · intro other stored found
      rw [Std.ExtTreeMap.getElem?_erase] at found
      split_ifs at found
      exact consistent.named other stored found
    · intro prev other
      have before := consistent.linked prev other
      unfold Orphans.Linked Orphans.Spends at before ⊢
      dsimp only
      rw [lookup_removeAll, Std.ExtTreeMap.getElem?_erase]
      by_cases here : other = hash
      · rw [here, pooled] at before
        rw [here, if_pos Std.ReflOrd.compare_self]
        refine iff_of_false ?_ ?_
        · split_ifs with linked
          · exact Bool.false_ne_true
          · intro stays
            obtain ⟨_, same, spent⟩ := before.mp stays
            cases same
            exact linked (mem_links_iff.mpr ⟨rfl, spent⟩)
        · rintro ⟨_, gone, _⟩
          cases gone
      · have apart : compare hash other ≠ .eq := by
          simpa using fun same => here same.symm
        rw [if_neg apart,
          if_neg fun member => here (mem_links_iff.mp member).1]
        exact before

theorem getElem?_eraseOrphanTx (hash other : UInt256) (pool : Orphans) :
    (eraseOrphanTx hash pool).mapOrphanTransactions[other]? =
      if other = hash then none else pool.mapOrphanTransactions[other]? := by
  unfold eraseOrphanTx
  split
  case h_1 absent =>
    split_ifs with here
    · rw [here, absent]
    · rfl
  case h_2 =>
    dsimp only
    rw [Std.ExtTreeMap.getElem?_erase]
    by_cases here : other = hash
    · rw [here, if_pos Std.ReflOrd.compare_self, if_pos rfl]
    · rw [if_neg here, if_neg]
      simpa using fun same => here same.symm

/-! ## The loops -/

/-- Orphans that are left were there before, and were not passed by. -/
theorem eraseOrphansLoop_spec {peer : NodeId} {pool : Orphans}
    (consistent : Consistent pool) (entries : List (UInt256 × COrphanTx))
    (named : ∀ entry ∈ entries, entry.2.tx.getHash = entry.1) :
    Consistent (eraseOrphansLoop peer pool entries) ∧
      ∀ (hash : UInt256) (orphan : COrphanTx),
        (eraseOrphansLoop peer pool entries).mapOrphanTransactions[hash]? =
          some orphan →
        pool.mapOrphanTransactions[hash]? = some orphan ∧
          ((hash, orphan) ∈ entries → orphan.fromPeer ≠ peer) := by
  induction entries generalizing pool with
  | nil =>
      refine ⟨consistent, fun hash orphan found => ⟨found, ?_⟩⟩
      intro member
      cases member
  | cons entry entries ih =>
      rw [List.forall_mem_cons] at named
      obtain ⟨name, named⟩ := named
      unfold eraseOrphansLoop
      split_ifs with theirs
      · obtain ⟨after, left⟩ := ih (consistent.eraseOrphanTx _) named
        refine ⟨after, ?_⟩
        intro hash orphan found
        obtain ⟨earlier, others⟩ := left hash orphan found
        rw [name, getElem?_eraseOrphanTx] at earlier
        split_ifs at earlier with here
        refine ⟨earlier, ?_⟩
        intro member
        rcases List.mem_cons.mp member with same | member
        · exact absurd (congrArg Prod.fst same) here
        · exact others member
      · obtain ⟨after, left⟩ := ih consistent named
        refine ⟨after, ?_⟩
        intro hash orphan found
        obtain ⟨earlier, others⟩ := left hash orphan found
        refine ⟨earlier, ?_⟩
        intro member
        rcases List.mem_cons.mp member with same | member
        · rw [← same] at theirs
          exact theirs
        · exact others member

/-- All orphans of the peer are gone. -/
theorem eraseOrphansFor_spec {pool : Orphans}
    (consistent : Consistent pool) (peer : NodeId) :
    Consistent (eraseOrphansFor peer pool) ∧
      ∀ (hash : UInt256) (orphan : COrphanTx),
        (eraseOrphansFor peer pool).mapOrphanTransactions[hash]? =
          some orphan → orphan.fromPeer ≠ peer := by
  have named : ∀ entry ∈ pool.mapOrphanTransactions.toList,
      entry.2.tx.getHash = entry.1 := by
    rintro ⟨hash, orphan⟩ member
    exact consistent.named hash orphan
      (Std.ExtTreeMap.mem_toList_iff_getElem?_eq_some.mp member)
  obtain ⟨after, left⟩ := eraseOrphansLoop_spec consistent _ named
  refine ⟨after, ?_⟩
  intro hash orphan found
  obtain ⟨before, others⟩ := left hash orphan found
  exact others (Std.ExtTreeMap.mem_toList_iff_getElem?_eq_some.mpr before)

/-- Something can be evicted, as long as there is an orphan. -/
theorem evict_ne_none {randomhash : UInt256} {pool : Orphans}
    (occupied : 0 < pool.mapOrphanTransactions.size) :
    evict randomhash pool ≠ none := by
  unfold evict
  split
  · exact Option.some_ne_none _
  · intro none
    rw [List.head?_eq_none_iff] at none
    rw [← Std.ExtTreeMap.length_keys, none] at occupied
    cases occupied

theorem limitOrphansLoop_spec (nMaxOrphans : Nat)
    (getRandHash : Nat → UInt256) {pool : Orphans}
    (consistent : Consistent pool) (nEvicted : Nat) :
    Consistent (limitOrphansLoop nMaxOrphans getRandHash nEvicted pool).2 ∧
      (limitOrphansLoop nMaxOrphans getRandHash nEvicted
        pool).2.mapOrphanTransactions.size ≤ nMaxOrphans := by
  induction nEvicted, pool using
      limitOrphansLoop.induct nMaxOrphans getRandHash with
  | case1 nEvicted pool exceeds none =>
      exact absurd none (evict_ne_none (Nat.zero_lt_of_lt exceeds))
  | case2 nEvicted pool exceeds hash chosen ih =>
      rw [limitOrphansLoop, if_pos exceeds]
      split
      case h_1 none => rw [none] at chosen; cases chosen
      case h_2 other found =>
        rw [chosen] at found
        cases found
        exact ih (consistent.eraseOrphanTx hash)
  | case3 nEvicted pool fits =>
      rw [limitOrphansLoop, if_neg fits]
      exact ⟨consistent, Nat.not_lt.mp fits⟩

/-! ## All runs -/

theorem step_spec {pool : Orphans} (consistent : Consistent pool)
    (step : Step) : Consistent (pool.step step) ∧ pool.Cleared step := by
  cases step with
  | addOrphanTx tx peer => exact ⟨consistent.addOrphanTx tx peer, trivial⟩
  | eraseOrphanTx hash => exact ⟨consistent.eraseOrphanTx hash, trivial⟩
  | eraseOrphansFor peer => exact eraseOrphansFor_spec consistent peer
  | limitOrphanTxSize nMaxOrphans getRandHash =>
      exact limitOrphansLoop_spec nMaxOrphans getRandHash consistent 0

/-- The sets of children are those of the orphans in the pool, whatever is
added, erased and evicted, and each clearance leaves what it should. -/
theorem orphan_pool_consistent (steps : List Step) :
    Always Orphans.step Consistent steps emptyPool ∧
      Along Orphans.step Orphans.Cleared steps emptyPool := by
  constructor
  · refine Along.always ?_ (fun _ => id) consistent_emptyPool
      (along_trivial steps emptyPool)
    intro pool step consistent _
    exact (step_spec consistent step).1
  · refine Along.imp ?_ consistent_emptyPool (along_trivial steps emptyPool)
    intro pool step consistent _
    exact step_spec consistent step

end PrivateDatagram.Mempool.OrphanPool
