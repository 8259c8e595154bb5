import Mathlib.Data.List.AList
import PrivateDatagram.Chainstate.Coins

/-!
# Layers of coin caches

`CCoinsViewCache` keeps entries of the view below it, with two flags: DIRTY
for an entry that may differ from the one below, FRESH for an entry that the
view below does not have.  Reading fills every cache on the way down, and
flushing hands the dirty entries to the view below.

Caches are stacked over the coin database.  The stack is compared with plain
maps, one for each layer: an edit changes the map of its layer, flushing
copies a map to the one below.
-/

namespace PrivateDatagram.Chainstate.CoinsCache

open Wire.Serialize Coins

/-! ## Views -/

structure CCoinsCacheEntry where
  coins : CCoins
  dirty : Bool
  fresh : Bool
deriving DecidableEq, Repr

abbrev CCoinsMap := AList fun _ : UInt256 => CCoinsCacheEntry

/--
`CCoinsViewDB`.  Only entries with something unspent are serialized, and
reading one drops the null outputs at its end.
-/
structure CCoinsViewDB where
  view : CoinsMap
  readable : ∀ txid coins, view txid = some coins →
    coins.isPruned = false ∧ coins.cleanup = coins

/-- `BatchWriteCoins`. -/
def CCoinsViewDB.write (base : CCoinsViewDB) (txid : UInt256)
    (coins : CCoins) : CCoinsViewDB where
  view := base.view.put txid coins
  readable := by
    intro other found stored
    by_cases here : other = txid
    · subst here
      rw [put_self] at stored
      rcases unlessPruned_some stored with ⟨rfl, unpruned⟩
      exact ⟨unpruned, cleanup_cleanup coins⟩
    · rw [put_of_ne here] at stored
      exact base.readable other found stored

/-- `CCoinsViewDB::BatchWrite`. -/
def CCoinsViewDB.batchWrite (base : CCoinsViewDB) :
    List (Sigma fun _ : UInt256 => CCoinsCacheEntry) → CCoinsViewDB
  | [] => base
  | ⟨txid, entry⟩ :: rest =>
      if entry.dirty then
        (base.write txid entry.coins).batchWrite rest
      else
        base.batchWrite rest

/-! ## Caches -/

/--
`FetchCoins` and `GetCoins` on the first of the caches.  An entry that is
found further down is copied into every cache above it.
-/
def getCoins (base : CCoinsViewDB) (txid : UInt256) :
    List CCoinsMap → List CCoinsMap × Option CCoins
  | [] => ([], base.view txid)
  | cacheCoins :: below =>
      match cacheCoins.lookup txid with
      | some entry => (cacheCoins :: below, some entry.coins)
      | none =>
          match getCoins base txid below with
          | (below, none) => (cacheCoins :: below, none)
          | (below, some coins) =>
              (cacheCoins.insert txid ⟨coins, false, coins.isPruned⟩ :: below,
                some coins)

/-- The entry that `ModifyCoins` starts from, and the caches below. -/
def fetchForModify (base : CCoinsViewDB) (txid : UInt256)
    (cacheCoins : CCoinsMap) (below : List CCoinsMap) :
    CCoinsCacheEntry × List CCoinsMap :=
  match cacheCoins.lookup txid with
  | some entry => (entry, below)
  | none =>
      match getCoins base txid below with
      | (below, none) => (⟨.empty, false, true⟩, below)
      | (below, some coins) => (⟨coins, false, coins.isPruned⟩, below)

/-- `ModifyCoins`, the edit, and the destructor of the modifier. -/
def modifyCoins (base : CCoinsViewDB) (txid : UInt256)
    (edit : CCoins → CCoins) (cacheCoins : CCoinsMap)
    (below : List CCoinsMap) : List CCoinsMap :=
  let (entry, below) := fetchForModify base txid cacheCoins below
  let coins := (edit entry.coins).cleanup
  if entry.fresh && coins.isPruned then
    cacheCoins.erase txid :: below
  else
    cacheCoins.insert txid ⟨coins, true, entry.fresh⟩ :: below

/--
What `CCoinsViewCache::BatchWrite` makes of its own entry and that of its
child; nothing where the assertion fails.
-/
def writeEntry (itUs : Option CCoinsCacheEntry) (it : CCoinsCacheEntry) :
    Option (Option CCoinsCacheEntry) :=
  if it.dirty then
    match itUs with
    | none =>
        if it.coins.isPruned then
          some none
        else if it.fresh then
          some (some ⟨it.coins, true, true⟩)
        else
          none
    | some ours =>
        if ours.fresh && it.coins.isPruned then
          some none
        else
          some (some ⟨it.coins, true, ours.fresh⟩)
  else
    some itUs

/-- Store or erase one entry of a cache. -/
def setEntry (cacheCoins : CCoinsMap) (txid : UInt256) :
    Option CCoinsCacheEntry → CCoinsMap
  | none => cacheCoins.erase txid
  | some entry => cacheCoins.insert txid entry

/-- `CCoinsViewCache::BatchWrite`. -/
def batchWrite (cacheCoins : CCoinsMap) :
    List (Sigma fun _ : UInt256 => CCoinsCacheEntry) → Option CCoinsMap
  | [] => some cacheCoins
  | ⟨txid, entry⟩ :: rest =>
      match writeEntry (cacheCoins.lookup txid) entry with
      | none => none
      | some kept => batchWrite (setEntry cacheCoins txid kept) rest

/-- `Flush` of the first of the caches. -/
def flush (base : CCoinsViewDB) (cacheCoins : CCoinsMap) :
    List CCoinsMap → Option (List CCoinsMap × CCoinsViewDB)
  | [] => some ([∅], base.batchWrite cacheCoins.entries)
  | parent :: below =>
      (batchWrite parent cacheCoins.entries).map fun parent =>
        (∅ :: parent :: below, base)

/-! ## Runs of a stack -/

structure CoinsStack where
  /-- The caches, the last created first. -/
  caches : List CCoinsMap
  base : CCoinsViewDB

/-- Calls on a stack; layers are counted from the top. -/
inductive Call where
  | getCoins (layer : Nat) (txid : UInt256)
  | haveCoins (layer : Nat) (txid : UInt256)
  | modifyCoins (layer : Nat) (txid : UInt256) (edit : CCoins → CCoins)
  | create
  | destroy
  | flush (layer : Nat)

inductive Reply where
  | coins (found : Option CCoins)
  | have (found : Bool)
  | done
deriving DecidableEq, Repr

/-- `HaveCoins` asks for outputs in a cache and for the key in the database. -/
def haveReply (below : List CCoinsMap) (found : Option CCoins) : Bool :=
  match below, found with
  | _, none => false
  | [], some _ => true
  | _ :: _, some coins => !coins.vout.isEmpty

/-- One call; nothing where an assertion fails. -/
def step (stack : CoinsStack) : Call → Option (CoinsStack × Reply)
  | .getCoins layer txid =>
      let (below, found) :=
        getCoins stack.base txid (stack.caches.drop layer)
      some (⟨stack.caches.take layer ++ below, stack.base⟩, .coins found)
  | .haveCoins layer txid =>
      let (below, found) :=
        getCoins stack.base txid (stack.caches.drop layer)
      some (⟨stack.caches.take layer ++ below, stack.base⟩,
        .have (haveReply below found))
  | .modifyCoins layer txid edit =>
      match stack.caches.drop layer with
      | [] => some (stack, .done)
      | cacheCoins :: below =>
          some (⟨stack.caches.take layer ++
            modifyCoins stack.base txid edit cacheCoins below, stack.base⟩,
              .done)
  | .create => some (⟨∅ :: stack.caches, stack.base⟩, .done)
  | .destroy => some (⟨stack.caches.tail, stack.base⟩, .done)
  | .flush layer =>
      match stack.caches.drop layer with
      | [] => some (stack, .done)
      | cacheCoins :: below =>
          (flush stack.base cacheCoins below).map fun (below, base) =>
            (⟨stack.caches.take layer ++ below, base⟩, .done)

def run (stack : CoinsStack) : List Call → Option (CoinsStack × List Reply)
  | [] => some (stack, [])
  | call :: rest =>
      match step stack call with
      | none => none
      | some (stack, reply) =>
          match run stack rest with
          | none => none
          | some (stack, replies) => some (stack, reply :: replies)

/-! ## Plain maps -/

/-- One map for each layer, and one for the database. -/
structure PlainStack where
  layers : List CoinsMap
  base : CoinsMap

/-- The map of a layer; below the last cache it is that of the database. -/
def PlainStack.layer (plain : PlainStack) (layer : Nat) : CoinsMap :=
  (plain.layers.drop layer).headD plain.base

/-- The calls on plain maps. -/
def plainStep (plain : PlainStack) : Call → PlainStack × Reply
  | .getCoins layer txid => (plain, .coins (plain.layer layer txid))
  | .haveCoins layer txid => (plain, .have (plain.layer layer txid).isSome)
  | .modifyCoins layer txid edit =>
      (⟨plain.layers.modify layer fun view =>
        view.put txid (edit (view.entry txid)), plain.base⟩, .done)
  | .create => (⟨plain.layer 0 :: plain.layers, plain.base⟩, .done)
  | .destroy => (⟨plain.layers.tail, plain.base⟩, .done)
  | .flush layer =>
      match plain.layers.drop layer with
      | [] => (plain, .done)
      | [view] => (⟨plain.layers, view⟩, .done)
      | view :: _ :: _ =>
          (⟨plain.layers.set (layer + 1) view, plain.base⟩, .done)

def plainRun (plain : PlainStack) : List Call → PlainStack × List Reply
  | [] => (plain, [])
  | call :: rest =>
      let (plain, reply) := plainStep plain call
      let (plain, replies) := plainRun plain rest
      (plain, reply :: replies)

/-! ## The meaning of the flags -/

/-- A pruned entry counts as none. -/
def present (found : Option CCoins) : Option CCoins :=
  found.bind unlessPruned

/-- What reading the first of the caches returns. -/
def look (base : CCoinsViewDB) : List CCoinsMap → UInt256 → Option CCoins
  | [], txid => base.view txid
  | cacheCoins :: below, txid =>
      match cacheCoins.lookup txid with
      | some entry => some entry.coins
      | none => look base below txid

/-- The next view is the database, or a cache that has the entry. -/
def Holds : List CCoinsMap → UInt256 → Prop
  | [], _ => True
  | cacheCoins :: _, txid => (cacheCoins.lookup txid).isSome = true

/--
What the flags of an entry say about the views below.  An entry that is not
FRESH was read through the next view, which therefore has it.
-/
structure EntrySound (base : CCoinsViewDB) (below : List CCoinsMap)
    (txid : UInt256) (entry : CCoinsCacheEntry) : Prop where
  fresh : entry.fresh = true → present (look base below txid) = none
  clean : entry.dirty = false →
    present (some entry.coins) = present (look base below txid)
  backed : entry.fresh = false → Holds below txid
  trimmed : entry.coins.cleanup = entry.coins

def CacheSound (base : CCoinsViewDB) (cacheCoins : CCoinsMap)
    (below : List CCoinsMap) : Prop :=
  ∀ txid entry, cacheCoins.lookup txid = some entry →
    EntrySound base below txid entry

/-- The caches represent the plain maps, layer by layer. -/
def Represents (base : CCoinsViewDB) : List CCoinsMap → List CoinsMap → Prop
  | [], [] => True
  | cacheCoins :: below, view :: views =>
      (∀ txid, present (look base (cacheCoins :: below) txid) = view txid) ∧
        CacheSound base cacheCoins below ∧ Represents base below views
  | _, _ => False

theorem present_view (base : CCoinsViewDB) (txid : UInt256) :
    present (base.view txid) = base.view txid := by
  cases found : base.view txid with
  | none => rfl
  | some coins =>
      have unpruned := (base.readable txid coins found).1
      rw [present, Option.bind_some, unlessPruned, if_neg (by simp [unpruned])]

/-- The map of a layer is what reading the caches from there returns. -/
theorem represents_layer {base : CCoinsViewDB} {caches : List CCoinsMap}
    {views : List CoinsMap} (represents : Represents base caches views)
    (txid : UInt256) :
    present (look base caches txid) = views.headD base.view txid := by
  cases caches with
  | nil =>
      cases views with
      | nil => exact present_view base txid
      | cons view views => cases represents
  | cons cacheCoins below =>
      cases views with
      | nil => cases represents
      | cons view views => exact represents.1 txid

theorem look_trimmed {base : CCoinsViewDB} {caches : List CCoinsMap}
    {views : List CoinsMap} (represents : Represents base caches views)
    {txid : UInt256} {coins : CCoins}
    (found : look base caches txid = some coins) :
    coins.cleanup = coins := by
  induction caches generalizing views with
  | nil => exact (base.readable txid coins found).2
  | cons cacheCoins below ih =>
      cases views with
      | nil => cases represents
      | cons view views =>
          rw [look] at found
          cases cached : cacheCoins.lookup txid with
          | some entry =>
              rw [cached] at found
              cases found
              exact (represents.2.1 txid entry cached).trimmed
          | none =>
              rw [cached] at found
              exact ih represents.2.2 found

theorem EntrySound.transport {base base' : CCoinsViewDB}
    {below below' : List CCoinsMap} {txid : UInt256}
    {entry : CCoinsCacheEntry} (sound : EntrySound base below txid entry)
    (same : look base' below' txid = look base below txid)
    (holds : Holds below txid → Holds below' txid) :
    EntrySound base' below' txid entry where
  fresh := by
    rw [same]
    exact sound.fresh
  clean := by
    rw [same]
    exact sound.clean
  backed := fun notFresh => holds (sound.backed notFresh)
  trimmed := sound.trimmed

/-! ## Reading -/

/-- Caches that were only filled from below. -/
structure Filled (base : CCoinsViewDB) (caches caches' : List CCoinsMap) :
    Prop where
  same : ∀ txid, look base caches' txid = look base caches txid
  holds : ∀ txid, Holds caches txid → Holds caches' txid
  represents : ∀ views, Represents base caches views →
    Represents base caches' views

theorem Filled.refl (base : CCoinsViewDB) (caches : List CCoinsMap) :
    Filled base caches caches :=
  ⟨fun _ => rfl, fun _ => id, fun _ => id⟩

/-- Filling the caches below keeps those above. -/
theorem Filled.cons {base : CCoinsViewDB} {below below' : List CCoinsMap}
    (filled : Filled base below below') (cacheCoins : CCoinsMap) :
    Filled base (cacheCoins :: below) (cacheCoins :: below') := by
  have same : ∀ txid, look base (cacheCoins :: below') txid =
      look base (cacheCoins :: below) txid := by
    intro txid
    rw [look, look, filled.same]
  refine ⟨same, fun _ => id, ?_⟩
  intro views represents
  cases views with
  | nil => cases represents
  | cons view views =>
      refine ⟨?_, ?_, filled.represents views represents.2.2⟩
      · intro txid
        rw [same]
        exact represents.1 txid
      · intro txid entry cached
        exact (represents.2.1 txid entry cached).transport
          (filled.same txid) (filled.holds txid)

theorem Filled.append {base : CCoinsViewDB} {below below' : List CCoinsMap}
    (filled : Filled base below below') (above : List CCoinsMap) :
    Filled base (above ++ below) (above ++ below') := by
  induction above with
  | nil => exact filled
  | cons cacheCoins above ih => exact ih.cons cacheCoins

/-- Copying an entry from below into a cache that lacks it. -/
theorem Filled.insert {base : CCoinsViewDB} {below below' : List CCoinsMap}
    {cacheCoins : CCoinsMap} {txid : UInt256} {coins : CCoins}
    (filled : Filled base below below')
    (missing : cacheCoins.lookup txid = none)
    (found : look base below txid = some coins) (holds : Holds below' txid) :
    Filled base (cacheCoins :: below)
      (cacheCoins.insert txid ⟨coins, false, coins.isPruned⟩ :: below') := by
  have same : ∀ other,
      look base (cacheCoins.insert txid ⟨coins, false, coins.isPruned⟩ ::
        below') other = look base (cacheCoins :: below) other := by
    intro other
    rw [look, look]
    by_cases here : other = txid
    · subst here
      rw [AList.lookup_insert, missing]
      exact found.symm
    · rw [AList.lookup_insert_ne here, filled.same]
  refine ⟨same, ?_, ?_⟩
  · intro other held
    by_cases here : other = txid
    · subst here
      rw [Holds, AList.lookup_insert]
      rfl
    · rw [Holds, AList.lookup_insert_ne here]
      exact held
  · intro views represents
    cases views with
    | nil => cases represents
    | cons view views =>
        refine ⟨?_, ?_, filled.represents views represents.2.2⟩
        · intro other
          rw [same]
          exact represents.1 other
        · intro other entry cached
          by_cases here : other = txid
          · subst here
            rw [AList.lookup_insert] at cached
            cases cached
            refine ⟨?_, ?_, fun _ => holds, ?_⟩
            · intro pruned
              rw [filled.same, found, present, Option.bind_some, unlessPruned,
                if_pos pruned]
            · intro _
              rw [filled.same, found]
            · exact look_trimmed represents.2.2 found
          · rw [AList.lookup_insert_ne here] at cached
            exact (represents.2.1 other entry cached).transport
              (filled.same other) (filled.holds other)

/-- Reading returns what is there, and leaves it in the caches passed. -/
theorem getCoins_spec (base : CCoinsViewDB) (txid : UInt256)
    (caches : List CCoinsMap) :
    (getCoins base txid caches).2 = look base caches txid ∧
      Filled base caches (getCoins base txid caches).1 ∧
      ((look base caches txid).isSome = true →
        Holds (getCoins base txid caches).1 txid) := by
  induction caches with
  | nil => exact ⟨rfl, Filled.refl _ _, fun _ => trivial⟩
  | cons cacheCoins below ih =>
      rw [getCoins, look]
      cases cached : cacheCoins.lookup txid with
      | some entry =>
          refine ⟨rfl, Filled.refl _ _, ?_⟩
          intro _
          rw [Holds, cached]
          rfl
      | none =>
          dsimp only
          rcases fetched : getCoins base txid below with ⟨below', reply⟩
          rw [fetched] at ih
          rcases ih with ⟨replied, filled, holds⟩
          dsimp only at replied filled holds
          cases reply with
          | none =>
              rw [← replied]
              exact ⟨rfl, filled.cons cacheCoins, fun found => by cases found⟩
          | some coins =>
              rw [← replied]
              have held := holds (by rw [← replied]; rfl)
              refine ⟨rfl, filled.insert cached replied.symm held, ?_⟩
              intro _
              rw [Holds, AList.lookup_insert]
              rfl

/-! ## Modifying -/

/-- An edit that does not look at what a pruned entry has left. -/
def Blind (edit : CCoins → CCoins) : Prop :=
  ∀ coins, coins.isPruned = true →
    unlessPruned (edit coins).cleanup = unlessPruned (edit .empty).cleanup

/-- A blind edit of a cached entry is an edit of the plain map. -/
theorem edit_eq {edit : CCoins → CCoins} (blind : Blind edit)
    {view : CoinsMap} {txid : UInt256} {coins : CCoins}
    (same : present (some coins) = view txid) :
    unlessPruned (edit coins).cleanup =
      unlessPruned (edit (view.entry txid)).cleanup := by
  rw [present, Option.bind_some, unlessPruned] at same
  unfold CoinsMap.entry
  rw [← same]
  cases pruned : coins.isPruned with
  | true =>
      rw [if_pos rfl]
      exact blind coins pruned
  | false =>
      rw [if_neg Bool.false_ne_true]
      rfl

/-- The entry handed out, before the edit. -/
theorem fetchForModify_spec {base : CCoinsViewDB} {cacheCoins : CCoinsMap}
    {below : List CCoinsMap} {view : CoinsMap} {views : List CoinsMap}
    (represents : Represents base (cacheCoins :: below) (view :: views))
    (txid : UInt256) :
    Filled base below (fetchForModify base txid cacheCoins below).2 ∧
      present (some (fetchForModify base txid cacheCoins below).1.coins) =
        view txid ∧
      EntrySound base (fetchForModify base txid cacheCoins below).2 txid
        (fetchForModify base txid cacheCoins below).1 := by
  have here := represents.1 txid
  rw [look] at here
  unfold fetchForModify
  cases cached : cacheCoins.lookup txid with
  | some entry =>
      rw [cached] at here
      exact ⟨Filled.refl _ _, here, represents.2.1 txid entry cached⟩
  | none =>
      rw [cached] at here
      dsimp only at here ⊢
      rcases getCoins_spec base txid below with ⟨replied, filled, holds⟩
      rcases fetched : getCoins base txid below with ⟨below', reply⟩
      rw [fetched] at replied filled holds
      dsimp only at replied filled holds
      rw [← replied] at here holds
      cases reply with
      | none =>
          refine ⟨filled, here, ?_, ?_, ?_, rfl⟩
          · intro _
            rw [filled.same, ← replied]
            rfl
          · intro _
            rw [filled.same, ← replied]
            rfl
          · intro impossible
            cases impossible
      | some coins =>
          refine ⟨filled, here, ?_, ?_, ?_, ?_⟩
          · intro pruned
            rw [filled.same, ← replied, present, Option.bind_some,
              unlessPruned, if_pos pruned]
          · intro _
            rw [filled.same, ← replied]
          · intro _
            exact holds rfl
          · exact look_trimmed represents.2.2 replied.symm

/-- An entry of a cache, or else what is found below. -/
def seenThrough (entry : Option CCoinsCacheEntry) (found : Option CCoins) :
    Option CCoins :=
  match entry with
  | some entry => some entry.coins
  | none => found

theorem look_cons (base : CCoinsViewDB) (cacheCoins : CCoinsMap)
    (below : List CCoinsMap) (txid : UInt256) :
    look base (cacheCoins :: below) txid =
      seenThrough (cacheCoins.lookup txid) (look base below txid) := by
  rw [look]
  cases cacheCoins.lookup txid <;> rfl

@[simp]
theorem lookup_setEntry_self (cacheCoins : CCoinsMap) (txid : UInt256)
    (kept : Option CCoinsCacheEntry) :
    (setEntry cacheCoins txid kept).lookup txid = kept := by
  cases kept with
  | none => exact AList.lookup_erase txid cacheCoins
  | some entry => exact AList.lookup_insert cacheCoins

theorem lookup_setEntry_of_ne {cacheCoins : CCoinsMap}
    {txid other : UInt256} (different : other ≠ txid)
    (kept : Option CCoinsCacheEntry) :
    (setEntry cacheCoins txid kept).lookup other = cacheCoins.lookup other := by
  cases kept with
  | none => exact AList.lookup_erase_ne different
  | some entry => exact AList.lookup_insert_ne different

/-- The entry that `ModifyCoins` leaves. -/
def keptEntry (edit : CCoins → CCoins) (entry : CCoinsCacheEntry) :
    Option CCoinsCacheEntry :=
  if entry.fresh && (edit entry.coins).cleanup.isPruned then none
  else some ⟨(edit entry.coins).cleanup, true, entry.fresh⟩

theorem modifyCoins_eq (base : CCoinsViewDB) (txid : UInt256)
    (edit : CCoins → CCoins) (cacheCoins : CCoinsMap)
    (below : List CCoinsMap) :
    modifyCoins base txid edit cacheCoins below =
      setEntry cacheCoins txid
          (keptEntry edit (fetchForModify base txid cacheCoins below).1) ::
        (fetchForModify base txid cacheCoins below).2 := by
  unfold modifyCoins keptEntry
  dsimp only
  split_ifs <;> rfl

/-- A modified cache represents the edited map. -/
theorem modifyCoins_represents {base : CCoinsViewDB} {txid : UInt256}
    {edit : CCoins → CCoins} {cacheCoins : CCoinsMap}
    {below : List CCoinsMap} {view : CoinsMap} {views : List CoinsMap}
    (blind : Blind edit)
    (represents : Represents base (cacheCoins :: below) (view :: views)) :
    Represents base (modifyCoins base txid edit cacheCoins below)
      (view.put txid (edit (view.entry txid)) :: views) := by
  rcases fetchForModify_spec represents txid with ⟨filled, handed, sound⟩
  rw [modifyCoins_eq]
  rcases fetched : fetchForModify base txid cacheCoins below with
    ⟨entry, below'⟩
  rw [fetched] at filled handed sound
  dsimp only at filled handed sound ⊢
  have edited := edit_eq blind handed
  have value : present (seenThrough (keptEntry edit entry)
      (look base below' txid)) = unlessPruned (edit entry.coins).cleanup := by
    unfold keptEntry
    split_ifs with erased
    · rw [Bool.and_eq_true] at erased
      rw [seenThrough, sound.fresh erased.1, unlessPruned, if_pos erased.2]
    · rfl
  refine ⟨?_, ?_, filled.represents views represents.2.2⟩
  · intro other
    rw [look_cons]
    by_cases here : other = txid
    · subst here
      rw [lookup_setEntry_self, value, put_self, edited]
    · rw [lookup_setEntry_of_ne here, put_of_ne here, filled.same,
        ← look_cons]
      exact represents.1 other
  · intro other found cached
    by_cases here : other = txid
    · subst here
      rw [lookup_setEntry_self, keptEntry] at cached
      split_ifs at cached
      cases cached
      refine ⟨sound.fresh, ?_, sound.backed, cleanup_cleanup _⟩
      intro impossible
      cases impossible
    · rw [lookup_setEntry_of_ne here] at cached
      exact (represents.2.1 other found cached).transport
        (filled.same other) (filled.holds other)

/-! ## Flushing -/

/-- The assertion holds, and the parent takes over the value of the child. -/
theorem writeEntry_spec {base : CCoinsViewDB} {parent : CCoinsMap}
    {below : List CCoinsMap} {txid : UInt256} {it : CCoinsCacheEntry}
    (child : EntrySound base (parent :: below) txid it)
    (ours : ∀ entry, parent.lookup txid = some entry →
      EntrySound base below txid entry) :
    ∃ kept, writeEntry (parent.lookup txid) it = some kept ∧
      present (seenThrough kept (look base below txid)) = present (some it.coins) ∧
      ∀ entry, kept = some entry → EntrySound base below txid entry := by
  have fresh := child.fresh
  have clean := child.clean
  have backed := child.backed
  rw [look_cons] at fresh clean
  rw [Holds] at backed
  unfold writeEntry
  cases dirty : it.dirty with
  | false =>
      rw [if_neg Bool.false_ne_true]
      exact ⟨_, rfl, (clean dirty).symm, ours⟩
  | true =>
      rw [if_pos rfl]
      cases found : parent.lookup txid with
      | none =>
          -- The parent lacks the entry, so that of the child is FRESH.
          rw [found] at fresh backed
          have isFresh : it.fresh = true := by
            cases flag : it.fresh with
            | true => rfl
            | false => cases backed flag
          have nothing : present (look base below txid) = none := fresh isFresh
          cases pruned : it.coins.isPruned with
          | true =>
              refine ⟨none, rfl, ?_, fun _ impossible => by cases impossible⟩
              rw [seenThrough, nothing, present, Option.bind_some, unlessPruned,
                if_pos pruned]
          | false =>
              dsimp only
              rw [if_neg Bool.false_ne_true, if_pos isFresh]
              refine ⟨_, rfl, rfl, ?_⟩
              rintro _ ⟨⟩
              refine ⟨fun _ => nothing, ?_, ?_, child.trimmed⟩
              · intro impossible
                cases impossible
              · intro impossible
                cases impossible
      | some entry =>
          have sound := ours entry found
          dsimp only
          split_ifs with erased
          · rw [Bool.and_eq_true] at erased
            refine ⟨none, rfl, ?_, fun _ impossible => by cases impossible⟩
            rw [seenThrough, sound.fresh erased.1, present, Option.bind_some,
              unlessPruned, if_pos erased.2]
          · refine ⟨_, rfl, rfl, ?_⟩
            rintro _ ⟨⟩
            refine ⟨sound.fresh, ?_, sound.backed, child.trimmed⟩
            intro impossible
            cases impossible

/-- `BatchWrite` handles each key by itself. -/
theorem batchWrite_spec
    {entries : List (Sigma fun _ : UInt256 => CCoinsCacheEntry)}
    (distinct : entries.NodupKeys) (cacheCoins : CCoinsMap)
    (asserts : ∀ txid entry, entries.dlookup txid = some entry →
      (writeEntry (cacheCoins.lookup txid) entry).isSome = true) :
    ∃ written, batchWrite cacheCoins entries = some written ∧
      ∀ txid, some (written.lookup txid) =
        match entries.dlookup txid with
        | none => some (cacheCoins.lookup txid)
        | some entry => writeEntry (cacheCoins.lookup txid) entry := by
  induction entries generalizing cacheCoins with
  | nil => exact ⟨cacheCoins, rfl, fun _ => rfl⟩
  | cons first rest ih =>
      rcases first with ⟨txid, entry⟩
      rw [List.nodupKeys_cons] at distinct
      rcases distinct with ⟨notInRest, distinct⟩
      have missing : rest.dlookup txid = none :=
        List.dlookup_eq_none.mpr notInRest
      have here := asserts txid entry (List.dlookup_cons_eq _ _ _)
      rcases Option.isSome_iff_exists.mp here with ⟨kept, wrote⟩
      have later : ∀ other found, rest.dlookup other = some found →
          other ≠ txid := by
        rintro other found present rfl
        rw [missing] at present
        cases present
      have assertsLater : ∀ other found, rest.dlookup other = some found →
          (writeEntry ((setEntry cacheCoins txid kept).lookup other)
            found).isSome = true := by
        intro other found present
        have different := later other found present
        rw [lookup_setEntry_of_ne different]
        apply asserts
        rw [List.dlookup_cons_ne _ _ different]
        exact present
      rcases ih distinct (setEntry cacheCoins txid kept) assertsLater with
        ⟨written, done, lookups⟩
      refine ⟨written, ?_, ?_⟩
      · rw [batchWrite, wrote]
        exact done
      · intro other
        rw [lookups]
        by_cases same : other = txid
        · subst same
          rw [List.dlookup_cons_eq, missing, lookup_setEntry_self]
          exact wrote.symm
        · rw [List.dlookup_cons_ne _ _ same, lookup_setEntry_of_ne same]

/-- Flushing into a cache copies the map of the child to it. -/
theorem batchWrite_represents {base : CCoinsViewDB}
    {cacheCoins parent : CCoinsMap} {below : List CCoinsMap}
    {view parentView : CoinsMap} {views : List CoinsMap}
    (represents : Represents base (cacheCoins :: parent :: below)
      (view :: parentView :: views)) :
    ∃ written, batchWrite parent cacheCoins.entries = some written ∧
      Represents base (written :: below) (view :: views) := by
  rcases represents with ⟨values, sound, parentValues, parentSound, rest⟩
  have wrote := fun txid entry cached =>
    writeEntry_spec (sound txid entry cached) (parentSound txid)
  have asserts : ∀ txid entry, cacheCoins.entries.dlookup txid = some entry →
      (writeEntry (parent.lookup txid) entry).isSome = true := by
    intro txid entry cached
    rcases wrote txid entry cached with ⟨kept, done, _⟩
    rw [done]
    rfl
  rcases batchWrite_spec cacheCoins.nodupKeys parent asserts with
    ⟨written, done, lookups⟩
  have each : ∀ txid,
      present (seenThrough (written.lookup txid) (look base below txid)) =
        view txid ∧
      ∀ entry, written.lookup txid = some entry →
        EntrySound base below txid entry := by
    intro txid
    have here := lookups txid
    have value := values txid
    rw [look_cons, AList.lookup] at value
    cases cached : cacheCoins.entries.dlookup txid with
    | none =>
        rw [cached] at here value
        rw [Option.some.inj here, ← look_cons]
        exact ⟨value, parentSound txid⟩
    | some entry =>
        rcases wrote txid entry cached with ⟨kept, stored, same, keptSound⟩
        rw [cached] at here value
        dsimp only at here
        rw [stored] at here
        rw [Option.some.inj here]
        exact ⟨same.trans value, keptSound⟩
  refine ⟨written, done, ?_, ?_, rest⟩
  · intro txid
    rw [look_cons]
    exact (each txid).1
  · intro txid
    exact (each txid).2

theorem batchWrite_view
    {entries : List (Sigma fun _ : UInt256 => CCoinsCacheEntry)}
    (distinct : entries.NodupKeys) (base : CCoinsViewDB) (txid : UInt256) :
    (base.batchWrite entries).view txid =
      match entries.dlookup txid with
      | none => base.view txid
      | some entry =>
          if entry.dirty then unlessPruned entry.coins.cleanup
          else base.view txid := by
  induction entries generalizing base with
  | nil => rfl
  | cons first rest ih =>
      rcases first with ⟨key, entry⟩
      rw [List.nodupKeys_cons] at distinct
      rcases distinct with ⟨notInRest, distinct⟩
      have missing : rest.dlookup key = none :=
        List.dlookup_eq_none.mpr notInRest
      rw [CCoinsViewDB.batchWrite]
      by_cases here : txid = key
      · subst here
        rw [List.dlookup_cons_eq]
        dsimp only
        split_ifs with dirty
        · rw [ih distinct, missing]
          exact put_self base.view txid entry.coins
        · rw [ih distinct, missing]
      · rw [List.dlookup_cons_ne _ _ here]
        split_ifs with dirty
        · have same : (base.write key entry.coins).view txid =
              base.view txid := put_of_ne here entry.coins
          rw [ih distinct, same]
        · rw [ih distinct]

/-- Flushing into the database makes it the map of the cache. -/
theorem batchWrite_base {base : CCoinsViewDB} {cacheCoins : CCoinsMap}
    {view : CoinsMap} (represents : Represents base [cacheCoins] [view]) :
    (base.batchWrite cacheCoins.entries).view = view := by
  funext txid
  have value := represents.1 txid
  have sound := represents.2.1 txid
  rw [look_cons, AList.lookup] at value
  rw [AList.lookup] at sound
  rw [batchWrite_view cacheCoins.nodupKeys]
  cases cached : cacheCoins.entries.dlookup txid with
  | none =>
      rw [cached] at value
      rw [← value]
      exact (present_view base txid).symm
  | some entry =>
      rw [cached] at value
      have entrySound := sound entry cached
      dsimp only
      split_ifs with dirty
      · rw [entrySound.trimmed]
        exact value
      · rw [← value]
        have clean := entrySound.clean (by simpa using dirty)
        rw [seenThrough, clean]
        exact (present_view base txid).symm

/-! ## Runs -/

/-- Edits and flushes at the top, and edits that a plain map can follow. -/
def OnTop : Call → Prop
  | .modifyCoins layer _ edit => layer = 0 ∧ Blind edit
  | .flush layer => layer = 0
  | _ => True

/-- A reply, with a pruned entry read as none. -/
def Reply.present : Reply → Reply
  | .coins found => .coins (CoinsCache.present found)
  | reply => reply

structure Refines (stack : CoinsStack) (plain : PlainStack) : Prop where
  base : stack.base.view = plain.base
  caches : Represents stack.base stack.caches plain.layers

theorem represents_drop {base : CCoinsViewDB} {caches : List CCoinsMap}
    {views : List CoinsMap} (represents : Represents base caches views)
    (layer : Nat) :
    Represents base (caches.drop layer) (views.drop layer) := by
  induction layer generalizing caches views with
  | zero => exact represents
  | succ layer ih =>
      cases caches with
      | nil =>
          cases views with
          | nil => trivial
          | cons view views => cases represents
      | cons cacheCoins below =>
          cases views with
          | nil => cases represents
          | cons view views => exact ih represents.2.2

theorem refines_layer {stack : CoinsStack} {plain : PlainStack}
    (refines : Refines stack plain) (layer : Nat) (txid : UInt256) :
    present (look stack.base (stack.caches.drop layer) txid) =
      plain.layer layer txid := by
  have same := represents_layer (represents_drop refines.caches layer) txid
  rw [same, PlainStack.layer, refines.base]

/-- Reading at any layer keeps what the stack represents. -/
theorem refines_read {stack : CoinsStack} {plain : PlainStack}
    (refines : Refines stack plain) (layer : Nat) (txid : UInt256) :
    Refines ⟨stack.caches.take layer ++
      (getCoins stack.base txid (stack.caches.drop layer)).1, stack.base⟩
      plain := by
  refine ⟨refines.base, ?_⟩
  have filled := (getCoins_spec stack.base txid
    (stack.caches.drop layer)).2.1.append (stack.caches.take layer)
  apply filled.represents
  rw [List.take_append_drop]
  exact refines.caches

theorem isSome_present {coins : CCoins} (trimmed : coins.cleanup = coins) :
    (present (some coins)).isSome = !coins.vout.isEmpty := by
  rw [present, Option.bind_some, unlessPruned]
  cases pruned : coins.isPruned with
  | true =>
      rw [vout_nil_of_pruned trimmed pruned]
      rfl
  | false =>
      cases shape : coins.vout with
      | nil => simp [CCoins.isPruned, shape] at pruned
      | cons txout rest => rfl

/-- `HaveCoins` finds exactly the entries of the plain map. -/
theorem haveReply_spec {base : CCoinsViewDB} {caches : List CCoinsMap}
    {views : List CoinsMap} (represents : Represents base caches views)
    (txid : UInt256) :
    haveReply (getCoins base txid caches).1 (getCoins base txid caches).2 =
      (present (look base caches txid)).isSome := by
  rw [(getCoins_spec base txid caches).1]
  cases found : look base caches txid with
  | none =>
      cases (getCoins base txid caches).1 <;> rfl
  | some coins =>
      rw [isSome_present (look_trimmed represents found)]
      cases caches with
      | nil =>
          -- The database has no entry without outputs.
          have unpruned := (base.readable txid coins found).1
          cases shape : coins.vout with
          | nil => simp [CCoins.isPruned, shape] at unpruned
          | cons txout rest => rfl
      | cons cacheCoins below =>
          rw [getCoins]
          cases cacheCoins.lookup txid with
          | some entry => rfl
          | none =>
              dsimp only
              rcases getCoins base txid below with ⟨below', reply⟩
              cases reply <;> rfl

theorem represents_create {base : CCoinsViewDB} {caches : List CCoinsMap}
    {views : List CoinsMap} (represents : Represents base caches views) :
    Represents base (∅ :: caches) (views.headD base.view :: views) := by
  refine ⟨?_, ?_, represents⟩
  · intro txid
    rw [look_cons, AList.lookup_empty]
    exact represents_layer represents txid
  · intro txid entry impossible
    rw [AList.lookup_empty] at impossible
    cases impossible

/-- The plain map above the one that a flush wrote to. -/
theorem represents_flush {base : CCoinsViewDB} {cacheCoins : CCoinsMap}
    {below : List CCoinsMap} {view : CoinsMap} {views : List CoinsMap}
    (represents : Represents base (cacheCoins :: below) (view :: views)) :
    ∃ caches base', flush base cacheCoins below = some (caches, base') ∧
      match views with
      | [] => base'.view = view ∧ Represents base' caches [view]
      | _ :: rest =>
          base' = base ∧ Represents base caches (view :: view :: rest) := by
  cases below with
  | nil =>
      cases views with
      | cons parentView views => cases represents.2.2
      | nil =>
          have written := batchWrite_base represents
          refine ⟨_, _, rfl, written, ?_⟩
          have nothing :
              Represents (base.batchWrite cacheCoins.entries) [] [] := trivial
          have created := represents_create nothing
          rw [List.headD_nil, written] at created
          exact created
  | cons parent below =>
      cases views with
      | nil => cases represents.2.2
      | cons parentView views =>
          rcases batchWrite_represents represents with ⟨written, done, kept⟩
          refine ⟨_, _, by rw [flush, done]; rfl, rfl, ?_⟩
          exact represents_create kept

/-- One call on the stack is one call on the plain maps. -/
theorem step_refines {stack : CoinsStack} {plain : PlainStack} {call : Call}
    (refines : Refines stack plain) (onTop : OnTop call) :
    ∃ stack' reply, step stack call = some (stack', reply) ∧
      reply.present = (plainStep plain call).2 ∧
      Refines stack' (plainStep plain call).1 := by
  rcases stack with ⟨caches, base⟩
  rcases plain with ⟨views, plainBase⟩
  have sameBase : base.view = plainBase := refines.base
  have represents : Represents base caches views := refines.caches
  cases call with
  | getCoins layer txid =>
      refine ⟨_, _, rfl, ?_, refines_read refines layer txid⟩
      dsimp only [Reply.present, plainStep]
      rw [(getCoins_spec _ _ _).1, refines_layer refines]
  | haveCoins layer txid =>
      refine ⟨_, _, rfl, ?_, refines_read refines layer txid⟩
      dsimp only [Reply.present, plainStep]
      rw [haveReply_spec (represents_drop represents layer),
        refines_layer refines]
  | modifyCoins layer txid edit =>
      rcases onTop with ⟨rfl, blind⟩
      cases caches with
      | nil =>
          cases views with
          | cons view views => cases represents
          | nil => exact ⟨_, _, rfl, rfl, sameBase, trivial⟩
      | cons cacheCoins below =>
          cases views with
          | nil => cases represents
          | cons view views =>
              exact ⟨_, _, rfl, rfl, sameBase,
                modifyCoins_represents blind represents⟩
  | create =>
      refine ⟨_, _, rfl, rfl, sameBase, ?_⟩
      subst sameBase
      exact represents_create represents
  | destroy =>
      refine ⟨_, _, rfl, rfl, sameBase, ?_⟩
      have dropped := represents_drop represents 1
      rw [List.drop_one, List.drop_one] at dropped
      exact dropped
  | flush layer =>
      cases onTop
      cases caches with
      | nil =>
          cases views with
          | cons view views => cases represents
          | nil => exact ⟨_, _, rfl, rfl, sameBase, trivial⟩
      | cons cacheCoins below =>
          cases views with
          | nil => cases represents
          | cons view views =>
              rcases represents_flush represents with
                ⟨caches, base', done, flushed⟩
              have stepped : step ⟨cacheCoins :: below, base⟩ (.flush 0) =
                  some (⟨caches, base'⟩, .done) := by
                rw [step, List.drop_zero]
                dsimp only
                rw [done]
                rfl
              refine ⟨_, _, stepped, ?_⟩
              cases views with
              | nil => exact ⟨rfl, flushed.1, flushed.2⟩
              | cons parentView views =>
                  rcases flushed with ⟨rfl, kept⟩
                  exact ⟨rfl, sameBase, kept⟩

/-- A whole run follows the plain maps, and no assertion fails in it. -/
theorem run_refines {stack : CoinsStack} {plain : PlainStack}
    {calls : List Call} (refines : Refines stack plain)
    (onTop : ∀ call ∈ calls, OnTop call) :
    ∃ stack' replies, run stack calls = some (stack', replies) ∧
      replies.map Reply.present = (plainRun plain calls).2 ∧
      Refines stack' (plainRun plain calls).1 := by
  induction calls generalizing stack plain with
  | nil => exact ⟨stack, [], rfl, rfl, refines⟩
  | cons call rest ih =>
      rcases step_refines refines (onTop call List.mem_cons_self) with
        ⟨middle, reply, stepped, replied, kept⟩
      rcases ih kept fun other member =>
        onTop other (List.mem_cons_of_mem _ member) with
        ⟨stack', replies, ran, repliedLater, keptLater⟩
      refine ⟨stack', reply :: replies, ?_, ?_, keptLater⟩
      · rw [run, stepped]
        dsimp only
        rw [ran]
      · rw [List.map_cons, replied, repliedLater]
        rfl

/-- Flush and destroy the caches, from the top. -/
def flushCalls : Nat → List Call
  | 0 => []
  | caches + 1 => .flush 0 :: .destroy :: flushCalls caches

theorem flushCalls_onTop (caches : Nat) :
    ∀ call ∈ flushCalls caches, OnTop call := by
  induction caches with
  | zero =>
      intro call impossible
      cases impossible
  | succ caches ih =>
      intro call member
      rcases List.mem_cons.mp member with rfl | member
      · rfl
      · rcases List.mem_cons.mp member with rfl | member
        · trivial
        · exact ih call member

/-- On plain maps a final flush copies the top map to the database. -/
theorem plainRun_flushCalls {caches : Nat} {layers : List CoinsMap}
    (length : layers.length = caches) (base : CoinsMap) :
    (plainRun ⟨layers, base⟩ (flushCalls caches)).1 =
      ⟨[], layers.headD base⟩ := by
  induction caches generalizing layers with
  | zero =>
      cases List.length_eq_zero_iff.mp length
      rfl
  | succ caches ih =>
      cases layers with
      | nil => cases length
      | cons view views =>
          have lengths : views.length = caches := Nat.succ.inj length
          cases views with
          | nil =>
              cases lengths
              rfl
          | cons below views =>
              have shorter : (view :: views).length = caches := lengths
              exact ih shorter

theorem represents_length {base : CCoinsViewDB} {caches : List CCoinsMap}
    {views : List CoinsMap} (represents : Represents base caches views) :
    views.length = caches.length := by
  induction caches generalizing views with
  | nil =>
      cases views with
      | nil => rfl
      | cons view views => cases represents
  | cons cacheCoins below ih =>
      cases views with
      | nil => cases represents
      | cons view views => exact congrArg (· + 1) (ih represents.2.2)

/--
The flags of every cache say the truth about the views below: an entry that
is FRESH has no unpruned entry there, one that is not DIRTY is the same.
-/
def FlagsSound (stack : CoinsStack) : Prop :=
  ∀ layer cacheCoins below, stack.caches.drop layer = cacheCoins :: below →
    ∀ txid entry, cacheCoins.lookup txid = some entry →
      (entry.fresh = true → present (look stack.base below txid) = none) ∧
        (entry.dirty = false →
          present (some entry.coins) = present (look stack.base below txid))

theorem flagsSound_of_refines {stack : CoinsStack} {plain : PlainStack}
    (refines : Refines stack plain) : FlagsSound stack := by
  intro layer cacheCoins below shape txid entry cached
  have represents := represents_drop refines.caches layer
  rw [shape] at represents
  cases layers : plain.layers.drop layer with
  | nil =>
      rw [layers] at represents
      cases represents
  | cons view views =>
      rw [layers] at represents
      have sound := represents.2.1 txid entry cached
      exact ⟨sound.fresh, sound.clean⟩

/--
A stack of caches refines plain maps: with edits and flushes at the top, and
edits that treat pruned entries alike, every reply is that of the plain maps,
no assertion fails, the flags are sound, and flushing all the caches leaves
the top map in the database.
-/
theorem caches_refine_maps (base : CCoinsViewDB) (calls : List Call)
    (onTop : ∀ call ∈ calls, OnTop call) :
    ∃ stack replies, run ⟨[], base⟩ calls = some (stack, replies) ∧
      replies.map Reply.present = (plainRun ⟨[], base.view⟩ calls).2 ∧
      FlagsSound stack ∧
      ∃ flushed flushReplies,
        run stack (flushCalls stack.caches.length) =
          some (flushed, flushReplies) ∧
        flushed.caches = [] ∧
        flushed.base.view =
          (plainRun ⟨[], base.view⟩ calls).1.layer 0 := by
  have start : Refines ⟨[], base⟩ ⟨[], base.view⟩ := ⟨rfl, trivial⟩
  rcases run_refines start onTop with ⟨stack, replies, ran, replied, refines⟩
  refine ⟨stack, replies, ran, replied, flagsSound_of_refines refines, ?_⟩
  rcases run_refines refines (flushCalls_onTop stack.caches.length) with
    ⟨flushed, flushReplies, flushes, _, kept⟩
  rw [plainRun_flushCalls (represents_length refines.caches)] at kept
  refine ⟨flushed, flushReplies, flushes, ?_, kept.base⟩
  exact List.length_eq_zero_iff.mp (represents_length kept.caches).symm

/-! ## Calls that plain maps do not follow -/

/-- An entry of height 5 with one output. -/
def highCoins : CCoins := ⟨false, false, [⟨7, [0x52]⟩], 5, 1⟩

/-- A database with that entry for transaction 1. -/
def oneOutput : CCoinsViewDB where
  view := fun txid => if txid = 1 then some highCoins else none
  readable := by
    intro txid coins found
    split_ifs at found
    cases found
    exact ⟨rfl, rfl⟩

def noOutputs : CCoinsViewDB where
  view := fun _ => none
  readable := by
    intro txid coins impossible
    cases impossible

def spendAll (coins : CCoins) : CCoins := { coins with vout := [] }

/-- Adds an output and keeps whatever metadata the entry has. -/
def addOutput (coins : CCoins) : CCoins :=
  { coins with vout := [⟨8, [0x53]⟩] }

def overwrite (coins : CCoins) : CCoins → CCoins := fun _ => coins

theorem caches_refine_maps_replaced :
    ∃ stack replies,
      run ⟨[], oneOutput⟩ [.create, .modifyCoins 0 1 spendAll, .create,
        .modifyCoins 0 1 (overwrite highCoins), .flush 0, .haveCoins 1 1] =
          some (stack, replies) ∧
      replies.map Reply.present =
        [.done, .done, .done, .done, .done, .have true] := by
  have blindSpend : Blind spendAll := fun _ _ => rfl
  have blindOverwrite : Blind (overwrite highCoins) := fun _ _ => rfl
  rcases caches_refine_maps oneOutput
    [.create, .modifyCoins 0 1 spendAll, .create,
      .modifyCoins 0 1 (overwrite highCoins), .flush 0, .haveCoins 1 1]
    (by simp [OnTop, blindSpend, blindOverwrite]) with
    ⟨stack, replies, ran, replied, _⟩
  exact ⟨stack, replies, ran, replied⟩

/-- What a run replies to a last read of transaction 1. -/
def lastReply (base : CCoinsViewDB) (calls : List Call) : Option Reply :=
  (run ⟨[], base⟩ calls).bind fun result =>
    result.2.getLast?.map Reply.present

/--
Spending all of an entry of the database leaves its metadata in the cache,
where the next edit finds it: the reply differs from that of the plain maps,
and from that of a cache which got the same entry by an edit.  A cache sees an
edit below it only if it did not read the entry before.  And flushing a cache
under one that holds an entry of it trips the assertion at the next flush.
-/
theorem caches_do_not_follow_any_call :
    lastReply oneOutput [.create, .modifyCoins 0 1 spendAll,
        .modifyCoins 0 1 addOutput, .getCoins 0 1] ≠
      (plainRun ⟨[], oneOutput.view⟩ [.create, .modifyCoins 0 1 spendAll,
        .modifyCoins 0 1 addOutput, .getCoins 0 1]).2.getLast? ∧
    (lastReply oneOutput [.create, .getCoins 0 1] =
        lastReply noOutputs [.create, .modifyCoins 0 1 (overwrite highCoins),
          .getCoins 0 1] ∧
      lastReply oneOutput [.create, .modifyCoins 0 1 spendAll,
          .modifyCoins 0 1 addOutput, .getCoins 0 1] ≠
        lastReply noOutputs [.create, .modifyCoins 0 1 (overwrite highCoins),
          .modifyCoins 0 1 spendAll, .modifyCoins 0 1 addOutput,
          .getCoins 0 1]) ∧
    lastReply oneOutput [.create, .create, .getCoins 0 1,
        .modifyCoins 1 1 addOutput, .getCoins 0 1] ≠
      lastReply oneOutput [.create, .create, .modifyCoins 1 1 addOutput,
        .getCoins 0 1] ∧
    (run ⟨[], oneOutput⟩ [.create, .create, .getCoins 0 1, .flush 1,
      .modifyCoins 0 1 (overwrite highCoins), .flush 0]).isNone = true := by
  refine ⟨?_, ⟨?_, ?_⟩, ?_, ?_⟩
  · decide +kernel
  · decide +kernel
  · decide +kernel
  · decide +kernel
  · decide +kernel

end PrivateDatagram.Chainstate.CoinsCache
