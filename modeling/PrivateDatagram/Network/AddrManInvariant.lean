import PrivateDatagram.Network.AddrMan

/-!
# What the address manager keeps

The indexes (`vRandom`, `mapAddr`) name exactly the entries, and the tables
have each entry in the slots that its counters and its key say.  In the middle
of an operation some entries are loose: they are new and may have no
reference, and `nNew` may leave some of them out.
-/

namespace PrivateDatagram.Network.AddrManInvariant

open Library.Tables AddrMan

/-! ## Slots -/

def newSlots : List NewSlot :=
  List.finRange newBucketCount ×ˢ List.finRange bucketSize

def triedSlots : List TriedSlot :=
  List.finRange triedBucketCount ×ˢ List.finRange bucketSize

theorem mem_newSlots (slot : NewSlot) : slot ∈ newSlots :=
  List.mem_product.mpr ⟨List.mem_finRange _, List.mem_finRange _⟩

theorem mem_triedSlots (slot : TriedSlot) : slot ∈ triedSlots :=
  List.mem_product.mpr ⟨List.mem_finRange _, List.mem_finRange _⟩

theorem nodup_newSlots : newSlots.Nodup :=
  (List.nodup_finRange _).product (List.nodup_finRange _)

theorem nodup_triedSlots : triedSlots.Nodup :=
  (List.nodup_finRange _).product (List.nodup_finRange _)

/-- How many slots of the new buckets have the id. -/
def references (man : CAddrMan) (nId : Int) : Nat :=
  occurrences newSlots man.vvNew nId

/-! ## Indexes -/

/-- `vRandom` and `mapAddr` name the entries, and nothing else. -/
structure Indexed (man : CAddrMan) : Prop where
  nodup : man.vRandom.Nodup
  listed : ∀ nId, nId ∈ man.vRandom ↔ nId ∈ man.mapInfo
  position : ∀ nId (info : CAddrInfo), man.mapInfo[nId]? = some info →
    man.vRandom[info.nRandomPos]? = some nId
  counter : 0 ≤ man.nIdCount
  known : ∀ nId, nId ∈ man.mapInfo → 0 ≤ nId ∧ nId < man.nIdCount
  found : ∀ nId (info : CAddrInfo), man.mapInfo[nId]? = some info →
    man.mapAddr info.service.ip = some nId
  named : ∀ addr nId, man.mapAddr addr = some nId →
    ∃ info : CAddrInfo, man.mapInfo[nId]? = some info ∧
      info.service.ip = addr

theorem mem_mapInfo {man : CAddrMan} {nId : Int} {info : CAddrInfo}
    (here : man.mapInfo[nId]? = some info) : nId ∈ man.mapInfo :=
  Std.ExtTreeMap.mem_iff_isSome_getElem?.mpr (here ▸ rfl)

theorem getElem?_modify (man : CAddrMan) (nId other : Int)
    (change : CAddrInfo → CAddrInfo) :
    (man.modify nId change).mapInfo[other]? =
      if other = nId then
        man.mapInfo[nId]?.map change
      else
        man.mapInfo[other]? := by
  unfold CAddrMan.modify
  rw [Std.ExtTreeMap.getElem?_modify]
  by_cases same : other = nId
  · rw [same, if_pos Std.ReflOrd.compare_self, if_pos rfl]
  · rw [if_neg same, if_neg]
    intro equal
    exact same (Std.LawfulEqOrd.eq_of_compare equal).symm

/-- An entry after a change, and what it was before. -/
theorem of_modify {man : CAddrMan} {nId other : Int}
    {change : CAddrInfo → CAddrInfo} {info' : CAddrInfo}
    (here : (man.modify nId change).mapInfo[other]? = some info') :
    ∃ info, man.mapInfo[other]? = some info ∧
      info' = if other = nId then change info else info := by
  rw [getElem?_modify] at here
  split_ifs at here with same
  · obtain ⟨info, before, rfl⟩ := Option.map_eq_some_iff.mp here
    rw [same]
    exact ⟨info, before, (if_pos rfl).symm⟩
  · exact ⟨info', here, (if_neg same).symm⟩

theorem modify_self {man : CAddrMan} {nId : Int} {info : CAddrInfo}
    (here : man.mapInfo[nId]? = some info)
    (change : CAddrInfo → CAddrInfo) :
    (man.modify nId change).mapInfo[nId]? = some (change info) := by
  rw [getElem?_modify, if_pos rfl, here, Option.map_some]

/-- A change that leaves the address and the position alone. -/
theorem Indexed.modify {man : CAddrMan} (indexed : Indexed man) {nId : Int}
    {change : CAddrInfo → CAddrInfo}
    (service : ∀ info, (change info).service = info.service)
    (position : ∀ info, (change info).nRandomPos = info.nRandomPos) :
    Indexed (man.modify nId change) where
  nodup := indexed.nodup
  listed other := (indexed.listed other).trans
    Std.ExtTreeMap.mem_modify.symm
  position other info' here := by
    obtain ⟨info, before, rfl⟩ := of_modify here
    rw [← indexed.position other info before]
    split_ifs
    · rw [position]
      rfl
    · rfl
  counter := indexed.counter
  known other here :=
    indexed.known other (Std.ExtTreeMap.mem_modify.mp here)
  found other info' here := by
    obtain ⟨info, before, rfl⟩ := of_modify here
    rw [← indexed.found other info before]
    split_ifs
    · rw [service]
      rfl
    · rfl
  named addr other here := by
    obtain ⟨info, before, same⟩ := indexed.named addr other here
    rw [getElem?_modify]
    split_ifs with equal
    · rw [← equal, before, Option.map_some]
      exact ⟨_, rfl, (service info).symm ▸ same⟩
    · exact ⟨info, before, same⟩

/-- The indexes do not depend on the tables. -/
theorem Indexed.congr {man man' : CAddrMan} (indexed : Indexed man)
    (mapInfo : man'.mapInfo = man.mapInfo)
    (mapAddr : man'.mapAddr = man.mapAddr)
    (vRandom : man'.vRandom = man.vRandom)
    (nIdCount : man'.nIdCount = man.nIdCount) : Indexed man' := by
  cases man
  cases man'
  cases mapInfo
  cases mapAddr
  cases vRandom
  cases nIdCount
  exact ⟨indexed.nodup, indexed.listed, indexed.position, indexed.counter,
    indexed.known, indexed.found, indexed.named⟩

/-! ## Swaps -/

/-- Entries may have changed their positions, and nothing else. -/
structure SameTables (man man' : CAddrMan) : Prop where
  nKey : man'.nKey = man.nKey
  nIdCount : man'.nIdCount = man.nIdCount
  mapAddr : man'.mapAddr = man.mapAddr
  nTried : man'.nTried = man.nTried
  vvTried : man'.vvTried = man.vvTried
  nNew : man'.nNew = man.nNew
  vvNew : man'.vvNew = man.vvNew
  vRandom : man'.vRandom.Perm man.vRandom
  entries : ∀ nId : Int, man'.mapInfo[nId]?.map (·.moveTo 0) =
    man.mapInfo[nId]?.map (·.moveTo 0)

theorem SameTables.refl (man : CAddrMan) : SameTables man man :=
  ⟨rfl, rfl, rfl, rfl, rfl, rfl, rfl, .refl _, fun _ => rfl⟩

/-- Entries with the same data, maybe at other positions. -/
theorem of_map_moveTo {left right : Option CAddrInfo} {info : CAddrInfo}
    (same : left.map (·.moveTo 0) = right.map (·.moveTo 0))
    (here : left = some info) :
    ∃ nRndPos, right = some (info.moveTo nRndPos) := by
  rw [here] at same
  cases right with
  | none => cases same
  | some other =>
      refine ⟨other.nRandomPos, ?_⟩
      have data : info.moveTo 0 = other.moveTo 0 := Option.some.inj same
      have back := congrArg (CAddrInfo.moveTo other.nRandomPos) data
      exact congrArg some back.symm

theorem getElem?_lt {list : List Int} {place : Nat} {value : Int}
    (here : list[place]? = some value) : place < list.length :=
  (List.getElem?_eq_some_iff.mp here).1

section Swaps

variable {man : CAddrMan} {first second : Nat} {nId1 nId2 : Int}

/-- The list with two entries swapped. -/
theorem perm_swapped (at1 : man.vRandom[first]? = some nId1)
    (at2 : man.vRandom[second]? = some nId2) :
    ((man.vRandom.set first nId2).set second nId1).Perm man.vRandom := by
  obtain ⟨bound1, value1⟩ := List.getElem?_eq_some_iff.mp at1
  obtain ⟨bound2, value2⟩ := List.getElem?_eq_some_iff.mp at2
  rw [← value1, ← value2]
  exact List.set_set_perm bound1 bound2

theorem getElem?_swapped (at1 : man.vRandom[first]? = some nId1)
    (at2 : man.vRandom[second]? = some nId2) (place : Nat) :
    ((man.vRandom.set first nId2).set second nId1)[place]? =
      if place = second then
        some nId1
      else if place = first then
        some nId2
      else
        man.vRandom[place]? := by
  have bound1 := getElem?_lt at1
  have bound2 := getElem?_lt at2
  rw [List.getElem?_set, List.getElem?_set, List.length_set]
  by_cases here2 : place = second
  · rw [if_pos here2.symm, if_pos (here2 ▸ bound2), if_pos here2]
  · rw [if_neg fun equal => here2 equal.symm, if_neg here2]
    by_cases here1 : place = first
    · rw [if_pos here1.symm, if_pos (here1 ▸ bound1), if_pos here1]
    · rw [if_neg fun equal => here1 equal.symm, if_neg here1]

/-- The manager after a swap. -/
def swapped (first second : Nat) (nId1 nId2 : Int) (man : CAddrMan) :
    CAddrMan :=
  { (man.modify nId1 (·.moveTo second)).modify nId2 (·.moveTo first) with
    vRandom := (man.vRandom.set first nId2).set second nId1 }

theorem swapped_sameTables (at1 : man.vRandom[first]? = some nId1)
    (at2 : man.vRandom[second]? = some nId2) :
    SameTables man (swapped first second nId1 nId2 man) where
  nKey := rfl
  nIdCount := rfl
  mapAddr := rfl
  nTried := rfl
  vvTried := rfl
  nNew := rfl
  vvNew := rfl
  vRandom := perm_swapped at1 at2
  entries nId := by
    change ((man.modify nId1 _).modify nId2 _).mapInfo[nId]?.map _ = _
    rw [getElem?_modify, getElem?_modify, getElem?_modify]
    split_ifs with here2 both here1
    · rw [Option.map_map, Option.map_map, here2, both]
      rfl
    · rw [Option.map_map, here2]
      rfl
    · rw [Option.map_map, here1]
      rfl
    · rfl

theorem swapped_indexed (indexed : Indexed man) (apart : first ≠ second)
    (at1 : man.vRandom[first]? = some nId1)
    (at2 : man.vRandom[second]? = some nId2) :
    Indexed (swapped first second nId1 nId2 man) := by
  have same := swapped_sameTables at1 at2
  have keys : ∀ nId, nId ∈ (swapped first second nId1 nId2 man).mapInfo ↔
      nId ∈ man.mapInfo := fun nId =>
    Std.ExtTreeMap.mem_modify.trans Std.ExtTreeMap.mem_modify
  refine ⟨same.vRandom.nodup_iff.mpr indexed.nodup, ?_, ?_, indexed.counter,
    ?_, ?_, ?_⟩
  · intro nId
    rw [same.vRandom.mem_iff, keys]
    exact indexed.listed nId
  · intro nId info here
    change ((man.modify nId1 _).modify nId2 _).mapInfo[nId]? = _ at here
    obtain ⟨middle, hereMiddle, rfl⟩ := of_modify here
    obtain ⟨info, before, rfl⟩ := of_modify hereMiddle
    have position := indexed.position nId info before
    refine (getElem?_swapped at1 at2 _).trans ?_
    by_cases here2 : nId = nId2
    · rw [if_pos here2, here2]
      exact (if_neg apart).trans (if_pos rfl)
    · rw [if_neg here2]
      by_cases here1 : nId = nId1
      · rw [if_pos here1, here1]
        exact if_pos rfl
      · rw [if_neg here1, if_neg, if_neg, position]
        · intro same
          rw [same, at1] at position
          exact here1 (Option.some.inj position).symm
        · intro same
          rw [same, at2] at position
          exact here2 (Option.some.inj position).symm
  · intro nId here
    exact indexed.known nId ((keys nId).mp here)
  · intro nId info here
    obtain ⟨place, before⟩ := of_map_moveTo (same.entries nId) here
    exact indexed.found nId (info.moveTo place) before
  · intro addr nId here
    obtain ⟨info, before, address⟩ := indexed.named addr nId here
    obtain ⟨place, after⟩ := of_map_moveTo (same.entries nId).symm before
    exact ⟨_, after, address⟩

end Swaps

/-- The assertions of a swap hold. -/
theorem swapRandom_spec {man : CAddrMan} (indexed : Indexed man)
    {first second : Nat} (bound1 : first < man.vRandom.length)
    (bound2 : second < man.vRandom.length) :
    ∃ man', swapRandom first second man = some man' ∧ Indexed man' ∧
      SameTables man man' ∧ man'.vRandom[second]? = man.vRandom[first]? := by
  unfold swapRandom
  split_ifs with same
  · exact ⟨man, rfl, indexed, .refl man, by rw [same]⟩
  · have at1 := List.getElem?_eq_getElem bound1
    have at2 := List.getElem?_eq_getElem bound2
    have known1 := (indexed.listed _).mp (List.getElem_mem bound1)
    have known2 := (indexed.listed _).mp (List.getElem_mem bound2)
    rw [at1, at2]
    dsimp only
    rw [if_pos ⟨known1, known2⟩]
    refine ⟨_, rfl, swapped_indexed indexed same at1 at2,
      swapped_sameTables at1 at2, ?_⟩
    exact (getElem?_swapped at1 at2 _).trans (if_pos rfl)

/-! ## Tables -/

/-- The entry is in the tried buckets. -/
def isTried (man : CAddrMan) (nId : Int) : Bool :=
  man.mapInfo[nId]?.map (·.fInTried) = some true

/-- The entry is in the new buckets. -/
def isNew (man : CAddrMan) (nId : Int) : Bool :=
  man.mapInfo[nId]?.map (·.fInTried) = some false

section Filed

variable (around : Surroundings) (loose : Int → Prop)

structure EntryFiled (man : CAddrMan) (nId : Int) (info : CAddrInfo) :
    Prop where
  counted : info.nRefCount = references man nId
  times : 0 ≤ info.nLastTry ∧ 0 ≤ info.nLastSuccess
  new : info.fInTried = false →
    info.nRefCount ≤ newBucketsPerAddress ∧
      (loose nId ∨ 0 < info.nRefCount)
  tried : info.fInTried = true →
    info.nRefCount = 0 ∧ info.nLastSuccess ≠ 0 ∧
      man.vvTried (triedSlot around man.nKey info.service) = nId

/-- `nNew` leaves out as many new entries as `deficit` says. -/
structure Filed (deficit : Int) (man : CAddrMan) : Prop where
  entries : ∀ nId (info : CAddrInfo), man.mapInfo[nId]? = some info →
    EntryFiled around loose man nId info
  newSlots : ∀ slot, man.vvNew slot ≠ -1 →
    ∃ info : CAddrInfo, man.mapInfo[man.vvNew slot]? = some info ∧
      slot = newSlot around man.nKey info.service slot.1
  triedSlots : ∀ slot, man.vvTried slot ≠ -1 →
    ∃ info : CAddrInfo, man.mapInfo[man.vvTried slot]? = some info ∧
      info.fInTried = true ∧
      slot = triedSlot around man.nKey info.service
  nTried : man.nTried = man.vRandom.countP (isTried man)
  nNew : man.nNew + deficit = man.vRandom.countP (isNew man)

end Filed

variable {around : Surroundings} {loose loose' : Int → Prop} {deficit : Int}
  {man man' : CAddrMan}

theorem map_fInTried_congr {left right : Option CAddrInfo}
    (same : left.map (·.moveTo 0) = right.map (·.moveTo 0)) :
    left.map (·.fInTried) = right.map (·.fInTried) := by
  have flags := congrArg (Option.map CAddrInfo.fInTried) same
  rwa [Option.map_map, Option.map_map] at flags

theorem Filed.same (filed : Filed around loose deficit man)
    (same : SameTables man man') : Filed around loose deficit man' where
  entries nId info here := by
    obtain ⟨place, before⟩ := of_map_moveTo (same.entries nId) here
    obtain ⟨counted, times, new, tried⟩ := filed.entries nId _ before
    refine ⟨?_, times, new, ?_⟩
    · rw [references, same.vvNew]
      exact counted
    · rw [same.vvTried, same.nKey]
      exact tried
  newSlots slot occupied := by
    rw [same.vvNew] at occupied
    obtain ⟨info, before, here⟩ := filed.newSlots slot occupied
    obtain ⟨place, after⟩ := of_map_moveTo (same.entries _).symm before
    rw [same.vvNew, same.nKey]
    exact ⟨_, after, here⟩
  triedSlots slot occupied := by
    rw [same.vvTried] at occupied
    obtain ⟨info, before, here⟩ := filed.triedSlots slot occupied
    obtain ⟨place, after⟩ := of_map_moveTo (same.entries _).symm before
    rw [same.vvTried, same.nKey]
    exact ⟨_, after, here⟩
  nTried := by
    rw [same.nTried, filed.nTried, same.vRandom.countP_eq]
    congr 2
    funext nId
    rw [isTried, isTried, map_fInTried_congr (same.entries nId)]
  nNew := by
    rw [same.nNew, filed.nNew, same.vRandom.countP_eq]
    congr 2
    funext nId
    rw [isNew, isNew, map_fInTried_congr (same.entries nId)]

/-- Fewer entries are loose when the others have references. -/
theorem Filed.tighten (filed : Filed around loose' deficit man)
    (referred : ∀ nId (info : CAddrInfo), man.mapInfo[nId]? = some info →
      info.fInTried = false → loose' nId → loose nId ∨ 0 < info.nRefCount) :
    Filed around loose deficit man := by
  refine ⟨?_, filed.newSlots, filed.triedSlots, filed.nTried, filed.nNew⟩
  intro nId info here
  obtain ⟨counted, times, new, tried⟩ := filed.entries nId info here
  refine ⟨counted, times, ?_, tried⟩
  intro isNew
  obtain ⟨bound, positive⟩ := new isNew
  refine ⟨bound, ?_⟩
  rcases positive with free | positive
  · exact referred nId info here isNew free
  · exact .inr positive

theorem Filed.setNew (filed : Filed around loose deficit man) (nNew : Int) :
    Filed around loose (deficit + man.nNew - nNew) { man with nNew } := by
  refine ⟨?_, filed.newSlots, filed.triedSlots, filed.nTried, ?_⟩
  · intro nId info here
    obtain ⟨counted, times, new, tried⟩ := filed.entries nId info here
    exact ⟨counted, times, new, tried⟩
  · refine Eq.trans ?_ filed.nNew
    dsimp only
    omega

/-- An id in a slot has a reference. -/
theorem references_pos {slot : NewSlot} {nId : Int}
    (here : man.vvNew slot = nId) : 0 < references man nId := by
  rw [← here]
  exact occurrences_pos (mem_newSlots slot)

/-! ## Deletion -/

section Deletion

variable {nId : Int} {info : CAddrInfo}

theorem vRandom_concat (last : man.vRandom.getLast? = some nId) :
    man.vRandom = man.vRandom.dropLast ++ [nId] :=
  (List.dropLast_append_getLast? nId last).symm

theorem getElem?_dropLast_mapInfo (addr : CNetAddr) (other : Int) :
    (dropLast nId addr man).mapInfo[other]? =
      if other = nId then none else man.mapInfo[other]? := by
  unfold dropLast
  rw [Std.ExtTreeMap.getElem?_erase]
  by_cases same : other = nId
  · rw [same, if_pos Std.ReflOrd.compare_self, if_pos rfl]
  · rw [if_neg same, if_neg]
    intro equal
    exact same (Std.LawfulEqOrd.eq_of_compare equal).symm

theorem of_dropLast {addr : CNetAddr} {other : Int} {info : CAddrInfo}
    (here : (dropLast nId addr man).mapInfo[other]? = some info) :
    other ≠ nId ∧ man.mapInfo[other]? = some info := by
  rw [getElem?_dropLast_mapInfo] at here
  split_ifs at here with apart
  exact ⟨apart, here⟩

theorem notMem_dropLast (indexed : Indexed man)
    (last : man.vRandom.getLast? = some nId) :
    nId ∉ man.vRandom.dropLast := by
  have nodup := indexed.nodup
  rw [vRandom_concat last] at nodup
  have apart := List.disjoint_of_nodup_append nodup
  intro here
  exact apart here (List.mem_singleton.mpr rfl)

theorem dropLast_indexed (indexed : Indexed man)
    (last : man.vRandom.getLast? = some nId)
    (here : man.mapInfo[nId]? = some info) :
    Indexed (dropLast nId info.service.ip man) where
  nodup := indexed.nodup.sublist (List.dropLast_sublist _)
  listed other := by
    have absent := notMem_dropLast indexed last
    have before := indexed.listed other
    rw [vRandom_concat last, List.mem_append, List.mem_singleton] at before
    rw [Std.ExtTreeMap.mem_iff_isSome_getElem?, getElem?_dropLast_mapInfo]
    change other ∈ man.vRandom.dropLast ↔ _
    split_ifs with same
    · rw [same]
      exact iff_of_false absent Bool.false_ne_true
    · rw [← Std.ExtTreeMap.mem_iff_isSome_getElem?, ← before,
        or_iff_left same]
  position other stored there := by
    obtain ⟨apart, before⟩ := of_dropLast there
    have position := indexed.position other stored before
    rw [vRandom_concat last] at position
    change man.vRandom.dropLast[stored.nRandomPos]? = some other
    rw [List.getElem?_append] at position
    split_ifs at position
    · exact position
    · have last := List.mem_of_getElem? position
      exact absurd (List.mem_singleton.mp last) apart
  counter := indexed.counter
  known other there := by
    rw [Std.ExtTreeMap.mem_iff_isSome_getElem?, Option.isSome_iff_exists]
      at there
    obtain ⟨stored, there⟩ := there
    exact indexed.known other (mem_mapInfo (of_dropLast there).2)
  found other stored there := by
    obtain ⟨apart, before⟩ := of_dropLast there
    have named := indexed.found other stored before
    refine (Function.update_of_ne ?_ _ _).trans named
    intro same
    rw [same, indexed.found nId info here] at named
    exact apart (Option.some.inj named).symm
  named addr other there := by
    change Function.update man.mapAddr info.service.ip none addr = _ at there
    rw [Function.update_apply] at there
    split_ifs at there with same
    obtain ⟨stored, before, address⟩ := indexed.named addr other there
    refine ⟨stored, ?_, address⟩
    rw [getElem?_dropLast_mapInfo, if_neg, before]
    rintro rfl
    rw [here] at before
    cases before
    exact same address.symm

/-- A new entry without references is forgotten. -/
theorem dropLast_filed (indexed : Indexed man)
    (filed : Filed around loose' deficit man)
    (last : man.vRandom.getLast? = some nId)
    (here : man.mapInfo[nId]? = some info) (new : info.fInTried = false)
    (unreferenced : info.nRefCount = 0)
    (looser : ∀ other, other ≠ nId → loose' other → loose other) :
    Filed around loose deficit (dropLast nId info.service.ip man) := by
  have stays : ∀ {other : Int} {stored : CAddrInfo}, other ≠ nId →
      man.mapInfo[other]? = some stored →
      (dropLast nId info.service.ip man).mapInfo[other]? = some stored := by
    intro other stored apart there
    rw [getElem?_dropLast_mapInfo, if_neg apart, there]
  have absent := notMem_dropLast indexed last
  have flags : ∀ other ∈ man.vRandom.dropLast,
      (dropLast nId info.service.ip man).mapInfo[other]? =
        man.mapInfo[other]? := by
    intro other member
    rw [getElem?_dropLast_mapInfo, if_neg]
    rintro rfl
    exact absent member
  refine ⟨?_, ?_, ?_, ?_, ?_⟩
  · intro other stored there
    obtain ⟨apart, before⟩ := of_dropLast there
    obtain ⟨counted, times, bounds, tried⟩ :=
      filed.entries other stored before
    refine ⟨counted, times, fun isNew => ?_, tried⟩
    exact ⟨(bounds isNew).1, (bounds isNew).2.imp_left (looser other apart)⟩
  · intro slot occupied
    obtain ⟨stored, before, position⟩ := filed.newSlots slot occupied
    refine ⟨stored, stays ?_ before, position⟩
    intro (same : man.vvNew slot = nId)
    have positive := references_pos same
    have counted := (filed.entries nId info here).counted
    omega
  · intro slot occupied
    obtain ⟨stored, before, tried, position⟩ :=
      filed.triedSlots slot occupied
    refine ⟨stored, stays ?_ before, tried, position⟩
    intro (same : man.vvTried slot = nId)
    rw [same, here] at before
    cases before
    rw [new] at tried
    cases tried
  · have counted := filed.nTried
    rw [vRandom_concat last, List.countP_append] at counted
    have one : [nId].countP (isTried man) = 0 := by
      simp [isTried, here, new]
    rw [one, Nat.add_zero] at counted
    refine counted.trans (congrArg Nat.cast (List.countP_congr ?_))
    intro other member
    rw [isTried, isTried, flags other member]
  · have counted := filed.nNew
    rw [vRandom_concat last, List.countP_append] at counted
    have one : [nId].countP (isNew man) = 1 := by
      simp [isNew, here, new]
    have rest : man.vRandom.dropLast.countP
        (isNew (dropLast nId info.service.ip man)) =
          man.vRandom.dropLast.countP (isNew man) := by
      apply List.countP_congr
      intro other member
      rw [isNew, isNew, flags other member]
    change man.nNew - 1 + deficit = ((man.vRandom.dropLast.countP
      (isNew (dropLast nId info.service.ip man)) : Nat) : Int)
    rw [rest]
    omega

/-- Everything but the positions of the entries other than one, and `nNew`. -/
structure Aside (nId : Int) (man man' : CAddrMan) : Prop where
  nKey : man'.nKey = man.nKey
  nIdCount : man'.nIdCount = man.nIdCount
  vvTried : man'.vvTried = man.vvTried
  entries : ∀ other, other ≠ nId → man'.mapInfo[other]?.map (·.moveTo 0) =
    man.mapInfo[other]?.map (·.moveTo 0)

theorem Aside.refl (nId : Int) (man : CAddrMan) : Aside nId man man :=
  ⟨rfl, rfl, rfl, fun _ _ => rfl⟩

theorem Aside.trans {first second third : CAddrMan}
    (left : Aside nId first second) (right : Aside nId second third) :
    Aside nId first third where
  nKey := right.nKey.trans left.nKey
  nIdCount := right.nIdCount.trans left.nIdCount
  vvTried := right.vvTried.trans left.vvTried
  entries other apart :=
    (right.entries other apart).trans (left.entries other apart)

theorem Aside.constants (aside : Aside nId man man') :
    man'.constants = man.constants :=
  Prod.ext aside.nKey aside.nIdCount

/-- The data of another entry stay. -/
theorem Aside.entry (aside : Aside nId man man') {other : Int}
    (apart : other ≠ nId) (here : man.mapInfo[other]? = some info) :
    ∃ nRndPos, man'.mapInfo[other]? = some (info.moveTo nRndPos) :=
  of_map_moveTo (aside.entries other apart).symm here

/-- The assertions of a deletion hold. -/
theorem delete_spec (indexed : Indexed man)
    (filed : Filed around loose' deficit man)
    (here : man.mapInfo[nId]? = some info) (new : info.fInTried = false)
    (unreferenced : info.nRefCount = 0)
    (looser : ∀ other, other ≠ nId → loose' other → loose other) :
    ∃ man', delete nId man = some man' ∧ Indexed man' ∧
      Filed around loose deficit man' ∧ man'.vvNew = man.vvNew ∧
      Aside nId man man' := by
  have position := indexed.position nId info here
  have bound := getElem?_lt position
  have occupied : man.vRandom ≠ [] := List.ne_nil_of_length_pos (by omega)
  have bound_last : man.vRandom.length - 1 < man.vRandom.length := by omega
  obtain ⟨moved, swap, moved_indexed, same, last⟩ :=
    swapRandom_spec indexed bound bound_last
  have length := same.vRandom.length_eq
  rw [position, ← length, ← List.getLast?_eq_getElem?] at last
  obtain ⟨place, after⟩ := of_map_moveTo (same.entries nId).symm here
  have aside : Aside nId man
      (dropLast nId (info.moveTo place).service.ip moved) := by
    refine ⟨same.nKey, same.nIdCount, same.vvTried, ?_⟩
    intro other apart
    rw [getElem?_dropLast_mapInfo, if_neg apart, same.entries]
  refine ⟨dropLast nId (info.moveTo place).service.ip moved, ?_,
    dropLast_indexed moved_indexed last after,
    dropLast_filed moved_indexed (filed.same same) last after new
      unreferenced looser, same.vvNew, aside⟩
  rw [delete, here]
  dsimp only
  rw [if_neg, swap]
  · rfl
  rintro (tried | referred | empty)
  · rw [new] at tried
    cases tried
  · exact referred unreferenced
  · exact occupied empty

end Deletion

/-! ## Creation -/

section Creation

variable (addr : CAddress) (source : CNetAddr) {nId : Int}
  {info : CAddrInfo}

theorem getElem?_create_mapInfo (man : CAddrMan) (other : Int) :
    (create addr source man).mapInfo[other]? =
      if other = man.nIdCount then
        some (CAddrInfo.init addr source man.vRandom.length)
      else
        man.mapInfo[other]? := by
  unfold create
  dsimp only
  rw [Std.ExtTreeMap.getElem?_insert]
  by_cases same : other = man.nIdCount
  · rw [same, if_pos Std.ReflOrd.compare_self, if_pos rfl]
  · rw [if_neg same, if_neg]
    intro equal
    exact same (Std.LawfulEqOrd.eq_of_compare equal).symm

theorem create_self (man : CAddrMan) :
    (create addr source man).mapInfo[man.nIdCount]? =
      some (CAddrInfo.init addr source man.vRandom.length) := by
  rw [getElem?_create_mapInfo, if_pos rfl]

/-- The entries that were there stay. -/
theorem create_stays (indexed : Indexed man)
    (here : man.mapInfo[nId]? = some info) :
    nId ≠ man.nIdCount ∧
      (create addr source man).mapInfo[nId]? = some info := by
  have apart : nId ≠ man.nIdCount :=
    (indexed.known nId (mem_mapInfo here)).2.ne
  exact ⟨apart, by rw [getElem?_create_mapInfo, if_neg apart, here]⟩

/-- The new entry, or one that was there. -/
theorem of_create (here : (create addr source man).mapInfo[nId]? = some info) :
    nId = man.nIdCount ∧ info = .init addr source man.vRandom.length ∨
      nId ≠ man.nIdCount ∧ man.mapInfo[nId]? = some info := by
  rw [getElem?_create_mapInfo] at here
  split_ifs at here with same
  · cases here
    exact .inl ⟨same, rfl⟩
  · exact .inr ⟨same, here⟩

theorem nIdCount_notMem (indexed : Indexed man) :
    man.nIdCount ∉ man.vRandom := by
  intro here
  have known := (indexed.listed _).mp here
  exact (indexed.known _ known).2.false

theorem create_indexed (indexed : Indexed man)
    (unknown : man.mapAddr addr.service.ip = none) :
    Indexed (create addr source man) where
  nodup := by
    change (man.vRandom ++ [man.nIdCount]).Nodup
    rw [List.nodup_append_comm]
    exact List.nodup_cons.mpr ⟨nIdCount_notMem indexed, indexed.nodup⟩
  listed other := by
    change other ∈ man.vRandom ++ [man.nIdCount] ↔ _
    rw [List.mem_append, List.mem_singleton, indexed.listed,
      Std.ExtTreeMap.mem_iff_isSome_getElem?,
      Std.ExtTreeMap.mem_iff_isSome_getElem?, getElem?_create_mapInfo]
    split_ifs with same
    · exact iff_of_true (.inr same) rfl
    · exact or_iff_left same
  position other stored there := by
    change (man.vRandom ++ [man.nIdCount])[stored.nRandomPos]? = _
    rcases of_create addr source there with ⟨rfl, rfl⟩ | ⟨_, before⟩
    · exact List.getElem?_concat_length
    · have position := indexed.position other stored before
      rw [List.getElem?_append_left (getElem?_lt position), position]
  counter := by
    have counter := indexed.counter
    change 0 ≤ man.nIdCount + 1
    omega
  known other there := by
    rw [Std.ExtTreeMap.mem_iff_isSome_getElem?, Option.isSome_iff_exists]
      at there
    obtain ⟨stored, there⟩ := there
    change 0 ≤ other ∧ other < man.nIdCount + 1
    rcases of_create addr source there with ⟨rfl, _⟩ | ⟨_, before⟩
    · have counter := indexed.counter
      omega
    · have known := indexed.known other (mem_mapInfo before)
      omega
  found other stored there := by
    change Function.update man.mapAddr _ _ _ = _
    rcases of_create addr source there with ⟨rfl, rfl⟩ | ⟨_, before⟩
    · exact Function.update_self ..
    · have named := indexed.found other stored before
      refine (Function.update_of_ne ?_ _ _).trans named
      intro same
      rw [same, unknown] at named
      cases named
  named address other there := by
    change Function.update man.mapAddr _ _ _ = _ at there
    rw [Function.update_apply] at there
    split_ifs at there with same
    · cases there
      exact ⟨_, create_self addr source man, same.symm⟩
    · obtain ⟨stored, before, equal⟩ := indexed.named address other there
      exact ⟨stored, (create_stays addr source indexed before).2, equal⟩

/-- The new entry is loose, and `nNew` leaves it out. -/
theorem create_filed (indexed : Indexed man)
    (filed : Filed around loose deficit man) (free : loose' man.nIdCount)
    (looser : ∀ other, loose other → loose' other) :
    Filed around loose' (deficit + 1) (create addr source man) := by
  have absent := nIdCount_notMem indexed
  have flags : ∀ other ∈ man.vRandom,
      (create addr source man).mapInfo[other]? = man.mapInfo[other]? := by
    intro other member
    rw [getElem?_create_mapInfo, if_neg]
    rintro rfl
    exact absent member
  have self := create_self addr source man
  refine ⟨?_, ?_, ?_, ?_, ?_⟩
  · intro other stored there
    rcases of_create addr source there with ⟨rfl, rfl⟩ | ⟨_, before⟩
    · have none_bound : (0 : Int) ≤ newBucketsPerAddress := by decide
      refine ⟨?_, ⟨le_rfl, le_rfl⟩, fun _ => ⟨none_bound, .inl free⟩, ?_⟩
      · refine congrArg Nat.cast (occurrences_eq_zero ?_).symm
        intro slot (holds : man.vvNew slot = man.nIdCount)
        have counter := indexed.counter
        obtain ⟨stored, before, _⟩ := filed.newSlots slot (by omega)
        rw [holds] at before
        exact (create_stays addr source indexed before).1 rfl
      · intro tried
        cases tried
    · obtain ⟨counted, times, new, tried⟩ := filed.entries other stored before
      refine ⟨counted, times, fun isNew => ?_, tried⟩
      exact ⟨(new isNew).1, (new isNew).2.imp_left (looser other)⟩
  · intro slot occupied
    obtain ⟨stored, before, position⟩ := filed.newSlots slot occupied
    exact ⟨stored, (create_stays addr source indexed before).2, position⟩
  · intro slot occupied
    obtain ⟨stored, before, tried, position⟩ :=
      filed.triedSlots slot occupied
    exact ⟨stored, (create_stays addr source indexed before).2, tried,
      position⟩
  · change man.nTried = (((man.vRandom ++ [man.nIdCount]).countP _ : Nat) : Int)
    have one : [man.nIdCount].countP
        (isTried (create addr source man)) = 0 := by
      simp [isTried, self, CAddrInfo.init]
    rw [List.countP_append, one, Nat.add_zero, filed.nTried]
    refine congrArg Nat.cast (List.countP_congr ?_)
    intro other member
    rw [isTried, isTried, flags other member]
  · change man.nNew + (deficit + 1) =
      (((man.vRandom ++ [man.nIdCount]).countP _ : Nat) : Int)
    have one : [man.nIdCount].countP (isNew (create addr source man)) = 1 := by
      simp [isNew, self, CAddrInfo.init]
    have rest : man.vRandom.countP (isNew (create addr source man)) =
        man.vRandom.countP (isNew man) := by
      apply List.countP_congr
      intro other member
      rw [isNew, isNew, flags other member]
    have counted := filed.nNew
    rw [List.countP_append, one, rest]
    omega

end Creation

/-! ## Changes of one entry -/

section Changes

variable {nId : Int} {info : CAddrInfo} {change : CAddrInfo → CAddrInfo}

/-- How a count of the entries changes with one of them. -/
theorem countP_modified (indexed : Indexed man)
    (here : man.mapInfo[nId]? = some info)
    (mapInfo : man'.mapInfo = (man.modify nId change).mapInfo)
    (flag : Bool) :
    man.vRandom.countP (fun other =>
        man'.mapInfo[other]?.map (·.fInTried) = some flag) +
      (decide (info.fInTried = flag)).toNat =
    man.vRandom.countP (fun other =>
        man.mapInfo[other]?.map (·.fInTried) = some flag) +
      (decide ((change info).fInTried = flag)).toNat := by
  have counted := countP_differing indexed.nodup
    ((indexed.listed nId).mpr (mem_mapInfo here))
    (p := fun other => decide
      (man'.mapInfo[other]?.map (·.fInTried) = some flag))
    (q := fun other => decide
      (man.mapInfo[other]?.map (·.fInTried) = some flag)) (by
      intro other apart
      rw [mapInfo, getElem?_modify, if_neg apart])
  rw [mapInfo, modify_self here, here] at counted
  simpa [mapInfo] using counted

variable (man' change) in
/-- What is left to show when one entry is changed. -/
theorem Filed.revise (filed : Filed around loose' deficit man)
    (indexed : Indexed man) (here : man.mapInfo[nId]? = some info)
    (mapInfo : man'.mapInfo = (man.modify nId change).mapInfo)
    (nKey : man'.nKey = man.nKey) (vRandom : man'.vRandom = man.vRandom)
    (service : (change info).service = info.service)
    (entry : EntryFiled around loose man' nId (change info))
    (others : ∀ other stored, other ≠ nId → 0 ≤ other →
      EntryFiled around loose' man other stored →
      EntryFiled around loose man' other stored)
    (newSlots : ∀ slot, man'.vvNew slot ≠ -1 →
      man'.vvNew slot = man.vvNew slot ∨ (man'.vvNew slot = nId ∧
        slot = newSlot around man.nKey info.service slot.1))
    (triedSlots : ∀ slot, man'.vvTried slot ≠ -1 →
      man'.vvTried slot = man.vvTried slot ∧
          (man.vvTried slot = nId → (change info).fInTried = true) ∨
        man'.vvTried slot = nId ∧ (change info).fInTried = true ∧
          slot = triedSlot around man.nKey info.service)
    {deficit' : Int}
    (nTried : man'.nTried + (decide (info.fInTried = true)).toNat =
      man.nTried + (decide ((change info).fInTried = true)).toNat)
    (nNew : man'.nNew + deficit' + (decide (info.fInTried = false)).toNat =
      man.nNew + deficit + (decide ((change info).fInTried = false)).toNat) :
    Filed around loose deficit' man' := by
  have after : man'.mapInfo[nId]? = some (change info) := by
    rw [mapInfo, modify_self here]
  have elsewhere : ∀ other, other ≠ nId →
      man'.mapInfo[other]? = man.mapInfo[other]? := by
    intro other apart
    rw [mapInfo, getElem?_modify, if_neg apart]
  refine ⟨?_, ?_, ?_, ?_, ?_⟩
  · intro other stored there
    by_cases same : other = nId
    · rw [same, after] at there
      cases there
      rw [same]
      exact entry
    · rw [elsewhere other same] at there
      exact others other stored same (indexed.known other
        (mem_mapInfo there)).1 (filed.entries other stored there)
  · intro slot occupied
    rw [nKey]
    rcases newSlots slot occupied with old | ⟨new, position⟩
    · rw [old] at occupied ⊢
      obtain ⟨stored, before, position⟩ := filed.newSlots slot occupied
      by_cases same : man.vvNew slot = nId
      · rw [same, here] at before
        cases before
        rw [same]
        exact ⟨_, after, service ▸ position⟩
      · exact ⟨stored, (elsewhere _ same).trans before, position⟩
    · rw [new]
      exact ⟨_, after, service ▸ position⟩
  · intro slot occupied
    rw [nKey]
    rcases triedSlots slot occupied with
      ⟨old, stays⟩ | ⟨new, tried, position⟩
    · rw [old] at occupied ⊢
      obtain ⟨stored, before, tried, position⟩ :=
        filed.triedSlots slot occupied
      by_cases same : man.vvTried slot = nId
      · have flag := stays same
        rw [same, here] at before
        cases before
        rw [same]
        exact ⟨_, after, flag, service ▸ position⟩
      · exact ⟨stored, (elsewhere _ same).trans before, tried, position⟩
    · rw [new]
      exact ⟨_, after, tried, service ▸ position⟩
  · have counted := countP_modified indexed here mapInfo true
    have before := filed.nTried
    unfold isTried at before ⊢
    rw [vRandom]
    omega
  · have counted := countP_modified indexed here mapInfo false
    have before := filed.nNew
    unfold isNew at before ⊢
    rw [vRandom]
    omega

/-- An entry in a slot of the tried buckets is tried. -/
theorem Filed.isTried (filed : Filed around loose deficit man)
    (indexed : Indexed man) (here : man.mapInfo[nId]? = some info)
    {slot : TriedSlot} (holds : man.vvTried slot = nId) :
    info.fInTried = true ∧
      slot = triedSlot around man.nKey info.service := by
  have positive := (indexed.known nId (mem_mapInfo here)).1
  obtain ⟨stored, before, tried, position⟩ :=
    filed.triedSlots slot (by omega)
  rw [holds, here] at before
  cases before
  exact ⟨tried, position⟩

/-- An entry in a slot of the new buckets is new. -/
theorem Filed.isNew (filed : Filed around loose deficit man)
    (here : man.mapInfo[nId]? = some info) {slot : NewSlot}
    (holds : man.vvNew slot = nId) : info.fInTried = false := by
  have entry := filed.entries nId info here
  have positive := references_pos holds
  have counted := entry.counted
  cases flag : info.fInTried with
  | false => rfl
  | true =>
      have unreferenced := (entry.tried flag).1
      omega

/-- A change of the times and services of an entry. -/
theorem Filed.touch (filed : Filed around loose deficit man)
    (indexed : Indexed man) (here : man.mapInfo[nId]? = some info)
    (service : (change info).service = info.service)
    (nRefCount : (change info).nRefCount = info.nRefCount)
    (fInTried : (change info).fInTried = info.fInTried)
    (times : 0 ≤ (change info).nLastTry ∧ 0 ≤ (change info).nLastSuccess)
    (success : info.nLastSuccess ≠ 0 → (change info).nLastSuccess ≠ 0) :
    Filed around loose deficit (man.modify nId change) := by
  obtain ⟨counted, _, new, tried⟩ := filed.entries nId info here
  refine filed.revise _ change indexed here rfl rfl rfl service
    ?_ ?_ ?_ ?_ ?_ ?_
  · refine ⟨nRefCount ▸ counted, times, ?_, ?_⟩
    · rw [fInTried, nRefCount]
      exact new
    · rw [fInTried, nRefCount, service]
      intro flag
      obtain ⟨unreferenced, succeeded, holds⟩ := tried flag
      exact ⟨unreferenced, success succeeded, holds⟩
  · intro other stored _ _ entry
    exact ⟨entry.counted, entry.times, entry.new, entry.tried⟩
  · intro slot _
    exact .inl rfl
  · intro slot _
    refine .inl ⟨rfl, fun holds => ?_⟩
    rw [fInTried]
    exact (filed.isTried indexed here holds).1
  · rw [fInTried]
    rfl
  · rw [fInTried]
    rfl

/-- A slot gives up its reference to an entry, which is loose now. -/
theorem unlink_filed (filed : Filed around loose deficit man)
    (indexed : Indexed man) (here : man.mapInfo[nId]? = some info)
    {slot : NewSlot} (holds : man.vvNew slot = nId) (free : loose' nId)
    (looser : ∀ other, loose other → loose' other) :
    Filed around loose' deficit (unlink slot nId man) := by
  have positive := (indexed.known nId (mem_mapInfo here)).1
  have flag := filed.isNew here holds
  obtain ⟨counted, times, new, tried⟩ := filed.entries nId info here
  refine filed.revise (unlink slot nId man) (·.refer (-1)) indexed here
    rfl rfl rfl rfl ?_ ?_ ?_ ?_ rfl rfl
  · refine ⟨?_, times, ?_, ?_⟩
    · have taken := occurrences_take nodup_newSlots (mem_newSlots slot)
        man.vvNew (by omega : -1 ≠ man.vvNew slot)
      rw [holds] at taken
      change info.nRefCount + -1 = (occurrences newSlots
        (Function.update man.vvNew slot (-1)) nId : Int)
      rw [references] at counted
      omega
    · intro isNew
      have bound := (new isNew).1
      refine ⟨?_, .inl free⟩
      change info.nRefCount + -1 ≤ _
      omega
    · intro isTried
      rw [show info.fInTried = true from isTried] at flag
      cases flag
  · intro other stored apart known entry
    refine ⟨?_, entry.times, ?_, entry.tried⟩
    · refine entry.counted.trans (congrArg Nat.cast ?_)
      exact (occurrences_update_of_ne (by omega) (holds ▸ apart.symm)).symm
    · intro isNew
      exact ⟨(entry.new isNew).1, (entry.new isNew).2.imp_left (looser other)⟩
  · intro other occupied
    left
    change Function.update man.vvNew slot (-1) other = _
    refine Function.update_of_ne ?_ _ _
    rintro rfl
    exact occupied (Function.update_self ..)
  · intro other _
    exact .inl ⟨rfl, fun there => (filed.isTried indexed here there).1⟩

variable (man' change) in
/-- A free slot gets a reference to an entry. -/
theorem linked_filed (filed : Filed around loose' deficit man)
    (indexed : Indexed man) (here : man.mapInfo[nId]? = some info)
    {slot : NewSlot} (free : man.vvNew slot = -1)
    (position : slot = newSlot around man.nKey info.service slot.1)
    (new : info.fInTried = false)
    (bound : info.nRefCount < newBucketsPerAddress)
    (looser : ∀ other, other ≠ nId → loose' other → loose other)
    (mapInfo : man'.mapInfo = (man.modify nId change).mapInfo)
    (changed : change info = info.refer 1)
    (nKey : man'.nKey = man.nKey) (vRandom : man'.vRandom = man.vRandom)
    (vvNew : man'.vvNew = Function.update man.vvNew slot nId)
    (vvTried : man'.vvTried = man.vvTried)
    (nTried : man'.nTried = man.nTried) {deficit' : Int}
    (nNew : man'.nNew + deficit' = man.nNew + deficit) :
    Filed around loose deficit' man' := by
  have positive := (indexed.known nId (mem_mapInfo here)).1
  obtain ⟨counted, times, _, _⟩ := filed.entries nId info here
  refine filed.revise man' change indexed here mapInfo nKey vRandom
    ?_ ?_ ?_ ?_ ?_ ?_ ?_
  · rw [changed]
    rfl
  · rw [changed]
    refine ⟨?_, times, ?_, ?_⟩
    · have put := occurrences_put nodup_newSlots (mem_newSlots slot)
        man.vvNew (by omega : man.vvNew slot ≠ nId)
      rw [references, vvNew, put]
      change info.nRefCount + 1 = _
      rw [references] at counted
      omega
    · intro _
      change info.nRefCount + 1 ≤ _ ∧ (_ ∨ 0 < info.nRefCount + 1)
      refine ⟨bound, .inr ?_⟩
      omega
    · intro tried
      rw [show info.fInTried = true from tried] at new
      cases new
  · intro other stored apart known entry
    refine ⟨?_, entry.times, ?_, ?_⟩
    · refine entry.counted.trans (congrArg Nat.cast ?_)
      rw [references, references, vvNew]
      exact (occurrences_update_of_ne apart.symm (by omega)).symm
    · intro isNew
      exact ⟨(entry.new isNew).1,
        (entry.new isNew).2.imp_left (looser other apart)⟩
    · rw [vvTried, nKey]
      exact entry.tried
  · intro other occupied
    rw [vvNew, Function.update_apply] at occupied ⊢
    split_ifs with same
    · right
      rw [same]
      exact ⟨rfl, position⟩
    · exact .inl rfl
  · intro other _
    rw [vvTried, changed]
    exact .inl ⟨rfl, fun there => (filed.isTried indexed here there).1⟩
  · rw [nTried, changed]
    rfl
  · rw [nNew, changed]
    rfl

/-- A tried entry leaves its slot. -/
theorem untry_filed (filed : Filed around loose deficit man)
    (indexed : Indexed man) (here : man.mapInfo[nId]? = some info)
    {slot : TriedSlot} (holds : man.vvTried slot = nId)
    (free : loose' nId) (looser : ∀ other, loose other → loose' other) :
    Filed around loose' (deficit + 1) (untry slot nId man) := by
  obtain ⟨flag, position⟩ := filed.isTried indexed here holds
  obtain ⟨counted, times, _, tried⟩ := filed.entries nId info here
  have unreferenced := (tried flag).1
  refine filed.revise (untry slot nId man)
    (fun info => { info with fInTried := false }) indexed here
    rfl rfl rfl rfl ?_ ?_ ?_ ?_ ?_ ?_
  · refine ⟨counted, times, ?_, ?_⟩
    · intro _
      change info.nRefCount ≤ _ ∧ _
      rw [unreferenced]
      exact ⟨by decide, .inl free⟩
    · intro isTried
      cases isTried
  · intro other stored apart _ entry
    refine ⟨entry.counted, entry.times, ?_, ?_⟩
    · intro isNew
      exact ⟨(entry.new isNew).1, (entry.new isNew).2.imp_left (looser other)⟩
    · intro isTried
      obtain ⟨none, succeeded, there⟩ := entry.tried isTried
      refine ⟨none, succeeded, (Function.update_of_ne ?_ _ _).trans there⟩
      intro (same : triedSlot around man.nKey stored.service = slot)
      rw [same, holds] at there
      exact apart there.symm
  · intro other _
    exact .inl rfl
  · intro other occupied
    have apart : other ≠ slot := by
      rintro rfl
      exact occupied (Function.update_self ..)
    refine .inl ⟨Function.update_of_ne apart _ _, fun there => ?_⟩
    have same := (filed.isTried indexed here there).2
    exact absurd (same.trans position.symm) apart
  · rw [flag]
    change man.nTried - 1 + 1 = man.nTried + 0
    omega
  · rw [flag]
    change man.nNew + (deficit + 1) + 0 = man.nNew + deficit + 1
    omega

/-- An entry without references gets a free slot of the tried buckets. -/
theorem enterTried_filed (filed : Filed around loose' deficit man)
    (indexed : Indexed man) (here : man.mapInfo[nId]? = some info)
    {slot : TriedSlot} (free : man.vvTried slot = -1)
    (position : slot = triedSlot around man.nKey info.service)
    (new : info.fInTried = false) (unreferenced : info.nRefCount = 0)
    (succeeded : info.nLastSuccess ≠ 0)
    (looser : ∀ other, other ≠ nId → loose' other → loose other) :
    Filed around loose (deficit - 1) (enterTried slot nId man) := by
  obtain ⟨counted, times, _, _⟩ := filed.entries nId info here
  refine filed.revise (enterTried slot nId man)
    (fun info => { info with fInTried := true }) indexed here
    rfl rfl rfl rfl ?_ ?_ ?_ ?_ ?_ ?_
  · refine ⟨counted, times, ?_, ?_⟩
    · intro isNew
      cases isNew
    · intro _
      refine ⟨unreferenced, succeeded, ?_⟩
      change Function.update man.vvTried slot nId
        (triedSlot around man.nKey info.service) = nId
      rw [position, Function.update_self]
  · intro other stored apart known entry
    refine ⟨entry.counted, entry.times, ?_, ?_⟩
    · intro isNew
      exact ⟨(entry.new isNew).1,
        (entry.new isNew).2.imp_left (looser other apart)⟩
    · intro isTried
      obtain ⟨none, success, there⟩ := entry.tried isTried
      refine ⟨none, success, (Function.update_of_ne ?_ _ _).trans there⟩
      intro (same : triedSlot around man.nKey stored.service = slot)
      rw [same, free] at there
      omega
  · intro other _
    exact .inl rfl
  · intro other occupied
    change Function.update man.vvTried slot nId other = _ ∧ _ ∨ _
    by_cases same : other = slot
    · right
      rw [same]
      exact ⟨Function.update_self .., rfl, position⟩
    · exact .inl ⟨Function.update_of_ne same _ _, fun _ => rfl⟩
  · rw [new]
    change man.nTried + 1 + 0 = man.nTried + 1
    omega
  · rw [new]
    change man.nNew + (deficit - 1) + 1 = man.nNew + deficit + 0
    omega

end Changes

end PrivateDatagram.Network.AddrManInvariant
