import Std.Data.ExtTreeSet
import PrivateDatagram.Library.GuardedRun
import PrivateDatagram.Network.AddrManSteps

/-!
# The check of the address manager

The check that debug builds run after each call gathers the tried and the new
ids, and crosses them off while it goes through the slots.  It finds nothing
in any state that calls lead to, unless the key that was drawn is zero.
-/

namespace PrivateDatagram.Network.AddrManCheck

open Library.GuardedRun Library.Tables Wire.Serialize AddrMan AddrManInvariant
  AddrManSteps

/-! ## The check -/

structure Gathered where
  setTried : Std.ExtTreeSet Int
  mapNew : Std.ExtTreeMap Int Int

section Check

variable (around : Surroundings) (man : CAddrMan)

/-- The part of the check that depends on the kind of an entry. -/
def gather (n : Int) (info : CAddrInfo) (gathered : Gathered) :
    Except Int Gathered :=
  if info.fInTried then
    if info.nLastSuccess = 0 then
      throw (-1)
    else if info.nRefCount ≠ 0 then
      throw (-2)
    else
      pure { gathered with setTried := gathered.setTried.insert n }
  else if info.nRefCount < 0 ∨ info.nRefCount > newBucketsPerAddress then
    throw (-3)
  else if info.nRefCount = 0 then
    throw (-4)
  else
    pure { gathered with mapNew := gathered.mapNew.insert n info.nRefCount }

/-- An address that `mapAddr` misses would get the id 0. -/
def checkIndexes (n : Int) (info : CAddrInfo) : Except Int Unit :=
  if (man.mapAddr info.service.ip).getD 0 ≠ n then
    throw (-5)
  else if man.vRandom[info.nRandomPos]? ≠ some n then
    throw (-14)
  else if info.nLastTry < 0 then
    throw (-6)
  else if info.nLastSuccess < 0 then
    throw (-8)
  else
    pure ()

def checkEntries : List (Int × CAddrInfo) → Gathered → Except Int Gathered
  | [], gathered => pure gathered
  | (n, info) :: entries, gathered => do
      let gathered ← gather n info gathered
      checkIndexes man n info
      checkEntries entries gathered

def checkTried : List TriedSlot → Std.ExtTreeSet Int →
    Except Int (Std.ExtTreeSet Int)
  | [], setTried => pure setTried
  | slot :: slots, setTried =>
      let nId := man.vvTried slot
      let info := man.mapInfo.getD nId .fresh
      if nId = -1 then
        checkTried slots setTried
      else if nId ∉ setTried then
        throw (-11)
      else if getTriedBucket around man.nKey info.service ≠ slot.1 then
        throw (-17)
      else if getBucketPosition around man.nKey false slot.1.val
          info.service ≠ slot.2 then
        throw (-18)
      else
        checkTried slots (setTried.erase nId)

def checkNew : List NewSlot → Std.ExtTreeMap Int Int →
    Except Int (Std.ExtTreeMap Int Int)
  | [], mapNew => pure mapNew
  | slot :: slots, mapNew =>
      let nId := man.vvNew slot
      let info := man.mapInfo.getD nId .fresh
      if nId = -1 then
        checkNew slots mapNew
      else
        match mapNew[nId]? with
        | none => throw (-12)
        | some count =>
            if getBucketPosition around man.nKey true slot.1.val
                info.service ≠ slot.2 then
              throw (-19)
            else if count - 1 = 0 then
              checkNew slots (mapNew.erase nId)
            else
              checkNew slots (mapNew.insert nId (count - 1))

def checkAll : Except Int Unit := do
  if (man.vRandom.length : Int) ≠ man.nTried + man.nNew then
    throw (-7)
  let gathered ← checkEntries man man.mapInfo.toList ⟨∅, ∅⟩
  if (gathered.setTried.size : Int) ≠ man.nTried then
    throw (-9)
  if (gathered.mapNew.size : Int) ≠ man.nNew then
    throw (-10)
  let setTried ← checkTried around man triedSlots gathered.setTried
  let mapNew ← checkNew around man newSlots gathered.mapNew
  if setTried.size ≠ 0 then
    throw (-13)
  if mapNew.size ≠ 0 then
    throw (-15)
  if man.nKey = 0 then
    throw (-16)

/-- `Check_`: the code of the first condition that fails, or 0. -/
def check : Int :=
  match checkAll around man with
  | .ok _ => 0
  | .error code => code

end Check

variable {around : Surroundings} {man : CAddrMan} {nId : Int}
  {info : CAddrInfo}

/-! ## Entries -/

/-- The ids of these entries are gathered. -/
structure Gathers (entries : List (Int × CAddrInfo)) (gathered : Gathered) :
    Prop where
  tried : ∀ n, n ∈ gathered.setTried ↔
    ∃ info, (n, info) ∈ entries ∧ info.fInTried = true
  new : ∀ n (count : Int), gathered.mapNew[n]? = some count ↔
    ∃ info, (n, info) ∈ entries ∧ info.fInTried = false ∧
      info.nRefCount = count

theorem checkIndexes_ok (kept : Kept around None 0 man)
    (here : man.mapInfo[nId]? = some info) :
    checkIndexes man nId info = .ok () := by
  obtain ⟨lastTry, lastSuccess⟩ := (kept.filed.entries nId info here).times
  unfold checkIndexes
  rw [kept.indexed.found nId info here, Option.getD_some,
    if_neg (not_not.mpr rfl), kept.indexed.position nId info here,
    if_neg (not_not.mpr rfl), if_neg (not_lt.mpr lastTry),
    if_neg (not_lt.mpr lastSuccess)]
  rfl

theorem exists_cons {entries : List (Int × CAddrInfo)} {n : Int}
    {condition : CAddrInfo → Prop} :
    (∃ other, (n, other) ∈ (nId, info) :: entries ∧ condition other) ↔
      n = nId ∧ condition info ∨
        ∃ other, (n, other) ∈ entries ∧ condition other := by
  constructor
  · rintro ⟨other, member, holds⟩
    rcases List.mem_cons.mp member with same | member
    · cases same
      exact .inl ⟨rfl, holds⟩
    · exact .inr ⟨other, member, holds⟩
  · rintro (⟨rfl, holds⟩ | ⟨other, member, holds⟩)
    · exact ⟨info, List.mem_cons_self, holds⟩
    · exact ⟨other, List.mem_cons_of_mem _ member, holds⟩

/-- An entry whose id was not gathered. -/
theorem gather_ok (kept : Kept around None 0 man)
    (here : man.mapInfo[nId]? = some info)
    {entries : List (Int × CAddrInfo)} {gathered : Gathered}
    (gathers : Gathers entries gathered)
    (apart : ∀ entry ∈ entries, nId ≠ entry.1) :
    ∃ gathered', gather nId info gathered = .ok gathered' ∧
      Gathers ((nId, info) :: entries) gathered' := by
  have entry := kept.filed.entries nId info here
  unfold gather
  cases flag : info.fInTried with
  | true =>
      obtain ⟨unreferenced, succeeded, _⟩ := entry.tried flag
      rw [if_pos rfl, if_neg succeeded, if_neg (not_not.mpr unreferenced)]
      refine ⟨_, rfl, ?_, ?_⟩
      · intro n
        rw [Std.ExtTreeSet.mem_insert, gathers.tried, exists_cons, flag,
          Std.LawfulEqCmp.compare_eq_iff_eq, and_iff_left rfl, eq_comm]
      · intro n count
        rw [gathers.new, exists_cons, flag]
        exact (or_iff_right fun new => Bool.noConfusion new.2.1).symm
  | false =>
      obtain ⟨bound, free | positive⟩ := entry.new flag
      · exact free.elim
      rw [if_neg Bool.false_ne_true, if_neg, if_neg positive.ne']
      swap
      · rintro (below | above)
        · exact below.not_ge positive.le
        · exact above.not_ge bound
      refine ⟨_, rfl, ?_, ?_⟩
      · intro n
        rw [gathers.tried, exists_cons, flag]
        exact (or_iff_right fun tried => Bool.noConfusion tried.2).symm
      · intro n count
        dsimp only
        rw [Std.ExtTreeMap.getElem?_insert, exists_cons, flag,
          ← gathers.new]
        by_cases same : n = nId
        · have absent : ¬ ∃ other, (n, other) ∈ entries ∧
              other.fInTried = false ∧ other.nRefCount = count := by
            rintro ⟨other, member, _⟩
            exact apart _ member same.symm
          rw [gathers.new, or_iff_left absent, same,
            if_pos Std.ReflOrd.compare_self, Option.some_inj]
          simp
        · rw [if_neg fun equal =>
            same (Std.LawfulEqOrd.eq_of_compare equal).symm]
          exact (or_iff_right fun new => same new.1).symm

/-- The entries that were gathered are in front. -/
theorem checkEntries_ok (kept : Kept around None 0 man)
    {entries before : List (Int × CAddrInfo)} {gathered : Gathered}
    (gathers : Gathers before gathered)
    (valid : ∀ entry ∈ entries, man.mapInfo[entry.1]? = some entry.2)
    (distinct : (entries.map Prod.fst).Nodup)
    (apart : ∀ entry ∈ entries, ∀ other ∈ before, entry.1 ≠ other.1) :
    ∃ gathered', checkEntries man entries gathered = .ok gathered' ∧
      Gathers (entries.reverse ++ before) gathered' := by
  induction entries generalizing before gathered with
  | nil => exact ⟨gathered, rfl, gathers⟩
  | cons entry entries ih =>
      obtain ⟨nId, info⟩ := entry
      rw [List.forall_mem_cons] at valid apart
      rw [List.map_cons, List.nodup_cons] at distinct
      obtain ⟨next, gathers_first, gathers'⟩ :=
        gather_ok kept valid.1 gathers apart.1
      obtain ⟨last, gathers_rest, gathers''⟩ := ih gathers' valid.2
        distinct.2 (by
          intro entry member
          rw [List.forall_mem_cons]
          refine ⟨?_, apart.2 entry member⟩
          intro (same : entry.1 = nId)
          exact distinct.1 (List.mem_map.mpr ⟨entry, member, same⟩))
      refine ⟨last, ?_, ?_⟩
      · rw [checkEntries, gathers_first, checkIndexes_ok kept valid.1]
        exact gathers_rest
      · rw [List.reverse_cons, List.append_assoc]
        exact gathers''

/-! ## Slots -/

/-- The tried ids whose slots are still to come. -/
def TriedLeft (around : Surroundings) (man : CAddrMan)
    (slots : List TriedSlot) (setTried : Std.ExtTreeSet Int) : Prop :=
  ∀ n, n ∈ setTried ↔ ∃ info : CAddrInfo, man.mapInfo[n]? = some info ∧
    info.fInTried = true ∧ triedSlot around man.nKey info.service ∈ slots

/-- The new ids, and how many of their references are still to come. -/
def NewLeft (man : CAddrMan) (slots : List NewSlot)
    (mapNew : Std.ExtTreeMap Int Int) : Prop :=
  ∀ n (count : Int), mapNew[n]? = some count ↔
    n ≠ -1 ∧ 0 < count ∧ count = occurrences slots man.vvNew n

/-- The entry of a tried id. -/
theorem tried_slot (kept : Kept around None 0 man)
    (here : man.mapInfo[nId]? = some info) (tried : info.fInTried = true) :
    man.vvTried (triedSlot around man.nKey info.service) = nId :=
  ((kept.filed.entries nId info here).tried tried).2.2

/-- No tried id has a slot that is empty. -/
theorem TriedLeft.skip (kept : Kept around None 0 man) {slot : TriedSlot}
    {slots : List TriedSlot} {setTried : Std.ExtTreeSet Int}
    (left : TriedLeft around man (slot :: slots) setTried)
    (empty : man.vvTried slot = -1) :
    TriedLeft around man slots setTried := by
  refine fun n => (left n).trans ?_
  refine exists_congr fun info => and_congr_right fun here =>
    and_congr_right fun tried => ?_
  rw [List.mem_cons, or_iff_right]
  intro same
  have filled := tried_slot kept here tried
  rw [same, empty] at filled
  have known := kept.known here
  omega

/-- The id of a slot is done with. -/
theorem TriedLeft.erase (kept : Kept around None 0 man) {slot : TriedSlot}
    {slots : List TriedSlot} {setTried : Std.ExtTreeSet Int}
    (left : TriedLeft around man (slot :: slots) setTried)
    (notLater : slot ∉ slots) {info : CAddrInfo}
    (here : man.mapInfo[man.vvTried slot]? = some info)
    (filled : slot = triedSlot around man.nKey info.service) :
    TriedLeft around man slots (setTried.erase (man.vvTried slot)) := by
  intro n
  rw [Std.ExtTreeSet.mem_erase, left n]
  constructor
  · rintro ⟨apart, other, there, isTried, member⟩
    refine ⟨other, there, isTried, ?_⟩
    rcases List.mem_cons.mp member with same | member
    · have holds := tried_slot kept there isTried
      rw [same] at holds
      rw [holds] at apart
      exact absurd Std.ReflOrd.compare_self apart
    · exact member
  · rintro ⟨other, there, isTried, member⟩
    refine ⟨?_, other, there, isTried, List.mem_cons_of_mem _ member⟩
    intro equal
    have same : man.vvTried slot = n :=
      Std.LawfulEqOrd.eq_of_compare equal
    rw [← same, here] at there
    cases there
    rw [← filled] at member
    exact notLater member

theorem checkTried_ok (kept : Kept around None 0 man)
    {slots : List TriedSlot} (nodup : slots.Nodup)
    {setTried : Std.ExtTreeSet Int}
    (left : TriedLeft around man slots setTried) :
    ∃ setTried', checkTried around man slots setTried = .ok setTried' ∧
      TriedLeft around man [] setTried' := by
  induction slots generalizing setTried with
  | nil => exact ⟨setTried, rfl, left⟩
  | cons slot slots ih =>
      obtain ⟨notLater, nodup⟩ := List.nodup_cons.mp nodup
      unfold checkTried
      dsimp only
      by_cases empty : man.vvTried slot = -1
      · rw [if_pos empty]
        exact ih nodup (left.skip kept empty)
      · obtain ⟨info, here, tried, filled⟩ :=
          kept.filed.triedSlots slot empty
        have read : man.mapInfo.getD (man.vvTried slot) .fresh = info := by
          rw [Std.ExtTreeMap.getD_eq_getD_getElem?, here, Option.getD_some]
        have member : man.vvTried slot ∈ setTried := by
          rw [left]
          refine ⟨info, here, tried, ?_⟩
          rw [← filled]
          exact List.mem_cons_self
        have bucket : getTriedBucket around man.nKey info.service = slot.1 :=
          (congrArg Prod.fst filled).symm
        have position : getBucketPosition around man.nKey false slot.1.val
            info.service = slot.2 := by
          rw [← bucket]
          exact (congrArg Prod.snd filled).symm
        rw [if_neg empty, read, if_neg (not_not.mpr member),
          if_neg (not_not.mpr bucket), if_neg (not_not.mpr position)]
        exact ih nodup (left.erase kept notLater here filled)

theorem occurrences_cons (slot : NewSlot) (slots : List NewSlot)
    (table : NewSlot → Int) (n : Int) :
    occurrences (slot :: slots) table n =
      occurrences slots table n + if table slot = n then 1 else 0 := by
  unfold occurrences
  rw [List.countP_cons]
  simp

section NewLeft

variable {slot : NewSlot} {slots : List NewSlot}
  {mapNew mapNew' : Std.ExtTreeMap Int Int}
  (left : NewLeft man (slot :: slots) mapNew)
include left

/-- The count of any other id is still to come. -/
theorem NewLeft.others {n : Int} (count : Int)
    (apart : man.vvNew slot ≠ n ∨ n = -1) :
    mapNew[n]? = some count ↔
      n ≠ -1 ∧ 0 < count ∧ count = occurrences slots man.vvNew n := by
  rw [left n count, occurrences_cons]
  refine and_congr_right fun used => ?_
  rw [if_neg (apart.resolve_right used), Nat.add_zero]

theorem NewLeft.counted (used : man.vvNew slot ≠ -1) :
    mapNew[man.vvNew slot]? =
      some ((occurrences slots man.vvNew (man.vvNew slot) : Int) + 1) := by
  rw [left, occurrences_cons, if_pos rfl]
  refine ⟨used, ?_, ?_⟩
  · omega
  · rw [Nat.cast_add, Nat.cast_one]

/-- One reference of an id is done with. -/
theorem NewLeft.next (used : man.vvNew slot ≠ -1)
    (changed : ∀ count : Int, mapNew'[man.vvNew slot]? = some count ↔
      0 < count ∧ count = occurrences slots man.vvNew (man.vvNew slot))
    (elsewhere : ∀ n, man.vvNew slot ≠ n → mapNew'[n]? = mapNew[n]?) :
    NewLeft man slots mapNew' := by
  intro n count
  by_cases same : man.vvNew slot = n
  · rw [← same, changed]
    exact (and_iff_right used).symm
  · rw [elsewhere n same]
    exact left.others count (.inl same)

end NewLeft

theorem checkNew_ok (kept : Kept around None 0 man) (slots : List NewSlot)
    {mapNew : Std.ExtTreeMap Int Int} (left : NewLeft man slots mapNew) :
    ∃ mapNew', checkNew around man slots mapNew = .ok mapNew' ∧
      NewLeft man [] mapNew' := by
  induction slots generalizing mapNew with
  | nil => exact ⟨mapNew, rfl, left⟩
  | cons slot slots ih =>
      unfold checkNew
      dsimp only
      by_cases empty : man.vvNew slot = -1
      · rw [if_pos empty]
        refine ih fun n count => left.others count ?_
        rw [empty]
        exact (eq_or_ne n (-1)).symm.imp_left Ne.symm
      obtain ⟨info, here, filled⟩ := kept.filed.newSlots slot empty
      have read : man.mapInfo.getD (man.vvNew slot) .fresh = info := by
        rw [Std.ExtTreeMap.getD_eq_getD_getElem?, here, Option.getD_some]
      have position : getBucketPosition around man.nKey true slot.1.val
          info.service = slot.2 := (congrArg Prod.snd filled).symm
      rw [if_neg empty, left.counted empty, read]
      dsimp only
      rw [if_neg (not_not.mpr position)]
      split_ifs with last
      · refine ih (left.next empty ?_ ?_)
        · intro count
          rw [Std.ExtTreeMap.getElem?_erase,
            if_pos Std.ReflOrd.compare_self]
          refine iff_of_false nofun ?_
          rintro ⟨positive, equal⟩
          omega
        · intro n apart
          rw [Std.ExtTreeMap.getElem?_erase, if_neg fun equal =>
            apart (Std.LawfulEqOrd.eq_of_compare equal)]
      · refine ih (left.next empty ?_ ?_)
        · intro count
          rw [Std.ExtTreeMap.getElem?_insert,
            if_pos Std.ReflOrd.compare_self, Option.some_inj]
          omega
        · intro n apart
          rw [Std.ExtTreeMap.getElem?_insert, if_neg fun equal =>
            apart (Std.LawfulEqOrd.eq_of_compare equal)]

/-! ## The whole check -/

/-- A listed id of a kind, and its entry. -/
theorem mem_isTried (kept : Kept around None 0 man) (n : Int) :
    n ∈ man.vRandom ∧ isTried man n ↔ ∃ info : CAddrInfo,
      man.mapInfo[n]? = some info ∧ info.fInTried = true := by
  unfold isTried
  rw [kept.indexed.listed, decide_eq_true_eq, Option.map_eq_some_iff]
  refine and_iff_right_of_imp ?_
  rintro ⟨info, here, _⟩
  exact mem_mapInfo here

theorem mem_isNew (kept : Kept around None 0 man) (n : Int) :
    n ∈ man.vRandom ∧ isNew man n ↔ ∃ info : CAddrInfo,
      man.mapInfo[n]? = some info ∧ info.fInTried = false := by
  unfold isNew
  rw [kept.indexed.listed, decide_eq_true_eq, Option.map_eq_some_iff]
  refine and_iff_right_of_imp ?_
  rintro ⟨info, here, _⟩
  exact mem_mapInfo here

/-- Every listed id is counted once. -/
theorem length_vRandom (kept : Kept around None 0 man) :
    (man.vRandom.length : Int) = man.nTried + man.nNew := by
  have tried := kept.filed.nTried
  have new := kept.filed.nNew
  have kinds : man.vRandom.countP (isNew man) =
      man.vRandom.countP fun nId => ¬ isTried man nId := by
    apply List.countP_congr
    intro nId member
    obtain ⟨info, here⟩ := Option.isSome_iff_exists.mp
      (Std.ExtTreeMap.mem_iff_isSome_getElem?.mp
        ((kept.indexed.listed nId).mp member))
    simp [isNew, isTried, here]
  rw [kinds] at new
  have total := man.vRandom.length_eq_countP_add_countP (isTried man)
  omega

theorem checkEntries_toList (kept : Kept around None 0 man) :
    ∃ gathered, checkEntries man man.mapInfo.toList ⟨∅, ∅⟩ = .ok gathered ∧
      (∀ n : Int, n ∈ gathered.setTried ↔ ∃ info : CAddrInfo,
        man.mapInfo[n]? = some info ∧ info.fInTried = true) ∧
      ∀ n count : Int, gathered.mapNew[n]? = some count ↔
        ∃ info : CAddrInfo, man.mapInfo[n]? = some info ∧
          info.fInTried = false ∧ info.nRefCount = count := by
  have none : Gathers [] ⟨∅, ∅⟩ := by
    constructor
    · intro n
      simp
    · intro n count
      simp
  have distinct : (man.mapInfo.toList.map Prod.fst).Nodup := by
    rw [Std.ExtTreeMap.map_fst_toList_eq_keys]
    exact Std.ExtTreeMap.nodup_keys
  have valid : ∀ entry ∈ man.mapInfo.toList,
      man.mapInfo[entry.1]? = some entry.2 := fun _ =>
    Std.ExtTreeMap.mem_toList_iff_getElem?_eq_some.mp
  obtain ⟨gathered, checks, tried, new⟩ := checkEntries_ok kept none valid
    distinct fun _ _ _ member => absurd member List.not_mem_nil
  have member : ∀ n (info : CAddrInfo),
      (n, info) ∈ man.mapInfo.toList.reverse ++ [] ↔
        man.mapInfo[n]? = some info := by
    intro n info
    rw [List.append_nil, List.mem_reverse,
      Std.ExtTreeMap.mem_toList_iff_getElem?_eq_some]
  simp only [member] at tried new
  exact ⟨gathered, checks, tried, new⟩

theorem size_setTried (kept : Kept around None 0 man)
    {setTried : Std.ExtTreeSet Int}
    (tried : ∀ n, n ∈ setTried ↔ ∃ info : CAddrInfo,
      man.mapInfo[n]? = some info ∧ info.fInTried = true) :
    (setTried.size : Int) = man.nTried := by
  rw [kept.filed.nTried, ← Std.ExtTreeSet.length_toList]
  refine congrArg Nat.cast (length_eq_countP ?_ kept.indexed.nodup ?_)
  · refine Std.ExtTreeSet.distinct_toList.imp ?_
    rintro left _ apart rfl
    exact apart Std.ReflOrd.compare_self
  · intro n
    rw [Std.ExtTreeSet.mem_toList, tried, mem_isTried kept]

theorem size_mapNew (kept : Kept around None 0 man)
    {mapNew : Std.ExtTreeMap Int Int}
    (new : ∀ n, n ∈ mapNew ↔ ∃ info : CAddrInfo,
      man.mapInfo[n]? = some info ∧ info.fInTried = false) :
    (mapNew.size : Int) = man.nNew := by
  have counted := kept.filed.nNew
  rw [Int.add_zero] at counted
  rw [counted, ← Std.ExtTreeMap.length_keys]
  refine congrArg Nat.cast (length_eq_countP Std.ExtTreeMap.nodup_keys
    kept.indexed.nodup ?_)
  intro n
  rw [Std.ExtTreeMap.mem_keys, new, mem_isNew kept]

/-- Only the key is left to the draw. -/
theorem check_eq (kept : Kept around None 0 man) :
    check around man = if man.nKey = 0 then -16 else 0 := by
  obtain ⟨gathered, gathers, tried, new⟩ := checkEntries_toList kept
  have newIds : ∀ n, n ∈ gathered.mapNew ↔ ∃ info : CAddrInfo,
      man.mapInfo[n]? = some info ∧ info.fInTried = false := by
    intro n
    rw [Std.ExtTreeMap.mem_iff_isSome_getElem?, Option.isSome_iff_exists]
    constructor
    · rintro ⟨count, here⟩
      obtain ⟨info, here, isNew, _⟩ := (new n count).mp here
      exact ⟨info, here, isNew⟩
    · rintro ⟨info, here, isNew⟩
      exact ⟨info.nRefCount, (new n _).mpr ⟨info, here, isNew, rfl⟩⟩
  have triedLeft : TriedLeft around man triedSlots gathered.setTried := by
    intro n
    simp only [tried, mem_triedSlots, and_true]
  have newLeft : NewLeft man newSlots gathered.mapNew := by
    intro n count
    rw [new]
    constructor
    · rintro ⟨info, here, isNew, rfl⟩
      obtain ⟨counted, _, bounds, _⟩ := kept.filed.entries n info here
      have known := kept.known here
      exact ⟨by omega, (bounds isNew).2.resolve_left id, counted⟩
    · rintro ⟨used, positive, counted⟩
      have present : 0 < occurrences newSlots man.vvNew n := by omega
      obtain ⟨slot, _, holds⟩ := List.countP_pos_iff.mp present
      have holds := of_decide_eq_true holds
      obtain ⟨info, here, _⟩ := kept.filed.newSlots slot (holds ▸ used)
      rw [holds] at here
      have entry := kept.filed.entries n info here
      exact ⟨info, here, kept.filed.isNew here holds,
        entry.counted.trans counted.symm⟩
  obtain ⟨setTried, checksTried, triedDone⟩ :=
    checkTried_ok kept nodup_triedSlots triedLeft
  obtain ⟨mapNew, checksNew, newDone⟩ := checkNew_ok kept newSlots newLeft
  have noTried : setTried.size = 0 := by
    rw [← Std.ExtTreeSet.eq_empty_iff_size_eq_zero,
      Std.ExtTreeSet.eq_empty_iff_forall_not_mem]
    intro n member
    obtain ⟨info, _, _, later⟩ := (triedDone n).mp member
    cases later
  have noNew : mapNew.size = 0 := by
    rw [← Std.ExtTreeMap.eq_empty_iff_size_eq_zero,
      Std.ExtTreeMap.eq_empty_iff_forall_not_mem]
    intro n member
    rw [Std.ExtTreeMap.mem_iff_isSome_getElem?, Option.isSome_iff_exists]
      at member
    obtain ⟨count, here⟩ := member
    obtain ⟨_, positive, none⟩ := (newDone n count).mp here
    rw [none] at positive
    exact absurd positive (lt_irrefl 0)
  have all : checkAll around man =
      if man.nKey = 0 then .error (-16) else .ok () := by
    unfold checkAll
    rw [if_neg (not_not.mpr (length_vRandom kept)), gathers]
    dsimp only [bind, Except.bind, pure, Except.pure]
    rw [if_neg (not_not.mpr (size_setTried kept tried)),
      if_neg (not_not.mpr (size_mapNew kept newIds)), checksTried]
    dsimp only
    rw [checksNew]
    dsimp only
    rw [if_neg (not_not.mpr noTried), if_neg (not_not.mpr noNew)]
    rfl
  unfold check
  rw [all]
  split_ifs <;> rfl

/-! ## Calls -/

/-- With the adjusted time and what the random numbers are. -/
inductive Call where
  | add (addr : CAddress) (source : CNetAddr)
      (nTimePenalty adjustedTime : Int) (rand : Nat)
  | good (addr : CService) (nTime : Int) (positive : 0 < nTime) (nRnd : Nat)
  | attempt (addr : CService) (nTime : Int) (positive : 0 < nTime)
  | connected (addr : CService) (nTime : Int) (positive : 0 < nTime)
  | getAddr (adjustedTime : Int) (rand : Nat → Nat)

/-- Calls that count an `int` up: the ids, or the attempts of an entry. -/
def Call.counts : Call → Bool
  | .add .. => true
  | .attempt .. => true
  | _ => false

section Calls

variable (around : Surroundings)

/-- No manager is left when an assertion fails. -/
def perform (man : CAddrMan) : Call → Option CAddrMan
  | .add addr source nTimePenalty adjustedTime rand =>
      (add around addr source nTimePenalty adjustedTime rand man).map Prod.snd
  | .good addr nTime _ nRnd => good around addr nTime nRnd man
  | .attempt addr nTime _ => some (attempt addr nTime man)
  | .connected addr nTime _ => some (connected addr nTime man)
  | .getAddr adjustedTime rand => (getAddr adjustedTime rand man).map Prod.snd

/-- A call that fails changes nothing. -/
def step (man : CAddrMan) (call : Call) : CAddrMan :=
  (perform around man call).getD man

/-- The call passes all assertions, and the check after it finds nothing. -/
def Passes (man : CAddrMan) (call : Call) : Prop :=
  (perform around man call).isSome ∧ check around (step around man call) = 0

end Calls

theorem kept_emptyMan (nKey : UInt256) :
    Kept around None 0 (emptyMan nKey) := by
  refine ⟨⟨List.nodup_nil, ?_, ?_, le_rfl, ?_, ?_, ?_⟩, ?_, ?_, ?_, rfl, rfl⟩
  · intro nId
    exact iff_of_false List.not_mem_nil Std.ExtTreeMap.not_mem_empty
  · intro nId info here
    exact absurd (mem_mapInfo here) Std.ExtTreeMap.not_mem_empty
  · intro nId here
    exact absurd here Std.ExtTreeMap.not_mem_empty
  · intro nId info here
    exact absurd (mem_mapInfo here) Std.ExtTreeMap.not_mem_empty
  · intro addr nId here
    cases here
  · intro nId info here
    exact absurd (mem_mapInfo here) Std.ExtTreeMap.not_mem_empty
  · intro slot occupied
    exact absurd rfl occupied
  · intro slot occupied
    exact absurd rfl occupied

/-- There is an `int` to count on to. -/
def Fits (man : CAddrMan) (call : Call) : Prop :=
  call.counts = true → man.nIdCount < maxInt

theorem perform_spec (kept : Kept around None 0 man) (call : Call)
    (fits : Fits man call) :
    ∃ man', perform around man call = some man' ∧ Kept around None 0 man' ∧
      man'.nKey = man.nKey ∧
      man'.nIdCount ≤ man.nIdCount + if call.counts then 1 else 0 := by
  have steady : ∀ {man' : CAddrMan}, man'.constants = man.constants →
      man'.nKey = man.nKey ∧
        man'.nIdCount ≤ man.nIdCount + if call.counts then 1 else 0 := by
    intro man' constants
    have nIdCount : man'.nIdCount = man.nIdCount :=
      congrArg Prod.snd constants
    refine ⟨congrArg Prod.fst constants, ?_⟩
    split <;> omega
  cases call with
  | add addr source nTimePenalty adjustedTime rand =>
      obtain ⟨fNew, man', adds, kept', nKey, nIdCount⟩ :=
        add_spec kept addr source nTimePenalty adjustedTime rand (fits rfl)
      exact ⟨man', congrArg (Option.map Prod.snd) adds, kept', nKey, nIdCount⟩
  | good addr nTime positive nRnd =>
      obtain ⟨man', succeeds, kept', constants⟩ :=
        good_spec kept addr positive nRnd
      exact ⟨man', succeeds, kept', steady constants⟩
  | attempt addr nTime positive =>
      obtain ⟨kept', constants⟩ := attempt_spec kept addr positive
      exact ⟨_, rfl, kept', steady constants⟩
  | connected addr nTime positive =>
      obtain ⟨kept', constants⟩ := connected_spec kept addr nTime
      exact ⟨_, rfl, kept', steady constants⟩
  | getAddr adjustedTime rand =>
      obtain ⟨vAddr, man', selects, kept', constants⟩ :=
        getAddr_spec kept adjustedTime rand
      exact ⟨man', congrArg (Option.map Prod.snd) selects, kept',
        steady constants⟩

/-- What holds in all states that calls lead to. -/
def Sound (around : Surroundings) (nKey : UInt256) (man : CAddrMan) : Prop :=
  Kept around None 0 man ∧ man.nKey = nKey

theorem step_spec {nKey : UInt256} (sound : Sound around nKey man)
    (call : Call) (fits : Fits man call) :
    Sound around nKey (step around man call) ∧
      ((perform around man call).isSome ∧
        check around (step around man call) =
          if nKey = 0 then -16 else 0) ∧
      (step around man call).nIdCount ≤
        man.nIdCount + if call.counts then 1 else 0 := by
  obtain ⟨kept, key⟩ := sound
  obtain ⟨man', performs, kept', nKey', nIdCount⟩ :=
    perform_spec kept call fits
  have same : step around man call = man' := by
    unfold step
    rw [performs, Option.getD_some]
  have key' : man'.nKey = nKey := nKey'.trans key
  rw [same, performs, check_eq kept', key']
  exact ⟨⟨kept', key'⟩, ⟨rfl, rfl⟩, nIdCount⟩

/-- The ids do not run out before the calls do. -/
theorem fits_along {nKey : UInt256} (sound : Sound around nKey man)
    {calls : List Call}
    (few : man.nIdCount + calls.countP Call.counts ≤ maxInt) :
    Along (step around) Fits calls man := by
  induction calls generalizing man with
  | nil => trivial
  | cons call calls ih =>
      rw [List.countP_cons] at few
      have fits : Fits man call := by
        intro counts
        rw [if_pos counts] at few
        omega
      obtain ⟨sound', _, nIdCount⟩ := step_spec sound call fits
      refine ⟨fits, ih sound' ?_⟩
      split at few <;> simp_all <;> omega

/-- No assertion fails, and after each call the check finds nothing wrong but
the key, when that is zero, in every run that an `int` can count. -/
theorem address_manager_consistent (around : Surroundings) (nKey : UInt256)
    (calls : List Call) (few : calls.countP Call.counts < 2 ^ 31) :
    Always (step around) (Kept around None 0) calls (emptyMan nKey) ∧
      Along (step around)
        (fun man call => (perform around man call).isSome ∧
          check around (step around man call) =
            if nKey = 0 then -16 else 0) calls (emptyMan nKey) := by
  have start : Sound around nKey (emptyMan nKey) := ⟨kept_emptyMan nKey, rfl⟩
  have fits : Along (step around) Fits calls (emptyMan nKey) := by
    refine fits_along start ?_
    change (0 : Int) + _ ≤ 2 ^ 31 - 1
    omega
  constructor
  · refine Along.always ?_ ?_ start fits
    · intro man call (sound : Sound around nKey man) fits
      exact (step_spec sound call fits).1
    · intro man (sound : Sound around nKey man)
      exact sound.1
  · refine Along.imp ?_ start fits
    intro man call (sound : Sound around nKey man) fits
    have spec := step_spec sound call fits
    exact ⟨spec.1, spec.2.1⟩

/-- Two addresses, which come to be tried. -/
theorem address_manager_consistent_tried :
    let around : Surroundings := ⟨fun _ => 0, fun _ => [], fun _ => true⟩
    let addr (n : UInt8) : CAddress := ⟨⟨.replicate 16 n, 8333⟩, 1, 50⟩
    let calls : List Call := [.add (addr 1) (.replicate 16 9) 0 60 0,
      .add (addr 2) (.replicate 16 9) 0 60 0,
      .good (addr 1).service 70 (by decide) 0,
      .attempt (addr 2).service 80 (by decide),
      .good (addr 2).service 90 (by decide) 0, .getAddr 100 id]
    Always (step around) (Kept around None 0) calls (emptyMan 5) ∧
      Along (step around)
        (fun man call => (perform around man call).isSome ∧
          check around (step around man call) =
            if (5 : UInt256) = 0 then -16 else 0) calls (emptyMan 5) :=
  address_manager_consistent _ _ _ (by decide)

/-- The draw of the key may fail the check. -/
theorem zero_key_fails_check :
    ¬ ∀ (around : Surroundings) (nKey : UInt256) (calls : List Call),
      Along (step around) (Passes around) calls (emptyMan nKey) := by
  intro claimed
  let around : Surroundings := ⟨fun _ => 0, fun _ => [], fun _ => true⟩
  have passes : check around _ = 0 := (claimed around 0 [.getAddr 0 id]).1.2
  have start : Sound around 0 (emptyMan 0) := ⟨kept_emptyMan 0, rfl⟩
  have checked := (step_spec start (.getAddr 0 id) nofun).2.1.2
  rw [passes, if_pos rfl] at checked
  cases checked

end PrivateDatagram.Network.AddrManCheck
