import PrivateDatagram.Network.AddrManInvariant

/-!
# The operations of the address manager

Each operation keeps the indexes and the tables, and none of its assertions
fails.  Promoting an address may evict a tried one, which may push a new one
out of its slot and delete it.
-/

namespace PrivateDatagram.Network.AddrManSteps

open Library.Tables AddrMan AddrManInvariant

/-- No entry is loose. -/
def None : Int → Prop := fun _ => False

/-- Only this entry is loose. -/
def Only (nId : Int) : Int → Prop := fun other => other = nId

structure Kept (around : Surroundings) (loose : Int → Prop) (deficit : Int)
    (man : CAddrMan) : Prop where
  indexed : Indexed man
  filed : Filed around loose deficit man

variable {around : Surroundings} {loose : Int → Prop} {deficit : Int}
  {man man' : CAddrMan} {nId : Int} {info : CAddrInfo}

theorem Kept.references_eq (kept : Kept around loose deficit man)
    (here : man.mapInfo[nId]? = some info) :
    info.nRefCount = references man nId :=
  (kept.filed.entries nId info here).counted

theorem Kept.known (kept : Kept around loose deficit man)
    (here : man.mapInfo[nId]? = some info) : 0 ≤ nId :=
  (kept.indexed.known nId (mem_mapInfo here)).1

/-- An entry without references is in no slot of the new buckets. -/
theorem Kept.absent (kept : Kept around loose deficit man)
    (here : man.mapInfo[nId]? = some info)
    (unreferenced : info.nRefCount = 0) (slot : NewSlot) :
    man.vvNew slot ≠ nId := by
  intro holds
  have positive := references_pos holds
  have counted := kept.references_eq here
  omega

theorem unlink_aside (slot : NewSlot) (nId : Int) (man : CAddrMan) :
    Aside nId man (unlink slot nId man) := by
  refine ⟨rfl, rfl, rfl, ?_⟩
  intro other apart
  change (man.modify nId (·.refer (-1))).mapInfo[other]?.map _ = _
  rw [getElem?_modify, if_neg apart]

theorem unlink_indexed (indexed : Indexed man) (slot : NewSlot) (nId : Int) :
    Indexed (unlink slot nId man) := by
  have changed : Indexed (man.modify nId (·.refer (-1))) :=
    indexed.modify (fun _ => rfl) (fun _ => rfl)
  exact changed.congr rfl rfl rfl rfl

theorem unlink_self (slot : NewSlot)
    (here : man.mapInfo[nId]? = some info) :
    (unlink slot nId man).mapInfo[nId]? = some (info.refer (-1)) :=
  modify_self here (·.refer (-1))

/-! ## Clearing a slot -/

/-- The assertion holds, and the slot is free afterwards. -/
theorem clearNew_spec (kept : Kept around loose deficit man)
    (slot : NewSlot) :
    ∃ man', clearNew slot man = some man' ∧ Kept around loose deficit man' ∧
      man'.vvNew = Function.update man.vvNew slot (-1) ∧
      Aside (man.vvNew slot) man man' := by
  unfold clearNew
  dsimp only
  split_ifs with free
  · exact ⟨man, rfl, kept, (Function.update_eq_self_iff.mpr free.symm).symm,
      .refl _ man⟩
  · obtain ⟨info, here, _⟩ := kept.filed.newSlots slot free
    have new := kept.filed.isNew here rfl
    have counted := kept.references_eq here
    have positive : 0 < references man (man.vvNew slot) := references_pos rfl
    have after := unlink_self slot here
    have loosened : Filed around
        (fun other => loose other ∨ other = man.vvNew slot) deficit
        (unlink slot (man.vvNew slot) man) :=
      unlink_filed kept.filed kept.indexed here rfl (.inr rfl) (fun _ => .inl)
    have aside := unlink_aside slot (man.vvNew slot) man
    have indexed := unlink_indexed kept.indexed slot (man.vvNew slot)
    rw [here]
    dsimp only
    rw [if_neg (by omega)]
    split_ifs with last
    · obtain ⟨man', deleted, indexed', filed', vvNew, deleted_aside⟩ :=
        delete_spec indexed loosened after new last
          (fun other apart free => free.resolve_right apart)
      exact ⟨man', deleted, ⟨indexed', filed'⟩, vvNew,
        aside.trans deleted_aside⟩
    · refine ⟨_, rfl, ⟨indexed, loosened.tighten ?_⟩, rfl, aside⟩
      rintro other stored there _ (free | rfl)
      · exact .inl free
      · rw [after] at there
        cases there
        right
        change 0 < info.nRefCount + -1
        omega

/-! ## Promotion -/

/-- Afterwards no slot of these buckets has the id. -/
theorem leaveBuckets_spec (kept : Kept around loose deficit man)
    (here : man.mapInfo[nId]? = some info) (free : loose nId)
    (buckets : List (Fin newBucketCount)) :
    ∃ man' nRefCount,
      leaveBuckets around nId info.service buckets man = man' ∧
      Kept around loose deficit man' ∧
      man'.mapInfo[nId]? = some { info with nRefCount } ∧
      Aside nId man man' ∧
      ∀ slot, man'.vvNew slot = nId →
        man.vvNew slot = nId ∧ slot.1 ∉ buckets := by
  induction buckets generalizing man info with
  | nil =>
      refine ⟨man, info.nRefCount, rfl, kept, here, .refl nId man, ?_⟩
      intro slot holds
      exact ⟨holds, List.not_mem_nil⟩
  | cons bucket buckets ih =>
      unfold leaveBuckets
      dsimp only
      split_ifs with holds
      · set slot := newSlot around man.nKey info.service bucket with slot_eq
        have unlinked : Kept around loose deficit (unlink slot nId man) :=
          ⟨unlink_indexed kept.indexed slot nId, unlink_filed kept.filed
            kept.indexed here holds free fun _ => id⟩
        obtain ⟨man', nRefCount, left, kept', here', aside, gone⟩ :=
          ih unlinked (unlink_self slot here)
        refine ⟨man', nRefCount, left, kept', here',
          (unlink_aside slot nId man).trans aside, ?_⟩
        intro other there
        obtain ⟨before, later⟩ := gone other there
        have positive := kept.known here
        have apart : other ≠ slot := by
          rintro rfl
          rw [show (unlink slot nId man).vvNew slot = -1 from
            Function.update_self ..] at before
          omega
        have same : man.vvNew other = nId :=
          (Function.update_of_ne apart _ _).symm.trans before
        refine ⟨same, ?_⟩
        rw [List.mem_cons, not_or]
        refine ⟨fun equal => apart ?_, later⟩
        obtain ⟨stored, there, position⟩ :=
          kept.filed.newSlots other (by omega)
        rw [same, here] at there
        cases there
        rw [position, equal, slot_eq]
      · obtain ⟨man', nRefCount, left, kept', here', aside, gone⟩ :=
          ih kept here
        refine ⟨man', nRefCount, left, kept', here', aside, ?_⟩
        intro other there
        obtain ⟨before, later⟩ := gone other there
        have positive := kept.known here
        refine ⟨before, ?_⟩
        rw [List.mem_cons, not_or]
        refine ⟨fun equal => holds ?_, later⟩
        obtain ⟨stored, there, position⟩ :=
          kept.filed.newSlots other (by omega)
        rw [before, here] at there
        cases there
        rw [← equal, ← position, before]

/-- The assertions of an eviction hold.  The entry that comes next is loose,
and it stays. -/
theorem evictTried_spec (kept : Kept around (Only nId) deficit man)
    (here : man.mapInfo[nId]? = some info) (new : info.fInTried = false)
    (unreferenced : info.nRefCount = 0) (slot : TriedSlot) :
    ∃ man' nRndPos, evictTried around slot man = some man' ∧
      Kept around (Only nId) deficit man' ∧ man'.vvTried slot = -1 ∧
      man'.constants = man.constants ∧
      man'.mapInfo[nId]? = some (info.moveTo nRndPos) := by
  unfold evictTried
  dsimp only
  split_ifs with free
  · exact ⟨man, info.nRandomPos, rfl, kept, free, rfl, here⟩
  · obtain ⟨infoOld, old, tried, _⟩ := kept.filed.triedSlots slot free
    set nIdEvict := man.vvTried slot with evict_eq
    have apart : nId ≠ nIdEvict := by
      intro same
      rw [← same, here] at old
      cases old
      rw [new] at tried
      cases tried
    have oldUnreferenced : infoOld.nRefCount = 0 :=
      ((kept.filed.entries nIdEvict infoOld old).tried tried).1
    -- Now both entries are without a slot.
    have untried : Kept around (fun other => Only nId other ∨ other = nIdEvict)
        (deficit + 1) (untry slot nIdEvict man) := by
      refine ⟨?_, untry_filed kept.filed kept.indexed old evict_eq.symm
        (.inr rfl) fun _ => .inl⟩
      have changed : Indexed (man.modify nIdEvict fun info =>
          { info with fInTried := false }) :=
        kept.indexed.modify (fun _ => rfl) (fun _ => rfl)
      exact changed.congr rfl rfl rfl rfl
    have oldUntried : (untry slot nIdEvict man).mapInfo[nIdEvict]? =
        some { infoOld with fInTried := false } := modify_self old _
    have hereUntried : (untry slot nIdEvict man).mapInfo[nId]? =
        some info := by
      change (man.modify nIdEvict _).mapInfo[nId]? = _
      rw [getElem?_modify, if_neg apart, here]
    rw [old]
    dsimp only
    set nUSlot := newSlot around man.nKey infoOld.service
      (getNewBucket around man.nKey infoOld.service infoOld.source)
      with nUSlot_eq
    obtain ⟨cleared, clears, keptCleared, vvNew, aside⟩ :=
      clearNew_spec untried nUSlot
    have empty : cleared.vvNew nUSlot = -1 := by
      rw [vvNew, Function.update_self]
    obtain ⟨oldPos, oldCleared⟩ := aside.entry
      (untried.absent oldUntried oldUnreferenced nUSlot).symm oldUntried
    obtain ⟨nRndPos, hereCleared⟩ := aside.entry
      (untried.absent hereUntried unreferenced nUSlot).symm hereUntried
    rw [clears]
    dsimp only
    rw [if_pos empty]
    refine ⟨renew nUSlot nIdEvict cleared, nRndPos, rfl, ⟨?_, ?_⟩, ?_,
      aside.constants, ?_⟩
    · have changed : Indexed (cleared.modify nIdEvict fun info =>
          { info with nRefCount := 1 }) :=
        keptCleared.indexed.modify (fun _ => rfl) (fun _ => rfl)
      exact changed.congr rfl rfl rfl rfl
    · refine linked_filed (renew nUSlot nIdEvict cleared)
        (fun info => { info with nRefCount := 1 }) keptCleared.filed
        keptCleared.indexed oldCleared empty ?_ rfl ?_ ?_ rfl ?_ rfl rfl rfl
        rfl rfl ?_
      · rw [aside.nKey]
        rfl
      · change infoOld.nRefCount < _
        rw [oldUnreferenced]
        decide
      · intro other distinct free
        exact free.resolve_right distinct
      · simp [CAddrInfo.refer, CAddrInfo.moveTo, oldUnreferenced]
      · change cleared.nNew + 1 + deficit = cleared.nNew + (deficit + 1)
        omega
    · change cleared.vvTried slot = -1
      rw [aside.vvTried]
      exact Function.update_self ..
    · change (cleared.modify nIdEvict _).mapInfo[nId]? = _
      rw [getElem?_modify, if_neg apart, hereCleared]

/-- The assertions of a promotion hold. -/
theorem makeTried_spec (kept : Kept around None 0 man)
    (here : man.mapInfo[nId]? = some info) (new : info.fInTried = false)
    (succeeded : info.nLastSuccess ≠ 0) :
    ∃ man', makeTried around nId info.service man = some man' ∧
      Kept around None 0 man' ∧ man'.constants = man.constants := by
  have loosened : Kept around (Only nId) 0 man :=
    ⟨kept.indexed, kept.filed.tighten fun _ _ _ _ free => free.elim⟩
  obtain ⟨left, nRefCount, leaves, keptLeft, hereLeft, aside, gone⟩ :=
    leaveBuckets_spec loosened here rfl (List.finRange newBucketCount)
  have unreferenced : nRefCount = 0 := by
    have counted := keptLeft.references_eq hereLeft
    refine counted.trans (congrArg Nat.cast (occurrences_eq_zero ?_))
    intro slot holds
    exact (gone slot holds).2 (List.mem_finRange _)
  have uncounted : Kept around (Only nId) 1
      { left with nNew := left.nNew - 1 } := by
    have filed := keptLeft.filed.setNew (left.nNew - 1)
    rw [show 0 + left.nNew - (left.nNew - 1) = 1 by omega] at filed
    exact ⟨keptLeft.indexed.congr rfl rfl rfl rfl, filed⟩
  obtain ⟨evicted, nRndPos, evicts, keptEvicted, free, constants,
      hereEvicted⟩ :=
    evictTried_spec uncounted hereLeft new unreferenced
      (triedSlot around left.nKey info.service)
  unfold makeTried
  dsimp only
  rw [leaves, hereLeft]
  dsimp only
  rw [if_neg (not_not.mpr unreferenced), evicts]
  dsimp only
  rw [if_pos free]
  refine ⟨_, rfl, ⟨?_, ?_⟩, constants.trans aside.constants⟩
  · have changed : Indexed (evicted.modify nId fun info =>
        { info with fInTried := true }) :=
      keptEvicted.indexed.modify (fun _ => rfl) (fun _ => rfl)
    exact changed.congr rfl rfl rfl rfl
  · refine enterTried_filed keptEvicted.filed keptEvicted.indexed
      hereEvicted free ?_ new unreferenced succeeded ?_
    · have nKey : evicted.nKey = left.nKey := congrArg Prod.fst constants
      rw [nKey]
      rfl
    · intro other apart
      exact apart

/-! ## Changes of the data -/

theorem of_find (kept : Kept around loose deficit man) {addr : CNetAddr}
    (found : find addr man = some (nId, info)) :
    man.mapInfo[nId]? = some info ∧ info.service.ip = addr := by
  unfold find at found
  split at found
  · cases found
  · rename_i other named
    obtain ⟨stored, here, address⟩ := kept.indexed.named addr other named
    rw [here] at found
    cases found
    exact ⟨here, address⟩

theorem mapAddr_of_find (kept : Kept around loose deficit man)
    {addr : CNetAddr} (unknown : find addr man = none) :
    man.mapAddr addr = none := by
  unfold find at unknown
  split at unknown
  · assumption
  · rename_i other named
    obtain ⟨stored, here, _⟩ := kept.indexed.named addr other named
    rw [here] at unknown
    cases unknown

/-- A change of the times and services of an entry. -/
theorem Kept.touch (kept : Kept around loose deficit man)
    (here : man.mapInfo[nId]? = some info) {change : CAddrInfo → CAddrInfo}
    (service : ∀ info, (change info).service = info.service)
    (position : ∀ info, (change info).nRandomPos = info.nRandomPos)
    (nRefCount : (change info).nRefCount = info.nRefCount)
    (fInTried : (change info).fInTried = info.fInTried)
    (times : 0 ≤ (change info).nLastTry ∧ 0 ≤ (change info).nLastSuccess)
    (success : info.nLastSuccess ≠ 0 → (change info).nLastSuccess ≠ 0) :
    Kept around loose deficit (man.modify nId change) :=
  ⟨kept.indexed.modify service position, kept.filed.touch kept.indexed here
    (service info) nRefCount fInTried times success⟩

theorem good_spec (kept : Kept around None 0 man) (addr : CService)
    {nTime : Int} (positive : 0 < nTime) (nRnd : Nat) :
    ∃ man', good around addr nTime nRnd man = some man' ∧
      Kept around None 0 man' ∧ man'.constants = man.constants := by
  unfold good
  split
  · exact ⟨man, rfl, kept, rfl⟩
  · rename_i nId info found
    have here := (of_find kept found).1
    have touched : Kept around None 0 (man.modify nId (·.succeed nTime)) :=
      kept.touch here (fun _ => rfl) (fun _ => rfl) rfl rfl
        ⟨positive.le, positive.le⟩ fun _ => positive.ne'
    have after : (man.modify nId (·.succeed nTime)).mapInfo[nId]? =
        some (info.succeed nTime) := modify_self here _
    split_ifs with differs tried listed
    · exact ⟨man, rfl, kept, rfl⟩
    · exact ⟨_, rfl, touched, rfl⟩
    · have same : (info.succeed nTime).service = addr := not_not.mp differs
      rw [← same]
      exact makeTried_spec touched after (Bool.eq_false_iff.mpr tried)
        positive.ne'
    · exact ⟨_, rfl, touched, rfl⟩

theorem attempt_spec (kept : Kept around None 0 man) (addr : CService)
    {nTime : Int} (positive : 0 < nTime) :
    Kept around None 0 (attempt addr nTime man) ∧
      (attempt addr nTime man).constants = man.constants := by
  unfold attempt
  split
  · exact ⟨kept, rfl⟩
  · rename_i nId info found
    have here := (of_find kept found).1
    have times := (kept.filed.entries nId info here).times
    split_ifs
    · exact ⟨kept, rfl⟩
    · exact ⟨kept.touch here (fun _ => rfl) (fun _ => rfl) rfl rfl
        ⟨positive.le, times.2⟩ id, rfl⟩

theorem connected_spec (kept : Kept around None 0 man) (addr : CService)
    (nTime : Int) :
    Kept around None 0 (connected addr nTime man) ∧
      (connected addr nTime man).constants = man.constants := by
  unfold connected
  split
  · exact ⟨kept, rfl⟩
  · rename_i nId info found
    have here := (of_find kept found).1
    have times := (kept.filed.entries nId info here).times
    split_ifs
    · exact ⟨kept, rfl⟩
    · exact ⟨kept.touch here (fun _ => rfl) (fun _ => rfl) rfl rfl times id,
        rfl⟩

/-! ## Insertion -/

theorem place_spec (kept : Kept around (Only nId) 0 man)
    (here : man.mapInfo[nId]? = some info) (new : info.fInTried = false)
    (bound : info.nRefCount < newBucketsPerAddress) (source : CNetAddr)
    (adjustedTime : Int) :
    ∃ man', place around source adjustedTime nId info man = some man' ∧
      Kept around None 0 man' ∧ man'.constants = man.constants := by
  have counted := kept.references_eq here
  have tightened : 0 < info.nRefCount → Kept around None 0 man := by
    intro positive
    refine ⟨kept.indexed, kept.filed.tighten ?_⟩
    rintro other stored there _ rfl
    rw [here] at there
    cases there
    exact .inr positive
  unfold place
  dsimp only
  set slot := newSlot around man.nKey info.service
    (getNewBucket around man.nKey info.service source) with slot_eq
  split_ifs with holds inserts unreferenced
  · have positive := references_pos holds
    exact ⟨man, rfl, tightened (by omega), rfl⟩
  · obtain ⟨cleared, clears, keptCleared, vvNew, aside⟩ :=
      clearNew_spec kept slot
    obtain ⟨nRndPos, after⟩ := aside.entry (Ne.symm holds) here
    have empty : cleared.vvNew slot = -1 := by
      rw [vvNew, Function.update_self]
    rw [clears]
    refine ⟨link slot nId cleared, rfl, ⟨?_, ?_⟩, aside.constants⟩
    · have changed : Indexed (cleared.modify nId (·.refer 1)) :=
        keptCleared.indexed.modify (fun _ => rfl) (fun _ => rfl)
      exact changed.congr rfl rfl rfl rfl
    · refine linked_filed (link slot nId cleared) (·.refer 1)
        keptCleared.filed keptCleared.indexed after empty ?_ new bound ?_ rfl
        rfl rfl rfl rfl rfl rfl rfl
      · rw [aside.nKey]
        rfl
      · intro other apart
        exact apart
  · obtain ⟨man', deleted, indexed, filed, _, aside⟩ :=
      delete_spec kept.indexed kept.filed here new unreferenced
        fun _ apart => apart
    exact ⟨man', deleted, ⟨indexed, filed⟩, aside.constants⟩
  · exact ⟨man, rfl, tightened (by omega), rfl⟩

/-- A new entry before it is counted. -/
theorem created_kept (kept : Kept around None 0 man) (addr : CAddress)
    (source : CNetAddr) (nTimePenalty : Int)
    (unknown : man.mapAddr addr.service.ip = none) :
    Kept around (Only man.nIdCount) 1 ((create addr source man).modify
      man.nIdCount (·.penalize nTimePenalty)) := by
  have created : Kept around (Only man.nIdCount) 1 (create addr source man) :=
    ⟨create_indexed addr source kept.indexed unknown,
      create_filed addr source kept.indexed kept.filed rfl
        fun _ => False.elim⟩
  exact created.touch (create_self addr source man) (fun _ => rfl)
    (fun _ => rfl) rfl rfl ⟨le_rfl, le_rfl⟩ id

theorem mayRefer_new {addr : CAddress} {rand : Nat}
    (may : mayRefer addr rand info) :
    info.fInTried = false ∧ info.nRefCount ≠ newBucketsPerAddress := by
  unfold mayRefer at may
  obtain ⟨_, new, free, _⟩ := of_decide_eq_true may
  exact ⟨Bool.eq_false_iff.mpr new, free⟩

theorem add_spec (kept : Kept around None 0 man) (addr : CAddress)
    (source : CNetAddr) (nTimePenalty adjustedTime : Int) (rand : Nat)
    (fits : man.nIdCount < maxInt) :
    ∃ fNew man',
      add around addr source nTimePenalty adjustedTime rand man =
        some (fNew, man') ∧
      Kept around None 0 man' ∧ man'.nKey = man.nKey ∧
      man'.nIdCount ≤ man.nIdCount + 1 := by
  unfold add
  split_ifs with routable
  swap
  · exact ⟨false, man, rfl, kept, rfl, by omega⟩
  cases found : find addr.service.ip man with
  | some pair =>
      obtain ⟨nId, info⟩ := pair
      have here := (of_find kept found).1
      set refreshed := info.refresh addr nTimePenalty adjustedTime
      have times := (kept.filed.entries nId info here).times
      have touched : Kept around None 0
          (man.modify nId (·.refresh addr nTimePenalty adjustedTime)) :=
        kept.touch here (fun _ => rfl) (fun _ => rfl) rfl rfl times id
      have after : (man.modify nId (·.refresh addr nTimePenalty
          adjustedTime)).mapInfo[nId]? = some refreshed :=
        modify_self here (·.refresh addr nTimePenalty adjustedTime)
      dsimp only
      split_ifs with may
      · obtain ⟨new, free⟩ := mayRefer_new may
        have bound := ((touched.filed.entries nId _ after).new new).1
        have loosened : Kept around (Only nId) 0
            (man.modify nId (·.refresh addr nTimePenalty adjustedTime)) :=
          ⟨touched.indexed, touched.filed.tighten fun _ _ _ _ => False.elim⟩
        obtain ⟨man', placed, kept', constants⟩ := place_spec loosened after new
          (lt_of_le_of_ne bound free) source adjustedTime
        rw [placed]
        have nIdCount : man'.nIdCount = man.nIdCount :=
          congrArg Prod.snd constants
        exact ⟨false, man', rfl, kept', congrArg Prod.fst constants, by omega⟩
      · refine ⟨false, _, rfl, touched, rfl, ?_⟩
        change man.nIdCount ≤ _
        omega
  | none =>
      have unknown := mapAddr_of_find kept found
      set fresh := (create addr source man).modify man.nIdCount
        (·.penalize nTimePenalty)
      have counted : Kept around (Only man.nIdCount) 0
          { fresh with nNew := fresh.nNew + 1 } := by
        have created := created_kept kept addr source nTimePenalty unknown
        have filed := created.filed.setNew (fresh.nNew + 1)
        rw [show 1 + fresh.nNew - (fresh.nNew + 1) = 0 by omega] at filed
        exact ⟨created.indexed.congr rfl rfl rfl rfl, filed⟩
      have after : fresh.mapInfo[man.nIdCount]? = _ :=
        modify_self (create_self addr source man) (·.penalize nTimePenalty)
      obtain ⟨man', placed, kept', constants⟩ := place_spec counted after rfl
        (by decide : (0 : Int) < newBucketsPerAddress) source adjustedTime
      dsimp only
      rw [if_neg fits.ne, after]
      dsimp only
      rw [placed]
      exact ⟨true, man', rfl, kept', congrArg Prod.fst constants,
        (congrArg Prod.snd constants).le⟩

/-! ## A sample -/

theorem swapRandom_kept (kept : Kept around None 0 man) {first second : Nat}
    (bound1 : first < man.vRandom.length)
    (bound2 : second < man.vRandom.length) :
    ∃ man', swapRandom first second man = some man' ∧
      Kept around None 0 man' ∧ man'.constants = man.constants ∧
      man'.vRandom.length = man.vRandom.length := by
  obtain ⟨man', swaps, indexed, same, _⟩ :=
    swapRandom_spec kept.indexed bound1 bound2
  exact ⟨man', swaps, ⟨indexed, kept.filed.same same⟩, Prod.ext same.nKey same.nIdCount,
    same.vRandom.length_eq⟩

theorem getAddrLoop_spec (kept : Kept around None 0 man) (adjustedTime : Int)
    (rand : Nat → Nat) (nNodes : Nat) {positions : List Nat}
    (bounds : ∀ n ∈ positions, n < man.vRandom.length)
    (vAddr : List CAddress) :
    ∃ vAddr' man', getAddrLoop adjustedTime rand nNodes positions vAddr man =
        some (vAddr', man') ∧
      Kept around None 0 man' ∧ man'.constants = man.constants := by
  induction positions generalizing man vAddr with
  | nil => exact ⟨vAddr, man, rfl, kept, rfl⟩
  | cons n rest ih =>
      have bound := bounds n List.mem_cons_self
      have drawn : rand n % (man.vRandom.length - n) + n <
          man.vRandom.length := by
        have below := Nat.mod_lt (rand n) (Nat.sub_pos_of_lt bound)
        omega
      obtain ⟨moved, swaps, keptMoved, constants, length⟩ :=
        swapRandom_kept kept bound drawn
      have inside : n < moved.vRandom.length := by omega
      have listed := (keptMoved.indexed.listed _).mp
        (List.getElem_mem inside)
      obtain ⟨ai, here⟩ := Option.isSome_iff_exists.mp
        (Std.ExtTreeMap.mem_iff_isSome_getElem?.mp listed)
      have selected : moved.vRandom[n]?.bind (moved.mapInfo[·]?) =
          some ai := by
        rw [List.getElem?_eq_getElem inside, Option.bind_some, here]
      unfold getAddrLoop
      dsimp only
      split_ifs with full
      · exact ⟨vAddr, man, rfl, kept, rfl⟩
      · rw [swaps]
        dsimp only
        rw [selected]
        dsimp only
        obtain ⟨vAddr', man', loops, kept', constants'⟩ := ih keptMoved
          (fun other later => length ▸ bounds other
            (List.mem_cons_of_mem n later)) _
        exact ⟨vAddr', man', loops, kept', constants'.trans constants⟩

theorem getAddr_spec (kept : Kept around None 0 man) (adjustedTime : Int)
    (rand : Nat → Nat) :
    ∃ vAddr man', getAddr adjustedTime rand man = some (vAddr, man') ∧
      Kept around None 0 man' ∧ man'.constants = man.constants := by
  unfold getAddr
  exact getAddrLoop_spec kept adjustedTime rand _
    (fun _ => List.mem_range.mp) []

end PrivateDatagram.Network.AddrManSteps
