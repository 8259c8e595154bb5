import PrivateDatagram.Repository.Manager

/-!
# Extents

Allocation hands out consecutive extents of the last block and never moves
what has been handed out.  `Kept` says so for a pair of states; each part of
`findAndAllocateBlockFile` keeps what was there before, and the extent it
returns lies behind everything else.

Two positions whose extents do not overlap cannot disturb one another, so a
record that is rewritten in place leaves all the other records alone.
-/

namespace PrivateDatagram.Repository.Allocation

open Library.ByteFormat Library.ByteStore Manager

/-! ## Block tables -/

theorem getElem?_last (table : BlockTable) :
    table.vblockFileInfo[table.lastBlockFileIndex]? =
      some table.current := by
  have inside : table.lastBlockFileIndex < table.vblockFileInfo.length := by
    rw [← table.last]
    exact Nat.lt_succ_self _
  rw [List.getElem?_eq_getElem inside]
  rfl

theorem current_eq {table : BlockTable} {info : CFileRepositoryBlockInfo}
    (found : table.vblockFileInfo[table.lastBlockFileIndex]? = some info) :
    table.current = info := by
  rw [getElem?_last] at found
  exact Option.some.inj found

theorem getElem?_modifyLast (table : BlockTable)
    (change : CFileRepositoryBlockInfo → CFileRepositoryBlockInfo)
    (number : Nat) :
    (table.modifyLast change).vblockFileInfo[number]? =
      if table.lastBlockFileIndex = number then some (change table.current)
      else table.vblockFileInfo[number]? := by
  change (table.vblockFileInfo.modify _ change)[number]? = _
  rw [List.getElem?_modify]
  split_ifs with here
  · subst here
    rw [getElem?_last]
    rfl
  · exact Option.map_id'

@[simp]
theorem current_emplaceBack (table : BlockTable)
    (info : CFileRepositoryBlockInfo) :
    (table.emplaceBack info).current = info := by
  apply current_eq
  exact List.getElem?_concat_length

theorem mem_modifyLast {table : BlockTable}
    {change : CFileRepositoryBlockInfo → CFileRepositoryBlockInfo}
    {info : CFileRepositoryBlockInfo}
    (member : info ∈ (table.modifyLast change).vblockFileInfo) :
    info = change table.current ∨ info ∈ table.vblockFileInfo := by
  rcases List.mem_iff_getElem?.mp member with ⟨number, found⟩
  rw [getElem?_modifyLast] at found
  split_ifs at found with here
  · exact .inl (Option.some.inj found).symm
  · exact .inr (List.mem_of_getElem? found)

/-! ## Extents -/

/-- The extent lies within the recorded size of its block. -/
def InsideBlock (table : BlockTable) (pos : CFileRepositoryBlockDiskPos) :
    Prop :=
  ∃ info, table.vblockFileInfo[pos.nBlockFileIndex]? = some info ∧
    pos.nOffset.toNat + pos.nFileSize.toNat ≤ info.nBlockSize.toNat

/-- The extents lie in different blocks or one behind the other. -/
def DisjointExtents (left right : CFileRepositoryBlockDiskPos) : Prop :=
  left.nBlockFileIndex = right.nBlockFileIndex →
    left.nOffset.toNat + left.nFileSize.toNat ≤ right.nOffset.toNat ∨
      right.nOffset.toNat + right.nFileSize.toNat ≤ left.nOffset.toNat

theorem DisjointExtents.symm {left right : CFileRepositoryBlockDiskPos}
    (disjoint : DisjointExtents left right) : DisjointExtents right left :=
  fun equal => (disjoint equal.symm).symm

/-- These bytes fill the extent. -/
def Stored (disk : Disk) (pos : CFileRepositoryBlockDiskPos)
    (bytes : Bytes) : Prop :=
  bytes.length = pos.nFileSize.toNat ∧
    ∃ content, disk (.blk pos.nBlockFileIndex) = some content ∧
      StoredAt content pos.nOffset.toNat bytes

/-- Nothing that was handed out has moved or changed. -/
structure Kept (table : BlockTable) (disk : Disk) (table' : BlockTable)
    (disk' : Disk) : Prop where
  inside : ∀ pos, InsideBlock table pos → InsideBlock table' pos
  stored : ∀ pos bytes, InsideBlock table pos → Stored disk pos bytes →
    Stored disk' pos bytes

theorem Kept.refl (table : BlockTable) (disk : Disk) :
    Kept table disk table disk :=
  ⟨fun _ inside => inside, fun _ _ _ stored => stored⟩

theorem Kept.trans {first second third : BlockTable}
    {firstDisk secondDisk thirdDisk : Disk}
    (left : Kept first firstDisk second secondDisk)
    (right : Kept second secondDisk third thirdDisk) :
    Kept first firstDisk third thirdDisk := by
  constructor
  · intro pos inside
    exact right.inside pos (left.inside pos inside)
  · intro pos bytes inside stored
    exact right.stored pos bytes (left.inside pos inside)
      (left.stored pos bytes inside stored)

/-- No block is larger than a block file may be. -/
def BlocksBounded (table : BlockTable) : Prop :=
  ∀ info ∈ table.vblockFileInfo,
    info.nBlockSize.toNat ≤ maxFileBlockFileSize.toNat

theorem BlocksBounded.current {table : BlockTable}
    (bounded : BlocksBounded table) :
    table.current.nBlockSize.toNat ≤ maxFileBlockFileSize.toNat :=
  bounded _ (List.mem_of_getElem? (getElem?_last table))

/-- Editing a block file keeps what the edit keeps. -/
theorem stored_edit {disk : Disk} {number : Nat} {change : Bytes → Bytes}
    {pos : CFileRepositoryBlockDiskPos} {bytes : Bytes}
    (stored : Stored disk pos bytes)
    (keeps : pos.nBlockFileIndex = number → ∀ content,
      StoredAt content pos.nOffset.toNat bytes →
        StoredAt (change content) pos.nOffset.toNat bytes) :
    Stored (disk.edit (.blk number) change) pos bytes := by
  rcases stored with ⟨length, content, found, here⟩
  refine ⟨length, ?_⟩
  by_cases same : pos.nBlockFileIndex = number
  · refine ⟨change content, ?_, keeps same content here⟩
    rw [← same, Disk.edit, Function.update_self, found]
    rfl
  · refine ⟨content, ?_, here⟩
    rw [Disk.edit, Function.update_of_ne]
    · exact found
    · intro equal
      exact same (BlockPath.blk.inj equal)

/-! ## Enlarging the table -/

theorem kept_modifyLast {table : BlockTable}
    (change : CFileRepositoryBlockInfo → CFileRepositoryBlockInfo)
    (grows : table.current.nBlockSize.toNat ≤
      (change table.current).nBlockSize.toNat) (disk : Disk) :
    Kept table disk (table.modifyLast change) disk := by
  refine ⟨?_, fun _ _ _ stored => stored⟩
  rintro pos ⟨info, found, bound⟩
  by_cases here : table.lastBlockFileIndex = pos.nBlockFileIndex
  · refine ⟨change table.current, ?_, ?_⟩
    · rw [getElem?_modifyLast, if_pos here]
    · rw [← here] at found
      rw [← current_eq found] at bound
      exact Nat.le_trans bound grows
  · refine ⟨info, ?_, bound⟩
    rw [getElem?_modifyLast, if_neg here, found]

theorem kept_emplaceBack (table : BlockTable)
    (info : CFileRepositoryBlockInfo) (disk : Disk) :
    Kept table disk (table.emplaceBack info) disk := by
  refine ⟨?_, fun _ _ _ stored => stored⟩
  rintro pos ⟨found, here, bound⟩
  refine ⟨found, ?_, bound⟩
  change (table.vblockFileInfo ++ [info])[pos.nBlockFileIndex]? = _
  rw [List.getElem?_append_left]
  · exact here
  · exact (List.getElem?_eq_some_iff.mp here).1

theorem kept_flush (environment : Environment) (table : BlockTable)
    (state : RepositoryState) :
    Kept table state.disk table
      (flushFileRepositoryBlock environment table.lastBlockFileIndex
        table.current.nBlockSize false state).disk := by
  unfold flushFileRepositoryBlock
  split_ifs
  · exact Kept.refl table state.disk
  · refine ⟨fun _ inside => inside, ?_⟩
    rintro pos bytes ⟨info, found, bound⟩ stored
    apply stored_edit stored
    intro same content here
    rw [same] at found
    rw [← current_eq found, ← stored.1] at bound
    exact here.truncateTo bound

theorem kept_allocateFileRange (environment : Environment)
    (table : BlockTable) (number : Nat) (endPosition : UInt32)
    (state : RepositoryState) :
    Kept table state.disk table
      (allocateFileRange environment number false endPosition state).disk := by
  unfold allocateFileRange
  split_ifs
  · exact Kept.refl table state.disk
  · refine ⟨fun _ inside => inside, ?_⟩
    intro pos bytes _ stored
    apply stored_edit stored
    intro _ content here
    exact here.extendTo _

/-! ## What allocation returns -/

/-- An extent behind everything that has been handed out. -/
structure Fresh (table table' : BlockTable)
    (pos : CFileRepositoryBlockDiskPos) : Prop where
  inside : InsideBlock table' pos
  disjoint : ∀ other, InsideBlock table other → DisjointExtents pos other

/-- What a call of `findAndAllocateBlockFile` does, whatever it returns. -/
structure Allocated (nAddSize : UInt32) (table : BlockTable)
    (state : RepositoryState) (result : Option CFileRepositoryBlockDiskPos)
    (table' : BlockTable) (state' : RepositoryState) : Prop where
  kept : Kept table state.disk table' state'.disk
  bounded : BlocksBounded table'
  tree : state'.pblockfiletree = state.pblockfiletree
  fresh : ∀ pos, result = some pos →
    pos.nFileSize = nAddSize ∧ Fresh table table' pos

theorem startNewBlock_kept (environment : Environment) (table : BlockTable)
    (state : RepositoryState) :
    Kept table state.disk (startNewBlock environment false table state).1
      (startNewBlock environment false table state).2.disk := by
  have flushed := kept_flush environment table state
  refine flushed.trans ((kept_modifyLast _ ?_ _).trans
    (kept_emplaceBack _ _ _))
  exact Nat.le_refl _

theorem startNewBlock_bounded (environment : Environment) (isTmp : Bool)
    {table : BlockTable} (bounded : BlocksBounded table)
    (state : RepositoryState) :
    BlocksBounded (startNewBlock environment isTmp table state).1 := by
  intro info member
  change info ∈ (table.modifyLast _).vblockFileInfo ++ [_] at member
  rcases List.mem_append.mp member with old | new
  · rcases mem_modifyLast old with rfl | old
    · exact bounded.current
    · exact bounded info old
  · rw [List.mem_singleton.mp new]
    exact Nat.zero_le _

theorem startNewBlock_tree (environment : Environment) (isTmp : Bool)
    (table : BlockTable) (state : RepositoryState) :
    (startNewBlock environment isTmp table state).2.pblockfiletree =
      state.pblockfiletree := by
  unfold startNewBlock flushFileRepositoryBlock
  split_ifs <;> rfl

/-- Neither addend wraps around when both are within the limit. -/
theorem toNat_add_of_le {left right : UInt32}
    (leftSmall : left.toNat ≤ maxFileBlockFileSize.toNat)
    (rightSmall : right.toNat ≤ maxFileBlockFileSize.toNat) :
    (left + right).toNat = left.toNat + right.toNat := by
  rw [toNat_maxFileBlockFileSize] at leftSmall rightSmall
  rw [UInt32.toNat_add]
  exact Nat.mod_eq_of_lt (by omega)

/-- The table has room for a file in its last block. -/
def HasRoom (table : BlockTable) (nAddSize : UInt32) : Prop :=
  table.current.nBlockSize.toNat + nAddSize.toNat ≤
    maxFileBlockFileSize.toNat

theorem HasRoom.toNat_add {table : BlockTable} {nAddSize : UInt32}
    (room : HasRoom table nAddSize) :
    (table.current.nBlockSize + nAddSize).toNat =
      table.current.nBlockSize.toNat + nAddSize.toNat :=
  toNat_add_of_le (Nat.le_trans (Nat.le_add_right _ _) room)
    (Nat.le_trans (Nat.le_add_left _ _) room)

theorem makeRoom_spec {environment : Environment} {nAddSize : UInt32}
    {table table' : BlockTable} {state state' : RepositoryState}
    (bounded : BlocksBounded table)
    (small : nAddSize.toNat ≤ maxFileBlockFileSize.toNat)
    (room : makeRoom environment nAddSize false table state =
      (table', state')) :
    Kept table state.disk table' state'.disk ∧ BlocksBounded table' ∧
      HasRoom table' nAddSize ∧
      state'.pblockfiletree = state.pblockfiletree := by
  unfold makeRoom at room
  split_ifs at room with full
  · have tableEq := congrArg Prod.fst room
    have stateEq := congrArg Prod.snd room
    dsimp only at tableEq stateEq
    subst tableEq stateEq
    refine ⟨startNewBlock_kept environment table state,
      startNewBlock_bounded environment false bounded state, ?_,
      startNewBlock_tree environment false table state⟩
    rw [HasRoom, startNewBlock, current_emplaceBack]
    change 0 + nAddSize.toNat ≤ _
    rw [Nat.zero_add]
    exact small
  · cases room
    refine ⟨Kept.refl table state.disk, bounded, ?_, rfl⟩
    have sum := toNat_add_of_le bounded.current small
    have below := Nat.not_le.mp (mt UInt32.le_iff_toNat_le.mpr full)
    rw [sum] at below
    exact Nat.le_of_lt below

/-- The end of the last block is behind every extent. -/
theorem fresh_last {table : BlockTable} {nAddSize : UInt32}
    (room : HasRoom table nAddSize) (time : Int) :
    Fresh table (table.modifyLast (·.addFile time nAddSize))
      ⟨table.lastBlockFileIndex, table.current.nBlockSize, nAddSize⟩ := by
  constructor
  · refine ⟨table.current.addFile time nAddSize, ?_, ?_⟩
    · rw [getElem?_modifyLast, if_pos rfl]
    · exact Nat.le_of_eq room.toNat_add.symm
  · rintro other ⟨info, found, bound⟩ same
    rw [← same] at found
    rw [← current_eq found] at bound
    exact .inr bound

/-- Counting the file in the last block keeps the others and the limit. -/
theorem modifyLast_addFile {table : BlockTable} {nAddSize : UInt32}
    (bounded : BlocksBounded table) (room : HasRoom table nAddSize)
    (time : Int) (disk : Disk) :
    Kept table disk (table.modifyLast (·.addFile time nAddSize)) disk ∧
      BlocksBounded (table.modifyLast (·.addFile time nAddSize)) := by
  have sum : (table.current.addFile time nAddSize).nBlockSize.toNat = _ :=
    room.toNat_add
  constructor
  · apply kept_modifyLast
    rw [sum]
    exact Nat.le_add_right _ _
  · intro info member
    rcases mem_modifyLast member with rfl | old
    · rw [sum]
      exact room
    · exact bounded info old

theorem placeFile_spec {environment : Environment} {nAddSize : UInt32}
    {table table' : BlockTable} {state state' : RepositoryState}
    {result : Option CFileRepositoryBlockDiskPos}
    (bounded : BlocksBounded table) (room : HasRoom table nAddSize)
    (placed : placeFile environment nAddSize false table state =
      (result, table', state')) :
    Allocated nAddSize table state result table' state' := by
  have fresh := fresh_last room environment.time
  rcases modifyLast_addFile bounded room environment.time state.disk with
    ⟨kept, bounded⟩
  unfold placeFile at placed
  dsimp only at placed
  split_ifs at placed
  · cases placed
    exact ⟨kept, bounded, rfl, fun _ none => by cases none⟩
  · cases placed
    refine ⟨kept.trans (kept_allocateFileRange _ _ _ _ _), bounded, ?_, ?_⟩
    · unfold allocateFileRange
      split_ifs <;> rfl
    · rintro pos ⟨⟩
      exact ⟨rfl, fresh⟩
  · cases placed
    refine ⟨kept, bounded, rfl, ?_⟩
    rintro pos ⟨⟩
    exact ⟨rfl, fresh⟩

theorem findAndAllocateBlockFile_spec {environment : Environment}
    {nAddSize : UInt32} {table table' : BlockTable}
    {state state' : RepositoryState}
    {result : Option CFileRepositoryBlockDiskPos}
    (bounded : BlocksBounded table)
    (found : findAndAllocateBlockFile environment nAddSize false table state =
      (result, table', state')) :
    Allocated nAddSize table state result table' state' := by
  unfold findAndAllocateBlockFile at found
  split_ifs at found with large
  · cases found
    exact ⟨Kept.refl _ _, bounded, rfl, fun _ none => by cases none⟩
  · have small : nAddSize.toNat ≤ maxFileBlockFileSize.toNat :=
      Nat.not_lt.mp (mt UInt32.lt_iff_toNat_lt.mpr large)
    rcases room : makeRoom environment nAddSize false table state with
      ⟨middle, middleState⟩
    rw [room] at found
    rcases makeRoom_spec bounded small room with
      ⟨kept, middleBounded, hasRoom, tree⟩
    have placed := placeFile_spec middleBounded hasRoom found
    refine ⟨kept.trans placed.kept, placed.bounded, placed.tree.trans tree,
      ?_⟩
    intro pos handed
    rcases placed.fresh pos handed with ⟨size, fresh⟩
    refine ⟨size, fresh.inside, ?_⟩
    intro other inside
    exact fresh.disjoint other (kept.inside other inside)

/-- An extent is as large as was asked for, whatever the table. -/
theorem findAndAllocateBlockFile_size {environment : Environment}
    {nAddSize : UInt32} {isTmp : Bool} {table table' : BlockTable}
    {state state' : RepositoryState} {pos : CFileRepositoryBlockDiskPos}
    (found : findAndAllocateBlockFile environment nAddSize isTmp table state =
      (some pos, table', state')) :
    pos.nFileSize = nAddSize := by
  unfold findAndAllocateBlockFile at found
  split_ifs at found
  · cases found
  · unfold placeFile at found
    dsimp only at found
    split_ifs at found
    · cases found
    · cases found
      rfl
    · cases found
      rfl

end PrivateDatagram.Repository.Allocation
