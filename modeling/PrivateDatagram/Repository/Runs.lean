import PrivateDatagram.Repository.StoredFiles

/-!
# Runs of the repository

A run starts with the empty repository and makes any calls that report
success.  Beside the state, a `History` records what the calls promised: the
extents that were given out, and under each hash the file that was saved last
and neither erased nor recycled since.

In every reachable history the extents are disjoint, no block outgrows its
limit, and the repository still has every file it promised to keep.
-/

namespace PrivateDatagram.Repository.Runs

open Library.ByteFormat Wire.Serialize Records Manager Allocation StoredFiles

/--
A call of the repository.  The callers of `SaveFile` hand over files that
were read from the network, where a vector has at most `maxSize` bytes, or
files of the wallet, which are smaller still.
-/
inductive Call where
  | saveFile (file : CDBFile) (admitted : Admitted file)
  | eraseFile (file : CDBFile)
  | findAndRecycleExpiredFiles
  | getFile (fileHash : UInt256)

/-- Make a call: what it reports, and the state it leaves. -/
def perform (params : Params) (environment : Environment) :
    Call → RepositoryState → Bool × RepositoryState
  | .saveFile file _, state => saveFile params environment file state
  | .eraseFile file, state => eraseFile params environment file state
  | .findAndRecycleExpiredFiles, state =>
      findAndRecycleExpiredFiles params environment state
  | .getFile fileHash, state =>
      ((getFile params environment fileHash state).isSome, state)

structure History where
  state : RepositoryState
  /-- Every extent that was given out, the latest first. -/
  extents : List CFileRepositoryBlockDiskPos
  /-- The file last saved under a hash and not erased or recycled since. -/
  saved : UInt256 → Option CDBFile

/-- The extent that a call is given. -/
def givenOut (params : Params) (environment : Environment) :
    Call → RepositoryState → List CFileRepositoryBlockDiskPos
  | .saveFile file _, state =>
      (allocate environment (getRepositoryFileSize params file)
        state).1.toList
  | _, _ => []

/-- What a call that succeeds promises to keep from then on. -/
def promised (params : Params) (environment : Environment) :
    Call → (UInt256 → Option CDBFile) → UInt256 → Option CDBFile
  | .saveFile file _, saved =>
      Function.update saved (file.calcFileHash params)
        (some (file.updateFileHash params))
  | .eraseFile file, saved => Function.update saved file.fileHash none
  | .findAndRecycleExpiredFiles, saved => fun hash =>
      (saved hash).filter fun file =>
        recycled environment.adjustedTime file = file
  | .getFile _, saved => saved

def History.start (lastUpdateTime time : Int) : History :=
  ⟨emptyRepository lastUpdateTime time, [], fun _ => none⟩

def History.after (params : Params) (environment : Environment) (call : Call)
    (history : History) : History where
  state := (perform params environment call history.state).2
  extents :=
    givenOut params environment call history.state ++ history.extents
  saved := promised params environment call history.saved

/-- The histories of all runs whose calls report success. -/
inductive Reachable (params : Params) : History → Prop where
  | start (lastUpdateTime time : Int) :
      Reachable params (.start lastUpdateTime time)
  | call {history : History} (environment : Environment) (call : Call)
      (reached : Reachable params history)
      (reported : (perform params environment call history.state).1 = true) :
      Reachable params (history.after params environment call)

/-! ## The invariant -/

structure Invariant (params : Params) (history : History) : Prop where
  coherent : Coherent params history.state
  inside : ∀ pos ∈ history.extents, InsideBlock history.state.table pos
  disjoint : history.extents.Pairwise DisjointExtents
  kept : ∀ hash file, history.saved hash = some file →
    contents params history.state hash = some file

theorem invariant_start (params : Params) (lastUpdateTime time : Int) :
    Invariant params (.start lastUpdateTime time) where
  coherent :=
    { bounded := by
        intro info member
        rw [List.mem_singleton.mp member]
        exact Nat.zero_le _
      inside := by
        intro hash pos indexed
        cases indexed
      apart := by
        intro left right leftPos rightPos _ leftIn
        cases leftIn
      held := by
        intro hash pos indexed
        cases indexed }
  inside := by
    intro pos member
    cases member
  disjoint := List.Pairwise.nil
  kept := by
    intro hash file kept
    cases kept

/-- After a save: the extents that stood, and the one it was given. -/
theorem invariant_saveFile {params : Params} {environment : Environment}
    {history : History} {file : CDBFile} (admitted : Admitted file)
    (invariant : Invariant params history)
    (reported : (saveFile params environment file history.state).1 = true) :
    Invariant params
      (history.after params environment (.saveFile file admitted)) := by
  rcases done : saveFile params environment file history.state with
    ⟨success, state'⟩
  rw [done] at reported
  cases reported
  rcases saveFile_spec invariant.coherent admitted done with
    ⟨pos, middle, call, saved⟩
  have state : (history.after params environment
      (.saveFile file admitted)).state = state' := congrArg Prod.snd done
  have extents : (history.after params environment
      (.saveFile file admitted)).extents = pos :: history.extents := by
    change (allocate _ _ _).1.toList ++ _ = _
    rw [call]
    rfl
  constructor
  · rw [state]
    exact saved.coherent
  · rw [state, extents]
    intro other member
    rcases List.mem_cons.mp member with rfl | member
    · exact saved.fresh.inside
    · exact saved.inside other (invariant.inside other member)
  · rw [extents]
    refine List.Pairwise.cons ?_ invariant.disjoint
    intro other member
    exact saved.fresh.disjoint other (invariant.inside other member)
  · rw [state, saved.contents]
    intro hash kept promise
    change Function.update _ _ _ hash = _ at promise
    by_cases same : hash = file.calcFileHash params
    · subst same
      rw [Function.update_self] at promise ⊢
      exact promise
    · rw [Function.update_of_ne same] at promise ⊢
      exact invariant.kept hash kept promise

theorem invariant_eraseFile {params : Params} {environment : Environment}
    {history : History} {file : CDBFile}
    (invariant : Invariant params history)
    (reported : (eraseFile params environment file history.state).1 = true) :
    Invariant params (history.after params environment (.eraseFile file)) := by
  rcases done : eraseFile params environment file history.state with
    ⟨success, state'⟩
  rw [done] at reported
  cases reported
  rcases eraseFile_spec invariant.coherent done with
    ⟨coherent, table, _, contents'⟩
  have state : (history.after params environment
      (.eraseFile file)).state = state' := congrArg Prod.snd done
  refine ⟨?_, ?_, invariant.disjoint, ?_⟩
  · rw [state]
    exact coherent
  · rw [state, table]
    exact invariant.inside
  · rw [state, contents']
    intro hash kept promise
    change Function.update _ _ _ hash = _ at promise
    by_cases same : hash = file.fileHash
    · rw [same, Function.update_self] at promise
      cases promise
    · rw [Function.update_of_ne same] at promise ⊢
      exact invariant.kept hash kept promise

theorem invariant_recycle {params : Params} {environment : Environment}
    {history : History} (invariant : Invariant params history)
    (reported : (findAndRecycleExpiredFiles params environment
      history.state).1 = true) :
    Invariant params
      (history.after params environment .findAndRecycleExpiredFiles) := by
  rcases done : findAndRecycleExpiredFiles params environment history.state
    with ⟨success, state'⟩
  rw [done] at reported
  cases reported
  rcases findAndRecycleExpiredFiles_spec invariant.coherent done with
    ⟨coherent, same, contents'⟩
  have state : (history.after params environment
      .findAndRecycleExpiredFiles).state = state' := congrArg Prod.snd done
  refine ⟨?_, ?_, invariant.disjoint, ?_⟩
  · rw [state]
    exact coherent
  · rw [state, same.1]
    exact invariant.inside
  · rw [state]
    intro hash kept promise
    change (history.saved hash).filter _ = some kept at promise
    rcases Option.filter_eq_some_iff.mp promise with ⟨before, unchanged⟩
    rw [contents', invariant.kept hash kept before]
    exact congrArg some (of_decide_eq_true unchanged)

theorem invariant_call {params : Params} {environment : Environment}
    {call : Call} {history : History} (invariant : Invariant params history)
    (reported :
      (perform params environment call history.state).1 = true) :
    Invariant params (history.after params environment call) := by
  cases call with
  | saveFile file admitted =>
      exact invariant_saveFile admitted invariant reported
  | eraseFile file => exact invariant_eraseFile invariant reported
  | findAndRecycleExpiredFiles => exact invariant_recycle invariant reported
  | getFile fileHash =>
      exact ⟨invariant.coherent, invariant.inside, invariant.disjoint,
        invariant.kept⟩

theorem invariant_of_reachable {params : Params} {history : History}
    (reachable : Reachable params history) : Invariant params history := by
  induction reachable with
  | start lastUpdateTime time =>
      exact invariant_start params lastUpdateTime time
  | call environment call _ reported ih => exact invariant_call ih reported

/-! ## What every run guarantees -/

structure AllocationSafe (params : Params) (history : History) : Prop where
  /-- No two extents given out in the same block overlap. -/
  disjoint : history.extents.Pairwise DisjointExtents
  /-- Every extent lies inside the recorded size of its block. -/
  inside : ∀ pos ∈ history.extents, InsideBlock history.state.table pos
  /-- No block exceeds the limit, so none that does is ever extended. -/
  bounded : ∀ info ∈ history.state.table.vblockFileInfo,
    info.nBlockSize.toNat ≤ maxFileBlockFileSize.toNat
  /-- No end of an extent wraps around. -/
  noWrap : ∀ pos ∈ history.extents,
    (pos.nOffset + pos.nFileSize).toNat =
      pos.nOffset.toNat + pos.nFileSize.toNat
  /-- Nor does the size of a block when the next file is added. -/
  nextNoWrap : ∀ file, Admitted file →
    (history.state.table.current.nBlockSize +
        getRepositoryFileSize params file).toNat =
      history.state.table.current.nBlockSize.toNat +
        (getRepositoryFileSize params file).toNat
  /-- The repository has every file that was saved and not given up. -/
  kept : ∀ hash file environment, environment.openFails = false →
    history.saved hash = some file →
      getFile params environment hash history.state = some file

theorem getRepositoryFileSize_le (params : Params) {file : CDBFile}
    (admitted : Admitted file) :
    (getRepositoryFileSize params file).toNat ≤
      maxFileBlockFileSize.toNat := by
  have size := getRepositoryFileSize_toNat params admitted
  have prefixLength := writeCompactSize_length file.vBytes.length
  rw [diskRecord_serialize_length, encode_length] at size
  rw [Admitted, maxSize] at admitted
  rw [toNat_maxFileBlockFileSize]
  omega

theorem insideBlock_toNat_add {table : BlockTable}
    (bounded : BlocksBounded table) {pos : CFileRepositoryBlockDiskPos}
    (inside : InsideBlock table pos) :
    (pos.nOffset + pos.nFileSize).toNat =
      pos.nOffset.toNat + pos.nFileSize.toNat := by
  rcases inside with ⟨info, found, bound⟩
  have limit := bounded info (List.mem_of_getElem? found)
  apply toNat_add_of_le <;> omega

/-- Allocation is safe in every run, and files last saved are found again. -/
theorem allocation_safe {params : Params} {history : History}
    (reachable : Reachable params history) :
    AllocationSafe params history := by
  have invariant := invariant_of_reachable reachable
  have bounded := invariant.coherent.bounded
  refine ⟨invariant.disjoint, invariant.inside, bounded, ?_, ?_, ?_⟩
  · intro pos member
    exact insideBlock_toNat_add bounded (invariant.inside pos member)
  · intro file admitted
    exact toNat_add_of_le bounded.current
      (getRepositoryFileSize_le params admitted)
  · intro hash file environment opens saved
    rw [getFile_eq_contents opens]
    exact invariant.kept hash file saved

/-- The main network, with the first 32 bytes of a file as its hash. -/
def sampleParams : Params where
  hash256 bytes := BitVec.ofNat 256 (ofLittleEndian bytes)
  messageStart := [0xdf, 0xec, 0x32, 0xcc]
  messageStart_length := rfl

def sampleFile : CDBFile := ⟨0, 100, false, false, [7]⟩

theorem sampleFile_admitted : Admitted sampleFile := by
  unfold Admitted
  decide

def roomyDisk : Environment := ⟨1, 1, 0x1000000000, false, false⟩

def otherFile : CDBFile := ⟨0, 100, false, false, [8, 9]⟩

theorem otherFile_admitted : Admitted otherFile := by
  unfold Admitted
  decide

/-- The first file once more, under its hash but for a longer time. -/
def laterFile : CDBFile := ⟨0, 200, false, false, [7]⟩

def savedOnce : History :=
  (History.start 0 0).after sampleParams roomyDisk
    (.saveFile sampleFile sampleFile_admitted)

def savedTwice : History :=
  savedOnce.after sampleParams roomyDisk
    (.saveFile otherFile otherFile_admitted)

def sampleHistory : History :=
  savedTwice.after sampleParams roomyDisk
    (.saveFile laterFile sampleFile_admitted)

theorem sampleHistory_reachable : Reachable sampleParams sampleHistory := by
  have once : Reachable sampleParams savedOnce :=
    .call roomyDisk _ (.start 0 0) (by decide +kernel)
  have twice : Reachable sampleParams savedTwice :=
    .call roomyDisk _ once (by decide +kernel)
  exact .call roomyDisk _ twice (by decide +kernel)

theorem allocation_safe_sample :
    sampleHistory.extents = [⟨0, 97, 48⟩, ⟨0, 48, 49⟩, ⟨0, 0, 48⟩] ∧
      sampleHistory.extents.Pairwise DisjointExtents ∧
      getFile sampleParams roomyDisk 7 sampleHistory.state =
        some ⟨7, 200, false, false, [7]⟩ := by
  have safe := allocation_safe sampleHistory_reachable
  have saved : sampleHistory.saved 7 =
      some ⟨7, 200, false, false, [7]⟩ := by decide +kernel
  exact ⟨by decide +kernel, safe.disjoint,
    safe.kept 7 _ roomyDisk rfl saved⟩

end PrivateDatagram.Repository.Runs
