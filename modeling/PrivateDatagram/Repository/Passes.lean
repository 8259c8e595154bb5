import PrivateDatagram.Repository.Compaction

/-!
# Runs of the periodic passes

Two passes run over the repository from time to time.  Recycling marks the
expired foreign files; compaction is meant to drop the marked ones.  A pass
of the latter kind spares the files as long as there is nothing to clean or
nothing indexed in the block that it replaces.

In every run of passes that spare the files, the fate of a file depends only
on its record and on the times at which recycling ran.
-/

namespace PrivateDatagram.Repository.Passes

open Records Manager StoredFiles Compaction

inductive Pass where
  | findAndRecycleExpiredFiles (environment : Environment)
  | shrinkRecycledFiles (environment : Environment)
deriving DecidableEq, Repr

namespace Pass

/-- The state that a pass leaves, also when it stops early. -/
def perform (params : Params) : Pass → RepositoryState → RepositoryState
  | .findAndRecycleExpiredFiles environment, state =>
      (Manager.findAndRecycleExpiredFiles params environment state).2
  | .shrinkRecycledFiles environment, state =>
      (Compaction.shrinkRecycledFiles params environment state).2

/-- Compaction does not put another block in the place of indexed files. -/
def Spares (state : RepositoryState) : Pass → Prop
  | .findAndRecycleExpiredFiles _ => True
  | .shrinkRecycledFiles _ =>
      state.dbFileRepositoryState.isClearDiskSpaceNeeded = false ∨
        ∀ hash pos, Indexed state hash pos → pos.nBlockFileIndex ≠ 0

/-- What a pass makes of a stored file. -/
def effect : Pass → CDBFile → CDBFile
  | .findAndRecycleExpiredFiles environment, file =>
      if environment.openFails then file
      else recycled environment.adjustedTime file
  | .shrinkRecycledFiles _, file => file

/-- Recycling ran, and could read the files, after this time. -/
def outlives (fileExpiredDate : UInt32) : Pass → Bool
  | .findAndRecycleExpiredFiles environment =>
      !environment.openFails &&
        decide (environment.adjustedTime > fileExpiredDate.toNat)
  | .shrinkRecycledFiles _ => false

end Pass

/-! ## One pass -/

theorem recycle_pass {params : Params} {state : RepositoryState}
    (readable : Readable params state) (environment : Environment) :
    let pass := Pass.findAndRecycleExpiredFiles environment
    Readable params (pass.perform params state) ∧
      ∀ hash, contents params (pass.perform params state) hash =
        (contents params state hash).map pass.effect := by
  dsimp only [Pass.perform]
  cases fails : environment.openFails with
  | true =>
      rw [findAndRecycleExpiredFiles_closed state fails]
      refine ⟨readable, fun hash => ?_⟩
      have nothing : Pass.effect (.findAndRecycleExpiredFiles environment) =
          id := by
        funext file
        exact if_pos fails
      rw [nothing, Option.map_id]
      rfl
  | false =>
      rcases findAndRecycleExpiredFiles_progress readable fails with
        ⟨state', done⟩
      rw [done]
      rcases findAndRecycleExpiredFiles_readable readable done with
        ⟨readable', _, contents'⟩
      refine ⟨readable', fun hash => ?_⟩
      have marks : Pass.effect (.findAndRecycleExpiredFiles environment) =
          recycled environment.adjustedTime := by
        funext file
        exact if_neg (by simp [fails])
      rw [contents', marks]

/-- Files outside the first block survive compaction, however it ends. -/
theorem shrink_pass {params : Params} {state : RepositoryState}
    (readable : Readable params state) (environment : Environment)
    (spares : (Pass.shrinkRecycledFiles environment).Spares state) :
    let pass := Pass.shrinkRecycledFiles environment
    Readable params (pass.perform params state) ∧
      ∀ hash, contents params (pass.perform params state) hash =
        (contents params state hash).map pass.effect := by
  have nothing : Pass.effect (.shrinkRecycledFiles environment) = id := rfl
  dsimp only [Pass.perform]
  rw [nothing, Compaction.shrinkRecycledFiles]
  split_ifs with idle
  · exact ⟨readable, fun hash => by rw [Option.map_id]; rfl⟩
  · have elsewhere := spares.resolve_left (by simpa using idle)
    rcases shrinkUnderWriteLock_frame params environment state with
      ⟨index, others⟩
    have old : ∀ hash pos,
        Indexed (shrinkUnderWriteLock params environment state).2 hash pos →
          Indexed state hash pos := by
      intro hash pos indexed
      rw [Indexed, index] at indexed
      exact indexed
    have kept : ∀ hash pos file, Indexed state hash pos →
        HoldsFile params state.disk pos file →
          HoldsFile params
            (shrinkUnderWriteLock params environment state).2.disk pos
            file := by
      rintro hash pos file indexed ⟨admitted, bytes, record, length, content,
        found, here⟩
      refine ⟨admitted, bytes, record, length, content, ?_, here⟩
      rw [others _ (elsewhere hash pos indexed)]
      exact found
    constructor
    · refine readable.restrict old ?_
      intro hash pos indexed
      have before := old hash pos indexed
      rcases readable.held hash pos before with ⟨file, holds, hashes⟩
      exact ⟨file, kept hash pos file before holds, hashes⟩
    · intro hash
      rw [Option.map_id]
      exact contents_congr readable (by rw [index]) (kept hash)

theorem perform_spec {params : Params} {state : RepositoryState}
    (readable : Readable params state) {pass : Pass}
    (spares : pass.Spares state) :
    Readable params (pass.perform params state) ∧
      ∀ hash, contents params (pass.perform params state) hash =
        (contents params state hash).map pass.effect := by
  cases pass with
  | findAndRecycleExpiredFiles environment =>
      exact recycle_pass readable environment
  | shrinkRecycledFiles environment =>
      exact shrink_pass readable environment spares

/-! ## Runs of passes -/

/-- The states after runs of sparing passes, the latest pass first. -/
inductive Later (params : Params) (start : RepositoryState) :
    List Pass → RepositoryState → Prop where
  | start : Later params start [] start
  | pass {passes : List Pass} {state : RepositoryState} (pass : Pass)
      (reached : Later params start passes state)
      (spares : pass.Spares state) :
      Later params start (pass :: passes) (pass.perform params state)

/-- What a run of passes makes of a stored file. -/
def fate (passes : List Pass) (file : CDBFile) : CDBFile :=
  { file with
    removed := file.removed ||
      (!file.isMine && passes.any (Pass.outlives file.fileExpiredDate)) }

theorem fate_cons (pass : Pass) (passes : List Pass) (file : CDBFile) :
    fate (pass :: passes) file = pass.effect (fate passes file) := by
  cases pass with
  | shrinkRecycledFiles environment => rfl
  | findAndRecycleExpiredFiles environment =>
      rcases file with ⟨fileHash, fileExpiredDate, isMine, removed, vBytes⟩
      -- The two sides depend on five truth values only.
      cases before : passes.any (Pass.outlives fileExpiredDate) <;>
        by_cases due : environment.adjustedTime > fileExpiredDate.toNat <;>
        cases fails : environment.openFails <;> cases isMine <;>
        cases removed <;>
        simp only [fate, Pass.effect, recycled, List.any_cons, Pass.outlives,
          before, due, fails] <;> simp

/-- A run changes no file except for marking it in time. -/
theorem contents_later {params : Params} {start state : RepositoryState}
    {passes : List Pass} (readable : Readable params start)
    (later : Later params start passes state) :
    Readable params state ∧
      ∀ hash, contents params state hash =
        (contents params start hash).map (fate passes) := by
  induction later with
  | start =>
      refine ⟨readable, fun hash => ?_⟩
      have same : fate [] = id := by
        funext file
        simp [fate]
      rw [same, Option.map_id]
      rfl
  | pass pass reached spares ih =>
      rcases perform_spec ih.1 spares with ⟨readable', contents'⟩
      refine ⟨readable', fun hash => ?_⟩
      rw [contents', ih.2, Option.map_map]
      congr 1
      funext file
      exact (fate_cons pass _ file).symm

end PrivateDatagram.Repository.Passes
