import PrivateDatagram.Governance.Sporks

/-!
# Sporks over time

Peers send sporks in any order and any number of times, and a node that starts
again takes what `pSporkDB` has.  Where a node does not hold the spork key,
nothing matters but which valid sporks it has seen.
-/

namespace PrivateDatagram.Governance.SporkSync

open Sporks

def loadSpork (around : Surroundings) (state : SporkState) (i : Int32) :
    SporkState :=
  if getSporkNameByID i = "Unknown" then
    state
  else
    match state.sporkDB i with
    | none => state
    | some spork => store around spork state

/-- From `SPORK_START` to `SPORK_END`. -/
def sporkRange : List Int32 :=
  (List.range 15).map fun i => Int32.ofNat (10001 + i)

def loadSporksFromDB (around : Surroundings) (state : SporkState) :
    SporkState :=
  sporkRange.foldl (loadSpork around) state

/-! ## Runs -/

inductive Event where
  /-- A message, and whether `chainActive` has a tip then. -/
  | message (hasTip : Bool) (message : Message)
  | restart

/-- The state after these events, the latest first. -/
def run (around : Surroundings) : List Event → SporkState
  | [] => emptyState
  | .message hasTip message :: before =>
      (processSpork { around with hasTip } message (run around before)).state
  | .restart :: before =>
      loadSporksFromDB around ⟨∅, ∅, (run around before).sporkDB⟩

def valid (around : Surroundings) (spork : CSporkMessage) : Bool :=
  !around.fLiteMode && getSporkNameByID spork.nSporkID ≠ "Unknown" &&
    around.verifyMessage spork.vchSig (strMessage spork)

/-- The valid sporks that a node with a tip got, the latest first. -/
def seen (around : Surroundings) : List Event → List CSporkMessage
  | [] => []
  | .message true (.spork spork) :: before =>
      if valid around spork then spork :: seen around before
      else seen around before
  | _ :: before => seen around before

/-- The newest spork with an id, and the first of several. -/
def newestSpork (id : Int32) : List CSporkMessage → Option CSporkMessage
  | [] => none
  | spork :: before =>
      if spork.nSporkID = id then
        match newestSpork id before with
        | none => some spork
        | some active =>
            if active.nTimeSigned < spork.nTimeSigned then some spork
            else some active
      else
        newestSpork id before

theorem newestSpork_spec (id : Int32) (sporks : List CSporkMessage) :
    match newestSpork id sporks with
    | none => ∀ spork ∈ sporks, spork.nSporkID ≠ id
    | some active => active ∈ sporks ∧ active.nSporkID = id ∧
        ∀ spork ∈ sporks, spork.nSporkID = id →
          spork.nTimeSigned ≤ active.nTimeSigned := by
  induction sporks with
  | nil => exact nofun
  | cons spork before ih =>
      rw [newestSpork]
      cases found : newestSpork id before with
      | none => grind
      | some active => grind

/-! ## Restarts -/

theorem getElem?_store (around : Surroundings) (spork : CSporkMessage)
    (state : SporkState) (id : Int32) :
    (store around spork state).mapSporksActive[id]? =
      if spork.nSporkID = id then some spork
      else state.mapSporksActive[id]? := by
  simp only [store, Std.ExtTreeMap.getElem?_insert,
    Std.LawfulEqOrd.compare_eq_iff_eq]

/-- The spork that is stored under an id has that id. -/
def OwnIDs (state : SporkState) : Prop :=
  ∀ id spork, state.sporkDB id = some spork → spork.nSporkID = id

theorem getElem?_loadSpork {around : Surroundings} {state : SporkState}
    (own : OwnIDs state) (i id : Int32) :
    (loadSpork around state i).mapSporksActive[id]? =
      if i = id ∧ getSporkNameByID id ≠ "Unknown" then
        (state.sporkDB id).or state.mapSporksActive[id]?
      else
        state.mapSporksActive[id]? := by
  unfold loadSpork
  cases found : state.sporkDB i with
  | none => grind
  | some spork => grind [getElem?_store, own i spork found]

theorem loadSpork_sporkDB (around : Surroundings) (state : SporkState)
    (i : Int32) : (loadSpork around state i).sporkDB = state.sporkDB := by
  unfold loadSpork
  split
  · rfl
  · split <;> rfl

theorem getElem?_foldl_loadSpork {around : Surroundings} {state : SporkState}
    (own : OwnIDs state) (ids : List Int32) (id : Int32) :
    (ids.foldl (loadSpork around) state).sporkDB = state.sporkDB ∧
      (ids.foldl (loadSpork around) state).mapSporksActive[id]? =
        if id ∈ ids ∧ getSporkNameByID id ≠ "Unknown" then
          (state.sporkDB id).or state.mapSporksActive[id]?
        else
          state.mapSporksActive[id]? := by
  induction ids generalizing state with
  | nil => simp
  | cons i rest ih =>
      have kept := loadSpork_sporkDB around state i
      rcases ih (fun id => by rw [kept]; exact own id) with ⟨database, rest⟩
      refine ⟨database.trans kept, rest.trans ?_⟩
      rw [kept, getElem?_loadSpork own]
      cases state.sporkDB id <;> grind

/-! ## Convergence -/

/-- What a message does to a node. -/
theorem processSpork_eq (around : Surroundings) (spork : CSporkMessage)
    (state : SporkState) :
    (processSpork around (.spork spork) state).state =
      if accepts around spork state then
        { store around spork state with
          sporkDB :=
            Function.update state.sporkDB spork.nSporkID (some spork) }
      else
        state := by
  split
  case isFalse ignored =>
    exact (processSpork_stores around spork state).resolve_left ignored
  case isTrue accepted =>
    rcases accepts_iff.mp accepted with ⟨full, tip, known, newer, signed⟩
    unfold processSpork
    rw [if_neg (by simp [full])]
    dsimp only
    rw [if_neg (by simp [tip]), if_neg known]
    split
    case h_1 active found =>
      rw [if_neg (Int64.not_le.mpr (newer active found)),
        processNewSpork_valid signed]
    case h_2 => rw [processNewSpork_valid signed]

theorem newestSpork_seen {around : Surroundings} {events : List Event}
    {id : Int32} {spork : CSporkMessage}
    (newest : newestSpork id (seen around events) = some spork) :
    spork.nSporkID = id ∧ getSporkNameByID id ≠ "Unknown" := by
  have spec := newestSpork_spec id (seen around events)
  rw [newest] at spec
  rcases spec with ⟨member, own, -⟩
  refine ⟨own, own ▸ ?_⟩
  clear newest
  induction events with
  | nil => cases member
  | cons event before ih =>
      unfold seen at member
      grind [valid]

/-- The node has the newest sporks that it has seen, on the disk too. -/
def Newest (around : Surroundings) (events : List Event) (state : SporkState) :
    Prop :=
  ∀ id, state.mapSporksActive[id]? = newestSpork id (seen around events) ∧
    state.sporkDB id = newestSpork id (seen around events)

theorem Newest.restart {around : Surroundings} {before : List Event}
    {state : SporkState} (newest : Newest around before state) :
    Newest around (.restart :: before)
      (loadSporksFromDB around ⟨∅, ∅, state.sporkDB⟩) := by
  intro id
  have own : OwnIDs ⟨∅, ∅, state.sporkDB⟩ := fun id spork found =>
    (newestSpork_seen ((newest id).2.symm.trans found)).1
  have loaded := @getElem?_foldl_loadSpork around _ own sporkRange id
  rw [loadSporksFromDB, loaded.1, loaded.2]
  change _ = newestSpork id (seen around before) ∧ _
  refine ⟨?_, (newest id).2⟩
  have all : ∀ entry ∈ sporkNames, entry.2 ∈ sporkRange := by decide
  cases found : newestSpork id (seen around before) with
  | none => simp [(newest id).2, found]
  | some spork =>
      have known := (newestSpork_seen found).2
      rcases List.mem_map.mp (known_mem known) with ⟨entry, here, same⟩
      rw [if_pos ⟨same ▸ all entry here, known⟩, (newest id).2, found]
      rfl

theorem Newest.spork {around : Surroundings} {before : List Event}
    {state : SporkState} (newest : Newest around before state)
    (hasTip : Bool) (spork : CSporkMessage) :
    Newest around (.message hasTip (.spork spork) :: before)
      (processSpork { around with hasTip } (.spork spork) state).state := by
  intro id
  have now : seen around (.message hasTip (.spork spork) :: before) =
      if hasTip ∧ valid around spork then spork :: seen around before
      else seen around before := by
    cases hasTip <;> cases okay : valid around spork <;> simp [seen, okay]
  have accepted : accepts { around with hasTip } spork state = true ↔
      (hasTip ∧ valid around spork) ∧
        Newer state spork.nSporkID spork.nTimeSigned := by
    rw [accepts_iff]
    simp only [valid]
    grind
  have saved := (newest id).2.trans (newest id).1.symm
  rw [processSpork_eq, now]
  split
  case isTrue accept =>
    rcases accepted.mp accept with ⟨both, newer⟩
    have later := newer
    dsimp only [Newer] at later
    rw [if_pos both, newestSpork, ← (newest id).1, getElem?_store]
    dsimp only
    rw [Function.update_apply, saved]
    cases found : state.mapSporksActive[id]? <;> grind
  case isFalse ignore =>
    rw [saved]
    split
    case isTrue both =>
      rw [newestSpork, ← (newest id).1]
      have old : ¬ Newer state spork.nSporkID spork.nTimeSigned :=
        fun newer => ignore (accepted.mpr ⟨both, newer⟩)
      simp only [Newer, not_forall] at old
      rcases old with ⟨active, found, enough⟩
      grind
    case isFalse => exact ⟨(newest id).1, (newest id).1⟩

/-- In every run, each spork is the newest one that was seen. -/
theorem active_newest (around : Surroundings) (events : List Event) :
    Newest around events (run around events) := by
  induction events with
  | nil => exact fun id => ⟨Std.ExtTreeMap.getElem?_empty, rfl⟩
  | cons event before ih =>
      cases event with
      | restart => exact ih.restart
      | message hasTip message =>
          cases message with
          | spork spork => exact ih.spork hasTip spork
          | getsporks =>
              have same : (processSpork { around with hasTip } .getsporks
                  (run around before)).state = run around before := by
                unfold processSpork
                split <;> rfl
              rw [run, same]
              cases hasTip <;> exact ih

end PrivateDatagram.Governance.SporkSync
