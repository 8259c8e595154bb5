import Std.Data.ExtTreeMap
import PrivateDatagram.Library.DecimalText
import PrivateDatagram.Wire.Serialize

/-!
# Sporks

A spork message sets a value for the whole network.  Nodes take it when it is
newer than the value they have, and when the holder of the spork key has
signed its text: the id, the value and the time, one after the other.

The check of a signature under the spork key and the hash of a message are
given by the `Surroundings`.
-/

namespace PrivateDatagram.Governance.Sporks

open Library.ByteFormat Library.DecimalText Wire.Serialize

/-! ## Messages -/

structure CSporkMessage where
  vchSig : Bytes
  nSporkID : Int32
  nValue : Int64
  nTimeSigned : Int64
deriving DecidableEq, Repr

/-- The sporks in use. -/
def sporkNames : List (String × Int32) :=
  [("SPORK_2_SWIFTTX", 10001),
    ("SPORK_3_SWIFTTX_BLOCK_FILTERING", 10002),
    ("SPORK_5_MAX_VALUE", 10004),
    ("SPORK_7_MASTERNODE_SCANNING", 10006),
    ("SPORK_8_MASTERNODE_PAYMENT_ENFORCEMENT", 10007),
    ("SPORK_9_MASTERNODE_BUDGET_ENFORCEMENT", 10008),
    ("SPORK_10_MASTERNODE_PAY_UPDATED_NODES", 10009),
    ("SPORK_13_ENABLE_SUPERBLOCKS", 10012),
    ("SPORK_14_NEW_PROTOCOL_ENFORCEMENT", 10013),
    ("SPORK_15_NEW_PROTOCOL_ENFORCEMENT_2", 10014),
    ("SPORK_16_ZEROCOIN_MAINTENANCE_MODE", 10015)]

def getSporkNameByID (id : Int32) : String :=
  match sporkNames.find? fun entry => entry.2 = id with
  | some entry => entry.1
  | none => "Unknown"

/-- The text that `Sign` signs and `CheckSignature` checks. -/
def strMessage (spork : CSporkMessage) : String :=
  toString spork.nSporkID ++ toString spork.nValue ++
    toString spork.nTimeSigned

structure Surroundings where
  fLiteMode : Bool
  /-- `chainActive` has a tip. -/
  hasTip : Bool
  /-- `VerifyMessage` with the public key `Params().SporkKey()`. -/
  verifyMessage : Bytes → String → Bool
  /-- `HashQuark` of id, value and time. -/
  hashQuark : Int32 → Int64 → Int64 → UInt256

def getHash (around : Surroundings) (spork : CSporkMessage) : UInt256 :=
  around.hashQuark spork.nSporkID spork.nValue spork.nTimeSigned

def checkSignature (around : Surroundings) (spork : CSporkMessage)
    (fCheckSigner : Bool) : Bool :=
  let fValidWithNewKey := around.verifyMessage spork.vchSig (strMessage spork)
  if fCheckSigner && !fValidWithNewKey then false else fValidWithNewKey

/-! ## Nodes -/

structure SporkState where
  mapSporks : Std.ExtTreeMap UInt256 CSporkMessage
  mapSporksActive : Std.ExtTreeMap Int32 CSporkMessage
  /-- The records of `pSporkDB`. -/
  sporkDB : Int32 → Option CSporkMessage

/-- What a node does about a message. -/
structure Outcome where
  state : SporkState
  /-- The score that the peer gets for it. -/
  misbehaving : Nat
  relayed : List UInt256
  pushed : List CSporkMessage

inductive Message where
  | spork (spork : CSporkMessage)
  | getsporks

def ignore (state : SporkState) : Outcome :=
  ⟨state, 0, [], []⟩

/-- The end of `ProcessSpork` and the middle of `UpdateSpork`. -/
def store (around : Surroundings) (spork : CSporkMessage)
    (state : SporkState) : SporkState :=
  { state with
    mapSporks := state.mapSporks.insert (getHash around spork) spork
    mapSporksActive := state.mapSporksActive.insert spork.nSporkID spork }

/-- A message `spork` whose id is known and which is not outdated. -/
def processNewSpork (around : Surroundings) (spork : CSporkMessage)
    (state : SporkState) : Outcome :=
  if !checkSignature around spork true then
    ⟨state, 100, [], []⟩
  else if !checkSignature around spork false then
    ⟨state, 100, [], []⟩
  else
    ⟨{ store around spork state with
        sporkDB := Function.update state.sporkDB spork.nSporkID (some spork) },
      0, [getHash around spork], []⟩

def processSpork (around : Surroundings) (message : Message)
    (state : SporkState) : Outcome :=
  if around.fLiteMode then
    ignore state
  else
    match message with
    | .spork spork =>
        if !around.hasTip then
          ignore state
        else if getSporkNameByID spork.nSporkID = "Unknown" then
          ignore state
        else
          match state.mapSporksActive[spork.nSporkID]? with
          | some active =>
              if active.nTimeSigned ≥ spork.nTimeSigned then
                ignore state
              else
                processNewSpork around spork state
          | none => processNewSpork around spork state
    | .getsporks => ⟨state, 0, [], state.mapSporksActive.toList.map (·.2)⟩

/-- The message is stored and relayed. -/
def accepts (around : Surroundings) (spork : CSporkMessage)
    (state : SporkState) : Bool :=
  !(processSpork around (.spork spork) state).relayed.isEmpty

/-! ## The holder of the key -/

/--
The messages that the holder has signed: each passes the checks of the command
`spork`, and a signature verifies only for a text that was signed.
-/
structure Signed (around : Surroundings) (signed : List CSporkMessage) :
    Prop where
  known : ∀ spork ∈ signed, getSporkNameByID spork.nSporkID ≠ "Unknown"
  valid : ∀ spork ∈ signed,
    around.verifyMessage spork.vchSig (strMessage spork) = true
  unforgeable : ∀ vchSig text, around.verifyMessage vchSig text = true →
    ∃ spork ∈ signed, strMessage spork = text

/-- Some signed message has this id, value and time. -/
def Says (signed : List CSporkMessage) (id : Int32) (value time : Int64) :
    Prop :=
  ∃ spork ∈ signed, spork.nSporkID = id ∧ spork.nValue = value ∧
    spork.nTimeSigned = time

def Newer (state : SporkState) (id : Int32) (time : Int64) : Prop :=
  ∀ active, state.mapSporksActive[id]? = some active →
    active.nTimeSigned < time

/--
Digits of a signed message moved between value and time never make a newer
message, unless that one is signed as well.
-/
def Unambiguous (signed : List CSporkMessage) (state : SporkState) : Prop :=
  ∀ spork ∈ signed, ∀ value time : Int64,
    Moved spork.nValue.toInt spork.nTimeSigned.toInt value.toInt time.toInt ∨
      Moved value.toInt time.toInt spork.nValue.toInt
        spork.nTimeSigned.toInt →
    Newer state spork.nSporkID time → Says signed spork.nSporkID value time

/-! ## Ids -/

theorem known_mem {id : Int32} (known : getSporkNameByID id ≠ "Unknown") :
    id ∈ sporkNames.map (·.2) := by
  unfold getSporkNameByID at known
  split at known
  case h_1 entry found =>
    have same := List.find?_some found
    rw [← of_decide_eq_true same]
    exact List.mem_map_of_mem (List.mem_of_find?_eq_some found)
  · exact absurd rfl known

/-- All known ids have five digits. -/
theorem known_length {id : Int32} (known : getSporkNameByID id ≠ "Unknown") :
    (intText id.toInt).length = 5 := by
  have lengths : ∀ entry ∈ sporkNames,
      (intText entry.2.toInt).length = 5 := by
    decide
  obtain ⟨entry, here, rfl⟩ := List.mem_map.mp (known_mem known)
  exact lengths entry here

/-! ## Accepted messages -/

theorem toString_int64 (n : Int64) : (toString n).toList = intText n.toInt :=
  toString_toList n.toInt

theorem toString_int32 (n : Int32) : (toString n).toList = intText n.toInt :=
  toString_toList n.toInt

theorem strMessage_eq_iff {spork other : CSporkMessage} :
    strMessage spork = strMessage other ↔
      intText spork.nSporkID.toInt ++
          (intText spork.nValue.toInt ++ intText spork.nTimeSigned.toInt) =
        intText other.nSporkID.toInt ++
          (intText other.nValue.toInt ++ intText other.nTimeSigned.toInt) := by
  unfold strMessage
  rw [← String.toList_inj]
  simp only [String.toList_append, toString_int64, toString_int32,
    List.append_assoc]

/-- The texts of known sporks leave open where the value ends only. -/
theorem strMessage_known {spork other : CSporkMessage}
    (known : getSporkNameByID spork.nSporkID ≠ "Unknown")
    (otherKnown : getSporkNameByID other.nSporkID ≠ "Unknown") :
    strMessage spork = strMessage other ↔
      spork.nSporkID = other.nSporkID ∧
        ((spork.nValue = other.nValue ∧
            spork.nTimeSigned = other.nTimeSigned) ∨
          Moved spork.nValue.toInt spork.nTimeSigned.toInt
            other.nValue.toInt other.nTimeSigned.toInt ∨
          Moved other.nValue.toInt other.nTimeSigned.toInt
            spork.nValue.toInt spork.nTimeSigned.toInt) := by
  rw [strMessage_eq_iff]
  constructor
  · intro same
    have parts := List.append_inj same
      ((known_length known).trans (known_length otherKnown).symm)
    refine ⟨Int32.toInt_inj.mp (intText_injective parts.1), ?_⟩
    rcases intText_append_eq_iff.mp parts.2 with ⟨value, time⟩ | moved
    · exact .inl ⟨Int64.toInt_inj.mp value, Int64.toInt_inj.mp time⟩
    · exact .inr moved
  · rintro ⟨sameID, readings⟩
    rw [sameID]
    refine congrArg (intText other.nSporkID.toInt ++ ·) ?_
    refine intText_append_eq_iff.mpr ?_
    rcases readings with ⟨value, time⟩ | moved
    · exact .inl ⟨congrArg Int64.toInt value, congrArg Int64.toInt time⟩
    · exact .inr moved

theorem checkSignature_eq (around : Surroundings) (spork : CSporkMessage)
    (fCheckSigner : Bool) :
    checkSignature around spork fCheckSigner =
      around.verifyMessage spork.vchSig (strMessage spork) := by
  unfold checkSignature
  cases fCheckSigner with
  | false => rfl
  | true =>
      cases around.verifyMessage spork.vchSig (strMessage spork) with
      | false => rfl
      | true => rfl

theorem processNewSpork_invalid {around : Surroundings}
    {spork : CSporkMessage} {state : SporkState}
    (invalid : around.verifyMessage spork.vchSig (strMessage spork) = false) :
    processNewSpork around spork state = ⟨state, 100, [], []⟩ := by
  unfold processNewSpork
  rw [checkSignature_eq, invalid]
  rfl

theorem processNewSpork_valid {around : Surroundings}
    {spork : CSporkMessage} {state : SporkState}
    (valid : around.verifyMessage spork.vchSig (strMessage spork) = true) :
    processNewSpork around spork state =
      ⟨{ store around spork state with
          sporkDB :=
            Function.update state.sporkDB spork.nSporkID (some spork) },
        0, [getHash around spork], []⟩ := by
  unfold processNewSpork
  rw [checkSignature_eq, checkSignature_eq, valid]
  rfl

theorem processNewSpork_relayed {around : Surroundings}
    {spork : CSporkMessage} {state : SporkState} :
    (!(processNewSpork around spork state).relayed.isEmpty) = true ↔
      around.verifyMessage spork.vchSig (strMessage spork) = true := by
  cases verifies : around.verifyMessage spork.vchSig (strMessage spork) with
  | false =>
      rw [processNewSpork_invalid verifies]
      exact iff_of_false nofun nofun
  | true =>
      rw [processNewSpork_valid verifies]
      exact iff_of_true rfl rfl

/-- A message is either stored and relayed, or changes nothing. -/
theorem processSpork_stores (around : Surroundings) (spork : CSporkMessage)
    (state : SporkState) :
    accepts around spork state = true ∨
      (processSpork around (.spork spork) state).state = state := by
  have new : (!(processNewSpork around spork state).relayed.isEmpty) = true ∨
      (processNewSpork around spork state).state = state := by
    cases verifies : around.verifyMessage spork.vchSig (strMessage spork) with
    | false =>
        rw [processNewSpork_invalid verifies]
        exact .inr rfl
    | true => exact .inl (processNewSpork_relayed.mpr verifies)
  unfold accepts processSpork
  split
  · exact .inr rfl
  · dsimp only
    split
    · exact .inr rfl
    · split
      · exact .inr rfl
      · split
        · split
          · exact .inr rfl
          · exact new
        · exact new

theorem accepts_iff {around : Surroundings} {spork : CSporkMessage}
    {state : SporkState} :
    accepts around spork state = true ↔
      around.fLiteMode = false ∧ around.hasTip = true ∧
        getSporkNameByID spork.nSporkID ≠ "Unknown" ∧
        Newer state spork.nSporkID spork.nTimeSigned ∧
        around.verifyMessage spork.vchSig (strMessage spork) = true := by
  unfold accepts processSpork
  split
  case isTrue lite =>
    refine iff_of_false nofun ?_
    rintro ⟨full, _⟩
    rw [lite] at full
    cases full
  case isFalse full =>
    dsimp only
    split
    case isTrue noTip =>
      refine iff_of_false nofun ?_
      rintro ⟨_, tip, _⟩
      rw [tip] at noTip
      cases noTip
    case isFalse tip =>
      split
      case isTrue unknown =>
        exact iff_of_false nofun fun ⟨_, _, known, _⟩ => known unknown
      case isFalse known =>
        have first : around.fLiteMode = false ∧ around.hasTip = true :=
          ⟨Bool.eq_false_iff.mpr full, by simpa using tip⟩
        split
        case h_1 active found =>
          split
          case isTrue outdated =>
            refine iff_of_false nofun ?_
            rintro ⟨_, _, _, newer, _⟩
            exact Int64.not_lt.mpr outdated (newer active found)
          case isFalse newer =>
            rw [processNewSpork_relayed]
            refine ⟨fun verifies => ?_, fun all => all.2.2.2.2⟩
            refine ⟨first.1, first.2, known, ?_, verifies⟩
            intro other here
            cases found.symm.trans here
            exact Int64.not_le.mp newer
        case h_2 missing =>
          rw [processNewSpork_relayed]
          refine ⟨fun verifies => ?_, fun all => all.2.2.2.2⟩
          refine ⟨first.1, first.2, known, ?_, verifies⟩
          intro other here
          cases missing.symm.trans here

/--
A node accepts only what the holder of the key has signed exactly when no
signed message can be read in another way that is newer than the value the
node has.
-/
theorem only_signed_accepted_iff (around : Surroundings)
    (signed : List CSporkMessage) (state : SporkState)
    (isSigned : Signed around signed) :
    (∀ spork, accepts around spork state = true →
      Says signed spork.nSporkID spork.nValue spork.nTimeSigned) ↔
      (around.fLiteMode = true ∨ around.hasTip = false ∨
        Unambiguous signed state) := by
  constructor
  · intro obeys
    cases full : around.fLiteMode with
    | true => exact .inl rfl
    | false =>
        cases tip : around.hasTip with
        | false => exact .inr (.inl rfl)
        | true =>
            refine .inr (.inr ?_)
            intro spork here value time moved newer
            have known := isSigned.known spork here
            refine obeys ⟨spork.vchSig, spork.nSporkID, value, time⟩ ?_
            refine accepts_iff.mpr ⟨full, tip, known, newer, ?_⟩
            have same : strMessage spork =
                strMessage ⟨spork.vchSig, spork.nSporkID, value, time⟩ := by
              refine Iff.mpr (strMessage_known known ?_) ⟨rfl, .inr moved⟩
              exact known
            rw [← same]
            exact isSigned.valid spork here
  · intro condition spork accepted
    rcases accepts_iff.mp accepted with ⟨full, tip, known, newer, verifies⟩
    rcases isSigned.unforgeable _ _ verifies with ⟨source, here, same⟩
    rcases (strMessage_known (isSigned.known source here) known).mp same with
      ⟨sameID, ⟨value, time⟩ | moved⟩
    · exact ⟨source, here, sameID, value, time⟩
    · rcases condition with lite | noTip | unambiguous
      · rw [full] at lite
        cases lite
      · rw [tip] at noTip
        cases noTip
      · rw [← sameID] at newer ⊢
        exact unambiguous source here _ _ moved newer

/-! ### A spork turned on by its digits -/

/-- A node that knows the text of one signed message. -/
def sampleAround (text : String) : Surroundings where
  fLiteMode := false
  hasTip := true
  verifyMessage := fun vchSig other => vchSig = [1] && other = text
  hashQuark := fun _ _ _ => 0

def emptyState : SporkState :=
  ⟨∅, ∅, fun _ => none⟩

theorem signed_single {spork : CSporkMessage}
    (known : getSporkNameByID spork.nSporkID ≠ "Unknown")
    (vchSig : spork.vchSig = [1]) :
    Signed (sampleAround (strMessage spork)) [spork] := by
  constructor
  · intro other here
    rwa [List.mem_singleton.mp here]
  · intro other here
    rw [List.mem_singleton.mp here]
    simp [sampleAround, vchSig]
  · intro vchSig text verifies
    refine ⟨spork, List.mem_singleton_self _, ?_⟩
    have both := Bool.and_eq_true_iff.mp verifies
    exact (of_decide_eq_true both.2).symm

/-- Payment enforcement is off: its value is a date in 2099. -/
def enforcementOff : CSporkMessage :=
  ⟨[1], 10007, 4070908800, 1546300800⟩

/-- The same text, read as a date in 1970 that is signed in the future. -/
def enforcementOn : CSporkMessage :=
  ⟨[1], 10007, 4070908, 8001546300800⟩

theorem same_strMessage :
    strMessage enforcementOn = strMessage enforcementOff := by
  refine (strMessage_known (by decide) (by decide)).mpr ⟨rfl, .inr (.inl ?_)⟩
  refine ⟨by decide, 800, 1546300800, by decide, ?_, rfl, ?_⟩
  · decide
  · decide

def oneDigit : CSporkMessage :=
  ⟨[1], 10001, 1, 2⟩

/-- A value and a time of one digit cannot be read in another way. -/
theorem only_signed_accepted_oneDigit :
    Unambiguous [oneDigit] emptyState ∧
      ∀ spork,
        accepts (sampleAround (strMessage oneDigit)) spork emptyState =
          true →
        Says [oneDigit] spork.nSporkID spork.nValue spork.nTimeSigned := by
  have unambiguous : Unambiguous [oneDigit] emptyState := by
    intro spork here value time moved
    rw [List.mem_singleton.mp here] at moved
    rcases moved with timeMoved | valueMoved
    · exact absurd timeMoved.second_large (by decide)
    · exact absurd valueMoved.first_large (by decide)
  have isSigned := signed_single (by decide : getSporkNameByID
    oneDigit.nSporkID ≠ "Unknown") rfl
  exact ⟨unambiguous, (only_signed_accepted_iff _ _ _ isSigned).mpr
    (.inr (.inr unambiguous))⟩

theorem unsigned_value_accepted :
    ¬ ∀ (around : Surroundings) (signed : List CSporkMessage)
      (state : SporkState), Signed around signed →
        ∀ spork, accepts around spork state = true →
          Says signed spork.nSporkID spork.nValue spork.nTimeSigned := by
  intro obeys
  have accepted : accepts (sampleAround (strMessage enforcementOff))
      enforcementOn emptyState = true := by
    refine accepts_iff.mpr ⟨rfl, rfl, by decide, ?_, ?_⟩
    · intro active impossible
      cases impossible
    · rw [same_strMessage]
      simp [sampleAround, enforcementOn]
  rcases obeys _ [enforcementOff] _ (signed_single (by decide) rfl) _ accepted
    with ⟨spork, here, _, value, _⟩
  rw [List.mem_singleton.mp here] at value
  exact absurd value (by decide)

end PrivateDatagram.Governance.Sporks
