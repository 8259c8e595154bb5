import Mathlib.Data.List.GetD
import PrivateDatagram.Chainstate.ActiveChain
import PrivateDatagram.Library.BranchRecords
import PrivateDatagram.Validation.ZerocoinScripts

/-!
# The supply of zerocoins

`UpdateZPIVSupply` keeps in the index entry of a block how many coins of each
denomination there are after it, and which denominations it mints.
`ConnectBlock` calls it each time the block is connected, and the entry keeps
what an earlier call left in it.  `RecalculateZPIVMinted` and
`RecalculateZPIVSpent` compute the same entries from the blocks on disk.

An entry is known by the list of the blocks from it back to genesis.  Reading
blocks from disk succeeds.  `ValidOutPoint` and the list of invalid serials
filter nothing out.  A chain has fewer than 2^31 blocks of at most two
megabytes, so that no count of coins leaves the range of `int64_t`: counts are
integers.
-/

namespace PrivateDatagram.Chainstate.ZerocoinSupply

open Wire.Transaction Wire.Script Library.ForkPoint Library.BranchRecords
open Chainstate.Coins (isZerocoinMintTx isZerocoinSpendTx)
open Chainstate.ActiveChain (CBlockHeader getMedianTimePast)
open Chainstate.Accumulators (Denomination zerocoinDenomList)
open Consensus.ProofOfStake
  (CoinDenomination zerocoinStartHeight)
open Validation.ZerocoinScripts
  (Library Interruption txOutToPublicCoin txInToZerocoinSpend)

/-! ## Mints and spends of a block -/

/-- The loop of `BlockToZerocoinMintList` over the outputs, and whether it got
to the end. -/
def mintsOfOutputs (library : Library) :
    List CTxOut → Except Interruption (List CoinDenomination × Bool)
  | [] => .ok ([], true)
  | txOut :: rest =>
      if !isZerocoinMint txOut.scriptPubKey then
        mintsOfOutputs library rest
      else
        match txOutToPublicCoin library txOut with
        | .error (.failure .outOfRange) => .error (.failure .outOfRange)
        | .error .exception => .error .exception
        -- `return false`
        | .error (.failure _) => .ok ([], false)
        | .ok pubCoin => do
            let (later, finished) ← mintsOfOutputs library rest
            .ok (pubCoin.denomination :: later, finished)

/-- What `BlockToZerocoinMintList` puts into the list and returns. -/
def blockToZerocoinMintList (library : Library) :
    List CTransaction → Except Interruption (List CoinDenomination × Bool)
  | [] => .ok ([], true)
  | tx :: rest =>
      if !isZerocoinMintTx tx then
        blockToZerocoinMintList library rest
      else do
        let (mints, finished) ← mintsOfOutputs library tx.vout
        if !finished then
          .ok (mints, false)
        else
          let (later, finished) ← blockToZerocoinMintList library rest
          .ok (mints ++ later, finished)

def intToZerocoinDenomination (amount : Int64) : CoinDenomination :=
  match zerocoinDenomList.find? fun denomination =>
      denomination.val.toInt64 = amount with
  | some denomination => denomination.val
  | none => .error

/-- The loop of `ZerocoinSpendListFromBlock` over the inputs. -/
def spendsOfInputs (library : Library) :
    List CTxIn → Except Interruption (List CoinDenomination)
  | [] => .ok []
  | txin :: rest =>
      if !isZerocoinSpend txin.scriptSig then
        spendsOfInputs library rest
      else do
        let _ ← txInToZerocoinSpend library txin
        let later ← spendsOfInputs library rest
        .ok (intToZerocoinDenomination txin.nSequence.toUInt64.toInt64 :: later)

def zerocoinSpendListFromBlock (library : Library) :
    List CTransaction → Except Interruption (List CoinDenomination)
  | [] => .ok []
  | tx :: rest =>
      match isZerocoinSpendTx tx with
      | none => .error (.failure .outOfRange)
      | some false => zerocoinSpendListFromBlock library rest
      | some true => do
          let spends ← spendsOfInputs library tx.vin
          let later ← zerocoinSpendListFromBlock library rest
          .ok (spends ++ later)

/-! ## Entries -/

abbrev Supply := Denomination → Int

/-- What the entry of a block has about zerocoins. -/
structure CBlockIndex where
  mapZerocoinSupply : Supply
  vMintDenominationsInBlock : List CoinDenomination

/-- `SetNull`. -/
def CBlockIndex.null : CBlockIndex := ⟨fun _ => 0, []⟩

/-- Add to `mapZerocoinSupply.at(denom)`. -/
def CBlockIndex.add (denom : Denomination) (amount : Int)
    (pindex : CBlockIndex) : CBlockIndex :=
  { pindex with
    mapZerocoinSupply := Function.update pindex.mapZerocoinSupply denom
      (pindex.mapZerocoinSupply denom + amount) }

/-- The loop over the mints, and whether no `at` threw. -/
def addMints : List CoinDenomination → CBlockIndex → CBlockIndex × Bool
  | [], pindex => (pindex, true)
  | denom :: rest, pindex =>
      let pindex :=
        { pindex with
          vMintDenominationsInBlock :=
            pindex.vMintDenominationsInBlock ++ [denom] }
      if known : denom = .error then
        (pindex, false)
      else
        addMints rest (pindex.add ⟨denom, known⟩ 1)

/-- The loop over the spends; no result where `at` throws. -/
def removeSpends :
    List CoinDenomination → CBlockIndex → CBlockIndex × Option Bool
  | [], pindex => (pindex, some true)
  | denom :: rest, pindex =>
      if known : denom = .error then
        (pindex, none)
      else
        let pindex := pindex.add ⟨denom, known⟩ (-1)
        -- zerocoin failsafe
        if pindex.mapZerocoinSupply ⟨denom, known⟩ < 0 then
          (pindex, some false)
        else
          removeSpends rest pindex

/--
`UpdateZPIVSupply`, given the version of the parent and its entry: what is left
in the entry, and what is returned unless an exception leaves the function.
-/
def updateZPIVSupply (library : Library) (vtx : List CTransaction)
    (pprev : Option (Int32 × CBlockIndex)) (pindex : CBlockIndex) :
    CBlockIndex × Option Bool :=
  match blockToZerocoinMintList library vtx,
      zerocoinSpendListFromBlock library vtx with
  | .ok (listMints, _), .ok listSpends =>
      match pprev with
      | none => ({ pindex with vMintDenominationsInBlock := [] }, some true)
      | some (nVersion, previous) =>
          let pindex :=
            if nVersion > 3 then
              { pindex with mapZerocoinSupply := previous.mapZerocoinSupply }
            else
              pindex
          match addMints listMints
              { pindex with vMintDenominationsInBlock := [] } with
          | (pindex, false) => (pindex, none)
          | (pindex, true) => removeSpends listSpends pindex
  | _, _ => (pindex, none)

/-! ## Recalculating -/

structure CBlock where
  header : CBlockHeader
  vtx : List CTransaction
deriving DecidableEq

/-- An entry with everything behind `pprev`. -/
abbrev Branch := List CBlock

/-- One round of `RecalculateZPIVMinted`. -/
def rewriteMinted (library : Library) (part : Branch)
    (_pprev pindex : CBlockIndex) : Option CBlockIndex :=
  match part with
  | [] => none
  | block :: _ =>
      match blockToZerocoinMintList library block.vtx with
      | .error _ => none
      | .ok (listMints, _) =>
          some { pindex with vMintDenominationsInBlock := listMints }

/-- The last loop of a round of `RecalculateZPIVSpent`. -/
def takeSpends : List CoinDenomination → Supply → Option Supply
  | [], supply => some supply
  | denom :: rest, supply =>
      if known : denom = .error then
        none
      else
        takeSpends rest (Function.update supply ⟨denom, known⟩
          (supply ⟨denom, known⟩ - 1))

/-- One round of `RecalculateZPIVSpent`. -/
def rewriteSpent (library : Library) (part : Branch)
    (pprev pindex : CBlockIndex) : Option CBlockIndex :=
  match part with
  | [] => none
  | block :: _ =>
      match zerocoinSpendListFromBlock library block.vtx with
      | .error _ => none
      | .ok listDenomsSpent =>
          let supply := fun denom : Denomination =>
            pprev.mapZerocoinSupply denom +
              pindex.vMintDenominationsInBlock.count denom.val
          (takeSpends listDenomsSpent supply).map fun supply =>
            { pindex with mapZerocoinSupply := supply }

/--
`RecalculateZPIVMinted` and then `RecalculateZPIVSpent`, from the block at the
start height up to the tip; nothing where an exception leaves them.
-/
def recalculate (library : Library) (chainActive : Branch)
    (entries : Branch → CBlockIndex) : Option (Branch → CBlockIndex) :=
  (rewriteAll (rewriteMinted library) (above zerocoinStartHeight chainActive)
    entries).bind
      (rewriteAll (rewriteSpent library)
        (above zerocoinStartHeight chainActive))

/-! ## Headers -/

/-- The chain starts after zerocoins do, with a block of the new version. -/
structure ChainParams where
  nZerocoinStartTime : Nat
  genesis : CBlock
  startsLater : nZerocoinStartTime < genesis.header.nTime.toNat
  genesisVersion : genesis.header.nVersion = 4

def mainParams (vtx : List CTransaction) : ChainParams where
  nZerocoinStartTime := 1542895000
  genesis :=
    ⟨⟨0x00000b66902fa94232df668afd3b3805feef0b345a28db9911554853be459b1b, 0, 4,
      1544097000, 0x1e0ffff0⟩, vtx⟩
  startsLater :=
    show 1542895000 < (1544097000 : UInt32).toNat by decide
  genesisVersion := rfl

def testNetParams (vtx : List CTransaction) : ChainParams where
  nZerocoinStartTime := 1542895001
  genesis :=
    ⟨⟨0x00000e4e1b6b9238a5c25e36b71ebbde1d434ae6bfd620d6b133d7f4c4de4809, 0, 4,
      1544097001, 0x1e0ffff0⟩, vtx⟩
  startsLater :=
    show 1542895001 < (1544097001 : UInt32).toNat by decide
  genesisVersion := rfl

def regTestParams (vtx : List CTransaction) : ChainParams where
  nZerocoinStartTime := 1542895001
  genesis :=
    ⟨⟨0x2fee4a09d44f965cc8b71509b34c57e0d23c759006370222d7c14cb343e0aadd, 0, 4,
      1544097002, 0x207fffff⟩, vtx⟩
  startsLater :=
    show 1542895001 < (1544097002 : UInt32).toNat by decide
  genesisVersion := rfl

/-- `Params().Zerocoin_HeaderVersion()`. -/
def zerocoinHeaderVersion : Int32 := 4

/-- The version check of `CheckBlockHeader`. -/
def checkVersion (params : ChainParams) (block : CBlockHeader) : Bool :=
  if block.nTime.toNat > params.nZerocoinStartTime then
    !(block.nVersion < zerocoinHeaderVersion)
  else
    !(block.nVersion ≥ zerocoinHeaderVersion)

/-- The checks of time and version of `ContextualCheckBlockHeader`. -/
def contextualCheck (block : CBlockHeader) (pindexPrev : Branch) : Bool :=
  !(block.nTime.toNat ≤
      getMedianTimePast (pindexPrev.map fun block => ⟨block.header, 0⟩)) &&
    !(block.nVersion < 2) && !(block.nVersion < 3)

/-! ## Runs -/

structure State where
  mapBlockIndex : List Branch
  chainActive : Branch
  /-- The entries, which stay when a block is disconnected. -/
  entry : Branch → CBlockIndex

inductive Event where
  /-- `AcceptBlockHeader`, with the verdict of its other checks. -/
  | acceptBlockHeader (block : CBlock) (pindexPrev : Branch) (valid : Bool)
  /--
  `ConnectTip`, with the verdicts of the checks of `ConnectBlock` before and
  behind `UpdateZPIVSupply`.
  -/
  | connectTip (block : CBlock) (before behind : Bool)
  | disconnectTip
  /-- `VerifyDB` connects a block of the active chain again. -/
  | verifyBlock (pindex : Branch) (before : Bool)
  /-- The option `-reindexmoneysupply`. -/
  | reindexMoneySupply

section Operations

variable (library : Library) (params : ChainParams)

/-- The parent as `UpdateZPIVSupply` sees it. -/
def parentOf (entry : Branch → CBlockIndex) (pprev : Branch) :
    Option (Int32 × CBlockIndex) :=
  match pprev with
  | [] => none
  | newest :: _ => some (newest.header.nVersion, entry pprev)

/-- `UpdateZPIVSupply` on the entry of a block. -/
def updateEntry (entry : Branch → CBlockIndex) (block : CBlock)
    (pprev : Branch) : CBlockIndex × Option Bool :=
  updateZPIVSupply library block.vtx (parentOf entry pprev)
    (entry (block :: pprev))

def step (state : State) : Event → State
  | .acceptBlockHeader block pindexPrev valid =>
      if pindexPrev ∈ state.mapBlockIndex ∧ valid = true ∧
          checkVersion params block.header = true ∧
          contextualCheck block.header pindexPrev = true then
        { state with
          mapBlockIndex := (block :: pindexPrev) :: state.mapBlockIndex }
      else
        state
  | .connectTip block before behind =>
      let pindex := block :: state.chainActive
      if pindex ∈ state.mapBlockIndex ∧ before = true then
        let (pindexNew, result) :=
          updateEntry library state.entry block state.chainActive
        { state with
          entry := Function.update state.entry pindex pindexNew
          chainActive :=
            if result = some true ∧ behind = true then pindex
            else state.chainActive }
      else
        state
  | .disconnectTip =>
      match state.chainActive with
      | _ :: previous :: older =>
          { state with chainActive := previous :: older }
      | _ => state
  | .verifyBlock pindex before =>
      match pindex with
      | block :: previous :: older =>
          if pindex <:+ state.chainActive ∧ before = true then
            { state with
              entry := Function.update state.entry pindex
                (updateEntry library state.entry block (previous :: older)).1 }
          else
            state
      | _ => state
  | .reindexMoneySupply =>
      -- only with a tip above the start height
      if zerocoinStartHeight + 1 < state.chainActive.length then
        match recalculate library state.chainActive state.entry with
        | none => state
        | some entry => { state with entry := entry }
      else
        state

/-- A node that has only the genesis block. -/
def genesisState : State where
  mapBlockIndex := [[params.genesis]]
  chainActive := [params.genesis]
  entry := fun _ => .null

def run (events : List Event) : State :=
  events.foldl (step library params) (genesisState params)

end Operations

/-! ## What the loops compute -/

/-- The supply with the coins of a list added. -/
def withMints (mints : List CoinDenomination) (supply : Supply) : Supply :=
  fun denom => supply denom + mints.count denom.val

def withoutSpends (spends : List CoinDenomination) (supply : Supply) :
    Supply :=
  fun denom => supply denom - spends.count denom.val

theorem withMints_cons {denom : CoinDenomination} (known : denom ≠ .error)
    (rest : List CoinDenomination) (pindex : CBlockIndex) :
    withMints rest (pindex.add ⟨denom, known⟩ 1).mapZerocoinSupply =
      withMints (denom :: rest) pindex.mapZerocoinSupply := by
  funext other
  by_cases same : other = ⟨denom, known⟩
  · subst same
    simp only [withMints, CBlockIndex.add, Function.update_self,
      List.count_cons_self]
    omega
  · have apart : denom ≠ other.val := by
      rintro rfl
      exact same rfl
    simp only [withMints, CBlockIndex.add, Function.update_of_ne same,
      List.count_cons_of_ne apart]

theorem withoutSpends_update {denom : CoinDenomination}
    (known : denom ≠ .error) (rest : List CoinDenomination)
    (supply : Supply) :
    withoutSpends rest
        (Function.update supply ⟨denom, known⟩ (supply ⟨denom, known⟩ - 1)) =
      withoutSpends (denom :: rest) supply := by
  funext other
  by_cases same : other = ⟨denom, known⟩
  · subst same
    simp only [withoutSpends, Function.update_self, List.count_cons_self]
    omega
  · have apart : denom ≠ other.val := by
      rintro rfl
      exact same rfl
    simp only [withoutSpends, Function.update_of_ne same,
      List.count_cons_of_ne apart]

theorem addMints_iff {mints : List CoinDenomination}
    {pindex result : CBlockIndex} :
    addMints mints pindex = (result, true) ↔
      CoinDenomination.error ∉ mints ∧
        result = ⟨withMints mints pindex.mapZerocoinSupply,
          pindex.vMintDenominationsInBlock ++ mints⟩ := by
  induction mints generalizing pindex with
  | nil =>
      rw [addMints, List.append_nil]
      have same : withMints [] pindex.mapZerocoinSupply =
          pindex.mapZerocoinSupply := by
        funext denom
        exact Int.add_zero _
      rw [same, Prod.mk.injEq]
      constructor
      · rintro ⟨rfl, _⟩
        exact ⟨List.not_mem_nil, rfl⟩
      · rintro ⟨_, rfl⟩
        exact ⟨rfl, rfl⟩
  | cons denom rest ih =>
      rw [addMints, List.mem_cons]
      split_ifs with known
      · constructor
        · rintro ⟨⟩
        · rintro ⟨all, _⟩
          exact absurd (Or.inl known.symm) all
      · rw [ih, withMints_cons known, not_or]
        constructor
        · rintro ⟨all, rfl⟩
          refine ⟨⟨Ne.symm known, all⟩, ?_⟩
          simp only [CBlockIndex.add, List.append_assoc, List.singleton_append]
        · rintro ⟨⟨_, all⟩, rfl⟩
          refine ⟨all, ?_⟩
          simp only [CBlockIndex.add, List.append_assoc, List.singleton_append]

/-- A supply falls with every spend, so only its end has to be looked at. -/
theorem withoutSpends_le (spends : List CoinDenomination) (supply : Supply)
    (denom : Denomination) : withoutSpends spends supply denom ≤ supply denom := by
  unfold withoutSpends
  omega

theorem removeSpends_iff {spends : List CoinDenomination}
    {pindex result : CBlockIndex} :
    removeSpends spends pindex = (result, some true) ↔
      CoinDenomination.error ∉ spends ∧
        (∀ denom : Denomination, denom.val ∈ spends →
          0 ≤ withoutSpends spends pindex.mapZerocoinSupply denom) ∧
        result = { pindex with
          mapZerocoinSupply :=
            withoutSpends spends pindex.mapZerocoinSupply } := by
  induction spends generalizing pindex with
  | nil =>
      rw [removeSpends]
      have same : withoutSpends [] pindex.mapZerocoinSupply =
          pindex.mapZerocoinSupply := by
        funext denom
        exact Int.sub_zero _
      rw [same, Prod.mk.injEq]
      constructor
      · rintro ⟨rfl, _⟩
        refine ⟨List.not_mem_nil, ?_, rfl⟩
        intro _ impossible
        cases impossible
      · rintro ⟨_, _, rfl⟩
        exact ⟨rfl, rfl⟩
  | cons first rest ih =>
      rw [removeSpends]
      split_ifs with known
      · constructor
        · rintro ⟨⟩
        · rintro ⟨all, _⟩
          exact absurd (known ▸ List.mem_cons_self) all
      · have step : withoutSpends rest
            (pindex.add ⟨first, known⟩ (-1)).mapZerocoinSupply =
              withoutSpends (first :: rest) pindex.mapZerocoinSupply :=
          withoutSpends_update known rest pindex.mapZerocoinSupply
        dsimp only
        split_ifs with negative
        · constructor
          · rintro ⟨⟩
          · rintro ⟨_, notNegative, _⟩
            have final := notNegative ⟨first, known⟩ List.mem_cons_self
            rw [← step] at final
            have bound := withoutSpends_le rest
              (pindex.add ⟨first, known⟩ (-1)).mapZerocoinSupply
              ⟨first, known⟩
            omega
        · rw [ih, step, List.mem_cons, not_or]
          constructor
          · rintro ⟨all, notNegative, rfl⟩
            refine ⟨⟨Ne.symm known, all⟩, ?_, rfl⟩
            intro denom member
            by_cases later : denom.val ∈ rest
            · exact notNegative denom later
            · have same : denom = ⟨first, known⟩ :=
                Subtype.ext ((List.mem_cons.mp member).resolve_right later)
              subst same
              rw [← step, withoutSpends, List.count_eq_zero_of_not_mem later]
              omega
          · rintro ⟨⟨_, all⟩, notNegative, rfl⟩
            refine ⟨all, ?_, rfl⟩
            intro denom member
            exact notNegative denom (List.mem_cons_of_mem _ member)

theorem takeSpends_eq {spends : List CoinDenomination}
    (known : CoinDenomination.error ∉ spends) (supply : Supply) :
    takeSpends spends supply = some (withoutSpends spends supply) := by
  induction spends generalizing supply with
  | nil =>
      have same : withoutSpends [] supply = supply := by
        funext denom
        exact Int.sub_zero _
      rw [same]
      rfl
  | cons first rest ih =>
      rw [List.mem_cons, not_or] at known
      rw [takeSpends, dif_neg (Ne.symm known.1), ih known.2,
        withoutSpends_update]

/-! ## One block -/

/--
The entry of a block goes with that of its parent: the supply is that of the
parent with the mints of the block and without its spends, and not negative.
-/
def Follows (library : Library) (block : CBlock)
    (parent entry : CBlockIndex) : Prop :=
  ∃ listMints finished listSpends,
    blockToZerocoinMintList library block.vtx = .ok (listMints, finished) ∧
    zerocoinSpendListFromBlock library block.vtx = .ok listSpends ∧
    (CoinDenomination.error ∉ listMints ∧
      CoinDenomination.error ∉ listSpends) ∧
    entry.vMintDenominationsInBlock = listMints ∧
    (∀ denom : Denomination, entry.mapZerocoinSupply denom =
      parent.mapZerocoinSupply denom + listMints.count denom.val -
        listSpends.count denom.val) ∧
    ∀ denom, 0 ≤ entry.mapZerocoinSupply denom

/-- No supply is negative. -/
def CBlockIndex.NotNegative (pindex : CBlockIndex) : Prop :=
  ∀ denom, 0 ≤ pindex.mapZerocoinSupply denom

section OneBlock

variable {library : Library} {block : CBlock}
  {parent entry earlier later : CBlockIndex} {nVersion : Int32}

theorem Follows.notNegative (follows : Follows library block parent entry) :
    entry.NotNegative := by
  obtain ⟨_, _, _, _, _, _, _, _, notNegative⟩ := follows
  exact notNegative

/-- The entry is determined by the block and its parent. -/
theorem Follows.unique (one : Follows library block parent entry)
    (two : Follows library block parent earlier) : entry = earlier := by
  obtain ⟨_, _, _, mints, spends, _, minted, supply, _⟩ := one
  obtain ⟨_, _, _, mints', spends', _, minted', supply', _⟩ := two
  rw [mints] at mints'
  rw [spends] at spends'
  cases mints'
  cases spends'
  have sameSupply : entry.mapZerocoinSupply = earlier.mapZerocoinSupply := by
    funext denom
    rw [supply, supply']
  have sameMints : entry.vMintDenominationsInBlock =
      earlier.vMintDenominationsInBlock := by
    rw [minted, minted']
  cases entry
  cases earlier
  cases sameSupply
  cases sameMints
  rfl

/-- What an earlier call left in the entry does not matter. -/
theorem updateZPIVSupply_result (active : nVersion > 3) :
    (updateZPIVSupply library block.vtx (some (nVersion, parent))
        earlier).2 =
      (updateZPIVSupply library block.vtx (some (nVersion, parent))
        later).2 := by
  unfold updateZPIVSupply
  split
  · dsimp only
    rw [if_pos active, if_pos active]
  · rfl

/-- Connecting a block succeeds exactly with the entry that follows. -/
theorem updateZPIVSupply_iff (active : nVersion > 3)
    (notNegative : parent.NotNegative) :
    updateZPIVSupply library block.vtx (some (nVersion, parent)) earlier =
        (entry, some true) ↔
      Follows library block parent entry := by
  unfold updateZPIVSupply Follows
  split
  case h_1 listMints finished listSpends mints spends =>
    dsimp only
    rw [if_pos active, mints, spends]
    split
    case h_1 unfinished added =>
      have thrown : ¬ CoinDenomination.error ∉ listMints := by
        intro known
        have ran := congrArg Prod.snd added
        rw [addMints_iff.mpr ⟨known, rfl⟩] at ran
        cases ran
      constructor
      · rintro ⟨⟩
      · rintro ⟨_, _, _, ⟨⟩, _, known, _⟩
        exact absurd known.1 thrown
    case h_2 pindex added =>
      rw [addMints_iff] at added
      obtain ⟨knownMints, rfl⟩ := added
      rw [removeSpends_iff]
      dsimp only
      rw [List.nil_append]
      constructor
      · rintro ⟨knownSpends, enough, rfl⟩
        refine ⟨_, _, _, rfl, rfl, ⟨knownMints, knownSpends⟩, rfl,
          fun denom => rfl, ?_⟩
        intro denom
        by_cases spent : denom.val ∈ listSpends
        · exact enough denom spent
        · have parentSupply := notNegative denom
          simp only [withoutSpends, withMints,
            List.count_eq_zero_of_not_mem spent]
          omega
      · rintro ⟨_, _, _, ⟨⟩, ⟨⟩, ⟨_, knownSpends⟩, minted, supply, final⟩
        have same : entry.mapZerocoinSupply = withoutSpends listSpends
            (withMints listMints parent.mapZerocoinSupply) := by
          funext denom
          exact supply denom
        refine ⟨knownSpends, ?_, ?_⟩
        · intro denom _
          rw [← same]
          exact final denom
        · rw [← same, ← minted]
  case h_2 interrupted =>
    constructor
    · rintro ⟨⟩
    · rintro ⟨_, _, _, mints, spends, _⟩
      exact absurd spends (interrupted _ _ _ mints)

end OneBlock

/-! ## One chain -/

/-- The entries of a chain, each of which follows from the one behind it. -/
structure Recorded (library : Library) (params : ChainParams)
    (entry : Branch → CBlockIndex) (chain : Branch) : Prop where
  genesis : entry [params.genesis] = .null
  follows : ∀ block pprev, pprev ≠ [] → block :: pprev <:+ chain →
    Follows library block (entry pprev) (entry (block :: pprev))

/-- A chain of blocks of the new version that were made after genesis. -/
structure Sound (params : ChainParams) (chain : Branch) : Prop where
  genesis : [params.genesis] <:+ chain
  time : ∀ block ∈ chain,
    params.genesis.header.nTime.toNat ≤ block.header.nTime.toNat
  version : ∀ block ∈ chain, block.header.nVersion > 3

section OneChain

variable {library : Library} {params : ChainParams}
  {entry other : Branch → CBlockIndex} {chain part pprev : Branch}
  {block : CBlock}

theorem Recorded.shorten (recorded : Recorded library params entry chain)
    (suffix : part <:+ chain) : Recorded library params entry part where
  genesis := recorded.genesis
  follows block pprev behind within :=
    recorded.follows block pprev behind (within.trans suffix)

theorem Recorded.congr (recorded : Recorded library params entry chain)
    (genesis : [params.genesis] <:+ chain)
    (same : ∀ part, part <:+ chain → other part = entry part) :
    Recorded library params other chain where
  genesis := by
    rw [same _ genesis]
    exact recorded.genesis
  follows block pprev behind within := by
    rw [same _ within, same pprev ((List.suffix_cons block pprev).trans within)]
    exact recorded.follows block pprev behind within

theorem Recorded.extend (recorded : Recorded library params entry chain)
    (follows : Follows library block (entry chain) (entry (block :: chain))) :
    Recorded library params entry (block :: chain) where
  genesis := recorded.genesis
  follows newest pprev behind within := by
    rcases List.suffix_cons_iff.mp within with whole | inside
    · cases whole
      exact follows
    · exact recorded.follows newest pprev behind inside

theorem Sound.shorten (sound : Sound params chain) (behind : part ≠ [])
    (suffix : part <:+ chain) : Sound params part where
  genesis := by
    apply List.suffix_of_suffix_length_le sound.genesis suffix
    exact List.length_pos_iff.mpr behind
  time block member := sound.time block (suffix.subset member)
  version block member := sound.version block (suffix.subset member)

theorem Recorded.notNegative (recorded : Recorded library params entry chain)
    (sound : Sound params chain) (behind : part ≠ [])
    (suffix : part <:+ chain) : (entry part).NotNegative := by
  match part, behind, suffix with
  | [newest], _, suffix =>
      have same : [newest] = [params.genesis] :=
        (List.suffix_of_suffix_length_le suffix sound.genesis
          (Nat.le_refl 1)).eq_of_length rfl
      rw [same, recorded.genesis]
      intro _
      exact Int.le_refl 0
  | newest :: previous :: older, _, suffix =>
      exact (recorded.follows newest (previous :: older)
        (List.cons_ne_nil _ _) suffix).notNegative

/-- Two chains with the same entry at genesis agree where they meet. -/
theorem Recorded.agree {otherChain : Branch}
    (recorded : Recorded library params entry chain)
    (sound : Sound params chain)
    (recordedToo : Recorded library params other otherChain)
    (behind : part ≠ []) (suffix : part <:+ chain)
    (suffixToo : part <:+ otherChain) : entry part = other part := by
  induction part with
  | nil => exact absurd rfl behind
  | cons newest older ih =>
      cases older with
      | nil =>
          have same : [newest] = [params.genesis] :=
            (List.suffix_of_suffix_length_le suffix sound.genesis
              (Nat.le_refl 1)).eq_of_length rfl
          rw [same, recorded.genesis, recordedToo.genesis]
      | cons previous older =>
          have nonempty := List.cons_ne_nil previous older
          have here := List.suffix_cons newest (previous :: older)
          have parents := ih nonempty (here.trans suffix)
            (here.trans suffixToo)
          have follows := recorded.follows newest _ nonempty suffix
          have followsToo := recordedToo.follows newest _ nonempty suffixToo
          rw [← parents] at followsToo
          exact follows.unique followsToo

/-- The entries above the start height follow from those behind them. -/
theorem Recorded.follows_above (recorded : Recorded library params entry chain)
    {part : Branch} (member : part ∈ above zerocoinStartHeight chain) :
    ∃ block, part = block :: part.tail ∧
      Follows library block (entry part.tail) (entry part) := by
  obtain ⟨suffix, long⟩ := mem_above.mp member
  match part, suffix, long with
  | [_], _, long =>
      rw [List.length_singleton] at long
      exact absurd long (by decide)
  | newest :: previous :: older, suffix, _ =>
      exact ⟨newest, rfl, recorded.follows newest (previous :: older)
        (List.cons_ne_nil _ _) suffix⟩

/-- The entries after the first of the two passes. -/
def afterMints (chain : Branch) (entry damaged : Branch → CBlockIndex)
    (part : Branch) : CBlockIndex :=
  if part ∈ above zerocoinStartHeight chain then
    { damaged part with
      vMintDenominationsInBlock := (entry part).vMintDenominationsInBlock }
  else
    damaged part

theorem rewriteMinted_all (recorded : Recorded library params entry chain)
    (damaged : Branch → CBlockIndex) :
    rewriteAll (rewriteMinted library) (above zerocoinStartHeight chain)
      damaged = some (afterMints chain entry damaged) := by
  apply rewriteAll_above
  · intro part member
    obtain ⟨block, shape, _, _, _, mints, _, _, minted, _⟩ :=
      recorded.follows_above member
    rw [shape] at member minted ⊢
    simp only [rewriteMinted, mints, afterMints, if_pos member, minted]
  · intro part outside
    exact if_neg outside

theorem rewriteSpent_all (recorded : Recorded library params entry chain)
    {damaged : Branch → CBlockIndex}
    (elsewhere : ∀ part, part ∉ above zerocoinStartHeight chain →
      damaged part = entry part) :
    rewriteAll (rewriteSpent library) (above zerocoinStartHeight chain)
      (afterMints chain entry damaged) = some entry := by
  apply rewriteAll_above
  · intro part member
    obtain ⟨block, shape, _, _, listSpends, _, spends, known, minted, supply,
      _⟩ := recorded.follows_above member
    have sameSupply : withoutSpends listSpends (fun denom =>
        (entry part.tail).mapZerocoinSupply denom +
          ((entry part).vMintDenominationsInBlock.count denom.val : Int)) =
        (entry part).mapZerocoinSupply := by
      funext denom
      rw [supply, minted]
      rfl
    have sameMints :
        (afterMints chain entry damaged part).vMintDenominationsInBlock =
          (entry part).vMintDenominationsInBlock := by
      simp only [afterMints, if_pos member]
    unfold rewriteSpent
    rw [shape]
    dsimp only [List.tail_cons]
    rw [← shape, spends]
    dsimp only
    rw [takeSpends_eq known.2, sameMints, sameSupply, ← sameMints]
    simp only [Option.map_some, sameMints]
  · intro part outside
    rw [← elsewhere part outside]
    exact (if_neg outside).symm

/-- Every entry above the start height is computed anew, whatever it was. -/
theorem recalculate_eq (recorded : Recorded library params entry chain)
    {damaged : Branch → CBlockIndex}
    (elsewhere : ∀ part, part ∉ above zerocoinStartHeight chain →
      damaged part = entry part) :
    recalculate library chain damaged = some entry := by
  rw [recalculate, rewriteMinted_all recorded, Option.bind_some,
    rewriteSpent_all recorded elsewhere]

end OneChain

/-! ## Headers of a chain -/

/-- The median of times is none before all of them. -/
theorem le_getMedianTimePast {bound : Nat}
    {pindex : ActiveChain.Branch} (nonempty : pindex ≠ [])
    (late : ∀ block ∈ pindex, bound ≤ block.header.nTime.toNat) :
    bound ≤ getMedianTimePast pindex := by
  let times := (pindex.take 11).map fun block => block.header.nTime.toNat
  have positive : 0 < times.length := by
    rw [List.length_map, List.length_take]
    have := List.length_pos_iff.mpr nonempty
    omega
  have inside : times.length / 2 < (times.insertionSort (· ≤ ·)).length := by
    rw [List.length_insertionSort]
    omega
  show bound ≤ (times.insertionSort (· ≤ ·)).getD (times.length / 2) 0
  rw [List.getD_eq_getElem _ _ inside]
  have member := (List.perm_insertionSort (· ≤ ·) times).subset
    (List.getElem_mem inside)
  obtain ⟨block, taken, time⟩ := List.mem_map.mp member
  rw [← time]
  exact late block (List.mem_of_mem_take taken)

section Runs

variable {library : Library} {params : ChainParams}
  {state : State} {block : CBlock} {pprev : Branch}

/-- An accepted header has the new version, since it is later than genesis. -/
theorem Sound.accept (sound : Sound params pprev)
    (version : checkVersion params block.header = true)
    (context : contextualCheck block.header pprev = true) :
    Sound params (block :: pprev) := by
  have nonempty : pprev.map
      (fun block => (⟨block.header, 0⟩ : ActiveChain.CBlockIndex)) ≠ [] := by
    intro empty
    rw [List.map_eq_nil_iff.mp empty] at sound
    exact absurd (List.suffix_nil.mp sound.genesis) (List.cons_ne_nil _ _)
  have median : params.genesis.header.nTime.toNat ≤ getMedianTimePast
      (pprev.map fun block => ⟨block.header, 0⟩) := by
    apply le_getMedianTimePast nonempty
    intro entry member
    obtain ⟨older, inside, rfl⟩ := List.mem_map.mp member
    exact sound.time older inside
  have later : params.genesis.header.nTime.toNat ≤
      block.header.nTime.toNat := by
    unfold contextualCheck at context
    simp only [Bool.and_eq_true, Bool.not_eq_true', decide_eq_false_iff_not,
      Nat.not_le] at context
    omega
  have newVersion : block.header.nVersion > 3 := by
    have active := params.startsLater
    rw [checkVersion, if_pos (by omega)] at version
    simp only [Bool.not_eq_true', decide_eq_false_iff_not,
      Int32.lt_iff_toInt_lt, zerocoinHeaderVersion, Int.not_lt] at version
    show (3 : Int32) < _
    rw [Int32.lt_iff_toInt_lt]
    have four : (4 : Int32).toInt = 4 := by decide
    have three : (3 : Int32).toInt = 3 := by decide
    omega
  constructor
  · exact sound.genesis.trans (List.suffix_cons block pprev)
  · intro entry member
    rcases List.mem_cons.mp member with rfl | older
    · exact later
    · exact sound.time entry older
  · intro entry member
    rcases List.mem_cons.mp member with rfl | older
    · exact newVersion
    · exact sound.version entry older

/-- What holds in every state of a node. -/
structure Inv (library : Library) (params : ChainParams) (state : State) :
    Prop where
  indexed : ∀ pindex ∈ state.mapBlockIndex, Sound params pindex
  active : Sound params state.chainActive
  recorded : Recorded library params state.entry state.chainActive

theorem Sound.ne_nil (sound : Sound params pprev) : pprev ≠ [] := by
  rintro rfl
  exact absurd (List.suffix_nil.mp sound.genesis) (List.cons_ne_nil _ _)

/-- The parent of a block is seen with a version above 3. -/
theorem Sound.parentOf (sound : Sound params pprev)
    (entry : Branch → CBlockIndex) :
    ∃ nVersion : Int32, nVersion > 3 ∧
      parentOf entry pprev = some (nVersion, entry pprev) := by
  match pprev, sound with
  | [], sound => exact absurd rfl sound.ne_nil
  | newest :: older, sound =>
      exact ⟨_, sound.version newest List.mem_cons_self, rfl⟩

/-- On top of the active chain a block gets the entry that follows. -/
theorem Inv.update_iff (inv : Inv library params state) (behind : pprev ≠ [])
    (suffix : pprev <:+ state.chainActive) {earlier entry : CBlockIndex} :
    updateZPIVSupply library block.vtx (parentOf state.entry pprev) earlier =
        (entry, some true) ↔
      Follows library block (state.entry pprev) entry := by
  obtain ⟨nVersion, newVersion, parent⟩ :=
    (inv.active.shorten behind suffix).parentOf state.entry
  rw [parent]
  exact updateZPIVSupply_iff newVersion
    (inv.recorded.notNegative inv.active behind suffix)

theorem inv_genesis : Inv library params (genesisState params) := by
  have sound : Sound params [params.genesis] := by
    constructor
    · exact List.suffix_rfl
    · intro entry member
      rw [List.mem_singleton.mp member]
    · intro entry member
      rw [List.mem_singleton.mp member, params.genesisVersion]
      decide
  constructor
  · intro pindex member
    rw [List.mem_singleton.mp member]
    exact sound
  · exact sound
  · constructor
    · rfl
    · intro newest older behind suffix
      have short := suffix.length_le
      have positive := List.length_pos_iff.mpr behind
      simp only [genesisState, List.length_cons, List.length_nil] at short
      omega

/-- Writing the entry of a block above the chain leaves those of the chain. -/
theorem Inv.recorded_update (inv : Inv library params state)
    (entry : CBlockIndex) :
    Recorded library params
      (Function.update state.entry (block :: state.chainActive) entry)
      state.chainActive := by
  apply inv.recorded.congr inv.active.genesis
  intro part suffix
  apply Function.update_of_ne
  rintro rfl
  have short := suffix.length_le
  rw [List.length_cons] at short
  omega

theorem inv_connectTip (inv : Inv library params state)
    (before behind : Bool) :
    Inv library params
      (step library params state (.connectTip block before behind)) := by
  rw [step]
  dsimp only
  by_cases indexed :
    block :: state.chainActive ∈ state.mapBlockIndex ∧ before = true
  · rw [if_pos indexed]
    have sound := inv.indexed _ indexed.1
    have kept : Recorded library params
        (Function.update state.entry (block :: state.chainActive)
          (updateEntry library state.entry block state.chainActive).1)
        state.chainActive := inv.recorded_update _
    split_ifs with connected
    · refine ⟨inv.indexed, sound, kept.extend ?_⟩
      have follows := (inv.update_iff inv.active.ne_nil
        List.suffix_rfl).mp (Prod.ext rfl connected.1)
      rw [Function.update_self, Function.update_of_ne]
      · exact follows
      · exact (List.cons_ne_self block state.chainActive).symm
    · exact ⟨inv.indexed, inv.active, kept⟩
  · rw [if_neg indexed]
    exact inv

/-- A block of the active chain that is connected again keeps its entry. -/
theorem verifyBlock_eq (inv : Inv library params state) (pindex : Branch)
    (before : Bool) :
    step library params state (.verifyBlock pindex before) = state := by
  match pindex with
  | [] => rfl
  | [_] => rfl
  | newest :: previous :: older =>
      rw [step]
      split_ifs with verified
      · have nonempty := List.cons_ne_nil previous older
        have follows := inv.recorded.follows newest _ nonempty verified.1
        have again : updateEntry library state.entry newest
            (previous :: older) =
              (state.entry (newest :: previous :: older), some true) :=
          (inv.update_iff nonempty
            ((List.suffix_cons newest (previous :: older)).trans
              verified.1)).mpr follows
        rw [again, Function.update_eq_self]
      · rfl

theorem reindexMoneySupply_eq (inv : Inv library params state) :
    step library params state .reindexMoneySupply = state := by
  rw [step, recalculate_eq inv.recorded (fun _ _ => rfl)]
  split_ifs <;> rfl

theorem inv_step (inv : Inv library params state) (event : Event) :
    Inv library params (step library params state event) := by
  cases event with
  | acceptBlockHeader block pindexPrev valid =>
      rw [step]
      split_ifs with accepted
      · refine ⟨?_, inv.active, inv.recorded⟩
        intro pindex member
        rcases List.mem_cons.mp member with rfl | older
        · obtain ⟨indexed, _, version, context⟩ := accepted
          exact (inv.indexed _ indexed).accept version context
        · exact inv.indexed pindex older
      · exact inv
  | connectTip block before behind => exact inv_connectTip inv before behind
  | disconnectTip =>
      obtain ⟨mapBlockIndex, chainActive, entry⟩ := state
      match chainActive with
      | [] => exact inv
      | [_] => exact inv
      | newest :: previous :: older =>
          have shorter := List.suffix_cons newest (previous :: older)
          exact ⟨inv.indexed,
            inv.active.shorten (List.cons_ne_nil _ _) shorter,
            inv.recorded.shorten shorter⟩
  | verifyBlock pindex before =>
      rw [verifyBlock_eq inv]
      exact inv
  | reindexMoneySupply =>
      rw [reindexMoneySupply_eq inv]
      exact inv

theorem inv_run (library : Library) (params : ChainParams)
    (events : List Event) : Inv library params (run library params events) := by
  unfold run
  induction events using List.reverseRecOn with
  | nil => exact inv_genesis
  | append_singleton events event ih =>
      rw [List.foldl_append]
      exact inv_step ih event

end Runs

/-! ## However a block is connected -/

/-- What a state says about supplies. -/
structure SupplyRecomputed (library : Library) (params : ChainParams)
    (state : State) : Prop where
  /-- Every block of the active chain but genesis has its own entry. -/
  recorded : ∀ block pprev, pprev ≠ [] →
    block :: pprev <:+ state.chainActive →
    Follows library block (state.entry pprev) (state.entry (block :: pprev))
  /-- `UpdateZPIVSupply` does the same whatever it finds in the entry. -/
  again : ∀ block pprev, pprev ≠ [] → pprev <:+ state.chainActive →
    ∀ earlier later entry : CBlockIndex,
      (updateZPIVSupply library block.vtx (parentOf state.entry pprev)
          earlier).2 =
        (updateZPIVSupply library block.vtx (parentOf state.entry pprev)
          later).2 ∧
      (updateZPIVSupply library block.vtx (parentOf state.entry pprev)
            earlier = (entry, some true) →
        Follows library block (state.entry pprev) entry)
  /-- A block has the same entry whenever it is in the active chain. -/
  same : ∀ (events : List Event) (pindex : Branch), pindex ≠ [] →
    pindex <:+ state.chainActive →
    pindex <:+ (run library params events).chainActive →
    state.entry pindex = (run library params events).entry pindex
  /-- Recalculating restores the entries from the start height on. -/
  recalculated : ∀ damaged : Branch → CBlockIndex,
    (∀ pindex, pindex ∉ above zerocoinStartHeight state.chainActive →
      damaged pindex = state.entry pindex) →
    recalculate library state.chainActive damaged = some state.entry

/--
In every reachable state the entry of a block follows from that of its parent,
however often the block is connected, and recalculating gives the same.
-/
theorem supply_recomputed (library : Library) (params : ChainParams)
    (events : List Event) :
    SupplyRecomputed library params (run library params events) := by
  have inv := inv_run library params events
  constructor
  · exact inv.recorded.follows
  · intro block pprev behind suffix earlier later entry
    constructor
    · obtain ⟨nVersion, newVersion, parent⟩ :=
        (inv.active.shorten behind suffix).parentOf
          (run library params events).entry
      rw [parent]
      exact updateZPIVSupply_result newVersion
    · exact (inv.update_iff behind suffix).mp
  · intro others pindex behind suffix suffixToo
    exact inv.recorded.agree inv.active
      (inv_run library params others).recorded behind suffix suffixToo
  · intro damaged elsewhere
    exact recalculate_eq inv.recorded elsewhere

/-- A block on genesis that mints one coin and then another. -/
def mintBlock : CBlock where
  header := ⟨1, 0, 4, 1544097060, 0x1e0ffff0⟩
  vtx := [⟨1, 1, txPayment, [],
    [⟨100000000, [0xc1, 0, 0, 0, 0, 0, 1]⟩,
      ⟨100000000, [0xc1, 0, 0, 0, 0, 0, 2]⟩],
    .plain txMetaEmpty, [], 0⟩]

/-- Connected, disconnected and connected again, it has minted two coins. -/
example (library : Library) :
    let params := testNetParams []
    let pindex := [mintBlock, params.genesis]
    let state := run library params
      [.acceptBlockHeader mintBlock [params.genesis] true,
        .connectTip mintBlock true true, .disconnectTip,
        .connectTip mintBlock true true]
    state.chainActive = pindex ∧
      (state.entry pindex).mapZerocoinSupply ⟨.one, by decide⟩ = 2 := by
  constructor <;> rfl

end PrivateDatagram.Chainstate.ZerocoinSupply
