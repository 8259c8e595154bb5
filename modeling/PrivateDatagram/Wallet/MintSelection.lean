import PrivateDatagram.Consensus.ProofOfStake
import PrivateDatagram.Library.FueledLoops

/-!
# Selecting mints

`SelectMintsFromList` looks for unused mints of a target value: exactly and
with few enough spends, or else with change.

Amounts and counters are machine integers that wrap.  The maps count coins that
are held, so their entries are natural numbers.  The loops run with fuel.
-/

namespace PrivateDatagram.Wallet.MintSelection

open Library.FueledLoops Wire.Serialize
open Consensus.ProofOfStake (CoinDenomination)

/-- `ZerocoinDenominationToAmount`. -/
def toAmount (denom : CoinDenomination) : Int64 :=
  Chainstate.Coins.coin * denom.toInt64

/-- `zerocoinDenomList`, the smallest first. -/
def zerocoinDenomList : List CoinDenomination :=
  CoinDenomination.all

/-- `reverse_iterate(zerocoinDenomList)`. -/
def reversed : List CoinDenomination :=
  zerocoinDenomList.reverse

/-- What mint selection reads of a mint, and the hash that tells mints apart. -/
structure CMintMeta where
  hashSerial : UInt256
  denom : CoinDenomination
  isUsed : Bool
deriving DecidableEq, Repr

/-- `map<CoinDenomination, CAmount>`, with an entry for every denomination. -/
abbrev DenomMap := CoinDenomination → Nat

def getNumberOfCoinsUsed (mapChange : DenomMap) : Int32 :=
  zerocoinDenomList.foldl
    (fun nChangeCount denom => nChangeCount + .ofNat (mapChange denom)) 0

def getMaxDenomHeld (mapCoinsHeld : DenomMap) : CoinDenomination :=
  (reversed.find? fun coin => mapCoinsHeld coin ≠ 0).getD .error

/-! ## Taking coins -/

/-- The variables of the loops that take coins. -/
structure Taken where
  mapUsed : DenomMap
  nRemainingValue : Int64
  amountUsed : Int64
  nCoinCount : Int32

/-- Nothing is taken yet. -/
def Taken.start (nValueTarget : Int64) : Taken :=
  ⟨fun _ => 0, nValueTarget, 0, 0⟩

def Taken.take (coin : CoinDenomination) (s : Taken) : Taken where
  mapUsed := Function.update s.mapUsed coin (s.mapUsed coin + 1)
  nRemainingValue := s.nRemainingValue - toAmount coin
  amountUsed := s.amountUsed + toAmount coin
  nCoinCount := s.nCoinCount + 1

/-- `do { if (first) take } while (again)`. -/
def takeWhile (coin : CoinDenomination) (first again : Taken → Bool) :
    Taken → Fueled Taken :=
  doWhile (fun s => if first s then s.take coin else s) again

/-- The value of a coin is left, and one is held that is not used. -/
def canSpend (mapOfDenomsHeld : DenomMap) (coin : CoinDenomination)
    (s : Taken) : Bool :=
  toAmount coin ≤ s.nRemainingValue && s.mapUsed coin < mapOfDenomsHeld coin

def getSpendCoins (nValueTarget : Int64) (mapOfDenomsHeld : DenomMap) :
    Fueled DenomMap := do
  let s ← forEach
    (fun coin => takeWhile coin (canSpend mapOfDenomsHeld coin)
      (canSpend mapOfDenomsHeld coin))
    reversed (.start nValueTarget)
  pure s.mapUsed

/-- The value of a coin is left. -/
def canChange (coin : CoinDenomination) (s : Taken) : Bool :=
  toAmount coin ≤ s.nRemainingValue

def getChange (nValueTarget : Int64) : Fueled DenomMap := do
  let s ← forEach
    (fun coin => takeWhile coin (canChange coin) (canChange coin)) reversed
    (.start nValueTarget)
  pure s.mapUsed

/-! ## Exact spends -/

/-- The loop over the mints, with its `break`. -/
def idealMints (coin : CoinDenomination) : List CMintMeta → Taken → Taken
  | [], s => s
  | mint :: rest, s =>
      if mint.isUsed then
        idealMints coin rest s
      else
        let next :=
          if s.nRemainingValue ≥ toAmount coin ∧ coin = mint.denom then
            s.take coin
          else
            s
        if next.nRemainingValue < toAmount coin then next
        else idealMints coin rest next

def getIdealSpends (nValueTarget : Int64) (listMints : List CMintMeta) :
    Bool × DenomMap :=
  let s := reversed.foldl (fun s coin => idealMints coin listMints s)
    (.start nValueTarget)
  (s.nRemainingValue = 0, s.mapUsed)

/-- The variables of `getSpends`. -/
structure Picked where
  vSelectedMints : List CMintMeta
  mapOfDenomsUsed : DenomMap
  nCoinsSpentValue : Int64

/-- The loop over the mints, for one denomination. -/
def pickMints (coin : CoinDenomination) : List CMintMeta → Picked → Picked
  | [], s => s
  | mint :: rest, s =>
      if !mint.isUsed ∧ coin = mint.denom ∧ s.mapOfDenomsUsed coin ≠ 0 then
        pickMints coin rest
          { vSelectedMints := s.vSelectedMints ++ [mint]
            mapOfDenomsUsed := Function.update s.mapOfDenomsUsed coin
              (s.mapOfDenomsUsed coin - 1)
            nCoinsSpentValue := s.nCoinsSpentValue + toAmount coin }
      else
        pickMints coin rest s

def getSpends (listMints : List CMintMeta) (mapOfDenomsUsed : DenomMap) :
    Fueled Picked :=
  forEach
    (fun coin => doWhile (pickMints coin listMints)
      fun s => s.mapOfDenomsUsed coin ≠ 0)
    reversed ⟨[], mapOfDenomsUsed, 0⟩

/-! ## Change -/

def getNextLowerDenomHeld (thisDenom : CoinDenomination)
    (mapCoinsHeld : DenomMap) : CoinDenomination :=
  (reversed.find? fun denom =>
    decide (denom.toInt64 < thisDenom.toInt64) &&
      decide (mapCoinsHeld denom ≠ 0)).getD .error

/-- More than the value of a coin is left, and one is held that is not used. -/
def canUndercut (mapOfDenomsHeld : DenomMap) (denom : CoinDenomination)
    (s : Taken) : Bool :=
  toAmount denom < s.nRemainingValue &&
    s.mapUsed denom < mapOfDenomsHeld denom

/-- Higher denominations first, less than the target. -/
def undercut (nextToMaxDenom : CoinDenomination) (nValueTarget : Int64)
    (mapOfDenomsHeld : DenomMap) : Fueled Taken :=
  forEach
    (fun denom s =>
      if denom.toInt64 ≤ nextToMaxDenom.toInt64 then
        takeWhile denom (canUndercut mapOfDenomsHeld denom)
          (canUndercut mapOfDenomsHeld denom) s
      else
        pure s)
    reversed (.start nValueTarget)

/-- The way back up: a coin that is bigger than what remains. -/
def fillUp (mapOfDenomsHeld : DenomMap) :
    List CoinDenomination → Taken → Taken
  | [], s => s
  | denom :: rest, s =>
      let next :=
        if toAmount denom > s.nRemainingValue ∧
            s.mapUsed denom < mapOfDenomsHeld denom then
          s.take denom
        else
          s
      if next.nRemainingValue < 0 then next
      else fillUp mapOfDenomsHeld rest next

/-- The coins used next to those of the change. -/
structure Overlap where
  used : Taken
  mapAltChange : DenomMap

def Overlap.both (denom : CoinDenomination) (s : Overlap) : Bool :=
  s.mapAltChange denom ≠ 0 && s.used.mapUsed denom ≠ 0

/-- A coin that is spent and comes back as change is not spent. -/
def Overlap.cancel (denom : CoinDenomination) (s : Overlap) : Overlap :=
  if s.both denom then
    { used :=
        { s.used with
          mapUsed := Function.update s.used.mapUsed denom
            (s.used.mapUsed denom - 1)
          amountUsed := s.used.amountUsed - toAmount denom
          nCoinCount := s.used.nCoinCount - 1 }
      mapAltChange := Function.update s.mapAltChange denom
        (s.mapAltChange denom - 1) }
  else
    s

def cancelOverlap (s : Overlap) : Fueled Overlap :=
  forEach (fun denom => doWhile (Overlap.cancel denom) (Overlap.both denom))
    zerocoinDenomList s

/-- The number of coins in the change, with the coins used. -/
def minimizeChange (nMaxNumberOfSpends nChangeCount : Int32)
    (nextToMaxDenom : CoinDenomination) (nValueTarget : Int64)
    (mapOfDenomsHeld mapOfDenomsUsed : DenomMap) :
    Fueled (Int32 × DenomMap) := do
  let below ← undercut nextToMaxDenom nValueTarget mapOfDenomsHeld
  let filled := fillUp mapOfDenomsHeld zerocoinDenomList below
  let mapAltChange ← getChange (filled.amountUsed - nValueTarget)
  let cancelled ← cancelOverlap ⟨filled, mapAltChange⟩
  let amountUsed := cancelled.used.amountUsed
  let mapUsed ← getSpendCoins amountUsed mapOfDenomsHeld
  let mapAltChange ← getChange (amountUsed - nValueTarget)
  let altChangeCount := getNumberOfCoinsUsed mapAltChange
  if altChangeCount < nChangeCount ∧
      getNumberOfCoinsUsed mapUsed ≤ nMaxNumberOfSpends then
    pure (altChangeCount, mapUsed)
  else
    pure (nChangeCount, mapOfDenomsUsed)

/-- One coin over the target, if there is one. -/
def minDenomOverTarget (nValueTarget : Int64) (mapOfDenomsHeld : DenomMap) :
    Option CoinDenomination :=
  zerocoinDenomList.find? fun denom =>
    decide (nValueTarget < toAmount denom) &&
      decide (mapOfDenomsHeld denom ≠ 0)

/-- All coins from the highest on, until the target is met. -/
def meetTarget (mapOfDenomsHeld : DenomMap) :
    List CoinDenomination → Taken → Fueled Taken
  | [], s => pure s
  | denom :: rest, s => do
      let next ← takeWhile denom
        (fun s => mapOfDenomsHeld denom ≠ 0 && decide (0 < s.nRemainingValue))
        (fun s => decide (0 < s.nRemainingValue) &&
          decide (s.mapUsed denom < mapOfDenomsHeld denom)) s
      if next.nRemainingValue < 0 then pure next
      else meetTarget mapOfDenomsHeld rest next

def calculateChange (nMaxNumberOfSpends : Int32) (fMinimizeChange : Bool)
    (nValueTarget : Int64) (mapOfDenomsHeld : DenomMap) :
    Fueled (Int32 × DenomMap) :=
  match minDenomOverTarget nValueTarget mapOfDenomsHeld with
  | some minDenom => do
      let mapOfDenomsUsed : DenomMap := Function.update (fun _ => 0) minDenom 1
      let mapChange ← getChange (toAmount minDenom - nValueTarget)
      let nChangeCount := getNumberOfCoinsUsed mapChange
      if fMinimizeChange then do
        let nextToMaxDenom := getNextLowerDenomHeld minDenom mapOfDenomsHeld
        let other ← minimizeChange nMaxNumberOfSpends nChangeCount
          nextToMaxDenom nValueTarget mapOfDenomsHeld mapOfDenomsUsed
        if other.1 < nChangeCount then pure other
        else pure (nChangeCount, mapOfDenomsUsed)
      else
        pure (nChangeCount, mapOfDenomsUsed)
  | none => do
      let s ← meetTarget mapOfDenomsHeld reversed (.start nValueTarget)
      let mapChange ← getChange (s.amountUsed - nValueTarget)
      let nMaxChangeCount := getNumberOfCoinsUsed mapChange
      let maxDenomHeld := getMaxDenomHeld mapOfDenomsHeld
      let other ← minimizeChange nMaxNumberOfSpends nMaxChangeCount
        maxDenomHeld nValueTarget mapOfDenomsHeld s.mapUsed
      if fMinimizeChange = false ∧
          s.nCoinCount < getNumberOfCoinsUsed other.2 then
        pure (nMaxChangeCount, s.mapUsed)
      else
        pure other

/-! ## The selection -/

structure Selected where
  vSelectedMints : List CMintMeta
  nSelectedValue : Int64
  nCoinsReturned : Int32
  nNeededSpends : Int32

/-- The part behind the exact attempt. -/
def selectWithChange (nValueTarget nSelectedValue : Int64)
    (nMaxNumberOfSpends : Int32) (fMinimizeChange : Bool)
    (listMints : List CMintMeta) (mapOfDenomsHeld : DenomMap)
    (nNeededSpends : Int32) : Fueled Selected := do
  let change ← calculateChange nMaxNumberOfSpends fMinimizeChange nValueTarget
    mapOfDenomsHeld
  if change.1 = 0 then
    pure ⟨[], nSelectedValue, 0, nNeededSpends⟩
  else do
    let s ← getSpends listMints change.2
    pure ⟨s.vSelectedMints, s.nCoinsSpentValue, change.1, nNeededSpends⟩

/-- `SelectMintsFromList`, with the value that `nSelectedValue` has before. -/
def selectMintsFromList (nValueTarget nSelectedValue : Int64)
    (nMaxNumberOfSpends : Int32) (fMinimizeChange : Bool)
    (listMints : List CMintMeta) (mapOfDenomsHeld : DenomMap) :
    Fueled Selected := do
  let ideal := getIdealSpends nValueTarget listMints
  if ideal.1 then do
    let s ← getSpends listMints ideal.2
    -- The limit is cast to an unsigned size.
    if s.vSelectedMints.length ≤
        nMaxNumberOfSpends.toInt64.toUInt64.toNat then
      pure ⟨s.vSelectedMints, s.nCoinsSpentValue, 0, 0⟩
    else
      selectWithChange nValueTarget s.nCoinsSpentValue nMaxNumberOfSpends
        fMinimizeChange listMints mapOfDenomsHeld
        (.ofNat s.vSelectedMints.length)
  else
    selectWithChange nValueTarget nSelectedValue nMaxNumberOfSpends
      fMinimizeChange listMints mapOfDenomsHeld 0

end PrivateDatagram.Wallet.MintSelection
