import Mathlib.Data.List.ProdSigma
import Std.Data.ExtTreeMap
import PrivateDatagram.Library.Tables
import PrivateDatagram.Wire.Serialize

/-!
# The address manager

Addresses of peers are new or tried.  A new one is in up to eight slots of the
new buckets, and a tried one in a single slot of the tried buckets; a secret
key decides which slots these are.  `mapAddr` finds the id of an address,
`vRandom` has all ids in random order, and counters have their numbers.  An
assertion that fails is `none`.
-/

namespace PrivateDatagram.Network.AddrMan

open Library.ByteFormat Wire.Serialize

abbrev triedBucketCount : Nat := 256
abbrev newBucketCount : Nat := 1024
abbrev bucketSize : Nat := 64
def triedBucketsPerGroup : UInt64 := 8
def newBucketsPerSourceGroup : UInt64 := 64
def newBucketsPerAddress : Int := 8
def horizonDays : Int := 30
def retries : Int := 3
def maxFailures : Int := 10
def minFailDays : Int := 7
def getaddrMaxPct : Nat := 23
def getaddrMax : Nat := 2500

/-- The largest `int`. -/
def maxInt : Int := 2 ^ 31 - 1

abbrev TriedSlot := Fin triedBucketCount × Fin bucketSize
abbrev NewSlot := Fin newBucketCount × Fin bucketSize

/-! ## Addresses -/

abbrev CNetAddr := Vector UInt8 16

structure CService where
  ip : CNetAddr
  port : UInt16
deriving DecidableEq

structure CAddress where
  service : CService
  nServices : UInt64
  nTime : UInt32
deriving DecidableEq

structure CAddrInfo where
  service : CService
  nServices : UInt64
  nTime : UInt32
  source : CNetAddr
  nLastTry : Int
  nLastSuccess : Int
  nAttempts : Int
  nRefCount : Int
  fInTried : Bool
  /-- `Create` sets it at once. -/
  nRandomPos : Nat
deriving DecidableEq

/-- `CAddrInfo(addr, addrSource)`, at its position. -/
def CAddrInfo.init (addr : CAddress) (addrSource : CNetAddr)
    (nRandomPos : Nat) : CAddrInfo where
  service := addr.service
  nServices := addr.nServices
  nTime := addr.nTime
  source := addrSource
  nLastTry := 0
  nLastSuccess := 0
  nAttempts := 0
  nRefCount := 0
  fInTried := false
  nRandomPos := nRandomPos

/-- The default constructor. -/
def CAddrInfo.fresh : CAddrInfo :=
  .init ⟨⟨Vector.replicate 16 0, 0⟩, 1, 100000000⟩ (Vector.replicate 16 0) 0

def CAddrInfo.toAddress (info : CAddrInfo) : CAddress :=
  ⟨info.service, info.nServices, info.nTime⟩

def CService.getKey (service : CService) : Bytes :=
  service.ip.toList ++
    [UInt8.ofNat (service.port.toNat / 0x100),
      UInt8.ofNat (service.port.toNat % 0x100)]

structure Surroundings where
  /-- `GetHash().GetLow64()` of a `CHashWriter` with these bytes. -/
  hashLow64 : Bytes → UInt64
  getGroup : CNetAddr → Bytes
  isRoutable : CNetAddr → Bool

section Buckets

variable (around : Surroundings) (nKey : UInt256)

def getTriedBucket (service : CService) : Fin triedBucketCount :=
  let hash1 := around.hashLow64
    (uint256.encode nKey ++ blob.encode service.getKey)
  let hash2 := around.hashLow64
    (uint256.encode nKey ++ blob.encode (around.getGroup service.ip) ++
      uint64.encode (hash1 % triedBucketsPerGroup))
  Fin.ofNat triedBucketCount hash2.toNat

def getNewBucket (service : CService) (src : CNetAddr) :
    Fin newBucketCount :=
  let vchSourceGroupKey := around.getGroup src
  let hash1 := around.hashLow64
    (uint256.encode nKey ++ blob.encode (around.getGroup service.ip) ++
      blob.encode vchSourceGroupKey)
  let hash2 := around.hashLow64
    (uint256.encode nKey ++ blob.encode vchSourceGroupKey ++
      uint64.encode (hash1 % newBucketsPerSourceGroup))
  Fin.ofNat newBucketCount hash2.toNat

/-- The character is `N` or `K`. -/
def getBucketPosition (fNew : Bool) (nBucket : Nat) (service : CService) :
    Fin bucketSize :=
  let hash1 := around.hashLow64
    (uint256.encode nKey ++ [if fNew then 0x4e else 0x4b] ++
      int32.encode (Int32.ofNat nBucket) ++ blob.encode service.getKey)
  Fin.ofNat bucketSize hash1.toNat

/-- The slot of an address in a new bucket. -/
def newSlot (service : CService) (bucket : Fin newBucketCount) : NewSlot :=
  (bucket, getBucketPosition around nKey true bucket.val service)

def triedSlot (service : CService) : TriedSlot :=
  let nKBucket := getTriedBucket around nKey service
  (nKBucket, getBucketPosition around nKey false nKBucket.val service)

end Buckets

def CAddrInfo.isTerrible (nNow : Int) (info : CAddrInfo) : Bool :=
  if info.nLastTry ≠ 0 ∧ info.nLastTry ≥ nNow - 60 then
    false
  else if info.nTime.toNat > nNow + 10 * 60 then
    true
  else if info.nTime = 0 ∨
      nNow - info.nTime.toNat > horizonDays * 24 * 60 * 60 then
    true
  else if info.nLastSuccess = 0 ∧ info.nAttempts ≥ retries then
    true
  else
    nNow - info.nLastSuccess > minFailDays * 24 * 60 * 60 ∧
      info.nAttempts ≥ maxFailures

/-! ## The manager -/

structure CAddrMan where
  nKey : UInt256
  nIdCount : Int
  mapInfo : Std.ExtTreeMap Int CAddrInfo
  mapAddr : CNetAddr → Option Int
  vRandom : List Int
  nTried : Int
  /-- An empty slot has -1. -/
  vvTried : TriedSlot → Int
  nNew : Int
  vvNew : NewSlot → Int

/-- After `Clear`, which draws the key. -/
def emptyMan (nKey : UInt256) : CAddrMan where
  nKey := nKey
  nIdCount := 0
  mapInfo := ∅
  mapAddr := fun _ => none
  vRandom := []
  nTried := 0
  vvTried := fun _ => -1
  nNew := 0
  vvNew := fun _ => -1

/-- The key, and what only `Create` changes. -/
def CAddrMan.constants (man : CAddrMan) : UInt256 × Int :=
  (man.nKey, man.nIdCount)

/-- Change an entry that is there. -/
def CAddrMan.modify (man : CAddrMan) (nId : Int)
    (change : CAddrInfo → CAddrInfo) : CAddrMan :=
  { man with mapInfo := man.mapInfo.modify nId change }

def find (addr : CNetAddr) (man : CAddrMan) : Option (Int × CAddrInfo) :=
  match man.mapAddr addr with
  | none => none
  | some nId => man.mapInfo[nId]?.map (nId, ·)

/-- The new entry has the id `nIdCount`. -/
def create (addr : CAddress) (addrSource : CNetAddr) (man : CAddrMan) :
    CAddrMan :=
  let nId := man.nIdCount
  { man with
    nIdCount := nId + 1
    mapInfo :=
      man.mapInfo.insert nId (.init addr addrSource man.vRandom.length)
    mapAddr := Function.update man.mapAddr addr.service.ip (some nId)
    vRandom := man.vRandom ++ [nId] }

/-- `info.nRandomPos = nRndPos`. -/
def CAddrInfo.moveTo (nRndPos : Nat) (info : CAddrInfo) : CAddrInfo :=
  { info with nRandomPos := nRndPos }

def swapRandom (nRndPos1 nRndPos2 : Nat) (man : CAddrMan) :
    Option CAddrMan :=
  if nRndPos1 = nRndPos2 then
    some man
  else
    match man.vRandom[nRndPos1]?, man.vRandom[nRndPos2]? with
    | some nId1, some nId2 =>
        if nId1 ∈ man.mapInfo ∧ nId2 ∈ man.mapInfo then
          some
            { (man.modify nId1 (·.moveTo nRndPos2)).modify nId2
                (·.moveTo nRndPos1) with
              vRandom := (man.vRandom.set nRndPos1 nId2).set nRndPos2 nId1 }
        else
          none
    | _, _ => none

/-- Drop the last entry of `vRandom`, which has the given address. -/
def dropLast (nId : Int) (addr : CNetAddr) (man : CAddrMan) : CAddrMan :=
  { man with
    vRandom := man.vRandom.dropLast
    mapAddr := Function.update man.mapAddr addr none
    mapInfo := man.mapInfo.erase nId
    nNew := man.nNew - 1 }

/-- No position is the last one of an empty vector. -/
def delete (nId : Int) (man : CAddrMan) : Option CAddrMan :=
  match man.mapInfo[nId]? with
  | none => none
  | some info =>
      if info.fInTried ∨ info.nRefCount ≠ 0 ∨ man.vRandom = [] then
        none
      else
        (swapRandom info.nRandomPos (man.vRandom.length - 1) man).map
          (dropLast nId info.service.ip)

/-- `nRefCount` is changed by a number. -/
def CAddrInfo.refer (change : Int) (info : CAddrInfo) : CAddrInfo :=
  { info with nRefCount := info.nRefCount + change }

/-- A slot gives up its reference. -/
def unlink (slot : NewSlot) (nId : Int) (man : CAddrMan) : CAddrMan :=
  { man.modify nId (·.refer (-1)) with
    vvNew := Function.update man.vvNew slot (-1) }

/-- A slot gets a reference. -/
def link (slot : NewSlot) (nId : Int) (man : CAddrMan) : CAddrMan :=
  { man.modify nId (·.refer 1) with
    vvNew := Function.update man.vvNew slot nId }

/-- An id without an entry would get a default one, which has no references
either. -/
def clearNew (slot : NewSlot) (man : CAddrMan) : Option CAddrMan :=
  let nIdDelete := man.vvNew slot
  if nIdDelete = -1 then
    some man
  else
    match man.mapInfo[nIdDelete]? with
    | none => none
    | some infoDelete =>
        if infoDelete.nRefCount ≤ 0 then
          none
        else if infoDelete.nRefCount - 1 = 0 then
          delete nIdDelete (unlink slot nIdDelete man)
        else
          some (unlink slot nIdDelete man)

section Tables

variable (around : Surroundings)

/-- The loop of `MakeTried` over the new buckets. -/
def leaveBuckets (nId : Int) (service : CService) :
    List (Fin newBucketCount) → CAddrMan → CAddrMan
  | [], man => man
  | bucket :: buckets, man =>
      let slot := newSlot around man.nKey service bucket
      leaveBuckets nId service buckets
        (if man.vvNew slot = nId then unlink slot nId man else man)

/-- Take a tried entry out of its slot. -/
def untry (slot : TriedSlot) (nId : Int) (man : CAddrMan) : CAddrMan :=
  { man.modify nId fun info => { info with fInTried := false } with
    vvTried := Function.update man.vvTried slot (-1)
    nTried := man.nTried - 1 }

/-- An entry without references gets its first one. -/
def renew (slot : NewSlot) (nId : Int) (man : CAddrMan) : CAddrMan :=
  { man.modify nId fun info => { info with nRefCount := 1 } with
    vvNew := Function.update man.vvNew slot nId
    nNew := man.nNew + 1 }

/-- The part of `MakeTried` that makes space: the entry in the slot is new
again. -/
def evictTried (slot : TriedSlot) (man : CAddrMan) : Option CAddrMan :=
  let nIdEvict := man.vvTried slot
  if nIdEvict = -1 then
    some man
  else
    match man.mapInfo[nIdEvict]? with
    | none => none
    | some infoOld =>
        let nUSlot := newSlot around man.nKey infoOld.service
          (getNewBucket around man.nKey infoOld.service infoOld.source)
        match clearNew nUSlot (untry slot nIdEvict man) with
        | none => none
        | some man =>
            if man.vvNew nUSlot = -1 then
              some (renew nUSlot nIdEvict man)
            else
              none

/-- Put an entry into a slot of the tried buckets. -/
def enterTried (slot : TriedSlot) (nId : Int) (man : CAddrMan) : CAddrMan :=
  { man.modify nId fun info => { info with fInTried := true } with
    vvTried := Function.update man.vvTried slot nId
    nTried := man.nTried + 1 }

def makeTried (nId : Int) (service : CService) (man : CAddrMan) :
    Option CAddrMan :=
  let left := leaveBuckets around nId service
    (List.finRange newBucketCount) man
  let man := { left with nNew := left.nNew - 1 }
  match man.mapInfo[nId]? with
  | none => none
  | some info =>
      if info.nRefCount ≠ 0 then
        none
      else
        let slot := triedSlot around man.nKey service
        match evictTried around slot man with
        | none => none
        | some man =>
            if man.vvTried slot = -1 then
              some (enterTried slot nId man)
            else
              none

/-! ## Operations -/

/-- An address has been connected to. -/
def CAddrInfo.succeed (nTime : Int) (info : CAddrInfo) : CAddrInfo :=
  { info with
    nLastSuccess := nTime
    nLastTry := nTime
    nAttempts := 0 }

/-- `nRnd` is the random number that the search for a bucket starts with. -/
def good (addr : CService) (nTime : Int) (nRnd : Nat) (man : CAddrMan) :
    Option CAddrMan :=
  match find addr.ip man with
  | none => some man
  | some (nId, info) =>
      if info.service ≠ addr then
        some man
      else if info.fInTried then
        some (man.modify nId (·.succeed nTime))
      else if (List.range newBucketCount).any fun n =>
          man.vvNew (newSlot around man.nKey addr
            (Fin.ofNat newBucketCount (n + nRnd))) = nId then
        makeTried around nId addr (man.modify nId (·.succeed nTime))
      else
        some (man.modify nId (·.succeed nTime))

/-- The time and the services of an entry for an address that is added
again. -/
def CAddrInfo.refresh (addr : CAddress) (nTimePenalty adjustedTime : Int)
    (info : CAddrInfo) : CAddrInfo :=
  let fCurrentlyOnline := adjustedTime - addr.nTime.toNat < 24 * 60 * 60
  let nUpdateInterval : Int :=
    if fCurrentlyOnline then 60 * 60 else 24 * 60 * 60
  let penalized := max 0 (addr.nTime.toNat - nTimePenalty)
  { info with
    nTime :=
      if addr.nTime ≠ 0 ∧ (info.nTime = 0 ∨ info.nTime.toNat <
          addr.nTime.toNat - nUpdateInterval - nTimePenalty) then
        UInt32.ofInt penalized
      else
        info.nTime
    nServices := info.nServices ||| addr.nServices }

/-- Whether a known address may get one more reference.  The more it has, the
less likely this is. -/
def mayRefer (addr : CAddress) (rand : Nat) (info : CAddrInfo) : Bool :=
  let nFactor := 2 ^ info.nRefCount.toNat
  ¬ (addr.nTime = 0 ∨ (info.nTime ≠ 0 ∧ addr.nTime ≤ info.nTime)) ∧
    ¬ info.fInTried ∧
    info.nRefCount ≠ newBucketsPerAddress ∧
    ¬ (nFactor > 1 ∧ rand % nFactor ≠ 0)

/-- Whether an entry may take a slot of the new buckets. -/
def mayInsert (adjustedTime : Int) (slot : NewSlot) (info : CAddrInfo)
    (man : CAddrMan) : Bool :=
  if man.vvNew slot = -1 then
    true
  else
    let infoExisting := man.mapInfo.getD (man.vvNew slot) .fresh
    infoExisting.isTerrible adjustedTime ||
      (infoExisting.nRefCount > 1 && info.nRefCount = 0)

/-- The end of `Add_`. -/
def place (source : CNetAddr) (adjustedTime : Int) (nId : Int)
    (info : CAddrInfo) (man : CAddrMan) : Option CAddrMan :=
  let slot := newSlot around man.nKey info.service
    (getNewBucket around man.nKey info.service source)
  if man.vvNew slot = nId then
    some man
  else if mayInsert adjustedTime slot info man then
    (clearNew slot man).map (link slot nId)
  else if info.nRefCount = 0 then
    delete nId man
  else
    some man

/-- The time of a new entry. -/
def CAddrInfo.penalize (nTimePenalty : Int) (info : CAddrInfo) : CAddrInfo :=
  { info with
    nTime := UInt32.ofInt (max 0 (info.nTime.toNat - nTimePenalty)) }

/-- A new entry has an id that was not used before, as long as there is an
`int` for the next one. -/
def add (addr : CAddress) (source : CNetAddr)
    (nTimePenalty adjustedTime : Int) (rand : Nat) (man : CAddrMan) :
    Option (Bool × CAddrMan) :=
  if ¬ around.isRoutable addr.service.ip then
    some (false, man)
  else
    match find addr.service.ip man with
    | some (nId, info) =>
        let info := info.refresh addr nTimePenalty adjustedTime
        let man := man.modify nId (·.refresh addr nTimePenalty adjustedTime)
        if mayRefer addr rand info then
          (place around source adjustedTime nId info man).map (false, ·)
        else
          some (false, man)
    | none =>
        let nId := man.nIdCount
        if nId = maxInt then
          none
        else
          let man := (create addr source man).modify nId
            (·.penalize nTimePenalty)
          let man := { man with nNew := man.nNew + 1 }
          match man.mapInfo[nId]? with
          | none => none
          | some info =>
              (place around source adjustedTime nId info man).map (true, ·)

def attempt (addr : CService) (nTime : Int) (man : CAddrMan) : CAddrMan :=
  match find addr.ip man with
  | none => man
  | some (nId, info) =>
      if info.service ≠ addr then
        man
      else
        man.modify nId fun info =>
          { info with nLastTry := nTime, nAttempts := info.nAttempts + 1 }

def connected (addr : CService) (nTime : Int) (man : CAddrMan) : CAddrMan :=
  match find addr.ip man with
  | none => man
  | some (nId, info) =>
      if info.service ≠ addr then
        man
      else
        man.modify nId fun info =>
          { info with
            nTime :=
              if nTime - info.nTime.toNat > 20 * 60 then
                UInt32.ofInt nTime
              else
                info.nTime }

/-- The loop of `GetAddr_` over the positions that are left. -/
def getAddrLoop (adjustedTime : Int) (rand : Nat → Nat) (nNodes : Nat) :
    List Nat → List CAddress → CAddrMan → Option (List CAddress × CAddrMan)
  | [], vAddr, man => some (vAddr, man)
  | n :: rest, vAddr, man =>
      if vAddr.length ≥ nNodes then
        some (vAddr, man)
      else
        let nRndPos := rand n % (man.vRandom.length - n) + n
        match swapRandom n nRndPos man with
        | none => none
        | some man =>
            match man.vRandom[n]?.bind (man.mapInfo[·]?) with
            | none => none
            | some ai =>
                getAddrLoop adjustedTime rand nNodes rest
                  (if ai.isTerrible adjustedTime then
                    vAddr
                  else
                    vAddr ++ [ai.toAddress]) man

def getAddr (adjustedTime : Int) (rand : Nat → Nat) (man : CAddrMan) :
    Option (List CAddress × CAddrMan) :=
  let nNodes := min (getaddrMaxPct * man.vRandom.length / 100) getaddrMax
  getAddrLoop adjustedTime rand nNodes (List.range man.vRandom.length) [] man

end Tables

end PrivateDatagram.Network.AddrMan
