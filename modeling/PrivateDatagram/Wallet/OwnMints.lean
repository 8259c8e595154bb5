import PrivateDatagram.Wire.Transaction

/-!
# Own mints of a block

`UpdateZPIVSupply` goes through the mints of a block.  A mint of the wallet is
updated in the tracker and the wallet file, where it may leave the archive, or
taken there from the mint pool, and its transaction is added to the wallet.

What there is of a mint is found by the hash of its public coin, and writing
the file succeeds.  Data that the loop does not set are left out, such as the
stake hash, which the tracker has from the file.
-/

namespace PrivateDatagram.Wallet.OwnMints

open Wire.Serialize

/-! ## The wallet -/

structure CWalletTx where
  hashBlock : UInt256
  nIndex : Int
  vMerkleBranch : List UInt256
  nOrderPos : Int
deriving DecidableEq, Repr

/-- What the wallet file has of a mint. -/
structure MintRecord where
  nHeight : Int
  txid : UInt256
  isUsed : Bool
  denom : Nat
deriving DecidableEq, Repr

structure CMintMeta extends MintRecord where
  isArchived : Bool
  isDeterministic : Bool
deriving DecidableEq, Repr

/-- Where a mint can be. -/
structure MintPlaces where
  zpivTracker : Option CMintMeta
  /-- The record `zerocoin` or `dzpdg` of the wallet file. -/
  walletdb : Option MintRecord
  /-- The record `dzco`, which is out of use. -/
  archive : Option MintRecord
deriving DecidableEq, Repr

structure CZerocoinMint where
  /-- `GetPubCoinHash` of the value. -/
  hashPubcoin : UInt256
  txid : UInt256
  denom : Nat
deriving DecidableEq, Repr

structure CWallet where
  mapWallet : UInt256 → Option CWalletTx
  nOrderPosNext : Int
  mints : UInt256 → MintPlaces
  mintPool : List UInt256

/-- `UpdateState`, which fails where there is no record to read. -/
def MintPlaces.updateState (mint : CMintMeta) (places : MintPlaces) :
    MintPlaces :=
  if places.walletdb.isSome then
    { places with
      zpivTracker := some mint
      walletdb := some mint.toMintRecord }
  else if mint.isDeterministic ∧ mint.isArchived ∧ places.archive.isSome then
    -- `UnarchiveDeterministicMint`
    ⟨some mint, some mint.toMintRecord, none⟩
  else
    places

/-- What `UpdateMint` does to a tracked mint. -/
def MintPlaces.seen (nHeight : Int) (txid : UInt256) (places : MintPlaces) :
    MintPlaces :=
  match places.zpivTracker with
  | none => places
  | some found =>
      places.updateState { found with
        nHeight := nHeight
        txid := txid }

/-- The entry of a known transaction after it was found once more. -/
def CWalletTx.merge (wtx wtxIn : CWalletTx) : CWalletTx :=
  let wtx :=
    if wtxIn.hashBlock ≠ 0 ∧ wtxIn.hashBlock ≠ wtx.hashBlock then
      { wtx with hashBlock := wtxIn.hashBlock }
    else
      wtx
  if wtxIn.nIndex ≠ -1 ∧ (wtxIn.vMerkleBranch ≠ wtx.vMerkleBranch ∨
      wtxIn.nIndex ≠ wtx.nIndex) then
    { wtx with
      vMerkleBranch := wtxIn.vMerkleBranch
      nIndex := wtxIn.nIndex }
  else
    wtx

namespace CWallet

/-- `AddToWallet`. -/
def addToWallet (hash : UInt256) (wtxIn : CWalletTx) (wallet : CWallet) :
    CWallet :=
  match wallet.mapWallet hash with
  | none =>
      { wallet with
        mapWallet := Function.update wallet.mapWallet hash
          (some { wtxIn with nOrderPos := wallet.nOrderPosNext })
        nOrderPosNext := wallet.nOrderPosNext + 1 }
  | some wtx =>
      { wallet with
        mapWallet := Function.update wallet.mapWallet hash
          (some (wtx.merge wtxIn)) }

/-- `HasPubcoinHash` of the tracker. -/
def hasPubcoinHash (wallet : CWallet) (hashPubcoin : UInt256) : Bool :=
  (wallet.mints hashPubcoin).zpivTracker.isSome

/-- `IsMyMint`. -/
def isMyMint (wallet : CWallet) (hashPubcoin : UInt256) : Bool :=
  wallet.hasPubcoinHash hashPubcoin || hashPubcoin ∈ wallet.mintPool

/--
`SetMintSeen`, for the transaction in the chain that spends the mint, if there
is one.
-/
def setMintSeen (nHeight : Int) (spend : Option (UInt256 × CWalletTx))
    (mint : CZerocoinMint) (wallet : CWallet) : CWallet :=
  let wallet :=
    match spend with
    | none => wallet
    | some (hash, wtx) => wallet.addToWallet hash wtx
  let record : MintRecord := ⟨nHeight, mint.txid, spend.isSome, mint.denom⟩
  { wallet with
    mints := Function.update wallet.mints mint.hashPubcoin
      { wallet.mints mint.hashPubcoin with
        zpivTracker := some ⟨record, false, true⟩
        walletdb := some record }
    mintPool := wallet.mintPool.filter (· ≠ mint.hashPubcoin) }

/-- `UpdateMint`. -/
def updateMint (nHeight : Int) (spend : Option (UInt256 × CWalletTx))
    (mint : CZerocoinMint) (wallet : CWallet) : CWallet :=
  if wallet.hasPubcoinHash mint.hashPubcoin then
    { wallet with
      mints := Function.update wallet.mints mint.hashPubcoin
        ((wallet.mints mint.hashPubcoin).seen nHeight mint.txid) }
  else if mint.hashPubcoin ∈ wallet.mintPool then
    wallet.setMintSeen nHeight spend mint
  else
    wallet

end CWallet

/-- What the loop reads: the height, and what the chain and the block say. -/
structure MintContext where
  nHeight : Int
  /-- The spend of a mint, by `IsSerialInBlockchain`. -/
  spendOf : UInt256 → Option (UInt256 × CWalletTx)
  /-- The entry that `SetMerkleBranch` makes of a transaction of the block. -/
  merkleTx : UInt256 → CWalletTx

/-- One round of the loop, with `setAddedToWallet`. -/
def trackMint (context : MintContext) (state : CWallet × List UInt256)
    (mint : CZerocoinMint) : CWallet × List UInt256 :=
  if state.1.isMyMint mint.hashPubcoin then
    let wallet := state.1.updateMint context.nHeight
      (context.spendOf mint.hashPubcoin) mint
    if mint.txid ∈ state.2 then
      (wallet, state.2)
    else
      (wallet.addToWallet mint.txid (context.merkleTx mint.txid),
        mint.txid :: state.2)
  else
    state

/-- The wallet after the mints of a block. -/
def trackMints (context : MintContext) (mints : List CZerocoinMint)
    (wallet : CWallet) : CWallet :=
  (mints.foldl (trackMint context) (wallet, [])).1

/-! ## One transaction -/

@[simp]
theorem addToWallet_mints (hash : UInt256) (wtxIn : CWalletTx)
    (wallet : CWallet) :
    (wallet.addToWallet hash wtxIn).mints = wallet.mints := by
  unfold CWallet.addToWallet
  split <;> rfl

@[simp]
theorem addToWallet_mintPool (hash : UInt256) (wtxIn : CWalletTx)
    (wallet : CWallet) :
    (wallet.addToWallet hash wtxIn).mintPool = wallet.mintPool := by
  unfold CWallet.addToWallet
  split <;> rfl

/-- The transaction is there afterwards, merged if it was there before. -/
theorem addToWallet_self (hash : UInt256) (wtxIn : CWalletTx)
    (wallet : CWallet) :
    ∃ wtx, (wallet.addToWallet hash wtxIn).mapWallet hash = some wtx ∧
      ∀ before, wallet.mapWallet hash = some before →
        wtx = before.merge wtxIn := by
  unfold CWallet.addToWallet
  cases found : wallet.mapWallet hash with
  | none =>
      refine ⟨_, Function.update_self _ _ _, ?_⟩
      intro before impossible
      cases impossible
  | some wtx =>
      refine ⟨_, Function.update_self _ _ _, ?_⟩
      intro before same
      cases same
      rfl

theorem addToWallet_of_ne {hash other : UInt256} (different : other ≠ hash)
    (wtxIn : CWalletTx) (wallet : CWallet) :
    (wallet.addToWallet hash wtxIn).mapWallet other =
      wallet.mapWallet other := by
  unfold CWallet.addToWallet
  split
  · exact Function.update_of_ne different _ _
  · exact Function.update_of_ne different _ _

/-- Nothing changes where merging does not. -/
theorem addToWallet_known {hash : UInt256} {wtx wtxIn : CWalletTx}
    {wallet : CWallet} (found : wallet.mapWallet hash = some wtx)
    (merged : wtx.merge wtxIn = wtx) :
    wallet.addToWallet hash wtxIn = wallet := by
  unfold CWallet.addToWallet
  rw [found]
  dsimp only
  rw [merged, ← found, Function.update_eq_self]

/-! ## One mint -/

section Round

variable {context : MintContext}

theorem trackMint_other {state : CWallet × List UInt256}
    {mint : CZerocoinMint}
    (other : state.1.isMyMint mint.hashPubcoin = false) :
    trackMint context state mint = state := by
  rw [trackMint, other]
  rfl

/-- The mints and the pool are those of `UpdateMint`. -/
theorem trackMint_mints (context : MintContext)
    {state : CWallet × List UInt256} {mint : CZerocoinMint}
    (mine : state.1.isMyMint mint.hashPubcoin = true) :
    (trackMint context state mint).1.mints =
        (state.1.updateMint context.nHeight
          (context.spendOf mint.hashPubcoin) mint).mints ∧
      (trackMint context state mint).1.mintPool =
        (state.1.updateMint context.nHeight
          (context.spendOf mint.hashPubcoin) mint).mintPool := by
  rw [trackMint, if_pos mine]
  dsimp only
  split_ifs
  · exact ⟨rfl, rfl⟩
  · exact ⟨addToWallet_mints _ _ _, addToWallet_mintPool _ _ _⟩

/-- A tracked mint stays where it is, or its record is written. -/
@[simp]
theorem seen_zpivTracker (nHeight : Int) (txid : UInt256)
    (places : MintPlaces) :
    (places.seen nHeight txid).zpivTracker.isSome =
      places.zpivTracker.isSome := by
  unfold MintPlaces.seen MintPlaces.updateState
  split
  · rfl
  case h_2 found isFound =>
    split_ifs
    · rw [isFound]
      rfl
    · rw [isFound]
      rfl
    · rfl

/-- `UpdateMint` of an own mint leaves it in the tracker. -/
theorem updateMint_tracked {wallet : CWallet} {mint : CZerocoinMint}
    {nHeight : Int} {spend : Option (UInt256 × CWalletTx)}
    (mine : wallet.isMyMint mint.hashPubcoin = true) :
    (wallet.updateMint nHeight spend mint).hasPubcoinHash mint.hashPubcoin =
      true := by
  unfold CWallet.updateMint
  split_ifs with tracked pooled
  · unfold CWallet.hasPubcoinHash
    dsimp only
    rw [Function.update_self, seen_zpivTracker]
    exact tracked
  · unfold CWallet.hasPubcoinHash CWallet.setMintSeen
    dsimp only
    rw [Function.update_self]
    rfl
  · rw [CWallet.isMyMint, Bool.or_eq_true, decide_eq_true_iff] at mine
    exact (mine.elim tracked pooled).elim

theorem updateMint_of_ne {mint : CZerocoinMint} {other : UInt256}
    (different : other ≠ mint.hashPubcoin) (nHeight : Int)
    (spend : Option (UInt256 × CWalletTx)) (wallet : CWallet) :
    (wallet.updateMint nHeight spend mint).mints other = wallet.mints other ∧
      (other ∈ (wallet.updateMint nHeight spend mint).mintPool ↔
        other ∈ wallet.mintPool) := by
  unfold CWallet.updateMint
  split_ifs
  · exact ⟨Function.update_of_ne different _ _, Iff.rfl⟩
  · unfold CWallet.setMintSeen
    cases spend with
    | none =>
        refine ⟨Function.update_of_ne different _ _, ?_⟩
        simp [different]
    | some spend =>
        dsimp only
        rw [addToWallet_mints, addToWallet_mintPool]
        refine ⟨Function.update_of_ne different _ _, ?_⟩
        simp [different]
  · exact ⟨rfl, Iff.rfl⟩

/-- What is mine stays mine. -/
theorem isMyMint_trackMint (state : CWallet × List UInt256)
    (mint : CZerocoinMint) (hashPubcoin : UInt256) :
    (trackMint context state mint).1.isMyMint hashPubcoin =
      state.1.isMyMint hashPubcoin := by
  cases mine : state.1.isMyMint mint.hashPubcoin with
  | false => rw [trackMint_other mine]
  | true =>
      rcases trackMint_mints context mine with ⟨tracker, pool⟩
      by_cases here : hashPubcoin = mint.hashPubcoin
      · subst here
        rw [mine, CWallet.isMyMint, CWallet.hasPubcoinHash, tracker]
        exact Bool.or_eq_true_iff.mpr (.inl (updateMint_tracked mine))
      · rcases updateMint_of_ne here context.nHeight
          (context.spendOf mint.hashPubcoin) state.1 with ⟨same, pooled⟩
        rw [CWallet.isMyMint, CWallet.isMyMint, CWallet.hasPubcoinHash,
          CWallet.hasPubcoinHash, tracker, pool, same]
        simp only [pooled]

/-- What is tracked stays tracked. -/
theorem tracked_trackMint {state : CWallet × List UInt256}
    {hashPubcoin : UInt256}
    (tracked : state.1.hasPubcoinHash hashPubcoin = true)
    (mint : CZerocoinMint) :
    (trackMint context state mint).1.hasPubcoinHash hashPubcoin = true := by
  cases mine : state.1.isMyMint mint.hashPubcoin with
  | false =>
      rw [trackMint_other mine]
      exact tracked
  | true =>
      rw [CWallet.hasPubcoinHash, (trackMint_mints context mine).1]
      by_cases here : hashPubcoin = mint.hashPubcoin
      · subst here
        exact updateMint_tracked mine
      · rw [(updateMint_of_ne here _ _ _).1]
        exact tracked

end Round

/-! ## All mints -/

section Loop

variable {context : MintContext}

theorem tracked_foldl {mints : List CZerocoinMint}
    {state : CWallet × List UInt256} {hashPubcoin : UInt256}
    (tracked : state.1.hasPubcoinHash hashPubcoin = true) :
    (mints.foldl (trackMint context) state).1.hasPubcoinHash hashPubcoin =
      true := by
  induction mints generalizing state with
  | nil => exact tracked
  | cons mint rest ih => exact ih (tracked_trackMint tracked mint)

/-- After the loop every own mint of the block is tracked. -/
theorem mine_tracked {mints : List CZerocoinMint}
    {state : CWallet × List UInt256} {mint : CZerocoinMint}
    (member : mint ∈ mints)
    (mine : state.1.isMyMint mint.hashPubcoin = true) :
    (mints.foldl (trackMint context) state).1.hasPubcoinHash
      mint.hashPubcoin = true := by
  induction mints generalizing state with
  | nil => cases member
  | cons first rest ih =>
      rw [List.foldl_cons]
      rcases List.mem_cons.mp member with rfl | later
      · apply tracked_foldl
        rw [CWallet.hasPubcoinHash, (trackMint_mints context mine).1]
        exact updateMint_tracked mine
      · apply ih later
        rw [isMyMint_trackMint]
        exact mine

/-- Every own mint of the block is in the tracker already. -/
def AllTracked (wallet : CWallet) (mints : List CZerocoinMint) : Prop :=
  ∀ mint ∈ mints, wallet.isMyMint mint.hashPubcoin = true →
    wallet.hasPubcoinHash mint.hashPubcoin = true

theorem AllTracked.trackMint {state : CWallet × List UInt256}
    {mints : List CZerocoinMint} (tracked : AllTracked state.1 mints)
    (context : MintContext) (mint : CZerocoinMint) :
    AllTracked (trackMint context state mint).1 mints := by
  intro other member mine
  rw [isMyMint_trackMint] at mine
  exact tracked_trackMint (tracked other member mine) mint

/-- The transaction of the last mint with a public coin. -/
def lastTxid (hashPubcoin : UInt256) : List CZerocoinMint → Option UInt256
  | [] => none
  | mint :: rest =>
      (lastTxid hashPubcoin rest).or
        (if mint.hashPubcoin = hashPubcoin then some mint.txid else none)

theorem lastTxid_isSome {mint : CZerocoinMint} {mints : List CZerocoinMint}
    (member : mint ∈ mints) :
    (lastTxid mint.hashPubcoin mints).isSome = true := by
  induction mints with
  | nil => cases member
  | cons first rest ih =>
      rw [lastTxid, Option.isSome_or]
      rcases List.mem_cons.mp member with rfl | later
      · simp
      · rw [ih later]
        rfl

theorem lastTxid_mem {hashPubcoin txid : UInt256}
    {mints : List CZerocoinMint}
    (last : lastTxid hashPubcoin mints = some txid) :
    ∃ mint ∈ mints, mint.hashPubcoin = hashPubcoin := by
  induction mints with
  | nil => cases last
  | cons mint rest ih =>
      by_cases here : mint.hashPubcoin = hashPubcoin
      · exact ⟨mint, List.mem_cons_self, here⟩
      · rw [lastTxid, if_neg here, Option.or_none] at last
        rcases ih last with ⟨other, member, same⟩
        exact ⟨other, List.mem_cons_of_mem _ member, same⟩

/-- Nothing is seen of a mint that is not tracked. -/
theorem seen_of_untracked {wallet : CWallet} {hashPubcoin : UInt256}
    (untracked : wallet.hasPubcoinHash hashPubcoin = false) (nHeight : Int)
    (txid : UInt256) :
    (wallet.mints hashPubcoin).seen nHeight txid =
      wallet.mints hashPubcoin := by
  rw [MintPlaces.seen, Option.not_isSome_iff_eq_none.mp
    (ne_true_of_eq_false untracked)]

/-- The last of two updates decides. -/
theorem seen_seen (nHeight : Int) (txid other : UInt256)
    (places : MintPlaces) :
    (places.seen nHeight txid).seen nHeight other =
      places.seen nHeight other := by
  unfold MintPlaces.seen MintPlaces.updateState
  cases tracked : places.zpivTracker with
  | none => simp [tracked]
  | some found =>
      cases stored : places.walletdb with
      | some record => simp
      | none =>
          dsimp only
          by_cases archived : found.isDeterministic ∧ found.isArchived ∧
              places.archive.isSome
          · simp [archived]
          · simp [archived, tracked, stored]

/-- `UpdateState` has nothing to change: the record says the same, or there is
none and none to take from the archive. -/
def MintPlaces.Settled (nHeight : Int) (txid : UInt256)
    (places : MintPlaces) : Prop :=
  ∃ found, places.zpivTracker = some found ∧
    (found.nHeight = nHeight ∧ found.txid = txid ∧
        places.walletdb = some found.toMintRecord ∨
      places.walletdb = none ∧
        ¬(found.isDeterministic ∧ found.isArchived ∧ places.archive.isSome))

theorem seen_eq_self_iff {nHeight : Int} {txid : UInt256}
    {places : MintPlaces} (tracked : places.zpivTracker.isSome = true) :
    places.seen nHeight txid = places ↔ places.Settled nHeight txid := by
  rcases places with ⟨_ | found, walletdb, archive⟩
  · cases tracked
  unfold MintPlaces.seen MintPlaces.updateState MintPlaces.Settled
  cases walletdb with
  | none =>
      dsimp only
      by_cases archived : found.isDeterministic ∧ found.isArchived ∧
          archive.isSome
      · simp [archived]
      · rw [if_neg archived]
        simpa using archived
  | some record =>
      rcases found with ⟨⟨height, id, isUsed, denom⟩, isArchived, kind⟩
      simp only [Option.isSome_some, if_true, MintPlaces.mk.injEq,
        Option.some.injEq, CMintMeta.mk.injEq, MintRecord.mk.injEq, and_true,
        exists_eq_left', reduceCtorEq, false_and, or_false]
      constructor
      · rintro ⟨⟨rfl, rfl⟩, rfl⟩
        exact ⟨rfl, rfl, rfl⟩
      · rintro ⟨rfl, rfl, rfl⟩
        exact ⟨⟨rfl, rfl⟩, rfl⟩

/-- What `UpdateMint` does to a tracked mint. -/
theorem updateMint_of_tracked {wallet : CWallet} {mint : CZerocoinMint}
    (tracked : wallet.hasPubcoinHash mint.hashPubcoin = true)
    (nHeight : Int) (spend : Option (UInt256 × CWalletTx)) :
    wallet.updateMint nHeight spend mint =
      { wallet with
        mints := Function.update wallet.mints mint.hashPubcoin
          ((wallet.mints mint.hashPubcoin).seen nHeight mint.txid) } :=
  if_pos tracked

/-- Where all own mints are tracked, the last one of a coin is recorded. -/
theorem mints_foldl (context : MintContext)
    {mints : List CZerocoinMint} (state : CWallet × List UInt256)
    (tracked : AllTracked state.1 mints) (hashPubcoin : UInt256) :
    (mints.foldl (trackMint context) state).1.mints hashPubcoin =
      ((lastTxid hashPubcoin mints).map fun txid =>
        (state.1.mints hashPubcoin).seen context.nHeight txid).getD
          (state.1.mints hashPubcoin) := by
  induction mints generalizing state with
  | nil => rfl
  | cons mint rest ih =>
      rcases List.forall_mem_cons.mp tracked with ⟨here, later⟩
      rw [List.foldl_cons, ih _ (AllTracked.trackMint later context mint),
        lastTxid]
      cases mine : state.1.isMyMint mint.hashPubcoin with
      | false =>
          rw [trackMint_other mine]
          by_cases same : mint.hashPubcoin = hashPubcoin
          · subst same
            rw [CWallet.isMyMint, Bool.or_eq_false_iff] at mine
            have untouched : ∀ last : Option UInt256, (last.map fun txid =>
                (state.1.mints mint.hashPubcoin).seen context.nHeight
                  txid).getD (state.1.mints mint.hashPubcoin) =
                state.1.mints mint.hashPubcoin := by
              rintro (_ | txid)
              · rfl
              · exact seen_of_untracked mine.1 _ _
            rw [untouched, untouched]
          · simp [same]
      | true =>
          rw [(trackMint_mints context mine).1,
            updateMint_of_tracked (here mine)]
          by_cases same : hashPubcoin = mint.hashPubcoin
          · subst same
            cases lastTxid mint.hashPubcoin rest with
            | none => simp
            | some txid => simp [seen_seen]
          · simp [Ne.symm same, Function.update_of_ne same]

/-- A round with a tracked mint, by the transactions of the wallet. -/
theorem mapWallet_trackMint (context : MintContext)
    {state : CWallet × List UInt256} {mint : CZerocoinMint}
    (mine : state.1.isMyMint mint.hashPubcoin = true)
    (tracked : state.1.hasPubcoinHash mint.hashPubcoin = true) :
    (mint.txid ∈ state.2 ∧
      (trackMint context state mint).2 = state.2 ∧
      (trackMint context state mint).1.mapWallet = state.1.mapWallet) ∨
    (mint.txid ∉ state.2 ∧
      (trackMint context state mint).2 = mint.txid :: state.2 ∧
      (∃ wtx, (trackMint context state mint).1.mapWallet mint.txid =
          some wtx ∧
        ∀ before, state.1.mapWallet mint.txid = some before →
          wtx = before.merge (context.merkleTx mint.txid)) ∧
      ∀ other, other ≠ mint.txid →
        (trackMint context state mint).1.mapWallet other =
          state.1.mapWallet other) := by
  rw [trackMint, if_pos mine, updateMint_of_tracked tracked]
  dsimp only
  by_cases added : mint.txid ∈ state.2
  · left
    rw [if_pos added]
    exact ⟨added, rfl, rfl⟩
  · right
    rw [if_neg added]
    refine ⟨added, rfl, addToWallet_self _ _ _, ?_⟩
    intro other different
    exact addToWallet_of_ne different _ _

/-- A transaction that was added is not touched again. -/
theorem mapWallet_added {mints : List CZerocoinMint}
    {state : CWallet × List UInt256} (tracked : AllTracked state.1 mints)
    {txid : UInt256} (added : txid ∈ state.2) :
    (mints.foldl (trackMint context) state).1.mapWallet txid =
      state.1.mapWallet txid := by
  induction mints generalizing state with
  | nil => rfl
  | cons mint rest ih =>
      rcases List.forall_mem_cons.mp tracked with ⟨here, later⟩
      rw [List.foldl_cons]
      have later' := AllTracked.trackMint later context mint
      cases mine : state.1.isMyMint mint.hashPubcoin with
      | false =>
          rw [trackMint_other mine]
          exact ih later added
      | true =>
          rcases mapWallet_trackMint context mine (here mine) with
            ⟨_, same, kept⟩ | ⟨absent, more, _, kept⟩
          · rw [ih later' (same ▸ added), kept]
          · have different : txid ≠ mint.txid := by
              rintro rfl
              exact absent added
            rw [ih later' (more ▸ List.mem_cons_of_mem _ added),
              kept txid different]

/-- The transaction of an own mint is in the wallet afterwards. -/
theorem mapWallet_mine (context : MintContext)
    {mints : List CZerocoinMint} (state : CWallet × List UInt256)
    (tracked : AllTracked state.1 mints)
    {mint : CZerocoinMint} (member : mint ∈ mints)
    (mine : state.1.isMyMint mint.hashPubcoin = true)
    (fresh : mint.txid ∉ state.2) :
    ∃ wtx, (mints.foldl (trackMint context) state).1.mapWallet mint.txid =
        some wtx ∧
      ∀ before, state.1.mapWallet mint.txid = some before →
        wtx = before.merge (context.merkleTx mint.txid) := by
  induction mints generalizing state with
  | nil => cases member
  | cons first rest ih =>
      rcases List.forall_mem_cons.mp tracked with ⟨here, later⟩
      rw [List.foldl_cons]
      have later' := AllTracked.trackMint later context first
      cases firstMine : state.1.isMyMint first.hashPubcoin with
      | false =>
          rcases List.mem_cons.mp member with rfl | inRest
          · rw [mine] at firstMine
            cases firstMine
          · rw [trackMint_other firstMine]
            exact ih state later inRest mine fresh
      | true =>
          have round := mapWallet_trackMint context firstMine (here firstMine)
          by_cases same : first.txid = mint.txid
          · rcases round with ⟨added, _, _⟩ | ⟨_, more, merged, _⟩
            · exact absurd (same ▸ added) fresh
            · rw [mapWallet_added later' (more ▸ same ▸ List.mem_cons_self),
                ← same]
              exact merged
          · have inRest : mint ∈ rest := by
              rcases List.mem_cons.mp member with rfl | inRest
              · exact absurd rfl same
              · exact inRest
            have mine' : (trackMint context state first).1.isMyMint
                mint.hashPubcoin = true := by
              rw [isMyMint_trackMint]
              exact mine
            rcases round with ⟨_, sameAdded, kept⟩ | ⟨_, more, _, kept⟩
            · rw [← kept]
              exact ih _ later' inRest mine' (sameAdded ▸ fresh)
            · rw [← kept mint.txid (Ne.symm same)]
              apply ih _ later' inRest mine'
              rw [more, List.mem_cons, not_or]
              exact ⟨Ne.symm same, fresh⟩

/-- The wallet has the mint and its transaction as the block shows them. -/
structure Recorded (context : MintContext) (mints : List CZerocoinMint)
    (wallet : CWallet) (mint : CZerocoinMint) : Prop where
  seen : ∃ txid, lastTxid mint.hashPubcoin mints = some txid ∧
    (wallet.mints mint.hashPubcoin).Settled context.nHeight txid
  known : ∃ wtx, wallet.mapWallet mint.txid = some wtx ∧
    wtx.merge (context.merkleTx mint.txid) = wtx

/-- Every own mint is tracked, and its transaction known. -/
def AllKnown (context : MintContext) (wallet : CWallet)
    (mints : List CZerocoinMint) : Prop :=
  ∀ mint ∈ mints, wallet.isMyMint mint.hashPubcoin = true →
    wallet.hasPubcoinHash mint.hashPubcoin = true ∧
      ∃ wtx, wallet.mapWallet mint.txid = some wtx ∧
        wtx.merge (context.merkleTx mint.txid) = wtx

/-- Then only the mints may change. -/
theorem foldl_of_allKnown (context : MintContext)
    {mints : List CZerocoinMint} (state : CWallet × List UInt256)
    (known : AllKnown context state.1 mints) :
    ∃ places, (mints.foldl (trackMint context) state).1 =
      { state.1 with mints := places } := by
  induction mints generalizing state with
  | nil => exact ⟨state.1.mints, rfl⟩
  | cons mint rest ih =>
      rcases List.forall_mem_cons.mp known with ⟨here, later⟩
      rw [List.foldl_cons]
      have round : ∃ places, (trackMint context state mint).1 =
          { state.1 with mints := places } := by
        cases mine : state.1.isMyMint mint.hashPubcoin with
        | false =>
            rw [trackMint_other mine]
            exact ⟨state.1.mints, rfl⟩
        | true =>
            rcases here mine with ⟨tracked, wtx, isKnown, merged⟩
            rw [trackMint, if_pos mine, updateMint_of_tracked tracked]
            dsimp only
            split_ifs
            · exact ⟨_, rfl⟩
            · refine ⟨_, addToWallet_known ?_ merged⟩
              exact isKnown
      rcases round with ⟨places, changed⟩
      have known' : AllKnown context (trackMint context state mint).1 rest := by
        intro other member mine
        rw [isMyMint_trackMint] at mine
        rcases later other member mine with ⟨tracked, isKnown⟩
        refine ⟨tracked_trackMint tracked mint, ?_⟩
        rw [changed]
        exact isKnown
      rcases ih _ known' with ⟨last, same⟩
      exact ⟨last, same.trans (by rw [changed])⟩

/-- A loop that changes nothing has found every own mint recorded. -/
theorem recorded_of_kept {context : MintContext} {mints : List CZerocoinMint}
    {wallet : CWallet}
    (kept : (mints.foldl (trackMint context) (wallet, [])).1 = wallet)
    {mint : CZerocoinMint} (member : mint ∈ mints)
    (mine : wallet.isMyMint mint.hashPubcoin = true) :
    Recorded context mints wallet mint := by
  have tracked : AllTracked wallet mints := by
    intro other inMints otherMine
    rw [← kept]
    exact mine_tracked inMints otherMine
  refine ⟨?_, ?_⟩
  · rcases Option.isSome_iff_exists.mp (lastTxid_isSome member) with
      ⟨txid, last⟩
    have after := mints_foldl context (wallet, []) tracked mint.hashPubcoin
    rw [kept, last, Option.map_some, Option.getD_some] at after
    exact ⟨txid, last,
      (seen_eq_self_iff (tracked mint member mine)).mp after.symm⟩
  · rcases mapWallet_mine context (wallet, []) tracked member mine
      List.not_mem_nil with ⟨wtx, after, merged⟩
    rw [kept] at after
    exact ⟨wtx, after, (merged wtx after).symm⟩

/-- Recorded mints are seen again as they are. -/
theorem seen_of_recorded {context : MintContext}
    {mints : List CZerocoinMint} {wallet : CWallet}
    (recorded : ∀ mint ∈ mints, wallet.isMyMint mint.hashPubcoin = true →
      Recorded context mints wallet mint)
    {hashPubcoin txid : UInt256}
    (tracked : wallet.hasPubcoinHash hashPubcoin = true)
    (last : lastTxid hashPubcoin mints = some txid) :
    (wallet.mints hashPubcoin).seen context.nHeight txid =
      wallet.mints hashPubcoin := by
  rcases lastTxid_mem last with ⟨mint, member, rfl⟩
  have mine : wallet.isMyMint mint.hashPubcoin = true :=
    Bool.or_eq_true_iff.mpr (.inl tracked)
  rcases (recorded mint member mine).seen with ⟨recent, same, settled⟩
  cases last.symm.trans same
  exact (seen_eq_self_iff tracked).mpr settled

/--
The loop leaves the wallet as it is exactly when every own mint of the block is
recorded already.
-/
theorem trackMints_kept_iff (context : MintContext)
    (mints : List CZerocoinMint) (wallet : CWallet) :
    trackMints context mints wallet = wallet ↔
      ∀ mint ∈ mints, wallet.isMyMint mint.hashPubcoin = true →
        Recorded context mints wallet mint := by
  unfold trackMints
  constructor
  · intro kept mint member mine
    exact recorded_of_kept kept member mine
  · intro recorded
    have known : AllKnown context wallet mints := by
      intro mint member mine
      rcases recorded mint member mine with
        ⟨⟨_, _, found, isFound, _⟩, isKnown⟩
      exact ⟨Option.isSome_of_eq_some isFound, isKnown⟩
    have tracked : AllTracked wallet mints :=
      fun mint member mine => (known mint member mine).1
    rcases foldl_of_allKnown context (wallet, []) known with
      ⟨places, changed⟩
    have same : places = wallet.mints := by
      funext hashPubcoin
      have entry := mints_foldl context (wallet, []) tracked hashPubcoin
      rw [changed] at entry
      refine entry.trans ?_
      cases last : lastTxid hashPubcoin mints with
      | none => rfl
      | some txid =>
          cases found : wallet.hasPubcoinHash hashPubcoin with
          | true => exact seen_of_recorded recorded found last
          | false => exact seen_of_untracked found _ _
    rw [changed, same]

end Loop

end PrivateDatagram.Wallet.OwnMints
