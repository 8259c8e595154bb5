import PrivateDatagram.Chainstate.Disconnect

/-!
# Views that tell the truth

Connecting and disconnecting blocks moves outputs between the coins and the
undo data.  Whatever the order, an unspent output is that of the transaction
with its hash.

A transaction stands for its hash.
-/

namespace PrivateDatagram.Chainstate.FaithfulView

open Wire.Serialize Wire.Transaction Coins Disconnect

/-- What hashes stand for. -/
structure Ledger where
  transaction : UInt256 → CTransaction
  getHash_transaction : ∀ txid, (transaction txid).getHash = txid

/-- The output that an input spends. -/
def spentOutput (ledger : Ledger) (txin : CTxIn) : Option CTxOut :=
  (ledger.transaction txin.prevout.hash).vout[txin.prevout.n.toNat]?

/-- Unspent outputs are those of the transactions with their hashes. -/
def Faithful (ledger : Ledger) (known : UInt256 → Prop) (view : CoinsMap) :
    Prop :=
  ∀ txid nPos txout, (view.entry txid).unspent nPos = some txout →
    (ledger.transaction txid).vout[nPos]? = some txout ∧ known txid

/-- Undo data has the outputs that the inputs spent. -/
def FaithfulUndo (ledger : Ledger) (known : UInt256 → Prop)
    (vin : List CTxIn) (undos : List CTxInUndo) : Prop :=
  ∀ pair ∈ vin.zip undos,
    spentOutput ledger pair.1 = some pair.2.txout ∧
      known pair.1.prevout.hash

section Views

variable {ledger : Ledger} {known : UInt256 → Prop} {view after : CoinsMap}
  {tx : CTransaction} {vin : List CTxIn} {nHeight : Int32}

theorem Faithful.mono {more : UInt256 → Prop}
    (faithful : Faithful ledger known view)
    (implies : ∀ txid, known txid → more txid) :
    Faithful ledger more view := by
  intro txid nPos txout unspent
  obtain ⟨output, hash⟩ := faithful txid nPos txout unspent
  exact ⟨output, implies _ hash⟩

theorem FaithfulUndo.mono {more : UInt256 → Prop} {undos : List CTxInUndo}
    (faithful : FaithfulUndo ledger known vin undos)
    (implies : ∀ txid, known txid → more txid) :
    FaithfulUndo ledger more vin undos := by
  intro pair member
  obtain ⟨output, hash⟩ := faithful pair member
  exact ⟨output, implies _ hash⟩

/-- An entry of which every unspent output is in the ledger can be put. -/
theorem Faithful.put (faithful : Faithful ledger known view)
    {txid : UInt256} {coins : CCoins}
    (entry : ∀ nPos txout, coins.unspent nPos = some txout →
      (ledger.transaction txid).vout[nPos]? = some txout ∧ known txid) :
    Faithful ledger known (view.put txid coins) := by
  intro other nPos txout unspent
  by_cases same : other = txid
  · subst same
    rw [entry_put_self] at unspent
    exact entry _ _ unspent
  · rw [entry_put_of_ne same] at unspent
    exact faithful other nPos txout unspent

theorem Faithful.spendInputs (faithful : Faithful ledger known view)
    {undos : List CTxInUndo}
    (spent : Coins.spendInputs vin view = some (undos, after)) :
    Faithful ledger known after ∧ FaithfulUndo ledger known vin undos := by
  induction vin generalizing view undos with
  | nil =>
      cases spent
      refine ⟨faithful, ?_⟩
      intro pair member
      cases member
  | cons txin rest ih =>
      rcases spendInputs_cons spent with
        ⟨undo, coins, undos', done, later, rfl⟩
      have kept : Faithful ledger known
          (view.put txin.prevout.hash coins) := by
        apply faithful.put
        intro nPos txout unspent
        rw [unspent_spend done] at unspent
        split_ifs at unspent
        exact faithful _ nPos txout unspent
      obtain ⟨final, others⟩ := ih kept later
      refine ⟨final, ?_⟩
      intro pair member
      rw [List.zip_cons_cons, List.mem_cons] at member
      rcases member with rfl | inRest
      · exact faithful _ _ undo.txout (spend_undo done).1
      · exact others pair inRest

/-- The outputs of a new entry are those of the transaction. -/
theorem unspent_fromTx {created : CCoins}
    (made : CCoins.fromTx tx nHeight = some created) {nPos : Nat}
    {txout : CTxOut} (unspent : created.unspent nPos = some txout) :
    tx.vout[nPos]? = some txout := by
  unfold CCoins.fromTx at made
  obtain ⟨fCoinBase, _, rfl⟩ := Option.map_eq_some_iff.mp made
  rw [CCoins.clearUnspendable, unspent_cleanup, unspent_some_iff,
    List.getElem?_map] at unspent
  obtain ⟨cleared, real⟩ := unspent
  obtain ⟨output, here, rfl⟩ := Option.map_eq_some_iff.mp cleared
  split_ifs at real with unspendable
  · cases real
  · rw [if_neg unspendable]
    exact here

theorem Faithful.updateCoins (faithful : Faithful ledger known view)
    {undos : List CTxInUndo} (isKnown : known tx.getHash)
    (hash : ledger.transaction tx.getHash = tx)
    (done : Coins.updateCoins tx nHeight view = some (undos, after)) :
    Faithful ledger known after ∧
      FaithfulUndo ledger known (spentInputs tx) undos := by
  obtain ⟨spends, created, middle, _, made, spent, rfl⟩ :=
    updateCoins_some done
  obtain ⟨kept, undone⟩ := faithful.spendInputs spent
  refine ⟨kept.put ?_, undone⟩
  intro nPos txout unspent
  rw [hash]
  exact ⟨unspent_fromTx made unspent, isKnown⟩

/-- The undo data of a block, with nothing for the first transaction. -/
def FaithfulUndos (ledger : Ledger) (known : UInt256 → Prop)
    (txundos : List (CTransaction × Option (List CTxInUndo))) : Prop :=
  ∀ pair ∈ txundos, ∀ undos, pair.2 = some undos →
    spendsCoins pair.1 = some true →
    FaithfulUndo ledger known pair.1.vin undos

/-- The hashes of a list of transactions are theirs in the ledger. -/
def Listed (ledger : Ledger) (known : UInt256 → Prop)
    (vtx : List CTransaction) : Prop :=
  ∀ tx ∈ vtx, known tx.getHash ∧ ledger.transaction tx.getHash = tx

theorem Faithful.updateAll {vtx : List CTransaction}
    {undos : List (List CTxInUndo)} (faithful : Faithful ledger known view)
    (listed : Listed ledger known vtx)
    (done : Disconnect.updateAll nHeight vtx view = some (undos, after)) :
    Faithful ledger known after ∧
      FaithfulUndos ledger known (vtx.zip (undos.map some)) := by
  induction vtx generalizing view undos with
  | nil =>
      cases done
      refine ⟨faithful, ?_⟩
      intro pair member
      cases member
  | cons tx rest ih =>
      rw [Disconnect.updateAll] at done
      split at done
      · cases done
      case h_2 undo middle updated =>
        split at done
        · cases done
        case h_2 undos' reached later =>
          cases done
          obtain ⟨isKnown, hash⟩ := listed tx List.mem_cons_self
          obtain ⟨kept, here⟩ := faithful.updateCoins isKnown hash updated
          obtain ⟨final, others⟩ := ih kept
            (fun tx member => listed tx (List.mem_cons_of_mem _ member)) later
          refine ⟨final, ?_⟩
          intro pair member found same spends
          rw [List.map_cons, List.zip_cons_cons, List.mem_cons] at member
          rcases member with rfl | inRest
          · cases same
            rw [spentInputs, if_pos spends] at here
            exact here
          · exact others pair inRest found same spends

theorem Faithful.connectTransactions {vtx : List CTransaction}
    {vtxundo : List (List CTxInUndo)} (faithful : Faithful ledger known view)
    (listed : Listed ledger known vtx)
    (done : Disconnect.connectTransactions vtx nHeight view =
      some (vtxundo, after)) :
    Faithful ledger known after ∧
      FaithfulUndos ledger known (vtx.zip (none :: vtxundo.map some)) := by
  unfold Disconnect.connectTransactions at done
  obtain ⟨⟨undos, final⟩, updated, same⟩ := Option.map_eq_some_iff.mp done
  cases same
  obtain ⟨kept, undone⟩ := faithful.updateAll listed updated
  refine ⟨kept, ?_⟩
  match vtx, undos with
  | [], _ =>
      intro pair member
      cases member
  | first :: rest, [] =>
      intro pair member found same
      rw [List.tail_nil, List.map_nil, List.zip_cons_cons, List.zip_nil_right,
        List.mem_singleton] at member
      subst member
      cases same
  | first :: rest, undo :: others =>
      intro pair member found same
      rw [List.tail_cons, List.zip_cons_cons, List.mem_cons] at member
      rcases member with rfl | inRest
      · cases same
      · apply undone pair _ found same
        rw [List.map_cons, List.zip_cons_cons]
        exact List.mem_cons_of_mem _ inRest

/-! ### Disconnecting -/

/-- Putting an output back adds no other. -/
theorem unspent_restoreOutput {out : COutPoint} {undo : CTxInUndo}
    {coins restored : CCoins}
    (done : restoreOutput out undo coins = some restored) {nPos : Nat}
    {txout : CTxOut} (unspent : restored.unspent nPos = some txout) :
    nPos = out.n.toNat ∧ txout = undo.txout ∨
      coins.unspent nPos = some txout := by
  unfold restoreOutput at done
  dsimp only at done
  split_ifs at done with inside
  cases done
  rw [unspent_some_iff] at unspent
  obtain ⟨here, real⟩ := unspent
  dsimp only at here
  by_cases same : nPos = out.n.toNat
  · subst same
    rw [List.getElem?_set_self inside, Option.some.injEq] at here
    exact Or.inl ⟨rfl, here.symm⟩
  · rw [List.getElem?_set_ne (Ne.symm same)] at here
    apply Or.inr
    rw [unspent_some_iff]
    refine ⟨?_, real⟩
    by_cases old : nPos < coins.vout.length
    · rw [List.getElem?_append_left old] at here
      exact here
    · rw [List.getElem?_append_right (Nat.le_of_not_lt old),
        List.getElem?_replicate] at here
      split_ifs at here
      cases here
      cases real

theorem Faithful.restoreInput {out : COutPoint} {undo : CTxInUndo}
    {fClean fClean' : Bool} (faithful : Faithful ledger known view)
    (output : (ledger.transaction out.hash).vout[out.n.toNat]? =
      some undo.txout)
    (isKnown : known out.hash)
    (done : Disconnect.restoreInput out undo (fClean, view) =
      some (fClean', after)) :
    Faithful ledger known after := by
  unfold Disconnect.restoreInput at done
  dsimp only at done
  obtain ⟨restored, put, same⟩ := Option.map_eq_some_iff.mp done
  cases same
  apply faithful.put
  intro nPos txout unspent
  rcases unspent_restoreOutput put unspent with ⟨rfl, rfl⟩ | before
  · exact ⟨output, isKnown⟩
  · unfold restoreMetadata at before
    split_ifs at before
    · rw [unspent_some_iff] at before
      cases before.1
    · exact faithful _ nPos txout before

theorem Faithful.restoreInputs {undos : List CTxInUndo}
    {fClean fClean' : Bool} (faithful : Faithful ledger known view)
    (undone : FaithfulUndo ledger known vin undos)
    (done : Disconnect.restoreInputs (vin.zip undos) (fClean, view) =
      some (fClean', after)) :
    Faithful ledger known after := by
  induction vin generalizing undos fClean' after with
  | nil =>
      cases done
      exact faithful
  | cons txin rest ih =>
      cases undos with
      | nil =>
          cases done
          exact faithful
      | cons undo others =>
          rcases restoreInputs_cons done with ⟨⟨middleClean, middle⟩, first, last⟩
          have kept := ih (fun pair member =>
            undone pair (List.mem_cons_of_mem _ member)) first
          obtain ⟨output, isKnown⟩ := undone (txin, undo) List.mem_cons_self
          exact kept.restoreInput output isKnown last

theorem Faithful.disconnectTx {txundo : Option (List CTxInUndo)}
    {fClean fClean' : Bool} (faithful : Faithful ledger known view)
    (undone : ∀ undos, txundo = some undos → spendsCoins tx = some true →
      FaithfulUndo ledger known tx.vin undos)
    (done : Disconnect.disconnectTx nHeight tx txundo (fClean, view) =
      some (fClean', after)) :
    Faithful ledger known after := by
  have emptied : Faithful ledger known (view.put tx.getHash .empty) := by
    apply faithful.put
    intro nPos txout unspent
    rw [unspent_some_iff] at unspent
    cases unspent.1
  unfold Disconnect.disconnectTx at done
  split at done
  case h_1 spends outsBlock kind _ =>
    dsimp only [removeOutputs] at done
    cases spends with
    | true =>
        rw [if_pos rfl] at done
        cases txundo with
        | none => cases done
        | some undos =>
            dsimp only at done
            split at done
            · cases done
            · exact emptied.restoreInputs (undone undos rfl kind) done
    | false =>
        cases done
        exact emptied
  · cases done

theorem Faithful.disconnectTxs
    {txundos : List (CTransaction × Option (List CTxInUndo))}
    {fClean fClean' : Bool} (faithful : Faithful ledger known view)
    (undone : FaithfulUndos ledger known txundos)
    (done : Disconnect.disconnectTxs nHeight txundos (fClean, view) =
      some (fClean', after)) :
    Faithful ledger known after := by
  induction txundos generalizing fClean' after with
  | nil =>
      cases done
      exact faithful
  | cons pair rest ih =>
      obtain ⟨tx, txundo⟩ := pair
      rw [Disconnect.disconnectTxs] at done
      split at done
      · cases done
      case h_2 reached later =>
        obtain ⟨middleClean, middle⟩ := reached
        have kept := ih (fun pair member =>
          undone pair (List.mem_cons_of_mem _ member)) later
        exact kept.disconnectTx
          (undone (tx, txundo) List.mem_cons_self) done

/-- An available output of a faithful view. -/
theorem Faithful.available (faithful : Faithful ledger known view)
    {out : COutPoint} {coins : CCoins} (found : view out.hash = some coins)
    (isAvailable : coins.isAvailable out.n = true) :
    ∃ txout, coins.vout[out.n.toNat]? = some txout ∧
      (ledger.transaction out.hash).vout[out.n.toNat]? = some txout ∧
      known out.hash := by
  unfold CCoins.isAvailable at isAvailable
  split at isAvailable
  · cases isAvailable
  case h_2 txout output =>
    rw [Bool.and_eq_true, Bool.not_eq_true'] at isAvailable
    refine ⟨txout, output, faithful out.hash out.n.toNat txout ?_⟩
    rw [CoinsMap.entry, found, Option.getD_some, unspent_some_iff]
    exact ⟨output, isAvailable.1⟩

end Views

end PrivateDatagram.Chainstate.FaithfulView
