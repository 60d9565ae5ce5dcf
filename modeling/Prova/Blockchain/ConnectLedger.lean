import Prova.Blockchain.ChainSteps
import Prova.Blockchain.UtxoLedger

/-!
# Connecting a block to the ledger

On the ledger of coins a transaction spends what its inputs name and creates its own coins. Connecting
a block to a utxo view does the same, as long as no transaction of the block spends from itself or from
a later one. Otherwise it may not: the view already holds the outputs of a transaction that some other
input of the block refers to, so that they can be spent before they are made, and making them again
brings them back.
-/

namespace Prova

open AList List Ledger

variable {hash : Hash} {pending : List MsgTx} {stxos : List SpentTxOut} {block : MsgBlock}
  {tx : MsgTx} {height : UInt32} {db : UtxoDb} {view view' : UtxoViewpoint}

variable {c : Crypto}

/-! ### Transactions on the ledger -/

/-- The outpoints a transaction spends; a coinbase spends nothing. -/
def spends (tx : MsgTx) : List OutPoint := if isCoinBase tx then [] else tx.prevOuts

def applyTx (c : Crypto) (L : Ledger OutPoint Coin) (tx : MsgTx) : Ledger OutPoint Coin :=
  Ledger.create (Ledger.spend L (spends tx)) (newCoins c tx)

/-- No transaction spends from itself or from a later one. -/
def NoForwardRefs (c : Crypto) (txs : List MsgTx) : Prop :=
  (∀ tx ∈ txs, ∀ o ∈ spends tx, o.hash ≠ tx.txHash c) ∧
    txs.Pairwise fun tx later => ∀ o ∈ spends tx, o.hash ≠ later.txHash c

instance (txs : List MsgTx) : Decidable (NoForwardRefs c txs) :=
  inferInstanceAs (Decidable (_ ∧ _))

theorem noForwardRefs_cons {txs : List MsgTx} (h : NoForwardRefs c (tx :: txs)) :
    (∀ o ∈ spends tx, ∀ tx' ∈ tx :: txs, o.hash ≠ tx'.txHash c) ∧ NoForwardRefs c txs := by
  obtain ⟨hown, hlater⟩ := h
  rw [forall_mem_cons] at hown
  rw [pairwise_cons] at hlater
  refine ⟨fun o ho tx' htx' => ?_, hown.2, hlater.2⟩
  rcases mem_cons.mp htx' with rfl | htx'
  · exact hown.1 o ho
  · exact hlater.1 tx' htx' o ho

theorem lookup_applyTx (L : Ledger OutPoint Coin) (tx : MsgTx) (o : OutPoint) : (applyTx c L tx).lookup o =
      (itemOf (newCoins c tx) o).or (if o ∈ spends tx then none else L.lookup o) := by
  unfold applyTx
  rw [lookup_create, lookup_spend]

theorem itemOf_newCoins_of_ne {o : OutPoint} (h : o.hash ≠ tx.txHash c) : itemOf (newCoins c tx) o = none :=
  itemOf_eq_none.mpr fun _ hp heq => h (heq ▸ hash_of_mem_newCoins hp)

/-! ### What the view does -/

namespace UtxoViewpoint

variable {db : UtxoDb}

theorem lookupEntry_setEntry (view : UtxoViewpoint) (hash : Hash) (entry : Option UtxoEntry) (hash' : Hash) :
    (view.setEntry hash entry).lookupEntry hash' =
      if hash' = hash then entry else view.lookupEntry hash' := by
  unfold lookupEntry setEntry
  split_ifs with heq
  · rw [heq, lookup_insert, Option.join_some]
  · rw [lookup_insert_ne heq]

theorem Loaded.spendOutput (h : Loaded db view) {entry : UtxoEntry}
    (hentry : view.lookupEntry hash = some entry) (i : UInt32) :
    Loaded db (view.setEntry hash (some (entry.spendOutput i))) := by
  by_cases hmod : (entry.spendOutput i).modified = true
  · exact h.setEntry_modified hmod
  · -- nothing was spent, so the entry is the one the view has
    have hsame : entry.spendOutput i = entry := by
      unfold UtxoEntry.spendOutput at hmod ⊢
      split
      · rfl
      · split
        · rfl
        · next hlookup hspent =>
          simp only [hlookup, hspent] at hmod
          exact absurd rfl hmod
    have hlookup : view.entries.lookup hash = some (some entry) := Option.join_eq_some_iff.mp hentry
    rw [hsame]
    exact h.set (h.kept hlookup)

theorem spendInputs_cons {txIn : TxIn} {txIns : List TxIn} : spendInputs (txIn :: txIns) view = .ok (view', stxos) ↔
      ∃ entry rest, view.lookupEntry txIn.previousOutPoint.hash = some entry ∧
        spendInputs txIns (view.setEntry txIn.previousOutPoint.hash
          (some (entry.spendOutput txIn.previousOutPoint.index))) = .ok (view', rest) ∧
        stxos = spentTxOut (entry.spendOutput txIn.previousOutPoint.index) txIn.previousOutPoint.index :: rest := by
  rw [spendInputs]
  cases view.lookupEntry txIn.previousOutPoint.hash with
  | none => simp
  | some entry =>
    constructor
    · intro h
      obtain ⟨⟨v, rest⟩, hrest, h⟩ := bind_eq_ok.mp h
      cases h
      exact ⟨entry, rest, rfl, hrest, rfl⟩
    · rintro ⟨_, rest, heq, hrest, rfl⟩
      cases heq
      exact bind_eq_ok.mpr ⟨_, hrest, rfl⟩

/-- What spending one output keeps, spending the outputs of a list of inputs keeps. -/
theorem spendInputs_rule {P : UtxoViewpoint → Prop} {txIns : List TxIn}
    (hstep : ∀ v (o : OutPoint) entry, v.lookupEntry o.hash = some entry → P v →
      P (v.setEntry o.hash (some (entry.spendOutput o.index))))
    (h : spendInputs txIns view = .ok (view', stxos)) (hview : P view) : P view' := by
  induction txIns generalizing view stxos with
  | nil =>
    cases h
    exact hview
  | cons txIn txIns ih =>
    obtain ⟨entry, rest, hentry, hrest, -⟩ := spendInputs_cons.mp h
    exact ih hrest (hstep view _ entry hentry hview)

/-- The inputs that spend something. -/
def spentIns (tx : MsgTx) : List TxIn := if isCoinBase tx then [] else tx.txIn

theorem spends_eq (tx : MsgTx) : spends tx = (spentIns tx).map (·.previousOutPoint) := by
  unfold spends spentIns
  split_ifs <;> rfl

theorem connectTransaction_iff : view.connectTransaction c tx height = .ok (view', stxos) ↔
      ∃ spent, spendInputs (spentIns tx) view = .ok (spent, stxos) ∧ view' = spent.addTxOuts c tx height := by
  unfold connectTransaction spentIns
  split_ifs
  · simp [spendInputs, eq_comm, and_comm]
  · constructor
    · intro h
      obtain ⟨⟨spent, rest⟩, hspend, h⟩ := bind_eq_ok.mp h
      cases h
      exact ⟨spent, hspend, rfl⟩
    · rintro ⟨spent, hspend, rfl⟩
      exact bind_eq_ok.mpr ⟨_, hspend, rfl⟩

theorem connectTransaction_coinBase (hcb : isCoinBase tx = true)
    (h : view.connectTransaction c tx height = .ok (view', stxos)) :
    view' = view.addTxOuts c tx height ∧ stxos = [] := by
  obtain ⟨spent, hspend, rfl⟩ := connectTransaction_iff.mp h
  rw [spentIns, if_pos hcb] at hspend
  cases hspend
  exact ⟨rfl, rfl⟩

theorem spendInputs_ok {txIns : List TxIn} (hloaded : Loaded db view)
    (h : spendInputs txIns view = .ok (view', stxos)) : Loaded db view' ∧ ∀ o, coinAt db view' o =
      if o ∈ txIns.map (·.previousOutPoint) then none else coinAt db view o := by
  induction txIns generalizing view stxos with
  | nil =>
    cases h
    exact ⟨hloaded, fun o => rfl⟩
  | cons txIn txIns ih =>
    obtain ⟨entry, rest, hentry, hrest, -⟩ := spendInputs_cons.mp h
    obtain ⟨hloaded', hcoins⟩ := ih (hloaded.spendOutput hentry _) hrest
    refine ⟨hloaded', fun o => ?_⟩
    rw [hcoins, coinAt_setEntry, map_cons]
    by_cases hrest : o ∈ txIns.map (·.previousOutPoint)
    · simp [hrest]
    · simp only [hrest, if_false, mem_cons, or_false]
      by_cases hhash : o.hash = txIn.previousOutPoint.hash
      · rw [if_pos hhash]
        change (entry.spendOutput _).coinAt _ = _
        have hiff : o = txIn.previousOutPoint ↔ o.index = txIn.previousOutPoint.index := by
          constructor
          · exact fun heq => congrArg OutPoint.index heq
          · exact fun hindex => OutPoint.ext hhash hindex
        rw [UtxoEntry.coinAt_spendOutput, if_congr hiff rfl rfl, coinAt_of_lookupEntry (hhash ▸ hentry)]
      · rw [if_neg hhash, if_neg fun heq => hhash (congrArg OutPoint.hash heq)]

theorem coinAt_addTxOuts (view : UtxoViewpoint) (tx : MsgTx) (height : UInt32) (o : OutPoint) :
    coinAt db (view.addTxOuts c tx height) o =
      if o.hash = tx.txHash c then
        (itemOf (newCoins c tx) o).or
          ((view.lookupEntry (tx.txHash c)).bind (·.coinAt o.index))
      else coinAt db view o := by
  unfold addTxOuts
  rw [coinAt_setEntry]
  split_ifs with hhash
  · obtain ⟨hash, index⟩ := o
    subst hhash
    have hadd := fun m => coin_addOutputs (tx.txHash c) 0 tx.txOut m index
    unfold newCoins
    cases hentry : view.lookupEntry (tx.txHash c) with
    | none => exact hadd ∅
    | some entry => exact hadd entry.sparseOutputs
  · rfl

theorem lookupEntry_addTxOuts (view : UtxoViewpoint) (tx : MsgTx) (height : UInt32) :
    ∃ entry, (view.addTxOuts c tx height).lookupEntry (tx.txHash c) = some entry ∧
      entry.blockHeight = height ∧ entry.isCoinBase =
        ((view.lookupEntry (tx.txHash c)).map (·.isCoinBase)).getD (isCoinBase tx) := by
  unfold addTxOuts
  rw [lookupEntry_setEntry, if_pos rfl]
  refine ⟨_, rfl, ?_, ?_⟩
  · cases view.lookupEntry (tx.txHash c) with
    | none => rfl
    | some entry => rfl
  · cases view.lookupEntry (tx.txHash c) with
    | none => rfl
    | some entry => rfl

theorem Loaded.addTxOuts (h : Loaded db view) (tx : MsgTx) (height : UInt32) : Loaded db (view.addTxOuts c tx height) :=
  h.setEntry_modified rfl

theorem newCoins_or_entry {o : OutPoint} (ho : o.hash = tx.txHash c)
    (hearly : coinAt db view o ≠ none → itemOf (newCoins c tx) o ≠ none) : (itemOf (newCoins c tx) o).or
      ((view.lookupEntry (tx.txHash c)).bind (·.coinAt o.index)) =
        itemOf (newCoins c tx) o := by
  cases hitem : itemOf (newCoins c tx) o with
  | some coin => rfl
  | none =>
    cases hentry : view.lookupEntry (tx.txHash c) with
    | none => rfl
    | some entry =>
      have hcoin : coinAt db view o = entry.coinAt o.index := coinAt_of_lookupEntry (ho ▸ hentry)
      have hnone : coinAt db view o = none := by
        by_contra hne
        exact hearly hne hitem
      exact hcoin.symm.trans hnone

theorem connectTransaction_ok (hloaded : Loaded db view)
    (h : view.connectTransaction c tx height = .ok (view', stxos)) :
    ∃ spent : UtxoViewpoint, view' = spent.addTxOuts c tx height ∧ Loaded db spent ∧
      ∀ o, coinAt db spent o = if o ∈ spends tx then none else coinAt db view o := by
  obtain ⟨spent, hspend, rfl⟩ := connectTransaction_iff.mp h
  rw [spends_eq]
  exact ⟨spent, rfl, spendInputs_ok hloaded hspend⟩

theorem spendInputs_entry {txIns : List TxIn} {entry' : UtxoEntry} (h : spendInputs txIns view = .ok (view', stxos))
    (hentry : view'.lookupEntry hash = some entry') :
    ∃ entry, view.lookupEntry hash = some entry ∧ entry'.blockHeight = entry.blockHeight ∧
      entry'.isCoinBase = entry.isCoinBase := by
  revert entry'
  refine spendInputs_rule (P := fun v => ∀ {entry'}, v.lookupEntry hash = some entry' →
    ∃ entry, view.lookupEntry hash = some entry ∧ entry'.blockHeight = entry.blockHeight ∧
      entry'.isCoinBase = entry.isCoinBase) (fun v o entry hlookup hv entry' hentry => ?_) h
    fun {entry'} hentry => ⟨entry', hentry, rfl, rfl⟩
  rw [lookupEntry_setEntry] at hentry
  split_ifs at hentry with heq
  · obtain ⟨entry₀, hentry₀, hheight, hflag⟩ := hv (heq ▸ hlookup)
    cases hentry
    refine ⟨entry₀, hentry₀, Eq.trans ?_ hheight, Eq.trans ?_ hflag⟩
    · unfold UtxoEntry.spendOutput
      split
      · rfl
      · split <;> rfl
    · unfold UtxoEntry.spendOutput
      split
      · rfl
      · split <;> rfl
  · exact hv hentry

theorem connectTransaction_entry {entry' : UtxoEntry} (hne : hash ≠ tx.txHash c)
    (h : view.connectTransaction c tx height = .ok (view', stxos)) (hentry : view'.lookupEntry hash = some entry') :
    ∃ entry, view.lookupEntry hash = some entry ∧ entry'.blockHeight = entry.blockHeight ∧
      entry'.isCoinBase = entry.isCoinBase := by
  obtain ⟨spent, hspend, rfl⟩ := connectTransaction_iff.mp h
  unfold addTxOuts at hentry
  rw [lookupEntry_setEntry, if_neg hne] at hentry
  exact spendInputs_entry hspend hentry

/-! ### Loading -/

theorem lookup_fetchUtxosMain (view : UtxoViewpoint) (txSet : List Hash) (hash : Hash) :
    (view.fetchUtxosMain db txSet).entries.lookup hash =
      if hash ∈ txSet then some (db.lookup hash) else view.entries.lookup hash := by
  unfold fetchUtxosMain
  induction txSet generalizing view with
  | nil => rfl
  | cons key txSet ih =>
    rw [foldl_cons, ih]
    by_cases hrest : hash ∈ txSet
    · simp [hrest]
    · simp only [hrest, if_false, mem_cons, or_false]
      unfold setEntry dbFetchUtxoEntry
      by_cases heq : hash = key
      · subst heq
        rw [lookup_insert, if_pos rfl]
      · rw [lookup_insert_ne heq, if_neg heq]

theorem Loaded.fetchUtxosMain (h : Loaded db view) (txSet : List Hash) : Loaded db (view.fetchUtxosMain db txSet) := by
  refine ⟨fun {hash} hnil => ?_, fun {hash entry} hkept hmod => ?_⟩
  · rw [lookup_fetchUtxosMain] at hnil
    split at hnil
    · exact Option.some.inj hnil
    · exact h.nil hnil
  · rw [lookup_fetchUtxosMain] at hkept
    split at hkept
    · exact Option.some.inj hkept
    · exact h.kept hkept hmod

/-- What the loop of `fetchInputUtxos` does for one input: nothing, note a hash that the view does not
have, or add the outputs of a transaction of the block. -/
theorem noteInput_cases (c : Crypto) (block : MsgBlock) (i : Nat) (s : UtxoViewpoint × List Hash) (txIn : TxIn) :
    noteInput c block i s txIn = s ∨ (txIn.previousOutPoint.hash ∉ s.1.entries ∧
        noteInput c block i s txIn = (s.1, txIn.previousOutPoint.hash :: s.2)) ∨ ∃ tx ∈ block.transactions,
        noteInput c block i s txIn = (s.1.addTxOuts c tx block.height, s.2) := by
  cases hflight : txInFlight c block.transactions txIn.previousOutPoint.hash with
  | none =>
    simp only [noteInput, hflight]
    split_ifs with hmem
    · exact .inl rfl
    · exact .inr (.inl ⟨hmem, rfl⟩)
  | some p =>
    simp only [noteInput, hflight]
    split_ifs with hle hmem
    · have hzip := mem_of_find?_eq_some hflight
      rw [mem_reverse] at hzip
      exact .inr (.inr ⟨p.1, fst_mem_of_mem_zipIdx hzip, rfl⟩)
    · exact .inl rfl
    · exact .inr (.inl ⟨hmem, rfl⟩)

theorem fetchInputUtxos_rule (db : UtxoDb) (block : MsgBlock) (view : UtxoViewpoint)
    (P : UtxoViewpoint × List Hash → Prop) (hinit : P (view, []))
    (hnote : ∀ s hash, P s → hash ∉ s.1.entries → P (s.1, hash :: s.2))
    (hadd : ∀ s, P s → ∀ tx ∈ block.transactions, P (s.1.addTxOuts c tx block.height, s.2)) :
    ∃ s, P s ∧ view.fetchInputUtxos c db block = s.1.fetchUtxosMain db s.2 := by
  refine ⟨_, ?_, rfl⟩
  refine List.foldlRecOn (motive := P) _ _ hinit fun s hs p _ => ?_
  refine List.foldlRecOn (motive := P) _ _ hs fun s hs txIn _ => ?_
  rcases noteInput_cases c block p.2 s txIn with heq | ⟨hmem, heq⟩ | ⟨tx, htx, heq⟩
  · rwa [heq]
  · rw [heq]
    exact hnote s _ hs hmem
  · rw [heq]
    exact hadd s hs tx htx

theorem coinAt_fetchUtxosMain (view : UtxoViewpoint) (txSet : List Hash) (o : OutPoint) :
    coinAt db (view.fetchUtxosMain db txSet) o =
      if o.hash ∈ txSet then UtxoDb.coinAt db o else coinAt db view o := by
  unfold coinAt
  rw [lookup_fetchUtxosMain]
  split_ifs
  · rfl
  · rfl

end UtxoViewpoint

/-! ### The view along a block

Between the transactions a view shows the ledger, except at the outputs of the transactions still to
come: the ledger does not have these yet, while the view may have some of them already. -/

open UtxoViewpoint in
/-- A view over a database shows a ledger, with some transactions still to come. -/
structure Shows (c : Crypto) (db : UtxoDb) (view : UtxoViewpoint) (pending : List MsgTx)
    (L : Ledger OutPoint Coin) : Prop where
  loaded : Loaded db view
  done : ∀ o, (∀ tx ∈ pending, o.hash ≠ tx.txHash c) → L.lookup o = coinAt db view o
  fresh : ∀ tx ∈ pending, ∀ o, o.hash = tx.txHash c → L.lookup o = none
  early : ∀ tx ∈ pending, ∀ o, o.hash = tx.txHash c → coinAt db view o ≠ none →
    Ledger.itemOf (newCoins c tx) o ≠ none

namespace Shows

open UtxoViewpoint

variable {db : UtxoDb} {view : UtxoViewpoint} {L : Ledger OutPoint Coin}

theorem connectTransaction (h : Shows c db view (tx :: pending) L)
    (hnodup : ((tx :: pending).map (·.txHash c)).Nodup)
    (hrefs : ∀ o ∈ spends tx, ∀ tx' ∈ tx :: pending, o.hash ≠ tx'.txHash c)
    (hconnect : view.connectTransaction c tx height = .ok (view', stxos)) :
    Shows c db view' pending (applyTx c L tx) := by
  obtain ⟨spent, rfl, hloaded, hspent⟩ := connectTransaction_ok h.loaded hconnect
  have hother : ∀ tx' ∈ pending, tx'.txHash c ≠ tx.txHash c := fun tx' htx' heq =>
    (nodup_cons.mp hnodup).1 (mem_map.mpr ⟨tx', htx', heq⟩)
  have hunspent : ∀ tx' ∈ tx :: pending, ∀ o : OutPoint, o.hash = tx'.txHash c →
      coinAt db spent o = coinAt db view o := by
    intro tx' htx' o ho
    rw [hspent, if_neg fun hmem => hrefs o hmem tx' htx' ho]
  refine ⟨hloaded.addTxOuts tx height, fun o ho => ?_, fun tx' htx' o ho => ?_, fun tx' htx' o ho hcoin => ?_⟩
  · rw [lookup_applyTx, coinAt_addTxOuts]
    split_ifs with hspends hhash hhash
    · exact absurd hhash (hrefs o hspends tx mem_cons_self)
    · rw [hspent, if_pos hspends, itemOf_newCoins_of_ne hhash]
      rfl
    · -- an output of the transaction itself: the ledger has it from the new coins alone
      rw [h.fresh tx mem_cons_self o hhash, Option.or_none]
      have hearly : coinAt db spent o ≠ none → itemOf (newCoins c tx) o ≠ none := by
        rw [hunspent tx mem_cons_self o hhash]
        exact h.early tx mem_cons_self o hhash
      exact (newCoins_or_entry hhash hearly).symm
    · rw [hspent, if_neg hspends, itemOf_newCoins_of_ne hhash, Option.none_or]
      exact h.done o (forall_mem_cons.mpr ⟨hhash, ho⟩)
  · rw [lookup_applyTx, itemOf_newCoins_of_ne (ho ▸ hother tx' htx'), Option.none_or,
      h.fresh tx' (mem_cons_of_mem _ htx') o ho, ite_self]
  · rw [coinAt_addTxOuts, if_neg (ho ▸ hother tx' htx'), hunspent tx' (mem_cons_of_mem _ htx') o ho] at hcoin
    exact h.early tx' (mem_cons_of_mem _ htx') o ho hcoin

theorem addTxOuts (h : Shows c db view pending L) (hnodup : (pending.map (·.txHash c)).Nodup)
    (htx : tx ∈ pending) (height : UInt32) : Shows c db (view.addTxOuts c tx height) pending L := by
  refine ⟨h.loaded.addTxOuts tx height, fun o ho => ?_, h.fresh, fun tx' htx' o ho hcoin => ?_⟩
  · rw [coinAt_addTxOuts, if_neg (ho tx htx)]
    exact h.done o ho
  · rw [coinAt_addTxOuts] at hcoin
    split at hcoin
    · next hhash =>
      have hsame : tx' = tx := inj_on_of_nodup_map hnodup htx' htx (ho.symm.trans hhash)
      subst hsame
      rwa [newCoins_or_entry ho (h.early tx' htx' o ho)] at hcoin
    · exact h.early tx' htx' o ho hcoin

theorem fetchUtxosMain (h : Shows c db view pending (UtxoDb.ledger db)) {txSet : List Hash}
    (hset : ∀ hash ∈ txSet, ∀ tx ∈ pending, hash ≠ tx.txHash c) :
    Shows c db (view.fetchUtxosMain db txSet) pending (UtxoDb.ledger db) := by
  refine ⟨h.loaded.fetchUtxosMain txSet, fun o ho => ?_, h.fresh, fun tx htx o ho hcoin => ?_⟩
  · rw [coinAt_fetchUtxosMain]
    split
    · exact UtxoDb.lookup_ledger db o
    · exact h.done o ho
  · have hnot : o.hash ∉ txSet := fun hmem => hset o.hash hmem tx htx ho
    rw [coinAt_fetchUtxosMain, if_neg hnot] at hcoin
    exact h.early tx htx o ho hcoin

end Shows

open UtxoViewpoint

/-- What the loop of `fetchInputUtxos` keeps: the transactions of the block are in the view, so that
none of them is among what has to be loaded. -/
private structure Noted (c : Crypto) (db : UtxoDb) (block : MsgBlock)
    (s : UtxoViewpoint × List Hash) : Prop where
  shows : Shows c db s.1 block.transactions (UtxoDb.ledger db)
  present : ∀ tx ∈ block.transactions, tx.txHash c ∈ s.1.entries
  missing : ∀ hash ∈ s.2, ∀ tx ∈ block.transactions, hash ≠ tx.txHash c
  flag : ∀ tx ∈ block.transactions, ∀ entry, s.1.lookupEntry (tx.txHash c) = some entry →
    entry.isCoinBase = isCoinBase tx

private theorem Noted.note {s : UtxoViewpoint × List Hash} (h : Noted c db block s) (hmem : hash ∉ s.1.entries) :
    Noted c db block (s.1, hash :: s.2) := by
  refine ⟨h.shows, h.present, fun hash' hhash tx htx heq => ?_, h.flag⟩
  rcases mem_cons.mp hhash with rfl | hhash
  · exact hmem (heq ▸ h.present tx htx)
  · exact h.missing hash' hhash tx htx heq

private theorem Noted.add {s : UtxoViewpoint × List Hash} (h : Noted c db block s)
    (hnodup : (block.transactions.map (·.txHash c)).Nodup) (htx : tx ∈ block.transactions) :
    Noted c db block (s.1.addTxOuts c tx block.height, s.2) := by
  refine ⟨h.shows.addTxOuts hnodup htx _, fun tx' htx' => ?_, h.missing, fun tx' htx' entry hentry => ?_⟩
  · exact (mem_insert _).mpr (.inr (h.present tx' htx'))
  · by_cases heq : tx'.txHash c = tx.txHash c
    · have hsame : tx' = tx := inj_on_of_nodup_map hnodup htx' htx heq
      obtain ⟨entry', hentry', -, hflag⟩ := lookupEntry_addTxOuts (c := c) s.1 tx block.height
      rw [heq, hentry'] at hentry
      cases hentry
      rw [hflag, hsame]
      cases hold : s.1.lookupEntry (tx.txHash c) with
      | none => rfl
      | some old => exact h.flag tx htx old hold
    · unfold UtxoViewpoint.addTxOuts at hentry
      rw [lookupEntry_setEntry, if_neg heq] at hentry
      exact h.flag tx' htx' entry hentry

theorem checkBIP0030_ok (hstored : UtxoDb.Stored db) (h : checkBIP0030 c db block (newUtxoViewpoint hash) = .ok view) :
    view = (newUtxoViewpoint hash).fetchUtxosMain db (block.transactions.map (·.txHash c)) ∧
      ∀ tx ∈ block.transactions, db.lookup (tx.txHash c) = none := by
  unfold checkBIP0030 at h
  obtain ⟨hspent, h⟩ := bind_unit_eq_ok.mp h
  cases h
  have hall : (newUtxoViewpoint hash).fetchUtxos db (block.transactions.map (·.txHash c)) =
      (newUtxoViewpoint hash).fetchUtxosMain db (block.transactions.map (·.txHash c)) := by
    refine congrArg (fetchUtxosMain db (newUtxoViewpoint hash)) (filter_eq_self.mpr ?_)
    exact fun hash' _ => decide_eq_true (notMem_empty hash')
  rw [hall] at hspent ⊢
  refine ⟨rfl, fun tx htx => ?_⟩
  have hmem : tx.txHash c ∈ block.transactions.map (·.txHash c) := mem_map_of_mem htx
  cases hentry : db.lookup (tx.txHash c) with
  | none => rfl
  | some entry =>
    have hview : entry ∈ ((newUtxoViewpoint hash).fetchUtxosMain db
        (block.transactions.map (·.txHash c))).lookupEntry (tx.txHash c) := by
      unfold lookupEntry
      rw [lookup_fetchUtxosMain, if_pos hmem, hentry]
      rfl
    exact absurd ⟨_, hmem, entry, hview, hstored hentry⟩ (ruleError_eq_ok.mp hspent)

private theorem checkBIP0030_noted (hstored : UtxoDb.Stored db)
    (h : checkBIP0030 c db block (newUtxoViewpoint hash) = .ok view) : Noted c db block (view, []) := by
  obtain ⟨rfl, hnone⟩ := checkBIP0030_ok hstored h
  have hlookup : ∀ tx ∈ block.transactions, ∀ o : OutPoint, o.hash = tx.txHash c →
      UtxoDb.coinAt db o = none := by
    intro tx htx o ho
    unfold UtxoDb.coinAt
    rw [ho, hnone tx htx]
    rfl
  have hcoins : ∀ o, coinAt db ((newUtxoViewpoint hash).fetchUtxosMain db
      (block.transactions.map (·.txHash c))) o = UtxoDb.coinAt db o := by
    intro o
    rw [coinAt_fetchUtxosMain, coinAt_newUtxoViewpoint, ite_self]
  refine ⟨⟨(Loaded.newUtxoViewpoint db hash).fetchUtxosMain _, fun o _ => ?_,
    fun tx htx o ho => ?_, fun tx htx o ho hcoin => ?_⟩, fun tx htx => ?_, fun _ hmem => ?_,
    fun tx htx entry hentry => ?_⟩
  · rw [UtxoDb.lookup_ledger, hcoins]
  · rw [UtxoDb.lookup_ledger, hlookup tx htx o ho]
  · rw [hcoins, hlookup tx htx o ho] at hcoin
    exact absurd rfl hcoin
  · rw [← lookup_isSome, lookup_fetchUtxosMain, if_pos (mem_map_of_mem htx)]
    rfl
  · cases hmem
  · unfold lookupEntry at hentry
    rw [lookup_fetchUtxosMain, if_pos (mem_map_of_mem htx), hnone tx htx] at hentry
    cases hentry

theorem loadInputs_ok {env : ConnectEnv} {node : BlockNode} (h : loadInputs c env node block view = .ok view') :
    ∃ view₀, checkBIP0030 c env.utxoDb block view = .ok view₀ ∧ view' = view₀.fetchInputUtxos c env.utxoDb block := by
  unfold loadInputs at h
  obtain ⟨-, h⟩ := bind_unit_eq_ok.mp h
  obtain ⟨-, h⟩ := bind_unit_eq_ok.mp h
  obtain ⟨view₀, hbip, h⟩ := bind_eq_ok.mp h
  obtain ⟨-, h⟩ := bind_unit_eq_ok.mp h
  cases h
  exact ⟨view₀, hbip, rfl⟩

/-- The view a block is connected to shows the ledger of the database, and what it already has of the
block's transactions is marked as they are. -/
theorem loadInputs_shows {env : ConnectEnv} {node : BlockNode} (hstored : UtxoDb.Stored env.utxoDb)
    (hnodup : (block.transactions.map (·.txHash c)).Nodup)
    (h : loadInputs c env node block (newUtxoViewpoint hash) = .ok view) :
    Shows c env.utxoDb view block.transactions (UtxoDb.ledger env.utxoDb) ∧
      ∀ tx ∈ block.transactions, ∀ entry, view.lookupEntry (tx.txHash c) = some entry →
        entry.isCoinBase = isCoinBase tx := by
  obtain ⟨view₀, hbip, rfl⟩ := loadInputs_ok h
  obtain ⟨s, hnoted, hfetch⟩ := fetchInputUtxos_rule (c := c) env.utxoDb block view₀
    (Noted c env.utxoDb block) (checkBIP0030_noted hstored hbip) (fun s hash hs hmem => hs.note hmem)
    fun s hs tx htx => hs.add hnodup htx
  rw [hfetch]
  refine ⟨hnoted.shows.fetchUtxosMain hnoted.missing, fun tx htx entry hentry => ?_⟩
  have hother := fun hmem => hnoted.missing _ hmem tx htx rfl
  unfold lookupEntry at hentry
  rw [lookup_fetchUtxosMain, if_neg hother] at hentry
  exact hnoted.flag tx htx entry hentry

end Prova
