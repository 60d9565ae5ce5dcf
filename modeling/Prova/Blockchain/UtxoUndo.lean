import Prova.Blockchain.ConnectView
import Prova.Blockchain.RestoredEntry

/-!
# Undoing a block in the utxo view

`disconnectTransactions` walks the transactions of a block backwards. For each of them it empties the
entry of the transaction and then puts its spent outputs back. Outside the block this leads back to
the entries before the block, spend by spend. The entries of the block's own transactions are empty at
the end unless something was put back into them after they were emptied, which happens when a
transaction spends from itself or from a later one.
-/

namespace Prova

open List UtxoEntry Sample

variable {txs : List MsgTx} {tx : MsgTx} {o : OutPoint} {db : UtxoDb}

variable {hash : Hash} {l : List (MsgTx × List SpentTxOut)} {stxos : List SpentTxOut}
  {height : UInt32} {v v' view w : UtxoViewpoint}

variable {c : Crypto}

namespace UtxoViewpoint

/-! ### One transaction -/

/-- Put the outputs of one transaction's inputs back, last one first. -/
def restoreOutputs (spent : List (OutPoint × SpentTxOut)) (view : UtxoViewpoint) : UtxoViewpoint :=
  spent.foldr (fun p v => v.restoreOutput p.1 p.2) view

def undoTx (c : Crypto) (height : UInt32) (p : MsgTx × List SpentTxOut) (view : UtxoViewpoint) :
    UtxoViewpoint :=
  restoreOutputs (p.1.prevOuts.zip p.2) (view.clearOutputs c p.1 false height)

theorem disconnectTxs_cons (h : txs ≠ []) : disconnectTxs c height (tx :: txs) stxos view =
      disconnectTxs c height txs (stxos.drop tx.txIn.length)
        ((tx.prevOuts.reverse.zip stxos).foldl (fun v p => v.restoreOutput p.1 p.2)
          (view.clearOutputs c tx false height)) := by
  obtain ⟨tx', txs', rfl⟩ := exists_cons_of_ne_nil h
  rfl

theorem disconnectTxs_eq {coinbase : MsgTx} (hlen : ∀ p ∈ l, p.2.length = p.1.txIn.length) (view : UtxoViewpoint) :
    disconnectTxs c height ((l.map Prod.fst).reverse ++ [coinbase]) (l.flatMap Prod.snd).reverse view =
      (l.foldr (undoTx c height) view).clearOutputs c coinbase true height := by
  induction l using List.reverseRecOn generalizing view with
  | nil => rfl
  | append_singleton l p ih =>
    rw [forall_mem_append] at hlen
    have hp : p.2.length = p.1.txIn.length := hlen.2 p mem_cons_self
    have hrev : p.2.reverse.length = p.1.prevOuts.reverse.length := by
      rw [length_reverse, length_reverse, hp]
      exact (length_map ..).symm
    have hzip : p.1.prevOuts.reverse.zip (p.2.reverse ++ (l.flatMap Prod.snd).reverse) =
        (p.1.prevOuts.zip p.2).reverse := by
      have hcut : (p.1.prevOuts.reverse ++ []).zip (p.2.reverse ++ (l.flatMap Prod.snd).reverse) =
          p.1.prevOuts.reverse.zip p.2.reverse ++ List.zip [] (l.flatMap Prod.snd).reverse :=
        zip_append hrev.symm
      rw [append_nil] at hcut
      rw [hcut, zip_nil_left, append_nil, zip_eq_zipWith, zip_eq_zipWith, reverse_zipWith]
      rw [length_reverse, length_reverse] at hrev
      exact hrev.symm
    have hdrop : (p.2.reverse ++ (l.flatMap Prod.snd).reverse).drop p.1.txIn.length =
        (l.flatMap Prod.snd).reverse :=
      drop_left' (by rw [length_reverse, hp])
    rw [map_append, reverse_append, flatMap_append, reverse_append, foldr_append]
    simp only [map_cons, map_nil, reverse_singleton, flatMap_cons,
      flatMap_nil, append_nil, nil_append, cons_append, foldr_cons, foldr_nil]
    rw [disconnectTxs_cons (by simp), hdrop, hzip, foldl_reverse, ih hlen.1]
    rfl

/-! ### Outside the block -/

def CoversAt (hash : Hash) (v w : UtxoViewpoint) : Prop :=
  match v.lookupEntry hash with
  | none => w.lookupEntry hash = none
  | some x => x.StandsFor (w.lookupEntry hash)

theorem coversAt_some {x : UtxoEntry} (hx : v.lookupEntry hash = some x) :
    CoversAt hash v w ↔ x.StandsFor (w.lookupEntry hash) := by
  unfold CoversAt
  rw [hx]

theorem CoversAt.refl (hash : Hash) (v : UtxoViewpoint) : CoversAt hash v v := by
  unfold CoversAt
  cases hx : v.lookupEntry hash with
  | none => rfl
  | some x => exact Matches.refl x

theorem CoversAt.congr {w' : UtxoViewpoint} (h : CoversAt hash v w)
    (hv : v'.lookupEntry hash = v.lookupEntry hash) (hw : w'.lookupEntry hash = w.lookupEntry hash) :
    CoversAt hash v' w' := by
  unfold CoversAt at h ⊢
  rwa [hv, hw]

theorem lookupEntry_restoreOutput (view : UtxoViewpoint) (o : OutPoint) (stxo : SpentTxOut) (hash : Hash) :
    (view.restoreOutput o stxo).lookupEntry hash =
      if hash = o.hash then some (restoreEntry (view.lookupEntry o.hash) o.index stxo)
      else view.lookupEntry hash :=
  lookupEntry_setEntry ..

theorem lookupEntry_clearOutputs_of_ne {isCoinbase : Bool} (hne : hash ≠ tx.txHash c) :
    (view.clearOutputs c tx isCoinbase height).lookupEntry hash = view.lookupEntry hash := by
  unfold clearOutputs
  rw [lookupEntry_setEntry, if_neg hne]

theorem spendInputs_length {txIns : List TxIn} (h : spendInputs txIns v = .ok (v', stxos)) :
    stxos.length = txIns.length := by
  induction txIns generalizing v stxos with
  | nil =>
    cases h
    rfl
  | cons txIn txIns ih =>
    obtain ⟨entry, rest, -, hrest, rfl⟩ := spendInputs_cons.mp h
    rw [length_cons, length_cons, ih hrest]

theorem CoversAt.restoreOutputs {txIns : List TxIn} (hspend : spendInputs txIns v = .ok (v', stxos))
    (hnodup : (txIns.map (·.previousOutPoint)).Nodup)
    (hcoins : ∀ txIn ∈ txIns, txIn.previousOutPoint.hash = hash →
      ∃ x, v.lookupEntry hash = some x ∧ x.coinAt txIn.previousOutPoint.index ≠ none) (h : CoversAt hash v' w) :
    CoversAt hash v (restoreOutputs ((txIns.map (·.previousOutPoint)).zip stxos) w) := by
  induction txIns generalizing v stxos with
  | nil =>
    cases hspend
    exact h
  | cons txIn txIns ih =>
    obtain ⟨entry, rest, hentry, hrest, rfl⟩ := spendInputs_cons.mp hspend
    rw [map_cons, nodup_cons] at hnodup
    rw [forall_mem_cons] at hcoins
    have hcoins' : ∀ t ∈ txIns, t.previousOutPoint.hash = hash →
        ∃ x, (v.setEntry txIn.previousOutPoint.hash
            (some (entry.spendOutput txIn.previousOutPoint.index))).lookupEntry hash = some x ∧
          x.coinAt t.previousOutPoint.index ≠
      none := by
      intro t ht hhash
      obtain ⟨x, hx, hcoin⟩ := hcoins.2 t ht hhash
      rw [lookupEntry_setEntry]
      split_ifs with heq
      · subst heq
        cases hentry.symm.trans hx
        refine ⟨_, rfl, ?_⟩
        rw [coinAt_spendOutput, if_neg]
        · exact hcoin
        · -- another output of the same transaction
          intro hindex
          exact hnodup.1 (mem_map.mpr ⟨t, ht, OutPoint.ext hhash hindex⟩)
      · exact ⟨x, hx, hcoin⟩
    have hcov := ih hrest hnodup.2 hcoins'
    rw [map_cons, zip_cons_cons]
    change CoversAt hash v (UtxoViewpoint.restoreOutput _ _ _)
    by_cases heq : hash = txIn.previousOutPoint.hash
    · obtain ⟨x, hx, hcoin⟩ := hcoins.1 heq.symm
      subst heq
      cases hentry.symm.trans hx
      obtain ⟨coin, hcoin⟩ := Option.ne_none_iff_exists'.mp hcoin
      rw [coversAt_some (lookupEntry_setEntry .. |>.trans (if_pos rfl))] at hcov
      rw [coversAt_some hentry, lookupEntry_restoreOutput, if_pos rfl]
      exact StandsFor.restore hcoin hcov
    · refine hcov.congr ?_ ?_
      · rw [lookupEntry_setEntry, if_neg heq]
      · rw [lookupEntry_restoreOutput, if_neg heq]
        rfl

theorem connectTransaction_spends (hcb : isCoinBase tx = false)
    (h : v.connectTransaction c tx height = .ok (v', stxos)) :
    ∃ spent, spendInputs tx.txIn v = .ok (spent, stxos) ∧ v' = spent.addTxOuts c tx height := by
  rw [connectTransaction_iff, spentIns, if_neg (by simp [hcb])] at h
  exact h

theorem CoversAt.undoTx (hcb : isCoinBase tx = false)
    (hconnect : v.connectTransaction c tx height = .ok (v', stxos)) (hnodup : tx.prevOuts.Nodup)
    (hcoins : ∀ o ∈ tx.prevOuts, ∃ x, v.lookupEntry o.hash = some x ∧ x.coinAt o.index ≠ none)
    (h : CoversAt hash v' w) (hne : hash ≠ tx.txHash c) : CoversAt hash v (undoTx c height (tx, stxos) w) := by
  obtain ⟨spent, hspend, rfl⟩ := connectTransaction_spends hcb hconnect
  refine CoversAt.restoreOutputs hspend hnodup (fun txIn htxIn hhash => ?_) ?_
  · exact hhash ▸ hcoins _ (mem_map_of_mem htxIn)
  · exact h.congr (lookupEntry_addTxOuts_of_ne hne).symm (lookupEntry_clearOutputs_of_ne hne)

theorem journal_of_connectTx {params : Params} {s s' : ConnectState}
    (htxs : ∀ tx ∈ txs, Sane tx ∧ isCoinBase tx = false) (h : txs.foldlM (connectTx c params height) s = .ok s') :
    ∃ l : List (MsgTx × List SpentTxOut), l.map Prod.fst = txs ∧ s'.stxos = s.stxos ++ l.flatMap Prod.snd ∧
      (∀ p ∈ l, p.2.length = p.1.txIn.length) ∧
      ∀ hash w, (∀ tx ∈ txs, tx.txHash c ≠ hash) → CoversAt hash s'.utxoView w →
        CoversAt hash s.utxoView (l.foldr (undoTx c height) w) := by
  induction txs generalizing s with
  | nil =>
    cases h
    exact ⟨[], rfl, (append_nil _).symm, fun p hp => absurd hp not_mem_nil, fun _ _ _ hw => hw⟩
  | cons tx txs ih =>
    rw [forall_mem_cons] at htxs
    obtain ⟨m, hm, hrest⟩ := foldlM_cons_eq_ok.mp h
    obtain ⟨txFee, stxos, hinputs, -, -, hconnect, hstxos, -⟩ := connectTx_ok hm
    obtain ⟨⟨hsane, hcb⟩, htxs⟩ := htxs
    obtain ⟨coins, hnames, hpresent, -⟩ := checkTransactionInputs_ok hsane hcb hinputs
    have hcoins : ∀ o ∈ tx.prevOuts,
        ∃ x, s.utxoView.lookupEntry o.hash = some x ∧ x.coinAt o.index ≠
        none := by
      intro o ho
      rw [← hnames] at ho
      obtain ⟨p, hp, rfl⟩ := mem_map.mp ho
      obtain ⟨x, hx, hcoin, -⟩ := hpresent p hp
      exact ⟨x, hx, by rw [hcoin]; exact Option.some_ne_none _⟩
    obtain ⟨l, hl, hjournal, hlen, hback⟩ := ih htxs hrest
    obtain ⟨spent, hspend, -⟩ := connectTransaction_spends hcb hconnect
    refine ⟨(tx, stxos) :: l, by rw [map_cons, hl], ?_, ?_, fun hash w hout hw => ?_⟩
    · rw [hjournal, hstxos, flatMap_cons, append_assoc]
    · exact forall_mem_cons.mpr ⟨spendInputs_length hspend, hlen⟩
    · rw [forall_mem_cons] at hout
      exact CoversAt.undoTx hcb hconnect hsane.nodup hcoins (hback hash w hout.2 hw) hout.1.symm

/-! ### Inside the block -/

/-- The view has an entry at a hash that was changed and has no coin. -/
def EmptiedAt (hash : Hash) (view : UtxoViewpoint) : Prop :=
  ∃ x, view.lookupEntry hash = some x ∧ x.modified = true ∧ x.isFullySpent = true

theorem emptiedAt_clearOutputs (view : UtxoViewpoint) (tx : MsgTx) (isCoinbase : Bool)
    (height : UInt32) : EmptiedAt (tx.txHash c) (view.clearOutputs c tx isCoinbase height) := by
  unfold clearOutputs
  exact ⟨_, lookupEntry_setEntry .. |>.trans (if_pos rfl), rfl, rfl⟩

theorem lookupEntry_restoreOutputs_of_ne {spent : List (OutPoint × SpentTxOut)} (h : ∀ p ∈ spent, p.1.hash ≠ hash) :
    (restoreOutputs spent view).lookupEntry hash = view.lookupEntry hash := by
  induction spent with
  | nil => rfl
  | cons p spent ih =>
    rw [forall_mem_cons] at h
    refine (lookupEntry_restoreOutput _ p.1 p.2 hash).trans ?_
    rw [if_neg h.1.symm]
    exact ih h.2

theorem EmptiedAt.undoTx {p : MsgTx × List SpentTxOut} (hrefs : ∀ o ∈ p.1.prevOuts, o.hash ≠ hash)
    (h : hash = p.1.txHash c ∨ EmptiedAt hash view) : EmptiedAt hash (undoTx c height p view) := by
  unfold UtxoViewpoint.undoTx EmptiedAt
  rw [lookupEntry_restoreOutputs_of_ne fun q hq => hrefs q.1 (of_mem_zip hq).1]
  by_cases heq : hash = p.1.txHash c
  · rw [heq]
    exact emptiedAt_clearOutputs ..
  · rw [lookupEntry_clearOutputs_of_ne heq]
    exact h.resolve_left heq

theorem emptiedAt_undo {height : UInt32} {l : List (MsgTx × List SpentTxOut)}
    (hcb : ∀ p ∈ l, isCoinBase p.1 = false) (hrefs : NoForwardRefs c (l.map Prod.fst)) (view : UtxoViewpoint) :
    ∀ p ∈ l, EmptiedAt (p.1.txHash c) (l.foldr (undoTx c height) view) := by
  induction l with
  | nil => exact fun p hp => absurd hp not_mem_nil
  | cons q l ih =>
    rw [forall_mem_cons] at hcb
    rw [map_cons] at hrefs
    obtain ⟨hown, hrest⟩ := noForwardRefs_cons hrefs
    have hspends : spends q.1 = q.1.prevOuts := by
      unfold spends
      simp [hcb.1]
    rw [hspends] at hown
    intro p hp
    rw [foldr_cons]
    refine EmptiedAt.undoTx (fun o ho => ?_) ?_
    · exact hown o ho p.1 (mem_map_of_mem (f := Prod.fst) hp)
    · rcases mem_cons.mp hp with rfl | hp
      · exact .inl rfl
      · exact .inr (ih hcb.2 hrest p hp)

def HasCoin (o : OutPoint) (view : UtxoViewpoint) : Prop :=
  ∃ x, view.lookupEntry o.hash = some x ∧ x.coinAt o.index ≠ none

theorem HasCoin.restoreOutput (h : HasCoin o view) (o' : OutPoint) (stxo : SpentTxOut) :
    HasCoin o (view.restoreOutput o' stxo) := by
  obtain ⟨x, hx, hcoin⟩ := h
  unfold HasCoin
  rw [lookupEntry_restoreOutput]
  split_ifs with heq
  · refine ⟨_, rfl, ?_⟩
    by_cases hindex : o.index = o'.index
    · rw [hindex]
      exact coinAt_restoreEntry_self _ _ _
    · rw [coinAt_restoreEntry_of_ne hindex, ← heq, hx]
      exact hcoin
  · exact ⟨x, hx, hcoin⟩

theorem hasCoin_restoreOutputs {spent : List (OutPoint × SpentTxOut)} (h : HasCoin o view ∨ o ∈ spent.map Prod.fst) :
    HasCoin o (restoreOutputs spent view) := by
  induction spent with
  | nil => exact h.resolve_right not_mem_nil
  | cons p spent ih =>
    change HasCoin o (UtxoViewpoint.restoreOutput _ p.1 p.2)
    rw [map_cons, mem_cons] at h
    rcases h with h | rfl | h
    · exact (ih (.inl h)).restoreOutput p.1 p.2
    · exact ⟨_, lookupEntry_restoreOutput .. |>.trans (if_pos rfl),
        coinAt_restoreEntry_self _ _ _⟩
    · exact (ih (.inr h)).restoreOutput p.1 p.2

theorem HasCoin.undoTx {p : MsgTx × List SpentTxOut} (h : HasCoin o view) (hne : o.hash ≠ p.1.txHash c) :
    HasCoin o (undoTx c height p view) := by
  refine hasCoin_restoreOutputs (.inl ?_)
  obtain ⟨x, hx, hcoin⟩ := h
  exact ⟨x, (lookupEntry_clearOutputs_of_ne hne).trans hx, hcoin⟩

theorem hasCoin_undo {height : UInt32} {l : List (MsgTx × List SpentTxOut)}
    (hlen : ∀ p ∈ l, p.2.length = p.1.txIn.length) (view : UtxoViewpoint) {i : Nat} {tx : MsgTx}
    (htx : (l.map Prod.fst)[i]? = some tx) {o : OutPoint} (ho : o ∈ tx.prevOuts)
    (hbefore : ∀ k tx', k < i → (l.map Prod.fst)[k]? = some tx' → tx'.txHash c ≠ o.hash) :
    HasCoin o (l.foldr (undoTx c height) view) := by
  induction l generalizing i with
  | nil => cases htx
  | cons q l ih =>
    rw [forall_mem_cons] at hlen
    rw [foldr_cons]
    cases i with
    | zero =>
      cases htx
      refine hasCoin_restoreOutputs (.inr ?_)
      have hfst : (q.1.prevOuts.zip q.2).map Prod.fst = q.1.prevOuts := by
        refine map_fst_zip ?_
        rw [hlen.1]
        exact (length_map ..).le
      rw [hfst]
      exact ho
    | succ i =>
      have hrest := ih hlen.2 htx fun k tx' hk => hbefore (k + 1) tx' (Nat.succ_lt_succ hk)
      exact hrest.undoTx (hbefore 0 q.1 (Nat.succ_pos i) rfl).symm

/-! ### Whole blocks -/

theorem Loaded.connectTxs (h : Loaded db v)
    (hconnect : UtxoViewpoint.connectTxs c height txs v = .ok (v', stxos)) : Loaded db v' := by
  induction txs generalizing v stxos with
  | nil =>
    cases hconnect
    exact h
  | cons tx txs ih =>
    obtain ⟨m, first, rest, hfirst, hrest, -⟩ := connectTxs_cons_ok.mp hconnect
    obtain ⟨spent, rfl, hspent, -⟩ := connectTransaction_ok h hfirst
    exact ih (hspent.addTxOuts tx height) hrest

theorem Loaded.fetchInputUtxos (h : Loaded db v) (block : MsgBlock) : Loaded db (v.fetchInputUtxos c db block) := by
  obtain ⟨s, hs, heq⟩ := fetchInputUtxos_rule (c := c) db block v (fun s => Loaded db s.1) h
    (fun s hash hs _ => hs) (fun s hs tx _ => hs.addTxOuts tx block.height)
  rw [heq]
  exact hs.fetchUtxosMain s.2

theorem Loaded.undoTx (h : Loaded db v) (p : MsgTx × List SpentTxOut) : Loaded db (undoTx c height p v) := by
  have hclear : Loaded db (v.clearOutputs c p.1 false height) := h.setEntry_modified rfl
  have hrestore : ∀ spent : List (OutPoint × SpentTxOut),
      Loaded db (restoreOutputs spent (v.clearOutputs c p.1 false height)) := by
    intro spent
    induction spent with
    | nil => exact hclear
    | cons q spent ih => exact ih.setEntry_modified rfl
  exact hrestore _

def undoBlock (c : Crypto) (height : UInt32) (coinbase : MsgTx)
    (l : List (MsgTx × List SpentTxOut)) (view : UtxoViewpoint) : UtxoViewpoint :=
  (l.foldr (undoTx c height) view).clearOutputs c coinbase true height

theorem Loaded.undoBlock (h : Loaded db v) (coinbase : MsgTx) (l : List (MsgTx × List SpentTxOut)) :
    Loaded db (undoBlock c height coinbase l v) := by
  have hfold : Loaded db (l.foldr (UtxoViewpoint.undoTx c height) v) := by
    induction l with
    | nil => exact h
    | cons p l ih => exact ih.undoTx p
  exact hfold.setEntry_modified rfl

/-- A valid block, the view loaded for it, the view it is connected to, and its journal cut by
transactions. -/
structure Journaled (c : Crypto) (db : UtxoDb) (block : MsgBlock) (loaded view : UtxoViewpoint)
    (coinbase : MsgTx) (l : List (MsgTx × List SpentTxOut)) : Prop where
  transactions : block.transactions = coinbase :: l.map Prod.fst
  nodup : (block.transactions.map (·.txHash c)).Nodup
  isCoinBase : isCoinBase coinbase = true
  others : ∀ p ∈ l, Prova.isCoinBase p.1 = false
  lengths : ∀ p ∈ l, p.2.length = p.1.txIn.length
  connect : loaded.connectTransactions c block = .ok (view, l.flatMap Prod.snd)
  absent : ∀ tx ∈ block.transactions, db.lookup (tx.txHash c) = none
  outside : ∀ hash, (∀ tx ∈ block.transactions, tx.txHash c ≠ hash) →
    loaded.entries.lookup hash =
      if ∃ q ∈ blockInputs block, q.2.previousOutPoint.hash = hash then some (db.lookup hash) else none
  isLoaded : Loaded db view
  back : ∀ hash w, (∀ tx ∈ block.transactions, tx.txHash c ≠ hash) → CoversAt hash view w →
    CoversAt hash loaded (undoBlock c block.height coinbase l w)

/-- The view loaded for a block: its own transactions are not in the database, and outside the block
it has what the inputs name. -/
theorem loadInputs_outside {env : ConnectEnv} {node : BlockNode} {block : MsgBlock} {bestHash : Hash}
    {loaded : UtxoViewpoint} (hstored : UtxoDb.Stored env.utxoDb)
    (h : loadInputs c env node block (newUtxoViewpoint bestHash) = .ok loaded) :
    (∀ tx ∈ block.transactions, env.utxoDb.lookup (tx.txHash c) = none) ∧
      (∀ hash, (∀ tx ∈ block.transactions, tx.txHash c ≠ hash) → loaded.entries.lookup hash =
          if ∃ q ∈ blockInputs block, q.2.previousOutPoint.hash = hash then
            some (env.utxoDb.lookup hash)
          else none) ∧
      Loaded env.utxoDb loaded := by
  obtain ⟨view₀, hbip, rfl⟩ := loadInputs_ok h
  obtain ⟨rfl, habsent⟩ := checkBIP0030_ok hstored hbip
  have hloaded := (Loaded.newUtxoViewpoint env.utxoDb bestHash).fetchUtxosMain
    (block.transactions.map (·.txHash c))
  refine ⟨habsent, fun hash hout => lookup_fetchInputUtxos_outside hout fun hmem => ?_, hloaded.fetchInputUtxos block⟩
  rw [← AList.lookup_isSome, lookup_fetchUtxosMain, if_neg] at hmem
  · cases hmem
  · intro hin
    obtain ⟨tx, htx, heq⟩ := mem_map.mp hin
    exact hout tx htx heq

theorem journaled_of_checkConnectBlock {env : ConnectEnv} {block : MsgBlock}
    {prev : Option BlockNode} {bestHash : Hash} {keyView : KeyViewpoint} {s : ConnectState}
    {powLimit : Nat} {flags : BehaviorFlags} (hstored : UtxoDb.Stored env.utxoDb)
    (hsanity : checkBlockSanity c block powLimit flags = .ok ())
    (hvalid : checkConnectBlock c env (newBlockNode c block.header prev) block
      (newUtxoViewpoint bestHash) keyView = .ok s) : ∃ loaded coinbase l,
      loadInputs c env (newBlockNode c block.header prev) block (newUtxoViewpoint bestHash) = .ok loaded ∧
      s.stxos = l.flatMap Prod.snd ∧ Journaled c env.utxoDb block loaded s.utxoView coinbase l := by
  obtain ⟨coinbase, txs, htxs, hcb, hothers, hsane, hnodup⟩ := checkBlockSanity_ok hsanity
  obtain ⟨loaded, s₀, hload, hrun, -, rfl⟩ := checkConnectBlock_ok hvalid
  obtain ⟨habsent, houtside, hloaded⟩ := loadInputs_outside hstored hload
  obtain ⟨stxos, hconnect, hstxos⟩ := connectTxs_of_connectTx hrun
  -- the coinbase comes first and spends nothing
  rw [htxs] at hrun
  obtain ⟨s₁, hfirst, hrest⟩ := foldlM_cons_eq_ok.mp hrun
  obtain ⟨-, first, -, -, -, hcoinbase, hfirstStxos, -⟩ := connectTx_ok hfirst
  have hsame := connectTransaction_coinBase hcb hcoinbase
  obtain ⟨l, hl, hjournal, hlen, hback⟩ := journal_of_connectTx
    (fun tx htx => ⟨hsane tx (htxs ▸ mem_cons_of_mem _ htx), hothers tx htx⟩) hrest
  have hall : s₀.stxos = l.flatMap Prod.snd := by
    rw [hjournal, hfirstStxos, hsame.2]
    rfl
  have hstxos' : s₀.stxos = stxos := hstxos
  refine ⟨loaded, coinbase, l, hload, hall, htxs.trans (by rw [hl]), hnodup, hcb, ?_, hlen, ?_,
    habsent, houtside, ?_, ?_⟩
  · intro p hp
    exact hothers p.1 (hl ▸ mem_map_of_mem hp)
  · refine bind_eq_ok.mpr ⟨(s₀.utxoView, stxos), hconnect, ?_⟩
    rw [← hall, hstxos']
    rfl
  · have hend := hloaded.connectTxs hconnect
    exact ⟨hend.nil, hend.kept⟩
  · intro hash w hout hw
    rw [htxs, forall_mem_cons] at hout
    have hcov := hback hash w hout.2 hw
    refine hcov.congr ?_ (lookupEntry_clearOutputs_of_ne hout.1.symm)
    rw [hsame.1]
    exact (lookupEntry_addTxOuts_of_ne hout.1.symm).symm

namespace Journaled

variable {db : UtxoDb} {block : MsgBlock} {loaded view : UtxoViewpoint} {coinbase : MsgTx}
  {l : List (MsgTx × List SpentTxOut)}

theorem isSome_lookupEntry (h : Journaled c db block loaded view coinbase l)
    (hout : ∀ tx ∈ block.transactions, tx.txHash c ≠ hash) :
    (view.lookupEntry hash).isSome ↔ (loaded.lookupEntry hash).isSome := by
  obtain ⟨⟨v, stxos⟩, hconnect, hview⟩ := bind_eq_ok.mp h.connect
  cases hview
  have hsome := connectTxs_isSome hconnect hout
  exact hsome

theorem disconnectTransactions_eq (h : Journaled c db block loaded view coinbase l) (w : UtxoViewpoint) :
    w.disconnectTransactions c block (l.flatMap Prod.snd) =
      .ok ((undoBlock c block.height coinbase l w).setBestHash block.header.prevBlock) := by
  have hcount : (l.flatMap Prod.snd).length = countSpentOutputs block := by
    unfold countSpentOutputs
    rw [h.transactions, drop_one, tail_cons, map_map, length_flatMap]
    exact congrArg List.sum (map_congr_left h.lengths)
  refine bind_unit_eq_ok.mpr ⟨reject_eq_ok.mpr (not_not.mpr hcount), ?_⟩
  rw [h.transactions, reverse_cons, disconnectTxs_eq h.lengths]
  rfl

theorem emptied (h : Journaled c db block loaded view coinbase l)
    (hrefs : NoForwardRefs c block.transactions) (w : UtxoViewpoint) :
    ∀ tx ∈ block.transactions, EmptiedAt (tx.txHash c) (undoBlock c block.height coinbase l w) := by
  rw [h.transactions] at hrefs ⊢
  have hothers := @emptiedAt_undo c block.height l h.others (noForwardRefs_cons hrefs).2 w
  intro tx htx
  unfold undoBlock
  by_cases heq : tx.txHash c = coinbase.txHash c
  · rw [heq]
    exact emptiedAt_clearOutputs ..
  · unfold EmptiedAt
    rw [lookupEntry_clearOutputs_of_ne heq]
    rcases mem_cons.mp htx with rfl | htx
    · exact absurd rfl heq
    · obtain ⟨p, hp, rfl⟩ := mem_map.mp htx
      exact hothers p hp

theorem exists_hasCoin (h : Journaled c db block loaded view coinbase l)
    (hrefs : ¬ NoForwardRefs c block.transactions) (w : UtxoViewpoint) :
    ∃ o, ∃ tx ∈ block.transactions, o.hash = tx.txHash c ∧ HasCoin o (undoBlock c block.height coinbase l w) := by
  rw [noForwardRefs_iff] at hrefs
  push Not at hrefs
  obtain ⟨i, j, tx, tx', htx, htx', hle, o, ho, hhash⟩ := hrefs
  have hmem' : tx' ∈ block.transactions := mem_of_getElem? htx'
  have hnodup := h.nodup
  rw [h.transactions] at htx htx' hnodup
  cases i with
  | zero =>
    cases htx
    unfold spends at ho
    rw [if_pos h.isCoinBase] at ho
    cases ho
  | succ i =>
    obtain ⟨j, rfl⟩ : ∃ k, j = k + 1 := ⟨j - 1, by omega⟩
    rw [getElem?_cons_succ] at htx htx'
    rw [map_cons, nodup_cons] at hnodup
    obtain ⟨p, hp, hptx⟩ := mem_map.mp (mem_of_getElem? htx)
    have hspends : spends tx = tx.prevOuts := by
      unfold spends
      simp [hptx ▸ h.others p hp]
    have hbefore : ∀ k tx'', k < i → (l.map Prod.fst)[k]? = some tx'' → tx''.txHash c ≠ o.hash := by
      intro k tx'' hk htx'' heq
      have := position_unique hnodup.2 htx'' htx' (heq.trans hhash)
      omega
    obtain ⟨x, hx, hcoin⟩ := @hasCoin_undo c block.height l h.lengths w _ _ htx _ (hspends ▸ ho)
      hbefore
    refine ⟨o, tx', hmem', hhash, x, ?_, hcoin⟩
    have hne : o.hash ≠ coinbase.txHash c := fun heq =>
      hnodup.1 (mem_map.mpr ⟨tx', mem_of_getElem? htx', hhash.symm.trans heq⟩)
    exact (lookupEntry_clearOutputs_of_ne hne).trans hx

/-- Undoing in a view that stands for the one the block was connected to. Outside the block it shows
the entries of the database again. -/
theorem outside_restored (h : Journaled c db block loaded view coinbase l)
    (hstored : UtxoDb.Stored db) (hout : ∀ tx ∈ block.transactions, tx.txHash c ≠ hash) (hw : CoversAt hash view w) :
    (loaded.lookupEntry hash = none ∧ (undoBlock c block.height coinbase l w).lookupEntry hash = none) ∨
      ∃ x y, db.lookup hash = some x ∧ (undoBlock c block.height coinbase l w).lookupEntry hash = some y ∧
        Matches x y := by
  have hcov := h.back hash w hout hw
  have hlookup := h.outside hash hout
  unfold CoversAt at hcov
  cases hentry : loaded.lookupEntry hash with
  | none =>
    rw [hentry] at hcov
    exact .inl ⟨rfl, hcov⟩
  | some x =>
    have hdb : db.lookup hash = some x := by
      have hsome := Option.join_eq_some_iff.mp hentry
      rw [hlookup] at hsome
      split_ifs at hsome
      exact Option.some.inj hsome
    rw [hentry] at hcov
    cases hend : (undoBlock c block.height coinbase l w).lookupEntry hash with
    | none =>
      rw [hend] at hcov
      exact absurd hcov (hstored hdb)
    | some y =>
      rw [hend] at hcov
      exact .inr ⟨x, y, hdb, rfl, hcov⟩

theorem commit_restored_iff (h : Journaled c db block loaded view coinbase l) (hstored : UtxoDb.Stored db) :
    (∀ o, utxoAt db (undoBlock c block.height coinbase l view).commit o = UtxoDb.utxoAt db o) ↔
      NoForwardRefs c block.transactions := by
  constructor
  · intro hsame
    by_contra hrefs
    obtain ⟨o, tx, htx, hhash, x, hx, hcoin⟩ := h.exists_hasCoin hrefs view
    have hspent : ¬ x.isFullySpent = true := fun hspent =>
      hcoin (isFullySpent_iff.mp hspent o.index)
    have hdb : UtxoDb.utxoAt db o = none := by
      unfold UtxoDb.utxoAt
      rw [hhash, h.absent tx htx]
      rfl
    have hnone := hsame o
    rw [utxoAt_commit_of_coin hx hspent, hdb] at hnone
    exact hcoin (utxoAt_eq_none.mp hnone)
  · intro hrefs o
    by_cases hin : ∃ tx ∈ block.transactions, tx.txHash c = o.hash
    · obtain ⟨tx, htx, heq⟩ := hin
      obtain ⟨x, hx, hmod, hspent⟩ := h.emptied hrefs view tx htx
      refine utxoAt_commit_of_empty fun entry hentry => ?_
      rw [← heq, hx] at hentry
      cases hentry
      exact ⟨hmod, hspent⟩
    · push Not at hin
      rcases h.outside_restored hstored hin (.refl _ _) with ⟨-, hnone⟩ | ⟨x, y, hdb, hy, hmatch⟩
      · refine utxoAt_commit_of_empty fun entry hentry => ?_
        rw [hnone] at hentry
        cases hentry
      · have hspent : ¬ y.isFullySpent = true := fun hspent =>
          hstored hdb (hmatch.isFullySpent.mp hspent)
        rw [utxoAt_commit_of_coin hy hspent, hmatch.utxoAt]
        unfold UtxoDb.utxoAt
        rw [hdb]
        rfl

theorem lookup_written (h : Journaled c db block loaded view coinbase l) (bestHash : Hash)
    (hout : ∀ tx ∈ block.transactions, tx.txHash c ≠ hash) :
    (view.lookupEntry hash = none → (view.dbPutUtxoView db).lookup hash = db.lookup hash) ∧ CoversAt hash view
        ((newUtxoViewpoint bestHash).fetchInputUtxos c (view.dbPutUtxoView db) block) := by
  have hput := lookup_dbPutUtxoView db view hash
  have hfetch : ((newUtxoViewpoint bestHash).fetchInputUtxos c (view.dbPutUtxoView db)
      block).entries.lookup hash =
        if ∃ q ∈ blockInputs block, q.2.previousOutPoint.hash = hash then
          some ((view.dbPutUtxoView db).lookup hash)
        else none :=
    lookup_fetchInputUtxos_outside hout (AList.notMem_empty hash)
  have hunchanged : view.lookupEntry hash = none →
      (view.dbPutUtxoView db).lookup hash = db.lookup hash := by
    intro hnone
    rw [hput]
    cases hentry : view.entries.lookup hash with
    | none => rfl
    | some entry =>
      unfold lookupEntry at hnone
      rw [hentry] at hnone
      cases hnone
      rfl
  refine ⟨hunchanged, ?_⟩
  have hsome := h.isSome_lookupEntry hout
  unfold CoversAt
  cases hentry : view.lookupEntry hash with
  | none =>
    rw [hentry] at hsome
    unfold lookupEntry at hsome ⊢
    rw [hfetch]
    rw [h.outside hash hout] at hsome
    split_ifs at hsome ⊢
    · rw [hunchanged hentry]
      exact Option.not_isSome_iff_eq_none.mp fun hdb => absurd (hsome.mpr hdb) (by simp)
    · rfl
  | some x =>
    rw [hentry] at hsome
    have hinput : ∃ q ∈ blockInputs block, q.2.previousOutPoint.hash = hash := by
      by_contra hnot
      unfold lookupEntry at hsome
      rw [h.outside hash hout, if_neg hnot] at hsome
      exact absurd (hsome.mp rfl) (by simp)
    have hview : view.entries.lookup hash = some (some x) := Option.join_eq_some_iff.mp hentry
    unfold lookupEntry
    rw [hfetch, if_pos hinput, hput, hview]
    simp only [Option.join_some]
    rw [lookup_dbPutEntry_self]
    simp only
    split_ifs with hmod hspent
    · exact hspent
    · exact matches_stored x
    · rw [Bool.not_eq_true] at hmod
      rw [h.isLoaded.kept hview hmod]
      exact Matches.refl x

/-- Undoing a block the way a reorganization does: in a new view, loaded from the database the block
was written to. -/
theorem written_restored_iff (h : Journaled c db block loaded view coinbase l)
    (hstored : UtxoDb.Stored db) (bestHash : Hash) : (∀ o, UtxoDb.utxoAt ((undoBlock c block.height coinbase l
        ((newUtxoViewpoint bestHash).fetchInputUtxos c (view.dbPutUtxoView db)
          block)).dbPutUtxoView (view.dbPutUtxoView db)) o = UtxoDb.utxoAt db o) ↔
      NoForwardRefs c block.transactions := by
  have hloaded : Loaded (view.dbPutUtxoView db) (undoBlock c block.height coinbase l
      ((newUtxoViewpoint bestHash).fetchInputUtxos c (view.dbPutUtxoView db) block)) :=
    ((Loaded.newUtxoViewpoint (view.dbPutUtxoView db) bestHash).fetchInputUtxos block).undoBlock
      coinbase l
  have habsent : ∀ tx ∈ block.transactions, ∀ o : OutPoint, o.hash = tx.txHash c →
      UtxoDb.utxoAt db o =
        none := by
    intro tx htx o ho
    unfold UtxoDb.utxoAt
    rw [ho, h.absent tx htx]
    rfl
  constructor
  · intro hsame
    by_contra hrefs
    obtain ⟨o, tx, htx, hhash, x, hx, hcoin⟩ := h.exists_hasCoin hrefs
      ((newUtxoViewpoint bestHash).fetchInputUtxos c (view.dbPutUtxoView db) block)
    have hnone := hsame o
    rw [utxoAt_dbPutUtxoView hloaded, utxoAt_of_lookupEntry hx, habsent tx htx o hhash] at hnone
    exact hcoin (utxoAt_eq_none.mp hnone)
  · intro hrefs o
    rw [utxoAt_dbPutUtxoView hloaded]
    by_cases hin : ∃ tx ∈ block.transactions, tx.txHash c = o.hash
    · obtain ⟨tx, htx, heq⟩ := hin
      obtain ⟨x, hx, -, hspent⟩ := h.emptied hrefs
        ((newUtxoViewpoint bestHash).fetchInputUtxos c (view.dbPutUtxoView db) block) tx htx
      rw [heq] at hx
      rw [utxoAt_of_lookupEntry hx, habsent tx htx o heq.symm]
      exact utxoAt_eq_none.mpr (isFullySpent_iff.mp hspent o.index)
    · push Not at hin
      obtain ⟨hunchanged, hcov⟩ := h.lookup_written bestHash hin
      rcases h.outside_restored hstored hin hcov with ⟨hnew, hnone⟩ | ⟨x, y, hdb, hy, hmatch⟩
      · rw [utxoAt_of_lookupEntry_none hloaded hnone]
        have hview : view.lookupEntry o.hash = none := by
          have hsome := h.isSome_lookupEntry hin
          rw [hnew] at hsome
          exact Option.not_isSome_iff_eq_none.mp fun hv => absurd (hsome.mp hv) (by simp)
        unfold UtxoDb.utxoAt
        rw [hunchanged hview]
      · rw [utxoAt_of_lookupEntry hy, hmatch.utxoAt]
        unfold UtxoDb.utxoAt
        rw [hdb]
        rfl

end Journaled

/-- Connecting a valid block and undoing it with its journal shows the unspent outputs from before it
again exactly if no transaction of it spends from itself or from a later one. This is so for the view
the block was connected to, once it is committed, and for a new view that is loaded from the database
after the block was written. -/
theorem disconnect_restores_iff {env : ConnectEnv} {block : MsgBlock} {prev : Option BlockNode}
    {bestHash : Hash} {keyView : KeyViewpoint} {s : ConnectState} {powLimit : Nat}
    {flags : BehaviorFlags} (hstored : UtxoDb.Stored env.utxoDb)
    (hsanity : checkBlockSanity c block powLimit flags = .ok ())
    (hvalid : checkConnectBlock c env (newBlockNode c block.header prev) block
      (newUtxoViewpoint bestHash) keyView = .ok s) : ∃ loaded view stxos undone undone',
      loadInputs c env (newBlockNode c block.header prev) block (newUtxoViewpoint bestHash) = .ok loaded ∧
      loaded.connectTransactions c block = .ok (view, stxos) ∧ view.disconnectTransactions c block stxos = .ok undone ∧
      ((∀ o, utxoAt env.utxoDb undone.commit o = UtxoDb.utxoAt env.utxoDb o) ↔ NoForwardRefs c block.transactions) ∧
      ((newUtxoViewpoint (block.blockHash c)).fetchInputUtxos c (view.dbPutUtxoView env.utxoDb)
        block).disconnectTransactions c block stxos = .ok undone' ∧
      ((∀ o, UtxoDb.utxoAt (undone'.dbPutUtxoView (view.dbPutUtxoView env.utxoDb)) o = UtxoDb.utxoAt env.utxoDb o) ↔
        NoForwardRefs c block.transactions) := by
  obtain ⟨loaded, coinbase, l, hload, -, hjournal⟩ :=
    journaled_of_checkConnectBlock hstored hsanity hvalid
  exact ⟨loaded, s.utxoView, l.flatMap Prod.snd, _, _, hload, hjournal.connect,
    hjournal.disconnectTransactions_eq _, hjournal.commit_restored_iff hstored,
    hjournal.disconnectTransactions_eq _, hjournal.written_restored_iff hstored _⟩

theorem disconnect_restores_iff_issueBlock : ∃ loaded view stxos undone undone',
      loadInputs Sample.crypto Sample.genesis.env
        (newBlockNode Sample.crypto Sample.issueBlock.header (some Sample.genesis.bestNode))
        Sample.issueBlock (newUtxoViewpoint Sample.genesis.bestNode.hash) = .ok loaded ∧
      loaded.connectTransactions Sample.crypto Sample.issueBlock = .ok (view, stxos) ∧
      view.disconnectTransactions Sample.crypto Sample.issueBlock stxos = .ok undone ∧
      ((∀ o, utxoAt Sample.genesis.db.utxos undone.commit o = UtxoDb.utxoAt Sample.genesis.db.utxos o) ↔
        NoForwardRefs Sample.crypto Sample.issueBlock.transactions) ∧
      ((newUtxoViewpoint (Sample.issueBlock.blockHash Sample.crypto)).fetchInputUtxos Sample.crypto
        (view.dbPutUtxoView Sample.genesis.db.utxos) Sample.issueBlock).disconnectTransactions
        Sample.crypto Sample.issueBlock stxos = .ok undone' ∧
      ((∀ o, UtxoDb.utxoAt (undone'.dbPutUtxoView (view.dbPutUtxoView Sample.genesis.db.utxos)) o =
          UtxoDb.utxoAt Sample.genesis.db.utxos o) ↔ NoForwardRefs Sample.crypto Sample.issueBlock.transactions) := by
  obtain ⟨hsane, s, hs⟩ := checked_genesis issueBlock (by simp)
  exact disconnect_restores_iff (BlockChain.stored_createChainState false) hsane hs

/-- An output that was spent before it was made is there after the undoing, as if the block had left
it behind. -/
theorem disconnect_forwardBlock : ∃ s loaded view stxos undone,
      checkBlockSanity Sample.crypto Sample.forwardBlock Sample.params.powLimit bfNone = .ok () ∧
      checkConnectBlock Sample.crypto Sample.genesis.env
        (newBlockNode Sample.crypto Sample.forwardBlock.header (some Sample.genesis.bestNode))
        Sample.forwardBlock (newUtxoViewpoint Sample.genesis.bestNode.hash) Sample.genesis.keys = .ok s ∧
      loadInputs Sample.crypto Sample.genesis.env
        (newBlockNode Sample.crypto Sample.forwardBlock.header (some Sample.genesis.bestNode))
        Sample.forwardBlock (newUtxoViewpoint Sample.genesis.bestNode.hash) = .ok loaded ∧
      loaded.connectTransactions Sample.crypto Sample.forwardBlock = .ok (view, stxos) ∧
      view.disconnectTransactions Sample.crypto Sample.forwardBlock stxos = .ok undone ∧
      UtxoDb.utxoAt Sample.genesis.db.utxos ⟨Sample.issueTx.txHash Sample.crypto, 0⟩ = none ∧
      utxoAt Sample.genesis.db.utxos undone.commit ⟨Sample.issueTx.txHash Sample.crypto, 0⟩ ≠
        none := by
  obtain ⟨hsane, s, hs⟩ := checked_genesis forwardBlock (by simp)
  have hrun : ((do
      let loaded ← loadInputs crypto genesis.env
        (newBlockNode crypto forwardBlock.header (some genesis.bestNode))
        forwardBlock (newUtxoViewpoint genesis.bestNode.hash)
      let r ← loaded.connectTransactions crypto forwardBlock
      let undone ← r.1.disconnectTransactions crypto forwardBlock r.2
      return (utxoAt genesis.db.utxos undone.commit
        ⟨issueTx.txHash crypto, 0⟩).isSome) : Except ChainError Bool).toOption =
      some true := by decide +kernel
  obtain ⟨loaded, hload, hrun⟩ := bind_eq_ok.mp (eq_ok_of_toOption hrun)
  obtain ⟨⟨view, stxos⟩, hconnect, hrun⟩ := bind_eq_ok.mp hrun
  obtain ⟨undone, hundone, hrun⟩ := bind_eq_ok.mp hrun
  refine ⟨s, loaded, view, stxos, undone, hsane, hs, hload, hconnect, hundone, by decide +kernel, fun hnone => ?_⟩
  rw [pure_eq_ok, hnone] at hrun
  cases hrun

end UtxoViewpoint

end Prova
