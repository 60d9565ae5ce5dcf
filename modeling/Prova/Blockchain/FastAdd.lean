import Prova.Blockchain.ConnectView
import Prova.Blockchain.KeyUndo

/-!
# Adding a block without checking it

With `BFFastAdd` a block that extends the main chain is connected without the checks of
`checkConnectBlock`. The two paths load the view differently: the checks first look up the block's own
transactions, so that the view has them as nil entries, and these are not loaded again. On the fast
path an input that refers to a later transaction makes the loader fetch it from the database, over
whatever the loop has put into the view.
-/

namespace Prova

open AList List

variable {block : MsgBlock}

variable {c : Crypto}

namespace UtxoViewpoint

variable {db : UtxoDb}

def modifiedEntry (view : UtxoViewpoint) (hash : Hash) : Option UtxoEntry :=
  (view.lookupEntry hash).filter (·.modified)

/-! ### Loading two views in step -/

/-- An input that refers to an earlier transaction of the block or to none of it. -/
def RefersBack (c : Crypto) (block : MsgBlock) (q : Nat × TxIn) : Prop :=
  ∀ p, txInFlight c block.transactions q.2.previousOutPoint.hash = some p → p.2 ≤ q.1

/-- Two states of the loop of `fetchInputUtxos` that go on in the same way. -/
private structure SameOutside (c : Crypto) (block : MsgBlock) (s t : UtxoViewpoint × List Hash) :
    Prop where
  same : SameEntries s.1 t.1
  noted : s.2 = t.2
  outside : ∀ hash, (∀ tx ∈ block.transactions, tx.txHash c ≠ hash) →
    (hash ∈ s.1.entries ↔ hash ∈ t.1.entries)

private theorem SameOutside.noteInput {s t : UtxoViewpoint × List Hash} (h : SameOutside c block s t)
    {q : Nat × TxIn} (hback : RefersBack c block q) :
    SameOutside c block (noteInput c block q.1 s q.2) (UtxoViewpoint.noteInput c block q.1 t q.2) := by
  cases hflight : txInFlight c block.transactions q.2.previousOutPoint.hash with
  | none =>
    have hiff := h.outside _ (txInFlight_none hflight)
    simp only [UtxoViewpoint.noteInput, hflight]
    by_cases hmem : q.2.previousOutPoint.hash ∈ s.1.entries
    · rw [if_pos hmem, if_pos (hiff.mp hmem)]
      exact h
    · rw [if_neg hmem, if_neg fun hmem' => hmem (hiff.mpr hmem')]
      exact ⟨h.same, congrArg (q.2.previousOutPoint.hash :: ·) h.noted, h.outside⟩
  | some p =>
    simp only [UtxoViewpoint.noteInput, hflight, if_pos (hback p hflight)]
    refine ⟨h.same.addTxOuts p.1 block.height, h.noted, fun hash hout => ?_⟩
    have hp : p.1 ∈ block.transactions := mem_of_getElem? (txInFlight_some hflight).1
    rw [← lookup_isSome, ← lookup_isSome, lookup_addTxOuts_of_ne (hout p.1 hp).symm,
      lookup_addTxOuts_of_ne (hout p.1 hp).symm, lookup_isSome, lookup_isSome]
    exact h.outside hash hout

/-- Views that differ in nil entries of the block's own transactions are loaded with the same
entries, if no input refers to its own or a later transaction. -/
theorem SameEntries.fetchInputUtxos {v w : UtxoViewpoint} (hsame : SameEntries v w)
    (houtside : ∀ hash, (∀ tx ∈ block.transactions, tx.txHash c ≠ hash) →
      (hash ∈ v.entries ↔ hash ∈ w.entries)) (hback : ∀ q ∈ blockInputs block, RefersBack c block q) :
    SameEntries (v.fetchInputUtxos c db block) (w.fetchInputUtxos c db block) := by
  have hstep : SameOutside c block
      ((blockInputs block).foldl (fun s q => noteInput c block q.1 s q.2) (v, []))
      ((blockInputs block).foldl (fun s q => noteInput c block q.1 s q.2) (w, [])) :=
    foldl_rel (r := SameOutside c block) ⟨hsame, rfl, houtside⟩ fun q hq s t hst =>
      hst.noteInput (hback q hq)
  rw [fetchInputUtxos_eq, fetchInputUtxos_eq]
  intro hash
  have hlookup := hstep.same hash
  unfold lookupEntry at hlookup ⊢
  simp only
  rw [lookup_fetchUtxosMain, lookup_fetchUtxosMain, hstep.noted]
  split_ifs
  · rfl
  · exact hlookup

/-! ### Loading over a reference to a later transaction -/

theorem pairwise_blockInputs (block : MsgBlock) : (blockInputs block).Pairwise fun q r => q.1 ≤ r.1 := by
  unfold blockInputs
  rw [pairwise_flatMap]
  refine ⟨fun p _ => ?_, ?_⟩
  · rw [pairwise_map]
    exact pairwise_of_forall fun _ _ => le_rfl
  · have hsorted : (block.transactions.drop 1).zipIdx.Pairwise fun p r => p.2 ≤ r.2 := by
      rw [pairwise_iff_getElem]
      intro i j hi hj hlt
      rw [getElem_zipIdx, getElem_zipIdx]
      simp only
      omega
    refine hsorted.imp fun {p r} hle x hx y hy => ?_
    obtain ⟨txIn, -, rfl⟩ := mem_map.mp hx
    obtain ⟨txIn', -, rfl⟩ := mem_map.mp hy
    exact hle

theorem noteInput_forward {i : Nat} {s : UtxoViewpoint × List Hash} {txIn : TxIn} {p : MsgTx × Nat}
    (hflight : txInFlight c block.transactions txIn.previousOutPoint.hash = some p) (hlt : i < p.2)
    (hnew : txIn.previousOutPoint.hash ∉ s.1.entries) :
    noteInput c block i s txIn = (s.1, txIn.previousOutPoint.hash :: s.2) := by
  simp only [noteInput, hflight]
  rw [if_neg (Nat.not_le.mpr hlt), if_neg hnew]

theorem mem_noteInputs {hash : Hash} (inputs : List (Nat × TxIn)) (s : UtxoViewpoint × List Hash) (h : hash ∈ s.2) :
    hash ∈ (inputs.foldl (fun s q => noteInput c block q.1 s q.2) s).2 := by
  refine List.foldlRecOn (motive := fun s : UtxoViewpoint × List Hash => hash ∈ s.2) _ _ h
    fun s hs q _ => ?_
  rcases noteInput_cases c block q.1 s q.2 with heq | ⟨-, heq⟩ | ⟨tx, -, heq⟩
  · rwa [heq]
  · rw [heq]
    exact mem_cons_of_mem _ hs
  · rw [heq]
    exact hs

/-- What a run over inputs up to a position brings into an empty view: entries of transactions before
that position. -/
theorem entries_noteInputs {hash : Hash} {n : Nat} (inputs : List (Nat × TxIn))
    (hle : ∀ q ∈ inputs, q.1 ≤ n) (s : UtxoViewpoint × List Hash)
    (hs : ∀ hash ∈ s.1.entries, ∃ k tx, block.transactions[k]? = some tx ∧ tx.txHash c = hash ∧ k ≤ n)
    (h : hash ∈ (inputs.foldl (fun s q => noteInput c block q.1 s q.2) s).1.entries) :
    ∃ k tx, block.transactions[k]? = some tx ∧ tx.txHash c = hash ∧ k ≤ n := by
  refine List.foldlRecOn (motive := fun s : UtxoViewpoint × List Hash => ∀ hash ∈ s.1.entries,
    ∃ k tx, block.transactions[k]? = some tx ∧ tx.txHash c = hash ∧ k ≤ n) inputs _ hs
    (fun s hs q hq => ?_) hash h
  cases hflight : txInFlight c block.transactions q.2.previousOutPoint.hash with
  | none =>
    simp only [noteInput, hflight]
    split_ifs <;> exact hs
  | some p =>
    simp only [noteInput, hflight]
    split_ifs with hpos hmem
    · intro hash hhash
      rcases (mem_insert _).mp hhash with rfl | hold
      · exact ⟨p.2, p.1, (txInFlight_some hflight).1, rfl, hpos.trans (hle q hq)⟩
      · exact hs hash hold
    · exact hs
    · exact hs

/-- A transaction that an earlier one, or itself, refers to is loaded from the database, whatever the
loop has put into the view. -/
theorem lookupEntry_fetchInputUtxos_forward {i j : Nat} {tx tx' : MsgTx} {o : OutPoint}
    (hnodup : (block.transactions.map (·.txHash c)).Nodup)
    (htx : block.transactions[i + 1]? = some tx) (htx' : block.transactions[j]? = some tx')
    (hle : i + 1 ≤ j) (ho : o ∈ tx.prevOuts) (hhash : o.hash = tx'.txHash c) (bestHash : Hash) :
    ((newUtxoViewpoint bestHash).fetchInputUtxos c db block).lookupEntry o.hash = db.lookup o.hash := by
  obtain ⟨txIn, htxIn, rfl⟩ := mem_map.mp ho
  have hinput : (i, txIn) ∈ blockInputs block := mem_blockInputs.mpr ⟨tx, htx, htxIn⟩
  obtain ⟨before, after, hsplit⟩ := append_of_mem hinput
  have hpairwise := pairwise_blockInputs block
  rw [hsplit, pairwise_append] at hpairwise
  have hbefore : ∀ q ∈ before, q.1 ≤ i := fun q hq => hpairwise.2.2 q hq _ mem_cons_self
  have hnew : txIn.previousOutPoint.hash ∉ (before.foldl
      (fun s q => noteInput c block q.1 s q.2) (newUtxoViewpoint bestHash, [])).1.entries := by
    intro hmem
    obtain ⟨k, tx'', htx'', hhash'', hk⟩ := entries_noteInputs before hbefore _
      (fun hash hhash => absurd hhash (notMem_empty hash)) hmem
    have hpos := position_unique hnodup htx'' htx' (hhash''.trans hhash)
    omega
  have hnoted : txIn.previousOutPoint.hash ∈ ((blockInputs block).foldl
      (fun s q => noteInput c block q.1 s q.2) (newUtxoViewpoint bestHash, [])).2 := by
    rw [hsplit, foldl_append, foldl_cons]
    refine mem_noteInputs after _ ?_
    cases hflight : txInFlight c block.transactions txIn.previousOutPoint.hash with
    | none => exact absurd hhash.symm (txInFlight_none hflight tx' (mem_of_getElem? htx'))
    | some p =>
      obtain ⟨hp, hphash⟩ := txInFlight_some hflight
      have hpos := position_unique hnodup hp htx' (hphash.trans hhash)
      rw [noteInput_forward hflight (by omega) hnew]
      exact mem_cons_self
  rw [fetchInputUtxos_eq]
  unfold lookupEntry
  simp only
  rw [lookup_fetchUtxosMain, if_pos hnoted]
  rfl

theorem connectTxs_missing {before after : List MsgTx} {tx : MsgTx} {height : UInt32}
    {view : UtxoViewpoint} {r : UtxoViewpoint × List SpentTxOut} {o : OutPoint} (ho : o ∈ spends tx)
    (hnone : view.lookupEntry o.hash = none) (hbefore : ∀ tx' ∈ before, o.hash ≠ tx'.txHash c) :
    connectTxs c height (before ++ tx :: after) view ≠ .ok r := by
  intro h
  obtain ⟨v', stxos⟩ := r
  induction before generalizing view stxos with
  | nil =>
    obtain ⟨m, first, rest, hconnect, -, -⟩ := connectTxs_cons_ok.mp h
    exact (lookupEntry_connectTransaction_none hconnect hnone).1 o ho rfl
  | cons tx' before ih =>
    obtain ⟨m, first, rest, hconnect, hrest, -⟩ := connectTxs_cons_ok.mp h
    rw [forall_mem_cons] at hbefore
    exact ih ((lookupEntry_connectTransaction_none hconnect hnone).2 hbefore.1) hbefore.2 rest hrest

end UtxoViewpoint

namespace BlockChain

open UtxoViewpoint

/-- What `connectBestChain` hands to `connectBlock` for a block that is added fast. -/
def fastViews (c : Crypto) (b : BlockChain) (block : MsgBlock) :
    Except ChainError (UtxoViewpoint × List SpentTxOut × KeyViewpoint) := do
  let (utxoView, stxos) ←
    ((newUtxoViewpoint b.bestNode.hash).fetchInputUtxos c b.db.utxos block).connectTransactions c block
  let keyView ← b.keys.connectTransactions c block
  return (utxoView, stxos, keyView)

/-- A block that passes `checkConnectBlock` is connected by the fast path to the same entries, journal
and admin state exactly if none of its transactions spends from itself or from a later one. -/
theorem fastViews_eq_checked_iff {b : BlockChain} {block : MsgBlock} {s : ConnectState}
    {powLimit : Nat} {flags : BehaviorFlags} (hstored : UtxoDb.Stored b.db.utxos)
    (hsanity : checkBlockSanity c block powLimit flags = .ok ())
    (hconnect : checkConnectBlock c b.env (newBlockNode c block.header (some b.bestNode)) block
      (newUtxoViewpoint b.bestNode.hash) b.keys = .ok s) :
    (∃ view, fastViews c b block = .ok (view, s.stxos, s.keyView) ∧
        ∀ hash, view.modifiedEntry hash = s.utxoView.modifiedEntry hash) ↔ NoForwardRefs c block.transactions := by
  obtain ⟨coinbase, txs, htxs, hcb, hothers, -, hnodup⟩ := checkBlockSanity_ok hsanity
  obtain ⟨loaded, s₀, hload, hrun, -, rfl⟩ := checkConnectBlock_ok hconnect
  obtain ⟨view₀, hbip, rfl⟩ := loadInputs_ok hload
  obtain ⟨rfl, hnone⟩ := checkBIP0030_ok hstored hbip
  obtain ⟨stxos, htxs_ok, hstxos⟩ := connectTxs_of_connectTx hrun
  have hspends : ∀ {i : Nat} {tx : MsgTx}, block.transactions[i + 1]? = some tx →
      spends tx = tx.prevOuts := by
    intro i tx htx
    rw [htxs, getElem?_cons_succ] at htx
    have htx' := hothers tx (mem_of_getElem? htx)
    unfold spends
    simp [htx']
  constructor
  · -- a reference to a later transaction makes the fast path fail
    rintro ⟨view, hfast, -⟩
    rw [noForwardRefs_iff]
    intro i j tx tx' htx htx' hle o ho hhash
    obtain ⟨⟨v, stxos'⟩, hconnect', -⟩ := bind_eq_ok.mp hfast
    obtain ⟨r, hr, -⟩ := bind_eq_ok.mp hconnect'
    cases i with
    | zero =>
      rw [htxs, getElem?_cons_zero] at htx
      cases htx
      unfold spends at ho
      rw [if_pos hcb] at ho
      cases ho
    | succ i =>
      have hentry : ((newUtxoViewpoint b.bestNode.hash).fetchInputUtxos c b.db.utxos
          block).lookupEntry o.hash = b.db.utxos.lookup o.hash :=
        lookupEntry_fetchInputUtxos_forward hnodup htx htx' hle (hspends htx ▸ ho) hhash
          b.bestNode.hash
      rw [hhash, hnone tx' (mem_of_getElem? htx'), ← hhash] at hentry
      obtain ⟨hi, rfl⟩ := List.getElem?_eq_some_iff.mp htx
      have hsplit := List.take_append_drop (i + 1) block.transactions
      rw [drop_eq_getElem_cons hi] at hsplit
      rw [← hsplit] at hr
      refine connectTxs_missing ho hentry (fun tx'' htx'' heq => ?_) hr
      obtain ⟨k, hk⟩ := mem_iff_getElem?.mp htx''
      rw [getElem?_take] at hk
      split at hk
      · have hpos := position_unique hnodup hk htx' (heq.symm.trans hhash)
        omega
      · cases hk
  · intro hrefs
    have hback : ∀ q ∈ blockInputs block, RefersBack c block q := by
      intro q hq p hp
      obtain ⟨tx, htx, htxIn⟩ := mem_blockInputs.mp hq
      obtain ⟨hpos, hhash⟩ := txInFlight_some hp
      by_contra hlt
      refine noForwardRefs_iff.mp hrefs _ _ tx p.1 htx hpos (by omega) q.2.previousOutPoint ?_
        hhash.symm
      rw [hspends htx]
      exact mem_map_of_mem htxIn
    have hlookup := @lookup_fetchUtxosMain b.db.utxos (newUtxoViewpoint b.bestNode.hash)
      (block.transactions.map (·.txHash c))
    have hsame : SameEntries
        ((newUtxoViewpoint b.bestNode.hash).fetchUtxosMain b.db.utxos
          (block.transactions.map (·.txHash c))) (newUtxoViewpoint b.bestNode.hash) := by
      intro hash
      unfold lookupEntry
      rw [hlookup]
      split_ifs with hmem
      · obtain ⟨tx, htx, rfl⟩ := mem_map.mp hmem
        rw [hnone tx htx]
        rfl
      · rfl
    have houtside : ∀ hash, (∀ tx ∈ block.transactions, tx.txHash c ≠ hash) →
        (hash ∈ ((newUtxoViewpoint b.bestNode.hash).fetchUtxosMain b.db.utxos
          (block.transactions.map (·.txHash c))).entries ↔
            hash ∈ (newUtxoViewpoint b.bestNode.hash).entries) := by
      intro hash hout
      have hnot : hash ∉ block.transactions.map (·.txHash c) := fun hmem => by
        obtain ⟨tx, htx, heq⟩ := mem_map.mp hmem
        exact hout tx htx heq
      rw [← lookup_isSome, hlookup, if_neg hnot, lookup_isSome]
    obtain ⟨view, hview, hentries⟩ := (hsame.fetchInputUtxos houtside hback).connectTxs htxs_ok
    have hstxos' : s₀.stxos = stxos := hstxos
    refine ⟨view.setBestHash (block.blockHash c), ?_, fun hash => ?_⟩
    · refine bind_eq_ok.mpr ⟨(view.setBestHash (block.blockHash c), stxos),
        bind_eq_ok.mpr ⟨_, hview, rfl⟩, ?_⟩
      have haccept := checkConnectBlock_keys hconnect
      exact bind_eq_ok.mpr ⟨s₀.keyView, KeyViewpoint.connectTransactions_of_accept haccept,
        by rw [hstxos']; rfl⟩
    · exact congrArg (Option.filter (·.modified)) (hentries hash).symm

theorem fastViews_eq_checked_iff_issueBlock : ∃ s, checkConnectBlock Sample.crypto Sample.genesis.env
        (newBlockNode Sample.crypto Sample.issueBlock.header (some Sample.genesis.bestNode))
        Sample.issueBlock (newUtxoViewpoint Sample.genesis.bestNode.hash) Sample.genesis.keys = .ok s ∧
      ((∃ view, fastViews Sample.crypto Sample.genesis Sample.issueBlock = .ok (view, s.stxos, s.keyView) ∧
          ∀ hash, view.modifiedEntry hash = s.utxoView.modifiedEntry hash) ↔
        NoForwardRefs Sample.crypto Sample.issueBlock.transactions) := by
  obtain ⟨hsane, s, hs⟩ := Sample.checked_genesis Sample.issueBlock (by simp)
  exact ⟨s, hs, fastViews_eq_checked_iff (stored_createChainState false) hsane hs⟩

/-- A block that passes the checks and cannot be added fast: a transaction of it spends from a later
one. -/
theorem fastViews_forwardBlock :
    ∃ s, checkBlockSanity Sample.crypto Sample.forwardBlock Sample.params.powLimit bfNone = .ok () ∧
      checkConnectBlock Sample.crypto Sample.genesis.env
        (newBlockNode Sample.crypto Sample.forwardBlock.header (some Sample.genesis.bestNode))
        Sample.forwardBlock (newUtxoViewpoint Sample.genesis.bestNode.hash) Sample.genesis.keys = .ok s ∧
      ∀ views, fastViews Sample.crypto Sample.genesis Sample.forwardBlock ≠ .ok views := by
  obtain ⟨hsane, s, hs⟩ := Sample.checked_genesis Sample.forwardBlock (by simp)
  refine ⟨s, hsane, hs, fun views hviews => ?_⟩
  have hfails : (fastViews Sample.crypto Sample.genesis Sample.forwardBlock).isOk = false := by
    decide +kernel
  rw [hviews] at hfails
  cases hfails

end BlockChain

end Prova
