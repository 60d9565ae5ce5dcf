import Prova.Blockchain.Run

/-!
# Undoing a block in the admin state

`disconnectTransactions` walks the transactions of a block backwards but the operations of each in
their own order, and it does not keep what it overwrote. Here is what it really restores: the supply,
the ASP keys and, as sets, the admin key sets always come back. The keyID counter comes back as one
less than the last keyID of the first transaction that provisions keys, and each thread tip as the
outpoint that the first transaction of the thread spends first.
-/

namespace Prova

open List

variable {c : Crypto} {u v v' : KeyViewpoint} {ops : List AdminOp} {txs : List MsgTx} {tx : MsgTx}
  {params : Params}

namespace KeyViewpoint

/-! ### The operations of one transaction -/

section Occurrences

variable {f : KeyViewpoint → AdminOp → KeyViewpoint} {t : KeySetType} {k : PublicKey}

theorem keyCount_foldl_insert (hon : ∀ op ∈ ops, ∀ w, op.onKey t k → (f w op).keyCount t k = max 1 (w.keyCount t k))
    (hoff : ∀ op ∈ ops, ∀ w, ¬ op.onKey t k → (f w op).keyCount t k = w.keyCount t k) (w : KeyViewpoint) :
    (ops.foldl f w).keyCount t k =
      if ∃ op ∈ ops, op.onKey t k then max 1 (w.keyCount t k) else w.keyCount t k := by
  induction ops generalizing w with
  | nil => simp
  | cons op ops ih =>
    rw [forall_mem_cons] at hon hoff
    rw [foldl_cons, ih hon.2 hoff.2]
    by_cases hop : op.onKey t k
    · rw [hon.1 w hop]
      simp [hop]
    · rw [hoff.1 w hop]
      simp [hop]

theorem keyCount_foldl_erase (hon : ∀ op ∈ ops, ∀ w, op.onKey t k → (f w op).keyCount t k = w.keyCount t k - 1)
    (hoff : ∀ op ∈ ops, ∀ w, ¬ op.onKey t k → (f w op).keyCount t k = w.keyCount t k) (w : KeyViewpoint) :
    (ops.foldl f w).keyCount t k = w.keyCount t k - ops.countP fun op => decide (op.onKey t k) := by
  induction ops generalizing w with
  | nil => simp
  | cons op ops ih =>
    rw [forall_mem_cons] at hon hoff
    rw [foldl_cons, ih hon.2 hoff.2, countP_cons]
    by_cases hop : op.onKey t k
    · rw [hon.1 w hop]
      simp only [hop, decide_true, if_true]
      omega
    · rw [hoff.1 w hop]
      simp [hop]

end Occurrences

theorem keyCount_foldl_untouched {f : KeyViewpoint → AdminOp → KeyViewpoint} {t : KeySetType}
    {k : PublicKey} (hoff : ∀ op w, ¬ op.onKey t k → (f w op).keyCount t k = w.keyCount t k)
    (hno : ∀ op ∈ ops, ¬ op.onKey t k) (w : KeyViewpoint) : (ops.foldl f w).keyCount t k = w.keyCount t k := by
  rw [keyCount_foldl_insert (fun op hop w hon => absurd hon (hno op hop)) (fun op _ w h => hoff op w h) w, if_neg]
  rintro ⟨op, hop, hon⟩
  exact hno op hop hon

/-- What undoing keeps of the keys a transaction was applied to. A key may have occurred more often
before: undoing a revocation inserts it at most once. -/
structure Undone (u v : KeyViewpoint) : Prop where
  asp : u.aspKeyIdMap = v.aspKeyIdMap
  count_le : ∀ t k, u.keyCount t k ≤ v.keyCount t k
  count_pos : ∀ t k, 0 < v.keyCount t k → 0 < u.keyCount t k

section Ops

variable {v : KeyViewpoint} {ops : List AdminOp}

theorem keyCount_undo (hops : ∀ op ∈ ops, OpFits v op) {t : KeySetType} {k : PublicKey}
    (hle : u.keyCount t k ≤ (ops.foldl applyAdminOp v).keyCount t k)
    (hpos : 0 < (ops.foldl applyAdminOp v).keyCount t k → 0 < u.keyCount t k) :
    (ops.foldl undoAdminOp u).keyCount t k ≤ v.keyCount t k ∧
      (0 < v.keyCount t k → 0 < (ops.foldl undoAdminOp u).keyCount t k) := by
  by_cases hex : ∃ op ∈ ops, op.onKey t k
  · obtain ⟨op, hop, hon⟩ := hex
    have hdir : ∀ o ∈ ops, o.onKey t k → o.isAddOp = op.isAddOp := fun o ho hok =>
      (hops o ho).same_direction (hops op hop) hok hon
    have hfits := hops op hop
    cases hadd : op.isAddOp with
    | true =>
      -- the key was not in the set, so applying gives one occurrence and undoing takes it away
      have hzero : v.keyCount t k = 0 := by
        obtain ⟨hasp, rfl, rfl⟩ := hon
        exact count_eq_zero.mpr (hfits.add hasp hadd)
      have happly := keyCount_foldl_insert (f := applyAdminOp) (t := t) (k := k)
        (fun o ho w hok => by rw [keyCount_applyAdminOp_of_onKey w o hok, hdir o ho hok, hadd]; rfl)
        (fun o _ w hno => keyCount_applyAdminOp_of_not_onKey w o hno) v
      have hundo := keyCount_foldl_erase (f := undoAdminOp) (t := t) (k := k)
        (fun o ho w hok => by rw [keyCount_undoAdminOp_of_onKey w o hok, hdir o ho hok, hadd]; rfl)
        (fun o _ w hno => keyCount_undoAdminOp_of_not_onKey w o hno) u
      rw [if_pos ⟨op, hop, hon⟩, hzero] at happly
      have hmany : 0 < ops.countP fun o => decide (o.onKey t k) :=
        countP_pos_iff.mpr ⟨op, hop, decide_eq_true hon⟩
      omega
    | false =>
      have hmem : 0 < v.keyCount t k := by
        obtain ⟨hasp, rfl, rfl⟩ := hon
        exact keyCount_pos.mpr (hfits.revoke hasp hadd)
      have happly := keyCount_foldl_erase (f := applyAdminOp) (t := t) (k := k)
        (fun o ho w hok => by rw [keyCount_applyAdminOp_of_onKey w o hok, hdir o ho hok, hadd]; rfl)
        (fun o _ w hno => keyCount_applyAdminOp_of_not_onKey w o hno) v
      have hundo := keyCount_foldl_insert (f := undoAdminOp) (t := t) (k := k)
        (fun o ho w hok => by rw [keyCount_undoAdminOp_of_onKey w o hok, hdir o ho hok, hadd]; rfl)
        (fun o _ w hno => keyCount_undoAdminOp_of_not_onKey w o hno) u
      rw [if_pos ⟨op, hop, hon⟩] at hundo
      omega
  · have hno : ∀ op ∈ ops, ¬ op.onKey t k := fun op hop hon => hex ⟨op, hop, hon⟩
    rw [keyCount_foldl_untouched (fun o w h => keyCount_applyAdminOp_of_not_onKey w o h) hno]
      at hle hpos
    rw [keyCount_foldl_untouched (fun o w h => keyCount_undoAdminOp_of_not_onKey w o h) hno]
    exact ⟨hle, hpos⟩

def touchesID (ops : List AdminOp) (id : KeyID) : Prop :=
  ∃ op ∈ ops, op.keySetType = .asp ∧ op.keyID = id

theorem aspKeyIdMap_foldl_apply {id : KeyID} (hno : ¬ touchesID ops id) (w : KeyViewpoint) :
    (ops.foldl applyAdminOp w).aspKeyIdMap id = w.aspKeyIdMap id := by
  induction ops generalizing w with
  | nil => rfl
  | cons op ops ih =>
    have hop : ¬ (op.keySetType = .asp ∧ op.keyID = id) := fun h => hno ⟨op, mem_cons_self, h⟩
    rw [foldl_cons, ih fun ⟨o, ho, h⟩ => hno ⟨o, mem_cons_of_mem op ho, h⟩, applyAdminOp_aspKeyIdMap]
    split
    · next hasp => exact Function.update_of_ne (fun heq => hop ⟨hasp, heq.symm⟩) ..
    · rfl

theorem aspKeyIdMap_foldl_undo (hops : ∀ op ∈ ops, OpFits v op) {id : KeyID}
    {w : KeyViewpoint} (h : touchesID ops id ∨ w.aspKeyIdMap id = v.aspKeyIdMap id) :
    (ops.foldl undoAdminOp w).aspKeyIdMap id = v.aspKeyIdMap id := by
  induction ops generalizing w with
  | nil =>
    rcases h with ⟨op, hop, -⟩ | h
    · exact absurd hop not_mem_nil
    · exact h
  | cons op ops ih =>
    rw [forall_mem_cons] at hops
    rw [foldl_cons]
    apply ih hops.2
    by_cases hop : op.keySetType = .asp ∧ op.keyID = id
    · right
      rw [undoAdminOp_aspKeyIdMap, if_pos hop.1, hop.2, Function.update_self, ← hop.2, hops.1.asp hop.1]
    · rcases h with ⟨o, ho, htouch⟩ | h
      · rcases mem_cons.mp ho with rfl | ho
        · exact absurd htouch hop
        · exact .inl ⟨o, ho, htouch⟩
      · right
        rw [undoAdminOp_aspKeyIdMap]
        split
        · next hasp => rw [Function.update_of_ne fun heq => hop ⟨hasp, heq.symm⟩, h]
        · exact h

end Ops

theorem lastKeyID_foldl {f : KeyViewpoint → AdminOp → KeyViewpoint} {g : KeyID → KeyID}
    (hf : ∀ w op, (f w op).lastKeyID = if op.isASPAdd then g op.keyID else w.lastKeyID)
    (ops : List AdminOp) (w : KeyViewpoint) : (ops.foldl f w).lastKeyID = ((lastAdded ops).map g).getD w.lastKeyID := by
  induction ops generalizing w with
  | nil => rfl
  | cons op ops ih =>
    rw [foldl_cons, ih, hf, lastAdded_cons]
    split
    · cases lastAdded ops <;> rfl
    · rfl


/-! ### One transaction -/

theorem foldl_add_eq (l : List UInt64) (s : UInt64) :
    l.foldl (· + ·) s = s + l.foldr (· + ·) 0 := by
  induction l generalizing s with
  | nil => simp
  | cons x l ih => rw [foldl_cons, ih, foldr_cons, UInt64.add_assoc]

theorem foldl_sub_eq (l : List UInt64) (s : UInt64) :
    l.foldl (· - ·) s = s - l.foldr (· + ·) 0 := by
  induction l generalizing s with
  | nil => simp
  | cons x l ih =>
    rw [foldl_cons, ih, foldr_cons]
    grind

theorem undoSupply_applySupply {outs : List (List ParsedOpcode)}
    (h : u.totalSupply = (v.applySupply tx outs).totalSupply) : (u.undoSupply tx outs).totalSupply = v.totalSupply := by
  unfold undoSupply
  unfold applySupply at h
  simp only at h ⊢
  rw [h]
  split_ifs
  · rw [foldl_add_eq, foldl_sub_eq, UInt64.sub_add_cancel]
  · rw [foldl_sub_eq, foldl_add_eq, UInt64.add_sub_cancel]

def beforeTx (view : KeyViewpoint) (tx : MsgTx) : KeyViewpoint :=
  { (txOps tx).foldl undoAdminOp view with
    totalSupply :=
      match getAdminDetails tx with
      | some (.issue, adminOutputs) => (view.undoSupply tx adminOutputs).totalSupply
      | _ => view.totalSupply
    threadTips :=
      match threadOf tx with
      | none => view.threadTips
      | some t => Function.update view.threadTips t (tx.txIn.head?.map (·.previousOutPoint)) }

@[simp] theorem foldl_undoAdminOp_threadTips (ops : List AdminOp) (view : KeyViewpoint) :
    (ops.foldl undoAdminOp view).threadTips = view.threadTips := by
  induction ops generalizing view with
  | nil => rfl
  | cons op ops ih => rw [foldl_cons, ih, undoAdminOp_threadTips]

@[simp] theorem foldl_undoAdminOp_totalSupply (ops : List AdminOp) (view : KeyViewpoint) :
    (ops.foldl undoAdminOp view).totalSupply = view.totalSupply := by
  induction ops generalizing view with
  | nil => rfl
  | cons op ops ih => rw [foldl_cons, ih, undoAdminOp_totalSupply]

theorem disconnectTransaction_input {u' : KeyViewpoint} (h : u.disconnectTransaction tx = .ok u') :
    threadOf tx ≠ none → tx.txIn ≠ [] := by
  intro hthread hin
  unfold disconnectTransaction at h
  unfold threadOf at hthread
  rcases hdet : getAdminDetails tx with _ | ⟨t, outs⟩
  · exact hthread (by rw [hdet]; rfl)
  · rw [hdet, hin] at h
    cases h

theorem disconnectTransaction_ok {u' : KeyViewpoint} (h : u.disconnectTransaction tx = .ok u') :
    u' = u.beforeTx tx := by
  have hin := disconnectTransaction_input h
  unfold disconnectTransaction at h
  unfold beforeTx txOps
  unfold threadOf at hin ⊢
  rcases hdet : getAdminDetails tx with _ | ⟨t, outs⟩
  · rw [hdet] at h
    cases h
    rfl
  · rw [hdet] at h hin
    obtain ⟨txIn, rest, htxIn⟩ := exists_cons_of_ne_nil (hin (by simp))
    rw [htxIn] at h ⊢
    cases t with
    | issue =>
      cases h
      rfl
    | root =>
      obtain ⟨ops, hops, hview⟩ := bind_eq_ok.mp h
      cases hview
      apply KeyViewpoint.ext <;> simp [hops, setThreadTip]
    | provision =>
      obtain ⟨ops, hops, hview⟩ := bind_eq_ok.mp h
      cases hview
      apply KeyViewpoint.ext <;> simp [hops, setThreadTip]

theorem disconnectTransaction_eq (hconnect : v.connectTransaction c tx = .ok v')
    (hin : threadOf tx ≠ none → tx.txIn ≠ []) : u.disconnectTransaction tx = .ok (u.beforeTx tx) := by
  suffices hok : ∃ u', u.disconnectTransaction tx = .ok u' by
    obtain ⟨u', hu'⟩ := hok
    rw [hu', disconnectTransaction_ok hu']
  unfold connectTransaction processAdminOuts at hconnect
  unfold disconnectTransaction
  unfold threadOf at hin
  rcases hdet : getAdminDetails tx with _ | ⟨t, outs⟩
  · exact ⟨u, rfl⟩
  · rw [hdet] at hconnect hin
    obtain ⟨txIn, rest, htxIn⟩ := exists_cons_of_ne_nil (hin (by simp))
    rw [htxIn]
    cases t with
    | issue => exact ⟨_, rfl⟩
    | root =>
      obtain ⟨ops, hops, -⟩ := bind_eq_ok.mp hconnect
      exact ⟨_, bind_eq_ok.mpr ⟨ops, hops, rfl⟩⟩
    | provision =>
      obtain ⟨ops, hops, -⟩ := bind_eq_ok.mp hconnect
      exact ⟨_, bind_eq_ok.mpr ⟨ops, hops, rfl⟩⟩

theorem beforeTx_totalSupply (h : u.totalSupply = (v.afterTx c tx).totalSupply) :
    (u.beforeTx tx).totalSupply = v.totalSupply := by
  unfold beforeTx
  unfold afterTx at h
  rcases hdet : getAdminDetails tx with _ | ⟨t, outs⟩
  · rwa [hdet] at h
  · rw [hdet] at h
    cases t with
    | issue => exact undoSupply_applySupply h
    | root => exact h
    | provision => exact h

theorem undone_beforeTx (hfits : ∀ op ∈ txOps tx, OpFits v op) (hu : Undone u (v.afterTx c tx)) :
    Undone (u.beforeTx tx) v := by
  have hcount := fun t k => keyCount_undo hfits (hu.count_le t k) (hu.count_pos t k)
  refine ⟨?_, fun t k => (hcount t k).1, fun t k => (hcount t k).2⟩
  funext id
  refine aspKeyIdMap_foldl_undo hfits ?_
  by_cases htouch : touchesID (txOps tx) id
  · exact .inl htouch
  · right
    rw [hu.asp]
    exact aspKeyIdMap_foldl_apply htouch v

theorem afterTx_lastKeyID (c : Crypto) (v : KeyViewpoint) (tx : MsgTx) :
    (v.afterTx c tx).lastKeyID = (lastAdded (txOps tx)).getD v.lastKeyID := by
  have h := lastKeyID_foldl (g := id) applyAdminOp_lastKeyID (txOps tx) v
  rw [Option.map_id] at h
  exact h

theorem beforeTx_lastKeyID (u : KeyViewpoint) (tx : MsgTx) :
    (u.beforeTx tx).lastKeyID = ((lastAdded (txOps tx)).map (· - 1)).getD u.lastKeyID :=
  lastKeyID_foldl undoAdminOp_lastKeyID (txOps tx) u

theorem afterTx_threadTips (c : Crypto) (v : KeyViewpoint) (tx : MsgTx) (t : ThreadID) : (v.afterTx c tx).threadTips t =
      if threadOf tx = some t then some ⟨tx.txHash c, 0⟩ else v.threadTips t := by
  unfold afterTx
  rcases threadOf tx with _ | t'
  · rfl
  · simp [Function.update_apply, eq_comm]

theorem beforeTx_threadTips (u : KeyViewpoint) (tx : MsgTx) (t : ThreadID) : (u.beforeTx tx).threadTips t =
      if threadOf tx = some t then tx.txIn.head?.map (·.previousOutPoint) else u.threadTips t := by
  unfold beforeTx
  rcases threadOf tx with _ | t'
  · rfl
  · simp [Function.update_apply, eq_comm]

/-! ### A list of transactions -/

/-- Every transaction of a list fits the admin state that the ones before it lead to. -/
def Fits (c : Crypto) : KeyViewpoint → List MsgTx → Prop
  | _, [] => True
  | v, tx :: txs => (∀ op ∈ txOps tx, OpFits v op) ∧ Fits c (v.afterTx c tx) txs

theorem fits_of_accept (haccept : txs.foldlM (acceptTx c params) v = .ok v') :
    Fits c v txs ∧ v' = txs.foldl (afterTx c) v := by
  induction txs generalizing v with
  | nil =>
    cases haccept
    exact ⟨trivial, rfl⟩
  | cons tx txs ih =>
    obtain ⟨v₁, htx, hrest⟩ := foldlM_cons_eq_ok.mp haccept
    obtain ⟨hcheck, rfl⟩ := acceptTx_ok htx
    obtain ⟨s, hs⟩ := checkTransactionOutputs_ops hcheck
    obtain ⟨hfits, hv'⟩ := ih hrest
    exact ⟨⟨fun op hop => ((checkAdminOps_ok hs).1 op hop).toOpFits, hfits⟩, hv'⟩

/-- By induction on the transactions: the first one is undone last, from a state that agrees with
the one it led to. -/
theorem undone_foldl (hfits : Fits c v txs) (hu : Undone u (txs.foldl (afterTx c) v)) :
    Undone (txs.reverse.foldl beforeTx u) v := by
  induction txs generalizing v with
  | nil => exact hu
  | cons tx txs ih =>
    rw [reverse_cons, foldl_append]
    exact undone_beforeTx hfits.1 (ih hfits.2 hu)

theorem foldl_beforeTx_totalSupply (h : u.totalSupply = (txs.foldl (afterTx c) v).totalSupply) :
    (txs.reverse.foldl beforeTx u).totalSupply = v.totalSupply := by
  induction txs generalizing v with
  | nil => exact h
  | cons tx txs ih =>
    rw [reverse_cons, foldl_append]
    exact beforeTx_totalSupply (ih h)

theorem foldl_beforeTx_lastKeyID (u : KeyViewpoint) (txs : List MsgTx) : (txs.reverse.foldl beforeTx u).lastKeyID =
      ((txs.findSome? fun tx => lastAdded (txOps tx)).map (· - 1)).getD u.lastKeyID := by
  induction txs with
  | nil => rfl
  | cons tx txs ih =>
    rw [reverse_cons, foldl_append, foldl_cons, foldl_nil, beforeTx_lastKeyID, ih, findSome?_cons]
    cases lastAdded (txOps tx) <;> rfl

theorem foldl_beforeTx_threadTips (u : KeyViewpoint) (txs : List MsgTx) (t : ThreadID) :
    (txs.reverse.foldl beforeTx u).threadTips t =
      match txs.find? fun tx => threadOf tx = some t with
      | none => u.threadTips t
      | some tx => tx.txIn.head?.map (·.previousOutPoint) := by
  induction txs with
  | nil => rfl
  | cons tx txs ih =>
    rw [reverse_cons, foldl_append, foldl_cons, foldl_nil, find?_cons, beforeTx_threadTips, ih]
    by_cases hthread : threadOf tx = some t <;> simp [hthread]

theorem foldl_afterTx_threadTips {t : ThreadID} (hno : ∀ tx ∈ txs, threadOf tx ≠ some t) :
    (txs.foldl (afterTx c) v).threadTips t = v.threadTips t := by
  induction txs generalizing v with
  | nil => rfl
  | cons tx txs ih =>
    rw [forall_mem_cons] at hno
    rw [foldl_cons, ih hno.2, afterTx_threadTips, if_neg hno.1]

/-! ### A block -/

/-- When a block is undone exactly: every admin transaction has an input to read, the first
transaction of the block that provisions ASP keys provisions one, and the first transaction of each
thread spends the thread's tip with its first input. -/
structure UndoExact (v : KeyViewpoint) (txs : List MsgTx) : Prop where
  inputs : ∀ tx ∈ txs, threadOf tx ≠ none → tx.txIn ≠ []
  adds : ∀ tx ∈ txs.find? (fun tx => aspAdds (txOps tx) ≠ 0),
    UInt32.ofNat (aspAdds (txOps tx)) = 1
  tips : ∀ t, ∀ tx ∈ txs.find? (fun tx => threadOf tx = some t),
    tx.txIn.head?.map (·.previousOutPoint) = v.threadTips t

theorem undone_lastKeyID_of_accept (haccept : txs.foldlM (acceptTx c params) v = .ok v') :
    (txs.reverse.foldl beforeTx v').lastKeyID =
      match txs.find? fun tx => aspAdds (txOps tx) ≠ 0 with
      | none => v.lastKeyID
      | some tx => v.lastKeyID + UInt32.ofNat (aspAdds (txOps tx)) - 1 := by
  rw [foldl_beforeTx_lastKeyID]
  induction txs generalizing v with
  | nil =>
    cases haccept
    rfl
  | cons tx txs ih =>
    obtain ⟨v₁, htx, hrest⟩ := foldlM_cons_eq_ok.mp haccept
    obtain ⟨hcheck, rfl⟩ := acceptTx_ok htx
    obtain ⟨s, hs⟩ := checkTransactionOutputs_ops hcheck
    have hlast := (checkAdminOps_ok hs).2
    rw [findSome?_cons, find?_cons]
    rcases hadded : lastAdded (txOps tx) with _ | id
    · -- no key was provisioned, so the counter is still the one before the transaction
      have hzero : aspAdds (txOps tx) = 0 := lastAdded_eq_none.mp hadded
      have hsame : (v.afterTx c tx).lastKeyID = v.lastKeyID := by
        rw [afterTx_lastKeyID, hadded, Option.getD_none]
      simpa [hzero, hsame] using ih hrest
    · have hnonzero : aspAdds (txOps tx) ≠ 0 := fun hzero => by
        simp [lastAdded_eq_none.mpr hzero] at hadded
      rw [hadded, Option.getD_some] at hlast
      simp [hnonzero, hlast]

theorem connectTransactions_of_accept {block : MsgBlock}
    (haccept : block.transactions.foldlM (acceptTx c params) v = .ok v') : v.connectTransactions c block = .ok v' :=
  foldlM_congr_of_ok (fun _ _ _ _ h => (bind_unit_eq_ok.mp h).2) haccept

/-- Undoing a block whose transactions were accepted restores the admin state exactly when
`UndoExact` holds. -/
theorem disconnectTransactions_restores_iff {c : Crypto} {params : Params} {v v' : KeyViewpoint}
    {block : MsgBlock} (haccept : block.transactions.foldlM (acceptTx c params) v = .ok v') :
    v.connectTransactions c block = .ok v' ∧ ((∃ u, v'.disconnectTransactions block = .ok u ∧ u.Same v) ↔
        UndoExact v block.transactions) := by
  obtain ⟨hfits, hv'⟩ := fits_of_accept haccept
  have hundone : Undone (block.transactions.reverse.foldl beforeTx v') v :=
    undone_foldl hfits (hv' ▸ ⟨rfl, fun _ _ => le_rfl, fun _ _ => id⟩)
  have hlast := undone_lastKeyID_of_accept haccept
  have htips := fun t => foldl_beforeTx_threadTips v' block.transactions t
  refine ⟨connectTransactions_of_accept haccept, ?_, ?_⟩
  · rintro ⟨u, hundo, hsame⟩
    have hu : u = block.transactions.reverse.foldl beforeTx v' :=
      foldlM_eq_foldl (fun tx _ s t h => disconnectTransaction_ok h) hundo
    rw [← hu] at hlast htips
    refine ⟨?_, ?_, ?_⟩
    · intro tx htx
      obtain ⟨s, t, hst⟩ := foldlM_mem_ok hundo tx (mem_reverse.mpr htx)
      exact disconnectTransaction_input hst
    · intro tx htx
      rw [Option.mem_def] at htx
      rw [htx, hsame.lastKeyID] at hlast
      simp only at hlast
      grind
    · intro t tx htx
      have ht := htips t
      rw [Option.mem_def] at htx
      rw [htx, hsame.threadTips] at ht
      exact ht.symm
  · intro hexact
    refine ⟨_, foldlM_eq_ok_foldl fun tx htx s => ?_,
      ⟨?_, ?_, foldl_beforeTx_totalSupply (congrArg totalSupply hv'), ?_, hundone.asp⟩⟩
    · rw [mem_reverse] at htx
      obtain ⟨s₁, s₂, hst⟩ := foldlM_mem_ok (connectTransactions_of_accept haccept) tx htx
      exact disconnectTransaction_eq hst (hexact.inputs tx htx)
    · funext t
      rw [htips]
      rcases hfind : block.transactions.find? fun tx => threadOf tx = some t with _ | tx
      · rw [hv']
        refine foldl_afterTx_threadTips fun tx htx heq => ?_
        exact find?_eq_none.mp hfind tx htx (by simpa using heq)
      · exact hexact.tips t tx hfind
    · rw [hlast]
      rcases hfind : block.transactions.find? fun tx => aspAdds (txOps tx) ≠ 0 with _ | tx
      · rfl
      · have hone := hexact.adds tx hfind
        simp only [hone]
        grind
    · intro t k
      rw [← keyCount_pos, ← keyCount_pos]
      exact ⟨fun h => lt_of_lt_of_le h (hundone.count_le t k), hundone.count_pos t k⟩

theorem disconnectTransactions_restores_iff_issueBlock :
    ∃ v', Sample.genesis.keys.connectTransactions Sample.crypto Sample.issueBlock = .ok v' ∧
      ((∃ u, v'.disconnectTransactions Sample.issueBlock = .ok u ∧ u.Same Sample.genesis.keys) ↔
        UndoExact Sample.genesis.keys Sample.issueBlock.transactions) := by
  obtain ⟨s, hs⟩ := Sample.issueBlock_extends.connected
  exact ⟨_, disconnectTransactions_restores_iff hs.accept⟩

/-- A transaction that provisions the keyIDs 3 and 4 is undone to the counter 3: the undo takes one
from the last keyID it reads. -/
theorem disconnectTransactions_provisionBlock :
    ∃ v' u, Sample.provisionBlock.transactions.foldlM (acceptTx Sample.crypto Sample.params)
        Sample.genesis.keys = .ok v' ∧
      Sample.genesis.keys.connectTransactions Sample.crypto Sample.provisionBlock = .ok v' ∧
      v'.disconnectTransactions Sample.provisionBlock = .ok u ∧
      Sample.genesis.keys.lastKeyID = 2 ∧ u.lastKeyID = 3 := by
  obtain ⟨s, hs⟩ := Sample.provisionBlock_extends.connected
  have hlast : ((BlockChain.afterBlock Sample.crypto Sample.genesis
      Sample.provisionBlock).keys.disconnectTransactions Sample.provisionBlock).toOption.map
        (·.lastKeyID) = some 3 := by decide +kernel
  obtain ⟨u, hu, hu3⟩ := Option.map_eq_some_iff.mp hlast
  exact ⟨_, u, hs.accept, connectTransactions_of_accept hs.accept, eq_ok_of_toOption hu,
    by decide, hu3⟩

end KeyViewpoint

end Prova
