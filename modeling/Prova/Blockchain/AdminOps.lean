import Prova.Blockchain.TxRules

/-!
# What admin operations do

One lemma for each field of the admin state an operation or its undoing changes, and the inversion of
the checks of `CheckTransactionOutputs`. Key sets are followed by the number of times a key occurs,
because neither the swap in `Remove` nor the undoing keeps their order.

The checks look at the admin state before the transaction only, so every operation of an accepted
transaction is checked against the same state; `OpChecked` says what that gives for one of them.
-/

namespace Prova

open List

variable {c : Crypto} {t : KeySetType} {view : KeyViewpoint} {txs : List MsgTx} {params : Params}
  {k : PublicKey}

def AdminOp.isASPAdd (op : AdminOp) : Bool := op.keySetType == .asp && op.isAddOp

def AdminOp.onKey (op : AdminOp) (t : KeySetType) (k : PublicKey) : Prop :=
  t ≠ .asp ∧ op.keySetType = t ∧ op.pubKey = k

instance (op : AdminOp) (t : KeySetType) (k : PublicKey) : Decidable (op.onKey t k) :=
  inferInstanceAs (Decidable (_ ∧ _ ∧ _))

def aspAdds (ops : List AdminOp) : Nat := ops.countP AdminOp.isASPAdd

/-! ### Occurrences in a key set -/

namespace PublicKeySet

theorem count_add (set : PublicKeySet) (key : PublicKey) : (set.add key).count key = max 1 (set.count key) := by
  unfold add
  split
  · next h =>
    have hzero : set.count key = 0 := count_eq_zero.mpr (pos_eq_none.mp h)
    simp [hzero]
  · next h =>
    rw [pos_eq_none, not_not] at h
    have hpos : 0 < set.count key := count_pos_iff.mpr h
    omega

theorem count_add_of_ne {set : PublicKeySet} {key : PublicKey} (hne : k ≠ key) :
    (set.add key).count k = set.count k := by
  unfold add
  split
  · rw [count_append, count_singleton]
    simp [hne.symm]
  · rfl

theorem count_revoke (set : PublicKeySet) (key : PublicKey) : (set.revoke key).count key = set.count key - 1 := by
  by_cases h : key ∈ set
  · rw [← (revoke_perm_of_mem h).count_eq key, count_cons_self]
    omega
  · rw [revoke_of_notMem h, count_eq_zero.mpr h]

theorem count_revoke_of_ne {set : PublicKeySet} {key : PublicKey} (hne : k ≠ key) :
    (set.revoke key).count k = set.count k := by
  by_cases h : key ∈ set
  · rw [← (revoke_perm_of_mem h).count_eq k, count_cons_of_ne hne.symm]
  · rw [revoke_of_notMem h]

end PublicKeySet

namespace KeyViewpoint

def keyCount (view : KeyViewpoint) (t : KeySetType) (k : PublicKey) : Nat :=
  (view.adminKeySets t).count k

theorem keyCount_pos : 0 < view.keyCount t k ↔ k ∈ view.adminKeySets t := count_pos_iff

/-! ### One operation -/

variable (view : KeyViewpoint) (op : AdminOp)

@[simp] theorem applyAdminOp_threadTips : (view.applyAdminOp op).threadTips = view.threadTips := by
  unfold applyAdminOp setASPKey setKeySet
  split_ifs <;> rfl

@[simp] theorem applyAdminOp_totalSupply : (view.applyAdminOp op).totalSupply = view.totalSupply := by
  unfold applyAdminOp setASPKey setKeySet
  split_ifs <;> rfl

theorem applyAdminOp_lastKeyID :
    (view.applyAdminOp op).lastKeyID = if op.isASPAdd then op.keyID else view.lastKeyID := by
  unfold applyAdminOp setASPKey setKeySet AdminOp.isASPAdd
  split_ifs <;> simp_all

theorem applyAdminOp_aspKeyIdMap : (view.applyAdminOp op).aspKeyIdMap =
      if op.keySetType = .asp then
        Function.update view.aspKeyIdMap op.keyID (if op.isAddOp then some op.pubKey else none)
      else view.aspKeyIdMap := by
  unfold applyAdminOp setASPKey setKeySet
  split_ifs <;> rfl

theorem applyAdminOp_adminKeySets (t : KeySetType) : (view.applyAdminOp op).adminKeySets t =
      if t ≠ .asp ∧ op.keySetType = t then
        if op.isAddOp then (view.adminKeySets t).add op.pubKey
        else (view.adminKeySets t).revoke op.pubKey
      else view.adminKeySets t := by
  by_cases hasp : op.keySetType = .asp
  · have hnot : ¬ (t ≠ .asp ∧ op.keySetType = t) := by
      rintro ⟨ht, heq⟩
      exact ht (heq.symm.trans hasp)
    rw [if_neg hnot]
    unfold applyAdminOp setASPKey
    rw [if_pos hasp]
    split_ifs <;> rfl
  · by_cases heq : op.keySetType = t
    · subst heq
      rw [if_pos ⟨hasp, rfl⟩]
      unfold applyAdminOp setKeySet PublicKeySet.revoke
      rw [if_neg hasp]
      split_ifs <;> exact Function.update_self ..
    · rw [if_neg (fun h => heq h.2)]
      unfold applyAdminOp setKeySet
      rw [if_neg hasp]
      split_ifs <;> exact Function.update_of_ne (Ne.symm heq) ..

theorem keyCount_applyAdminOp_of_onKey (h : op.onKey t k) : (view.applyAdminOp op).keyCount t k =
      if op.isAddOp then max 1 (view.keyCount t k) else view.keyCount t k - 1 := by
  obtain ⟨hasp, hset, rfl⟩ := h
  unfold keyCount
  rw [applyAdminOp_adminKeySets, if_pos ⟨hasp, hset⟩]
  split_ifs
  · exact PublicKeySet.count_add ..
  · exact PublicKeySet.count_revoke ..

theorem keyCount_applyAdminOp_of_not_onKey (h : ¬ op.onKey t k) :
    (view.applyAdminOp op).keyCount t k = view.keyCount t k := by
  unfold keyCount
  rw [applyAdminOp_adminKeySets]
  split_ifs with hset hadd
  · exact PublicKeySet.count_add_of_ne fun heq => h ⟨hset.1, hset.2, heq.symm⟩
  · exact PublicKeySet.count_revoke_of_ne fun heq => h ⟨hset.1, hset.2, heq.symm⟩
  · rfl

theorem mem_of_applyAdminOp (h : k ∈ (view.applyAdminOp op).adminKeySets t) :
    k ∈ view.adminKeySets t ∨ op.onKey t k ∧ op.isAddOp = true := by
  rw [← keyCount_pos] at h ⊢
  by_cases hkey : op.onKey t k
  · rw [keyCount_applyAdminOp_of_onKey view op hkey] at h
    cases hadd : op.isAddOp with
    | true => exact .inr ⟨hkey, rfl⟩
    | false =>
      rw [hadd, if_neg Bool.false_ne_true] at h
      exact .inl (by omega)
  · rw [keyCount_applyAdminOp_of_not_onKey view op hkey] at h
    exact .inl h

theorem mem_applyAdminOp_of_kept (h : k ∈ view.adminKeySets t)
    (hkept : op.onKey t k → op.isAddOp = true) : k ∈ (view.applyAdminOp op).adminKeySets t := by
  rw [← keyCount_pos] at h ⊢
  by_cases hkey : op.onKey t k
  · rw [keyCount_applyAdminOp_of_onKey view op hkey, if_pos (hkept hkey)]
    omega
  · rwa [keyCount_applyAdminOp_of_not_onKey view op hkey]

/-! ### Undoing one operation -/

@[simp] theorem undoAdminOp_threadTips : (view.undoAdminOp op).threadTips = view.threadTips := by
  unfold undoAdminOp setASPKey
  split_ifs
  · rfl
  · rfl
  · exact applyAdminOp_threadTips ..

@[simp] theorem undoAdminOp_totalSupply : (view.undoAdminOp op).totalSupply = view.totalSupply := by
  unfold undoAdminOp setASPKey
  split_ifs
  · rfl
  · rfl
  · exact applyAdminOp_totalSupply ..

theorem undoAdminOp_lastKeyID :
    (view.undoAdminOp op).lastKeyID = if op.isASPAdd then op.keyID - 1 else view.lastKeyID := by
  unfold undoAdminOp setASPKey
  split_ifs with hasp hadd hboth hboth hboth <;> simp_all [AdminOp.isASPAdd, applyAdminOp_lastKeyID]

theorem undoAdminOp_aspKeyIdMap : (view.undoAdminOp op).aspKeyIdMap =
      if op.keySetType = .asp then
        Function.update view.aspKeyIdMap op.keyID (if op.isAddOp then none else some op.pubKey)
      else view.aspKeyIdMap := by
  unfold undoAdminOp setASPKey
  split_ifs with hasp
  · rfl
  · rfl
  · rw [applyAdminOp_aspKeyIdMap, if_neg hasp]

theorem undoAdminOp_adminKeySets : (view.undoAdminOp op).adminKeySets =
      (view.applyAdminOp { op with isAddOp := !op.isAddOp }).adminKeySets := by
  funext t
  unfold undoAdminOp setASPKey
  split_ifs with hasp
  · rw [applyAdminOp_adminKeySets, if_neg (fun h => h.1 (h.2.symm.trans hasp))]
  · rw [applyAdminOp_adminKeySets, if_neg (fun h => h.1 (h.2.symm.trans hasp))]
  · rfl

theorem keyCount_undoAdminOp_of_onKey (h : op.onKey t k) : (view.undoAdminOp op).keyCount t k =
      if op.isAddOp then view.keyCount t k - 1 else max 1 (view.keyCount t k) := by
  have hflip : ({ op with isAddOp := !op.isAddOp } : AdminOp).onKey t k := h
  have hcount := keyCount_applyAdminOp_of_onKey view _ hflip
  unfold keyCount at hcount ⊢
  rw [undoAdminOp_adminKeySets, hcount]
  cases op.isAddOp <;> rfl

theorem keyCount_undoAdminOp_of_not_onKey (h : ¬ op.onKey t k) :
    (view.undoAdminOp op).keyCount t k = view.keyCount t k := by
  have hflip : ¬ ({ op with isAddOp := !op.isAddOp } : AdminOp).onKey t k := h
  have hcount := keyCount_applyAdminOp_of_not_onKey view _ hflip
  unfold keyCount at hcount ⊢
  rw [undoAdminOp_adminKeySets, hcount]

end KeyViewpoint

/-! ### The checks -/

/-- An operation that fits an admin state: it adds what is not there and revokes what is. -/
structure OpFits (view : KeyViewpoint) (op : AdminOp) : Prop where
  asp : op.keySetType = .asp →
    view.aspKeyIdMap op.keyID = if op.isAddOp then none else some op.pubKey
  add : op.keySetType ≠ .asp → op.isAddOp = true → op.pubKey ∉ view.adminKeySets op.keySetType
  revoke : op.keySetType ≠ .asp → op.isAddOp = false → op.pubKey ∈ view.adminKeySets op.keySetType

/-- What `CheckTransactionOutputs` demands of one operation, apart from the numbering of keyIDs. -/
structure OpChecked (params : Params) (view : KeyViewpoint) (op : AdminOp) : Prop
    extends OpFits view op where
  add_size : op.keySetType ≠ .asp → op.isAddOp = true →
    (view.adminKeySets op.keySetType).length < maxAdminKeySetSize
  revoke_size : op.keySetType ≠ .asp → op.isAddOp = false →
    (if op.keySetType = .validate then params.minValidateKeySetSize else 0) <
      ((view.adminKeySets op.keySetType).length : Int)

theorem OpFits.same_direction {v : KeyViewpoint} {a b : AdminOp} (ha : OpFits v a) (hb : OpFits v b)
    (hak : a.onKey t k) (hbk : b.onKey t k) : a.isAddOp = b.isAddOp := by
  obtain ⟨hasp, rfl, rfl⟩ := hak
  obtain ⟨-, hset, hkey⟩ := hbk
  have hbasp : b.keySetType ≠ .asp := hset ▸ hasp
  cases hadda : a.isAddOp <;> cases haddb : b.isAddOp
  · rfl
  · exact absurd (ha.revoke hasp hadda) (hset ▸ hkey ▸ hb.add hbasp haddb)
  · exact absurd (hset ▸ hkey ▸ hb.revoke hbasp haddb) (ha.add hasp hadda)
  · rfl

theorem checkAdminOp_ok {s s' : OpCheckState} {op : AdminOp} (h : checkAdminOp params view s op = .ok s') :
    OpChecked params view op ∧
      s'.lastKeyID = (if op.isASPAdd then s.lastKeyID + 1 else s.lastKeyID) ∧
      (op.isASPAdd → op.keyID = s'.lastKeyID) := by
  unfold checkAdminOp at h
  by_cases hasp : op.keySetType = .asp
  · rw [if_pos hasp] at h
    cases hadd : op.isAddOp with
    | true =>
      simp only [hadd, if_true, bind_unit_eq_ok, ruleError_eq_ok, pure_eq_ok, ne_eq, not_not] at h
      obtain ⟨hnone, hid, rfl⟩ := h
      have hasAdd : op.isASPAdd = true := by simp [AdminOp.isASPAdd, hasp, hadd]
      refine ⟨⟨⟨fun _ => ?_, fun hn => absurd hasp hn, fun hn => absurd hasp hn⟩,
        fun hn => absurd hasp hn, fun hn => absurd hasp hn⟩, ?_, fun _ => hid⟩
      · rw [hadd, hnone]
        rfl
      · rw [if_pos hasAdd]
    | false =>
      simp only [hadd, Bool.false_eq_true, if_false, bind_unit_eq_ok, ruleError_eq_ok, pure_eq_ok,
        ne_eq, not_not] at h
      obtain ⟨-, hkey, rfl⟩ := h
      have hasAdd : op.isASPAdd = false := by simp [AdminOp.isASPAdd, hadd]
      refine ⟨⟨⟨fun _ => ?_, fun hn => absurd hasp hn, fun hn => absurd hasp hn⟩,
        fun hn => absurd hasp hn, fun hn => absurd hasp hn⟩, ?_, ?_⟩
      · rw [hadd, hkey]
        rfl
      · simp [hasAdd]
      · simp [hasAdd]
  · have hasAdd : op.isASPAdd = false := by simp [AdminOp.isASPAdd, hasp]
    rw [if_neg hasp] at h
    cases hadd : op.isAddOp with
    | true =>
      simp only [hadd, if_true, bind_unit_eq_ok, ruleError_eq_ok, pure_eq_ok, ne_eq, not_not,
        PublicKeySet.pos_eq_none, not_le] at h
      obtain ⟨hmem, hlen, rfl⟩ := h
      have hrev : op.isAddOp ≠ false := by simp [hadd]
      exact ⟨⟨⟨fun hn => absurd hn hasp, fun _ _ => hmem, fun _ h => absurd h hrev⟩,
        fun _ _ => hlen, fun _ h => absurd h hrev⟩, by simp [hasAdd], by simp [hasAdd]⟩
    | false =>
      simp only [hadd, Bool.false_eq_true, if_false, bind_unit_eq_ok, ruleError_eq_ok, pure_eq_ok,
        PublicKeySet.pos_eq_none, not_not, not_le] at h
      obtain ⟨hmem, hlen, rfl⟩ := h
      have hadd' : op.isAddOp ≠ true := by simp [hadd]
      exact ⟨⟨⟨fun hn => absurd hn hasp, fun _ h => absurd h hadd', fun _ _ => hmem⟩,
        fun _ h => absurd h hadd', fun _ _ => hlen⟩, by simp [hasAdd], by simp [hasAdd]⟩

def lastAdded (ops : List AdminOp) : Option KeyID :=
  (ops.filter AdminOp.isASPAdd).getLast?.map (·.keyID)

theorem lastAdded_cons (op : AdminOp) (ops : List AdminOp) : lastAdded (op :: ops) =
      if op.isASPAdd then some ((lastAdded ops).getD op.keyID) else lastAdded ops := by
  unfold lastAdded
  rw [filter_cons]
  split
  · rw [getLast?_cons]
    cases (ops.filter AdminOp.isASPAdd).getLast? <;> rfl
  · rfl

theorem lastAdded_eq_none {ops : List AdminOp} : lastAdded ops = none ↔ aspAdds ops = 0 := by
  unfold lastAdded aspAdds
  rw [Option.map_eq_none_iff, getLast?_eq_none_iff, countP_eq_length_filter, length_eq_zero_iff]

/-- Every operation of an accepted list passed its check, and the last keyID it provisions lies as
far above the counter as there are provisioned keys. -/
theorem checkAdminOps_ok {s s' : OpCheckState} {ops : List AdminOp}
    (h : ops.foldlM (checkAdminOp params view) s = .ok s') : (∀ op ∈ ops, OpChecked params view op) ∧
      (lastAdded ops).getD s.lastKeyID = s.lastKeyID + UInt32.ofNat (aspAdds ops) := by
  induction ops generalizing s with
  | nil =>
    cases h
    exact ⟨fun op hop => absurd hop not_mem_nil, by simp [aspAdds, lastAdded]⟩
  | cons op ops ih =>
    obtain ⟨m, hm, hrest⟩ := foldlM_cons_eq_ok.mp h
    obtain ⟨hop, hlast, hid⟩ := checkAdminOp_ok hm
    obtain ⟨hops, hcount⟩ := ih hrest
    refine ⟨forall_mem_cons.mpr ⟨hop, hops⟩, ?_⟩
    rw [lastAdded_cons]
    unfold aspAdds at hcount ⊢
    rw [countP_cons]
    cases hadd : op.isASPAdd with
    | true =>
      rw [hadd] at hlast
      rw [if_pos rfl, if_pos rfl, Option.getD_some, hid hadd, hcount, hlast, UInt32.ofNat_add]
      simp only [if_true]
      grind
    | false =>
      rw [hadd] at hlast
      simp only [Bool.false_eq_true, if_false] at hlast ⊢
      rw [← hlast, hcount]
      rfl

/-! ### Whole transactions -/

def threadOf (tx : MsgTx) : Option ThreadID := (getAdminDetails tx).map (·.1)

def txOps (tx : MsgTx) : List AdminOp :=
  match getAdminDetails tx with
  | none | some (.issue, _) => []
  | some (_, adminOutputs) =>
    match adminOps adminOutputs with
    | .error _ => []
    | .ok ops => ops

def opsOf (txs : List MsgTx) : List AdminOp := txs.flatMap txOps

namespace KeyViewpoint

/-- What a transaction does to the admin state when its operations can be read. -/
def afterTx (c : Crypto) (view : KeyViewpoint) (tx : MsgTx) : KeyViewpoint :=
  { (txOps tx).foldl applyAdminOp view with
    totalSupply :=
      match getAdminDetails tx with
      | some (.issue, adminOutputs) => (view.applySupply tx adminOutputs).totalSupply
      | _ => view.totalSupply
    threadTips :=
      match threadOf tx with
      | none => view.threadTips
      | some t => Function.update view.threadTips t (some ⟨tx.txHash c, 0⟩) }

@[simp] theorem foldl_applyAdminOp_threadTips (ops : List AdminOp) (view : KeyViewpoint) :
    (ops.foldl applyAdminOp view).threadTips = view.threadTips := by
  induction ops generalizing view with
  | nil => rfl
  | cons op ops ih => rw [foldl_cons, ih, applyAdminOp_threadTips]

@[simp] theorem foldl_applyAdminOp_totalSupply (ops : List AdminOp) (view : KeyViewpoint) :
    (ops.foldl applyAdminOp view).totalSupply = view.totalSupply := by
  induction ops generalizing view with
  | nil => rfl
  | cons op ops ih => rw [foldl_cons, ih, applyAdminOp_totalSupply]

theorem mem_of_foldl_afterTx (h : k ∈ (txs.foldl (afterTx c) view).adminKeySets t) :
    k ∈ view.adminKeySets t ∨ ∃ op ∈ opsOf txs, op.onKey t k ∧ op.isAddOp = true := by
  have hops : ∀ (ops : List AdminOp) (v : KeyViewpoint),
      k ∈ (ops.foldl applyAdminOp v).adminKeySets t →
        k ∈ v.adminKeySets t ∨ ∃ op ∈ ops, op.onKey t k ∧ op.isAddOp = true := by
    intro ops
    induction ops with
    | nil => exact fun v hv => .inl hv
    | cons op ops ih =>
      intro v hv
      rcases ih _ hv with hv | ⟨op', hop', hadds⟩
      · rcases mem_of_applyAdminOp v op hv with hv | hadds
        · exact .inl hv
        · exact .inr ⟨op, mem_cons_self, hadds⟩
      · exact .inr ⟨op', mem_cons_of_mem _ hop', hadds⟩
  induction txs generalizing view with
  | nil => exact .inl h
  | cons tx txs ih =>
    unfold opsOf
    rw [flatMap_cons]
    rcases ih h with hv | ⟨op, hop, hadds⟩
    · rcases hops (txOps tx) view hv with hv | ⟨op, hop, hadds⟩
      · exact .inl hv
      · exact .inr ⟨op, mem_append_left _ hop, hadds⟩
    · exact .inr ⟨op, mem_append_right _ hop, hadds⟩

theorem mem_foldl_afterTx_of_kept (h : k ∈ view.adminKeySets t)
    (hkept : ∀ op ∈ opsOf txs, op.onKey t k → op.isAddOp = true) : k ∈ (txs.foldl (afterTx c) view).adminKeySets t := by
  induction txs generalizing view with
  | nil => exact h
  | cons tx txs ih =>
    unfold opsOf at hkept
    rw [flatMap_cons, forall_mem_append] at hkept
    refine ih ?_ hkept.2
    have hops : k ∈ ((txOps tx).foldl applyAdminOp view).adminKeySets t :=
      List.foldlRecOn (motive := fun v : KeyViewpoint => k ∈ v.adminKeySets t) (txOps tx) applyAdminOp h
        fun v hv op hop => mem_applyAdminOp_of_kept v op hv (hkept.1 op hop)
    exact hops

theorem adminKeySets_foldl_afterTx (h : ∀ op ∈ opsOf txs, op.keySetType ≠ t) :
    (txs.foldl (afterTx c) view).adminKeySets t = view.adminKeySets t := by
  have hops : ∀ (ops : List AdminOp) (v : KeyViewpoint), (∀ op ∈ ops, op.keySetType ≠ t) →
      (ops.foldl applyAdminOp v).adminKeySets t = v.adminKeySets t := by
    intro ops
    induction ops with
    | nil => exact fun v _ => rfl
    | cons op ops ih =>
      intro v hne
      rw [forall_mem_cons] at hne
      rw [foldl_cons, ih _ hne.2, applyAdminOp_adminKeySets, if_neg fun hand => hne.1 hand.2]
  induction txs generalizing view with
  | nil => rfl
  | cons tx txs ih =>
    unfold opsOf at h
    rw [flatMap_cons, forall_mem_append] at h
    rw [foldl_cons, ih h.2]
    exact hops (txOps tx) view h.1

theorem connectTransaction_ok {view' : KeyViewpoint} {tx : MsgTx}
    (h : view.connectTransaction c tx = .ok view') : view' = view.afterTx c tx := by
  unfold connectTransaction processAdminOuts at h
  unfold afterTx txOps threadOf
  rcases hdet : getAdminDetails tx with _ | ⟨t, outs⟩
  · rw [hdet] at h
    cases h
    rfl
  · rw [hdet] at h
    cases t with
    | issue =>
      cases h
      rfl
    | root =>
      obtain ⟨ops, hops, hview⟩ := bind_eq_ok.mp h
      cases hview
      apply KeyViewpoint.ext <;> simp [hops, setThreadTip]
    | provision =>
      obtain ⟨ops, hops, hview⟩ := bind_eq_ok.mp h
      cases hview
      apply KeyViewpoint.ext <;> simp [hops, setThreadTip]

end KeyViewpoint

theorem checkTransactionOutputs_ops {tx : MsgTx} (h : checkTransactionOutputs params tx view = .ok ()) :
    ∃ s, (txOps tx).foldlM (checkAdminOp params view) ⟨view.lastKeyID, []⟩ = .ok s := by
  unfold checkTransactionOutputs at h
  unfold txOps
  rcases hdet : getAdminDetails tx with _ | ⟨t, outs⟩
  · exact ⟨_, rfl⟩
  · rw [hdet] at h
    cases t with
    | issue => exact ⟨_, rfl⟩
    | root =>
      obtain ⟨ops, hops, hcheck⟩ := bind_eq_ok.mp h
      obtain ⟨s, hs, -⟩ := map_eq_ok.mp hcheck
      simpa only [hops] using ⟨s, hs⟩
    | provision =>
      obtain ⟨ops, hops, hcheck⟩ := bind_eq_ok.mp h
      obtain ⟨s, hs, -⟩ := map_eq_ok.mp hcheck
      simpa only [hops] using ⟨s, hs⟩

/-- Check the outputs of a transaction and apply it to the admin state. -/
def acceptTx (c : Crypto) (params : Params) (view : KeyViewpoint) (tx : MsgTx) :
    Except ChainError KeyViewpoint := do
  checkTransactionOutputs params tx view
  view.connectTransaction c tx

theorem acceptTx_ok {view' : KeyViewpoint} {tx : MsgTx} (h : acceptTx c params view tx = .ok view') :
    checkTransactionOutputs params tx view = .ok () ∧ view' = view.afterTx c tx := by
  obtain ⟨hcheck, hconnect⟩ := bind_unit_eq_ok.mp h
  exact ⟨hcheck, KeyViewpoint.connectTransaction_ok hconnect⟩

end Prova
