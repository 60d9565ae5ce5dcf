import Prova.Blockchain.KeySets
import Prova.Blockchain.KeyUndo

/-!
# Exchanging transactions in the admin state

`reorganizeChain` undoes the old blocks in a key view, checks the new ones on it, which connects
them, and then connects them once more. Keys and key sets do not mind, because the last operation on
a key decides. The supply is counted twice, and the keyID counter and the thread tips are what undoing
left when the new blocks do not set them.
-/

namespace Prova

variable {u v view : KeyViewpoint} {txs : List MsgTx}

def aspWrite (id : KeyID) (op : AdminOp) : Option (Option PublicKey) :=
  if op.keySetType = .asp ∧ op.keyID = id then some (if op.isAddOp then some op.pubKey else none)
  else none

namespace KeyViewpoint

variable {c : Crypto}

/-! ### Keys as last writes -/

theorem aspKeyIdMap_applyAdminOp (view : KeyViewpoint) (op : AdminOp) (id : KeyID) :
    (view.applyAdminOp op).aspKeyIdMap id = (aspWrite id op).getD (view.aspKeyIdMap id) := by
  unfold aspWrite
  rw [applyAdminOp_aspKeyIdMap]
  by_cases hasp : op.keySetType = .asp
  · by_cases hid : op.keyID = id
    · simp [hasp, hid]
    · have hne : id ≠ op.keyID := fun h => hid h.symm
      simp [hasp, hid, Function.update_of_ne hne]
  · simp [hasp]

theorem aspKeyIdMap_afterTx (view : KeyViewpoint) (tx : MsgTx) (id : KeyID) : (view.afterTx c tx).aspKeyIdMap id =
      (lastWrite (aspWrite id) (txOps tx)).getD (view.aspKeyIdMap id) :=
  foldl_eq_lastWrite (I := fun _ => True) (π := fun v : KeyViewpoint => v.aspKeyIdMap id)
    (fun _ _ _ => trivial) (fun v op _ => aspKeyIdMap_applyAdminOp v op id) trivial (txOps tx)

theorem aspKeyIdMap_foldl_afterTx (view : KeyViewpoint) (txs : List MsgTx) (id : KeyID) :
    (txs.foldl (afterTx c) view).aspKeyIdMap id =
      (lastWrite (fun tx => lastWrite (aspWrite id) (txOps tx)) txs).getD (view.aspKeyIdMap id) :=
  foldl_eq_lastWrite (I := fun _ => True) (π := fun v : KeyViewpoint => v.aspKeyIdMap id)
    (fun _ _ _ => trivial) (fun v tx _ => aspKeyIdMap_afterTx v tx id) trivial txs

theorem aspKeyIdMap_of_untouched {id : KeyID} (h : ∀ op ∈ opsOf txs, ¬ (op.keySetType = .asp ∧ op.keyID = id)) :
    (txs.foldl (afterTx c) view).aspKeyIdMap id = view.aspKeyIdMap id := by
  have hnone : lastWrite (aspWrite id) (opsOf txs) = none :=
    lastWrite_eq_none.mpr fun op hop => if_neg (h op hop)
  unfold opsOf at hnone
  rw [aspKeyIdMap_foldl_afterTx, ← lastWrite_flatMap, hnone]
  rfl

theorem aspKeyIdMap_of_not_added {id : KeyID}
    (h : ∀ op ∈ opsOf txs, ¬ (op.keySetType = .asp ∧ op.isAddOp = true ∧ op.keyID = id))
    (hsome : (txs.foldl (afterTx c) view).aspKeyIdMap id ≠ none) : view.aspKeyIdMap id ≠ none := by
  rw [aspKeyIdMap_foldl_afterTx, ← lastWrite_flatMap] at hsome
  cases hlast : lastWrite (aspWrite id) (txs.flatMap txOps) with
  | none =>
    rw [hlast] at hsome
    exact hsome
  | some key =>
    obtain ⟨op, hop, hwrite⟩ := exists_of_lastWrite hlast
    unfold aspWrite at hwrite
    rw [Option.ite_none_right_eq_some, Option.some.injEq] at hwrite
    obtain ⟨⟨hasp, hid⟩, hkey⟩ := hwrite
    have hadd : op.isAddOp = false := by
      by_contra hadd
      exact h op hop ⟨hasp, by simpa using hadd, hid⟩
    rw [hadd, if_neg Bool.false_ne_true] at hkey
    rw [hlast, ← hkey] at hsome
    exact absurd rfl hsome

theorem SetsNodup.afterTx (h : view.SetsNodup) (tx : MsgTx) : (view.afterTx c tx).SetsNodup := h.foldl (txOps tx)

theorem SetsNodup.foldl_afterTx (h : view.SetsNodup) (txs : List MsgTx) :
    (txs.foldl (KeyViewpoint.afterTx c) view).SetsNodup :=
  List.foldlRecOn txs _ h fun _ hv tx _ => hv.afterTx tx

theorem mem_foldl_afterTx (h : view.SetsNodup) (txs : List MsgTx) (t : KeySetType) (k : PublicKey) :
    decide (k ∈ (txs.foldl (afterTx c) view).adminKeySets t) =
      (lastWrite (fun tx => lastWrite (keyWrite t k) (txOps tx)) txs).getD (decide (k ∈ view.adminKeySets t)) :=
  foldl_eq_lastWrite (f := afterTx c)
    (π := fun v : KeyViewpoint => decide (k ∈ v.adminKeySets t)) (fun _ tx hv => hv.afterTx tx)
    (fun _ tx hv => mem_foldl_applyAdminOp hv (txOps tx) t k) h txs

/-! ### States with the same keys -/

/-- Two admin states without repeated keys that hold the same keys. -/
structure Agree (u v : KeyViewpoint) : Prop where
  left : u.SetsNodup
  right : v.SetsNodup
  asp : u.aspKeyIdMap = v.aspKeyIdMap
  mem : ∀ t k, k ∈ u.adminKeySets t ↔ k ∈ v.adminKeySets t

theorem Agree.foldl_afterTx (h : Agree u v) (txs : List MsgTx) :
    Agree (txs.foldl (afterTx c) u) (txs.foldl (afterTx c) v) := by
  refine ⟨h.left.foldl_afterTx txs, h.right.foldl_afterTx txs, ?_, fun t k => ?_⟩
  · funext id
    rw [aspKeyIdMap_foldl_afterTx, aspKeyIdMap_foldl_afterTx, h.asp]
  · rw [← decide_eq_decide, mem_foldl_afterTx h.left, mem_foldl_afterTx h.right, decide_eq_decide.mpr (h.mem t k)]

theorem Agree.foldl_afterTx_twice (h : Agree u v) (txs : List MsgTx) :
    Agree (txs.foldl (afterTx c) (txs.foldl (afterTx c) u)) (txs.foldl (afterTx c) v) := by
  have honce := h.foldl_afterTx (c := c) txs
  refine ⟨honce.left.foldl_afterTx txs, honce.right, ?_, fun t k => ?_⟩
  · funext id
    rw [aspKeyIdMap_foldl_afterTx, aspKeyIdMap_foldl_afterTx, aspKeyIdMap_foldl_afterTx, h.asp]
    cases lastWrite (fun tx => lastWrite (aspWrite id) (txOps tx)) txs <;> rfl
  · rw [← decide_eq_decide, mem_foldl_afterTx honce.left, mem_foldl_afterTx h.left,
      mem_foldl_afterTx h.right, decide_eq_decide.mpr (h.mem t k)]
    cases lastWrite (fun tx => lastWrite (keyWrite t k) (txOps tx)) txs <;> rfl

theorem Agree.opFits (h : Agree u v) {op : AdminOp} (hfits : OpFits u op) :
    OpFits v op where
  asp := fun hasp => h.asp ▸ hfits.asp hasp
  add := fun hasp hadd hmem => hfits.add hasp hadd ((h.mem ..).mpr hmem)
  revoke := fun hasp hadd => (h.mem ..).mp (hfits.revoke hasp hadd)

theorem Agree.fits (h : Agree u v) (hfits : Fits c u txs) : Fits c v txs := by
  induction txs generalizing u v with
  | nil => trivial
  | cons tx txs ih =>
    exact ⟨fun op hop => h.opFits (hfits.1 op hop), ih (h.foldl_afterTx [tx]) hfits.2⟩

theorem fits_cons {tx : MsgTx} :
    Fits c v (tx :: txs) ↔ (∀ op ∈ txOps tx, OpFits v op) ∧ Fits c (v.afterTx c tx) txs := Iff.rfl

theorem fits_append {txs' : List MsgTx} :
    Fits c v (txs ++ txs') ↔ Fits c v txs ∧ Fits c (txs.foldl (afterTx c) v) txs' := by
  induction txs generalizing v with
  | nil => simp [Fits]
  | cons tx txs ih =>
    rw [List.cons_append, List.foldl_cons, fits_cons, fits_cons, ih, and_assoc]

theorem SetsNodup.beforeTx (h : view.SetsNodup) (tx : MsgTx) : (view.beforeTx tx).SetsNodup := by
  refine List.foldlRecOn (motive := SetsNodup) (txOps tx) undoAdminOp h fun v hv op _ t => ?_
  rw [undoAdminOp_adminKeySets]
  exact hv.applyAdminOp _ t

theorem SetsNodup.foldl_beforeTx (h : view.SetsNodup) (txs : List MsgTx) :
    (txs.foldl KeyViewpoint.beforeTx view).SetsNodup :=
  List.foldlRecOn txs _ h fun _ hv tx _ => hv.beforeTx tx

theorem Agree.foldl_beforeTx (hfits : Fits c v txs) (hv : v.SetsNodup) (h : Agree u (txs.foldl (afterTx c) v)) :
    Agree (txs.reverse.foldl beforeTx u) v := by
  have hcount : ∀ t k, u.keyCount t k = (txs.foldl (afterTx c) v).keyCount t k := by
    intro t k
    unfold keyCount
    rw [(h.left t).count, (h.right t).count]
    exact if_congr (h.mem t k) rfl rfl
  have hundone : Undone (txs.reverse.foldl beforeTx u) v :=
    undone_foldl hfits ⟨h.asp, fun t k => (hcount t k).le, fun t k hpos => (hcount t k).symm ▸ hpos⟩
  refine ⟨h.left.foldl_beforeTx _, hv, hundone.asp, fun t k => ?_⟩
  rw [← keyCount_pos, ← keyCount_pos]
  exact ⟨fun hpos => lt_of_lt_of_le hpos (hundone.count_le t k), hundone.count_pos t k⟩

/-! ### Counters -/

theorem afterTx_totalSupply (c : Crypto) (tx : MsgTx) :
    ∃ d : UInt64, ∀ v : KeyViewpoint, (v.afterTx c tx).totalSupply = v.totalSupply + d := by
  unfold afterTx
  rcases getAdminDetails tx with _ | ⟨t, outs⟩
  · exact ⟨0, fun v => by simp⟩
  · cases t with
    | issue =>
      unfold applySupply
      by_cases hd : isDestruction tx
      · exact ⟨-(destroyedValues tx outs).foldr (· + ·) 0, fun v => by
          simp only [hd, if_true, foldl_sub_eq]
          grind⟩
      · exact ⟨(issuedValues tx).foldr (· + ·) 0, fun v => by
          simp only [hd, Bool.false_eq_true, if_false, foldl_add_eq]⟩
    | root => exact ⟨0, fun v => by simp⟩
    | provision => exact ⟨0, fun v => by simp⟩

theorem foldl_afterTx_totalSupply (c : Crypto) (txs : List MsgTx) : ∃ d : UInt64, ∀ v : KeyViewpoint,
      (txs.foldl (afterTx c) v).totalSupply = v.totalSupply + d := by
  induction txs with
  | nil => exact ⟨0, fun v => by simp⟩
  | cons tx txs ih =>
    obtain ⟨d, hd⟩ := ih
    obtain ⟨e, he⟩ := afterTx_totalSupply c tx
    exact ⟨e + d, fun v => by rw [List.foldl_cons, hd, he, UInt64.add_assoc]⟩

theorem foldl_afterTx_lastKeyID (c : Crypto) (txs : List MsgTx) (v : KeyViewpoint) :
    (txs.foldl (afterTx c) v).lastKeyID = (lastWrite (fun tx => lastAdded (txOps tx)) txs).getD v.lastKeyID :=
  foldl_eq_lastWrite (I := fun _ => True) (π := KeyViewpoint.lastKeyID) (fun _ _ _ => trivial)
    (fun v tx _ => afterTx_lastKeyID c v tx) trivial txs

def tipWrite (c : Crypto) (t : ThreadID) (tx : MsgTx) : Option (Option OutPoint) :=
  if threadOf tx = some t then some (some ⟨tx.txHash c, 0⟩) else none

theorem foldl_afterTx_tips (c : Crypto) (txs : List MsgTx) (v : KeyViewpoint) (t : ThreadID) :
    (txs.foldl (afterTx c) v).threadTips t = (lastWrite (tipWrite c t) txs).getD (v.threadTips t) := by
  refine foldl_eq_lastWrite (I := fun _ => True) (π := fun v : KeyViewpoint => v.threadTips t)
    (fun _ _ _ => trivial) (fun v tx _ => ?_) trivial txs
  rw [afterTx_threadTips]
  unfold tipWrite
  split <;> rfl

structure SameCounters (u v : KeyViewpoint) : Prop where
  supply : u.totalSupply = v.totalSupply
  lastKeyID : u.lastKeyID = v.lastKeyID
  tips : u.threadTips = v.threadTips

theorem SameCounters.foldl_afterTx (h : SameCounters u v) (txs : List MsgTx) :
    SameCounters (txs.foldl (afterTx c) u) (txs.foldl (afterTx c) v) := by
  obtain ⟨d, hd⟩ := foldl_afterTx_totalSupply c txs
  refine ⟨by rw [hd, hd, h.supply], ?_, funext fun t => ?_⟩
  · rw [foldl_afterTx_lastKeyID, foldl_afterTx_lastKeyID, h.lastKeyID]
  · rw [foldl_afterTx_tips, foldl_afterTx_tips, h.tips]

/-- When exchanging the transactions `old` for the transactions `new` on top of a state, by undoing the
old ones and connecting the new ones twice, leads to the same counters as connecting the new ones
once: the new ones keep the supply, and where they do not set a counter, undoing restores it. -/
structure ExchangeExact (c : Crypto) (fork : KeyViewpoint) (old new : List MsgTx) : Prop where
  supply : (new.foldl (KeyViewpoint.afterTx c) fork).totalSupply = fork.totalSupply
  lastKeyID : (∃ tx ∈ new, aspAdds (txOps tx) ≠ 0) ∨
    ∀ id ∈ old.findSome? fun tx => lastAdded (txOps tx), id - 1 = fork.lastKeyID
  tips : ∀ t, (∃ tx ∈ new, threadOf tx = some t) ∨
    ∀ tx ∈ old.find? fun tx => threadOf tx = some t,
      tx.txIn.head?.map (·.previousOutPoint) = fork.threadTips t

theorem SameCounters.exchange {fork : KeyViewpoint} {old new : List MsgTx}
    (h : SameCounters u (old.foldl (afterTx c) fork)) (hexact : ExchangeExact c fork old new) : SameCounters
      (new.foldl (afterTx c) (new.foldl (afterTx c) (old.reverse.foldl beforeTx u))) (new.foldl (afterTx c) fork) := by
  refine ⟨?_, ?_, funext fun t => ?_⟩
  · obtain ⟨d, hd⟩ := foldl_afterTx_totalSupply c new
    have hzero : fork.totalSupply + d = fork.totalSupply := (hd fork).symm.trans hexact.supply
    rw [hd, hd, hd, foldl_beforeTx_totalSupply h.supply, hzero]
    exact hzero
  · rw [foldl_afterTx_lastKeyID, foldl_afterTx_lastKeyID, foldl_afterTx_lastKeyID]
    cases hnew : lastWrite (fun tx => lastAdded (txOps tx)) new with
    | some id => rfl
    | none =>
      -- the new transactions provision no key, so the counter is what undoing left
      have hno : ¬ ∃ tx ∈ new, aspAdds (txOps tx) ≠ 0 := by
        rintro ⟨tx, htx, hadd⟩
        exact hadd (lastAdded_eq_none.mp (lastWrite_eq_none.mp hnew tx htx))
      have hold := hexact.lastKeyID.resolve_left hno
      change (old.reverse.foldl beforeTx u).lastKeyID = fork.lastKeyID
      rw [foldl_beforeTx_lastKeyID]
      cases hfirst : old.findSome? fun tx => lastAdded (txOps tx) with
      | some id => exact hold id hfirst
      | none =>
        have hnone : lastWrite (fun tx => lastAdded (txOps tx)) old = none :=
          lastWrite_eq_none.mpr (List.findSome?_eq_none_iff.mp hfirst)
        change u.lastKeyID = fork.lastKeyID
        rw [h.lastKeyID, foldl_afterTx_lastKeyID, hnone]
        rfl
  · rw [foldl_afterTx_tips, foldl_afterTx_tips, foldl_afterTx_tips]
    cases hnew : lastWrite (tipWrite c t) new with
    | some tip => rfl
    | none =>
      have hwrite : ∀ {tx : MsgTx}, tipWrite c t tx = none ↔ threadOf tx ≠ some t := by
        intro tx
        unfold tipWrite
        split <;> simp_all
      have hno : ¬ ∃ tx ∈ new, threadOf tx = some t := by
        rintro ⟨tx, htx, hthread⟩
        exact hwrite.mp (lastWrite_eq_none.mp hnew tx htx) hthread
      have hold := (hexact.tips t).resolve_left hno
      change (old.reverse.foldl beforeTx u).threadTips t = fork.threadTips t
      rw [foldl_beforeTx_threadTips]
      cases hfirst : old.find? fun tx => threadOf tx = some t with
      | some tx => exact hold tx hfirst
      | none =>
        have hnone : lastWrite (tipWrite c t) old = none := by
          refine lastWrite_eq_none.mpr fun tx htx => hwrite.mpr fun heq => ?_
          exact List.find?_eq_none.mp hfirst tx htx (by simpa using heq)
        change u.threadTips t = fork.threadTips t
        rw [h.tips, foldl_afterTx_tips, hnone]
        rfl

end KeyViewpoint

end Prova
