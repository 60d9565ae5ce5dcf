import Prova.Blockchain.Run
import Prova.Lib.LastWrite

/-!
# The bounds of the admin key sets

`CheckTransactionOutputs` looks at every operation of a transaction against the key sets before the
transaction, so several operations of one transaction can each pass and together leave the bounds.
What decides is how many different keys the transaction adds and revokes.
-/

namespace Prova

open List

variable {view view' : KeyViewpoint} {tx : MsgTx}

def keyWrite (t : KeySetType) (k : PublicKey) (op : AdminOp) : Option Bool :=
  if op.onKey t k then some op.isAddOp else none

def setOps (t : KeySetType) (isAddOp : Bool) (ops : List AdminOp) : List AdminOp :=
  ops.filter fun op => t ≠ .asp ∧ op.keySetType = t ∧ op.isAddOp = isAddOp

def addedKeys (t : KeySetType) (ops : List AdminOp) : List PublicKey :=
  ((setOps t true ops).map (·.pubKey)).dedup

def revokedKeys (t : KeySetType) (ops : List AdminOp) : List PublicKey :=
  ((setOps t false ops).map (·.pubKey)).dedup

theorem mem_setOps {t : KeySetType} {isAddOp : Bool} {ops : List AdminOp} {k : PublicKey} :
    k ∈ ((setOps t isAddOp ops).map (·.pubKey)).dedup ↔
      ∃ op ∈ ops, op.onKey t k ∧ op.isAddOp = isAddOp := by
  rw [mem_dedup, mem_map]
  constructor
  · rintro ⟨op, hop, hkey⟩
    obtain ⟨hmem, hop⟩ := mem_filter.mp hop
    obtain ⟨hasp, hset, hadd⟩ := of_decide_eq_true hop
    exact ⟨op, hmem, ⟨hasp, hset, hkey⟩, hadd⟩
  · rintro ⟨op, hmem, ⟨hasp, hset, hkey⟩, hadd⟩
    exact ⟨op, mem_filter.mpr ⟨hmem, decide_eq_true ⟨hasp, hset, hadd⟩⟩, hkey⟩

namespace KeyViewpoint

def SetsNodup (view : KeyViewpoint) : Prop := ∀ t, (view.adminKeySets t).Nodup

theorem SetsNodup.applyAdminOp (h : view.SetsNodup) (op : AdminOp) : (view.applyAdminOp op).SetsNodup := by
  intro t
  rw [applyAdminOp_adminKeySets]
  split_ifs
  · exact PublicKeySet.nodup_add (h t)
  · exact PublicKeySet.nodup_revoke (h t)
  · exact h t

theorem SetsNodup.foldl (h : view.SetsNodup) (ops : List AdminOp) :
    (ops.foldl KeyViewpoint.applyAdminOp view).SetsNodup :=
  List.foldlRecOn ops _ h fun _ hv op _ => hv.applyAdminOp op

theorem mem_applyAdminOp (h : view.SetsNodup) (op : AdminOp) (t : KeySetType) (k : PublicKey) :
    decide (k ∈ (view.applyAdminOp op).adminKeySets t) = (keyWrite t k op).getD (decide (k ∈ view.adminKeySets t)) := by
  unfold keyWrite
  rw [applyAdminOp_adminKeySets]
  by_cases hset : t ≠ .asp ∧ op.keySetType = t
  · rw [if_pos hset]
    by_cases hkey : op.pubKey = k
    · rw [if_pos (show op.onKey t k from ⟨hset.1, hset.2, hkey⟩), Option.getD_some, ← hkey]
      cases op.isAddOp with
      | true => simp [PublicKeySet.mem_add]
      | false => simp [PublicKeySet.mem_revoke (h t)]
    · rw [if_neg (fun hon : op.onKey t k => hkey hon.2.2), Option.getD_none]
      have hne : k ≠ op.pubKey := fun heq => hkey heq.symm
      split_ifs
      · simp [PublicKeySet.mem_add, hne]
      · simp [PublicKeySet.mem_revoke_of_ne hne]
  · rw [if_neg hset, if_neg (fun hon : op.onKey t k => hset ⟨hon.1, hon.2.1⟩), Option.getD_none]

theorem mem_foldl_applyAdminOp (h : view.SetsNodup) (ops : List AdminOp) (t : KeySetType) (k : PublicKey) :
    decide (k ∈ (ops.foldl KeyViewpoint.applyAdminOp view).adminKeySets t) =
      (lastWrite (keyWrite t k) ops).getD (decide (k ∈ view.adminKeySets t)) :=
  foldl_eq_lastWrite (π := fun v : KeyViewpoint => decide (k ∈ v.adminKeySets t))
    (fun _ op hv => hv.applyAdminOp op) (fun _ op hv => mem_applyAdminOp hv op t k) h ops

section Fits

variable {view : KeyViewpoint} {ops : List AdminOp}

theorem mem_foldl_of_fits (h : view.SetsNodup) (hfits : ∀ op ∈ ops, OpFits view op) (t : KeySetType) (k : PublicKey) :
    k ∈ (ops.foldl KeyViewpoint.applyAdminOp view).adminKeySets t ↔
      (k ∈ view.adminKeySets t ∧ k ∉ revokedKeys t ops) ∨ k ∈ addedKeys t ops := by
  unfold revokedKeys addedKeys
  rw [mem_setOps, mem_setOps, ← decide_eq_true_iff (p := k ∈ (ops.foldl KeyViewpoint.applyAdminOp view).adminKeySets t),
    mem_foldl_applyAdminOp h]
  cases hlast : lastWrite (keyWrite t k) ops with
  | none =>
    have hno : ∀ op ∈ ops, ¬ op.onKey t k := by
      intro op hop hon
      have hnone := lastWrite_eq_none.mp hlast op hop
      unfold keyWrite at hnone
      rw [if_pos hon] at hnone
      cases hnone
    have hnot : ∀ isAddOp, ¬ ∃ op ∈ ops, op.onKey t k ∧ op.isAddOp = isAddOp := by
      rintro isAddOp ⟨op, hop, hon, -⟩
      exact hno op hop hon
    simp [hnot]
  | some isAddOp =>
    obtain ⟨op, hop, hwrite⟩ := exists_of_lastWrite hlast
    unfold keyWrite at hwrite
    split at hwrite
    · next hon =>
      -- all operations on the key go the way of the last one
      have hdir : ∀ o ∈ ops, o.onKey t k → o.isAddOp = isAddOp := fun o ho hok => by
        rw [(hfits o ho).same_direction (hfits op hop) hok hon]
        exact Option.some.inj hwrite
      have hiff : ∀ d, (∃ o ∈ ops, o.onKey t k ∧ o.isAddOp = d) ↔ isAddOp = d := by
        intro d
        constructor
        · rintro ⟨o, ho, hok, hd⟩
          exact (hdir o ho hok).symm.trans hd
        · rintro rfl
          exact ⟨op, hop, hon, hdir op hop hon⟩
      rw [hiff, hiff, Option.getD_some]
      cases isAddOp <;> simp
    · cases hwrite

theorem length_foldl_of_fits (h : view.SetsNodup) (hfits : ∀ op ∈ ops, OpFits view op) (t : KeySetType) :
    ((ops.foldl KeyViewpoint.applyAdminOp view).adminKeySets t).length + (revokedKeys t ops).length =
      (view.adminKeySets t).length + (addedKeys t ops).length := by
  have hadded : ∀ k ∈ addedKeys t ops, k ∉ view.adminKeySets t := by
    intro k hk
    obtain ⟨op, hop, ⟨hasp, rfl, rfl⟩, hadd⟩ := mem_setOps.mp hk
    exact (hfits op hop).add hasp hadd
  have hrevoked : ∀ k ∈ revokedKeys t ops, k ∈ view.adminKeySets t := by
    intro k hk
    obtain ⟨op, hop, ⟨hasp, rfl, rfl⟩, hadd⟩ := mem_setOps.mp hk
    exact (hfits op hop).revoke hasp hadd
  have hnodupA : (addedKeys t ops).Nodup := nodup_dedup _
  have hnodupR : (revokedKeys t ops).Nodup := nodup_dedup _
  -- both sides count the same keys
  have hperm : ((ops.foldl KeyViewpoint.applyAdminOp view).adminKeySets t ++
      revokedKeys t ops).Perm (view.adminKeySets t ++ addedKeys t ops) := by
    rw [perm_ext_iff_of_nodup]
    · intro k
      rw [mem_append, mem_append, mem_foldl_of_fits h hfits]
      have := hrevoked k
      tauto
    · refine nodup_append'.mpr ⟨h.foldl ops t, hnodupR, fun k hk hr => ?_⟩
      rcases (mem_foldl_of_fits h hfits t k).mp hk with ⟨-, hnot⟩ | hadd
      · exact hnot hr
      · exact hadded k hadd (hrevoked k hr)
    · exact nodup_append'.mpr ⟨h t, hnodupA, fun k hk ha => hadded k ha hk⟩
  simpa using hperm.length_eq

end Fits

structure SetsBounded (view : KeyViewpoint) : Prop where
  nodup : view.SetsNodup
  size : ∀ t, (view.adminKeySets t).length ≤ maxAdminKeySetSize

def EnoughValidators (params : Params) (view : KeyViewpoint) : Prop :=
  params.minValidateKeySetSize ≤ ((view.adminKeySets .validate).length : Int)

end KeyViewpoint

/-- Operations that together stay within the bounds, counted by the different keys they add and
revoke. -/
structure OpsInBounds (params : Params) (view : KeyViewpoint) (ops : List AdminOp) : Prop where
  size : ∀ t, (view.adminKeySets t).length + (addedKeys t ops).length ≤
    maxAdminKeySetSize + (revokedKeys t ops).length
  validate : view.EnoughValidators params →
    params.minValidateKeySetSize + (revokedKeys .validate ops).length ≤
      ((view.adminKeySets .validate).length : Int) + (addedKeys .validate ops).length

section

variable {c : Crypto} {params : Params}

theorem acceptTx_fits (h : acceptTx c params view tx = .ok view') : ∀ op ∈ txOps tx, OpFits view op := by
  obtain ⟨s, hs⟩ := checkTransactionOutputs_ops (acceptTx_ok h).1
  exact fun op hop => ((checkAdminOps_ok hs).1 op hop).toOpFits

theorem acceptTx_adminKeySets (h : acceptTx c params view tx = .ok view') :
    view'.adminKeySets = ((txOps tx).foldl KeyViewpoint.applyAdminOp view).adminKeySets := by
  rw [(acceptTx_ok h).2]
  rfl

theorem acceptTx_nodup (h : acceptTx c params view tx = .ok view') (hnodup : view.SetsNodup) : view'.SetsNodup := by
  intro t
  rw [acceptTx_adminKeySets h]
  exact hnodup.foldl (txOps tx) t

theorem acceptTx_length (h : acceptTx c params view tx = .ok view') (hnodup : view.SetsNodup) (t : KeySetType) :
    (view'.adminKeySets t).length + (revokedKeys t (txOps tx)).length =
      (view.adminKeySets t).length + (addedKeys t (txOps tx)).length := by
  rw [acceptTx_adminKeySets h]
  exact KeyViewpoint.length_foldl_of_fits hnodup (acceptTx_fits h) t

theorem acceptTx_bounded_iff (h : acceptTx c params view tx = .ok view') (hbound : view.SetsBounded) :
    view'.SetsBounded ∧ (view.EnoughValidators params → view'.EnoughValidators params) ↔
      OpsInBounds params view (txOps tx) := by
  have hlen := acceptTx_length h hbound.nodup
  have hval := hlen .validate
  unfold KeyViewpoint.EnoughValidators
  constructor
  · rintro ⟨hbound', henough⟩
    refine ⟨fun t => ?_, fun hmin => ?_⟩
    · have := hbound'.size t
      have := hlen t
      omega
    · have := henough hmin
      omega
  · rintro ⟨hsize, hmin⟩
    refine ⟨⟨acceptTx_nodup h hbound.nodup, fun t => ?_⟩, fun hmin' => ?_⟩
    · have := hsize t
      have := hlen t
      omega
    · have := hmin hmin'
      omega

end

namespace BlockChain

variable {c : Crypto}

/-- Along a run of connected blocks the key sets keep their bounds after every transaction exactly
if the operations of every transaction together stay within them. -/
theorem keySets_bounded_iff {b b' : BlockChain} {blocks : List MsgBlock}
    (hrun : ConnectRun c b blocks b') (hbound : b.keys.SetsBounded) :
    (transactionsOf blocks).foldlM (acceptTx c b.params) b.keys = .ok b'.keys ∧
      ((∀ txs view, txs <+: transactionsOf blocks → txs.foldlM (acceptTx c b.params) b.keys = .ok view →
          view.SetsBounded ∧ ∀ txs' view', txs' <+: txs → txs'.foldlM (acceptTx c b.params) b.keys = .ok view' →
              view'.EnoughValidators b.params → view.EnoughValidators b.params) ↔
        ∀ txs tx view, txs ++ [tx] <+: transactionsOf blocks → txs.foldlM (acceptTx c b.params) b.keys = .ok view →
          OpsInBounds b.params view (txOps tx)) := by
  refine ⟨hrun.accept, fun h txs tx view hpre hview => ?_, fun h txs => ?_⟩
  · obtain ⟨rest, hrest⟩ := hpre
    have hall := hrun.accept
    rw [← hrest] at hall
    obtain ⟨view', hview', -⟩ := foldlM_append_eq_ok.mp hall
    obtain ⟨m, hm, hstep⟩ := foldlM_append_eq_ok.mp hview'
    cases hview.symm.trans hm
    obtain ⟨view'', htx, hnil⟩ := foldlM_cons_eq_ok.mp hstep
    cases hnil
    have hbefore := h txs view ((prefix_append txs [tx]).trans ⟨rest, hrest⟩) hview
    have hafter := h (txs ++ [tx]) _ ⟨rest, hrest⟩ hview'
    exact (acceptTx_bounded_iff htx hbefore.1).mp
      ⟨hafter.1, hafter.2 txs view (prefix_append txs [tx]) hview⟩
  · -- the transactions of a prefix, the last one first
    induction txs using List.reverseRecOn with
    | nil =>
      intro view _ hview
      cases hview
      refine ⟨hbound, fun txs' view' hpre hview' => ?_⟩
      cases prefix_nil.mp hpre
      cases hview'
      exact id
    | append_singleton txs tx ih =>
      intro view hpre hview
      obtain ⟨m, hm, hstep⟩ := foldlM_append_eq_ok.mp hview
      obtain ⟨view', htx, hnil⟩ := foldlM_cons_eq_ok.mp hstep
      cases hnil
      obtain ⟨hm_bound, hm_enough⟩ := ih m ((prefix_append txs [tx]).trans hpre) hm
      obtain ⟨hview_bound, hkeep⟩ :=
        (acceptTx_bounded_iff htx hm_bound).mpr (h txs tx m hpre hm)
      refine ⟨hview_bound, fun txs' view' hpre' hview' => ?_⟩
      rcases prefix_concat_iff.mp hpre' with rfl | hpre'
      · cases hview.symm.trans hview'
        exact id
      · exact fun henough => hkeep (hm_enough txs' view' hpre' hview' henough)

theorem keySets_bounded_iff_issueBlock :
    (transactionsOf [Sample.issueBlock]).foldlM (acceptTx Sample.crypto Sample.genesis.params) Sample.genesis.keys =
        .ok (afterBlock Sample.crypto Sample.genesis Sample.issueBlock).keys ∧
      ((∀ txs view, txs <+: transactionsOf [Sample.issueBlock] →
          txs.foldlM (acceptTx Sample.crypto Sample.genesis.params) Sample.genesis.keys = .ok view → view.SetsBounded ∧
            ∀ txs' view', txs' <+: txs →
              txs'.foldlM (acceptTx Sample.crypto Sample.genesis.params) Sample.genesis.keys = .ok view' →
              view'.EnoughValidators Sample.genesis.params → view.EnoughValidators Sample.genesis.params) ↔
        ∀ txs tx view, txs ++ [tx] <+: transactionsOf [Sample.issueBlock] →
          txs.foldlM (acceptTx Sample.crypto Sample.genesis.params) Sample.genesis.keys = .ok view →
          OpsInBounds Sample.genesis.params view (txOps tx)) :=
  keySets_bounded_iff (.single Sample.issueBlock_extends)
    ⟨fun t => by cases t <;> decide, fun t => by cases t <;> decide⟩

/-- One transaction revokes all validate keys: the check of each revocation reads the set as it was
before the transaction. -/
theorem keySets_revokeBlock : 1 ≤ Sample.params.chainWindowMaxBlocks ∧
      ConnectRun Sample.crypto Sample.genesis [Sample.revokeBlock]
        (afterBlock Sample.crypto Sample.genesis Sample.revokeBlock) ∧
      Sample.genesis.keys.EnoughValidators Sample.params ∧
      ¬ (afterBlock Sample.crypto Sample.genesis Sample.revokeBlock).keys.EnoughValidators Sample.params :=
  ⟨by decide, .single Sample.revokeBlock_extends,
    by unfold KeyViewpoint.EnoughValidators; decide,
    by unfold KeyViewpoint.EnoughValidators; decide +kernel⟩

end BlockChain

end Prova
