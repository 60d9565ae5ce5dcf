import Prova.Blockchain.Run
import Prova.Lib.Prefixes

/-!
# The numbering of ASP keys

`CheckTransactionOutputs` counts the keyIDs a transaction provisions up from `lastKeyID`, against the
admin state before the transaction, and applying the operations sets the counter to the last keyID
provisioned. So the keyIDs of a run are numbered one after the other, and since a revocation must name
a key that is there, a revoked keyID lies below the counter for good.
-/

namespace Prova

open List

variable {view : KeyViewpoint} {ops : List AdminOp} {params : Params}

def assignedKeyIDs (params : Params) (ops : List AdminOp) : List KeyID :=
  params.aspKeyIdMap.keys ++ (ops.filter AdminOp.isASPAdd).map (·.keyID)

/-- The operations number ASP keys up from `n`: an added key has the next number, and only numbers
given before are revoked. -/
def CountsUp (n : Nat) (ops : List AdminOp) : Prop :=
  EachAfter (fun before op =>
    (op.isASPAdd = true → op.keyID.toNat = n + aspAdds before + 1) ∧
      (op.keySetType = .asp → op.isAddOp = false → op.keyID.toNat ≤ n + aspAdds before)) ops

theorem aspAdds_append (xs ys : List AdminOp) : aspAdds (xs ++ ys) = aspAdds xs + aspAdds ys :=
  countP_append

theorem countsUp_append {n : Nat} {xs ys : List AdminOp} :
    CountsUp n (xs ++ ys) ↔ CountsUp n xs ∧ CountsUp (n + aspAdds xs) ys := by
  unfold CountsUp
  rw [eachAfter_append]
  simp only [aspAdds_append, Nat.add_assoc]

theorem countsUp_cons {n : Nat} {op : AdminOp} : CountsUp n (op :: ops) ↔
      ((op.isASPAdd = true → op.keyID.toNat = n + 1) ∧
        (op.keySetType = .asp → op.isAddOp = false → op.keyID.toNat ≤ n)) ∧ CountsUp (n + aspAdds [op]) ops := by
  rw [← singleton_append, countsUp_append]
  unfold CountsUp
  rw [eachAfter_singleton]
  rfl

theorem aspAdds_singleton (op : AdminOp) : aspAdds [op] = if op.isASPAdd then 1 else 0 := by
  unfold aspAdds
  rw [countP_singleton]

/-! ### The checks -/

/-- Operations that passed their checks count up from the counter they were checked with, if the keys
of the state have numbers up to it. -/
theorem checkAdminOps_countsUp {s s' : OpCheckState} (h : ops.foldlM (checkAdminOp params view) s = .ok s')
    (hids : ∀ id, (view.aspKeyIdMap id).isSome → id.toNat ≤ s.lastKeyID.toNat)
    (hroom : s.lastKeyID.toNat + aspAdds ops < 2 ^ 32) : CountsUp s.lastKeyID.toNat ops := by
  induction ops generalizing s with
  | nil => exact .nil
  | cons op ops ih =>
    obtain ⟨m, hm, hrest⟩ := foldlM_cons_eq_ok.mp h
    obtain ⟨hop, hlast, hid⟩ := checkAdminOp_ok hm
    rw [← singleton_append, aspAdds_append] at hroom
    have hcounter : m.lastKeyID.toNat = s.lastKeyID.toNat + aspAdds [op] := by
      rw [aspAdds_singleton] at hroom ⊢
      rw [hlast]
      split_ifs at hroom ⊢
      · rw [UInt32.toNat_add]
        exact Nat.mod_eq_of_lt (show s.lastKeyID.toNat + 1 < 2 ^ 32 by omega)
      · rfl
    refine countsUp_cons.mpr ⟨⟨fun hadd => ?_, fun hasp hrevoke => ?_⟩, ?_⟩
    · rw [hid hadd, hcounter, aspAdds_singleton, if_pos hadd]
    · refine hids op.keyID ?_
      rw [hop.asp hasp, hrevoke]
      rfl
    · rw [← hcounter]
      refine ih hrest (fun id hid => ?_) (by omega)
      exact (hids id hid).trans (by omega)

/-! ### The effects -/

namespace KeyViewpoint

def KeyIDsOk (view : KeyViewpoint) : Prop :=
  ∀ id, (view.aspKeyIdMap id).isSome → id.toNat ≤ view.lastKeyID.toNat

theorem KeyIDsOk.applyAdminOp {op : AdminOp} (h : view.KeyIDsOk)
    (hadd : op.isASPAdd = true → op.keyID.toNat = view.lastKeyID.toNat + 1) : (view.applyAdminOp op).KeyIDsOk ∧
      (view.applyAdminOp op).lastKeyID.toNat = view.lastKeyID.toNat + aspAdds [op] := by
  have hlast : (view.applyAdminOp op).lastKeyID.toNat = view.lastKeyID.toNat + aspAdds [op] := by
    rw [applyAdminOp_lastKeyID, aspAdds_singleton]
    split_ifs with hasp
    · exact hadd hasp
    · rfl
  refine ⟨fun id hid => ?_, hlast⟩
  rw [applyAdminOp_aspKeyIdMap] at hid
  have hold : (view.aspKeyIdMap id).isSome → id.toNat ≤ (view.applyAdminOp op).lastKeyID.toNat :=
    fun hid => (h id hid).trans (by omega)
  split_ifs at hid with hasp hisAdd
  · rcases eq_or_ne id op.keyID with rfl | hne
    · have hASPAdd : op.isASPAdd = true := by simp [AdminOp.isASPAdd, hasp, hisAdd]
      rw [hlast, aspAdds_singleton, if_pos hASPAdd, hadd hASPAdd]
    · rw [Function.update_of_ne hne] at hid
      exact hold hid
  · rcases eq_or_ne id op.keyID with rfl | hne
    · simp at hid
    · rw [Function.update_of_ne hne] at hid
      exact hold hid
  · exact hold hid

theorem KeyIDsOk.foldl (h : view.KeyIDsOk) (hcounts : CountsUp view.lastKeyID.toNat ops) :
    (ops.foldl KeyViewpoint.applyAdminOp view).KeyIDsOk ∧ (ops.foldl KeyViewpoint.applyAdminOp view).lastKeyID.toNat =
        view.lastKeyID.toNat + aspAdds ops := by
  induction ops generalizing view with
  | nil => exact ⟨h, rfl⟩
  | cons op ops ih =>
    obtain ⟨⟨hadd, -⟩, hrest⟩ := countsUp_cons.mp hcounts
    obtain ⟨hstep, hlast⟩ := h.applyAdminOp hadd
    rw [← hlast] at hrest
    obtain ⟨hend, hcounter⟩ := ih hstep hrest
    refine ⟨hend, ?_⟩
    rw [foldl_cons, hcounter, hlast, Nat.add_assoc, ← aspAdds_append, singleton_append]

theorem KeyIDsOk.acceptTx {c : Crypto} {view' : KeyViewpoint} {tx : MsgTx} (h : view.KeyIDsOk)
    (haccept : Prova.acceptTx c params view tx = .ok view')
    (hroom : view.lastKeyID.toNat + aspAdds (txOps tx) < 2 ^ 32) :
    CountsUp view.lastKeyID.toNat (txOps tx) ∧ view'.KeyIDsOk ∧
      view'.lastKeyID.toNat = view.lastKeyID.toNat + aspAdds (txOps tx) := by
  obtain ⟨hcheck, rfl⟩ := acceptTx_ok haccept
  obtain ⟨s, hs⟩ := checkTransactionOutputs_ops hcheck
  have hcounts := checkAdminOps_countsUp hs h hroom
  exact ⟨hcounts, h.foldl hcounts⟩

theorem KeyIDsOk.accept {c : Crypto} {view' : KeyViewpoint} {txs : List MsgTx} (h : view.KeyIDsOk)
    (haccept : txs.foldlM (Prova.acceptTx c params) view = .ok view')
    (hroom : view.lastKeyID.toNat + aspAdds (opsOf txs) < 2 ^ 32) :
    CountsUp view.lastKeyID.toNat (opsOf txs) ∧ view'.KeyIDsOk := by
  induction txs generalizing view with
  | nil =>
    cases haccept
    exact ⟨.nil, h⟩
  | cons tx txs ih =>
    obtain ⟨m, hm, hrest⟩ := foldlM_cons_eq_ok.mp haccept
    have hops : opsOf (tx :: txs) = txOps tx ++ opsOf txs := flatMap_cons
    rw [hops, aspAdds_append] at hroom
    obtain ⟨hcounts, hm', hlast⟩ := h.acceptTx hm (by omega)
    obtain ⟨hcounts', hend⟩ := ih hm' hrest (by omega)
    rw [hlast] at hcounts'
    exact ⟨hops ▸ countsUp_append.mpr ⟨hcounts, hcounts'⟩, hend⟩

end KeyViewpoint

/-! ### The next keyID -/

theorem toNat_max (a b : KeyID) : (max a b).toNat = max a.toNat b.toNat := by
  change (if a ≤ b then b else a).toNat = _
  split
  · next h =>
    rw [UInt32.le_iff_toNat_le] at h
    omega
  · next h =>
    rw [UInt32.le_iff_toNat_le] at h
    omega

theorem toNat_foldl_max (ids : List KeyID) (m : KeyID) :
    m.toNat ≤ (ids.foldl max m).toNat ∧ ∀ id ∈ ids, id.toNat ≤ (ids.foldl max m).toNat := by
  induction ids generalizing m with
  | nil => exact ⟨le_rfl, fun id hid => absurd hid not_mem_nil⟩
  | cons id ids ih =>
    obtain ⟨hm, hids⟩ := ih (max m id)
    rw [toNat_max] at hm
    exact ⟨(le_max_left _ _).trans hm, forall_mem_cons.mpr ⟨(le_max_right _ _).trans hm, hids⟩⟩

theorem CountsUp.foldl_max {m : KeyID} (h : CountsUp m.toNat ops) :
    (((ops.filter AdminOp.isASPAdd).map (·.keyID)).foldl max m).toNat = m.toNat + aspAdds ops := by
  induction ops generalizing m with
  | nil => rfl
  | cons op ops ih =>
    obtain ⟨⟨hadd, -⟩, hrest⟩ := countsUp_cons.mp h
    rw [← singleton_append, aspAdds_append, ← Nat.add_assoc]
    rw [aspAdds_singleton] at hrest ⊢
    rw [singleton_append, filter_cons]
    split_ifs at hrest ⊢ with hasp
    · have hmax : max m op.keyID = op.keyID := by
        refine UInt32.toNat_inj.mp ?_
        rw [toNat_max, hadd hasp]
        omega
      rw [map_cons, foldl_cons, hmax, ← hadd hasp]
      exact ih (hadd hasp ▸ hrest)
    · exact ih hrest

namespace BlockChain

variable {c : Crypto} {params : Params}

theorem keyIDsOk_genesisKeys : (genesisKeys c params).KeyIDsOk := by
  intro id hid
  have hmem : id ∈ params.aspKeyIdMap.keys := AList.lookup_isSome.mp hid
  exact (toNat_foldl_max _ 0).2 id hmem

/-- Along every run of connected blocks that keeps the counter within its 32 bits, every keyID in the
map is at most `lastKeyID`, each added key has the number after all those assigned before, and a
revoked number is never assigned again. -/
theorem keyIDs_numbered {noVerify : Bool} {blocks : List MsgBlock} {b : BlockChain}
    (hrun : ConnectRun c (createChainState c params noVerify) blocks b)
    (hcount : (genesisKeys c params).lastKeyID.toNat + aspAdds (opsOf (transactionsOf blocks)) < 2 ^ 32) :
    (∀ id, (b.keys.aspKeyIdMap id).isSome → id ≤ b.keys.lastKeyID) ∧
      (∀ before op after, opsOf (transactionsOf blocks) = before ++ op :: after → op.isASPAdd = true →
          op.keyID.toNat = ((assignedKeyIDs params before).foldl max 0).toNat + 1) ∧
      ∀ before revoked middle added after,
        opsOf (transactionsOf blocks) = before ++ revoked :: (middle ++ added :: after) →
        revoked.keySetType = .asp → revoked.isAddOp = false → added.isASPAdd = true → added.keyID ≠ revoked.keyID := by
  obtain ⟨hcounts, hkeys⟩ := keyIDsOk_genesisKeys.accept hrun.accept hcount
  refine ⟨fun id hid => UInt32.le_iff_toNat_le.mpr (hkeys id hid), ?_, ?_⟩
  · intro before op after hsplit hadd
    have hbefore := hcounts
    rw [hsplit, countsUp_append] at hbefore
    have hmax := hbefore.1.foldl_max
    rw [(hcounts before op after hsplit).1 hadd, ← hmax]
    unfold assignedKeyIDs
    rw [foldl_append]
    rfl
  · intro before revoked middle added after hsplit hasp hrevoke hadd heq
    have hlow := (hcounts before revoked _ hsplit).2 hasp hrevoke
    have hhigh := (hcounts (before ++ revoked :: middle) added after
      (by rw [hsplit, append_assoc, cons_append])).1 hadd
    rw [aspAdds_append, heq] at hhigh
    omega

theorem keyIDs_numbered_provisionBlock :
    (∀ id, ((afterBlock Sample.crypto Sample.genesis Sample.provisionBlock).keys.aspKeyIdMap id).isSome →
        id ≤ (afterBlock Sample.crypto Sample.genesis Sample.provisionBlock).keys.lastKeyID) ∧
      (∀ before op after, opsOf (transactionsOf [Sample.provisionBlock]) = before ++ op :: after → op.isASPAdd = true →
          op.keyID.toNat = ((assignedKeyIDs Sample.params before).foldl max 0).toNat + 1) ∧
      ∀ before revoked middle added after, opsOf (transactionsOf [Sample.provisionBlock]) =
            before ++ revoked :: (middle ++ added :: after) →
        revoked.keySetType = .asp → revoked.isAddOp = false → added.isASPAdd = true → added.keyID ≠ revoked.keyID :=
  keyIDs_numbered (.single Sample.provisionBlock_extends) (by decide +kernel)

end BlockChain

end Prova
