import Prova.Blockchain.KeySetCodec
import Prova.Blockchain.AcceptRun
import Prova.Blockchain.LedgerSteps
import Prova.Chaincfg.SampleBlocks

/-!
# The admin states that are stored

Every accepted block, a reorganization included, leads to an admin state with a tip on each thread, so
the record written for it is read as it was, as long as it fits in 32 bits. Nothing keeps the number of
ASP keys below that: a chain can provision keys until its admin state cannot be written.
-/

namespace Prova

open List Function

variable {view : KeyViewpoint}

/-! ### The states of the chain -/

namespace KeyViewpoint

theorem adminKeySets_asp_applyAdminOp (view : KeyViewpoint) (op : AdminOp) :
    (view.applyAdminOp op).adminKeySets .asp = view.adminKeySets .asp := by
  unfold applyAdminOp
  split_ifs with hasp hadd hadd
  · rfl
  · rfl
  · exact update_of_ne (Ne.symm hasp) _ _
  · exact update_of_ne (Ne.symm hasp) _ _

theorem adminKeySets_asp_undoAdminOp (view : KeyViewpoint) (op : AdminOp) :
    (view.undoAdminOp op).adminKeySets .asp = view.adminKeySets .asp := by
  unfold undoAdminOp
  split_ifs
  · rfl
  · rfl
  · exact adminKeySets_asp_applyAdminOp view _

theorem adminKeySets_asp_foldl {f : KeyViewpoint → AdminOp → KeyViewpoint}
    (hf : ∀ view op, (f view op).adminKeySets .asp = view.adminKeySets .asp) (ops : List AdminOp)
    (view : KeyViewpoint) : (ops.foldl f view).adminKeySets .asp = view.adminKeySets .asp := by
  induction ops generalizing view with
  | nil => rfl
  | cons op ops ih => rw [foldl_cons, ih, hf]

theorem Complete.afterTx (h : view.Complete) (c : Crypto) (tx : MsgTx) : (view.afterTx c tx).Complete := by
  refine ⟨fun t => ?_, (adminKeySets_asp_foldl adminKeySets_asp_applyAdminOp _ view).trans h.noASPSet⟩
  unfold KeyViewpoint.afterTx
  cases threadOf tx with
  | none => exact h.tips t
  | some s =>
    by_cases hs : t = s
    · simp [hs]
    · simpa [hs] using h.tips t

theorem Complete.beforeTx (h : view.Complete) {tx : MsgTx} (hin : tx.txIn ≠ []) : (view.beforeTx tx).Complete := by
  refine ⟨fun t => ?_, (adminKeySets_asp_foldl adminKeySets_asp_undoAdminOp _ view).trans h.noASPSet⟩
  unfold KeyViewpoint.beforeTx
  cases threadOf tx with
  | none => exact h.tips t
  | some s =>
    obtain ⟨txIn, rest, hcons⟩ := exists_cons_of_ne_nil hin
    by_cases hs : t = s
    · simp [hs, hcons]
    · simpa [hs] using h.tips t

theorem Complete.foldl {f : KeyViewpoint → MsgTx → KeyViewpoint} {txs : List MsgTx}
    (hf : ∀ tx ∈ txs, ∀ view, Complete view → Complete (f view tx)) (h : view.Complete) : (txs.foldl f view).Complete :=
  List.foldlRecOn txs f h fun view hview tx htx => hf tx htx view hview

end KeyViewpoint

/-- What the parameters of every network have: a genesis block with a coinbase transaction, and no set for
the ASP keys. -/
structure Params.AdminReady (params : Params) : Prop where
  coinbase : params.genesisBlock.transactions ≠ []
  inputs : ∀ tx ∈ params.genesisBlock.transactions, tx.txIn ≠ []
  noASPSet : params.adminKeySets .asp = []

namespace BlockChain

variable {c : Crypto} {params : Params}

theorem complete_genesisKeys (h : params.AdminReady) : (genesisKeys c params).Complete := by
  refine ⟨fun t => ?_, h.noASPSet⟩
  obtain ⟨tx, txs, hcons⟩ := exists_cons_of_ne_nil h.coinbase
  simp [genesisKeys, hcons]

/-- What a run keeps: every stored transaction has an input, and the admin state is complete. -/
structure RecordOk (c : Crypto) (b : BlockChain) : Prop where
  chain : ChainOk c b
  inputs : ∀ {hash block}, b.db.blocks hash = some block → ∀ tx ∈ block.transactions, tx.txIn ≠ []
  keys : b.keys.Complete

section Step

variable {b b' : BlockChain} {block : MsgBlock} {flags : BehaviorFlags}

theorem inputs_of_mem_blocksOf (h : ∀ {hash block}, b.db.blocks hash = some block →
      ∀ tx ∈ block.transactions, tx.txIn ≠ []) (nodes : List NodeData) :
    ∀ tx ∈ transactionsOf (b.blocksOf nodes), tx.txIn ≠ [] := by
  intro tx htx
  obtain ⟨blk, hblk, hmem⟩ := mem_flatMap.mp htx
  obtain ⟨data, -, hdata⟩ := mem_filterMap.mp hblk
  exact h hdata tx hmem

theorem Extended.complete (h : Extended c b block flags b') (hkeys : b.keys.Complete) : b'.keys.Complete := by
  unfold Extended at h
  have hafter : ∀ tx ∈ block.transactions, ∀ view : KeyViewpoint, view.Complete →
      (view.afterTx c tx).Complete := fun tx _ view hview => hview.afterTx c tx
  split at h
  · have hfold := foldlM_eq_foldl (fun tx _ s t hst => KeyViewpoint.connectTransaction_ok hst) h
    rw [hfold]
    exact hkeys.foldl hafter
  · obtain ⟨s, hs, hview⟩ := h
    rw [hview, (KeyViewpoint.fits_of_accept (checkConnectBlock_keys hs)).2]
    exact hkeys.foldl hafter

theorem Reorganized.complete {node : BlockNode} {k j : Nat} (h : Reorganized c b node b' k j)
    (hinputs : ∀ {hash block}, b'.db.blocks hash = some block →
      ∀ tx ∈ block.transactions, tx.txIn ≠ []) (hkeys : b.keys.Complete) : b'.keys.Complete := by
  obtain ⟨m, utxoView, verified, attached, -, hverify, -, hfinal⟩ := h.keys
  obtain ⟨-, -, -, haccept⟩ := verifyBlocks_ok hverify
  have hundone : ((transactionsOf (b'.blocksOf (b.bestNode.chain.take k).reverse)).reverse.foldl
      KeyViewpoint.beforeTx b.keys).Complete := hkeys.foldl fun tx htx view hview =>
    hview.beforeTx (inputs_of_mem_blocksOf hinputs _ tx (mem_reverse.mp htx))
  have hverified : verified.Complete := by
    rw [(KeyViewpoint.fits_of_accept haccept).2]
    exact hundone.foldl fun tx _ view hview => hview.afterTx c tx
  rw [hfinal]
  exact hverified.foldl fun tx _ view hview => hview.afterTx c tx

theorem RecordOk.step (h : RecordOk c b) (hacc : Accepted c b block flags b') : RecordOk c b' := by
  obtain ⟨r, hrun⟩ := hacc.run
  obtain ⟨-, -, hsanity, -⟩ := processBlock_ok hrun
  obtain ⟨-, -, -, -, -, hsane, -⟩ := checkBlockSanity_ok hsanity
  have hchain := hacc.chainOk h.chain
  obtain ⟨-, -, hblocks, -, hkeys⟩ | ⟨p, hins, hcases⟩ := hacc.cases h.chain
  · exact ⟨hchain, fun hblk => h.inputs (hblocks ▸ hblk), hkeys ▸ h.keys⟩
  · have hinputs : ∀ {hash blk}, b'.db.blocks hash = some blk → ∀ tx ∈ blk.transactions, tx.txIn ≠ [] := by
      intro hash blk hblk
      rw [hins.blocks] at hblk
      by_cases heq : hash = block.blockHash c
      · rw [heq, update_self] at hblk
        cases hblk
        exact fun tx htx => (hsane tx htx).hasInputs
      · rw [update_of_ne heq] at hblk
        exact h.inputs hblk
    obtain ⟨-, hkeys⟩ | ⟨-, -, hext⟩ | ⟨k, j, hre⟩ := hcases
    · exact ⟨hchain, hinputs, hkeys ▸ h.keys⟩
    · exact ⟨hchain, hinputs, hext.complete h.keys⟩
    · exact ⟨hchain, hinputs, hre.complete hinputs h.keys⟩

end Step

theorem recordOk_createChainState {noVerify : Bool} (hzero : params.genesisHash c ≠ 0)
    (hready : params.AdminReady) : RecordOk c (createChainState c params noVerify) := by
  refine ⟨chainOk_createChainState hzero, fun {hash block} hblk => ?_, complete_genesisKeys hready⟩
  rw [createChainState_blocks] at hblk
  by_cases heq : hash = params.genesisHash c
  · rw [heq, update_self] at hblk
    cases hblk
    exact hready.inputs
  · rw [update_of_ne heq] at hblk
    cases hblk

theorem AcceptRun.recordOk {noVerify : Bool} {cond : BlockChain → MsgBlock → BehaviorFlags → Prop}
    {b : BlockChain} (hzero : params.genesisHash c ≠ 0) (hready : params.AdminReady)
    (hrun : AcceptRun c params noVerify cond b) : RecordOk c b := by
  induction hrun with
  | genesis => exact recordOk_createChainState hzero hready
  | step _ _ hacc ih => exact ih.step hacc

end BlockChain

/-- On every run of accepted blocks, the admin state is written and read back as it is exactly if its
record fits in 32 bits, in whatever order the map of the ASP keys is visited. -/
theorem BlockChain.keySet_roundTrip_iff {c : Crypto} {params : Params} {noVerify : Bool} {b : BlockChain}
    (hzero : params.genesisHash c ≠ 0) (hready : params.AdminReady)
    (hrun : AcceptRun c params noVerify (fun _ _ _ => True) b) {aspKeyIdMap : KeyIdEntries}
    (hmap : ∀ id, aspKeyIdMap.lookup id = b.keys.aspKeyIdMap id) :
    (∃ serializedData, serializeKeySet b.keys.adminKeySets aspKeyIdMap b.keys.threadTips b.keys.lastKeyID
        b.keys.totalSupply = .ok serializedData ∧ deserializeKeySet serializedData = .ok b.keys) ↔
      recordLen b.keys.adminKeySets aspKeyIdMap < 2 ^ 32 := by
  constructor
  · rintro ⟨serializedData, hwrite, -⟩
    by_contra hlong
    rw [serializeKeySet_eq_panic _ _ _ (Nat.le_of_not_lt hlong)] at hwrite
    cases hwrite
  · intro hlen
    exact ⟨_, serializeKeySet_eq_ok _ _ _ hlen,
      deserializeKeySet_serializedFields (hrun.recordOk hzero hready).keys hmap hlen⟩

theorem BlockChain.keySet_roundTrip_iff_genesis :
    let aspKeyIdMap : KeyIdEntries := (AList.singleton 2 RegTest.rootKey2).insert 1 RegTest.rootKey1
    let keys := (createChainState Sample.crypto RegTest.regressionNetParams false).keys
    (∃ serializedData, serializeKeySet keys.adminKeySets aspKeyIdMap keys.threadTips keys.lastKeyID
        keys.totalSupply = .ok serializedData ∧ deserializeKeySet serializedData = .ok keys) := by
  intro aspKeyIdMap keys
  have hrun : AcceptRun Sample.crypto RegTest.regressionNetParams false (fun _ _ _ => True)
      (createChainState Sample.crypto RegTest.regressionNetParams false) := .genesis
  refine (keySet_roundTrip_iff (by decide +kernel) ⟨by decide, by decide, rfl⟩ hrun (fun id => ?_)).mpr
    (by decide)
  by_cases h₁ : id = 1
  · rw [h₁]
    rfl
  · by_cases h₂ : id = 2
    · rw [h₂]
      rfl
    · have hleft : aspKeyIdMap.lookup id = none := AList.lookup_eq_none.mpr (by
        change id ∉ ([1, 2] : List KeyID)
        simp [h₁, h₂])
      have hright : RegTest.regressionNetParams.aspKeyIdMap.lookup id = none := AList.lookup_eq_none.mpr (by
        change id ∉ ([2, 1] : List KeyID)
        simp [h₁, h₂])
      exact hleft.trans hright.symm

/-! ### A chain with too many keys -/

def aspAddData (key : PublicKey) (keyID : KeyID) : Bytes :=
  adminOpASPKeyAdd :: (key.serializeCompressed ++ leBytes keyIDSize keyID.toNat)

def aspAddTx (tip : OutPoint) (key : PublicKey) (keyID : KeyID) : MsgTx where
  version := 1
  txIn := [⟨tip, [], 0xffffffff⟩]
  txOut := [⟨0, [op1, opCheckThread]⟩, ⟨0, opReturn :: opData38 :: aspAddData key keyID⟩]
  lockTime := 0

theorem length_aspAddData (key : PublicKey) (keyID : KeyID) : (aspAddData key keyID).length = 38 := by
  simp [aspAddData, keyIDSize]

theorem parseScript_aspAdd (key : PublicKey) (keyID : KeyID) :
    parseScript (opReturn :: opData38 :: aspAddData key keyID) =
      .ok [⟨opReturn, []⟩, ⟨opData38, aspAddData key keyID⟩] := by
  apply parseScript_of_unparseScript
  have hreturn : opLength opReturn = .single := by decide
  have hpush : opLength opData38 = .fixed 38 := by decide
  simp [unparseScript, ParsedOpcode.bytes, hreturn, hpush, length_aspAddData]

theorem getAdminDetails_aspAddTx (tip : OutPoint) (key : PublicKey) (keyID : KeyID) :
    getAdminDetails (aspAddTx tip key keyID) =
      some (.provision, [[⟨opReturn, []⟩, ⟨opData38, aspAddData key keyID⟩]]) := by
  have hthread : parseScript [op1, opCheckThread] = .ok [⟨op1, []⟩, ⟨opCheckThread, []⟩] := by decide
  have htype : typeOfScript [⟨op1, []⟩, ⟨opCheckThread, []⟩] = .provaAdminTy := by decide
  have hid : extractThreadID [⟨op1, []⟩, ⟨opCheckThread, []⟩] = .ok .provision := by decide
  unfold getAdminDetails aspAddTx
  simp only [hthread, htype, hid, ne_eq, not_true_eq_false, if_false, mapM_cons, mapM_nil, parseScript_aspAdd]
  rfl

theorem adminPush_aspAdd (key : PublicKey) (keyID : KeyID) :
    adminPush [⟨opReturn, []⟩, ⟨opData38, aspAddData key keyID⟩] = .ok (aspAddData key keyID) := by
  have hlen : ¬ (aspAddData key keyID).length < 1 + pubKeyBytesLenCompressed := by
    rw [length_aspAddData]
    decide
  simp only [adminPush, if_neg hlen]

theorem adminPubKey_aspAdd (key : PublicKey) (keyID : KeyID) : adminPubKey (aspAddData key keyID) = .ok key := by
  have hlen : key.serializeCompressed.length = pubKeyBytesLenCompressed := key.length_serializeCompressed
  unfold adminPubKey aspAddData
  rw [drop_one, tail_cons, take_left' hlen, parsePubKey_serializeCompressed]

theorem extractAdminOpData_aspAdd (key : PublicKey) (keyID : KeyID) :
    extractAdminOpData [⟨opReturn, []⟩, ⟨opData38, aspAddData key keyID⟩] = .ok ⟨true, .asp, key, keyID⟩ := by
  have hid : keyIDFromAddressBuffer ((aspAddData key keyID).drop ((aspAddData key keyID).length - keyIDSize)) =
      keyID := by
    have hlen : (adminOpASPKeyAdd :: key.serializeCompressed).length = 34 := by simp
    have hlt : keyID.toNat < 256 ^ 4 := lt_of_lt_of_eq keyID.toNat_lt (by norm_num)
    rw [length_aspAddData]
    unfold keyIDFromAddressBuffer aspAddData keyIDSize
    rw [← cons_append, drop_left' hlen, take_of_length_le (length_leBytes 4 _).le,
      leNat_leBytes, Nat.mod_eq_of_lt hlt, UInt32.ofNat_toNat]
  have hkind : adminOpKind ((aspAddData key keyID).headD 0) = (true, .asp) := by
    change adminOpKind adminOpASPKeyAdd = _
    decide
  have hlong : 1 + pubKeyBytesLenCompressed < (aspAddData key keyID).length := by
    rw [length_aspAddData]
    decide
  unfold extractAdminOpData
  simp only [adminPush_aspAdd, ok_bind, adminPubKey_aspAdd, if_pos hlong, hid, hkind]
  rfl

theorem acceptTx_aspAddTx {c : Crypto} {params : Params} (tip : OutPoint) (key : PublicKey)
    (hfree : view.aspKeyIdMap (view.lastKeyID + 1) = none) :
    acceptTx c params view (aspAddTx tip key (view.lastKeyID + 1)) =
      .ok (({ view.setASPKey (view.lastKeyID + 1) (some key) with lastKeyID := view.lastKeyID + 1 } :
        KeyViewpoint).setThreadTip .provision ⟨(aspAddTx tip key (view.lastKeyID + 1)).txHash c, 0⟩) := by
  have hdetails := getAdminDetails_aspAddTx tip key (view.lastKeyID + 1)
  have hops : adminOps [[⟨opReturn, []⟩, ⟨opData38, aspAddData key (view.lastKeyID + 1)⟩]] =
      .ok [⟨true, .asp, key, view.lastKeyID + 1⟩] := by
    simp only [adminOps, extractAdminOpData_aspAdd]
    rfl
  have hcheck : checkTransactionOutputs params (aspAddTx tip key (view.lastKeyID + 1)) view = .ok () := by
    unfold checkTransactionOutputs
    simp only [hdetails, hops, ok_bind, foldlM_cons, foldlM_nil, checkAdminOp]
    simp [hfree, ruleError, reject]
    rfl
  unfold acceptTx
  rw [hcheck, ok_bind]
  unfold KeyViewpoint.connectTransaction KeyViewpoint.processAdminOuts
  simp only [hdetails, hops, ok_bind, foldl_cons, foldl_nil, KeyViewpoint.applyAdminOp, if_true]
  rfl

theorem checkTransactionSanity_aspAddTx {tip : OutPoint} (htip : tip.index ≠ maxPrevOutIndex)
    (key : PublicKey) (keyID : KeyID) : checkTransactionSanity (aspAddTx tip key keyID) = .ok () := by
  have hdetails := getAdminDetails_aspAddTx tip key keyID
  have hcoinbase : isCoinBase (aspAddTx tip key keyID) = false := by
    simp [isCoinBase, aspAddTx, isNullOutpoint, htip]
  have hsize : ¬ maxBlockPayload < (aspAddTx tip key keyID).serializeSize := by
    have hlen : (opReturn :: opData38 :: aspAddData key keyID).length = 40 := by simp [length_aspAddData]
    unfold MsgTx.serializeSize aspAddTx len64
    simp only [map_cons, map_nil, hlen, length_cons, length_nil]
    decide
  have hclass : getScriptClass [op1, opCheckThread] = .provaAdminTy := by decide
  have hnull : getScriptClass (opReturn :: opData38 :: aspAddData key keyID) = .nullDataTy := by
    have hnullData : isNullData [⟨opReturn, []⟩, ⟨opData38, aspAddData key keyID⟩] = true := by
      simp [isNullData, length_aspAddData, maxDataCarrierSize]
      decide
    unfold getScriptClass typeOfScript
    simp only [parseScript_aspAdd, hnullData, if_true]
  have hvalid : isValidAdminOp [⟨opReturn, []⟩, ⟨opData38, aspAddData key keyID⟩] .provision = true := by
    have hextract : extractAdminData [⟨opReturn, []⟩, ⟨opData38, aspAddData key keyID⟩] =
        .ok (adminOpASPKeyAdd, key) := by
      simp only [extractAdminData, adminPush_aspAdd, ok_bind, adminPubKey_aspAdd]
      rfl
    simp only [isValidAdminOp, hextract, length_aspAddData]
    decide
  have houtputs : checkOutputs (aspAddTx tip key keyID) (some .provision) 0 0
      (aspAddTx tip key keyID).txOut = .ok () := by
    unfold aspAddTx
    simp only [checkOutputs, hclass, hnull, checkAdminOutput]
    rfl
  have hform : checkAdminForm (aspAddTx tip key keyID) .provision
      [[⟨opReturn, []⟩, ⟨opData38, aspAddData key keyID⟩]] = .ok () := by
    simp only [checkAdminForm, mem_singleton, forall_eq, hvalid]
    rfl
  unfold checkTransactionSanity
  simp only [hdetails, hcoinbase, hsize, Option.map_some, houtputs, hform]
  simp [ruleError, reject, aspAddTx, MsgTx.prevOuts, isNullOutpoint, htip]
  rfl

/-- What adding keys one after the other leads to. -/
structure Provisioned (view : KeyViewpoint) (n : Nat) : Prop where
  last : view.lastKeyID.toNat = n
  tip : ∃ tip, view.threadTips .provision = some tip ∧ tip.index ≠ maxPrevOutIndex
  keys : ∀ id, (view.aspKeyIdMap id).isSome ↔ 1 ≤ id.toNat ∧ id.toNat ≤ n

theorem Provisioned.add (c : Crypto) (params : Params) {n : Nat} (h : Provisioned view n)
    (hn : n + 1 < 2 ^ 32) (key : PublicKey) :
    ∃ tx view', acceptTx c params view tx = .ok view' ∧ checkTransactionSanity tx = .ok () ∧
      Provisioned view' (n + 1) := by
  obtain ⟨tip, -, htip⟩ := h.tip
  have hnext : (view.lastKeyID + 1).toNat = n + 1 := by
    have hlast := h.last
    rw [UInt32.toNat_add, hlast]
    exact Nat.mod_eq_of_lt hn
  have hfree : view.aspKeyIdMap (view.lastKeyID + 1) = none := by
    rw [← Option.not_isSome_iff_eq_none, h.keys, hnext]
    omega
  refine ⟨_, _, acceptTx_aspAddTx tip key hfree, checkTransactionSanity_aspAddTx htip key _, hnext, ?_, ?_⟩
  · refine ⟨⟨(aspAddTx tip key (view.lastKeyID + 1)).txHash c, 0⟩, ?_, ?_⟩
    · rfl
    · change (0 : UInt32) ≠ maxPrevOutIndex
      decide
  · intro id
    change (update view.aspKeyIdMap (view.lastKeyID + 1) (some key) id).isSome ↔ _
    by_cases hid : id = view.lastKeyID + 1
    · rw [hid, update_self, hnext]
      simp
    · have hne : id.toNat ≠ n + 1 := fun heq => hid (UInt32.toNat_inj.mp (heq.trans hnext.symm))
      rw [update_of_ne hid, h.keys]
      omega

theorem Provisioned.run (c : Crypto) (params : Params) {n : Nat} (h : Provisioned view n)
    (key : PublicKey) (m : Nat) (hm : n + m < 2 ^ 32) :
    ∃ (txs : List MsgTx) (view' : KeyViewpoint), txs.foldlM (acceptTx c params) view = .ok view' ∧
      (∀ tx ∈ txs, checkTransactionSanity tx = .ok ()) ∧ Provisioned view' (n + m) := by
  induction m with
  | zero => exact ⟨[], view, rfl, fun _ htx => absurd htx not_mem_nil, h⟩
  | succ m ih =>
    obtain ⟨txs, view', hfold, hsane, hview'⟩ := ih (by omega)
    obtain ⟨tx, view'', haccept, hsanity, hview''⟩ := hview'.add c params hm key
    refine ⟨txs ++ [tx], view'', foldlM_append_eq_ok.mpr ⟨view', hfold, ?_⟩, ?_, hview''⟩
    · exact foldlM_cons_eq_ok.mpr ⟨view'', haccept, rfl⟩
    · exact forall_mem_append.mpr ⟨hsane, forall_mem_singleton.mpr hsanity⟩

theorem Provisioned.le_length {n : Nat} (h : Provisioned view n) (hn : n < 2 ^ 32)
    {aspKeyIdMap : KeyIdEntries} (hmap : ∀ id, aspKeyIdMap.lookup id = view.aspKeyIdMap id) :
    n ≤ aspKeyIdMap.keys.length := by
  have hsize : UInt32.size = 2 ^ 32 := rfl
  have hnodup : ((List.range n).map fun i => UInt32.ofNat (i + 1)).Nodup := by
    refine List.Nodup.map_on (fun i hi j hj heq => ?_) nodup_range
    rw [mem_range] at hi hj
    have hnat := congrArg UInt32.toNat heq
    rw [UInt32.toNat_ofNat_of_lt' (by omega), UInt32.toNat_ofNat_of_lt' (by omega)] at hnat
    omega
  have hsub : (List.range n).map (fun i => UInt32.ofNat (i + 1)) ⊆ aspKeyIdMap.keys := by
    intro id hid
    obtain ⟨i, hi, rfl⟩ := mem_map.mp hid
    rw [mem_range] at hi
    refine AList.lookup_isSome.mp ?_
    rw [hmap, h.keys, UInt32.toNat_ofNat_of_lt' (by omega)]
    omega
  have hle := (subperm_of_subset hnodup hsub).length_le
  rwa [length_map, length_range] at hle

/-- With 2^27 ASP keys, each added by a transaction that the rules accept, the admin state cannot be
written any more. -/
theorem provisioned_chain_panics : ∃ (txs : List MsgTx) (view : KeyViewpoint),
    txs.foldlM (acceptTx Sample.crypto RegTest.regressionNetParams) (BlockChain.genesisKeys Sample.crypto RegTest.regressionNetParams) =
      .ok view ∧ (∀ tx ∈ txs, checkTransactionSanity tx = .ok ()) ∧
    ∀ aspKeyIdMap : KeyIdEntries, (∀ id, aspKeyIdMap.lookup id = view.aspKeyIdMap id) →
      serializeKeySet view.adminKeySets aspKeyIdMap view.threadTips view.lastKeyID view.totalSupply =
        .error .panic := by
  have hgenesis : Provisioned (BlockChain.genesisKeys Sample.crypto RegTest.regressionNetParams) 2 := by
    refine ⟨rfl, ⟨_, rfl, ?_⟩, fun id => ?_⟩
    · change (1 : UInt32) ≠ maxPrevOutIndex
      decide
    · have hmem : ((BlockChain.genesisKeys Sample.crypto RegTest.regressionNetParams).aspKeyIdMap id).isSome ↔
          id ∈ RegTest.regressionNetParams.aspKeyIdMap := AList.lookup_isSome
      have hkeys : id ∈ RegTest.regressionNetParams.aspKeyIdMap ↔ id ∈ ([2, 1] : List KeyID) := Iff.rfl
      have htwo : id = 2 ↔ id.toNat = 2 := UInt32.toNat_inj.symm
      have hone : id = 1 ↔ id.toNat = 1 := UInt32.toNat_inj.symm
      rw [hmem, hkeys, mem_cons, mem_singleton, htwo, hone]
      omega
  obtain ⟨txs, view, hfold, hsane, hview⟩ := hgenesis.run Sample.crypto
    RegTest.regressionNetParams RegTest.rootKey1 (2 ^ 27) (by norm_num)
  refine ⟨txs, view, hfold, hsane, fun aspKeyIdMap hmap => serializeKeySet_eq_panic _ _ _ ?_⟩
  have hle := hview.le_length (by norm_num) hmap
  unfold recordLen pubKeyBytesLenCompressed
  omega

end Prova
