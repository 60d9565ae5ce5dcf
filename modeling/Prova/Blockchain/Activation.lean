import Prova.Blockchain.ConnectLedger
import Prova.Blockchain.ThreadScripts
import Prova.Blockchain.Validators

/-!
# When admin operations take effect

`checkConnectBlock` changes the admin state transaction by transaction. The outputs of a transaction are
checked against the state its predecessors have left, and the validating key and all input scripts
against the state at the end of the block. So an operation takes effect in its own block already. The
checks come out as they would against the state of the parent block when the operations of the block
stay away from what its outputs, its input scripts and its header refer to.
-/

namespace Prova

open List KeyViewpoint

variable {view view' : KeyViewpoint} {tx : MsgTx}

variable {c : Crypto} {params : Params}

/-! ### Outputs -/

def namedKeyIDs (pops : List ParsedOpcode) : List KeyID :=
  match extractKeyIDs pops with
  | .error _ => []
  | .ok keyIDs => keyIDs

/-- The keyIDs `CheckTransactionOutputs` looks up. -/
def outputKeyIDs (tx : MsgTx) : List KeyID :=
  match getAdminDetails tx with
  | none =>
    tx.txOut.flatMap fun out =>
      match parseScript out.pkScript with
      | .error _ => []
      | .ok pops => namedKeyIDs pops
  | some (.issue, adminOutputs) => adminOutputs.flatMap namedKeyIDs
  | _ => []

/-- A transaction of the root or the provision thread, whose outputs are operations. -/
def changesKeys (tx : MsgTx) : Bool := threadOf tx == some .root || threadOf tx == some .provision

theorem checkKeyIDs_mono {pops : List ParsedOpcode}
    (h : ∀ id ∈ namedKeyIDs pops, view.aspKeyIdMap id ≠ none → view'.aspKeyIdMap id ≠ none)
    (hcheck : checkKeyIDs view pops = .ok ()) : checkKeyIDs view' pops = .ok () := by
  unfold checkKeyIDs at hcheck ⊢
  unfold namedKeyIDs at h
  cases hids : extractKeyIDs pops with
  | error e =>
    simp only [hids] at hcheck
    cases hcheck
  | ok keyIDs =>
    simp only [hids] at hcheck h ⊢
    unfold checkProvaOutput at hcheck ⊢
    rw [ruleError_eq_ok] at hcheck ⊢
    rintro ⟨id, hid, hnone⟩
    refine h id hid (fun hnone' => hcheck ⟨id, hid, hnone'⟩) hnone

theorem checkPlainOutputs_mono {outs : List TxOut} {flag : Bool}
    (h : ∀ out ∈ outs, ∀ pops, parseScript out.pkScript = .ok pops → ∀ id ∈ namedKeyIDs pops,
      view.aspKeyIdMap id ≠ none → view'.aspKeyIdMap id ≠ none) (hcheck : checkPlainOutputs view flag outs = .ok ()) :
    checkPlainOutputs view' flag outs = .ok () := by
  induction outs generalizing flag with
  | nil => rfl
  | cons out outs ih =>
    rw [forall_mem_cons] at h
    unfold checkPlainOutputs at hcheck ⊢
    cases hparse : parseScript out.pkScript with
    | error e =>
      simp only [hparse] at hcheck
      cases hcheck
    | ok pops =>
      simp only [hparse] at hcheck ⊢
      split_ifs at hcheck ⊢ with hnull
      · obtain ⟨hflag, hrest⟩ := bind_unit_eq_ok.mp hcheck
        exact bind_unit_eq_ok.mpr ⟨hflag, ih h.2 hrest⟩
      · obtain ⟨hkeys, hrest⟩ := bind_unit_eq_ok.mp hcheck
        exact bind_unit_eq_ok.mpr ⟨checkKeyIDs_mono (h.1 pops hparse) hkeys, ih h.2 hrest⟩

theorem checkTransactionOutputs_mono (hchanges : changesKeys tx = false)
    (h : ∀ id ∈ outputKeyIDs tx, view.aspKeyIdMap id ≠ none → view'.aspKeyIdMap id ≠ none)
    (hcheck : checkTransactionOutputs params tx view = .ok ()) : checkTransactionOutputs params tx view' = .ok () := by
  unfold checkTransactionOutputs at hcheck ⊢
  unfold outputKeyIDs at h
  unfold changesKeys threadOf at hchanges
  rcases hdet : getAdminDetails tx with _ | ⟨t, outs⟩
  · simp only [hdet] at hcheck h ⊢
    refine checkPlainOutputs_mono (fun out hout pops hparse id hid => h id ?_) hcheck
    exact mem_flatMap.mpr ⟨out, hout, by simp only [hparse]; exact hid⟩
  · cases t with
    | root =>
      simp only [hdet] at hchanges
      cases hchanges
    | provision =>
      simp only [hdet] at hchanges
      cases hchanges
    | issue =>
      simp only [hdet] at hcheck h ⊢
      rw [forM_eq_ok] at hcheck ⊢
      intro output houtput
      have hone := hcheck output houtput
      split_ifs at hone ⊢
      · exact checkKeyIDs_mono (fun id hid => h id (mem_flatMap.mpr ⟨output, houtput, hid⟩)) hone
      · rfl

/-! ### Input scripts -/

def Untouched (ops : List AdminOp) (script : Bytes) : Prop :=
  (∀ pops, parseScript script = .ok pops → ∀ id ∈ namedKeyIDs pops, ∀ op ∈ ops,
    ¬ (op.keySetType = .asp ∧ op.keyID = id)) ∧
  ∀ t, scriptThread script = some t → ∀ op ∈ ops, op.keySetType ≠ t.keySetType

theorem malformed_bind_congr {α β : Type} {x : Except ScriptError α} {f g : α → Except ChainError β}
    (h : ∀ a, x = .ok a → f a = g a) : (malformed x >>= f) = (malformed x >>= g) := by
  cases x with
  | error e => cases e <;> rfl
  | ok a => exact h a rfl

theorem lookupKeyIDs_congr {keyIDs : List KeyID} (h : ∀ id ∈ keyIDs, view.aspKeyIdMap id = view'.aspKeyIdMap id) :
    view.lookupKeyIDs c keyIDs = view'.lookupKeyIDs c keyIDs := by
  unfold lookupKeyIDs keyHash
  refine map_congr_left fun id hid => ?_
  rw [h id hid]

theorem scriptThread_of_extract {script : Bytes} {pops : List ParsedOpcode} {t : ThreadID}
    (hparse : parseScript script = .ok pops) (hclass : typeOfScript pops = .provaAdminTy)
    (hthread : extractThreadID pops = .ok t) : scriptThread script = some t := by
  obtain ⟨a, b, t', rfl, -, ht'⟩ := isProvaAdmin_ok (typeOfScript_eq_admin hclass)
  unfold extractThreadID at hthread
  simp only [ht'] at hthread
  split_ifs at hthread
  cases hthread
  unfold scriptThread
  simp only [hparse, if_pos hclass]
  exact ht'

theorem resolveScript_congr {script : Bytes} (hids : ∀ pops, parseScript script = .ok pops → ∀ id ∈ namedKeyIDs pops,
      view.aspKeyIdMap id = view'.aspKeyIdMap id) (hsets : ∀ t, scriptThread script = some t →
      view.adminKeySets t.keySetType = view'.adminKeySets t.keySetType) :
    resolveScript c view script = resolveScript c view' script := by
  unfold resolveScript
  refine malformed_bind_congr fun pops hparse => ?_
  have hkeys : ∀ keyIDs, extractKeyIDs pops = .ok keyIDs →
      view.lookupKeyIDs c keyIDs = view'.lookupKeyIDs c keyIDs := by
    intro keyIDs hextract
    refine lookupKeyIDs_congr fun id hid => hids pops hparse id ?_
    unfold namedKeyIDs
    rw [hextract]
    exact hid
  cases hclass : typeOfScript pops with
  | provaTy | generalProvaTy =>
    refine malformed_bind_congr fun keyIDs hextract => ?_
    rw [hkeys keyIDs hextract]
  | provaAdminTy =>
    refine malformed_bind_congr fun t hthread => ?_
    unfold getAdminKeyHashes
    rw [hsets t (scriptThread_of_extract hparse hclass hthread)]
  | nullDataTy | nonStandardTy => rfl

/-! ### Where the scripts come from -/

/-- The scripts an outpoint may have for a block: from the view the block is connected to, from the
database, or from a transaction of the block. -/
def MaySpend (c : Crypto) (db : UtxoDb) (view : UtxoViewpoint) (txs : List MsgTx) (o : OutPoint)
    (script : Bytes) : Prop :=
  (∃ entry, view.lookupEntry o.hash = some entry ∧ entry.pkScriptByIndex o.index = some script) ∨
  (∃ entry, db.lookup o.hash = some entry ∧ entry.pkScriptByIndex o.index = some script) ∨
  ∃ tx ∈ txs, tx.txHash c = o.hash ∧
    ∃ j out, tx.txOut[j]? = some out ∧ UInt32.ofNat j = o.index ∧ out.pkScript = script

def EntryFrom (known : OutPoint → Bytes → Prop) (hash : Hash) (entry : UtxoEntry) : Prop :=
  ∀ i script, entry.pkScriptByIndex i = some script → known ⟨hash, i⟩ script

def ScriptsFrom (known : OutPoint → Bytes → Prop) (view : UtxoViewpoint) : Prop :=
  ∀ hash entry, view.lookupEntry hash = some entry → EntryFrom known hash entry

theorem pkScriptByIndex_spendOutput (entry : UtxoEntry) (i j : UInt32) :
    (entry.spendOutput i).pkScriptByIndex j = entry.pkScriptByIndex j := by
  unfold UtxoEntry.spendOutput
  cases hlookup : entry.sparseOutputs.lookup i with
  | none => rfl
  | some output =>
    simp only
    split_ifs
    · rfl
    · unfold UtxoEntry.pkScriptByIndex
      by_cases hj : j = i
      · rw [hj, AList.lookup_insert, hlookup]
        rfl
      · rw [AList.lookup_insert_ne hj]

namespace ScriptsFrom

variable {known : OutPoint → Bytes → Prop} {view : UtxoViewpoint} {db : UtxoDb}

theorem setEntry (h : ScriptsFrom known view) {hash : Hash} {entry : Option UtxoEntry}
    (hentry : ∀ e, entry = some e → EntryFrom known hash e) : ScriptsFrom known (view.setEntry hash entry) := by
  intro hash' entry' hlookup
  rw [UtxoViewpoint.lookupEntry_setEntry] at hlookup
  split_ifs at hlookup with heq
  · subst heq
    exact hentry entry' hlookup
  · exact h hash' entry' hlookup

theorem fetchUtxosMain (h : ScriptsFrom known view) (txSet : List Hash)
    (hdb : ∀ hash entry, db.lookup hash = some entry → EntryFrom known hash entry) :
    ScriptsFrom known (view.fetchUtxosMain db txSet) :=
  List.foldlRecOn (motive := ScriptsFrom known) txSet _ h fun _ hv hash _ =>
    hv.setEntry fun entry hentry => hdb hash entry hentry

theorem addTxOuts (h : ScriptsFrom known view)
    (htx : ∀ j out, tx.txOut[j]? = some out → known ⟨tx.txHash c, UInt32.ofNat j⟩ out.pkScript)
    (height : UInt32) : ScriptsFrom known (view.addTxOuts c tx height) := by
  unfold UtxoViewpoint.addTxOuts
  refine h.setEntry fun entry hentry i script hscript => ?_
  cases hentry
  unfold UtxoEntry.pkScriptByIndex at hscript
  obtain ⟨output, hlookup, rfl⟩ := Option.map_eq_some_iff.mp hscript
  rcases lookup_addOutputs hlookup with ⟨k, out, hout, hi, hsame⟩ | hold
  · rw [Nat.zero_add] at hi
    rw [← hi, hsame]
    exact htx k out hout
  · cases hentry : view.lookupEntry (tx.txHash c) with
    | none =>
      rw [hentry] at hold
      cases hold
    | some entry =>
      rw [hentry] at hold
      refine h (tx.txHash c) entry hentry i output.pkScript ?_
      unfold UtxoEntry.pkScriptByIndex
      exact Option.map_eq_some_iff.mpr ⟨output, hold, rfl⟩

theorem spendInputs {txIns : List TxIn} {view view' : UtxoViewpoint} {stxos : List SpentTxOut}
    (h : ScriptsFrom known view) (hspend : UtxoViewpoint.spendInputs txIns view = .ok (view', stxos)) :
    ScriptsFrom known view' := by
  refine UtxoViewpoint.spendInputs_rule (fun v o entry hentry hv => hv.setEntry fun e he i script hscript => ?_)
    hspend h
  cases he
  rw [pkScriptByIndex_spendOutput] at hscript
  exact hv _ entry hentry i script hscript

theorem connectTransaction {view' : UtxoViewpoint} {height : UInt32} {stxos : List SpentTxOut}
    (h : ScriptsFrom known view)
    (htx : ∀ j out, tx.txOut[j]? = some out → known ⟨tx.txHash c, UInt32.ofNat j⟩ out.pkScript)
    (hconnect : view.connectTransaction c tx height = .ok (view', stxos)) : ScriptsFrom known view' := by
  obtain ⟨spent, hspend, rfl⟩ := UtxoViewpoint.connectTransaction_iff.mp hconnect
  exact (h.spendInputs hspend).addTxOuts htx height

theorem loadInputs {env : ConnectEnv} {node : BlockNode} {block : MsgBlock}
    {view' : UtxoViewpoint} (h : ScriptsFrom known view)
    (hdb : ∀ hash entry, env.utxoDb.lookup hash = some entry → EntryFrom known hash entry)
    (htxs : ∀ tx ∈ block.transactions, ∀ j out, tx.txOut[j]? = some out →
      known ⟨tx.txHash c, UInt32.ofNat j⟩ out.pkScript)
    (hload : Prova.loadInputs c env node block view = .ok view') : ScriptsFrom known view' := by
  unfold Prova.loadInputs at hload
  obtain ⟨-, hload⟩ := bind_unit_eq_ok.mp hload
  obtain ⟨-, hload⟩ := bind_unit_eq_ok.mp hload
  obtain ⟨view₀, hbip, hload⟩ := bind_eq_ok.mp hload
  obtain ⟨-, hload⟩ := bind_unit_eq_ok.mp hload
  cases hload
  unfold checkBIP0030 at hbip
  obtain ⟨-, hbip⟩ := bind_unit_eq_ok.mp hbip
  cases hbip
  have hview : ScriptsFrom known
      (view.fetchUtxos env.utxoDb (block.transactions.map (·.txHash c))) := h.fetchUtxosMain _ hdb
  obtain ⟨s, hs, hfetch⟩ := UtxoViewpoint.fetchInputUtxos_rule env.utxoDb block
    (view.fetchUtxos env.utxoDb (block.transactions.map (·.txHash c)))
    (fun s : UtxoViewpoint × List Hash => ScriptsFrom known s.1) hview (fun s hash hs _ => hs)
    fun s hs tx htx => hs.addTxOuts (htxs tx htx) block.height
  rw [hfetch]
  exact hs.fetchUtxosMain _ hdb

end ScriptsFrom

/-! ### A block whose operations act later -/

/-- The operations of a block stay away from what the block itself refers to: no output names a keyID
that an earlier transaction adds, no input script depends on a key that an operation is on, and the
block leaves a validate key in force and does not add the key it is signed with. -/
structure ActsLater (c : Crypto) (db : UtxoDb) (utxoView : UtxoViewpoint) (keyView : KeyViewpoint)
    (block : MsgBlock) : Prop where
  outputs : EachAfter (fun before tx => changesKeys tx = false → ∀ id ∈ outputKeyIDs tx,
    ∀ op ∈ opsOf before, ¬ (op.keySetType = .asp ∧ op.isAddOp = true ∧ op.keyID = id))
    block.transactions
  inputs : ∀ tx ∈ block.transactions, ∀ o ∈ tx.prevOuts, ∀ script,
    MaySpend c db utxoView block.transactions o script →
      Untouched (opsOf block.transactions) script
  validateKey : keyView.adminKeySets .validate = [] ∨
    (∃ key ∈ keyView.adminKeySets .validate,
      ∀ op ∈ opsOf block.transactions, ¬ op.revokesValidator key) ∧
    ∀ key, parsePubKey block.header.validatingPubKey.val = .ok key →
      ∀ op ∈ opsOf block.transactions, ¬ op.addsValidator key

/-- The checks of a connected block come out as they do against the state of its parent. -/
structure SameVerdicts (c : Crypto) (params : Params) (keyView : KeyViewpoint) (block : MsgBlock)
    (s : ConnectState) : Prop where
  outputs : ∀ before tx after v, block.transactions = before ++ tx :: after →
    before.foldlM (acceptTx c params) keyView = .ok v → changesKeys tx = false →
      checkTransactionOutputs params tx v = checkTransactionOutputs params tx keyView
  inputs : ∀ tx ∈ block.transactions, ∀ input ∈ tx.txIn.zipIdx, ∀ flags,
    validateInput c s.utxoView s.keyView flags tx input =
      validateInput c s.utxoView keyView flags tx input
  validateKey : checkValidateKey block.header s.keyView = checkValidateKey block.header keyView

theorem foldlM_acceptTx {txs : List MsgTx} (h : txs.foldlM (acceptTx c params) view = .ok view') :
    view' = txs.foldl (afterTx c) view :=
  foldlM_eq_foldl (fun _ _ _ _ hstep => (acceptTx_ok hstep).2) h

section

variable {env : ConnectEnv} {node : BlockNode} {block : MsgBlock} {utxoView : UtxoViewpoint}
  {keyView : KeyViewpoint} {s : ConnectState}

theorem checkConnectBlock_scripts (h : checkConnectBlock c env node block utxoView keyView = .ok s) :
    ScriptsFrom (MaySpend c env.utxoDb utxoView block.transactions) s.utxoView := by
  obtain ⟨view, s₀, hload, hrun, -, rfl⟩ := checkConnectBlock_ok h
  have hown : ∀ tx ∈ block.transactions, ∀ j out, tx.txOut[j]? = some out →
      MaySpend c env.utxoDb utxoView block.transactions ⟨tx.txHash c, UInt32.ofNat j⟩ out.pkScript :=
    fun tx htx j out hout => .inr (.inr ⟨tx, htx, rfl, j, out, hout, rfl, rfl⟩)
  have hstart : ScriptsFrom (MaySpend c env.utxoDb utxoView block.transactions) utxoView :=
    fun hash entry hentry i script hscript => .inl ⟨entry, hentry, hscript⟩
  have hview := hstart.loadInputs
    (fun hash entry hentry i script hscript => .inr (.inl ⟨entry, hentry, hscript⟩)) hown hload
  have hend : ScriptsFrom (MaySpend c env.utxoDb utxoView block.transactions) s₀.utxoView := by
    refine foldlM_invariant (fun s : ConnectState => ScriptsFrom _ s.utxoView) ?_ hview hrun
    intro tx htx s t hs hstep
    obtain ⟨_, _, -, -, -, hconnect, -, -⟩ := connectTx_ok hstep
    exact hs.connectTransaction (hown tx htx) hconnect
  exact hend

theorem ActsLater.same_outputs (hlater : ActsLater c env.utxoDb utxoView keyView block)
    (hkeys : block.transactions.foldlM (acceptTx c params) keyView = .ok s.keyView)
    {before after : List MsgTx} {v : KeyViewpoint} (hsplit : block.transactions = before ++ tx :: after)
    (hbefore : before.foldlM (acceptTx c params) keyView = .ok v) (hchanges : changesKeys tx = false) :
    checkTransactionOutputs params tx v = checkTransactionOutputs params tx keyView := by
  rw [hsplit] at hkeys
  obtain ⟨v', hv', hrest⟩ := foldlM_append_eq_ok.mp hkeys
  cases hbefore.symm.trans hv'
  obtain ⟨m, hm, -⟩ := foldlM_cons_eq_ok.mp hrest
  obtain ⟨hcheck, -⟩ := acceptTx_ok hm
  have hparent : checkTransactionOutputs params tx keyView = .ok () := by
    refine checkTransactionOutputs_mono hchanges (fun id hid hsome => ?_) hcheck
    rw [foldlM_acceptTx hbefore] at hsome
    exact aspKeyIdMap_of_not_added (hlater.outputs before tx after hsplit hchanges id hid)
      hsome
  rw [hcheck, hparent]

theorem ActsLater.same_inputs (hlater : ActsLater c env.utxoDb utxoView keyView block)
    (h : checkConnectBlock c env node block utxoView keyView = .ok s)
    (htx : tx ∈ block.transactions) {input : TxIn × Nat} (hinput : input ∈ tx.txIn.zipIdx) (flags : ScriptFlags) :
    validateInput c s.utxoView s.keyView flags tx input = validateInput c s.utxoView keyView flags tx input := by
  have hkeys := foldlM_acceptTx (checkConnectBlock_keys h)
  have hscripts := checkConnectBlock_scripts h
  have hprev : input.1.previousOutPoint ∈ tx.prevOuts :=
    mem_map_of_mem (fst_mem_of_mem_zipIdx hinput)
  unfold validateInput
  cases hentry : s.utxoView.lookupEntry input.1.previousOutPoint.hash with
  | none => simp only [hentry]
  | some entry =>
    cases hscript : entry.pkScriptByIndex input.1.previousOutPoint.index with
    | none => simp only [hentry, hscript]
    | some script =>
      obtain ⟨hids, hsets⟩ := hlater.inputs tx htx _ hprev script
        (hscripts _ entry hentry _ script hscript)
      have hresolve : resolveScript c s.keyView script = resolveScript c keyView script := by
        rw [hkeys]
        refine resolveScript_congr (fun pops hparse id hid => ?_) fun t ht => ?_
        · exact aspKeyIdMap_of_untouched (hids pops hparse id hid)
        · exact adminKeySets_foldl_afterTx (hsets t ht)
      simp only [hentry, hscript, hresolve]

theorem ActsLater.same_validateKey (hlater : ActsLater c env.utxoDb utxoView keyView block)
    (h : checkConnectBlock c env node block utxoView keyView = .ok s) :
    checkValidateKey block.header s.keyView = checkValidateKey block.header keyView := by
  have hkeys := foldlM_acceptTx (checkConnectBlock_keys h)
  have hcheck := checkConnectBlock_validate h
  obtain ⟨key, hkey, hmem⟩ := checkValidateKey_ok hcheck
  have hparent : keyView.adminKeySets .validate ≠ [] → key ∈ keyView.adminKeySets .validate := by
    intro hne
    obtain ⟨⟨kept, hkept, hnot⟩, hforeign⟩ := hlater.validateKey.resolve_left hne
    rw [hkeys] at hmem
    have hstays := validator_stays (c := c) hkept hnot
    rcases validator_of_mem (hmem (ne_nil_of_mem hstays)) with hold | ⟨op, hop, hadds⟩
    · exact hold
    · exact absurd hadds (hforeign key hkey op hop)
  rw [hcheck]
  unfold checkValidateKey
  simp only [hkey]
  refine (ruleError_eq_ok.mpr ?_).symm
  rintro ⟨hpos, hnone⟩
  exact PublicKeySet.pos_eq_none.mp hnone (hparent (length_pos_iff.mp hpos))

end

end Prova
