import Prova.Blockchain.AcceptRun
import Prova.Lib.Prefixes

/-!
# Who may extend the chain

`checkConnectBlock` asks that a block be signed with a validate key, unless there are none, and it
asks after the transactions of the block have changed the keys. So the signer is a validator from
before the block only if the block leaves some validate key in force and does not bring in its own.
-/

namespace Prova

open List KeyViewpoint

/-- A block that is signed with the key of its header. -/
def SignedBy (c : Crypto) (header : BlockHeader) (key : PublicKey) : Prop :=
  parsePubKey header.validatingPubKey.val = .ok key ∧ header.verify c key = .ok true

def AdminOp.addsValidator (op : AdminOp) (key : PublicKey) : Prop :=
  op.keySetType = .validate ∧ op.isAddOp = true ∧ op.pubKey = key

def AdminOp.revokesValidator (op : AdminOp) (key : PublicKey) : Prop :=
  op.keySetType = .validate ∧ op.isAddOp = false ∧ op.pubKey = key

/-- A key that genesis or a list of blocks has made a validate key at some time. -/
def EverValidator (params : Params) (blocks : List MsgBlock) (key : PublicKey) : Prop :=
  key ∈ params.adminKeySets .validate ∨
    ∃ op ∈ opsOf (BlockChain.transactionsOf blocks), op.addsValidator key

namespace KeyViewpoint

variable {c : Crypto} {view : KeyViewpoint} {txs : List MsgTx} {key : PublicKey}

theorem onKey_validate {op : AdminOp} : op.onKey .validate key ↔ op.keySetType = .validate ∧ op.pubKey = key :=
  ⟨fun h => h.2, fun h => ⟨by decide, h⟩⟩

theorem validator_of_mem (hmem : key ∈ (txs.foldl (afterTx c) view).adminKeySets .validate) :
    key ∈ view.adminKeySets .validate ∨ ∃ op ∈ opsOf txs, op.addsValidator key := by
  rcases mem_of_foldl_afterTx hmem with hold | ⟨op, hop, hkey, hadd⟩
  · exact .inl hold
  · obtain ⟨hset, hpub⟩ := onKey_validate.mp hkey
    exact .inr ⟨op, hop, hset, hadd, hpub⟩

theorem validator_stays (hmem : key ∈ view.adminKeySets .validate)
    (hkept : ∀ op ∈ opsOf txs, ¬ op.revokesValidator key) :
    key ∈ (txs.foldl (afterTx c) view).adminKeySets .validate := by
  refine mem_foldl_afterTx_of_kept hmem fun op hop hkey => ?_
  by_contra hadd
  obtain ⟨hset, hpub⟩ := onKey_validate.mp hkey
  exact hkept op hop ⟨hset, by simpa using hadd, hpub⟩

end KeyViewpoint

/-! ### The checks -/

variable {c : Crypto}

theorem checkConnected_validate {env : ConnectEnv} {node : BlockNode} {block : MsgBlock}
    {s : ConnectState} (h : checkConnected c env node block s = .ok ()) :
    checkValidateKey block.header s.keyView = .ok () := by
  unfold checkConnected at h
  obtain ⟨-, h⟩ := bind_unit_eq_ok.mp h
  exact (bind_unit_eq_ok.mp h).1

theorem checkConnectBlock_validate {env : ConnectEnv} {node : BlockNode} {block : MsgBlock}
    {utxoView : UtxoViewpoint} {keyView : KeyViewpoint} {s : ConnectState}
    (h : checkConnectBlock c env node block utxoView keyView = .ok s) :
    checkValidateKey block.header s.keyView = .ok () := by
  obtain ⟨-, s₀, -, -, hcheck, rfl⟩ := checkConnectBlock_ok h
  exact checkConnected_validate hcheck

theorem checkValidateKey_ok {header : BlockHeader} {view : KeyViewpoint} (h : checkValidateKey header view = .ok ()) :
    ∃ key, parsePubKey header.validatingPubKey.val = .ok key ∧
      (view.adminKeySets .validate ≠ [] → key ∈ view.adminKeySets .validate) := by
  unfold checkValidateKey at h
  split at h
  · cases h
  · next key hkey =>
    refine ⟨key, hkey, fun hne => ?_⟩
    by_contra hnot
    exact ruleError_eq_ok.mp h ⟨length_pos_iff.mpr hne, PublicKeySet.pos_eq_none.mpr hnot⟩

theorem checkBlockContext_signed {params : Params} {height : Option UInt32} {block : MsgBlock}
    {p : BlockNode} {flags : BehaviorFlags} (hfast : flags.fastAdd = false)
    (h : checkBlockContext c params height block (some p) flags = .ok ()) : ∃ key, SignedBy c block.header key := by
  unfold checkBlockContext at h
  obtain ⟨hheader, -⟩ := bind_unit_eq_ok.mp h
  unfold checkBlockHeaderContext at hheader
  simp only [hfast, Bool.false_eq_true, if_false] at hheader
  obtain ⟨hsigned, -⟩ := bind_unit_eq_ok.mp hheader
  unfold checkHeaderSigned at hsigned
  obtain ⟨-, hsigned⟩ := bind_unit_eq_ok.mp hsigned
  obtain ⟨-, hsigned⟩ := bind_unit_eq_ok.mp hsigned
  split at hsigned
  · cases hsigned
  · next key hkey =>
    split at hsigned
    · cases hsigned
    · next verified hverify =>
      have hok := ruleError_eq_ok.mp hsigned
      rw [not_not] at hok
      exact ⟨key, hkey, by rw [hverify, hok]⟩

namespace BlockChain

theorem verifyBlocks_validate {b : BlockChain} {nodes : List BlockNode} {utxoView : UtxoViewpoint}
    {keyView keyView' : KeyViewpoint} {attached : List (BlockNode × MsgBlock)}
    (h : verifyBlocks c b nodes utxoView keyView = .ok (attached, keyView')) : EachAfter (fun before block => ∃ view,
      (transactionsOf (before ++ [block])).foldlM (acceptTx c b.params) keyView = .ok view ∧
        checkValidateKey block.header view = .ok ()) (attached.map (·.2)) := by
  induction nodes generalizing utxoView keyView attached with
  | nil =>
    cases h
    exact .nil
  | cons node nodes ih =>
    unfold verifyBlocks at h
    obtain ⟨block, -, h⟩ := bind_eq_ok.mp h
    obtain ⟨s, hs, h⟩ := bind_eq_ok.mp h
    obtain ⟨⟨rest, keyView₁⟩, hrest, h⟩ := bind_eq_ok.mp h
    cases h
    have hkeys := checkConnectBlock_keys hs
    have htxs : transactionsOf [block] = block.transactions := flatMap_singleton ..
    rw [map_cons, ← singleton_append]
    refine eachAfter_append.mpr ⟨eachAfter_singleton.mpr ⟨s.keyView, ?_, ?_⟩, ?_⟩
    · rw [nil_append, htxs]
      exact hkeys
    · exact checkConnectBlock_validate hs
    · refine (ih hrest).mono fun before block' => ?_
      rintro ⟨view, haccept, hcheck⟩
      refine ⟨view, ?_, hcheck⟩
      rw [append_assoc, transactionsOf_append, htxs]
      exact foldlM_append_eq_ok.mpr ⟨_, hkeys, haccept⟩

/-- What a block has to be for the check of its key to mean something: some validate key in force
before it stays, and it does not add the key it is signed with. -/
structure LeavesValidator (c : Crypto) (params : Params) (before : List MsgBlock)
    (block : MsgBlock) : Prop where
  stays : ∃ key ∈ (foldKeys c params before).adminKeySets .validate,
    ∀ op ∈ opsOf block.transactions, ¬ op.revokesValidator key
  foreign : ∀ key, parsePubKey block.header.validatingPubKey.val = .ok key →
    ∀ op ∈ opsOf block.transactions, ¬ op.addsValidator key

def parentBranch (b : BlockChain) (block : MsgBlock) : List MsgBlock :=
  match b.index block.header.prevBlock with
  | none => []
  | some p => b.branchBlocks p.chain

/-- The condition on an accepted block: it was checked in full, and it leaves a validator on its own
branch. -/
structure KeepsValidators (c : Crypto) (b : BlockChain) (block : MsgBlock)
    (flags : BehaviorFlags) : Prop where
  checked : flags.fastAdd = false
  leaves : LeavesValidator c b.params (b.parentBranch block) block

/-- Of a reachable chain: every branch is signed and leaves validators, and the blocks of the main
chain were held against the keys they lead to. -/
structure ValidatorsOk (c : Crypto) (params : Params) (b : BlockChain) : Prop where
  branch : ∀ {h n}, b.index h = some n →
    EachAfter (fun before block => (∃ key, SignedBy c block.header key) ∧
      LeavesValidator c params before block) (b.branchBlocks n.chain)
  main : EachAfter (fun before block => ∃ view : KeyViewpoint,
    view.Agree (foldKeys c params (before ++ [block])) ∧
      checkValidateKey block.header view = .ok ()) b.mainBlocks

section Step

variable {b b' : BlockChain} {block : MsgBlock} {flags : BehaviorFlags} {p : BlockNode}
  {params : Params}

theorem ValidatorsOk.branch_step (hinv : KeysOk c params b) (hval : ValidatorsOk c params b)
    (hins : Inserted c b block flags p b') (hcond : KeepsValidators c b block flags) {h : Hash}
    {n : BlockNode} (hn : b'.index h = some n) : EachAfter (fun before block => (∃ key, SignedBy c block.header key) ∧
      LeavesValidator c params before block) (b'.branchBlocks n.chain) := by
  rw [hins.index, Function.update_apply] at hn
  split at hn
  · cases hn
    rw [hins.branchBlocks_new hinv.chain]
    refine eachAfter_append.mpr ⟨hval.branch hins.prev, eachAfter_singleton.mpr ⟨?_, ?_⟩⟩
    · obtain ⟨height, hcontext⟩ := hins.context
      exact checkBlockContext_signed hcond.checked hcontext
    · have hleaves := hcond.leaves
      unfold parentBranch at hleaves
      rw [hins.prev, hinv.sameParams] at hleaves
      rwa [append_nil]
  · have hn' : b.index n.hash = some n := (hinv.chain.hash hn).symm ▸ hn
    have hsame := hins.branchBlocks hinv.chain hn' 0
    rw [drop_zero] at hsame
    rw [hsame]
    exact hval.branch hn

theorem ValidatorsOk.main_reorganized {k j : Nat} (hinv : KeysOk c params b)
    (hval : ValidatorsOk c params b) (hnodup : (genesisKeys c params).SetsNodup) (hins : Inserted c b block flags p b')
    (hre : Reorganized c b (newBlockNode c block.header (some p)) b' k j) :
    EachAfter (fun before block => ∃ view : KeyViewpoint, view.Agree (foldKeys c params (before ++ [block])) ∧
        checkValidateKey block.header view = .ok ()) b'.mainBlocks := by
  obtain ⟨hmain, hmain'⟩ := mainBlocks_reorganized hinv.chain hins hre
  obtain ⟨m, utxoView, verified, attached, hparams, hverify, hattached, -⟩ := hre.keys
  have hundone := hinv.undone hnodup hmain
  have hbefore := hval.main
  rw [hmain] at hbefore
  rw [hmain']
  refine eachAfter_append.mpr ⟨(eachAfter_append.mp hbefore).1, ?_⟩
  rw [← hattached]
  refine (verifyBlocks_validate hverify).mono fun before block => ?_
  rintro ⟨view, haccept, hcheck⟩
  refine ⟨view, ?_, hcheck⟩
  rw [append_assoc, foldKeys_append, (fits_of_accept haccept).2]
  exact hundone.foldl_afterTx _

theorem ValidatorsOk.step (hinv : KeysOk c params b) (hval : ValidatorsOk c params b)
    (hnodup : (genesisKeys c params).SetsNodup) (hcond : KeepsValidators c b block flags)
    (h : Accepted c b block flags b') : ValidatorsOk c params b' := by
  obtain ⟨-, hindex, hblocks, hbest, -⟩ |
    ⟨p, hins, hcases⟩ := h.cases hinv.chain
  · have hsame : b'.branchBlocks = b.branchBlocks := by
      unfold branchBlocks blocksOf
      rw [hblocks]
    refine ⟨fun hn => ?_, ?_⟩
    · rw [hindex] at hn
      exact hsame ▸ hval.branch hn
    · unfold mainBlocks
      rw [hbest, hsame]
      exact hval.main
  refine ⟨fun hn => hval.branch_step hinv hins hcond hn, ?_⟩
  obtain ⟨hbest, -⟩ | ⟨hp, hbest, hext⟩ | ⟨k, j, hre⟩ := hcases
  · unfold mainBlocks
    rw [hbest]
    have hsame := hins.branchBlocks hinv.chain hinv.chain.best 0
    rw [drop_zero] at hsame
    rw [hsame]
    exact hval.main
  · rw [mainBlocks_extended hinv.chain hins hp hbest]
    refine eachAfter_append.mpr ⟨hval.main, eachAfter_singleton.mpr ?_⟩
    have hafter := hinv.extended hins hp hbest h.nonzero
    unfold Extended at hext
    simp only [hcond.checked, Bool.false_eq_true, if_false] at hext
    obtain ⟨s, hs, hkeys⟩ := hext
    have haccept := checkConnectBlock_keys hs
    rw [← hkeys] at haccept
    have hagree := (hafter haccept).agree
    rw [mainBlocks_extended hinv.chain hins hp hbest] at hagree
    rw [append_nil]
    exact ⟨b'.keys, hagree, hkeys ▸ checkConnectBlock_validate hs⟩
  · exact hval.main_reorganized hinv hnodup hins hre

end Step

/-- In every run of accepted blocks that each leave a validator, every block of the main chain is
signed with a key that genesis or an earlier block has made a validate key. -/
theorem mainChain_signed_by_validators {params : Params} {noVerify : Bool} {b : BlockChain}
    (hzero : params.genesisHash c ≠ 0) (hnodup : (genesisKeys c params).SetsNodup)
    (hrun : AcceptRun c params noVerify (KeepsValidators c) b) :
    ∀ before block after, b.mainBlocks = before ++ block :: after →
      ∃ key, SignedBy c block.header key ∧ EverValidator params before key := by
  have hfast : ∀ {b block flags}, KeepsValidators c b block flags → FastOk c b block flags := by
    intro b block flags hcond htrue
    rw [hcond.checked] at htrue
    cases htrue
  have hok : KeysOk c params b ∧ ValidatorsOk c params b := by
    induction hrun with
    | genesis =>
      refine ⟨keysOk_createChainState hzero hnodup, fun hn => ?_, .nil⟩
      rw [createChainState_index, Function.update_apply] at hn
      split at hn
      · cases hn
        exact .nil
      · cases hn
    | step _ hcond hacc ih =>
      exact ⟨ih.1.step hnodup (hfast hcond) hacc, ih.2.step ih.1 hnodup hcond hacc⟩
  obtain ⟨hinv, hval⟩ := hok
  intro before block after hsplit
  obtain ⟨⟨key, hsigned⟩, hstays, hforeign⟩ :=
    hval.branch hinv.chain.best before block after hsplit
  obtain ⟨view, hagree, hcheck⟩ := hval.main before block after hsplit
  have htxs : transactionsOf [block] = block.transactions := flatMap_singleton ..
  rw [foldKeys_append, htxs] at hagree
  -- the set is not empty, so the key was looked for in it
  obtain ⟨kept, hkept, hnot⟩ := hstays
  have hkept' := (hagree.mem _ _).mpr
    (validator_stays (c := c) hkept hnot)
  obtain ⟨key', hkey', hmem⟩ := checkValidateKey_ok hcheck
  obtain rfl : key' = key := by
    rw [hsigned.1] at hkey'
    exact (Except.ok.inj hkey').symm
  have hvalidator := (hagree.mem _ _).mp (hmem (ne_nil_of_mem hkept'))
  refine ⟨key', hsigned, ?_⟩
  rcases validator_of_mem hvalidator with hold | ⟨op, hop, hadds⟩
  · exact validator_of_mem hold
  · exact absurd hadds (hforeign key' hsigned.1 op hop)

theorem mainChain_signed_by_validators_issueBlock : ∃ key, SignedBy Sample.crypto Sample.issueBlock.header key ∧
      EverValidator Sample.params [] key := by
  obtain ⟨hzero, hnodup, hacc⟩ := issueBlock_accepted
  have hops : opsOf Sample.issueBlock.transactions = [] := isEmpty_iff.mp (by decide +kernel)
  have hkeeps : KeepsValidators Sample.crypto Sample.genesis Sample.issueBlock bfNone := by
    refine ⟨rfl, ⟨RegTest.validateKey1, by decide +kernel, ?_⟩, fun key _ => ?_⟩
    · rw [hops]
      exact fun op hop => absurd hop not_mem_nil
    · rw [hops]
      exact fun op hop => absurd hop not_mem_nil
  have hrun : AcceptRun Sample.crypto Sample.params false (KeepsValidators Sample.crypto)
      (afterBlock Sample.crypto Sample.genesis Sample.issueBlock) := .step .genesis hkeeps hacc
  exact mainChain_signed_by_validators hzero hnodup hrun [] Sample.issueBlock [] (by decide +kernel)

/-- A block that revokes all validate keys is accepted with the signature of an outsider. -/
theorem mainChain_signed_by_outsider : 1 ≤ Sample.params.chainWindowMaxBlocks ∧
      Sample.params.minValidateKeySetSize ≤ (Sample.params.adminKeySets .validate).length ∧
      AcceptRun Sample.crypto Sample.params false (fun _ _ _ => True)
        (afterBlock Sample.crypto Sample.genesis Sample.revokeBlock) ∧
      (afterBlock Sample.crypto Sample.genesis Sample.revokeBlock).mainBlocks = [Sample.revokeBlock] ∧
      SignedBy Sample.crypto Sample.revokeBlock.header Sample.outsiderKey ∧
      ∀ key, SignedBy Sample.crypto Sample.revokeBlock.header key → ¬ EverValidator Sample.params [] key := by
  have hkey : parsePubKey Sample.revokeBlock.header.validatingPubKey.val = .ok Sample.outsiderKey :=
    eq_ok_of_toOption (by decide +kernel)
  refine ⟨by decide, by decide +kernel, .step .genesis trivial
    (accepted_afterBlock (Sample.processBlock_genesis (by simp [Sample.firstBlocks])).2 (by decide +kernel)),
    by decide +kernel, ⟨hkey, eq_ok_of_toOption (by decide +kernel)⟩, ?_⟩
  rintro key ⟨hparse, -⟩ hever
  cases hkey.symm.trans hparse
  rcases hever with hgenesis | ⟨op, hop, -⟩
  · revert hgenesis
    decide +kernel
  · exact absurd hop not_mem_nil

end BlockChain

end Prova
