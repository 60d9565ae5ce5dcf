import Prova.Blockchain.Chain
import Prova.Blockchain.AdminOps
import Prova.Lib.StateRun

/-!
# What the chain operations do

The inversion lemmas of the operations on the chain, one for each: what a successful operation
checked, and which state it leads to. The proofs about runs use these and do not look at the
definitions again.
-/

namespace Prova

variable {flags : BehaviorFlags} {b b' : BlockChain} {node : BlockNode} {keyView : KeyViewpoint}
  {block : MsgBlock} {utxoView : UtxoViewpoint}

@[simp] theorem liftRule_eq_ok {α : Type} {x : Except ChainError α} {a : α} :
    liftRule x b = .ok a b' ↔ x = .ok a ∧ b = b' := by
  unfold liftRule
  cases x with
  | ok a' => simp
  | error e => simp

/-! ### Connecting a block to the views -/

section

variable {c : Crypto}

theorem connectTx_ok {params : Params} {height : UInt32} {s s' : ConnectState} {tx : MsgTx}
    (h : connectTx c params height s tx = .ok s') : ∃ txFee stxos,
      checkTransactionInputs params tx height s.utxoView = .ok txFee ∧
      s'.totalFees = s.totalFees + txFee ∧ ¬ s'.totalFees < s.totalFees ∧
      s.utxoView.connectTransaction c tx height = .ok (s'.utxoView, stxos) ∧ s'.stxos = s.stxos ++ stxos ∧
      acceptTx c params s.keyView tx = .ok s'.keyView := by
  unfold connectTx at h
  obtain ⟨txFee, hin, h⟩ := bind_eq_ok.mp h
  obtain ⟨hfee, h⟩ := bind_unit_eq_ok.mp h
  obtain ⟨hout, h⟩ := bind_unit_eq_ok.mp h
  obtain ⟨⟨view, stxos⟩, hview, h⟩ := bind_eq_ok.mp h
  obtain ⟨keyView, hkeys, h⟩ := bind_eq_ok.mp h
  cases h
  exact ⟨txFee, stxos, hin, rfl, ruleError_eq_ok.mp hfee, hview, rfl, bind_unit_eq_ok.mpr ⟨hout, hkeys⟩⟩

theorem checkConnectBlock_ok {env : ConnectEnv} {s : ConnectState}
    (h : checkConnectBlock c env node block utxoView keyView = .ok s) : ∃ view s₀,
      loadInputs c env node block utxoView = .ok view ∧
      block.transactions.foldlM (connectTx c env.params node.height) ⟨view, keyView, 0, []⟩ = .ok s₀ ∧
      checkConnected c env node block s₀ = .ok () ∧
      s = { s₀ with utxoView := s₀.utxoView.setBestHash node.hash } := by
  unfold checkConnectBlock at h
  obtain ⟨view, hview, h⟩ := bind_eq_ok.mp h
  obtain ⟨s₀, hs₀, h⟩ := bind_eq_ok.mp h
  obtain ⟨hcheck, h⟩ := bind_unit_eq_ok.mp h
  cases h
  exact ⟨view, s₀, hview, hs₀, hcheck, rfl⟩

theorem loadInputs_bestHash {env : ConnectEnv} {view : UtxoViewpoint}
    (h : loadInputs c env node block utxoView = .ok view) : utxoView.bestHash = node.parentHash := by
  unfold loadInputs at h
  obtain ⟨-, h⟩ := bind_unit_eq_ok.mp h
  obtain ⟨hbest, -⟩ := bind_unit_eq_ok.mp h
  exact not_not.mp (reject_eq_ok.mp hbest)

theorem checkConnectBlock_keys {env : ConnectEnv} {s : ConnectState}
    (h : checkConnectBlock c env node block utxoView keyView = .ok s) :
    block.transactions.foldlM (acceptTx c env.params) keyView = .ok s.keyView := by
  obtain ⟨view, s₀, -, hfold, -, rfl⟩ := checkConnectBlock_ok h
  refine foldlM_proj ConnectState.keyView (fun tx _ s t hst => ?_) hfold
  obtain ⟨-, -, -, -, -, -, -, haccept⟩ := connectTx_ok hst
  exact haccept

end

namespace BlockChain

variable {c : Crypto}

/-! ### Lookups -/

theorem findPreviousCheckpoint_ok {r : Option MsgBlock} (h : findPreviousCheckpoint b = .ok r b') :
    ∃ x y, b' = { b with checkpointBlock := x, nextCheckpoint := y } := by
  unfold findPreviousCheckpoint at h
  rw [run_get_bind] at h
  split at h
  · obtain ⟨-, rfl⟩ := run_pure_eq_ok.mp h
    exact ⟨b.checkpointBlock, b.nextCheckpoint, rfl⟩
  · split at h
    · cases hfind : b.params.checkpoints.reverse.find? fun cp => (b.db.blockIndex cp.hash).isSome with
      | none =>
        simp only [hfind, run_set_bind] at h
        obtain ⟨-, rfl⟩ := run_pure_eq_ok.mp h
        exact ⟨_, _, rfl⟩
      | some cp =>
        simp only [hfind] at h
        obtain ⟨block, m, -, h⟩ := run_bind_eq_ok.mp h
        rw [run_set_bind] at h
        obtain ⟨-, rfl⟩ := run_pure_eq_ok.mp h
        exact ⟨_, _, rfl⟩
    · cases hnext : b.nextCheckpoint with
      | none =>
        simp only [hnext] at h
        obtain ⟨-, rfl⟩ := run_pure_eq_ok.mp h
        exact ⟨b.checkpointBlock, none, by rw [← hnext]⟩
      | some next =>
        simp only [hnext] at h
        split at h
        · obtain ⟨-, rfl⟩ := run_pure_eq_ok.mp h
          exact ⟨b.checkpointBlock, some next, by rw [← hnext]⟩
        · obtain ⟨block, m, -, h⟩ := run_bind_eq_ok.mp h
          rw [run_set_bind] at h
          obtain ⟨-, rfl⟩ := run_pure_eq_ok.mp h
          exact ⟨_, _, rfl⟩

theorem fetchBlock_ok {hash : Hash} (h : b.fetchBlock hash = .ok block) : b.db.blocks hash = some block := by
  unfold fetchBlock at h
  split at h
  · cases h
  · next heq =>
    cases h
    exact heq

theorem loadBlockNode_ok {hash : Hash} (h : loadBlockNode c hash b = .ok node b') :
    ∃ blk parent, b.db.blocks hash = some blk ∧ b.index blk.header.prevBlock = some parent ∧
      node = newBlockNode c blk.header (some parent) ∧ b' = (b.setIndex hash (some node)).setInMainChain hash true := by
  unfold loadBlockNode at h
  rw [run_get_bind] at h
  obtain ⟨blk, m, hfetch, h⟩ := run_bind_eq_ok.mp h
  obtain ⟨hblk, rfl⟩ := liftRule_eq_ok.mp hfetch
  cases hparent : b.index blk.header.prevBlock with
  | none =>
    simp only [hparent] at h
    exact (run_throw_eq_ok.mp h).elim
  | some parent =>
    simp only [hparent, run_modify_bind] at h
    obtain ⟨rfl, rfl⟩ := run_pure_eq_ok.mp h
    exact ⟨blk, parent, fetchBlock_ok hblk, hparent, rfl, rfl⟩

/-- The previous node of a block comes from the index, or it is made from a stored block whose own
parent is in the index. -/
theorem getPrevNodeFromBlock_ok {node : Option BlockNode} (h : getPrevNodeFromBlock c block b = .ok node b') :
    (block.header.prevBlock = 0 ∧ node = none ∧ b' = b) ∨
      (∃ n, node = some n ∧ b.index block.header.prevBlock = some n ∧ b' = b) ∨
      ∃ n blk parent, node = some n ∧ b.index block.header.prevBlock = none ∧
        b.db.blocks block.header.prevBlock = some blk ∧ b.index blk.header.prevBlock = some parent ∧
        n = newBlockNode c blk.header (some parent) ∧ b' = (b.setIndex block.header.prevBlock (some n)).setInMainChain
          block.header.prevBlock true := by
  unfold getPrevNodeFromBlock at h
  rw [run_get_bind] at h
  split at h
  · next hzero =>
    obtain ⟨rfl, rfl⟩ := run_pure_eq_ok.mp h
    exact .inl ⟨hzero, rfl, rfl⟩
  · cases hn : b.index block.header.prevBlock with
    | some n =>
      simp only [hn] at h
      obtain ⟨rfl, rfl⟩ := run_pure_eq_ok.mp h
      exact .inr (.inl ⟨n, rfl, rfl, rfl⟩)
    | none =>
      simp only [hn] at h
      obtain ⟨n, m, hload, h⟩ := run_bind_eq_ok.mp h
      obtain ⟨rfl, rfl⟩ := run_pure_eq_ok.mp h
      obtain ⟨blk, parent, hblk, hparent, rfl, rfl⟩ := loadBlockNode_ok hload
      exact .inr (.inr ⟨_, blk, parent, rfl, rfl, hblk, hparent, rfl, rfl⟩)

/-! ### Moving the main chain -/

theorem connectBlock_ok {view' : UtxoViewpoint} {stxos : List SpentTxOut}
    (h : connectBlock c node block utxoView keyView stxos b = .ok view' b') :
    block.header.prevBlock = b.bestNode.hash ∧ view' = utxoView.commit ∧
      b' = { b with
        db := { b.db with
          utxos := utxoView.dbPutUtxoView b.db.utxos
          spendJournal := Function.update b.db.spendJournal (block.blockHash c) (some stxos)
          blockIndex := Function.update b.db.blockIndex (block.blockHash c) (some node.height) }
        index := Function.update b.index node.hash (some node)
        inMainChain := Function.update b.inMainChain node.hash true
        bestNode := node
        keys := keyView } := by
  unfold connectBlock at h
  rw [run_get_bind] at h
  obtain ⟨⟨⟩, m, hrun, h⟩ := run_bind_eq_ok.mp h
  obtain ⟨hprev, rfl⟩ := liftRule_eq_ok.mp hrun
  obtain ⟨⟨⟩, m, hrun, h⟩ := run_bind_eq_ok.mp h
  obtain ⟨-, rfl⟩ := liftRule_eq_ok.mp hrun
  rw [run_set_bind] at h
  obtain ⟨rfl, rfl⟩ := run_pure_eq_ok.mp h
  exact ⟨not_not.mp (reject_eq_ok.mp hprev), rfl, rfl⟩

theorem disconnectBlock_ok {view' : UtxoViewpoint} (h : disconnectBlock c node block utxoView b = .ok view' b') :
    b'.params = b.params ∧ b'.noVerify = b.noVerify ∧ b'.index = b.index ∧
      b'.db.blocks = b.db.blocks ∧ b'.keys = b.keys := by
  unfold disconnectBlock at h
  rw [run_get_bind] at h
  obtain ⟨⟨⟩, m, hrun, h⟩ := run_bind_eq_ok.mp h
  obtain ⟨-, rfl⟩ := liftRule_eq_ok.mp hrun
  cases hparent : node.parent with
  | none =>
    simp only [hparent] at h
    exact (run_throw_eq_ok.mp h).elim
  | some prevNode =>
    simp only [hparent] at h
    obtain ⟨_, m, hdiscard, h⟩ := run_bind_eq_ok.mp h
    obtain ⟨_, hfetch, -⟩ := run_map_eq_ok.mp hdiscard
    obtain ⟨-, rfl⟩ := liftRule_eq_ok.mp hfetch
    rw [run_set_bind] at h
    obtain ⟨-, rfl⟩ := run_pure_eq_ok.mp h
    exact ⟨rfl, rfl, rfl, rfl, rfl⟩

theorem extendMainChain_ok (hfast : flags.fastAdd = false) (h : extendMainChain c node block flags b = .ok () b') :
    ∃ s, checkConnectBlock c b.env node block (newUtxoViewpoint node.parentHash) b.keys = .ok s ∧
      if flags.dryRun then b' = b
      else ∃ view, connectBlock c node block s.utxoView s.keyView s.stxos b = .ok view b' := by
  unfold extendMainChain at h
  rw [run_get_bind] at h
  simp only [hfast, Bool.false_eq_true, if_false] at h
  obtain ⟨s, m, hlift, h⟩ := run_bind_eq_ok.mp h
  obtain ⟨hs, rfl⟩ := liftRule_eq_ok.mp hlift
  refine ⟨s, hs, ?_⟩
  cases hdry : flags.dryRun with
  | true =>
    simp only [hdry, if_true] at h
    exact (run_pure_eq_ok.mp h).2.symm
  | false =>
    simp only [hdry, Bool.false_eq_true, if_false] at h
    obtain ⟨view, hview, -⟩ := run_map_eq_ok.mp h
    exact ⟨view, hview⟩

theorem extendMainChain_fast (hfast : flags.fastAdd = true) (h : extendMainChain c node block flags b = .ok () b') :
    if flags.dryRun then b' = b
    else ∃ view keyView stxos view', b.keys.connectTransactions c block = .ok keyView ∧
      connectBlock c node block view keyView stxos b = .ok view' b' := by
  unfold extendMainChain at h
  rw [run_get_bind] at h
  simp only [hfast, if_true] at h
  cases hdry : flags.dryRun with
  | true =>
    simp only [hdry, if_true] at h
    exact (run_pure_eq_ok.mp h).2.symm
  | false =>
    simp only [hdry, Bool.false_eq_true, if_false] at h
    obtain ⟨⟨view, stxos⟩, m, hlift, h⟩ := run_bind_eq_ok.mp h
    obtain ⟨-, rfl⟩ := liftRule_eq_ok.mp hlift
    obtain ⟨keyView, m, hlift', h⟩ := run_bind_eq_ok.mp h
    obtain ⟨hkeys, rfl⟩ := liftRule_eq_ok.mp hlift'
    obtain ⟨view', hview, -⟩ := run_map_eq_ok.mp h
    exact ⟨view, keyView, stxos, view', hkeys, hview⟩

/-- The cases of `connectBestChain`: the block extends the main chain, stays on a side chain, or makes
its side chain the main one. -/
theorem connectBestChain_ok {r : Bool} (h : connectBestChain c node block flags b = .ok r b') :
    (node.parentHash = b.bestNode.hash ∧ extendMainChain c node block flags b = .ok () b') ∨
      (node.parentHash ≠ b.bestNode.hash ∧ node.ancestors ≠ [] ∧
        b' = if flags.dryRun then b else b.addSideNode node) ∨
      (node.parentHash ≠ b.bestNode.hash ∧ node.ancestors ≠ [] ∧ b.bestNode.workSum < node.workSum ∧
        reorganizeChain c ((b.addSideNode node).getReorganizeNodes node).1
          ((b.addSideNode node).getReorganizeNodes node).2 flags
          (if flags.dryRun then b else b.addSideNode node) = .ok () b') := by
  unfold connectBestChain at h
  rw [run_get_bind] at h
  split at h
  · next hparent =>
    obtain ⟨⟨⟩, m, hext, h⟩ := run_bind_eq_ok.mp h
    obtain ⟨-, rfl⟩ := run_pure_eq_ok.mp h
    exact .inl ⟨hparent, hext⟩
  · next hparent =>
    rw [run_set_bind] at h
    obtain ⟨⟨⟩, m', hlift, h⟩ := run_bind_eq_ok.mp h
    obtain ⟨hanc, rfl⟩ := liftRule_eq_ok.mp hlift
    have hanc := reject_eq_ok.mp hanc
    split at h
    · obtain ⟨-, rfl⟩ := run_pure_eq_ok.mp h
      exact .inr (.inl ⟨hparent, hanc, rfl⟩)
    · next hwork =>
      obtain ⟨⟨⟩, m', hreorg, h⟩ := run_bind_eq_ok.mp h
      obtain ⟨-, rfl⟩ := run_pure_eq_ok.mp h
      exact .inr (.inr ⟨hparent, hanc, not_le.mp hwork, hreorg⟩)

/-! ### Accepting a block -/

/-- The chain as a block finds it when it is connected: the block is stored, and a node may have been
made for the block before it. -/
structure Prepared (c : Crypto) (b : BlockChain) (block : MsgBlock) (prevNode : Option BlockNode)
    (m : BlockChain) : Prop where
  params : m.params = b.params
  noVerify : m.noVerify = b.noVerify
  bestNode : m.bestNode = b.bestNode
  keys : m.keys = b.keys
  db : m.db = { b.db with
    blocks := Function.update b.db.blocks (block.blockHash c) (some block) }
  index :
    (block.header.prevBlock = 0 ∧ prevNode = none ∧ m.index = b.index ∧
      m.inMainChain = b.inMainChain) ∨
    (∃ n, prevNode = some n ∧ b.index block.header.prevBlock = some n ∧ m.index = b.index ∧
      m.inMainChain = b.inMainChain) ∨
    ∃ n blk parent, prevNode = some n ∧ b.index block.header.prevBlock = none ∧
      b.db.blocks block.header.prevBlock = some blk ∧
      b.index blk.header.prevBlock = some parent ∧
      n = newBlockNode c blk.header (some parent) ∧
      m.index = Function.update b.index block.header.prevBlock (some n) ∧
      m.inMainChain = Function.update b.inMainChain block.header.prevBlock true

theorem Prepared.env {m : BlockChain} {prevNode : Option BlockNode}
    (h : Prepared c b block prevNode m) : m.env = b.env := by
  unfold BlockChain.env
  rw [h.params, h.noVerify, h.db]

theorem maybeAcceptBlock_ok {r : Bool} (hnew : b.db.blocks (block.blockHash c) = none)
    (h : maybeAcceptBlock c block flags b = .ok r b') : ∃ prevNode m checkpointHeight, Prepared c b block prevNode m ∧
      checkBlockContext c b.params checkpointHeight block prevNode flags = .ok () ∧
      connectBestChain c (newBlockNode c block.header prevNode) block flags m = .ok r b' := by
  unfold maybeAcceptBlock at h
  obtain ⟨prevNode, b₁, hprev, h⟩ := run_bind_eq_ok.mp h
  obtain ⟨checkpointBlock, b₂, hcheckpoint, h⟩ := run_bind_eq_ok.mp h
  obtain ⟨x, y, rfl⟩ := findPreviousCheckpoint_ok hcheckpoint
  rw [run_get_bind] at h
  obtain ⟨⟨⟩, m, hlift, h⟩ := run_bind_eq_ok.mp h
  obtain ⟨hcontext, rfl⟩ := liftRule_eq_ok.mp hlift
  rw [run_modify_bind] at h
  have hstore : ∀ b₁ : BlockChain, b₁.db = b.db →
      (storeBlock (block.blockHash c) block b₁).db = { b.db with
        blocks := Function.update b.db.blocks (block.blockHash c) (some block) } := by
    intro b₁ hdb
    unfold storeBlock
    rw [hdb, hnew]
    rfl
  refine ⟨prevNode, _, checkpointBlock.map (·.height), ?_, ?_, h⟩
  · obtain ⟨hzero, rfl, rfl⟩ | ⟨n, rfl, hn, rfl⟩ |
      ⟨n, blk, parent, rfl, hnone, hblk, hparent, hn, rfl⟩ := getPrevNodeFromBlock_ok hprev
    · exact ⟨rfl, rfl, rfl, rfl, hstore _ rfl, .inl ⟨hzero, rfl, rfl, rfl⟩⟩
    · exact ⟨rfl, rfl, rfl, rfl, hstore _ rfl, .inr (.inl ⟨n, rfl, hn, rfl, rfl⟩)⟩
    · exact ⟨rfl, rfl, rfl, rfl, hstore _ rfl,
        .inr (.inr ⟨n, blk, parent, rfl, hnone, hblk, hparent, hn, rfl, rfl⟩)⟩
  · obtain ⟨-, rfl, rfl⟩ | ⟨n, rfl, -, rfl⟩ | ⟨n, blk, parent, rfl, -, -, -, -, rfl⟩ :=
      getPrevNodeFromBlock_ok hprev
    · exact hcontext
    · exact hcontext
    · exact hcontext

/-- The inversion of `ProcessBlock`: the block waits for its parent, or it has passed all checks
before `connectBestChain`. -/
theorem processBlock_ok {r : Bool} (h : processBlock c block flags b = .ok r b') :
    b.index (block.blockHash c) = none ∧ b.db.blocks (block.blockHash c) = none ∧
      checkBlockSanity c block b.params.powLimit flags = .ok () ∧
      ((r = false ∧ ∃ x y, b' = { b with checkpointBlock := x, nextCheckpoint := y }) ∨
        ∃ prevNode m checkpointHeight, Prepared c b block prevNode m ∧
          checkBlockContext c b.params checkpointHeight block prevNode flags = .ok () ∧
          connectBestChain c (newBlockNode c block.header prevNode) block flags m = .ok r b') := by
  unfold processBlock at h
  rw [run_get_bind] at h
  obtain ⟨⟨⟩, m, hlift, h⟩ := run_bind_eq_ok.mp h
  obtain ⟨hexists, rfl⟩ := liftRule_eq_ok.mp hlift
  obtain ⟨⟨⟩, m, hlift₂, h⟩ := run_bind_eq_ok.mp h
  obtain ⟨hsanity, rfl⟩ := liftRule_eq_ok.mp hlift₂
  obtain ⟨checkpointBlock, m, hcheckpoint, h⟩ := run_bind_eq_ok.mp h
  obtain ⟨x, y, rfl⟩ := findPreviousCheckpoint_ok hcheckpoint
  obtain ⟨⟨⟩, m, hlift₃, h⟩ := run_bind_eq_ok.mp h
  obtain ⟨-, rfl⟩ := liftRule_eq_ok.mp hlift₃
  obtain ⟨hindex, hstored⟩ :
      b.index (block.blockHash c) = none ∧ b.db.blocks (block.blockHash c) = none := by
    simpa [blockExists] using ruleError_eq_ok.mp hexists
  refine ⟨hindex, hstored, hsanity, ?_⟩
  split at h
  · obtain ⟨prevNode, m, height, hprep, hcontext, hconnect⟩ :=
      maybeAcceptBlock_ok (b := { b with checkpointBlock := x, nextCheckpoint := y }) hstored h
    exact .inr ⟨prevNode, m, height, ⟨hprep.params, hprep.noVerify, hprep.bestNode, hprep.keys, hprep.db, hprep.index⟩,
      hcontext, hconnect⟩
  · obtain ⟨rfl, rfl⟩ := run_pure_eq_ok.mp h
    exact .inl ⟨rfl, x, y, rfl⟩

end BlockChain

end Prova
