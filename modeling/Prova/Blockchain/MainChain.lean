import Prova.Blockchain.ChainSteps
import Prova.Blockchain.KeyUndo
import Prova.Blockchain.Run

/-!
# The main chain through reorganizations

A node of the index carries the chain below it, and the index is closed under parents, so that two
chains through one block agree below it. From this follows what a successful `reorganizeChain` has
done: the top of the main chain was replaced by the top of another chain, and the two meet.
-/

namespace Prova

open List KeyViewpoint Function

variable {b : BlockChain} {keyView : KeyViewpoint} {block : MsgBlock} {utxoView : UtxoViewpoint}

/-! ### Paths in a chain -/

theorem BlockNode.ancestors_of_parent {node p : BlockNode} (h : node.parent = some p) : node.ancestors = p.chain := by
  unfold BlockNode.parent at h
  split at h
  · cases h
  · next hanc =>
    cases h
    exact hanc

def topNodes : Nat → List NodeData → List BlockNode
  | 0, _ => []
  | _, [] => []
  | k + 1, node :: above => ⟨node, above⟩ :: topNodes k above

theorem topNodes_data (k : Nat) (chain : List NodeData) :
    (topNodes k chain).map (·.toNodeData) = chain.take k := by
  induction k generalizing chain with
  | zero => rfl
  | succ k ih =>
    cases chain with
    | nil => rfl
    | cons node above => simp [topNodes, ih]

namespace BlockChain

theorem detachPath_eq (forkHash : Hash) (node : NodeData) (above : List NodeData) :
    ∃ k ≤ above.length, detachPath forkHash node above = topNodes k (node :: above) := by
  induction above generalizing node with
  | nil => exact ⟨0, le_rfl, rfl⟩
  | cons parent above ih =>
    unfold detachPath
    split
    · exact ⟨0, Nat.zero_le _, rfl⟩
    · obtain ⟨k, hk, heq⟩ := ih parent
      exact ⟨k + 1, Nat.succ_le_succ hk, by rw [heq]; rfl⟩

theorem attachPath_eq (inMainChain : Hash → Bool) (node : NodeData) (above : List NodeData) (acc : List BlockNode) :
    ∃ k ≤ above.length, (attachPath inMainChain node above acc).1 = (topNodes k (node :: above)).reverse ++ acc := by
  induction above generalizing node acc with
  | nil => exact ⟨0, le_rfl, rfl⟩
  | cons parent above ih =>
    unfold attachPath
    split
    · exact ⟨0, Nat.zero_le _, rfl⟩
    · obtain ⟨k, hk, heq⟩ := ih parent (⟨node, parent :: above⟩ :: acc)
      refine ⟨k + 1, Nat.succ_le_succ hk, ?_⟩
      rw [heq]
      simp [topNodes]

def blocksOf (b : BlockChain) (nodes : List NodeData) : List MsgBlock :=
  nodes.filterMap fun node => b.db.blocks node.hash

def branchBlocks (b : BlockChain) (chain : List NodeData) : List MsgBlock :=
  b.blocksOf chain.dropLast.reverse

def mainBlocks (b : BlockChain) : List MsgBlock := b.branchBlocks b.bestNode.chain

theorem blocksOf_append (b : BlockChain) (xs ys : List NodeData) :
    b.blocksOf (xs ++ ys) = b.blocksOf xs ++ b.blocksOf ys := filterMap_append

theorem blocksOf_cons {node : NodeData} (h : b.db.blocks node.hash = some block) (nodes : List NodeData) :
    b.blocksOf (node :: nodes) = block :: b.blocksOf nodes :=
  filterMap_cons_some h

theorem branchBlocks_split (b : BlockChain) {k : Nat} {chain : List NodeData} (hk : k < chain.length) :
    b.branchBlocks chain = b.branchBlocks (chain.drop k) ++ b.blocksOf (chain.take k).reverse := by
  unfold branchBlocks
  rw [← blocksOf_append, ← reverse_append]
  congr 2
  have hne : chain.drop k ≠ [] := by
    intro h
    have := congrArg List.length h
    simp only [length_drop, length_nil] at this
    omega
  conv_lhs => rw [← take_append_drop k chain]
  exact dropLast_append_of_ne_nil hne

/-! ### The passes of a reorganization -/

variable {c : Crypto}

theorem disconnectTransactions_bestHash {view view' : UtxoViewpoint} {stxos : List SpentTxOut}
    (h : view.disconnectTransactions c block stxos = .ok view') : view'.bestHash = block.header.prevBlock := by
  unfold UtxoViewpoint.disconnectTransactions at h
  obtain ⟨-, h⟩ := bind_unit_eq_ok.mp h
  cases h
  rfl

/-- The undoing pass: all blocks are there, the key view has undone their transactions, and the utxo
view stands before the last one. -/
theorem undoBlocks_ok {nodes : List BlockNode} {utxoView' : UtxoViewpoint} {keyView' : KeyViewpoint}
    {ds : List Detached} (h : undoBlocks c b nodes utxoView keyView = .ok (ds, utxoView', keyView')) :
    (∀ node ∈ nodes, (b.db.blocks node.hash).isSome) ∧
      keyView' = (transactionsOf (b.blocksOf (nodes.map (·.toNodeData)).reverse)).reverse.foldl
        beforeTx keyView ∧ (∀ node ∈ nodes.getLast?, ∃ block, b.db.blocks node.hash = some block ∧
        utxoView'.bestHash = block.header.prevBlock) := by
  induction nodes generalizing utxoView keyView ds with
  | nil =>
    cases h
    exact ⟨fun node hn => absurd hn not_mem_nil, rfl, fun node hn => by cases hn⟩
  | cons node nodes ih =>
    unfold undoBlocks at h
    obtain ⟨block, hfetch, h⟩ := bind_eq_ok.mp h
    obtain ⟨stxos, -, h⟩ := bind_eq_ok.mp h
    obtain ⟨utxoView₁, hutxo, h⟩ := bind_eq_ok.mp h
    obtain ⟨keyView₁, hkeys, h⟩ := bind_eq_ok.mp h
    obtain ⟨⟨rest, utxoView₂, keyView₂⟩, hrest, h⟩ := bind_eq_ok.mp h
    cases h
    have hblock := fetchBlock_ok hfetch
    obtain ⟨hstored, hkeys', hbest⟩ := ih hrest
    have hkeys₁ : keyView₁ = block.transactions.reverse.foldl beforeTx keyView :=
      foldlM_eq_foldl (fun tx _ s t h => disconnectTransaction_ok h) hkeys
    refine ⟨forall_mem_cons.mpr ⟨by simp [hblock], hstored⟩, ?_, ?_⟩
    · rw [hkeys', hkeys₁, map_cons, reverse_cons, blocksOf_append, blocksOf_cons hblock]
      unfold transactionsOf
      rw [flatMap_append, reverse_append, foldl_append]
      simp [blocksOf]
    · intro last hlast
      rw [getLast?_cons] at hlast
      cases hnodes : nodes.getLast? with
      | none =>
        rw [hnodes] at hlast
        cases hlast
        cases getLast?_eq_none_iff.mp hnodes
        cases hrest
        exact ⟨block, hblock, disconnectTransactions_bestHash hutxo⟩
      | some last' =>
        rw [hnodes] at hlast
        cases hlast
        exact hbest _ hnodes

def Linked : Hash → List NodeData → Prop
  | _, [] => True
  | hash, node :: nodes => node.parentHash = hash ∧ Linked node.hash nodes

/-- The checking pass: the nodes follow each other from where the view stands, and their transactions
are accepted one after the other. -/
theorem verifyBlocks_ok {nodes : List BlockNode} {keyView' : KeyViewpoint} {attached : List (BlockNode × MsgBlock)}
    (h : verifyBlocks c b nodes utxoView keyView = .ok (attached, keyView')) :
    Linked utxoView.bestHash (nodes.map (·.toNodeData)) ∧
      attached.map (·.1) = nodes ∧
      attached.map (·.2) = b.blocksOf (nodes.map (·.toNodeData)) ∧
      (transactionsOf (attached.map (·.2))).foldlM (acceptTx c b.params) keyView =
        .ok keyView' := by
  induction nodes generalizing utxoView keyView attached with
  | nil =>
    cases h
    exact ⟨trivial, rfl, rfl, rfl⟩
  | cons node nodes ih =>
    unfold verifyBlocks at h
    obtain ⟨block, hfetch, h⟩ := bind_eq_ok.mp h
    obtain ⟨s, hs, h⟩ := bind_eq_ok.mp h
    obtain ⟨⟨rest, keyView₁⟩, hrest, h⟩ := bind_eq_ok.mp h
    cases h
    obtain ⟨hlinked, hnodes, hblocks, haccept⟩ := ih hrest
    have hkeys := checkConnectBlock_keys hs
    obtain ⟨view, s₀, hload, -, -, rfl⟩ := checkConnectBlock_ok hs
    refine ⟨⟨(loadInputs_bestHash hload).symm, hlinked⟩, ?_, ?_, ?_⟩
    · rw [map_cons, hnodes]
    · rw [map_cons, map_cons, hblocks]
      exact (blocksOf_cons (fetchBlock_ok hfetch) _).symm
    · unfold transactionsOf at haccept ⊢
      rw [map_cons, flatMap_cons]
      exact foldlM_append_eq_ok.mpr ⟨_, hkeys, haccept⟩

theorem detachBlocks_ok {b' : BlockChain} {ds : List Detached} {utxoView' : UtxoViewpoint}
    (h : detachBlocks c ds utxoView b = .ok utxoView' b') :
    b'.params = b.params ∧ b'.noVerify = b.noVerify ∧ b'.index = b.index ∧
      b'.db.blocks = b.db.blocks ∧ b'.keys = b.keys := by
  induction ds generalizing utxoView b with
  | nil =>
    obtain ⟨-, rfl⟩ := run_pure_eq_ok.mp h
    exact ⟨rfl, rfl, rfl, rfl, rfl⟩
  | cons d ds ih =>
    unfold detachBlocks at h
    rw [run_get_bind] at h
    obtain ⟨view, m, hlift, h⟩ := run_bind_eq_ok.mp h
    obtain ⟨-, rfl⟩ := liftRule_eq_ok.mp hlift
    obtain ⟨view', m, hdisconnect, h⟩ := run_bind_eq_ok.mp h
    obtain ⟨hparams, hverify, hindex, hblocks, hkeys⟩ := disconnectBlock_ok hdisconnect
    obtain ⟨hparams', hverify', hindex', hblocks', hkeys'⟩ := ih h
    exact ⟨hparams'.trans hparams, hverify'.trans hverify, hindex'.trans hindex,
      hblocks'.trans hblocks, hkeys'.trans hkeys⟩

/-- The attaching pass applies the transactions to the key view it is given, puts the nodes into the
index and ends at the last one. -/
theorem attachBlocks_ok {b' : BlockChain} {attached : List (BlockNode × MsgBlock)}
    (hne : attached ≠ []) (h : attachBlocks c attached utxoView keyView b = .ok () b') :
    b'.params = b.params ∧ b'.noVerify = b.noVerify ∧ b'.db.blocks = b.db.blocks ∧
      b'.index = attached.foldl (fun (index : Hash → Option BlockNode) p => update index p.1.hash (some p.1)) b.index ∧
      (attached.map (·.1)).getLast? = some b'.bestNode ∧
      b'.keys = (transactionsOf (attached.map (·.2))).foldl (afterTx c) keyView := by
  induction attached generalizing b utxoView keyView with
  | nil => exact absurd rfl hne
  | cons p rest ih =>
    obtain ⟨node, block⟩ := p
    unfold attachBlocks at h
    rw [run_get_bind] at h
    obtain ⟨⟨view, stxos⟩, m, hlift, h⟩ := run_bind_eq_ok.mp h
    obtain ⟨-, rfl⟩ := liftRule_eq_ok.mp hlift
    obtain ⟨keyView₁, m, hlift', h⟩ := run_bind_eq_ok.mp h
    obtain ⟨hkeys, rfl⟩ := liftRule_eq_ok.mp hlift'
    obtain ⟨view', m, hconnect, h⟩ := run_bind_eq_ok.mp h
    obtain ⟨-, -, rfl⟩ := connectBlock_ok hconnect
    have hkeys₁ : keyView₁ = block.transactions.foldl (afterTx c) keyView :=
      foldlM_eq_foldl (fun tx _ s t h => connectTransaction_ok h) hkeys
    cases hrest : rest with
    | nil =>
      rw [hrest] at h
      obtain ⟨-, rfl⟩ := run_pure_eq_ok.mp h
      refine ⟨rfl, rfl, rfl, rfl, rfl, ?_⟩
      simp [transactionsOf, hkeys₁]
    | cons p' rest' =>
      obtain ⟨hparams, hverify, hblocks, hindex, hlast, hkeys'⟩ := ih (by simp [hrest]) h
      rw [← hrest]
      refine ⟨hparams, hverify, hblocks, hindex, ?_, ?_⟩
      · rw [map_cons, getLast?_cons, hlast, Option.getD_some]
      · rw [hkeys', hkeys₁]
        unfold transactionsOf
        rw [map_cons, flatMap_cons, foldl_append]

theorem reorganizeChain_ok {b' : BlockChain} {detachNodes attachNodes : List BlockNode}
    {flags : BehaviorFlags} (hdry : flags.dryRun = false)
    (h : reorganizeChain c detachNodes attachNodes flags b = .ok () b') :
    detachNodes ≠ [] ∧ attachNodes ≠ [] ∧ ∃ ds utxoView undone attached verified,
      undoBlocks c b detachNodes (newUtxoViewpoint b.bestNode.hash) b.keys = .ok (ds, utxoView, undone) ∧
      verifyBlocks c b attachNodes utxoView undone = .ok (attached, verified) ∧
      b'.params = b.params ∧ b'.db.blocks = b.db.blocks ∧
      b'.index = attached.foldl (fun (index : Hash → Option BlockNode) p => update index p.1.hash (some p.1)) b.index ∧
      attachNodes.getLast? = some b'.bestNode ∧
      b'.keys = (transactionsOf (attached.map (·.2))).foldl (afterTx c) verified := by
  unfold reorganizeChain at h
  rw [run_get_bind] at h
  obtain ⟨⟨ds, utxoView, undone⟩, m, hlift, h⟩ := run_bind_eq_ok.mp h
  obtain ⟨hundo, rfl⟩ := liftRule_eq_ok.mp hlift
  obtain ⟨⟨attached, verified⟩, m, hlift', h⟩ := run_bind_eq_ok.mp h
  obtain ⟨hverify, rfl⟩ := liftRule_eq_ok.mp hlift'
  simp only [hdry, Bool.false_eq_true, if_false] at h
  obtain ⟨utxoView', m, hdetach, h⟩ := run_bind_eq_ok.mp h
  obtain ⟨⟨⟩, m', hattach, h⟩ := run_bind_eq_ok.mp h
  obtain ⟨hpanic, rfl⟩ := liftRule_eq_ok.mp h
  obtain ⟨hne, hne'⟩ := not_or.mp (reject_eq_ok.mp hpanic)
  obtain ⟨-, hnodes, -, -⟩ := verifyBlocks_ok hverify
  have hattached : attached ≠ [] := by
    rintro rfl
    exact hne' hnodes.symm
  obtain ⟨hparams, -, hindex, hblocks, -⟩ := detachBlocks_ok hdetach
  obtain ⟨hparams', -, hblocks', hindex', hlast, hkeys⟩ := attachBlocks_ok hattached hattach
  exact ⟨hne, hne', ds, utxoView, undone, attached, verified, hundo, hverify,
    hparams'.trans hparams, hblocks'.trans hblocks, hindex ▸ hindex', hnodes ▸ hlast, hkeys⟩

/-! ### The index -/

/-- The block index and the stored blocks fit together: every node but a first one has its parent in
the index and its block in the database. -/
structure IndexOk (c : Crypto) (index : Hash → Option BlockNode) (blocks : Hash → Option MsgBlock) :
    Prop where
  hash : ∀ {h n}, index h = some n → n.hash = h
  nonzero : ∀ {h n}, index h = some n → h ≠ 0
  parent : ∀ {h n}, index h = some n → n.ancestors ≠ [] →
    ∃ p block, n.parent = some p ∧ index n.parentHash = some p ∧ blocks h = some block ∧
      block.header.prevBlock = n.parentHash
  stored : ∀ {h block}, blocks h = some block → block.blockHash c = h ∧ (index h).isSome

section Index

variable {index : Hash → Option BlockNode} {blocks : Hash → Option MsgBlock}

theorem IndexOk.insert (hok : IndexOk c index blocks) {p : BlockNode}
    (hp : index block.header.prevBlock = some p) (hnew : index (block.blockHash c) = none)
    (hzero : block.blockHash c ≠ 0) : IndexOk c
      (update index (block.blockHash c) (some (newBlockNode c block.header (some p))))
      (update blocks (block.blockHash c) (some block)) := by
  -- the old nodes and their parents are other ones than the new node
  have hne : ∀ {h n}, index h = some n → h ≠ block.blockHash c := by
    rintro h n hn rfl
    rw [hnew] at hn
    cases hn
  refine ⟨?_, ?_, ?_, ?_⟩
  · intro h n hn
    by_cases heq : h = block.blockHash c
    · subst heq
      rw [update_self] at hn
      cases hn
      rfl
    · rw [update_of_ne heq] at hn
      exact hok.hash hn
  · intro h n hn
    by_cases heq : h = block.blockHash c
    · exact heq ▸ hzero
    · rw [update_of_ne heq] at hn
      exact hok.nonzero hn
  · intro h n hn hanc
    by_cases heq : h = block.blockHash c
    · subst heq
      rw [update_self] at hn
      cases hn
      refine ⟨p, block, rfl, ?_, update_self .., rfl⟩
      exact (update_of_ne (hne hp) ..).trans hp
    · rw [update_of_ne heq] at hn
      obtain ⟨q, blk, hparent, hq, hblk, hprev⟩ := hok.parent hn hanc
      refine ⟨q, blk, hparent, ?_, ?_, hprev⟩
      · exact (update_of_ne (hne hq) ..).trans hq
      · exact (update_of_ne heq ..).trans hblk
  · intro h blk hblk
    by_cases heq : h = block.blockHash c
    · subst heq
      rw [update_self] at hblk
      cases hblk
      exact ⟨rfl, by rw [update_self]; rfl⟩
    · rw [update_of_ne heq] at hblk
      rw [update_of_ne heq]
      exact hok.stored hblk

theorem IndexOk.drop (hok : IndexOk c index blocks) {n : BlockNode} (hn : index n.hash = some n)
    {i : Nat} (hi : i < n.chain.length) : ∃ m, m.chain = n.chain.drop i ∧ index m.hash = some m := by
  induction i with
  | zero => exact ⟨n, rfl, hn⟩
  | succ i ih =>
    obtain ⟨m, hchain, hm⟩ := ih (by omega)
    have hanc : m.ancestors = n.chain.drop (i + 1) := by
      rw [← tail_drop, ← hchain]
      rfl
    have hne : m.ancestors ≠ [] := by
      rw [hanc]
      simpa using hi
    obtain ⟨p, -, hparent, hp, -, -⟩ := hok.parent hm hne
    exact ⟨p, (BlockNode.ancestors_of_parent hparent).symm.trans hanc, (hok.hash hp).symm ▸ hp⟩

theorem IndexOk.meet (hok : IndexOk c index blocks) {n m : BlockNode} (hn : index n.hash = some n)
    (hm : index m.hash = some m) (hparent : n.parentHash = m.parentHash)
    (hnanc : n.ancestors ≠ []) (hmanc : m.ancestors ≠ []) : n.ancestors = m.ancestors := by
  obtain ⟨p, -, hp, hpindex, -, -⟩ := hok.parent hn hnanc
  obtain ⟨q, -, hq, hqindex, -, -⟩ := hok.parent hm hmanc
  rw [hparent, hqindex] at hpindex
  cases hpindex
  rw [BlockNode.ancestors_of_parent hp, BlockNode.ancestors_of_parent hq]

end Index

end BlockChain

end Prova
