import Prova.Blockchain.MainChain

/-!
# Accepting a block

The cases of a successful `ProcessBlock` on a chain whose index is in order: the block waits for its
parent, extends the main chain, stays on a side chain, or makes its side chain the main one. A dry
run accepts nothing and is left out.
-/

namespace Prova

open List Function

theorem BlockNode.chain_inj {x y : BlockNode} (h : x.chain = y.chain) : x = y := by
  obtain ⟨x, xs⟩ := x
  obtain ⟨y, ys⟩ := y
  cases h
  rfl

theorem topNodes_getLast {k : Nat} {chain : List NodeData} (hk : k < chain.length) :
    ∃ last, (topNodes (k + 1) chain).getLast? = some last ∧ last.chain = chain.drop k := by
  induction k generalizing chain with
  | zero =>
    cases chain with
    | nil => cases hk
    | cons node above => exact ⟨⟨node, above⟩, rfl, rfl⟩
  | succ k ih =>
    cases chain with
    | nil => cases hk
    | cons node above =>
      obtain ⟨last, hlast, hchain⟩ := ih (Nat.lt_of_succ_lt_succ hk)
      refine ⟨last, ?_, hchain⟩
      rw [topNodes, getLast?_cons, hlast]
      rfl

theorem mem_topNodes {k : Nat} {chain : List NodeData} {node : BlockNode}
    (h : node ∈ topNodes k chain) : ∃ i < chain.length, node.chain = chain.drop i := by
  induction k generalizing chain with
  | zero => cases h
  | succ k ih =>
    cases chain with
    | nil => cases h
    | cons first above =>
      rcases mem_cons.mp h with rfl | h
      · exact ⟨0, Nat.zero_lt_succ _, rfl⟩
      · obtain ⟨i, hi, hchain⟩ := ih h
        exact ⟨i + 1, Nat.succ_lt_succ hi, hchain⟩

theorem topNodes_eq_nil {k : Nat} {chain : List NodeData} (hk : k < chain.length) : topNodes k chain = [] ↔ k = 0 := by
  cases k with
  | zero => simp [topNodes]
  | succ k =>
    cases chain with
    | nil => cases hk
    | cons node above => simp [topNodes]

namespace BlockChain

variable {c : Crypto}

/-- A chain whose index is in order and whose best node is in it. -/
structure ChainOk (c : Crypto) (b : BlockChain) : Prop extends IndexOk c b.index b.db.blocks where
  best : b.index b.bestNode.hash = some b.bestNode

theorem createChainState_index (params : Params) (noVerify : Bool) :
    (createChainState c params noVerify).index = update (fun _ => none)
      (params.genesisHash c) (some (newBlockNode c params.genesisBlock.header none)) := rfl

theorem createChainState_blocks (params : Params) (noVerify : Bool) :
    (createChainState c params noVerify).db.blocks = update (fun _ => none)
      (params.genesisHash c) (some params.genesisBlock) := rfl

theorem chainOk_createChainState {params : Params} {noVerify : Bool}
    (hzero : params.genesisHash c ≠ 0) : ChainOk c (createChainState c params noVerify) := by
  have hindex : ∀ {h n}, (createChainState c params noVerify).index h = some n →
      h = params.genesisHash c ∧ n = newBlockNode c params.genesisBlock.header none := by
    intro h n hn
    rw [createChainState_index, update_apply] at hn
    split at hn
    · next heq => exact ⟨heq, (Option.some.inj hn).symm⟩
    · cases hn
  refine ⟨⟨?_, ?_, ?_, ?_⟩, ?_⟩
  · intro h n hn
    obtain ⟨rfl, rfl⟩ := hindex hn
    rfl
  · intro h n hn
    exact (hindex hn).1 ▸ hzero
  · intro h n hn hanc
    obtain ⟨-, rfl⟩ := hindex hn
    exact absurd rfl hanc
  · intro h block hblock
    rw [createChainState_blocks, update_apply] at hblock
    split at hblock
    · next heq =>
      cases hblock
      subst heq
      exact ⟨rfl, by rw [createChainState_index, update_self]; rfl⟩
    · cases hblock
  · rw [createChainState_index]
    exact update_self ..

/-- Two tops of the main chain and of the new one that a reorganization exchanges: `k` nodes are
detached and `j` attached. -/
structure Reorganized (c : Crypto) (b : BlockChain) (node : BlockNode) (b' : BlockChain)
    (k j : Nat) : Prop where
  side : node.parentHash ≠ b.bestNode.hash
  work : b.bestNode.workSum < node.workSum
  nodes : (b.addSideNode node).getReorganizeNodes node =
    (topNodes k b.bestNode.chain, (topNodes j node.chain).reverse)
  detached : k < b.bestNode.chain.length
  attached : j < node.chain.length
  meet : node.chain.drop j = b.bestNode.chain.drop k
  bestNode : b'.bestNode = node
  keys : ∃ m utxoView verified attached, m.params = b.params ∧
    verifyBlocks c m (topNodes j node.chain).reverse utxoView
      ((transactionsOf (b'.blocksOf (b.bestNode.chain.take k).reverse)).reverse.foldl
        KeyViewpoint.beforeTx b.keys) = .ok (attached, verified) ∧
    attached.map (·.2) = b'.blocksOf (node.chain.take j).reverse ∧
    b'.keys = (transactionsOf (b'.blocksOf (node.chain.take j).reverse)).foldl
      (KeyViewpoint.afterTx c) verified

theorem getReorganizeNodes_eq (b : BlockChain) (node : BlockNode) :
    ∃ k j, k < b.bestNode.chain.length ∧ j < node.chain.length ∧ b.getReorganizeNodes node =
        (topNodes k b.bestNode.chain, (topNodes j node.chain).reverse) := by
  unfold getReorganizeNodes
  obtain ⟨j, hj, hattach⟩ := attachPath_eq b.inMainChain node.toNodeData node.ancestors []
  obtain ⟨k, hk, hdetach⟩ := detachPath_eq
    (attachPath b.inMainChain node.toNodeData node.ancestors []).2.hash b.bestNode.toNodeData
    b.bestNode.ancestors
  refine ⟨k, j, Nat.lt_succ_of_le hk, Nat.lt_succ_of_le hj, ?_⟩
  rw [append_nil] at hattach
  exact Prod.ext hdetach hattach

private theorem foldl_update_self {index : Hash → Option BlockNode} {attached : List (BlockNode × MsgBlock)}
    (h : ∀ p ∈ attached, index p.1.hash = some p.1) : attached.foldl (fun (index : Hash → Option BlockNode) p =>
      update index p.1.hash (some p.1)) index = index := by
  induction attached with
  | nil => rfl
  | cons p rest ih =>
    rw [forall_mem_cons] at h
    rw [foldl_cons, ← h.1, update_eq_self]
    exact ih h.2

theorem IndexOk.lowest {index : Hash → Option BlockNode} {blocks : Hash → Option MsgBlock}
    (hok : IndexOk c index blocks) {n : BlockNode} (hn : index n.hash = some n) {k : Nat}
    (hk : k + 1 < n.chain.length) : ∃ d, (topNodes (k + 1) n.chain).getLast? = some d ∧ index d.hash = some d ∧
      d.ancestors = n.chain.drop (k + 1) ∧ d.ancestors ≠ [] := by
  obtain ⟨d, hd, hchain⟩ := topNodes_getLast (show k < n.chain.length by omega)
  obtain ⟨d', hchain', hindex⟩ := hok.drop hn (i := k) (by omega)
  obtain rfl : d' = d := BlockNode.chain_inj (hchain'.trans hchain.symm)
  have hanc : d'.ancestors = n.chain.drop (k + 1) := by
    rw [← tail_drop, ← hchain]
    rfl
  refine ⟨d', hd, hindex, hanc, ?_⟩
  rw [hanc]
  simpa using hk

theorem reorganized_of_ok {b b' : BlockChain} {node : BlockNode} {flags : BehaviorFlags}
    (hok : ChainOk c b) (hnode : b.index node.hash = some node) (hdry : flags.dryRun = false)
    (h : reorganizeChain c (b.getReorganizeNodes node).1 (b.getReorganizeNodes node).2 flags b = .ok () b') :
    b'.params = b.params ∧ b'.index = b.index ∧ b'.db.blocks = b.db.blocks ∧
      ∃ k j, k < b.bestNode.chain.length ∧ j < node.chain.length ∧
        b.getReorganizeNodes node = (topNodes k b.bestNode.chain, (topNodes j node.chain).reverse) ∧
        node.chain.drop j = b.bestNode.chain.drop k ∧ b'.bestNode = node ∧ ∃ utxoView verified attached,
          verifyBlocks c b (topNodes j node.chain).reverse utxoView
            ((transactionsOf (b.blocksOf (b.bestNode.chain.take k).reverse)).reverse.foldl
              KeyViewpoint.beforeTx b.keys) = .ok (attached, verified) ∧
          attached.map (·.2) = b.blocksOf (node.chain.take j).reverse ∧
          b'.keys = (transactionsOf (b.blocksOf (node.chain.take j).reverse)).foldl
            (KeyViewpoint.afterTx c) verified := by
  obtain ⟨k, j, hk, hj, hnodes⟩ := getReorganizeNodes_eq b node
  simp only [hnodes] at h
  obtain ⟨hdne, hane, ds, utxoView, undone, attached, verified, hundo, hverify, hparams, hblocks,
    hindex, hlast, hkeys⟩ := reorganizeChain_ok hdry h
  obtain ⟨-, hundone, hbest⟩ := undoBlocks_ok hundo
  obtain ⟨hlinked, hattached, hattachedBlocks, -⟩ := verifyBlocks_ok hverify
  rw [topNodes_data] at hundone
  rw [map_reverse, topNodes_data] at hlinked hattachedBlocks
  obtain ⟨k, rfl⟩ := Nat.exists_eq_succ_of_ne_zero fun h0 => hdne ((topNodes_eq_nil hk).mpr h0)
  obtain ⟨j, rfl⟩ := Nat.exists_eq_succ_of_ne_zero fun h0 =>
    hane (by rw [(topNodes_eq_nil hj).mpr h0]; rfl)
  -- the lowest node that was detached and the lowest one that was attached have one parent
  obtain ⟨d, hd, hdindex, hdanc, hdne'⟩ := hok.lowest hok.best hk
  obtain ⟨a, ha, haindex, haanc, hane'⟩ := hok.lowest hnode hj
  obtain ⟨block, hblock, hprev⟩ := hbest d hd
  obtain ⟨-, block', -, -, hblock', hprev'⟩ := hok.parent hdindex hdne'
  cases hblock.symm.trans hblock'
  have hparent : a.parentHash = d.parentHash := by
    have hfirst : (node.chain.take (j + 1)).reverse.head? = some a.toNodeData := by
      rw [head?_reverse, ← topNodes_data, getLast?_map, ha]
      rfl
    obtain ⟨rest, hrest⟩ := head?_eq_some_iff.mp hfirst
    rw [Nat.succ_eq_add_one, hrest] at hlinked
    rw [hlinked.1, hprev, hprev']
  have hmeet := hok.meet haindex hdindex hparent hane' hdne'
  rw [haanc, hdanc] at hmeet
  have hbestNode : b'.bestNode = node := by
    rw [getLast?_reverse] at hlast
    exact (Option.some.inj hlast).symm
  have hindex' : b'.index = b.index := by
    rw [hindex]
    refine foldl_update_self fun p hp => ?_
    have hmem : p.1 ∈ topNodes (j + 1) node.chain := by
      rw [← mem_reverse, ← Nat.succ_eq_add_one, ← hattached]
      exact mem_map_of_mem hp
    obtain ⟨i, hi, hichain⟩ := mem_topNodes hmem
    obtain ⟨q, hqchain, hq⟩ := hok.drop hnode hi
    obtain rfl : q = p.1 := BlockNode.chain_inj (hqchain.trans hichain.symm)
    exact hq
  rw [hundone] at hverify
  exact ⟨hparams, hindex', hblocks, k + 1, j + 1, hk, hj, hnodes, hmeet, hbestNode, utxoView,
    verified, attached, hverify, hattachedBlocks, hattachedBlocks ▸ hkeys⟩

/-! ### The cases -/

/-- A block that `ProcessBlock` accepts. It does not hash to zero, which stands for no block. -/
structure Accepted (c : Crypto) (b : BlockChain) (block : MsgBlock) (flags : BehaviorFlags)
    (b' : BlockChain) : Prop where
  run : ∃ r, processBlock c block flags b = .ok r b'
  notDry : flags.dryRun = false
  nonzero : block.blockHash c ≠ 0

theorem accepted_afterBlock {b : BlockChain} {block : MsgBlock} {r : Bool}
    (hok : okValue (processBlock c block bfNone b) = some r) (hnonzero : block.blockHash c ≠ 0) :
    Accepted c b block bfNone (afterBlock c b block) :=
  ⟨⟨r, eq_ok_of_okValue hok⟩, rfl, hnonzero⟩

structure Inserted (c : Crypto) (b : BlockChain) (block : MsgBlock) (flags : BehaviorFlags)
    (p : BlockNode) (b' : BlockChain) : Prop where
  prev : b.index block.header.prevBlock = some p
  new : b.index (block.blockHash c) = none
  context : ∃ height, checkBlockContext c b.params height block (some p) flags = .ok ()
  params : b'.params = b.params
  index : b'.index = Function.update b.index (block.blockHash c)
    (some (newBlockNode c block.header (some p)))
  blocks : b'.db.blocks = Function.update b.db.blocks (block.blockHash c) (some block)

def Extended (c : Crypto) (b : BlockChain) (block : MsgBlock) (flags : BehaviorFlags)
    (b' : BlockChain) : Prop :=
  if flags.fastAdd then b.keys.connectTransactions c block = .ok b'.keys
  else ∃ s, checkConnectBlock c b.env (newBlockNode c block.header (some b.bestNode)) block
    (newUtxoViewpoint block.header.prevBlock) b.keys = .ok s ∧ b'.keys = s.keyView

section Cases

variable {b b' : BlockChain} {block : MsgBlock} {flags : BehaviorFlags}

theorem extended_of_ok {m : BlockChain} {p : BlockNode} (hok : ChainOk c b)
    (hprep : Prepared c b block (some p) m) (hp : b.index block.header.prevBlock = some p)
    (hindex : m.index = b.index) (hparent : block.header.prevBlock = b.bestNode.hash) (hdry : flags.dryRun = false)
    (h : extendMainChain c (newBlockNode c block.header (some p)) block flags m = .ok () b') :
    p = b.bestNode ∧ b'.bestNode = newBlockNode c block.header (some p) ∧
      Extended c b block flags b' ∧ b'.params = b.params ∧ b'.index = update b.index (block.blockHash c)
        (some (newBlockNode c block.header (some p))) ∧
      b'.db.blocks = update b.db.blocks (block.blockHash c) (some block) := by
  obtain rfl : b.bestNode = p := by
    rw [hparent, hok.best] at hp
    exact Option.some.inj hp
  unfold Extended
  cases hfast : flags.fastAdd with
  | true =>
    have hext := extendMainChain_fast hfast h
    rw [hdry] at hext
    obtain ⟨view, keyView, stxos, view', hkeys, hconnect⟩ := hext
    obtain ⟨-, -, rfl⟩ := connectBlock_ok hconnect
    rw [hprep.keys] at hkeys
    exact ⟨rfl, rfl, hkeys, hprep.params, by rw [hindex]; rfl, by rw [hprep.db]⟩
  | false =>
    obtain ⟨s, hs, hext⟩ := extendMainChain_ok hfast h
    rw [hdry] at hext
    obtain ⟨view, hconnect⟩ := hext
    obtain ⟨-, -, rfl⟩ := connectBlock_ok hconnect
    rw [hprep.env, hprep.keys] at hs
    exact ⟨rfl, rfl, ⟨s, hs, rfl⟩, hprep.params, by rw [hindex]; rfl, by rw [hprep.db]⟩

theorem Accepted.cases (hok : ChainOk c b) (h : Accepted c b block flags b') :
    (b'.params = b.params ∧ b'.index = b.index ∧ b'.db.blocks = b.db.blocks ∧
        b'.bestNode = b.bestNode ∧ b'.keys = b.keys) ∨ ∃ p, Inserted c b block flags p b' ∧
        ((b'.bestNode = b.bestNode ∧ b'.keys = b.keys) ∨
          (p = b.bestNode ∧ b'.bestNode = newBlockNode c block.header (some p) ∧ Extended c b block flags b') ∨
          ∃ k j, Reorganized c b (newBlockNode c block.header (some p)) b' k j) := by
  obtain ⟨⟨r, hrun⟩, hdry, hzero⟩ := h
  obtain ⟨hnew, -, -, ⟨-, x, y, rfl⟩ | ⟨prevNode, m, height, hprep, hcontext, hconnect⟩⟩ :=
    processBlock_ok hrun
  · exact .inl ⟨rfl, rfl, rfl, rfl, rfl⟩
  right
  obtain ⟨hprev, rfl, -, -⟩ | ⟨p, rfl, hp, hindex, hmain⟩ | ⟨n, blk, parent, -, hnone, hblk, -⟩ :=
    hprep.index
  · -- without a parent the new node would have to extend a block that hashes to zero
    obtain ⟨hparent, -⟩ | ⟨-, hanc, -⟩ | ⟨-, hanc, -⟩ := connectBestChain_ok hconnect
    · rw [hprep.bestNode] at hparent
      exact absurd (hparent.symm.trans hprev) (hok.nonzero hok.best)
    · exact absurd rfl hanc
    · exact absurd rfl hanc
  · refine ⟨p, ?_⟩
    have hne : ∀ {h n}, b.index h = some n → h ≠ block.blockHash c := by
      rintro h n hn rfl
      rw [hnew] at hn
      cases hn
    obtain ⟨hparent, hext⟩ | ⟨-, -, hside⟩ | ⟨hparent, -, hwork, hreorg⟩ :=
      connectBestChain_ok hconnect
    · rw [hprep.bestNode] at hparent
      obtain ⟨hbest, hbest', hext', hparams, hindex', hblocks⟩ :=
        extended_of_ok hok hprep hp hindex hparent hdry hext
      exact ⟨⟨hp, hnew, ⟨height, hcontext⟩, hparams, hindex', hblocks⟩, .inr (.inl ⟨hbest, hbest', hext'⟩)⟩
    · rw [hdry] at hside
      subst hside
      refine ⟨⟨hp, hnew, ⟨height, hcontext⟩, hprep.params, ?_, ?_⟩, .inl ⟨hprep.bestNode, hprep.keys⟩⟩
      · change update m.index _ _ = _
        rw [hindex]
        rfl
      · change m.db.blocks = _
        rw [hprep.db]
    · simp only [hdry, Bool.false_eq_true, if_false] at hreorg
      set node := newBlockNode c block.header (some p) with hnodedef
      have hsideIndex : (m.addSideNode node).index =
          update b.index (block.blockHash c) (some node) := by
        change update m.index _ _ = _
        rw [hindex]
        rfl
      have hsideBlocks : (m.addSideNode node).db.blocks =
          update b.db.blocks (block.blockHash c) (some block) := by
        change m.db.blocks = _
        rw [hprep.db]
      have hsideOk : ChainOk c (m.addSideNode node) := by
        refine ⟨?_, ?_⟩
        · rw [hsideIndex, hsideBlocks]
          exact hok.insert hp hnew hzero
        · have hbestNode : (m.addSideNode node).bestNode = b.bestNode := hprep.bestNode
          rw [hsideIndex, hbestNode, update_of_ne (hne hok.best), hok.best]
      have hsideNode : (m.addSideNode node).index node.hash = some node := by
        rw [hsideIndex]
        exact update_self ..
      have hsame : (m.addSideNode node).getReorganizeNodes node =
          (b.addSideNode node).getReorganizeNodes node := by
        unfold getReorganizeNodes addSideNode setInMainChain setIndex
        rw [hmain, hprep.bestNode]
      obtain ⟨hparams, hindex', hblocks, k, j, hk, hj, hnodes, hmeet, hbest, utxoView, verified,
        attached, hverify, hattached, hkeys⟩ := reorganized_of_ok hsideOk hsideNode hdry hreorg
      have hbestNode : (m.addSideNode node).bestNode = b.bestNode := hprep.bestNode
      have hsideKeys : (m.addSideNode node).keys = b.keys := hprep.keys
      have hblocksOf : b'.blocksOf = (m.addSideNode node).blocksOf := by
        unfold blocksOf
        rw [hblocks]
      rw [hbestNode] at hk hnodes hmeet hverify
      rw [hsideKeys] at hverify
      rw [hprep.bestNode] at hparent hwork
      refine ⟨⟨hp, hnew, ⟨height, hcontext⟩, hparams.trans hprep.params, hindex'.trans hsideIndex,
        hblocks.trans hsideBlocks⟩, .inr (.inr ⟨k, j, hparent, hwork, hsame ▸ hnodes, hk, hj, hmeet, hbest, ?_⟩)⟩
      rw [hblocksOf]
      exact ⟨m.addSideNode node, utxoView, verified, attached, hprep.params, hverify, hattached, hkeys⟩
  · have hsome := (hok.stored hblk).2
    rw [hnone] at hsome
    cases hsome

theorem Inserted.chainOk {p : BlockNode} (hok : ChainOk c b) (h : Inserted c b block flags p b')
    (hzero : block.blockHash c ≠ 0)
    (hbest : b'.bestNode = b.bestNode ∨ b'.bestNode = newBlockNode c block.header (some p)) : ChainOk c b' := by
  refine ⟨?_, ?_⟩
  · rw [h.index, h.blocks]
    exact hok.insert h.prev h.new hzero
  · rw [h.index]
    rcases hbest with hbest | hbest
    · have hne : b.bestNode.hash ≠ block.blockHash c := fun heq => by
        have hsome := hok.best
        rw [heq, h.new] at hsome
        cases hsome
      rw [hbest, update_of_ne hne]
      exact hok.best
    · rw [hbest]
      exact update_self ..

theorem Accepted.chainOk (hok : ChainOk c b) (h : Accepted c b block flags b') : ChainOk c b' := by
  obtain ⟨-, hindex, hblocks, hbest, -⟩ | ⟨p, hins, ⟨hbest, -⟩ | ⟨-, hbest, -⟩ | ⟨k, j, hre⟩⟩ :=
    h.cases hok
  · refine ⟨?_, ?_⟩
    · rw [hindex, hblocks]
      exact hok.toIndexOk
    · rw [hindex, hbest]
      exact hok.best
  · exact hins.chainOk hok h.nonzero (.inl hbest)
  · exact hins.chainOk hok h.nonzero (.inr hbest)
  · exact hins.chainOk hok h.nonzero (.inr hre.bestNode)

end Cases

end BlockChain

end Prova
