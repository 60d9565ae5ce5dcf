import Prova.Blockchain.AdminState
import Prova.Blockchain.Reorganize

/-!
# Runs of accepted blocks

The admin state in memory should be what the transactions of the main chain lead to from genesis. For
the keys it always is, through any reorganizations. The counters are right as long as every
reorganization exchanges its blocks without a trace.
-/

namespace Prova

namespace BlockChain

open List

variable {c : Crypto}

/-! ### Runs of accepted blocks -/

/-- The states that accepted blocks lead to, each of them meeting a condition on the block and the
state it finds. -/
inductive AcceptRun (c : Crypto) (params : Params) (noVerify : Bool)
    (cond : BlockChain → MsgBlock → BehaviorFlags → Prop) : BlockChain → Prop
  | genesis : AcceptRun c params noVerify cond (createChainState c params noVerify)
  | step {b b' : BlockChain} {block : MsgBlock} {flags : BehaviorFlags} :
    AcceptRun c params noVerify cond b → cond b block flags → Accepted c b block flags b' →
      AcceptRun c params noVerify cond b'

def foldKeys (c : Crypto) (params : Params) (blocks : List MsgBlock) : KeyViewpoint :=
  (transactionsOf blocks).foldl (KeyViewpoint.afterTx c) (genesisKeys c params)

theorem transactionsOf_append (xs ys : List MsgBlock) :
    transactionsOf (xs ++ ys) = transactionsOf xs ++ transactionsOf ys := flatMap_append

theorem foldKeys_append (params : Params) (xs ys : List MsgBlock) : foldKeys c params (xs ++ ys) =
      (transactionsOf ys).foldl (KeyViewpoint.afterTx c) (foldKeys c params xs) := by
  unfold foldKeys
  rw [transactionsOf_append, foldl_append]

section Blocks

variable {b b' : BlockChain} {block : MsgBlock} {flags : BehaviorFlags} {p : BlockNode}

theorem IndexOk.mem_chain {index : Hash → Option BlockNode} {blocks : Hash → Option MsgBlock}
    (hok : IndexOk c index blocks) {n : BlockNode} (hn : index n.hash = some n) {data : NodeData}
    (hdata : data ∈ n.chain) : (index data.hash).isSome := by
  obtain ⟨i, hi, rfl⟩ := mem_iff_getElem.mp hdata
  obtain ⟨m, hchain, hm⟩ := hok.drop hn hi
  rw [drop_eq_getElem_cons hi] at hchain
  have hhead : m.toNodeData = n.chain[i] := (List.cons.inj hchain).1
  rw [← hhead, hm]
  rfl

theorem Inserted.blocksOf (hok : ChainOk c b) (hins : Inserted c b block flags p b')
    {n : BlockNode} (hn : b.index n.hash = some n) {nodes : List NodeData} (hsub : nodes ⊆ n.chain) :
    b'.blocksOf nodes = b.blocksOf nodes := by
  unfold BlockChain.blocksOf
  refine filterMap_congr fun data hdata => ?_
  have hne : data.hash ≠ block.blockHash c := fun heq => by
    have hsome := hok.mem_chain hn (hsub hdata)
    rw [heq, hins.new] at hsome
    cases hsome
  rw [hins.blocks, Function.update_of_ne hne]

theorem Inserted.branchBlocks (hok : ChainOk c b) (hins : Inserted c b block flags p b')
    {n : BlockNode} (hn : b.index n.hash = some n) (k : Nat) :
    b'.branchBlocks (n.chain.drop k) = b.branchBlocks (n.chain.drop k) := by
  refine hins.blocksOf hok hn fun data hdata => ?_
  exact mem_of_mem_drop (mem_of_mem_dropLast (mem_reverse.mp hdata))

theorem Inserted.branchBlocks_new (hok : ChainOk c b) (hins : Inserted c b block flags p b') :
    b'.branchBlocks (newBlockNode c block.header (some p)).chain = b.branchBlocks p.chain ++ [block] := by
  have hp : b.index p.hash = some p := (hok.hash hins.prev).symm ▸ hins.prev
  have hblock : b'.db.blocks (newBlockNode c block.header (some p)).hash = some block := by
    rw [hins.blocks]
    exact Function.update_self ..
  rw [branchBlocks_split b' (k := 1) (by simp [BlockNode.chain, newBlockNode])]
  congr 1
  · exact hins.branchBlocks hok hp 0
  · exact blocksOf_cons hblock []

end Blocks

/-! ### The keys -/

def Readable (c : Crypto) (tx : MsgTx) : Prop :=
  ∀ view : KeyViewpoint, view.connectTransaction c tx = .ok (view.afterTx c tx)

theorem readable_of_ok {view view' : KeyViewpoint} {tx : MsgTx}
    (h : view.connectTransaction c tx = .ok view') : Readable c tx := by
  intro u
  suffices hok : ∃ u', u.connectTransaction c tx = .ok u' by
    obtain ⟨u', hu'⟩ := hok
    rw [hu', KeyViewpoint.connectTransaction_ok hu']
  unfold KeyViewpoint.connectTransaction KeyViewpoint.processAdminOuts at h ⊢
  rcases hdet : getAdminDetails tx with _ | ⟨t, outs⟩
  · exact ⟨u, rfl⟩
  · rw [hdet] at h
    cases t with
    | issue => exact ⟨_, rfl⟩
    | root =>
      obtain ⟨ops, hops, -⟩ := bind_eq_ok.mp h
      exact ⟨_, bind_eq_ok.mpr ⟨ops, hops, rfl⟩⟩
    | provision =>
      obtain ⟨ops, hops, -⟩ := bind_eq_ok.mp h
      exact ⟨_, bind_eq_ok.mpr ⟨ops, hops, rfl⟩⟩

theorem readable_of_accept {params : Params} {view view' : KeyViewpoint} {txs : List MsgTx}
    (h : txs.foldlM (acceptTx c params) view = .ok view') : ∀ tx ∈ txs, Readable c tx := by
  intro tx htx
  obtain ⟨s, t, hst⟩ := foldlM_mem_ok h tx htx
  exact readable_of_ok (bind_unit_eq_ok.mp hst).2

/-- Of a reachable chain: its main chain fits together, and the keys in memory are those it leads
to. -/
structure KeysOk (c : Crypto) (params : Params) (b : BlockChain) : Prop where
  sameParams : b.params = params
  chain : ChainOk c b
  readable : ∀ tx ∈ transactionsOf b.mainBlocks, Readable c tx
  fits : KeyViewpoint.Fits c (genesisKeys c params) (transactionsOf b.mainBlocks)
  agree : b.keys.Agree (foldKeys c params b.mainBlocks)

/-- A block that is added fast would have been accepted. -/
def FastOk (c : Crypto) (b : BlockChain) (block : MsgBlock) (flags : BehaviorFlags) : Prop :=
  flags.fastAdd = true → block.header.prevBlock = b.bestNode.hash →
    ∃ view, block.transactions.foldlM (acceptTx c b.params) b.keys = .ok view

section Step

variable {b b' : BlockChain} {block : MsgBlock} {flags : BehaviorFlags} {p : BlockNode}
  {params : Params}

theorem Extended.accept (h : Extended c b block flags b') (hfast : FastOk c b block flags)
    (hprev : block.header.prevBlock = b.bestNode.hash) :
    block.transactions.foldlM (acceptTx c b.params) b.keys = .ok b'.keys := by
  unfold Extended at h
  split at h
  · next hflag =>
    obtain ⟨view, hview⟩ := hfast hflag hprev
    have hconnect : b.keys.connectTransactions c block = .ok view :=
      foldlM_congr_of_ok (fun tx _ s t hst => (bind_unit_eq_ok.mp hst).2) hview
    cases h.symm.trans hconnect
    exact hview
  · obtain ⟨s, hs, hkeys⟩ := h
    have haccept := checkConnectBlock_keys hs
    rwa [← hkeys] at haccept

theorem KeysOk.accept_top {blocks : List MsgBlock} {u view : KeyViewpoint} {new : List MsgBlock}
    (hreadable : ∀ tx ∈ transactionsOf blocks, Readable c tx)
    (hfits : KeyViewpoint.Fits c (genesisKeys c params) (transactionsOf blocks))
    (hagree : u.Agree (foldKeys c params blocks))
    (haccept : (transactionsOf new).foldlM (acceptTx c params) u = .ok view) :
    (∀ tx ∈ transactionsOf (blocks ++ new), Readable c tx) ∧
      KeyViewpoint.Fits c (genesisKeys c params) (transactionsOf (blocks ++ new)) := by
  rw [transactionsOf_append]
  refine ⟨forall_mem_append.mpr ⟨hreadable, readable_of_accept haccept⟩, ?_⟩
  exact KeyViewpoint.fits_append.mpr
    ⟨hfits, hagree.fits (KeyViewpoint.fits_of_accept haccept).1⟩

theorem mainBlocks_extended (hok : ChainOk c b) (hins : Inserted c b block flags p b')
    (hp : p = b.bestNode) (hbest : b'.bestNode = newBlockNode c block.header (some p)) :
    b'.mainBlocks = b.mainBlocks ++ [block] := by
  unfold mainBlocks
  rw [hbest, hins.branchBlocks_new hok, hp]

theorem mainBlocks_reorganized {k j : Nat} (hok : ChainOk c b) (hins : Inserted c b block flags p b')
    (hre : Reorganized c b (newBlockNode c block.header (some p)) b' k j) :
    b.mainBlocks = b.branchBlocks (b.bestNode.chain.drop k) ++ b'.blocksOf (b.bestNode.chain.take k).reverse ∧
      b'.mainBlocks = b.branchBlocks (b.bestNode.chain.drop k) ++
        b'.blocksOf ((newBlockNode c block.header (some p)).chain.take j).reverse := by
  constructor
  · unfold mainBlocks
    rw [branchBlocks_split b hre.detached, hins.blocksOf hok hok.best]
    intro data hdata
    exact mem_of_mem_take (mem_reverse.mp hdata)
  · unfold mainBlocks
    rw [hre.bestNode, branchBlocks_split b' hre.attached, hre.meet, hins.branchBlocks hok hok.best k]

theorem KeysOk.extended (hinv : KeysOk c params b) (hins : Inserted c b block flags p b')
    (hp : p = b.bestNode) (hbest : b'.bestNode = newBlockNode c block.header (some p)) (hzero : block.blockHash c ≠ 0)
    (haccept : block.transactions.foldlM (acceptTx c b.params) b.keys = .ok b'.keys) : KeysOk c params b' := by
  have hmain := mainBlocks_extended hinv.chain hins hp hbest
  have htxs : transactionsOf [block] = block.transactions := flatMap_singleton ..
  rw [hinv.sameParams] at haccept
  have haccept' : (transactionsOf [block]).foldlM (acceptTx c params) b.keys = .ok b'.keys := by
    rw [htxs]
    exact haccept
  obtain ⟨hreadable, hfits⟩ := KeysOk.accept_top hinv.readable hinv.fits hinv.agree haccept'
  refine ⟨hins.params.trans hinv.sameParams, hins.chainOk hinv.chain hzero (.inr hbest),
    hmain ▸ hreadable, hmain ▸ hfits, ?_⟩
  rw [hmain, foldKeys_append, htxs, (KeyViewpoint.fits_of_accept haccept).2]
  exact hinv.agree.foldl_afterTx block.transactions

theorem KeysOk.undone (hinv : KeysOk c params b) (hnodup : (genesisKeys c params).SetsNodup)
    {blocks old : List MsgBlock} (hmain : b.mainBlocks = blocks ++ old) :
    KeyViewpoint.Agree ((transactionsOf old).reverse.foldl KeyViewpoint.beforeTx b.keys)
      (foldKeys c params blocks) := by
  have hfits := hinv.fits
  have hagree := hinv.agree
  rw [hmain, foldKeys_append] at hagree
  rw [hmain, transactionsOf_append] at hfits
  exact KeyViewpoint.Agree.foldl_beforeTx (KeyViewpoint.fits_append.mp hfits).2
    (hnodup.foldl_afterTx (transactionsOf blocks)) hagree

theorem KeysOk.reorganized {k j : Nat} (hinv : KeysOk c params b)
    (hnodup : (genesisKeys c params).SetsNodup) (hins : Inserted c b block flags p b') (hzero : block.blockHash c ≠ 0)
    (hre : Reorganized c b (newBlockNode c block.header (some p)) b' k j) : KeysOk c params b' := by
  obtain ⟨hmain, hmain'⟩ := mainBlocks_reorganized hinv.chain hins hre
  obtain ⟨m, utxoView, verified, attached, hparams, hverify, hattached, hkeys⟩ := hre.keys
  obtain ⟨-, -, -, haccept⟩ := verifyBlocks_ok hverify
  rw [hattached, hparams, hinv.sameParams] at haccept
  have hreadable := hinv.readable
  have hfits := hinv.fits
  rw [hmain, transactionsOf_append] at hreadable hfits
  have hundone := hinv.undone hnodup hmain
  obtain ⟨hreadable', hfits'⟩ := KeysOk.accept_top
    (forall_mem_append.mp hreadable).1 (KeyViewpoint.fits_append.mp hfits).1 hundone haccept
  refine ⟨hins.params.trans hinv.sameParams, hins.chainOk hinv.chain hzero (.inr hre.bestNode),
    hmain' ▸ hreadable', hmain' ▸ hfits', ?_⟩
  rw [hmain', foldKeys_append, hkeys, (KeyViewpoint.fits_of_accept haccept).2]
  exact hundone.foldl_afterTx_twice _

theorem KeysOk.step (hinv : KeysOk c params b) (hnodup : (genesisKeys c params).SetsNodup)
    (hfast : FastOk c b block flags) (h : Accepted c b block flags b') : KeysOk c params b' := by
  obtain ⟨hparams, hindex, hblocks, hbest, hkeys⟩ |
    ⟨p, hins, ⟨hbest, hkeys⟩ | ⟨hp, hbest, hext⟩ | ⟨k, j, hre⟩⟩ := h.cases hinv.chain
  · have hmain : b'.mainBlocks = b.mainBlocks := by
      unfold mainBlocks branchBlocks blocksOf
      rw [hbest, hblocks]
    exact ⟨hparams.trans hinv.sameParams, h.chainOk hinv.chain, hmain ▸ hinv.readable,
      hmain ▸ hinv.fits, hkeys ▸ hmain ▸ hinv.agree⟩
  · have hmain : b'.mainBlocks = b.mainBlocks := by
      unfold mainBlocks
      rw [hbest]
      exact hins.branchBlocks hinv.chain hinv.chain.best 0
    exact ⟨hins.params.trans hinv.sameParams, h.chainOk hinv.chain, hmain ▸ hinv.readable,
      hmain ▸ hinv.fits, hkeys ▸ hmain ▸ hinv.agree⟩
  · have hprev : block.header.prevBlock = b.bestNode.hash := by
      rw [← hp]
      exact (hinv.chain.hash hins.prev).symm
    exact hinv.extended hins hp hbest h.nonzero (hext.accept hfast hprev)
  · exact hinv.reorganized hnodup hins h.nonzero hre

end Step

theorem keysOk_createChainState {params : Params} {noVerify : Bool}
    (hzero : params.genesisHash c ≠ 0) (hnodup : (genesisKeys c params).SetsNodup) :
    KeysOk c params (createChainState c params noVerify) where
  sameParams := rfl
  chain := chainOk_createChainState hzero
  readable := fun _ htx => absurd htx not_mem_nil
  fits := trivial
  agree := ⟨hnodup, hnodup, rfl, fun _ _ => Iff.rfl⟩

theorem AcceptRun.keysOk {params : Params} {noVerify : Bool} {b : BlockChain}
    {cond : BlockChain → MsgBlock → BehaviorFlags → Prop}
    (hcond : ∀ {b block flags}, cond b block flags → FastOk c b block flags)
    (hzero : params.genesisHash c ≠ 0) (hnodup : (genesisKeys c params).SetsNodup)
    (hrun : AcceptRun c params noVerify cond b) : KeysOk c params b := by
  induction hrun with
  | genesis => exact keysOk_createChainState hzero hnodup
  | step _ hstep hacc ih => exact ih.step hnodup (hcond hstep) hacc

/-- The keys in memory are those that the transactions of the main chain lead to. -/
def KeysFolded (c : Crypto) (params : Params) (b : BlockChain) : Prop :=
  ∃ folded, (transactionsOf b.mainBlocks).foldlM (KeyViewpoint.connectTransaction c) (genesisKeys c params) = .ok folded ∧
    b.keys.aspKeyIdMap = folded.aspKeyIdMap ∧ ∀ t, (b.keys.adminKeySets t).Perm (folded.adminKeySets t)

/-- Whatever was reorganized, blocks that left the main chain leave no keys behind. -/
theorem adminKeys_eq_fold {params : Params} {noVerify : Bool} {b : BlockChain}
    (hzero : params.genesisHash c ≠ 0) (hnodup : (genesisKeys c params).SetsNodup)
    (hrun : AcceptRun c params noVerify (FastOk c) b) : KeysFolded c params b := by
  have hkeys := hrun.keysOk id hzero hnodup
  refine ⟨foldKeys c params b.mainBlocks, ?_, hkeys.agree.asp, fun t => ?_⟩
  · exact foldlM_eq_ok_foldl fun tx htx view => hkeys.readable tx htx view
  · exact (perm_ext_iff_of_nodup (hkeys.agree.left t) (hkeys.agree.right t)).mpr (hkeys.agree.mem t)

open Sample in
theorem issueBlock_accepted : Sample.params.genesisHash crypto ≠ 0 ∧ (genesisKeys crypto Sample.params).SetsNodup ∧
    Accepted crypto genesis issueBlock bfNone (afterBlock crypto genesis issueBlock) :=
  ⟨by decide +kernel, fun t => by cases t <;> decide +kernel,
    accepted_afterBlock (processBlock_genesis (by simp [firstBlocks])).2 (by decide +kernel)⟩

theorem adminKeys_eq_fold_issueBlock :
    KeysFolded Sample.crypto Sample.params (afterBlock Sample.crypto Sample.genesis Sample.issueBlock) := by
  obtain ⟨hzero, hnodup, hacc⟩ := issueBlock_accepted
  have hfast : FastOk Sample.crypto Sample.genesis Sample.issueBlock bfNone := fun hflag => by cases hflag
  exact adminKeys_eq_fold hzero hnodup (.step .genesis hfast hacc)

/-! ### The whole admin state -/

def nodeOf (c : Crypto) (b : BlockChain) (block : MsgBlock) : BlockNode :=
  newBlockNode c block.header (b.index block.header.prevBlock)

/-- The nodes a reorganization to the block would detach and attach. -/
def reorgNodes (c : Crypto) (b : BlockChain) (block : MsgBlock) :
    List BlockNode × List BlockNode :=
  (b.addSideNode (nodeOf c b block)).getReorganizeNodes (nodeOf c b block)

def detachedTxs (c : Crypto) (b : BlockChain) (block : MsgBlock) : List MsgTx :=
  transactionsOf (b.blocksOf ((reorgNodes c b block).1.map (·.toNodeData)).reverse)

def attachedTxs (c : Crypto) (b : BlockChain) (block : MsgBlock) : List MsgTx :=
  transactionsOf ((b.storeBlock (block.blockHash c) block).blocksOf
    ((reorgNodes c b block).2.map (·.toNodeData)))

/-- The admin state that the part of the main chain below them leads to. -/
def forkKeys (c : Crypto) (b : BlockChain) (block : MsgBlock) : KeyViewpoint :=
  foldKeys c b.params
    (b.branchBlocks (b.bestNode.chain.drop (reorgNodes c b block).1.length))

/-- The condition under which accepting a block keeps the admin state right: a block that is added
fast would have been accepted, and a reorganization exchanges transactions exactly. -/
structure KeepsAdminState (c : Crypto) (b : BlockChain) (block : MsgBlock)
    (flags : BehaviorFlags) : Prop where
  fast : FastOk c b block flags
  reorg : block.header.prevBlock ≠ b.bestNode.hash →
    b.bestNode.workSum < (nodeOf c b block).workSum →
    KeyViewpoint.ExchangeExact c (forkKeys c b block) (detachedTxs c b block)
      (attachedTxs c b block)

section Step

variable {b b' : BlockChain} {block : MsgBlock} {flags : BehaviorFlags} {p : BlockNode}
  {params : Params}

theorem exchanged_eq {k j : Nat} (hinv : KeysOk c params b) (hins : Inserted c b block flags p b')
    (hre : Reorganized c b (newBlockNode c block.header (some p)) b' k j) :
    forkKeys c b block = foldKeys c params (b.branchBlocks (b.bestNode.chain.drop k)) ∧ detachedTxs c b block =
        transactionsOf (b'.blocksOf (b.bestNode.chain.take k).reverse) ∧ attachedTxs c b block = transactionsOf
          (b'.blocksOf ((newBlockNode c block.header (some p)).chain.take j).reverse) := by
  have hnodes : reorgNodes c b block = (topNodes k b.bestNode.chain,
      (topNodes j (newBlockNode c block.header (some p)).chain).reverse) := by
    unfold reorgNodes nodeOf
    rw [hins.prev, hre.nodes]
  refine ⟨?_, ?_, ?_⟩
  · have hlen : (topNodes k b.bestNode.chain).length = k := by
      rw [← length_map (f := BlockNode.toNodeData), topNodes_data, length_take]
      exact Nat.min_eq_left hre.detached.le
    unfold forkKeys
    rw [hnodes, hlen, hinv.sameParams]
  · unfold detachedTxs
    rw [hnodes, topNodes_data, hins.blocksOf hinv.chain hinv.chain.best]
    intro data hdata
    exact mem_of_mem_take (mem_reverse.mp hdata)
  · have hstored : b.db.blocks (block.blockHash c) = none := by
      by_contra hne
      obtain ⟨blk, hblk⟩ := Option.ne_none_iff_exists'.mp hne
      have hsome := (hinv.chain.stored hblk).2
      rw [hins.new] at hsome
      cases hsome
    unfold attachedTxs blocksOf storeBlock
    rw [hnodes, map_reverse, topNodes_data, hstored, hins.blocks]
    rfl

theorem sameCounters_reorganized {k j : Nat} (hinv : KeysOk c params b)
    (hsame : b.keys.SameCounters (foldKeys c params b.mainBlocks)) (hins : Inserted c b block flags p b')
    (hre : Reorganized c b (newBlockNode c block.header (some p)) b' k j) (hcond : KeepsAdminState c b block flags) :
    b'.keys.SameCounters (foldKeys c params b'.mainBlocks) := by
  obtain ⟨hmain, hmain'⟩ := mainBlocks_reorganized hinv.chain hins hre
  obtain ⟨m, utxoView, verified, attached, hparams, hverify, hattached, hkeys⟩ := hre.keys
  obtain ⟨-, -, -, haccept⟩ := verifyBlocks_ok hverify
  rw [hattached, hparams] at haccept
  have hwork : b.bestNode.workSum < (nodeOf c b block).workSum := by
    unfold nodeOf
    rw [hins.prev]
    exact hre.work
  have hexact := hcond.reorg hre.side hwork
  obtain ⟨hfork, hold, hnew⟩ := exchanged_eq hinv hins hre
  rw [hfork, hold, hnew] at hexact
  rw [hmain, foldKeys_append] at hsame
  rw [hmain', foldKeys_append, hkeys, (KeyViewpoint.fits_of_accept haccept).2]
  exact hsame.exchange hexact

theorem sameCounters_step (hinv : KeysOk c params b) (hsame : b.keys.SameCounters (foldKeys c params b.mainBlocks))
    (hcond : KeepsAdminState c b block flags) (h : Accepted c b block flags b') :
    b'.keys.SameCounters (foldKeys c params b'.mainBlocks) := by
  obtain ⟨-, -, hblocks, hbest, hkeys⟩ |
    ⟨p, hins, ⟨hbest, hkeys⟩ | ⟨hp, hbest, hext⟩ | ⟨k, j, hre⟩⟩ := h.cases hinv.chain
  · have hmain : b'.mainBlocks = b.mainBlocks := by
      unfold mainBlocks branchBlocks blocksOf
      rw [hbest, hblocks]
    exact hkeys ▸ hmain ▸ hsame
  · have hmain : b'.mainBlocks = b.mainBlocks := by
      unfold mainBlocks
      rw [hbest]
      exact hins.branchBlocks hinv.chain hinv.chain.best 0
    exact hkeys ▸ hmain ▸ hsame
  · have hprev : block.header.prevBlock = b.bestNode.hash := by
      rw [← hp]
      exact (hinv.chain.hash hins.prev).symm
    have haccept := hext.accept hcond.fast hprev
    rw [mainBlocks_extended hinv.chain hins hp hbest, foldKeys_append, (KeyViewpoint.fits_of_accept haccept).2]
    have htxs : transactionsOf [block] = block.transactions := flatMap_singleton ..
    rw [htxs]
    exact hsame.foldl_afterTx block.transactions
  · exact sameCounters_reorganized hinv hsame hins hre hcond

end Step

/-- Along every run of accepted blocks in which each block keeps the admin state right, the admin
state in memory is the one that the transactions of the main chain lead to from genesis. -/
theorem adminState_eq_fold {params : Params} {noVerify : Bool} {b : BlockChain}
    (hzero : params.genesisHash c ≠ 0) (hnodup : (genesisKeys c params).SetsNodup)
    (hrun : AcceptRun c params noVerify (KeepsAdminState c) b) :
    ∃ folded, (transactionsOf b.mainBlocks).foldlM (KeyViewpoint.connectTransaction c)
        (genesisKeys c params) = .ok folded ∧ b.keys.Same folded := by
  have hkeys := hrun.keysOk (fun h => h.fast) hzero hnodup
  have hcounters : b.keys.SameCounters (foldKeys c params b.mainBlocks) := by
    induction hrun with
    | genesis => exact ⟨rfl, rfl, rfl⟩
    | step hrun hcond hacc ih =>
      have hok := hrun.keysOk (fun h => h.fast) hzero hnodup
      exact sameCounters_step hok (ih hok) hcond hacc
  refine ⟨foldKeys c params b.mainBlocks, ?_, hcounters.tips, hcounters.lastKeyID,
    hcounters.supply, hkeys.agree.mem, hkeys.agree.asp⟩
  exact foldlM_eq_ok_foldl fun tx htx view => hkeys.readable tx htx view

theorem adminState_eq_fold_issueBlock : ∃ folded, (transactionsOf (afterBlock Sample.crypto Sample.genesis
        Sample.issueBlock).mainBlocks).foldlM (KeyViewpoint.connectTransaction Sample.crypto)
        (genesisKeys Sample.crypto Sample.params) = .ok folded ∧
      (afterBlock Sample.crypto Sample.genesis Sample.issueBlock).keys.Same folded := by
  obtain ⟨hnext, -⟩ := @Sample.processBlock_genesis Sample.issueBlock (by simp [Sample.firstBlocks])
  obtain ⟨hzero, hnodup, hacc⟩ := issueBlock_accepted
  have hkeeps : KeepsAdminState Sample.crypto Sample.genesis Sample.issueBlock bfNone := by
    refine ⟨?_, ?_⟩
    · intro hfast
      cases hfast
    · exact fun hside => absurd hnext hside
  have hrun : AcceptRun Sample.crypto Sample.params false (KeepsAdminState Sample.crypto)
      (afterBlock Sample.crypto Sample.genesis Sample.issueBlock) := .step .genesis hkeeps hacc
  exact adminState_eq_fold hzero hnodup hrun

end BlockChain

namespace Sample

open BlockChain

/-- The chain after two blocks on genesis and a second block on the later one. -/
def reorganized : BlockChain :=
  afterBlock crypto (afterBlock crypto (afterBlock crypto genesis plainBlock) issueBlock) issueTipBlock

theorem reorganized_run : AcceptRun crypto params false (fun _ _ _ => True) reorganized :=
  .step (.step (.step .genesis trivial
      (accepted_afterBlock (r := true) (by decide +kernel) (by decide +kernel))) trivial
      (accepted_afterBlock (r := false) (by decide +kernel) (by decide +kernel))) trivial
      (accepted_afterBlock (r := true) (by decide +kernel) (by decide +kernel))

/-- The issuance of a reorganization counts twice: its key view is connected by the verification of
the new blocks and again by attaching them. -/
theorem adminState_reorganized : ∃ folded, AcceptRun crypto params false (fun _ _ _ => True) reorganized ∧
      reorganized.mainBlocks = [issueBlock, issueTipBlock] ∧
      (transactionsOf reorganized.mainBlocks).foldlM (KeyViewpoint.connectTransaction crypto)
        (genesisKeys crypto params) = .ok folded ∧ folded.totalSupply = 1000 ∧ reorganized.keys.totalSupply = 2000 := by
  have hsupply : ((transactionsOf reorganized.mainBlocks).foldlM
      (KeyViewpoint.connectTransaction crypto) (genesisKeys crypto params)).toOption.map
        (·.totalSupply) = some 1000 := by decide +kernel
  obtain ⟨folded, hfolded, hvalue⟩ := Option.map_eq_some_iff.mp hsupply
  exact ⟨folded, reorganized_run, by decide +kernel, eq_ok_of_toOption hfolded, hvalue,
    by decide +kernel⟩

end Sample

end Prova
