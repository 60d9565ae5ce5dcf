import Prova.Blockchain.ChainSteps
import Prova.Chaincfg.SampleBlocks

/-!
# Runs of connected blocks

A run in which every block extends the main chain. `ProcessBlock` checks each of them in full; a fast
add and a dry run are no steps of such a run.
-/

namespace Prova

variable {b b' : BlockChain} {block : MsgBlock}

namespace BlockChain

variable {c : Crypto}

/-- A block that `ProcessBlock` makes the next block of the main chain. -/
structure Extends (c : Crypto) (b : BlockChain) (block : MsgBlock) (b' : BlockChain) : Prop where
  next : block.header.prevBlock = b.bestNode.hash
  accepted : ∃ noPoWCheck, processBlock c block ⟨false, noPoWCheck, false⟩ b = .ok true b'

/-- The state `ProcessBlock` leaves. -/
def afterBlock (c : Crypto) (b : BlockChain) (block : MsgBlock) : BlockChain :=
  endState (processBlock c block bfNone b)

theorem extends_afterBlock (hnext : block.header.prevBlock = b.bestNode.hash)
    (hok : okValue (processBlock c block bfNone b) = some true) : Extends c b block (afterBlock c b block) :=
  ⟨hnext, false, eq_ok_of_okValue hok⟩

/-- What connecting a block has checked, and the state it leads to. -/
structure Connected (c : Crypto) (b : BlockChain) (block : MsgBlock) (s : ConnectState)
    (b' : BlockChain) : Prop where
  sanity : ∃ flags, checkBlockSanity c block b.params.powLimit flags = .ok ()
  node : ∃ prevNode, b'.bestNode = newBlockNode c block.header prevNode
  connect : checkConnectBlock c b.env b'.bestNode block (newUtxoViewpoint b.bestNode.hash) b.keys =
    .ok s
  params : b'.params = b.params
  noVerify : b'.noVerify = b.noVerify
  utxos : b'.db.utxos = s.utxoView.dbPutUtxoView b.db.utxos
  keys : b'.keys = s.keyView

theorem Extends.connected_db (h : Extends c b block b') :
    ∃ s, Connected c b block s b' ∧ b.db.blocks (block.blockHash c) = none ∧
      b'.db.blocks = Function.update b.db.blocks (block.blockHash c) (some block) ∧ b'.db.spendJournal =
        Function.update b.db.spendJournal (block.blockHash c) (some s.stxos) := by
  obtain ⟨hnext, noPoWCheck, hrun⟩ := h
  obtain ⟨-, hnew, hsanity, ⟨hfalse, -⟩ | ⟨prevNode, m, -, hprep, -, hconnect⟩⟩ :=
    processBlock_ok hrun
  · cases hfalse
  · have hparent : (newBlockNode c block.header prevNode).parentHash = m.bestNode.hash := by
      rw [hprep.bestNode]
      exact hnext
    obtain ⟨-, hext⟩ | ⟨hne, -⟩ | ⟨hne, -⟩ := connectBestChain_ok hconnect
    · obtain ⟨s, hs, hconn⟩ := extendMainChain_ok rfl hext
      obtain ⟨view, hview⟩ := hconn
      obtain ⟨-, -, rfl⟩ := connectBlock_ok hview
      rw [hparent, hprep.bestNode, hprep.env, hprep.keys] at hs
      refine ⟨s, ⟨⟨_, hsanity⟩, ⟨prevNode, rfl⟩, hs, hprep.params, hprep.noVerify,
        by rw [hprep.db], rfl⟩, hnew, ?_, ?_⟩
      · rw [hprep.db]
      · rw [hprep.db]
    · exact absurd hparent hne
    · exact absurd hparent hne

theorem Extends.connected (h : Extends c b block b') : ∃ s, Connected c b block s b' := by
  obtain ⟨s, hs, -⟩ := h.connected_db
  exact ⟨s, hs⟩

theorem Connected.accept {s : ConnectState} (h : Connected c b block s b') :
    block.transactions.foldlM (acceptTx c b.params) b.keys = .ok b'.keys := by
  have hkeys := checkConnectBlock_keys h.connect
  rwa [← h.keys] at hkeys

inductive ConnectRun (c : Crypto) (b : BlockChain) : List MsgBlock → BlockChain → Prop
  | nil : ConnectRun c b [] b
  | snoc {blocks : List MsgBlock} {m b' : BlockChain} {block : MsgBlock} :
    ConnectRun c b blocks m → Extends c m block b' → ConnectRun c b (blocks ++ [block]) b'

def transactionsOf (blocks : List MsgBlock) : List MsgTx := blocks.flatMap (·.transactions)

theorem ConnectRun.params {blocks : List MsgBlock} (h : ConnectRun c b blocks b') : b'.params = b.params := by
  induction h with
  | nil => rfl
  | snoc _ hext ih =>
    obtain ⟨s, hs⟩ := hext.connected
    rw [hs.params, ih]

theorem ConnectRun.accept {blocks : List MsgBlock} (h : ConnectRun c b blocks b') :
    (transactionsOf blocks).foldlM (acceptTx c b.params) b.keys = .ok b'.keys := by
  induction h with
  | nil => rfl
  | snoc hrun hext ih =>
    obtain ⟨s, hs⟩ := hext.connected
    have hblock := hs.accept
    rw [hrun.params] at hblock
    unfold transactionsOf at ih ⊢
    rw [List.flatMap_append, List.flatMap_singleton]
    exact foldlM_append_eq_ok.mpr ⟨_, ih, hblock⟩

theorem ConnectRun.single (h : Extends c b block b') : ConnectRun c b [block] b' := .snoc .nil h

end BlockChain

/-! ### Sample blocks on the genesis block -/

namespace Sample

open BlockChain

def genesis : BlockChain := createChainState crypto params false

/-- Blocks that are accepted on the genesis block. -/
def firstBlocks : List MsgBlock := [issueBlock, forwardBlock, overpaidBlock, revokeBlock, provisionBlock]

theorem processBlock_genesis {block : MsgBlock} (h : block ∈ firstBlocks) :
    block.header.prevBlock = genesis.bestNode.hash ∧
      okValue (processBlock crypto block bfNone genesis) = some true := by
  simp only [firstBlocks, List.mem_cons, List.not_mem_nil, or_false] at h
  rcases h with rfl | rfl | rfl | rfl | rfl <;> decide +kernel

theorem extends_genesis {block : MsgBlock} (h : block ∈ firstBlocks) :
    Extends crypto genesis block (afterBlock crypto genesis block) :=
  extends_afterBlock (processBlock_genesis h).1 (processBlock_genesis h).2

theorem issueBlock_extends :
    Extends crypto genesis issueBlock (afterBlock crypto genesis issueBlock) := extends_genesis (by simp [firstBlocks])

theorem forwardBlock_extends :
    Extends crypto genesis forwardBlock (afterBlock crypto genesis forwardBlock) := extends_genesis (by simp [firstBlocks])

theorem revokeBlock_extends :
    Extends crypto genesis revokeBlock (afterBlock crypto genesis revokeBlock) := extends_genesis (by simp [firstBlocks])

theorem provisionBlock_extends :
    Extends crypto genesis provisionBlock (afterBlock crypto genesis provisionBlock) := extends_genesis (by simp [firstBlocks])

theorem checked_genesis (block : MsgBlock) (h : block ∈ [issueBlock, forwardBlock]) :
    checkBlockSanity crypto block params.powLimit bfNone = .ok () ∧
      ∃ s, checkConnectBlock crypto genesis.env (newBlockNode crypto block.header (some genesis.bestNode)) block
        (newUtxoViewpoint genesis.bestNode.hash) genesis.keys = .ok s := by
  rcases List.mem_pair.mp h with rfl | rfl
  · exact ⟨eq_ok_of_toOption (by decide +kernel), exists_ok_of_isOk (by decide +kernel)⟩
  · exact ⟨eq_ok_of_toOption (by decide +kernel), exists_ok_of_isOk (by decide +kernel)⟩

end Sample

end Prova
