import Prova.Blockchain.Validate

/-!
# The block chain (`blockchain/chain.go`, `accept.go`, `process.go`, `checkpoints.go`)

The chain as a state machine: the database, the block index with the main chain and the admin state
in memory. A failed operation keeps the changes it has made, so the operations run in a state monad
that keeps the state on an error.

Left out are the orphan pool (a block whose parent is unknown is offered again when the parent has
come), notifications and indexes, and the state a restart reads back.
-/

namespace Prova

structure ChainDb where
  utxos : UtxoDb
  blocks : Hash → Option MsgBlock
  spendJournal : Hash → Option (List SpentTxOut)
  /-- The blocks of the main chain (`hashIndexBucket`). -/
  blockIndex : Hash → Option UInt32

structure BlockChain where
  params : Params
  noVerify : Bool
  db : ChainDb
  bestNode : BlockNode
  index : Hash → Option BlockNode
  /-- The `inMainChain` flags of the nodes. -/
  inMainChain : Hash → Bool
  /-- `threadTips`, `lastKeyID`, `totalSupply`, `adminKeySets` and `aspKeyIdMap`. -/
  keys : KeyViewpoint
  checkpointBlock : Option MsgBlock
  nextCheckpoint : Option Checkpoint

/-- A computation on the chain that keeps the state when it fails. -/
abbrev ChainM := EStateM ChainError BlockChain

/-- Run a check that does not change the chain. -/
def liftRule {α : Type} (x : Except ChainError α) : ChainM α :=
  match x with
  | .ok a => pure a
  | .error e => throw e

namespace BlockChain

/-! ### Creating the chain -/

section

variable (c : Crypto)

def genesisKeys (params : Params) : KeyViewpoint where
  threadTips := fun threadID =>
    let index : UInt32 :=
      match threadID with
      | .root => 0
      | .provision => 1
      | .issue => 2
    (params.genesisBlock.transactions.head?).map fun tx => ⟨tx.txHash c, index⟩
  lastKeyID := params.aspKeyIdMap.keys.foldl max 0
  totalSupply := 0
  adminKeySets := params.adminKeySets
  aspKeyIdMap := params.aspKeyIdMap.lookup

def genesisUtxos (params : Params) : UtxoDb :=
  match params.genesisBlock.transactions with
  | [] => ∅
  | tx :: _ => UtxoViewpoint.dbPutUtxoView ∅ ((newUtxoViewpoint 0).addTxOuts c tx 0)

def createChainState (params : Params) (noVerify : Bool) : BlockChain :=
  let hash := params.genesisHash c
  let node := newBlockNode c params.genesisBlock.header none
  { params := params
    noVerify := noVerify
    db := {
      utxos := genesisUtxos c params
      blocks := Function.update (fun _ => none) hash (some params.genesisBlock)
      spendJournal := fun _ => none
      blockIndex := Function.update (fun _ => none) hash (some node.height) }
    bestNode := node
    index := Function.update (fun _ => none) hash (some node)
    inMainChain := Function.update (fun _ => false) hash true
    keys := genesisKeys c params
    checkpointBlock := none
    nextCheckpoint := none }

end

/-! ### Small changes of the state -/

def setIndex (hash : Hash) (node : Option BlockNode) (b : BlockChain) : BlockChain :=
  { b with index := Function.update b.index hash node }

def setInMainChain (hash : Hash) (v : Bool) (b : BlockChain) : BlockChain :=
  { b with inMainChain := Function.update b.inMainChain hash v }

def addSideNode (node : BlockNode) (b : BlockChain) : BlockChain :=
  (b.setIndex node.hash (some node)).setInMainChain node.hash false

/-- `dbMaybeStoreBlock`. -/
def storeBlock (hash : Hash) (block : MsgBlock) (b : BlockChain) : BlockChain :=
  { b with db := { b.db with
      blocks := Function.update b.db.blocks hash (some ((b.db.blocks hash).getD block)) } }

def env (b : BlockChain) : ConnectEnv := ⟨b.params, b.db.utxos, b.noVerify⟩

/-- `dbFetchBlockByHash`. -/
def fetchBlock (b : BlockChain) (hash : Hash) : Except ChainError MsgBlock :=
  match b.db.blocks hash with
  | none => .error .blockNotFound
  | some block => .ok block

/-! ### The spend journal -/

/-- The loop of `deserializeSpendJournalEntry` over inputs and records, last one first. A record
without a height does not store the version; it is that of the entry in the view or of a record for
the same transaction read before. -/
def decodeStxos (view : UtxoViewpoint) :
    List OutPoint → List SpentTxOut → (Hash → Option Int32) →
      Except ChainError (List SpentTxOut)
  | [], _, _ => .ok []
  | _ :: _, [], _ => .error .corruption
  | origin :: origins, stxo :: stxos, inFlight => do
    let txVersion :=
      match view.lookupEntry origin.hash with
      | some entry => entry.version
      | none => (inFlight origin.hash).getD 0
    reject (stxo.height = 0 ∧ txVersion = 0) .corruption
    let stxo :=
      if stxo.height = 0 then { stxo with version := txVersion, isCoinBase := false } else stxo
    let inFlight :=
      match view.lookupEntry origin.hash, inFlight origin.hash with
      | none, none => Function.update inFlight origin.hash (some stxo.version)
      | _, _ => inFlight
    let rest ← decodeStxos view origins stxos inFlight
    return stxo :: rest

/-- `dbFetchSpendJournalEntry`. -/
def fetchSpendJournal (c : Crypto) (b : BlockChain) (block : MsgBlock) (view : UtxoViewpoint) :
    Except ChainError (List SpentTxOut) := do
  let origins := (block.transactions.drop 1).flatMap MsgTx.prevOuts
  let stored := (b.db.spendJournal (block.blockHash c)).getD []
  reject (stored = [] ∧ origins ≠ []) .assertError
  let decoded ← decodeStxos view origins.reverse stored.reverse fun _ => none
  return decoded.reverse

/-! ### Checkpoints -/

/-- The checkpoint after the last one with a hash. -/
def checkpointAfter (checkpoints : List Checkpoint) (hash : Hash) : Option Checkpoint :=
  match checkpoints.reverse.findIdx? (fun cp => cp.hash == hash) with
  | none => none
  | some i => if i = 0 then none else checkpoints.reverse[i - 1]?

/-- `findPreviousCheckpoint`: the last checkpoint block of the main chain, searched once and then
advanced with the chain. -/
def findPreviousCheckpoint : ChainM (Option MsgBlock) := do
  let b ← get
  let checkpoints := b.params.checkpoints
  if checkpoints = [] then return none
  else if b.checkpointBlock = none ∧ b.nextCheckpoint = none then
    match checkpoints.reverse.find? fun cp => (b.db.blockIndex cp.hash).isSome with
    | none =>
      set { b with nextCheckpoint := checkpoints.head? }
      return none
    | some cp =>
      let block ← liftRule (b.fetchBlock cp.hash)
      set { b with
        checkpointBlock := some block
        nextCheckpoint := checkpointAfter checkpoints cp.hash }
      return some block
  else
    match b.nextCheckpoint with
    | none => return b.checkpointBlock
    | some next =>
      if b.bestNode.height < next.height then return b.checkpointBlock
      else
        let block ← liftRule (b.fetchBlock next.hash)
        set { b with
          checkpointBlock := some block
          nextCheckpoint := checkpointAfter checkpoints next.hash }
        return some block

/-! ### Nodes -/

section

variable (c : Crypto)

/-- `loadBlockNode`: a stored block that is not in the index gets a node, taken for one of the main
chain. -/
def loadBlockNode (hash : Hash) : ChainM BlockNode := do
  let b ← get
  let block ← liftRule (b.fetchBlock hash)
  match b.index block.header.prevBlock with
  | none => throw .assertError
  | some parent =>
    let node := newBlockNode c block.header (some parent)
    modify fun b => (b.setIndex hash (some node)).setInMainChain hash true
    return node

def getPrevNodeFromBlock (block : MsgBlock) : ChainM (Option BlockNode) := do
  let prevHash := block.header.prevBlock
  let b ← get
  if prevHash = 0 then return none
  else
    match b.index prevHash with
    | some node => return some node
    | none =>
      let node ← loadBlockNode c prevHash
      return some node

end

/-- The loop of `getReorganizeNodes` from a node to the first one in the main chain, which is
returned; the nodes before it are attached, lowest first. -/
def attachPath (inMainChain : Hash → Bool) :
    NodeData → List NodeData → List BlockNode → List BlockNode × NodeData
  | node, [], acc => (acc, node)
  | node, parent :: above, acc =>
    if inMainChain node.hash then (acc, node)
    else attachPath inMainChain parent above (⟨node, parent :: above⟩ :: acc)

/-- The loop from the best node down to the fork point. -/
def detachPath (forkHash : Hash) : NodeData → List NodeData → List BlockNode
  | _, [] => []
  | node, parent :: above =>
    if node.hash = forkHash then []
    else ⟨node, parent :: above⟩ :: detachPath forkHash parent above

/-- `getReorganizeNodes`: the nodes to detach, best one first, and to attach, lowest one first. -/
def getReorganizeNodes (b : BlockChain) (node : BlockNode) : List BlockNode × List BlockNode :=
  let (attachNodes, ancestor) := attachPath b.inMainChain node.toNodeData node.ancestors []
  (detachPath ancestor.hash b.bestNode.toNodeData b.bestNode.ancestors, attachNodes)

/-! ### Moving the main chain -/

section

variable (c : Crypto)

/-- `connectBlock`; the view it returns has been committed. -/
def connectBlock (node : BlockNode) (block : MsgBlock) (utxoView : UtxoViewpoint)
    (keyView : KeyViewpoint) (stxos : List SpentTxOut) : ChainM UtxoViewpoint := do
  let b ← get
  liftRule (reject (block.header.prevBlock ≠ b.bestNode.hash) .assertError)
  liftRule (reject (stxos.length ≠ UtxoViewpoint.countSpentOutputs block) .assertError)
  set { b with
    db := { b.db with
      utxos := utxoView.dbPutUtxoView b.db.utxos
      spendJournal := Function.update b.db.spendJournal (block.blockHash c) (some stxos)
      blockIndex := Function.update b.db.blockIndex (block.blockHash c) (some node.height) }
    index := Function.update b.index node.hash (some node)
    inMainChain := Function.update b.inMainChain node.hash true
    bestNode := node
    keys := keyView }
  return utxoView.commit

/-- `disconnectBlock`. The admin state in memory is not touched. -/
def disconnectBlock (node : BlockNode) (block : MsgBlock) (utxoView : UtxoViewpoint) :
    ChainM UtxoViewpoint := do
  let b ← get
  liftRule (reject (node.hash ≠ b.bestNode.hash) .assertError)
  match node.parent with
  | none => throw .panic
  | some prevNode =>
    discard (liftRule (b.fetchBlock prevNode.hash))
    set { b with
      db := { b.db with
        utxos := utxoView.dbPutUtxoView b.db.utxos
        spendJournal := Function.update b.db.spendJournal (block.blockHash c) none
        blockIndex := Function.update b.db.blockIndex (block.blockHash c) none }
      inMainChain := Function.update b.inMainChain node.hash false
      bestNode := prevNode }
    return utxoView.commit

/-- What the first loop of `reorganizeChain` keeps of a block it detaches. -/
structure Detached where
  node : BlockNode
  block : MsgBlock
  stxos : List SpentTxOut

/-- The first loop of `reorganizeChain`: undo the blocks in the views. -/
def undoBlocks (b : BlockChain) :
    List BlockNode → UtxoViewpoint → KeyViewpoint →
      Except ChainError (List Detached × UtxoViewpoint × KeyViewpoint)
  | [], utxoView, keyView => .ok ([], utxoView, keyView)
  | node :: nodes, utxoView, keyView => do
    let block ← b.fetchBlock node.hash
    let utxoView := utxoView.fetchInputUtxos c b.db.utxos block
    let stxos ← b.fetchSpendJournal c block utxoView
    let utxoView ← utxoView.disconnectTransactions c block stxos
    let keyView ← keyView.disconnectTransactions block
    let (rest, utxoView, keyView) ← undoBlocks b nodes utxoView keyView
    return (⟨node, block, stxos⟩ :: rest, utxoView, keyView)

/-- The second loop: check the new blocks one after the other. -/
def verifyBlocks (b : BlockChain) :
    List BlockNode → UtxoViewpoint → KeyViewpoint →
      Except ChainError (List (BlockNode × MsgBlock) × KeyViewpoint)
  | [], _, keyView => .ok ([], keyView)
  | node :: nodes, utxoView, keyView => do
    let block ← b.fetchBlock node.hash
    let s ← checkConnectBlock c b.env node block utxoView keyView
    let (rest, keyView) ← verifyBlocks b nodes s.utxoView s.keyView
    return ((node, block) :: rest, keyView)

/-- The third loop: detach the old blocks. -/
def detachBlocks : List Detached → UtxoViewpoint → ChainM UtxoViewpoint
  | [], utxoView => pure utxoView
  | d :: ds, utxoView => do
    let b ← get
    let utxoView := utxoView.fetchInputUtxos c b.db.utxos d.block
    let utxoView ← liftRule (utxoView.disconnectTransactions c d.block d.stxos)
    let utxoView ← disconnectBlock c d.node d.block utxoView
    detachBlocks ds utxoView

/-- The fourth loop: attach the new blocks. The key view is the one the second loop has already
connected them to. -/
def attachBlocks :
    List (BlockNode × MsgBlock) → UtxoViewpoint → KeyViewpoint → ChainM Unit
  | [], _, _ => pure ()
  | (node, block) :: rest, utxoView, keyView => do
    let b ← get
    let utxoView := utxoView.fetchInputUtxos c b.db.utxos block
    let (utxoView, stxos) ← liftRule (utxoView.connectTransactions c block)
    let keyView ← liftRule (keyView.connectTransactions c block)
    let utxoView ← connectBlock c node block utxoView keyView stxos
    attachBlocks rest utxoView keyView

/-- `reorganizeChain`. Its log lines read the first nodes of both lists, so an empty list panics. -/
def reorganizeChain (detachNodes attachNodes : List BlockNode) (flags : BehaviorFlags) :
    ChainM Unit := do
  let b ← get
  let utxoView := newUtxoViewpoint b.bestNode.hash
  let (detached, utxoView, keyView) ← liftRule (undoBlocks c b detachNodes utxoView b.keys)
  let (attached, keyView) ← liftRule (verifyBlocks c b attachNodes utxoView keyView)
  if flags.dryRun then return ()
  else
    let utxoView ← detachBlocks c detached (newUtxoViewpoint b.bestNode.hash)
    attachBlocks c attached utxoView keyView
    liftRule (reject (detachNodes = [] ∨ attachNodes = []) .panic)

/-- The case of `connectBestChain` in which the block extends the main chain. -/
def extendMainChain (node : BlockNode) (block : MsgBlock) (flags : BehaviorFlags) :
    ChainM Unit := do
  let b ← get
  let utxoView := newUtxoViewpoint node.parentHash
  if flags.fastAdd then
    if flags.dryRun then return ()
    else
      let utxoView := utxoView.fetchInputUtxos c b.db.utxos block
      let (utxoView, stxos) ← liftRule (utxoView.connectTransactions c block)
      let keyView ← liftRule (b.keys.connectTransactions c block)
      discard (connectBlock c node block utxoView keyView stxos)
  else
    let s ← liftRule (checkConnectBlock c b.env node block utxoView b.keys)
    if flags.dryRun then return ()
    else discard (connectBlock c node block s.utxoView s.keyView s.stxos)

/-- `connectBestChain`: whether the block is now in the main chain. -/
def connectBestChain (node : BlockNode) (block : MsgBlock) (flags : BehaviorFlags) :
    ChainM Bool := do
  let b ← get
  if node.parentHash = b.bestNode.hash then
    extendMainChain c node block flags
    return true
  else
    let sideChain := b.addSideNode node
    -- a dry run takes the node out of the index again when it ends
    set (if flags.dryRun then b else sideChain)
    liftRule (reject (node.ancestors = []) .panic)
    if node.workSum ≤ b.bestNode.workSum then return false
    else
      let (detachNodes, attachNodes) := sideChain.getReorganizeNodes node
      reorganizeChain c detachNodes attachNodes flags
      return true

/-! ### Accepting blocks -/

def maybeAcceptBlock (block : MsgBlock) (flags : BehaviorFlags) : ChainM Bool := do
  let prevNode ← getPrevNodeFromBlock c block
  let checkpointBlock ← findPreviousCheckpoint
  let b ← get
  liftRule (checkBlockContext c b.params (checkpointBlock.map (·.height)) block prevNode flags)
  modify (storeBlock (block.blockHash c) block)
  connectBestChain c (newBlockNode c block.header prevNode) block flags

def blockExists (b : BlockChain) (hash : Hash) : Bool :=
  (b.index hash).isSome || (b.db.blocks hash).isSome

/-- The checks of `ProcessBlock` against the last checkpoint. -/
def checkAgainstCheckpoint (params : Params) (header : BlockHeader) (flags : BehaviorFlags)
    (checkpointBlock : Option MsgBlock) : Except ChainError Unit :=
  match checkpointBlock with
  | none => .ok ()
  | some checkpoint => do
    ruleError (header.timestamp < checkpoint.header.timestamp) .checkpointTimeTooOld
    ruleError (¬ flags.fastAdd ∧ compactToBig params.powLimitBits < compactToBig header.bits)
      .difficultyTooLow

/-- `ProcessBlock`. A block whose parent is unknown goes to the orphan pool, which is left out. -/
def processBlock (block : MsgBlock) (flags : BehaviorFlags) : ChainM Bool := do
  let b ← get
  liftRule (ruleError (b.blockExists (block.blockHash c)) .duplicateBlock)
  liftRule (checkBlockSanity c block b.params.powLimit flags)
  let checkpointBlock ← findPreviousCheckpoint
  liftRule (checkAgainstCheckpoint b.params block.header flags checkpointBlock)
  if b.blockExists block.header.prevBlock then maybeAcceptBlock c block flags else return false

end

end BlockChain

end Prova
