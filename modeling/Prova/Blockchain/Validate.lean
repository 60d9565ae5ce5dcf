import Prova.Blockchain.BlockNode
import Prova.Blockchain.ScriptVal
import Prova.Blockchain.TxRules

/-!
# Rules for blocks (`blockchain/validate.go`, `merkle.go`)

What a block has to satisfy by itself, against the headers before it, and against the unspent outputs
and the admin state it is connected to.
-/

namespace Prova

structure BehaviorFlags where
  fastAdd : Bool
  noPoWCheck : Bool
  dryRun : Bool
deriving DecidableEq

def bfNone : BehaviorFlags := ⟨false, false, false⟩

def maxSigOpsPerBlock : Nat := maxBlockPayload / 50

/-- `txscript.Bip16Activation` in seconds. -/
def bip16Activation : Int64 := 1333238400

/-! ### Merkle tree -/

section

variable (c : Crypto)

def hashMerkleBranches (left right : Hash) : Hash := c.doubleHashH (left.bytes ++ right.bytes)

/-- One level of the tree: a missing right child is replaced by the left one. -/
def merkleLevel : List (Option Hash) → List (Option Hash)
  | left :: right :: rest =>
    (left.map fun l => hashMerkleBranches c l (right.getD l)) :: merkleLevel rest
  | _ => []

def merkleLevels : Nat → List (Option Hash) → List (Option Hash)
  | 0, level => level
  | n + 1, level => merkleLevels n (merkleLevel c level)

def nextPowerOfTwo (n : Nat) : Nat := if n &&& (n - 1) = 0 then n else 2 ^ (n.log2 + 1)

/-- The root `BuildMerkleTreeStore` ends with. The leaves are the transaction hashes and then the
hashes with signatures, each padded to a power of two. -/
def merkleRoot (txs : List MsgTx) : Option Hash :=
  let nextPoT := nextPowerOfTwo txs.length
  let pad := fun leaves : List Hash =>
    leaves.map some ++ List.replicate (nextPoT - leaves.length) none
  let leaves := pad (txs.map (·.txHash c)) ++ pad (txs.map (·.txHashWithSig c))
  ((merkleLevels c (nextPoT.log2 + 1) leaves).headD none)

/-! ### The block by itself -/

def checkProofOfWork (header : BlockHeader) (powLimit : Nat) (flags : BehaviorFlags) :
    Except ChainError Unit := do
  let target := compactToBig header.bits
  ruleError (target ≤ 0) .unexpectedDifficulty
  ruleError ((powLimit : Int) < target) .unexpectedDifficulty
  ruleError (¬ flags.noPoWCheck ∧ 1 ≤ header.height ∧ target < (header.blockHash c).toNat) .highHash

def countSigOps (tx : MsgTx) : Nat :=
  (tx.txIn.map fun txIn => getSigOpCount txIn.signatureScript).sum +
    (tx.txOut.map fun txOut => getSigOpCount txOut.pkScript).sum

/-- `checkBlockHeaderSanity` and `checkBlockSanity`. -/
def checkBlockSanity (block : MsgBlock) (powLimit : Nat) (flags : BehaviorFlags) :
    Except ChainError Unit := do
  checkProofOfWork c block.header powLimit flags
  let txs := block.transactions
  ruleError (txs = []) .noTransactions
  ruleError (maxBlockPayload < txs.length) .tooManyTransactions
  ruleError (block.serializeSize ≠ block.header.size.toNat) .inconsistentBlkSize
  ruleError (maxBlockPayload < block.serializeSize) .blockTooBig
  ruleError (¬ ∀ tx ∈ txs.head?, isCoinBase tx) .firstTxNotCoinbase
  ruleError (∃ tx ∈ txs.drop 1, isCoinBase tx) .multipleCoinbases
  forM txs checkTransactionSanity
  ruleError (merkleRoot c txs ≠ some block.header.merkleRoot) .badMerkleRoot
  ruleError (¬ (txs.map (·.txHash c)).Nodup) .duplicateTx
  ruleError (maxSigOpsPerBlock < (txs.map countSigOps).sum) .tooManySigOps

/-! ### The block after its headers -/

def verifyCheckpoint (params : Params) (height : UInt32) (hash : Hash) : Bool :=
  match params.checkpoints.reverse.find? fun cp => cp.height == height with
  | none => true
  | some checkpoint => checkpoint.hash == hash

/-- The part of `checkBlockHeaderContext` that a fast add skips first: difficulty, time and the
validator's signature. -/
def checkHeaderSigned (params : Params) (header : BlockHeader) (prevNode : BlockNode) :
    Except ChainError Unit := do
  ruleError (header.bits ≠ calcNextRequiredDifficulty params prevNode.chain) .unexpectedDifficulty
  ruleError (header.timestamp ≤ calcPastMedianTime prevNode.chain) .timeTooOld
  match parsePubKey header.validatingPubKey.val with
  | .error e => throw (.pubKey e)
  | .ok pubKey =>
    match header.verify c pubKey with
    | .error _ => throw .panic
    | .ok verified => ruleError (¬ verified) .badBlockSignature

/-- The block version has not been left behind by the network. -/
def checkVersion (params : Params) (header : BlockHeader) (prevNode : BlockNode) :
    Except ChainError Unit :=
  let outdated := fun ver : UInt32 => header.version < ver ∧
    isMajorityVersion params ver prevNode.chain params.blockRejectNumRequired
  ruleError (outdated 4 ∨ outdated 3 ∨ outdated 2) .blockVersionTooOld

/-- `checkBlockHeaderContext`; `checkpointHeight` is that of the block `findPreviousCheckpoint`
returns. -/
def checkBlockHeaderContext (params : Params) (checkpointHeight : Option UInt32)
    (header : BlockHeader) (prevNode : BlockNode) (flags : BehaviorFlags) :
    Except ChainError Unit := do
  if flags.fastAdd then pure () else checkHeaderSigned c params header prevNode
  let blockHeight := prevNode.height + 1
  ruleError (header.height ≠ blockHeight) .badHeight
  ruleError (¬ verifyCheckpoint params blockHeight (header.blockHash c)) .badCheckpoint
  ruleError (∃ h ∈ checkpointHeight, blockHeight < h) .forkTooOld
  if flags.fastAdd then pure () else checkVersion params header prevNode

/-- `checkBlockContext`; the genesis block has no previous node and is not checked. -/
def checkBlockContext (params : Params) (checkpointHeight : Option UInt32) (block : MsgBlock)
    (prevNode : Option BlockNode) (flags : BehaviorFlags) : Except ChainError Unit :=
  match prevNode with
  | none => .ok ()
  | some prevNode => do
    checkBlockHeaderContext c params checkpointHeight block.header prevNode flags
    ruleError (¬ flags.fastAdd ∧ ∃ tx ∈ block.transactions,
      ¬ isFinalizedTransaction tx (prevNode.height + 1) block.header.timestamp) .unfinalizedTx

/-! ### Connecting the block -/

/-- `checkBIP0030`: no transaction of the block has unspent outputs already. -/
def checkBIP0030 (db : UtxoDb) (block : MsgBlock) (view : UtxoViewpoint) :
    Except ChainError UtxoViewpoint := do
  let hashes := block.transactions.map (·.txHash c)
  let view := view.fetchUtxos db hashes
  ruleError (∃ hash ∈ hashes, ∃ entry ∈ view.lookupEntry hash, ¬ entry.isFullySpent) .overwriteTx
  return view

/-- `CountP2SHSigOps` for one input. -/
def countP2SHInput (utxoView : UtxoViewpoint) (txIn : TxIn) : Except ChainError Nat :=
  let prevOut := txIn.previousOutPoint
  match utxoView.lookupEntry prevOut.hash with
  | none => .error (.rule .missingTx)
  | some txEntry => do
    ruleError (txEntry.isOutputSpent prevOut.index) .missingTx
    let pkScript := (txEntry.pkScriptByIndex prevOut.index).getD []
    let isPayToScriptHash :=
      match parseScript pkScript with
      | .error _ => false
      | .ok pops => isScriptHash pops
    return if isPayToScriptHash then getPreciseSigOpCount txIn.signatureScript pkScript true else 0

def countP2SHSigOps (tx : MsgTx) (isCoinBaseTx : Bool) (utxoView : UtxoViewpoint) :
    Except ChainError Nat :=
  if isCoinBaseTx then .ok 0
  else tx.txIn.foldlM (fun total txIn => (total + ·) <$> countP2SHInput utxoView txIn) 0

/-- The signature operation limit of `checkConnectBlock`, transaction by transaction. -/
def checkSigOps (enforceBIP0016 : Bool) (utxoView : UtxoViewpoint) (totalSigOps : Nat)
    (tx : MsgTx × Nat) : Except ChainError Nat := do
  let numP2SHSigOps ←
    if enforceBIP0016 then countP2SHSigOps tx.1 (tx.2 == 0) utxoView else pure 0
  let totalSigOps := totalSigOps + (countSigOps tx.1 + numP2SHSigOps)
  ruleError (maxSigOpsPerBlock < totalSigOps) .tooManySigOps
  return totalSigOps

structure ConnectState where
  utxoView : UtxoViewpoint
  keyView : KeyViewpoint
  totalFees : Int64
  stxos : List SpentTxOut

/-- The body of that loop. The transaction is checked against the views as the transactions before
it have left them, and then changes them. -/
def connectTx (params : Params) (height : UInt32) (s : ConnectState) (tx : MsgTx) :
    Except ChainError ConnectState := do
  let txFee ← checkTransactionInputs params tx height s.utxoView
  let totalFees := s.totalFees + txFee
  ruleError (totalFees < s.totalFees) .badFees
  checkTransactionOutputs params tx s.keyView
  let (utxoView, stxos) ← s.utxoView.connectTransaction c tx height
  let keyView ← s.keyView.connectTransaction c tx
  return ⟨utxoView, keyView, totalFees, s.stxos ++ stxos⟩

/-- `CalcBlockSubsidy`: the base subsidy is zero. -/
def calcBlockSubsidy : Int64 := 0

/-- The script flags `checkConnectBlock` sets for a block. -/
def blockScriptFlags (params : Params) (node : BlockNode) (header : BlockHeader) : ScriptFlags :=
  let enforce := fun ver : UInt32 => ver ≤ header.version ∧
    isMajorityVersion params ver node.ancestors params.blockEnforceNumRequired
  (if bip16Activation ≤ node.timestamp then scriptBip16 else 0) |||
    (if enforce 3 then scriptVerifyDERSignatures else 0) |||
    (if enforce 4 then scriptVerifyCheckLockTimeVerify else 0)

/-- The check of the validating key, against the admin state after the block's transactions. It is
skipped for an empty key set. -/
def checkValidateKey (header : BlockHeader) (keyView : KeyViewpoint) : Except ChainError Unit :=
  match parsePubKey header.validatingPubKey.val with
  | .error e => .error (.pubKey e)
  | .ok pubKey =>
    let validateKeySet := keyView.adminKeySets .validate
    ruleError (0 < validateKeySet.length ∧ validateKeySet.pos pubKey = none) .invalidValidateKey

/-- What `checkConnectBlock` reads of the chain besides the node. -/
structure ConnectEnv where
  params : Params
  utxoDb : UtxoDb
  noVerify : Bool

/-- Whether the scripts of a block are run: not at or below the last checkpoint. -/
def ConnectEnv.runScripts (env : ConnectEnv) (node : BlockNode) : Bool :=
  !env.noVerify && env.params.checkpoints.getLast?.all fun checkpoint =>
    checkpoint.height < node.height

/-- The checks of `checkConnectBlock` before its loop, which load the view. -/
def loadInputs (env : ConnectEnv) (node : BlockNode) (block : MsgBlock)
    (utxoView : UtxoViewpoint) : Except ChainError UtxoViewpoint := do
  ruleError (node.hash = env.params.genesisHash c) .missingTx
  reject (utxoView.bestHash ≠ node.parentHash) .assertError
  let utxoView ← checkBIP0030 c env.utxoDb block utxoView
  let utxoView := utxoView.fetchInputUtxos c env.utxoDb block
  discard (block.transactions.zipIdx.foldlM
    (checkSigOps (bip16Activation ≤ node.timestamp) utxoView) 0)
  return utxoView

/-- The checks of `checkConnectBlock` after its loop. -/
def checkConnected (env : ConnectEnv) (node : BlockNode) (block : MsgBlock) (s : ConnectState) :
    Except ChainError Unit := do
  let coinbase := block.transactions.headD ⟨0, [], [], 0⟩
  ruleError (totalAtomsOut coinbase ≠ calcBlockSubsidy + s.totalFees) .badCoinbaseValue
  checkValidateKey block.header s.keyView
  ruleError (isValidateKeyRateLimited env.params node block.header.validatingPubKey false)
    .excessiveChainShare
  if env.runScripts node then
    checkBlockScripts c block s.utxoView s.keyView (blockScriptFlags env.params node block.header)
  else pure ()

def checkConnectBlock (env : ConnectEnv) (node : BlockNode) (block : MsgBlock)
    (utxoView : UtxoViewpoint) (keyView : KeyViewpoint) : Except ChainError ConnectState := do
  let utxoView ← loadInputs c env node block utxoView
  let s ← block.transactions.foldlM (connectTx c env.params node.height) ⟨utxoView, keyView, 0, []⟩
  checkConnected c env node block s
  return { s with utxoView := s.utxoView.setBestHash node.hash }

end

end Prova
