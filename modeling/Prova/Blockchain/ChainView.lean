import Prova.Blockchain.Chain

/-!
# What the chain tells about transactions outside of blocks

The functions of the chain that the mempool and the block templates call: the outputs a transaction
spends (`FetchUtxoView`), and the relative lock times of its inputs (`CalcSequenceLock`).
-/

namespace Prova

structure SequenceLock where
  seconds : Int64
  blockHeight : Int32
deriving DecidableEq

def sequenceLockActive (sequenceLock : SequenceLock) (blockHeight : Int32) (medianTimePast : Int64) :
    Bool :=
  ¬ (medianTimePast ≤ sequenceLock.seconds ∨ blockHeight ≤ sequenceLock.blockHeight)

namespace BlockChain

/-- `FetchUtxoView`: the entries of the transactions that a transaction spends from, and its own. -/
def fetchUtxoView (c : Crypto) (b : BlockChain) (tx : MsgTx) : UtxoViewpoint :=
  (newUtxoViewpoint 0).fetchUtxosMain b.db.utxos
    (tx.txHash c :: if isCoinBase tx then [] else tx.txIn.map (·.previousOutPoint.hash))

/-- `MedianTime` of the best state. -/
def medianTime (b : BlockChain) : Int64 := calcPastMedianTime b.bestNode.chain

/-- The chain of the node `relativeNode` returns. It stops at the genesis block. -/
def relativeChain (chain : List NodeData) (distance : UInt32) : List NodeData :=
  chain.drop (min distance.toNat (chain.length - 1))

/-- The body of the loop of `calcSequenceLock`. -/
def inputSequenceLock (b : BlockChain) (utxoView : UtxoViewpoint) (sequenceLock : SequenceLock)
    (txIn : TxIn) : Except ChainError SequenceLock :=
  match utxoView.lookupEntry txIn.previousOutPoint.hash with
  | none => .error (.rule .missingTx)
  | some utxo =>
    let inputHeight := if utxo.blockHeight = 0x7fffffff then b.bestNode.height + 1 else utxo.blockHeight
    let sequenceNum := txIn.sequence.toNat
    let relativeLock := Int64.ofNat (sequenceNum &&& sequenceLockTimeMask)
    if sequenceNum &&& sequenceLockTimeDisabled = sequenceLockTimeDisabled then .ok sequenceLock
    else if sequenceNum &&& sequenceLockTimeIsSeconds = sequenceLockTimeIsSeconds then
      let inputDepth := b.bestNode.height - inputHeight + 1
      let medianTime := calcPastMedianTime (relativeChain b.bestNode.chain inputDepth)
      let timeLock := medianTime + (relativeLock * 512 - 1)
      .ok (if sequenceLock.seconds < timeLock then { sequenceLock with seconds := timeLock }
        else sequenceLock)
    else
      let blockHeight := inputHeight.toInt32 + (relativeLock - 1).toInt32
      .ok (if sequenceLock.blockHeight < blockHeight then
          { sequenceLock with blockHeight := blockHeight }
        else sequenceLock)

/-- `CalcSequenceLock`. Whether it is asked for by the mempool makes no difference. -/
def calcSequenceLock (b : BlockChain) (tx : MsgTx) (utxoView : UtxoViewpoint) :
    Except ChainError SequenceLock :=
  if tx.version < 2 ∨ isCoinBase tx then .ok ⟨-1, -1⟩
  else tx.txIn.foldlM (b.inputSequenceLock utxoView) ⟨-1, -1⟩

end BlockChain

end Prova
