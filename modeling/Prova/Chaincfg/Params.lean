import Prova.Wire.MsgBlock
import Prova.Btcec.PubKeySet
import Mathlib.Data.List.AList

/-!
# Network parameters (`chaincfg/params.go`)

The parameters that the rules of the chain read. Durations are in nanoseconds, as in the source.
-/

namespace Prova

structure Checkpoint where
  height : UInt32
  hash : Hash
deriving DecidableEq

structure Params where
  genesisBlock : MsgBlock
  adminKeySets : KeySetType → PublicKeySet
  aspKeyIdMap : AList fun _ : KeyID => PublicKey
  powLimit : Nat
  powLimitBits : UInt32
  coinbaseMaturity : UInt16
  subsidyReductionInterval : UInt32
  targetTimePerBlock : Int64
  checkpoints : List Checkpoint
  blockEnforceNumRequired : UInt64
  blockRejectNumRequired : UInt64
  blockUpgradeNumToCheck : UInt64
  powAveragingWindow : Nat
  powMaxAdjustDown : Int64
  powMaxAdjustUp : Int64
  chainWindowMaxBlocks : Nat
  maximumFeeAmount : Int64

namespace Params

/-- `GenesisHash`, in every network the hash of its genesis block. -/
def genesisHash (c : Crypto) (p : Params) : Hash := p.genesisBlock.blockHash c

def averagingWindowTimespan (p : Params) : Int64 :=
  Int64.ofNat p.powAveragingWindow * p.targetTimePerBlock

def maxActualTimespan (p : Params) : Int64 :=
  p.averagingWindowTimespan * (100 + p.powMaxAdjustDown) / 100

def minActualTimespan (p : Params) : Int64 :=
  p.averagingWindowTimespan * (100 - p.powMaxAdjustUp) / 100

/-- `MinValidateKeySetSize`: the quotient rounded up. Without a limit on the blocks of one key the
source converts an infinite quotient to an integer, which is the least one on amd64. -/
def minValidateKeySetSize (p : Params) : Int :=
  if p.chainWindowMaxBlocks = 0 then -2 ^ 63
  else ((p.powAveragingWindow + p.chainWindowMaxBlocks - 1) / p.chainWindowMaxBlocks : Nat)

end Params

end Prova
