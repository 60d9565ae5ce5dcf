import Prova.Blockchain.Error
import Prova.Chaincfg.Params
import Mathlib.Data.List.Sort

/-!
# Block nodes (`blockNode` of `chain.go`, `difficulty.go`, `ratelimit.go`)

A node is a header in the block index with a pointer to its parent. Here it carries the nodes above
it instead of the pointer: the parents never change once a node is made, and within one run of the
program every node but the genesis one has its parent in memory, so that walking the parents is
walking the list. Loading a parent from the database, which only happens after a restart, is left
out.
-/

namespace Prova

structure NodeData where
  hash : Hash
  parentHash : Hash
  workSum : Nat
  height : UInt32
  version : UInt32
  bits : UInt32
  timestamp : Int64
  validatingPubKey : BlockValidatingPubKey
deriving DecidableEq

structure BlockNode extends NodeData where
  /-- The parent, its parent and so on down to the genesis block. -/
  ancestors : List NodeData
deriving DecidableEq

/-! ### Difficulty -/

def compactToBig (compact : UInt32) : Int :=
  let mantissa := (compact &&& 0x007fffff).toNat
  let exponent := (compact >>> 24).toNat
  let bn := if exponent ≤ 3 then mantissa >>> (8 * (3 - exponent))
    else mantissa <<< (8 * (exponent - 3))
  if compact &&& 0x00800000 ≠ 0 then -bn else bn

/-- `BigToCompact`, for the numbers it is called with, which are not negative. -/
def bigToCompact (n : Nat) : UInt32 :=
  if n = 0 then 0
  else
    let exponent := n.log2 / 8 + 1
    let mantissa : UInt32 :=
      if exponent ≤ 3 then UInt32.ofNat (n <<< (8 * (3 - exponent)))
      else UInt32.ofNat (n >>> (8 * (exponent - 3)))
    if mantissa &&& 0x00800000 ≠ 0 then UInt32.ofNat (exponent + 1) <<< 24 ||| mantissa >>> 8
    else UInt32.ofNat exponent <<< 24 ||| mantissa

def calcWork (bits : UInt32) : Nat :=
  let difficultyNum := compactToBig bits
  if difficultyNum ≤ 0 then 0 else 2 ^ 256 / (difficultyNum.toNat + 1)

/-- `newBlockNode`, with the parent it is given afterwards. -/
def newBlockNode (c : Crypto) (header : BlockHeader) (parent : Option BlockNode) : BlockNode where
  hash := header.blockHash c
  parentHash := header.prevBlock
  workSum := (parent.elim 0 (·.workSum)) + calcWork header.bits
  height := header.height
  version := header.version
  bits := header.bits
  timestamp := header.timestamp
  validatingPubKey := header.validatingPubKey
  ancestors := parent.elim [] fun p => p.toNodeData :: p.ancestors

namespace BlockNode

def parent (node : BlockNode) : Option BlockNode :=
  match node.ancestors with
  | [] => none
  | data :: ancestors => some ⟨data, ancestors⟩

def chain (node : BlockNode) : List NodeData := node.toNodeData :: node.ancestors

end BlockNode

def medianTimeBlocks : Nat := 11

/-- `calcPastMedianTime` of a node given by its chain. -/
def calcPastMedianTime (chain : List NodeData) : Int64 :=
  let timestamps := ((chain.take medianTimeBlocks).map (·.timestamp)).insertionSort (· ≤ ·)
  timestamps.getD (timestamps.length / 2) 0

def isMajorityVersion (params : Params) (minVer : UInt32) (chain : List NodeData)
    (numRequired : UInt64) : Bool :=
  numRequired.toNat ≤
    (chain.take params.blockUpgradeNumToCheck.toNat).countP fun node => minVer ≤ node.version

/-- `nextRequiredDifficulty`. Time spans are in nanoseconds; the average is scaled in milliseconds,
dividing first. -/
def nextRequiredDifficulty (params : Params) (firstNodeTime lastNodeTime : Int64)
    (avgDifficulty : Int) : UInt32 :=
  let window := params.averagingWindowTimespan
  let timespan := lastNodeTime * 1000000000 - firstNodeTime * 1000000000
  let timespan := window + (timespan - window) / 4
  let timespan :=
    if timespan < params.minActualTimespan then params.minActualTimespan
    else if params.maxActualTimespan < timespan then params.maxActualTimespan
    else timespan
  let scaled := avgDifficulty / (window / 1000000).toInt * (timespan / 1000000).toInt
  bigToCompact (if (params.powLimit : Int) < scaled then params.powLimit else scaled.toNat)

/-- `calcNextRequiredDifficulty` after a node given by its chain. -/
def calcNextRequiredDifficulty (params : Params) (chain : List NodeData) : UInt32 :=
  match chain.drop params.powAveragingWindow with
  | [] => params.powLimitBits
  | firstNode :: above =>
    let total := ((chain.take params.powAveragingWindow).map fun node => compactToBig node.bits).sum
    nextRequiredDifficulty params (calcPastMedianTime (firstNode :: above))
      (calcPastMedianTime chain) (total / params.powAveragingWindow)

/-! ### Rate limit -/

/-- The loop of `IsGenerationShareRateLimited`. -/
def shareExceeded (validatePubKey : BlockValidatingPubKey) (maxBlocks : Nat) :
    Nat → List BlockValidatingPubKey → Bool
  | _, [] => false
  | blockCount, key :: keys =>
    let blockCount := if key = validatePubKey then blockCount + 1 else blockCount
    maxBlocks ≤ blockCount || shareExceeded validatePubKey maxBlocks blockCount keys

def isGenerationShareRateLimited (validatePubKey : BlockValidatingPubKey)
    (prevPubKeys : List BlockValidatingPubKey) (maxBlocks : Nat) (prospectiveInclusion : Bool)
    (lastValidatePubKey : BlockValidatingPubKey) : Bool :=
  shareExceeded validatePubKey maxBlocks
    (if prospectiveInclusion && validatePubKey == lastValidatePubKey then 1 else 0) prevPubKeys

def isValidateKeyRateLimited (params : Params) (node : BlockNode)
    (validatePubKey : BlockValidatingPubKey) (prospectiveInclusion : Bool) : Bool :=
  if params.chainWindowMaxBlocks = 0 then false
  else
    let window :=
      if prospectiveInclusion then params.powAveragingWindow - 1 else params.powAveragingWindow
    let prevPubKeys := (node.ancestors.take window).map (·.validatingPubKey)
    isGenerationShareRateLimited validatePubKey prevPubKeys params.chainWindowMaxBlocks
      prospectiveInclusion node.validatingPubKey

end Prova
