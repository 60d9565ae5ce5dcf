import Prova.Blockchain.UtxoViewpoint

/-!
# Priorities of transactions (`mining/policy.go`)

The priority of a transaction is the sum of the values it spends, each times its age, over its size.
It is a floating point number; what is done with such numbers is a parameter, of which nothing is
assumed.
-/

namespace Prova

/-- The operations on `float64` that priorities and the limit on free transactions use. -/
class Float64 (F : Type) where
  ofInt64 : Int64 → F
  add : F → F → F
  mul : F → F → F
  div : F → F → F
  pow : F → F → F
  lt : F → F → Bool
  le : F → F → Bool
  eq : F → F → Bool
  /-- The constant `1.0 - 1.0/600.0`. -/
  decay : F

namespace Mining

/-- `UnminedHeight`, the height of an output that is not in a block yet. -/
def unminedHeight : UInt32 := 0x7fffffff

/-- `TxDesc` of a transaction source. -/
structure TxDesc where
  tx : MsgTx
  /-- In nanoseconds, as all times the pool keeps. -/
  added : Int64
  height : UInt32
  fee : Int64
  feePerKB : Int64
deriving DecidableEq

section

variable {F : Type} [Float64 F]

def minHighPriority : F := Float64.ofInt64 0

/-- The age of one input times its value, if its output is there. -/
def inputValueAge (utxoView : UtxoViewpoint) (nextBlockHeight : UInt32) (txIn : TxIn) : Option Int64 :=
  let originIndex := txIn.previousOutPoint.index
  match utxoView.lookupEntry txIn.previousOutPoint.hash with
  | none => none
  | some txEntry =>
    if txEntry.isOutputSpent originIndex then none
    else
      let inputAge : UInt32 :=
        if txEntry.blockHeight = unminedHeight then 0 else nextBlockHeight - txEntry.blockHeight
      some (txEntry.amountByIndex originIndex * inputAge.toUInt64.toInt64)

def calcInputValueAge (tx : MsgTx) (utxoView : UtxoViewpoint) (nextBlockHeight : UInt32) : F :=
  (tx.txIn.filterMap (inputValueAge utxoView nextBlockHeight)).foldl
    (fun totalInputAge age => Float64.add totalInputAge (Float64.ofInt64 age)) (Float64.ofInt64 0)

def calcPriority (tx : MsgTx) (utxoView : UtxoViewpoint) (nextBlockHeight : UInt32) : F :=
  let overhead := (tx.txIn.map fun txIn => 41 + min 110 txIn.signatureScript.length).sum
  let serializedTxSize := tx.serializeSize
  if serializedTxSize ≤ overhead then Float64.ofInt64 0
  else
    Float64.div (calcInputValueAge tx utxoView nextBlockHeight)
      (Float64.ofInt64 (Int64.ofNat (serializedTxSize - overhead)))

end

end Mining

end Prova
