import Prova.Txscript.Script
import Mathlib.Data.List.Infix

/-!
# What a signature signs (`txscript/script.go`)

`calcSignatureHash` is the digest of OP_CHECKSIG and OP_CHECKMULTISIG, `calcSignatureHashNew` the one
of OP_CHECKSAFEMULTISIG and OP_CHECKTHREAD. The new digest covers the spent outpoint and its amount,
and neither the scripts nor any signature script of the transaction.
-/

namespace Prova

abbrev SigHashType := UInt32

def sigHashAll : SigHashType := 0x1
def sigHashNone : SigHashType := 0x2
def sigHashSingle : SigHashType := 0x3
def sigHashAnyOneCanPay : SigHashType := 0x80
def sigHashMask : SigHashType := 0x1f

def removeOpcode (pkscript : List ParsedOpcode) (opcode : UInt8) : List ParsedOpcode :=
  pkscript.filter fun pop => pop.opcode != opcode

def canonicalPush (pop : ParsedOpcode) : Bool :=
  let dataLen := pop.data.length
  if op16 < pop.opcode then true
  else if pop.opcode < opPushData1 ∧ op0 < pop.opcode ∧ dataLen = 1 ∧ pop.data.headD 0 ≤ 16 then
    false
  else if pop.opcode = opPushData1 ∧ dataLen < opPushData1.toNat then false
  else if pop.opcode = opPushData2 ∧ dataLen ≤ 0xff then false
  else if pop.opcode = opPushData4 ∧ dataLen ≤ 0xffff then false
  else true

def removeOpcodeByData (pkscript : List ParsedOpcode) (data : Bytes) : List ParsedOpcode :=
  pkscript.filter fun pop => !canonicalPush pop || !decide (data <:+: pop.data)

def calcSignatureHash (c : Crypto) (script : List ParsedOpcode) (hashType : SigHashType) (tx : MsgTx)
    (idx : Nat) : Bytes :=
  if hashType &&& sigHashMask = sigHashSingle ∧ tx.txOut.length ≤ idx then 0x01 :: List.replicate 31 0
  else
    let sigScript :=
      match unparseScript (removeOpcode script opCodeSeparator) with
      | .ok s => s
      | .error _ => []
    let others := hashType &&& sigHashMask = sigHashNone ∨ hashType &&& sigHashMask = sigHashSingle
    let txIn := tx.txIn.mapIdx fun i ti =>
      if i = idx then { ti with signatureScript := sigScript }
      else { ti with signatureScript := [], sequence := if others then 0 else ti.sequence }
    let txOut :=
      if hashType &&& sigHashMask = sigHashNone then []
      else if hashType &&& sigHashMask = sigHashSingle then
        (tx.txOut.take (idx + 1)).mapIdx fun i out => if i < idx then ⟨-1, []⟩ else out
      else tx.txOut
    let txIn := if hashType &&& sigHashAnyOneCanPay ≠ 0 then (txIn.drop idx).take 1 else txIn
    let txCopy : MsgTx := { tx with txIn := txIn, txOut := txOut }
    (c.doubleHashH (txCopy.serialize ++ leBytes 4 hashType.toNat)).bytes

def calcHashPrevOuts (c : Crypto) (tx : MsgTx) : Hash :=
  c.doubleHashH (tx.txIn.flatMap fun ti => writeOutPoint ti.previousOutPoint)

def calcHashSequence (c : Crypto) (tx : MsgTx) : Hash :=
  c.doubleHashH (tx.txIn.flatMap fun ti => leBytes 4 ti.sequence.toNat)

def calcHashOutputs (c : Crypto) (tx : MsgTx) : Hash := c.doubleHashH (tx.txOut.flatMap writeTxOut)

/-- `calcSignatureHashNew`. The hash type is written into the digest as it is; an index past the
inputs gives no digest. -/
def calcSignatureHashNew (c : Crypto) (hashType : SigHashType) (tx : MsgTx) (idx : Nat)
    (amt : Int64) : Bytes :=
  match tx.txIn[idx]? with
  | none => []
  | some ti =>
    (c.doubleHashH
      (leBytes 4 tx.version.toUInt32.toNat ++ (calcHashPrevOuts c tx).bytes ++
        (calcHashSequence c tx).bytes ++ writeOutPoint ti.previousOutPoint ++
        leBytes 8 amt.toUInt64.toNat ++ leBytes 4 ti.sequence.toNat ++ (calcHashOutputs c tx).bytes ++
        leBytes 4 tx.lockTime.toNat ++ leBytes 4 hashType.toNat)).bytes

end Prova
