import Prova.Wire.BlockHeader

/-!
# Reading transactions (`wire/msgtx.go`)

`Deserialize` reads a transaction off the front of a stream. The numbers of inputs and outputs and the
lengths of the scripts are limited by the size of a message.
-/

namespace Prova

open List

variable {tx : MsgTx}

def maxMessagePayload : Nat := 1024 * 1024 * 32

def minTxInPayload : Nat := 9 + 32

def maxTxInPerMessage : Nat := maxMessagePayload / minTxInPayload + 1

def minTxOutPayload : Nat := 9

def maxTxOutPerMessage : Nat := maxMessagePayload / minTxOutPayload + 1

def readOutPoint (r : Bytes) : Except WireError (OutPoint × Bytes) := do
  let (hash, r) ← readHash r
  let (index, r) ← readNat 4 r
  return (⟨hash, UInt32.ofNat index⟩, r)

def readScript (r : Bytes) (fieldName : String) : Except WireError (Bytes × Bytes) :=
  readVarBytes r maxMessagePayload fieldName

def readTxIn (r : Bytes) : Except WireError (TxIn × Bytes) := do
  let (previousOutPoint, r) ← readOutPoint r
  let (signatureScript, r) ← readScript r "transaction input signature script"
  let (sequence, r) ← readNat 4 r
  return (⟨previousOutPoint, signatureScript, UInt32.ofNat sequence⟩, r)

def readTxOut (r : Bytes) : Except WireError (TxOut × Bytes) := do
  let (value, r) ← readNat 8 r
  let (pkScript, r) ← readScript r "transaction output public key script"
  return (⟨(UInt64.ofNat value).toInt64, pkScript⟩, r)

/-- The loops of `BtcDecode`. -/
def readTimes {α : Type} (read : Bytes → Except WireError (α × Bytes)) :
    Nat → Bytes → Except WireError (List α × Bytes)
  | 0, r => return ([], r)
  | n + 1, r => do
    let (item, r) ← read r
    let (items, r) ← readTimes read n r
    return (item :: items, r)

/-- `Deserialize`, with what is left of the stream. -/
def MsgTx.deserialize (r : Bytes) : Except WireError (MsgTx × Bytes) := do
  let (version, r) ← readNat 4 r
  let (count, r) ← readVarInt r
  reject (maxTxInPerMessage < count) (.tooManyToFit "input transactions" count maxTxInPerMessage)
  let (txIn, r) ← readTimes readTxIn count r
  let (count, r) ← readVarInt r
  reject (maxTxOutPerMessage < count) (.tooManyToFit "output transactions" count maxTxOutPerMessage)
  let (txOut, r) ← readTimes readTxOut count r
  let (lockTime, r) ← readNat 4 r
  return (⟨(UInt32.ofNat version).toInt32, txIn, txOut, UInt32.ofNat lockTime⟩, r)

/-! ### Sizes -/

theorem length_writeVarInt (val : UInt64) : (writeVarInt val).length = varIntSerializeSize val := by
  unfold writeVarInt varIntSerializeSize
  split_ifs <;> simp

theorem length_writeVarBytes (b : Bytes) : (writeVarBytes b).length = varIntSerializeSize (len64 b) + b.length := by
  rw [writeVarBytes, length_append, length_writeVarInt]

theorem length_writeTxIn (ti : TxIn) : (writeTxIn false ti).length =
    40 + varIntSerializeSize (len64 ti.signatureScript) + ti.signatureScript.length := by
  simp only [writeTxIn, writeOutPoint, length_append, Hash.length_bytes, length_leBytes,
    Bool.false_eq_true, if_false, length_writeVarBytes]
  omega

theorem length_writeTxOut (out : TxOut) : (writeTxOut out).length =
    8 + varIntSerializeSize (len64 out.pkScript) + out.pkScript.length := by
  simp only [writeTxOut, length_append, length_leBytes, length_writeVarBytes]
  omega

theorem MsgTx.length_serialize (tx : MsgTx) : tx.serialize.length = tx.serializeSize := by
  simp only [serialize, btcEncode, serializeSize, length_append, length_leBytes,
    length_writeVarInt, length_flatMap, length_writeTxIn, length_writeTxOut]
  omega

theorem MsgBlock.length_serialize (block : MsgBlock) : block.serialize.length = block.serializeSize := by
  simp only [serialize, serializeSize, length_append, length_writeBlockHeader, length_writeVarInt,
    length_flatMap, MsgTx.length_serialize]

/-- What the decoder lets pass: the numbers of inputs and outputs and the lengths of the scripts. -/
structure MsgTx.WithinLimits (tx : MsgTx) : Prop where
  ins : tx.txIn.length ≤ maxTxInPerMessage
  outs : tx.txOut.length ≤ maxTxOutPerMessage
  sigs : ∀ ti ∈ tx.txIn, ti.signatureScript.length ≤ maxMessagePayload
  scripts : ∀ out ∈ tx.txOut, out.pkScript.length ≤ maxMessagePayload

end Prova
