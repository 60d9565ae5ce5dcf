import Prova.Wire.Common
import Prova.Wire.MsgBlock

/-!
# Reading block headers (`wire/blockheader.go`)

A header has a fixed length, so the first bytes of a stored block are its header.
-/

namespace Prova

/-- `io.ReadFull` of an array. -/
def readArray (n : Nat) (r : Bytes) : Except WireError ({ b : Bytes // b.length = n } × Bytes) :=
  if h : n ≤ r.length then .ok (⟨r.take n, List.length_take_of_le h⟩, r.drop n)
  else if r = [] then .error .eof
  else .error .unexpectedEOF

def readHash (r : Bytes) : Except WireError (Hash × Bytes) := do
  let (buf, r) ← readArray 32 r
  return (Hash.ofBytes buf.val, r)

def readBlockHeader (r : Bytes) : Except WireError (BlockHeader × Bytes) := do
  let (version, r) ← readNat 4 r
  let (prevBlock, r) ← readHash r
  let (merkleRoot, r) ← readHash r
  let (timestamp, r) ← readNat 8 r
  let (bits, r) ← readNat 4 r
  let (height, r) ← readNat 4 r
  let (size, r) ← readNat 4 r
  let (nonce, r) ← readNat 8 r
  let (validatingPubKey, r) ← readArray blockValidatingPubKeySize r
  let (signature, r) ← readArray blockSignatureSize r
  return ({
    version := UInt32.ofNat version
    prevBlock := prevBlock
    merkleRoot := merkleRoot
    timestamp := (UInt64.ofNat timestamp).toInt64
    bits := UInt32.ofNat bits
    height := UInt32.ofNat height
    size := UInt32.ofNat size
    nonce := UInt64.ofNat nonce
    validatingPubKey := validatingPubKey
    signature := signature }, r)

def MsgBlock.serialize (msg : MsgBlock) : Bytes :=
  writeBlockHeader msg.header ++ writeVarInt (len64 msg.transactions) ++
    msg.transactions.flatMap MsgTx.serialize

theorem length_writeBlockHeader (h : BlockHeader) : (writeBlockHeader h).length = blockHeaderLen := by
  have hkey := h.validatingPubKey.property
  have hsig := h.signature.property
  simp only [writeBlockHeader, List.length_append, length_leBytes, Hash.length_bytes, hkey, hsig, blockHeaderLen]

end Prova
