import Prova.Wire.MsgTx

/-!
# Blocks (`wire/blockheader.go`, `wire/msgblock.go`)

The header with its two hashes: the block hash over all of it, and the digest the validator signs,
which leaves out the difficulty, the height, the size, the nonce and the validating key.
-/

namespace Prova

def blockValidatingPubKeySize : Nat := 33
def blockSignatureSize : Nat := 80

/-- `[BlockValidatingPubKeySize]byte`. -/
abbrev BlockValidatingPubKey := { b : Bytes // b.length = blockValidatingPubKeySize }

/-- `[BlockSignatureSize]byte`. -/
abbrev BlockSignature := { b : Bytes // b.length = blockSignatureSize }

/-- The key and the signature of a header that has none. -/
def zeroValidatingPubKey : BlockValidatingPubKey := ⟨List.replicate 33 0, rfl⟩

@[inherit_doc zeroValidatingPubKey]
def zeroSignature : BlockSignature := ⟨List.replicate 80 0, rfl⟩

/-- The time stamp is in seconds, which is all the wire format has. -/
structure BlockHeader where
  version : UInt32
  prevBlock : Hash
  merkleRoot : Hash
  timestamp : Int64
  bits : UInt32
  height : UInt32
  size : UInt32
  nonce : UInt64
  validatingPubKey : BlockValidatingPubKey
  signature : BlockSignature
deriving DecidableEq

structure MsgBlock where
  header : BlockHeader
  transactions : List MsgTx
deriving DecidableEq

/-- `blockHeaderLen`, the length of an encoded header. -/
def blockHeaderLen : Nat := 32 + 32 * 2 + blockValidatingPubKeySize + blockSignatureSize

def writeBlockHeader (h : BlockHeader) : Bytes :=
  leBytes 4 h.version.toNat ++ h.prevBlock.bytes ++ h.merkleRoot.bytes ++
    leBytes 8 h.timestamp.toUInt64.toNat ++ leBytes 4 h.bits.toNat ++ leBytes 4 h.height.toNat ++
    leBytes 4 h.size.toNat ++ leBytes 8 h.nonce.toNat ++ h.validatingPubKey.val ++ h.signature.val

namespace BlockHeader

def blockHash (c : Crypto) (h : BlockHeader) : Hash := c.powHashH (writeBlockHeader h)

/-- What the validator signs. -/
def signedBytes (h : BlockHeader) : Bytes :=
  leBytes 4 h.version.toNat ++ leBytes 8 h.timestamp.toUInt64.toNat ++ h.prevBlock.bytes ++
    h.merkleRoot.bytes

def hashForSigning (c : Crypto) (h : BlockHeader) : Bytes := (c.powHashH h.signedBytes).bytes

/-- `Verify`. The parser of the signature may panic. -/
def verify (c : Crypto) (h : BlockHeader) (pubKey : PublicKey) : Except SigError Bool :=
  match parseDERSignature h.signature.val with
  | .error .panic => .error .panic
  | .error _ => .ok false
  | .ok sig => .ok (c.verify sig (h.hashForSigning c) pubKey)

theorem verify_returns_iff {c : Crypto} {h : BlockHeader} {pubKey : PublicKey} :
    (∃ verified, h.verify c pubKey = .ok verified) ↔ parseDERSignature h.signature.val ≠ .error .panic := by
  unfold verify
  split <;> simp_all

/-- The two parsers return a signature or an error on exactly the strings with a safe length byte,
and `Verify` returns a boolean on exactly the headers that carry such a signature field. -/
theorem parse_and_verify_return_iff (c : Crypto) :
    (∀ sigStr : Bytes, (parseSignature sigStr ≠ .error .panic ↔ LengthSafe sigStr) ∧
      (parseDERSignature sigStr ≠ .error .panic ↔ LengthSafe sigStr)) ∧ ∀ (h : BlockHeader) (pubKey : PublicKey),
      (∃ verified, h.verify c pubKey = .ok verified) ↔ LengthSafe h.signature.val := by
  have hparse : ∀ (sigStr : Bytes) (der : Bool),
      parseSig sigStr der ≠ .error .panic ↔ LengthSafe sigStr :=
    fun _ _ => parseSig_panic_iff.not.trans not_not
  refine ⟨fun sigStr => ⟨hparse sigStr false, hparse sigStr true⟩, fun h pubKey => ?_⟩
  exact verify_returns_iff.trans (hparse h.signature.val true)

/-- A signature field that claims 254 more bytes, as any peer can send it. -/
def Sample.longSignature : BlockSignature := ⟨0x30 :: 0xfe :: List.replicate 78 0, rfl⟩

def Sample.longSignatureHeader : BlockHeader where
  version := 4
  prevBlock := 0
  merkleRoot := 0
  timestamp := 0
  bits := 0
  height := 1
  size := 0
  nonce := 0
  validatingPubKey := zeroValidatingPubKey
  signature := Sample.longSignature

theorem verify_panics_longSignature : parseSignature Sample.longSignature.val = .error .panic ∧
      parseDERSignature Sample.longSignature.val = .error .panic ∧ ∀ (c : Crypto) (pubKey : PublicKey),
        Sample.longSignatureHeader.verify c pubKey = .error .panic := by
  have hunsafe : ¬ LengthSafe Sample.longSignature.val := by decide
  have hder : parseDERSignature Sample.longSignature.val = .error .panic :=
    parseSig_panic_iff.mpr hunsafe
  refine ⟨parseSig_panic_iff.mpr hunsafe, hder, fun c pubKey => ?_⟩
  unfold verify
  rw [show Sample.longSignatureHeader.signature = Sample.longSignature from rfl, hder]

end BlockHeader

namespace MsgBlock

def blockHash (c : Crypto) (msg : MsgBlock) : Hash := msg.header.blockHash c

def serializeSize (msg : MsgBlock) : Nat :=
  blockHeaderLen + varIntSerializeSize (len64 msg.transactions) +
    (msg.transactions.map MsgTx.serializeSize).sum

/-- `block.Height()`, which reads the header. -/
def height (msg : MsgBlock) : UInt32 := msg.header.height

end MsgBlock

end Prova
