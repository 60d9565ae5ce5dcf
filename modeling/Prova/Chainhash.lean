import Prova.Btcec.Signature

/-!
# Hashes and the cryptographic primitives

The hash functions and the ECDSA equation come from libraries outside the repository, so they are the
fields of a `Crypto`. A digest is a bit vector whose bytes, least significant first, are the bytes of
the source's array; read as a number it is what `HashToBig` makes of it. The repository's own
combinations of the primitives (`DoubleHashH`, `Hash160`, `Signature.Verify`) are defined over them.
-/

namespace Prova

abbrev Hash := BitVec 256

instance : Std.TransOrd Hash := inferInstanceAs (Std.TransOrd (BitVec 256))

-- a search through a list of hashes, not through all bit vectors
instance (priority := high) (l : List Hash) (p : Hash → Prop) [DecidablePred p] :
    Decidable (∃ h ∈ l, p h) := List.decidableBEx p l

instance (priority := high) (l : List Hash) (p : Hash → Prop) [DecidablePred p] :
    Decidable (∀ h ∈ l, p h) := List.decidableBAll p l

def Hash.bytes (h : Hash) : Bytes := leBytes 32 h.toNat

@[simp] theorem Hash.length_bytes (h : Hash) : h.bytes.length = 32 := length_leBytes 32 _

theorem Hash.bytes_injective : Function.Injective Hash.bytes := by
  intro h k heq
  have hh : h.toNat < 256 ^ 32 := lt_of_lt_of_eq h.isLt (by norm_num)
  have hk : k.toNat < 256 ^ 32 := lt_of_lt_of_eq k.isLt (by norm_num)
  exact BitVec.eq_of_toNat_eq (leBytes_inj hh hk heq)

def Hash.ofBytes (b : Bytes) : Hash := BitVec.ofNat 256 (leNat b)

theorem Hash.bytes_ofBytes {b : Bytes} (h : b.length = 32) : (Hash.ofBytes b).bytes = b := by
  have hlt : leNat b < 2 ^ 256 := lt_of_lt_of_eq (leNat_lt b) (by rw [h]; norm_num)
  rw [Hash.bytes, Hash.ofBytes, BitVec.toNat_ofNat, Nat.mod_eq_of_lt hlt, ← h, leBytes_leNat]

theorem Hash.ofBytes_bytes (h : Hash) : Hash.ofBytes h.bytes = h :=
  Hash.bytes_injective (Hash.bytes_ofBytes h.length_bytes)

/-- The primitives the repository takes from outside. -/
structure Crypto where
  sha256 : Bytes → Hash
  sha3 : Bytes → Hash
  ripemd160 : Bytes → BitVec 160
  sha1 : Bytes → BitVec 160
  ecdsaVerify : PublicKey → Bytes → Nat → Nat → Bool

namespace Crypto

variable (c : Crypto)

def doubleHashH (b : Bytes) : Hash := c.sha256 (c.sha256 b).bytes

/-- `PowHashH`, the hash of block headers. -/
def powHashH (b : Bytes) : Hash := c.sha3 b

/-- `calcHash` with RIPEMD-160. -/
def ripemd160B (b : Bytes) : Bytes := leBytes 20 (c.ripemd160 b).toNat

/-- `calcHash` with SHA-1. -/
def sha1B (b : Bytes) : Bytes := leBytes 20 (c.sha1 b).toNat

def hash160 (b : Bytes) : Bytes := c.ripemd160B (c.sha256 b).bytes

@[simp] theorem length_hash160 (b : Bytes) : (c.hash160 b).length = 20 := length_leBytes 20 _

def verify (sig : Signature) (hash : Bytes) (pubKey : PublicKey) : Bool :=
  c.ecdsaVerify pubKey hash sig.r sig.s

end Crypto

end Prova
