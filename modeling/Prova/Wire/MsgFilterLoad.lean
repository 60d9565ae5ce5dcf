import Prova.Wire.Common

/-!
# The message that loads a Bloom filter (`wire/msgfilterload.go`)
-/

namespace Prova

def bip0037Version : UInt32 := 70001
def maxFilterLoadHashFuncs : UInt32 := 50
def maxFilterLoadFilterSize : Nat := 36000

def bloomUpdateAll : UInt8 := 1
def bloomUpdateP2PubkeyOnly : UInt8 := 2

structure MsgFilterLoad where
  filter : Bytes
  hashFuncs : UInt32
  tweak : UInt32
  flags : UInt8
deriving DecidableEq, Repr

namespace MsgFilterLoad

def btcDecode (pver : UInt32) (r : Bytes) : Except WireError (MsgFilterLoad × Bytes) := do
  reject (pver < bip0037Version) (.invalidForProtocolVersion pver)
  let (filter, r) ← readVarBytes r maxFilterLoadFilterSize "filterload filter size"
  let (hashFuncs, r) ← readNat 4 r
  let (tweak, r) ← readNat 4 r
  let (flags, r) ← readNat 1 r
  reject (maxFilterLoadHashFuncs < UInt32.ofNat hashFuncs)
    (.tooManyHashFuncs (UInt32.ofNat hashFuncs))
  return (⟨filter, UInt32.ofNat hashFuncs, UInt32.ofNat tweak, UInt8.ofNat flags⟩, r)

theorem length_filter_of_btcDecode {pver : UInt32} {r rest : Bytes} {msg : MsgFilterLoad}
    (h : btcDecode pver r = .ok (msg, rest)) : msg.filter.length ≤ maxFilterLoadFilterSize := by
  obtain ⟨-, h⟩ := bind_unit_eq_ok.mp h
  obtain ⟨⟨filter, r₁⟩, hfilter, h⟩ := bind_eq_ok.mp h
  obtain ⟨⟨hashFuncs, r₂⟩, -, h⟩ := bind_eq_ok.mp h
  obtain ⟨⟨tweak, r₃⟩, -, h⟩ := bind_eq_ok.mp h
  obtain ⟨⟨flags, r₄⟩, -, h⟩ := bind_eq_ok.mp h
  obtain ⟨-, h⟩ := bind_unit_eq_ok.mp h
  obtain ⟨rfl, -⟩ := Prod.mk.inj (pure_eq_ok.mp h)
  exact length_of_readVarBytes hfilter

end MsgFilterLoad

end Prova
