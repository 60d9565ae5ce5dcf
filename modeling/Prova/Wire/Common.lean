import Prova.Wire.MsgTx

/-!
# Reading the wire encoding (`wire/common.go`)

A reader is the bytes that are left. Every read takes its bytes off the front or fails, and gives the
rest to the next one.
-/

namespace Prova

/-- What is wrong with the encoding of a message. -/
inductive WireError
  | eof
  | unexpectedEOF
  | nonCanonicalVarInt (rv : Nat) (discriminant : UInt8) (min : Nat)
  | tooLarge (fieldName : String) (count max : Nat)
  | tooManyToFit (what : String) (count max : Nat)
  | invalidForProtocolVersion (pver : UInt32)
  | tooManyHashFuncs (count : UInt32)
deriving DecidableEq, Repr

/-- `io.ReadFull` of a buffer of `n` bytes. -/
def readFull (n : Nat) (r : Bytes) : Except WireError (Bytes × Bytes) :=
  if n ≤ r.length then .ok (r.take n, r.drop n)
  else if r = [] then .error .eof
  else .error .unexpectedEOF

/-- A number of `n` bytes, least significant byte first. -/
def readNat (n : Nat) (r : Bytes) : Except WireError (Nat × Bytes) := do
  let (buf, r) ← readFull n r
  return (leNat buf, r)

/-- `ReadVarInt`: a number that fits a shorter form is refused. -/
def readVarInt (r : Bytes) : Except WireError (Nat × Bytes) := do
  let (discriminant, r) ← readNat 1 r
  let wide (n min : Nat) : Except WireError (Nat × Bytes) := do
    let (rv, r) ← readNat n r
    reject (rv < min) (.nonCanonicalVarInt rv (UInt8.ofNat discriminant) min)
    return (rv, r)
  if discriminant = 0xff then wide 8 0x100000000
  else if discriminant = 0xfe then wide 4 0x10000
  else if discriminant = 0xfd then wide 2 0xfd
  else return (discriminant, r)

def readVarBytes (r : Bytes) (maxAllowed : Nat) (fieldName : String) :
    Except WireError (Bytes × Bytes) := do
  let (count, r) ← readVarInt r
  reject (maxAllowed < count) (.tooLarge fieldName count maxAllowed)
  readFull count r

theorem readFull_eq_ok {n : Nat} {r buf rest : Bytes} :
    readFull n r = .ok (buf, rest) ↔ buf.length = n ∧ r = buf ++ rest := by
  unfold readFull
  split_ifs with hn hempty
  · constructor
    · intro h
      obtain ⟨rfl, rfl⟩ := Prod.mk.inj (Except.ok.inj h)
      exact ⟨by simpa using hn, (List.take_append_drop n r).symm⟩
    · rintro ⟨rfl, rfl⟩
      simp
  all_goals
    constructor
    · intro h
      cases h
    · rintro ⟨rfl, rfl⟩
      simp at hn

theorem length_of_readVarBytes {r buf rest : Bytes} {maxAllowed : Nat} {fieldName : String}
    (h : readVarBytes r maxAllowed fieldName = .ok (buf, rest)) : buf.length ≤ maxAllowed := by
  obtain ⟨⟨count, r'⟩, -, h⟩ := bind_eq_ok.mp h
  obtain ⟨hcount, h⟩ := bind_unit_eq_ok.mp h
  rw [(readFull_eq_ok.mp h).1]
  exact not_lt.mp (reject_eq_ok.mp hcount)

end Prova
