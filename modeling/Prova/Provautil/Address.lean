import Prova.Chainhash
import Prova.Lib.Radix

/-!
# Addresses (`provautil/address.go`, `provautil/base58`)

An address is a key hash with keyIDs. Its text is the network byte, the hash, the keyIDs and a checksum
in base 58. Strings are their bytes.
-/

namespace Prova

/-! ### Base 58 -/

def alphabet : Bytes :=
  [0x31, 0x32, 0x33, 0x34, 0x35, 0x36, 0x37, 0x38, 0x39, 0x41, 0x42, 0x43, 0x44, 0x45, 0x46, 0x47, 0x48,
    0x4a, 0x4b, 0x4c, 0x4d, 0x4e, 0x50, 0x51, 0x52, 0x53, 0x54, 0x55, 0x56, 0x57, 0x58, 0x59, 0x5a, 0x61,
    0x62, 0x63, 0x64, 0x65, 0x66, 0x67, 0x68, 0x69, 0x6a, 0x6b, 0x6d, 0x6e, 0x6f, 0x70, 0x71, 0x72, 0x73,
    0x74, 0x75, 0x76, 0x77, 0x78, 0x79, 0x7a]

def alphabetIdx0 : UInt8 := 0x31

/-- The rows of the table `b58` from the character `'0'` to the character DEL; all others are 255. -/
def b58Rows : List Nat :=
  [255, 0, 1, 2, 3, 4, 5, 6,
    7, 8, 255, 255, 255, 255, 255, 255,
    255, 9, 10, 11, 12, 13, 14, 15,
    16, 255, 17, 18, 19, 20, 21, 255,
    22, 23, 24, 25, 26, 27, 28, 29,
    30, 31, 32, 255, 255, 255, 255, 255,
    255, 33, 34, 35, 36, 37, 38, 39,
    40, 41, 42, 43, 255, 44, 45, 46,
    47, 48, 49, 50, 51, 52, 53, 54,
    55, 56, 57, 255, 255, 255, 255, 255]

def b58 (ch : UInt8) : Nat := if ch.toNat < 48 then 255 else b58Rows.getD (ch.toNat - 48) 255

namespace Base58

/-- The loop of `Decode`, from the last character on; `none` at a character that is not in the
alphabet. -/
def decodeLoop : Bytes → Nat → Nat → Option Nat
  | [], answer, _ => some answer
  | ch :: rest, answer, j =>
    let tmp := b58 ch
    if tmp = 255 then none else decodeLoop rest (answer + j * tmp) (j * 58)

def decode (b : Bytes) : Bytes :=
  match decodeLoop b.reverse 0 1 with
  | none => []
  | some answer =>
    let numZeros := (b.takeWhile (· == alphabetIdx0)).length
    List.replicate numZeros 0 ++ bigBytes answer

def encode (b : Bytes) : Bytes :=
  -- the remainders of the divisions by 58 come first
  let answer := (Nat.digits 58 (beNat b)).map fun mod => alphabet.getD mod 0
  let zeros := (b.takeWhile (· == 0)).map fun _ => alphabetIdx0
  (answer ++ zeros).reverse

inductive Error where
  | checksum
  | invalidFormat
deriving DecidableEq

/-- The first four bytes of the double hash. -/
def checksum (c : Crypto) (input : Bytes) : Bytes := (c.doubleHashH input).bytes.take 4

def checkEncode (c : Crypto) (input : Bytes) (version : UInt8) : Bytes :=
  let b := version :: input
  encode (b ++ checksum c b)

def checkDecode (c : Crypto) (input : Bytes) : Except Error (Bytes × UInt8) := do
  let decoded := decode input
  reject (decoded.length < 5) .invalidFormat
  let version := decoded.headD 0
  let cksum := decoded.drop (decoded.length - 4)
  reject (checksum c (decoded.take (decoded.length - 4)) ≠ cksum) .checksum
  let payload := (decoded.take (decoded.length - 4)).drop 1
  return (payload, version)

end Base58

/-! ### Addresses -/

/-- An address without the network it is for, which the script of an output does not have. -/
structure AddressProva where
  keyIDs : List KeyID
  hash : Bytes
  size : hash.length = 20
deriving DecidableEq

/-- `AddressProva` with its network. -/
structure NetAddressProva extends AddressProva where
  netID : UInt8
deriving DecidableEq

def newAddressProva (pkHash : Bytes) (keyIDs : List KeyID) : Option AddressProva :=
  if h : pkHash.length = 20 then
    if keyIDs.length < 2 then none
    else if 19 < keyIDs.length then none
    else some ⟨keyIDs, pkHash, h⟩
  else none

/-- `EncodeAddress`, with `encodeProvaAddress`. -/
def NetAddressProva.encodeAddress (c : Crypto) (a : NetAddressProva) : Bytes :=
  Base58.checkEncode c (a.hash ++ a.keyIDs.flatMap fun keyID => leBytes keyIDSize keyID.toNat) a.netID

inductive AddressError where
  | checksumMismatch
  | unknownFormat
  | unknownSize
  /-- An error of `newAddressProva`. -/
  | invalid
deriving DecidableEq

def newAddressProvaFromBytes (data : Bytes) (netID : UInt8) : Except AddressError NetAddressProva :=
  let keyIDs := [keyIDFromAddressBuffer (data.drop 20), keyIDFromAddressBuffer (data.drop (20 + keyIDSize))]
  match newAddressProva (data.take 20) keyIDs with
  | none => .error .invalid
  | some addr => .ok ⟨addr, netID⟩

/-- `DecodeAddress`, with the network bytes that are registered. -/
def decodeAddress (c : Crypto) (isProvaAddrID : UInt8 → Bool) (addr : Bytes) :
    Except AddressError NetAddressProva :=
  match Base58.checkDecode c addr with
  | .error .checksum => .error .checksumMismatch
  | .error .invalidFormat => .error .unknownFormat
  | .ok (decoded, netID) =>
    if isProvaAddrID netID then
      if decoded.length ≠ 20 + 2 * keyIDSize then .error .unknownSize
      else newAddressProvaFromBytes decoded netID
    else .error .unknownSize

end Prova
