import Prova.Btcec.ScalarMult
import Prova.Lib.Checked
import Prova.Provautil.AddressText
import Prova.Wire.SignHeader

/-!
# Extended keys (`provautil/hdkeychain/extendedkey.go`)

A private key is held in as few bytes as it needs, and written in 32. The public key that an extended private key
keeps once it is computed is left out: it is always the one computed here.
-/

namespace Prova

namespace Hdkeychain

open List KoblitzCurve

/-- What the package is given: the hashes, HMAC-SHA512 and the table of multiples of the base point. -/
structure Primitives where
  crypto : Crypto
  hmac512 : Bytes → Bytes → BitVec 512
  bytePoints : Nat → UInt8 → JacobianPoint FieldVal
  table : TableCorrect bytePoints

inductive KeyError where
  | deriveHardFromPublic | invalidChild | unusableSeed | invalidSeedLen | badChecksum | invalidKeyLen
  | unknownHDKeyID
  | pubKey (e : PubKeyError)
deriving DecidableEq

structure ExtendedKey where
  key : Bytes
  chainCode : Bytes
  depth : UInt16
  parentFP : Bytes
  childNum : UInt32
  version : Bytes
  isPrivate : Bool
deriving DecidableEq

def hardenedKeyStart : UInt32 := 0x80000000

/-- `HDPrivateKeyToPublicKeyID` for the networks that `params.go` registers. -/
def hdPrivateKeyToPublicKeyID (id : Bytes) : Option Bytes :=
  if id = [0x04, 0x88, 0xad, 0xe4] then some [0x04, 0x88, 0xb2, 0x1e]
  else if id = [0x04, 0x35, 0x83, 0x94] then some [0x04, 0x35, 0x87, 0xcf]
  else if id = [0x04, 0x20, 0xb9, 0x00] then some [0x04, 0x20, 0xbd, 0x3a]
  else none

/-- `SerializeCompressed` of coordinates that need not be a point. -/
def serializeCompressed (point : Nat × Nat) : Bytes :=
  (if isOdd point.2 then pubkeyCompressed ||| 0x1 else pubkeyCompressed) :: beBytes 32 point.1

namespace ExtendedKey

variable (p : Primitives)

def pubKeyBytes (k : ExtendedKey) : Bytes :=
  if k.isPrivate then serializeCompressed (scalarBaseMult p.bytePoints k.key) else k.key

/-- What is hashed for a child. The copy into the buffer of zeros begins at the left. -/
def childData (k : ExtendedKey) (i : UInt32) : Bytes :=
  let source := if hardenedKeyStart ≤ i then 0x00 :: k.key else k.pubKeyBytes p
  source.take 33 ++ List.replicate (33 - source.length) 0 ++ beBytes 4 i.toNat

def childHash (k : ExtendedKey) (i : UInt32) : Bytes := beBytes 64 (p.hmac512 k.chainCode (k.childData p i)).toNat

/-- `newExtendedKey` for a child with a key. -/
def newChild (k : ExtendedKey) (i : UInt32) (childKey : Bytes) : ExtendedKey where
  key := childKey
  chainCode := (k.childHash p i).drop 32
  depth := k.depth + 1
  parentFP := (p.crypto.hash160 (k.pubKeyBytes p)).take 4
  childNum := i
  version := k.version
  isPrivate := k.isPrivate

/-- The key of a child: a sum of numbers, or of points. -/
def childKey (k : ExtendedKey) (il : Bytes) : Except KeyError Bytes :=
  if k.isPrivate then .ok (bigBytes ((beNat il + beNat k.key) % curveN))
  else do
    let (ilx, ily) := scalarBaseMult p.bytePoints il
    reject (ilx = 0 ∨ ily = 0) .invalidChild
    let pubKey ← (parsePubKey k.key).mapError .pubKey
    return serializeCompressed (add ilx ily pubKey.x pubKey.y)

def child (k : ExtendedKey) (i : UInt32) : Except KeyError ExtendedKey := do
  reject (k.isPrivate = false ∧ hardenedKeyStart ≤ i) .deriveHardFromPublic
  let il := (k.childHash p i).take 32
  reject (curveN ≤ beNat il ∨ beNat il = 0) .invalidChild
  let childKey ← k.childKey p il
  return k.newChild p i childKey

def neuter (k : ExtendedKey) : Except KeyError ExtendedKey :=
  if k.isPrivate then
    match hdPrivateKeyToPublicKeyID k.version with
    | none => .error .unknownHDKeyID
    | some version => .ok { k with key := k.pubKeyBytes p, version, isPrivate := false }
  else .ok k

def zeroedText : Bytes :=
  [0x7a, 0x65, 0x72, 0x6f, 0x65, 0x64, 0x20, 0x65, 0x78, 0x74, 0x65, 0x6e, 0x64, 0x65, 0x64, 0x20, 0x6b, 0x65, 0x79]

def paddedKey (k : ExtendedKey) : Bytes := List.replicate (32 - k.key.length) 0 ++ k.key

def string (k : ExtendedKey) : Bytes :=
  if k.key.length = 0 then zeroedText
  else
    let serializedBytes := k.version ++ [UInt8.ofNat (k.depth.toNat % 256)] ++ k.parentFP ++
      beBytes 4 k.childNum.toNat ++ k.chainCode ++
      (if k.isPrivate then 0x00 :: k.paddedKey else k.pubKeyBytes p)
    Base58.encode (serializedBytes ++ Base58.checksum p.crypto serializedBytes)

end ExtendedKey

section Package

variable (p : Primitives)

def newMaster (seed hdPrivateKeyID : Bytes) : Except KeyError ExtendedKey := do
  reject (seed.length < 16 ∨ 64 < seed.length) .invalidSeedLen
  -- the key of the hash is the text "Bitcoin seed"
  let lr := beBytes 64
    (p.hmac512 [0x42, 0x69, 0x74, 0x63, 0x6f, 0x69, 0x6e, 0x20, 0x73, 0x65, 0x65, 0x64] seed).toNat
  let secretKey := lr.take 32
  reject (curveN ≤ beNat secretKey ∨ beNat secretKey = 0) .unusableSeed
  return { key := secretKey, chainCode := lr.drop 32, depth := 0, parentFP := [0, 0, 0, 0], childNum := 0
           version := hdPrivateKeyID, isPrivate := true }

/-- The check of the key data, which are private if they begin with zero. -/
def checkKeyData (keyData : Bytes) : Except KeyError Bytes :=
  if keyData.headD 0 = 0x00 then do
    reject (curveN ≤ beNat keyData.tail ∨ beNat keyData.tail = 0) .unusableSeed
    return keyData.tail
  else do
    let _ ← (parsePubKey keyData).mapError .pubKey
    return keyData

def newKeyFromString (key : Bytes) : Except KeyError ExtendedKey := do
  let decoded := Base58.decode key
  reject (decoded.length ≠ 78 + 4) .invalidKeyLen
  let payload := decoded.take 78
  reject (decoded.drop 78 ≠ Base58.checksum p.crypto payload) .badChecksum
  let keyData ← checkKeyData (payload.drop 45)
  return { key := keyData, chainCode := (payload.drop 13).take 32, parentFP := (payload.drop 5).take 4
           depth := UInt16.ofNat ((payload.drop 4).headD 0).toNat, version := payload.take 4
           childNum := UInt32.ofNat (beNat ((payload.drop 9).take 4))
           isPrivate := (payload.drop 45).headD 0 == 0x00 }

def derive (k : ExtendedKey) : List UInt32 → Except KeyError ExtendedKey
  | [] => .ok k
  | i :: path => do
    let k ← k.child p i
    derive k path

end Package

/-! ### Public and private children -/

theorem y_affine_ne_zero {P : secp256k1.Point} (h : P ≠ 0) : (affine P).2 ≠ 0 := mt affine_eq_zero h

/-- A point other than infinity is written as a public key that is parsed. -/
theorem parsePubKey_affine {P : secp256k1.Point} (h : P ≠ 0) :
    ∃ key : PublicKey, (key.x, key.y) = affine P ∧ parsePubKey (serializeCompressed (affine P)) = .ok key := by
  rcases P with _ | ⟨x, y, hns⟩
  · exact absurd rfl h
  · have hcurve : isOnCurve x.val y.val = true := by
      have heq := CubicCurve.equation_iff.mp hns.1
      rw [← ZMod.natCast_zmod_val x, ← ZMod.natCast_zmod_val y] at heq
      rw [isOnCurve, beq_iff_eq]
      refine (ZMod.natCast_eq_natCast_iff' _ _ curveP).mp ?_
      push_cast
      linear_combination heq
    have hkey := parsePubKey_serializeCompressed ⟨x.val, y.val, ZMod.val_lt x, ZMod.val_lt y, hcurve⟩
    exact ⟨_, rfl, hkey⟩

theorem parsePubKey_zero : (parsePubKey (serializeCompressed (0, 0))).isOk = false ∧
    (parsePubKey (serializeCompressed (0, 1))).isOk = false := by
  decide +kernel

theorem x_affine_ne_zero {P : secp256k1.Point} (h : P ≠ 0) : (affine P).1 ≠ 0 := by
  intro hx
  obtain ⟨key, -, hparse⟩ := parsePubKey_affine h
  have hserialized : serializeCompressed (affine P) = serializeCompressed (0, 0) ∨
      serializeCompressed (affine P) = serializeCompressed (0, 1) := by
    unfold serializeCompressed
    rw [hx]
    cases isOdd (affine P).2
    · exact .inl rfl
    · exact .inr rfl
  rcases hserialized with heq | heq
  · exact absurd (heq ▸ hparse ▸ rfl) (Bool.eq_false_iff.mp parsePubKey_zero.1)
  · exact absurd (heq ▸ hparse ▸ rfl) (Bool.eq_false_iff.mp parsePubKey_zero.2)

theorem nsmul_basePoint_eq_zero_iff (n : Nat) : n • basePoint = 0 ↔ n % curveN = 0 := by
  rw [← addOrderOf_dvd_iff_nsmul_eq_zero, addOrderOf_basePoint, Nat.dvd_iff_mod_eq_zero]

namespace ExtendedKey

variable {p : Primitives} {k : ExtendedKey} {i : UInt32}

def intermediate (p : Primitives) (k : ExtendedKey) (i : UInt32) : Nat := beNat ((k.childHash p i).take 32)

theorem pubKeyBytes_private (hk : k.isPrivate = true) :
    k.pubKeyBytes p = serializeCompressed (affine (beNat k.key • basePoint)) := by
  rw [pubKeyBytes, if_pos hk, scalarBaseMult_eq p.table]

theorem child_eq (h : ¬ (k.isPrivate = false ∧ hardenedKeyStart ≤ i)) :
    k.child p i = if curveN ≤ k.intermediate p i ∨ k.intermediate p i = 0 then .error .invalidChild
      else (k.childKey p ((k.childHash p i).take 32)).map (k.newChild p i) := by
  rw [child, reject_bind_of_not h]
  change (reject (curveN ≤ k.intermediate p i ∨ k.intermediate p i = 0) _ >>= _) = _
  split
  case isTrue hinvalid =>
    rw [reject, if_pos hinvalid]
    rfl
  case isFalse hvalid =>
    rw [reject_bind_of_not hvalid]
    rfl

theorem child_private (hk : k.isPrivate = true) :
    k.child p i = if curveN ≤ k.intermediate p i ∨ k.intermediate p i = 0 then .error .invalidChild
      else .ok (k.newChild p i (bigBytes ((k.intermediate p i + beNat k.key) % curveN))) := by
  rw [child_eq (by simp [hk]), childKey, if_pos hk]
  rfl

/-- The extended public key, with a version. -/
def publicKey (p : Primitives) (k : ExtendedKey) (version : Bytes) : ExtendedKey :=
  { k with key := k.pubKeyBytes p, version, isPrivate := false }

theorem childHash_publicKey {version : Bytes} (hi : i < hardenedKeyStart) :
    (k.publicKey p version).childHash p i = k.childHash p i := by
  unfold childHash childData
  rw [if_neg (UInt32.not_le.mpr hi), if_neg (UInt32.not_le.mpr hi)]
  rfl

theorem childKey_publicKey {version il : Bytes} (hk : k.isPrivate = true) (hil : beNat il % curveN ≠ 0) :
    ((k.publicKey p version).childKey p il).toOption = if beNat k.key % curveN = 0 then none
      else some (serializeCompressed (affine ((beNat il + beNat k.key) • basePoint))) := by
  have hpoint : beNat il • basePoint ≠ 0 := mt (nsmul_basePoint_eq_zero_iff _).mp hil
  have hkey : (k.publicKey p version).key = serializeCompressed (affine (beNat k.key • basePoint)) :=
    pubKeyBytes_private hk
  unfold childKey
  rw [if_neg (by simp [publicKey]), scalarBaseMult_eq p.table, hkey]
  dsimp only
  rw [reject_bind_of_not (not_or.mpr ⟨x_affine_ne_zero hpoint, y_affine_ne_zero hpoint⟩)]
  split
  case isTrue hzero =>
    rw [(nsmul_basePoint_eq_zero_iff _).mpr hzero]
    cases hparse : parsePubKey (serializeCompressed (affine 0)) with
    | error e => rfl
    | ok key => exact absurd (hparse ▸ rfl) (Bool.eq_false_iff.mp parsePubKey_zero.1)
  case isFalse hzero =>
    obtain ⟨key, hcoords, hparse⟩ := parsePubKey_affine (mt (nsmul_basePoint_eq_zero_iff _).mp hzero)
    have hx : key.x = (affine (beNat k.key • basePoint)).1 := congrArg Prod.fst hcoords
    have hy : key.y = (affine (beNat k.key • basePoint)).2 := congrArg Prod.snd hcoords
    rw [hparse, add_nsmul, ← add_affine, ← hx, ← hy]
    rfl

theorem child_publicKey {version : Bytes} (hk : k.isPrivate = true) (hi : i < hardenedKeyStart) :
    ((k.publicKey p version).child p i).toOption =
      if (curveN ≤ k.intermediate p i ∨ k.intermediate p i = 0) ∨ beNat k.key % curveN = 0 then none
      else some ((k.publicKey p version).newChild p i
        (serializeCompressed (affine ((k.intermediate p i + beNat k.key) • basePoint)))) := by
  rw [child_eq fun h => UInt32.not_le.mpr hi h.2, intermediate, childHash_publicKey hi]
  change (if curveN ≤ k.intermediate p i ∨ k.intermediate p i = 0 then _ else _ : Except _ _).toOption = _
  by_cases hinvalid : curveN ≤ k.intermediate p i ∨ k.intermediate p i = 0
  · rw [if_pos hinvalid, if_pos (.inl hinvalid)]
    rfl
  · have hil : k.intermediate p i % curveN ≠ 0 := by
      rw [Nat.mod_eq_of_lt (by omega)]
      omega
    have hmap (x : Except KeyError Bytes) :
        (x.map ((k.publicKey p version).newChild p i)).toOption =
          x.toOption.map ((k.publicKey p version).newChild p i) := by
      cases x <;> rfl
    rw [if_neg hinvalid, hmap, childKey_publicKey hk hil]
    by_cases hzero : beNat k.key % curveN = 0
    · rw [if_pos hzero, if_pos (.inr hzero)]
      rfl
    · rw [if_neg hzero, if_neg (not_or.mpr ⟨hinvalid, hzero⟩)]
      rfl

/-- BIP32: the hash is too large, or the key of the child is zero. -/
def InvalidChild (p : Primitives) (k : ExtendedKey) (i : UInt32) : Prop :=
  curveN ≤ k.intermediate p i ∨ (k.intermediate p i + beNat k.key) % curveN = 0

theorem neuter_eq {version : Bytes} (hk : k.isPrivate = true)
    (hversion : hdPrivateKeyToPublicKeyID k.version = some version) : k.neuter p = .ok (k.publicKey p version) := by
  rw [neuter, if_pos hk, hversion]
  rfl

theorem neuter_unknown (hk : k.isPrivate = true) (hversion : hdPrivateKeyToPublicKeyID k.version = none) :
    k.neuter p = .error .unknownHDKeyID := by
  rw [neuter, if_pos hk, hversion]

theorem neuter_newChild {version : Bytes} (hk : k.isPrivate = true) (hi : i < hardenedKeyStart)
    (hversion : hdPrivateKeyToPublicKeyID k.version = some version) (n : Nat) :
    (k.newChild p i (bigBytes (n % curveN))).neuter p =
      .ok ((k.publicKey p version).newChild p i (serializeCompressed (affine (n • basePoint)))) := by
  have hkey : (k.newChild p i (bigBytes (n % curveN))).pubKeyBytes p = serializeCompressed (affine (n • basePoint)) := by
    have hmod : (n % curveN) • basePoint = n • basePoint := by
      nth_rewrite 2 [← Nat.div_add_mod n curveN]
      rw [add_nsmul, mul_nsmul', curveN_nsmul, zero_add]
    rw [pubKeyBytes_private (k := k.newChild p i _) hk, newChild, beNat_bigBytes, hmod]
  rw [neuter_eq (k := k.newChild p i _) hk hversion, publicKey, hkey]
  unfold newChild
  rw [childHash_publicKey hi]
  rfl

end ExtendedKey

open ExtendedKey

namespace Sample

/-- Every hash begins with the number one. -/
def primitives : Primitives where
  crypto := SignSample.crypto
  hmac512 _ _ := BitVec.ofNat 512 (2 ^ 256)
  bytePoints := computedTable
  table := tableCorrect_computedTable

def master (version : Bytes) : ExtendedKey :=
  ⟨beBytes 32 1, beBytes 32 0, 0, [0, 0, 0, 0], 0, version, true⟩

end Sample

/-- What the private keys that are derived from a seed satisfy. -/
structure ExtendedKey.Derived (k : ExtendedKey) : Prop where
  isPrivate : k.isPrivate = true
  key_length : k.key.length ≤ 32
  key_lt : beNat k.key < curveN
  chainCode_length : k.chainCode.length = 32
  parentFP_length : k.parentFP.length = 4
  version_length : k.version.length = 4

section SaveLoad

variable {p : Primitives} {k : ExtendedKey} {i : UInt32}

theorem derived_newMaster {seed hdPrivateKeyID : Bytes} (hid : hdPrivateKeyID.length = 4)
    (h : newMaster p seed hdPrivateKeyID = .ok k) : k.Derived := by
  unfold newMaster at h
  simp only [bind_eq_ok, reject_eq_ok, not_or, not_le] at h
  obtain ⟨-, -, -, hkey, hmaster⟩ := h
  cases hmaster
  exact ⟨rfl, by simp, hkey.1, by simp, rfl, hid⟩

theorem ExtendedKey.Derived.child (hk : k.Derived) {l : ExtendedKey} (h : k.child p i = .ok l) : l.Derived := by
  rw [child_private hk.isPrivate] at h
  split at h
  · cases h
  · cases h
    have hlt : (k.intermediate p i + beNat k.key) % curveN < curveN := Nat.mod_lt _ (by decide)
    refine ⟨hk.isPrivate, length_bigBytes_le (hlt.trans (by decide)), ?_, ?_, ?_, hk.version_length⟩
    · rw [newChild, beNat_bigBytes]
      exact hlt
    · simp [newChild, childHash]
    · simp [newChild]

theorem ExtendedKey.Derived.derive (hk : k.Derived) {path : List UInt32} {l : ExtendedKey} (h : derive p k path = .ok l) :
    l.Derived := by
  induction path generalizing k with
  | nil =>
    cases h
    exact hk
  | cons i path ih =>
    obtain ⟨k', hchild, hrest⟩ := bind_eq_ok.mp h
    exact ih (hk.child hchild) hrest

/-- The key held in 32 bytes, and with the depth of one byte that is loaded. -/
def ExtendedKey.padded (k : ExtendedKey) : ExtendedKey := { k with key := k.paddedKey }

@[inherit_doc ExtendedKey.padded]
def ExtendedKey.loaded (k : ExtendedKey) : ExtendedKey :=
  { k.padded with depth := UInt16.ofNat (k.depth.toNat % 256) }

theorem beNat_paddedKey (k : ExtendedKey) : beNat k.paddedKey = beNat k.key := by
  have hzeros (n : Nat) : beNat (List.replicate n 0 ++ k.key) = beNat k.key := by
    induction n with
    | zero => rfl
    | succ n ih =>
      rw [replicate_succ, cons_append, beNat_cons, ih]
      simp
  exact hzeros _

theorem beNat_padded (k : ExtendedKey) : beNat k.padded.key = beNat k.key := beNat_paddedKey k

theorem newKeyFromString_string (hk : k.Derived) : newKeyFromString p (k.string p) =
    if k.key.length = 0 then .error .invalidKeyLen
    else if beNat k.key = 0 then .error .unusableSeed else .ok k.loaded := by
  by_cases hempty : k.key.length = 0
  · rw [if_pos hempty, string, if_pos hempty]
    rfl
  rw [if_neg hempty, string, if_neg hempty, if_pos hk.isPrivate]
  dsimp only
  have hpadded : k.paddedKey.length = 32 := by
    have := hk.key_length
    simp [paddedKey]
    omega
  have hfields : k.version ++ [UInt8.ofNat (k.depth.toNat % 256)] ++ k.parentFP ++ beBytes 4 k.childNum.toNat ++
      k.chainCode ++ 0x00 :: k.paddedKey = k.version ++ (UInt8.ofNat (k.depth.toNat % 256) :: (k.parentFP ++
        (beBytes 4 k.childNum.toNat ++ (k.chainCode ++ 0x00 :: k.paddedKey)))) := by
    simp
  rw [hfields]
  generalize hrest : UInt8.ofNat (k.depth.toNat % 256) :: (k.parentFP ++
    (beBytes 4 k.childNum.toNat ++ (k.chainCode ++ 0x00 :: k.paddedKey))) = rest
  have hlength : (k.version ++ rest).length = 78 := by
    simp [← hrest, hk.version_length, hk.parentFP_length, hk.chainCode_length, hpadded]
  have hdrop4 : (k.version ++ rest).drop 4 = rest := drop_left' hk.version_length
  have hdrop5 : (k.version ++ rest).drop 5 = k.parentFP ++ (beBytes 4 k.childNum.toNat ++
      (k.chainCode ++ 0x00 :: k.paddedKey)) := by
    rw [← drop_drop (i := 1) (j := 4), hdrop4, ← hrest]
    rfl
  have hdrop9 : (k.version ++ rest).drop 9 = beBytes 4 k.childNum.toNat ++ (k.chainCode ++ 0x00 :: k.paddedKey) := by
    rw [← drop_drop (i := 4) (j := 5), hdrop5, drop_left' hk.parentFP_length]
  have hdrop13 : (k.version ++ rest).drop 13 = k.chainCode ++ 0x00 :: k.paddedKey := by
    rw [← drop_drop (i := 4) (j := 9), hdrop9, drop_left' (length_beBytes 4 _)]
  have hdrop45 : (k.version ++ rest).drop 45 = 0x00 :: k.paddedKey := by
    rw [← drop_drop (i := 32) (j := 13), hdrop13, drop_left' hk.chainCode_length]
  have hchecked : checkKeyData (0x00 :: k.paddedKey) =
      if beNat k.key = 0 then .error .unusableSeed else .ok k.paddedKey := by
    rw [checkKeyData, if_pos (by rfl), tail_cons, beNat_paddedKey]
    split
    case isTrue hzero =>
      rw [reject, if_pos (.inr hzero)]
      rfl
    case isFalse hne =>
      rw [reject_bind_of_not (not_or.mpr ⟨not_le.mpr hk.key_lt, hne⟩)]
      rfl
  unfold newKeyFromString
  rw [Base58.decode_encode, reject_bind_of_not (by rw [length_append, hlength]; simp)]
  dsimp only
  rw [take_left' hlength, drop_left' hlength, reject_bind_of_not (not_not.mpr rfl), hdrop45, hchecked,
    hdrop13, hdrop9, hdrop5, hdrop4, take_left' hk.version_length, take_left' hk.parentFP_length,
    take_left' hk.chainCode_length, take_left' (length_beBytes 4 _), beNat_uint32, ← hrest]
  split
  · rfl
  · have hdepth : UInt16.ofNat (UInt8.ofNat (k.depth.toNat % 256)).toNat = UInt16.ofNat (k.depth.toNat % 256) := by
      rw [UInt8.toNat_ofNat', Nat.mod_mod]
    have hprivate : ((0x00 :: k.paddedKey).headD 0 == 0x00) = k.isPrivate := hk.isPrivate.symm
    rw [ok_bind, headD_cons, loaded, hdepth, hprivate]
    rfl

theorem loaded_eq (hdepth : k.depth < 256) : k.loaded = k.padded := by
  have hlt : k.depth.toNat < 256 := UInt16.lt_iff_toNat_lt.mp hdepth
  rw [loaded, Nat.mod_eq_of_lt hlt, UInt16.ofNat_toNat]
  rfl

theorem derive_singleton (k : ExtendedKey) (i : UInt32) : derive p k [i] = k.child p i := by
  rw [derive]
  cases k.child p i <;> rfl

/-- Two extended keys with the same key, which may be held in different lengths. -/
def SameKey (k l : ExtendedKey) : Prop := beNat k.key = beNat l.key ∧ { k with key := l.key } = l

/-- Both derivations fail, or they end with the same key. -/
inductive SameOutcome : Except KeyError ExtendedKey → Except KeyError ExtendedKey → Prop
  | ok {k l : ExtendedKey} (h : SameKey k l) : SameOutcome (.ok k) (.ok l)
  | error (e e' : KeyError) : SameOutcome (.error e) (.error e')

/-- The hash for a hardened child is the same for the key as it is held and padded, or both are out of range. -/
def HardenedAgrees (p : Primitives) (k : ExtendedKey) (i : UInt32) : Prop :=
  k.childHash p i = k.padded.childHash p i ∨
    (curveN ≤ k.intermediate p i ∨ k.intermediate p i = 0) ∧
      (curveN ≤ k.padded.intermediate p i ∨ k.padded.intermediate p i = 0)

theorem hardenedAgrees_of_length (h : k.key.length = 32) : HardenedAgrees p k i := by
  have hpadded : k.paddedKey = k.key := by
    rw [paddedKey, h]
    rfl
  refine .inl ?_
  rw [ExtendedKey.padded, hpadded]

theorem pubKeyBytes_padded (hk : k.isPrivate = true) : k.padded.pubKeyBytes p = k.pubKeyBytes p := by
  rw [pubKeyBytes_private hk, pubKeyBytes_private (k := k.padded) hk, beNat_padded]

/-- Padding a key does not change a child if it does not change the hash. -/
theorem child_padded (hk : k.isPrivate = true) (h : HardenedAgrees p k i) : k.padded.child p i = k.child p i := by
  rw [child_private hk, child_private (k := k.padded) hk, beNat_padded]
  rcases h with hhash | ⟨hinvalid, hpadded⟩
  · rw [intermediate, intermediate, ← hhash]
    unfold newChild
    rw [pubKeyBytes_padded hk, ← hhash]
    rfl
  · rw [if_pos hinvalid, if_pos hpadded]

theorem hardenedAgrees_of_normal (hk : k.isPrivate = true) (hi : i < hardenedKeyStart) : HardenedAgrees p k i := by
  refine .inl ?_
  unfold childHash childData
  rw [if_neg (UInt32.not_le.mpr hi), if_neg (UInt32.not_le.mpr hi), pubKeyBytes_padded hk]
  rfl

theorem sameOutcome_refl (x : Except KeyError ExtendedKey) : SameOutcome x x := by
  cases x with
  | error e => exact .error e e
  | ok k => exact .ok ⟨rfl, rfl⟩

/-- Children with the same key come from the same hash, or both do not exist. -/
theorem hardenedAgrees_of_sameOutcome (hk : k.isPrivate = true) (h : SameOutcome (k.child p i) (k.padded.child p i)) :
    HardenedAgrees p k i := by
  rw [child_private hk, child_private (k := k.padded) hk, beNat_padded] at h
  by_cases hinvalid : curveN ≤ k.intermediate p i ∨ k.intermediate p i = 0
  · by_cases hpadded : curveN ≤ k.padded.intermediate p i ∨
        k.padded.intermediate p i = 0
    · exact .inr ⟨hinvalid, hpadded⟩
    · rw [if_pos hinvalid, if_neg hpadded] at h
      cases h
  · by_cases hpadded : curveN ≤ k.padded.intermediate p i ∨
        k.padded.intermediate p i = 0
    · rw [if_neg hinvalid, if_pos hpadded] at h
      cases h
    · rw [if_neg hinvalid, if_neg hpadded] at h
      obtain ⟨hkey, hfields⟩ | _ := h
      have hright : (k.childHash p i).drop 32 =
          (k.padded.childHash p i).drop 32 := congrArg chainCode hfields
      have hil : k.intermediate p i = k.padded.intermediate p i := by
        rw [newChild, newChild, beNat_bigBytes, beNat_bigBytes] at hkey
        have hmod := Nat.ModEq.add_right_cancel' _ hkey
        rwa [Nat.ModEq, Nat.mod_eq_of_lt (by omega), Nat.mod_eq_of_lt (by omega)] at hmod
      have hleft : (k.childHash p i).take 32 = (k.padded.childHash p i).take 32 := by
        have hbytes (l : ExtendedKey) : (l.childHash p i).take 32 = beBytes 32 (l.intermediate p i) := by
          have hlength : ((l.childHash p i).take 32).length = 32 := by simp [childHash]
          exact hlength ▸ (beBytes_beNat _).symm
        rw [hbytes, hbytes, hil]
      refine .inl ?_
      rw [← take_append_drop 32 (k.childHash p i), hleft, hright, take_append_drop]

end SaveLoad

/-- A derived key can be saved and loaded before going on along any path exactly if it is not zero, its depth fits in
a byte, and the hashes for its hardened children do not depend on the length in which it is held. -/
theorem save_load_iff (p : Primitives) {seed hdPrivateKeyID : Bytes} {path : List UInt32} {master k : ExtendedKey}
    (hid : hdPrivateKeyID.length = 4) (hmaster : newMaster p seed hdPrivateKeyID = .ok master)
    (hk : derive p master path = .ok k) :
    (∀ rest, SameOutcome (derive p k rest) (newKeyFromString p (k.string p) >>= fun k => derive p k rest)) ↔
      beNat k.key ≠ 0 ∧ k.depth < 256 ∧ ∀ i, hardenedKeyStart ≤ i → HardenedAgrees p k i := by
  have hderived : k.Derived := (derived_newMaster hid hmaster).derive hk
  rw [newKeyFromString_string hderived]
  constructor
  · intro h
    have hne : beNat k.key ≠ 0 := by
      intro hzero
      have hsame := h []
      rw [if_pos hzero] at hsame
      split at hsame
      · cases hsame
      · cases hsame
    have hlength : k.key.length ≠ 0 := fun hempty => hne (by rw [eq_nil_of_length_eq_zero hempty]; rfl)
    rw [if_neg hlength, if_neg hne] at h
    have hdepth : k.depth < 256 := by
      have heq : k.depth = UInt16.ofNat (k.depth.toNat % 256) := by
        cases h [] with
        | ok hsame => exact congrArg ExtendedKey.depth hsame.2
      rw [UInt16.lt_iff_toNat_lt, heq, UInt16.toNat_ofNat']
      change _ < 256
      omega
    rw [loaded_eq hdepth] at h
    refine ⟨hne, hdepth, fun i _ => ?_⟩
    have hsame := h [i]
    rw [ok_bind, derive_singleton, derive_singleton] at hsame
    exact hardenedAgrees_of_sameOutcome hderived.isPrivate hsame
  · rintro ⟨hne, hdepth, hagrees⟩ rest
    have hlength : k.key.length ≠ 0 := fun hempty => hne (by rw [eq_nil_of_length_eq_zero hempty]; rfl)
    rw [if_neg hlength, if_neg hne, ok_bind, loaded_eq hdepth]
    cases rest with
    | nil => exact .ok ⟨(beNat_paddedKey k).symm, rfl⟩
    | cons i rest =>
      have hagree : HardenedAgrees p k i := by
        by_cases hi : hardenedKeyStart ≤ i
        · exact hagrees i hi
        · exact hardenedAgrees_of_normal hderived.isPrivate (UInt32.not_le.mp hi)
      rw [derive, derive, child_padded hderived.isPrivate hagree]
      exact sameOutcome_refl _

theorem save_load_master :
    SameOutcome (derive Sample.primitives (Sample.master [0x04, 0x88, 0xad, 0xe4]) [hardenedKeyStart, 5])
      (newKeyFromString Sample.primitives ((Sample.master [0x04, 0x88, 0xad, 0xe4]).string Sample.primitives) >>=
        fun k => derive Sample.primitives k [hardenedKeyStart, 5]) := by
  have hmaster : newMaster Sample.primitives (List.replicate 16 0) [0x04, 0x88, 0xad, 0xe4] =
      .ok (Sample.master [0x04, 0x88, 0xad, 0xe4]) := by decide +kernel
  have hpath : derive Sample.primitives (Sample.master [0x04, 0x88, 0xad, 0xe4]) [] =
      .ok (Sample.master [0x04, 0x88, 0xad, 0xe4]) := by rw [derive]
  have hne : beNat (Sample.master [0x04, 0x88, 0xad, 0xe4]).key ≠ 0 := by decide
  have hlength : (Sample.master [0x04, 0x88, 0xad, 0xe4]).key.length = 32 := length_beBytes 32 1
  exact (save_load_iff Sample.primitives (by rfl) hmaster hpath).mpr
    ⟨hne, by decide, fun _ _ => hardenedAgrees_of_length hlength⟩ _

namespace Sample

/-- Hashes that depend on what is hashed, and give keys with leading zeros. -/
def mixing : Primitives :=
  { primitives with hmac512 := fun _ data => BitVec.ofNat 512 ((beNat data % 2 ^ 200 + 1) * 2 ^ 256) }

def mixedMaster : ExtendedKey :=
  { master [0x04, 0x88, 0xad, 0xe4] with key := beBytes 32 (beNat (List.replicate 16 1) + 1) }

def shortKey : ExtendedKey :=
  mixedMaster.newChild mixing hardenedKeyStart
    (bigBytes ((mixedMaster.intermediate mixing hardenedKeyStart + beNat mixedMaster.key) % curveN))

end Sample

/-- A child with leading zeros has other hardened children once it was saved and loaded. -/
theorem save_load_short_key :
    newMaster Sample.mixing (List.replicate 16 1) [0x04, 0x88, 0xad, 0xe4] = .ok Sample.mixedMaster ∧
      derive Sample.mixing Sample.mixedMaster [hardenedKeyStart] = .ok Sample.shortKey ∧
      ¬ SameOutcome (derive Sample.mixing Sample.shortKey [hardenedKeyStart])
        (newKeyFromString Sample.mixing (Sample.shortKey.string Sample.mixing) >>=
          fun k => derive Sample.mixing k [hardenedKeyStart]) := by
  have hmaster : newMaster Sample.mixing (List.replicate 16 1) [0x04, 0x88, 0xad, 0xe4] =
      .ok Sample.mixedMaster := by decide +kernel
  have hchild : derive Sample.mixing Sample.mixedMaster [hardenedKeyStart] = .ok Sample.shortKey := by
    have hvalid : ¬ (curveN ≤ Sample.mixedMaster.intermediate Sample.mixing hardenedKeyStart ∨
        Sample.mixedMaster.intermediate Sample.mixing hardenedKeyStart = 0) := by decide +kernel
    have hprivate : Sample.mixedMaster.isPrivate = true := by rfl
    rw [derive_singleton, child_private hprivate, if_neg hvalid, Sample.shortKey]
  have hderived : Sample.shortKey.Derived := (derived_newMaster (by rfl) hmaster).derive hchild
  have hlength : Sample.shortKey.key.length ≠ 0 := by decide +kernel
  have hne : beNat Sample.shortKey.key ≠ 0 := by decide +kernel
  have hdepth : Sample.shortKey.depth < 256 := by decide
  refine ⟨hmaster, hchild, fun hsame => ?_⟩
  rw [newKeyFromString_string hderived, if_neg hlength, if_neg hne, ok_bind, loaded_eq hdepth, derive_singleton,
    derive_singleton] at hsame
  have hdiffer : ¬ HardenedAgrees Sample.mixing Sample.shortKey hardenedKeyStart := by
    unfold HardenedAgrees
    decide +kernel
  exact hdiffer (hardenedAgrees_of_sameOutcome hderived.isPrivate hsame)

end Hdkeychain

end Prova
