import Prova.Lib.Radix
import Prova.Txscript.SigEncoding
import Prova.Wire.MsgBlock

/-!
# Signing headers (`btcec/signature.go`, `wire/blockheader.go`)

A signature is written with the lower of the two values S can have. It is copied over the front of the
signature field, so that bytes of an older and longer signature stay behind it; the parser cuts them off.
-/

namespace Prova

open List

/-! ### `Serialize` -/

def canonicalizeInt (val : Nat) : Bytes :=
  let b := bigBytes val
  let b := if b.length = 0 then [0x00] else b
  if b.headD 0 &&& 0x80 ≠ 0 then 0x00 :: b else b

def Signature.serialize (sig : Signature) : Bytes :=
  let sigS := if Engine.halfOrder < sig.s then curveN - sig.s else sig.s
  let rb := canonicalizeInt sig.r
  let sb := canonicalizeInt sigS
  let length := 6 + rb.length + sb.length
  [0x30, UInt8.ofNat (length - 2), 0x02, UInt8.ofNat rb.length] ++ rb ++ [0x02, UInt8.ofNat sb.length] ++ sb

theorem headD_bigBytes_ne_zero {n : Nat} (hn : n ≠ 0) : bigBytes n ≠ [] ∧ (bigBytes n).headD 0 ≠ 0 := by
  have hne : (Nat.digits 256 n).reverse ≠ [] := by
    rw [ne_eq, reverse_eq_nil_iff]
    exact mt Nat.digits_eq_nil_iff_eq_zero.mp hn
  have hfirst := Radix.head?_digits_reverse 256 n
  have hlt : ∀ d ∈ (Nat.digits 256 n).reverse, d < 256 := fun d hd =>
    Nat.digits_lt_base (by decide) (mem_reverse.mp hd)
  rw [bigBytes]
  generalize (Nat.digits 256 n).reverse = digits at hne hfirst hlt
  cases digits with
  | nil => exact absurd rfl hne
  | cons d digits =>
    refine ⟨cons_ne_nil _ _, fun hzero => hfirst ?_⟩
    have hd : UInt8.ofNat d = UInt8.ofNat 0 := hzero
    have hnat := congrArg UInt8.toNat hd
    rw [UInt8.toNat_ofNat_of_lt' (hlt d mem_cons_self)] at hnat
    exact congrArg some hnat

theorem canonicalizeInt_spec {n : Nat} (hn : n ≠ 0) :
    CanonicalInt (canonicalizeInt n) ∧ beNat (canonicalizeInt n) = n := by
  obtain ⟨hne, hfirst⟩ := headD_bigBytes_ne_zero hn
  have hnat := beNat_bigBytes n
  rw [canonicalizeInt]
  generalize bigBytes n = b at hne hfirst hnat
  cases b with
  | nil => exact absurd rfl hne
  | cons first b =>
    simp only [length_cons, Nat.succ_ne_zero, if_false, headD_cons] at hfirst ⊢
    split_ifs with hhigh
    · have hclear : (0 : UInt8) &&& 0x80 = 0 := by decide
      refine ⟨⟨hclear, fun _ => hhigh⟩, ?_⟩
      rw [beNat_cons, UInt8.toNat_zero, Nat.zero_mul, Nat.zero_add, hnat]
    · rw [not_not] at hhigh
      refine ⟨?_, hnat⟩
      cases b with
      | nil => exact hhigh
      | cons second b => exact ⟨hhigh, fun h => absurd h hfirst⟩

theorem lowS_eq_min {s : Nat} (hs : ScalarInRange s) :
    (if Engine.halfOrder < s then curveN - s else s) = min s (curveN - s) := by
  have hhalf : curveN = 2 * Engine.halfOrder + 1 := by decide
  obtain ⟨-, hle⟩ := hs
  split_ifs <;> omega

theorem lowS_inRange {s : Nat} (hs : ScalarInRange s) :
    ScalarInRange (min s (curveN - s)) ∧ min s (curveN - s) ≤ Engine.halfOrder := by
  have hhalf : curveN = 2 * Engine.halfOrder + 1 := by decide
  obtain ⟨hpos, hle⟩ := hs
  unfold ScalarInRange
  omega

theorem serialize_eq_derEncode {sig : Signature} (hs : ScalarInRange sig.s) :
    sig.serialize = derEncode (canonicalizeInt sig.r) (canonicalizeInt (min sig.s (curveN - sig.s))) := by
  rw [Signature.serialize, lowS_eq_min hs]
  have hlength (r s : Bytes) : 6 + r.length + s.length - 2 = r.length + s.length + 4 := by omega
  simp only [hlength, derEncode, derInt, cons_append, nil_append, append_assoc]

section Serialize

variable {sig : Signature} (hr : ScalarInRange sig.r) (hs : ScalarInRange sig.s)

include hr hs

theorem serialize_ints : ∃ rb sb, sig.serialize = derEncode rb sb ∧ CanonicalInt rb ∧ CanonicalInt sb ∧
    rb.length ≤ 33 ∧ sb.length ≤ 33 ∧ beNat rb = sig.r ∧ beNat sb = min sig.s (curveN - sig.s) := by
  obtain ⟨hlow, -⟩ := lowS_inRange hs
  obtain ⟨hcanR, hnatR⟩ := canonicalizeInt_spec (Nat.one_le_iff_ne_zero.mp hr.1)
  obtain ⟨hcanS, hnatS⟩ := canonicalizeInt_spec (Nat.one_le_iff_ne_zero.mp hlow.1)
  refine ⟨_, _, serialize_eq_derEncode hs, hcanR, hcanS, hcanR.length_le ?_, hcanS.length_le ?_, hnatR, hnatS⟩
  · rw [hnatR]
    exact hr.2
  · rw [hnatS]
    exact hlow.2

theorem length_serialize_le : sig.serialize.length ≤ 72 := by
  obtain ⟨rb, sb, heq, -, -, hlenR, hlenS, -⟩ := serialize_ints hr hs
  rw [heq, length_derEncode]
  omega

theorem parseDERSignature_serialize (trailing : Bytes) :
    parseDERSignature (sig.serialize ++ trailing) = .ok ⟨sig.r, min sig.s (curveN - sig.s)⟩ := by
  obtain ⟨rb, sb, heq, hcanR, hcanS, hlenR, hlenS, hnatR, hnatS⟩ := serialize_ints hr hs
  obtain ⟨hlow, -⟩ := lowS_inRange hs
  rw [heq, parseDERSignature_derEncode hcanR hcanS (by omega) (hnatR ▸ hr) (hnatS ▸ hlow), hnatR, hnatS]

theorem checkSignatureEncoding_serialize (vm : Engine) : vm.checkSignatureEncoding sig.serialize = .ok () := by
  obtain ⟨rb, sb, heq, hcanR, hcanS, hlenR, hlenS, -, hnatS⟩ := serialize_ints hr hs
  have hder (lowS : Bool) : Engine.checkDER lowS sig.serialize = .ok () := by
    refine Engine.checkDER_ok_iff.mpr ⟨rb, sb, heq, hcanR, hcanS, by omega, fun _ => ?_⟩
    rw [hnatS]
    exact (lowS_inRange hs).2
  unfold Engine.checkSignatureEncoding
  split_ifs
  · exact hder _
  · rfl

end Serialize

/-! ### `Sign` -/

inductive SignError
  | rIsZero
  | sIsZero
deriving DecidableEq, Repr

/-- A private key: its public key, and the integers r and s that ECDSA computes for a hash with the nonce
of RFC 6979. -/
structure PrivateKey where
  pubKey : PublicKey
  ints : Bytes → Nat × Nat

/-- `PrivateKey.Sign`: what `signRFC6979` does with the two integers. -/
def PrivateKey.sign (key : PrivateKey) (hash : Bytes) : Except SignError Signature :=
  let (r, s) := key.ints hash
  if r = 0 then .error .rIsZero
  else
    let s := if Engine.halfOrder < s then curveN - s else s
    if s = 0 then .error .sIsZero else .ok ⟨r, s⟩

/-- ECDSA is correct: the integers are reduced, and what they sign is verified with s and with -s. -/
structure PrivateKey.Correct (c : Crypto) (key : PrivateKey) : Prop where
  reduced : ∀ hash, (key.ints hash).1 < curveN ∧ (key.ints hash).2 < curveN
  verified : ∀ hash, (key.ints hash).1 ≠ 0 → (key.ints hash).2 ≠ 0 →
    c.ecdsaVerify key.pubKey hash (key.ints hash).1 (key.ints hash).2 = true ∧
      c.ecdsaVerify key.pubKey hash (key.ints hash).1 (curveN - (key.ints hash).2) = true

/-- `copy` of bytes to the front of a signature field. -/
def BlockSignature.copy (dst : BlockSignature) (src : Bytes) : BlockSignature where
  val := src.take blockSignatureSize ++ dst.val.drop src.length
  property := by
    rw [List.length_append, List.length_take, List.length_drop, dst.property]
    omega

def BlockHeader.sign (c : Crypto) (h : BlockHeader) (key : PrivateKey) : Except SignError BlockHeader := do
  let hash := h.hashForSigning c
  let signature ← key.sign hash
  let serialized := signature.serialize
  return { h with
    validatingPubKey := ⟨key.pubKey.serializeCompressed, key.pubKey.length_serializeCompressed⟩
    signature := BlockSignature.copy h.signature serialized }

variable {c : Crypto} {key : PrivateKey}

theorem PrivateKey.Correct.sign (hkey : key.Correct c) {hash : Bytes} {sig : Signature}
    (h : key.sign hash = .ok sig) : ScalarInRange sig.r ∧ ScalarInRange sig.s ∧
      min sig.s (curveN - sig.s) = sig.s ∧ c.verify sig hash key.pubKey = true := by
  have hhalf : curveN = 2 * Engine.halfOrder + 1 := by decide
  obtain ⟨hrN, hsN⟩ := hkey.reduced hash
  have hverified := hkey.verified hash
  rw [PrivateKey.sign] at h
  generalize key.ints hash = ints at h hrN hsN hverified
  obtain ⟨r, s⟩ := ints
  dsimp only at h hrN hsN hverified
  rw [Crypto.verify]
  unfold ScalarInRange
  split_ifs at h with hr hhigh hs hs <;> cases h
  · obtain ⟨-, hopposite⟩ := hverified hr (by omega)
    refine ⟨⟨?_, ?_⟩, ⟨?_, ?_⟩, ?_, hopposite⟩ <;> dsimp only <;> omega
  · obtain ⟨hsame, -⟩ := hverified hr hs
    refine ⟨⟨?_, ?_⟩, ⟨?_, ?_⟩, ?_, hsame⟩ <;> dsimp only <;> omega

theorem verify_sign (hkey : key.Correct c) {h signed : BlockHeader} (hsign : h.sign c key = .ok signed) :
    signed.verify c key.pubKey = .ok true := by
  obtain ⟨sig, hsig, hsigned⟩ := bind_eq_ok.mp hsign
  cases hsigned
  obtain ⟨hr, hs, hlow, hverified⟩ := hkey.sign hsig
  have hfits : sig.serialize.take blockSignatureSize = sig.serialize :=
    take_of_length_le ((length_serialize_le hr hs).trans (by decide))
  rw [BlockHeader.verify]
  simp only [BlockSignature.copy, hfits, parseDERSignature_serialize hr hs, hlow]
  exact congrArg Except.ok hverified

theorem exists_sign (hkey : key.Correct c) {h : BlockHeader} (hr : (key.ints (h.hashForSigning c)).1 ≠ 0)
    (hs : (key.ints (h.hashForSigning c)).2 ≠ 0) : ∃ signed, h.sign c key = .ok signed := by
  obtain ⟨-, hsN⟩ := hkey.reduced (h.hashForSigning c)
  have hlow : (if Engine.halfOrder < (key.ints (h.hashForSigning c)).2
      then curveN - (key.ints (h.hashForSigning c)).2 else (key.ints (h.hashForSigning c)).2) ≠ 0 := by
    split_ifs <;> omega
  have hsig : key.sign (h.hashForSigning c) = .ok _ := (if_neg hr).trans (if_neg hlow)
  exact ⟨_, bind_eq_ok.mpr ⟨_, hsig, rfl⟩⟩

/-- Serializing a signature and parsing it, with any bytes behind it, gives the signature with the lower S. A header
verifies after it was signed, whatever its signature field was before. -/
theorem serialize_parses_and_signed_verifies : (∀ R S : Nat, ScalarInRange R → ScalarInRange S → ∀ t : Bytes,
      parseDERSignature ((Signature.mk R S).serialize ++ t) = .ok ⟨R, min S (curveN - S)⟩ ∧
        (Signature.mk R S).serialize.length ≤ 72 ∧
        ∀ vm : Engine, vm.checkSignatureEncoding (Signature.mk R S).serialize = .ok ()) ∧
    ∀ (c : Crypto) (key : PrivateKey), key.Correct c → ∀ h signed : BlockHeader, h.sign c key = .ok signed →
      signed.verify c key.pubKey = .ok true := by
  refine ⟨fun R S hr hs t => ?_, fun c key hkey h signed => verify_sign hkey⟩
  exact ⟨@parseDERSignature_serialize ⟨R, S⟩ hr hs t, length_serialize_le hr hs, checkSignatureEncoding_serialize hr hs⟩

/-- A signature scheme in which r is made from the hash. -/
def SignSample.crypto : Crypto where
  sha256 b := BitVec.ofNat 256 (beNat b)
  sha3 b := BitVec.ofNat 256 (beNat b)
  ripemd160 b := BitVec.ofNat 160 (beNat b)
  sha1 b := BitVec.ofNat 160 (beNat b)
  ecdsaVerify pubKey hash r s :=
    pubKey = sampleKey ∧ r = 1 + beNat hash % (curveN - 1) ∧ (s = 1 ∨ s = curveN - 1)

def SignSample.privateKey : PrivateKey where
  pubKey := sampleKey
  ints hash := (1 + beNat hash % (curveN - 1), curveN - 1)

theorem SignSample.correct : SignSample.privateKey.Correct SignSample.crypto := by
  have hpos : 1 < curveN := by decide
  refine ⟨fun hash => ⟨?_, ?_⟩, fun hash _ _ => ⟨decide_eq_true ⟨rfl, rfl, .inr rfl⟩, ?_⟩⟩
  · have hmod := Nat.mod_lt (beNat hash) (Nat.sub_pos_of_lt hpos)
    dsimp only [privateKey]
    omega
  · exact Nat.sub_lt (by omega) one_pos
  · have hone : curveN - (curveN - 1) = 1 := by decide
    exact decide_eq_true ⟨rfl, rfl, .inl hone⟩

theorem SignSample.ints_ne_zero (hash : Bytes) :
    (SignSample.privateKey.ints hash).1 ≠ 0 ∧ (SignSample.privateKey.ints hash).2 ≠ 0 := by
  have hs : curveN - 1 ≠ 0 := by decide
  exact ⟨by dsimp only [privateKey]; omega, hs⟩

/-- A header is signed over an older signature field. -/
theorem signed_verifies_sample :
    (∃ signed, BlockHeader.Sample.longSignatureHeader.sign SignSample.crypto SignSample.privateKey = .ok signed ∧
      signed.verify SignSample.crypto sampleKey = .ok true) ∧
    parseDERSignature ((Signature.mk 1 (curveN - 1)).serialize ++ [0xff]) =
      .ok ⟨1, min (curveN - 1) (curveN - (curveN - 1))⟩ := by
  have hmain := serialize_parses_and_signed_verifies
  obtain ⟨hr, hs⟩ := SignSample.ints_ne_zero
    (BlockHeader.Sample.longSignatureHeader.hashForSigning SignSample.crypto)
  obtain ⟨signed, hsigned⟩ := exists_sign SignSample.correct hr hs
  exact ⟨⟨signed, hsigned, hmain.2 _ SignSample.privateKey SignSample.correct _ _ hsigned⟩,
    (hmain.1 1 (curveN - 1) (by decide) (by decide) [0xff]).1⟩

end Prova
