import Prova.Lib.Bytes
import Prova.Lib.PowMod
import Mathlib.FieldTheory.Finite.Basic

/-!
# Public keys (`btcec/pubkey.go`, `btcec/keyid.go`)

Keys are points of secp256k1. A `PublicKey` carries the proof that its coordinates are reduced and on
the curve, which is what `ParsePubKey` establishes before it returns one. The compressed
serialization determines the key: the square root `decompressPoint` takes by exponentiation is a
square root because the field's order is prime, so parsing a compressed serialization gives the key
back.
-/

namespace Prova

open List

/-- The order of the field secp256k1 is defined over. -/
def curveP : Nat := 0xFFFFFFFFFFFFFFFFFFFFFFFFFFFFFFFFFFFFFFFFFFFFFFFFFFFFFFFEFFFFFC2F

/-- The order of the base point. -/
def curveN : Nat := 0xFFFFFFFFFFFFFFFFFFFFFFFFFFFFFFFEBAAEDCE6AF48A03BBFD25E8CD0364141

def curveB : Nat := 7

/-- The exponent that takes square roots in the field. -/
def qPlus1Div4 : Nat := (curveP + 1) / 4

def isOdd (a : Nat) : Bool := a % 2 == 1

def isOnCurve (x y : Nat) : Bool := y * y % curveP == (x * x * x + curveB) % curveP

structure PublicKey where
  x : Nat
  y : Nat
  x_lt : x < curveP
  y_lt : y < curveP
  onCurve : isOnCurve x y = true
deriving DecidableEq

@[ext] theorem PublicKey.ext {k l : PublicKey} (hx : k.x = l.x) (hy : k.y = l.y) : k = l := by
  cases k
  cases l
  cases hx
  cases hy
  rfl

/-- `PublicKey.IsEqual` compares the coordinates. -/
def PublicKey.isEqual (k l : PublicKey) : Bool := k.x == l.x && k.y == l.y

@[simp] theorem PublicKey.isEqual_iff {k l : PublicKey} : k.isEqual l = true ↔ k = l := by
  simp only [isEqual, Bool.and_eq_true, beq_iff_eq]
  constructor
  · rintro ⟨hx, hy⟩
    exact PublicKey.ext hx hy
  · rintro rfl
    exact ⟨rfl, rfl⟩

/-- Identifying number of an ASP key. -/
abbrev KeyID := UInt32

def keyIDSize : Nat := 4

def keyIDFromAddressBuffer (buf : Bytes) : KeyID := UInt32.ofNat (leNat (buf.take keyIDSize))

inductive PubKeyError
  | empty
  | invalidMagic (format : UInt8)
  | invalidCompressedMagic (format : UInt8)
  | yBitMismatch
  | invalidLength (n : Nat)
  | xNotReduced
  | yNotReduced
  | notOnCurve
deriving DecidableEq, Repr

def pubKeyBytesLenCompressed : Nat := 33
def pubKeyBytesLenUncompressed : Nat := 65
def pubkeyCompressed : UInt8 := 0x02
def pubkeyUncompressed : UInt8 := 0x04
def pubkeyHybrid : UInt8 := 0x06

def decompressPoint (x : Nat) (ybit : Bool) : Except PubKeyError Nat :=
  let y := powMod (x * x * x + curveB) qPlus1Div4 curveP
  let y := if ybit != isOdd y then curveP - y else y
  if ybit != isOdd y then .error .yBitMismatch else .ok y

/-- The last checks of `ParsePubKey`: reduced coordinates on the curve. -/
def checkPoint (x y : Nat) : Except PubKeyError PublicKey :=
  if hx : x < curveP then
    if hy : y < curveP then
      if hc : isOnCurve x y = true then .ok ⟨x, y, hx, hy, hc⟩ else .error .notOnCurve
    else .error .yNotReduced
  else .error .xNotReduced

def parsePubKey (pubKeyStr : Bytes) : Except PubKeyError PublicKey :=
  match pubKeyStr with
  | [] => .error .empty
  | magic :: rest =>
    let ybit := magic &&& 0x1 == 0x1
    -- the low bit is cleared before the format is compared, for the 65 byte forms too
    let format := magic &&& 0xfe
    if pubKeyStr.length = pubKeyBytesLenUncompressed then
      if format ≠ pubkeyUncompressed ∧ format ≠ pubkeyHybrid then .error (.invalidMagic magic)
      else
        let x := beNat (rest.take 32)
        let y := beNat (rest.drop 32)
        if format = pubkeyHybrid ∧ ybit ≠ isOdd y then .error .yBitMismatch else checkPoint x y
    else if pubKeyStr.length = pubKeyBytesLenCompressed then
      if format ≠ pubkeyCompressed then .error (.invalidCompressedMagic magic)
      else
        let x := beNat (rest.take 32)
        match decompressPoint x ybit with
        | .error e => .error e
        | .ok y => checkPoint x y
    else .error (.invalidLength pubKeyStr.length)

def PublicKey.serializeCompressed (k : PublicKey) : Bytes :=
  (if isOdd k.y then pubkeyCompressed ||| 0x1 else pubkeyCompressed) :: beBytes 32 k.x

def PublicKey.serializeUncompressed (k : PublicKey) : Bytes :=
  pubkeyUncompressed :: (beBytes 32 k.x ++ beBytes 32 k.y)

def PublicKey.serializeHybrid (k : PublicKey) : Bytes :=
  (if isOdd k.y then pubkeyHybrid ||| 0x1 else pubkeyHybrid) :: (beBytes 32 k.x ++ beBytes 32 k.y)

@[simp] theorem PublicKey.length_serializeCompressed (k : PublicKey) : k.serializeCompressed.length = 33 := by
  simp [serializeCompressed]

theorem checkPoint_coords (k : PublicKey) : checkPoint k.x k.y = .ok k := by
  simp [checkPoint, k.x_lt, k.y_lt, k.onCurve]

theorem checkPoint_eq_ok {x y : Nat} {k : PublicKey} : checkPoint x y = .ok k ↔ x = k.x ∧ y = k.y := by
  constructor
  · intro h
    unfold checkPoint at h
    split_ifs at h
    cases h
    exact ⟨rfl, rfl⟩
  · rintro ⟨rfl, rfl⟩
    exact checkPoint_coords k

/-! ### The field is a field -/

theorem certified_curveP : Certified
    [⟨curveP, 3, [2, 3, 7, 13441, 205115282021455665897114700593932402728804164701536103180137503955397371]⟩,
    ⟨205115282021455665897114700593932402728804164701536103180137503955397371, 10,
      [2, 3, 5, 29, 29, 31, 7723, 132896956044521568488119, 255515944373312847190720520512484175977]⟩,
    ⟨255515944373312847190720520512484175977, 3,
      [2, 2, 2, 7, 7, 11, 1627, 2657, 4423, 41201, 96557, 7240687, 107590001]⟩,
    ⟨132896956044521568488119, 6, [2, 3, 22149492674086928081353]⟩,
    ⟨22149492674086928081353, 5, [2, 2, 2, 3, 5323, 173378833005251801]⟩,
    ⟨173378833005251801, 6, [2, 2, 2, 5, 5, 2621, 24809, 13331831]⟩,
    ⟨107590001, 3, [2, 2, 2, 2, 5, 5, 5, 5, 7, 29, 53]⟩, ⟨13331831, 13, [2, 5, 971, 1373]⟩,
    ⟨7240687, 3, [2, 3, 1206781]⟩, ⟨1206781, 10, [2, 2, 3, 5, 20113]⟩] := by
  decide +kernel

theorem prime_curveP : Nat.Prime curveP := prime_of_certified certified_curveP _ mem_cons_self

instance : Fact (Nat.Prime curveP) := ⟨prime_curveP⟩

/-! ### Square roots and the compressed form -/

theorem PublicKey.sq_y (k : PublicKey) :
    (k.y : ZMod curveP) * k.y = ((k.x * k.x * k.x + curveB : Nat) : ZMod curveP) := by
  have h := k.onCurve
  rw [isOnCurve, beq_iff_eq] at h
  rw [← Nat.cast_mul]
  exact (ZMod.natCast_eq_natCast_iff' _ _ _).mpr h

theorem sqrt_eq_or_neg (k : PublicKey) : (powMod (k.x * k.x * k.x + curveB) qPlus1Div4 curveP : ZMod curveP) = k.y ∨
      (powMod (k.x * k.x * k.x + curveB) qPlus1Div4 curveP : ZMod curveP) = -k.y := by
  have hexp : qPlus1Div4 < 2 ^ 256 := by norm_num [qPlus1Div4, curveP]
  have hpow : qPlus1Div4 + qPlus1Div4 = (curveP - 1) / 2 + 1 := by norm_num [qPlus1Div4, curveP]
  have hhalf : (curveP - 1) / 2 * 2 = curveP - 1 := by norm_num [curveP]
  rw [← natCast_pow_eq_powMod hexp, ← k.sq_y]
  apply mul_self_eq_mul_self_iff.mp
  rw [← pow_add, hpow, pow_succ]
  by_cases hy : (k.y : ZMod curveP) = 0
  · simp [hy]
  · have hfermat : ((k.y : ZMod curveP) * k.y) ^ ((curveP - 1) / 2) = 1 := by
      rw [← pow_two, ← pow_mul, mul_comm 2, hhalf]
      exact ZMod.pow_card_sub_one_eq_one hy
    rw [hfermat, one_mul]

theorem decompressPoint_coords (k : PublicKey) : decompressPoint k.x (isOdd k.y) = .ok k.y := by
  have hlt : powMod (k.x * k.x * k.x + curveB) qPlus1Div4 curveP < curveP :=
    powMod_lt (by norm_num [curveP]) _ _
  have hroot := sqrt_eq_or_neg k
  unfold decompressPoint
  generalize powMod (k.x * k.x * k.x + curveB) qPlus1Div4 curveP = r at hlt hroot
  have hy := k.y_lt
  have hcases : r = k.y ∨ r + k.y = curveP := by
    rcases hroot with h | h
    · left
      rw [ZMod.natCast_eq_natCast_iff', Nat.mod_eq_of_lt hlt, Nat.mod_eq_of_lt hy] at h
      exact h
    · rw [eq_neg_iff_add_eq_zero, ← Nat.cast_add, ZMod.natCast_eq_zero_iff] at h
      obtain ⟨c, hc⟩ := h
      have hc2 : c < 2 := by
        by_contra hge
        have : curveP * 2 ≤ curveP * c := Nat.mul_le_mul_left _ (by omega)
        omega
      interval_cases c <;> omega
  have hodd : curveP % 2 = 1 := by norm_num [curveP]
  rcases hcases with rfl | hsum
  · simp
  · -- the other root has the other parity, since the prime is odd
    have hflip : isOdd k.y = !isOdd r := by
      unfold isOdd
      rcases Nat.mod_two_eq_zero_or_one r with hr | hr
      · have hy1 : k.y % 2 = 1 := by omega
        rw [hr, hy1]
        rfl
      · have hy0 : k.y % 2 = 0 := by omega
        rw [hr, hy0]
        rfl
    have hsub : curveP - r = k.y := by omega
    simp [hflip, hsub]

theorem isOdd_of_decompressPoint {x y : Nat} {ybit : Bool} (h : decompressPoint x ybit = .ok y) : ybit = isOdd y := by
  simp only [decompressPoint] at h
  split_ifs at h <;> simp_all

/-! ### The formats -/

theorem magic_eq_iff (magic : UInt8) (odd : Bool) : (magic &&& 0xfe = pubkeyCompressed ∧ (magic &&& 0x1 == 0x1) = odd ↔
      magic = if odd then pubkeyCompressed ||| 0x1 else pubkeyCompressed) ∧
    (magic &&& 0xfe = pubkeyUncompressed ↔ magic = pubkeyUncompressed ∨ magic = 0x05) ∧
    (magic &&& 0xfe = pubkeyHybrid ∧ (magic &&& 0x1 == 0x1) = odd ↔
      magic = if odd then pubkeyHybrid ||| 0x1 else pubkeyHybrid) := by
  revert magic odd
  exact forall_byte (by decide +kernel)

variable {b : Bytes} {k : PublicKey}

theorem parsePubKey_short {magic : UInt8} {x : Bytes} (hx : x.length = 32) : parsePubKey (magic :: x) = .ok k ↔
      beNat x = k.x ∧ magic = if isOdd k.y then pubkeyCompressed ||| 0x1 else pubkeyCompressed := by
  rw [← (magic_eq_iff magic (isOdd k.y)).1]
  unfold parsePubKey
  simp only [length_cons, hx, pubKeyBytesLenUncompressed, pubKeyBytesLenCompressed,
    take_of_length_le hx.le, Nat.reduceAdd, Nat.reduceEqDiff, if_true, if_false]
  by_cases hformat : magic &&& 0xfe = pubkeyCompressed
  · simp only [hformat, ne_eq, not_true_eq_false, if_false, true_and]
    constructor
    · intro h
      split at h
      · cases h
      · next y hroot =>
        obtain ⟨hkx, rfl⟩ := checkPoint_eq_ok.mp h
        exact ⟨hkx, isOdd_of_decompressPoint hroot⟩
    · rintro ⟨hkx, hodd⟩
      rw [hkx, hodd, decompressPoint_coords]
      exact checkPoint_coords k
  · simp [hformat]

theorem parsePubKey_long {magic : UInt8} {x y : Bytes} (hx : x.length = 32) (hy : y.length = 32) :
    parsePubKey (magic :: (x ++ y)) = .ok k ↔ beNat x = k.x ∧ beNat y = k.y ∧
      ((magic = pubkeyUncompressed ∨ magic = 0x05) ∨
        magic = if isOdd k.y then pubkeyHybrid ||| 0x1 else pubkeyHybrid) := by
  obtain ⟨-, huncompressed, hhybrid⟩ := magic_eq_iff magic (isOdd k.y)
  rw [← huncompressed, ← hhybrid]
  unfold parsePubKey
  simp only [length_cons, length_append, hx, hy, pubKeyBytesLenUncompressed, take_left' hx, drop_left' hx, if_true]
  have hne : pubkeyUncompressed ≠ pubkeyHybrid := by decide
  by_cases hformat : magic &&& 0xfe = pubkeyUncompressed
  · simp [hformat, hne, checkPoint_eq_ok]
  · by_cases hhyb : magic &&& 0xfe = pubkeyHybrid
    · by_cases hodd : (magic &&& 0x1 == 0x1) = isOdd (beNat y)
      · simp only [hhyb, hodd, ne_eq, not_true_eq_false, and_false, if_false, checkPoint_eq_ok, hne.symm, false_or,
          true_and]
        exact ⟨fun h => ⟨h.1, h.2, by rw [h.2]⟩, fun h => ⟨h.1, h.2.1⟩⟩
      · simp only [hhyb, ne_eq, hodd, not_true_eq_false, not_false_eq_true, and_false, and_self, if_true, if_false,
          reduceCtorEq, hne.symm, false_or, true_and, false_iff, not_and]
        exact fun _ hky hodd' => hodd (hky ▸ hodd')
    · simp [hformat, hhyb]

inductive KeyFormat
  | compressed
  | uncompressed
  | hybrid
deriving DecidableEq, Repr

def PublicKey.serialize (k : PublicKey) : KeyFormat → Bytes
  | .compressed => k.serializeCompressed
  | .uncompressed => k.serializeUncompressed
  | .hybrid => k.serializeHybrid

/-- A byte string is a point in a format: a magic byte, which may say if y is odd, and coordinates of 32 bytes. -/
def KeyFormat.Encodes (b : Bytes) (k : PublicKey) : KeyFormat → Prop
  | .compressed => ∃ x, b = (if isOdd k.y then 0x03 else 0x02) :: x ∧ x.length = 32 ∧ beNat x = k.x
  | .uncompressed => ∃ x y, b = 0x04 :: (x ++ y) ∧ x.length = 32 ∧ y.length = 32 ∧ beNat x = k.x ∧ beNat y = k.y
  | .hybrid => ∃ x y, b = (if isOdd k.y then 0x07 else 0x06) :: (x ++ y) ∧ x.length = 32 ∧ y.length = 32 ∧
      beNat x = k.x ∧ beNat y = k.y

theorem beBytes_eq_iff {n : Nat} (hn : n < curveP) {x : Bytes} : beBytes 32 n = x ↔ x.length = 32 ∧ beNat x = n := by
  constructor
  · rintro rfl
    rw [beNat_beBytes, Nat.mod_eq_of_lt (lt_trans hn (by norm_num [curveP]))]
    exact ⟨length_beBytes 32 n, rfl⟩
  · rintro ⟨hx, rfl⟩
    rw [← hx]
    exact beBytes_beNat x

theorem encodes_iff {format : KeyFormat} : format.Encodes b k ↔ k.serialize format = b := by
  have hx {x : Bytes} := @beBytes_eq_iff k.x k.x_lt x
  have hy {y : Bytes} := @beBytes_eq_iff k.y k.y_lt y
  cases format with
  | compressed =>
    constructor
    · rintro ⟨x, rfl, hlen, hnat⟩
      rw [PublicKey.serialize, PublicKey.serializeCompressed, hx.mpr ⟨hlen, hnat⟩]
      rfl
    · rintro rfl
      exact ⟨_, rfl, hx.mp rfl⟩
  | uncompressed =>
    constructor
    · rintro ⟨x, y, rfl, hxlen, hylen, hxnat, hynat⟩
      rw [PublicKey.serialize, PublicKey.serializeUncompressed, hx.mpr ⟨hxlen, hxnat⟩, hy.mpr ⟨hylen, hynat⟩]
      rfl
    · rintro rfl
      exact ⟨_, _, rfl, (hx.mp rfl).1, (hy.mp rfl).1, (hx.mp rfl).2, (hy.mp rfl).2⟩
  | hybrid =>
    constructor
    · rintro ⟨x, y, rfl, hxlen, hylen, hxnat, hynat⟩
      rw [PublicKey.serialize, PublicKey.serializeHybrid, hx.mpr ⟨hxlen, hxnat⟩, hy.mpr ⟨hylen, hynat⟩]
      rfl
    · rintro rfl
      exact ⟨_, _, rfl, (hx.mp rfl).1, (hy.mp rfl).1, (hx.mp rfl).2, (hy.mp rfl).2⟩

theorem parsePubKey_eq_ok : parsePubKey b = .ok k ↔
    (∃ format, k.serialize format = b) ∨ b = 0x05 :: (beBytes 32 k.x ++ beBytes 32 k.y) := by
  have hx := (beBytes_eq_iff k.x_lt).mp rfl
  have hy := (beBytes_eq_iff k.y_lt).mp rfl
  constructor
  · intro h
    cases b with
    | nil => cases h
    | cons magic rest =>
      by_cases hlong : rest.length = 64
      · have htake : (rest.take 32).length = 32 := by
          rw [length_take]
          omega
        have hdrop : (rest.drop 32).length = 32 := by
          rw [length_drop]
          omega
        rw [← take_append_drop 32 rest] at h ⊢
        obtain ⟨hkx, hky, hmagic⟩ := (parsePubKey_long htake hdrop).mp h
        rw [← (beBytes_eq_iff k.x_lt).mpr ⟨htake, hkx⟩, ← (beBytes_eq_iff k.y_lt).mpr ⟨hdrop, hky⟩]
        rcases hmagic with (rfl | rfl) | rfl
        · exact .inl ⟨.uncompressed, rfl⟩
        · exact .inr rfl
        · exact .inl ⟨.hybrid, rfl⟩
      · by_cases hshort : rest.length = 32
        · obtain ⟨hkx, rfl⟩ := (parsePubKey_short hshort).mp h
          rw [← (beBytes_eq_iff k.x_lt).mpr ⟨hshort, hkx⟩]
          exact .inl ⟨.compressed, rfl⟩
        · simp [parsePubKey, pubKeyBytesLenUncompressed, pubKeyBytesLenCompressed, hlong, hshort] at h
  · rintro (⟨format, rfl⟩ | rfl)
    · cases format with
      | compressed => exact (parsePubKey_short hx.1).mpr ⟨hx.2, rfl⟩
      | uncompressed => exact (parsePubKey_long hx.1 hy.1).mpr ⟨hx.2, hy.2, .inl (.inl rfl)⟩
      | hybrid => exact (parsePubKey_long hx.1 hy.1).mpr ⟨hx.2, hy.2, .inr rfl⟩
    · exact (parsePubKey_long hx.1 hy.1).mpr ⟨hx.2, hy.2, .inl (.inr rfl)⟩

theorem serialize_ne_cons_five {format : KeyFormat} {rest : Bytes} : k.serialize format ≠ 0x05 :: rest := by
  intro h
  have hmagic : (k.serialize format).head? ≠ some 0x05 := by
    cases format <;> cases hodd : isOdd k.y <;>
      simp [PublicKey.serialize, PublicKey.serializeCompressed, PublicKey.serializeUncompressed,
        PublicKey.serializeHybrid, hodd] <;> decide
  rw [h] at hmagic
  exact hmagic rfl

theorem parsePubKey_serializeCompressed (k : PublicKey) : parsePubKey k.serializeCompressed = .ok k :=
  parsePubKey_eq_ok.mpr (.inl ⟨.compressed, rfl⟩)

/-- `ParsePubKey` accepts exactly the points in the three formats, from which the result is serialized again, but
for the points behind the magic 0x05: it takes them for uncompressed ones. -/
theorem parsePubKey_exact_iff (b : Bytes) : ((∀ k, parsePubKey b = .ok k ↔ ∃ format : KeyFormat, format.Encodes b k) ∧
      ∀ k (format : KeyFormat), format.Encodes b k → k.serialize format = b) ↔
    ¬ ∃ k : PublicKey, b = 0x05 :: (beBytes 32 k.x ++ beBytes 32 k.y) := by
  simp only [encodes_iff, parsePubKey_eq_ok, imp_self, implies_true, and_true]
  constructor
  · rintro h ⟨k, rfl⟩
    obtain ⟨format, hformat⟩ := (h k).mp (.inr rfl)
    exact serialize_ne_cons_five hformat
  · intro h k
    exact or_iff_left fun hb => h ⟨k, hb⟩

def sampleKey : PublicKey where
  x := 1
  y := 0x4218f20ae6c646b363db68605822fb14264ca8d2587fdd6fbc750d587e76a7ee
  x_lt := by decide
  y_lt := by decide
  onCurve := by decide

theorem parsePubKey_magic_five :
    let b := 0x05 :: (beBytes 32 sampleKey.x ++ beBytes 32 sampleKey.y)
    parsePubKey b = .ok sampleKey ∧ (∀ format, sampleKey.serialize format ≠ b) ∧
      ¬ ∃ k, ∃ format : KeyFormat, format.Encodes b k := by
  refine ⟨parsePubKey_eq_ok.mpr (.inr rfl), fun format => serialize_ne_cons_five, ?_⟩
  rintro ⟨k, format, h⟩
  exact serialize_ne_cons_five (encodes_iff.mp h)

end Prova
