import Prova.Btcec.Secp256k1
import Prova.Lib.Radix
import Mathlib.Data.Int.ModEq
import Mathlib.Data.List.GetD

/-!
# Multiples of points (`btcec/btcec.go`)

`ScalarMult` splits the scalar in two halves with the endomorphism of the curve, recodes both in non-adjacent
form, and adds the two points up in one loop of doublings. `ScalarBaseMult` adds up points of a table, one for
each byte of the scalar.
-/

namespace Prova

namespace KoblitzCurve

open List WeierstrassCurve.Affine JacobianPoint CubicCurve

/-! ### The scalar -/

def byteSize : Nat := 32

def moduloReduce (k : Bytes) : Bytes :=
  if k.length > byteSize then bigBytes (beNat k % curveN) else k

/-- The signed halves of `splitK`, before their signs are cut off. The divisions are Euclidean. -/
def splitHalves (k : Bytes) : Int × Int :=
  let bigIntK : Int := beNat k
  let c1 := b2 * bigIntK / curveN
  let c2 := b1 * bigIntK / curveN
  (bigIntK - c1 * a1 + c2 * a2, c2 * b2 - c1 * b1)

def splitK (k : Bytes) : Bytes × Bytes × Int × Int :=
  let halves := splitHalves k
  (bigBytes halves.1.natAbs, bigBytes halves.2.natAbs, halves.1.sign, halves.2.sign)

/-- What `NAF` does with bit j of a byte: the carry and the bytes of the ones and the minus ones. -/
def nafBit (curIsOne nextIsOne : Bool) (j : Nat) : Bool × UInt8 × UInt8 → Bool × UInt8 × UInt8
  | (carry, pos, neg) =>
    let bit : UInt8 := 1 <<< UInt8.ofNat j
    if carry then
      if curIsOne then (true, pos, neg)
      else if nextIsOne then (true, pos, neg + bit)
      else (false, pos + bit, neg)
    else if curIsOne then
      if nextIsOne then (true, pos, neg + bit)
      else (false, pos + bit, neg)
    else (false, pos, neg)

/-- What `NAF` does with the bits of a byte from bit 8 - n on. `nextByteIsOdd` is the lowest bit of the byte to
the left. -/
def nafBits (nextByteIsOdd : Bool) : Nat → UInt8 → Bool × UInt8 × UInt8 → Bool × UInt8 × UInt8
  | 0, _, state => state
  | n + 1, curByte, state =>
    let curIsOne := curByte &&& 1 == 1
    let nextIsOne := if 7 - n = 7 then nextByteIsOdd else curByte &&& 2 == 2
    nafBits nextByteIsOdd n (curByte >>> 1) (nafBit curIsOne nextIsOne (7 - n) state)

def nafByte (curByte : UInt8) (nextByteIsOdd carry : Bool) : Bool × UInt8 × UInt8 :=
  nafBits nextByteIsOdd 8 curByte (carry, 0, 0)

def leftIsOdd : Bytes → Bool
  | [] => false
  | next :: _ => next &&& 1 == 1

/-- The loop of `NAF` over the bytes, from the last to the first, with the carry at the end. -/
def nafBytes (carry : Bool) : Bytes → List (UInt8 × UInt8) × Bool
  | [] => ([], carry)
  | curByte :: rest =>
    let cur := nafByte curByte (leftIsOdd rest) carry
    let later := nafBytes cur.1 rest
    (cur.2 :: later.1, later.2)

/-- The bytes of the ones and of the minus ones, from the first to the last. -/
def nafPairs (k : Bytes) : List (UInt8 × UInt8) :=
  let bytes := nafBytes false k.reverse
  (if bytes.2 then 1 else 0, 0) :: bytes.1.reverse

def naf (k : Bytes) : Bytes × Bytes := ((nafPairs k).map Prod.fst, (nafPairs k).map Prod.snd)

/-! ### `ScalarMult` -/

/-- `bigAffineToField`, for coordinates of 32 bytes. -/
def bigAffineToField (x y : Nat) : FieldVal × FieldVal := (x, y)

/-- `fieldJacobianToBigAffine`. The inverse of zero is zero. -/
def fieldJacobianToBigAffine (p : JacobianPoint FieldVal) : Nat × Nat :=
  let zInv := p.z⁻¹
  let tempZ := zInv ^ 2
  ((p.x * tempZ).val, (p.y * (tempZ * zInv)).val)

/-- The byte of a recoded scalar for step i of m, which is zero before the scalar begins. -/
def byteAt (m : Nat) (bytes : Bytes) (i : Nat) : UInt8 :=
  if i < m - bytes.length then 0 else bytes.getD (i - (m - bytes.length)) 0

/-- The point or its opposite is added as the highest bits say. -/
def addDigit (pos neg : UInt8) (p pNeg q : JacobianPoint FieldVal) : JacobianPoint FieldVal :=
  if pos &&& 0x80 = 0x80 then addJacobian q p
  else if neg &&& 0x80 = 0x80 then addJacobian q pNeg
  else q

/-- The inner loop of `ScalarMult`, over some bits of the four bytes. -/
def scalarMultBits (p1 p1Neg p2 p2Neg : JacobianPoint FieldVal) :
    Nat → UInt8 → UInt8 → UInt8 → UInt8 → JacobianPoint FieldVal → JacobianPoint FieldVal
  | 0, _, _, _, _, q => q
  | n + 1, k1BytePos, k1ByteNeg, k2BytePos, k2ByteNeg, q =>
    let q := doubleJacobian q
    let q := addDigit k1BytePos k1ByteNeg p1 p1Neg q
    let q := addDigit k2BytePos k2ByteNeg p2 p2Neg q
    scalarMultBits p1 p1Neg p2 p2Neg n (k1BytePos <<< 1) (k1ByteNeg <<< 1) (k2BytePos <<< 1) (k2ByteNeg <<< 1) q

/-- The outer loop of `ScalarMult`, over the first bytes of the two scalars. -/
def scalarMultBytes (p1 p1Neg p2 p2Neg : JacobianPoint FieldVal) (k1NAF k2NAF : Bytes × Bytes) (m n : Nat) :
    JacobianPoint FieldVal :=
  (List.range n).foldl (fun q i => scalarMultBits p1 p1Neg p2 p2Neg 8 (byteAt m k1NAF.1 i) (byteAt m k1NAF.2 i)
    (byteAt m k2NAF.1 i) (byteAt m k2NAF.2 i) q) infinity

def flipSigns (sign : Int) (p pNeg : JacobianPoint FieldVal) : JacobianPoint FieldVal × JacobianPoint FieldVal :=
  if sign = -1 then (pNeg, p) else (p, pNeg)

def scalarMult (Bx By : Nat) (k : Bytes) : Nat × Nat :=
  let (k1, k2, signK1, signK2) := splitK (moduloReduce k)
  let (p1x, p1y) := bigAffineToField Bx By
  let p1 := flipSigns signK1 ⟨p1x, p1y, 1⟩ ⟨p1x, -p1y, 1⟩
  let p2 := flipSigns signK2 ⟨p1x * beta, p1y, 1⟩ ⟨p1x * beta, -p1y, 1⟩
  let k1NAF := naf k1
  let k2NAF := naf k2
  let m := max k1NAF.1.length k2NAF.1.length
  fieldJacobianToBigAffine (scalarMultBytes p1.1 p1.2 p2.1 p2.2 k1NAF k2NAF m m)

/-! ### `ScalarBaseMult` -/

/-- The loop of `ScalarBaseMult`, from a row of the table on. -/
def scalarBaseMultLoop (bytePoints : Nat → UInt8 → JacobianPoint FieldVal) :
    Nat → Bytes → JacobianPoint FieldVal → JacobianPoint FieldVal
  | _, [], q => q
  | i, byteVal :: rest, q => scalarBaseMultLoop bytePoints (i + 1) rest (addJacobian q (bytePoints i byteVal))

/-- `ScalarBaseMult`, with the 32 rows of 256 points of the table. -/
def scalarBaseMult (bytePoints : Nat → UInt8 → JacobianPoint FieldVal) (k : Bytes) : Nat × Nat :=
  let newK := moduloReduce k
  let diff := byteSize - newK.length
  fieldJacobianToBigAffine (scalarBaseMultLoop bytePoints diff newK infinity)

/-! ### The recoded scalar -/

/-- The digit that the highest bits of two bytes stand for, as `ScalarMult` reads them. -/
def digit (pos neg : UInt8) : Int :=
  if pos &&& 0x80 = 0x80 then 1 else if neg &&& 0x80 = 0x80 then -1 else 0

/-- A number with the digits of the highest bits of two bytes appended. -/
def appendDigits : Nat → Int → UInt8 → UInt8 → Int
  | 0, value, _, _ => value
  | n + 1, value, pos, neg => appendDigits n (2 * value + digit pos neg) (pos <<< 1) (neg <<< 1)

theorem nafByte_spec (curByte : UInt8) (nextByteIsOdd carry : Bool) :
    let r := nafByte curByte nextByteIsOdd carry
    curByte.toNat + carry.toNat + r.2.2.toNat = r.2.1.toNat + 256 * r.1.toNat ∧ r.2.1 &&& r.2.2 = 0 := by
  revert curByte nextByteIsOdd carry
  exact forall_byte (by decide +kernel)

def topBits : Nat → UInt8 → Nat
  | 0, _ => 0
  | n + 1, byte => (if byte &&& 0x80 = 0x80 then 2 ^ n else 0) + topBits n (byte <<< 1)

theorem topBits_eight (byte : UInt8) : topBits 8 byte = byte.toNat := by
  revert byte
  exact forall_byte (by decide +kernel)

theorem appendDigits_eq {n : Nat} {value : Int} {pos neg : UInt8} (hdisjoint : pos &&& neg = 0) :
    appendDigits n value pos neg = 2 ^ n * value + topBits n pos - topBits n neg := by
  induction n generalizing value pos neg with
  | zero => simp [appendDigits, topBits]
  | succ n ih =>
    have hshift : pos <<< 1 &&& neg <<< 1 = 0 := by
      rw [← UInt8.shiftLeft_and, hdisjoint, UInt8.zero_shiftLeft]
    have htop : ¬ (pos &&& 0x80 = 0x80 ∧ neg &&& 0x80 = 0x80) := by
      rintro ⟨hpos, hneg⟩
      have hboth : pos &&& neg &&& 0x80 = 0x80 := by rw [UInt8.and_assoc, hneg, hpos]
      rw [hdisjoint] at hboth
      exact absurd hboth (by decide)
    rw [appendDigits, ih hshift, topBits, topBits, digit]
    by_cases hpos : pos &&& 0x80 = 0x80
    · have hneg : ¬ neg &&& 0x80 = 0x80 := fun hneg => htop ⟨hpos, hneg⟩
      simp only [if_pos hpos, if_neg hneg]
      push_cast
      ring
    · by_cases hneg : neg &&& 0x80 = 0x80
      · simp only [if_neg hpos, if_pos hneg]
        push_cast
        ring
      · simp only [if_neg hpos, if_neg hneg]
        push_cast
        ring

/-- The number that pairs of bytes spell, from the first to the last. -/
def pairsValue (pairs : List (UInt8 × UInt8)) : Int :=
  pairs.foldl (fun value pair => appendDigits 8 value pair.1 pair.2) 0

theorem pairsValue_concat (pairs : List (UInt8 × UInt8)) (pair : UInt8 × UInt8) :
    pairsValue (pairs ++ [pair]) = appendDigits 8 (pairsValue pairs) pair.1 pair.2 := by
  rw [pairsValue, foldl_append]
  rfl

theorem pairsValue_nafBytes (carry : Bool) (bytes : Bytes) :
    pairsValue ((if (nafBytes carry bytes).2 then 1 else 0, 0) :: (nafBytes carry bytes).1.reverse) =
      leNat bytes + carry.toNat := by
  induction bytes generalizing carry with
  | nil => cases carry <;> rfl
  | cons curByte rest ih =>
    rw [nafBytes]
    obtain ⟨hvalue, hdisjoint⟩ := nafByte_spec curByte (leftIsOdd rest) carry
    dsimp only
    generalize nafByte curByte (leftIsOdd rest) carry = cur at hvalue hdisjoint
    have hlater := ih cur.1
    rw [reverse_cons, ← cons_append, pairsValue_concat, hlater, appendDigits_eq hdisjoint, topBits_eight,
      topBits_eight, leNat]
    push_cast
    zify at hvalue
    linear_combination -hvalue

theorem pairsValue_nafPairs (k : Bytes) : pairsValue (nafPairs k) = beNat k := by
  rw [nafPairs, pairsValue_nafBytes, beNat]
  exact Int.add_zero _

/-! #### No two neighbouring digits -/

/-- Two masks have no bit in common, and no two neighbouring bits. -/
structure NonAdjacent (pos neg : Nat) : Prop where
  disjoint : ∀ i, ¬ (pos.testBit i ∧ neg.testBit i)
  apart : ∀ i, ¬ ((pos ||| neg).testBit i ∧ (pos ||| neg).testBit (i + 1))

theorem NonAdjacent.concat {pos neg posLeft negLeft : Nat} (hpos : pos < 2 ^ 8) (hneg : neg < 2 ^ 8)
    (h : NonAdjacent pos neg) (hleft : NonAdjacent posLeft negLeft)
    (hgap : (pos ||| neg).testBit 7 → ¬ (posLeft ||| negLeft).testBit 0) :
    NonAdjacent (2 ^ 8 * posLeft + pos) (2 ^ 8 * negLeft + neg) := by
  have hbit (i : Nat) : (2 ^ 8 * posLeft + pos ||| 2 ^ 8 * negLeft + neg).testBit i =
      if i < 8 then (pos ||| neg).testBit i else (posLeft ||| negLeft).testBit (i - 8) := by
    rw [Nat.testBit_or, Nat.testBit_two_pow_mul_add _ hpos, Nat.testBit_two_pow_mul_add _ hneg, Nat.testBit_or,
      Nat.testBit_or]
    split_ifs <;> rfl
  refine ⟨fun i => ?_, fun i => ?_⟩
  · rw [Nat.testBit_two_pow_mul_add _ hpos, Nat.testBit_two_pow_mul_add _ hneg]
    split_ifs
    · exact h.disjoint i
    · exact hleft.disjoint (i - 8)
  · rw [hbit, hbit]
    rcases Nat.lt_trichotomy i 7 with hi | rfl | hi
    · rw [if_pos (by omega), if_pos (by omega)]
      exact h.apart i
    · exact not_and.mpr hgap
    · rw [if_neg (by omega), if_neg (by omega), Nat.sub_add_comm (by omega)]
      exact hleft.apart (i - 8)

/-- The digits of a recoded byte. A digit at its highest bit and one at the lowest bit of the next byte exclude
each other by way of the carry. -/
theorem nafByte_apart (curByte : UInt8) (nextByteIsOdd carry : Bool) :
    let r := nafByte curByte nextByteIsOdd carry
    let digits := r.2.1.toNat ||| r.2.2.toNat
    digits &&& digits >>> 1 = 0 ∧ (digits.testBit 7 → r.1 = nextByteIsOdd) ∧
      (carry = (curByte &&& 1 == 1) → ¬ digits.testBit 0) := by
  revert curByte nextByteIsOdd carry
  exact forall_byte (by decide +kernel)

theorem nonAdjacent_nafByte (curByte : UInt8) (nextByteIsOdd carry : Bool) :
    let r := nafByte curByte nextByteIsOdd carry
    NonAdjacent r.2.1.toNat r.2.2.toNat := by
  intro r
  have hand {x y : Nat} (h : x &&& y = 0) (i : Nat) : ¬ (x.testBit i ∧ y.testBit i) := by
    rw [← Bool.and_eq_true, ← Nat.testBit_and, h, Nat.zero_testBit]
    exact Bool.false_ne_true
  refine ⟨hand ?_, fun i => ?_⟩
  · rw [← UInt8.toNat_and, (nafByte_spec curByte nextByteIsOdd carry).2]
    rfl
  · have hshift := hand (nafByte_apart curByte nextByteIsOdd carry).1 i
    rwa [Nat.testBit_shiftRight, Nat.add_comm 1 i] at hshift

theorem nafBytes_masks (carry : Bool) (bytes : Bytes) :
    let r := nafBytes carry bytes
    let pos := leNat (r.1.map Prod.fst ++ [if r.2 then 1 else 0])
    let neg := leNat (r.1.map Prod.snd ++ [0])
    NonAdjacent pos neg ∧ leNat bytes + carry.toNat + neg = pos ∧
      (carry = leftIsOdd bytes → ¬ (pos ||| neg).testBit 0) := by
  induction bytes generalizing carry with
  | nil =>
    have hnone : NonAdjacent 0 0 := ⟨fun i => by simp, fun i => by simp⟩
    have hone : NonAdjacent 1 0 := ⟨fun i => by simp, fun i => by simp [Nat.testBit_one_eq_true_iff_self_eq_zero]⟩
    cases carry
    · exact ⟨hnone, rfl, fun _ => by decide⟩
    · exact ⟨hone, rfl, fun h => absurd h (by decide)⟩
  | cons curByte rest ih =>
    obtain ⟨hvalue, -⟩ := nafByte_spec curByte (leftIsOdd rest) carry
    obtain ⟨-, hgap, hlowest⟩ := nafByte_apart curByte (leftIsOdd rest) carry
    have hcur := nonAdjacent_nafByte curByte (leftIsOdd rest) carry
    rw [nafBytes]
    dsimp only
    generalize nafByte curByte (leftIsOdd rest) carry = cur at hvalue hgap hlowest hcur ⊢
    obtain ⟨hleft, hsum, hleftLowest⟩ := ih cur.1
    simp only [map_cons, cons_append, leNat]
    generalize leNat ((nafBytes cur.1 rest).1.map Prod.fst ++ [if (nafBytes cur.1 rest).2 then 1 else 0]) = posLeft
      at hleft hsum hleftLowest ⊢
    generalize leNat ((nafBytes cur.1 rest).1.map Prod.snd ++ [0]) = negLeft at hleft hsum hleftLowest ⊢
    have hmasks := hcur.concat cur.2.1.toNat_lt cur.2.2.toNat_lt hleft fun h => hleftLowest (hgap h)
    rw [Nat.add_comm _ cur.2.1.toNat, Nat.add_comm _ cur.2.2.toNat] at hmasks
    refine ⟨hmasks, by omega, fun hcarry => ?_⟩
    have hbit (low high : Nat) : (low + 256 * high).testBit 0 = low.testBit 0 := by
      simp only [Nat.testBit_zero]
      congr 2
      omega
    rw [Nat.testBit_or, hbit, hbit, ← Nat.testBit_or]
    exact hlowest hcarry

theorem naf_masks (k : Bytes) :
    NonAdjacent (beNat (naf k).1) (beNat (naf k).2) ∧ beNat k + beNat (naf k).2 = beNat (naf k).1 := by
  obtain ⟨hmasks, hsum, -⟩ := nafBytes_masks false k.reverse
  have hpos : beNat (naf k).1 = leNat ((nafBytes false k.reverse).1.map Prod.fst ++
      [if (nafBytes false k.reverse).2 then 1 else 0]) := by
    simp [beNat, naf, nafPairs]
  have hneg : beNat (naf k).2 = leNat ((nafBytes false k.reverse).1.map Prod.snd ++ [0]) := by
    simp [beNat, naf, nafPairs]
  rw [hpos, hneg]
  exact ⟨hmasks, hsum⟩

def padded (m : Nat) (pairs : List (UInt8 × UInt8)) : List (UInt8 × UInt8) :=
  List.replicate (m - pairs.length) (0, 0) ++ pairs

theorem length_padded {m : Nat} {pairs : List (UInt8 × UInt8)} (h : pairs.length ≤ m) :
    (padded m pairs).length = m := by
  rw [padded, length_append, length_replicate]
  omega

theorem pairsValue_padded (m : Nat) (pairs : List (UInt8 × UInt8)) :
    pairsValue (padded m pairs) = pairsValue pairs := by
  have hzeros (n : Nat) : (List.replicate n ((0, 0) : UInt8 × UInt8)).foldl
      (fun value pair => appendDigits 8 value pair.1 pair.2) 0 = 0 := by
    induction n with
    | zero => rfl
    | succ n ih => exact ih
  rw [pairsValue, padded, foldl_append, hzeros]
  rfl

theorem byteAt_map {m : Nat} (pairs : List (UInt8 × UInt8)) {f : UInt8 × UInt8 → UInt8} (hf : f (0, 0) = 0)
    (i : Nat) : byteAt m (pairs.map f) i = f ((padded m pairs).getD i (0, 0)) := by
  rw [byteAt, padded, length_map]
  split_ifs with hi
  · rw [getD_append _ _ _ _ (by rw [length_replicate]; exact hi), getD_replicate _ hi, hf]
  · rw [getD_append_right _ _ _ _ (by rw [length_replicate]; omega), length_replicate, ← hf, getD_map, hf]

theorem pairsValue_take_succ {pairs : List (UInt8 × UInt8)} {n : Nat} (h : n < pairs.length) :
    pairsValue (pairs.take (n + 1)) =
      appendDigits 8 (pairsValue (pairs.take n)) (pairs.getD n (0, 0)).1 (pairs.getD n (0, 0)).2 := by
  rw [take_succ_eq_append_getElem h, pairsValue_concat, getD_eq_getElem _ _ h]

/-! ### The loops of `ScalarMult` -/

section Loops

variable {p1 p1Neg p2 p2Neg q : JacobianPoint FieldVal} {P1 P2 Q : secp256k1.Point}

theorem represents_addDigit {p pNeg : JacobianPoint FieldVal} {P : secp256k1.Point} (hp : p.Represents P)
    (hpNeg : pNeg.Represents (-P)) (hq : q.Represents Q) (pos neg : UInt8) :
    (addDigit pos neg p pNeg q).Represents (Q + digit pos neg • P) := by
  rw [addDigit, digit]
  split_ifs
  · rw [one_zsmul]
    exact represents_addJacobian two_ne_zero curveB_ne_zero hq hp
  · rw [neg_one_zsmul]
    exact represents_addJacobian two_ne_zero curveB_ne_zero hq hpNeg
  · rw [zero_zsmul, add_zero]
    exact hq

variable (hp1 : p1.Represents P1) (hp1Neg : p1Neg.Represents (-P1)) (hp2 : p2.Represents P2)
  (hp2Neg : p2Neg.Represents (-P2))

include hp1 hp1Neg hp2 hp2Neg

theorem represents_scalarMultBits {n : Nat} {value1 value2 : Int} (hq : q.Represents (value1 • P1 + value2 • P2))
    (k1BytePos k1ByteNeg k2BytePos k2ByteNeg : UInt8) :
    (scalarMultBits p1 p1Neg p2 p2Neg n k1BytePos k1ByteNeg k2BytePos k2ByteNeg q).Represents
      (appendDigits n value1 k1BytePos k1ByteNeg • P1 + appendDigits n value2 k2BytePos k2ByteNeg • P2) := by
  induction n generalizing value1 value2 q k1BytePos k1ByteNeg k2BytePos k2ByteNeg with
  | zero => exact hq
  | succ n ih =>
    rw [scalarMultBits, appendDigits, appendDigits]
    refine ih ?_ _ _ _ _
    have hdouble := represents_doubleJacobian two_ne_zero hq
    have hfirst := represents_addDigit hp1 hp1Neg hdouble k1BytePos k1ByteNeg
    have hsecond := represents_addDigit hp2 hp2Neg hfirst k2BytePos k2ByteNeg
    have hsum : value1 • P1 + value2 • P2 + (value1 • P1 + value2 • P2) + digit k1BytePos k1ByteNeg • P1 +
        digit k2BytePos k2ByteNeg • P2 =
        (2 * value1 + digit k1BytePos k1ByteNeg) • P1 + (2 * value2 + digit k2BytePos k2ByteNeg) • P2 := by
      simp only [add_zsmul, two_mul]
      abel
    rwa [hsum] at hsecond

theorem represents_scalarMultBytes {pairs1 pairs2 : List (UInt8 × UInt8)} {m n : Nat} (h1 : pairs1.length ≤ m)
    (h2 : pairs2.length ≤ m) (hn : n ≤ m) :
    (scalarMultBytes p1 p1Neg p2 p2Neg (pairs1.map Prod.fst, pairs1.map Prod.snd)
      (pairs2.map Prod.fst, pairs2.map Prod.snd) m n).Represents
      (pairsValue ((padded m pairs1).take n) • P1 + pairsValue ((padded m pairs2).take n) • P2) := by
  induction n with
  | zero =>
    have hzero : pairsValue [] = 0 := rfl
    rw [take_zero, take_zero, hzero, zero_zsmul, zero_zsmul, add_zero]
    exact represents_infinity
  | succ n ih =>
    have hstep := represents_scalarMultBits hp1 hp1Neg hp2 hp2Neg (n := 8) (ih (by omega))
      (byteAt m (pairs1.map Prod.fst) n) (byteAt m (pairs1.map Prod.snd) n)
      (byteAt m (pairs2.map Prod.fst) n) (byteAt m (pairs2.map Prod.snd) n)
    rw [scalarMultBytes, range_succ, foldl_append,
      pairsValue_take_succ (by rw [length_padded h1]; omega), pairsValue_take_succ (by rw [length_padded h2]; omega),
      ← byteAt_map pairs1 (f := Prod.fst) rfl, ← byteAt_map pairs1 (f := Prod.snd) rfl,
      ← byteAt_map pairs2 (f := Prod.fst) rfl, ← byteAt_map pairs2 (f := Prod.snd) rfl]
    exact hstep

end Loops

/-! ### The halves of the scalar -/

theorem exists_splitHalves_eq (k : Bytes) :
    ∃ n : Int, (splitHalves k).1 + (splitHalves k).2 * lambda = beNat k + n * curveN := by
  obtain ⟨n1, hn1⟩ : ∃ n : Int, a1 + b1 * lambda = n * curveN :=
    ⟨(a1 + b1 * lambda) / curveN, by decide⟩
  obtain ⟨n2, hn2⟩ : ∃ n : Int, a2 + b2 * lambda = n * curveN :=
    ⟨(a2 + b2 * lambda) / curveN, by decide⟩
  rw [splitHalves]
  dsimp only
  generalize b2 * (beNat k : Int) / curveN = c1
  generalize b1 * (beNat k : Int) / curveN = c2
  exact ⟨c2 * n2 - c1 * n1, by linear_combination c2 * hn2 - c1 * hn1⟩

theorem splitHalves_spec (k : Bytes) (P : secp256k1.Point) :
    (splitHalves k).1 • P + (splitHalves k).2 • endomorphism P = beNat k • P := by
  obtain ⟨n, hscalar⟩ := exists_splitHalves_eq k
  have hzero : (curveN : Int) • P = 0 := by
    rw [natCast_zsmul]
    exact curveN_nsmul P
  rw [endomorphism_eq, ← natCast_zsmul P lambda, ← mul_zsmul, ← add_zsmul, hscalar, add_zsmul, mul_zsmul, hzero,
    zsmul_zero, add_zero, natCast_zsmul]

theorem curveN_mul_splitHalves (k : Bytes) : ∃ f1 f2 : Int, 0 ≤ f1 ∧ f1 < curveN ∧ 0 ≤ f2 ∧ f2 < curveN ∧
    curveN * (splitHalves k).1 = f1 * a1 - f2 * a2 ∧ curveN * (splitHalves k).2 = f1 * b1 - f2 * b2 := by
  have hpos : (0 : Int) < curveN := by decide
  have hbasis : a1 * b2 - a2 * b1 = curveN := by decide
  have hc1 := Int.mul_ediv_add_emod (b2 * beNat k) curveN
  have hc2 := Int.mul_ediv_add_emod (b1 * beNat k) curveN
  refine ⟨b2 * beNat k % curveN, b1 * beNat k % curveN, Int.emod_nonneg _ hpos.ne', Int.emod_lt_of_pos _ hpos,
    Int.emod_nonneg _ hpos.ne', Int.emod_lt_of_pos _ hpos, ?_, ?_⟩
  · rw [splitHalves]
    linear_combination -(beNat k : Int) * hbasis - a1 * hc1 + a2 * hc2
  · rw [splitHalves]
    linear_combination -b1 * hc1 + b2 * hc2

theorem natAbs_le_of_fractions {n k f1 f2 c1 c2 : Int} (hf1 : 0 ≤ f1) (hf1n : f1 < n) (hf2 : 0 ≤ f2) (hf2n : f2 < n)
    (hk : n * k = f1 * c1 - f2 * c2) : k.natAbs ≤ c1.natAbs + c2.natAbs := by
  have hscaled : n * |k| ≤ n * (|c1| + |c2|) := calc
    n * |k| = |f1 * c1 - f2 * c2| := by rw [← hk, abs_mul, abs_of_pos (show 0 < n by omega)]
    _ ≤ |f1 * c1| + |f2 * c2| := abs_sub _ _
    _ = f1 * |c1| + f2 * |c2| := by rw [abs_mul, abs_mul, abs_of_nonneg hf1, abs_of_nonneg hf2]
    _ ≤ n * |c1| + n * |c2| := by gcongr
    _ = n * (|c1| + |c2|) := by ring
  zify
  exact le_of_mul_le_mul_left hscaled (by omega)

theorem natAbs_splitHalves_le (k : Bytes) :
    (splitHalves k).1.natAbs ≤ 2 ^ 129 ∧ (splitHalves k).2.natAbs ≤ 2 ^ 129 := by
  obtain ⟨f1, f2, hf1, hf1N, hf2, hf2N, hfirst, hsecond⟩ := curveN_mul_splitHalves k
  have hfirstBasis : a1.natAbs + a2.natAbs ≤ 2 ^ 129 := by decide
  have hsecondBasis : b1.natAbs + b2.natAbs ≤ 2 ^ 129 := by decide
  exact ⟨(natAbs_le_of_fractions hf1 hf1N hf2 hf2N hfirst).trans hfirstBasis,
    (natAbs_le_of_fractions hf1 hf1N hf2 hf2N hsecond).trans hsecondBasis⟩

theorem moduloReduce_nsmul (k : Bytes) (P : secp256k1.Point) : beNat (moduloReduce k) • P = beNat k • P := by
  rw [moduloReduce]
  split_ifs
  · rw [beNat_bigBytes]
    nth_rewrite 2 [← Nat.div_add_mod (beNat k) curveN]
    rw [add_nsmul, mul_nsmul', curveN_nsmul, zero_add]
  · rfl

theorem length_moduloReduce (k : Bytes) : (moduloReduce k).length ≤ byteSize := by
  rw [moduloReduce]
  split_ifs with hlong
  · refine length_bigBytes_le (lt_trans (Nat.mod_lt _ (by norm_num [curveN])) ?_)
    norm_num [curveN, byteSize]
  · exact not_lt.mp hlong

/-- `splitK` returns two short halves of the scalar and their signs; `NAF` returns the scalar as the difference of
two masks without neighbouring bits. -/
theorem splitK_and_naf (k : Bytes) :
    let (k1, k2, signK1, signK2) := splitK k
    let (pos, neg) := naf k
    ((beNat k : Int) ≡ signK1 * beNat k1 + signK2 * beNat k2 * lambda [ZMOD curveN] ∧
      beNat k1 ≤ 2 ^ 129 ∧ beNat k2 ≤ 2 ^ 129) ∧
    NonAdjacent (beNat pos) (beNat neg) ∧ (beNat pos : Int) - beNat neg = beNat k := by
  obtain ⟨hmasks, hsum⟩ := naf_masks k
  have hdifference : (beNat (naf k).1 : Int) - beNat (naf k).2 = beNat k := by omega
  refine ⟨?_, hmasks, hdifference⟩
  obtain ⟨n, hscalar⟩ := exists_splitHalves_eq k
  obtain ⟨hfirst, hsecond⟩ := natAbs_splitHalves_le k
  rw [beNat_bigBytes, beNat_bigBytes, Int.sign_mul_natAbs, Int.sign_mul_natAbs, hscalar, mul_comm n]
  exact ⟨Int.modEq_add_fac_self.symm, hfirst, hsecond⟩

/-! ### Affine coordinates -/

/-- The coordinates of a point as big integers; those of the point at infinity are zero. -/
def affine : secp256k1.Point → Nat × Nat
  | .zero => (0, 0)
  | .some x y _ => (x.val, y.val)

theorem fieldJacobianToBigAffine_eq {p : JacobianPoint FieldVal} {P : secp256k1.Point} (hp : p.Represents P) :
    fieldJacobianToBigAffine p = affine P := by
  rcases P with _ | ⟨x, y, h⟩
  · rw [fieldJacobianToBigAffine, affine]
    rcases hp with ⟨hx, hy⟩ | hz
    · simp only [hx, hy, zero_mul, ZMod.val_zero]
    · simp only [hz, inv_zero, ne_eq, OfNat.ofNat_ne_zero, not_false_eq_true, zero_pow, mul_zero, ZMod.val_zero]
  · obtain ⟨hz, hx, hy⟩ := hp
    have hfirst : p.x * p.z⁻¹ ^ 2 = x := by
      rw [hx]
      field_simp
    have hsecond : p.y * (p.z⁻¹ ^ 2 * p.z⁻¹) = y := by
      rw [hy]
      field_simp
    rw [fieldJacobianToBigAffine, affine]
    simp only [hfirst, hsecond]

theorem represents_affine (P : secp256k1.Point) :
    (⟨(affine P).1, (affine P).2, 1⟩ : JacobianPoint FieldVal).Represents P := by
  rcases P with _ | ⟨x, y, h⟩
  · exact .inl ⟨Nat.cast_zero, Nat.cast_zero⟩
  · simp only [affine, ZMod.natCast_val, ZMod.cast_id', id_eq]
    exact represents_some h

theorem represents_neg {p : JacobianPoint FieldVal} {P : secp256k1.Point} (hp : p.Represents P) :
    (⟨p.x, -p.y, p.z⟩ : JacobianPoint FieldVal).Represents (-P) := by
  rcases P with _ | ⟨x, y, h⟩
  · exact hp.imp_left fun hxy => ⟨hxy.1, by rw [hxy.2, neg_zero]⟩
  · rw [Point.neg_some]
    refine ⟨hp.1, hp.2.1, ?_⟩
    rw [negY_eq, hp.2.2, neg_mul]

theorem represents_flipSigns {p pNeg : JacobianPoint FieldVal} {P : secp256k1.Point} (hp : p.Represents P)
    (hpNeg : pNeg.Represents (-P)) (sign : Int) :
    (flipSigns sign p pNeg).1.Represents (if sign = -1 then -P else P) ∧
      (flipSigns sign p pNeg).2.Represents (-if sign = -1 then -P else P) := by
  rw [flipSigns]
  split_ifs
  · exact ⟨hpNeg, by rw [neg_neg]; exact hp⟩
  · exact ⟨hp, hpNeg⟩

theorem natAbs_zsmul_flip (k : Int) (P : secp256k1.Point) :
    (k.natAbs : Int) • (if k.sign = -1 then -P else P) = k • P := by
  split_ifs with hsign
  · have hneg : k < 0 := Int.sign_eq_neg_one_iff_neg.mp hsign
    rw [zsmul_neg, ← neg_zsmul, Int.ofNat_natAbs_of_nonpos hneg.le, neg_neg]
  · have hnonneg : 0 ≤ k := not_lt.mp fun hneg => hsign (Int.sign_eq_neg_one_iff_neg.mpr hneg)
    rw [Int.natAbs_of_nonneg hnonneg]

theorem represents_scalarMultBytes_naf {p1 p1Neg p2 p2Neg : JacobianPoint FieldVal} {P1 P2 : secp256k1.Point}
    (hp1 : p1.Represents P1 ∧ p1Neg.Represents (-P1)) (hp2 : p2.Represents P2 ∧ p2Neg.Represents (-P2))
    (k1 k2 : Bytes) :
    let m := max (naf k1).1.length (naf k2).1.length
    (scalarMultBytes p1 p1Neg p2 p2Neg (naf k1) (naf k2) m m).Represents
      ((beNat k1 : Int) • P1 + (beNat k2 : Int) • P2) := by
  intro m
  have hlength (k : Bytes) : (naf k).1.length = (nafPairs k).length := length_map _
  have h1 : (nafPairs k1).length ≤ m := (hlength k1).symm.trans_le (le_max_left _ _)
  have h2 : (nafPairs k2).length ≤ m := (hlength k2).symm.trans_le (le_max_right _ _)
  have hloop := represents_scalarMultBytes hp1.1 hp1.2 hp2.1 hp2.2 h1 h2 le_rfl
  rw [take_of_length_le (length_padded h1).le, take_of_length_le (length_padded h2).le, pairsValue_padded,
    pairsValue_padded, pairsValue_nafPairs, pairsValue_nafPairs] at hloop
  exact hloop

theorem scalarMult_eq (P : secp256k1.Point) (k : Bytes) :
    scalarMult (affine P).1 (affine P).2 k = affine (beNat k • P) := by
  have hp := represents_affine P
  have hendo := represents_rootMul six_ne_zero curveB_ne_zero beta_cubed hp
  rw [mul_comm beta] at hendo
  have hp1 := represents_flipSigns hp (represents_neg hp) (splitHalves (moduloReduce k)).1.sign
  have hp2 := represents_flipSigns hendo (represents_neg hendo) (splitHalves (moduloReduce k)).2.sign
  have hloop := represents_scalarMultBytes_naf hp1 hp2 (bigBytes (splitHalves (moduloReduce k)).1.natAbs)
    (bigBytes (splitHalves (moduloReduce k)).2.natAbs)
  have hsum := splitHalves_spec (moduloReduce k) P
  rw [moduloReduce_nsmul] at hsum
  rw [beNat_bigBytes, beNat_bigBytes, natAbs_zsmul_flip, natAbs_zsmul_flip] at hloop
  rw [← hsum]
  exact fieldJacobianToBigAffine_eq hloop

/-! ### The table of `ScalarBaseMult` -/

/-- Row i of the table has the multiples of the base point for the byte i of a scalar. -/
def TableCorrect (bytePoints : Nat → UInt8 → JacobianPoint FieldVal) : Prop :=
  ∀ i < byteSize, ∀ byteVal,
    (bytePoints i byteVal).Represents ((byteVal.toNat * 256 ^ (byteSize - 1 - i)) • basePoint)

theorem represents_scalarBaseMultLoop {bytePoints : Nat → UInt8 → JacobianPoint FieldVal}
    (htable : TableCorrect bytePoints) {k : Bytes} {i : Nat} (hi : i + k.length = byteSize) {q : JacobianPoint FieldVal} {Q : secp256k1.Point}
    (hq : q.Represents Q) : (scalarBaseMultLoop bytePoints i k q).Represents (Q + beNat k • basePoint) := by
  induction k generalizing i q Q with
  | nil =>
    have hzero : beNat [] = 0 := rfl
    rw [hzero, zero_nsmul, add_zero]
    exact hq
  | cons byteVal rest ih =>
    rw [length_cons] at hi
    have hrow := htable i (by omega) byteVal
    have hexp : byteSize - 1 - i = rest.length := by omega
    have hstep := represents_addJacobian two_ne_zero curveB_ne_zero hq hrow
    have hrest := ih (i := i + 1) (by omega) hstep
    rw [beNat_cons, add_nsmul, ← add_assoc, ← hexp]
    exact hrest

theorem scalarBaseMult_eq {bytePoints : Nat → UInt8 → JacobianPoint FieldVal} (htable : TableCorrect bytePoints)
    (k : Bytes) : scalarBaseMult bytePoints k = affine (beNat k • basePoint) := by
  have hlength := length_moduloReduce k
  have hloop := represents_scalarBaseMultLoop htable (k := moduloReduce k)
    (by omega : byteSize - (moduloReduce k).length + (moduloReduce k).length = byteSize)
    represents_infinity
  rw [zero_add, moduloReduce_nsmul] at hloop
  exact fieldJacobianToBigAffine_eq hloop

theorem affine_basePoint : affine basePoint = (gx, gy) := by
  decide

/-- `ScalarMult` multiplies each point of the curve, the point at infinity too, by each scalar. `ScalarBaseMult`
does the same with the base point if its table is right. -/
theorem scalarMult_and_scalarBaseMult :
    (∀ (P : secp256k1.Point) (k : Bytes), scalarMult (affine P).1 (affine P).2 k = affine (beNat k • P)) ∧
      ∀ bytePoints, TableCorrect bytePoints → ∀ k, scalarBaseMult bytePoints k = scalarMult gx gy k := by
  refine ⟨scalarMult_eq, fun bytePoints htable k => ?_⟩
  have hbase := scalarMult_eq basePoint k
  rw [affine_basePoint] at hbase
  rw [scalarBaseMult_eq htable, hbase]

/-- A table that `ScalarMult` itself computes. -/
def computedTable (i : Nat) (byteVal : UInt8) : JacobianPoint FieldVal :=
  let point := scalarMult gx gy (bigBytes (byteVal.toNat * 256 ^ (byteSize - 1 - i)))
  ⟨point.1, point.2, 1⟩

theorem tableCorrect_computedTable : TableCorrect computedTable := by
  intro i _ byteVal
  have hpoint := scalarMult_eq basePoint (bigBytes (byteVal.toNat * 256 ^ (byteSize - 1 - i)))
  rw [affine_basePoint, beNat_bigBytes] at hpoint
  rw [computedTable, hpoint]
  exact represents_affine _

theorem scalarBaseMult_computedTable :
    TableCorrect computedTable ∧ scalarBaseMult computedTable [0x12, 0x34] = scalarMult gx gy [0x12, 0x34] :=
  ⟨tableCorrect_computedTable, scalarMult_and_scalarBaseMult.2 computedTable tableCorrect_computedTable _⟩

/-! ### The sum of two points -/

def add (x1 y1 x2 y2 : Nat) : Nat × Nat :=
  if x1 = 0 ∧ y1 = 0 then (x2, y2)
  else if x2 = 0 ∧ y2 = 0 then (x1, y1)
  else
    let (fx1, fy1) := bigAffineToField x1 y1
    let (fx2, fy2) := bigAffineToField x2 y2
    fieldJacobianToBigAffine (addJacobian ⟨fx1, fy1, 1⟩ ⟨fx2, fy2, 1⟩)

theorem affine_eq_zero {P : secp256k1.Point} (h : (affine P).2 = 0) : P = 0 := by
  rcases P with _ | ⟨x, y, hns⟩
  · rfl
  · exact absurd ((ZMod.val_eq_zero y).mp h) (y_ne_zero hns)

theorem add_affine (P Q : secp256k1.Point) :
    add (affine P).1 (affine P).2 (affine Q).1 (affine Q).2 = affine (P + Q) := by
  unfold add
  split_ifs with hP hQ
  · rw [affine_eq_zero hP.2, zero_add]
  · rw [affine_eq_zero hQ.2, add_zero]
  · exact fieldJacobianToBigAffine_eq
      (represents_addJacobian KoblitzCurve.two_ne_zero curveB_ne_zero (represents_affine P) (represents_affine Q))

end KoblitzCurve

end Prova
