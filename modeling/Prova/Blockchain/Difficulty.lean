import Prova.Blockchain.BlockNode
import Prova.Chaincfg.RegTest
import Mathlib.Data.Nat.Bitwise

/-!
# Compact targets and the next required difficulty (`difficulty.go`)

A compact value is a mantissa of 23 bits with a sign and an exponent to the base 256. A target is rounded down to
a multiple of the unit of its exponent.
-/

namespace Prova

/-- `BigToCompact` for any number. The shift of a negative one rounds down as well. -/
def bigToCompactInt (n : Int) : UInt32 :=
  if n = 0 then 0
  else
    let exponent := n.natAbs.log2 / 8 + 1
    let mantissa : UInt32 :=
      if exponent ≤ 3 then UInt32.ofNat (n.natAbs <<< (8 * (3 - exponent)))
      else UInt32.ofNat (n >>> (8 * (exponent - 3))).natAbs
    let compact :=
      if mantissa &&& 0x00800000 ≠ 0 then UInt32.ofNat (exponent + 1) <<< 24 ||| mantissa >>> 8
      else UInt32.ofNat exponent <<< 24 ||| mantissa
    if n < 0 then compact ||| 0x00800000 else compact

/-- The compact values without leading zeros and without digits that are shifted out. -/
def CanonicalCompact (c : UInt32) : Prop :=
  c = 0 ∨ 0x8000 ≤ c.toNat % 2 ^ 23 ∧ 256 ^ (3 - c.toNat / 2 ^ 24) ∣ c.toNat % 2 ^ 23

/-! ### The parts of a compact value -/

section Parts

variable {c : UInt32} {n k : Nat}

theorem toNat_mantissa (c : UInt32) : (c &&& 0x007fffff).toNat = c.toNat % 2 ^ 23 := by
  rw [UInt32.toNat_and]
  exact Nat.and_two_pow_sub_one_eq_mod c.toNat 23

theorem toNat_exponent (c : UInt32) : (c >>> 24).toNat = c.toNat / 2 ^ 24 := by
  rw [UInt32.toNat_shiftRight]
  exact Nat.shiftRight_eq_div_pow _ _

theorem sign_ne_zero_iff (c : UInt32) : c &&& 0x00800000 ≠ 0 ↔ 2 ^ 23 ≤ c.toNat % 2 ^ 24 := by
  have hand : (c &&& 0x00800000).toNat = 2 ^ 23 * (c.toNat.testBit 23).toNat := by
    rw [UInt32.toNat_and, Nat.and_comm]
    exact Nat.two_pow_and c.toNat 23
  rw [ne_eq, ← UInt32.toNat_inj, hand, Nat.testBit_eq_decide_div_mod_eq]
  by_cases hbit : c.toNat / 2 ^ 23 % 2 = 1
  · rw [decide_eq_true hbit]
    exact iff_of_true (by decide) (by omega)
  · rw [decide_eq_false hbit]
    exact iff_of_false (by decide) (by omega)

theorem toNat_pack {mantissa : UInt32} (hk : k < 256) (hm : mantissa.toNat < 2 ^ 24) :
    (UInt32.ofNat k <<< 24 ||| mantissa).toNat = k * 2 ^ 24 + mantissa.toNat := by
  have hshift : (UInt32.ofNat k <<< 24).toNat = 2 ^ 24 * k := by
    have hcount : (24 : UInt32).toNat % 32 = 24 := rfl
    rw [UInt32.toNat_shiftLeft, hcount, UInt32.toNat_ofNat', Nat.shiftLeft_eq]
    omega
  rw [UInt32.toNat_or, hshift, ← Nat.two_pow_add_eq_or_of_lt hm, Nat.mul_comm]

theorem parts_of_pack {m : Nat} (hm : m < 2 ^ 23) :
    (k * 2 ^ 24 + m) % 2 ^ 23 = m ∧ (k * 2 ^ 24 + m) / 2 ^ 24 = k ∧ ¬ 2 ^ 23 ≤ (k * 2 ^ 24 + m) % 2 ^ 24 := by
  omega

theorem pack_or_sign {m : Nat} (hm : m < 2 ^ 23) : (k * 2 ^ 24 + m) ||| 2 ^ 23 = k * 2 ^ 24 + 2 ^ 23 + m := by
  have hlow : m ||| 2 ^ 23 = 2 ^ 23 + m := by
    rw [Nat.or_comm]
    exact (Nat.two_pow_add_eq_or_of_lt hm 1).symm
  rw [Nat.mul_comm, Nat.two_pow_add_eq_or_of_lt (by omega), Nat.or_assoc, hlow,
    ← Nat.two_pow_add_eq_or_of_lt (by omega), Nat.add_assoc]

theorem mul_pow_div_pow (n a b : Nat) :
    n * 256 ^ a / 256 ^ b = if b ≤ a then n <<< (8 * (a - b)) else n >>> (8 * (b - a)) := by
  have hpow : ∀ i, 2 ^ (8 * i) = 256 ^ i := fun i => Nat.pow_mul 2 8 i
  split
  case isTrue h =>
    rw [Nat.shiftLeft_eq, hpow, ← Nat.sub_add_cancel h, Nat.pow_add, ← Nat.mul_assoc,
      Nat.mul_div_cancel _ (by positivity), Nat.add_sub_cancel]
  case isFalse h =>
    obtain ⟨i, rfl⟩ := Nat.exists_eq_add_of_lt (not_le.mp h)
    rw [Nat.shiftRight_eq_div_pow, hpow, show a + i + 1 - a = i + 1 by omega, show a + i + 1 = a + (i + 1) by omega,
      Nat.pow_add, ← Nat.div_div_eq_div_mul, Nat.mul_div_cancel _ (by positivity)]

theorem compactToBig_eq (c : UInt32) :
    compactToBig c = (if 2 ^ 23 ≤ c.toNat % 2 ^ 24 then -1 else 1) *
      (c.toNat % 2 ^ 23 * 256 ^ (c.toNat / 2 ^ 24) / 256 ^ 3 : Nat) := by
  have hbn : (if c.toNat / 2 ^ 24 ≤ 3 then (c.toNat % 2 ^ 23) >>> (8 * (3 - c.toNat / 2 ^ 24))
      else (c.toNat % 2 ^ 23) <<< (8 * (c.toNat / 2 ^ 24 - 3))) =
        c.toNat % 2 ^ 23 * 256 ^ (c.toNat / 2 ^ 24) / 256 ^ 3 := by
    rw [mul_pow_div_pow]
    obtain h | h | h := Nat.lt_trichotomy (c.toNat / 2 ^ 24) 3
    · rw [if_pos h.le, if_neg (not_le.mpr h)]
    · rw [h]
      rfl
    · rw [if_neg (not_le.mpr h), if_pos h.le]
  unfold compactToBig
  simp only [toNat_mantissa, toNat_exponent, hbn, sign_ne_zero_iff]
  split
  · rw [Int.neg_one_mul]
  · rw [Int.one_mul]

/-! ### The exponent of a number -/

def compactExponent (n : Nat) : Nat :=
  if n * 256 ^ 3 / 256 ^ (n.log2 / 8 + 1) < 2 ^ 23 then n.log2 / 8 + 1 else n.log2 / 8 + 2

theorem bytes_bounds (hn : n ≠ 0) :
    2 ^ 16 ≤ n * 256 ^ 3 / 256 ^ (n.log2 / 8 + 1) ∧ n * 256 ^ 3 / 256 ^ (n.log2 / 8 + 1) < 2 ^ 24 := by
  have hlow : 256 ^ (n.log2 / 8) ≤ n := calc
    256 ^ (n.log2 / 8) = 2 ^ (8 * (n.log2 / 8)) := (Nat.pow_mul 2 8 _).symm
    _ ≤ 2 ^ n.log2 := Nat.pow_le_pow_right (by norm_num) (Nat.mul_div_le _ _)
    _ ≤ n := Nat.log2_self_le hn
  have hhigh : n < 256 ^ (n.log2 / 8 + 1) := calc
    n < 2 ^ (n.log2 + 1) := Nat.lt_log2_self
    _ ≤ 2 ^ (8 * (n.log2 / 8 + 1)) := Nat.pow_le_pow_right (by norm_num) (by omega)
    _ = 256 ^ (n.log2 / 8 + 1) := Nat.pow_mul 2 8 _
  constructor
  · rw [Nat.le_div_iff_mul_le (by positivity), Nat.pow_succ]
    calc 2 ^ 16 * (256 ^ (n.log2 / 8) * 256) = 256 ^ (n.log2 / 8) * 256 ^ 3 := by ring
      _ ≤ n * 256 ^ 3 := Nat.mul_le_mul_right _ hlow
  · rw [Nat.div_lt_iff_lt_mul (by positivity)]
    calc n * 256 ^ 3 < 256 ^ (n.log2 / 8 + 1) * 256 ^ 3 := Nat.mul_lt_mul_of_pos_right hhigh (by norm_num)
      _ = 2 ^ 24 * 256 ^ (n.log2 / 8 + 1) := by ring

theorem mul_div_pow_succ (n k : Nat) : n * 256 ^ 3 / 256 ^ (k + 1) = n * 256 ^ 3 / 256 ^ k / 256 := by
  rw [Nat.div_div_eq_div_mul, ← Nat.pow_succ]

theorem compactExponent_bounds (hn : n ≠ 0) :
    2 ^ 15 ≤ n * 256 ^ 3 / 256 ^ compactExponent n ∧ n * 256 ^ 3 / 256 ^ compactExponent n < 2 ^ 23 := by
  obtain ⟨hlow, hhigh⟩ := bytes_bounds hn
  unfold compactExponent
  split
  case isTrue h => exact ⟨by omega, h⟩
  case isFalse h =>
    rw [mul_div_pow_succ n (n.log2 / 8 + 1)]
    omega

theorem mul_div_pow_anti {i j : Nat} (h : i < j) : n * 256 ^ 3 / 256 ^ j ≤ n * 256 ^ 3 / 256 ^ i / 256 := by
  rw [← mul_div_pow_succ]
  exact Nat.div_le_div_left (Nat.pow_le_pow_right (by norm_num) h) (by positivity)

theorem compactExponent_eq (hlow : 2 ^ 15 ≤ n * 256 ^ 3 / 256 ^ k) (hhigh : n * 256 ^ 3 / 256 ^ k < 2 ^ 23) :
    compactExponent n = k := by
  have hn : n ≠ 0 := by
    rintro rfl
    rw [Nat.zero_mul, Nat.zero_div] at hlow
    omega
  obtain ⟨hlow', hhigh'⟩ := compactExponent_bounds hn
  obtain h | h | h := Nat.lt_trichotomy (compactExponent n) k
  · have := mul_div_pow_anti (n := n) h
    omega
  · exact h
  · have := mul_div_pow_anti (n := n) h
    omega

/-! ### From a number to its compact value -/

theorem toNat_packed (hn : n ≠ 0) (hk : compactExponent n < 256) {mantissa : UInt32}
    (hm : mantissa = if n.log2 / 8 + 1 ≤ 3 then UInt32.ofNat (n <<< (8 * (3 - (n.log2 / 8 + 1))))
      else UInt32.ofNat (n >>> (8 * (n.log2 / 8 + 1 - 3)))) :
    (if mantissa &&& 0x00800000 ≠ 0 then UInt32.ofNat (n.log2 / 8 + 1 + 1) <<< 24 ||| mantissa >>> 8
      else UInt32.ofNat (n.log2 / 8 + 1) <<< 24 ||| mantissa).toNat =
        compactExponent n * 2 ^ 24 + n * 256 ^ 3 / 256 ^ compactExponent n := by
  obtain ⟨-, hhigh⟩ := bytes_bounds hn
  have htoNat : mantissa.toNat = n * 256 ^ 3 / 256 ^ (n.log2 / 8 + 1) := by
    rw [hm, ← apply_ite UInt32.ofNat, ← mul_pow_div_pow, UInt32.toNat_ofNat', Nat.mod_eq_of_lt (by omega)]
  simp only [sign_ne_zero_iff, htoNat, Nat.mod_eq_of_lt hhigh]
  unfold compactExponent at hk ⊢
  by_cases h : n * 256 ^ 3 / 256 ^ (n.log2 / 8 + 1) < 2 ^ 23
  · rw [if_pos h] at hk ⊢
    rw [if_neg (not_le.mpr h), toNat_pack hk (htoNat ▸ hhigh), htoNat]
  · rw [if_neg h] at hk ⊢
    have hshift : (mantissa >>> 8).toNat = n * 256 ^ 3 / 256 ^ (n.log2 / 8 + 2) := by
      rw [UInt32.toNat_shiftRight, htoNat, mul_div_pow_succ n (n.log2 / 8 + 1)]
      exact Nat.shiftRight_eq_div_pow _ _
    rw [if_pos (not_lt.mp h), toNat_pack hk (by rw [hshift, mul_div_pow_succ n (n.log2 / 8 + 1)]; omega), hshift]

theorem toNat_bigToCompact (hn : n ≠ 0) (hk : compactExponent n < 256) :
    (bigToCompact n).toNat = compactExponent n * 2 ^ 24 + n * 256 ^ 3 / 256 ^ compactExponent n := by
  rw [bigToCompact, if_neg hn]
  exact toNat_packed hn hk rfl

theorem bigToCompactInt_natCast (n : Nat) : bigToCompactInt n = bigToCompact n := by
  have hsign : ¬ (n : Int) < 0 := by omega
  unfold bigToCompactInt bigToCompact
  simp only [Int.natCast_eq_zero, Int.natAbs_natCast, if_neg hsign]
  rfl

theorem bigToCompactInt_neg (hn : n ≠ 0) (hexact : 256 ^ (n.log2 / 8 + 1 - 3) ∣ n) :
    bigToCompactInt (-n) = bigToCompact n ||| 0x00800000 := by
  have hshift : ((-n : Int) >>> (8 * (n.log2 / 8 + 1 - 3))).natAbs = n >>> (8 * (n.log2 / 8 + 1 - 3)) := by
    obtain ⟨q, hq⟩ := hexact
    have hpow : 2 ^ (8 * (n.log2 / 8 + 1 - 3)) = 256 ^ (n.log2 / 8 + 1 - 3) := Nat.pow_mul 2 8 _
    rw [Int.shiftRight_eq_div_pow, Nat.shiftRight_eq_div_pow, hpow]
    generalize 256 ^ (n.log2 / 8 + 1 - 3) = u at hq
    have hu : (u : Int) ≠ 0 := by
      rintro h
      rw [Int.natCast_eq_zero.mp h, Nat.zero_mul] at hq
      exact hn hq
    rw [hq, Nat.cast_mul, Int.neg_ediv_of_dvd (dvd_mul_right _ _), Int.mul_ediv_cancel_left _ hu, Int.natAbs_neg,
      Int.natAbs_natCast, Nat.mul_div_cancel_left _ (by omega)]
  have hneg : (-n : Int) ≠ 0 := by omega
  have hsign : (-n : Int) < 0 := by omega
  unfold bigToCompactInt bigToCompact
  simp only [if_neg hneg, if_neg hn, if_pos hsign, Int.natAbs_neg, Int.natAbs_natCast, hshift]

/-! ### Rounding -/

def compactUnit (n : Nat) : Nat := 256 ^ (compactExponent n - 3)

theorem mantissa_mul_eq (n k : Nat) :
    n * 256 ^ 3 / 256 ^ k * 256 ^ k / 256 ^ 3 = n / 256 ^ (k - 3) * 256 ^ (k - 3) := by
  obtain h | h := Nat.le_total k 3
  · rw [Nat.div_mul_cancel (dvd_mul_of_dvd_right (pow_dvd_pow _ h) _), Nat.mul_div_cancel _ (by norm_num),
      Nat.sub_eq_zero_of_le h, Nat.pow_zero, Nat.div_one, Nat.mul_one]
  · obtain ⟨i, rfl⟩ := Nat.exists_eq_add_of_le h
    rw [Nat.add_sub_cancel_left, Nat.pow_add, ← Nat.div_div_eq_div_mul, Nat.mul_div_cancel _ (by norm_num),
      Nat.mul_comm (256 ^ 3), ← Nat.mul_assoc, Nat.mul_div_cancel _ (by norm_num)]

theorem compactToBig_bigToCompact (hk : compactExponent n < 256) :
    compactToBig (bigToCompact n) = (n / compactUnit n * compactUnit n : Nat) := by
  obtain rfl | hn := eq_or_ne n 0
  · decide
  obtain ⟨-, hhigh⟩ := compactExponent_bounds hn
  obtain ⟨hmantissa, hexponent, hsign⟩ := parts_of_pack (k := compactExponent n) hhigh
  rw [compactToBig_eq, toNat_bigToCompact hn hk, if_neg hsign, hmantissa, hexponent, Int.one_mul, compactUnit,
    ← mantissa_mul_eq]

theorem compactUnit_le (hn : n ≠ 0) : compactUnit n = 1 ∨ 2 ^ 15 * compactUnit n ≤ n := by
  obtain ⟨hlow, -⟩ := compactExponent_bounds hn
  unfold compactUnit
  obtain h | h := Nat.le_total (compactExponent n) 3
  · rw [Nat.sub_eq_zero_of_le h]
    exact .inl rfl
  · obtain ⟨i, hi⟩ := Nat.exists_eq_add_of_le h
    rw [hi, Nat.pow_add, ← Nat.div_div_eq_div_mul, Nat.mul_div_cancel _ (by norm_num),
      Nat.le_div_iff_mul_le (by positivity)] at hlow
    rw [hi, Nat.add_sub_cancel_left]
    exact .inr hlow

theorem compactExponent_lt (h : n < 2 ^ 2032) : compactExponent n < 256 := by
  have hbytes : n.log2 / 8 + 2 < 256 := by
    obtain rfl | hn := eq_or_ne n 0
    · decide
    · have := (Nat.log2_lt hn).mpr h
      omega
  unfold compactExponent
  split
  · omega
  · exact hbytes

theorem canonicalCompact_bigToCompact (hk : compactExponent n < 256) : CanonicalCompact (bigToCompact n) := by
  obtain rfl | hn := eq_or_ne n 0
  · exact .inl rfl
  obtain ⟨hlow, hhigh⟩ := compactExponent_bounds hn
  rw [CanonicalCompact, toNat_bigToCompact hn hk]
  have hdvd : 256 ^ (3 - compactExponent n) ∣ n * 256 ^ 3 / 256 ^ compactExponent n := by
    obtain h | h := Nat.le_total (compactExponent n) 3
    · rw [← Nat.sub_add_cancel h, Nat.pow_add, ← Nat.mul_assoc, Nat.mul_div_cancel _ (by positivity),
        Nat.add_sub_cancel]
      exact dvd_mul_left _ _
    · rw [Nat.sub_eq_zero_of_le h]
      exact one_dvd _
  obtain ⟨hmantissa, hexponent, -⟩ := parts_of_pack (k := compactExponent n) hhigh
  rw [hmantissa, hexponent]
  exact .inr ⟨hlow, hdvd⟩

/-! ### From a canonical compact value and back -/

theorem bigToCompactInt_compactToBig (h : CanonicalCompact c) : bigToCompactInt (compactToBig c) = c := by
  obtain rfl | ⟨hlow, hdvd⟩ := h
  · decide
  have hc := c.toNat_lt
  have hparts : c.toNat = c.toNat / 2 ^ 24 * 2 ^ 24 +
      (if 2 ^ 23 ≤ c.toNat % 2 ^ 24 then 2 ^ 23 else 0) + c.toNat % 2 ^ 23 := by
    split <;> omega
  rw [compactToBig_eq]
  generalize hk : c.toNat / 2 ^ 24 = k at hdvd hparts
  generalize hm : c.toNat % 2 ^ 23 = m at hlow hdvd hparts
  generalize hv : m * 256 ^ k / 256 ^ 3 = v
  have hmul : v * 256 ^ 3 = m * 256 ^ k := by
    rw [← hv]
    refine Nat.div_mul_cancel ?_
    calc 256 ^ 3 ∣ 256 ^ (3 - k) * 256 ^ k := by
          rw [← Nat.pow_add]
          exact pow_dvd_pow _ (by omega)
      _ ∣ m * 256 ^ k := Nat.mul_dvd_mul_right hdvd _
  have hback : v * 256 ^ 3 / 256 ^ k = m := by
    rw [hmul, Nat.mul_div_cancel _ (by positivity)]
  have hexponent : compactExponent v = k := compactExponent_eq (by omega) (by omega)
  have hv0 : v ≠ 0 := by
    rintro rfl
    rw [Nat.zero_mul, Nat.zero_div] at hback
    omega
  have htoNat : (bigToCompact v).toNat = k * 2 ^ 24 + m := by
    rw [toNat_bigToCompact hv0 (by omega), hexponent, hback]
  by_cases hsign : 2 ^ 23 ≤ c.toNat % 2 ^ 24
  · have hexact : 256 ^ (v.log2 / 8 + 1 - 3) ∣ v := by
      have hle : v.log2 / 8 + 1 ≤ k := by
        rw [← hexponent, compactExponent]
        split <;> omega
      refine (pow_dvd_pow 256 (Nat.sub_le_sub_right hle 3)).trans ?_
      obtain h | h := Nat.le_total k 3
      · rw [Nat.sub_eq_zero_of_le h]
        exact one_dvd _
      · refine Nat.dvd_of_mul_dvd_mul_right (by norm_num : 0 < 256 ^ 3) ?_
        rw [← Nat.pow_add, Nat.sub_add_cancel h, hmul]
        exact dvd_mul_left _ _
    have hpacked : (bigToCompact v ||| 0x00800000).toNat = k * 2 ^ 24 + 2 ^ 23 + m := by
      rw [UInt32.toNat_or, htoNat]
      exact pack_or_sign (by omega)
    rw [if_pos hsign, Int.neg_one_mul, bigToCompactInt_neg hv0 hexact, ← UInt32.toNat_inj, hpacked, hparts,
      if_pos hsign]
  · rw [if_neg hsign, Int.one_mul, bigToCompactInt_natCast, ← UInt32.toNat_inj, htoNat, hparts, if_neg hsign,
      Nat.add_zero]

end Parts

/-- A number below `2 ^ 2032` is rounded down by less than one part in `2 ^ 15`, rounding again changes nothing, and
canonical compact values come back. -/
theorem compact_round_trip : (∀ n : Int, 0 ≤ n → n < 2 ^ 2032 → compactToBig (bigToCompactInt n) ≤ n ∧
      (0 < n → (n - compactToBig (bigToCompactInt n)) * 2 ^ 15 < n) ∧
      compactToBig (bigToCompactInt (compactToBig (bigToCompactInt n))) = compactToBig (bigToCompactInt n)) ∧
    ∀ c : UInt32, CanonicalCompact c → bigToCompactInt (compactToBig c) = c := by
  refine ⟨fun n hn hlt => ?_, fun c hc => bigToCompactInt_compactToBig hc⟩
  lift n to Nat using hn
  have hk : compactExponent n < 256 := compactExponent_lt (by exact_mod_cast hlt)
  rw [bigToCompactInt_natCast, bigToCompactInt_compactToBig (canonicalCompact_bigToCompact hk),
    compactToBig_bigToCompact hk]
  have hdiv := Nat.div_add_mod' n (compactUnit n)
  refine ⟨by omega, fun hpos => ?_, rfl⟩
  have hmod : n % compactUnit n < compactUnit n := Nat.mod_lt _ (Nat.pow_pos (by norm_num))
  obtain hunit | hunit := compactUnit_le (n := n) (by omega)
  · rw [hunit, Nat.mod_one] at hdiv
    rw [hunit]
    omega
  · omega

/-- The largest number of three bytes loses its last byte. -/
theorem compact_round_trip_three_bytes : compactToBig (bigToCompactInt 0xffffff) = 0xffff00 ∧
      (0xffffff - compactToBig (bigToCompactInt 0xffffff)) * 2 ^ 15 < 0xffffff :=
  ⟨by decide, (compact_round_trip.1 0xffffff (by norm_num) (by decide +kernel)).2.1 (by norm_num)⟩

/-! ### The next required difficulty -/

inductive Network
  | mainNet | regressionNet | testNet | simNet
deriving DecidableEq

def Params.forNetwork (base : Params) : Network → Params
  | .mainNet => { base with
      powLimit := 2 ^ 243 - 1, powLimitBits := 0x1f07ffff, targetTimePerBlock := 150000000000
      powAveragingWindow := 31, powMaxAdjustDown := 32, powMaxAdjustUp := 16 }
  | .regressionNet => { base with
      powLimit := 0x0f0f0f0f0f0f0f0f0f0f0f0f0f0f0f0f0f0f0f0f0f0f0f0f0f0f0f0f0f0f0f0f, powLimitBits := 0x200f0f0f
      targetTimePerBlock := 60000000000, powAveragingWindow := 31, powMaxAdjustDown := 32, powMaxAdjustUp := 16 }
  | .testNet => { base with
      powLimit := 0x07ffffffffffffffffffffffffffffffffffffffffffffffffffffffffffffff, powLimitBits := 0x2007ffff
      targetTimePerBlock := 150000000000, powAveragingWindow := 31, powMaxAdjustDown := 64, powMaxAdjustUp := 64 }
  | .simNet => { base with
      powLimit := 2 ^ 255 - 1, powLimitBits := 0x207fffff, targetTimePerBlock := 150000000000
      powAveragingWindow := 31, powMaxAdjustDown := 32, powMaxAdjustUp := 16 }

example : RegTest.regressionNetParams.forNetwork .regressionNet = RegTest.regressionNetParams := rfl

/-- What the retargeting needs of the parameters: whole milliseconds and a limit that its bits do not exceed. -/
@[mk_iff]
structure Params.Retargets (params : Params) : Prop where
  window_pos : 0 < params.powAveragingWindow
  limit_pos : 0 < params.powLimit
  limit_lt : params.powLimit < 2 ^ 2032
  bits_pos : 0 < compactToBig params.powLimitBits
  bits_le : compactToBig params.powLimitBits ≤ params.powLimit
  timespan_pos : 0 < (params.averagingWindowTimespan / 1000000).toInt
  timespan_eq : params.averagingWindowTimespan.toInt = (params.averagingWindowTimespan / 1000000).toInt * 1000000
  min_pos : 1000000 ≤ params.minActualTimespan.toInt
  min_le_max : params.minActualTimespan.toInt ≤ params.maxActualTimespan.toInt

theorem Params.retargets_forNetwork (base : Params) (net : Network) : (base.forNetwork net).Retargets := by
  -- The other parameters are not read, so that those of one network may stand for them.
  have hreg : (RegTest.regressionNetParams.forNetwork net).Retargets := by
    rw [Params.retargets_iff]
    cases net <;> decide +kernel
  cases net <;> exact ⟨hreg.1, hreg.2, hreg.3, hreg.4, hreg.5, hreg.6, hreg.7, hreg.8, hreg.9⟩

variable {params : Params} {chain : List NodeData}

/-- The timespan that `nextRequiredDifficulty` scales with. -/
def dampedTimespan (params : Params) (firstNodeTime lastNodeTime : Int64) : Int64 :=
  let window := params.averagingWindowTimespan
  let timespan := lastNodeTime * 1000000000 - firstNodeTime * 1000000000
  let timespan := window + (timespan - window) / 4
  if timespan < params.minActualTimespan then params.minActualTimespan
  else if params.maxActualTimespan < timespan then params.maxActualTimespan
  else timespan

theorem dampedTimespan_bounds (hparams : params.Retargets) (firstNodeTime lastNodeTime : Int64) :
    params.minActualTimespan.toInt ≤ (dampedTimespan params firstNodeTime lastNodeTime).toInt ∧
      (dampedTimespan params firstNodeTime lastNodeTime).toInt ≤ params.maxActualTimespan.toInt := by
  have hle := hparams.min_le_max
  unfold dampedTimespan
  dsimp only
  split
  case isTrue => exact ⟨le_refl _, hle⟩
  case isFalse hmin =>
    rw [Int64.lt_iff_toInt_lt] at hmin
    split
    case isTrue => exact ⟨hle, le_refl _⟩
    case isFalse hmax =>
      rw [Int64.lt_iff_toInt_lt] at hmax
      omega

/-- The sum of the targets of the window, and their average. -/
def windowTotal (params : Params) (chain : List NodeData) : Int :=
  ((chain.take params.powAveragingWindow).map fun node => compactToBig node.bits).sum

@[inherit_doc windowTotal]
def averageTarget (params : Params) (chain : List NodeData) : ℚ :=
  windowTotal params chain / params.powAveragingWindow

def windowMillis (params : Params) (chain : List NodeData) : Int :=
  (dampedTimespan params (calcPastMedianTime (chain.drop params.powAveragingWindow)) (calcPastMedianTime chain)
    / 1000000).toInt

/-- The target before it is rounded: the whole average is divided by the milliseconds of the window, then
multiplied. -/
def scaledTarget (params : Params) (chain : List NodeData) : Nat :=
  min params.powLimit (windowTotal params chain / params.powAveragingWindow /
    (params.averagingWindowTimespan / 1000000).toInt * windowMillis params chain).toNat

/-- The least target above a number that has its exponent, or the next one. -/
def nextTarget (n : Nat) : Nat := (n / compactUnit n + 1) * compactUnit n

theorem nextRequiredDifficulty_eq (params : Params) (firstNodeTime lastNodeTime : Int64) (avgDifficulty : Int) :
    nextRequiredDifficulty params firstNodeTime lastNodeTime avgDifficulty =
      bigToCompact (min params.powLimit (avgDifficulty / (params.averagingWindowTimespan / 1000000).toInt *
        (dampedTimespan params firstNodeTime lastNodeTime / 1000000).toInt).toNat) := by
  have hmin (scaled : Int) :
      (if (params.powLimit : Int) < scaled then params.powLimit else scaled.toNat) =
        min params.powLimit scaled.toNat := by
    split <;> omega
  rw [← hmin]
  rfl

theorem calcNextRequiredDifficulty_eq (hfull : params.powAveragingWindow < chain.length) :
    calcNextRequiredDifficulty params chain = bigToCompact (scaledTarget params chain) := by
  unfold calcNextRequiredDifficulty scaledTarget windowMillis
  cases hdrop : chain.drop params.powAveragingWindow with
  | nil =>
    rw [List.drop_eq_nil_iff] at hdrop
    omega
  | cons firstNode above => exact nextRequiredDifficulty_eq _ _ _ _

theorem windowTotal_nonneg (params : Params) (hvalid : ∀ node ∈ chain, 0 < compactToBig node.bits) : 0 ≤ windowTotal params chain := by
  refine List.sum_nonneg fun target htarget => ?_
  obtain ⟨node, hnode, rfl⟩ := List.mem_map.mp htarget
  exact (hvalid node (List.mem_of_mem_take hnode)).le

theorem windowMillis_bounds (hparams : params.Retargets) (chain : List NodeData) :
    1 ≤ windowMillis params chain ∧ windowMillis params chain * 1000000 ≤ params.maxActualTimespan.toInt := by
  have hmin := hparams.min_pos
  unfold windowMillis
  obtain ⟨hlow, hhigh⟩ := dampedTimespan_bounds hparams (calcPastMedianTime (chain.drop params.powAveragingWindow))
    (calcPastMedianTime chain)
  rw [Int64.toInt_div_of_ne_right _ _ (by decide), Int.tdiv_eq_ediv_of_nonneg (by omega)]
  change 1 ≤ _ / 1000000 ∧ _ / 1000000 * 1000000 ≤ _
  omega

section Scaled

variable (hparams : params.Retargets) (hvalid : ∀ node ∈ chain, 0 < compactToBig node.bits)

include hparams hvalid

theorem scaledTarget_eq_zero_iff :
    scaledTarget params chain = 0 ↔ windowTotal params chain / params.powAveragingWindow <
      (params.averagingWindowTimespan / 1000000).toInt := by
  have hlimit := hparams.limit_pos
  have hspan := hparams.timespan_pos
  have hmillis := (windowMillis_bounds hparams chain).1
  have havg : 0 ≤ windowTotal params chain / params.powAveragingWindow :=
    Int.ediv_nonneg (windowTotal_nonneg params hvalid) (by omega)
  unfold scaledTarget
  generalize windowTotal params chain / params.powAveragingWindow = avg at havg ⊢
  constructor
  · intro hzero
    by_contra hle
    have hq : 1 ≤ avg / (params.averagingWindowTimespan / 1000000).toInt :=
      (Int.le_ediv_iff_mul_le hspan).mpr (by omega)
    have hprod := Int.mul_le_mul hq hmillis (by omega) (by omega)
    omega
  · intro hlt
    rw [Int.ediv_eq_zero_of_lt havg hlt, Int.zero_mul]
    omega

theorem scaledTarget_mul_le :
    (scaledTarget params chain : Int) * (params.powAveragingWindow * params.averagingWindowTimespan.toInt) ≤
      windowTotal params chain * params.maxActualTimespan.toInt := by
  have hspan := hparams.timespan_pos
  obtain ⟨hmillis, hmax⟩ := windowMillis_bounds hparams chain
  have htotal := windowTotal_nonneg params hvalid
  have havg := Int.ediv_nonneg htotal (Int.natCast_nonneg params.powAveragingWindow)
  unfold scaledTarget
  rw [hparams.timespan_eq]
  generalize hq : windowTotal params chain / params.powAveragingWindow /
    (params.averagingWindowTimespan / 1000000).toInt = q
  have hqspan : q * (params.averagingWindowTimespan / 1000000).toInt * params.powAveragingWindow ≤
      windowTotal params chain := calc
    _ ≤ windowTotal params chain / params.powAveragingWindow * params.powAveragingWindow :=
      Int.mul_le_mul_of_nonneg_right (hq ▸ Int.ediv_mul_le _ (by omega)) (Int.natCast_nonneg _)
    _ ≤ windowTotal params chain := Int.ediv_mul_le _ (by
    have := hparams.window_pos; omega)
  have hqpos : 0 ≤ q := hq ▸ Int.ediv_nonneg havg hspan.le
  have hscaled : ((min params.powLimit (q * windowMillis params chain).toNat : Nat) : Int) ≤
      q * windowMillis params chain := by
    have := Int.mul_nonneg hqpos (by omega : 0 ≤ windowMillis params chain)
    omega
  calc _ ≤ q * windowMillis params chain *
        (params.powAveragingWindow * ((params.averagingWindowTimespan / 1000000).toInt * 1000000)) :=
      Int.mul_le_mul_of_nonneg_right hscaled (by positivity)
    _ = q * (params.averagingWindowTimespan / 1000000).toInt * params.powAveragingWindow *
        (windowMillis params chain * 1000000) := by ring
    _ ≤ windowTotal params chain * params.maxActualTimespan.toInt :=
      Int.mul_le_mul hqspan hmax (by omega) htotal

theorem scaledTarget_le :
    (scaledTarget params chain : ℚ) ≤ averageTarget params chain * params.maxActualTimespan.toInt /
      params.averagingWindowTimespan.toInt := by
  have hwindow : (0 : ℚ) < params.powAveragingWindow := by exact_mod_cast hparams.window_pos
  have hspan : (0 : ℚ) < params.averagingWindowTimespan.toInt := by
    have := hparams.timespan_pos
    rw [hparams.timespan_eq]
    exact_mod_cast (by omega)
  rw [averageTarget, div_mul_eq_mul_div, div_div, le_div_iff₀ (mul_pos hwindow hspan)]
  exact_mod_cast scaledTarget_mul_le hparams hvalid

end Scaled

def sameNodes (count : Nat) (bits : UInt32) : List NodeData :=
  List.replicate count ⟨0, 0, 0, 0, 0, bits, 0, zeroValidatingPubKey⟩

end Prova
