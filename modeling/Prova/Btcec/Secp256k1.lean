import Prova.Btcec.Curve
import Prova.Lib.CurveOrder

/-!
# The group of secp256k1

The base point has the prime order N: the code's own formulas, run on its coordinates, say that N times it is
the point at infinity. There are fewer than 3·N points and none of order two, as -7 is not a cube, so that the
base point generates all of them. The endomorphism (x, y) ↦ (β·x, y) therefore multiplies each point by λ, as
it does the base point.
-/

namespace Prova

/-- Field values, with exact operations. -/
abbrev FieldVal : Type := ZMod curveP

namespace KoblitzCurve

open WeierstrassCurve.Affine JacobianPoint CubicCurve

/-! ### The parameters of `initS256` -/

def gx : Nat := 0x79BE667EF9DCBBAC55A06295CE870B07029BFCDB2DCE28D959F2815B16F81798
def gy : Nat := 0x483ADA7726A3C4655DA4FBFC0E1108A8FD17B448A68554199C47D08FFB10D4B8
def lambda : Nat := 0x5363AD4CC05C30E0A5261C028812645A122E22EA20816678DF02967C1B23BD72
def beta : FieldVal := (0x7AE96A2B657C07106E64479EAC3434E99CF0497512F58995C1396C28719501EE : Nat)
def a1 : Int := 0x3086D221A7D46BCDE86C90E49284EB15
def b1 : Int := -0xE4437ED6010E88286F547FA90ABFE4C3
def a2 : Int := 0x114CA50F7A8E2F3F657C1108D9D44CFD8
def b2 : Int := 0x3086D221A7D46BCDE86C90E49284EB15

/-- The curve y² = x³ + 7. -/
abbrev secp256k1 : WeierstrassCurve.Affine FieldVal := cubicCurve (curveB : FieldVal)

theorem base_facts : (2 : FieldVal) ≠ 0 ∧ (6 : FieldVal) ≠ 0 ∧ (curveB : FieldVal) ≠ 0 ∧ beta ^ 3 = 1 ∧
    (gy : FieldVal) ^ 2 = (gx : FieldVal) ^ 3 + (curveB : FieldVal) ∧
    (powMod (curveP - 7) ((curveP - 1) / 3) curveP : FieldVal) ≠ 1 := by
  decide +kernel

theorem two_ne_zero : (2 : FieldVal) ≠ 0 := base_facts.1

theorem six_ne_zero : (6 : FieldVal) ≠ 0 := base_facts.2.1

theorem curveB_ne_zero : (curveB : FieldVal) ≠ 0 := base_facts.2.2.1

theorem beta_cubed : beta ^ 3 = 1 := base_facts.2.2.2.1

theorem nonsingular_base : secp256k1.Nonsingular (gx : FieldVal) (gy : FieldVal) := by
  rw [nonsingular_iff six_ne_zero curveB_ne_zero]
  exact base_facts.2.2.2.2.1

def basePoint : secp256k1.Point := .some (gx : FieldVal) (gy : FieldVal) nonsingular_base

/-! ### The order of the base point -/

theorem certified_curveN : Certified
    [⟨curveN, 7, [2, 2, 2, 2, 2, 2, 3, 149, 631, 107361793816595537, 174723607534414371449,
      341948486974166000522343609283189]⟩,
    ⟨341948486974166000522343609283189, 2, [2, 2, 3, 3, 3, 109, 29047611873442575647497758179]⟩,
    ⟨29047611873442575647497758179, 2, [2, 293, 305873, 545358713, 297159362677]⟩,
    ⟨174723607534414371449, 3, [2, 2, 2, 17, 59, 4051, 120233, 44706919]⟩,
    ⟨107361793816595537, 3, [2, 2, 2, 2, 16699, 85831, 4681609]⟩, ⟨297159362677, 2, [2, 2, 3, 3, 11, 461, 1627771]⟩,
    ⟨545358713, 5, [2, 2, 2, 41, 59, 28181]⟩, ⟨44706919, 6, [2, 3, 797, 9349]⟩, ⟨4681609, 23, [2, 2, 2, 3, 97, 2011]⟩,
    ⟨1627771, 3, [2, 3, 5, 29, 1871]⟩, ⟨305873, 3, [2, 2, 2, 2, 7, 2731]⟩] := by
  decide +kernel

theorem prime_curveN : Nat.Prime curveN := prime_of_certified certified_curveN _ List.mem_cons_self

def multiple (g : JacobianPoint FieldVal) : Nat → Nat → JacobianPoint FieldVal
  | 0, _ => infinity
  | bits + 1, k =>
    let twice := doubleJacobian (multiple g bits (k / 2))
    if k % 2 = 1 then addJacobian twice g else twice

theorem represents_multiple {g : JacobianPoint FieldVal} {P : secp256k1.Point} (hg : g.Represents P) {bits k : Nat}
    (hk : k < 2 ^ bits) : (multiple g bits k).Represents (k • P) := by
  induction bits generalizing k with
  | zero =>
    have hzero : k = 0 := by simpa using hk
    rw [hzero, zero_nsmul]
    exact represents_infinity
  | succ bits ih =>
    have hhalf : k / 2 < 2 ^ bits := by
      rw [pow_succ] at hk
      omega
    have htwice := represents_doubleJacobian two_ne_zero (ih hhalf)
    rw [← two_nsmul, ← mul_nsmul'] at htwice
    rw [multiple]
    split_ifs with hodd
    · have hsum := represents_addJacobian two_ne_zero curveB_ne_zero htwice hg
      rwa [← succ_nsmul, show 2 * (k / 2) + 1 = k by omega] at hsum
    · rwa [show 2 * (k / 2) = k by omega] at htwice

def baseTriple : JacobianPoint FieldVal := ⟨gx, gy, 1⟩

theorem represents_basePoint : baseTriple.Represents basePoint := represents_some nonsingular_base

/-- The order of the base point leads to infinity, and λ to the point (β·x, y). -/
theorem multiple_baseTriple : (multiple baseTriple 256 curveN).z = 0 ∧
    let p := multiple baseTriple 256 lambda
    p.z ≠ 0 ∧ p.x = beta * gx * p.z ^ 2 ∧ p.y = gy * p.z ^ 3 := by
  decide +kernel

theorem curveN_nsmul_basePoint : curveN • basePoint = 0 :=
  ((represents_multiple represents_basePoint (by norm_num [curveN])).infinite_iff curveB_ne_zero).mp
    (.inr multiple_baseTriple.1)

theorem addOrderOf_basePoint : addOrderOf basePoint = curveN :=
  have : Fact (Nat.Prime curveN) := ⟨prime_curveN⟩
  addOrderOf_eq_prime curveN_nsmul_basePoint (Point.some_ne_zero _)

/-! ### All points are multiples of the base point -/

theorem cube_ne (x : FieldVal) : x ^ 3 + (curveB : FieldVal) ≠ 0 := by
  intro h
  have hcube : x ^ 3 = ((curveP - 7 : Nat) : FieldVal) := by
    have hneg : ((curveP - 7 : Nat) : FieldVal) = -(curveB : FieldVal) := by
      rw [Nat.cast_sub (by norm_num [curveP]), ZMod.natCast_self, zero_sub]
      rfl
    rw [hneg]
    exact eq_neg_of_add_eq_zero_left h
  have hx : x ≠ 0 := by
    rintro rfl
    rw [zero_pow three_ne_zero, zero_add] at h
    exact curveB_ne_zero h
  have hthird : 3 * ((curveP - 1) / 3) = curveP - 1 := by norm_num [curveP]
  have hone : ((curveP - 7 : Nat) : FieldVal) ^ ((curveP - 1) / 3) = 1 := by
    rw [← hcube, ← pow_mul, hthird]
    exact ZMod.pow_card_sub_one_eq_one hx
  rw [natCast_pow_eq_powMod (by norm_num [curveP])] at hone
  exact base_facts.2.2.2.2.2 hone

theorem y_ne_zero {x y : FieldVal} (h : secp256k1.Nonsingular x y) : y ≠ 0 := by
  rintro rfl
  have heq := equation_iff.mp h.1
  rw [zero_pow (by decide)] at heq
  exact cube_ne x heq.symm

theorem eq_zero_of_add_self (P : secp256k1.Point) (h : P + P = 0) : P = 0 := by
  rcases P with _ | ⟨x, y, hns⟩
  · rfl
  · have hneg : Point.some x y hns = -Point.some x y hns := eq_neg_of_add_eq_zero_left h
    have hy : y = -y := by
      rw [Point.neg_some, Point.some.injEq, negY_eq] at hneg
      exact hneg.2
    have hy0 : y = 0 := by
      have hdouble : 2 * y = 0 := by linear_combination hy
      exact (mul_eq_zero.mp hdouble).resolve_left two_ne_zero
    exact absurd hy0 (y_ne_zero hns)

theorem mem_zmultiples_basePoint (P : secp256k1.Point) : P ∈ AddSubgroup.zmultiples basePoint := by
  refine mem_zmultiples_of_card_lt addOrderOf_basePoint ?_ eq_zero_of_add_self P
  refine lt_of_le_of_lt card_point_le ?_
  rw [Nat.card_zmod]
  norm_num [curveP, curveN]

theorem curveN_nsmul (P : secp256k1.Point) : curveN • P = 0 := by
  obtain ⟨k, rfl⟩ := AddSubgroup.mem_zmultiples_iff.mp (mem_zmultiples_basePoint P)
  rw [smul_comm, curveN_nsmul_basePoint, zsmul_zero]

/-! ### The endomorphism -/

/-- ϕ(x, y) = (β·x, y) -/
def endomorphism : secp256k1.Point →+ secp256k1.Point := rootMulHom six_ne_zero curveB_ne_zero beta_cubed

theorem endomorphism_basePoint : endomorphism basePoint = lambda • basePoint :=
  ((represents_multiple represents_basePoint (by norm_num [lambda])).unique curveB_ne_zero
    (Q := endomorphism basePoint) multiple_baseTriple.2).symm

theorem endomorphism_eq (P : secp256k1.Point) : endomorphism P = lambda • P :=
  map_eq_nsmul_of_generator mem_zmultiples_basePoint endomorphism_basePoint P

/-- The sum and the double are stored, also in variables of the summands. -/
theorem addJacobianAt_and_doubleJacobianAt_represent {Var : Type} [DecidableEq Var] {s : Var → FieldVal}
    {p q r : PointVars Var} (hp : p.Aligned r) (hq : q.Aligned r) (hr : r.Aligned r) {P Q : secp256k1.Point}
    (hP : (p.load s).Represents P) (hQ : (q.load s).Represents Q) :
    (r.load (addJacobianAt p q r s)).Represents (P + Q) ∧ (r.load (doubleJacobianAt p r s)).Represents (P + P) := by
  rw [load_addJacobianAt hr hp hq, load_doubleJacobianAt hr hp]
  exact ⟨represents_addJacobian two_ne_zero curveB_ne_zero hP hQ, represents_doubleJacobian two_ne_zero hP⟩

/-- The base point is doubled in its own variables. -/
theorem doubled_in_place :
    let p : PointVars (Fin 3) := ⟨0, 1, 2⟩
    let s : Fin 3 → FieldVal := ![gx, gy, 1]
    (p.load (addJacobianAt p p p s)).Represents (basePoint + basePoint) ∧
      (p.load (doubleJacobianAt p p s)).Represents (basePoint + basePoint) := by
  intro p s
  have haligned : p.Aligned p := by constructor <;> decide
  exact addJacobianAt_and_doubleJacobianAt_represent haligned haligned haligned represents_basePoint
    represents_basePoint

end KoblitzCurve

end Prova
