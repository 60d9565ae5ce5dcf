import Mathlib.AlgebraicGeometry.EllipticCurve.Affine.Point
import Mathlib.Tactic.LinearCombination

/-!
# The curves y² = x³ + b

Points of such a curve are added by the chord and the tangent. In Jacobian coordinates a point (x, y) is a
triple (x·z², y·z³, z) with any z that is not zero, so that no division is needed; the triples with z = 0
and those with x = y = 0 stand for the point at infinity.
-/

namespace Prova

open WeierstrassCurve WeierstrassCurve.Affine

variable {K : Type} [Field K]

/-- The curve y² = x³ + b. -/
def cubicCurve (b : K) : WeierstrassCurve.Affine K := ⟨0, 0, 0, 0, b⟩

namespace CubicCurve

variable {b x y x₁ y₁ x₂ y₂ : K}

theorem equation_iff : (cubicCurve b).Equation x y ↔ y ^ 2 = x ^ 3 + b := by
  rw [Affine.equation_iff]
  simp [cubicCurve]

@[simp] theorem negY_eq : (cubicCurve b).negY x y = -y := by
  simp [Affine.negY, cubicCurve]

/-- Away from the characteristics two and three all points of the curve are nonsingular. -/
theorem nonsingular_iff (hsix : (6 : K) ≠ 0) (hb : b ≠ 0) : (cubicCurve b).Nonsingular x y ↔ y ^ 2 = x ^ 3 + b := by
  have hΔ : (cubicCurve b).Δ ≠ 0 := by
    have hvalue : (cubicCurve b).Δ = -(6 * 6 * 6 * 2 * b ^ 2) := by
      simp only [WeierstrassCurve.Δ, b₂, b₄, b₆, b₈, cubicCurve]
      ring
    have htwo : (2 : K) ≠ 0 := by
      intro h
      apply hsix
      linear_combination 3 * h
    rw [hvalue]
    exact neg_ne_zero.mpr (mul_ne_zero (mul_ne_zero (mul_ne_zero (mul_ne_zero hsix hsix) hsix) htwo) (pow_ne_zero 2 hb))
  rw [← equation_iff_nonsingular_of_Δ_ne_zero hΔ, equation_iff]

theorem not_both_zero (hb : b ≠ 0) (h : (cubicCurve b).Nonsingular x y) : ¬ (x = 0 ∧ y = 0) := by
  rintro ⟨rfl, rfl⟩
  have heq := equation_iff.mp h.1
  apply hb
  linear_combination -heq

end CubicCurve

/-! ### Jacobian coordinates -/

/-- A triple of coordinates (x·z², y·z³, z). -/
structure JacobianPoint (K : Type) where
  x : K
  y : K
  z : K
  deriving DecidableEq

namespace JacobianPoint

open CubicCurve

variable {b : K}

/-- The triple stands for a point of the curve. -/
def Represents (t : JacobianPoint K) : (cubicCurve b).Point → Prop
  | .zero => t.x = 0 ∧ t.y = 0 ∨ t.z = 0
  | .some x y _ => t.z ≠ 0 ∧ t.x = x * t.z ^ 2 ∧ t.y = y * t.z ^ 3

theorem represents_zero {t : JacobianPoint K} (h : t.x = 0 ∧ t.y = 0 ∨ t.z = 0) :
    t.Represents (0 : (cubicCurve b).Point) := h

theorem represents_some {x y : K} (h : (cubicCurve b).Nonsingular x y) :
    (⟨x, y, 1⟩ : JacobianPoint K).Represents (Point.some x y h) :=
  ⟨one_ne_zero, by rw [one_pow, mul_one], by rw [one_pow, mul_one]⟩

/-- The triples that stand for the point at infinity stand for no other point. -/
theorem Represents.infinite_iff (hb : b ≠ 0) {t : JacobianPoint K} {P : (cubicCurve b).Point} (ht : t.Represents P) :
    t.x = 0 ∧ t.y = 0 ∨ t.z = 0 ↔ P = 0 := by
  rcases P with _ | ⟨x, y, h⟩
  · exact ⟨fun _ => rfl, fun _ => ht⟩
  · obtain ⟨hz, hx, hy⟩ := ht
    refine ⟨?_, fun h' => absurd h' (Point.some_ne_zero h)⟩
    rintro (⟨hx', hy'⟩ | hz')
    · rw [hx, mul_eq_zero_iff_right (pow_ne_zero 2 hz)] at hx'
      rw [hy, mul_eq_zero_iff_right (pow_ne_zero 3 hz)] at hy'
      exact absurd ⟨hx', hy'⟩ (not_both_zero hb h)
    · exact absurd hz' hz

theorem Represents.unique (hb : b ≠ 0) {t : JacobianPoint K} {P Q : (cubicCurve b).Point} (hP : t.Represents P)
    (hQ : t.Represents Q) : P = Q := by
  rcases P with _ | ⟨x, y, h⟩
  · exact ((hQ.infinite_iff hb).mp hP).symm
  · rcases Q with _ | ⟨x', y', h'⟩
    · exact (hP.infinite_iff hb).mp hQ
    · obtain ⟨hz, hx, hy⟩ := hP
      obtain ⟨-, hx', hy'⟩ := hQ
      have hxx : x = x' := mul_right_cancel₀ (pow_ne_zero 2 hz) (hx.symm.trans hx')
      have hyy : y = y' := mul_right_cancel₀ (pow_ne_zero 3 hz) (hy.symm.trans hy')
      subst hxx hyy
      rfl

variable [DecidableEq K] {x₁ y₁ x₂ y₂ : K} {h₁ : (cubicCurve b).Nonsingular x₁ y₁}
  {h₂ : (cubicCurve b).Nonsingular x₂ y₂} {t : JacobianPoint K} {slope : K}

/-- A triple for the third point on the chord of two points, mirrored. -/
theorem represents_add (hx : x₁ ≠ x₂) (hslope : y₂ = y₁ + slope * (x₂ - x₁)) (hz : t.z ≠ 0)
    (htx : t.x = (slope ^ 2 - x₁ - x₂) * t.z ^ 2) (hty : t.y = (slope * (2 * x₁ + x₂ - slope ^ 2) - y₁) * t.z ^ 3) :
    t.Represents (Point.some x₁ y₁ h₁ + Point.some x₂ y₂ h₂) := by
  have hvalue : (cubicCurve b).slope x₁ x₂ y₁ y₂ = slope := by
    rw [slope_of_X_ne hx, div_eq_iff (sub_ne_zero.mpr hx), hslope]
    ring
  rw [Point.add_of_X_ne hx]
  refine ⟨hz, ?_, ?_⟩
  · rw [htx, hvalue]
    simp only [addX, cubicCurve]
    ring
  · rw [hty, hvalue, addY, negY_eq, negAddY, addX]
    simp only [cubicCurve]
    ring

/-- A triple for the third point on the tangent of a point, mirrored. -/
theorem represents_double (hy : y₁ ≠ 0) (htwo : (2 : K) ≠ 0) (hslope : slope * (2 * y₁) = 3 * x₁ ^ 2) (hz : t.z ≠ 0)
    (htx : t.x = (slope ^ 2 - 2 * x₁) * t.z ^ 2) (hty : t.y = (slope * (3 * x₁ - slope ^ 2) - y₁) * t.z ^ 3) :
    t.Represents (Point.some x₁ y₁ h₁ + Point.some x₁ y₁ h₁) := by
  have hne : y₁ ≠ (cubicCurve b).negY x₁ y₁ := by
    rw [negY_eq]
    intro h
    have hzero : 2 * y₁ = 0 := by linear_combination h
    rcases mul_eq_zero.mp hzero with h' | h'
    · exact htwo h'
    · exact hy h'
  have hvalue : (cubicCurve b).slope x₁ x₁ y₁ y₁ = slope := by
    have hden : y₁ - (cubicCurve b).negY x₁ y₁ ≠ 0 := sub_ne_zero.mpr hne
    rw [slope_of_Y_ne rfl hne, div_eq_iff hden, negY_eq]
    simp only [cubicCurve]
    linear_combination -hslope
  rw [Point.add_self_of_Y_ne hne]
  refine ⟨hz, ?_, ?_⟩
  · rw [htx, hvalue]
    simp only [addX, cubicCurve]
    ring
  · rw [hty, hvalue, addY, negY_eq, negAddY, addX]
    simp only [cubicCurve]
    ring

end JacobianPoint

end Prova
