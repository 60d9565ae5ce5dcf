import Prova.Lib.CubicCurve
import Mathlib.GroupTheory.Perm.Cycle.Type
import Mathlib.SetTheory.Cardinal.Finite

/-!
# The group of a curve y² = x³ + b over a finite field

There are at most two points for each x, so that a point of a large enough prime order generates the group.
A third root of unity gives an endomorphism of the curve, which then multiplies each point by the same number
as the generator.
-/

namespace Prova

/-! ### A generator of a small group -/

/-- An element of order N generates a group of less than 3·N elements in which none has order two. -/
theorem mem_zmultiples_of_card_lt {A : Type} [AddCommGroup A] [Finite A] {N : Nat} {g : A}
    (horder : addOrderOf g = N) (hcard : Nat.card A < 3 * N) (htwo : ∀ a : A, a + a = 0 → a = 0) (a : A) :
    a ∈ AddSubgroup.zmultiples g := by
  obtain ⟨m, hm⟩ : N ∣ Nat.card A := horder ▸ addOrderOf_dvd_natCard g
  have hpos : 0 < Nat.card A := Nat.card_pos
  have hlt : m < 3 := by
    by_contra hge
    have hle : N * 3 ≤ N * m := Nat.mul_le_mul_left N (by omega)
    omega
  have hne : m ≠ 2 := by
    rintro rfl
    have : Fact (Nat.Prime 2) := ⟨Nat.prime_two⟩
    obtain ⟨x, hx⟩ := exists_prime_addOrderOf_dvd_card' 2 (⟨N, by rw [hm, Nat.mul_comm]⟩ : 2 ∣ Nat.card A)
    have hzero : x = 0 := by
      apply htwo
      rw [← two_nsmul, ← hx]
      exact addOrderOf_nsmul_eq_zero x
    rw [hzero, addOrderOf_zero] at hx
    omega
  have hone : m = 1 := by
    have hmpos : m ≠ 0 := by
      rintro rfl
      omega
    omega
  have htop : AddSubgroup.zmultiples g = ⊤ := by
    apply AddSubgroup.eq_top_of_card_eq
    rw [Nat.card_zmultiples, horder, hm, hone, Nat.mul_one]
  rw [htop]
  trivial

theorem map_eq_nsmul_of_generator {A : Type} [AddCommGroup A] {g : A} (hgen : ∀ a, a ∈ AddSubgroup.zmultiples g)
    {f : A →+ A} {n : Nat} (hf : f g = n • g) (a : A) : f a = n • a := by
  obtain ⟨k, rfl⟩ := AddSubgroup.mem_zmultiples_iff.mp (hgen a)
  rw [map_zsmul, hf, smul_comm]

open WeierstrassCurve.Affine JacobianPoint

namespace CubicCurve

variable {K : Type} [Field K] {b : K}

/-! ### The number of points -/

open Classical in
/-- A point is known by its x and by whether its y is the one chosen of the two roots. -/
noncomputable def pointCode : (cubicCurve b).Point → Option (K × Bool)
  | .zero => none
  | .some x y _ => some (x, decide (y = Classical.epsilon fun y₀ => y₀ ^ 2 = x ^ 3 + b))

theorem pointCode_injective : Function.Injective (pointCode (b := b)) := by
  rintro (_ | ⟨x, y, h⟩) (_ | ⟨x', y', h'⟩) heq
  · rfl
  · cases heq
  · cases heq
  · obtain ⟨rfl, hroot⟩ := Prod.mk.inj (Option.some.inj heq)
    have hy := equation_iff.mp h.1
    have hy' := equation_iff.mp h'.1
    have hchosen : (Classical.epsilon fun y₀ => y₀ ^ 2 = x ^ 3 + b) ^ 2 = x ^ 3 + b :=
      Classical.epsilon_spec (p := fun y₀ => y₀ ^ 2 = x ^ 3 + b) ⟨y, hy⟩
    rw [decide_eq_decide] at hroot
    generalize (Classical.epsilon fun y₀ => y₀ ^ 2 = x ^ 3 + b) = y₀ at hroot hchosen
    -- Each of the two is the chosen root or its opposite.
    have hyy : y = y' := by
      rcases sq_eq_sq_iff_eq_or_eq_neg.mp (hy.trans hchosen.symm) with hyes | hno
      · rw [hyes, hroot.mp hyes]
      · rcases sq_eq_sq_iff_eq_or_eq_neg.mp (hy'.trans hchosen.symm) with hyes' | hno'
        · rw [hyes', hroot.mpr hyes']
        · rw [hno, hno']
    subst hyy
    rfl

instance [Finite K] : Finite (cubicCurve b).Point := Finite.of_injective pointCode pointCode_injective

theorem card_point_le [Finite K] : Nat.card (cubicCurve b).Point ≤ 2 * Nat.card K + 1 := by
  have hle := Nat.card_le_card_of_injective _ (pointCode_injective (b := b))
  rwa [Finite.card_option, Nat.card_prod, Nat.card_eq_fintype_card (α := Bool), Fintype.card_bool, Nat.mul_comm] at hle

/-! ### The endomorphism of a third root of unity -/

section Endomorphism

variable (hsix : (6 : K) ≠ 0) (hb : b ≠ 0) {β : K} (hβ : β ^ 3 = 1)

include hsix hb hβ in
theorem nonsingular_root_mul {x y : K} (h : (cubicCurve b).Nonsingular x y) : (cubicCurve b).Nonsingular (β * x) y := by
  rw [nonsingular_iff hsix hb] at h ⊢
  rw [h, mul_pow, hβ, one_mul]

/-- (x, y) ↦ (β·x, y) -/
def rootMul : (cubicCurve b).Point → (cubicCurve b).Point
  | .zero => .zero
  | .some x y h => .some (β * x) y (nonsingular_root_mul hsix hb hβ h)

theorem represents_rootMul {t : JacobianPoint K} {P : (cubicCurve b).Point} (ht : t.Represents P) :
    (⟨β * t.x, t.y, t.z⟩ : JacobianPoint K).Represents (rootMul hsix hb hβ P) := by
  rcases P with _ | ⟨x, y, h⟩
  · exact ht.imp_left fun hxy => ⟨by rw [hxy.1, mul_zero], hxy.2⟩
  · exact ⟨ht.1, by rw [ht.2.1, mul_assoc], ht.2.2⟩

variable [DecidableEq K]

/-- A triple for the sum of two points whose image is one for the sum of the images. -/
theorem rootMul_add_of_represents {t : JacobianPoint K} {P Q : (cubicCurve b).Point} (ht : t.Represents (P + Q))
    (himage : (⟨β * t.x, t.y, t.z⟩ : JacobianPoint K).Represents (rootMul hsix hb hβ P + rootMul hsix hb hβ Q)) :
    rootMul hsix hb hβ (P + Q) = rootMul hsix hb hβ P + rootMul hsix hb hβ Q :=
  (represents_rootMul hsix hb hβ ht).unique hb himage

/-- A point is doubled: the tangent at the image has the slope divided by β. -/
theorem rootMul_add_self (P : (cubicCurve b).Point) :
    rootMul hsix hb hβ (P + P) = rootMul hsix hb hβ P + rootMul hsix hb hβ P := by
  rcases P with _ | ⟨x, y, h⟩
  · rfl
  have htwo : (2 : K) ≠ 0 := by
    intro h
    apply hsix
    linear_combination 3 * h
  by_cases hy : y = 0
  · have hsum {x' : K} (h' : (cubicCurve b).Nonsingular x' y) : Point.some x' y h' + Point.some x' y h' = 0 := by
      refine Point.add_self_of_Y_eq ?_
      rw [negY_eq, hy, neg_zero]
    rw [hsum h, rootMul, hsum]
    rfl
  · obtain ⟨slope, hslope⟩ : ∃ slope, slope * (2 * y) = 3 * x ^ 2 :=
      ⟨3 * x ^ 2 / (2 * y), div_mul_cancel₀ _ (mul_ne_zero htwo hy)⟩
    have himage : β ^ 2 * slope * (2 * y) = 3 * (β * x) ^ 2 := by linear_combination β ^ 2 * hslope
    let t : JacobianPoint K := ⟨slope ^ 2 - 2 * x, slope * (3 * x - slope ^ 2) - y, 1⟩
    have ht : t.Represents (Point.some x y h + Point.some x y h) :=
      represents_double hy htwo hslope one_ne_zero (by ring) (by ring)
    refine rootMul_add_of_represents hsix hb hβ ht (represents_double hy htwo himage one_ne_zero ?_ ?_)
    · linear_combination (-(β * slope ^ 2)) * hβ
    · linear_combination (-(3 * slope * x) + slope ^ 3 * (β ^ 3 + 1)) * hβ

/-- The endomorphism adds as the points do: the line through the images of two points has the slope of their
line, divided by β. -/
theorem rootMul_add (P Q : (cubicCurve b).Point) :
    rootMul hsix hb hβ (P + Q) = rootMul hsix hb hβ P + rootMul hsix hb hβ Q := by
  have hβne : β ≠ 0 := by
    rintro rfl
    simp at hβ
  rcases P with _ | ⟨x₁, y₁, h₁⟩
  · change rootMul hsix hb hβ (0 + Q) = 0 + rootMul hsix hb hβ Q
    rw [zero_add, zero_add]
  rcases Q with _ | ⟨x₂, y₂, h₂⟩
  · rfl
  by_cases hx : x₁ = x₂
  · subst hx
    rcases Y_eq_of_X_eq h₁.1 h₂.1 rfl with hsame | hopposite
    · subst hsame
      exact rootMul_add_self hsix hb hβ _
    · rw [Point.add_of_Y_eq rfl hopposite, rootMul, rootMul,
        Point.add_of_Y_eq rfl (by rw [hopposite, negY_eq, negY_eq])]
      rfl
  · have hx' : β * x₁ ≠ β * x₂ := fun h => hx (mul_left_cancel₀ hβne h)
    obtain ⟨slope, hslope⟩ : ∃ slope, y₂ = y₁ + slope * (x₂ - x₁) := by
      refine ⟨(y₂ - y₁) / (x₂ - x₁), ?_⟩
      rw [div_mul_cancel₀ _ (sub_ne_zero.mpr (Ne.symm hx))]
      ring
    have himage : y₂ = y₁ + β ^ 2 * slope * (β * x₂ - β * x₁) := by
      linear_combination hslope - slope * (x₂ - x₁) * hβ
    let t : JacobianPoint K := ⟨slope ^ 2 - x₁ - x₂, slope * (2 * x₁ + x₂ - slope ^ 2) - y₁, 1⟩
    have ht : t.Represents (Point.some x₁ y₁ h₁ + Point.some x₂ y₂ h₂) :=
      represents_add hx hslope one_ne_zero (by ring) (by ring)
    refine rootMul_add_of_represents hsix hb hβ ht (represents_add hx' himage one_ne_zero ?_ ?_)
    · linear_combination (-(β * slope ^ 2)) * hβ
    · linear_combination (-(slope * (2 * x₁ + x₂)) + slope ^ 3 * (β ^ 3 + 1)) * hβ

/-- The endomorphism (x, y) ↦ (β·x, y). -/
def rootMulHom : (cubicCurve b).Point →+ (cubicCurve b).Point where
  toFun := rootMul hsix hb hβ
  map_zero' := rfl
  map_add' := rootMul_add hsix hb hβ

end Endomorphism

end CubicCurve

end Prova
