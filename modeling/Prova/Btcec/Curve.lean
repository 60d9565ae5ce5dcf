import Prova.Lib.CubicCurve
import Prova.Btcec.PubKey

/-!
# Adding points of secp256k1 (`btcec/btcec.go`)

Points are added and doubled in Jacobian coordinates, with shorter formulas where the z values allow it. The
operations on field values are taken as exact: a field value is an element of a field. What the code stores
in place of an argument is stored after the argument's last use.
-/

namespace Prova

namespace KoblitzCurve

variable {K : Type} [Field K] [DecidableEq K]

/-! ### Doubling -/

def infinity : JacobianPoint K := ⟨0, 0, 0⟩

def doubleZ1EqualsOne (p : JacobianPoint K) : JacobianPoint K :=
  let a := p.x ^ 2
  let c := (p.y ^ 2) ^ 2
  let d := 2 * ((p.x + p.y ^ 2) ^ 2 - (a + c))
  let e := 3 * a
  let x3 := e ^ 2 - 2 * d
  ⟨x3, e * (d - x3) - 8 * c, 2 * p.y⟩

def doubleGeneric (p : JacobianPoint K) : JacobianPoint K :=
  let a := p.x ^ 2
  let c := (p.y ^ 2) ^ 2
  let d := 2 * ((p.x + p.y ^ 2) ^ 2 - (a + c))
  let e := 3 * a
  let x3 := e ^ 2 - 2 * d
  ⟨x3, e * (d - x3) - 8 * c, 2 * (p.y * p.z)⟩

def doubleJacobian (p : JacobianPoint K) : JacobianPoint K :=
  if p.y = 0 ∨ p.z = 0 then infinity
  else if p.z = 1 then doubleZ1EqualsOne p
  else doubleGeneric p

/-! ### Adding -/

def addZ1AndZ2EqualsOne (p q : JacobianPoint K) : JacobianPoint K :=
  if p.x = q.x then
    if p.y = q.y then doubleJacobian p else infinity
  else
    let h := q.x - p.x
    let i := 4 * h ^ 2
    let j := h * i
    let r := 2 * (q.y - p.y)
    let v := p.x * i
    let x3 := r ^ 2 - j - 2 * v
    ⟨x3, r * (v - x3) - 2 * (j * p.y), 2 * h⟩

def addZ1EqualsZ2 (p q : JacobianPoint K) : JacobianPoint K :=
  if p.x = q.x then
    if p.y = q.y then doubleJacobian p else infinity
  else
    let a := q.x - p.x
    let b := a ^ 2
    let c := q.y - p.y
    let d := c ^ 2
    let e := p.x * b
    let f := q.x * b
    let x3 := d - (e + f)
    ⟨x3, c * (e - x3) - p.y * (f - e), p.z * a⟩

def addZ2EqualsOne (p q : JacobianPoint K) : JacobianPoint K :=
  let z1z1 := p.z ^ 2
  let u2 := q.x * z1z1
  let s2 := q.y * z1z1 * p.z
  if p.x = u2 then
    if p.y = s2 then doubleJacobian p else infinity
  else
    let h := u2 - p.x
    let hh := h ^ 2
    let i := 4 * hh
    let j := h * i
    let r := 2 * (s2 - p.y)
    let v := p.x * i
    let x3 := r ^ 2 - (2 * v + j)
    ⟨x3, r * (v - x3) - 2 * (p.y * j), (p.z + h) ^ 2 - (z1z1 + hh)⟩

def addGeneric (p q : JacobianPoint K) : JacobianPoint K :=
  let z1z1 := p.z ^ 2
  let z2z2 := q.z ^ 2
  let u1 := p.x * z2z2
  let u2 := q.x * z1z1
  let s1 := p.y * z2z2 * q.z
  let s2 := q.y * z1z1 * p.z
  if u1 = u2 then
    if s1 = s2 then doubleJacobian p else infinity
  else
    let h := u2 - u1
    let i := (2 * h) ^ 2
    let j := h * i
    let r := 2 * (s2 - s1)
    let v := u1 * i
    let x3 := r ^ 2 - (2 * v + j)
    ⟨x3, r * (v - x3) - 2 * (s1 * j), ((p.z + q.z) ^ 2 - (z1z1 + z2z2)) * h⟩

def addJacobian (p q : JacobianPoint K) : JacobianPoint K :=
  if p.x = 0 ∧ p.y = 0 ∨ p.z = 0 then q
  else if q.x = 0 ∧ q.y = 0 ∨ q.z = 0 then p
  else if p.z = 1 ∧ q.z = 1 then addZ1AndZ2EqualsOne p q
  else if p.z = q.z then addZ1EqualsZ2 p q
  else if q.z = 1 then addZ2EqualsOne p q
  else addGeneric p q

/-! ### What the formulas compute -/

open JacobianPoint CubicCurve WeierstrassCurve.Affine

variable {b : K} {p q : JacobianPoint K} {P Q : (cubicCurve b).Point}

omit [DecidableEq K] in
theorem represents_infinity : (infinity : JacobianPoint K).Represents (0 : (cubicCurve b).Point) :=
  represents_zero (.inr rfl)

omit [DecidableEq K] in
theorem doubleZ1EqualsOne_eq (hz : p.z = 1) : doubleZ1EqualsOne p = doubleGeneric p := by
  rw [doubleZ1EqualsOne, doubleGeneric, hz, mul_one]

theorem represents_doubleGeneric {x y : K} {h : (cubicCurve b).Nonsingular x y} (htwo : (2 : K) ≠ 0) (hy : y ≠ 0)
    (hp : p.Represents (Point.some x y h)) : (doubleGeneric p).Represents (Point.some x y h + Point.some x y h) := by
  obtain ⟨hz, hpx, hpy⟩ := hp
  obtain ⟨slope, hslope⟩ : ∃ slope, slope * (2 * y) = 3 * x ^ 2 :=
    ⟨3 * x ^ 2 / (2 * y), div_mul_cancel₀ _ (mul_ne_zero htwo hy)⟩
  refine represents_double hy htwo hslope ?_ ?_ ?_
  · simp only [doubleGeneric, hpy]
    exact mul_ne_zero htwo (mul_ne_zero (mul_ne_zero hy (pow_ne_zero 3 hz)) hz)
  · simp only [doubleGeneric, hpx, hpy]
    linear_combination (-(p.z ^ 8) * (slope * (2 * y) + 3 * x ^ 2)) * hslope
  · simp only [doubleGeneric, hpx, hpy]
    linear_combination (-(p.z ^ 12) * (12 * x * y ^ 2 -
      ((3 * x ^ 2) ^ 2 + 3 * x ^ 2 * (slope * (2 * y)) + (slope * (2 * y)) ^ 2))) * hslope

theorem represents_doubleJacobian (htwo : (2 : K) ≠ 0) (hp : p.Represents P) :
    (doubleJacobian p).Represents (P + P) := by
  rw [doubleJacobian]
  rcases P with _ | ⟨x, y, h⟩
  · -- The point at infinity: its triple has y = 0 or z = 0.
    have hzero : p.y = 0 ∨ p.z = 0 := hp.imp_left And.right
    rw [if_pos hzero]
    exact represents_infinity
  · obtain ⟨hz, -, hpy⟩ := id hp
    by_cases hy : y = 0
    · -- A point of order two.
      have hsum : Point.some x y h + Point.some x y h = 0 := by
        refine Point.add_self_of_Y_eq ?_
        rw [negY_eq, hy, neg_zero]
      rw [if_pos (.inl (by rw [hpy, hy, zero_mul])), hsum]
      exact represents_infinity
    · have hyz : ¬ (p.y = 0 ∨ p.z = 0) := by
        rw [not_or, hpy]
        exact ⟨mul_ne_zero hy (pow_ne_zero 3 hz), hz⟩
      rw [if_neg hyz]
      split_ifs with hone
      · rw [doubleZ1EqualsOne_eq hone]
        exact represents_doubleGeneric htwo hy hp
      · exact represents_doubleGeneric htwo hy hp

/-! #### Adding -/

section Add

variable {x₁ y₁ x₂ y₂ : K} {h₁ : (cubicCurve b).Nonsingular x₁ y₁} {h₂ : (cubicCurve b).Nonsingular x₂ y₂}

/-- What the four additions have in common. The coordinates are compared after they were brought to a common
scale; if those of x agree the points are the same or opposite. -/
theorem represents_branches (htwo : (2 : K) ≠ 0) (hp : p.Represents (Point.some x₁ y₁ h₁)) {scale : K}
    (hscale : scale ≠ 0) {u₁ u₂ s₁ s₂ : K} (hu₁ : u₁ = x₁ * scale ^ 2) (hu₂ : u₂ = x₂ * scale ^ 2)
    (hs₁ : s₁ = y₁ * scale ^ 3) (hs₂ : s₂ = y₂ * scale ^ 3) {sum : JacobianPoint K}
    (hsum : ∀ slope, x₁ ≠ x₂ → y₂ = y₁ + slope * (x₂ - x₁) → sum.z ≠ 0 ∧ sum.x = (slope ^ 2 - x₁ - x₂) * sum.z ^ 2 ∧
        sum.y = (slope * (2 * x₁ + x₂ - slope ^ 2) - y₁) * sum.z ^ 3) :
    (if u₁ = u₂ then if s₁ = s₂ then doubleJacobian p else infinity else sum).Represents
      (Point.some x₁ y₁ h₁ + Point.some x₂ y₂ h₂) := by
  have hu : u₁ = u₂ ↔ x₁ = x₂ := by
    rw [hu₁, hu₂]
    exact mul_left_inj' (pow_ne_zero 2 hscale)
  have hs : s₁ = s₂ ↔ y₁ = y₂ := by
    rw [hs₁, hs₂]
    exact mul_left_inj' (pow_ne_zero 3 hscale)
  simp only [hu, hs]
  by_cases hx : x₁ = x₂
  · rw [if_pos hx]
    subst hx
    split_ifs with hy
    · subst hy
      exact represents_doubleJacobian htwo hp
    · have hopposite : y₁ = (cubicCurve b).negY x₁ y₂ := (Y_eq_of_X_eq h₁.1 h₂.1 rfl).resolve_left hy
      rw [Point.add_of_Y_eq rfl hopposite]
      exact represents_infinity
  · rw [if_neg hx]
    have hslope : y₂ = y₁ + (y₂ - y₁) / (x₂ - x₁) * (x₂ - x₁) := by
      rw [div_mul_cancel₀ _ (sub_ne_zero.mpr (Ne.symm hx))]
      ring
    obtain ⟨hz, hsx, hsy⟩ := hsum _ hx hslope
    exact represents_add hx hslope hz hsx hsy

theorem represents_addGeneric (htwo : (2 : K) ≠ 0) (hp : p.Represents (Point.some x₁ y₁ h₁))
    (hq : q.Represents (Point.some x₂ y₂ h₂)) :
    (addGeneric p q).Represents (Point.some x₁ y₁ h₁ + Point.some x₂ y₂ h₂) := by
  obtain ⟨hpz, hpx, hpy⟩ := id hp
  obtain ⟨hqz, hqx, hqy⟩ := id hq
  refine represents_branches htwo hp (mul_ne_zero hpz hqz) ?_ ?_ ?_ ?_ ?_
  · rw [hpx]
    ring
  · rw [hqx]
    ring
  · rw [hpy]
    ring
  · rw [hqy]
    ring
  · intro slope hx hslope
    simp only [hpx, hpy, hqx, hqy]
    refine ⟨?_, ?_, ?_⟩
    · have hz : ((p.z + q.z) ^ 2 - (p.z ^ 2 + q.z ^ 2)) * (x₂ * q.z ^ 2 * p.z ^ 2 - x₁ * p.z ^ 2 * q.z ^ 2) =
          2 * (p.z * q.z) ^ 3 * (x₂ - x₁) := by ring
      rw [hz]
      exact mul_ne_zero (mul_ne_zero htwo (pow_ne_zero 3 (mul_ne_zero hpz hqz))) (sub_ne_zero.mpr (Ne.symm hx))
    · rw [hslope]
      ring
    · rw [hslope]
      ring

theorem represents_addZ2EqualsOne (htwo : (2 : K) ≠ 0) (hp : p.Represents (Point.some x₁ y₁ h₁))
    (hq : q.Represents (Point.some x₂ y₂ h₂)) (hone : q.z = 1) :
    (addZ2EqualsOne p q).Represents (Point.some x₁ y₁ h₁ + Point.some x₂ y₂ h₂) := by
  obtain ⟨hpz, hpx, hpy⟩ := id hp
  obtain ⟨-, hqx, hqy⟩ := id hq
  rw [hone, one_pow, mul_one] at hqx hqy
  refine represents_branches htwo hp hpz hpx ?_ hpy ?_ ?_
  · rw [hqx]
  · rw [hqy]
    ring
  · intro slope hx hslope
    simp only [hpx, hpy, hqx, hqy]
    refine ⟨?_, ?_, ?_⟩
    · have hz : (p.z + (x₂ * p.z ^ 2 - x₁ * p.z ^ 2)) ^ 2 - (p.z ^ 2 + (x₂ * p.z ^ 2 - x₁ * p.z ^ 2) ^ 2) =
          2 * p.z ^ 3 * (x₂ - x₁) := by ring
      rw [hz]
      exact mul_ne_zero (mul_ne_zero htwo (pow_ne_zero 3 hpz)) (sub_ne_zero.mpr (Ne.symm hx))
    · rw [hslope]
      ring
    · rw [hslope]
      ring

theorem represents_addZ1EqualsZ2 (htwo : (2 : K) ≠ 0) (hp : p.Represents (Point.some x₁ y₁ h₁))
    (hq : q.Represents (Point.some x₂ y₂ h₂)) (hsame : p.z = q.z) :
    (addZ1EqualsZ2 p q).Represents (Point.some x₁ y₁ h₁ + Point.some x₂ y₂ h₂) := by
  obtain ⟨hpz, hpx, hpy⟩ := id hp
  obtain ⟨-, hqx, hqy⟩ := id hq
  rw [← hsame] at hqx hqy
  refine represents_branches htwo hp hpz hpx hqx hpy hqy ?_
  intro slope hx hslope
  simp only [hpx, hpy, hqx, hqy]
  refine ⟨?_, ?_, ?_⟩
  · have hz : p.z * (x₂ * p.z ^ 2 - x₁ * p.z ^ 2) = p.z ^ 3 * (x₂ - x₁) := by ring
    rw [hz]
    exact mul_ne_zero (pow_ne_zero 3 hpz) (sub_ne_zero.mpr (Ne.symm hx))
  · rw [hslope]
    ring
  · rw [hslope]
    ring

theorem represents_addZ1AndZ2EqualsOne (htwo : (2 : K) ≠ 0) (hp : p.Represents (Point.some x₁ y₁ h₁))
    (hq : q.Represents (Point.some x₂ y₂ h₂)) (hpone : p.z = 1) (hqone : q.z = 1) :
    (addZ1AndZ2EqualsOne p q).Represents (Point.some x₁ y₁ h₁ + Point.some x₂ y₂ h₂) := by
  obtain ⟨hpz, hpx, hpy⟩ := id hp
  obtain ⟨-, hqx, hqy⟩ := id hq
  rw [hqone, ← hpone] at hqx hqy
  refine represents_branches htwo hp hpz hpx hqx hpy hqy ?_
  intro slope hx hslope
  rw [hpone, one_pow, mul_one] at hpx hpy hqx hqy
  simp only [hpx, hpy, hqx, hqy]
  refine ⟨mul_ne_zero htwo (sub_ne_zero.mpr (Ne.symm hx)), ?_, ?_⟩
  · rw [hslope]
    ring
  · rw [hslope]
    ring

end Add

theorem represents_addJacobian (htwo : (2 : K) ≠ 0) (hb : b ≠ 0) (hp : p.Represents P) (hq : q.Represents Q) :
    (addJacobian p q).Represents (P + Q) := by
  rw [addJacobian]
  simp only [hp.infinite_iff hb, hq.infinite_iff hb]
  rcases P with _ | ⟨x₁, y₁, h₁⟩
  · rw [if_pos Point.zero_def.symm, ← Point.zero_def, zero_add]
    exact hq
  · rw [if_neg (Point.some_ne_zero h₁)]
    rcases Q with _ | ⟨x₂, y₂, h₂⟩
    · rw [if_pos Point.zero_def.symm, ← Point.zero_def, add_zero]
      exact hp
    · rw [if_neg (Point.some_ne_zero h₂)]
      split_ifs with hones hsame hone
      · exact represents_addZ1AndZ2EqualsOne htwo hp hq hones.1 hones.2
      · exact represents_addZ1EqualsZ2 htwo hp hq hsame
      · exact represents_addZ2EqualsOne htwo hp hq hone
      · exact represents_addGeneric htwo hp hq

/-! ### In place

The code is given pointers to field values and may be told to store the sum in the variables of a summand.
Here its statements run on a store of variables, in the order of the source. The sum is the one computed by
`addJacobian` as long as no variable is used for two different coordinates. -/

section InPlace

open Function

variable {Var : Type} [DecidableEq Var]

structure PointVars (Var : Type) where
  x : Var
  y : Var
  z : Var

def PointVars.load (p : PointVars Var) (s : Var → K) : JacobianPoint K := ⟨s p.x, s p.y, s p.z⟩

/-- The points may share a variable, but for the same coordinate only. -/
structure PointVars.Aligned (p r : PointVars Var) : Prop where
  xy : p.x ≠ r.y
  xz : p.x ≠ r.z
  yx : p.y ≠ r.x
  yz : p.y ≠ r.z
  zx : p.z ≠ r.x
  zy : p.z ≠ r.y

def setInfinity (r : PointVars Var) (s : Var → K) : Var → K :=
  update (update (update s r.x 0) r.y 0) r.z 0

def setPoint (p r : PointVars Var) (s : Var → K) : Var → K :=
  let s := update s r.x (s p.x)
  let s := update s r.y (s p.y)
  update s r.z (s p.z)

/-! ### Doubling -/

/-- What the two doublings do after z was stored. -/
def doubleXY (p r : PointVars Var) (s : Var → K) : Var → K :=
  let a := s p.x ^ 2
  let b := s p.y ^ 2
  let c := b ^ 2
  let b := (b + s p.x) ^ 2
  let d := -(a + c)
  let d := (d + b) * 2
  let e := a * 3
  let f := e ^ 2
  let s := update s r.x (-(d * 2))
  let s := update s r.x (s r.x + f)
  let f := -s r.x + d
  let s := update s r.y (-(c * 8))
  update s r.y (s r.y + f * e)

/-- `doubleZ1EqualsOne` -/
def doubleZ1EqualsOneAt (p r : PointVars Var) (s : Var → K) : Var → K :=
  doubleXY p r (update s r.z (s p.y * 2))

/-- `doubleGeneric` -/
def doubleGenericAt (p r : PointVars Var) (s : Var → K) : Var → K :=
  doubleXY p r (update s r.z (s p.y * s p.z * 2))

/-- `doubleJacobian` -/
def doubleJacobianAt (p r : PointVars Var) (s : Var → K) : Var → K :=
  if s p.y = 0 ∨ s p.z = 0 then setInfinity r s
  else if s p.z = 1 then doubleZ1EqualsOneAt p r s
  else doubleGenericAt p r s

/-! ### Adding -/

/-- `addZ1AndZ2EqualsOne` -/
def addZ1AndZ2EqualsOneAt (p q r : PointVars Var) (s : Var → K) : Var → K :=
  if s p.x = s q.x then
    if s p.y = s q.y then doubleJacobianAt p r s else setInfinity r s
  else
    let h := -s p.x + s q.x
    let i := h ^ 2 * 4
    let j := h * i
    let rr := (-s p.y + s q.y) * 2
    let v := s p.x * i
    let s := update s r.x (rr ^ 2 + -j + -(v * 2))
    let negX3 := -s r.x
    let j := -(j * s p.y * 2)
    let s := update s r.y ((v + negX3) * rr + j)
    update s r.z (h * 2)

/-- `addZ1EqualsZ2` -/
def addZ1EqualsZ2At (p q r : PointVars Var) (s : Var → K) : Var → K :=
  if s p.x = s q.x then
    if s p.y = s q.y then doubleJacobianAt p r s else setInfinity r s
  else
    let a := -s p.x + s q.x
    let b := a ^ 2
    let c := -s p.y + s q.y
    let d := c ^ 2
    let e := s p.x * b
    let negE := -e
    let f := s q.x * b
    let s := update s r.x (-(e + f) + d)
    let negX3 := -s r.x
    let s := update s r.y (-(s p.y * (f + negE)))
    let s := update s r.y (s r.y + (e + negX3) * c)
    update s r.z (s p.z * a)

/-- `addZ2EqualsOne` -/
def addZ2EqualsOneAt (p q r : PointVars Var) (s : Var → K) : Var → K :=
  let z1z1 := s p.z ^ 2
  let u2 := s q.x * z1z1
  let s2 := s q.y * z1z1 * s p.z
  if s p.x = u2 then
    if s p.y = s2 then doubleJacobianAt p r s else setInfinity r s
  else
    let h := u2 + -s p.x
    let hh := h ^ 2
    let i := hh * 4
    let j := h * i
    let rr := (s2 + -s p.y) * 2
    let v := s p.x * i
    let s := update s r.x (-(v * 2 + j))
    let s := update s r.x (s r.x + rr ^ 2)
    let negX3 := -s r.x
    let s := update s r.y (-(s p.y * j * 2))
    let s := update s r.y (s r.y + (v + negX3) * rr)
    let s := update s r.z ((s p.z + h) ^ 2)
    update s r.z (s r.z + -(z1z1 + hh))

/-- `addGeneric` -/
def addGenericAt (p q r : PointVars Var) (s : Var → K) : Var → K :=
  let z1z1 := s p.z ^ 2
  let z2z2 := s q.z ^ 2
  let u1 := s p.x * z2z2
  let u2 := s q.x * z1z1
  let s1 := s p.y * z2z2 * s q.z
  let s2 := s q.y * z1z1 * s p.z
  if u1 = u2 then
    if s1 = s2 then doubleJacobianAt p r s else setInfinity r s
  else
    let h := u2 + -u1
    let i := (h * 2) ^ 2
    let j := h * i
    let rr := (s2 + -s1) * 2
    let v := u1 * i
    let s := update s r.x (-(v * 2 + j))
    let s := update s r.x (s r.x + rr ^ 2)
    let negX3 := -s r.x
    let s := update s r.y (-(s1 * j * 2))
    let s := update s r.y (s r.y + (v + negX3) * rr)
    let s := update s r.z ((s p.z + s q.z) ^ 2)
    let s := update s r.z (s r.z + -(z1z1 + z2z2))
    update s r.z (s r.z * h)

/-- `addJacobian` -/
def addJacobianAt (p q r : PointVars Var) (s : Var → K) : Var → K :=
  if s p.x = 0 ∧ s p.y = 0 ∨ s p.z = 0 then setPoint q r s
  else if s q.x = 0 ∧ s q.y = 0 ∨ s q.z = 0 then setPoint p r s
  else if s p.z = 1 ∧ s q.z = 1 then addZ1AndZ2EqualsOneAt p q r s
  else if s p.z = s q.z then addZ1EqualsZ2At p q r s
  else if s q.z = 1 then addZ2EqualsOneAt p q r s
  else addGenericAt p q r s

/-! ### The variables may be shared -/

section Load

variable {p q r : PointVars Var} {s : Var → K} (hr : r.Aligned r)

include hr

omit [Field K] [DecidableEq K] in
theorem load_update (a b c : K) : r.load (update (update (update s r.x a) r.y b) r.z c) = ⟨a, b, c⟩ := by
  simp only [PointVars.load, update_self, update_of_ne hr.xy, update_of_ne hr.xz, update_of_ne hr.yz]

omit [DecidableEq K] in
theorem load_setInfinity : r.load (setInfinity r s) = infinity :=
  load_update hr 0 0 0

variable (hp : p.Aligned r)

include hp

omit [Field K] [DecidableEq K] in
theorem load_setPoint : r.load (setPoint p r s) = p.load s := by
  rw [setPoint, load_update hr, update_of_ne hp.yx, update_of_ne hp.zy, update_of_ne hp.zx, PointVars.load]

omit [DecidableEq K] in
theorem load_doubleXY (z : K) :
    r.load (doubleXY p r (update s r.z z)) = { doubleGeneric (p.load s) with z := z } := by
  simp only [PointVars.load, doubleXY, doubleGeneric, update_self, update_of_ne hp.xz, update_of_ne hp.yz,
    update_of_ne hr.xy, update_of_ne hr.xz.symm, update_of_ne hr.yz.symm, JacobianPoint.mk.injEq, and_true]
  constructor
  · ring
  · ring

theorem load_doubleJacobianAt : r.load (doubleJacobianAt p r s) = doubleJacobian (p.load s) := by
  have hone : r.load (doubleZ1EqualsOneAt p r s) = doubleZ1EqualsOne (p.load s) := by
    rw [doubleZ1EqualsOneAt, load_doubleXY hr hp, mul_comm]
    rfl
  have hgeneric : r.load (doubleGenericAt p r s) = doubleGeneric (p.load s) := by
    rw [doubleGenericAt, load_doubleXY hr hp, mul_comm]
    rfl
  rw [doubleJacobianAt, apply_ite r.load, apply_ite r.load, hone, hgeneric, load_setInfinity hr]
  rfl

theorem load_branches {u₁ u₂ s₁ s₂ : K} {stored : Var → K} {sum : JacobianPoint K} (hsum : r.load stored = sum) :
    r.load (if u₁ = u₂ then if s₁ = s₂ then doubleJacobianAt p r s else setInfinity r s else stored) =
      if u₁ = u₂ then if s₁ = s₂ then doubleJacobian (p.load s) else infinity else sum := by
  rw [apply_ite r.load, apply_ite r.load, load_doubleJacobianAt hr hp, load_setInfinity hr, hsum]

theorem load_addZ1AndZ2EqualsOneAt :
    r.load (addZ1AndZ2EqualsOneAt p q r s) = addZ1AndZ2EqualsOne (p.load s) (q.load s) := by
  refine load_branches hr hp ?_
  simp only [PointVars.load, update_self, update_of_ne hr.xy, update_of_ne hr.xz, update_of_ne hr.yz,
    update_of_ne hp.yx, JacobianPoint.mk.injEq]
  refine ⟨?_, ?_, ?_⟩ <;> ring

theorem load_addZ1EqualsZ2At : r.load (addZ1EqualsZ2At p q r s) = addZ1EqualsZ2 (p.load s) (q.load s) := by
  refine load_branches hr hp ?_
  simp only [PointVars.load, update_self, update_of_ne hr.xy, update_of_ne hr.xz, update_of_ne hr.yz,
    update_of_ne hp.yx, update_of_ne hp.zx, update_of_ne hp.zy, JacobianPoint.mk.injEq]
  refine ⟨?_, ?_, ?_⟩ <;> ring

theorem load_addZ2EqualsOneAt : r.load (addZ2EqualsOneAt p q r s) = addZ2EqualsOne (p.load s) (q.load s) := by
  refine load_branches hr hp ?_
  simp only [PointVars.load, update_self, update_of_ne hr.xy, update_of_ne hr.xz, update_of_ne hr.yz,
    update_of_ne hp.yx, update_of_ne hp.zx, update_of_ne hp.zy, JacobianPoint.mk.injEq]
  refine ⟨?_, ?_, ?_⟩ <;> ring

variable (hq : q.Aligned r)

include hq

theorem load_addGenericAt : r.load (addGenericAt p q r s) = addGeneric (p.load s) (q.load s) := by
  refine load_branches hr hp ?_
  simp only [PointVars.load, update_self, update_of_ne hr.xy, update_of_ne hr.xz, update_of_ne hr.yz,
    update_of_ne hp.zx, update_of_ne hp.zy, update_of_ne hq.zx, update_of_ne hq.zy, JacobianPoint.mk.injEq]
  refine ⟨?_, ?_, ?_⟩ <;> ring

theorem load_addJacobianAt : r.load (addJacobianAt p q r s) = addJacobian (p.load s) (q.load s) := by
  rw [addJacobianAt, apply_ite r.load, apply_ite r.load, apply_ite r.load, apply_ite r.load, apply_ite r.load,
    load_setPoint hr hq, load_setPoint hr hp, load_addZ1AndZ2EqualsOneAt hr hp, load_addZ1EqualsZ2At hr hp,
    load_addZ2EqualsOneAt hr hp, load_addGenericAt hr hp hq]
  rfl

end Load

end InPlace

end KoblitzCurve

end Prova
