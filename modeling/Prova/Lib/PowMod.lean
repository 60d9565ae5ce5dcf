import Mathlib.NumberTheory.LucasPrimality
import Mathlib.Algebra.BigOperators.Associated
import Mathlib.Tactic.NormNum.Prime

/-!
# Modular exponentiation and Lucas certificates

Square-and-multiply on a fixed number of exponent bits, structurally recursive so that the kernel
runs it on 256-bit numbers, and Lucas's primality test read off it: a number is prime once a witness
of full order and the prime factors of its predecessor are known. A chain of such certificates, each
for numbers the ones before it rest on, is checked at once.
-/

namespace Prova

/-- The loop of square-and-multiply: `acc * b ^ e`, reduced modulo `m`, over `bits` exponent bits. -/
def powModLoop (m : Nat) : Nat → Nat → Nat → Nat → Nat
  | 0, acc, _, _ => acc
  | bits + 1, acc, b, e =>
    powModLoop m bits (if e % 2 = 1 then acc * b % m else acc) (b * b % m) (e / 2)

/-- `b ^ e % m`, for an exponent below `2 ^ 256`. -/
def powMod (b e m : Nat) : Nat := powModLoop m 256 (1 % m) (b % m) e

theorem powModLoop_modEq (m : Nat) {bits e : Nat} (he : e < 2 ^ bits) (acc b : Nat) :
    powModLoop m bits acc b e ≡ acc * b ^ e [MOD m] := by
  induction bits generalizing acc b e with
  | zero =>
    have hzero : e = 0 := by simpa using he
    subst hzero
    rw [powModLoop, pow_zero, mul_one]
  | succ bits ih =>
    have hhalf : e / 2 < 2 ^ bits := by
      rw [pow_succ] at he
      omega
    have hsquare : (b * b % m) ^ (e / 2) ≡ b ^ (2 * (e / 2)) [MOD m] := by
      rw [pow_mul, pow_two]
      exact (Nat.mod_modEq _ _).pow _
    have hrest := ih hhalf (if e % 2 = 1 then acc * b % m else acc) (b * b % m)
    rw [powModLoop]
    refine hrest.trans ?_
    by_cases hodd : e % 2 = 1
    · have hexp : b ^ e = b * b ^ (2 * (e / 2)) := by
        rw [← pow_succ']
        congr 1
        omega
      rw [if_pos hodd, hexp, ← mul_assoc]
      exact (Nat.mod_modEq _ _).mul hsquare
    · have hexp : 2 * (e / 2) = e := by omega
      rw [if_neg hodd]
      rw [hexp] at hsquare
      exact (Nat.ModEq.refl _).mul hsquare

theorem powModLoop_lt {m : Nat} (hm : 0 < m) (bits : Nat) {acc : Nat} (hacc : acc < m) (b e : Nat) :
    powModLoop m bits acc b e < m := by
  induction bits generalizing acc b e with
  | zero => exact hacc
  | succ bits ih =>
    rw [powModLoop]
    apply ih
    split
    · exact Nat.mod_lt _ hm
    · exact hacc

theorem powMod_lt {m : Nat} (hm : 0 < m) (b e : Nat) : powMod b e m < m :=
  powModLoop_lt hm 256 (Nat.mod_lt _ hm) _ _

theorem powMod_modEq {e : Nat} (he : e < 2 ^ 256) (b m : Nat) : powMod b e m ≡ b ^ e [MOD m] := by
  refine (powModLoop_modEq m he _ _).trans ?_
  have hbase : (b % m) ^ e ≡ b ^ e [MOD m] := (Nat.mod_modEq b m).pow e
  simpa using (Nat.mod_modEq 1 m).mul hbase

theorem natCast_pow_eq_powMod {e : Nat} (he : e < 2 ^ 256) (b m : Nat) :
    (b : ZMod m) ^ e = (powMod b e m : ZMod m) := by
  rw [← Nat.cast_pow]
  exact (ZMod.natCast_eq_natCast_iff _ _ _).mpr (powMod_modEq he b m).symm

/-- Lucas's test: `a` has order `p - 1` modulo `p`, so `p` is prime. -/
theorem prime_of_powMod (p a : Nat) (factors : List Nat) (hp : 1 < p) (hbound : p < 2 ^ 256)
    (hfactors : ∀ q ∈ factors, q.Prime) (hprod : factors.prod = p - 1) (hfull : powMod a (p - 1) p = 1)
    (hpart : ∀ q ∈ factors, powMod a ((p - 1) / q) p ≠ 1) : p.Prime := by
  have : Fact (1 < p) := ⟨hp⟩
  have hone : ∀ x < p, ((x : Nat) : ZMod p) = 1 → x = 1 := by
    intro x hx h
    rw [← Nat.cast_one, ZMod.natCast_eq_natCast_iff', Nat.mod_eq_of_lt hx, Nat.mod_eq_of_lt hp] at h
    exact h
  refine lucas_primality p (a : ZMod p) ?_ ?_
  · rw [natCast_pow_eq_powMod (by omega), hfull, Nat.cast_one]
  · intro q hq hdvd heq
    rw [← hprod] at hdvd
    obtain ⟨f, hf, hqf⟩ := (Prime.dvd_prod_iff hq.prime).mp hdvd
    have hqeq : q = f := (Nat.prime_dvd_prime_iff_eq hq (hfactors f hf)).mp hqf
    subst hqeq
    have hle : (p - 1) / q ≤ p - 1 := Nat.div_le_self _ _
    rw [natCast_pow_eq_powMod (by omega)] at heq
    exact hpart q hf (hone _ (powMod_lt (by omega) _ _) heq)

/-! ### Chains of certificates -/

/-- Trial division from `d` on, by at most `fuel` numbers. -/
def noDivisorFrom (q : Nat) : Nat → Nat → Bool
  | 0, _ => false
  | fuel + 1, d => if q < d * d then true else q % d != 0 && noDivisorFrom q fuel (d + 1)

theorem not_dvd_of_noDivisorFrom {q fuel d m : Nat} (hbelow : ∀ k, 2 ≤ k → k < d → ¬ k ∣ q)
    (h : noDivisorFrom q fuel d = true) (hm : 2 ≤ m) (hsq : m * m ≤ q) : ¬ m ∣ q := by
  induction fuel generalizing d with
  | zero => cases h
  | succ fuel ih =>
    rw [noDivisorFrom] at h
    split_ifs at h with hlt
    · exact hbelow m hm (Nat.mul_self_lt_mul_self_iff.mp (lt_of_le_of_lt hsq hlt))
    · rw [Bool.and_eq_true, bne_iff_ne] at h
      refine ih (fun k hk hkd hdvd => ?_) h.2
      rcases Nat.lt_succ_iff_lt_or_eq.mp hkd with hkd | rfl
      · exact hbelow k hk hkd hdvd
      · exact h.1 (Nat.mod_eq_zero_of_dvd hdvd)

theorem prime_of_noDivisorFrom {q fuel : Nat} (hq : 2 ≤ q) (h : noDivisorFrom q fuel 2 = true) : q.Prime := by
  refine Nat.prime_def_le_sqrt.mpr ⟨hq, fun m hm hsq => ?_⟩
  refine not_dvd_of_noDivisorFrom (fun k hk hlt => ?_) h hm (Nat.le_sqrt.mp hsq)
  omega

/-- What Lucas's test needs: a number of full order modulo `p`, and the primes of `p - 1`. -/
structure Lucas where
  p : Nat
  a : Nat
  factors : List Nat

/-- The test, where the primes below 2^18 are found by trial division and the others are known. -/
def Lucas.Passes (known : List Nat) (c : Lucas) : Prop :=
  1 < c.p ∧ c.p < 2 ^ 256 ∧ c.factors.prod = c.p - 1 ∧ powMod c.a (c.p - 1) c.p = 1 ∧
    ∀ q ∈ c.factors, powMod c.a ((c.p - 1) / q) c.p ≠ 1 ∧
      (q ∈ known ∨ 2 ≤ q ∧ noDivisorFrom q 512 2 = true)

instance (known : List Nat) (c : Lucas) : Decidable (c.Passes known) := by
  unfold Lucas.Passes
  infer_instance

/-- Certificates that each rest on those after them. -/
def Certified : List Lucas → Prop
  | [] => True
  | c :: rest => c.Passes (rest.map Lucas.p) ∧ Certified rest

instance : (chain : List Lucas) → Decidable (Certified chain)
  | [] => .isTrue trivial
  | _ :: rest => @instDecidableAnd _ _ _ (instDecidableCertified rest)

theorem prime_of_certified {chain : List Lucas} (h : Certified chain) : ∀ c ∈ chain, c.p.Prime := by
  induction chain with
  | nil => exact fun c hc => absurd hc List.not_mem_nil
  | cons c rest ih =>
    obtain ⟨⟨hp, hbound, hprod, hfull, hpart⟩, hrest⟩ := h
    have hknown := ih hrest
    refine List.forall_mem_cons.mpr ⟨?_, hknown⟩
    refine prime_of_powMod c.p c.a c.factors hp hbound (fun q hq => ?_) hprod hfull fun q hq => (hpart q hq).1
    rcases (hpart q hq).2 with hmem | ⟨hq, hdiv⟩
    · obtain ⟨c', hc', rfl⟩ := List.mem_map.mp hmem
      exact hknown c' hc'
    · exact prime_of_noDivisorFrom hq hdiv

end Prova
