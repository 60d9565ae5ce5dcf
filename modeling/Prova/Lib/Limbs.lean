import Mathlib.Data.Nat.Digits.Defs
import Mathlib.Tactic.Ring

/-!
# Arithmetic on words with delayed carries

A large number is a list of words, its digits in a base that leaves the words some room. The words of a
product or of a sum are first collected in columns, one for each power of the base, and then the carry
goes through the columns once. A column is a list of terms and a term a list of factors, so that the
operations a machine does on them are those of the source, in its order.

Machine arithmetic is tracked: the result is what the machine computes, and a flag next to it tells
whether an operation has wrapped around on the way.
-/

/-- The result of a machine computation, and whether an operation wrapped around. -/
structure Tracked (α : Type) where
  val : α
  wrapped : Bool
deriving DecidableEq

namespace Tracked

variable {α β : Type}

instance : Monad Tracked where
  pure a := ⟨a, false⟩
  bind x f := ⟨(f x.val).val, x.wrapped || (f x.val).wrapped⟩

instance : LawfulMonad Tracked := LawfulMonad.mk' Tracked
  (fun x => by cases x; simp [Functor.map]) (fun _ _ => rfl) (fun x f g => by simp [Bind.bind, Bool.or_assoc])

/-- A result of an operation on words of `w` bits. -/
def word (w x : Nat) : Tracked Nat := ⟨x % 2 ^ w, decide (2 ^ w ≤ x)⟩

theorem word_of_lt {w x : Nat} (h : x < 2 ^ w) : word w x = pure x := by
  unfold word
  rw [Nat.mod_eq_of_lt h, decide_eq_false (Nat.not_le.mpr h)]
  rfl

end Tracked

namespace Limbs

open List

open Tracked

def product (w : Nat) : List Nat → Tracked Nat
  | [] => pure 1
  | x :: xs => xs.foldlM (fun p y => word w (p * y)) x

/-- The terms of a column added to what was carried into it. -/
def columnSum (w : Nat) : Nat → List (List Nat) → Tracked Nat
  | m, [] => pure m
  | m, t :: ts => do
    let p ← product w t
    let m ← word w (m + p)
    columnSum w m ts

/-- The carry goes through the columns: the words below the base, and what is left of it. -/
def carry (w base : Nat) : Nat → List (List (List Nat)) → Tracked (List Nat × Nat)
  | m, [] => pure ([], m)
  | m, c :: cs => do
    let m ← columnSum w m c
    let (ts, out) ← carry w base (m >>> base) cs
    return ((m &&& (2 ^ base - 1)) :: ts, out)

def merge : List (List (List Nat)) → List (List (List Nat)) → List (List (List Nat))
  | [], ds => ds
  | cs, [] => cs
  | c :: cs, d :: ds => (c ++ d) :: merge cs ds

/-- The columns of a number, with its words multiplied by the factors. -/
def scaled (factors : List Nat) (a : List Nat) : List (List (List Nat)) := a.map fun x => [x :: factors]

/-- The columns of a product: in column `k` the terms `a i * b (k - i)`, by rising `i`. -/
def mulColumns : List Nat → List Nat → List (List (List Nat))
  | [], _ => []
  | x :: a, b => merge (b.map fun y => [[x, y]]) ([] :: mulColumns a b)

/-- The columns of a square, with the terms of two different words doubled. -/
def squareColumns : List Nat → List (List (List Nat))
  | [] => []
  | [x] => [[[x, x]]]
  | x :: y :: a =>
    merge ([[x, x]] :: (y :: a).map fun z => [[2, x, z]]) ([] :: [] :: squareColumns (y :: a))

example (a b c x y z : Nat) : mulColumns [a, b, c] [x, y, z] =
    [[[a, x]], [[a, y], [b, x]], [[a, z], [b, y], [c, x]], [[b, z], [c, y]], [[c, z]]] := rfl

example (a b c : Nat) : squareColumns [a, b, c] =
    [[[a, a]], [[2, a, b]], [[2, a, c], [b, b]], [[2, b, c]], [[c, c]]] := rfl

/-! ### The numbers columns stand for -/

def total (c : List (List Nat)) : Nat := (c.map List.prod).sum

@[simp] theorem total_nil : total [] = 0 := rfl

@[simp] theorem total_cons (t : List Nat) (c : List (List Nat)) : total (t :: c) = t.prod + total c := by
  simp [total]

@[simp] theorem total_append (c d : List (List Nat)) : total (c ++ d) = total c + total d := by
  simp [total]

def number (base : Nat) (cs : List (List (List Nat))) : Nat := Nat.ofDigits base (cs.map total)

variable {base : Nat}

@[simp] theorem number_nil : number base [] = 0 := rfl

@[simp] theorem number_cons (c : List (List Nat)) (cs : List (List (List Nat))) :
    number base (c :: cs) = total c + base * number base cs := by
  simp [number, Nat.ofDigits_cons]

theorem number_append (cs ds : List (List (List Nat))) :
    number base (cs ++ ds) = number base cs + base ^ cs.length * number base ds := by
  simp [number, Nat.ofDigits_append]

@[simp] theorem number_merge (cs ds : List (List (List Nat))) :
    number base (merge cs ds) = number base cs + number base ds := by
  induction cs generalizing ds with
  | nil => simp [merge]
  | cons c cs ih =>
    cases ds with
    | nil => simp [merge]
    | cons d ds =>
      rw [merge, number_cons, number_cons, number_cons, ih, total_append]
      ring

@[simp] theorem number_scaled (factors a : List Nat) :
    number base (scaled factors a) = Nat.ofDigits base a * factors.prod := by
  induction a with
  | nil => simp [scaled]
  | cons x a ih =>
    rw [scaled, map_cons, number_cons, ← scaled, ih, Nat.ofDigits_cons]
    simp only [total_cons, total_nil, prod_cons]
    ring

theorem number_map_pair (x : Nat) (b : List Nat) : number base (b.map fun y => [[x, y]]) = x * Nat.ofDigits base b := by
  induction b with
  | nil => simp
  | cons y b ih =>
    rw [map_cons, number_cons, ih, Nat.ofDigits_cons]
    simp only [total_cons, total_nil, prod_cons, prod_nil]
    ring

theorem number_mulColumns (a b : List Nat) :
    number base (mulColumns a b) = Nat.ofDigits base a * Nat.ofDigits base b := by
  induction a with
  | nil => simp [mulColumns]
  | cons x a ih =>
    rw [mulColumns, number_merge, number_cons, number_map_pair, ih, total_nil, Nat.ofDigits_cons]
    ring

theorem number_map_double (x : Nat) (b : List Nat) :
    number base (b.map fun y => [[2, x, y]]) = 2 * x * Nat.ofDigits base b := by
  induction b with
  | nil => simp
  | cons y b ih =>
    rw [map_cons, number_cons, ih, Nat.ofDigits_cons]
    simp only [total_cons, total_nil, prod_cons, prod_nil]
    ring

theorem number_squareColumns (a : List Nat) :
    number base (squareColumns a) = Nat.ofDigits base a * Nat.ofDigits base a := by
  induction a with
  | nil => simp [squareColumns]
  | cons x a ih =>
    cases a with
    | nil => simp [squareColumns]
    | cons y a =>
      have hcons : Nat.ofDigits base (x :: y :: a) = x + base * Nat.ofDigits base (y :: a) := Nat.ofDigits_cons
      rw [squareColumns, number_merge, number_cons, number_cons, number_cons, number_map_double, ih, total_nil, hcons]
      simp only [total_cons, total_nil, prod_cons, prod_nil]
      ring

/-! ### Bounds -/

theorem ofDigits_add_le {b d : Nat} {l : List Nat} (h : ∀ x ∈ l, x ≤ d) :
    Nat.ofDigits (b + 1) l * b + d ≤ d * (b + 1) ^ l.length := by
  induction l with
  | nil => simp
  | cons x l ih =>
    rw [forall_mem_cons] at h
    have hrest := ih h.2
    have hx : x * b ≤ d * b := Nat.mul_le_mul_right b h.1
    calc Nat.ofDigits (b + 1) (x :: l) * b + d
        = x * b + (b + 1) * (Nat.ofDigits (b + 1) l * b) + d := by
          rw [Nat.ofDigits_cons]
          ring
      _ ≤ (b + 1) * (Nat.ofDigits (b + 1) l * b + d) := by nlinarith
      _ ≤ (b + 1) * (d * (b + 1) ^ l.length) := Nat.mul_le_mul_left _ hrest
      _ = d * (b + 1) ^ (x :: l).length := by
          rw [length_cons]
          ring

/-- The largest number of a length is the one all of whose digits are the largest. -/
theorem ofDigits_add_one_eq_iff {b : Nat} (hb : 0 < b) {l : List Nat} (h : ∀ x ∈ l, x < b + 1) :
    Nat.ofDigits (b + 1) l + 1 = (b + 1) ^ l.length ↔ ∀ x ∈ l, x = b := by
  induction l with
  | nil => simp
  | cons x l ih =>
    rw [forall_mem_cons] at h ⊢
    rw [Nat.ofDigits_cons, length_cons, pow_succ, ← ih h.2]
    have hlt : Nat.ofDigits (b + 1) l < (b + 1) ^ l.length :=
      Nat.ofDigits_lt_base_pow_length (Nat.succ_lt_succ hb) h.2
    constructor
    · intro heq
      have hmax : Nat.ofDigits (b + 1) l + 1 = (b + 1) ^ l.length := by
        by_contra hne
        have hle : Nat.ofDigits (b + 1) l + 2 ≤ (b + 1) ^ l.length := by omega
        nlinarith
      rw [← hmax] at heq
      constructor
      · nlinarith
      · exact hmax
    · rintro ⟨rfl, hmax⟩
      rw [← hmax]
      ring

/-- The machine computes the terms of the column, and they are at most `C` together. -/
def Fits (w C : Nat) (c : List (List Nat)) : Prop :=
  (∀ t ∈ c, product w t = pure t.prod) ∧ total c ≤ C

variable {w : Nat}

theorem product_single (x : Nat) : product w [x] = pure [x].prod := by
  simp [product]

theorem product_pair {x y : Nat} (h : x * y < 2 ^ w) : product w [x, y] = pure [x, y].prod := by
  rw [product, foldlM_cons, word_of_lt h, pure_bind, foldlM_nil]
  simp

theorem product_triple {x y z : Nat} (hxy : x * y < 2 ^ w) (h : x * y * z < 2 ^ w) :
    product w [x, y, z] = pure [x, y, z].prod := by
  rw [product, foldlM_cons, word_of_lt hxy, pure_bind, foldlM_cons, word_of_lt h, pure_bind, foldlM_nil]
  simp [Nat.mul_assoc]

theorem fits_nil : Fits w 0 [] := ⟨forall_mem_nil _, Nat.le_refl _⟩

theorem Fits.mono {C D : Nat} {c : List (List Nat)} (h : Fits w C c) (hCD : C ≤ D) : Fits w D c :=
  ⟨h.1, h.2.trans hCD⟩

theorem Fits.append {C D : Nat} {c d : List (List Nat)} (hc : Fits w C c) (hd : Fits w D d) :
    Fits w (C + D) (c ++ d) := by
  refine ⟨fun t ht => ?_, by rw [total_append]; exact Nat.add_le_add hc.2 hd.2⟩
  rcases mem_append.mp ht with ht | ht
  · exact hc.1 t ht
  · exact hd.1 t ht

theorem fits_merge {C D : Nat} {cs ds : List (List (List Nat))} (hc : ∀ c ∈ cs, Fits w C c)
    (hd : ∀ d ∈ ds, Fits w D d) : ∀ c ∈ merge cs ds, Fits w (C + D) c := by
  induction cs generalizing ds with
  | nil => exact fun c hmem => (hd c hmem).mono (Nat.le_add_left _ _)
  | cons c cs ih =>
    cases ds with
    | nil => exact fun c hmem => (hc c hmem).mono (Nat.le_add_right _ _)
    | cons d ds =>
      rw [forall_mem_cons] at hc hd
      exact forall_mem_cons.mpr ⟨hc.1.append hd.1, ih hc.2 hd.2⟩

/-- Columns behind those that get something added. -/
theorem merge_append {cs ds : List (List (List Nat))} (h : ds.length ≤ cs.length)
    (es : List (List (List Nat))) : merge (cs ++ es) ds = merge cs ds ++ es := by
  induction cs generalizing ds with
  | nil =>
    obtain rfl := length_eq_zero_iff.mp (Nat.le_zero.mp h)
    cases es <;> rfl
  | cons c cs ih =>
    cases ds with
    | nil => rfl
    | cons d ds => simp only [cons_append, merge, ih (Nat.le_of_succ_le_succ h)]

theorem merge_concat {cs ds : List (List (List Nat))} (h : cs.length = ds.length) (c d : List (List Nat)) :
    merge (cs ++ [c]) (ds ++ [d]) = merge cs ds ++ [c ++ d] := by
  induction cs generalizing ds with
  | nil =>
    obtain rfl := length_eq_zero_iff.mp h.symm
    rfl
  | cons c' cs ih =>
    obtain ⟨d', ds, rfl⟩ := exists_cons_of_length_eq_add_one h.symm
    simp only [cons_append, merge, ih (Nat.succ.inj h)]

theorem length_merge (cs ds : List (List (List Nat))) : (merge cs ds).length = max cs.length ds.length := by
  induction cs generalizing ds with
  | nil => simp [merge]
  | cons c cs ih =>
    cases ds with
    | nil => simp [merge]
    | cons d ds => simp [merge, ih]

theorem fits_words {C : Nat} {a : List Nat} (ha : ∀ x ∈ a, x ≤ C) : ∀ c ∈ scaled [] a, Fits w C c := by
  intro c hc
  obtain ⟨x, hx, rfl⟩ := mem_map.mp hc
  exact ⟨forall_mem_singleton.mpr (product_single x), by simpa using ha x hx⟩

theorem fits_scaled {A k : Nat} {a : List Nat} (ha : ∀ x ∈ a, x ≤ A) (hw : A * k < 2 ^ w) :
    ∀ c ∈ scaled [k] a, Fits w (A * k) c := by
  intro c hc
  obtain ⟨x, hx, rfl⟩ := mem_map.mp hc
  have hle : x * k ≤ A * k := Nat.mul_le_mul_right k (ha x hx)
  exact ⟨forall_mem_singleton.mpr (product_pair (by omega)), by simpa using hle⟩

theorem fits_mulColumns {A B : Nat} {a b : List Nat} (ha : ∀ x ∈ a, x ≤ A) (hb : ∀ y ∈ b, y ≤ B)
    (hw : A * B < 2 ^ w) : ∀ c ∈ mulColumns a b, Fits w (A * B * a.length) c := by
  induction a with
  | nil => exact forall_mem_nil _
  | cons x a ih =>
    rw [forall_mem_cons] at ha
    have hfirst : ∀ c ∈ b.map fun y => [[x, y]], Fits w (A * B) c := by
      intro c hc
      obtain ⟨y, hy, rfl⟩ := mem_map.mp hc
      have hle : x * y ≤ A * B := Nat.mul_le_mul ha.1 (hb y hy)
      exact ⟨forall_mem_singleton.mpr (product_pair (by omega)), by simpa using hle⟩
    have hrest : ∀ c ∈ [] :: mulColumns a b, Fits w (A * B * a.length) c :=
      forall_mem_cons.mpr ⟨fits_nil.mono (Nat.zero_le _), ih ha.2⟩
    rw [mulColumns, length_cons, Nat.mul_add_one, Nat.add_comm]
    exact fits_merge hfirst hrest

theorem fits_squareColumns {A : Nat} {a : List Nat} (ha : ∀ x ∈ a, x ≤ A) (hA : 2 * A < 2 ^ w)
    (hw : 2 * A * A < 2 ^ w) : ∀ c ∈ squareColumns a, Fits w (2 * A * A * a.length) c := by
  induction a with
  | nil => exact forall_mem_nil _
  | cons x a ih =>
    rw [forall_mem_cons] at ha
    have hsquare : Fits w (2 * A * A) [[x, x]] := by
      have hle : x * x ≤ 2 * A * A := by nlinarith [Nat.mul_le_mul ha.1 ha.1]
      exact ⟨forall_mem_singleton.mpr (product_pair (by omega)), by simpa using hle⟩
    cases a with
    | nil => exact forall_mem_singleton.mpr (hsquare.mono (by simp))
    | cons y a =>
      have hfirst : ∀ c ∈ [[x, x]] :: (y :: a).map fun z => [[2, x, z]], Fits w (2 * A * A) c := by
        refine forall_mem_cons.mpr ⟨hsquare, fun c hc => ?_⟩
        obtain ⟨z, hz, rfl⟩ := mem_map.mp hc
        have hle : 2 * x * z ≤ 2 * A * A := Nat.mul_le_mul (Nat.mul_le_mul_left 2 ha.1) (ha.2 z hz)
        have hx := ha.1
        refine ⟨forall_mem_singleton.mpr (product_triple (by omega) (by omega)), ?_⟩
        simpa [Nat.mul_assoc] using hle
      have hrest : ∀ c ∈ [] :: [] :: squareColumns (y :: a), Fits w (2 * A * A * (y :: a).length) c :=
        forall_mem_cons.mpr ⟨fits_nil.mono (Nat.zero_le _),
          forall_mem_cons.mpr ⟨fits_nil.mono (Nat.zero_le _), ih ha.2⟩⟩
      have hlen : (x :: y :: a).length = (y :: a).length + 1 := rfl
      rw [squareColumns, hlen, Nat.mul_add_one, Nat.add_comm]
      exact fits_merge hfirst hrest

theorem length_mulColumns {a b : List Nat} (ha : a ≠ []) (hb : b ≠ []) :
    (mulColumns a b).length + 1 = a.length + b.length := by
  have hlen := length_pos_iff.mpr hb
  induction a with
  | nil => exact absurd rfl ha
  | cons x a ih =>
    rw [mulColumns, length_merge, length_map, length_cons, length_cons]
    cases a with
    | nil => simp [mulColumns]; omega
    | cons y a =>
      have := ih (cons_ne_nil y a); omega

theorem length_squareColumns {a : List Nat} (ha : a ≠ []) : (squareColumns a).length + 1 = a.length + a.length := by
  induction a with
  | nil => exact absurd rfl ha
  | cons x a ih =>
    cases a with
    | nil => rfl
    | cons y a =>
      have := ih (cons_ne_nil y a)
      simp only [squareColumns, length_merge, length_cons, length_map] at this ⊢
      omega

/-! ### The carry -/

theorem columnSum_eq {C m : Nat} {c : List (List Nat)} (h : Fits w C c) (hw : m + C < 2 ^ w) :
    columnSum w m c = pure (m + total c) := by
  obtain ⟨hterms, htotal⟩ := h
  replace hw : m + total c < 2 ^ w := by omega
  clear htotal
  induction c generalizing m with
  | nil => rfl
  | cons t c ih =>
    rw [forall_mem_cons] at hterms
    rw [total_cons] at hw ⊢
    rw [columnSum, hterms.1, pure_bind, word_of_lt (by omega), pure_bind, ih hterms.2 (by omega), Nat.add_assoc]

/-- The carry through columns of at most `C` stays below a bound `M` that it cannot leave, without
wrapping around. -/
theorem carry_eq (base : Nat) {C M m : Nat} {cs : List (List (List Nat))} (hfits : ∀ c ∈ cs, Fits w C c)
    (hw : M + C < 2 ^ w) (hM : (M + C) / 2 ^ base ≤ M) (hm : m ≤ M) :
    ∃ ts out, carry w base m cs = pure (ts, out) ∧ ts.length = cs.length ∧ (∀ t ∈ ts, t < 2 ^ base) ∧ out ≤ M ∧
      Nat.ofDigits (2 ^ base) ts + (2 ^ base) ^ cs.length * out = m + number (2 ^ base) cs := by
  induction cs generalizing m with
  | nil => exact ⟨[], m, rfl, rfl, forall_mem_nil _, hm, by simp⟩
  | cons c cs ih =>
    rw [forall_mem_cons] at hfits
    have htotal := hfits.1.2
    have hnext : (m + total c) >>> base ≤ M := by
      rw [Nat.shiftRight_eq_div_pow]
      exact (Nat.div_le_div_right (by omega)).trans hM
    obtain ⟨ts, out, hcarry, hlen, hts, hout, hvalue⟩ := ih hfits.2 hnext
    refine ⟨((m + total c) &&& (2 ^ base - 1)) :: ts, out, ?_, ?_, ?_, hout, ?_⟩
    · rw [carry, columnSum_eq hfits.1 (by omega), pure_bind, hcarry, pure_bind]
    · rw [length_cons, length_cons, hlen]
    · refine forall_mem_cons.mpr ⟨?_, hts⟩
      rw [Nat.and_two_pow_sub_one_eq_mod]
      exact Nat.mod_lt _ (Nat.two_pow_pos base)
    · rw [Nat.shiftRight_eq_div_pow] at hvalue
      rw [Nat.ofDigits_cons, number_cons, Nat.and_two_pow_sub_one_eq_mod, length_cons]
      have hdiv := Nat.mod_add_div (m + total c) (2 ^ base)
      calc (m + total c) % 2 ^ base + 2 ^ base * Nat.ofDigits (2 ^ base) ts +
            (2 ^ base) ^ (cs.length + 1) * out
          = (m + total c) % 2 ^ base +
            2 ^ base * (Nat.ofDigits (2 ^ base) ts + (2 ^ base) ^ cs.length * out) := by ring
        _ = (m + total c) % 2 ^ base + 2 ^ base * ((m + total c) / 2 ^ base) +
            2 ^ base * number (2 ^ base) cs := by
          rw [hvalue]
          ring
        _ = m + (total c + 2 ^ base * number (2 ^ base) cs) := by
          rw [hdiv]
          ring

end Limbs
