import Mathlib.Data.List.Forall2

/-!
# Checked computations

A check either rejects with an error or lets the computation go on, and a loop of checks stops at
the first rejection. The lemmas here read a successful computation back as the list of its
successful parts: a `bind` as its two halves, a `reject` as the negation of its condition, a loop
over a list as a statement about every element or as a run of one state after another.
-/

namespace Prova

open List

variable {ε α β σ : Type}

variable {x : Except ε α} {xs : List α} {c : Prop} {e : ε} {s t : σ} {f : σ → α → Except ε σ}

/-- Stop with the error when the condition holds. -/
def reject (c : Prop) [Decidable c] (e : ε) : Except ε Unit := if c then .error e else .ok ()

@[simp] theorem reject_eq_ok [Decidable c] {u : Unit} : reject c e = .ok u ↔ ¬ c := by
  unfold reject
  split <;> simp_all

@[simp] theorem reject_eq_error [Decidable c] {e' : ε} : reject c e = .error e' ↔ c ∧ e = e' := by
  unfold reject
  split <;> simp_all

theorem bind_eq_ok {f : α → Except ε β} {b : β} : (x >>= f) = .ok b ↔ ∃ a, x = .ok a ∧ f a = .ok b := by
  cases x with
  | error e =>
    constructor
    · intro h
      cases h
    · rintro ⟨a, ha, _⟩
      cases ha
  | ok a =>
    constructor
    · intro h
      exact ⟨a, rfl, h⟩
    · rintro ⟨a', ha, hf⟩
      cases ha
      exact hf

theorem bind_eq_error {f : α → Except ε β} : (x >>= f) = .error e ↔ x = .error e ∨ ∃ a, x = .ok a ∧ f a = .error e := by
  cases x with
  | error e' =>
    constructor
    · intro h
      cases h
      exact .inl rfl
    · rintro (h | ⟨a, ha, _⟩)
      · cases h
        rfl
      · cases ha
  | ok a =>
    constructor
    · intro h
      exact .inr ⟨a, rfl, h⟩
    · rintro (h | ⟨a', ha, hf⟩)
      · cases h
      · cases ha
        exact hf

theorem ok_bind {a : α} {f : α → Except ε β} : ((.ok a : Except ε α) >>= f) = f a := rfl

/-- A check that rejects with another error is passed on the way to an error. -/
theorem reject_bind_eq_error [Decidable c] {e' : ε} (h : e ≠ e') {f : Unit → Except ε β} :
    (reject c e >>= f) = .error e' ↔ ¬ c ∧ f () = .error e' := by
  rw [bind_eq_error, reject_eq_error]
  constructor
  · rintro (⟨-, he⟩ | ⟨⟨⟩, hc, hf⟩)
    · exact absurd he h
    · exact ⟨reject_eq_ok.mp hc, hf⟩
  · rintro ⟨hc, hf⟩
    exact .inr ⟨(), reject_eq_ok.mpr hc, hf⟩

theorem reject_bind_of_not [Decidable c] (h : ¬ c) {f : Unit → Except ε β} : (reject c e >>= f) = f () := by
  unfold reject
  rw [if_neg h]
  rfl

theorem reject_bind [Decidable c] {f : Unit → Except ε β} : (reject c e >>= f) = if c then .error e else f () := by
  unfold reject
  split_ifs <;> rfl

theorem reject_ne_error [Decidable c] {e' : ε} (h : e ≠ e') : reject c e ≠ .error e' :=
  fun hr => h (reject_eq_error.mp hr).2

theorem bind_ne_error {f : α → Except ε β} (hx : x ≠ .error e) (hf : ∀ a, f a ≠ .error e) : (x >>= f) ≠ .error e := by
  intro h
  rcases bind_eq_error.mp h with h | ⟨a, -, h⟩
  · exact hx h
  · exact hf a h

/-- Every result of the computation has the property. -/
def Ensures (x : Except ε α) (P : α → Prop) : Prop := ∀ a, x = .ok a → P a

theorem ensures_ok {P : α → Prop} {a : α} (h : P a) : Ensures (.ok a : Except ε α) P := by
  intro b hb
  cases hb
  exact h

theorem ensures_error {P : α → Prop} : Ensures (.error e : Except ε α) P := by
  intro b hb
  cases hb

theorem Ensures.bind {f : α → Except ε β} {P : α → Prop} {Q : β → Prop} (hx : Ensures x P)
    (hf : ∀ a, P a → Ensures (f a) Q) : Ensures (x >>= f) Q := by
  intro b hb
  obtain ⟨a, ha, hb⟩ := bind_eq_ok.mp hb
  exact hf a (hx a ha) b hb

/-- A part whose result does not matter. -/
theorem ensures_bind {f : α → Except ε β} {Q : β → Prop} (hf : ∀ a, Ensures (f a) Q) : Ensures (x >>= f) Q :=
  Ensures.bind (P := fun _ => True) (fun _ _ => trivial) fun a _ => hf a

/-- A computation that stops with one error only, at a part that does not stop with that error. -/
theorem exists_ok_of_bind {f : α → Except ε β} (hx : x ≠ .error e) (h : ∀ e', (x >>= f) = .error e' → e' = e) :
    ∃ a, x = .ok a ∧ ∀ e', f a = .error e' → e' = e := by
  cases x with
  | error e' => exact absurd (congrArg Except.error (h e' rfl)) hx
  | ok a => exact ⟨a, rfl, h⟩

theorem not_of_reject_bind [Decidable c] {e' : ε} {f : Unit → Except ε β} (hne : e ≠ e')
    (h : ∀ e₁, (reject c e >>= f) = .error e₁ → e₁ = e') : ¬ c ∧ ∀ e₁, f () = .error e₁ → e₁ = e' := by
  obtain ⟨⟨⟩, hc, hf⟩ := exists_ok_of_bind (reject_ne_error hne) h
  exact ⟨reject_eq_ok.mp hc, hf⟩

theorem exists_ok_of_isOk (h : x.isOk = true) : ∃ a, x = .ok a := by
  cases x with
  | error e => cases h
  | ok a => exact ⟨a, rfl⟩

theorem eq_ok_of_toOption {a : α} (h : x.toOption = some a) : x = .ok a := by
  cases x with
  | error e => cases h
  | ok b =>
    cases h
    rfl

/-- The form `do` blocks without a bound value elaborate to. -/
theorem bind_unit_eq_ok {x : Except ε Unit} {f : Unit → Except ε β} {b : β} :
    (x >>= f) = .ok b ↔ x = .ok () ∧ f () = .ok b := by
  rw [bind_eq_ok]
  constructor
  · rintro ⟨⟨⟩, hx, hf⟩
    exact ⟨hx, hf⟩
  · rintro ⟨hx, hf⟩
    exact ⟨(), hx, hf⟩

@[simp] theorem pure_eq_ok {a b : α} : (pure a : Except ε α) = .ok b ↔ a = b := by
  constructor
  · intro h
    cases h
    rfl
  · rintro rfl
    rfl

@[simp] theorem throw_eq_ok {b : β} : (throw e : Except ε β) = .ok b ↔ False := by
  constructor
  · intro h
    cases h
  · exact False.elim

theorem map_eq_ok {f : α → β} {b : β} : (f <$> x) = .ok b ↔ ∃ a, x = .ok a ∧ f a = b := by
  cases x with
  | error e =>
    constructor
    · intro h
      cases h
    · rintro ⟨a, ha, _⟩
      cases ha
  | ok a =>
    constructor
    · intro h
      cases h
      exact ⟨a, rfl, rfl⟩
    · rintro ⟨a', ha, hf⟩
      cases ha
      exact congrArg Except.ok hf

/-! ### Loops -/

theorem forM_eq_ok {f : α → Except ε Unit} {u : Unit} : forM xs f = .ok u ↔ ∀ x ∈ xs, f x = .ok () := by
  induction xs with
  | nil =>
    constructor
    · intro _ x hx
      cases hx
    · intro _
      rfl
  | cons x xs ih =>
    rw [forM_cons, bind_unit_eq_ok, ih]
    simp

theorem mapM_eq_ok {f : α → Except ε β} {ys : List β} :
    xs.mapM f = .ok ys ↔ List.Forall₂ (fun x y => f x = .ok y) xs ys := by
  induction xs generalizing ys with
  | nil =>
    rw [mapM_nil, pure_eq_ok, forall₂_nil_left_iff, eq_comm]
  | cons x xs ih =>
    rw [mapM_cons, bind_eq_ok, forall₂_cons_left_iff]
    refine exists_congr fun y => ?_
    rw [bind_eq_ok, ← exists_and_left]
    refine exists_congr fun zs => ?_
    rw [ih, pure_eq_ok, eq_comm (a := ys)]

theorem foldlM_cons_eq_ok {x : α} : (x :: xs).foldlM f s = .ok t ↔ ∃ m, f s x = .ok m ∧ xs.foldlM f m = .ok t := by
  rw [foldlM_cons, bind_eq_ok]

theorem foldlM_append_eq_ok {ys : List α} :
    (xs ++ ys).foldlM f s = .ok t ↔ ∃ m, xs.foldlM f s = .ok m ∧ ys.foldlM f m = .ok t := by
  rw [foldlM_append, bind_eq_ok]

/-- What every step keeps, every run keeps. -/
theorem foldlM_invariant (P : σ → Prop) (hstep : ∀ x ∈ xs, ∀ s t, P s → f s x = .ok t → P t)
    (hs : P s) (hrun : xs.foldlM f s = .ok t) : P t := by
  induction xs generalizing s with
  | nil =>
    cases hrun
    exact hs
  | cons x xs ih =>
    obtain ⟨m, hm, hrest⟩ := foldlM_cons_eq_ok.mp hrun
    exact ih (fun y hy => hstep y (mem_cons_of_mem x hy))
      (hstep x mem_cons_self s m hs hm) hrest

theorem foldlM_mem_ok (hrun : xs.foldlM f s = .ok t) : ∀ x ∈ xs, ∃ s t, f s x = .ok t := by
  induction xs generalizing s with
  | nil =>
    intro x hx
    cases hx
  | cons x xs ih =>
    obtain ⟨m, hm, hrest⟩ := foldlM_cons_eq_ok.mp hrun
    exact forall_mem_cons.mpr ⟨⟨s, m, hm⟩, ih hrest⟩

/-- A successful run of steps that each do what a pure step does. -/
theorem foldlM_eq_foldl {g : σ → α → σ} (hfg : ∀ x ∈ xs, ∀ s t, f s x = .ok t → t = g s x)
    (hrun : xs.foldlM f s = .ok t) : t = xs.foldl g s := by
  induction xs generalizing s with
  | nil =>
    cases hrun
    rfl
  | cons x xs ih =>
    obtain ⟨m, hm, hrest⟩ := foldlM_cons_eq_ok.mp hrun
    rw [foldl_cons, ← hfg x mem_cons_self s m hm]
    exact ih (fun y hy => hfg y (mem_cons_of_mem x hy)) hrest

theorem foldlM_eq_ok_foldl {g : σ → α → σ} (hfg : ∀ x ∈ xs, ∀ s, f s x = .ok (g s x)) :
    xs.foldlM f s = .ok (xs.foldl g s) := by
  induction xs generalizing s with
  | nil => rfl
  | cons x xs ih =>
    exact foldlM_cons_eq_ok.mpr ⟨g s x, hfg x mem_cons_self s, ih fun y hy => hfg y (mem_cons_of_mem x hy)⟩

/-- A loop over a part of the state. -/
theorem foldlM_proj {τ : Type} (π : σ → τ) {g : τ → α → Except ε τ}
    (hfg : ∀ x ∈ xs, ∀ s t, f s x = .ok t → g (π s) x = .ok (π t)) (hrun : xs.foldlM f s = .ok t) :
    xs.foldlM g (π s) = .ok (π t) := by
  induction xs generalizing s with
  | nil =>
    cases hrun
    rfl
  | cons x xs ih =>
    obtain ⟨m, hm, hrest⟩ := foldlM_cons_eq_ok.mp hrun
    exact foldlM_cons_eq_ok.mpr ⟨π m, hfg x mem_cons_self s m hm, ih (fun y hy => hfg y (mem_cons_of_mem x hy)) hrest⟩

/-- Two loops that agree on every step of a successful run agree on the run. -/
theorem foldlM_congr_of_ok {g : σ → α → Except ε σ}
    (hfg : ∀ x ∈ xs, ∀ s t, f s x = .ok t → g s x = .ok t) (hrun : xs.foldlM f s = .ok t) : xs.foldlM g s = .ok t := by
  induction xs generalizing s with
  | nil => exact hrun
  | cons x xs ih =>
    obtain ⟨m, hm, hrest⟩ := foldlM_cons_eq_ok.mp hrun
    exact foldlM_cons_eq_ok.mpr ⟨m, hfg x mem_cons_self s m hm, ih (fun y hy => hfg y (mem_cons_of_mem x hy)) hrest⟩

end Prova
