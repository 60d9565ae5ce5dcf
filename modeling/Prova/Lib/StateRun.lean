import Prova.Lib.Checked

/-!
# Runs of a state monad that keeps its state on failure

The lemmas read a successful run of an `EStateM` computation back as the successful runs of its
parts, in the same way as those for `Except`.
-/

namespace Prova

variable {ε σ α β : Type}

/-- The value a run returned, if it did not fail. -/
def okValue : EStateM.Result ε σ α → Option α
  | .ok a _ => some a
  | .error _ _ => none

/-- The state at the end of a run, whether it failed or not. -/
def endState : EStateM.Result ε σ α → σ
  | .ok _ s => s
  | .error _ s => s

theorem eq_ok_of_okValue {r : EStateM.Result ε σ α} {a : α} (h : okValue r = some a) : r = .ok a (endState r) := by
  cases r with
  | ok b s =>
    cases h
    rfl
  | error e s => cases h

theorem run_bind_eq_ok {x : EStateM ε σ α} {f : α → EStateM ε σ β} {s t : σ} {b : β} :
    (x >>= f) s = .ok b t ↔ ∃ a m, x s = .ok a m ∧ f a m = .ok b t := by
  change EStateM.bind x f s = .ok b t ↔ _
  unfold EStateM.bind
  cases hx : x s with
  | ok a m =>
    constructor
    · intro h
      exact ⟨a, m, rfl, h⟩
    · rintro ⟨a', m', heq, h⟩
      cases heq
      exact h
  | error e m =>
    constructor
    · intro h
      cases h
    · rintro ⟨a', m', heq, -⟩
      cases heq

@[simp] theorem run_pure_eq_ok {a b : α} {s t : σ} : (pure a : EStateM ε σ α) s = .ok b t ↔ a = b ∧ s = t := by
  constructor
  · intro h
    cases h
    exact ⟨rfl, rfl⟩
  · rintro ⟨rfl, rfl⟩
    rfl

@[simp] theorem run_throw_eq_ok {e : ε} {b : α} {s t : σ} : (throw e : EStateM ε σ α) s = .ok b t ↔ False := by
  constructor
  · intro h
    cases h
  · exact False.elim

theorem run_get_bind {f : σ → EStateM ε σ β} {s : σ} : ((get : EStateM ε σ σ) >>= f) s = f s s := rfl

theorem run_set_bind {f : PUnit → EStateM ε σ β} {s m : σ} : ((set m : EStateM ε σ PUnit) >>= f) s = f ⟨⟩ m := rfl

theorem run_modify_bind {g : σ → σ} {f : PUnit → EStateM ε σ β} {s : σ} :
    ((modify g : EStateM ε σ PUnit) >>= f) s = f ⟨⟩ (g s) := rfl

theorem run_map_eq_ok {x : EStateM ε σ α} {f : α → β} {s t : σ} {b : β} :
    (f <$> x) s = .ok b t ↔ ∃ a, x s = .ok a t ∧ f a = b := by
  change EStateM.map f x s = .ok b t ↔ _
  unfold EStateM.map
  cases hx : x s with
  | ok a m =>
    constructor
    · intro h
      cases h
      exact ⟨a, rfl, rfl⟩
    · rintro ⟨a', heq, rfl⟩
      cases heq
      rfl
  | error e m =>
    constructor
    · intro h
      cases h
    · rintro ⟨a', heq, -⟩
      cases heq

/-! ### Postconditions for success and for failure -/

/-- What holds of the result and the state of a run that succeeded, and of the state of one that failed. -/
def Yields (post : α → σ → Prop) (fail : σ → Prop) : EStateM.Result ε σ α → Prop
  | .ok a s => post a s
  | .error _ s => fail s

theorem Yields.bind {post : α → σ → Prop} {post' : β → σ → Prop} {fail : σ → Prop} {x : EStateM ε σ α}
    {f : α → EStateM ε σ β} {s : σ} (h : Yields post fail (x s))
    (hf : ∀ a t, post a t → Yields post' fail (f a t)) : Yields post' fail ((x >>= f) s) := by
  change Yields post' fail (EStateM.bind x f s)
  unfold EStateM.bind
  cases hx : x s with
  | ok a t =>
    rw [hx] at h
    exact hf a t h
  | error e t =>
    rw [hx] at h
    exact h

theorem Yields.mono {post post' : α → σ → Prop} {fail fail' : σ → Prop} {r : EStateM.Result ε σ α}
    (h : Yields post fail r) (hpost : ∀ a s, post a s → post' a s) (hfail : ∀ s, fail s → fail' s) :
    Yields post' fail' r := by
  cases r with
  | ok a s => exact hpost a s h
  | error e s => exact hfail s h

end Prova
