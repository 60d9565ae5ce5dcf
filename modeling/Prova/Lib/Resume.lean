import Mathlib.Data.List.Basic

/-!
# Computations under a lock that they give up on the way

A `LockM` computation runs on a shared state while it holds a lock. It can make changes that outlive a
crash (`commit`), and it can give the lock up and take it back later (`release`); in between other
computations may have changed the state. `Resume` is what such a run leaves after it has got as far as
it can without the lock; `Holds` is the rule for runs that keep it: what is true of every committed
state, which is what a crash leaves, and of the end.
-/

namespace Prova

/-- The run of a computation from a state in which it holds the lock. -/
inductive Resume (σ ε α : Type) where
  /-- It has ended. -/
  | done (s : σ) (r : Except ε α)
  /-- It has made a change that outlives a crash and goes on. -/
  | commit (s : σ) (rest : Resume σ ε α)
  /-- It has given up the lock and goes on from the state in which it gets it back. -/
  | release (s : σ) (next : σ → Resume σ ε α)

namespace Resume

variable {σ ε α β : Type}

def bind (f : α → σ → Resume σ ε β) : Resume σ ε α → Resume σ ε β
  | done s (.ok a) => f a s
  | done s (.error e) => done s (.error e)
  | commit s rest => commit s (bind f rest)
  | release s next => release s fun t => bind f (next t)

/-- The states committed before the lock is free again. -/
def commits : Resume σ ε α → List σ
  | done _ _ => []
  | commit s rest => s :: rest.commits
  | release _ _ => []

/-- The end of the run when nothing happens while the lock is given up. -/
def finish : Resume σ ε α → σ × Except ε α
  | done s r => (s, r)
  | commit _ rest => rest.finish
  | release s next => (next s).finish

end Resume

/-- A computation on a shared state that starts with the lock. -/
def LockM (σ ε α : Type) : Type := σ → Resume σ ε α

namespace LockM

variable {σ ε α : Type}

instance : Monad (LockM σ ε) where
  pure a := fun s => .done s (.ok a)
  bind m f := fun s => (m s).bind f

instance : MonadStateOf σ (LockM σ ε) where
  get := fun s => .done s (.ok s)
  set t := fun _ => .done t (.ok ⟨⟩)
  modifyGet f := fun s => .done (f s).2 (.ok (f s).1)

/-- What has been changed so far outlives a crash from here on. -/
def commit : LockM σ ε Unit := fun s => .commit s (.done s (.ok ()))

/-- Give up the lock and take it back. -/
def release : LockM σ ε Unit := fun s => .release s fun t => .done t (.ok ())

theorem get_bind {β : Type} (f : σ → LockM σ ε β) (s : σ) : ((get : LockM σ ε σ) >>= f) s = f s s := rfl

end LockM

/-! ### Computations that keep the lock -/

namespace Resume

variable {σ ε α β : Type} {P : σ → Prop} {Q : σ → Except ε α → Prop} {r : Resume σ ε α}

/-- A run that never gives up the lock: every committed state satisfies `P`, the state and the result
at its end satisfy `Q`. -/
def Holds (P : σ → Prop) (Q : σ → Except ε α → Prop) : Resume σ ε α → Prop
  | done s r => Q s r
  | commit s rest => P s ∧ Holds P Q rest
  | release _ _ => False

theorem Holds.bind {Q' : σ → Except ε β → Prop} {f : α → σ → Resume σ ε β} (h : r.Holds P Q)
    (hok : ∀ a s, Q s (.ok a) → (f a s).Holds P Q') (herror : ∀ e s, Q s (.error e) → Q' s (.error e)) :
    (r.bind f).Holds P Q' := by
  induction r with
  | done s r =>
    cases r with
    | ok a => exact hok a s h
    | error e => exact herror e s h
  | commit s rest ih => exact ⟨h.1, ih h.2⟩
  | release s next => exact h.elim

theorem Holds.mono {P' : σ → Prop} {Q' : σ → Except ε α → Prop} (h : r.Holds P Q)
    (hP : ∀ s, P s → P' s) (hQ : ∀ s r, Q s r → Q' s r) : r.Holds P' Q' := by
  induction r with
  | done s r => exact hQ s r h
  | commit s rest ih => exact ⟨hP s h.1, ih h.2⟩
  | release s next => exact h.elim

theorem Holds.of_mem_commits {m : σ} (h : r.Holds P Q) (hm : m ∈ r.commits) : P m := by
  induction r with
  | done s r => cases hm
  | commit s rest ih =>
    rcases List.mem_cons.mp hm with rfl | hm
    · exact h.1
    · exact ih h.2 hm
  | release s next => exact h.elim

theorem Holds.finish (h : r.Holds P Q) : Q r.finish.1 r.finish.2 := by
  induction r with
  | done s r => exact h
  | commit s rest ih => exact ih h.2
  | release s next => exact h.elim

end Resume

end Prova
