import Prova.Lib.Checked

/-!
# Programs that work on a shared state through operations

An `OpProg` asks for operations one at a time and goes on with the answer. Several of them may work on
one state in any interleaving (`History`). Where every operation answers within a contract and keeps an
invariant of the state, a program that comes to the same result whatever the answers within the contract
are (`Computes`) comes to that result in every history.
-/

namespace Prova

/-- A program over the operations `ι`, where `ρ i` are the answers to `i`. -/
inductive OpProg (ι : Type) (ρ : ι → Type) (ε α : Type) where
  | done (r : Except ε α)
  | op (i : ι) (next : ρ i → OpProg ι ρ ε α)

namespace OpProg

variable {ι : Type} {ρ : ι → Type} {ε α β : Type}

def bind (f : α → OpProg ι ρ ε β) : OpProg ι ρ ε α → OpProg ι ρ ε β
  | done (.ok a) => f a
  | done (.error e) => done (.error e)
  | op i next => op i fun a => bind f (next a)

instance : Monad (OpProg ι ρ ε) where
  pure a := done (.ok a)
  bind p f := bind f p

instance : MonadLift (Except ε) (OpProg ι ρ ε) := ⟨done⟩

end OpProg

/-! ### Programs whose result does not depend on the answers -/

section Computes

variable {ι : Type} {ρ : ι → Type} {ε α β : Type}

/-- What may be asked for and what may be answered. -/
structure Contract (ι : Type) (ρ : ι → Type) where
  pre : ι → Prop
  post : ∀ i, ρ i → Prop

variable {d : Contract ι ρ}

/-- The program keeps to the contract and comes to a fixed result whatever it is answered within it. -/
def Computes (d : Contract ι ρ) (x : Except ε α) : OpProg ι ρ ε α → Prop
  | .done r => r = x
  | .op i next => d.pre i ∧ ∀ a, d.post i a → Computes d x (next a)

namespace Computes

theorem bind {p : OpProg ι ρ ε α} {x : Except ε α} {f : α → OpProg ι ρ ε β} {g : α → Except ε β}
    (hp : Computes d x p) (hf : ∀ a, x = .ok a → Computes d (g a) (f a)) : Computes d (x >>= g) (p >>= f) := by
  induction p with
  | done r =>
    obtain rfl : r = x := hp
    cases r with
    | ok a => exact hf a rfl
    | error e => exact rfl
  | op i next ih => exact ⟨hp.1, fun a ha => ih a (hp.2 a ha)⟩

theorem ok_bind {p : OpProg ι ρ ε α} {a : α} {x : Except ε β} {f : α → OpProg ι ρ ε β}
    (hp : Computes d (.ok a) p) (hf : Computes d x (f a)) : Computes d x (p >>= f) :=
  bind (x := .ok a) (g := fun _ => x) hp fun b hb => by
    cases hb
    exact hf

theorem lift_bind {x : Except ε α} {f : α → OpProg ι ρ ε β} {g : α → Except ε β}
    (hf : ∀ a, x = .ok a → Computes d (g a) (f a)) : Computes d (x >>= g) ((liftM x : OpProg ι ρ ε α) >>= f) :=
  bind (p := .done x) rfl hf

/-- A run of steps over a list, each of which computes what a step without operations does. -/
theorem foldlM {σ : Type} {f : σ → α → OpProg ι ρ ε σ} {g : σ → α → Except ε σ} (P : σ → Prop)
    (hstep : ∀ s x, P s → Computes d (g s x) (f s x)) (hkeep : ∀ s x t, P s → g s x = .ok t → P t)
    (xs : List α) {s : σ} (hs : P s) : Computes d (xs.foldlM g s) (xs.foldlM f s) := by
  induction xs generalizing s with
  | nil => exact rfl
  | cons x xs ih =>
    rw [List.foldlM_cons, List.foldlM_cons]
    exact (hstep s x hs).bind fun t ht => ih (hkeep s x t hs ht)

end Computes

end Computes

/-! ### Histories -/

section History

variable {σ τ ι : Type} {ρ : ι → Type} {ε α : Type}

/-- The shared state and the jobs that were started, each with what is left of its program. -/
structure OpPool (σ τ ι : Type) (ρ : ι → Type) (ε α : Type) where
  state : σ
  jobs : List (τ × OpProg ι ρ ε α)

variable (step : σ → (i : ι) → ρ i → σ → Prop) (prog : τ → OpProg ι ρ ε α) (init : σ)

/-- What can come about when jobs are started at any time and their operations interleave. -/
inductive History : OpPool σ τ ι ρ ε α → Prop
  | start : History ⟨init, []⟩
  | begin {s : σ} {jobs : List (τ × OpProg ι ρ ε α)} (t : τ) :
      History ⟨s, jobs⟩ → History ⟨s, (t, prog t) :: jobs⟩
  | perform {s s' : σ} {before after : List (τ × OpProg ι ρ ε α)} {t : τ} {i : ι}
      {next : ρ i → OpProg ι ρ ε α} {a : ρ i} :
      History ⟨s, before ++ (t, .op i next) :: after⟩ → step s i a s' →
        History ⟨s', before ++ (t, next a) :: after⟩

/-- A program left to itself comes to a result. -/
inductive Finishes : σ → OpProg ι ρ ε α → σ → Except ε α → Prop
  | done {s : σ} {r : Except ε α} : Finishes s (.done r) s r
  | op {s s' s'' : σ} {i : ι} {next : ρ i → OpProg ι ρ ε α} {a : ρ i} {r : Except ε α} :
      step s i a s' → Finishes s' (next a) s'' r → Finishes s (.op i next) s'' r

variable {step prog init}

/-- A job of a history can be left to itself until it is done. -/
theorem History.finish {s s' : σ} {p : OpProg ι ρ ε α} {r : Except ε α} (hp : Finishes step s p s' r)
    {before after : List (τ × OpProg ι ρ ε α)} {t : τ} (h : History step prog init ⟨s, before ++ (t, p) :: after⟩) :
    History step prog init ⟨s', before ++ (t, .done r) :: after⟩ := by
  induction hp with
  | done => exact h
  | op hstep _ ih => exact ih (h.perform hstep)

variable {d : Contract ι ρ} {inv : σ → Prop} {x : τ → Except ε α}

/-- In every history the invariant holds and every job is on the way to its result. -/
theorem History.computes (hinit : inv init) (hstep : ∀ s i a s', inv s → d.pre i → step s i a s' → inv s' ∧ d.post i a)
    (hprog : ∀ t, Computes d (x t) (prog t)) {pool : OpPool σ τ ι ρ ε α} (h : History step prog init pool) :
    inv pool.state ∧ ∀ job ∈ pool.jobs, Computes d (x job.1) job.2 := by
  induction h with
  | start => exact ⟨hinit, fun job hjob => by cases hjob⟩
  | begin t _ ih => exact ⟨ih.1, List.forall_mem_cons.mpr ⟨hprog t, ih.2⟩⟩
  | @perform s s' before after t i next a _ hperform ih =>
    obtain ⟨hinv, hjobs⟩ := ih
    obtain ⟨hpre, hnext⟩ : Computes d (x t) (.op i next) := hjobs (t, .op i next) (by simp)
    obtain ⟨hinv', hpost⟩ := hstep s i a s' hinv hpre hperform
    refine ⟨hinv', fun job hjob => ?_⟩
    rw [List.mem_append, List.mem_cons] at hjob
    rcases hjob with hjob | rfl | hjob
    · exact hjobs job (by simp [hjob])
    · exact hnext a hpost
    · exact hjobs job (by simp [hjob])

/-- A program that computes a result comes to it when it is left to itself. -/
theorem Computes.finishes (hstep : ∀ s i a s', inv s → d.pre i → step s i a s' → inv s' ∧ d.post i a)
    (htotal : ∀ s i, inv s → d.pre i → ∃ a s', step s i a s') {p : OpProg ι ρ ε α} {r : Except ε α}
    (hp : Computes d r p) {s : σ} (hs : inv s) : ∃ s', Finishes step s p s' r := by
  induction p generalizing s with
  | done r' =>
    obtain rfl : r' = r := hp
    exact ⟨s, .done⟩
  | op i next ih =>
    obtain ⟨a, s', hperform⟩ := htotal s i hs hp.1
    obtain ⟨hs', hpost⟩ := hstep s i a s' hs hp.1 hperform
    obtain ⟨s'', hfinish⟩ := ih a (hp.2 a hpost) hs'
    exact ⟨s'', .op hperform hfinish⟩

end History

end Prova
