import Mathlib.Data.List.Basic

/-!
# Folds in which the last write wins

A step of a fold may write a part of the state, with a value that depends on the step alone, or
leave it. After the whole fold the part holds what the last writer wrote, and folding the same list
once more changes nothing.
-/

namespace Prova

open List

variable {σ α β γ : Type}

/-- What the last writer in a list writes. -/
def lastWrite (w : α → Option β) (xs : List α) : Option β := (xs.filterMap w).getLast?

theorem lastWrite_append (w : α → Option β) (xs ys : List α) :
    lastWrite w (xs ++ ys) = (lastWrite w ys).or (lastWrite w xs) := by
  unfold lastWrite
  rw [filterMap_append, getLast?_append]

theorem lastWrite_cons (w : α → Option β) (x : α) (xs : List α) :
    lastWrite w (x :: xs) = (lastWrite w xs).or (w x) := by
  rw [← singleton_append, lastWrite_append]
  unfold lastWrite
  cases hx : w x <;> simp [hx]

theorem lastWrite_eq_none {w : α → Option β} {xs : List α} : lastWrite w xs = none ↔ ∀ x ∈ xs, w x = none := by
  unfold lastWrite
  rw [getLast?_eq_none_iff, filterMap_eq_nil_iff]

theorem exists_of_lastWrite {w : α → Option β} {xs : List α} {b : β}
    (h : lastWrite w xs = some b) : ∃ x ∈ xs, w x = some b :=
  mem_filterMap.mp (mem_of_getLast? h)

theorem lastWrite_flatMap (w : α → Option β) (g : γ → List α) (xs : List γ) :
    lastWrite w (xs.flatMap g) = lastWrite (fun x => lastWrite w (g x)) xs := by
  induction xs with
  | nil => rfl
  | cons x xs ih => rw [flatMap_cons, lastWrite_append, lastWrite_cons, ih]

variable {f : σ → α → σ} {w : α → Option β} {π : σ → β} {I : σ → Prop}

/-- The part of the state after a fold. The invariant is there for writes that need one. -/
theorem foldl_eq_lastWrite (hI : ∀ s x, I s → I (f s x))
    (hstep : ∀ s x, I s → π (f s x) = (w x).getD (π s)) {s : σ} (hs : I s) (xs : List α) :
    π (xs.foldl f s) = (lastWrite w xs).getD (π s) := by
  induction xs generalizing s with
  | nil => rfl
  | cons x xs ih =>
    rw [foldl_cons, ih (hI s x hs), hstep s x hs, lastWrite_cons]
    cases lastWrite w xs <;> rfl

end Prova
