import Mathlib.Data.List.Basic

/-!
# Elements and what stands before them

A statement about every element of a list and the elements before it, as histories need it: what holds
of each entry, given everything that came earlier.
-/

namespace Prova

variable {α : Type}

/-- The statement holds of every element and the list before it. -/
def EachAfter (Q : List α → α → Prop) (xs : List α) : Prop :=
  ∀ before x after, xs = before ++ x :: after → Q before x

theorem EachAfter.nil {Q : List α → α → Prop} : EachAfter Q [] := by
  intro before x after h
  simp at h

theorem eachAfter_append {Q : List α → α → Prop} {xs ys : List α} :
    EachAfter Q (xs ++ ys) ↔ EachAfter Q xs ∧ EachAfter (fun before => Q (xs ++ before)) ys := by
  constructor
  · intro h
    refine ⟨fun before x after heq => ?_, fun before x after heq => ?_⟩
    · exact h before x (after ++ ys) (by simp [heq])
    · exact h (xs ++ before) x after (by simp [heq])
  · rintro ⟨hxs, hys⟩ before x after heq
    rcases List.append_eq_append_iff.mp heq with ⟨mid, rfl, hmid⟩ | ⟨mid, rfl, hmid⟩
    · exact hys mid x after hmid
    · cases mid with
      | nil => simpa using hys [] x after (by simpa using hmid.symm)
      | cons y mid =>
        cases hmid
        exact hxs before x mid rfl

theorem eachAfter_singleton {Q : List α → α → Prop} {x : α} : EachAfter Q [x] ↔ Q [] x := by
  constructor
  · intro h
    exact h [] x [] rfl
  · intro h before y after heq
    obtain ⟨rfl, rfl⟩ : before = [] ∧ x = y := by
      cases before with
      | nil => exact ⟨rfl, (List.cons.inj heq).1⟩
      | cons z zs => simp at heq
    exact h

theorem EachAfter.mono {Q R : List α → α → Prop} {xs : List α} (h : EachAfter Q xs)
    (hQR : ∀ before x, Q before x → R before x) : EachAfter R xs :=
  fun before x after heq => hQR before x (h before x after heq)

end Prova
