import Prova.Lib.Bytes
import Prova.Lib.Checked

/-!
# Readers of byte strings

A reader takes a value off the front of a string and gives the rest. It reads a format if the strings it
takes are exactly those a writer makes of the values that fit.
-/

namespace Prova

variable {ε α β : Type} {p : α → Prop}

/-- `read` takes what `write` makes of the values with `p`, and nothing else. -/
def Reads (p : α → Prop) (read : Bytes → Except ε (α × Bytes)) (write : α → Bytes) : Prop :=
  ∀ r x rest, read r = .ok (x, rest) ↔ p x ∧ r = write x ++ rest

namespace Reads

variable {read : Bytes → Except ε (α × Bytes)} {write : α → Bytes}

theorem read_write (h : Reads p read write) {x : α} (hx : p x) (rest : Bytes) :
    read (write x ++ rest) = .ok (x, rest) := (h _ _ _).mpr ⟨hx, rfl⟩

/-- What follows a read sees the rest of the string. -/
theorem bind_eq_ok (h : Reads p read write) {k : α × Bytes → Except ε β} {r : Bytes} {y : β} :
    read r >>= k = .ok y ↔ ∃ x rest, p x ∧ r = write x ++ rest ∧ k (x, rest) = .ok y := by
  rw [Prova.bind_eq_ok]
  constructor
  · intro ⟨⟨x, rest⟩, hread, hk⟩
    obtain ⟨hx, hr⟩ := (h _ _ _).mp hread
    exact ⟨x, rest, hx, hr, hk⟩
  · intro ⟨x, rest, hx, hr, hk⟩
    exact ⟨(x, rest), (h _ _ _).mpr ⟨hx, hr⟩, hk⟩

end Reads

end Prova
