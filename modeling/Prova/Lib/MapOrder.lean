import Mathlib.Data.List.Basic

/-!
# The order in which a map is walked

A loop over a hash map visits its entries in an order that the program does not control. A
computation that depends on the order takes one as a parameter: what it does is known only if it is
known for every order.
-/

namespace Prova

/-- An order for the entries of every map. -/
structure MapOrder where
  arrange : ∀ {α : Type}, List α → List α
  perm : ∀ {α : Type} (l : List α), (arrange l).Perm l

namespace MapOrder

def kept : MapOrder := ⟨fun l => l, fun l => List.Perm.refl l⟩

def reversed : MapOrder := ⟨fun l => l.reverse, fun l => l.reverse_perm⟩

end MapOrder

end Prova
