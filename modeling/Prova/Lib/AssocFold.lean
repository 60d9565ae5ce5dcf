import Mathlib.Data.List.AList

/-!
# Writing and erasing lists of keys

A finite map after one value was written under every key of a list, and after every key of a list was
erased.
-/

namespace Prova

variable {κ β : Type} [DecidableEq κ]

theorem lookup_foldl_insert (keys : List κ) (b : β) (m : AList fun _ : κ => β) (k : κ) :
    (keys.foldl (fun m k => m.insert k b) m).lookup k = if k ∈ keys then some b else m.lookup k := by
  induction keys generalizing m with
  | nil => rfl
  | cons key keys ih =>
    rw [List.foldl_cons, ih]
    by_cases hkey : k = key
    · subst hkey
      simp [AList.lookup_insert]
    · rw [AList.lookup_insert_ne hkey]
      simp [hkey]

theorem lookup_foldl_erase (keys : List κ) (m : AList fun _ : κ => β) (k : κ) :
    (keys.foldl (fun m k => m.erase k) m).lookup k = if k ∈ keys then none else m.lookup k := by
  induction keys generalizing m with
  | nil => rfl
  | cons key keys ih =>
    rw [List.foldl_cons, ih]
    by_cases hkey : k = key
    · subst hkey
      simp [AList.lookup_erase]
    · rw [AList.lookup_erase_ne hkey]
      simp [hkey]

end Prova
