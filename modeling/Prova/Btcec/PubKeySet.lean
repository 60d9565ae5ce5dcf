import Prova.Btcec.PubKey
import Mathlib.Data.List.Nodup

/-!
# Admin key sets (`btcec/pubkeyset.go`)

A set is a slice of keys. `Add` appends a key that is not there yet, `Remove` swaps the key at a
position with the last one and cuts the slice. As sets these are insertion and deletion, and they
keep a duplicate-free slice duplicate-free.
-/

namespace Prova

open List

variable {key : PublicKey}

inductive KeySetType
  | root
  | provision
  | issue
  | validate
  | asp
deriving DecidableEq, Repr

abbrev PublicKeySet := List PublicKey

namespace PublicKeySet

/-- `Pos`: the position of a key, `none` for the source's `-1`. -/
def pos (set : PublicKeySet) (key : PublicKey) : Option Nat := set.findIdx? (·.isEqual key)

def add (set : PublicKeySet) (key : PublicKey) : PublicKeySet :=
  if set.pos key = none then set ++ [key] else set

/-- `Remove`: the element at the position changes places with the last one, which is cut off. -/
def remove (set : PublicKeySet) : Option Nat → PublicKeySet
  | none => set
  | some i =>
    if h : i < set.length then
      (set.set i (set.getLast (List.ne_nil_of_length_pos (by omega)))).dropLast
    else set

theorem pos_eq_none {set : PublicKeySet} : set.pos key = none ↔ key ∉ set := by
  simp only [pos, findIdx?_eq_none_iff, Bool.eq_false_iff, ne_eq, PublicKey.isEqual_iff]
  constructor
  · intro h hmem
    exact h key hmem rfl
  · rintro h k hk rfl
    exact h hk

theorem pos_eq_some {set : PublicKeySet} {i : Nat} (h : set.pos key = some i) :
    ∃ hi : i < set.length, set[i] = key := by
  simp only [pos, findIdx?_eq_some_iff_getElem, PublicKey.isEqual_iff] at h
  exact ⟨h.1, h.2.1⟩

theorem mem_add {set : PublicKeySet} {k : PublicKey} : k ∈ set.add key ↔ k ∈ set ∨ k = key := by
  unfold add
  split
  · simp
  · next h =>
    rw [pos_eq_none, not_not] at h
    constructor
    · exact Or.inl
    · rintro (hk | rfl)
      · exact hk
      · exact h

theorem nodup_add {set : PublicKeySet} (h : set.Nodup) : (set.add key).Nodup := by
  unfold add
  split
  · next hpos =>
    rw [pos_eq_none] at hpos
    exact nodup_append.mpr ⟨h, nodup_singleton key, by
      intro a ha b hb
      rw [mem_singleton] at hb
      subst hb
      exact fun heq => hpos (heq ▸ ha)⟩
  · exact h

theorem remove_some_perm {set : PublicKeySet} {i : Nat} (hi : i < set.length) :
    (set[i] :: set.remove (some i)).Perm set := by
  obtain ⟨init, last, rfl⟩ : ∃ init last, set = init ++ [last] :=
    ⟨set.dropLast, set.getLast (ne_nil_of_length_pos (by omega)),
      (dropLast_append_getLast _).symm⟩
  rw [remove, dif_pos hi]
  simp only [getLast_append, isEmpty_cons, Bool.false_eq_true, dite_false, getLast_singleton]
  rcases Nat.lt_or_ge i init.length with hlt | hge
  · rw [getElem_append_left hlt, set_append_left _ _ hlt, dropLast_concat]
    calc init[i] :: init.set i last
        _ |>.Perm (init[i] :: last :: init.eraseIdx i) :=
          (set_perm_cons_eraseIdx hlt last).cons _
        _ |>.Perm (last :: init[i] :: init.eraseIdx i) := List.Perm.swap _ _ _
        _ |>.Perm (last :: init) := (getElem_cons_eraseIdx_perm hlt).cons _
        _ |>.Perm (init ++ [last]) := (perm_append_singleton last init).symm
  · have hlast : i = init.length := by
      simp only [length_append, length_singleton] at hi
      omega
    subst hlast
    simp [set_append_right, perm_append_singleton last init |>.symm]

/-- `Remove(Pos(key))`, the revocation of a key. -/
def revoke (set : PublicKeySet) (key : PublicKey) : PublicKeySet := set.remove (set.pos key)

theorem revoke_of_notMem {set : PublicKeySet} (h : key ∉ set) : set.revoke key = set := by
  rw [revoke, pos_eq_none.mpr h, remove]

theorem revoke_perm_of_mem {set : PublicKeySet} (h : key ∈ set) : (key :: set.revoke key).Perm set := by
  cases hpos : set.pos key with
  | none => exact absurd h (pos_eq_none.mp hpos)
  | some i =>
    obtain ⟨hi, hkey⟩ := pos_eq_some hpos
    have hperm := remove_some_perm hi
    rwa [hkey, ← hpos] at hperm

theorem mem_revoke_of_ne {set : PublicKeySet} {k : PublicKey} (hne : k ≠ key) : k ∈ set.revoke key ↔ k ∈ set := by
  by_cases h : key ∈ set
  · rw [← (revoke_perm_of_mem h).mem_iff, mem_cons]
    simp [hne]
  · rw [revoke_of_notMem h]

theorem nodup_revoke {set : PublicKeySet} (h : set.Nodup) : (set.revoke key).Nodup := by
  by_cases hmem : key ∈ set
  · exact (nodup_cons.mp ((revoke_perm_of_mem hmem).nodup_iff.mpr h)).2
  · rwa [revoke_of_notMem hmem]

theorem mem_revoke {set : PublicKeySet} {k : PublicKey} (h : set.Nodup) : k ∈ set.revoke key ↔ k ∈ set ∧ k ≠ key := by
  by_cases hk : k = key
  · subst hk
    simp only [ne_eq, not_true_eq_false, and_false, iff_false]
    by_cases hmem : k ∈ set
    · exact (nodup_cons.mp ((revoke_perm_of_mem hmem).nodup_iff.mpr h)).1
    · rwa [revoke_of_notMem hmem]
  · rw [mem_revoke_of_ne hk]
    simp [hk]

end PublicKeySet

end Prova
