import Mathlib.Tactic

/-!
# Layers of changes over a map

A layer sets some keys, removes some others and leaves the rest to what lies below it. Layers compose:
reading through two of them is reading through one. A layer is often kept as two ordered maps, the
values to set and the keys to remove, and written to the map below by one loop over each; the lemmas
here say what these loops leave under every key.
-/

namespace Prova

open List

variable {κ β : Type}

/-- What a layer does to each key: `none` leaves it alone, `some none` removes it and `some (some v)`
sets it to `v`. -/
def Edits (κ β : Type) : Type := κ → Option (Option β)

namespace Edits

/-- The map as it is read through the layer. -/
def apply (e : Edits κ β) (m : κ → Option β) : κ → Option β := fun k => (e k).getD (m k)

/-- The layer `e` laid onto the layer `d`. -/
def onto (e d : Edits κ β) : Edits κ β := fun k => (e k).or (d k)

def none : Edits κ β := fun _ => Option.none

@[simp] theorem none_apply (m : κ → Option β) : (none : Edits κ β).apply m = m := rfl

theorem onto_apply (e d : Edits κ β) (m : κ → Option β) : (e.onto d).apply m = e.apply (d.apply m) := by
  funext k
  simp only [onto, apply]
  cases e k <;> rfl

/-- Writing a layer to the map below it does not change what is read through it. -/
theorem apply_apply (e : Edits κ β) (m : κ → Option β) : e.apply (e.apply m) = e.apply m := by
  funext k
  simp only [apply]
  cases e k <;> rfl

end Edits

section TreeMap

open Std Classical

variable {cmp : κ → κ → Ordering} [TransCmp cmp] [LawfulEqCmp cmp]

theorem getElem?_foldl_insert {γ : Type} (f : γ → β) {l : List (κ × γ)}
    (hl : l.Pairwise fun a b => ¬ cmp a.1 b.1 = .eq) (m : ExtTreeMap κ β cmp) {k : κ} {o : Option γ}
    (ho : ∀ v, (k, v) ∈ l ↔ o = some v) : (l.foldl (fun m e => m.insert e.1 (f e.2)) m)[k]? = (o.map f).or m[k]? := by
  induction l generalizing m o with
  | nil =>
    cases o with
    | none => rfl
    | some v => exact absurd ((ho v).mpr rfl) not_mem_nil
  | cons e l ih =>
    rw [pairwise_cons] at hl
    rw [foldl_cons]
    by_cases hk : e.1 = k
    · -- The key is set here and by no later entry.
      have hrest : ∀ v, (k, v) ∈ l ↔ (none : Option γ) = some v := by
        intro v
        refine ⟨fun hmem => absurd ?_ (hl.1 _ hmem), fun h => by cases h⟩
        simp [hk]
      have hset : o = some e.2 := (ho e.2).mp (by simp [← hk])
      rw [ih hl.2 _ hrest, hset, ExtTreeMap.getElem?_insert, if_pos (by simp [hk])]
      rfl
    · have hrest : ∀ v, (k, v) ∈ l ↔ o = some v := by
        intro v
        rw [← ho v, mem_cons]
        constructor
        · exact Or.inr
        · rintro (h | h)
          · exact absurd (congrArg Prod.fst h).symm hk
          · exact h
      rw [ih hl.2 _ hrest, ExtTreeMap.getElem?_insert, if_neg (by simpa using hk)]

theorem getElem?_foldl_insert_toList {γ : Type} (f : γ → β) (t : ExtTreeMap κ γ cmp) (m : ExtTreeMap κ β cmp) (k : κ) :
    (t.toList.foldl (fun m e => m.insert e.1 (f e.2)) m)[k]? = (t[k]?.map f).or m[k]? :=
  getElem?_foldl_insert f ExtTreeMap.distinct_keys_toList m
    fun _ => ExtTreeMap.mem_toList_iff_getElem?_eq_some

theorem getElem?_foldl_erase {γ : Type} (l : List (κ × γ)) (m : ExtTreeMap κ β cmp) (k : κ) {b : Bool}
    (hb : b = true ↔ ∃ e ∈ l, e.1 = k) :
    (l.foldl (fun m e => m.erase e.1) m)[k]? = if b then none else m[k]? := by
  induction l generalizing m b with
  | nil =>
    have hfalse : b = false := by simpa using hb
    simp [hfalse]
  | cons e l ih =>
    rw [foldl_cons, ih (b := decide (∃ e ∈ l, e.1 = k)) _ decide_eq_true_iff, ExtTreeMap.getElem?_erase]
    by_cases hk : e.1 = k
    · simp [hb.mpr ⟨e, mem_cons_self, hk⟩, hk]
    · have hrest : b = decide (∃ e ∈ l, e.1 = k) := by
        rw [Bool.eq_iff_iff, hb, decide_eq_true_iff]
        simp [hk]
      simp [hrest, hk]

theorem getElem?_foldl_erase_toList {γ : Type} (t : ExtTreeMap κ γ cmp) (m : ExtTreeMap κ β cmp) (k : κ) :
    (t.toList.foldl (fun m e => m.erase e.1) m)[k]? = if t.contains k then none else m[k]? := by
  refine getElem?_foldl_erase _ _ _ ?_
  rw [ExtTreeMap.contains_iff_mem, ExtTreeMap.mem_iff_isSome_getElem?, Option.isSome_iff_exists]
  constructor
  · rintro ⟨v, hv⟩
    exact ⟨(k, v), ExtTreeMap.mem_toList_iff_getElem?_eq_some.mpr hv, rfl⟩
  · rintro ⟨e, he, rfl⟩
    exact ⟨e.2, ExtTreeMap.mem_toList_iff_getElem?_eq_some.mp he⟩

end TreeMap

end Prova
