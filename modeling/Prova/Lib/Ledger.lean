import Mathlib.Algebra.BigOperators.Group.Multiset.Basic
import Mathlib.Algebra.Order.BigOperators.Group.Multiset
import Mathlib.Data.Finmap
import Mathlib.Tactic
import Prova.Lib.LastWrite

/-!
# Ledgers

A ledger holds items under keys. It is changed by spending keys and by creating items, and weighed by
summing a weight over what it holds. The weight may be a value, the number of items of a kind or
anything else that adds up, so that one law of conservation serves all of them.
-/

namespace Prova

open List

/-- A finite set of items under keys. -/
abbrev Ledger (κ ν : Type) := Finmap fun _ : κ => ν

namespace Ledger

variable {κ ν M : Type} [DecidableEq κ]

variable {items : List (κ × ν)}

def spend (L : Ledger κ ν) (keys : List κ) : Ledger κ ν := keys.foldl (fun L k => Finmap.erase k L) L

def create (L : Ledger κ ν) (items : List (κ × ν)) : Ledger κ ν :=
  items.foldl (fun L p => Finmap.insert p.1 p.2 L) L

/-! ### Lookups -/

theorem lookup_spend (L : Ledger κ ν) (keys : List κ) (k : κ) :
    (spend L keys).lookup k = if k ∈ keys then none else L.lookup k := by
  induction keys generalizing L with
  | nil => rfl
  | cons key keys ih =>
    change (spend (L.erase key) keys).lookup k = _
    rw [ih]
    by_cases hk : k = key
    · subst hk
      simp [Finmap.lookup_erase]
    · simp [hk, Finmap.lookup_erase_ne hk]

def itemAt (k : κ) (p : κ × ν) : Option ν := if p.1 = k then some p.2 else none

/-- The item that a list has under a key. -/
def itemOf (items : List (κ × ν)) (k : κ) : Option ν := lastWrite (itemAt k) items

theorem itemOf_eq_none {k : κ} : itemOf items k = none ↔ ∀ p ∈ items, p.1 ≠ k := by
  unfold itemOf
  rw [lastWrite_eq_none]
  refine forall₂_congr fun p _ => ?_
  unfold itemAt
  split <;> simp_all

theorem mem_of_itemOf {k : κ} {v : ν} (h : itemOf items k = some v) : (k, v) ∈ items := by
  obtain ⟨p, hp, hitem⟩ := exists_of_lastWrite h
  unfold itemAt at hitem
  split at hitem
  · next heq =>
    cases hitem
    exact heq ▸ hp
  · cases hitem

theorem itemOf_of_mem (hnodup : (items.map Prod.fst).Nodup) {k : κ} {v : ν} (h : (k, v) ∈ items) :
    itemOf items k = some v := by
  cases hitem : itemOf items k with
  | none => exact absurd rfl (itemOf_eq_none.mp hitem (k, v) h)
  | some v' =>
    have hsame := inj_on_of_nodup_map hnodup (mem_of_itemOf hitem) h rfl
    rw [(Prod.mk.inj hsame).2]

theorem lookup_create (L : Ledger κ ν) (items : List (κ × ν)) (k : κ) :
    (create L items).lookup k = (itemOf items k).or (L.lookup k) := by
  unfold itemOf
  induction items generalizing L with
  | nil => rfl
  | cons p items ih =>
    change (create (L.insert p.1 p.2) items).lookup k = _
    rw [ih, lastWrite_cons, Option.or_assoc]
    congr 1
    unfold itemAt
    split
    · next heq =>
      subst heq
      rw [Finmap.lookup_insert]
      rfl
    · next hne =>
      rw [Finmap.lookup_insert_of_ne _ (Ne.symm hne)]
      rfl

/-! ### Weights -/

variable [AddCommMonoid M] (w : κ → ν → M)

def total (L : Ledger κ ν) : M := (L.entries.map fun e => w e.1 e.2).sum

def weigh (items : List (κ × ν)) : M := (items.map fun p => w p.1 p.2).sum

variable {w}

theorem total_insert {L : Ledger κ ν} {k : κ} {v : ν} (hk : k ∉ L) : total w (L.insert k v) = w k v + total w L := by
  unfold total
  rw [Finmap.entries_insert_of_notMem hk, Multiset.map_cons, Multiset.sum_cons]

theorem total_erase {L : Ledger κ ν} {k : κ} {v : ν} (hk : L.lookup k = some v) :
    w k v + total w (L.erase k) = total w L := by
  rw [← total_insert Finmap.notMem_erase_self]
  congr 1
  refine Finmap.ext_lookup fun k' => ?_
  by_cases heq : k' = k
  · subst heq
    rw [Finmap.lookup_insert, hk]
  · rw [Finmap.lookup_insert_of_ne _ heq, Finmap.lookup_erase_ne heq]

theorem total_spend {L : Ledger κ ν} (hnodup : (items.map Prod.fst).Nodup)
    (hmem : ∀ p ∈ items, L.lookup p.1 = some p.2) :
    weigh w items + total w (spend L (items.map Prod.fst)) = total w L := by
  induction items generalizing L with
  | nil => simp [weigh, spend]
  | cons p items ih =>
    rw [map_cons, nodup_cons] at hnodup
    rw [forall_mem_cons] at hmem
    have hrest : ∀ q ∈ items, (L.erase p.1).lookup q.1 = some q.2 := by
      intro q hq
      have hne : q.1 ≠ p.1 := fun heq => hnodup.1 (heq ▸ mem_map_of_mem hq)
      rw [Finmap.lookup_erase_ne hne]
      exact hmem.2 q hq
    have hih : weigh w items + total w (spend (L.erase p.1) (items.map Prod.fst)) =
        total w (L.erase p.1) := ih hnodup.2 hrest
    change weigh w (p :: items) + total w (spend (L.erase p.1) (items.map Prod.fst)) = total w L
    rw [← total_erase (w := w) hmem.1, ← hih]
    unfold weigh
    rw [map_cons, sum_cons, add_assoc]

theorem total_create {L : Ledger κ ν} (hnodup : (items.map Prod.fst).Nodup) (hnew : ∀ p ∈ items, L.lookup p.1 = none) :
    total w (create L items) = weigh w items + total w L := by
  induction items generalizing L with
  | nil => simp [weigh, create]
  | cons p items ih =>
    rw [map_cons, nodup_cons] at hnodup
    rw [forall_mem_cons] at hnew
    have hrest : ∀ q ∈ items, (L.insert p.1 p.2).lookup q.1 = none := by
      intro q hq
      have hne : q.1 ≠ p.1 := fun heq => hnodup.1 (heq ▸ mem_map_of_mem hq)
      rw [Finmap.lookup_insert_of_ne _ hne]
      exact hnew.2 q hq
    change total w (create (L.insert p.1 p.2) items) = _
    rw [ih hnodup.2 hrest, total_insert (Finmap.lookup_eq_none.mp hnew.1)]
    unfold weigh
    rw [map_cons, sum_cons, add_left_comm, add_assoc]

theorem total_move {L : Ledger κ ν} {spent : List (κ × ν)} (hspent : (spent.map Prod.fst).Nodup)
    (hmem : ∀ p ∈ spent, L.lookup p.1 = some p.2) (hitems : (items.map Prod.fst).Nodup)
    (hnew : ∀ p ∈ items, L.lookup p.1 = none) : weigh w spent + total w (create (spend L (spent.map Prod.fst)) items) =
      weigh w items + total w L := by
  have hnone : ∀ p ∈ items, (spend L (spent.map Prod.fst)).lookup p.1 = none := by
    intro p hp
    rw [lookup_spend, hnew p hp, ite_self]
  rw [total_create hitems hnone, add_left_comm, total_spend hspent hmem]

omit [DecidableEq κ] in
theorem total_add (w w' : κ → ν → M) (L : Ledger κ ν) : total (fun k v => w k v + w' k v) L = total w L + total w' L :=
  Multiset.sum_map_add

theorem mem_entries {L : Ledger κ ν} {e : Σ _ : κ, ν} (h : e ∈ L.entries) : L.lookup e.1 = some e.2 :=
  Finmap.lookup_eq_some_iff.mpr h

theorem total_eq_zero {L : Ledger κ ν} (h : ∀ k v, L.lookup k = some v → w k v = 0) : total w L = 0 := by
  unfold total
  refine Multiset.sum_eq_zero fun x hx => ?_
  obtain ⟨e, he, rfl⟩ := Multiset.mem_map.mp hx
  exact h e.1 e.2 (mem_entries he)

theorem total_nonneg {L : Ledger κ ν} {w : κ → ν → Int}
    (h : ∀ k v, L.lookup k = some v → 0 ≤ w k v) : 0 ≤ total w L := by
  unfold total
  refine Multiset.sum_nonneg fun x hx => ?_
  obtain ⟨e, he, rfl⟩ := Multiset.mem_map.mp hx
  exact h e.1 e.2 (mem_entries he)

end Ledger

end Prova
