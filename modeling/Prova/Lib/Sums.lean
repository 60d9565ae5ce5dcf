import Mathlib.Algebra.BigOperators.Group.List.Basic
import Mathlib.Tactic

/-!
# Sums of machine integers

When a sum or a difference of machine integers does not wrap, it is the sum or the difference of the
numbers.
-/

namespace Prova

open List

theorem toInt_add_of_nonneg {a b : Int64} (ha : 0 ≤ a.toInt) (hb : 0 ≤ b.toInt)
    (h : a.toInt + b.toInt < 2 ^ 63) : (a + b).toInt = a.toInt + b.toInt := by
  rw [Int64.toInt_add]
  apply Int.bmod_eq_of_le <;> omega

/-- A sum of nonnegative numbers that wraps is less than its parts. -/
theorem toInt_add_of_not_lt {a b : Int64} (ha : 0 ≤ a.toInt) (hb : 0 ≤ b.toInt) (h : ¬ a + b < a) :
    (a + b).toInt = a.toInt + b.toInt := by
  refine toInt_add_of_nonneg ha hb ?_
  by_contra hwrap
  have := a.toInt_lt
  have := b.toInt_lt
  rw [Int64.lt_iff_toInt_lt, Int64.toInt_add, Int.bmod_def] at h
  omega

theorem toInt_sub_of_nonneg {a b : Int64} (ha : 0 ≤ a.toInt) (hb : 0 ≤ b.toInt) :
    (a - b).toInt = a.toInt - b.toInt := by
  have := a.toInt_lt
  have := b.toInt_lt
  rw [Int64.toInt_sub]
  apply Int.bmod_eq_of_le <;> omega

theorem toNat_toUInt64_of_nonneg {a : Int64} (ha : 0 ≤ a.toInt) : (a.toUInt64.toNat : Int) = a.toInt := by
  have hlt := a.toInt_lt
  have hmod : a.toInt = (a.toUInt64.toNat : Int).bmod (2 ^ 64) :=
    BitVec.toInt_eq_toNat_bmod a.toBitVec
  have hbound := a.toUInt64.toNat_lt
  rw [Int.bmod_def] at hmod
  omega

/-- A running sum of nonnegative numbers that stays below the bound. -/
theorem toInt_foldl_add {xs : List Int64} {acc : Int64} (hacc : 0 ≤ acc.toInt)
    (hxs : ∀ x ∈ xs, 0 ≤ x.toInt) (h : acc.toInt + (xs.map Int64.toInt).sum < 2 ^ 63) :
    (xs.foldl (· + ·) acc).toInt = acc.toInt + (xs.map Int64.toInt).sum := by
  induction xs generalizing acc with
  | nil => simp
  | cons x xs ih =>
    rw [forall_mem_cons] at hxs
    rw [map_cons, sum_cons] at h ⊢
    have hrest : 0 ≤ (xs.map Int64.toInt).sum := by
      apply sum_nonneg
      simpa using hxs.2
    have hadd := toInt_add_of_nonneg hacc hxs.1 (by omega)
    rw [foldl_cons, ih (by omega) hxs.2 (by omega), hadd]
    omega

theorem toNat_foldl_add {xs : List UInt64} {acc : UInt64} (h : acc.toNat + (xs.map UInt64.toNat).sum < 2 ^ 64) :
    (xs.foldl (· + ·) acc).toNat = acc.toNat + (xs.map UInt64.toNat).sum := by
  induction xs generalizing acc with
  | nil => rfl
  | cons x xs ih =>
    rw [map_cons, sum_cons] at h ⊢
    have hadd : (acc + x).toNat = acc.toNat + x.toNat := by
      rw [UInt64.toNat_add]
      exact Nat.mod_eq_of_lt (by omega)
    rw [foldl_cons, ih (by omega), hadd]
    omega

theorem toNat_foldl_sub {xs : List UInt64} {acc : UInt64} (h : (xs.map UInt64.toNat).sum ≤ acc.toNat) :
    (xs.foldl (· - ·) acc).toNat = acc.toNat - (xs.map UInt64.toNat).sum := by
  induction xs generalizing acc with
  | nil => rfl
  | cons x xs ih =>
    rw [map_cons, sum_cons] at h ⊢
    have hle : x ≤ acc := UInt64.le_iff_toNat_le.mpr (by omega)
    have hsub := UInt64.toNat_sub_of_le acc x hle
    rw [foldl_cons, ih (by omega), hsub]
    omega

end Prova
