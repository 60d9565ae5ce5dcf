import Prova.Lib.Bytes
import Mathlib.Data.Nat.Digits.Lemmas

/-!
# Digit strings with leading zeros

A string of digits, most significant first, stands for its number of leading zeros and a number. Both
together determine the string, in any base, so that strings of one base can be rewritten in another one
and back.
-/

namespace Prova

namespace Radix

open List

def leadingZeros (digits : List Nat) : Nat := (digits.takeWhile (· == 0)).length

def value (base : Nat) (digits : List Nat) : Nat := Nat.ofDigits base digits.reverse

/-- The digits of a number after some zeros. -/
def write (base zeros n : Nat) : List Nat := List.replicate zeros 0 ++ (Nat.digits base n).reverse

variable {base : Nat}

theorem value_replicate_append (zeros : Nat) (digits : List Nat) :
    value base (List.replicate zeros 0 ++ digits) = value base digits := by
  rw [value, value, reverse_append, reverse_replicate, Nat.ofDigits_append_replicate_zero]

@[simp] theorem value_write (zeros n : Nat) : value base (write base zeros n) = n := by
  rw [write, value_replicate_append, value, List.reverse_reverse, Nat.ofDigits_digits]

theorem head?_digits_reverse (base n : Nat) : (Nat.digits base n).reverse.head? ≠ some 0 := by
  rw [head?_reverse]
  by_cases hn : n = 0
  · simp [hn]
  · have hne : Nat.digits base n ≠ [] := mt Nat.digits_eq_nil_iff_eq_zero.mp hn
    rw [getLast?_eq_some_getLast hne, ne_eq, Option.some.injEq]
    exact Nat.getLast_digit_ne_zero base hn

@[simp] theorem leadingZeros_write (zeros n : Nat) : leadingZeros (write base zeros n) = zeros := by
  have hfirst := head?_digits_reverse base n
  rw [leadingZeros, write]
  generalize (Nat.digits base n).reverse = digits at hfirst
  induction zeros with
  | zero =>
    cases digits with
    | nil => rfl
    | cons d digits =>
      rw [replicate_zero, nil_append, takeWhile_cons_of_neg (by simpa using hfirst)]
      rfl
  | succ zeros ih =>
    rw [replicate_succ, cons_append, takeWhile_cons_of_pos rfl, length_cons, ih]

theorem lt_of_mem_write (hbase : 1 < base) {zeros n d : Nat} (hd : d ∈ write base zeros n) : d < base := by
  rcases mem_append.mp hd with hd | hd
  · rw [eq_of_mem_replicate hd]
    omega
  · exact Nat.digits_lt_base hbase (List.mem_reverse.mp hd)

/-- A string of digits is its zeros and its number. -/
theorem write_value (hbase : 1 < base) {digits : List Nat} (hdigits : ∀ d ∈ digits, d < base) :
    write base (leadingZeros digits) (value base digits) = digits := by
  induction digits with
  | nil => simp [write, leadingZeros, value]
  | cons d digits ih =>
    rw [forall_mem_cons] at hdigits
    by_cases hzero : d = 0
    · subst hzero
      have hcount : leadingZeros (0 :: digits) = leadingZeros digits + 1 := by
        rw [leadingZeros, takeWhile_cons_of_pos rfl, length_cons, leadingZeros]
      have hvalue : value base (0 :: digits) = value base digits := value_replicate_append 1 digits
      rw [hcount, hvalue, write, replicate_succ, cons_append]
      exact congrArg (0 :: ·) (ih hdigits.2)
    · have hcount : leadingZeros (d :: digits) = 0 := by
        rw [leadingZeros, takeWhile_cons_of_neg (by simpa using hzero)]
        rfl
      have hsmall : ∀ x ∈ (d :: digits).reverse, x < base := by
        intro x hx
        rcases mem_cons.mp (List.mem_reverse.mp hx) with rfl | hx
        · exact hdigits.1
        · exact hdigits.2 x hx
      have hlast : ∀ h : (d :: digits).reverse ≠ [], (d :: digits).reverse.getLast h ≠ 0 := by
        intro h
        rw [getLast_reverse]
        exact hzero
      rw [hcount, write, value, Nat.digits_ofDigits base hbase _ hsmall hlast, List.reverse_reverse]
      rfl

/-! ### Bytes as digits -/

/-- The bytes of a string of digits in base 256. -/
def ofDigits (digits : List Nat) : Bytes := digits.map UInt8.ofNat

theorem ofDigits_toNat (b : Bytes) : ofDigits (b.map UInt8.toNat) = b := by
  rw [ofDigits, map_map]
  exact map_id'' (fun x => UInt8.ofNat_toNat) b

theorem toNat_ofDigits {digits : List Nat} (h : ∀ d ∈ digits, d < 256) :
    (ofDigits digits).map UInt8.toNat = digits := by
  rw [ofDigits, map_map]
  exact (map_congr_left fun d hd => UInt8.toNat_ofNat_of_lt' (h d hd)).trans (map_id _)

theorem beNat_eq_value (b : Bytes) : beNat b = value 256 (b.map UInt8.toNat) := by
  have hle : ∀ bs : Bytes, leNat bs = Nat.ofDigits 256 (bs.map UInt8.toNat) := by
    intro bs
    induction bs with
    | nil => rfl
    | cons x bs ih => rw [leNat, ih, map_cons, Nat.ofDigits_cons]
  rw [beNat, hle, value, map_reverse]

end Radix

/-- The bytes of a number without leading zeros, most significant first: `big.Int.Bytes`. -/
def bigBytes (n : Nat) : Bytes := (Nat.digits 256 n).reverse.map UInt8.ofNat

@[simp] theorem beNat_bigBytes (n : Nat) : beNat (bigBytes n) = n := by
  have hdigits : ∀ d ∈ (Nat.digits 256 n).reverse, d < 256 := fun d hd =>
    Nat.digits_lt_base (by decide) (List.mem_reverse.mp hd)
  have hbytes : bigBytes n = Radix.ofDigits (Nat.digits 256 n).reverse := rfl
  rw [hbytes, Radix.beNat_eq_value, Radix.toNat_ofDigits hdigits, Radix.value, List.reverse_reverse,
    Nat.ofDigits_digits]

theorem length_bigBytes_le {n m : Nat} (h : n < 256 ^ m) : (bigBytes n).length ≤ m := by
  rw [bigBytes, List.length_map, List.length_reverse]
  exact (Nat.digits_length_le_iff (by decide) n).mpr h

end Prova
