import Prova.Lib.Bytes

/-!
# Bitmaps

A set of numbers as bytes: bit `j` of byte `i` says whether `8 * i + j` is in the set. Reading the bytes
gives the numbers in ascending order.
-/

namespace Prova

open List

/-- The byte whose bit `j` is set if `f j` holds. -/
def packByte (f : Nat → Bool) : UInt8 :=
  (List.range 8).foldl (fun bits j => if f j then bits ||| 1 <<< UInt8.ofNat j else bits) 0

/-- The positions of the set bits among the lowest ones, which are shifted out one after the other. -/
def setBits : Nat → Nat → UInt8 → List Nat
  | 0, _, _ => []
  | k + 1, j, bits =>
    if bits &&& 0x01 ≠ 0 then j :: setBits k (j + 1) (bits >>> 1) else setBits k (j + 1) (bits >>> 1)

def bitmap (f : Nat → Bool) (n : Nat) : Bytes := (List.range n).map fun i => packByte fun j => f (i * 8 + j)

/-- The numbers in a bitmap whose first byte has the number `i`. -/
def bitPositions : Nat → Bytes → List Nat
  | _, [] => []
  | i, bits :: rest => (setBits 8 0 bits).map (i * 8 + ·) ++ bitPositions (i + 1) rest

theorem setBits_eight : ∀ b₀ b₁ b₂ b₃ b₄ b₅ b₆ b₇ : Bool,
    setBits 8 0 (packByte fun j => [b₀, b₁, b₂, b₃, b₄, b₅, b₆, b₇].getD j false) =
      (List.range 8).filter fun j => [b₀, b₁, b₂, b₃, b₄, b₅, b₆, b₇].getD j false := by
  decide

theorem setBits_packByte (f : Nat → Bool) : setBits 8 0 (packByte f) = (List.range 8).filter f :=
  setBits_eight (f 0) (f 1) (f 2) (f 3) (f 4) (f 5) (f 6) (f 7)

@[simp] theorem length_bitmap (f : Nat → Bool) (n : Nat) : (bitmap f n).length = n := by simp [bitmap]

theorem bitPositions_append (i : Nat) (as bs : Bytes) :
    bitPositions i (as ++ bs) = bitPositions i as ++ bitPositions (i + as.length) bs := by
  induction as generalizing i with
  | nil => rfl
  | cons a as ih =>
    rw [cons_append, bitPositions, bitPositions, ih, append_assoc, length_cons, Nat.add_right_comm, Nat.add_assoc]

theorem bitPositions_bitmap (f : Nat → Bool) (n : Nat) :
    bitPositions 0 (bitmap f n) = (List.range (n * 8)).filter f := by
  induction n with
  | zero => rfl
  | succ n ih =>
    have hsnoc : bitmap f (n + 1) = bitmap f n ++ [packByte fun j => f (n * 8 + j)] := by
      simp [bitmap, range_succ]
    have hrange : List.range ((n + 1) * 8) = List.range (n * 8) ++ (List.range 8).map (n * 8 + ·) := by
      rw [Nat.add_mul, Nat.one_mul, range_add]
    rw [hsnoc, bitPositions_append, ih, hrange, filter_append, length_bitmap, Nat.zero_add,
      bitPositions, bitPositions, append_nil, setBits_packByte, filter_map]
    rfl

end Prova
