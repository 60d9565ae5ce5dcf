import Prova.Lib.Bytes

/-!
# Writing into a buffer of fixed length

A record that is written field by field into a zeroed buffer whose length was computed before. If the
length is right, the buffer holds the fields one after the other; if a field starts beyond the end of the
buffer, there is no record.
-/

namespace Prova

open List

variable {buffer : Bytes} {offset : Nat}

/-- One step of the writer. -/
inductive Field
  /-- A number of fixed size, for which there must be room. -/
  | put (bytes : Bytes)
  /-- Bytes of which as many are written as there is room for. -/
  | copy (bytes : Bytes)
  /-- Bytes that stay zero. -/
  | skip (width : Nat)

namespace Field

def bytes : Field → Bytes
  | put bytes => bytes
  | copy bytes => bytes
  | skip width => List.replicate width 0

def width (field : Field) : Nat := field.bytes.length

def overwrite (buffer : Bytes) (offset : Nat) (bytes : Bytes) : Bytes :=
  buffer.take offset ++ bytes ++ buffer.drop (offset + bytes.length)

/-- Write the field at an offset. There is no result where the offset or the number is outside. -/
def write (buffer : Bytes) (offset : Nat) : Field → Option Bytes
  | put bytes =>
    if offset + bytes.length ≤ buffer.length then some (overwrite buffer offset bytes) else none
  | copy bytes =>
    if offset ≤ buffer.length then
      some (overwrite buffer offset (bytes.take (buffer.length - offset)))
    else none
  | skip _ => some buffer

def writeAll : List Field → Bytes → Nat → Option Bytes
  | [], buffer, _ => some buffer
  | field :: fields, buffer, offset =>
    match field.write buffer offset with
    | none => none
    | some buffer => writeAll fields buffer (offset + field.width)

theorem length_overwrite {bytes : Bytes} (h : offset + bytes.length ≤ buffer.length) :
    (overwrite buffer offset bytes).length = buffer.length := by
  unfold overwrite
  simp only [length_append, length_take, length_drop]
  omega

theorem length_of_write {field : Field} {buffer' : Bytes}
    (h : field.write buffer offset = some buffer') : buffer'.length = buffer.length := by
  cases field with
  | put bytes =>
    simp only [write] at h
    split_ifs at h with hroom
    cases h
    exact length_overwrite hroom
  | copy bytes =>
    simp only [write] at h
    split_ifs at h with hroom
    cases h
    refine length_overwrite ?_
    rw [length_take]
    omega
  | skip width =>
    cases h
    rfl

/-- Where there is room, the field stands at the offset and the rest of the buffer stays zero. -/
theorem write_zeros (field : Field) (done : Bytes) (n : Nat) :
    field.write (done ++ List.replicate (field.width + n) 0) done.length =
      some (done ++ field.bytes ++ List.replicate n 0) := by
  have hover : ∀ bytes : Bytes, overwrite (done ++ List.replicate (bytes.length + n) 0) done.length bytes =
      done ++ bytes ++ List.replicate n 0 := by
    intro bytes
    unfold overwrite
    rw [take_left, ← drop_drop, drop_left, drop_replicate, Nat.add_sub_cancel_left]
  cases field with
  | put bytes =>
    rw [write, if_pos (by simp [width, Field.bytes])]
    exact congrArg some (hover bytes)
  | copy bytes =>
    rw [write, if_pos (by simp), take_of_length_le (by simp [width, Field.bytes])]
    exact congrArg some (hover bytes)
  | skip width =>
    unfold write
    simp only [Field.width, Field.bytes, length_replicate, append_assoc, replicate_append_replicate]

theorem writeAll_zeros (fields : List Field) (done : Bytes) :
    writeAll fields (done ++ List.replicate (fields.flatMap bytes).length 0) done.length =
      some (done ++ fields.flatMap bytes) := by
  induction fields generalizing done with
  | nil => simp [writeAll]
  | cons field fields ih =>
    rw [flatMap_cons, length_append, writeAll]
    have hwrite := field.write_zeros done (fields.flatMap bytes).length
    have hrest := ih (done ++ field.bytes)
    rw [length_append] at hrest
    unfold width at hwrite ⊢
    rw [hwrite]
    simpa only [append_assoc] using hrest

/-- A last field that is to be written beyond the end of the buffer stops the writer. -/
theorem writeAll_concat_eq_none {fields : List Field} {last : Field} (hlast : ∀ n, last ≠ skip n)
    (h : buffer.length < offset + (fields.flatMap bytes).length) :
    writeAll (fields ++ [last]) buffer offset = none := by
  induction fields generalizing buffer offset with
  | nil =>
    rw [flatMap_nil, length_nil, Nat.add_zero] at h
    have hnone : last.write buffer offset = none := by
      cases last with
      | put bytes => exact if_neg (by omega)
      | copy bytes => exact if_neg (by omega)
      | skip n => exact absurd rfl (hlast n)
    rw [nil_append, writeAll, hnone]
  | cons field fields ih =>
    rw [cons_append, writeAll]
    cases hwrite : field.write buffer offset with
    | none => rfl
    | some buffer' =>
      refine ih ?_
      rw [length_of_write hwrite]
      rw [flatMap_cons, length_append] at h
      unfold width
      omega

end Field

end Prova
