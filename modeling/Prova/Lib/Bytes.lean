import Mathlib.Data.Nat.ModEq
import Mathlib.Data.List.Basic
import Mathlib.Tactic.Ring

/-!
# Byte strings and fixed-width numbers

Byte strings are lists of bytes. A natural number is written on a fixed number of bytes, least
significant byte first, and read back; reading is a left inverse of writing up to the width, and a
byte string is determined by its length and the number it spells. The big-endian forms are the
reversed ones.

The second half is about prefix codes: encoders whose output can be cut off the front of any byte
string in only one way. They compose, so an encoding assembled from prefix codes determines every
field it was assembled from.
-/

namespace Prova

open List

abbrev Bytes := List UInt8

instance : LawfulBEq Bytes := inferInstanceAs (LawfulBEq (List UInt8))

-- a walk through the string, not through all bytes
instance (priority := high) (b : Bytes) (p : UInt8 → Prop) [DecidablePred p] :
    Decidable (∀ ch ∈ b, p ch) := List.decidableBAll p b

/-- The `n` low bytes of `x`, least significant first. -/
def leBytes : Nat → Nat → Bytes
  | 0, _ => []
  | n + 1, x => UInt8.ofNat x :: leBytes n (x / 256)

/-- The number a byte string spells, least significant byte first. -/
def leNat : Bytes → Nat
  | [] => 0
  | b :: bs => b.toNat + 256 * leNat bs

/-- The `n` low bytes of `x`, most significant first. -/
def beBytes (n x : Nat) : Bytes := (leBytes n x).reverse

/-- The number a byte string spells, most significant byte first. -/
def beNat (bs : Bytes) : Nat := leNat bs.reverse

@[simp] theorem length_leBytes (n x : Nat) : (leBytes n x).length = n := by
  induction n generalizing x with
  | zero => rfl
  | succ n ih => simp [leBytes, ih]

@[simp] theorem length_beBytes (n x : Nat) : (beBytes n x).length = n := by
  simp [beBytes]

theorem leNat_leBytes (n x : Nat) : leNat (leBytes n x) = x % 256 ^ n := by
  induction n generalizing x with
  | zero => simp [leBytes, leNat, Nat.mod_one]
  | succ n ih =>
    have hbyte : (UInt8.ofNat x).toNat = x % 256 := by simp
    rw [leBytes, leNat, ih, hbyte, pow_succ', Nat.mod_mul]

theorem leNat_lt (bs : Bytes) : leNat bs < 256 ^ bs.length := by
  induction bs with
  | nil => simp [leNat]
  | cons b bs ih =>
    have hb : b.toNat < 256 := b.toNat_lt
    rw [leNat, length_cons, pow_succ']
    omega

theorem leBytes_leNat (bs : Bytes) : leBytes bs.length (leNat bs) = bs := by
  induction bs with
  | nil => rfl
  | cons b bs ih =>
    have hb : b.toNat < 256 := b.toNat_lt
    have hhead : UInt8.ofNat (b.toNat + 256 * leNat bs) = b := by
      apply UInt8.toNat_inj.mp
      rw [UInt8.toNat_ofNat']
      omega
    have htail : (b.toNat + 256 * leNat bs) / 256 = leNat bs := by omega
    rw [length_cons, leNat, leBytes, hhead, htail, ih]

theorem leBytes_inj {n x y : Nat} (hx : x < 256 ^ n) (hy : y < 256 ^ n) (h : leBytes n x = leBytes n y) : x = y := by
  have hnat := congrArg leNat h
  rwa [leNat_leBytes, leNat_leBytes, Nat.mod_eq_of_lt hx, Nat.mod_eq_of_lt hy] at hnat

theorem beNat_beBytes (n x : Nat) : beNat (beBytes n x) = x % 256 ^ n := by
  rw [beNat, beBytes, reverse_reverse, leNat_leBytes]

theorem beBytes_beNat (bs : Bytes) : beBytes bs.length (beNat bs) = bs := by
  have h := leBytes_leNat bs.reverse
  rw [length_reverse] at h
  rw [beNat, beBytes, h, reverse_reverse]

theorem leNat_uint32 (x : UInt32) : UInt32.ofNat (leNat (leBytes 4 x.toNat)) = x := by
  have hlt : x.toNat < 256 ^ 4 := x.toNat_lt
  rw [leNat_leBytes, Nat.mod_eq_of_lt hlt, UInt32.ofNat_toNat]

theorem beNat_uint32 (x : UInt32) : UInt32.ofNat (beNat (beBytes 4 x.toNat)) = x := by
  rw [beNat, beBytes, reverse_reverse, leNat_uint32]

/-- What holds of each of the 256 bytes holds of every byte. -/
theorem forall_byte {P : UInt8 → Prop} (h : ∀ n < 256, P (UInt8.ofNat n)) (b : UInt8) : P b := by
  have hb := h b.toNat b.toNat_lt
  rwa [UInt8.ofNat_toNat] at hb

theorem leNat_append (as bs : Bytes) : leNat (as ++ bs) = leNat as + 256 ^ as.length * leNat bs := by
  induction as with
  | nil => simp [leNat]
  | cons a as ih =>
    rw [cons_append, leNat, ih, leNat, length_cons, pow_succ']
    ring

theorem beNat_cons (b : UInt8) (bs : Bytes) : beNat (b :: bs) = b.toNat * 256 ^ bs.length + beNat bs := by
  rw [beNat, reverse_cons, leNat_append, length_reverse, leNat, leNat, beNat]
  ring

theorem drop_of_getElem? {α : Type} {xs : List α} {i : Nat} {x : α} (h : xs[i]? = some x) :
    xs.drop i = x :: xs.drop (i + 1) := by
  obtain ⟨hi, rfl⟩ := List.getElem?_eq_some_iff.mp h
  exact List.drop_eq_getElem_cons hi

/-! ### Prefix codes -/

/-- An encoder is a prefix code on the values satisfying `p` when an encoding can be cut off the
front of a byte string in only one way. -/
def PrefixCode {α : Type} (p : α → Prop) (enc : α → Bytes) : Prop :=
  ∀ a b r s, p a → p b → enc a ++ r = enc b ++ s → a = b ∧ r = s

namespace PrefixCode

variable {α β : Type} {p : α → Prop} {q : β → Prop} {enc : α → Bytes} {enc' : β → Bytes}

theorem of_length (n : Nat) (hlen : ∀ a, (enc a).length = n)
    (hinj : ∀ a b, p a → p b → enc a = enc b → a = b) : PrefixCode p enc := by
  intro a b r s ha hb h
  obtain ⟨hhead, htail⟩ := append_inj h (by rw [hlen, hlen])
  exact ⟨hinj a b ha hb hhead, htail⟩

theorem flatMap (h : PrefixCode p enc) {as bs : List α} {r s : Bytes}
    (hlen : as.length = bs.length) (ha : ∀ a ∈ as, p a) (hb : ∀ b ∈ bs, p b)
    (heq : as.flatMap enc ++ r = bs.flatMap enc ++ s) : as = bs ∧ r = s := by
  induction as generalizing bs with
  | nil =>
    cases bs with
    | nil => exact ⟨rfl, heq⟩
    | cons b bs => simp at hlen
  | cons a as ih =>
    cases bs with
    | nil => simp at hlen
    | cons b bs =>
      simp only [flatMap_cons, append_assoc] at heq
      obtain ⟨hab, hrest⟩ := h a b _ _ (ha a (by simp)) (hb b (by simp)) heq
      obtain ⟨htail, hrs⟩ := ih (by simpa using hlen) (fun x hx => ha x (by simp [hx]))
        (fun x hx => hb x (by simp [hx])) hrest
      exact ⟨by rw [hab, htail], hrs⟩

/-- Any number of codes that are never empty, up to the end of the string. -/
theorem flatMap_inj (h : PrefixCode p enc) (hne : ∀ a, enc a ≠ []) {as bs : List α}
    (ha : ∀ a ∈ as, p a) (hb : ∀ b ∈ bs, p b) (heq : as.flatMap enc = bs.flatMap enc) : as = bs := by
  induction as generalizing bs with
  | nil =>
    cases bs with
    | nil => rfl
    | cons b bs =>
      rw [flatMap_cons] at heq
      exact absurd (append_eq_nil_iff.mp heq.symm).1 (hne b)
  | cons a as ih =>
    cases bs with
    | nil =>
      rw [flatMap_cons] at heq
      exact absurd (append_eq_nil_iff.mp heq).1 (hne a)
    | cons b bs =>
      rw [flatMap_cons, flatMap_cons] at heq
      obtain ⟨hab, hrest⟩ := h a b _ _ (ha a (by simp)) (hb b (by simp)) heq
      have htail := ih (fun x hx => ha x (by simp [hx])) (fun x hx => hb x (by simp [hx])) hrest
      rw [hab, htail]

end PrefixCode

end Prova
