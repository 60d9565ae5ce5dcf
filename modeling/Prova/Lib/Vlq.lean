import Mathlib.Data.List.Induction
import Prova.Lib.Bytes

/-!
# Variable length quantities

Numbers in base 128, most significant group first, with the high bit set on every byte but the last.
Each time a group is shifted out one is subtracted, so that no number has two encodings. Reading adds
it back, in 64 bits.
-/

namespace Prova

open List

/-- The bytes before the last one, in front of `acc`: what is left of the number after a group was
shifted out. The first argument bounds the number of groups. -/
def vlqGroups : Nat → Nat → Bytes → Bytes
  | 0, _, acc => acc
  | groups + 1, n, acc =>
    let byte := UInt8.ofNat (n % 128 + 128)
    if n ≤ 0x7f then byte :: acc else vlqGroups groups (n / 128 - 1) (byte :: acc)

/-- A number below `2 ^ 64` takes at most ten bytes. -/
def putVLQ (n : Nat) : Bytes :=
  let byte := UInt8.ofNat (n % 128)
  if n ≤ 0x7f then [byte] else vlqGroups 9 (n / 128 - 1) [byte]

def serializeSizeVLQ (n : Nat) : Nat :=
  if n ≤ 0x7f then 1 else serializeSizeVLQ (n / 128 - 1) + 1
decreasing_by omega

/-- The loop of `deserializeVLQ`, with the number and the count of bytes so far. -/
def readVLQ : Bytes → Nat → Nat → Nat × Nat
  | [], n, size => (n, size)
  | val :: rest, n, size =>
    let n := (n * 128 + val.toNat % 128) % 2 ^ 64
    if val.toNat < 128 then (n, size + 1) else readVLQ rest ((n + 1) % 2 ^ 64) (size + 1)

/-- The number at the front of a byte string and the count of bytes it takes. -/
def deserializeVLQ (serialized : Bytes) : Nat × Nat := readVLQ serialized 0 0

theorem vlqGroups_append (groups n : Nat) (acc rest : Bytes) :
    vlqGroups groups n acc ++ rest = vlqGroups groups n (acc ++ rest) := by
  induction groups generalizing n acc with
  | zero => rfl
  | succ groups ih =>
    simp only [vlqGroups]
    split_ifs
    · rfl
    · exact ih _ _

theorem length_vlqGroups_append (groups n : Nat) (acc rest : Bytes) :
    (vlqGroups groups n (acc ++ rest)).length = (vlqGroups groups n acc).length + rest.length := by
  rw [← vlqGroups_append, length_append]

theorem putVLQ_ne_nil (n : Nat) : putVLQ n ≠ [] := by
  have hgroups : ∀ groups m byte, vlqGroups groups m [byte] ≠ [] := by
    intro groups m byte hnil
    have hlen := length_vlqGroups_append groups m [] [byte]
    rw [nil_append, hnil] at hlen
    simp at hlen
  simp only [putVLQ]
  split_ifs
  · exact cons_ne_nil _ _
  · exact hgroups _ _ _

/-- Reading the groups before the last byte leads to the number they stand for, plus one. -/
theorem readVLQ_vlqGroups {groups n : Nat} (hn : n + 1 < 128 ^ groups) (hfit : n < 2 ^ 57) (acc : Bytes) :
    readVLQ (vlqGroups groups n acc) 0 0 = readVLQ acc (n + 1) ((vlqGroups groups n acc).length - acc.length) := by
  induction groups generalizing n acc with
  | zero =>
    rw [pow_zero] at hn
    omega
  | succ groups ih =>
    have hbyte : (UInt8.ofNat (n % 128 + 128)).toNat = n % 128 + 128 := by
      rw [UInt8.toNat_ofNat']
      omega
    simp only [vlqGroups]
    split_ifs with hle
    · rw [length_cons, Nat.add_sub_cancel_left]
      simp only [readVLQ, hbyte]
      rw [if_neg (by omega)]
      congr 1
      omega
    · have hdiv : n / 128 - 1 + 1 < 128 ^ groups := by
        rw [pow_succ] at hn
        omega
      have hlen := length_vlqGroups_append groups (n / 128 - 1) [] (UInt8.ofNat (n % 128 + 128) :: acc)
      rw [nil_append, length_cons] at hlen
      rw [ih hdiv (by omega)]
      simp only [readVLQ, hbyte, length_cons]
      rw [if_neg (by omega)]
      congr 1 <;> omega

theorem deserializeVLQ_putVLQ {n : Nat} (hn : n < 2 ^ 64) (rest : Bytes) :
    deserializeVLQ (putVLQ n ++ rest) = (n, (putVLQ n).length) := by
  have hbyte : (UInt8.ofNat (n % 128)).toNat = n % 128 := by
    rw [UInt8.toNat_ofNat']
    omega
  unfold deserializeVLQ
  simp only [putVLQ]
  split_ifs with hle
  · rw [cons_append, length_singleton]
    simp only [readVLQ, hbyte]
    rw [if_pos (by omega)]
    congr 1
    omega
  · have hfit : n / 128 - 1 < 2 ^ 57 := by omega
    have hgroups : n / 128 - 1 + 1 < 128 ^ 9 := by omega
    have hlen := length_vlqGroups_append 9 (n / 128 - 1) [] [UInt8.ofNat (n % 128)]
    have hlen' := length_vlqGroups_append 9 (n / 128 - 1) [] (UInt8.ofNat (n % 128) :: rest)
    rw [nil_append, length_singleton] at hlen
    rw [nil_append, length_cons] at hlen'
    rw [vlqGroups_append, singleton_append, readVLQ_vlqGroups hgroups hfit]
    simp only [readVLQ, hbyte, length_cons]
    rw [if_pos (by omega)]
    congr 1 <;> omega

/-! ### The encodings -/

theorem length_vlqGroups {groups n : Nat} (hn : n + 1 < 128 ^ groups) (acc : Bytes) :
    (vlqGroups groups n acc).length = serializeSizeVLQ n + acc.length := by
  induction groups generalizing n acc with
  | zero =>
    rw [pow_zero] at hn
    omega
  | succ groups ih =>
    rw [vlqGroups, serializeSizeVLQ]
    split_ifs with hle
    · rw [length_cons, Nat.add_comm]
    · have hdiv : n / 128 - 1 + 1 < 128 ^ groups := by
        rw [pow_succ] at hn
        omega
      rw [ih hdiv, length_cons]
      omega

theorem length_putVLQ {n : Nat} (hn : n < 2 ^ 64) : (putVLQ n).length = serializeSizeVLQ n := by
  rw [putVLQ, serializeSizeVLQ]
  split_ifs
  · rfl
  · exact length_vlqGroups (by omega) _

theorem prefixCode_putVLQ : PrefixCode (· < 2 ^ 64) putVLQ := by
  intro m n r s hm hn h
  have hread := deserializeVLQ_putVLQ hm r
  rw [h, deserializeVLQ_putVLQ hn s] at hread
  obtain rfl : n = m := congrArg Prod.fst hread
  exact ⟨rfl, append_cancel_left h⟩

/-- The number that the bytes before the last one lead to, one more than the number left after the last
group was shifted out. -/
def groupsValue (groups : Bytes) : Nat := groups.foldl (fun n val => n * 128 + val.toNat % 128 + 1) 0

/-- The number of a byte string that ends with the byte `last`, without the limit of 64 bits. -/
def vlqValue (groups : Bytes) (last : UInt8) : Nat := groupsValue groups * 128 + last.toNat

theorem groupsValue_concat (groups : Bytes) (val : UInt8) :
    groupsValue (groups ++ [val]) = groupsValue groups * 128 + val.toNat % 128 + 1 := by
  rw [groupsValue, foldl_append]
  rfl

theorem pow_length_le_groupsValue (groups : Bytes) : 128 ^ groups.length ≤ groupsValue groups * 128 + 1 := by
  induction groups using List.reverseRecOn with
  | nil => exact Nat.le_refl 1
  | append_singleton groups val ih =>
    rw [groupsValue_concat, length_append, length_singleton, pow_succ]
    omega

/-- Bytes with the high bit are the groups of the number they stand for. -/
theorem vlqGroups_groupsValue {bytes : Bytes} (hne : bytes ≠ []) (hhigh : ∀ val ∈ bytes, 128 ≤ val.toNat)
    {groups : Nat} (hlen : bytes.length ≤ groups) (acc : Bytes) :
    vlqGroups groups (groupsValue bytes - 1) acc = bytes ++ acc := by
  induction bytes using List.reverseRecOn generalizing groups acc with
  | nil => exact absurd rfl hne
  | append_singleton bytes val ih =>
    obtain ⟨hbytes, hval⟩ := forall_mem_append.mp hhigh
    rw [length_append, length_singleton] at hlen
    obtain ⟨groups, rfl⟩ : ∃ g, groups = g + 1 := ⟨groups - 1, by omega⟩
    have hlt := val.toNat_lt
    have hge := hval val (mem_singleton_self val)
    have hbyte : UInt8.ofNat ((groupsValue bytes * 128 + val.toNat % 128) % 128 + 128) = val := by
      have hnat : (groupsValue bytes * 128 + val.toNat % 128) % 128 + 128 = val.toNat := by omega
      rw [hnat, UInt8.ofNat_toNat]
    rw [groupsValue_concat, Nat.add_sub_cancel, vlqGroups, hbyte, append_assoc, singleton_append]
    by_cases hnil : bytes = []
    · subst hnil
      exact if_pos (by rw [show groupsValue [] = 0 from rfl]; omega)
    · have hpow := pow_length_le_groupsValue bytes
      have hone : 128 ^ 1 ≤ 128 ^ bytes.length :=
        Nat.pow_le_pow_right (by decide) (length_pos_iff.mpr hnil)
      rw [if_neg (by omega), ← ih hnil hbytes (show bytes.length ≤ groups by omega) (val :: acc)]
      congr 1
      omega

/-- A byte string in which all bytes but the last have the high bit is the encoding of its number. -/
theorem putVLQ_vlqValue {groups : Bytes} {last : UInt8} (hhigh : ∀ val ∈ groups, 128 ≤ val.toNat)
    (hlast : last.toNat < 128) (hfit : vlqValue groups last < 2 ^ 64) :
    putVLQ (vlqValue groups last) = groups ++ [last] := by
  have hbyte : UInt8.ofNat (vlqValue groups last % 128) = last := by
    have hnat : vlqValue groups last % 128 = last.toNat := by
      unfold vlqValue
      omega
    rw [hnat, UInt8.ofNat_toNat]
  have hpow := pow_length_le_groupsValue groups
  rw [putVLQ, hbyte]
  by_cases hnil : groups = []
  · subst hnil
    exact if_pos (by rw [vlqValue, show groupsValue [] = 0 from rfl]; omega)
  · have hone : 128 ^ 1 ≤ 128 ^ groups.length :=
      Nat.pow_le_pow_right (by decide) (length_pos_iff.mpr hnil)
    have hlen : groups.length ≤ 9 := by
      by_contra hlong
      have hten : 128 ^ 10 ≤ 128 ^ groups.length := Nat.pow_le_pow_right (by decide) (by omega)
      unfold vlqValue at hfit
      omega
    unfold vlqValue
    rw [if_neg (by omega), ← vlqGroups_groupsValue hnil hhigh hlen [last]]
    congr 1
    omega

end Prova
