import Prova.Btcec.PubKey
import Prova.Lib.Limbs
import Mathlib.Data.Vector.Basic
import Mathlib.Tactic.NormNum

/-!
# The words of field values (`btcec/field.go`)

A field value is ten words of 32 bits, digits in base 2^26 with some room above. The unrolled passes of
the source are the carry of `Limbs` through columns: the words as they are, the products of words, the
upper half of a product folded back with 2^260 = 16 * 2^256 and 2^256 = 2^32 + 977 modulo the prime.
Whether an operation wraps around is tracked.

`Normalize` adds the part above 2^256 once, times 2^32 + 977, and drops what this carries out of the top
word again. The products are right for operands of magnitude 8.
-/

namespace Prova

variable {low : List Nat} {top : Nat}

open Tracked Limbs

def fieldBase : Nat := 26
def fieldMSBBits : Nat := 22
def fieldBaseMask : Nat := 2 ^ 26 - 1
def fieldMSBMask : Nat := 2 ^ 22 - 1
def primeLowBits : Nat := 0xffffefffffc2f

/-- What the prime lacks to 2^256, in the source 977 and 64 in base 2^26. -/
def primeGap : Nat := 977 + 2 ^ 26 * 64

/-- `fieldVal`, as its words. -/
structure FieldWords where
  n : Vector UInt32 10
deriving DecidableEq

namespace FieldWords

def words (f : FieldWords) : List Nat := f.n.toList.map UInt32.toNat

def value (f : FieldWords) : Nat := Nat.ofDigits (2 ^ 26) f.words

/-- The low nine words are at most `low`, the top word is at most `top`. -/
def Bounded (low top : Nat) (f : FieldWords) : Prop :=
  (∀ x ∈ f.words.take 9, x ≤ low) ∧ f.words.getD 9 0 ≤ top

instance (low top : Nat) (f : FieldWords) : Decidable (Bounded low top f) := inferInstanceAs (Decidable (_ ∧ _))

def ofWords (l : List Nat) : FieldWords := ⟨Vector.ofFn fun i => UInt32.ofNat (l.getD i 0)⟩

def toUint32 (l : List Nat) : Tracked FieldWords := do
  let l ← l.mapM (word 32)
  return ofWords l

/-- The carry through ten columns. The top word has `fieldMSBBits` bits, what is above them is left. -/
def compact (w : Nat) (columns : List (List (List Nat))) : Tracked (List Nat × Nat) := do
  let (t, m) ← carry w fieldBase 0 columns.dropLast
  let m ← columnSum w m (columns.getLastD [])
  return (t ++ [m &&& fieldMSBMask], m >>> fieldMSBBits)

/-- All bits set or none. -/
def mask (w : Nat) (b : Bool) : Nat := if b then 2 ^ w - 1 else 0

/-- The end of `Normalize`: subtract the prime from a value that is not below it. -/
def subtractPrime (t : List Nat) : List Nat :=
  let lowBits := t.getD 1 0 <<< fieldBase ||| t.getD 0 0
  let below := lowBits < primeLowBits || (t.drop 2).dropLast.any (· < fieldBaseMask) ||
    t.getLastD 0 < fieldMSBMask
  let lowBits := lowBits - (mask 64 (!below) &&& primeLowBits)
  (lowBits &&& fieldBaseMask) :: (lowBits >>> fieldBase &&& fieldBaseMask) ::
    (t.drop 2).map (· &&& mask 32 below)

def normalize (f : FieldWords) : Tracked FieldWords := do
  let (t, m) ← compact 32 (scaled [] f.words)
  -- what this carries out of the top word is dropped
  let (t, _) ← compact 32 (merge (scaled [] t) [[[m, 977]], [[m, 64]]])
  return ofWords (subtractPrime t)

/-- The upper words of a product, times 2^260 modulo the prime, at the words they are added to. -/
def reduceColumns (low high : List Nat) (t19 : Nat) : List (List (List Nat)) :=
  merge (scaled [] low)
    (merge ([] :: scaled [1024] high) (scaled [15632] high ++ [[[t19, 68719492368]]]))

/-- The reduction at the end of `Mul2` and of `SquareVal`. -/
def reduce (t : List Nat) (t19 : Nat) : Tracked FieldWords := do
  let (t, m) ← compact 64 (reduceColumns (t.take 10) (t.drop 10) t19)
  let (n, d) ← carry 64 fieldBase 0 (merge (scaled [] (t.take 2)) [[[m, 977]], [[m, 64]]])
  let n2 ← word 64 (d + t.getD 2 0)
  toUint32 (n ++ n2 :: t.drop 3)

def mul2 (val val2 : FieldWords) : Tracked FieldWords := do
  let (t, t19) ← carry 64 fieldBase 0 (mulColumns val.words val2.words)
  reduce t t19

def squareVal (val : FieldWords) : Tracked FieldWords := do
  let (t, t19) ← carry 64 fieldBase 0 (squareColumns val.words)
  reduce t t19

/-- `Square` a number of times. -/
def squares : Nat → FieldWords → Tracked FieldWords
  | 0, f => pure f
  | n + 1, f => do
    let f ← squareVal f
    squares n f

/-- The last part of `Inverse`: ten squares and a product, over and over. -/
def squaresAndProducts (f : FieldWords) (factors : List FieldWords) : Tracked FieldWords :=
  factors.foldlM (fun f a => do
    let f ← squares 10 f
    mul2 f a) f

def inverse (f : FieldWords) : Tracked FieldWords := do
  let a2 ← squareVal f
  let a3 ← mul2 a2 f
  let a4 ← squareVal a2
  let a8 ← squareVal a4
  let a10 ← mul2 a8 a2
  let a11 ← mul2 a10 f
  let a21 ← mul2 a10 a11
  let a42 ← squareVal a21
  let a45 ← mul2 a42 a3
  let a63 ← mul2 a42 a21
  let a1008 ← squares 4 a63
  let a1019 ← mul2 a1008 a11
  let a1023 ← mul2 a1019 a4
  squaresAndProducts a63 (List.replicate 21 a1023 ++ [a1019, a1023, a1023, a45])

/-! ### Words -/

@[simp] theorem length_words (f : FieldWords) : f.words.length = 10 := by
  simp [words]

theorem words_ofWords {l : List Nat} (hlen : l.length = 10) (hlt : ∀ x ∈ l, x < 2 ^ 32) : (ofWords l).words = l := by
  unfold words ofWords
  rw [Vector.toList_ofFn, List.map_ofFn]
  refine List.ext_getElem (by rw [List.length_ofFn, hlen]) fun i hi hi' => ?_
  have hword := hlt _ (List.getElem_mem hi')
  have hget : l.getD i 0 = l[i] := by simp [hi']
  rw [List.getElem_ofFn, Function.comp_apply, hget, UInt32.toNat_ofNat', Nat.mod_eq_of_lt hword]

theorem toUint32_eq {l : List Nat} (hlt : ∀ x ∈ l, x < 2 ^ 32) : toUint32 l = pure (ofWords l) := by
  have hwords : l.mapM (word 32) = pure l := by
    induction l with
    | nil => rfl
    | cons x l ih =>
      rw [List.forall_mem_cons] at hlt
      rw [List.mapM_cons, word_of_lt hlt.1, pure_bind, ih hlt.2, pure_bind]
  rw [toUint32, hwords, pure_bind]

theorem exists_words {l : List Nat} (hlen : l.length = 10) : ∃ low top, l = low ++ [top] ∧ low.length = 9 := by
  obtain ⟨low, top, rfl⟩ := List.eq_nil_or_concat l |>.resolve_left (by rintro rfl; simp at hlen)
  rw [List.length_concat] at hlen
  exact ⟨low, top, List.concat_eq_append, by omega⟩

theorem value_words {f : FieldWords} (h : f.words = low ++ [top]) (hlen : low.length = 9) :
    f.value = Nat.ofDigits (2 ^ 26) low + 2 ^ 234 * top := by
  unfold value
  rw [h, Nat.ofDigits_append, hlen, Nat.ofDigits_singleton, ← pow_mul]

theorem bounded_words (lowMax topMax : Nat) {f : FieldWords} (h : f.words = low ++ [top]) (hlen : low.length = 9) :
    Bounded lowMax topMax f ↔ (∀ x ∈ low, x ≤ lowMax) ∧ top ≤ topMax := by
  unfold Bounded
  have htop : (low ++ [top]).getD 9 0 = top := by
    rw [← hlen, List.getD_eq_getElem?_getD, List.getElem?_concat_length]
    rfl
  rw [h, List.take_left' hlen, htop]

theorem digits_lt {ts : List Nat} (hlen : ts.length = 9) (hts : ∀ x ∈ ts, x < 2 ^ 26)
    (htop : top < 2 ^ 22) : Nat.ofDigits (2 ^ 26) ts + 2 ^ 234 * top < 2 ^ 256 := by
  have hlt := Nat.ofDigits_lt_base_pow_length (by norm_num) hts
  rw [hlen, ← pow_mul] at hlt
  omega

theorem number_words (a : List Nat) : number (2 ^ 26) (scaled [] a) = Nat.ofDigits (2 ^ 26) a := by
  rw [number_scaled, List.prod_nil, Nat.mul_one]

theorem scaled_append (factors a b : List Nat) : scaled factors (a ++ b) = scaled factors a ++ scaled factors b :=
  List.map_append

theorem compact_eq {w C M D : Nat} {cs : List (List (List Nat))} {last : List (List Nat)}
    (hcs : ∀ c ∈ cs, Fits w C c) (hlast : Fits w D last) (hlen : cs.length = 9) (hC : M + C < 2 ^ w)
    (hM : (M + C) / 2 ^ 26 ≤ M) (hD : M + D < 2 ^ w) :
    ∃ ts top m, compact w (cs ++ [last]) = pure (ts ++ [top], m) ∧ ts.length = 9 ∧
      (∀ x ∈ ts, x < 2 ^ 26) ∧ top < 2 ^ 22 ∧ m ≤ (M + D) / 2 ^ 22 ∧
      Nat.ofDigits (2 ^ 26) ts + 2 ^ 234 * top + 2 ^ 256 * m = number (2 ^ 26) (cs ++ [last]) := by
  obtain ⟨ts, out, hcarry, hts, hlt, hout, hvalue⟩ := carry_eq _ hcs hC hM (Nat.zero_le M)
  have htotal := hlast.2
  refine ⟨ts, (out + total last) % 2 ^ 22, (out + total last) / 2 ^ 22, ?_, hts.trans hlen, hlt,
    Nat.mod_lt _ (by norm_num), Nat.div_le_div_right (by omega), ?_⟩
  · have hgetLast : (cs ++ [last]).getLastD [] = last := by simp
    unfold compact
    rw [List.dropLast_concat, hgetLast, fieldBase, hcarry, pure_bind]
    dsimp only
    rw [columnSum_eq hlast (by omega), pure_bind, fieldMSBMask, Nat.and_two_pow_sub_one_eq_mod,
      Nat.shiftRight_eq_div_pow]
    rfl
  · rw [hlen, ← pow_mul] at hvalue
    rw [number_append, number_cons, number_nil, hlen, ← pow_mul]
    have hdiv := Nat.mod_add_div (out + total last) (2 ^ 22)
    omega

/-! ### Normalization -/

theorem and_mask {w x : Nat} {b : Bool} (h : x < 2 ^ w) : x &&& mask w b = if b then x else 0 := by
  cases b with
  | false => simp [mask]
  | true => rw [mask, if_pos rfl, Nat.and_two_pow_sub_one_eq_mod, Nat.mod_eq_of_lt h, if_pos rfl]

theorem curveP_eq : curveP + primeGap = 2 ^ 256 := by decide

theorem ofDigits_zeros (b : Nat) (l : List Nat) : Nat.ofDigits b (l.map fun _ => 0) = 0 := by
  induction l with
  | nil => rfl
  | cons x l ih => rw [List.map_cons, Nat.ofDigits_cons, ih, Nat.mul_zero]

theorem high_eq_iff {mid : List Nat} (hlen : mid.length = 7) (hmid : ∀ x ∈ mid, x < 2 ^ 26)
    (htop : top < 2 ^ 22) : Nat.ofDigits (2 ^ 26) mid + 2 ^ 182 * top + 1 = 2 ^ 204 ↔
      (∀ x ∈ mid, ¬ x < fieldBaseMask) ∧ ¬ top < fieldMSBMask := by
  have hlt := Nat.ofDigits_lt_base_pow_length (by norm_num) hmid
  have hmax : Nat.ofDigits (2 ^ 26) mid + 1 = (2 ^ 26) ^ mid.length ↔ ∀ x ∈ mid, x = fieldBaseMask :=
    ofDigits_add_one_eq_iff (by decide) hmid
  rw [hlen, ← pow_mul] at hlt hmax
  have hwords : (∀ x ∈ mid, ¬ x < fieldBaseMask) ↔ ∀ x ∈ mid, x = fieldBaseMask := by
    refine forall_congr' fun x => forall_congr' fun hx => ?_
    have := hmid x hx
    unfold fieldBaseMask
    omega
  rw [hwords, ← hmax, fieldMSBMask]
  omega

theorem subtractPrime_cons {t0 t1 : Nat} {mid : List Nat} (h0 : t0 < 2 ^ 26) {below : Bool}
    (hbelow : (decide (t0 + 2 ^ 26 * t1 < primeLowBits) || mid.any (· < fieldBaseMask) ||
      decide (top < fieldMSBMask)) = below) : subtractPrime (t0 :: t1 :: mid ++ [top]) =
      (t0 + 2 ^ 26 * t1 - (mask 64 (!below) &&& primeLowBits)) % 2 ^ 26 ::
        (t0 + 2 ^ 26 * t1 - (mask 64 (!below) &&& primeLowBits)) / 2 ^ 26 % 2 ^ 26 ::
        mid.map (· &&& mask 32 below) ++ [top &&& mask 32 below] := by
  have hlow : t1 <<< 26 ||| t0 = t0 + 2 ^ 26 * t1 := by
    rw [← Nat.shiftLeft_add_eq_or_of_lt h0, Nat.shiftLeft_eq, Nat.add_comm, Nat.mul_comm]
  have hgetLast : (t0 :: t1 :: mid ++ [top]).getLastD 0 = top := by simp [List.getLast?_cons]
  have hdrop : (t0 :: t1 :: mid ++ [top]).drop 2 = mid ++ [top] := rfl
  have hget0 : (t0 :: t1 :: mid ++ [top]).getD 0 0 = t0 := rfl
  have hget1 : (t0 :: t1 :: mid ++ [top]).getD 1 0 = t1 := rfl
  unfold subtractPrime
  rw [hgetLast, hdrop, hget0, hget1, List.dropLast_concat]
  dsimp only [fieldBase]
  rw [hlow, hbelow, fieldBaseMask, Nat.and_two_pow_sub_one_eq_mod, Nat.and_two_pow_sub_one_eq_mod,
    Nat.shiftRight_eq_div_pow, List.map_append]
  rfl

theorem subtractPrime_eq {ts : List Nat} (hlen : ts.length = 9) (hts : ∀ x ∈ ts, x < 2 ^ 26) (htop : top < 2 ^ 22) :
    ∃ us up, subtractPrime (ts ++ [top]) = us ++ [up] ∧ us.length = 9 ∧ (∀ x ∈ us, x < 2 ^ 26) ∧
      up < 2 ^ 22 ∧ Nat.ofDigits (2 ^ 26) us + 2 ^ 234 * up = (Nat.ofDigits (2 ^ 26) ts + 2 ^ 234 * top) % curveP := by
  obtain ⟨t0, t1, mid, rfl⟩ : ∃ t0 t1 mid, ts = t0 :: t1 :: mid := by
    obtain ⟨t0, ts, rfl⟩ := List.exists_cons_of_length_eq_add_one hlen
    obtain ⟨t1, mid, rfl⟩ := List.exists_cons_of_length_eq_add_one (Nat.succ.inj hlen)
    exact ⟨t0, t1, mid, rfl⟩
  rw [List.forall_mem_cons, List.forall_mem_cons] at hts
  obtain ⟨h0, h1, hmid⟩ := hts
  have hmidLen : mid.length = 7 := by simpa using hlen
  have hlt := Nat.ofDigits_lt_base_pow_length (by norm_num) hmid
  rw [hmidLen, ← pow_mul] at hlt
  have hvalue : Nat.ofDigits (2 ^ 26) (t0 :: t1 :: mid) + 2 ^ 234 * top =
      t0 + 2 ^ 26 * t1 + 2 ^ 52 * (Nat.ofDigits (2 ^ 26) mid + 2 ^ 182 * top) := by
    rw [Nat.ofDigits_cons, Nat.ofDigits_cons]
    ring
  have hhigh := high_eq_iff hmidLen hmid htop
  have hp : curveP = primeLowBits + 2 ^ 52 * (2 ^ 204 - 1) := by decide
  have hlowBits : primeLowBits < 2 ^ 52 := by decide
  cases hbelow : (decide (t0 + 2 ^ 26 * t1 < primeLowBits) || mid.any (· < fieldBaseMask) ||
    decide (top < fieldMSBMask)) with
  | true =>
    -- the masks keep the words of a value below the prime
    have hkeep : ∀ x ∈ mid, x &&& mask 32 true = x := fun x hx => by
      rw [and_mask (lt_trans (hmid x hx) (by norm_num)), if_pos rfl]
    refine ⟨t0 :: t1 :: mid, top, ?_, hlen,
      List.forall_mem_cons.mpr ⟨h0, List.forall_mem_cons.mpr ⟨h1, hmid⟩⟩, htop, ?_⟩
    · rw [subtractPrime_cons h0 hbelow, List.map_congr_left hkeep, List.map_id',
        and_mask (lt_trans htop (by norm_num)), if_pos rfl]
      have hmod : (t0 + 2 ^ 26 * t1) % 2 ^ 26 = t0 := by omega
      have hdiv : (t0 + 2 ^ 26 * t1) / 2 ^ 26 % 2 ^ 26 = t1 := by omega
      simp only [mask, Bool.not_true, if_neg Bool.false_ne_true, Nat.zero_and, Nat.sub_zero, hmod, hdiv]
    · refine (Nat.mod_eq_of_lt ?_).symm
      simp only [Bool.or_eq_true, decide_eq_true_eq, List.any_eq_true] at hbelow
      have hnotMax : t0 + 2 ^ 26 * t1 < primeLowBits ∨
          Nat.ofDigits (2 ^ 26) mid + 2 ^ 182 * top + 1 ≠ 2 ^ 204 := by
        rcases hbelow with (hbelow | ⟨x, hx, hbelow⟩) | hbelow
        · exact .inl hbelow
        · exact .inr fun h => (hhigh.mp h).1 x hx hbelow
        · exact .inr fun h => (hhigh.mp h).2 hbelow
      rw [hvalue, hp]
      omega
  | false =>
    -- all words but the low ones are those of the prime, and become zero
    have hzero : ∀ x ∈ mid, x &&& mask 32 false = 0 := fun x _ => by simp [mask]
    have hones : mask 64 (!false) &&& primeLowBits = primeLowBits := by decide
    refine ⟨(t0 + 2 ^ 26 * t1 - primeLowBits) % 2 ^ 26 :: (t0 + 2 ^ 26 * t1 - primeLowBits) / 2 ^ 26 % 2 ^ 26 ::
      mid.map fun _ => 0, 0, ?_, by simp [hmidLen], ?_, by norm_num, ?_⟩
    · rw [subtractPrime_cons h0 hbelow, hones, List.map_congr_left hzero, and_mask (lt_trans htop (by norm_num)),
        if_neg Bool.false_ne_true]
    · have hmod : ∀ x, x % 2 ^ 26 < 2 ^ 26 := fun x => Nat.mod_lt x (by norm_num)
      refine List.forall_mem_cons.mpr ⟨hmod _, List.forall_mem_cons.mpr ⟨hmod _, fun x hx => ?_⟩⟩
      obtain ⟨y, -, rfl⟩ := List.mem_map.mp hx
      norm_num
    · simp only [Bool.or_eq_false_iff, decide_eq_false_iff_not, List.any_eq_false, decide_eq_true_eq] at hbelow
      have hmax := hhigh.mpr ⟨hbelow.1.2, hbelow.2⟩
      rw [Nat.ofDigits_cons, Nat.ofDigits_cons, ofDigits_zeros, hvalue]
      have hsub : t0 + 2 ^ 26 * t1 + 2 ^ 52 * (Nat.ofDigits (2 ^ 26) mid + 2 ^ 182 * top) =
          t0 + 2 ^ 26 * t1 - primeLowBits + curveP := by
        rw [hp]
        omega
      have hsmall : (t0 + 2 ^ 26 * t1 - primeLowBits) % curveP = t0 + 2 ^ 26 * t1 - primeLowBits :=
        Nat.mod_eq_of_lt (by rw [hp]; omega)
      rw [hsub, Nat.add_mod_right, hsmall]
      omega

/-- The words are digits, with a top word of 22 bits, and stand for `v`. -/
def IsNormal (f : FieldWords) (v : Nat) : Prop :=
  f.value = v ∧ (∀ x ∈ f.words.take 9, x < 2 ^ 26) ∧ f.words.getD 9 0 < 2 ^ 22

theorem words_injective {f g : FieldWords} (h : f.words = g.words) : f = g := by
  obtain ⟨⟨⟨f⟩, hf⟩⟩ := f
  obtain ⟨⟨⟨g⟩, hg⟩⟩ := g
  have hmap : f.map UInt32.toNat = g.map UInt32.toNat := h
  obtain rfl := List.map_injective_iff.mpr (fun _ _ => UInt32.toNat_inj.mp) hmap
  rfl

theorem IsNormal.unique {f g : FieldWords} {v : Nat} (hf : IsNormal f v) (hg : IsNormal g v) : f = g := by
  have hlt : ∀ {f : FieldWords}, IsNormal f v → ∀ x ∈ f.words, x < 2 ^ 26 := by
    intro f hf x hx
    obtain ⟨low, top, hwords, hlen⟩ := exists_words f.length_words
    have hbound := (bounded_words (2 ^ 26 - 1) (2 ^ 26 - 1) hwords hlen).mp ⟨fun y hy => by
      have := hf.2.1 y hy
      omega, by
      have := hf.2.2; omega⟩
    rw [hwords, List.mem_append, List.mem_singleton] at hx
    rcases hx with hx | rfl
    · have := hbound.1 x hx
      omega
    · have := hbound.2
      omega
  apply words_injective
  refine Nat.ofDigits_inj_of_len_eq (by norm_num) ?_ (hlt hf) (hlt hg) (hf.1.trans hg.1.symm)
  rw [length_words, length_words]

theorem words_ofWords_concat {us : List Nat} {up low : Nat} (hlen : us.length = 9)
    (hus : ∀ x ∈ us, x < low) (hup : up < top) (hlow : low ≤ 2 ^ 32) (htop : top ≤ 2 ^ 32) :
    (ofWords (us ++ [up])).words = us ++ [up] := by
  refine words_ofWords (by rw [List.length_append, hlen]; rfl) fun x hx => ?_
  rcases List.mem_append.mp hx with hx | hx
  · exact (hus x hx).trans_le hlow
  · rw [List.mem_singleton.mp hx]
    exact hup.trans_le htop

theorem isNormal_ofWords {us : List Nat} {up : Nat} (hlen : us.length = 9) (hus : ∀ x ∈ us, x < 2 ^ 26)
    (hup : up < 2 ^ 22) : IsNormal (ofWords (us ++ [up])) (Nat.ofDigits (2 ^ 26) us + 2 ^ 234 * up) := by
  have hwords := words_ofWords_concat hlen hus hup (by norm_num) (by norm_num)
  obtain ⟨hlow, htop⟩ := (bounded_words (2 ^ 26 - 1) (2 ^ 22 - 1) hwords hlen).mpr
    ⟨fun x hx => Nat.le_pred_of_lt (hus x hx), Nat.le_pred_of_lt hup⟩
  exact ⟨value_words hwords hlen, fun x hx => Nat.lt_of_le_pred (by norm_num) (hlow x hx),
    Nat.lt_of_le_pred (by norm_num) htop⟩

/-- The part above 2^256 as it is added to the two low words. -/
theorem fits_gap {w C m : Nat} (hm : m * 977 ≤ C) (hw : C < 2 ^ w) : ∀ c ∈ [[[m, 977]], [[m, 64]]], Fits w C c := by
  refine List.forall_mem_cons.mpr ⟨?_, List.forall_mem_singleton.mpr ?_⟩
  · exact ⟨List.forall_mem_singleton.mpr (product_pair (by omega)), by simpa [total] using hm⟩
  · exact ⟨List.forall_mem_singleton.mpr (product_pair (by omega)), by simp [total]; omega⟩

theorem normalize_eq {f : FieldWords} (hf : Bounded (32 * (2 ^ 26 - 1)) (32 * (2 ^ 22 - 1)) f) :
    ∃ r, normalize f = pure r ∧ IsNormal r ((f.value % 2 ^ 256 + f.value / 2 ^ 256 * primeGap) % 2 ^ 256 % curveP) := by
  obtain ⟨low, top, hwords, hlen⟩ := exists_words f.length_words
  obtain ⟨hlow, htop⟩ := (bounded_words _ _ hwords hlen).mp hf
  have hcolumns : scaled [] f.words = scaled [] low ++ [[[top]]] := by rw [hwords, scaled_append]; rfl
  have hlast : Fits 32 (32 * (2 ^ 22 - 1)) [[top]] :=
    ⟨List.forall_mem_singleton.mpr (product_single top), by simpa using htop⟩
  obtain ⟨ts, t9, m, hfirst, htsLen, hts, ht9, hm, hvalue⟩ := compact_eq (M := 31) (fits_words hlow) hlast
    (by rw [scaled, List.length_map, hlen]) (by norm_num) (by norm_num) (by norm_num)
  rw [← hcolumns] at hfirst hvalue
  rw [number_words] at hvalue
  have hmLe : m ≤ 31 := hm.trans (by norm_num)
  have hsmall := digits_lt htsLen hts ht9
  have hmod : f.value % 2 ^ 256 = Nat.ofDigits (2 ^ 26) ts + 2 ^ 234 * t9 := by
    unfold value
    omega
  have hdiv : f.value / 2 ^ 256 = m := by
    unfold value
    omega
  -- the second pass, with the part above 2^256 added to the two low words
  have hadded := fits_gap (w := 32) (Nat.mul_le_mul_right 977 hmLe) (by norm_num)
  have hsecondColumns : merge (scaled [] (ts ++ [t9])) [[[m, 977]], [[m, 64]]] =
      merge (scaled [] ts) [[[m, 977]], [[m, 64]]] ++ [[[t9]]] := by
    rw [scaled_append, merge_append (by simp [scaled, htsLen])]
    rfl
  have hlast' : Fits 32 (2 ^ 22 - 1) [[t9]] :=
    ⟨List.forall_mem_singleton.mpr (product_single t9), by simpa using Nat.le_pred_of_lt ht9⟩
  obtain ⟨us, u9, m', hsecond, husLen, hus, hu9, -, hvalue'⟩ := compact_eq (M := 2)
    (fits_merge (fits_words fun x hx => Nat.le_pred_of_lt (hts x hx)) hadded) hlast'
    (by simp [length_merge, scaled, htsLen]) (by norm_num) (by norm_num) (by norm_num)
  rw [← hsecondColumns] at hsecond hvalue'
  rw [number_merge, number_words, Nat.ofDigits_append, htsLen, Nat.ofDigits_singleton] at hvalue'
  simp only [number_cons, number_nil, total_cons, total_nil, List.prod_cons, List.prod_nil] at hvalue'
  have hsmall' := digits_lt husLen hus hu9
  obtain ⟨vs, v9, hsub, hvsLen, hvs, hv9, hresult⟩ := subtractPrime_eq husLen hus hu9
  refine ⟨ofWords (vs ++ [v9]), ?_, ?_⟩
  · rw [normalize, hfirst, pure_bind]
    dsimp only
    rw [hsecond, pure_bind]
    dsimp only
    rw [hsub]
  · have hsum : (f.value % 2 ^ 256 + f.value / 2 ^ 256 * primeGap) % 2 ^ 256 =
        Nat.ofDigits (2 ^ 26) us + 2 ^ 234 * u9 := by
      rw [hmod, hdiv, primeGap]
      omega
    rw [hsum, ← hresult]
    exact isNormal_ofWords hvsLen hvs hv9

theorem Bounded.exists_value {f : FieldWords} {lowMax topMax : Nat} (hf : Bounded lowMax topMax f) :
    ∃ n top, f.value = n + 2 ^ 234 * top ∧ n * (2 ^ 26 - 1) + lowMax ≤ lowMax * 2 ^ 234 ∧ top ≤ topMax := by
  obtain ⟨low, top, hwords, hlen⟩ := exists_words f.length_words
  obtain ⟨hlow, htop⟩ := (bounded_words _ _ hwords hlen).mp hf
  have hdigits := ofDigits_add_le (b := 2 ^ 26 - 1) hlow
  rw [hlen] at hdigits
  have hbase : 2 ^ 26 - 1 + 1 = 2 ^ 26 := rfl
  rw [hbase, ← pow_mul] at hdigits
  exact ⟨_, top, value_words hwords hlen, hdigits, htop⟩

theorem value_div_le {f : FieldWords} (hf : Bounded (32 * (2 ^ 26 - 1)) (32 * (2 ^ 22 - 1)) f) :
    f.value / 2 ^ 256 ≤ 31 := by
  obtain ⟨n, top, hvalue, hn, htop⟩ := hf.exists_value
  omega

/-- `Normalize` gives the normal form of the value modulo the prime if the part above 2^256 can be added
without a carry out of the top word, and something else if it cannot. No operation wraps around. -/
theorem normalize_reduces_iff {f : FieldWords} (hf : Bounded (32 * (2 ^ 26 - 1)) (32 * (2 ^ 22 - 1)) f) :
    (∃ r, normalize f = ⟨r, false⟩ ∧ IsNormal r (f.value % curveP) ∧ ∀ g, IsNormal g (f.value % curveP) → g = r) ↔
    f.value % 2 ^ 256 + f.value / 2 ^ 256 * primeGap < 2 ^ 256 := by
  obtain ⟨r, hr, hnormal⟩ := normalize_eq hf
  have hm := value_div_le hf
  have hp := curveP_eq
  have hgap : primeGap = 2 ^ 32 + 977 := by decide
  have hsum : f.value % curveP = (f.value % 2 ^ 256 + f.value / 2 ^ 256 * primeGap) % curveP := by
    have hvalue : f.value = f.value % 2 ^ 256 + f.value / 2 ^ 256 * primeGap + curveP * (f.value / 2 ^ 256) := by
      have hsplit : 2 ^ 256 * (f.value / 2 ^ 256) =
          curveP * (f.value / 2 ^ 256) + f.value / 2 ^ 256 * primeGap := by
        rw [Nat.mul_comm _ primeGap, ← Nat.add_mul, hp]
      have hdiv := Nat.mod_add_div f.value (2 ^ 256)
      omega
    conv_lhs => rw [hvalue, Nat.add_mul_mod_self_left]
  constructor
  · rintro ⟨r', hr', hnormal', -⟩
    obtain rfl : r = r' := congrArg Tracked.val (hr.symm.trans hr')
    by_contra hcarry
    have hadded : f.value / 2 ^ 256 * primeGap ≤ 31 * primeGap := Nat.mul_le_mul_right _ hm
    -- the carry is worth the gap once more
    have heq := hnormal.1.symm.trans (hnormal'.1.trans hsum)
    have hrest : (f.value % 2 ^ 256 + f.value / 2 ^ 256 * primeGap) % 2 ^ 256 =
        f.value % 2 ^ 256 + f.value / 2 ^ 256 * primeGap - 2 ^ 256 := by
      omega
    have hshift : f.value % 2 ^ 256 + f.value / 2 ^ 256 * primeGap =
        f.value % 2 ^ 256 + f.value / 2 ^ 256 * primeGap - 2 ^ 256 + primeGap + curveP := by
      omega
    have hless : f.value % 2 ^ 256 + f.value / 2 ^ 256 * primeGap - 2 ^ 256 + primeGap < curveP := by
      omega
    rw [hrest, Nat.mod_eq_of_lt (by omega)] at heq
    rw [hshift, Nat.add_mod_right, Nat.mod_eq_of_lt hless] at heq
    omega
  · intro hfits
    rw [Nat.mod_eq_of_lt hfits, ← hsum] at hnormal
    exact ⟨r, hr, hnormal, fun g hg => hg.unique hnormal⟩

theorem normalize_reduces_iff_prime_succ :
    ∃ r, normalize (ofWords ([0x3fffc30, 0x3ffffbf] ++ List.replicate 7 0x3ffffff ++ [0x3fffff])) = ⟨r, false⟩ ∧
      IsNormal r ((ofWords ([0x3fffc30, 0x3ffffbf] ++ List.replicate 7 0x3ffffff ++ [0x3fffff])).value % curveP) ∧
      ∀ g, IsNormal g
        ((ofWords ([0x3fffc30, 0x3ffffbf] ++ List.replicate 7 0x3ffffff ++ [0x3fffff])).value % curveP) → g = r :=
  (normalize_reduces_iff (by decide)).mpr (by decide)

/-- The value 2^257 - 1, which is twice the gap less one modulo the prime. -/
theorem normalize_drops_carry :
    Bounded (32 * (2 ^ 26 - 1)) (32 * (2 ^ 22 - 1)) (ofWords (List.replicate 9 0x3ffffff ++ [0x7fffff])) ∧
    (ofWords (List.replicate 9 0x3ffffff ++ [0x7fffff])).value % curveP = 2 * primeGap - 1 ∧
    (normalize (ofWords (List.replicate 9 0x3ffffff ++ [0x7fffff]))).val.value = primeGap - 1 := by
  decide

/-! ### Products -/

def IsProduct (r : FieldWords) (v : Nat) : Prop :=
  r.value ≡ v [MOD curveP] ∧ (∀ x ∈ r.words.take 9, x < 2 ^ 26 + 2 ^ 20) ∧ r.words.getD 9 0 < 2 ^ 22

theorem ofDigits_append_add {b : Nat} {high : List Nat} (hlen : low.length = 10) (x : Nat) :
    Nat.ofDigits b (low ++ high) + b ^ 19 * x = Nat.ofDigits b low + b ^ 10 * (Nat.ofDigits b high + b ^ 9 * x) := by
  rw [Nat.ofDigits_append, hlen]
  ring

theorem reduceColumns_eq {high : List Nat} (l9 h18 t19 : Nat) (hlow : low.length = 9)
    (hhigh : high.length = 8) : reduceColumns (low ++ [l9]) (high ++ [h18]) t19 =
      merge (scaled [] low) (merge ([] :: scaled [1024] high) (scaled [15632] (high ++ [h18]))) ++
        [[[l9]] ++ ([[h18, 1024]] ++ [[t19, 68719492368]])] := by
  unfold reduceColumns
  have hsecond : [] :: scaled [1024] (high ++ [h18]) = ([] :: scaled [1024] high) ++ [[[h18, 1024]]] := by
    rw [scaled_append]
    rfl
  have hfirst : scaled [] (low ++ [l9]) = scaled [] low ++ [[[l9]]] := by
    rw [scaled_append]
    rfl
  rw [hfirst, hsecond, merge_concat (by simp [scaled, hhigh]), merge_concat]
  simp [length_merge, scaled, hlow, hhigh]

theorem add_magnitude {ts : List Nat} {m : Nat} (hlen : ts.length = 9) (hts : ∀ x ∈ ts, x < 2 ^ 26)
    (htop : top < 2 ^ 22) (hm : m ≤ 2 ^ 39) :
    ∃ n d r, carry 64 26 0 (merge (scaled [] ((ts ++ [top]).take 2)) [[[m, 977]], [[m, 64]]]) = pure (n, d) ∧
      word 64 (d + (ts ++ [top]).getD 2 0) = pure (d + (ts ++ [top]).getD 2 0) ∧
      toUint32 (n ++ (d + (ts ++ [top]).getD 2 0) :: (ts ++ [top]).drop 3) = pure r ∧
      r.value = Nat.ofDigits (2 ^ 26) ts + 2 ^ 234 * top + m * primeGap ∧
      (∀ x ∈ r.words.take 9, x < 2 ^ 26 + 2 ^ 20) ∧ r.words.getD 9 0 < 2 ^ 22 := by
  obtain ⟨t0, t1, t2, rest, rfl⟩ : ∃ t0 t1 t2 rest, ts = t0 :: t1 :: t2 :: rest := by
    obtain ⟨t0, ts, rfl⟩ := List.exists_cons_of_length_eq_add_one hlen
    obtain ⟨t1, ts, rfl⟩ := List.exists_cons_of_length_eq_add_one (Nat.succ.inj hlen)
    obtain ⟨t2, rest, rfl⟩ := List.exists_cons_of_length_eq_add_one (Nat.succ.inj (Nat.succ.inj hlen))
    exact ⟨t0, t1, t2, rest, rfl⟩
  rw [List.forall_mem_cons, List.forall_mem_cons, List.forall_mem_cons] at hts
  obtain ⟨h0, h1, h2, hrest⟩ := hts
  have hadded := fits_gap (w := 64) (Nat.mul_le_mul_right 977 hm) (by norm_num)
  have hlow : ∀ x ∈ [t0, t1], x ≤ 2 ^ 26 :=
    List.forall_mem_cons.mpr ⟨h0.le, List.forall_mem_singleton.mpr h1.le⟩
  obtain ⟨n, d, hcarry, hnLen, hn, -, hvalue⟩ := carry_eq 26 (M := 2 ^ 24) (m := 0)
    (fits_merge (fits_words (w := 64) hlow) hadded) (by norm_num) (by norm_num) (Nat.zero_le _)
  rw [number_merge, number_words] at hvalue
  simp only [number_cons, number_nil, total_cons, total_nil, List.prod_cons, List.prod_nil,
    Nat.ofDigits_cons, Nat.ofDigits_nil] at hvalue
  have hnLen : n.length = 2 := hnLen
  have hpow : (2 ^ 26) ^ (merge (scaled [] [t0, t1]) [[[m, 977]], [[m, 64]]]).length = 2 ^ 52 := by
    rw [← pow_mul]
    rfl
  rw [hpow] at hvalue
  -- the words carry little into the third one
  have hd : d ≤ 2 ^ 19 + 1 := by omega
  have hget : (t0 :: t1 :: t2 :: rest ++ [top]).getD 2 0 = t2 := rfl
  have hdrop : (t0 :: t1 :: t2 :: rest ++ [top]).drop 3 = rest ++ [top] := rfl
  have hlist : n ++ (d + t2) :: (rest ++ [top]) = (n ++ (d + t2) :: rest) ++ [top] := by simp
  have husLen : (n ++ (d + t2) :: rest).length = 9 := by
    simp only [List.length_append, List.length_cons] at hlen ⊢
    omega
  have hus : ∀ x ∈ n ++ (d + t2) :: rest, x < 2 ^ 26 + 2 ^ 20 := by
    intro x hx
    rcases List.mem_append.mp hx with hx | hx
    · have := hn x hx
      omega
    · rcases List.mem_cons.mp hx with rfl | hx
      · omega
      · have := hrest x hx
        omega
  have hwords := words_ofWords_concat husLen hus htop (by norm_num) (by norm_num)
  obtain ⟨hlowWords, htopWord⟩ := (bounded_words (2 ^ 26 + 2 ^ 20 - 1) (2 ^ 22 - 1) hwords
    husLen).mpr ⟨fun x hx => Nat.le_pred_of_lt (hus x hx), Nat.le_pred_of_lt htop⟩
  refine ⟨n, d, ofWords (n ++ (d + t2) :: rest ++ [top]), hcarry, ?_, ?_, ?_,
    fun x hx => Nat.lt_of_le_pred (by norm_num) (hlowWords x hx), Nat.lt_of_le_pred (by norm_num) htopWord⟩
  · rw [hget]
    exact word_of_lt (by omega)
  · rw [hget, hdrop, hlist]
    refine toUint32_eq fun x hx => ?_
    rcases List.mem_append.mp hx with hx | hx
    · exact (hus x hx).trans (by norm_num)
    · rw [List.mem_singleton.mp hx]
      exact htop.trans (by norm_num)
  · rw [value_words hwords husLen, Nat.ofDigits_append, hnLen, Nat.ofDigits_cons, Nat.ofDigits_cons,
      Nat.ofDigits_cons, Nat.ofDigits_cons, primeGap]
    omega

theorem reduce_eq {t : List Nat} {t19 : Nat} (hlen : t.length = 19) (ht : ∀ x ∈ t, x < 2 ^ 26)
    (ht19 : t19 ≤ 2 ^ 24 + 18) :
    ∃ r, reduce t t19 = pure r ∧ IsProduct r (Nat.ofDigits (2 ^ 26) t + (2 ^ 26) ^ 19 * t19) := by
  obtain ⟨low, l9, hlow, hlowLen⟩ := exists_words (l := t.take 10) (by rw [List.length_take, hlen]; rfl)
  obtain ⟨high, h18, hhigh⟩ : ∃ high h18, t.drop 10 = high ++ [h18] := by
    obtain ⟨high, h18, h⟩ := List.eq_nil_or_concat (t.drop 10) |>.resolve_left
      (List.ne_nil_of_length_pos (by rw [List.length_drop, hlen]; decide))
    exact ⟨high, h18, by rw [h, List.concat_eq_append]⟩
  have hhighLen : high.length = 8 := by
    have := congrArg List.length hhigh
    simp only [List.length_drop, hlen, List.length_append, List.length_singleton] at this
    omega
  have hsplit : t = (low ++ [l9]) ++ (high ++ [h18]) := by rw [← hlow, ← hhigh, List.take_append_drop]
  have hle : ∀ x ∈ t, x ≤ 2 ^ 26 - 1 := fun x hx => Nat.le_pred_of_lt (ht x hx)
  have hlowLe : ∀ x ∈ low ++ [l9], x ≤ 2 ^ 26 - 1 := fun x hx => hle x (hsplit ▸ List.mem_append_left _ hx)
  have hhighLe : ∀ x ∈ high ++ [h18], x ≤ 2 ^ 26 - 1 := fun x hx => hle x (hsplit ▸ List.mem_append_right _ hx)
  have hl9 : l9 ≤ 2 ^ 26 - 1 := hlowLe l9 (by simp)
  have hh18 : h18 ≤ 2 ^ 26 - 1 := hhighLe h18 (by simp)
  have hcs : ∀ c ∈ merge (scaled [] low) (merge ([] :: scaled [1024] high) (scaled [15632] (high ++ [h18]))),
      Fits 64 (2 ^ 26 - 1 + ((2 ^ 26 - 1) * 1024 + (2 ^ 26 - 1) * 15632)) c := by
    refine fits_merge (fits_words fun x hx => hlowLe x (by simp [hx])) (fits_merge ?_ ?_)
    · exact List.forall_mem_cons.mpr ⟨fits_nil.mono (Nat.zero_le _),
        fits_scaled (fun x hx => hhighLe x (by simp [hx])) (by norm_num)⟩
    · exact fits_scaled hhighLe (by norm_num)
  have hlast : Fits 64 (2 ^ 26 - 1 + ((2 ^ 26 - 1) * 1024 + (2 ^ 24 + 18) * 68719492368))
      ([[l9]] ++ ([[h18, 1024]] ++ [[t19, 68719492368]])) := by
    refine Fits.append ?_ (Fits.append ?_ ?_)
    · exact ⟨List.forall_mem_singleton.mpr (product_single l9), by simpa using hl9⟩
    · exact ⟨List.forall_mem_singleton.mpr (product_pair (by norm_num; omega)), by simp [total]; omega⟩
    · exact ⟨List.forall_mem_singleton.mpr (product_pair (by norm_num; omega)), by simp [total]; omega⟩
  obtain ⟨ts, top, m, hcompact, htsLen, hts, htop, hm, hvalue⟩ := compact_eq (M := 2 ^ 15) hcs hlast
    (by simp [length_merge, scaled, hlowLen, hhighLen]) (by norm_num) (by norm_num) (by norm_num)
  rw [← reduceColumns_eq l9 h18 t19 hlowLen hhighLen] at hcompact hvalue
  obtain ⟨n, d, r, hcarry, hword, hconvert, hr, hbounds⟩ := add_magnitude htsLen hts htop (hm.trans (by norm_num))
  refine ⟨r, ?_, ?_, hbounds⟩
  · rw [reduce, hlow, hhigh, hcompact, pure_bind]
    dsimp only [fieldBase]
    rw [hcarry, pure_bind]
    dsimp only
    rw [hword, pure_bind, hconvert]
  · -- 2^260 is sixteen times the gap modulo the prime
    have hnumber : number (2 ^ 26) (reduceColumns (low ++ [l9]) (high ++ [h18]) t19) =
        Nat.ofDigits (2 ^ 26) (low ++ [l9]) +
          16 * primeGap * (Nat.ofDigits (2 ^ 26) (high ++ [h18]) + 2 ^ 234 * t19) := by
      unfold reduceColumns
      simp only [number_merge, number_append, number_cons, number_nil, number_scaled, total_cons, total_nil,
        List.prod_cons, List.prod_nil]
      have hscaled : (scaled [15632] (high ++ [h18])).length = 9 := by simp [scaled, hhighLen]
      rw [hscaled, primeGap]
      ring
    have hquotient : Nat.ofDigits (2 ^ 26) t + (2 ^ 26) ^ 19 * t19 =
        r.value + curveP * (m + 16 * (Nat.ofDigits (2 ^ 26) (high ++ [h18]) + 2 ^ 234 * t19)) := by
      have hpow : (2 ^ 26) ^ 10 = 16 * (curveP + primeGap) := by decide
      have hp := curveP_eq
      have hlen10 : (low ++ [l9]).length = 10 := by rw [List.length_append, hlowLen]; rfl
      rw [hsplit, ofDigits_append_add hlen10, hpow, ← pow_mul, hr]
      rw [hnumber, ← hp] at hvalue
      have harith : ∀ {p g l q v m : Nat}, v + (p + g) * m = l + 16 * g * q →
          l + 16 * (p + g) * q = v + m * g + p * (m + 16 * q) := by
        intro p g l q v m h
        linarith
      exact harith hvalue
    rw [hquotient]
    exact (Nat.add_mul_mod_self_left _ _ _).symm

abbrev Magnitude8 : FieldWords → Prop := Bounded (2 ^ 29 + 2 ^ 23) (2 ^ 25)

theorem Magnitude8.words_le {f : FieldWords} (hf : Magnitude8 f) : ∀ x ∈ f.words, x ≤ 2 ^ 29 + 2 ^ 23 := by
  obtain ⟨low, top, hwords, hlen⟩ := exists_words f.length_words
  obtain ⟨hlow, htop⟩ := (bounded_words _ _ hwords hlen).mp hf
  intro x hx
  rw [hwords, List.mem_append, List.mem_singleton] at hx
  rcases hx with hx | rfl
  · exact hlow x hx
  · exact htop.trans (by norm_num)

theorem Magnitude8.value_le {f : FieldWords} (hf : Magnitude8 f) : f.value ≤ (2 ^ 25 + 9) * 2 ^ 234 := by
  obtain ⟨n, top, hvalue, hn, htop⟩ := Bounded.exists_value hf
  omega

theorem IsProduct.magnitude8 {r : FieldWords} {v : Nat} (h : IsProduct r v) : Magnitude8 r :=
  ⟨fun x hx => (h.2.1 x hx).le.trans (by norm_num), h.2.2.le.trans (by norm_num)⟩

theorem carry_product_le {value out total : Nat} (h : value + (2 ^ 26) ^ 19 * out = total)
    (htotal : total ≤ ((2 ^ 25 + 9) * 2 ^ 234) * ((2 ^ 25 + 9) * 2 ^ 234)) : out ≤ 2 ^ 24 + 18 := by
  by_contra hout
  have hlarge : (2 ^ 26) ^ 19 * (2 ^ 24 + 19) ≤ (2 ^ 26) ^ 19 * out := Nat.mul_le_mul_left _ (by omega)
  have hfalse : ((2 ^ 25 + 9) * 2 ^ 234) * ((2 ^ 25 + 9) * 2 ^ 234) < (2 ^ 26) ^ 19 * (2 ^ 24 + 19) := by
    decide
  omega

theorem reduce_columns {cs : List (List (List Nat))} {v : Nat} (hlen : cs.length = 19)
    (hfits : ∀ c ∈ cs, Fits 64 (2 * (2 ^ 29 + 2 ^ 23) * (2 ^ 29 + 2 ^ 23) * 10) c)
    (hvalue : number (2 ^ 26) cs = v) (hv : v ≤ ((2 ^ 25 + 9) * 2 ^ 234) * ((2 ^ 25 + 9) * 2 ^ 234)) :
    ∃ r, (carry 64 fieldBase 0 cs >>= fun p => reduce p.1 p.2) = pure r ∧ IsProduct r v := by
  obtain ⟨ts, out, hcarry, htsLen, hts, -, htotal⟩ := carry_eq 26 (M := 2 ^ 37) hfits
    (by norm_num) (by norm_num) (Nat.zero_le _)
  rw [hlen, Nat.zero_add, hvalue] at htotal
  obtain ⟨r, hr, hproduct⟩ := reduce_eq (htsLen.trans hlen) hts (carry_product_le htotal hv)
  refine ⟨r, ?_, htotal ▸ hproduct⟩
  rw [fieldBase, hcarry, pure_bind]
  exact hr

theorem mul2_eq {f g : FieldWords} (hf : Magnitude8 f) (hg : Magnitude8 g) :
    ∃ r, mul2 f g = pure r ∧ IsProduct r (f.value * g.value) := by
  refine reduce_columns ?_ (fun c hc => ?_) (number_mulColumns f.words g.words)
    (Nat.mul_le_mul hf.value_le hg.value_le)
  · have hne : ∀ f : FieldWords, f.words ≠ [] := fun f =>
      List.ne_nil_of_length_pos (by rw [length_words]; decide)
    have := length_mulColumns (hne f) (hne g)
    rw [length_words, length_words] at this
    omega
  · refine (fits_mulColumns hf.words_le hg.words_le (by norm_num) c hc).mono ?_
    rw [length_words]
    norm_num

theorem squareVal_eq {f : FieldWords} (hf : Magnitude8 f) :
    ∃ r, squareVal f = pure r ∧ IsProduct r (f.value * f.value) := by
  refine reduce_columns ?_ (fun c hc => ?_) (number_squareColumns f.words)
    (Nat.mul_le_mul hf.value_le hf.value_le)
  ·
    have := length_squareColumns (List.ne_nil_of_length_pos (by rw [length_words]; decide : 0 < f.words.length))
    rw [length_words] at this
    omega
  · have hfit := fits_squareColumns (w := 64) hf.words_le (by norm_num) (by norm_num) c hc
    rwa [length_words] at hfit

/-! ### The inverse -/

/-- A value of magnitude 8 that is a power of `a` modulo the prime. -/
def IsPower (a : FieldWords) (e : Nat) (f : FieldWords) : Prop :=
  Magnitude8 f ∧ f.value ≡ a.value ^ e [MOD curveP]

variable {a : FieldWords}

theorem IsPower.mul2 {e k : Nat} {f g : FieldWords} (hf : IsPower a e f) (hg : IsPower a k g) :
    ∃ r, f.mul2 g = pure r ∧ IsPower a (e + k) r := by
  obtain ⟨r, hr, hproduct⟩ := mul2_eq hf.1 hg.1
  refine ⟨r, hr, hproduct.magnitude8, hproduct.1.trans ?_⟩
  rw [pow_add]
  exact hf.2.mul hg.2

theorem IsPower.squareVal {e : Nat} {f : FieldWords} (hf : IsPower a e f) :
    ∃ r, f.squareVal = pure r ∧ IsPower a (2 * e) r := by
  obtain ⟨r, hr, hproduct⟩ := squareVal_eq hf.1
  refine ⟨r, hr, hproduct.magnitude8, hproduct.1.trans ?_⟩
  rw [two_mul, pow_add]
  exact hf.2.mul hf.2

theorem IsPower.squares {e : Nat} {f : FieldWords} (hf : IsPower a e f) (n : Nat) :
    ∃ r, squares n f = pure r ∧ IsPower a (2 ^ n * e) r := by
  induction n generalizing e f with
  | zero => exact ⟨f, rfl, by rwa [pow_zero, one_mul]⟩
  | succ n ih =>
    obtain ⟨g, hg, hpower⟩ := hf.squareVal
    obtain ⟨r, hr, hresult⟩ := ih hpower
    refine ⟨r, ?_, ?_⟩
    · rw [FieldWords.squares, hg, pure_bind, hr]
    · rwa [pow_succ, mul_assoc]

theorem IsPower.squaresAndProducts {e : Nat} {f : FieldWords} (hf : IsPower a e f) {factors : List FieldWords}
    {exponents : List Nat} (hfactors : List.Forall₂ (IsPower a) exponents factors) :
    ∃ r, squaresAndProducts f factors = pure r ∧ IsPower a (exponents.foldl (fun e k => 2 ^ 10 * e + k) e) r := by
  induction hfactors generalizing e f with
  | nil => exact ⟨f, rfl, hf⟩
  | cons hfactor _ ih =>
    obtain ⟨g, hg, hpower⟩ := hf.squares 10
    obtain ⟨g', hg', hpower'⟩ := hpower.mul2 hfactor
    obtain ⟨r, hr, hresult⟩ := ih hpower'
    refine ⟨r, ?_, hresult⟩
    rw [FieldWords.squaresAndProducts, List.foldlM_cons, hg, pure_bind, hg', pure_bind]
    exact hr

theorem inverse_eq (ha : Magnitude8 a) : ∃ r, inverse a = pure r ∧ IsPower a (curveP - 2) r := by
  have h1 : IsPower a 1 a := ⟨ha, by rw [pow_one]⟩
  obtain ⟨a2, ha2, h2⟩ := h1.squareVal
  obtain ⟨a3, ha3, h3⟩ := h2.mul2 h1
  obtain ⟨a4, ha4, h4⟩ := h2.squareVal
  obtain ⟨a8, ha8, h8⟩ := h4.squareVal
  obtain ⟨a10, ha10, h10⟩ := h8.mul2 h2
  obtain ⟨a11, ha11, h11⟩ := h10.mul2 h1
  obtain ⟨a21, ha21, h21⟩ := h10.mul2 h11
  obtain ⟨a42, ha42, h42⟩ := h21.squareVal
  obtain ⟨a45, ha45, h45⟩ := h42.mul2 h3
  obtain ⟨a63, ha63, h63⟩ := h42.mul2 h21
  obtain ⟨a1008, ha1008, h1008⟩ := h63.squares 4
  obtain ⟨a1019, ha1019, h1019⟩ := h1008.mul2 h11
  obtain ⟨a1023, ha1023, h1023⟩ := h1019.mul2 h4
  have hrepeated : ∀ n, List.Forall₂ (IsPower a) (List.replicate n 1023) (List.replicate n a1023) := by
    intro n
    induction n with
    | zero => exact .nil
    | succ n ih => exact .cons h1023 ih
  have hfactors : List.Forall₂ (IsPower a) (List.replicate 21 1023 ++ [1019, 1023, 1023, 45])
      (List.replicate 21 a1023 ++ [a1019, a1023, a1023, a45]) :=
    List.rel_append (hrepeated 21) (.cons h1019 (.cons h1023 (.cons h1023 (.cons h45 .nil))))
  obtain ⟨r, hr, hresult⟩ := h63.squaresAndProducts hfactors
  refine ⟨r, ?_, ?_⟩
  · rw [inverse, ha2, pure_bind, ha3, pure_bind, ha4, pure_bind, ha8, pure_bind, ha10, pure_bind, ha11, pure_bind,
      ha21, pure_bind, ha42, pure_bind, ha45, pure_bind, ha63, pure_bind, ha1008, pure_bind, ha1019, pure_bind,
      ha1023, pure_bind, hr]
  · have hexponent : (List.replicate 21 1023 ++ [1019, 1023, 1023, 45]).foldl (fun e k => 2 ^ 10 * e + k) 63 =
        curveP - 2 := by
      decide
    rw [← hexponent]
    exact hresult

/-- The products and the inverse on values of magnitude 8, and that no operation wraps around. -/
theorem products_and_inverse {f g : FieldWords} (hf : Bounded (2 ^ 29 + 2 ^ 23) (2 ^ 25) f)
    (hg : Bounded (2 ^ 29 + 2 ^ 23) (2 ^ 25) g) : (∃ r, mul2 f g = ⟨r, false⟩ ∧ IsProduct r (f.value * g.value)) ∧
    (∃ r, squareVal f = ⟨r, false⟩ ∧ IsProduct r (f.value * f.value)) ∧
    (¬ f.value ≡ 0 [MOD curveP] → ∃ r, inverse f = ⟨r, false⟩ ∧
      r.value ≡ f.value ^ (curveP - 2) [MOD curveP] ∧ f.value * r.value ≡ 1 [MOD curveP]) := by
  refine ⟨mul2_eq hf hg, squareVal_eq hf, fun hne => ?_⟩
  obtain ⟨r, hr, -, hpower⟩ := inverse_eq hf
  refine ⟨r, hr, hpower, ?_⟩
  have hfermat : f.value ^ (curveP - 1) ≡ 1 [MOD curveP] := by
    have hne' : (f.value : ZMod curveP) ≠ 0 := fun h =>
      hne ((ZMod.natCast_eq_natCast_iff _ _ _).mp (h.trans Nat.cast_zero.symm))
    apply (ZMod.natCast_eq_natCast_iff _ _ _).mp
    rw [Nat.cast_pow, Nat.cast_one]
    exact ZMod.pow_card_sub_one_eq_one hne'
  calc f.value * r.value ≡ f.value * f.value ^ (curveP - 2) [MOD curveP] := hpower.mul_left _
    _ = f.value ^ (curveP - 1) := by
      rw [← pow_succ']
      rfl
    _ ≡ 1 [MOD curveP] := hfermat

theorem products_and_inverse_two : (∃ r, mul2 (ofWords [2]) (ofWords [3]) = ⟨r, false⟩ ∧ IsProduct r 6) ∧
    (∃ r, squareVal (ofWords [2]) = ⟨r, false⟩ ∧ IsProduct r 4) ∧
    ∃ r, inverse (ofWords [2]) = ⟨r, false⟩ ∧ r.value ≡ 2 ^ (curveP - 2) [MOD curveP] ∧
      2 * r.value ≡ 1 [MOD curveP] := by
  have htwo : (ofWords [2]).value = 2 := by decide
  have hthree : (ofWords [3]).value = 3 := by decide
  have h := products_and_inverse (f := ofWords [2]) (g := ofWords [3]) (by decide) (by decide)
  rw [htwo, hthree] at h
  exact ⟨h.1, h.2.1, h.2.2 (by decide)⟩

end FieldWords

end Prova
