import Prova.Txscript.Engine

/-!
# The two checks of a strict signature encoding

`ParseDERSignature` (`btcec/signature.go`) reads a signature front to back; `checkSignatureEncoding`
(`txscript/engine.go`) looks at single bytes of it. Both accept encodings of one form, two integers
without superfluous bytes. They differ in what else they ask: the parser allows bytes after the
signature and wants integers in range, the engine limits the length.
-/

namespace Prova

open List

variable {lowS : Bool} {sig : Bytes} {i : Nat}

variable {r s : Bytes}

/-- An integer that is not negative and has no leading zero byte it could do without. -/
def CanonicalInt : Bytes → Prop
  | [] => False
  | [first] => first &&& 0x80 = 0
  | first :: second :: _ => first &&& 0x80 = 0 ∧ (first = 0 → second &&& 0x80 ≠ 0)

def derInt (b : Bytes) : Bytes := 0x02 :: UInt8.ofNat b.length :: b

def derEncode (r s : Bytes) : Bytes :=
  0x30 :: UInt8.ofNat (r.length + s.length + 4) :: (derInt r ++ derInt s)

theorem length_derEncode (r s : Bytes) : (derEncode r s).length = r.length + s.length + 6 := by
  simp only [derEncode, derInt, length_cons, length_append]
  omega

theorem CanonicalInt.length_pos {b : Bytes} (h : CanonicalInt b) : 0 < b.length := by
  cases b with
  | nil => exact h.elim
  | cons first b => exact Nat.succ_pos _

theorem and_high_bit (x : UInt8) : x &&& 0x80 = 0 ∨ x &&& 0x80 = 0x80 := by
  revert x
  exact forall_byte (by decide +kernel)

theorem high_bit_iff (x : UInt8) : x &&& 0x80 = 0x80 ↔ x &&& 0x80 ≠ 0 := by
  rcases and_high_bit x with h | h
  · rw [h]
    decide
  · rw [h]
    decide

theorem le_of_high_bit {x : UInt8} (h : x &&& 0x80 ≠ 0) : 0x80 ≤ x.toNat := by
  have hall : ∀ x : UInt8, x &&& 0x80 ≠ 0 → 0x80 ≤ x.toNat := forall_byte (by decide +kernel)
  exact hall x h

theorem checkPadding_eq_ok {e : IntErrors} {b : Bytes} : checkPadding e true b = .ok () ↔ CanonicalInt b := by
  cases b with
  | nil => exact iff_of_false (fun h => nomatch h) id
  | cons first b =>
    by_cases hneg : first &&& 0x80 = 0x80
    · have hpadding : canonicalPadding (first :: b) = .ok (some .negativeValue) := by
        rw [canonicalPadding, sigByte, getElem?_cons_zero, ok_bind, if_pos hneg]
        rfl
      refine iff_of_false ?_ fun h => ?_
      · rw [checkPadding, if_pos rfl, hpadding]
        exact fun h => nomatch h
      · cases b with
        | nil => exact (high_bit_iff first).mp hneg h
        | cons second b => exact (high_bit_iff first).mp hneg h.1
    · have hclear : first &&& 0x80 = 0 := (and_high_bit first).resolve_right hneg
      cases b with
      | nil =>
        refine iff_of_true ?_ hclear
        rw [checkPadding, if_pos rfl, canonicalPadding, sigByte, getElem?_cons_zero, ok_bind,
          if_neg hneg, if_neg (by simp)]
        rfl
      | cons second b =>
        by_cases hzero : first = 0
        · have hpadding : canonicalPadding (first :: second :: b) =
              .ok (if second &&& 0x80 ≠ 0x80 then some .excessivelyPaddedValue else none) := by
            rw [canonicalPadding, sigByte, getElem?_cons_zero, ok_bind, if_neg hneg,
              if_pos ⟨Nat.succ_lt_succ (Nat.succ_pos _), hzero⟩, sigByte]
            rfl
          rw [checkPadding, if_pos rfl, hpadding]
          by_cases hbit : second &&& 0x80 = 0x80
          · rw [if_neg (not_not.mpr hbit)]
            exact iff_of_true rfl ⟨hclear, fun _ => (high_bit_iff second).mp hbit⟩
          · rw [if_pos hbit]
            exact iff_of_false (fun h => nomatch h) fun h => hbit ((high_bit_iff second).mpr (h.2 hzero))
        · refine iff_of_true ?_ ⟨hclear, fun h => absurd h hzero⟩
          rw [checkPadding, if_pos rfl, canonicalPadding, sigByte, getElem?_cons_zero, ok_bind,
            if_neg hneg, if_neg fun h => hzero h.2]
          rfl

/-! ### The parser -/

theorem parseInt_eq_ok {e : IntErrors} {sigStr : Bytes} {index room n next : Nat} :
    parseInt e sigStr index room true = .ok (n, next) ↔
      ∃ b post, sigStr.drop index = derInt b ++ post ∧ room ≤ post.length ∧ b.length < 256 ∧
        CanonicalInt b ∧ n = beNat b ∧ next = index + 2 + b.length := by
  constructor
  · intro h
    obtain ⟨marker, hmarker, h⟩ := bind_eq_ok.mp h
    obtain ⟨hmark, h⟩ := bind_unit_eq_ok.mp h
    obtain ⟨len, hlen, h⟩ := bind_eq_ok.mp h
    obtain ⟨hroom, h⟩ := bind_unit_eq_ok.mp h
    obtain ⟨b, hb, h⟩ := bind_eq_ok.mp h
    obtain ⟨hpadding, h⟩ := bind_unit_eq_ok.mp h
    cases h
    rw [sigByte_eq_ok] at hmarker hlen
    rw [reject_eq_ok, not_not] at hmark
    rw [reject_eq_ok, not_or, Nat.not_lt] at hroom
    rw [sigSlice_of_le (Nat.le_add_right ..) (by omega)] at hb
    cases hb
    have hlength : ((sigStr.take (index + 2 + len.toNat)).drop (index + 2)).length = len.toNat := by
      rw [length_drop, length_take]
      omega
    have hslice : (sigStr.take (index + 2 + len.toNat)).drop (index + 2) =
        (sigStr.drop (index + 2)).take len.toNat := by
      rw [drop_take, Nat.add_sub_cancel_left]
    refine ⟨_, sigStr.drop (index + 2 + len.toNat), ?_, ?_, ?_, checkPadding_eq_ok.mp hpadding, rfl, ?_⟩
    · have htail : sigStr.drop (index + 2 + len.toNat) = (sigStr.drop (index + 2)).drop len.toNat :=
        (drop_drop ..).symm
      rw [derInt, hlength, UInt8.ofNat_toNat, drop_of_getElem? hmarker, drop_of_getElem? hlen, hmark, hslice,
        htail, cons_append, cons_append, take_append_drop]
    · rw [length_drop]
      omega
    · rw [hlength]
      exact len.toNat_lt
    · rw [hlength]
  · intro ⟨b, post, hdrop, hroom, hshort, hcanonical, hn, hnext⟩
    have hpos := hcanonical.length_pos
    have hlength := congrArg List.length hdrop
    rw [length_drop] at hlength
    simp only [derInt, length_append, length_cons] at hlength
    have hmarker : sigStr[index]? = some 0x02 := by
      rw [← Nat.add_zero index, ← getElem?_drop, hdrop]
      rfl
    have hlen : sigStr[index + 1]? = some (UInt8.ofNat b.length) := by
      rw [← getElem?_drop, hdrop]
      rfl
    have htoNat : (UInt8.ofNat b.length).toNat = b.length := UInt8.toNat_ofNat_of_lt' hshort
    have hslice : sigSlice sigStr (index + 2) (index + 2 + b.length) = .ok b := by
      rw [sigSlice_of_le (Nat.le_add_right ..) (by omega), drop_take, Nat.add_sub_cancel_left, ← drop_drop, hdrop]
      exact congrArg Except.ok take_left
    refine bind_eq_ok.mpr ⟨_, sigByte_eq_ok.mpr hmarker, bind_unit_eq_ok.mpr ⟨?_, ?_⟩⟩
    · exact reject_eq_ok.mpr (not_not.mpr rfl)
    · refine bind_eq_ok.mpr ⟨_, sigByte_eq_ok.mpr hlen, ?_⟩
      rw [htoNat]
      refine bind_unit_eq_ok.mpr ⟨reject_eq_ok.mpr (by omega), ?_⟩
      refine bind_eq_ok.mpr ⟨b, hslice, bind_unit_eq_ok.mpr ⟨checkPadding_eq_ok.mpr hcanonical, ?_⟩⟩
      rw [hn, hnext]
      rfl

def ScalarInRange (n : Nat) : Prop := 1 ≤ n ∧ n ≤ curveN - 1

instance : DecidablePred ScalarInRange := fun _ => inferInstanceAs (Decidable (_ ∧ _))

theorem checkInts_eq_ok {length index r s : Nat} {sig : Signature} : checkInts length index r s = .ok sig ↔
      index = length ∧ ScalarInRange r ∧ ScalarInRange s ∧ sig = ⟨r, s⟩ := by
  unfold checkInts ScalarInRange
  simp only [bind_unit_eq_ok, reject_eq_ok, pure_eq_ok]
  have hpos : 0 < curveN := by decide
  constructor
  · rintro ⟨hend, hr, hs, hrN, hsN, rfl⟩
    refine ⟨not_not.mp hend, ⟨?_, ?_⟩, ⟨?_, ?_⟩, rfl⟩ <;> omega
  · rintro ⟨hend, hr, hs, rfl⟩
    refine ⟨not_not.mpr hend, ?_, ?_, ?_, ?_, rfl⟩ <;> omega

theorem parseDERSignature_derEncode (hcanR : CanonicalInt r) (hcanS : CanonicalInt s)
    (hshort : r.length + s.length + 4 < 254) (hrangeR : ScalarInRange (beNat r)) (hrangeS : ScalarInRange (beNat s))
    (trailing : Bytes) : parseDERSignature (derEncode r s ++ trailing) = .ok ⟨beNat r, beNat s⟩ := by
  have hposR := hcanR.length_pos
  have hposS := hcanS.length_pos
  have hlength := length_derEncode r s
  have hlenByte : (UInt8.ofNat (r.length + s.length + 4) + 2).toNat = r.length + s.length + 6 := by
    rw [UInt8.toNat_add, UInt8.toNat_ofNat_of_lt' (by change _ < 256; omega)]
    change (r.length + s.length + 4 + 2) % 256 = _
    omega
  have hr : parseInt rErrors (derEncode r s) 2 3 true = .ok (beNat r, 2 + 2 + r.length) := by
    refine parseInt_eq_ok.mpr ⟨r, derInt s, rfl, ?_, by omega, hcanR, rfl, rfl⟩
    simp only [derInt, length_cons]
    omega
  have hs : parseInt sErrors (derEncode r s) (2 + 2 + r.length) 0 true =
      .ok (beNat s, 2 + 2 + r.length + 2 + s.length) := by
    refine parseInt_eq_ok.mpr ⟨s, [], ?_, Nat.zero_le _, by omega, hcanS, rfl, rfl⟩
    have hskip : 2 + 2 + r.length = 2 + (derInt r).length := by
      simp only [derInt, length_cons]
      omega
    rw [hskip, ← drop_drop, append_nil]
    exact drop_left
  have htotal : (derEncode r s ++ trailing).length = r.length + s.length + 6 + trailing.length := by
    rw [length_append, hlength]
  refine bind_unit_eq_ok.mpr ⟨reject_eq_ok.mpr (by omega), ?_⟩
  refine bind_eq_ok.mpr ⟨0x30, rfl, bind_unit_eq_ok.mpr ⟨rfl, ?_⟩⟩
  refine bind_eq_ok.mpr ⟨UInt8.ofNat (r.length + s.length + 4), rfl, ?_⟩
  rw [hlenByte]
  refine bind_unit_eq_ok.mpr ⟨reject_eq_ok.mpr (by omega), bind_eq_ok.mpr ⟨derEncode r s, ?_, ?_⟩⟩
  · rw [sigSlice_of_le (Nat.zero_le _) (by omega), take_left' hlength]
    rfl
  · refine bind_eq_ok.mpr ⟨_, hr, bind_eq_ok.mpr ⟨_, hs, checkInts_eq_ok.mpr ⟨?_, hrangeR, hrangeS, rfl⟩⟩⟩
    omega

theorem parseDERSignature_ok_iff (htrailing : sig.length ≤ (sig.getD 1 0).toNat + 2) :
    (∃ signature, parseDERSignature sig = .ok signature) ↔
      ∃ r s, sig = derEncode r s ∧ CanonicalInt r ∧ CanonicalInt s ∧ r.length + s.length + 4 < 254 ∧
        ScalarInRange (beNat r) ∧ ScalarInRange (beNat s) := by
  constructor
  · rintro ⟨signature, h⟩
    obtain ⟨hlong, h⟩ := bind_unit_eq_ok.mp h
    obtain ⟨magic, hmagic, h⟩ := bind_eq_ok.mp h
    obtain ⟨hheader, h⟩ := bind_unit_eq_ok.mp h
    obtain ⟨siglen, hsiglen, h⟩ := bind_eq_ok.mp h
    obtain ⟨hfits, h⟩ := bind_unit_eq_ok.mp h
    obtain ⟨trimmed, htrim, h⟩ := bind_eq_ok.mp h
    obtain ⟨⟨rn, index⟩, hr, h⟩ := bind_eq_ok.mp h
    obtain ⟨⟨sn, final⟩, hs, h⟩ := bind_eq_ok.mp h
    rw [sigByte_eq_ok] at hmagic hsiglen
    rw [reject_eq_ok, not_not] at hheader
    rw [reject_eq_ok, Nat.not_lt] at hfits hlong
    rw [sigSlice_of_le (Nat.zero_le _) hfits, drop_zero] at htrim
    cases htrim
    obtain ⟨r, post, hdropR, hroom, -, hcanR, rfl, rfl⟩ := parseInt_eq_ok.mp hr
    obtain ⟨s, rest, hdropS, -, -, hcanS, rfl, rfl⟩ := parseInt_eq_ok.mp hs
    obtain ⟨hend, hrangeR, hrangeS, -⟩ := checkInts_eq_ok.mp h
    -- the sum has not wrapped, since the trimmed string has a marker at index 2
    have hsum : (siglen + 2).toNat = (siglen.toNat + 2) % 256 := UInt8.toNat_add siglen 2
    have hlt := siglen.toNat_lt
    have hget : (sig.getD 1 0).toNat = siglen.toNat := by
      rw [getD_eq_getElem?_getD, hsiglen]
      rfl
    have hlengthR := congrArg List.length hdropR
    simp only [length_drop, length_take, derInt, length_append, length_cons] at hlengthR
    have hwhole : (siglen + 2).toNat = sig.length := by omega
    rw [hwhole, take_length] at hdropR hdropS hend
    have hpost : sig.drop (2 + 2 + r.length) = post := by
      have hskip : 2 + 2 + r.length = 2 + (derInt r).length := by
        simp only [derInt, length_cons]
        omega
      rw [hskip, ← drop_drop, hdropR, drop_left]
    have hnone : rest = [] := by
      have hlengthS := congrArg List.length hdropS
      simp only [length_drop, derInt, length_append, length_cons] at hlengthS
      exact eq_nil_of_length_eq_zero (by omega)
    rw [hpost, hnone, append_nil] at hdropS
    have hsize : sig.length = r.length + s.length + 6 := by omega
    have hlenByte : siglen = UInt8.ofNat (r.length + s.length + 4) := by
      apply UInt8.toNat_inj.mp
      rw [UInt8.toNat_ofNat_of_lt' (by change _ < 256; omega)]
      omega
    refine ⟨r, s, ?_, hcanR, hcanS, by omega, hrangeR, hrangeS⟩
    calc sig = sig.drop 0 := rfl
      _ = magic :: siglen :: sig.drop 2 := by rw [drop_of_getElem? hmagic, drop_of_getElem? hsiglen]
      _ = derEncode r s := by rw [hheader, hlenByte, hdropR, hdropS]; rfl
  · rintro ⟨r, s, rfl, hcanR, hcanS, hshort, hrangeR, hrangeS⟩
    have hparse := parseDERSignature_derEncode hcanR hcanS hshort hrangeR hrangeS []
    rw [append_nil] at hparse
    exact ⟨_, hparse⟩

/-! ### The engine -/

theorem canonicalInt_iff {b : Bytes} : CanonicalInt b ↔ ∃ first, b[0]? = some first ∧ first &&& 0x80 = 0 ∧
    ∀ second, b[1]? = some second → first = 0 → second &&& 0x80 ≠ 0 := by
  match b with
  | [] => simp [CanonicalInt]
  | [first] => simp [CanonicalInt]
  | first :: second :: b => simp [CanonicalInt]

theorem Engine.sigAt_eq_ok {b : UInt8} : Engine.sigAt sig i = .ok b ↔ sig[i]? = some b := by
  unfold Engine.sigAt
  split <;> simp_all

theorem drop_derEncode : (derEncode r s).drop (r.length + 4) = derInt s :=
  drop_left

/-- The two bytes that the engine looks at tell whether a part of the string is canonical. -/
theorem canonicalInt_slice {len : Nat} (hpos : 0 < len) (hlen : i + len ≤ sig.length) :
    CanonicalInt ((sig.drop i).take len) ↔ ∃ first, sig[i]? = some first ∧ first &&& 0x80 = 0 ∧
      (1 < len → first = 0 → ∃ second, sig[i + 1]? = some second ∧ second &&& 0x80 ≠ 0) := by
  simp only [canonicalInt_iff, getElem?_take, if_pos hpos, getElem?_drop, Nat.add_zero]
  refine exists_congr fun first => and_congr_right fun _ => and_congr_right fun _ => ⟨?_, ?_⟩
  · intro h hmore hzero
    have hsecond : sig[i + 1]? = some sig[i + 1] := getElem?_eq_getElem (by omega)
    exact ⟨_, hsecond, h _ (by rw [if_pos hmore, hsecond]) hzero⟩
  · intro h second hsecond hzero
    split_ifs at hsecond with hmore
    obtain ⟨byte, hbyte, hbit⟩ := h hmore hzero
    rw [hbyte] at hsecond
    cases hsecond
    exact hbit

theorem Engine.checkSecondByte_eq_ok {len : Nat} {first : UInt8} : Engine.checkSecondByte sig len first i = .ok () ↔
      (1 < len → first = 0 → ∃ second, sig[i]? = some second ∧ second &&& 0x80 ≠ 0) := by
  unfold checkSecondByte
  split_ifs with hread
  · rw [bind_eq_ok]
    simp only [sigAt_eq_ok, reject_eq_ok]
    exact ⟨fun h _ _ => h, fun h => h hread.1 hread.2⟩
  · exact iff_of_true rfl fun hlen hfirst => absurd ⟨hlen, hfirst⟩ hread

theorem Engine.checkLowS_eq_ok {low high : Nat} (hlow : low ≤ high) (hhigh : high ≤ sig.length) :
    Engine.checkLowS lowS sig low high = .ok () ↔ (lowS = true → beNat ((sig.take high).drop low) ≤ halfOrder) := by
  unfold checkLowS sigRange
  cases lowS with
  | false => exact iff_of_true rfl fun h => absurd h Bool.false_ne_true
  | true =>
    rw [if_pos rfl, if_pos ⟨hlow, hhigh⟩, ok_bind, reject_eq_ok, Nat.not_lt]
    exact ⟨fun h _ => h, fun h => h rfl⟩

theorem Engine.checkDER_ok_iff : Engine.checkDER lowS sig = .ok () ↔
      ∃ r s, sig = derEncode r s ∧ CanonicalInt r ∧ CanonicalInt s ∧ r.length + s.length ≤ 66 ∧
        (lowS = true → beNat s ≤ halfOrder) := by
  unfold checkDER
  simp only [↓bind_unit_eq_ok, bind_eq_ok, reject_eq_ok, sigAt_eq_ok, checkSecondByte_eq_ok, not_not]
  constructor
  · rintro ⟨hshort, hlong, hmagic, total, htotal, hlength, rLen, hrLen, -, sLen, hsLen, hsum, rMarker, hrMarker,
      hrMark, hrPos, r0, hr0, hrSign, hrPadding, sMarker, hsMarker, hsMark, hsPos, s0, hs0, hsSign, hsPadding, hlowS⟩
    have hfirst : sig[0]? = some 0x30 := by
      cases sig with
      | nil => exact absurd (Nat.succ_pos 7) hshort
      | cons first sig => exact congrArg some hmagic
    have hr : ((sig.drop 4).take rLen.toNat).length = rLen.toNat := by
      rw [length_take, length_drop]
      omega
    have hs : (sig.drop (rLen.toNat + 6)).length = sLen.toNat := by
      rw [length_drop]
      omega
    have hslice : sig.drop (rLen.toNat + 6) = (sig.drop (rLen.toNat + 6)).take sLen.toNat := (hs ▸ take_length).symm
    have hsum' : rLen.toNat + 6 + sLen.toNat = sig.length := by omega
    rw [checkLowS_eq_ok (by omega) (by omega), hsum', take_length] at hlowS
    refine ⟨(sig.drop 4).take rLen.toNat, sig.drop (rLen.toNat + 6), ?_, ?_, ?_, by omega, hlowS⟩
    · have htotalByte : total = UInt8.ofNat (rLen.toNat + sLen.toNat + 4) := by
        apply UInt8.toNat_inj.mp
        rw [UInt8.toNat_ofNat_of_lt' (by change _ < 256; omega)]
        omega
      have hdropR : sig.drop 4 = (sig.drop 4).take rLen.toNat ++ sig.drop (rLen.toNat + 4) := by
        rw [Nat.add_comm rLen.toNat, ← drop_drop, take_append_drop]
      calc sig = sig.drop 0 := rfl
        _ = 0x30 :: total :: rMarker :: rLen :: sig.drop 4 := by
          rw [drop_of_getElem? hfirst, drop_of_getElem? htotal, drop_of_getElem? hrMarker, drop_of_getElem? hrLen]
        _ = 0x30 :: total :: 0x02 :: rLen :: ((sig.drop 4).take rLen.toNat ++
            0x02 :: sLen :: sig.drop (rLen.toNat + 6)) := by
          rw [hrMark, ← hsMark, ← drop_of_getElem? hsLen, ← drop_of_getElem? hsMarker, ← hdropR]
        _ = derEncode ((sig.drop 4).take rLen.toNat) (sig.drop (rLen.toNat + 6)) := by
          rw [derEncode, derInt, derInt, hr, hs, ← htotalByte, UInt8.ofNat_toNat, UInt8.ofNat_toNat]
          rfl
    · exact (canonicalInt_slice (by omega) (by omega)).mpr ⟨r0, hr0, hrSign, hrPadding⟩
    · rw [hslice]
      exact (canonicalInt_slice (by omega) (by omega)).mpr ⟨s0, hs0, hsSign, hsPadding⟩
  · rintro ⟨r, s, rfl, hcanR, hcanS, hsize, hlowS⟩
    have hposR := hcanR.length_pos
    have hposS := hcanS.length_pos
    have hlength := length_derEncode r s
    have hdropS : (derEncode r s).drop (r.length + 6) = s := by
      rw [← drop_drop (i := 2) (j := r.length + 4), drop_derEncode]
      rfl
    have hwhole : r.length + 6 + s.length = (derEncode r s).length := by omega
    have hsliceR : ((derEncode r s).drop 4).take r.length = r := take_left
    have hsliceS : ((derEncode r s).drop (r.length + 6)).take s.length = s := by rw [hdropS, take_length]
    obtain ⟨r0, hr0, hrSign, hrPadding⟩ := (canonicalInt_slice hposR (by omega)).mp (hsliceR.symm ▸ hcanR)
    obtain ⟨s0, hs0, hsSign, hsPadding⟩ := (canonicalInt_slice hposS (by omega)).mp (hsliceS.symm ▸ hcanS)
    have hrLen : (UInt8.ofNat r.length).toNat = r.length := UInt8.toNat_ofNat_of_lt' (by change _ < 256; omega)
    have hsLen : (UInt8.ofNat s.length).toNat = s.length := UInt8.toNat_ofNat_of_lt' (by change _ < 256; omega)
    have htotal : (UInt8.ofNat (r.length + s.length + 4)).toNat = r.length + s.length + 4 :=
      UInt8.toNat_ofNat_of_lt' (by change _ < 256; omega)
    have hsMarker : (derEncode r s)[r.length + 4]? = some 0x02 := by
      rw [← Nat.add_zero (r.length + 4), ← getElem?_drop, drop_derEncode]
      rfl
    have hsLenByte : (derEncode r s)[r.length + 5]? = some (UInt8.ofNat s.length) := by
      rw [← getElem?_drop (i := r.length + 4) (j := 1), drop_derEncode]
      rfl
    refine ⟨by omega, by omega, rfl, _, rfl, by omega, UInt8.ofNat r.length, rfl, ?_⟩
    rw [hrLen]
    refine ⟨by omega, UInt8.ofNat s.length, hsLenByte, ?_⟩
    rw [hsLen]
    refine ⟨by omega, 0x02, rfl, rfl, by omega, r0, hr0, hrSign, hrPadding, 0x02, hsMarker, rfl, by omega, s0, hs0,
      hsSign, hsPadding, ?_⟩
    rw [checkLowS_eq_ok (by omega) (by omega), hwhole, take_length, hdropS]
    exact hlowS

/-! ### Reading past the end -/

theorem Engine.sigAt_of_lt (h : i < sig.length) : Engine.sigAt sig i = .ok (sig.getD i 0) := by
  rw [sigAt_eq_ok, getD_eq_getElem?_getD, getElem?_eq_getElem h]
  rfl

theorem Engine.checkSecondByte_ne_panic {len : Nat} {first : UInt8} (h : 1 < len → i < sig.length) :
    Engine.checkSecondByte sig len first i ≠ .error .panic := by
  unfold checkSecondByte
  split_ifs with hread
  · rw [sigAt_of_lt (h hread.1), ok_bind, Ne, reject_eq_error]
    exact fun hcheck => by cases hcheck.2
  · exact fun hcheck => by cases hcheck

theorem Engine.checkLowS_ne_panic {low high : Nat} (hlow : low ≤ high) (hhigh : high ≤ sig.length) :
    Engine.checkLowS lowS sig low high ≠ .error .panic := by
  unfold checkLowS sigRange
  cases lowS with
  | false => exact fun hcheck => by cases hcheck
  | true =>
    rw [if_pos rfl, if_pos ⟨hlow, hhigh⟩, ok_bind, Ne, reject_eq_error]
    exact fun hcheck => by cases hcheck.2

/-- A string in which the length of `R` points to the last byte but none is left for the length of
`S`. -/
def EndsInR (sig : Bytes) : Prop :=
  8 ≤ sig.length ∧ sig.length ≤ 72 ∧ sig.headD 0 = 0x30 ∧ (sig.getD 1 0).toNat = sig.length - 2 ∧
    (sig.getD 3 0).toNat + 5 = sig.length

instance (sig : Bytes) : Decidable (EndsInR sig) := inferInstanceAs (Decidable (_ ∧ _))

theorem Engine.checkDER_eq_panic : Engine.checkDER lowS sig = .error .panic ↔ EndsInR sig := by
  unfold checkDER EndsInR
  rw [reject_bind_eq_error (by decide), reject_bind_eq_error (by decide), reject_bind_eq_error (by decide),
    Nat.not_lt, Nat.not_lt, not_not]
  refine and_congr_right fun hshort => and_congr_right fun hlong => and_congr_right fun hmagic => ?_
  rw [sigAt_of_lt (by omega), ok_bind, reject_bind_eq_error (by decide), not_not]
  refine and_congr_right fun htotal => ?_
  rw [sigAt_of_lt (by omega), ok_bind, reject_bind_eq_error (by decide), Nat.not_lt]
  by_cases hend : (sig.getD 3 0).toNat + 5 = sig.length
  · have hnone : Engine.sigAt sig ((sig.getD 3 0).toNat + 5) = .error .panic := by
      rw [hend, sigAt, getElem?_eq_none (Nat.le_refl _)]
    rw [hnone]
    exact iff_of_true ⟨hend.le, rfl⟩ hend
  · refine iff_of_false (fun h => ?_) hend
    obtain ⟨hfits, h⟩ := h
    rw [sigAt_of_lt (by omega), ok_bind, reject_bind_eq_error (by decide), not_not] at h
    obtain ⟨hsum, h⟩ := h
    rw [sigAt_of_lt (by omega), ok_bind, reject_bind_eq_error (by decide), reject_bind_eq_error (by decide),
      sigAt_of_lt (by omega), ok_bind, reject_bind_eq_error (by decide), bind_eq_error] at h
    obtain ⟨-, hrLen, -, h⟩ := h
    rcases h with h | ⟨_, -, h⟩
    · exact checkSecondByte_ne_panic (fun _ => by omega) h
    rw [sigAt_of_lt (by omega), ok_bind, reject_bind_eq_error (by decide), reject_bind_eq_error (by decide)] at h
    obtain ⟨-, hsLen, h⟩ := h
    rw [sigAt_of_lt (by omega), ok_bind, reject_bind_eq_error (by decide), bind_eq_error] at h
    rcases h.2 with h | ⟨_, -, h⟩
    · exact checkSecondByte_ne_panic (fun _ => by omega) h
    · exact checkLowS_ne_panic (by omega) (by omega) h

/-- `checkSignatureEncoding` stays inside the signature except on the strings that end in `R`, and under
strict encoding it accepts the encodings of 8 to 72 bytes, with a low `S` where that is asked for too. -/
theorem checkSignatureEncoding_inside_and_exact (vm : Engine) (sig : Bytes) :
    (vm.checkSignatureEncoding sig ≠ .error .panic ↔
      ¬ ((vm.hasFlag scriptVerifyDERSignatures || vm.hasFlag scriptVerifyLowS ||
        vm.hasFlag scriptVerifyStrictEncoding) = true ∧ EndsInR sig)) ∧ (vm.hasFlag scriptVerifyStrictEncoding = true →
      (vm.checkSignatureEncoding sig = .ok () ↔
        ∃ r s, sig = derEncode r s ∧ CanonicalInt r ∧ CanonicalInt s ∧ 8 ≤ sig.length ∧ sig.length ≤ 72 ∧
          (vm.hasFlag scriptVerifyLowS = true → beNat s ≤ Engine.halfOrder))) := by
  constructor
  · unfold Engine.checkSignatureEncoding
    split_ifs with hflags
    · rw [Ne, Engine.checkDER_eq_panic, and_iff_right hflags]
    · exact iff_of_true (fun h => by cases h) fun h => hflags h.1
  · intro hstrict
    rw [Engine.checkSignatureEncoding, hstrict, Bool.or_true, if_pos rfl, Engine.checkDER_ok_iff]
    refine exists_congr fun r => exists_congr fun s => ?_
    constructor
    · rintro ⟨rfl, hcanR, hcanS, hsize, hlowS⟩
      have hposR := hcanR.length_pos
      have hposS := hcanS.length_pos
      rw [length_derEncode]
      exact ⟨rfl, hcanR, hcanS, by omega, by omega, hlowS⟩
    · rintro ⟨rfl, hcanR, hcanS, -, hsize, hlowS⟩
      rw [length_derEncode] at hsize
      exact ⟨rfl, hcanR, hcanS, by omega, hlowS⟩

/-! ### Both -/

theorem CanonicalInt.length_le {b : Bytes} (h : CanonicalInt b) (hlt : beNat b ≤ curveN - 1) : b.length ≤ 33 := by
  by_contra hlong
  have hsmall : curveN - 1 < 256 ^ 32 := by decide
  match b with
  | [] => exact hlong (Nat.zero_le _)
  | [first] => exact hlong (by simp)
  | first :: second :: rest =>
    rw [length_cons, length_cons] at hlong
    have hpow : 256 ^ 32 ≤ 256 ^ rest.length := Nat.pow_le_pow_right (by decide) (by omega)
    rw [beNat_cons, beNat_cons, length_cons] at hlt
    by_cases hzero : first = 0
    · have hsecond := le_of_high_bit (h.2 hzero)
      have hmul : 256 ^ rest.length ≤ second.toNat * 256 ^ rest.length := Nat.le_mul_of_pos_left _ (by omega)
      omega
    · have hpos : 0 < first.toNat := by
        rw [Nat.pos_iff_ne_zero]
        exact fun h => hzero (UInt8.toNat_inj.mp h)
      have hmul : 256 ^ (rest.length + 1) ≤ first.toNat * 256 ^ (rest.length + 1) :=
        Nat.le_mul_of_pos_left _ hpos
      have hmore : 256 ^ rest.length ≤ 256 ^ (rest.length + 1) := Nat.pow_le_pow_right (by decide) (Nat.le_succ _)
      omega

def sigR (sig : Bytes) : Nat := beNat ((sig.drop 4).take (sig.getD 3 0).toNat)

def sigS (sig : Bytes) : Nat :=
  let rLen := (sig.getD 3 0).toNat
  beNat ((sig.drop (rLen + 6)).take (sig.getD (rLen + 5) 0).toNat)

theorem sigR_derEncode (hr : r.length < 256) : sigR (derEncode r s) = beNat r := by
  have hrLen : ((derEncode r s).getD 3 0).toNat = r.length := UInt8.toNat_ofNat_of_lt' hr
  rw [sigR, hrLen]
  exact congrArg beNat take_left

theorem sigS_derEncode (hr : r.length < 256) (hs : s.length < 256) : sigS (derEncode r s) = beNat s := by
  have hrLen : ((derEncode r s).getD 3 0).toNat = r.length := UInt8.toNat_ofNat_of_lt' hr
  have hsLen : ((derEncode r s).getD (r.length + 5) 0).toNat = s.length := by
    rw [getD_eq_getElem?_getD, ← getElem?_drop (i := r.length + 4) (j := 1), drop_derEncode]
    exact UInt8.toNat_ofNat_of_lt' hs
  rw [sigS]
  simp only [hrLen, hsLen]
  have hdrop : (derEncode r s).drop (r.length + 6) = s := by
    rw [← drop_drop (i := 2) (j := r.length + 4), drop_derEncode]
    rfl
  rw [hdrop, take_length]

/-- On a string without bytes after the signature whose `R` and `S` are in range, the parser and the
engine agree. -/
theorem parseDERSignature_iff_checkSignatureEncoding {vm : Engine}
    (hstrict : vm.hasFlag scriptVerifyStrictEncoding = true) (hlow : vm.hasFlag scriptVerifyLowS = false)
    {sig : Bytes} (htrailing : sig.length ≤ (sig.getD 1 0).toNat + 2) (hr : ScalarInRange (sigR sig))
    (hs : ScalarInRange (sigS sig)) :
    (∃ signature, parseDERSignature sig = .ok signature) ↔ vm.checkSignatureEncoding sig = .ok () := by
  have hengine : vm.checkSignatureEncoding sig = Engine.checkDER false sig := by
    rw [Engine.checkSignatureEncoding, hstrict, hlow, Bool.or_true, if_pos rfl]
  rw [hengine, Engine.checkDER_ok_iff, parseDERSignature_ok_iff htrailing]
  refine exists_congr fun r => exists_congr fun s => ?_
  constructor
  · rintro ⟨rfl, hcanR, hcanS, -, hrangeR, hrangeS⟩
    have hlenR := hcanR.length_le hrangeR.2
    have hlenS := hcanS.length_le hrangeS.2
    exact ⟨rfl, hcanR, hcanS, by omega, fun h => absurd h Bool.false_ne_true⟩
  · rintro ⟨rfl, hcanR, hcanS, hsize, -⟩
    rw [sigR_derEncode (by omega)] at hr
    rw [sigS_derEncode (by omega) (by omega)] at hs
    exact ⟨rfl, hcanR, hcanS, by omega, hr, hs⟩

def strictEngine : Engine where
  scripts := []
  scriptIdx := 0
  scriptOff := 0
  lastCodeSep := 0
  dstack := []
  astack := []
  tx := ⟨1, [], [], 0⟩
  txIdx := 0
  condStack := []
  numOps := 0
  flags := scriptVerifyStrictEncoding
  bip16 := false
  savedFirstStack := []
  inputAmount := 0

theorem parseDERSignature_iff_checkSignatureEncoding_ones : parseDERSignature (derEncode [1] [1]) = .ok ⟨1, 1⟩ ∧
      strictEngine.checkSignatureEncoding (derEncode [1] [1]) = .ok () := by
  have hparse : parseDERSignature (derEncode [1] [1]) = .ok ⟨1, 1⟩ := by decide
  refine ⟨hparse, ?_⟩
  exact (parseDERSignature_iff_checkSignatureEncoding (by decide) (by decide) (by decide)
    (by decide) (by decide)).mp ⟨_, hparse⟩

/-- Eight bytes whose `R` of three bytes is the end of the string. -/
theorem checkSignatureEncoding_reads_past_end :
    strictEngine.checkSignatureEncoding [0x30, 6, 2, 3, 1, 1, 1, 2] = .error .panic := by
  decide

end Prova
