import Prova.Lib.Checked
import Prova.Btcec.PubKey

/-!
# Signatures (`btcec/signature.go`)

The hand-written DER and BER parser. Lengths are single bytes and `siglen + 2` is computed in a
byte, so it wraps; the accesses that follow are not all guarded, and an access outside the slice is
the `panic` error here.
-/

namespace Prova

open List

variable {der : Bool} {sigStr : Bytes} {index : Nat}

structure Signature where
  r : Nat
  s : Nat
deriving DecidableEq, Repr

inductive SigError
  | tooShort
  | noHeaderMagic
  | badLength
  | no1stIntMarker
  | bogusRLength
  | rNegative
  | rExcessivelyPadded
  | no2ndIntMarker
  | bogusSLength
  | sNegative
  | sExcessivelyPadded
  | badFinalLength
  | rNotPositive
  | sNotPositive
  | rNotBelowN
  | sNotBelowN
  | panic
deriving DecidableEq, Repr

inductive PaddingError
  | negativeValue
  | excessivelyPaddedValue
deriving DecidableEq, Repr

/-- `sigStr[index]`, out of range where Go panics. -/
def sigByte (sigStr : Bytes) (index : Nat) : Except SigError UInt8 :=
  match sigStr[index]? with
  | some b => .ok b
  | none => .error .panic

/-- `sigStr[low:high]`. Go allows a bound up to the capacity of the slice; every bound here is checked
against the length first. -/
def sigSlice (sigStr : Bytes) (low high : Nat) : Except SigError Bytes :=
  if low ≤ high ∧ high ≤ sigStr.length then .ok ((sigStr.take high).drop low) else .error .panic

def canonicalPadding (b : Bytes) : Except SigError (Option PaddingError) := do
  let first ← sigByte b 0
  if first &&& 0x80 = 0x80 then
    return some .negativeValue
  else if 1 < b.length ∧ first = 0 then
    let second ← sigByte b 1
    return if second &&& 0x80 ≠ 0x80 then some .excessivelyPaddedValue else none
  else
    return none

/-- What the parser says about one of the two integers. -/
structure IntErrors where
  noMarker : SigError
  bogusLength : SigError
  negative : SigError
  excessivelyPadded : SigError

def rErrors : IntErrors := ⟨.no1stIntMarker, .bogusRLength, .rNegative, .rExcessivelyPadded⟩

def sErrors : IntErrors := ⟨.no2ndIntMarker, .bogusSLength, .sNegative, .sExcessivelyPadded⟩

/-- The switch on `canonicalPadding`, which only the DER form has. -/
def checkPadding (e : IntErrors) (der : Bool) (b : Bytes) : Except SigError Unit := do
  if der then
    match ← canonicalPadding b with
    | some .negativeValue => throw e.negative
    | some .excessivelyPaddedValue => throw e.excessivelyPadded
    | none => return ()

/-- One integer: the marker at `index`, a length, as many bytes, and at least `room` bytes after
them. The result is the integer and the index behind it. -/
def parseInt (e : IntErrors) (sigStr : Bytes) (index room : Nat) (der : Bool) :
    Except SigError (Nat × Nat) := do
  let marker ← sigByte sigStr index
  reject (marker ≠ 0x02) e.noMarker
  let len := (← sigByte sigStr (index + 1)).toNat
  let index := index + 2
  reject (len = 0 ∨ sigStr.length < len + index + room) e.bogusLength
  let bytes ← sigSlice sigStr index (index + len)
  checkPadding e der bytes
  return (beNat bytes, index + len)

/-- The checks after both integers: the whole slice has been read, and both are in range. -/
def checkInts (length index r s : Nat) : Except SigError Signature := do
  reject (index ≠ length) .badFinalLength
  reject (r = 0) .rNotPositive
  reject (s = 0) .sNotPositive
  reject (curveN ≤ r) .rNotBelowN
  reject (curveN ≤ s) .sNotBelowN
  return ⟨r, s⟩

def parseSig (sigStr : Bytes) (der : Bool) : Except SigError Signature := do
  reject (sigStr.length < 8) .tooShort
  let magic ← sigByte sigStr 0
  reject (magic ≠ 0x30) .noHeaderMagic
  let siglen ← sigByte sigStr 1
  -- the sum is a byte, so the two largest lengths wrap to 0 and 1
  reject (sigStr.length < (siglen + 2).toNat) .badLength
  let sigStr ← sigSlice sigStr 0 (siglen + 2).toNat
  -- R leaves room for the marker, the length and one byte of S
  let (r, index) ← parseInt rErrors sigStr 2 3 der
  let (s, index) ← parseInt sErrors sigStr index 0 der
  checkInts sigStr.length index r s

def parseSignature (sigStr : Bytes) : Except SigError Signature := parseSig sigStr false

def parseDERSignature (sigStr : Bytes) : Except SigError Signature := parseSig sigStr true

/-! ### Where the parser panics

The length byte is the only one that is trusted: once the trimmed slice has its marker and its first
length, every later access is inside it. -/

@[simp] theorem sigByte_eq_ok {b : UInt8} : sigByte sigStr index = .ok b ↔ sigStr[index]? = some b := by
  unfold sigByte
  split <;> simp_all

@[simp] theorem sigByte_eq_error {e : SigError} :
    sigByte sigStr index = .error e ↔ sigStr.length ≤ index ∧ e = .panic := by
  unfold sigByte
  split
  · rename_i b hb
    have hlt : index < sigStr.length := (List.getElem?_eq_some_iff.mp hb).1
    simp
    omega
  · rename_i hb
    simp [getElem?_eq_none_iff.mp hb, eq_comm]

theorem sigSlice_of_le {low high : Nat} (hlow : low ≤ high) (hhigh : high ≤ sigStr.length) :
    sigSlice sigStr low high = .ok ((sigStr.take high).drop low) :=
  if_pos ⟨hlow, hhigh⟩

theorem canonicalPadding_returns {b : Bytes} (hb : 0 < b.length) : ∃ padding, canonicalPadding b = .ok padding := by
  obtain ⟨first, hfirst⟩ : ∃ first, b[0]? = some first := ⟨_, getElem?_eq_getElem hb⟩
  unfold canonicalPadding
  rw [sigByte_eq_ok.mpr hfirst]
  by_cases hneg : first &&& 0x80 = 0x80
  · exact ⟨some .negativeValue, if_pos hneg⟩
  by_cases hpad : 1 < b.length ∧ first = 0
  · -- the second byte is read only when there is one
    obtain ⟨second, hsecond⟩ : ∃ second, b[1]? = some second := ⟨_, getElem?_eq_getElem hpad.1⟩
    refine ⟨if second &&& 0x80 ≠ 0x80 then some .excessivelyPaddedValue else none, ?_⟩
    refine (if_neg hneg).trans ((if_pos hpad).trans ?_)
    rw [sigByte_eq_ok.mpr hsecond]
    rfl
  · exact ⟨none, (if_neg hneg).trans (if_neg hpad)⟩

/-- None of the errors is a panic. -/
def IntErrors.Plain (e : IntErrors) : Prop :=
  e.noMarker ≠ .panic ∧ e.bogusLength ≠ .panic ∧ e.negative ≠ .panic ∧ e.excessivelyPadded ≠ .panic

instance : DecidablePred IntErrors.Plain := fun _ => inferInstanceAs (Decidable (_ ∧ _))

theorem rErrors_plain : rErrors.Plain := by decide

theorem sErrors_plain : sErrors.Plain := by decide

theorem checkPadding_ne_panic {e : IntErrors} (he : e.Plain) (der : Bool) {b : Bytes}
    (hb : 0 < b.length) : checkPadding e der b ≠ .error .panic := by
  obtain ⟨padding, hpadding⟩ := canonicalPadding_returns hb
  obtain ⟨-, -, hneg, hpad⟩ := he
  cases der with
  | false => exact fun h => by cases h
  | true =>
    unfold checkPadding
    rw [hpadding]
    cases padding with
    | none => exact fun h => by cases h
    | some p =>
      cases p with
      | negativeValue => exact fun h => hneg (Except.error.inj h)
      | excessivelyPaddedValue => exact fun h => hpad (Except.error.inj h)

theorem parseInt_panic_iff {e : IntErrors} (he : e.Plain) {sigStr : Bytes} {index room : Nat}
    {der : Bool} : parseInt e sigStr index room der = .error .panic ↔
      sigStr.length ≤ index ∨ sigStr[index]? = some 2 ∧ sigStr.length ≤ index + 1 := by
  unfold parseInt
  constructor
  · intro h
    rcases bind_eq_error.mp h with hmarker | ⟨marker, hmarker, h⟩
    · exact .inl (sigByte_eq_error.mp hmarker).1
    rcases bind_eq_error.mp h with hrej | ⟨_, hrej, h⟩
    · exact absurd (reject_eq_error.mp hrej).2 he.1
    rcases bind_eq_error.mp h with hlen | ⟨len, hlen, h⟩
    · have htwo : marker = 2 := not_not.mp (reject_eq_ok.mp hrej)
      exact .inr ⟨htwo ▸ sigByte_eq_ok.mp hmarker, (sigByte_eq_error.mp hlen).1⟩
    rcases bind_eq_error.mp h with hrej | ⟨_, hroom, h⟩
    · exact absurd (reject_eq_error.mp hrej).2 he.2.1
    -- the length check puts the slice inside the string, and makes it nonempty
    obtain ⟨hpos, hfits⟩ := not_or.mp (reject_eq_ok.mp hroom)
    rw [sigSlice_of_le (by omega) (by omega)] at h
    have hbytes : 0 < ((sigStr.take (index + 2 + len.toNat)).drop (index + 2)).length := by
      rw [length_drop, length_take]
      omega
    rcases bind_eq_error.mp h with h | ⟨bytes, hslice, h⟩
    · cases h
    cases hslice
    rcases bind_eq_error.mp h with h | ⟨_, -, h⟩
    · exact absurd h (checkPadding_ne_panic he der hbytes)
    · cases h
  · rintro (h | ⟨hmarker, hlen⟩)
    · exact bind_eq_error.mpr (.inl (sigByte_eq_error.mpr ⟨h, rfl⟩))
    · refine bind_eq_error.mpr (.inr ⟨2, sigByte_eq_ok.mpr hmarker, ?_⟩)
      refine bind_eq_error.mpr (.inr ⟨(), reject_eq_ok.mpr (not_not.mpr rfl), ?_⟩)
      exact bind_eq_error.mpr (.inl (sigByte_eq_error.mpr ⟨hlen, rfl⟩))

theorem parseInt_room {e : IntErrors} {room : Nat} {parsed : Nat × Nat}
    (h : parseInt e sigStr index room der = .ok parsed) : parsed.2 + room ≤ sigStr.length := by
  obtain ⟨marker, -, h⟩ := bind_eq_ok.mp h
  obtain ⟨-, h⟩ := bind_unit_eq_ok.mp h
  obtain ⟨len, -, h⟩ := bind_eq_ok.mp h
  obtain ⟨hroom, h⟩ := bind_unit_eq_ok.mp h
  obtain ⟨-, hfits⟩ := not_or.mp (reject_eq_ok.mp hroom)
  obtain ⟨bytes, -, h⟩ := bind_eq_ok.mp h
  obtain ⟨-, h⟩ := bind_unit_eq_ok.mp h
  cases h
  dsimp only
  omega

/-- The length byte lets the parser reach the marker of R and, if that is one, its length. The
lengths 254 and 255 do not: two more than they is 0 or 1 in a byte. -/
def LengthSafe (sigStr : Bytes) : Prop :=
  sigStr.length < 8 ∨ sigStr.getD 0 0 ≠ 0x30 ∨
    (2 ≤ sigStr.getD 1 0 ∧ sigStr.getD 1 0 < 254) ∨
    (sigStr.getD 1 0 = 1 ∧ sigStr.getD 2 0 ≠ 0x02)

instance : DecidablePred LengthSafe := fun _ => inferInstanceAs (Decidable (_ ∨ _))

theorem checkInts_ne_panic {length r s : Nat} : checkInts length index r s ≠ .error .panic := by
  unfold checkInts
  simp only [ne_eq, reject_bind_eq_error, reduceCtorEq, not_false_eq_true]
  exact fun h => by cases h.2.2.2.2.2

theorem parseInts_panic_iff {sigStr : Bytes} {der : Bool} :
    (do
      let (r, index) ← parseInt rErrors sigStr 2 3 der
      let (s, index) ← parseInt sErrors sigStr index 0 der
      checkInts sigStr.length index r s) = .error .panic ↔
      sigStr.length ≤ 2 ∨ sigStr[2]? = some 2 ∧ sigStr.length ≤ 3 := by
  rw [← @parseInt_panic_iff rErrors rErrors_plain sigStr 2 3 der, bind_eq_error]
  refine or_iff_left ?_
  rintro ⟨⟨r, index⟩, hr, h⟩
  have hroom : index + 3 ≤ sigStr.length := parseInt_room hr
  rcases bind_eq_error.mp h with hs | ⟨parsed, -, h⟩
  · rcases (parseInt_panic_iff sErrors_plain).mp hs with h | ⟨-, h⟩ <;> omega
  · exact checkInts_ne_panic h

theorem trimmed_short_iff {siglen : UInt8} (hlen : 3 ≤ sigStr.length) (hfits : (siglen + 2).toNat ≤ sigStr.length) :
    ((sigStr.take (siglen + 2).toNat).length ≤ 2 ∨
      (sigStr.take (siglen + 2).toNat)[2]? = some 2 ∧ (sigStr.take (siglen + 2).toNat).length ≤ 3) ↔
      ¬ ((2 ≤ siglen ∧ siglen < 254) ∨ (siglen = 1 ∧ sigStr.getD 2 0 ≠ 2)) := by
  have hsum : (siglen + 2).toNat = (siglen.toNat + 2) % 256 := UInt8.toNat_add siglen 2
  have hbyte : siglen.toNat < 256 := siglen.toNat_lt
  have hone : siglen = 1 ↔ siglen.toNat = 1 := UInt8.toNat_inj.symm
  have hget : (sigStr.take (siglen + 2).toNat)[2]? = some 2 ↔
      2 < (siglen + 2).toNat ∧ sigStr.getD 2 0 = 2 := by
    rw [getElem?_take, getD_eq_getElem?_getD, getElem?_eq_getElem hlen]
    split <;> simp_all
  rw [hget, length_take, Nat.min_eq_left hfits, hone, UInt8.le_iff_toNat_le, UInt8.lt_iff_toNat_lt, hsum]
  have htwo : UInt8.toNat 2 = 2 := rfl
  have hmax : UInt8.toNat 254 = 254 := rfl
  by_cases hmark : sigStr.getD 2 0 = 2
  · simp only [hmark, ne_eq, not_true_eq_false, and_true, and_false, or_false]
    omega
  · simp only [hmark, ne_eq, not_false_eq_true, and_true, and_false, false_and, or_false]
    omega

theorem parseSig_panic_iff : parseSig sigStr der = .error .panic ↔ ¬ LengthSafe sigStr := by
  unfold parseSig LengthSafe
  rw [reject_bind_eq_error (by decide), not_or]
  refine and_congr_right fun hlong => ?_
  have hmagic : sigByte sigStr 0 = .ok (sigStr.getD 0 0) := by
    simp [getElem?_eq_getElem (show 0 < sigStr.length by omega)]
  have hsiglen : sigByte sigStr 1 = .ok (sigStr.getD 1 0) := by
    simp [getElem?_eq_getElem (show 1 < sigStr.length by omega)]
  rw [hmagic, hsiglen, ok_bind, reject_bind_eq_error (by decide), ok_bind, not_or]
  refine and_congr_right fun _ => ?_
  generalize sigStr.getD 1 0 = siglen
  have hsum : (siglen + 2).toNat = (siglen.toNat + 2) % 256 := UInt8.toNat_add siglen 2
  rw [reject_bind_eq_error (by decide)]
  by_cases hfits : sigStr.length < (siglen + 2).toNat
  · -- a length that is too long for the string is one of the safe ones
    have hsafe : 2 ≤ siglen ∧ siglen < 254 := by
      rw [UInt8.le_iff_toNat_le, UInt8.lt_iff_toNat_lt]
      have htwo : UInt8.toNat 2 = 2 := rfl
      have hmax : UInt8.toNat 254 = 254 := rfl
      have hbyte : siglen.toNat < 256 := siglen.toNat_lt
      omega
    exact iff_of_false (fun h => h.1 hfits) (not_not.mpr (.inl hsafe))
  · have hle : (siglen + 2).toNat ≤ sigStr.length := Nat.le_of_not_lt hfits
    rw [sigSlice_of_le (Nat.zero_le _) hle, ok_bind, drop_zero, and_iff_right hfits,
      ← trimmed_short_iff (by omega) hle]
    exact parseInts_panic_iff

end Prova
