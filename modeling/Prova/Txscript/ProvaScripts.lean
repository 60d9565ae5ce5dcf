import Prova.Txscript.Standard
import Prova.Txscript.Unlock

/-!
# Scripts of addresses (`txscript/standard.go`, `scriptnum.go`, `script.go`)

`PayToAddrScript` writes the keyIDs of an address as script numbers, whose top bit is the sign, in the
shortest form; the classifier reads numbers of at most four bytes. So half of the keyIDs come back. Before
a script is executed, `ReplaceKeyIDs` puts key hashes in the place of the keyIDs.
-/

namespace Prova

open List

variable {hash script : Bytes} {pops : List ParsedOpcode} {k n x : Nat} {pop : ParsedOpcode}

/-! ### Unparsing -/

theorem unparseScript_flatten {bs : List Bytes} (h : List.Forall₂ (fun pop b => pop.bytes = .ok b) pops bs) :
    unparseScript pops = .ok bs.flatten := by
  induction h with
  | nil => rfl
  | cons hb _ ih => exact unparseScript_cons.mpr ⟨_, _, hb, ih, rfl⟩

theorem exists_unparseScript : (∃ s, unparseScript pops = .ok s) ↔ ∀ pop ∈ pops, ∃ b, pop.bytes = .ok b := by
  induction pops with
  | nil => exact ⟨fun _ _ h => absurd h not_mem_nil, fun _ => ⟨[], rfl⟩⟩
  | cons pop pops ih =>
    rw [forall_mem_cons, ← ih]
    constructor
    · intro ⟨s, hs⟩
      obtain ⟨b, r, hb, hr, -⟩ := unparseScript_cons.mp hs
      exact ⟨⟨b, hb⟩, r, hr⟩
    · intro ⟨⟨b, hb⟩, r, hr⟩
      exact ⟨b ++ r, unparseScript_cons.mpr ⟨b, r, hb, hr, rfl⟩⟩

theorem bytes_hash (hhash : hash.length = 20) : ParsedOpcode.bytes ⟨opData20, hash⟩ = .ok (opData20 :: hash) := by
  have hbytes := bytes_dataElement (by omega : 1 ≤ hash.length) (by omega)
  rwa [dataElement, hhash] at hbytes

/-! ### Script numbers -/

theorem leBytes_succ (n x : Nat) : leBytes (n + 1) x = leBytes n x ++ [UInt8.ofNat (x / 256 ^ n)] := by
  induction n generalizing x with
  | zero => simp [leBytes]
  | succ n ih =>
    rw [leBytes, ih, leBytes, cons_append, Nat.div_div_eq_div_mul, ← pow_succ']

theorem magnitudeBytes_eq {m : Nat} (hlow : n = 0 ∨ 256 ^ (n - 1) ≤ x) (hhigh : x < 256 ^ n)
    (hle : n ≤ m) : magnitudeBytes m x = leBytes n x := by
  induction m generalizing n x with
  | zero =>
    rw [Nat.le_zero.mp hle]
    rfl
  | succ m ih =>
    cases n with
    | zero =>
      rw [pow_zero, Nat.lt_one_iff] at hhigh
      rw [magnitudeBytes, if_pos hhigh]
      rfl
    | succ n =>
      rw [Nat.add_sub_cancel] at hlow
      have hle' : 256 ^ n ≤ x := hlow.resolve_left (Nat.succ_ne_zero n)
      have hpos : 0 < x := lt_of_lt_of_le (Nat.pow_pos (by decide)) hle'
      rw [magnitudeBytes, if_neg hpos.ne', leBytes]
      refine congrArg (UInt8.ofNat x :: ·) (ih ?_ ?_ (Nat.le_of_succ_le_succ hle))
      · cases n with
        | zero => exact .inl rfl
        | succ n =>
          rw [pow_succ'] at hle'
          exact .inr ((Nat.le_div_iff_mul_le (by decide)).mpr (by rwa [Nat.mul_comm]))
      · rw [pow_succ'] at hhigh
        exact Nat.div_lt_of_lt_mul hhigh

theorem high_bit_ofNat {d : Nat} (hd : d < 256) : UInt8.ofNat d &&& 0x80 ≠ 0 ↔ 128 ≤ d := by
  have hall : ∀ d < 256, UInt8.ofNat d &&& 0x80 ≠ 0 ↔ 128 ≤ d := by decide +kernel
  exact hall d hd

theorem top_byte {d : Nat} (hd : d < 128) (neg : Bool) :
    (UInt8.ofNat (d + if neg then 128 else 0) &&& 0x80 ≠ 0 ↔ neg = true) ∧
      (UInt8.ofNat (d + if neg then 128 else 0) &&& 0x7f = 0 ↔ d = 0) ∧ UInt8.ofNat d ||| 0x80 = UInt8.ofNat (d + 128) := by
  have hall : ∀ d < 128, ∀ neg : Bool, (UInt8.ofNat (d + if neg then 128 else 0) &&& 0x80 ≠ 0 ↔ neg = true) ∧
      (UInt8.ofNat (d + if neg then 128 else 0) &&& 0x7f = 0 ↔ d = 0) ∧
        UInt8.ofNat d ||| 0x80 = UInt8.ofNat (d + 128) := by decide
  exact hall d hd neg

/-- The number takes `n + 1` bytes with its sign bit, and not less. -/
structure TakesBytes (n x : Nat) : Prop where
  pos : 0 < x
  low : n = 0 ∨ 128 * 256 ^ (n - 1) ≤ x
  high : x < 128 * 256 ^ n

theorem TakesBytes.top_lt (h : TakesBytes n x) : x / 256 ^ n < 128 :=
  Nat.div_lt_of_lt_mul (by rw [Nat.mul_comm]; exact h.high)

theorem TakesBytes.next_le (h : TakesBytes (n + 1) x) (hsmall : x < 256 ^ (n + 1)) :
    128 ≤ x / 256 ^ n ∧ x / 256 ^ n < 256 := by
  have hlow : 128 * 256 ^ n ≤ x := h.low.resolve_left (Nat.succ_ne_zero n)
  have hpos : 0 < 256 ^ n := Nat.pow_pos (by decide)
  refine ⟨(Nat.le_div_iff_mul_le hpos).mpr hlow, Nat.div_lt_of_lt_mul ?_⟩
  rwa [pow_succ] at hsmall

/-- The number with a magnitude and a sign. -/
def signedNum (neg : Bool) (x : Nat) : Int := if neg then -x else x

/-- A magnitude in `n + 1` bytes, with the sign in the top bit. -/
def signedBytes (n : Nat) (neg : Bool) (x : Nat) : Bytes := leBytes (n + 1) (x + if neg then 128 * 256 ^ n else 0)

theorem signedBytes_eq_concat (n : Nat) (neg : Bool) (x : Nat) :
    signedBytes n neg x = leBytes n x ++ [UInt8.ofNat (x / 256 ^ n + if neg then 128 else 0)] := by
  have hmod : ∀ y, leBytes n (y % 256 ^ n) = leBytes n y := by
    intro y
    have h := leBytes_leNat (leBytes n y)
    rwa [length_leBytes, leNat_leBytes] at h
  rw [signedBytes, leBytes_succ]
  cases neg with
  | false => rfl
  | true =>
    rw [if_pos rfl, if_pos rfl, ← hmod, Nat.add_mul_mod_self_right, hmod, Nat.add_mul_div_right _ _ (Nat.pow_pos (by decide))]

theorem exists_signedBytes {v : Bytes} (hv : v ≠ []) :
    ∃ n neg x, v.length = n + 1 ∧ x < 128 * 256 ^ n ∧ v = signedBytes n neg x := by
  obtain ⟨n, hn⟩ : ∃ n, v.length = n + 1 := Nat.exists_eq_add_one.mpr (length_pos_iff.mpr hv)
  have hlt := leNat_lt v
  have hbytes := leBytes_leNat v
  rw [hn, pow_succ'] at hlt
  rw [hn] at hbytes
  by_cases hneg : leNat v < 128 * 256 ^ n
  · exact ⟨n, false, leNat v, hn, hneg, hbytes.symm⟩
  · refine ⟨n, true, leNat v - 128 * 256 ^ n, hn, by omega, ?_⟩
    rw [signedBytes, if_pos rfl, Nat.sub_add_cancel (by omega), hbytes]

theorem scriptNumBytes_signed (h : TakesBytes n x) (hn : n ≤ 8) (neg : Bool) :
    scriptNumBytes (signedNum neg x) = signedBytes n neg x := by
  have hpos := h.pos
  have hne : signedNum neg x ≠ 0 := by
    unfold signedNum
    split_ifs <;> omega
  have hsign : signedNum neg x < 0 ↔ neg = true := by
    unfold signedNum
    split_ifs <;> simp_all
  have habs : (signedNum neg x).natAbs = x := by
    unfold signedNum
    split_ifs <;> omega
  rw [scriptNumBytes, if_neg hne]
  simp only [hsign, habs]
  by_cases hsmall : x < 256 ^ n
  · -- a byte of its own for the sign keeps the top bit free
    cases n with
    | zero => exact absurd h.pos (by rw [pow_zero] at hsmall; omega)
    | succ n =>
      obtain ⟨hbit, hbyte⟩ := h.next_le hsmall
      have hmag : magnitudeBytes 9 x = leBytes (n + 1) x := by
        refine magnitudeBytes_eq (.inr ?_) hsmall (by omega)
        have hlow : 128 * 256 ^ n ≤ x := h.low.resolve_left (Nat.succ_ne_zero n)
        rw [Nat.add_sub_cancel]
        exact le_trans (Nat.le_mul_of_pos_left _ (by decide)) hlow
      have hlast : (leBytes (n + 1) x).getLastD 0 = UInt8.ofNat (x / 256 ^ n) := by
        rw [leBytes_succ, getLastD_concat]
      rw [hmag, hlast, if_pos ((high_bit_ofNat hbyte).mpr hbit), signedBytes_eq_concat, Nat.div_eq_of_lt hsmall]
      cases neg <;> rfl
  · have hmag : magnitudeBytes 9 x = leBytes (n + 1) x := by
      refine magnitudeBytes_eq (.inr (Nat.not_lt.mp hsmall)) ?_ (by omega)
      rw [pow_succ']
      have := h.high
      omega
    have htop := h.top_lt
    rw [hmag, leBytes_succ, getLastD_concat, dropLast_concat,
      if_neg (mt (high_bit_ofNat (by omega)).mp (by omega)), signedBytes_eq_concat]
    cases neg with
    | false => rfl
    | true => rw [if_pos rfl, if_pos rfl, (top_byte htop true).2.2]

/-- An encoding is minimal exactly if the number takes that many bytes. -/
theorem checkMinimalDataEncoding_signed (hx : x < 128 * 256 ^ n) (neg : Bool) :
    checkMinimalDataEncoding (signedBytes n neg x) = .ok () ↔ TakesBytes n x := by
  have htop : x / 256 ^ n < 128 := Nat.div_lt_of_lt_mul (by rwa [Nat.mul_comm])
  have hlow7 := (top_byte htop neg).2.1
  have hiff : TakesBytes n x ↔ 0 < x ∧ (n = 0 ∨ 128 * 256 ^ (n - 1) ≤ x) :=
    ⟨fun h => ⟨h.pos, h.low⟩, fun h => ⟨h.1, h.2, hx⟩⟩
  rw [checkMinimalDataEncoding, signedBytes_eq_concat, reverse_append, reverse_singleton, hiff]
  cases n with
  | zero =>
    rw [pow_zero, Nat.div_one] at hlow7 ⊢
    refine reject_eq_ok.trans ?_
    rw [hlow7]
    omega
  | succ n =>
    rw [leBytes_succ, reverse_append, reverse_singleton]
    refine reject_eq_ok.trans ?_
    have hpow : 0 < 256 ^ n := Nat.pow_pos (by decide)
    have hzero : x / 256 ^ (n + 1) = 0 ↔ x < 256 ^ n * 256 := by
      rw [Nat.div_eq_zero_iff_lt (Nat.pow_pos (by decide)), pow_succ]
    rw [hlow7, hzero, Nat.add_sub_cancel]
    by_cases hsmall : x < 256 ^ n * 256
    · have hbit := high_bit_ofNat (Nat.div_lt_of_lt_mul hsmall)
      rw [Nat.le_div_iff_mul_le hpow] at hbit
      have hone : 1 ≤ 256 ^ n := hpow
      rw [not_and, ← Ne.eq_def, hbit]
      omega
    · omega

theorem leNat_signedBytes (hx : x < 128 * 256 ^ n) (neg : Bool) :
    leNat (signedBytes n neg x) = x + if neg then 128 * 256 ^ n else 0 := by
  rw [signedBytes, leNat_leBytes, Nat.mod_eq_of_lt]
  rw [pow_succ']
  split_ifs <;> omega

theorem makeScriptNum_signed (hx : x < 128 * 256 ^ n) (neg : Bool) {requireMinimal : Bool} {scriptNumLen : Nat}
    (hn : n < scriptNumLen) (hmin : requireMinimal = true → TakesBytes n x) :
    makeScriptNum (signedBytes n neg x) requireMinimal scriptNumLen = .ok (signedNum neg x) := by
  have htop : x / 256 ^ n < 128 := Nat.div_lt_of_lt_mul (by rwa [Nat.mul_comm])
  have hbit := (top_byte htop neg).1
  have hlength : (signedBytes n neg x).length = n + 1 := length_leBytes _ _
  have hreverse : (signedBytes n neg x).reverse =
      UInt8.ofNat (x / 256 ^ n + if neg then 128 else 0) :: (leBytes n x).reverse := by
    rw [signedBytes_eq_concat, reverse_append, reverse_singleton, singleton_append]
  refine bind_unit_eq_ok.mpr ⟨reject_eq_ok.mpr (by omega), ?_⟩
  cases requireMinimal
  on_goal 2 => refine bind_unit_eq_ok.mpr ⟨(checkMinimalDataEncoding_signed hx neg).mpr (hmin rfl), ?_⟩
  all_goals
    rw [hreverse]
    simp only [hbit, leNat_signedBytes hx, hlength, Nat.add_sub_cancel]
    cases neg <;> simp [signedNum]

theorem exists_takesBytes {m : Nat} (hpos : 0 < x) (hlt : x < 128 * 256 ^ m) : ∃ n ≤ m, TakesBytes n x := by
  induction m with
  | zero => exact ⟨0, le_rfl, hpos, .inl rfl, hlt⟩
  | succ m ih =>
    by_cases hsmall : x < 128 * 256 ^ m
    · obtain ⟨n, hn, h⟩ := ih hsmall
      exact ⟨n, by omega, h⟩
    · exact ⟨m + 1, le_rfl, hpos, .inr (Nat.not_lt.mp hsmall), hlt⟩

theorem exists_signedNum {m : Nat} {val : Int} (hne : val ≠ 0) (hlt : val.natAbs < 128 * 256 ^ m) :
    ∃ n ≤ m, ∃ neg x, val = signedNum neg x ∧ TakesBytes n x := by
  obtain ⟨n, hn, htakes⟩ := exists_takesBytes (Int.natAbs_pos.mpr hne) hlt
  refine ⟨n, hn, val < 0, val.natAbs, ?_, htakes⟩
  simp only [signedNum, decide_eq_true_eq]
  split_ifs <;> omega

theorem scriptNumBytes_facts {m : Nat} {val : Int} (hm : m ≤ 8) (hlt : val.natAbs < 128 * 256 ^ m) :
    (scriptNumBytes val).length ≤ m + 1 ∧ scriptNumBytes val ≠ [0] := by
  by_cases hzero : val = 0
  · rw [hzero]
    exact ⟨Nat.zero_le _, nofun⟩
  · obtain ⟨n, hn, neg, x, rfl, htakes⟩ := exists_signedNum hzero hlt
    rw [scriptNumBytes_signed htakes (by omega)]
    refine ⟨by rw [signedBytes, length_leBytes]; omega, fun h => ?_⟩
    have hvalue := congrArg leNat h
    rw [leNat_signedBytes htakes.high] at hvalue
    have hpos := htakes.pos
    change _ = 0 at hvalue
    omega

/-- A number that fits a limit of bytes is read back from its encoding, and an encoding within the limit is minimal
exactly if it is the one of the number that it is read as. An `int64` holds the numbers of up to 8 bytes. -/
theorem scriptNum_roundTrip {scriptNumLen : Nat} (hlen : scriptNumLen ≤ 8) :
    (∀ n : Int, n.natAbs < 2 ^ (8 * scriptNumLen - 1) → makeScriptNum (scriptNumBytes n) true scriptNumLen = .ok n) ∧
      ∀ v : Bytes, v.length ≤ scriptNumLen → ∃ n, makeScriptNum v false scriptNumLen = .ok n ∧
        (checkMinimalDataEncoding v = .ok () ↔ v = scriptNumBytes n) := by
  have hempty : ∀ requireMinimal, makeScriptNum [] requireMinimal scriptNumLen = .ok 0 := by
    intro requireMinimal
    refine bind_unit_eq_ok.mpr ⟨reject_eq_ok.mpr (Nat.not_lt_zero _), ?_⟩
    cases requireMinimal <;> rfl
  constructor
  · intro n hn
    by_cases hzero : n = 0
    · rw [hzero]
      exact hempty true
    · obtain ⟨m, rfl⟩ : ∃ m, scriptNumLen = m + 1 := by
        refine Nat.exists_eq_add_one.mpr (Nat.pos_of_ne_zero fun h => hzero ?_)
        rw [h] at hn
        omega
      have hpow : 2 ^ (8 * (m + 1) - 1) = 128 * 256 ^ m := by
        have hexp : 8 * (m + 1) - 1 = 7 + 8 * m := by omega
        rw [hexp, pow_add, pow_mul]
        rfl
      rw [hpow] at hn
      obtain ⟨k, hk, neg, x, rfl, htakes⟩ := exists_signedNum hzero hn
      rw [scriptNumBytes_signed htakes (by omega)]
      exact makeScriptNum_signed htakes.high _ (by omega) fun _ => htakes
  · intro v hv
    by_cases hnil : v = []
    · exact ⟨0, hnil ▸ hempty false, by rw [hnil]; exact iff_of_true rfl rfl⟩
    · obtain ⟨n, neg, x, hn, hx, rfl⟩ := exists_signedBytes hnil
      refine ⟨signedNum neg x, makeScriptNum_signed hx neg (by omega) nofun, ?_⟩
      rw [checkMinimalDataEncoding_signed hx]
      refine ⟨fun h => (scriptNumBytes_signed h (by omega) neg).symm, fun h => ?_⟩
      have hpos : 0 < x := by
        refine Nat.pos_of_ne_zero fun hzero => ?_
        have hnum : signedNum neg x = 0 := by
          rw [hzero]
          cases neg <;> rfl
        rw [h, hnum] at hn
        cases hn
      obtain ⟨k, hk, htakes⟩ := exists_takesBytes hpos hx
      have henc := scriptNumBytes_signed htakes (by omega) neg
      rw [h, henc, signedBytes, length_leBytes] at hn
      obtain rfl : k = n := by omega
      exact htakes

theorem scriptNum_roundTrip_default : makeScriptNum (scriptNumBytes (-255)) true 4 = .ok (-255) :=
  (scriptNum_roundTrip (by decide)).1 (-255) (by decide)

/-! ### KeyIDs as script elements -/

def smallOpcode (k : Nat) : UInt8 := if k = 0 then op0 else op1 - 1 + UInt8.ofNat k

def keyIDElement (k : Nat) : ParsedOpcode :=
  if k ≤ 16 then ⟨smallOpcode k, []⟩ else dataElement (scriptNumBytes k)

theorem smallOpcode_facts (hk : k ≤ 16) : opLength (smallOpcode k) = .single ∧ isSmallInt (smallOpcode k) = true ∧
      (asSmallInt (smallOpcode k)).toNat = k := by
  have hall : ∀ k < 17, opLength (smallOpcode k) = .single ∧ isSmallInt (smallOpcode k) = true ∧
      (asSmallInt (smallOpcode k)).toNat = k := by decide
  exact hall k (by omega)

theorem scriptNumBytes_keyID (hlow : 16 < k) (hhigh : k < 2 ^ 32) :
    ∃ n ≤ 4, TakesBytes n k ∧ (n < 4 ↔ k < 2 ^ 31) ∧ scriptNumBytes k = leBytes (n + 1) k := by
  obtain ⟨n, hn, htakes, hiff⟩ : ∃ n ≤ 4, TakesBytes n k ∧ (n < 4 ↔ k < 2 ^ 31) := by
    by_cases hsmall : k < 2 ^ 31
    · obtain ⟨n, hn, h⟩ := exists_takesBytes (m := 3) (by omega : 0 < k) hsmall
      exact ⟨n, by omega, h, by omega⟩
    · exact ⟨4, le_rfl, ⟨by omega, .inr (by omega), by omega⟩, by omega⟩
  exact ⟨n, hn, htakes, hiff, scriptNumBytes_signed htakes (by omega) false⟩

theorem canonicalDataSize_le {data : Bytes} (h : data.length < 76) : canonicalDataSize data ≤ 1 + data.length := by
  have hpush : data.length < opPushData1.toNat := h
  unfold canonicalDataSize
  split_ifs <;> omega

theorem addData_ok {data : Bytes} (hsize : data.length ≤ maxScriptElementSize)
    (hroom : script.length + canonicalDataSize data ≤ maxScriptSize) :
    addData data script = .ok (script ++ dataPush data) :=
  bind_unit_eq_ok.mpr ⟨reject_eq_ok.mpr (Nat.not_lt.mpr hroom),
    bind_unit_eq_ok.mpr ⟨reject_eq_ok.mpr (Nat.not_lt.mpr hsize), rfl⟩⟩

theorem addInt64_ok {val : Int} (hval : val.natAbs < 2 ^ 63)
    (hroom : script.length + canonicalDataSize (scriptNumBytes val) ≤ maxScriptSize) :
    addInt64 val script = .ok (script ++ dataPush (scriptNumBytes val)) := by
  have hone : 1 ≤ canonicalDataSize (scriptNumBytes val) := by
    unfold canonicalDataSize
    split_ifs <;> omega
  refine bind_unit_eq_ok.mpr ⟨reject_eq_ok.mpr (by omega), ?_⟩
  split_ifs with hzero hneg hsmall
  · rw [hzero]
    rfl
  · rw [hneg]
    rfl
  · obtain ⟨hlow, hhigh⟩ := hsmall
    interval_cases val <;> rfl
  · have hsize : (scriptNumBytes val).length ≤ 8 := (scriptNumBytes_facts (m := 7) (by decide) hval).1
    refine bind_unit_eq_ok.mpr ⟨reject_eq_ok.mpr (by omega), addData_ok (hsize.trans (by decide)) hroom⟩

/-- A script is extended by one opcode of a given size. Parsing gives a single element back, which the engine
takes also where it asks for minimal pushes, and which leaves the value on the stack. -/
def AppendsPush (script out value : Bytes) (size : Nat) : Prop :=
  ∃ b pop, out = script ++ b ∧ b.length = size ∧ parseScript b = .ok [pop] ∧
    ∀ (c : Crypto) (vm : Engine), vm.condStack = [] → Engine.executeOpcode c pop vm = .ok (vm.push value)

theorem parseScript_push {b value : Bytes} (h : IsPush pop b value) : parseScript b = .ok [pop] :=
  parseScript_of_unparseScript (unparseScript_cons.mpr ⟨b, [], h.bytes, rfl, (append_nil b).symm⟩)

theorem appendsPush_dataPush {data : Bytes} (hsize : data.length ≤ maxScriptElementSize) (hne : data ≠ [0]) :
    AppendsPush script (script ++ dataPush data) data (canonicalDataSize data) := by
  have hpush := isPush_pushElement hsize hne
  exact ⟨_, _, rfl, length_dataPush data, parseScript_push hpush, fun _ vm hcond =>
    Engine.executeOpcode_push hpush.pushes (hpush.fits vm.verifyMinimalData) hcond⟩

/-- `AddData` pushes everything but a zero byte, for which it has the empty push, and `AddInt64` every number
but the smallest. -/
theorem appendsPush_iff (script : Bytes) :
    (∀ data, data.length ≤ maxScriptElementSize → script.length + canonicalDataSize data ≤ maxScriptSize →
      ((∃ out, addData data script = .ok out ∧ AppendsPush script out data (canonicalDataSize data)) ↔ data ≠ [0])) ∧
    ∀ val : Int64, script.length + canonicalDataSize (scriptNumBytes val.toInt) ≤ maxScriptSize →
      ((∃ out, addInt64 val.toInt script = .ok out ∧
        AppendsPush script out (scriptNumBytes val.toInt) (canonicalDataSize (scriptNumBytes val.toInt))) ↔
          val ≠ Int64.minValue) := by
  refine ⟨fun data hsize hroom => ⟨?_, fun hne => ⟨_, addData_ok hsize hroom, appendsPush_dataPush hsize hne⟩⟩,
    fun val hroom => ⟨?_, fun hne => ?_⟩⟩
  · rintro ⟨out, hadd, b, pop, rfl, -, hparse, hexec⟩ rfl
    rw [addData_ok hsize hroom, Except.ok.injEq, append_cancel_left_eq] at hadd
    have hpush : IsPush (pushElement []) (dataPush []) [] := isPush_pushElement (by decide) (by decide)
    rw [← hadd] at hparse
    cases (parseScript_push hpush).symm.trans hparse
    have hempty : Engine.executeOpcode Engine.MultiSigSample.crypto (pushElement []) strictEngine =
        .ok (strictEngine.push []) := Engine.executeOpcode_push hpush.pushes (hpush.fits _) rfl
    cases hempty.symm.trans (hexec _ _ rfl)
  · rintro ⟨out, hadd, -⟩ rfl
    obtain ⟨-, hadd⟩ := bind_unit_eq_ok.mp hadd
    cases hadd
  · have hval : val.toInt.natAbs < 2 ^ 63 := by
      have hlow := val.le_toInt
      have hhigh := val.toInt_lt
      have hmin : val.toInt ≠ -2 ^ 63 := fun h => hne (Int64.toInt_inj.mp h)
      omega
    obtain ⟨hlength, hzero⟩ := scriptNumBytes_facts (m := 7) (by decide) hval
    exact ⟨_, addInt64_ok hval hroom, appendsPush_dataPush (hlength.trans (by decide)) hzero⟩

theorem appendsPush_iff_five : ∃ out, addData [5] [] = .ok out ∧ AppendsPush [] out [5] (canonicalDataSize [5]) :=
  ((appendsPush_iff []).1 [5] (by decide) (by decide)).mpr (by decide)

/-- A zero byte and the smallest number. -/
theorem addData_zero_byte : addData [0] [] = .ok [op0] ∧ parseScript [op0] = .ok [⟨op0, []⟩] ∧
      Engine.executeOpcode Engine.MultiSigSample.crypto ⟨op0, []⟩ strictEngine = .ok (strictEngine.push []) ∧
      addInt64 (-2 ^ 63) [] = .error .panic :=
  ⟨rfl, rfl, rfl, rfl⟩

theorem keyIDElement_eq (hk : k < 2 ^ 32) : keyIDElement k = pushElement (scriptNumBytes k) := by
  by_cases hsmall : k ≤ 16
  · have hall : ∀ k < 17, keyIDElement k = pushElement (scriptNumBytes k) := by decide
    exact hall k (by omega)
  · obtain ⟨n, hn, htakes, -, hbytes⟩ := scriptNumBytes_keyID (Nat.lt_of_not_le hsmall) hk
    rw [keyIDElement, if_neg hsmall, hbytes]
    cases n with
    | zero =>
      have hall : ∀ k < 128, 16 < k → dataElement (leBytes 1 k) = pushElement (leBytes 1 k) := by decide
      exact hall k htakes.high (Nat.lt_of_not_le hsmall)
    | succ n =>
      have hlength : (leBytes (n + 1 + 1) k).length = n + 1 + 1 := length_leBytes _ _
      unfold pushElement
      rw [if_neg (by omega), if_neg (by omega), if_neg (by omega), if_pos]
      rw [hlength]
      change n + 1 + 1 < 76
      omega

theorem addInt64_keyID (hk : k < 2 ^ 32) (script : Bytes) (hroom : script.length ≤ 1000) :
    ∃ b, (keyIDElement k).bytes = .ok b ∧ b.length ≤ 6 ∧ addInt64 k script = .ok (script ++ b) := by
  have hlimit : maxScriptSize = 10000 := rfl
  obtain ⟨hlength, hne⟩ := scriptNumBytes_facts (by decide) (by omega : (k : Int).natAbs < 128 * 256 ^ 4)
  have hsize := canonicalDataSize_le (by omega : (scriptNumBytes k).length < 76)
  refine ⟨dataPush (scriptNumBytes k), ?_, by rw [length_dataPush]; omega, addInt64_ok (by omega) (by omega)⟩
  rw [keyIDElement_eq hk]
  exact (isPush_pushElement (hlength.trans (by decide)) hne).bytes

theorem asInt32_keyID (hk : k < 2 ^ 31) :
    isUint32 (keyIDElement k).opcode = true ∧ asInt32 (keyIDElement k) = .ok k := by
  by_cases hsmall : k ≤ 16
  · obtain ⟨-, hint, hvalue⟩ := smallOpcode_facts hsmall
    rw [keyIDElement, if_pos hsmall, isUint32, asInt32, hint, Bool.true_or, if_pos rfl, hvalue]
    exact ⟨rfl, rfl⟩
  · obtain ⟨n, hn, htakes, hiff, hbytes⟩ := scriptNumBytes_keyID (Nat.lt_of_not_le hsmall) (by omega)
    have hn' : n < 4 := hiff.mpr hk
    have hopcode : ∀ n < 4, isUint32 (UInt8.ofNat (n + 1)) = true ∧ isSmallInt (UInt8.ofNat (n + 1)) = false := by
      decide
    obtain ⟨hu, hs⟩ := hopcode n hn'
    rw [keyIDElement, if_neg hsmall, hbytes, dataElement, length_leBytes]
    refine ⟨hu, ?_⟩
    rw [asInt32, hs, if_neg Bool.false_ne_true]
    refine bind_eq_ok.mpr ⟨k, makeScriptNum_signed htakes.high false hn' fun _ => htakes, ?_⟩
    rw [scriptNumInt32, if_neg (by omega), if_neg (by omega)]
    rfl

theorem isUint32_keyID (hlow : 2 ^ 31 ≤ k) (hhigh : k < 2 ^ 32) : isUint32 (keyIDElement k).opcode = false := by
  obtain ⟨n, hn, -, hiff, hbytes⟩ := scriptNumBytes_keyID (by omega : 16 < k) hhigh
  have hfour : n = 4 := by omega
  rw [keyIDElement, if_neg (by omega), hbytes, dataElement, length_leBytes, hfour]
  rfl

theorem length_data_keyID (hk : k < 2 ^ 32) : (keyIDElement k).data.length ≠ 20 := by
  by_cases hsmall : k ≤ 16
  · rw [keyIDElement, if_pos hsmall]
    exact Nat.zero_ne_add_one 19
  · obtain ⟨n, hn, -, -, hbytes⟩ := scriptNumBytes_keyID (Nat.lt_of_not_le hsmall) hk
    rw [keyIDElement, if_neg hsmall, hbytes]
    change (leBytes (n + 1) k).length ≠ 20
    rw [length_leBytes]
    omega

/-! ### The script of an address -/

/-- `2 <hash> <keyID0> <keyID1> 3 OP_CHECKSAFEMULTISIG`. -/
def addressElements (hash : Bytes) (k0 k1 : Nat) : List ParsedOpcode :=
  [⟨op2, []⟩, ⟨opData20, hash⟩, keyIDElement k0, keyIDElement k1, ⟨op3, []⟩, ⟨opCheckSafeMultiSig, []⟩]

theorem addInt64_small (hlow : 1 ≤ k) (hhigh : k ≤ 16) (hroom : script.length ≤ 1000) :
    addInt64 k script = .ok (script ++ [op1 - 1 + UInt8.ofNat k]) := by
  refine bind_unit_eq_ok.mpr ⟨reject_eq_ok.mpr ?_, ?_⟩
  · change ¬ 10000 < script.length + 1
    omega
  · rw [if_neg (by omega), if_neg (by omega), if_pos (by omega), Int.toNat_natCast]
    rfl

theorem addData_hash (hhash : hash.length = 20) (hroom : script.length ≤ 1000) :
    addData hash script = .ok (script ++ opData20 :: hash) := by
  have hlimit : maxScriptSize = 10000 := rfl
  have hsize := canonicalDataSize_le (by omega : hash.length < 76)
  rw [addData_ok (by rw [hhash]; decide) (by omega), dataPush_short (by omega) (by omega), hhash]
  rfl

theorem addOp_ok (op : UInt8) (hroom : script.length ≤ 1000) : addOp op script = .ok (script ++ [op]) := by
  refine bind_unit_eq_ok.mpr ⟨reject_eq_ok.mpr ?_, rfl⟩
  change ¬ 10000 < script.length + 1
  omega

theorem parse_payToProvaScript (hhash : hash.length = 20) (keyID0 keyID1 : KeyID) :
    ∃ script, payToProvaScript hash [keyID0, keyID1] = .ok script ∧
      parseScript script = .ok (addressElements hash keyID0.toNat keyID1.toNat) := by
  have hstart : ([op2] ++ opData20 :: hash).length = 22 := by simp [hhash]
  obtain ⟨b0, hb0, hlen0, hadd0⟩ := addInt64_keyID keyID0.toNat_lt ([op2] ++ opData20 :: hash) (by omega)
  obtain ⟨b1, hb1, hlen1, hadd1⟩ := addInt64_keyID keyID1.toNat_lt ([op2] ++ opData20 :: hash ++ b0)
    (by rw [length_append]; omega)
  have hlen : ([op2] ++ opData20 :: hash ++ b0 ++ b1).length ≤ 34 := by
    rw [length_append, length_append]
    omega
  refine ⟨[op2] ++ opData20 :: hash ++ b0 ++ b1 ++ [op3] ++ [opCheckSafeMultiSig], ?_, ?_⟩
  · have htwo : addInt64 2 [] = .ok [op2] := addInt64_small (k := 2) (by decide) (by decide) (by decide)
    have hthree : addInt64 3 ([op2] ++ opData20 :: hash ++ b0 ++ b1) =
        .ok ([op2] ++ opData20 :: hash ++ b0 ++ b1 ++ [op3]) :=
      addInt64_small (k := 3) (by decide) (by decide) (by omega)
    rw [payToProvaScript, htwo, ok_bind, addData_hash hhash (by decide), ok_bind, hadd0, ok_bind, hadd1, ok_bind,
      hthree, ok_bind]
    exact addOp_ok opCheckSafeMultiSig (by rw [length_append]; simp only [length_singleton]; omega)
  · have hunparse : unparseScript (addressElements hash keyID0.toNat keyID1.toNat) =
        .ok [[op2], opData20 :: hash, b0, b1, [op3], [opCheckSafeMultiSig]].flatten :=
      unparseScript_flatten (.cons rfl (.cons (bytes_hash hhash) (.cons hb0 (.cons hb1 (.cons rfl (.cons rfl .nil))))))
    refine parseScript_of_unparseScript (hunparse.trans ?_)
    simp

theorem countKeys_keyID (hk : k < 2 ^ 32) (pops : List ParsedOpcode) (seenKeyIDs : List Int)
    (nKeyIDs nKeyHashes : Nat) : countKeys (keyIDElement k :: pops) seenKeyIDs nKeyIDs nKeyHashes =
      if k < 2 ^ 31 then
        if (k : Int) ∈ seenKeyIDs then none else countKeys pops (k :: seenKeyIDs) (nKeyIDs + 1) nKeyHashes
      else countKeys pops seenKeyIDs nKeyIDs nKeyHashes := by
  rw [countKeys, if_neg (length_data_keyID hk)]
  by_cases hlow : k < 2 ^ 31
  · obtain ⟨huint, hvalue⟩ := asInt32_keyID hlow
    rw [if_pos huint, if_pos hlow, hvalue]
  · rw [isUint32_keyID (Nat.le_of_not_lt hlow) hk, if_neg Bool.false_ne_true, if_neg hlow]

theorem isGeneralProva_address (hhash : hash.length = 20) {k0 k1 : Nat} (h0 : k0 < 2 ^ 32) (h1 : k1 < 2 ^ 32) :
    isGeneralProva (addressElements hash k0 k1) = true ↔ k0 ≠ k1 ∧ k0 < 2 ^ 31 ∧ k1 < 2 ^ 31 := by
  have hthreshold : threshold (addressElements hash k0 k1) = 2 := by
    change (asSmallInt op2).toNat = 2
    decide
  have hmiddle : middleElements (addressElements hash k0 k1) =
      [⟨opData20, hash⟩, keyIDElement k0, keyIDElement k1] := rfl
  have hclosed : (decide (6 ≤ 6) && isSmallInt op2 && isSmallInt op3 &&
      opCheckSafeMultiSig == opCheckSafeMultiSig && decide (2 ≤ 2) && 6 - 3 == (asSmallInt op3).toNat) = true := by
    decide
  have hframe : (decide (6 ≤ (addressElements hash k0 k1).length) &&
      isSmallInt ((addressElements hash k0 k1).headD ⟨op0, []⟩).opcode &&
      isSmallInt (countElement (addressElements hash k0 k1)).opcode &&
      ((addressElements hash k0 k1).getLastD ⟨op0, []⟩).opcode == opCheckSafeMultiSig && decide (2 ≤ 2) &&
      (addressElements hash k0 k1).length - 3 ==
        (asSmallInt (countElement (addressElements hash k0 k1)).opcode).toNat) = true := hclosed
  rw [isGeneralProva, hthreshold, hmiddle, hframe, Bool.true_and, countKeys, if_pos hhash, if_neg (lt_irrefl 0),
    countKeys_keyID h0, countKeys_keyID h1, countKeys_keyID h1]
  by_cases hlow0 : k0 < 2 ^ 31
  · by_cases hlow1 : k1 < 2 ^ 31
    · rw [if_pos hlow0, if_neg not_mem_nil, if_pos hlow1]
      by_cases heq : k0 = k1
      · rw [if_pos (by rw [heq]; exact mem_cons_self)]
        exact ⟨fun h => absurd h Bool.false_ne_true, fun h => absurd heq h.1⟩
      · rw [if_neg (by simpa using Ne.symm heq)]
        exact ⟨fun _ => ⟨heq, hlow0, hlow1⟩, fun _ => rfl⟩
    · rw [if_pos hlow0, if_neg not_mem_nil, if_neg hlow1]
      exact ⟨fun h => absurd h Bool.false_ne_true, fun h => absurd h.2.2 hlow1⟩
  · rw [if_neg hlow0]
    refine ⟨fun h => absurd h ?_, fun h => absurd h.2.1 hlow0⟩
    by_cases hlow1 : k1 < 2 ^ 31
    · rw [if_pos hlow1, if_neg not_mem_nil]
      exact Bool.false_ne_true
    · rw [if_neg hlow1]
      exact Bool.false_ne_true

theorem typeOfScript_address {k0 k1 : Nat} :
    typeOfScript (addressElements hash k0 k1) = .provaTy ↔ isGeneralProva (addressElements hash k0 k1) = true := by
  have hprova : isProva (addressElements hash k0 k1) = isGeneralProva (addressElements hash k0 k1) :=
    Bool.and_true _
  have htype : typeOfScript (addressElements hash k0 k1) =
      if isProva (addressElements hash k0 k1) then .provaTy
      else if isGeneralProva (addressElements hash k0 k1) then .generalProvaTy
      else .nonStandardTy := rfl
  rw [htype, hprova]
  cases isGeneralProva (addressElements hash k0 k1) <;> decide

theorem keyIDOfInt32_toNat (keyID : KeyID) : keyIDOfInt32 keyID.toNat = keyID := by
  have hlt := keyID.toNat_lt
  have hmod : ((keyID.toNat : Int) % 2 ^ 32).toNat = keyID.toNat := by omega
  rw [keyIDOfInt32, hmod, UInt32.ofNat_toNat]

theorem provaAddrs_address (addr : AddressProva) {keyID0 keyID1 : KeyID} (hkeys : addr.keyIDs = [keyID0, keyID1])
    (h0 : keyID0.toNat < 2 ^ 31) (h1 : keyID1.toNat < 2 ^ 31) :
    provaAddrs (addressElements addr.hash keyID0.toNat keyID1.toNat) = [addr] := by
  have hread : [keyIDElement keyID0.toNat, keyIDElement keyID1.toNat].mapM asInt32 =
      .ok [(keyID0.toNat : Int), (keyID1.toNat : Int)] :=
    mapM_eq_ok.mpr (.cons (asInt32_keyID h0).2 (.cons (asInt32_keyID h1).2 .nil))
  have hslice : ((addressElements addr.hash keyID0.toNat keyID1.toNat).drop 2).take
      ((addressElements addr.hash keyID0.toNat keyID1.toNat).length - 4) =
        [keyIDElement keyID0.toNat, keyIDElement keyID1.toNat] := rfl
  have hhash : ((addressElements addr.hash keyID0.toNat keyID1.toNat).getD 1 ⟨op0, []⟩).data = addr.hash := rfl
  have hnew : newAddressProva addr.hash [keyID0, keyID1] = some addr := by
    have htwo : [keyID0, keyID1].length = 2 := rfl
    rw [newAddressProva, dif_pos addr.size, htwo, if_neg (by decide), if_neg (by decide), ← hkeys]
  simp only [provaAddrs, hslice, hhash, hread, map_cons, map_nil, keyIDOfInt32_toNat, hnew, Option.toList_some]

/-- An address with two keyIDs comes back from its script exactly if the keyIDs are different and have
their top bit clear. A script number is signed: a keyID with the top bit set takes five bytes, which
the classifier does not count as a keyID, and it refuses a keyID that it has seen. -/
theorem payToAddrScript_extracts_iff (a : NetAddressProva) {keyID0 keyID1 : KeyID}
    (hkeys : a.keyIDs = [keyID0, keyID1]) :
    (∃ script, payToAddrScript a.toAddressProva = .ok script ∧ getScriptClass script = .provaTy ∧
      extractNetAddrs a.netID script = .ok (.provaTy, [a], 2)) ↔
      keyID0 ≠ keyID1 ∧ keyID0.toNat < 2 ^ 31 ∧ keyID1.toNat < 2 ^ 31 := by
  obtain ⟨script, hpay, hparse⟩ := parse_payToProvaScript a.size keyID0 keyID1
  rw [← hkeys] at hpay
  have hgeneral := isGeneralProva_address a.size keyID0.toNat_lt keyID1.toNat_lt
  have hclass : getScriptClass script = typeOfScript (addressElements a.hash keyID0.toNat keyID1.toNat) := by
    rw [getScriptClass, hparse]
  constructor
  · intro ⟨script', hpay', htype, _⟩
    cases hpay.symm.trans hpay'
    obtain ⟨hne, hlow⟩ := hgeneral.mp (typeOfScript_address.mp (hclass.symm.trans htype))
    exact ⟨fun heq => hne (congrArg UInt32.toNat heq), hlow⟩
  · intro ⟨hne, h0, h1⟩
    have htype := typeOfScript_address.mpr (hgeneral.mpr ⟨fun heq => hne (UInt32.toNat_inj.mp heq), h0, h1⟩)
    refine ⟨script, hpay, hclass.trans htype, ?_⟩
    rw [extractNetAddrs, extractPkScriptAddrs, hparse, ok_bind, htype]
    simp only [provaAddrs_address a.toAddressProva hkeys h0 h1]
    rfl

def lowAddress : NetAddressProva := ⟨⟨[1, 0x7fffffff], List.replicate 20 7, rfl⟩, 0x33⟩

theorem lowAddress_extracted :
    ∃ script, payToAddrScript lowAddress.toAddressProva = .ok script ∧ getScriptClass script = .provaTy ∧
      extractNetAddrs lowAddress.netID script = .ok (.provaTy, [lowAddress], 2) :=
  (payToAddrScript_extracts_iff lowAddress rfl).mpr (by decide)

/-- The same with the top bit of the second keyID set. -/
def highAddress : NetAddressProva := ⟨⟨[1, 0x80000000], List.replicate 20 7, rfl⟩, 0x33⟩

/-- `NewAddressProva` makes the address, its script is not of a standard class and has no address. -/
theorem highAddress_not_extracted : newAddressProva highAddress.hash [1, 0x80000000] = some highAddress.toAddressProva ∧
      ∃ script, payToAddrScript highAddress.toAddressProva = .ok script ∧ getScriptClass script = .nonStandardTy ∧
        extractNetAddrs highAddress.netID script = .ok (.nonStandardTy, [], 0) :=
  ⟨by decide, op2 :: opData20 :: List.replicate 20 7 ++ [op1, 5, 0, 0, 0, 0x80, 0, op3, opCheckSafeMultiSig],
    by decide, by decide, by decide⟩

/-! ### Key hashes in the place of keyIDs -/

/-- An element with the key hash of the keyID it stands for. -/
def withKeyHash (keyIdMap : List (KeyID × Bytes)) (pop : ParsedOpcode) : ParsedOpcode :=
  match keyIDOf pop with
  | .ok (some keyID) =>
    match keyIdMap.lookup keyID with
    | some hash => ⟨opData20, hash⟩
    | none => pop
  | _ => pop

theorem replaceKeyID_eq (h : ∃ keyID, keyIDOf pop = .ok keyID) (keyIdMap : List (KeyID × Bytes)) :
    replaceKeyID keyIdMap pop = .ok (withKeyHash keyIdMap pop) := by
  obtain ⟨keyID, hkeyID⟩ := h
  rw [replaceKeyID, withKeyHash, hkeyID, ok_bind]
  cases keyID with
  | none => rfl
  | some keyID =>
    dsimp only
    cases keyIdMap.lookup keyID <;> rfl

theorem length_data_of_isUint32 {b : Bytes} (hbytes : pop.bytes = .ok b)
    (hint : isUint32 pop.opcode = true) : pop.data.length ≤ 4 := by
  have hshort : ∀ op, isUint32 op = true → opLength op = .single ∨ ∃ k < 5, opLength op = .fixed k :=
    forall_byte (by decide +kernel)
  rw [ParsedOpcode.bytes] at hbytes
  obtain hsingle | ⟨k, hk, hfixed⟩ := hshort pop.opcode hint
  · by_contra hlong
    rw [hsingle] at hbytes
    have hdata : pop.data ≠ [] := fun hnil => hlong (by rw [hnil]; decide)
    simp [hdata] at hbytes
  · rw [hfixed] at hbytes
    by_contra hlong
    have hlength : pop.data.length ≠ k := by omega
    simp [hlength] at hbytes

theorem keyIDOf_of_countKeys {seenKeyIDs : List Int} {nKeyIDs nKeyHashes : Nat}
    (hbytes : ∀ pop ∈ pops, ∃ b, pop.bytes = .ok b) (h : countKeys pops seenKeyIDs nKeyIDs nKeyHashes ≠ none) :
    ∀ pop ∈ pops, ∃ keyID, keyIDOf pop = .ok keyID := by
  induction pops generalizing seenKeyIDs nKeyIDs nKeyHashes with
  | nil => exact fun _ hmem => absurd hmem not_mem_nil
  | cons pop pops ih =>
    obtain ⟨⟨b, hb⟩, hrest⟩ := forall_mem_cons.mp hbytes
    rw [forall_mem_cons]
    rw [countKeys] at h
    by_cases hint : isUint32 pop.opcode = true
    · have hlength := length_data_of_isUint32 hb hint
      rw [if_neg (by omega), if_pos hint] at h
      rw [keyIDOf, if_pos hint]
      cases hvalue : asInt32 pop with
      | error e =>
        rw [hvalue] at h
        exact absurd rfl h
      | ok keyID =>
        simp only [hvalue] at h
        split_ifs at h with hseen
        · exact absurd rfl h
        · exact ⟨⟨_, rfl⟩, ih hrest h⟩
    · refine ⟨⟨none, if_neg hint⟩, ?_⟩
      split_ifs at h
      · exact absurd rfl h
      · exact ih hrest h
      · exact ih hrest h

theorem frame_of_isGeneralProva (h : isGeneralProva pops = true) :
    6 ≤ pops.length ∧ isSmallInt (countElement pops).opcode = true ∧
      pops.length - 3 = (asSmallInt (countElement pops).opcode).toNat ∧
      countKeys (middleElements pops) [] 0 0 ≠ none := by
  simp only [isGeneralProva, Bool.and_eq_true, decide_eq_true_eq, beq_iff_eq] at h
  obtain ⟨⟨⟨⟨⟨⟨hlength, -⟩, hcount⟩, -⟩, -⟩, hkeys⟩, hmatch⟩ := h
  refine ⟨hlength, hcount, hkeys, fun hnone => ?_⟩
  rw [hnone] at hmatch
  exact Bool.false_ne_true hmatch

theorem withKeyHash_bytes {keyIdMap : List (KeyID × Bytes)} (hbytes : ∃ b, pop.bytes = .ok b)
    (hmap : ∀ keyID hash, keyIdMap.lookup keyID = some hash → hash.length = 20) :
    ∃ b, (withKeyHash keyIdMap pop).bytes = .ok b := by
  unfold withKeyHash
  split
  · split
    · next hlookup => exact ⟨_, bytes_hash (hmap _ _ hlookup)⟩
    · exact hbytes
  · exact hbytes

theorem split_middleElements (h : 3 ≤ pops.length) :
    pops = pops.take 1 ++ middleElements pops ++ pops.drop (pops.length - 2) := by
  have hdrop : pops.drop (pops.length - 2) = (pops.drop 1).drop (pops.length - 3) := by
    rw [drop_drop]
    congr 1
    omega
  rw [hdrop, append_assoc, middleElements, take_append_drop, take_append_drop]

theorem replaceKeyIDs_eq {keyIdMap : List (KeyID × Bytes)} (hgeneral : isGeneralProva pops = true)
    (hbytes : ∀ pop ∈ pops, ∃ b, pop.bytes = .ok b) (hmap : keyIdMap ≠ []) : replaceKeyIDs pops keyIdMap =
      .ok (pops.take 1 ++ (middleElements pops).map (withKeyHash keyIdMap) ++ pops.drop (pops.length - 2)) := by
  obtain ⟨hlength, hcount, hkeys, hcounted⟩ := frame_of_isGeneralProva hgeneral
  have hmem : ∀ pop ∈ middleElements pops, pop ∈ pops := fun pop hpop =>
    mem_of_mem_drop (mem_of_mem_take hpop)
  have hkeyIDs := keyIDOf_of_countKeys (fun pop hpop => hbytes pop (hmem pop hpop)) hcounted
  have helements : keyElements pops = .ok (middleElements pops) := by
    refine bind_unit_eq_ok.mpr ⟨reject_eq_ok.mpr (by omega), ?_⟩
    rw [← hkeys]
    rfl
  have hreplaced : (middleElements pops).mapM (replaceKeyID keyIdMap) =
      .ok ((middleElements pops).map (withKeyHash keyIdMap)) := by
    refine mapM_eq_ok.mpr (forall₂_map_right_iff.mpr (forall₂_same.mpr fun pop hpop => ?_))
    exact replaceKeyID_eq (hkeyIDs pop hpop) keyIdMap
  have hmiddle : (middleElements pops).length = pops.length - 3 := by
    rw [middleElements, length_take, length_drop]
    omega
  refine bind_unit_eq_ok.mpr ⟨reject_eq_ok.mpr ?_, bind_unit_eq_ok.mpr ⟨reject_eq_ok.mpr hmap, ?_⟩⟩
  · rw [hcount, not_or]
    exact ⟨by omega, Bool.true_eq_false_eq_False⟩
  · rw [helements, ok_bind, hreplaced, ok_bind, hmiddle, show 1 + (pops.length - 3) = pops.length - 2 by omega]
    rfl

/-- Unparsing undoes parsing, and a Prova script in which keyIDs are replaced parses, after unparsing, as
the same elements but for the keyIDs of the map, which are pushes of their key hashes. -/
theorem parsed_scripts_roundTrip {s : Bytes} {pops : List ParsedOpcode} (hparse : parseScript s = .ok pops) :
    unparseScript pops = .ok s ∧ (isGeneralProva pops = true → ∀ keyIdMap : List (KeyID × Bytes), keyIdMap ≠ [] →
        (∀ keyID hash, keyIdMap.lookup keyID = some hash → hash.length = 20) →
        ∃ replaced s', replaceKeyIDs pops keyIdMap = .ok replaced ∧ unparseScript replaced = .ok s' ∧
          parseScript s' = .ok replaced ∧ pops = pops.take 1 ++ middleElements pops ++ pops.drop (pops.length - 2) ∧
          replaced = pops.take 1 ++ (middleElements pops).map (withKeyHash keyIdMap) ++
            pops.drop (pops.length - 2)) := by
  have hunparse := unparseScript_of_parseScript hparse
  refine ⟨hunparse, fun hgeneral keyIdMap hne hmap => ?_⟩
  have hbytes := exists_unparseScript.mp ⟨s, hunparse⟩
  have hsplit := split_middleElements (le_trans (by decide) (frame_of_isGeneralProva hgeneral).1)
  have hreplaced : ∀ pop ∈ pops.take 1 ++ (middleElements pops).map (withKeyHash keyIdMap) ++
      pops.drop (pops.length - 2), ∃ b, pop.bytes = .ok b := by
    rw [hsplit, forall_mem_append, forall_mem_append] at hbytes
    obtain ⟨⟨hfirst, hmiddle⟩, hlast⟩ := hbytes
    refine forall_mem_append.mpr ⟨forall_mem_append.mpr ⟨hfirst, ?_⟩, hlast⟩
    exact forall_mem_map.mpr fun pop hpop => withKeyHash_bytes (hmiddle pop hpop) hmap
  obtain ⟨s', hs'⟩ := exists_unparseScript.mpr hreplaced
  exact ⟨_, s', replaceKeyIDs_eq hgeneral (exists_unparseScript.mp ⟨s, hunparse⟩) hne, hs',
    parseScript_of_unparseScript hs', hsplit, rfl⟩

/-- The script of an address with the keyIDs 1 and 300, and the map with the key hash of the second. -/
theorem parsed_scripts_roundTrip_two :
    ∃ replaced s', replaceKeyIDs (addressElements (List.replicate 20 7) 1 300) [(300, List.replicate 20 8)] =
        .ok replaced ∧ unparseScript replaced = .ok s' ∧ parseScript s' = .ok replaced := by
  have hparse : parseScript (op2 :: opData20 :: List.replicate 20 7 ++ [op1, 2, 0x2c, 1, op3, opCheckSafeMultiSig]) =
      .ok (addressElements (List.replicate 20 7) 1 300) := by decide
  have hmap : ∀ keyID hash, [((300 : KeyID), List.replicate 20 (8 : UInt8))].lookup keyID = some hash →
      hash.length = 20 := by
    intro keyID hash hlookup
    rw [lookup_cons] at hlookup
    split at hlookup
    · cases hlookup
      rfl
    · cases hlookup
  obtain ⟨replaced, s', hreplaced, hs', hback, -⟩ :=
    (parsed_scripts_roundTrip hparse).2 (by decide) _ (by decide) hmap
  exact ⟨replaced, s', hreplaced, hs', hback⟩

end Prova
