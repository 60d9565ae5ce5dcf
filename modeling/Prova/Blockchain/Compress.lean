import Prova.Lib.Vlq
import Prova.Lib.Checked
import Prova.Btcec.PubKey
import Prova.Txscript.Opcode

/-!
# Compressed outputs (`blockchain/compress.go`)

Amounts and scripts of stored outputs are compressed. An amount is split into a power of ten and the
digits before it. A script of one of four standard forms is stored as the form and the hash or the x
coordinate in it, any other script behind its length. A compressed output can be read off the front of
a byte string and gives the amount and the script back.

Sizes are read as 64-bit numbers and used as signed ones, and the bytes that are cut off a string are not
checked again when they are decompressed. What the source does with a size that is negative or too large is
the `panic` error here.
-/

namespace Prova

open List

variable {compressed script : Bytes} {amount : Nat}

def opDup : UInt8 := 0x76
def opEqualVerify : UInt8 := 0x88
def opData33 : UInt8 := 0x21
def opData65 : UInt8 := 0x41

/-! ### Amounts -/

/-- The loop of `compressTxOutAmount`: the first argument is how often it may still divide. -/
def stripZeros : Nat → Nat → Nat × Nat
  | 0, amount => (amount, 9)
  | k + 1, amount => if amount % 10 = 0 then stripZeros k (amount / 10) else (amount, 9 - (k + 1))

/-- `compressTxOutAmount`, in 64 bits. -/
def compressTxOutAmount (amount : Nat) : Nat :=
  if amount = 0 then 0
  else
    let (amount, exponent) := stripZeros 9 amount
    if exponent < 9 then (1 + 10 * (9 * (amount / 10) + amount % 10 - 1) + exponent) % 2 ^ 64
    else (10 + 10 * (amount - 1)) % 2 ^ 64

/-- `decompressTxOutAmount`, in 64 bits. -/
def decompressTxOutAmount (amount : Nat) : Nat :=
  if amount = 0 then 0
  else
    let exponent := (amount - 1) % 10
    let amount := (amount - 1) / 10
    let n := if exponent < 9 then amount / 9 * 10 + (amount % 9 + 1) else amount + 1
    n * 10 ^ exponent % 2 ^ 64

theorem stripZeros_spec {k : Nat} (hk : k ≤ 9) (hpos : 0 < amount) :
    ∃ n e, stripZeros k amount = (n, e) ∧ 9 - k ≤ e ∧ e ≤ 9 ∧ amount = n * 10 ^ (e - (9 - k)) ∧
      0 < n ∧ (e < 9 → n % 10 ≠ 0) := by
  induction k generalizing amount with
  | zero => exact ⟨amount, 9, rfl, by omega, le_rfl, by simp, hpos, by omega⟩
  | succ k ih =>
    unfold stripZeros
    split_ifs with hzero
    · obtain ⟨n, e, heq, hle, hmax, hamount, hn, hdigit⟩ := ih (by omega) (by omega : 0 < amount / 10)
      refine ⟨n, e, heq, by omega, hmax, ?_, hn, hdigit⟩
      have hexp : e - (9 - (k + 1)) = e - (9 - k) + 1 := by omega
      rw [hexp, pow_succ, ← mul_assoc, ← hamount]
      omega
    · exact ⟨amount, 9 - (k + 1), rfl, le_rfl, by omega, by simp, hpos, fun _ => hzero⟩

theorem compressTxOutAmount_lt (amount : Nat) : compressTxOutAmount amount < 2 ^ 64 := by
  unfold compressTxOutAmount
  split_ifs
  · norm_num
  · simp only
    split_ifs <;> exact Nat.mod_lt _ (by norm_num)

theorem decompressTxOutAmount_compressTxOutAmount (h : amount < 2 ^ 60) :
    decompressTxOutAmount (compressTxOutAmount amount) = amount := by
  rcases Nat.eq_zero_or_pos amount with rfl | hpos
  · rfl
  obtain ⟨n, e, heq, -, hmax, hamount, hn, hdigit⟩ := stripZeros_spec le_rfl hpos
  have hle : n ≤ amount := by
    rw [hamount]
    exact Nat.le_mul_of_pos_right _ (by positivity)
  rw [Nat.sub_self, Nat.sub_zero] at hamount
  unfold compressTxOutAmount
  rw [if_neg hpos.ne', heq]
  simp only
  by_cases he : e < 9
  · have hd := hdigit he
    have hfit : 1 + 10 * (9 * (n / 10) + n % 10 - 1) + e < 2 ^ 64 := by omega
    rw [if_pos he, Nat.mod_eq_of_lt hfit]
    unfold decompressTxOutAmount
    have hexp : (1 + 10 * (9 * (n / 10) + n % 10 - 1) + e - 1) % 10 = e := by omega
    have hrest : (1 + 10 * (9 * (n / 10) + n % 10 - 1) + e - 1) / 10 = 9 * (n / 10) + n % 10 - 1 := by
      omega
    simp only [hexp, hrest, if_pos he]
    have hback : (9 * (n / 10) + n % 10 - 1) / 9 * 10 + ((9 * (n / 10) + n % 10 - 1) % 9 + 1) = n := by
      omega
    rw [if_neg (by omega), hback, ← hamount]
    omega
  · have hnine : e = 9 := by omega
    subst hnine
    have hfit : 10 + 10 * (n - 1) < 2 ^ 64 := by omega
    rw [if_neg he, Nat.mod_eq_of_lt hfit]
    unfold decompressTxOutAmount
    have hexp : (10 + 10 * (n - 1) - 1) % 10 = 9 := by omega
    have hrest : (10 + 10 * (n - 1) - 1) / 10 = n - 1 := by omega
    simp only [hexp, hrest, lt_irrefl, if_false]
    rw [if_neg (by omega), Nat.sub_add_cancel hn, ← hamount]
    omega

/-! ### Scripts -/

namespace Compress

def numSpecialScripts : Nat := 6

def isPubKeyHash (script : Bytes) : Option Bytes :=
  if script.length = 25 ∧ script.take 3 = [opDup, opHash160, opData20] ∧
      script.drop 23 = [opEqualVerify, opCheckSig] then
    some ((script.drop 3).take 20)
  else none

def isScriptHash (script : Bytes) : Option Bytes :=
  if script.length = 23 ∧ script.take 2 = [opHash160, opData20] ∧ script.drop 22 = [opEqual] then
    some ((script.drop 2).take 20)
  else none

def isPubKey (script : Bytes) : Option Bytes :=
  if script.length = 35 ∧ (script.take 2 = [opData33, 0x02] ∨ script.take 2 = [opData33, 0x03]) ∧
      script.drop 34 = [opCheckSig] ∧ (parsePubKey ((script.drop 1).take 33)).isOk = true then
    some ((script.drop 1).take 33)
  else if script.length = 67 ∧ script.take 2 = [opData65, 0x04] ∧ script.drop 66 = [opCheckSig] ∧
      (parsePubKey ((script.drop 1).take 65)).isOk = true then
    some ((script.drop 1).take 65)
  else none

def putCompressedScript (pkScript : Bytes) : Bytes :=
  match isPubKeyHash pkScript with
  | some hash => 0 :: hash
  | none =>
    match isScriptHash pkScript with
    | some hash => 1 :: hash
    | none =>
      match isPubKey pkScript with
      | some key =>
        let format := key.headD 0
        -- an uncompressed key leaves the oddness of its y coordinate in the form
        let form := if format = 0x04 then format ||| (key.getD 64 0 &&& 0x01) else format
        form :: (key.drop 1).take 32
      | none => putVLQ (pkScript.length + numSpecialScripts) ++ pkScript

def compressedScriptSize (pkScript : Bytes) : Nat :=
  if (isPubKeyHash pkScript).isSome then 21
  else if (isScriptHash pkScript).isSome then 21
  else if (isPubKey pkScript).isSome then 33
  else serializeSizeVLQ (pkScript.length + numSpecialScripts) + pkScript.length

/-- `decodeCompressedScriptSize`. The sum is one of `uint64`, and then an `int`. -/
def decodeCompressedScriptSize (serialized : Bytes) : Int :=
  let (scriptSize, bytesRead) := deserializeVLQ serialized
  if bytesRead = 0 then 0
  else if scriptSize ≤ 1 then 21
  else if scriptSize ≤ 5 then 33
  else (Int64.ofNat (scriptSize - numSpecialScripts + bytesRead)).toInt

inductive DecodeError
  | endOfData
  | invalidKey
  | panic
deriving DecidableEq, Repr

def slice (b : Bytes) (low n : Nat) : Except DecodeError Bytes :=
  if low + n ≤ b.length then .ok ((b.drop low).take n) else .error .panic

/-- `decompressScript`. With an invalid key it returns nil. -/
def decompressScript (compressedPkScript : Bytes) : Except DecodeError Bytes :=
  if compressedPkScript = [] then .ok []
  else
    let (encodedScriptSize, bytesRead) := deserializeVLQ compressedPkScript
    if encodedScriptSize = 0 then do
      let hash ← slice compressedPkScript bytesRead 20
      return [opDup, opHash160, opData20] ++ hash ++ [opEqualVerify, opCheckSig]
    else if encodedScriptSize = 1 then do
      let hash ← slice compressedPkScript bytesRead 20
      return [opHash160, opData20] ++ hash ++ [opEqual]
    else if encodedScriptSize ≤ 3 then do
      let x ← slice compressedPkScript bytesRead 32
      return [opData33, UInt8.ofNat encodedScriptSize] ++ x ++ [opCheckSig]
    else if encodedScriptSize ≤ 5 then
      -- the key is copied to a buffer of zeros
      let x := ((compressedPkScript.drop 1).take 32).rightpad 32 0
      match parsePubKey (UInt8.ofNat (encodedScriptSize - 2) :: x) with
      | .error _ => .error .invalidKey
      | .ok key => .ok ([opData65] ++ key.serializeUncompressed ++ [opCheckSig])
    else do
      let scriptSize := (Int64.ofNat (encodedScriptSize - numSpecialScripts)).toInt
      reject (scriptSize < 0) .panic
      slice compressedPkScript bytesRead scriptSize.toNat

/-- The five ways in which a script is compressed. -/
inductive Form : Bytes → Bytes → Prop
  | pubKeyHash {hash : Bytes} : hash.length = 20 →
    Form ([opDup, opHash160, opData20] ++ hash ++ [opEqualVerify, opCheckSig]) (0 :: hash)
  | scriptHash {hash : Bytes} : hash.length = 20 →
    Form ([opHash160, opData20] ++ hash ++ [opEqual]) (1 :: hash)
  | compressedKey {format : UInt8} {x : Bytes} : format = 0x02 ∨ format = 0x03 → x.length = 32 →
    Form ([opData33, format] ++ x ++ [opCheckSig]) (format :: x)
  | uncompressedKey (key : PublicKey) :
    Form ([opData65] ++ key.serializeUncompressed ++ [opCheckSig])
      ((if isOdd key.y then 5 else 4) :: beBytes 32 key.x)
  | general (script : Bytes) : Form script (putVLQ (script.length + numSpecialScripts) ++ script)

theorem cut_eq {front back : Bytes} {i j : Nat} (hij : i ≤ j) (hfront : script.take i = front)
    (hback : script.drop j = back) : script = front ++ (script.drop i).take (j - i) ++ back := by
  have hmid : (script.drop i).drop (j - i) = back := by
    rw [drop_drop, Nat.add_sub_cancel' hij, hback]
  rw [← hfront, ← hmid, append_assoc, take_append_drop, take_append_drop]

theorem oddness_serializeUncompressed (key : PublicKey) :
    (0x04 : UInt8) ||| (key.serializeUncompressed.getD 64 0 &&& 0x01) =
      if isOdd key.y then 5 else 4 := by
  have hlast : key.serializeUncompressed.getD 64 0 = UInt8.ofNat key.y := by
    have hle : beBytes 32 key.y = (leBytes 31 (key.y / 256)).reverse ++ [UInt8.ofNat key.y] := by
      unfold beBytes
      rw [leBytes, reverse_cons]
    unfold PublicKey.serializeUncompressed
    rw [hle, getD_cons_succ, ← append_assoc, getD_eq_getElem?_getD, getElem?_append_right (by simp)]
    simp
  have hbit : UInt8.ofNat key.y &&& 0x01 = UInt8.ofNat (key.y % 2) := by
    apply UInt8.toNat_inj.mp
    rw [UInt8.toNat_and, UInt8.toNat_ofNat', UInt8.toNat_ofNat']
    change key.y % 2 ^ 8 &&& 2 ^ 1 - 1 = _
    rw [Nat.and_two_pow_sub_one_eq_mod]
    omega
  rw [hlast, hbit]
  unfold isOdd
  rcases Nat.mod_two_eq_zero_or_one key.y with hy | hy
  · rw [hy]
    rfl
  · rw [hy]
    rfl

theorem parsePubKey_uncompressed {rest : Bytes} {key : PublicKey}
    (h : parsePubKey (0x04 :: rest) = .ok key) (hlen : rest.length = 64) :
    0x04 :: rest = key.serializeUncompressed := by
  rcases parsePubKey_eq_ok.mp h with ⟨format, hformat⟩ | hfive
  · cases format with
    | uncompressed => exact hformat.symm
    | compressed =>
      rw [← (List.cons.inj hformat).2, length_beBytes] at hlen
      cases hlen
    | hybrid =>
      have hmagic := (List.cons.inj hformat).1
      split_ifs at hmagic <;> cases hmagic
  · cases hfive

theorem form_isPubKey {key : Bytes} (h : isPubKey script = some key) : Form script
      ((if key.headD 0 = 0x04 then key.headD 0 ||| (key.getD 64 0 &&& 0x01) else key.headD 0) ::
        (key.drop 1).take 32) := by
  unfold isPubKey at h
  split_ifs at h with hcomp huncomp
  · cases h
    obtain ⟨hlen, hfront, hback, -⟩ := hcomp
    obtain ⟨format, hformat, hfront⟩ : ∃ format : UInt8, (format = 0x02 ∨ format = 0x03) ∧
        script.take 2 = [opData33, format] := by
      rcases hfront with hfront | hfront
      · exact ⟨_, .inl rfl, hfront⟩
      · exact ⟨_, .inr rfl, hfront⟩
    have hscript := cut_eq (by norm_num : 2 ≤ 34) hfront hback
    have hx : ((script.drop 2).take (34 - 2)).length = 32 := by simp [hlen]
    generalize (script.drop 2).take (34 - 2) = x at hscript hx
    subst hscript
    have hkey : (([opData33, format] ++ x ++ [opCheckSig]).drop 1).take 33 = format :: x := by
      simp [hx]
    have hne : format ≠ 0x04 := by
      rintro rfl
      revert hformat
      decide
    rw [hkey, headD_cons, if_neg hne, drop_one, tail_cons, take_of_length_le hx.le]
    exact .compressedKey hformat hx
  · cases h
    obtain ⟨hlen, hfront, hback, hvalid⟩ := huncomp
    have hscript := cut_eq (by norm_num : 2 ≤ 66) hfront hback
    have hrest : ((script.drop 2).take (66 - 2)).length = 64 := by simp [hlen]
    generalize (script.drop 2).take (66 - 2) = rest at hscript hrest
    subst hscript
    have hkey : (([opData65, 0x04] ++ rest ++ [opCheckSig]).drop 1).take 65 = 0x04 :: rest := by
      simp [hrest]
    rw [hkey] at hvalid ⊢
    obtain ⟨k, hk⟩ := exists_ok_of_isOk hvalid
    have hser := parsePubKey_uncompressed hk hrest
    have hform := Form.uncompressedKey k
    rw [← oddness_serializeUncompressed, ← hser] at hform
    have hx : beBytes 32 k.x = rest.take 32 := by
      have htail : rest = beBytes 32 k.x ++ beBytes 32 k.y := (List.cons.inj hser).2
      rw [htail, take_left' (length_beBytes _ _)]
    rw [hx] at hform
    exact hform

theorem form_putCompressedScript (script : Bytes) : Form script (putCompressedScript script) := by
  unfold putCompressedScript
  cases hhash : isPubKeyHash script with
  | some hash =>
    unfold isPubKeyHash at hhash
    split_ifs at hhash with h
    cases hhash
    obtain ⟨hlen, hfront, hback⟩ := h
    have hform := @Form.pubKeyHash ((script.drop 3).take 20) (by simp [hlen])
    rwa [← cut_eq (by norm_num : 3 ≤ 23) hfront hback] at hform
  | none =>
    simp only
    cases hshash : isScriptHash script with
    | some hash =>
      unfold isScriptHash at hshash
      split_ifs at hshash with h
      cases hshash
      obtain ⟨hlen, hfront, hback⟩ := h
      have hform := @Form.scriptHash ((script.drop 2).take 20) (by simp [hlen])
      rwa [← cut_eq (by norm_num : 2 ≤ 22) hfront hback] at hform
    | none =>
      simp only
      cases hkey : isPubKey script with
      | none => exact .general script
      | some key => exact form_isPubKey hkey

theorem deserializeVLQ_byte {form : UInt8} (h : form.toNat < 128) (rest : Bytes) :
    deserializeVLQ (form :: rest) = (form.toNat, 1) := by
  unfold deserializeVLQ
  simp only [readVLQ]
  rw [if_pos h]
  congr 1
  omega

theorem Form.cases_head (h : Form script compressed) :
    (∃ form body, compressed = form :: body ∧ (form.toNat ≤ 1 ∧ body.length = 20 ∨
      2 ≤ form.toNat ∧ form.toNat ≤ 5 ∧ body.length = 32)) ∨
    compressed = putVLQ (script.length + numSpecialScripts) ++ script := by
  cases h with
  | pubKeyHash hhash => exact .inl ⟨_, _, rfl, .inl ⟨by decide, hhash⟩⟩
  | scriptHash hhash => exact .inl ⟨_, _, rfl, .inl ⟨by decide, hhash⟩⟩
  | compressedKey hformat hx =>
    refine .inl ⟨_, _, rfl, .inr ?_⟩
    rcases hformat with rfl | rfl
    · exact ⟨by decide, by decide, hx⟩
    · exact ⟨by decide, by decide, hx⟩
  | uncompressedKey key =>
    refine .inl ⟨_, _, rfl, .inr ?_⟩
    split_ifs
    · exact ⟨by decide, by decide, length_beBytes 32 _⟩
    · exact ⟨by decide, by decide, length_beBytes 32 _⟩
  | general => exact .inr rfl

theorem toInt_ofNat_eq {n : Nat} (h : n < 2 ^ 63) : (Int64.ofNat n).toInt = n := by
  have hsize : (Int64.size : Int) = 2 ^ 64 := rfl
  rw [Int64.toInt_ofNat', Int.bmod_def, hsize]
  split_ifs <;> omega

theorem decodeCompressedScriptSize_form (h : Form script compressed) (hlen : compressed.length < 2 ^ 63)
    (rest : Bytes) : decodeCompressedScriptSize (compressed ++ rest) = compressed.length := by
  unfold decodeCompressedScriptSize
  rcases h.cases_head with ⟨form, body, rfl, hform⟩ | rfl
  · rw [cons_append, deserializeVLQ_byte (by omega)]
    rcases hform with ⟨hone, hbody⟩ | ⟨htwo, hfive, hbody⟩
    · simp [hone, hbody]
    · simp [hfive, show ¬ form.toNat ≤ 1 by omega, hbody]
  · rw [length_append] at hlen
    have hpos := length_pos_iff.mpr (putVLQ_ne_nil (script.length + numSpecialScripts))
    unfold numSpecialScripts at hlen hpos ⊢
    have hsum : script.length + 6 - 6 + (putVLQ (script.length + 6)).length < 2 ^ 63 := by omega
    rw [append_assoc, deserializeVLQ_putVLQ (by omega), length_append]
    dsimp only
    rw [if_neg (by omega), if_neg (by omega), if_neg (by omega), toInt_ofNat_eq hsum]
    omega

theorem slice_drop_one {form : UInt8} {body : Bytes} {n : Nat} (h : body.length = n) :
    slice (form :: body) 1 n = .ok body := by
  subst h
  rw [slice, if_pos (by rw [length_cons]; omega), drop_one, tail_cons, take_length]

theorem decompressScript_form (h : Form script compressed) (hlen : compressed.length < 2 ^ 63) :
    decompressScript compressed = .ok script := by
  unfold decompressScript
  cases h with
  | pubKeyHash hhash =>
    rw [deserializeVLQ_byte (by decide), if_neg (cons_ne_nil _ _)]
    simp only [UInt8.toNat_zero, if_true, slice_drop_one hhash, ok_bind]
    rfl
  | scriptHash hhash =>
    rw [deserializeVLQ_byte (by decide), if_neg (cons_ne_nil _ _)]
    simp only [slice_drop_one hhash, ok_bind]
    rfl
  | compressedKey hformat hx =>
    rcases hformat with rfl | rfl
    · rw [deserializeVLQ_byte (by decide), if_neg (cons_ne_nil _ _)]
      simp only [slice_drop_one hx, ok_bind]
      rfl
    · rw [deserializeVLQ_byte (by decide), if_neg (cons_ne_nil _ _)]
      simp only [slice_drop_one hx, ok_bind]
      rfl
  | uncompressedKey key =>
    have hparse := parsePubKey_serializeCompressed key
    have htake : ((beBytes 32 key.x).take 32).rightpad 32 0 = beBytes 32 key.x := by
      rw [take_of_length_le (length_beBytes _ _).le, List.rightpad, length_beBytes]
      exact append_nil _
    unfold PublicKey.serializeCompressed at hparse
    by_cases hodd : isOdd key.y = true
    · have hform : UInt8.ofNat ((5 : UInt8).toNat - 2) = pubkeyCompressed ||| 0x1 := by decide
      rw [if_pos hodd] at hparse ⊢
      rw [if_neg (cons_ne_nil _ _), deserializeVLQ_byte (by decide)]
      simp only [drop_one, tail_cons, htake]
      rw [hform, hparse]
      rfl
    · have hform : UInt8.ofNat ((4 : UInt8).toNat - 2) = pubkeyCompressed := by decide
      rw [if_neg hodd] at hparse ⊢
      rw [if_neg (cons_ne_nil _ _), deserializeVLQ_byte (by decide)]
      simp only [drop_one, tail_cons, htake]
      rw [hform, hparse]
      rfl
  | general =>
    rw [length_append] at hlen
    have hint : (Int64.ofNat (script.length + 6 - 6)).toInt = script.length := toInt_ofNat_eq (by omega)
    unfold numSpecialScripts at hlen ⊢
    rw [if_neg (by simp [putVLQ_ne_nil]), deserializeVLQ_putVLQ (by omega)]
    dsimp only
    rw [if_neg (by omega), if_neg (by omega), if_neg (by omega), if_neg (by omega), hint,
      reject_bind_of_not (by omega), Int.toNat_natCast, slice, if_pos (by rw [length_append]), drop_left, take_length]

theorem readVLQ_lt {b : Bytes} {n size : Nat} (hn : n < 2 ^ 64) : (readVLQ b n size).1 < 2 ^ 64 := by
  induction b generalizing n size with
  | nil => exact hn
  | cons val rest ih =>
    rw [readVLQ]
    split_ifs
    · exact Nat.mod_lt _ (by decide)
    · exact ih (Nat.mod_lt _ (by decide))

/-- A compressed script holds what its own size announces: a hash, a coordinate, or that many bytes. -/
def Readable (compressedPkScript : Bytes) : Prop :=
  let (size, bytesRead) := deserializeVLQ compressedPkScript
  if compressedPkScript = [] then True
  else if size ≤ 1 then bytesRead + 20 ≤ compressedPkScript.length
  else if size ≤ 3 then bytesRead + 32 ≤ compressedPkScript.length
  else if size ≤ 5 then
    (parsePubKey (UInt8.ofNat (size - 2) :: ((compressedPkScript.drop 1).take 32).rightpad 32 0)).isOk = true
  else size - numSpecialScripts < 2 ^ 63 ∧ bytesRead + (size - numSpecialScripts) ≤ compressedPkScript.length

theorem exists_slice {b : Bytes} {low n : Nat} {f : Bytes → Bytes} :
    (∃ script, (slice b low n >>= fun x => .ok (f x)) = .ok script) ↔ low + n ≤ b.length := by
  unfold slice
  split_ifs with h
  · exact iff_of_true ⟨_, rfl⟩ h
  · refine iff_of_false ?_ h
    rintro ⟨script, hscript⟩
    cases hscript

theorem decompressScript_ok_iff (b : Bytes) : (∃ script, decompressScript b = .ok script) ↔ Readable b := by
  have hlt : (deserializeVLQ b).1 < 2 ^ 64 := readVLQ_lt (by decide)
  unfold decompressScript Readable
  generalize deserializeVLQ b = read at hlt
  obtain ⟨size, bytesRead⟩ := read
  dsimp only at hlt ⊢
  by_cases hnil : b = []
  · simp [hnil]
  simp only [if_neg hnil]
  by_cases hzero : size = 0
  · rw [if_pos hzero, if_pos (show size ≤ 1 by omega)]
    exact exists_slice
  rw [if_neg hzero]
  by_cases hone : size = 1
  · rw [if_pos hone, if_pos hone.le]
    exact exists_slice
  rw [if_neg hone, if_neg (show ¬ size ≤ 1 by omega)]
  by_cases hthree : size ≤ 3
  · rw [if_pos hthree, if_pos hthree]
    exact exists_slice
  rw [if_neg hthree, if_neg hthree]
  by_cases hfive : size ≤ 5
  · rw [if_pos hfive, if_pos hfive]
    cases parsePubKey (UInt8.ofNat (size - 2) :: ((b.drop 1).take 32).rightpad 32 0) with
    | error e => exact iff_of_false (fun h => by cases h.choose_spec) Bool.false_ne_true
    | ok key => exact iff_of_true ⟨_, rfl⟩ rfl
  rw [if_neg hfive, if_neg hfive]
  by_cases hfits : size - numSpecialScripts < 2 ^ 63
  · rw [toInt_ofNat_eq hfits, reject_bind_of_not (by omega), Int.toNat_natCast, and_iff_right hfits]
    unfold slice
    split_ifs with h
    · exact iff_of_true ⟨_, rfl⟩ h
    · exact iff_of_false (fun h => by cases h.choose_spec) h
  · have hneg : (Int64.ofNat (size - numSpecialScripts)).toInt < 0 := by
      have hsize : (Int64.size : Int) = 2 ^ 64 := rfl
      rw [Int64.toInt_ofNat', Int.bmod_def, hsize]
      split_ifs <;> omega
    refine iff_of_false ?_ fun h => hfits h.1
    rintro ⟨script, h⟩
    exact reject_eq_ok.mp (bind_unit_eq_ok.mp h).1 hneg

theorem length_putCompressedScript {pkScript : Bytes} (h : pkScript.length + numSpecialScripts < 2 ^ 64) :
    (putCompressedScript pkScript).length = compressedScriptSize pkScript := by
  unfold putCompressedScript compressedScriptSize
  cases hhash : isPubKeyHash pkScript with
  | some hash =>
    unfold isPubKeyHash at hhash
    split_ifs at hhash with hlen
    cases hhash
    simp [hlen.1]
  | none =>
    cases hshash : isScriptHash pkScript with
    | some hash =>
      unfold isScriptHash at hshash
      split_ifs at hshash with hlen
      cases hshash
      simp [hlen.1]
    | none =>
      cases hkey : isPubKey pkScript with
      | some key =>
        have hlong : 33 ≤ key.length := by
          unfold isPubKey at hkey
          split_ifs at hkey with hcomp huncomp
          · cases hkey
            simp [hcomp.1]
          · cases hkey
            simp [huncomp.1]
        simp only [Option.isSome_none, Option.isSome_some, Bool.false_eq_true, if_false, if_true, length_cons,
          length_take, length_drop]
        omega
      | none =>
        simp only [Option.isSome_none, Bool.false_eq_true, if_false, length_append, length_putVLQ h]

end Compress

/-! ### Outputs -/

open Compress

/-- `putCompressedTxOut` for an output that is not compressed yet. -/
def putCompressedTxOut (amount : Nat) (pkScript : Bytes) : Bytes :=
  putVLQ (compressTxOutAmount amount) ++ putCompressedScript pkScript

/-- `compressedTxOutSize` for an output that is not compressed yet. -/
def compressedTxOutSize (amount : Nat) (pkScript : Bytes) : Nat :=
  serializeSizeVLQ (compressTxOutAmount amount) + compressedScriptSize pkScript

/-- `decodeCompressedTxOut`: the compressed amount and script and the count of bytes they take. -/
def decodeCompressedTxOut (serialized : Bytes) : Except DecodeError (Nat × Bytes × Nat) := do
  let (compressedAmount, bytesRead) := deserializeVLQ serialized
  reject (serialized.length ≤ bytesRead) .endOfData
  let scriptSize := decodeCompressedScriptSize (serialized.drop bytesRead)
  reject ((serialized.drop bytesRead).length < scriptSize) .endOfData
  -- `make` with a negative size
  reject (scriptSize < 0) .panic
  return (compressedAmount, (serialized.drop bytesRead).take scriptSize.toNat, bytesRead + scriptSize.toNat)

theorem Compress.Form.ne_nil (h : Form script compressed) : compressed ≠ [] := by
  cases h <;> simp [putVLQ_ne_nil]

theorem decodeCompressedTxOut_form (hamount : amount < 2 ^ 64) (hform : Form script compressed)
    (hlen : compressed.length < 2 ^ 63) (rest : Bytes) : decodeCompressedTxOut (putVLQ amount ++ compressed ++ rest) =
      .ok (amount, compressed, (putVLQ amount ++ compressed).length) := by
  have hpos := length_pos_iff.mpr hform.ne_nil
  unfold decodeCompressedTxOut
  rw [append_assoc, deserializeVLQ_putVLQ hamount]
  dsimp only
  rw [drop_left, decodeCompressedScriptSize_form hform hlen, reject_bind_of_not, reject_bind_of_not,
    reject_bind_of_not (by omega), Int.toNat_natCast, take_left, length_append]
  · rfl
  · rw [length_append]
    omega
  · simp only [length_append]
    omega

theorem decodeCompressedTxOut_put (amount : Nat) {pkScript : Bytes}
    (hlen : (putCompressedScript pkScript).length < 2 ^ 63) (rest : Bytes) :
    decodeCompressedTxOut (putCompressedTxOut amount pkScript ++ rest) =
      .ok (compressTxOutAmount amount, putCompressedScript pkScript, (putCompressedTxOut amount pkScript).length) :=
  decodeCompressedTxOut_form (compressTxOutAmount_lt amount) (form_putCompressedScript pkScript) hlen rest

/-! ### Amounts and versions as signed numbers -/

def uint64 (x : Int) : Nat := (x % 2 ^ 64).toNat

theorem uint64_lt (x : Int) : uint64 x < 2 ^ 64 := by
  unfold uint64
  omega

theorem int32_ofNat_uint64 (version : Int32) : Int32.ofNat (uint64 version.toInt) = version := by
  have hlt := version.toInt_lt
  have hle := version.le_toInt
  have hsize : (Int32.size : Int) = 2 ^ 32 := rfl
  apply Int32.toInt_inj.mp
  rw [Int32.toInt_ofNat', Int.bmod_def, hsize]
  unfold uint64
  split_ifs <;> omega

theorem decompressTxOutAmount_compress_uint64 {amount : Int64} (hnonneg : 0 ≤ amount.toInt)
    (hlt : amount.toInt < 2 ^ 60) :
    Int64.ofNat (decompressTxOutAmount (compressTxOutAmount (uint64 amount.toInt))) = amount := by
  have hamount : (uint64 amount.toInt : Int) = amount.toInt := by
    unfold uint64
    omega
  rw [decompressTxOutAmount_compressTxOutAmount (by omega)]
  have hsize : (Int64.size : Int) = 2 ^ 64 := rfl
  apply Int64.toInt_inj.mp
  rw [Int64.toInt_ofNat', hamount, Int.bmod_def, hsize]
  split_ifs <;> omega

theorem decompressScript_putCompressedScript (h : (putCompressedScript script).length < 2 ^ 63) :
    decompressScript (putCompressedScript script) = .ok script :=
  decompressScript_form (form_putCompressedScript _) h

theorem length_putCompressedTxOut {pkScript : Bytes} (h : pkScript.length + numSpecialScripts < 2 ^ 64)
    (amount : Nat) : (putCompressedTxOut amount pkScript).length = compressedTxOutSize amount pkScript := by
  rw [putCompressedTxOut, length_append, length_putVLQ (compressTxOutAmount_lt amount),
    length_putCompressedScript h, compressedTxOutSize]

theorem Compress.Form.length_le (h : Form script compressed) : script.length ≤ compressed.length + 34 := by
  cases h <;> simp [PublicKey.serializeUncompressed]
  omega

/-! ### Variable length quantities -/

/-- Each number of 64 bits is read as it was written, from any byte string in front of which it stands. No
encoding is the beginning of another one, and each byte string that ends like one and whose number has 64 bits is the
encoding of one number. -/
theorem putVLQ_bijective : (∀ n < 2 ^ 64, ∀ rest, deserializeVLQ (putVLQ n ++ rest) = (n, (putVLQ n).length) ∧
      (putVLQ n).length = serializeSizeVLQ n) ∧ (∀ m < 2 ^ 64, ∀ n < 2 ^ 64, putVLQ m <+: putVLQ n → m = n) ∧
    ∀ (groups : Bytes) (last : UInt8), (∀ val ∈ groups, 128 ≤ val.toNat) → last.toNat < 128 →
      vlqValue groups last < 2 ^ 64 → ∃! n, n < 2 ^ 64 ∧ putVLQ n = groups ++ [last] := by
  refine ⟨fun n hn rest => ⟨deserializeVLQ_putVLQ hn rest, length_putVLQ hn⟩, fun m hm n hn h => ?_,
    fun groups last hhigh hlast hfit => ?_⟩
  · obtain ⟨r, hr⟩ := h
    exact (prefixCode_putVLQ m n r [] hm hn (by rw [hr, append_nil])).1
  · have hput := putVLQ_vlqValue hhigh hlast hfit
    refine ⟨_, ⟨hfit, hput⟩, fun n hn => ?_⟩
    exact (prefixCode_putVLQ n _ [] [] hn.1 hfit (by rw [hn.2, hput])).1

theorem putVLQ_bijective_two_bytes :
    deserializeVLQ (putVLQ 300 ++ [7]) = (300, 2) ∧ (∃! n, n < 2 ^ 64 ∧ putVLQ n = [0x81] ++ [0x2c]) := by
  have hone := (putVLQ_bijective.1 300 (by decide) [7]).1
  exact ⟨hone, putVLQ_bijective.2.2 [0x81] 0x2c (by decide) (by decide) (by decide)⟩

end Prova
