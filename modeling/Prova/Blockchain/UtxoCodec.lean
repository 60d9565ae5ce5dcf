import Mathlib.Data.List.Sort
import Mathlib.Data.Nat.Bitwise
import Prova.Lib.Bitmap
import Prova.Blockchain.Coins
import Prova.Blockchain.Chain
import Prova.Blockchain.Compress

/-!
# The serialized utxo set (the utxo part of `blockchain/chainio.go`)

The record of an entry has the version, the height, a header code and a bitmap of its unspent outputs,
and then these outputs in ascending order. The header code holds the coinbase mark, the first two outputs
and the length of the bitmap, which is one less than the real one when both are spent.

An entry in memory has outputs that are still compressed since they were read. It stands for the entry
that has the amounts and scripts themselves (`PackedEntry.unpack`), and reading what was written for it
gives what stands for its unspent outputs, which is how the rest of the chain is described
(`UtxoEntry.stored`).
-/

namespace Prova

open UInt32 AList List

variable {i : UInt32}

/-- `utxoOutput`. -/
structure PackedOutput where
  spent : Bool
  compressed : Bool
  amount : Int64
  pkScript : Bytes
deriving DecidableEq

/-- `UtxoEntry` with outputs that can be compressed. -/
structure PackedEntry where
  modified : Bool
  version : Int32
  isCoinBase : Bool
  blockHeight : UInt32
  sparseOutputs : AList fun _ : UInt32 => PackedOutput
deriving DecidableEq

namespace PackedOutput

/-- `maybeDecompress`. -/
def unpack (out : PackedOutput) : UtxoOutput :=
  if out.compressed then
    ⟨out.spent, Int64.ofNat (decompressTxOutAmount (uint64 out.amount.toInt)),
      (Compress.decompressScript out.pkScript).toOption.getD []⟩
  else ⟨out.spent, out.amount, out.pkScript⟩

@[simp] theorem spent_unpack (out : PackedOutput) : out.unpack.spent = out.spent := by
  unfold unpack
  split_ifs <;> rfl

/-- `putCompressedTxOut`. -/
def put (out : PackedOutput) : Bytes :=
  if out.compressed then putVLQ (uint64 out.amount.toInt) ++ out.pkScript
  else putCompressedTxOut (uint64 out.amount.toInt) out.pkScript

end PackedOutput

namespace PackedEntry

/-- The entry that a packed one stands for. -/
def unpack (entry : PackedEntry) : UtxoEntry where
  modified := entry.modified
  version := entry.version
  isCoinBase := entry.isCoinBase
  blockHeight := entry.blockHeight
  sparseOutputs := ⟨entry.sparseOutputs.entries.map fun o => ⟨o.1, o.2.unpack⟩, by
    rw [List.NodupKeys, List.keys, List.map_map]
    exact entry.sparseOutputs.nodupKeys⟩

def isOutputSpent (entry : PackedEntry) (outputIndex : UInt32) : Bool :=
  match entry.sparseOutputs.lookup outputIndex with
  | none => true
  | some output => output.spent

def isFullySpent (entry : PackedEntry) : Bool := entry.sparseOutputs.entries.all fun o => o.2.spent

def outputOrder (entry : PackedEntry) : List UInt32 :=
  entry.sparseOutputs.keys.insertionSort (· ≤ ·)

end PackedEntry

/-! ### Writing -/

/-- `utxoEntryHeaderCode`: the header code and the number of bytes of the bitmap. -/
def utxoEntryHeaderCode (entry : PackedEntry) (highestOutputIndex : UInt32) :
    Except ChainError (Nat × Nat) := do
  let numBitmapBytes := ((highestOutputIndex + 6) / 8).toNat
  let output0Unspent := !entry.isOutputSpent 0
  let output1Unspent := !entry.isOutputSpent 1
  let bothSpent := !output0Unspent && !output1Unspent
  reject (bothSpent ∧ numBitmapBytes = 0) .assertError
  let numBitmapBytesAdjustment := if bothSpent then 1 else 0
  let headerCode := (numBitmapBytes - numBitmapBytesAdjustment) <<< 3
  let headerCode := headerCode ||| if entry.isCoinBase then 0x01 else 0
  let headerCode := headerCode ||| if output0Unspent then 0x02 else 0
  let headerCode := headerCode ||| if output1Unspent then 0x04 else 0
  return (headerCode, numBitmapBytes)

def putOutputs (entry : PackedEntry) (outputOrder : List UInt32) : Bytes :=
  outputOrder.flatMap fun outputIndex =>
    match entry.sparseOutputs.lookup outputIndex with
    | none => []
    | some out => if out.spent then [] else out.put

/-- `serializeUtxoEntry`; a fully spent entry has no serialization. -/
def serializeUtxoEntry (entry : PackedEntry) : Except ChainError (Option Bytes) := do
  if entry.isFullySpent then return none
  else
    let outputOrder := entry.outputOrder
    let highIndex := outputOrder.getLastD 0
    let (headerCode, numBitmapBytes) ← utxoEntryHeaderCode entry highIndex
    return some (putVLQ (uint64 entry.version.toInt) ++ putVLQ entry.blockHeight.toNat ++
      putVLQ headerCode ++
      bitmap (fun k => !entry.isOutputSpent (UInt32.ofNat (2 + k))) numBitmapBytes ++
      putOutputs entry outputOrder)

/-! ### Reading -/

def readVLQField (serialized : Bytes) : Except ChainError (Nat × Bytes) := do
  let (n, bytesRead) := deserializeVLQ serialized
  reject (serialized.length ≤ bytesRead) .corruption
  return (n, serialized.drop bytesRead)

/-- The loop that decodes the outputs, which stay compressed. -/
def readOutputs : List UInt32 → Bytes → (AList fun _ : UInt32 => PackedOutput) →
    Except ChainError (AList fun _ : UInt32 => PackedOutput)
  | [], _, outputs => .ok outputs
  | outputIndex :: outputIndexes, serialized, outputs =>
    match decodeCompressedTxOut serialized with
    | .error .panic => .error .panic
    | .error _ => .error .corruption
    | .ok (compAmount, compScript, bytesRead) =>
      readOutputs outputIndexes (serialized.drop bytesRead)
        (outputs.insert outputIndex ⟨false, true, Int64.ofNat compAmount, compScript⟩)

def deserializeUtxoEntry (serialized : Bytes) : Except ChainError PackedEntry := do
  let (version, serialized) ← readVLQField serialized
  let (blockHeight, serialized) ← readVLQField serialized
  let (code, serialized) ← readVLQField serialized
  let isCoinBase := code &&& 0x01 != 0
  let output0Unspent := code &&& 0x02 != 0
  let output1Unspent := code &&& 0x04 != 0
  let numBitmapBytes := if !output0Unspent && !output1Unspent then code >>> 3 + 1 else code >>> 3
  reject (serialized.length < numBitmapBytes) .corruption
  -- the loop over the bitmap counts in 32 bits
  let numBitmapBytes := numBitmapBytes % 2 ^ 32
  let outputIndexes := (if output0Unspent then [0] else []) ++ (if output1Unspent then [1] else []) ++
    (bitPositions 0 (serialized.take numBitmapBytes)).map fun k => UInt32.ofNat (2 + k)
  let outputs ← readOutputs outputIndexes (serialized.drop numBitmapBytes) ∅
  return {
    modified := false
    version := Int32.ofNat version
    isCoinBase := isCoinBase
    blockHeight := UInt32.ofNat blockHeight
    sparseOutputs := outputs }

/-! ### Reading what was written -/

/-- An amount of the chain and a script are read as they were written, with as many bytes as were allocated, where
these are a slice. -/
theorem decodeCompressedTxOut_putCompressedTxOut {amount : Nat} (hamount : amount ≤ maxAtoms.toInt.toNat)
    {pkScript : Bytes} (hlen : (putCompressedTxOut amount pkScript).length < 2 ^ 63) (rest : Bytes) :
    (putCompressedTxOut amount pkScript).length = compressedTxOutSize amount pkScript ∧
      ∃ compAmount compScript, decodeCompressedTxOut (putCompressedTxOut amount pkScript ++ rest) =
          .ok (compAmount, compScript, compressedTxOutSize amount pkScript) ∧
        decompressTxOutAmount compAmount = amount ∧ Compress.decompressScript compScript = .ok pkScript := by
  have hmax : maxAtoms.toInt.toNat < 2 ^ 60 := by decide
  have hscript : (Compress.putCompressedScript pkScript).length < 2 ^ 63 := by
    rw [putCompressedTxOut, length_append] at hlen
    omega
  have hshort := (Compress.form_putCompressedScript pkScript).length_le
  have hsize : (putCompressedTxOut amount pkScript).length = compressedTxOutSize amount pkScript := by
    refine length_putCompressedTxOut ?_ amount
    unfold Compress.numSpecialScripts
    omega
  refine ⟨hsize, _, _, ?_, decompressTxOutAmount_compressTxOutAmount (hamount.trans_lt hmax),
    decompressScript_putCompressedScript hscript⟩
  rw [decodeCompressedTxOut_put amount hscript, hsize]

theorem decodeCompressedTxOut_putCompressedTxOut_zeros :
    ∃ compAmount compScript, decodeCompressedTxOut (putCompressedTxOut 5000 [0x51] ++ [0xff]) =
        .ok (compAmount, compScript, compressedTxOutSize 5000 [0x51]) ∧
      decompressTxOutAmount compAmount = 5000 ∧ Compress.decompressScript compScript = .ok [0x51] :=
  (decodeCompressedTxOut_putCompressedTxOut (by decide) (by decide) [0xff]).2

theorem uint64_int64_ofNat {n : Nat} (h : n < 2 ^ 64) : uint64 (Int64.ofNat n).toInt = n := by
  have hsize : (Int64.size : Int) = 2 ^ 64 := rfl
  rw [Int64.toInt_ofNat', Int.bmod_def, hsize]
  unfold uint64
  split_ifs <;> omega

theorem and_two_pow_bne (x i : Nat) : (x &&& 2 ^ i != 0) = decide (x / 2 ^ i % 2 = 1) := by
  rw [Nat.and_two_pow, ← Nat.testBit_eq_decide_div_mod_eq]
  cases x.testBit i <;> simp

theorem headerCode_eq (n : Nat) (b₀ b₁ b₂ : Bool) :
    n <<< 3 ||| (if b₀ then 0x01 else 0) ||| (if b₁ then 0x02 else 0) ||| (if b₂ then 0x04 else 0) =
      n * 8 + (b₀.toNat + b₁.toNat * 2 + b₂.toNat * 4) := by
  have hflags : (if b₀ then 0x01 else 0) ||| ((if b₁ then 0x02 else 0) ||| (if b₂ then 0x04 else 0)) =
      b₀.toNat + b₁.toNat * 2 + b₂.toNat * 4 := by
    revert b₀ b₁ b₂
    decide
  have hlt : b₀.toNat + b₁.toNat * 2 + b₂.toNat * 4 < 2 ^ 3 := by
    revert b₀ b₁ b₂
    decide
  rw [Nat.or_assoc, Nat.or_assoc, hflags, ← Nat.shiftLeft_add_eq_or_of_lt hlt, Nat.shiftLeft_eq]

theorem headerCode_bits (n : Nat) (b₀ b₁ b₂ : Bool) :
    let code := n * 8 + (b₀.toNat + b₁.toNat * 2 + b₂.toNat * 4)
    (code &&& 0x01 != 0) = b₀ ∧ (code &&& 0x02 != 0) = b₁ ∧ (code &&& 0x04 != 0) = b₂ ∧
      code >>> 3 = n := by
  intro code
  have h₀ := and_two_pow_bne code 0
  have h₁ := and_two_pow_bne code 1
  have h₂ := and_two_pow_bne code 2
  refine ⟨h₀.trans ?_, h₁.trans ?_, h₂.trans ?_, ?_⟩
  · cases b₀ <;> cases b₁ <;> cases b₂ <;> simp [code] <;> omega
  · cases b₀ <;> cases b₁ <;> cases b₂ <;> simp [code] <;> omega
  · cases b₀ <;> cases b₁ <;> cases b₂ <;> simp [code] <;> omega
  · rw [Nat.shiftRight_eq_div_pow]
    cases b₀ <;> cases b₁ <;> cases b₂ <;> simp [code] <;> omega

namespace PackedOutput

/-- An output that can be written: an amount of the chain and a script that is a slice, or what they
were compressed to. -/
structure Fits (out : PackedOutput) : Prop where
  plain : out.compressed = false →
    0 ≤ out.amount.toInt ∧ out.amount.toInt ≤ maxAtoms.toInt ∧
      (Compress.putCompressedScript out.pkScript).length < 2 ^ 63
  packed : out.compressed = true → ∃ script, Compress.Form script out.pkScript ∧ out.pkScript.length < 2 ^ 63

theorem Fits.decode_put {out : PackedOutput} (h : out.Fits) (hspent : out.spent = false) (rest : Bytes) :
    ∃ amount script, decodeCompressedTxOut (out.put ++ rest) = .ok (amount, script, out.put.length) ∧
      (PackedOutput.mk false true (Int64.ofNat amount) script).unpack = out.unpack := by
  cases hpacked : out.compressed with
  | false =>
    obtain ⟨hnonneg, hle, hlen⟩ := h.plain hpacked
    have hmax : maxAtoms.toInt < 2 ^ 60 := by decide
    have hamount := decompressTxOutAmount_compress_uint64 hnonneg (hle.trans_lt hmax)
    have hput : out.put = putCompressedTxOut (uint64 out.amount.toInt) out.pkScript := by
      simp [put, hpacked]
    rw [hput]
    refine ⟨_, _, decodeCompressedTxOut_put (uint64 out.amount.toInt) hlen rest, ?_⟩
    simp only [unpack, hpacked, hspent, if_true, uint64_int64_ofNat (compressTxOutAmount_lt _), hamount,
      decompressScript_putCompressedScript hlen, Bool.false_eq_true, if_false, Except.toOption, Option.getD_some]
  | true =>
    obtain ⟨script, hform, hlen⟩ := h.packed hpacked
    have hput : out.put = putVLQ (uint64 out.amount.toInt) ++ out.pkScript := by simp [put, hpacked]
    rw [hput]
    refine ⟨_, _, decodeCompressedTxOut_form (uint64_lt _) hform hlen rest, ?_⟩
    simp only [unpack, hpacked, hspent, if_true, uint64_int64_ofNat (uint64_lt _)]

end PackedOutput

namespace PackedEntry

theorem lookup_unpack (entry : PackedEntry) (i : UInt32) :
    entry.unpack.sparseOutputs.lookup i = (entry.sparseOutputs.lookup i).map PackedOutput.unpack :=
  dlookup_map₂ (l := entry.sparseOutputs.entries) (f := fun _ => PackedOutput.unpack) i

theorem isOutputSpent_eq_false {entry : PackedEntry} : entry.isOutputSpent i = false ↔
      ∃ out, entry.sparseOutputs.lookup i = some out ∧ out.spent = false := by
  unfold isOutputSpent
  cases entry.sparseOutputs.lookup i <;> simp

theorem mem_outputOrder {entry : PackedEntry} : i ∈ entry.outputOrder ↔ i ∈ entry.sparseOutputs := by
  unfold outputOrder
  rw [mem_insertionSort]
  rfl

theorem mem_outputOrder_of_unspent {entry : PackedEntry} (h : entry.isOutputSpent i = false) :
    i ∈ entry.outputOrder := by
  obtain ⟨out, hlookup, -⟩ := isOutputSpent_eq_false.mp h
  exact mem_outputOrder.mpr (lookup_isSome.mp (Option.isSome_of_mem hlookup))

theorem pairwise_outputOrder (entry : PackedEntry) : entry.outputOrder.Pairwise (· < ·) := by
  have hnodup : entry.outputOrder.Nodup :=
    (perm_insertionSort (· ≤ ·) _).nodup_iff.mpr entry.sparseOutputs.keys_nodup
  have hsorted : entry.outputOrder.Pairwise (· ≤ ·) := pairwise_insertionSort (· ≤ ·) _
  exact (hsorted.and hnodup).imp fun h => UInt32.lt_of_le_of_ne h.1 h.2

end PackedEntry

theorem outputIndexes_eq {f : UInt32 → Bool} {keys : List UInt32} {n : Nat}
    (hkeys : keys.Pairwise (· < ·)) (hmem : ∀ i, f i = true → i ∈ keys)
    (hlt : ∀ i, f i = true → i.toNat < 2 + n * 8) (hn : 2 + n * 8 ≤ 2 ^ 32) :
    (if f 0 then [0] else []) ++ (if f 1 then [1] else []) ++
        ((List.range (n * 8)).filter fun k => f (UInt32.ofNat (2 + k))).map (fun k => UInt32.ofNat (2 + k)) =
      keys.filter f := by
  have hrange : (if f 0 then [0] else []) ++ (if f 1 then [1] else []) ++
        ((List.range (n * 8)).filter fun k => f (UInt32.ofNat (2 + k))).map
          (fun k => UInt32.ofNat (2 + k)) =
      ((List.range (2 + n * 8)).map UInt32.ofNat).filter f := by
    have hfirst : ((List.range 2).map UInt32.ofNat).filter f =
        (if f 0 then [0] else []) ++ (if f 1 then [1] else []) := by
      change ([0, 1] : List UInt32).filter f = _
      cases h₀ : f 0 <;> cases h₁ : f 1 <;> simp [h₀, h₁]
    rw [range_add, map_append, filter_append, map_map, hfirst, filter_map]
    rfl
  have hascending : ((List.range (2 + n * 8)).map UInt32.ofNat).Pairwise (· < ·) := by
    rw [pairwise_map]
    refine pairwise_lt_range.imp_of_mem fun {a b} ha hb hab => ?_
    have hsize : UInt32.size = 2 ^ 32 := rfl
    rw [mem_range] at ha hb
    rw [lt_iff_toNat_lt, toNat_ofNat_of_lt' (by omega), toNat_ofNat_of_lt' (by omega)]
    exact hab
  rw [hrange]
  refine (hascending.filter f).eq_of_mem_iff (hkeys.filter f) fun i => ?_
  rw [mem_filter, mem_filter]
  refine and_congr_left fun hi => iff_of_true ?_ (hmem i hi)
  exact mem_map.mpr ⟨i.toNat, mem_range.mpr (hlt i hi), UInt32.ofNat_toNat⟩

theorem putOutputs_filter (entry : PackedEntry) (order : List UInt32) :
    putOutputs entry order = putOutputs entry (order.filter fun i => !entry.isOutputSpent i) := by
  unfold putOutputs PackedEntry.isOutputSpent
  induction order with
  | nil => rfl
  | cons i order ih =>
    rw [flatMap_cons, ih, filter_cons]
    cases hlookup : entry.sparseOutputs.lookup i with
    | none => simp
    | some out => cases hspent : out.spent <;> simp [hlookup, hspent]

theorem readOutputs_putOutputs {entry : PackedEntry} {indexes : List UInt32}
    (h : ∀ i ∈ indexes, ∃ out, entry.sparseOutputs.lookup i = some out ∧ out.spent = false ∧ out.Fits)
    (outputs : AList fun _ : UInt32 => PackedOutput) :
    ∃ read, readOutputs indexes (putOutputs entry indexes) outputs = .ok read ∧
      ∀ i, (read.lookup i).map PackedOutput.unpack =
        if i ∈ indexes then (entry.sparseOutputs.lookup i).map PackedOutput.unpack
        else (outputs.lookup i).map PackedOutput.unpack := by
  induction indexes generalizing outputs with
  | nil => exact ⟨outputs, rfl, fun i => by simp⟩
  | cons index indexes ih =>
    rw [forall_mem_cons] at h
    obtain ⟨⟨out, hlookup, hspent, hfits⟩, hrest⟩ := h
    have hput : putOutputs entry (index :: indexes) = out.put ++ putOutputs entry indexes := by
      simp [putOutputs, hlookup, hspent]
    obtain ⟨amount, script, hdecode, hunpack⟩ :=
      hfits.decode_put hspent (putOutputs entry indexes)
    obtain ⟨read, hread, hsame⟩ :=
      ih hrest (outputs.insert index ⟨false, true, Int64.ofNat amount, script⟩)
    refine ⟨read, ?_, fun i => ?_⟩
    · rw [hput, readOutputs, hdecode]
      simp only [drop_left]
      exact hread
    · rw [hsame i]
      by_cases hi : i ∈ indexes
      · rw [if_pos hi, if_pos (mem_cons_of_mem _ hi)]
      · rw [if_neg hi]
        by_cases heq : i = index
        · rw [heq, if_pos (mem_cons_self ..), lookup_insert, hlookup]
          exact congrArg some hunpack
        · rw [if_neg (by simp [hi, heq]), lookup_insert_ne heq]

theorem readVLQField_putVLQ {n : Nat} (h : n < 2 ^ 64) {rest : Bytes} (hrest : rest ≠ []) :
    readVLQField (putVLQ n ++ rest) = .ok (n, rest) := by
  have hpos := length_pos_iff.mpr hrest
  unfold readVLQField reject
  rw [deserializeVLQ_putVLQ h]
  simp only [drop_left]
  rw [if_neg (by rw [length_append]; omega)]
  rfl

theorem numBitmapBytes_spec {high : UInt32} (h : high.toNat < 2 ^ 32 - 6) :
    let n := ((high + 6) / 8).toNat
    high.toNat < 2 + n * 8 ∧ 2 + n * 8 ≤ 2 ^ 32 := by
  intro n
  have hn : n = (high.toNat + 6) / 8 := by
    have hsum : (high + 6).toNat = high.toNat + 6 := by
      rw [UInt32.toNat_add]
      exact Nat.mod_eq_of_lt (by change high.toNat + 6 < 2 ^ 32; omega)
    change ((high + 6) / 8).toNat = _
    rw [UInt32.toNat_div, hsum]
    rfl
  omega

namespace PackedEntry

theorem exists_unspent {entry : PackedEntry} (h : entry.isFullySpent = false) : ∃ i, entry.isOutputSpent i = false := by
  obtain ⟨o, hmem, hspent⟩ := all_eq_false.mp h
  exact ⟨o.1, isOutputSpent_eq_false.mpr ⟨o.2, mem_lookup_iff.mpr hmem, by simpa using hspent⟩⟩

theorem le_getLastD_outputOrder {entry : PackedEntry} (h : i ∈ entry.outputOrder) :
    entry.outputOrder.getLastD 0 ∈ entry.outputOrder ∧ i ≤ entry.outputOrder.getLastD 0 := by
  have hne := ne_nil_of_mem h
  have hlast : entry.outputOrder.getLastD 0 = entry.outputOrder.getLast hne :=
    getLastD_eq_getLast? .. ▸ by rw [getLast?_eq_some_getLast hne]; rfl
  have hsplit := dropLast_concat_getLast hne
  have hsorted := entry.pairwise_outputOrder
  rw [hlast]
  refine ⟨getLast_mem hne, ?_⟩
  rw [← hsplit, pairwise_append] at hsorted
  rw [← hsplit, mem_append] at h
  rcases h with hinit | heq
  · exact UInt32.le_of_lt (hsorted.2.2 i hinit _ (mem_singleton_self _))
  · exact UInt32.le_of_eq (mem_singleton.mp heq)

end PackedEntry

theorem utxoEntryHeaderCode_eq {entry : PackedEntry} {high : UInt32}
    (h : entry.isOutputSpent 0 = true → entry.isOutputSpent 1 = true → ((high + 6) / 8).toNat ≠ 0) :
    utxoEntryHeaderCode entry high = .ok ((((high + 6) / 8).toNat -
            if entry.isOutputSpent 0 && entry.isOutputSpent 1 then 1 else 0) * 8 +
          (entry.isCoinBase.toNat + (!entry.isOutputSpent 0).toNat * 2 + (!entry.isOutputSpent 1).toNat * 4),
        ((high + 6) / 8).toNat) := by
  unfold utxoEntryHeaderCode reject
  simp only [Bool.not_not, headerCode_eq]
  rw [if_neg (by simpa using h)]
  rfl

theorem numBitmapBytes_ne_zero {entry : PackedEntry} {first high : UInt32}
    (hfirst : entry.isOutputSpent first = false) (hle : first ≤ high) (hhigh : high.toNat < 2 ^ 32 - 6)
    (h₀ : entry.isOutputSpent 0 = true) (h₁ : entry.isOutputSpent 1 = true) : ((high + 6) / 8).toNat ≠ 0 := by
  intro hzero
  have hreach := (numBitmapBytes_spec hhigh).1
  have hcases : first.toNat = 0 ∨ first.toNat = 1 := by
    have := le_iff_toNat_le.mp hle
    omega
  rcases hcases with hnat | hnat
  · have heq : first = 0 := UInt32.toNat_inj.mp hnat
    rw [heq, h₀] at hfirst
    cases hfirst
  · have heq : first = 1 := UInt32.toNat_inj.mp hnat
    rw [heq, h₁] at hfirst
    cases hfirst

theorem utxoEntryHeaderCode_spec {entry : PackedEntry} (hunspent : entry.isFullySpent = false)
    (hindex : ∀ i ∈ entry.sparseOutputs, i.toNat < 2 ^ 32 - 6) :
    ∃ code n, utxoEntryHeaderCode entry (entry.outputOrder.getLastD 0) = .ok (code, n) ∧
      code < 2 ^ 64 ∧ (code &&& 0x01 != 0) = entry.isCoinBase ∧ (code &&& 0x02 != 0) = (!entry.isOutputSpent 0) ∧
      (code &&& 0x04 != 0) = (!entry.isOutputSpent 1) ∧
      (if entry.isOutputSpent 0 && entry.isOutputSpent 1 then code >>> 3 + 1 else code >>> 3) = n ∧
      (∀ i, entry.isOutputSpent i = false → i.toNat < 2 + n * 8) ∧ 2 + n * 8 ≤ 2 ^ 32 := by
  obtain ⟨first, hfirst⟩ := PackedEntry.exists_unspent hunspent
  obtain ⟨hhigh, hle⟩ := PackedEntry.le_getLastD_outputOrder (PackedEntry.mem_outputOrder_of_unspent hfirst)
  have hhighLt := hindex _ (PackedEntry.mem_outputOrder.mp hhigh)
  obtain ⟨hreach, hroom⟩ := numBitmapBytes_spec hhighLt
  have hbyte := numBitmapBytes_ne_zero hfirst hle hhighLt
  have hcode := utxoEntryHeaderCode_eq hbyte
  generalize ((entry.outputOrder.getLastD 0 + 6) / 8).toNat = n at *
  obtain ⟨hcoinbase, hout₀, hout₁, hshift⟩ :=
    headerCode_bits (n - if entry.isOutputSpent 0 && entry.isOutputSpent 1 then 1 else 0)
      entry.isCoinBase (!entry.isOutputSpent 0) (!entry.isOutputSpent 1)
  refine ⟨_, n, hcode, ?_, hcoinbase, hout₀, hout₁, ?_, fun i hi => ?_, hroom⟩
  · have h₁ := Bool.toNat_le entry.isCoinBase
    have h₂ := Bool.toNat_le (!entry.isOutputSpent 0)
    have h₃ := Bool.toNat_le (!entry.isOutputSpent 1)
    omega
  · rw [hshift]
    by_cases hboth : (entry.isOutputSpent 0 && entry.isOutputSpent 1) = true
    · obtain ⟨h₀, h₁⟩ := Bool.and_eq_true_iff.mp hboth
      rw [if_pos hboth, if_pos hboth, Nat.sub_add_cancel (Nat.pos_of_ne_zero (hbyte h₀ h₁))]
    · rw [if_neg hboth, if_neg hboth, Nat.sub_zero]
  · have hihigh := (PackedEntry.le_getLastD_outputOrder (PackedEntry.mem_outputOrder_of_unspent hi)).2
    exact (le_iff_toNat_le.mp hihigh).trans_lt hreach

structure UtxoEntry.Alike (x y : UtxoEntry) : Prop where
  modified : x.modified = y.modified
  version : x.version = y.version
  isCoinBase : x.isCoinBase = y.isCoinBase
  blockHeight : x.blockHeight = y.blockHeight
  outputs : ∀ i, x.sparseOutputs.lookup i = y.sparseOutputs.lookup i

theorem putOutputs_ne_nil {entry : PackedEntry} {order : List UInt32} (hi : i ∈ order)
    (h : entry.isOutputSpent i = false) : putOutputs entry order ≠ [] := by
  obtain ⟨out, hlookup, hspent⟩ := PackedEntry.isOutputSpent_eq_false.mp h
  intro hnil
  have hput := flatMap_eq_nil_iff.mp hnil i hi
  simp only [hlookup, hspent, Bool.false_eq_true, if_false] at hput
  unfold PackedOutput.put putCompressedTxOut at hput
  split_ifs at hput
  · exact putVLQ_ne_nil _ (append_eq_nil_iff.mp hput).1
  · exact putVLQ_ne_nil _ (append_eq_nil_iff.mp hput).1

/-- An entry that is not fully spent is written and read as its unspent outputs, where the indexes leave
room for the length of the bitmap. -/
theorem deserializeUtxoEntry_serializeUtxoEntry {entry : PackedEntry} (hunspent : entry.isFullySpent = false)
    (hfits : ∀ i out, entry.sparseOutputs.lookup i = some out → out.spent = false → out.Fits)
    (hindex : ∀ i ∈ entry.sparseOutputs, i.toNat < 2 ^ 32 - 6) :
    ∃ serialized read, serializeUtxoEntry entry = .ok (some serialized) ∧
      deserializeUtxoEntry serialized = .ok read ∧ read.unpack.Alike entry.unpack.stored := by
  obtain ⟨first, hfirst⟩ := PackedEntry.exists_unspent hunspent
  obtain ⟨code, n, hcode, hcodeLt, hcoinbase, hout₀, hout₁, hback, hreach, hroom⟩ :=
    utxoEntryHeaderCode_spec hunspent hindex
  -- the indexes that are read
  have hindexes := outputIndexes_eq (f := fun i => !entry.isOutputSpent i) entry.pairwise_outputOrder
    (fun i hi => PackedEntry.mem_outputOrder_of_unspent (by simpa using hi))
    (fun i hi => hreach i (by simpa using hi)) hroom
  have hwritten : ∀ i ∈ entry.outputOrder.filter fun i => !entry.isOutputSpent i,
      ∃ out, entry.sparseOutputs.lookup i = some out ∧ out.spent = false ∧ out.Fits := by
    intro i hi
    obtain ⟨out, hlookup, hspent⟩ :=
      PackedEntry.isOutputSpent_eq_false.mp (by simpa using (mem_filter.mp hi).2)
    exact ⟨out, hlookup, hspent, hfits i out hlookup hspent⟩
  obtain ⟨outputs, hread, hsame⟩ := readOutputs_putOutputs hwritten ∅
  have hput := putOutputs_filter entry entry.outputOrder
  have hne : putOutputs entry entry.outputOrder ≠ [] :=
    putOutputs_ne_nil (PackedEntry.mem_outputOrder_of_unspent hfirst) hfirst
  have hmod : n % 2 ^ 32 = n := Nat.mod_eq_of_lt (by omega)
  have hwrite : serializeUtxoEntry entry = .ok (some (putVLQ (uint64 entry.version.toInt) ++
      (putVLQ entry.blockHeight.toNat ++ (putVLQ code ++
        (bitmap (fun k => !entry.isOutputSpent (UInt32.ofNat (2 + k))) n ++
          putOutputs entry entry.outputOrder))))) := by
    unfold serializeUtxoEntry
    rw [hunspent, if_neg Bool.false_ne_true]
    simp only [hcode, ok_bind, append_assoc]
    rfl
  refine ⟨_, ⟨false, entry.version, entry.isCoinBase, entry.blockHeight, outputs⟩, hwrite, ?_, ?_⟩
  · have hheight : entry.blockHeight.toNat < 2 ^ 64 := by
      have := entry.blockHeight.toNat_lt
      omega
    unfold deserializeUtxoEntry
    rw [readVLQField_putVLQ (uint64_lt _) (by simp [putVLQ_ne_nil]), ok_bind]
    simp only
    rw [readVLQField_putVLQ hheight (by simp [putVLQ_ne_nil]), ok_bind]
    simp only
    rw [readVLQField_putVLQ hcodeLt (by simp [hne]), ok_bind]
    simp only [hcoinbase, hout₀, hout₁, Bool.not_not, hback, hmod]
    have hbitmap := length_bitmap (fun k => !entry.isOutputSpent (UInt32.ofNat (2 + k))) n
    rw [reject, if_neg (by simp), ok_bind, take_left' hbitmap, drop_left' hbitmap,
      bitPositions_bitmap, hindexes, hput, hread, ok_bind, int32_ofNat_uint64, UInt32.ofNat_toNat]
    rfl
  · refine ⟨rfl, rfl, rfl, rfl, fun i => ?_⟩
    rw [PackedEntry.lookup_unpack, UtxoEntry.lookup_stored, PackedEntry.lookup_unpack, hsame i]
    by_cases hi : entry.isOutputSpent i = false
    · obtain ⟨out, hlookup, hspent⟩ := PackedEntry.isOutputSpent_eq_false.mp hi
      have hmem : i ∈ entry.outputOrder.filter fun i => !entry.isOutputSpent i :=
        mem_filter.mpr ⟨PackedEntry.mem_outputOrder_of_unspent hi, by simp [hi]⟩
      rw [if_pos hmem, hlookup]
      simp [Option.filter, hspent]
    · have hmem : i ∉ entry.outputOrder.filter fun i => !entry.isOutputSpent i := fun hmem =>
        hi (by simpa using (mem_filter.mp hmem).2)
      rw [if_neg hmem]
      unfold PackedEntry.isOutputSpent at hi
      cases hlookup : entry.sparseOutputs.lookup i with
      | none => rfl
      | some out =>
        have hspent : out.spent = true := by simpa [hlookup] using hi
        simp [Option.filter, hspent]

/-- An entry with an output that is still compressed, a spent one, and one in the bitmap. -/
def mixedEntry : PackedEntry where
  modified := true
  version := 1
  isCoinBase := false
  blockHeight := 7
  sparseOutputs := ((AList.singleton 0 ⟨false, true, 3, 1 :: List.replicate 20 0xab⟩).insert 1
    ⟨true, false, 10, [0x51]⟩).insert 9 ⟨false, false, 5000, [0x51]⟩

theorem deserializeUtxoEntry_serializeUtxoEntry_mixedEntry :
    ∃ serialized read, serializeUtxoEntry mixedEntry = .ok (some serialized) ∧
      deserializeUtxoEntry serialized = .ok read ∧ read.unpack.Alike mixedEntry.unpack.stored := by
  have hindex : ∀ i ∈ mixedEntry.sparseOutputs.keys, i.toNat < 2 ^ 32 - 6 := by
    simp [mixedEntry, AList.singleton, AList.insert, AList.keys]
  refine deserializeUtxoEntry_serializeUtxoEntry (by decide) ?_ hindex
  intro i out hlookup hspent
  have hmem : (⟨i, out⟩ : Σ _ : UInt32, PackedOutput) ∈ ([⟨9, ⟨false, false, 5000, [0x51]⟩⟩,
      ⟨1, ⟨true, false, 10, [0x51]⟩⟩, ⟨0, ⟨false, true, 3, 1 :: List.replicate 20 0xab⟩⟩] :
      List (Σ _ : UInt32, PackedOutput)) :=
    mem_lookup_iff.mp hlookup
  simp only [mem_cons, Sigma.mk.injEq, not_mem_nil, or_false, heq_eq_eq] at hmem
  rcases hmem with ⟨-, rfl⟩ | ⟨-, rfl⟩ | ⟨-, rfl⟩
  · exact ⟨fun _ => by decide, fun h => (nomatch h)⟩
  · cases hspent
  · exact ⟨fun h => (nomatch h), fun _ => ⟨_, .scriptHash (by decide), by decide⟩⟩

/-- An entry whose last output has the highest index. -/
def highEntry : PackedEntry where
  modified := true
  version := 1
  isCoinBase := false
  blockHeight := 7
  sparseOutputs := (AList.singleton 0 ⟨false, false, 5000, [0x51]⟩).insert 0xffffffff
    ⟨false, false, 10, [0x51]⟩

/-- The length of the bitmap overflows, and the last output is lost. -/
theorem highEntry_loses_output : highEntry.isOutputSpent 0xffffffff = false ∧
    ∃ serialized read, serializeUtxoEntry highEntry = .ok (some serialized) ∧
      deserializeUtxoEntry serialized = .ok read ∧ read.isOutputSpent 0xffffffff = true := by
  refine ⟨by decide, _, _, rfl, rfl, by decide⟩

/-! ### Reading any bytes -/

def scriptPart (serialized : Bytes) : Bytes := serialized.drop (deserializeVLQ serialized).2

/-- The size of the script of an output as the source takes it, a signed number. -/
def scriptSize (serialized : Bytes) : Int := Compress.decodeCompressedScriptSize (scriptPart serialized)

def firstScript (serialized : Bytes) : Bytes := (scriptPart serialized).take (scriptSize serialized).toNat

def nextOutput (serialized : Bytes) : Bytes := (scriptPart serialized).drop (scriptSize serialized).toNat

/-- The bytes end in the output they begin with. -/
def EndsEarly (serialized : Bytes) : Prop :=
  serialized.length ≤ (deserializeVLQ serialized).2 ∨ (scriptPart serialized).length < scriptSize serialized

instance (serialized : Bytes) : Decidable (EndsEarly serialized) := inferInstanceAs (Decidable (_ ∨ _))

/-- The size of no script is negative, up to an output in which the bytes end. -/
def NonnegativeSizes : Nat → Bytes → Prop
  | 0, _ => True
  | n + 1, serialized =>
    EndsEarly serialized ∨ 0 ≤ scriptSize serialized ∧ NonnegativeSizes n (nextOutput serialized)

/-- The bytes do not end in one of the outputs. -/
def HoldsOutputs : Nat → Bytes → Prop
  | 0, _ => True
  | n + 1, serialized => ¬ EndsEarly serialized ∧ HoldsOutputs n (nextOutput serialized)

/-- Each script, unless there is another one for the same index, holds what its size announces. -/
def ScriptsReadable : List UInt32 → Bytes → Prop
  | [], _ => True
  | outputIndex :: outputIndexes, serialized =>
    (outputIndex ∉ outputIndexes → Compress.Readable (firstScript serialized)) ∧
      ScriptsReadable outputIndexes (nextOutput serialized)

theorem decodeCompressedTxOut_eq (serialized : Bytes) : decodeCompressedTxOut serialized =
    if EndsEarly serialized then .error .endOfData
    else if scriptSize serialized < 0 then .error .panic
    else .ok ((deserializeVLQ serialized).1, firstScript serialized,
      (deserializeVLQ serialized).2 + (scriptSize serialized).toNat) := by
  have hunfold : decodeCompressedTxOut serialized = (do
      reject (serialized.length ≤ (deserializeVLQ serialized).2) .endOfData
      reject ((scriptPart serialized).length < scriptSize serialized) .endOfData
      reject (scriptSize serialized < 0) .panic return ((deserializeVLQ serialized).1, firstScript serialized,
        (deserializeVLQ serialized).2 + (scriptSize serialized).toNat)) := rfl
  simp only [hunfold, reject_bind]
  exact (ite_or ..).symm

/-- A step of the loop over the outputs. -/
theorem readOutputs_cons (outputIndex : UInt32) (outputIndexes : List UInt32) (serialized : Bytes)
    (outputs : AList fun _ : UInt32 => PackedOutput) : readOutputs (outputIndex :: outputIndexes) serialized outputs =
    if EndsEarly serialized then .error .corruption
    else if scriptSize serialized < 0 then .error .panic
    else readOutputs outputIndexes (nextOutput serialized) (outputs.insert outputIndex
      ⟨false, true, Int64.ofNat (deserializeVLQ serialized).1, firstScript serialized⟩) := by
  rw [readOutputs, decodeCompressedTxOut_eq]
  split_ifs
  · rfl
  · rfl
  · dsimp only
    rw [← drop_drop]
    rfl

section ReadOutputs

variable {serialized : Bytes} {outputIndexes : List UInt32} (outputs : AList fun _ : UInt32 => PackedOutput)

theorem readOutputs_panic (h : ¬ NonnegativeSizes outputIndexes.length serialized) :
    readOutputs outputIndexes serialized outputs = .error .panic := by
  induction outputIndexes generalizing serialized outputs with
  | nil => exact absurd trivial h
  | cons outputIndex outputIndexes ih =>
    obtain ⟨hends, hrest⟩ := not_or.mp h
    rw [readOutputs_cons, if_neg hends]
    by_cases hneg : scriptSize serialized < 0
    · rw [if_pos hneg]
    · rw [if_neg hneg]
      exact ih _ fun hnext => hrest ⟨not_lt.mp hneg, hnext⟩

theorem readOutputs_corruption (hsizes : NonnegativeSizes outputIndexes.length serialized)
    (h : ¬ HoldsOutputs outputIndexes.length serialized) :
    readOutputs outputIndexes serialized outputs = .error .corruption := by
  induction outputIndexes generalizing serialized outputs with
  | nil => exact absurd trivial h
  | cons outputIndex outputIndexes ih =>
    rw [readOutputs_cons]
    by_cases hends : EndsEarly serialized
    · rw [if_pos hends]
    · obtain ⟨hnonneg, hnext⟩ := hsizes.resolve_left hends
      rw [if_neg hends, if_neg (not_lt.mpr hnonneg)]
      exact ih _ hnext fun hholds => h ⟨hends, hholds⟩

theorem readOutputs_ok (hsizes : NonnegativeSizes outputIndexes.length serialized)
    (h : HoldsOutputs outputIndexes.length serialized) :
    ∃ read, readOutputs outputIndexes serialized outputs = .ok read ∧
      ((∀ i out, read.lookup i = some out → Compress.Readable out.pkScript) ↔ ScriptsReadable outputIndexes serialized ∧
          ∀ i out, i ∉ outputIndexes → outputs.lookup i = some out → Compress.Readable out.pkScript) := by
  induction outputIndexes generalizing serialized outputs with
  | nil => exact ⟨outputs, rfl, by simp [ScriptsReadable]⟩
  | cons outputIndex outputIndexes ih =>
    obtain ⟨hends, hholds⟩ := h
    obtain ⟨hnonneg, hnext⟩ := hsizes.resolve_left hends
    obtain ⟨read, hread, hiff⟩ := ih (outputs.insert outputIndex
      ⟨false, true, Int64.ofNat (deserializeVLQ serialized).1, firstScript serialized⟩) hnext hholds
    refine ⟨read, ?_, hiff.trans ?_⟩
    · rw [readOutputs_cons, if_neg hends, if_neg (not_lt.mpr hnonneg)]
      exact hread
    · rw [ScriptsReadable, and_comm, and_assoc, and_comm (a := ScriptsReadable _ _)]
      rw [← and_assoc]
      refine and_congr_left fun _ => ?_
      constructor
      · intro hall
        refine ⟨fun hnew => hall outputIndex _ hnew (lookup_insert _), fun i out hi hlookup => ?_⟩
        rw [mem_cons, not_or] at hi
        exact hall i out hi.2 (by rwa [lookup_insert_ne hi.1])
      · rintro ⟨hfirst, hall⟩ i out hi hlookup
        by_cases hne : i = outputIndex
        · rw [hne, lookup_insert] at hlookup
          cases hlookup
          exact hfirst (hne ▸ hi)
        · rw [lookup_insert_ne hne] at hlookup
          exact hall i out (by rw [mem_cons, not_or]; exact ⟨hne, hi⟩) hlookup

end ReadOutputs

/-- The part of a record before its outputs: the entry without them, their indexes, and the bytes of the outputs. -/
def readUtxoHeader (serialized : Bytes) : Except ChainError (PackedEntry × List UInt32 × Bytes) := do
  let (version, serialized) ← readVLQField serialized
  let (blockHeight, serialized) ← readVLQField serialized
  let (code, serialized) ← readVLQField serialized
  let output0Unspent := code &&& 0x02 != 0
  let output1Unspent := code &&& 0x04 != 0
  let numBitmapBytes := if !output0Unspent && !output1Unspent then code >>> 3 + 1 else code >>> 3
  reject (serialized.length < numBitmapBytes) .corruption
  let numBitmapBytes := numBitmapBytes % 2 ^ 32
  let outputIndexes := (if output0Unspent then [0] else []) ++ (if output1Unspent then [1] else []) ++
    (bitPositions 0 (serialized.take numBitmapBytes)).map fun k => UInt32.ofNat (2 + k)
  return (⟨false, Int32.ofNat version, code &&& 0x01 != 0, UInt32.ofNat blockHeight, ∅⟩, outputIndexes,
    serialized.drop numBitmapBytes)

theorem deserializeUtxoEntry_eq (serialized : Bytes) : deserializeUtxoEntry serialized = (do
    let (entry, outputIndexes, serialized) ← readUtxoHeader serialized
    let outputs ← readOutputs outputIndexes serialized ∅
    return { entry with sparseOutputs := outputs }) := by
  unfold deserializeUtxoEntry readUtxoHeader
  simp only [bind_assoc, pure_bind]

theorem readVLQField_error {serialized : Bytes} {e : ChainError} (h : readVLQField serialized = .error e) :
    e = .corruption := by
  rcases bind_eq_error.mp h with h | ⟨_, -, h⟩
  · exact (reject_eq_error.mp h).2.symm
  · cases h

theorem readUtxoHeader_error {serialized : Bytes} {e : ChainError} (h : readUtxoHeader serialized = .error e) :
    e = .corruption := by
  rcases bind_eq_error.mp h with h | ⟨_, -, h⟩
  · exact readVLQField_error h
  rcases bind_eq_error.mp h with h | ⟨_, -, h⟩
  · exact readVLQField_error h
  rcases bind_eq_error.mp h with h | ⟨_, -, h⟩
  · exact readVLQField_error h
  rcases bind_eq_error.mp h with h | ⟨_, -, h⟩
  · exact (reject_eq_error.mp h).2.symm
  · cases h

/-- The sizes in a record are usable: none is negative, and in a complete record each script holds what its size
announces. -/
def UsableSizes (serialized : Bytes) : Prop :=
  ∀ entry outputIndexes outputs, readUtxoHeader serialized = .ok (entry, outputIndexes, outputs) →
    NonnegativeSizes outputIndexes.length outputs ∧
      (HoldsOutputs outputIndexes.length outputs → ScriptsReadable outputIndexes outputs)

/-- Any bytes give a deserialization error or an entry whose outputs can be decompressed, exactly if the sizes in
them are usable. -/
theorem deserializeUtxoEntry_safe_iff (serialized : Bytes) : (deserializeUtxoEntry serialized = .error .corruption ∨
      ∃ entry, deserializeUtxoEntry serialized = .ok entry ∧ ∀ i out, entry.sparseOutputs.lookup i = some out →
          ∃ script, Compress.decompressScript out.pkScript = .ok script) ↔ UsableSizes serialized := by
  simp only [Compress.decompressScript_ok_iff]
  rw [deserializeUtxoEntry_eq]
  unfold UsableSizes
  cases hheader : readUtxoHeader serialized with
  | error e =>
    rw [readUtxoHeader_error hheader]
    exact iff_of_true (.inl rfl) fun _ _ _ h => by cases h
  | ok header =>
    obtain ⟨entry, outputIndexes, outputs⟩ := header
    simp only [ok_bind, Except.ok.injEq, Prod.mk.injEq]
    by_cases hsizes : NonnegativeSizes outputIndexes.length outputs
    · by_cases hholds : HoldsOutputs outputIndexes.length outputs
      · obtain ⟨read, hread, hiff⟩ := readOutputs_ok ∅ hsizes hholds
        have hempty : ∀ (i : UInt32) (out : PackedOutput), i ∉ outputIndexes →
            AList.lookup i (∅ : AList fun _ : UInt32 => PackedOutput) = some out →
            Compress.Readable out.pkScript := fun i out _ h => by simp at h
        rw [and_iff_left hempty] at hiff
        rw [hread, ok_bind]
        constructor
        · rintro (h | ⟨_, h, hall⟩)
          · cases h
          · cases h
            rintro _ _ _ ⟨rfl, rfl, rfl⟩
            exact ⟨hsizes, fun _ => hiff.mp hall⟩
        · intro h
          exact .inr ⟨_, rfl, hiff.mpr ((h _ _ _ ⟨rfl, rfl, rfl⟩).2 hholds)⟩
      · rw [readOutputs_corruption ∅ hsizes hholds]
        refine iff_of_true (.inl rfl) ?_
        rintro _ _ _ ⟨rfl, rfl, rfl⟩
        exact ⟨hsizes, fun h => absurd h hholds⟩
    · rw [readOutputs_panic ∅ hsizes]
      refine iff_of_false ?_ fun h => hsizes (h _ _ _ ⟨rfl, rfl, rfl⟩).1
      rintro (h | ⟨_, h, -⟩)
      · cases h
      · cases h

/-- A record of one output whose script has a size above 2⁶³. -/
theorem deserializeUtxoEntry_negative_size :
    deserializeUtxoEntry [1, 1, 2, 0, 0x80, 0xfe, 0xfe, 0xfe, 0xfe, 0xfe, 0xfe, 0xfe, 0xfe, 0x00] = .error .panic := by
  decide

end Prova
