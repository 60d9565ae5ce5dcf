import Prova.Chainhash

/-!
# Transactions (`wire/msgtx.go`, `wire/common.go`)

The transaction record and its encoding. `TxHash` is the hash of the encoding with every signature
script replaced by an empty one, so it commits to the inputs' outpoints and to the outputs but not to
the signatures. The encoding is a prefix code, so equal stripped encodings mean equal transactions up
to signature scripts.
-/

namespace Prova

open List

@[ext] structure OutPoint where
  hash : Hash
  index : UInt32
deriving DecidableEq

structure TxIn where
  previousOutPoint : OutPoint
  signatureScript : Bytes
  sequence : UInt32
deriving DecidableEq

@[ext] structure TxOut where
  value : Int64
  pkScript : Bytes
deriving DecidableEq

structure MsgTx where
  version : Int32
  txIn : List TxIn
  txOut : List TxOut
  lockTime : UInt32
deriving DecidableEq

def maxTxInSequenceNum : UInt32 := 0xffffffff
def maxPrevOutIndex : UInt32 := 0xffffffff
def maxBlockPayload : Nat := 2500000
def strippedTxInSize : Nat := 41

def writeVarInt (val : UInt64) : Bytes :=
  if val.toNat < 0xfd then leBytes 1 val.toNat
  else if val.toNat ≤ 0xffff then 0xfd :: leBytes 2 val.toNat
  else if val.toNat ≤ 0xffffffff then 0xfe :: leBytes 4 val.toNat
  else 0xff :: leBytes 8 val.toNat

def varIntSerializeSize (val : UInt64) : Nat :=
  if val.toNat < 0xfd then 1
  else if val.toNat ≤ 0xffff then 3
  else if val.toNat ≤ 0xffffffff then 5
  else 9

/-- `uint64(len(l))`. -/
def len64 {α : Type} (l : List α) : UInt64 := UInt64.ofNat l.length

def writeVarBytes (b : Bytes) : Bytes := writeVarInt (len64 b) ++ b

def writeOutPoint (op : OutPoint) : Bytes := op.hash.bytes ++ leBytes 4 op.index.toNat

def writeTxIn (strip : Bool) (ti : TxIn) : Bytes :=
  writeOutPoint ti.previousOutPoint ++
    ((if strip then writeVarInt 0 else writeVarBytes ti.signatureScript) ++
      leBytes 4 ti.sequence.toNat)

def writeTxOut (out : TxOut) : Bytes :=
  leBytes 8 out.value.toUInt64.toNat ++ writeVarBytes out.pkScript

namespace MsgTx

def btcEncode (msg : MsgTx) (strip : Bool) : Bytes :=
  leBytes 4 msg.version.toUInt32.toNat ++
    ((writeVarInt (len64 msg.txIn) ++ msg.txIn.flatMap (writeTxIn strip)) ++
      ((writeVarInt (len64 msg.txOut) ++ msg.txOut.flatMap writeTxOut) ++
        leBytes 4 msg.lockTime.toNat))

def serialize (msg : MsgTx) : Bytes := msg.btcEncode false

def serializeStripped (msg : MsgTx) : Bytes := msg.btcEncode true

def txHash (c : Crypto) (msg : MsgTx) : Hash := c.doubleHashH msg.serializeStripped

def txHashWithSig (c : Crypto) (msg : MsgTx) : Hash := c.doubleHashH msg.serialize

def serializeSize (msg : MsgTx) : Nat :=
  8 + varIntSerializeSize (len64 msg.txIn) + varIntSerializeSize (len64 msg.txOut) +
    (msg.txIn.map fun ti =>
      40 + varIntSerializeSize (len64 ti.signatureScript) + ti.signatureScript.length).sum +
    (msg.txOut.map fun out =>
      8 + varIntSerializeSize (len64 out.pkScript) + out.pkScript.length).sum

def prevOuts (msg : MsgTx) : List OutPoint := msg.txIn.map (·.previousOutPoint)

end MsgTx

/-! ### The stripped encoding determines the transaction up to signature scripts -/

/-- The number of bytes that follow the leading byte of a variable length integer. -/
def varIntWidth (lead : UInt8) : Nat :=
  if lead = 0xfd then 2 else if lead = 0xfe then 4 else if lead = 0xff then 8 else 0

/-- A variable length integer is a leading byte and as many bytes as it announces; without any, the
leading byte is the value. -/
theorem writeVarInt_eq (val : UInt64) : ∃ lead, writeVarInt val = lead :: leBytes (varIntWidth lead) val.toNat ∧
      (varIntWidth lead = 0 → lead.toNat = val.toNat) ∧
      (varIntWidth lead ≠ 0 → val.toNat < 256 ^ varIntWidth lead) := by
  have hval := val.toNat_lt
  unfold writeVarInt
  split_ifs with h1 h2 h3
  · have hlead : (UInt8.ofNat val.toNat).toNat = val.toNat := by
      rw [UInt8.toNat_ofNat']
      omega
    have hne : ∀ x : UInt8, 0xfd ≤ x.toNat → UInt8.ofNat val.toNat ≠ x := by
      rintro x hx rfl
      omega
    have hwidth : varIntWidth (UInt8.ofNat val.toNat) = 0 := by
      rw [varIntWidth, if_neg (hne _ (by decide)), if_neg (hne _ (by decide)), if_neg (hne _ (by decide))]
    exact ⟨UInt8.ofNat val.toNat, by rw [hwidth]; rfl, fun _ => hlead, fun h => absurd hwidth h⟩
  · exact ⟨0xfd, rfl, fun h => absurd h (by decide), fun _ => Nat.lt_of_le_of_lt h2 (by decide)⟩
  · exact ⟨0xfe, rfl, fun h => absurd h (by decide), fun _ => Nat.lt_of_le_of_lt h3 (by decide)⟩
  · exact ⟨0xff, rfl, fun h => absurd h (by decide), fun _ => Nat.lt_of_lt_of_le hval (by decide)⟩

theorem prefixCode_writeVarInt : PrefixCode (fun _ => True) writeVarInt := by
  intro a b r s _ _ h
  obtain ⟨lead, ha, ha0, halt⟩ := writeVarInt_eq a
  obtain ⟨lead', hb, hb0, hblt⟩ := writeVarInt_eq b
  rw [ha, hb] at h
  simp only [cons_append, List.cons.injEq] at h
  obtain ⟨rfl, hbody⟩ := h
  obtain ⟨hnum, htail⟩ := append_inj hbody (by simp)
  refine ⟨UInt64.toNat_inj.mp ?_, htail⟩
  by_cases hwidth : varIntWidth lead = 0
  · rw [← ha0 hwidth, ← hb0 hwidth]
  · exact leBytes_inj (halt hwidth) (hblt hwidth) hnum

theorem len64_inj {α : Type} {a b : List α} (ha : a.length < 2 ^ 64) (hb : b.length < 2 ^ 64)
    (h : len64 a = len64 b) : a.length = b.length := by
  have hnat := congrArg UInt64.toNat h
  simp only [len64, UInt64.toNat_ofNat'] at hnat
  rwa [Nat.mod_eq_of_lt ha, Nat.mod_eq_of_lt hb] at hnat

theorem prefixCode_writeVarBytes : PrefixCode (fun b : Bytes => b.length < 2 ^ 64) writeVarBytes := by
  intro a b r s ha hb h
  simp only [writeVarBytes, append_assoc] at h
  obtain ⟨hlen, hrest⟩ := prefixCode_writeVarInt _ _ _ _ trivial trivial h
  exact append_inj hrest (len64_inj ha hb hlen)

/-- The lengths a transaction's encoding writes fit in a `uint64`. -/
def MsgTx.Bounded (msg : MsgTx) : Prop :=
  msg.txIn.length < 2 ^ 64 ∧ msg.txOut.length < 2 ^ 64 ∧
    ∀ out ∈ msg.txOut, out.pkScript.length < 2 ^ 64

theorem prefixCode_writeOutPoint : PrefixCode (fun _ => True) writeOutPoint := by
  refine PrefixCode.of_length 36 (fun op => by simp [writeOutPoint]) ?_
  intro a b _ _ h
  obtain ⟨hhash, hindex⟩ := append_inj h (by simp)
  have hnat := leBytes_inj (lt_of_lt_of_eq a.index.toNat_lt (by norm_num))
    (lt_of_lt_of_eq b.index.toNat_lt (by norm_num)) hindex
  exact OutPoint.ext (Hash.bytes_injective hhash) (UInt32.toNat_inj.mp hnat)

/-- What the stripped encoding of an input keeps. -/
def TxIn.stripped (ti : TxIn) : OutPoint × UInt32 := (ti.previousOutPoint, ti.sequence)

theorem writeTxIn_stripped_inj {a b : TxIn} {r s : Bytes}
    (h : writeTxIn true a ++ r = writeTxIn true b ++ s) : a.stripped = b.stripped ∧ r = s := by
  simp only [writeTxIn, if_true, append_assoc] at h
  obtain ⟨hop, hrest⟩ := prefixCode_writeOutPoint _ _ _ _ trivial trivial h
  obtain ⟨hseq, htail⟩ := append_inj (append_cancel_left hrest) (by simp)
  have hnat := leBytes_inj (lt_of_lt_of_eq a.sequence.toNat_lt (by norm_num))
    (lt_of_lt_of_eq b.sequence.toNat_lt (by norm_num)) hseq
  exact ⟨Prod.ext hop (UInt32.toNat_inj.mp hnat), htail⟩

theorem flatMap_writeTxIn_stripped_inj {as bs : List TxIn} {r s : Bytes} (hlen : as.length = bs.length)
    (h : as.flatMap (writeTxIn true) ++ r = bs.flatMap (writeTxIn true) ++ s) :
    as.map TxIn.stripped = bs.map TxIn.stripped ∧ r = s := by
  induction as generalizing bs with
  | nil =>
    cases bs with
    | nil => exact ⟨rfl, h⟩
    | cons b bs => simp at hlen
  | cons a as ih =>
    cases bs with
    | nil => simp at hlen
    | cons b bs =>
      simp only [flatMap_cons, append_assoc] at h
      obtain ⟨hab, hrest⟩ := writeTxIn_stripped_inj h
      obtain ⟨htail, hrs⟩ := ih (by simpa using hlen) hrest
      exact ⟨by rw [map_cons, map_cons, hab, htail], hrs⟩

theorem prefixCode_writeTxOut : PrefixCode (fun out : TxOut => out.pkScript.length < 2 ^ 64) writeTxOut := by
  intro a b r s ha hb h
  simp only [writeTxOut, append_assoc] at h
  obtain ⟨hvalue, hrest⟩ := append_inj h (by simp)
  obtain ⟨hscript, htail⟩ := prefixCode_writeVarBytes _ _ _ _ ha hb hrest
  have hnat := leBytes_inj (lt_of_lt_of_eq a.value.toUInt64.toNat_lt (by norm_num))
    (lt_of_lt_of_eq b.value.toUInt64.toNat_lt (by norm_num)) hvalue
  have hint : a.value = b.value := by
    simpa using congrArg UInt64.toInt64 (UInt64.toNat_inj.mp hnat)
  exact ⟨TxOut.ext hint hscript, htail⟩

/-- What the stripped encoding of a transaction keeps. -/
def MsgTx.stripped (msg : MsgTx) : Int32 × List (OutPoint × UInt32) × List TxOut × UInt32 :=
  (msg.version, msg.txIn.map TxIn.stripped, msg.txOut, msg.lockTime)

theorem int32_toUInt32_toNat_inj {a b : Int32} (h : leBytes 4 a.toUInt32.toNat = leBytes 4 b.toUInt32.toNat) :
    a = b := by
  have hnat := leBytes_inj (lt_of_lt_of_eq a.toUInt32.toNat_lt (by norm_num))
    (lt_of_lt_of_eq b.toUInt32.toNat_lt (by norm_num)) h
  simpa using congrArg UInt32.toInt32 (UInt32.toNat_inj.mp hnat)

theorem uint32_leBytes_inj {a b : UInt32} (h : leBytes 4 a.toNat = leBytes 4 b.toNat) : a = b :=
  UInt32.toNat_inj.mp (leBytes_inj (lt_of_lt_of_eq a.toNat_lt (by norm_num))
    (lt_of_lt_of_eq b.toNat_lt (by norm_num)) h)

theorem MsgTx.stripped_eq_of_serializeStripped {a b : MsgTx} (ha : a.Bounded) (hb : b.Bounded)
    (h : a.serializeStripped = b.serializeStripped) : a.stripped = b.stripped := by
  simp only [serializeStripped, btcEncode, append_assoc] at h
  obtain ⟨hversion, hins⟩ := append_inj h (by simp)
  obtain ⟨hinLen, hins⟩ := prefixCode_writeVarInt _ _ _ _ trivial trivial hins
  obtain ⟨hin, houts⟩ := flatMap_writeTxIn_stripped_inj (len64_inj ha.1 hb.1 hinLen) hins
  obtain ⟨houtLen, houts⟩ := prefixCode_writeVarInt _ _ _ _ trivial trivial houts
  obtain ⟨hout, hlock⟩ := prefixCode_writeTxOut.flatMap (len64_inj ha.2.1 hb.2.1 houtLen)
    ha.2.2 hb.2.2 houts
  rw [stripped, stripped, int32_toUInt32_toNat_inj hversion, hin, hout, uint32_leBytes_inj hlock]

theorem flatMap_writeTxIn_eq (txIn : List TxIn) : txIn.flatMap (writeTxIn true)
      = (txIn.map TxIn.stripped).flatMap fun p => writeOutPoint p.1 ++ (writeVarInt 0 ++ leBytes 4 p.2.toNat) := by
  rw [flatMap_map]
  rfl

theorem MsgTx.serializeStripped_congr {a b : MsgTx} (h : a.stripped = b.stripped) :
    a.serializeStripped = b.serializeStripped := by
  obtain ⟨hversion, hin, hout, hlock⟩ : a.version = b.version ∧
      a.txIn.map TxIn.stripped = b.txIn.map TxIn.stripped ∧ a.txOut = b.txOut ∧
      a.lockTime = b.lockTime := by
    simpa only [stripped, Prod.mk.injEq] using h
  have hlen : len64 a.txIn = len64 b.txIn := by
    have hlength : a.txIn.length = b.txIn.length := by simpa using congrArg List.length hin
    simp only [len64, hlength]
  rw [serializeStripped, serializeStripped, btcEncode, btcEncode, flatMap_writeTxIn_eq,
    flatMap_writeTxIn_eq, hversion, hin, hout, hlock, hlen]

end Prova
