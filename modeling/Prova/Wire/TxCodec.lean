import Prova.Lib.Reader
import Prova.Wire.ReadTx

/-!
# Decoding undoes encoding (`wire/msgtx.go`, `wire/common.go`)

Each reader takes exactly what its writer makes: numbers have one encoding, the shortest, and everything
else has a fixed form. So a transaction that is decoded is encoded as the bytes that were taken.
-/

namespace Prova

open List

/-! ### Numbers and byte strings -/

theorem reads_readNat (n : Nat) : Reads (· < 256 ^ n) (readNat n) (leBytes n) := by
  intro r x rest
  simp only [readNat, bind_eq_ok, pure_eq_ok, Prod.exists, Prod.mk.injEq, readFull_eq_ok]
  constructor
  · rintro ⟨buf, _, ⟨rfl, rfl⟩, rfl, rfl⟩
    exact ⟨leNat_lt buf, by rw [leBytes_leNat]⟩
  · rintro ⟨hx, rfl⟩
    exact ⟨leBytes n x, rest, ⟨length_leBytes n x, rfl⟩, by rw [leNat_leBytes, Nat.mod_eq_of_lt hx], rfl⟩

section

variable {β : Type} {k : Nat × Bytes → Except WireError β} {r : Bytes} {y : β}

theorem readNat_bind_uint32 : readNat 4 r >>= k = .ok y ↔
    ∃ (x : UInt32) (rest : Bytes), r = leBytes 4 x.toNat ++ rest ∧ k (x.toNat, rest) = .ok y := by
  rw [(reads_readNat 4).bind_eq_ok]
  constructor
  · rintro ⟨x, rest, hx, hr, hk⟩
    rw [← UInt32.toNat_ofNat_of_lt' hx] at hr hk
    exact ⟨UInt32.ofNat x, rest, hr, hk⟩
  · rintro ⟨x, rest, hr, hk⟩
    exact ⟨x.toNat, rest, x.toNat_lt, hr, hk⟩

theorem readNat_bind_uint64 : readNat 8 r >>= k = .ok y ↔
    ∃ (x : UInt64) (rest : Bytes), r = leBytes 8 x.toNat ++ rest ∧ k (x.toNat, rest) = .ok y := by
  rw [(reads_readNat 8).bind_eq_ok]
  constructor
  · rintro ⟨x, rest, hx, hr, hk⟩
    rw [← UInt64.toNat_ofNat_of_lt' hx] at hr hk
    exact ⟨UInt64.ofNat x, rest, hr, hk⟩
  · rintro ⟨x, rest, hr, hk⟩
    exact ⟨x.toNat, rest, x.toNat_lt, hr, hk⟩

end

theorem writeVarInt_ofNat {n : Nat} (hn : n < 2 ^ 64) : writeVarInt (UInt64.ofNat n) =
      if n < 0xfd then leBytes 1 n
      else if n ≤ 0xffff then 0xfd :: leBytes 2 n
      else if n ≤ 0xffffffff then 0xfe :: leBytes 4 n
      else 0xff :: leBytes 8 n := by
  have hnat : (UInt64.ofNat n).toNat = n := by
    rw [UInt64.toNat_ofNat']
    exact Nat.mod_eq_of_lt hn
  rw [writeVarInt, hnat]

theorem reads_readVarInt : Reads (· < 2 ^ 64) readVarInt (fun n => writeVarInt (UInt64.ofNat n)) := by
  intro r x rest
  simp only [readVarInt, (reads_readNat _).bind_eq_ok]
  have hwide : ∀ (d n min : Nat) (r' : Bytes),
      (∃ rv r'', rv < 256 ^ n ∧ r' = leBytes n rv ++ r'' ∧ (do
        reject (rv < min) (WireError.nonCanonicalVarInt rv (UInt8.ofNat d) min)
        return (rv, r'')) = Except.ok (x, rest)) ↔ x < 256 ^ n ∧ min ≤ x ∧ r' = leBytes n x ++ rest := by
    intro d n min r'
    simp only [bind_unit_eq_ok, reject_eq_ok, pure_eq_ok, Prod.mk.injEq, Nat.not_lt]
    constructor
    · rintro ⟨_, _, hlt, hr, hmin, rfl, rfl⟩
      exact ⟨hlt, hmin, hr⟩
    · rintro ⟨hlt, hmin, hr⟩
      exact ⟨x, rest, hlt, hr, hmin, rfl, rfl⟩
  constructor
  · rintro ⟨d, r', hd, rfl, h⟩
    split_ifs at h with hff hfe hfd
    · obtain ⟨hx, hmin, rfl⟩ := (hwide d 8 _ r').mp ((reads_readNat 8).bind_eq_ok.mp h)
      refine ⟨hx, ?_⟩
      rw [writeVarInt_ofNat hx, if_neg (by omega), if_neg (by omega), if_neg (by omega), hff]
      rfl
    · obtain ⟨hx, hmin, rfl⟩ := (hwide d 4 _ r').mp ((reads_readNat 4).bind_eq_ok.mp h)
      refine ⟨by omega, ?_⟩
      rw [writeVarInt_ofNat (by omega), if_neg (by omega), if_neg (by omega), if_pos (by omega), hfe]
      rfl
    · obtain ⟨hx, hmin, rfl⟩ := (hwide d 2 _ r').mp ((reads_readNat 2).bind_eq_ok.mp h)
      refine ⟨by omega, ?_⟩
      rw [writeVarInt_ofNat (by omega), if_neg (by omega), if_pos (by omega), hfd]
      rfl
    · cases h
      refine ⟨by omega, ?_⟩
      rw [writeVarInt_ofNat (by omega), if_pos (by omega)]
  · rintro ⟨hx, rfl⟩
    rw [writeVarInt_ofNat hx]
    split_ifs with h1 h2 h3
    · refine ⟨x, rest, by omega, rfl, ?_⟩
      rw [if_neg (by omega), if_neg (by omega), if_neg (by omega)]
      rfl
    · refine ⟨0xfd, leBytes 2 x ++ rest, by omega, rfl, ?_⟩
      rw [if_neg (by decide), if_neg (by decide), if_pos rfl]
      exact (reads_readNat 2).bind_eq_ok.mpr ((hwide _ 2 _ _).mpr ⟨by omega, by omega, rfl⟩)
    · refine ⟨0xfe, leBytes 4 x ++ rest, by omega, rfl, ?_⟩
      rw [if_neg (by decide), if_pos rfl]
      exact (reads_readNat 4).bind_eq_ok.mpr ((hwide _ 4 _ _).mpr ⟨by omega, by omega, rfl⟩)
    · refine ⟨0xff, leBytes 8 x ++ rest, by omega, rfl, ?_⟩
      rw [if_pos rfl]
      exact (reads_readNat 8).bind_eq_ok.mpr ((hwide _ 8 _ _).mpr ⟨by omega, by omega, rfl⟩)

theorem reads_readScript (fieldName : String) :
    Reads (fun b : Bytes => b.length ≤ maxMessagePayload) (readScript · fieldName) writeVarBytes := by
  intro r b rest
  simp only [readScript, readVarBytes, reads_readVarInt.bind_eq_ok, bind_unit_eq_ok, reject_eq_ok, readFull_eq_ok,
    Nat.not_lt, writeVarBytes, len64, append_assoc]
  constructor
  · rintro ⟨_, _, -, rfl, hmax, rfl, rfl⟩
    exact ⟨hmax, rfl⟩
  · rintro ⟨hb, rfl⟩
    exact ⟨b.length, _, lt_of_le_of_lt hb (by decide), rfl, hb, rfl, rfl⟩

theorem reads_readArray (n : Nat) : Reads (fun _ => True) (readArray n) Subtype.val := by
  intro r b rest
  constructor
  · intro h
    unfold readArray at h
    split_ifs at h
    cases h
    exact ⟨trivial, (take_append_drop n r).symm⟩
  · rintro ⟨-, rfl⟩
    obtain ⟨b, rfl⟩ := b
    rw [readArray, dif_pos (by simp)]
    simp

theorem reads_readHash : Reads (fun _ => True) readHash Hash.bytes := by
  intro r hash rest
  simp only [readHash, (reads_readArray 32).bind_eq_ok, pure_eq_ok, Prod.mk.injEq]
  constructor
  · rintro ⟨b, _, -, rfl, rfl, rfl⟩
    exact ⟨trivial, by rw [Hash.bytes_ofBytes b.property]⟩
  · rintro ⟨-, rfl⟩
    exact ⟨⟨hash.bytes, hash.length_bytes⟩, rest, trivial, rfl, hash.ofBytes_bytes, rfl⟩

/-! ### Transactions -/

theorem reads_readOutPoint : Reads (fun _ => True) readOutPoint writeOutPoint := by
  intro r op rest
  simp only [readOutPoint, reads_readHash.bind_eq_ok, readNat_bind_uint32, pure_eq_ok, Prod.mk.injEq,
    UInt32.ofNat_toNat, writeOutPoint, append_assoc]
  constructor
  · rintro ⟨hash, _, -, rfl, index, _, rfl, rfl, rfl⟩
    exact ⟨trivial, rfl⟩
  · rintro ⟨-, rfl⟩
    exact ⟨op.hash, _, trivial, rfl, op.index, rest, rfl, rfl, rfl⟩

theorem reads_readTxIn :
    Reads (fun ti : TxIn => ti.signatureScript.length ≤ maxMessagePayload) readTxIn (writeTxIn false) := by
  intro r ti rest
  simp only [readTxIn, reads_readOutPoint.bind_eq_ok, (reads_readScript _).bind_eq_ok, readNat_bind_uint32, pure_eq_ok,
    Prod.mk.injEq, UInt32.ofNat_toNat, writeTxIn, Bool.false_eq_true, if_false, append_assoc]
  constructor
  · rintro ⟨op, _, -, rfl, script, _, hlen, rfl, seq, _, rfl, rfl, rfl⟩
    exact ⟨hlen, rfl⟩
  · rintro ⟨hlen, rfl⟩
    exact ⟨ti.previousOutPoint, _, trivial, rfl, ti.signatureScript, _, hlen, rfl, ti.sequence, rest, rfl, rfl, rfl⟩

theorem reads_readTxOut : Reads (fun out : TxOut => out.pkScript.length ≤ maxMessagePayload) readTxOut writeTxOut := by
  intro r out rest
  simp only [readTxOut, (reads_readScript _).bind_eq_ok, readNat_bind_uint64, pure_eq_ok, Prod.mk.injEq,
    UInt64.ofNat_toNat, writeTxOut, append_assoc]
  constructor
  · rintro ⟨value, _, rfl, script, _, hlen, rfl, rfl, rfl⟩
    exact ⟨hlen, by rw [UInt64.toUInt64_toInt64]⟩
  · rintro ⟨hlen, rfl⟩
    exact ⟨out.value.toUInt64, _, rfl, out.pkScript, rest, hlen, rfl, by rw [Int64.toInt64_toUInt64], rfl⟩

theorem reads_readTimes {α : Type} {p : α → Prop} {read : Bytes → Except WireError (α × Bytes)}
    {write : α → Bytes} (h : Reads p read write) (n : Nat) :
    Reads (fun items : List α => items.length = n ∧ ∀ item ∈ items, p item) (readTimes read n)
      (fun items => items.flatMap write) := by
  induction n with
  | zero =>
    intro r items rest
    simp only [readTimes, pure_eq_ok, Prod.mk.injEq, length_eq_zero_iff]
    constructor
    · rintro ⟨rfl, rfl⟩
      exact ⟨⟨rfl, forall_mem_nil _⟩, rfl⟩
    · rintro ⟨⟨rfl, -⟩, rfl⟩
      exact ⟨rfl, rfl⟩
  | succ n ih =>
    intro r items rest
    simp only [readTimes, h.bind_eq_ok, ih.bind_eq_ok, pure_eq_ok, Prod.mk.injEq]
    constructor
    · rintro ⟨item, _, hitem, rfl, items, _, ⟨rfl, hall⟩, rfl, rfl, rfl⟩
      exact ⟨⟨length_cons, forall_mem_cons.mpr ⟨hitem, hall⟩⟩, by rw [flatMap_cons, append_assoc]⟩
    · rintro ⟨⟨hlen, hall⟩, rfl⟩
      obtain ⟨item, items, rfl⟩ := exists_cons_of_length_eq_add_one hlen
      rw [forall_mem_cons] at hall
      exact ⟨item, _, hall.1, by rw [flatMap_cons, append_assoc], items, rest, ⟨Nat.succ.inj hlen, hall.2⟩, rfl, rfl, rfl⟩

theorem reads_deserialize : Reads MsgTx.WithinLimits MsgTx.deserialize MsgTx.serialize := by
  intro r tx rest
  simp only [MsgTx.deserialize, readNat_bind_uint32, reads_readVarInt.bind_eq_ok, ↓bind_unit_eq_ok, reject_eq_ok,
    (reads_readTimes reads_readTxIn _).bind_eq_ok, (reads_readTimes reads_readTxOut _).bind_eq_ok, pure_eq_ok,
    Prod.mk.injEq, Nat.not_lt, UInt32.ofNat_toNat, MsgTx.serialize, MsgTx.btcEncode, len64, append_assoc]
  constructor
  · rintro ⟨version, _, rfl, _, _, -, rfl, hins, txIn, _, ⟨rfl, hsigs⟩, rfl, _, _, -, rfl, houts, txOut, _,
      ⟨rfl, hscripts⟩, rfl, lockTime, _, rfl, rfl, rfl⟩
    exact ⟨⟨hins, houts, hsigs, hscripts⟩, by rw [UInt32.toUInt32_toInt32]⟩
  · rintro ⟨⟨hins, houts, hsigs, hscripts⟩, rfl⟩
    exact ⟨tx.version.toUInt32, _, rfl, tx.txIn.length, _, lt_of_le_of_lt hins (by decide), rfl, hins, tx.txIn, _,
      ⟨rfl, hsigs⟩, rfl, tx.txOut.length, _, lt_of_le_of_lt houts (by decide), rfl, houts, tx.txOut, _,
      ⟨rfl, hscripts⟩, rfl, tx.lockTime, rest, rfl, by rw [Int32.toInt32_toUInt32], rfl⟩

/-! ### One buffer for the scripts -/

/-- `copy(buf[offset:], src)`. -/
def copyAt (buf : Bytes) (offset : Nat) (src : Bytes) : Bytes :=
  buf.take offset ++ src.take (buf.length - offset) ++ buf.drop (offset + src.length)

/-- The loops at the end of `BtcDecode`: each script is copied into the buffer at the offset, and its
transaction has the part `[offset:end]` of the buffer from then on. -/
def packScripts : List Bytes → Bytes → Nat → Bytes × List (Nat × Nat)
  | [], scripts, _ => (scripts, [])
  | script :: rest, scripts, offset =>
    let (packed, slices) := packScripts rest (copyAt scripts offset script) (offset + script.length)
    (packed, (offset, offset + script.length) :: slices)

/-- `b[i:j]`. -/
def slice (b : Bytes) (span : Nat × Nat) : Bytes := (b.take span.2).drop span.1

/-- The transaction with its scripts in the contiguous buffer. -/
def MsgTx.packed (tx : MsgTx) : MsgTx :=
  let scripts := tx.txIn.map TxIn.signatureScript ++ tx.txOut.map TxOut.pkScript
  let totalScriptSize := (scripts.map List.length).sum
  let (buf, slices) := packScripts scripts (List.replicate totalScriptSize 0) 0
  { tx with
    txIn := List.zipWith (fun ti span => { ti with signatureScript := slice buf span }) tx.txIn slices
    txOut := List.zipWith (fun out span => { out with pkScript := slice buf span }) tx.txOut
      (slices.drop tx.txIn.length) }

/-- `BtcDecode`. A borrowed buffer is filled as a whole before it is used, so what it held before does
not matter; at the end the scripts move to the contiguous buffer. -/
def MsgTx.btcDecode (r : Bytes) : Except WireError (MsgTx × Bytes) := do
  let (msg, r) ← MsgTx.deserialize r
  return (msg.packed, r)

theorem copyAt_room {lead room src : Bytes} (h : src.length ≤ room.length) :
    copyAt (lead ++ room) lead.length src = lead ++ src ++ room.drop src.length := by
  rw [copyAt, take_left, length_append, Nat.add_sub_cancel_left, take_of_length_le h, ← drop_drop, drop_left]

theorem packScripts_eq (scripts : List Bytes) (lead room : Bytes) (h : room.length = scripts.flatten.length) :
    ∃ slices, packScripts scripts (lead ++ room) lead.length = (lead ++ scripts.flatten, slices) ∧
      slices.map (slice (lead ++ scripts.flatten)) = scripts := by
  induction scripts generalizing lead room with
  | nil =>
    rw [flatten_nil, length_nil, length_eq_zero_iff] at h
    exact ⟨[], by rw [h]; rfl, rfl⟩
  | cons script scripts ih =>
    rw [flatten_cons, length_append] at h
    obtain ⟨slices, hpack, hslices⟩ := ih (lead ++ script) (room.drop script.length)
      (by rw [length_drop]; omega)
    rw [length_append, append_assoc _ _ scripts.flatten, ← flatten_cons] at hpack
    rw [append_assoc, ← flatten_cons] at hslices
    refine ⟨(lead.length, lead.length + script.length) :: slices, ?_, ?_⟩
    · rw [packScripts, copyAt_room (by omega), hpack]
    · rw [map_cons, hslices, slice]
      have htake : (lead ++ (script :: scripts).flatten).take (lead.length + script.length) = lead ++ script := by
        rw [flatten_cons, ← append_assoc]
        exact take_left' (length_append ..)
      rw [htake, drop_left]

theorem zipWith_put_get {α β γ : Type} (put : α → γ → α) {get : α → γ} {view : β → γ} {xs : List α} {ys : List β}
    {tail : List γ} (hput : ∀ x, put x (get x) = x) (h : ys.map view = xs.map get ++ tail) :
    List.zipWith (fun x y => put x (view y)) xs ys = xs := by
  induction xs generalizing ys with
  | nil => rfl
  | cons x xs ih =>
    cases ys with
    | nil => cases h
    | cons y ys =>
      rw [map_cons, map_cons, cons_append, List.cons.injEq] at h
      rw [zipWith_cons_cons, h.1, hput, ih h.2]

theorem MsgTx.packed_eq (tx : MsgTx) : tx.packed = tx := by
  have hroom : (List.replicate ((tx.txIn.map TxIn.signatureScript ++ tx.txOut.map TxOut.pkScript).map
      List.length).sum (0 : UInt8)).length =
      (tx.txIn.map TxIn.signatureScript ++ tx.txOut.map TxOut.pkScript).flatten.length := by
    rw [length_replicate, length_flatten]
  obtain ⟨slices, hpack, hslices⟩ := packScripts_eq _ [] _ hroom
  rw [nil_append, length_nil, nil_append] at hpack
  rw [nil_append] at hslices
  have houts : (slices.drop tx.txIn.length).map (slice
      (tx.txIn.map TxIn.signatureScript ++ tx.txOut.map TxOut.pkScript).flatten) =
      tx.txOut.map TxOut.pkScript ++ [] := by
    rw [map_drop, hslices, append_nil]
    exact drop_left' (length_map _)
  rw [packed, hpack]
  dsimp only
  rw [zipWith_put_get (fun (ti : TxIn) script => { ti with signatureScript := script }) (fun _ => rfl) hslices,
    zipWith_put_get (fun (out : TxOut) script => { out with pkScript := script }) (fun _ => rfl) houts]

theorem MsgTx.btcDecode_eq (r : Bytes) : btcDecode r = deserialize r := by
  rw [btcDecode]
  cases deserialize r with
  | error e => rfl
  | ok out =>
    change Except.ok (out.1.packed, out.2) = .ok out
    rw [packed_eq]

/-! ### Hashes -/

/-- The lengths of the slices of a transaction are lengths of slices. -/
structure MsgTx.Representable (tx : MsgTx) : Prop where
  ins : tx.txIn.length < 2 ^ 63
  outs : tx.txOut.length < 2 ^ 63
  sigs : ∀ ti ∈ tx.txIn, ti.signatureScript.length < 2 ^ 63
  scripts : ∀ out ∈ tx.txOut, out.pkScript.length < 2 ^ 63

theorem prefixCode_writeTxIn : PrefixCode (fun ti : TxIn => ti.signatureScript.length < 2 ^ 63) (writeTxIn false) := by
  intro a b r s ha hb h
  simp only [writeTxIn, Bool.false_eq_true, if_false, append_assoc] at h
  obtain ⟨hop, h1⟩ := prefixCode_writeOutPoint _ _ _ _ trivial trivial h
  obtain ⟨hscript, h2⟩ := prefixCode_writeVarBytes _ _ _ _ (by omega) (by omega) h1
  obtain ⟨hseq, htail⟩ := append_inj h2 (by simp)
  have hsequence := uint32_leBytes_inj hseq
  cases a
  cases b
  cases hop
  cases hscript
  cases hsequence
  exact ⟨rfl, htail⟩

theorem MsgTx.serialize_inj {a b : MsgTx} (ha : a.Representable) (hb : b.Representable)
    (h : a.serialize = b.serialize) : a = b := by
  have hlt : ∀ n : Nat, n < 2 ^ 63 → n < 2 ^ 64 := fun n hn => by omega
  simp only [serialize, btcEncode, append_assoc] at h
  obtain ⟨hversion, h1⟩ := append_inj h (by simp)
  obtain ⟨hinLen, h2⟩ := prefixCode_writeVarInt _ _ _ _ trivial trivial h1
  obtain ⟨hin, h3⟩ := prefixCode_writeTxIn.flatMap (len64_inj (hlt _ ha.ins) (hlt _ hb.ins) hinLen)
    ha.sigs hb.sigs h2
  obtain ⟨houtLen, h4⟩ := prefixCode_writeVarInt _ _ _ _ trivial trivial h3
  obtain ⟨hout, hlock⟩ := prefixCode_writeTxOut.flatMap (len64_inj (hlt _ ha.outs) (hlt _ hb.outs) houtLen)
    (fun out hout => hlt _ (ha.scripts out hout)) (fun out hout => hlt _ (hb.scripts out hout)) h4
  have hversion := int32_toUInt32_toNat_inj hversion
  have hlock := uint32_leBytes_inj hlock
  cases a
  cases b
  cases hversion
  cases hin
  cases hout
  cases hlock
  rfl

/-- Decoding undoes encoding, with the size that is announced; encoding undoes decoding; signature
scripts are not part of the transaction hash; and the hash with the signatures is injective on any
transactions on whose encodings the hash function is. -/
theorem MsgTx.codec_and_hashes :
    (∀ tx : MsgTx, tx.WithinLimits → ∀ rest, btcDecode (tx.btcEncode false ++ rest) = .ok (tx, rest) ∧
      (tx.btcEncode false).length = tx.serializeSize) ∧
    (∀ r tx rest, btcDecode r = .ok (tx, rest) → r = tx.btcEncode false ++ rest) ∧
    (∀ (c : Crypto) (a b : MsgTx), a.stripped = b.stripped → a.txHash c = b.txHash c) ∧
    ∀ (c : Crypto) (txs : Set MsgTx), (∀ tx ∈ txs, tx.Representable) →
      Set.InjOn c.doubleHashH (Set.image serialize txs) → Set.InjOn (txHashWithSig c) txs := by
  refine ⟨fun tx htx rest => ⟨?_, tx.length_serialize⟩, fun r tx rest h => ?_, fun c a b h => ?_,
    fun c txs htxs hinj a ha b hb h => ?_⟩
  · rw [btcDecode_eq]
    exact reads_deserialize.read_write htx rest
  · rw [btcDecode_eq] at h
    exact ((reads_deserialize _ _ _).mp h).2
  · rw [txHash, txHash, serializeStripped_congr h]
  · exact serialize_inj (htxs a ha) (htxs b hb) (hinj (Set.mem_image_of_mem _ ha) (Set.mem_image_of_mem _ hb) h)

def Sample.signedTx (signatureScript : Bytes) : MsgTx :=
  ⟨1, [⟨⟨0, 0⟩, signatureScript, 0⟩], [⟨5, [0x51]⟩], 0⟩

/-- A hash function that keeps the last 32 bytes. -/
def Sample.lastBytes : Crypto :=
  ⟨fun b => BitVec.ofNat 256 (beNat b), fun _ => 0, fun _ => 0, fun _ => 0, fun _ _ _ _ => false⟩

theorem MsgTx.codec_and_hashes_signedTx :
    btcDecode ((Sample.signedTx [1]).btcEncode false ++ [7]) = .ok (Sample.signedTx [1], [7]) ∧
      (Sample.signedTx [1]).txHash Sample.lastBytes = (Sample.signedTx [2]).txHash Sample.lastBytes ∧
      Set.InjOn (txHashWithSig Sample.lastBytes) {Sample.signedTx [1], Sample.signedTx [2]} := by
  obtain ⟨hdecode, -, hstripped, hinj⟩ := codec_and_hashes
  have hlimits : (Sample.signedTx [1]).WithinLimits := ⟨by decide, by decide, by decide, by decide⟩
  refine ⟨(hdecode _ hlimits [7]).1, hstripped _ _ _ rfl, hinj _ _ ?_ ?_⟩
  · intro tx htx
    obtain rfl | rfl := htx
    · exact ⟨by decide, by decide, by decide, by decide⟩
    · exact ⟨by decide, by decide, by decide, by decide⟩
  · have hne : Sample.lastBytes.doubleHashH (Sample.signedTx [1]).serialize ≠
        Sample.lastBytes.doubleHashH (Sample.signedTx [2]).serialize := by decide +kernel
    rw [Set.image_pair]
    intro a ha b hb heq
    obtain rfl | rfl := ha <;> obtain rfl | rfl := hb
    · rfl
    · exact absurd heq hne
    · exact absurd heq.symm hne
    · rfl

end Prova
