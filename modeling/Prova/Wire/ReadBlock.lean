import Prova.Wire.TxCodec

/-!
# Reading blocks (`wire/msgblock.go`)

`Deserialize` and `DeserializeTxLoc` are two decoders of the same format. The second one also notes
where in the stream each transaction is.
-/

namespace Prova

open List

variable {txs : List MsgTx} {block : MsgBlock} {tx : MsgTx} {i : Nat}

/-! ### Locations -/

/-- `TxLoc`: where a transaction is in the data of a block. -/
structure TxLoc where
  txStart : Nat
  txLen : Nat
deriving DecidableEq

def txLocFrom : Nat → List MsgTx → List TxLoc
  | _, [] => []
  | start, tx :: txs => ⟨start, tx.serializeSize⟩ :: txLocFrom (start + tx.serializeSize) txs

/-- Where the transactions are in the encoded block. -/
def txLoc (block : MsgBlock) : List TxLoc :=
  txLocFrom (blockHeaderLen + varIntSerializeSize (len64 block.transactions)) block.transactions

theorem length_txLocFrom (start : Nat) (txs : List MsgTx) : (txLocFrom start txs).length = txs.length := by
  induction txs generalizing start with
  | nil => rfl
  | cons tx txs ih => rw [txLocFrom, length_cons, length_cons, ih]

theorem txLocFrom_region {lead : Bytes} {loc : TxLoc} (htx : txs[i]? = some tx)
    (hloc : (txLocFrom lead.length txs)[i]? = some loc) :
    ((lead ++ txs.flatMap MsgTx.serialize).drop loc.txStart).take loc.txLen = tx.serialize ∧
      loc.txStart + loc.txLen ≤ (lead ++ txs.flatMap MsgTx.serialize).length := by
  induction txs generalizing lead i with
  | nil => cases htx
  | cons first txs ih =>
    cases i with
    | zero =>
      cases htx
      cases hloc
      rw [drop_left, flatMap_cons, take_left' tx.length_serialize, length_append, length_append, tx.length_serialize]
      refine ⟨rfl, ?_⟩
      dsimp only
      omega
    | succ i =>
      rw [txLocFrom, getElem?_cons_succ, ← first.length_serialize, ← length_append] at hloc
      have hrest := ih htx hloc
      rwa [append_assoc, ← flatMap_cons] at hrest

theorem txLoc_region {loc : TxLoc} (htx : block.transactions[i]? = some tx) (hloc : (txLoc block)[i]? = some loc) :
    (block.serialize.drop loc.txStart).take loc.txLen = tx.serialize ∧
      loc.txStart + loc.txLen ≤ block.serialize.length := by
  have hlead : (writeBlockHeader block.header ++ writeVarInt (len64 block.transactions)).length =
      blockHeaderLen + varIntSerializeSize (len64 block.transactions) := by
    rw [length_append, length_writeBlockHeader, length_writeVarInt]
  unfold txLoc at hloc
  rw [← hlead] at hloc
  exact txLocFrom_region htx hloc

theorem txLocFrom_consecutive {start : Nat} {loc next : TxLoc} (hloc : (txLocFrom start txs)[i]? = some loc)
    (hnext : (txLocFrom start txs)[i + 1]? = some next) : next.txStart = loc.txStart + loc.txLen := by
  induction txs generalizing start i with
  | nil => cases hloc
  | cons tx txs ih =>
    rw [txLocFrom, getElem?_cons_succ] at hnext
    cases i with
    | succ i => exact ih hloc hnext
    | zero =>
      cases txs with
      | nil => cases hnext
      | cons tx' txs =>
        cases hloc
        cases hnext
        rfl

theorem le_txStart {start : Nat} {loc : TxLoc} (h : loc ∈ txLocFrom start txs) : start ≤ loc.txStart := by
  induction txs generalizing start with
  | nil => cases h
  | cons tx txs ih =>
    obtain rfl | hmem := mem_cons.mp h
    · exact le_rfl
    · exact le_trans (Nat.le_add_right _ _) (ih hmem)

theorem txLocFrom_pairwise (start : Nat) (txs : List MsgTx) :
    (txLocFrom start txs).Pairwise fun a b => a.txStart + a.txLen ≤ b.txStart := by
  induction txs generalizing start with
  | nil => exact .nil
  | cons tx txs ih => exact .cons (fun loc hloc => le_txStart hloc) (ih _)

theorem txLen_of_txLocFrom {start : Nat} {loc : TxLoc} (htx : txs[i]? = some tx)
    (hloc : (txLocFrom start txs)[i]? = some loc) : loc.txLen = tx.serializeSize := by
  induction txs generalizing start i with
  | nil => cases htx
  | cons first txs ih =>
    cases i with
    | zero =>
      cases htx
      cases hloc
      rfl
    | succ i => exact ih htx hloc

/-! ### The decoders -/

def minTxPayload : Nat := 10

def maxTxPerBlock : Nat := maxBlockPayload / minTxPayload + 1

/-- What both decoders read before the transactions: the header and the number of transactions. -/
def readBlockStart (r : Bytes) : Except WireError ((BlockHeader × Nat) × Bytes) := do
  let (header, r) ← readBlockHeader r
  let (txCount, r) ← readVarInt r
  reject (maxTxPerBlock < txCount) (.tooManyToFit "transactions" txCount maxTxPerBlock)
  return ((header, txCount), r)

/-- `Deserialize`, which is `BtcDecode`. -/
def MsgBlock.deserialize (r : Bytes) : Except WireError (MsgBlock × Bytes) := do
  let ((header, txCount), r) ← readBlockStart r
  let (transactions, r) ← readTimes MsgTx.btcDecode txCount r
  return (⟨header, transactions⟩, r)

/-- The loop of `DeserializeTxLoc`: a location is the difference of what is left before and after. -/
def readTxLocs (fullLen : Nat) : Nat → Bytes → Except WireError ((List MsgTx × List TxLoc) × Bytes)
  | 0, r => return (([], []), r)
  | n + 1, r => do
    let txStart := fullLen - r.length
    let (tx, r) ← MsgTx.btcDecode r
    let txLen := (fullLen - r.length) - txStart
    let ((txs, txLocs), r) ← readTxLocs fullLen n r
    return ((tx :: txs, ⟨txStart, txLen⟩ :: txLocs), r)

def MsgBlock.deserializeTxLoc (r : Bytes) : Except WireError ((MsgBlock × List TxLoc) × Bytes) := do
  let fullLen := r.length
  let ((header, txCount), r) ← readBlockStart r
  let ((transactions, txLocs), r) ← readTxLocs fullLen txCount r
  return ((⟨header, transactions⟩, txLocs), r)

/-! ### Deserialize -/

theorem reads_readBlockHeader : Reads (fun _ => True) readBlockHeader writeBlockHeader := by
  intro r header rest
  simp only [readBlockHeader, readNat_bind_uint32, reads_readHash.bind_eq_ok, readNat_bind_uint64,
    (reads_readArray _).bind_eq_ok, pure_eq_ok, Prod.mk.injEq, UInt32.ofNat_toNat, UInt64.ofNat_toNat,
    writeBlockHeader, append_assoc]
  constructor
  · rintro ⟨version, _, rfl, prevBlock, _, -, rfl, merkleRoot, _, -, rfl, timestamp, _, rfl, bits, _, rfl, height, _, rfl,
      size, _, rfl, nonce, _, rfl, validatingPubKey, _, -, rfl, signature, _, -, rfl, rfl, rfl⟩
    exact ⟨trivial, by rw [UInt64.toUInt64_toInt64]⟩
  · rintro ⟨-, rfl⟩
    exact ⟨header.version, _, rfl, header.prevBlock, _, trivial, rfl, header.merkleRoot, _, trivial, rfl,
      header.timestamp.toUInt64, _, rfl, header.bits, _, rfl, header.height, _, rfl, header.size, _, rfl,
      header.nonce, _, rfl, header.validatingPubKey, _, trivial, rfl, header.signature, rest, trivial, rfl,
      by rw [Int64.toInt64_toUInt64], rfl⟩

theorem reads_readBlockStart : Reads (fun start : BlockHeader × Nat => start.2 ≤ maxTxPerBlock) readBlockStart
      (fun start => writeBlockHeader start.1 ++ writeVarInt (UInt64.ofNat start.2)) := by
  rintro r ⟨header, count⟩ rest
  simp only [readBlockStart, reads_readBlockHeader.bind_eq_ok, reads_readVarInt.bind_eq_ok, bind_unit_eq_ok,
    reject_eq_ok, pure_eq_ok, Prod.mk.injEq, Nat.not_lt, append_assoc]
  constructor
  · rintro ⟨_, _, -, rfl, _, _, -, rfl, hmax, ⟨rfl, rfl⟩, rfl⟩
    exact ⟨hmax, rfl⟩
  · rintro ⟨hmax, rfl⟩
    exact ⟨header, _, trivial, rfl, count, rest, lt_of_le_of_lt hmax (by decide), rfl, hmax, ⟨rfl, rfl⟩, rfl⟩

/-- What the decoder of blocks lets pass. -/
structure MsgBlock.WithinLimits (block : MsgBlock) : Prop where
  count : block.transactions.length ≤ maxTxPerBlock
  txs : ∀ tx ∈ block.transactions, tx.WithinLimits

theorem reads_btcDecode : Reads MsgTx.WithinLimits MsgTx.btcDecode MsgTx.serialize := by
  intro r tx rest
  rw [MsgTx.btcDecode_eq]
  exact reads_deserialize r tx rest

theorem MsgBlock.reads_deserialize : Reads MsgBlock.WithinLimits MsgBlock.deserialize MsgBlock.serialize := by
  intro r block rest
  simp only [deserialize, reads_readBlockStart.bind_eq_ok, (reads_readTimes reads_btcDecode _).bind_eq_ok, pure_eq_ok,
    Prod.exists, Prod.mk.injEq, serialize, len64, append_assoc]
  constructor
  · rintro ⟨header, _, _, hcount, rfl, txs, _, ⟨rfl, htxs⟩, rfl, rfl, rfl⟩
    exact ⟨⟨hcount, htxs⟩, rfl⟩
  · rintro ⟨⟨hcount, htxs⟩, rfl⟩
    exact ⟨block.header, block.transactions.length, _, hcount, rfl, block.transactions, rest, ⟨rfl, htxs⟩, rfl, rfl, rfl⟩

/-! ### DeserializeTxLoc -/

theorem readTimes_of_readTxLocs (fullLen n : Nat) (r : Bytes) :
    readTimes MsgTx.btcDecode n r = (readTxLocs fullLen n r).map fun out => (out.1.1, out.2) := by
  induction n generalizing r with
  | zero => rfl
  | succ n ih =>
    rw [readTimes, readTxLocs]
    cases MsgTx.btcDecode r with
    | error e => rfl
    | ok out =>
      obtain ⟨tx, r'⟩ := out
      rw [ok_bind, ok_bind]
      dsimp only
      rw [ih]
      cases readTxLocs fullLen n r' <;> rfl

theorem MsgBlock.deserialize_eq (r : Bytes) : deserialize r = (deserializeTxLoc r).map fun out => (out.1.1, out.2) := by
  rw [deserialize, deserializeTxLoc]
  cases readBlockStart r with
  | error e => rfl
  | ok out =>
    obtain ⟨⟨header, txCount⟩, r'⟩ := out
    rw [ok_bind, ok_bind]
    dsimp only
    rw [readTimes_of_readTxLocs r.length]
    cases readTxLocs r.length txCount r' <;> rfl

theorem txLocs_of_readTxLocs {fullLen n : Nat} {r rest : Bytes} {txLocs : List TxLoc}
    (hlen : r.length ≤ fullLen) (h : readTxLocs fullLen n r = .ok ((txs, txLocs), rest)) :
    txLocs = txLocFrom (fullLen - r.length) txs := by
  induction n generalizing r txs txLocs with
  | zero =>
    cases h
    rfl
  | succ n ih =>
    obtain ⟨tx, r', -, rfl, h1⟩ := reads_btcDecode.bind_eq_ok.mp h
    obtain ⟨⟨⟨txs', txLocs'⟩, rest'⟩, hmore, h2⟩ := bind_eq_ok.mp h1
    cases h2
    rw [length_append, tx.length_serialize] at hlen ⊢
    have hstart : fullLen - r'.length = fullLen - (tx.serializeSize + r'.length) + tx.serializeSize := by omega
    have hsize : fullLen - r'.length - (fullLen - (tx.serializeSize + r'.length)) = tx.serializeSize := by omega
    rw [ih (by omega) hmore, txLocFrom, hstart, ← hstart, hsize]

theorem MsgBlock.txLocs_of_deserializeTxLoc {r rest : Bytes} {txLocs : List TxLoc}
    (h : deserializeTxLoc r = .ok ((block, txLocs), rest)) : r = block.serialize ++ rest ∧ txLocs = txLoc block := by
  have hblock : deserialize r = .ok (block, rest) := by
    rw [deserialize_eq, h]
    rfl
  refine ⟨((reads_deserialize _ _ _).mp hblock).2, ?_⟩
  obtain ⟨⟨header, txCount⟩, r1, -, rfl, h1⟩ := reads_readBlockStart.bind_eq_ok.mp h
  obtain ⟨⟨⟨txs, locs⟩, r2⟩, hlocs, h2⟩ := bind_eq_ok.mp h1
  cases h2
  have htimes : readTimes MsgTx.btcDecode txCount r1 = .ok (txs, rest) := by
    rw [readTimes_of_readTxLocs, hlocs]
    rfl
  obtain ⟨rfl, -⟩ := ((reads_readTimes reads_btcDecode _ _ _ _).mp htimes).1
  rw [txLocs_of_readTxLocs (by rw [length_append]; omega) hlocs, txLoc, length_append, Nat.add_sub_cancel,
    length_append, length_writeBlockHeader, length_writeVarInt, len64]

/-- Decoding a block undoes encoding it, and the encoding has the announced size. The two decoders accept
the same strings with the same block, and fail with the same error; the locations of the second one
delimit the encodings of the transactions, one behind the other. -/
theorem MsgBlock.codec_and_locations :
    (∀ block : MsgBlock, block.WithinLimits → ∀ rest, deserialize (block.serialize ++ rest) = .ok (block, rest) ∧
      block.serialize.length = block.serializeSize) ∧
    (∀ r, deserialize r = (deserializeTxLoc r).map fun out => (out.1.1, out.2)) ∧
    ∀ r block txLocs rest, deserializeTxLoc r = .ok ((block, txLocs), rest) →
      txLocs.length = block.transactions.length ∧
      (∀ (i : Nat) tx loc, block.transactions[i]? = some tx → txLocs[i]? = some loc →
        (r.drop loc.txStart).take loc.txLen = tx.serialize ∧ loc.txLen = tx.serializeSize ∧
        loc.txStart + loc.txLen ≤ r.length) ∧
      (∀ (i : Nat) loc next, txLocs[i]? = some loc → txLocs[i + 1]? = some next →
        next.txStart = loc.txStart + loc.txLen) ∧ txLocs.Pairwise fun a b => a.txStart + a.txLen ≤ b.txStart := by
  refine ⟨fun block hblock rest => ⟨reads_deserialize.read_write hblock rest, block.length_serialize⟩,
    deserialize_eq, fun r block txLocs rest h => ?_⟩
  obtain ⟨rfl, rfl⟩ := txLocs_of_deserializeTxLoc h
  refine ⟨length_txLocFrom _ _, fun i tx loc htx hloc => ?_,
    fun i loc next hloc hnext => txLocFrom_consecutive hloc hnext, txLocFrom_pairwise _ _⟩
  obtain ⟨hbytes, hend⟩ := txLoc_region htx hloc
  refine ⟨?_, txLen_of_txLocFrom htx hloc, ?_⟩
  · rw [drop_append_of_le_length (by omega), take_append_of_le_length, hbytes]
    rw [length_drop]
    omega
  · rw [length_append]
    omega

def Sample.twoTxBlock : MsgBlock :=
  ⟨BlockHeader.Sample.longSignatureHeader, [Sample.signedTx [1], Sample.signedTx [2, 3]]⟩

theorem MsgBlock.codec_and_locations_twoTxBlock :
    deserialize (Sample.twoTxBlock.serialize ++ [9]) = .ok (Sample.twoTxBlock, [9]) ∧
      ∃ txLocs, deserializeTxLoc (Sample.twoTxBlock.serialize ++ [9]) = .ok ((Sample.twoTxBlock, txLocs), [9]) ∧
        txLocs.length = 2 := by
  obtain ⟨hdecode, hsame, hlocs⟩ := codec_and_locations
  have hlimits : Sample.twoTxBlock.WithinLimits := by
    refine ⟨by decide, fun tx htx => ?_⟩
    obtain rfl | htx := mem_cons.mp htx
    · exact ⟨by decide, by decide, by decide, by decide⟩
    · rw [mem_singleton.mp htx]
      exact ⟨by decide, by decide, by decide, by decide⟩
  have hblock := (hdecode _ hlimits [9]).1
  refine ⟨hblock, ?_⟩
  have hmap := (hsame _).symm.trans hblock
  cases hloc : deserializeTxLoc (Sample.twoTxBlock.serialize ++ [9]) with
  | error e =>
    rw [hloc] at hmap
    cases hmap
  | ok out =>
    obtain ⟨⟨block, txLocs⟩, rest⟩ := out
    rw [hloc] at hmap
    cases hmap
    exact ⟨txLocs, rfl, (hlocs _ _ _ _ hloc).1⟩

end Prova
