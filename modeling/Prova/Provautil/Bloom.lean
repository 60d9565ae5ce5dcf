import Prova.Txscript.Standard
import Prova.Wire.MsgFilterLoad

/-!
# Bloom filters (`provautil/bloom`)

A peer loads a filter, adds data to it and has transactions matched against it. The filter is used as
the message has it: its bits are the bytes of the message and the number of hash functions is the
number in the message. What would stop the Go program, an index out of range or a division by zero, is
an error of the model.
-/

namespace Prova

open List

variable {msg : MsgFilterLoad}

namespace Bloom

inductive Panic
  | divideByZero
  | indexOutOfRange
  | nilDereference
deriving DecidableEq, Repr

/-! ### MurmurHash3 -/

def murmurC1 : UInt32 := 0xcc9e2d51
def murmurC2 : UInt32 := 0x1b873593
def murmurR1 : UInt32 := 15
def murmurR2 : UInt32 := 13
def murmurM : UInt32 := 5
def murmurN : UInt32 := 0xe6546b64

def rotate (k r : UInt32) : UInt32 := (k <<< r) ||| (k >>> (32 - r))

def scramble (k : UInt32) : UInt32 := rotate (k * murmurC1) murmurR1 * murmurC2

/-- One round over a chunk of four bytes. -/
def mixChunk (hash k : UInt32) : UInt32 := rotate (hash ^^^ scramble k) murmurR2 * murmurM + murmurN

def finalize (hash dataLen : UInt32) : UInt32 :=
  let hash := hash ^^^ dataLen
  let hash := (hash ^^^ (hash >>> 16)) * 0x85ebca6b
  let hash := (hash ^^^ (hash >>> 13)) * 0xc2b2ae35
  hash ^^^ (hash >>> 16)

def byteAt (data : Bytes) (i : UInt32) : Except Panic UInt8 :=
  match data[i.toNat]? with
  | some b => .ok b
  | none => .error .indexOutOfRange

/-- `binary.LittleEndian.Uint32(data[i:])`. -/
def uint32At (data : Bytes) (i : UInt32) : Except Panic UInt32 :=
  if i.toNat + 4 ≤ data.length then .ok (UInt32.ofNat (leNat ((data.drop i.toNat).take 4)))
  else .error .indexOutOfRange

/-- The numbers from 0 up to a limit, as the source counts them. -/
def below (n : UInt32) : List UInt32 := (List.range n.toNat).map UInt32.ofNat

/-- The bytes after the last chunk, the highest first. -/
def tailWord (data : Bytes) (tailIdx rest : UInt32) : Except Panic UInt32 :=
  (below rest).reverse.foldlM
    (fun k i => do return k ^^^ ((← byteAt data (tailIdx + i)).toUInt32 <<< (8 * i))) 0

def murmurHash3 (seed : UInt32) (data : Bytes) : Except Panic UInt32 := do
  let dataLen := UInt32.ofNat data.length
  let numBlocks := dataLen / 4
  let hash ← (below numBlocks).foldlM
    (fun hash i => do return mixChunk hash (← uint32At data (i * 4))) seed
  let rest := dataLen &&& 3
  let k ← tailWord data (numBlocks * 4) rest
  return finalize (if rest = 0 then hash else hash ^^^ scramble k) dataLen

/-! ### Filters -/

/-- A filter, or none when no message is loaded. -/
abbrev Filter : Type := Option MsgFilterLoad

def loadFilter (msg : MsgFilterLoad) : Filter := some msg

/-- The bit of the filter that belongs to some data under one hash function. -/
def hash (msg : MsgFilterLoad) (hashNum : UInt32) (data : Bytes) : Except Panic UInt32 := do
  let mm ← murmurHash3 (hashNum * 0xfba4c795 + msg.tweak) data
  let bits := UInt32.ofNat msg.filter.length <<< 3
  if bits = 0 then .error .divideByZero else .ok (mm % bits)

def bitMask (idx : UInt32) : UInt8 := 1 <<< (idx &&& 7).toUInt8

/-- The bits under the given hash functions are all set; the first one that is not ends the search. -/
def bitsSet (msg : MsgFilterLoad) (data : Bytes) : List UInt32 → Except Panic Bool
  | [] => .ok true
  | hashNum :: hashNums => do
    let idx ← hash msg hashNum data
    let b ← byteAt msg.filter (idx >>> 3)
    if b &&& bitMask idx = 0 then .ok false else bitsSet msg data hashNums

/-- `matches`. -/
def matchesData (bf : Filter) (data : Bytes) : Except Panic Bool :=
  match bf with
  | none => .ok false
  | some msg => bitsSet msg data (below msg.hashFuncs)

def setBit (data : Bytes) (msg : MsgFilterLoad) (hashNum : UInt32) : Except Panic MsgFilterLoad := do
  let idx ← hash msg hashNum data
  let b ← byteAt msg.filter (idx >>> 3)
  return { msg with filter := msg.filter.set (idx >>> 3).toNat (b ||| bitMask idx) }

def add (bf : Filter) (data : Bytes) : Except Panic Filter :=
  match bf with
  | none => .ok none
  | some msg => do return some (← (below msg.hashFuncs).foldlM (setBit data) msg)

def outPointData (outpoint : OutPoint) : Bytes := outpoint.hash.bytes ++ leBytes 4 outpoint.index.toNat

/-- `maybeAddOutpoint`. The classes that `BloomUpdateP2PubkeyOnly` asks for, `PubKeyTy` and
`MultiSigTy`, are not among those that a script is given. -/
def maybeAddOutpoint (bf : Filter) (outpoint : OutPoint) : Except Panic Filter :=
  match bf with
  | none => .error .nilDereference
  | some msg => if msg.flags = bloomUpdateAll then add bf (outPointData outpoint) else .ok bf

/-- `txscript.PushedData`: also the empty data of OP_0, but not that of OP_1 to OP_16. -/
def pushedData (script : Bytes) : Except ScriptError (List Bytes) := do
  let pops ← parseScript script
  return pops.filterMap fun pop =>
    match opLength pop.opcode with
    | .single => if pop.opcode = op0 then some [] else none
    | _ => some pop.data

/-- One of the data matches; the first one that does ends the search. -/
def anyMatches (bf : Filter) : List Bytes → Except Panic Bool
  | [] => .ok false
  | data :: rest => do if ← matchesData bf data then .ok true else anyMatches bf rest

/-- One output: the filter after it, and whether a match was made by then. -/
def matchTxOut (txHash : Hash) (state : Filter × Bool) (out : TxOut × Nat) :
    Except Panic (Filter × Bool) :=
  match pushedData out.1.pkScript with
  | .error _ => .ok state
  | .ok pushed => do
    if ← anyMatches state.1 pushed then
      return (← maybeAddOutpoint state.1 ⟨txHash, UInt32.ofNat out.2⟩, true)
    else return state

/-- The inputs in order, until one matches. -/
def anyTxInMatches (bf : Filter) : List TxIn → Except Panic Bool
  | [] => .ok false
  | ti :: rest => do
    if ← matchesData bf (outPointData ti.previousOutPoint) then return true
    match pushedData ti.signatureScript with
    | .error _ => anyTxInMatches bf rest
    | .ok pushed => if ← anyMatches bf pushed then return true else anyTxInMatches bf rest

def matchTxAndUpdate (c : Crypto) (bf : Filter) (tx : MsgTx) : Except Panic (Filter × Bool) := do
  let txHash := tx.txHash c
  let matched ← matchesData bf txHash.bytes
  let (bf, matched) ← tx.txOut.zipIdx.foldlM (matchTxOut txHash) (bf, matched)
  if matched then return (bf, true)
  return (bf, ← anyTxInMatches bf tx.txIn)

/-! ### Runs -/

inductive Call
  | add (data : Bytes)
  | matchesData (data : Bytes)
  | matchTxAndUpdate (tx : MsgTx)

/-- One call: the filter after it, and the answer of a match. -/
def Call.apply (c : Crypto) (bf : Filter) : Call → Except Panic (Filter × Option Bool)
  | .add data => do return (← Bloom.add bf data, none)
  | .matchesData data => do return (bf, some (← Bloom.matchesData bf data))
  | .matchTxAndUpdate tx => do
    let (bf, matched) ← Bloom.matchTxAndUpdate c bf tx
    return (bf, some matched)

def run (c : Crypto) : Filter → List Call → Except Panic (List (Option Bool))
  | _, [] => .ok []
  | bf, call :: calls => do
    let (bf, answer) ← call.apply c bf
    return answer :: (← run c bf calls)

/-! ### Panics -/

theorem mem_below {n i : UInt32} (h : i ∈ below n) : i.toNat < n.toNat := by
  obtain ⟨j, hj, rfl⟩ := mem_map.mp h
  rw [mem_range] at hj
  have hn := n.toNat_lt
  rw [UInt32.toNat_ofNat']
  omega

theorem exists_byteAt {data : Bytes} {i : UInt32} (h : i.toNat < data.length) :
    ∃ b, byteAt data i = .ok b := by
  unfold byteAt
  rw [getElem?_eq_getElem h]
  exact ⟨_, rfl⟩

theorem exists_foldlM {ε σ α : Type} {f : σ → α → Except ε σ} {l : List α} (Inv : σ → Prop)
    (hstep : ∀ s, Inv s → ∀ a ∈ l, ∃ s', f s a = .ok s' ∧ Inv s') (s : σ) (hs : Inv s) :
    ∃ s', l.foldlM f s = .ok s' ∧ Inv s' := by
  induction l generalizing s with
  | nil => exact ⟨s, rfl, hs⟩
  | cons a l ih =>
    obtain ⟨s₁, hf, hs₁⟩ := hstep s hs a mem_cons_self
    obtain ⟨s₂, hl, hs₂⟩ := ih (fun s hs b hb => hstep s hs b (mem_cons_of_mem a hb)) s₁ hs₁
    exact ⟨s₂, by rw [foldlM_cons, hf]; exact hl, hs₂⟩

/-- The hash of any data is computed without an access past its end. The length the source works with
is the one of 32 bits, which is never more than the real one. -/
theorem exists_murmurHash3 (seed : UInt32) (data : Bytes) : ∃ h, murmurHash3 seed data = .ok h := by
  have hlen : (UInt32.ofNat data.length).toNat ≤ data.length := by
    rw [UInt32.toNat_ofNat']
    exact Nat.mod_le _ _
  have hdata := (UInt32.ofNat data.length).toNat_lt
  obtain ⟨dataLen, hdataLen⟩ : ∃ n, n = UInt32.ofNat data.length := ⟨_, rfl⟩
  rw [← hdataLen] at hlen hdata
  have hblocks : (dataLen / 4).toNat = dataLen.toNat / 4 := UInt32.toNat_div ..
  have hrest : (dataLen &&& 3).toNat = dataLen.toNat % 4 := by
    rw [UInt32.toNat_and]
    exact Nat.and_two_pow_sub_one_eq_mod _ 2
  obtain ⟨hash, hhash, -⟩ : ∃ hash, (below (dataLen / 4)).foldlM
      (fun hash i => do return mixChunk hash (← uint32At data (i * 4))) seed = .ok hash ∧ True := by
    refine exists_foldlM (fun _ => True) (fun s _ i hi => ?_) seed trivial
    have hi := mem_below hi
    have hmul : (i * 4).toNat = i.toNat * 4 := by
      rw [UInt32.toNat_mul]
      exact Nat.mod_eq_of_lt (by change i.toNat * 4 < 4294967296; omega)
    have hat : uint32At data (i * 4) = .ok (UInt32.ofNat (leNat ((data.drop (i * 4).toNat).take 4))) := by
      rw [uint32At, if_pos (by omega)]
    exact ⟨_, by rw [hat]; rfl, trivial⟩
  obtain ⟨k, hk, -⟩ : ∃ k, tailWord data (dataLen / 4 * 4) (dataLen &&& 3) = .ok k ∧ True := by
    refine exists_foldlM (fun _ => True) (fun s _ i hi => ?_) 0 trivial
    have hi := mem_below (mem_reverse.mp hi)
    have hadd : (dataLen / 4 * 4 + i).toNat = dataLen.toNat / 4 * 4 + i.toNat := by
      rw [UInt32.toNat_add, UInt32.toNat_mul, hblocks]
      change (dataLen.toNat / 4 * 4 % 4294967296 + i.toNat) % 4294967296 = _
      omega
    obtain ⟨b, hb⟩ : ∃ b, byteAt data (dataLen / 4 * 4 + i) = .ok b := exists_byteAt (by omega)
    exact ⟨_, by rw [hb]; rfl, trivial⟩
  simp only [murmurHash3, ← hdataLen]
  rw [hhash, ok_bind, hk, ok_bind]
  exact ⟨_, rfl⟩

/-- What the functions on a filter need of the message: bits to set, unless there is no hash function. -/
def Ready (msg : MsgFilterLoad) : Prop :=
  msg.hashFuncs = 0 ∨ (msg.filter ≠ [] ∧ msg.filter.length ≤ maxFilterLoadFilterSize)

def Usable (bf : Filter) : Prop := ∀ msg ∈ bf, Ready msg

theorem exists_hash (hne : msg.filter ≠ []) (hlen : msg.filter.length ≤ maxFilterLoadFilterSize)
    (hashNum : UInt32) (data : Bytes) :
    ∃ idx, hash msg hashNum data = .ok idx ∧ (idx >>> 3).toNat < msg.filter.length := by
  obtain ⟨mm, hmm⟩ := exists_murmurHash3 (hashNum * 0xfba4c795 + msg.tweak) data
  have hpos : 0 < msg.filter.length := length_pos_iff.mpr hne
  have hbound : msg.filter.length ≤ 36000 := hlen
  have hbits : (UInt32.ofNat msg.filter.length <<< 3).toNat = msg.filter.length * 8 := by
    rw [UInt32.toNat_shiftLeft, UInt32.toNat_ofNat', Nat.shiftLeft_eq]
    change msg.filter.length % 4294967296 * 2 ^ 3 % 4294967296 = _
    omega
  have hzero : ¬ UInt32.ofNat msg.filter.length <<< 3 = 0 := by
    intro h
    rw [h] at hbits
    change 0 = msg.filter.length * 8 at hbits
    omega
  refine ⟨mm % (UInt32.ofNat msg.filter.length <<< 3), ?_, ?_⟩
  · simp only [hash, hmm, ok_bind, if_neg hzero]
  · rw [UInt32.toNat_shiftRight, UInt32.toNat_mod, hbits, Nat.shiftRight_eq_div_pow]
    have hmod := Nat.mod_lt mm.toNat (show 0 < msg.filter.length * 8 by omega)
    change mm.toNat % (msg.filter.length * 8) / 2 ^ 3 < _
    omega

theorem exists_bitsSet (hne : msg.filter ≠ []) (hlen : msg.filter.length ≤ maxFilterLoadFilterSize)
    (data : Bytes) (hashNums : List UInt32) :
    ∃ answer, bitsSet msg data hashNums = .ok answer := by
  induction hashNums with
  | nil => exact ⟨true, rfl⟩
  | cons hashNum hashNums ih =>
    obtain ⟨idx, hidx, hlt⟩ := exists_hash hne hlen hashNum data
    obtain ⟨b, hb⟩ := exists_byteAt hlt
    obtain ⟨answer, ih⟩ := ih
    simp only [bitsSet, hidx, ok_bind, hb]
    by_cases hbit : b &&& bitMask idx = 0
    · exact ⟨false, if_pos hbit⟩
    · exact ⟨answer, (if_neg hbit).trans ih⟩

theorem exists_matchesData {bf : Filter} (h : Usable bf) (data : Bytes) :
    ∃ answer, matchesData bf data = .ok answer := by
  cases bf with
  | none => exact ⟨false, rfl⟩
  | some msg =>
    show ∃ answer, bitsSet msg data (below msg.hashFuncs) = .ok answer
    obtain hzero | ⟨hne, hlen⟩ := h msg rfl
    · rw [hzero]
      exact ⟨true, rfl⟩
    · exact exists_bitsSet hne hlen data _

theorem exists_setBit (hne : msg.filter ≠ []) (hlen : msg.filter.length ≤ maxFilterLoadFilterSize)
    (data : Bytes) (hashNum : UInt32) :
    ∃ msg', setBit data msg hashNum = .ok msg' ∧ msg'.filter ≠ [] ∧
      msg'.filter.length ≤ maxFilterLoadFilterSize := by
  obtain ⟨idx, hidx, hlt⟩ := exists_hash hne hlen hashNum data
  obtain ⟨b, hb⟩ := exists_byteAt hlt
  refine ⟨{ msg with filter := msg.filter.set (idx >>> 3).toNat (b ||| bitMask idx) }, ?_, ?_, ?_⟩
  · simp only [setBit, hidx, ok_bind, hb]
    rfl
  · simpa using hne
  · simpa using hlen

theorem exists_add {bf : Filter} (h : Usable bf) (data : Bytes) :
    ∃ bf', add bf data = .ok bf' ∧ Usable bf' := by
  cases bf with
  | none => exact ⟨none, rfl, h⟩
  | some msg =>
    show ∃ bf', (do return some (← (below msg.hashFuncs).foldlM (setBit data) msg)) = .ok bf' ∧ _
    obtain hzero | ⟨hne, hlen⟩ := h msg rfl
    · rw [hzero]
      exact ⟨some msg, rfl, h⟩
    · obtain ⟨msg', hfold, hready⟩ := exists_foldlM
        (fun msg : MsgFilterLoad => msg.filter ≠ [] ∧ msg.filter.length ≤ maxFilterLoadFilterSize)
        (fun msg hmsg hashNum (_ : hashNum ∈ below _) => exists_setBit hmsg.1 hmsg.2 data hashNum)
        msg ⟨hne, hlen⟩
      refine ⟨some msg', by rw [hfold]; rfl, ?_⟩
      intro msg'' hmem
      obtain rfl : msg' = msg'' := Option.some.inj hmem
      exact .inr hready

theorem exists_anyMatches {bf : Filter} (h : Usable bf) (pushed : List Bytes) :
    ∃ answer, anyMatches bf pushed = .ok answer := by
  induction pushed with
  | nil => exact ⟨false, rfl⟩
  | cons data rest ih =>
    obtain ⟨answer, hanswer⟩ := exists_matchesData h data
    simp only [anyMatches, hanswer, ok_bind]
    cases answer with
    | true => exact ⟨true, rfl⟩
    | false => exact ih

theorem isSome_of_anyMatches {bf : Filter} {pushed : List Bytes}
    (h : anyMatches bf pushed = .ok true) : bf.isSome := by
  cases bf with
  | some msg => rfl
  | none =>
    induction pushed with
    | nil => cases h
    | cons data rest ih => exact ih h

theorem exists_matchTxOut {state : Filter × Bool} (h : Usable state.1) (txHash : Hash)
    (out : TxOut × Nat) :
    ∃ state', matchTxOut txHash state out = .ok state' ∧ Usable state'.1 := by
  unfold matchTxOut
  cases pushedData out.1.pkScript with
  | error e => exact ⟨state, rfl, h⟩
  | ok pushed =>
    obtain ⟨answer, hanswer⟩ := exists_anyMatches h pushed
    simp only [hanswer, ok_bind]
    cases answer with
    | false => exact ⟨state, rfl, h⟩
    | true =>
      obtain ⟨msg, hmsg⟩ := Option.isSome_iff_exists.mp (isSome_of_anyMatches hanswer)
      simp only [if_true, maybeAddOutpoint, hmsg]
      rw [hmsg] at h
      by_cases hall : msg.flags = bloomUpdateAll
      · obtain ⟨bf', hadd, husable⟩ := exists_add h (outPointData ⟨txHash, UInt32.ofNat out.2⟩)
        exact ⟨(bf', true), by rw [if_pos hall, hadd]; rfl, husable⟩
      · exact ⟨(some msg, true), by rw [if_neg hall]; rfl, h⟩

theorem exists_anyTxInMatches {bf : Filter} (h : Usable bf) (txIn : List TxIn) :
    ∃ answer, anyTxInMatches bf txIn = .ok answer := by
  induction txIn with
  | nil => exact ⟨false, rfl⟩
  | cons ti rest ih =>
    obtain ⟨answer, hanswer⟩ := exists_matchesData h (outPointData ti.previousOutPoint)
    simp only [anyTxInMatches, hanswer, ok_bind]
    cases answer with
    | true => exact ⟨true, rfl⟩
    | false =>
      cases pushedData ti.signatureScript with
      | error e => exact ih
      | ok pushed =>
        obtain ⟨answer', hanswer'⟩ := exists_anyMatches h pushed
        simp only [hanswer']
        cases answer' with
        | true => exact ⟨true, rfl⟩
        | false => exact ih

theorem exists_matchTxAndUpdate {bf : Filter} (h : Usable bf) (c : Crypto) (tx : MsgTx) :
    ∃ bf' answer, matchTxAndUpdate c bf tx = .ok (bf', answer) ∧ Usable bf' := by
  obtain ⟨matched, hmatched⟩ := exists_matchesData h (tx.txHash c).bytes
  obtain ⟨⟨bf', matched'⟩, houts, husable⟩ := exists_foldlM
    (f := matchTxOut (tx.txHash c)) (l := tx.txOut.zipIdx) (fun state => Usable state.1)
    (fun state hstate out _ => exists_matchTxOut hstate (tx.txHash c) out) (bf, matched) h
  obtain ⟨answer, hanswer⟩ := exists_anyTxInMatches husable tx.txIn
  simp only [matchTxAndUpdate, hmatched, ok_bind, houts]
  cases matched' with
  | true => exact ⟨bf', true, rfl, husable⟩
  | false => exact ⟨bf', answer, by simp only [hanswer]; rfl, husable⟩

theorem exists_apply {bf : Filter} (h : Usable bf) (c : Crypto) (call : Call) :
    ∃ bf' answer, call.apply c bf = .ok (bf', answer) ∧ Usable bf' := by
  cases call with
  | add data =>
    obtain ⟨bf', hadd, husable⟩ := exists_add h data
    exact ⟨bf', none, by simp only [Call.apply, hadd]; rfl, husable⟩
  | matchesData data =>
    obtain ⟨answer, hanswer⟩ := exists_matchesData h data
    exact ⟨bf, some answer, by simp only [Call.apply, hanswer]; rfl, h⟩
  | matchTxAndUpdate tx =>
    obtain ⟨bf', answer, hmatch, husable⟩ := exists_matchTxAndUpdate h c tx
    exact ⟨bf', some answer, by simp only [Call.apply, hmatch]; rfl, husable⟩

theorem exists_run (c : Crypto) (calls : List Call) :
    ∀ bf : Filter, Usable bf → ∃ answers, run c bf calls = .ok answers := by
  induction calls with
  | nil => exact fun _ _ => ⟨[], rfl⟩
  | cons call calls ih =>
    intro bf h
    obtain ⟨bf', answer, hcall, husable⟩ := exists_apply h c call
    obtain ⟨answers, hrun⟩ := ih bf' husable
    exact ⟨answer :: answers, by simp only [run, hcall, ok_bind, hrun]; rfl⟩

theorem matchesData_empty (hempty : msg.filter = []) (hfuncs : msg.hashFuncs ≠ 0) (data : Bytes) :
    matchesData (some msg) data = .error .divideByZero := by
  obtain ⟨mm, hmm⟩ := exists_murmurHash3 ((0 : UInt32) * 0xfba4c795 + msg.tweak) data
  have hpos : msg.hashFuncs.toNat ≠ 0 := fun h => hfuncs (UInt32.toNat_inj.mp h)
  obtain ⟨n, hn⟩ : ∃ n, msg.hashFuncs.toNat = n + 1 := ⟨msg.hashFuncs.toNat - 1, by omega⟩
  have hbelow : below msg.hashFuncs = 0 :: (range n).map fun i => UInt32.ofNat (i + 1) := by
    rw [below, hn, range_succ_eq_map, map_cons, map_map]
    rfl
  have hhash : hash msg 0 data = .error .divideByZero := by
    simp only [hash, hmm, ok_bind, hempty]
    rfl
  simp only [matchesData, hbelow, bitsSet, hhash]
  rfl

/-- The calls on a filter from a decoded message never panic, in any sequence, exactly if the message has
a byte of filter or asks for no hash function. -/
theorem calls_never_panic_iff {c : Crypto} {pver : UInt32} {payload rest : Bytes} {msg : MsgFilterLoad}
    (hdecode : MsgFilterLoad.btcDecode pver payload = .ok (msg, rest)) :
    (∀ calls : List Call, ∃ answers, run c (loadFilter msg) calls = .ok answers) ↔
      msg.filter ≠ [] ∨ msg.hashFuncs = 0 := by
  constructor
  · intro hcalls
    by_contra hnot
    obtain ⟨hempty, hfuncs⟩ : msg.filter = [] ∧ msg.hashFuncs ≠ 0 := by simpa using hnot
    obtain ⟨answers, hrun⟩ := hcalls [.matchesData []]
    simp only [run, Call.apply, loadFilter, matchesData_empty hempty hfuncs] at hrun
    cases hrun
  · intro hmsg calls
    refine exists_run c calls (loadFilter msg) ?_
    intro msg' hmem
    obtain rfl : msg = msg' := Option.some.inj hmem
    obtain hne | hzero := hmsg
    · exact .inr ⟨hne, MsgFilterLoad.length_filter_of_btcDecode hdecode⟩
    · exact .inl hzero

/-- Hash functions that tell nothing apart, for the runs below. -/
def blindCrypto : Crypto := ⟨fun _ => 0, fun _ => 0, fun _ => 0, fun _ => 0, fun _ _ _ _ => false⟩

theorem calls_never_panic_iff_oneByte :
    MsgFilterLoad.btcDecode 70001 [0x01, 0xb5, 0x0b, 0, 0, 0, 0, 0, 0, 0, 0x01]
      = .ok (⟨[0xb5], 11, 0, 1⟩, []) ∧
    ∀ calls : List Call, ∃ answers, run blindCrypto (loadFilter ⟨[0xb5], 11, 0, 1⟩) calls = .ok answers :=
  have hdecode : MsgFilterLoad.btcDecode 70001 [0x01, 0xb5, 0x0b, 0, 0, 0, 0, 0, 0, 0, 0x01]
      = .ok (⟨[0xb5], 11, 0, 1⟩, []) := by decide
  ⟨hdecode, (calls_never_panic_iff hdecode).mpr (.inl (by decide))⟩

/-- A message with no byte of filter and one hash function is accepted, and both looking for data in the
filter and adding data to it divide by zero. -/
theorem empty_filter_panics :
    MsgFilterLoad.btcDecode 70001 [0x00, 0x01, 0, 0, 0, 0, 0, 0, 0, 0x00] = .ok (⟨[], 1, 0, 0⟩, []) ∧
    run blindCrypto (loadFilter ⟨[], 1, 0, 0⟩) [.matchesData [0x61]] = .error .divideByZero ∧
    run blindCrypto (loadFilter ⟨[], 1, 0, 0⟩) [.add [0x61]] = .error .divideByZero := by
  refine ⟨by decide, ?_, ?_⟩ <;> decide

end Bloom

end Prova
