import Prova.Txscript.SigHash

/-!
# The parts of a digest that are shared by the inputs (`txscript/hashcache.go`)

The new digest hashes the outpoints, the sequence numbers and the outputs of a transaction once for all
its inputs. The three hashes are kept under the hash of the transaction, which leaves the signature
scripts out as the digest does. Where the hash function does not collide the digest determines the
transaction up to signature scripts, and the input that is signed up to its place.
-/

namespace Prova

open List MsgTx

structure TxSigHashes where
  hashPrevOuts : Hash
  hashSequence : Hash
  hashOutputs : Hash
deriving DecidableEq

def newTxSigHashes (c : Crypto) (tx : MsgTx) : TxSigHashes :=
  ⟨calcHashPrevOuts c tx, calcHashSequence c tx, calcHashOutputs c tx⟩

/-- What the digest of an input is the hash of. -/
def sigHashData (sigHashes : TxSigHashes) (hashType : SigHashType) (tx : MsgTx) (ti : TxIn)
    (amt : Int64) : Bytes :=
  leBytes 4 tx.version.toUInt32.toNat ++ sigHashes.hashPrevOuts.bytes ++ sigHashes.hashSequence.bytes ++
    writeOutPoint ti.previousOutPoint ++ leBytes 8 amt.toUInt64.toNat ++ leBytes 4 ti.sequence.toNat ++
    sigHashes.hashOutputs.bytes ++ leBytes 4 tx.lockTime.toNat ++ leBytes 4 hashType.toNat

/-- `calcSignatureHashNew` with the hashes that it is given. -/
def calcSignatureHashWith (c : Crypto) (sigHashes : TxSigHashes) (hashType : SigHashType) (tx : MsgTx)
    (idx : Nat) (amt : Int64) : Bytes :=
  match tx.txIn[idx]? with
  | none => []
  | some ti => (c.doubleHashH (sigHashData sigHashes hashType tx ti amt)).bytes

theorem calcSignatureHashWith_new (c : Crypto) (hashType : SigHashType) (tx : MsgTx) (idx : Nat) (amt : Int64) :
    calcSignatureHashWith c (newTxSigHashes c tx) hashType tx idx amt
      = calcSignatureHashNew c hashType tx idx amt := rfl

/-! ### The cache -/

abbrev HashCache : Type := Hash → Option TxSigHashes

namespace HashCache

def empty : HashCache := fun _ => none

def addSigHashes (c : Crypto) (h : HashCache) (tx : MsgTx) : HashCache :=
  Function.update h (tx.txHash c) (some (newTxSigHashes c tx))

def getSigHashes (h : HashCache) (txid : Hash) : Option TxSigHashes := h txid

def purgeSigHashes (h : HashCache) (txid : Hash) : HashCache := Function.update h txid none

inductive Op
  | add (tx : MsgTx)
  | purge (txid : Hash)

def apply (c : Crypto) (h : HashCache) : Op → HashCache
  | .add tx => h.addSigHashes c tx
  | .purge txid => h.purgeSigHashes txid

def added (ops : List Op) : List MsgTx :=
  ops.filterMap fun
    | .add tx => some tx
    | .purge _ => none

end HashCache

/-! ### What is signed -/

/-- No two of the strings have the same hash. -/
def CollisionFree (c : Crypto) (strings : List Bytes) : Prop :=
  ∀ a ∈ strings, ∀ b ∈ strings, c.doubleHashH a = c.doubleHashH b → a = b

instance (c : Crypto) (strings : List Bytes) : Decidable (CollisionFree c strings) :=
  inferInstanceAs (Decidable (∀ a ∈ strings, ∀ b ∈ strings, c.doubleHashH a = c.doubleHashH b → a = b))

/-- The strings that are hashed for the digest of an input and for the hash of its transaction. -/
def hashedStrings (c : Crypto) (hashType : SigHashType) (tx : MsgTx) (ti : TxIn) (amt : Int64) :
    List Bytes :=
  [tx.txIn.flatMap fun ti => writeOutPoint ti.previousOutPoint,
    tx.txIn.flatMap fun ti => leBytes 4 ti.sequence.toNat,
    tx.txOut.flatMap writeTxOut,
    tx.serializeStripped,
    sigHashData (newTxSigHashes c tx) hashType tx ti amt]

theorem CollisionFree.mono {c : Crypto} {l l' : List Bytes} (h : CollisionFree c l') (hsub : l ⊆ l') :
    CollisionFree c l := fun a ha b hb => h a (hsub ha) b (hsub hb)

section Digest

variable {c : Crypto} {hashType hashType' : SigHashType} {tx tx' : MsgTx} {ti ti' : TxIn}
  {amt amt' : Int64}

theorem sigHashData_inj {sh sh' : TxSigHashes}
    (h : sigHashData sh hashType tx ti amt = sigHashData sh' hashType' tx' ti' amt') :
    tx.version = tx'.version ∧ sh = sh' ∧ ti.stripped = ti'.stripped ∧ amt = amt' ∧
      tx.lockTime = tx'.lockTime ∧ hashType = hashType' := by
  simp only [sigHashData, append_assoc] at h
  obtain ⟨hversion, h⟩ := append_inj h (by simp)
  obtain ⟨hprev, h⟩ := append_inj h (by simp)
  obtain ⟨hseq, h⟩ := append_inj h (by simp)
  obtain ⟨hop, h⟩ := prefixCode_writeOutPoint _ _ _ _ trivial trivial h
  obtain ⟨hamt, h⟩ := append_inj h (by simp)
  obtain ⟨hsequence, h⟩ := append_inj h (by simp)
  obtain ⟨hout, h⟩ := append_inj h (by simp)
  obtain ⟨hlock, htype⟩ := append_inj h (by simp)
  have hamount : amt = amt' := by
    have hnat := leBytes_inj (lt_of_lt_of_eq amt.toUInt64.toNat_lt (by norm_num))
      (lt_of_lt_of_eq amt'.toUInt64.toNat_lt (by norm_num)) hamt
    simpa using congrArg UInt64.toInt64 (UInt64.toNat_inj.mp hnat)
  have hsh : sh = sh' := by
    cases sh
    cases sh'
    simp only [TxSigHashes.mk.injEq]
    exact ⟨Hash.bytes_injective hprev, Hash.bytes_injective hseq, Hash.bytes_injective hout⟩
  exact ⟨int32_toUInt32_toNat_inj hversion, hsh, Prod.ext hop (uint32_leBytes_inj hsequence), hamount,
    uint32_leBytes_inj hlock, uint32_leBytes_inj htype⟩

theorem stripped_of_newTxSigHashes (hb : tx.Bounded) (hb' : tx'.Bounded)
    (hfree : CollisionFree c (hashedStrings c hashType tx ti amt ++ hashedStrings c hashType' tx' ti' amt'))
    (h : newTxSigHashes c tx = newTxSigHashes c tx') :
    tx.txIn.map TxIn.stripped = tx'.txIn.map TxIn.stripped ∧ tx.txOut = tx'.txOut := by
  simp only [newTxSigHashes, TxSigHashes.mk.injEq] at h
  obtain ⟨hprev, hseq, hout⟩ := h
  have hprev := hfree _ (by simp [hashedStrings]) _ (by simp [hashedStrings]) hprev
  have hseq := hfree _ (by simp [hashedStrings]) _ (by simp [hashedStrings]) hseq
  have hout := hfree _ (by simp [hashedStrings]) _ (by simp [hashedStrings]) hout
  have hops : tx.txIn.map TxIn.previousOutPoint = tx'.txIn.map TxIn.previousOutPoint := by
    refine prefixCode_writeOutPoint.flatMap_inj (fun op hnil => ?_) (fun _ _ => trivial)
      (fun _ _ => trivial) (by rw [flatMap_map, flatMap_map]; exact hprev)
    simpa [writeOutPoint] using congrArg List.length hnil
  have hseqs : tx.txIn.map TxIn.sequence = tx'.txIn.map TxIn.sequence := by
    have hcode : PrefixCode (fun _ : UInt32 => True) fun s => leBytes 4 s.toNat :=
      PrefixCode.of_length 4 (fun _ => length_leBytes 4 _) fun _ _ _ _ => uint32_leBytes_inj
    refine hcode.flatMap_inj (fun s hnil => ?_) (fun _ _ => trivial) (fun _ _ => trivial)
      (by rw [flatMap_map, flatMap_map]; exact hseq)
    simpa using congrArg List.length hnil
  have houts : tx.txOut = tx'.txOut := by
    refine prefixCode_writeTxOut.flatMap_inj (fun out hnil => ?_) hb.2.2 hb'.2.2 hout
    simpa [writeTxOut] using congrArg List.length hnil
  refine ⟨?_, houts⟩
  have hzip : ∀ l : List TxIn, l.map TxIn.stripped
      = (l.map TxIn.previousOutPoint).zip (l.map TxIn.sequence) := fun l => by
    rw [zip_map']
    rfl
  rw [hzip, hzip, hops, hseqs]

theorem newTxSigHashes_congr (h : tx.stripped = tx'.stripped) : newTxSigHashes c tx = newTxSigHashes c tx' := by
  simp only [stripped, Prod.mk.injEq] at h
  obtain ⟨-, hin, hout, -⟩ := h
  have hprev : (tx.txIn.flatMap fun ti => writeOutPoint ti.previousOutPoint)
      = tx'.txIn.flatMap fun ti => writeOutPoint ti.previousOutPoint := by
    have hmap := congrArg (List.flatMap fun p : OutPoint × UInt32 => writeOutPoint p.1) hin
    simpa only [flatMap_map, TxIn.stripped] using hmap
  have hseq : (tx.txIn.flatMap fun ti => leBytes 4 ti.sequence.toNat)
      = tx'.txIn.flatMap fun ti => leBytes 4 ti.sequence.toNat := by
    have hmap := congrArg (List.flatMap fun p : OutPoint × UInt32 => leBytes 4 p.2.toNat) hin
    simpa only [flatMap_map, TxIn.stripped] using hmap
  rw [newTxSigHashes, newTxSigHashes, calcHashPrevOuts, calcHashPrevOuts, calcHashSequence,
    calcHashSequence, calcHashOutputs, calcHashOutputs, hprev, hseq, hout]

theorem stripped_of_txHash (hb : tx.Bounded) (hb' : tx'.Bounded)
    (hfree : CollisionFree c [tx.serializeStripped, tx'.serializeStripped])
    (h : tx.txHash c = tx'.txHash c) : tx.stripped = tx'.stripped :=
  stripped_eq_of_serializeStripped hb hb' (hfree _ (by simp) _ (by simp) h)

/-- Two digests are the same exactly if the transactions have the same hash and the signed inputs agree
in outpoint and sequence number, the amounts agree and the hash types agree. -/
theorem calcSignatureHashNew_eq_iff {idx idx' : Nat} (hti : tx.txIn[idx]? = some ti)
    (hti' : tx'.txIn[idx']? = some ti') (hb : tx.Bounded) (hb' : tx'.Bounded) (hfree : CollisionFree c
      (hashedStrings c hashType tx ti amt ++ hashedStrings c hashType' tx' ti' amt')) :
    calcSignatureHashNew c hashType tx idx amt = calcSignatureHashNew c hashType' tx' idx' amt' ↔
      tx.txHash c = tx'.txHash c ∧ ti.stripped = ti'.stripped ∧ amt = amt' ∧ hashType = hashType' := by
  have hdigest : calcSignatureHashNew c hashType tx idx amt
      = (c.doubleHashH (sigHashData (newTxSigHashes c tx) hashType tx ti amt)).bytes := by
    simp only [← calcSignatureHashWith_new, calcSignatureHashWith, hti]
  have hdigest' : calcSignatureHashNew c hashType' tx' idx' amt'
      = (c.doubleHashH (sigHashData (newTxSigHashes c tx') hashType' tx' ti' amt')).bytes := by
    simp only [← calcSignatureHashWith_new, calcSignatureHashWith, hti']
  rw [hdigest, hdigest']
  constructor
  · intro h
    have hdata := hfree _ (by simp [hashedStrings]) _ (by simp [hashedStrings])
      (Hash.bytes_injective h)
    obtain ⟨hversion, hsh, hsigned, hamt, hlock, htype⟩ := sigHashData_inj hdata
    obtain ⟨hin, hout⟩ := stripped_of_newTxSigHashes hb hb' hfree hsh
    refine ⟨?_, hsigned, hamt, htype⟩
    have hstripped : tx.stripped = tx'.stripped := by
      rw [stripped, stripped, hversion, hin, hout, hlock]
    rw [txHash, txHash, serializeStripped_congr hstripped]
  · rintro ⟨hhash, hsigned, rfl, rfl⟩
    have hstripped := stripped_of_txHash hb hb' (hfree.mono (by simp [hashedStrings])) hhash
    have hsh : newTxSigHashes c tx = newTxSigHashes c tx' := newTxSigHashes_congr hstripped
    simp only [stripped, Prod.mk.injEq] at hstripped
    simp only [TxIn.stripped, Prod.mk.injEq] at hsigned
    simp only [sigHashData, hsh, hstripped.1, hstripped.2.2.2, hsigned]

/-- Where no outpoint is spent twice the place of an input, and with it the sequence number, follows from
the outpoint. -/
theorem stripped_of_previousOutPoint {idx idx' : Nat} (hti : tx.txIn[idx]? = some ti)
    (hti' : tx'.txIn[idx']? = some ti') (hnodup : tx.prevOuts.Nodup) (h : tx.stripped = tx'.stripped)
    (hop : ti.previousOutPoint = ti'.previousOutPoint) : ti.stripped = ti'.stripped := by
  simp only [stripped, Prod.mk.injEq] at h
  have hsame : (tx.txIn.map TxIn.stripped)[idx']? = some ti'.stripped := by
    rw [h.2.1, getElem?_map, hti']
    rfl
  have hhere : (tx.txIn.map TxIn.stripped)[idx]? = some ti.stripped := by
    rw [getElem?_map, hti]
    rfl
  have hprev : tx.prevOuts = (tx.txIn.map TxIn.stripped).map Prod.fst := by
    rw [map_map]
    rfl
  have hidx : idx = idx' := by
    have hlt : idx < tx.prevOuts.length := by
      have hlen := (List.getElem?_eq_some_iff.mp hti).1
      simpa [prevOuts] using hlen
    refine (getElem?_inj hlt hnodup).mp ?_
    rw [hprev, getElem?_map, hhere, getElem?_map, hsame]
    exact congrArg some hop
  subst hidx
  exact Option.some.inj (hhere.symm.trans hsame)

end Digest

/-! ### What the cache holds -/

namespace HashCache

theorem exists_added_of_run (c : Crypto) (ops : List Op) {txid : Hash} {sigHashes : TxSigHashes}
    (h : (ops.foldl (apply c) empty).getSigHashes txid = some sigHashes) :
    ∃ tx ∈ added ops, tx.txHash c = txid ∧ sigHashes = newTxSigHashes c tx := by
  induction ops using List.reverseRecOn with
  | nil => cases h
  | append_singleton ops op ih =>
    rw [foldl_append, foldl_cons, foldl_nil] at h
    have hkept : (ops.foldl (apply c) empty).getSigHashes txid = some sigHashes →
        ∃ tx ∈ added (ops ++ [op]), tx.txHash c = txid ∧ sigHashes = newTxSigHashes c tx := by
      intro hold
      obtain ⟨tx, hmem, htx⟩ := ih hold
      exact ⟨tx, by rw [added, filterMap_append]; exact mem_append_left _ hmem, htx⟩
    cases op with
    | add tx =>
      by_cases hid : txid = tx.txHash c
      · subst hid
        rw [getSigHashes, apply, addSigHashes, Function.update_self, Option.some.injEq] at h
        exact ⟨tx, by simp [added], rfl, h.symm⟩
      · rw [getSigHashes, apply, addSigHashes, Function.update_of_ne hid] at h
        exact hkept h
    | purge id =>
      by_cases hid : txid = id
      · subst hid
        rw [getSigHashes, apply, purgeSigHashes, Function.update_self] at h
        cases h
      · rw [getSigHashes, apply, purgeSigHashes, Function.update_of_ne hid] at h
        exact hkept h

end HashCache

/-- Two digests of `calcSignatureHashNew` agree exactly if the transactions have the same hash and
outpoint, sequence number, amount and hash type of what is signed agree. The sequence number has to be
named only where the transaction spends an outpoint twice. What a `HashCache` gives for the hash of a
transaction is what belongs to that transaction. -/
theorem calcSignatureHashNew_commits (c : Crypto) (hashType hashType' : SigHashType) (tx tx' : MsgTx)
    (idx idx' : Nat) (ti ti' : TxIn) (amt amt' : Int64) (hti : tx.txIn[idx]? = some ti)
    (hti' : tx'.txIn[idx']? = some ti') (hb : tx.Bounded) (hb' : tx'.Bounded) (hfree : CollisionFree c
      (hashedStrings c hashType tx ti amt ++ hashedStrings c hashType' tx' ti' amt')) :
    (calcSignatureHashNew c hashType tx idx amt = calcSignatureHashNew c hashType' tx' idx' amt' ↔
      tx.txHash c = tx'.txHash c ∧ ti.previousOutPoint = ti'.previousOutPoint ∧
        ti.sequence = ti'.sequence ∧ amt = amt' ∧ hashType = hashType') ∧ (tx.prevOuts.Nodup →
      (calcSignatureHashNew c hashType tx idx amt = calcSignatureHashNew c hashType' tx' idx' amt' ↔
        tx.txHash c = tx'.txHash c ∧ ti.previousOutPoint = ti'.previousOutPoint ∧ amt = amt' ∧ hashType = hashType')) ∧
    ∀ ops : List HashCache.Op, (∀ t ∈ HashCache.added ops, t.Bounded) →
      CollisionFree c ((tx :: HashCache.added ops).map MsgTx.serializeStripped) →
      ∀ sigHashes, (ops.foldl (HashCache.apply c) HashCache.empty).getSigHashes (tx.txHash c) = some sigHashes →
        sigHashes = newTxSigHashes c tx ∧
          calcSignatureHashWith c sigHashes hashType tx idx amt = calcSignatureHashNew c hashType tx idx amt := by
  have hiff := calcSignatureHashNew_eq_iff hti hti' hb hb' hfree
  refine ⟨?_, fun hnodup => ?_, fun ops hbounded hfreeOps sigHashes hget => ?_⟩
  · rw [hiff, TxIn.stripped, TxIn.stripped, Prod.mk.injEq, and_assoc]
  · rw [hiff]
    constructor
    · rintro ⟨hhash, hsigned, hrest⟩
      exact ⟨hhash, congrArg Prod.fst hsigned, hrest⟩
    · rintro ⟨hhash, hop, hrest⟩
      have hstripped := stripped_of_txHash hb hb' (hfree.mono (by simp [hashedStrings])) hhash
      exact ⟨hhash, stripped_of_previousOutPoint hti hti' hnodup hstripped hop, hrest⟩
  · obtain ⟨t, hmem, hid, rfl⟩ := HashCache.exists_added_of_run c ops hget
    have hstripped : t.stripped = tx.stripped := by
      refine stripped_of_txHash (hbounded t hmem) hb (hfreeOps.mono ?_) hid
      intro b hin
      simp only [mem_cons, not_mem_nil, or_false] at hin
      rw [map_cons, mem_cons]
      rcases hin with rfl | rfl
      · exact Or.inr (mem_map_of_mem hmem)
      · exact Or.inl rfl
    rw [newTxSigHashes_congr hstripped]
    exact ⟨rfl, calcSignatureHashWith_new c hashType tx idx amt⟩

/-! ### One outpoint spent twice -/

namespace TwiceSpent

/-- A hash that tells the strings below apart. -/
def foldHash (b : Bytes) : Hash :=
  b.foldl (fun h x => h * 1000003#256 + BitVec.ofNat 256 (x.toNat + 1)) 7#256

def foldCrypto : Crypto := ⟨foldHash, foldHash, fun _ => 0, fun _ => 0, fun _ _ _ _ => false⟩

def firstIn : TxIn := ⟨⟨0, 0⟩, [], 0⟩

def secondIn : TxIn := ⟨⟨0, 0⟩, [], 1⟩

def tx : MsgTx := ⟨1, [firstIn, secondIn], [⟨5, [0x51]⟩], 0⟩

def signedIn : TxIn := { firstIn with signatureScript := [0x01, 0x02] }

def signedTx : MsgTx := { tx with txIn := [signedIn, secondIn] }

end TwiceSpent

open TwiceSpent in
theorem calcSignatureHashNew_commits_signed :
    calcSignatureHashNew foldCrypto sigHashAll tx 0 5 = calcSignatureHashNew foldCrypto sigHashAll signedTx 0 5 ∧
      ∀ sigHashes, ([HashCache.Op.add signedTx].foldl (HashCache.apply foldCrypto)
        HashCache.empty).getSigHashes (tx.txHash foldCrypto) = some sigHashes →
          sigHashes = newTxSigHashes foldCrypto tx := by
  have hbounded : tx.Bounded := by simp [Bounded, tx]
  have hbounded' : signedTx.Bounded := by simp [Bounded, signedTx, tx]
  obtain ⟨hiff, -, hcache⟩ := calcSignatureHashNew_commits foldCrypto sigHashAll sigHashAll tx signedTx
    0 0 firstIn signedIn 5 5 rfl rfl hbounded hbounded' (by decide +kernel)
  refine ⟨hiff.mpr ⟨by decide +kernel, rfl, rfl, rfl, rfl⟩, fun sigHashes hget => ?_⟩
  have hadded : HashCache.added [.add signedTx] = [signedTx] := rfl
  refine (hcache [.add signedTx] ?_ (by rw [hadded]; decide +kernel) sigHashes hget).1
  rw [hadded]
  simpa using hbounded'

open TwiceSpent in
/-- The two inputs agree in the outpoint, and their digests differ. -/
theorem twice_spent_digests_differ : tx.Bounded ∧
      CollisionFree foldCrypto (hashedStrings foldCrypto sigHashAll tx firstIn 5 ++
        hashedStrings foldCrypto sigHashAll tx secondIn 5) ∧ tx.txIn[0]? = some firstIn ∧ tx.txIn[1]? = some secondIn ∧
      firstIn.previousOutPoint = secondIn.previousOutPoint ∧
      calcSignatureHashNew foldCrypto sigHashAll tx 0 5 ≠ calcSignatureHashNew foldCrypto sigHashAll tx 1 5 := by
  refine ⟨by simp [Bounded, tx], by decide +kernel, rfl, rfl, rfl, by decide +kernel⟩

end Prova
