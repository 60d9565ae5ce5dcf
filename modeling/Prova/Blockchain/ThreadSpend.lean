import Prova.Blockchain.AcceptRun
import Prova.Txscript.ProvaScripts

/-!
# Spending a thread output

An output of an admin thread is checked as a 2-of-n script over the keys of the thread. The chain rules
let a key set grow to `maxAdminKeySetSize` keys, and the script is built for as many. But the handler
that checks the signatures does not take more than `maxPubKeysPerMultiSig` key hashes.
-/

namespace Prova

open List Sample

variable {script : Bytes} {keyHashes : List Bytes}

variable {c : Crypto}

open Engine

/-! ### The scripts -/

/-- `ThreadID` as the number it is in the source. -/
def ThreadID.toNat : ThreadID → Nat
  | .root => 0
  | .provision => 1
  | .issue => 2

def provaThreadScript (threadID : ThreadID) : Except ScriptError Bytes := do
  let script ← addInt64 threadID.toNat []
  addOp opCheckThread script

theorem resolveScript_thread (keyView : KeyViewpoint) {t : ThreadID} {pkScript : Bytes}
    (h : provaThreadScript t = .ok pkScript) :
    resolveScript c keyView pkScript = malformed (threadPkScript (keyView.getAdminKeyHashes c t)) := by
  cases t with
  | root =>
    cases h
    rfl
  | provision =>
    cases h
    rfl
  | issue =>
    cases h
    rfl

/-- The element that pushes the number of keys. -/
def countOf (n : Nat) : ParsedOpcode :=
  if n ≤ 16 then ⟨(op1 - 1) + UInt8.ofNat n, []⟩ else ⟨opData1, [UInt8.ofNat n]⟩

/-- The elements of a thread's script up to the check. -/
def threadPushes (keyHashes : List Bytes) : List ParsedOpcode :=
  ⟨op2, []⟩ :: (keyHashes.map fun hash => ⟨opData20, hash⟩) ++ [countOf keyHashes.length]

theorem addHashes_ok (hhashes : ∀ hash ∈ keyHashes, hash.length = 20)
    (hsize : script.length + 21 * keyHashes.length ≤ maxScriptSize) :
    keyHashes.foldlM (fun script hash => addData hash script) script =
      .ok (script ++ keyHashes.flatMap fun hash => opData20 :: hash) := by
  induction keyHashes generalizing script with
  | nil => rw [flatMap_nil, append_nil]; rfl
  | cons hash keyHashes ih =>
    rw [forall_mem_cons] at hhashes
    rw [length_cons] at hsize
    have hcanonical : canonicalDataSize hash = 21 := by
      unfold canonicalDataSize
      rw [hhashes.1]
      rfl
    have hadd : addData hash script = .ok (script ++ (opData20 :: hash)) := by
      rw [addData_ok (by rw [hhashes.1]; decide) (by omega), dataPush_short (by omega) (by omega), hhashes.1]
      rfl
    have hlen : (script ++ (opData20 :: hash)).length = script.length + 21 := by
      rw [length_append, length_cons, hhashes.1]
    rw [foldlM_cons_eq_ok]
    refine ⟨_, hadd, ?_⟩
    rw [ih hhashes.2 (by omega), flatMap_cons, append_assoc]

theorem unparseScript_hashes (hhashes : ∀ hash ∈ keyHashes, hash.length = 20)
    {pops : List ParsedOpcode} {rest : Bytes} (hrest : unparseScript pops = .ok rest) :
    unparseScript ((keyHashes.map fun hash => ⟨opData20, hash⟩) ++ pops) =
      .ok ((keyHashes.flatMap fun hash => opData20 :: hash) ++ rest) := by
  induction keyHashes with
  | nil => exact hrest
  | cons hash keyHashes ih =>
    rw [forall_mem_cons] at hhashes
    refine unparseScript_cons.mpr ⟨_, _, bytes_hash hhashes.1, ih hhashes.2, ?_⟩
    rw [flatMap_cons, append_assoc]

theorem countOf_eq {n : Nat} (hmin : 2 ≤ n) (hmax : n ≤ maxAdminKeySetSize) :
    scriptNumBytes n = [UInt8.ofNat n] ∧ countOf n = pushElement [UInt8.ofNat n] ∧ UInt8.ofNat n ≠ 0 := by
  have : n < 43 := Nat.lt_succ_of_le hmax
  interval_cases n <;> decide

theorem isPush_countOf {n : Nat} (hmin : 2 ≤ n) (hmax : n ≤ maxAdminKeySetSize) :
    IsPush (countOf n) (dataPush [UInt8.ofNat n]) [UInt8.ofNat n] := by
  obtain ⟨-, hcount, hne⟩ := countOf_eq hmin hmax
  rw [hcount]
  exact isPush_pushElement (by change 1 ≤ 520; decide) fun h => hne (List.cons.inj h).1

theorem addInt64_count {n : Nat} (hmin : 2 ≤ n) (hmax : n ≤ maxAdminKeySetSize)
    (hsize : script.length + 2 ≤ maxScriptSize) :
    ∃ b, addInt64 n script = .ok (script ++ b) ∧ (countOf n).bytes = .ok b ∧ b.length ≤ 2 := by
  have hlimit : maxAdminKeySetSize = 42 := rfl
  have hbytes := (countOf_eq hmin hmax).1
  have hcanonical : canonicalDataSize [UInt8.ofNat n] ≤ 2 := canonicalDataSize_le (by simp)
  refine ⟨_, addInt64_ok (by omega) (by rw [hbytes]; omega), ?_, by rw [length_dataPush, hbytes]; exact hcanonical⟩
  rw [hbytes]
  exact (isPush_countOf hmin hmax).bytes

theorem threadPkScript_ok (hmin : 2 ≤ keyHashes.length)
    (hmax : keyHashes.length ≤ maxAdminKeySetSize) (hhashes : ∀ hash ∈ keyHashes, hash.length = 20) :
    ∃ script, threadPkScript keyHashes = .ok script ∧ script.length ≤ maxScriptSize ∧
      parseScript script = .ok (threadPushes keyHashes ++ [⟨opCheckThread, []⟩]) := by
  have hkeys : keyHashes.length ≤ 42 := hmax
  have hlength : ([op2] ++ keyHashes.flatMap fun hash => opData20 :: hash).length =
      1 + 21 * keyHashes.length := by
    rw [length_append, length_flatMap,
      map_congr_left fun hash hmem => by rw [length_cons, hhashes hash hmem],
      map_const', sum_replicate, smul_eq_mul, Nat.mul_comm]
    rfl
  have hlimit : maxScriptSize = 10000 := rfl
  have hroom : ([op2] ++ keyHashes.flatMap fun hash => opData20 :: hash).length + 2 ≤
      maxScriptSize := by omega
  obtain ⟨count, hcount, hbytes, hshort⟩ := addInt64_count hmin hmax hroom
  refine ⟨[op2] ++ (keyHashes.flatMap fun hash => opData20 :: hash) ++ count ++ [opCheckThread], ?_, ?_, ?_⟩
  · refine bind_unit_eq_ok.mpr ⟨reject_eq_ok.mpr (Nat.not_lt.mpr hmin), ?_⟩
    refine bind_eq_ok.mpr ⟨[op2], rfl, bind_eq_ok.mpr ⟨_, addHashes_ok hhashes ?_, ?_⟩⟩
    · rw [length_singleton]
      omega
    refine bind_eq_ok.mpr ⟨_, hcount, bind_unit_eq_ok.mpr ⟨reject_eq_ok.mpr ?_, rfl⟩⟩
    rw [length_append, hlength]
    omega
  · rw [length_append, length_append, hlength, length_singleton]
    omega
  · refine parseScript_of_unparseScript ?_
    have hend : unparseScript [countOf keyHashes.length, ⟨opCheckThread, []⟩] =
        .ok (count ++ [opCheckThread]) :=
      unparseScript_cons.mpr ⟨count, [opCheckThread], hbytes, rfl, rfl⟩
    have hall := unparseScript_cons.mpr
      ⟨[op2], _, (rfl : ParsedOpcode.bytes ⟨op2, []⟩ = .ok [op2]), unparseScript_hashes hhashes hend, rfl⟩
    unfold threadPushes
    simpa only [cons_append, append_assoc, nil_append] using hall

theorem pushRun_hashes {minimal : Bool} (hhashes : ∀ hash ∈ keyHashes, hash.length = 20) :
    PushRun minimal (keyHashes.map fun hash => ⟨opData20, hash⟩)
      keyHashes := by
  induction keyHashes with
  | nil => exact .nil
  | cons hash keyHashes ih =>
    rw [forall_mem_cons] at hhashes
    refine .cons rfl ⟨?_, fun _ _ => ?_⟩ (ih hhashes.2)
    · change hash.length ≤ 520
      omega
    · unfold ParsedOpcode.checkMinimalDataPush
      simp only [hhashes.1]
      rfl

theorem pushRun_threadPushes {minimal : Bool} (hmin : 2 ≤ keyHashes.length)
    (hmax : keyHashes.length ≤ maxAdminKeySetSize) (hhashes : ∀ hash ∈ keyHashes, hash.length = 20) :
    PushRun minimal (threadPushes keyHashes) ([2] :: keyHashes ++ [[UInt8.ofNat keyHashes.length]]) := by
  have hcount := isPush_countOf hmin hmax
  have htwo : PushFits minimal ⟨op2, []⟩ := ⟨Nat.zero_le _, fun _ hle => absurd hle (by decide)⟩
  have hlast : PushRun minimal [countOf keyHashes.length] [[UInt8.ofNat keyHashes.length]] :=
    .cons hcount.pushes (hcount.fits minimal) .nil
  exact .append (.cons rfl htwo (pushRun_hashes hhashes)) hlast

theorem makeScriptNum_count {n : Nat} (hmin : 2 ≤ n) (hmax : n ≤ maxAdminKeySetSize) (minimal : Bool) :
    makeScriptNum [UInt8.ofNat n] minimal 4 = .ok n := by
  have : n < 43 := Nat.lt_succ_of_le hmax
  cases minimal <;> interval_cases n <;> rfl

theorem isScriptHash_thread (hmin : 2 ≤ keyHashes.length) :
    isScriptHash (threadPushes keyHashes ++ [⟨opCheckThread, []⟩]) = false := by
  unfold isScriptHash threadPushes
  split
  · next heq =>
    have hnil : keyHashes = [] := by simpa using congrArg List.length heq
    rw [hnil] at hmin
    exact absurd hmin (by decide)
  · rfl

/-- The script of a thread is accepted with valid signatures of two listed keys exactly if the handler
takes that many keys. -/
theorem runScripts_thread {tx : MsgTx} {txIdx : Nat} {ti : TxIn} {amount : Int64}
    {flags : ScriptFlags} {keys : List PublicKey} {k₁ k₂ : PublicKey} {sig₁ sig₂ : Bytes}
    (hti : tx.txIn[txIdx]? = some ti)
    (hsig : ti.signatureScript = unlockScript [(k₁, sig₁), (k₂, sig₂)]) (hflags : ValidFlags flags)
    (hmax : keys.length ≤ maxAdminKeySetSize) (h₁ : k₁ ∈ keys) (h₂ : k₂ ∈ keys) (hne : k₁ ≠ k₂)
    (hvalid₁ : ValidSignature c tx txIdx amount k₁ sig₁) (hvalid₂ : ValidSignature c tx txIdx amount k₂ sig₂)
    (hscript : threadPkScript (keys.map fun k => c.hash160 k.serializeCompressed) = .ok script) :
    runScripts c script tx txIdx flags amount = .ok () ↔ keys.length ≤ maxPubKeysPerMultiSig := by
  have hsub : [k₁, k₂].Subperm keys := by
    refine subperm_of_subset (by simpa using hne) ?_
    intro k hk
    rcases mem_pair.mp hk with rfl | rfl
    · exact h₁
    · exact h₂
  have hlength : (keys.map fun k => c.hash160 k.serializeCompressed).length = keys.length :=
    length_map _
  generalize hhashes : (keys.map fun k => c.hash160 k.serializeCompressed) = keyHashes at hscript hlength
  have htwenty : ∀ hash ∈ keyHashes, hash.length = 20 := by
    intro hash hmem
    rw [← hhashes] at hmem
    obtain ⟨k, -, rfl⟩ := mem_map.mp hmem
    exact c.length_hash160 _
  have hmin : 2 ≤ keyHashes.length := hlength ▸ hsub.length_le
  rw [← hlength] at hmax ⊢
  have hmatch : ([(k₁, sig₁), (k₂, sig₂)].map fun p => c.hash160 p.1.serializeCompressed).Subperm
      keyHashes := by
    obtain ⟨l, hperm, hl⟩ := hsub
    rw [← hhashes]
    exact ⟨_, hperm.map _, hl.map fun k => c.hash160 k.serializeCompressed⟩
  have hvalid : ∀ p ∈ [(k₁, sig₁), (k₂, sig₂)], ValidSignature c tx txIdx amount p.1 p.2 := by
    intro p hp
    rcases mem_pair.mp hp with rfl | rfl
    · exact hvalid₁
    · exact hvalid₂
  obtain ⟨script', hscript', hsize, hparse⟩ := threadPkScript_ok hmin hmax htwenty
  cases hscript.symm.trans hscript'
  have hengine := newEngine_unlock amount hti hsig (cons_ne_nil _ _) (by simp)
    (fun p hp => (hvalid p hp).length) hflags hsize hparse (isScriptHash_thread hmin)
  have hiff : (startEngine (unlockPushes [(k₁, sig₁), (k₂, sig₂)])
      (threadPushes keyHashes ++ [⟨opCheckThread, []⟩]) tx txIdx flags amount).execute c = .ok () ↔
      keyHashes.length ≤ maxPubKeysPerMultiSig :=
    execute_unlock_iff rfl (.inr rfl) (fun _ => pushRun_threadPushes hmin hmax htwenty)
      (cons_ne_nil _ _) (hmax.trans (by decide)) htwenty (makeScriptNum_count hmin hmax)
      (fun minimal => by cases minimal <;> rfl) hvalid hmatch
  rw [← hiff]
  unfold runScripts
  simp only [hengine, malformed, ok_bind]
  cases hexec : (startEngine (unlockPushes [(k₁, sig₁), (k₂, sig₂)])
      (threadPushes keyHashes ++ [⟨opCheckThread, []⟩]) tx txIdx flags amount).execute c with
  | ok u => exact ⟨fun _ => rfl, fun _ => rfl⟩
  | error e =>
    constructor
    · intro h
      cases e <;> cases h
    · intro h
      cases h

/-- An input that spends an output of a thread with valid signatures of two listed keys is accepted
exactly if the thread does not have more keys than the handler takes. -/
theorem validateInput_thread_iff {utxoView : UtxoViewpoint} {keyView : KeyViewpoint} {flags : ScriptFlags}
    {tx : MsgTx} {txIdx : Nat} {ti : TxIn} {entry : UtxoEntry} {t : ThreadID} {pkScript : Bytes}
    {k₁ k₂ : PublicKey} {sig₁ sig₂ : Bytes} (hmin : 2 ≤ (keyView.adminKeySets t.keySetType).length)
    (hmax : (keyView.adminKeySets t.keySetType).length ≤ maxAdminKeySetSize) (hti : tx.txIn[txIdx]? = some ti)
    (hentry : utxoView.lookupEntry ti.previousOutPoint.hash = some entry)
    (hout : entry.pkScriptByIndex ti.previousOutPoint.index = some pkScript)
    (hscript : provaThreadScript t = .ok pkScript) (hsig : ti.signatureScript = unlockScript [(k₁, sig₁), (k₂, sig₂)])
    (h₁ : k₁ ∈ keyView.adminKeySets t.keySetType) (h₂ : k₂ ∈ keyView.adminKeySets t.keySetType) (hne : k₁ ≠ k₂)
    (hvalid₁ : ValidSignature c tx txIdx (entry.amountByIndex ti.previousOutPoint.index) k₁ sig₁)
    (hvalid₂ : ValidSignature c tx txIdx (entry.amountByIndex ti.previousOutPoint.index) k₂ sig₂)
    (hflags : ValidFlags flags) : validateInput c utxoView keyView flags tx (ti, txIdx) = .ok () ↔
      (keyView.adminKeySets t.keySetType).length ≤ maxPubKeysPerMultiSig := by
  have hlength : (keyView.getAdminKeyHashes c t).length =
      (keyView.adminKeySets t.keySetType).length := length_map _
  have htwenty : ∀ hash ∈ keyView.getAdminKeyHashes c t, hash.length = 20 := by
    intro hash hmem
    obtain ⟨k, -, rfl⟩ := mem_map.mp hmem
    exact c.length_hash160 _
  obtain ⟨script, hpk, -⟩ :=
    threadPkScript_ok (hmin.trans hlength.ge) (hlength.le.trans hmax) htwenty
  have hresolve : resolveScript c keyView pkScript = .ok script := by
    rw [resolveScript_thread keyView hscript, hpk]
    rfl
  rw [← runScripts_thread hti hsig hflags hmax h₁ h₂ hne hvalid₁ hvalid₂ hpk]
  unfold validateInput
  simp only [hentry, hout, hresolve]
  rfl

theorem malformed_eq_ok {α : Type} {x : Except ScriptError α} {a : α} (h : malformed x = .ok a) : x = .ok a := by
  cases x with
  | ok a =>
    cases h
    rfl
  | error e => cases e <;> cases h

/-- Whatever its signature script is, an input that spends an output of a thread is accepted only with
valid signatures by two of the thread's keys. -/
theorem validateInput_thread_signed {utxoView : UtxoViewpoint} {keyView : KeyViewpoint} {flags : ScriptFlags}
    {tx : MsgTx} {input : TxIn × Nat} {entry : UtxoEntry} {t : ThreadID} {pkScript : Bytes}
    (hmax : (keyView.adminKeySets t.keySetType).length ≤ maxAdminKeySetSize)
    (hentry : utxoView.lookupEntry input.1.previousOutPoint.hash = some entry)
    (hout : entry.pkScriptByIndex input.1.previousOutPoint.index = some pkScript)
    (hscript : provaThreadScript t = .ok pkScript) (h : validateInput c utxoView keyView flags tx input = .ok ()) :
    KeysSigned c tx input.2 (entry.amountByIndex input.1.previousOutPoint.index) (keyView.getAdminKeyHashes c t) 2 := by
  have htwenty : ∀ hash ∈ keyView.getAdminKeyHashes c t, hash.length = 20 :=
    forall_mem_map.mpr fun k _ => c.length_hash160 _
  replace hmax : (keyView.getAdminKeyHashes c t).length ≤ maxAdminKeySetSize := (length_map _).trans_le hmax
  unfold validateInput at h
  simp only [hentry, hout] at h
  obtain ⟨script, hresolve, h⟩ := bind_eq_ok.mp h
  rw [resolveScript_thread keyView hscript] at hresolve
  have hpk := malformed_eq_ok hresolve
  generalize keyView.getAdminKeyHashes c t = keyHashes at *
  have hmin : 2 ≤ keyHashes.length := Nat.not_lt.mp (reject_eq_ok.mp (bind_unit_eq_ok.mp hpk).1)
  obtain ⟨script', hscript', -, hparse⟩ := threadPkScript_ok hmin hmax htwenty
  cases hpk.symm.trans hscript'
  obtain ⟨vm, hvm, h⟩ := bind_eq_ok.mp h
  obtain ⟨s0, idx, hidx, rfl⟩ := newEngine_start hparse (isScriptHash_thread hmin) (malformed_eq_ok hvm)
  split at h
  · cases h
  · cases h
  · cases h
  · next hexecute =>
    exact execute_multiSig hidx (.inr rfl) (fun _ => pushRun_threadPushes hmin hmax htwenty)
      (makeScriptNum_count hmin hmax) (hmax.trans (by decide)) (fun minimal => by cases minimal <;> rfl) (by decide) hexecute

namespace Sample

open RegTest BlockChain

def issueTxIn : TxIn := issueTx.txIn[0]

/-- What a chain shows of the transaction that `issueTx` spends. -/
def issueTxView (b : BlockChain) : UtxoViewpoint :=
  (newUtxoViewpoint b.bestNode.hash).fetchUtxos b.db.utxos [issueTxIn.previousOutPoint.hash]

/-- The signatures of `issueTx`, by `issueKey1` and `issueKey2`. -/
def issueTxSig1 : Bytes := (issueTxIn.signatureScript.drop 35).take 71

@[inherit_doc issueTxSig1]
def issueTxSig2 : Bytes := (issueTxIn.signatureScript.drop 141).take 72

theorem validSignature_of_run {tx : MsgTx} {txIdx : Nat} {amount : Int64} {key : PublicKey} {sig : Bytes}
    (htype : ¬ (sigHashTypeOf sig &&& ~~~sigHashAnyOneCanPay < sigHashAll ∨
      sigHashSingle < sigHashTypeOf sig &&& ~~~sigHashAnyOneCanPay))
    (hencoding : (checkDER true sig.dropLast).toOption = some () ∧ (checkDER false sig.dropLast).toOption = some ())
    (hparse : ((parseSig sig.dropLast true).toOption.bind fun s =>
      (parseSig sig.dropLast false).toOption.map fun s' => decide (s' = s) &&
        c.verify s (calcSignatureHashNew c (sigHashTypeOf sig) tx txIdx amount) key) = some true) :
    ValidSignature c tx txIdx amount key sig := by
  obtain ⟨s, hs, hparse⟩ := Option.bind_eq_some_iff.mp hparse
  obtain ⟨s', hs', hverify⟩ := Option.map_eq_some_iff.mp hparse
  rw [Bool.and_eq_true, decide_eq_true_eq] at hverify
  obtain ⟨rfl, hverify⟩ := hverify
  refine ⟨htype, fun lowS => ?_, s', fun der => ?_, hverify⟩
  · cases lowS
    · exact eq_ok_of_toOption hencoding.2
    · exact eq_ok_of_toOption hencoding.1
  · cases der
    · exact eq_ok_of_toOption hs'
    · exact eq_ok_of_toOption hs

theorem issueTx_signed : (ValidSignature crypto issueTx 0 0 issueKey1 issueTxSig1 ∧
      ValidSignature crypto issueTx 0 0 issueKey2 issueTxSig2) ∧
    issueTxIn.signatureScript = unlockScript [(issueKey1, issueTxSig1), (issueKey2, issueTxSig2)] ∧
    (∃ entry, (issueTxView genesis).lookupEntry issueTxIn.previousOutPoint.hash = some entry ∧
      entry.pkScriptByIndex 2 = some [0x52, 0xbb] ∧ entry.amountByIndex 2 = 0) ∧
    validateInput crypto (issueTxView genesis) genesis.keys standardVerifyFlags issueTx (issueTxIn, 0) = .ok () := by
  have hrun : (((issueTxView genesis).lookupEntry issueTxIn.previousOutPoint.hash).map fun entry =>
      decide (entry.pkScriptByIndex 2 = some [0x52, 0xbb] ∧ entry.amountByIndex 2 = 0)) = some true := by
    decide +kernel
  obtain ⟨entry, hentry, hshown⟩ := Option.map_eq_some_iff.mp hrun
  exact ⟨⟨validSignature_of_run (by decide +kernel) (by decide +kernel) (by decide +kernel),
    validSignature_of_run (by decide +kernel) (by decide +kernel) (by decide +kernel)⟩, by decide +kernel,
    ⟨entry, hentry, of_decide_eq_true hshown⟩, by decide +kernel⟩

end Sample

theorem validateInput_thread_iff_issueTx :
    validateInput Sample.crypto (Sample.issueTxView Sample.genesis) Sample.genesis.keys
      standardVerifyFlags Sample.issueTx (Sample.issueTxIn, 0) = .ok () ↔
      (Sample.genesis.keys.adminKeySets .issue).length ≤ maxPubKeysPerMultiSig := by
  obtain ⟨hvalid, hsig, ⟨entry, hentry, hshown⟩, -⟩ := issueTx_signed
  have hamount : entry.amountByIndex issueTxIn.previousOutPoint.index = 0 := hshown.2
  refine validateInput_thread_iff (t := .issue) (by decide) (by decide) rfl hentry hshown.1 rfl hsig (by decide)
    (by decide) (by decide) ?_ ?_ (fun _ => by decide)
  · rw [hamount]
    exact hvalid.1
  · rw [hamount]
    exact hvalid.2

theorem validateInput_thread_signed_issueTx : ∃ amount, KeysSigned Sample.crypto Sample.issueTx 0 amount
    (Sample.genesis.keys.getAdminKeyHashes Sample.crypto .issue) 2 := by
  obtain ⟨-, -, ⟨entry, hentry, hshown⟩, haccepted⟩ := issueTx_signed
  exact ⟨_, @validateInput_thread_signed _ _ _ _ _ (issueTxIn, 0) entry .issue _ (by decide) hentry hshown.1 rfl haccepted⟩

open BlockChain in
/-- After a block that adds 19 issue keys the issue thread has 21, and its output cannot be spent with
the signatures that were good for it before. -/
theorem validateInput_thread_issueKeysBlock : AcceptRun Sample.crypto Sample.params false (fun _ _ _ => True)
        (afterBlock Sample.crypto Sample.genesis Sample.issueKeysBlock) ∧
      ValidSignature Sample.crypto Sample.issueTx 0 0 RegTest.issueKey1 Sample.issueTxSig1 ∧
      ValidSignature Sample.crypto Sample.issueTx 0 0 RegTest.issueKey2 Sample.issueTxSig2 ∧
      ((afterBlock Sample.crypto Sample.genesis Sample.issueKeysBlock).keys.adminKeySets .issue).length = 21 ∧
      RegTest.issueKey1 ∈ (afterBlock Sample.crypto Sample.genesis Sample.issueKeysBlock).keys.adminKeySets .issue ∧
      RegTest.issueKey2 ∈ (afterBlock Sample.crypto Sample.genesis Sample.issueKeysBlock).keys.adminKeySets .issue ∧
      validateInput Sample.crypto (Sample.issueTxView (afterBlock Sample.crypto Sample.genesis Sample.issueKeysBlock))
        (afterBlock Sample.crypto Sample.genesis Sample.issueKeysBlock).keys standardVerifyFlags
        Sample.issueTx (Sample.issueTxIn, 0) = .error (.rule .scriptValidation) :=
  ⟨.step .genesis trivial (accepted_afterBlock (r := true) (by decide +kernel) (by decide +kernel)),
    issueTx_signed.1.1, issueTx_signed.1.2, by decide +kernel⟩

end Prova
