import Prova.Txscript.SafeMultiSig

/-!
# Signature scripts that hold keys and signatures

What an owner of keys puts into an input: pairs of a key and a signature, each pushed in the shortest
way. With valid signatures for some of the keys of a multi-signature script the engine accepts such an
input exactly if the script does not have more key hashes than the handler takes.
-/

namespace Prova

open List

variable {pairs : List (PublicKey × Bytes)}

variable {c : Crypto}

open Engine

/-! ### The signature script -/

def unlockScript (pairs : List (PublicKey × Bytes)) : Bytes :=
  pairs.flatMap fun p => dataPush p.1.serializeCompressed ++ dataPush p.2

/-- A signature in its standard encoding, which all flags allow and all parsers read, with the byte of
its hash type, that is valid for a key and an input. -/
structure ValidSignature (c : Crypto) (tx : MsgTx) (txIdx : Nat) (amount : Int64) (key : PublicKey)
    (sig : Bytes) : Prop where
  hashType : ¬ (sigHashTypeOf sig &&& ~~~sigHashAnyOneCanPay < sigHashAll ∨
    sigHashSingle < sigHashTypeOf sig &&& ~~~sigHashAnyOneCanPay)
  encoding : ∀ lowS, checkDER lowS sig.dropLast = .ok ()
  verifies : ∃ s, (∀ der, parseSig sig.dropLast der = .ok s) ∧
    c.verify s (calcSignatureHashNew c (sigHashTypeOf sig) tx txIdx amount) key = true

namespace ValidSignature

variable {tx : MsgTx} {txIdx : Nat} {amount : Int64} {key : PublicKey} {sig : Bytes}

theorem length (h : ValidSignature c tx txIdx amount key sig) : 2 ≤ sig.length ∧ sig.length ≤ 75 := by
  have hencoding := h.encoding true
  unfold checkDER at hencoding
  obtain ⟨hmin, hencoding⟩ := bind_unit_eq_ok.mp hencoding
  obtain ⟨hmax, -⟩ := bind_unit_eq_ok.mp hencoding
  rw [reject_eq_ok, length_dropLast] at hmin hmax
  omega

theorem signed (h : ValidSignature c tx txIdx amount key sig) {vm : Engine} (htx : vm.tx = tx)
    (hidx : vm.txIdx = txIdx) (hamount : vm.inputAmount = amount) : Signed c vm ⟨key.serializeCompressed, sig⟩ := by
  obtain ⟨s, hparse, hverify⟩ := h.verifies
  have htype : vm.checkHashTypeEncoding (sigHashTypeOf sig) = .ok () := by
    unfold checkHashTypeEncoding
    split_ifs
    · exact reject_eq_ok.mpr h.hashType
    · rfl
  have hencoding : vm.checkSignatureEncoding sig.dropLast = .ok () := by
    unfold checkSignatureEncoding
    split_ifs
    · exact h.encoding _
    · rfl
  have hsig : vm.parseSigBytes sig.dropLast = .ok s := by
    unfold parseSigBytes
    split_ifs
    · exact hparse true
    · exact hparse false
  have hkey : vm.checkPubKeyEncoding key.serializeCompressed = .ok () := by
    unfold checkPubKeyEncoding
    split_ifs
    · refine reject_eq_ok.mpr (not_not.mpr (.inl ⟨key.length_serializeCompressed, ?_⟩))
      unfold PublicKey.serializeCompressed
      split_ifs
      · exact .inr rfl
      · exact .inl rfl
    · rfl
  refine ⟨fun hnil => ?_, ?_⟩
  · have hlength := h.length
    have hnil' : sig = [] := hnil
    rw [hnil'] at hlength
    exact absurd hlength.1 (by decide)
  · unfold checkSigInfo
    refine bind_unit_eq_ok.mpr ⟨htype, bind_unit_eq_ok.mpr ⟨hencoding, ?_⟩⟩
    simp only [hsig]
    refine bind_unit_eq_ok.mpr ⟨hkey, ?_⟩
    simp only [parsePubKey_serializeCompressed, htx, hidx, hamount, hverify]
    rfl

end ValidSignature

section

variable {data : Bytes} (hmin : 2 ≤ data.length) (hmax : data.length ≤ 75)
include hmin hmax

theorem dataPush_short : dataPush data = UInt8.ofNat data.length :: data := by
  unfold dataPush
  rw [if_neg (by omega), if_neg (by omega), if_neg (by omega), if_pos]
  change data.length < 76
  omega

theorem isPush_dataElement : IsPush (dataElement data) (dataPush data) data := by
  rw [dataPush_short hmin hmax]
  exact isPush_direct (by omega) hmax (by omega) (by omega)

end

theorem two_le_length_serializeCompressed (key : PublicKey) : 2 ≤ key.serializeCompressed.length := by
  rw [PublicKey.length_serializeCompressed]
  decide

theorem length_serializeCompressed_le (key : PublicKey) : key.serializeCompressed.length ≤ 75 := by
  rw [PublicKey.length_serializeCompressed]
  decide

def unlockPushes (pairs : List (PublicKey × Bytes)) : List ParsedOpcode :=
  pairs.flatMap fun p => [dataElement p.1.serializeCompressed, dataElement p.2]

theorem parse_unlockScript (h : ∀ p ∈ pairs, 2 ≤ p.2.length ∧ p.2.length ≤ 75) :
    parseScript (unlockScript pairs) = .ok (unlockPushes pairs) := by
  refine parseScript_of_unparseScript ?_
  induction pairs with
  | nil => rfl
  | cons p pairs ih =>
    rw [forall_mem_cons] at h
    have hkey := isPush_dataElement (two_le_length_serializeCompressed p.1)
      (length_serializeCompressed_le p.1)
    refine unparseScript_cons.mpr ⟨_, _, hkey.bytes, unparseScript_cons.mpr
      ⟨_, _, (isPush_dataElement h.1.1 h.1.2).bytes, ih h.2, rfl⟩, ?_⟩
    unfold unlockScript
    rw [flatMap_cons, append_assoc]

theorem pushRun_unlockPushes (minimal : Bool) (h : ∀ p ∈ pairs, 2 ≤ p.2.length ∧ p.2.length ≤ 75) :
    PushRun minimal (unlockPushes pairs) (pairs.flatMap fun p => [p.1.serializeCompressed, p.2]) := by
  induction pairs with
  | nil => exact .nil
  | cons p pairs ih =>
    rw [forall_mem_cons] at h
    have hkey := isPush_dataElement (two_le_length_serializeCompressed p.1)
      (length_serializeCompressed_le p.1)
    have hsig := isPush_dataElement h.1.1 h.1.2
    exact .cons hkey.pushes (hkey.fits minimal) (.cons hsig.pushes (hsig.fits minimal) (ih h.2))

theorem length_unlockScript (h : ∀ p ∈ pairs, 2 ≤ p.2.length ∧ p.2.length ≤ 75) :
    (unlockScript pairs).length ≤ 110 * pairs.length := by
  induction pairs with
  | nil => exact Nat.zero_le _
  | cons p pairs ih =>
    rw [forall_mem_cons] at h
    have hrest := ih h.2
    have hkey := dataPush_short (two_le_length_serializeCompressed p.1)
      (length_serializeCompressed_le p.1)
    unfold unlockScript at hrest ⊢
    rw [flatMap_cons, length_append, length_append, hkey,
      dataPush_short h.1.1 h.1.2, length_cons, length_cons, length_cons, PublicKey.length_serializeCompressed]
    omega

theorem isPushOnly_unlockPushes (h : ∀ p ∈ pairs, 2 ≤ p.2.length ∧ p.2.length ≤ 75) :
    isPushOnly (unlockPushes pairs) = true := by
  have hall : ∀ pops values, PushRun false pops values → isPushOnly pops = true := by
    intro pops values hrun
    induction hrun with
    | nil => rfl
    | cons hv _ _ ih =>
      unfold isPushOnly at ih ⊢
      rw [all_cons, ih, Bool.and_true]
      exact decide_eq_true (opcode_le_of_pushes hv)
  exact hall _ _ (pushRun_unlockPushes false h)

def sigInfos (pairs : List (PublicKey × Bytes)) : List SigInfo :=
  pairs.reverse.map fun p => ⟨p.1.serializeCompressed, p.2⟩

theorem reverse_unlock (pairs : List (PublicKey × Bytes)) :
    (pairs.flatMap fun p => [p.1.serializeCompressed, p.2]).reverse = unlockStack (sigInfos pairs) := by
  unfold unlockStack sigInfos
  rw [reverse_flatMap, flatMap_map]
  rfl

def startEngine (script0 script1 : List ParsedOpcode) (tx : MsgTx) (txIdx : Nat) (flags : ScriptFlags)
    (amount : Int64) : Engine where
  scripts := [script0, script1]
  scriptIdx := 0
  scriptOff := 0
  lastCodeSep := 0
  dstack := []
  astack := []
  tx := tx
  txIdx := txIdx
  condStack := []
  numOps := 0
  flags := flags
  bip16 := false
  savedFirstStack := []
  inputAmount := amount

def ValidFlags (flags : ScriptFlags) : Prop :=
  flags &&& scriptVerifyCleanStack = scriptVerifyCleanStack → flags &&& scriptBip16 = scriptBip16

theorem newEngine_unlock {tx : MsgTx} {txIdx : Nat} {ti : TxIn} {pkScript : Bytes}
    {pops : List ParsedOpcode} {flags : ScriptFlags} (amount : Int64)
    (hti : tx.txIn[txIdx]? = some ti) (hsig : ti.signatureScript = unlockScript pairs)
    (hpairs : pairs ≠ []) (hcount : pairs.length ≤ 90)
    (hlengths : ∀ p ∈ pairs, 2 ≤ p.2.length ∧ p.2.length ≤ 75) (hflags : ValidFlags flags)
    (hsize : pkScript.length ≤ maxScriptSize) (hparse : parseScript pkScript = .ok pops)
    (hhash : isScriptHash pops = false) : newEngine pkScript tx txIdx flags amount =
      .ok (startEngine (unlockPushes pairs) pops tx txIdx flags amount) := by
  have hlength := length_unlockScript hlengths
  have hne : unlockScript pairs ≠ [] := by
    obtain ⟨p, rest, rfl⟩ := exists_cons_of_ne_nil hpairs
    unfold unlockScript
    rw [flatMap_cons, dataPush_short (two_le_length_serializeCompressed p.1) (length_serializeCompressed_le p.1)]
    exact cons_ne_nil _ _
  have hload : loadScript (unlockScript pairs) = .ok (unlockPushes pairs) := by
    refine bind_unit_eq_ok.mpr ⟨reject_eq_ok.mpr ?_, parse_unlockScript hlengths⟩
    have hlimit : maxScriptSize = 10000 := rfl
    omega
  have hload' : loadScript pkScript = .ok pops :=
    bind_unit_eq_ok.mpr ⟨reject_eq_ok.mpr (Nat.not_lt.mpr hsize), hparse⟩
  have hpushOnly : isPushOnlyScript (unlockScript pairs) = true := by
    unfold isPushOnlyScript
    rw [parse_unlockScript hlengths]
    exact isPushOnly_unlockPushes hlengths
  unfold newEngine
  simp only [hti, hsig]
  refine bind_unit_eq_ok.mpr ⟨reject_eq_ok.mpr (fun h => hne h.1), ?_⟩
  refine bind_unit_eq_ok.mpr ⟨reject_eq_ok.mpr ?_, ?_⟩
  · rintro ⟨hclean, hbip⟩
    exact hbip (beq_iff_eq.mpr (hflags (beq_iff_eq.mp hclean)))
  refine bind_unit_eq_ok.mpr ⟨reject_eq_ok.mpr (fun h => h.2 hpushOnly), ?_⟩
  refine bind_eq_ok.mpr ⟨_, hload, bind_eq_ok.mpr ⟨_, hload', ?_⟩⟩
  rw [hhash, Bool.and_false]
  refine bind_unit_eq_ok.mpr ⟨reject_eq_ok.mpr (by simp), ?_⟩
  rw [if_neg hne]
  rfl

theorem scriptNumInt32_natCast {n : Nat} (h : n ≤ 90) : scriptNumInt32 n = n := by
  unfold scriptNumInt32
  rw [if_neg (by omega), if_neg (by omega)]

section

variable {tx : MsgTx} {txIdx : Nat} {amount : Int64} {flags : ScriptFlags}
  {pairs : List (PublicKey × Bytes)} {op : UInt8} {pops : List ParsedOpcode} {m n : Bytes}
  {keyHashes : List Bytes}

def lockedStack (pairs : List (PublicKey × Bytes)) (m n : Bytes) (keyHashes : List Bytes) : Stack :=
  n :: (keyHashes.reverse ++ m :: (unlockStack (sigInfos pairs) ++ []))

def lockedEngine (script : List ParsedOpcode) (tx : MsgTx) (txIdx : Nat) (flags : ScriptFlags)
    (amount : Int64) (pairs : List (PublicKey × Bytes)) (m n : Bytes) (keyHashes : List Bytes) :
    Engine :=
  { startEngine (unlockPushes pairs) script tx txIdx flags amount with
    scriptIdx := 1
    scriptOff := 0 + (m :: keyHashes ++ [n]).length
    dstack := lockedStack pairs m n keyHashes
    numOps := 1 }

theorem execute_unlock_ok {script : List ParsedOpcode} (hscript : script = pops ++ [⟨op, []⟩])
    (hop : op = opCheckSafeMultiSig ∨ op = opCheckThread)
    (hrun : ∀ minimal, PushRun minimal pops (m :: keyHashes ++ [n])) (hpairs : pairs ≠ [])
    (hlengths : ∀ p ∈ pairs, 2 ≤ p.2.length ∧ p.2.length ≤ 75) (hcount : pairs.length ≤ 90)
    (hkeys : keyHashes.length ≤ 90) :
    (startEngine (unlockPushes pairs) script tx txIdx flags amount).execute c = .ok () ↔
      ∃ w, opcodeCheckSafeMultiSig c ⟨op, []⟩ (lockedEngine script tx txIdx flags amount pairs m n keyHashes) = .ok w ∧
        w.condStack = [] ∧ w.dstack.length + w.astack.length ≤ maxStackSize ∧
        ∃ vm₂, checkErrorCondition true (w.atScript 2) = .ok vm₂ := by
  have hlimit : maxStackSize = 1000 := rfl
  have hne : unlockPushes pairs ≠ [] := by
    obtain ⟨p, rest, rfl⟩ := exists_cons_of_ne_nil hpairs
    exact cons_ne_nil _ _
  have hlen : (unlockPushes pairs).length = 2 * pairs.length := by
    unfold unlockPushes
    simp [length_flatMap, Nat.mul_comm]
  have hpops : pops.length = keyHashes.length + 2 := by
    rw [← (hrun true).length]
    simp
  have hfirst : ∀ vm₀, runScript c (unlockPushes pairs)
      (startEngine (unlockPushes pairs) script tx txIdx flags amount) = .ok vm₀ ↔
        vm₀ = (startEngine (unlockPushes pairs) script tx txIdx flags amount).afterPushes
          (pairs.flatMap fun p => [p.1.serializeCompressed, p.2]) := by
    intro vm₀
    rw [runScript_pushes (pushRun_unlockPushes _ hlengths) rfl]
    refine and_iff_right (.inr ?_)
    change 0 + 0 + (unlockPushes pairs).length ≤ 1000
    omega
  have hlocked : ∀ vm₁, runScript c script
      (((startEngine (unlockPushes pairs) script tx txIdx flags amount).afterPushes
        (pairs.flatMap fun p => [p.1.serializeCompressed, p.2])).atScript 1) = .ok vm₁ ↔
      ∃ w, opcodeCheckSafeMultiSig c ⟨op, []⟩
          (lockedEngine script tx txIdx flags amount pairs m n keyHashes) = .ok w ∧
        w.dstack.length + w.astack.length ≤ maxStackSize ∧
        vm₁ = { w with scriptOff := w.scriptOff + 1 } := by
    intro vm₁
    have hstack : (((startEngine (unlockPushes pairs) script tx txIdx flags amount).afterPushes
        (pairs.flatMap fun p => [p.1.serializeCompressed, p.2])).atScript 1).dstack =
        unlockStack (sigInfos pairs) ++ [] := by
      change (pairs.flatMap fun p => [p.1.serializeCompressed, p.2]).reverse ++ [] = _
      rw [reverse_unlock]
    have hunlock : (unlockStack (sigInfos pairs)).length = 2 * pairs.length := by
      rw [← hlen, ← (pushRun_unlockPushes true hlengths).length, ← reverse_unlock, length_reverse]
    have hengine : ((((startEngine (unlockPushes pairs) script tx txIdx flags amount).afterPushes
        (pairs.flatMap fun p => [p.1.serializeCompressed, p.2])).atScript 1).afterPushes
          (m :: keyHashes ++ [n])).withOps 1 =
        lockedEngine script tx txIdx flags amount pairs m n keyHashes := by
      have hlocked : (m :: keyHashes ++ [n]).reverse ++
          ((pairs.flatMap fun p => [p.1.serializeCompressed, p.2]).reverse ++ []) =
          lockedStack pairs m n keyHashes := by
        rw [reverse_unlock]
        unfold lockedStack
        simp
      unfold lockedEngine
      rw [← hlocked]
      rfl
    have hroom : pops = [] ∨ (((startEngine (unlockPushes pairs) script tx txIdx flags
        amount).afterPushes (pairs.flatMap fun p => [p.1.serializeCompressed, p.2])).atScript
          1).dstack.length + 0 + pops.length ≤ maxStackSize := by
      right
      rw [hstack, append_nil, hunlock]
      omega
    rw [← hengine]
    nth_rewrite 1 [hscript]
    rw [runScript_multiSig hop (hrun _) rfl rfl]
    exact and_iff_right hroom
  rw [execute_two_ok rfl rfl rfl hne (by rw [hscript]; simp)]
  constructor
  · rintro ⟨vm₀, vm₁, vm₂, hrun₀, -, hrun₁, hcond, hcheck⟩
    rw [hfirst] at hrun₀
    subst hrun₀
    obtain ⟨w, hw, hsize, rfl⟩ := (hlocked vm₁).mp hrun₁
    exact ⟨w, hw, hcond, hsize, vm₂, hcheck⟩
  · rintro ⟨w, hw, hcond, hsize, vm₂, hcheck⟩
    exact ⟨_, _, vm₂, (hfirst _).mpr rfl, rfl, (hlocked _).mpr ⟨w, hw, hsize, rfl⟩, hcond, hcheck⟩

theorem checkErrorCondition_true {vm : Engine} (h : vm.dstack = [fromBool true]) :
    ∃ vm₂, checkErrorCondition true vm = .ok vm₂ := by
  refine ⟨{ vm with dstack := [] }, ?_⟩
  unfold checkErrorCondition
  refine bind_unit_eq_ok.mpr ⟨reject_eq_ok.mpr (by simp [h]), ?_⟩
  refine bind_unit_eq_ok.mpr ⟨reject_eq_ok.mpr (by simp [h]), ?_⟩
  refine bind_eq_ok.mpr ⟨(true, { vm with dstack := [] }), popBool_ok.mpr ⟨_, _, h, rfl, rfl⟩, ?_⟩
  exact bind_unit_eq_ok.mpr ⟨reject_eq_ok.mpr (by simp), rfl⟩

theorem execute_unlock_iff {script : List ParsedOpcode} (hscript : script = pops ++ [⟨op, []⟩])
    (hop : op = opCheckSafeMultiSig ∨ op = opCheckThread)
    (hrun : ∀ minimal, PushRun minimal pops (m :: keyHashes ++ [n])) (hpairs : pairs ≠ [])
    (hkeys : keyHashes.length ≤ 90) (hhashes : ∀ h ∈ keyHashes, h.length = 20)
    (hn : ∀ minimal, makeScriptNum n minimal 4 = .ok keyHashes.length)
    (hm : ∀ minimal, makeScriptNum m minimal 4 = .ok pairs.length)
    (hvalid : ∀ p ∈ pairs, ValidSignature c tx txIdx amount p.1 p.2)
    (hmatch : (pairs.map fun p => c.hash160 p.1.serializeCompressed).Subperm keyHashes) :
    (startEngine (unlockPushes pairs) script tx txIdx flags amount).execute c = .ok () ↔
      keyHashes.length ≤ maxPubKeysPerMultiSig := by
  have hfewer : pairs.length ≤ keyHashes.length := by
    have hle := hmatch.length_le
    rwa [length_map] at hle
  rw [execute_unlock_ok hscript hop hrun hpairs (fun p hp => (hvalid p hp).length) (hfewer.trans hkeys) hkeys]
  constructor
  · rintro ⟨w, hw, -⟩
    obtain ⟨n', m', keyHashes', infos, rest, success, hchecked, -⟩ := opcodeCheckSafeMultiSig_ok.mp hw
    obtain ⟨k, hk, hnum⟩ := hchecked.numKeys
    have hstack := hchecked.stack
    have hn' : n = n' := (List.cons.inj hstack).1
    rw [← hn', hn] at hk
    cases hk
    rw [scriptNumInt32_natCast hkeys] at hnum
    have hmax := hchecked.maxKeys
    omega
  · intro hmax
    have hinfos : (sigInfos pairs).length = pairs.length := by
      unfold sigInfos
      rw [length_map, length_reverse]
    have hsigned : ∀ info ∈ sigInfos pairs,
        Signed c (lockedEngine script tx txIdx flags amount pairs m n keyHashes) info := by
      intro info hinfo
      obtain ⟨p, hp, rfl⟩ := mem_map.mp hinfo
      exact (hvalid p (mem_reverse.mp hp)).signed rfl rfl rfl
    have hsub : ((sigInfos pairs).map fun info => c.hash160 info.pubKey).Subperm keyHashes.reverse := by
      have hperm : ((sigInfos pairs).map fun info => c.hash160 info.pubKey).Perm
          (pairs.map fun p => c.hash160 p.1.serializeCompressed) := by
        unfold sigInfos
        rw [map_map]
        exact (reverse_perm pairs).map _
      exact hperm.subperm.trans (hmatch.trans (reverse_perm _).symm.subperm)
    have hchecked : CheckedMultiSig c (lockedEngine script tx txIdx flags amount pairs m n keyHashes) n m
        keyHashes.reverse (sigInfos pairs) [] true := by
      have hlimit : maxOpsPerScript = 201 := rfl
      have hlimit' : maxPubKeysPerMultiSig = 20 := rfl
      refine ⟨⟨rfl, ⟨_, hn _, ?_⟩, ?_, ?_, ?_, ⟨_, hm _, ?_⟩, ?_⟩, ?_, fun h => h.1 rfl⟩
      · rw [length_reverse, scriptNumInt32_natCast hkeys]
      · rwa [length_reverse]
      · change 1 + keyHashes.reverse.length ≤ maxOpsPerScript
        rw [length_reverse]
        omega
      · intro h hmem
        exact hhashes h (mem_reverse.mp hmem)
      · rw [hinfos, scriptNumInt32_natCast (hfewer.trans hkeys)]
      · rwa [hinfos, length_reverse]
      · refine safeMultiSigLoop_of_signed ?_ hsigned hsub
        rw [hinfos, length_reverse]
        omega
    refine ⟨_, opcodeCheckSafeMultiSig_ok.mpr ⟨n, m, _, _, _, _, hchecked, rfl⟩, rfl, ?_, checkErrorCondition_true rfl⟩
    change 1 + 0 ≤ 1000
    decide

/-! ### Any signature script -/

/-- Valid signatures for an input by so many of the keys. -/
def KeysSigned (c : Crypto) (tx : MsgTx) (txIdx : Nat) (amount : Int64) (keyHashes : List Bytes) (k : Nat) : Prop :=
  ∃ (vm : Engine) (infos : List SigInfo), (vm.tx, vm.txIdx, vm.inputAmount) = (tx, txIdx, amount) ∧
    infos.length = k ∧ (∀ info ∈ infos, Verifies c vm info) ∧
    (infos.map fun info => c.hash160 info.pubKey).Subperm keyHashes

theorem Engine.Signed.verifies {vm : Engine} {info : SigInfo} (h : Signed c vm info) : Verifies c vm info := by
  obtain ⟨htype, hcheck⟩ := bind_unit_eq_ok.mp h.2
  exact (WellEncoded.signed_iff ⟨h.1, htype, (bind_unit_eq_ok.mp hcheck).1⟩).mp h

theorem newEngine_start {script : List ParsedOpcode} {pkScript : Bytes} {vm : Engine}
    (hparse : parseScript pkScript = .ok script) (hhash : isScriptHash script = false)
    (h : newEngine pkScript tx txIdx flags amount = .ok vm) :
    ∃ s0 idx, idx ≤ 1 ∧ vm = { startEngine s0 script tx txIdx flags amount with scriptIdx := idx } := by
  unfold newEngine at h
  split at h
  · cases h
  · next ti _ =>
    obtain ⟨s0, -, h⟩ := bind_eq_ok.mp (bind_unit_eq_ok.mp (bind_unit_eq_ok.mp (bind_unit_eq_ok.mp h).2).2).2
    obtain ⟨s1, hload, h⟩ := bind_eq_ok.mp h
    cases (bind_unit_eq_ok.mp hload).2.symm.trans hparse
    cases (bind_unit_eq_ok.mp h).2
    rw [hhash, Bool.and_false]
    exact ⟨s0, if ti.signatureScript = [] then 1 else 0, by split_ifs <;> decide, rfl⟩

theorem checkErrorCondition_top {vm vm₂ : Engine} (h : checkErrorCondition true vm = .ok vm₂) :
    ∃ so s, vm.dstack = so :: s ∧ asBool so = true := by
  obtain ⟨⟨v, _⟩, hpop, h⟩ := bind_eq_ok.mp (bind_unit_eq_ok.mp (bind_unit_eq_ok.mp h).2).2
  obtain ⟨so, s, hstack, hv, -⟩ := popBool_ok.mp hpop
  exact ⟨so, s, hstack, hv.trans (Bool.of_not_eq_false (reject_eq_ok.mp (bind_unit_eq_ok.mp h).1))⟩

/-- Whatever the signature script is, an execution that succeeds ends with the script of the output. -/
theorem execute_last {s0 script : List ParsedOpcode} {idx : Nat} (hidx : idx ≤ 1) (hne : script ≠ [])
    (h : execute c { startEngine s0 script tx txIdx flags amount with scriptIdx := idx } = .ok ()) :
    ∃ v w vm₂, v.condStack = [] ∧ v.numOps = 0 ∧ (v.tx, v.txIdx, v.inputAmount) = (tx, txIdx, amount) ∧
      runScript c script v = .ok w ∧ checkErrorCondition true (w.atScript 2) = .ok vm₂ := by
  obtain ⟨_, hloop, hcheck⟩ := bind_eq_ok.mp h
  obtain rfl | rfl := Nat.le_one_iff_eq_zero_or_eq_one.mp hidx
  · have h0 : s0 ≠ [] := fun hnil => reject_eq_ok.mp (bind_unit_eq_ok.mp hloop).1 hnil
    obtain ⟨vm₀, vm₁, vm₂, hrun, hcond, hrun', -, hcheck⟩ := (execute_two_ok rfl rfl rfl h0 hne).mp h
    have hcontext := congrArg (fun v => (v.tx, v.txIdx, v.inputAmount)) (context_runScript hrun)
    exact ⟨vm₀.atScript 1, vm₁, vm₂, hcond, rfl, hcontext, hrun', hcheck⟩
  · obtain ⟨w, v, hrun, hend, hloop⟩ := (executeLoop_script rfl hne).mp hloop
    have hs : w.scripts = [s0, script] := congrArg Engine.scripts (context_runScript hrun)
    have hi : w.scriptIdx = 1 := congrArg Engine.scriptIdx (context_runScript hrun)
    have hb : w.bip16 = false := congrArg Engine.bip16 (context_runScript hrun)
    rw [endScript_plain hb (by rw [hs, hi]; simp), hi] at hend
    obtain ⟨-, rfl⟩ := hend
    have hnone : (w.atScript (1 + 1)).scripts[(w.atScript (1 + 1)).scriptIdx]? = none := by
      change w.scripts[2]? = none
      rw [hs]
      rfl
    rw [executeLoop, hnone] at hloop
    cases hloop
    cases hresult : checkErrorCondition true (w.atScript 2) with
    | error e => cases hresult ▸ hcheck
    | ok vm₂ => exact ⟨_, w, vm₂, rfl, rfl, rfl, hrun, hresult⟩

theorem execute_multiSig {s0 : List ParsedOpcode} {idx k : Nat} (hidx : idx ≤ 1)
    (hop : op = opCheckSafeMultiSig ∨ op = opCheckThread)
    (hrun : ∀ minimal, PushRun minimal pops (m :: keyHashes ++ [n]))
    (hn : ∀ minimal, makeScriptNum n minimal 4 = .ok keyHashes.length) (hkeys : keyHashes.length ≤ 90)
    (hm : ∀ minimal, makeScriptNum m minimal 4 = .ok k) (hk : k ≤ 90)
    (h : execute c { startEngine s0 (pops ++ [⟨op, []⟩]) tx txIdx flags amount with scriptIdx := idx } = .ok ()) :
    KeysSigned c tx txIdx amount keyHashes k := by
  obtain ⟨v, _, _, hcond, hops, hcontext, hlast, hcheck⟩ := execute_last hidx (by simp) h
  obtain ⟨-, w, hw, -, rfl⟩ := (runScript_multiSig hop (hrun _) hcond hops).mp hlast
  obtain ⟨n', m', keyHashes', infos, rest, success, hchecked, rfl⟩ := opcodeCheckSafeMultiSig_ok.mp hw
  -- the engine ends with what the handler says
  obtain ⟨_, _, ⟨⟩, htrue⟩ := checkErrorCondition_top hcheck
  obtain rfl : success = true := by
    cases success
    · cases htrue
    · rfl
  -- and the handler takes apart what the script has pushed
  have hstack : n :: (keyHashes.reverse ++ m :: v.dstack) = n' :: (keyHashes' ++ m' :: (unlockStack infos ++ rest)) := by
    rw [← hchecked.stack]
    simp [afterPushes, withOps]
  obtain ⟨rfl, htail⟩ := List.cons.inj hstack
  obtain ⟨j, hj, hnum⟩ := hchecked.numKeys
  obtain rfl := Except.ok.inj ((hn _).symm.trans hj)
  rw [scriptNumInt32_natCast hkeys] at hnum
  obtain ⟨rfl, hsigs⟩ := append_inj htail (length_reverse.trans (Int.ofNat.inj hnum))
  obtain ⟨rfl, -⟩ := List.cons.inj hsigs
  obtain ⟨j, hj, hnum⟩ := hchecked.numSigs
  obtain rfl := Except.ok.inj ((hm _).symm.trans hj)
  rw [scriptNumInt32_natCast hk] at hnum
  obtain ⟨hsigned, hmatch⟩ := signed_of_safeMultiSigLoop hchecked.matched
  exact ⟨_, infos, hcontext, (Int.ofNat.inj hnum).symm, fun info hinfo => (hsigned info hinfo).verifies,
    hmatch.trans (reverse_perm _).subperm⟩

end

end Prova
