import Prova.Lib.SharedOps
import Prova.Txscript.Steps
import Std.Data.ExtTreeMap.Lemmas

/-!
# The signature cache (`txscript/sigcache.go`)

The handlers that check signatures look a signature up in the cache of the engine before they verify it
and put it there after they have. The cache keeps one signature and key for a digest. It takes a lock for
each access only, so the executions that share it interleave. An entry says that its signature verifies,
for exactly the digest it stands under, so a hit never changes the verdict of an execution.
-/

namespace Prova

open Computes Std.ExtTreeMap

/-! ### The cache -/

structure SigCacheEntry where
  sig : Signature
  pubKey : PublicKey

def Signature.isEqual (sig otherSig : Signature) : Bool := sig.r == otherSig.r && sig.s == otherSig.s

structure SigCache where
  validSigs : Std.ExtTreeMap Hash SigCacheEntry compare
  maxEntries : UInt64

def newSigCache (maxEntries : UInt64) : SigCache := ⟨∅, maxEntries⟩

namespace SigCache

/-- `SigCache.Exists`. -/
def existsSig (s : SigCache) (sigHash : Hash) (sig : Signature) (pubKey : PublicKey) : Bool :=
  match s.validSigs[sigHash]? with
  | none => false
  | some entry => entry.pubKey.isEqual pubKey && entry.sig.isEqual sig

/-- The entries of a cache that takes another one. `evicted` is the key a loop over the map comes to
first, if there is any. -/
def makeRoom (s : SigCache) (evicted : Option Hash) : Std.ExtTreeMap Hash SigCacheEntry compare :=
  if s.maxEntries.toNat < s.validSigs.size + 1 then
    match evicted with
    | some sigEntry => s.validSigs.erase sigEntry
    | none => s.validSigs
  else s.validSigs

def add (s : SigCache) (evicted : Option Hash) (sigHash : Hash) (sig : Signature) (pubKey : PublicKey) :
    SigCache :=
  if s.maxEntries ≤ 0 then s
  else { s with validSigs := (s.makeRoom evicted).insert sigHash ⟨sig, pubKey⟩ }

/-- What a loop over the map may come to first. -/
def First (s : SigCache) : Option Hash → Prop
  | some sigEntry => sigEntry ∈ s.validSigs
  | none => s.validSigs = ∅

end SigCache

/-! ### Executions that use the cache -/

inductive CacheOp
  | existsSig (sigHash : Hash) (sig : Signature) (pubKey : PublicKey)
  | addSig (sigHash : Hash) (sig : Signature) (pubKey : PublicKey)

def CacheOp.Answer : CacheOp → Type
  | existsSig .. => Bool
  | addSig .. => Unit

/-- A part of an execution with a cache. -/
abbrev SigM := OpProg CacheOp CacheOp.Answer ScriptError

def CacheOp.Step (s : SigCache) : (op : CacheOp) → op.Answer → SigCache → Prop
  | existsSig sigHash sig pubKey, found, s' => found = s.existsSig sigHash sig pubKey ∧ s' = s
  | addSig sigHash sig pubKey, _, s' => ∃ evicted, s.First evicted ∧ s' = s.add evicted sigHash sig pubKey

/-- `copy(sigHash[:], hash)`. -/
def copyHash (hash : Bytes) : Hash := Hash.ofBytes (hash.take 32)

namespace SigM

def sigCacheExists (sigHash : Hash) (sig : Signature) (pubKey : PublicKey) : SigM Bool :=
  .op (.existsSig sigHash sig pubKey) fun found => .done (.ok found)

def sigCacheAdd (sigHash : Hash) (sig : Signature) (pubKey : PublicKey) : SigM Unit :=
  .op (.addSig sigHash sig pubKey) fun _ => .done (.ok ())

end SigM

section

variable (c : Crypto)

/-- How the handlers check a signature where the engine has a cache. -/
def verifyCached (sig : Signature) (hash : Bytes) (pubKey : PublicKey) : SigM Bool := do
  let sigHash := copyHash hash
  let valid ← SigM.sigCacheExists sigHash sig pubKey
  if ¬ valid ∧ c.verify sig hash pubKey then do
    SigM.sigCacheAdd sigHash sig pubKey
    return true
  else return valid

namespace Cached

abbrev SigOpFunc := ParsedOpcode → Engine → SigM Engine

def opcodeCheckSig : SigOpFunc := fun _ vm => do
  let (pkBytes, vm) ← vm.popBytes
  let (fullSigBytes, vm) ← vm.popBytes
  if fullSigBytes = [] then return vm.pushBool false
  else
    let hashType := sigHashTypeOf fullSigBytes
    let sigBytes := fullSigBytes.dropLast
    vm.checkHashTypeEncoding hashType
    vm.checkSignatureEncoding sigBytes
    vm.checkPubKeyEncoding pkBytes
    let subScript := removeOpcodeByData vm.subScript fullSigBytes
    let hash := calcSignatureHash c subScript hashType vm.tx vm.txIdx
    match parsePubKey pkBytes with
    | .error _ => return vm.pushBool false
    | .ok pubKey =>
      match vm.parseSigBytes sigBytes with
      | .error .panic => .done (.error .panic)
      | .error _ => return vm.pushBool false
      | .ok signature =>
        let valid ← verifyCached c signature hash pubKey
        reject (¬ valid ∧ vm.hasFlag scriptVerifyNullFail ∧ sigBytes ≠ []) ScriptError.nullFail
        return vm.pushBool valid

def thenVerify (f : SigOpFunc) (e : ScriptError) : SigOpFunc := fun pop vm => do
  let vm ← f pop vm
  abstractVerify e vm

def opcodeCheckSigVerify : SigOpFunc := thenVerify (opcodeCheckSig c) .checkSigVerify

def checkSigInfo (vm : Engine) (sigInfo : SigInfo) : SigM Bool := do
  let hashType := sigHashTypeOf sigInfo.signature
  let signature := sigInfo.signature.dropLast
  vm.checkHashTypeEncoding hashType
  vm.checkSignatureEncoding signature
  match vm.parseSigBytes signature with
  | .error .panic => .done (.error .panic)
  | .error _ => return false
  | .ok parsedSig =>
    vm.checkPubKeyEncoding sigInfo.pubKey
    match parsePubKey sigInfo.pubKey with
    | .error e => .done (.error (.pubKey e))
    | .ok parsedPubKey =>
      let hash := calcSignatureHashNew c hashType vm.tx vm.txIdx vm.inputAmount
      verifyCached c parsedSig hash parsedPubKey

def safeMultiSigLoop (vm : Engine) : Nat → List Bytes → List SigInfo → SigM Bool
  | _, _, [] => .done (.ok true)
  | 0, _, _ :: _ => .done (.error .diverges)
  | fuel + 1, unmatched, sigInfo :: rest =>
    if sigInfo.signature = [] then safeMultiSigLoop vm fuel unmatched (sigInfo :: rest)
    else
      let hash160 := c.hash160 sigInfo.pubKey
      if hash160 ∈ unmatched then do
        let unmatched := unmatched.erase hash160
        if ← checkSigInfo c vm sigInfo then safeMultiSigLoop vm fuel unmatched rest
        else safeMultiSigLoop vm fuel unmatched (sigInfo :: rest)
      else .done (.ok false)

def opcodeCheckSafeMultiSig : SigOpFunc := fun _ vm => do
  let (numKeys, vm) ← vm.popInt
  let numKeyHashes := scriptNumInt32 numKeys
  reject (numKeyHashes < 0 ∨ maxPubKeysPerMultiSig < numKeyHashes) ScriptError.invalidPubKeyCount
  let vm := { vm with numOps := vm.numOps + numKeyHashes.toNat }
  reject (maxOpsPerScript < vm.numOps) ScriptError.tooManyOperations
  let (keyHashes, vm) ← popKeyHashes numKeyHashes.toNat vm
  let (numSigs, vm) ← vm.popInt
  let numSignatures := scriptNumInt32 numSigs
  reject (numSignatures < 0) ScriptError.signaturesNegative
  reject (numKeyHashes < numSignatures) ScriptError.moreSignaturesThanKeyHashes
  let (signatures, vm) ← popSigInfos numSignatures.toNat vm
  let success ← safeMultiSigLoop c vm (keyHashes.length + 1) keyHashes signatures
  reject (¬ success ∧ vm.hasFlag scriptVerifyNullFail ∧ ∃ sig ∈ signatures, sig.signature ≠ [])
    ScriptError.nullFail
  return vm.pushBool success

def multiSigLoop (vm : Engine) (script : List ParsedOpcode) : List Bytes → List Bytes → SigM Bool
  | _, [] => .done (.ok true)
  | [], _ :: _ => .done (.ok false)
  | pubKey :: pubKeys, rawSig :: sigs =>
    if pubKeys.length < sigs.length then .done (.ok false)
    else if rawSig = [] then multiSigLoop vm script pubKeys (rawSig :: sigs)
    else do
      let hashType := sigHashTypeOf rawSig
      let signature := rawSig.dropLast
      vm.checkHashTypeEncoding hashType
      vm.checkSignatureEncoding signature
      match vm.parseSigBytes signature with
      | .error .panic => .done (.error .panic)
      | .error _ => multiSigLoop vm script pubKeys (rawSig :: sigs)
      | .ok parsedSig =>
        vm.checkPubKeyEncoding pubKey
        match parsePubKey pubKey with
        | .error _ => multiSigLoop vm script pubKeys (rawSig :: sigs)
        | .ok parsedPubKey =>
          let hash := calcSignatureHash c script hashType vm.tx vm.txIdx
          if ← verifyCached c parsedSig hash parsedPubKey then multiSigLoop vm script pubKeys sigs
          else multiSigLoop vm script pubKeys (rawSig :: sigs)

def opcodeCheckMultiSig : SigOpFunc := fun _ vm => do
  let (numKeys, vm) ← vm.popInt
  let numPubKeys := scriptNumInt32 numKeys
  reject (numPubKeys < 0) ScriptError.invalidPubKeyCount
  reject (maxPubKeysPerMultiSig < numPubKeys) ScriptError.invalidPubKeyCount
  let vm := { vm with numOps := vm.numOps + numPubKeys.toNat }
  reject (maxOpsPerScript < vm.numOps) ScriptError.tooManyOperations
  let (pubKeys, vm) ← popMany numPubKeys.toNat vm
  let (numSigs, vm) ← vm.popInt
  let numSignatures := scriptNumInt32 numSigs
  reject (numSignatures < 0) ScriptError.invalidSignatureCount
  reject (numPubKeys < numSignatures) ScriptError.invalidSignatureCount
  let (signatures, vm) ← popMany numSignatures.toNat vm
  let (dummy, vm) ← vm.popBytes
  reject (vm.hasFlag scriptStrictMultiSig ∧ dummy ≠ []) ScriptError.sigNullDummy
  let script := signatures.foldl removeOpcodeByData vm.subScript
  let success ← multiSigLoop c vm script pubKeys signatures
  return vm.pushBool success

def opcodeCheckMultiSigVerify : SigOpFunc := thenVerify (opcodeCheckMultiSig c) .checkMultiSigVerify

def sigOpTable : List (UInt8 × SigOpFunc) :=
  [(0xac, opcodeCheckSig c), (0xad, opcodeCheckSigVerify c), (0xae, opcodeCheckMultiSig c),
   (0xaf, opcodeCheckMultiSigVerify c), (0xba, opcodeCheckSafeMultiSig c),
   (0xbb, opcodeCheckSafeMultiSig c)]

def opFunc (op : UInt8) : SigOpFunc :=
  match (sigOpTable c).lookup op with
  | some f => f
  | none => fun pop vm => .done (Prova.opFunc c op pop vm)

def executeOpcode (pop : ParsedOpcode) (vm : Engine) : SigM Engine := do
  reject pop.isDisabled ScriptError.disabledOpcode
  reject pop.alwaysIllegal ScriptError.reservedOpcode
  let vm ← vm.countOp pop
  if ¬ vm.isBranchExecuting ∧ ¬ pop.isConditional then return vm
  else
    if vm.verifyMinimalData ∧ vm.isBranchExecuting ∧ pop.opcode ≤ opPushData4 then
      pop.checkMinimalDataPush
    opFunc c pop.opcode pop vm

def stepOpcode (vm : Engine) (pop : ParsedOpcode) : SigM Engine := do
  let vm ← executeOpcode c pop vm
  reject (maxStackSize < vm.dstack.length + vm.astack.length) ScriptError.stackOverflow
  return { vm with scriptOff := vm.scriptOff + 1 }

def runScript (script : List ParsedOpcode) (vm : Engine) : SigM Engine := script.foldlM (stepOpcode c) vm

def executeLoop : Nat → Engine → SigM Engine
  | 0, vm => .done (.ok vm)
  | n + 1, vm =>
    match vm.scripts[vm.scriptIdx]? with
    | none => .done (.ok vm)
    | some script => do
      reject (script = []) ScriptError.invalidProgramCounter
      let vm ← runScript c script vm
      let vm ← vm.endScript
      executeLoop n vm

def execute (vm : Engine) : SigM Unit := do
  let vm ← executeLoop c 3 vm
  liftM (discard (vm.checkErrorCondition true))

end Cached

end

/-! ### A hit never changes a verdict -/

theorem bytes_copyHash {hash : Bytes} (h : hash.length = 32) : (copyHash hash).bytes = hash := by
  rw [copyHash, List.take_of_length_le h.le, Hash.bytes_ofBytes h]

theorem Signature.isEqual_iff {sig otherSig : Signature} : sig.isEqual otherSig = true ↔ sig = otherSig := by
  cases sig
  cases otherSig
  simp [Signature.isEqual]

theorem length_calcSignatureHash (c : Crypto) (script : List ParsedOpcode) (hashType : SigHashType)
    (tx : MsgTx) (idx : Nat) : (calcSignatureHash c script hashType tx idx).length = 32 := by
  by_cases h : hashType &&& sigHashMask = sigHashSingle ∧ tx.txOut.length ≤ idx
  · rw [calcSignatureHash, if_pos h, List.length_cons, List.length_replicate]
  · rw [calcSignatureHash, if_neg h]
    exact Hash.length_bytes _

theorem length_calcSignatureHashNew (c : Crypto) (hashType : SigHashType) {tx : MsgTx} {idx : Nat}
    (amt : Int64) (h : idx < tx.txIn.length) : (calcSignatureHashNew c hashType tx idx amt).length = 32 := by
  rw [calcSignatureHashNew, List.getElem?_eq_getElem h]
  exact Hash.length_bytes _

/-- Only what verifies is put into the cache, and only what verifies is found in it. -/
def sigContract (c : Crypto) : Contract CacheOp CacheOp.Answer where
  pre
    | .existsSig .. => True
    | .addSig sigHash sig pubKey => c.verify sig sigHash.bytes pubKey = true
  post
    | .existsSig sigHash sig pubKey, found => found = true → c.verify sig sigHash.bytes pubKey = true
    | .addSig .., _ => True

namespace Engine

def InRange (vm : Engine) : Prop := vm.txIdx < vm.tx.txIn.length

theorem InRange.of_context {vm vm' : Engine} (h : vm.InRange) (hcontext : vm'.context = vm.context) : vm'.InRange := by
  have hrange : vm.context.txIdx < vm.context.tx.txIn.length := h
  rwa [← hcontext] at hrange

theorem InRange.nextScript {vm : Engine} (h : vm.InRange) : Ensures vm.nextScript InRange := by
  unfold Engine.nextScript
  split_ifs
  · exact ensures_ok h
  · have hsecond : Engine.InRange { vm with scriptIdx := 2 } := h
    refine Ensures.bind (ensures_bind fun _ => ensures_bind fun _ => (context_popBool _).bind fun _ hpop =>
      ensures_bind fun _ => ensures_ok (hsecond.of_context hpop)) fun popped hrange => ?_
    cases popped.savedFirstStack with
    | nil => exact ensures_error
    | cons script rest => exact ensures_bind fun _ => ensures_ok hrange
  · exact ensures_ok h

theorem InRange.endScript {vm : Engine} (h : vm.InRange) : Ensures vm.endScript InRange := by
  have hcleared : Engine.InRange { vm with astack := [], numOps := 0, scriptOff := 0 } := h
  refine ensures_bind fun _ => hcleared.nextScript.bind fun next hnext => ensures_ok ?_
  split_ifs <;> exact hnext

end Engine

namespace Cached

variable {c : Crypto} {vm : Engine}

theorem verifyCached_computes (sig : Signature) {hash : Bytes} (pubKey : PublicKey) (h : hash.length = 32) :
    Computes (sigContract c) (.ok (c.verify sig hash pubKey)) (verifyCached c sig hash pubKey) := by
  refine ⟨trivial, fun (found : Bool) hfound => ?_⟩
  have hentry : found = true → c.verify sig hash pubKey = true := by
    have hfound : found = true → c.verify sig (copyHash hash).bytes pubKey = true := hfound
    rwa [bytes_copyHash h] at hfound
  change Computes (sigContract c) _
    (if ¬ found = true ∧ c.verify sig hash pubKey = true then
      SigM.sigCacheAdd (copyHash hash) sig pubKey >>= fun _ => pure true
    else .done (.ok found))
  cases found with
  | true =>
    rw [hentry rfl]
    exact rfl
  | false =>
    cases hverify : c.verify sig hash pubKey with
    | false =>
      rw [if_neg (by simp)]
      exact rfl
    | true =>
      rw [if_pos (by simp)]
      have hadd : c.verify sig (copyHash hash).bytes pubKey = true := by
        rw [bytes_copyHash h]
        exact hverify
      exact ⟨hadd, fun _ _ => rfl⟩

theorem opcodeCheckSig_computes (pop : ParsedOpcode) (vm : Engine) :
    Computes (sigContract c) (Prova.opcodeCheckSig c pop vm) (opcodeCheckSig c pop vm) := by
  refine lift_bind fun ⟨pkBytes, vm⟩ _ => lift_bind fun ⟨fullSigBytes, vm⟩ _ => ?_
  dsimp only
  split_ifs with hempty
  · exact rfl
  refine lift_bind fun _ _ => lift_bind fun _ _ => lift_bind fun _ _ => ?_
  cases parsePubKey pkBytes with
  | error e => exact rfl
  | ok pubKey =>
    dsimp only
    cases vm.parseSigBytes fullSigBytes.dropLast with
    | error e => cases e <;> exact rfl
    | ok signature =>
      refine (verifyCached_computes signature pubKey (length_calcSignatureHash _ _ _ _ _)).ok_bind ?_
      exact lift_bind fun _ _ => rfl

theorem thenVerify_computes {f : OpFunc} {g : SigOpFunc} (e : ScriptError)
    (h : ∀ pop vm, Computes (sigContract c) (f pop vm) (g pop vm)) (pop : ParsedOpcode) (vm : Engine) :
    Computes (sigContract c) (Prova.thenVerify f e pop vm) (thenVerify g e pop vm) :=
  (h pop vm).bind fun _ _ => rfl

theorem checkSigInfo_computes (hrange : vm.InRange) (sigInfo : SigInfo) :
    Computes (sigContract c) (Prova.checkSigInfo c vm sigInfo) (checkSigInfo c vm sigInfo) := by
  refine lift_bind fun _ _ => lift_bind fun _ _ => ?_
  dsimp only
  cases vm.parseSigBytes sigInfo.signature.dropLast with
  | error e => cases e <;> exact rfl
  | ok parsedSig =>
    refine lift_bind fun _ _ => ?_
    cases parsePubKey sigInfo.pubKey with
    | error e => exact rfl
    | ok parsedPubKey =>
      exact verifyCached_computes parsedSig parsedPubKey (length_calcSignatureHashNew _ _ _ hrange)

theorem safeMultiSigLoop_computes (hrange : vm.InRange) (fuel : Nat) (unmatched : List Bytes) (infos : List SigInfo) :
    Computes (sigContract c) (Prova.safeMultiSigLoop c vm fuel unmatched infos)
      (safeMultiSigLoop c vm fuel unmatched infos) := by
  induction fuel generalizing unmatched infos with
  | zero => cases infos <;> exact rfl
  | succ fuel ih =>
    cases infos with
    | nil => exact rfl
    | cons sigInfo rest =>
      rw [Prova.safeMultiSigLoop, safeMultiSigLoop]
      dsimp only
      split_ifs with hempty hmem
      · exact ih unmatched (sigInfo :: rest)
      · refine (checkSigInfo_computes hrange sigInfo).bind fun valid _ => ?_
        cases valid with
        | true => exact ih _ rest
        | false => exact ih _ (sigInfo :: rest)
      · exact rfl

theorem opcodeCheckSafeMultiSig_computes (pop : ParsedOpcode) (hrange : vm.InRange) :
    Computes (sigContract c) (Prova.opcodeCheckSafeMultiSig c pop vm) (opcodeCheckSafeMultiSig c pop vm) := by
  refine lift_bind fun ⟨numKeys, vm₁⟩ h₁ => ?_
  refine lift_bind fun _ _ => lift_bind fun _ _ => ?_
  refine lift_bind fun ⟨keyHashes, vm₂⟩ h₂ => lift_bind fun ⟨numSigs, vm₃⟩ h₃ => ?_
  refine lift_bind fun _ _ => lift_bind fun _ _ => ?_
  refine lift_bind fun ⟨signatures, vm₄⟩ h₄ => ?_
  have hpopped : vm₁.context = vm.context := Engine.context_popInt _ _ h₁
  have hkeys : vm₂.context = vm₁.context :=
    (Engine.context_popKeyHashes _ _ h₂ :)
  have hcontext : vm₄.context = vm.context :=
    (Engine.context_popSigInfos _ _ h₄).trans ((Engine.context_popInt _ _ h₃).trans (hkeys.trans hpopped))
  refine (safeMultiSigLoop_computes (hrange.of_context hcontext) _ keyHashes signatures).bind
    fun success _ => ?_
  exact lift_bind fun _ _ => rfl

theorem multiSigLoop_computes (script : List ParsedOpcode) (pubKeys sigs : List Bytes) :
    Computes (sigContract c) (Prova.multiSigLoop c vm script pubKeys sigs) (multiSigLoop c vm script pubKeys sigs) := by
  induction pubKeys generalizing sigs with
  | nil => cases sigs <;> exact rfl
  | cons pubKey pubKeys ih =>
    cases sigs with
    | nil => exact rfl
    | cons rawSig sigs =>
      rw [Prova.multiSigLoop, multiSigLoop]
      split_ifs with hfew hempty
      · exact rfl
      · exact ih (rawSig :: sigs)
      · refine lift_bind fun _ _ => lift_bind fun _ _ => ?_
        dsimp only
        cases vm.parseSigBytes rawSig.dropLast with
        | error e => cases e <;> first | exact rfl | exact ih (rawSig :: sigs)
        | ok parsedSig =>
          refine lift_bind fun _ _ => ?_
          cases parsePubKey pubKey with
          | error e => exact ih (rawSig :: sigs)
          | ok parsedPubKey =>
            refine (verifyCached_computes parsedSig parsedPubKey (length_calcSignatureHash _ _ _ _ _)).ok_bind ?_
            dsimp only
            split_ifs
            · exact ih sigs
            · exact ih (rawSig :: sigs)

theorem opcodeCheckMultiSig_computes (pop : ParsedOpcode) (vm : Engine) :
    Computes (sigContract c) (Prova.opcodeCheckMultiSig c pop vm) (opcodeCheckMultiSig c pop vm) := by
  refine lift_bind fun ⟨numKeys, vm₁⟩ _ => ?_
  refine lift_bind fun _ _ => lift_bind fun _ _ => lift_bind fun _ _ => ?_
  refine lift_bind fun ⟨pubKeys, vm₂⟩ _ => lift_bind fun ⟨numSigs, vm₃⟩ _ => ?_
  refine lift_bind fun _ _ => lift_bind fun _ _ => ?_
  refine lift_bind fun ⟨signatures, vm₄⟩ _ => lift_bind fun ⟨dummy, vm₅⟩ _ => ?_
  refine lift_bind fun _ _ => ?_
  exact (multiSigLoop_computes _ pubKeys signatures).bind fun success _ => rfl

theorem opFunc_computes (op : UInt8) (pop : ParsedOpcode) (hrange : vm.InRange) :
    Computes (sigContract c) (Prova.opFunc c op pop vm) (opFunc c op pop vm) := by
  rw [opFunc]
  cases hlookup : (sigOpTable c).lookup op with
  | none => exact rfl
  | some f =>
    obtain ⟨before, after, htable, -⟩ := List.lookup_eq_some_iff.mp hlookup
    have hmem : (op, f) ∈ sigOpTable c := by simp [htable]
    simp only [sigOpTable, List.mem_cons, Prod.mk.injEq, List.not_mem_nil, or_false] at hmem
    rcases hmem with ⟨rfl, rfl⟩ | ⟨rfl, rfl⟩ | ⟨rfl, rfl⟩ | ⟨rfl, rfl⟩ | ⟨rfl, rfl⟩ | ⟨rfl, rfl⟩
    · exact opcodeCheckSig_computes pop vm
    · exact thenVerify_computes .checkSigVerify opcodeCheckSig_computes pop vm
    · exact opcodeCheckMultiSig_computes pop vm
    · exact thenVerify_computes .checkMultiSigVerify opcodeCheckMultiSig_computes pop vm
    · exact opcodeCheckSafeMultiSig_computes pop hrange
    · exact opcodeCheckSafeMultiSig_computes pop hrange

theorem stepOpcode_computes (pop : ParsedOpcode) (hrange : vm.InRange) :
    Computes (sigContract c) (vm.stepOpcode c pop) (stepOpcode c vm pop) := by
  have hexecute : Computes (sigContract c) (Engine.executeOpcode c pop vm) (executeOpcode c pop vm) := by
    refine lift_bind fun _ _ => lift_bind fun _ _ => ?_
    refine lift_bind fun vm₁ hcount => ?_
    have hrange₁ : vm₁.InRange := hrange.of_context (Engine.context_countOp _ hcount)
    split_ifs
    · exact rfl
    · exact lift_bind fun _ _ => opFunc_computes pop.opcode pop hrange₁
    · exact opFunc_computes pop.opcode pop hrange₁
  exact hexecute.bind fun _ _ => lift_bind fun _ _ => rfl

theorem executeLoop_computes (n : Nat) (hrange : vm.InRange) :
    Computes (sigContract c) (Engine.executeLoop c n vm) (executeLoop c n vm) := by
  induction n generalizing vm with
  | zero => exact rfl
  | succ n ih =>
    rw [Engine.executeLoop, executeLoop]
    cases vm.scripts[vm.scriptIdx]? with
    | none => exact rfl
    | some script =>
      refine lift_bind fun _ _ => ?_
      have hrun : Computes (sigContract c) (Engine.runScript c script vm) (runScript c script vm) :=
        foldlM Engine.InRange (fun s pop hs => stepOpcode_computes pop hs)
          (fun s pop t hs hstep => hs.of_context (Engine.context_stepOpcode _ hstep)) script hrange
      refine hrun.bind fun vm₁ h₁ => lift_bind fun vm₂ h₂ => ?_
      exact ih ((hrange.of_context (Engine.context_runScript h₁)).endScript _ h₂)

theorem execute_computes (hrange : vm.InRange) : Computes (sigContract c) (Engine.execute c vm) (execute c vm) :=
  (executeLoop_computes 3 hrange).bind fun _ _ => rfl

end Cached

/-! ### Histories of executions -/

/-- The arguments of `NewEngine`. -/
structure ScriptCheck where
  scriptPubKey : Bytes
  tx : MsgTx
  txIdx : Nat
  flags : ScriptFlags
  inputAmount : Int64

namespace ScriptCheck

def verdict (c : Crypto) (k : ScriptCheck) : Except ScriptError Unit := do
  let vm ← newEngine k.scriptPubKey k.tx k.txIdx k.flags k.inputAmount
  vm.execute c

/-- `NewEngine` and `Execute` with a cache. -/
def run (c : Crypto) (k : ScriptCheck) : SigM Unit := do
  let vm ← newEngine k.scriptPubKey k.tx k.txIdx k.flags k.inputAmount
  Cached.execute c vm

end ScriptCheck

theorem inRange_newEngine {scriptPubKey : Bytes} {tx : MsgTx} {txIdx : Nat} {flags : ScriptFlags} {inputAmount : Int64} :
    Ensures (newEngine scriptPubKey tx txIdx flags inputAmount) Engine.InRange := by
  unfold newEngine
  cases hti : tx.txIn[txIdx]? with
  | none => exact ensures_error
  | some ti =>
    have hlt : txIdx < tx.txIn.length := (List.getElem?_eq_some_iff.mp hti).1
    exact ensures_bind fun _ => ensures_bind fun _ => ensures_bind fun _ => ensures_bind fun _ => ensures_bind fun _ =>
      ensures_bind fun _ => ensures_ok hlt

theorem ScriptCheck.run_computes (c : Crypto) (k : ScriptCheck) : Computes (sigContract c) (k.verdict c) (k.run c) :=
  lift_bind fun _ hvm => Cached.execute_computes (inRange_newEngine _ hvm)

namespace SigCache

/-- Every entry verifies for the digest it stands under, and the cache is not over its size. -/
structure Sound (c : Crypto) (limit : UInt64) (s : SigCache) : Prop where
  maxEntries_eq : s.maxEntries = limit
  size_le : s.validSigs.size ≤ limit.toNat
  verifies : ∀ (sigHash : Hash) (entry : SigCacheEntry), s.validSigs[sigHash]? = some entry →
    c.verify entry.sig sigHash.bytes entry.pubKey = true

variable {c : Crypto} {limit : UInt64} {s : SigCache} {sigHash : Hash} {sig : Signature}
  {pubKey : PublicKey} {evicted : Option Hash}

theorem sound_new : (newSigCache limit).Sound c limit where
  maxEntries_eq := rfl
  size_le := by simp [newSigCache]
  verifies := fun sigHash entry h => by simp [newSigCache] at h

theorem Sound.verify_of_existsSig (h : s.Sound c limit) (hfound : s.existsSig sigHash sig pubKey = true) :
    c.verify sig sigHash.bytes pubKey = true := by
  unfold existsSig at hfound
  cases hentry : s.validSigs[sigHash]? with
  | none =>
    rw [hentry] at hfound
    cases hfound
  | some entry =>
    rw [hentry] at hfound
    simp only [Bool.and_eq_true, PublicKey.isEqual_iff, Signature.isEqual_iff] at hfound
    rw [← hfound.1, ← hfound.2]
    exact h.verifies sigHash entry hentry

theorem getElem?_of_makeRoom {other : Hash} {entry : SigCacheEntry}
    (h : (s.makeRoom evicted)[other]? = some entry) : s.validSigs[other]? = some entry := by
  unfold makeRoom at h
  split_ifs at h
  · cases evicted with
    | none => exact h
    | some sigEntry =>
      simp only [getElem?_erase] at h
      split_ifs at h
      exact h
  · exact h

theorem size_makeRoom_lt (hpos : 0 < s.maxEntries.toNat) (hfirst : s.First evicted)
    (hsize : s.validSigs.size ≤ s.maxEntries.toNat) : (s.makeRoom evicted).size < s.maxEntries.toNat := by
  unfold makeRoom
  split_ifs with hfull
  · cases evicted with
    | none =>
      have hempty : s.validSigs = ∅ := hfirst
      simpa only [hempty, size_empty] using hpos
    | some sigEntry =>
      have hmem : s.validSigs.contains sigEntry = true := hfirst
      have hnonempty : s.validSigs.size ≠ 0 := by
        intro h0
        rw [eq_empty_iff_size_eq_zero.mpr h0] at hmem
        simp at hmem
      simp only [size_erase, hmem, if_true]
      omega
  · omega

theorem Sound.add (h : s.Sound c limit) (hfirst : s.First evicted)
    (hverify : c.verify sig sigHash.bytes pubKey = true) : (s.add evicted sigHash sig pubKey).Sound c limit := by
  obtain ⟨hmax, hsize, hverifies⟩ := h
  subst hmax
  unfold SigCache.add
  split_ifs with hzero
  · exact ⟨rfl, hsize, hverifies⟩
  have hpos : 0 < s.maxEntries.toNat := by
    rw [UInt64.le_iff_toNat_le, UInt64.toNat_zero] at hzero
    omega
  refine ⟨rfl, ?_, fun other entry hentry => ?_⟩
  · exact size_insert_le.trans (size_makeRoom_lt hpos hfirst hsize)
  · simp only [getElem?_insert] at hentry
    split_ifs at hentry with heq
    · obtain rfl := Std.compare_eq_iff_eq.mp heq
      cases hentry
      exact hverify
    · exact hverifies other entry (getElem?_of_makeRoom hentry)

theorem exists_first (s : SigCache) : ∃ evicted, s.First evicted := by
  by_cases h : s.validSigs = ∅
  · exact ⟨none, h⟩
  · obtain ⟨sigEntry, hmem⟩ : ∃ sigEntry, sigEntry ∈ s.validSigs := by
      by_contra hnone
      simp only [not_exists] at hnone
      exact h (eq_empty_iff_forall_not_mem.mpr hnone)
    exact ⟨some sigEntry, hmem⟩

end SigCache

theorem CacheOp.Step.sound {c : Crypto} {limit : UInt64} {s s' : SigCache} {op : CacheOp}
    {a : op.Answer} (h : s.Sound c limit) (hpre : (sigContract c).pre op) (hstep : op.Step s a s') :
    s'.Sound c limit ∧ (sigContract c).post op a := by
  cases op with
  | existsSig sigHash sig pubKey =>
    obtain ⟨rfl, rfl⟩ := hstep
    exact ⟨h, h.verify_of_existsSig⟩
  | addSig sigHash sig pubKey =>
    obtain ⟨evicted, hfirst, rfl⟩ := hstep
    exact ⟨h.add hfirst hpre, trivial⟩

theorem CacheOp.exists_step (s : SigCache) (op : CacheOp) : ∃ a s', op.Step s a s' := by
  cases op with
  | existsSig sigHash sig pubKey => exact ⟨_, _, rfl, rfl⟩
  | addSig sigHash sig pubKey =>
    obtain ⟨evicted, hfirst⟩ := s.exists_first
    exact ⟨(), _, evicted, hfirst, rfl⟩

/-- In every history of executions that share a cache, interleaved in any way and with any entries
dropped, the cache is within its size, an execution that is done has the verdict it has without a cache,
and one that is not done can be left to itself until it has that verdict. -/
theorem verdicts_do_not_depend_on_cache (c : Crypto) (maxEntries : UInt64)
    {pool : OpPool SigCache ScriptCheck CacheOp CacheOp.Answer ScriptError Unit}
    (h : History CacheOp.Step (ScriptCheck.run c) (newSigCache maxEntries) pool) :
    pool.state.validSigs.size ≤ maxEntries.toNat ∧ (∀ k r, (k, OpProg.done r) ∈ pool.jobs → r = k.verdict c) ∧
      ∀ before k p after, pool.jobs = before ++ (k, p) :: after →
        ∃ s, History CacheOp.Step (ScriptCheck.run c) (newSigCache maxEntries)
          ⟨s, before ++ (k, .done (k.verdict c)) :: after⟩ := by
  have hstep : ∀ (s : SigCache) (op : CacheOp) (a : op.Answer) (s' : SigCache), s.Sound c maxEntries → (sigContract c).pre op →
      op.Step s a s' → s'.Sound c maxEntries ∧ (sigContract c).post op a :=
    fun _ _ _ _ => CacheOp.Step.sound
  obtain ⟨hsound, hjobs⟩ := h.computes SigCache.sound_new hstep (ScriptCheck.run_computes c)
  refine ⟨hsound.size_le, fun k r hk => hjobs _ hk, fun before k p after hpool => ?_⟩
  obtain ⟨s, hfinish⟩ := finishes hstep (fun s op _ _ => op.exists_step s)
    (hjobs (k, p) (by simp [hpool])) hsound
  refine ⟨s, History.finish hfinish ?_⟩
  rw [← hpool]
  exact h

namespace SharedCacheSample

/-- Takes one signature for valid. -/
def crypto : Crypto := ⟨fun _ => 0, fun _ => 0, fun _ => 0, fun _ => 0, fun _ _ r s => r == 1 && s == 1⟩

def pubKey : Bytes := 0x02 :: beBytes 32 0x79BE667EF9DCBBAC55A06295CE870B07029BFCDB2DCE28D959F2815B16F81798

/-- Spends with a signature whose two numbers are `r` and 1. -/
def check (r : UInt8) : ScriptCheck where
  scriptPubKey := 0x21 :: pubKey ++ [0xac]
  tx := ⟨1, [⟨⟨0, 0⟩, [0x09, 0x30, 0x06, 0x02, 0x01, r, 0x02, 0x01, 0x01, 0x01], 0⟩], [], 0⟩
  txIdx := 0
  flags := 0
  inputAmount := 0

theorem verdict_valid : (check 1).verdict crypto = .ok () := by decide +kernel

theorem verdict_invalid : (check 2).verdict crypto = .error .evalFalse := by decide +kernel

end SharedCacheSample

open SharedCacheSample in
theorem verdicts_do_not_depend_on_cache_pair :
    ∃ s : SigCache, History CacheOp.Step (ScriptCheck.run crypto) (newSigCache 1)
      ⟨s, [(check 2, .done (.error .evalFalse)), (check 1, .done (.ok ()))]⟩ ∧ s.validSigs.size ≤ 1 := by
  obtain ⟨-, -, hfirst⟩ := verdicts_do_not_depend_on_cache crypto 1 (.begin (check 1) .start)
  obtain ⟨s₁, h₁⟩ := hfirst [] _ _ [] rfl
  obtain ⟨-, -, hsecond⟩ := verdicts_do_not_depend_on_cache crypto 1 (.begin (check 2) h₁)
  obtain ⟨s₂, h₂⟩ := hsecond [] _ _ _ rfl
  rw [verdict_valid, verdict_invalid] at h₂
  exact ⟨s₂, h₂, (verdicts_do_not_depend_on_cache crypto 1 h₂).1⟩

end Prova
