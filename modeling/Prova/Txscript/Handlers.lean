import Prova.Txscript.Engine

/-!
# Opcode handlers (`txscript/opcode.go`)

One definition per handler of the opcode table, under the source's names. Families of handlers that
differ in a function on numbers or on the stack are instances of one definition.
-/

namespace Prova

abbrev OpFunc := ParsedOpcode → Engine → Except ScriptError Engine

open Engine

def opcodeDisabled : OpFunc := fun _ _ => .error .disabledOpcode
def opcodeReserved : OpFunc := fun _ _ => .error .reservedOpcode
def opcodeInvalid : OpFunc := fun _ _ => .error .reservedOpcode
def opcodeFalse : OpFunc := fun _ vm => .ok (vm.push [])
def opcodePushData : OpFunc := fun pop vm => .ok (vm.push pop.data)
def opcode1Negate : OpFunc := fun _ vm => .ok (vm.pushInt (-1))
def opcodeN : OpFunc := fun pop vm => .ok (vm.pushInt (pop.opcode - (op1 - 1)).toNat)

/-- `opcodeNop`: the numbered ones are reserved for upgrades. -/
def opcodeNop : OpFunc := fun pop vm => do
  reject ((pop.opcode = opNop1 ∨ opNop4 ≤ pop.opcode ∧ pop.opcode ≤ opNop10) ∧
    vm.hasFlag scriptDiscourageUpgradableNops) .discourageUpgradableNOPs
  return vm

/-! ### Conditions -/

/-- `opcodeIf` and `opcodeNotIf`, which take the branch on a true or a false element. -/
def beginCond (takenOn : Bool) : OpFunc := fun _ vm =>
  if vm.isBranchExecuting then do
    let (ok, vm) ← vm.popBool
    let cond := if ok = takenOn then OpCond.condTrue else OpCond.condFalse
    return { vm with condStack := cond :: vm.condStack }
  else .ok { vm with condStack := .condSkip :: vm.condStack }

def opcodeIf : OpFunc := beginCond true
def opcodeNotIf : OpFunc := beginCond false

def opcodeElse : OpFunc := fun _ vm =>
  match vm.condStack with
  | [] => .error .unbalancedConditional
  | .condTrue :: conds => .ok { vm with condStack := .condFalse :: conds }
  | .condFalse :: conds => .ok { vm with condStack := .condTrue :: conds }
  | .condSkip :: _ => .ok vm

def opcodeEndif : OpFunc := fun _ vm =>
  match vm.condStack with
  | [] => .error .unbalancedConditional
  | _ :: conds => .ok { vm with condStack := conds }

def abstractVerify (e : ScriptError) (vm : Engine) : Except ScriptError Engine := do
  let (verified, vm) ← vm.popBool
  reject (verified = false) e
  return vm

/-- A handler followed by the check of the element it leaves. -/
def thenVerify (f : OpFunc) (e : ScriptError) : OpFunc := fun pop vm => do
  let vm ← f pop vm
  abstractVerify e vm

def opcodeVerify : OpFunc := fun _ vm => abstractVerify .verify vm
def opcodeReturn : OpFunc := fun _ _ => .error .earlyReturn

/-! ### Lock times -/

def lockTimeThreshold : Int := 500000000

def verifyLockTime (txLockTime thresholdTime lockTime : Int) : Except ScriptError Unit := do
  reject (¬ (txLockTime < thresholdTime ∧ lockTime < thresholdTime ∨
    thresholdTime ≤ txLockTime ∧ thresholdTime ≤ lockTime)) .unsatisfiedLockTime
  reject (txLockTime < lockTime) .unsatisfiedLockTime

def inputSequence (vm : Engine) : UInt32 :=
  match vm.tx.txIn[vm.txIdx]? with
  | some ti => ti.sequence
  | none => 0

def opcodeCheckLockTimeVerify : OpFunc := fun _ vm =>
  if vm.hasFlag scriptVerifyCheckLockTimeVerify then do
    let so ← vm.dstack.peek 0
    let lockTime ← makeScriptNum so vm.verifyMinimalData 5
    reject (lockTime < 0) .negativeLockTime
    verifyLockTime vm.tx.lockTime.toNat lockTimeThreshold lockTime
    reject (inputSequence vm = maxTxInSequenceNum) .unsatisfiedLockTime
    return vm
  else do
    reject (vm.hasFlag scriptDiscourageUpgradableNops) .discourageUpgradableNOPs
    return vm

def sequenceLockTimeDisabled : Nat := 2 ^ 31
def sequenceLockTimeIsSeconds : Nat := 2 ^ 22
def sequenceLockTimeMask : Nat := 0x0000ffff

def opcodeCheckSequenceVerify : OpFunc := fun _ vm =>
  if vm.hasFlag scriptVerifyCheckSequenceVerify then do
    let so ← vm.dstack.peek 0
    let stackSequence ← makeScriptNum so vm.verifyMinimalData 5
    reject (stackSequence < 0) .negativeLockTime
    let sequence := stackSequence.toNat
    if sequence &&& sequenceLockTimeDisabled ≠ 0 then return vm
    else
      reject (vm.tx.version < 2) .unsatisfiedLockTime
      let txSequence := (inputSequence vm).toNat
      reject (txSequence &&& sequenceLockTimeDisabled ≠ 0) .unsatisfiedLockTime
      let lockTimeMask := sequenceLockTimeIsSeconds ||| sequenceLockTimeMask
      verifyLockTime (txSequence &&& lockTimeMask : Nat) sequenceLockTimeIsSeconds
        (sequence &&& lockTimeMask : Nat)
      return vm
  else do
    reject (vm.hasFlag scriptDiscourageUpgradableNops) .discourageUpgradableNOPs
    return vm

/-! ### Stack manipulation -/

def opcodeToAltStack : OpFunc := fun _ vm => do
  let (so, vm) ← vm.popBytes
  return { vm with astack := so :: vm.astack }

def opcodeFromAltStack : OpFunc := fun _ vm => do
  let (so, s) ← vm.astack.pop
  return { vm with astack := s, dstack := so :: vm.dstack }

def opcode2Drop : OpFunc := fun _ => onStack (Stack.dropN 2)
def opcode2Dup : OpFunc := fun _ => onStack (Stack.dupN 2)
def opcode3Dup : OpFunc := fun _ => onStack (Stack.dupN 3)
def opcode2Over : OpFunc := fun _ => onStack (Stack.overN 2)
def opcode2Rot : OpFunc := fun _ => onStack (Stack.rotN 2)
def opcode2Swap : OpFunc := fun _ => onStack (Stack.swapN 2)
def opcodeDrop : OpFunc := fun _ => onStack (Stack.dropN 1)
def opcodeDup : OpFunc := fun _ => onStack (Stack.dupN 1)
def opcodeOver : OpFunc := fun _ => onStack (Stack.overN 1)
def opcodeRot : OpFunc := fun _ => onStack (Stack.rotN 1)
def opcodeSwap : OpFunc := fun _ => onStack (Stack.swapN 1)
def opcodeTuck : OpFunc := fun _ => onStack Stack.tuck

def opcodeNip : OpFunc := fun _ => onStack fun s => do
  let (_, s) ← s.nipN 1
  return s

def opcodeIfDup : OpFunc := fun _ vm => do
  let so ← vm.dstack.peek 0
  return if asBool so then vm.push so else vm

def opcodeDepth : OpFunc := fun _ vm => .ok (vm.pushInt vm.dstack.length)

def opcodePick : OpFunc := fun _ vm => do
  let (val, vm) ← vm.popInt
  vm.onStack (Stack.pickN (scriptNumInt32 val))

def opcodeRoll : OpFunc := fun _ vm => do
  let (val, vm) ← vm.popInt
  vm.onStack (Stack.rollN (scriptNumInt32 val))

def opcodeSize : OpFunc := fun _ vm => do
  let so ← vm.dstack.peek 0
  return vm.pushInt so.length

def opcodeEqual : OpFunc := fun _ vm => do
  let (a, vm) ← vm.popBytes
  let (b, vm) ← vm.popBytes
  return vm.pushBool (a = b)

def opcodeEqualVerify : OpFunc := thenVerify opcodeEqual .equalVerify

/-! ### Arithmetic -/

def unaryNum (f : Int → Int) : OpFunc := fun _ vm => do
  let (m, vm) ← vm.popInt
  return vm.pushInt (f m)

/-- A handler that replaces the two numbers on top by a function of them, `v0` popped first. -/
def binaryNum (f : Int → Int → Int) : OpFunc := fun _ vm => do
  let (v0, vm) ← vm.popInt
  let (v1, vm) ← vm.popInt
  return vm.pushInt (f v0 v1)

def ofCond (c : Prop) [Decidable c] : Int := if c then 1 else 0

def opcode1Add : OpFunc := unaryNum fun m => m + 1
def opcode1Sub : OpFunc := unaryNum fun m => m - 1
def opcodeNegate : OpFunc := unaryNum fun m => -m
def opcodeAbs : OpFunc := unaryNum fun m => if m < 0 then -m else m
def opcodeNot : OpFunc := unaryNum fun m => ofCond (m = 0)
def opcode0NotEqual : OpFunc := unaryNum fun m => ofCond (m ≠ 0)
def opcodeAdd : OpFunc := binaryNum fun v0 v1 => v0 + v1
def opcodeSub : OpFunc := binaryNum fun v0 v1 => v1 - v0
def opcodeBoolAnd : OpFunc := binaryNum fun v0 v1 => ofCond (v0 ≠ 0 ∧ v1 ≠ 0)
def opcodeBoolOr : OpFunc := binaryNum fun v0 v1 => ofCond (v0 ≠ 0 ∨ v1 ≠ 0)
def opcodeNumEqual : OpFunc := binaryNum fun v0 v1 => ofCond (v0 = v1)
def opcodeNumEqualVerify : OpFunc := thenVerify opcodeNumEqual .numEqualVerify
def opcodeNumNotEqual : OpFunc := binaryNum fun v0 v1 => ofCond (v0 ≠ v1)
def opcodeLessThan : OpFunc := binaryNum fun v0 v1 => ofCond (v1 < v0)
def opcodeGreaterThan : OpFunc := binaryNum fun v0 v1 => ofCond (v0 < v1)
def opcodeLessThanOrEqual : OpFunc := binaryNum fun v0 v1 => ofCond (v1 ≤ v0)
def opcodeGreaterThanOrEqual : OpFunc := binaryNum fun v0 v1 => ofCond (v0 ≤ v1)
def opcodeMin : OpFunc := binaryNum fun v0 v1 => if v1 < v0 then v1 else v0
def opcodeMax : OpFunc := binaryNum fun v0 v1 => if v0 < v1 then v1 else v0

def opcodeWithin : OpFunc := fun _ vm => do
  let (maxVal, vm) ← vm.popInt
  let (minVal, vm) ← vm.popInt
  let (x, vm) ← vm.popInt
  return vm.pushInt (ofCond (minVal ≤ x ∧ x < maxVal))

/-! ### Hashes and signatures -/

section

variable (c : Crypto)

def hashTop (f : Bytes → Bytes) : OpFunc := fun _ vm => do
  let (buf, vm) ← vm.popBytes
  return vm.push (f buf)

def opcodeRipemd160 : OpFunc := hashTop c.ripemd160B
def opcodeSha1 : OpFunc := hashTop c.sha1B
def opcodeSha256 : OpFunc := hashTop fun b => (c.sha256 b).bytes
def opcodeHash160 : OpFunc := hashTop c.hash160
def opcodeHash256 : OpFunc := hashTop fun b => (c.doubleHashH b).bytes

def opcodeCodeSeparator : OpFunc := fun _ vm => .ok { vm with lastCodeSep := vm.scriptOff }

def sigHashTypeOf (rawSig : Bytes) : SigHashType := (rawSig.getLastD 0).toUInt32

def opcodeCheckSig : OpFunc := fun _ vm => do
  let (pkBytes, vm) ← vm.popBytes
  let (fullSigBytes, vm) ← vm.popBytes
  if fullSigBytes = [] then return vm.pushBool false
  else
    let hashType := sigHashTypeOf fullSigBytes
    let sigBytes := fullSigBytes.dropLast
    vm.checkHashTypeEncoding hashType
    vm.checkSignatureEncoding sigBytes
    vm.checkPubKeyEncoding pkBytes
    let subScript := removeOpcodeByData vm.subScript fullSigBytes
    let hash := calcSignatureHash c subScript hashType vm.tx vm.txIdx
    match parsePubKey pkBytes with
    | .error _ => return vm.pushBool false
    | .ok pubKey =>
      match vm.parseSigBytes sigBytes with
      | .error .panic => throw .panic
      | .error _ => return vm.pushBool false
      | .ok signature =>
        let valid := c.verify signature hash pubKey
        reject (¬ valid ∧ vm.hasFlag scriptVerifyNullFail ∧ sigBytes ≠ []) .nullFail
        return vm.pushBool valid

def opcodeCheckSigVerify : OpFunc := thenVerify (opcodeCheckSig c) .checkSigVerify

def popMany : Nat → Engine → Except ScriptError (List Bytes × Engine)
  | 0, vm => .ok ([], vm)
  | n + 1, vm => do
    let (so, vm) ← vm.popBytes
    let (rest, vm) ← popMany n vm
    return (so :: rest, vm)

def popKeyHashes : Nat → Engine → Except ScriptError (List Bytes × Engine)
  | 0, vm => .ok ([], vm)
  | n + 1, vm => do
    let (keyHash, vm) ← vm.popBytes
    reject (keyHash.length ≠ 20) .tooFewValidKeyHashes
    let (rest, vm) ← popKeyHashes n vm
    return (keyHash :: rest, vm)

/-- What a signature of a multi-signature check comes with. -/
structure SigInfo where
  pubKey : Bytes
  signature : Bytes
deriving DecidableEq

def popSigInfos : Nat → Engine → Except ScriptError (List SigInfo × Engine)
  | 0, vm => .ok ([], vm)
  | n + 1, vm => do
    let (signature, vm) ← vm.popBytes
    let (pubKey, vm) ← vm.popBytes
    let (rest, vm) ← popSigInfos n vm
    return (⟨pubKey, signature⟩ :: rest, vm)

/-- What the matching loop computes for one pair: whether its signature is valid. One that does not
parse is not. The source keeps the parsed signature for the next try, which would parse the same. -/
def checkSigInfo (vm : Engine) (sigInfo : SigInfo) : Except ScriptError Bool := do
  let hashType := sigHashTypeOf sigInfo.signature
  let signature := sigInfo.signature.dropLast
  vm.checkHashTypeEncoding hashType
  vm.checkSignatureEncoding signature
  match vm.parseSigBytes signature with
  | .error .panic => throw .panic
  | .error _ => return false
  | .ok parsedSig =>
    vm.checkPubKeyEncoding sigInfo.pubKey
    match parsePubKey sigInfo.pubKey with
    | .error e => throw (.pubKey e)
    | .ok parsedPubKey =>
      let hash := calcSignatureHashNew c hashType vm.tx vm.txIdx vm.inputAmount
      return c.verify parsedSig hash parsedPubKey

/-- The matching loop of `opcodeCheckSafeMultiSig`. `unmatched` are the key hashes no signature has
used yet. A pair takes one of them; if its signature is not valid the same pair is tried again, and
an empty signature is passed over without moving on, so the loop does not end on it. -/
def safeMultiSigLoop (vm : Engine) : Nat → List Bytes → List SigInfo → Except ScriptError Bool
  | _, _, [] => .ok true
  | 0, _, _ :: _ => .error .diverges
  | fuel + 1, unmatched, sigInfo :: rest =>
    if sigInfo.signature = [] then safeMultiSigLoop vm fuel unmatched (sigInfo :: rest)
    else
      let hash160 := c.hash160 sigInfo.pubKey
      if hash160 ∈ unmatched then do
        let unmatched := unmatched.erase hash160
        if ← checkSigInfo c vm sigInfo then safeMultiSigLoop vm fuel unmatched rest
        else safeMultiSigLoop vm fuel unmatched (sigInfo :: rest)
      else .ok false

/-- `opcodeCheckSafeMultiSig`, also the handler of OP_CHECKTHREAD. The script it strips the
signatures from does not enter the digest. -/
def opcodeCheckSafeMultiSig : OpFunc := fun _ vm => do
  let (numKeys, vm) ← vm.popInt
  let numKeyHashes := scriptNumInt32 numKeys
  reject (numKeyHashes < 0 ∨ maxPubKeysPerMultiSig < numKeyHashes) .invalidPubKeyCount
  let vm := { vm with numOps := vm.numOps + numKeyHashes.toNat }
  reject (maxOpsPerScript < vm.numOps) .tooManyOperations
  let (keyHashes, vm) ← popKeyHashes numKeyHashes.toNat vm
  let (numSigs, vm) ← vm.popInt
  let numSignatures := scriptNumInt32 numSigs
  reject (numSignatures < 0) .signaturesNegative
  reject (numKeyHashes < numSignatures) .moreSignaturesThanKeyHashes
  let (signatures, vm) ← popSigInfos numSignatures.toNat vm
  let success ← safeMultiSigLoop c vm (keyHashes.length + 1) keyHashes signatures
  reject (¬ success ∧ vm.hasFlag scriptVerifyNullFail ∧ ∃ sig ∈ signatures, sig.signature ≠ [])
    .nullFail
  return vm.pushBool success

/-- The loop of `opcodeCheckMultiSig` over the remaining public keys and signatures. -/
def multiSigLoop (vm : Engine) (script : List ParsedOpcode) :
    List Bytes → List Bytes → Except ScriptError Bool
  | _, [] => .ok true
  | [], _ :: _ => .ok false
  | pubKey :: pubKeys, rawSig :: sigs =>
    if pubKeys.length < sigs.length then .ok false
    else if rawSig = [] then multiSigLoop vm script pubKeys (rawSig :: sigs)
    else do
      let hashType := sigHashTypeOf rawSig
      let signature := rawSig.dropLast
      vm.checkHashTypeEncoding hashType
      vm.checkSignatureEncoding signature
      match vm.parseSigBytes signature with
      | .error .panic => throw .panic
      | .error _ => multiSigLoop vm script pubKeys (rawSig :: sigs)
      | .ok parsedSig =>
        vm.checkPubKeyEncoding pubKey
        match parsePubKey pubKey with
        | .error _ => multiSigLoop vm script pubKeys (rawSig :: sigs)
        | .ok parsedPubKey =>
          let hash := calcSignatureHash c script hashType vm.tx vm.txIdx
          if c.verify parsedSig hash parsedPubKey then multiSigLoop vm script pubKeys sigs
          else multiSigLoop vm script pubKeys (rawSig :: sigs)

def opcodeCheckMultiSig : OpFunc := fun _ vm => do
  let (numKeys, vm) ← vm.popInt
  let numPubKeys := scriptNumInt32 numKeys
  reject (numPubKeys < 0) .invalidPubKeyCount
  reject (maxPubKeysPerMultiSig < numPubKeys) .invalidPubKeyCount
  let vm := { vm with numOps := vm.numOps + numPubKeys.toNat }
  reject (maxOpsPerScript < vm.numOps) .tooManyOperations
  let (pubKeys, vm) ← popMany numPubKeys.toNat vm
  let (numSigs, vm) ← vm.popInt
  let numSignatures := scriptNumInt32 numSigs
  reject (numSignatures < 0) .invalidSignatureCount
  reject (numPubKeys < numSignatures) .invalidSignatureCount
  let (signatures, vm) ← popMany numSignatures.toNat vm
  let (dummy, vm) ← vm.popBytes
  reject (vm.hasFlag scriptStrictMultiSig ∧ dummy ≠ []) .sigNullDummy
  let script := signatures.foldl removeOpcodeByData vm.subScript
  let success ← multiSigLoop c vm script pubKeys signatures
  return vm.pushBool success

def opcodeCheckMultiSigVerify : OpFunc := thenVerify (opcodeCheckMultiSig c) .checkMultiSigVerify

end

end Prova
