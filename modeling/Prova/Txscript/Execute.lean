import Prova.Txscript.Handlers

/-!
# Execution of scripts (`Engine.Execute`, `NewEngine`)

The source steps opcode by opcode and does the work of the end of a script in the step that reaches
it. Here a script is a loop over its opcodes followed by `endScript`, and an execution is at most
three scripts: the signature script, the public key script and the script a pay-to-script-hash
output commits to.
-/

namespace Prova

section

variable (c : Crypto)

/-- The handlers of `opcodeArray` above OP_16; a number that is not listed is invalid. -/
def opTable : List (UInt8 × OpFunc) :=
  [(0x61, opcodeNop), (0x62, opcodeReserved), (0x63, opcodeIf), (0x64, opcodeNotIf),
   (0x65, opcodeReserved), (0x66, opcodeReserved), (0x67, opcodeElse), (0x68, opcodeEndif),
   (0x69, opcodeVerify), (0x6a, opcodeReturn), (0x6b, opcodeToAltStack),
   (0x6c, opcodeFromAltStack), (0x6d, opcode2Drop), (0x6e, opcode2Dup), (0x6f, opcode3Dup),
   (0x70, opcode2Over), (0x71, opcode2Rot), (0x72, opcode2Swap), (0x73, opcodeIfDup),
   (0x74, opcodeDepth), (0x75, opcodeDrop), (0x76, opcodeDup), (0x77, opcodeNip),
   (0x78, opcodeOver), (0x79, opcodePick), (0x7a, opcodeRoll), (0x7b, opcodeRot),
   (0x7c, opcodeSwap), (0x7d, opcodeTuck), (0x7e, opcodeDisabled), (0x7f, opcodeDisabled),
   (0x80, opcodeDisabled), (0x81, opcodeDisabled), (0x82, opcodeSize), (0x83, opcodeDisabled),
   (0x84, opcodeDisabled), (0x85, opcodeDisabled), (0x86, opcodeDisabled), (0x87, opcodeEqual),
   (0x88, opcodeEqualVerify), (0x89, opcodeReserved), (0x8a, opcodeReserved), (0x8b, opcode1Add),
   (0x8c, opcode1Sub), (0x8d, opcodeDisabled), (0x8e, opcodeDisabled), (0x8f, opcodeNegate),
   (0x90, opcodeAbs), (0x91, opcodeNot), (0x92, opcode0NotEqual), (0x93, opcodeAdd),
   (0x94, opcodeSub), (0x95, opcodeDisabled), (0x96, opcodeDisabled), (0x97, opcodeDisabled),
   (0x98, opcodeDisabled), (0x99, opcodeDisabled), (0x9a, opcodeBoolAnd), (0x9b, opcodeBoolOr),
   (0x9c, opcodeNumEqual), (0x9d, opcodeNumEqualVerify), (0x9e, opcodeNumNotEqual),
   (0x9f, opcodeLessThan), (0xa0, opcodeGreaterThan), (0xa1, opcodeLessThanOrEqual),
   (0xa2, opcodeGreaterThanOrEqual), (0xa3, opcodeMin), (0xa4, opcodeMax), (0xa5, opcodeWithin),
   (0xa6, opcodeRipemd160 c), (0xa7, opcodeSha1 c), (0xa8, opcodeSha256 c),
   (0xa9, opcodeHash160 c), (0xaa, opcodeHash256 c), (0xab, opcodeCodeSeparator),
   (0xac, opcodeCheckSig c), (0xad, opcodeCheckSigVerify c), (0xae, opcodeCheckMultiSig c),
   (0xaf, opcodeCheckMultiSigVerify c), (0xb0, opcodeNop), (0xb1, opcodeCheckLockTimeVerify),
   (0xb2, opcodeCheckSequenceVerify), (0xb3, opcodeNop), (0xb4, opcodeNop), (0xb5, opcodeNop),
   (0xb6, opcodeNop), (0xb7, opcodeNop), (0xb8, opcodeNop), (0xb9, opcodeNop),
   (0xba, opcodeCheckSafeMultiSig c), (0xbb, opcodeCheckSafeMultiSig c)]

def opFunc (op : UInt8) : OpFunc :=
  if op = op0 then opcodeFalse
  else if op ≤ opPushData4 then opcodePushData
  else if op = op1Negate then opcode1Negate
  else if op = opReserved then opcodeReserved
  else if op ≤ op16 then opcodeN
  else ((opTable c).lookup op).getD opcodeInvalid

namespace ParsedOpcode

/-- `isDisabled`: the string, bit and multiplication opcodes. -/
def isDisabled (pop : ParsedOpcode) : Bool :=
  (0x7e ≤ pop.opcode && pop.opcode ≤ 0x81) || (0x83 ≤ pop.opcode && pop.opcode ≤ 0x86) ||
    (0x8d ≤ pop.opcode && pop.opcode ≤ 0x8e) || (0x95 ≤ pop.opcode && pop.opcode ≤ 0x99)

/-- `alwaysIllegal`: OP_VERIF and OP_VERNOTIF. -/
def alwaysIllegal (pop : ParsedOpcode) : Bool := pop.opcode == 0x65 || pop.opcode == 0x66

/-- `isConditional`: OP_IF, OP_NOTIF, OP_ELSE and OP_ENDIF. -/
def isConditional (pop : ParsedOpcode) : Bool :=
  pop.opcode == 0x63 || pop.opcode == 0x64 || pop.opcode == 0x67 || pop.opcode == 0x68

def checkMinimalDataPush (pop : ParsedOpcode) : Except ScriptError Unit :=
  let dataLen := pop.data.length
  let b := pop.data.headD 0
  if dataLen = 0 ∧ pop.opcode ≠ op0 then .error .minimalData
  else if dataLen = 1 ∧ 1 ≤ b ∧ b ≤ 16 then reject (pop.opcode ≠ op1 + b - 1) .minimalData
  else if dataLen = 1 ∧ b = 0x81 then reject (pop.opcode ≠ op1Negate) .minimalData
  else if dataLen ≤ 75 then reject (pop.opcode.toNat ≠ dataLen) .minimalData
  else if dataLen ≤ 255 then reject (pop.opcode ≠ opPushData1) .minimalData
  else if dataLen ≤ 65535 then reject (pop.opcode ≠ opPushData2) .minimalData
  else .ok ()

end ParsedOpcode

namespace Engine

def countOp (pop : ParsedOpcode) (vm : Engine) : Except ScriptError Engine :=
  if op16 < pop.opcode then do
    let vm := { vm with numOps := vm.numOps + 1 }
    reject (maxOpsPerScript < vm.numOps) .tooManyOperations
    return vm
  else do
    reject (maxScriptElementSize < pop.data.length) .elementTooBig
    return vm

def executeOpcode (pop : ParsedOpcode) (vm : Engine) : Except ScriptError Engine := do
  reject pop.isDisabled .disabledOpcode
  reject pop.alwaysIllegal .reservedOpcode
  let vm ← vm.countOp pop
  if ¬ vm.isBranchExecuting ∧ ¬ pop.isConditional then return vm
  else
    if vm.verifyMinimalData ∧ vm.isBranchExecuting ∧ pop.opcode ≤ opPushData4 then
      pop.checkMinimalDataPush
    opFunc c pop.opcode pop vm

def stepOpcode (vm : Engine) (pop : ParsedOpcode) : Except ScriptError Engine := do
  let vm ← executeOpcode c pop vm
  reject (maxStackSize < vm.dstack.length + vm.astack.length) .stackOverflow
  return { vm with scriptOff := vm.scriptOff + 1 }

def runScript (script : List ParsedOpcode) (vm : Engine) : Except ScriptError Engine :=
  script.foldlM (stepOpcode c) vm

/-- `CheckErrorCondition`, returning the engine with the result popped. -/
def checkErrorCondition (finalScript : Bool) (vm : Engine) : Except ScriptError Engine := do
  reject (finalScript ∧ vm.hasFlag scriptVerifyCleanStack ∧ vm.dstack.length ≠ 1) .cleanStack
  reject (vm.dstack.length < 1) .emptyStack
  let (v, vm) ← vm.popBool
  reject (v = false) .evalFalse
  return vm

/-- Where the end of a script leads: to the next one, for a script hash with the stack saved or with
the committed script in place. -/
def nextScript (vm : Engine) : Except ScriptError Engine :=
  if vm.scriptIdx = 0 ∧ vm.bip16 then
    .ok { vm with scriptIdx := 1, savedFirstStack := vm.dstack }
  else if vm.scriptIdx = 1 ∧ vm.bip16 then do
    let vm ← checkErrorCondition false { vm with scriptIdx := 2 }
    match vm.savedFirstStack with
    | [] => throw .panic
    | script :: rest =>
      let pops ← parseScript script
      return { vm with scripts := vm.scripts ++ [pops], dstack := rest }
  else .ok { vm with scriptIdx := vm.scriptIdx + 1 }

def endScript (vm : Engine) : Except ScriptError Engine := do
  reject (vm.condStack ≠ []) .unbalancedConditional
  let vm ← nextScript { vm with astack := [], numOps := 0, scriptOff := 0 }
  let vm :=
    if vm.scripts[vm.scriptIdx]? = some [] then { vm with scriptIdx := vm.scriptIdx + 1 } else vm
  return { vm with lastCodeSep := 0 }

/-- The loop of `Execute`, script by script; three scripts are the most there can be. -/
def executeLoop : Nat → Engine → Except ScriptError Engine
  | 0, vm => .ok vm
  | n + 1, vm =>
    match vm.scripts[vm.scriptIdx]? with
    | none => .ok vm
    | some script => do
      reject (script = []) .invalidProgramCounter
      let vm ← runScript c script vm
      let vm ← endScript vm
      executeLoop n vm

def execute (vm : Engine) : Except ScriptError Unit := do
  let vm ← executeLoop c 3 vm
  discard (checkErrorCondition true vm)

end Engine

end

def loadScript (script : Bytes) : Except ScriptError (List ParsedOpcode) := do
  reject (maxScriptSize < script.length) .scriptTooBig
  parseScript script

def newEngine (scriptPubKey : Bytes) (tx : MsgTx) (txIdx : Nat) (flags : ScriptFlags)
    (inputAmount : Int64) : Except ScriptError Engine :=
  match tx.txIn[txIdx]? with
  | none => .error .invalidIndex
  | some ti => do
    let scriptSig := ti.signatureScript
    reject (scriptSig = [] ∧ scriptPubKey = []) .evalFalse
    let has := fun flag : ScriptFlags => flags &&& flag == flag
    reject (has scriptVerifyCleanStack ∧ ¬ has scriptBip16) .invalidFlags
    reject (has scriptVerifySigPushOnly ∧ ¬ isPushOnlyScript scriptSig) .notPushOnly
    let script0 ← loadScript scriptSig
    let script1 ← loadScript scriptPubKey
    let bip16 := has scriptBip16 && isScriptHash script1
    reject (bip16 ∧ ¬ isPushOnly script0) .notPushOnly
    return {
      scripts := [script0, script1]
      scriptIdx := if scriptSig = [] then 1 else 0
      scriptOff := 0
      lastCodeSep := 0
      dstack := []
      astack := []
      tx := tx
      txIdx := txIdx
      condStack := []
      numOps := 0
      flags := flags
      bip16 := bip16
      savedFirstStack := []
      inputAmount := inputAmount }

end Prova
