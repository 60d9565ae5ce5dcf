import Prova.Txscript.Standard
import Prova.Txscript.SigHash

/-!
# The script engine (`txscript/engine.go`, `stack.go`)

The state of the engine, its stacks and the checks of signature and key encodings. The stack is a
list with its top first. The signature cache and the precomputed hashes are left out: they only save
recomputing what is computed here.
-/

namespace Prova

/-! ### Stacks -/

abbrev Stack := List Bytes

def asBool : Bytes → Bool
  | [] => false
  | [b] => b != 0 && b != 0x80
  | b :: bs => b != 0 || asBool bs

def fromBool (v : Bool) : Bytes := if v then [1] else []

namespace Stack

/-- `PeekByteArray`. -/
def peek (s : Stack) (idx : Int) : Except ScriptError Bytes :=
  if idx < 0 then .error .invalidStackOperation
  else
    match s[idx.toNat]? with
    | some so => .ok so
    | none => .error .invalidStackOperation

/-- `nipN`: take the element at an index out of the stack. -/
def nipN (s : Stack) (idx : Int) : Except ScriptError (Bytes × Stack) := do
  let so ← s.peek idx
  return (so, s.eraseIdx idx.toNat)

/-- `PopByteArray`. -/
def pop : Stack → Except ScriptError (Bytes × Stack)
  | [] => .error .invalidStackOperation
  | so :: s => .ok (so, s)

/-- `DropN`, for the positive numbers it is called with. -/
def dropN : Nat → Stack → Except ScriptError Stack
  | 0, s => .ok s
  | n + 1, s => do
    let (_, s) ← s.pop
    dropN n s

/-- Push the element at a fixed index, a number of times. -/
def peekN (idx : Int) : Nat → Stack → Except ScriptError Stack
  | 0, s => .ok s
  | n + 1, s => do
    let so ← s.peek idx
    peekN idx n (so :: s)

/-- Take out the element at a fixed index and push it, a number of times. -/
def nipPushN (idx : Int) : Nat → Stack → Except ScriptError Stack
  | 0, s => .ok s
  | n + 1, s => do
    let (so, s) ← s.nipN idx
    nipPushN idx n (so :: s)

def dupN (n : Nat) (s : Stack) : Except ScriptError Stack := peekN (n - 1 : Int) n s
def overN (n : Nat) (s : Stack) : Except ScriptError Stack := peekN (2 * n - 1 : Int) n s
def rotN (n : Nat) (s : Stack) : Except ScriptError Stack := nipPushN (3 * n - 1 : Int) n s
def swapN (n : Nat) (s : Stack) : Except ScriptError Stack := nipPushN (2 * n - 1 : Int) n s
def pickN (n : Int) (s : Stack) : Except ScriptError Stack := peekN n 1 s
def rollN (n : Int) (s : Stack) : Except ScriptError Stack := nipPushN n 1 s

def tuck : Stack → Except ScriptError Stack
  | so2 :: so1 :: s => .ok (so2 :: so1 :: so2 :: s)
  | _ => .error .invalidStackOperation

end Stack

/-! ### Flags -/

abbrev ScriptFlags := UInt32

def scriptBip16 : ScriptFlags := 0x1
def scriptStrictMultiSig : ScriptFlags := 0x2
def scriptDiscourageUpgradableNops : ScriptFlags := 0x4
def scriptVerifyCheckLockTimeVerify : ScriptFlags := 0x8
def scriptVerifyCheckSequenceVerify : ScriptFlags := 0x10
def scriptVerifyCleanStack : ScriptFlags := 0x20
def scriptVerifyDERSignatures : ScriptFlags := 0x40
def scriptVerifyLowS : ScriptFlags := 0x80
def scriptVerifyMinimalData : ScriptFlags := 0x100
def scriptVerifyNullFail : ScriptFlags := 0x200
def scriptVerifySigPushOnly : ScriptFlags := 0x400
def scriptVerifyStrictEncoding : ScriptFlags := 0x800

/-- `StandardVerifyFlags`, with which transactions that are not in a block are checked. -/
def standardVerifyFlags : ScriptFlags :=
  scriptBip16 ||| scriptVerifyDERSignatures ||| scriptVerifyStrictEncoding |||
    scriptVerifyMinimalData ||| scriptStrictMultiSig ||| scriptDiscourageUpgradableNops |||
    scriptVerifyCleanStack ||| scriptVerifyNullFail ||| scriptVerifyCheckLockTimeVerify |||
    scriptVerifyCheckSequenceVerify ||| scriptVerifyLowS

/-! ### The engine's state -/

inductive OpCond
  | condFalse
  | condTrue
  | condSkip
deriving DecidableEq, Repr

structure Engine where
  scripts : List (List ParsedOpcode)
  scriptIdx : Nat
  scriptOff : Nat
  lastCodeSep : Nat
  dstack : Stack
  astack : Stack
  tx : MsgTx
  txIdx : Nat
  /-- Innermost condition first. -/
  condStack : List OpCond
  numOps : Nat
  flags : ScriptFlags
  bip16 : Bool
  savedFirstStack : Stack
  inputAmount : Int64

namespace Engine

def hasFlag (vm : Engine) (flag : ScriptFlags) : Bool := vm.flags &&& flag == flag

def verifyMinimalData (vm : Engine) : Bool := vm.hasFlag scriptVerifyMinimalData

def isBranchExecuting (vm : Engine) : Bool :=
  match vm.condStack with
  | [] => true
  | cond :: _ => cond == .condTrue

def push (vm : Engine) (so : Bytes) : Engine := { vm with dstack := so :: vm.dstack }

def pushInt (vm : Engine) (n : Int) : Engine := vm.push (scriptNumBytes n)

def pushBool (vm : Engine) (v : Bool) : Engine := vm.push (fromBool v)

def popBytes (vm : Engine) : Except ScriptError (Bytes × Engine) := do
  let (so, s) ← vm.dstack.pop
  return (so, { vm with dstack := s })

def popInt (vm : Engine) : Except ScriptError (Int × Engine) := do
  let (so, vm) ← vm.popBytes
  let n ← makeScriptNum so vm.verifyMinimalData 4
  return (n, vm)

def popBool (vm : Engine) : Except ScriptError (Bool × Engine) := do
  let (so, vm) ← vm.popBytes
  return (asBool so, vm)

def onStack (f : Stack → Except ScriptError Stack) (vm : Engine) : Except ScriptError Engine := do
  let s ← f vm.dstack
  return { vm with dstack := s }

def subScript (vm : Engine) : List ParsedOpcode :=
  (vm.scripts.getD vm.scriptIdx []).drop vm.lastCodeSep

/-! ### Encodings -/

def checkHashTypeEncoding (vm : Engine) (hashType : SigHashType) : Except ScriptError Unit :=
  if vm.hasFlag scriptVerifyStrictEncoding then
    let sigHashType := hashType &&& ~~~sigHashAnyOneCanPay
    reject (sigHashType < sigHashAll ∨ sigHashSingle < sigHashType) .invalidSigHashType
  else .ok ()

def checkPubKeyEncoding (vm : Engine) (pubKey : Bytes) : Except ScriptError Unit :=
  if vm.hasFlag scriptVerifyStrictEncoding then
    reject (¬ (pubKey.length = 33 ∧ (pubKey.headD 0 = 0x02 ∨ pubKey.headD 0 = 0x03) ∨
      pubKey.length = 65 ∧ pubKey.headD 0 = 0x04)) .pubKeyType
  else .ok ()

/-- A slice access of the signature, out of range where Go panics. -/
def sigAt (sig : Bytes) (i : Nat) : Except ScriptError UInt8 :=
  match sig[i]? with
  | some b => .ok b
  | none => .error .panic

def halfOrder : Nat := curveN / 2

def sigRange (sig : Bytes) (low high : Nat) : Except ScriptError Bytes :=
  if low ≤ high ∧ high ≤ sig.length then .ok ((sig.take high).drop low) else .error .panic

/-- A leading zero byte is there because the byte after it has its high bit set. -/
def checkSecondByte (sig : Bytes) (len : Nat) (first : UInt8) (i : Nat) : Except ScriptError Unit :=
  if 1 < len ∧ first = 0 then do
    let second ← sigAt sig i
    reject (second &&& 0x80 = 0) .sigDER
  else .ok ()

def checkLowS (lowS : Bool) (sig : Bytes) (low high : Nat) : Except ScriptError Unit :=
  if lowS then do
    let s ← sigRange sig low high
    reject (halfOrder < beNat s) .sigHighS
  else .ok ()

/-- The checks of `checkSignatureEncoding`. The guard on the length of `R` lets an access one past
the end through. -/
def checkDER (lowS : Bool) (sig : Bytes) : Except ScriptError Unit := do
  reject (sig.length < 8) .sigDER
  reject (72 < sig.length) .sigDER
  reject (sig.headD 0 ≠ 0x30) .sigDER
  let total ← sigAt sig 1
  reject (total.toNat ≠ sig.length - 2) .sigDER
  let rLen := (← sigAt sig 3).toNat
  reject (sig.length < rLen + 5) .sigDER
  let sLen := (← sigAt sig (rLen + 5)).toNat
  reject (rLen + sLen + 6 ≠ sig.length) .sigDER
  let marker ← sigAt sig 2
  reject (marker ≠ 0x02) .sigDER
  reject (rLen = 0) .sigDER
  let r0 ← sigAt sig 4
  reject (r0 &&& 0x80 ≠ 0) .sigDER
  checkSecondByte sig rLen r0 5
  let marker ← sigAt sig (rLen + 4)
  reject (marker ≠ 0x02) .sigDER
  reject (sLen = 0) .sigDER
  let s0 ← sigAt sig (rLen + 6)
  reject (s0 &&& 0x80 ≠ 0) .sigDER
  checkSecondByte sig sLen s0 (rLen + 7)
  checkLowS lowS sig (rLen + 6) (rLen + 6 + sLen)

def checkSignatureEncoding (vm : Engine) (sig : Bytes) : Except ScriptError Unit :=
  if vm.hasFlag scriptVerifyDERSignatures || vm.hasFlag scriptVerifyLowS ||
      vm.hasFlag scriptVerifyStrictEncoding then
    checkDER (vm.hasFlag scriptVerifyLowS) sig
  else .ok ()

def parseSigBytes (vm : Engine) (sig : Bytes) : Except SigError Signature :=
  if vm.hasFlag scriptVerifyStrictEncoding || vm.hasFlag scriptVerifyDERSignatures then
    parseDERSignature sig
  else parseSignature sig

end Engine

end Prova
