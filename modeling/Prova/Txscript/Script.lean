import Prova.Txscript.Opcode
import Prova.Wire.MsgTx
import Prova.Btcec.PubKeySet

/-!
# Script elements, keyIDs and admin operations (`txscript/script.go`, `scriptbuilder.go`)

How the elements of a script are read as small integers, keyIDs, thread numbers and admin operations,
how keyIDs are replaced by key hashes before a script is executed, and what a signature signs.
-/

namespace Prova

inductive ThreadID
  | root
  | provision
  | issue
deriving DecidableEq, Repr

/-- `btcec.KeySetType(threadID)`: the keys that sign for a thread. -/
def ThreadID.keySetType : ThreadID → KeySetType
  | .root => .root
  | .provision => .provision
  | .issue => .issue

/-- The threads among the byte values of the source's `ThreadID`. -/
def ThreadID.ofByte (b : UInt8) : Option ThreadID :=
  if b = 0 then some .root else if b = 1 then some .provision else if b = 2 then some .issue
  else none

def isSmallInt (op : UInt8) : Bool := op == op0 || (op1 ≤ op && op ≤ op16)

/-- `asSmallInt`: the subtraction is a byte operation. -/
def asSmallInt (op : UInt8) : UInt8 := if op = op0 then 0 else op - (op1 - 1)

def isUint32 (op : UInt8) : Bool := isSmallInt op || (opData1 ≤ op && op ≤ opData4)

def isScriptHash : List ParsedOpcode → Bool
  | [a, b, c] => a.opcode == opHash160 && b.opcode == opData20 && c.opcode == opEqual
  | _ => false

def isPushOnly (pops : List ParsedOpcode) : Bool := pops.all fun pop => pop.opcode ≤ op16

def isPushOnlyScript (script : Bytes) : Bool :=
  match parseScript script with
  | .ok pops => isPushOnly pops
  | .error _ => false

def asInt32 (pop : ParsedOpcode) : Except ScriptError Int :=
  if isSmallInt pop.opcode then .ok (asSmallInt pop.opcode).toNat
  else do
    let result ← makeScriptNum pop.data true 4
    return scriptNumInt32 result

/-- `btcec.KeyID(keyID)` for an `int32`. -/
def keyIDOfInt32 (i : Int) : KeyID := UInt32.ofNat (i % 2 ^ 32).toNat

def keyIDOf (pop : ParsedOpcode) : Except ScriptError (Option KeyID) :=
  if isUint32 pop.opcode then do
    let i ← asInt32 pop
    return some (keyIDOfInt32 i)
  else .ok none

/-- The last but one element of a script, the `n` of `m`-of-`n`. -/
def countElement (pops : List ParsedOpcode) : ParsedOpcode :=
  pops.getD (pops.length - 2) ⟨op0, []⟩

/-- The structure `ExtractKeyIDs` and `ReplaceKeyIDs` require. -/
def checkKeyStructure (pops : List ParsedOpcode) : Except ScriptError Unit :=
  reject (pops.length < 6 ∨ isSmallInt (countElement pops).opcode = false) .unexpectedStructure

def keyElements (pops : List ParsedOpcode) : Except ScriptError (List ParsedOpcode) := do
  let n := (asSmallInt (countElement pops).opcode).toNat
  reject (pops.length < n + 1) .panic
  return (pops.drop 1).take n

def extractKeyIDs (pops : List ParsedOpcode) : Except ScriptError (List KeyID) := do
  checkKeyStructure pops
  let elements ← keyElements pops
  let keyIDs ← elements.mapM keyIDOf
  return keyIDs.filterMap id

/-- A keyID with an entry in the map becomes a push of 20 bytes. -/
def replaceKeyID (keyIdMap : List (KeyID × Bytes)) (pop : ParsedOpcode) :
    Except ScriptError ParsedOpcode := do
  match ← keyIDOf pop with
  | none => return pop
  | some keyID =>
    match keyIdMap.lookup keyID with
    | some val => return ⟨opData20, val⟩
    | none => return pop

def replaceKeyIDs (pops : List ParsedOpcode) (keyIdMap : List (KeyID × Bytes)) :
    Except ScriptError (List ParsedOpcode) := do
  checkKeyStructure pops
  reject (keyIdMap = []) .noKeyHashes
  let elements ← keyElements pops
  let replaced ← elements.mapM (replaceKeyID keyIdMap)
  return pops.take 1 ++ replaced ++ pops.drop (1 + elements.length)

/-- `ExtractThreadID`. The callers have classified the script, so the number is one of the three
threads; other small integers are the error here. -/
def extractThreadID : List ParsedOpcode → Except ScriptError ThreadID
  | [a, _] =>
    if isSmallInt a.opcode then
      match ThreadID.ofByte (asSmallInt a.opcode) with
      | some threadID => .ok threadID
      | none => .error .unexpectedStructure
    else .error .unexpectedStructure
  | _ => .error .unexpectedStructure

/-! ### Counting signature operations -/

/-- `getSigOpCount` over the opcodes left, with the opcode before them. -/
def sigOpCount (precise : Bool) : Option ParsedOpcode → List ParsedOpcode → Nat
  | _, [] => 0
  | prev, pop :: pops =>
    let here :=
      if pop.opcode = opCheckSig ∨ pop.opcode = opCheckSigVerify then 1
      else if pop.opcode = opCheckMultiSig ∨ pop.opcode = opCheckMultiSigVerify then
        match prev with
        | some p =>
          if precise ∧ op1 ≤ p.opcode ∧ p.opcode ≤ op16 then (asSmallInt p.opcode).toNat
          else maxPubKeysPerMultiSig
        | none => maxPubKeysPerMultiSig
      else 0
    here + sigOpCount precise (some pop) pops

def getSigOpCount (script : Bytes) : Nat := sigOpCount false none (parseScriptTemplate script).1

/-- `GetPreciseSigOpCount`: for a pay-to-script-hash output the count is that of the script the
signature script pushes last. -/
def getPreciseSigOpCount (scriptSig scriptPubKey : Bytes) (bip16 : Bool) : Nat :=
  let pops := (parseScriptTemplate scriptPubKey).1
  if ¬ (bip16 ∧ isScriptHash pops) then sigOpCount true none pops
  else
    match parseScript scriptSig with
    | .error _ => 0
    | .ok sigPops =>
      if ¬ isPushOnly sigPops then 0
      else
        match sigPops.getLast? with
        | none => 0
        | some last =>
          if last.data = [] then 0 else sigOpCount true none (parseScriptTemplate last.data).1

/-- Scripts that can never be spent: unparsable, or starting with OP_RETURN. -/
def isUnspendable (pkScript : Bytes) : Bool :=
  match parseScript pkScript with
  | .error _ => true
  | .ok [] => false
  | .ok (pop :: _) => pop.opcode == opReturn

/-! ### Building scripts -/

def addOp (op : UInt8) (script : Bytes) : Except ScriptError Bytes := do
  reject (maxScriptSize < script.length + 1) .notCanonical
  return script ++ [op]

def canonicalDataSize (data : Bytes) : Nat :=
  if data.length = 0 then 1
  else if data.length = 1 ∧ (data.headD 0 ≤ 16 ∨ data.headD 0 = 0x81) then 1
  else if data.length < opPushData1.toNat then 1 + data.length
  else if data.length ≤ 0xff then 2 + data.length
  else if data.length ≤ 0xffff then 3 + data.length
  else 5 + data.length

/-- `addData`: the push with the smallest encoding. -/
def dataPush (data : Bytes) : Bytes :=
  if data.length = 0 ∨ data.length = 1 ∧ data.headD 0 = 0 then [op0]
  else if data.length = 1 ∧ data.headD 0 ≤ 16 then [(op1 - 1) + data.headD 0]
  else if data.length = 1 ∧ data.headD 0 = 0x81 then [op1Negate]
  else if data.length < opPushData1.toNat then UInt8.ofNat data.length :: data
  else if data.length ≤ 0xff then opPushData1 :: UInt8.ofNat data.length :: data
  else if data.length ≤ 0xffff then opPushData2 :: (leBytes 2 data.length ++ data)
  else opPushData4 :: (leBytes 4 data.length ++ data)

def addData (data : Bytes) (script : Bytes) : Except ScriptError Bytes := do
  reject (maxScriptSize < script.length + canonicalDataSize data) .notCanonical
  reject (maxScriptElementSize < data.length) .notCanonical
  return script ++ dataPush data

def addInt64 (val : Int) (script : Bytes) : Except ScriptError Bytes := do
  reject (maxScriptSize < script.length + 1) .notCanonical
  if val = 0 then return script ++ [op0]
  else if val = -1 then return script ++ [op1Negate]
  else if 1 ≤ val ∧ val ≤ 16 then return script ++ [(op1 - 1) + UInt8.ofNat val.toNat]
  else do
    -- the negation of the smallest number overflows, and `Bytes` indexes an empty slice
    reject (val = -2 ^ 63) .panic
    addData (scriptNumBytes val) script

/-- `ThreadPkScript`: a 2-of-n script over the key hashes of a thread. -/
def threadPkScript (keyHashes : List Bytes) : Except ScriptError Bytes := do
  reject (keyHashes.length < 2) .tooFewThreadKeys
  let script ← addOp op2 []
  let script ← keyHashes.foldlM (fun script hash => addData hash script) script
  let script ← addInt64 keyHashes.length script
  addOp opCheckThread script

/-! ### Admin operations -/

def adminOpIssueKeyAdd : UInt8 := 0x01
def adminOpIssueKeyRevoke : UInt8 := 0x02
def adminOpProvisionKeyAdd : UInt8 := 0x03
def adminOpProvisionKeyRevoke : UInt8 := 0x04
def adminOpValidateKeyAdd : UInt8 := 0x11
def adminOpValidateKeyRevoke : UInt8 := 0x12
def adminOpASPKeyAdd : UInt8 := 0x13
def adminOpASPKeyRevoke : UInt8 := 0x14

/-- The data push of an admin output; the source indexes it without a check. -/
def adminPush : List ParsedOpcode → Except ScriptError Bytes
  | _ :: pop :: _ =>
    if pop.data.length < 1 + pubKeyBytesLenCompressed then .error .panic else .ok pop.data
  | _ => .error .panic

def adminPubKey (data : Bytes) : Except PubKeyError PublicKey :=
  parsePubKey ((data.drop 1).take pubKeyBytesLenCompressed)

def extractAdminData (pops : List ParsedOpcode) : Except ScriptError (UInt8 × PublicKey) := do
  let data ← adminPush pops
  match adminPubKey data with
  | .error e => throw (.pubKey e)
  | .ok pubKey => return (data.headD 0, pubKey)

structure AdminOp where
  isAddOp : Bool
  keySetType : KeySetType
  pubKey : PublicKey
  keyID : KeyID
deriving DecidableEq

/-- The operation and the key set an operation byte stands for. -/
def adminOpKind (op : UInt8) : Bool × KeySetType :=
  if op = adminOpProvisionKeyAdd then (true, .provision)
  else if op = adminOpProvisionKeyRevoke then (false, .provision)
  else if op = adminOpIssueKeyAdd then (true, .issue)
  else if op = adminOpIssueKeyRevoke then (false, .issue)
  else if op = adminOpValidateKeyAdd then (true, .validate)
  else if op = adminOpValidateKeyRevoke then (false, .validate)
  else if op = adminOpASPKeyAdd then (true, .asp)
  else if op = adminOpASPKeyRevoke then (false, .asp)
  else (false, .root)

/-- `ExtractAdminOpData`. It assumes a validated operation: too short a push panics, and an
unparsable key is the nil pointer its users dereference. -/
def extractAdminOpData (pops : List ParsedOpcode) : Except ScriptError AdminOp := do
  let data ← adminPush pops
  match adminPubKey data with
  | .error _ => throw .panic
  | .ok pubKey =>
    let keyID : KeyID :=
      if 1 + pubKeyBytesLenCompressed < data.length then
        keyIDFromAddressBuffer (data.drop (data.length - keyIDSize))
      else 0
    let (isAddOp, keySetType) := adminOpKind (data.headD 0)
    return ⟨isAddOp, keySetType, pubKey, keyID⟩

end Prova
