import Prova.Txscript.Script
import Prova.Provautil.Address

/-!
# Standard scripts (`txscript/standard.go`)

The classifier of output scripts and what it decides: which outputs are Prova multi-signature
outputs, which are thread outputs of an admin transaction and which are admin operations.
-/

namespace Prova

inductive ScriptClass
  | nonStandardTy
  | nullDataTy
  | provaTy
  | generalProvaTy
  | provaAdminTy
deriving DecidableEq, Repr

def maxDataCarrierSize : Nat := 80

/-- The loop of `isGeneralProva` over the elements between the threshold and the count: the numbers
of key hashes and of keyIDs, or a rejection. An element that is neither is passed over. -/
def countKeys : List ParsedOpcode → List Int → Nat → Nat → Option (Nat × Nat)
  | [], _, nKeyIDs, nKeyHashes => some (nKeyIDs, nKeyHashes)
  | pop :: pops, seenKeyIDs, nKeyIDs, nKeyHashes =>
    if pop.data.length = 20 then
      if 0 < nKeyIDs then none else countKeys pops seenKeyIDs nKeyIDs (nKeyHashes + 1)
    else if isUint32 pop.opcode then
      match asInt32 pop with
      | .error _ => none
      | .ok keyID =>
        if keyID ∈ seenKeyIDs then none
        else countKeys pops (keyID :: seenKeyIDs) (nKeyIDs + 1) nKeyHashes
    else countKeys pops seenKeyIDs nKeyIDs nKeyHashes

def middleElements (pops : List ParsedOpcode) : List ParsedOpcode :=
  (pops.drop 1).take (pops.length - 3)

def threshold (pops : List ParsedOpcode) : Nat := (asSmallInt (pops.headD ⟨op0, []⟩).opcode).toNat

def isGeneralProva (pops : List ParsedOpcode) : Bool :=
  let nSigs := threshold pops
  let nKeys := (asSmallInt (countElement pops).opcode).toNat
  6 ≤ pops.length && isSmallInt (pops.headD ⟨op0, []⟩).opcode &&
    isSmallInt (countElement pops).opcode &&
    (pops.getLastD ⟨op0, []⟩).opcode == opCheckSafeMultiSig &&
    2 ≤ nSigs && pops.length - 3 == nKeys &&
    match countKeys (middleElements pops) [] 0 0 with
    | none => false
    | some (nKeyIDs, nKeyHashes) => nKeyHashes < nSigs && nSigs ≤ nKeyIDs

def isProva (pops : List ParsedOpcode) : Bool :=
  isGeneralProva pops &&
    ((pops.length == 6 && (pops.headD ⟨op0, []⟩).opcode == op2 &&
        (pops.getD 4 ⟨op0, []⟩).opcode == op3) ||
      match asInt32 (pops.headD ⟨op0, []⟩), asInt32 (countElement pops) with
      | .ok m, .ok n => m == n - 1
      | _, _ => false)

def isNullData : List ParsedOpcode → Bool
  | [a] => a.opcode == opReturn
  | [a, b] =>
    a.opcode == opReturn && (isSmallInt b.opcode || b.opcode ≤ opPushData4) &&
      b.data.length ≤ maxDataCarrierSize
  | _ => false

/-- `isProvaAdmin`. The first element is not required to be a small integer: the reserved opcode
before OP_1 counts as thread 0. -/
def isProvaAdmin : List ParsedOpcode → Bool
  | [a, b] => b.opcode == opCheckThread && (ThreadID.ofByte (asSmallInt a.opcode)).isSome
  | _ => false

def typeOfScript (pops : List ParsedOpcode) : ScriptClass :=
  if isNullData pops then .nullDataTy
  else if isProva pops then .provaTy
  else if isGeneralProva pops then .generalProvaTy
  else if isProvaAdmin pops then .provaAdminTy
  else .nonStandardTy

def getScriptClass (script : Bytes) : ScriptClass :=
  match parseScript script with
  | .error _ => .nonStandardTy
  | .ok pops => typeOfScript pops

/-- `IsProvaTx`: every output is a Prova output or the one null data output of value zero. The flag
says whether a null data output was seen. -/
def isProvaTxOuts : Bool → List TxOut → Bool
  | _, [] => true
  | hasNullOutput, out :: outs =>
    match parseScript out.pkScript with
    | .error _ => false
    | .ok pops =>
      if isNullData pops then
        if hasNullOutput then false else if out.value ≠ 0 then false else isProvaTxOuts true outs
      else if isGeneralProva pops then isProvaTxOuts hasNullOutput outs
      else false

def isProvaTx (tx : MsgTx) : Bool := tx.txOut ≠ [] && isProvaTxOuts false tx.txOut

/-- `GetAdminDetailsMsgTx`: the thread of an admin transaction and the scripts of the outputs after
the thread output; `none` for the source's `-1`. -/
def getAdminDetails (tx : MsgTx) : Option (ThreadID × List (List ParsedOpcode)) :=
  match tx.txOut with
  | [] => none
  | out :: outs =>
    match parseScript out.pkScript with
    | .error _ => none
    | .ok pops =>
      if typeOfScript pops ≠ .provaAdminTy then none
      else
        match extractThreadID pops with
        | .error _ => none
        | .ok threadID =>
          match outs.mapM fun o => parseScript o.pkScript with
          | .error _ => none
          | .ok adminOutputs => some (threadID, adminOutputs)

/-- The operation bytes allowed on a thread; an ASP operation needs the long form. -/
def adminOpAllowed (threadID : ThreadID) (op : UInt8) (dataLen : Nat) : Bool :=
  match threadID with
  | .root =>
    op == adminOpProvisionKeyAdd || op == adminOpProvisionKeyRevoke || op == adminOpIssueKeyAdd ||
      op == adminOpIssueKeyRevoke
  | .provision =>
    op == adminOpValidateKeyAdd || op == adminOpValidateKeyRevoke ||
      ((op == adminOpASPKeyAdd || op == adminOpASPKeyRevoke) &&
        dataLen == 1 + pubKeyBytesLenCompressed + keyIDSize)
  | .issue => false

def isValidAdminOp (pops : List ParsedOpcode) (threadID : ThreadID) : Bool :=
  match pops with
  | [a, b] =>
    a.opcode == opReturn && (b.opcode == opData34 || b.opcode == opData38) &&
      match extractAdminData pops with
      | .error _ => false
      | .ok (op, _) => adminOpAllowed threadID op b.data.length
  | _ => false

/-! ### Scripts and addresses -/

def payToProvaScript (pubKeyHash : Bytes) : List KeyID → Except ScriptError Bytes
  | [keyID0, keyID1] => do
    let script ← addInt64 2 []
    let script ← addData pubKeyHash script
    let script ← addInt64 keyID0.toNat script
    let script ← addInt64 keyID1.toNat script
    let script ← addInt64 3 script
    addOp opCheckSafeMultiSig script
  | _ => .error .invalidNumberOfKeyIds

/-- `PayToAddrScript`; there is no other type of address. -/
def payToAddrScript (addr : AddressProva) : Except ScriptError Bytes :=
  payToProvaScript addr.hash addr.keyIDs

/-- What `ExtractPkScriptAddrs` does for a Prova script. -/
def provaAddrs (pops : List ParsedOpcode) : List AddressProva :=
  match ((pops.drop 2).take (pops.length - 4)).mapM asInt32 with
  | .error _ => []
  | .ok keyIDs =>
    (newAddressProva (pops.getD 1 ⟨op0, []⟩).data (keyIDs.map keyIDOfInt32)).toList

/-- `ExtractPkScriptAddrs`: the class, the addresses and the number of signatures required. -/
def extractPkScriptAddrs (pkScript : Bytes) :
    Except ScriptError (ScriptClass × List AddressProva × Nat) := do
  let pops ← parseScript pkScript
  match typeOfScript pops with
  | .provaTy => return (.provaTy, provaAddrs pops, pops.length - 4)
  | .provaAdminTy => return (.provaAdminTy, [], 2)
  | class' => return (class', [], 0)

/-- The addresses with the network of the chain parameters. -/
def extractNetAddrs (netID : UInt8) (pkScript : Bytes) :
    Except ScriptError (ScriptClass × List NetAddressProva × Nat) := do
  let (scriptClass, addrs, requiredSigs) ← extractPkScriptAddrs pkScript
  return (scriptClass, addrs.map fun addr => ⟨addr, netID⟩, requiredSigs)

end Prova
