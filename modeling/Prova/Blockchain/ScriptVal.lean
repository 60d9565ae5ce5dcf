import Prova.Blockchain.KeyViewpoint

/-!
# Script checks of inputs (`blockchain/scriptval.go`)

The script an input is checked against is not the script of the output it spends: the keyIDs of a
Prova script are replaced by the hashes of the keys the admin state has for them, and the script of a
thread output by a multi-signature script over the thread's keys. The source checks the inputs of a
block in parallel; here they are checked in order, so that of several failures it is the first one
that is reported.
-/

namespace Prova

section

variable (c : Crypto)

def malformed {α : Type} : Except ScriptError α → Except ChainError α
  | .error .panic => .error .panic
  | .error _ => .error (.rule .scriptMalformed)
  | .ok a => .ok a

/-- The script an output script is checked as, under an admin state. -/
def resolveScript (keyView : KeyViewpoint) (pkScript : Bytes) : Except ChainError Bytes := do
  let pops ← malformed (parseScript pkScript)
  match typeOfScript pops with
  | .provaTy | .generalProvaTy =>
    let keyIDs ← malformed (extractKeyIDs pops)
    let pops ← malformed (replaceKeyIDs pops (keyView.lookupKeyIDs c keyIDs))
    malformed (unparseScript pops)
  | .provaAdminTy =>
    let threadID ← malformed (extractThreadID pops)
    malformed (threadPkScript (keyView.getAdminKeyHashes c threadID))
  | _ => return pkScript

/-- `vm.Execute` for an input, with its outcomes as the validator reports them. -/
def runScripts (pkScript : Bytes) (tx : MsgTx) (txInIndex : Nat) (flags : ScriptFlags)
    (inputAmount : Int64) : Except ChainError Unit := do
  let vm ← malformed (newEngine pkScript tx txInIndex flags inputAmount)
  match vm.execute c with
  | .error .panic => throw .panic
  | .error .diverges => throw .diverges
  | .error _ => throw (.rule .scriptValidation)
  | .ok _ => return ()

def validateInput (utxoView : UtxoViewpoint) (keyView : KeyViewpoint) (flags : ScriptFlags)
    (tx : MsgTx) (input : TxIn × Nat) : Except ChainError Unit :=
  let prevOut := input.1.previousOutPoint
  match utxoView.lookupEntry prevOut.hash with
  | none => .error (.rule .missingTx)
  | some txEntry =>
    match txEntry.pkScriptByIndex prevOut.index with
    | none => .error (.rule .badTxInput)
    | some pkScript => do
      let pkScript ← resolveScript c keyView pkScript
      runScripts c pkScript tx input.2 flags (txEntry.amountByIndex prevOut.index)

/-- `ValidateTransactionScripts`. Inputs with the index of a coinbase input are skipped. -/
def validateTransactionScripts (tx : MsgTx) (utxoView : UtxoViewpoint) (keyView : KeyViewpoint)
    (flags : ScriptFlags) : Except ChainError Unit :=
  forM (tx.txIn.zipIdx.filter fun input => input.1.previousOutPoint.index ≠ maxPrevOutIndex)
    (validateInput c utxoView keyView flags tx)

def checkBlockScripts (block : MsgBlock) (utxoView : UtxoViewpoint) (keyView : KeyViewpoint)
    (flags : ScriptFlags) : Except ChainError Unit :=
  forM block.transactions fun tx => validateTransactionScripts c tx utxoView keyView flags

end

end Prova
