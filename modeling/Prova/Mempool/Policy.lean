import Prova.Blockchain.TxRules

/-!
# Relay policy (`mempool/policy.go`, `mempool/error.go`)

What the mempool asks of a transaction beyond the consensus rules. An error is either one of the
mempool, which is its reject code, or one of the chain rules; the description texts are left out.
-/

namespace Prova

inductive RejectCode
  | malformed
  | invalid
  | obsolete
  | duplicate
  | nonstandard
  | dust
  | insufficientFee
  | checkpoint
  | invalidAdmin
deriving DecidableEq, Repr

namespace Mempool

inductive TxError
  | rule (rejectCode : RejectCode)
  | chain (err : ChainError)
deriving DecidableEq, Repr

def txRuleError (cond : Prop) [Decidable cond] (code : RejectCode) : Except TxError Unit :=
  reject cond (.rule code)

theorem txRuleError_eq_ok {cond : Prop} [Decidable cond] {code : RejectCode} {u : Unit} :
    txRuleError cond code = .ok u ↔ ¬ cond := reject_eq_ok

def maxStandardTxSize : Nat := 100000
def maxStandardSigScriptSize : Nat := 1650

structure Policy (F : Type) where
  maxTxVersion : Int32
  disableRelayPriority : Bool
  acceptNonStd : Bool
  freeTxRelayLimit : F
  maxOrphanTxs : Int
  maxOrphanTxSize : Int
  maxSigOpsPerTx : Int
  minRelayTxFee : Int64

def calcMinRequiredTxRelayFee (serializedSize minRelayTxFee : Int64) : Int64 :=
  let minFee := serializedSize * minRelayTxFee / 1000
  let minFee := if minFee = 0 ∧ 0 < minRelayTxFee then minRelayTxFee else minFee
  if minFee < 0 ∨ maxAtoms < minFee then maxAtoms else minFee

/-- The case of `checkInputsStandard` for an input that spends a thread output. It is the index of the
spent output that is checked, not that of the input. -/
def checkThreadInputStandard (tx : MsgTx) (hasAdminOut : Bool) (txIn : TxIn) (originPkScript : Bytes) :
    Except TxError Unit :=
  match parseScript txIn.signatureScript with
  | .error _ => .error (.rule .nonstandard)
  | .ok sigPops => do
    txRuleError (sigPops.length % 2 ≠ 0) .nonstandard
    txRuleError (txIn.previousOutPoint.index ≠ 0) .invalidAdmin
    txRuleError (¬ hasAdminOut) .invalidAdmin
    txRuleError ((tx.txOut.headD ⟨0, []⟩).pkScript.take 2 ≠ originPkScript.take 2) .invalidAdmin

/-- The loop of `checkInputsStandard`; the flag says whether a thread output was spent before. -/
def checkInputsStandardFrom (tx : MsgTx) (utxoView : UtxoViewpoint) (hasAdminOut : Bool) :
    Bool → List TxIn → Except TxError Unit
  | _, [] => .ok ()
  | hasAdminIn, txIn :: txIns =>
    let prevOut := txIn.previousOutPoint
    match utxoView.lookupEntry prevOut.hash with
    | none => .error (.chain .panic)
    | some entry => do
      let originPkScript := (entry.pkScriptByIndex prevOut.index).getD []
      let scriptClass := getScriptClass originPkScript
      if scriptClass = .provaAdminTy then checkThreadInputStandard tx hasAdminOut txIn originPkScript
      else txRuleError (scriptClass = .nonStandardTy) .nonstandard
      let hasAdminIn := hasAdminIn || scriptClass = .provaAdminTy
      txRuleError (hasAdminOut ∧ ¬ hasAdminIn) .invalidAdmin
      checkInputsStandardFrom tx utxoView hasAdminOut hasAdminIn txIns

def checkInputsStandard (tx : MsgTx) (utxoView : UtxoViewpoint) : Except TxError Unit :=
  checkInputsStandardFrom tx utxoView (getAdminDetails tx).isSome false tx.txIn

def checkPkScriptStandard (scriptClass : ScriptClass) : Except TxError Unit :=
  txRuleError (scriptClass = .nonStandardTy) .nonstandard

def isDust (txOut : TxOut) (minRelayTxFee : Int64) : Bool :=
  if isUnspendable txOut.pkScript then true
  else
    let totalSize := 8 + varIntSerializeSize (len64 txOut.pkScript) + txOut.pkScript.length + 148
    txOut.value * 1000 / (3 * Int64.ofNat totalSize) < minRelayTxFee

/-- The checks of `checkTransactionStandard` on one output. That an output of a coinbase may be dust is
left out: a coinbase is not checked here. -/
def checkOutputStandard (thread : Option ThreadID) (minRelayTxFee : Int64) (output : TxOut × Nat) :
    Except TxError Unit := do
  let scriptClass := getScriptClass output.1.pkScript
  checkPkScriptStandard scriptClass
  txRuleError (scriptClass = .provaAdminTy ∧ output.2 ≠ 0) .invalid
  txRuleError (thread.isSome ∧ thread ≠ some .issue ∧ output.1.value ≠ 0) .invalid
  txRuleError (scriptClass ≠ .nullDataTy ∧ thread = none ∧ isDust output.1 minRelayTxFee) .dust

/-- The checks of `checkTransactionStandard` on the form of an admin transaction. -/
def checkAdminStandard (tx : MsgTx) : Except TxError Unit :=
  match getAdminDetails tx with
  | some (.root, adminOutputs) => checkForm .root adminOutputs
  | some (.provision, adminOutputs) => checkForm .provision adminOutputs
  | _ => .ok ()
where
  checkForm (threadID : ThreadID) (adminOutputs : List (List ParsedOpcode)) : Except TxError Unit := do
    txRuleError (1 < tx.txIn.length) .invalid
    txRuleError (tx.txOut.length < 2) .invalid
    txRuleError (¬ ∀ output ∈ adminOutputs, isValidAdminOp output threadID) .invalid

def checkTransactionStandard (tx : MsgTx) (height : UInt32) (medianTimePast minRelayTxFee : Int64)
    (maxTxVersion : Int32) : Except TxError Unit := do
  txRuleError (maxTxVersion < tx.version ∨ tx.version < 1) .nonstandard
  txRuleError (¬ isFinalizedTransaction tx height medianTimePast) .nonstandard
  txRuleError (maxStandardTxSize < tx.serializeSize) .nonstandard
  forM tx.txIn fun txIn => do
    txRuleError (maxStandardSigScriptSize < txIn.signatureScript.length) .nonstandard
    txRuleError (¬ isPushOnlyScript txIn.signatureScript) .nonstandard
  let thread := (getAdminDetails tx).map (·.1)
  forM tx.txOut.zipIdx (checkOutputStandard thread minRelayTxFee)
  let numNullDataOutputs := tx.txOut.countP fun txOut => getScriptClass txOut.pkScript = .nullDataTy
  txRuleError (thread = none ∧ 1 < numNullDataOutputs) .nonstandard
  checkAdminStandard tx

end Mempool

end Prova
