import Prova.Blockchain.KeyViewpoint

/-!
# Rules for transactions (`blockchain/validate.go`)

What a transaction has to satisfy by itself, against the outputs it spends and against the admin
state. An admin transaction is checked operation by operation against the admin state before the
transaction; only the counter of keyIDs and the revoked keyIDs run along.
-/

namespace Prova

def maxAtoms : Int64 := 2100000000000000
def minCoinbaseScriptLen : Nat := 2
def maxCoinbaseScriptLen : Nat := 100
def maxAdminKeySetSize : Nat := 42

/-- A rule error when the condition holds. -/
def ruleError (cond : Prop) [Decidable cond] (code : ErrorCode) : Except ChainError Unit :=
  reject cond (.rule code)

@[simp] theorem ruleError_eq_ok {cond : Prop} [Decidable cond] {code : ErrorCode} {u : Unit} :
    ruleError cond code = .ok u ↔ ¬ cond := reject_eq_ok

/-! ### `CheckTransactionSanity` -/

def checkAdminOutput (tx : MsgTx) (threadID : ThreadID) (txOutIndex : Nat) (txOut : TxOut) :
    Except ChainError Unit :=
  let scriptClass := getScriptClass txOut.pkScript
  if threadID ≠ .issue then ruleError (txOut.value ≠ 0) .invalidAdminTx
  else if 0 < txOutIndex then
    if scriptClass = .nullDataTy then do
      ruleError (¬ isDestruction tx) .invalidAdminTx
      ruleError (txOut.value = 0) .invalidAdminTx
    else do
      ruleError (scriptClass ≠ .provaTy ∧ scriptClass ≠ .generalProvaTy) .invalidAdminTx
      ruleError (txOut.value = 0) .invalidAdminTx
  else .ok ()

/-- The loop over the outputs from an index on, with the running total. -/
def checkOutputs (tx : MsgTx) (thread : Option ThreadID) :
    Nat → Int64 → List TxOut → Except ChainError Unit
  | _, _, [] => .ok ()
  | txOutIndex, totalAtoms, txOut :: txOuts => do
    ruleError (txOut.value < 0) .badTxOutValue
    ruleError (maxAtoms < txOut.value) .badTxOutValue
    let totalAtoms := totalAtoms + txOut.value
    ruleError (totalAtoms < 0) .badTxOutValue
    ruleError (maxAtoms < totalAtoms) .badTxOutValue
    ruleError (getScriptClass txOut.pkScript = .provaAdminTy ∧ txOutIndex ≠ 0) .invalidAdminTx
    match thread with
    | none => pure ()
    | some threadID => checkAdminOutput tx threadID txOutIndex txOut
    checkOutputs tx thread (txOutIndex + 1) totalAtoms txOuts

/-- The form of a transaction of the root or the provision thread. -/
def checkAdminForm (tx : MsgTx) (threadID : ThreadID) (adminOutputs : List (List ParsedOpcode)) :
    Except ChainError Unit :=
  if threadID = .root ∨ threadID = .provision then do
    ruleError (1 < tx.txIn.length) .invalidAdminTx
    ruleError (tx.txOut.length < 2) .invalidAdminTx
    ruleError (¬ ∀ output ∈ adminOutputs, isValidAdminOp output threadID) .invalidAdminTx
  else .ok ()

def checkTransactionSanity (tx : MsgTx) : Except ChainError Unit := do
  ruleError (tx.txIn = []) .noTxInputs
  ruleError (tx.txOut = []) .noTxOutputs
  ruleError (maxBlockPayload < tx.serializeSize) .txTooBig
  let details := getAdminDetails tx
  checkOutputs tx (details.map (·.1)) 0 0 tx.txOut
  ruleError (¬ tx.prevOuts.Nodup) .duplicateTxInputs
  if isCoinBase tx then
    ruleError (¬ isProvaTx tx) .invalidCoinbase
    let slen := (tx.txIn.headD ⟨⟨0, 0⟩, [], 0⟩).signatureScript.length
    ruleError (slen < minCoinbaseScriptLen ∨ maxCoinbaseScriptLen < slen) .badCoinbaseScriptLen
  else
    match details with
    | none => ruleError (¬ isProvaTx tx) .invalidTx
    | some (threadID, adminOutputs) => checkAdminForm tx threadID adminOutputs
    ruleError (∃ p ∈ tx.prevOuts, isNullOutpoint p) .badTxInput

/-! ### `CheckTransactionInputs` -/

structure InputState where
  hasAdminIn : Bool
  totalAtomsIn : Int64

section

variable (params : Params)

/-- The rule for an input that may spend a thread output. -/
def checkThreadInput (tx : MsgTx) (hasAdminOut : Bool) (txInIndex : Nat) (originPkScript : Bytes)
    (hasAdminIn : Bool) : Except ChainError Bool :=
  if getScriptClass originPkScript = .provaAdminTy then do
    ruleError (txInIndex ≠ 0) .invalidAdminTx
    ruleError (¬ hasAdminOut) .invalidAdminTx
    let thisPkScript := (tx.txOut.headD ⟨0, []⟩).pkScript
    ruleError (thisPkScript.take 2 ≠ originPkScript.take 2) .invalidAdminTx
    return true
  else return hasAdminIn

def checkInput (tx : MsgTx) (txHeight : UInt32) (utxoView : UtxoViewpoint) (hasAdminOut : Bool)
    (s : InputState) (input : TxIn × Nat) : Except ChainError InputState :=
  let prevOut := input.1.previousOutPoint
  match utxoView.lookupEntry prevOut.hash with
  | none => throw (.rule .missingTx)
  | some utxoEntry => do
    let hasAdminIn ← checkThreadInput tx hasAdminOut input.2
      ((utxoEntry.pkScriptByIndex prevOut.index).getD []) s.hasAdminIn
    ruleError (hasAdminOut ∧ ¬ hasAdminIn) .invalidAdminTx
    ruleError (utxoEntry.isCoinBase ∧
      txHeight - utxoEntry.blockHeight < params.coinbaseMaturity.toUInt32) .immatureSpend
    ruleError (utxoEntry.isOutputSpent prevOut.index) .doubleSpend
    let originTxAtoms := utxoEntry.amountByIndex prevOut.index
    ruleError (originTxAtoms < 0) .badTxOutValue
    ruleError (maxAtoms < originTxAtoms) .badTxOutValue
    let totalAtomsIn := s.totalAtomsIn + originTxAtoms
    ruleError (totalAtomsIn < s.totalAtomsIn ∨ maxAtoms < totalAtomsIn) .badTxOutValue
    return ⟨hasAdminIn, totalAtomsIn⟩

def totalAtomsOut (tx : MsgTx) : Int64 := tx.txOut.foldl (fun total out => total + out.value) 0

/-- `CheckTransactionInputs`, which returns the fee. -/
def checkTransactionInputs (tx : MsgTx) (txHeight : UInt32) (utxoView : UtxoViewpoint) :
    Except ChainError Int64 :=
  if isCoinBase tx then .ok 0
  else do
    let thread := (getAdminDetails tx).map (·.1)
    let s ← tx.txIn.zipIdx.foldlM (checkInput params tx txHeight utxoView thread.isSome) ⟨false, 0⟩
    let isIssueThread := thread == some .issue
    ruleError (s.totalAtomsIn < totalAtomsOut tx ∧ (¬ isIssueThread ∨ isDestruction tx))
      .spendTooHigh
    let txFee := s.totalAtomsIn - totalAtomsOut tx
    let txFee := if isIssueThread ∧ txFee < 0 then 0 else txFee
    ruleError (params.maximumFeeAmount < txFee) .feeTooHigh
    return txFee

/-! ### `CheckTransactionOutputs` -/

def checkProvaOutput (keyIDs : List KeyID) (keyView : KeyViewpoint) : Except ChainError Unit :=
  ruleError (∃ keyID ∈ keyIDs, keyView.aspKeyIdMap keyID = none) .invalidTx

/-- The keyIDs of an output are those of provisioned keys. -/
def checkKeyIDs (keyView : KeyViewpoint) (output : List ParsedOpcode) : Except ChainError Unit :=
  match extractKeyIDs output with
  | .error _ => .error (.rule .invalidTx)
  | .ok keyIDs => checkProvaOutput keyIDs keyView

/-- The loop over the outputs of a transaction that is not an admin transaction; the flag says
whether a null data output was seen. -/
def checkPlainOutputs (keyView : KeyViewpoint) : Bool → List TxOut → Except ChainError Unit
  | _, [] => .ok ()
  | hasNullDataOutput, txOut :: txOuts =>
    match parseScript txOut.pkScript with
    | .error _ => .error (.rule .invalidTx)
    | .ok output =>
      if txOut.value = 0 ∧ typeOfScript output = .nullDataTy then do
        ruleError hasNullDataOutput .invalidTx
        checkPlainOutputs keyView true txOuts
      else do
        checkKeyIDs keyView output
        checkPlainOutputs keyView hasNullDataOutput txOuts

structure OpCheckState where
  lastKeyID : KeyID
  revoked : List KeyID

def checkAdminOp (keyView : KeyViewpoint) (s : OpCheckState) (op : AdminOp) :
    Except ChainError OpCheckState :=
  if op.keySetType = .asp then
    if op.isAddOp then do
      let lastKeyID := s.lastKeyID + 1
      ruleError (keyView.aspKeyIdMap op.keyID ≠ none) .invalidAdminOp
      ruleError (op.keyID ≠ lastKeyID) .invalidAdminOp
      return { s with lastKeyID := lastKeyID }
    else do
      ruleError (keyView.aspKeyIdMap op.keyID = none ∨ op.keyID ∈ s.revoked) .invalidAdminOp
      ruleError (keyView.aspKeyIdMap op.keyID ≠ some op.pubKey) .invalidAdminOp
      return { s with revoked := op.keyID :: s.revoked }
  else
    let keySet := keyView.adminKeySets op.keySetType
    if op.isAddOp then do
      ruleError (keySet.pos op.pubKey ≠ none) .invalidAdminOp
      ruleError (maxAdminKeySetSize ≤ keySet.length) .invalidAdminOp
      return s
    else do
      ruleError (keySet.pos op.pubKey = none) .invalidAdminOp
      let minLen : Int := if op.keySetType = .validate then params.minValidateKeySetSize else 0
      ruleError ((keySet.length : Int) ≤ minLen) .invalidAdminOp
      return s

def checkTransactionOutputs (tx : MsgTx) (keyView : KeyViewpoint) : Except ChainError Unit :=
  match getAdminDetails tx with
  | none => checkPlainOutputs keyView false tx.txOut
  | some (.issue, adminOutputs) =>
    forM adminOutputs fun output => if 2 < output.length then checkKeyIDs keyView output else .ok ()
  | some (_, adminOutputs) => do
    let ops ← adminOps adminOutputs
    discard (ops.foldlM (checkAdminOp params keyView) ⟨keyView.lastKeyID, []⟩)

end

def isFinalizedTransaction (tx : MsgTx) (blockHeight : UInt32) (blockTime : Int64) : Bool :=
  let blockTimeOrHeight : Int :=
    if (tx.lockTime.toNat : Int) < lockTimeThreshold then blockHeight.toNat else blockTime.toInt
  tx.lockTime == 0 || (tx.lockTime.toNat : Int) < blockTimeOrHeight ||
    tx.txIn.all fun txIn => txIn.sequence == maxTxInSequenceNum

end Prova
