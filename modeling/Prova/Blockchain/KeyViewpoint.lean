import Prova.Blockchain.UtxoViewpoint

/-!
# The admin state (`blockchain/keyviewpoint.go`)

Thread tips, the keyID counter, the money supply, the admin key sets and the ASP keys by keyID, and
how the transactions of a block change them and are undone. Whoever calls `ProcessAdminOuts` has
checked the operations; an operation that was not checked panics.
-/

namespace Prova

abbrev KeyIdMap := KeyID → Option PublicKey

@[ext] structure KeyViewpoint where
  threadTips : ThreadID → Option OutPoint
  lastKeyID : KeyID
  totalSupply : UInt64
  adminKeySets : KeySetType → PublicKeySet
  aspKeyIdMap : KeyIdMap

/-- An issue transaction with more than the thread input destroys money. -/
def isDestruction (tx : MsgTx) : Bool := 1 < tx.txIn.length

def adminOps : List (List ParsedOpcode) → Except ChainError (List AdminOp)
  | [] => .ok []
  | output :: outputs =>
    match extractAdminOpData output with
    | .error _ => .error .panic
    | .ok op => do
      let ops ← adminOps outputs
      return op :: ops

def issuedValues (tx : MsgTx) : List UInt64 := (tx.txOut.drop 1).map fun out => out.value.toUInt64

/-- The amounts a destruction takes from the supply: those of the null data outputs. -/
def destroyedValues (tx : MsgTx) (adminOutputs : List (List ParsedOpcode)) : List UInt64 :=
  ((adminOutputs.zip (tx.txOut.drop 1)).filter fun p => typeOfScript p.1 == .nullDataTy).map
    fun p => p.2.value.toUInt64

namespace KeyViewpoint

/-- `view.threadTips[threadID] = outPoint`. -/
def setThreadTip (view : KeyViewpoint) (threadID : ThreadID) (tip : OutPoint) : KeyViewpoint :=
  { view with threadTips := Function.update view.threadTips threadID (some tip) }

def setKeySet (view : KeyViewpoint) (keySetType : KeySetType) (set : PublicKeySet) :
    KeyViewpoint :=
  { view with adminKeySets := Function.update view.adminKeySets keySetType set }

def setASPKey (view : KeyViewpoint) (keyID : KeyID) (pubKey : Option PublicKey) : KeyViewpoint :=
  { view with aspKeyIdMap := Function.update view.aspKeyIdMap keyID pubKey }

def applyAdminOp (view : KeyViewpoint) (op : AdminOp) : KeyViewpoint :=
  if op.keySetType = .asp then
    if op.isAddOp then { view.setASPKey op.keyID (some op.pubKey) with lastKeyID := op.keyID }
    else view.setASPKey op.keyID none
  else
    let set := view.adminKeySets op.keySetType
    if op.isAddOp then view.setKeySet op.keySetType (set.add op.pubKey)
    else view.setKeySet op.keySetType (set.remove (set.pos op.pubKey))

/-- The change of the supply by an issue transaction. -/
def applySupply (view : KeyViewpoint) (tx : MsgTx) (adminOutputs : List (List ParsedOpcode)) :
    KeyViewpoint :=
  { view with
    totalSupply :=
      if isDestruction tx then (destroyedValues tx adminOutputs).foldl (· - ·) view.totalSupply
      else (issuedValues tx).foldl (· + ·) view.totalSupply }

def processAdminOuts (c : Crypto) (view : KeyViewpoint) (tx : MsgTx) :
    Except ChainError KeyViewpoint :=
  match getAdminDetails tx with
  | none => .ok view
  | some (.issue, adminOutputs) =>
    .ok ((view.applySupply tx adminOutputs).setThreadTip .issue ⟨tx.txHash c, 0⟩)
  | some (threadID, adminOutputs) => do
    let ops ← adminOps adminOutputs
    return (ops.foldl applyAdminOp view).setThreadTip threadID ⟨tx.txHash c, 0⟩

def connectTransaction (c : Crypto) (view : KeyViewpoint) (tx : MsgTx) :
    Except ChainError KeyViewpoint :=
  view.processAdminOuts c tx

def connectTransactions (c : Crypto) (view : KeyViewpoint) (block : MsgBlock) :
    Except ChainError KeyViewpoint :=
  block.transactions.foldlM (connectTransaction c) view

/-! ### Undoing -/

def undoAdminOp (view : KeyViewpoint) (op : AdminOp) : KeyViewpoint :=
  if op.keySetType = .asp then
    if op.isAddOp then { view.setASPKey op.keyID none with lastKeyID := op.keyID - 1 }
    else view.setASPKey op.keyID (some op.pubKey)
  else view.applyAdminOp { op with isAddOp := !op.isAddOp }

def undoSupply (view : KeyViewpoint) (tx : MsgTx) (adminOutputs : List (List ParsedOpcode)) :
    KeyViewpoint :=
  { view with
    totalSupply :=
      if isDestruction tx then (destroyedValues tx adminOutputs).foldl (· + ·) view.totalSupply
      else (issuedValues tx).foldl (· - ·) view.totalSupply }

/-- The body of the loop of `disconnectTransactions`. The operations of a transaction are undone in
their own order, not backwards, and the thread tip becomes whatever the first input spends. -/
def disconnectTransaction (view : KeyViewpoint) (tx : MsgTx) : Except ChainError KeyViewpoint :=
  match getAdminDetails tx, tx.txIn with
  | none, _ => .ok view
  | some _, [] => .error .panic
  | some (.issue, adminOutputs), txIn :: _ =>
    .ok ((view.undoSupply tx adminOutputs).setThreadTip .issue txIn.previousOutPoint)
  | some (threadID, adminOutputs), txIn :: _ => do
    let ops ← adminOps adminOutputs
    return (ops.foldl undoAdminOp view).setThreadTip threadID txIn.previousOutPoint

def disconnectTransactions (view : KeyViewpoint) (block : MsgBlock) :
    Except ChainError KeyViewpoint :=
  block.transactions.reverse.foldlM disconnectTransaction view

/-! ### Looking keys up -/

def getAdminKeyHashes (c : Crypto) (view : KeyViewpoint) (threadID : ThreadID) : List Bytes :=
  (view.adminKeySets threadID.keySetType).map fun pubKey => c.hash160 pubKey.serializeCompressed

/-- The hash a keyID stands for: that of its key, or zeros if there is none. -/
def keyHash (c : Crypto) (view : KeyViewpoint) (keyID : KeyID) : Bytes :=
  match view.aspKeyIdMap keyID with
  | some pubKey => c.hash160 pubKey.serializeCompressed
  | none => List.replicate 20 0

def lookupKeyIDs (c : Crypto) (view : KeyViewpoint) (keyIDs : List KeyID) : List (KeyID × Bytes) :=
  keyIDs.map fun keyID => (keyID, view.keyHash c keyID)

structure Same (a b : KeyViewpoint) : Prop where
  threadTips : a.threadTips = b.threadTips
  lastKeyID : a.lastKeyID = b.lastKeyID
  totalSupply : a.totalSupply = b.totalSupply
  adminKeySets : ∀ t k, k ∈ a.adminKeySets t ↔ k ∈ b.adminKeySets t
  aspKeyIdMap : a.aspKeyIdMap = b.aspKeyIdMap

end KeyViewpoint

end Prova
