import Prova.Blockchain.Error
import Prova.Chaincfg.Params

/-!
# Unspent outputs (`blockchain/utxoviewpoint.go`, the utxo part of `chainio.go`)

A view holds entries loaded from the database or made while blocks are connected. An entry that was
looked up and not found is present in the view as a nil entry, here `none`, which is not the same as
an absent one: a view does not look twice. The database is what its serialisation stores: entries
with at least one output, all of them unspent. The compression of stored outputs is left out.
-/

namespace Prova

def isNullOutpoint (outpoint : OutPoint) : Bool :=
  outpoint.index == maxPrevOutIndex && outpoint.hash == 0

/-- `IsCoinBaseTx`. -/
def isCoinBase (tx : MsgTx) : Bool :=
  match tx.txIn with
  | [ti] => isNullOutpoint ti.previousOutPoint
  | _ => false

structure UtxoOutput where
  spent : Bool
  amount : Int64
  pkScript : Bytes
deriving DecidableEq

structure UtxoEntry where
  modified : Bool
  version : Int32
  isCoinBase : Bool
  blockHeight : UInt32
  sparseOutputs : AList fun _ : UInt32 => UtxoOutput
deriving DecidableEq

def newUtxoEntry (version : Int32) (isCoinBase : Bool) (blockHeight : UInt32) : UtxoEntry where
  modified := false
  version := version
  isCoinBase := isCoinBase
  blockHeight := blockHeight
  sparseOutputs := ∅

namespace UtxoEntry

def isOutputSpent (entry : UtxoEntry) (outputIndex : UInt32) : Bool :=
  match entry.sparseOutputs.lookup outputIndex with
  | none => true
  | some output => output.spent

def spendOutput (entry : UtxoEntry) (outputIndex : UInt32) : UtxoEntry :=
  match entry.sparseOutputs.lookup outputIndex with
  | none => entry
  | some output =>
    if output.spent then entry
    else { entry with
      modified := true
      sparseOutputs := entry.sparseOutputs.insert outputIndex { output with spent := true } }

def isFullySpent (entry : UtxoEntry) : Bool := entry.sparseOutputs.entries.all fun o => o.2.spent

def amountByIndex (entry : UtxoEntry) (outputIndex : UInt32) : Int64 :=
  match entry.sparseOutputs.lookup outputIndex with
  | none => 0
  | some output => output.amount

/-- `PkScriptByIndex`, `none` for the source's nil. -/
def pkScriptByIndex (entry : UtxoEntry) (outputIndex : UInt32) : Option Bytes :=
  (entry.sparseOutputs.lookup outputIndex).map (·.pkScript)

/-- What is read back after an entry was written: its unspent outputs. -/
def stored (entry : UtxoEntry) : UtxoEntry :=
  { entry with
    modified := false
    sparseOutputs := ⟨entry.sparseOutputs.entries.filter fun o => !o.2.spent,
      entry.sparseOutputs.nodupKeys.sublist List.filter_sublist⟩ }

end UtxoEntry

/-- The utxo bucket of the database. -/
abbrev UtxoDb := AList fun _ : Hash => UtxoEntry

structure UtxoViewpoint where
  entries : AList fun _ : Hash => Option UtxoEntry
  bestHash : Hash

/-- A record of the spend journal. The height is only set for the last output of a transaction. -/
structure SpentTxOut where
  version : Int32
  amount : Int64
  pkScript : Bytes
  height : UInt32
  isCoinBase : Bool
deriving DecidableEq

/-- `NewUtxoViewpoint` with its best hash set. -/
def newUtxoViewpoint (bestHash : Hash) : UtxoViewpoint := ⟨∅, bestHash⟩

namespace UtxoViewpoint

def lookupEntry (view : UtxoViewpoint) (txHash : Hash) : Option UtxoEntry :=
  (view.entries.lookup txHash).join

def setEntry (view : UtxoViewpoint) (txHash : Hash) (entry : Option UtxoEntry) : UtxoViewpoint :=
  { view with entries := view.entries.insert txHash entry }

def setBestHash (view : UtxoViewpoint) (hash : Hash) : UtxoViewpoint :=
  { view with bestHash := hash }

/-- The loop of `AddTxOuts` over the outputs from an index on. -/
def addOutputs : Nat → List TxOut → (AList fun _ : UInt32 => UtxoOutput) →
    AList fun _ : UInt32 => UtxoOutput
  | _, [], outputs => outputs
  | txOutIdx, txOut :: txOuts, outputs =>
    addOutputs (txOutIdx + 1) txOuts
      (if isUnspendable txOut.pkScript then outputs
      else outputs.insert (UInt32.ofNat txOutIdx) ⟨false, txOut.value, txOut.pkScript⟩)

section

variable (c : Crypto)

def addTxOuts (view : UtxoViewpoint) (tx : MsgTx) (blockHeight : UInt32) : UtxoViewpoint :=
  let entry :=
    match view.lookupEntry (tx.txHash c) with
    | none => newUtxoEntry tx.version (isCoinBase tx) blockHeight
    | some entry => { entry with blockHeight := blockHeight }
  view.setEntry (tx.txHash c)
    (some { entry with
      modified := true
      sparseOutputs := addOutputs 0 tx.txOut entry.sparseOutputs })

/-- The record `connectTransaction` keeps of a spent output. -/
def spentTxOut (entry : UtxoEntry) (originIndex : UInt32) : SpentTxOut where
  version := entry.version
  amount := entry.amountByIndex originIndex
  pkScript := (entry.pkScriptByIndex originIndex).getD []
  height := if entry.isFullySpent then entry.blockHeight else 0
  isCoinBase := entry.isFullySpent && entry.isCoinBase

def spendInputs : List TxIn → UtxoViewpoint → Except ChainError (UtxoViewpoint × List SpentTxOut)
  | [], view => .ok (view, [])
  | txIn :: txIns, view =>
    match view.lookupEntry txIn.previousOutPoint.hash with
    | none => .error .assertError
    | some entry => do
      let entry := entry.spendOutput txIn.previousOutPoint.index
      let (view', stxos) ← spendInputs txIns (view.setEntry txIn.previousOutPoint.hash (some entry))
      return (view', spentTxOut entry txIn.previousOutPoint.index :: stxos)

/-- `connectTransaction`, with the records it appends to the journal. -/
def connectTransaction (view : UtxoViewpoint) (tx : MsgTx) (blockHeight : UInt32) :
    Except ChainError (UtxoViewpoint × List SpentTxOut) :=
  if isCoinBase tx then .ok (view.addTxOuts c tx blockHeight, [])
  else do
    let (view, stxos) ← spendInputs tx.txIn view
    return (view.addTxOuts c tx blockHeight, stxos)

def connectTxs (blockHeight : UInt32) :
    List MsgTx → UtxoViewpoint → Except ChainError (UtxoViewpoint × List SpentTxOut)
  | [], view => .ok (view, [])
  | tx :: txs, view => do
    let (view, stxos) ← view.connectTransaction c tx blockHeight
    let (view, rest) ← connectTxs blockHeight txs view
    return (view, stxos ++ rest)

def connectTransactions (view : UtxoViewpoint) (block : MsgBlock) :
    Except ChainError (UtxoViewpoint × List SpentTxOut) := do
  let (view, stxos) ← connectTxs c block.height block.transactions view
  return (view.setBestHash (block.blockHash c), stxos)

end

/-! ### Disconnecting -/

def countSpentOutputs (block : MsgBlock) : Nat :=
  ((block.transactions.drop 1).map fun tx => tx.txIn.length).sum

def restoreOutput (view : UtxoViewpoint) (origin : OutPoint) (stxo : SpentTxOut) : UtxoViewpoint :=
  let entry := (view.lookupEntry origin.hash).getD
    (newUtxoEntry stxo.version stxo.isCoinBase stxo.height)
  let output : UtxoOutput :=
    match entry.sparseOutputs.lookup origin.index with
    | none => ⟨false, stxo.amount, stxo.pkScript⟩
    | some output => { output with spent := false }
  view.setEntry origin.hash
    (some { entry with
      modified := true
      sparseOutputs := entry.sparseOutputs.insert origin.index output })

def clearOutputs (c : Crypto) (view : UtxoViewpoint) (tx : MsgTx) (isCoinbase : Bool)
    (height : UInt32) : UtxoViewpoint :=
  let entry := (view.lookupEntry (tx.txHash c)).getD (newUtxoEntry tx.version isCoinbase height)
  view.setEntry (tx.txHash c) (some { entry with modified := true, sparseOutputs := ∅ })

/-- The loop of `disconnectTransactions` over the transactions, last one first, with the journal
records last one first. What is left after one transaction is the coinbase. -/
def disconnectTxs (c : Crypto) (height : UInt32) :
    List MsgTx → List SpentTxOut → UtxoViewpoint → UtxoViewpoint
  | [], _, view => view
  | [coinbase], _, view => view.clearOutputs c coinbase true height
  | tx :: txs, stxos, view =>
    let view := view.clearOutputs c tx false height
    let restored := (tx.prevOuts.reverse.zip stxos).foldl (fun v p => v.restoreOutput p.1 p.2) view
    disconnectTxs c height txs (stxos.drop tx.txIn.length) restored

def disconnectTransactions (c : Crypto) (view : UtxoViewpoint) (block : MsgBlock)
    (stxos : List SpentTxOut) : Except ChainError UtxoViewpoint := do
  reject (stxos.length ≠ countSpentOutputs block) .assertError
  let view := disconnectTxs c block.height block.transactions.reverse stxos.reverse view
  return view.setBestHash block.header.prevBlock

/-! ### Loading and storing -/

def dbFetchUtxoEntry (db : UtxoDb) (hash : Hash) : Option UtxoEntry := db.lookup hash

def fetchUtxosMain (db : UtxoDb) (view : UtxoViewpoint) (txSet : List Hash) : UtxoViewpoint :=
  txSet.foldl (fun v hash => v.setEntry hash (dbFetchUtxoEntry db hash)) view

def fetchUtxos (db : UtxoDb) (view : UtxoViewpoint) (txSet : List Hash) : UtxoViewpoint :=
  view.fetchUtxosMain db (txSet.filter fun hash => hash ∉ view.entries)

/-- `txInFlight`: the last position at which a block has a transaction with the hash. -/
def txInFlight (c : Crypto) (txs : List MsgTx) (hash : Hash) : Option (MsgTx × Nat) :=
  txs.zipIdx.reverse.find? fun p => p.1.txHash c == hash

/-- What `fetchInputUtxos` does for one input of the transaction at position `i + 1`: it adds the
outputs of a transaction earlier in the block, or notes what has to be loaded. -/
def noteInput (c : Crypto) (block : MsgBlock) (i : Nat) (s : UtxoViewpoint × List Hash)
    (txIn : TxIn) : UtxoViewpoint × List Hash :=
  let originHash := txIn.previousOutPoint.hash
  let missing := if originHash ∈ s.1.entries then s else (s.1, originHash :: s.2)
  match txInFlight c block.transactions originHash with
  | none => missing
  | some (originTx, inFlightIndex) =>
    if inFlightIndex ≤ i then (s.1.addTxOuts c originTx block.height, s.2) else missing

def fetchInputUtxos (c : Crypto) (db : UtxoDb) (view : UtxoViewpoint) (block : MsgBlock) :
    UtxoViewpoint :=
  let s := (block.transactions.drop 1).zipIdx.foldl
    (fun s p => p.1.txIn.foldl (noteInput c block p.2) s) (view, [])
  s.1.fetchUtxosMain db s.2

/-- `dbPutUtxoView` for one entry. -/
def dbPutEntry (db : UtxoDb) (txHash : Hash) : Option UtxoEntry → UtxoDb
  | none => db
  | some entry =>
    if ¬ entry.modified then db
    else if entry.isFullySpent then db.erase txHash
    else db.insert txHash entry.stored

def dbPutUtxoView (db : UtxoDb) (view : UtxoViewpoint) : UtxoDb :=
  view.entries.entries.foldl (fun db e => dbPutEntry db e.1 e.2) db

/-- `commit` for one entry: a nil or spent entry leaves the view. -/
def commitEntry (entries : AList fun _ : Hash => Option UtxoEntry) (txHash : Hash) :
    Option UtxoEntry → AList fun _ : Hash => Option UtxoEntry
  | none => entries.erase txHash
  | some entry =>
    if entry.modified ∧ entry.isFullySpent then entries.erase txHash
    else entries.insert txHash (some { entry with modified := false })

def commit (view : UtxoViewpoint) : UtxoViewpoint :=
  { view with entries := view.entries.entries.foldl (fun m e => commitEntry m e.1 e.2) view.entries }

end UtxoViewpoint

end Prova
