import Prova.Blockchain.ChainView
import Prova.Lib.MapOrder
import Prova.Mempool.Policy
import Prova.Mining.Policy

/-!
# The transaction pool (`mempool/mempool.go`)

Transactions that are valid for the next block, and orphans, whose inputs are not known yet. An orphan
is found by the outputs it spends, so that it can be tried again when one of them is there.

A function that fails keeps the changes it has made, which is why a failure is returned with the pool.
Left out are the time of the last change and the entries of the address index for transactions
outside of blocks.
-/

namespace Prova

namespace Mempool

structure TxDesc (F : Type) extends Mining.TxDesc where
  startingPriority : F

structure OrphanTx where
  tx : MsgTx
  tag : UInt64
  expiration : Int64

structure TxPool (F : Type) where
  pool : AList fun _ : Hash => TxDesc F
  orphans : AList fun _ : Hash => OrphanTx
  orphansByPrev : AList fun _ : OutPoint => AList fun _ : Hash => MsgTx
  outpoints : AList fun _ : OutPoint => MsgTx
  pennyTotal : F
  lastPennyUnix : Int64
  nextExpireScan : Int64

/-- What a call reads besides the pool. Times are in nanoseconds. -/
structure Config (F : Type) where
  policy : Policy F
  chain : BlockChain
  now : Int64
  order : MapOrder

def defaultBlockPrioritySize : Nat := 50000

def orphanTTL : Int64 := 15 * 60 * 1000000000

def orphanExpireScanInterval : Int64 := 5 * 60 * 1000000000

def unix (time : Int64) : Int64 := time / 1000000000

namespace TxPool

variable {F : Type}

/-! ### Orphans -/

section

variable (c : Crypto)

def orphansOf (mp : TxPool F) (prevOut : OutPoint) : List MsgTx :=
  (mp.orphansByPrev.lookup prevOut).elim [] fun orphans => orphans.entries.map (·.2)

def removePrevRef (txHash : Hash) (mp : TxPool F) (prevOut : OutPoint) : TxPool F :=
  match mp.orphansByPrev.lookup prevOut with
  | none => mp
  | some orphans =>
    let orphans := orphans.erase txHash
    if orphans.entries = [] then { mp with orphansByPrev := mp.orphansByPrev.erase prevOut }
    else { mp with orphansByPrev := mp.orphansByPrev.insert prevOut orphans }

def outPoints (tx : MsgTx) : List OutPoint :=
  (List.range tx.txOut.length).map fun txOutIdx => ⟨tx.txHash c, UInt32.ofNat txOutIdx⟩

/-- `removeOrphan`, as deep as the first argument. What has lost its place among the spenders of its
inputs is not found again, so no more calls are nested than there are orphans. -/
def removeOrphanTo : Nat → Bool → TxPool F → MsgTx → TxPool F
  | 0, _, mp, _ => mp
  | depth + 1, removeRedeemers, mp, tx =>
    match mp.orphans.lookup (tx.txHash c) with
    | none => mp
    | some otx =>
      let mp := otx.tx.prevOuts.foldl (removePrevRef (tx.txHash c)) mp
      let mp :=
        if removeRedeemers then
          (outPoints c tx).foldl
            (fun mp prevOut => (mp.orphansOf prevOut).foldl (removeOrphanTo depth true) mp) mp
        else mp
      { mp with orphans := mp.orphans.erase (tx.txHash c) }

def removeOrphan (mp : TxPool F) (tx : MsgTx) (removeRedeemers : Bool) : TxPool F :=
  removeOrphanTo c (mp.orphans.entries.length + 1) removeRedeemers mp tx

def expireOrphans (now : Int64) (mp : TxPool F) : TxPool F :=
  if mp.nextExpireScan < now then
    let mp := (mp.orphans.entries.map (·.2)).foldl
      (fun mp otx => if otx.expiration < now then mp.removeOrphan c otx.tx true else mp) mp
    { mp with nextExpireScan := now + orphanExpireScanInterval }
  else mp

/-- `limitNumOrphans`. The orphan to go is the first one the loop over the map comes to. -/
def limitNumOrphans (cfg : Config F) (mp : TxPool F) : TxPool F :=
  let mp := mp.expireOrphans c cfg.now
  if (mp.orphans.entries.length : Int) + 1 ≤ cfg.policy.maxOrphanTxs then mp
  else
    match (cfg.order.arrange mp.orphans.entries).head? with
    | none => mp
    | some otx => mp.removeOrphan c otx.2.tx false

def addPrevRef (tx : MsgTx) (mp : TxPool F) (prevOut : OutPoint) : TxPool F :=
  let orphans := (mp.orphansByPrev.lookup prevOut).getD ∅
  { mp with orphansByPrev := mp.orphansByPrev.insert prevOut (orphans.insert (tx.txHash c) tx) }

def addOrphan (cfg : Config F) (mp : TxPool F) (tx : MsgTx) (tag : UInt64) : TxPool F :=
  if cfg.policy.maxOrphanTxs ≤ 0 then mp
  else
    let mp := mp.limitNumOrphans c cfg
    let mp := { mp with orphans := mp.orphans.insert (tx.txHash c) ⟨tx, tag, cfg.now + orphanTTL⟩ }
    tx.prevOuts.foldl (addPrevRef c tx) mp

def maybeAddOrphan (cfg : Config F) (mp : TxPool F) (tx : MsgTx) (tag : UInt64) :
    TxPool F × Except TxError Unit :=
  if cfg.policy.maxOrphanTxSize < tx.serializeSize then (mp, .error (.rule .nonstandard))
  else (mp.addOrphan c cfg tx tag, .ok ())

def removeOrphanDoubleSpends (mp : TxPool F) (tx : MsgTx) : TxPool F :=
  tx.prevOuts.foldl
    (fun mp prevOut => (mp.orphansOf prevOut).foldl (fun mp orphan => mp.removeOrphan c orphan true) mp)
    mp

/-- `RemoveOrphansByTag`, with the number of orphans it has removed itself. What has gone together with
another orphan is not visited any more. -/
def removeOrphansByTag (order : MapOrder) (mp : TxPool F) (tag : UInt64) : TxPool F × UInt64 :=
  (order.arrange mp.orphans.entries).foldl
    (fun s e =>
      if (s.1.orphans.lookup e.1).isSome ∧ e.2.tag = tag then
        (s.1.removeOrphan c e.2.tx true, s.2 + 1)
      else s)
    (mp, 0)

end

/-! ### The main pool -/

def isTransactionInPool (mp : TxPool F) (hash : Hash) : Bool := (mp.pool.lookup hash).isSome

def isOrphanInPool (mp : TxPool F) (hash : Hash) : Bool := (mp.orphans.lookup hash).isSome

def haveTransaction (mp : TxPool F) (hash : Hash) : Bool :=
  mp.isTransactionInPool hash || mp.isOrphanInPool hash

def checkPoolDoubleSpend (mp : TxPool F) (tx : MsgTx) : Except TxError Unit :=
  txRuleError (∃ prevOut ∈ tx.prevOuts, (mp.outpoints.lookup prevOut).isSome) .duplicate

def isMissing (entry : Option UtxoEntry) : Bool := entry.all (·.isFullySpent)

section

variable (c : Crypto)

/-- `fetchInputUtxos`: what the chain does not have is taken from the pool. -/
def fetchInputUtxos (b : BlockChain) (mp : TxPool F) (tx : MsgTx) : UtxoViewpoint :=
  let utxoView := b.fetchUtxoView c tx
  utxoView.entries.entries.foldl
    (fun view e =>
      if isMissing e.2 then
        match mp.pool.lookup e.1 with
        | none => view
        | some poolTxDesc => view.addTxOuts c poolTxDesc.tx Mining.unminedHeight
      else view)
    utxoView

def dropTransaction (mp : TxPool F) (txHash : Hash) : TxPool F :=
  match mp.pool.lookup txHash with
  | none => mp
  | some txDesc =>
    { mp with
      pool := mp.pool.erase txHash
      outpoints := txDesc.tx.prevOuts.foldl (fun outpoints prevOut => outpoints.erase prevOut)
        mp.outpoints }

/-- `removeTransaction`, as deep as the first argument. The transactions of nested calls are in the pool
and each spends an output of the one before, so no more calls are nested than the pool has
transactions. -/
def removeTransactionTo : Nat → Bool → TxPool F → MsgTx → TxPool F
  | 0, _, mp, _ => mp
  | depth + 1, removeRedeemers, mp, tx =>
    let mp :=
      if removeRedeemers then
        (outPoints c tx).foldl
          (fun mp prevOut =>
            match mp.outpoints.lookup prevOut with
            | none => mp
            | some txRedeemer => removeTransactionTo depth true mp txRedeemer)
          mp
      else mp
    mp.dropTransaction (tx.txHash c)

def removeTransaction (mp : TxPool F) (tx : MsgTx) (removeRedeemers : Bool) : TxPool F :=
  removeTransactionTo c (mp.pool.entries.length + 1) removeRedeemers mp tx

def removeDoubleSpends (mp : TxPool F) (tx : MsgTx) : TxPool F :=
  tx.prevOuts.foldl
    (fun mp prevOut =>
      match mp.outpoints.lookup prevOut with
      | none => mp
      | some txRedeemer =>
        if txRedeemer.txHash c = tx.txHash c then mp else mp.removeTransaction c txRedeemer true)
    mp

variable [Float64 F]

def addTransaction (cfg : Config F) (mp : TxPool F) (utxoView : UtxoViewpoint) (tx : MsgTx)
    (height : UInt32) (fee : Int64) : TxPool F × TxDesc F :=
  let txD : TxDesc F :=
    { tx := tx
      added := cfg.now
      height := height
      fee := fee
      feePerKB := fee * 1000 / Int64.ofNat tx.serializeSize
      startingPriority := Mining.calcPriority tx utxoView height }
  ({ mp with
      pool := mp.pool.insert (tx.txHash c) txD
      outpoints := tx.prevOuts.foldl (fun outpoints prevOut => outpoints.insert prevOut tx) mp.outpoints },
    txD)

/-! ### Accepting transactions -/

/-- A chain rule, with its error as the pool reports it. -/
def chainRule {α : Type} : Except ChainError α → Except TxError α
  | .ok a => .ok a
  | .error e => .error (.chain e)

/-- A transaction whose inputs are known and that has passed the checks before the rate limit. -/
structure Candidate where
  utxoView : UtxoViewpoint
  txFee : Int64
  minFee : Int64

/-- The checks of `maybeAcceptTransaction` before the inputs are looked up. -/
def checkAlone (cfg : Config F) (mp : TxPool F) (tx : MsgTx) (rejectDupOrphans : Bool) :
    Except TxError Unit := do
  let txHash := tx.txHash c
  txRuleError (mp.isTransactionInPool txHash ∨ rejectDupOrphans ∧ mp.isOrphanInPool txHash) .duplicate
  chainRule (checkTransactionSanity tx)
  txRuleError (isCoinBase tx) .invalid
  txRuleError (2 ^ 31 ≤ tx.lockTime.toNat) .nonstandard
  if cfg.policy.acceptNonStd then pure ()
  else
    checkTransactionStandard tx (cfg.chain.bestNode.height + 1) cfg.chain.medianTime
      cfg.policy.minRelayTxFee cfg.policy.maxTxVersion
  mp.checkPoolDoubleSpend tx

/-- The checks of `maybeAcceptTransaction` on a transaction whose inputs are known, up to the rate
limit. -/
def checkKnown (cfg : Config F) (tx : MsgTx) (isNew : Bool) (utxoView : UtxoViewpoint) :
    Except TxError Candidate := do
  let nextBlockHeight := cfg.chain.bestNode.height + 1
  let params := cfg.chain.params
  let sequenceLock ← chainRule (cfg.chain.calcSequenceLock tx utxoView)
  txRuleError (¬ sequenceLockActive sequenceLock nextBlockHeight.toInt32 cfg.chain.medianTime)
    .nonstandard
  let txFee ← chainRule (checkTransactionInputs params tx nextBlockHeight utxoView)
  chainRule (checkTransactionOutputs params tx cfg.chain.keys)
  if cfg.policy.acceptNonStd then pure () else checkInputsStandard tx utxoView
  let numSigOps ← chainRule (countP2SHSigOps tx false utxoView)
  txRuleError (cfg.policy.maxSigOpsPerTx < numSigOps + countSigOps tx) .nonstandard
  let minFee :=
    calcMinRequiredTxRelayFee (Int64.ofNat tx.serializeSize) cfg.policy.minRelayTxFee
  txRuleError (defaultBlockPrioritySize - 1000 ≤ tx.serializeSize ∧ txFee < minFee) .insufficientFee
  txRuleError (isNew ∧ ¬ cfg.policy.disableRelayPriority ∧ txFee < minFee ∧
    Float64.le (Mining.calcPriority tx utxoView nextBlockHeight : F) Mining.minHighPriority)
    .insufficientFee
  return ⟨utxoView, txFee, minFee⟩

/-- The limit on free transactions: the total decays with the time, and what stays below the limit is
added to it. -/
def limitFree (cfg : Config F) (serializedSize : Nat) (mp : TxPool F) :
    TxPool F × Except TxError Unit :=
  let nowUnix := unix cfg.now
  let pennyTotal := Float64.mul mp.pennyTotal
    (Float64.pow Float64.decay (Float64.ofInt64 (nowUnix - mp.lastPennyUnix)))
  let mp := { mp with pennyTotal := pennyTotal, lastPennyUnix := nowUnix }
  let limit := Float64.mul (Float64.mul cfg.policy.freeTxRelayLimit (Float64.ofInt64 10))
    (Float64.ofInt64 1000)
  if Float64.le limit pennyTotal then (mp, .error (.rule .insufficientFee))
  else
    ({ mp with
        pennyTotal := Float64.add pennyTotal (Float64.ofInt64 (Int64.ofNat serializedSize)) }, .ok ())

/-- The end of `maybeAcceptTransaction`: the rate limit, the scripts, and adding the transaction. -/
def acceptCandidate (cfg : Config F) (mp : TxPool F) (tx : MsgTx) (rateLimit : Bool)
    (candidate : Candidate) : TxPool F × Except TxError (TxDesc F) :=
  let (mp, limited) :=
    if rateLimit ∧ candidate.txFee < candidate.minFee then mp.limitFree cfg tx.serializeSize
    else (mp, .ok ())
  match limited with
  | .error e => (mp, .error e)
  | .ok _ =>
    match validateTransactionScripts c tx candidate.utxoView cfg.chain.keys standardVerifyFlags with
    | .error e => (mp, .error (.chain e))
    | .ok _ =>
      let (mp, txD) :=
        mp.addTransaction c cfg candidate.utxoView tx cfg.chain.bestNode.height candidate.txFee
      (mp, .ok txD)

/-- What `maybeAcceptTransaction` returns when it does not fail. -/
inductive Verdict (F : Type)
  | missingParents (hashes : List Hash)
  | accepted (txD : TxDesc F)

def maybeAcceptTransaction (cfg : Config F) (mp : TxPool F) (tx : MsgTx)
    (isNew rateLimit rejectDupOrphans : Bool) : TxPool F × Except TxError (Verdict F) :=
  match mp.checkAlone c cfg tx rejectDupOrphans with
  | .error e => (mp, .error e)
  | .ok _ =>
    let txHash := tx.txHash c
    let utxoView := mp.fetchInputUtxos c cfg.chain tx
    if ∃ entry ∈ utxoView.lookupEntry txHash, ¬ entry.isFullySpent then
      (mp, .error (.rule .duplicate))
    else
      let utxoView := { utxoView with entries := utxoView.entries.erase txHash }
      let missingParents := (utxoView.entries.entries.filter fun e => isMissing e.2).map (·.1)
      if missingParents ≠ [] then (mp, .ok (.missingParents missingParents))
      else
        match checkKnown cfg tx isNew utxoView with
        | .error e => (mp, .error e)
        | .ok candidate =>
          match mp.acceptCandidate c cfg tx rateLimit candidate with
          | (mp, .error e) => (mp, .error e)
          | (mp, .ok txD) => (mp, .ok (.accepted txD))

/-- The loop of `processOrphans` over the orphans that spend one output. At most one of them is
accepted, and the first one that has become invalid ends the loop. -/
def tryOrphans (cfg : Config F) : List MsgTx → TxPool F → TxPool F × Option (TxDesc F)
  | [], mp => (mp, none)
  | tx :: txs, mp =>
    match mp.maybeAcceptTransaction c cfg tx true true false with
    | (mp, .error _) => (mp.removeOrphan c tx true, none)
    | (mp, .ok (.missingParents _)) => tryOrphans cfg txs mp
    | (mp, .ok (.accepted txD)) => (mp.removeOrphan c tx false, some txD)

/-- The loop of `processOrphans` over outputs that have become available. -/
def tryOutputs (cfg : Config F) : List OutPoint → TxPool F → TxPool F × List (TxDesc F)
  | [], mp => (mp, [])
  | prevOut :: prevOuts, mp =>
    let (mp, txD) := tryOrphans c cfg (cfg.order.arrange (mp.orphansOf prevOut)) mp
    let (mp, acceptedTxns) := tryOutputs cfg prevOuts mp
    (mp, txD.toList ++ acceptedTxns)

/-- The loop of `processOrphans` over the list of transactions to process. A transaction comes to the
list when it leaves the orphans, so the loop is not run more often than there are orphans, and once
for the transaction it starts with. -/
def processList (cfg : Config F) : Nat → List MsgTx → TxPool F → TxPool F × List (TxDesc F)
  | 0, _, mp => (mp, [])
  | _ + 1, [], mp => (mp, [])
  | rounds + 1, processItem :: rest, mp =>
    let (mp, accepted) := tryOutputs c cfg (outPoints c processItem) mp
    let (mp, acceptedTxns) := processList cfg rounds (rest ++ accepted.map (·.tx)) mp
    (mp, accepted ++ acceptedTxns)

def processOrphans (cfg : Config F) (mp : TxPool F) (acceptedTx : MsgTx) :
    TxPool F × List (TxDesc F) :=
  let (mp, acceptedTxns) := processList c cfg (mp.orphans.entries.length + 1) [acceptedTx] mp
  let mp := mp.removeOrphanDoubleSpends c acceptedTx
  (acceptedTxns.foldl (fun mp txD => mp.removeOrphanDoubleSpends c txD.tx) mp, acceptedTxns)

def processTransaction (cfg : Config F) (mp : TxPool F) (tx : MsgTx) (allowOrphan rateLimit : Bool)
    (tag : UInt64) : TxPool F × Except TxError (List (TxDesc F)) :=
  match mp.maybeAcceptTransaction c cfg tx true rateLimit true with
  | (mp, .error e) => (mp, .error e)
  | (mp, .ok (.accepted txD)) =>
    let (mp, newTxs) := mp.processOrphans c cfg tx
    (mp, .ok (txD :: newTxs))
  | (mp, .ok (.missingParents _)) =>
    if allowOrphan then
      match mp.maybeAddOrphan c cfg tx tag with
      | (mp, .error e) => (mp, .error e)
      | (mp, .ok _) => (mp, .ok [])
    else (mp, .error (.rule .duplicate))

end

end TxPool

end Mempool

end Prova
