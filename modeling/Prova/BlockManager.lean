import Prova.Blockchain.Run
import Prova.Mempool.Accept
import Mathlib.Algebra.Field.Rat

/-!
# Transaction messages (`blockmanager.go`)

A transaction that the pool has rejected is not processed again until the next block: its hash is kept,
and a message with that hash is ignored. But the hash does not cover the signature scripts. Whoever
sends a transaction with other signature scripts first has the transaction itself ignored.
-/

namespace Prova

open List Sample

/-- `map[chainhash.Hash]struct{}`. -/
abbrev HashMap := AList fun _ : Hash => Unit

def maxRejectedTxns : Nat := 1000

structure BlockManager (F : Type) where
  rejectedTxns : HashMap
  requestedTxns : HashMap
  /-- The `requestedTxns` of the peers. -/
  peerRequestedTxns : UInt64 → HashMap
  txMemPool : Mempool.TxPool F

/-- `txMsg`, with the time at which it is handled and the order in which maps are walked then. -/
structure TxMsg where
  tx : MsgTx
  peer : UInt64
  now : Int64
  order : MapOrder

/-- What `handleTxMsg` does with a message in the end. -/
inductive TxMsgOutcome (F : Type)
  /-- The transaction was rejected before. -/
  | ignored
  /-- `PushRejectMsg`. -/
  | rejected (err : Mempool.TxError)
  /-- `AnnounceNewTransactions`. -/
  | announced (acceptedTxs : List (Mempool.TxDesc F))

namespace BlockManager

/-- `limitMap`. The entry to go is the first one the loop over the map comes to. -/
def limitMap (order : MapOrder) (m : HashMap) (limit : Nat) : HashMap :=
  if limit < m.entries.length + 1 then
    match (order.arrange m.entries).head? with
    | none => m
    | some e => m.erase e.1
  else m

section

variable {F : Type} [Float64 F] (c : Crypto) (policy : Mempool.Policy F) (chain : BlockChain)

def config (tmsg : TxMsg) : Mempool.Config F := ⟨policy, chain, tmsg.now, tmsg.order⟩

def process (mp : Mempool.TxPool F) (tmsg : TxMsg) :
    Mempool.TxPool F × Except Mempool.TxError (List (Mempool.TxDesc F)) :=
  mp.processTransaction c (config policy chain tmsg) tmsg.tx (0 < policy.maxOrphanTxs) true tmsg.peer

def handleTxMsg (b : BlockManager F) (tmsg : TxMsg) : BlockManager F × TxMsgOutcome F :=
  let txHash := tmsg.tx.txHash c
  if (b.rejectedTxns.lookup txHash).isSome then (b, .ignored)
  else
    let (txMemPool, processed) := process c policy chain b.txMemPool tmsg
    let b := { b with
      txMemPool := txMemPool
      peerRequestedTxns := Function.update b.peerRequestedTxns tmsg.peer
        ((b.peerRequestedTxns tmsg.peer).erase txHash)
      requestedTxns := b.requestedTxns.erase txHash }
    match processed with
    | .error e =>
      let rejectedTxns := limitMap tmsg.order (b.rejectedTxns.insert txHash ()) maxRejectedTxns
      ({ b with rejectedTxns := rejectedTxns }, .rejected e)
    | .ok acceptedTxs => (b, .announced acceptedTxs)

/-- The block manager after some messages. -/
def handleTxMsgs (b : BlockManager F) (tmsgs : List TxMsg) : BlockManager F :=
  tmsgs.foldl (fun b tmsg => (handleTxMsg c policy chain b tmsg).1) b

/-- The pool accepts the transaction of a message, as it stands. -/
def Accepts (b : BlockManager F) (tmsg : TxMsg) : Prop :=
  ∃ txD newTxs, (process c policy chain b.txMemPool tmsg).2 = .ok (txD :: newTxs)

/-- After the message, the pool has its transaction. -/
def Admits (b : BlockManager F) (tmsg : TxMsg) : Prop :=
  ∃ txD, (handleTxMsg c policy chain b tmsg).1.txMemPool.pool.lookup (tmsg.tx.txHash c) = some txD ∧
    txD.tx = tmsg.tx

/-- The message is not taken: its transaction is rejected, or was before. -/
def Rejects (b : BlockManager F) (tmsg : TxMsg) : Prop :=
  ¬ ∃ acceptedTxs, (handleTxMsg c policy chain b tmsg).2 = .announced acceptedTxs

/-- Every one of the messages is rejected when its turn comes. -/
def RejectsAll : BlockManager F → List TxMsg → Prop
  | _, [] => True
  | b, tmsg :: tmsgs =>
    Rejects c policy chain b tmsg ∧ RejectsAll (handleTxMsg c policy chain b tmsg).1 tmsgs

end

/-- The same message, whatever the order in which maps are walked. -/
def SameMsg (a b : TxMsg) : Prop := a.tx = b.tx ∧ a.peer = b.peer ∧ a.now = b.now

section

variable {F : Type} [Float64 F] {c : Crypto} {policy : Mempool.Policy F} {chain : BlockChain}
  {b : BlockManager F} {tmsg : TxMsg}

theorem handleTxMsg_ignored (h : (b.rejectedTxns.lookup (tmsg.tx.txHash c)).isSome) :
    handleTxMsg c policy chain b tmsg = (b, .ignored) := by
  unfold handleTxMsg
  exact if_pos h

theorem handleTxMsg_fresh (policy : Mempool.Policy F) (chain : BlockChain) (h : (b.rejectedTxns.lookup (tmsg.tx.txHash c)).isSome = false) :
    (handleTxMsg c policy chain b tmsg).1.txMemPool = (process c policy chain b.txMemPool tmsg).1 ∧
      (∀ e, (process c policy chain b.txMemPool tmsg).2 = .error e →
        (handleTxMsg c policy chain b tmsg).1.rejectedTxns =
          limitMap tmsg.order (b.rejectedTxns.insert (tmsg.tx.txHash c) ()) maxRejectedTxns) ∧
      (∀ acceptedTxs, (process c policy chain b.txMemPool tmsg).2 = .ok acceptedTxs →
        (handleTxMsg c policy chain b tmsg).2 = .announced acceptedTxs) := by
  unfold handleTxMsg
  simp only [h, Bool.false_eq_true, if_false]
  cases hprocess : process c policy chain b.txMemPool tmsg with
  | mk mp r =>
    cases r with
    | error e =>
      refine ⟨rfl, fun e' he => rfl, fun acceptedTxs hok => ?_⟩
      cases hok
    | ok txs =>
      refine ⟨rfl, fun e' he => ?_, fun acceptedTxs hok => ?_⟩
      · cases he
      · cases hok
        rfl

theorem lookup_limitMap_reversed (m : HashMap) (hash : Hash) {limit : Nat} (hlimit : 2 ≤ limit) :
    ((limitMap .reversed (m.insert hash ()) limit).lookup hash).isSome := by
  have hsome : ((m.insert hash ()).lookup hash).isSome := by
    rw [AList.lookup_insert]
    rfl
  unfold limitMap
  split_ifs with hfull
  · cases hhead : (MapOrder.reversed.arrange (m.insert hash ()).entries).head? with
    | none => exact hsome
    | some e =>
      have hne : hash ≠ e.1 := by
        rintro rfl
        rw [AList.entries_insert, length_cons] at hfull
        change ((m.insert e.1 ()).entries.reverse).head? = some e at hhead
        rw [AList.entries_insert, reverse_cons, head?_append_of_ne_nil] at hhead
        · have hmem := mem_reverse.mp (mem_of_mem_head? hhead)
          exact notMem_keys_kerase e.1 m.nodupKeys (mem_keys_of_mem hmem)
        · intro hnil
          rw [reverse_eq_nil_iff.mp hnil, length_nil] at hfull
          omega
      dsimp only
      rw [AList.lookup_erase_ne hne]
      exact hsome
  · exact hsome

theorem ignored_all (policy : Mempool.Policy F) (chain : BlockChain) {hash : Hash} {tmsgs : List TxMsg} (hhash : (b.rejectedTxns.lookup hash).isSome)
    (hvariants : ∀ v ∈ tmsgs, v.tx.txHash c = hash) :
    RejectsAll c policy chain b tmsgs ∧ handleTxMsgs c policy chain b tmsgs = b := by
  induction tmsgs with
  | nil => exact ⟨trivial, rfl⟩
  | cons v vs ih =>
    rw [forall_mem_cons] at hvariants
    have hignored : handleTxMsg c policy chain b v = (b, .ignored) :=
      handleTxMsg_ignored (by rwa [hvariants.1])
    obtain ⟨hrejects, hrun⟩ := ih hvariants.2
    refine ⟨⟨?_, ?_⟩, ?_⟩
    · rintro ⟨acceptedTxs, hannounced⟩
      rw [hignored] at hannounced
      cases hannounced
    · rw [hignored]
      exact hrejects
    · unfold handleTxMsgs at hrun ⊢
      rw [foldl_cons, hignored]
      exact hrun

theorem admits_of_accepts (haccepts : Accepts c policy chain b tmsg)
    (hfresh : (b.rejectedTxns.lookup (tmsg.tx.txHash c)).isSome = false) : Admits c policy chain b tmsg := by
  obtain ⟨txD, newTxs, hok⟩ := haccepts
  cases hprocess : process c policy chain b.txMemPool tmsg with
  | mk mp r =>
    have hpool := Mempool.TxPool.pool_processTransaction hprocess
    have hmp := (handleTxMsg_fresh policy chain hfresh).1
    rw [hprocess] at hok hmp
    dsimp only at hok
    subst hok
    obtain ⟨htx, -, hlookup⟩ := hpool.2 _ _ rfl
    refine ⟨txD, ?_, htx⟩
    rw [hmp]
    exact hlookup

/-- A transaction that the pool accepts is admitted after rejected variants of it, whatever entries the
reject cache gives up, exactly if there were none. -/
theorem admits_after_variants_iff {tmsgs : List TxMsg} (haccepts : Accepts c policy chain b tmsg)
    (hfresh : (b.rejectedTxns.lookup (tmsg.tx.txHash c)).isSome = false)
    (hvariants : ∀ v ∈ tmsgs, v.tx.txHash c = tmsg.tx.txHash c) (hrejected : RejectsAll c policy chain b tmsgs) :
    (∀ tmsgs', List.Forall₂ SameMsg tmsgs tmsgs' → RejectsAll c policy chain b tmsgs' →
        Admits c policy chain (handleTxMsgs c policy chain b tmsgs') tmsg) ↔ tmsgs = [] := by
  constructor
  · intro hadmits
    cases tmsgs with
    | nil => rfl
    | cons v vs =>
      exfalso
      rw [forall_mem_cons] at hvariants
      have hfresh' : (b.rejectedTxns.lookup (v.tx.txHash c)).isSome = false := by
        rwa [hvariants.1]
      -- the first variant is processed and rejected, also when maps are walked backwards
      obtain ⟨mp, e, herror⟩ : ∃ mp e, process c policy chain b.txMemPool v = (mp, .error e) := by
        cases hprocess : process c policy chain b.txMemPool v with
        | mk mp r =>
          cases r with
          | error e => exact ⟨mp, e, rfl⟩
          | ok acceptedTxs =>
            have hannounced := (handleTxMsg_fresh policy chain hfresh').2.2 acceptedTxs
              (by rw [hprocess])
            exact absurd ⟨acceptedTxs, hannounced⟩ hrejected.1
      have herror' : process c policy chain b.txMemPool { v with order := .reversed } =
          (mp, .error e) := Mempool.TxPool.processTransaction_error_order herror .reversed
      have hfresh'' : (b.rejectedTxns.lookup
          (({ v with order := .reversed } : TxMsg).tx.txHash c)).isSome = false := hfresh'
      obtain ⟨hmp, hcache, -⟩ := handleTxMsg_fresh policy chain hfresh''
      rw [herror'] at hmp hcache
      have hcached : ((handleTxMsg c policy chain b { v with order := .reversed }).1.rejectedTxns.lookup
          (tmsg.tx.txHash c)).isSome := by
        rw [hcache e rfl, ← hvariants.1]
        exact lookup_limitMap_reversed _ _ (by decide)
      obtain ⟨hrejects, hrun⟩ := ignored_all policy chain hcached hvariants.2
      have hsame : List.Forall₂ SameMsg (v :: vs) ({ v with order := .reversed } :: vs) :=
        .cons ⟨rfl, rfl, rfl⟩ (forall₂_same.mpr fun _ _ => ⟨rfl, rfl, rfl⟩)
      have hrejects' : Rejects c policy chain b { v with order := .reversed } := by
        rintro ⟨acceptedTxs, hannounced⟩
        unfold handleTxMsg at hannounced
        simp only [hfresh'', Bool.false_eq_true, if_false, herror'] at hannounced
        cases hannounced
      obtain ⟨txD, hlookup, -⟩ := hadmits _ hsame ⟨hrejects', hrejects⟩
      -- the transaction itself is ignored, and the pool is as it was
      have hstate : handleTxMsgs c policy chain b ({ v with order := .reversed } :: vs) =
          (handleTxMsg c policy chain b { v with order := .reversed }).1 := hrun
      rw [hstate, handleTxMsg_ignored hcached, hmp,
        (Mempool.TxPool.pool_processTransaction herror').1 e rfl] at hlookup
      obtain ⟨txD', newTxs, hok⟩ := haccepts
      cases hprocess : process c policy chain b.txMemPool tmsg with
      | mk mp' r =>
        rw [hprocess] at hok
        dsimp only at hok
        subst hok
        rw [((Mempool.TxPool.pool_processTransaction hprocess).2 _ _ rfl).2.1] at hlookup
        cases hlookup
  · rintro rfl tmsgs' hsame -
    cases hsame
    exact admits_of_accepts haccepts hfresh

end

end BlockManager

namespace Sample

/-- Exact arithmetic, which floating point arithmetic is as long as nothing has to be rounded. -/
instance : Float64 ℚ where
  ofInt64 x := x.toInt
  add x y := x + y
  mul x y := x * y
  div x y := x / y
  pow x y := x ^ y.num
  lt x y := x < y
  le x y := x ≤ y
  eq x y := x = y
  decay := 599 / 600

/-- The policy of a node of the network with nothing configured. -/
def relayPolicy : Mempool.Policy ℚ where
  maxTxVersion := 2
  disableRelayPriority := true
  acceptNonStd := true
  freeTxRelayLimit := 2500
  maxOrphanTxs := 100
  maxOrphanTxSize := 100000
  maxSigOpsPerTx := (maxSigOpsPerBlock / 5 : Nat)
  minRelayTxFee := 0

def emptyPool : Mempool.TxPool ℚ := ⟨∅, ∅, ∅, ∅, 0, 0, 0⟩

def blockManager : BlockManager ℚ := ⟨∅, ∅, fun _ => ∅, emptyPool⟩

def issueMsg : TxMsg := ⟨issueTx, 1, 0x58DC307C * 1000000000, .kept⟩

/-- `issueTx` without its signatures. -/
def unsignedMsg : TxMsg :=
  { issueMsg with tx := { issueTx with txIn := issueTx.txIn.map ({ · with signatureScript := [] }) } }

theorem accepts_issueMsg : blockManager.Accepts crypto relayPolicy genesis issueMsg := by
  have hrun : ((BlockManager.process crypto relayPolicy genesis blockManager.txMemPool issueMsg).2.toOption.map
      (·.length)) = some 1 := by decide +kernel
  obtain ⟨txDs, hok, hlength⟩ := Option.map_eq_some_iff.mp hrun
  obtain ⟨txD, rfl⟩ := length_eq_one_iff.mp hlength
  exact ⟨txD, [], eq_ok_of_toOption hok⟩

theorem txHash_unsignedMsg : unsignedMsg.tx.txHash crypto = issueMsg.tx.txHash crypto :=
  congrArg crypto.doubleHashH (MsgTx.serializeStripped_congr rfl)

theorem rejects_unsignedMsg : blockManager.Rejects crypto relayPolicy genesis unsignedMsg := by
  have hrun : (BlockManager.process crypto relayPolicy genesis blockManager.txMemPool unsignedMsg).2.isOk =
      false := by decide +kernel
  rintro ⟨acceptedTxs, hannounced⟩
  unfold BlockManager.handleTxMsg at hannounced
  have hfresh : (blockManager.rejectedTxns.lookup (unsignedMsg.tx.txHash crypto)).isSome = false := rfl
  simp only [hfresh, Bool.false_eq_true, if_false] at hannounced
  cases hprocess : BlockManager.process crypto relayPolicy genesis blockManager.txMemPool unsignedMsg with
  | mk mp r =>
    rw [hprocess] at hrun hannounced
    cases r with
    | error e => cases hannounced
    | ok txDs => cases hrun

end Sample

namespace BlockManager

theorem admits_after_variants_iff_unsignedMsg : (∀ tmsgs', List.Forall₂ SameMsg [Sample.unsignedMsg] tmsgs' →
        RejectsAll Sample.crypto Sample.relayPolicy Sample.genesis Sample.blockManager tmsgs' →
        Admits Sample.crypto Sample.relayPolicy Sample.genesis
          (handleTxMsgs Sample.crypto Sample.relayPolicy Sample.genesis Sample.blockManager tmsgs')
          Sample.issueMsg) ↔ [Sample.unsignedMsg] = [] :=
  admits_after_variants_iff accepts_issueMsg rfl
    (fun v hv => by rw [mem_singleton.mp hv, txHash_unsignedMsg])
    ⟨rejects_unsignedMsg, trivial⟩

/-- After `issueTx` without signatures, which is rejected, `issueTx` is ignored. -/
theorem ignored_after_unsignedMsg :
    Accepts Sample.crypto Sample.relayPolicy Sample.genesis Sample.blockManager Sample.issueMsg ∧
      Sample.unsignedMsg.tx.txHash Sample.crypto = Sample.issueMsg.tx.txHash Sample.crypto ∧
      Rejects Sample.crypto Sample.relayPolicy Sample.genesis Sample.blockManager Sample.unsignedMsg ∧
      ¬ Admits Sample.crypto Sample.relayPolicy Sample.genesis
        (handleTxMsg Sample.crypto Sample.relayPolicy Sample.genesis Sample.blockManager
          Sample.unsignedMsg).1 Sample.issueMsg := by
  refine ⟨accepts_issueMsg, txHash_unsignedMsg, rejects_unsignedMsg, ?_⟩
  rintro ⟨txD, hlookup, -⟩
  have hnone : ((handleTxMsg crypto relayPolicy genesis
      (handleTxMsg crypto relayPolicy genesis blockManager unsignedMsg).1 issueMsg).1.txMemPool.pool.lookup
          (issueMsg.tx.txHash crypto)).isSome = false := by
    decide +kernel
  rw [hlookup] at hnone
  cases hnone

end BlockManager

end Prova
