import Prova.Mempool.Accept

/-!
# What the pool's operations are made of

Every operation of the pool is a sequence of a few changes: a transaction comes to the main pool when
nothing in it spends the same, one leaves it with its outpoints, an orphan is added that is not there
yet, an orphan is removed, and the counters of the rate limit and the expiry scan move on. What each
of these changes keeps, every run of operations keeps.
-/

namespace Prova

namespace Mempool

namespace TxPool

variable {F : Type} [Float64 F]

variable {rateLimit : Bool} {cfg : Config F} {tx : MsgTx} {mp : TxPool F}

inductive Change (c : Crypto) (policy : Policy F) : TxPool F → TxPool F → Prop
  | counters {mp mp' : TxPool F} (pool : mp'.pool = mp.pool) (outpoints : mp'.outpoints = mp.outpoints)
    (orphans : mp'.orphans = mp.orphans) (orphansByPrev : mp'.orphansByPrev = mp.orphansByPrev) :
    Change c policy mp mp'
  | add {mp : TxPool F} (cfg : Config F) (utxoView : UtxoViewpoint) (tx : MsgTx) (height : UInt32)
    (fee : Int64) (new : mp.pool.lookup (tx.txHash c) = none)
    (unspent : ∀ prevOut ∈ tx.prevOuts, mp.outpoints.lookup prevOut = none) :
    Change c policy mp (mp.addTransaction c cfg utxoView tx height fee).1
  | drop {mp : TxPool F} (txHash : Hash) : Change c policy mp (mp.dropTransaction txHash)
  | addOrphan {mp : TxPool F} (cfg : Config F) (tx : MsgTx) (tag : UInt64)
    (config : cfg.policy = policy) (new : mp.orphans.lookup (tx.txHash c) = none) :
    Change c policy mp (mp.addOrphan c cfg tx tag)
  | removeOrphan {mp : TxPool F} (tx : MsgTx) (removeRedeemers : Bool) :
    Change c policy mp (mp.removeOrphan c tx removeRedeemers)

abbrev Changes (c : Crypto) (policy : Policy F) : TxPool F → TxPool F → Prop :=
  Relation.ReflTransGen (Change c policy)

variable {c : Crypto} {policy : Policy F}

theorem changes_foldl {α : Type*} {f : TxPool F → α → TxPool F}
    (hf : ∀ mp a, Changes c policy mp (f mp a)) (l : List α) (mp : TxPool F) : Changes c policy mp (l.foldl f mp) :=
  rel_foldl (fun _ => .refl) .trans hf l mp

/-! ### Orphans -/

theorem changes_removeOrphan (mp : TxPool F) (tx : MsgTx) (removeRedeemers : Bool) :
    Changes c policy mp (mp.removeOrphan c tx removeRedeemers) :=
  .single (.removeOrphan tx removeRedeemers)

theorem changes_removeOrphansByTag (order : MapOrder) (mp : TxPool F) (tag : UInt64) :
    Changes c policy mp (mp.removeOrphansByTag c order tag).1 := by
  unfold removeOrphansByTag
  generalize order.arrange mp.orphans.entries = entries
  generalize (0 : UInt64) = numEvicted
  induction entries generalizing mp numEvicted with
  | nil => exact .refl
  | cons e entries ih =>
    rw [List.foldl_cons]
    split_ifs with htag
    · exact (changes_removeOrphan mp e.2.tx true).trans (ih _ _)
    · exact ih mp numEvicted

/-! ### Removing transactions -/

theorem changes_removeTransactionTo (depth : Nat) (removeRedeemers : Bool) (mp : TxPool F) (tx : MsgTx) :
    Changes c policy mp (removeTransactionTo c depth removeRedeemers mp tx) := by
  induction depth generalizing removeRedeemers mp tx with
  | zero => exact .refl
  | succ depth ih =>
    unfold removeTransactionTo
    refine Relation.ReflTransGen.tail ?_ (.drop (tx.txHash c))
    cases removeRedeemers with
    | false => exact .refl
    | true =>
      refine changes_foldl (fun mp prevOut => ?_) _ mp
      cases mp.outpoints.lookup prevOut with
      | none => exact .refl
      | some txRedeemer => exact ih true mp txRedeemer

theorem changes_removeTransaction (mp : TxPool F) (tx : MsgTx) (removeRedeemers : Bool) :
    Changes c policy mp (mp.removeTransaction c tx removeRedeemers) :=
  changes_removeTransactionTo _ _ _ _

theorem changes_removeDoubleSpends (mp : TxPool F) (tx : MsgTx) : Changes c policy mp (mp.removeDoubleSpends c tx) := by
  refine changes_foldl (fun mp prevOut => ?_) _ mp
  cases mp.outpoints.lookup prevOut with
  | none => exact .refl
  | some txRedeemer =>
    dsimp only
    split_ifs
    · exact .refl
    · exact changes_removeTransaction mp txRedeemer true

/-! ### Accepting transactions -/

theorem SameMaps.change {mp' : TxPool F} (h : SameMaps mp mp') : Change c policy mp mp' :=
  .counters h.pool h.outpoints h.orphans h.orphansByPrev

theorem changes_maybeAcceptTransaction (cfg : Config F) (mp : TxPool F) (tx : MsgTx)
    (isNew rateLimit rejectDupOrphans : Bool) :
    Changes c policy mp (mp.maybeAcceptTransaction c cfg tx isNew rateLimit rejectDupOrphans).1 := by
  have hend := maybeAcceptTransaction_outcome (c := c) cfg mp tx isNew rateLimit rejectDupOrphans
  generalize mp.maybeAcceptTransaction c cfg tx isNew rateLimit rejectDupOrphans = r at hend
  cases hend with
  | rejected same e => exact .single same.change
  | missing alone hashes => exact .refl
  | accepted same alone utxoView height fee =>
    obtain ⟨hnew, hunspent, -⟩ := checkAlone_ok alone
    rw [← same.pool] at hnew
    rw [← same.outpoints] at hunspent
    exact .tail (.single same.change) (.add cfg utxoView tx height fee hnew hunspent)

theorem maybeAcceptTransaction_missing {mp' : TxPool F} {isNew : Bool} {hashes : List Hash}
    (h : mp.maybeAcceptTransaction c cfg tx isNew rateLimit true = (mp', .ok (.missingParents hashes))) :
    mp' = mp ∧ mp.orphans.lookup (tx.txHash c) = none := by
  have hend := maybeAcceptTransaction_outcome (c := c) cfg mp tx isNew rateLimit true
  rw [h] at hend
  cases hend with
  | missing alone _ => exact ⟨rfl, (checkAlone_ok alone).2.2 rfl⟩

theorem changes_processOrphans (cfg : Config F) (mp : TxPool F) (acceptedTx : MsgTx) :
    Changes c policy mp (mp.processOrphans c cfg acceptedTx).1 :=
  rel_processOrphans (fun _ => .refl) .trans
    (fun mp tx => changes_maybeAcceptTransaction cfg mp tx true true false) changes_removeOrphan mp acceptedTx

theorem changes_processTransaction (cfg : Config F) (hcfg : cfg.policy = policy) {allowOrphan : Bool} {tag : UInt64} :
    Changes c policy mp (mp.processTransaction c cfg tx allowOrphan rateLimit tag).1 := by
  have hchanges : Changes c policy mp (mp.maybeAcceptTransaction c cfg tx true rateLimit true).1 :=
    changes_maybeAcceptTransaction cfg mp tx true rateLimit true
  unfold processTransaction
  cases haccept : mp.maybeAcceptTransaction c cfg tx true rateLimit true with
  | mk mp₁ r =>
    rw [haccept] at hchanges
    cases r with
    | error e => exact hchanges
    | ok verdict =>
      cases verdict with
      | accepted txD => exact hchanges.trans (changes_processOrphans cfg mp₁ tx)
      | missingParents hashes =>
        obtain ⟨rfl, hnew⟩ := maybeAcceptTransaction_missing haccept
        cases allowOrphan with
        | false => exact .refl
        | true =>
          dsimp only [maybeAddOrphan]
          rw [if_pos rfl]
          split_ifs
          · exact .refl
          · exact .single (.addOrphan cfg tx tag hcfg hnew)

/-! ### Runs -/

inductive Op
  | processTransaction (chain : BlockChain) (now : Int64) (order : MapOrder) (tx : MsgTx)
    (allowOrphan rateLimit : Bool) (tag : UInt64)
  | maybeAcceptTransaction (chain : BlockChain) (now : Int64) (order : MapOrder) (tx : MsgTx)
    (isNew rateLimit : Bool)
  | processOrphans (chain : BlockChain) (now : Int64) (order : MapOrder) (acceptedTx : MsgTx)
  | removeTransaction (tx : MsgTx) (removeRedeemers : Bool)
  | removeDoubleSpends (tx : MsgTx)
  | removeOrphan (tx : MsgTx)
  | removeOrphansByTag (order : MapOrder) (tag : UInt64)

def apply (c : Crypto) (policy : Policy F) (mp : TxPool F) : Op → TxPool F
  | .processTransaction chain now order tx allowOrphan rateLimit tag =>
    (mp.processTransaction c ⟨policy, chain, now, order⟩ tx allowOrphan rateLimit tag).1
  | .maybeAcceptTransaction chain now order tx isNew rateLimit =>
    (mp.maybeAcceptTransaction c ⟨policy, chain, now, order⟩ tx isNew rateLimit true).1
  | .processOrphans chain now order acceptedTx =>
    (mp.processOrphans c ⟨policy, chain, now, order⟩ acceptedTx).1
  | .removeTransaction tx removeRedeemers => mp.removeTransaction c tx removeRedeemers
  | .removeDoubleSpends tx => mp.removeDoubleSpends c tx
  | .removeOrphan tx => mp.removeOrphan c tx false
  | .removeOrphansByTag order tag => (mp.removeOrphansByTag c order tag).1

/-- `New`: an empty pool. -/
def new (nextExpireScan : Int64) : TxPool F :=
  ⟨∅, ∅, ∅, ∅, Float64.ofInt64 0, 0, nextExpireScan⟩

def run (c : Crypto) (policy : Policy F) (nextExpireScan : Int64) (ops : List Op) : TxPool F :=
  ops.foldl (apply c policy) (new nextExpireScan)

theorem changes_apply (mp : TxPool F) (op : Op) : Changes c policy mp (mp.apply c policy op) := by
  cases op with
  | processTransaction chain now order tx allowOrphan rateLimit tag =>
    exact changes_processTransaction ⟨policy, chain, now, order⟩ rfl
  | maybeAcceptTransaction chain now order tx isNew rateLimit =>
    exact changes_maybeAcceptTransaction _ mp tx isNew rateLimit true
  | processOrphans chain now order acceptedTx => exact changes_processOrphans _ mp acceptedTx
  | removeTransaction tx removeRedeemers => exact changes_removeTransaction mp tx removeRedeemers
  | removeDoubleSpends tx => exact changes_removeDoubleSpends mp tx
  | removeOrphan tx => exact changes_removeOrphan mp tx false
  | removeOrphansByTag order tag => exact changes_removeOrphansByTag order mp tag

theorem Changes.invariant {P : TxPool F → Prop}
    (hstep : ∀ mp mp', Change c policy mp mp' → P mp → P mp') {mp' : TxPool F}
    (h : Changes c policy mp mp') (hmp : P mp) : P mp' := by
  induction h with
  | refl => exact hmp
  | tail _ hchange ih => exact hstep _ _ hchange ih

theorem run_invariant {P : TxPool F → Prop} {nextExpireScan : Int64} (hnew : P (new nextExpireScan))
    (hstep : ∀ mp mp', Change c policy mp mp' → P mp → P mp') (ops : List Op) : P (run c policy nextExpireScan ops) :=
  (changes_foldl changes_apply ops (new nextExpireScan)).invariant hstep hnew

end TxPool

end Mempool

end Prova
