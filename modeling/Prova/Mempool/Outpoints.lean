import Prova.Lib.AssocFold
import Prova.Mempool.Accept
import Prova.Mempool.Changes

/-!
# The outpoints of the main pool

The pool keeps for every output that one of its transactions spends who spends it. The map and the
pool are changed together, by the transactions that come and go.
-/

namespace Prova

namespace Mempool

namespace TxPool

open AList

variable {F : Type}

/-- The map of outpoints is what the transactions of the pool say. -/
structure OutpointsMatch (c : Crypto) (mp : TxPool F) : Prop where
  keyed : ∀ hash txD, mp.pool.lookup hash = some txD → txD.tx.txHash c = hash
  spent : ∀ hash txD, mp.pool.lookup hash = some txD → ∀ prevOut ∈ txD.tx.prevOuts,
    mp.outpoints.lookup prevOut = some txD.tx
  spender : ∀ prevOut tx, mp.outpoints.lookup prevOut = some tx → prevOut ∈ tx.prevOuts ∧
    ∃ txD, mp.pool.lookup (tx.txHash c) = some txD ∧ txD.tx = tx

variable {c : Crypto}

theorem OutpointsMatch.congr {mp mp' : TxPool F} (h : OutpointsMatch c mp)
    (hpool : mp'.pool = mp.pool) (hout : mp'.outpoints = mp.outpoints) : OutpointsMatch c mp' := by
  constructor
  · rw [hpool]
    exact h.keyed
  · rw [hpool, hout]
    exact h.spent
  · rw [hpool, hout]
    exact h.spender

theorem OutpointsMatch.drop {mp : TxPool F} (h : OutpointsMatch c mp) (txHash : Hash) :
    OutpointsMatch c (mp.dropTransaction txHash) := by
  unfold dropTransaction
  cases hlookup : mp.pool.lookup txHash with
  | none => exact h
  | some txDesc =>
    have hpool : ∀ {hash txD}, (mp.pool.erase txHash).lookup hash = some txD →
        hash ≠ txHash ∧ mp.pool.lookup hash = some txD := by
      intro hash txD hmem
      by_cases hne : hash = txHash
      · rw [hne, lookup_erase] at hmem
        cases hmem
      · rw [lookup_erase_ne hne] at hmem
        exact ⟨hne, hmem⟩
    constructor
    · exact fun hash txD hmem => h.keyed hash txD (hpool hmem).2
    · intro hash txD hmem prevOut hprev
      obtain ⟨hne, hmem⟩ := hpool hmem
      have hspent := h.spent hash txD hmem prevOut hprev
      dsimp only
      rw [lookup_foldl_erase, if_neg, hspent]
      -- what both spend is spent by one of them only
      intro hboth
      have hsame := h.spent txHash txDesc hlookup prevOut hboth
      rw [hspent, Option.some.injEq] at hsame
      apply hne
      rw [← h.keyed hash txD hmem, ← h.keyed txHash txDesc hlookup, hsame]
    · intro prevOut tx hmem
      dsimp only at hmem
      rw [lookup_foldl_erase] at hmem
      split_ifs at hmem with hprev
      obtain ⟨hspends, txD, hlookup', rfl⟩ := h.spender prevOut tx hmem
      refine ⟨hspends, txD, ?_, rfl⟩
      have hne : txD.tx.txHash c ≠ txHash := by
        intro heq
        rw [heq, hlookup] at hlookup'
        cases hlookup'
        exact hprev hspends
      dsimp only
      rw [lookup_erase_ne hne, hlookup']

variable [Float64 F]

theorem OutpointsMatch.add {mp : TxPool F} (h : OutpointsMatch c mp) {cfg : Config F}
    {utxoView : UtxoViewpoint} {tx : MsgTx} {height : UInt32} {fee : Int64} (hnew : mp.pool.lookup (tx.txHash c) = none)
    (hunspent : ∀ prevOut ∈ tx.prevOuts, mp.outpoints.lookup prevOut = none) :
    OutpointsMatch c (mp.addTransaction c cfg utxoView tx height fee).1 := by
  unfold addTransaction
  constructor
  · intro hash txD hmem
    dsimp only at hmem
    by_cases hhash : hash = tx.txHash c
    · rw [hhash, lookup_insert] at hmem
      cases hmem
      exact hhash.symm
    · rw [lookup_insert_ne hhash] at hmem
      exact h.keyed hash txD hmem
  · intro hash txD hmem prevOut hprev
    dsimp only at hmem ⊢
    rw [lookup_foldl_insert]
    by_cases hhash : hash = tx.txHash c
    · rw [hhash, lookup_insert] at hmem
      cases hmem
      exact if_pos hprev
    · rw [lookup_insert_ne hhash] at hmem
      have hspent := h.spent hash txD hmem prevOut hprev
      rw [if_neg, hspent]
      intro hboth
      rw [hunspent prevOut hboth] at hspent
      cases hspent
  · intro prevOut tx' hmem
    dsimp only at hmem ⊢
    rw [lookup_foldl_insert] at hmem
    split_ifs at hmem with hprev
    · cases hmem
      exact ⟨hprev, _, lookup_insert _, rfl⟩
    · obtain ⟨hspends, txD, hlookup, htx⟩ := h.spender prevOut tx' hmem
      refine ⟨hspends, txD, ?_, htx⟩
      have hne : tx'.txHash c ≠ tx.txHash c := by
        intro heq
        rw [heq, hnew] at hlookup
        cases hlookup
      rw [lookup_insert_ne hne, hlookup]

theorem OutpointsMatch.change {policy : Policy F} {mp mp' : TxPool F}
    (hchange : Change c policy mp mp') (h : OutpointsMatch c mp) : OutpointsMatch c mp' := by
  cases hchange with
  | counters hpool hout _ _ => exact h.congr hpool hout
  | add cfg utxoView tx height fee hnew hunspent => exact h.add hnew hunspent
  | drop txHash => exact h.drop txHash
  | addOrphan cfg tx tag _ _ =>
    exact h.congr (apart_pool.addOrphan cfg mp tx tag) (apart_outpoints.addOrphan cfg mp tx tag)
  | removeOrphan tx removeRedeemers =>
    exact h.congr (apart_pool.removeOrphan mp tx removeRedeemers)
      (apart_outpoints.removeOrphan mp tx removeRedeemers)

theorem outpointsMatch_new (nextExpireScan : Int64) : OutpointsMatch c (new nextExpireScan : TxPool F) := by
  constructor
  · intro hash txD hmem
    cases hmem
  · intro hash txD hmem
    cases hmem
  · intro prevOut tx hmem
    cases hmem

/-- After every run of operations the map has exactly the outputs that transactions of the pool spend,
each with its spender, and so no two transactions of the pool spend the same output. -/
theorem outpoints_run (c : Crypto) (policy : Policy F) (nextExpireScan : Int64) (ops : List Op) :
    (∀ prevOut tx, (run c policy nextExpireScan ops).outpoints.lookup prevOut = some tx ↔ prevOut ∈ tx.prevOuts ∧
        ∃ hash txD, (run c policy nextExpireScan ops).pool.lookup hash = some txD ∧ txD.tx = tx) ∧
    ∀ hash₁ hash₂ txD₁ txD₂ prevOut, (run c policy nextExpireScan ops).pool.lookup hash₁ = some txD₁ →
      (run c policy nextExpireScan ops).pool.lookup hash₂ = some txD₂ →
      prevOut ∈ txD₁.tx.prevOuts → prevOut ∈ txD₂.tx.prevOuts → hash₁ = hash₂ := by
  have h : OutpointsMatch c (run c policy nextExpireScan ops) :=
    run_invariant (outpointsMatch_new nextExpireScan) (fun _ _ => .change) ops
  refine ⟨fun prevOut tx => ⟨fun hmem => ?_, ?_⟩, ?_⟩
  · obtain ⟨hspends, txD, hlookup, htx⟩ := h.spender prevOut tx hmem
    exact ⟨hspends, _, txD, hlookup, htx⟩
  · rintro ⟨hspends, hash, txD, hlookup, rfl⟩
    exact h.spent hash txD hlookup prevOut hspends
  · intro hash₁ hash₂ txD₁ txD₂ prevOut h₁ h₂ hprev₁ hprev₂
    have hsame : some txD₁.tx = some txD₂.tx :=
      (h.spent hash₁ txD₁ h₁ prevOut hprev₁).symm.trans (h.spent hash₂ txD₂ h₂ prevOut hprev₂)
    rw [← h.keyed hash₁ txD₁ h₁, ← h.keyed hash₂ txD₂ h₂, Option.some.inj hsame]

end TxPool

end Mempool

end Prova
