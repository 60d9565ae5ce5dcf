import Prova.Mempool.Outpoints
import Prova.Chaincfg.SampleBlocks
import Mathlib.Data.Finset.Card
import Mathlib.Logic.Relation

/-!
# Removing transactions with what depends on them

`removeTransaction` follows the map of outpoints from a transaction to those that redeem its outputs, and
takes a transaction out when all of these are gone.
-/

namespace Prova

namespace Mempool

namespace TxPool

open List
open Relation (TransGen ReflTransGen)

variable {F : Type} {c : Crypto} {mp mp₁ mp₂ : TxPool F} {tx a b : MsgTx} {prevOut : OutPoint}
  {roots roots₁ : MsgTx → Prop}

/-- A transaction of the main pool. -/
def Has (mp : TxPool F) (tx : MsgTx) : Prop := ∃ hash txD, mp.pool.lookup hash = some txD ∧ txD.tx = tx

def SpendsFrom (c : Crypto) (a b : MsgTx) : Prop := ∃ prevOut ∈ outPoints c a, prevOut ∈ b.prevOuts

def Redeems (c : Crypto) (mp : TxPool F) (a b : MsgTx) : Prop := mp.Has b ∧ SpendsFrom c a b

/-- No transaction of the pool depends on itself, as it would have to contain its own hash. -/
def Acyclic (c : Crypto) (mp : TxPool F) : Prop := ∀ tx, ¬ TransGen (Redeems c mp) tx tx

/-- What goes with a transaction: the transaction itself, and what spends its outputs. -/
def Follows (c : Crypto) (tx a : MsgTx) : Prop := a.txHash c = tx.txHash c ∨ SpendsFrom c tx a

/-- Transactions were taken out of a pool: the given ones, and what depends on those in the pool. What is
left does not spend from what is gone. -/
structure Pruned (c : Crypto) (roots : MsgTx → Prop) (mp mp₁ : TxPool F) : Prop where
  outpoints : OutpointsMatch c mp₁
  sub : ∀ b, mp₁.Has b → mp.Has b
  only : ∀ b, mp.Has b → ¬ mp₁.Has b → ∃ a, mp.Has a ∧ roots a ∧ ReflTransGen (Redeems c mp) a b
  closed : ∀ a b, mp.Has a → ¬ mp₁.Has a → mp₁.Has b → ¬ SpendsFrom c a b

theorem Pruned.refl (h : OutpointsMatch c mp) : Pruned c roots mp mp :=
  ⟨h, fun _ => id, fun _ hb hnot => absurd hb hnot, fun _ _ ha hnot => absurd ha hnot⟩

theorem Pruned.redeems_le (h : Pruned c roots mp mp₁) : Redeems c mp₁ ≤ Redeems c mp :=
  fun _ b hr => ⟨h.sub b hr.1, hr.2⟩

theorem Pruned.acyclic (h : Pruned c roots mp mp₁) (hacyclic : Acyclic c mp) : Acyclic c mp₁ :=
  fun tx hpath => hacyclic tx (TransGen.mono h.redeems_le _ _ hpath)

theorem Pruned.trans (h : Pruned c roots mp mp₁) (h₁ : Pruned c roots₁ mp₁ mp₂)
    (hroots : ∀ a, mp₁.Has a → roots₁ a → ∃ r, mp.Has r ∧ roots r ∧ ReflTransGen (Redeems c mp) r a) :
    Pruned c roots mp mp₂ := by
  refine ⟨h₁.outpoints, fun b hb => h.sub b (h₁.sub b hb), fun b hb hnot => ?_, fun a b ha hnot hb => ?_⟩
  · by_cases hmem : mp₁.Has b
    · obtain ⟨a, hhas, ha, hpath⟩ := h₁.only b hmem hnot
      obtain ⟨r, hhas, hr, hfrom⟩ := hroots a hhas ha
      exact ⟨r, hhas, hr, hfrom.trans (ReflTransGen.mono h.redeems_le _ _ hpath)⟩
    · exact h.only b hb hmem
  · by_cases hmem : mp₁.Has a
    · exact h₁.closed a b hmem hnot hb
    · exact h.closed a b ha hmem (h₁.sub b hb)

/-! ### The map and the pool -/

theorem OutpointsMatch.has_iff (h : OutpointsMatch c mp) :
    mp.Has tx ↔ ∃ txD, mp.pool.lookup (tx.txHash c) = some txD ∧ txD.tx = tx := by
  constructor
  · rintro ⟨hash, txD, hlookup, rfl⟩
    rw [h.keyed hash txD hlookup]
    exact ⟨txD, hlookup, rfl⟩
  · rintro ⟨txD, hlookup, htx⟩
    exact ⟨_, txD, hlookup, htx⟩

theorem OutpointsMatch.lookup_eq_some (h : OutpointsMatch c mp) :
    mp.outpoints.lookup prevOut = some tx ↔ mp.Has tx ∧ prevOut ∈ tx.prevOuts := by
  rw [h.has_iff]
  constructor
  · exact fun hlookup => (h.spender prevOut tx hlookup).symm
  · rintro ⟨⟨txD, hlookup, rfl⟩, hspends⟩
    exact h.spent _ txD hlookup prevOut hspends

theorem OutpointsMatch.eq_of_txHash (h : OutpointsMatch c mp) (ha : mp.Has a) (hb : mp.Has b)
    (heq : a.txHash c = b.txHash c) : a = b := by
  obtain ⟨txD, hlookup, rfl⟩ := h.has_iff.mp ha
  obtain ⟨txD', hlookup', rfl⟩ := h.has_iff.mp hb
  rw [heq, hlookup', Option.some.injEq] at hlookup
  rw [hlookup]

theorem OutpointsMatch.has_dropTransaction (h : OutpointsMatch c mp) (txHash : Hash) :
    (mp.dropTransaction txHash).Has b ↔ mp.Has b ∧ b.txHash c ≠ txHash := by
  rw [(h.drop txHash).has_iff, h.has_iff]
  unfold dropTransaction
  by_cases heq : b.txHash c = txHash
  · subst heq
    cases hlookup : mp.pool.lookup (b.txHash c) with
    | none => simp [hlookup]
    | some txD => simp [AList.lookup_erase]
  · cases hlookup : mp.pool.lookup txHash with
    | none => simp [heq]
    | some txD => simp [heq, AList.lookup_erase_ne heq]

/-! ### The two loops -/

/-- The loops of `removeTransaction` and `RemoveDoubleSpends`: the spender of an outpoint is removed unless it
is skipped. -/
def removeSpenders (skip : MsgTx → Prop) [DecidablePred skip] (remove : TxPool F → MsgTx → TxPool F) (mp : TxPool F)
    (prevOuts : List OutPoint) : TxPool F :=
  prevOuts.foldl
    (fun mp prevOut => match mp.outpoints.lookup prevOut with
      | none => mp
      | some txRedeemer => if skip txRedeemer then mp else remove mp txRedeemer) mp

/-- What is known of two ways to remove a transaction of the pool. -/
def RemovesBoth (c : Crypto) (more remove : TxPool F → MsgTx → TxPool F) (mp : TxPool F) (tx : MsgTx) : Prop :=
  more mp tx = remove mp tx ∧ Pruned c (Follows c tx) mp (remove mp tx) ∧ ∀ b, (remove mp tx).Has b → ¬ Follows c tx b

theorem removeSpenders_spec {skip : MsgTx → Prop} [DecidablePred skip] {more remove : TxPool F → MsgTx → TxPool F}
    {prevOuts : List OutPoint} (h : Pruned c roots mp mp₁)
    (hroots : ∀ prevOut ∈ prevOuts, ∀ r, mp.Has r → prevOut ∈ r.prevOuts → ¬ skip r → roots r)
    (hremove : ∀ mp₁ r, Pruned c roots mp mp₁ → mp₁.Has r → roots r → RemovesBoth c more remove mp₁ r) :
    removeSpenders skip more mp₁ prevOuts = removeSpenders skip remove mp₁ prevOuts ∧
      Pruned c roots mp (removeSpenders skip remove mp₁ prevOuts) ∧
      ∀ b, (removeSpenders skip remove mp₁ prevOuts).Has b →
        mp₁.Has b ∧ ∀ prevOut ∈ prevOuts, prevOut ∈ b.prevOuts → skip b := by
  induction prevOuts generalizing mp₁ with
  | nil => exact ⟨rfl, h, fun b hb => ⟨hb, fun _ hmem => absurd hmem not_mem_nil⟩⟩
  | cons prevOut prevOuts ih =>
    obtain ⟨mp₂, hmore, hstep, hpruned, hleft⟩ : ∃ mp₂,
        removeSpenders skip more mp₁ (prevOut :: prevOuts) = removeSpenders skip more mp₂ prevOuts ∧
        removeSpenders skip remove mp₁ (prevOut :: prevOuts) = removeSpenders skip remove mp₂ prevOuts ∧
        Pruned c roots mp mp₂ ∧ ∀ b, mp₂.Has b → mp₁.Has b ∧ (prevOut ∈ b.prevOuts → skip b) := by
      unfold removeSpenders
      rw [foldl_cons, foldl_cons]
      cases hlookup : mp₁.outpoints.lookup prevOut with
      | none =>
        refine ⟨mp₁, rfl, rfl, h, fun b hb => ⟨hb, fun hspends => ?_⟩⟩
        rw [h.outpoints.lookup_eq_some.mpr ⟨hb, hspends⟩] at hlookup
        cases hlookup
      | some txRedeemer =>
        obtain ⟨hhas, hspends⟩ := h.outpoints.lookup_eq_some.mp hlookup
        -- an outpoint has one spender in the pool
        have hspender : ∀ b, mp₁.Has b → prevOut ∈ b.prevOuts → b = txRedeemer := by
          intro b hb hb'
          rw [h.outpoints.lookup_eq_some.mpr ⟨hb, hb'⟩] at hlookup
          exact Option.some.inj hlookup
        by_cases hskip : skip txRedeemer
        · exact ⟨mp₁, by simp [hskip], by simp [hskip], h, fun b hb => ⟨hb, fun hb' => hspender b hb hb' ▸ hskip⟩⟩
        · have hroot : roots txRedeemer := hroots prevOut mem_cons_self _ (h.sub _ hhas) hspends hskip
          obtain ⟨hsame, hpruned, hgone⟩ := hremove mp₁ txRedeemer h hhas hroot
          refine ⟨remove mp₁ txRedeemer, by simp [hskip, hsame], by simp [hskip], ?_,
            fun b hb => ⟨hpruned.sub b hb, fun hb' => ?_⟩⟩
          · refine h.trans hpruned fun a ha hfollows => ⟨txRedeemer, h.sub _ hhas, hroot, ?_⟩
            rcases hfollows with heq | hfrom
            · rw [h.outpoints.eq_of_txHash ha hhas heq]
            · exact .single ⟨h.sub a ha, hfrom⟩
          · exact absurd (.inl (by rw [hspender b (hpruned.sub b hb) hb'])) (hgone b hb)
    obtain ⟨hrest, hprunedRest, hleftRest⟩ := ih hpruned fun o ho => hroots o (mem_cons_of_mem _ ho)
    rw [hmore, hstep]
    refine ⟨hrest, hprunedRest, fun b hb => ?_⟩
    obtain ⟨hb, hothers⟩ := hleftRest b hb
    exact ⟨(hleft b hb).1, forall_mem_cons.mpr ⟨(hleft b hb).2, hothers⟩⟩

/-! ### How deep it goes -/

open Classical in
/-- What depends on a transaction in the pool. -/
noncomputable def dependents (c : Crypto) (mp : TxPool F) (tx : MsgTx) : Finset MsgTx :=
  (mp.pool.entries.map (·.2.tx)).toFinset.filter fun b => TransGen (Redeems c mp) tx b

theorem mem_dependents : b ∈ dependents c mp tx ↔ TransGen (Redeems c mp) tx b := by
  classical
  unfold dependents
  rw [Finset.mem_filter, mem_toFinset, and_iff_right_iff_imp]
  intro hpath
  obtain ⟨-, -, ⟨hash, txD, hlookup, htx⟩, -⟩ := TransGen.tail'_iff.mp hpath
  exact mem_map.mpr ⟨⟨hash, txD⟩, AList.mem_lookup_iff.mp hlookup, htx⟩

theorem card_dependents_le : (dependents c mp tx).card ≤ mp.pool.entries.length := by
  classical
  unfold dependents
  refine (Finset.card_filter_le _ _).trans ((toFinset_card_le _).trans ?_)
  rw [length_map]

theorem Pruned.card_dependents_lt (h : Pruned c roots mp mp₁) (hacyclic : Acyclic c mp) (hr : Redeems c mp tx b) :
    (dependents c mp₁ b).card < (dependents c mp tx).card := by
  refine Finset.card_lt_card (Finset.ssubset_iff_of_subset ?_ |>.mpr ⟨b, mem_dependents.mpr (.single hr), ?_⟩)
  · exact fun x hx => mem_dependents.mpr (.head hr (TransGen.mono h.redeems_le _ _ (mem_dependents.mp hx)))
  · exact fun hb => h.acyclic hacyclic b (mem_dependents.mp hb)

theorem removeTransactionTo_succ (depth : Nat) : removeTransactionTo c (depth + 1) true mp tx =
    (removeSpenders (fun _ => False) (removeTransactionTo c depth true) mp (outPoints c tx)).dropTransaction
      (tx.txHash c) := rfl

theorem removeTransactionTo_spec {depth : Nat} (h : OutpointsMatch c mp) (hacyclic : Acyclic c mp)
    (hdepth : (dependents c mp tx).card < depth)
    (hsame : ∀ a, mp.Has a → a.txHash c = tx.txHash c → a.txOut.length = tx.txOut.length) (more : Nat) :
    RemovesBoth c (removeTransactionTo c (depth + more) true) (removeTransactionTo c depth true) mp tx := by
  induction depth generalizing mp tx with
  | zero => exact absurd hdepth (Nat.not_lt_zero _)
  | succ depth ih =>
    have hremove : ∀ mp₁ r, Pruned c (SpendsFrom c tx) mp mp₁ → mp₁.Has r → SpendsFrom c tx r →
        RemovesBoth c (removeTransactionTo c (depth + more) true) (removeTransactionTo c depth true) mp₁ r := by
      intro mp₁ r hmp₁ hhas hfrom
      have hless := hmp₁.card_dependents_lt hacyclic ⟨hmp₁.sub r hhas, hfrom⟩
      refine ih hmp₁.outpoints (hmp₁.acyclic hacyclic) (by omega) fun a ha heq => ?_
      rw [hmp₁.outpoints.eq_of_txHash ha hhas heq]
    obtain ⟨hmore, hpruned, hleft⟩ := removeSpenders_spec (Pruned.refl h)
      (fun prevOut hprev r _ hspends (_ : ¬ False) => ⟨prevOut, hprev, hspends⟩) hremove
    have hspent : ∀ a b, mp.Has a → a.txHash c = tx.txHash c →
        (removeSpenders (fun _ => False) (removeTransactionTo c depth true) mp (outPoints c tx)).Has b →
          ¬ SpendsFrom c a b := by
      rintro a b ha heq hb ⟨prevOut, hprev, hspends⟩
      rw [outPoints, heq, hsame a ha heq] at hprev
      exact (hleft b hb).2 prevOut hprev hspends
    have hhas := fun b => hpruned.outpoints.has_dropTransaction (b := b) (tx.txHash c)
    unfold RemovesBoth
    rw [Nat.add_right_comm, removeTransactionTo_succ, removeTransactionTo_succ, hmore]
    refine ⟨rfl, ?_, fun b hb => ?_⟩
    · have hfollows := (Pruned.refl h).trans hpruned fun a ha hfrom => ⟨a, ha, (.inr hfrom : Follows c tx a), .refl⟩
      refine hfollows.trans ⟨hpruned.outpoints.drop _, fun b hb => ((hhas b).mp hb).1, fun b hb hnot => ?_,
        fun a b ha hnot hb => ?_⟩ fun a hhas ha => ⟨a, hpruned.sub a hhas, ha, .refl⟩
      · exact ⟨b, hb, .inl (not_not.mp fun hne => hnot ((hhas b).mpr ⟨hb, hne⟩)), .refl⟩
      · exact hspent a b (hpruned.sub a ha) (not_not.mp fun hne => hnot ((hhas a).mpr ⟨ha, hne⟩)) ((hhas b).mp hb).1
    · obtain ⟨hb, hne⟩ := (hhas b).mp hb
      exact not_or.mpr ⟨hne, fun ⟨prevOut, hprev, hspends⟩ => (hleft b hb).2 prevOut hprev hspends⟩

theorem removeTransaction_spec (h : OutpointsMatch c mp) (hacyclic : Acyclic c mp)
    (hsame : ∀ a, mp.Has a → a.txHash c = tx.txHash c → a.txOut.length = tx.txOut.length) {depth : TxPool F → Nat}
    (hdepth : ∀ mp, mp.pool.entries.length < depth mp) :
    RemovesBoth c (fun mp => removeTransactionTo c (depth mp) true mp) (fun mp tx => mp.removeTransaction c tx true)
      mp tx := by
  obtain ⟨more, hmore⟩ := Nat.exists_eq_add_of_le (Nat.succ_le_of_lt (hdepth mp))
  have hspec := removeTransactionTo_spec h hacyclic (Nat.lt_succ_of_le card_dependents_le) hsame more
  rw [Nat.succ_eq_add_one, ← hmore] at hspec
  exact hspec

/-- A transaction that spends what `tx` spends, and is not `tx`. -/
def Conflicts (c : Crypto) (tx a : MsgTx) : Prop :=
  (∃ prevOut ∈ tx.prevOuts, prevOut ∈ a.prevOuts) ∧ a.txHash c ≠ tx.txHash c

/-- On a pool whose map of outpoints is right, `RemoveTransaction` takes out the transaction and what spends its
outputs, `RemoveDoubleSpends` takes out what conflicts, both with everything that depends on it and nothing else,
and what is left does not spend from what is gone. Both end: no call goes deeper than the pool has
transactions. -/
theorem removal_exact (h : OutpointsMatch c mp) (hacyclic : Acyclic c mp)
    (hsame : ∀ a, mp.Has a → a.txHash c = tx.txHash c → a.txOut.length = tx.txOut.length)
    {depth : TxPool F → Nat} (hdepth : ∀ mp, mp.pool.entries.length < depth mp) :
    (removeTransactionTo c (depth mp) true mp tx = mp.removeTransaction c tx true ∧
      Pruned c (Follows c tx) mp (mp.removeTransaction c tx true) ∧
      ∀ b, (mp.removeTransaction c tx true).Has b → ¬ Follows c tx b) ∧
    (removeSpenders (fun r => r.txHash c = tx.txHash c) (fun mp => removeTransactionTo c (depth mp) true mp) mp
        tx.prevOuts = mp.removeDoubleSpends c tx ∧ Pruned c (Conflicts c tx) mp (mp.removeDoubleSpends c tx) ∧
      ∀ b, (mp.removeDoubleSpends c tx).Has b → ¬ Conflicts c tx b) := by
  refine ⟨removeTransaction_spec h hacyclic hsame hdepth, ?_⟩
  have hremove : ∀ mp₁ r, Pruned c (Conflicts c tx) mp mp₁ → mp₁.Has r → Conflicts c tx r →
      RemovesBoth c (fun mp => removeTransactionTo c (depth mp) true mp) (fun mp tx => mp.removeTransaction c tx true)
        mp₁ r := by
    intro mp₁ r hmp₁ hhas _
    refine removeTransaction_spec hmp₁.outpoints (hmp₁.acyclic hacyclic) (fun a ha heq => ?_) hdepth
    rw [hmp₁.outpoints.eq_of_txHash ha hhas heq]
  obtain ⟨hsame, hpruned, hleft⟩ := removeSpenders_spec (Pruned.refl h)
    (fun prevOut hprev r _ hspends (hskip : ¬ r.txHash c = tx.txHash c) => ⟨⟨prevOut, hprev, hspends⟩, hskip⟩) hremove
  exact ⟨hsame, hpruned, fun b hb ⟨⟨prevOut, hprev, hspends⟩, hne⟩ => hne ((hleft b hb).2 prevOut hprev hspends)⟩

namespace RemovalSample

open Sample

/-- A pool with `issueTx`, and with `spendTx`, which spends from it. -/
def pool : TxPool Unit where
  pool := ⟨[⟨issueTx.txHash crypto, ⟨issueTx, 0, 1, 0, 0⟩, ()⟩, ⟨spendTx.txHash crypto, ⟨spendTx, 0, 1, 0, 0⟩, ()⟩],
    by unfold List.NodupKeys; decide +kernel⟩
  orphans := ∅
  orphansByPrev := ∅
  outpoints := ⟨[⟨⟨0x0f9116ac9980fc6bdcf7875457c203e86ef17ac5f593ca7fecc6c462fa52e7a5, 2⟩, issueTx⟩,
    ⟨⟨issueTx.txHash crypto, 1⟩, spendTx⟩], by unfold List.NodupKeys; decide +kernel⟩
  pennyTotal := ()
  lastPennyUnix := 0
  nextExpireScan := 0

theorem pool_facts : (∀ e ∈ pool.pool.entries, e.2.tx.txHash crypto = e.1 ∧
      ∀ prevOut ∈ e.2.tx.prevOuts, pool.outpoints.lookup prevOut = some e.2.tx) ∧
    (∀ e ∈ pool.outpoints.entries, e.1 ∈ e.2.prevOuts ∧
      (pool.pool.lookup (e.2.txHash crypto)).map (·.tx) = some e.2) ∧
    (∀ a ∈ [issueTx, spendTx], ∀ b ∈ [issueTx, spendTx],
      (∃ prevOut ∈ outPoints crypto a, prevOut ∈ b.prevOuts) → a = issueTx ∧ b = spendTx) ∧
    (∀ a ∈ [issueTx, spendTx], a.txHash crypto = issueTx.txHash crypto → a.txOut.length = issueTx.txOut.length) ∧
    ∃ prevOut ∈ outPoints crypto issueTx, prevOut ∈ spendTx.prevOuts := by
  decide +kernel

theorem outpointsMatch : OutpointsMatch crypto pool := by
  obtain ⟨hpool, hout, -⟩ := pool_facts
  refine ⟨fun hash txD h => ?_, fun hash txD h => ?_, fun prevOut tx h => ?_⟩
  · exact (hpool ⟨hash, txD⟩ (AList.mem_lookup_iff.mp h)).1
  · exact (hpool ⟨hash, txD⟩ (AList.mem_lookup_iff.mp h)).2
  · obtain ⟨hspends, htx⟩ := hout ⟨prevOut, tx⟩ (AList.mem_lookup_iff.mp h)
    exact ⟨hspends, Option.map_eq_some_iff.mp htx⟩

theorem mem_of_has (h : pool.Has a) : a ∈ [issueTx, spendTx] := by
  have hall : ∀ e ∈ pool.pool.entries, e.2.tx ∈ [issueTx, spendTx] := by simp [pool]
  obtain ⟨hash, txD, hlookup, rfl⟩ := h
  exact hall ⟨hash, txD⟩ (AList.mem_lookup_iff.mp hlookup)

theorem acyclic : Acyclic crypto pool := by
  obtain ⟨-, -, hall, -⟩ := pool_facts
  have hpair : ∀ a b, TransGen (Redeems crypto pool) a b → a ∈ [issueTx, spendTx] → a = issueTx ∧ b = spendTx := by
    intro a b hpath ha
    induction hpath with
    | single hr => exact hall a ha _ (mem_of_has hr.1) hr.2
    | tail _ hr ih =>
      refine absurd (hall _ ?_ _ (mem_of_has hr.1) hr.2).1 ?_
      · simp [ih.2]
      · rw [ih.2]
        decide
  intro tx hpath
  obtain ⟨_, _, hr⟩ := TransGen.tail'_iff.mp hpath
  obtain ⟨hissue, hspend⟩ := hpair tx tx hpath (mem_of_has hr.1)
  exact absurd (hissue.symm.trans hspend) (by decide)

theorem spendTx_removed : ¬ (pool.removeTransaction crypto issueTx true).Has spendTx := by
  obtain ⟨-, -, -, hsame, hspends⟩ := pool_facts
  have hexact := @removal_exact _ crypto pool issueTx outpointsMatch acyclic (fun a ha => hsame a (mem_of_has ha))
    (fun mp => mp.pool.entries.length + 1) fun _ => Nat.lt_succ_self _
  exact fun hhas => hexact.1.2.2 spendTx hhas (.inr hspends)

end RemovalSample

end TxPool

end Mempool

end Prova
