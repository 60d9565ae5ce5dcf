import Prova.Blockchain.UtxoViewpoint
import Prova.Lib.Ledger

/-!
# Coins

The utxo entries of the database and of a view, seen as a ledger of coins: an outpoint holds a coin as
long as its output is unspent. Whether an entry is nil or has only spent outputs, whether spent outputs
are kept in it, and how it is stored makes no difference here.
-/

namespace Prova

open AList List

structure Coin where
  value : Int64
  pkScript : Bytes
deriving DecidableEq

def UtxoOutput.coin (output : UtxoOutput) : Option Coin :=
  if output.spent then none else some ⟨output.amount, output.pkScript⟩

/-! ### Entries -/

namespace UtxoEntry

def coinAt (entry : UtxoEntry) (i : UInt32) : Option Coin :=
  (entry.sparseOutputs.lookup i).bind UtxoOutput.coin

theorem coinAt_of_not_spent {entry : UtxoEntry} {i : UInt32} (h : entry.isOutputSpent i = false) :
    entry.coinAt i = some ⟨entry.amountByIndex i, (entry.pkScriptByIndex i).getD []⟩ := by
  unfold isOutputSpent at h
  unfold coinAt amountByIndex pkScriptByIndex UtxoOutput.coin
  cases hlookup : entry.sparseOutputs.lookup i with
  | none => simp [hlookup] at h
  | some output =>
    rw [hlookup] at h
    simp [h]

theorem coinAt_spendOutput (entry : UtxoEntry) (i j : UInt32) :
    (entry.spendOutput i).coinAt j = if j = i then none else entry.coinAt j := by
  unfold spendOutput
  cases hlookup : entry.sparseOutputs.lookup i with
  | none =>
    by_cases hj : j = i
    · subst hj
      simp [coinAt, hlookup]
    · simp [hj]
  | some output =>
    by_cases hspent : output.spent = true
    · by_cases hj : j = i
      · subst hj
        simp [hspent, coinAt, hlookup, UtxoOutput.coin]
      · simp [hj, hspent]
    · simp only
      rw [if_neg hspent]
      unfold coinAt
      by_cases hj : j = i
      · rw [if_pos hj, hj, lookup_insert]
        rfl
      · rw [if_neg hj, lookup_insert_ne hj]

theorem isFullySpent_iff {entry : UtxoEntry} : entry.isFullySpent = true ↔ ∀ i, entry.coinAt i = none := by
  unfold isFullySpent coinAt
  rw [all_eq_true]
  constructor
  · intro h i
    cases hlookup : entry.sparseOutputs.lookup i with
    | none => rfl
    | some output =>
      have hspent : output.spent = true := h ⟨i, output⟩ (mem_lookup_iff.mp hlookup)
      simp [UtxoOutput.coin, hspent]
  · rintro h ⟨i, output⟩ hmem
    have hnone := h i
    rw [mem_lookup_iff.mpr hmem] at hnone
    unfold UtxoOutput.coin at hnone
    cases hspent : output.spent with
    | true => rfl
    | false => simp [hspent] at hnone

theorem lookup_stored (entry : UtxoEntry) (i : UInt32) :
    entry.stored.sparseOutputs.lookup i = (entry.sparseOutputs.lookup i).filter fun o => !o.spent := by
  ext output
  have hmem : (⟨i, output⟩ : Σ _ : UInt32, UtxoOutput) ∈ entry.stored.sparseOutputs.entries ↔
      ⟨i, output⟩ ∈ entry.sparseOutputs.entries ∧ output.spent = false := by
    change _ ∈ entry.sparseOutputs.entries.filter _ ↔ _
    rw [mem_filter]
    simp
  rw [← Option.mem_def, mem_lookup_iff, hmem, ← mem_lookup_iff, Option.filter_eq_some_iff]
  simp

theorem coinAt_stored (entry : UtxoEntry) (i : UInt32) : entry.stored.coinAt i = entry.coinAt i := by
  unfold coinAt
  rw [lookup_stored]
  cases entry.sparseOutputs.lookup i with
  | none => rfl
  | some output => cases hspent : output.spent <;> simp [Option.filter, UtxoOutput.coin, hspent]

end UtxoEntry

/-! ### New coins -/

/-- The coins of outputs of a transaction from an index on; an unspendable output gives none. -/
def coinsFrom (hash : Hash) : Nat → List TxOut → List (OutPoint × Coin)
  | _, [] => []
  | i, out :: outs =>
    if isUnspendable out.pkScript then coinsFrom hash (i + 1) outs
    else (⟨hash, UInt32.ofNat i⟩, ⟨out.value, out.pkScript⟩) :: coinsFrom hash (i + 1) outs

def newCoins (c : Crypto) (tx : MsgTx) : List (OutPoint × Coin) :=
  coinsFrom (tx.txHash c) 0 tx.txOut

theorem mem_coinsFrom {hash : Hash} {i : Nat} {outs : List TxOut} {p : OutPoint × Coin} :
    p ∈ coinsFrom hash i outs ↔ ∃ j out, outs[j]? = some out ∧ isUnspendable out.pkScript = false ∧
      p = (⟨hash, UInt32.ofNat (i + j)⟩, ⟨out.value, out.pkScript⟩) := by
  induction outs generalizing i with
  | nil => simp [coinsFrom]
  | cons out outs ih =>
    have hrest : p ∈ coinsFrom hash (i + 1) outs ↔ ∃ j out', outs[j]? = some out' ∧
        isUnspendable out'.pkScript = false ∧
        p = (⟨hash, UInt32.ofNat (i + (j + 1))⟩, ⟨out'.value, out'.pkScript⟩) := by
      rw [ih]
      simp only [Nat.add_assoc, Nat.add_comm 1]
    unfold coinsFrom
    cases hun : isUnspendable out.pkScript with
    | true =>
      rw [if_pos rfl, hrest]
      constructor
      · rintro ⟨j, out', hout, h⟩
        exact ⟨j + 1, out', hout, h⟩
      · rintro ⟨j, out', hout, hsp, h⟩
        cases j with
        | zero =>
          cases hout
          rw [hun] at hsp
          cases hsp
        | succ j => exact ⟨j, out', hout, hsp, h⟩
    | false =>
      simp only [Bool.false_eq_true, if_false]
      rw [mem_cons, hrest]
      constructor
      · rintro (rfl | ⟨j, out', hout, h⟩)
        · exact ⟨0, out, rfl, hun, rfl⟩
        · exact ⟨j + 1, out', hout, h⟩
      · rintro ⟨j, out', hout, hsp, h⟩
        cases j with
        | zero =>
          cases hout
          exact .inl h
        | succ j => exact .inr ⟨j, out', hout, hsp, h⟩

theorem hash_of_mem_newCoins {c : Crypto} {tx : MsgTx} {p : OutPoint × Coin}
    (h : p ∈ newCoins c tx) : p.1.hash = tx.txHash c := by
  obtain ⟨j, out, -, -, rfl⟩ := mem_coinsFrom.mp h
  rfl

theorem nodup_coinsFrom {hash : Hash} {i : Nat} {outs : List TxOut} (h : i + outs.length ≤ 2 ^ 32) :
    ((coinsFrom hash i outs).map Prod.fst).Nodup := by
  induction outs generalizing i with
  | nil => exact nodup_nil
  | cons out outs ih =>
    rw [length_cons] at h
    have hrest := ih (i := i + 1) (by omega)
    unfold coinsFrom
    split_ifs with hun
    · exact hrest
    · rw [map_cons, nodup_cons]
      refine ⟨fun hmem => ?_, hrest⟩
      obtain ⟨p, hp, heq⟩ := mem_map.mp hmem
      obtain ⟨j, out', hout, -, rfl⟩ := mem_coinsFrom.mp hp
      have hj : j < outs.length := (List.getElem?_eq_some_iff.mp hout).1
      have hindex : UInt32.ofNat (i + 1 + j) = UInt32.ofNat i := congrArg OutPoint.index heq
      have hnat := congrArg UInt32.toNat hindex
      rw [UInt32.toNat_ofNat', UInt32.toNat_ofNat', Nat.mod_eq_of_lt (by omega), Nat.mod_eq_of_lt (by omega)] at hnat
      omega

theorem lookup_addOutputs {i : Nat} {outs : List TxOut} {m : AList fun _ : UInt32 => UtxoOutput}
    {j : UInt32} {output : UtxoOutput} (h : (UtxoViewpoint.addOutputs i outs m).lookup j = some output) :
    (∃ k out, outs[k]? = some out ∧ UInt32.ofNat (i + k) = j ∧ output.pkScript = out.pkScript) ∨
      m.lookup j = some output := by
  induction outs generalizing i m with
  | nil => exact .inr h
  | cons out outs ih =>
    unfold UtxoViewpoint.addOutputs at h
    rcases ih h with ⟨k, out', hout, hj, hscript⟩ | hm
    · refine .inl ⟨k + 1, out', hout, ?_, hscript⟩
      rw [← hj]
      congr 1
      omega
    · split_ifs at hm
      · exact .inr hm
      · by_cases heq : j = UInt32.ofNat i
        · rw [heq, lookup_insert] at hm
          cases hm
          exact .inl ⟨0, out, rfl, heq.symm, rfl⟩
        · rw [lookup_insert_ne heq] at hm
          exact .inr hm

theorem coin_addOutputs (hash : Hash) (i : Nat) (outs : List TxOut)
    (m : AList fun _ : UInt32 => UtxoOutput) (j : UInt32) :
    ((UtxoViewpoint.addOutputs i outs m).lookup j).bind UtxoOutput.coin =
      (Ledger.itemOf (coinsFrom hash i outs) ⟨hash, j⟩).or ((m.lookup j).bind UtxoOutput.coin) := by
  induction outs generalizing i m with
  | nil => rfl
  | cons out outs ih =>
    unfold UtxoViewpoint.addOutputs coinsFrom
    rw [ih]
    split
    · rfl
    · unfold Ledger.itemOf
      rw [lastWrite_cons, Option.or_assoc]
      congr 1
      by_cases hj : j = UInt32.ofNat i
      · rw [hj, lookup_insert]
        simp [Ledger.itemAt, UtxoOutput.coin]
      · rw [lookup_insert_ne hj]
        have hne : (⟨hash, UInt32.ofNat i⟩ : OutPoint) ≠ ⟨hash, j⟩ := by
          intro heq
          cases heq
          exact hj rfl
        simp [Ledger.itemAt, hne]

end Prova
