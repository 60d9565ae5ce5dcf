import Prova.Blockchain.LedgerSteps

/-!
# The entries of a view along a block

Which entries of a view loading and connecting a block can touch. A transaction changes the entries it
spends from and its own one, and reads nothing else, so views that look up the same entries are led to
the same entries and the same journal. Loading brings in the entries that inputs name: those of the
database, and in advance those of transactions earlier in the block.
-/

namespace Prova

open List

variable {hash : Hash} {txs : List MsgTx} {stxos : List SpentTxOut} {txIns : List TxIn}
  {block : MsgBlock} {tx : MsgTx} {height : UInt32} {v v' view w : UtxoViewpoint}

variable {c : Crypto}

/-! ### Positions in a block -/

theorem noForwardRefs_iff :
    NoForwardRefs c txs ↔ ∀ (i j : Nat) (tx tx' : MsgTx), txs[i]? = some tx → txs[j]? = some tx' →
      i ≤ j → ∀ o ∈ spends tx, o.hash ≠ tx'.txHash c := by
  unfold NoForwardRefs
  rw [pairwise_iff_getElem]
  constructor
  · rintro ⟨hown, hlater⟩ i j tx tx' htx htx' hle o ho
    obtain ⟨hi, rfl⟩ := List.getElem?_eq_some_iff.mp htx
    obtain ⟨hj, rfl⟩ := List.getElem?_eq_some_iff.mp htx'
    rcases Nat.lt_or_eq_of_le hle with hlt | rfl
    · exact hlater i j hi hj hlt o ho
    · exact hown _ (getElem_mem hi) o ho
  · intro h
    refine ⟨fun tx htx => ?_, fun i j hi hj hlt => ?_⟩
    · obtain ⟨i, hi⟩ := mem_iff_getElem?.mp htx
      exact h i i tx tx hi hi le_rfl
    · exact h i j _ _ (getElem?_eq_getElem hi) (getElem?_eq_getElem hj) hlt.le

theorem position_unique (hnodup : (txs.map (·.txHash c)).Nodup) {i j : Nat} {tx' : MsgTx}
    (htx : txs[i]? = some tx) (htx' : txs[j]? = some tx') (heq : tx.txHash c = tx'.txHash c) : i = j := by
  refine (getElem?_inj ?_ hnodup).mp ?_
  · rw [length_map]
    exact (List.getElem?_eq_some_iff.mp htx).1
  · rw [getElem?_map, getElem?_map, htx, htx', Option.map_some, Option.map_some, heq]

/-- The inputs of a block as `fetchInputUtxos` walks them, each with the position of its transaction
among those after the coinbase. -/
def blockInputs (block : MsgBlock) : List (Nat × TxIn) :=
  (block.transactions.drop 1).zipIdx.flatMap fun p => p.1.txIn.map fun txIn => (p.2, txIn)

theorem mem_blockInputs {q : Nat × TxIn} :
    q ∈ blockInputs block ↔ ∃ tx, block.transactions[q.1 + 1]? = some tx ∧ q.2 ∈ tx.txIn := by
  unfold blockInputs
  rw [mem_flatMap]
  constructor
  · rintro ⟨⟨tx, i⟩, hp, hq⟩
    obtain ⟨txIn, htxIn, rfl⟩ := mem_map.mp hq
    rw [mem_zipIdx_iff_getElem?, getElem?_drop, Nat.add_comm] at hp
    exact ⟨tx, hp, htxIn⟩
  · rintro ⟨tx, htx, hq⟩
    refine ⟨(tx, q.1), ?_, mem_map.mpr ⟨q.2, hq, rfl⟩⟩
    rw [mem_zipIdx_iff_getElem?, getElem?_drop, Nat.add_comm]
    exact htx

theorem txInFlight_some {p : MsgTx × Nat} (h : UtxoViewpoint.txInFlight c txs hash = some p) :
    txs[p.2]? = some p.1 ∧ p.1.txHash c = hash := by
  unfold UtxoViewpoint.txInFlight at h
  have hmem := mem_of_find?_eq_some h
  have hhash := find?_some h
  rw [mem_reverse, mem_zipIdx_iff_getElem?] at hmem
  exact ⟨hmem, beq_iff_eq.mp hhash⟩

theorem txInFlight_none (h : UtxoViewpoint.txInFlight c txs hash = none) : ∀ tx ∈ txs, tx.txHash c ≠ hash := by
  intro tx htx heq
  obtain ⟨i, hi⟩ := mem_iff_getElem?.mp htx
  have hmem : (tx, i) ∈ txs.zipIdx.reverse :=
    mem_reverse.mpr (mem_zipIdx_iff_getElem?.mpr hi)
  exact find?_eq_none.mp h _ hmem (beq_iff_eq.mpr heq)

namespace UtxoViewpoint

variable {db : UtxoDb}

/-! ### Connecting reads and writes the entries of a transaction -/

def SameEntries (v w : UtxoViewpoint) : Prop := ∀ hash, v.lookupEntry hash = w.lookupEntry hash

theorem SameEntries.setEntry (h : SameEntries v w) (hash : Hash) (entry : Option UtxoEntry) :
    SameEntries (v.setEntry hash entry) (w.setEntry hash entry) := by
  intro hash'
  rw [lookupEntry_setEntry, lookupEntry_setEntry, h hash']

theorem SameEntries.addTxOuts (h : SameEntries v w) (tx : MsgTx) (height : UInt32) :
    SameEntries (v.addTxOuts c tx height) (w.addTxOuts c tx height) := by
  unfold UtxoViewpoint.addTxOuts
  rw [h (tx.txHash c)]
  exact h.setEntry _ _

theorem SameEntries.spendInputs (h : SameEntries v w) (hspend : UtxoViewpoint.spendInputs txIns v = .ok (v', stxos)) :
    ∃ w', UtxoViewpoint.spendInputs txIns w = .ok (w', stxos) ∧ SameEntries v' w' := by
  induction txIns generalizing v w stxos with
  | nil =>
    cases hspend
    exact ⟨w, rfl, h⟩
  | cons txIn txIns ih =>
    obtain ⟨entry, rest, hentry, hrest, rfl⟩ := spendInputs_cons.mp hspend
    obtain ⟨w', hw', hsame⟩ := ih (h.setEntry _ _) hrest
    exact ⟨w', spendInputs_cons.mpr ⟨entry, rest, (h _).symm.trans hentry, hw', rfl⟩, hsame⟩

theorem SameEntries.connectTransaction (h : SameEntries v w)
    (hconnect : v.connectTransaction c tx height = .ok (v', stxos)) :
    ∃ w', w.connectTransaction c tx height = .ok (w', stxos) ∧ SameEntries v' w' := by
  obtain ⟨spent, hspend, rfl⟩ := connectTransaction_iff.mp hconnect
  obtain ⟨w₁, hw₁, hsame⟩ := h.spendInputs hspend
  exact ⟨_, connectTransaction_iff.mpr ⟨w₁, hw₁, rfl⟩, hsame.addTxOuts tx height⟩

theorem connectTxs_cons_ok : connectTxs c height (tx :: txs) v = .ok (v', stxos) ↔
    ∃ m first rest, v.connectTransaction c tx height = .ok (m, first) ∧
      connectTxs c height txs m = .ok (v', rest) ∧ stxos = first ++ rest := by
  rw [connectTxs]
  constructor
  · intro h
    obtain ⟨⟨m, first⟩, hfirst, h⟩ := bind_eq_ok.mp h
    obtain ⟨⟨v₂, rest⟩, hrest, h⟩ := bind_eq_ok.mp h
    cases h
    exact ⟨m, first, rest, hfirst, hrest, rfl⟩
  · rintro ⟨m, first, rest, hfirst, hrest, rfl⟩
    exact bind_eq_ok.mpr ⟨_, hfirst, bind_eq_ok.mpr ⟨_, hrest, rfl⟩⟩

theorem SameEntries.connectTxs (h : SameEntries v w)
    (hconnect : UtxoViewpoint.connectTxs c height txs v = .ok (v', stxos)) :
    ∃ w', UtxoViewpoint.connectTxs c height txs w = .ok (w', stxos) ∧ SameEntries v' w' := by
  induction txs generalizing v w stxos with
  | nil =>
    cases hconnect
    exact ⟨w, rfl, h⟩
  | cons tx txs ih =>
    obtain ⟨m, first, rest, hfirst, hrest, rfl⟩ := connectTxs_cons_ok.mp hconnect
    obtain ⟨w₁, hw₁, hsame₁⟩ := h.connectTransaction hfirst
    obtain ⟨w₂, hw₂, hsame₂⟩ := ih hsame₁ hrest
    exact ⟨w₂, connectTxs_cons_ok.mpr ⟨w₁, first, rest, hw₁, hw₂, rfl⟩, hsame₂⟩

theorem connectTxs_of_connectTx {params : Params} {s s' : ConnectState}
    (h : txs.foldlM (connectTx c params height) s = .ok s') :
    ∃ stxos, connectTxs c height txs s.utxoView = .ok (s'.utxoView, stxos) ∧ s'.stxos = s.stxos ++ stxos := by
  induction txs generalizing s with
  | nil =>
    cases h
    exact ⟨[], rfl, (append_nil _).symm⟩
  | cons tx txs ih =>
    obtain ⟨m, hm, hrest⟩ := foldlM_cons_eq_ok.mp h
    obtain ⟨-, first, -, -, -, hconnect, hstxos, -⟩ := connectTx_ok hm
    obtain ⟨rest, hconnect', hstxos'⟩ := ih hrest
    exact ⟨first ++ rest, connectTxs_cons_ok.mpr ⟨_, first, rest, hconnect, hconnect', rfl⟩,
      by rw [hstxos', hstxos, append_assoc]⟩

theorem lookupEntry_addTxOuts_of_ne (hne : hash ≠ tx.txHash c) :
    (view.addTxOuts c tx height).lookupEntry hash = view.lookupEntry hash := by
  unfold addTxOuts
  rw [lookupEntry_setEntry, if_neg hne]

theorem lookupEntry_spendInputs_none (h : spendInputs txIns v = .ok (v', stxos)) (hnone : v.lookupEntry hash = none) :
    v'.lookupEntry hash = none ∧ ∀ txIn ∈ txIns, txIn.previousOutPoint.hash ≠ hash := by
  induction txIns generalizing v stxos with
  | nil =>
    cases h
    exact ⟨hnone, fun txIn htxIn => absurd htxIn not_mem_nil⟩
  | cons txIn txIns ih =>
    obtain ⟨entry, rest, hentry, hrest, -⟩ := spendInputs_cons.mp h
    have hne : txIn.previousOutPoint.hash ≠ hash := by
      rintro rfl
      rw [hnone] at hentry
      cases hentry
    obtain ⟨hend, hothers⟩ := ih hrest (by rw [lookupEntry_setEntry, if_neg hne.symm, hnone])
    exact ⟨hend, forall_mem_cons.mpr ⟨hne, hothers⟩⟩

theorem lookupEntry_connectTransaction_none (h : v.connectTransaction c tx height = .ok (v', stxos))
    (hnone : v.lookupEntry hash = none) : (∀ o ∈ spends tx, o.hash ≠ hash) ∧
      (hash ≠ tx.txHash c → v'.lookupEntry hash = none) := by
  obtain ⟨spent, hspend, rfl⟩ := connectTransaction_iff.mp h
  obtain ⟨hend, hothers⟩ := lookupEntry_spendInputs_none hspend hnone
  rw [spends_eq, forall_mem_map]
  exact ⟨hothers, fun hne => (lookupEntry_addTxOuts_of_ne hne).trans hend⟩

theorem spendInputs_isSome (h : spendInputs txIns v = .ok (v', stxos)) (hash : Hash) :
    (v'.lookupEntry hash).isSome ↔ (v.lookupEntry hash).isSome := by
  refine spendInputs_rule (P := fun w => (w.lookupEntry hash).isSome ↔ (v.lookupEntry hash).isSome)
    (fun w o entry hentry hw => ?_) h Iff.rfl
  rw [← hw, lookupEntry_setEntry]
  split_ifs with heq
  · rw [heq, hentry]
    rfl
  · rfl

theorem connectTxs_isSome (h : connectTxs c height txs v = .ok (v', stxos)) (hout : ∀ tx ∈ txs, tx.txHash c ≠ hash) :
    (v'.lookupEntry hash).isSome ↔ (v.lookupEntry hash).isSome := by
  induction txs generalizing v stxos with
  | nil =>
    cases h
    exact Iff.rfl
  | cons tx txs ih =>
    rw [forall_mem_cons] at hout
    obtain ⟨m, first, rest, hfirst, hrest, -⟩ := connectTxs_cons_ok.mp h
    obtain ⟨spent, hspend, rfl⟩ := connectTransaction_iff.mp hfirst
    rw [ih hrest hout.2, lookupEntry_addTxOuts_of_ne hout.1.symm, spendInputs_isSome hspend]

/-! ### Loading -/

theorem fetchInputUtxos_eq (view : UtxoViewpoint) (block : MsgBlock) : view.fetchInputUtxos c db block =
      let s := (blockInputs block).foldl (fun s q => noteInput c block q.1 s q.2) (view, [])
      s.1.fetchUtxosMain db s.2 := by
  unfold fetchInputUtxos blockInputs
  simp only [foldl_flatMap, foldl_map]

theorem lookup_addTxOuts_of_ne (hne : hash ≠ tx.txHash c) :
    (view.addTxOuts c tx height).entries.lookup hash = view.entries.lookup hash := by
  unfold addTxOuts setEntry
  exact AList.lookup_insert_ne hne

/-- What the loop of `fetchInputUtxos` does at a hash that is not of the block: it notes the hash when
an input names it and the view does not have it. -/
theorem noteInputs_outside (hout : ∀ tx ∈ block.transactions, tx.txHash c ≠ hash)
    (inputs : List (Nat × TxIn)) (s : UtxoViewpoint × List Hash) :
    let s' := inputs.foldl (fun s q => noteInput c block q.1 s q.2) s
    s'.1.entries.lookup hash = s.1.entries.lookup hash ∧
      (hash ∈ s'.2 ↔ hash ∈ s.2 ∨ hash ∉ s.1.entries ∧ ∃ q ∈ inputs, q.2.previousOutPoint.hash = hash) := by
  induction inputs generalizing s with
  | nil => exact ⟨rfl, by simp⟩
  | cons q inputs ih =>
    simp only [foldl_cons]
    obtain ⟨hlookup, hnoted⟩ := ih (noteInput c block q.1 s q.2)
    have hmem : ∀ v w : UtxoViewpoint, v.entries.lookup hash = w.entries.lookup hash →
        (hash ∈ v.entries ↔ hash ∈ w.entries) := by
      intro v w heq
      rw [← AList.lookup_isSome, ← AList.lookup_isSome, heq]
    have hstep : (noteInput c block q.1 s q.2).1.entries.lookup hash = s.1.entries.lookup hash ∧
        (hash ∈ (noteInput c block q.1 s q.2).2 ↔ hash ∈ s.2 ∨
          hash ∉ s.1.entries ∧ q.2.previousOutPoint.hash = hash) := by
      cases hflight : txInFlight c block.transactions q.2.previousOutPoint.hash with
      | none =>
        simp only [noteInput, hflight]
        split_ifs with hin
        · refine ⟨rfl, fun h => .inl h, ?_⟩
          rintro (h | ⟨hnot, rfl⟩)
          · exact h
          · exact absurd hin hnot
        · refine ⟨rfl, ?_⟩
          rw [mem_cons]
          constructor
          · rintro (rfl | h)
            · exact .inr ⟨hin, rfl⟩
            · exact .inl h
          · rintro (h | ⟨-, rfl⟩)
            · exact .inr h
            · exact .inl rfl
      | some p =>
        obtain ⟨hpos, hhash⟩ := txInFlight_some hflight
        have hp : p.1 ∈ block.transactions := mem_of_getElem? hpos
        have hne : q.2.previousOutPoint.hash ≠ hash := hhash ▸ hout p.1 hp
        simp only [noteInput, hflight]
        split_ifs with hle hin
        · exact ⟨lookup_addTxOuts_of_ne (hout p.1 hp).symm, by simp [hne]⟩
        · exact ⟨rfl, by simp [hne]⟩
        · refine ⟨rfl, ?_⟩
          rw [mem_cons]
          simp [hne, hne.symm]
    refine ⟨hlookup.trans hstep.1, ?_⟩
    rw [hnoted, hstep.2, hmem _ _ hstep.1]
    simp only [mem_cons, exists_eq_or_imp]
    tauto

theorem lookup_fetchInputUtxos_outside (hout : ∀ tx ∈ block.transactions, tx.txHash c ≠ hash)
    (hnew : hash ∉ view.entries) : (view.fetchInputUtxos c db block).entries.lookup hash =
      if ∃ q ∈ blockInputs block, q.2.previousOutPoint.hash = hash then some (db.lookup hash)
      else none := by
  obtain ⟨hlookup, hnoted⟩ := noteInputs_outside hout (blockInputs block) (view, [])
  rw [fetchInputUtxos_eq]
  simp only
  rw [lookup_fetchUtxosMain]
  refine if_congr ?_ rfl ?_
  · rw [hnoted]
    simp [hnew]
  · rw [hlookup]
    exact AList.lookup_eq_none.mpr hnew

end UtxoViewpoint

end Prova
