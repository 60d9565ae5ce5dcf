import Prova.Blockchain.UtxoLedger

/-!
# Putting a spent output back

Undoing a block puts spent outputs back, last one first. The entry of an output may have left the view
and the database in the meantime, because nothing of it was unspent any more. Only the record of the
spend that emptied it has the height and the coinbase mark, and this is the record that is undone
first. So it is enough that an entry, or its absence, stands for the entry as it was after the spend.
-/

namespace Prova

open Option AList List UtxoViewpoint

variable {outpoint : OutPoint} {db : UtxoDb} {entry x : UtxoEntry} {view : UtxoViewpoint}

/-- An unspent output with what its entry says about its transaction. -/
structure Utxo extends Coin where
  version : Int32
  height : UInt32
  isCoinBase : Bool
deriving DecidableEq

namespace UtxoEntry

def utxoAt (entry : UtxoEntry) (i : UInt32) : Option Utxo :=
  (entry.coinAt i).map fun coin => ⟨coin, entry.version, entry.blockHeight, entry.isCoinBase⟩

theorem utxoAt_eq_none {i : UInt32} : entry.utxoAt i = none ↔ entry.coinAt i = none := map_eq_none_iff

/-- An entry that shows what another one does. Where both still have an output, it is the same one. -/
structure Matches (x y : UtxoEntry) : Prop where
  version : y.version = x.version
  height : y.blockHeight = x.blockHeight
  isCoinBase : y.isCoinBase = x.isCoinBase
  coins : ∀ i, y.coinAt i = x.coinAt i
  outputs : ∀ i a b, x.sparseOutputs.lookup i = some a → y.sparseOutputs.lookup i = some b →
    b.amount = a.amount ∧ b.pkScript = a.pkScript

theorem Matches.refl (x : UtxoEntry) : Matches x x := by
  refine ⟨rfl, rfl, rfl, fun _ => rfl, fun i a b ha hb => ?_⟩
  cases ha.symm.trans hb
  exact ⟨rfl, rfl⟩

theorem Matches.utxoAt {y : UtxoEntry} (h : Matches x y) (i : UInt32) : y.utxoAt i = x.utxoAt i := by
  unfold UtxoEntry.utxoAt
  rw [h.coins, h.version, h.height, h.isCoinBase]

theorem Matches.isFullySpent {y : UtxoEntry} (h : Matches x y) : y.isFullySpent = true ↔ x.isFullySpent = true := by
  rw [isFullySpent_iff, isFullySpent_iff]
  simp only [h.coins]

theorem matches_stored (x : UtxoEntry) : Matches x x.stored := by
  refine ⟨rfl, rfl, rfl, coinAt_stored x, fun i a b ha hb => ?_⟩
  have hmem : (⟨i, b⟩ : Σ _ : UInt32, UtxoOutput) ∈ x.sparseOutputs.entries :=
    (mem_filter.mp (mem_lookup_iff.mp hb)).1
  cases ha.symm.trans (mem_lookup_iff.mpr hmem)
  exact ⟨rfl, rfl⟩

/-- What a view may have for an entry: one that matches it, or nothing if it has no coin. -/
def StandsFor (x : UtxoEntry) : Option UtxoEntry → Prop
  | none => x.isFullySpent = true
  | some y => Matches x y

/-! ### Spending -/

theorem output_of_coinAt {k : UInt32} {coin : Coin} (h : x.coinAt k = some coin) :
    ∃ out, x.sparseOutputs.lookup k = some out ∧ out.spent = false ∧ coin = ⟨out.amount, out.pkScript⟩ := by
  obtain ⟨out, hout, hcoin⟩ := bind_eq_some_iff.mp h
  unfold UtxoOutput.coin at hcoin
  split at hcoin
  · cases hcoin
  · next hspent => exact ⟨out, hout, by simpa using hspent, (Option.some.inj hcoin).symm⟩

theorem spendOutput_of_unspent {k : UInt32} {out : UtxoOutput}
    (hout : x.sparseOutputs.lookup k = some out) (hspent : out.spent = false) :
    x.spendOutput k = { x with
      modified := true
      sparseOutputs := x.sparseOutputs.insert k { out with spent := true } } := by
  simp only [spendOutput, hout, hspent, Bool.false_eq_true, if_false]

/-! ### Restoring -/

/-- What `restoreOutput` does to the entry. -/
def restoreEntry (entry : Option UtxoEntry) (i : UInt32) (stxo : SpentTxOut) : UtxoEntry :=
  let entry := entry.getD (newUtxoEntry stxo.version stxo.isCoinBase stxo.height)
  let output : UtxoOutput :=
    match entry.sparseOutputs.lookup i with
    | none => ⟨false, stxo.amount, stxo.pkScript⟩
    | some output => { output with spent := false }
  { entry with modified := true, sparseOutputs := entry.sparseOutputs.insert i output }

theorem coinAt_restoreEntry_of_ne {entry : Option UtxoEntry} {i j : UInt32} {stxo : SpentTxOut} (hne : j ≠ i) :
    (restoreEntry entry i stxo).coinAt j = entry.bind (·.coinAt j) := by
  unfold restoreEntry coinAt
  simp only
  rw [lookup_insert_ne hne]
  cases entry with
  | none => rfl
  | some entry => rfl

theorem coinAt_restoreEntry_self (entry : Option UtxoEntry) (i : UInt32) (stxo : SpentTxOut) :
    (restoreEntry entry i stxo).coinAt i ≠ none := by
  unfold restoreEntry coinAt
  simp only
  rw [lookup_insert]
  split <;> simp [UtxoOutput.coin]

/-- Putting an output back with the record of its spend leads from what stands for the entry after the
spend to what matches the entry before it. -/
theorem StandsFor.restore {k : UInt32} {coin : Coin} {entry : Option UtxoEntry}
    (hcoin : x.coinAt k = some coin) (h : StandsFor (x.spendOutput k) entry) :
    Matches x (restoreEntry entry k (spentTxOut (x.spendOutput k) k)) := by
  obtain ⟨out, hout, hspent, -⟩ := output_of_coinAt hcoin
  have hself : (x.spendOutput k).sparseOutputs.lookup k = some { out with spent := true } := by
    rw [spendOutput_of_unspent hout hspent]
    exact lookup_insert ..
  have hother : ∀ i, i ≠ k →
      (x.spendOutput k).sparseOutputs.lookup i = x.sparseOutputs.lookup i := by
    intro i hne
    rw [spendOutput_of_unspent hout hspent]
    exact lookup_insert_ne hne
  have hdata : (x.spendOutput k).version = x.version ∧
      (x.spendOutput k).blockHeight = x.blockHeight ∧
      (x.spendOutput k).isCoinBase = x.isCoinBase := by
    rw [spendOutput_of_unspent hout hspent]
    exact ⟨rfl, rfl, rfl⟩
  have hcoinx : x.coinAt k = some ⟨out.amount, out.pkScript⟩ := by
    unfold coinAt UtxoOutput.coin
    rw [hout]
    simp [hspent]
  cases entry with
  | none =>
    -- the spend emptied the entry, so its record has all there is to know
    have hempty := isFullySpent_iff.mp h
    have hstxo : spentTxOut (x.spendOutput k) k =
        ⟨x.version, out.amount, out.pkScript, x.blockHeight, x.isCoinBase⟩ := by
      have hfull : (x.spendOutput k).isFullySpent = true := h
      unfold spentTxOut amountByIndex pkScriptByIndex
      rw [hself, hfull, hdata.1, hdata.2.1, hdata.2.2]
      rfl
    rw [hstxo]
    refine ⟨rfl, rfl, rfl, fun i => ?_, fun i a b ha hb => ?_⟩
    · by_cases hi : i = k
      · subst hi
        rw [hcoinx]
        unfold restoreEntry coinAt
        simp only
        rw [lookup_insert]
        rfl
      · rw [coinAt_restoreEntry_of_ne hi]
        have hnone := hempty i
        rw [coinAt_spendOutput, if_neg hi] at hnone
        rw [hnone]
        rfl
    · by_cases hi : i = k
      · subst hi
        cases hout.symm.trans ha
        unfold restoreEntry at hb
        simp only at hb
        rw [lookup_insert] at hb
        cases hb
        exact ⟨rfl, rfl⟩
      · unfold restoreEntry at hb
        simp only at hb
        rw [lookup_insert_ne hi] at hb
        cases hb
  | some y =>
    obtain ⟨hversion, hheight, hflag, hcoins, houtputs⟩ := h
    have hrestored : ∃ b', (restoreEntry (some y) k
        (spentTxOut (x.spendOutput k) k)).sparseOutputs.lookup k = some b' ∧
        b'.spent = false ∧ b'.amount = out.amount ∧ b'.pkScript = out.pkScript := by
      refine ⟨_, lookup_insert .., ?_⟩
      simp only [getD_some]
      cases hy : y.sparseOutputs.lookup k with
      | none =>
        unfold spentTxOut amountByIndex pkScriptByIndex
        rw [hself]
        exact ⟨rfl, rfl, rfl⟩
      | some b => exact ⟨rfl, houtputs k { out with spent := true } b hself hy⟩
    refine ⟨hversion.trans hdata.1, hheight.trans hdata.2.1, hflag.trans hdata.2.2, fun i => ?_, fun i a b ha hb => ?_⟩
    · by_cases hi : i = k
      · subst hi
        obtain ⟨b', hb', hunspent, hamount, hscript⟩ := hrestored
        rw [hcoinx]
        unfold coinAt UtxoOutput.coin
        rw [hb', bind_some, hunspent, hamount, hscript]
        rfl
      · rw [coinAt_restoreEntry_of_ne hi, bind_some, hcoins, coinAt_spendOutput, if_neg hi]
    · by_cases hi : i = k
      · subst hi
        obtain ⟨b', hb', -, hsame⟩ := hrestored
        cases hb'.symm.trans hb
        cases hout.symm.trans ha
        exact hsame
      · unfold restoreEntry at hb
        simp only [getD_some] at hb
        rw [lookup_insert_ne hi] at hb
        exact houtputs i a b ((hother i hi).trans ha) hb

end UtxoEntry

/-! ### What the database and a view show -/

def UtxoDb.utxoAt (db : UtxoDb) (outpoint : OutPoint) : Option Utxo :=
  (db.lookup outpoint.hash).bind (·.utxoAt outpoint.index)

namespace UtxoViewpoint

def utxoAt (db : UtxoDb) (view : UtxoViewpoint) (outpoint : OutPoint) : Option Utxo :=
  match view.entries.lookup outpoint.hash with
  | none => UtxoDb.utxoAt db outpoint
  | some entry => entry.bind (·.utxoAt outpoint.index)

theorem utxoAt_of_lookupEntry (h : view.lookupEntry outpoint.hash = some entry) :
    utxoAt db view outpoint = entry.utxoAt outpoint.index := by
  unfold lookupEntry at h
  unfold utxoAt
  rw [join_eq_some_iff] at h
  rw [h]
  rfl

theorem utxoAt_of_lookupEntry_none (hloaded : Loaded db view) (h : view.lookupEntry outpoint.hash = none) :
    utxoAt db view outpoint = UtxoDb.utxoAt db outpoint := by
  unfold lookupEntry at h
  unfold utxoAt
  cases hlookup : view.entries.lookup outpoint.hash with
  | none => rfl
  | some entry =>
    rw [hlookup] at h
    cases h
    unfold UtxoDb.utxoAt
    rw [hloaded.nil hlookup]

theorem utxoAt_dbPutUtxoView (h : Loaded db view) (outpoint : OutPoint) :
    UtxoDb.utxoAt (view.dbPutUtxoView db) outpoint = utxoAt db view outpoint :=
  bind_lookup_dbPutUtxoView h outpoint.hash
    (fun _ hspent => UtxoEntry.utxoAt_eq_none.mpr (UtxoEntry.isFullySpent_iff.mp hspent outpoint.index))
    fun entry => (UtxoEntry.matches_stored entry).utxoAt outpoint.index

/-- What stays of an entry when its view is committed. -/
def committed : Option UtxoEntry → Option (Option UtxoEntry)
  | none => none
  | some entry =>
    if entry.modified ∧ entry.isFullySpent then none else some (some { entry with modified := false })

theorem lookup_commitEntry (entries : AList fun _ : Hash => Option UtxoEntry) (hash hash' : Hash)
    (entry : Option UtxoEntry) : (commitEntry entries hash' entry).lookup hash =
      if hash = hash' then committed entry else entries.lookup hash := by
  by_cases heq : hash = hash'
  · subst heq
    rw [if_pos rfl]
    cases entry with
    | none => exact lookup_erase ..
    | some entry =>
      simp only [commitEntry, committed]
      split_ifs
      · exact lookup_erase ..
      · exact lookup_insert ..
  · rw [if_neg heq]
    cases entry with
    | none => exact lookup_erase_ne heq
    | some entry =>
      simp only [commitEntry]
      split_ifs
      · exact lookup_erase_ne heq
      · exact lookup_insert_ne heq

theorem lookup_commit (view : UtxoViewpoint) (hash : Hash) :
    view.commit.entries.lookup hash = (view.entries.lookup hash).bind committed := by
  have hfold : ∀ (l : List (Σ _ : Hash, Option UtxoEntry)), l.NodupKeys →
      ∀ m : AList fun _ : Hash => Option UtxoEntry,
        (l.foldl (fun m e => commitEntry m e.1 e.2) m).lookup hash =
          match l.dlookup hash with
          | none => m.lookup hash
          | some entry => committed entry := by
    intro l
    induction l with
    | nil => exact fun _ _ => rfl
    | cons e l ih =>
      obtain ⟨key, entry⟩ := e
      intro hnodup m
      rw [nodupKeys_cons] at hnodup
      rw [foldl_cons, ih hnodup.2, lookup_commitEntry]
      by_cases heq : hash = key
      · subst heq
        rw [dlookup_eq_none.mpr hnodup.1, dlookup_cons_eq, if_pos rfl]
      · rw [dlookup_cons_ne _ _ heq, if_neg heq]
  have hentries := hfold view.entries.entries view.entries.nodupKeys view.entries
  change (view.entries.entries.foldl _ view.entries).lookup hash = _
  rw [hentries]
  change (match view.entries.lookup hash with
    | none => view.entries.lookup hash
    | some entry => committed entry) = _
  cases hlookup : view.entries.lookup hash with
  | none => rfl
  | some entry => rfl

theorem utxoAt_commit_of_coin (hentry : view.lookupEntry outpoint.hash = some entry)
    (hcoin : ¬ entry.isFullySpent = true) : utxoAt db view.commit outpoint = entry.utxoAt outpoint.index := by
  have hlookup : view.entries.lookup outpoint.hash = some (some entry) :=
    join_eq_some_iff.mp hentry
  unfold utxoAt
  rw [lookup_commit, hlookup]
  simp only [bind_some, committed]
  rw [if_neg fun hand => hcoin hand.2]
  rfl

theorem utxoAt_commit_of_empty (h : ∀ entry, view.lookupEntry outpoint.hash = some entry →
      entry.modified = true ∧ entry.isFullySpent = true) :
    utxoAt db view.commit outpoint = UtxoDb.utxoAt db outpoint := by
  unfold lookupEntry at h
  unfold utxoAt
  rw [lookup_commit]
  cases hlookup : view.entries.lookup outpoint.hash with
  | none => rfl
  | some entry =>
    rw [bind_some]
    cases entry with
    | none => rfl
    | some entry =>
      rw [hlookup] at h
      simp only [committed]
      rw [if_pos (h entry rfl)]

end UtxoViewpoint

end Prova
