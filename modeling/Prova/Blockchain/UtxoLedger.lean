import Prova.Blockchain.Coins

/-!
# The ledger of the database and of a view

The unspent outputs of the database form a ledger of coins. A view over the database shows a ledger
too: where it has an entry it shows that entry, elsewhere the database. Writing the view back makes the
database show what the view showed.
-/

namespace Prova

open Option AList List

variable {outpoint : OutPoint} {db : UtxoDb} {entry : UtxoEntry} {view : UtxoViewpoint}

namespace UtxoDb

def coinAt (db : UtxoDb) (outpoint : OutPoint) : Option Coin :=
  (db.lookup outpoint.hash).bind (·.coinAt outpoint.index)

def unspentOf (hash : Hash) (entry : UtxoEntry) : List (Σ _ : OutPoint, Coin) :=
  entry.sparseOutputs.entries.filterMap fun o => o.2.coin.map fun coin => ⟨⟨hash, o.1⟩, coin⟩

def unspent (db : UtxoDb) : List (Σ _ : OutPoint, Coin) :=
  db.entries.flatMap fun e => unspentOf e.1 e.2

theorem mem_unspentOf {hash : Hash} {coin : Coin} : ⟨outpoint, coin⟩ ∈ unspentOf hash entry ↔
      outpoint.hash = hash ∧ entry.coinAt outpoint.index = some coin := by
  unfold unspentOf UtxoEntry.coinAt
  rw [mem_filterMap]
  constructor
  · rintro ⟨⟨i, output⟩, hmem, heq⟩
    obtain ⟨coin', hcoin, heq⟩ := map_eq_some_iff.mp heq
    cases heq
    exact ⟨rfl, bind_eq_some_iff.mpr ⟨output, mem_lookup_iff.mpr hmem, hcoin⟩⟩
  · rintro ⟨rfl, hcoin⟩
    obtain ⟨output, hlookup, hcoin⟩ := bind_eq_some_iff.mp hcoin
    exact ⟨⟨outpoint.index, output⟩, mem_lookup_iff.mp hlookup, map_eq_some_iff.mpr ⟨coin, hcoin, rfl⟩⟩

theorem mem_unspent {coin : Coin} : ⟨outpoint, coin⟩ ∈ unspent db ↔ coinAt db outpoint = some coin := by
  unfold unspent coinAt
  rw [mem_flatMap]
  constructor
  · rintro ⟨⟨hash, entry⟩, hmem, hcoin⟩
    obtain ⟨rfl, hcoin⟩ := mem_unspentOf.mp hcoin
    exact bind_eq_some_iff.mpr ⟨entry, mem_lookup_iff.mpr hmem, hcoin⟩
  · intro h
    obtain ⟨entry, hlookup, hcoin⟩ := bind_eq_some_iff.mp h
    exact ⟨⟨outpoint.hash, entry⟩, mem_lookup_iff.mp hlookup, mem_unspentOf.mpr ⟨rfl, hcoin⟩⟩

theorem nodupKeys_unspent (db : UtxoDb) : (unspent db).NodupKeys := by
  rw [nodupKeys_iff_pairwise]
  unfold unspent
  rw [pairwise_flatMap]
  refine ⟨fun e _ => ?_, ?_⟩
  · unfold unspentOf
    rw [pairwise_filterMap]
    refine (nodupKeys_iff_pairwise.mp e.2.sparseOutputs.nodupKeys).imp ?_
    intro o o' hne x hx y hy heq
    obtain ⟨coin, -, rfl⟩ := map_eq_some_iff.mp hx
    obtain ⟨coin', -, rfl⟩ := map_eq_some_iff.mp hy
    exact hne (congrArg OutPoint.index heq)
  · refine (nodupKeys_iff_pairwise.mp db.nodupKeys).imp ?_
    rintro e e' hne ⟨x, coin⟩ hx ⟨y, coin'⟩ hy heq
    obtain ⟨hx, -⟩ := mem_unspentOf.mp hx
    obtain ⟨hy, -⟩ := mem_unspentOf.mp hy
    exact hne (hx.symm.trans ((congrArg OutPoint.hash heq).trans hy))

def ledger (db : UtxoDb) : Ledger OutPoint Coin := AList.toFinmap ⟨unspent db, nodupKeys_unspent db⟩

theorem lookup_ledger (db : UtxoDb) (outpoint : OutPoint) : (ledger db).lookup outpoint = coinAt db outpoint := by
  unfold ledger
  rw [Finmap.lookup_toFinmap]
  ext coin
  exact mem_lookup_iff.trans mem_unspent

theorem total_ledger {M : Type} [AddCommMonoid M] (w : OutPoint → Coin → M) (db : UtxoDb) :
    Ledger.total w (ledger db) = ((unspent db).map fun p => w p.1 p.2).sum := by
  unfold Ledger.total ledger
  rw [toFinmap_entries, Multiset.map_coe, Multiset.sum_coe]

def Stored (db : UtxoDb) : Prop :=
  ∀ {hash entry}, db.lookup hash = some entry → ¬ entry.isFullySpent = true

end UtxoDb

namespace UtxoViewpoint

def coinAt (db : UtxoDb) (view : UtxoViewpoint) (outpoint : OutPoint) : Option Coin :=
  match view.entries.lookup outpoint.hash with
  | none => UtxoDb.coinAt db outpoint
  | some entry => entry.bind (·.coinAt outpoint.index)

theorem coinAt_newUtxoViewpoint (db : UtxoDb) (hash : Hash) (outpoint : OutPoint) :
    coinAt db (newUtxoViewpoint hash) outpoint = UtxoDb.coinAt db outpoint := rfl

theorem coinAt_setEntry (db : UtxoDb) (view : UtxoViewpoint) (hash : Hash)
    (entry : Option UtxoEntry) (outpoint : OutPoint) : coinAt db (view.setEntry hash entry) outpoint =
      if outpoint.hash = hash then entry.bind (·.coinAt outpoint.index)
      else coinAt db view outpoint := by
  unfold coinAt setEntry
  by_cases h : outpoint.hash = hash
  · subst h
    simp only [lookup_insert, if_true]
  · simp only [lookup_insert_ne h, if_neg h]

theorem coinAt_of_lookupEntry (h : view.lookupEntry outpoint.hash = some entry) :
    coinAt db view outpoint = entry.coinAt outpoint.index := by
  unfold lookupEntry at h
  unfold coinAt
  rw [join_eq_some_iff] at h
  rw [h]
  rfl

/-! ### Writing back -/

/-- A view loads what it does not change: an entry that is not marked as modified is the one of the
database. -/
structure Loaded (db : UtxoDb) (view : UtxoViewpoint) : Prop where
  nil : ∀ {hash}, view.entries.lookup hash = some none → db.lookup hash = none
  kept : ∀ {hash entry}, view.entries.lookup hash = some (some entry) → entry.modified = false →
    db.lookup hash = some entry

theorem Loaded.newUtxoViewpoint (db : UtxoDb) (hash : Hash) :
    Loaded db (newUtxoViewpoint hash) where
  nil := fun h => by cases h
  kept := fun h => by cases h

theorem Loaded.set (h : Loaded db view) {hash : Hash}
    (hentry : entry.modified = false → db.lookup hash = some entry) :
    Loaded db (view.setEntry hash (some entry)) := by
  refine ⟨fun {hash'} hnil => ?_, fun {hash' entry'} hkept hmod => ?_⟩
  · unfold setEntry at hnil
    by_cases heq : hash' = hash
    · subst heq
      rw [lookup_insert] at hnil
      cases hnil
    · rw [lookup_insert_ne heq] at hnil
      exact h.nil hnil
  · unfold setEntry at hkept
    by_cases heq : hash' = hash
    · subst heq
      rw [lookup_insert] at hkept
      cases hkept
      exact hentry hmod
    · rw [lookup_insert_ne heq] at hkept
      exact h.kept hkept hmod

theorem Loaded.setEntry_modified (h : Loaded db view) {hash : Hash} (hentry : entry.modified = true) :
    Loaded db (view.setEntry hash (some entry)) :=
  h.set fun hmod => absurd (hentry.symm.trans hmod) (by decide)

theorem lookup_dbPutEntry_self (db : UtxoDb) (hash : Hash) (entry : Option UtxoEntry) :
    (dbPutEntry db hash entry).lookup hash =
      match entry with
      | none => db.lookup hash
      | some entry =>
        if ¬ entry.modified then db.lookup hash
        else if entry.isFullySpent then none else some entry.stored := by
  unfold dbPutEntry
  cases entry with
  | none => rfl
  | some entry =>
    simp only
    split_ifs
    · exact lookup_erase ..
    · exact lookup_insert ..
    · rfl

theorem lookup_dbPutEntry_of_ne {hash hash' : Hash} (hne : hash ≠ hash') (entry : Option UtxoEntry) :
    (dbPutEntry db hash' entry).lookup hash = db.lookup hash := by
  unfold dbPutEntry
  cases entry with
  | none => rfl
  | some entry =>
    simp only
    split_ifs
    · exact lookup_erase_ne hne
    · exact lookup_insert_ne hne
    · rfl

theorem lookup_dbPutUtxoView (db : UtxoDb) (view : UtxoViewpoint) (hash : Hash) : (view.dbPutUtxoView db).lookup hash =
      match view.entries.lookup hash with
      | none => db.lookup hash
      | some entry => (dbPutEntry db hash entry).lookup hash := by
  unfold dbPutUtxoView AList.lookup
  have hnodup := view.entries.nodupKeys
  generalize view.entries.entries = entries at hnodup
  induction entries generalizing db with
  | nil => rfl
  | cons e entries ih =>
    obtain ⟨key, entry⟩ := e
    rw [nodupKeys_cons] at hnodup
    rw [foldl_cons, ih _ hnodup.2]
    by_cases heq : hash = key
    · subst heq
      rw [dlookup_eq_none.mpr hnodup.1, dlookup_cons_eq]
    · rw [dlookup_cons_ne _ _ heq]
      have hother : (dbPutEntry db key entry).lookup hash = db.lookup hash :=
        lookup_dbPutEntry_of_ne heq entry
      cases entries.dlookup hash with
      | none => exact hother
      | some entry' =>
        have hself := lookup_dbPutEntry_self (dbPutEntry db key entry) hash entry'
        rw [hother, ← lookup_dbPutEntry_self] at hself
        exact hself

/-- A part of the entries that no fully spent one has and that storing keeps. -/
theorem bind_lookup_dbPutUtxoView {β : Type} {f : UtxoEntry → Option β} (h : Loaded db view) (hash : Hash)
    (hfull : ∀ entry, entry.isFullySpent = true → f entry = none) (hstored : ∀ entry, f entry.stored = f entry) :
    ((view.dbPutUtxoView db).lookup hash).bind f =
      match view.entries.lookup hash with
      | none => (db.lookup hash).bind f
      | some entry => entry.bind f := by
  rw [lookup_dbPutUtxoView]
  cases hlookup : view.entries.lookup hash with
  | none => rfl
  | some entry =>
    simp only
    rw [lookup_dbPutEntry_self]
    cases entry with
    | none =>
      simp only
      rw [h.nil hlookup]
    | some entry =>
      simp only
      split_ifs with hmod hspent
      · exact (hfull entry hspent).symm
      · exact hstored entry
      · rw [Bool.not_eq_true] at hmod
        rw [h.kept hlookup hmod]

theorem coinAt_dbPutUtxoView (h : Loaded db view) (outpoint : OutPoint) :
    UtxoDb.coinAt (view.dbPutUtxoView db) outpoint = coinAt db view outpoint :=
  bind_lookup_dbPutUtxoView h outpoint.hash (fun _ hspent => UtxoEntry.isFullySpent_iff.mp hspent outpoint.index)
    (UtxoEntry.coinAt_stored · outpoint.index)

theorem stored_dbPutUtxoView (h : UtxoDb.Stored db) (view : UtxoViewpoint) : UtxoDb.Stored (view.dbPutUtxoView db) := by
  intro hash entry hentry
  rw [lookup_dbPutUtxoView] at hentry
  cases hlookup : view.entries.lookup hash with
  | none =>
    simp only [hlookup] at hentry
    exact h hentry
  | some e =>
    simp only [hlookup, lookup_dbPutEntry_self] at hentry
    cases e with
    | none => exact h hentry
    | some e =>
      simp only at hentry
      split_ifs at hentry with hmod hspent
      · cases hentry
        rw [UtxoEntry.isFullySpent_iff] at hspent ⊢
        simpa only [UtxoEntry.coinAt_stored] using hspent
      · exact h hentry

end UtxoViewpoint

end Prova
