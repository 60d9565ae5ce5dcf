import Prova.Lib.Overlay
import Prova.Database.Basic

/-!
# The database cache

Metadata lives in leveldb. Committed transactions are gathered in a cache in front of it: one treap of
the keys to write and one of the keys to remove. A commit either goes into the cache or, when a flush
is due, writes first the cache and then the transaction itself to leveldb. A treap is modelled by its
contents, an ordered map.
-/

namespace Prova

namespace Ffldb

open Std.ExtTreeMap Database

def edits (keys remove : KeyMap) : Edits Bytes Bytes := fun key =>
  if remove.contains key then some none else keys[key]?.map some

@[simp] theorem edits_empty : edits ∅ ∅ = Edits.none := by
  funext key
  simp [edits, Edits.none]

/-! ### Snapshots -/

structure DbCacheSnapshot where
  dbSnapshot : KeyMap
  pendingKeys : KeyMap
  pendingRemove : KeyMap

namespace DbCacheSnapshot

def has (snap : DbCacheSnapshot) (key : Bytes) : Bool :=
  if snap.pendingRemove.contains key then false
  else if snap.pendingKeys.contains key then true
  else snap.dbSnapshot.contains key

def get (snap : DbCacheSnapshot) (key : Bytes) : Option Bytes :=
  if snap.pendingRemove.contains key then none
  else match snap.pendingKeys[key]? with
    | some value => some value
    | none => snap.dbSnapshot[key]?

/-- The map that the snapshot shows. -/
def view (snap : DbCacheSnapshot) : Bytes → Option Bytes :=
  (edits snap.pendingKeys snap.pendingRemove).apply snap.dbSnapshot.find

theorem get_eq_view (snap : DbCacheSnapshot) (key : Bytes) : snap.get key = snap.view key := by
  unfold get view edits Edits.apply KeyMap.find
  by_cases hremove : snap.pendingRemove.contains key
  · simp [hremove]
  · cases hkey : snap.pendingKeys[key]? <;> simp [hremove, hkey]

theorem has_eq_view (snap : DbCacheSnapshot) (key : Bytes) : snap.has key = (snap.view key).isSome := by
  unfold has view edits Edits.apply KeyMap.find
  by_cases hremove : snap.pendingRemove.contains key
  · simp [hremove]
  · rw [contains_eq_isSome_getElem? (t := snap.pendingKeys), contains_eq_isSome_getElem? (t := snap.dbSnapshot)]
    cases hkey : snap.pendingKeys[key]? <;> simp [hremove, hkey]

end DbCacheSnapshot

/-! ### The cache -/

structure DbCache where
  ldb : KeyMap
  cachedKeys : KeyMap
  cachedRemove : KeyMap

/-- How the disk answers while a transaction is committed: whether a flush is due, and the results of
syncing the block files, of the leveldb transaction with the cache and of the one with the transaction
that is committed. -/
structure Disk where
  needsFlush : Bool
  sync : Except ErrorCode Unit
  commitCache : Except ErrorCode Unit
  commitTx : Except ErrorCode Unit

def Disk.Fails (disk : Disk) : Prop :=
  ¬ (disk.sync = .ok () ∧ disk.commitCache = .ok () ∧ disk.commitTx = .ok ())

/-- What one leveldb transaction makes of the database: first the keys to write, then the keys to
remove. -/
def commitTreaps (ldb pendingKeys pendingRemove : KeyMap) : KeyMap :=
  pendingRemove.toList.foldl (fun m e => m.erase e.1)
    (pendingKeys.toList.foldl (fun m e => m.insert e.1 e.2) ldb)

theorem find_commitTreaps (ldb pendingKeys pendingRemove : KeyMap) : (commitTreaps ldb pendingKeys pendingRemove).find
      = (edits pendingKeys pendingRemove).apply ldb.find := by
  funext key
  unfold commitTreaps KeyMap.find edits Edits.apply
  rw [getElem?_foldl_erase_toList, getElem?_foldl_insert_toList fun value => value]
  by_cases hremove : pendingRemove.contains key
  · simp [hremove]
  · cases hkey : pendingKeys[key]? <;> simp [hremove, hkey]

namespace DbCache

def snapshot (c : DbCache) : DbCacheSnapshot := ⟨c.ldb, c.cachedKeys, c.cachedRemove⟩

/-- The map that the committed transactions have left. -/
def view (c : DbCache) : Bytes → Option Bytes := c.snapshot.view

def flush (c : DbCache) (disk : Disk) : DbCache × Except ErrorCode Unit :=
  match disk.sync with
  | .error err => (c, .error err)
  | .ok () =>
    if c.cachedKeys.size = 0 ∧ c.cachedRemove.size = 0 then (c, .ok ())
    else
      match disk.commitCache with
      | .error err => (c, .error err)
      | .ok () => (⟨commitTreaps c.ldb c.cachedKeys c.cachedRemove, ∅, ∅⟩, .ok ())

/-- Every key to write goes to the cached keys and out of the cached removals. -/
def cacheKeys (c : DbCache) (pendingKeys : KeyMap) : DbCache :=
  pendingKeys.toList.foldl
    (fun c e => { c with
      cachedRemove := c.cachedRemove.erase e.1
      cachedKeys := c.cachedKeys.put e.1 (some e.2) }) c

/-- Every key to remove goes out of the cached keys and to the cached removals. -/
def cacheRemove (c : DbCache) (pendingRemove : KeyMap) : DbCache :=
  pendingRemove.toList.foldl
    (fun c e => { c with
      cachedKeys := c.cachedKeys.erase e.1
      cachedRemove := c.cachedRemove.put e.1 none }) c

/-- `commitTx` for a transaction with the given pending keys. -/
def commitTx (c : DbCache) (pendingKeys pendingRemove : KeyMap) (disk : Disk) :
    DbCache × Except ErrorCode Unit :=
  if disk.needsFlush then
    match c.flush disk with
    | (c, .error err) => (c, .error err)
    | (c, .ok ()) =>
      match disk.commitTx with
      | .error err => (c, .error err)
      | .ok () => ({ c with ldb := commitTreaps c.ldb pendingKeys pendingRemove }, .ok ())
  else ((c.cacheKeys pendingKeys).cacheRemove pendingRemove, .ok ())

/-! ### What a commit leaves -/

theorem view_flush (c : DbCache) (disk : Disk) : (c.flush disk).1.view = c.view := by
  unfold flush
  cases disk.sync with
  | error err => rfl
  | ok _ =>
    by_cases hempty : c.cachedKeys.size = 0 ∧ c.cachedRemove.size = 0
    · simp only [if_pos hempty]
    · simp only [if_neg hempty]
      cases disk.commitCache with
      | error err => rfl
      | ok _ =>
        simp only [view, snapshot, DbCacheSnapshot.view, edits_empty, Edits.none_apply, find_commitTreaps]

theorem flush_ok {c c' : DbCache} {disk : Disk} (h : c.flush disk = (c', .ok ())) :
    c'.cachedKeys = ∅ ∧ c'.cachedRemove = ∅ := by
  unfold flush at h
  cases hsync : disk.sync with
  | error err => simp [hsync] at h
  | ok _ =>
    simp only [hsync] at h
    by_cases hempty : c.cachedKeys.size = 0 ∧ c.cachedRemove.size = 0
    · rw [if_pos hempty] at h
      cases h
      exact ⟨eq_empty_iff_size_eq_zero.mpr hempty.1, eq_empty_iff_size_eq_zero.mpr hempty.2⟩
    · rw [if_neg hempty] at h
      cases hcommit : disk.commitCache with
      | error err => simp [hcommit] at h
      | ok _ =>
        simp only [hcommit] at h
        cases h
        exact ⟨rfl, rfl⟩

theorem fails_of_flush_error {c c' : DbCache} {disk : Disk} {err : ErrorCode}
    (h : c.flush disk = (c', .error err)) : disk.Fails := by
  rintro ⟨hsync, hcommit, -⟩
  simp only [flush, hsync, hcommit] at h
  split at h <;> cases h

theorem view_empty (ldb : KeyMap) : (⟨ldb, ∅, ∅⟩ : DbCache).view = ldb.find := by
  simp only [view, snapshot, DbCacheSnapshot.view, edits_empty, Edits.none_apply]

theorem cacheKeys_eq (c : DbCache) (pendingKeys : KeyMap) :
    c.cacheKeys pendingKeys = { c with
      cachedRemove := pendingKeys.toList.foldl (fun m e => m.erase e.1) c.cachedRemove
      cachedKeys := pendingKeys.toList.foldl (fun m e => m.insert e.1 e.2) c.cachedKeys } := by
  unfold cacheKeys
  induction pendingKeys.toList generalizing c with
  | nil => rfl
  | cons e l ih => rw [List.foldl_cons, ih]; rfl

theorem cacheRemove_eq (c : DbCache) (pendingRemove : KeyMap) :
    c.cacheRemove pendingRemove = { c with
      cachedKeys := pendingRemove.toList.foldl (fun m e => m.erase e.1) c.cachedKeys
      cachedRemove := pendingRemove.toList.foldl (fun m e => m.put e.1 none) c.cachedRemove } := by
  unfold cacheRemove
  induction pendingRemove.toList generalizing c with
  | nil => rfl
  | cons e l ih => rw [List.foldl_cons, ih]; rfl

theorem getElem?_foldl_put_none (t m : KeyMap) (key : Bytes) :
    (t.toList.foldl (fun m e => KeyMap.put m e.1 none) m)[key]? = (t[key]?.map fun _ => []).or m[key]? :=
  getElem?_foldl_insert_toList (fun _ => []) t m key

theorem edits_cacheTx (c : DbCache) (pendingKeys pendingRemove : KeyMap) :
    edits ((c.cacheKeys pendingKeys).cacheRemove pendingRemove).cachedKeys
        ((c.cacheKeys pendingKeys).cacheRemove pendingRemove).cachedRemove
      = (edits pendingKeys pendingRemove).onto (edits c.cachedKeys c.cachedRemove) := by
  funext key
  rw [cacheRemove_eq, cacheKeys_eq]
  unfold edits Edits.onto
  simp only [contains_eq_isSome_getElem?, getElem?_foldl_put_none,
    getElem?_foldl_erase_toList, getElem?_foldl_insert_toList fun value => value]
  cases hremove : pendingRemove[key]? <;> cases hkey : pendingKeys[key]? <;> simp

theorem view_cacheTx (c : DbCache) (pendingKeys pendingRemove : KeyMap) :
    ((c.cacheKeys pendingKeys).cacheRemove pendingRemove).view = (edits pendingKeys pendingRemove).apply c.view := by
  have hldb : ((c.cacheKeys pendingKeys).cacheRemove pendingRemove).ldb = c.ldb := by
    rw [cacheRemove_eq, cacheKeys_eq]
  simp only [view, snapshot, DbCacheSnapshot.view, edits_cacheTx, Edits.onto_apply, hldb]

/-- The flush path of a commit: a transaction that is written to leveldb is laid onto the map that the
flushed cache has left there. -/
theorem view_writeTx {c c' : DbCache} {disk : Disk} (h : c.flush disk = (c', .ok ()))
    (pendingKeys pendingRemove : KeyMap) :
    ({ c' with ldb := commitTreaps c'.ldb pendingKeys pendingRemove } : DbCache).view
      = (edits pendingKeys pendingRemove).apply c.view := by
  have hview := view_flush c disk
  rw [h] at hview
  obtain ⟨ldb, cachedKeys, cachedRemove⟩ := c'
  obtain ⟨rfl, rfl⟩ : cachedKeys = ∅ ∧ cachedRemove = ∅ := flush_ok h
  rw [← hview, view_empty, view_empty, find_commitTreaps]

/-- A commit that succeeds lays the transaction onto the committed map, whether it goes to the cache
or to leveldb; one that fails leaves the map as it was, and fails only when the disk does. -/
theorem commitTx_spec (c : DbCache) (pendingKeys pendingRemove : KeyMap) (disk : Disk) :
    ((c.commitTx pendingKeys pendingRemove disk).2 = .ok () ∧ (c.commitTx pendingKeys pendingRemove disk).1.view
        = (edits pendingKeys pendingRemove).apply c.view) ∨
    ((∃ err, (c.commitTx pendingKeys pendingRemove disk).2 = .error err) ∧ disk.Fails ∧
      (c.commitTx pendingKeys pendingRemove disk).1.view = c.view) := by
  unfold commitTx
  by_cases hneeds : disk.needsFlush
  · rw [if_pos hneeds]
    have hview := view_flush c disk
    cases hflush : c.flush disk with
    | mk c' result =>
      rw [hflush] at hview
      cases result with
      | error err => exact .inr ⟨⟨err, rfl⟩, fails_of_flush_error hflush, hview⟩
      | ok _ =>
        cases hcommit : disk.commitTx with
        | error err => exact .inr ⟨⟨err, rfl⟩, fun h => by simp [h.2.2] at hcommit, hview⟩
        | ok _ => exact .inl ⟨rfl, view_writeTx hflush pendingKeys pendingRemove⟩
  · rw [if_neg hneeds]
    exact .inl ⟨rfl, view_cacheTx c pendingKeys pendingRemove⟩

end DbCache

end Ffldb

end Prova
