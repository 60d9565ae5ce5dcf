import Prova.Database.Ffldb.DbCache

/-!
# Database transactions

A transaction reads the snapshot taken when it began. A write transaction keeps its own changes in two
treaps in front of that snapshot and hands them to the cache on commit; only one write transaction is
open at a time. Seen from outside the database is one plain map: a write transaction works on a copy
of it and puts the copy in its place when the commit succeeds, and a read transaction keeps the copy
with which it began.
-/

namespace Prova

namespace Ffldb

open Database

/-! ### Transactions -/

structure Transaction where
  writable : Bool
  snapshot : DbCacheSnapshot
  pendingKeys : KeyMap
  pendingRemove : KeyMap

namespace Transaction

def hasKey (tx : Transaction) (key : Bytes) : Bool :=
  if tx.writable && tx.pendingRemove.contains key then false
  else if tx.writable && tx.pendingKeys.contains key then true
  else tx.snapshot.has key

def putKey (tx : Transaction) (key : Bytes) (value : Option Bytes) : Transaction :=
  { tx with
    pendingRemove := tx.pendingRemove.erase key
    pendingKeys := tx.pendingKeys.put key value }

def fetchKey (tx : Transaction) (key : Bytes) : Option Bytes :=
  if tx.writable then
    if tx.pendingRemove.contains key then none
    else match tx.pendingKeys[key]? with
      | some value => some value
      | none => tx.snapshot.get key
  else tx.snapshot.get key

def deleteKey (tx : Transaction) (key : Bytes) : Transaction :=
  { tx with
    pendingKeys := tx.pendingKeys.erase key
    pendingRemove := tx.pendingRemove.put key none }

/-- The map that the transaction shows. -/
def view (tx : Transaction) : Bytes → Option Bytes :=
  if tx.writable then (edits tx.pendingKeys tx.pendingRemove).apply tx.snapshot.view
  else tx.snapshot.view

theorem fetchKey_eq_view (tx : Transaction) (key : Bytes) : tx.fetchKey key = tx.view key := by
  unfold fetchKey view
  rw [DbCacheSnapshot.get_eq_view]
  cases tx.writable with
  | false => rfl
  | true =>
    simp only [if_true, Edits.apply, edits]
    by_cases hremove : tx.pendingRemove.contains key
    · simp [hremove]
    · cases tx.pendingKeys[key]? <;> simp [hremove]

theorem hasKey_eq_view (tx : Transaction) (key : Bytes) : tx.hasKey key = (tx.view key).isSome := by
  unfold hasKey view
  rw [DbCacheSnapshot.has_eq_view, Std.ExtTreeMap.contains_eq_isSome_getElem? (t := tx.pendingKeys)]
  cases tx.writable with
  | false => rfl
  | true =>
    simp only [if_true, Bool.true_and, Edits.apply, edits]
    by_cases hremove : tx.pendingRemove.contains key
    · simp [hremove]
    · cases tx.pendingKeys[key]? <;> simp [hremove]

theorem view_putKey {tx : Transaction} (hw : tx.writable = true) (key : Bytes) (value : Option Bytes) :
    (tx.putKey key value).view = Function.update tx.view key (some (value.getD [])) := by
  funext k
  simp only [view, putKey, hw, if_true, Edits.apply, edits, KeyMap.put]
  by_cases hk : key = k
  · subst hk
    simp
  · rw [Function.update_of_ne (fun h => hk h.symm)]
    simp [Std.ExtTreeMap.getElem?_insert, hk, Edits.apply, edits]

theorem view_deleteKey {tx : Transaction} (hw : tx.writable = true) (key : Bytes) :
    (tx.deleteKey key).view = Function.update tx.view key none := by
  funext k
  simp only [view, deleteKey, hw, if_true, Edits.apply, edits, KeyMap.put]
  by_cases hk : key = k
  · subst hk
    simp
  · rw [Function.update_of_ne (fun h => hk h.symm)]
    simp [Std.ExtTreeMap.getElem?_erase, hk, Edits.apply, edits]

end Transaction

def DbCache.begin (c : DbCache) (writable : Bool) : Transaction := ⟨writable, c.snapshot, ∅, ∅⟩

@[simp] theorem view_begin (c : DbCache) (writable : Bool) : (c.begin writable).view = c.view := by
  cases writable <;> simp [Transaction.view, DbCache.begin, DbCache.view]

/-! ### Runs of the database -/

inductive Read
  | fetch (key : Bytes)
  | has (key : Bytes)

inductive Write
  | read (r : Read)
  | put (key : Bytes) (value : Option Bytes)
  | delete (key : Bytes)
  | rollback
  | commit (disk : Disk)

/-- A call on the database. The read transactions are numbered in the order in which they began. -/
inductive Call
  | begin (writable : Bool)
  | onReader (i : Nat) (r : Read)
  | onWriter (w : Write)

inductive Reply
  | done
  | value (value : Option Bytes)
  | found (exists_ : Bool)
  | error (err : ErrorCode)
  | blocked
  deriving DecidableEq

def Transaction.read (tx : Transaction) : Read → Reply
  | .fetch key => .value (tx.fetchKey key)
  | .has key => .found (tx.hasKey key)

structure Db where
  cache : DbCache
  writer : Option Transaction
  readers : List Transaction

namespace Db

/-- A call on the write transaction `tx`. Whatever a commit returns, the transaction is closed. -/
def write (db : Db) (tx : Transaction) : Write → Db × Reply
  | .read r => (db, tx.read r)
  | .put key value => ({ db with writer := some (tx.putKey key value) }, .done)
  | .delete key => ({ db with writer := some (tx.deleteKey key) }, .done)
  | .rollback => ({ db with writer := none }, .done)
  | .commit disk =>
    match db.cache.commitTx tx.pendingKeys tx.pendingRemove disk with
    | (cache, .ok ()) => ({ db with cache := cache, writer := none }, .done)
    | (cache, .error err) => ({ db with cache := cache, writer := none }, .error err)

def step (db : Db) : Call → Db × Reply
  | .begin false => ({ db with readers := db.readers ++ [db.cache.begin false] }, .done)
  | .begin true =>
    match db.writer with
    -- The write lock is held until the open write transaction is closed.
    | some _ => (db, .blocked)
    | none => ({ db with writer := some (db.cache.begin true) }, .done)
  | .onReader i r =>
    match db.readers[i]? with
    | none => (db, .error .errTxClosed)
    | some tx => (db, tx.read r)
  | .onWriter w =>
    match db.writer with
    | none => (db, .error .errTxClosed)
    | some tx => db.write tx w

def run (db : Db) : List Call → Db × List Reply
  | [] => (db, [])
  | call :: calls => (((db.step call).1.run calls).1, (db.step call).2 :: ((db.step call).1.run calls).2)

end Db

/-! ### The plain map -/

/-- The committed map, the copy of the open write transaction and the copies of the readers. -/
structure Plain where
  committed : Bytes → Option Bytes
  writer : Option (Bytes → Option Bytes)
  readers : List (Bytes → Option Bytes)

namespace Plain

def answer (m : Bytes → Option Bytes) : Read → Reply
  | .fetch key => .value (m key)
  | .has key => .found (m key).isSome

/-- What one call does to the maps, and what it replies. A commit puts the copy of the writer in the
place of the committed map; it may fail only when the disk does, and then it changes nothing. -/
inductive Step : Plain → Call → Reply → Plain → Prop
  | beginRead {p : Plain} :
    Step p (.begin false) .done { p with readers := p.readers ++ [p.committed] }
  | beginWrite {p : Plain} (free : p.writer = none) :
    Step p (.begin true) .done { p with writer := some p.committed }
  | beginBlocked {p : Plain} {m : Bytes → Option Bytes} (held : p.writer = some m) :
    Step p (.begin true) .blocked p
  | reader {p : Plain} {i : Nat} {m : Bytes → Option Bytes} (r : Read)
    (opened : p.readers[i]? = some m) : Step p (.onReader i r) (answer m r) p
  | readerClosed {p : Plain} {i : Nat} (r : Read) (closed : p.readers[i]? = none) :
    Step p (.onReader i r) (.error .errTxClosed) p
  | writerClosed {p : Plain} (w : Write) (closed : p.writer = none) :
    Step p (.onWriter w) (.error .errTxClosed) p
  | read {p : Plain} {m : Bytes → Option Bytes} (r : Read) (opened : p.writer = some m) :
    Step p (.onWriter (.read r)) (answer m r) p
  | put {p : Plain} {m : Bytes → Option Bytes} (key : Bytes) (value : Option Bytes)
    (opened : p.writer = some m) :
    Step p (.onWriter (.put key value)) .done
      { p with writer := some (Function.update m key (some (value.getD []))) }
  | delete {p : Plain} {m : Bytes → Option Bytes} (key : Bytes) (opened : p.writer = some m) :
    Step p (.onWriter (.delete key)) .done { p with writer := some (Function.update m key none) }
  | rollback {p : Plain} {m : Bytes → Option Bytes} (opened : p.writer = some m) :
    Step p (.onWriter .rollback) .done { p with writer := none }
  | commit {p : Plain} {m : Bytes → Option Bytes} (disk : Disk) (opened : p.writer = some m) :
    Step p (.onWriter (.commit disk)) .done { p with committed := m, writer := none }
  | commitFailed {p : Plain} {m : Bytes → Option Bytes} {disk : Disk} (err : ErrorCode)
    (opened : p.writer = some m) (fails : disk.Fails) :
    Step p (.onWriter (.commit disk)) (.error err) { p with writer := none }

/-- The plain map may reply to these calls like this. -/
def Replies (p : Plain) : List Call → List Reply → Prop
  | [], replies => replies = []
  | call :: calls, replies => ∃ reply rest p', replies = reply :: rest ∧ Step p call reply p' ∧
    Replies p' calls rest

end Plain

/-! ### The database is the plain map -/

def Db.plain (db : Db) : Plain :=
  ⟨db.cache.view, db.writer.map Transaction.view, db.readers.map Transaction.view⟩

/-- The open write transaction shows the committed map with its own changes. -/
structure Db.Sound (db : Db) : Prop where
  writable : ∀ tx ∈ db.writer, tx.writable = true
  current : ∀ tx ∈ db.writer, tx.snapshot.view = db.cache.view

theorem Transaction.read_eq_answer (tx : Transaction) (r : Read) : tx.read r = Plain.answer tx.view r := by
  cases r with
  | fetch key => rw [Transaction.read, Transaction.fetchKey_eq_view]; rfl
  | has key => rw [Transaction.read, Transaction.hasKey_eq_view]; rfl

namespace Db

theorem Sound.step_write {db : Db} (hdb : db.Sound) {tx : Transaction} (htx : db.writer = some tx) (w : Write) :
    Plain.Step db.plain (.onWriter w) (db.write tx w).2 (db.write tx w).1.plain ∧ (db.write tx w).1.Sound := by
  have hw : tx.writable = true := hdb.writable tx htx
  have hcurrent : tx.snapshot.view = db.cache.view := hdb.current tx htx
  have hopened : db.plain.writer = some tx.view := by simp [plain, htx]
  cases w with
  | read r =>
    refine ⟨?_, hdb⟩
    rw [write, tx.read_eq_answer]
    exact .read r hopened
  | put key value =>
    refine ⟨?_, ?_, ?_⟩
    · have hstep := Plain.Step.put key value hopened
      rwa [← Transaction.view_putKey hw] at hstep
    · rintro _ ⟨⟩
      exact hw
    · rintro _ ⟨⟩
      exact hcurrent
  | delete key =>
    refine ⟨?_, ?_, ?_⟩
    · have hstep := Plain.Step.delete key hopened
      rwa [← Transaction.view_deleteKey hw] at hstep
    · rintro _ ⟨⟩
      exact hw
    · rintro _ ⟨⟩
      exact hcurrent
  | rollback => exact ⟨.rollback hopened, by rintro _ ⟨⟩, by rintro _ ⟨⟩⟩
  | commit disk =>
    have hview : tx.view = (edits tx.pendingKeys tx.pendingRemove).apply db.cache.view := by
      rw [Transaction.view, if_pos hw, hcurrent]
    rw [write]
    have hspec := db.cache.commitTx_spec tx.pendingKeys tx.pendingRemove disk
    cases hcommit : db.cache.commitTx tx.pendingKeys tx.pendingRemove disk with
    | mk cache result =>
      rw [hcommit] at hspec
      cases result with
      | ok _ =>
        have hcommitted : cache.view = tx.view := by
          obtain ⟨-, h⟩ | ⟨⟨err, h⟩, -⟩ := hspec
          · exact h.trans hview.symm
          · cases h
        refine ⟨?_, by rintro _ ⟨⟩, by rintro _ ⟨⟩⟩
        have hstep := Plain.Step.commit disk hopened
        rwa [← hcommitted] at hstep
      | error err =>
        obtain ⟨h, -⟩ | ⟨-, hfails, hsame⟩ := hspec
        · cases h
        · refine ⟨?_, by rintro _ ⟨⟩, by rintro _ ⟨⟩⟩
          have hstep := Plain.Step.commitFailed err hopened hfails
          rwa [show db.plain.committed = cache.view from hsame.symm] at hstep

theorem Sound.step {db : Db} (hdb : db.Sound) (call : Call) :
    Plain.Step db.plain call (db.step call).2 (db.step call).1.plain ∧ (db.step call).1.Sound := by
  cases call with
  | begin writable =>
    cases writable with
    | false => 
      refine ⟨?_, hdb.writable, hdb.current⟩
      have hstep := Plain.Step.beginRead (p := db.plain)
      simpa [Db.step, plain] using hstep
    | true =>
      cases hwriter : db.writer with
      | some tx =>
        have hopened : db.plain.writer = some tx.view := by simp [plain, hwriter]
        simp only [Db.step, hwriter]
        exact ⟨.beginBlocked hopened, hdb⟩
      | none =>
        simp only [Db.step, hwriter]
        refine ⟨?_, ?_, ?_⟩
        · have hstep := Plain.Step.beginWrite (p := db.plain) (by simp [plain, hwriter])
          simpa [plain] using hstep
        · rintro _ ⟨⟩
          rfl
        · rintro _ ⟨⟩
          rfl
  | onReader i r =>
    cases hreader : db.readers[i]? with
    | none =>
      simp only [Db.step, hreader]
      exact ⟨.readerClosed r (by simp [plain, hreader]), hdb⟩
    | some tx =>
      simp only [Db.step, hreader, tx.read_eq_answer]
      exact ⟨.reader r (by simp [plain, hreader]), hdb⟩
  | onWriter w =>
    cases hwriter : db.writer with
    | none =>
      simp only [Db.step, hwriter]
      exact ⟨.writerClosed w (by simp [plain, hwriter]), hdb⟩
    | some tx =>
      simp only [Db.step, hwriter]
      exact hdb.step_write hwriter w

theorem Sound.run {db : Db} (hdb : db.Sound) (calls : List Call) : db.plain.Replies calls (db.run calls).2 := by
  induction calls generalizing db with
  | nil => rfl
  | cons call calls ih =>
    obtain ⟨hstep, hsound⟩ := hdb.step call
    exact ⟨_, _, _, rfl, hstep, ih hsound⟩

end Db

/-- The database that was opened with the given cache and has no transaction open. -/
def DbCache.idle (c : DbCache) : Db := ⟨c, none, []⟩

theorem sound_idle (c : DbCache) : c.idle.Sound := ⟨by rintro _ ⟨⟩, by rintro _ ⟨⟩⟩

/-- Whatever the calls, the flushes and the failures of the disk, the database replies as one plain
map: reads in the write transaction see its own writes, each commit takes effect at once, a commit
that fails or is rolled back has no effect, and a reader keeps the map with which it began. -/
theorem replies_as_plain_map (c : DbCache) (calls : List Call) :
    Plain.Replies ⟨c.view, none, []⟩ calls (c.idle.run calls).2 :=
  (sound_idle c).run calls

end Ffldb

end Prova
