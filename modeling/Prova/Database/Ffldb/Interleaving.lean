import Prova.Database.Ffldb.DbCache

/-!
# Snapshots taken while a transaction commits

Read transactions take no lock against a commit. A snapshot is made in two steps, first one of leveldb
and then, under the cache lock, the roots of the cached treaps. A commit is a few steps too: the new
treaps are swapped in, or the cache is written to leveldb, cleared, and the transaction written to
leveldb after it. This module lets these steps of any number of readers and of one writer after another
come in any order and asks which snapshots show a state that the database has really been in.

Every leveldb transaction has a number. A snapshot of leveldb that is older than the changes on which
the cache was built leaves out whatever was written to leveldb in between.
-/

namespace Prova

namespace Ffldb

open List Std.ExtTreeMap Database

/-- How far the commit of a write transaction has come: it has to write the cache to leveldb, to clear
the cache, or to write its own pending keys to leveldb. -/
inductive Phase
  | idle
  | flushing (pendingKeys pendingRemove : KeyMap)
  | flushed (pendingKeys pendingRemove : KeyMap)
  | cleared (pendingKeys pendingRemove : KeyMap)

/-- A reader that has its leveldb snapshot and not yet the cached treaps, with the number of the last
leveldb transaction in the snapshot. -/
structure Waiting where
  dbSnapshot : KeyMap
  seq : Nat

/-- What readers and writer share. `seq` numbers the leveldb transactions and `cachedAt` is the number
when a transaction last went to the cache. The transactions committed so far are kept in order. -/
structure Shared where
  cache : DbCache
  seq : Nat
  cachedAt : Nat
  phase : Phase
  waiting : List Waiting
  snapshots : List DbCacheSnapshot
  committed : List (KeyMap × KeyMap)

inductive Action
  /-- A reader takes its leveldb snapshot. -/
  | getSnapshot
  /-- The waiting reader takes the roots of the cached treaps: its snapshot is complete. -/
  | readCache (i : Nat)
  /-- A transaction is merged into the cached treaps, and the new roots are swapped in. -/
  | cacheTx (pendingKeys pendingRemove : KeyMap)
  /-- A commit finds that a flush is due and syncs the block files. -/
  | flush (pendingKeys pendingRemove : KeyMap)
  | commitCache
  | clearCache
  | commitTx
  /-- Writing to leveldb fails, and with it the commit. -/
  | fail

namespace Shared

/-- What a step does. A step that cannot be taken does nothing. -/
def step (s : Shared) : Action → Shared
  | .getSnapshot => { s with waiting := s.waiting ++ [⟨s.cache.ldb, s.seq⟩] }
  | .readCache i =>
    match s.waiting[i]? with
    | none => s
    | some r => { s with
        waiting := s.waiting.eraseIdx i
        snapshots := s.snapshots ++ [⟨r.dbSnapshot, s.cache.cachedKeys, s.cache.cachedRemove⟩] }
  | .cacheTx pendingKeys pendingRemove =>
    match s.phase with
    | .idle => { s with
        cache := (s.cache.cacheKeys pendingKeys).cacheRemove pendingRemove
        cachedAt := s.seq
        committed := s.committed ++ [(pendingKeys, pendingRemove)] }
    | _ => s
  | .flush pendingKeys pendingRemove =>
    match s.phase with
    | .idle =>
      if s.cache.cachedKeys.size = 0 ∧ s.cache.cachedRemove.size = 0 then
        { s with phase := .cleared pendingKeys pendingRemove }
      else { s with phase := .flushing pendingKeys pendingRemove }
    | _ => s
  | .commitCache =>
    match s.phase with
    | .flushing pendingKeys pendingRemove => { s with
        cache := { s.cache with
          ldb := commitTreaps s.cache.ldb s.cache.cachedKeys s.cache.cachedRemove }
        seq := s.seq + 1
        phase := .flushed pendingKeys pendingRemove }
    | _ => s
  | .clearCache =>
    match s.phase with
    | .flushed pendingKeys pendingRemove => { s with
        cache := { s.cache with cachedKeys := ∅, cachedRemove := ∅ }
        phase := .cleared pendingKeys pendingRemove }
    | _ => s
  | .commitTx =>
    match s.phase with
    | .cleared pendingKeys pendingRemove => { s with
        cache := { s.cache with ldb := commitTreaps s.cache.ldb pendingKeys pendingRemove }
        seq := s.seq + 1
        phase := .idle
        committed := s.committed ++ [(pendingKeys, pendingRemove)] }
    | _ => s
  | .fail =>
    match s.phase with
    | .flushing _ _ | .cleared _ _ => { s with phase := .idle }
    | _ => s

def run (s : Shared) (actions : List Action) : Shared := actions.foldl step s

end Shared

def DbCache.quiet (c : DbCache) : Shared := ⟨c, 0, 0, .idle, [], [], []⟩

/-! ### The steps of a commit are the commit -/

/-! ### States the database has been in -/

def stateAfter (m : Bytes → Option Bytes) (txs : List (KeyMap × KeyMap)) : Bytes → Option Bytes :=
  txs.foldl (fun m tx => (edits tx.1 tx.2).apply m) m

/-- The map `m` is the one after some of the first transactions. -/
def AfterPrefix (m₀ : Bytes → Option Bytes) (txs : List (KeyMap × KeyMap)) (m : Bytes → Option Bytes) :
    Prop :=
  ∃ n ≤ txs.length, m = stateAfter m₀ (txs.take n)

theorem stateAfter_concat (m₀ : Bytes → Option Bytes) (txs : List (KeyMap × KeyMap))
    (pendingKeys pendingRemove : KeyMap) : stateAfter m₀ (txs ++ [(pendingKeys, pendingRemove)])
      = (edits pendingKeys pendingRemove).apply (stateAfter m₀ txs) := by
  simp [stateAfter, foldl_append]

theorem afterPrefix_all (m₀ : Bytes → Option Bytes) (txs : List (KeyMap × KeyMap)) :
    AfterPrefix m₀ txs (stateAfter m₀ txs) :=
  ⟨txs.length, Nat.le_refl _, by rw [take_length]⟩

theorem AfterPrefix.append {m₀ m : Bytes → Option Bytes} {txs : List (KeyMap × KeyMap)}
    (h : AfterPrefix m₀ txs m) (more : List (KeyMap × KeyMap)) : AfterPrefix m₀ (txs ++ more) m := by
  obtain ⟨n, hn, rfl⟩ := h
  refine ⟨n, ?_, ?_⟩
  · rw [length_append]
    omega
  · rw [take_append_of_le_length hn]

/-! ### Runs in which no reader is overtaken -/

/-- A reader takes the cached treaps when nothing is cached, or nothing was written to leveldb between
its leveldb snapshot and the last transaction that went to the cache. -/
def Calm (s : Shared) : Action → Prop
  | .readCache i => ∀ r, s.waiting[i]? = some r →
      (s.cache.cachedKeys.size = 0 ∧ s.cache.cachedRemove.size = 0) ∨ s.cachedAt ≤ r.seq
  | _ => True

def CalmRun : Shared → List Action → Prop
  | _, [] => True
  | s, action :: actions => Calm s action ∧ CalmRun (s.step action) actions

/-- What holds between the steps of readers and writer, for a database that began as `m₀`. -/
structure Consistent (m₀ : Bytes → Option Bytes) (s : Shared) : Prop where
  view : s.cache.view = stateAfter m₀ s.committed
  ldb : AfterPrefix m₀ s.committed s.cache.ldb.find
  /-- Between the two writes of a flush the cache is in leveldb already. -/
  flushed : ∀ pendingKeys pendingRemove, s.phase = .flushed pendingKeys pendingRemove →
    s.cache.ldb.find = stateAfter m₀ s.committed
  cleared : ∀ pendingKeys pendingRemove, s.phase = .cleared pendingKeys pendingRemove →
    s.cache.cachedKeys = ∅ ∧ s.cache.cachedRemove = ∅
  waiting : ∀ r ∈ s.waiting, AfterPrefix m₀ s.committed r.dbSnapshot.find
  waitingSeq : ∀ r ∈ s.waiting, r.seq ≤ s.seq ∧ (r.seq = s.seq → r.dbSnapshot = s.cache.ldb)
  waitingView : ∀ r ∈ s.waiting, s.cachedAt ≤ r.seq →
    AfterPrefix m₀ s.committed
      ((edits s.cache.cachedKeys s.cache.cachedRemove).apply r.dbSnapshot.find)
  snapshots : ∀ snap ∈ s.snapshots, AfterPrefix m₀ s.committed snap.view

namespace Consistent

variable {m₀ : Bytes → Option Bytes} {s : Shared}

theorem getSnapshot (h : Consistent m₀ s) : Consistent m₀ (s.step .getSnapshot) := by
  refine ⟨h.view, h.ldb, h.flushed, h.cleared, ?_, ?_, ?_, h.snapshots⟩
  · intro r hr
    obtain hr | hr := mem_append.mp hr
    · exact h.waiting r hr
    · rw [mem_singleton.mp hr]
      exact h.ldb
  · intro r hr
    obtain hr | hr := mem_append.mp hr
    · exact h.waitingSeq r hr
    · rw [mem_singleton.mp hr]
      exact ⟨Nat.le_refl _, fun _ => rfl⟩
  · intro r hr hseq
    obtain hr | hr := mem_append.mp hr
    · exact h.waitingView r hr hseq
    · rw [mem_singleton.mp hr]
      -- Nothing has happened since: the reader would see what a transaction beginning now sees.
      have hall := afterPrefix_all m₀ s.committed
      rwa [← h.view] at hall

theorem readCache (h : Consistent m₀ s) {i : Nat} (hcalm : Calm s (.readCache i)) :
    Consistent m₀ (s.step (.readCache i)) := by
  cases hr : s.waiting[i]? with
  | none => simpa only [Shared.step, hr] using h
  | some r =>
    have hmem : r ∈ s.waiting := mem_of_getElem? hr
    have hsnap : AfterPrefix m₀ s.committed
        (DbCacheSnapshot.view ⟨r.dbSnapshot, s.cache.cachedKeys, s.cache.cachedRemove⟩) := by
      obtain ⟨hkeys, hremove⟩ | hseq := hcalm r hr
      · rw [DbCacheSnapshot.view, eq_empty_iff_size_eq_zero.mpr hkeys,
          eq_empty_iff_size_eq_zero.mpr hremove, edits_empty, Edits.none_apply]
        exact h.waiting r hmem
      · exact h.waitingView r hmem hseq
    have hrest : ∀ r' ∈ s.waiting.eraseIdx i, r' ∈ s.waiting := fun _ => mem_of_mem_eraseIdx
    simp only [Shared.step, hr]
    refine ⟨h.view, h.ldb, h.flushed, h.cleared, fun r' hr' => h.waiting r' (hrest r' hr'),
      fun r' hr' => h.waitingSeq r' (hrest r' hr'), fun r' hr' => h.waitingView r' (hrest r' hr'), ?_⟩
    intro snap hsnap'
    obtain hsnap' | hsnap' := mem_append.mp hsnap'
    · exact h.snapshots snap hsnap'
    · rw [mem_singleton.mp hsnap']
      exact hsnap

theorem cacheTx (h : Consistent m₀ s) (pendingKeys pendingRemove : KeyMap) :
    Consistent m₀ (s.step (.cacheTx pendingKeys pendingRemove)) := by
  cases hphase : s.phase with
  | idle =>
    have hcache := DbCache.view_cacheTx s.cache pendingKeys pendingRemove
    have hldb : ((s.cache.cacheKeys pendingKeys).cacheRemove pendingRemove).ldb = s.cache.ldb := by
      rw [DbCache.cacheRemove_eq, DbCache.cacheKeys_eq]
    have hview : ((s.cache.cacheKeys pendingKeys).cacheRemove pendingRemove).view
        = stateAfter m₀ (s.committed ++ [(pendingKeys, pendingRemove)]) := by
      rw [stateAfter_concat, hcache, h.view]
    simp only [Shared.step, hphase]
    refine ⟨hview, ?_, ?_, ?_, fun r hr => (h.waiting r hr).append _, ?_, ?_,
      fun snap hsnap => (h.snapshots snap hsnap).append _⟩
    · simpa only [hldb] using h.ldb.append [(pendingKeys, pendingRemove)]
    · intro _ _ hphase'
      cases hphase'
    · intro _ _ hphase'
      cases hphase'
    · simpa only [hldb] using h.waitingSeq
    · -- Only a reader whose leveldb snapshot is still current is promised anything.
      intro r hr hseq
      obtain ⟨hle, hcurrent⟩ := h.waitingSeq r hr
      rw [hcurrent (Nat.le_antisymm hle hseq)]
      have hall := afterPrefix_all m₀ (s.committed ++ [(pendingKeys, pendingRemove)])
      rw [← hview, DbCache.view, DbCacheSnapshot.view, DbCache.snapshot, hldb] at hall
      exact hall
  | flushing _ _ | flushed _ _ | cleared _ _ => simpa only [Shared.step, hphase] using h

theorem flush (h : Consistent m₀ s) (pendingKeys pendingRemove : KeyMap) :
    Consistent m₀ (s.step (.flush pendingKeys pendingRemove)) := by
  cases hphase : s.phase with
  | idle =>
    by_cases hempty : s.cache.cachedKeys.size = 0 ∧ s.cache.cachedRemove.size = 0
    · simp only [Shared.step, hphase, if_pos hempty]
      refine ⟨h.view, h.ldb, fun _ _ hphase' => (by cases hphase'), fun _ _ _ => ?_, h.waiting,
        h.waitingSeq, h.waitingView, h.snapshots⟩
      exact ⟨eq_empty_iff_size_eq_zero.mpr hempty.1, eq_empty_iff_size_eq_zero.mpr hempty.2⟩
    · simp only [Shared.step, hphase, if_neg hempty]
      exact ⟨h.view, h.ldb, fun _ _ hphase' => (by cases hphase'), fun _ _ hphase' => (by cases hphase'),
        h.waiting, h.waitingSeq, h.waitingView, h.snapshots⟩
  | flushing _ _ | flushed _ _ | cleared _ _ => simpa only [Shared.step, hphase] using h

theorem commitCache (h : Consistent m₀ s) : Consistent m₀ (s.step .commitCache) := by
  cases hphase : s.phase with
  | flushing pendingKeys pendingRemove =>
    have hfind : (commitTreaps s.cache.ldb s.cache.cachedKeys s.cache.cachedRemove).find
        = stateAfter m₀ s.committed := by
      rw [find_commitTreaps, ← h.view]
      rfl
    simp only [Shared.step, hphase]
    refine ⟨?_, ?_, fun _ _ _ => hfind, fun _ _ hphase' => (by cases hphase'), h.waiting, ?_,
      h.waitingView, h.snapshots⟩
    · -- The cache is still there, over its own changes.
      rw [DbCache.view, DbCacheSnapshot.view, DbCache.snapshot, find_commitTreaps, Edits.apply_apply, ← h.view]
      rfl
    · rw [hfind]
      exact afterPrefix_all m₀ s.committed
    · intro r hr
      have hle := (h.waitingSeq r hr).1
      exact ⟨Nat.le_succ_of_le hle, fun heq => (Nat.ne_of_lt (Nat.lt_succ_of_le hle) heq).elim⟩
  | idle | flushed _ _ | cleared _ _ => simpa only [Shared.step, hphase] using h

theorem clearCache (h : Consistent m₀ s) : Consistent m₀ (s.step .clearCache) := by
  cases hphase : s.phase with
  | flushed pendingKeys pendingRemove =>
    simp only [Shared.step, hphase]
    refine ⟨?_, h.ldb, fun _ _ hphase' => (by cases hphase'), fun _ _ _ => ⟨rfl, rfl⟩, h.waiting,
      h.waitingSeq, ?_, h.snapshots⟩
    · rw [DbCache.view_empty, h.flushed pendingKeys pendingRemove hphase]
    · intro r hr _
      rw [edits_empty, Edits.none_apply]
      exact h.waiting r hr
  | idle | flushing _ _ | cleared _ _ => simpa only [Shared.step, hphase] using h

theorem commitTx (h : Consistent m₀ s) : Consistent m₀ (s.step .commitTx) := by
  cases hphase : s.phase with
  | cleared pendingKeys pendingRemove =>
    obtain ⟨hkeys, hremove⟩ := h.cleared pendingKeys pendingRemove hphase
    have hfind : (commitTreaps s.cache.ldb pendingKeys pendingRemove).find
        = stateAfter m₀ (s.committed ++ [(pendingKeys, pendingRemove)]) := by
      rw [find_commitTreaps, stateAfter_concat, ← h.view, DbCache.view, DbCacheSnapshot.view,
        DbCache.snapshot, hkeys, hremove, edits_empty, Edits.none_apply]
    simp only [Shared.step, hphase]
    refine ⟨?_, ?_, fun _ _ hphase' => (by cases hphase'), fun _ _ hphase' => (by cases hphase'),
      fun r hr => (h.waiting r hr).append _, ?_, fun r hr hseq => (h.waitingView r hr hseq).append _,
      fun snap hsnap => (h.snapshots snap hsnap).append _⟩
    · rw [hkeys, hremove, DbCache.view_empty, hfind]
    · rw [hfind]
      exact afterPrefix_all m₀ _
    · intro r hr
      have hle := (h.waitingSeq r hr).1
      exact ⟨Nat.le_succ_of_le hle, fun heq => (Nat.ne_of_lt (Nat.lt_succ_of_le hle) heq).elim⟩
  | idle | flushing _ _ | flushed _ _ => simpa only [Shared.step, hphase] using h

theorem fail (h : Consistent m₀ s) : Consistent m₀ (s.step .fail) := by
  cases hphase : s.phase with
  | flushing _ _ | cleared _ _ =>
    simp only [Shared.step, hphase]
    exact ⟨h.view, h.ldb, fun _ _ hphase' => (by cases hphase'), fun _ _ hphase' => (by cases hphase'),
      h.waiting, h.waitingSeq, h.waitingView, h.snapshots⟩
  | idle | flushed _ _ => simpa only [Shared.step, hphase] using h

theorem step (h : Consistent m₀ s) {action : Action} (hcalm : Calm s action) : Consistent m₀ (s.step action) := by
  cases action with
  | getSnapshot => exact h.getSnapshot
  | readCache i => exact h.readCache hcalm
  | cacheTx pendingKeys pendingRemove => exact h.cacheTx pendingKeys pendingRemove
  | flush pendingKeys pendingRemove => exact h.flush pendingKeys pendingRemove
  | commitCache => exact h.commitCache
  | clearCache => exact h.clearCache
  | commitTx => exact h.commitTx
  | fail => exact h.fail

theorem run (h : Consistent m₀ s) {actions : List Action} (hcalm : CalmRun s actions) :
    Consistent m₀ (s.run actions) := by
  induction actions generalizing s with
  | nil => exact h
  | cons action actions ih => exact ih (h.step hcalm.1) hcalm.2

end Consistent

theorem consistent_quiet (ldb : KeyMap) : Consistent ldb.find (DbCache.quiet ⟨ldb, ∅, ∅⟩) := by
  refine ⟨DbCache.view_empty ldb, ⟨0, Nat.le_refl _, rfl⟩, fun _ _ hphase => (by cases hphase),
    fun _ _ hphase => (by cases hphase), ?_, ?_, ?_, ?_⟩ <;> intro _ hmem <;> cases hmem

/-- In every run in which no reader is overtaken, every snapshot shows the state after some prefix of
the committed transactions. -/
theorem snapshots_afterPrefix (ldb : KeyMap) (actions : List Action)
    (hcalm : CalmRun (DbCache.quiet ⟨ldb, ∅, ∅⟩) actions) :
    ∀ snap ∈ ((DbCache.quiet ⟨ldb, ∅, ∅⟩).run actions).snapshots,
      AfterPrefix ldb.find ((DbCache.quiet ⟨ldb, ∅, ∅⟩).run actions).committed snap.view :=
  ((consistent_quiet ldb).run hcalm).snapshots

namespace Sample

def keyA : KeyMap := (∅ : KeyMap).insert [97] [1]

def keyB : KeyMap := (∅ : KeyMap).insert [98] [2]

/-- A reader takes its leveldb snapshot while a commit that flushes is under way, and the cached treaps
when that commit is over. -/
def readAcrossFlush : List Action :=
  [.cacheTx keyA ∅, .flush keyB ∅, .getSnapshot, .commitCache, .clearCache, .commitTx, .readCache 0]

/-- As before, but the next transaction goes to the cache before the reader takes the treaps. -/
def overtakenReader : List Action :=
  [.flush keyA ∅, .getSnapshot, .commitTx, .cacheTx keyB ∅, .readCache 0]

end Sample

theorem snapshots_afterPrefix_readAcrossFlush : CalmRun (DbCache.quiet ⟨∅, ∅, ∅⟩) Sample.readAcrossFlush ∧
      ∀ snap ∈ ((DbCache.quiet ⟨∅, ∅, ∅⟩).run Sample.readAcrossFlush).snapshots,
        AfterPrefix (KeyMap.find ∅) ((DbCache.quiet ⟨∅, ∅, ∅⟩).run Sample.readAcrossFlush).committed snap.view := by
  have hcalm : CalmRun (DbCache.quiet ⟨∅, ∅, ∅⟩) Sample.readAcrossFlush := by
    refine ⟨trivial, trivial, trivial, trivial, trivial, trivial, fun _ _ => .inl ⟨?_, ?_⟩, trivial⟩
    · decide
    · decide
  exact ⟨hcalm, snapshots_afterPrefix ∅ Sample.readAcrossFlush hcalm⟩

/-- The reader that is overtaken sees the second transaction and not the first. -/
theorem snapshot_skips_transaction : ∃ snap ∈ ((DbCache.quiet ⟨∅, ∅, ∅⟩).run Sample.overtakenReader).snapshots,
      snap.get [97] = none ∧ snap.get [98] = some [2] ∧
      ¬ AfterPrefix (KeyMap.find ∅) ((DbCache.quiet ⟨∅, ∅, ∅⟩).run Sample.overtakenReader).committed snap.view := by
  have hreads : ((DbCache.quiet ⟨∅, ∅, ∅⟩).run Sample.overtakenReader).snapshots.head?.map
      (fun snap => (snap.get [97], snap.get [98])) = some (none, some [2]) := by decide
  obtain ⟨snap, hsnap, hget⟩ := Option.map_eq_some_iff.mp hreads
  rw [Prod.mk.injEq] at hget
  refine ⟨snap, mem_of_mem_head? hsnap, hget.1, hget.2, ?_⟩
  rintro ⟨n, hn, hview⟩
  have hlength : ((DbCache.quiet ⟨∅, ∅, ∅⟩).run Sample.overtakenReader).committed.length = 2 := by
    decide
  have hstates : ∀ n < 3, (stateAfter (KeyMap.find ∅)
        (((DbCache.quiet ⟨∅, ∅, ∅⟩).run Sample.overtakenReader).committed.take n) [97], stateAfter (KeyMap.find ∅)
        (((DbCache.quiet ⟨∅, ∅, ∅⟩).run Sample.overtakenReader).committed.take n) [98])
        ≠ (none, some [2]) := by
    decide
  apply hstates n (by omega)
  rw [← hview, ← snap.get_eq_view, ← snap.get_eq_view, hget.1, hget.2]

end Ffldb

end Prova
