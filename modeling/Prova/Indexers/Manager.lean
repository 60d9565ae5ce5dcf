import Prova.Lib.Bytes
import Prova.Lib.Resume
import Prova.Lib.Checked
import Mathlib.Data.List.AList
import Mathlib.Data.List.Nodup

/-!
# Dropping an index (`blockchain/indexers/manager.go`, `txindex.go`)

An index is dropped in several database transactions. A marker beside the tips of the indexes says that
a drop is under way, and the manager finishes marked drops when the node starts. What a crash leaves
behind is the state after one of the transactions.

The database is the metadata bucket with the buckets in it.
-/

namespace Prova

namespace Indexers

open List
open Function (update_of_ne update_self)

abbrev Bucket := AList fun _ : Bytes => Bytes

abbrev Metadata := Bytes → Option Bucket

inductive DbError where
  | bucketNotFound
  /-- A method of a bucket that does not exist. -/
  | panic
deriving DecidableEq

inductive Index where
  | tx
  | addr
deriving DecidableEq

/-- `idxtips`. -/
def indexTipsBucketName : Bytes := [0x69, 0x64, 0x78, 0x74, 0x69, 0x70, 0x73]

/-- `idbyhashidx`. -/
def idByHashIndexBucketName : Bytes :=
  [0x69, 0x64, 0x62, 0x79, 0x68, 0x61, 0x73, 0x68, 0x69, 0x64, 0x78]

/-- `hashbyididx`. -/
def hashByIDIndexBucketName : Bytes :=
  [0x68, 0x61, 0x73, 0x68, 0x62, 0x79, 0x69, 0x64, 0x69, 0x64, 0x78]

/-- `txbyhashidx` and `txbyaddridx`. -/
def Index.key : Index → Bytes
  | .tx => [0x74, 0x78, 0x62, 0x79, 0x68, 0x61, 0x73, 0x68, 0x69, 0x64, 0x78]
  | .addr => [0x74, 0x78, 0x62, 0x79, 0x61, 0x64, 0x64, 0x72, 0x69, 0x64, 0x78]

/-- The marker of a drop that is under way: the key after a `d`. -/
def indexDropKey (idxKey : Bytes) : Bytes := 0x64 :: idxKey

/-! ### The database -/

/-- `db.Update`: a transaction that is committed if it does not fail. -/
def update (f : Metadata → Except DbError Metadata) : LockM Metadata DbError Unit := fun db =>
  match f db with
  | .ok db' => .commit db' (.done db' (.ok ()))
  | .error e => .done db (.error e)

def getBucket (name : Bytes) (db : Metadata) : Except DbError Bucket :=
  match db name with
  | none => .error .panic
  | some bucket => .ok bucket

def putBucket (name : Bytes) (bucket : Bucket) (db : Metadata) : Metadata :=
  Function.update db name (some bucket)

def deleteBucket (name : Bytes) (db : Metadata) : Except DbError Metadata :=
  match db name with
  | none => .error .bucketNotFound
  | some _ => .ok (Function.update db name none)

/-- What is left of a bucket after a cursor has deleted its first entries. -/
def Bucket.dropEntries (n : Nat) (bucket : Bucket) : Bucket :=
  ⟨bucket.entries.drop n, bucket.nodupKeys.sublist (List.drop_sublist n _)⟩

/-! ### Dropping -/

/-- The entry of an index in the bucket of the tips, its own or that of its drop. -/
def tipEntry (key : Bytes) (db : Metadata) : Option Bytes :=
  (db indexTipsBucketName).bind (·.lookup key)

def markDrop (index : Index) (db : Metadata) : Except DbError Metadata := do
  let tips ← getBucket indexTipsBucketName db
  return putBucket indexTipsBucketName (tips.insert (indexDropKey index.key) index.key) db

def maxDeletions : Nat := 2000000

def deleteRound (index : Index) (db : Metadata) : Except DbError Metadata := do
  let bucket ← getBucket index.key db
  return putBucket index.key (Bucket.dropEntries maxDeletions bucket) db

/-- The loop that deletes the entries of an index; it goes on while a round has deleted as many as a
round can. -/
def deleteEntries (index : Index) : Nat → LockM Metadata DbError Unit
  | 0 => pure ()
  | n + 1 => do
    let db ← get
    let numDeleted := min maxDeletions ((db index.key).elim 0 (·.entries.length))
    update (deleteRound index)
    if numDeleted = maxDeletions then deleteEntries index n else pure ()

def dropBlockIDIndex (db : Metadata) : Except DbError Metadata := do
  let db ← deleteBucket idByHashIndexBucketName db
  deleteBucket hashByIDIndexBucketName db

def dropExtra (index : Index) : LockM Metadata DbError Unit :=
  if index = .tx then update dropBlockIDIndex else pure ()

def removeIndex (index : Index) (db : Metadata) : Except DbError Metadata := do
  let tips ← getBucket indexTipsBucketName db
  let db ← deleteBucket index.key (putBucket indexTipsBucketName (tips.erase index.key) db)
  return putBucket indexTipsBucketName ((tips.erase index.key).erase (indexDropKey index.key)) db

def dropIndex (index : Index) : LockM Metadata DbError Unit := do
  let db ← get
  if (tipEntry index.key db).isNone then return ()
  else
    update (markDrop index)
    deleteEntries index ((db index.key).elim 0 (·.entries.length) + 1)
    dropExtra index
    update (removeIndex index)

def dropIndexes : List Index → LockM Metadata DbError Unit
  | [] => pure ()
  | index :: rest => do
    dropIndex index
    dropIndexes rest

def maybeFinishDrops (enabledIndexes : List Index) : LockM Metadata DbError Unit := do
  let db ← get
  dropIndexes (enabledIndexes.filter fun index => (tipEntry (indexDropKey index.key) db).isSome)

/-! ### What an interrupted drop leaves -/

/-- The buckets of the block IDs, which belong to the transaction index. -/
def HasBlockIDs (db : Metadata) : Prop :=
  (db idByHashIndexBucketName).isSome ∧ (db hashByIDIndexBucketName).isSome

instance (db : Metadata) : Decidable (HasBlockIDs db) := inferInstanceAs (Decidable (_ ∧ _))

/-- An index as the manager keeps it, with its tip and its bucket; no other index is being dropped. -/
structure Kept (index : Index) (db : Metadata) : Prop where
  tip : (tipEntry index.key db).isSome
  bucket : (db index.key).isSome
  others : ∀ other ≠ index, tipEntry (indexDropKey other.key) db = none

/-- The index is kept and its drop is marked. -/
def Marked (index : Index) (db : Metadata) : Prop :=
  Kept index db ∧ (tipEntry (indexDropKey index.key) db).isSome

/-- Nothing of an index is left. -/
structure Gone (index : Index) (db : Metadata) : Prop where
  tip : tipEntry index.key db = none
  marker : tipEntry (indexDropKey index.key) db = none
  bucket : db index.key = none
  blockIDs : index = .tx →
    db idByHashIndexBucketName = none ∧ db hashByIDIndexBucketName = none

/-- The states from which a drop is resumed: the index is still kept and marked, or it is gone. -/
def Interrupted (index : Index) (db : Metadata) : Prop :=
  Marked index db ∨
    (Gone index db ∧ ∀ other ≠ index, tipEntry (indexDropKey other.key) db = none)

section

variable {index : Index} {db : Metadata} {P : Metadata → Prop}
  {Q : Metadata → Except DbError Unit → Prop}

theorem holds_update {f : Metadata → Except DbError Metadata} (hok : ∀ db', f db = .ok db' → P db' ∧ Q db' (.ok ()))
    (herror : ∀ e, f db = .error e → Q db (.error e)) : (update f db).Holds P Q := by
  unfold update
  cases hf : f db with
  | ok db' => exact hok db' hf
  | error e => exact herror e hf

/-! #### The names -/

@[simp] theorem key_ne_tips (index : Index) : index.key ≠ indexTipsBucketName := by
  cases index <;> decide

@[simp] theorem key_ne_idByHash (index : Index) : index.key ≠ idByHashIndexBucketName := by
  cases index <;> decide

@[simp] theorem key_ne_hashByID (index : Index) : index.key ≠ hashByIDIndexBucketName := by
  cases index <;> decide

@[simp] theorem dropKey_ne_key (index other : Index) : indexDropKey index.key ≠ other.key := by
  cases index <;> cases other <;> decide

theorem dropKey_inj {index other : Index} (h : other ≠ index) : indexDropKey other.key ≠ indexDropKey index.key := by
  cases index <;> cases other <;> first | exact absurd rfl h | decide

/-! #### The transactions -/

def SameBlockIDs (db db' : Metadata) : Prop :=
  db' idByHashIndexBucketName = db idByHashIndexBucketName ∧
    db' hashByIDIndexBucketName = db hashByIDIndexBucketName

theorem SameBlockIDs.hasBlockIDs {db' : Metadata} (h : SameBlockIDs db db') : HasBlockIDs db' ↔ HasBlockIDs db := by
  unfold HasBlockIDs
  rw [h.1, h.2]

theorem SameBlockIDs.trans {m db' : Metadata} (h : SameBlockIDs db m) (h' : SameBlockIDs m db') : SameBlockIDs db db' :=
  ⟨h'.1.trans h.1, h'.2.trans h.2⟩

theorem tipEntry_putBucket_tips (key : Bytes) (tips : Bucket) :
    tipEntry key (putBucket indexTipsBucketName tips db) = tips.lookup key := by
  simp [tipEntry, putBucket]

theorem tipEntry_of_eq {key : Bytes} {tips : Bucket} (h : db indexTipsBucketName = some tips) :
    tipEntry key db = tips.lookup key := by
  simp [tipEntry, h]

theorem Kept.exists_tips (h : Kept index db) : ∃ tips, db indexTipsBucketName = some tips := by
  have htip := h.tip
  unfold tipEntry at htip
  cases htips : db indexTipsBucketName with
  | none => simp [htips] at htip
  | some tips => exact ⟨tips, rfl⟩

theorem markDrop_ok (h : Kept index db) : ∃ db', markDrop index db = .ok db' ∧ Marked index db' ∧ SameBlockIDs db db' ∧
      db' index.key = db index.key := by
  obtain ⟨tips, htips⟩ := h.exists_tips
  refine ⟨_, by simp [markDrop, getBucket, htips]; rfl, ⟨⟨?_, ?_, ?_⟩, ?_⟩, ⟨?_, ?_⟩, ?_⟩
  · rw [tipEntry_putBucket_tips, AList.lookup_insert_ne (dropKey_ne_key index index).symm, ← tipEntry_of_eq htips]
    exact h.tip
  · simpa [putBucket] using h.bucket
  · intro other hne
    rw [tipEntry_putBucket_tips, AList.lookup_insert_ne (dropKey_inj hne), ← tipEntry_of_eq htips]
    exact h.others other hne
  · rw [tipEntry_putBucket_tips, AList.lookup_insert]
    rfl
  · exact update_of_ne (by decide) _ _
  · exact update_of_ne (by decide) _ _
  · exact update_of_ne (key_ne_tips index) _ _

theorem Marked.putBucket (h : Marked index db) (bucket : Bucket) :
    Marked index (Indexers.putBucket index.key bucket db) ∧
      SameBlockIDs db (Indexers.putBucket index.key bucket db) := by
  have htips : ∀ key, tipEntry key (Indexers.putBucket index.key bucket db) = tipEntry key db := by
    intro key
    unfold tipEntry Indexers.putBucket
    rw [update_of_ne (key_ne_tips index).symm]
  refine ⟨⟨⟨?_, ?_, ?_⟩, ?_⟩, ?_, ?_⟩
  · rw [htips]
    exact h.1.tip
  · simp [Indexers.putBucket]
  · intro other hne
    rw [htips]
    exact h.1.others other hne
  · rw [htips]
    exact h.2
  · exact update_of_ne (key_ne_idByHash index).symm _ _
  · exact update_of_ne (key_ne_hashByID index).symm _ _

theorem holds_deleteEntries (n : Nat) {bucket : Bucket} (h : Marked index db)
    (hbucket : db index.key = some bucket) (hn : bucket.entries.length < n) :
    (deleteEntries index n db).Holds (Marked index) (fun s r => r = .ok () ∧ Marked index s ∧
      SameBlockIDs db s ∧ ∃ rest, s index.key = some rest ∧ rest.entries = []) := by
  induction n generalizing db bucket with
  | zero => exact absurd hn (Nat.not_lt_zero _)
  | succ n ih =>
    unfold deleteEntries
    rw [LockM.get_bind]
    obtain ⟨hmarked, hids⟩ := h.putBucket (Bucket.dropEntries maxDeletions bucket)
    have hround : deleteRound index db =
        .ok (Indexers.putBucket index.key (Bucket.dropEntries maxDeletions bucket) db) := by
      simp [deleteRound, getBucket, hbucket]
    have hself : Indexers.putBucket index.key (Bucket.dropEntries maxDeletions bucket) db index.key =
        some (Bucket.dropEntries maxDeletions bucket) := update_self ..
    refine Resume.Holds.bind (Q := fun s r => r = .ok () ∧
      s = Indexers.putBucket index.key (Bucket.dropEntries maxDeletions bucket) db) ?_ ?_ ?_
    · refine holds_update (fun db' hdb' => ?_) fun e he => ?_
      · rw [hround] at hdb'
        cases hdb'
        exact ⟨hmarked, rfl, rfl⟩
      · rw [hround] at he
        cases he
    · rintro _ _ ⟨-, rfl⟩
      have hlen : (Bucket.dropEntries maxDeletions bucket).entries.length =
          bucket.entries.length - maxDeletions := length_drop
      have hpos : 0 < maxDeletions := by decide
      simp only [hbucket, Option.elim_some]
      split
      · -- a full round leaves a shorter bucket
        rename_i hfull
        have hle : maxDeletions ≤ bucket.entries.length := by omega
        refine (ih hmarked hself (by omega)).mono (fun _ h => h) fun s r hr => ?_
        exact ⟨hr.1, hr.2.1, hids.trans hr.2.2.1, hr.2.2.2⟩
      · rename_i hlast
        refine ⟨rfl, hmarked, hids, _, hself, eq_nil_of_length_eq_zero ?_⟩
        omega
    · rintro e s ⟨hr, -⟩
      cases hr

theorem deleteBucket_ok {name : Bytes} (h : (db name).isSome) :
    deleteBucket name db = .ok (Function.update db name none) := by
  unfold deleteBucket
  cases hb : db name with
  | none => simp [hb] at h
  | some bucket => rfl

theorem deleteBucket_error {name : Bytes} (h : db name = none) : deleteBucket name db = .error .bucketNotFound := by
  unfold deleteBucket
  rw [h]

theorem dropBlockIDIndex_ok (h : HasBlockIDs db) :
    dropBlockIDIndex db = .ok (Function.update (Function.update db idByHashIndexBucketName none)
      hashByIDIndexBucketName none) := by
  unfold dropBlockIDIndex
  rw [deleteBucket_ok h.1]
  refine deleteBucket_ok ?_
  rw [update_of_ne (by decide)]
  exact h.2

theorem dropBlockIDIndex_error (h : ¬ HasBlockIDs db) : dropBlockIDIndex db = .error .bucketNotFound := by
  unfold dropBlockIDIndex
  cases hid : db idByHashIndexBucketName with
  | none =>
    rw [deleteBucket_error hid]
    rfl
  | some bucket =>
    rw [deleteBucket_ok (by simp [hid])]
    refine deleteBucket_error ?_
    rw [update_of_ne (by decide)]
    cases hhash : db hashByIDIndexBucketName with
    | none => rfl
    | some other => exact absurd ⟨by simp [hid], by simp [hhash]⟩ h

theorem Marked.dropBlockIDs (h : Marked .tx db) :
    Marked .tx (Function.update (Function.update db idByHashIndexBucketName none) hashByIDIndexBucketName none) := by
  have htips : ∀ key, tipEntry key (Function.update (Function.update db idByHashIndexBucketName none)
      hashByIDIndexBucketName none) = tipEntry key db := by
    intro key
    unfold tipEntry
    rw [update_of_ne (by decide), update_of_ne (by decide)]
  refine ⟨⟨?_, ?_, ?_⟩, ?_⟩
  · rw [htips]
    exact h.1.tip
  · rw [update_of_ne (key_ne_hashByID .tx), update_of_ne (key_ne_idByHash .tx)]
    exact h.1.bucket
  · intro other hne
    rw [htips]
    exact h.1.others other hne
  · rw [htips]
    exact h.2

theorem holds_dropExtra (h : Marked index db) : (dropExtra index db).Holds (Marked index) (fun s r =>
      ((index = .tx → HasBlockIDs db) → r = .ok () ∧ Marked index s ∧ (index = .tx →
        s idByHashIndexBucketName = none ∧ s hashByIDIndexBucketName = none)) ∧
      (¬ (index = .tx → HasBlockIDs db) → ∃ e, r = .error e)) := by
  unfold dropExtra
  by_cases htx : index = .tx
  · subst htx
    rw [if_pos rfl]
    by_cases hids : HasBlockIDs db
    · refine holds_update (fun db' hdb' => ?_) fun e he => ?_
      · rw [dropBlockIDIndex_ok hids] at hdb'
        cases hdb'
        refine ⟨h.dropBlockIDs, fun _ => ⟨rfl, h.dropBlockIDs, fun _ => ⟨?_, ?_⟩⟩,
          fun hne => absurd (fun _ => hids) hne⟩
        · rw [update_of_ne (by decide), update_self]
        · rw [update_self]
      · rw [dropBlockIDIndex_ok hids] at he
        cases he
    · refine holds_update (fun db' hdb' => ?_) fun e _ => ?_
      · rw [dropBlockIDIndex_error hids] at hdb'
        cases hdb'
      · exact ⟨fun hall => absurd (hall rfl) hids, fun _ => ⟨e, rfl⟩⟩
  · rw [if_neg htx]
    exact ⟨fun _ => ⟨rfl, h, fun heq => absurd heq htx⟩, fun hne => absurd (fun heq => absurd heq htx) hne⟩

theorem removeIndex_ok (h : Marked index db) (hids : index = .tx →
    db idByHashIndexBucketName = none ∧ db hashByIDIndexBucketName = none) :
    ∃ db', removeIndex index db = .ok db' ∧ Gone index db' ∧
      ∀ other ≠ index, tipEntry (indexDropKey other.key) db' = none := by
  obtain ⟨tips, htips⟩ := h.1.exists_tips
  have hdelete : deleteBucket index.key
      (Indexers.putBucket indexTipsBucketName (tips.erase index.key) db) = .ok (Function.update
        (Indexers.putBucket indexTipsBucketName (tips.erase index.key) db) index.key none) := by
    refine deleteBucket_ok ?_
    unfold Indexers.putBucket
    rw [update_of_ne (key_ne_tips index)]
    exact h.1.bucket
  have hremove : removeIndex index db = .ok (Indexers.putBucket indexTipsBucketName
      ((tips.erase index.key).erase (indexDropKey index.key)) (Function.update
        (Indexers.putBucket indexTipsBucketName (tips.erase index.key) db) index.key none)) := by
    refine bind_eq_ok.mpr ⟨tips, by simp [getBucket, htips], ?_⟩
    exact bind_eq_ok.mpr ⟨_, hdelete, rfl⟩
  refine ⟨_, hremove, ⟨?_, ?_, ?_, ?_⟩, ?_⟩
  · rw [tipEntry_putBucket_tips, AList.lookup_erase_ne (dropKey_ne_key index index).symm, AList.lookup_erase]
  · rw [tipEntry_putBucket_tips, AList.lookup_erase]
  · unfold Indexers.putBucket
    rw [update_of_ne (key_ne_tips index), update_self]
  · intro htx
    unfold Indexers.putBucket
    rw [update_of_ne (by decide), update_of_ne (key_ne_idByHash index).symm, update_of_ne (by decide),
      update_of_ne (by decide), update_of_ne (key_ne_hashByID index).symm, update_of_ne (by decide)]
    exact hids htx
  · intro other hne
    rw [tipEntry_putBucket_tips, AList.lookup_erase_ne (dropKey_inj hne),
      AList.lookup_erase_ne (dropKey_ne_key other index), ← tipEntry_of_eq htips]
    exact h.1.others other hne

/-! #### The whole drop -/

/-- A drop of an index leaves only states from which it can be told to go on, and it succeeds if and only
if the buckets of the block IDs are there when it has to delete them. -/
theorem holds_dropIndex (h : Kept index db) : (dropIndex index db).Holds (Interrupted index) (fun s r =>
      ((index = .tx → HasBlockIDs db) → r = .ok () ∧ Gone index s) ∧
      (¬ (index = .tx → HasBlockIDs db) → ∃ e, r = .error e)) := by
  unfold dropIndex
  rw [LockM.get_bind, if_neg (by simp [Option.isNone_iff_eq_none, Option.isSome_iff_ne_none.mp h.tip])]
  obtain ⟨m, hmark, hmarked, hids, hsame⟩ := markDrop_ok h
  obtain ⟨bucket, hbucket⟩ := Option.isSome_iff_exists.mp h.bucket
  have hleft : ∀ s, Marked index s → Interrupted index s := fun _ hs => .inl hs
  refine Resume.Holds.bind (Q := fun s r => r = .ok () ∧ s = m) ?_ ?_ ?_
  · refine holds_update (fun db' hdb' => ?_) fun e he => ?_
    · rw [hmark] at hdb'
      cases hdb'
      exact ⟨hleft _ hmarked, rfl, rfl⟩
    · rw [hmark] at he
      cases he
  · rintro _ _ ⟨-, rfl⟩
    have hloop := holds_deleteEntries ((db index.key).elim 0 (·.entries.length) + 1) hmarked
      (hsame.trans hbucket) (by simp [hbucket])
    refine Resume.Holds.bind (hloop.mono hleft fun _ _ h => h) ?_ ?_
    · rintro _ s ⟨-, hs, hloopIDs, -⟩
      have hall : (index = .tx → HasBlockIDs s) ↔ (index = .tx → HasBlockIDs db) := by
        rw [(hids.trans hloopIDs).hasBlockIDs]
      refine Resume.Holds.bind ((holds_dropExtra hs).mono hleft fun _ _ h => h) ?_ ?_
      · rintro _ t ⟨hok, herror⟩
        rw [hall] at hok herror
        by_cases hcond : index = .tx → HasBlockIDs db
        · obtain ⟨-, ht, hnone⟩ := hok hcond
          obtain ⟨u, hremove, hgone, hothers⟩ := removeIndex_ok ht hnone
          refine holds_update (fun db' hdb' => ?_) fun e he => ?_
          · rw [hremove] at hdb'
            cases hdb'
            exact ⟨.inr ⟨hgone, hothers⟩, fun _ => ⟨rfl, hgone⟩, fun hne => absurd hcond hne⟩
          · rw [hremove] at he
            cases he
        · obtain ⟨e, he⟩ := herror hcond
          cases he
      · rintro e t ⟨hok, -⟩
        rw [hall] at hok
        refine ⟨fun hcond => ?_, fun _ => ⟨e, rfl⟩⟩
        obtain ⟨hr, -⟩ := hok hcond
        cases hr
    · rintro e s ⟨hr, -⟩
      cases hr
  · rintro e s ⟨hr, -⟩
    cases hr

/-! ### Finishing the drop -/

/-- What has been committed when a drop of an index is interrupted, and the starts of the node after it
too. -/
inductive InterruptedDrop (enabledIndexes : List Index) (index : Index) (db : Metadata) :
    Metadata → Prop
  | drop {m : Metadata} : m ∈ (dropIndex index db).commits → InterruptedDrop enabledIndexes index db m
  | resume {m m' : Metadata} : InterruptedDrop enabledIndexes index db m →
      m' ∈ (maybeFinishDrops enabledIndexes m).commits → InterruptedDrop enabledIndexes index db m'

variable {enabledIndexes : List Index} {m : Metadata}

theorem filter_marked (hindex : index ∈ enabledIndexes) (hnodup : enabledIndexes.Nodup)
    (hothers : ∀ other ≠ index, tipEntry (indexDropKey other.key) m = none) :
    (enabledIndexes.filter fun i => (tipEntry (indexDropKey i.key) m).isSome) =
      if (tipEntry (indexDropKey index.key) m).isSome then [index] else [] := by
  split
  · rename_i hmarked
    have hsame : (enabledIndexes.filter fun i => (tipEntry (indexDropKey i.key) m).isSome) =
        enabledIndexes.filter (· == index) := by
      refine filter_congr fun other _ => ?_
      by_cases heq : other = index
      · rw [heq, hmarked, beq_self_eq_true]
      · rw [hothers other heq, beq_eq_false_iff_ne.mpr heq]
        rfl
    rw [hsame, filter_beq, count_eq_one_of_mem hnodup hindex]
    rfl
  · rename_i hunmarked
    rw [filter_eq_nil_iff]
    intro other _ hmarked
    by_cases heq : other = index
    · exact hunmarked (heq ▸ hmarked)
    · rw [hothers other heq] at hmarked
      cases hmarked

theorem holds_maybeFinishDrops (hindex : index ∈ enabledIndexes) (hnodup : enabledIndexes.Nodup)
    (h : Interrupted index m) : (maybeFinishDrops enabledIndexes m).Holds (Interrupted index) (fun s r =>
      (((tipEntry (indexDropKey index.key) m).isSome → index = .tx → HasBlockIDs m) → r = .ok () ∧ Gone index s) ∧
      (¬ ((tipEntry (indexDropKey index.key) m).isSome → index = .tx → HasBlockIDs m) → ∃ e, r = .error e)) := by
  unfold maybeFinishDrops
  rw [LockM.get_bind]
  rcases h with ⟨hkept, hmarked⟩ | ⟨hgone, hothers⟩
  · rw [filter_marked hindex hnodup hkept.others, if_pos hmarked]
    simp only [hmarked, true_implies]
    refine Resume.Holds.bind (holds_dropIndex hkept) ?_ fun e s h => h
    exact fun _ s h => h
  · have hunmarked : ¬ (tipEntry (indexDropKey index.key) m).isSome = true := by
      rw [hgone.marker]
      exact Bool.false_ne_true
    rw [filter_marked hindex hnodup hothers, if_neg hunmarked]
    exact ⟨fun _ => ⟨rfl, hgone⟩, fun hne => absurd (fun hmarked => absurd hmarked hunmarked) hne⟩

theorem InterruptedDrop.interrupted (hkept : Kept index db) (hindex : index ∈ enabledIndexes)
    (hnodup : enabledIndexes.Nodup) (h : InterruptedDrop enabledIndexes index db m) : Interrupted index m := by
  induction h with
  | drop hm => exact (holds_dropIndex hkept).of_mem_commits hm
  | resume _ hm ih => exact (holds_maybeFinishDrops hindex hnodup ih).of_mem_commits hm

end

/-- A database with an empty index, its tip and the buckets of the block IDs. -/
def sampleDb (index : Index) : Metadata := fun name =>
  if name = indexTipsBucketName then some (AList.singleton index.key (List.replicate 36 0))
  else if name = index.key ∨ name = idByHashIndexBucketName ∨ name = hashByIDIndexBucketName then some ∅
  else none

theorem kept_sampleDb (index : Index) : Kept index (sampleDb index) := by
  refine ⟨?_, ?_, ?_⟩
  · cases index <;> rfl
  · cases index <;> rfl
  · intro other hne
    cases index <;> cases other <;> first | exact absurd rfl hne | rfl

end Indexers

end Prova
