import Prova.Indexers.AddrLevels

/-!
# Reading the entries of an address (`dbFetchAddrIndexEntries` of `blockchain/indexers/addrindex.go`)

Counted from the newest entry, only as many levels are read as the request needs. What it needs is the
sum of two 32-bit numbers: where the sum wraps, too few levels may be read.
-/

namespace Prova

namespace Indexers

open UInt32 List

def txEntrySize : Nat := 12

def serializeAddrIndexEntry (entry : TxIndexEntry) : Bytes :=
  leBytes 4 entry.blockID.toNat ++ leBytes 4 entry.txStart.toNat ++ leBytes 4 entry.txLen.toNat

structure BlockRegion where
  hash : Hash
  offset : UInt32
  len : UInt32
deriving DecidableEq

inductive FetchError
  | unexpectedEnd
  | blockHash (err : IndexError)
deriving DecidableEq

section

variable (fetchBlockHash : Bytes → Except IndexError Hash)

def deserializeAddrIndexEntry (serialized : Bytes) : Except FetchError BlockRegion :=
  if serialized.length < txEntrySize then .error .unexpectedEnd
  else
    match fetchBlockHash (serialized.take 4) with
    | .error e => .error (.blockHash e)
    | .ok hash => .ok {
        hash := hash
        offset := UInt32.ofNat (leNat ((serialized.drop 4).take 4))
        len := UInt32.ofNat (leNat ((serialized.drop 8).take 4)) }

/-- The loop over the levels, with the entries read so far. Their bytes are compared with those of
`wanted` entries. -/
def loadLevels {E : Type} (reverse : Bool) (wanted : Nat) : Levels E → List E → List E
  | [], loaded => loaded
  | data :: rest, loaded =>
    if (reverse = true ∧ wanted ≤ loaded.length) ∨ data = [] then loaded
    else loadLevels reverse wanted rest (data ++ loaded)

/-- The rest of `dbFetchAddrIndexEntries`, with the levels read. -/
def readLoaded (loaded : List TxIndexEntry) (numToSkip numRequested : UInt32) (reverse : Bool) :
    Except FetchError (List BlockRegion × UInt32) :=
  let serialized := loaded.flatMap serializeAddrIndexEntry
  let numEntries := UInt32.ofNat (serialized.length / txEntrySize)
  if numEntries ≤ numToSkip then .ok ([], numEntries)
  else if numRequested = 0 then .ok ([], numToSkip)
  else
    let available := numEntries - numToSkip
    let numToLoad := if numRequested < available then numRequested else available
    let offset := fun i : UInt32 =>
      if reverse then (numEntries - numToSkip - i - 1) * UInt32.ofNat txEntrySize
      else (numToSkip + i) * UInt32.ofNat txEntrySize
    ((List.range numToLoad.toNat).mapM fun i => deserializeAddrIndexEntry fetchBlockHash
      (serialized.drop (offset (UInt32.ofNat i)).toNat)).map fun results => (results, numToSkip)

def dbFetchAddrIndexEntries (levels : Levels TxIndexEntry) (numToSkip numRequested : UInt32) (reverse : Bool) :
    Except FetchError (List BlockRegion × UInt32) :=
  readLoaded fetchBlockHash (loadLevels reverse (numToSkip + numRequested).toNat levels []) numToSkip
    numRequested reverse

/-! ### What is asked for -/

def regionOf (entry : TxIndexEntry) : Except FetchError BlockRegion :=
  deserializeAddrIndexEntry fetchBlockHash (serializeAddrIndexEntry entry)

/-- The entries of an address from the oldest or from the newest one on. -/
def inOrder {E : Type} (entries : List E) (reverse : Bool) : List E := if reverse then entries.reverse else entries

/-- The levels that are read unless enough was read before. -/
def inUse {E : Type} (levels : Levels E) : Levels E := levels.takeWhile (· ≠ [])

/-- The regions of the entries from one position on, and how many entries were skipped. -/
def slice (entries : List TxIndexEntry) (numToSkip numRequested : UInt32) :
    Except FetchError (List BlockRegion × UInt32) :=
  (((entries.drop numToSkip.toNat).take numRequested.toNat).mapM (regionOf fetchBlockHash)).map
    fun results => (results, UInt32.ofNat (min numToSkip.toNat entries.length))

end

/-! ### The levels read -/

section

variable {E : Type}

theorem loadLevels_all (wanted : Nat) (levels : Levels E) (loaded : List E) :
    loadLevels false wanted levels loaded = fetchLevels levels ++ loaded := by
  induction levels generalizing loaded with
  | nil => rfl
  | cons data rest ih =>
    rw [loadLevels, fetchLevels]
    by_cases hdata : data = []
    · simp [hdata]
    · simp [hdata, ih]

theorem loadLevels_newest (wanted : Nat) (levels : Levels E) (loaded : List E) :
    ∃ older, fetchLevels levels ++ loaded = older ++ loadLevels true wanted levels loaded ∧
      (older = [] ∨ wanted ≤ (loadLevels true wanted levels loaded).length) := by
  induction levels generalizing loaded with
  | nil => exact ⟨[], rfl, .inl rfl⟩
  | cons data rest ih =>
    rw [loadLevels, fetchLevels]
    by_cases hdata : data = []
    · exact ⟨[], by simp [hdata], .inl rfl⟩
    by_cases hwanted : wanted ≤ loaded.length
    · exact ⟨fetchLevels rest ++ data, by simp [hdata, hwanted], .inr (by simp [hwanted])⟩
    · obtain ⟨older, heq, hlen⟩ := ih (data ++ loaded)
      refine ⟨older, ?_, ?_⟩
      · simpa [hdata, hwanted] using heq
      · simpa [hdata, hwanted] using hlen

/-- All levels in use are read if those before the last one have fewer entries than are wanted. -/
theorem loadLevels_eq_iff (wanted : Nat) (levels : Levels E) (loaded : List E) :
    loadLevels true wanted levels loaded = fetchLevels levels ++ loaded ↔ (inUse levels ≠ [] →
      loaded.length + ((inUse levels).dropLast.map List.length).sum < wanted) := by
  induction levels generalizing loaded with
  | nil => simp [loadLevels, fetchLevels, inUse]
  | cons data rest ih =>
    rw [loadLevels, fetchLevels]
    by_cases hdata : data = []
    · simp [hdata, inUse]
    have huse : inUse (data :: rest) = data :: inUse rest := by simp [inUse, hdata]
    rw [if_neg (mt List.isEmpty_iff.mp hdata), append_assoc]
    by_cases hwanted : wanted ≤ loaded.length
    · rw [if_pos (.inl ⟨rfl, hwanted⟩)]
      refine iff_of_false (fun heq => hdata ?_) fun h => ?_
      · have hlen := congrArg List.length heq
        rw [length_append, length_append] at hlen
        exact eq_nil_of_length_eq_zero (by omega)
      · have := h (by simp [huse])
        omega
    · rw [if_neg (by simp [hwanted, hdata]), ih, huse]
      cases inUse rest with
      | nil => simpa using Nat.not_le.mp hwanted
      | cons next older => simp [Nat.add_left_comm, Nat.add_assoc]

end

/-! ### Entries in the bytes -/

variable {fetchBlockHash : Bytes → Except IndexError Hash} {entries : List TxIndexEntry}

@[simp] theorem length_serializeAddrIndexEntry (entry : TxIndexEntry) :
    (serializeAddrIndexEntry entry).length = txEntrySize := by
  simp [serializeAddrIndexEntry, txEntrySize]

theorem length_flatMap_serialize (entries : List TxIndexEntry) :
    (entries.flatMap serializeAddrIndexEntry).length = entries.length * txEntrySize := by
  simp [length_flatMap]

theorem drop_flatMap_serialize (entries : List TxIndexEntry) (i : Nat) :
    (entries.flatMap serializeAddrIndexEntry).drop (i * txEntrySize) =
      (entries.drop i).flatMap serializeAddrIndexEntry := by
  induction i generalizing entries with
  | zero => simp
  | succ i ih =>
    cases entries with
    | nil => simp
    | cons entry entries =>
      rw [flatMap_cons, Nat.succ_mul, Nat.add_comm, ← drop_drop,
        drop_left' (length_serializeAddrIndexEntry entry), ih, drop_succ_cons]

theorem deserialize_append (entry : TxIndexEntry) (rest : Bytes) :
    deserializeAddrIndexEntry fetchBlockHash (serializeAddrIndexEntry entry ++ rest) =
      regionOf fetchBlockHash entry := by
  have htake : ∀ k ≤ txEntrySize,
      (serializeAddrIndexEntry entry ++ rest).take k = (serializeAddrIndexEntry entry).take k :=
    fun k hk => take_append_of_le_length (by rwa [length_serializeAddrIndexEntry])
  have hfour := htake 4 (by decide)
  have height := htake 8 (by decide)
  have htwelve := htake 12 (by decide)
  have hlen : txEntrySize ≤ (serializeAddrIndexEntry entry ++ rest).length := by simp
  rw [regionOf, deserializeAddrIndexEntry, deserializeAddrIndexEntry, if_neg (not_lt.mpr hlen), if_neg (by simp)]
  simp only [take_drop, hfour, height, htwelve]

theorem deserialize_drop {i : Nat} (hi : i < entries.length) :
    deserializeAddrIndexEntry fetchBlockHash ((entries.flatMap serializeAddrIndexEntry).drop (i * txEntrySize)) =
      regionOf fetchBlockHash entries[i] := by
  rw [drop_flatMap_serialize, drop_eq_getElem_cons hi, flatMap_cons, deserialize_append]

theorem mapM_range_eq {α β : Type} {l : List α} {f : Nat → Except FetchError β} {g : α → Except FetchError β}
    (h : ∀ i (hi : i < l.length), f i = g l[i]) : (List.range l.length).mapM f = l.mapM g := by
  induction l generalizing f with
  | nil => rfl
  | cons a l ih =>
    rw [length_cons, range_succ_eq_map, mapM_cons, mapM_cons, mapM_map,
      ih (f := f ∘ Nat.succ) fun i hi => h (i + 1) (Nat.succ_lt_succ hi)]
    rw [h 0 (Nat.succ_pos _)]
    rfl

theorem toNat_mul_txEntrySize {a : UInt32} {p : Nat} (ha : a.toNat = p) (hp : p * 12 < 2 ^ 32) :
    (a * UInt32.ofNat txEntrySize).toNat = p * txEntrySize := by
  rw [UInt32.toNat_mul, ha]
  exact Nat.mod_eq_of_lt hp

theorem readLoaded_eq_slice (hbytes : entries.length * txEntrySize < 2 ^ 32) (numToSkip numRequested : UInt32)
    (reverse : Bool) : readLoaded fetchBlockHash entries numToSkip numRequested reverse =
      slice fetchBlockHash (inOrder entries reverse) numToSkip numRequested := by
  have hlen : entries.length * 12 < 2 ^ 32 := hbytes
  have horder : (inOrder entries reverse).length = entries.length := by
    unfold inOrder
    split <;> simp
  have hcount : (entries.flatMap serializeAddrIndexEntry).length / txEntrySize = entries.length := by
    rw [length_flatMap_serialize, Nat.mul_div_cancel _ (by decide)]
  have hnum : (UInt32.ofNat entries.length).toNat = entries.length := toNat_ofNat_of_lt' (show _ < 2 ^ 32 by omega)
  unfold readLoaded slice
  simp only [hcount, horder]
  by_cases hskip : UInt32.ofNat entries.length ≤ numToSkip
  · rw [le_iff_toNat_le, hnum] at hskip
    rw [if_pos (le_iff_toNat_le.mpr (hnum.le.trans hskip)), drop_of_length_le (horder.le.trans hskip),
      take_nil, Nat.min_eq_right hskip]
    rfl
  rw [if_neg hskip]
  rw [le_iff_toNat_le, hnum, not_le] at hskip
  rw [Nat.min_eq_left hskip.le, UInt32.ofNat_toNat]
  by_cases hreq : numRequested = 0
  · rw [if_pos hreq, hreq]
    rfl
  rw [if_neg hreq]
  have havail : (UInt32.ofNat entries.length - numToSkip).toNat = entries.length - numToSkip.toNat := by
    rw [UInt32.toNat_sub, hnum]
    omega
  have hload : (if numRequested < UInt32.ofNat entries.length - numToSkip then numRequested
      else UInt32.ofNat entries.length - numToSkip).toNat =
        (((inOrder entries reverse).drop numToSkip.toNat).take numRequested.toNat).length := by
    rw [length_take, length_drop, horder, apply_ite UInt32.toNat, havail]
    simp only [lt_iff_toNat_lt, havail]
    split <;> omega
  rw [hload, mapM_range_eq]
  intro i hi
  rw [length_take, length_drop, horder] at hi
  have hindex : (UInt32.ofNat i).toNat = i := toNat_ofNat_of_lt' (show _ < 2 ^ 32 by omega)
  rw [getElem_take, getElem_drop]
  cases reverse with
  | false =>
    have hoffset : (numToSkip + UInt32.ofNat i).toNat = numToSkip.toNat + i := by
      rw [UInt32.toNat_add, hindex]
      omega
    simp only [Bool.false_eq_true, if_false, inOrder]
    rw [toNat_mul_txEntrySize hoffset (by omega), deserialize_drop]
  | true =>
    have hoffset : (UInt32.ofNat entries.length - numToSkip - UInt32.ofNat i - 1).toNat =
        entries.length - 1 - (numToSkip.toNat + i) := by
      rw [UInt32.toNat_sub, UInt32.toNat_sub, havail, hindex, toNat_one]
      omega
    simp only [if_true, inOrder, getElem_reverse]
    rw [toNat_mul_txEntrySize hoffset (by omega), deserialize_drop]

/-! ### The answer -/

theorem slice_eq_ok (hknown : ∀ entry ∈ entries, (regionOf fetchBlockHash entry).isOk) (numToSkip numRequested : UInt32) :
    ∃ results, slice fetchBlockHash entries numToSkip numRequested =
        .ok (results, UInt32.ofNat (min numToSkip.toNat entries.length)) ∧
      results.length = min numRequested.toNat (entries.length - numToSkip.toNat) := by
  have hmapM : ∀ {l : List TxIndexEntry}, (∀ entry ∈ l, (regionOf fetchBlockHash entry).isOk) →
      ∃ results, l.mapM (regionOf fetchBlockHash) = .ok results ∧ results.length = l.length := by
    intro l hl
    induction l with
    | nil => exact ⟨[], rfl, rfl⟩
    | cons entry l ih =>
      rw [forall_mem_cons] at hl
      obtain ⟨region, hregion⟩ := exists_ok_of_isOk hl.1
      obtain ⟨results, hresults, hlen⟩ := ih hl.2
      refine ⟨region :: results, ?_, by rw [length_cons, length_cons, hlen]⟩
      rw [mapM_cons, hregion, hresults]
      rfl
  obtain ⟨results, hresults, hlen⟩ := hmapM fun entry hentry =>
    hknown entry (mem_of_mem_drop (mem_of_mem_take hentry))
  refine ⟨results, ?_, by rw [hlen, length_take, length_drop]⟩
  rw [slice, hresults]
  rfl

/-- The answer is right unless the sum of the two numbers wraps and leaves some level out. -/
theorem dbFetchAddrIndexEntries_slice_iff {levels : Levels TxIndexEntry} {numToSkip numRequested : UInt32}
    {reverse : Bool} (hbytes : (fetchLevels levels).length * txEntrySize < 2 ^ 32)
    (hknown : ∀ entry ∈ fetchLevels levels, (regionOf fetchBlockHash entry).isOk) :
    dbFetchAddrIndexEntries fetchBlockHash levels numToSkip numRequested reverse =
        slice fetchBlockHash (inOrder (fetchLevels levels) reverse) numToSkip numRequested ↔
      (reverse = true → 2 ^ 32 ≤ numToSkip.toNat + numRequested.toNat → inUse levels ≠ [] →
        ((inUse levels).dropLast.map List.length).sum < (numToSkip + numRequested).toNat) := by
  unfold dbFetchAddrIndexEntries
  cases reverse with
  | false =>
    rw [loadLevels_all, append_nil, readLoaded_eq_slice hbytes]
    simp
  | true =>
    have hall := loadLevels_eq_iff (numToSkip + numRequested).toNat levels []
    rw [length_nil, Nat.zero_add, append_nil] at hall
    rw [← hall]
    obtain ⟨older, hsplit, hwanted⟩ := loadLevels_newest (numToSkip + numRequested).toNat levels []
    rw [append_nil] at hsplit
    generalize loadLevels true (numToSkip + numRequested).toNat levels [] = loaded at hsplit hwanted ⊢
    rw [hsplit] at hbytes hknown ⊢
    have hlen : (older.length + loaded.length) * 12 < 2 ^ 32 := length_append ▸ hbytes
    rw [readLoaded_eq_slice (show _ * 12 < _ by omega)]
    simp only [inOrder, if_true, reverse_append, true_imp_iff]
    by_cases hwrap : 2 ^ 32 ≤ numToSkip.toNat + numRequested.toNat
    · have hloaded : ∀ entry ∈ loaded.reverse, (regionOf fetchBlockHash entry).isOk := fun entry hentry =>
        hknown entry (mem_append_right _ (mem_reverse.mp hentry))
      have hboth : ∀ entry ∈ loaded.reverse ++ older.reverse, (regionOf fetchBlockHash entry).isOk := fun entry hentry =>
        hknown entry (by simpa [or_comm] using hentry)
      obtain ⟨few, hfew, hfewLen⟩ := slice_eq_ok hloaded numToSkip numRequested
      obtain ⟨all, hall, hallLen⟩ := slice_eq_ok hboth numToSkip numRequested
      simp only [hwrap, true_imp_iff]
      constructor
      · intro heq
        -- as many as there are were asked for, so the answers count all entries
        rw [hfew, hall, Except.ok.injEq, Prod.mk.injEq, ← UInt32.toNat_inj] at heq
        obtain ⟨rfl, hskipped⟩ := heq
        rw [length_append, length_reverse, length_reverse] at hskipped hallLen
        rw [length_reverse] at hfewLen
        rw [toNat_ofNat_of_lt' (show _ < 2 ^ 32 by omega),
          toNat_ofNat_of_lt' (show _ < 2 ^ 32 by omega)] at hskipped
        have hnone : older.length = 0 := by omega
        rw [length_eq_zero_iff.mp hnone, nil_append]
      · intro heq
        rw [← reverse_append, ← heq]
    · refine iff_of_true ?_ fun h => absurd h hwrap
      rcases hwanted with rfl | hwanted
      · rw [reverse_nil, append_nil]
      · have hsum : (numToSkip + numRequested).toNat = numToSkip.toNat + numRequested.toNat := by
          rw [UInt32.toNat_add]
          omega
        rw [hsum] at hwanted
        have hdrop : numToSkip.toNat ≤ loaded.reverse.length := by
          rw [length_reverse]
          omega
        have htake : numRequested.toNat ≤ (loaded.reverse.drop numToSkip.toNat).length := by
          rw [length_drop, length_reverse]
          omega
        rw [slice, slice, drop_append_of_le_length hdrop, take_append_of_le_length htake,
          length_append, Nat.min_eq_left hdrop, Nat.min_eq_left (hdrop.trans (Nat.le_add_right _ _))]

def twoEntries : Levels TxIndexEntry := [[⟨1, 81, 100⟩, ⟨2, 81, 120⟩]]

def sampleBlockHash (serializedID : Bytes) : Except IndexError Hash := .ok (BitVec.ofNat 256 (leNat serializedID))

theorem fetch_newest_twoEntries :
    dbFetchAddrIndexEntries sampleBlockHash twoEntries 1 1 true = .ok ([⟨1, 81, 100⟩], 1) := by
  have hslice := @dbFetchAddrIndexEntries_slice_iff sampleBlockHash twoEntries 1 1 true (by decide) (by decide)
  rw [hslice.mpr fun _ h => absurd h (by decide)]
  decide

/-- Skipping one and asking for all that a request can name reads no level at all. -/
theorem fetch_wrapped_twoEntries : dbFetchAddrIndexEntries sampleBlockHash twoEntries 1 0xffffffff true = .ok ([], 0) ∧
      slice sampleBlockHash (inOrder (fetchLevels twoEntries) true) 1 0xffffffff = .ok ([⟨1, 81, 100⟩], 1) := by
  decide

end Indexers

end Prova
