import Prova.Chaincfg.SampleBlocks
import Prova.Wire.ReadBlock

/-!
# The transaction index (`blockchain/indexers/txindex.go`)

Every indexed block has a number, which the entries of its transactions refer to. The numbers are handed
out by a counter in memory; the mappings between blocks and numbers are in the database, and a start
recovers the counter from them. The manager calls the index inside a database transaction of the chain,
which may still fail afterwards: then the mappings are as before, but the counter is not.
-/

namespace Prova

namespace Indexers

open List Function Sample

/-! ### The index -/

structure TxIndexEntry where
  blockID : UInt32
  txStart : UInt32
  txLen : UInt32
deriving DecidableEq

/-- The buckets of the index with its tip. -/
structure TxIndexDb where
  txEntries : Hash → Option TxIndexEntry
  idByHash : Hash → Option UInt32
  hashByID : UInt32 → Option Hash
  tipHash : Hash
  tipHeight : Int32

/-- The index: the counter is in memory only. -/
structure TxIndex where
  db : TxIndexDb
  curBlockID : UInt32

inductive IndexError where
  | assertError
  | txNotFound
  | noBlockIDEntry
deriving DecidableEq

def putTxIndexEntry (c : Crypto) (blockID : UInt32) (db : TxIndexDb) (entry : MsgTx × TxLoc) :
    TxIndexDb :=
  let value := ⟨blockID, UInt32.ofNat entry.2.txStart, UInt32.ofNat entry.2.txLen⟩
  { db with txEntries := Function.update db.txEntries (entry.1.txHash c) (some value) }

/-- `dbAddTxIndexEntries`. -/
def addTxIndexEntries (c : Crypto) (block : MsgBlock) (blockID : UInt32) (db : TxIndexDb) :
    TxIndexDb :=
  (block.transactions.zip (txLoc block)).foldl (putTxIndexEntry c blockID) db

/-- `dbPutBlockIDIndexEntry`. -/
def putBlockIDIndexEntry (hash : Hash) (id : UInt32) (db : TxIndexDb) : TxIndexDb :=
  { db with
    idByHash := Function.update db.idByHash hash (some id)
    hashByID := Function.update db.hashByID id (some hash) }

/-- `dbRemoveTxIndexEntry`. -/
def removeTxIndexEntry (c : Crypto) (db : TxIndexDb) (tx : MsgTx) : Except IndexError TxIndexDb := do
  reject ((db.txEntries (tx.txHash c)).isNone) .txNotFound
  return { db with txEntries := Function.update db.txEntries (tx.txHash c) none }

/-- `dbRemoveTxIndexEntries`. -/
def removeTxIndexEntries (c : Crypto) (block : MsgBlock) (db : TxIndexDb) :
    Except IndexError TxIndexDb :=
  block.transactions.foldlM (removeTxIndexEntry c) db

/-- `dbRemoveBlockIDIndexEntry`. -/
def removeBlockIDIndexEntry (hash : Hash) (db : TxIndexDb) : TxIndexDb :=
  match db.idByHash hash with
  | none => db
  | some id =>
    { db with
      idByHash := Function.update db.idByHash hash none
      hashByID := Function.update db.hashByID id none }

namespace TxIndex

def connectBlock (c : Crypto) (block : MsgBlock) (idx : TxIndex) : TxIndex :=
  let newBlockID := idx.curBlockID + 1
  let db := addTxIndexEntries c block newBlockID idx.db
  ⟨putBlockIDIndexEntry (block.blockHash c) newBlockID db, newBlockID⟩

def disconnectBlock (c : Crypto) (block : MsgBlock) (idx : TxIndex) : Except IndexError TxIndex := do
  let db ← removeTxIndexEntries c block idx.db
  return ⟨removeBlockIDIndexEntry (block.blockHash c) db, idx.curBlockID - 1⟩

/-- `dbPutIndexerTip`. -/
def putTip (hash : Hash) (height : Int32) (idx : TxIndex) : TxIndex :=
  { idx with db := { idx.db with tipHash := hash, tipHeight := height } }

/-- `dbIndexConnectBlock`. -/
def indexConnectBlock (c : Crypto) (block : MsgBlock) (idx : TxIndex) : Except IndexError TxIndex := do
  reject (idx.db.tipHash ≠ block.header.prevBlock) .assertError
  return (idx.connectBlock c block).putTip (block.blockHash c) block.height.toInt32

/-- `dbIndexDisconnectBlock`. -/
def indexDisconnectBlock (c : Crypto) (block : MsgBlock) (idx : TxIndex) :
    Except IndexError TxIndex := do
  reject (idx.db.tipHash ≠ block.blockHash c) .assertError
  let idx ← idx.disconnectBlock c block
  return idx.putTip block.header.prevBlock (block.height.toInt32 - 1)

/-! ### Starting -/

/-- The scan in large steps for an ID that does not exist: the last one that does, and the first that
does not. -/
def scanForward (known : UInt32 → Bool) : Nat → UInt32 → UInt32 → Option (UInt32 × UInt32)
  | 0, _, _ => none
  | n + 1, highestKnown, testBlockID =>
    if known testBlockID then scanForward known n testBlockID (testBlockID + 100000)
    else some (highestKnown, testBlockID)

def binaryScan (known : UInt32 → Bool) : Nat → UInt32 → UInt32 → Option UInt32
  | 0, _, _ => none
  | n + 1, highestKnown, nextUnknown =>
    let testBlockID := (highestKnown + nextUnknown) / 2
    if known testBlockID then
      if testBlockID + 1 = nextUnknown then some testBlockID
      else binaryScan known n testBlockID nextUnknown
    else
      if highestKnown + 1 = testBlockID then some highestKnown
      else binaryScan known n highestKnown testBlockID

/-- `Init` of a new index value: the highest ID in the database. The loops of the source have no bound;
`none` is a search that has not ended. -/
def init (db : TxIndexDb) : Option UInt32 :=
  let known := fun id => (db.hashByID id).isSome
  match scanForward known (2 ^ 32) 0 1 with
  | none => none
  | some (highestKnown, nextUnknown) =>
    if nextUnknown = 1 then some 0 else binaryScan known (2 ^ 32) highestKnown nextUnknown

def created : TxIndex where
  db := {
    txEntries := fun _ => none
    idByHash := fun _ => none
    hashByID := fun _ => none
    tipHash := 0
    tipHeight := -1 }
  curBlockID := 0

end TxIndex

/-! ### Runs driven by the chain -/

/-- What happens to the index. A database transaction the index has taken part in may still be rolled
back. -/
inductive IndexEvent where
  | connect (block : MsgBlock) (committed : Bool)
  | disconnect (block : MsgBlock) (committed : Bool)
  | restart

/-- A block the chain can connect next to a main chain, oldest block first. -/
def NextBlock (c : Crypto) (main : List MsgBlock) (block : MsgBlock) : Prop :=
  (∀ last ∈ main.getLast?, block.header.prevBlock = last.blockHash c) ∧
    block.blockHash c ∉ main.map (·.blockHash c)

inductive IndexStep (c : Crypto) :
    List MsgBlock → TxIndex → IndexEvent → List MsgBlock → TxIndex → Prop
  | connect {main : List MsgBlock} {idx idx' : TxIndex} {block : MsgBlock} :
      NextBlock c main block → idx.indexConnectBlock c block = .ok idx' →
        IndexStep c main idx (.connect block true) (main ++ [block]) idx'
  | connectRolledBack {main : List MsgBlock} {idx idx' : TxIndex} {block : MsgBlock} :
      NextBlock c main block → idx.indexConnectBlock c block = .ok idx' →
        IndexStep c main idx (.connect block false) main ⟨idx.db, idx'.curBlockID⟩
  | disconnect {main : List MsgBlock} {idx idx' : TxIndex} {block : MsgBlock} :
      idx.indexDisconnectBlock c block = .ok idx' →
        IndexStep c (main ++ [block]) idx (.disconnect block true) main idx'
  | disconnectRolledBack {main : List MsgBlock} {idx idx' : TxIndex} {block : MsgBlock} :
      idx.indexDisconnectBlock c block = .ok idx' →
        IndexStep c (main ++ [block]) idx (.disconnect block false) (main ++ [block])
          ⟨idx.db, idx'.curBlockID⟩
  | restart {main : List MsgBlock} {idx : TxIndex} {curBlockID : UInt32} :
      TxIndex.init idx.db = some curBlockID →
        IndexStep c main idx .restart main ⟨idx.db, curBlockID⟩

/-- The runs from the creation of the index on whose events meet a condition. -/
inductive IndexRun (c : Crypto) (P : List MsgBlock → IndexEvent → Prop) :
    List MsgBlock → TxIndex → Prop
  | created : IndexRun c P [] TxIndex.created
  | step {main main' : List MsgBlock} {idx idx' : TxIndex} {event : IndexEvent} :
      IndexRun c P main idx → P main event → IndexStep c main idx event main' idx' →
        IndexRun c P main' idx'

/-! ### The block IDs of a run -/

/-- The numbers of the blocks of a main chain: the block at height `h` has number `h + 1`. -/
structure Numbered (c : Crypto) (main : List MsgBlock) (idx : TxIndex) : Prop where
  counter : idx.curBlockID.toNat = main.length
  nodup : (main.map (·.blockHash c)).Nodup
  hashByID : ∀ id hash, idx.db.hashByID id = some hash ↔
    0 < id.toNat ∧ (main.map (·.blockHash c))[id.toNat - 1]? = some hash
  idByHash : ∀ hash id, idx.db.idByHash hash = some id ↔
    0 < id.toNat ∧ (main.map (·.blockHash c))[id.toNat - 1]? = some hash

variable {c : Crypto} {main : List MsgBlock} {idx idx' : TxIndex} {block : MsgBlock}

theorem Numbered.congr (h : Numbered c main idx) (hcounter : idx'.curBlockID = idx.curBlockID)
    (hid : idx'.db.idByHash = idx.db.idByHash) (hhash : idx'.db.hashByID = idx.db.hashByID) : Numbered c main idx' :=
  ⟨hcounter ▸ h.counter, h.nodup, hhash ▸ h.hashByID, hid ▸ h.idByHash⟩

theorem numbered_created : Numbered c [] TxIndex.created :=
  ⟨rfl, nodup_nil, fun _ _ => by simp [TxIndex.created], fun _ _ => by simp [TxIndex.created]⟩

theorem addTxIndexEntries_ids (block : MsgBlock) (blockID : UInt32) (db : TxIndexDb) :
    (addTxIndexEntries c block blockID db).idByHash = db.idByHash ∧
      (addTxIndexEntries c block blockID db).hashByID = db.hashByID := by
  unfold addTxIndexEntries
  generalize block.transactions.zip (txLoc block) = entries
  induction entries generalizing db with
  | nil => exact ⟨rfl, rfl⟩
  | cons entry entries ih => exact ih (putTxIndexEntry c blockID db entry)

theorem removeTxIndexEntries_ids {db db' : TxIndexDb} (h : removeTxIndexEntries c block db = .ok db') :
    db'.idByHash = db.idByHash ∧ db'.hashByID = db.hashByID := by
  refine foldlM_invariant (fun s => s.idByHash = db.idByHash ∧ s.hashByID = db.hashByID) ?_ ⟨rfl, rfl⟩ h
  intro tx _ s t hs ht
  unfold removeTxIndexEntry at ht
  obtain ⟨u, -, ht⟩ := bind_eq_ok.mp ht
  cases ht
  exact hs

theorem getElem?_append_iff {hashes : List Hash} {x hash : Hash} {n : Nat} (hpos : 0 < n) :
    (hashes ++ [x])[n - 1]? = some hash ↔ hashes[n - 1]? = some hash ∨ n = hashes.length + 1 ∧ hash = x := by
  by_cases hlt : n - 1 < hashes.length
  · rw [getElem?_append_left hlt]
    refine (or_iff_left fun h => ?_).symm
    omega
  · rw [getElem?_append_right (Nat.not_lt.mp hlt), getElem?_eq_none (Nat.not_lt.mp hlt)]
    by_cases heq : n = hashes.length + 1
    · simp [heq, eq_comm]
    · have hne : n - 1 - hashes.length ≠ 0 := by omega
      obtain ⟨k, hk⟩ := Nat.exists_eq_succ_of_ne_zero hne
      simp [hk, heq]

theorem Numbered.connect (h : Numbered c main idx) (hlen : main.length + 1 < 2 ^ 32)
    (hnew : block.blockHash c ∉ main.map (·.blockHash c)) :
    Numbered c (main ++ [block]) (idx.connectBlock c block) := by
  obtain ⟨hids, hhashes⟩ := addTxIndexEntries_ids (c := c) block (idx.curBlockID + 1) idx.db
  have hid : (idx.curBlockID + 1).toNat = main.length + 1 := by
    rw [UInt32.toNat_add, h.counter]
    exact Nat.mod_eq_of_lt hlen
  have hlength : (main.map (·.blockHash c)).length = main.length := length_map ..
  refine ⟨?_, ?_, ?_, ?_⟩
  · rw [length_append]
    exact hid
  · rw [map_append, nodup_append]
    refine ⟨h.nodup, nodup_singleton _, ?_⟩
    intro x hx y hy heq
    rw [map_singleton, mem_singleton] at hy
    exact hnew (hy ▸ heq ▸ hx)
  · intro id hash
    change Function.update (addTxIndexEntries c block _ idx.db).hashByID (idx.curBlockID + 1)
      (some (block.blockHash c)) id = some hash ↔ _
    rw [hhashes, map_append, map_singleton]
    by_cases heq : id = idx.curBlockID + 1
    · subst heq
      rw [update_self, hid, Option.some.injEq]
      simp [eq_comm]
    · rw [update_of_ne heq, h.hashByID]
      refine and_congr_right fun hpos => ?_
      rw [getElem?_append_iff hpos, hlength]
      refine (or_iff_left fun hlast => heq ?_).symm
      exact UInt32.toNat_inj.mp (hlast.1.trans hid.symm)
  · intro hash id
    change Function.update (addTxIndexEntries c block _ idx.db).idByHash (block.blockHash c)
      (some (idx.curBlockID + 1)) hash = some id ↔ _
    rw [hids, map_append, map_singleton]
    by_cases heq : hash = block.blockHash c
    · subst heq
      rw [update_self, Option.some.injEq]
      constructor
      · rintro rfl
        rw [hid, getElem?_append_iff (Nat.succ_pos _), hlength]
        exact ⟨Nat.succ_pos _, .inr ⟨rfl, rfl⟩⟩
      · rintro ⟨hpos, hget⟩
        rw [getElem?_append_iff hpos, hlength] at hget
        rcases hget with hold | ⟨hlast, -⟩
        · exact absurd (mem_of_getElem? hold) hnew
        · exact UInt32.toNat_inj.mp (hid.trans hlast.symm)
    · rw [update_of_ne heq, h.idByHash]
      refine and_congr_right fun hpos => ?_
      rw [getElem?_append_iff hpos]
      exact (or_iff_left fun hlast => heq hlast.2).symm

theorem Numbered.disconnect (h : Numbered c (main ++ [block]) idx)
    (hrun : idx.disconnectBlock c block = .ok idx') : Numbered c main idx' := by
  unfold TxIndex.disconnectBlock at hrun
  obtain ⟨db, hdb, hrun⟩ := bind_eq_ok.mp hrun
  cases hrun
  obtain ⟨hids, hhashes⟩ := removeTxIndexEntries_ids hdb
  have hmap : (main ++ [block]).map (·.blockHash c) = main.map (·.blockHash c) ++ [block.blockHash c] := by
    rw [map_append, map_singleton]
  have hlength : (main.map (·.blockHash c)).length = main.length := length_map ..
  have hcounter : idx.curBlockID.toNat = main.length + 1 := by
    rw [h.counter, length_append]
    rfl
  have hnodup := h.nodup
  rw [hmap, nodup_append] at hnodup
  have hnew : block.blockHash c ∉ main.map (·.blockHash c) := fun hmem =>
    hnodup.2.2 _ hmem _ (mem_singleton_self _) rfl
  -- the block that goes has the number of the counter
  have hself : idx.db.idByHash (block.blockHash c) = some idx.curBlockID := by
    rw [h.idByHash, hmap, hcounter, getElem?_append_iff (Nat.succ_pos _), hlength]
    exact ⟨Nat.succ_pos _, .inr ⟨rfl, rfl⟩⟩
  have hremove : removeBlockIDIndexEntry (block.blockHash c) db =
      { db with
        idByHash := Function.update idx.db.idByHash (block.blockHash c) none
        hashByID := Function.update idx.db.hashByID idx.curBlockID none } := by
    unfold removeBlockIDIndexEntry
    rw [hids, hself, hhashes]
  rw [hremove]
  refine ⟨?_, hnodup.1, ?_, ?_⟩
  · change (idx.curBlockID - 1).toNat = main.length
    rw [UInt32.toNat_sub_of_le _ _ (by rw [UInt32.le_iff_toNat_le, hcounter]; exact Nat.succ_pos _), hcounter]
    rfl
  · intro id hash
    change Function.update idx.db.hashByID idx.curBlockID none id = some hash ↔ _
    by_cases heq : id = idx.curBlockID
    · subst heq
      rw [update_self, hcounter]
      simp
    · rw [update_of_ne heq, h.hashByID, hmap]
      refine and_congr_right fun hpos => ?_
      rw [getElem?_append_iff hpos, hlength]
      refine or_iff_left fun hlast => heq ?_
      exact UInt32.toNat_inj.mp (hlast.1.trans hcounter.symm)
  · intro hash id
    change Function.update idx.db.idByHash (block.blockHash c) none hash = some id ↔ _
    by_cases heq : hash = block.blockHash c
    · subst heq
      rw [update_self]
      simp only [reduceCtorEq, false_iff, not_and]
      exact fun _ hget => hnew (mem_of_getElem? hget)
    · rw [update_of_ne heq, h.idByHash, hmap]
      refine and_congr_right fun hpos => ?_
      rw [getElem?_append_iff hpos]
      exact or_iff_left fun hlast => heq hlast.2

/-! #### Recovering the counter -/

def KnownUpTo (known : UInt32 → Bool) (n : Nat) : Prop :=
  ∀ id, known id = true ↔ 0 < id.toNat ∧ id.toNat ≤ n

theorem Numbered.known (h : Numbered c main idx) : KnownUpTo (fun id => (idx.db.hashByID id).isSome) main.length := by
  intro id
  rw [Option.isSome_iff_exists]
  simp only [h.hashByID]
  rw [exists_and_left]
  refine and_congr_right fun hpos => ?_
  rw [← Option.isSome_iff_exists, Option.isSome_iff_ne_none, ne_eq, getElem?_eq_none_iff, length_map]
  omega

theorem scanForward_eq {known : UInt32 → Bool} {n : Nat} (hknown : KnownUpTo known n)
    (hbound : n + 100000 < 2 ^ 32) (fuel : Nat) (highestKnown testBlockID : UInt32)
    (hhighest : highestKnown.toNat ≤ n) (hpos : 0 < testBlockID.toNat)
    (hgap : testBlockID.toNat = 1 ∨ testBlockID.toNat = highestKnown.toNat + 100000)
    (hfuel : n + 1 < fuel + testBlockID.toNat) (hne : 0 < fuel) :
    ∃ h u, TxIndex.scanForward known fuel highestKnown testBlockID = some (h, u) ∧
      h.toNat ≤ n ∧ n < u.toNat ∧ (u.toNat = 1 ∨ u.toNat = h.toNat + 100000) := by
  induction fuel generalizing highestKnown testBlockID with
  | zero => exact absurd hne (Nat.lt_irrefl 0)
  | succ fuel ih =>
    unfold TxIndex.scanForward
    by_cases hk : known testBlockID = true
    · rw [if_pos hk]
      have hle := ((hknown testBlockID).mp hk).2
      have hnext : (testBlockID + 100000).toNat = testBlockID.toNat + 100000 := by
        rw [UInt32.toNat_add]
        exact Nat.mod_eq_of_lt (by simp; omega)
      exact ih _ _ hle (by omega) (.inr hnext) (by omega) (by omega)
    · rw [if_neg hk]
      refine ⟨_, _, rfl, hhighest, ?_, hgap⟩
      rw [hknown] at hk
      omega

theorem binaryScan_eq {known : UInt32 → Bool} {n : Nat} (hknown : KnownUpTo known n) (fuel : Nat)
    {highestKnown nextUnknown : UInt32} (hhighest : highestKnown.toNat ≤ n)
    (hnext : n < nextUnknown.toNat) (hapart : highestKnown.toNat + 1 < nextUnknown.toNat)
    (hbound : n + nextUnknown.toNat < 2 ^ 32) (hfuel : nextUnknown.toNat ≤ highestKnown.toNat + fuel) :
    ∃ id, TxIndex.binaryScan known fuel highestKnown nextUnknown = some id ∧ id.toNat = n := by
  induction fuel generalizing highestKnown nextUnknown with
  | zero => omega
  | succ fuel ih =>
    have hmid : ((highestKnown + nextUnknown) / 2).toNat =
        (highestKnown.toNat + nextUnknown.toNat) / 2 := by
      rw [UInt32.toNat_div, UInt32.toNat_add, Nat.mod_eq_of_lt (by omega)]
      rfl
    have hsucc : ∀ id : UInt32, id.toNat + 1 < 2 ^ 32 → (id + 1).toNat = id.toNat + 1 := by
      intro id hid
      rw [UInt32.toNat_add]
      exact Nat.mod_eq_of_lt hid
    unfold TxIndex.binaryScan
    simp only
    generalize (highestKnown + nextUnknown) / 2 = mid at hmid ⊢
    by_cases hk : known mid = true
    · rw [if_pos hk]
      have hle := ((hknown mid).mp hk).2
      split
      · rename_i hadj
        refine ⟨mid, rfl, ?_⟩
        have := hsucc mid (by omega)
        rw [hadj] at this
        omega
      · rename_i hadj
        have hfar : mid.toNat + 1 ≠ nextUnknown.toNat := by
          intro heq
          exact hadj (UInt32.toNat_inj.mp ((hsucc mid (by omega)).trans heq))
        exact ih hle hnext (by omega) (by omega) (by omega)
    · rw [if_neg hk]
      have hgt : n < mid.toNat := by
        rw [hknown] at hk
        omega
      split
      · rename_i hadj
        refine ⟨highestKnown, rfl, ?_⟩
        have := hsucc highestKnown (by omega)
        rw [hadj] at this
        omega
      · rename_i hadj
        have hfar : highestKnown.toNat + 1 ≠ mid.toNat := by
          intro heq
          exact hadj (UInt32.toNat_inj.mp ((hsucc highestKnown (by omega)).trans heq))
        exact ih hhighest hgt (by omega) (by omega) (by omega)

theorem Numbered.init (h : Numbered c main idx) (hbound : 2 * main.length + 100000 < 2 ^ 32) :
    ∃ id, TxIndex.init idx.db = some id ∧ id.toNat = main.length := by
  obtain ⟨lo, hi, hscan, hlo, hhi, hgap⟩ := scanForward_eq h.known (by omega) (2 ^ 32) 0 1
    (Nat.zero_le _) (by decide) (.inl rfl) (by simp; omega) (by decide)
  unfold TxIndex.init
  simp only [hscan]
  by_cases hone : hi = 1
  · rw [if_pos hone]
    refine ⟨0, rfl, ?_⟩
    rw [hone] at hhi
    exact (Nat.lt_one_iff.mp hhi).symm
  · rw [if_neg hone]
    have hfar : hi.toNat = lo.toNat + 100000 := by
      refine hgap.resolve_left fun heq => hone ?_
      exact UInt32.toNat_inj.mp heq
    exact binaryScan_eq h.known (2 ^ 32) hlo hhi (by omega) (by omega) (by omega)

/-- The events after which the numbering is still right: no transaction is rolled back behind the back
of the index, and there are not so many blocks that the numbers or their sums overflow. -/
def NumbersKept (main : List MsgBlock) : IndexEvent → Prop
  | .connect _ committed => committed = true ∧ main.length + 1 < 2 ^ 32
  | .disconnect _ committed => committed = true
  | .restart => 2 * main.length + 100000 < 2 ^ 32

theorem Numbered.step {main' : List MsgBlock} {event : IndexEvent} (h : Numbered c main idx)
    (hevent : NumbersKept main event) (hstep : IndexStep c main idx event main' idx') : Numbered c main' idx' := by
  cases hstep with
  | connect hnext hrun =>
    unfold TxIndex.indexConnectBlock at hrun
    obtain ⟨u, -, hrun⟩ := bind_eq_ok.mp hrun
    cases hrun
    exact (h.connect hevent.2 hnext.2).congr rfl rfl rfl
  | connectRolledBack => cases hevent.1
  | disconnect hrun =>
    unfold TxIndex.indexDisconnectBlock at hrun
    obtain ⟨u, -, hrun⟩ := bind_eq_ok.mp hrun
    obtain ⟨m, hm, hrun⟩ := bind_eq_ok.mp hrun
    cases hrun
    exact (h.disconnect hm).congr rfl rfl rfl
  | disconnectRolledBack => cases hevent
  | restart hinit =>
    obtain ⟨id, hid, hlen⟩ := h.init hevent
    cases hid.symm.trans hinit
    exact ⟨hlen, h.nodup, h.hashByID, h.idByHash⟩

theorem IndexRun.numbered (h : IndexRun c NumbersKept main idx) : Numbered c main idx := by
  induction h with
  | created => exact numbered_created
  | step _ hevent hstep ih => exact ih.step hevent hstep

/-- In every run without transactions rolled back behind the back of the index, the block IDs are the
numbers up to the counter, the two mappings are inverse to each other, and the block at height `h` of
the main chain has the ID `h + 1`. -/
theorem blockIDs_exact (h : IndexRun c NumbersKept main idx) :
    (∀ id, (idx.db.hashByID id).isSome ↔ 1 ≤ id ∧ id ≤ idx.curBlockID) ∧
    (∀ hash id, idx.db.idByHash hash = some id ↔ idx.db.hashByID id = some hash) ∧
    ∀ (height : Nat) (block : MsgBlock), main[height]? = some block →
      ∃ id, idx.db.idByHash (block.blockHash c) = some id ∧ id.toNat = height + 1 := by
  have hnum := h.numbered
  refine ⟨fun id => ?_, fun hash id => ?_, fun height block hblock => ?_⟩
  · rw [hnum.known id, ← hnum.counter, UInt32.le_iff_toNat_le, UInt32.le_iff_toNat_le]
    rfl
  · rw [hnum.idByHash, hnum.hashByID]
  · have hlt := (List.getElem?_eq_some_iff.mp hblock).1
    have hcounter := hnum.counter
    have hsize := idx.curBlockID.toNat_lt
    have hid : (UInt32.ofNat (height + 1)).toNat = height + 1 :=
      UInt32.toNat_ofNat_of_lt' (by rw [UInt32.size]; omega)
    refine ⟨UInt32.ofNat (height + 1), ?_, hid⟩
    rw [hnum.idByHash, hid]
    refine ⟨Nat.succ_pos _, ?_⟩
    rw [Nat.add_sub_cancel, getElem?_map, hblock]
    rfl

/-! #### The sample blocks -/

def sampleGenesis : MsgBlock := Sample.params.genesisBlock

def genesisIndexed : TxIndex :=
  (TxIndex.created.connectBlock Sample.crypto sampleGenesis).putTip
    (sampleGenesis.blockHash Sample.crypto) sampleGenesis.height.toInt32

theorem indexConnectBlock_genesis : TxIndex.created.indexConnectBlock crypto sampleGenesis = .ok genesisIndexed := rfl

theorem nextBlock_genesis : NextBlock crypto [] sampleGenesis :=
  ⟨fun _ hlast => absurd hlast (Option.not_mem_none _), not_mem_nil⟩

theorem blockIDs_exact_genesis :
    (∀ id, (genesisIndexed.db.hashByID id).isSome ↔ 1 ≤ id ∧ id ≤ genesisIndexed.curBlockID) ∧
    (∀ hash id, genesisIndexed.db.idByHash hash = some id ↔ genesisIndexed.db.hashByID id = some hash) ∧
    ∀ (height : Nat) (block : MsgBlock), [sampleGenesis][height]? = some block →
      ∃ id, genesisIndexed.db.idByHash (block.blockHash Sample.crypto) = some id ∧ id.toNat = height + 1 := by
  have hkept : NumbersKept [] (.connect sampleGenesis true) := ⟨rfl, by decide⟩
  have hstep := IndexStep.connect nextBlock_genesis indexConnectBlock_genesis
  exact blockIDs_exact (.step .created hkept hstep)

/-- `plainBlock` is connected in a transaction that is rolled back, and then again: it gets the number
after the one it was given first. -/
theorem blockIDs_gap : ∃ idx, IndexRun Sample.crypto (fun _ _ => True) [sampleGenesis, Sample.plainBlock] idx ∧
      idx.curBlockID = 3 ∧ idx.db.hashByID 2 = none ∧
      idx.db.idByHash (Sample.plainBlock.blockHash Sample.crypto) = some 3 := by
  have hgenesis : IndexRun crypto (fun _ _ => True) [sampleGenesis] genesisIndexed :=
    .step .created trivial (.connect nextBlock_genesis indexConnectBlock_genesis)
  have hnext : NextBlock crypto [sampleGenesis] plainBlock := by
    refine ⟨fun last hlast => ?_, by decide +kernel⟩
    cases hlast
    decide +kernel
  have htip : genesisIndexed.db.tipHash = plainBlock.header.prevBlock := by decide +kernel
  have hconnect : ∀ id, TxIndex.indexConnectBlock crypto plainBlock
      ⟨genesisIndexed.db, id⟩ = .ok ((TxIndex.connectBlock crypto plainBlock
        ⟨genesisIndexed.db, id⟩).putTip (plainBlock.blockHash crypto) plainBlock.height.toInt32) := by
    intro id
    refine bind_eq_ok.mpr ⟨(), reject_eq_ok.mpr ?_, rfl⟩
    exact not_not.mpr htip
  have hrolledBack := IndexRun.step hgenesis trivial (.connectRolledBack hnext (hconnect 1))
  refine ⟨_, .step hrolledBack trivial (.connect hnext (hconnect 2)), rfl, ?_, ?_⟩
  · decide
  · decide +kernel

end Indexers

end Prova
