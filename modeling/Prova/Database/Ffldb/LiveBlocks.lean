import Prova.Database.Ffldb.BlockStore
import Mathlib.Data.List.Induction

/-!
# Live blocks stay readable

A block is live from when it was written until the files are rolled back to a point before its end. The
live blocks stand before the write cursor, each with its whole record, and no two of them share a byte.
Writing behind the cursor, cutting behind it and deleting later files keep them.
-/

namespace Prova

open UInt32 List

variable {loc : BlockLocation} {s : BlockStore} {rawBlock : Bytes} {file : Nat}

namespace Ffldb

/-! ### The record of a block -/

def recordBody (network : UInt32) (rawBlock : Bytes) : Bytes :=
  leBytes 4 network.toNat ++ leBytes 4 (UInt32.ofNat rawBlock.length).toNat ++ rawBlock

def record (network : UInt32) (rawBlock : Bytes) : Bytes :=
  recordBody network rawBlock ++ beBytes 4 (crcChecksum (recordBody network rawBlock)).toNat

@[simp] theorem length_recordBody (network : UInt32) (rawBlock : Bytes) :
    (recordBody network rawBlock).length = rawBlock.length + 8 := by
  rw [recordBody, length_append, length_append, length_leBytes, length_leBytes]
  omega

@[simp] theorem length_record (network : UInt32) (rawBlock : Bytes) :
    (record network rawBlock).length = rawBlock.length + 12 := by
  rw [record, length_append, length_recordBody, length_beBytes]

theorem checkRecord_record (network : UInt32) (rawBlock : Bytes) :
    checkRecord network (record network rawBlock) = .ok rawBlock := by
  have hcut : rawBlock.length + 12 - 4 = (recordBody network rawBlock).length := by
    rw [length_recordBody]
    omega
  have hbody : (record network rawBlock).take (rawBlock.length + 12 - 4) = recordBody network rawBlock := by
    rw [hcut, record, take_left]
  have hsum : (record network rawBlock).drop (rawBlock.length + 12 - 4) =
      beBytes 4 (crcChecksum (recordBody network rawBlock)).toNat := by
    rw [hcut, record, drop_left]
  have hnet : (record network rawBlock).take 4 = leBytes 4 network.toNat := by
    rw [record, recordBody, append_assoc, append_assoc, take_left' (length_leBytes 4 _)]
  have hraw : (recordBody network rawBlock).drop 8 = rawBlock := by
    rw [recordBody, drop_left' (by rw [length_append, length_leBytes, length_leBytes])]
  rw [checkRecord]
  simp only [length_record, hbody, hsum, hnet, hraw, leNat_uint32, beNat_uint32]
  rw [reject, if_neg (by omega), reject, if_neg (not_not.mpr rfl), reject, if_neg (not_not.mpr rfl), reject,
    if_neg (by omega)]
  rfl

/-! ### Live blocks -/

namespace BlockLocation

def Before (loc : BlockLocation) (fileNum : UInt32) (offset : Nat) : Prop :=
  loc.blockFileNum < fileNum ∨
    loc.blockFileNum = fileNum ∧ loc.fileOffset.toNat + loc.blockLen.toNat ≤ offset

instance (loc : BlockLocation) (fileNum : UInt32) (offset : Nat) : Decidable (loc.Before fileNum offset) :=
  inferInstanceAs (Decidable (_ ∨ _))

def Apart (loc loc' : BlockLocation) : Prop :=
  loc.blockFileNum = loc'.blockFileNum →
    loc.fileOffset.toNat + loc.blockLen.toNat ≤ loc'.fileOffset.toNat ∨
      loc'.fileOffset.toNat + loc'.blockLen.toNat ≤ loc.fileOffset.toNat

theorem Before.apart {loc' : BlockLocation} (h : loc.Before loc'.blockFileNum loc'.fileOffset.toNat) :
    loc'.Apart loc := by
  intro hfile
  rcases h with hlt | ⟨-, hle⟩
  · rw [hfile] at hlt
    exact absurd hlt (UInt32.lt_irrefl _)
  · exact .inr hle

end BlockLocation

/-- Blocks with the locations under which they were stored. -/
abbrev Blocks := List (BlockLocation × Bytes)

/-- The blocks stand on the disk before a point of the files, without a common byte. -/
structure Intact (network : UInt32) (disk : Volume UInt32) (live : Blocks) (fileNum : UInt32) (offset : Nat) :
    Prop where
  before : ∀ b ∈ live, b.1.Before fileNum offset
  length : ∀ b ∈ live, b.1.blockLen.toNat = b.2.length + 12
  stored : ∀ b ∈ live, disk.Stores b.1.blockFileNum b.1.fileOffset.toNat (record network b.2)
  apart : live.Pairwise fun b b' => b.1.Apart b'.1

namespace Intact

variable {network fileNum : UInt32} {disk : Volume UInt32} {live : Blocks} {offset : Nat}

theorem nil : Intact network disk [] fileNum offset :=
  ⟨by simp, by simp, by simp, .nil⟩

theorem mono (h : Intact network disk live fileNum offset) {offset' : Nat} (hle : offset ≤ offset') :
    Intact network disk live fileNum offset' :=
  { h with before := fun b hb => (h.before b hb).imp_right fun hend => ⟨hend.1, hend.2.trans hle⟩ }

theorem nextFile (h : Intact network disk live fileNum offset) (hfits : fileNum.toNat + 1 < 2 ^ 32) :
    Intact network disk live (fileNum + 1) 0 := by
  have hnext : (fileNum + 1).toNat = fileNum.toNat + 1 := by
    rw [UInt32.toNat_add]
    exact Nat.mod_eq_of_lt hfits
  refine { h with before := fun b hb => .inl (lt_iff_toNat_lt.mpr ?_) }
  rw [hnext]
  rcases h.before b hb with hlt | ⟨heq, -⟩
  · exact Nat.lt_succ_of_lt (lt_iff_toNat_lt.mp hlt)
  · rw [heq]
    exact Nat.lt_succ_self _

theorem of_stored (h : Intact network disk live fileNum offset) {disk' : Volume UInt32}
    (hstored : ∀ b ∈ live, b.1.Before fileNum offset →
      disk.Stores b.1.blockFileNum b.1.fileOffset.toNat (record network b.2) →
      disk'.Stores b.1.blockFileNum b.1.fileOffset.toNat (record network b.2)) :
    Intact network disk' live fileNum offset :=
  { h with stored := fun b hb => hstored b hb (h.before b hb) (h.stored b hb) }

theorem openWrite (h : Intact network disk live fileNum offset) (name : UInt32) :
    Intact network (disk.openWrite name).2 live fileNum offset :=
  h.of_stored fun _ _ _ hstored => hstored.openWrite name

theorem remove (h : Intact network disk live fileNum offset) {name : UInt32} (hlt : fileNum < name) :
    Intact network (disk.remove name) live fileNum
  offset := by
  refine h.of_stored fun b _ hbefore hstored => hstored.remove fun heq => ?_
  rcases hbefore with hearlier | ⟨hsame, -⟩
  · exact UInt32.lt_irrefl _ (UInt32.lt_trans (heq ▸ hearlier) hlt)
  · exact UInt32.lt_irrefl _ (hsame ▸ heq ▸ hlt)

theorem modify (h : Intact network disk live fileNum offset) (hfile : disk.dir fileNum = some file) {f : Bytes → Bytes}
    (hf : ∀ content start data, start + data.length ≤ offset → File.Has content start data →
      File.Has (f content) start data) : Intact network (disk.modify file f) live fileNum
  offset := by
  refine h.of_stored fun b hb hbefore hstored => hstored.modify hfile fun heq content hhas => ?_
  rcases hbefore with hearlier | ⟨-, hend⟩
  · rw [heq] at hearlier
    exact absurd hearlier (UInt32.lt_irrefl _)
  · refine hf content _ _ ?_ hhas
    rw [length_record, ← h.length b hb]
    exact hend

theorem filter (h : Intact network disk live fileNum offset) (fileNum' : UInt32) (offset' : Nat) :
    Intact network disk (live.filter fun b => b.1.Before fileNum' offset') fileNum' offset' where
  before _ hb := of_decide_eq_true (mem_filter.mp hb).2
  length b hb := h.length b (mem_filter.mp hb).1
  stored b hb := h.stored b (mem_filter.mp hb).1
  apart := h.apart.filter _

theorem cons (h : Intact network disk live fileNum offset) (hfile : loc.blockFileNum = fileNum)
    (hoffset : loc.fileOffset.toNat = offset) (hlength : loc.blockLen.toNat = rawBlock.length + 12)
    (hstored : disk.Stores fileNum offset (record network rawBlock)) :
    Intact network disk ((loc, rawBlock) :: live) fileNum (offset + (rawBlock.length + 12)) where
  before b hb := by
    rcases mem_cons.mp hb with rfl | hb
    · exact .inr ⟨hfile, by rw [hoffset, hlength]⟩
    · exact (h.mono (Nat.le_add_right _ _)).before b hb
  length b hb := by
    rcases mem_cons.mp hb with rfl | hb
    · exact hlength
    · exact h.length b hb
  stored b hb := by
    rcases mem_cons.mp hb with rfl | hb
    · rw [hfile, hoffset]
      exact hstored
    · exact h.stored b hb
  apart := by
    refine .cons (fun b hb => BlockLocation.Before.apart ?_) h.apart
    rw [hfile, hoffset]
    exact h.before b hb

end Intact

/-- The files that the store holds open are those of the directory, and the live blocks stand before the
write cursor. -/
structure Holds (s : BlockStore) (live : Blocks) : Prop where
  cur : ∀ {file}, s.curFile = some file → s.disk.dir s.curFileNum = some file
  cached : ∀ {fileNum file}, (fileNum, file) ∈ s.openBlocks → s.disk.dir fileNum = some file
  intact : Intact s.network s.disk live s.curFileNum s.curOffset.toNat

/-! ### Reading -/

theorem readBlock_eq_ok {t : BlockStore} {io : ReadFaults}
    (hopen : blockFile loc.blockFileNum io.openFails s = .ok file t)
    (hread : readRecord t file loc io.readFails = .ok rawBlock) : readBlock loc io s = .ok rawBlock t := by
  unfold readBlock
  refine run_bind_eq_ok.mpr ⟨file, t, hopen, ?_⟩
  rw [run_get_bind, hread]
  rfl

namespace Holds

variable {s : BlockStore} {live : Blocks}

theorem lookup (h : Holds s live) {fileNum : UInt32} (hlookup : s.openBlocks.lookup fileNum = some file) :
    s.disk.dir fileNum = some
  file := by
  obtain ⟨before, after, heq, -⟩ := lookup_eq_some_iff.mp hlookup
  exact h.cached (heq ▸ mem_append_right before mem_cons_self)

theorem reopened (h : Holds s live) {openBlocks : List (UInt32 × Nat)}
    (hopen : ∀ {fileNum file}, (fileNum, file) ∈ openBlocks → s.disk.dir fileNum = some file) :
    Holds { s with openBlocks } live :=
  ⟨h.cur, hopen, h.intact⟩

/-- The file that a reader gets is that of the directory. There is none only if the directory has none or
opening fails. -/
def Opens (s : BlockStore) (live : Blocks) (fileNum : UInt32) (fails : Bool) :
    EStateM.Result StoreError BlockStore Nat → Prop :=
  Yields (fun file t => Holds t live ∧ t.disk = s.disk ∧ t.network = s.network ∧ s.disk.dir fileNum = some file)
    (fun t => t = s ∧ (s.disk.dir fileNum = none ∨ fails = true))

theorem openFile (h : Holds s live) (fileNum : UInt32) (fails : Bool) :
    Opens s live fileNum fails (openFile fileNum fails s) := by
  unfold Ffldb.openFile
  rw [run_get_bind]
  cases hdir : s.disk.dir fileNum with
  | none => exact ⟨rfl, .inl hdir⟩
  | some file =>
    cases fails with
    | true => exact ⟨rfl, .inr rfl⟩
    | false =>
      refine ⟨h.reopened fun hmem => ?_, rfl, rfl, hdir⟩
      rcases mem_cons.mp hmem with heq | hkept
      · cases heq
        exact hdir
      · split_ifs at hkept
        · exact h.cached (dropLast_subset _ hkept)
        · exact h.cached hkept

theorem blockFile (h : Holds s live) (fileNum : UInt32) (fails : Bool) :
    Opens s live fileNum fails (blockFile fileNum fails s) := by
  unfold Ffldb.blockFile
  rw [run_get_bind]
  cases hcur : (if fileNum = s.curFileNum then s.curFile else none) with
  | some file =>
    split_ifs at hcur with hsame
    exact ⟨h, rfl, rfl, hsame ▸ h.cur hcur⟩
  | none =>
    cases hlookup : s.openBlocks.lookup fileNum with
    | none => exact h.openFile fileNum fails
    | some file =>
      refine ⟨h.reopened fun hmem => ?_, rfl, rfl, h.lookup hlookup⟩
      rcases mem_cons.mp hmem with heq | hkept
      · cases heq
        exact h.lookup hlookup
      · exact h.cached (mem_filter.mp hkept).1

theorem readBlock (h : Holds s live) (loc : BlockLocation) (io : ReadFaults) :
    Yields (fun _ t => Holds t live) (fun t => Holds t live) (readBlock loc io s) := by
  unfold Ffldb.readBlock
  refine Yields.bind ((h.blockFile loc.blockFileNum io.openFails).mono (fun _ _ hopen => hopen.1)
    fun t ht => ht.1 ▸ h) fun file t ht => ?_
  rw [run_get_bind]
  cases readRecord t file loc io.readFails with
  | error e => exact ht
  | ok rawBlock => exact ht

theorem readBlock_live (h : Holds s live) {b : BlockLocation × Bytes} (hb : b ∈ live) :
    okValue (Ffldb.readBlock b.1 .none s) = some b.2 := by
  obtain ⟨file, hdir, hhas⟩ := h.intact.stored b hb
  have hread : File.readAt (s.disk.content file) b.1.fileOffset.toNat b.1.blockLen.toNat =
      some (record s.network b.2) := by
    rw [h.intact.length b hb, ← length_record s.network]
    exact hhas.readAt
  have hopen := h.blockFile b.1.blockFileNum false
  cases hres : Ffldb.blockFile b.1.blockFileNum false s with
  | error e t =>
    rw [hres] at hopen
    obtain ⟨-, hnone | hfails⟩ := hopen
    · rw [hdir] at hnone
      cases hnone
    · cases hfails
  | ok file' t =>
    rw [hres] at hopen
    obtain ⟨-, hdisk, hnetwork, hdir'⟩ := hopen
    have hfile : file' = file := Option.some.inj (hdir'.symm.trans hdir)
    have hrecord : readRecord t file' b.1 false = .ok b.2 := by
      rw [readRecord, if_neg Bool.false_ne_true, hdisk, hfile, hread, hnetwork]
      exact checkRecord_record s.network b.2
    have hok : Ffldb.readBlock b.1 .none s = .ok b.2 t := readBlock_eq_ok hres hrecord
    rw [hok]
    rfl

end Holds

/-! ### Writing -/

/-- A record is being written: the bytes written so far stand from a start up to the cursor, and the live
blocks stand before the start. -/
structure Writing (s : BlockStore) (live : Blocks) (network fileNum : UInt32) (start : Nat) (written : Bytes) :
    Prop where
  cached : ∀ {fileNum file}, (fileNum, file) ∈ s.openBlocks → s.disk.dir fileNum = some file
  network_eq : s.network = network
  fileNum_eq : s.curFileNum = fileNum
  offset : s.curOffset.toNat = start + written.length
  file : ∃ file, s.curFile = some file ∧ s.disk.dir fileNum = some file ∧
    (written ≠ [] → File.Has (s.disk.content file) start written)
  intact : Intact network s.disk live fileNum start

namespace Writing

variable {s : BlockStore} {live : Blocks} {network fileNum : UInt32} {start : Nat} {written : Bytes}

theorem holds (h : Writing s live network fileNum start written) : Holds s live where
  cur hcur := by
    obtain ⟨file, hfile, hdir, -⟩ := h.file
    rw [h.fileNum_eq, hdir, ← hfile, hcur]
  cached := h.cached
  intact := by
    rw [h.network_eq, h.fileNum_eq, h.offset]
    exact h.intact.mono (Nat.le_add_right _ _)

theorem append (h : Writing s live network fileNum start written) (hfile : s.curFile = some file)
    (data : Bytes) (hfits : start + written.length + data.length < 2 ^ 32) :
    Writing { s with
        disk := s.disk.modify file (File.writeAt · s.curOffset.toNat data)
        curOffset := s.curOffset + UInt32.ofNat data.length } live network fileNum start (written ++ data) where
  cached := h.cached
  network_eq := h.network_eq
  fileNum_eq := h.fileNum_eq
  offset := by
    have hlength : data.length < UInt32.size := by
      change data.length < 2 ^ 32
      omega
    rw [UInt32.toNat_add, h.offset, toNat_ofNat_of_lt' hlength, length_append, Nat.mod_eq_of_lt hfits, Nat.add_assoc]
  file := by
    obtain ⟨file', hfile', hdir, hhas⟩ := h.file
    cases hfile.symm.trans hfile'
    refine ⟨file, hfile, hdir, fun hne => ?_⟩
    rw [Volume.content_modify_self, h.offset]
    by_cases hwritten : written = []
    · -- The first bytes: only now it is known that the file reaches to the start.
      subst hwritten
      exact File.has_writeAt hne _ _
    · exact (hhas hwritten).append_writeAt data
  intact := by
    obtain ⟨file', hfile', hdir, -⟩ := h.file
    cases hfile.symm.trans hfile'
    refine h.intact.modify hdir fun content from' data' hend hhas => hhas.writeAt ?_ data
    rw [h.offset]
    omega

theorem writeData (h : Writing s live network fileNum start written) (data : Bytes) (fieldName : String)
    (room : Nat) (hfits : start + written.length + data.length < 2 ^ 32) :
    Yields (fun _ t => Writing t live network fileNum start (written ++ data)) (fun t => Holds t live)
      (writeData data fieldName room s) := by
  obtain ⟨file, hfile, -⟩ := h.file
  have htake : (data.take (min data.length room)).length = min data.length room := by
    rw [length_take]
    omega
  have hwrite := h.append hfile (data.take (min data.length room)) (by rw [htake]; omega)
  rw [htake, hfile] at hwrite
  unfold Ffldb.writeData
  rw [run_get_bind, hfile]
  dsimp only
  rw [run_set_bind]
  by_cases hshort : min data.length room < data.length
  · rw [if_pos hshort]
    exact hwrite.holds
  · rw [if_neg hshort]
    rw [take_of_length_le (not_lt.mp hshort)] at hwrite ⊢
    exact hwrite

end Writing

namespace Holds

variable {s : BlockStore} {live : Blocks}

theorem nextFile (h : Holds s live) (hfits : s.curFileNum.toNat + 1 < 2 ^ 32) : Holds (nextFile s) live where
  cur hcur := by cases hcur
  cached := h.cached
  intact := h.intact.nextFile hfits

theorem openCurFile (h : Holds s live) (fails : Bool) :
    Yields (fun _ t => Writing t live s.network s.curFileNum s.curOffset.toNat []) (fun t => Holds t live)
      (openCurFile fails s) := by
  unfold Ffldb.openCurFile
  rw [run_get_bind]
  by_cases hclosed : s.curFile = none
  · rw [if_pos hclosed]
    cases fails with
    | true => exact h
    | false =>
      exact {
        cached := fun hmem => (Volume.dir_openWrite (h.cached hmem) _).1
        network_eq := rfl
        fileNum_eq := rfl
        offset := rfl
        file := ⟨_, rfl, Volume.dir_openWrite_self _ _, fun hne => absurd rfl hne⟩
        intact := h.intact.openWrite _ }
  · rw [if_neg hclosed]
    obtain ⟨file, hfile⟩ := Option.ne_none_iff_exists'.mp hclosed
    exact {
      cached := h.cached
      network_eq := rfl
      fileNum_eq := rfl
      offset := rfl
      file := ⟨file, hfile, h.cur hfile, fun hne => absurd rfl hne⟩
      intact := h.intact }

end Holds

theorem toNat_add_lt_of_not_exceeds {fullLen : UInt32} (h : exceeds s fullLen = false) :
    s.curOffset.toNat + fullLen.toNat < 2 ^ 32 := by
  have hle : ¬ s.curOffset + fullLen < s.curOffset := by
    rw [exceeds, Bool.or_eq_false_iff] at h
    exact of_decide_eq_false h.1
  have hoffset := s.curOffset.toNat_lt
  have hlength := fullLen.toNat_lt
  rw [lt_iff_toNat_lt, UInt32.toNat_add] at hle
  omega

theorem toNat_fullLen (hlength : rawBlock.length + 12 < 2 ^ 32) :
    (UInt32.ofNat rawBlock.length + 12).toNat = rawBlock.length + 12 := by
  have hlt : rawBlock.length < UInt32.size := by
    change rawBlock.length < 2 ^ 32
    omega
  rw [UInt32.toNat_add, toNat_ofNat_of_lt' hlt]
  exact Nat.mod_eq_of_lt hlength

/-- What `writeBlock` needs: the record is not too long for its length field, and there is a next file
number if the block does not go to the current file. -/
def Writable (s : BlockStore) (rawBlock : Bytes) : Prop :=
  rawBlock.length + 12 < 2 ^ 32 ∧
    (exceeds s (UInt32.ofNat rawBlock.length + 12) = true → s.curFileNum.toNat + 1 < 2 ^ 32)

instance (s : BlockStore) (rawBlock : Bytes) : Decidable (Writable s rawBlock) :=
  inferInstanceAs (Decidable (_ ∧ _))

namespace Holds

variable {s : BlockStore} {live : Blocks}

theorem of_written {fileNum : UInt32} {start : Nat} {network : UInt32}
    (h : Writing s live network fileNum start (record network rawBlock))
    (hfile : loc.blockFileNum = fileNum) (hoffset : loc.fileOffset.toNat = start)
    (hlength : loc.blockLen.toNat = rawBlock.length + 12) :
    Holds s ((loc, rawBlock) :: live) where
  cur := h.holds.cur
  cached := h.cached
  intact := by
    obtain ⟨file, -, hdir, hhas⟩ := h.file
    have hne : record network rawBlock ≠ [] := ne_nil_of_length_pos (by rw [length_record]; omega)
    rw [h.network_eq, h.fileNum_eq, h.offset, length_record]
    exact h.intact.cons hfile hoffset hlength ⟨file, hdir, hhas hne⟩

theorem writeRecord (h : Holds s live) (hlength : rawBlock.length + 12 < 2 ^ 32)
    (hfits : s.curOffset.toNat + (rawBlock.length + 12) < 2 ^ 32) (io : WriteFaults) :
    Yields (fun loc t => Holds t ((loc, rawBlock) :: live)) (fun t => Holds t live) (writeRecord rawBlock io s) := by
  unfold Ffldb.writeRecord
  refine (h.openCurFile io.openFails).bind fun _ t hopened => ?_
  rw [run_get_bind, run_get_bind, hopened.network_eq]
  refine (hopened.writeData _ "network" io.room ?_).bind fun room t1 hnetwork => ?_
  · simp only [length_leBytes, length_nil]
    omega
  refine (hnetwork.writeData _ "block length" room ?_).bind fun room t2 hlen => ?_
  · simp only [length_leBytes, length_append, length_nil]
    omega
  refine (hlen.writeData _ "block" room ?_).bind fun room t3 hblock => ?_
  · simp only [length_leBytes, length_append, length_nil]
    omega
  rw [crcUpdate_append, crcUpdate_append]
  refine (hblock.writeData _ "checksum" room ?_).bind fun _ t4 hsum => ?_
  · simp only [length_leBytes, length_beBytes, length_append, length_nil]
    omega
  exact of_written hsum hsum.fileNum_eq hopened.offset (toNat_fullLen hlength)

theorem writeBlock (h : Holds s live) (hwritable : Writable s rawBlock) (io : WriteFaults) :
    Yields (fun loc t => Holds t ((loc, rawBlock) :: live)) (fun t => Holds t live) (writeBlock rawBlock io s) := by
  obtain ⟨hlength, hroll⟩ := hwritable
  unfold Ffldb.writeBlock
  rw [run_get_bind]
  cases hexceeds : exceeds s (UInt32.ofNat rawBlock.length + 12) with
  | true =>
    refine (h.nextFile (hroll hexceeds)).writeRecord hlength ?_ io
    change 0 + (rawBlock.length + 12) < 2 ^ 32
    omega
  | false =>
    have hfits := toNat_add_lt_of_not_exceeds hexceeds
    rw [toNat_fullLen hlength] at hfits
    exact h.writeRecord hlength hfits io

end Holds

/-! ### Rolling back -/

theorem toNat_pred {m n : UInt32} (h : m < n) : (n - 1).toNat = n.toNat - 1 := by
  have hlt := lt_iff_toNat_lt.mp h
  refine UInt32.toNat_sub_of_le _ _ (le_iff_toNat_le.mpr ?_)
  change 1 ≤ n.toNat
  omega

/-- The store while the files after the one to roll back to are deleted. -/
structure Unwinding (s : BlockStore) (live : Blocks) (oldBlockFileNum : UInt32) (offset : Nat) : Prop where
  le : oldBlockFileNum ≤ s.curFileNum
  cur : ∀ {file}, s.curFile = some file → s.curFileNum = oldBlockFileNum ∧ s.disk.dir oldBlockFileNum = some file
  cached : ∀ {fileNum file}, (fileNum, file) ∈ s.openBlocks → s.disk.dir fileNum = some file
  uncached : ∀ {opened}, opened ∈ s.openBlocks → oldBlockFileNum < opened.1 → s.curFileNum < opened.1
  intact : Intact s.network s.disk live oldBlockFileNum offset

namespace Unwinding

variable {s : BlockStore} {live : Blocks} {oldBlockFileNum : UInt32} {offset : Nat}

theorem delete (h : Unwinding s live oldBlockFileNum offset) (hlt : oldBlockFileNum < s.curFileNum) :
    Unwinding { s with disk := s.disk.remove s.curFileNum, curFileNum := s.curFileNum - 1 } live
      oldBlockFileNum
  offset := by
  have hlt' := lt_iff_toNat_lt.mp hlt
  have hpred := toNat_pred hlt
  refine ⟨?_, fun hcur => ?_, fun {fileNum file} hmem => ?_, fun hmem hafter => ?_, h.intact.remove hlt⟩
  · rw [le_iff_toNat_le, hpred]
    omega
  · exact absurd (h.cur hcur).1 (UInt32.ne_of_lt hlt).symm
  · have hne : fileNum ≠ s.curFileNum := by
      rintro rfl
      exact UInt32.lt_irrefl _ (h.uncached hmem hlt)
    exact (Volume.dir_remove_of_ne _ hne).trans (h.cached hmem)
  · have hcur := lt_iff_toNat_lt.mp (h.uncached hmem hafter)
    rw [lt_iff_toNat_lt, hpred]
    omega

theorem deleteFiles (h : Unwinding s live oldBlockFileNum offset) (fails : UInt32 → Bool) {n : Nat}
    (hn : s.curFileNum.toNat - oldBlockFileNum.toNat ≤ n) :
    let r := deleteFiles oldBlockFileNum fails n s
    Unwinding r.2 live oldBlockFileNum offset ∧ (r.1 = true → r.2.curFileNum = oldBlockFileNum) := by
  induction n generalizing s with
  | zero =>
    have hle := le_iff_toNat_le.mp h.le
    refine ⟨h, fun _ => UInt32.toNat_inj.mp ?_⟩
    change s.curFileNum.toNat = oldBlockFileNum.toNat
    omega
  | succ n ih =>
    rw [Ffldb.deleteFiles]
    by_cases hlt : s.curFileNum > oldBlockFileNum
    · rw [if_pos hlt]
      split_ifs with hfails
      · exact ⟨h, fun htrue => nomatch htrue⟩
      · refine ih (h.delete hlt) ?_
        change (s.curFileNum - 1).toNat - oldBlockFileNum.toNat ≤ n
        rw [toNat_pred hlt]
        omega
    · rw [if_neg hlt]
      exact ⟨h, fun _ => UInt32.le_antisymm (UInt32.not_lt.mp hlt) h.le⟩

end Unwinding

namespace Holds

variable {s : BlockStore} {live : Blocks}

theorem truncateCurFile (h : Holds s live) (io : RollbackFaults) : Holds (truncateCurFile s s.curOffset io) live := by
  unfold Ffldb.truncateCurFile
  have hopen := h.openCurFile io.openFails
  cases hres : Ffldb.openCurFile io.openFails s with
  | error e t =>
    rw [hres] at hopen
    exact hopen
  | ok u t =>
    rw [hres] at hopen
    obtain ⟨file, hfile, hdir, -⟩ := hopen.file
    dsimp only
    rw [hfile]
    dsimp only
    split_ifs
    · exact hopen.holds
    · have hoffset : t.curOffset.toNat = s.curOffset.toNat := hopen.offset
      have hdir' : t.disk.dir t.curFileNum = some file := hopen.fileNum_eq ▸ hdir
      have hcut : Intact t.network (t.disk.modify file (File.truncate · s.curOffset.toNat)) live t.curFileNum
          t.curOffset.toNat :=
        hopen.holds.intact.modify hdir' fun content from' data hend hhas => hhas.truncate (hoffset ▸ hend)
      refine ⟨fun hcur => ?_, hopen.cached, hcut⟩
      cases hcur
      exact hdir'

end Holds

theorem truncateCurFile_cursor (s : BlockStore) (offset oldBlockOffset : UInt32) (io : RollbackFaults) :
    { truncateCurFile s oldBlockOffset io with curFileNum := s.curFileNum, curOffset := offset } =
      truncateCurFile { s with curOffset := offset } oldBlockOffset io := by
  obtain ⟨network, maxBlockFileSize, openBlocks, curFile, curFileNum, curOffset, disk⟩ := s
  obtain ⟨deleteFails, openFails, truncateFails⟩ := io
  cases curFile with
  | some file => cases truncateFails <;> rfl
  | none => cases openFails <;> cases truncateFails <;> rfl

/-- What `handleRollback` needs: the point is not in a later file, and no reader has opened a file that is
to be deleted. -/
def Revertible (s : BlockStore) (oldBlockFileNum : UInt32) : Prop :=
  oldBlockFileNum ≤ s.curFileNum ∧
    ∀ opened ∈ s.openBlocks, oldBlockFileNum < opened.1 → s.curFileNum < opened.1

instance (s : BlockStore) (oldBlockFileNum : UInt32) : Decidable (Revertible s oldBlockFileNum) :=
  inferInstanceAs (Decidable (_ ∧ _))

namespace Unwinding

variable {s : BlockStore} {live : Blocks} {oldBlockFileNum : UInt32}

theorem holds {oldBlockOffset : UInt32} (h : Unwinding s live oldBlockFileNum oldBlockOffset.toNat) :
    Holds { s with curFileNum := oldBlockFileNum, curOffset := oldBlockOffset } live :=
  ⟨fun hcur => (h.cur hcur).2, h.cached, h.intact⟩

theorem holds_truncateCurFile {oldBlockOffset : UInt32} (h : Unwinding s live oldBlockFileNum oldBlockOffset.toNat)
    (hcur : s.curFileNum = oldBlockFileNum) (io : RollbackFaults) :
    Holds { truncateCurFile s oldBlockOffset io with curFileNum := oldBlockFileNum, curOffset := oldBlockOffset }
      live := by
  subst hcur
  rw [truncateCurFile_cursor]
  exact h.holds.truncateCurFile io

theorem of_holds (h : Holds s live) (hrevert : Revertible s oldBlockFileNum) (oldBlockOffset : UInt32) :
    Unwinding (closeCurFile oldBlockFileNum s)
      (live.filter fun b => b.1.Before oldBlockFileNum oldBlockOffset.toNat) oldBlockFileNum oldBlockOffset.toNat := by
  have hintact := h.intact.filter oldBlockFileNum oldBlockOffset.toNat
  unfold closeCurFile
  split_ifs with hlt
  · exact ⟨hrevert.1, fun hcur => (nomatch hcur), h.cached, hrevert.2 _, hintact⟩
  · have hsame : s.curFileNum = oldBlockFileNum := UInt32.le_antisymm (UInt32.not_lt.mp hlt) hrevert.1
    exact ⟨hrevert.1, fun hcur => ⟨hsame, hsame ▸ h.cur hcur⟩, h.cached, hrevert.2 _, hintact⟩

end Unwinding

theorem Holds.handleRollback {live : Blocks} (h : Holds s live) {oldBlockFileNum : UInt32}
    (hrevert : Revertible s oldBlockFileNum) (oldBlockOffset : UInt32) (io : RollbackFaults) :
    Holds (handleRollback oldBlockFileNum oldBlockOffset io s)
      (live.filter fun b => b.1.Before oldBlockFileNum oldBlockOffset.toNat) := by
  unfold Ffldb.handleRollback
  split_ifs with hsame
  · obtain ⟨rfl, rfl⟩ := hsame
    exact ⟨h.cur, h.cached, h.intact.filter s.curFileNum s.curOffset.toNat⟩
  · have hcursor : (closeCurFile oldBlockFileNum s).curFileNum = s.curFileNum := by
      unfold closeCurFile
      split_ifs
      · rfl
      · rfl
    obtain ⟨hdeleted, hdone⟩ := (Unwinding.of_holds h hrevert oldBlockOffset).deleteFiles io.deleteFails
      (by rw [hcursor])
    dsimp only
    split_ifs with hall
    · exact hdeleted.holds_truncateCurFile (hdone hall) io
    · exact hdeleted.holds

/-! ### Runs -/

inductive StoreCall
  | write (rawBlock : Bytes) (io : WriteFaults)
  | rollback (oldBlockFileNum oldBlockOffset : UInt32) (io : RollbackFaults)
  | read (loc : BlockLocation) (io : ReadFaults)

namespace StoreCall

/-- What a call does to the store and to the live blocks: a block that was written becomes live, and one
that does not end before the point of a rollback is live no more. -/
def perform : StoreCall → BlockStore × Blocks → BlockStore × Blocks
  | write rawBlock io, (s, live) =>
    match writeBlock rawBlock io s with
    | .ok loc t => (t, (loc, rawBlock) :: live)
    | .error _ t => (t, live)
  | rollback oldBlockFileNum oldBlockOffset io, (s, live) =>
    (handleRollback oldBlockFileNum oldBlockOffset io s,
      live.filter fun b => b.1.Before oldBlockFileNum oldBlockOffset.toNat)
  | read loc io, (s, live) => (endState (readBlock loc io s), live)

def Allowed (s : BlockStore) : StoreCall → Prop
  | write rawBlock _ => Writable s rawBlock
  | rollback oldBlockFileNum _ _ => Revertible s oldBlockFileNum
  | read _ _ => True

instance (s : BlockStore) : (call : StoreCall) → Decidable (call.Allowed s)
  | write rawBlock _ => inferInstanceAs (Decidable (Writable s rawBlock))
  | rollback oldBlockFileNum _ _ => inferInstanceAs (Decidable (Revertible s oldBlockFileNum))
  | read _ _ => inferInstanceAs (Decidable True)

theorem holds_perform {live : Blocks} (h : Holds s live) {call : StoreCall}
    (hallowed : call.Allowed s) : Holds (call.perform (s, live)).1 (call.perform (s, live)).2 := by
  cases call with
  | write rawBlock io =>
    have hwrite := h.writeBlock hallowed io
    rw [perform]
    cases hres : writeBlock rawBlock io s with
    | ok loc t =>
      rw [hres] at hwrite
      exact hwrite
    | error e t =>
      rw [hres] at hwrite
      exact hwrite
  | rollback oldBlockFileNum oldBlockOffset io => exact h.handleRollback hallowed oldBlockOffset io
  | read loc io =>
    have hread := h.readBlock loc io
    rw [perform]
    cases hres : readBlock loc io s with
    | ok rawBlock t =>
      rw [hres] at hread
      exact hread
    | error e t =>
      rw [hres] at hread
      exact hread

end StoreCall

/-- The store and the live blocks after some calls to a store that was just opened. -/
def performAll (s : BlockStore) (calls : List StoreCall) : BlockStore × Blocks :=
  calls.foldl (fun state call => call.perform state) (s, [])

theorem performAll_concat (s : BlockStore) (calls : List StoreCall) (call : StoreCall) :
    performAll s (calls ++ [call]) = call.perform (performAll s calls) := by
  rw [performAll, foldl_append]
  rfl

def AllowedRun (s : BlockStore) (calls : List StoreCall) : Prop :=
  ∀ i (hi : i < calls.length), calls[i].Allowed (performAll s (calls.take i)).1

instance (s : BlockStore) (calls : List StoreCall) : Decidable (AllowedRun s calls) :=
  inferInstanceAs (Decidable (∀ i (hi : i < calls.length), calls[i].Allowed (performAll s (calls.take i)).1))

theorem AllowedRun.of_concat {calls : List StoreCall} {call : StoreCall} (h : AllowedRun s (calls ++ [call])) :
    AllowedRun s calls ∧ call.Allowed (performAll s calls).1 := by
  refine ⟨fun i hi => ?_, ?_⟩
  · have hcall := h i (by rw [length_append]; omega)
    rwa [getElem_append_left hi, take_append_of_le_length hi.le] at hcall
  · have hcall := h calls.length (by simp)
    rwa [getElem_concat_length rfl, take_left] at hcall

theorem holds_performAll (hclosed : s.curFile = none) (hunread : s.openBlocks = [])
    {calls : List StoreCall} (hallowed : AllowedRun s calls) : Holds (performAll s calls).1 (performAll s calls).2 := by
  induction calls using List.reverseRecOn with
  | nil =>
    refine ⟨fun hcur => ?_, fun hmem => ?_, .nil⟩
    · exact absurd (hclosed.symm.trans hcur) (by simp)
    · exact absurd (hunread ▸ hmem) (by simp)
  | append_singleton calls call ih =>
    obtain ⟨hcalls, hcall⟩ := hallowed.of_concat
    rw [performAll_concat]
    exact StoreCall.holds_perform (ih hcalls) hcall

namespace Sample

/-- A store without files, in which no two records of one byte fit in a file. -/
def blockStore : BlockStore where
  network := 0xD9B4BEF9
  maxBlockFileSize := 20
  openBlocks := []
  curFile := none
  curFileNum := 0
  curOffset := 0
  disk := .empty

def write (rawBlock : Bytes) : StoreCall := .write rawBlock ⟨false, 1000⟩

def rollback (oldBlockFileNum oldBlockOffset : UInt32) : StoreCall :=
  .rollback oldBlockFileNum oldBlockOffset ⟨fun _ => false, false, false⟩

def read (loc : BlockLocation) : StoreCall := .read loc .none

/-- Three blocks in three files, of which two are rolled back and another one is written. -/
def calmCalls : List StoreCall := [write [1], write [2], write [3], read ⟨0, 0, 13⟩, rollback 0 13, write [4]]

/-- The same with a reader of the second file, and the third file written again. -/
def staleCalls : List StoreCall :=
  [write [1], write [2], write [3], read ⟨1, 0, 13⟩, rollback 0 13, write [4], write [5]]

/-- A rollback to a file that was not begun yet. -/
def forwardCalls : List StoreCall := [write [1], rollback 1 0]

end Sample

open Sample

end Ffldb

end Prova
