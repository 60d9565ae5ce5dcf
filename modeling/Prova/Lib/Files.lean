import Prova.Lib.Bytes
import Mathlib.Logic.Function.Basic

/-!
# Files and directories

A file is a string of bytes that is written and read at offsets. A directory maps names to files that
exist on their own: a file that was removed, and then created anew under its name, is another file, and
who opened the removed one before still sees it.
-/

namespace Prova

open Function List

variable {content data : Bytes} {offset : Nat} {name' : ν}

/-! ### One file -/

namespace File

def truncate (content : Bytes) (size : Nat) : Bytes :=
  content.take size ++ List.replicate (size - content.length) 0

/-- Writing at an offset; a gap behind the end is filled with zeros. Writing nothing does nothing. -/
def writeAt (content : Bytes) (offset : Nat) (data : Bytes) : Bytes :=
  if data = [] then content else truncate content offset ++ data ++ content.drop (offset + data.length)

/-- Reading a number of bytes at an offset, if there are as many. -/
def readAt (content : Bytes) (offset n : Nat) : Option Bytes :=
  if n = 0 ∨ offset + n ≤ content.length then some ((content.drop offset).take n) else none

/-- The file has some bytes at an offset. -/
def Has (content : Bytes) (offset : Nat) (data : Bytes) : Prop :=
  ∃ before after, content = before ++ data ++ after ∧ before.length = offset

@[simp] theorem length_truncate (content : Bytes) (size : Nat) : (truncate content size).length = size := by
  rw [truncate, length_append, length_take, length_replicate]
  omega

theorem Has.readAt (h : Has content offset data) : readAt content offset data.length = some data := by
  obtain ⟨before, after, rfl, rfl⟩ := h
  rw [File.readAt, if_pos (.inr (by simp only [length_append]; omega)), append_assoc, drop_left, take_left]

theorem Has.truncate {size : Nat} (h : Has content offset data) (hle : offset + data.length ≤ size) :
    Has (truncate content size) offset data := by
  obtain ⟨before, after, rfl, rfl⟩ := h
  have htake : (before ++ data ++ after).take size = before ++ data ++ after.take (size - (before ++ data).length) := by
    rw [take_append, take_of_length_le (by rw [length_append]; omega)]
  refine ⟨before, after.take (size - (before ++ data).length) ++
    List.replicate (size - (before ++ data ++ after).length) 0, ?_, rfl⟩
  rw [File.truncate, htake, append_assoc (before ++ data)]

theorem Has.writeAt (h : Has content offset data) {writeOffset : Nat}
    (hle : offset + data.length ≤ writeOffset) (written : Bytes) :
    Has (writeAt content writeOffset written) offset data := by
  rw [File.writeAt]
  split_ifs
  · exact h
  · obtain ⟨before, after, heq, hlen⟩ := h.truncate hle
    refine ⟨before, after ++ written ++ content.drop (writeOffset + written.length), ?_, hlen⟩
    rw [heq]
    simp only [append_assoc]

theorem has_writeAt (hne : data ≠ []) (content : Bytes) (offset : Nat) :
    Has (writeAt content offset data) offset data := by
  rw [writeAt, if_neg hne]
  exact ⟨_, _, rfl, length_truncate content offset⟩

/-- Writing some bytes right behind others extends these; writing none does so too. -/
theorem Has.append_writeAt {first : Bytes} (h : Has content offset first) (second : Bytes) :
    Has (File.writeAt content (offset + first.length) second) offset (first ++ second) := by
  by_cases hne : second = []
  · rw [hne, File.writeAt, if_pos rfl, append_nil]
    exact h
  · obtain ⟨before, after, heq, hlen⟩ := h.truncate le_rfl
    -- The file was cut right behind the first bytes, so that nothing stands between the two.
    have hafter : after = [] := by
      have hsize := congrArg List.length heq
      rw [length_truncate, length_append, length_append] at hsize
      exact eq_nil_of_length_eq_zero (by omega)
    refine ⟨before, content.drop (offset + first.length + second.length), ?_, hlen⟩
    rw [File.writeAt, if_neg hne, heq, hafter, append_nil, append_assoc before]

end File

/-! ### A directory -/

/-- A directory and the files there are. The files are numbered as they are created, no two names stand
for one file, and a file keeps its number and its contents when its name is removed. -/
structure Volume (ν : Type) where
  content : Nat → Bytes
  dir : ν → Option Nat
  next : Nat
  fresh : ∀ {name file}, dir name = some file → file < next
  inj : ∀ {name name' file}, dir name = some file → dir name' = some file → name = name'

namespace Volume

variable {ν : Type}

/-- Changing the contents of an open file. -/
def modify (d : Volume ν) (file : Nat) (f : Bytes → Bytes) : Volume ν :=
  { d with content := Function.update d.content file (f (d.content file)) }

/-- Under a name there is a file that has some bytes at an offset. -/
def Stores (d : Volume ν) (name : ν) (offset : Nat) (data : Bytes) : Prop :=
  ∃ file, d.dir name = some file ∧ File.Has (d.content file) offset data

theorem content_modify_self (d : Volume ν) (file : Nat) (f : Bytes → Bytes) :
    (d.modify file f).content file = f (d.content file) :=
  update_self _ _ _

theorem content_modify_of_ne (d : Volume ν) {file file' : Nat} (hne : file' ≠ file) (f : Bytes → Bytes) :
    (d.modify file f).content file' = d.content file' :=
  update_of_ne hne _ _

/-- A change to the file under a name keeps what stands under another one, and what it keeps itself. -/
theorem Stores.modify {d : Volume ν} {name : ν} {offset : Nat} {data : Bytes} (h : d.Stores name offset data)
    {name' : ν} {file : Nat} (hfile : d.dir name' = some file) {f : Bytes → Bytes}
    (hf : name = name' → ∀ content, File.Has content offset data → File.Has (f content) offset data) :
    (d.modify file f).Stores name offset data := by
  obtain ⟨file', hdir, hhas⟩ := h
  refine ⟨file', hdir, ?_⟩
  by_cases hsame : file' = file
  · subst hsame
    rw [content_modify_self]
    exact hf (d.inj hdir hfile) _ hhas
  · rw [content_modify_of_ne d hsame]
    exact hhas

variable [DecidableEq ν]

def empty : Volume ν where
  content := fun _ => []
  dir := fun _ => none
  next := 0
  fresh := fun h => by cases h
  inj := fun h => by cases h

/-- Creating an empty file under a name, in the place of what had it. -/
def create (d : Volume ν) (name : ν) : Volume ν where
  content := Function.update d.content d.next []
  dir := Function.update d.dir name (some d.next)
  next := d.next + 1
  fresh := by
    intro name' file h
    rw [Function.update_apply] at h
    split_ifs at h
    · cases h
      exact Nat.lt_succ_self _
    · exact Nat.lt_succ_of_lt (d.fresh h)
  inj := by
    intro name' name'' file h h'
    rw [Function.update_apply] at h h'
    split_ifs at h h' with hname hname' hname'
    · rw [hname, hname']
    · cases h
      exact absurd (d.fresh h') (lt_irrefl _)
    · cases h'
      exact absurd (d.fresh h) (lt_irrefl _)
    · exact d.inj h h'

/-- Opening a file for writing, which creates it when there is none. -/
def openWrite (d : Volume ν) (name : ν) : Nat × Volume ν :=
  match d.dir name with
  | some file => (file, d)
  | none => (d.next, d.create name)

def remove (d : Volume ν) (name : ν) : Volume ν where
  content := d.content
  dir := Function.update d.dir name none
  next := d.next
  fresh := by
    intro name' file h
    rw [Function.update_apply] at h
    split_ifs at h
    exact d.fresh h
  inj := by
    intro name' name'' file h h'
    rw [Function.update_apply] at h h'
    split_ifs at h h'
    exact d.inj h h'

theorem dir_remove_of_ne (d : Volume ν) {name name' : ν} (hne : name' ≠ name) :
    (d.remove name).dir name' = d.dir name' :=
  update_of_ne hne _ _

theorem dir_openWrite_self (d : Volume ν) (name : ν) : (d.openWrite name).2.dir name = some (d.openWrite name).1 := by
  unfold openWrite
  cases hdir : d.dir name with
  | some file => exact hdir
  | none => exact update_self _ _ _

theorem dir_openWrite {d : Volume ν} {name' : ν} {file : Nat} (h : d.dir name' = some file) (name : ν) :
    (d.openWrite name).2.dir name' = some file ∧ (d.openWrite name).2.content file = d.content file := by
  unfold openWrite
  cases hdir : d.dir name with
  | some other => exact ⟨h, rfl⟩
  | none =>
    have hne : name' ≠ name := fun heq => by rw [heq, hdir] at h; cases h
    exact ⟨(update_of_ne hne _ _).trans h, update_of_ne (d.fresh h).ne _ _⟩

variable {d : Volume ν} {name : ν} {offset : Nat} {data : Bytes}

theorem Stores.openWrite (h : d.Stores name offset data) (name' : ν) :
    (d.openWrite name').2.Stores name offset data := by
  obtain ⟨file, hdir, hhas⟩ := h
  obtain ⟨hdir', hcontent⟩ := dir_openWrite hdir name'
  refine ⟨file, hdir', ?_⟩
  rw [hcontent]
  exact hhas

theorem Stores.remove (h : d.Stores name offset data) {name' : ν} (hne : name ≠ name') :
    (d.remove name').Stores name offset data := by
  obtain ⟨file, hdir, hhas⟩ := h
  exact ⟨file, (dir_remove_of_ne d hne).trans hdir, hhas⟩

end Volume

end Prova
