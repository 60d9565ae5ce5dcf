import Prova.Lib.Files
import Prova.Lib.StateRun

/-!
# The flat block files

Blocks are appended to numbered files. A block's record is the network, the block's length, the block and
a checksum of all these. A file that is full is closed and the next one begun; a rollback deletes files
and cuts the last one. Readers share the file that is being written and keep a limited number of other
files open.

What the operating system does is a parameter of each call: whether opening fails, how many bytes can be
written before a write fails. The files are on a POSIX file system: who has a file open keeps it when it
is deleted. Distinct file numbers have distinct names, so that a number stands for its name.
-/

namespace Prova

namespace Ffldb

/-! ### The checksum -/

/-- One bit of the reversed Castagnoli polynomial division. -/
def crcBit (crc : UInt32) : UInt32 :=
  if crc &&& 1 = 1 then (crc >>> 1) ^^^ 0x82F63B78 else crc >>> 1

def crcByte (crc : UInt32) (b : UInt8) : UInt32 :=
  Nat.repeat crcBit 8 (crc ^^^ b.toUInt32)

/-- `crc32.Update` with the Castagnoli table. -/
def crcUpdate (crc : UInt32) (data : Bytes) : UInt32 := ~~~(data.foldl crcByte (~~~crc))

def crcChecksum (data : Bytes) : UInt32 := crcUpdate 0 data

theorem crcUpdate_append (crc : UInt32) (data data' : Bytes) :
    crcUpdate (crcUpdate crc data) data' = crcUpdate crc (data ++ data') := by
  rw [crcUpdate, crcUpdate, crcUpdate, UInt32.not_not, List.foldl_append]

-- The check value of the polynomial: the checksum of the digits 1 to 9.
example : crcChecksum [0x31, 0x32, 0x33, 0x34, 0x35, 0x36, 0x37, 0x38, 0x39] = 0xE3069283 := by decide +kernel

/-! ### The store -/

def maxOpenFiles : Nat := 25

structure BlockLocation where
  blockFileNum : UInt32
  fileOffset : UInt32
  blockLen : UInt32
  deriving DecidableEq, Repr

/-- What can go wrong. The checksum has the code `ErrCorruption` and the others have `ErrDriverSpecific`;
`outOfRange` is the panic of a slice expression and `notOpen` that of a write to no file. -/
inductive StoreError
  | openFailed (fileNum : UInt32)
  | writeFailed (fieldName : String) (fileNum offset : UInt32)
  | readFailed (fileNum offset : UInt32)
  | checksumMismatch (calculated serialized : UInt32)
  | wrongNetwork (got want : UInt32)
  | outOfRange
  | notOpen
  deriving DecidableEq, Repr

/-- The block store. `openBlocks` is the least recently used list with the open files of
`openBlockFiles`, the most recently used first; `curFile`, `curFileNum` and `curOffset` are the write
cursor. -/
structure BlockStore where
  network : UInt32
  maxBlockFileSize : UInt32
  openBlocks : List (UInt32 × Nat)
  curFile : Option Nat
  curFileNum : UInt32
  curOffset : UInt32
  disk : Volume UInt32

/-- A computation on the store, which keeps what it did when it fails. -/
abbrev StoreM := EStateM StoreError BlockStore

/-! ### Writing -/

/-- What happens to the system calls of `writeBlock`: whether opening a file fails, and how many bytes
are written before a write fails. -/
structure WriteFaults where
  openFails : Bool
  room : Nat

/-- `writeData`, with the room that there is left on the disk and that it leaves. -/
def writeData (data : Bytes) (fieldName : String) (room : Nat) : StoreM Nat := do
  let s ← get
  match s.curFile with
  | none => throw .notOpen
  | some file =>
    let n := min data.length room
    set { s with
      disk := s.disk.modify file (File.writeAt · s.curOffset.toNat (data.take n))
      curOffset := s.curOffset + UInt32.ofNat n }
    if n < data.length then throw (.writeFailed fieldName s.curFileNum s.curOffset)
    return room - n

def nextFile (s : BlockStore) : BlockStore :=
  { s with curFile := none, curFileNum := s.curFileNum + 1, curOffset := 0 }

/-- A block of the length would exceed the size of the current file. -/
def exceeds (s : BlockStore) (fullLen : UInt32) : Bool :=
  s.curOffset + fullLen < s.curOffset || s.maxBlockFileSize < s.curOffset + fullLen

/-- The current file is opened if it is not. -/
def openCurFile (fails : Bool) : StoreM Unit := do
  let s ← get
  if s.curFile = none then
    if fails then throw (.openFailed s.curFileNum)
    let opened := s.disk.openWrite s.curFileNum
    set { s with curFile := some opened.1, disk := opened.2 }

/-- The part of `writeBlock` that writes the record to the current file. -/
def writeRecord (rawBlock : Bytes) (io : WriteFaults) : StoreM BlockLocation := do
  openCurFile io.openFails
  let origOffset := (← get).curOffset
  let network := leBytes 4 (← get).network.toNat
  let room ← writeData network "network" io.room
  let hasher := crcUpdate 0 network
  let length := leBytes 4 (UInt32.ofNat rawBlock.length).toNat
  let room ← writeData length "block length" room
  let hasher := crcUpdate hasher length
  let room ← writeData rawBlock "block" room
  let hasher := crcUpdate hasher rawBlock
  let _ ← writeData (beBytes 4 hasher.toNat) "checksum" room
  return {
    blockFileNum := (← get).curFileNum
    fileOffset := origOffset
    blockLen := UInt32.ofNat rawBlock.length + 12 }

def writeBlock (rawBlock : Bytes) (io : WriteFaults) : StoreM BlockLocation := do
  let fullLen := UInt32.ofNat rawBlock.length + 12
  if exceeds (← get) fullLen then modify nextFile
  writeRecord rawBlock io

/-! ### Reading -/

/-- What happens to the system calls of `readBlock`: whether opening the file or reading it fails. -/
structure ReadFaults where
  openFails : Bool
  readFails : Bool

def ReadFaults.none : ReadFaults := ⟨false, false⟩

/-- `openFile`: the least recently used file makes room for the one that is opened. -/
def openFile (fileNum : UInt32) (fails : Bool) : StoreM Nat := do
  let s ← get
  match s.disk.dir fileNum with
  | none => throw (.openFailed fileNum)
  | some file =>
    if fails then throw (.openFailed fileNum)
    let kept := if maxOpenFiles ≤ s.openBlocks.length then s.openBlocks.dropLast else s.openBlocks
    set { s with openBlocks := (fileNum, file) :: kept }
    return file

/-- `blockFile`: the file that is being written, one that is open, or one that is opened. -/
def blockFile (fileNum : UInt32) (openFails : Bool) : StoreM Nat := do
  let s ← get
  match if fileNum = s.curFileNum then s.curFile else none with
  | some file => return file
  | none =>
    match s.openBlocks.lookup fileNum with
    | some file =>
      set { s with openBlocks := (fileNum, file) :: s.openBlocks.filter (·.1 ≠ fileNum) }
      return file
    | none => openFile fileNum openFails

/-- What `readBlock` does with the bytes it has read. -/
def checkRecord (network : UInt32) (serializedData : Bytes) : Except StoreError Bytes := do
  let n := serializedData.length
  reject (n < 4) .outOfRange
  let serializedChecksum := UInt32.ofNat (beNat (serializedData.drop (n - 4)))
  let calculatedChecksum := crcChecksum (serializedData.take (n - 4))
  reject (serializedChecksum ≠ calculatedChecksum) (.checksumMismatch calculatedChecksum serializedChecksum)
  let serializedNet := UInt32.ofNat (leNat (serializedData.take 4))
  reject (serializedNet ≠ network) (.wrongNetwork serializedNet network)
  reject (n < 12) .outOfRange
  return (serializedData.take (n - 4)).drop 8

def readRecord (s : BlockStore) (file : Nat) (loc : BlockLocation) (fails : Bool) : Except StoreError Bytes :=
  match if fails then none else File.readAt (s.disk.content file) loc.fileOffset.toNat loc.blockLen.toNat with
  | none => .error (.readFailed loc.blockFileNum loc.fileOffset)
  | some serializedData => checkRecord s.network serializedData

def readBlock (loc : BlockLocation) (io : ReadFaults) : StoreM Bytes := do
  let file ← blockFile loc.blockFileNum io.openFails
  match readRecord (← get) file loc io.readFails with
  | .error e => throw e
  | .ok rawBlock => return rawBlock

/-! ### Rolling back -/

/-- What happens to the system calls of `handleRollback`: which files cannot be deleted, and whether
opening or cutting the last file fails. -/
structure RollbackFaults where
  deleteFails : UInt32 → Bool
  openFails : Bool
  truncateFails : Bool

/-- The current file is closed if it is to be deleted. -/
def closeCurFile (oldBlockFileNum : UInt32) (s : BlockStore) : BlockStore :=
  if s.curFileNum > oldBlockFileNum then { s with curFile := none } else s

/-- The files after the one to roll back to are deleted, the last first, as long as this succeeds. -/
def deleteFiles (oldBlockFileNum : UInt32) (fails : UInt32 → Bool) : Nat → BlockStore → Bool × BlockStore
  | 0, s => (true, s)
  | n + 1, s =>
    if s.curFileNum > oldBlockFileNum then
      if (s.disk.dir s.curFileNum).isNone || fails s.curFileNum then (false, s)
      else deleteFiles oldBlockFileNum fails n
        { s with disk := s.disk.remove s.curFileNum, curFileNum := s.curFileNum - 1 }
    else (true, s)

/-- The current file is opened if it is not, and cut. -/
def truncateCurFile (s : BlockStore) (oldBlockOffset : UInt32) (io : RollbackFaults) : BlockStore :=
  match openCurFile io.openFails s with
  | .error _ s => s
  | .ok _ s =>
    match s.curFile with
    | none => s
    | some file =>
      if io.truncateFails then s
      else { s with disk := s.disk.modify file (File.truncate · oldBlockOffset.toNat) }

/-- `handleRollback`. The write cursor is set back whatever happens before. -/
def handleRollback (oldBlockFileNum oldBlockOffset : UInt32) (io : RollbackFaults) (s : BlockStore) : BlockStore :=
  if s.curFileNum = oldBlockFileNum ∧ s.curOffset = oldBlockOffset then s
  else
    let deleted := deleteFiles oldBlockFileNum io.deleteFails (s.curFileNum.toNat - oldBlockFileNum.toNat)
      (closeCurFile oldBlockFileNum s)
    let cut := if deleted.1 then truncateCurFile deleted.2 oldBlockOffset io else deleted.2
    { cut with curFileNum := oldBlockFileNum, curOffset := oldBlockOffset }

end Ffldb

end Prova
