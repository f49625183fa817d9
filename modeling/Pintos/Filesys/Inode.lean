import Pintos.Filesys.Disk

/-! Inodes, open files and the free map: filesys/inode.c, filesys/file.c and
filesys/free-map.c. Inodes and files are memory that `malloc` and `calloc` hand out; `memory`
says whether they can. -/
namespace Pintos.Filesys
open Kernel Machine Image

structure Inode where
  sector : Nat
  openCnt : Int
  removed : Bool
  denyWriteCnt : Int
  data : InodeDisk
  deriving DecidableEq, Repr

structure File where
  inode : Nat
  pos : Nat
  denyWrite : Bool
  deriving DecidableEq, Repr

structure State where
  device : Nat
  disk : Disk
  freeMap : Bitmap
  freeMapFile : Option Nat
  openInodes : List Nat
  inode : Nat → Inode
  file : Nat → File
  next : Nat

def freeMapSector : Nat := 0

def State.setInode (s : State) (i : Nat) (inode : Inode) : State :=
  { s with inode := Function.update s.inode i inode }

def State.setFile (s : State) (f : Nat) (file : File) : State :=
  { s with file := Function.update s.file f file }

def inodeReadAt (s : State) (i size offset : Nat) (bounce : Bool) : Except Fault (List UInt8) :=
  readLoop s.device (s.inode i).data bounce s.disk size size offset

def inodeWriteAt (s : State) (i : Nat) (buffer : List UInt8) (offset : Nat) (bounce : Bool) :
    Except Fault (Nat × State) :=
  if (s.inode i).denyWriteCnt ≠ 0 then .ok (0, s)
  else do
    let (written, disk) ← writeLoop s.device (s.inode i).data bounce buffer.length s.disk buffer offset
    .ok (written, { s with disk })

def inodeDenyWrite (s : State) (i : Nat) : Except Fault State :=
  let inode := s.inode i
  if inode.denyWriteCnt + 1 ≤ inode.openCnt then
    .ok (s.setInode i { inode with denyWriteCnt := inode.denyWriteCnt + 1 })
  else .error .assertion

def inodeAllowWrite (s : State) (i : Nat) : Except Fault State :=
  let inode := s.inode i
  if 0 < inode.denyWriteCnt ∧ inode.denyWriteCnt ≤ inode.openCnt then
    .ok (s.setInode i { inode with denyWriteCnt := inode.denyWriteCnt - 1 })
  else .error .assertion

def inodeReopen (s : State) (i : Nat) : State :=
  s.setInode i { s.inode i with openCnt := (s.inode i).openCnt + 1 }

def inodeOpen (s : State) (sector : Nat) (memory : Bool) : Except Fault (Option Nat × State) :=
  match s.openInodes.find? fun i => (s.inode i).sector == sector with
  | some i => .ok (some i, inodeReopen s i)
  | none =>
    if memory then do
      let block ← blockRead s.device s.disk sector
      let i := s.next
      .ok (some i, { s.setInode i ⟨sector, 1, false, 0, decodeInode block⟩ with
        openInodes := i :: s.openInodes
        next := i + 1 })
    else .ok (none, s)

def inodeRemove (s : State) (i : Nat) : State :=
  s.setInode i { s.inode i with removed := true }

def fileWriteAt (s : State) (f : Nat) (buffer : List UInt8) (fileOfs : Nat) (bounce : Bool) :
    Except Fault (Nat × State) :=
  inodeWriteAt s (s.file f).inode buffer fileOfs bounce

def bitmapWrite (s : State) (f : Nat) : Except Fault (Bool × State) := do
  let size := bitmapFileSize s.freeMap
  let (written, s) ← fileWriteAt s f (bitmapBytes s.freeMap size) 0 true
  .ok (written == size, s)

def freeMapAllocate (s : State) (cnt : Nat) : Except Fault (Option Nat × State) := do
  match ← bitmapScanAndFlip s.freeMap 0 cnt false with
  | (none, freeMap) => .ok (none, { s with freeMap })
  | (some sector, freeMap) =>
    let s := { s with freeMap }
    match s.freeMapFile with
    | none => .ok (some sector, s)
    | some f => do
      let (stored, s) ← bitmapWrite s f
      if stored then .ok (some sector, s)
      else .ok (none, { s with freeMap := ← bitmapSetMultiple s.freeMap sector cnt false })

def freeMapRelease (s : State) (sector cnt : Nat) : Except Fault State := do
  if ← bitmapAll s.freeMap sector cnt then
    let freeMap ← bitmapSetMultiple s.freeMap sector cnt false
    match s.freeMapFile with
    | none => .error .panic
    | some f => do .ok (← bitmapWrite { s with freeMap } f).2
  else .error .assertion

def inodeClose (s : State) (i : Nat) : Except Fault State := do
  let inode := s.inode i
  let openCnt := inode.openCnt - 1
  let s := s.setInode i { inode with openCnt }
  if openCnt = 0 then do
    let s := { s with openInodes := s.openInodes.erase i }
    if inode.removed then do
      let s ← freeMapRelease s inode.sector 1
      freeMapRelease s inode.data.start (bytesToSectors inode.data.length)
    else .ok s
  else .ok s

def zeroSectors (device : Nat) (disk : Disk) (start : Nat) : Nat → Except Fault Disk
  | 0 => .ok disk
  | sectors + 1 => do
    let disk ← blockWrite device disk start (List.replicate sectorSize 0)
    zeroSectors device disk (start + 1) sectors

def inodeCreate (s : State) (sector : Nat) (length : Int) (memory : Bool) :
    Except Fault (Bool × State) :=
  if length < 0 then .error .assertion
  else if memory then do
    let sectors := bytesToSectors length
    match ← freeMapAllocate s sectors with
    | (none, s) => .ok (false, s)
    | (some start, s) => do
      let disk ← blockWrite s.device s.disk sector (encodeInode ⟨start, length, inodeMagic⟩)
      let disk ← zeroSectors s.device disk start sectors
      .ok (true, { s with disk })
  else .ok (false, s)

def closeAny (s : State) : Option Nat → Except Fault State
  | none => .ok s
  | some i => inodeClose s i

def fileOpen (s : State) (inode : Option Nat) (memory : Bool) : Except Fault (Option Nat × State) :=
  match inode, memory with
  | some i, true =>
    let f := s.next
    .ok (some f, { s.setFile f ⟨i, 0, false⟩ with next := f + 1 })
  | inode, _ => do .ok (none, ← closeAny s inode)

def fileReopen (s : State) (f : Nat) (memory : Bool) : Except Fault (Option Nat × State) :=
  let i := (s.file f).inode
  fileOpen (inodeReopen s i) (some i) memory

def fileDenyWrite (s : State) (f : Nat) : Except Fault State :=
  let file := s.file f
  if file.denyWrite then .ok s
  else inodeDenyWrite (s.setFile f { file with denyWrite := true }) file.inode

def fileAllowWrite (s : State) (f : Nat) : Except Fault State :=
  let file := s.file f
  if file.denyWrite then inodeAllowWrite (s.setFile f { file with denyWrite := false }) file.inode
  else .ok s

def fileClose (s : State) (f : Nat) : Except Fault State := do
  let s ← fileAllowWrite s f
  inodeClose s (s.file f).inode

def freeMapOpen (s : State) (memory : Bool) : Except Fault (Nat × State) := do
  let (inode, s) ← inodeOpen s freeMapSector memory
  let (file, s) ← fileOpen s inode memory
  match file with
  | none => .error .panic
  | some f => do
    let bytes ← inodeReadAt s (s.file f).inode (bitmapFileSize s.freeMap) 0 true
    let (stored, freeMap) := bitmapRead s.freeMap bytes
    if stored then .ok (f, { s with freeMap, freeMapFile := some f }) else .error .panic

end Pintos.Filesys
