import Mathlib.Algebra.Order.Ring.Int
import Pintos.Kernel.BitArray
import Pintos.Lib.Image

/-! The file system device and the data of an inode on it: the loops of `inode_read_at` and
`inode_write_at`, sector by sector. The device is one image of bytes, so that the data of a file
is the run of bytes from its first sector on. -/
namespace Pintos.Filesys
open Kernel Machine Image

abbrev Disk := Nat → UInt8

def sectorSize : Nat := 512

section Device
variable (device : Nat) (disk : Disk)

-- `check_sector` panics past the end of the device.
def blockRead (sector : Nat) : Except Fault (List UInt8) :=
  if sector < device then .ok (slice disk (sector * sectorSize) sectorSize) else .error .panic

def blockWrite (sector : Nat) (buffer : List UInt8) : Except Fault Disk :=
  if sector < device then .ok (overlay disk (sector * sectorSize) buffer) else .error .panic

end Device

def word (n : Nat) : List UInt8 :=
  [UInt8.ofNat n, UInt8.ofNat (n / 256), UInt8.ofNat (n / 65536), UInt8.ofNat (n / 16777216)]

def readWord (bytes : List UInt8) : Nat :=
  (bytes.getD 0 0).toNat + 256 * (bytes.getD 1 0).toNat + 65536 * (bytes.getD 2 0).toNat +
    16777216 * (bytes.getD 3 0).toNat

def signed (n : Nat) : Int := if n < 2 ^ 31 then n else n - 2 ^ 32

-- `struct inode_disk` without its unused words.
structure InodeDisk where
  start : Nat
  length : Int
  magic : Nat
  deriving DecidableEq, Repr

def inodeMagic : Nat := 0x494e4f44

def encodeInode (d : InodeDisk) : List UInt8 :=
  word d.start ++ word (d.length % 2 ^ 32).toNat ++ word d.magic ++ List.replicate 500 0

def decodeInode (bytes : List UInt8) : InodeDisk :=
  ⟨readWord bytes, signed (readWord (bytes.drop 4)), readWord (bytes.drop 8)⟩

def diskInode (disk : Disk) (sector : Nat) : InodeDisk :=
  decodeInode (slice disk (sector * sectorSize) sectorSize)

def bytesToSectors (size : Int) : Nat :=
  ((signed ((size + 511) % 2 ^ 32).toNat).tdiv 512 % 2 ^ 32).toNat

def byteToSector (data : InodeDisk) (pos : Nat) : Nat :=
  if (pos : Int) < data.length then (data.start + pos / sectorSize) % 2 ^ 32 else 2 ^ 32 - 1

def chunkSize (data : InodeDisk) (size offset : Nat) : Int :=
  let inodeLeft := data.length - offset
  let sectorLeft : Int := sectorSize - (offset % sectorSize : Nat)
  let minLeft := if inodeLeft < sectorLeft then inodeLeft else sectorLeft
  if (size : Int) < minLeft then size else minLeft

section Loops
variable (device : Nat) (data : InodeDisk) (bounce : Bool)

-- A round copies a byte at least, so the size is fuel enough. `bounce` says whether the
-- bounce buffer can be allocated.
def readLoop (disk : Disk) : Nat → Nat → Nat → Except Fault (List UInt8)
  | 0, _, _ => .ok []
  | fuel + 1, size, offset => do
    let sectorOfs := offset % sectorSize
    if size = 0 ∨ chunkSize data size offset ≤ 0 then .ok []
    else
      let chunk := (chunkSize data size offset).toNat
      if sectorOfs = 0 ∧ chunk = sectorSize then do
        let sector ← blockRead device disk (byteToSector data offset)
        .ok (sector ++ (← readLoop disk fuel (size - chunk) (offset + chunk)))
      else if bounce then do
        let sector ← blockRead device disk (byteToSector data offset)
        .ok ((sector.drop sectorOfs).take chunk ++
          (← readLoop disk fuel (size - chunk) (offset + chunk)))
      else .ok []

def writeLoop : Nat → Disk → List UInt8 → Nat → Except Fault (Nat × Disk)
  | 0, disk, _, _ => .ok (0, disk)
  | fuel + 1, disk, buffer, offset => do
    let sectorOfs := offset % sectorSize
    if buffer.length = 0 ∨ chunkSize data buffer.length offset ≤ 0 then .ok (0, disk)
    else
      let chunk := (chunkSize data buffer.length offset).toNat
      if sectorOfs = 0 ∧ chunk = sectorSize then do
        let disk ← blockWrite device disk (byteToSector data offset) (buffer.take chunk)
        let (written, disk) ← writeLoop fuel disk (buffer.drop chunk) (offset + chunk)
        .ok (chunk + written, disk)
      else if bounce then do
        let sector ← if 0 < sectorOfs ∨ chunk < sectorSize - sectorOfs then
            blockRead device disk (byteToSector data offset)
          else .ok (List.replicate sectorSize 0)
        let sector := sector.take sectorOfs ++ buffer.take chunk ++ sector.drop (sectorOfs + chunk)
        let disk ← blockWrite device disk (byteToSector data offset) sector
        let (written, disk) ← writeLoop fuel disk (buffer.drop chunk) (offset + chunk)
        .ok (chunk + written, disk)
      else .ok (0, disk)

end Loops

section Words
variable {n : Nat}

theorem readWordWord (small : n < 2 ^ 32) (rest : List UInt8) : readWord (word n ++ rest) = n := by
  simp [readWord, word]
  omega

theorem signedSmall (small : n < 2 ^ 31) : signed n = n := if_pos small

theorem decodeEncode {d : InodeDisk} (start : d.start < 2 ^ 32) (low : 0 ≤ d.length)
    (high : d.length < 2 ^ 31) (magic : d.magic < 2 ^ 32) : decodeInode (encodeInode d) = d := by
  have fits : (d.length % 2 ^ 32).toNat < 2 ^ 31 := by omega
  have value : ((d.length % 2 ^ 32).toNat : Int) = d.length := by omega
  have shape : encodeInode d = word d.start ++
      (word (d.length % 2 ^ 32).toNat ++ (word d.magic ++ List.replicate 500 0)) := by
    rw [encodeInode, List.append_assoc, List.append_assoc]
  have second : (encodeInode d).drop 4 =
      word (d.length % 2 ^ 32).toNat ++ (word d.magic ++ List.replicate 500 0) := by
    rw [shape]
    exact List.drop_left' rfl
  have third : (encodeInode d).drop 8 = word d.magic ++ List.replicate 500 0 := by
    rw [← List.drop_drop (i := 4) (j := 4), second]
    exact List.drop_left' rfl
  unfold decodeInode
  rw [second, third, readWordWord (by omega), readWordWord magic, signedSmall fits, value]
  rw [shape, readWordWord start]

end Words

section Loops
variable {device : Nat} {data : InodeDisk} {disk : Disk} {fuel size offset : Nat}
  {buffer : List UInt8}

def Within (device : Nat) (data : InodeDisk) : Prop :=
  device ≤ 2 ^ 32 ∧ ∀ pos : Nat, (pos : Int) < data.length → data.start + pos / sectorSize < device

def available (data : InodeDisk) (size offset : Nat) : Nat :=
  min size (data.length - offset).toNat

theorem chunkMin : chunkSize data size offset =
    min (size : Int) (min (data.length - offset) (512 - (offset % 512 : Nat))) := by
  unfold chunkSize sectorSize
  simp only [min_def]
  split <;> split <;> split <;> split <;> omega

theorem chunkEnd (some : 0 < size) :
    chunkSize data size offset ≤ 0 ↔ data.length ≤ offset := by
  rw [chunkMin]
  omega

theorem chunkBounds (some : 0 < chunkSize data size offset) :
    0 < (chunkSize data size offset).toNat ∧ (chunkSize data size offset).toNat ≤ size ∧
      offset % sectorSize + (chunkSize data size offset).toNat ≤ sectorSize ∧
      ((offset + (chunkSize data size offset).toNat : Nat) : Int) ≤ data.length := by
  rw [chunkMin] at *
  unfold sectorSize
  omega

theorem availableRest {chunk : Nat} (bound : chunk ≤ size)
    (inside : ((offset + chunk : Nat) : Int) ≤ data.length) :
    available data size offset = chunk + available data (size - chunk) (offset + chunk) := by
  unfold available
  omega

theorem byteToSectorWithin (within : Within device data) (inside : (offset : Int) < data.length) :
    byteToSector data offset < device ∧ byteToSector data offset * sectorSize + offset % sectorSize =
      data.start * sectorSize + offset := by
  have bound := within.2 offset inside
  have top := within.1
  unfold byteToSector
  rw [if_pos inside, Nat.mod_eq_of_lt (by omega)]
  unfold sectorSize at *
  omega

theorem readSpec (within : Within device data) (enough : size ≤ fuel) :
    readLoop device data true disk fuel size offset =
      .ok (slice disk (data.start * sectorSize + offset) (available data size offset)) := by
  induction fuel generalizing size offset with
  | zero =>
    have none : available data size offset = 0 := by
      unfold available
      omega
    rw [none]
    rfl
  | succ fuel ih =>
    unfold readLoop
    by_cases stop : size = 0 ∨ chunkSize data size offset ≤ 0
    · have none : available data size offset = 0 := by
        rcases Nat.eq_zero_or_pos size with zero | some
        · unfold available
          omega
        · have past := (chunkEnd some).mp (stop.resolve_left (by omega))
          unfold available
          omega
      simp only [if_pos stop, none]
      rfl
    · simp only [if_neg stop]
      obtain ⟨_, less⟩ := not_or.mp stop
      obtain ⟨positive, bound, fits, inside⟩ := chunkBounds (Int.not_le.mp less)
      obtain ⟨sector, address⟩ := byteToSectorWithin within (by omega : (offset : Int) < data.length)
      have block : blockRead device disk (byteToSector data offset) =
          .ok (slice disk (byteToSector data offset * sectorSize) sectorSize) := if_pos sector
      have rest : readLoop device data true disk fuel (size - (chunkSize data size offset).toNat)
          (offset + (chunkSize data size offset).toNat) =
          .ok (slice disk (data.start * sectorSize + (offset + (chunkSize data size offset).toNat))
            (available data (size - (chunkSize data size offset).toNat)
              (offset + (chunkSize data size offset).toNat))) := ih (by omega)
      have part : ((slice disk (byteToSector data offset * sectorSize) sectorSize).drop
          (offset % sectorSize)).take (chunkSize data size offset).toNat =
          slice disk (data.start * sectorSize + offset) (chunkSize data size offset).toNat := by
        rw [sliceWithin fits, address]
      rw [availableRest bound inside, sliceAdd, ← part, Nat.add_assoc]
      by_cases whole : offset % sectorSize = 0 ∧ (chunkSize data size offset).toNat = sectorSize
      · rw [if_pos whole]
        refine bindOk.mpr ⟨_, block, bindOk.mpr ⟨_, rest, ?_⟩⟩
        rw [whole.1, whole.2, List.drop_zero, List.take_of_length_le (by simp)]
      · rw [if_neg whole]
        exact bindOk.mpr ⟨_, block, bindOk.mpr ⟨_, rest, rfl⟩⟩

theorem writeSpec (within : Within device data) (enough : buffer.length ≤ fuel) :
    writeLoop device data true fuel disk buffer offset =
      .ok (available data buffer.length offset,
        overlay disk (data.start * sectorSize + offset)
          (buffer.take (available data buffer.length offset))) := by
  induction fuel generalizing disk buffer offset with
  | zero =>
    have none : available data buffer.length offset = 0 := by
      unfold available
      omega
    rw [none, List.take_zero, overlayNil]
    rfl
  | succ fuel ih =>
    unfold writeLoop
    by_cases stop : buffer.length = 0 ∨ chunkSize data buffer.length offset ≤ 0
    · have none : available data buffer.length offset = 0 := by
        rcases Nat.eq_zero_or_pos buffer.length with zero | some
        · unfold available
          omega
        · have past := (chunkEnd some).mp (stop.resolve_left (by omega))
          unfold available
          omega
      simp only [if_pos stop, none, List.take_zero, overlayNil]
    · simp only [if_neg stop]
      obtain ⟨_, less⟩ := not_or.mp stop
      obtain ⟨positive, bound, fits, inside⟩ := chunkBounds (Int.not_le.mp less)
      obtain ⟨sector, address⟩ := byteToSectorWithin within (by omega : (offset : Int) < data.length)
      generalize (chunkSize data buffer.length offset).toNat = chunk at *
      have written : ∀ bytes : List UInt8, blockWrite device disk (byteToSector data offset) bytes =
          .ok (overlay disk (byteToSector data offset * sectorSize) bytes) := fun _ => if_pos sector
      have taken : (buffer.take chunk).length = chunk := by simp; omega
      have less : (buffer.drop chunk).length ≤ fuel := by simp; omega
      have rest : writeLoop device data true fuel
          (overlay disk (data.start * sectorSize + offset) (buffer.take chunk)) (buffer.drop chunk)
          (offset + chunk) = _ := ih less
      rw [List.length_drop] at rest
      have whole : overlay disk (data.start * sectorSize + offset)
          (buffer.take (available data buffer.length offset)) =
          overlay (overlay disk (data.start * sectorSize + offset) (buffer.take chunk))
            (data.start * sectorSize + (offset + chunk))
            ((buffer.drop chunk).take (available data (buffer.length - chunk) (offset + chunk))) := by
        rw [availableRest bound inside, List.take_add, overlayAppend, taken, Nat.add_assoc]
      rw [whole]
      by_cases full : offset % sectorSize = 0 ∧ chunk = sectorSize
      · rw [if_pos full]
        rw [full.1, Nat.add_zero] at address
        refine bindOk.mpr ⟨_, written _, ?_⟩
        rw [address]
        refine bindOk.mpr ⟨_, rest, ?_⟩
        rw [availableRest bound inside]
      · rw [if_neg full]
        have partly : 0 < offset % sectorSize ∨ chunk < sectorSize - offset % sectorSize := by
          unfold sectorSize at *
          omega
        have block : blockRead device disk (byteToSector data offset) =
            .ok (slice disk (byteToSector data offset * sectorSize) sectorSize) := if_pos sector
        have patched : overlay disk (byteToSector data offset * sectorSize)
            ((slice disk (byteToSector data offset * sectorSize) sectorSize).take (offset % sectorSize) ++
              buffer.take chunk ++
              (slice disk (byteToSector data offset * sectorSize) sectorSize).drop
                (offset % sectorSize + chunk)) =
            overlay disk (data.start * sectorSize + offset) (buffer.take chunk) := by
          have inside : offset % sectorSize + (buffer.take chunk).length ≤ sectorSize := by
            rw [taken]
            exact fits
          rw [← address, ← overlayPatch inside, taken]
        rw [if_pos partly, block]
        refine bindOk.mpr ⟨_, rfl, bindOk.mpr ⟨_, written _, ?_⟩⟩
        rw [patched]
        refine bindOk.mpr ⟨_, rest, ?_⟩
        rw [availableRest bound inside]

end Loops

end Pintos.Filesys
