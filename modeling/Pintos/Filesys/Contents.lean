import Pintos.Filesys.Inode
import Pintos.Kernel.BitArray

/-! The contents of a file as an array of bytes, and what `inode_read_at` and `inode_write_at` do
to it. -/
namespace Pintos.Filesys
open Kernel Machine Image

def contents (disk : Disk) (data : InodeDisk) : List UInt8 :=
  slice disk (data.start * sectorSize) data.length.toNat

def transferred (data : InodeDisk) (size : Int) (offset : Nat) : Int :=
  max 0 (min size (data.length - offset))

def extentEnd (data : InodeDisk) : Nat :=
  data.start + (data.length.toNat + (sectorSize - 1)) / sectorSize

section Bounced
variable (device : Nat) (data : InodeDisk)

-- The loops without the path for whole sectors.
def readBounced (disk : Disk) : Nat → Nat → Nat → Except Fault (List UInt8)
  | 0, _, _ => .ok []
  | fuel + 1, size, offset => do
    let sectorOfs := offset % sectorSize
    if size = 0 ∨ chunkSize data size offset ≤ 0 then .ok []
    else
      let chunk := (chunkSize data size offset).toNat
      let sector ← blockRead device disk (byteToSector data offset)
      .ok ((sector.drop sectorOfs).take chunk ++
        (← readBounced disk fuel (size - chunk) (offset + chunk)))

def writeBounced : Nat → Disk → List UInt8 → Nat → Except Fault (Nat × Disk)
  | 0, disk, _, _ => .ok (0, disk)
  | fuel + 1, disk, buffer, offset => do
    let sectorOfs := offset % sectorSize
    if buffer.length = 0 ∨ chunkSize data buffer.length offset ≤ 0 then .ok (0, disk)
    else
      let chunk := (chunkSize data buffer.length offset).toNat
      let sector ← if 0 < sectorOfs ∨ chunk < sectorSize - sectorOfs then
          blockRead device disk (byteToSector data offset)
        else .ok (List.replicate sectorSize 0)
      let sector := sector.take sectorOfs ++ buffer.take chunk ++ sector.drop (sectorOfs + chunk)
      let disk ← blockWrite device disk (byteToSector data offset) sector
      let (written, disk) ← writeBounced fuel disk (buffer.drop chunk) (offset + chunk)
      .ok (chunk + written, disk)

end Bounced

section Contents
variable {device : Nat} {data : InodeDisk} {disk : Disk} {fuel size offset : Nat}
  {buffer : List UInt8}

theorem readPaths : readLoop device data true disk fuel size offset =
    readBounced device data disk fuel size offset := by
  induction fuel generalizing size offset with
  | zero => rfl
  | succ fuel ih =>
    simp only [readLoop, readBounced, ih, if_true]
    split
    · rfl
    · split
      · rename_i whole
        unfold blockRead
        split
        · have all : (slice disk (byteToSector data offset * sectorSize) sectorSize).take sectorSize =
              slice disk (byteToSector data offset * sectorSize) sectorSize :=
            List.take_of_length_le (by rw [sliceLength])
          simp only [whole.1, whole.2, List.drop_zero, bind, Except.bind, all]
        · rfl
      · rfl

theorem writePaths : writeLoop device data true fuel disk buffer offset =
    writeBounced device data fuel disk buffer offset := by
  induction fuel generalizing disk buffer offset with
  | zero => rfl
  | succ fuel ih =>
    simp only [writeLoop, writeBounced, ih, if_true]
    split
    · rfl
    · split
      · rename_i whole
        -- the bounce buffer is neither read from the sector nor kept in part
        have fresh : ¬(0 < offset % sectorSize ∨
            (chunkSize data buffer.length offset).toNat < sectorSize - offset % sectorSize) := by
          omega
        have kept : (List.replicate sectorSize (0 : UInt8)).drop
            (0 + (chunkSize data buffer.length offset).toNat) = [] := by
          rw [whole.2, Nat.zero_add]
          exact List.drop_eq_nil_of_le (by simp)
        rw [if_neg fresh]
        simp only [bind, Except.bind, whole.1, kept, List.take_zero, List.nil_append,
          List.append_nil]
      · rfl

theorem transferredAvailable (data : InodeDisk) (size : Int) (offset : Nat) :
    (transferred data size offset).toNat = available data size.toNat offset := by
  unfold transferred available
  omega

theorem availableContents : slice disk (data.start * sectorSize + offset) (available data size offset) =
    ((contents disk data).drop offset).take (available data size offset) := by
  rcases Nat.eq_zero_or_pos (available data size offset) with none | some
  · rw [none, List.take_zero]
    rfl
  · have inside : offset + available data size offset ≤ data.length.toNat := by
      unfold available at *
      omega
    exact (sliceWithin inside).symm

theorem extentWithin (within : Within device data) : Within (min device (extentEnd data)) data := by
  refine ⟨Nat.le_trans (Nat.min_le_left ..) within.1, fun pos inside => ?_⟩
  have bound := within.2 pos inside
  unfold extentEnd
  unfold sectorSize at *
  omega

theorem fileContents (s : State) (i offset : Nat) (within : Within s.device (s.inode i).data)
    (d : Nat) (ends : d = s.device ∨ d = min s.device (extentEnd (s.inode i).data)) :
    (∀ size : Int,
      inodeReadAt { s with device := d } i size.toNat offset true =
        .ok (((contents s.disk (s.inode i).data).drop offset).take
          (transferred (s.inode i).data size offset).toNat) ∧
      ((((contents s.disk (s.inode i).data).drop offset).take
          (transferred (s.inode i).data size offset).toNat).length : Int) =
        transferred (s.inode i).data size offset) ∧
    (∀ (size : Int) (buffer : List UInt8), size ≤ buffer.length → (s.inode i).denyWriteCnt = 0 →
      ∃ disk, inodeWriteAt { s with device := d } i (buffer.take size.toNat) offset true =
        .ok ((transferred (s.inode i).data size offset).toNat, { s with device := d, disk }) ∧
      (∀ k < (transferred (s.inode i).data size offset).toNat,
        buffer[k]? = some (disk ((s.inode i).data.start * sectorSize + (offset + k)))) ∧
      ∀ x, ¬((s.inode i).data.start * sectorSize + offset ≤ x ∧ x < (s.inode i).data.start * sectorSize
        + offset + (transferred (s.inode i).data size offset).toNat) → disk x = s.disk x) ∧
    (∀ disk fuel size, readLoop d (s.inode i).data true disk fuel size offset =
      readBounced d (s.inode i).data disk fuel size offset) ∧
    ∀ disk fuel buffer, writeLoop d (s.inode i).data true fuel disk buffer offset =
      writeBounced d (s.inode i).data fuel disk buffer offset := by
  have within : Within d (s.inode i).data := by
    rcases ends with rfl | rfl
    · exact within
    · exact extentWithin within
  refine ⟨fun size => ⟨?_, ?_⟩, fun size buffer enough allows => ?_, fun _ _ _ => readPaths,
    fun _ _ _ => writePaths⟩
  · rw [transferredAvailable, ← availableContents]
    exact readSpec within (Nat.le_refl _)
  · rw [transferredAvailable, ← availableContents, sliceLength]
    unfold available transferred
    omega
  · have length : (buffer.take size.toNat).length = size.toNat := by
      rw [List.length_take]
      omega
    have wrote : inodeWriteAt { s with device := d } i (buffer.take size.toNat) offset true =
        .ok (available (s.inode i).data size.toNat offset, { s with
          device := d
          disk := overlay s.disk ((s.inode i).data.start * sectorSize + offset)
            ((buffer.take size.toNat).take (available (s.inode i).data size.toNat offset)) }) := by
      unfold inodeWriteAt
      rw [if_neg (by simp [allows])]
      refine bindOk.mpr ⟨_, writeSpec within (Nat.le_refl _), ?_⟩
      rw [length]
    have part : ((buffer.take size.toNat).take (available (s.inode i).data size.toNat offset)).length =
        available (s.inode i).data size.toNat offset := by
      rw [List.length_take, length]
      unfold available
      omega
    rw [transferredAvailable]
    refine ⟨_, wrote, fun k less => ?_, fun x outside => ?_⟩
    · rw [← Nat.add_assoc, overlayWithin (by rw [part]; exact less), List.getElem_take,
        List.getElem_take]
      exact List.getElem?_eq_getElem _
    · refine overlayApart ?_
      rw [part]
      omega

def twoSectors : State where
  device := 5
  disk := fun x => UInt8.ofNat x
  freeMap := ⟨5, fun _ => 0#32⟩
  freeMapFile := none
  openInodes := [0]
  inode := fun _ => ⟨2, 1, false, 0, ⟨3, 700, inodeMagic⟩⟩
  file := fun _ => ⟨0, 0, false⟩
  next := 1

theorem fileContentsExample : Within twoSectors.device (twoSectors.inode 0).data ∧
    ∃ bytes, inodeReadAt twoSectors 0 600 200 true = .ok bytes ∧ bytes.length = 500 := by
  have within : Within twoSectors.device (twoSectors.inode 0).data := by
    refine ⟨by decide, fun pos inside => ?_⟩
    change (pos : Int) < 700 at inside
    change 3 + pos / 512 < 5
    omega
  obtain ⟨read, length⟩ := (fileContents twoSectors 0 200 within 5 (.inl rfl)).1 600
  exact ⟨within, _, read, Int.ofNat_inj.mp length⟩

end Contents

section Created
variable {s s' : State} {device start cnt sector : Nat} {disk disk' : Disk} {length : Int}

theorem zeroSpec (done : zeroSectors device disk start cnt = .ok disk') :
    disk' = overlay disk (start * sectorSize) (List.replicate (cnt * sectorSize) 0) := by
  induction cnt generalizing disk start with
  | zero =>
    cases done
    rw [Nat.zero_mul, List.replicate_zero, overlayNil]
  | succ cnt ih =>
    obtain ⟨next, wrote, rest⟩ := bindOk.mp done
    unfold blockWrite at wrote
    split at wrote <;> cases wrote
    rw [ih rest, Nat.succ_mul cnt, Nat.add_comm _ sectorSize, ← List.replicate_append_replicate,
      overlayAppend, List.length_replicate, Nat.succ_mul]

theorem allocatedFree (done : freeMapAllocate s cnt = .ok (some start, s')) :
    Group s.freeMap cnt false start := by
  obtain ⟨found, _, flips, first, _⟩ := scanAndFlipFirst 0 cnt false (Nat.zero_le s.freeMap.bitCnt)
  obtain ⟨_, scanned, done⟩ := bindOk.mp done
  cases flips.symm.trans scanned
  cases found with
  | none => cases done
  | some sector =>
    suffices same : sector = start from same ▸ first.2.1
    dsimp only at done
    split at done
    · cases done
      rfl
    · obtain ⟨stored, _, done⟩ := bindOk.mp done
      split at done
      · cases done
        rfl
      · obtain ⟨_, _, done⟩ := bindOk.mp done
        cases done

theorem sectorsCover (low : 0 ≤ length) (high : length < 2 ^ 31) :
    length.toNat ≤ bytesToSectors length * sectorSize := by
  unfold bytesToSectors signed sectorSize
  rw [Int.tdiv_eq_ediv, Int.sign_eq_one_of_pos (by decide)]
  split <;> split <;> omega

theorem createdInode (created : inodeCreate s sector length true = .ok (true, s'))
    (high : length < 2 ^ 31) (words : s.freeMap.bitCnt < 2 ^ 32)
    (taken : s.freeMap.bit sector) :
    ∃ start, diskInode s'.disk sector = ⟨start, length, inodeMagic⟩ ∧
      contents s'.disk ⟨start, length, inodeMagic⟩ = List.replicate length.toNat 0 ∧
      ∀ k < bytesToSectors length, s.freeMap.bit (start + k) = false := by
  simp only [inodeCreate, if_true] at created
  split at created <;> try contradiction
  rename_i low
  obtain ⟨⟨extent, s₁⟩, allocates, created⟩ := bindOk.mp created
  cases extent with
  | none => cases created
  | some start =>
    obtain ⟨fits, free⟩ := allocatedFree allocates
    obtain ⟨_, wrote, created⟩ := bindOk.mp created
    obtain ⟨disk, zeroed, created⟩ := bindOk.mp created
    cases created
    unfold blockWrite at wrote
    split at wrote <;> cases wrote
    refine ⟨start, ?_, ?_, free⟩ <;> rw [zeroSpec zeroed]
    · -- the extent was free, the sector not
      have apart : sector + 1 ≤ start ∨ start + bytesToSectors length ≤ sector := by
        by_contra within
        have bit := free (sector - start) (by omega)
        rw [Nat.add_sub_cancel' (by omega), taken] at bit
        cases bit
      rw [diskInode, sliceOverlayApart, sliceOverlay]
      · exact decodeEncode (by dsimp only; omega) (Int.not_lt.mp low) high
          (by decide : inodeMagic < 2 ^ 32)
      · rw [encodeInode, List.length_append, List.length_replicate]
        rfl
      · rw [List.length_replicate, ← Nat.add_mul, ← Nat.succ_mul]
        exact apart.imp (Nat.mul_le_mul_right _) (Nat.mul_le_mul_right _)
    · have covered := sectorsCover (Int.not_lt.mp low) high
      rw [contents, ← sliceTake covered, sliceOverlay (List.length_replicate ..),
        List.take_replicate, Nat.min_eq_left covered]

theorem createdInodeExample : ∃ s s', inodeCreate s 1 1 true = .ok (true, s') ∧
    (diskInode s'.disk 1).length = 1 := by
  have created : inodeCreate { twoSectors with freeMap := ⟨5, fun _ => 2#32⟩ } 1 1 true =
      .ok (true, _) := rfl
  obtain ⟨_, stored, _⟩ := createdInode created (by decide) (by decide) (by decide)
  exact ⟨_, _, created, stored ▸ rfl⟩

end Created

end Pintos.Filesys
