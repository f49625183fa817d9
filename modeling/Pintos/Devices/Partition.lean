import Mathlib.Algebra.Group.Nat.Defs
import Mathlib.Logic.Relation
import Mathlib.Tactic.Basic

/-! Partition tables (devices/partition.c). A nested table is announced by its sector, but the
sector that is read is sector 0 whatever the argument. Memory for the tables is not limited here:
recursion without an end is a scan that has no result at any depth. -/
namespace Pintos.Devices

structure Block where
  size : Nat
  bytes : Nat → Nat → UInt8
  sectors : size < 2 ^ 32

structure Entry where
  type : Nat
  offset : Nat
  size : Nat
  deriving DecidableEq, Repr

def littleEndian (bytes : Nat → UInt8) (pos : Nat) : Nat → Nat
  | 0 => 0
  | width + 1 => (bytes pos).toNat + 256 * littleEndian bytes (pos + 1) width

def signature (bytes : Nat → UInt8) : Nat := littleEndian bytes 510 2

def entry (bytes : Nat → UInt8) (i : Nat) : Entry where
  type := littleEndian bytes (446 + 16 * i + 4) 1
  offset := littleEndian bytes (446 + 16 * i + 8) 4
  size := littleEndian bytes (446 + 16 * i + 12) 4

def entries (bytes : Nat → UInt8) : List Entry :=
  if signature bytes = 0xaa55 then (List.range 4).map (entry bytes) else []

def Entry.empty (e : Entry) : Bool := e.size == 0 || e.type == 0

def Entry.extended (e : Entry) : Bool :=
  e.type == 0x05 || e.type == 0x0f || e.type == 0x85 || e.type == 0xc5

inductive BlockType where
  | kernel | filesys | scratch | swap | foreign
  deriving DecidableEq, Repr

def blockType (type : Nat) : BlockType :=
  if type = 0x20 then .kernel else if type = 0x21 then .filesys
  else if type = 0x22 then .scratch else if type = 0x23 then .swap else .foreign

structure Partition where
  type : BlockType
  start : Nat
  size : Nat
  deriving DecidableEq, Repr

structure Scan where
  partNr : Nat := 0
  found : List (Nat × Partition) := []
  reads : List Nat := []
  deriving DecidableEq, Repr

def foundPartition (b : Block) (scan : Scan) (e : Entry) (start : Nat) : Scan :=
  if b.size ≤ start then scan
  else if (start + e.size) % 2 ^ 32 < start ∨ b.size < (start + e.size) % 2 ^ 32 then scan
  else { scan with found := scan.found ++ [(scan.partNr, ⟨blockType e.type, start, e.size⟩)] }

def nested (e : Entry) (sector primary : Nat) : Nat × Nat :=
  if sector = 0 then (e.offset, e.offset) else ((e.offset + primary) % 2 ^ 32, primary)

def parsePartitions (b : Block) (descend : Nat → Nat → Scan → Option Scan) (sector primary : Nat)
    (scan : Scan) (table : List Entry) : Option Scan :=
  table.foldlM (fun scan e =>
    if e.empty then some scan
    else if e.extended then descend (nested e sector primary).1 (nested e sector primary).2 scan
    else some (foundPartition b { scan with partNr := scan.partNr + 1 } e
      ((e.offset + sector) % 2 ^ 32))) scan

def readPartitionTable (b : Block) : Nat → Nat → Nat → Scan → Option Scan
  | 0, _, _, _ => none
  | depth + 1, sector, primary, scan =>
    if b.size ≤ sector then some scan
    else parsePartitions b (readPartitionTable b depth) sector primary
      { scan with reads := scan.reads ++ [0] } (entries (b.bytes 0))

def partitionScan (b : Block) (depth : Nat) : Option Scan := readPartitionTable b depth 0 0 {}

def partitionAccess (b : Block) (p : Partition) (sector : Nat) : Option Nat :=
  if p.size ≤ sector then none
  else if b.size ≤ (p.start + sector) % 2 ^ 32 then none
  else some ((p.start + sector) % 2 ^ 32)

def Entry.links (e : Entry) : Bool := !e.empty && e.extended

section Scans
variable {b : Block} {table : List Entry} {sector primary : Nat} {scan : Scan}
  {descend : Nat → Nat → Scan → Option Scan}
  {depth : Nat}

theorem parseStops {e : Entry} (inside : e ∈ table) (links : e.links = true)
    (stops : ∀ scan, descend (nested e sector primary).1 (nested e sector primary).2 scan = none) :
    parsePartitions b descend sector primary scan table = none := by
  obtain ⟨full, extended⟩ := Bool.and_eq_true_iff.mp links
  unfold parsePartitions
  induction table generalizing scan with
  | nil => cases inside
  | cons first rest ih =>
    rw [List.foldlM_cons]
    rcases List.mem_cons.mp inside with rfl | later
    · rw [if_neg (by simpa using full), if_pos extended, stops]
      rfl
    · exact Option.bind_eq_none_iff.mpr fun scan _ => ih later

theorem scanStops {e e' : Entry} (inside : e ∈ entries (b.bytes 0)) (links : e.links = true)
    (inside' : e' ∈ entries (b.bytes 0)) (links' : e'.links = true) (first : e.offset < b.size)
    (second : (e'.offset + e.offset) % 2 ^ 32 < b.size) (depth : Nat) (here : sector < b.size)
    (back : sector = 0 ∨ primary = e.offset) :
    readPartitionTable b depth sector primary scan = none := by
  induction depth generalizing sector primary scan with
  | zero => rfl
  | succ depth ih =>
    unfold readPartitionTable
    rw [if_neg (Nat.not_le.mpr here)]
    by_cases zero : sector = 0
    · refine parseStops inside links fun scan => ?_
      rw [nested, if_pos zero]
      exact ih first (.inr rfl)
    · have same := back.resolve_left zero
      refine parseStops inside' links' fun scan => ?_
      rw [nested, if_neg zero, same]
      exact ih second (.inr rfl)

theorem readPast (past : b.size ≤ sector) :
    readPartitionTable b (depth + 1) sector primary scan = some scan := if_pos past

theorem parseFlat (past : ∀ e ∈ table, e.links = true →
      b.size ≤ (nested e sector primary).1) :
    parsePartitions b (readPartitionTable b (depth + 1)) sector primary scan table =
      some (table.foldl (fun scan e => if e.empty || e.extended then scan
        else foundPartition b { scan with partNr := scan.partNr + 1 } e
          ((e.offset + sector) % 2 ^ 32)) scan) := by
  unfold parsePartitions
  induction table generalizing scan with
  | nil => rfl
  | cons e rest ih =>
    have rest := fun scan => @ih scan fun e inside => past e (List.mem_cons_of_mem _ inside)
    rw [List.foldlM_cons, List.foldl_cons]
    by_cases empty : e.empty = true
    · simp only [empty, if_true, Bool.true_or]
      exact rest scan
    · by_cases extended : e.extended = true
      · have links : e.links = true := by simp [Entry.links, empty, extended]
        simp only [empty, extended, if_true, Bool.or_true]
        rw [readPast (past e List.mem_cons_self links)]
        exact rest scan
      · simp only [empty, extended, Bool.or_self]
        exact rest _

theorem parseEnds (ends : ∀ e ∈ table, e.links = true → ∀ scan, ∃ scan',
      descend (nested e sector primary).1 (nested e sector primary).2 scan = some scan') :
    ∃ scan', parsePartitions b descend sector primary scan table = some scan' := by
  unfold parsePartitions
  induction table generalizing scan with
  | nil => exact ⟨scan, rfl⟩
  | cons e rest ih =>
    have rest := fun scan => @ih scan fun e inside => ends e (List.mem_cons_of_mem _ inside)
    rw [List.foldlM_cons]
    by_cases empty : e.empty = true
    · simp only [empty, if_true]
      exact rest scan
    · by_cases extended : e.extended = true
      · have links : e.links = true := by simp [Entry.links, empty, extended]
        obtain ⟨scan', done⟩ := ends e List.mem_cons_self links scan
        simp only [empty, extended, if_true, Bool.false_eq_true, if_false, done]
        exact rest scan'
      · simp only [empty, extended, Bool.false_eq_true, if_false]
        exact rest _

end Scans

/-- The scan comes back iff no extended partition of sector 0 leads to a second table on the device,
where sector 0 is read once more. -/
theorem scanTerminates (b : Block) : (∃ depth scan, partitionScan b depth = some scan) ↔
    ∀ e ∈ entries (b.bytes 0), e.links = true → e.offset < b.size →
      ∀ e' ∈ entries (b.bytes 0), e'.links = true → b.size ≤ (e'.offset + e.offset) % 2 ^ 32 := by
  constructor
  · rintro ⟨depth, scan, done⟩ e inside links first e' inside' links'
    refine Nat.le_of_not_lt fun second => ?_
    have stops : partitionScan b depth = none := scanStops inside links inside' links' first second
      depth (Nat.zero_lt_of_lt first) (.inl rfl)
    cases stops.symm.trans done
  · intro shallow
    refine ⟨3, ?_⟩
    unfold partitionScan readPartitionTable
    split
    · exact ⟨_, rfl⟩
    · refine parseEnds fun e inside links scan => ?_
      rw [nested, if_pos rfl]
      rcases Nat.lt_or_ge e.offset b.size with within | past
      · have behind := shallow e inside links within
        have nonzero : e.offset ≠ 0 := by
          intro zero
          have self := behind e inside links
          rw [zero] at self within
          exact Nat.not_le_of_lt within self
        unfold readPartitionTable
        rw [if_neg (Nat.not_le_of_lt within)]
        refine ⟨_, parseFlat fun e' inside' links' => ?_⟩
        rw [nested, if_neg nonzero]
        exact behind e' inside' links'
      · exact ⟨scan, readPast past⟩

def extendedDisk (offset : UInt8) : Block where
  size := 4
  bytes sector pos :=
    match pos with
    | 450 => if sector = 0 then 0x05 else if sector = offset.toNat then 0x21 else 0
    | 454 => if sector = 0 then offset else 1
    | 458 => if sector = 0 then 2 else 1
    | 510 => 0x55
    | 511 => 0xaa
    | _ => 0
  sectors := by decide

theorem scanEndless : ¬∃ depth scan, partitionScan (extendedDisk 1) depth = some scan := by
  rintro ⟨depth, scan, done⟩
  have inside : entry ((extendedDisk 1).bytes 0) 0 ∈ entries ((extendedDisk 1).bytes 0) := by decide
  have none : partitionScan (extendedDisk 1) depth = none := scanStops inside (by decide) inside
    (by decide) (by decide) (by decide) depth (by decide) (.inl rfl)
  cases none.symm.trans done

/-! What the tables of a device mean: the table of an extended partition is in its own sector. -/

def Next (b : Block) (here next : Nat × Nat) : Prop :=
  ∃ e ∈ entries (b.bytes here.1), e.links = true ∧ next = nested e here.1 here.2 ∧ next.1 < b.size

def Reaches (b : Block) (table : Nat × Nat) : Prop :=
  0 < b.size ∧ Relation.ReflTransGen (Next b) (0, 0) table

structure Describes (b : Block) (sector : Nat) (e : Entry) (p : Partition) : Prop where
  full : e.empty = false
  plain : e.extended = false
  place : p = ⟨blockType e.type, e.offset + sector, e.size⟩
  range : p.start + p.size ≤ b.size

def Logical (b : Block) (p : Partition) : Prop :=
  ∃ table, Reaches b table ∧ ∃ e ∈ entries (b.bytes table.1), Describes b table.1 e p

structure Right (b : Block) (scan : Scan) : Prop where
  found : ∀ p, p ∈ scan.found.map Prod.snd ↔ Logical b p
  reads : ∀ sector, sector ∈ scan.reads ↔ ∃ primary, Reaches b (sector, primary)

structure Sound (b : Block) (scan : Scan) : Prop where
  found : ∀ q ∈ scan.found, q.2.start + q.2.size ≤ b.size
  reads : ∀ sector ∈ scan.reads, sector = 0

section Partitions
variable {b : Block} {table : List Entry} {sector primary : Nat} {scan scan' : Scan}
  {descend : Nat → Nat → Scan → Option Scan} {e : Entry} {p : Partition}
  {depth : Nat}

theorem littleEndianLess (bytes : Nat → UInt8) (pos width : Nat) :
    littleEndian bytes pos width < 256 ^ width := by
  induction width generalizing pos with
  | zero => exact Nat.one_pos
  | succ width ih =>
    have low := (bytes pos).toNat_lt
    have high := ih (pos + 1)
    rw [littleEndian, Nat.pow_succ]
    omega

theorem entryLess (inside : e ∈ entries (b.bytes sector)) : e.offset < 2 ^ 32 ∧ e.size < 2 ^ 32 := by
  unfold entries at inside
  split at inside
  · obtain ⟨i, _, rfl⟩ := List.mem_map.mp inside
    exact ⟨littleEndianLess _ _ 4, littleEndianLess _ _ 4⟩
  · cases inside

theorem foundCases (b : Block) (scan : Scan) (start : Nat) (word : e.size < 2 ^ 32) :
    foundPartition b scan e start = if start < b.size ∧ start + e.size ≤ b.size then
      { scan with found := scan.found ++ [(scan.partNr, ⟨blockType e.type, start, e.size⟩)] }
      else scan := by
  have sectors := b.sectors
  unfold foundPartition
  split
  · rw [if_neg (by omega)]
  · split
    · rw [if_neg (by omega)]
    · rw [if_pos (by omega)]

theorem soundFound {start : Nat} (word : e.size < 2 ^ 32) (sound : Sound b scan) :
    Sound b (foundPartition b { scan with partNr := scan.partNr + 1 } e start) := by
  rw [foundCases _ _ _ word]
  split
  · rename_i fits
    refine ⟨fun q inside => ?_, sound.reads⟩
    rcases List.mem_append.mp inside with old | new
    · exact sound.found q old
    · rw [List.mem_singleton.mp new]
      exact fits.2
  · exact ⟨sound.found, sound.reads⟩

theorem soundParse (words : ∀ e ∈ table, e.size < 2 ^ 32)
    (keeps : ∀ sector primary scan scan', Sound b scan → descend sector primary scan = some scan' →
      Sound b scan')
    (sound : Sound b scan) (done : parsePartitions b descend sector primary scan table = some scan') :
    Sound b scan' := by
  unfold parsePartitions at done
  induction table generalizing scan with
  | nil => cases done; exact sound
  | cons e rest ih =>
    rw [List.foldlM_cons] at done
    obtain ⟨middle, first, done⟩ := Option.bind_eq_some_iff.mp done
    refine ih (fun e inside => words e (List.mem_cons_of_mem _ inside)) ?_ done
    split at first
    · cases first; exact sound
    · split at first
      · exact keeps _ _ _ _ sound first
      · cases first
        exact soundFound (words e List.mem_cons_self) sound

theorem soundRead (sound : Sound b scan)
    (done : readPartitionTable b depth sector primary scan = some scan') : Sound b scan' := by
  induction depth generalizing sector primary scan scan' with
  | zero => cases done
  | succ depth ih =>
    unfold readPartitionTable at done
    split at done
    · cases done; exact sound
    · refine soundParse (fun e inside => (entryLess inside).2) (fun _ _ _ _ => ih) ?_ done
      refine ⟨sound.found, fun sector inside => ?_⟩
      rcases List.mem_append.mp inside with old | new
      · exact sound.reads sector old
      · exact List.mem_singleton.mp new

theorem accessWithin (fits : p.start + p.size ≤ b.size) (sector : Nat) :
    partitionAccess b p sector = if sector < p.size then some (p.start + sector) else none := by
  have sectors := b.sectors
  unfold partitionAccess
  split
  · rw [if_neg (by omega)]
  · rw [Nat.mod_eq_of_lt (by omega), if_neg (by omega), if_pos (by omega)]

theorem flatFound (scan : Scan) (words : ∀ e ∈ table, e.offset < 2 ^ 32 ∧ e.size < 2 ^ 32) :
    let last := table.foldl (fun scan e => if e.empty || e.extended then scan
      else foundPartition b { scan with partNr := scan.partNr + 1 } e
        ((e.offset + 0) % 2 ^ 32)) scan
    last.reads = scan.reads ∧
      ∀ p, p ∈ last.found.map Prod.snd ↔
        p ∈ scan.found.map Prod.snd ∨ ∃ e ∈ table, Describes b 0 e p := by
  induction table generalizing scan with
  | nil => simp
  | cons e rest ih =>
    obtain ⟨word, word'⟩ := words e List.mem_cons_self
    have rest := fun scan => @ih scan fun e inside => words e (List.mem_cons_of_mem _ inside)
    rw [List.foldl_cons]
    by_cases skip : (e.empty || e.extended) = true
    · have not (p : Partition) : ¬Describes b 0 e p := fun here => by
        simp [here.full, here.plain] at skip
      simp only [skip, if_true]
      refine ⟨(rest scan).1, fun p => ((rest scan).2 p).trans ?_⟩
      simp [not p]
    · obtain ⟨full, plain⟩ : e.empty = false ∧ e.extended = false := by simpa using skip
      have some : e.size ≠ 0 := fun zero => by simp [Entry.empty, zero] at full
      have here (p : Partition) : Describes b 0 e p ↔
          p = ⟨blockType e.type, e.offset, e.size⟩ ∧ e.offset + e.size ≤ b.size :=
        ⟨fun d => ⟨d.place, by have range := d.range; rwa [d.place] at range⟩,
          fun both => ⟨full, plain, both.1, by rw [both.1]; exact both.2⟩⟩
      simp only [skip, Bool.false_eq_true, if_false, Nat.add_zero, Nat.mod_eq_of_lt word,
        foundCases _ _ _ word']
      split
      · rename_i fits
        refine ⟨(rest _).1, fun p => ((rest _).2 p).trans ?_⟩
        simp [here p, fits.2, or_assoc]
      · rename_i out
        refine ⟨(rest _).1, fun p => ((rest _).2 p).trans ?_⟩
        have past : ¬e.offset + e.size ≤ b.size := by omega
        simp [here p, past]

theorem reachesOnly (past : ∀ e ∈ entries (b.bytes 0), e.links = true → b.size ≤ e.offset)
    (table : Nat × Nat) : Reaches b table ↔ 0 < b.size ∧ table = (0, 0) := by
  refine and_congr_right fun _ => ⟨fun path => ?_, fun same => same ▸ .refl⟩
  rcases Relation.ReflTransGen.cases_head path with same | ⟨next, ⟨e, inside, links, same, less⟩, _⟩
  · exact same.symm
  · rw [same] at less
    exact absurd (past e inside links) (Nat.not_le_of_lt less)

theorem flatRight (past : ∀ e ∈ entries (b.bytes 0), e.links = true → b.size ≤ e.offset) :
    ∃ scan, partitionScan b 2 = some scan ∧ Right b scan := by
  have logical (p : Partition) : Logical b p ↔
      0 < b.size ∧ ∃ e ∈ entries (b.bytes 0), Describes b 0 e p := by
    constructor
    · rintro ⟨table, reaches, found⟩
      obtain ⟨some, rfl⟩ := (reachesOnly past table).mp reaches
      exact ⟨some, found⟩
    · rintro ⟨some, found⟩
      exact ⟨(0, 0), (reachesOnly past _).mpr ⟨some, rfl⟩, found⟩
  unfold partitionScan readPartitionTable
  split
  · rename_i none
    have zero : ¬0 < b.size := by omega
    refine ⟨_, rfl, fun p => ?_, fun sector => ?_⟩
    · simp [logical, zero]
    · simp [reachesOnly past, zero]
  · rename_i some
    have some : 0 < b.size := by omega
    refine ⟨_, parseFlat fun e inside links => past e inside links, ?_⟩
    have words : ∀ e ∈ entries (b.bytes 0), e.offset < 2 ^ 32 ∧ e.size < 2 ^ 32 :=
      fun e inside => entryLess inside
    refine ⟨fun p => ((flatFound _ words).2 p).trans ?_, fun sector => ?_⟩
    · simp [logical, some]
    · rw [(flatFound _ words).1]
      simp [reachesOnly past, some]

theorem nextSelf {table : Nat × Nat} (finite : Acc (fun next here => Next b here next) table) :
    ¬Next b table table := by
  induction finite with
  | intro table _ ih => exact fun self => ih table self self

theorem rightFlat (finite : Acc (fun next here => Next b here next) (0, 0))
    (done : partitionScan b depth = some scan) (right : Right b scan)
    (inside : e ∈ entries (b.bytes 0)) (links : e.links = true) : b.size ≤ e.offset := by
  refine Nat.le_of_not_lt fun less => ?_
  have next : Next b (0, 0) (e.offset, e.offset) := ⟨e, inside, links, rfl, less⟩
  have read := (right.reads e.offset).mpr ⟨e.offset, Nat.zero_lt_of_lt less, .single next⟩
  have sound : Sound b scan := soundRead ⟨by simp, by simp⟩ done
  rw [sound.reads _ read] at next
  exact nextSelf finite next

end Partitions

/-- The partitions are found iff no extended partition begins on the device; and whatever is found
is accessed within its own sectors. -/
theorem partitionsFound (b : Block) (finite : Acc (fun next here => Next b here next) (0, 0)) :
    ((∃ depth scan, partitionScan b depth = some scan ∧ Right b scan) ↔
      ∀ e ∈ entries (b.bytes 0), e.links = true → b.size ≤ e.offset) ∧
    ∀ depth scan, partitionScan b depth = some scan → ∀ q ∈ scan.found, ∀ sector,
      partitionAccess b q.2 sector =
        if sector < q.2.size then some (q.2.start + sector) else none := by
  refine ⟨⟨?_, fun past => ⟨2, flatRight past⟩⟩, fun depth scan done q inside => ?_⟩
  · rintro ⟨depth, scan, done, right⟩ e inside links
    exact rightFlat finite done right inside links
  · have sound : Sound b scan := soundRead ⟨by simp, by simp⟩ done
    exact accessWithin (sound.found q inside)

/-- A primary partition of type 0x21 at sector 1, and an extended one behind the device. -/
def primaryDisk : Block where
  size := 4
  bytes _ pos :=
    match pos with
    | 450 => 0x21
    | 454 => 1
    | 458 => 2
    | 466 => 0x05
    | 470 => 4
    | 474 => 2
    | 510 => 0x55
    | 511 => 0xaa
    | _ => 0
  sectors := by decide

theorem partitionsFoundExample :
    ∃ depth scan, partitionScan primaryDisk depth = some scan ∧ Right primaryDisk scan ∧
      ⟨.filesys, 1, 2⟩ ∈ scan.found.map Prod.snd := by
  have none : ∀ e ∈ entries (primaryDisk.bytes 0), e.links = true →
      primaryDisk.size ≤ e.offset := by decide
  have finite : Acc (fun next here => Next primaryDisk here next) (0, 0) := by
    refine Acc.intro _ ?_
    rintro next ⟨e, inside, links, rfl, less⟩
    exact absurd (none e inside links) (Nat.not_le_of_lt less)
  obtain ⟨depth, scan, done, right⟩ := (partitionsFound _ finite).1.mpr none
  refine ⟨depth, scan, done, right, (right.found _).mpr ⟨(0, 0), ⟨by decide, .refl⟩, ?_⟩⟩
  exact ⟨entry (primaryDisk.bytes 0) 0, by decide, by decide, by decide, by decide, by decide⟩

theorem logicalMissed : Acc (fun next here => Next (extendedDisk 2) here next) (0, 0) ∧
    Logical (extendedDisk 2) ⟨.filesys, 3, 1⟩ ∧
    partitionScan (extendedDisk 2) 3 = some { reads := [0, 0] } := by
  have only : ∀ e ∈ entries ((extendedDisk 2).bytes 0), e.links = true → e.offset = 2 := by decide
  have last : ∀ e ∈ entries ((extendedDisk 2).bytes 2), e.links = false := by decide
  refine ⟨Acc.intro _ ?_, ⟨(2, 2), ⟨by decide, .single ?_⟩, ?_⟩, by decide⟩
  · rintro _ ⟨e, inside, links, rfl, _⟩
    rw [nested, if_pos rfl, only e inside links]
    refine Acc.intro _ ?_
    rintro _ ⟨e, inside, links, _⟩
    rw [last e inside] at links
    cases links
  · exact ⟨entry ((extendedDisk 2).bytes 0) 0, by decide, by decide, by decide, by decide⟩
  · exact ⟨entry ((extendedDisk 2).bytes 2) 0, by decide, by decide, by decide, by decide, by decide⟩

end Pintos.Devices
