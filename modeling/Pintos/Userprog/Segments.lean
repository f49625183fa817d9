import Pintos.Lib.Machine
import Pintos.Memory.Entries

/-! Segments of an executable: the case `PT_LOAD` of `load`, `validate_segment` and `load_segment` in
userprog/process_create.c. A sum or a difference that leaves 32 bits is an error here, so that a call
without an error has not wrapped. -/
namespace Pintos.Segments
open Machine
open Memory (Word pgOfs pgRoundDown physBase physBaseNat pgOfsNat pgRoundDownNat)

inductive Fault where
  | assertion
  | wraps
  | endless
  deriving DecidableEq, Repr

-- The bytes of the file; the length is an `off_t`.
structure Executable where
  bytes : List UInt8
  length : bytes.length < 2 ^ 31

structure Phdr where
  pOffset : Word
  pVaddr : Word
  pFilesz : Word
  pMemsz : Word
  pFlags : Word

structure Page where
  bytes : List UInt8
  writable : Bool

-- The pages by their user addresses.
abbrev Space := Nat → Option Page

def Space.byte (space : Space) (va : Nat) : Option UInt8 :=
  (space (va / 4096 * 4096)).bind fun page => page.bytes[va % 4096]?

def plus (a b : Nat) : Except Fault Nat := if a + b < 2 ^ 32 then .ok (a + b) else .error .wraps
def minus (a b : Nat) : Except Fault Nat := if b ≤ a then .ok (a - b) else .error .wraps

def roundUp (x step : Nat) : Except Fault Nat := do
  let sum ← plus x step
  let last ← minus sum 1
  .ok (last / step * step)

-- The sums of addresses are modulo 2 ^ 32, as in the source.
def validateSegment (phdr : Phdr) (file : Executable) : Bool :=
  decide (pgOfs phdr.pOffset = pgOfs phdr.pVaddr ∧ phdr.pOffset.toNat ≤ file.bytes.length ∧
    phdr.pFilesz ≤ phdr.pMemsz ∧ phdr.pMemsz ≠ 0#32 ∧ phdr.pVaddr < physBase ∧
    phdr.pVaddr + phdr.pMemsz < physBase ∧ phdr.pVaddr ≤ phdr.pVaddr + phdr.pMemsz ∧
    4096 ≤ phdr.pVaddr.toNat)

section Loading
variable (file : Executable) (frame table : Nat → Bool)

-- `table` tells whether there is memory for the page table of a page.
def installPage (space : Space) (upage : Nat) (page : Page) : Except Fault (Option Space) :=
  if upage < physBase.toNat ∧ upage % 4096 = 0 then
    .ok (if (space upage).isNone && table upage then some (Function.update space upage page)
      else none)
  else .error .assertion

-- `frame` tells whether `palloc_get_page` finds one for a page.
def loadPages (writable : Bool) : Nat → Space → Nat → Nat → Nat → Nat → Except Fault (Bool × Space)
  | 0, _, _, _, _, _ => .error .endless
  | turns + 1, space, pos, upage, readBytes, zeroBytes =>
    if 0 < readBytes ∨ 0 < zeroBytes then
      let pageReadBytes := if readBytes < 4096 then readBytes else 4096
      let pageZeroBytes := 4096 - pageReadBytes
      let read := (file.bytes.drop pos).take pageReadBytes
      if frame upage = true ∧ read.length = pageReadBytes then do
        match ← installPage table space upage ⟨read ++ List.replicate pageZeroBytes 0, writable⟩ with
        | none => .ok (false, space)
        | some space =>
          let readBytes ← minus readBytes pageReadBytes
          let zeroBytes ← minus zeroBytes pageZeroBytes
          let upage ← plus upage 4096
          loadPages writable turns space (pos + pageReadBytes) upage readBytes zeroBytes
      else .ok (false, space)
    else .ok (true, space)

-- There are 2 ^ 20 pages in all. `file_seek` asserts that the position is not negative.
def loadSegment (space : Space) (ofs upage readBytes zeroBytes : Nat) (writable : Bool) :
    Except Fault (Bool × Space) := do
  let total ← plus readBytes zeroBytes
  if total % 4096 = 0 ∧ upage % 4096 = 0 ∧ ofs % 4096 = 0 ∧ ofs < 2 ^ 31 then
    loadPages file frame table writable (2 ^ 20) space ofs upage readBytes zeroBytes
  else .error .assertion

def loadPhdr (space : Space) (phdr : Phdr) : Except Fault (Bool × Space) :=
  if validateSegment phdr file = true then do
    let writable := phdr.pFlags &&& 2#32 != 0#32
    let filePage := (pgRoundDown phdr.pOffset).toNat
    let memPage := (pgRoundDown phdr.pVaddr).toNat
    let pageOffset := (pgOfs phdr.pVaddr).toNat
    let size ← plus pageOffset phdr.pMemsz.toNat
    let whole ← roundUp size 4096
    if 0 < phdr.pFilesz.toNat then
      let readBytes ← plus pageOffset phdr.pFilesz.toNat
      let zeroBytes ← minus whole readBytes
      loadSegment file frame table space filePage memPage readBytes zeroBytes writable
    else loadSegment file frame table space filePage memPage 0 whole writable
  else .ok (false, space)

end Loading

-- What the loop leaves in `count` pages.
structure Filled (file : Executable) (space : Space) (pos upage readBytes count : Nat)
    (result : Bool × Space) : Prop where
  inside : ∀ page, result.2 page ≠ space page →
    upage ≤ page ∧ page + 4096 ≤ upage + 4096 * count
  bytes : result.1 = true → ∀ i < 4096 * count, ∃ byte, result.2.byte (upage + i) = some byte ∧
    if i < readBytes then file.bytes[pos + i]? = some byte else byte = 0

section Runs
variable {file : Executable} {frame table : Nat → Bool} {space after : Space} {writable : Bool}
  {pos upage readBytes zeroBytes count : Nat}
  {a b : Nat}

theorem plusOk (fits : a + b < 2 ^ 32) : plus a b = .ok (a + b) := if_pos fits
theorem minusOk (fits : b ≤ a) : minus a b = .ok (a - b) := if_pos fits

theorem filledNone (space : Space) : Filled file space pos upage readBytes count (false, space) :=
  ⟨fun _ changed => absurd rfl changed, fun done => nomatch done⟩

theorem byteIn (whole : upage % 4096 = 0) {i : Nat} (less : i < 4096) :
    space.byte (upage + i) = (space upage).bind fun page => page.bytes[i]? := by
  rw [Space.byte, show (upage + i) / 4096 * 4096 = upage by omega,
    show (upage + i) % 4096 = i by omega]

theorem pageByte {pageReadBytes i : Nat} (small : pageReadBytes ≤ 4096) (less : i < 4096)
    (full : ((file.bytes.drop pos).take pageReadBytes).length = pageReadBytes) :
    ∃ byte, ((file.bytes.drop pos).take pageReadBytes ++
        List.replicate (4096 - pageReadBytes) 0)[i]? = some byte ∧
      if i < pageReadBytes then file.bytes[pos + i]? = some byte else byte = 0 := by
  by_cases read : i < pageReadBytes
  · rw [List.getElem?_append_left (by omega), List.getElem?_take_of_lt read, List.getElem?_drop]
    have within : pos + i < file.bytes.length := by
      rw [List.length_take, List.length_drop] at full
      omega
    simp [read, within]
  · refine ⟨0, ?_, by rw [if_neg read]⟩
    rw [List.getElem?_append_right (by omega), full]
    exact List.getElem?_replicate_of_lt (by omega)

theorem filledCons {page : Page} {pageReadBytes : Nat} {result : Bool × Space}
    (whole : upage % 4096 = 0)
    (size : pageReadBytes = if readBytes < 4096 then readBytes else 4096)
    (here : ∀ i < 4096, ∃ byte, page.bytes[i]? = some byte ∧
      if i < pageReadBytes then file.bytes[pos + i]? = some byte else byte = 0)
    (rest : Filled file (Function.update space upage page) (pos + pageReadBytes) (upage + 4096)
      (readBytes - pageReadBytes) count result) :
    Filled file space pos upage readBytes (count + 1) result := by
  constructor
  · intro q changed
    by_cases first : q = upage
    · omega
    · have later := rest.inside q (by rwa [Function.update_of_ne first])
      omega
  · intro done i less
    rcases Nat.lt_or_ge i 4096 with early | late
    · have kept : result.2 upage = some page := by
        by_contra changed
        have later := rest.inside upage (by rwa [Function.update_self])
        omega
      obtain ⟨byte, held, tells⟩ := here i early
      refine ⟨byte, ?_, ?_⟩
      · rw [byteIn whole early, kept]
        exact held
      · have same : i < pageReadBytes ↔ i < readBytes := by split at size <;> omega
        simpa only [same] using tells
    · obtain ⟨byte, held, tells⟩ := rest.bytes done (i - 4096) (by omega)
      refine ⟨byte, ?_, ?_⟩
      · rwa [show upage + 4096 + (i - 4096) = upage + i by omega] at held
      · by_cases read : i < readBytes
        · rw [if_pos (by split at size <;> omega),
            show pos + pageReadBytes + (i - 4096) = pos + i by split at size <;> omega] at tells
          rwa [if_pos read]
        · rw [if_neg (by split at size <;> omega)] at tells
          rw [if_neg read, tells]

theorem pagesFilled {turns : Nat} (enough : count < turns)
    (total : readBytes + zeroBytes = 4096 * count) (whole : upage % 4096 = 0)
    (user : upage + 4096 * count ≤ physBase.toNat) :
    ∃ result, loadPages file frame table writable turns space pos upage readBytes zeroBytes =
      .ok result ∧ Filled file space pos upage readBytes count result := by
  have base := physBaseNat
  induction turns generalizing space pos upage readBytes zeroBytes count with
  | zero => omega
  | succ turns ih =>
    unfold loadPages
    cases count with
    | zero =>
      rw [if_neg (by omega)]
      exact ⟨_, rfl, fun _ changed => absurd rfl changed, fun _ i less => by omega⟩
    | succ count =>
      rw [if_pos (by omega)]
      obtain ⟨pageReadBytes, size⟩ : ∃ n, n = if readBytes < 4096 then readBytes else 4096 :=
        ⟨_, rfl⟩
      simp only [← size]
      have small : pageReadBytes ≤ 4096 ∧ pageReadBytes ≤ readBytes ∧
          4096 - pageReadBytes ≤ zeroBytes := by split at size <;> omega
      split
      · rename_i loaded
        rw [installPage, if_pos (by omega)]
        by_cases free : ((space upage).isNone && table upage) = true
        · rw [if_pos free]
          obtain ⟨result, runs, filled⟩ := @ih (Function.update space upage
              (some ⟨(file.bytes.drop pos).take pageReadBytes ++
                List.replicate (4096 - pageReadBytes) 0, writable⟩))
            (pos + pageReadBytes) (upage + 4096) (readBytes - pageReadBytes)
            (zeroBytes - (4096 - pageReadBytes)) count (by omega) (by omega) (by omega) (by omega)
          refine ⟨result, ?_, filledCons whole size
            (fun i less => pageByte small.1 less loaded.2) filled⟩
          change (do
            let readBytes ← minus readBytes pageReadBytes
            let zeroBytes ← minus zeroBytes (4096 - pageReadBytes)
            let upage ← plus upage 4096
            loadPages file frame table writable turns _ (pos + pageReadBytes) upage readBytes
              zeroBytes) = _
          rw [minusOk small.2.1, minusOk small.2.2, plusOk (by omega)]
          exact runs
        · rw [if_neg free]
          exact ⟨_, rfl, filledNone space⟩
      · exact ⟨_, rfl, filledNone space⟩

theorem segmentFilled (total : readBytes + zeroBytes = 4096 * count) (whole : upage % 4096 = 0)
    (user : upage + 4096 * count ≤ physBase.toNat) (place : pos % 4096 = 0) (offset : pos < 2 ^ 31) :
    ∃ result, loadSegment file frame table space pos upage readBytes zeroBytes writable =
      .ok result ∧ Filled file space pos upage readBytes count result := by
  have base := physBaseNat
  rw [loadSegment, plusOk (by omega)]
  obtain ⟨result, runs, filled⟩ := @pagesFilled file frame table space writable pos upage readBytes
    zeroBytes count (2 ^ 20) (by omega) total whole user
  exact ⟨result, (if_pos ⟨by omega, whole, place, offset⟩).trans runs, filled⟩

end Runs

section Headers
variable {file : Executable} {phdr : Phdr}

structure Valid (phdr : Phdr) (file : Executable) : Prop where
  offset : phdr.pOffset.toNat % 4096 = phdr.pVaddr.toNat % 4096
  length : phdr.pOffset.toNat < 2 ^ 31
  size : phdr.pFilesz.toNat ≤ phdr.pMemsz.toNat
  some : 0 < phdr.pMemsz.toNat
  user : phdr.pVaddr.toNat + phdr.pMemsz.toNat < physBase.toNat
  first : 4096 ≤ phdr.pVaddr.toNat

theorem validateSpec (accepted : validateSegment phdr file = true) : Valid phdr file := by
  obtain ⟨offset, length, size, nonzero, start, last, order, first⟩ := of_decide_eq_true accepted
  have short := file.length
  have offset := congrArg BitVec.toNat offset
  rw [pgOfsNat, pgOfsNat] at offset
  have some : phdr.pMemsz.toNat ≠ 0 := fun zero => nonzero (BitVec.eq_of_toNat_eq zero)
  have start : phdr.pVaddr.toNat < 3221225472 := start
  have wrapped := BitVec.toNat_add phdr.pVaddr phdr.pMemsz
  have last : (phdr.pVaddr + phdr.pMemsz).toNat < 3221225472 := last
  have order : phdr.pVaddr.toNat ≤ (phdr.pVaddr + phdr.pMemsz).toNat := order
  have word := phdr.pMemsz.isLt
  have base := physBaseNat
  exact ⟨offset, by omega, size, by omega, by omega, first⟩

theorem roundUpOk {x : Nat} (fits : x + 4096 < 2 ^ 32) :
    roundUp x 4096 = .ok ((x + 4096 - 1) / 4096 * 4096) :=
  bindOk.mpr ⟨_, plusOk fits, bindOk.mpr ⟨_, minusOk (by omega), rfl⟩⟩

theorem phdrFilled (accepted : validateSegment phdr file = true) (frame table : Nat → Bool)
    (space : Space) :
    ∃ readBytes result, loadPhdr file frame table space phdr = .ok result ∧
      Filled file space (phdr.pOffset.toNat / 4096 * 4096) (phdr.pVaddr.toNat / 4096 * 4096) readBytes
        ((phdr.pVaddr.toNat % 4096 + phdr.pMemsz.toNat + 4096 - 1) / 4096) result ∧
      readBytes = if 0 < phdr.pFilesz.toNat then phdr.pVaddr.toNat % 4096 + phdr.pFilesz.toNat
        else 0 := by
  obtain ⟨offset, length, smaller, some, user, first⟩ := validateSpec accepted
  have base := physBaseNat
  have size := plusOk (show phdr.pVaddr.toNat % 4096 + phdr.pMemsz.toNat < 2 ^ 32 by omega)
  have whole := roundUpOk (show phdr.pVaddr.toNat % 4096 + phdr.pMemsz.toNat + 4096 < 2 ^ 32 by omega)
  rw [loadPhdr, if_pos accepted, pgOfsNat, pgRoundDownNat, pgRoundDownNat]
  have loads {readBytes zeroBytes : Nat} := @segmentFilled file frame table space
    (phdr.pFlags &&& 2#32 != 0#32) (phdr.pOffset.toNat / 4096 * 4096)
    (phdr.pVaddr.toNat / 4096 * 4096) readBytes zeroBytes
    ((phdr.pVaddr.toNat % 4096 + phdr.pMemsz.toNat + 4096 - 1) / 4096)
  by_cases read : 0 < phdr.pFilesz.toNat
  · have within : phdr.pVaddr.toNat % 4096 + phdr.pFilesz.toNat ≤
        (phdr.pVaddr.toNat % 4096 + phdr.pMemsz.toNat + 4096 - 1) / 4096 * 4096 := by omega
    obtain ⟨result, runs, filled⟩ := loads ((Nat.add_sub_of_le within).trans (Nat.mul_comm _ _))
      (by omega) (by omega) (by omega) (by omega)
    refine ⟨_, result, bindOk.mpr ⟨_, size, bindOk.mpr ⟨_, whole, (if_pos read).trans ?_⟩⟩, filled,
      (if_pos read).symm⟩
    exact bindOk.mpr ⟨_, plusOk (by omega), bindOk.mpr ⟨_, minusOk within, runs⟩⟩
  · obtain ⟨result, runs, filled⟩ := loads ((Nat.zero_add _).trans (Nat.mul_comm _ _))
      (by omega) (by omega) (by omega) (by omega)
    exact ⟨_, result, bindOk.mpr ⟨_, size, bindOk.mpr ⟨_, whole, (if_neg read).trans runs⟩⟩, filled,
      (if_neg read).symm⟩

/-- For every accepted header and whatever memory there is: no error, and with `true` the bytes of the
file are in memory, with zeros behind them up to the end of the last page. -/
theorem segmentLoaded (accepted : validateSegment phdr file = true) (frame table : Nat → Bool)
    (space : Space) :
    ∃ done after, loadPhdr file frame table space phdr = .ok (done, after) ∧
      (∀ upage, after upage ≠ space upage → 4096 ≤ upage ∧ upage + 4096 ≤ physBase.toNat) ∧
      (done = true →
        (∀ i < phdr.pFilesz.toNat, ∃ byte, file.bytes[phdr.pOffset.toNat + i]? = some byte ∧
          after.byte (phdr.pVaddr.toNat + i) = some byte) ∧
        ∀ va, phdr.pVaddr.toNat + phdr.pFilesz.toNat ≤ va →
          va < (phdr.pVaddr.toNat + phdr.pMemsz.toNat + 4095) / 4096 * 4096 →
          after.byte va = some 0) := by
  obtain ⟨offset, length, size, some, user, first⟩ := validateSpec accepted
  have base := physBaseNat
  obtain ⟨readBytes, ⟨done, after⟩, runs, filled, counted⟩ := phdrFilled accepted frame table space
  refine ⟨done, after, runs, fun upage changed => ?_, fun finished => ⟨fun i less => ?_, ?_⟩⟩
  · have inside := filled.inside upage changed
    omega
  · rw [if_pos (by omega)] at counted
    obtain ⟨byte, held, tells⟩ :=
      filled.bytes finished (phdr.pVaddr.toNat % 4096 + i) (by omega)
    rw [if_pos (by omega)] at tells
    refine ⟨byte, ?_, ?_⟩
    · rwa [show phdr.pOffset.toNat / 4096 * 4096 + (phdr.pVaddr.toNat % 4096 + i) =
        phdr.pOffset.toNat + i by omega] at tells
    · rwa [show phdr.pVaddr.toNat / 4096 * 4096 + (phdr.pVaddr.toNat % 4096 + i) =
        phdr.pVaddr.toNat + i by omega] at held
  · intro va behind less
    obtain ⟨byte, held, tells⟩ :=
      filled.bytes finished (va - phdr.pVaddr.toNat / 4096 * 4096) (by omega)
    rw [if_neg (by split at counted <;> omega)] at tells
    rwa [show phdr.pVaddr.toNat / 4096 * 4096 + (va - phdr.pVaddr.toNat / 4096 * 4096) = va by omega,
      tells] at held

theorem oneByteLoaded :
    ∃ after, loadPhdr ⟨[7], by decide⟩ (fun _ => true) (fun _ => true) (fun _ => none)
        ⟨0#32, 4096#32, 1#32, 1#32, 0#32⟩ = .ok (true, after) ∧
      (∀ upage, after upage ≠ none → 4096 ≤ upage ∧ upage + 4096 ≤ physBase.toNat) ∧
      (∀ i < 1, ∃ byte, [7][0 + i]? = some byte ∧ after.byte (4096 + i) = some byte) ∧
      ∀ va, 4097 ≤ va → va < 8192 → after.byte va = some 0 := by
  obtain ⟨done, after, loads, inside, filled⟩ :=
    @segmentLoaded ⟨[7], by decide⟩ ⟨0#32, 4096#32, 1#32, 1#32, 0#32⟩ (by decide) (fun _ => true)
      (fun _ => true) fun _ => none
  have loaded : passes (loadPhdr ⟨[7], by decide⟩ (fun _ => true) (fun _ => true) (fun _ => none)
      ⟨0#32, 4096#32, 1#32, 1#32, 0#32⟩) Prod.fst = true := by decide +kernel
  rw [loads] at loaded
  cases (loaded : done = true)
  exact ⟨after, loads, inside, filled rfl⟩

end Headers

end Pintos.Segments
