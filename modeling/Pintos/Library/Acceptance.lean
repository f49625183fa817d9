import Pintos.Library.RoundTrip

/-! `ustar_parse_header` of lib/ustar.c over an untrusted block: every byte it reads lies in the
block, and what it accepts is well formed. -/
namespace Pintos.Library
open Layout

section Reads

inductive NamePointer where
  | inside (i : Nat)
  | literal (name : CString)
  deriving DecidableEq, Repr

structure Located where
  fileName : Option NamePointer
  type : UstarType
  size : Nat
  deriving DecidableEq, Repr

variable (block : List UInt8)

-- The functions that are given a length read no further than it.
def fetch (f : Field) : Except Fault (List UInt8) :=
  if f.offset + f.size ≤ block.length then .ok (f.get block)
  else .error (.outside (f.offset + f.size))

-- `memcmp`, and with the null byte in `s` also `strcmp`, stop at the first difference.
def sameAt : Nat → List UInt8 → Except Fault Bool
  | _, [] => .ok true
  | i, c :: s => do
    if (← peek block i) = c then sameAt (i + 1) s
    else return false

def strchrAt (c : UInt8) : Nat → Nat → Except Fault (Option Nat)
  | 0, _ => .error .turns
  | turns + 1, i => do
    let here ← peek block i
    if here = c then return some i
    else if here = 0 then return none
    else strchrAt c turns (i + 1)

def skipPrefixesAt : Nat → Nat → Except Fault Nat
  | 0, _ => .error .turns
  | turns + 1, i => do
    if ← sameAt block i (text "/") <||> sameAt block i (text "./") <||>
        sameAt block i (text "../") then
      match ← strchrAt block 47 ustarHeaderSize i with
      | some slash => skipPrefixesAt turns (slash + 1)
      | none => .error .null
    else return i

theorem dotClean : 0 ∉ text "." := by decide

def stripAntisocialPrefixesAt (i : Nat) : Except Fault NamePointer := do
  let i ← skipPrefixesAt block ustarHeaderSize i
  if ← sameAt block i [0] <||> sameAt block i (text ".." ++ [0]) then
    return .literal ⟨text ".", dotClean⟩
  else return .inside i

def ustarParseBlock : Except Fault (Except Refusal Located) := do
  if UstarHeader.sizeof ≠ ustarHeaderSize then return .error .assertion
  let header ← fetch block ⟨0, ustarHeaderSize⟩
  if isAllZeros header then return .ok ⟨none, .eof, 0⟩
  if (← fetch block UstarHeader.magic) ≠ text "ustar" ++ [0] then
    return .error (.message "not a ustar archive")
  if (← fetch block UstarHeader.version) ≠ text "00" then
    return .error (.message "invalid ustar version")
  match parseOctalField (← fetch block UstarHeader.chksum) with
  | none => return .error (.message "corrupt chksum field")
  | some chksum =>
    if chksum ≠ calculateChksum header then return .error (.message "checksum mismatch")
    if (← fetch block UstarHeader.name).getD (UstarHeader.name.size - 1) 0 ≠ 0 ∨
        (← fetch block UstarHeader.namePrefix).getD 0 0 ≠ 0 then
      return .error (.message "file name too long")
    let typeflag := (← fetch block UstarHeader.typeflag).getD 0 0
    if typeflag ≠ UstarType.regular.code ∧ typeflag ≠ UstarType.directory.code then
      return .error (.message "unimplemented file type")
    if typeflag = UstarType.regular.code then
      match parseOctalField (← fetch block UstarHeader.size) with
      | none => return .error (.message "corrupt file size field")
      | some size =>
        if size > intMax then return .error (.message "file too large")
        return .ok ⟨← stripAntisocialPrefixesAt block UstarHeader.name.offset, .regular, size⟩
    return .ok ⟨← stripAntisocialPrefixesAt block UstarHeader.name.offset, .directory, 0⟩

end Reads

section Names

variable {block s : List UInt8} {i last turns : Nat}

def nameFrom (block : List UInt8) (i : Nat) : List UInt8 := (block.drop i).takeWhile (· != 0)

def NamePointer.string (block : List UInt8) : NamePointer → CString
  | inside i => stringAt ⟨i, 0⟩ block
  | literal name => name

theorem nameFromCons {c : UInt8} (here : block.drop i = c :: block.drop (i + 1)) :
    nameFrom block i = if c = 0 then [] else c :: nameFrom block (i + 1) := by
  rw [nameFrom, here, List.takeWhile_cons]
  by_cases zero : c = 0 <;> simp [zero, nameFrom]

theorem sameInside (inside : i + s.length ≤ block.length) :
    sameAt block i s = .ok (s.isPrefixOf (block.drop i)) := by
  induction s generalizing i with
  | nil => simp [sameAt]
  | cons b s ih =>
    simp only [List.length_cons] at inside
    obtain ⟨c, -, read, here⟩ := byteInside (show i < block.length by omega)
    rw [sameAt, read, here, @ih (i + 1) (by omega), List.isPrefixOf]
    by_cases equal : c = b
    · simp [bind, Except.bind, equal]
    · simp [bind, Except.bind, equal, Ne.symm equal, pure, Except.pure]

theorem orInside (a b : Bool) :
    (Except.ok a <||> .ok b : Except Fault Bool) = .ok (a || b) := by
  cases a <;> rfl

theorem startsName (clean : 0 ∉ s) (rest : List UInt8) :
    s <+: rest.takeWhile (· != 0) ↔ s <+: rest := by
  induction s generalizing rest with
  | nil => simp
  | cons b s ih =>
    have other : b ≠ 0 := fun zero => clean (zero ▸ .head s)
    cases rest with
    | nil => simp
    | cons c rest =>
      by_cases zero : c = 0
      · simp [zero, other]
      · simp [zero, List.cons_prefix_cons, ih (fun among => clean (.tail b among))]

theorem wholeName (clean : 0 ∉ s) {rest : List UInt8} (longer : s.length < rest.length) :
    s ++ [0] <+: rest ↔ rest.takeWhile (· != 0) = s := by
  induction s generalizing rest with
  | nil =>
    cases rest with
    | nil => simp at longer
    | cons c rest =>
      by_cases zero : 0 = c
      · simp [← zero]
      · simp [List.cons_prefix_cons, zero, Ne.symm zero]
  | cons b s ih =>
    have other : b ≠ 0 := fun zero => clean (zero ▸ .head s)
    cases rest with
    | nil => simp at longer
    | cons c rest =>
      have tail := ih (fun among => clean (.tail b among)) (Nat.lt_of_succ_lt_succ longer)
      by_cases zero : c = 0
      · simp [zero, other, List.cons_prefix_cons]
      · simp [zero, List.cons_prefix_cons, tail, @eq_comm _ b]

theorem dangerousStarts (name : List UInt8) :
    dangerous name = true ↔ text "/" <+: name ∨ text "./" <+: name ∨ text "../" <+: name := by
  have first : name.head? = some 47 ↔ text "/" = name.take 1 := by
    cases name <;> simp [show text "/" = [47] by decide, eq_comm]
  simp only [dangerous, Bool.or_eq_true, beq_iff_eq, or_assoc, List.prefix_iff_eq_take, first]
  exact or_congr Iff.rfl (or_congr eq_comm eq_comm)

theorem strchrInside (inside : last < block.length) (zero : block[last]? = some 0)
    (before : i ≤ last) (enough : last - i < turns) (among : 47 ∈ nameFrom block i) :
    ∃ j, strchrAt block 47 turns i = .ok (some j) ∧ i ≤ j ∧ j < last ∧
      nameFrom block (j + 1) = afterSlash (nameFrom block i) := by
  induction turns generalizing i with
  | zero => omega
  | succ turns ih =>
    obtain ⟨c, there, read, here⟩ := byteInside (show i < block.length by omega)
    rw [nameFromCons here] at among ⊢
    have some : c ≠ 0 := by
      rintro rfl
      simp at among
    have less : i < last := by
      refine Nat.lt_of_le_of_ne before fun same => some ?_
      rw [same, zero] at there
      exact (Option.some.inj there).symm
    rw [strchrAt, read, if_neg some, afterSlash]
    by_cases slash : c = 47
    · subst slash
      exact ⟨i, rfl, Nat.le_refl i, less, rfl⟩
    · simp only [some, if_false, List.mem_cons, Ne.symm slash, false_or] at among
      obtain ⟨j, ran, after, within, rest⟩ := ih less (by omega) among
      rw [if_neg slash]
      exact ⟨j, by simpa [bind, Except.bind, slash, some] using ran, by omega, within, rest⟩

theorem dangerousSlash {fileName : List UInt8} (more : dangerous fileName = true) :
    47 ∈ fileName := by
  rcases (dangerousStarts fileName).mp more with starts | starts | starts
  all_goals exact starts.subset (by decide)

theorem skipInside {fuel : Nat} (inside : last + 3 ≤ block.length) (small : last < ustarHeaderSize)
    (zero : block[last]? = some 0) (before : i ≤ last) (enough : last - i < turns)
    (fits : (nameFrom block i).length ≤ fuel) :
    ∃ j, skipPrefixesAt block turns i = .ok j ∧ j ≤ last ∧
      nameFrom block j = skipPrefixes fuel (nameFrom block i) := by
  induction turns generalizing i fuel with
  | zero => omega
  | succ turns ih =>
    have slash := sameInside (s := text "/") (show i + 1 ≤ block.length by omega)
    have dot := sameInside (s := text "./") (show i + 2 ≤ block.length by omega)
    have dots := sameInside (s := text "../") (show i + 3 ≤ block.length by omega)
    have same : ((text "/").isPrefixOf (block.drop i) || ((text "./").isPrefixOf (block.drop i) ||
        (text "../").isPrefixOf (block.drop i))) = dangerous (nameFrom block i) := by
      rw [Bool.eq_iff_iff, dangerousStarts, nameFrom, startsName (by decide),
        startsName (by decide), startsName (by decide)]
      simp only [Bool.or_eq_true, List.isPrefixOf_iff_prefix]
    rw [skipPrefixesAt, slash, dot, dots, orInside, orInside, same]
    change ∃ j, (if dangerous (nameFrom block i) = true then _ else _) = _ ∧ _
    by_cases more : dangerous (nameFrom block i) = true
    · obtain ⟨j, found, after, within, rest⟩ := strchrInside (by omega) zero before
        (show last - i < ustarHeaderSize by omega) (dangerousSlash more)
      have shorter := afterSlashShorter (List.ne_nil_of_mem (dangerousSlash more))
      cases fuel with
      | zero => omega
      | succ fuel =>
        rw [skipPrefixes, if_pos more, if_pos more, found, ← rest]
        exact ih within (by omega) (by rw [rest]; omega)
    · rw [if_neg more, skipSafe (Bool.eq_false_iff.mpr more)]
      exact ⟨i, rfl, before, rfl⟩

theorem stripInside (inside : last + 3 ≤ block.length) (small : last < ustarHeaderSize)
    (zero : block[last]? = some 0) (f : Field) (before : f.offset ≤ last) :
    ∃ name, stripAntisocialPrefixesAt block f.offset = .ok name ∧
      name.string block = stripAntisocialPrefixes (stringAt f block) ∧
      ∀ j, name = .inside j → j ≤ last := by
  obtain ⟨j, ran, within, rest⟩ := skipInside inside small zero before
    (show last - f.offset < ustarHeaderSize by omega) (Nat.le_refl _)
  have empty := sameInside (s := [0]) (show j + 1 ≤ block.length by omega)
  have dots := sameInside (s := text ".." ++ [0]) (show j + 3 ≤ block.length by omega)
  rw [stripAntisocialPrefixesAt, ran]
  simp only [bind, Except.bind, empty, dots, orInside]
  have literal : ([0].isPrefixOf (block.drop j) || (text ".." ++ [0]).isPrefixOf (block.drop j)) =
      true ↔ nameFrom block j = [] ∨ nameFrom block j = text ".." := by
    rw [Bool.or_eq_true, List.isPrefixOf_iff_prefix, List.isPrefixOf_iff_prefix]
    refine or_congr (wholeName (s := []) (by simp) ?_) (wholeName (s := text "..") (by decide) ?_)
    · simp only [List.length_drop, List.length_nil]
      omega
    · change 2 < _
      rw [List.length_drop]
      omega
  by_cases dot : nameFrom block j = [] ∨ nameFrom block j = text ".."
  · refine ⟨_, if_pos (literal.mpr dot), ?_, by rintro i ⟨⟩⟩
    rw [rest] at dot
    exact (if_pos dot).symm
  · refine ⟨_, if_neg (literal.not.mpr dot), ?_, by rintro i ⟨⟩; exact within⟩
    rw [rest] at dot
    refine Eq.trans ?_ (if_neg dot).symm
    simp only [NamePointer.string, stringAt, CString.mk.injEq]
    exact rest

end Names

section Refines

def Located.entry (block : List UInt8) (e : Located) : Entry :=
  ⟨e.fileName.map (·.string block), e.type, e.size⟩

structure Accepted (block : List UInt8) (e : Located) : Prop where
  chksum : parseOctalField (UstarHeader.chksum.get block) = some (calculateChksum block)
  name : ∃ name, e.fileName = some name ∧
    name.string block = stripAntisocialPrefixes (stringAt UstarHeader.name block) ∧
    ∀ i, name = .inside i → ∃ j, i ≤ j ∧ block[j]? = some 0
  small : e.size ≤ intMax
  kind : e.type = .regular ∧ parseOctalField (UstarHeader.size.get block) = some e.size ∨
    e.type = .directory ∧ e.size = 0

def Agrees (block : List UInt8) (read : Except Fault (Except Refusal Located))
    (whole : Except Refusal Entry) : Prop :=
  ∃ result, read = .ok result ∧ result.map (Located.entry block) = whole ∧ ∀ e, result = .ok e →
    isAllZeros block = true ∧ e.type = .eof ∨ Accepted block e

variable {block : List UInt8} {whole : Except Refusal Entry}

theorem agreesRefused {r : Refusal} : Agrees block (.ok (.error r)) (.error r) :=
  ⟨_, rfl, rfl, by rintro e ⟨⟩⟩

theorem agreesBind {α : Type} {read : Except Fault α} {a : α}
    {next : α → Except Fault (Except Refusal Located)} (ran : read = .ok a)
    (agrees : Agrees block (next a) whole) : Agrees block (read >>= next) whole := by
  rw [ran]
  exact agrees

theorem agreesIte {p : Prop} [Decidable p] {yes no : Except Fault (Except Refusal Located)}
    {yes' no' : Except Refusal Entry} (pos : p → Agrees block yes yes')
    (neg : ¬p → Agrees block no no') :
    Agrees block (if p then yes else no) (if p then yes' else no') := by
  by_cases holds : p
  · rw [if_pos holds, if_pos holds]
    exact pos holds
  · rw [if_neg holds, if_neg holds]
    exact neg holds

theorem agreesStripped (whole : block.length = ustarHeaderSize) (zero : block[99]? = some 0)
    (chksum : parseOctalField (UstarHeader.chksum.get block) = some (calculateChksum block))
    {type : UstarType} {size : Nat} (small : size ≤ intMax)
    (kind : type = .regular ∧ parseOctalField (UstarHeader.size.get block) = some size ∨
      type = .directory ∧ size = 0) :
    Agrees block
      (do return .ok ⟨← stripAntisocialPrefixesAt block UstarHeader.name.offset, type, size⟩)
      (.ok ⟨some (stripAntisocialPrefixes (stringAt UstarHeader.name block)), type, size⟩) := by
  obtain ⟨name, ran, same, within⟩ := stripInside (by rw [whole]; decide) (by decide) zero
    UstarHeader.name (by decide)
  refine agreesBind ran ⟨_, rfl, by simp [Except.map, Located.entry, same], ?_⟩
  rintro e ⟨⟩
  exact .inr ⟨chksum, ⟨name, rfl, same, fun i inside => ⟨99, within i inside, zero⟩⟩, small, kind⟩

theorem parseBlockRefines (whole : block.length = ustarHeaderSize) :
    Agrees block (ustarParseBlock block) (ustarParseHeader block) := by
  have field (f : Field) (fits : f.offset + f.size ≤ ustarHeaderSize) :
      fetch block f = .ok (f.get block) := if_pos (by rw [whole]; exact fits)
  have all : (⟨0, ustarHeaderSize⟩ : Field).get block = block := by
    rw [Field.get, List.drop_zero, List.take_of_length_le (by simp [whole])]
  have refused {r : Refusal} {p : Prop} (_ : p) := @agreesRefused block r
  refine agreesIte refused fun _ => ?_
  refine agreesBind (field _ (by decide)) ?_
  rw [all]
  refine agreesIte (fun zeros => ⟨_, rfl, rfl, ?_⟩) fun _ => ?_
  · rintro e ⟨⟩
    exact .inl ⟨zeros, rfl⟩
  refine agreesBind (field _ (by decide)) (agreesIte refused fun _ => ?_)
  refine agreesBind (field _ (by decide)) (agreesIte refused fun _ => ?_)
  refine agreesBind (field _ (by decide)) ?_
  cases stored : parseOctalField (UstarHeader.chksum.get block) with
  | none => exact agreesRefused
  | some chksum =>
    refine agreesIte refused fun same => ?_
    rw [not_not.mp same] at stored
    refine agreesBind (field _ (by decide)) (agreesBind (field _ (by decide)) ?_)
    refine agreesIte refused fun fits => agreesBind (field _ (by decide)) ?_
    have zero : block[99]? = some 0 := by
      obtain ⟨c, there, -⟩ := byteInside (show 99 < block.length by rw [whole]; decide)
      have last := (not_or.mp fits).1
      rw [not_not, List.getD_eq_getElem?_getD, getAt, if_pos (by decide)] at last
      rw [there, ← last]
      exact congrArg some (congrArg (·.getD 0) there).symm
    refine agreesIte refused fun _ => agreesIte (fun _ => ?_) fun _ =>
      agreesStripped whole zero stored (Nat.zero_le _) (.inr ⟨rfl, rfl⟩)
    refine agreesBind (field _ (by decide)) ?_
    cases sized : parseOctalField (UstarHeader.size.get block) with
    | none => exact agreesRefused
    | some size =>
      exact agreesIte refused fun small =>
        agreesStripped whole zero stored (Nat.le_of_not_gt small) (.inl ⟨rfl, sized⟩)

end Refines

section Accepted

variable {block : List UInt8}

def octal (c : UInt8) : Bool := decide (48 ≤ c ∧ c ≤ 55)

def fieldOctal (f : List UInt8) (value : Nat) : Nat :=
  octalValue ((f.takeWhile octal).map fun c => (c - 48).toNat) value

theorem parseOctalValue {f : List UInt8} {ofs value v : Nat}
    (ok : parseOctalFrom f ofs value = some v) : v = fieldOctal f value := by
  induction f generalizing ofs value with
  | nil => cases ok
  | cons c f ih =>
    unfold parseOctalFrom at ok
    split at ok
    · rename_i digit
      split at ok
      · cases ok
      · have later := ih ok
        simpa [fieldOctal, octal, digit, octalValue] using later
    · rename_i other
      split at ok
      · split at ok
        · cases ok
          simp [fieldOctal, octal, other, octalValue]
        · cases ok
      · cases ok

theorem chksumSum (h : List UInt8) :
    calculateChksum h = ((List.range ustarHeaderSize).map (chksumOctet h)).sum := by
  have folded (indices : List Nat) (chksum : Nat) (small : chksum + indices.length * 255 < 2 ^ 32) :
      indices.foldl (fun chksum i => (chksum + chksumOctet h i) % 2 ^ 32) chksum =
        chksum + (indices.map (chksumOctet h)).sum := by
    induction indices generalizing chksum with
    | nil => rfl
    | cons i indices ih =>
      have octet := chksumOctetBound h i
      simp only [List.length_cons] at small
      rw [List.foldl_cons, Nat.mod_eq_of_lt (by omega), ih _ (by omega), List.map_cons,
        List.sum_cons, Nat.add_assoc]
  rw [calculateChksum, folded _ 0 (by rw [List.length_range]; decide), Nat.zero_add]

def Harmless (name : List UInt8) : Prop :=
  name ≠ [] ∧ name ≠ text ".." ∧
    ¬text "/" <+: name ∧ ¬text "./" <+: name ∧ ¬text "../" <+: name

theorem strippedHarmless (fileName : CString) :
    Harmless (stripAntisocialPrefixes fileName).bytes := by
  unfold stripAntisocialPrefixes
  simp only
  split
  · exact ⟨by decide, by decide, by decide, by decide, by decide⟩
  · rename_i proper
    have safe := skippedSafe (Nat.le_refl fileName.bytes.length)
    rw [← Bool.not_eq_true, dangerousStarts, not_or, not_or] at safe
    exact ⟨(not_or.mp proper).1, (not_or.mp proper).2, safe⟩

theorem ustarAccepts (block : List UInt8) (whole : block.length = ustarHeaderSize) :
    ∃ result, ustarParseBlock block = .ok result ∧
      ((∃ e, result = .ok e ∧ e.type = .eof) ↔ ∀ c ∈ block, c = 0) ∧
      ∀ e, result = .ok e → e.type ≠ .eof →
        fieldOctal (UstarHeader.chksum.get block) 0 =
          ((List.range ustarHeaderSize).map (chksumOctet block)).sum ∧
        (∃ name, e.fileName = some name ∧ Harmless (name.string block).bytes ∧
          ∀ i, name = .inside i → ∃ j, i ≤ j ∧ block[j]? = some 0) ∧
        e.size ≤ intMax ∧
        e.size = if e.type = .directory then 0 else fieldOctal (UstarHeader.size.get block) 0 := by
  obtain ⟨result, ran, same, accepted⟩ := parseBlockRefines whole
  have zeros : isAllZeros block = true ↔ ∀ c ∈ block, c = 0 := by simp [isAllZeros]
  refine ⟨result, ran, ⟨?_, fun all => ?_⟩, ?_⟩
  · rintro ⟨e, ok, eof⟩
    rcases accepted e ok with ⟨all, -⟩ | ⟨-, -, -, ⟨kind, -⟩ | ⟨kind, -⟩⟩
    · exact zeros.mp all
    all_goals cases eof.symm.trans kind
  · have ended : ustarParseHeader block = .ok ⟨none, .eof, 0⟩ := by
      rw [ustarParseHeader, if_neg (by decide), if_pos (zeros.mpr all)]
    cases result with
    | error r => cases same.trans ended
    | ok e => exact ⟨e, rfl, congrArg Entry.type (Except.ok.inj (same.trans ended))⟩
  · intro e ok other
    rcases accepted e ok with ⟨-, eof⟩ | ⟨chksum, ⟨name, pointer, string, ends⟩, small, kind⟩
    · exact absurd eof other
    refine ⟨by rw [← parseOctalValue chksum, chksumSum], ?_, small, ?_⟩
    · exact ⟨name, pointer, string ▸ strippedHarmless _, ends⟩
    · rcases kind with ⟨regular, read⟩ | ⟨directory, empty⟩
      · rw [regular]
        exact parseOctalValue read
      · rw [directory]
        exact empty

theorem ustarAcceptsRegular :
    ∃ header e, ustarMakeHeader ⟨text "/.././hello.c", by decide⟩ .regular 2147483647 = .ok header ∧
      ustarParseBlock header = .ok (.ok e) ∧ e.type = .regular ∧ e.size = 2147483647 ∧
      fieldOctal (UstarHeader.size.get header) 0 = 2147483647 ∧
      ∃ name, e.fileName = some name ∧ Harmless (name.string header).bytes := by
  obtain ⟨header, made, whole, parsed⟩ :=
    @madeParses .regular 2147483647 ⟨text "/.././hello.c", by decide⟩ (.inl rfl) (by decide)
      (by decide) (by decide)
  obtain ⟨result, ran, -, accepted⟩ := ustarAccepts header whole
  obtain ⟨_, ran', same, -⟩ := parseBlockRefines whole
  cases ran.symm.trans ran'
  cases result with
  | error r => cases same.trans parsed
  | ok e =>
    have entry := Except.ok.inj (same.trans parsed)
    have type : e.type = .regular := congrArg Entry.type entry
    have length : e.size = 2147483647 := congrArg Entry.size entry
    obtain ⟨-, ⟨name, pointer, harmless, -⟩, -, size⟩ := accepted e rfl (by rw [type]; decide)
    rw [type, length] at size
    exact ⟨header, e, made, ran, type, length, size.symm, name, pointer, harmless⟩

end Accepted
end Pintos.Library
