import Mathlib.Data.List.GetD
import Pintos.Library.Ustar

/-! What `ustar_make_header` wrote, `ustar_parse_header` reads back. -/
namespace Pintos.Library
open Layout

section Names

theorem afterSlashShorter {fileName : List UInt8} (some : fileName ≠ []) :
    (afterSlash fileName).length < fileName.length := by
  obtain ⟨c, rest, rfl⟩ := List.exists_cons_of_ne_nil some
  unfold afterSlash
  split
  · exact Nat.lt_succ_self _
  · exact Nat.lt_succ_of_le (afterSlashSuffix rest).length_le

theorem skippedSafe {fuel : Nat} {fileName : List UInt8} (enough : fileName.length ≤ fuel) :
    dangerous (skipPrefixes fuel fileName) = false := by
  induction fuel generalizing fileName with
  | zero =>
    obtain rfl : fileName = [] := List.length_eq_zero_iff.mp (Nat.le_zero.mp enough)
    rfl
  | succ fuel ih =>
    unfold skipPrefixes
    split
    · rename_i more
      have some : fileName ≠ [] := by
        rintro rfl
        cases more
      have shorter := afterSlashShorter some
      exact ih (by omega)
    · rename_i safe
      exact Bool.eq_false_iff.mpr safe

theorem skipSafe {fileName : List UInt8} (safe : dangerous fileName = false) (fuel : Nat) :
    skipPrefixes fuel fileName = fileName := by
  cases fuel with
  | zero => rfl
  | succ fuel => simp [skipPrefixes, safe]

theorem stripIdempotent (fileName : CString) :
    stripAntisocialPrefixes (stripAntisocialPrefixes fileName) =
      stripAntisocialPrefixes fileName := by
  generalize given : stripAntisocialPrefixes fileName = stripped
  unfold stripAntisocialPrefixes at given
  simp only at given
  split at given
  · subst given
    decide
  · rename_i proper
    subst given
    simp only [stripAntisocialPrefixes, skipSafe (skippedSafe (Nat.le_refl _)), if_neg proper]

end Names

section Octal

theorem octalDigitRange {d : Nat} (small : d < 8) :
    48 ≤ octalDigit d ∧ octalDigit d ≤ 55 ∧ (octalDigit d - 48).toNat = d := by
  have all : ∀ d < 8, 48 ≤ octalDigit d ∧ octalDigit d ≤ 55 ∧ (octalDigit d - 48).toNat = d := by
    decide
  exact all d small

def octalValue (digits : List Nat) (value : Nat) : Nat :=
  digits.foldl (fun value d => d + value * 8) value

theorem octalValueLe (digits : List Nat) (value : Nat) : value ≤ octalValue digits value := by
  induction digits generalizing value with
  | nil => exact Nat.le_refl _
  | cons d digits ih =>
    have later := ih (d + value * 8)
    simp only [octalValue, List.foldl_cons] at later ⊢
    omega

theorem parseOctalDigits {digits : List Nat} (small : ∀ d ∈ digits, d < 8) {ofs value : Nat}
    (read : 0 < ofs + digits.length) (fits : octalValue digits value ≤ ulongMax)
    (rest : List UInt8) :
    parseOctalFrom (digits.map octalDigit ++ 0 :: rest) ofs value =
      some (octalValue digits value) := by
  induction digits generalizing ofs value with
  | nil =>
    have positive : 0 < ofs := by simpa using read
    simp [parseOctalFrom, octalValue, positive]
  | cons d digits ih =>
    obtain ⟨low, high, same⟩ := octalDigitRange (small d List.mem_cons_self)
    have grows : d + value * 8 ≤ ulongMax := Nat.le_trans (octalValueLe digits _) fits
    have room : ¬value > ulongMax / 8 := by
      unfold ulongMax at grows ⊢
      omega
    rw [List.map_cons, List.cons_append, parseOctalFrom, if_pos ⟨low, high⟩, if_neg room, same]
    exact ih (fun e among => small e (List.mem_cons_of_mem d among)) (by omega) fits

theorem parsePrinted {width value : Nat} (positive : 0 < width) (fits : value < 8 ^ width)
    (unsigned : value ≤ ulongMax) (rest : List UInt8) :
    parseOctalField (printOctal width value ++ 0 :: rest) = some value := by
  have wide : value < 2 ^ 64 := Nat.lt_of_le_of_lt unsigned (by decide)
  have whole : octalValue (Nat.digitsAppend 8 width value).reverse 0 = value := by
    have back : Nat.ofDigits 8 (Nat.digitsAppend 8 width value) = value := by
      rw [Nat.digitsAppend, Nat.ofDigits_append_replicate_zero, Nat.ofDigits_digits]
    rw [Nat.ofDigits_eq_foldr] at back
    rw [octalValue, List.foldl_reverse]
    simpa [Nat.mul_comm] using back
  have size := Nat.length_digitsAppend (by decide : 1 < 8) width fits
  rw [printOctal, formatOctal positive fits wide, parseOctalField,
    parseOctalDigits (fun d among => Nat.lt_of_mem_digitsAppend (by decide) width d
      (List.mem_reverse.mp among)) (by simp [size, positive])
      (by rw [whole]; exact unsigned), whole]

theorem printOctalLength {width value : Nat} (positive : 0 < width) (fits : value < 8 ^ width)
    (wide : value < 2 ^ 64) : (printOctal width value).length = width := by
  rw [printOctal, formatOctal positive fits wide, List.length_map, List.length_reverse,
    Nat.length_digitsAppend (by decide) width fits]

end Octal

section Fields

variable {dst f : Field} {src h : List UInt8}

@[simp] theorem strlcpyLength (dst : Field) (src h : List UInt8) :
    (strlcpy dst src h).length = h.length := storeLength ..

theorem strlcpyApart (room : 0 < dst.size)
    (apart : f.offset + f.size ≤ dst.offset ∨ dst.offset + dst.size ≤ f.offset) :
    f.get (strlcpy dst src h) = f.get h := by
  refine getStoreApart ?_ apart
  simp only [List.length_append, List.length_take, List.length_singleton]
  omega

theorem getZeros {n : Nat} (inside : f.offset + f.size ≤ n) :
    f.get (List.replicate n (0 : UInt8)) = List.replicate f.size 0 := by
  rw [Field.get, List.drop_replicate, List.take_replicate, Nat.min_eq_left (by omega)]

theorem strlcpyZeros (short : src.length < dst.size) (inside : dst.offset + dst.size ≤ h.length)
    (empty : dst.get h = List.replicate dst.size 0) :
    dst.get (strlcpy dst src h) = src ++ 0 :: List.replicate (dst.size - src.length - 1) 0 := by
  have all : src.take (dst.size - 1) = src := List.take_of_length_le (by omega)
  rw [strlcpy, all, getStore (by simpa using short) inside, empty, List.drop_replicate,
    List.length_append, List.length_singleton, List.append_assoc, Nat.sub_sub]
  rfl

theorem stringAtField {rest : List UInt8} (clean : 0 ∉ src) (starts : f.get h = src ++ 0 :: rest) :
    (stringAt f h).bytes = src := by
  have whole : h.drop f.offset = src ++ 0 :: (rest ++ (h.drop f.offset).drop f.size) := by
    conv_lhs => rw [← List.take_append_drop f.size (h.drop f.offset)]
    rw [← Field.get, starts, List.append_assoc]
    rfl
  rw [stringAt]
  simp only
  rw [whole, List.takeWhile_append_of_pos, List.takeWhile_cons_of_neg (by simp), List.append_nil]
  intro c among
  have other : c ≠ 0 := fun zero => clean (zero ▸ among)
  simpa using other

end Fields

section Checksum

theorem chksumCongr {h h' : List UInt8}
    (same : ∀ i, i < 148 ∨ 156 ≤ i → h'[i]? = h[i]?) : calculateChksum h' = calculateChksum h := by
  have octet (i : Nat) : chksumOctet h' i = chksumOctet h i := by
    unfold chksumOctet
    split
    · rfl
    · rename_i outside
      simp only [UstarHeader.chksum] at outside
      rw [List.getD_eq_getElem?_getD, List.getD_eq_getElem?_getD, same i (by omega)]
  simp only [calculateChksum, octet]

theorem chksumStored (h src : List UInt8) :
    calculateChksum (strlcpy UstarHeader.chksum src h) = calculateChksum h := by
  refine chksumCongr fun i outside => storeApart ?_
  simp only [UstarHeader.chksum, List.length_append, List.length_take, List.length_singleton]
  omega

theorem chksumOctetBound (h : List UInt8) (i : Nat) : chksumOctet h i ≤ 255 := by
  unfold chksumOctet
  split
  · decide
  · exact Nat.le_of_lt_succ (h.getD i 0).toNat_lt

theorem chksumBound (h : List UInt8) : calculateChksum h ≤ ustarHeaderSize * 255 := by
  have bound (indices : List Nat) (chksum : Nat) :
      indices.foldl (fun chksum i => (chksum + chksumOctet h i) % 2 ^ 32) chksum ≤
        chksum + indices.length * 255 := by
    induction indices generalizing chksum with
    | nil => exact Nat.le_add_right _ _
    | cons i indices ih =>
      have later := ih ((chksum + chksumOctet h i) % 2 ^ 32)
      have less := Nat.mod_le (chksum + chksumOctet h i) (2 ^ 32)
      have octet := chksumOctetBound h i
      simp only [List.foldl_cons, List.length_cons]
      omega
  simpa [calculateChksum] using bound (List.range ustarHeaderSize) 0

end Checksum

section Header

variable {fileName : List UInt8} {type : UstarType} {size : Int}

theorem fillHeaderLength : (fillHeader fileName type size).length = ustarHeaderSize := by
  simp [fillHeader]

theorem typeflagApart {f : Field} {h : List UInt8}
    (apart : f.offset + f.size ≤ 156 ∨ 157 ≤ f.offset) :
    f.get (store UstarHeader.typeflag.offset [type.code] h) = f.get h :=
  getStoreApart (Nat.le_refl 1) apart

theorem fillName (short : fileName.length ≤ 99) :
    UstarHeader.name.get (fillHeader fileName type size) =
      fileName ++ 0 :: List.replicate (100 - fileName.length - 1) 0 := by
  simp (disch := decide) only [fillHeader, strlcpyApart, getStoreApart, typeflagApart]
  exact strlcpyZeros (Nat.lt_succ_of_le short) (by rw [List.length_replicate]; decide)
    (getZeros (by decide))

theorem fillNamePrefix :
    UstarHeader.namePrefix.get (fillHeader fileName type size) = List.replicate 155 0 := by
  simp (disch := decide) only [fillHeader, strlcpyApart, getStoreApart, typeflagApart]
  exact getZeros (by decide)

theorem fillMagic :
    UstarHeader.magic.get (fillHeader fileName type size) = text "ustar" ++ [0] := by
  simp (disch := decide) only [fillHeader, strlcpyApart, getStoreApart]
  rw [strlcpyZeros (by decide) (by simp; decide)]
  · rfl
  · simp (disch := decide) only [strlcpyApart, typeflagApart, getZeros]

theorem fillVersion : UstarHeader.version.get (fillHeader fileName type size) = text "00" := by
  simp (disch := decide) only [fillHeader, strlcpyApart]
  rw [getStore (by decide) (by simp; decide)]
  simp (disch := decide) only [strlcpyApart, typeflagApart, getZeros]
  rfl

theorem fillTypeflag : UstarHeader.typeflag.get (fillHeader fileName type size) = [type.code] := by
  simp (disch := decide) only [fillHeader, strlcpyApart, getStoreApart]
  rw [getStore (show [type.code].length ≤ UstarHeader.typeflag.size from Nat.le_refl 1)
    (by simp; decide)]
  simp (disch := decide) only [strlcpyApart, getZeros]
  rfl

theorem fillSize (low : 0 ≤ size) (high : size ≤ intMax) :
    UstarHeader.size.get (fillHeader fileName type size) = printOctal 11 size.toNat ++ [0] := by
  have same : size % 2 ^ 32 = size := Int.emod_eq_of_lt low (by unfold intMax at high; omega)
  have length : (printOctal 11 size.toNat).length = 11 :=
    printOctalLength (by decide) (by unfold intMax at high; omega) (by unfold intMax at high; omega)
  simp (disch := decide) only [fillHeader, strlcpyApart, getStoreApart, typeflagApart, same]
  rw [strlcpyZeros (by rw [length]; decide) (by simp; decide), length]
  · rfl
  · simp (disch := decide) only [strlcpyApart, getZeros]

theorem fillNotZeros (src : List UInt8) :
    isAllZeros (strlcpy UstarHeader.chksum src (fillHeader fileName type size)) = false := by
  rw [Bool.eq_false_iff]
  intro zeros
  have magic : (117 : UInt8) ∈ UstarHeader.magic.get
      (strlcpy UstarHeader.chksum src (fillHeader fileName type size)) := by
    rw [strlcpyApart (by decide) (by decide), fillMagic]
    decide
  have zero := List.all_eq_true.mp zeros _ (List.mem_of_mem_drop (List.mem_of_mem_take magic))
  revert zero
  decide

theorem makeHeader {fileName : CString} (kind : type = .regular ∨ type = .directory)
    (short : (stripAntisocialPrefixes fileName).bytes.length ≤ 99) :
    ustarMakeHeader fileName type size =
      .ok (strlcpy UstarHeader.chksum
        (printOctal 7 (calculateChksum
          (fillHeader (stripAntisocialPrefixes fileName).bytes type size)))
        (fillHeader (stripAntisocialPrefixes fileName).bytes type size)) := by
  unfold ustarMakeHeader
  rw [if_pos ⟨by decide, kind⟩]
  simp only
  rw [if_neg (Nat.not_lt.mpr short)]

theorem parseMade {name : CString} (stripped : stripAntisocialPrefixes name = name)
    (short : name.bytes.length ≤ 99) (kind : type = .regular ∨ type = .directory) (low : 0 ≤ size)
    (high : size ≤ intMax) :
    ustarParseHeader (strlcpy UstarHeader.chksum
        (printOctal 7 (calculateChksum (fillHeader name.bytes type size)))
        (fillHeader name.bytes type size)) =
      .ok ⟨some name, type, if type = .regular then size.toNat else 0⟩ := by
  generalize made : strlcpy UstarHeader.chksum
    (printOctal 7 (calculateChksum (fillHeader name.bytes type size)))
    (fillHeader name.bytes type size) = header
  have small : calculateChksum (fillHeader name.bytes type size) < 8 ^ 7 :=
    Nat.lt_of_le_of_lt (chksumBound _) (by decide)
  have other {f : Field} (apart : f.offset + f.size ≤ 148 ∨ 156 ≤ f.offset) :
      f.get header = f.get (fillHeader name.bytes type size) :=
    made ▸ strlcpyApart (by decide) apart
  have nonzero : isAllZeros header = false := made ▸ fillNotZeros _
  have magic : UstarHeader.magic.get header = text "ustar" ++ [0] :=
    (other (by decide)).trans fillMagic
  have version : UstarHeader.version.get header = text "00" :=
    (other (by decide)).trans fillVersion
  have chksum : parseOctalField (UstarHeader.chksum.get header) = some (calculateChksum header) := by
    rw [← made, chksumStored, strlcpyZeros]
    · exact parsePrinted (by decide) small (Nat.le_of_lt (Nat.lt_trans small (by decide))) _
    · rw [printOctalLength (by decide) small (Nat.lt_trans small (by decide))]
      decide
    · rw [fillHeaderLength]
      decide
    · simp (disch := decide) only [fillHeader, strlcpyApart, getStoreApart, typeflagApart, getZeros]
  have named : UstarHeader.name.get header =
      name.bytes ++ 0 :: List.replicate (100 - name.bytes.length - 1) 0 :=
    (other (by decide)).trans (fillName short)
  have fileName : stringAt UstarHeader.name header = name := by
    have same := stringAtField name.clean named
    cases name
    simp only [stringAt] at same ⊢
    simp only [same]
  have last : (UstarHeader.name.get header).getD (UstarHeader.name.size - 1) 0 = 0 := by
    rw [named, List.getD_append_right _ _ _ _ (by simpa [UstarHeader.name] using short),
      ← List.replicate_succ, List.getD_eq_getElem?_getD,
      List.getElem?_getD_replicate_default_eq]
  have noPrefix : (UstarHeader.namePrefix.get header).getD 0 0 = 0 := by
    rw [other (by decide), fillNamePrefix, List.getD_eq_getElem?_getD,
      List.getElem?_getD_replicate_default_eq]
  have flag : (UstarHeader.typeflag.get header).getD 0 0 = type.code := by
    rw [other (by decide), fillTypeflag]
    rfl
  have sized : parseOctalField (UstarHeader.size.get header) = some size.toNat := by
    rw [other (by decide), fillSize low high]
    exact parsePrinted (by decide) (by unfold intMax at high; omega)
      (by unfold intMax at high; unfold ulongMax; omega) []
  have less : ¬size.toNat > intMax := by omega
  unfold ustarParseHeader
  rw [if_neg (by decide), nonzero, if_neg (by decide), if_neg (not_not.mpr magic),
    if_neg (not_not.mpr version), chksum]
  simp only [ne_eq, not_true_eq_false, if_false, last, noPrefix, or_self, flag, fileName, stripped]
  rcases kind with rfl | rfl
  · simp [sized, less]
  · simp [UstarType.code]

theorem madeParses {fileName : CString} (kind : type = .regular ∨ type = .directory)
    (short : (stripAntisocialPrefixes fileName).bytes.length ≤ 99) (low : 0 ≤ size)
    (high : size ≤ intMax) :
    ∃ header, ustarMakeHeader fileName type size = .ok header ∧
      header.length = ustarHeaderSize ∧
      ustarParseHeader header =
        .ok ⟨some (stripAntisocialPrefixes fileName), type,
          if type = .regular then size.toNat else 0⟩ := by
  refine ⟨_, makeHeader kind short, ?_, parseMade (stripIdempotent fileName) short kind low high⟩
  rw [strlcpyLength, fillHeaderLength]

theorem ustarRoundTrip (fileName : CString) (type : UstarType) (size : Int)
    (short : (stripAntisocialPrefixes fileName).bytes.length ≤ 99)
    (kind : type = .regular ∨ type = .directory) (low : 0 ≤ size) (high : size ≤ intMax) :
    (∃ header, ustarMakeHeader fileName type size = .ok header ∧
      header.length = ustarHeaderSize ∧
      ustarParseHeader header =
        .ok ⟨some (stripAntisocialPrefixes fileName), type,
          if type = .regular then size.toNat else 0⟩) ∧
    (∀ name, stripAntisocialPrefixes (stripAntisocialPrefixes name) =
      stripAntisocialPrefixes name) ∧
    ∀ type' size', ustarMakeHeader (stripAntisocialPrefixes fileName) type' size' =
      ustarMakeHeader fileName type' size' := by
  refine ⟨madeParses kind short low high, stripIdempotent, fun type' size' => ?_⟩
  unfold ustarMakeHeader
  rw [stripIdempotent]

theorem ustarRoundTripExample :
    (∃ header, ustarMakeHeader ⟨text "/.././hello.c", by decide⟩ .regular 2147483647 = .ok header ∧
      header.length = ustarHeaderSize ∧
      ustarParseHeader header = .ok ⟨some ⟨text "hello.c", by decide⟩, .regular, 2147483647⟩) :=
  (ustarRoundTrip ⟨text "/.././hello.c", by decide⟩ .regular 2147483647 (by decide) (.inl rfl)
    (by decide) (by decide)).1

end Header

end Pintos.Library
