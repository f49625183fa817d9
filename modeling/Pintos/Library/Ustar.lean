import Mathlib.Data.List.TakeWhile
import Pintos.Lib.Layout
import Pintos.Library.Format

/-! Headers of ustar archives: lib/ustar.c over the 512 bytes of a header block. -/
namespace Pintos.Library
open Layout

structure CString where
  bytes : List UInt8
  clean : 0 ∉ bytes
  deriving DecidableEq, Repr

inductive UstarType where
  | regular
  | directory
  | eof
  deriving DecidableEq, Repr

-- The bytes that stand in the file format; `USTAR_EOF` is −1.
def UstarType.code : UstarType → UInt8
  | regular => 48
  | directory => 53
  | eof => 255

def ustarHeaderSize : Nat := 512

namespace UstarHeader

def name : Field := ⟨0, 100⟩
def mode : Field := ⟨100, 8⟩
def uid : Field := ⟨108, 8⟩
def gid : Field := ⟨116, 8⟩
def size : Field := ⟨124, 12⟩
def mtime : Field := ⟨136, 12⟩
def chksum : Field := ⟨148, 8⟩
def typeflag : Field := ⟨156, 1⟩
def linkname : Field := ⟨157, 100⟩
def magic : Field := ⟨257, 6⟩
def version : Field := ⟨263, 2⟩
def uname : Field := ⟨265, 32⟩
def gname : Field := ⟨297, 32⟩
def devmajor : Field := ⟨329, 8⟩
def devminor : Field := ⟨337, 8⟩
def namePrefix : Field := ⟨345, 155⟩
def padding : Field := ⟨500, 12⟩

def fields : List Field :=
  [name, mode, uid, gid, size, mtime, chksum, typeflag, linkname, magic, version, uname, gname,
    devmajor, devminor, namePrefix, padding]

def sizeof : Nat := (fields.map Field.size).sum

end UstarHeader

-- The checksum is calculated as if the chksum field were all spaces.
def chksumOctet (h : List UInt8) (i : Nat) : Nat :=
  if UstarHeader.chksum.offset ≤ i ∧ i < UstarHeader.chksum.offset + UstarHeader.chksum.size then 32
  else (h.getD i 0).toNat

def calculateChksum (h : List UInt8) : Nat :=
  (List.range ustarHeaderSize).foldl (fun chksum i => (chksum + chksumOctet h i) % 2 ^ 32) 0

def dangerous (fileName : List UInt8) : Bool :=
  fileName.head? == some 47 || fileName.take 2 == text "./" || fileName.take 3 == text "../"

def afterSlash : List UInt8 → List UInt8
  | [] => []
  | c :: rest => if c = 47 then rest else afterSlash rest

-- Every round drops a byte at least, so the length is fuel enough.
def skipPrefixes : Nat → List UInt8 → List UInt8
  | 0, fileName => fileName
  | fuel + 1, fileName =>
    if dangerous fileName then skipPrefixes fuel (afterSlash fileName) else fileName

theorem afterSlashSuffix (fileName : List UInt8) : afterSlash fileName <:+ fileName := by
  induction fileName with
  | nil => exact List.suffix_rfl
  | cons c rest ih =>
    unfold afterSlash
    split
    · exact List.suffix_cons c rest
    · exact ih.trans (List.suffix_cons c rest)

theorem skipPrefixesSuffix (fuel : Nat) (fileName : List UInt8) :
    skipPrefixes fuel fileName <:+ fileName := by
  induction fuel generalizing fileName with
  | zero => exact List.suffix_rfl
  | succ fuel ih =>
    unfold skipPrefixes
    split
    · exact (ih _).trans (afterSlashSuffix fileName)
    · exact List.suffix_rfl

def stripAntisocialPrefixes (fileName : CString) : CString :=
  let rest := skipPrefixes fileName.bytes.length fileName.bytes
  if rest = [] ∨ rest = text ".." then ⟨text ".", by decide⟩
  else ⟨rest, fun zero => fileName.clean ((skipPrefixesSuffix _ _).mem zero)⟩

def strlcpy (dst : Field) (src header : List UInt8) : List UInt8 :=
  store dst.offset (src.take (dst.size - 1) ++ [0]) header

inductive Refusal where
  | assertion
  | printed (line : List UInt8)
  | message (text : String)
  deriving DecidableEq, Repr

def printOctal (width value : Nat) : List UInt8 :=
  formatInteger value false false baseO (zeroPadded width)

def fillHeader (fileName : List UInt8) (type : UstarType) (size : Int) : List UInt8 :=
  let h := List.replicate ustarHeaderSize 0
  let h := strlcpy UstarHeader.name fileName h
  let h := strlcpy UstarHeader.mode (printOctal 7 (if type = .regular then 0o644 else 0o755)) h
  let h := strlcpy UstarHeader.uid (text "0000000") h
  let h := strlcpy UstarHeader.gid (text "0000000") h
  -- `%o` takes the argument as an unsigned int.
  let h := strlcpy UstarHeader.size (printOctal 11 (size % 2 ^ 32).toNat) h
  let h := strlcpy UstarHeader.mtime (printOctal 11 1136102400) h
  let h := store UstarHeader.typeflag.offset [type.code] h
  let h := strlcpy UstarHeader.magic (text "ustar") h
  let h := store UstarHeader.version.offset (text "00") h
  let h := strlcpy UstarHeader.gname (text "root") h
  strlcpy UstarHeader.uname (text "root") h

def ustarMakeHeader (fileName : CString) (type : UstarType) (size : Int) :
    Except Refusal (List UInt8) :=
  if UstarHeader.sizeof = ustarHeaderSize ∧ (type = .regular ∨ type = .directory) then
    let fileName := stripAntisocialPrefixes fileName
    if fileName.bytes.length > 99 then
      .error (.printed (fileName.bytes ++ text ": file name too long\n"))
    else
      let h := fillHeader fileName.bytes type size
      .ok (strlcpy UstarHeader.chksum (printOctal 7 (calculateChksum h)) h)
  else .error .assertion

def ulongMax : Nat := 2 ^ 32 - 1
def intMax : Nat := 2 ^ 31 - 1

def parseOctalFrom : List UInt8 → Nat → Nat → Option Nat
  | [], _, _ => none
  | c :: s, ofs, value =>
    if 48 ≤ c ∧ c ≤ 55 then
      if value > ulongMax / 8 then none
      else parseOctalFrom s (ofs + 1) ((c - 48).toNat + value * 8)
    else if c = 32 ∨ c = 0 then if 0 < ofs then some value else none
    else none

def parseOctalField (s : List UInt8) : Option Nat := parseOctalFrom s 0 0

def isAllZeros (block : List UInt8) : Bool := block.all (· == 0)

def stringAt (f : Field) (header : List UInt8) : CString where
  bytes := (header.drop f.offset).takeWhile (· != 0)
  clean := fun zero => by simpa using List.mem_takeWhile_imp zero

structure Entry where
  fileName : Option CString
  type : UstarType
  size : Nat
  deriving DecidableEq, Repr

def ustarParseHeader (header : List UInt8) : Except Refusal Entry :=
  if UstarHeader.sizeof ≠ ustarHeaderSize then .error .assertion
  else if isAllZeros header then .ok ⟨none, .eof, 0⟩
  else if UstarHeader.magic.get header ≠ text "ustar" ++ [0] then
    .error (.message "not a ustar archive")
  else if UstarHeader.version.get header ≠ text "00" then .error (.message "invalid ustar version")
  else
    match parseOctalField (UstarHeader.chksum.get header) with
    | none => .error (.message "corrupt chksum field")
    | some chksum =>
      let typeflag := (UstarHeader.typeflag.get header).getD 0 0
      let fileName := stripAntisocialPrefixes (stringAt UstarHeader.name header)
      if chksum ≠ calculateChksum header then .error (.message "checksum mismatch")
      else if (UstarHeader.name.get header).getD (UstarHeader.name.size - 1) 0 ≠ 0 ∨
          (UstarHeader.namePrefix.get header).getD 0 0 ≠ 0 then
        .error (.message "file name too long")
      else if typeflag ≠ UstarType.regular.code ∧ typeflag ≠ UstarType.directory.code then
        .error (.message "unimplemented file type")
      else if typeflag = UstarType.regular.code then
        match parseOctalField (UstarHeader.size.get header) with
        | none => .error (.message "corrupt file size field")
        | some size =>
          if size > intMax then .error (.message "file too large")
          else .ok ⟨some fileName, .regular, size⟩
      else .ok ⟨some fileName, .directory, 0⟩

end Pintos.Library
