import Mathlib.Data.Nat.Digits.Lemmas

/-! Integer conversions of `printf`: `format_integer` of lib/stdio.c, as the characters it outputs. -/
namespace Pintos.Library

def text (s : String) : List UInt8 := s.toList.map fun c => c.toUInt8

def isdigit (c : UInt8) : Bool := 48 ≤ c && c ≤ 57

structure Flags where
  minus : Bool := false
  plus : Bool := false
  space : Bool := false
  pound : Bool := false
  zero : Bool := false
  group : Bool := false
  deriving DecidableEq, Repr

structure PrintfConversion where
  flags : Flags
  width : Nat
  precision : Int
  deriving DecidableEq, Repr

-- `x` is 0 where a base has no `x` character.
structure IntegerBase where
  base : Nat
  digits : List UInt8
  x : UInt8
  group : Nat
  deriving DecidableEq, Repr

def baseO : IntegerBase := ⟨8, text "01234567", 0, 3⟩

def accumulate (b : IntegerBase) (grouped : Bool) : Nat → Nat → Nat → List UInt8 → List UInt8
  | 0, _, _, buf => buf
  | fuel + 1, value, digitCnt, buf =>
    if 0 < value then
      let buf := if grouped && decide (0 < digitCnt) && digitCnt % b.group == 0
        then buf ++ text "," else buf
      accumulate b grouped fuel (value / b.base) (digitCnt + 1)
        (buf ++ [b.digits.getD (value % b.base) 0])
    else buf

def formatInteger (value : Nat) (isSigned negative : Bool) (b : IntegerBase)
    (c : PrintfConversion) : List UInt8 :=
  let sign : List UInt8 :=
    if isSigned then
      if c.flags.plus then text (if negative then "-" else "+")
      else if c.flags.space then text (if negative then "-" else " ")
      else if negative then text "-" else []
    else []
  let x : UInt8 := if c.flags.pound ∧ 0 < value then b.x else 0
  -- A `uintmax_t` has 64 bits, so no base gives it more than 64 digits.
  let buf := accumulate b c.flags.group 64 value 0 []
  let precision := if c.precision < 0 then 1 else c.precision.toNat
  let buf := buf ++ List.replicate (min precision 63 - buf.length) 48
  let buf := if c.flags.pound ∧ b.base = 8 ∧ buf.getLast? ≠ some 48 then buf ++ [48] else buf
  let padCnt := c.width - buf.length - (if x = 0 then 0 else 2) - sign.length
  (if c.flags.minus ∨ c.flags.zero then [] else List.replicate padCnt 32) ++ sign ++
    (if x = 0 then [] else [48, x]) ++
    (if c.flags.zero then List.replicate padCnt 48 else []) ++ buf.reverse ++
    (if c.flags.minus then List.replicate padCnt 32 else [])

def zeroPadded (width : Nat) : PrintfConversion := ⟨{ zero := true }, width, -1⟩

theorem accumulateDigits (b : IntegerBase) (two : 2 ≤ b.base) {fuel value : Nat}
    (enough : value < 2 ^ fuel) (digitCnt : Nat) (buf : List UInt8) :
    accumulate b false fuel value digitCnt buf =
      buf ++ (Nat.digits b.base value).map fun d => b.digits.getD d 0 := by
  induction fuel generalizing value digitCnt buf with
  | zero =>
    obtain rfl : value = 0 := by simpa using enough
    simp [accumulate]
  | succ fuel ih =>
    unfold accumulate
    split
    · rename_i positive
      have smaller : value / b.base < 2 ^ fuel := by
        have halved : value / b.base ≤ value / 2 := Nat.div_le_div_left two (by omega)
        rw [Nat.pow_succ] at enough
        omega
      rw [ih smaller, Nat.digits_def' (by omega) positive]
      simp
    · obtain rfl : value = 0 := by omega
      simp

def octalDigit (d : Nat) : UInt8 := baseO.digits.getD d 0

theorem formatOctal {value width : Nat} (positive : 0 < width) (fits : value < 8 ^ width)
    (wide : value < 2 ^ 64) :
    formatInteger value false false baseO (zeroPadded width) =
      (Nat.digitsAppend 8 width value).reverse.map octalDigit := by
  have digits : accumulate baseO false 64 value 0 [] = (Nat.digits 8 value).map octalDigit := by
    rw [accumulateDigits baseO (by decide) wide]
    rfl
  have size : (Nat.digits 8 value).length ≤ width :=
    (Nat.digits_length_le_iff (by decide) value).mpr fits
  have zero : octalDigit 0 = 48 := by decide
  have whole : (Nat.digitsAppend 8 width value).reverse.map octalDigit =
      List.replicate (width - (Nat.digits 8 value).length) 48 ++
        ((Nat.digits 8 value).map octalDigit).reverse := by
    rw [Nat.digitsAppend, List.reverse_append, List.reverse_replicate, List.map_append,
      List.map_replicate, zero, List.map_reverse]
  rw [whole]
  simp only [formatInteger, zeroPadded, digits]
  rcases Nat.eq_zero_or_pos value with rfl | more
  · -- The precision puts the only digit there is.
    obtain ⟨rest, rfl⟩ : ∃ rest, width = rest + 1 := ⟨width - 1, by omega⟩
    simp [List.replicate_succ']
  · have some : 0 < (Nat.digits 8 value).length :=
      List.length_pos_of_ne_nil (Nat.digits_ne_nil_iff_ne_zero.mpr (by omega))
    have none : 1 - (Nat.digits 8 value).length = 0 := by omega
    simp [none]

example : formatInteger 420 false false baseO (zeroPadded 7) = text "0000644" := by decide

end Pintos.Library
