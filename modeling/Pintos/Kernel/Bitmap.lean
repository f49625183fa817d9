import Mathlib.Data.Nat.Bitwise
import Pintos.Lib.Machine

/-! Bitmaps: lib/kernel/bitmap.c over an array of 32-bit elements. A failed assertion is an error. -/
namespace Pintos.Kernel
open Machine

inductive Fault where
  | assertion
  | panic
  deriving DecidableEq, Repr

structure Bitmap where
  bitCnt : Nat
  bits : Nat → BitVec 32

def elemIdx (bitIdx : Nat) : Nat := bitIdx / 32
def bitMask (bitIdx : Nat) : BitVec 32 := 1#32 <<< (bitIdx % 32)
-- in a `size_t`
def elemCnt (bitCnt : Nat) : Nat := (bitCnt + 31) % 2 ^ 32 / 32
def byteCnt (bitCnt : Nat) : Nat := 4 * elemCnt bitCnt

def bitmapBufSize (bitCnt : Nat) : Nat := 8 + byteCnt bitCnt

def bitmapMark (b : Bitmap) (i : Nat) : Bitmap :=
  { b with bits := Function.update b.bits (elemIdx i) (b.bits (elemIdx i) ||| bitMask i) }

def bitmapReset (b : Bitmap) (i : Nat) : Bitmap :=
  { b with bits := Function.update b.bits (elemIdx i) (b.bits (elemIdx i) &&& ~~~bitMask i) }

def Bitmap.bit (b : Bitmap) (i : Nat) : Bool := (b.bits (elemIdx i) &&& bitMask i) != 0#32

def bitmapSet (b : Bitmap) (i : Nat) (value : Bool) : Except Fault Bitmap :=
  if i < b.bitCnt then .ok (if value then bitmapMark b i else bitmapReset b i)
  else .error .assertion

def bitmapTest (b : Bitmap) (i : Nat) : Except Fault Bool :=
  if i < b.bitCnt then .ok (b.bit i) else .error .assertion

def setFrom (b : Bitmap) (start : Nat) (value : Bool) : Nat → Except Fault Bitmap
  | 0 => .ok b
  | cnt + 1 => do
    let b ← bitmapSet b start value
    setFrom b (start + 1) value cnt

def bitmapSetMultiple (b : Bitmap) (start cnt : Nat) (value : Bool) : Except Fault Bitmap :=
  if start ≤ b.bitCnt ∧ start + cnt ≤ b.bitCnt then setFrom b start value cnt
  else .error .assertion

def bitmapSetAll (b : Bitmap) (value : Bool) : Except Fault Bitmap :=
  bitmapSetMultiple b 0 b.bitCnt value

def containsFrom (b : Bitmap) (start : Nat) (value : Bool) : Nat → Except Fault Bool
  | 0 => .ok false
  | cnt + 1 => do
    if (← bitmapTest b start) = value then .ok true
    else containsFrom b (start + 1) value cnt

def bitmapContains (b : Bitmap) (start cnt : Nat) (value : Bool) : Except Fault Bool :=
  if start ≤ b.bitCnt ∧ start + cnt ≤ b.bitCnt then containsFrom b start value cnt
  else .error .assertion

def bitmapAll (b : Bitmap) (start cnt : Nat) : Except Fault Bool := do
  .ok (!(← bitmapContains b start cnt false))

def scanFrom (b : Bitmap) (cnt : Nat) (value : Bool) (i : Nat) : Nat → Except Fault (Option Nat)
  | 0 => .ok none
  | more + 1 => do
    if ← bitmapContains b i cnt (!value) then scanFrom b cnt value (i + 1) more
    else .ok (some i)

def bitmapScan (b : Bitmap) (start cnt : Nat) (value : Bool) : Except Fault (Option Nat) :=
  if start ≤ b.bitCnt then
    if cnt ≤ b.bitCnt then scanFrom b cnt value start (b.bitCnt - cnt + 1 - start) else .ok none
  else .error .assertion

def bitmapScanAndFlip (b : Bitmap) (start cnt : Nat) (value : Bool) :
    Except Fault (Option Nat × Bitmap) := do
  match ← bitmapScan b start cnt value with
  | none => .ok (none, b)
  | some i => .ok (some i, ← bitmapSetMultiple b i cnt (!value))

def bitmapCreateInBuf (bitCnt blockSize : Nat) (bits : Nat → BitVec 32) : Except Fault Bitmap :=
  if bitmapBufSize bitCnt ≤ blockSize then bitmapSetAll ⟨bitCnt, bits⟩ false else .error .assertion

section Bits
variable {b : Bitmap} {i j : Nat}

theorem bitMaskBit (i k : Nat) (less : k < 32) : (bitMask i).getLsbD k = decide (k = i % 32) := by
  rw [bitMask, BitVec.getLsbD_shiftLeft]
  simp only [less, decide_true, Bool.true_and, BitVec.getLsbD_one]
  rcases Nat.lt_trichotomy k (i % 32) with below | here | above
  · simp [below, Nat.ne_of_lt below]
  · simp [here]
  · have past : k - i % 32 ≠ 0 := by omega
    have other : k ≠ i % 32 := by omega
    simp [past, other, Nat.not_lt_of_lt above]

theorem bitRead (b : Bitmap) (i : Nat) : b.bit i = (b.bits (elemIdx i)).getLsbD (i % 32) := by
  have within : i % 32 < 32 := Nat.mod_lt _ (by decide)
  rw [Bitmap.bit]
  cases read : (b.bits (elemIdx i)).getLsbD (i % 32) with
  | true =>
    rw [bne_iff_ne]
    intro zero
    have bit := congrArg (fun w : BitVec 32 => w.getLsbD (i % 32)) zero
    simp only [BitVec.getLsbD_and, read, bitMaskBit i _ within] at bit
    simp at bit
  | false =>
    rw [bne_eq_false_iff_eq]
    apply BitVec.eq_of_getLsbD_eq
    intro k less
    rw [BitVec.getLsbD_and, bitMaskBit i k less, BitVec.getLsbD_zero]
    by_cases here : k = i % 32
    · simp [here, read]
    · simp [here]

theorem sameBit : elemIdx i = elemIdx j ∧ i % 32 = j % 32 ↔ i = j := by
  unfold elemIdx
  omega

theorem bitUpdate {w : BitVec 32} {value : Bool}
    (changed : ∀ k < 32, w.getLsbD k =
      if k = i % 32 then value else (b.bits (elemIdx i)).getLsbD k) (j : Nat) :
    ({ b with bits := Function.update b.bits (elemIdx i) w } : Bitmap).bit j =
      if j = i then value else b.bit j := by
  rw [bitRead, bitRead]
  by_cases here : elemIdx j = elemIdx i
  · have same : j % 32 = i % 32 ↔ j = i :=
      ⟨fun bit => sameBit.mp ⟨here, bit⟩, fun equal => equal ▸ rfl⟩
    simp only [here, Function.update_self, changed _ (Nat.mod_lt j (by decide)), same]
  · have other : j ≠ i := fun equal => here (equal ▸ rfl)
    simp only [Function.update_of_ne here, if_neg other]

theorem bitMark (b : Bitmap) (i j : Nat) :
    (bitmapMark b i).bit j = if j = i then true else b.bit j := by
  refine bitUpdate (fun k less => ?_) j
  rw [BitVec.getLsbD_or, bitMaskBit i k less]
  by_cases here : k = i % 32 <;> simp [here]

theorem bitReset (b : Bitmap) (i j : Nat) :
    (bitmapReset b i).bit j = if j = i then false else b.bit j := by
  refine bitUpdate (fun k less => ?_) j
  rw [BitVec.getLsbD_and, BitVec.getLsbD_not, bitMaskBit i k less]
  by_cases here : k = i % 32 <;> simp [here, less]

end Bits

section Ranges
variable {b : Bitmap} {start cnt : Nat} {value : Bool}

theorem setSpec {i : Nat} (inside : i < b.bitCnt) (value : Bool) :
    ∃ b', bitmapSet b i value = .ok b' ∧ b'.bitCnt = b.bitCnt ∧
      ∀ j, b'.bit j = if j = i then value else b.bit j := by
  cases value with
  | true => exact ⟨bitmapMark b i, if_pos inside, rfl, bitMark b i⟩
  | false => exact ⟨bitmapReset b i, if_pos inside, rfl, bitReset b i⟩

theorem setFromSpec (inside : start + cnt ≤ b.bitCnt) (value : Bool) :
    ∃ b', setFrom b start value cnt = .ok b' ∧ b'.bitCnt = b.bitCnt ∧
      ∀ j, b'.bit j = if start ≤ j ∧ j < start + cnt then value else b.bit j := by
  induction cnt generalizing b start with
  | zero => exact ⟨b, rfl, rfl, fun j => by rw [if_neg (by omega)]⟩
  | succ cnt ih =>
    obtain ⟨b₁, set, same, bits⟩ := setSpec (b := b) (i := start) (by omega) value
    obtain ⟨b₂, rest, same', bits'⟩ :=
      ih (show start + 1 + cnt ≤ b₁.bitCnt by omega)
    refine ⟨b₂, bindOk.mpr ⟨b₁, set, rest⟩, same'.trans same, fun j => ?_⟩
    rw [bits', bits]
    by_cases here : j = start
    · rw [if_neg (by omega), if_pos here, if_pos (by omega)]
    · rw [if_neg here]
      by_cases later : start + 1 ≤ j ∧ j < start + 1 + cnt
      · rw [if_pos later, if_pos (by omega)]
      · rw [if_neg later, if_neg (by omega)]

theorem setMultipleSpec (inside : start + cnt ≤ b.bitCnt) (value : Bool) :
    ∃ b', bitmapSetMultiple b start cnt value = .ok b' ∧ b'.bitCnt = b.bitCnt ∧
      ∀ j, b'.bit j = if start ≤ j ∧ j < start + cnt then value else b.bit j := by
  rw [bitmapSetMultiple, if_pos ⟨by omega, inside⟩]
  exact setFromSpec inside value

theorem containsSpec (inside : start + cnt ≤ b.bitCnt) (value : Bool) :
    ∃ found, bitmapContains b start cnt value = .ok found ∧
      (found = true ↔ ∃ j < cnt, b.bit (start + j) = value) := by
  rw [bitmapContains, if_pos ⟨by omega, inside⟩]
  induction cnt generalizing start with
  | zero => exact ⟨false, rfl, by simp⟩
  | succ cnt ih =>
    unfold containsFrom
    rw [bitmapTest, if_pos (by omega)]
    by_cases here : b.bit start = value
    · exact ⟨true, if_pos here, fun _ => ⟨0, Nat.succ_pos cnt, here⟩, fun _ => rfl⟩
    · obtain ⟨found, rest, tells⟩ := ih (show start + 1 + cnt ≤ b.bitCnt by omega)
      refine ⟨found, (if_neg here).trans rest, tells.trans ⟨?_, ?_⟩⟩
      · rintro ⟨j, less, bit⟩
        exact ⟨j + 1, by omega, by rwa [show start + (j + 1) = start + 1 + j by omega]⟩
      · rintro ⟨j, less, bit⟩
        obtain ⟨k, rfl⟩ : ∃ k, j = k + 1 := ⟨j - 1, by
          rcases Nat.eq_zero_or_pos j with rfl | positive
          · exact absurd bit here
          · omega⟩
        exact ⟨k, by omega, by rwa [show start + 1 + k = start + (k + 1) by omega]⟩

end Ranges

end Pintos.Kernel
