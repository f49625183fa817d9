import Pintos.Kernel.Bitmap

/-! Bitmaps as arrays of booleans: the operations of lib/kernel/bitmap.c that are not needed
elsewhere, and what all of them do to the array. -/
namespace Pintos.Kernel
open Machine

def bitmapFlip (b : Bitmap) (i : Nat) : Bitmap :=
  { b with bits := Function.update b.bits (elemIdx i) (b.bits (elemIdx i) ^^^ bitMask i) }

def countFrom (b : Bitmap) (start : Nat) (value : Bool) (valueCnt : Nat) : Nat → Except Fault Nat
  | 0 => .ok valueCnt
  | cnt + 1 => do
    let here ← bitmapTest b start
    countFrom b (start + 1) value (if here = value then valueCnt + 1 else valueCnt) cnt

def bitmapCount (b : Bitmap) (start cnt : Nat) (value : Bool) : Except Fault Nat :=
  if start ≤ b.bitCnt ∧ start + cnt ≤ b.bitCnt then countFrom b start value 0 cnt
  else .error .assertion

def bitmapAny (b : Bitmap) (start cnt : Nat) : Except Fault Bool := bitmapContains b start cnt true

def bitmapNone (b : Bitmap) (start cnt : Nat) : Except Fault Bool := do
  .ok (!(← bitmapContains b start cnt true))

/-- `memory` is what malloc hands out for a size; for no bytes it hands out nothing. -/
def bitmapCreate (memory : Nat → Option (Nat → BitVec 32)) (bitCnt : Nat) :
    Except Fault (Option Bitmap) :=
  let bits := if byteCnt bitCnt = 0 then none else memory (byteCnt bitCnt)
  if (memory 8).isSome ∧ (bits.isSome ∨ bitCnt = 0) then do
    .ok (some (← bitmapSetAll ⟨bitCnt, bits.getD fun _ => 0#32⟩ false))
  else .ok none

/-! A file is the list of its bytes. -/

def bitmapFileSize (b : Bitmap) : Nat := byteCnt b.bitCnt

def lastMask (bitCnt : Nat) : BitVec 32 :=
  if bitCnt % 32 = 0 then BitVec.allOnes 32 else (1#32 <<< (bitCnt % 32)) - 1#32

def wordByte (w : BitVec 32) (k : Nat) : UInt8 := ⟨w.extractLsb' (8 * k) 8⟩

def joinBytes (byte : Nat → UInt8) : BitVec 32 :=
  (byte 3).toBitVec ++ (byte 2).toBitVec ++ (byte 1).toBitVec ++ (byte 0).toBitVec

def bitmapBytes (b : Bitmap) (size : Nat) : List UInt8 :=
  (List.range size).map fun j => wordByte (b.bits (j / 4)) (j % 4)

def bitmapWrite (b : Bitmap) (file : List UInt8) : Bool × List UInt8 :=
  let written := (bitmapBytes b (bitmapFileSize b)).take file.length
  (written.length == bitmapFileSize b, written ++ file.drop written.length)

def bitmapRead (b : Bitmap) (file : List UInt8) : Bool × Bitmap :=
  if 0 < b.bitCnt then
    let got := file.take (bitmapFileSize b)
    let bits := fun i => joinBytes fun k => got.getD (4 * i + k) (wordByte (b.bits i) k)
    let last := (elemCnt b.bitCnt + (2 ^ 32 - 1)) % 2 ^ 32
    (got.length == bitmapFileSize b,
      { b with bits := Function.update bits last (bits last &&& lastMask b.bitCnt) })
  else (true, b)

def Group (b : Bitmap) (cnt : Nat) (value : Bool) (i : Nat) : Prop :=
  i + cnt ≤ b.bitCnt ∧ ∀ j < cnt, b.bit (i + j) = value

def First (b : Bitmap) (start cnt : Nat) (value : Bool) : Option Nat → Prop
  | none => ∀ i, start ≤ i → ¬Group b cnt value i
  | some i => start ≤ i ∧ Group b cnt value i ∧ ∀ k, start ≤ k → k < i → ¬Group b cnt value k

section Groups
variable {b : Bitmap} {start cnt : Nat} {value : Bool}

theorem bitFlip (b : Bitmap) (i j : Nat) :
    (bitmapFlip b i).bit j = if j = i then !b.bit i else b.bit j := by
  refine bitUpdate (fun k less => ?_) j
  rw [BitVec.getLsbD_xor, bitMaskBit i k less, bitRead]
  by_cases here : k = i % 32 <;> simp [here]

theorem countFromSpec {n : Nat} (inside : start + cnt ≤ b.bitCnt) :
    countFrom b start value n cnt =
      .ok (n + (List.range cnt).countP fun j => b.bit (start + j) == value) := by
  induction cnt generalizing start n with
  | zero => rfl
  | succ cnt ih =>
    have step : (List.range (cnt + 1)).countP (fun j => b.bit (start + j) == value) =
        (if b.bit start = value then 1 else 0) +
          (List.range cnt).countP fun j => b.bit (start + 1 + j) == value := by
      rw [List.range_succ_eq_map, List.countP_cons, List.countP_map, Nat.add_comm]
      simp [Function.comp_def, Nat.add_assoc, Nat.add_comm 1]
    unfold countFrom
    rw [bitmapTest, if_pos (by omega)]
    refine bindOk.mpr ⟨_, rfl, ?_⟩
    rw [ih (by omega), step]
    split <;> simp [Nat.add_assoc]

theorem notContains (inside : start + cnt ≤ b.bitCnt) (value : Bool) :
    ∃ found, bitmapContains b start cnt value = .ok found ∧
      (found = false ↔ ∀ j < cnt, b.bit (start + j) = !value) := by
  obtain ⟨found, tested, tells⟩ := containsSpec inside value
  refine ⟨found, tested, ?_⟩
  rw [← Bool.not_eq_true, tells]
  simp [Bool.eq_not]

theorem scanFromFirst {i more : Nat} (room : cnt ≤ b.bitCnt)
    (last : more = b.bitCnt - cnt + 1 - i) :
    ∃ found, scanFrom b cnt value i more = .ok found ∧ First b i cnt value found := by
  induction more generalizing i with
  | zero =>
    refine ⟨none, rfl, fun k later group => ?_⟩
    have fits := group.1
    omega
  | succ more ih =>
    obtain ⟨blocked, tested, tells⟩ := notContains (show i + cnt ≤ b.bitCnt by omega) (!value)
    rw [Bool.not_not] at tells
    cases blocked with
    | false =>
      refine ⟨some i, bindOk.mpr ⟨false, tested, rfl⟩, Nat.le_refl i, ⟨by omega, tells.mp rfl⟩, ?_⟩
      intro k from' less
      omega
    | true =>
      have here : ¬Group b cnt value i := fun group => by
        have free := tells.mpr group.2
        cases free
      have here' (k) (later : i ≤ k) (group : Group b cnt value k) : i + 1 ≤ k :=
        Nat.lt_of_le_of_ne later fun same => here (same ▸ group)
      obtain ⟨found, rest, first⟩ := ih (i := i + 1) (by omega)
      refine ⟨found, bindOk.mpr ⟨true, tested, rest⟩, ?_⟩
      cases found with
      | none => exact fun k later group => first k (here' k later group) group
      | some j =>
        obtain ⟨after, group, least⟩ := first
        refine ⟨by omega, group, fun k later less group' => ?_⟩
        exact least k (here' k later group') less group'

theorem scanFirst (start cnt : Nat) (value : Bool) (inside : start ≤ b.bitCnt) :
    ∃ found, bitmapScan b start cnt value = .ok found ∧ First b start cnt value found := by
  rw [bitmapScan, if_pos inside]
  split
  · rename_i room
    exact scanFromFirst room rfl
  · rename_i large
    refine ⟨none, rfl, fun i _ group => large ?_⟩
    exact (Nat.le_add_left cnt i).trans group.1

theorem scanAndFlipFirst (start cnt : Nat) (value : Bool) (inside : start ≤ b.bitCnt) :
    ∃ found b', bitmapScanAndFlip b start cnt value = .ok (found, b') ∧
      First b start cnt value found ∧ b'.bitCnt = b.bitCnt ∧
      ∀ j, b'.bit j = if ∃ i ∈ found, i ≤ j ∧ j < i + cnt then !value else b.bit j := by
  obtain ⟨found, scanned, first⟩ := scanFirst start cnt value inside
  cases found with
  | none =>
    exact ⟨none, b, bindOk.mpr ⟨none, scanned, rfl⟩, first, rfl, fun j => by simp⟩
  | some i =>
    obtain ⟨b', set, same, bits⟩ := setMultipleSpec first.2.1.1 (!value)
    refine ⟨some i, b', bindOk.mpr ⟨some i, scanned, bindOk.mpr ⟨b', set, rfl⟩⟩, first, same, ?_⟩
    intro j
    rw [bits]
    simp

end Groups

section Files
variable {b b' : Bitmap} {file : List UInt8}

theorem joinWord {byte : Nat → UInt8} (w : BitVec 32) (same : ∀ k < 4, byte k = wordByte w k) :
    joinBytes byte = w := by
  unfold joinBytes
  rw [same 0 (by decide), same 1 (by decide), same 2 (by decide), same 3 (by decide)]
  unfold wordByte
  rw [BitVec.extractLsb'_append_extractLsb'_eq_extractLsb' (by decide),
    BitVec.extractLsb'_append_extractLsb'_eq_extractLsb' (by decide),
    BitVec.extractLsb'_append_extractLsb'_eq_extractLsb' (by decide)]
  exact BitVec.extractLsb'_eq_self

theorem lastMaskBit {bitCnt k : Nat} (less : k < 32) (used : bitCnt % 32 = 0 ∨ k < bitCnt % 32) :
    (lastMask bitCnt).getLsbD k = true := by
  unfold lastMask
  split
  · rw [BitVec.getLsbD_allOnes]
    exact decide_eq_true less
  · have word : 2 ^ (bitCnt % 32) < 2 ^ 32 := Nat.pow_lt_pow_right (by decide) (by omega)
    have positive : 0 < 2 ^ (bitCnt % 32) := Nat.two_pow_pos _
    have value : ((1#32 <<< (bitCnt % 32)) - 1#32).toNat = 2 ^ (bitCnt % 32) - 1 := by
      rw [BitVec.toNat_sub, BitVec.toNat_shiftLeft, BitVec.toNat_one (by decide), Nat.one_shiftLeft]
      omega
    rw [BitVec.getLsbD, value, Nat.testBit_two_pow_sub_one]
    exact decide_eq_true (by omega)

theorem writtenBytes (room : bitmapFileSize b ≤ file.length) :
    bitmapWrite b file =
      (true, bitmapBytes b (bitmapFileSize b) ++ file.drop (bitmapFileSize b)) := by
  have length : (bitmapBytes b (bitmapFileSize b)).length = bitmapFileSize b := by simp [bitmapBytes]
  unfold bitmapWrite
  rw [List.take_of_length_le (by omega)]
  simp only [length, beq_self_eq_true]

theorem readBits (same : b'.bitCnt = b.bitCnt) (some : 0 < b.bitCnt)
    (room : bitmapFileSize b ≤ file.length) {j : Nat} (inside : j < b.bitCnt)
    (fits : b.bitCnt + 31 < 2 ^ 32) : (bitmapRead b' (bitmapWrite b file).2).2.bit j = b.bit j := by
  have size : bitmapFileSize b' = bitmapFileSize b := by rw [bitmapFileSize, same, bitmapFileSize]
  have length : (bitmapBytes b (bitmapFileSize b)).length = bitmapFileSize b := by simp [bitmapBytes]
  have got : (bitmapWrite b file).2.take (bitmapFileSize b) = bitmapBytes b (bitmapFileSize b) := by
    rw [writtenBytes room]
    exact List.take_left' length
  unfold bitmapRead
  rw [same, if_pos some, size, got, bitRead]
  simp only
  have within : elemIdx j < elemCnt b.bitCnt := by
    unfold elemIdx elemCnt
    omega
  have back : (joinBytes fun k => (bitmapBytes b (bitmapFileSize b)).getD (4 * elemIdx j + k)
      (wordByte (b'.bits (elemIdx j)) k)) = b.bits (elemIdx j) := by
    refine joinWord _ fun k four => ?_
    have less : 4 * elemIdx j + k < bitmapFileSize b := by
      unfold bitmapFileSize byteCnt
      omega
    rw [List.getD_eq_getElem?_getD, bitmapBytes, List.getElem?_map, List.getElem?_range less]
    simp only [Option.map_some, Option.getD_some]
    rw [show (4 * elemIdx j + k) / 4 = elemIdx j by omega,
      show (4 * elemIdx j + k) % 4 = k by omega]
  rw [bitRead b]
  by_cases last : elemIdx j = (elemCnt b.bitCnt + (2 ^ 32 - 1)) % 2 ^ 32
  · rw [← last, Function.update_self, back, BitVec.getLsbD_and, lastMaskBit, Bool.and_true]
    · omega
    · unfold elemIdx elemCnt at last
      omega
  · rw [Function.update_of_ne last, back]

theorem readSuccess (same : b'.bitCnt = b.bitCnt) (room : bitmapFileSize b ≤ file.length) :
    (bitmapRead b' (bitmapWrite b file).2).1 = true := by
  have size : bitmapFileSize b' = bitmapFileSize b := by rw [bitmapFileSize, same, bitmapFileSize]
  unfold bitmapRead
  split
  · rw [writtenBytes room, size]
    simp [bitmapBytes]
  · rfl

end Files

structure Refines (b : Bitmap) : Prop where
  mark : ∀ i j, (bitmapMark b i).bit j = if j = i then true else b.bit j
  reset : ∀ i j, (bitmapReset b i).bit j = if j = i then false else b.bit j
  flip : ∀ i j, (bitmapFlip b i).bit j = if j = i then !b.bit i else b.bit j
  set : ∀ i value, i < b.bitCnt → ∃ b', bitmapSet b i value = .ok b' ∧ b'.bitCnt = b.bitCnt ∧
    ∀ j, b'.bit j = if j = i then value else b.bit j
  setMultiple : ∀ start cnt value, start + cnt ≤ b.bitCnt →
    ∃ b', bitmapSetMultiple b start cnt value = .ok b' ∧ b'.bitCnt = b.bitCnt ∧
      ∀ j, b'.bit j = if start ≤ j ∧ j < start + cnt then value else b.bit j
  count : ∀ start cnt value, start + cnt ≤ b.bitCnt → bitmapCount b start cnt value =
    .ok ((List.range cnt).countP fun j => b.bit (start + j) == value)
  contains : ∀ start cnt value, start + cnt ≤ b.bitCnt → bitmapContains b start cnt value =
    .ok ((List.range cnt).any fun j => b.bit (start + j) == value)
  any : ∀ start cnt, start + cnt ≤ b.bitCnt → bitmapAny b start cnt =
    .ok ((List.range cnt).any fun j => b.bit (start + j))
  none : ∀ start cnt, start + cnt ≤ b.bitCnt → bitmapNone b start cnt =
    .ok ((List.range cnt).all fun j => !b.bit (start + j))
  all : ∀ start cnt, start + cnt ≤ b.bitCnt → bitmapAll b start cnt =
    .ok ((List.range cnt).all fun j => b.bit (start + j))
  scan : ∀ start cnt value, start ≤ b.bitCnt →
    ∃ found, bitmapScan b start cnt value = .ok found ∧ First b start cnt value found
  scanAndFlip : ∀ start cnt value, start ≤ b.bitCnt →
    ∃ found b', bitmapScanAndFlip b start cnt value = .ok (found, b') ∧
      First b start cnt value found ∧ b'.bitCnt = b.bitCnt ∧
      ∀ j, b'.bit j = if ∃ i ∈ found, i ≤ j ∧ j < i + cnt then !value else b.bit j

theorem containsAny {b : Bitmap} {start cnt : Nat} (inside : start + cnt ≤ b.bitCnt)
    (value : Bool) : bitmapContains b start cnt value =
      .ok ((List.range cnt).any fun j => b.bit (start + j) == value) := by
  obtain ⟨found, tested, tells⟩ := containsSpec inside value
  rw [tested]
  refine congrArg Except.ok (Bool.eq_iff_iff.mpr (tells.trans ?_))
  simp

theorem bitmapRefines (b : Bitmap) : Refines b where
  mark := bitMark b
  reset := bitReset b
  flip := bitFlip b
  set _ value inside := setSpec inside value
  setMultiple _ _ value inside := setMultipleSpec inside value
  count start cnt value inside := by
    rw [bitmapCount, if_pos ⟨by omega, inside⟩, countFromSpec inside, Nat.zero_add]
  contains _ _ value inside := containsAny inside value
  any _ _ inside := by
    rw [bitmapAny, containsAny inside]
    simp
  none _ _ inside := by
    refine bindOk.mpr ⟨_, containsAny inside true, ?_⟩
    simp [List.not_any_eq_all_not]
  all _ _ inside := by
    refine bindOk.mpr ⟨_, containsAny inside false, ?_⟩
    simp [List.not_any_eq_all_not]
  scan := scanFirst
  scanAndFlip := scanAndFlipFirst

def Restores (b b' : Bitmap) (file : List UInt8) : Prop :=
  (bitmapWrite b file).1 = true ∧ (bitmapRead b' (bitmapWrite b file).2).1 = true ∧
    ∀ j < b.bitCnt, (bitmapRead b' (bitmapWrite b file).2).2.bit j = b.bit j

/-- For more bits the number of bytes wraps to 0. -/
theorem createFits {memory : Nat → Option (Nat → BitVec 32)} {bitCnt : Nat} {b : Bitmap}
    (word : bitCnt < 2 ^ 32) (made : bitmapCreate memory bitCnt = .ok (some b)) :
    bitCnt + 31 < 2 ^ 32 := by
  by_contra wraps
  have nothing : byteCnt bitCnt = 0 := by
    unfold byteCnt elemCnt
    omega
  have some : bitCnt ≠ 0 := by omega
  simp [bitmapCreate, nothing, some] at made

theorem bitmapArray {memory : Nat → Option (Nat → BitVec 32)} {made : Bitmap} (b : Bitmap)
    (word : b.bitCnt < 2 ^ 32) (creates : bitmapCreate memory b.bitCnt = .ok (some made)) :
    Refines b ∧ ∀ b' file, b'.bitCnt = b.bitCnt → bitmapFileSize b ≤ file.length →
      Restores b b' file := by
  refine ⟨bitmapRefines b, fun b' file same room => ?_⟩
  refine ⟨by rw [writtenBytes room], readSuccess same room, fun j inside => ?_⟩
  exact readBits same (by omega) room inside (createFits word creates)

theorem bitmapArrayExample :
    Restores ⟨40, fun _ => 0x0f0f0f0f#32⟩ ⟨40, fun _ => 0#32⟩ (List.replicate 8 0) := by
  have creates : ∃ made, bitmapCreate (fun _ => some fun _ => 1#32) 40 = .ok (some made) :=
    ⟨_, rfl⟩
  obtain ⟨made, creates⟩ := creates
  exact (bitmapArray ⟨40, fun _ => 0x0f0f0f0f#32⟩ (by decide) creates).2 _ _ rfl (by decide)

end Pintos.Kernel
