import Mathlib.Algebra.Group.Nat.Defs
import Mathlib.Data.Nat.Log
import Pintos.Lib.Buckets

/-! lib/kernel/hash.c. An element is a struct hash_elem, known by its address; `hash` and `less`
are the table's functions on elements (with AUX applied). A bucket is the list of the elements
linked into it. -/
namespace Pintos.HashTable
open Buckets

structure Hash (α : Type) where
  elemCnt : Nat
  bucketCnt : Nat
  buckets : Nat → List α
  hash : α → Nat
  less : α → α → Bool

section Model
variable {α : Type}

def findBucket (h : Hash α) (e : α) : Nat := h.hash e &&& (h.bucketCnt - 1)

def findElem (h : Hash α) (bucket : Nat) (e : α) : Option α :=
  (h.buckets bucket).find? fun hi => !h.less hi e && !h.less e hi

def turnOffLeast1bit (x : Nat) : Nat := x &&& (x - 1)

def isPowerOf2 (x : Nat) : Bool := x ≠ 0 && turnOffLeast1bit x = 0

def roundDown : Nat → Nat → Nat
  | 0, x => x
  | fuel + 1, x => if isPowerOf2 x then x else roundDown fuel (turnOffLeast1bit x)

def newBucketCnt (elemCnt : Nat) : Nat :=
  let wanted := if elemCnt / 2 < 4 then 4 else elemCnt / 2
  roundDown wanted wanted

def elements (h : Hash α) : List α := gather h.bucketCnt h.buckets

def move (h : Hash α) (cnt : Nat) : Hash α :=
  { h with
    bucketCnt := cnt
    buckets := spread (findBucket { h with bucketCnt := cnt }) (fun _ => []) (elements h) }

def rehash (h : Hash α) (granted : Bool) : Hash α :=
  if newBucketCnt h.elemCnt = h.bucketCnt then h
  else if granted then move h (newBucketCnt h.elemCnt)
  else h

def insertElem (h : Hash α) (bucket : Nat) (e : α) : Hash α :=
  { h with
    elemCnt := h.elemCnt + 1
    buckets := Function.update h.buckets bucket (e :: h.buckets bucket) }

def removeElem [DecidableEq α] (h : Hash α) (e : α) : Hash α :=
  { h with
    elemCnt := h.elemCnt - 1
    buckets := fun i => (h.buckets i).erase e }

def hashClear (h : Hash α) (destructor : Bool) : Hash α × List α :=
  ({ h with elemCnt := 0, buckets := fun _ => [] }, if destructor then elements h else [])

def hashInit (hash : α → Nat) (less : α → α → Bool) (granted : Bool) : Option (Hash α) :=
  let h : Hash α :=
    { elemCnt := 0, bucketCnt := 4, buckets := fun _ => [], hash := hash, less := less }
  if granted then some (hashClear h false).1 else none

def hashInsert (h : Hash α) (new : α) (granted : Bool) : Hash α × Option α :=
  let bucket := findBucket h new
  let old := findElem h bucket new
  (rehash (if old.isNone then insertElem h bucket new else h) granted, old)

def hashReplace [DecidableEq α] (h : Hash α) (new : α) (granted : Bool) : Hash α × Option α :=
  let bucket := findBucket h new
  let old := findElem h bucket new
  let h := match old with
    | some old => removeElem h old
    | none => h
  (rehash (insertElem h bucket new) granted, old)

def hashFind (h : Hash α) (e : α) : Option α := findElem h (findBucket h e) e

def hashDelete [DecidableEq α] (h : Hash α) (e : α) (granted : Bool) : Hash α × Option α :=
  match findElem h (findBucket h e) e with
  | some found => (rehash (removeElem h found) granted, some found)
  | none => (h, none)

/-- The buckets from `i` on; the elements of a bucket in the order of its list. -/
def applyFrom {σ : Type} (action : σ → α → σ) (buckets : Nat → List α) (i : Nat) : Nat → σ → σ
  | 0, s => s
  | left + 1, s => applyFrom action buckets (i + 1) left ((buckets i).foldl action s)

def hashApply {σ : Type} (h : Hash α) (action : σ → α → σ) (s : σ) : σ :=
  applyFrom action h.buckets 0 h.bucketCnt s

structure Iterator (α : Type) where
  bucket : Nat
  rest : List α

def hashFirst (h : Hash α) : Iterator α := ⟨0, h.buckets 0⟩

def nextBucket (h : Hash α) : Nat → Nat → Iterator α × Option α
  | 0, bucket => (⟨bucket, []⟩, none)
  | fuel + 1, bucket =>
    if h.bucketCnt ≤ bucket + 1 then (⟨bucket + 1, []⟩, none)
    else match h.buckets (bucket + 1) with
      | e :: rest => (⟨bucket + 1, rest⟩, some e)
      | [] => nextBucket h fuel (bucket + 1)

def hashNext (h : Hash α) (i : Iterator α) : Iterator α × Option α :=
  match i.rest with
  | e :: rest => (⟨i.bucket, rest⟩, some e)
  | [] => nextBucket h (h.bucketCnt - i.bucket) i.bucket

def iterate (h : Hash α) : Nat → Iterator α → List α
  | 0, _ => []
  | fuel + 1, i =>
    match hashNext h i with
    | (_, none) => []
    | (i, some e) => e :: iterate h fuel i

end Model

section Rounding

theorem turnOffBetween {x k : Nat} (low : 2 ^ k < x) (high : x < 2 ^ (k + 1)) :
    2 ^ k ≤ turnOffLeast1bit x ∧ turnOffLeast1bit x < x := by
  have set : x.testBit k = true := Nat.testBit_of_two_pow_le_and_two_pow_add_one_gt (by omega) high
  have set' : (x - 1).testBit k = true :=
    Nat.testBit_of_two_pow_le_and_two_pow_add_one_gt (by omega) (by omega)
  refine ⟨Nat.ge_two_pow_of_testBit (by rw [turnOffLeast1bit, Nat.testBit_and, set, set']; rfl), ?_⟩
  have below : x &&& (x - 1) ≤ x - 1 := Nat.and_le_right
  unfold turnOffLeast1bit
  omega

theorem isPowerOf2Pow (k : Nat) : isPowerOf2 (2 ^ k) = true := by
  have none : turnOffLeast1bit (2 ^ k) = 0 := by
    rw [turnOffLeast1bit, Nat.and_two_pow_sub_one_eq_mod, Nat.mod_self]
  simp [isPowerOf2, none]

theorem isPowerOf2Between {x k : Nat} (low : 2 ^ k ≤ x) (high : x < 2 ^ (k + 1)) :
    isPowerOf2 x = true ↔ x = 2 ^ k := by
  constructor
  · intro power
    by_contra other
    have more := turnOffBetween (Nat.lt_of_le_of_ne low (Ne.symm other)) high
    have positive := Nat.two_pow_pos k
    simp [isPowerOf2] at power
    omega
  · rintro rfl
    exact isPowerOf2Pow k

theorem roundDownPow {fuel x k : Nat} (enough : x ≤ fuel + 2 ^ k) (low : 2 ^ k ≤ x)
    (high : x < 2 ^ (k + 1)) : roundDown fuel x = 2 ^ k := by
  induction fuel generalizing x with
  | zero => exact Nat.le_antisymm (by simpa [roundDown] using enough) low
  | succ fuel ih =>
    unfold roundDown
    split
    · rename_i power
      exact (isPowerOf2Between low high).mp power
    · rename_i other
      have above : 2 ^ k < x := by
        refine Nat.lt_of_le_of_ne low fun same => other ?_
        rw [← same]
        exact isPowerOf2Pow k
      obtain ⟨least, less⟩ := turnOffBetween above high
      exact ih (by omega) least (by omega)

theorem newBucketCntPow (elemCnt : Nat) : ∃ k, 2 ≤ k ∧ newBucketCnt elemCnt = 2 ^ k := by
  unfold newBucketCnt
  generalize chosen : (if elemCnt / 2 < 4 then 4 else elemCnt / 2) = wanted
  have least : 4 ≤ wanted := by
    split at chosen <;> omega
  have nonzero : wanted ≠ 0 := by omega
  refine ⟨Nat.log2 wanted, ?_, ?_⟩
  · exact (Nat.le_log2 nonzero).mpr least
  · exact roundDownPow (Nat.le_add_right _ _) (Nat.log2_self_le nonzero) Nat.lt_log2_self

end Rounding
end Pintos.HashTable
