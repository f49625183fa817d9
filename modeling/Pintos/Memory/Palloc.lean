import Pintos.Kernel.Bitmap
import Pintos.Memory.Paging

/-! The page allocator: threads/palloc.c, every bit of a bitmap loop a step of its own. A thread in
`palloc_get_multiple` holds the lock of the pool; `palloc_free_multiple` takes no lock. -/
namespace Pintos.Palloc
open Kernel Machine
open Memory (pgSize physBase)

def pgNo (va : Nat) : Nat := va / pgSize
def ptov (paddr : Nat) : Nat := paddr + physBase.toNat

/-- `ptov` on the physical addresses `palloc_init` works with. -/
theorem ptovMemory {paddr : Nat} (low : paddr < 2 ^ 30) :
    Memory.ptov (BitVec.ofNat 32 paddr) = .ok (BitVec.ofNat 32 (ptov paddr)) := by
  have below : BitVec.ofNat 32 paddr < physBase := by
    rw [BitVec.lt_def, BitVec.toNat_ofNat, Memory.physBaseNat]
    omega
  rw [Memory.ptov, if_pos below, ptov, BitVec.ofNat_add, BitVec.ofNat_toNat, BitVec.setWidth_eq]

inductive Which where
  | kernel
  | user
  deriving DecidableEq, Repr

-- `usedMapAt` is where the bitmap stands in memory.
structure Pool where
  usedMap : Bitmap
  usedMapAt : Nat
  base : Nat

def initPool (bits : Nat → BitVec 32) (base pageCnt : Nat) : Except Fault Pool := do
  let bmPages := (bitmapBufSize pageCnt + pgSize - 1) / pgSize
  if bmPages > pageCnt then .error .panic
  else
    let map ← bitmapCreateInBuf (pageCnt - bmPages) (bmPages * pgSize) bits
    .ok ⟨map, base, base + bmPages * pgSize⟩

-- start.S counts 1 MB and what the BIOS reports above it, up to 64 MB in all.
structure RamSize where
  pages : Nat
  low : 256 ≤ pages
  high : pages ≤ 16384

def pools (kernelPool userPool : Pool) : Which → Pool
  | .kernel => kernelPool
  | .user => userPool

def pallocInit (bits : Which → Nat → BitVec 32) (ram : RamSize) (userPageLimit : Nat) :
    Except Fault (Which → Pool) := do
  let freeStart := ptov (1024 * 1024)
  let freeEnd := ptov (ram.pages * pgSize)
  let freePages := (freeEnd - freeStart) / pgSize
  let userPages := if freePages / 2 > userPageLimit then userPageLimit else freePages / 2
  let kernelPages := freePages - userPages
  let kernelPool ← initPool (bits .kernel) freeStart kernelPages
  let userPool ← initPool (bits .user) (freeStart + kernelPages * pgSize) userPages
  .ok (pools kernelPool userPool)

def pageFromPool (pool : Pool) (page : Nat) : Bool :=
  decide (pgNo pool.base ≤ pgNo page) && decide (pgNo page < pgNo pool.base + pool.usedMap.bitCnt)

-- `pool` is the pool that was asked for; `palloc_free_multiple` is not told.
structure Run where
  pool : Which
  pages : Nat
  pageCnt : Nat
  deriving DecidableEq, Repr

-- `began` is the bitmap as it was when the lock was acquired; nothing in the code reads it.
inductive Pc where
  | idle
  | acquire (w : Which) (cnt : Nat) (asserts : Bool)
  | scan (w : Which) (cnt : Nat) (asserts : Bool) (i j : Nat) (began : Bitmap)
  | flip (w : Which) (cnt : Nat) (asserts : Bool) (idx j : Nat)
  | found (w : Which) (cnt : Nat) (asserts : Bool) (idx : Nat)
  | failed (w : Which) (cnt : Nat) (asserts : Bool) (began : Bitmap)
  | check (w : Which) (idx cnt j : Nat)
  | clear (w : Which) (idx cnt j : Nat)

structure State where
  pool : Which → Pool
  lock : Which → Option Nat
  thread : Nat → Pc
  runs : List Run

def boot (pool : Which → Pool) : State := ⟨pool, fun _ => none, fun _ => .idle, []⟩

inductive Action where
  | get (t : Nat) (w : Which) (cnt : Nat) (asserts : Bool)
  | free (t : Nat) (r : Run)
  | run (t : Nat)

def State.goto (s : State) (t : Nat) (pc : Pc) : State :=
  { s with thread := Function.update s.thread t pc }

def State.setMap (s : State) (w : Which) (map : Bitmap) : State :=
  { s with pool := Function.update s.pool w { s.pool w with usedMap := map } }

def State.setLock (s : State) (w : Which) (holder : Option Nat) : State :=
  { s with lock := Function.update s.lock w holder }

def enterFree (s : State) (t : Nat) (r : Run) : Except Fault State :=
  if r.pages % pgSize ≠ 0 then .error .assertion
  else if r.pages = 0 ∨ r.pageCnt = 0 then .ok s
  else
    let choose (w : Which) : Except Fault State :=
      let pageIdx := pgNo r.pages - pgNo (s.pool w).base
      if pageIdx ≤ (s.pool w).usedMap.bitCnt ∧ pageIdx + r.pageCnt ≤ (s.pool w).usedMap.bitCnt then
        .ok (s.goto t (.check w pageIdx r.pageCnt 0))
      else .error .assertion
    if pageFromPool (s.pool .kernel) r.pages then choose .kernel
    else if pageFromPool (s.pool .user) r.pages then choose .user
    else .error .assertion

def advance (s : State) (t : Nat) : Pc → Except Fault State
  | .idle => .ok s
  | .acquire w cnt asserts =>
    match s.lock w with
    | some _ => .ok s
    | none => .ok ((s.setLock w (some t)).goto t (.scan w cnt asserts 0 0 (s.pool w).usedMap))
  | .scan w cnt asserts i j began =>
    let map := (s.pool w).usedMap
    if cnt ≤ map.bitCnt ∧ i ≤ map.bitCnt - cnt then
      if j < cnt then do
        -- `bitmap_contains` ends at the first page in use.
        if ← bitmapTest map (i + j) then .ok (s.goto t (.scan w cnt asserts (i + 1) 0 began))
        else .ok (s.goto t (.scan w cnt asserts i (j + 1) began))
      else .ok (s.goto t (.flip w cnt asserts i 0))
    else .ok (s.goto t (.failed w cnt asserts began))
  | .flip w cnt asserts idx j =>
    if j < cnt then do
      let map ← bitmapSet (s.pool w).usedMap (idx + j) true
      .ok ((s.setMap w map).goto t (.flip w cnt asserts idx (j + 1)))
    else .ok (s.goto t (.found w cnt asserts idx))
  | .found w cnt _ idx =>
    .ok { (s.setLock w none).goto t .idle with
      runs := ⟨w, (s.pool w).base + pgSize * idx, cnt⟩ :: s.runs }
  | .failed w _ asserts _ =>
    if asserts then .error .panic else .ok ((s.setLock w none).goto t .idle)
  | .check w idx cnt j =>
    if j < cnt then do
      if ← bitmapTest (s.pool w).usedMap (idx + j) then .ok (s.goto t (.check w idx cnt (j + 1)))
      else .error .assertion
    else .ok (s.goto t (.clear w idx cnt 0))
  | .clear w idx cnt j =>
    if j < cnt then do
      let map ← bitmapSet (s.pool w).usedMap (idx + j) false
      .ok ((s.setMap w map).goto t (.clear w idx cnt (j + 1)))
    else .ok (s.goto t .idle)

def step (s : State) : Action → Except Fault State
  | .get t w cnt asserts => if cnt = 0 then .ok s else .ok (s.goto t (.acquire w cnt asserts))
  | .free t r => enterFree { s with runs := s.runs.erase r } t r
  | .run t => advance s t (s.thread t)

def Pc.resting : Pc → Bool
  | .idle => true
  | _ => false

/-- A call starts when its thread is in no other, and frees a run that was obtained. -/
def May (s : State) : Action → Prop
  | .get t _ _ _ => (s.thread t).resting = true
  | .free t r => (s.thread t).resting = true ∧ r ∈ s.runs
  | .run _ => True

instance (s : State) (a : Action) : Decidable (May s a) :=
  match a with
  | .get t _ _ _ => inferInstanceAs (Decidable ((s.thread t).resting = true))
  | .free t r => inferInstanceAs (Decidable ((s.thread t).resting = true ∧ r ∈ s.runs))
  | .run _ => inferInstanceAs (Decidable True)

end Pintos.Palloc
