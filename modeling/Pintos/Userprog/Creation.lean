import Pintos.Kernel.Bitmap
import Pintos.Userprog.Teardown

/-! handler_pthread_create with pthread_execute as one call, on the counters of the PCB and the
bitmap of the stacks, when an allocation in it fails. -/
namespace Pintos.Userprog
open Machine
open Kernel (Bitmap bitmapScan bitmapScanAndFlip bitmapSet)

structure Creation where
  pcb : Process
  userStacks : Bitmap

inductive Alloc where
  | initTcb
  | thread
  deriving DecidableEq, Repr

/-- TID_ERROR is `none`. sema_down(&finished) `blocks` when there is no new thread to up it. The page
fault on a null init_tcb leads into process_exit_normal(-1), which `hangs`: it waits for
in_kernel_threads to fall to 1, and the thread that was not created stays counted. -/
inductive Outcome where
  | returns (tid : Option Tid) (s : Creation)
  | blocks (s : Creation)
  | hangs
  | assertion

def pthreadExecuteCall (s : Creation) (granted : Alloc → Bool) (tid : Tid) : Outcome :=
  match bitmapScanAndFlip s.userStacks 0 1 false with
  | .error _ => .assertion
  | .ok (none, userStacks) => .returns none { s with userStacks := userStacks }
  | .ok (some stackNo, userStacks) =>
    if stackNo = 0 then .assertion
    else if granted .initTcb = false then .hangs
    else if granted .thread = true then .returns (some tid) { s with userStacks := userStacks }
    else
      match bitmapSet userStacks stackNo false with
      | .error _ => .assertion
      | .ok userStacks => .blocks { s with userStacks := userStacks }

def Creation.count (s : Creation) (f : Nat → Nat) : Creation :=
  { s with pcb := { s.pcb with
    inKernelThreads := f s.pcb.inKernelThreads
    activeThreads := f s.pcb.activeThreads } }

def handlerPthreadCreate (s : Creation) (granted : Alloc → Bool) (tid : Tid) : Outcome :=
  match pthreadExecuteCall (s.count (· + 1)) granted tid with
  | .returns none s => .returns none (s.count decrement)
  | outcome => outcome

section Calls
variable {s : Creation} {granted : Alloc → Bool} {tid : Tid}

theorem executeFull (full : bitmapScan s.userStacks 0 1 false = .ok none) :
    pthreadExecuteCall s granted tid = .returns none s := by
  have flips : bitmapScanAndFlip s.userStacks 0 1 false = .ok (none, s.userStacks) := by
    rw [bitmapScanAndFlip, full]
    rfl
  rw [pthreadExecuteCall, flips]

theorem executeReturns {after : Creation} (ok : pthreadExecuteCall s granted tid = .returns none after) :
    bitmapScan s.userStacks 0 1 false = .ok none := by
  unfold pthreadExecuteCall at ok
  split at ok <;> try contradiction
  · rename_i userStacks flips
    obtain ⟨found, scans, rest⟩ := bindOk.mp flips
    cases found with
    | none => exact scans
    | some stackNo =>
      obtain ⟨set, _, now⟩ := bindOk.mp rest
      cases now
  · split at ok <;> try contradiction
    split at ok <;> try contradiction
    split at ok
    · cases ok
    · split at ok <;> contradiction

end Calls

section Starved
variable {s s' : State} {c : Tid}

theorem starvedStep {a : Action} (base : Base s) (ok : step s a = .ok s')
    (starved : (s.thread c).pc = .create (.wait none)) :
    (s'.thread c).pc = .create (.wait none) := by
  by_contra moved
  rw [← starved] at moved
  obtain ⟨_, ⟨_, _, edge⟩ | creates⟩ := movedSteps base ok (by rw [starved]; rfl) moved
  · exact jumpStarved (edgeJumps edge) starved
  · have old := creates.old
    rw [starved] at old
    cases old

/-- When thread_create fails, the creator never returns. -/
theorem starvedRun {may : State → Action → Prop} (run : Run step may boot s)
    (starved : (s.thread c).pc = .create (.wait none)) (more : Run step may s s') :
    (s'.thread c).pc = .create (.wait none) :=
  (more.invariant (fun s => Base s ∧ (s.thread c).pc = .create (.wait none)) ⟨runBase run, starved⟩
    fun _ _ _ kept _ ok => ⟨baseStep kept.1 ok, starvedStep kept.1 ok kept.2⟩).2

end Starved

/-- The call returns TID_ERROR and restores the counters and the bitmap exactly when no stack is
free. -/
theorem failedCreation (s : Creation) (granted : Alloc → Bool) (tid : Tid) :
    handlerPthreadCreate s granted tid = .returns none s ↔
      bitmapScan s.userStacks 0 1 false = .ok none := by
  constructor
  · intro returns
    unfold handlerPthreadCreate at returns
    split at returns
    · rename_i after ok
      have full := executeReturns ok
      exact full
    · rename_i other
      exact absurd returns (other s)
  · intro full
    rw [handlerPthreadCreate, executeFull (s := s.count (· + 1)) full]
    rfl

theorem failedCreationExample :
    handlerPthreadCreate ⟨initProcess 0, ⟨128, fun _ => 0xffffffff#32⟩⟩ (fun _ => false) 1 =
      .returns none ⟨initProcess 0, ⟨128, fun _ => 0xffffffff#32⟩⟩ :=
  (failedCreation _ _ 1).mpr (by decide +kernel)

theorem creationBlocks : ∃ s after,
    handlerPthreadCreate s (fun a => decide (a ≠ .thread)) 1 = .blocks after :=
  ⟨⟨initProcess 0, ⟨128, fun i => if i = 0 then 1#32 else 0#32⟩⟩, _, rfl⟩

end Pintos.Userprog
