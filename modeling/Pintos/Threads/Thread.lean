import Mathlib.Algebra.Group.Nat.Defs
import Mathlib.Data.List.Sort
import Pintos.Lib.Machine

/-! threads/thread.h, threads/thread.c and the parts of struct semaphore and
struct lock the scheduler reads. A thread is named by its TCB. What a thread
still has to execute is a stack of frames; between two frames interrupts are
on, so one frame is one region the timer cannot split.

The intrusive `elem` node is modelled by the list it is linked in. list.c has
no defined result when a linked node is inserted again or an unlinked one is
removed, so both stop the machine with a fault of their own. -/
namespace Pintos.Threads
open Machine

abbrev Tid := Nat
abbrev LockId := Nat
abbrev CondId := Nat

def priMin : Nat := 0
def priDefault : Nat := 31
def priMax : Nat := 63

abbrev Priority := Fin (priMax + 1)

inductive ThreadStatus where
  | running | ready | blocked
  deriving DecidableEq, Repr

inductive SchedPolicy where
  | fifo | prio | fair | mlfqs
  deriving DecidableEq, Repr

inductive Sema where
  | plain (n : Nat)
  | lock (l : LockId)
  deriving DecidableEq, Repr

inductive Queue where
  | readyList
  | semaWaiters (s : Sema)
  | condWaiters (c : CondId)
  | timerSleepList
  deriving DecidableEq, Repr

/- One frame is the code from one point with interrupts on to the next. The
names are those of the C functions; a frame with a second word is what is left
of the function after its first critical section. -/
inductive Frame where
  | threadYield
  | threadUnblock (t : Tid)
  | threadSetPriority (p : Priority)
  | threadCreate (p : Priority)
  | threadCreateTail (p : Priority)
  | idle
  | semaDown (s : Nat)
  | semaDownLoop (s : Nat)
  | semaTryDown (s : Nat)
  | semaUp (s : Sema)
  | semaUpTail (t : Tid)
  | lockAcquire (l : LockId)
  | lockAcquireLoop (l : LockId)
  | lockTryAcquire (l : LockId)
  | lockRelease (l : LockId)
  | condWait (c : CondId) (l : LockId)
  | condWaitBlock (c : CondId)
  | condSignal (c : CondId) (l : LockId)
  | condSignalPop (c : CondId)
  | condBroadcast (c : CondId) (flag : Bool)
  | condBroadcastPop (c : CondId) (flag : Bool)
  | condBroadcastTail (c : CondId) (flag : Bool) (t : Tid)
  | timerSleep (n : Int)
  | timerSleepBlock
  deriving DecidableEq, Repr

structure Thread where
  status : ThreadStatus := .blocked
  wakeUp : Int := 0
  donatedFor : Option LockId := none
  lockQueue : List LockId := []
  bPri : Nat := priMin
  ePri : Nat := priMin
  queue : Option Queue := none
  elem : Option Queue := none
  stack : List Frame := []
  deriving DecidableEq, Repr

structure Lock where
  holder : Option Tid := none
  state : Int := 1
  pri : Nat := 0
  deriving DecidableEq, Repr

structure Kernel where
  policy : SchedPolicy
  thread : Tid → Thread
  lock : LockId → Lock
  value : Sema → Nat
  list : Queue → List Tid
  current : Tid
  idleThread : Tid
  created : Nat
  ticks : Int
  threadTicks : Nat

inductive Assertion where
  | statusBlocked
  | doneeNotNull
  | lockNotHeld
  | lockHeld
  | listNotEmpty
  | schedPolicy
  deriving DecidableEq, Repr

inductive Fault where
  | assertion (a : Assertion)
  | linkedTwice (t : Tid)
  | notLinked (t : Tid)
  | walk
  deriving DecidableEq, Repr

namespace Kernel

@[simp] def setThread (k : Kernel) (t : Tid) (f : Thread → Thread) : Kernel :=
  {k with thread := Function.update k.thread t (f (k.thread t))}

@[simp] def setLock (k : Kernel) (l : LockId) (f : Lock → Lock) : Kernel :=
  {k with lock := Function.update k.lock l (f (k.lock l))}

@[simp] def setValue (k : Kernel) (s : Sema) (v : Nat) : Kernel :=
  {k with value := Function.update k.value s v}

@[simp] def setList (k : Kernel) (q : Queue) (xs : List Tid) : Kernel :=
  {k with list := Function.update k.list q xs}

@[simp] def setStack (k : Kernel) (st : List Frame) : Kernel :=
  k.setThread k.current (fun t => {t with stack := st})

@[simp] def cur (k : Kernel) : Thread := k.thread k.current

end Kernel

def graterThreadPri (k : Kernel) (a b : Tid) : Prop := (k.thread b).ePri < (k.thread a).ePri
instance (k) : DecidableRel (graterThreadPri k) := fun a b => by
  unfold graterThreadPri; infer_instance

def lessSleep (k : Kernel) (a b : Tid) : Prop := (k.thread a).wakeUp ≤ (k.thread b).wakeUp
instance (k) : DecidableRel (lessSleep k) := fun a b => by
  unfold lessSleep; infer_instance

def link (k : Kernel) (q : Queue) (t : Tid) (xs : List Tid) : Except Fault Kernel :=
  if (k.thread t).elem = none then
    .ok ((k.setList q xs).setThread t (fun th => {th with elem := some q}))
  else .error (.linkedTwice t)

def listPushBack (k : Kernel) (q : Queue) (t : Tid) : Except Fault Kernel :=
  link k q t (k.list q ++ [t])

def listInsertOrdered (k : Kernel) (q : Queue) (t : Tid)
    (before : Tid → Tid → Prop) [DecidableRel before] : Except Fault Kernel :=
  link k q t ((k.list q).orderedInsert before t)

def listRemove (k : Kernel) (t : Tid) : Except Fault Kernel :=
  match (k.thread t).elem with
  | some q =>
    .ok ((k.setList q ((k.list q).erase t)).setThread t (fun th => {th with elem := none}))
  | none => .error (.notLinked t)

def threadEnqueue (k : Kernel) (t : Tid) : Except Fault Kernel :=
  let k := k.setThread t (fun th => {th with queue := some .readyList})
  match k.policy with
  | .fifo => listPushBack k .readyList t
  | .prio => listInsertOrdered k .readyList t (graterThreadPri k)
  | .fair | .mlfqs => .error (.assertion .schedPolicy)

def threadUnblock (k : Kernel) (t : Tid) : Except Fault Kernel :=
  if (k.thread t).status = .blocked then do
    let k ← threadEnqueue k t
    .ok (k.setThread t (fun th => {th with status := .ready}))
  else .error (.assertion .statusBlocked)

def threadSwitchTail (k : Kernel) (next : Tid) : Kernel :=
  {(k.setThread next (fun th => {th with status := .running})) with
    current := next, threadTicks := 0}

def schedule (k : Kernel) : Except Fault Kernel :=
  match k.policy with
  | .fair | .mlfqs => .error (.assertion .schedPolicy)
  | .fifo | .prio =>
    match k.list .readyList with
    | [] => .ok (threadSwitchTail k k.idleThread)
    | next :: _ => do
      let k ← listRemove k next
      .ok (threadSwitchTail k next)

def threadBlock (k : Kernel) : Except Fault Kernel :=
  schedule (k.setThread k.current (fun th => {th with status := .blocked}))

def enqueueUnlessIdle (k : Kernel) : Except Fault Kernel :=
  if k.current = k.idleThread then .ok k else threadEnqueue k k.current

def threadYield (k : Kernel) : Except Fault Kernel := do
  let enqueued ← enqueueUnlessIdle k
  schedule (enqueued.setThread k.current (fun th => {th with status := .ready}))

end Pintos.Threads
