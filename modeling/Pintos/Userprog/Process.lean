import Mathlib.Algebra.Group.Nat.Defs
import Mathlib.Data.List.Nodup
import Pintos.Lib.Machine

/-! userprog/process.h and the fields of struct thread that the process code
reads. A TCB is named by its tid, a PCB by the tid of the main thread. The program
counter of a thread is the next region it runs between two points with interrupts
on. Which of the ready threads is dispatched is left open, so ready_list is only
kept in the order of SCHED_FIFO. all_list, the user stacks and the address spaces
are left out. -/
namespace Pintos.Userprog
open Machine

abbrev Tid := Nat
abbrev Pid := Nat

inductive Status where
  | running | ready | blocked | dying | zombie
  deriving DecidableEq, Repr

inductive Exiting where
  | none | main | normal | exception
  deriving DecidableEq, Repr

/-- What `elem` can be linked in: ready_list, or the waiters of a semaphore or a
condition. -/
inductive Queue where
  | ready | wait
  deriving DecidableEq, Repr

/- console_lock; the other locks kernel functions take and give back before they
return (allocators, guards of rw_locks, tables, disk channels); the locks a process
has registered. -/
inductive LockId where
  | console
  | kernel (n : Nat)
  | user (p : Pid) (n : Nat)
  deriving DecidableEq, Repr

inductive Call where
  | exit (code : Int)
  | exception
  | pthreadCreate
  | pthreadJoin (tid : Tid)
  | pthreadExit
  | filesys
  | other
  deriving DecidableEq, Repr

structure Target where
  pos : Tid
  isMain : Bool
  blockWait : Bool
  deriving DecidableEq, Repr

/-- start_process: sema_down(filesys_sema), load, sema_up. -/
inductive Load where
  | down | body | up (success : Bool)
  deriving DecidableEq, Repr

/-- The body of a handler; all but `any` are the section of handler_create,
handler_remove and handler_open. -/
inductive Work where
  | any | down | store | body | up | clear
  deriving DecidableEq, Repr

inductive Create where
  | count | execute | wait (t : Option Tid) | failed
  deriving DecidableEq, Repr

/-- start_pthread. -/
inductive Start where
  | setup | lock | check | push | unlock | up | free
  deriving DecidableEq, Repr

/-- pthread_join. -/
inductive Join where
  | lock (tid : Tid)
  | scan (tid : Tid)
  | unlock (found : Option Target)
  | set (f : Target)
  | relock (f : Target)
  | remove (f : Target)
  | release (f : Target)
  | free (f : Target)
  deriving DecidableEq, Repr

/-- process_exit_normal. -/
inductive Exit where
  | enter (code : Int)
  | lock
  | remove
  | visit (todo : List Tid)
  | unlock
  | check
  | assert
  deriving DecidableEq, Repr

/-- pthread_exit_main. -/
inductive Main where
  | enter | wait | assert
  deriving DecidableEq, Repr

/-- process_exit_tail. -/
inductive Tail where
  | filesys | locks | free
  deriving DecidableEq, Repr

inductive Pc where
  | load (stage : Load)
  | user
  | trap (c : Call)
  | work (stage : Work)
  | create (stage : Create)
  | start (stage : Start)
  | join (stage : Join)
  | leave (isPthreadExit : Bool)
  | pthreadExit
  | exit (stage : Exit)
  | main (stage : Main)
  | clean
  | tail (stage : Tail)
  | zombie
  | gone
  deriving DecidableEq, Repr

/- `nested` are the locks of the kernel function the thread is in. `inside` and
`joins` are not in struct thread: whether the thread has downed filesys_sema and
nobody has upped it for that, and how many calls of pthread_join have returned the
thread's tid. -/
structure Thread where
  pid : Pid := 0
  status : Status := .dying
  queue : Option Queue := none
  elem : Option Queue := none
  inHandler : Bool := false
  joinedBy : Option Tid := none
  lockQueue : List LockId := []
  nested : List LockId := []
  finished : Bool := false
  freed : Bool := true
  inside : Bool := false
  joins : Nat := 0
  pc : Pc := .gone
  deriving DecidableEq, Repr

/-- `activeReaders` and `activeWriters` are AR and AW of threads_lock. -/
structure Process where
  threads : List Tid := []
  exiting : Exiting := .none
  exitCode : Int := 0
  threadExiting : Option Tid := none
  inKernelThreads : Nat := 0
  activeThreads : Nat := 0
  mainThread : Tid := 0
  filesysSema : Bool := false
  activeReaders : Nat := 0
  activeWriters : Nat := 0
  locksTab : List Nat := []
  deriving DecidableEq, Repr

structure State where
  thread : Tid → Thread
  pcb : Pid → Process
  holder : LockId → Option Tid
  consoleLockDepth : Nat
  filesysSema : Nat
  readyList : List Tid
  current : Option Tid
  created : Nat

inductive Assertion where
  | statusBlocked
  | isThread
  | notMain
  | inKernelOne
  | statusZombie
  | lockNotHeld
  | lockHeld
  deriving DecidableEq, Repr

inductive Fault where
  | assertion (a : Assertion)
  | linkedTwice (t : Tid)
  | notLinked (t : Tid)
  | freedThread (t : Tid)
  deriving DecidableEq, Repr

namespace State

@[simp] def setThread (s : State) (t : Tid) (f : Thread → Thread) : State :=
  {s with thread := Function.update s.thread t (f (s.thread t))}

@[simp] def setPcb (s : State) (p : Pid) (f : Process → Process) : State :=
  {s with pcb := Function.update s.pcb p (f (s.pcb p))}

@[simp] def setPc (s : State) (t : Tid) (pc : Pc) : State :=
  s.setThread t (fun th => {th with pc := pc})

@[simp] def proc (s : State) (t : Tid) : Process := s.pcb (s.thread t).pid

@[simp] def setProc (s : State) (t : Tid) (f : Process → Process) : State :=
  s.setPcb (s.thread t).pid f

end State

/-- Only the wrap below zero is modelled: MAX_THREADS keeps the counters small. -/
def decrement (n : Nat) : Nat := if n = 0 then 2 ^ 32 - 1 else n - 1

def isMainThread (s : State) (t : Tid) : Bool := decide ((s.proc t).mainThread = t)

def threadUnblock (s : State) (t : Tid) : Except Fault State :=
  if (s.thread t).freed then .error (.freedThread t)
  else if (s.thread t).status ≠ .blocked then .error (.assertion .statusBlocked)
  else if (s.thread t).elem ≠ none then .error (.linkedTwice t)
  else .ok {(s.setThread t (fun th =>
      {th with elem := some .ready, queue := some .ready, status := .ready})) with
    readyList := s.readyList ++ [t]}

/-- thread_block by the running thread `c`; whoever is dispatched comes next. -/
def threadBlock (s : State) (c : Tid) : State :=
  {(s.setThread c (fun th => {th with status := .blocked})) with current := none}

def sleep (s : State) (c : Tid) : State :=
  {(s.setThread c (fun th =>
      {th with elem := some .wait, queue := some .wait, status := .blocked})) with
    current := none}

def wake (s : State) (t : Tid) : Except Fault State :=
  if (s.thread t).elem = some .wait then
    threadUnblock (s.setThread t (fun th => {th with elem := none})) t
  else .ok s

def threadYield (s : State) (c : Tid) : State :=
  {(s.setThread c (fun th =>
      {th with elem := some .ready, queue := some .ready, status := .ready})) with
    readyList := s.readyList ++ [c], current := none}

def dispatch (s : State) (t : Tid) : Except Fault State :=
  if (s.thread t).freed then .error (.freedThread t)
  else .ok {(s.setThread t (fun th => {th with elem := none, status := .running})) with
    readyList := s.readyList.erase t, current := some t}

def pallocFreePage (s : State) (t : Tid) : Except Fault State :=
  if (s.thread t).freed then .error (.freedThread t)
  else .ok (s.setThread t (fun th => {th with freed := true}))

/-- thread_exit; the thread dispatched next frees the page before interrupts are on. -/
def threadExit (s : State) (c : Tid) : State :=
  {(s.setThread c (fun th => {th with status := .dying, freed := true, pc := .gone})) with
    current := none}

def wakeUpJoiner (s : State) (t : Tid) : Except Fault State :=
  match (s.thread t).joinedBy with
  | none => .ok s
  | some joiner => threadUnblock s joiner

end Pintos.Userprog
