import Pintos.Userprog.Lifecycle

/-! The user processes as a machine: userprog/syscall.c, userprog/exception.c and
lib/kernel/console.c on top of the life cycle of a thread. The running thread
executes its next region, traps, faults or takes and gives back a lock; the timer
preempts it; a waiting thread is woken; a ready one is dispatched. Handlers that
only work on their arguments are one stage in which the thread may sleep, be woken
and fault at any point. -/
namespace Pintos.Userprog
open Machine

inductive Action where
  | run
  | call (c : Call)
  | fault
  | starve
  | noStack
  | lockInit (n : Nat)
  | lockAcquire (n : Nat)
  | lockRelease (n : Nat)
  | acquire (l : LockId)
  | release (l : LockId)
  | block
  | wake (t : Tid)
  | preempt
  | dispatch (t : Tid)
  | launch
  deriving DecidableEq, Repr

def handler (s : State) (c : Tid) : Call → Pc
  | .exit code => .exit (.enter code)
  | .exception => .exit (.enter (-1))
  | .pthreadCreate => .create .count
  | .pthreadJoin tid => .join (.lock tid)
  | .pthreadExit => if isMainThread s c then .main .enter else .leave true
  | .filesys => .work .down
  | .other => .work .any

def trap (s : State) (c : Tid) (k : Call) : State :=
  let s := s.setProc c (fun p => {p with inKernelThreads := p.inKernelThreads + 1})
  s.setThread c (fun th => {th with inHandler := true, pc := handler s c k})

def workStep (s : State) (c : Tid) : Work → State
  | .any => s.setPc c (.leave false)
  | .down => filesysDown s c (.work .store)
  | .store => (s.setProc c (fun p => {p with filesysSema := true})).setPc c (.work .body)
  | .body => s.setPc c (.work .up)
  | .up => (filesysUp s (fun t => t = c)).setPc c (.work .clear)
  | .clear => (s.setProc c (fun p => {p with filesysSema := false})).setPc c (.work .any)

def runPc (s : State) (c : Tid) : Pc → Except Fault State
  | .load stage => .ok (startProcess s c stage)
  | .user => .ok s
  | .trap k => .ok (trap s c k)
  | .work stage => .ok (workStep s c stage)
  | .create stage => .ok (pthreadExecute s c stage)
  | .start stage => .ok (startPthread s c stage)
  | .join stage => pthreadJoin s c stage
  | .leave flag => exitIfExiting s c flag
  | .pthreadExit => pthreadExit s c
  | .exit stage => processExitNormal s c stage
  | .main stage => pthreadExitMain s c stage
  | .clean => cleanThreads s c
  | .tail stage => processExitTail s c stage
  | .zombie | .gone => .ok s

def starvePc (s : State) (c : Tid) : Pc → State
  | .create .execute => s.setPc c (.create (.wait none))
  | .start .setup => s.setPc c (.start .up)
  | .load .body => s.setPc c (.load (.up false))
  | _ => s

def pageFault (s : State) (c : Tid) : Pc → State
  | .work .any | .work .body =>
    s.setThread c (fun th => {th with nested := [], pc := .exit (.enter (-1))})
  | _ => s

def takeLock (s : State) (c : Tid) (l : LockId) : State :=
  {(s.setThread c (fun th => {th with lockQueue := l :: th.lockQueue})) with
    holder := Function.update s.holder l (some c)}

def giveLock (s : State) (c : Tid) (l : LockId) : State :=
  {(s.setThread c (fun th => {th with lockQueue := th.lockQueue.erase l})) with
    holder := Function.update s.holder l none}

def handlerLockInit (s : State) (c : Tid) (n : Nat) : State :=
  if n ∈ (s.proc c).locksTab then s
  else s.setProc c (fun p => {p with locksTab := n :: p.locksTab})

def handlerLockAcquire (s : State) (c : Tid) (n : Nat) : State :=
  let l := .user (s.thread c).pid n
  if n ∉ (s.proc c).locksTab ∨ s.holder l = some c then s
  else if s.holder l = none then takeLock s c l
  else sleep s c

def handlerLockRelease (s : State) (c : Tid) (n : Nat) : State :=
  let l := .user (s.thread c).pid n
  if n ∉ (s.proc c).locksTab ∨ s.holder l ≠ some c then s else giveLock s c l

def kernelAcquire (s : State) (c : Tid) (l : LockId) : Except Fault State :=
  let enter (s : State) := s.setThread c (fun th => {th with nested := l :: th.nested})
  if s.holder l = some c then
    if l = .console then .ok (enter {s with consoleLockDepth := s.consoleLockDepth + 1})
    else .error (.assertion .lockNotHeld)
  else if s.holder l = none then .ok (enter (takeLock s c l))
  else .ok (sleep s c)

def kernelRelease (s : State) (c : Tid) (l : LockId) : Except Fault State :=
  let leave (s : State) := s.setThread c (fun th => {th with nested := th.nested.erase l})
  if l = .console ∧ 0 < s.consoleLockDepth then
    .ok (leave {s with consoleLockDepth := s.consoleLockDepth - 1})
  else if s.holder l = some c then .ok (leave (giveLock s c l))
  else .error (.assertion .lockHeld)

def Pc.inFunction : Pc → Bool
  | .load _ | .trap .exception | .work _ | .create _ | .start _ | .join _ | .exit .lock
  | .exit .unlock | .clean | .tail _ => true
  | _ => false

def LockId.isUser : LockId → Bool
  | .user _ _ => true
  | _ => false

def Pc.intrOff : Pc → Bool
  | .main .wait => true
  | _ => false

def stepCurrent (s : State) (c : Tid) : Action → Except Fault State
  | .run => if (s.thread c).nested = [] then runPc s c (s.thread c).pc else .ok s
  | .call k => .ok (if (s.thread c).pc = .user then s.setPc c (.trap k) else s)
  | .fault => .ok (pageFault s c (s.thread c).pc)
  | .starve => .ok (starvePc s c (s.thread c).pc)
  | .noStack =>
    .ok (if (s.thread c).pc = .create .execute then s.setPc c (.create .failed) else s)
  | .lockInit n => .ok (if (s.thread c).pc = .work .any then handlerLockInit s c n else s)
  | .lockAcquire n =>
    .ok (if (s.thread c).pc = .work .any then handlerLockAcquire s c n else s)
  | .lockRelease n =>
    .ok (if (s.thread c).pc = .work .any then handlerLockRelease s c n else s)
  | .acquire l =>
    if (s.thread c).pc.inFunction ∧ l.isUser = false then kernelAcquire s c l else .ok s
  | .release l => if l ∈ (s.thread c).nested then kernelRelease s c l else .ok s
  | .block => .ok (if (s.thread c).pc.inFunction then sleep s c else s)
  | .preempt => .ok (if (s.thread c).pc.intrOff then s else threadYield s c)
  | _ => .ok s

def step (s : State) : Action → Except Fault State
  | .wake t => wake s t
  | .dispatch t => if s.current = none ∧ t ∈ s.readyList then dispatch s t else .ok s
  | .launch =>
    .ok ((threadCreate s s.created (.load .down)).setPcb s.created
      (fun _ => initProcess s.created))
  | a =>
    match s.current with
    | none => .ok s
    | some c => stepCurrent s c a

def boot : State where
  thread _ := {}
  pcb _ := {}
  holder _ := none
  consoleLockDepth := 0
  filesysSema := 1
  readyList := []
  current := none
  created := 0

end Pintos.Userprog
