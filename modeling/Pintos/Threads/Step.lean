import Pintos.Threads.Synch

/-! The thread system as a machine: the running thread executes its next frame,
calls an operation, or is interrupted by the timer. -/
namespace Pintos.Threads
open Machine

def timeSlice : Nat := 4

def tidLock : LockId := 0

inductive Op where
  | threadYield
  | threadCreate (p : Priority)
  | threadSetPriority (p : Priority)
  | semaDown (s : Nat)
  | semaTryDown (s : Nat)
  | semaUp (s : Nat)
  | lockAcquire (l : LockId)
  | lockTryAcquire (l : LockId)
  | lockRelease (l : LockId)
  | condWait (c : CondId) (l : LockId)
  | condSignal (c : CondId) (l : LockId)
  | condBroadcast (c : CondId)
  | timerSleep (n : Int)
  deriving DecidableEq, Repr

def Op.frame : Op → Frame
  | .threadYield => .threadYield
  | .threadCreate p => .threadCreate p
  | .threadSetPriority p => .threadSetPriority p
  | .semaDown s => .semaDown s
  | .semaTryDown s => .semaTryDown s
  | .semaUp s => .semaUp (.plain s)
  | .lockAcquire l => .lockAcquire l
  | .lockTryAcquire l => .lockTryAcquire l
  | .lockRelease l => .lockRelease l
  | .condWait c l => .condWait c l
  | .condSignal c l => .condSignal c l
  | .condBroadcast c => .condBroadcast c false
  | .timerSleep n => .timerSleep n

inductive Action where
  | run
  | call (op : Op)
  | tick
  deriving DecidableEq, Repr

def threadSetPriority (k : Kernel) (p : Priority) (rest : List Frame) : Kernel :=
  if p.val = k.cur.bPri then k.setStack rest
  else if k.cur.ePri < p.val then
    (k.setThread k.current (fun th => {th with ePri := p.val, bPri := p.val})).setStack rest
  else if k.cur.lockQueue = [] then
    (k.setThread k.current (fun th => {th with ePri := p.val, bPri := p.val})).setStack
      (.threadYield :: rest)
  else (k.setThread k.current (fun th => {th with bPri := p.val})).setStack rest

def initThread (p : Priority) : Thread := {bPri := p.val, ePri := p.val}

def threadCreate (k : Kernel) (p : Priority) (rest : List Frame) : Kernel :=
  let n := k.created
  let k := {k with created := n + 1, thread := Function.update k.thread n (initThread p)}
  k.setStack (.lockAcquire tidLock :: .lockRelease tidLock :: .threadUnblock n ::
    .threadCreateTail p :: rest)

def threadCreateTail (k : Kernel) (p : Priority) (rest : List Frame) : Kernel :=
  if k.cur.ePri < p.val then k.setStack (.threadYield :: rest) else k.setStack rest

def timerSleep (k : Kernel) (n : Int) (rest : List Frame) : Kernel :=
  (k.setThread k.current (fun th => {th with wakeUp := k.ticks + n})).setStack
    (.timerSleepBlock :: rest)

def timerSleepBlock (k : Kernel) (rest : List Frame) : Except Fault Kernel :=
  sleepOn (k.setStack rest) .timerSleepList (lessSleep k)

def runFrame (k : Kernel) (f : Frame) (rest : List Frame) : Except Fault Kernel :=
  match f with
  | .threadYield => threadYield (k.setStack rest)
  | .threadUnblock t => do
    let k ← threadUnblock k t
    .ok (k.setStack rest)
  | .threadSetPriority p => .ok (threadSetPriority k p rest)
  | .threadCreate p => .ok (threadCreate k p rest)
  | .threadCreateTail p => .ok (threadCreateTail k p rest)
  | .idle => threadBlock k
  | .semaDown s => semaDown k s rest
  | .semaDownLoop s => semaDown k s rest
  | .semaTryDown s => .ok (semaTryDown k s rest)
  | .semaUp s => semaUp k s rest
  | .semaUpTail t => .ok (semaUpTail k t rest)
  | .lockAcquire l => lockAcquire k l rest
  | .lockAcquireLoop l => lockAcquireLoop k l rest
  | .lockTryAcquire l => lockTryAcquire k l rest
  | .lockRelease l => lockRelease k l rest
  | .condWait c l => condWait k c l rest
  | .condWaitBlock c => condWaitBlock k c rest
  | .condSignal c l => condSignal k c l rest
  | .condSignalPop c => condSignalPop k c rest
  | .condBroadcast c flag => .ok (condBroadcast k c flag rest)
  | .condBroadcastPop c flag => condBroadcastPop k c flag rest
  | .condBroadcastTail c flag t => .ok (condBroadcastTail k c flag t rest)
  | .timerSleep n => .ok (timerSleep k n rest)
  | .timerSleepBlock => timerSleepBlock k rest

def run (k : Kernel) : Except Fault Kernel :=
  match k.cur.stack with
  | [] => .ok k
  | f :: rest => runFrame k f rest

def intrOff (k : Kernel) : Bool :=
  match k.cur.stack with
  | .semaDownLoop _ :: _ | .lockAcquireLoop _ :: _ => true
  | _ => false

def wakeSleepers (k : Kernel) : List Tid → Except Fault Kernel
  | [] => .ok k
  | t :: ts =>
    if (k.thread t).wakeUp ≤ k.ticks then do
      let k ← listRemove k t
      let k ← threadUnblock k t
      wakeSleepers k ts
    else .ok k

def timerInterrupt (k : Kernel) : Except Fault Kernel := do
  let k := {k with ticks := k.ticks + 1}
  let k ← wakeSleepers k (k.list .timerSleepList)
  let k := {k with threadTicks := k.threadTicks + 1}
  if timeSlice ≤ k.threadTicks then threadYield k else .ok k

def step (k : Kernel) : Action → Except Fault Kernel
  | .run => run k
  | .call op => .ok (if k.cur.stack = [] then k.setStack [op.frame] else k)
  | .tick => if intrOff k then .ok k else timerInterrupt k

/-- A call of thread_create, until it has returned or another thread runs. -/
def creates (p : Priority) : List Action := .call (.threadCreate p) :: List.replicate 7 .run

def boot (policy : SchedPolicy) (values : Nat → Nat) : Kernel where
  policy := policy
  thread t :=
    if t = 0 then {stack := [.idle]}
    else if t = 1 then {status := .running, bPri := priDefault, ePri := priDefault}
    else {}
  lock _ := {}
  value
    | .plain n => values n
    | .lock _ => 1
  list _ := []
  current := 1
  idleThread := 0
  created := 2
  ticks := 0
  threadTicks := 0

end Pintos.Threads
