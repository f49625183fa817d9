import Pintos.Threads.Thread

/-! threads/synch.c, one definition for each critical section. `rest` is what
the running thread does after the call; a definition that can put the thread to
sleep leaves the frame it resumes at on the stack. -/
namespace Pintos.Threads
open Machine

def int8 (x : Int) : Int := Int.bmod x 256

def lockBefore (k : Kernel) (a b : LockId) : Prop := (k.lock b).pri ≤ (k.lock a).pri
instance (k) : DecidableRel (lockBefore k) := fun a b => by
  unfold lockBefore; infer_instance

def sleepOn (k : Kernel) (q : Queue) (before : Tid → Tid → Prop) [DecidableRel before] :
    Except Fault Kernel := do
  let k ← listInsertOrdered k q k.current before
  threadBlock (k.setThread k.current (fun th => {th with queue := some q}))

def semaDown (k : Kernel) (s : Nat) (rest : List Frame) : Except Fault Kernel :=
  if k.value (.plain s) = 0 then
    sleepOn (k.setStack (.semaDownLoop s :: rest)) (.semaWaiters (.plain s)) (graterThreadPri k)
  else .ok ((k.setValue (.plain s) (k.value (.plain s) - 1)).setStack rest)

def semaTryDown (k : Kernel) (s : Nat) (rest : List Frame) : Kernel :=
  if 0 < k.value (.plain s) then
    (k.setValue (.plain s) (k.value (.plain s) - 1)).setStack rest
  else k.setStack rest

def upValue (v : Nat) : Nat := (v + 1) % 2 ^ 32

def semaUp (k : Kernel) (s : Sema) (rest : List Frame) : Except Fault Kernel :=
  match k.list (.semaWaiters s) with
  | [] => .ok ((k.setValue s (upValue (k.value s))).setStack rest)
  | t :: _ => do
    let k ← listRemove k t
    let k ← threadUnblock k t
    .ok ((k.setValue s (upValue (k.value s))).setStack (.semaUpTail t :: rest))

def semaUpTail (k : Kernel) (t : Tid) (rest : List Frame) : Kernel :=
  if k.cur.ePri < (k.thread t).ePri then k.setStack (.threadYield :: rest) else k.setStack rest

def requeue (k : Kernel) (t : Tid) : Except Fault Kernel :=
  match (k.thread t).queue with
  | none => .ok k
  | some q => do
    let k ← listRemove k t
    listInsertOrdered k q t (graterThreadPri k)

def raiseLock (k : Kernel) (l : LockId) (donee : Tid) (p : Nat) : Kernel :=
  let k := k.setLock l (fun lk => {lk with pri := p})
  k.setThread donee (fun th =>
    {th with lockQueue := (th.lockQueue.erase l).orderedInsert (lockBefore k) l})

def raiseThread (k : Kernel) (t : Tid) (p : Nat) : Kernel :=
  k.setThread t (fun th => {th with ePri := p})

/- donate_pri_acquire. Every turn but the last raises a thread that was below
the donor, so as many turns as there are threads, and one, are enough. -/
def donatePriAcquire : Nat → Kernel → Tid → LockId → Except Fault Kernel
  | 0, _, _, _ => .error .walk
  | turns + 1, k, donor, l =>
    match (k.lock l).holder with
    | none => .error (.assertion .doneeNotNull)
    | some donee =>
      let p := (k.thread donor).ePri
      if p ≤ (k.lock l).pri then .ok k
      else
        let k := raiseLock k l donee p
        if p ≤ (k.thread donee).ePri then .ok k
        else do
          let k ← requeue (raiseThread k donee p) donee
          match (k.thread donee).donatedFor with
          | none => .ok k
          | some next => donatePriAcquire turns k donee next

def takeLock (k : Kernel) (l : LockId) : Kernel :=
  let k := k.setValue (.lock l) (k.value (.lock l) - 1)
  let k := k.setLock l (fun lk => {lk with pri := k.cur.ePri, holder := some k.current})
  k.setThread k.current (fun th =>
    {th with lockQueue := th.lockQueue.orderedInsert (lockBefore k) l})

def lockAcquireLoop (k : Kernel) (l : LockId) (rest : List Frame) : Except Fault Kernel :=
  if k.value (.lock l) = 0 then
    sleepOn (k.setStack (.lockAcquireLoop l :: rest)) (.semaWaiters (.lock l)) (graterThreadPri k)
  else
    .ok (((takeLock k l).setThread k.current (fun th => {th with donatedFor := none})).setStack rest)

def announce (k : Kernel) (l : LockId) : Kernel :=
  (k.setLock l (fun lk => {lk with state := int8 (lk.state - 1)})).setThread k.current
    (fun th => {th with donatedFor := some l})

def donateIfHeld (k : Kernel) (l : LockId) : Except Fault Kernel :=
  if (k.lock l).state < 0 ∧ (k.lock l).holder ≠ none then
    donatePriAcquire (k.created + 1) k k.current l
  else .ok k

def lockAcquire (k : Kernel) (l : LockId) (rest : List Frame) : Except Fault Kernel :=
  if (k.lock l).holder = some k.current then .error (.assertion .lockNotHeld)
  else do
    let k ← donateIfHeld (announce k l) l
    lockAcquireLoop k l rest

def lockTryAcquire (k : Kernel) (l : LockId) (rest : List Frame) : Except Fault Kernel :=
  if (k.lock l).holder = some k.current then .error (.assertion .lockNotHeld)
  else if 0 < k.value (.lock l) then
    .ok (((takeLock k l).setLock l (fun lk => {lk with state := int8 (lk.state - 1)})).setStack rest)
  else .ok (k.setStack rest)

def restoredPri (k : Kernel) (t : Tid) (held : List LockId) : Nat :=
  match held with
  | [] => (k.thread t).bPri
  | l :: _ => (k.lock l).pri

def lockRelease (k : Kernel) (l : LockId) (rest : List Frame) : Except Fault Kernel :=
  if (k.lock l).holder = some k.current then
    let held := k.cur.lockQueue.erase l
    let k := k.setLock l (fun lk =>
      {lk with holder := none, pri := 0, state := int8 (lk.state + 1)})
    let k := k.setThread k.current (fun th =>
      {th with lockQueue := held, ePri := restoredPri k k.current held})
    .ok (k.setStack (.semaUp (.lock l) :: rest))
  else .error (.assertion .lockHeld)

/- cond_wait links the thread with interrupts on and only blocks after it has
released the lock; the frames in between are ordinary preemption points. -/
def condWait (k : Kernel) (c : CondId) (l : LockId) (rest : List Frame) : Except Fault Kernel :=
  if (k.lock l).holder = some k.current then do
    let k ← listInsertOrdered k (.condWaiters c) k.current (graterThreadPri k)
    .ok (k.setStack (.lockRelease l :: .condWaitBlock c :: .lockAcquire l :: rest))
  else .error (.assertion .lockHeld)

def condWaitBlock (k : Kernel) (c : CondId) (rest : List Frame) : Except Fault Kernel :=
  threadBlock (k.setThread k.current (fun th =>
    {th with queue := some (.condWaiters c), stack := rest}))

def condPop (k : Kernel) (c : CondId) (after : Tid → List Frame) : Except Fault Kernel :=
  match k.list (.condWaiters c) with
  | [] => .error (.assertion .listNotEmpty)
  | t :: _ => do
    let k ← listRemove k t
    .ok ((k.setThread t (fun th => {th with queue := none})).setStack (after t))

def condSignal (k : Kernel) (c : CondId) (l : LockId) (rest : List Frame) : Except Fault Kernel :=
  if (k.lock l).holder = some k.current then
    if k.list (.condWaiters c) = [] then .ok (k.setStack rest)
    else
      -- list_sort is stable and puts a before b unless b is strictly stronger
      let sorted := (k.list (.condWaiters c)).insertionSort (fun a b => ¬ graterThreadPri k b a)
      .ok ((k.setList (.condWaiters c) sorted).setStack (.condSignalPop c :: rest))
  else .error (.assertion .lockHeld)

def condSignalPop (k : Kernel) (c : CondId) (rest : List Frame) : Except Fault Kernel :=
  condPop k c (fun t => .threadUnblock t :: .semaUpTail t :: rest)

def condBroadcast (k : Kernel) (c : CondId) (flag : Bool) (rest : List Frame) : Kernel :=
  if k.list (.condWaiters c) = [] then
    k.setStack (if flag then .threadYield :: rest else rest)
  else k.setStack (.condBroadcastPop c flag :: rest)

def condBroadcastPop (k : Kernel) (c : CondId) (flag : Bool) (rest : List Frame) :
    Except Fault Kernel :=
  condPop k c (fun t => .threadUnblock t :: .condBroadcastTail c flag t :: rest)

def condBroadcastTail (k : Kernel) (c : CondId) (flag : Bool) (t : Tid) (rest : List Frame) :
    Kernel :=
  k.setStack (.condBroadcast c (flag || decide (k.cur.ePri < (k.thread t).ePri)) :: rest)

end Pintos.Threads
