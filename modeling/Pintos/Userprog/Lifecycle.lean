import Pintos.Userprog.Process

/-! userprog/process_exit.c, userthread_join.c, userthread_create.c and the part of
process_create.c that starts a process. Every definition is what thread `c` does
from one point with interrupts on to the next. A thread that finds a lock taken
goes to sleep and tries again when it is woken. -/
namespace Pintos.Userprog
open Machine

def exitIfExiting (s : State) (c : Tid) (isPthreadExit : Bool) : Except Fault State :=
  let s := s.setProc c (fun p => {p with inKernelThreads := decrement p.inKernelThreads})
  let s := s.setThread c (fun th => {th with inHandler := false})
  match (s.proc c).exiting with
  | .exception => .ok (threadExit s c)
  | .normal =>
    if (s.proc c).inKernelThreads = 1 then
      match (s.proc c).threadExiting with
      | none => .error (.assertion .isThread)
      | some e => do
        let s ← threadUnblock s e
        .ok (s.setPc c .pthreadExit)
    else .ok (s.setPc c .pthreadExit)
  | .main =>
    if isPthreadExit = true ∧ (s.proc c).activeThreads = 2 then do
      let s ← threadUnblock s (s.proc c).mainThread
      .ok (s.setPc c .pthreadExit)
    else .ok (s.setPc c (if isPthreadExit then .pthreadExit else .user))
  | .none => .ok (s.setPc c (if isPthreadExit then .pthreadExit else .user))

def pthreadExit (s : State) (c : Tid) : Except Fault State := do
  let s ← wakeUpJoiner s c
  let s := s.setProc c (fun p => {p with activeThreads := decrement p.activeThreads})
  .ok {(s.setThread c (fun th => {th with status := .zombie, pc := .zombie})) with current := none}

def setExitCode (p : Process) (code : Int) : Process :=
  if p.exitCode = 0 ∨ code ≠ -1 then {p with exitCode := code} else p

def exitHelper (s : State) (t : Tid) : State :=
  s.setThread t (fun th => {th with status := .zombie})

def exitHelperRemoveFromList (s : State) (pos : Tid) : Except Fault State :=
  if (s.thread pos).queue ≠ none ∧
      ((s.thread pos).status = .blocked ∨ (s.thread pos).status = .ready) then
    match (s.thread pos).elem with
    | none => .error (.notLinked pos)
    | some _ => .ok {(s.setThread pos (fun th => {th with elem := none})) with
        readyList := s.readyList.erase pos}
  else .ok s

def exitEnter (s : State) (c : Tid) (code : Int) : Except Fault State := do
  let s ← wakeUpJoiner s c
  let s := s.setProc c (fun p => setExitCode p code)
  match (s.proc c).exiting with
  | .none =>
    let s := s.setProc c (fun p => {p with exiting := .normal, threadExiting := some c})
    .ok (s.setPc c (.exit .lock))
  | .main =>
    if isMainThread s c then .error (.assertion .notMain)
    else
      let s := exitHelper s (s.proc c).mainThread
      let s := s.setProc c (fun p => {p with inKernelThreads := decrement p.inKernelThreads})
      .ok (s.setPc c (.exit .lock))
  | .normal | .exception => .ok (s.setPc c (.leave true))

def exitVisit (s : State) (pos : Tid) : Except Fault State :=
  if (s.thread pos).freed then .error (.freedThread pos)
  else if (s.thread pos).inHandler = false then do
    let s := s.setThread pos (fun th => {th with status := .zombie})
    let s ← exitHelperRemoveFromList s pos
    wakeUpJoiner s pos
  else .ok s

def rwLockAcquireReader (s : State) (c : Tid) (next : Pc) : State :=
  if (s.proc c).activeWriters = 0 then
    (s.setProc c (fun p => {p with activeReaders := p.activeReaders + 1})).setPc c next
  else sleep s c

def rwLockAcquireWriter (s : State) (c : Tid) (next : Pc) : State :=
  if (s.proc c).activeReaders = 0 ∧ (s.proc c).activeWriters = 0 then
    (s.setProc c (fun p => {p with activeWriters := p.activeWriters + 1})).setPc c next
  else sleep s c

def rwLockReleaseReader (s : State) (c : Tid) : State :=
  s.setProc c (fun p => {p with activeReaders := p.activeReaders - 1})

def rwLockReleaseWriter (s : State) (c : Tid) : State :=
  s.setProc c (fun p => {p with activeWriters := p.activeWriters - 1})

def progRemove (s : State) (p : Pid) (t : Tid) : Except Fault State :=
  if t ∈ (s.pcb p).threads then
    .ok (s.setPcb p (fun pcb => {pcb with threads := pcb.threads.erase t}))
  else .error (.notLinked t)

def processExitNormal (s : State) (c : Tid) : Exit → Except Fault State
  | .enter code => exitEnter s c code
  | .lock => .ok (rwLockAcquireReader s c (.exit .remove))
  | .remove => do
    let s ← progRemove s (s.thread c).pid c
    .ok (s.setPc c (.exit (.visit (s.proc c).threads)))
  | .visit [] => .ok (s.setPc c (.exit .unlock))
  | .visit (pos :: todo) => do
    let s ← exitVisit s pos
    .ok (s.setPc c (.exit (.visit todo)))
  | .unlock => .ok ((rwLockReleaseReader s c).setPc c (.exit .check))
  | .check =>
    let s := s.setPc c (.exit .assert)
    .ok (if 1 < (s.proc c).inKernelThreads then threadBlock s c else s)
  | .assert =>
    if (s.proc c).inKernelThreads = 1 then .ok (s.setPc c .clean)
    else .error (.assertion .inKernelOne)

def mainLoop (s : State) (c : Tid) : State :=
  if 1 < (s.proc c).activeThreads then threadBlock (s.setPc c (.main .wait)) c
  else s.setPc c (.main .assert)

def pthreadExitMain (s : State) (c : Tid) : Main → Except Fault State
  | .enter =>
    let s := s.setProc c (fun p => setExitCode p 0)
    if (s.proc c).exiting = .none then do
      let s := s.setProc c (fun p => {p with exiting := .main, threadExiting := some c})
      let s ← wakeUpJoiner s c
      .ok (mainLoop s c)
    else .ok (s.setPc c (.leave true))
  | .wait => .ok (mainLoop s c)
  | .assert => do
    let s ← progRemove s (s.thread c).pid c
    if (s.proc c).inKernelThreads = 1 then .ok (s.setPc c .clean)
    else .error (.assertion .inKernelOne)

def cleanThreads (s : State) (c : Tid) : Except Fault State :=
  match (s.proc c).threads with
  | [] => .ok (s.setPc c (.tail .filesys))
  | pos :: rest =>
    pallocFreePage (s.setProc c (fun p => {p with threads := rest})) pos

def filesysUp (s : State) (inside : Tid → Bool) : State :=
  {s with
    filesysSema := s.filesysSema + 1
    thread := fun t => {s.thread t with inside := (s.thread t).inside && !inside t}}

def processExitTail (s : State) (c : Tid) : Tail → Except Fault State
  | .filesys =>
    let p := (s.thread c).pid
    let s := if (s.proc c).filesysSema then filesysUp s (fun t => (s.thread t).pid = p) else s
    .ok (s.setPc c (.tail .locks))
  | .locks =>
    let s := s.setThread c (fun th => {th with lockQueue := []})
    let s := s.setProc c (fun p => {p with locksTab := []})
    .ok (s.setPc c (.tail .free))
  | .free =>
    let s := if (s.proc c).inKernelThreads = 1 then s
      else s.setProc c (fun p => {p with inKernelThreads := decrement p.inKernelThreads})
    .ok (threadExit s c)

def joinScan (s : State) (c tid : Tid) : Except Fault (Option Target) :=
  if tid ∈ (s.proc c).threads then
    if (s.thread tid).freed then .error (.freedThread tid)
    else if (s.thread tid).joinedBy = none then
      .ok (some ⟨tid, decide ((s.proc c).mainThread = tid),
        !((s.thread tid).status = .zombie || (s.thread tid).status = .dying)⟩)
    else .ok none
  else .ok none

def joinSet (s : State) (c : Tid) (f : Target) : Except Fault State :=
  if (s.thread f.pos).freed then .error (.freedThread f.pos)
  else
    let s := s.setThread f.pos (fun th => {th with joinedBy := some c})
    let s := s.setPc c (.join (.relock f))
    .ok (if f.blockWait = true ∧ ((s.proc c).exiting ≠ .main ∨ f.isMain = false) then
      threadBlock s c else s)

def joinRemove (s : State) (c : Tid) (f : Target) : Except Fault State :=
  if f.isMain then .ok s
  else if (s.thread f.pos).freed then .error (.freedThread f.pos)
  else if (s.thread f.pos).status = .zombie then progRemove s (s.thread c).pid f.pos
  else .error (.assertion .statusZombie)

def joinReturn (s : State) (c pos : Tid) : State :=
  (s.setThread pos (fun th => {th with joins := th.joins + 1})).setPc c (.leave false)

def pthreadJoin (s : State) (c : Tid) : Join → Except Fault State
  | .lock tid => .ok (rwLockAcquireReader s c (.join (.scan tid)))
  | .scan tid => do
    let found ← joinScan s c tid
    .ok (s.setPc c (.join (.unlock found)))
  | .unlock found =>
    let s := rwLockReleaseReader s c
    match found with
    | none => .ok (s.setPc c (.leave false))
    | some f =>
      -- joining oneself or one's own joiner fails
      if c = f.pos ∨ (s.thread c).joinedBy = some f.pos then .ok (s.setPc c (.leave false))
      else .ok (s.setPc c (.join (.set f)))
  | .set f => joinSet s c f
  | .relock f => .ok (rwLockAcquireWriter s c (.join (.remove f)))
  | .remove f => do
    let s ← joinRemove s c f
    .ok (s.setPc c (.join (.release f)))
  | .release f =>
    let s := rwLockReleaseWriter s c
    .ok (if f.isMain then joinReturn s c f.pos else s.setPc c (.join (.free f)))
  | .free f => do
    let s ← pallocFreePage s f.pos
    .ok (joinReturn s c f.pos)

def newThread (p : Pid) (pc : Pc) : Thread where
  pid := p
  status := .ready
  queue := some .ready
  elem := some .ready
  freed := false
  pc := pc

def threadCreate (s : State) (p : Pid) (pc : Pc) : State :=
  {s with
    thread := Function.update s.thread s.created (newThread p pc)
    readyList := s.readyList ++ [s.created]
    created := s.created + 1}

def pthreadExecute (s : State) (c : Tid) : Create → State
  | .count =>
    (s.setProc c (fun p => {p with
      inKernelThreads := p.inKernelThreads + 1
      activeThreads := p.activeThreads + 1})).setPc c (.create .execute)
  | .execute =>
    let n := s.created
    (threadCreate s (s.thread c).pid (.start .setup)).setPc c (.create (.wait (some n)))
  | .wait none => sleep s c
  | .wait (some t) => if (s.thread t).finished then s.setPc c (.leave false) else sleep s c
  | .failed =>
    (s.setProc c (fun p => {p with
      inKernelThreads := decrement p.inKernelThreads
      activeThreads := decrement p.activeThreads})).setPc c (.leave false)

def noneOrMain (e : Exiting) : Bool := e = .none || e = .main

def startPthread (s : State) (c : Tid) : Start → State
  | .setup => s.setPc c (if noneOrMain (s.proc c).exiting then .start .lock else .start .up)
  | .lock => rwLockAcquireWriter s c (.start .check)
  | .check => s.setPc c (if noneOrMain (s.proc c).exiting then .start .push else .start .unlock)
  | .push =>
    (s.setProc c (fun p => {p with threads := c :: p.threads})).setPc c (.start .unlock)
  | .unlock => (rwLockReleaseWriter s c).setPc c (.start .up)
  | .up => s.setThread c (fun th => {th with finished := true, pc := .start .free})
  | .free => s.setPc c (.leave false)

def filesysDown (s : State) (c : Tid) (next : Pc) : State :=
  if s.filesysSema = 0 then sleep s c
  else {(s.setThread c (fun th => {th with inside := true, pc := next})) with
    filesysSema := s.filesysSema - 1}

def initProcess (main : Tid) : Process :=
  {threads := [main], activeThreads := 1, mainThread := main}

def startProcess (s : State) (c : Tid) : Load → State
  | .down => filesysDown s c (.load .body)
  | .body => s.setPc c (.load (.up true))
  | .up success =>
    let s := filesysUp s (fun t => t = c)
    if success then s.setPc c .user
    else threadExit (s.setProc c (fun p => {p with threads := []})) c

end Pintos.Userprog
