import Pintos.Children.Record
import Pintos.Lib.DoublyLinked

/-! A parent process and the children it launches: process_execute, handler_exec, process_wait and
the part of process_exit_tail that goes through `children`. Any number of threads of the parent
make system calls; every child is a process of its own whose threads are one agent here, since
only start_process and process_exit_tail reach the record. The initial process is a parent too:
its one thread executes run_task. -/
namespace Pintos.Children
open Machine
open DoublyLinked (beside)

inductive Caller where
  | handler
  | runTask
  deriving DecidableEq, Repr

inductive Execute where
  | page
  | record
  | lock (r : Nat)
  | push (r : Nat)
  | unlock (r : Nat)
  | editing (r : Nat)
  | initPcb (r : Nat)
  | down (r : Nat)
  | create (r : Nat)
  | setPid (r : Nat) (tid : Int)
  | dropEditing (r : Nat)
  | drop (r : Nat)
  deriving DecidableEq, Repr

/-- The statements of handler_exec after process_execute has returned `tid`. The record of this
launch, `r` or `made`, is history: handler_exec searches for it. -/
inductive Exec where
  | lock (r : Nat) (tid : Int)
  | search (r : Nat) (tid : Int) (rest : List Nat)
  | down (r : Nat) (tid : Int) (child : Nat)
  | test (r : Nat) (tid : Int) (child : Nat)
  | remove (r : Nat) (child : Nat)
  | free (r : Nat) (child : Nat)
  | up (r : Nat) (tid : Int) (child : Nat)
  | unlock (made : Option Nat) (result : Int)
  | done (made : Option Nat) (result : Int)
  deriving DecidableEq, Repr

inductive Wait where
  | lock
  | search (rest : List Nat)
  | down (child : Nat)
  | read (child : Nat)
  | remove (child : Nat) (result : Int)
  | free (child : Nat) (result : Int) (stage : FreeChild)
  | unlock (result : Int)
  | done (result : Int)
  deriving DecidableEq, Repr

inductive Clean where
  | pop
  | tryDown (child : Nat)
  | down (child : Nat)
  | free (child : Nat) (stage : FreeChild) (held : Bool)
  | up (child : Nat)
  deriving DecidableEq, Repr

inductive ParentPc where
  | user
  | execute (caller : Caller) (stage : Execute)
  | exec (stage : Exec)
  | wait (pid : Int) (stage : Wait)
  | exit (stage : Clean)
  | ended
  deriving DecidableEq, Repr

/-- `records` counts the records made so far; `kernel` says that the parent is the initial
process. -/
structure State where
  kernel : Bool
  count : Nat
  threads : Nat → ParentPc
  childrenLock : Option Nat
  children : List Nat
  records : Nat
  record : Nat → Record
  child : Nat → Child
  nextTid : Nat
  exiting : Bool

inductive Action where
  | exec (t : Nat)
  | runTask
  | wait (t : Nat) (pid : Int)
  | exit (t : Nat)
  | run (t : Nat) (granted : Bool)
  | child (r : Nat) (granted : Bool)
  | exitChild (r : Nat) (exitCode : Int)
  | allocateTid
  deriving DecidableEq, Repr

def boot (kernel : Bool) (count nextTid : Nat) : State where
  kernel := kernel
  count := count
  threads _ := .user
  childrenLock := none
  children := []
  records := 0
  record _ := {}
  child _ := {}
  nextTid := nextTid
  exiting := false

namespace State

def become (s : State) (t : Nat) (pc : ParentPc) : State :=
  { s with threads := Function.update s.threads t pc }

def put (s : State) (r : Nat) (value : Record) : State :=
  { s with record := Function.update s.record r value }

@[simp] def check (s : State) (rs : List Nat) : Except Fault Unit :=
  allow (∀ r ∈ rs, (s.record r).freed = false) .freed ()

@[simp] def acquire (s : State) (t : Nat) : Except Fault State :=
  allow (s.childrenLock = none) .blocked { s with childrenLock := some t }

@[simp] def release (s : State) (t : Nat) : Except Fault State :=
  allow (s.childrenLock = some t) .assertion { s with childrenLock := none }

theorem becomeThread (s : State) (t : Nat) (pc : ParentPc) : (s.become t pc).threads t = pc :=
  Function.update_self _ _ _

theorem becomeOther {t u : Nat} (s : State) (pc : ParentPc) (other : u ≠ t) :
    (s.become t pc).threads u = s.threads u :=
  Function.update_of_ne other _ _

end State

def returned (r : Nat) (tid : Int) : Caller → ParentPc
  | .handler => if tid = -1 then .exec (.done (some r) (-1)) else .exec (.lock r tid)
  | .runTask => .wait tid .lock

def refused (made : Option Nat) : Caller → ParentPc
  | .handler => .exec (.done made (-1))
  | .runTask => .wait (-1) .lock

def processExecute (s : State) (t : Nat) (caller : Caller) (granted : Bool) :
    Execute → Except Fault State
  | .page => .ok (s.become t (if granted then .execute caller .record else refused none caller))
  | .record =>
    if granted then
      .ok (({ s with records := s.records + 1 }.put s.records {}).become t
        (.execute caller (.lock s.records)))
    else .ok (s.become t (refused none caller))
  | .lock r => do
    let s ← s.acquire t
    .ok (s.become t (.execute caller (.push r)))
  | .push r => do
    s.check (r :: s.children.head?.toList)
    .ok ({ s with children := r :: s.children }.become t (.execute caller (.unlock r)))
  | .unlock r => do
    let s ← s.release t
    .ok (s.become t (.execute caller (.editing r)))
  | .editing r =>
    if granted then do
      let child ← (s.record r).use fun child => { child with editing := some 1 }
      .ok ((s.put r child).become t (.execute caller (.initPcb r)))
    else .ok (s.become t (.execute caller (.drop r)))
  | .initPcb r => .ok (s.become t (.execute caller (if granted then .down r else .dropEditing r)))
  | .down r => do
    let child ← (s.record r).downEditing
    .ok ((s.put r child).become t (.execute caller (.create r)))
  | .create r =>
    if granted then
      .ok ({ s with
        nextTid := s.nextTid + 1
        child := Function.update s.child r { pc := .start .allocate, tid := s.nextTid } }.become t
          (.execute caller (.setPid r s.nextTid)))
    else .ok (s.become t (.execute caller (.setPid r (-1))))
  | .setPid r tid => do
    let child ← (s.record r).use fun child => { child with pid := tid }
    .ok ((s.put r child).become t (returned r tid caller))
  | .dropEditing r => do
    let child ← (s.record r).freeEditing
    .ok ((s.put r child).become t (.execute caller (.drop r)))
  | .drop r => do
    let child ← (s.record r).free
    .ok ((s.put r child).become t (refused (some r) caller))

def handlerExec (s : State) (t : Nat) : Exec → Except Fault State
  | .lock r tid => do
    let s ← s.acquire t
    .ok (s.become t (.exec (.search r tid s.children)))
  | .search r tid [] => .ok (s.become t (.exec (.unlock (some r) tid)))
  | .search r tid (child :: rest) => do
    let pid ← (s.record child).use Record.pid
    .ok (s.become t (.exec (if pid = tid then .down r tid child else .search r tid rest)))
  | .down r tid child => do
    let value ← (s.record child).use id
    let value ← value.downEditing
    .ok ((s.put child value).become t (.exec (.test r tid child)))
  | .test r tid child => do
    let failed ← (s.record child).use fun value => !value.exited && value.exitedCode == -1
    .ok (s.become t (.exec (if failed then .remove r child else .up r tid child)))
  | .remove r child => do
    s.check (child :: beside s.children child)
    .ok ({ s with children := s.children.erase child }.become t (.exec (.free r child)))
  | .free r child => do
    let value ← (s.record child).free
    .ok ((s.put child value).become t (.exec (.unlock (some r) (-1))))
  | .up r tid child => do
    let value ← (s.record child).use id
    let value ← value.upEditing
    .ok ((s.put child value).become t (.exec (.unlock (some r) tid)))
  | .unlock made result => do
    let s ← s.release t
    .ok (s.become t (.exec (.done made result)))
  | .done _ _ => .ok (s.become t .user)

def processWait (s : State) (t : Nat) (childPid : Int) : Wait → Except Fault State
  | .lock => do
    let s ← s.acquire t
    .ok (s.become t (.wait childPid (.search s.children)))
  | .search [] => .ok (s.become t (.wait childPid (.unlock (-1))))
  | .search (child :: rest) => do
    let pid ← (s.record child).use Record.pid
    .ok (s.become t (.wait childPid (if pid = childPid then .down child else .search rest)))
  | .down child => do
    let value ← (s.record child).downWaiting
    .ok ((s.put child value).become t (.wait childPid (.read child)))
  | .read child => do
    let result ← (s.record child).use Record.exitedCode
    .ok (s.become t (.wait childPid (.remove child result)))
  | .remove child result => do
    s.check (child :: beside s.children child)
    .ok ({ s with children := s.children.erase child }.become t
      (.wait childPid (.free child result .test)))
  | .free child result stage => do
    let (value, next) ← freeChildSelf (s.record child) (s.child child).pcb stage
    match next with
    | some stage => .ok ((s.put child value).become t (.wait childPid (.free child result stage)))
    | none => .ok ((s.put child value).become t (.wait childPid (.unlock result)))
  | .unlock result => do
    let s ← s.release t
    .ok (s.become t (.wait childPid (.done result)))
  | .done _ => .ok (s.become t .user)

def processExitTail (s : State) (t : Nat) : Clean → Except Fault State
  | .pop =>
    match s.children with
    | [] => .ok (s.become t .ended)
    | child :: rest => do
      s.check (child :: rest.head?.toList)
      .ok ({ s with children := rest }.become t (.exit (.tryDown child)))
  | .tryDown child => do
    let value ← (s.record child).use Record.waiting
    if value = 0 then .ok (s.become t (.exit (.down child)))
    else do
      let value ← (s.record child).downWaiting
      .ok ((s.put child value).become t (.exit (.free child .test false)))
  | .down child => do
    let value ← (s.record child).use id
    let value ← value.downEditing
    .ok ((s.put child value).become t (.exit (.free child .test true)))
  | .free child stage held => do
    let (value, next) ← freeChildSelf (s.record child) (s.child child).pcb stage
    match next with
    | some stage => .ok ((s.put child value).become t (.exit (.free child stage held)))
    | none => .ok ((s.put child value).become t (.exit (if held then .up child else .pop)))
  | .up child => do
    let value ← (s.record child).upEditing
    .ok ((s.put child value).become t (.exit .pop))

def runParent (s : State) (t : Nat) (granted : Bool) : Except Fault State :=
  match s.threads t with
  | .execute caller stage => processExecute s t caller granted stage
  | .exec stage => handlerExec s t stage
  | .wait childPid stage => processWait s t childPid stage
  | .exit stage => processExitTail s t stage
  | .user | .ended => .error .idle

def State.call (s : State) (t : Nat) (kernel : Bool) (pc : ParentPc) : Except Fault State :=
  if t < s.count ∧ s.threads t = .user ∧ s.kernel = kernel ∧ s.exiting = false then
    .ok (s.become t pc)
  else .error .idle

/-- process_exit_tail is executed when no other thread of the process is in the kernel. -/
def step (s : State) : Action → Except Fault State
  | .exec t => s.call t false (.execute .handler .page)
  | .runTask => s.call 0 true (.execute .runTask .page)
  | .wait t pid => s.call t false (.wait pid .lock)
  | .exit t =>
    if ∀ u < s.count, s.threads u = .user then do
      let s ← s.call t false (.exit .pop)
      .ok { s with exiting := true }
    else .error .idle
  | .run t granted => if t < s.count then runParent s t granted else .error .idle
  | .child r granted => do
    let (value, child) ← runChild (s.record r) (s.child r) granted
    .ok { s.put r value with child := Function.update s.child r child }
  | .exitChild r exitCode =>
    if (s.child r).pc = .user then
      .ok { s with
        child := Function.update s.child r { s.child r with pc := .exit .down, exitCode := exitCode } }
    else .error .idle
  | .allocateTid => .ok { s with nextTid := s.nextTid + 1 }

end Pintos.Children
