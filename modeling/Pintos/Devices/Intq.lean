import Mathlib.Logic.Function.Basic
import Pintos.Lib.Machine

/-! The interrupt queue (devices/intq.c): a ring of bytes between kernel threads and interrupt
handlers. Its functions run with interrupts off, so a thread gives the processor up in three places
only: in the sema_down of lock_acquire, in the thread_block of wait, and in the sema_up of
lock_release when the thread it wakes has the higher priority. One step is what is executed from one
of these to the next. Priorities are left open: sema_up wakes any waiter, and yields to it or
not. -/
namespace Pintos.Devices
open Machine

def bufSize : Nat := 64

inductive Fault where
  | intrContext
  | waitCondition
  | signalCondition
  | lockHeld
  | lockNotHeld
  | statusBlocked
  | idle
  deriving DecidableEq, Repr

inductive Op where
  | getc
  | putc (byte : UInt8)
  deriving DecidableEq, Repr

inductive Pc where
  | out
  | acquire (op : Op)
  | wait (op : Op)
  | release (op : Op)
  deriving DecidableEq, Repr

structure Intq where
  lock : Option Nat := none
  waiters : List Nat := []
  notFull : Option Nat := none
  notEmpty : Option Nat := none
  buf : Nat → UInt8 := fun _ => 0
  head : Nat := 0
  tail : Nat := 0

def next (pos : Nat) : Nat := (pos + 1) % bufSize

def intqEmpty (q : Intq) : Bool := q.head == q.tail

def intqFull (q : Intq) : Bool := next q.head == q.tail

inductive Waiter where
  | notEmpty
  | notFull
  deriving DecidableEq, Repr

namespace Waiter

def get : Waiter → Intq → Option Nat
  | .notEmpty, q => q.notEmpty
  | .notFull, q => q.notFull

def set : Waiter → Intq → Option Nat → Intq
  | .notEmpty, q, t => { q with notEmpty := t }
  | .notFull, q, t => { q with notFull := t }

def awaits : Waiter → Intq → Bool
  | .notEmpty, q => intqEmpty q
  | .notFull, q => intqFull q

end Waiter

def Op.waits : Op → Waiter
  | .getc => .notEmpty
  | .putc _ => .notFull

def Op.signals : Op → Waiter
  | .getc => .notFull
  | .putc _ => .notEmpty

structure State where
  count : Nat
  q : Intq
  pc : Nat → Pc
  blocked : Nat → Bool
  stored : List UInt8
  returned : List UInt8

inductive Action where
  | getc (context : Option Nat)
  | putc (context : Option Nat) (byte : UInt8)
  | run (t : Nat) (pick : Nat) (yields : Bool)
  deriving DecidableEq, Repr

def boot (count : Nat) : State where
  count := count
  q := {}
  pc _ := .out
  blocked _ := false
  stored := []
  returned := []

def threadBlock (s : State) (t : Nat) (pc : Pc) : State :=
  { s with pc := Function.update s.pc t pc, blocked := Function.update s.blocked t true }

def threadUnblock (s : State) (t : Nat) : Except Fault State :=
  if s.blocked t then .ok { s with blocked := Function.update s.blocked t false }
  else .error .statusBlocked

def wait (s : State) (t : Nat) (op : Op) : Except Fault State :=
  if op.waits.awaits s.q then
    .ok (threadBlock { s with q := op.waits.set s.q (some t) } t (.wait op))
  else .error .waitCondition

def signal (s : State) (waiter : Waiter) : Except Fault State :=
  if waiter.awaits s.q then .error .signalCondition
  else
    match waiter.get s.q with
    | none => .ok s
    | some t => do
      let s ← threadUnblock s t
      .ok { s with q := waiter.set s.q none }

def lockAcquire (s : State) (t : Nat) (op : Op) : Except Fault State :=
  match s.q.lock with
  | none => wait { s with q := { s.q with lock := some t } } t op
  | some holder =>
    if holder = t then .error .lockHeld
    else .ok (threadBlock { s with q := { s.q with waiters := s.q.waiters ++ [t] } } t (.acquire op))

def transfer (s : State) : Op → State
  | .getc => { s with
      q := { s.q with tail := next s.q.tail }
      returned := s.returned ++ [s.q.buf s.q.tail] }
  | .putc byte => { s with
      q := { s.q with buf := Function.update s.q.buf s.q.head byte, head := next s.q.head }
      stored := s.stored ++ [byte] }

def leave (s : State) : Option Nat → State
  | none => s
  | some t => { s with pc := Function.update s.pc t .out }

def intqLoop (s : State) (context : Option Nat) (op : Op) : Except Fault State :=
  if op.waits.awaits s.q then
    match context with
    | none => .error .intrContext
    | some t => lockAcquire s t op
  else do
    let s ← signal (transfer s op) op.signals
    .ok (leave s context)

def intqGetc (s : State) (context : Option Nat) : Except Fault State := intqLoop s context .getc

def intqPutc (s : State) (context : Option Nat) (byte : UInt8) : Except Fault State :=
  intqLoop s context (.putc byte)

def lockRelease (s : State) (t : Nat) (op : Op) (pick : Nat) (yields : Bool) :
    Except Fault State :=
  if s.q.lock ≠ some t then .error .lockNotHeld
  else
    let s := { s with q := { s.q with lock := none }, pc := Function.update s.pc t (.release op) }
    match s.q.waiters with
    | [] => intqLoop s (some t) op
    | first :: rest => do
      let woken := (first :: rest).getD pick first
      let s ← threadUnblock { s with q := { s.q with waiters := (first :: rest).erase woken } } woken
      if yields then .ok s else intqLoop s (some t) op

def State.outside (s : State) : Option Nat → Bool
  | none => true
  | some t => t < s.count && s.pc t == .out

def step (s : State) : Action → Except Fault State
  | .getc context => if s.outside context then intqGetc s context else .error .idle
  | .putc context byte => if s.outside context then intqPutc s context byte else .error .idle
  | .run t pick yields =>
    if s.blocked t then .error .idle
    else
      match s.pc t with
      | .out => .error .idle
      | .acquire op => lockAcquire s t op
      | .wait op => lockRelease s t op pick yields
      | .release op => intqLoop s (some t) op

/-- An interrupt handler calls intq_getc when the queue is not empty and intq_putc when it is not
full. -/
def Handled (s : State) : Action → Prop
  | .getc none => intqEmpty s.q = false
  | .putc none _ => intqFull s.q = false
  | .getc (some _) | .putc (some _) _ | .run _ _ _ => True

/-- A thread that finds the queue empty or full does not find another one inside wait. -/
def Uncontended (s : State) : Action → Prop
  | .getc (some _) => intqEmpty s.q = true → s.q.lock = none
  | .putc (some _) _ => intqFull s.q = true → s.q.lock = none
  | .getc none | .putc none _ | .run _ _ _ => True

instance (s a) : Decidable (Handled s a) :=
  match a with
  | .getc none => inferInstanceAs (Decidable (intqEmpty s.q = false))
  | .putc none _ => inferInstanceAs (Decidable (intqFull s.q = false))
  | .getc (some _) | .putc (some _) _ | .run _ _ _ => instDecidableTrue

instance (s a) : Decidable (Uncontended s a) :=
  match a with
  | .getc (some _) => inferInstanceAs (Decidable (intqEmpty s.q = true → s.q.lock = none))
  | .putc (some _) _ => inferInstanceAs (Decidable (intqFull s.q = true → s.q.lock = none))
  | .getc none | .putc none _ | .run _ _ _ => instDecidableTrue

end Pintos.Devices
