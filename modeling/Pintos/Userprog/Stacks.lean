import Pintos.Lib.Slots
import Pintos.Memory.Paging
import Pintos.Userprog.Teardown

/-! pcb->stacks and the stack_no of threads. The machine of the threads says only that
pthread_execute may find no stack; here its scan of the bitmap is written out, with
pcb_lock around it and with interrupts on, and so are the places that write a bit or a
stack_no. Every run is one of the machine below. -/
namespace Pintos.Userprog
open Machine Slots
open Function (update update_apply update_of_ne update_self)
open Memory (physBase physBaseNat pgSize)

attribute [local simp] update_apply

def maxThreads : Nat := 128
def stackSize : Nat := 2 ^ 23

def stackPage (stackNo : Nat) : Nat :=
  (physBase.toNat + (2 ^ 32 - stackNo * stackSize % 2 ^ 32) + (2 ^ 32 - pgSize)) % 2 ^ 32

/-- How far pthread_execute is with the slot: inside bitmap_scan_and_flip it holds pcb_lock. -/
inductive Slot where
  | idle
  | scan (i : Nat)
  | flip (i : Nat)
  | reserved (n : Nat)
  deriving DecidableEq, Repr

def Slot.scanning : Slot → Bool
  | .scan _ | .flip _ => true
  | _ => false

structure Table where
  state : State
  userStacks : Pid → List Bool
  pcbLock : Pid → Option Tid
  slot : Tid → Slot
  initTcb : Tid → Nat
  stackNo : Tid → Nat

inductive TableAction where
  | scan
  | act (a : Action)
  deriving DecidableEq, Repr

inductive TableFault where
  | stackNo
  | other (f : Fault)
  deriving DecidableEq, Repr

namespace Table

def pid (t : Table) (c : Tid) : Pid := (t.state.thread c).pid

def pc (t : Table) (c : Tid) : Pc := (t.state.thread c).pc

def setSlot (t : Table) (c : Tid) (slot : Slot) : Table :=
  {t with slot := update t.slot c slot}

def bitmapSet (t : Table) (c : Tid) (n : Nat) (b : Bool) : Table :=
  {t with userStacks := write t.userStacks (t.pid c) n b}

def setLock (t : Table) (c : Tid) (holder : Option Tid) : Table :=
  {t with pcbLock := update t.pcbLock (t.pid c) holder}

end Table

def scanStep (t : Table) (c : Tid) : Slot → Except TableFault Table
  | .idle =>
    .ok (if t.pcbLock (t.pid c) = none then (t.setLock c (some c)).setSlot c (.scan 0)
      else {t with state := sleep t.state c})
  | .scan i =>
    match (t.userStacks (t.pid c))[i]? with
    | none =>
      .ok {((t.setLock c none).setSlot c .idle) with state := t.state.setPc c (.create .failed)}
    | some true => .ok (t.setSlot c (.scan (i + 1)))
    | some false => .ok (t.setSlot c (.flip i))
  | .flip i =>
    if i = 0 then .error .stackNo
    else .ok (((t.bitmapSet c i true).setLock c none).setSlot c (.reserved i))
  | .reserved _ => .ok t

/-- What a thread writes when it goes from one region to the next: start_process has loaded
the program, thread_create has succeeded or failed, start_pthread and pthread_exit. -/
def note (t : Table) (c : Tid) : Pc → Pc → Table
  | .load (.up true), .user =>
    {t with
      userStacks := update t.userStacks (t.pid c) (true :: List.replicate (maxThreads - 1) false)
      stackNo := update t.stackNo c 0}
  | .create .execute, .create (.wait (some u)) =>
    match t.slot c with
    | .reserved n =>
      {t with
        slot := update t.slot c .idle
        initTcb := update t.initTcb u n
        stackNo := update t.stackNo u (2 ^ 32 - 1)}
    | _ => t
  | .create .execute, .create (.wait none) =>
    match t.slot c with
    | .reserved n => (t.bitmapSet c n false).setSlot c .idle
    | _ => t
  | .start .setup, .start .setup => t
  | .start .setup, .start _ => {t with stackNo := update t.stackNo c (t.initTcb c)}
  | .pthreadExit, .zombie => t.bitmapSet c (t.stackNo c) false
  | _, _ => t

def waitsFor : Slot → Action → Bool
  | _, .noStack => true
  | .reserved _, _ => false
  | _, .run | _, .starve => true
  | _, _ => false

def actStep (t : Table) (a : Action) : Except TableFault Table :=
  match step t.state a with
  | .error f => .error (.other f)
  | .ok s =>
    match t.state.current with
    | none => .ok {t with state := s}
    | some c => .ok (note {t with state := s} c (t.pc c) (s.thread c).pc)

def tableStep (t : Table) : TableAction → Except TableFault Table
  | .scan =>
    match t.state.current with
    | none => .ok t
    | some c => if t.pc c = .create .execute then scanStep t c (t.slot c) else .ok t
  | .act a =>
    match t.state.current with
    | none => actStep t a
    | some c =>
      if t.pc c = .create .execute ∧ waitsFor (t.slot c) a = true then .ok t else actStep t a

def tableBoot : Table where
  state := boot
  userStacks _ := []
  pcbLock _ := none
  slot _ := .idle
  initTcb _ := 0
  stackNo _ := 2 ^ 32 - 1

inductive Holder where
  | thread (t : Tid)
  | creator (t : Tid)
  deriving DecidableEq, Repr

inductive Seat where
  | nowhere | initTcb | own
  deriving DecidableEq, Repr

def Pc.seat : Pc → Seat
  | .start .setup => .initTcb
  | .load _ | .zombie | .gone => .nowhere
  | _ => .own

def Table.held (t : Table) : Holder → Option (Pid × Nat)
  | .thread u =>
    match (t.pc u).seat with
    | .nowhere => none
    | .initTcb => some (t.pid u, t.initTcb u)
    | .own => some (t.pid u, t.stackNo u)
  | .creator u =>
    match t.slot u with
    | .reserved n => some (t.pid u, n)
    | _ => none

def Table.live (t : Table) (u : Tid) : Prop := (t.pc u).seat = .own

instance (t u) : Decidable (Table.live t u) := by
  unfold Table.live; infer_instance

def Pc.seated (pc : Pc) : Bool := pc.seat != .nowhere

structure Scans (t : Table) : Prop where
  busy : ∀ u, t.slot u ≠ .idle → t.pc u = .create .execute
  locked : ∀ u, (t.slot u).scanning = true → t.pcbLock (t.pid u) = some u
  flips : ∀ u n, t.slot u = .flip n → (t.userStacks (t.pid u))[n]? = some false

structure Seating (t : Table) : Prop where
  fits : Fits t.held t.userStacks
  size : ∀ u, (t.pc u).seated = true → (t.userStacks (t.pid u)).length = maxThreads
  zero : ∀ h p, t.held h = some (p, 0) → h = .thread p
  first : ∀ p n, t.held (.thread p) = some (p, n) → n = 0
  main : ∀ u, (t.pc u).seated = true →
    (t.userStacks (t.pid u))[0]? = some (decide (t.pc (t.pid u) ≠ .zombie))

structure Slotted (t : Table) : Prop extends Scans t, Seating t where
  base : Base t.state
  mains : Mains t.state

inductive Seats (old new : Pc) : Prop where
  | loads (before : old = .load (.up true)) (after : new = .user)
  | starves (before : old = .create .execute) (after : new = .create (.wait none))
  | fails (before : old = .create .execute) (after : new = .create .failed)
  | sets {stage : Start} (before : old = .start .setup) (after : new = .start stage)
      (other : stage ≠ .setup)
  | ends (before : old = .pthreadExit) (after : new = .zombie)
  | keeps (seat : new.seat = old.seat ∨ new.seat = .nowhere) (alive : new ≠ .zombie)
      (idle : old ≠ .create .execute) (same : ∀ t c, note t c old new = t)

theorem noteSame (t : Table) (c : Tid) (pc : Pc) : note t c pc pc = t := by
  cases pc with
  | load stage | create stage | start stage => cases stage <;> simp [note]
  | _ => simp [note]

theorem jumpSeats {main : Prop} {level : Exiting} {active : Nat} {old new : Pc}
    (jump : Jump main level active old new) : Seats old new := by
  cases jump with
  | loaded => exact .loads rfl rfl
  | noStack => exact .fails rfl rfl
  | starves => exact .starves rfl rfl
  | zombie => exact .ends rfl rfl
  | @start stage next nears =>
    cases stage with
    | setup => exact .sets rfl rfl fun still => Nat.lt_irrefl _ (still ▸ nears)
    | _ =>
      refine .keeps (.inl ?_) (by simp) (by simp) fun t c => rfl
      cases next <;> first | rfl | simp [Pc.regions] at nears
  | dies | freed | unloaded => exact .keeps (.inr rfl) (by simp) (by simp) fun t c => rfl
  | _ => exact .keeps (.inl rfl) (by simp) (by simp) fun t c => rfl

section Table
variable {t t' : Table} {c u : Tid} {a : TableAction}
  {s' : State} {b : Action} {n : Nat} {h : Holder}

theorem noteState (t : Table) (c : Tid) (old new : Pc) : (note t c old new).state = t.state := by
  unfold note
  split <;> first | rfl | (split <;> rfl)

theorem actRefines (ok : actStep t b = .ok t') :
    step t.state b = .ok t'.state ∧ (t.state.current = none ∧ t' = {t with state := t'.state} ∨
      ∃ c, t.state.current = some c ∧
        t' = note {t with state := t'.state} c (t.pc c) (t'.pc c)) := by
  unfold actStep at ok
  split at ok <;> try contradiction
  rename_i s moved
  split at ok
  · rename_i idle
    cases ok
    exact ⟨moved, .inl ⟨idle, rfl⟩⟩
  · rename_i c runs
    cases ok
    simp only [Table.pc, noteState]
    exact ⟨moved, .inr ⟨c, runs, rfl⟩⟩

theorem scanRefines {slot : Slot} (runs : t.state.current = some c)
    (here : t.pc c = .create .execute) (ok : scanStep t c slot = .ok t') :
    t'.state = t.state ∨ ∃ b, step t.state b = .ok t'.state := by
  have here' : (t.state.thread c).pc = .create .execute := here
  unfold scanStep at ok
  split at ok
  · cases ok
    split
    · exact .inl rfl
    · refine .inr ⟨.block, ?_⟩
      simp [step, runs, stepCurrent, here', Pc.inFunction]
  · split at ok <;> cases ok
    · refine .inr ⟨.noStack, ?_⟩
      simp only [step, runs, stepCurrent, here', if_true]
    · exact .inl rfl
    · exact .inl rfl
  · split at ok <;> try contradiction
    cases ok
    exact .inl rfl
  · cases ok
    exact .inl rfl

theorem tableRefines (ok : tableStep t a = .ok t') :
    t'.state = t.state ∨ ∃ b, step t.state b = .ok t'.state := by
  cases a with
  | scan =>
    simp only [tableStep] at ok
    split at ok
    · cases ok
      exact .inl rfl
    · rename_i c runs
      split at ok
      · rename_i here
        exact scanRefines runs here ok
      · cases ok
        exact .inl rfl
  | act b =>
    simp only [tableStep] at ok
    split at ok
    · exact .inr ⟨b, (actRefines ok).1⟩
    · split at ok
      · cases ok
        exact .inl rfl
      · exact .inr ⟨b, (actRefines ok).1⟩

theorem heldThread (pc : t'.pc u = t.pc u) (pid : t'.pid u = t.pid u)
    (initTcb : t'.initTcb u = t.initTcb u) (stackNo : t'.stackNo u = t.stackNo u) :
    t'.held (.thread u) = t.held (.thread u) := by
  simp only [Table.held, pc, pid, initTcb, stackNo]

theorem heldCreator (slot : t'.slot u = t.slot u) (pid : t'.pid u = t.pid u) :
    t'.held (.creator u) = t.held (.creator u) := by
  simp only [Table.held, slot, pid]

theorem creatorNone (unreserved : ∀ n, t.slot u ≠ .reserved n) :
    t.held (.creator u) = none := by
  unfold Table.held
  cases slot : t.slot u with
  | reserved n => exact absurd slot (unreserved n)
  | _ => simp [slot]

theorem scansKeep (scans : Scans t) (pid : ∀ u, t'.slot u ≠ .idle → t'.pid u = t.pid u)
    (lock : t'.pcbLock = t.pcbLock)
    (slots : ∀ u, t'.slot u = t.slot u ∧ (t.slot u ≠ .idle → t'.pc u = t.pc u) ∨
      (t'.slot u).scanning = false ∧ (t'.slot u ≠ .idle → t'.pc u = .create .execute))
    (clear : ∀ u n, t.slot u = .flip n → (t'.userStacks (t.pid u))[n]? = some false) :
    Scans t' := by
  refine ⟨?_, ?_, ?_⟩
  · intro u busy
    rcases slots u with ⟨same, pc⟩ | ⟨_, execute⟩
    · rw [same] at busy
      rw [pc busy]
      exact scans.busy u busy
    · exact execute busy
  · intro u scanning
    rcases slots u with ⟨same, _⟩ | ⟨not, _⟩
    · rw [lock, pid u (fun idle => by rw [idle] at scanning; cases scanning)]
      exact scans.locked u (same ▸ scanning)
    · rw [not] at scanning
      cases scanning
  · intro u n flip
    rcases slots u with ⟨same, _⟩ | ⟨not, _⟩
    · rw [pid u (by rw [flip]; simp)]
      exact clear u n (same ▸ flip)
    · rw [flip] at not
      cases not

theorem scansTurn (scans : Scans t) (pid : ∀ u, t'.pid u = t.pid u)
    (others : ∀ u, u ≠ c → t'.slot u = t.slot u ∧ t'.pc u = t.pc u)
    (free : ∀ u, t.pcbLock (t.pid c) = some u → u = c)
    (elsewhere : ∀ p, p ≠ t.pid c → t'.pcbLock p = t.pcbLock p ∧ t'.userStacks p = t.userStacks p)
    (busy : t'.slot c ≠ .idle → t'.pc c = .create .execute)
    (locked : (t'.slot c).scanning = true → t'.pcbLock (t.pid c) = some c)
    (flips : ∀ n, t'.slot c = .flip n → (t'.userStacks (t.pid c))[n]? = some false) :
    Scans t' := by
  -- whoever else is scanning scans another bitmap
  have apart : ∀ u, u ≠ c → (t.slot u).scanning = true → t.pid u ≠ t.pid c := by
    intro u other scanning same
    exact other (free u (same ▸ scans.locked u scanning))
  refine ⟨?_, ?_, ?_⟩
  · intro u
    by_cases self : u = c
    · subst self; exact busy
    · rw [(others u self).1, (others u self).2]; exact scans.busy u
  · intro u
    rw [pid]
    by_cases self : u = c
    · subst self; exact locked
    · rw [(others u self).1]
      intro scanning
      rw [(elsewhere _ (apart u self scanning)).1]
      exact scans.locked u scanning
  · intro u n
    rw [pid]
    by_cases self : u = c
    · subst self; exact flips n
    · rw [(others u self).1]
      intro flip
      rw [(elsewhere _ (apart u self (by rw [flip]; rfl))).2]
      exact scans.flips u n flip

theorem seatingKeep (seating : Seating t)
    (seated : ∀ u, (t'.pc u).seated = true → (t.pc u).seated = true ∧ t'.pid u = t.pid u)
    (fits : Fits t'.held t'.userStacks)
    (threads : ∀ u x, t'.held (.thread u) = some x → t.held (.thread u) = some x)
    (creators : ∀ u p, t'.held (.creator u) = some (p, 0) → t.held (.creator u) = some (p, 0))
    (length : ∀ p, (t'.userStacks p).length = (t.userStacks p).length)
    (main : ∀ u, (t'.pc u).seated = true →
      (t.userStacks (t.pid u))[0]? = some (decide (t.pc (t.pid u) ≠ .zombie)) →
      (t'.userStacks (t.pid u))[0]? = some (decide (t'.pc (t.pid u) ≠ .zombie))) :
    Seating t' := by
  refine ⟨fits, ?_, ?_, ?_, ?_⟩
  · intro u sits
    rw [(seated u sits).2, length]
    exact seating.size u (seated u sits).1
  · intro h p has
    cases h with
    | thread u => exact seating.zero _ p (threads u _ has)
    | creator u => exact seating.zero _ p (creators u p has)
  · exact fun p n has => seating.first p n (threads p _ has)
  · intro u sits
    rw [(seated u sits).2]
    exact main u sits (seating.main u (seated u sits).1)

theorem seatingSame (seating : Seating t) (held : t'.held = t.held)
    (same : t'.userStacks = t.userStacks) (pid : ∀ u, t'.pid u = t.pid u)
    (pc : ∀ u, (t'.pc u).seated = (t.pc u).seated ∧ (t'.pc u = .zombie ↔ t.pc u = .zombie)) :
    Seating t' := by
  refine seatingKeep seating ?_ ?_ ?_ ?_ ?_ ?_
  · exact fun u sits => ⟨(pc u).1 ▸ sits, pid u⟩
  · rw [held, same]; exact seating.fits
  · exact fun u x has => by rw [held] at has; exact has
  · exact fun u p has => by rw [held] at has; exact has
  · exact fun p => by rw [same]
  · intro u _ bit
    rw [same, bit]
    simp only [ne_eq, (pc (t.pid u)).2]

theorem heldQuiet (pc : ∀ u, (t'.pc u).seat = (t.pc u).seat) (pid : ∀ u, t'.pid u = t.pid u)
    (initTcb : t'.initTcb = t.initTcb) (stackNo : t'.stackNo = t.stackNo)
    (slots : ∀ u, t'.slot u = t.slot u ∨
      (∀ n, t'.slot u ≠ .reserved n) ∧ ∀ n, t.slot u ≠ .reserved n) : t'.held = t.held := by
  funext h
  cases h with
  | thread u => simp only [Table.held, pc, pid, initTcb, stackNo]
  | creator u =>
    rcases slots u with same | ⟨none, none'⟩
    · exact heldCreator same (pid u)
    · rw [creatorNone none, creatorNone none']

theorem slottedCalm (slotted : Slotted t)
    (pid : ∀ u, (s'.thread u).pid = (t.state.thread u).pid)
    (pc : ∀ u, (s'.thread u).pc = (t.state.thread u).pc) :
    Scans {t with state := s'} ∧ Seating {t with state := s'} := by
  refine ⟨scansKeep slotted.toScans (fun u _ => pid u) rfl (fun u => .inl ⟨rfl, fun _ => pc u⟩)
    slotted.flips, seatingSame slotted.toSeating ?_ rfl pid ?_⟩
  · exact heldQuiet (fun u => congrArg Pc.seat (pc u)) pid rfl rfl fun u => .inl rfl
  · intro u
    have same : ({t with state := s'} : Table).pc u = t.pc u := pc u
    rw [same]
    exact ⟨rfl, Iff.rfl⟩

theorem slottedTurn (slotted : Slotted t) (pid : ∀ u, t'.pid u = t.pid u)
    (pcs : ∀ u, u ≠ c → t'.pc u = t.pc u) (here : t.pc c = .create .execute)
    (now : t'.pc c = .create .execute ∨ t'.slot c = .idle ∧ t'.pc c = .create .failed)
    (same : t'.userStacks = t.userStacks ∧ t'.initTcb = t.initTcb ∧ t'.stackNo = t.stackNo)
    (others : ∀ u, u ≠ c → t'.slot u = t.slot u)
    (elsewhere : ∀ p, p ≠ t.pid c → t'.pcbLock p = t.pcbLock p)
    (free : ∀ u, t.pcbLock (t.pid c) = some u → u = c)
    (before : ∀ n, t.slot c ≠ .reserved n) (after : ∀ n, t'.slot c ≠ .reserved n)
    (locked : (t'.slot c).scanning = true → t'.pcbLock (t.pid c) = some c)
    (flips : ∀ n, t'.slot c = .flip n → (t.userStacks (t.pid c))[n]? = some false) :
    Scans t' ∧ Seating t' := by
  obtain ⟨rows, initTcb, stackNo⟩ := same
  have place : (t'.pc c).seat = (t.pc c).seat ∧ (t'.pc c = .zombie ↔ t.pc c = .zombie) := by
    rw [here]
    rcases now with now | ⟨_, now⟩ <;> rw [now] <;> exact ⟨rfl, by simp⟩
  have places : ∀ u, (t'.pc u).seat = (t.pc u).seat ∧ (t'.pc u = .zombie ↔ t.pc u = .zombie) := by
    intro u
    by_cases self : u = c
    · subst self; exact place
    · rw [pcs u self]; exact ⟨rfl, Iff.rfl⟩
  refine ⟨scansTurn slotted.toScans pid ?_ free ?_ ?_ locked ?_,
    seatingSame slotted.toSeating (heldQuiet (fun u => (places u).1) pid initTcb stackNo ?_) rows
      pid ?_⟩
  · exact fun u other => ⟨others u other, pcs u other⟩
  · exact fun p other => ⟨elsewhere p other, by rw [rows]⟩
  · intro busy
    rcases now with now | ⟨idle, _⟩
    · exact now
    · exact absurd idle busy
  · rw [rows]; exact flips
  · intro u
    by_cases self : u = c
    · subst self; exact .inr ⟨after, before⟩
    · exact .inl (others u self)
  · intro u
    unfold Pc.seated
    rw [(places u).1]
    exact ⟨rfl, (places u).2⟩

theorem slottedFlip (slotted : Slotted t) (here : t.pc c = .create .execute)
    (slot : t.slot c = .flip n) (positive : n ≠ 0) :
    Scans (((t.bitmapSet c n true).setLock c none).setSlot c (.reserved n)) ∧
      Seating (((t.bitmapSet c n true).setLock c none).setSlot c (.reserved n)) := by
  have clear := slotted.flips c n slot
  have holds := slotted.locked c (by rw [slot]; rfl)
  have others : ∀ u, u ≠ c → (((t.bitmapSet c n true).setLock c none).setSlot c (.reserved n)).held
      (.creator u) = t.held (.creator u) := fun u other =>
    heldCreator (by simp [Table.setSlot, Table.setLock, Table.bitmapSet, other]) rfl
  refine ⟨scansTurn slotted.toScans (c := c) (fun _ => rfl) ?_ ?_ ?_ (fun _ => here) ?_ ?_,
    seatingKeep slotted.toSeating (fun u sits => ⟨sits, rfl⟩) ?_ ?_ ?_ ?_ ?_⟩
  · intro u other
    refine ⟨?_, rfl⟩
    simp [Table.setSlot, Table.setLock, Table.bitmapSet, other]
  · exact fun u other => Option.some.inj (other.symm.trans holds)
  · intro p other
    have lock : update t.pcbLock (t.pid c) none p = t.pcbLock p := by simp [other]
    exact ⟨lock, update_of_ne other _ _⟩
  · simp [Table.setSlot, Slot.scanning]
  · simp [Table.setSlot]
  · refine fitsTake (i := .creator c) slotted.fits clear ?_ ?_
    · simp [Table.held, Table.setSlot]
      rfl
    · intro h other
      cases h with
      | thread u => rfl
      | creator u =>
        exact others u fun self => other (by rw [self])
  · exact fun u x has => has
  · intro u p has
    by_cases self : u = c
    · subst self
      simp [Table.held, Table.setSlot] at has
      exact absurd has.2 positive
    · rw [← others u self]
      exact has
  · intro p
    exact lengthWrite
  · intro u _ bit
    refine (writeElsewhere ?_).trans bit
    simp [positive.symm]

theorem scanSlotted (slotted : Slotted t) (here : t.pc c = .create .execute)
    (ok : scanStep t c (t.slot c) = .ok t') : Scans t' ∧ Seating t' := by
  have mine : (t.slot c).scanning = true → ∀ u, t.pcbLock (t.pid c) = some u → u = c :=
    fun scanning u holds => Option.some.inj (holds.symm.trans (slotted.locked c scanning))
  cases slot : t.slot c with
  | idle =>
    rw [slot] at ok
    cases ok
    split
    · rename_i free
      refine slottedTurn slotted (c := c) (fun _ => rfl) (fun _ _ => rfl) here (.inl here)
        ⟨rfl, rfl, rfl⟩ ?_ ?_ ?_ (by simp [slot]) ?_ ?_ ?_
      · intro u other
        simp [Table.setSlot, Table.setLock, other]
      · intro p other
        simp [Table.setSlot, Table.setLock, other]
      · rw [free]; simp
      · simp [Table.setSlot]
      · simp [Table.setSlot, Table.setLock]
      · simp [Table.setSlot]
    · have still : Still c t.state (sleep t.state c) :=
        sleepStill here rfl
      exact slottedCalm slotted still.pid still.pc
  | scan i =>
    rw [slot] at ok
    have holds := slotted.locked c (by rw [slot]; rfl)
    have free := mine (by rw [slot]; rfl)
    simp only [scanStep] at ok
    split at ok <;> cases ok
    · refine slottedTurn slotted (c := c) ?_ ?_ here (.inr ?_) ⟨rfl, rfl, rfl⟩ ?_ ?_ free
        (by simp [slot]) ?_ ?_ ?_
      · intro u
        by_cases self : u = c <;> simp [Table.pid, self]
      · intro u other
        simp [Table.pc, other]
      · simp [Table.setSlot, Table.pc]
      · intro u other
        simp [Table.setSlot, Table.setLock, other]
      · intro p other
        simp [Table.setSlot, Table.setLock, other]
      · simp [Table.setSlot]
      · simp [Table.setSlot, Slot.scanning]
      · simp [Table.setSlot]
    · refine slottedTurn slotted (c := c) (fun _ => rfl) (fun _ _ => rfl) here (.inl here)
        ⟨rfl, rfl, rfl⟩ ?_ (fun _ _ => rfl) free (by simp [slot]) ?_ (fun _ => holds) ?_
      · intro u other
        simp [Table.setSlot, other]
      all_goals simp [Table.setSlot]
    · rename_i clear
      refine slottedTurn slotted (c := c) (fun _ => rfl) (fun _ _ => rfl) here (.inl here)
        ⟨rfl, rfl, rfl⟩ ?_ (fun _ _ => rfl) free (by simp [slot]) ?_ (fun _ => holds) ?_
      · intro u other
        simp [Table.setSlot, other]
      · simp [Table.setSlot]
      · simpa [Table.setSlot] using clear
  | flip n =>
    rw [slot] at ok
    simp only [scanStep] at ok
    split at ok <;> try contradiction
    rename_i positive
    cases ok
    exact slottedFlip slotted here slot positive
  | reserved n =>
    rw [slot] at ok
    cases ok
    exact ⟨slotted.toScans, slotted.toSeating⟩

theorem seatedKnown (slotted : Slotted t) (sits : (t.pc u).seated = true) :
    u < t.state.created := by
  by_contra late
  have gone : t.pc u = .gone := slotted.base.fresh u (Nat.le_of_not_lt late)
  rw [gone] at sits
  cases sits

theorem unbornIdle (slotted : Slotted t) : t.slot t.state.created = .idle := by
  by_contra busy
  refine absurd (seatedKnown slotted (u := t.state.created) ?_) (Nat.lt_irrefl _)
  rw [slotted.busy _ busy]
  rfl

structure Moved (c : Tid) (t t' : Table) : Prop where
  pid : ∀ u, t'.pid u = t.pid u
  pc : ∀ u, u ≠ c → t'.pc u = t.pc u
  initTcb : t'.initTcb = t.initTcb
  stackNo : ∀ u, u ≠ c → t'.stackNo u = t.stackNo u
  slot : ∀ u, u ≠ c → t'.slot u = t.slot u
  lock : t'.pcbLock = t.pcbLock

theorem movedThread (moved : Moved c t t') (other : u ≠ c) :
    t'.held (.thread u) = t.held (.thread u) :=
  heldThread (moved.pc u other) (moved.pid u) (congrFun moved.initTcb u) (moved.stackNo u other)

theorem movedOthers (moved : Moved c t t') (h : Holder) (other : h ≠ .thread c)
    (other' : h ≠ .creator c) : t'.held h = t.held h := by
  cases h with
  | thread u => exact movedThread moved fun self => other (by rw [self])
  | creator u => exact heldCreator (moved.slot u fun self => other' (by rw [self])) (moved.pid u)

theorem slottedKeeps (slotted : Slotted t) (moved : Moved c t t')
    (rows : t'.userStacks = t.userStacks) (slot : t'.slot c = t.slot c)
    (less : ∀ x, t'.held (.thread c) = some x → t.held (.thread c) = some x)
    (seated : (t'.pc c).seated = true → (t.pc c).seated = true)
    (zombie : t'.pc c ≠ .zombie) (zombie' : t.pc c ≠ .zombie) (idle : t.pc c ≠ .create .execute) :
    Scans t' ∧ Seating t' := by
  have creators : ∀ u, t'.held (.creator u) = t.held (.creator u) := by
    intro u
    by_cases self : u = c
    · subst self; exact heldCreator slot (moved.pid u)
    · exact heldCreator (moved.slot u self) (moved.pid u)
  have threads : ∀ u x, t'.held (.thread u) = some x → t.held (.thread u) = some x := by
    intro u x has
    by_cases self : u = c
    · subst self; exact less x has
    · rw [← movedThread moved self]; exact has
  refine ⟨scansKeep slotted.toScans (fun u _ => moved.pid u) moved.lock ?_ ?_,
    seatingKeep slotted.toSeating ?_ ?_ threads ?_ (fun p => by rw [rows]) ?_⟩
  · intro u
    by_cases self : u = c
    · subst self
      exact .inl ⟨slot, fun busy => absurd (slotted.busy u busy) idle⟩
    · exact .inl ⟨moved.slot u self, fun _ => moved.pc u self⟩
  · rw [rows]; exact slotted.flips
  · intro u sits
    refine ⟨?_, moved.pid u⟩
    by_cases self : u = c
    · subst self; exact seated sits
    · exact moved.pc u self ▸ sits
  · rw [rows]
    refine fitsForget slotted.fits ?_
    intro h x has
    cases h with
    | thread u => exact threads u x has
    | creator u => rw [← creators]; exact has
  · exact fun u p has => by rw [← creators]; exact has
  · intro u _ bit
    rw [rows, bit]
    by_cases self : t.pid u = c
    · rw [self]; simp [zombie, zombie']
    · rw [moved.pc _ self]

theorem slottedClears (slotted : Slotted t) (moved : Moved c t t')
    (rows : t'.userStacks = write t.userStacks (t.pid c) n false) (had : t.held h = some (t.pid c, n))
    (lost : t'.held h = none)
    (others : ∀ k, k ≠ h → t'.held k = t.held k)
    (seated : (t'.pc c).seated = true → (t.pc c).seated = true)
    (slots : (t'.slot c).scanning = false ∧ (t'.slot c ≠ .idle → t'.pc c = .create .execute))
    (zombie : h = .thread c ∧ t'.pc c = .zombie ∨
      h = .creator c ∧ t'.pc c ≠ .zombie ∧ t.pc c ≠ .zombie) : Scans t' ∧ Seating t' := by
  have less : ∀ k x, t'.held k = some x → t.held k = some x := by
    intro k x has
    rw [← others k fun same => by rw [same, lost] at has; cases has]
    exact has
  have before : ∀ u, (t'.pc u).seated = true → (t.pc u).seated = true := by
    intro u sits
    by_cases self : u = c
    · subst self; exact seated sits
    · exact moved.pc u self ▸ sits
  refine ⟨scansKeep slotted.toScans (fun u _ => moved.pid u) moved.lock ?_ ?_,
    seatingKeep slotted.toSeating ?_ ?_ (fun u => less (.thread u)) (fun u p => less (.creator u) _)
      ?_ ?_⟩
  · intro u
    by_cases self : u = c
    · subst self; exact .inr slots
    · exact .inl ⟨moved.slot u self, fun _ => moved.pc u self⟩
  · intro u m flip
    rw [rows]
    exact writeClear (slotted.flips u m flip)
  · exact fun u sits => ⟨before u sits, moved.pid u⟩
  · rw [rows]
    exact fitsDrop slotted.fits had lost others
  · intro p
    rw [rows]
    exact lengthWrite
  · intro u sits bit
    rw [rows]
    by_cases here : (t.pid u, 0) = (t.pid c, n)
    · -- slot 0 is the main thread's, and that is who ends
      obtain ⟨same, rfl⟩ := Prod.mk.inj here
      have main := slotted.zero h _ had
      rcases zombie with ⟨thread, zombie⟩ | ⟨creator, _⟩
      · have self : c = t.pid c := Holder.thread.inj (thread.symm.trans main)
        have inside := (List.getElem?_eq_some_iff.mp bit).1
        rw [same] at inside
        rw [same, writeHere inside, ← self, zombie]
        rfl
      · rw [creator] at main
        cases main
    · rw [writeElsewhere here, bit]
      by_cases self : t.pid u = c
      · rcases zombie with ⟨thread, zombie⟩ | ⟨_, zombie, zombie'⟩
        · -- the main thread holds no other slot
          have home : t.pid (t.pid u) = t.pid u :=
            slotted.mains.home u (seatedKnown slotted (before u sits))
          rw [self] at home
          rw [thread, home] at had
          rw [slotted.first c n had, self, home] at here
          exact absurd rfl here
        · rw [self]; simp [zombie, zombie']
      · rw [moved.pc _ self]

theorem heldSeated {p : Pid} (scans : Scans t)
    (has : t.held h = some (p, n)) : ∃ u, (t.pc u).seated = true ∧ t.pid u = p := by
  cases h with
  | thread u =>
    unfold Table.held at has
    simp only at has
    split at has
    · cases has
    all_goals
      rename_i seat
      exact ⟨u, by rw [Pc.seated, seat]; rfl, (Prod.mk.inj (Option.some.inj has)).1⟩
  | creator u =>
    unfold Table.held at has
    simp only at has
    split at has
    · rename_i m reserved
      refine ⟨u, ?_, (Prod.mk.inj (Option.some.inj has)).1⟩
      rw [scans.busy u (by rw [reserved]; simp)]
      rfl
    · cases has

theorem slottedLoads (slotted : Slotted t) (moved : Moved c t t') (old : t.pc c = .load (.up true))
    (new : t'.pc c = .user) (slot : t'.slot c = t.slot c) (stackNo : t'.stackNo c = 0)
    (rows : t'.userStacks =
      update t.userStacks (t.pid c) (true :: List.replicate (maxThreads - 1) false)) :
    Scans t' ∧ Seating t' := by
  have known : c < t.state.created := aliveKnown slotted.base (by
    rw [show (t.state.thread c).pc = _ from old]; rfl)
  have loads : (t.state.thread c).pc.loading = true := by
    rw [show (t.state.thread c).pc = _ from old]; rfl
  have main : t.pid c = c :=
    (slotted.mains.main c known).symm.trans (slotted.base.loading c loads)
  have alone : ∀ u, (t.pc u).seated = true → t.pid u ≠ t.pid c := by
    intro u sits same
    have self := slotted.mains.alone c u loads (seatedKnown slotted sits) same
    rw [self, old] at sits
    cases sits
  have idle : ∀ u, t.slot u ≠ .idle → u ≠ c ∧ t.pid u ≠ t.pid c := by
    intro u busy
    have execute := slotted.busy u busy
    refine ⟨fun self => ?_, alone u (by rw [execute]; rfl)⟩
    rw [self, old] at execute
    cases execute
  have creators : ∀ u, t'.held (.creator u) = t.held (.creator u) := by
    intro u
    by_cases self : u = c
    · subst self; exact heldCreator slot (moved.pid u)
    · exact heldCreator (moved.slot u self) (moved.pid u)
  have unheld : ∀ h n, t.held h ≠ some (t.pid c, n) := by
    intro h n has
    obtain ⟨u, sits, same⟩ := heldSeated slotted.toScans has
    exact alone u sits same
  have own : t'.held (.thread c) = some (t.pid c, 0) := by
    simp only [Table.held, new, Pc.seat, moved.pid, stackNo]
  have others : ∀ h, h ≠ .thread c → t'.held h = t.held h := by
    intro h other
    cases h with
    | thread u => exact movedThread moved fun self => other (by rw [self])
    | creator u => exact creators u
  have elsewhere : ∀ p, p ≠ t.pid c → t'.userStacks p = t.userStacks p := fun p other => by
    rw [rows, update_of_ne other]
  have here : t'.userStacks (t.pid c) = true :: List.replicate (maxThreads - 1) false := by
    rw [rows, update_self]
  refine ⟨scansKeep slotted.toScans (fun u _ => moved.pid u) moved.lock ?_ ?_, ?_, ?_, ?_, ?_, ?_⟩
  · intro u
    by_cases self : u = c
    · subst self
      exact .inl ⟨slot, fun busy => absurd rfl (idle u busy).1⟩
    · exact .inl ⟨moved.slot u self, fun _ => moved.pc u self⟩
  · intro u n flip
    rw [elsewhere _ (idle u (by rw [flip]; simp)).2]
    exact slotted.flips u n flip
  · rw [rows]
    exact fitsRenew slotted.fits unheld rfl own others
  · intro u sits
    rw [moved.pid]
    by_cases self : u = c
    · rw [self, here]; rfl
    · rw [moved.pc u self] at sits
      rw [elsewhere _ (alone u sits)]
      exact slotted.size u sits
  · intro h p has
    by_cases self : h = .thread c
    · rw [self, own, main] at has
      rw [self, (Prod.mk.inj (Option.some.inj has)).1]
    · exact slotted.zero h p (others h self ▸ has)
  · intro p n has
    by_cases self : p = c
    · rw [self, own] at has
      exact (Prod.mk.inj (Option.some.inj has)).2.symm
    · exact slotted.first p n (others (.thread p) (fun same => self (Holder.thread.inj same)) ▸ has)
  · intro u sits
    rw [moved.pid]
    by_cases self : u = c
    · rw [self, here, main, new]
      rfl
    · rw [moved.pc u self] at sits
      have apart := alone u sits
      rw [elsewhere _ apart, moved.pc _ (main ▸ apart)]
      exact slotted.main u sits

theorem slottedCreates (slotted : Slotted t) (creates : Creates c t.state s')
    (reserved : t.slot c = .reserved n)
    (now : t' = {t with
      state := s'
      slot := update t.slot c .idle
      initTcb := update t.initTcb t.state.created n
      stackNo := update t.stackNo t.state.created (2 ^ 32 - 1)}) :
    Scans t' ∧ Seating t' := by
  have old : t.pc c = .create .execute := creates.old
  have known : c < t.state.created := aliveKnown slotted.base (by rw [creates.old]; rfl)
  have apart : c ≠ t.state.created := Nat.ne_of_lt known
  have pc : ∀ u, u ≠ c → u ≠ t.state.created → t'.pc u = t.pc u := fun u other older => by
    simp only [now, Table.pc, creates.others u other older]
  have pid : ∀ u, u ≠ t.state.created → t'.pid u = t.pid u := by
    intro u older
    by_cases self : u = c
    · simp only [now, Table.pid, self, creates.own]
    · simp only [now, Table.pid, creates.others u self older]
  have own : t'.pc c = .create (.wait (some t.state.created)) := by
    simp only [now, Table.pc, creates.own]
  have new : t'.pc t.state.created = .start .setup ∧ t'.pid t.state.created = t.pid c := by
    simp only [now, Table.pc, Table.pid, creates.new]
    exact ⟨rfl, rfl⟩
  have youngest : t'.held (.thread t.state.created) = some (t.pid c, n) := by
    simp only [Table.held, new.1, Pc.seat, new.2]
    simp [now]
  have gave : t'.held (.creator c) = none := creatorNone (by simp [now])
  have had : t.held (.creator c) = some (t.pid c, n) := by simp [Table.held, reserved]
  have unborn : t.slot t.state.created = .idle := unbornIdle slotted
  have slots : ∀ u, u ≠ c → t'.slot u = t.slot u := fun u other => by simp [now, other]
  have others : ∀ h, h ≠ .creator c → h ≠ .thread t.state.created → t'.held h = t.held h := by
    intro h other older
    cases h with
    | thread u =>
      have older' : u ≠ t.state.created := fun same => older (by rw [same])
      have seat : (t'.pc u).seat = (t.pc u).seat := by
        by_cases self : u = c
        · rw [self, own, old]; rfl
        · rw [pc u self older']
      simp only [Table.held, seat, pid u older']
      simp [now, older']
    | creator u =>
      have other' : u ≠ c := fun self => other (by rw [self])
      by_cases same : u = t.state.created
      · rw [same, creatorNone (by simp [slots _ apart.symm, unborn]),
          creatorNone (by simp [unborn])]
      · exact heldCreator (slots u other') (pid u same)
  have zombies : ∀ u, u ≠ t.state.created → (t'.pc u = .zombie ↔ t.pc u = .zombie) := by
    intro u older
    by_cases self : u = c
    · rw [self, own, old]; simp
    · rw [pc u self older]
  have before : ∀ u, (t'.pc u).seated = true → ∃ v, (t.pc v).seated = true ∧
      t'.pid u = t.pid v := by
    intro u sits
    by_cases same : u = t.state.created
    · exact ⟨c, by rw [old]; rfl, by rw [same, new.2]⟩
    · refine ⟨u, ?_, pid u same⟩
      by_cases self : u = c
      · rw [self, old]; rfl
      · rw [← pc u self same]; exact sits
  have rows : t'.userStacks = t.userStacks := by rw [now]
  refine ⟨scansKeep slotted.toScans ?_ (by rw [now]) ?_ (by rw [rows]; exact slotted.flips),
    ?_, ?_, ?_, ?_, ?_⟩
  · intro u busy
    refine pid u fun same => ?_
    rw [same, slots _ apart.symm, unborn] at busy
    exact busy rfl
  · intro u
    by_cases self : u = c
    · refine .inr ?_
      simp [now, self, Slot.scanning]
    · refine .inl ⟨slots u self, fun busy => pc u self fun same => ?_⟩
      rw [same, unborn] at busy
      exact busy rfl
  · rw [rows]
    exact fitsPass slotted.fits had gave youngest others
  · intro u sits
    obtain ⟨v, sits', same⟩ := before u sits
    rw [rows, same]
    exact slotted.size v sits'
  · intro h p has
    by_cases creator : h = .creator c
    · rw [creator, gave] at has
      cases has
    by_cases thread : h = .thread t.state.created
    · -- the creator has not had slot 0
      rw [thread, youngest] at has
      cases slotted.zero (.creator c) p (had.trans has)
    · exact slotted.zero h p (others h creator thread ▸ has)
  · intro p m has
    by_cases thread : p = t.state.created
    · rw [thread, youngest] at has
      exact absurd (Prod.mk.inj (Option.some.inj has)).1
        (Nat.ne_of_lt (slotted.base.pid c known))
    · refine slotted.first p m (others (.thread p) (by simp) ?_ ▸ has)
      exact fun same => thread (Holder.thread.inj same)
  · intro u sits
    obtain ⟨v, sits', same⟩ := before u sits
    have main := slotted.main v sits'
    rw [rows, same, main]
    have older : t.pid v ≠ t.state.created :=
      Nat.ne_of_lt (slotted.base.pid v (seatedKnown slotted sits'))
    simp only [ne_eq, zombies _ older]

theorem slottedLaunches (slotted : Slotted t) (launches : Launches t.state s') :
    Scans {t with state := s'} ∧ Seating {t with state := s'} := by
  have new : (s'.thread t.state.created).pc.seat = .nowhere := by rw [launches.new]; rfl
  have same : ∀ u, u ≠ t.state.created → s'.thread u = t.state.thread u := launches.others
  have unborn : (t.state.thread t.state.created).pc.seat = .nowhere := by
    rw [slotted.base.fresh _ (Nat.le_refl _)]; rfl
  have held : ({t with state := s'} : Table).held = t.held := by
    funext h
    cases h with
    | thread u =>
      by_cases older : u = t.state.created
      · simp only [Table.held, Table.pc, older, new, unborn]
      · simp only [Table.held, Table.pc, Table.pid, same u older]
    | creator u =>
      by_cases older : u = t.state.created
      · rw [older, creatorNone (t := {t with state := s'}) (by simp [unbornIdle slotted]),
          creatorNone (by simp [unbornIdle slotted])]
      · exact heldCreator rfl (by simp only [Table.pid, same u older])
  have seated : ∀ u, (s'.thread u).pc.seated = true → (t.pc u).seated = true ∧
      u ≠ t.state.created := by
    intro u sits
    have older : u ≠ t.state.created := fun young => by
      rw [young, Pc.seated, new] at sits
      cases sits
    rw [same u older] at sits
    exact ⟨sits, older⟩
  refine ⟨scansKeep slotted.toScans ?_ rfl ?_ slotted.flips,
    seatingKeep slotted.toSeating ?_ ?_ ?_ ?_ (fun _ => rfl) ?_⟩
  · intro u busy
    simp only [Table.pid]
    rw [same u fun young => busy (by rw [young]; exact unbornIdle slotted)]
  · intro u
    refine .inl ⟨rfl, fun busy => ?_⟩
    simp only [Table.pc]
    rw [same u fun young => busy (by rw [young]; exact unbornIdle slotted)]
  · intro u sits
    obtain ⟨before, older⟩ := seated u sits
    exact ⟨before, by simp only [Table.pid, same u older]⟩
  · rw [held]; exact slotted.fits
  · exact fun u x has => by rw [held] at has; exact has
  · exact fun u p has => by rw [held] at has; exact has
  · intro u sits bit
    have older := Nat.ne_of_lt (slotted.base.pid u (seatedKnown slotted (seated u sits).1))
    have main : ({t with state := s'} : Table).pc (t.pid u) = t.pc (t.pid u) :=
      congrArg Thread.pc (same _ older)
    rw [bit, main]

theorem executeMoves {s s' : State} {a : Action} (base : Base s) (runs : s.current = some c)
    (old : (s.thread c).pc = .create .execute) (ok : step s a = .ok s')
    (moved : (s'.thread c).pc ≠ .create .execute) : a = .run ∨ a = .starve ∨ a = .noStack := by
  have known : c < s.created := aliveKnown base (by rw [old]; rfl)
  unfold step at ok
  split at ok
  · exact absurd (((wakeStill (c := c) ok).pc c).trans old) moved
  · split at ok
    · exact absurd (((dispatchStill (c := c) ok).pc c).trans old) moved
    · cases ok
      exact absurd old moved
  · cases ok
    rw [(launchLaunches s).others c (Nat.ne_of_lt known)] at moved
    exact absurd old moved
  · rw [runs] at ok
    simp only at ok
    by_cases quiet : a.quiet = true
    · exact absurd (((quietStill quiet ok).pc c).trans old) moved
    · cases a with
      | run => exact .inl rfl
      | starve => exact .inr (.inl rfl)
      | noStack => exact .inr (.inr rfl)
      | call k | fault =>
        cases ok
        exact absurd (by simp [old, pageFault]) moved
      | _ => exact absurd rfl quiet

theorem executeReserved (slotted : Slotted t)
    (runs : t.state.current = some c) (old : t.pc c = .create .execute)
    (ready : waitsFor (t.slot c) b = false) (ok : step t.state b = .ok s')
    (moved : (s'.thread c).pc ≠ .create .execute) :
    (b = .run ∨ b = .starve) ∧ ∃ n, t.slot c = .reserved n := by
  rcases executeMoves slotted.base runs old ok moved with rfl | rfl | rfl <;>
    cases slot : t.slot c <;> simp [slot, waitsFor] at ready ⊢

theorem executeNeverFails (slotted : Slotted t) (runs : t.state.current = some c)
    (ready : waitsFor (t.slot c) b = false) (ok : step t.state b = .ok s')
    (current : stepCurrent t.state c b = .ok s') (before : (t.state.thread c).pc = .create .execute) :
    (s'.thread c).pc ≠ .create .failed := by
  intro after
  obtain ⟨run | starve, _⟩ := executeReserved slotted runs before ready ok (by rw [after]; simp)
  · rw [run] at current
    simp only [stepCurrent, before, runPc] at current
    split at current <;> cases current
    · simp [pthreadExecute] at after
    · rw [before] at after
      cases after
  · rw [starve] at current
    simp only [stepCurrent, before, starvePc] at current
    cases current
    simp at after

section Notes
variable (slotted : Slotted t) (acts : Acts c t.state s')
include slotted acts

theorem slottedLoaded (before : t.pc c = .load (.up true)) (after : (s'.thread c).pc = .user)
    (now : t' = note {t with state := s'} c (.load (.up true)) .user) :
    Scans t' ∧ Seating t' := by
  refine slottedLoads slotted (c := c) ?_ before ?_ ?_ ?_ ?_
  · rw [now]
    exact ⟨acts.pid, acts.pc, rfl, fun u other => update_of_ne other 0 _, fun _ _ => rfl, rfl⟩
  · rw [now]; exact after
  · rw [now]; rfl
  · rw [now]; exact update_self ..
  · rw [now]
    simp only [note, Table.pid, acts.pid]

theorem slottedStarved (reserved : t.slot c = .reserved n) (before : t.pc c = .create .execute)
    (after : (s'.thread c).pc = .create (.wait none))
    (now : t' = note {t with state := s'} c (.create .execute) (.create (.wait none))) :
    Scans t' ∧ Seating t' := by
  simp only [note, reserved] at now
  have slot : t'.slot c = .idle := by rw [now]; exact update_self ..
  have new : t'.pc c = .create (.wait none) := by rw [now]; exact after
  have moved : Moved c t t' := by
    rw [now]
    exact ⟨acts.pid, acts.pc, rfl, fun _ _ => rfl, fun u other => update_of_ne other _ _, rfl⟩
  refine slottedClears slotted (n := n) (h := .creator c) moved ?_ ?_ ?_ ?_ ?_ ?_ (.inr ?_)
  · rw [now]
    simp only [Table.setSlot, Table.bitmapSet, Table.pid, acts.pid]
  · simp [Table.held, reserved]
  · exact creatorNone (by simp [slot])
  · intro k other
    by_cases self : k = .thread c
    · subst self
      simp only [Table.held, new, before, Pc.seat, moved.pid]
      rw [now]
      rfl
    · exact movedOthers moved k self other
  · intro _
    rw [before]; rfl
  · rw [slot]
    exact ⟨rfl, fun busy => absurd rfl busy⟩
  · rw [new, before]; simp

theorem slottedSet {stage : Start} (before : t.pc c = .start .setup)
    (after : (s'.thread c).pc = .start stage) (other : stage ≠ .setup)
    (now : t' = note {t with state := s'} c (.start .setup) (.start stage)) :
    Scans t' ∧ Seating t' := by
  have set : t' = {t with state := s', stackNo := update t.stackNo c (t.initTcb c)} := by
    rw [now]
    cases stage with
    | setup => exact absurd rfl other
    | _ => rfl
  have new : t'.pc c = .start stage := by rw [set]; exact after
  have moved : Moved c t t' := by
    rw [set]
    exact ⟨acts.pid, acts.pc, rfl, fun u other => update_of_ne other _ _, fun _ _ => rfl, rfl⟩
  have seat : (t'.pc c).seat = .own := by
    rw [new]
    cases stage with
    | setup => exact absurd rfl other
    | _ => rfl
  refine slottedKeeps slotted moved (by rw [set]) (by rw [set]) ?_ (fun _ => by rw [before]; rfl)
    (by rw [new]; simp) (by rw [before]; simp) (by rw [before]; simp)
  intro x has
  simp only [Table.held, seat, moved.pid] at has
  simp only [Table.held, before, Pc.seat]
  rw [set] at has
  simpa using has

theorem slottedEnded (before : t.pc c = .pthreadExit) (after : (s'.thread c).pc = .zombie)
    (now : t' = note {t with state := s'} c .pthreadExit .zombie) : Scans t' ∧ Seating t' := by
  have new : t'.pc c = .zombie := by rw [now]; exact after
  have moved : Moved c t t' := by
    rw [now]
    exact ⟨acts.pid, acts.pc, rfl, fun _ _ => rfl, fun _ _ => rfl, rfl⟩
  have slot : t'.slot c = t.slot c := by rw [now]; rfl
  have idle : t.slot c = .idle := by
    by_contra busy
    have execute := slotted.busy c busy
    rw [before] at execute
    cases execute
  refine slottedClears slotted (n := t.stackNo c) (h := .thread c) moved ?_ ?_ ?_ ?_ ?_ ?_
    (.inl ⟨rfl, new⟩)
  · rw [now]
    simp only [note, Table.bitmapSet, Table.pid, acts.pid]
  · simp only [Table.held, before, Pc.seat]
  · simp only [Table.held, new, Pc.seat]
  · intro k other
    by_cases self : k = .creator c
    · subst self; exact heldCreator slot (moved.pid c)
    · exact movedOthers moved k other self
  · rw [new]
    exact fun sits => by cases sits
  · rw [slot, idle]
    exact ⟨rfl, fun busy => absurd rfl busy⟩

theorem slottedKept
    (seat : (s'.thread c).pc.seat = (t.pc c).seat ∨ (s'.thread c).pc.seat = .nowhere)
    (zombie : (s'.thread c).pc ≠ .zombie) (alive : t.pc c ≠ .zombie)
    (idle : t.pc c ≠ .create .execute) (now : t' = {t with state := s'}) :
    Scans t' ∧ Seating t' := by
  have moved : Moved c t t' := by
    rw [now]
    exact ⟨acts.pid, acts.pc, rfl, fun _ _ => rfl, fun _ _ => rfl, rfl⟩
  have new : t'.pc c = (s'.thread c).pc := by rw [now]; rfl
  rw [← new] at seat zombie
  refine slottedKeeps slotted moved (by rw [now]) (by rw [now]) ?_ ?_ zombie alive idle
  · intro x has
    rcases seat with same | nowhere
    · simp only [Table.held, same, moved.pid] at has ⊢
      rw [now] at has
      exact has
    · simp only [Table.held, nowhere] at has
      cases has
  · intro sits
    unfold Pc.seated at sits ⊢
    rcases seat with same | nowhere
    · exact same ▸ sits
    · rw [nowhere] at sits; cases sits

theorem slottedActs (runs : t.state.current = some c)
    (ready : t.pc c = .create .execute → waitsFor (t.slot c) b = false)
    (ok : step t.state b = .ok s') (current : stepCurrent t.state c b = .ok s')
    (edge : Edge c t.state s')
    (now : t' = note {t with state := s'} c (t.pc c) (s'.thread c).pc) :
    Scans t' ∧ Seating t' := by
  have alive : t.pc c ≠ .zombie := fun zombie => by
    have alive := jumpAlive (edgeJumps edge)
    rw [show (t.state.thread c).pc = _ from zombie] at alive
    cases alive
  have seats : Seats (t.pc c) (s'.thread c).pc := jumpSeats (edgeJumps edge)
  cases seats with
  | loads before after => exact slottedLoaded slotted acts before after (before ▸ after ▸ now)
  | starves before after =>
    obtain ⟨_, n, reserved⟩ := executeReserved slotted runs before (ready before) ok
      (by rw [after]; simp)
    exact slottedStarved slotted acts reserved before after (before ▸ after ▸ now)
  | fails before after =>
    exact absurd after (executeNeverFails slotted runs (ready before) ok current before)
  | sets before after other =>
    exact slottedSet slotted acts before after other (before ▸ after ▸ now)
  | ends before after => exact slottedEnded slotted acts before after (before ▸ after ▸ now)
  | keeps seat zombie idle same =>
    exact slottedKept slotted acts seat zombie alive idle (now.trans (same _ c))

end Notes

theorem actSlotted (slotted : Slotted t)
    (ready : ∀ c, t.state.current = some c → t.pc c = .create .execute →
      waitsFor (t.slot c) b = false)
    (ok : actStep t b = .ok t') : Scans t' ∧ Seating t' := by
  obtain ⟨moves, noted⟩ := actRefines ok
  have same : (∀ c, t.state.current = some c → t'.pc c = t.pc c ∨ t.pc c = .gone) →
      t' = {t with state := t'.state} := by
    intro same
    rcases noted with ⟨_, now⟩ | ⟨c, runs, now⟩
    · exact now
    · rcases same c runs with pc | gone
      · rw [pc, noteSame] at now
        exact now
      · rw [gone] at now
        exact now
  cases stepStepped moves with
  | still still =>
    rw [same fun c runs => .inl (still.pc c)]
    exact slottedCalm slotted still.pid still.pc
  | @acts c runs current acts edge =>
    rcases noted with ⟨idle, _⟩ | ⟨c', runs', now⟩
    · rw [runs] at idle; cases idle
    · cases Option.some.inj (runs.symm.trans runs')
      exact slottedActs slotted acts runs (ready c runs) moves current edge now
  | @creates c runs old now =>
    have known : c < t.state.created := aliveKnown slotted.base (by rw [old]; rfl)
    have creates := creation slotted.base old now
    have new : t'.pc c = .create (.wait (some t.state.created)) := by
      simp only [Table.pc, creates.own]
    obtain ⟨_, n, reserved⟩ := executeReserved slotted runs old (ready c runs old) moves
      (by rw [show (t'.state.thread c).pc = _ from new]; simp)
    rcases noted with ⟨idle, _⟩ | ⟨c', runs', noted⟩
    · rw [runs] at idle; cases idle
    · cases Option.some.inj (runs.symm.trans runs')
      refine slottedCreates slotted creates reserved ?_
      rw [show t.pc c = _ from old, new] at noted
      simp only [note, reserved] at noted
      exact noted
  | launches launch now =>
    have launches := launched now
    rw [same fun c runs => ?_]
    · exact slottedLaunches slotted launches
    · by_cases young : c = t.state.created
      · refine .inr ?_
        rw [young]
        exact slotted.base.fresh _ (Nat.le_refl _)
      · refine .inl ?_
        simp only [Table.pc, launches.others c young]

theorem slottedStep (slotted : Slotted t) (ok : tableStep t a = .ok t') : Slotted t' := by
  have below : Base t'.state ∧ Mains t'.state := by
    rcases tableRefines ok with same | ⟨b, moves⟩
    · rw [same]; exact ⟨slotted.base, slotted.mains⟩
    · exact ⟨baseStep slotted.base moves, mainsStep slotted.base slotted.mains moves⟩
  have above : Scans t' ∧ Seating t' := by
    cases a with
    | scan =>
      simp only [tableStep] at ok
      split at ok
      · cases ok
        exact ⟨slotted.toScans, slotted.toSeating⟩
      · split at ok
        · rename_i here
          exact scanSlotted slotted here ok
        · cases ok
          exact ⟨slotted.toScans, slotted.toSeating⟩
    | act b =>
      simp only [tableStep] at ok
      split at ok
      · rename_i idle
        exact actSlotted slotted (fun c runs => by rw [idle] at runs; cases runs) ok
      · rename_i c runs
        split at ok
        · cases ok
          exact ⟨slotted.toScans, slotted.toSeating⟩
        · rename_i ready
          refine actSlotted slotted (fun c' runs' here => ?_) ok
          cases Option.some.inj (runs.symm.trans runs')
          exact Bool.not_eq_true _ ▸ fun waits => ready ⟨here, waits⟩
  exact ⟨above.1, above.2, below.1, below.2⟩

theorem slottedBoot : Slotted tableBoot := by
  have unheld : ∀ h, tableBoot.held h = none := by
    intro h
    cases h <;> rfl
  refine ⟨⟨?_, ?_, ?_⟩, ⟨⟨?_, ?_⟩, ?_, ?_, ?_, ?_⟩, baseBoot, mainsBoot⟩
  · exact fun u busy => absurd rfl busy
  · exact fun u scanning => by cases scanning
  · exact fun u n flip => by cases flip
  · exact fun h p n has => by rw [unheld] at has; cases has
  · exact fun h k x has => by rw [unheld] at has; cases has
  · exact fun u sits => by cases sits
  · exact fun h p has => by rw [unheld] at has; cases has
  · exact fun p n has => by rw [unheld] at has; cases has
  · exact fun u sits => by cases sits

theorem runSlotted {may : Table → TableAction → Prop} (run : Run tableStep may tableBoot t) :
    Slotted t :=
  run.invariant Slotted slottedBoot fun _ _ _ slotted _ ok => slottedStep slotted ok

theorem stackNoStops (stops : tableStep t a = .error .stackNo) :
    ∃ c, t.state.current = some c ∧ t.pc c = .create .execute ∧ t.slot c = .flip 0 := by
  have acts : ∀ b, actStep t b ≠ .error .stackNo := by
    intro b stops
    unfold actStep at stops
    split at stops
    · cases stops
    · split at stops <;> cases stops
  cases a with
  | act b =>
    simp only [tableStep] at stops
    split at stops
    · exact absurd stops (acts b)
    · split at stops
      · cases stops
      · exact absurd stops (acts b)
  | scan =>
    simp only [tableStep] at stops
    split at stops
    · cases stops
    · rename_i c runs
      split at stops
      · rename_i here
        refine ⟨c, runs, here, ?_⟩
        unfold scanStep at stops
        split at stops
        · cases stops
        · split at stops <;> cases stops
        · rename_i slot
          split at stops
          · rename_i zero
            rw [slot, zero]
          · cases stops
        · cases stops
      · cases stops

def UserPage (page : Nat) : Prop := page % pgSize = 0 ∧ 0 < page ∧ page + pgSize ≤ physBase.toNat

theorem stackPageExact (small : n < maxThreads) :
    stackPage n = physBase.toNat - n * stackSize - pgSize := by
  simp only [stackPage, physBaseNat, stackSize, pgSize, maxThreads] at *
  omega

theorem stackPageUser (small : n < maxThreads) : UserPage (stackPage n) := by
  rw [stackPageExact small]
  simp only [UserPage, physBaseNat, stackSize, pgSize, maxThreads] at *
  omega

theorem stackPageInjective {n m : Nat} (small : n < maxThreads) (small' : m < maxThreads)
    (same : stackPage n = stackPage m) : n = m := by
  rw [stackPageExact small, stackPageExact small'] at same
  simp only [physBaseNat, stackSize, pgSize, maxThreads] at *
  omega

/-- In every run: the threads that have a stack have slots of their own, taken in the bitmap,
with pages of their own; and the scan in pthread_execute finds slot 0 exactly when the main
thread has executed pthread_exit before its first bit is tested. -/
theorem stackSlots {may : Table → TableAction → Prop} (run : Run tableStep may tableBoot t) :
    (∀ u, t.live u → t.stackNo u < maxThreads ∧
      (t.userStacks (t.pid u))[t.stackNo u]? = some true ∧ UserPage (stackPage (t.stackNo u))) ∧
    (∀ u v, t.live u → t.live v → t.pid u = t.pid v → u ≠ v →
      t.stackNo u ≠ t.stackNo v ∧ stackPage (t.stackNo u) ≠ stackPage (t.stackNo v)) ∧
    (∀ a, tableStep t a = .error .stackNo →
      ∃ c, t.state.current = some c ∧ t.pc (t.pid c) = .zombie) ∧
    ∀ c, t.state.current = some c → t.slot c = .scan 0 → ∃ t', tableStep t .scan = .ok t' ∧
      ((∃ a, tableStep t' a = .error .stackNo) ↔ t.pc (t.pid c) = .zombie) := by
  have slotted := runSlotted run
  have own : ∀ u, t.live u → t.held (.thread u) = some (t.pid u, t.stackNo u) := by
    intro u live
    have seat : (t.pc u).seat = .own := live
    simp only [Table.held, seat]
  have small : ∀ u, t.live u → t.stackNo u < maxThreads := by
    intro u live
    have taken := slotted.fits.taken _ _ _ (own u live)
    have inside := (List.getElem?_eq_some_iff.mp taken).1
    have seat : (t.pc u).seat = .own := live
    rw [slotted.size u (by rw [Pc.seated, seat]; rfl)] at inside
    exact inside
  refine ⟨?_, ?_, ?_, ?_⟩
  · intro u live
    exact ⟨small u live, slotted.fits.taken _ _ _ (own u live), stackPageUser (small u live)⟩
  · intro u v live live' same other
    have apart : t.stackNo u ≠ t.stackNo v := by
      intro equal
      have held := own v live'
      rw [← same, ← equal] at held
      exact other (Holder.thread.inj (slotted.fits.single _ _ _ (own u live) held))
    exact ⟨apart, fun page => apart (stackPageInjective (small u live) (small v live') page)⟩
  · intro a stops
    obtain ⟨c, runs, here, flip⟩ := stackNoStops stops
    have clear := slotted.flips c 0 flip
    rw [slotted.main c (by rw [here]; rfl)] at clear
    exact ⟨c, runs, by simpa using clear⟩
  · intro c runs scan
    have here := slotted.busy c (by rw [scan]; simp)
    have bit := slotted.main c (by rw [here]; rfl)
    by_cases zombie : t.pc (t.pid c) = .zombie
    · refine ⟨t.setSlot c (.flip 0), ?_, iff_of_true ⟨.scan, ?_⟩ zombie⟩
      · simp [tableStep, runs, here, scan, scanStep, bit, zombie]
      · simp [tableStep, Table.setSlot, runs, show (t.state.thread c).pc = _ from here, scanStep,
          Table.pc]
    · refine ⟨t.setSlot c (.scan 1), ?_, iff_of_false ?_ zombie⟩
      · simp [tableStep, runs, here, scan, scanStep, bit, zombie]
      · rintro ⟨a, stops⟩
        obtain ⟨c', runs', _, flip⟩ := stackNoStops stops
        cases Option.some.inj (runs.symm.trans runs')
        simp [Table.setSlot] at flip

end Table

section Runs

def FifoTable (t : Table) (a : TableAction) : Prop :=
  match a with
  | .act b => Fifo t.state b
  | .scan => True

instance (t a) : Decidable (FifoTable t a) :=
  match a with
  | .act b => inferInstanceAs (Decidable (Fifo t.state b))
  | .scan => instDecidableTrue

def twoStacks : List TableAction :=
  [.launch, .dispatch 0, .run, .run, .run, .call .pthreadCreate, .run, .run].map .act ++
    [.scan, .scan, .scan, .scan] ++
    [.run, .run, .dispatch 1, .run, .run, .run, .run, .run, .run, .wake 0, .run, .run].map .act

theorem stackSlotsExample : ∃ t, Run tableStep FifoTable tableBoot t ∧ t.live 0 ∧ t.live 1 ∧
    t.pid 0 = t.pid 1 ∧ stackPage (t.stackNo 0) ≠ stackPage (t.stackNo 1) := by
  obtain ⟨t, run, found⟩ := execFinds tableStep FifoTable tableBoot twoStacks
    (fun t => decide (t.live 0 ∧ t.live 1 ∧ t.pid 0 = t.pid 1)) (by decide +kernel)
  obtain ⟨live, live', same⟩ := of_decide_eq_true found
  exact ⟨t, run, live, live', same, ((stackSlots run).2.1 0 1 live live' same (by decide)).2⟩

def mainStackFreed : List TableAction :=
  twoStacks ++ [.call .pthreadCreate, .run, .run].map .act ++ [.scan, .scan, .scan, .scan, .scan] ++
    [.run, .run, .dispatch 0, .run, .run, .preempt, .dispatch 2, .run, .run, .run, .run, .run, .run,
      .wake 1, .run, .run, .preempt, .dispatch 0, .call .other, .run, .preempt, .dispatch 1, .run,
      .run, .call .pthreadCreate, .run, .run, .preempt, .dispatch 2, .call (.exit 0), .run, .run,
      .preempt, .dispatch 0, .run, .run, .run, .dispatch 1].map .act ++ [.scan, .scan]

theorem mainStackTaken : ∃ t, Run tableStep FifoTable tableBoot t ∧
    t.state.current = some 1 ∧ t.pc 1 = .create .execute ∧ t.pid 1 = 0 ∧ t.pc 0 = .zombie ∧
    (t.state.pcb 0).exiting = .normal ∧ tableStep t .scan = .error .stackNo := by
  obtain ⟨t, run, found⟩ := execFinds tableStep FifoTable tableBoot mainStackFreed
    (fun t => decide (t.state.current = some 1 ∧ t.pc 1 = .create .execute ∧ t.pid 1 = 0 ∧
        t.pc 0 = .zombie ∧ (t.state.pcb 0).exiting = .normal) &&
      stops (tableStep t .scan) fun e => decide (e = .stackNo)) (by decide +kernel)
  obtain ⟨here, next⟩ := Bool.and_eq_true_iff.mp found
  obtain ⟨runs, old, pid, zombie, level⟩ := of_decide_eq_true here
  obtain ⟨e, stops, same⟩ := stopsError next
  rw [of_decide_eq_true same] at stops
  exact ⟨t, run, runs, old, pid, zombie, level, stops⟩

end Runs
end Pintos.Userprog
