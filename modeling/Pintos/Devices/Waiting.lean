import Pintos.Devices.Intq
import Pintos.Lib.Ring

/-! What the threads and the queue owe each other. A thread tests the queue before it asks for the
lock and not again once it has it: when it has slept for the lock, the assertion in wait may
fail. -/
namespace Pintos.Devices
open Machine
open Function (update update_of_ne update_self)

def Pc.waitsFor : Pc → Option Waiter
  | .wait op => some op.waits
  | .out | .acquire _ | .release _ => none

def Pc.acquires : Pc → Bool
  | .acquire _ => true
  | .out | .wait _ | .release _ => false

structure Stands (q : Intq) (t : Nat) (pc : Pc) (blocked : Bool) : Prop where
  lock : q.lock = some t ↔ pc.waitsFor ≠ none
  queued : t ∈ q.waiters ↔ pc.acquires = true ∧ blocked = true
  recorded : ∀ w : Waiter, w.get q = some t ↔ pc.waitsFor = some w ∧ blocked = true
  awaited : ∀ w, pc.waitsFor = some w → blocked = true → w.awaits q = true
  asleep : blocked = true → pc.acquires = true ∨ pc.waitsFor ≠ none

def Fifo (s : State) : Prop :=
  ∃ xs, Ring.Holds bufSize s.q.buf s.q.head s.q.tail xs ∧ s.stored = s.returned ++ xs

structure Kept (s : State) : Prop where
  stands : ∀ t, Stands s.q t (s.pc t) (s.blocked t)
  nodup : s.q.waiters.Nodup
  fifo : Fifo s

def Free (s : State) : Option Nat → Prop
  | none => True
  | some t => s.blocked t = false ∧ (s.pc t).waitsFor = none

inductive Takes (s : State) : Action → Except Fault State → Prop where
  | idle {a : Action} : Takes s a (.error .idle)
  | getc {context : Option Nat} (outside : s.outside context = true) :
    Takes s (.getc context) (intqLoop s context .getc)
  | putc {context : Option Nat} {byte : UInt8} (outside : s.outside context = true) :
    Takes s (.putc context byte) (intqLoop s context (.putc byte))
  | acquire {t pick : Nat} {yields : Bool} {op : Op} (here : s.pc t = .acquire op)
    (awake : s.blocked t = false) : Takes s (.run t pick yields) (lockAcquire s t op)
  | release {t pick : Nat} {yields : Bool} {op : Op} (here : s.pc t = .release op)
    (awake : s.blocked t = false) : Takes s (.run t pick yields) (intqLoop s (some t) op)
  | wait {t pick : Nat} {yields : Bool} {op : Op} (here : s.pc t = .wait op)
    (awake : s.blocked t = false) : Takes s (.run t pick yields) (lockRelease s t op pick yields)

section Steps
variable {s : State} {q : Intq} {t u : Nat} {op : Op} {w v : Waiter} {context : Option Nat}
  {pc : Pc} {blocked : Bool}
  {x : Option Nat} {s' : State} {a : Action} {xs : List Nat}

@[simp] theorem getSet : w.get (v.set q x) = if w = v then x else w.get q := by
  cases w <;> cases v <;> rfl

@[simp] theorem awaitsSet : w.awaits (v.set q x) = w.awaits q := by
  cases w <;> cases v <;> rfl

@[simp] theorem lockSet : (v.set q x).lock = q.lock := by
  cases v <;> rfl

@[simp] theorem waitersSet : (v.set q x).waiters = q.waiters := by
  cases v <;> rfl

@[simp] theorem getLock : w.get { q with lock := x } = w.get q := by
  cases w <;> rfl

@[simp] theorem awaitsLock : w.awaits { q with lock := x } = w.awaits q := by
  cases w <;> rfl

@[simp] theorem getWaiters : w.get { q with waiters := xs } = w.get q := by
  cases w <;> rfl

@[simp] theorem awaitsWaiters : w.awaits { q with waiters := xs } = w.awaits q := by
  cases w <;> rfl

theorem eitherWaiter (op : Op) (w : Waiter) : w = op.waits ∨ w = op.signals := by
  cases op <;> cases w <;> simp [Op.waits, Op.signals]

theorem standsFree (stands : Stands q t pc false) (w : Waiter) : w.get q ≠ some t := fun here =>
  absurd ((stands.recorded w).mp here).2 (by simp)

theorem sleepKept (kept : Kept s) (free : Free s (some t)) :
    Kept (threadBlock { s with q := { s.q with waiters := s.q.waiters ++ [t] } } t (.acquire op)) := by
  obtain ⟨awake, outside⟩ := free
  have mine := kept.stands t
  rw [awake] at mine
  refine ⟨fun u => ?_, ?_, kept.fifo⟩
  · by_cases self : u = t
    · subst self
      simp only [threadBlock, update_self]
      refine ⟨?_, by simp [Pc.acquires], fun w => ?_, by simp [Pc.waitsFor], fun _ => .inl rfl⟩
      · rw [mine.lock, outside]
        simp [Pc.waitsFor]
      · rw [getWaiters]
        exact iff_of_false (standsFree mine w) (by simp [Pc.waitsFor])
    · simp only [threadBlock, update_of_ne self]
      have theirs := kept.stands u
      refine ⟨theirs.lock, ?_, fun w => ?_, fun w waits asleep => ?_, theirs.asleep⟩
      · rw [← theirs.queued]
        simp [self]
      · rw [getWaiters]
        exact theirs.recorded w
      · rw [awaitsWaiters]
        exact theirs.awaited w waits asleep
  · refine List.nodup_append.mpr ⟨kept.nodup, by simp, fun u inside v last => ?_⟩
    rw [List.mem_singleton.mp last]
    rintro rfl
    exact absurd (mine.queued.mp inside).2 (by simp)

theorem waitKept (kept : Kept s) (free : Free s (some t)) (lock : s.q.lock = none)
    (awaits : op.waits.awaits s.q = true) :
    Kept (threadBlock { s with q := op.waits.set { s.q with lock := some t } (some t) } t
      (.wait op)) := by
  obtain ⟨awake, outside⟩ := free
  have mine := kept.stands t
  rw [awake] at mine
  refine ⟨fun u => ?_, ?_, ?_⟩
  · by_cases self : u = t
    · subst self
      simp only [threadBlock, update_self]
      refine ⟨by simp [Pc.waitsFor], ?_, fun w => ?_, fun w here _ => ?_, fun _ => .inr ?_⟩
      · rw [waitersSet]
        refine iff_of_false (fun inside => ?_) (by simp [Pc.acquires])
        exact absurd (mine.queued.mp inside).2 (by simp)
      · rw [getSet, getLock]
        split
        · rename_i recorded
          simp [Pc.waitsFor, recorded]
        · rename_i other
          refine iff_of_false (standsFree mine w) fun here => other ?_
          exact (Option.some.inj here.1).symm
      · rw [awaitsSet, awaitsLock, ← Option.some.inj here]
        exact awaits
      · simp [Pc.waitsFor]
    · simp only [threadBlock, update_of_ne self]
      have theirs := kept.stands u
      -- nobody is inside wait, because the lock is free
      have none : (s.pc u).waitsFor = none := by
        by_contra inside
        rw [theirs.lock.mpr inside] at lock
        cases lock
      refine ⟨?_, ?_, fun w => ?_, ?_, theirs.asleep⟩
      · simp [none, Ne.symm self]
      · rw [waitersSet]
        exact theirs.queued
      · rw [getSet, getLock]
        split
        · simp [none, Ne.symm self]
        · exact theirs.recorded w
      · simp [none]
  · simp only [threadBlock, waitersSet]
    exact kept.nodup
  · obtain ⟨xs, holds, stored⟩ := kept.fifo
    refine ⟨xs, ?_, stored⟩
    cases op <;> exact holds

theorem lockAcquireKept (kept : Kept s) (free : Free s (some t)) :
    Ends (lockAcquire s t op) Kept := by
  unfold lockAcquire
  cases lock : s.q.lock with
  | none =>
    unfold wait
    simp only [awaitsLock, endsIte, endsOk, endsError]
    exact ⟨fun awaits => waitKept kept free lock awaits, fun _ => trivial⟩
  | some holder =>
    simp only [endsIte, endsOk, endsError]
    exact ⟨fun _ => trivial, fun _ => sleepKept kept free⟩

theorem lockAcquireFails (kept : Kept s) (free : Free s (some t)) :
    Fails (lockAcquire s t op) fun f => f = .waitCondition ∧ op.waits.awaits s.q = false := by
  unfold lockAcquire
  cases lock : s.q.lock with
  | none =>
    unfold wait
    simp only [awaitsLock, failsIte, failsOk, failsError]
    exact ⟨fun _ => trivial, fun ready => ⟨trivial, Bool.eq_false_iff.mpr ready⟩⟩
  | some holder =>
    simp only [failsIte, failsOk, failsError]
    refine ⟨fun mine => ?_, fun _ => trivial⟩
    subst mine
    exact absurd free.2 ((kept.stands holder).lock.mp lock)

theorem transferFifo (fifo : Fifo s) (ready : op.waits.awaits s.q = false) :
    Fifo (transfer s op) ∧ op.signals.awaits (transfer s op).q = false := by
  obtain ⟨xs, holds, stored⟩ := fifo
  cases op with
  | getc =>
    have some : xs ≠ [] := fun none => by
      have empty := (Ring.holdsEmpty holds).mpr none
      simp [Op.waits, Waiter.awaits, intqEmpty, empty] at ready
    obtain ⟨x, rest, rfl⟩ := List.exists_cons_of_ne_nil some
    obtain ⟨first, left⟩ := Ring.holdsPop holds
    refine ⟨⟨rest, left, ?_⟩, ?_⟩
    · simp [transfer, stored, first]
    · refine Bool.eq_false_iff.mpr fun full => ?_
      have most := (Ring.holdsFull left).mp (of_decide_eq_true full)
      have room := holds.room
      simp only [List.length_cons] at room
      omega
  | putc byte =>
    have more : xs.length + 1 < bufSize := by
      refine Nat.lt_of_le_of_ne holds.room fun all => ?_
      have full := (Ring.holdsFull holds).mpr all
      simp [Op.waits, Waiter.awaits, intqFull, next, full] at ready
    have pushed := Ring.holdsPush (x := byte) holds more
    refine ⟨⟨xs ++ [byte], pushed, ?_⟩, ?_⟩
    · simp [transfer, stored]
    · refine Bool.eq_false_iff.mpr fun empty => ?_
      have none := (Ring.holdsEmpty pushed).mp (of_decide_eq_true empty)
      simp at none

theorem quietKept (kept : Kept s) (fifo : Fifo s') (lock : s'.q.lock = s.q.lock)
    (waiters : s'.q.waiters = s.q.waiters) (none : ∀ w : Waiter, w.get s'.q = none)
    (woken : ∀ u, (s.pc u).waitsFor ≠ .none → s'.blocked u = false)
    (others : ∀ u, (s.pc u).waitsFor = .none → s'.blocked u = s.blocked u)
    (left : ∀ u, s'.pc u = s.pc u ∨ Free s (some u) ∧ s'.pc u = .out) : Kept s' := by
  refine ⟨fun u => ?_, waiters ▸ kept.nodup, fifo⟩
  have theirs := kept.stands u
  rcases left u with same | ⟨⟨awake, outside⟩, out⟩
  · rw [same]
    cases inside : (s.pc u).waitsFor with
    | some w =>
      have awake := woken u (by simp [inside])
      have elsewhere : (s.pc u).acquires = false := by
        cases here : s.pc u <;> rw [here] at inside <;> first | rfl | cases inside
      rw [awake]
      refine ⟨?_, ?_, fun w => ?_, by simp, by simp⟩
      · rw [lock]
        exact theirs.lock
      · rw [waiters, theirs.queued, elsewhere]
        simp
      · rw [none w]
        simp
    | none =>
      rw [others u inside]
      refine ⟨?_, ?_, fun w => ?_, by simp [inside], theirs.asleep⟩
      · rw [lock]
        exact theirs.lock
      · rw [waiters]
        exact theirs.queued
      · rw [none w]
        simp [inside]
  · rw [out, others u outside, awake]
    rw [awake] at theirs
    refine ⟨?_, ?_, fun w => ?_, by simp [Pc.waitsFor], by simp⟩
    · rw [lock, theirs.lock, outside]
      simp [Pc.waitsFor]
    · rw [waiters, theirs.queued]
      simp
    · rw [none w]
      simp

theorem finishKept (kept : Kept s) (free : Free s context) (ready : op.waits.awaits s.q = false) :
    ∃ s', signal (transfer s op) op.signals = .ok s' ∧ s'.pc = s.pc ∧ Kept (leave s' context) := by
  obtain ⟨fifo, ready'⟩ := transferFifo kept.fifo ready
  have gets (w : Waiter) : w.get (transfer s op).q = w.get s.q := by cases op <;> cases w <;> rfl
  have lock : (transfer s op).q.lock = s.q.lock := by cases op <;> rfl
  have waiters : (transfer s op).q.waiters = s.q.waiters := by cases op <;> rfl
  have pc : (transfer s op).pc = s.pc := by cases op <;> rfl
  have blocked : (transfer s op).blocked = s.blocked := by cases op <;> rfl
  -- whoever sleeps in wait waits for what this call brings about
  have awaited {u : Nat} {w : Waiter} (inside : (s.pc u).waitsFor = some w)
      (asleep : s.blocked u = true) : w = op.signals := by
    refine (eitherWaiter op w).resolve_left fun same => ?_
    have awaits := (kept.stands u).awaited w inside asleep
    rw [same, ready] at awaits
    cases awaits
  have unrecorded : op.waits.get s.q = none := by
    cases here : op.waits.get s.q with
    | none => rfl
    | some u =>
      obtain ⟨inside, asleep⟩ := ((kept.stands u).recorded _).mp here
      have same := awaited inside asleep
      cases op <;> cases same
  have left {s' : State} (moved : s'.pc = s.pc) (u : Nat) :
      (leave s' context).pc u = s.pc u ∨ Free s (some u) ∧ (leave s' context).pc u = .out := by
    cases context with
    | none => exact .inl (congrFun moved u)
    | some t =>
      by_cases self : u = t
      · subst self
        exact .inr ⟨free, update_self _ _ _⟩
      · refine .inl ?_
        rw [← moved]
        exact update_of_ne self _ _
  have same (s' : State) : (leave s' context).q = s'.q ∧ (leave s' context).blocked = s'.blocked ∧
      (leave s' context).stored = s'.stored ∧ (leave s' context).returned = s'.returned := by
    cases context <;> exact ⟨rfl, rfl, rfl, rfl⟩
  unfold signal
  rw [ready', gets]
  cases here : op.signals.get s.q with
  | none =>
    refine ⟨transfer s op, rfl, pc, ?_⟩
    obtain ⟨q, asleep, stored, returned⟩ := same (transfer s op)
    refine quietKept kept ?_ (by rw [q, lock]) (by rw [q, waiters]) ?_ ?_ ?_ (left pc)
    · unfold Fifo
      rw [q, stored, returned]
      exact fifo
    · intro w
      rw [q, gets]
      rcases eitherWaiter op w with rfl | rfl
      · exact unrecorded
      · exact here
    · intro u inside
      rw [asleep, blocked]
      refine Bool.eq_false_iff.mpr fun sleeps => ?_
      obtain ⟨w, waits⟩ := Option.ne_none_iff_exists'.mp inside
      have recorded := ((kept.stands u).recorded w).mpr ⟨waits, sleeps⟩
      rw [awaited waits sleeps, here] at recorded
      cases recorded
    · intro u _
      rw [asleep, blocked]
  | some x =>
    obtain ⟨waits, sleeps⟩ := ((kept.stands x).recorded _).mp here
    simp only [threadUnblock, blocked, sleeps, if_true]
    refine ⟨_, rfl, pc, ?_⟩
    generalize moved : ({ transfer s op with
      q := op.signals.set (transfer s op).q none
      blocked := update s.blocked x false } : State) = s'
    obtain ⟨q, asleep, stored, returned⟩ := same s'
    have woken : s'.blocked = update s.blocked x false := by rw [← moved]
    refine quietKept kept ?_ ?_ ?_ ?_ ?_ ?_ (left (by rw [← moved]; exact pc))
    · unfold Fifo
      rw [q, stored, returned, ← moved]
      obtain ⟨xs, holds, kept⟩ := fifo
      refine ⟨xs, ?_, kept⟩
      cases op <;> exact holds
    · rw [q, ← moved, lockSet, lock]
    · rw [q, ← moved, waitersSet, waiters]
    · intro w
      rw [q, ← moved, getSet, gets]
      rcases eitherWaiter op w with rfl | rfl
      · rw [unrecorded]
        simp
      · simp
    · intro u inside
      rw [asleep, woken]
      by_cases self : u = x
      · rw [self, update_self]
      · rw [update_of_ne self]
        refine Bool.eq_false_iff.mpr fun sleeps' => self ?_
        -- two threads in wait would both hold the lock
        have first := (kept.stands u).lock.mpr inside
        have second := (kept.stands x).lock.mpr (by simp [waits])
        exact Option.some.inj (first.symm.trans second)
    · intro u outside
      rw [asleep, woken]
      have self : u ≠ x := by
        rintro rfl
        rw [outside] at waits
        cases waits
      rw [update_of_ne self]

theorem loopKept (kept : Kept s) (free : Free s context) :
    Ends (intqLoop s context op) Kept := by
  unfold intqLoop
  rw [endsIte]
  refine ⟨fun _ => ?_, fun ready => ?_⟩
  · cases context with
    | none => exact endsError.mpr trivial
    | some t => exact lockAcquireKept kept free
  · obtain ⟨s', signalled, _, after⟩ := finishKept kept free (Bool.eq_false_iff.mpr ready)
    rw [signalled]
    exact endsOk.mpr after

theorem loopFails (kept : Kept s) (free : Free s context) :
    Fails (intqLoop s context op) fun _ => context = none ∧ op.waits.awaits s.q = true := by
  unfold intqLoop
  rw [failsIte]
  refine ⟨fun awaits => ?_, fun ready => ?_⟩
  · cases context with
    | none => exact failsError.mpr ⟨rfl, awaits⟩
    | some t =>
      intro f fails
      have ready := (lockAcquireFails kept free f fails).2
      rw [awaits] at ready
      cases ready
  · obtain ⟨s', signalled, _, _⟩ := finishKept kept free (Bool.eq_false_iff.mpr ready)
    rw [signalled]
    exact failsOk.mpr trivial

theorem unlockKept (kept : Kept s) (inside : (s.pc t).waitsFor ≠ none)
    (awake : s.blocked t = false) :
    Kept { s with q := { s.q with lock := none }, pc := update s.pc t (.release op) } := by
  have mine := kept.stands t
  have lock := mine.lock.mpr inside
  have elsewhere : (s.pc t).acquires = false := by
    cases here : s.pc t <;> rw [here] at inside <;> first | rfl | exact absurd rfl inside
  refine ⟨fun u => ?_, kept.nodup, kept.fifo⟩
  by_cases self : u = t
  · subst self
    simp only [update_self]
    rw [awake] at mine ⊢
    refine ⟨by simp [Pc.waitsFor], ?_, fun w => ?_, by simp [Pc.waitsFor], by simp⟩
    · rw [mine.queued]
      simp
    · rw [getLock]
      exact iff_of_false (standsFree mine w) (by simp)
  · simp only [update_of_ne self]
    have theirs := kept.stands u
    have none : (s.pc u).waitsFor = none := by
      by_contra both
      rw [theirs.lock.mpr both] at lock
      exact self (Option.some.inj lock)
    refine ⟨by simp [none], theirs.queued, fun w => ?_, by simp [none], theirs.asleep⟩
    rw [getLock]
    exact theirs.recorded w

theorem wakeKept (kept : Kept s) (inside : t ∈ s.q.waiters) :
    Kept { s with
      q := { s.q with waiters := s.q.waiters.erase t }
      blocked := update s.blocked t false } := by
  have mine := kept.stands t
  have acquires := (mine.queued.mp inside).1
  have none : (s.pc t).waitsFor = none := by
    cases here : s.pc t <;> rw [here] at acquires <;> first | rfl | cases acquires
  refine ⟨fun u => ?_, kept.nodup.erase t, kept.fifo⟩
  by_cases self : u = t
  · subst self
    simp only [update_self]
    refine ⟨mine.lock, ?_, fun w => ?_, by simp, by simp⟩
    · simp [kept.nodup.mem_erase_iff]
    · rw [getWaiters, mine.recorded, none]
      simp
  · simp only [update_of_ne self]
    have theirs := kept.stands u
    refine ⟨theirs.lock, ?_, fun w => ?_, fun w waits asleep => ?_, theirs.asleep⟩
    · rw [List.mem_erase_of_ne self]
      exact theirs.queued
    · rw [getWaiters]
      exact theirs.recorded w
    · rw [awaitsWaiters]
      exact theirs.awaited w waits asleep

theorem pickMem (first : Nat) (rest : List Nat) (pick : Nat) :
    (first :: rest).getD pick first ∈ first :: rest := by
  rw [List.getD_eq_getElem?_getD]
  cases here : (first :: rest)[pick]? with
  | none => exact List.mem_cons_self
  | some x => exact List.mem_of_getElem? here

theorem releaseKept {pick : Nat} {yields : Bool} (kept : Kept s) (here : s.pc t = .wait op)
    (awake : s.blocked t = false) :
    ∃ s', Kept s' ∧ s'.pc = update s.pc t (.release op) ∧ s'.blocked t = false ∧
      s'.q.lock = none ∧
      (lockRelease s t op pick yields = .ok s' ∧ s.q.waiters ≠ [] ∨
        lockRelease s t op pick yields = intqLoop s' (some t) op) := by
  have inside : (s.pc t).waitsFor ≠ none := by rw [here]; simp [Pc.waitsFor]
  have mine := kept.stands t
  have lock := mine.lock.mpr inside
  have released := @unlockKept s t op kept inside awake
  cases queue : s.q.waiters with
  | nil =>
    refine ⟨_, released, rfl, awake, rfl, .inr ?_⟩
    simp [lockRelease, lock, queue]
  | cons first rest =>
    have member := pickMem first rest pick
    rw [← queue] at member
    have woken := wakeKept released member
    have asleep := ((kept.stands _).queued.mp member).2
    have other : s.q.waiters.getD pick first ≠ t := by
      intro same
      rw [same, awake] at asleep
      cases asleep
    refine ⟨_, woken, rfl, ?_, rfl, ?_⟩
    · simp only [update_of_ne (Ne.symm other)]
      exact awake
    · rw [queue, List.getD_eq_getElem?_getD] at asleep
      cases yields with
      | true => exact .inl ⟨by simp [lockRelease, lock, queue, threadUnblock, asleep, bind, Except.bind], by simp⟩
      | false => exact .inr (by simp [lockRelease, lock, queue, threadUnblock, asleep, bind, Except.bind])

theorem releaseFree (pc : s'.pc = update s.pc t (.release op))
    (awake : s'.blocked t = false) : Free s' (some t) := by
  refine ⟨awake, ?_⟩
  rw [pc, update_self]
  rfl

theorem outsideFree (kept : Kept s) (outside : s.outside context = true) : Free s context := by
  cases context with
  | none => trivial
  | some t =>
    have out : s.pc t = .out := by
      have both := (Bool.and_eq_true_iff.mp outside).2
      exact eq_of_beq both
    refine ⟨?_, by rw [out]; rfl⟩
    refine Bool.eq_false_iff.mpr fun asleep => ?_
    have sleeps := (kept.stands t).asleep asleep
    rw [out] at sleeps
    simp [Pc.acquires, Pc.waitsFor] at sleeps

theorem stepTakes (s : State) (a : Action) : Takes s a (step s a) := by
  cases a with
  | getc context =>
    simp only [step]
    split
    · rename_i outside
      exact .getc outside
    · exact .idle
  | putc context byte =>
    simp only [step]
    split
    · rename_i outside
      exact .putc outside
    · exact .idle
  | run t pick yields =>
    simp only [step]
    split
    · exact .idle
    · rename_i awake
      have awake := Bool.eq_false_iff.mpr awake
      cases here : s.pc t with
      | out => exact .idle
      | acquire op => exact .acquire here awake
      | release op => exact .release here awake
      | wait op => exact .wait here awake

theorem keptStep (kept : Kept s) (ok : step s a = .ok s') : Kept s' := by
  have takes := stepTakes s a
  generalize step s a = taken at takes ok
  cases takes with
  | idle => cases ok
  | getc outside | putc outside => exact loopKept kept (outsideFree kept outside) s' ok
  | acquire here awake => exact lockAcquireKept kept ⟨awake, by rw [here]; rfl⟩ s' ok
  | @release t _ _ _ here awake =>
    have free : Free s (some t) := ⟨awake, by rw [here]; rfl⟩
    exact loopKept kept free s' ok
  | wait here awake =>
    obtain ⟨s₁, kept₁, pc, awake₁, _, ends⟩ := releaseKept kept here awake
    rcases ends with ⟨done, _⟩ | loops
    · cases done.symm.trans ok
      exact kept₁
    · exact loopKept kept₁ (releaseFree pc awake₁) s' (loops.symm.trans ok)

theorem stepFails {f : Fault} (kept : Kept s) (handled : Handled s a)
    (fails : step s a = .error f) : f = .idle ∨
      f = .waitCondition ∧ ∃ t pick yields op, a = .run t pick yields ∧ s.pc t = .acquire op := by
  have called {context : Option Nat} {op : Op} (outside : s.outside context = true)
      (handled : context = none → op.waits.awaits s.q = false)
      (fails : intqLoop s context op = .error f) : f = .idle := by
    obtain ⟨none, awaits⟩ := loopFails kept (outsideFree kept outside) f fails
    rw [handled none] at awaits
    cases awaits
  have takes := stepTakes s a
  generalize step s a = taken at takes fails
  cases takes with
  | idle => exact .inl (Except.error.inj fails).symm
  | getc outside | putc outside =>
    refine .inl (called outside (fun none => ?_) fails)
    subst none
    exact handled
  | @acquire t pick yields op here awake =>
    have stopped := lockAcquireFails kept ⟨awake, by rw [here]; rfl⟩ f fails
    exact .inr ⟨stopped.1, t, pick, yields, op, rfl, here⟩
  | @release t _ _ _ here awake =>
    have free : Free s (some t) := ⟨awake, by rw [here]; rfl⟩
    cases (loopFails kept free f fails).1
  | wait here awake =>
    obtain ⟨s₁, kept₁, pc, awake₁, _, ends⟩ := releaseKept kept here awake
    rcases ends with ⟨done, _⟩ | loops
    · cases done.symm.trans fails
    · cases (loopFails kept₁ (releaseFree pc awake₁) f (loops.symm.trans fails)).1

theorem keptBoot (count : Nat) : Kept (boot count) := by
  refine ⟨fun t => ?_, List.nodup_nil, [], ⟨Nat.zero_lt_succ _, Nat.zero_lt_succ _, rfl, by simp⟩, rfl⟩
  constructor
  case recorded => intro w; cases w <;> simp [boot, Waiter.get]
  all_goals simp [boot, Pc.waitsFor]

def Direct (s : State) : Prop := ∀ t, s.pc t = .out ∨ ∃ op, s.pc t = .wait op

theorem loopDirect (kept : Kept s) (free : Free s context)
    (lock : context ≠ none → op.waits.awaits s.q = true → s.q.lock = none) :
    Ends (intqLoop s context op) fun s' => ∀ u,
      context ≠ some u ∧ s'.pc u = s.pc u ∨ s'.pc u = .out ∨ ∃ op, s'.pc u = .wait op := by
  unfold intqLoop
  rw [endsIte]
  refine ⟨fun awaits => ?_, fun ready => ?_⟩
  · cases context with
    | none => exact endsError.mpr trivial
    | some t =>
      unfold lockAcquire
      rw [lock (by simp) awaits]
      unfold wait
      simp only [endsIte, endsOk, endsError]
      refine ⟨fun _ u => ?_, fun _ => trivial⟩
      by_cases self : u = t
      · exact .inr (.inr ⟨op, by rw [self]; exact update_self _ _ _⟩)
      · exact .inl ⟨fun same => self (Option.some.inj same).symm, update_of_ne self _ _⟩
  · obtain ⟨s', signalled, pc, _⟩ := finishKept kept free (Bool.eq_false_iff.mpr ready)
    rw [signalled]
    refine endsOk.mpr fun u => ?_
    cases context with
    | none => exact .inl ⟨by simp, congrFun pc u⟩
    | some t =>
      by_cases self : u = t
      · exact .inr (.inl (by rw [self]; exact update_self _ _ _))
      · refine .inl ⟨fun same => self (Option.some.inj same).symm, ?_⟩
        rw [← pc]
        exact update_of_ne self _ _

theorem directStep (kept : Kept s) (direct : Direct s)
    (uncontended : Uncontended s a) (ok : step s a = .ok s') : Direct s' := by
  have called {context : Option Nat} {op : Op} (outside : s.outside context = true)
      (lock : context ≠ none → op.waits.awaits s.q = true → s.q.lock = none)
      (ok : intqLoop s context op = .ok s') : Direct s' := fun u =>
    (loopDirect kept (outsideFree kept outside) lock s' ok u).elim
      (fun same => by rw [same.2]; exact direct u) id
  have takes := stepTakes s a
  generalize step s a = taken at takes ok
  cases takes with
  | idle => cases ok
  | getc outside | putc outside =>
    refine called outside (fun some => ?_) ok
    obtain ⟨t, rfl⟩ := Option.ne_none_iff_exists'.mp some
    exact uncontended
  | @acquire t _ _ _ here _ | @release t _ _ _ here _ =>
    rcases direct t with there | ⟨op, there⟩ <;> rw [here] at there <;> cases there
  | @wait t _ _ _ here awake =>
    obtain ⟨s₁, kept₁, pc, awake₁, lock, ends⟩ := releaseKept kept here awake
    rcases ends with ⟨_, queue⟩ | loops
    · obtain ⟨u, inside⟩ := List.exists_mem_of_ne_nil _ queue
      have acquires := ((kept.stands u).queued.mp inside).1
      rcases direct u with there | ⟨_, there⟩ <;> rw [there] at acquires <;> cases acquires
    · intro u
      refine (loopDirect kept₁ (releaseFree pc awake₁) (fun _ _ => lock) s'
        (loops.symm.trans ok) u).elim (fun same => ?_) id
      have other : u ≠ t := fun self => same.1 (by rw [self])
      rw [same.2, pc, update_of_ne other]
      exact direct u

end Steps

structure Recorded (s : State) : Prop where
  one : s.q.notEmpty = none ∨ s.q.notFull = none
  sleeps : ∀ (w : Waiter) (t : Nat), w.get s.q = some t ↔
    ∃ op : Op, op.waits = w ∧ s.pc t = .wait op ∧ s.blocked t = true

section Runs
variable {s : State} {count : Nat}

theorem keptRecorded (kept : Kept s) : Recorded s := by
  refine ⟨?_, fun w t => ?_⟩
  · cases empty : s.q.notEmpty with
    | none => exact .inl rfl
    | some t =>
      cases full : s.q.notFull with
      | none => exact .inr rfl
      | some u =>
        have first := ((kept.stands t).recorded .notEmpty).mp empty
        have second := ((kept.stands u).recorded .notFull).mp full
        have same : t = u := Option.some.inj (((kept.stands t).lock.mpr (by simp [first.1])).symm.trans
          ((kept.stands u).lock.mpr (by simp [second.1])))
        rw [same, second.1] at first
        cases first.1
  · rw [(kept.stands t).recorded w]
    constructor
    · rintro ⟨waits, asleep⟩
      cases here : s.pc t with
      | wait op =>
        rw [here] at waits
        exact ⟨op, Option.some.inj waits, rfl, asleep⟩
      | out | acquire _ | release _ => rw [here] at waits; cases waits
    · rintro ⟨op, rfl, here, asleep⟩
      rw [here]
      exact ⟨rfl, asleep⟩

theorem keptRun {may : State → Action → Prop} (run : Run step may (boot count) s) : Kept s :=
  run.invariant Kept (keptBoot count) fun _ _ _ kept _ moved => keptStep kept moved

/-- As long as no thread has to sleep for the lock, no assertion of the queue fails. -/
theorem queueAssertions (run : Run step (fun s a => Handled s a ∧ Uncontended s a) (boot count) s) :
    (∀ a f, Handled s a → step s a = .error f → f = .idle) ∧ Recorded s := by
  have both : Kept s ∧ Direct s := by
    refine run.invariant (fun s => Kept s ∧ Direct s) ⟨keptBoot count, fun _ => .inl rfl⟩ ?_
    rintro u v a ⟨kept, direct⟩ allowed moved
    exact ⟨keptStep kept moved, directStep kept direct allowed.2 moved⟩
  obtain ⟨kept, direct⟩ := both
  refine ⟨fun a f handled fails => ?_, keptRecorded kept⟩
  refine (stepFails kept handled fails).resolve_right ?_
  rintro ⟨_, t, _, _, op, _, here⟩
  rcases direct t with there | ⟨_, there⟩ <;> rw [here] at there <;> cases there

theorem queueAssertionsExample :
    ∃ s, Run step (fun s a => Handled s a ∧ Uncontended s a) (boot 2) s ∧ s.pc 0 = .wait .getc ∧
      (∀ f, step s (.putc none 7) = .error f → f = .idle) ∧ Recorded s := by
  obtain ⟨s, run, found⟩ := execFinds step (fun s a => Handled s a ∧ Uncontended s a) (boot 2)
    [.putc (some 1) 5, .getc (some 0), .getc (some 0)]
    (fun s => decide (s.pc 0 = .wait .getc ∧ Handled s (.putc none 7))) (by decide)
  obtain ⟨here, handled⟩ := of_decide_eq_true found
  obtain ⟨holds, recorded⟩ := queueAssertions run
  exact ⟨s, run, here, fun f => holds _ f handled, recorded⟩

theorem waitAsserts : ∃ s, Run step Handled (boot 2) s ∧ s.pc 1 = .acquire .getc ∧
    step s (.run 1 0 false) = .error .waitCondition := by
  obtain ⟨s, run, found⟩ := execFinds step Handled (boot 2)
    [.getc (some 0), .getc (some 1), .putc none 1, .putc none 2, .run 0 0 false]
    (fun s => decide (s.pc 1 = .acquire .getc) &&
      stops (step s (.run 1 0 false)) fun f => decide (f = .waitCondition)) (by decide)
  obtain ⟨here, fails⟩ := Bool.and_eq_true_iff.mp found
  obtain ⟨f, error, same⟩ := stopsError fails
  rw [of_decide_eq_true same] at error
  exact ⟨s, run, of_decide_eq_true here, error⟩

/-- The calls return the bytes in the order in which they were stored. A thread in wait finds the
queue as it was when it went to sleep or has been made ready; this holds in every state of a run,
and so in all of those since it went to sleep. -/
theorem queueFifo {may : State → Action → Prop} (run : Run step may (boot count) s) :
    s.returned <+: s.stored ∧
    (∃ xs, Ring.Holds bufSize s.q.buf s.q.head s.q.tail xs ∧ s.stored = s.returned ++ xs ∧
      xs.length ≤ bufSize - 1) ∧
    ∀ t op, s.pc t = .wait op → s.blocked t = false ∨ op.waits.awaits s.q = true := by
  have kept := keptRun run
  obtain ⟨xs, holds, stored⟩ := kept.fifo
  refine ⟨stored ▸ List.prefix_append _ _, ⟨xs, holds, stored, Nat.le_sub_one_of_lt holds.room⟩, ?_⟩
  intro t op here
  cases asleep : s.blocked t with
  | false => exact .inl rfl
  | true => exact .inr ((kept.stands t).awaited _ (by rw [here]; rfl) asleep)

theorem queueFifoExample : ∃ s, Run step Handled (boot 2) s ∧ s.returned = [1] ∧
    s.stored = [1, 2] ∧ s.returned <+: s.stored := by
  obtain ⟨s, run, found⟩ := execFinds step Handled (boot 2)
    [.getc (some 0), .putc none 1, .putc (some 1) 2, .run 0 0 false]
    (fun s => decide (s.returned = [1] ∧ s.stored = [1, 2])) (by decide)
  obtain ⟨returned, stored⟩ := of_decide_eq_true found
  exact ⟨s, run, returned, stored, (queueFifo run).1⟩

theorem sleepsForLock : ∃ s, Run step Handled (boot 2) s ∧ s.pc 1 = .acquire .getc ∧
    s.blocked 1 = true ∧ intqEmpty s.q = false := by
  obtain ⟨s, run, found⟩ := execFinds step Handled (boot 2)
    [.getc (some 0), .getc (some 1), .putc none 1]
    (fun s => decide (s.pc 1 = .acquire .getc ∧ s.blocked 1 = true ∧ intqEmpty s.q = false))
    (by decide)
  exact ⟨s, run, of_decide_eq_true found⟩

end Runs
end Pintos.Devices
