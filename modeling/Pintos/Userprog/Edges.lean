import Pintos.Userprog.Protocol

/-! The control flow of a user thread, said once: where it can go from each region and
what it does to the exit level, the exit code and the counters of its process on the
way. Nothing is assumed about the run. -/
namespace Pintos.Userprog
open Machine

attribute [local simp] Function.update_apply

/-- How many regions of the kernel, exit_if_exiting included, a thread has left at most when its
process exits. -/
def Pc.regions : Pc → Nat
  | .work stage => match stage with
    | .down => 8 | .store => 7 | .body => 6 | .up => 5 | .clear => 4 | .any => 3
  | .create stage => match stage with
    | .count => 4 | .execute => 3 | .wait (some _) | .failed => 2 | .wait none => 0
  | .start stage => match stage with
    | .setup => 8 | .lock => 7 | .check => 6 | .push => 5 | .unlock => 4 | .up => 3 | .free => 2
  | .join stage => match stage with
    | .lock _ => 9 | .scan _ => 8 | .unlock _ => 7 | .set _ => 6 | .relock _ => 5
    | .remove _ => 4 | .release _ => 3 | .free _ => 2
  | .exit (.enter _) | .main .enter => 2
  | .leave _ => 1
  | _ => 0

def Join.follows : Join → Join → Bool
  | .lock _, .scan _ | .scan _, .unlock _ | .unlock _, .set _ => true
  | .set f, .relock g | .relock f, .remove g | .remove f, .release g => f = g
  | .release f, .free g => f = g && !f.isMain
  | _, _ => false

def Exit.follows : Exit → Exit → Bool
  | .enter _, .lock | .lock, .remove | .remove, .visit _ | .visit [], .unlock | .unlock, .check
  | .check, .assert => true
  | .visit (_ :: todo), .visit rest => todo = rest
  | _, _ => false

def Pc.plain : Pc → Pc → Bool
  | .load .down, .load .body | .load .body, .load (.up _) | .load (.up true), .user => true
  | .user, .trap _ => true
  | .work stage, .work next => (Pc.work next).regions < (Pc.work stage).regions
  | .start stage, .start next => (Pc.start next).regions < (Pc.start stage).regions
  | .join stage, .join next => stage.follows next
  | .work .any, .leave false | .start .free, .leave false | .join _, .leave false => true
  | .create .execute, .create .failed | .create .execute, .create (.wait none) => true
  | .create (.wait (some _)), .leave false => true
  | .exit (.enter _), _ => false
  | .exit stage, .exit next => stage.follows next
  | .exit .assert, .clean => true
  | .main .assert, .clean | .clean, .clean | .clean, .tail _ | .tail _, .tail _ => true
  | _, _ => false

def Pc.flag : Pc → Option Bool
  | .load _ | .user | .trap _ | .start _ | .pthreadExit => some false
  | .leave false | .zombie | .gone => none
  | _ => some true

def Pc.entering : Pc → Bool
  | .exit (.enter _) => true
  | _ => false

structure Acts (c : Tid) (s s' : State) : Prop extends Moves c s s' where
  mainThread : (s'.proc c).mainThread = (s.proc c).mainThread
  blocked : ∀ t, t ≠ c → (s'.thread t).status = .blocked → (s.thread t).status = .blocked
  ended : ∀ t, t ≠ c → (s'.thread t).status = .zombie ∨ (s'.thread t).status = .dying →
    (s.thread t).status = .zombie ∨ (s.thread t).status = .dying ∨
      (s.thread t).inHandler = false ∨
      (s.proc c).exiting = .main ∧ ∃ code, (s.thread c).pc = .exit (.enter code)

structure SameProc (p q : Process) : Prop where
  exiting : q.exiting = p.exiting
  threadExiting : q.threadExiting = p.threadExiting
  exitCode : q.exitCode = p.exitCode
  inKernelThreads : q.inKernelThreads = p.inKernelThreads
  activeThreads : q.activeThreads = p.activeThreads

def loops (active : Nat) : Pc := if 1 < active then .main .wait else .main .assert

inductive Edge (c : Tid) (s s' : State) : Prop where
  | plain (moves : (s.thread c).pc.plain (s'.thread c).pc = true)
      (hand : (s'.thread c).inHandler = (s.thread c).inHandler)
      (proc : SameProc (s.proc c) (s'.proc c))
  | trap {k : Call} (old : (s.thread c).pc = .trap k) (new : (s'.thread c).pc = handler s c k)
      (hand : (s'.thread c).inHandler = true)
      (proc : SameProc {s.proc c with inKernelThreads := (s.proc c).inKernelThreads + 1}
        (s'.proc c))
  | fault (old : (s.thread c).pc = .work .any ∨ (s.thread c).pc = .work .body)
      (new : (s'.thread c).pc = .exit (.enter (-1)))
      (hand : (s'.thread c).inHandler = (s.thread c).inHandler)
      (proc : SameProc (s.proc c) (s'.proc c))
  | count (old : (s.thread c).pc = .create .count) (new : (s'.thread c).pc = .create .execute)
      (hand : (s'.thread c).inHandler = (s.thread c).inHandler)
      (proc : SameProc {s.proc c with
        inKernelThreads := (s.proc c).inKernelThreads + 1
        activeThreads := (s.proc c).activeThreads + 1} (s'.proc c))
  | failed (old : (s.thread c).pc = .create .failed) (new : (s'.thread c).pc = .leave false)
      (hand : (s'.thread c).inHandler = (s.thread c).inHandler)
      (proc : SameProc {s.proc c with
        inKernelThreads := decrement (s.proc c).inKernelThreads
        activeThreads := decrement (s.proc c).activeThreads} (s'.proc c))
  | leave {flag : Bool} (old : (s.thread c).pc = .leave flag)
      (known : (s.proc c).exiting ≠ .exception)
      (new : (s'.thread c).pc =
        if (s.proc c).exiting = .normal ∨ flag = true then .pthreadExit else .user)
      (hand : (s'.thread c).inHandler = false) (current : s'.current = s.current)
      (proc : SameProc {s.proc c with
        inKernelThreads := decrement (s.proc c).inKernelThreads} (s'.proc c))
      (wakes : (s.proc c).exiting = .main → flag = true → (s.proc c).activeThreads = 2 →
        (s.proc c).mainThread ≠ c → (s'.thread (s.proc c).mainThread).status ≠ .blocked)
  | ends (old : (s.thread c).pc = .pthreadExit) (new : (s'.thread c).pc = .zombie)
      (hand : (s'.thread c).inHandler = (s.thread c).inHandler)
      (proc : SameProc {s.proc c with
        activeThreads := decrement (s.proc c).activeThreads} (s'.proc c))
  | exitFirst {code : Int} (old : (s.thread c).pc = .exit (.enter code))
      (new : (s'.thread c).pc = .exit .lock) (level : (s.proc c).exiting = .none)
      (hand : (s'.thread c).inHandler = (s.thread c).inHandler)
      (proc : SameProc {setExitCode (s.proc c) code with
        exiting := .normal, threadExiting := some c} (s'.proc c))
  | exitMain {code : Int} (old : (s.thread c).pc = .exit (.enter code))
      (new : (s'.thread c).pc = .exit .lock) (level : (s.proc c).exiting = .main)
      (hand : (s'.thread c).inHandler = (s.thread c).inHandler)
      (proc : SameProc {setExitCode (s.proc c) code with
        inKernelThreads := decrement (s.proc c).inKernelThreads} (s'.proc c))
  | exitLater {code : Int} (old : (s.thread c).pc = .exit (.enter code))
      (new : (s'.thread c).pc = .leave true)
      (level : (s.proc c).exiting = .normal ∨ (s.proc c).exiting = .exception)
      (hand : (s'.thread c).inHandler = (s.thread c).inHandler)
      (proc : SameProc (setExitCode (s.proc c) code) (s'.proc c))
  | mainFirst (old : (s.thread c).pc = .main .enter)
      (new : (s'.thread c).pc = loops (s.proc c).activeThreads)
      (level : (s.proc c).exiting = .none)
      (hand : (s'.thread c).inHandler = (s.thread c).inHandler)
      (proc : SameProc {setExitCode (s.proc c) 0 with
        exiting := .main, threadExiting := some c} (s'.proc c))
      (blocks : 1 < (s.proc c).activeThreads → (s'.thread c).status = .blocked)
  | mainLater (old : (s.thread c).pc = .main .enter) (new : (s'.thread c).pc = .leave true)
      (level : (s.proc c).exiting ≠ .none)
      (hand : (s'.thread c).inHandler = (s.thread c).inHandler)
      (proc : SameProc (setExitCode (s.proc c) 0) (s'.proc c))
  | mainLoop (old : (s.thread c).pc = .main .wait)
      (new : (s'.thread c).pc = loops (s.proc c).activeThreads)
      (hand : (s'.thread c).inHandler = (s.thread c).inHandler)
      (proc : SameProc (s.proc c) (s'.proc c))
      (blocks : 1 < (s.proc c).activeThreads → (s'.thread c).status = .blocked)
  | gone (old : (s.thread c).pc = .load (.up false) ∨ (s.thread c).pc = .tail .free ∨
        (∃ flag, (s.thread c).pc = .leave flag) ∧ (s.proc c).exiting = .exception)
      (new : (s'.thread c).pc = .gone) (exiting : (s'.proc c).exiting = (s.proc c).exiting)
      (threadExiting : (s'.proc c).threadExiting = (s.proc c).threadExiting)
      (exitCode : (s'.proc c).exitCode = (s.proc c).exitCode)

section Places
variable {s : State} {c : Tid} {old new : Pc}
  {k : Call}

structure PlainMove (old new : Pc) : Prop where
  weight : new.weight = old.weight
  presence : new.presence = old.presence
  flag : new.flag = none ∨ new.flag = old.flag
  alive : old.ended = false ∧ new.ended = false
  closing : new.closing = true →
    old.closing = true ∧ (new.level = none ∨ new.level = old.level)
  loading : new.loading = true → old.loading = true
  main : ∀ stage, new ≠ .main stage
  passes : new ≠ .pthreadExit
  starved : new = .create (.wait none) → old = .create .execute
  entering : old.entering = false ∧ old ≠ .main .enter ∧ new.entering = false

theorem exitPlaces {stage : Exit} (inside : ∀ code, stage ≠ .enter code) :
    (Pc.exit stage).closing = true ∧ (Pc.exit stage).level = some .normal ∧
      (Pc.exit stage).entering = false := by
  cases stage with
  | enter code => exact absurd rfl (inside code)
  | _ => exact ⟨rfl, rfl, rfl⟩

theorem followsPast {stage next : Exit} (follows : stage.follows next = true) (code : Int) :
    next ≠ .enter code := by
  rintro rfl
  cases stage with
  | visit todo => cases todo <;> cases follows
  | _ => cases follows

theorem exitMove {stage next : Exit} (inside : ∀ code, stage ≠ .enter code)
    (follows : stage.follows next = true) : PlainMove (.exit stage) (.exit next) := by
  obtain ⟨closing, level, entering⟩ := exitPlaces inside
  obtain ⟨closing', level', entering'⟩ := exitPlaces (followsPast follows)
  exact ⟨rfl, rfl, .inr rfl, ⟨rfl, rfl⟩, fun _ => ⟨closing, .inr (level'.trans level.symm)⟩,
    by simp [Pc.loading], by simp, by simp, by simp, ⟨entering, by simp, entering'⟩⟩

theorem plainMove (moves : old.plain new = true) : PlainMove old new := by
  unfold Pc.plain at moves
  split at moves <;> try contradiction
  all_goals first
    | exact exitMove (by assumption) moves
    | constructor <;> simp [Pc.weight, Pc.presence, Pc.flag, Pc.closing, Pc.level, Pc.ended,
        Pc.loading, Pc.entering]

structure Handling (pc : Pc) : Prop where
  weight : pc.weight = 1
  presence : pc.presence = 1
  flag : pc.flag = some true
  ended : pc.ended = false
  loading : pc.loading = false
  passes : pc ≠ .pthreadExit
  starved : pc ≠ .create (.wait none)

theorem handlerHandling : Handling (handler s c k) := by
  cases k with
  | pthreadExit =>
    simp only [handler]
    split <;> constructor <;> simp [Pc.weight, Pc.presence, Pc.flag, Pc.ended, Pc.loading]
  | _ => constructor <;> simp [handler, Pc.weight, Pc.presence, Pc.flag, Pc.ended, Pc.loading]

theorem handlerOpen :
    (handler s c k).closing = false ∧ handler s c k ≠ .main .wait := by
  cases k with
  | pthreadExit =>
    simp only [handler]
    split <;> simp [Pc.closing]
  | _ => simp [handler, Pc.closing]

theorem loopsHandling (active : Nat) : Handling (loops active) := by
  unfold loops
  split <;> constructor <;> simp [Pc.weight, Pc.presence, Pc.flag, Pc.ended, Pc.loading]

theorem loopsLevel (active : Nat) : (loops active).level = some .main := by
  unfold loops
  split <;> rfl

theorem loopsQuiet (active : Nat) :
    (loops active).entering = false ∧ loops active ≠ .main .enter := by
  unfold loops
  split <;> exact ⟨rfl, by simp⟩

end Places

section Graph
variable (main : Prop) (level : Exiting) (active : Nat)

/-- The graph of the regions, for a main thread (`main`) and by the fields of its process. -/
inductive Jump : Pc → Pc → Prop where
  | down : Jump (.load .down) (.load .body)
  | body {success} : Jump (.load .body) (.load (.up success))
  | loaded : Jump (.load (.up true)) .user
  | call {k} : Jump .user (.trap k)
  | handles {k stage} : Jump (.trap k) (.work stage)
  | creates {k} : Jump (.trap k) (.create .count)
  | joins {k tid} : Jump (.trap k) (.join (.lock tid))
  | ends {k} : Jump (.trap k) (.leave true)
  | exits {k code} : Jump (.trap k) (.exit (.enter code))
  | exitsMain {k} (is : main) : Jump (.trap k) (.main .enter)
  | work {stage next} : Jump (.work stage) (.work next)
  | worked : Jump (.work .any) (.leave false)
  | faults {stage} : Jump (.work stage) (.exit (.enter (-1)))
  | count : Jump (.create .count) (.create .execute)
  | starves : Jump (.create .execute) (.create (.wait none))
  | noStack : Jump (.create .execute) (.create .failed)
  | created {t} : Jump (.create (.wait (some t))) (.leave false)
  | failed : Jump (.create .failed) (.leave false)
  | start {stage next} (nears : (Pc.start next).regions < (Pc.start stage).regions) :
      Jump (.start stage) (.start next)
  | started : Jump (.start .free) (.leave false)
  | join {stage next} (follows : stage.follows next = true) : Jump (.join stage) (.join next)
  | joined {stage} : Jump (.join stage) (.leave false)
  | passes {flag} : Jump (.leave flag) .pthreadExit
  | returns {flag} (stays : level ≠ .normal) : Jump (.leave flag) .user
  | dies {flag} (exception : level = .exception) : Jump (.leave flag) .gone
  | zombie : Jump .pthreadExit .zombie
  | entered {code} : Jump (.exit (.enter code)) (.exit .lock)
  | later {code} : Jump (.exit (.enter code)) (.leave true)
  | exit {stage next} (inside : ∀ code, stage ≠ .enter code) (follows : stage.follows next = true) :
      Jump (.exit stage) (.exit next)
  | asserted : Jump (.exit .assert) .clean
  | mainLater : Jump (.main .enter) (.leave true)
  | waits {stage} (first : stage = .enter ∧ level = .none ∨ stage = .wait) (more : 1 < active) :
      Jump (.main stage) (.main .wait)
  | alone {stage} (first : stage = .enter ∧ level = .none ∨ stage = .wait) (few : ¬1 < active) :
      Jump (.main stage) (.main .assert)
  | mainAsserted : Jump (.main .assert) .clean
  | cleans : Jump .clean .clean
  | cleaned {stage} : Jump .clean (.tail stage)
  | tail {stage next} : Jump (.tail stage) (.tail next)
  | freed : Jump (.tail .free) .gone
  | unloaded : Jump (.load (.up false)) .gone

end Graph

section Jumps
variable {s s' : State} {c : Tid} {main : Prop} {level : Exiting} {active : Nat} {old new : Pc}
  {k : Call}

theorem plainJumps (moves : old.plain new = true) : Jump main level active old new := by
  unfold Pc.plain at moves
  split at moves <;> try contradiction
  all_goals first
    | exact .start (of_decide_eq_true moves)
    | exact .join moves
    | exact .exit (by assumption) moves
    | constructor

theorem handlerJumps : Jump ((s.proc c).mainThread = c) level active (.trap k) (handler s c k) := by
  cases k with
  | pthreadExit =>
    simp only [handler]
    split
    · rename_i is
      exact .exitsMain (of_decide_eq_true is)
    · exact .ends
  | _ => constructor

theorem loopsJumps {stage : Main} (first : stage = .enter ∧ level = .none ∨ stage = .wait) :
    Jump main level active (.main stage) (loops active) := by
  unfold loops
  split
  · exact .waits first ‹_›
  · exact .alone first ‹_›

theorem edgeJumps (edge : Edge c s s') :
    Jump ((s.proc c).mainThread = c) (s.proc c).exiting (s.proc c).activeThreads (s.thread c).pc
      (s'.thread c).pc := by
  cases edge with
  | plain moves => exact plainJumps moves
  | trap old new => rw [old, new]; exact handlerJumps
  | fault old new => rcases old with old | old <;> rw [old, new] <;> exact .faults
  | leave old known new =>
    rw [old, new]
    split
    · exact .passes
    · rename_i stays
      exact .returns fun normal => stays (.inl normal)
  | mainFirst old new level => rw [old, new]; exact loopsJumps (.inl ⟨rfl, level⟩)
  | mainLoop old new => rw [old, new]; exact loopsJumps (.inr rfl)
  | gone old new =>
    rw [new]
    rcases old with old | old | ⟨⟨_, old⟩, exception⟩ <;> rw [old]
    · exact .unloaded
    · exact .freed
    · exact .dies exception
  | count old new | failed old new | ends old new | exitFirst old new | exitMain old new
  | exitLater old new | mainLater old new => rw [old, new]; constructor

section Leads
variable (jump : Jump main level active old new)
include jump

theorem jumpAlive : old.ended = false := by
  cases jump <;> rfl

theorem jumpStarved : old ≠ .create (.wait none) := by
  cases jump <;> simp

theorem jumpWeight (zero : old.weight = 0) : new.weight = 0 ∨ ∃ k, old = .trap k := by
  cases jump <;> first | exact .inl rfl | exact .inr ⟨_, rfl⟩ | cases zero

theorem jumpJoin {stage : Join} (now : new = .join stage) :
    (∃ tid, stage = .lock tid) ∨ ∃ before, old = .join before := by
  subst now
  cases jump with
  | joins => exact .inl ⟨_, rfl⟩
  | join => exact .inr ⟨_, rfl⟩

theorem jumpExit {stage : Exit} (now : new = .exit stage) (inside : ∀ code, stage ≠ .enter code) :
    ∃ before, old = .exit before := by
  subst now
  cases jump with
  | exits | faults => exact absurd rfl (inside _)
  | entered | exit => exact ⟨_, rfl⟩

theorem jumpJoinFollows {before stage : Join} (was : old = .join before) (now : new = .join stage) :
    before.follows stage = true := by
  subst was now
  cases jump with
  | join follows => exact follows

theorem jumpExitFollows {before stage : Exit} (was : old = .exit before) (now : new = .exit stage) :
    before.follows stage = true := by
  subst was now
  cases jump with
  | entered => rfl
  | exit inside follows => exact follows

theorem jumpCloses (closes : old.closing = true) : new.closing = true ∨ new = .gone := by
  cases jump with
  | exit inside follows => exact .inl (exitPlaces (followsPast follows)).1
  | _ => first | exact .inl rfl | exact .inr rfl | cases closes

theorem jumpStarves (now : new = .create (.wait none)) : old = .create .execute := by
  subst now
  cases jump
  rfl

theorem jumpEnding (ended : new.ended = true) :
    old = .pthreadExit ∨ old = .load (.up false) ∨ old = .tail .free ∨ level = .exception := by
  cases jump with
  | zombie => exact .inl rfl
  | unloaded => exact .inr (.inl rfl)
  | freed => exact .inr (.inr (.inl rfl))
  | dies exception => exact .inr (.inr (.inr exception))
  | _ => cases ended

theorem jumpAbsent (now : new.absent = true) (here : old.absent = false) :
    (∃ stage next, old = .start stage ∧ new = .start next) ∨
      (∃ next, new = .exit next ∧ ∀ code, next ≠ .enter code) ∨ old = .main .assert ∨
      old = .load (.up false) ∨ level = .exception := by
  cases jump with
  | start => exact .inl ⟨_, _, rfl, rfl⟩
  | exit _ follows => exact .inr (.inl ⟨_, rfl, followsPast follows⟩)
  | mainAsserted => exact .inr (.inr (.inl rfl))
  | unloaded => exact .inr (.inr (.inr (.inl rfl)))
  | dies exception => exact .inr (.inr (.inr (.inr exception)))
  | asserted | cleans | cleaned | tail | freed => cases here
  | _ => cases now

theorem jumpOutside (now : new.outside = true) :
    old.outside = true ∨ old.loading = true ∨ level ≠ .normal := by
  cases jump with
  | call => exact .inl rfl
  | loaded => exact .inr (.inl rfl)
  | returns stays => exact .inr (.inr stays)
  | _ => cases now

theorem jumpLoading (loads : new.loading = true) : old.loading = true := by
  cases jump <;> first | rfl | cases loads

theorem jumpMain {stage : Main} (now : new = .main stage) :
    (∃ before, old = .main before) ∨ main := by
  subst now
  cases jump with
  | exitsMain is => exact .inr is
  | waits | alone => exact .inl ⟨_, rfl⟩

theorem jumpLeavesEntry {code : Int} (entry : old = .exit (.enter code)) :
    new ≠ .exit (.enter code) := by
  subst entry
  cases jump with
  | exit inside => exact absurd rfl (inside code)
  | _ => simp

theorem jumpGone (now : new = .gone) :
    old = .load (.up false) ∨ old = .tail .free ∨ level = .exception := by
  subst now
  cases jump with
  | unloaded => exact .inl rfl
  | freed => exact .inr (.inl rfl)
  | dies exception => exact .inr (.inr exception)

theorem jumpWaits (now : new = .main .wait) :
    1 < active ∧ ∃ stage, old = .main stage ∧ (level = .none ∨ stage = .wait) := by
  subst now
  cases jump with
  | waits first more => exact ⟨more, _, rfl, first.imp And.right id⟩

theorem jumpZombie (here : old = .pthreadExit) : new = .zombie := by
  subst here
  cases jump
  rfl

theorem jumpLeaves {flag : Bool} (here : old = .leave flag) (normal : level = .normal) :
    new = .pthreadExit := by
  subst here normal
  cases jump with
  | passes => rfl
  | returns stays => exact absurd rfl stays
  | dies exception => cases exception

theorem jumpLate (late : new.late = true) :
    old.late = true ∨ old = .exit .assert ∨ old.presence = 1 ∧ ¬1 < active ∨
      old = .load (.up false) ∨ level = .exception := by
  cases jump with
  | asserted => exact .inr (.inl rfl)
  | alone first few => exact .inr (.inr (.inl ⟨rfl, few⟩))
  | unloaded => exact .inr (.inr (.inr (.inl rfl)))
  | dies exception => exact .inr (.inr (.inr (.inr exception)))
  | _ => first | exact .inl rfl | cases late

end Leads

end Jumps

/- Nobody moves, and nothing the counters depend on changes: `c` may go to sleep in a
kernel function, others are woken, or made zombies out of user mode. -/
structure Still (c : Tid) (s s' : State) : Prop where
  created : s'.created = s.created
  pid : ∀ t, (s'.thread t).pid = (s.thread t).pid
  pc : ∀ t, (s'.thread t).pc = (s.thread t).pc
  inHandler : ∀ t, (s'.thread t).inHandler = (s.thread t).inHandler
  pcb : ∀ p, p ≠ (s.thread c).pid → s'.pcb p = s.pcb p
  proc : SameProc (s.proc c) (s'.proc c)
  mainThread : (s'.proc c).mainThread = (s.proc c).mainThread
  blocked : ∀ t, (s'.thread t).status = .blocked →
    (s.thread t).status = .blocked ∨ t = c ∧ (s.thread t).pc.inFunction = true
  ended : ∀ t, (s'.thread t).status = .zombie ∨ (s'.thread t).status = .dying →
    (s.thread t).status = .zombie ∨ (s.thread t).status = .dying ∨ (s.thread t).inHandler = false

inductive Stepped (a : Action) (s s' : State) : Prop where
  | still {c : Tid} (still : Still c s s')
  | acts {c : Tid} (runs : s.current = some c) (ok : stepCurrent s c a = .ok s')
      (acts : Acts c s s') (edge : Edge c s s')
  | creates {c : Tid} (runs : s.current = some c) (old : (s.thread c).pc = .create .execute)
      (now : s' = pthreadExecute s c .execute)
  | launches (launch : a = .launch) (now : s' = (threadCreate s s.created (.load .down)).setPcb s.created
      (fun _ => initProcess s.created))

section Still
variable {s s' u : State} {c t : Tid} {p q r : Process}
  {f : Thread → Thread}

theorem sameProcRefl : SameProc p p := ⟨rfl, rfl, rfl, rfl, rfl⟩

theorem sameProcTrans (left : SameProc p q) (right : SameProc q r) : SameProc p r :=
  ⟨right.exiting.trans left.exiting, right.threadExiting.trans left.threadExiting,
    right.exitCode.trans left.exitCode, right.inKernelThreads.trans left.inKernelThreads,
    right.activeThreads.trans left.activeThreads⟩

theorem stillTrans (left : Still c s u) (right : Still c u s') : Still c s s' := by
  refine ⟨right.created.trans left.created, fun t => (right.pid t).trans (left.pid t),
    fun t => (right.pc t).trans (left.pc t), fun t => (right.inHandler t).trans (left.inHandler t),
    ?_, sameProcTrans left.proc right.proc, right.mainThread.trans left.mainThread, ?_, ?_⟩
  · intro p other
    exact (right.pcb p (left.pid c ▸ other)).trans (left.pcb p other)
  · intro t blocked
    rcases right.blocked t blocked with before | ⟨self, inside⟩
    · exact left.blocked t before
    · exact .inr ⟨self, left.pc t ▸ inside⟩
  · intro t ended
    rcases right.ended t ended with zombie | dying | user
    · exact left.ended t (.inl zombie)
    · exact left.ended t (.inr dying)
    · exact .inr (.inr (left.inHandler t ▸ user))

theorem stillThread (pid : (f (s.thread t)).pid = (s.thread t).pid)
    (pc : (f (s.thread t)).pc = (s.thread t).pc)
    (inHandler : (f (s.thread t)).inHandler = (s.thread t).inHandler)
    (blocked : (f (s.thread t)).status = .blocked →
      (s.thread t).status = .blocked ∨ t = c ∧ (s.thread t).pc.inFunction = true)
    (ended : (f (s.thread t)).status = .zombie ∨ (f (s.thread t)).status = .dying →
      (s.thread t).status = .zombie ∨ (s.thread t).status = .dying ∨
        (s.thread t).inHandler = false) : Still c s (s.setThread t f) := by
  have all : ∀ u, (s.setThread t f).thread u = if u = t then f (s.thread t) else s.thread u := by
    intro u
    simp
  refine ⟨rfl, ?_, ?_, ?_, fun _ _ => rfl, ?_, ?_, ?_, ?_⟩
  · intro u; rw [all]; split
    · subst u; exact pid
    · rfl
  · intro u; rw [all]; split
    · subst u; exact pc
    · rfl
  · intro u; rw [all]; split
    · subst u; exact inHandler
    · rfl
  · have same : (s.setThread t f).proc c = s.proc c := by
      unfold State.proc
      rw [all]; split
      · subst c; rw [pid]; rfl
      · rfl
    rw [same]; exact sameProcRefl
  · unfold State.proc
    rw [all]; split
    · subst c; rw [pid]; rfl
    · rfl
  · intro u; rw [all]; split
    · subst u; exact blocked
    · exact .inl
  · intro u; rw [all]; split
    · subst u; exact ended
    · rintro (zombie | dying)
      · exact .inl zombie
      · exact .inr (.inl dying)

theorem stillOwn (pid : (f (s.thread t)).pid = (s.thread t).pid)
    (pc : (f (s.thread t)).pc = (s.thread t).pc)
    (inHandler : (f (s.thread t)).inHandler = (s.thread t).inHandler)
    (status : (f (s.thread t)).status = (s.thread t).status) : Still c s (s.setThread t f) := by
  refine stillThread pid pc inHandler ?_ ?_ <;> rw [status]
  · exact .inl
  · rintro (zombie | dying)
    · exact .inl zombie
    · exact .inr (.inl dying)

theorem stillSame (created : s'.created = s.created) (thread : s'.thread = s.thread)
    (pcb : s'.pcb = s.pcb) : Still c s s' := by
  refine ⟨created, ?_, ?_, ?_, ?_, ?_, ?_, ?_, ?_⟩ <;> simp only [State.proc, thread, pcb]
  · exact fun _ => trivial
  · exact fun _ => trivial
  · exact fun _ => trivial
  · exact fun _ _ => trivial
  · exact sameProcRefl
  · exact fun _ => .inl
  · rintro t (zombie | dying)
    · exact .inl zombie
    · exact .inr (.inl dying)

theorem stillRefl : Still c s s := stillSame rfl rfl rfl

theorem stillProc {f : Process → Process} (same : SameProc (s.proc c) (f (s.proc c)))
    (main : (f (s.proc c)).mainThread = (s.proc c).mainThread) : Still c s (s.setProc c f) := by
  refine ⟨rfl, fun _ => rfl, fun _ => rfl, fun _ => rfl, ?_, ?_, ?_, fun _ => .inl, ?_⟩
  · intro p other
    simp [other]
  · simpa using same
  · simpa using main
  · rintro t (zombie | dying)
    · exact .inl zombie
    · exact .inr (.inl dying)

theorem threadUnblockOk (ok : threadUnblock s t = .ok s') :
    (s.thread t).freed = false ∧ (s.thread t).status = .blocked ∧ (s.thread t).elem = none ∧
    s' = {(s.setThread t (fun th =>
      {th with elem := some .ready, queue := some .ready, status := .ready})) with
      readyList := s.readyList ++ [t]} := by
  unfold threadUnblock at ok
  split at ok <;> try contradiction
  rename_i kept
  split at ok <;> try contradiction
  rename_i blocked
  split at ok <;> try contradiction
  rename_i free
  refine ⟨by simpa using kept, by simpa using blocked, by simpa using free, ?_⟩
  exact (Except.ok.inj ok).symm

theorem threadUnblockStill (ok : threadUnblock s t = .ok s') : Still c s s' := by
  obtain ⟨_, _, _, rfl⟩ := threadUnblockOk ok
  refine stillTrans (u := s.setThread t (fun th =>
    {th with elem := some .ready, queue := some .ready, status := .ready})) ?_
    (stillSame rfl rfl rfl)
  exact stillThread rfl rfl rfl (by simp) (by simp)

theorem threadUnblockCurrent (ok : threadUnblock s t = .ok s') : s'.current = s.current := by
  obtain ⟨_, _, _, rfl⟩ := threadUnblockOk ok
  rfl

theorem threadUnblockReady (ok : threadUnblock s t = .ok s') :
    (s'.thread t).status ≠ .blocked := by
  obtain ⟨_, _, _, rfl⟩ := threadUnblockOk ok
  simp

theorem wakeUpJoinerStill (ok : wakeUpJoiner s t = .ok s') : Still c s s' := by
  unfold wakeUpJoiner at ok
  split at ok
  · cases ok
    exact stillRefl
  · exact threadUnblockStill ok

theorem sleepStill {pc : Pc} (here : (s.thread c).pc = pc) (inside : pc.inFunction = true) :
    Still c s (sleep s c) := by
  unfold sleep
  refine stillTrans (u := s.setThread c (fun th =>
    {th with elem := some .wait, queue := some .wait, status := .blocked})) ?_
    (stillSame rfl rfl rfl)
  exact stillThread rfl rfl rfl (fun _ => .inr ⟨rfl, here ▸ inside⟩) (by simp)

theorem pallocStill (ok : pallocFreePage s t = .ok s') : Still c s s' := by
  unfold pallocFreePage at ok
  split at ok <;> try contradiction
  cases ok
  exact stillOwn rfl rfl rfl rfl

theorem filesysUpStill (inside : Tid → Bool) : Still c s (filesysUp s inside) := by
  refine ⟨rfl, fun _ => rfl, fun _ => rfl, fun _ => rfl, fun _ _ => rfl, sameProcRefl, rfl,
    fun _ => .inl, ?_⟩
  rintro t (zombie | dying)
  · exact .inl zombie
  · exact .inr (.inl dying)

theorem progRemoveStill (ok : progRemove s (s.thread c).pid t = .ok s') : Still c s s' := by
  unfold progRemove at ok
  split at ok <;> try contradiction
  cases ok
  exact stillProc (f := fun p => {p with threads := p.threads.erase t}) ⟨rfl, rfl, rfl, rfl, rfl⟩
    rfl

theorem exitVisitStill (ok : exitVisit s t = .ok s') : Still c s s' := by
  unfold exitVisit at ok
  split at ok <;> try contradiction
  split at ok
  · rename_i user
    obtain ⟨u, removed, woken⟩ := bindOk.mp ok
    refine stillTrans (stillThread (f := fun th => {th with status := .zombie}) rfl rfl rfl
      (by simp) (fun _ => .inr (.inr user))) ?_
    -- a zombie is in none of the two statuses the list is looked up for
    unfold exitHelperRemoveFromList at removed
    simp only [State.setThread, Function.update_self, reduceCtorEq, or_self, and_false,
      if_false] at removed
    cases removed
    exact wakeUpJoinerStill woken
  · cases ok
    exact stillRefl

end Still

section Edge
variable {s s' u : State} {c t m : Tid}
  {a : Action} {pc next : Pc} {flag : Bool} {f : Target} {code : Int} {l : LockId}

structure Alone (c : Tid) (s s' : State) : Prop where
  created : s'.created = s.created
  others : ∀ t, t ≠ c → s'.thread t = s.thread t
  pid : (s'.thread c).pid = (s.thread c).pid
  pcb : ∀ p, p ≠ (s.thread c).pid → s'.pcb p = s.pcb p
  main : (s'.proc c).mainThread = (s.proc c).mainThread

theorem aloneTrans (left : Alone c s u) (right : Alone c u s') : Alone c s s' := by
  refine ⟨right.created.trans left.created, fun t other =>
    (right.others t other).trans (left.others t other), right.pid.trans left.pid, ?_,
    right.main.trans left.main⟩
  intro p other
  exact (right.pcb p (left.pid ▸ other)).trans (left.pcb p other)

theorem aloneSame (created : s'.created = s.created) (thread : s'.thread = s.thread)
    (pcb : s'.pcb = s.pcb) : Alone c s s' := by
  refine ⟨created, ?_, ?_, ?_, ?_⟩ <;> simp [thread, pcb]

theorem aloneThread {f : Thread → Thread} (pid : (f (s.thread c)).pid = (s.thread c).pid) :
    Alone c s (s.setThread c f) := by
  refine ⟨rfl, ?_, by simpa using pid, fun _ _ => rfl, by simp [pid]⟩
  intro t other
  simp [other]

theorem aloneOwn {x : Thread} (thread : s'.thread = Function.update s.thread c x)
    (created : s'.created = s.created) (pcb : s'.pcb = s.pcb) (pid : x.pid = (s.thread c).pid) :
    Alone c s s' :=
  aloneTrans (aloneThread (f := fun _ => x) pid) (aloneSame created thread pcb)

theorem alonePc (next : Pc) : Alone c s (s.setPc c next) := aloneThread rfl

theorem aloneProc {f : Process → Process}
    (main : (f (s.proc c)).mainThread = (s.proc c).mainThread) : Alone c s (s.setProc c f) := by
  refine ⟨rfl, fun _ _ => rfl, rfl, ?_, by simpa using main⟩
  intro p other
  simp [other]

theorem aloneBlock : Alone c s (threadBlock s c) :=
  aloneOwn rfl rfl rfl rfl

theorem aloneExit : Alone c s (threadExit s c) :=
  aloneOwn rfl rfl rfl rfl

theorem aloneActs (alone : Alone c s s') : Acts c s s' := by
  refine ⟨⟨alone.created, ?_, ?_, ?_, alone.pcb⟩, alone.main, ?_, ?_⟩
  · intro t
    by_cases self : t = c
    · rw [self]; exact alone.pid
    · rw [alone.others t self]
  · intro t other
    rw [alone.others t other]
  · intro t other
    rw [alone.others t other]
  · intro t other
    rw [alone.others t other]; exact id
  · intro t other
    rw [alone.others t other]
    rintro (zombie | dying)
    · exact .inl zombie
    · exact .inr (.inl dying)

theorem actsAround {v : State} (left : Alone c s v) (still : Still c v u) (right : Alone c u s') :
    Acts c s s' := by
  refine ⟨⟨right.created.trans (still.created.trans left.created), ?_, ?_, ?_, ?_⟩,
    right.main.trans (still.mainThread.trans left.main), ?_, ?_⟩
  · intro t
    by_cases self : t = c
    · rw [self]; exact right.pid.trans ((still.pid c).trans left.pid)
    · rw [right.others t self, still.pid t, left.others t self]
  · intro t other
    rw [right.others t other, still.pc t, left.others t other]
  · intro t other
    rw [right.others t other, still.inHandler t, left.others t other]
  · intro p other
    have second : p ≠ (v.thread c).pid := left.pid ▸ other
    have third : p ≠ (u.thread c).pid := (still.pid c).symm ▸ second
    rw [right.pcb p third, still.pcb p second, left.pcb p other]
  · intro t other
    rw [right.others t other, ← left.others t other]
    intro blocked
    rcases still.blocked t blocked with before | ⟨self, _⟩
    · exact before
    · exact absurd self other
  · intro t other
    rw [right.others t other, ← left.others t other]
    intro ended
    rcases still.ended t ended with zombie | dying | user
    · exact .inl zombie
    · exact .inr (.inl dying)
    · exact .inr (.inr (.inl user))

theorem aloneRefl : Alone c s s := aloneSame rfl rfl rfl

theorem actsAfter (still : Still c s u) (acts : Acts c u s') : Acts c s s' := by
  refine ⟨⟨acts.created.trans still.created, fun t => (acts.pid t).trans (still.pid t),
    fun t other => (acts.pc t other).trans (still.pc t),
    fun t other => (acts.inHandler t other).trans (still.inHandler t), ?_⟩,
    acts.mainThread.trans still.mainThread, ?_, ?_⟩
  · intro p other
    exact (acts.pcb p (still.pid c ▸ other)).trans (still.pcb p other)
  · intro t other blocked
    rcases still.blocked t (acts.blocked t other blocked) with before | ⟨self, _⟩
    · exact before
    · exact absurd self other
  · intro t other ended
    rcases acts.ended t other ended with zombie | dying | user | ⟨main, code, pc⟩
    · rcases still.ended t (.inl zombie) with before | before | user
      · exact .inl before
      · exact .inr (.inl before)
      · exact .inr (.inr (.inl user))
    · rcases still.ended t (.inr dying) with before | before | user
      · exact .inl before
      · exact .inr (.inl before)
      · exact .inr (.inr (.inl user))
    · exact .inr (.inr (.inl (still.inHandler t ▸ user)))
    · exact .inr (.inr (.inr ⟨still.proc.exiting ▸ main, code, still.pc c ▸ pc⟩))

inductive Ran (c : Tid) (s s' : State) : Prop where
  | still (still : Still c s s')
  | acts (acts : Acts c s s') (edge : Edge c s s')

theorem ranPlain (still : Still c s u) (here : (s.thread c).pc = pc)
    (moves : pc.plain next = true) : Ran c s (u.setPc c next) := by
  refine .acts (actsAround aloneRefl still (alonePc next)) (.plain ?_ ?_ ?_)
  · simpa [here] using moves
  · simpa using still.inHandler c
  · simpa using still.proc

theorem readerRan (here : (s.thread c).pc = pc) (inside : pc.inFunction = true)
    (moves : pc.plain next = true) : Ran c s (rwLockAcquireReader s c next) := by
  unfold rwLockAcquireReader
  split
  · exact ranPlain (stillProc ⟨rfl, rfl, rfl, rfl, rfl⟩ rfl) here moves
  · exact .still (sleepStill here inside)

theorem writerRan (here : (s.thread c).pc = pc) (inside : pc.inFunction = true)
    (moves : pc.plain next = true) : Ran c s (rwLockAcquireWriter s c next) := by
  unfold rwLockAcquireWriter
  split
  · exact ranPlain (stillProc ⟨rfl, rfl, rfl, rfl, rfl⟩ rfl) here moves
  · exact .still (sleepStill here inside)

theorem readerStill : Still c s (rwLockReleaseReader s c) :=
  stillProc ⟨rfl, rfl, rfl, rfl, rfl⟩ rfl

theorem writerStill : Still c s (rwLockReleaseWriter s c) :=
  stillProc ⟨rfl, rfl, rfl, rfl, rfl⟩ rfl

theorem filesysDownRan (here : (s.thread c).pc = pc) (inside : pc.inFunction = true)
    (moves : pc.plain next = true) : Ran c s (filesysDown s c next) := by
  unfold filesysDown
  split
  · exact .still (sleepStill here inside)
  · refine .acts (aloneActs (aloneOwn rfl rfl rfl rfl)) (.plain ?_ ?_ ?_)
    · simpa [here] using moves
    · simp
    · simpa using sameProcRefl

theorem startProcessRan {stage : Load} (here : (s.thread c).pc = .load stage) :
    Ran c s (startProcess s c stage) := by
  cases stage with
  | down => exact filesysDownRan here rfl rfl
  | body => exact ranPlain stillRefl here rfl
  | up success =>
    have still : Still c s (filesysUp s (fun t => t = c)) := filesysUpStill _
    cases success with
    | true => exact ranPlain still here rfl
    | false =>
      refine .acts (actsAround aloneRefl still (aloneTrans (aloneProc (f := fun p =>
        {p with threads := []}) rfl) aloneExit)) (.gone (.inl here) ?_ ?_ ?_ ?_)
      · simp [startProcess, threadExit]
      all_goals simp [startProcess, threadExit, filesysUp]

theorem workStepRan {stage : Work} (here : (s.thread c).pc = .work stage) :
    Ran c s (workStep s c stage) := by
  cases stage with
  | any | body => exact ranPlain stillRefl here rfl
  | down => exact filesysDownRan here rfl rfl
  | store | clear => exact ranPlain (stillProc ⟨rfl, rfl, rfl, rfl, rfl⟩ rfl) here rfl
  | up => exact ranPlain (filesysUpStill _) here rfl

theorem startPthreadRan {stage : Start} (here : (s.thread c).pc = .start stage) :
    Ran c s (startPthread s c stage) := by
  cases stage with
  | setup | check => exact ranPlain stillRefl here (by split <;> rfl)
  | lock => exact writerRan here rfl rfl
  | push => exact ranPlain (stillProc ⟨rfl, rfl, rfl, rfl, rfl⟩ rfl) here rfl
  | unlock => exact ranPlain writerStill here rfl
  | up =>
    unfold startPthread
    refine .acts (aloneActs (aloneThread rfl)) (.plain ?_ ?_ ?_)
    · simp [here, Pc.plain, Pc.regions]
    · simp
    · simpa using sameProcRefl
  | free => exact ranPlain stillRefl here rfl

theorem createRan {stage : Create} (here : (s.thread c).pc = .create stage)
    (other : stage ≠ .execute) : Ran c s (pthreadExecute s c stage) := by
  cases stage with
  | execute => exact absurd rfl other
  | count =>
    refine .acts (aloneActs (aloneTrans (aloneProc rfl) (alonePc _))) (.count here ?_ ?_ ?_)
    · simp [pthreadExecute]
    · simp [pthreadExecute]
    · simpa [pthreadExecute] using sameProcRefl
  | wait target =>
    cases target with
    | none => exact .still (sleepStill here rfl)
    | some t =>
      simp only [pthreadExecute]
      split
      · exact ranPlain stillRefl here rfl
      · exact .still (sleepStill here rfl)
  | failed =>
    refine .acts (aloneActs (aloneTrans (aloneProc rfl) (alonePc _))) (.failed here ?_ ?_ ?_)
    · simp [pthreadExecute]
    · simp [pthreadExecute]
    · simpa [pthreadExecute] using sameProcRefl

theorem trapRan {k : Call} (here : (s.thread c).pc = .trap k) : Ran c s (trap s c k) := by
  unfold trap
  refine .acts (aloneActs (aloneTrans (aloneProc rfl) (aloneThread rfl))) (.trap here ?_ ?_ ?_)
  · have same : isMainThread (s.setProc c fun p => {p with
        inKernelThreads := p.inKernelThreads + 1}) c = isMainThread s c :=
      decide_eq_decide.mpr (by simp)
    simp only [State.setThread, Function.update_self]
    cases k <;> simp only [handler, same]
  · simp
  · simpa using sameProcRefl

theorem joinSetRan (here : (s.thread c).pc = .join (.set f))
    (ok : joinSet s c f = .ok s') : Ran c s s' := by
  unfold joinSet at ok
  split at ok <;> try contradiction
  cases ok
  have still : Still c s (s.setThread f.pos (fun th => {th with joinedBy := some c})) :=
    stillOwn rfl rfl rfl rfl
  split
  · refine .acts (actsAround aloneRefl still (aloneTrans (alonePc _) aloneBlock)) (.plain ?_ ?_ ?_)
    · simp [threadBlock, here, Pc.plain, Join.follows]
    · simpa [threadBlock] using still.inHandler c
    · simpa [threadBlock] using still.proc
  · exact ranPlain still here (decide_eq_true rfl)

theorem joinReturnRan {pos : Tid} (still : Still c s u) (here : (s.thread c).pc = pc)
    (moves : pc.plain (.leave false) = true) : Ran c s (joinReturn u c pos) :=
  ranPlain (stillTrans still (stillOwn rfl rfl rfl rfl)) here moves

theorem joinRemoveStill (ok : joinRemove s c f = .ok s') : Still c s s' := by
  unfold joinRemove at ok
  split at ok
  · cases ok
    exact stillRefl
  split at ok <;> try contradiction
  split at ok <;> try contradiction
  exact progRemoveStill ok

theorem pthreadJoinRan {stage : Join} (here : (s.thread c).pc = .join stage)
    (ok : pthreadJoin s c stage = .ok s') : Ran c s s' := by
  cases stage with
  | lock tid =>
    cases ok
    exact readerRan here rfl rfl
  | scan tid =>
    obtain ⟨found, _, ok⟩ := bindOk.mp ok
    cases ok
    exact ranPlain stillRefl here rfl
  | unlock found =>
    cases found with
    | none =>
      cases ok
      exact ranPlain readerStill here rfl
    | some f =>
      simp only [pthreadJoin] at ok
      split at ok <;> cases ok <;>
        exact ranPlain readerStill here rfl
  | set f => exact joinSetRan here ok
  | relock f =>
    cases ok
    exact writerRan here rfl (decide_eq_true rfl)
  | remove f =>
    obtain ⟨u, removed, ok⟩ := bindOk.mp ok
    cases ok
    exact ranPlain (joinRemoveStill removed) here (decide_eq_true rfl)
  | release f =>
    cases ok
    split
    · exact joinReturnRan writerStill here rfl
    · rename_i other
      exact ranPlain writerStill here (by simpa [Pc.plain, Join.follows] using other)
  | free f =>
    obtain ⟨u, freed, ok⟩ := bindOk.mp ok
    cases ok
    exact joinReturnRan (pallocStill freed) here rfl

theorem cleanThreadsRan (here : (s.thread c).pc = .clean) (ok : cleanThreads s c = .ok s') :
    Ran c s s' := by
  unfold cleanThreads at ok
  split at ok
  · cases ok
    exact ranPlain stillRefl here rfl
  · exact .still (stillTrans (stillProc ⟨rfl, rfl, rfl, rfl, rfl⟩ rfl) (pallocStill ok))

theorem processExitTailRan {stage : Tail} (here : (s.thread c).pc = .tail stage)
    (ok : processExitTail s c stage = .ok s') : Ran c s s' := by
  cases stage with
  | filesys =>
    cases ok
    split
    · exact ranPlain (filesysUpStill _) here rfl
    · exact ranPlain stillRefl here rfl
  | locks =>
    cases ok
    exact ranPlain (stillTrans (stillOwn rfl rfl rfl rfl)
      (stillProc ⟨rfl, rfl, rfl, rfl, rfl⟩ rfl)) here rfl
  | free =>
    cases ok
    refine .acts (aloneActs (aloneTrans ?_ aloneExit)) (.gone (.inr (.inl here)) ?_ ?_ ?_ ?_)
    · split
      · exact aloneRefl
      · exact aloneProc rfl
    all_goals split <;> simp [threadExit]

theorem leaveRan (here : (s.thread c).pc = .leave flag)
    (known : (s.proc c).exiting ≠ .exception)
    (woken : Still c ((s.setProc c (fun p =>
      {p with inKernelThreads := decrement p.inKernelThreads})).setThread c
        (fun th => {th with inHandler := false})) u) (current : u.current = s.current)
    (wakes : (s.proc c).exiting = .main → flag = true → (s.proc c).activeThreads = 2 →
      (s.proc c).mainThread ≠ c → (u.thread (s.proc c).mainThread).status ≠ .blocked) :
    Ran c s (u.setPc c
      (if (s.proc c).exiting = .normal ∨ flag = true then .pthreadExit else .user)) := by
  refine .acts (actsAround (aloneTrans (aloneProc rfl) (aloneThread rfl)) woken (alonePc _))
    (.leave here known ?_ ?_ ?_ ?_ ?_)
  · simp
  · simpa using woken.inHandler c
  · simpa using current
  · simpa using woken.proc
  · intro main pthreadExit two other
    simp only [State.setPc, State.setThread]
    rw [Function.update_of_ne other]
    exact wakes main pthreadExit two other

theorem exitIfExitingRan (here : (s.thread c).pc = .leave flag)
    (ok : exitIfExiting s c flag = .ok s') : Ran c s s' := by
  unfold exitIfExiting at ok
  simp only at ok
  have proc : ((s.setProc c (fun p => {p with
      inKernelThreads := decrement p.inKernelThreads})).setThread c
        (fun th => {th with inHandler := false})).proc c =
      {s.proc c with inKernelThreads := decrement (s.proc c).inKernelThreads} := by simp
  have leaving : Alone c s ((s.setProc c (fun p => {p with
      inKernelThreads := decrement p.inKernelThreads})).setThread c
        (fun th => {th with inHandler := false})) := aloneTrans (aloneProc rfl) (aloneThread rfl)
  simp only [proc] at ok
  split at ok
  · rename_i level
    cases ok
    refine .acts (aloneActs (aloneTrans leaving aloneExit)) (.gone (.inr (.inr ⟨⟨_, here⟩, level⟩)) ?_ ?_ ?_ ?_)
    all_goals simp [threadExit]
  · rename_i level
    have next : (if (s.proc c).exiting = .normal ∨ flag = true then Pc.pthreadExit else .user) =
        .pthreadExit := by simp only [level, true_or, if_true]
    rw [← next] at ok
    split at ok
    · split at ok <;> try contradiction
      obtain ⟨u, woken, ok⟩ := bindOk.mp ok
      cases ok
      have current := threadUnblockCurrent woken
      refine leaveRan here ?_ (threadUnblockStill woken) current ?_
      · rw [level]; decide
      · rw [level]; simp
    · cases ok
      exact leaveRan here (by rw [level]; decide) stillRefl rfl (by rw [level]; simp)
  · rename_i level
    split at ok
    · rename_i last
      obtain ⟨u, woken, ok⟩ := bindOk.mp ok
      cases ok
      have current := threadUnblockCurrent woken
      have ready := threadUnblockReady woken
      have ran := leaveRan here (by rw [level]; decide) (threadUnblockStill woken) current
        (fun _ _ _ _ => ready)
      simpa only [level, last.1, reduceCtorEq, or_true, if_true] using ran
    · rename_i more
      cases ok
      have ran := leaveRan here (by rw [level]; decide) stillRefl rfl
        (fun _ pthreadExit two _ => absurd ⟨pthreadExit, two⟩ more)
      simpa only [level, reduceCtorEq, false_or] using ran
  · rename_i level
    cases ok
    have ran := leaveRan here (by rw [level]; decide) stillRefl rfl (by rw [level]; simp)
    simpa only [level, reduceCtorEq, false_or] using ran

theorem pthreadExitRan (here : (s.thread c).pc = .pthreadExit) (ok : pthreadExit s c = .ok s') :
    Ran c s s' := by
  obtain ⟨u, woken, ok⟩ := bindOk.mp ok
  cases ok
  have still : Still c s u := wakeUpJoinerStill woken
  have pid := still.pid c
  refine .acts (actsAround aloneRefl still (aloneTrans (aloneProc rfl)
    (aloneOwn rfl rfl rfl rfl))) (.ends here ?_ ?_ ?_)
  · simp
  · simpa using still.inHandler c
  · have same := still.proc
    simp only [State.proc] at same
    constructor
    · simpa using same.exiting
    · simpa using same.threadExiting
    · simpa using same.exitCode
    · simpa using same.inKernelThreads
    · simp [same.activeThreads]

theorem sameSetExitCode {p q : Process} (same : SameProc p q) (code : Int) :
    SameProc (setExitCode p code) (setExitCode q code) := by
  unfold setExitCode
  rw [same.exitCode]
  split
  · exact ⟨same.exiting, same.threadExiting, rfl, same.inKernelThreads, same.activeThreads⟩
  · exact same

@[simp] theorem setExitCodeExiting (p : Process) (code : Int) :
    (setExitCode p code).exiting = p.exiting := by
  unfold setExitCode
  split <;> rfl

@[simp] theorem setExitCodeThread (p : Process) (code : Int) :
    (setExitCode p code).threadExiting = p.threadExiting := by
  unfold setExitCode
  split <;> rfl

@[simp] theorem setExitCodeMain (p : Process) (code : Int) :
    (setExitCode p code).mainThread = p.mainThread := by
  unfold setExitCode
  split <;> rfl

@[simp] theorem setExitCodeCounts (p : Process) (code : Int) :
    (setExitCode p code).activeThreads = p.activeThreads ∧
      (setExitCode p code).inKernelThreads = p.inKernelThreads := by
  unfold setExitCode
  split <;> exact ⟨rfl, rfl⟩

@[simp] theorem exitHelperThread : ((exitHelper s m).thread t).pid = (s.thread t).pid ∧
    ((exitHelper s m).thread t).pc = (s.thread t).pc ∧
    ((exitHelper s m).thread t).inHandler = (s.thread t).inHandler := by
  by_cases main : t = m <;> simp [exitHelper, main]

@[simp] theorem exitHelperPcb : (exitHelper s m).pcb = s.pcb := rfl

theorem exitHelperBlocked (blocked : ((exitHelper s m).thread t).status = .blocked) :
    (s.thread t).status = .blocked := by
  by_cases main : t = m
  · simp [exitHelper, main] at blocked
  · simpa [exitHelper, main] using blocked

theorem exitEnterRan (here : (s.thread c).pc = .exit (.enter code))
    (ok : exitEnter s c code = .ok s') : Ran c s s' := by
  obtain ⟨u, woken, ok⟩ := bindOk.mp ok
  have still : Still c s u := wakeUpJoinerStill woken
  have same := sameSetExitCode still.proc code
  have exiting : ((u.setProc c (fun p => setExitCode p code)).proc c).exiting =
      (s.proc c).exiting := by
    simpa using still.proc.exiting
  have later : (s.proc c).exiting = .normal ∨ (s.proc c).exiting = .exception →
      Ran c s ((u.setProc c (fun p => setExitCode p code)).setPc c (.leave true)) := by
    intro level
    refine .acts (actsAround aloneRefl still (aloneTrans (aloneProc (by simp)) (alonePc _)))
      (.exitLater here ?_ level ?_ ?_)
    · simp
    · simpa using still.inHandler c
    · simpa using same
  simp only [exiting] at ok
  split at ok
  · rename_i level
    cases ok
    refine .acts (actsAround aloneRefl still (aloneTrans (aloneProc (by simp))
      (aloneTrans (aloneProc rfl) (alonePc _)))) (.exitFirst here ?_ level ?_ ?_)
    · simp
    · simpa using still.inHandler c
    · exact ⟨by simp, by simp, by simpa using same.exitCode, by simpa using same.inKernelThreads,
        by simpa using same.activeThreads⟩
  · rename_i level
    split at ok <;> try contradiction
    cases ok
    have level' : (u.proc c).exiting = .main := still.proc.exiting.trans level
    refine .acts (actsAfter still ⟨⟨rfl, ?_, ?_, ?_, ?_⟩, ?_, ?_, ?_⟩)
      (.exitMain here ?_ level ?_ ?_)
    · intro t
      by_cases self : t = c
      · subst self; simp
      · simp [self]
    · intro t other
      simp [other]
    · intro t other
      simp [other]
    · intro p other
      simp [other]
    · simp
    · intro t other
      simp only [State.setPc, State.setThread, Function.update_of_ne other, State.setProc,
        State.setPcb]
      exact exitHelperBlocked
    · intro t other _
      exact .inr (.inr (.inr ⟨level', code, (still.pc c).trans here⟩))
    · simp
    · simpa using still.inHandler c
    · have old := still.proc
      simp only [State.proc] at old same
      exact ⟨by simpa using same.exiting, by simpa using same.threadExiting,
        by simpa using same.exitCode, by simp [old.inKernelThreads],
        by simpa using same.activeThreads⟩
  · rename_i level
    cases ok
    exact later (.inl level)
  · rename_i level
    cases ok
    exact later (.inr level)

theorem processExitNormalRan {stage : Exit} (here : (s.thread c).pc = .exit stage)
    (ok : processExitNormal s c stage = .ok s') : Ran c s s' := by
  cases stage with
  | enter code => exact exitEnterRan here ok
  | lock =>
    cases ok
    exact readerRan here rfl rfl
  | remove =>
    obtain ⟨u, removed, ok⟩ := bindOk.mp ok
    cases ok
    exact ranPlain (progRemoveStill removed) here rfl
  | visit todo =>
    cases todo with
    | nil =>
      cases ok
      exact ranPlain stillRefl here rfl
    | cons pos todo =>
      obtain ⟨u, visited, ok⟩ := bindOk.mp ok
      cases ok
      exact ranPlain (exitVisitStill visited) here (decide_eq_true rfl)
  | unlock =>
    cases ok
    exact ranPlain readerStill here rfl
  | check =>
    cases ok
    refine .acts (aloneActs (aloneTrans (alonePc (.exit .assert)) ?_)) (.plain ?_ ?_ ?_)
    · split
      · exact aloneBlock
      · exact aloneRefl
    · split <;> simp [threadBlock, here, Pc.plain, Exit.follows]
    · split <;> simp [threadBlock]
    · split <;> simpa [threadBlock] using sameProcRefl
  | assert =>
    simp only [processExitNormal] at ok
    split at ok <;> try contradiction
    cases ok
    exact ranPlain stillRefl here rfl

theorem mainLoopAlone : Alone c s (mainLoop s c) := by
  unfold mainLoop
  split
  · exact aloneTrans (alonePc _) aloneBlock
  · exact alonePc _

theorem mainLoopPc : ((mainLoop s c).thread c).pc = loops (s.proc c).activeThreads := by
  unfold mainLoop loops
  split <;> simp [threadBlock]

theorem mainLoopBlocks (more : 1 < (s.proc c).activeThreads) :
    ((mainLoop s c).thread c).status = .blocked := by
  unfold mainLoop
  simp only [more, if_true]
  simp [threadBlock]

theorem mainLoopHandler : ((mainLoop s c).thread c).inHandler = (s.thread c).inHandler := by
  unfold mainLoop
  split <;> simp [threadBlock]

theorem mainLoopProc : (mainLoop s c).proc c = s.proc c := by
  unfold mainLoop
  split <;> simp [threadBlock]

theorem pthreadExitMainRan {stage : Main} (here : (s.thread c).pc = .main stage)
    (ok : pthreadExitMain s c stage = .ok s') : Ran c s s' := by
  cases stage with
  | enter =>
    simp only [pthreadExitMain] at ok
    split at ok
    · rename_i level
      obtain ⟨u, woken, ok⟩ := bindOk.mp ok
      cases ok
      have still := wakeUpJoinerStill (c := c) woken
      refine .acts (actsAround (aloneTrans (aloneProc (by simp)) (aloneProc rfl)) still
        mainLoopAlone) (.mainFirst here ?_ ?_ ?_ ?_ ?_)
      · rw [mainLoopPc]
        exact congrArg loops (by simpa using still.proc.activeThreads)
      · simpa using level
      · rw [mainLoopHandler]
        simpa using still.inHandler c
      · rw [mainLoopProc]
        simpa using still.proc
      · intro more
        refine mainLoopBlocks ?_
        have same := still.proc.activeThreads
        rw [same]
        simpa using more
    · rename_i level
      cases ok
      refine .acts (aloneActs (aloneTrans (aloneProc (by simp)) (alonePc _)))
        (.mainLater here ?_ ?_ ?_ ?_)
      · simp
      · simpa using level
      · simp
      · simpa using sameProcRefl
  | wait =>
    cases ok
    exact .acts (aloneActs mainLoopAlone) (.mainLoop here mainLoopPc mainLoopHandler
      (mainLoopProc ▸ sameProcRefl) mainLoopBlocks)
  | assert =>
    obtain ⟨u, removed, ok⟩ := bindOk.mp ok
    split at ok <;> try contradiction
    cases ok
    exact ranPlain (progRemoveStill removed) here rfl

theorem runPcRan {pc : Pc} (here : (s.thread c).pc = pc) (other : pc ≠ .create .execute)
    (ok : runPc s c pc = .ok s') : Ran c s s' := by
  cases pc with
  | load stage =>
    cases ok
    exact startProcessRan here
  | user | zombie | gone =>
    cases ok
    exact .still stillRefl
  | trap k =>
    cases ok
    exact trapRan here
  | work stage =>
    cases ok
    exact workStepRan here
  | create stage =>
    cases ok
    exact createRan here (fun same => other (congrArg _ same))
  | start stage =>
    cases ok
    exact startPthreadRan here
  | join stage => exact pthreadJoinRan here ok
  | leave flag => exact exitIfExitingRan here ok
  | pthreadExit => exact pthreadExitRan here ok
  | exit stage => exact processExitNormalRan here ok
  | main stage => exact pthreadExitMainRan here ok
  | clean => exact cleanThreadsRan here ok
  | tail stage => exact processExitTailRan here ok

theorem pageFaultRan : Ran c s (pageFault s c (s.thread c).pc) := by
  cases here : (s.thread c).pc with
  | work stage =>
    have faults : stage = .any ∨ stage = .body →
        Ran c s (s.setThread c (fun th => {th with nested := [], pc := .exit (.enter (-1))})) := by
      intro which
      refine .acts (aloneActs (aloneThread rfl)) (.fault ?_ ?_ ?_ ?_)
      · simpa [here] using which
      · simp
      · simp
      · simpa using sameProcRefl
    cases stage with
    | any => exact faults (.inl rfl)
    | body => exact faults (.inr rfl)
    | _ => exact .still stillRefl
  | _ => exact .still stillRefl

theorem starvePcRan : Ran c s (starvePc s c (s.thread c).pc) := by
  unfold starvePc
  split
  · rename_i here
    exact ranPlain stillRefl here rfl
  · rename_i here
    exact ranPlain stillRefl here rfl
  · rename_i here
    exact ranPlain stillRefl here rfl
  · exact .still stillRefl

theorem takeLockStill (l : LockId) : Still c s (takeLock s c l) := by
  refine stillTrans (u := s.setThread c (fun th => {th with lockQueue := l :: th.lockQueue}))
    (stillOwn rfl rfl rfl rfl) (stillSame rfl rfl rfl)

theorem giveLockStill (l : LockId) : Still c s (giveLock s c l) := by
  refine stillTrans (u := s.setThread c (fun th => {th with lockQueue := th.lockQueue.erase l}))
    (stillOwn rfl rfl rfl rfl) (stillSame rfl rfl rfl)

theorem kernelAcquireStill (inside : (s.thread c).pc.inFunction = true)
    (ok : kernelAcquire s c l = .ok s') : Still c s s' := by
  unfold kernelAcquire at ok
  simp only at ok
  split at ok
  · split at ok <;> try contradiction
    cases ok
    exact stillTrans (u := {s with consoleLockDepth := s.consoleLockDepth + 1})
      (stillSame rfl rfl rfl) (stillOwn rfl rfl rfl rfl)
  · split at ok
    · cases ok
      exact stillTrans (takeLockStill l) (stillOwn rfl rfl rfl rfl)
    · cases ok
      exact sleepStill rfl inside

theorem kernelReleaseStill (ok : kernelRelease s c l = .ok s') : Still c s s' := by
  unfold kernelRelease at ok
  simp only at ok
  split at ok
  · cases ok
    exact stillTrans (u := {s with consoleLockDepth := s.consoleLockDepth - 1})
      (stillSame rfl rfl rfl) (stillOwn rfl rfl rfl rfl)
  · split at ok <;> try contradiction
    cases ok
    exact stillTrans (giveLockStill l) (stillOwn rfl rfl rfl rfl)

theorem yieldStill : Still c s (threadYield s c) := by
  refine stillTrans (u := s.setThread c (fun th =>
    {th with elem := some .ready, queue := some .ready, status := .ready})) ?_
    (stillSame rfl rfl rfl)
  exact stillThread rfl rfl rfl (by simp) (by simp)

theorem dispatchStill (ok : dispatch s t = .ok s') : Still c s s' := by
  unfold dispatch at ok
  split at ok <;> try contradiction
  cases ok
  refine stillTrans (u := s.setThread t (fun th => {th with elem := none, status := .running})) ?_
    (stillSame rfl rfl rfl)
  exact stillThread rfl rfl rfl (by simp) (by simp)

theorem wakeStill (ok : wake s t = .ok s') : Still c s s' := by
  unfold wake at ok
  split at ok
  · exact stillTrans (stillOwn rfl rfl rfl rfl) (threadUnblockStill ok)
  · cases ok
    exact stillRefl

def Action.quiet : Action → Bool
  | .run | .call _ | .fault | .starve | .noStack => false
  | _ => true

theorem quietStill (quiet : a.quiet = true) (ok : stepCurrent s c a = .ok s') :
    Still c s s' := by
  cases a with
  | lockInit n =>
    cases ok
    split
    · unfold handlerLockInit
      split
      · exact stillRefl
      · exact stillProc ⟨rfl, rfl, rfl, rfl, rfl⟩ rfl
    · exact stillRefl
  | lockAcquire n =>
    cases ok
    split
    · rename_i here
      unfold handlerLockAcquire
      simp only
      split
      · exact stillRefl
      · split
        · exact takeLockStill _
        · exact sleepStill here rfl
    · exact stillRefl
  | lockRelease n =>
    cases ok
    split
    · unfold handlerLockRelease
      simp only
      split
      · exact stillRefl
      · exact giveLockStill _
    · exact stillRefl
  | acquire l =>
    simp only [stepCurrent] at ok
    split at ok
    · rename_i inside
      exact kernelAcquireStill inside.1 ok
    · cases ok
      exact stillRefl
  | release l =>
    simp only [stepCurrent] at ok
    split at ok
    · exact kernelReleaseStill ok
    · cases ok
      exact stillRefl
  | block =>
    cases ok
    split
    · rename_i inside
      exact sleepStill rfl inside
    · exact stillRefl
  | preempt =>
    cases ok
    split
    · exact stillRefl
    · exact yieldStill
  | run | call | fault | starve | noStack => cases quiet
  | _ =>
    cases ok
    exact stillRefl

theorem stepCurrentRan (other : (s.thread c).pc = .create .execute → a ≠ .run)
    (ok : stepCurrent s c a = .ok s') :
    Ran c s s' := by
  cases a with
  | run =>
    simp only [stepCurrent] at ok
    split at ok
    · exact runPcRan rfl (fun same => other same rfl) ok
    · cases ok
      exact .still stillRefl
  | call k | noStack =>
    cases ok
    split
    · rename_i here
      exact ranPlain stillRefl here rfl
    · exact .still stillRefl
  | fault =>
    cases ok
    exact pageFaultRan
  | starve =>
    cases ok
    exact starvePcRan
  | _ => exact .still (quietStill rfl ok)

theorem currentStepped (current : s.current = some c)
    (ok : stepCurrent s c a = .ok s') : Stepped a s s' := by
  by_cases creates : (s.thread c).pc = .create .execute ∧ a = .run
  · obtain ⟨here, rfl⟩ := creates
    simp only [stepCurrent, here, runPc] at ok
    split at ok
    · cases ok
      exact .creates current here rfl
    · cases ok
      exact .still (c := c) stillRefl
  · cases stepCurrentRan (fun here same => creates ⟨here, same⟩) ok with
    | still still => exact .still still
    | acts acts edge => exact .acts current ok acts edge

theorem exitRuns (old : (s.thread c).pc = .exit (.enter code))
    (moved : (s'.thread c).pc ≠ .exit (.enter code)) (ok : stepCurrent s c a = .ok s') :
    a = .run := by
  by_cases quiet : a.quiet = true
  · exact absurd (((quietStill quiet ok).pc c).trans old) moved
  · cases a with
    | run => rfl
    | call k | fault | starve | noStack =>
      cases ok
      exact absurd (by simp [old, pageFault, starvePc]) moved
    | _ => exact absurd rfl quiet

theorem starves (old : (s.thread c).pc = .create .execute)
    (new : (s'.thread c).pc = .create (.wait none)) (ok : stepCurrent s c a = .ok s') :
    a = .starve := by
  by_cases quiet : a.quiet = true
  · rw [(quietStill quiet ok).pc c, old] at new
    cases new
  · cases a with
    | starve => rfl
    | run =>
      simp only [stepCurrent, old, runPc] at ok
      split at ok <;> cases ok <;> simp [pthreadExecute, old] at new
    | call k | fault | noStack =>
      cases ok
      simp [old, pageFault] at new
    | _ => exact absurd rfl quiet

theorem stepStepped (ok : step s a = .ok s') : Stepped a s s' := by
  unfold step at ok
  split at ok
  · exact .still (c := 0) (wakeStill ok)
  · split at ok
    · exact .still (c := 0) (dispatchStill ok)
    · cases ok
      exact .still (c := 0) stillRefl
  · cases ok
    exact .launches rfl rfl
  · split at ok
    · cases ok
      exact .still (c := 0) stillRefl
    · rename_i current
      exact currentStepped current ok

end Edge
end Pintos.Userprog
