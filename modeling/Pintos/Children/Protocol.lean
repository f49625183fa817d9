import Pintos.Children.Step

/-! What the two sides of a record owe each other. What the child has written is a function of
where the child stands; what the parent does with the record is a `Side`, read off the thread that
does it. -/
namespace Pintos.Children
open Machine

def ChildPc.holds : ChildPc → Bool
  | .start _ | .exit (.report _) | .exit .up => true
  | .absent | .user | .exit .down | .exit .freePcb | .ended => false

def ChildPc.frees : ChildPc → Bool
  | .start (.report .freeEditing) | .start (.report .free) => true
  | .exit (.report .freeEditing) | .exit (.report .free) => true
  | _ => false

def ChildPc.owns : ChildPc → Bool
  | .start .allocate | .start (.report _) | .start .clearExited | .start .giveUp => false
  | .start _ | .user | .exit _ => true
  | .absent | .ended => false

namespace Child

def doomed (kid : Child) : Bool :=
  match kid.pc with
  | .start .unlink | .start .freePcb | .start (.report _) | .start .clearExited
  | .start .giveUp => true
  | .ended => !kid.started
  | _ => false

def finished (kid : Child) : Bool :=
  match kid.pc with
  | .exit .up | .exit .freePcb => true
  | .ended => kid.started
  | _ => false

def exited (kid : Child) : Bool :=
  match kid.pc with
  | .start (.report .setCode) | .start (.report .clearChild) | .start (.report .up) => true
  | .start .clearExited => kid.pcb != .none
  | .exit (.report .setCode) | .exit (.report .clearChild) | .exit (.report .up) => true
  | _ => kid.finished

def exitedCode (kid : Child) : Int :=
  match kid.pc with
  | .start (.report .clearChild) | .start (.report .up) => -1
  | .start .clearExited | .start .giveUp => if kid.pcb = .none then -2 else -1
  | .exit (.report .clearChild) | .exit (.report .up) | .exit .up | .exit .freePcb => kid.exitCode
  | .ended => if kid.started then kid.exitCode else if kid.pcb = .none then -2 else -1
  | _ => -2

def child (kid : Child) : Bool :=
  match kid.pc with
  | .start .setExited | .start .up | .user | .exit .down => true
  | .exit (.report .test) | .exit (.report .setExited) | .exit (.report .setCode)
  | .exit (.report .clearChild) => true
  | _ => false

def waiting (kid : Child) : Nat :=
  match kid.pc with
  | .start .clearExited | .start .giveUp => if kid.pcb = .none then 0 else 1
  | .ended => if kid.started = false ∧ kid.pcb = .none then 0 else 1
  | _ => if kid.finished then 1 else 0

@[mk_iff soundIff] structure Sound (kid : Child) : Prop where
  present : kid.pc ≠ .absent
  before : ∀ stage, kid.pc = .start stage → kid.started = false
  after : kid.pc = .user ∨ (∃ stage, kid.pc = .exit stage) → kid.started = true
  unmade : kid.pc = .start .allocate → kid.pcb = .none
  owns : kid.pc.owns = true → kid.pcb = .live
  failed : ∀ stage, kid.pc = .start (.report stage) → kid.pcb = .freed

@[mk_iff hopefulIff] structure Hopeful (kid : Child) (kernel : Bool) : Prop where
  memory : kid.pcb = .none → kid.pc = .start .allocate
  loads : kernel = true → kid.doomed = false

def Supplied (kid : Child) (kernel granted : Bool) : Prop :=
  (kid.pc = .start .allocate → granted = true) ∧
    (kid.pc = .start .load → kernel = true → granted = true)

def Sure (kid : Child) (kernel : Bool) : Prop :=
  kid.started = true ∨ kernel = true ∧ kid.Hopeful kernel

end Child

def Child.writes (kid : Child) (pid : Int) (held taken : Bool) : Record where
  pid := pid
  exitedCode := kid.exitedCode
  editing := some (if kid.pc.holds || held then 0 else 1)
  waiting := if taken then 0 else kid.waiting
  child := kid.child
  exited := kid.exited

structure Bound (rec : Record) (kid : Child) (held taken : Bool) : Prop where
  sound : kid.Sound
  written : ∃ pid, rec = kid.writes pid held taken ∧ (pid = -1 ∨ pid = kid.tid)
  apart : kid.pc.holds = true → held = false
  finished : taken = true → kid.finished = true
  keeps : kid.pc.frees = false

section Run
variable {rec : Record} {kid : Child} {held taken granted : Bool}

attribute [local simp] ChildPc.holds ChildPc.frees ChildPc.owns Child.doomed Child.finished
  Child.exited Child.exitedCode Child.child Child.waiting

structure Grows (rec : Record) (kid : Child) (kernel granted : Bool) (out : Record × Child) :
    Prop where
  tid : out.2.tid = kid.tid
  pid : rec.pid = kid.tid → out.1.pid = kid.tid
  exitCode : out.2.exitCode = kid.exitCode
  started : kid.started = true → out.2.started = true
  finished : kid.finished = true → out.2.finished = true ∧ out.1.freed = rec.freed
  sound : out.2.Sound
  hopeful : kid.Supplied kernel granted → kid.Hopeful kernel → out.2.Hopeful kernel

theorem growsRun (kernel : Bool) (sound : kid.Sound) :
    Ends (runChild rec kid granted) (Grows rec kid kernel granted) := by
  obtain ⟨present, before, after, unmade, owns, failed⟩ := sound
  obtain ⟨pc, tid, pcb, exitCode, started⟩ := kid
  rcases pc with _ | stage | _ | stage | _
  · simp [runChild]
  · cases stage with
    | report stage =>
      cases stage <;> simp [runChild, startProcess, freeParentSelf] <;> intros <;> constructor
      all_goals simp_all [Child.soundIff, Child.hopefulIff, Child.Supplied]
    | _ =>
      cases granted <;> simp [runChild, startProcess] <;> intros <;> constructor
      all_goals simp_all [Child.soundIff, Child.hopefulIff, Child.Supplied]
  · simp [runChild]
  · cases stage with
    | report stage =>
      cases stage <;> simp [runChild, leave, freeParentSelf] <;> intros <;> constructor
      all_goals simp_all [Child.soundIff, Child.hopefulIff, Child.Supplied]
    | _ =>
      simp [runChild, leave]
      intros
      constructor
      all_goals simp_all [Child.soundIff, Child.hopefulIff, Child.Supplied]
  · simp [runChild]

theorem boundRun (bound : Bound rec kid held taken) :
    Ends (runChild rec kid granted) fun out => Bound out.1 out.2 held taken := by
  obtain ⟨sound, ⟨pid, rfl, named⟩, apart, finished, keeps⟩ := bound
  refine endsAfter (growsRun false sound) ?_
  obtain ⟨present, before, after, unmade, owns, failed⟩ := sound
  obtain ⟨pc, tid, pcb, exitCode, started⟩ := kid
  rcases pc with _ | stage | _ | stage | _
  · simp [runChild]
  · cases stage with
    | setPid =>
      simp [runChild, startProcess, Child.writes]
      intro grows
      refine ⟨grows.sound, ⟨tid, ?_, .inr rfl⟩, ?_, ?_, ?_⟩ <;> simp_all [Child.writes]
    | report stage =>
      cases stage <;> simp [runChild, startProcess, freeParentSelf, Child.writes]
      all_goals
        intro grows
        refine ⟨grows.sound, ⟨pid, ?_, named⟩, ?_, ?_, ?_⟩ <;> simp_all [Child.writes]
    | _ =>
      cases granted <;> simp [runChild, startProcess, Child.writes]
      all_goals
        intro grows
        refine ⟨grows.sound, ⟨pid, ?_, named⟩, ?_, ?_, ?_⟩ <;> simp_all [Child.writes]
  · simp [runChild]
  · cases stage with
    | report stage =>
      cases stage <;> simp [runChild, leave, freeParentSelf, Child.writes]
      all_goals
        intro grows
        refine ⟨grows.sound, ⟨pid, ?_, named⟩, ?_, ?_, ?_⟩ <;> simp_all [Child.writes]
    | _ =>
      cases held <;> simp [runChild, leave, Child.writes]
      all_goals
        intro grows
        refine ⟨grows.sound, ⟨pid, ?_, named⟩, ?_, ?_, ?_⟩ <;> simp_all [Child.writes]
  · simp [runChild]

theorem sureRun {kernel : Bool} (sound : kid.Sound) (supplied : kid.Supplied kernel granted)
    (sure : kid.Sure kernel) : Ends (runChild rec kid granted) fun out => out.2.Sure kernel := by
  intro out ok
  have grows := growsRun kernel sound out ok
  rcases sure with started | ⟨isKernel, hopeful⟩
  · exact .inl (grows.started started)
  · exact .inr ⟨isKernel, grows.hopeful supplied hopeful⟩

end Run

inductive Side where
  | fresh
  | bare
  | armed
  | downed
  | dropped
  | launched (tid : Int) (named : Bool)
  | looking (tid : Int)
  | passing (tid : Int)
  | failing
  | cut
  | listed
  | taken (result : Option Int)
  | reaping (result : Option Int) (stage : FreeChild)
  | popped
  | closing (stage : FreeChild)
  | closed
  deriving DecidableEq, Repr

def Side.linked : Side → Bool
  | .bare | .armed | .downed | .dropped | .launched _ _ | .looking _ | .passing _ | .failing
  | .listed | .taken _ => true
  | .fresh | .cut | .reaping _ _ | .popped | .closing _ | .closed => false

def Execute.side : Execute → Option (Nat × Side)
  | .page | .record => none
  | .lock r | .push r => some (r, .fresh)
  | .unlock r | .editing r => some (r, .bare)
  | .initPcb r | .down r => some (r, .armed)
  | .create r => some (r, .downed)
  | .setPid r tid => some (r, .launched tid false)
  | .dropEditing r | .drop r => some (r, .dropped)

def Exec.side : Exec → Option (Nat × Side)
  | .lock r tid | .search r tid _ | .down r tid _ => some (r, .launched tid true)
  | .test r tid _ => some (r, .looking tid)
  | .up r tid _ => some (r, .passing tid)
  | .remove r _ => some (r, .failing)
  | .free r _ => some (r, .cut)
  | .unlock _ _ | .done _ _ => none

def Wait.side : Wait → Option (Nat × Side)
  | .lock | .search _ | .unlock _ | .done _ => none
  | .down child => some (child, .listed)
  | .read child => some (child, .taken none)
  | .remove child result => some (child, .taken (some result))
  | .free child result stage => some (child, .reaping (some result) stage)

def Clean.side : Clean → Option (Nat × Side)
  | .pop => none
  | .tryDown child | .down child => some (child, .popped)
  | .free child stage false => some (child, .reaping none stage)
  | .free child stage true => some (child, .closing stage)
  | .up child => some (child, .closed)

def ParentPc.side : ParentPc → Option (Nat × Side)
  | .execute _ stage => stage.side
  | .exec stage => stage.side
  | .wait _ stage => stage.side
  | .exit stage => stage.side
  | .user | .ended => none

def Good (kernel : Bool) (rec : Record) (kid : Child) : Side → Prop
  | .fresh | .bare => rec = {} ∧ kid.pc = .absent
  | .armed => rec = { editing := some 1 } ∧ kid.pc = .absent
  | .downed => rec = { editing := some 0 } ∧ kid.pc = .absent
  | .dropped => False
  | .launched tid named => Bound rec kid false false ∧ kid.Hopeful kernel ∧ tid = kid.tid ∧
    (named = true → rec.pid = kid.tid)
  | .looking tid => Bound rec kid true false ∧ kid.Hopeful kernel ∧ tid = kid.tid ∧
    rec.pid = kid.tid
  | .passing tid => Bound rec kid true false ∧ kid.started = true ∧ tid = kid.tid ∧
    rec.pid = kid.tid
  | .failing | .cut => Bound rec kid true false ∧ kid.pc = .ended ∧ kid.started = false
  | .listed | .popped => Bound rec kid false false ∧ rec.pid = kid.tid ∧ kid.Sure kernel
  | .taken result => Bound rec kid false true ∧ rec.pid = kid.tid ∧
    ∀ value ∈ result, value = kid.exitCode
  | .reaping result .test | .reaping result .freeEditing => Bound rec kid false true ∧
    ∀ value ∈ result, value = kid.exitCode
  | .reaping result .free => kid.Sound ∧ kid.finished = true ∧ rec.freed = false ∧
    ∀ value ∈ result, value = kid.exitCode
  | .reaping _ _ => False
  | .closing .test => Bound rec kid true false ∧ kid.Sure kernel
  | .closing .freeEditing => Bound rec kid true false ∧ kid.finished = true
  | .closing .free => kid.Sound ∧ kid.finished = true ∧ rec.freed = false
  | .closing .setExited => Bound rec kid true false ∧ kid.exited = false ∧ kid.Sure kernel
  | .closing _ => Bound { rec with exited := false } kid true false ∧ kid.exited = false ∧
    kid.Sure kernel
  | .closed => True

section Good
variable {rec : Record} {kid : Child} {kernel granted : Bool} {side : Side}

theorem runPresent {out : Record × Child} (ok : runChild rec kid granted = .ok out) :
    kid.pc ≠ .absent := by
  intro absent
  simp [runChild, absent] at ok

theorem closingStill {old : Record} (bound : Bound old kid true false)
    (before : kid.exited = false) (sure : kid.Sure kernel) (same : rec.editing = old.editing) :
    Ends (runChild rec kid granted) fun _ => False := by
  obtain ⟨sound, ⟨pid, rfl, _⟩, apart, _, _⟩ := bound
  obtain ⟨pc, tid, pcb, exitCode, started⟩ := kid
  rcases pc with _ | stage | _ | stage | _
  · simp [runChild]
  · simp [ChildPc.holds] at apart
  · simp [runChild]
  · cases stage with
    | down => simp [runChild, leave, same, Child.writes]
    | report stage | up => simp [ChildPc.holds] at apart
    | freePcb => simp [Child.exited, Child.finished] at before
  · simp [runChild]

theorem goodRun (supplied : kid.Supplied kernel granted) (good : Good kernel rec kid side) :
    Ends (runChild rec kid granted) fun out => Good kernel out.1 out.2 side := by
  intro out ok
  have grows := fun sound => growsRun kernel sound out ok
  cases side with
  | fresh | bare | armed | downed => exact absurd good.2 (runPresent ok)
  | dropped => exact good.elim
  | launched tid named =>
    obtain ⟨bound, hopeful, same, here⟩ := good
    have grows := grows bound.sound
    exact ⟨boundRun bound out ok, grows.hopeful supplied hopeful, by rw [grows.tid, same],
      fun isNamed => by rw [grows.tid, grows.pid (here isNamed)]⟩
  | looking tid =>
    obtain ⟨bound, hopeful, same, here⟩ := good
    have grows := grows bound.sound
    exact ⟨boundRun bound out ok, grows.hopeful supplied hopeful, by rw [grows.tid, same],
      by rw [grows.tid, grows.pid here]⟩
  | passing tid =>
    obtain ⟨bound, started, same, here⟩ := good
    have grows := grows bound.sound
    exact ⟨boundRun bound out ok, grows.started started, by rw [grows.tid, same],
      by rw [grows.tid, grows.pid here]⟩
  | failing | cut => simp [runChild, good.2.1] at ok
  | listed | popped =>
    obtain ⟨bound, here, sure⟩ := good
    have grows := grows bound.sound
    exact ⟨boundRun bound out ok, by rw [grows.tid, grows.pid here],
      sureRun bound.sound supplied sure out ok⟩
  | taken result =>
    obtain ⟨bound, here, code⟩ := good
    have grows := grows bound.sound
    exact ⟨boundRun bound out ok, by rw [grows.tid, grows.pid here], by rwa [grows.exitCode]⟩
  | reaping result stage =>
    cases stage with
    | test | freeEditing =>
      exact ⟨boundRun good.1 out ok, by rw [(grows good.1.sound).exitCode]; exact good.2⟩
    | free =>
      obtain ⟨sound, finished, freed, code⟩ := good
      have grows := grows sound
      exact ⟨grows.sound, (grows.finished finished).1, (grows.finished finished).2.trans freed,
        by rwa [grows.exitCode]⟩
    | setExited | clearParent | up => exact good.elim
  | closing stage =>
    cases stage with
    | test => exact ⟨boundRun good.1 out ok, sureRun good.1.sound supplied good.2 out ok⟩
    | freeEditing => exact ⟨boundRun good.1 out ok, ((grows good.1.sound).finished good.2).1⟩
    | free =>
      obtain ⟨sound, finished, freed⟩ := good
      have grows := grows sound
      exact ⟨grows.sound, (grows.finished finished).1, (grows.finished finished).2.trans freed⟩
    | setExited | clearParent | up =>
      have still : Ends (runChild rec kid granted) fun _ => False :=
        closingStill good.1 good.2.1 good.2.2 rfl
      exact (still out ok).elim
  | closed => trivial

def Child.calls (kid : Child) (exitCode : Int) : Child :=
  { kid with pc := .exit .down, exitCode := exitCode }

theorem callsSound (exitCode : Int) (running : kid.pc = .user) (sound : kid.Sound) :
    (kid.calls exitCode).Sound := by
  obtain ⟨present, before, after, unmade, owns, failed⟩ := sound
  constructor <;> simp_all [Child.calls, ChildPc.owns]

theorem boundExit {held taken : Bool} (exitCode : Int) (running : kid.pc = .user)
    (bound : Bound rec kid held taken) : Bound rec (kid.calls exitCode) held taken := by
  obtain ⟨sound, ⟨pid, rfl, named⟩, apart, finished, keeps⟩ := bound
  refine ⟨callsSound exitCode running sound, ⟨pid, ?_, named⟩, ?_, ?_, ?_⟩
  · obtain ⟨pc, tid, pcb, code, started⟩ := kid
    cases running
    simp [Child.calls, Child.writes, Child.exitedCode, Child.exited, Child.finished, Child.child,
      Child.waiting, ChildPc.holds]
  · simp [Child.calls, ChildPc.holds]
  · simpa [Child.calls, Child.finished, running] using finished
  · simp [Child.calls, ChildPc.frees]

theorem goodExit (exitCode : Int) (running : kid.pc = .user) (good : Good kernel rec kid side) :
    Good kernel rec (kid.calls exitCode) side := by
  have started : kid.Sound → (kid.calls exitCode).Sure kernel :=
    fun sound => .inl (sound.after (.inl running))
  have hopeful : kid.Hopeful kernel → (kid.calls exitCode).Hopeful kernel := fun hopeful =>
    ⟨fun none => by simp [hopeful.memory none] at running, by simp [Child.calls, Child.doomed]⟩
  cases side with
  | fresh | bare | armed | downed | failing | cut => simp [Good, running] at good
  | dropped => exact good.elim
  | launched tid named | looking tid =>
    obtain ⟨bound, hope, same, here⟩ := good
    exact ⟨boundExit exitCode running bound, hopeful hope, same, here⟩
  | passing tid =>
    obtain ⟨bound, entered, same, here⟩ := good
    exact ⟨boundExit exitCode running bound, entered, same, here⟩
  | listed | popped =>
    exact ⟨boundExit exitCode running good.1, good.2.1, started good.1.sound⟩
  | taken result =>
    have finished := good.1.finished rfl
    simp [Child.finished, running] at finished
  | reaping result stage =>
    cases stage with
    | test | freeEditing =>
      have finished := good.1.finished rfl
      simp [Child.finished, running] at finished
    | free =>
      have finished := good.2.1
      simp [Child.finished, running] at finished
    | setExited | clearParent | up => exact good.elim
  | closing stage =>
    cases stage with
    | test => exact ⟨boundExit exitCode running good.1, started good.1.sound⟩
    | freeEditing | free => simp [Good, Child.finished, running] at good
    | setExited | clearParent | up =>
      exact ⟨boundExit exitCode running good.1, rfl, started good.1.sound⟩
  | closed => trivial

end Good
end Pintos.Children
