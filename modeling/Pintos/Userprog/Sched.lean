import Pintos.Userprog.Tally

/-! The scheduler under the processes. What a step does to statuses, to ready_list and to
the running thread is a list of operations of the scheduler, computed from the state the
step starts in; the machine of the processes, seen through those fields, does exactly
them. What only depends on statuses and lists is then an invariant of eleven
operations. The same walk over the functions says how a step leaves the threads tied to their
process. -/
namespace Pintos.Userprog
open Machine
open Function (update update_apply update_self)

attribute [local simp] update_apply

inductive Account where
  | joiner (t : Tid)
  | exiter
  | main
  deriving DecidableEq, Repr

inductive Op where
  | unblock (t : Tid) (on : Account)
  | zombify (t : Tid)
  | block (c : Tid)
  | sleep (c : Tid)
  | yield (c : Tid)
  | zombie (c : Tid)
  | die (c : Tid)
  | wake (t : Tid)
  | dispatch (t : Tid)
  | spawn (t : Tid)
  | free (t : Tid)
  deriving DecidableEq, Repr

def wakeUpJoinerOps (s : State) (t : Tid) : List Op :=
  match (s.thread t).joinedBy with
  | none => []
  | some joiner => [.unblock joiner (.joiner t)]

def leaveOps (s : State) (c : Tid) (isPthreadExit : Bool) : List Op :=
  match (s.proc c).exiting with
  | .exception => [.die c]
  | .normal =>
    if decrement (s.proc c).inKernelThreads = 1 then
      match (s.proc c).threadExiting with
      | none => []
      | some e => [.unblock e .exiter]
    else []
  | .main =>
    if isPthreadExit = true ∧ (s.proc c).activeThreads = 2 then
      [.unblock (s.proc c).mainThread .main]
    else []
  | .none => []

def exitOps (s : State) (c : Tid) : Exit → List Op
  | .enter _ => wakeUpJoinerOps s c ++
      if (s.proc c).exiting = .main then [.zombify (s.proc c).mainThread] else []
  | .lock => if (s.proc c).activeWriters = 0 then [] else [.sleep c]
  | .visit (pos :: _) =>
    if (s.thread pos).inHandler = false then .zombify pos :: wakeUpJoinerOps s pos else []
  | .check => if 1 < (s.proc c).inKernelThreads then [.block c] else []
  | _ => []

def loopOps (s : State) (c : Tid) : List Op :=
  if 1 < (s.proc c).activeThreads then [.block c] else []

def joinOps (s : State) (c : Tid) : Join → List Op
  | .lock _ => if (s.proc c).activeWriters = 0 then [] else [.sleep c]
  | .set f =>
    if f.blockWait = true ∧ ((s.proc c).exiting ≠ .main ∨ f.isMain = false) then [.block c] else []
  | .relock _ =>
    if (s.proc c).activeReaders = 0 ∧ (s.proc c).activeWriters = 0 then [] else [.sleep c]
  | .free f => [.free f.pos]
  | _ => []

def runOps (s : State) (c : Tid) : Pc → List Op
  | .load .down | .work .down => if s.filesysSema = 0 then [.sleep c] else []
  | .load (.up false) | .tail .free => [.die c]
  | .create .execute => [.spawn s.created]
  | .create (.wait none) => [.sleep c]
  | .create (.wait (some t)) => if (s.thread t).finished then [] else [.sleep c]
  | .start .lock =>
    if (s.proc c).activeReaders = 0 ∧ (s.proc c).activeWriters = 0 then [] else [.sleep c]
  | .join stage => joinOps s c stage
  | .leave flag => leaveOps s c flag
  | .pthreadExit => wakeUpJoinerOps s c ++ [.zombie c]
  | .exit stage => exitOps s c stage
  | .main .enter => if (s.proc c).exiting = .none then wakeUpJoinerOps s c ++ loopOps s c else []
  | .main .wait => loopOps s c
  | .clean =>
    match (s.proc c).threads with
    | [] => []
    | pos :: _ => [.free pos]
  | _ => []

def currentOps (s : State) (c : Tid) : Action → List Op
  | .run => if (s.thread c).nested = [] then runOps s c (s.thread c).pc else []
  | .lockAcquire n =>
    if (s.thread c).pc = .work .any ∧ n ∈ (s.proc c).locksTab ∧
        s.holder (.user (s.thread c).pid n) ≠ some c ∧
        s.holder (.user (s.thread c).pid n) ≠ none then [.sleep c] else []
  | .acquire l =>
    if (s.thread c).pc.inFunction ∧ l.isUser = false ∧ s.holder l ≠ some c ∧
      s.holder l ≠ none then [.sleep c] else []
  | .block => if (s.thread c).pc.inFunction then [.sleep c] else []
  | .preempt => if (s.thread c).pc.intrOff then [] else [.yield c]
  | _ => []

def ops (s : State) : Action → List Op
  | .wake t => if (s.thread t).elem = some .wait then [.wake t] else []
  | .dispatch t => if s.current = none ∧ t ∈ s.readyList then [.dispatch t] else []
  | .launch => [.spawn s.created]
  | a =>
    match s.current with
    | none => []
    | some c => currentOps s c a

structure Sched where
  status : Tid → Status
  elem : Tid → Option Queue
  freed : Tid → Bool
  readyList : List Tid
  current : Option Tid
  created : Nat

def State.sched (s : State) : Sched where
  status t := (s.thread t).status
  elem t := (s.thread t).elem
  freed t := (s.thread t).freed
  readyList := s.readyList
  current := s.current
  created := s.created

namespace Sched

def perform (g : Sched) : Op → Sched
  | .unblock t _ | .wake t =>
    {g with
      status := update g.status t .ready
      elem := update g.elem t (some .ready)
      readyList := g.readyList ++ [t]}
  | .zombify t => {g with status := update g.status t .zombie}
  | .block c => {g with status := update g.status c .blocked, current := none}
  | .sleep c =>
    {g with
      status := update g.status c .blocked
      elem := update g.elem c (some .wait)
      current := none}
  | .yield c =>
    {g with
      status := update g.status c .ready
      elem := update g.elem c (some .ready)
      readyList := g.readyList ++ [c]
      current := none}
  | .zombie c => {g with status := update g.status c .zombie, current := none}
  | .die c =>
    {g with
      status := update g.status c .dying
      freed := update g.freed c true
      current := none}
  | .dispatch t =>
    {g with
      status := update g.status t .running
      elem := update g.elem t none
      readyList := g.readyList.erase t
      current := some t}
  | .spawn t =>
    {g with
      status := update g.status t .ready
      elem := update g.elem t (some .ready)
      freed := update g.freed t false
      readyList := g.readyList ++ [t]
      created := g.created + 1}
  | .free t => {g with freed := update g.freed t true}

def Allows (g : Sched) : Op → Prop
  | .unblock t _ => g.freed t = false ∧ g.status t = .blocked ∧ g.elem t = none
  | .wake t => g.freed t = false ∧ g.status t = .blocked ∧ g.elem t = some .wait
  | .zombify t => g.current ≠ some t
  | .block c | .sleep c | .yield c | .zombie c | .die c => g.current = some c
  | .dispatch t => g.current = none ∧ t ∈ g.readyList ∧ g.freed t = false
  | .spawn t => t = g.created
  | .free t => g.freed t = false

end Sched

inductive Performs : Sched → List Op → Sched → Prop where
  | nil {g : Sched} : Performs g [] g
  | cons {g g' : Sched} {op : Op} {rest : List Op} (allowed : g.Allows op)
      (after : Performs (g.perform op) rest g') : Performs g (op :: rest) g'

section Performs
variable {g g' g'' : Sched} {op : Op} {left right : List Op}

theorem performsOne (allowed : g.Allows op) (same : g' = g.perform op) : Performs g [op] g' :=
  same ▸ .cons allowed .nil

theorem performsNone (same : g' = g) : Performs g [] g' := same ▸ .nil

theorem performsAppend (first : Performs g left g') (second : Performs g' right g'') :
    Performs g (left ++ right) g'' := by
  induction first with
  | nil => exact second
  | cons allowed after ih => exact .cons allowed (ih second)

theorem performsKeep {P : Sched → Prop} (performs : Performs g left g') (holds : P g)
    (keep : ∀ h op, P h → h.Allows op → P (h.perform op)) : P g' := by
  induction performs with
  | nil => exact holds
  | cons allowed after ih => exact ih (keep _ _ holds allowed)

end Performs

structure Ties (may : Pid → Tid → Prop) (s s' : State) : Prop where
  pid : ∀ t, (s'.thread t).pid = (s.thread t).pid
  joinedBy : ∀ t, (s'.thread t).joinedBy = (s.thread t).joinedBy
  threads : ∀ p, (s'.pcb p).threads.Sublist (s.pcb p).threads
  kept : ∀ p t, t ∈ (s.pcb p).threads → t ∈ (s'.pcb p).threads ∨ may p t

inductive Leaves (s : State) (c : Tid) : Tid → Prop where
  | exit (here : (s.thread c).pc = .exit .remove) : Leaves s c c
  | main (here : (s.thread c).pc = .main .assert) : Leaves s c c
  | join {f : Target} (here : (s.thread c).pc = .join (.remove f))
      (zombie : (s.thread f.pos).status = .zombie) : Leaves s c f.pos
  | clean {t : Tid} (here : (s.thread c).pc = .clean) : Leaves s c t
  | load {t : Tid} (here : (s.thread c).pc = .load (.up false)) : Leaves s c t

def leaves (s : State) (p : Pid) (t : Tid) : Prop :=
  ∃ c, s.current = some c ∧ (s.thread c).pid = p ∧ Leaves s c t

/-- What a step does to the scheduler, and to the threads as members of their process. -/
structure Effect (may : Pid → Tid → Prop) (ops : List Op) (s s' : State) : Prop where
  performs : Performs s.sched ops s'.sched
  ties : Ties may s s'

section Effect
variable {s s' u : State} {c t : Tid} {may : Pid → Tid → Prop} {left right : List Op}
  {f : Process → Process} {next : Pc}

theorem tiesTrans (first : Ties may s u) (second : Ties may u s') : Ties may s s' where
  pid t := (second.pid t).trans (first.pid t)
  joinedBy t := (second.joinedBy t).trans (first.joinedBy t)
  threads p := (second.threads p).trans (first.threads p)
  kept p t inside := (first.kept p t inside).elim (second.kept p t) .inr

theorem tiesSame (thread : s'.thread = s.thread) (pcb : s'.pcb = s.pcb) : Ties may s s' :=
  ⟨fun t => by rw [thread], fun t => by rw [thread], fun p => by rw [pcb],
    fun p t inside => .inl (by rwa [pcb])⟩

theorem tiesThread {f : Thread → Thread} (pid : (f (s.thread t)).pid = (s.thread t).pid)
    (joinedBy : (f (s.thread t)).joinedBy = (s.thread t).joinedBy) :
    Ties may s (s.setThread t f) := by
  refine ⟨fun u => ?_, fun u => ?_, fun _ => List.Sublist.refl _, fun _ _ => .inl⟩ <;>
    by_cases self : u = t <;> simp [self, pid, joinedBy]

theorem tiesOwn {x : Thread} (thread : s'.thread = update s.thread t x) (pcb : s'.pcb = s.pcb)
    (pid : x.pid = (s.thread t).pid) (joinedBy : x.joinedBy = (s.thread t).joinedBy) :
    Ties may s s' :=
  tiesTrans (tiesThread (f := fun _ => x) pid joinedBy) (tiesSame thread pcb)

theorem effectTrans (first : Effect may left s u) (second : Effect may right u s') :
    Effect may (left ++ right) s s' :=
  ⟨performsAppend first.performs second.performs, tiesTrans first.ties second.ties⟩

theorem effectAfter (first : Effect may [] s u) (second : Effect may right u s') :
    Effect may right s s' := effectTrans first second

theorem effectThen (first : Effect may left s u) (second : Effect may [] u s') :
    Effect may left s s' := by
  have both := effectTrans first second
  rwa [List.append_nil] at both

theorem effectRefl : Effect may [] s s := ⟨.nil, tiesSame rfl rfl⟩

theorem schedThread {f : Thread → Thread} (status : (f (s.thread t)).status = (s.thread t).status)
    (elem : (f (s.thread t)).elem = (s.thread t).elem)
    (freed : (f (s.thread t)).freed = (s.thread t).freed) :
    (s.setThread t f).sched = s.sched := by
  unfold State.sched
  congr 1 <;> funext u <;> by_cases self : u = t <;> simp [self, status, elem, freed]

theorem schedPc (pc : Pc) : (s.setPc t pc).sched = s.sched := schedThread rfl rfl rfl

theorem effectThread {f : Thread → Thread} (status : (f (s.thread t)).status = (s.thread t).status)
    (elem : (f (s.thread t)).elem = (s.thread t).elem)
    (freed : (f (s.thread t)).freed = (s.thread t).freed)
    (pid : (f (s.thread t)).pid = (s.thread t).pid)
    (joinedBy : (f (s.thread t)).joinedBy = (s.thread t).joinedBy) :
    Effect may [] s (s.setThread t f) :=
  ⟨performsNone (schedThread status elem freed), tiesThread pid joinedBy⟩

theorem effectPc (next : Pc) : Effect may [] s (s.setPc t next) := effectThread rfl rfl rfl rfl rfl

theorem movesOn (first : Effect may left s u) : Effect may left s (u.setPc c next) :=
  effectThen first (effectPc next)

theorem effectShed (fewer : (f (s.proc c)).threads.Sublist (s.proc c).threads)
    (kept : ∀ u ∈ (s.proc c).threads, u ∈ (f (s.proc c)).threads ∨ may (s.thread c).pid u) :
    Effect may [] s (s.setProc c f) := by
  refine ⟨.nil, fun _ => rfl, fun _ => rfl, fun p => ?_, fun p u inside => ?_⟩
  · by_cases own : p = (s.thread c).pid
    · subst own; simpa using fewer
    · simp [own]
  · by_cases own : p = (s.thread c).pid
    · subst own; simpa using kept u (by simpa using inside)
    · exact .inl (by simpa [own] using inside)

theorem effectProc (same : (f (s.proc c)).threads = (s.proc c).threads) :
    Effect may [] s (s.setProc c f) :=
  effectShed (by rw [same]) fun u inside => .inl (by rwa [same])

theorem unblockEffect (on : Account) (ok : threadUnblock s t = .ok s') :
    Effect may [.unblock t on] s s' := by
  obtain ⟨kept, blocked, free, rfl⟩ := threadUnblockOk ok
  refine ⟨performsOne ⟨kept, blocked, free⟩ ?_, tiesOwn (t := t) rfl rfl rfl rfl⟩
  unfold State.sched Sched.perform
  congr 1 <;> funext u <;> by_cases self : u = t <;> simp [self]

theorem joinerEffect (ok : wakeUpJoiner s t = .ok s') : Effect may (wakeUpJoinerOps s t) s s' := by
  unfold wakeUpJoiner at ok
  split at ok
  · rename_i alone
    cases ok
    simp only [wakeUpJoinerOps, alone]
    exact effectRefl
  · rename_i joiner joined
    simp only [wakeUpJoinerOps, joined]
    exact unblockEffect _ ok

theorem sleepEffect (runs : s.current = some c) : Effect may [.sleep c] s (sleep s c) := by
  refine ⟨performsOne runs ?_, tiesOwn (t := c) rfl rfl rfl rfl⟩
  unfold State.sched Sched.perform sleep
  congr 1 <;> funext u <;> by_cases self : u = c <;> simp [self]

theorem blockEffect (runs : s.current = some c) : Effect may [.block c] s (threadBlock s c) := by
  refine ⟨performsOne runs ?_, tiesOwn (t := c) rfl rfl rfl rfl⟩
  unfold State.sched Sched.perform threadBlock
  congr 1 <;> funext u <;> by_cases self : u = c <;> simp [self]

theorem yieldEffect (runs : s.current = some c) : Effect may [.yield c] s (threadYield s c) := by
  refine ⟨performsOne runs ?_, tiesOwn (t := c) rfl rfl rfl rfl⟩
  unfold State.sched Sched.perform threadYield
  congr 1 <;> funext u <;> by_cases self : u = c <;> simp [self]

theorem dieEffect (runs : s.current = some c) : Effect may [.die c] s (threadExit s c) := by
  refine ⟨performsOne runs ?_, tiesOwn (t := c) rfl rfl rfl rfl⟩
  unfold State.sched Sched.perform threadExit
  congr 1 <;> funext u <;> by_cases self : u = c <;> simp [self]

theorem zombifyEffect (other : s.current ≠ some t) :
    Effect may [.zombify t] s (exitHelper s t) := by
  refine ⟨performsOne other ?_, tiesOwn (t := t) rfl rfl rfl rfl⟩
  unfold State.sched Sched.perform exitHelper
  congr 1 <;> funext u <;> by_cases self : u = t <;> simp [self]

theorem freeEffect (ok : pallocFreePage s t = .ok s') : Effect may [.free t] s s' := by
  unfold pallocFreePage at ok
  split at ok <;> try contradiction
  rename_i kept
  cases ok
  refine ⟨performsOne (Bool.eq_false_iff.mpr kept) ?_, tiesOwn (t := t) rfl rfl rfl rfl⟩
  unfold State.sched Sched.perform
  congr 1 <;> funext u <;> by_cases self : u = t <;> simp [self]

theorem wakeEffect (ok : wake s t = .ok s') :
    Effect may (if (s.thread t).elem = some .wait then [.wake t] else []) s s' := by
  unfold wake at ok
  split at ok
  · rename_i waits
    obtain ⟨kept, blocked, free, rfl⟩ := threadUnblockOk ok
    rw [if_pos waits]
    simp only [State.setThread, update_self] at kept blocked
    refine ⟨performsOne ⟨kept, blocked, waits⟩ ?_, tiesTrans (tiesThread (t := t) (f := fun th =>
      {th with elem := none}) rfl rfl) (tiesOwn (t := t) rfl rfl rfl rfl)⟩
    unfold State.sched Sched.perform
    congr 1 <;> funext u <;> by_cases self : u = t <;> simp [self]
  · rename_i off
    cases ok
    rw [if_neg off]
    exact effectRefl

theorem dispatchEffect (idle : s.current = none) (ready : t ∈ s.readyList)
    (ok : dispatch s t = .ok s') : Effect may [.dispatch t] s s' := by
  unfold dispatch at ok
  split at ok <;> try contradiction
  rename_i kept
  cases ok
  refine ⟨performsOne ⟨idle, ready, Bool.eq_false_iff.mpr kept⟩ ?_,
    tiesOwn (t := t) rfl rfl rfl rfl⟩
  unfold State.sched Sched.perform
  congr 1 <;> funext u <;> by_cases self : u = t <;> simp [self]

theorem spawnPerforms (p : Pid) (pc : Pc) :
    Performs s.sched [.spawn s.created] (threadCreate s p pc).sched := by
  refine performsOne rfl ?_
  unfold State.sched Sched.perform threadCreate
  congr 1 <;> funext u <;> by_cases self : u = s.created <;> simp [self, newThread]

theorem filesysUpEffect (inside : Tid → Bool) : Effect may [] s (filesysUp s inside) :=
  ⟨.nil, fun _ => rfl, fun _ => rfl, fun _ => List.Sublist.refl _, fun _ _ => .inl⟩

theorem progRemoveOk {p : Pid} (ok : progRemove s p t = .ok s') :
    t ∈ (s.pcb p).threads ∧
      s' = s.setPcb p (fun pcb => {pcb with threads := pcb.threads.erase t}) := by
  unfold progRemove at ok
  split at ok <;> try contradiction
  rename_i inside
  exact ⟨inside, (Except.ok.inj ok).symm⟩

theorem removeEffect (leave : may (s.thread c).pid t)
    (ok : progRemove s (s.thread c).pid t = .ok s') : Effect may [] s s' := by
  obtain ⟨_, rfl⟩ := progRemoveOk ok
  refine effectShed (f := fun p => {p with threads := p.threads.erase t}) (List.erase_sublist ..) ?_
  intro u inside
  by_cases self : u = t
  · exact .inr (self ▸ leave)
  · exact .inl ((List.mem_erase_of_ne self).mpr inside)

theorem readerEffect (runs : s.current = some c) :
    Effect may (if (s.proc c).activeWriters = 0 then [] else [.sleep c]) s
      (rwLockAcquireReader s c next) := by
  unfold rwLockAcquireReader
  split
  · exact movesOn (effectProc rfl)
  · exact sleepEffect runs

theorem writerEffect (runs : s.current = some c) :
    Effect may
      (if (s.proc c).activeReaders = 0 ∧ (s.proc c).activeWriters = 0 then [] else [.sleep c]) s
      (rwLockAcquireWriter s c next) := by
  unfold rwLockAcquireWriter
  split
  · exact movesOn (effectProc rfl)
  · exact sleepEffect runs

theorem filesysDownEffect (runs : s.current = some c) :
    Effect may (if s.filesysSema = 0 then [.sleep c] else []) s (filesysDown s c next) := by
  unfold filesysDown
  split
  · exact sleepEffect runs
  · have same : (s.setThread c (fun th => {th with inside := true, pc := next})).sched = s.sched :=
      schedThread rfl rfl rfl
    exact ⟨performsNone same, tiesOwn (t := c) rfl rfl rfl rfl⟩

theorem loopEffect (runs : s.current = some c) : Effect may (loopOps s c) s (mainLoop s c) := by
  unfold loopOps mainLoop
  split
  · exact effectAfter (effectPc _) (blockEffect runs)
  · exact effectPc _

theorem joinerKeeps {t : Tid} (ok : wakeUpJoiner s t = .ok s') :
    s'.current = s.current ∧ ∀ u, s'.proc u = s.proc u := by
  unfold wakeUpJoiner at ok
  split at ok
  · cases ok
    exact ⟨rfl, fun _ => rfl⟩
  · rename_i joiner _
    obtain ⟨_, _, _, rfl⟩ := threadUnblockOk ok
    refine ⟨rfl, fun u => ?_⟩
    by_cases self : u = joiner <;> simp [self]

theorem setExitCodeThreads (p : Process) (code : Int) :
    (setExitCode p code).threads = p.threads := by
  unfold setExitCode
  split <;> rfl

end Effect

/-- Where a thread enters the list of its process or is joined. -/
inductive Relinks : Pc → Prop where
  | execute : Relinks (.create .execute)
  | push : Relinks (.start .push)
  | set {f : Target} : Relinks (.join (.set f))

section Steps
variable {s s' : State} {c : Tid} {may : Pid → Tid → Prop} {l : LockId} {a : Action}

section Effects
variable (runs : s.current = some c)
include runs

theorem startProcessEffect {stage : Load} (here : (s.thread c).pc = .load stage) :
    Effect (leaves s) (runOps s c (.load stage)) s (startProcess s c stage) := by
  cases stage with
  | down => exact filesysDownEffect runs
  | body => exact effectPc _
  | up success =>
    refine effectAfter (filesysUpEffect fun t => t = c) ?_
    cases success with
    | true => exact effectPc _
    | false =>
      exact effectAfter (effectShed (c := c) (f := fun p => {p with threads := []})
        (List.nil_sublist _) fun u _ => .inr ⟨c, runs, rfl, .load here⟩) (dieEffect runs)

theorem createEffect {stage : Create} :
    Effect may (runOps s c (.create stage)) s (pthreadExecute s c stage) ∨
      Relinks (.create stage) := by
  cases stage with
  | execute => exact .inr .execute
  | count | failed => exact .inl (movesOn (effectProc rfl))
  | wait t =>
    cases t with
    | none => exact .inl (sleepEffect runs)
    | some t =>
      simp only [runOps, pthreadExecute]
      split
      · exact .inl (effectPc _)
      · exact .inl (sleepEffect runs)

theorem startEffect {stage : Start} :
    Effect may (runOps s c (.start stage)) s (startPthread s c stage) ∨ Relinks (.start stage) := by
  cases stage with
  | push => exact .inr .push
  | lock => exact .inl (writerEffect runs)
  | unlock => exact .inl (movesOn (effectProc rfl))
  | up =>
    exact .inl (effectThread (f := fun th => {th with finished := true, pc := .start .free})
      rfl rfl rfl rfl rfl)
  | setup | check | free => exact .inl (effectPc _)

theorem leaveEffect {flag : Bool} (ok : exitIfExiting s c flag = .ok s') :
    Effect may (leaveOps s c flag) s s' := by
  unfold exitIfExiting at ok
  simp only at ok
  generalize left : (s.setProc c (fun p => {p with
    inKernelThreads := decrement p.inKernelThreads})).setThread c
      (fun th => {th with inHandler := false}) = u at ok
  have leaving : Effect may [] s u := by
    rw [← left]
    exact effectAfter (effectProc (c := c) (f := fun p => {p with
      inKernelThreads := decrement p.inKernelThreads}) rfl) (effectThread rfl rfl rfl rfl rfl)
  have runs' : u.current = some c := by rw [← left]; exact runs
  have proc : u.proc c = {s.proc c with
      inKernelThreads := decrement (s.proc c).inKernelThreads} := by
    rw [← left]
    simp
  rw [proc] at ok
  refine effectAfter leaving ?_
  unfold leaveOps
  cases level : (s.proc c).exiting with
  | exception =>
    simp only [level] at ok ⊢
    cases ok
    exact dieEffect runs'
  | none =>
    simp only [level] at ok ⊢
    cases ok
    exact effectPc _
  | normal =>
    simp only [level] at ok ⊢
    split at ok
    · rename_i last
      rw [if_pos last]
      cases marked : (s.proc c).threadExiting with
      | none =>
        simp only [marked] at ok
        cases ok
      | some e =>
        simp only [marked] at ok ⊢
        obtain ⟨v, unblocks, ok⟩ := bindOk.mp ok
        cases ok
        exact movesOn (unblockEffect _ unblocks)
    · rename_i more
      cases ok
      rw [if_neg more]
      exact effectPc _
  | main =>
    simp only [level] at ok ⊢
    split at ok
    · rename_i last
      rw [if_pos last]
      obtain ⟨v, unblocks, ok⟩ := bindOk.mp ok
      cases ok
      exact movesOn (unblockEffect _ unblocks)
    · rename_i more
      cases ok
      rw [if_neg more]
      exact effectPc _

theorem pthreadExitEffect (ok : pthreadExit s c = .ok s') :
    Effect may (wakeUpJoinerOps s c ++ [.zombie c]) s s' := by
  unfold pthreadExit at ok
  obtain ⟨u, wakes, ok⟩ := bindOk.mp ok
  refine effectTrans (joinerEffect wakes) (effectAfter (effectProc (c := c) (f := fun p => {p with
    activeThreads := decrement p.activeThreads}) rfl) ?_)
  cases ok
  refine ⟨performsOne ((joinerKeeps wakes).1.trans runs) ?_, tiesOwn (t := c) rfl rfl rfl rfl⟩
  unfold State.sched Sched.perform
  congr 1 <;> funext t <;> by_cases self : t = c <;> simp [self]

theorem exitEnterEffect {code : Int} (ok : exitEnter s c code = .ok s') :
    Effect may (exitOps s c (.enter code)) s s' := by
  unfold exitEnter at ok
  obtain ⟨u, wakes, ok⟩ := bindOk.mp ok
  obtain ⟨current, procs⟩ := joinerKeeps wakes
  refine effectTrans (joinerEffect wakes) (effectAfter (effectProc (c := c) (f := fun p =>
    setExitCode p code) (setExitCodeThreads _ _)) ?_)
  have proc : (u.setProc c fun p => setExitCode p code).proc c = setExitCode (s.proc c) code := by
    rw [← procs c]
    simp
  simp only [proc, setExitCodeExiting] at ok
  cases now : (s.proc c).exiting with
  | main =>
    simp only [now, if_true] at ok ⊢
    split at ok <;> try contradiction
    rename_i other
    cases ok
    have apart : (s.proc c).mainThread ≠ c := fun same => other (by
      unfold isMainThread
      rw [proc, setExitCodeMain, same]
      simp)
    have elsewhere : u.current ≠ some (s.proc c).mainThread := by
      rw [current, runs]
      exact fun same => apart (Option.some.inj same).symm
    rw [setExitCodeMain]
    exact movesOn (effectThen (zombifyEffect elsewhere) (effectProc rfl))
  | none =>
    simp only [now] at ok ⊢
    cases ok
    exact movesOn (effectProc rfl)
  | normal | exception =>
    simp only [now] at ok ⊢
    cases ok
    exact effectPc _

theorem exitVisitEffect {pos : Tid} {todo : List Tid} (inside : (s.thread c).inHandler = true)
    (ok : exitVisit s pos = .ok s') : Effect may (exitOps s c (.visit (pos :: todo))) s s' := by
  unfold exitVisit at ok
  simp only [exitOps]
  split at ok <;> try contradiction
  split at ok
  · rename_i outside
    rw [if_pos outside]
    obtain ⟨u, removes, wakes⟩ := bindOk.mp ok
    -- the status has been written before the helper looks at it
    have same : u = exitHelper s pos := by
      unfold exitHelperRemoveFromList at removes
      rw [if_neg (by simp)] at removes
      exact (Except.ok.inj removes).symm
    subst same
    have other : s.current ≠ some pos := fun same => by
      rw [runs] at same
      rw [← Option.some.inj same, inside] at outside
      cases outside
    have joined : wakeUpJoinerOps (exitHelper s pos) pos = wakeUpJoinerOps s pos := by
      simp [wakeUpJoinerOps, exitHelper]
    rw [← joined]
    exact effectTrans (zombifyEffect other) (joinerEffect wakes)
  · rename_i inHandler
    cases ok
    rw [if_neg inHandler]
    exact effectRefl

theorem exitEffect {stage : Exit} (here : (s.thread c).pc = .exit stage)
    (inside : (s.thread c).inHandler = true) (ok : processExitNormal s c stage = .ok s') :
    Effect (leaves s) (exitOps s c stage) s s' := by
  cases stage with
  | enter code => exact exitEnterEffect runs ok
  | lock =>
    cases ok
    exact readerEffect runs
  | remove =>
    obtain ⟨u, removes, ok⟩ := bindOk.mp ok
    cases ok
    exact movesOn (removeEffect ⟨c, runs, rfl, .exit here⟩ removes)
  | visit todo =>
    cases todo with
    | nil =>
      cases ok
      exact effectPc _
    | cons pos todo =>
      obtain ⟨u, visits, ok⟩ := bindOk.mp ok
      cases ok
      exact movesOn (exitVisitEffect runs inside visits)
  | unlock =>
    cases ok
    exact movesOn (effectProc rfl)
  | check =>
    cases ok
    refine effectAfter (effectPc (t := c) (.exit .assert)) ?_
    have proc : (s.setPc c (.exit .assert)).proc c = s.proc c := by simp
    simp only [exitOps, proc]
    split
    · exact blockEffect runs
    · exact effectRefl
  | assert =>
    simp only [processExitNormal] at ok
    split at ok <;> try contradiction
    cases ok
    exact effectPc _

theorem mainEffect {stage : Main} (here : (s.thread c).pc = .main stage)
    (ok : pthreadExitMain s c stage = .ok s') :
    Effect (leaves s) (runOps s c (.main stage)) s s' := by
  cases stage with
  | enter =>
    simp only [pthreadExitMain] at ok
    refine effectAfter (effectProc (c := c) (f := fun p => setExitCode p 0)
      (setExitCodeThreads _ _)) ?_
    have proc : (s.setProc c fun p => setExitCode p 0).proc c = setExitCode (s.proc c) 0 := by simp
    rw [proc, setExitCodeExiting] at ok
    simp only [runOps]
    split at ok
    · rename_i level
      rw [if_pos level]
      obtain ⟨u, wakes, ok⟩ := bindOk.mp ok
      cases ok
      obtain ⟨current, procs⟩ := joinerKeeps wakes
      have active : (u.proc c).activeThreads = (s.proc c).activeThreads := by
        rw [procs c]
        simp
      have same : loopOps u c = loopOps s c := by
        unfold loopOps
        rw [active]
      rw [← same]
      exact effectAfter (effectProc rfl)
        (effectTrans (joinerEffect wakes) (loopEffect (current.trans runs)))
    · rename_i level
      rw [if_neg level]
      cases ok
      exact effectPc _
  | wait =>
    cases ok
    exact loopEffect runs
  | assert =>
    simp only [pthreadExitMain] at ok
    obtain ⟨u, removes, ok⟩ := bindOk.mp ok
    split at ok <;> try contradiction
    cases ok
    exact movesOn (removeEffect ⟨c, runs, rfl, .main here⟩ removes)

end Effects

theorem returnEffect {ops : List Op} {u : State} {pos : Tid} (first : Effect may ops s u) :
    Effect may ops s (joinReturn u c pos) :=
  movesOn (effectThen first (effectThread rfl rfl rfl rfl rfl))

theorem joinEffect {stage : Join} (runs : s.current = some c)
    (here : (s.thread c).pc = .join stage) (ok : pthreadJoin s c stage = .ok s') :
    Effect (leaves s) (joinOps s c stage) s s' ∨ Relinks (.join stage) := by
  cases stage with
  | set f => exact .inr .set
  | lock tid =>
    cases ok
    exact .inl (readerEffect runs)
  | scan tid =>
    obtain ⟨found, _, ok⟩ := bindOk.mp ok
    cases ok
    exact .inl (effectPc _)
  | unlock found =>
    simp only [pthreadJoin] at ok
    split at ok
    · cases ok
      exact .inl (movesOn (effectProc rfl))
    · split at ok <;> cases ok <;> exact .inl (movesOn (effectProc rfl))
  | relock f =>
    cases ok
    exact .inl (writerEffect runs)
  | remove f =>
    obtain ⟨u, removes, ok⟩ := bindOk.mp ok
    cases ok
    refine .inl (movesOn ?_)
    unfold joinRemove at removes
    split at removes
    · cases removes
      exact effectRefl
    · split at removes <;> try contradiction
      split at removes <;> try contradiction
      rename_i zombie
      exact removeEffect ⟨c, runs, rfl, .join here zombie⟩ removes
  | release f =>
    cases ok
    split
    · exact .inl (returnEffect (effectProc rfl))
    · exact .inl (movesOn (effectProc rfl))
  | free f =>
    obtain ⟨u, frees, ok⟩ := bindOk.mp ok
    cases ok
    exact .inl (returnEffect (freeEffect frees))

theorem cleanEffect (runs : s.current = some c) (here : (s.thread c).pc = .clean)
    (ok : cleanThreads s c = .ok s') : Effect (leaves s) (runOps s c .clean) s s' := by
  unfold cleanThreads at ok
  split at ok
  · rename_i empty
    cases ok
    simp only [runOps, empty]
    exact effectPc _
  · rename_i pos rest list
    simp only [runOps, list]
    refine effectAfter (effectShed (f := fun p => {p with threads := rest}) ?_ fun u _ =>
      .inr ⟨c, runs, rfl, .clean here⟩) (freeEffect ok)
    rw [list]
    exact List.sublist_cons_self pos rest

theorem tailEffect {stage : Tail} (runs : s.current = some c)
    (ok : processExitTail s c stage = .ok s') : Effect may (runOps s c (.tail stage)) s s' := by
  cases stage with
  | filesys =>
    cases ok
    refine movesOn ?_
    split
    · exact filesysUpEffect _
    · exact effectRefl
  | locks =>
    cases ok
    exact movesOn (effectAfter (effectThread (t := c) (f := fun th => {th with lockQueue := []})
      rfl rfl rfl rfl rfl) (effectProc (c := c) rfl))
  | free =>
    cases ok
    split
    · exact dieEffect runs
    · exact effectAfter (effectProc (c := c) (f := fun p =>
        {p with inKernelThreads := decrement p.inKernelThreads}) rfl) (dieEffect runs)

theorem workEffect {stage : Work} (runs : s.current = some c) :
    Effect may (runOps s c (.work stage)) s (workStep s c stage) := by
  cases stage with
  | down => exact filesysDownEffect runs
  | up => exact movesOn (filesysUpEffect _)
  | any | body => exact effectPc _
  | store | clear => exact movesOn (effectProc rfl)

theorem runPcEffect {pc : Pc} (here : (s.thread c).pc = pc) (base : Base s)
    (runs : s.current = some c) (ok : runPc s c pc = .ok s') :
    Effect (leaves s) (runOps s c pc) s s' ∨ Relinks pc := by
  cases pc with
  | load stage => cases ok; exact .inl (startProcessEffect runs here)
  | work stage => cases ok; exact .inl (workEffect runs)
  | create stage => cases ok; exact createEffect runs
  | start stage => cases ok; exact startEffect runs
  | trap k =>
    cases ok
    unfold trap
    exact .inl (effectAfter (effectProc rfl) (effectThread rfl rfl rfl rfl rfl))
  | join stage => exact joinEffect runs here ok
  | leave flag => exact .inl (leaveEffect runs ok)
  | pthreadExit => exact .inl (pthreadExitEffect runs ok)
  | exit stage => exact .inl (exitEffect runs here (base.hand c true (by rw [here]; rfl)) ok)
  | main stage => exact .inl (mainEffect runs here ok)
  | clean => exact .inl (cleanEffect runs here ok)
  | tail stage => exact .inl (tailEffect runs ok)
  | user | zombie | gone => cases ok; exact .inl effectRefl

theorem relinksPerforms {pc : Pc} (runs : s.current = some c) (relinks : Relinks pc)
    (ok : runPc s c pc = .ok s') : Performs s.sched (runOps s c pc) s'.sched := by
  cases relinks with
  | execute =>
    cases ok
    have spawns := spawnPerforms (s := s) (s.thread c).pid (.start .setup)
    have same := schedPc (s := threadCreate s (s.thread c).pid (.start .setup)) (t := c)
      (.create (.wait (some s.created)))
    rw [← same] at spawns
    exact spawns
  | push =>
    cases ok
    exact performsNone (schedPc _)
  | @set f =>
    simp only [runPc, pthreadJoin, joinSet] at ok
    split at ok <;> try contradiction
    cases ok
    generalize sets : (s.setThread f.pos fun th => {th with joinedBy := some c}).setPc c
      (.join (.relock f)) = u
    have same : u.sched = s.sched := by
      rw [← sets]
      exact (schedPc _).trans (schedThread rfl rfl rfl)
    have proc : u.proc c = s.proc c := by
      rw [← sets]
      by_cases self : c = f.pos <;> simp [self]
    simp only [runOps, joinOps, proc]
    split
    · have blocks : Effect (leaves s) [.block c] u (threadBlock u c) := blockEffect (by
        rw [← sets]
        exact runs)
      rw [← same]
      exact blocks.performs
    · exact performsNone same

theorem takeLockEffect (l : LockId) : Effect may [] s (takeLock s c l) := by
  have same : (s.setThread c fun th => {th with lockQueue := l :: th.lockQueue}).sched = s.sched :=
    schedThread rfl rfl rfl
  exact ⟨performsNone same, tiesOwn (t := c) rfl rfl rfl rfl⟩

theorem giveLockEffect (l : LockId) : Effect may [] s (giveLock s c l) := by
  have same : (s.setThread c fun th => {th with lockQueue := th.lockQueue.erase l}).sched =
    s.sched := schedThread rfl rfl rfl
  exact ⟨performsNone same, tiesOwn (t := c) rfl rfl rfl rfl⟩

theorem lockAcquireEffect (runs : s.current = some c) (n : Nat) :
    Effect may (if n ∈ (s.proc c).locksTab ∧
        s.holder (.user (s.thread c).pid n) ≠ some c ∧
        s.holder (.user (s.thread c).pid n) ≠ none then [.sleep c] else []) s
      (handlerLockAcquire s c n) := by
  unfold handlerLockAcquire
  simp only
  by_cases refused : n ∉ (s.proc c).locksTab ∨ s.holder (.user (s.thread c).pid n) = some c
  · rw [if_pos refused, if_neg fun both => refused.elim (fun off => off both.1) both.2.1]
    exact effectRefl
  · obtain ⟨known, other⟩ := not_or.mp refused
    rw [if_neg refused]
    by_cases free : s.holder (.user (s.thread c).pid n) = none
    · rw [if_pos free, if_neg fun both => both.2.2 free]
      exact takeLockEffect _
    · rw [if_neg free, if_pos ⟨not_not.mp known, other, free⟩]
      exact sleepEffect runs

theorem acquireEffect (runs : s.current = some c) (ok : kernelAcquire s c l = .ok s') :
    Effect may (if s.holder l ≠ some c ∧ s.holder l ≠ none then [.sleep c] else []) s s' := by
  unfold kernelAcquire at ok
  simp only at ok
  split at ok
  · rename_i own
    rw [if_neg fun both => both.1 own]
    split at ok <;> try contradiction
    cases ok
    exact ⟨performsNone (schedThread rfl rfl rfl), tiesOwn (t := c) rfl rfl rfl rfl⟩
  · rename_i other
    split at ok
    · rename_i free
      rw [if_neg fun both => both.2 free]
      cases ok
      exact effectAfter (takeLockEffect l) (effectThread rfl rfl rfl rfl rfl)
    · rename_i taken
      rw [if_pos ⟨other, taken⟩]
      cases ok
      exact sleepEffect runs

theorem releaseEffect (ok : kernelRelease s c l = .ok s') : Effect may [] s s' := by
  unfold kernelRelease at ok
  simp only at ok
  split at ok
  · cases ok
    exact ⟨performsNone (schedThread rfl rfl rfl), tiesOwn (t := c) rfl rfl rfl rfl⟩
  · split at ok <;> try contradiction
    cases ok
    exact effectAfter (giveLockEffect l) (effectThread rfl rfl rfl rfl rfl)

theorem stepCurrentEffect (base : Base s) (runs : s.current = some c)
    (ok : stepCurrent s c a = .ok s') : Effect (leaves s) (currentOps s c a) s s' ∨
      a = .run ∧ (s.thread c).nested = [] ∧ Relinks (s.thread c).pc := by
  cases a with
  | run =>
    simp only [stepCurrent, currentOps] at ok ⊢
    split at ok
    · rename_i plain
      rw [if_pos plain]
      exact (runPcEffect rfl base runs ok).imp id fun relinks => ⟨trivial, plain, relinks⟩
    · rename_i nested
      rw [if_neg nested]
      cases ok
      exact .inl effectRefl
  | call k | noStack =>
    cases ok
    split
    · exact .inl (effectPc _)
    · exact .inl effectRefl
  | fault =>
    cases ok
    unfold pageFault
    split
    · exact .inl (effectThread rfl rfl rfl rfl rfl)
    · exact .inl (effectThread rfl rfl rfl rfl rfl)
    · exact .inl effectRefl
  | starve =>
    cases ok
    unfold starvePc
    split
    · exact .inl (effectPc _)
    · exact .inl (effectPc _)
    · exact .inl (effectPc _)
    · exact .inl effectRefl
  | lockInit n =>
    cases ok
    unfold handlerLockInit
    split
    · split
      · exact .inl effectRefl
      · exact .inl (effectProc rfl)
    · exact .inl effectRefl
  | lockAcquire n =>
    cases ok
    simp only [currentOps]
    by_cases here : (s.thread c).pc = .work .any
    · simp only [here, if_true, true_and]
      exact .inl (lockAcquireEffect runs n)
    · rw [if_neg here, if_neg fun all => here all.1]
      exact .inl effectRefl
  | lockRelease n =>
    cases ok
    simp only [handlerLockRelease]
    split
    · split
      · exact .inl effectRefl
      · exact .inl (giveLockEffect _)
    · exact .inl effectRefl
  | acquire l =>
    simp only [stepCurrent, currentOps] at ok ⊢
    split at ok
    · rename_i inside
      simp only [inside, true_and]
      exact .inl (acquireEffect runs ok)
    · rename_i outside
      rw [if_neg fun all => outside ⟨all.1, all.2.1⟩]
      cases ok
      exact .inl effectRefl
  | release l =>
    simp only [stepCurrent] at ok
    split at ok
    · exact .inl (releaseEffect ok)
    · cases ok
      exact .inl effectRefl
  | block =>
    cases ok
    simp only [currentOps]
    split
    · exact .inl (sleepEffect runs)
    · exact .inl effectRefl
  | preempt =>
    cases ok
    simp only [currentOps]
    split
    · exact .inl effectRefl
    · exact .inl (yieldEffect runs)
  | _ =>
    cases ok
    exact .inl effectRefl

theorem stepEffect (base : Base s) (ok : step s a = .ok s') :
    Effect (leaves s) (ops s a) s s' ∨
      a = .launch ∧ s' = (threadCreate s s.created (.load .down)).setPcb s.created
        (fun _ => initProcess s.created) ∨
      ∃ c, s.current = some c ∧ a = .run ∧ (s.thread c).nested = [] ∧ Relinks (s.thread c).pc ∧
        runPc s c (s.thread c).pc = .ok s' := by
  unfold step at ok
  split at ok
  · exact .inl (wakeEffect ok)
  · simp only [ops]
    split at ok
    · rename_i idle
      rw [if_pos idle]
      exact .inl (dispatchEffect idle.1 idle.2 ok)
    · rename_i busy
      rw [if_neg busy]
      cases ok
      exact .inl effectRefl
  · cases ok
    exact .inr (.inl ⟨rfl, rfl⟩)
  · split at ok
    · rename_i idle
      cases ok
      simp only [ops, idle]
      exact .inl effectRefl
    · rename_i c runs
      rcases stepCurrentEffect base runs ok with effect | ⟨rfl, plain, relinks⟩
      · refine .inl ?_
        simp only [ops, runs]
        exact effect
      · simp only [stepCurrent, plain, if_true] at ok
        exact .inr (.inr ⟨c, runs, rfl, plain, relinks, ok⟩)

theorem stepPerforms (base : Base s) (ok : step s a = .ok s') :
    Performs s.sched (ops s a) s'.sched := by
  rcases stepEffect base ok with effect | ⟨rfl, rfl⟩ | ⟨c, runs, rfl, plain, relinks, ok⟩
  · exact effect.performs
  · exact spawnPerforms _ _
  · simp only [ops, runs, currentOps, plain, if_true]
    exact relinksPerforms runs relinks ok

end Steps

structure Lined (g : Sched) : Prop where
  mem : ∀ t, t ∈ g.readyList ↔ g.elem t = some .ready
  nodup : g.readyList.Nodup
  running : ∀ c, g.current = some c → g.status c = .running ∧ g.elem c = none
  fresh : ∀ t, g.created ≤ t → (g.status t = .dying ∨ g.status t = .zombie) ∧ g.elem t = none
  dying : ∀ t, t < g.created → g.status t = .dying → g.freed t = true

section Lined
variable {g : Sched} {c t : Tid}
  {g' : Sched}

theorem currentKnown (lined : Lined g) (runs : g.current = some c) : c < g.created := by
  by_contra late
  have status := (lined.running c runs).1
  rcases (lined.fresh c (Nat.le_of_not_lt late)).1 with dying | zombie
  · rw [status] at dying; cases dying
  · rw [status] at zombie; cases zombie

theorem linkedKnown (lined : Lined g) {q : Queue} (linked : g.elem t = some q) :
    t < g.created := by
  by_contra late
  rw [(lined.fresh t (Nat.le_of_not_lt late)).2] at linked
  cases linked

theorem linedReady (lined : Lined g) (off : g.elem t ≠ some .ready) (known : t < g.created)
    (status : g'.status = update g.status t .ready)
    (elem : g'.elem = update g.elem t (some .ready))
    (freed : g'.freed = g.freed) (list : g'.readyList = g.readyList ++ [t])
    (created : g'.created = g.created)
    (current : g'.current = none ∨ g'.current = g.current ∧ g.current ≠ some t) : Lined g' := by
  have out : t ∉ g.readyList := fun inside => off ((lined.mem t).mp inside)
  refine ⟨?_, ?_, ?_, ?_, ?_⟩
  · intro u
    rw [list, elem]
    by_cases self : u = t
    · simp [self]
    · simpa [self] using lined.mem u
  · rw [list]
    exact List.nodup_append_comm.mp (List.nodup_cons.mpr ⟨out, lined.nodup⟩)
  · intro u runs
    rcases current with none | ⟨same, other⟩
    · rw [none] at runs; cases runs
    · rw [same] at runs
      have apart : u ≠ t := fun self => other (self ▸ runs)
      rw [status, elem]
      simpa [apart] using lined.running u runs
  · intro u late
    rw [created] at late
    have apart : u ≠ t := fun self => absurd (self ▸ late) (Nat.not_le_of_lt known)
    rw [status, elem]
    simpa [apart] using lined.fresh u late
  · intro u young
    rw [created] at young
    rw [status, freed]
    by_cases self : u = t
    · simp [self]
    · simpa [self] using lined.dying u young

theorem linedStop (lined : Lined g) (runs : g.current = some c) {now : Status}
    (place : Option Queue) (status : g'.status = update g.status c now)
    (elem : g'.elem = update g.elem c place) (off : place ≠ some .ready)
    (freed : ∀ u, u ≠ c → g'.freed u = g.freed u) (dies : now = .dying → g'.freed c = true)
    (list : g'.readyList = g.readyList) (created : g'.created = g.created)
    (current : g'.current = none) : Lined g' := by
  have known := currentKnown lined runs
  have out : c ∉ g.readyList := fun inside => by
    have ready := (lined.mem c).mp inside
    rw [(lined.running c runs).2] at ready
    cases ready
  refine ⟨?_, by rw [list]; exact lined.nodup, ?_, ?_, ?_⟩
  · intro u
    rw [list, elem]
    by_cases self : u = c
    · simp [self, out, off]
    · simpa [self] using lined.mem u
  · intro u runs
    rw [current] at runs
    cases runs
  · intro u late
    rw [created] at late
    have apart : u ≠ c := fun self => absurd (self ▸ late) (Nat.not_le_of_lt known)
    rw [status, elem]
    simpa [apart] using lined.fresh u late
  · intro u young
    rw [created] at young
    rw [status]
    by_cases self : u = c
    · subst self
      simpa using dies
    · rw [freed u self]
      simpa [self] using lined.dying u young

theorem linedPerform {op : Op} (lined : Lined g) (allowed : g.Allows op) :
    Lined (g.perform op) := by
  cases op with
  | unblock t on =>
    obtain ⟨_, blocked, free⟩ := allowed
    refine linedReady lined (by rw [free]; simp) ?_ rfl rfl rfl rfl rfl (.inr ⟨rfl, ?_⟩)
    · by_contra late
      rcases (lined.fresh t (Nat.le_of_not_lt late)).1 with dying | zombie
      · rw [blocked] at dying; cases dying
      · rw [blocked] at zombie; cases zombie
    · intro runs
      rw [(lined.running t runs).1] at blocked
      cases blocked
  | wake t =>
    obtain ⟨_, blocked, waits⟩ := allowed
    refine linedReady lined (by rw [waits]; simp) (linkedKnown lined waits) rfl rfl rfl rfl rfl
      (.inr ⟨rfl, ?_⟩)
    intro runs
    rw [(lined.running t runs).1] at blocked
    cases blocked
  | yield c =>
    refine linedReady lined ?_ (currentKnown lined allowed) rfl rfl rfl rfl rfl (.inl rfl)
    rw [(lined.running c allowed).2]
    simp
  | zombify t =>
    refine ⟨lined.mem, lined.nodup, ?_, ?_, ?_⟩
    · intro u runs
      have apart : u ≠ t := fun self => allowed (self ▸ runs)
      simpa [Sched.perform, apart] using lined.running u runs
    · intro u late
      refine ⟨?_, (lined.fresh u late).2⟩
      by_cases self : u = t
      · simp [Sched.perform, self]
      · simpa [Sched.perform, self] using (lined.fresh u late).1
    · intro u young
      by_cases self : u = t
      · simp [Sched.perform, self]
      · simpa [Sched.perform, self] using lined.dying u young
  | block c | zombie c =>
    exact linedStop lined allowed (g.elem c) rfl (by simp [Sched.perform])
      (by rw [(lined.running c allowed).2]; simp) (fun _ _ => rfl) (by simp) rfl rfl rfl
  | sleep c =>
    exact linedStop lined allowed _ rfl rfl (by simp) (fun _ _ => rfl) (by simp) rfl rfl rfl
  | die c =>
    refine linedStop lined allowed (g.elem c) rfl (by simp [Sched.perform])
      (by rw [(lined.running c allowed).2]; simp) ?_ ?_ rfl rfl rfl
    · intro u other
      simp [Sched.perform, other]
    · simp [Sched.perform]
  | dispatch t =>
    obtain ⟨idle, inside, kept⟩ := allowed
    have known := linkedKnown lined ((lined.mem t).mp inside)
    refine ⟨?_, lined.nodup.erase t, ?_, ?_, ?_⟩
    · intro u
      by_cases self : u = t
      · subst self
        simpa [Sched.perform] using lined.nodup.not_mem_erase
      · simpa [Sched.perform, self, List.mem_erase_of_ne self] using lined.mem u
    · intro u runs
      cases runs
      simp [Sched.perform]
    · intro u late
      have apart : u ≠ t := fun self => absurd (self ▸ late) (Nat.not_le_of_lt known)
      simpa [Sched.perform, apart] using lined.fresh u late
    · intro u young
      by_cases self : u = t
      · simp [Sched.perform, self]
      · simpa [Sched.perform, self] using lined.dying u young
  | spawn t =>
    have new : t = g.created := allowed
    have out : t ∉ g.readyList := fun inside =>
      absurd (linkedKnown lined ((lined.mem t).mp inside)) (by rw [new]; exact Nat.lt_irrefl _)
    refine ⟨?_, ?_, ?_, ?_, ?_⟩
    · intro u
      by_cases self : u = t
      · simp [Sched.perform, self]
      · simpa [Sched.perform, self] using lined.mem u
    · exact List.nodup_append_comm.mp (List.nodup_cons.mpr ⟨out, lined.nodup⟩)
    · intro u runs
      have apart : u ≠ t := Nat.ne_of_lt (new ▸ currentKnown lined runs)
      simpa [Sched.perform, apart] using lined.running u runs
    · intro u late
      have older : g.created + 1 ≤ u := late
      have apart : u ≠ t := fun self => absurd (self ▸ older) (by rw [new]; exact Nat.not_succ_le_self _)
      simpa [Sched.perform, apart] using lined.fresh u (Nat.le_of_succ_le older)
    · intro u young
      by_cases self : u = t
      · simp [Sched.perform, self]
      · have older : u < g.created :=
          Nat.lt_of_le_of_ne (Nat.le_of_lt_succ young) (new ▸ self)
        simpa [Sched.perform, self] using lined.dying u older
  | free t =>
    refine ⟨lined.mem, lined.nodup, lined.running, lined.fresh, ?_⟩
    intro u young dying
    by_cases self : u = t
    · simp [Sched.perform, self]
    · simpa [Sched.perform, self] using lined.dying u young dying

theorem linedBoot : Lined boot.sched := by
  constructor <;> simp [State.sched, boot]

theorem linedStep {s s' : State} {a : Action} (base : Base s) (lined : Lined s.sched)
    (ok : step s a = .ok s') : Lined s'.sched :=
  performsKeep (stepPerforms base ok) lined fun _ _ lined allowed => linedPerform lined allowed

end Lined
end Pintos.Userprog
