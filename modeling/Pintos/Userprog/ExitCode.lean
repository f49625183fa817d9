import Pintos.Userprog.Teardown

/-! The exit code of a process as a function of the exit events of its threads. The
journal next to the machine writes down every call of set_exit_code with its cause, in
the order in which they happen. -/
namespace Pintos.Userprog
open Machine

attribute [local simp] Function.update_apply

inductive ExitEvent where
  | main
  | exit (code : Int)
  | exception
  deriving DecidableEq, Repr

namespace ExitEvent

def code : ExitEvent → Int
  | .main => 0
  | .exit code => code
  | .exception => -1

def isExit : ExitEvent → Bool
  | .exit _ => true
  | _ => false

end ExitEvent

def reported (events : List ExitEvent) : Int :=
  (events.foldl (fun p e => setExitCode p e.code) {}).exitCode

def Precedence (events : List ExitEvent) (code : Int) : Prop :=
  if .exception ∈ events then code = -1
  else if events.any ExitEvent.isExit then .exit code ∈ events
  else code = 0

instance (events code) : Decidable (Precedence events code) := by
  unfold Precedence
  infer_instance

def lastOther (events : List ExitEvent) : Option ExitEvent :=
  events.reverse.find? (fun e => e.code ≠ -1)

def otherCode (events : List ExitEvent) : Int := ((lastOther events).map ExitEvent.code).getD 0

/- After an exception: the last event has code -1, and the last one before it with
another code had code 0. After an exit(n) and no exception: the main thread's
pthread_exit was not the last event, or there was an exit(0). -/
def Arrived (events : List ExitEvent) : Prop :=
  if .exception ∈ events then
    events.getLast?.map ExitEvent.code = some (-1) ∧ otherCode events = 0
  else events.any ExitEvent.isExit → events.getLast? ≠ some .main ∨ .exit 0 ∈ events

instance (events) : Decidable (Arrived events) := by
  unfold Arrived
  infer_instance

section Events
variable {events : List ExitEvent} {e : ExitEvent}

theorem setExitCodeCode (p : Process) (code : Int) :
    (setExitCode p code).exitCode = if p.exitCode = 0 ∨ code ≠ -1 then code else p.exitCode := by
  unfold setExitCode
  split <;> simp_all

theorem reportedSnoc (e : ExitEvent) : reported (events ++ [e]) =
    if reported events = 0 ∨ e.code ≠ -1 then e.code else reported events := by
  unfold reported
  rw [List.foldl_append]
  exact setExitCodeCode _ _

theorem lastOtherSnoc (e : ExitEvent) : lastOther (events ++ [e]) =
    if e.code ≠ -1 then some e else lastOther events := by
  unfold lastOther
  rw [List.reverse_append]
  by_cases other : e.code = -1 <;> simp [other]

theorem lastOtherMem (last : lastOther events = some e) : e ∈ events ∧ e.code ≠ -1 := by
  refine ⟨List.mem_reverse.mp (List.mem_of_find?_eq_some last), ?_⟩
  simpa using List.find?_some last

theorem otherCodeSnoc (e : ExitEvent) : otherCode (events ++ [e]) =
    if e.code ≠ -1 then e.code else otherCode events := by
  unfold otherCode
  rw [lastOtherSnoc]
  split <;> simp

theorem otherCodeNe : otherCode events ≠ -1 := by
  unfold otherCode
  cases last : lastOther events with
  | none => simp
  | some e => simpa using (lastOtherMem last).2

theorem reportedLast : reported events =
    if events.getLast?.map ExitEvent.code = some (-1) ∧ otherCode events = 0 then -1
    else otherCode events := by
  induction events using List.reverseRecOn with
  | nil => rfl
  | append_singleton events e ih =>
    rw [reportedSnoc, otherCodeSnoc, ih]
    by_cases minus : e.code = -1
    · by_cases zero : otherCode events = 0
      all_goals simp [minus, zero]
    · simp [minus]

theorem exceptionReported (exception : .exception ∈ events) :
    reported events = -1 ↔ Arrived events := by
  rw [reportedLast]
  simp only [Arrived, exception, if_true]
  split
  · rename_i both
    exact ⟨fun _ => both, fun _ => rfl⟩
  · rename_i not
    exact ⟨fun same => absurd same otherCodeNe, fun both => absurd both not⟩

theorem reportedMem (none : .exception ∉ events) :
    reported events = 0 ∨ .exit (reported events) ∈ events := by
  induction events using List.reverseRecOn with
  | nil => exact .inl rfl
  | append_singleton events e ih =>
    have before := ih (fun mem => none (List.mem_append_left _ mem))
    rw [reportedSnoc]
    split
    · cases e with
      | main => exact .inl rfl
      | exit code => exact .inr (by simp [ExitEvent.code])
      | exception => exact absurd (by simp) none
    · exact before.imp id (fun mem => List.mem_append_left _ mem)

theorem exitReported (none : .exception ∉ events) (exits : events.any ExitEvent.isExit = true) :
    .exit (reported events) ∈ events ↔ Arrived events := by
  simp only [Arrived, none, if_false, exits, forall_const]
  -- only the last event matters
  rcases List.eq_nil_or_concat' events with rfl | ⟨before, e, rfl⟩
  · simp at exits
  · cases e with
    | main => simp [reportedSnoc, ExitEvent.code]
    | exit code =>
      have last : (before ++ [ExitEvent.exit code]).getLast? ≠ some .main := by simp
      refine ⟨fun _ => .inl last, fun _ => ?_⟩
      rw [reportedSnoc]
      split
      · simp [ExitEvent.code]
      · rename_i kept
        have before : .exception ∉ before := fun mem => none (List.mem_append_left _ mem)
        exact List.mem_append_left _ ((reportedMem before).resolve_left
          (fun zero => kept (.inl zero)))
    | exception => exact absurd (by simp) none

theorem noExitReported (none : .exception ∉ events) (exits : events.any ExitEvent.isExit = false) :
    reported events = 0 := by
  refine (reportedMem none).resolve_right fun mem => ?_
  rw [List.any_eq_false] at exits
  exact absurd rfl (exits _ mem)

theorem reportedPrecedence : Precedence events (reported events) ↔ Arrived events := by
  unfold Precedence
  split
  · rename_i exception
    exact exceptionReported exception
  · rename_i none
    split
    · rename_i exits
      exact exitReported none exits
    · rename_i exits
      have quiet : events.any ExitEvent.isExit = false := by simpa using exits
      refine ⟨fun _ => ?_, fun _ => noExitReported none quiet⟩
      simp [Arrived, none, quiet]

end Events

/-- The machine, the cause for which a thread has entered process_exit_normal, and the
exit events of each process. -/
structure Journal where
  state : State
  cause : Tid → ExitEvent
  events : Pid → List ExitEvent

def Journal.start : Journal where
  state := boot
  cause _ := .exception
  events _ := []

def exitCause : Pc → ExitEvent
  | .trap (.exit code) => .exit code
  | _ => .exception

def Journal.note (j : Journal) (s : State) (c : Tid) : Journal :=
  let old := (j.state.thread c).pc
  let new := (s.thread c).pc
  let append (e : ExitEvent) : Journal := {j with
    state := s
    events := Function.update j.events (j.state.thread c).pid
      (j.events (j.state.thread c).pid ++ [e])}
  if old = new then {j with state := s}
  else if old.entering then append (j.cause c)
  else if old = .main .enter then append .main
  else if new.entering then {j with state := s, cause := Function.update j.cause c (exitCause old)}
  else {j with state := s}

def journalStep (j : Journal) (a : Action) : Except Fault Journal := do
  let s ← step j.state a
  match a, j.state.current with
  | .launch, _ => .ok {j with state := s, events := Function.update j.events j.state.created []}
  | _, none => .ok {j with state := s}
  | _, some c => .ok (j.note s c)

structure Accounts (j : Journal) : Prop where
  code : ∀ p, (j.state.pcb p).exitCode = reported (j.events p)
  enter : ∀ t code, (j.state.thread t).pc = .exit (.enter code) → (j.cause t).code = code

section Journal
variable {j j' : Journal} {s : State} {c : Tid}
  {e : ExitEvent} {code : Int}

theorem accountsStart : Accounts .start :=
  ⟨fun _ => rfl, fun _ _ entering => by simp [Journal.start, boot] at entering⟩

theorem accountsCode (accounts : Accounts j) (pid : (s.thread c).pid = (j.state.thread c).pid)
    (pcb : ∀ p, p ≠ (j.state.thread c).pid → s.pcb p = j.state.pcb p)
    (code : (s.proc c).exitCode = (j.state.proc c).exitCode) (p : Pid) :
    (s.pcb p).exitCode = reported (j.events p) := by
  by_cases own : p = (j.state.thread c).pid
  · simp only [State.proc, pid] at code
    subst own
    exact code.trans (accounts.code _)
  · rw [pcb p own]
    exact accounts.code p

theorem accountsStill (accounts : Accounts j) (still : Still c j.state s) :
    Accounts {j with state := s} :=
  ⟨(accountsCode accounts (still.pid c) still.pcb still.proc.exitCode :),
    fun t code entering => accounts.enter t code ((still.pc t).symm.trans entering)⟩

section Accounts
variable (accounts : Accounts j) (acts : Acts c j.state s)
include accounts acts

theorem accountsEnter (new : (s.thread c).pc.entering = false) (t : Tid) (code : Int)
    (entering : (s.thread t).pc = .exit (.enter code)) : (j.cause t).code = code := by
  have other : t ≠ c := by
    rintro rfl
    rw [entering] at new
    contradiction
  exact accounts.enter t code ((acts.pc t other).symm.trans entering)

theorem accountsMove (code : (s.proc c).exitCode = (j.state.proc c).exitCode)
    (new : (s.thread c).pc.entering = false) : Accounts {j with state := s} :=
  ⟨(accountsCode accounts (acts.pid c) acts.pcb code :), (accountsEnter accounts acts new :)⟩

theorem accountsAppend
    (code : (s.proc c).exitCode = (setExitCode (j.state.proc c) e.code).exitCode)
    (new : (s.thread c).pc.entering = false) :
    Accounts {j with
      state := s
      events := Function.update j.events (j.state.thread c).pid
        (j.events (j.state.thread c).pid ++ [e])} := by
  refine ⟨fun p => ?_, (accountsEnter accounts acts new :)⟩
  by_cases own : p = (j.state.thread c).pid
  · simp only [State.proc, acts.pid] at code
    subst own
    simp only [Function.update_self]
    rw [code, reportedSnoc, setExitCodeCode, accounts.code]
  · simp only [Function.update_of_ne own, acts.pcb p own]
    exact accounts.code p

theorem accountsCause (code : (s.proc c).exitCode = (j.state.proc c).exitCode)
    (new : (s.thread c).pc = .exit (.enter e.code)) :
    Accounts {j with state := s, cause := Function.update j.cause c e} := by
  refine ⟨(accountsCode accounts (acts.pid c) acts.pcb code :), fun t code entering => ?_⟩
  by_cases self : t = c
  · subst self
    simp only [new, Pc.exit.injEq, Exit.enter.injEq] at entering
    simpa using entering
  · simp only [Function.update_of_ne self]
    exact accounts.enter t code ((acts.pc t self).symm.trans entering)

end Accounts

theorem noteQuiet (old : (j.state.thread c).pc.entering = false)
    (main : (j.state.thread c).pc ≠ .main .enter) (new : (s.thread c).pc.entering = false) :
    j.note s c = {j with state := s} := by
  simp [Journal.note, old, main, new]

theorem noteEnters (old : (j.state.thread c).pc.entering = false)
    (main : (j.state.thread c).pc ≠ .main .enter) (new : (s.thread c).pc = .exit (.enter code)) :
    j.note s c = {j with
      state := s
      cause := Function.update j.cause c (exitCause (j.state.thread c).pc)} := by
  have moved : (j.state.thread c).pc ≠ (s.thread c).pc := by
    intro same
    rw [same, new] at old
    contradiction
  have enters : (s.thread c).pc.entering = true := by rw [new]; rfl
  simp [Journal.note, old, main, moved, enters]

theorem noteExit (accounts : Accounts j) (acts : Acts c j.state s)
    (old : (j.state.thread c).pc = .exit (.enter code)) (new : (s.thread c).pc.entering = false)
    (set : (s.proc c).exitCode = (setExitCode (j.state.proc c) code).exitCode) :
    Accounts (j.note s c) := by
  have enters : (j.state.thread c).pc.entering = true := by rw [old]; rfl
  have moved : (j.state.thread c).pc ≠ (s.thread c).pc := by
    intro same
    rw [same, new] at enters
    contradiction
  have cause := accounts.enter c code old
  have noted : j.note s c = {j with
      state := s
      events := Function.update j.events (j.state.thread c).pid
        (j.events (j.state.thread c).pid ++ [j.cause c])} := by
    simp [Journal.note, enters, moved]
  rw [noted]
  exact accountsAppend accounts acts (by rw [cause]; exact set) new

theorem noteMain (accounts : Accounts j) (acts : Acts c j.state s)
    (old : (j.state.thread c).pc = .main .enter) (new : (s.thread c).pc.entering = false)
    (moved : (s.thread c).pc ≠ .main .enter)
    (set : (s.proc c).exitCode = (setExitCode (j.state.proc c) 0).exitCode) :
    Accounts (j.note s c) := by
  have noted : j.note s c = {j with
      state := s
      events := Function.update j.events (j.state.thread c).pid
        (j.events (j.state.thread c).pid ++ [.main])} := by
    simp [Journal.note, old, Ne.symm moved, Pc.entering]
  rw [noted]
  exact accountsAppend accounts acts set new

theorem noteEdge (accounts : Accounts j) (acts : Acts c j.state s) (edge : Edge c j.state s) :
    Accounts (j.note s c) := by
  -- the edges on which set_exit_code is not called and nobody comes to process_exit_normal
  have quiet : (s.proc c).exitCode = (j.state.proc c).exitCode →
      (j.state.thread c).pc.entering = false → (j.state.thread c).pc ≠ .main .enter →
      (s.thread c).pc.entering = false → Accounts (j.note s c) := by
    intro code old main new
    rw [noteQuiet old main new]
    exact accountsMove accounts acts code new
  cases edge with
  | plain moves hand proc =>
    obtain ⟨old, main, new⟩ := (plainMove moves).entering
    exact quiet proc.exitCode old main new
  | @trap k old new hand proc =>
    have outside : (j.state.thread c).pc.entering = false := by rw [old]; rfl
    have main : (j.state.thread c).pc ≠ .main .enter := by simp [old]
    cases k with
    | exit code =>
      rw [noteEnters outside main new, old]
      exact accountsCause (e := .exit code) accounts acts proc.exitCode new
    | exception =>
      rw [noteEnters outside main new, old]
      exact accountsCause (e := .exception) accounts acts proc.exitCode new
    | pthreadExit =>
      refine quiet proc.exitCode outside main ?_
      rw [new, handler]
      split <;> rfl
    | _ => exact quiet proc.exitCode outside main (by rw [new]; rfl)
  | fault old new hand proc =>
    have outside : (j.state.thread c).pc.entering = false := by
      rcases old with old | old <;> rw [old] <;> rfl
    have main : (j.state.thread c).pc ≠ .main .enter := by
      rcases old with old | old <;> simp [old]
    have cause : exitCause (j.state.thread c).pc = .exception := by
      rcases old with old | old <;> rw [old] <;> rfl
    rw [noteEnters outside main new, cause]
    exact accountsCause (e := .exception) accounts acts proc.exitCode new
  | count old new hand proc | failed old new hand proc | ends old new hand proc =>
    exact quiet proc.exitCode (by rw [old]; rfl) (by simp [old]) (by rw [new]; rfl)
  | leave old known new hand current proc wakes =>
    refine quiet proc.exitCode (by rw [old]; rfl) (by simp [old]) ?_
    rw [new]
    split <;> rfl
  | exitFirst old new level hand proc | exitMain old new level hand proc
  | exitLater old new level hand proc =>
    exact noteExit accounts acts old (by rw [new]; rfl) proc.exitCode
  | mainFirst old new level hand proc blocks =>
    exact noteMain accounts acts old (by rw [new]; exact (loopsQuiet _).1)
      (by rw [new]; exact (loopsQuiet _).2) proc.exitCode
  | mainLater old new level hand proc =>
    exact noteMain accounts acts old (by rw [new]; rfl) (by simp [new]) proc.exitCode
  | mainLoop old new hand proc blocks =>
    exact quiet proc.exitCode (by rw [old]; rfl) (by simp [old])
      (by rw [new]; exact (loopsQuiet _).1)
  | gone old new exiting threadExiting exitCode =>
    rcases old with old | old | ⟨⟨_, old⟩, _⟩ <;>
      exact quiet exitCode (by rw [old]; rfl) (by simp [old]) (by rw [new]; rfl)

theorem noteStill {a : Tid} (accounts : Accounts j) (still : Still a j.state s) :
    Accounts (j.note s c) := by
  have noted : j.note s c = {j with state := s} := by
    simp [Journal.note, still.pc]
  rw [noted]
  exact accountsStill accounts still

theorem noteCreates (accounts : Accounts j) (old : (j.state.thread c).pc = .create .execute) :
    Accounts (j.note (pthreadExecute j.state c .execute) c) := by
  have new : ((pthreadExecute j.state c .execute).thread c).pc.entering = false := by
    simp [pthreadExecute, Pc.entering]
  rw [noteQuiet (by rw [old]; rfl) (by simp [old]) new]
  refine ⟨accounts.code, ?_⟩
  intro t code entering
  by_cases self : t = c
  · subst self
    rw [entering] at new
    contradiction
  · by_cases young : t = j.state.created
    · subst young
      simp [pthreadExecute, threadCreate, newThread, self] at entering
    · refine accounts.enter t code ?_
      simpa [pthreadExecute, threadCreate, self, young] using entering

theorem launchAccounts (accounts : Accounts j) :
    Accounts {j with
      state := (threadCreate j.state j.state.created (.load .down)).setPcb j.state.created
        (fun _ => initProcess j.state.created)
      events := Function.update j.events j.state.created []} := by
  refine ⟨?_, ?_⟩
  · intro p
    by_cases young : p = j.state.created
    · subst young
      simp [threadCreate, initProcess, reported]
    · simpa [threadCreate, young] using accounts.code p
  · intro t code entering
    by_cases young : t = j.state.created
    · simp [threadCreate, newThread, young] at entering
    · refine accounts.enter t code ?_
      simpa [threadCreate, young] using entering

theorem stepAccounts {a : Action} (accounts : Accounts j) (ok : journalStep j a = .ok j') :
    Accounts j' := by
  obtain ⟨s, stepped, noted⟩ := bindOk.mp ok
  split at noted
  · cases noted
    cases stepped
    exact launchAccounts accounts
  · rename_i notLaunch current
    cases noted
    cases stepStepped stepped with
    | still still => exact accountsStill accounts still
    | acts runs | creates runs => simp [current] at runs
    | launches launch => exact absurd launch notLaunch
  · rename_i c notLaunch current
    cases noted
    cases stepStepped stepped with
    | still still => exact noteStill accounts still
    | acts runs ok acts edge =>
      cases Option.some.inj (current.symm.trans runs)
      exact noteEdge accounts acts edge
    | creates runs old now =>
      cases Option.some.inj (current.symm.trans runs)
      rw [now]
      exact noteCreates accounts old
    | launches launch => exact absurd launch notLaunch

theorem runAccounts {may : Journal → Action → Prop} (run : Run journalStep may .start j) :
    Accounts j :=
  run.invariant Accounts accountsStart fun _ _ _ accounts _ ok => stepAccounts accounts ok

end Journal

theorem exitCodePrecedence {may : Journal → Action → Prop} {j : Journal}
    (run : Run journalStep may .start j) (p : Pid) :
    Precedence (j.events p) (j.state.pcb p).exitCode ↔ Arrived (j.events p) := by
  rw [(runAccounts run).code p]
  exact reportedPrecedence

section Runs

def faultAfterExit (code : Int) : List Action :=
  twoThreads ++ [.call .other, .run, .preempt, .dispatch 0, .run, .run, .call (.exit code), .run,
    .run, .run, .run, .run, .run, .run, .run, .dispatch 1, .fault, .run, .run, .run, .dispatch 0,
    .run, .run, .run]

theorem exitCodePrecedenceExample : ∃ j, Run journalStep (fun j a => Fifo j.state a) .start j ∧
    ((j.state.thread 0).pc = .tail .filesys ∧ j.events 0 = [.exit 0, .exception]) ∧
    Precedence (j.events 0) (j.state.pcb 0).exitCode := by
  obtain ⟨j, run, found⟩ := execFinds journalStep (fun j a => Fifo j.state a) .start
    (faultAfterExit 0)
    (fun j => decide ((j.state.thread 0).pc = .tail .filesys ∧ j.events 0 = [.exit 0, .exception]))
    (by decide +kernel)
  obtain ⟨tail, events⟩ := of_decide_eq_true found
  refine ⟨j, run, ⟨tail, events⟩, (exitCodePrecedence run 0).mpr ?_⟩
  rw [events]
  decide

theorem exitOutlastsException : ∃ j, Run journalStep (fun j a => Fifo j.state a) .start j ∧
    (j.state.thread 0).pc = .tail .filesys ∧ j.events 0 = [.exit 5, .exception] ∧
    ¬ Precedence (j.events 0) (j.state.pcb 0).exitCode := by
  obtain ⟨j, run, found⟩ := execFinds journalStep (fun j a => Fifo j.state a) .start
    (faultAfterExit 5)
    (fun j => decide ((j.state.thread 0).pc = .tail .filesys ∧
      j.events 0 = [.exit 5, .exception] ∧ ¬ Precedence (j.events 0) (j.state.pcb 0).exitCode))
    (by decide +kernel)
  exact ⟨j, run, of_decide_eq_true found⟩

end Runs
end Pintos.Userprog
