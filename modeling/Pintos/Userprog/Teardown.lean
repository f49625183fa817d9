import Pintos.Userprog.Orderly

/-! What the exit of a process guarantees to the rest of the system: its threads stop
running user code, and its memory is taken down when nobody else of it is left. -/
namespace Pintos.Userprog
open Machine

def Fifo (s : State) (a : Action) : Prop :=
  match a with
  | .dispatch t => s.readyList.head? = some t
  | _ => True

instance (s a) : Decidable (Fifo s a) := by
  unfold Fifo
  split <;> infer_instance

def Traversed (s : State) (e : Tid) : Prop :=
  e < s.created ∧ (s.thread e).pc.todo = some []

instance (s e) : Decidable (Traversed s e) := by
  unfold Traversed
  infer_instance

/-- Other threads of the process execute no user code: one that was stopped there is
in no list and does not run. -/
def UserStopped (s : State) : Prop :=
  ∀ e t, Traversed s e → t ≠ e → (s.thread t).pid = (s.thread e).pid → (s.thread t).pc = .user →
    (s.thread t).elem = none ∧ t ∉ s.readyList ∧ s.current ≠ some t

section Exit
variable {s : State} {e t : Tid}

theorem endedOutside {pc : Pc} (ended : pc.ended = true) : pc.outside = false := by
  cases pc <;> simp_all [Pc.ended, Pc.outside]

theorem traversedOutside (inv : Tidy s) (traversed : Traversed s e) (known : t < s.created)
    (other : t ≠ e) (pid : (s.thread t).pid = (s.thread e).pid) :
    (s.thread t).pc.outside = false := by
  obtain ⟨young, todo⟩ := traversed
  have late : (s.thread e).pc.late = true → (s.thread t).pc.outside = false := fun late =>
    endedOutside (inv.alone e t young known late other pid)
  cases here : (s.thread e).pc with
  | exit stage => exact inv.visited e t stage [] here todo other pid (by simp)
  | clean | tail stage | gone => exact late (by rw [here]; rfl)
  | _ => rw [here] at todo; cases todo

def TailStarted (s : State) (e : Tid) : Prop :=
  e < s.created ∧ ((s.thread e).pc = .gone ∨ ∃ stage, (s.thread e).pc = .tail stage)

theorem tailEnded (inv : Tidy s) (started : TailStarted s e) (known : t < s.created)
    (other : t ≠ e) (pid : (s.thread t).pid = (s.thread e).pid) : (s.thread t).pc.ended = true := by
  obtain ⟨young, gone | ⟨stage, tail⟩⟩ := started
  · exact inv.alone e t young known (by rw [gone]; rfl) other pid
  · exact inv.alone e t young known (by rw [tail]; rfl) other pid

structure Exclusive (s : State) : Prop where
  others : ∀ e t, TailStarted s e → t < s.created → t ≠ e →
    (s.thread t).pid = (s.thread e).pid →
    ((s.thread t).status = .zombie ∨ (s.thread t).freed = true) ∧ (s.thread t).elem = none ∧
      t ∉ s.readyList ∧ s.current ≠ some t
  pages : ∀ t, (s.thread t).freed = true → (s.thread t).status ≠ .ready ∧
    (s.thread t).status ≠ .running ∧ (s.thread t).status ≠ .blocked

theorem restedUnlinked (inv : Tidy s) (rested : s.sched.Rested t) :
    (s.thread t).elem = none ∧ t ∉ s.readyList ∧ s.current ≠ some t := by
  obtain ⟨ended, free⟩ := rested
  refine ⟨free, fun inside => ?_, fun runs => ?_⟩
  · have ready := (inv.lined.mem t).mp inside
    rw [free] at ready
    cases ready
  · have running := (inv.lined.running t runs).1
    unfold Sched.Ended at ended
    rw [running] at ended
    simp at ended

theorem tidyExclusive (inv : Tidy s) : Exclusive s := by
  refine ⟨?_, ?_⟩
  · intro e t started known other pid
    have rested := inv.rested t known (tailEnded inv started known other pid)
    refine ⟨?_, restedUnlinked inv rested⟩
    rcases rested.1 with zombie | dying
    · exact .inl zombie
    · exact .inr (inv.lined.dying t known dying)
  · intro t freed
    have ended : s.sched.Ended t := by
      by_cases known : t < s.created
      · exact (inv.rested t known (inv.pages t known freed)).1
      · exact (inv.lined.fresh t (Nat.le_of_not_lt known)).1.symm
    rcases ended with status | status <;> simp only [State.sched] at status <;> simp [status]

theorem exitStopsUserCode (run : Run step Orderly boot s) : UserStopped s := by
  intro e t traversed other pid user
  have inv := runTidy run
  have known := aliveKnown (c := t) inv.tally.toBase (by rw [user]; rfl)
  have outside := traversedOutside inv traversed known other pid
  simp [user, Pc.outside] at outside

theorem exclusiveTeardown (run : Run step Orderly boot s) : Exclusive s :=
  tidyExclusive (runTidy run)

end Exit

section Runs

def twoThreads : List Action :=
  [.launch, .dispatch 0, .run, .run, .run, .call .pthreadCreate, .run, .run, .run, .run,
    .dispatch 1, .run, .run, .run, .run, .run, .run, .wake 0, .run, .run]

def exitWaits : List Action :=
  twoThreads ++ [.call .other, .run, .block, .dispatch 0, .run, .run, .call (.exit 0), .run, .run,
    .run, .run, .run, .run, .run, .run]

theorem exitStopsUserCodeExample : ∃ s, Run step Orderly boot s ∧
    (Traversed s 0 ∧ (s.thread 1).pid = (s.thread 0).pid ∧ (s.thread 1).pc = .zombie) ∧
    UserStopped s := by
  obtain ⟨s, run, found⟩ := execFinds step Orderly boot
    (exitWaits ++ [.wake 1, .dispatch 1, .run, .run, .run])
    (fun s => decide (Traversed s 0 ∧
      (s.thread 1).pid = (s.thread 0).pid ∧ (s.thread 1).pc = .zombie)) (by decide +kernel)
  exact ⟨s, run, of_decide_eq_true found, exitStopsUserCode run⟩

theorem preemptedKeepsRunning : ∃ s, Run step Fifo boot s ∧ ¬ UserStopped s := by
  obtain ⟨s, run, found⟩ := execFinds step Fifo boot
    (twoThreads ++ [.preempt, .dispatch 0, .run, .run, .call .pthreadCreate, .run, .run, .run, .run,
      .dispatch 1, .preempt, .dispatch 2, .run, .run, .run, .run, .run, .run, .wake 0, .run, .run,
      .call .other, .run, .block, .dispatch 1, .preempt, .dispatch 0, .run, .run, .call (.exit 0),
      .run, .run, .run, .run, .run, .run, .run, .run, .run, .dispatch 1])
    (fun s => decide (Traversed s 0 ∧
      (s.thread 1).pid = (s.thread 0).pid ∧ (s.thread 1).pc = .user ∧ s.current = some 1))
    (by decide +kernel)
  obtain ⟨traversed, pid, user, runs⟩ := of_decide_eq_true found
  exact ⟨s, run, fun stopped => (stopped 0 1 traversed (by decide) pid user).2.2 runs⟩

theorem exclusiveTeardownExample : ∃ s, Run step Orderly boot s ∧
    (TailStarted s 0 ∧ (s.thread 1).pid = (s.thread 0).pid ∧ (s.thread 1).freed = true) ∧
    Exclusive s := by
  obtain ⟨s, run, found⟩ := execFinds step Orderly boot
    (exitWaits ++ [.wake 1, .dispatch 1, .run, .run, .run, .dispatch 0, .run, .run, .run])
    (fun s => decide (0 < s.created ∧ (s.thread 0).pc = .tail .filesys ∧
      (s.thread 1).pid = (s.thread 0).pid ∧ (s.thread 1).freed = true)) (by decide +kernel)
  obtain ⟨known, tail, pid, freed⟩ := of_decide_eq_true found
  exact ⟨s, run, ⟨⟨known, .inr ⟨_, tail⟩⟩, pid, freed⟩, exclusiveTeardown run⟩

theorem freedWhileReady : ∃ s, Run step Fifo boot s ∧ ¬ Exclusive s := by
  obtain ⟨s, run, found⟩ := execFinds step Fifo boot
    (exitWaits ++ [.wake 1, .dispatch 1, .run, .run, .preempt, .dispatch 0, .run, .run, .run])
    (fun s => decide ((s.thread 1).freed = true ∧ (s.thread 1).status = .ready)) (by decide +kernel)
  obtain ⟨freed, ready⟩ := of_decide_eq_true found
  exact ⟨s, run, fun exclusive => (exclusive.pages 1 freed).1 ready⟩

end Runs
end Pintos.Userprog
