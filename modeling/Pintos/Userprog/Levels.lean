import Pintos.Userprog.Teardown

/-! pcb->exiting over the life of a process. It is raised once, from NONE, and never again:
process_exit_normal leaves EXITING_MAIN as it is, so after the main thread's pthread_exit
an exit does not stop the threads that are on their way back to user mode. -/
namespace Pintos.Userprog
open Machine

def Exiting.rank : Exiting → Nat
  | .none => 0
  | .main => 1
  | .normal => 2
  | .exception => 3

structure Final (p : Pid) (s : State) : Prop where
  level : Exiting.normal.rank ≤ (s.pcb p).exiting.rank
  leaves : ∀ t flag a s', (s.thread t).pid = p → (s.thread t).pc = .leave flag →
    step s a = .ok s' → (s'.thread t).pc ≠ .leave flag → (s'.thread t).pc = .pthreadExit

section Levels
variable {s s' : State} {a : Action} {c : Tid} {p : Pid}

theorem stepLevel (base : Base s) (ok : step s a = .ok s') (p : Pid) :
    (s'.pcb p).exiting = (s.pcb p).exiting ∨ (s.pcb p).exiting = .none := by
  cases stepStepped ok with
  | still still => exact .inl (stillPcb still p).1.exiting
  | @acts c runs ok acts edge =>
    by_cases own : p = (s.thread c).pid
    · subst own
      rcases edgeLevel edge with ⟨same, _⟩ | ⟨none, _⟩
      · rw [actsProc acts] at same
        exact .inl same
      · exact .inr none
    · rw [acts.pcb p own]; exact .inl rfl
  | creates runs old now => rw [now]; exact .inl rfl
  | launches launch now =>
    by_cases youngest : p = s.created
    · exact .inr (base.blank p (Nat.le_of_eq youngest.symm))
    · rw [(launched now).pcb p youngest]; exact .inl rfl

theorem stepRank (base : Base s) (ok : step s a = .ok s') (p : Pid) :
    (s.pcb p).exiting.rank ≤ (s'.pcb p).exiting.rank := by
  rcases stepLevel base ok p with same | none
  · rw [same]
  · rw [none]; exact Nat.zero_le _

theorem levelStays {may : State → Action → Prop} {l : Exiting} (base : Base s)
    (reached : (s.pcb p).exiting = l) (raised : l ≠ .none) (run : Run step may s s') :
    Base s' ∧ (s'.pcb p).exiting = l := by
  refine run.invariant (fun u => Base u ∧ (u.pcb p).exiting = l) ⟨base, reached⟩ ?_
  rintro u v b ⟨base, level⟩ _ ok
  refine ⟨baseStep base ok, ?_⟩
  rcases stepLevel base ok p with same | none
  · exact same.trans level
  · exact absurd (level.symm.trans none) raised

theorem leavesNormal {flag : Bool} (base : Base s) (level : (s.proc c).exiting = .normal)
    (old : (s.thread c).pc = .leave flag) (ok : step s a = .ok s')
    (moved : (s'.thread c).pc ≠ .leave flag) : (s'.thread c).pc = .pthreadExit := by
  rcases (movedSteps base ok (by rw [old]; rfl) (by rw [old]; exact moved)).2 with
    ⟨_, _, edge⟩ | creates
  · exact jumpLeaves (edgeJumps edge) old level
  · have here := creates.old
    rw [old] at here; cases here

theorem enterLevel {code : Int} (base : Base s) (old : (s.thread c).pc = .exit (.enter code))
    (ok : step s a = .ok s') (moved : (s'.thread c).pc ≠ .exit (.enter code)) :
    (s'.pcb (s.thread c).pid).exiting =
      if (s.proc c).exiting = .main then .main else .normal := by
  rcases (movedSteps base ok (by rw [old]; rfl) (by rw [old]; exact moved)).2 with
    ⟨_, acts, edge⟩ | creates
  · rw [← actsProc acts]
    cases edge with
    | plain moves => rw [old] at moves; contradiction
    | exitFirst here new level hand proc => rw [proc.exiting, level]; rfl
    | exitMain here new level hand proc =>
      rw [proc.exiting, if_pos level]
      exact (setExitCodeExiting _ _).trans level
    | exitLater here new level hand proc =>
      have normal := level.resolve_right (base.known _)
      rw [proc.exiting, setExitCodeExiting, normal]; rfl
    | gone here => rcases here with here | here | ⟨⟨_, here⟩, _⟩ <;> rw [old] at here <;> cases here
    | fault here => rcases here with here | here <;> rw [old] at here <;> cases here
    | trap here | count here | failed here | leave here | ends here | mainFirst here
    | mainLater here | mainLoop here => rw [old] at here; cases here
  · have here := creates.old
    rw [old] at here; cases here

/-- In every run: the level never falls, and from an entry of process_exit_normal on the
process is on its way out in every later state, unless the entry was under EXITING_MAIN. -/
theorem exitLevelEscalates {may : State → Action → Prop} (run : Run step may boot s) :
    (∀ a s' p, step s a = .ok s' → (s.pcb p).exiting.rank ≤ (s'.pcb p).exiting.rank) ∧
    ∀ c code a s', (s.thread c).pc = .exit (.enter code) → step s a = .ok s' →
      (s'.thread c).pc ≠ .exit (.enter code) →
      ∀ (later : State → Action → Prop) (u : State), Run step later s' u →
        (Final (s.thread c).pid u ↔ (s.proc c).exiting ≠ .main) := by
  have base := runBase run
  refine ⟨fun a s' p ok => stepRank base ok p, ?_⟩
  intro c code a s' old ok moved later u after
  have level := enterLevel base old ok moved
  have base' := baseStep base ok
  by_cases main : (s.proc c).exiting = .main
  · rw [if_pos main] at level
    have stays := (levelStays base' level (by simp) after).2
    refine iff_of_false ?_ (not_not.mpr main)
    intro final
    have reached := final.level
    rw [stays] at reached
    exact absurd reached (by decide)
  · rw [if_neg main] at level
    obtain ⟨baseU, stays⟩ := levelStays base' level (by simp) after
    refine iff_of_true ⟨by rw [stays], ?_⟩ main
    rintro t flag b v pid here moves gone
    refine leavesNormal baseU ?_ here moves gone
    rw [State.proc, pid]
    exact stays

end Levels

section Runs

def exitAfterMain : List Action :=
  twoThreads ++ [.call .pthreadCreate, .run, .run, .run, .run, .dispatch 0, .run, .run,
    .call .pthreadExit, .run, .run, .dispatch 2, .run, .run, .run, .run, .run, .run, .wake 1, .run,
    .run, .call .other, .run, .preempt, .dispatch 1, .run, .run, .call (.exit 5), .run]

theorem exitLevelEscalatesExample : ∃ s s' u, Run step Fifo boot s ∧
    (s.thread 0).pc = .exit (.enter 0) ∧ step s .run = .ok s' ∧ Run step Fifo s' u ∧
    (u.thread 1).pc = .leave false ∧ Final 0 u := by
  obtain ⟨s, run, found⟩ := execFinds step Fifo boot
    (twoThreads ++ [.call .other, .run, .preempt, .dispatch 0, .run, .run, .call (.exit 0), .run])
    (fun s => decide ((s.thread 0).pc = .exit (.enter 0) ∧ (s.thread 0).pid = 0 ∧
        (s.proc 0).exiting = .none) &&
      passes (step s .run) fun s' : State => decide ((s'.thread 0).pc = .exit .lock) &&
        (exec step Fifo s' [.preempt, .dispatch 1, .run]).any fun u : State =>
          decide ((u.thread 1).pc = .leave false))
    (by decide +kernel)
  obtain ⟨here, next⟩ := Bool.and_eq_true_iff.mp found
  obtain ⟨enter, pid, level⟩ := of_decide_eq_true here
  obtain ⟨s', ok, found⟩ := passesOk next
  obtain ⟨lock, next⟩ := Bool.and_eq_true_iff.mp found
  obtain ⟨u, after, leave⟩ := execFinds step Fifo s' _ _ next
  have final := ((exitLevelEscalates run).2 0 0 .run s' enter ok
    (by rw [of_decide_eq_true lock]; simp) Fifo u after).mpr (by rw [level]; simp)
  rw [pid] at final
  exact ⟨s, s', u, run, enter, ok, after, of_decide_eq_true leave, final⟩

theorem exitAfterMainReturns : ∃ s s' u, Run step Fifo boot s ∧
    (s.thread 1).pc = .exit (.enter 5) ∧ step s .run = .ok s' ∧ (s'.thread 1).pc = .exit .lock ∧
    (s'.thread 2).pc = .work .any ∧ Run step Fifo s' u ∧ (u.pcb 0).exiting = .main ∧
    (u.thread 2).pid = 0 ∧ (u.thread 2).pc = .user ∧ u.current = some 2 := by
  obtain ⟨s, run, found⟩ := execFinds step Fifo boot exitAfterMain
    (fun s => decide ((s.thread 1).pc = .exit (.enter 5)) &&
      passes (step s .run) fun s' : State => decide ((s'.thread 1).pc = .exit .lock ∧
          (s'.thread 2).pc = .work .any) &&
        (exec step Fifo s' [.preempt, .dispatch 2, .run, .run]).any fun u : State =>
          decide ((u.pcb 0).exiting = .main ∧ (u.thread 2).pid = 0 ∧ (u.thread 2).pc = .user ∧
            u.current = some 2))
    (by decide +kernel)
  obtain ⟨enter, next⟩ := Bool.and_eq_true_iff.mp found
  obtain ⟨s', ok, found⟩ := passesOk next
  obtain ⟨here, next⟩ := Bool.and_eq_true_iff.mp found
  obtain ⟨lock, work⟩ := of_decide_eq_true here
  obtain ⟨u, after, last⟩ := execFinds step Fifo s' _ _ next
  exact ⟨s, s', u, run, of_decide_eq_true enter, ok, lock, work, after, of_decide_eq_true last⟩

end Runs
end Pintos.Userprog
