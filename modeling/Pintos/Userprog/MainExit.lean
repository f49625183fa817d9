import Pintos.Userprog.Occupancy

/-! The main thread waits in pthread_exit_main until it is the last one. Whoever leaves
tests active_threads in exit_if_exiting and decrements it in pthread_exit, and nothing
keeps others from running in between. -/
namespace Pintos.Userprog
open Machine

attribute [local simp] Function.update_apply

/- The conditions on a run: those of the counters, and a thread is not preempted between
exit_if_exiting and the end of pthread_exit. -/
def Undivided (s : State) (a : Action) : Prop :=
  Regular s a ∧
    match s.current with
    | none => True
    | some c => (s.thread c).pc ≠ .pthreadExit ∨ a ≠ .preempt

instance (s a) : Decidable (Undivided s a) := by
  unfold Undivided
  exact match s.current with
    | none => instDecidableAnd
    | some _ => instDecidableAnd

structure Guarded (s : State) : Prop where
  occupancy : Occupancy s
  current : ∀ t, (s.thread t).pc = .pthreadExit → s.current = some t
  standing : ∀ m, (s.thread m).pc = .main .wait →
    (s.thread m).status ≠ .zombie ∧ (s.thread m).status ≠ .dying
  watched : ∀ m, (s.thread m).pc = .main .wait → (s.thread m).status = .blocked →
    ∃ t, t < s.created ∧ t ≠ m ∧ (s.thread t).pid = (s.thread m).pid ∧
      (s.thread t).pc.ended = false ∧ (s.thread t).pc ≠ .pthreadExit

section Main
variable {s s' : State} {a : Action} {c m t : Tid}

theorem staysCurrent (runs : s.current = some t) (here : (s.thread t).pc = .pthreadExit)
    (undivided : a ≠ .preempt) (ok : step s a = .ok s') (still : (s'.thread t).pc = .pthreadExit) :
    s'.current = some t := by
  cases a with
  | wake u =>
    simp only [step, wake] at ok
    split at ok
    · exact (threadUnblockCurrent ok).trans runs
    · cases ok
      exact runs
  | dispatch u =>
    simp only [step, runs, reduceCtorEq, false_and, if_false] at ok
    cases ok
    exact runs
  | launch =>
    cases ok
    exact runs
  | run =>
    simp only [step, runs, stepCurrent, here, runPc] at ok
    split at ok
    · obtain ⟨u, _, ended⟩ := bindOk.mp ok
      cases ended
      simp at still
    · cases ok
      exact runs
  | acquire l =>
    simp only [step, runs, stepCurrent, here, Pc.inFunction, Bool.false_eq_true, false_and,
      if_false] at ok
    cases ok
    exact runs
  | release l =>
    simp only [step, runs, stepCurrent] at ok
    split at ok
    · simp only [kernelRelease] at ok
      split at ok
      · cases ok
        exact runs
      · split at ok <;> try contradiction
        cases ok
        exact runs
    · cases ok
      exact runs
  | preempt => exact absurd rfl undivided
  | _ =>
    simp only [step, runs, stepCurrent, here, pageFault, starvePc, Pc.inFunction, reduceCtorEq,
      Bool.false_eq_true, if_false] at ok
    cases ok
    exact runs

theorem waitLevel (inv : Occupancy s) (here : (s.thread m).pc = .main .wait) :
    (s.proc m).exiting = .main ∧ (s.proc m).mainThread = m :=
  ⟨(inv.closing m (by rw [here]; rfl)).2.2 _ (by rw [here]; rfl), inv.main m _ here⟩

theorem mainRunning {stage : Main} (inv : Occupancy s) (here : (s.thread m).pc = .main stage)
    (level : (s.proc m).exiting ≠ .normal) : ¬ Over s (s.thread m).pid := by
  rintro ⟨t, young, pid, gone⟩
  have main := inv.main m stage here
  have same := inv.gone t young gone (by unfold State.proc; rw [pid]; exact level)
  unfold State.proc at main same
  rw [pid, main] at same
  rw [same, gone] at here
  cases here

theorem another (inv : Guarded s) (runs : s.current = some c) (few : Finset Nat)
    (mine : c ∈ few) {p : Pid} (running : ¬ Over s p)
    (more : ∑ i ∈ few, share Pc.presence s p i < (s.pcb p).activeThreads) :
    ∃ t, t < s.created ∧ t ∉ few ∧ (s.thread t).pid = p ∧ (s.thread t).pc.ended = false ∧
      (s.thread t).pc ≠ .pthreadExit := by
  rw [inv.occupancy.active p running] at more
  obtain ⟨t, young, out, present⟩ := Count.sumOutside more
  unfold share at present
  split at present
  · rename_i pid
    refine ⟨t, young, out, pid, ?_, ?_⟩
    · cases pc : (s.thread t).pc <;> simp_all [Pc.ended, Pc.presence]
    · intro passed
      have := inv.current t passed
      rw [runs] at this
      exact out (Option.some.inj this ▸ mine)
  · contradiction

theorem edgePasses (edge : Edge c s s') (now : (s'.thread c).pc = .pthreadExit) :
    s'.current = s.current ∧ (s.thread c).pc.presence = 1 ∧
      ((s.proc c).exiting = .main → (s.proc c).activeThreads = 2 →
        (s.proc c).mainThread ≠ c → (s'.thread (s.proc c).mainThread).status ≠ .blocked) := by
  cases edge with
  | leave old known new hand current proc wakes =>
    refine ⟨current, by rw [old]; rfl, fun main two other => wakes main ?_ two other⟩
    rw [new, main] at now
    by_contra not
    simp [not] at now
  | plain moves => exact absurd now (plainMove moves).passes
  | trap old new => exact absurd (new ▸ now) handlerHandling.passes
  | mainFirst old new | mainLoop old new => exact absurd (new ▸ now) (loopsHandling _).passes
  | fault old new | count old new | failed old new | ends old new | exitFirst old new
  | exitMain old new | exitLater old new | mainLater old new | gone old new =>
    rw [new] at now; cases now

theorem edgeBlocks (edge : Edge c s s') (now : (s'.thread c).pc = .main .wait) :
    (s'.thread c).status = .blocked := by
  have more := (jumpWaits (edgeJumps edge) now).1
  cases edge with
  | mainFirst old new level hand proc blocks | mainLoop old new hand proc blocks =>
    exact blocks more
  | plain moves => exact absurd now ((plainMove moves).main _)
  | trap old new => exact absurd (new ▸ now) handlerOpen.2
  | leave old known new => rw [new] at now; split at now <;> cases now
  | fault old new | count old new | failed old new | ends old new | exitFirst old new
  | exitMain old new | exitLater old new | mainLater old new | gone old new =>
    rw [new] at now; cases now

theorem edgeEnds (inv : Occupancy s) (edge : Edge c s s') (ends : (s'.thread c).pc.ended = true)
    (level : (s.proc c).exiting = .main) :
    (s.thread c).pc = .pthreadExit ∨ (s.proc c).mainThread = c := by
  rcases jumpEnding (edgeJumps edge) ends with old | loads | tail | exception
  · exact .inl old
  · exact .inr (inv.loading c (by rw [loads]; rfl))
  · have marked := (inv.closing c (by rw [tail]; rfl)).1
    exact .inr (Option.some.inj ((inv.level _ level).symm.trans marked))
  · exact absurd exception (inv.known _)

theorem watchedBlocks (inv : Guarded s) (runs : s.current = some c) (acts : Acts c s s')
    (edge : Edge c s s') (now : (s'.thread c).pc = .main .wait) :
    ∃ t, t < s'.created ∧ t ≠ c ∧ (s'.thread t).pid = (s'.thread c).pid ∧
      (s'.thread t).pc.ended = false ∧ (s'.thread t).pc ≠ .pthreadExit := by
  obtain ⟨more, stage, old, level⟩ := jumpWaits (edgeJumps edge) now
  have early : (s.proc c).exiting ≠ .normal := by
    rcases level with none | rfl
    · rw [none]; simp
    · rw [(waitLevel inv.occupancy old).1]; simp
  have running := mainRunning inv.occupancy old early
  obtain ⟨t, young, out, pid, active, behind⟩ := another inv runs {c} (by simp) running
    (by simpa [share, old, Pc.presence] using more)
  have other : t ≠ c := by simpa using out
  refine ⟨t, acts.created ▸ young, other, ?_, ?_, ?_⟩
  · rw [acts.pid, acts.pid]; exact pid
  · rw [acts.pc t other]; exact active
  · rw [acts.pc t other]; exact behind

theorem watchedMoves (inv : Guarded s) (runs : s.current = some c) (acts : Acts c s s')
    (edge : Edge c s s') (other : m ≠ c) (here : (s.thread m).pc = .main .wait)
    (blocked : (s'.thread m).status = .blocked) (mine : (s.thread c).pid = (s.thread m).pid)
    (behind : (s.thread c).pc ≠ .pthreadExit) :
    ∃ t, t < s'.created ∧ t ≠ m ∧ (s'.thread t).pid = (s'.thread m).pid ∧
      (s'.thread t).pc.ended = false ∧ (s'.thread t).pc ≠ .pthreadExit := by
  have known := aliveKnown inv.occupancy.toBase (jumpAlive (edgeJumps edge))
  obtain ⟨level, main⟩ := waitLevel inv.occupancy here
  have running := mainRunning inv.occupancy here (by rw [level]; simp)
  unfold State.proc at level main
  rw [← mine] at level main running
  by_cases passed : (s'.thread c).pc = .pthreadExit
  · -- it was not the last one, or the main thread would have been woken
    obtain ⟨_, present, wakes⟩ := edgePasses edge passed
    have own : share Pc.presence s (s.thread c).pid c = 1 := by
      rw [share, if_pos rfl, present]
    have its : share Pc.presence s (s.thread c).pid m = 1 := by
      rw [share, if_pos mine.symm, here]; rfl
    have three : 2 < (s.pcb (s.thread c).pid).activeThreads := by
      have both := Count.pairLe (g := share Pc.presence s (s.thread c).pid) known
        (aliveKnown inv.occupancy.toBase (c := m) (by rw [here]; rfl)) (Ne.symm other)
      have sum := inv.occupancy.active _ running
      unfold count at sum
      have two := wakes level
      unfold State.proc at two
      rw [main] at two
      by_contra few
      exact two (by omega) other blocked
    obtain ⟨t, young, out, pid, active, behind⟩ := another inv runs {c, m} (by simp)
      running (by rw [Finset.sum_pair (Ne.symm other), own, its]; exact three)
    simp only [Finset.mem_insert, Finset.mem_singleton, not_or] at out
    refine ⟨t, acts.created ▸ young, out.2, ?_, ?_, ?_⟩
    · rw [acts.pid, acts.pid, pid, mine]
    · rw [acts.pc t out.1]; exact active
    · rw [acts.pc t out.1]; exact behind
  · refine ⟨c, acts.created ▸ known, Ne.symm other, by rw [acts.pid, acts.pid]; exact mine, ?_,
      passed⟩
    cases ends : (s'.thread c).pc.ended with
    | false => rfl
    | true =>
      rcases edgeEnds inv.occupancy edge ends level with old | self
      · exact absurd old behind
      · exact absurd (main.symm.trans self) other

theorem guardedActs (inv : Guarded s) (runs : s.current = some c) (acts : Acts c s s')
    (edge : Edge c s s') (permitted : Permitted c s) (occupancy : Occupancy s')
    (current : ∀ t, (s.thread t).pc = .pthreadExit → (s'.thread t).pc = .pthreadExit →
      s'.current = some t) : Guarded s' := by
  refine ⟨occupancy, ?_, ?_, ?_⟩
  · intro t now
    by_cases self : t = c
    · subst self
      exact (edgePasses edge now).1.trans runs
    · exact current t (acts.pc t self ▸ now) now
  · intro m here
    by_cases self : m = c
    · subst self
      rw [edgeBlocks edge here]
      simp
    · rw [acts.pc m self] at here
      have standing := inv.standing m here
      have hand := inv.occupancy.hand m true (by rw [here]; rfl)
      refine not_or.mp fun ended => ?_
      rcases acts.ended m self ended with before | before | user | ⟨level, code, entry⟩
      · exact standing.1 before
      · exact standing.2 before
      · rw [hand] at user; contradiction
      · exact permitted code entry level
  · intro m here blocked
    by_cases self : m = c
    · subst self
      exact watchedBlocks inv runs acts edge here
    · rw [acts.pc m self] at here
      obtain ⟨t, young, other, pid, active, behind⟩ :=
        inv.watched m here (acts.blocked m self blocked)
      by_cases moves : t = c
      · subst moves
        exact watchedMoves inv runs acts edge self here blocked pid behind
      · refine ⟨t, acts.created ▸ young, other, ?_, ?_, ?_⟩
        · rw [acts.pid, acts.pid]; exact pid
        · rw [acts.pc t moves]; exact active
        · rw [acts.pc t moves]; exact behind

theorem guardedStill (inv : Guarded s) (still : Still c s s') (occupancy : Occupancy s')
    (current : ∀ t, (s.thread t).pc = .pthreadExit → (s'.thread t).pc = .pthreadExit →
      s'.current = some t) : Guarded s' := by
  refine ⟨occupancy, ?_, ?_, ?_⟩
  · intro t now
    exact current t (still.pc t ▸ now) now
  · intro m here
    rw [still.pc] at here
    have standing := inv.standing m here
    have hand := inv.occupancy.hand m true (by rw [here]; rfl)
    refine not_or.mp fun ended => ?_
    rcases still.ended m ended with before | before | user
    · exact standing.1 before
    · exact standing.2 before
    · rw [hand] at user; contradiction
  · intro m here blocked
    rw [still.pc] at here
    rcases still.blocked m blocked with before | ⟨_, inside⟩
    · obtain ⟨t, young, other, pid, active, behind⟩ := inv.watched m here before
      refine ⟨t, still.created ▸ young, other, ?_, ?_, ?_⟩
      · rw [still.pid, still.pid]; exact pid
      · rw [still.pc]; exact active
      · rw [still.pc]; exact behind
    · rw [here] at inside; contradiction

theorem guardedJoins (p : Pid) (first next : Pc) (inv : Guarded s) (occupancy : Occupancy s')
    (created : s'.created = s.created + 1) (current : s'.current = s.current)
    (new : s'.thread s.created = newThread p first)
    (starts : first ≠ .pthreadExit ∧ first ≠ .main .wait)
    (goesOn : next.ended = false ∧ next ≠ .pthreadExit ∧ next ≠ .main .wait)
    (others : ∀ t, t ≠ s.created → s'.thread t = s.thread t ∨
      s'.thread t = {s.thread t with pc := next}) : Guarded s' := by
  -- at these two places stand only those who stood there
  have before : ∀ t pc, pc = .pthreadExit ∨ pc = .main .wait → (s'.thread t).pc = pc →
      t ≠ s.created ∧ s'.thread t = s.thread t := by
    intro t pc place now
    by_cases youngest : t = s.created
    · rw [youngest, new] at now
      rcases place with rfl | rfl
      · exact absurd now starts.1
      · exact absurd now starts.2
    · refine ⟨youngest, (others t youngest).resolve_right fun moved => ?_⟩
      rw [moved] at now
      rcases place with rfl | rfl
      · exact goesOn.2.1 now
      · exact goesOn.2.2 now
  refine ⟨occupancy, ?_, ?_, ?_⟩
  · intro t now
    rw [(before t _ (.inl rfl) now).2] at now
    rw [current]
    exact inv.current t now
  · intro m here
    have same := (before m _ (.inr rfl) here).2
    rw [same] at here ⊢
    exact inv.standing m here
  · intro m here blocked
    have same := (before m _ (.inr rfl) here).2
    rw [same] at here blocked ⊢
    obtain ⟨t, young, other, pid, active, behind⟩ := inv.watched m here blocked
    refine ⟨t, by rw [created]; exact Nat.lt_succ_of_lt young, other, ?_⟩
    rcases others t (Nat.ne_of_lt young) with kept | moved
    · rw [kept]; exact ⟨pid, active, behind⟩
    · rw [moved]; exact ⟨pid, goesOn.1, goesOn.2.1⟩

theorem guardedStep (inv : Guarded s) (undivided : Undivided s a) (ok : step s a = .ok s') :
    Guarded s' := by
  obtain ⟨regular, whole⟩ := undivided
  have occupancy := occupancyStep inv.occupancy regular ok
  have current : ∀ t, (s.thread t).pc = .pthreadExit → (s'.thread t).pc = .pthreadExit →
      s'.current = some t := by
    intro t here still
    have runs := inv.current t here
    simp only [runs] at whole
    exact staysCurrent runs here (whole.resolve_left (fun away => away here)) ok still
  cases stepStepped ok with
  | still still => exact guardedStill inv still occupancy current
  | @acts c runs moved acts edge =>
    refine guardedActs inv runs acts edge ?_ occupancy current
    intro code old
    have runs' := exitRuns old (jumpLeavesEntry (edgeJumps edge) old) moved
    exact (regular c runs).1 runs' (by rw [old]; rfl)
  | @creates c runs old now =>
    have apart : c ≠ s.created :=
      Nat.ne_of_lt (aliveKnown inv.occupancy.toBase (by rw [old]; rfl))
    subst now
    refine guardedJoins (s.thread c).pid (.start .setup) (.create (.wait (some s.created))) inv
      occupancy rfl rfl ?_ (by simp)
      (by simp [Pc.ended]) ?_
    · simp [pthreadExecute, threadCreate, apart.symm]
    · intro t young
      by_cases self : t = c
      · subst self
        right
        simp [pthreadExecute, threadCreate, young]
      · left
        simp [pthreadExecute, threadCreate, self, young]
  | launches launch now =>
    subst now
    refine guardedJoins s.created (.load .down) .user inv occupancy rfl
      rfl ?_ (by simp) (by simp [Pc.ended]) ?_
    · simp [threadCreate]
    · intro t old
      left
      simp [threadCreate, old]

theorem guardedBoot : Guarded boot := by
  refine ⟨occupancyBoot, ?_, ?_, ?_⟩
  all_goals simp [boot]

theorem runGuarded (run : Run step Undivided boot s) : Guarded s :=
  run.invariant Guarded guardedBoot fun _ _ _ inv undivided ok => guardedStep inv undivided ok

/- No wake-up of an exiting main thread is lost: while it is blocked, another thread of
the process has its test in exit_if_exiting still to come; when all others have ended, it
can run and is the only active one. -/
structure MainWoken (s : State) : Prop where
  watched : ∀ m, (s.thread m).pc = .main .wait → (s.thread m).status = .blocked →
    ∃ t, t < s.created ∧ t ≠ m ∧ (s.thread t).pid = (s.thread m).pid ∧
      (s.thread t).pc.ended = false ∧ (s.thread t).pc ≠ .pthreadExit
  last : ∀ m, (s.thread m).pc = .main .wait →
    (∀ t, t < s.created → t ≠ m → (s.thread t).pid = (s.thread m).pid →
      (s.thread t).pc.ended = true) →
    ((s.thread m).status = .ready ∨ (s.thread m).status = .running) ∧
      (s.proc m).activeThreads = 1

theorem lastActive (inv : Occupancy s) (here : (s.thread m).pc = .main .wait)
    (ended : ∀ t, t < s.created → t ≠ m → (s.thread t).pid = (s.thread m).pid →
      (s.thread t).pc.ended = true) : (s.proc m).activeThreads = 1 := by
  have running := mainRunning inv here (by rw [(waitLevel inv here).1]; simp)
  unfold State.proc
  rw [inv.active _ running]
  have own : share Pc.presence s (s.thread m).pid m = 1 := by
    rw [share, if_pos rfl, here]; rfl
  have known := aliveKnown inv.toBase (c := m) (by rw [here]; rfl)
  have most : ¬ ∑ t ∈ {m}, share Pc.presence s (s.thread m).pid t <
      ∑ t ∈ Finset.range s.created, share Pc.presence s (s.thread m).pid t := by
    intro more
    obtain ⟨t, young, out, present⟩ := Count.sumOutside more
    unfold share at present
    split at present
    · rename_i pid
      have finished := ended t young (by simpa using out) pid
      revert finished present
      cases (s.thread t).pc <;> simp [Pc.ended, Pc.presence]
    · contradiction
  have least := Finset.single_le_sum_of_canonicallyOrdered
    (f := share Pc.presence s (s.thread m).pid) (Finset.mem_range.mpr known)
  rw [own] at least
  rw [Finset.sum_singleton, own] at most
  exact Nat.le_antisymm (Nat.not_lt.mp most) least

theorem mainThreadWoken (run : Run step Undivided boot s) : MainWoken s := by
  have inv := runGuarded run
  refine ⟨inv.watched, ?_⟩
  intro m here ended
  refine ⟨?_, lastActive inv.occupancy here ended⟩
  obtain ⟨notZombie, notDying⟩ := inv.standing m here
  cases status : (s.thread m).status with
  | ready => exact .inl rfl
  | running => exact .inr rfl
  | zombie => exact absurd status notZombie
  | dying => exact absurd status notDying
  | blocked =>
    obtain ⟨t, young, other, pid, active, _⟩ := inv.watched m here status
    rw [ended t young other pid] at active
    contradiction

end Main

section Runs

def mainWaits : List Action :=
  twoThreads ++ [.preempt, .dispatch 0, .run, .run, .call .pthreadExit, .run, .run, .dispatch 1,
    .call .pthreadExit, .run, .run]

theorem mainThreadWokenExample : ∃ s, Run step Undivided boot s ∧
    (s.created = 2 ∧ (s.thread 0).pc = .main .wait ∧ (s.thread 1).pc = .zombie) ∧ MainWoken s := by
  obtain ⟨s, run, found⟩ := execFinds step Undivided boot (mainWaits ++ [.run])
    (fun s => decide (s.created = 2 ∧ (s.thread 0).pc = .main .wait ∧ (s.thread 1).pc = .zombie))
    (by decide +kernel)
  exact ⟨s, run, of_decide_eq_true found, mainThreadWoken run⟩

theorem mainSleepsForever : ∃ s, Run step Fifo boot s ∧ ¬ MainWoken s := by
  obtain ⟨s, run, found⟩ := execFinds step Fifo boot
    (mainWaits ++ [.preempt, .dispatch 0, .run, .dispatch 1, .run])
    (fun s => decide (s.created = 2 ∧ (s.thread 0).pc = .main .wait ∧
      (s.thread 0).status = .blocked ∧ (s.thread 1).pc = .zombie)) (by decide +kernel)
  obtain ⟨two, here, blocked, zombie⟩ := of_decide_eq_true found
  refine ⟨s, run, fun woken => ?_⟩
  obtain ⟨t, young, other, _, active, _⟩ := woken.watched 0 here blocked
  have only : t = 1 := by omega
  rw [only, zombie] at active
  contradiction

end Runs
end Pintos.Userprog
