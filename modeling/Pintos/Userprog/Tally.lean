import Pintos.Userprog.Edges

/-! What an edge does to the counters, in_handler and the exit level, and the two
invariants that follow: `Base` in every run, and `Tally`, what the counters count, in every
run in which process_exit_normal is not entered once the main thread has called
pthread_exit. -/
namespace Pintos.Userprog
open Machine

attribute [local simp] Function.update_apply

section Edges
variable {s s' : State} {c : Tid} {old new : Pc}

theorem decrementPositive {n : Nat} (positive : 0 < n) : decrement n + 1 = n := by
  unfold decrement
  split <;> omega

def Permitted (c : Tid) (s : State) : Prop :=
  ∀ code, (s.thread c).pc = .exit (.enter code) → (s.proc c).exiting ≠ .main

theorem edgeBalance (edge : Edge c s s') (permitted : Permitted c s)
    (enough : (s.thread c).pc.weight ≤ (s.proc c).inKernelThreads)
    (present : (s.thread c).pc.presence ≤ (s.proc c).activeThreads)
    (stays : (s'.thread c).pc ≠ .gone) :
    (s'.proc c).inKernelThreads + (s.thread c).pc.weight =
        (s.proc c).inKernelThreads + (s'.thread c).pc.weight ∧
      (s'.proc c).activeThreads + (s.thread c).pc.presence =
        (s.proc c).activeThreads + (s'.thread c).pc.presence := by
  cases edge with
  | plain moves hand proc =>
    rw [proc.inKernelThreads, proc.activeThreads, (plainMove moves).weight,
      (plainMove moves).presence]
    exact ⟨rfl, rfl⟩
  | trap old new hand proc =>
    rw [proc.inKernelThreads, proc.activeThreads, old, new, handlerHandling.weight,
      handlerHandling.presence]
    exact ⟨rfl, rfl⟩
  | fault old new hand proc =>
    rw [proc.inKernelThreads, proc.activeThreads, new]
    rcases old with old | old <;> rw [old] <;> exact ⟨rfl, rfl⟩
  | count old new hand proc =>
    rw [proc.inKernelThreads, proc.activeThreads, old, new]
    exact ⟨rfl, rfl⟩
  | failed old new hand proc =>
    rw [old] at enough present
    have kernel := decrementPositive (n := (s.proc c).inKernelThreads) (by
      simp only [Pc.weight] at enough; omega)
    have active := decrementPositive (n := (s.proc c).activeThreads) (by
      simp only [Pc.presence] at present; omega)
    rw [proc.inKernelThreads, proc.activeThreads, old, new]
    simp only [Pc.weight, Pc.presence]
    omega
  | leave old known new hand current proc wakes =>
    rw [old] at enough
    have kernel := decrementPositive (n := (s.proc c).inKernelThreads) (by
      simp only [Pc.weight] at enough; omega)
    rw [proc.inKernelThreads, proc.activeThreads, old, new]
    split <;> simp only [Pc.weight, Pc.presence, and_true] <;> omega
  | ends old new hand proc =>
    rw [old] at present
    have active := decrementPositive (n := (s.proc c).activeThreads) (by
      simp only [Pc.presence] at present; omega)
    rw [proc.inKernelThreads, proc.activeThreads, old, new]
    simp only [Pc.weight, Pc.presence, true_and]
    omega
  | exitFirst old new level hand proc | exitLater old new level hand proc
  | mainLater old new level hand proc =>
    rw [proc.inKernelThreads, proc.activeThreads, old, new]
    simp [Pc.weight, Pc.presence]
  | exitMain old new level hand proc => exact absurd level (permitted _ old)
  | mainFirst old new level hand proc blocks =>
    rw [proc.inKernelThreads, proc.activeThreads, old, new, (loopsHandling _).weight,
      (loopsHandling _).presence]
    simp [Pc.weight, Pc.presence]
  | mainLoop old new hand proc blocks =>
    rw [proc.inKernelThreads, proc.activeThreads, old, new, (loopsHandling _).weight,
      (loopsHandling _).presence]
    exact ⟨rfl, rfl⟩
  | gone old new => exact absurd new stays

theorem edgeFlag (edge : Edge c s s')
    (hand : ∀ b, (s.thread c).pc.flag = some b → (s.thread c).inHandler = b) :
    ∀ b, (s'.thread c).pc.flag = some b → (s'.thread c).inHandler = b := by
  intro b flag
  cases edge with
  | plain moves same =>
    rw [same]
    rcases (plainMove moves).flag with none | kept
    · rw [none] at flag; contradiction
    · exact hand b (kept ▸ flag)
  | trap old new now =>
    rw [new, handlerHandling.flag] at flag
    rw [now]; exact Option.some.inj flag
  | fault old new same =>
    rw [new] at flag
    rw [same]
    exact hand b (by rcases old with old | old <;> rw [old] <;> exact flag)
  | count old new same | exitFirst old new level same | exitMain old new level same
  | exitLater old new level same | mainLater old new level same =>
    rw [new] at flag
    rw [same]; exact hand b (by rw [old]; exact flag)
  | failed old new | ends old new | gone old new => rw [new] at flag; contradiction
  | leave old known new now =>
    rw [now]
    rw [new] at flag
    split at flag <;> exact Option.some.inj flag
  | mainFirst old new level same | mainLoop old new same =>
    rw [new, (loopsHandling _).flag] at flag
    rw [same]; exact hand b (by rw [old]; exact flag)

theorem edgeLevel (edge : Edge c s s') :
    (s'.proc c).exiting = (s.proc c).exiting ∧
        (s'.proc c).threadExiting = (s.proc c).threadExiting ∨
      (s.proc c).exiting = .none ∧ (s'.proc c).threadExiting = some c ∧
        ((s'.proc c).exiting = .normal ∨
          (s'.proc c).exiting = .main ∧ (s.thread c).pc = .main .enter) := by
  cases edge with
  | plain moves hand proc | trap old new hand proc | fault old new hand proc
  | count old new hand proc | failed old new hand proc | leave old known new hand current proc
  | ends old new hand proc | mainLoop old new hand proc =>
    exact .inl ⟨proc.exiting, proc.threadExiting⟩
  | exitFirst old new level hand proc =>
    exact .inr ⟨level, proc.threadExiting, .inl proc.exiting⟩
  | exitMain old new level hand proc | exitLater old new level hand proc
  | mainLater old new level hand proc =>
    exact .inl ⟨proc.exiting.trans (setExitCodeExiting _ _),
      proc.threadExiting.trans (setExitCodeThread _ _)⟩
  | mainFirst old new level hand proc =>
    exact .inr ⟨level, proc.threadExiting, .inr ⟨proc.exiting, old⟩⟩
  | gone old new exiting threadExiting => exact .inl ⟨exiting, threadExiting⟩

theorem edgeClosing (edge : Edge c s s') (permitted : Permitted c s)
    (before : (s.thread c).pc.closing = true → (s.proc c).threadExiting = some c ∧
      (s.proc c).exiting ≠ .none ∧ ∀ l, (s.thread c).pc.level = some l → (s.proc c).exiting = l)
    (closes : (s'.thread c).pc.closing = true) :
    (s'.proc c).threadExiting = some c ∧ (s'.proc c).exiting ≠ .none ∧
      ∀ l, (s'.thread c).pc.level = some l → (s'.proc c).exiting = l := by
  cases edge with
  | plain moves hand proc =>
    obtain ⟨closed, level⟩ := (plainMove moves).closing closes
    obtain ⟨marked, raised, same⟩ := before closed
    rw [proc.threadExiting, proc.exiting]
    refine ⟨marked, raised, fun l now => same l ?_⟩
    rcases level with none | kept
    · rw [none] at now; contradiction
    · exact kept ▸ now
  | trap old new => rw [new, handlerOpen.1] at closes; contradiction
  | fault old new | count old new | failed old new | ends old new | exitLater old new
  | mainLater old new | gone old new => rw [new] at closes; contradiction
  | leave old known new => rw [new] at closes; split at closes <;> contradiction
  | exitFirst old new level hand proc =>
    rw [proc.threadExiting, proc.exiting, new]
    exact ⟨rfl, by simp, fun l now => Option.some.inj now⟩
  | exitMain old new level => exact absurd level (permitted _ old)
  | mainFirst old new level hand proc =>
    rw [proc.threadExiting, proc.exiting, new, loopsLevel]
    exact ⟨rfl, by simp, fun l now => Option.some.inj now⟩
  | mainLoop old new hand proc =>
    obtain ⟨marked, raised, same⟩ := before (by rw [old]; rfl)
    rw [proc.threadExiting, proc.exiting, new, loopsLevel]
    exact ⟨marked, raised, fun l now => same l (by rw [old]; exact now)⟩

end Edges

section Threads
variable {s s' : State} {c : Tid}
  {P : Tid → Thread → Prop}

structure Creates (c : Tid) (s s' : State) : Prop where
  old : (s.thread c).pc = .create .execute
  created : s'.created = s.created + 1
  own : s'.thread c = {s.thread c with pc := .create (.wait (some s.created))}
  new : s'.thread s.created = newThread (s.thread c).pid (.start .setup)
  others : ∀ t, t ≠ c → t ≠ s.created → s'.thread t = s.thread t
  pcb : s'.pcb = s.pcb
  list : s'.readyList = s.readyList ++ [s.created]
  current : s'.current = s.current

theorem executeCreates (old : (s.thread c).pc = .create .execute) (apart : c ≠ s.created) :
    Creates c s (pthreadExecute s c .execute) := by
  refine ⟨old, rfl, ?_, ?_, ?_, rfl, rfl, rfl⟩
  · simp [pthreadExecute, threadCreate, apart]
  · simp [pthreadExecute, threadCreate, apart.symm]
  · intro t other older
    simp [pthreadExecute, threadCreate, other, older]

theorem createsEach (creates : Creates c s s')
    (own : P c {s.thread c with pc := .create (.wait (some s.created))})
    (new : P s.created (newThread (s.thread c).pid (.start .setup)))
    (others : ∀ t, t ≠ c → t ≠ s.created → P t (s.thread t)) (t : Tid) : P t (s'.thread t) := by
  by_cases self : t = c
  · rw [self, creates.own]; exact own
  by_cases youngest : t = s.created
  · rw [youngest, creates.new]; exact new
  · rw [creates.others t self youngest]; exact others t self youngest

structure Launches (s s' : State) : Prop where
  created : s'.created = s.created + 1
  new : s'.thread s.created = newThread s.created (.load .down)
  others : ∀ t, t ≠ s.created → s'.thread t = s.thread t
  fresh : s'.pcb s.created = initProcess s.created
  pcb : ∀ p, p ≠ s.created → s'.pcb p = s.pcb p
  list : s'.readyList = s.readyList ++ [s.created]
  current : s'.current = s.current

theorem launchLaunches (s : State) : Launches s ((threadCreate s s.created (.load .down)).setPcb
    s.created (fun _ => initProcess s.created)) := by
  refine ⟨rfl, ?_, ?_, ?_, ?_, rfl, rfl⟩
  · simp [threadCreate]
  · intro t older
    simp [threadCreate, older]
  · simp
  · intro p older
    simp [threadCreate, older]

theorem launched (now : s' = (threadCreate s s.created (.load .down)).setPcb s.created
    (fun _ => initProcess s.created)) : Launches s s' := now ▸ launchLaunches s

theorem launchesEach (launches : Launches s s')
    (new : P s.created (newThread s.created (.load .down)))
    (others : ∀ t, t ≠ s.created → P t (s.thread t)) (t : Tid) : P t (s'.thread t) := by
  by_cases youngest : t = s.created
  · rw [youngest, launches.new]; exact new
  · rw [launches.others t youngest]; exact others t youngest

theorem stillPcb (still : Still c s s') (p : Pid) :
    SameProc (s.pcb p) (s'.pcb p) ∧ (s'.pcb p).mainThread = (s.pcb p).mainThread := by
  by_cases own : p = (s.thread c).pid
  · have proc := still.proc
    have main := still.mainThread
    simp only [State.proc, still.pid] at proc main
    subst own
    exact ⟨proc, main⟩
  · rw [still.pcb p own]
    exact ⟨sameProcRefl, rfl⟩

theorem actsProc (acts : Acts c s s') (t : Tid) : s'.proc t = s'.pcb (s.thread t).pid := by
  simp [acts.pid]

theorem actsMain (acts : Acts c s s') (p : Pid) :
    (s'.pcb p).mainThread = (s.pcb p).mainThread := by
  by_cases own : p = (s.thread c).pid
  · have same := acts.mainThread
    rw [actsProc acts] at same
    subst own
    exact same
  · rw [acts.pcb p own]

end Threads

structure Base (s : State) : Prop where
  fresh : ∀ t, s.created ≤ t → (s.thread t).pc = .gone
  pid : ∀ t, t < s.created → (s.thread t).pid < s.created
  blank : ∀ p, s.created ≤ p → (s.pcb p).exiting = .none
  known : ∀ p, (s.pcb p).exiting ≠ .exception
  hand : ∀ t b, (s.thread t).pc.flag = some b → (s.thread t).inHandler = b
  loading : ∀ t, (s.thread t).pc.loading = true → (s.proc t).mainThread = t
  main : ∀ t stage, (s.thread t).pc = .main stage → (s.proc t).mainThread = t
  level : ∀ p, (s.pcb p).exiting = .main → (s.pcb p).threadExiting = some (s.pcb p).mainThread

section Base
variable {s s' : State} {c : Tid}
  {a : Action} {t : Tid}

theorem aliveKnown (base : Base s) (alive : (s.thread c).pc.ended = false) : c < s.created := by
  by_contra late
  have gone := base.fresh c (Nat.le_of_not_lt late)
  simp [gone, Pc.ended] at alive

theorem creation (base : Base s) (old : (s.thread c).pc = .create .execute)
    (now : s' = pthreadExecute s c .execute) : Creates c s s' :=
  now ▸ executeCreates old (Nat.ne_of_lt (aliveKnown base (by rw [old]; rfl)))

theorem baseStill (base : Base s) (still : Still c s s') : Base s' := by
  constructor <;> simp only [State.proc, still.created, still.pid, still.pc, still.inHandler,
    (stillPcb still _).1.exiting, (stillPcb still _).1.threadExiting, (stillPcb still _).2]
  · exact base.fresh
  · exact base.pid
  · exact base.blank
  · exact base.known
  · exact base.hand
  · exact base.loading
  · exact base.main
  · exact base.level

theorem baseActs (base : Base s) (acts : Acts c s s') (edge : Edge c s s') : Base s' := by
  have known := aliveKnown base (jumpAlive (edgeJumps edge))
  have levels := edgeLevel edge
  rw [actsProc acts] at levels
  refine ⟨?_, ?_, ?_, ?_, ?_, ?_, ?_, ?_⟩
  · intro t late
    rw [acts.created] at late
    have other : t ≠ c := fun same => absurd (same ▸ late) (Nat.not_le_of_lt known)
    rw [acts.pc t other]
    exact base.fresh t late
  · intro t young
    rw [acts.created] at young ⊢
    rw [acts.pid]
    exact base.pid t young
  · intro p late
    rw [acts.created] at late
    rw [acts.pcb p (Nat.ne_of_gt (Nat.lt_of_lt_of_le (base.pid c known) late))]
    exact base.blank p late
  · intro p
    by_cases own : p = (s.thread c).pid
    · subst own
      rcases levels with ⟨same, _⟩ | ⟨_, _, normal | ⟨main, _⟩⟩
      · rw [same]; exact base.known _
      · rw [normal]; simp
      · rw [main]; simp
    · rw [acts.pcb p own]; exact base.known p
  · intro t b
    by_cases self : t = c
    · subst self; exact edgeFlag edge (base.hand t) b
    · rw [acts.pc t self, acts.inHandler t self]; exact base.hand t b
  · intro t loads
    rw [actsProc acts, actsMain acts]
    by_cases self : t = c
    · subst self; exact base.loading t (jumpLoading (edgeJumps edge) loads)
    · rw [acts.pc t self] at loads; exact base.loading t loads
  · intro t stage now
    rw [actsProc acts, actsMain acts]
    by_cases self : t = c
    · subst self
      rcases jumpMain (edgeJumps edge) now with ⟨before, old⟩ | main
      · exact base.main t before old
      · exact main
    · rw [acts.pc t self] at now; exact base.main t stage now
  · intro p level
    rw [actsMain acts]
    by_cases own : p = (s.thread c).pid
    · subst own
      rcases levels with ⟨same, same'⟩ | ⟨_, marked, normal | ⟨_, enter⟩⟩
      · rw [same']; exact base.level _ (same ▸ level)
      · rw [normal] at level; contradiction
      · rw [marked]; exact congrArg some (base.main c _ enter).symm
    · rw [acts.pcb p own] at level ⊢; exact base.level p level

theorem baseCreates (base : Base s) (creates : Creates c s s') : Base s' := by
  have known : c < s.created := aliveKnown base (by rw [creates.old]; rfl)
  have pid := base.pid c known
  refine ⟨?_, ?_, ?_, ?_, ?_, ?_, ?_, ?_⟩ <;>
    try simp only [State.proc, creates.created, creates.pcb]
  · refine createsEach (P := fun t th => s.created + 1 ≤ t → th.pc = .gone) creates ?_ ?_ ?_
    · exact fun late => absurd late (Nat.not_le_of_lt (Nat.lt_succ_of_lt known))
    · exact fun late => absurd late (Nat.not_succ_le_self _)
    · exact fun t _ _ late => base.fresh t (Nat.le_of_succ_le late)
  · refine createsEach (P := fun t th => t < s.created + 1 → th.pid < s.created + 1) creates
      (fun _ => Nat.lt_succ_of_lt pid) (fun _ => Nat.lt_succ_of_lt pid) ?_
    intro t _ older young
    exact Nat.lt_succ_of_lt (base.pid t (Nat.lt_of_le_of_ne (Nat.le_of_lt_succ young) older))
  · exact fun p late => base.blank p (Nat.le_of_succ_le late)
  · exact base.known
  · refine createsEach (P := fun t th => ∀ b, th.pc.flag = some b → th.inHandler = b) creates ?_ ?_
      fun t _ _ => base.hand t
    · intro b flag
      exact base.hand c b (by rw [creates.old]; exact flag)
    · exact fun b flag => Option.some.inj flag
  · exact createsEach (P := fun t th => th.pc.loading = true → (s.pcb th.pid).mainThread = t) creates
      (by simp [Pc.loading]) (by simp [newThread, Pc.loading]) fun t _ _ => base.loading t
  · exact createsEach (P := fun t th => ∀ stage, th.pc = .main stage → (s.pcb th.pid).mainThread = t)
      creates (by simp) (by simp [newThread]) fun t _ _ => base.main t
  · exact base.level

theorem launchesApart (base : Base s) (alive : (s.thread t).pc ≠ .gone) :
    (s.thread t).pid ≠ s.created := by
  intro same
  by_cases young : t < s.created
  · exact absurd same (Nat.ne_of_lt (base.pid t young))
  · exact alive (base.fresh t (Nat.le_of_not_lt young))

theorem baseLaunches (base : Base s) (launches : Launches s s') : Base s' := by
  refine ⟨?_, ?_, ?_, ?_, ?_, ?_, ?_, ?_⟩ <;> try simp only [State.proc, launches.created]
  · refine launchesEach (P := fun t th => s.created + 1 ≤ t → th.pc = .gone) launches ?_ ?_
    · exact fun late => absurd late (Nat.not_succ_le_self _)
    · exact fun t _ late => base.fresh t (Nat.le_of_succ_le late)
  · refine launchesEach (P := fun t th => t < s.created + 1 → th.pid < s.created + 1) launches
      (fun _ => Nat.lt_succ_self _) ?_
    intro t older young
    exact Nat.lt_succ_of_lt (base.pid t (Nat.lt_of_le_of_ne (Nat.le_of_lt_succ young) older))
  · intro p late
    rw [launches.pcb p (Nat.ne_of_gt late)]
    exact base.blank p (Nat.le_of_succ_le late)
  · intro p
    by_cases youngest : p = s.created
    · rw [youngest, launches.fresh]; simp [initProcess]
    · rw [launches.pcb p youngest]; exact base.known p
  · exact launchesEach (P := fun _ th => ∀ b, th.pc.flag = some b → th.inHandler = b) launches
      (fun b flag => Option.some.inj flag) fun t _ => base.hand t
  · refine launchesEach (P := fun t th => th.pc.loading = true → (s'.pcb th.pid).mainThread = t)
      launches (fun _ => congrArg Process.mainThread launches.fresh) ?_
    intro t _ loads
    rw [launches.pcb _ (launchesApart base (by rintro gone; rw [gone] at loads; contradiction))]
    exact base.loading t loads
  · refine launchesEach (P := fun t th => ∀ stage, th.pc = .main stage →
      (s'.pcb th.pid).mainThread = t) launches (by simp [newThread]) ?_
    intro t _ stage now
    rw [launches.pcb _ (launchesApart base (by rw [now]; simp))]
    exact base.main t stage now
  · intro p level
    by_cases youngest : p = s.created
    · rw [youngest, launches.fresh] at level; cases level
    · rw [launches.pcb p youngest] at level ⊢; exact base.level p level

theorem baseBoot : Base boot := by
  constructor <;> simp [boot, Pc.flag, Pc.loading]

theorem baseStep (base : Base s) (ok : step s a = .ok s') : Base s' := by
  cases stepStepped ok with
  | still still => exact baseStill base still
  | acts runs ok acts edge => exact baseActs base acts edge
  | @creates c runs old now =>
    exact baseCreates base (creation base old now)
  | launches launch now => exact baseLaunches base (launched now)

theorem movedSteps (base : Base s) (ok : step s a = .ok s')
    (alive : (s.thread t).pc.ended = false) (moved : (s'.thread t).pc ≠ (s.thread t).pc) :
    s.current = some t ∧ (stepCurrent s t a = .ok s' ∧ Acts t s s' ∧ Edge t s s' ∨
      Creates t s s') := by
  have known := aliveKnown base alive
  cases stepStepped ok with
  | still still => exact absurd (still.pc t) moved
  | @acts c runs ok acts edge =>
    by_cases self : t = c
    · subst self; exact ⟨runs, .inl ⟨ok, acts, edge⟩⟩
    · exact absurd (acts.pc t self) moved
  | @creates c runs old now =>
    have creates := creation base old now
    by_cases self : t = c
    · subst self; exact ⟨runs, .inr creates⟩
    · rw [creates.others t self (Nat.ne_of_lt known)] at moved
      exact absurd rfl moved
  | launches launch now =>
    have launches := launched now
    rw [launches.others t (Nat.ne_of_lt known)] at moved
    exact absurd rfl moved

theorem runBase {may : State → Action → Prop} (run : Run step may boot s) : Base s :=
  run.invariant Base baseBoot fun _ _ _ base _ ok => baseStep base ok

end Base

structure Mains (s : State) : Prop where
  main : ∀ t, t < s.created → (s.proc t).mainThread = (s.thread t).pid
  home : ∀ t, t < s.created → (s.thread (s.thread t).pid).pid = (s.thread t).pid
  alone : ∀ t u, (s.thread t).pc.loading = true → u < s.created →
    (s.thread u).pid = (s.thread t).pid → u = t

section Mains
variable {s s' : State} {c : Tid}

theorem mainsSame (mains : Mains s) (created : s'.created = s.created)
    (pid : ∀ t, (s'.thread t).pid = (s.thread t).pid)
    (main : ∀ p, (s'.pcb p).mainThread = (s.pcb p).mainThread)
    (loading : ∀ t, (s'.thread t).pc.loading = true → (s.thread t).pc.loading = true) :
    Mains s' := by
  refine ⟨?_, ?_, ?_⟩ <;> simp only [State.proc, created, pid, main]
  · exact mains.main
  · exact mains.home
  · exact fun t u loads => mains.alone t u (loading t loads)

theorem mainsCreates (base : Base s) (mains : Mains s) (creates : Creates c s s') : Mains s' := by
  have known : c < s.created := aliveKnown base (by rw [creates.old]; rfl)
  have own := base.pid c known
  have pidOf : ∀ t, t < s.created → (s'.thread t).pid = (s.thread t).pid := by
    intro t young
    by_cases self : t = c
    · rw [self, creates.own]
    · rw [creates.others t self (Nat.ne_of_lt young)]
  have older : ∀ t, t < s'.created → t ≠ s.created → t < s.created := fun t young other => by
    rw [creates.created] at young
    exact Nat.lt_of_le_of_ne (Nat.le_of_lt_succ young) other
  refine ⟨?_, ?_, ?_⟩
  · intro t young
    unfold State.proc
    rw [creates.pcb]
    by_cases youngest : t = s.created
    · rw [youngest, creates.new]
      exact mains.main c known
    · rw [pidOf t (older t young youngest)]
      exact mains.main t (older t young youngest)
  · intro t young
    by_cases youngest : t = s.created
    · rw [youngest, creates.new]
      exact (pidOf _ own).trans (mains.home c known)
    · have before := older t young youngest
      rw [pidOf t before, pidOf _ (base.pid t before)]
      exact mains.home t before
  · have quiet : ∀ t, (s'.thread t).pc.loading = true → (s.thread t).pc.loading = true ∧
        t < s.created := by
      intro t loads
      have loadsBefore : (s.thread t).pc.loading = true := by
        refine createsEach (P := fun t th => th.pc.loading = true → (s.thread t).pc.loading = true)
          creates ?_ ?_ (fun _ _ _ before => before) t loads
        all_goals exact fun loads => by cases loads
      refine ⟨loadsBefore, aliveKnown base ?_⟩
      cases pc : (s.thread t).pc <;> rw [pc] at loadsBefore <;> first | rfl | cases loadsBefore
    intro t u loads young same
    obtain ⟨before, known'⟩ := quiet t loads
    rw [pidOf t known'] at same
    by_cases youngest : u = s.created
    · -- a thread that creates others is not loading
      rw [youngest, creates.new] at same
      have self := mains.alone t c before known same
      rw [← self, creates.old] at before
      cases before
    · rw [pidOf u (older u young youngest)] at same
      exact mains.alone t u before (older u young youngest) same

theorem mainsLaunches (base : Base s) (mains : Mains s) (launches : Launches s s') :
    Mains s' := by
  have older : ∀ t, t < s'.created → t ≠ s.created → t < s.created := fun t young other => by
    rw [launches.created] at young
    exact Nat.lt_of_le_of_ne (Nat.le_of_lt_succ young) other
  refine ⟨?_, ?_, ?_⟩
  · intro t young
    unfold State.proc
    by_cases youngest : t = s.created
    · rw [youngest, launches.new]
      exact congrArg Process.mainThread launches.fresh
    · have before := older t young youngest
      rw [launches.others t youngest, launches.pcb _ (Nat.ne_of_lt (base.pid t before))]
      exact mains.main t before
  · intro t young
    by_cases youngest : t = s.created
    · rw [youngest, launches.new]
      exact congrArg Thread.pid launches.new
    · have before := older t young youngest
      rw [launches.others t youngest, launches.others _ (Nat.ne_of_lt (base.pid t before))]
      exact mains.home t before
  · intro t u loads young same
    by_cases newest : t = s.created <;> by_cases youngest : u = s.created
    · exact youngest.trans newest.symm
    · rw [newest, launches.new, launches.others u youngest] at same
      exact absurd same (Nat.ne_of_lt (base.pid u (older u young youngest)))
    · rw [launches.others t newest] at loads same
      rw [youngest, launches.new] at same
      refine absurd same.symm (launchesApart base ?_)
      intro gone
      rw [gone] at loads
      cases loads
    · rw [launches.others t newest] at loads same
      rw [launches.others u youngest] at same
      exact mains.alone t u loads (older u young youngest) same

theorem mainsStep {a : Action} (base : Base s) (mains : Mains s) (ok : step s a = .ok s') :
    Mains s' := by
  cases stepStepped ok with
  | still still =>
    exact mainsSame mains still.created still.pid (fun p => (stillPcb still p).2)
      fun t loads => still.pc t ▸ loads
  | @acts c runs ok acts edge =>
    refine mainsSame mains acts.created acts.pid (actsMain acts) ?_
    intro t loads
    by_cases self : t = c
    · subst self; exact jumpLoading (edgeJumps edge) loads
    · exact acts.pc t self ▸ loads
  | @creates c runs old now =>
    exact mainsCreates base mains (creation base old now)
  | launches launch now => exact mainsLaunches base mains (launched now)

theorem mainsBoot : Mains boot := by
  refine ⟨?_, ?_, ?_⟩
  · exact fun t young => absurd young (Nat.not_lt_zero t)
  · exact fun t young => absurd young (Nat.not_lt_zero t)
  · exact fun t u loads young => absurd young (Nat.not_lt_zero u)

end Mains

structure Tally (s : State) : Prop extends Base s where
  closing : ∀ t, (s.thread t).pc.closing = true → (s.proc t).threadExiting = some t ∧
    (s.proc t).exiting ≠ .none ∧ ∀ l, (s.thread t).pc.level = some l → (s.proc t).exiting = l
  gone : ∀ t, t < s.created → (s.thread t).pc = .gone → (s.proc t).exiting ≠ .normal →
    (s.proc t).mainThread = t
  kernel : ∀ p, ¬ Over s p → (s.pcb p).inKernelThreads = count Pc.weight s p
  active : ∀ p, ¬ Over s p → (s.pcb p).activeThreads = count Pc.presence s p

section Tally
variable {s s' : State} {c : Tid}
  {w : Pc → Nat}

theorem tallyStill (tally : Tally s) (still : Still c s s') : Tally s' := by
  have counts : ∀ w p, count w s' p = count w s p := by
    intro w p
    unfold count
    rw [still.created]
    exact Finset.sum_congr rfl fun t _ => shareSame t (still.pid t) (still.pc t)
  have closed : ∀ p, ¬ Over s' p → ¬ Over s p := by
    rintro p not ⟨t, known, pid, pc⟩
    exact not ⟨t, still.created ▸ known, by rw [still.pid]; exact pid, by rw [still.pc]; exact pc⟩
  refine ⟨baseStill tally.toBase still, ?_, ?_, ?_, ?_⟩ <;>
    simp only [State.proc, still.created, still.pid, still.pc, (stillPcb still _).1.exiting,
      (stillPcb still _).1.threadExiting, (stillPcb still _).2, counts]
  · exact tally.closing
  · exact tally.gone
  · intro p not
    rw [(stillPcb still p).1.inKernelThreads]
    exact tally.kernel p (closed p not)
  · intro p not
    rw [(stillPcb still p).1.activeThreads]
    exact tally.active p (closed p not)

theorem sharesLe (tally : Tally s) (running : ¬ Over s (s.thread c).pid)
    (alive : (s.thread c).pc.ended = false) :
    (s.thread c).pc.weight ≤ (s.proc c).inKernelThreads ∧
      (s.thread c).pc.presence ≤ (s.proc c).activeThreads := by
  have known := aliveKnown tally.toBase alive
  have kernel := tally.kernel _ running
  have active := tally.active _ running
  have weight := Finset.single_le_sum_of_canonicallyOrdered (f := share Pc.weight s (s.thread c).pid)
    (Finset.mem_range.mpr known)
  have presence := Finset.single_le_sum_of_canonicallyOrdered (f := share Pc.presence s (s.thread c).pid)
    (Finset.mem_range.mpr known)
  simp only [share, if_true] at weight presence
  unfold State.proc
  rw [kernel, active]
  exact ⟨weight, presence⟩

theorem tallyActs (tally : Tally s) (acts : Acts c s s') (edge : Edge c s s')
    (permitted : Permitted c s) : Tally s' := by
  have alive := jumpAlive (edgeJumps edge)
  have known := aliveKnown tally.toBase alive
  have levels := edgeLevel edge
  rw [actsProc acts] at levels
  have closed : ∀ p, ¬ Over s' p → ¬ Over s p := fun p not running =>
    not (overMove acts.toMoves alive running)
  have balanced := fun not : ¬ Over s' (s.thread c).pid =>
    edgeBalance edge permitted (sharesLe tally (closed _ not) alive).1
      (sharesLe tally (closed _ not) alive).2
      fun gone => not ⟨c, acts.created ▸ known, acts.pid c, gone⟩
  refine ⟨baseActs tally.toBase acts edge, ?_, ?_, ?_, ?_⟩
  · intro t closes
    by_cases self : t = c
    · subst self; exact edgeClosing edge permitted (tally.closing t) closes
    · rw [acts.pc t self] at closes ⊢
      obtain ⟨marked, raised, level⟩ := tally.closing t closes
      rw [actsProc acts]
      by_cases own : (s.thread t).pid = (s.thread c).pid
      · -- the level has been raised already, for `t`
        unfold State.proc at marked raised level
        rw [own] at marked raised level ⊢
        rcases levels with ⟨same, same'⟩ | ⟨none, _⟩
        · rw [same, same']; exact ⟨marked, raised, level⟩
        · exact absurd none raised
      · rw [acts.pcb _ own]; exact ⟨marked, raised, level⟩
  · intro t young now level
    rw [acts.created] at young
    rw [actsProc acts] at level
    rw [actsProc acts, actsMain acts]
    by_cases self : t = c
    · subst self
      rcases jumpGone (edgeJumps edge) now with loads | tail | exception
      · exact tally.loading t (by rw [loads]; rfl)
      · -- the thread that closes the process under EXITING_MAIN is the main thread
        obtain ⟨marked, raised, _⟩ := tally.closing t (by rw [tail]; rfl)
        rcases levels with ⟨same, _⟩ | ⟨none, _⟩
        · rw [same] at level
          have mains : (s.proc t).exiting = .main := by
            cases now : (s.proc t).exiting with
            | none => exact absurd now raised
            | main => rfl
            | normal => exact absurd now level
            | exception => exact absurd now (tally.known _)
          exact Option.some.inj ((tally.level _ mains).symm.trans marked)
        · exact absurd none raised
      · exact absurd exception (tally.known _)
    · rw [acts.pc t self] at now
      by_cases own : (s.thread t).pid = (s.thread c).pid
      · refine tally.gone t young now ?_
        unfold State.proc
        rw [own] at level ⊢
        rcases levels with ⟨same, _⟩ | ⟨none, _⟩
        · rw [same] at level; exact level
        · intro normal
          exact absurd (none.symm.trans normal) (by simp)
      · rw [acts.pcb _ own] at level
        exact tally.gone t young now level
  · intro p not
    by_cases own : p = (s.thread c).pid
    · subst own
      have before := tally.kernel _ (closed _ not)
      have change := countMove (w := Pc.weight) acts.toMoves known
      have balance := (balanced not).1
      rw [actsProc acts] at balance
      unfold State.proc at balance
      omega
    · rw [acts.pcb p own, countOther acts.toMoves own]
      exact tally.kernel p (closed p not)
  · intro p not
    by_cases own : p = (s.thread c).pid
    · subst own
      have before := tally.active _ (closed _ not)
      have change := countMove (w := Pc.presence) acts.toMoves known
      have balance := (balanced not).2
      rw [actsProc acts] at balance
      unfold State.proc at balance
      omega
    · rw [acts.pcb p own, countOther acts.toMoves own]
      exact tally.active p (closed p not)

theorem createsCounts (creates : Creates c s s') (known : c < s.created)
    (same : w (.create .execute) = w (.create (.wait (some s.created))) + w (.start .setup))
    (p : Pid) : count w s' p = count w s p := by
  have others : ∀ t, t < s.created → t ≠ c → share w s' p t = share w s p t := by
    intro t young other
    unfold share
    rw [creates.others t other (Nat.ne_of_lt young)]
  have new : share w s' p s.created = if (s.thread c).pid = p then w (.start .setup) else 0 := by
    unfold share
    rw [creates.new]
    rfl
  have mine : share w s' p c =
      if (s.thread c).pid = p then w (.create (.wait (some s.created))) else 0 := by
    unfold share
    rw [creates.own]
  have before : share w s p c = if (s.thread c).pid = p then w (.create .execute) else 0 := by
    unfold share
    rw [creates.old]
  have change : ∑ t ∈ Finset.range s.created, share w s' p t + share w s p c =
      ∑ t ∈ Finset.range s.created, share w s p t + share w s' p c := by
    have patched := Count.sumChange (g := share w s p)
      (h := fun t => if t < s.created then share w s' p t else share w s p t) known fun t other => by
        split
        · rename_i young
          exact others t young other
        · rfl
    rw [if_pos known] at patched
    rw [← patched, Nat.add_right_cancel_iff]
    exact Finset.sum_congr rfl fun t young => (if_pos (Finset.mem_range.mp young)).symm
  unfold count
  rw [creates.created, Finset.sum_range_succ, new]
  rw [mine, before] at change
  split at change <;> rename_i mine <;> simp only [mine, if_true, if_false] <;> omega

theorem tallyCreates (tally : Tally s) (creates : Creates c s s') : Tally s' := by
  have known : c < s.created := aliveKnown tally.toBase (by rw [creates.old]; rfl)
  have closed : ∀ p, ¬ Over s' p → ¬ Over s p := by
    rintro p not ⟨t, young, pid, gone⟩
    have other : t ≠ c := by
      rintro rfl
      rw [creates.old] at gone
      contradiction
    have same := creates.others t other (Nat.ne_of_lt young)
    refine not ⟨t, ?_, by rw [same]; exact pid, by rw [same]; exact gone⟩
    rw [creates.created]
    exact Nat.lt_succ_of_lt young
  refine ⟨baseCreates tally.toBase creates, ?_, ?_, ?_, ?_⟩ <;>
    simp only [State.proc, creates.created, creates.pcb]
  · exact createsEach (P := fun t th => th.pc.closing = true →
      (s.pcb th.pid).threadExiting = some t ∧ (s.pcb th.pid).exiting ≠ .none ∧
        ∀ l, th.pc.level = some l → (s.pcb th.pid).exiting = l) creates
      (by simp [Pc.closing]) (by simp [newThread, Pc.closing]) fun t _ _ => tally.closing t
  · refine createsEach (P := fun t th => t < s.created + 1 → th.pc = .gone →
      (s.pcb th.pid).exiting ≠ .normal → (s.pcb th.pid).mainThread = t) creates
      (by simp) (by simp [newThread]) ?_
    intro t _ older young
    exact tally.gone t (Nat.lt_of_le_of_ne (Nat.le_of_lt_succ young) older)
  · intro p not
    rw [createsCounts creates known rfl]
    exact tally.kernel p (closed p not)
  · intro p not
    rw [createsCounts creates known rfl]
    exact tally.active p (closed p not)

theorem tallyLaunches (tally : Tally s) (launches : Launches s s') : Tally s' := by
  have counts : ∀ w q, count w s' q = count w s q + if s.created = q then w (.load .down) else 0 :=
    fun w q => countAdds launches.created launches.new launches.others
  have empty : ∀ w, count w s s.created = 0 := by
    intro w
    refine Finset.sum_eq_zero fun t young => ?_
    simp [share, Nat.ne_of_lt (tally.pid t (Finset.mem_range.mp young))]
  have closed : ∀ p, ¬ Over s' p → ¬ Over s p := by
    rintro p not ⟨t, young, pid, gone⟩
    have same := launches.others t (Nat.ne_of_lt young)
    refine not ⟨t, ?_, by rw [same]; exact pid, by rw [same]; exact gone⟩
    rw [launches.created]
    exact Nat.lt_succ_of_lt young
  refine ⟨baseLaunches tally.toBase launches, ?_, ?_, ?_, ?_⟩ <;>
    try simp only [State.proc, launches.created]
  · refine launchesEach (P := fun t th => th.pc.closing = true →
      (s'.pcb th.pid).threadExiting = some t ∧ (s'.pcb th.pid).exiting ≠ .none ∧
        ∀ l, th.pc.level = some l → (s'.pcb th.pid).exiting = l) launches
      (by simp [newThread, Pc.closing]) ?_
    intro t _ closes
    rw [launches.pcb _ (launchesApart tally.toBase (by
      rintro gone; rw [gone] at closes; contradiction))]
    exact tally.closing t closes
  · refine launchesEach (P := fun t th => t < s.created + 1 → th.pc = .gone →
      (s'.pcb th.pid).exiting ≠ .normal → (s'.pcb th.pid).mainThread = t) launches
      (by simp [newThread]) ?_
    intro t older young now level
    have known : t < s.created := Nat.lt_of_le_of_ne (Nat.le_of_lt_succ young) older
    have other := Nat.ne_of_lt (tally.pid t known)
    rw [launches.pcb _ other] at level ⊢
    exact tally.gone t known now level
  · intro p not
    rw [counts]
    by_cases youngest : p = s.created
    · subst youngest
      rw [empty, launches.fresh]
      simp [initProcess, Pc.weight]
    · rw [launches.pcb p youngest, tally.kernel p (closed p not)]
      simp [Ne.symm youngest]
  · intro p not
    rw [counts]
    by_cases youngest : p = s.created
    · subst youngest
      rw [empty, launches.fresh]
      simp [initProcess, Pc.presence]
    · rw [launches.pcb p youngest, tally.active p (closed p not)]
      simp [Ne.symm youngest]

theorem tallyBoot : Tally boot := by
  have empty : ∀ w p, count w boot p = 0 := fun w p => rfl
  refine ⟨baseBoot, ?_, ?_, ?_, ?_⟩
  · simp [boot, Pc.closing]
  · exact fun t young => absurd young (Nat.not_lt_zero t)
  all_goals
    intro p _
    rw [empty]; rfl

theorem tallyStep {a : Action} (tally : Tally s)
    (permitted : ∀ c, s.current = some c → a = .run → Permitted c s) (ok : step s a = .ok s') :
    Tally s' := by
  cases stepStepped ok with
  | still still => exact tallyStill tally still
  | @acts c runs ok acts edge =>
    refine tallyActs tally acts edge fun code old => ?_
    exact permitted c runs (exitRuns old (jumpLeavesEntry (edgeJumps edge) old) ok) code old
  | @creates c runs old now =>
    exact tallyCreates tally (creation tally.toBase old now)
  | launches launch now => exact tallyLaunches tally (launched now)

theorem othersIdle {u : Tid} (p : Pid) (few : Finset Nat)
    (all : count w s p ≤ ∑ i ∈ few, share w s p i) (inside : ∀ i ∈ few, i < s.created)
    (other : u ∉ few) (known : u < s.created) (pid : (s.thread u).pid = p) :
    w (s.thread u).pc = 0 := by
  have zero := Count.othersZero (g := share w s p) all inside other known
  rwa [share, if_pos pid] at zero

theorem absentEnded {pc : Pc} (zero : pc.presence = 0) : pc.ended = true := by
  unfold Pc.presence at zero
  split at zero <;> first | rfl | cases zero

end Tally

end Pintos.Userprog
