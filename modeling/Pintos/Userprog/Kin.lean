import Pintos.Userprog.Wakes

/-! Threads of one process. joined_by, the list of threads, the locals of pthread_join and the
traversal of process_exit_normal only name threads of the own process, and the thread
pcb->thread_exiting names is the one that closes it. This holds in every run. -/
namespace Pintos.Userprog
open Machine

attribute [local simp] Function.update_apply

inductive Tied (a : Action) (s s' : State) : Prop where
  | ties (ties : Ties (leaves s) s s')
  | set {c : Tid} {f : Target} (runs : s.current = some c) (run : a = .run)
      (plain : (s.thread c).nested = []) (here : (s.thread c).pc = .join (.set f))
      (ok : joinSet s c f = .ok s')
  | push {c : Tid} (runs : s.current = some c) (here : (s.thread c).pc = .start .push)
      (now : s' = startPthread s c .push)
  | creates {c : Tid} (runs : s.current = some c) (old : (s.thread c).pc = .create .execute)
      (now : s' = pthreadExecute s c .execute)
  | launches (launch : a = .launch) (now : s' = (threadCreate s s.created (.load .down)).setPcb
      s.created (fun _ => initProcess s.created))

section Tied
variable {s s' : State} {a : Action}

theorem stepTied (base : Base s) (ok : step s a = .ok s') : Tied a s s' := by
  rcases stepEffect base ok with effect | ⟨launch, now⟩ | ⟨c, runs, rfl, plain, relinks, ok⟩
  · exact .ties effect.ties
  · exact .launches launch now
  · generalize here : (s.thread c).pc = pc at relinks ok
    cases relinks with
    | execute => cases ok; exact .creates runs here rfl
    | push => cases ok; exact .push runs here rfl
    | set => exact .set runs rfl plain here ok

end Tied

def Pc.bound : Pc → Bool
  | .user | .work .any | .work .body | .create .execute | .start .setup | .load .body => false
  | _ => true

def Pc.chosen : Pc → Option Target
  | .join (.unlock (some f)) | .join (.set f) => some f
  | _ => none

section Moves
variable {s s' : State} {c t : Tid} {a : Action}
  {stage : Join}

theorem movedRuns (ok : stepCurrent s c a = .ok s') (moved : (s'.thread c).pc ≠ (s.thread c).pc)
    (bound : (s.thread c).pc.bound = true) :
    a = .run ∧ (s.thread c).nested = [] ∧ runPc s c (s.thread c).pc = .ok s' := by
  have loose {pc : Pc} (here : (s.thread c).pc = pc) : pc.bound = true := here ▸ bound
  by_cases quiet : a.quiet = true
  · exact absurd ((quietStill quiet ok).pc c) moved
  · cases a with
    | run =>
      simp only [stepCurrent] at ok
      split at ok
      · rename_i plain
        exact ⟨rfl, plain, ok⟩
      · cases ok
        exact absurd rfl moved
    | call k | noStack =>
      cases ok
      split at moved <;> first | exact absurd rfl moved | cases loose (by assumption)
    | fault =>
      cases ok
      unfold pageFault at moved
      split at moved <;> first | exact absurd rfl moved | cases loose (by assumption)
    | starve =>
      cases ok
      unfold starvePc at moved
      split at moved <;> first | exact absurd rfl moved | cases loose (by assumption)
    | _ => exact absurd rfl quiet

inductive Arrives (a : Action) (s s' : State) (t : Tid) : Prop where
  | stays (same : (s'.thread t).pc = (s.thread t).pc)
  | moves (runs : s.current = some t) (moved : (s'.thread t).pc ≠ (s.thread t).pc)
      (ok : stepCurrent s t a = .ok s') (acts : Acts t s s') (edge : Edge t s s')
  | creates (runs : s.current = some t) (old : (s.thread t).pc = .create .execute)
      (new : (s'.thread t).pc = .create (.wait (some s.created)))
  | created (self : t = s.created) (new : (s'.thread t).pc = .start .setup ∨
      (s'.thread t).pc = .load .down)

theorem stepArrives (base : Base s) (ok : step s a = .ok s') (t : Tid) : Arrives a s s' t := by
  cases stepStepped ok with
  | still still => exact .stays (still.pc t)
  | @acts c runs ok acts edge =>
    by_cases moved : (s'.thread t).pc = (s.thread t).pc
    · exact .stays moved
    · by_cases self : t = c
      · subst self; exact .moves runs moved ok acts edge
      · exact absurd (acts.pc t self) moved
  | @creates c runs old now =>
    have creates := creation base old now
    by_cases self : t = c
    · subst self
      exact .creates runs old (by rw [creates.own])
    by_cases youngest : t = s.created
    · exact .created youngest (.inl (by rw [youngest, creates.new]; rfl))
    · exact .stays (by rw [creates.others t self youngest])
  | launches launch now =>
    have launches := launched now
    by_cases youngest : t = s.created
    · exact .created youngest (.inr (by rw [youngest, launches.new]; rfl))
    · exact .stays (by rw [launches.others t youngest])

theorem bareStays (base : Base s) (ok : step s a = .ok s') (lined : Lined s.sched)
    (bare : s.sched.Bare t) : (s'.thread t).pc = (s.thread t).pc := by
  have idle : s.current ≠ some t := bareIdle lined bare
  cases stepArrives base ok t with
  | stays same => exact same
  | moves runs | creates runs => exact absurd runs idle
  | created self => exact absurd self (Nat.ne_of_lt (bareKnown lined bare))

section Arrivals
variable (ok : stepCurrent s c a = .ok s') (edge : Edge c s s')
  (moved : (s'.thread c).pc ≠ (s.thread c).pc)
include ok edge moved

theorem joinArrives (now : (s'.thread c).pc = .join stage) :
    (∃ tid, stage = .lock tid) ∨ ∃ before, (s.thread c).pc = .join before ∧ a = .run ∧
      (s.thread c).nested = [] ∧ pthreadJoin s c before = .ok s' := by
  rcases jumpJoin (edgeJumps edge) now with first | ⟨before, old⟩
  · exact .inl first
  · obtain ⟨run, plain, ok⟩ := movedRuns ok moved (by rw [old]; rfl)
    rw [old] at ok
    exact .inr ⟨before, old, run, plain, ok⟩

theorem exitArrives {stage : Exit} (now : (s'.thread c).pc = .exit stage)
    (inside : ∀ code, stage ≠ .enter code) : ∃ before, (s.thread c).pc = .exit before ∧ a = .run ∧
      (s.thread c).nested = [] ∧ processExitNormal s c before = .ok s' := by
  obtain ⟨before, old⟩ := jumpExit (edgeJumps edge) now inside
  obtain ⟨run, plain, ok⟩ := movedRuns ok moved (by rw [old]; rfl)
  rw [old] at ok
  exact ⟨before, old, run, plain, ok⟩

theorem chosenArrives {f : Target} (now : (s'.thread c).pc.chosen = some f) :
    (s.thread c).pc.chosen = some f ∨ ∃ tid, joinScan s c tid = .ok (some f) := by
  have stage : ∃ stage, (s'.thread c).pc = .join stage := by
    cases here : (s'.thread c).pc with
    | join stage => exact ⟨stage, rfl⟩
    | _ => rw [here] at now; cases now
  obtain ⟨stage, here⟩ := stage
  rcases joinArrives ok edge moved here with ⟨tid, first⟩ | ⟨before, old, _, _, ok⟩
  · rw [here, first] at now
    cases now
  · rw [old]
    cases before with
    | scan tid =>
      obtain ⟨found, scans, ok⟩ := bindOk.mp ok
      cases ok
      simp only [State.setPc, State.setThread, Function.update_self] at now
      cases found with
      | none => cases now
      | some f' => cases now; exact .inr ⟨tid, scans⟩
    | unlock found =>
      cases found with
      | none =>
        cases ok
        simp [Pc.chosen] at now
      | some f' =>
        simp only [pthreadJoin] at ok
        split at ok <;> cases ok
        · simp [Pc.chosen] at now
        · simp only [State.setPc, State.setThread, Function.update_self, Pc.chosen] at now
          exact .inl now
    | _ =>
      have follows := jumpJoinFollows (edgeJumps edge) old here
      rw [here] at now
      cases stage <;> first | cases follows; done | cases now

theorem visitArrives {list : List Tid} (now : (s'.thread c).pc = .exit (.visit list)) :
    (∃ pos, (s.thread c).pc = .exit (.visit (pos :: list))) ∨
      list = (s.proc c).threads.erase c := by
  obtain ⟨before, old, _, _, ok⟩ := exitArrives ok edge moved now (by simp)
  have follows := jumpExitFollows (edgeJumps edge) old now
  cases before with
  | remove =>
    obtain ⟨u, removes, ok⟩ := bindOk.mp ok
    cases ok
    obtain ⟨_, rfl⟩ := progRemoveOk removes
    simp only [State.setPc, State.setThread, Function.update_self, Pc.exit.injEq,
      Exit.visit.injEq] at now
    exact .inr (now.symm.trans (by simp))
  | visit todo =>
    cases todo with
    | nil => cases follows
    | cons pos todo => exact .inl ⟨pos, of_decide_eq_true follows ▸ old⟩
  | _ => cases follows

theorem assertArrives (now : (s'.thread c).pc = .exit .assert) :
    (s.thread c).pc = .exit .check ∧ processExitNormal s c .check = .ok s' := by
  obtain ⟨before, old, _, _, ok⟩ := exitArrives ok edge moved now (by simp)
  have follows := jumpExitFollows (edgeJumps edge) old now
  cases before with
  | check => exact ⟨old, ok⟩
  | visit todo => cases todo <;> cases follows
  | _ => cases follows

end Arrivals

end Moves

inductive Raises (a : Action) (s s' : State) (p : Pid) : Prop where
  | same (exiting : (s'.pcb p).exiting = (s.pcb p).exiting)
      (threadExiting : (s'.pcb p).threadExiting = (s.pcb p).threadExiting)
  | fresh (self : p = s.created) (exiting : (s'.pcb p).exiting = .none)
  | normal {c : Tid} {code : Int} (runs : s.current = some c) (pid : (s.thread c).pid = p)
      (old : (s.thread c).pc = .exit (.enter code)) (new : (s'.thread c).pc = .exit .lock)
      (none : (s.pcb p).exiting = .none) (exiting : (s'.pcb p).exiting = .normal)
      (marked : (s'.pcb p).threadExiting = some c)
  | main {c : Tid} (runs : s.current = some c) (pid : (s.thread c).pid = p)
      (old : (s.thread c).pc = .main .enter)
      (new : (s'.thread c).pc = loops (s.proc c).activeThreads)
      (blocks : 1 < (s.proc c).activeThreads → (s'.thread c).status = .blocked)
      (none : (s.pcb p).exiting = .none) (exiting : (s'.pcb p).exiting = .main)
      (marked : (s'.pcb p).threadExiting = some c)

structure Kin (s : State) : Prop where
  member : ∀ p t, t ∈ (s.pcb p).threads → t < s.created ∧ (s.thread t).pid = p
  visits : ∀ t list u, (s.thread t).pc = .exit (.visit list) → u ∈ list →
    u < s.created ∧ (s.thread u).pid = (s.thread t).pid
  chosen : ∀ t f, (s.thread t).pc.chosen = some f →
    f.pos < s.created ∧ (s.thread f.pos).pid = (s.thread t).pid
  joined : ∀ t j, (s.thread t).joinedBy = some j →
    t < s.created ∧ j < s.created ∧ (s.thread j).pid = (s.thread t).pid
  marked : ∀ p, (s.pcb p).exiting ≠ .none → ∃ e, (s.pcb p).threadExiting = some e ∧
    e < s.created ∧ (s.thread e).pid = p ∧
      ((s.thread e).pc.closing = true ∨ (s.thread e).pc = .gone)

section Kin
variable {s s' : State} {c t j : Tid} {a : Action}
  {f : Target} {p : Pid}

theorem stepPid (base : Base s) (ok : step s a = .ok s') :
    s.created ≤ s'.created ∧ ∀ t, t < s.created → (s'.thread t).pid = (s.thread t).pid := by
  cases stepStepped ok with
  | still still => exact ⟨Nat.le_of_eq still.created.symm, fun t _ => still.pid t⟩
  | acts runs ok acts edge => exact ⟨Nat.le_of_eq acts.created.symm, fun t _ => acts.pid t⟩
  | @creates c runs old now =>
    have creates := creation base old now
    refine ⟨by rw [creates.created]; exact Nat.le_succ _, fun t young => ?_⟩
    by_cases self : t = c
    · rw [self, creates.own]
    · rw [creates.others t self (Nat.ne_of_lt young)]
  | launches launch now =>
    have launches := launched now
    refine ⟨by rw [launches.created]; exact Nat.le_succ _, fun t young => ?_⟩
    rw [launches.others t (Nat.ne_of_lt young)]

theorem newKnown (base : Base s) (ok : step s a = .ok s') (late : ¬t < s.created)
    (young : t < s'.created) :
    (∃ c, s.current = some c ∧ (s.thread c).pc = .create .execute ∧
        s'.thread t = newThread (s.thread c).pid (.start .setup)) ∨
      s'.thread t = newThread s.created (.load .down) := by
  have self (more : s'.created = s.created + 1) : t = s.created :=
    Nat.le_antisymm (Nat.le_of_lt_succ (Nat.lt_of_lt_of_eq young more)) (Nat.le_of_not_lt late)
  cases stepStepped ok with
  | still still => exact absurd (still.created ▸ young) late
  | acts runs ok acts edge => exact absurd (acts.created ▸ young) late
  | @creates c runs old now =>
    have creates := creation base old now
    exact .inl ⟨c, runs, old, self creates.created ▸ creates.new⟩
  | launches launch now =>
    have launches := launched now
    exact .inr (self launches.created ▸ launches.new)

theorem joinSetTies (ok : joinSet s c f = .ok s') :
    s'.pcb = s.pcb ∧ (∀ t, (s'.thread t).joinedBy =
      if t = f.pos then some c else (s.thread t).joinedBy) := by
  unfold joinSet at ok
  split at ok <;> try contradiction
  cases ok
  split
  · refine ⟨rfl, fun t => ?_⟩
    by_cases self : t = c <;> by_cases target : t = f.pos <;> by_cases both : c = f.pos <;>
      simp_all [threadBlock]
  · refine ⟨rfl, fun t => ?_⟩
    by_cases self : t = c <;> by_cases target : t = f.pos <;> by_cases both : c = f.pos <;> simp_all

theorem stepJoinedBy (base : Base s) (ok : step s a = .ok s') (t : Tid) :
    (s'.thread t).joinedBy = (s.thread t).joinedBy ∨
      (∃ c f, s.current = some c ∧ a = .run ∧ (s.thread c).nested = [] ∧
        (s.thread c).pc = .join (.set f) ∧ joinSet s c f = .ok s' ∧ t = f.pos ∧
        (s'.thread t).joinedBy = some c) ∨
      t = s.created ∧ (s'.thread t).joinedBy = none := by
  cases stepTied base ok with
  | ties ties => exact .inl (ties.joinedBy t)
  | @set c f runs run plain here ok =>
    have joined := (joinSetTies ok).2 t
    by_cases target : t = f.pos
    · rw [if_pos target] at joined
      exact .inr (.inl ⟨c, f, runs, run, plain, here, ok, target, joined⟩)
    · rw [if_neg target] at joined
      exact .inl joined
  | @push c runs here now =>
    left
    rw [now]
    by_cases self : t = c <;> simp [startPthread, self]
  | @creates c runs old now =>
    have creates := creation base old now
    by_cases self : t = c
    · rw [self, creates.own]; exact .inl rfl
    by_cases youngest : t = s.created
    · rw [youngest, creates.new]; exact .inr (.inr ⟨rfl, rfl⟩)
    · rw [creates.others t self youngest]; exact .inl rfl
  | launches launch now =>
    have launches := launched now
    by_cases youngest : t = s.created
    · rw [youngest, launches.new]; exact .inr (.inr ⟨rfl, rfl⟩)
    · rw [launches.others t youngest]; exact .inl rfl

theorem stepThreads (base : Base s) (ok : step s a = .ok s') (inside : t ∈ (s'.pcb p).threads) :
    t ∈ (s.pcb p).threads ∨ t < s'.created ∧ (s'.thread t).pid = p := by
  obtain ⟨grows, pids⟩ := stepPid base ok
  cases stepTied base ok with
  | ties ties => exact .inl ((ties.threads p).subset inside)
  | set runs run plain here ok =>
    rw [(joinSetTies ok).1] at inside
    exact .inl inside
  | @push c runs here now =>
    have known := aliveKnown base (c := c) (by rw [here]; rfl)
    by_cases own : p = (s.thread c).pid
    · subst own
      have members : t = c ∨ t ∈ (s.proc c).threads := by
        rw [now] at inside
        simpa [startPthread] using inside
      rcases members with rfl | member
      · exact .inr ⟨Nat.lt_of_lt_of_le known grows, pids t known⟩
      · exact .inl member
    · rw [now] at inside
      simp [startPthread, own] at inside
      exact .inl inside
  | creates runs old now =>
    rw [now] at inside
    exact .inl inside
  | launches launch now =>
    have launches := launched now
    by_cases youngest : p = s.created
    · rw [youngest, launches.fresh] at inside
      cases List.mem_singleton.mp inside
      refine .inr ⟨?_, by rw [launches.new, youngest]; rfl⟩
      rw [launches.created]
      exact Nat.lt_succ_self _
    · rw [launches.pcb p youngest] at inside
      exact .inl inside

theorem chosenStep (base : Base s) (ok : step s a = .ok s')
    (now : (s'.thread t).pc.chosen = some f) : t < s.created ∧
      ((s.thread t).pc.chosen = some f ∨ ∃ tid, joinScan s t tid = .ok (some f)) := by
  cases stepArrives base ok t with
  | stays same =>
    rw [same] at now
    have alive : (s.thread t).pc.ended = false := by
      cases here : (s.thread t).pc with
      | zombie | gone => rw [here] at now; cases now
      | _ => rfl
    exact ⟨aliveKnown base alive, .inl now⟩
  | moves runs moved ok acts edge =>
    exact ⟨aliveKnown base (jumpAlive (edgeJumps edge)), chosenArrives ok edge moved now⟩
  | creates runs old new => rw [new] at now; cases now
  | created self new => rcases new with new | new <;> rw [new] at now <;> cases now

theorem scanTarget {tid : Tid} (kin : Kin s) (scans : joinScan s c tid = .ok (some f)) :
    f.pos < s.created ∧ (s.thread f.pos).pid = (s.thread c).pid := by
  unfold joinScan at scans
  split at scans
  · rename_i member
    split at scans <;> try contradiction
    split at scans
    · cases Option.some.inj (Except.ok.inj scans)
      exact kin.member _ _ member
    · cases scans
  · cases scans

theorem stepRaises (ok : step s a = .ok s') (p : Pid) : Raises a s s' p := by
  cases stepStepped ok with
  | still still => exact .same (stillPcb still p).1.exiting (stillPcb still p).1.threadExiting
  | @acts c runs ok acts edge =>
    by_cases own : p = (s.thread c).pid
    · subst own
      cases edge with
      | plain moves hand proc | trap old new hand proc | fault old new hand proc
      | count old new hand proc | failed old new hand proc | leave old known new hand current proc
      | ends old new hand proc | mainLoop old new hand proc =>
        rw [actsProc acts] at proc
        exact .same proc.exiting proc.threadExiting
      | exitMain old new level hand proc | exitLater old new level hand proc
      | mainLater old new level hand proc =>
        rw [actsProc acts] at proc
        exact .same (proc.exiting.trans (setExitCodeExiting _ _))
          (proc.threadExiting.trans (setExitCodeThread _ _))
      | exitFirst old new level hand proc =>
        rw [actsProc acts] at proc
        exact .normal runs rfl old new level proc.exiting proc.threadExiting
      | mainFirst old new level hand proc blocks =>
        rw [actsProc acts] at proc
        exact .main runs rfl old new blocks level proc.exiting proc.threadExiting
      | gone old new exiting threadExiting =>
        rw [actsProc acts] at exiting threadExiting
        exact .same exiting threadExiting
    · exact .same (by rw [acts.pcb p own]) (by rw [acts.pcb p own])
  | creates runs old now => rw [now]; exact .same rfl rfl
  | launches launch now =>
    have launches := launched now
    by_cases youngest : p = s.created
    · exact .fresh youngest (by rw [youngest, launches.fresh]; rfl)
    · exact .same (by rw [launches.pcb p youngest]) (by rw [launches.pcb p youngest])

theorem levelBefore (base : Base s) (ok : step s a = .ok s') (level : (s'.pcb p).exiting = .none) :
    (s.pcb p).exiting = .none := by
  cases stepRaises ok p with
  | same exiting => exact exiting ▸ level
  | fresh self => exact base.blank p (Nat.le_of_eq self.symm)
  | normal runs pid old new none => exact none
  | main runs pid old new blocks none => exact none

theorem endedStays (base : Base s) (ok : step s a = .ok s') (young : t < s.created)
    (ended : (s.thread t).pc.ended = true) : (s'.thread t).pc.ended = true := by
  cases stepArrives base ok t with
  | stays same => rw [same]; exact ended
  | moves runs moved ok acts edge => rw [jumpAlive (edgeJumps edge)] at ended; cases ended
  | creates runs old new => rw [old] at ended; cases ended
  | created self => exact absurd self (Nat.ne_of_lt young)

theorem aliveBefore (base : Base s) (ok : step s a = .ok s') (young : t < s.created)
    (alive : (s'.thread t).pc.ended = false) : (s.thread t).pc.ended = false := by
  by_contra ended
  rw [endedStays base ok young (Bool.not_eq_false _ ▸ ended)] at alive
  cases alive

theorem closesStep (base : Base s) (ok : step s a = .ok s') (young : t < s.created)
    (closes : (s.thread t).pc.closing = true ∨ (s.thread t).pc = .gone) :
    (s'.thread t).pc.closing = true ∨ (s'.thread t).pc = .gone := by
  cases stepArrives base ok t with
  | stays same => rw [same]; exact closes
  | moves runs moved ok acts edge =>
    rcases closes with closes | gone
    · exact jumpCloses (edgeJumps edge) closes
    · have alive := jumpAlive (edgeJumps edge)
      rw [gone] at alive
      cases alive
  | creates runs old new => rw [old] at closes; simp [Pc.closing] at closes
  | created self => exact absurd self (Nat.ne_of_lt young)

theorem markedStep (base : Base s) (kin : Kin s) (ok : step s a = .ok s')
    (level : (s'.pcb p).exiting ≠ .none) : ∃ e, (s'.pcb p).threadExiting = some e ∧
      e < s'.created ∧ (s'.thread e).pid = p ∧
        ((s'.thread e).pc.closing = true ∨ (s'.thread e).pc = .gone) := by
  obtain ⟨grows, pids⟩ := stepPid base ok
  cases stepRaises ok p with
  | same exiting threadExiting =>
    obtain ⟨e, marked, young, pid, closes⟩ := kin.marked p (exiting ▸ level)
    exact ⟨e, threadExiting.trans marked, Nat.lt_of_lt_of_le young grows,
      (pids e young).trans pid, closesStep base ok young closes⟩
  | fresh self none => exact absurd none level
  | @normal c code runs pid old new none exiting marked =>
    have known := aliveKnown base (c := c) (by rw [old]; rfl)
    exact ⟨c, marked, Nat.lt_of_lt_of_le known grows, (pids c known).trans pid,
      .inl (by rw [new]; rfl)⟩
  | @main c runs pid old new blocks none exiting marked =>
    have known := aliveKnown base (c := c) (by rw [old]; rfl)
    refine ⟨c, marked, Nat.lt_of_lt_of_le known grows, (pids c known).trans pid, .inl ?_⟩
    rw [new]
    unfold loops
    split <;> rfl

theorem markedThread {e : Tid} {l : Exiting} (kin : Kin s) (level : (s.pcb p).exiting = l)
    (raised : l ≠ .none) (marked : (s.pcb p).threadExiting = some e) : e < s.created ∧
      (s.thread e).pid = p ∧ ((s.thread e).pc.closing = true ∨ (s.thread e).pc = .gone) := by
  obtain ⟨e', same, rest⟩ := kin.marked p (ne_of_eq_of_ne level raised)
  rw [marked] at same
  cases same
  exact rest

theorem kinStep (base : Base s) (kin : Kin s) (ok : step s a = .ok s') : Kin s' := by
  obtain ⟨grows, pids⟩ := stepPid base ok
  have still : ∀ t p, t < s.created ∧ (s.thread t).pid = p → t < s'.created ∧ (s'.thread t).pid = p :=
    fun t p before => ⟨Nat.lt_of_lt_of_le before.1 grows, (pids t before.1).trans before.2⟩
  have alive : ∀ t, (s.thread t).pc.ended = false → (s'.thread t).pid = (s.thread t).pid :=
    fun t alive => pids t (aliveKnown base alive)
  refine ⟨?_, ?_, ?_, ?_, fun p => markedStep base kin ok⟩
  · intro p t inside
    rcases stepThreads base ok inside with member | new
    · exact still t p (kin.member p t member)
    · exact new
  · intro t list u now inside
    cases stepArrives base ok t with
    | stays same =>
      rw [now] at same
      rw [alive t (by rw [← same]; rfl)]
      exact still u _ (kin.visits t list u same.symm inside)
    | moves runs moved ok acts edge =>
      rw [acts.pid t]
      rcases visitArrives ok edge moved now with ⟨pos, old⟩ | members
      · exact still u _ (kin.visits t _ u old (List.mem_cons_of_mem _ inside))
      · exact still u _ (kin.member _ u (List.mem_of_mem_erase (members ▸ inside)))
    | creates runs old new => rw [now] at new; cases new
    | created self new => rcases new with new | new <;> rw [now] at new <;> cases new
  · intro t f now
    obtain ⟨known, old | ⟨tid, scans⟩⟩ := chosenStep base ok now
    · rw [pids t known]
      exact still f.pos _ (kin.chosen t f old)
    · rw [pids t known]
      exact still f.pos _ (scanTarget kin scans)
  · intro t j now
    rcases stepJoinedBy base ok t with same | ⟨c, f, _, _, _, here, _, target, joined⟩ | ⟨_, none⟩
    · rw [same] at now
      obtain ⟨young, young', pid⟩ := kin.joined t j now
      exact ⟨Nat.lt_of_lt_of_le young grows, Nat.lt_of_lt_of_le young' grows, by
        rw [pids j young', pids t young]; exact pid⟩
    · rw [joined] at now
      cases now
      have known := aliveKnown base (c := j) (by rw [here]; rfl)
      obtain ⟨young, pid⟩ := kin.chosen j f (by rw [here]; rfl)
      subst target
      exact ⟨Nat.lt_of_lt_of_le young grows, Nat.lt_of_lt_of_le known grows, by
        rw [pids j known, pids f.pos young]; exact pid.symm⟩
    · rw [none] at now; cases now

theorem kinBoot : Kin boot := by
  constructor <;> simp [boot, Pc.chosen]

end Kin
end Pintos.Userprog
