import Pintos.Userprog.Kin

/-! Where the exit of a process goes wrong, and what the list of its threads and the traversals of
process_exit_normal find as long as it does not. -/
namespace Pintos.Userprog
open Machine

attribute [local simp] Function.update_apply

/- The conditions on a run.
- process_exit_normal is not entered once the main thread has called pthread_exit.
- The first traversal finds every thread in a handler or already a zombie.
- No thread is between exit_if_exiting and the end of pthread_exit when the second
  traversal starts.
- setup_stack gets its page. -/
def Orderly (s : State) (a : Action) : Prop :=
  match s.current with
  | none => True
  | some c =>
    match a, (s.thread c).pc with
    | .run, .exit (.enter _) => (s.proc c).exiting ≠ .main
    | .run, .exit (.visit (t :: _)) => (s.thread t).inHandler = true ∨
      (s.thread t).status = .zombie
    | .run, .exit .assert => ∀ t < s.created, (s.thread t).pid = (s.thread c).pid →
      (s.thread t).pc ≠ .pthreadExit
    | .starve, .start .setup => noneOrMain (s.proc c).exiting = false
    | _, _ => True

instance (s a) : Decidable (Orderly s a) := by
  unfold Orderly
  split
  · infer_instance
  · split <;> infer_instance

def Sched.Rested (g : Sched) (t : Tid) : Prop := g.Ended t ∧ g.elem t = none

section Rested
variable {g g' : Sched} {t : Tid} {op : Op} {list : List Op}

theorem createdGrows (g : Sched) (op : Op) : g.created ≤ (g.perform op).created := by
  cases op <;> simp [Sched.perform]

theorem restedOp (lined : Lined g) (rested : g.Rested t) (young : t < g.created)
    (allowed : g.Allows op) : (g.perform op).Rested t := by
  obtain ⟨ended, free⟩ := rested
  have idle : ∀ u, g.status u = .blocked ∨ g.status u = .running → t ≠ u := by
    rintro u busy rfl
    unfold Sched.Ended at ended
    rcases busy with busy | busy <;> rw [busy] at ended <;> simp at ended
  have unlinked : t ∉ g.readyList := by rw [lined.mem, free]; simp
  have still : ∀ c, g.current = some c → t ≠ c := fun c runs => idle c (.inr (lined.running c runs).1)
  refine ⟨endedKeeps (performsOne allowed rfl) lined ended young ?_, ?_⟩
  · intro dispatched
    cases List.mem_singleton.mp dispatched
    exact unlinked allowed.2.1
  · cases op with
    | unblock u on | wake u =>
      have other := idle u (.inl allowed.2.1)
      simpa [Sched.perform, other] using free
    | sleep c | yield c => simpa [Sched.perform, still c allowed] using free
    | dispatch u =>
      have other : t ≠ u := fun same => unlinked (same ▸ allowed.2.1)
      simpa [Sched.perform, other] using free
    | spawn u =>
      have other : t ≠ u := by
        rw [show u = g.created from allowed]
        exact Nat.ne_of_lt young
      simpa [Sched.perform, other] using free
    | zombify u | block c | zombie c | die c | free u => exact free

theorem restedKeeps (performs : Performs g list g') (lined : Lined g) (rested : g.Rested t)
    (young : t < g.created) : g'.Rested t := by
  induction performs with
  | nil => exact rested
  | @cons g g' op rest allowed after ih =>
    exact ih (linedPerform lined allowed) (restedOp lined rested young allowed)
      (Nat.lt_of_lt_of_le young (createdGrows g op))

theorem endRests (performs : Performs g list g') (lined : Lined g) (young : t < g.created)
    (ends : Op.zombie t ∈ list ∨ Op.die t ∈ list) : g'.Rested t := by
  induction performs with
  | nil => rcases ends with ends | ends <;> cases ends
  | @cons g g' op rest allowed after ih =>
    have lined' := linedPerform lined allowed
    have young' := Nat.lt_of_lt_of_le young (createdGrows g op)
    by_cases now : op = .zombie t ∨ op = .die t
    · refine restedKeeps after lined' ?_ young'
      rcases now with rfl | rfl
      · exact ⟨.inl (by simp [Sched.perform]), (lined.running t allowed).2⟩
      · exact ⟨.inr (by simp [Sched.perform]), (lined.running t allowed).2⟩
    · refine ih lined' young' ?_
      rcases ends with ends | ends
      · rcases List.mem_cons.mp ends with same | later
        · exact absurd (.inl same.symm) now
        · exact .inl later
      · rcases List.mem_cons.mp ends with same | later
        · exact absurd (.inr same.symm) now
        · exact .inr later

theorem freedSince (performs : Performs g list g') (freed : g'.freed t = true) :
    g.freed t = true ∨ Op.die t ∈ list ∨ Op.free t ∈ list := by
  induction performs with
  | nil => exact .inl freed
  | @cons g g' op rest allowed after ih =>
    rcases ih freed with before | die | free
    · by_cases first : op = .die t
      · exact .inr (.inl (first ▸ List.mem_cons_self))
      by_cases second : op = .free t
      · exact .inr (.inr (second ▸ List.mem_cons_self))
      left
      cases op with
      | die u | free u =>
        have other : t ≠ u := fun same => by subst same; contradiction
        simpa [Sched.perform, other] using before
      | spawn u =>
        by_cases other : t = u
        · simp [Sched.perform, other] at before
        · simpa [Sched.perform, other] using before
      | unblock u on | wake u | zombify u | block u | sleep u | yield u | zombie u | dispatch u =>
        exact before
    · exact .inr (.inl (List.mem_cons_of_mem _ die))
    · exact .inr (.inr (List.mem_cons_of_mem _ free))

end Rested

section Moves
variable {s s' : State} {c t : Tid} {a : Action} {f : Target}

theorem endsOps (base : Base s) (ok : step s a = .ok s') (alive : (s.thread t).pc.ended = false)
    (ended : (s'.thread t).pc.ended = true) :
    Op.zombie t ∈ ops s a ∨ Op.die t ∈ ops s a := by
  have moved : (s'.thread t).pc ≠ (s.thread t).pc := by
    intro same
    rw [same, alive] at ended
    cases ended
  obtain ⟨runs, ⟨ok, _, edge⟩ | creates⟩ := movedSteps base ok alive moved
  · have bound : (s.thread t).pc.bound = true := by
      rcases jumpEnding (edgeJumps edge) ended with here | here | here | level
      · rw [here]; rfl
      · rw [here]; rfl
      · rw [here]; rfl
      · exact absurd level (base.known _)
    obtain ⟨rfl, plain, _⟩ := movedRuns ok moved bound
    rcases jumpEnding (edgeJumps edge) ended with here | here | here | level
    · exact .inl (by simp [ops, runs, currentOps, plain, here, runOps])
    · exact .inr (by simp [ops, runs, currentOps, plain, here, runOps])
    · exact .inr (by simp [ops, runs, currentOps, plain, here, runOps])
    · exact absurd level (base.known _)
  · rw [creates.own] at ended
    cases ended

theorem opEnds (base : Base s) (ok : step s a = .ok s')
    (ends : Op.zombie t ∈ ops s a ∨ Op.die t ∈ ops s a) : (s'.thread t).pc.ended = true := by
  rcases ends with zombie | die
  · cases opsReason zombie with
    | zombie runs run plain here =>
      subst run
      simp only [step, runs, stepCurrent, plain, if_true, here, runPc] at ok
      obtain ⟨v, _, ok⟩ := bindOk.mp ok
      cases ok
      simp [Pc.ended]
  · cases opsReason die with
    | die runs run plain here =>
      subst run
      rcases here with here | here | exception
      · simp only [step, runs, stepCurrent, plain, if_true, here, runPc] at ok
        cases ok
        simp [startProcess, threadExit, Pc.ended]
      · simp only [step, runs, stepCurrent, plain, if_true, here, runPc] at ok
        cases ok
        simp [threadExit, Pc.ended]
      · exact absurd exception (base.known _)

theorem joinRemoveZombie (ok : pthreadJoin s c (.remove f) = .ok s') (other : f.isMain = false) :
    (s.thread f.pos).status = .zombie ∧ f.pos ∈ (s.proc c).threads := by
  obtain ⟨u, removes, _⟩ := bindOk.mp ok
  unfold joinRemove at removes
  rw [if_neg (by simp [other])] at removes
  split at removes <;> try contradiction
  split at removes <;> try contradiction
  rename_i zombie
  exact ⟨zombie, (progRemoveOk removes).1⟩

end Moves
def Pc.enrolled (level : Exiting) : Pc → Bool
  | .load (.up false) => false
  | .load _ | .user | .trap _ => true
  | .work _ | .create _ | .join _ | .leave _ | .main .enter | .start .unlock | .start .up
  | .start .free => noneOrMain level
  | _ => false

structure Tidy (s : State) : Prop where
  tally : Tally s
  mains : Mains s
  lined : Lined s.sched
  kin : Kin s
  final : ∀ t, t < s.created → s.sched.Ended t → (s.thread t).pc.ended = true
  rested : ∀ t, t < s.created → (s.thread t).pc.ended = true → s.sched.Rested t
  pages : ∀ t, t < s.created → (s.thread t).freed = true → (s.thread t).pc.ended = true
  reaped : ∀ t u, (s.thread t).pc.reaps = some u → u < s.created ∧ (s.thread u).pc.ended = true
  nodup : ∀ p, (s.pcb p).threads.Nodup
  absent : ∀ t, (s.thread t).pc.absent = true → t ∉ (s.proc t).threads
  enrolled : ∀ t, (s.thread t).pc.enrolled (s.proc t).exiting = true → t ∈ (s.proc t).threads
  visited : ∀ e t stage todo, (s.thread e).pc = .exit stage → (s.thread e).pc.todo = some todo →
    t ≠ e → (s.thread t).pid = (s.thread e).pid → t ∉ todo → (s.thread t).pc.outside = false
  alone : ∀ e t, e < s.created → t < s.created → (s.thread e).pc.late = true → t ≠ e →
    (s.thread t).pid = (s.thread e).pid → (s.thread t).pc.ended = true

section Steps
variable {s s' : State} {a : Action} {c e t u : Tid}
  {todo : List Tid} {pc : Pc} {stage : Exit} {p : Pid}

theorem orderlyPermitted (orderly : Orderly s a) (runs : s.current = some c) (run : a = .run) :
    Permitted c s := by
  subst run
  intro code here
  simpa [Orderly, runs, here] using orderly

theorem tidyFinal (inv : Tidy s) (orderly : Orderly s a) (ok : step s a = .ok s')
    (young : t < s'.created) (ended : s'.sched.Ended t) : (s'.thread t).pc.ended = true := by
  have base := inv.tally.toBase
  by_cases known : t < s.created
  · rcases endedSince (stepPerforms base ok) ended with before | zombify | zombie | die
    · exact endedStays base ok known (inv.final t known before)
    · cases opsReason zombify with
      | @zombify c t runs run plain why =>
        subst run
        cases why with
        | visit here outside =>
          have meets : (s.thread t).inHandler = true ∨ (s.thread t).status = .zombie := by
            simpa [Orderly, runs, here] using orderly
          rcases meets with inside | zombie
          · rw [outside] at inside; cases inside
          · exact endedStays base ok known (inv.final t known (.inl zombie))
        | main here level => exact absurd level (orderlyPermitted orderly runs rfl _ here)
    · exact opEnds base ok (.inl zombie)
    · exact opEnds base ok (.inr die)
  · obtain ⟨c, _, _, new⟩ | new := newKnown base ok known young <;>
      simp [Sched.Ended, State.sched, new, newThread] at ended

theorem tidyRested (inv : Tidy s) (ok : step s a = .ok s') (young : t < s'.created)
    (ended : (s'.thread t).pc.ended = true) : s'.sched.Rested t := by
  have base := inv.tally.toBase
  by_cases known : t < s.created
  · have performs := stepPerforms base ok
    cases before : (s.thread t).pc.ended with
    | true => exact restedKeeps performs inv.lined (inv.rested t known before) known
    | false => exact endRests performs inv.lined known (endsOps base ok before ended)
  · obtain ⟨c, _, _, new⟩ | new := newKnown base ok known young <;>
      simp [new, newThread, Pc.ended] at ended

theorem tidyPages (inv : Tidy s) (ok : step s a = .ok s') (young : t < s'.created)
    (freed : (s'.thread t).freed = true) : (s'.thread t).pc.ended = true := by
  have base := inv.tally.toBase
  by_cases known : t < s.created
  · rcases freedSince (t := t) (stepPerforms base ok) freed with before | die | free
    · exact endedStays base ok known (inv.pages t known before)
    · exact opEnds base ok (.inr die)
    · refine endedStays base ok known ?_
      cases opsReason free with
      | @free c t runs here =>
        rcases here with ⟨f, here, rfl⟩ | ⟨here, inside⟩
        · exact (inv.reaped c f.pos (by rw [here]; rfl)).2
        · have self : t ≠ c := by
            rintro rfl
            exact inv.absent t (by rw [here]; rfl) inside
          exact inv.alone c t (currentKnown inv.lined runs) known (by rw [here]; rfl) self
            (inv.kin.member _ t inside).2
  · obtain ⟨c, _, _, new⟩ | new := newKnown base ok known young <;>
      simp [new, newThread] at freed

theorem reapsStage (reaps : pc.reaps = some u) :
    ∃ f, f.pos = u ∧ (pc = .join (.release f) ∧ f.isMain = false ∨ pc = .join (.free f)) := by
  unfold Pc.reaps at reaps
  split at reaps
  · rename_i f
    split at reaps
    · cases reaps
    · rename_i other
      exact ⟨f, Option.some.inj reaps, .inl ⟨rfl, by simpa using other⟩⟩
  · rename_i f
    exact ⟨f, Option.some.inj reaps, .inr rfl⟩
  · cases reaps

theorem tidyReaped (inv : Tidy s) (ok : step s a = .ok s')
    (reaps : (s'.thread t).pc.reaps = some u) :
    u < s'.created ∧ (s'.thread u).pc.ended = true := by
  have base := inv.tally.toBase
  have still : u < s.created ∧ (s.thread u).pc.ended = true →
      u < s'.created ∧ (s'.thread u).pc.ended = true := fun old =>
    ⟨Nat.lt_of_lt_of_le old.1 (stepPid base ok).1, endedStays base ok old.1 old.2⟩
  cases stepArrives base ok t with
  | stays same => exact still (inv.reaped t u (same ▸ reaps))
  | moves runs moved moves acts edge =>
    obtain ⟨f, rfl, ⟨now, other⟩ | now⟩ := reapsStage reaps
    · rcases joinArrives moves edge moved now with ⟨tid, first⟩ | ⟨before, old, _, _, joins⟩
      · cases first
      · have follows := jumpJoinFollows (edgeJumps edge) old now
        cases before with
        | remove g =>
          cases of_decide_eq_true follows
          obtain ⟨zombie, inside⟩ := joinRemoveZombie joins other
          have young := (inv.kin.member _ _ inside).1
          exact still ⟨young, inv.final _ young (.inl zombie)⟩
        | _ => cases follows
    · rcases joinArrives moves edge moved now with ⟨tid, first⟩ | ⟨before, old, _, _, joins⟩
      · cases first
      · have follows := jumpJoinFollows (edgeJumps edge) old now
        cases before with
        | release g =>
          obtain ⟨same, other⟩ := Bool.and_eq_true_iff.mp follows
          cases of_decide_eq_true same
          exact still (inv.reaped t f.pos (by rw [old]; simpa [Pc.reaps] using other))
        | _ => cases follows
  | creates runs old new => rw [new] at reaps; cases reaps
  | created self new => rcases new with new | new <;> rw [new] at reaps <;> cases reaps

theorem pushThreads (p : Pid) : ((startPthread s c .push).pcb p).threads =
    if p = (s.thread c).pid then c :: (s.proc c).threads else (s.pcb p).threads := by
  by_cases own : p = (s.thread c).pid <;> simp [startPthread, own]

theorem tidyNodup (inv : Tidy s) (ok : step s a = .ok s') (p : Pid) :
    (s'.pcb p).threads.Nodup := by
  have base := inv.tally.toBase
  cases stepTied base ok with
  | ties ties => exact (inv.nodup p).sublist (ties.threads p)
  | set runs run plain here ok => rw [(joinSetTies ok).1]; exact inv.nodup p
  | @push c runs here now =>
    rw [now, pushThreads]
    split
    · exact List.nodup_cons.mpr ⟨inv.absent c (by rw [here]; rfl), inv.nodup _⟩
    · exact inv.nodup p
  | @creates c runs old now =>
    rw [(creation base old now).pcb]
    exact inv.nodup p
  | launches launch now =>
    have launches := launched now
    by_cases fresh : p = s.created
    · rw [fresh, launches.fresh]; simp [initProcess]
    · rw [launches.pcb p fresh]; exact inv.nodup p

theorem entersList (inv : Tidy s) (ok : step s a = .ok s') (inside : t ∈ (s'.pcb p).threads) : t ∈
    (s.pcb p).threads ∨
      (s'.thread t).pc = .start .unlock ∨ (s'.thread t).pc = .load .down := by
  have base := inv.tally.toBase
  cases stepTied base ok with
  | ties ties => exact .inl ((ties.threads p).subset inside)
  | set runs run plain here ok => rw [(joinSetTies ok).1] at inside; exact .inl inside
  | @push c runs here now =>
    rw [now, pushThreads] at inside
    split at inside
    · rename_i own
      rcases List.mem_cons.mp inside with self | old
      · exact .inr (.inl (by rw [now, self]; simp [startPthread]))
      · rw [own]; exact .inl old
    · exact .inl inside
  | @creates c runs old now =>
    rw [(creation base old now).pcb] at inside
    exact .inl inside
  | launches launch now =>
    have launches := launched now
    by_cases fresh : p = s.created
    · rw [fresh, launches.fresh] at inside
      cases List.mem_singleton.mp inside
      exact .inr (.inr (by rw [launches.new]; rfl))
    · rw [launches.pcb p fresh] at inside
      exact .inl inside

theorem startMoves {stage : Start} (old : (s.thread c).pc = .start stage)
    (ok : stepCurrent s c a = .ok s') (moved : (s'.thread c).pc ≠ (s.thread c).pc) :
    s' = startPthread s c stage ∨
      a = .starve ∧ stage = .setup ∧ (s'.thread c).pc = .start .up := by
  by_cases quiet : a.quiet = true
  · exact absurd ((quietStill quiet ok).pc c) moved
  · cases a with
    | run =>
      simp only [stepCurrent] at ok
      split at ok
      · rw [old] at ok
        exact .inl (Except.ok.inj ok).symm
      · cases ok
        exact absurd rfl moved
    | starve =>
      simp only [stepCurrent, old] at ok
      cases ok
      cases stage with
      | setup => exact .inr ⟨rfl, rfl, by simp [starvePc]⟩
      | _ => exact absurd rfl moved
    | call k | noStack | fault =>
      simp only [stepCurrent, old] at ok
      cases ok
      exact absurd rfl moved
    | _ => exact absurd rfl quiet

theorem startFollows {stage next : Start} (old : (s.thread c).pc = .start stage)
    (runs : s.current = some c) (orderly : Orderly s a) (ok : stepCurrent s c a = .ok s')
    (moved : (s'.thread c).pc ≠ (s.thread c).pc) (now : (s'.thread c).pc = .start next) :
    ((Pc.start next).absent = true → (Pc.start stage).absent = true) ∧
      ((Pc.start next).absent = false → (Pc.start stage).absent = false ∨ stage = .push ∨
        noneOrMain (s.proc c).exiting = false) := by
  rcases startMoves old ok moved with rfl | ⟨rfl, rfl, up⟩
  · cases stage with
    | setup | check =>
      refine ⟨fun _ => rfl, fun later => .inr (.inr ?_)⟩
      cases level : noneOrMain (s.proc c).exiting with
      | false => rfl
      | true =>
        simp only [startPthread, level, if_true, State.setPc, State.setThread, Function.update_self,
          Pc.start.injEq] at now
        rw [← now] at later
        cases later
    | lock =>
      simp only [startPthread, rwLockAcquireWriter] at now moved
      split at now
      · simp only [State.setPc, State.setThread, Function.update_self, Pc.start.injEq] at now
        rw [← now]
        exact ⟨fun _ => rfl, fun later => by cases later⟩
      · rename_i taken
        rw [if_neg taken] at moved
        exact absurd (by simp [sleep]) moved
    | push | unlock | up =>
      simp only [startPthread, State.setPc, State.setThread, Function.update_self,
        Pc.start.injEq] at now
      rw [← now]
      refine ⟨(fun early => by cases early), fun _ => ?_⟩
      first | exact .inr (.inl rfl) | exact .inl rfl
    | free => simp [startPthread] at now
  · rw [up] at now
    cases now
    refine ⟨fun _ => rfl, fun _ => .inr (.inr ?_)⟩
    simpa [Orderly, runs, old] using orderly

theorem tidyAbsent (inv : Tidy s) (orderly : Orderly s a) (ok : step s a = .ok s')
    (now : (s'.thread t).pc.absent = true) : t ∉ (s'.proc t).threads := by
  intro inside
  have base := inv.tally.toBase
  have before : t ∈ (s.pcb (s'.thread t).pid).threads := by
    rcases entersList inv ok inside with old | new | new
    · exact old
    all_goals rw [new] at now; cases now
  have known := (inv.kin.member _ t before).1
  have here : (s.thread t).pc.absent = false := by
    by_contra absent
    rw [(stepPid base ok).2 t known] at before
    exact inv.absent t (by simpa using absent) before
  cases stepArrives base ok t with
  | stays same => rw [same, here] at now; cases now
  | moves runs moved moves acts edge =>
    rcases jumpAbsent (edgeJumps edge) now here with ⟨stage, next, old, new⟩ | ⟨next, new, past⟩ | old | old | level
    · rw [new] at now
      rw [old] at here
      rw [(startFollows old runs orderly moves moved new).1 now] at here
      cases here
    · obtain ⟨stage, old, _, _, exits⟩ := exitArrives moves edge moved new past
      have follows := jumpExitFollows (edgeJumps edge) old new
      rw [old] at here
      rw [new] at now
      cases stage with
      | remove =>
        obtain ⟨u, removes, exits⟩ := bindOk.mp exits
        cases exits
        obtain ⟨_, rfl⟩ := progRemoveOk removes
        exact (inv.nodup _).not_mem_erase (by simpa using inside)
      | enter code | lock =>
        cases next with
        | lock | remove => cases now
        | _ => cases follows
      | _ => cases here
    · obtain ⟨_, _, exits⟩ := movedRuns moves moved (by rw [old]; rfl)
      rw [old] at exits
      obtain ⟨u, removes, exits⟩ := bindOk.mp exits
      obtain ⟨_, rfl⟩ := progRemoveOk removes
      split at exits <;> try contradiction
      cases exits
      exact (inv.nodup _).not_mem_erase (by simpa using inside)
    · obtain ⟨_, _, exits⟩ := movedRuns moves moved (by rw [old]; rfl)
      rw [old] at exits
      cases exits
      simp [startProcess, threadExit, filesysUp] at inside
    · exact base.known _ level
  | creates runs old new => rw [new] at now; cases now
  | created self new => exact absurd known (by rw [self]; exact Nat.lt_irrefl _)

theorem enrolledLevel {before after : Exiting}
    (level : noneOrMain after = true → noneOrMain before = true)
    (now : pc.enrolled after = true) : pc.enrolled before = true := by
  unfold Pc.enrolled at now ⊢
  split at now <;> first | exact level now | rfl | cases now

theorem levelFalls (ok : step s a = .ok s') (known : p < s.created)
    (after : noneOrMain (s'.pcb p).exiting = true) : noneOrMain (s.pcb p).exiting = true := by
  cases stepRaises ok p with
  | same exiting => rwa [exiting] at after
  | fresh self => exact absurd known (by rw [self]; exact Nat.lt_irrefl _)
  | normal runs pid old new none | main runs pid old new blocks none => rw [none]; rfl

theorem edgeEnrolled (orderly : Orderly s a) (runs : s.current = some c)
    (ok : stepCurrent s c a = .ok s') (moved : (s'.thread c).pc ≠ (s.thread c).pc)
    (edge : Edge c s s') (now : (s'.thread c).pc.enrolled (s'.proc c).exiting = true) :
    (s.thread c).pc.enrolled (s.proc c).exiting = true ∨ (s.thread c).pc = .start .push := by
  cases edge with
  | plain moves hand proc =>
    rw [proc.exiting] at now
    by_cases starts : ∃ stage next, (s.thread c).pc = .start stage ∧ (s'.thread c).pc = .start next
    · obtain ⟨stage, next, old, new⟩ := starts
      rw [new] at now
      have later : (Pc.start next).absent = false := by
        cases next <;> first | rfl | cases now
      have level : noneOrMain (s.proc c).exiting = true := by
        cases next <;> first | exact now | cases now
      rcases (startFollows old runs orderly ok moved new).2 later with early | push | none
      · rw [old]
        cases stage <;> first | exact .inl level | cases early
      · exact .inr (push ▸ old)
      · rw [none] at level; cases level
    · left
      generalize (s.proc c).exiting = level at now ⊢
      generalize (s.thread c).pc = old at moves starts ⊢
      generalize (s'.thread c).pc = new at moves starts now
      unfold Pc.plain at moves
      split at moves <;> simp_all [Pc.enrolled]
  | trap old => rw [old]; exact .inl rfl
  | count old new hand proc | failed old new hand proc =>
    rw [new, proc.exiting] at now
    rw [old]
    exact .inl now
  | leave old known new hand current proc =>
    rw [new] at now
    split at now
    · cases now
    · rename_i stays
      rw [old]
      left
      cases level : (s.proc c).exiting with
      | none => rfl
      | main => rfl
      | normal => exact absurd (.inl level) stays
      | exception => exact absurd level known
  | exitLater old new level hand proc =>
    have same : (s'.proc c).exiting = (s.proc c).exiting := by
      rw [proc.exiting]; unfold setExitCode; split <;> rfl
    rw [new, same] at now
    rcases level with level | level <;> rw [level] at now <;> cases now
  | mainLater old new level hand proc =>
    have same : (s'.proc c).exiting = (s.proc c).exiting := by
      rw [proc.exiting]; unfold setExitCode; split <;> rfl
    rw [new, same] at now
    rw [old]
    exact .inl now
  | mainFirst old new | mainLoop old new =>
    rw [new] at now; unfold loops at now; split at now <;> cases now
  | fault old new | ends old new | exitFirst old new | exitMain old new | gone old new =>
    rw [new] at now; cases now

theorem unenrolled {level : Exiting}
    (past : pc.ended = true ∨ pc.closing = true ∨ pc = .gone) : pc.enrolled level = false := by
  rcases past with ended | closes | rfl
  · cases pc <;> first | rfl | cases ended
  · cases pc with
    | main stage => cases stage <;> first | rfl | cases closes
    | _ => first | rfl | cases closes
  · rfl

theorem leavesEnded (inv : Tidy s) (ok : step s a = .ok s') (inside : t ∈ (s.pcb p).threads)
    (leaves : leaves s p t) :
    (s'.thread t).pc.enrolled (s'.proc t).exiting = false := by
  have base := inv.tally.toBase
  obtain ⟨known, pid⟩ := inv.kin.member p t inside
  have ends : (s.thread t).pc.ended = true →
      (s'.thread t).pc.enrolled (s'.proc t).exiting = false := fun ended =>
    unenrolled (.inl (endedStays base ok known ended))
  have closes : (s.thread t).pc.closing = true →
      (s'.thread t).pc.enrolled (s'.proc t).exiting = false := fun closes =>
    unenrolled (.inr (closesStep base ok known (.inl closes)))
  obtain ⟨c, runs, rfl, why⟩ := leaves
  have young := currentKnown inv.lined runs
  cases why with
  | exit here | main here => exact closes (by rw [here]; rfl)
  | join here zombie => exact ends (inv.final _ known (.inl zombie))
  | clean here =>
    by_cases self : t = c
    · exact closes (by rw [self, here]; rfl)
    · exact ends (inv.alone c t young known (by rw [here]; rfl) self pid)
  | load here =>
    have self := inv.mains.alone c t (by rw [here]; rfl) known pid
    subst self
    cases stepArrives base ok t with
    | stays same => rw [same, here]; rfl
    | moves runs moved moves acts edge =>
      obtain ⟨_, _, exits⟩ := movedRuns moves moved (by rw [here]; rfl)
      rw [here] at exits
      cases exits
      simp [startProcess, threadExit, Pc.enrolled]
    | creates runs old new => rw [here] at old; cases old
    | created self new => exact absurd known (by rw [self]; exact Nat.lt_irrefl _)

theorem stayEnrolled (inv : Tidy s) (ok : step s a = .ok s') (known : t < s.created)
    (now : (s'.thread t).pc.enrolled (s'.proc t).exiting = true)
    (inside : t ∈ (s.proc t).threads) : t ∈ (s'.pcb (s.thread t).pid).threads := by
  have base := inv.tally.toBase
  cases stepTied base ok with
  | ties ties =>
    rcases ties.kept _ t inside with still | leaves
    · exact still
    · rw [leavesEnded inv ok inside leaves] at now
      cases now
  | set runs run plain here ok => rw [(joinSetTies ok).1]; exact inside
  | @push c runs here push =>
    rw [push, pushThreads]
    split
    · rename_i own
      refine List.mem_cons_of_mem _ ?_
      unfold State.proc at inside ⊢
      rwa [← own]
    · exact inside
  | @creates c runs old creates =>
    rw [(creation base old creates).pcb]
    exact inside
  | launches launch now =>
    have launches := launched now
    rw [launches.pcb _ (Nat.ne_of_lt (base.pid t known))]
    exact inside

theorem tidyEnrolled (inv : Tidy s) (orderly : Orderly s a) (ok : step s a = .ok s')
    (now : (s'.thread t).pc.enrolled (s'.proc t).exiting = true) : t ∈ (s'.proc t).threads := by
  have base := inv.tally.toBase
  by_cases known : t < s.created
  · have pid := (stepPid base ok).2 t known
    have falls : noneOrMain (s'.proc t).exiting = true → noneOrMain (s.proc t).exiting = true := by
      unfold State.proc
      rw [pid]
      exact levelFalls ok (base.pid t known)
    have stays : (s.thread t).pc.enrolled (s.proc t).exiting = true → t ∈ (s'.proc t).threads := by
      intro before
      unfold State.proc
      rw [pid]
      exact stayEnrolled inv ok known now (inv.enrolled t before)
    cases stepArrives base ok t with
    | stays same => exact stays (enrolledLevel falls (same ▸ now))
    | moves runs moved moves acts edge =>
      rcases edgeEnrolled orderly runs moves moved edge now with before | push
      · exact stays before
      · rcases startMoves push moves moved with rfl | ⟨_, setup, _⟩
        · unfold State.proc
          rw [pid, pushThreads, if_pos rfl]
          exact List.mem_cons_self
        · cases setup
    | creates runs old new =>
      rw [new] at now
      exact stays (by rw [old]; exact falls now)
    | created self new => exact absurd known (by rw [self]; exact Nat.lt_irrefl _)
  · cases stepArrives base ok t with
    | created self new =>
      rcases new with new | new
      · rw [new] at now; cases now
      · cases stepStepped ok with
        | still still =>
          rw [still.pc, base.fresh t (Nat.le_of_not_lt known)] at new
          cases new
        | @acts c runs ok acts edge =>
          have other : t ≠ c := fun same => known (same ▸ aliveKnown base (jumpAlive (edgeJumps edge)))
          rw [acts.pc t other, base.fresh t (Nat.le_of_not_lt known)] at new
          cases new
        | @creates c runs old creates =>
          rw [self, (creation base old creates).new] at new
          cases new
        | launches launch now =>
          have launches := launched now
          unfold State.proc
          rw [self, launches.new]
          simp [newThread, launches.fresh, initProcess]
    | stays same =>
      rw [same, base.fresh t (Nat.le_of_not_lt known)] at now
      cases now
    | moves runs moved moves acts edge =>
      exact absurd (aliveKnown base (jumpAlive (edgeJumps edge))) known
    | creates runs old new => exact absurd (aliveKnown base (by rw [old]; rfl)) known

theorem outsideBefore (inv : Tidy s) (ok : step s a = .ok s') (here : (s.thread e).pc = .exit stage)
    (closes : (s.thread e).pc.closing = true) (other : t ≠ e)
    (pid : (s'.thread t).pid = (s.thread e).pid) (now : (s'.thread t).pc.outside = true) :
    (s.thread t).pc.outside = true ∧ (s.thread t).pid = (s.thread e).pid := by
  have base := inv.tally.toBase
  have known : e < s.created := aliveKnown base (by rw [here]; rfl)
  have level : (s.proc e).exiting = .normal := by
    refine (inv.tally.closing e closes).2.2 .normal ?_
    rw [here] at closes ⊢
    cases stage with
    | enter code => cases closes
    | _ => rfl
  cases stepArrives base ok t with
  | stays same =>
    have alive : (s.thread t).pc.ended = false := by
      rw [← same]
      cases pc : (s'.thread t).pc <;> rw [pc] at now <;> first | rfl | cases now
    rw [(stepPid base ok).2 t (aliveKnown base alive)] at pid
    exact ⟨same ▸ now, pid⟩
  | moves runs moved moves acts edge =>
    rw [acts.pid] at pid
    rcases jumpOutside (edgeJumps edge) now with before | loads | free
    · exact ⟨before, pid⟩
    · exact absurd (inv.mains.alone t e loads known pid.symm).symm other
    · unfold State.proc at free level
      rw [pid] at free
      exact absurd level free
  | creates runs old new => rw [new] at now; cases now
  | created self new => rcases new with new | new <;> rw [new] at now <;> cases now

theorem outsidePlace (outside : pc.outside = true) :
    pc.flag = some false ∧ pc.ended = false ∧ ∀ level, pc.enrolled level = true := by
  cases pc <;> first | exact ⟨rfl, rfl, fun _ => rfl⟩ | cases outside

theorem visitedMoves (inv : Tidy s) (orderly : Orderly s .run) (runs : s.current = some e)
    {before stage : Exit} (old : (s.thread e).pc = .exit before)
    (follows : before.follows stage = true) (rest : (Pc.exit stage).todo = some todo)
    (listed : before = .remove → todo = (s.proc e).threads.erase e) (known : t < s.created)
    (other : t ≠ e) (pid : (s.thread t).pid = (s.thread e).pid) (out : t ∉ todo) :
    (s.thread t).pc.outside = false := by
  have visited : ∀ list, (Pc.exit before).todo = some list → t ∉ list →
      (s.thread t).pc.outside = false := fun list same =>
    inv.visited e t before list old (by rw [old]; exact same) other pid
  by_contra outside
  rw [Bool.not_eq_false] at outside
  obtain ⟨flag, alive, enrolled⟩ := outsidePlace outside
  cases before with
  | enter code | lock =>
    cases stage with
    | lock | remove => cases rest
    | _ => cases follows
  | remove =>
    have inside := inv.enrolled t (enrolled _)
    unfold State.proc at inside
    rw [pid] at inside
    rw [listed rfl] at out
    exact out ((List.mem_erase_of_ne other).mpr inside)
  | visit list =>
    cases list with
    | nil =>
      rw [visited [] rfl (by simp)] at outside
      cases outside
    | cons pos list =>
      cases stage with
      | visit list' =>
        cases of_decide_eq_true follows
        cases rest
        by_cases self : t = pos
        · subst self
          have meets : (s.thread t).inHandler = true ∨ (s.thread t).status = .zombie := by
            simpa [Orderly, runs, old] using orderly
          rcases meets with inside | zombie
          · rw [inv.tally.hand t false flag] at inside; cases inside
          · rw [inv.final t known (.inl zombie)] at alive; cases alive
        · rw [visited _ rfl (by simp [self, out])] at outside
          cases outside
      | _ => cases follows
  | unlock | check =>
    rw [visited [] rfl (by simp)] at outside
    cases outside
  | assert => cases follows

theorem tidyVisited (inv : Tidy s) (orderly : Orderly s a) (ok : step s a = .ok s')
    (here : (s'.thread e).pc = .exit stage)
    (rest : (s'.thread e).pc.todo = some todo) (other : t ≠ e)
    (pid : (s'.thread t).pid = (s'.thread e).pid) (out : t ∉ todo) :
    (s'.thread t).pc.outside = false := by
  have base := inv.tally.toBase
  rw [here] at rest
  have past : ∀ code, stage ≠ .enter code := by
    rintro code rfl
    cases rest
  by_contra outside
  rw [Bool.not_eq_false] at outside
  cases stepArrives base ok e with
  | stays same =>
    have old := same.symm.trans here
    rw [(stepPid base ok).2 e (aliveKnown base (by rw [old]; rfl))] at pid
    obtain ⟨before, pid⟩ := outsideBefore inv ok old (by rw [old]; exact (exitPlaces past).1) other
      pid outside
    rw [inv.visited e t stage todo old (by rw [old]; exact rest) other pid out] at before
    cases before
  | moves runs moved moves acts edge =>
    obtain ⟨before, old, rfl, _, exits⟩ := exitArrives moves edge moved here past
    rw [acts.pid, acts.pid] at pid
    rw [acts.pc t other] at outside
    have listed : before = .remove → todo = (s.proc e).threads.erase e := by
      rintro rfl
      have follows := jumpExitFollows (edgeJumps edge) old here
      cases stage with
      | visit list =>
        cases rest
        rcases visitArrives moves edge moved here with ⟨pos, visits⟩ | list
        · rw [old] at visits; cases visits
        · exact list
      | _ => cases follows
    have alive := (outsidePlace outside).2.1
    rw [visitedMoves inv orderly runs old (jumpExitFollows (edgeJumps edge) old here) rest listed
      (aliveKnown base alive) other pid out] at outside
    cases outside
  | creates runs old new => rw [here] at new; cases new
  | created self new => rcases new with new | new <;> rw [here] at new <;> cases new

theorem tidyRunning (inv : Tidy s) (known : c < s.created) (alive : (s.thread c).pc.ended = false) :
    ¬ Over s (s.thread c).pid := by
  rintro ⟨t, young, pid, gone⟩
  have other : c ≠ t := by
    rintro rfl
    rw [gone] at alive
    cases alive
  rw [inv.alone t c young known (by rw [gone]; rfl) other pid.symm] at alive
  cases alive

theorem idleEnded (zero : pc.weight = 0) (outside : pc.outside = false)
    (loading : pc.loading = false) (past : pc ≠ .pthreadExit) : pc.ended = true := by
  cases pc with
  | create stage => cases stage <;> first | cases zero | (rename_i target; cases target <;> cases zero)
  | pthreadExit => exact absurd rfl past
  | load stage => cases loading
  | user | trap c => cases outside
  | zombie | gone => rfl
  | _ => cases zero

theorem lateArrives (inv : Tidy s) (orderly : Orderly s a) (runs : s.current = some e)
    (ok : stepCurrent s e a = .ok s') (moved : (s'.thread e).pc ≠ (s.thread e).pc)
    (edge : Edge e s s') (late : (s'.thread e).pc.late = true) (known : t < s.created)
    (other : t ≠ e) (pid : (s.thread t).pid = (s.thread e).pid) : (s.thread t).pc.ended = true := by
  have base := inv.tally.toBase
  have alive := jumpAlive (edgeJumps edge)
  have young := aliveKnown base alive
  have running := tidyRunning inv young alive
  have before : (s.thread e).pc.late = true → (s.thread t).pc.ended = true := fun late =>
    inv.alone e t young known late other pid
  have only : ∀ w : Pc → Nat, count w s (s.thread e).pid ≤ w (s.thread e).pc →
      w (s.thread t).pc = 0 := by
    intro w all
    refine othersIdle (s.thread e).pid {e} ?_ (by simpa using young) (by simpa using other) known pid
    simpa [share] using all
  rcases jumpLate (edgeJumps edge) late with was | here | ⟨own, few⟩ | loads | exception
  · exact before was
  · obtain ⟨rfl, _, exits⟩ := movedRuns ok moved (by rw [here]; rfl)
    have window : (s.thread t).pc ≠ .pthreadExit := by
      have all : ∀ t < s.created, (s.thread t).pid = (s.thread e).pid →
          (s.thread t).pc ≠ .pthreadExit := by
        simpa [Orderly, runs, here] using orderly
      exact all t known pid
    have loading : (s.thread t).pc.loading = false := by
      by_contra loads
      exact other (inv.mains.alone t e (by simpa using loads) young pid.symm).symm
    have outside := inv.visited e t .assert [] here (by rw [here]; rfl) other pid (by simp)
    refine idleEnded (only Pc.weight ?_) outside loading window
    rw [here] at exits
    simp only [runPc, processExitNormal] at exits
    split at exits <;> try contradiction
    rename_i one
    rw [← inv.tally.kernel _ running, here]
    exact Nat.le_of_eq one
  · refine absentEnded (only Pc.presence ?_)
    rw [← inv.tally.active _ running, own]
    exact Nat.le_of_not_lt few
  · exact absurd (inv.mains.alone e t (by rw [loads]; rfl) known pid) other
  · exact absurd exception (base.known _)

theorem tidyAlone (inv : Tidy s) (orderly : Orderly s a) (ok : step s a = .ok s')
    (young : e < s'.created) (young' : t < s'.created) (late : (s'.thread e).pc.late = true)
    (other : t ≠ e) (pid : (s'.thread t).pid = (s'.thread e).pid) :
    (s'.thread t).pc.ended = true := by
  have base := inv.tally.toBase
  have known : e < s.created := by
    by_contra unknown
    obtain ⟨c, _, _, new⟩ | new := newKnown base ok unknown young <;>
      simp [new, newThread, Pc.late] at late
  rw [(stepPid base ok).2 e known] at pid
  cases stepArrives base ok e with
  | stays same =>
    rw [same] at late
    by_cases known' : t < s.created
    · rw [(stepPid base ok).2 t known'] at pid
      exact endedStays base ok known' (inv.alone e t known known' late other pid)
    · obtain ⟨c, runs, old, new⟩ | new := newKnown base ok known' young'
      · have creator : c ≠ e := by
          rintro rfl
          rw [old] at late
          cases late
        rw [new] at pid
        have ended := inv.alone e c known (currentKnown inv.lined runs) late creator pid
        rw [old] at ended
        cases ended
      · rw [new] at pid
        exact absurd (base.pid e known) (by rw [← pid]; exact Nat.lt_irrefl _)
  | moves runs moved moves acts edge =>
    rw [acts.created] at young'
    rw [acts.pid] at pid
    rw [acts.pc t other]
    exact lateArrives inv orderly runs moves moved edge late young' other pid
  | creates runs old new => rw [new] at late; cases late
  | created self new => exact absurd known (by rw [self]; exact Nat.lt_irrefl _)

theorem tidyStep (inv : Tidy s) (orderly : Orderly s a) (ok : step s a = .ok s') : Tidy s' where
  tally := tallyStep inv.tally (fun _ runs run => orderlyPermitted orderly runs run) ok
  mains := mainsStep inv.tally.toBase inv.mains ok
  lined := linedStep inv.tally.toBase inv.lined ok
  kin := kinStep inv.tally.toBase inv.kin ok
  final _ := tidyFinal inv orderly ok
  rested _ := tidyRested inv ok
  pages _ := tidyPages inv ok
  reaped _ _ := tidyReaped inv ok
  nodup := tidyNodup inv ok
  absent _ := tidyAbsent inv orderly ok
  enrolled _ := tidyEnrolled inv orderly ok
  visited _ _ _ _ := tidyVisited inv orderly ok
  alone _ _ := tidyAlone inv orderly ok

theorem tidyBoot : Tidy boot where
  tally := tallyBoot
  mains := mainsBoot
  lined := linedBoot
  kin := kinBoot
  final t young := absurd young (Nat.not_lt_zero t)
  rested t young := absurd young (Nat.not_lt_zero t)
  pages t young := absurd young (Nat.not_lt_zero t)
  reaped t u reaps := by cases reaps
  nodup p := List.nodup_nil
  absent t _ := List.not_mem_nil
  enrolled t now := by cases now
  visited e t stage todo here := by cases here
  alone e t young := absurd young (Nat.not_lt_zero e)

theorem runTidy (run : Run step Orderly boot s) : Tidy s :=
  run.invariant Tidy tidyBoot fun _ _ _ inv orderly ok => tidyStep inv orderly ok

end Steps
end Pintos.Userprog
