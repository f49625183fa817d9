import Pintos.Userprog.Levels

/-! What in_kernel_threads and active_threads count. A thread that is being created is
counted before it exists and has in_handler unset until it leaves start_pthread, so the
counter is more than the number of threads in a handler. A page fault in pthread_execute leaves it
too high for good. -/
namespace Pintos.Userprog
open Machine

attribute [local simp] Function.update_apply

namespace Pc

def pending : Pc → Nat
  | .create .execute | .create .failed | .create (.wait none) => 1
  | _ => 0

def decrements : Pc → Bool
  | .leave _ | .create .failed | .tail .free => true
  | _ => false

end Pc

def Thread.starting (th : Thread) : Bool :=
  match th.pc with
  | .start _ => true
  | .leave _ => !th.inHandler
  | _ => false

def inHandlers (s : State) (p : Pid) : Nat :=
  ∑ t ∈ Finset.range s.created, if (s.thread t).pid = p ∧ (s.thread t).pc.ended = false ∧
    (s.thread t).inHandler = true then 1 else 0

def starters (s : State) (p : Pid) : Nat :=
  ∑ t ∈ Finset.range s.created, if (s.thread t).pid = p ∧ (s.thread t).starting = true then 1
    else 0

/- The conditions on a run: process_exit_normal is not entered once the main thread has
called pthread_exit, and thread_create gets its page. -/
def Regular (s : State) (a : Action) : Prop :=
  ∀ c ∈ s.current, (a = .run → (s.thread c).pc.entering = true → (s.proc c).exiting ≠ .main) ∧
    ¬(a = .starve ∧ (s.thread c).pc = .create .execute)

instance (s a) : Decidable (Regular s a) := by
  unfold Regular
  infer_instance

/-- malloc has nothing for init_tcb: pthread_execute writes through a null pointer, and the page
fault in the kernel ends in process_exit_normal(-1). -/
def initTcbFault (s : State) : State :=
  match s.current with
  | none => s
  | some c =>
    if (s.thread c).pc = .create .execute then
      s.setThread c (fun th => {th with nested := [], pc := .exit (.enter (-1))})
    else s

/-- The machine in which malloc can fail (`none`). -/
def mallocStep (s : State) : Option Action → Except Fault State
  | none => .ok (initTcbFault s)
  | some a => step s a

/-- malloc does not fail in a regular run. -/
def Granted (s : State) (a : Option Action) : Prop := ∃ b ∈ a, Regular s b

/-- Thread `u` executes exit_if_exiting between `s` and `s'`. -/
def Left (u : Tid) (s s' : State) : Prop :=
  ∃ m m' flag, Run mallocStep Granted s m ∧ m.current = some u ∧ (m.thread u).pc = .leave flag ∧
    step m .run = .ok m' ∧ Run mallocStep Granted m' s'

/-- Every region that `u` completes is one fewer before exit_if_exiting. -/
def Nears (u : Tid) (s : State) : Prop :=
  0 < (s.thread u).pc.regions ∧ ∀ a s', Granted s a → mallocStep s a = .ok s' →
    (s'.thread u).pc = (s.thread u).pc ∨
    (0 < (s'.thread u).pc.regions ∧ (s'.thread u).pc.regions < (s.thread u).pc.regions) ∨
    s.current = some u ∧ a = some .run ∧ ∃ flag, (s.thread u).pc = .leave flag

structure Occupancy (s : State) : Prop extends Tally s where
  created : ∀ t, (s.thread t).pc ≠ .create (.wait none)

section Steps
variable {s s' : State} {c : Tid}
  {a : Action}

theorem createdStep (inv : Occupancy s) (regular : Regular s a)
    (ok : step s a = .ok s') (t : Tid) : (s'.thread t).pc ≠ .create (.wait none) := by
  cases stepStepped ok with
  | still still => rw [still.pc]; exact inv.created t
  | @acts c runs ok acts edge =>
    by_cases self : t = c
    · subst self
      intro now
      have old := jumpStarves (edgeJumps edge) now
      have starved := starves old now ok
      exact (regular _ runs).2 ⟨starved, old⟩
    · rw [acts.pc t self]; exact inv.created t
  | @creates c runs old now =>
    exact createsEach (P := fun _ th => th.pc ≠ .create (.wait none))
      (creation inv.toBase old now) (by simp) (by simp [newThread])
      (fun u _ _ => inv.created u) t
  | launches launch now =>
    exact launchesEach (P := fun _ th => th.pc ≠ .create (.wait none)) (launched now)
      (by simp [newThread]) (fun u _ => inv.created u) t

theorem occupancyBoot : Occupancy boot := ⟨tallyBoot, by simp [boot]⟩

theorem occupancyStep (inv : Occupancy s) (regular : Regular s a)
    (ok : step s a = .ok s') : Occupancy s' := by
  refine ⟨tallyStep inv.toTally ?_ ok, createdStep inv regular ok⟩
  rintro c runs rfl code old
  exact (regular c runs).1 rfl (by rw [old]; rfl)

theorem mallocOccupancy {a : Option Action} (inv : Occupancy s) (granted : Granted s a)
    (ok : mallocStep s a = .ok s') : Occupancy s' := by
  obtain ⟨b, rfl, regular⟩ := granted
  exact occupancyStep inv regular ok

theorem runOccupancy (run : Run mallocStep Granted boot s) : Occupancy s :=
  run.invariant Occupancy occupancyBoot fun _ _ _ => mallocOccupancy

end Steps

structure Occupied (s : State) : Prop where
  counted : ∀ p, ¬ Over s p → (s.pcb p).inKernelThreads =
    inHandlers s p + starters s p + count Pc.pending s p
  positive : ∀ t, ¬ Over s (s.thread t).pid → (s.thread t).pc.decrements = true →
    0 < (s.proc t).inKernelThreads
  waits : ∀ t, ¬ Over s (s.thread t).pid → (s.thread t).pc = .exit .check →
    1 < (s.proc t).inKernelThreads → ∃ u, u < s.created ∧ u ≠ t ∧
      (s.thread u).pid = (s.thread t).pid ∧
      ∀ s', Run mallocStep Granted s s' → Left u s s' ∨ Nears u s'

section Occupied
variable {s : State} {p : Pid} {t : Tid}

theorem weightParts (inv : Occupancy s) (t : Tid) : (s.thread t).pc.weight =
    (if (s.thread t).pc.ended = false ∧ (s.thread t).inHandler = true then 1 else 0) +
      (if (s.thread t).starting = true then 1 else 0) + (s.thread t).pc.pending := by
  have hand := inv.hand t
  unfold Thread.starting
  cases pc : (s.thread t).pc with
  | leave flag => cases flag <;> cases inHandler : (s.thread t).inHandler <;>
      simp_all [Pc.flag, Pc.ended, Pc.weight, Pc.pending]
  | create stage =>
    cases stage with
    | wait target => cases target <;> simp_all [Pc.flag, Pc.ended, Pc.weight, Pc.pending]
    | _ => simp_all [Pc.flag, Pc.ended, Pc.weight, Pc.pending]
  | _ => simp_all [Pc.flag, Pc.ended, Pc.weight, Pc.pending]

theorem occupancyCounted (inv : Occupancy s) (running : ¬ Over s p) :
    (s.pcb p).inKernelThreads = inHandlers s p + starters s p + count Pc.pending s p := by
  rw [inv.kernel p running]
  unfold count inHandlers starters
  rw [← Finset.sum_add_distrib, ← Finset.sum_add_distrib]
  refine Finset.sum_congr rfl fun t _ => ?_
  by_cases mine : (s.thread t).pid = p
  · simp [share, mine, weightParts inv t]
  · simp [share, mine]

theorem countedRegions (inv : Occupancy s) (counted : 0 < (s.thread t).pc.weight)
    (open_ : (s.thread t).pc.closing = false) : 0 < (s.thread t).pc.regions := by
  have created := inv.created t
  cases pc : (s.thread t).pc with
  | create stage =>
    cases stage with
    | wait target => cases target <;> simp_all [Pc.regions]
    | _ => simp [Pc.regions]
  | work stage | start stage | join stage => cases stage <;> simp [Pc.regions]
  | exit stage | main stage => cases stage <;> simp_all [Pc.regions, Pc.closing]
  | _ => simp_all [Pc.regions, Pc.closing, Pc.weight]

theorem followsNears {stage next : Join} (follows : stage.follows next = true) :
    0 < (Pc.join next).regions ∧ (Pc.join next).regions < (Pc.join stage).regions := by
  cases stage <;> cases next <;> first | cases follows; done | simp [Pc.regions]

theorem plainNears {old new : Pc} (moves : old.plain new = true) (counted : 0 < old.regions)
    (created : new ≠ .create (.wait none)) : 0 < new.regions ∧ new.regions < old.regions := by
  unfold Pc.plain at moves
  split at moves <;> try (simp_all [Pc.regions]; done)
  all_goals
    rename_i stage
    first
    | exact ⟨by cases stage <;> simp [Pc.regions], of_decide_eq_true moves⟩
    | exact followsNears moves
    | cases stage <;> simp [Pc.regions]

/-- The process exits, so what the thread does in the kernel leads to exit_if_exiting. -/
theorem edgeNears {s' : State} (edge : Edge t s s') (level : (s.proc t).exiting = .normal)
    (counted : 0 < (s.thread t).pc.regions) (created : (s'.thread t).pc ≠ .create (.wait none)) :
    (0 < (s'.thread t).pc.regions ∧ (s'.thread t).pc.regions < (s.thread t).pc.regions) ∨
      ∃ flag, (s.thread t).pc = .leave flag := by
  cases edge with
  | plain moves => exact .inl (plainNears moves counted created)
  | leave old => exact .inr ⟨_, old⟩
  | fault old new => rcases old with old | old <;> simp [old, new, Pc.regions]
  | exitFirst old new here | exitMain old new here | mainFirst old new here =>
    cases level.symm.trans here
  | gone old =>
    rcases old with old | old | ⟨old, -⟩
    · simp [old, Pc.regions] at counted
    · simp [old, Pc.regions] at counted
    · exact .inr old
  | count old new | failed old new | exitLater old new | mainLater old new =>
    simp [old, new, Pc.regions]
  | trap old | ends old | mainLoop old => simp [old, Pc.regions] at counted

theorem occupancyNears (inv : Occupancy s) (level : (s.proc t).exiting = .normal)
    (counted : 0 < (s.thread t).pc.regions) : Nears t s := by
  refine ⟨counted, ?_⟩
  rintro a s' granted ok
  have created := (mallocOccupancy inv granted ok).created t
  obtain ⟨b, rfl, -⟩ := granted
  cases stepArrives inv.toBase ok t with
  | stays same => exact .inl same
  | moves runs moved ok _ edge =>
    refine .inr ((edgeNears edge level counted created).imp_right fun ⟨flag, old⟩ => ?_)
    exact ⟨runs, congrArg some (movedRuns ok moved (by rw [old]; rfl)).1, flag, old⟩
  | creates runs old new => exact .inr (.inl (by simp [old, new, Pc.regions]))
  | created self new =>
    have absent := inv.fresh t (Nat.le_of_eq self.symm)
    simp [absent, Pc.regions] at counted

theorem nearsRun {s' : State} (inv : Occupancy s) (known : t < s.created)
    (level : (s.proc t).exiting = .normal) (counted : 0 < (s.thread t).pc.regions)
    (run : Run mallocStep Granted s s') : Left t s s' ∨ Nears t s' := by
  suffices kept : Left t s s' ∨ Occupancy s' ∧ t < s'.created ∧ (s'.proc t).exiting = .normal ∧
      0 < (s'.thread t).pc.regions from
    kept.imp_right fun ⟨inv, _, level, counted⟩ => occupancyNears inv level counted
  induction run with
  | start => exact .inr ⟨inv, known, level, counted⟩
  | @more u v a before granted ok ih =>
    rcases ih with ⟨m, m', flag, first, runs, here, leaves, rest⟩ | ⟨inv, known, level, counted⟩
    · exact .inl ⟨m, m', flag, first, runs, here, leaves, rest.more granted ok⟩
    have base := inv.toBase
    have next := mallocOccupancy inv granted ok
    have nears := (occupancyNears inv level counted).2 a v granted ok
    obtain ⟨b, rfl, regular⟩ := granted
    have stays : t < v.created ∧ (v.proc t).exiting = .normal := by
      obtain ⟨grows, pid⟩ := stepPid base ok
      refine ⟨Nat.lt_of_lt_of_le known grows, ?_⟩
      rw [State.proc, pid t known]
      rcases stepLevel base ok (u.thread t).pid with same | none
      · exact same.trans level
      · cases level.symm.trans none
    rcases nears with same | nearer | ⟨runs, now, flag, here⟩
    · exact .inr ⟨next, stays.1, stays.2, by rw [same]; exact counted⟩
    · exact .inr ⟨next, stays.1, stays.2, nearer.1⟩
    · cases now
      exact .inl ⟨u, v, flag, before, runs, here, ok, .start⟩

theorem occupancyWaits (inv : Occupancy s) (running : ¬ Over s (s.thread t).pid)
    (here : (s.thread t).pc = .exit .check) (more : 1 < (s.proc t).inKernelThreads) :
    ∃ u, u < s.created ∧ u ≠ t ∧ (s.thread u).pid = (s.thread t).pid ∧
      ∀ s', Run mallocStep Granted s s' → Left u s s' ∨ Nears u s' := by
  obtain ⟨marked, _, normal⟩ := inv.closing t (by rw [here]; rfl)
  have weight : ∑ u ∈ {t}, share Pc.weight s (s.thread t).pid u = 1 := by
    simp [share, here, Pc.weight]
  unfold State.proc at more
  rw [inv.kernel _ running, ← weight] at more
  obtain ⟨u, young, other, counted⟩ := Count.sumOutside more
  have apart : u ≠ t := by simpa using other
  unfold share at counted
  split at counted
  · rename_i mine
    have level : (s.proc u).exiting = .normal := by
      rw [State.proc, mine]
      exact normal .normal (by rw [here]; rfl)
    refine ⟨u, young, apart, mine, fun s' => nearsRun inv young level (countedRegions inv counted ?_)⟩
    -- two threads do not close the same process
    cases closes : (s.thread u).pc.closing with
    | false => rfl
    | true =>
      have marked' := (inv.closing u closes).1
      unfold State.proc at marked marked'
      rw [mine, marked] at marked'
      exact absurd (Option.some.inj marked').symm apart
  · contradiction

theorem occupancyOccupied (inv : Occupancy s) : Occupied s := by
  refine ⟨fun p running => occupancyCounted inv running, ?_, fun t running here more =>
    occupancyWaits inv running here more⟩
  intro t running decrements
  have alive : (s.thread t).pc.ended = false ∧ 0 < (s.thread t).pc.weight := by
    revert decrements
    cases (s.thread t).pc with
    | create stage => cases stage <;> simp [Pc.decrements, Pc.ended, Pc.weight]
    | _ => simp [Pc.decrements, Pc.ended, Pc.weight]
  exact Nat.lt_of_lt_of_le alive.2 (sharesLe inv.toTally running alive.1).1

end Occupied

section Runs

instance (s p) : Decidable (Over s p) := by
  unfold Over
  infer_instance

instance (s a) : Decidable (Granted s a) := by
  unfold Granted
  infer_instance

end Runs
end Pintos.Userprog
