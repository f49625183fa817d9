import Pintos.Userprog.Joiners

/-! Whom exit_if_exiting wakes. The thread that closes the process tests in_kernel_threads,
or active_threads, and blocks; whoever is the last to leave wakes it. The test is not in the
critical section in which the exit level was raised, so the last one may leave before it. -/
namespace Pintos.Userprog
open Machine

attribute [local simp] Function.update_apply

def Pc.tested : Pc → Bool
  | .exit .assert | .clean | .tail _ | .gone => true
  | _ => false

def Asleep (s : State) (e : Tid) : Prop :=
  (s.thread e).pc = .exit .assert ∧ (s.thread e).status = .blocked

def Passed (s : State) (e : Tid) : Prop := (s.thread e).pc.tested = true ∧ ¬ Asleep s e

instance (s e) : Decidable (Asleep s e) := by
  unfold Asleep; infer_instance

instance (s e) : Decidable (Passed s e) := by
  unfold Passed; infer_instance

/- process_exit_normal is not entered after the main thread's pthread_exit, the last thread
that leaves the kernel does so when thread_exiting has made its test, and nobody enters the
kernel once thread_exiting has passed it. -/
def PromptAt (s : State) (c : Tid) : Pc → Prop
  | .exit (.enter _) => (s.proc c).exiting ≠ .main
  | .leave _ => (s.proc c).exiting = .normal → decrement (s.proc c).inKernelThreads = 1 →
    ∀ e ∈ (s.proc c).threadExiting, (s.thread e).pc.tested = true
  | .trap _ => (s.proc c).exiting = .normal → ∀ e ∈ (s.proc c).threadExiting, ¬ Passed s e
  | _ => True

def Prompt (s : State) : Action → Prop
  | .run => ∀ c ∈ s.current, PromptAt s c (s.thread c).pc
  | _ => True

def OthersPass (s : State) (m : Tid) : Prop :=
  ∀ u, u < s.created → (s.thread u).pid = (s.thread m).pid → u ≠ m →
    (s.thread u).pc.ended = true ∨ (s.thread u).pc = .pthreadExit

structure Wakeful (s : State) : Prop where
  tally : Tally s
  mains : Mains s
  lined : Lined s.sched
  kin : Kin s
  final : ∀ t, t < s.created → (s.proc t).exiting = .none → s.sched.Ended t →
    (s.thread t).pc.ended = true
  unloaded : ∀ t u, t < s.created → u < s.created → (s.thread t).pc = .gone →
    (s.proc t).exiting = .none → (s.thread u).pid = (s.thread t).pid → (s.thread u).pc.ended = true
  closed : ∀ t, t < s.created → (s.thread t).pc = .gone → (s.proc t).exiting = .normal →
    (s.proc t).threadExiting = some t
  bare : ∀ t, (s.thread t).pc = .exit .assert ∨ (s.thread t).pc = .main .wait →
    (s.thread t).status = .blocked → s.sched.Bare t
  settled : ∀ t f, (s.thread t).pc.chosen = some f → f.blockWait = false →
    (s.proc t).exiting = .none → (s.thread f.pos).pc.ended = true
  waits : ∀ t j, (s.thread t).joinedBy = some j → (s.thread t).pc.ended = false →
    (s.proc t).exiting = .none → Waits s j t
  apart : ∀ t j, (s.thread t).joinedBy = some j → (s.thread t).pc.ended = false →
    (s.proc t).exiting ≠ .none → (s.proc t).threadExiting ≠ some j
  passed : ∀ e u, (s.proc e).exiting = .normal → (s.proc e).threadExiting = some e → Passed s e →
    u < s.created → u ≠ e → (s.thread u).pid = (s.thread e).pid → (s.thread u).pc.weight = 0
  main : ∀ m, (s.proc m).exiting = .main → (s.proc m).mainThread = m →
    (s.thread m).pc = .main .wait ∧ (s.thread m).status = .blocked ∨ OthersPass s m

section Steps
variable {s s' : State} {a : Action} {c e t u j m : Tid}
  {flag : Bool}

theorem promptPermitted (prompt : Prompt s a) (runs : s.current = some c) (run : a = .run) :
    Permitted c s := by
  intro code here
  subst run
  have allowed := prompt c runs
  rw [here] at allowed
  exact allowed

section
variable (inv : Wakeful s)
include inv

theorem visitorMarked {list : List Tid}
    (here : (s.thread c).pc = .exit (.visit list)) (inside : t ∈ list) :
    (s.proc t).exiting = .normal ∧ (s.proc t).threadExiting = some c ∧
      (s.thread t).pid = (s.thread c).pid := by
  obtain ⟨marked, _, level⟩ := inv.tally.closing c (by rw [here]; rfl)
  have pid := (inv.kin.visits c list t here inside).2
  unfold State.proc
  rw [pid]
  exact ⟨level _ (by rw [here]; rfl), marked, rfl⟩

theorem mainPid (known : c < s.created) :
    (s.thread (s.proc c).mainThread).pid = (s.thread c).pid := by
  rw [inv.mains.main c known]
  exact inv.mains.home c known

theorem zombifyLevel (inside : Op.zombify t ∈ ops s a) :
    (s.proc t).exiting ≠ .none := by
  cases opsReason inside with
  | @zombify c t runs run plain why =>
    have known := currentKnown inv.lined runs
    cases why with
    | visit here outside =>
      rw [(visitorMarked inv here List.mem_cons_self).1]; simp
    | main here level =>
      unfold State.proc at level ⊢
      have pid := mainPid inv known
      unfold State.proc at pid
      rw [pid, level]
      simp

theorem finalStep (ok : step s a = .ok s') (young : t < s'.created)
    (level : (s'.proc t).exiting = .none) (ended : s'.sched.Ended t) :
    (s'.thread t).pc.ended = true := by
  have base := inv.tally.toBase
  by_cases known : t < s.created
  · have none : (s.proc t).exiting = .none := by
      unfold State.proc at level
      rw [(stepPid base ok).2 t known] at level
      exact levelBefore base ok level
    rcases endedSince (stepPerforms base ok) ended with before | zombify | zombie | die
    · exact endedStays base ok known (inv.final t known none before)
    · exact absurd none (zombifyLevel inv zombify)
    · exact opEnds base ok (.inl zombie)
    · exact opEnds base ok (.inr die)
  · obtain ⟨c, _, _, new⟩ | new := newKnown base ok known young <;>
      simp [Sched.Ended, State.sched, new, newThread] at ended

theorem procBefore (ok : step s a = .ok s') (known : t < s.created) :
    s'.proc t = s'.pcb (s.thread t).pid := by
  unfold State.proc
  rw [(stepPid inv.tally.toBase ok).2 t known]

theorem goneKnown (ok : step s a = .ok s') (young : t < s'.created)
    (gone : (s'.thread t).pc = .gone) : t < s.created := by
  by_contra late
  obtain ⟨c, _, _, new⟩ | new := newKnown inv.tally.toBase ok late young <;>
    simp [new, newThread] at gone

theorem unloadedStep (ok : step s a = .ok s') (young : t < s'.created)
    (young' : u < s'.created) (gone : (s'.thread t).pc = .gone)
    (level : (s'.proc t).exiting = .none) (pid : (s'.thread u).pid = (s'.thread t).pid) :
    (s'.thread u).pc.ended = true := by
  have base := inv.tally.toBase
  have known := goneKnown inv ok young gone
  have pids := (stepPid base ok).2
  have none : (s.proc t).exiting = .none := by
    rw [procBefore inv ok known] at level
    exact levelBefore base ok level
  rw [pids t known] at pid
  have before : (s.thread t).pc = .gone → (s'.thread u).pc.ended = true := by
    intro old
    by_cases known' : u < s.created
    · rw [pids u known'] at pid
      exact endedStays base ok known' (inv.unloaded t u known known' old none pid)
    · obtain ⟨c, runs, here, new⟩ | new := newKnown base ok known' young'
      · rw [new] at pid
        have ended := inv.unloaded t c known (currentKnown inv.lined runs) old none pid
        rw [here] at ended
        cases ended
      · rw [new] at pid
        exact absurd (pid.symm ▸ base.pid t known) (Nat.lt_irrefl _)
  cases stepArrives base ok t with
  | stays same => exact before (same ▸ gone)
  | creates runs old new => rw [gone] at new; cases new
  | created self => exact absurd self (Nat.ne_of_lt known)
  | moves runs moved ok acts edge =>
    rcases jumpGone (edgeJumps edge) gone with loads | tail | exception
    · -- nobody else has been there
      rw [acts.created] at young'
      rw [acts.pid] at pid
      rw [inv.mains.alone t u (by rw [loads]; rfl) young' pid, gone]
      rfl
    · exact absurd none (inv.tally.closing t (by rw [tail]; rfl)).2.1
    · exact absurd exception (base.known _)

theorem closedStep (ok : step s a = .ok s') (young : t < s'.created)
    (gone : (s'.thread t).pc = .gone) (level : (s'.proc t).exiting = .normal) :
    (s'.proc t).threadExiting = some t := by
  have base := inv.tally.toBase
  have known := goneKnown inv ok young gone
  rw [procBefore inv ok known] at level ⊢
  -- either it had been destroyed before, or it is the running thread
  have cases : (s.thread t).pc = .gone ∨ s.current = some t ∧
      ((s.thread t).pc = .load (.up false) ∨ (s.thread t).pc = .tail .free) := by
    cases stepArrives base ok t with
    | stays same => exact .inl (same ▸ gone)
    | creates runs old new => rw [gone] at new; cases new
    | created self => exact absurd self (Nat.ne_of_lt known)
    | moves runs moved ok acts edge =>
      refine .inr ⟨runs, ?_⟩
      rcases jumpGone (edgeJumps edge) gone with loads | tail | exception
      · exact .inl loads
      · exact .inr tail
      · exact absurd exception (base.known _)
  cases stepRaises ok (s.thread t).pid with
  | same exiting threadExiting =>
    rw [exiting] at level
    rw [threadExiting]
    rcases cases with old | ⟨_, loads | tail⟩
    · exact inv.closed t known old level
    · -- a process that is loading is not exiting
      obtain ⟨e, _, young, pid, closes⟩ := inv.kin.marked (s.thread t).pid (by rw [level]; simp)
      rw [inv.mains.alone t e (by rw [loads]; rfl) young pid, loads] at closes
      simp [Pc.closing] at closes
    · exact (inv.tally.closing t (by rw [tail]; rfl)).1
  | fresh self none => rw [none] at level; cases level
  | normal runs pid here new none =>
    rcases cases with old | ⟨runs', loads | tail⟩
    · have ended := inv.unloaded t _ known (currentKnown inv.lined runs) old none pid
      rw [here] at ended
      cases ended
    · rw [runs'] at runs
      cases runs
      rw [here] at loads
      cases loads
    · rw [runs'] at runs
      cases runs
      rw [here] at tail
      cases tail
  | main runs pid here new blocks none exiting => rw [exiting] at level; cases level

theorem bareStep (ok : step s a = .ok s')
    (here : (s'.thread t).pc = .exit .assert ∨ (s'.thread t).pc = .main .wait)
    (blocked : (s'.thread t).status = .blocked) : s'.sched.Bare t := by
  have base := inv.tally.toBase
  refine ⟨blocked, ?_⟩
  rcases blockedSince (stepPerforms base ok) inv.lined blocked with
    ⟨before, same⟩ | ⟨_, free⟩ | sleeps
  · have idle : s.current ≠ some t := by
      intro runs
      have running := (inv.lined.running t runs).1
      rw [before] at running
      cases running
    rw [same]
    cases stepArrives base ok t with
    | stays same => exact (inv.bare t (same ▸ here) before).2
    | moves runs | creates runs => exact absurd runs idle
    | created self new => rcases new with new | new <;> rw [new] at here <;> simp at here
  · exact free
  · cases opsReason sleeps with
    | sleep runs inside =>
      exfalso
      cases stepArrives base ok t with
      | stays same =>
        rw [same] at here
        rcases here with here | here <;> rw [here] at inside <;> cases inside
      | moves _ moved ok acts edge =>
        rcases here with here | here
        · rw [(assertArrives ok edge moved here).1] at inside
          cases inside
        · obtain ⟨_, stage, old, _⟩ := jumpWaits (edgeJumps edge) here
          rw [old] at inside
          cases inside
      | creates _ old new => rw [new] at here; simp at here
      | created self => exact absurd self (Nat.ne_of_lt (currentKnown inv.lined runs))

theorem settledStep (ok : step s a = .ok s') {f : Target}
    (chosen : (s'.thread t).pc.chosen = some f) (block : f.blockWait = false)
    (level : (s'.proc t).exiting = .none) : (s'.thread f.pos).pc.ended = true := by
  have base := inv.tally.toBase
  obtain ⟨known, chosen⟩ := chosenStep base ok chosen
  have none : (s.proc t).exiting = .none := by
    rw [procBefore inv ok known] at level
    exact levelBefore base ok level
  rcases chosen with old | ⟨tid, scans⟩
  · exact endedStays base ok (inv.kin.chosen t f old).1 (inv.settled t f old block none)
  · obtain ⟨young, pid⟩ := scanTarget inv.kin scans
    refine endedStays base ok young (inv.final f.pos young ?_ ?_)
    · unfold State.proc at none ⊢
      rw [pid]
      exact none
    · rw [scanFound scans] at block ⊢
      simpa [Sched.Ended, State.sched, or_iff_not_imp_left] using block

theorem waitsKept (prompt : Prompt s a) (ok : step s a = .ok s')
    (joined : (s.thread t).joinedBy = some j) (waits : Waits s j t)
    (alive : (s'.thread t).pc.ended = false) (level : (s'.pcb (s.thread t).pid).exiting = .none) :
    Waits s' j t := by
  have base := inv.tally.toBase
  obtain ⟨known, _, pid⟩ := inv.kin.joined t j joined
  refine waitsStep base inv.lined inv.kin ok waits fun u inside => ?_
  cases opsReason inside with
  | unblock runs run plain why => cases why
  | joiner called other =>
    obtain ⟨_, _, pid'⟩ := inv.kin.joined u j other
    have none : (s.proc u).exiting = .none := by
      unfold State.proc
      rw [← pid', pid]
      exact levelBefore base ok level
    obtain ⟨c, runs, rfl, plain, ⟨rfl, ending⟩ | ⟨⟨todo, here⟩, _⟩⟩ := callsWhere called
    · -- the joiner waits for one thread only, which ends now or raises the level
      obtain ⟨⟨f, here, target⟩, _⟩ := inv.waits c j other (endingOpen ending).1 none
      obtain ⟨⟨f', here', target'⟩, _⟩ := waits
      rw [here] at here'
      cases here'
      have self : c = t := target.symm.trans target'
      subst self
      rcases endingMoves base runs plain ending ok (fun _ _ => by rw [none]; simp) with
        ended | closes
      · rw [ended] at alive; cases alive
      · have tally := tallyStep inv.tally (fun c runs run => promptPermitted prompt runs run) ok
        have raised := (tally.closing c closes).2.1
        rw [procBefore inv ok known] at raised
        exact raised level
    · rw [(visitorMarked inv here List.mem_cons_self).1] at none
      cases none

theorem joinedWaitsStep (prompt : Prompt s a) (ok : step s a = .ok s')
    (joined : (s'.thread t).joinedBy = some j) (alive : (s'.thread t).pc.ended = false)
    (level : (s'.proc t).exiting = .none) : Waits s' j t := by
  have base := inv.tally.toBase
  rcases stepJoinedBy base ok t with
    same | ⟨c, f, runs, run, plain, here, set, rfl, recorded⟩ | ⟨_, none⟩
  · rw [joined] at same
    obtain ⟨known, _, _⟩ := inv.kin.joined t j same.symm
    rw [procBefore inv ok known] at level
    have before := aliveBefore base ok known alive
    exact waitsKept inv prompt ok same.symm (inv.waits t j same.symm before
      (levelBefore base ok level)) alive level
  · rw [recorded] at joined
    cases joined
    obtain ⟨known, pid⟩ := inv.kin.chosen j f (by rw [here]; rfl)
    have none : (s.proc j).exiting = .none := by
      rw [procBefore inv ok known, pid] at level
      exact levelBefore base ok level
    refine joinSetWaits inv.lined runs set ⟨?_, .inl (by rw [none]; simp)⟩
    by_contra block
    rw [endedStays base ok known (inv.settled j f (by rw [here]; rfl) (by simpa using block) none)]
      at alive
    cases alive
  · rw [none] at joined
    cases joined

theorem apartStep (ok : step s a = .ok s')
    (joined : (s'.thread t).joinedBy = some j) (alive : (s'.thread t).pc.ended = false)
    (level : (s'.proc t).exiting ≠ .none) : (s'.proc t).threadExiting ≠ some j := by
  have base := inv.tally.toBase
  rcases stepJoinedBy base ok t with
    same | ⟨c, f, runs, run, plain, here, set, rfl, recorded⟩ | ⟨_, none⟩
  · rw [joined] at same
    obtain ⟨known, _, _⟩ := inv.kin.joined t j same.symm
    have before := aliveBefore base ok known alive
    rw [procBefore inv ok known] at level ⊢
    cases stepRaises ok (s.thread t).pid with
    | same exiting threadExiting =>
      rw [threadExiting]
      exact inv.apart t j same.symm before (exiting ▸ level)
    | fresh self none => exact absurd none level
    | normal runs pid old new none exiting marked
    | main runs pid old new blocks none exiting marked =>
      rw [marked]
      intro self
      cases self
      obtain ⟨⟨f, here, _⟩, _⟩ := inv.waits t j same.symm before none
      rw [here] at old
      cases old
  · -- the thread that closes the process is not in pthread_join
    rw [recorded] at joined
    cases joined
    obtain ⟨known, pid⟩ := inv.kin.chosen j f (by rw [here]; rfl)
    rw [procBefore inv ok known] at level ⊢
    intro marked
    have kin := (kinStep base inv.kin ok).marked _ level
    obtain ⟨e, same, _, _, closes⟩ := kin
    rw [marked] at same
    cases same
    have now : (s'.thread j).pc = .join (.relock f) := by
      unfold joinSet at set
      split at set <;> try contradiction
      cases set
      split <;> simp [threadBlock]
    rw [now] at closes
    simp [Pc.closing] at closes
  · rw [none] at joined
    cases joined
end

theorem normalRunning (inv : Wakeful s) (level : (s.proc e).exiting = .normal)
    (marked : (s.proc e).threadExiting = some e) (alive : (s.thread e).pc ≠ .gone) :
    ¬ Over s (s.thread e).pid := by
  rintro ⟨t, young, pid, gone⟩
  have same := inv.closed t young gone (by unfold State.proc; rw [pid]; exact level)
  unfold State.proc at same marked
  rw [pid, marked] at same
  exact alive (Option.some.inj same ▸ gone)

theorem lastLeaves (inv : Wakeful s) (runs : s.current = some c) (here : (s.thread c).pc.weight = 1)
    (level : (s.proc e).exiting = .normal) (marked : (s.proc e).threadExiting = some e)
    (asleep : Asleep s e) (pid : (s.thread c).pid = (s.thread e).pid) (apart : c ≠ e)
    (last : decrement (s.proc c).inKernelThreads = 1) (young : u < s.created) (other : u ≠ e)
    (other' : u ≠ c) (same : (s.thread u).pid = (s.thread e).pid) :
    (s.thread u).pc.weight = 0 := by
  have running := normalRunning inv level marked (by rw [asleep.1]; simp)
  have known := currentKnown inv.lined runs
  have known' := aliveKnown inv.tally.toBase (c := e) (by rw [asleep.1]; rfl)
  have two : (s.pcb (s.thread e).pid).inKernelThreads = 2 := by
    unfold State.proc at last
    rw [pid] at last
    unfold decrement at last
    split at last <;> omega
  refine othersIdle (s.thread e).pid {c, e} ?_ ?_ ?_ young same
  · rw [← inv.tally.kernel _ running, two, Finset.sum_pair apart]
    simp only [share, pid, if_true, here, asleep.1]
    exact Nat.le_refl 2
  · simp only [Finset.mem_insert, Finset.mem_singleton]
    rintro i (rfl | rfl)
    · exact known
    · exact known'
  · simp [other, other']

theorem asleepWoken (inv : Wakeful s) (ok : step s a = .ok s')
    (level : (s.proc e).exiting = .normal) (marked : (s.proc e).threadExiting = some e)
    (asleep : Asleep s e) (woken : ¬ Asleep s' e) : ∃ c, s.current = some c ∧ a = .run ∧
      (s.thread c).nested = [] ∧ Unblocks s c e .exiter := by
  have base := inv.tally.toBase
  have bare := inv.bare e (.inl asleep.1) asleep.2
  have idle : s.current ≠ some e := bareIdle inv.lined bare
  by_contra none
  refine woken ⟨?_, (bareKeeps (stepPerforms base ok) inv.lined bare ?_ ?_).1⟩
  · rw [bareStays base ok inv.lined bare]
    exact asleep.1
  · intro on inside
    cases opsReason inside with
    | joiner called joined =>
      obtain ⟨_, _, pid⟩ := inv.kin.joined _ e joined
      obtain ⟨c, runs, rfl, plain, ⟨rfl, ending⟩ | ⟨⟨todo, here⟩, _⟩⟩ := callsWhere called
      · unfold State.proc at level marked
        rw [pid] at level marked
        exact inv.apart c e joined (endingOpen ending).1 (by unfold State.proc; rw [level]; simp)
          marked
      · -- only the exiter itself traverses the list
        obtain ⟨_, marked', _⟩ := visitorMarked inv here List.mem_cons_self
        unfold State.proc at marked marked'
        rw [pid, marked'] at marked
        cases marked
        exact absurd runs idle
    | unblock runs run plain why =>
      cases why with
      | exiter here level' last marked' => exact none ⟨_, runs, run, plain, .exiter here level' last marked'⟩
      | main here level' last =>
        have pid := mainPid inv (currentKnown inv.lined runs)
        unfold State.proc at level level' pid
        rw [pid, level'] at level
        cases level
  · intro inside
    cases opsReason inside with
    | zombify runs run plain why =>
      cases why with
      | visit here outside =>
        have hand := base.hand e true (by rw [asleep.1]; rfl)
        rw [hand] at outside
        cases outside
      | main here level' =>
        have pid := mainPid inv (currentKnown inv.lined runs)
        unfold State.proc at level level' pid
        rw [pid, level'] at level
        cases level

theorem idleStep (inv : Wakeful s) (prompt : Prompt s a) (ok : step s a = .ok s')
    (level : (s.proc e).exiting = .normal) (marked : (s.proc e).threadExiting = some e)
    (passed : Passed s e) (known : e < s.created) (young : u < s'.created) (other : u ≠ e)
    (pid : (s'.thread u).pid = (s.thread e).pid) : (s'.thread u).pc.weight = 0 := by
  have base := inv.tally.toBase
  by_cases older : u < s.created
  · rw [(stepPid base ok).2 u older] at pid
    have zero := inv.passed e u level marked passed older other pid
    cases stepArrives base ok u with
    | stays same => rw [same]; exact zero
    | creates runs old new => rw [old] at zero; cases zero
    | created self => exact absurd self (Nat.ne_of_lt older)
    | moves runs moved ok acts edge =>
      rcases jumpWeight (edgeJumps edge) zero with zero | ⟨k, old⟩
      · exact zero
      · obtain ⟨rfl, _, _⟩ := movedRuns ok moved (by rw [old]; rfl)
        have allowed := prompt u runs
        unfold State.proc at level marked
        rw [old] at allowed
        unfold PromptAt State.proc at allowed
        rw [pid] at allowed
        exact absurd passed (allowed level e marked)
  · obtain ⟨c, runs, here, new⟩ | new := newKnown base ok older young
    · -- its creator is in the kernel
      rw [new] at pid
      have apart : c ≠ e := by
        rintro rfl
        have tested := passed.1
        rw [here] at tested
        cases tested
      have zero := inv.passed e c level marked passed (currentKnown inv.lined runs) apart pid
      rw [here] at zero
      cases zero
    · rw [new]
      rfl

theorem jumpTested {main : Prop} (jump : Jump main level active old new)
    (before : old.tested = false) (after : new.tested = true) :
    new = .exit .assert ∨ old = .main .assert ∨ old = .load (.up false) ∨ level = .exception := by
  cases jump with
  | @exit stage next => cases next <;> simp_all [Pc.tested]
  | mainAsserted => exact .inr (.inl rfl)
  | unloaded => exact .inr (.inr (.inl rfl))
  | dies exception => exact .inr (.inr (.inr exception))
  | asserted | cleans | cleaned | tail | freed => cases before
  | _ => cases after

theorem testedArrives (inv : Wakeful s) (ok : step s a = .ok s') (known : e < s.created)
    (level : (s.proc e).exiting = .normal) (marked : (s.proc e).threadExiting = some e)
    (before : (s.thread e).pc.tested = false) (after : (s'.thread e).pc.tested = true) :
    (s.thread e).pc = .exit .check ∧ processExitNormal s e .check = .ok s' ∧ Acts e s s' := by
  have base := inv.tally.toBase
  have closes := (markedThread inv.kin level (by simp) marked).2.2
  cases stepArrives base ok e with
  | stays same => rw [same, before] at after; cases after
  | creates runs old new => rw [new] at after; cases after
  | created self => exact absurd self (Nat.ne_of_lt known)
  | moves runs moved ok acts edge =>
    rcases jumpTested (edgeJumps edge) before after with asserts | main | load | exception
    · obtain ⟨old, ok⟩ := assertArrives ok edge moved asserts
      exact ⟨old, ok, acts⟩
    · have same := (inv.tally.closing e (by rw [main]; rfl)).2.2 .main (by rw [main]; rfl)
      rw [level] at same
      cases same
    · rw [load] at closes
      simp [Pc.closing] at closes
    · rw [level] at exception
      cases exception

theorem leavePasses (ok : exitIfExiting s c flag = .ok s')
    (level : (s.proc c).exiting = .normal ∨ (s.proc c).exiting = .main ∧ flag = true) :
    (s'.thread c).pc = .pthreadExit := by
  have same : (((s.setProc c fun p => {p with
      inKernelThreads := decrement p.inKernelThreads}).setThread c
        fun th => {th with inHandler := false}).proc c).exiting = (s.proc c).exiting := by simp
  unfold exitIfExiting at ok
  simp only [same] at ok
  rcases level with level | ⟨level, rfl⟩
  · simp only [level] at ok
    split at ok
    · split at ok <;> try contradiction
      obtain ⟨v, _, ok⟩ := bindOk.mp ok
      cases ok
      simp
    · cases ok
      simp
  · simp only [level, true_and, if_true] at ok
    split at ok
    · obtain ⟨v, _, ok⟩ := bindOk.mp ok
      cases ok
      simp
    · cases ok
      simp

theorem leaveActs (inv : Wakeful s) (ok : step s .run = .ok s')
    (runs : s.current = some c) (plain : (s.thread c).nested = [])
    (here : (s.thread c).pc = .leave flag)
    (level : (s.proc c).exiting = .normal ∨ (s.proc c).exiting = .main ∧ flag = true) :
    (s'.thread c).pc = .pthreadExit ∧ Acts c s s' := by
  have ran := ok
  simp only [step, runs, stepCurrent, plain, if_true, here, runPc] at ran
  have now := leavePasses ran level
  refine ⟨now, ?_⟩
  cases stepArrives inv.tally.toBase ok c with
  | stays same => rw [now, here] at same; cases same
  | moves runs moved ok acts edge => exact acts
  | creates runs old => rw [here] at old; cases old
  | created self => exact absurd self (Nat.ne_of_lt (currentKnown inv.lined runs))

theorem passedStep (inv : Wakeful s) (prompt : Prompt s a) (ok : step s a = .ok s')
    (level : (s'.proc e).exiting = .normal) (marked : (s'.proc e).threadExiting = some e)
    (passed : Passed s' e) (young : u < s'.created) (other : u ≠ e)
    (pid : (s'.thread u).pid = (s'.thread e).pid) : (s'.thread u).pc.weight = 0 := by
  have base := inv.tally.toBase
  have pids := (stepPid base ok).2
  have known : e < s.created := by
    obtain ⟨young, _⟩ := markedThread (kinStep base inv.kin ok) level (by simp) marked
    by_contra late
    have tested := passed.1
    obtain ⟨c, _, _, new⟩ | new := newKnown base ok late young <;>
      rw [new] at tested <;> cases tested
  rw [procBefore inv ok known] at level marked
  rw [pids e known] at pid
  cases stepRaises ok (s.thread e).pid with
  | fresh self none => rw [none] at level; cases level
  | main runs pid old new blocks none exiting => rw [exiting] at level; cases level
  | normal runs pid old new none exiting marked' =>
    rw [marked'] at marked
    cases marked
    have tested := passed.1
    rw [new] at tested
    cases tested
  | same exiting threadExiting =>
    rw [exiting] at level
    rw [threadExiting] at marked
    by_cases before : Passed s e
    · exact idleStep inv prompt ok level marked before known young other pid
    by_cases tested : (s.thread e).pc.tested = true
    · -- the last thread that leaves the kernel wakes it
      have asleep : Asleep s e := by
        by_contra awake
        exact before ⟨tested, awake⟩
      obtain ⟨c, runs, run, plain, why⟩ := asleepWoken inv ok level marked asleep passed.2
      cases why with
      | @exiter e flag here level' last marked' =>
        subst run
        have same := (markedThread inv.kin level' (by simp) marked').2.1.symm
        have apart : c ≠ e := by
          rintro rfl
          rw [here] at tested
          cases tested
        obtain ⟨now, acts⟩ := leaveActs inv ok runs plain here (.inl level')
        rw [acts.created] at young
        rw [acts.pid] at pid
        by_cases self : u = c
        · rw [self, now]; rfl
        · rw [acts.pc u self]
          exact lastLeaves inv runs (by rw [here]; rfl) level marked asleep same apart last young
            other self pid
    · obtain ⟨old, ran, acts⟩ := testedArrives inv ok known level marked
        (Bool.eq_false_iff.mpr tested) passed.1
      have few : (s.proc e).inKernelThreads ≤ 1 := by
        by_contra more
        have proc : (s.setPc e (.exit .assert)).proc e = s.proc e := by simp
        simp only [processExitNormal, proc] at ran
        rw [if_pos (Nat.lt_of_not_le more)] at ran
        cases ran
        exact passed.2 ⟨by simp [threadBlock], by simp [threadBlock]⟩
      have running := normalRunning inv level marked (by rw [old]; simp)
      rw [acts.created] at young
      rw [acts.pid] at pid
      rw [acts.pc u other]
      refine othersIdle (s.thread e).pid {e} ?_ ?_ (by simpa using other) young pid
      · rw [← inv.tally.kernel _ running, Finset.sum_singleton, share, if_pos rfl, old]
        exact few
      · simpa using known

theorem mainStands (inv : Wakeful s) (level : (s.proc m).exiting ≠ .normal)
    (main : (s.proc m).mainThread = m) (alive : (s.thread m).pc ≠ .gone) :
    ¬ Over s (s.thread m).pid := by
  rintro ⟨t, young, pid, gone⟩
  have same := inv.tally.gone t young gone (by unfold State.proc; rw [pid]; exact level)
  unfold State.proc at same main
  rw [pid, main] at same
  exact alive (same ▸ gone)

section
variable (inv : Wakeful s) (prompt : Prompt s a) (ok : step s a = .ok s')
include inv prompt ok

theorem waitWoken
    (level : (s.proc m).exiting = .main) (main : (s.proc m).mainThread = m)
    (here : (s.thread m).pc = .main .wait) (blocked : (s.thread m).status = .blocked)
    (woken : ¬ ((s'.thread m).pc = .main .wait ∧ (s'.thread m).status = .blocked)) :
    ∃ c, s.current = some c ∧ a = .run ∧ (s.thread c).nested = [] ∧
      (s.thread c).pc = .leave true ∧ (s.proc c).activeThreads = 2 ∧
      (s.thread c).pid = (s.thread m).pid := by
  have base := inv.tally.toBase
  have bare := inv.bare m (.inr here) blocked
  have marked : (s.pcb (s.thread m).pid).threadExiting = some m := by
    rw [base.level _ level]
    exact congrArg some main
  by_contra none
  refine woken ⟨?_, (bareKeeps (stepPerforms base ok) inv.lined bare ?_ ?_).1⟩
  · rw [bareStays base ok inv.lined bare]
    exact here
  · intro on inside
    cases opsReason inside with
    | joiner called joined =>
      obtain ⟨_, _, pid⟩ := inv.kin.joined _ m joined
      unfold State.proc at level
      rw [pid] at level marked
      obtain ⟨c, runs, rfl, plain, ⟨rfl, ending⟩ | ⟨⟨todo, there⟩, _⟩⟩ := callsWhere called
      · exact inv.apart c m joined (endingOpen ending).1 (by unfold State.proc; rw [level]; simp)
          marked
      · have normal := (visitorMarked inv there List.mem_cons_self).1
        unfold State.proc at normal
        rw [level] at normal
        cases normal
    | @unblock c t on runs run plain why =>
      cases why with
      | exiter there level' last marked' =>
        have pid := (markedThread inv.kin level' (by simp) marked').2.1
        unfold State.proc at level level'
        rw [pid, level'] at level
        cases level
      | main there level' last =>
        exact none ⟨c, runs, run, plain, there, last, (mainPid inv (currentKnown inv.lined runs)).symm⟩
  · intro inside
    cases opsReason inside with
    | @zombify c t runs run plain why =>
      cases why with
      | visit there outside =>
        have hand := base.hand m true (by rw [here]; rfl)
        rw [hand] at outside
        cases outside
      | main there level' => exact absurd level' (promptPermitted prompt runs run _ there)

omit prompt in
theorem mainKnown (level : (s'.proc m).exiting = .main) (main : (s'.proc m).mainThread = m) :
    m < s.created ∧ (s.proc m).mainThread = m := by
  have base := inv.tally.toBase
  have known : m < s.created := by
    have marked := (baseStep base ok).level _ level
    obtain ⟨young, _, closes⟩ := markedThread (kinStep base inv.kin ok) level (by simp)
      (marked.trans (congrArg some main))
    by_contra late
    obtain ⟨c, _, _, new⟩ | new := newKnown base ok late young <;>
      rw [new] at closes <;> simp [newThread, Pc.closing] at closes
  have same := (mainsStep base inv.mains ok).main m (Nat.lt_of_lt_of_le known (stepPid base ok).1)
  rw [main, (stepPid base ok).2 m known] at same
  exact ⟨known, by rw [inv.mains.main m known, ← same]⟩

section Main
variable (known : m < s.created) (main : (s.proc m).mainThread = m)
include known main

omit prompt in
theorem mainRaises (old : (s.thread m).pc = .main .enter) (none : (s.proc m).exiting = .none)
    (new : (s'.thread m).pc = loops (s.proc m).activeThreads)
    (few : ¬1 < (s.proc m).activeThreads) : OthersPass s' m := by
  have base := inv.tally.toBase
  intro u young pid other
  rw [(stepPid base ok).2 m known] at pid
  have running := mainStands inv (by rw [none]; simp) main (by rw [old]; simp)
  cases stepArrives base ok m with
  | stays same =>
    rw [new, old] at same
    unfold loops at same
    split at same <;> cases same
  | creates _ here => rw [old] at here; cases here
  | created self => exact absurd self (Nat.ne_of_lt known)
  | moves _ moved ok acts edge =>
    left
    rw [acts.created] at young
    rw [acts.pid] at pid
    rw [acts.pc u other]
    refine absentEnded (othersIdle (s.thread m).pid {m} ?_ ?_ (by simpa using other) young pid)
    · rw [← inv.tally.active _ running, Finset.sum_singleton, share, if_pos rfl, old]
      exact Nat.le_of_not_lt few
    · simpa using known

theorem mainPasses (level : (s.proc m).exiting = .main) (here : (s.thread m).pc = .main .wait)
    (blocked : (s.thread m).status = .blocked)
    (woken : ¬((s'.thread m).pc = .main .wait ∧ (s'.thread m).status = .blocked)) :
    OthersPass s' m := by
  intro u young pid' other
  rw [(stepPid inv.tally.toBase ok).2 m known] at pid'
  obtain ⟨c, runs, run, plain, leaves, last, pid⟩ :=
    waitWoken inv prompt ok level main here blocked woken
  subst run
  have running := mainStands inv (by rw [level]; simp) main (by rw [here]; simp)
  have apart : c ≠ m := by
    rintro rfl
    rw [here] at leaves
    cases leaves
  obtain ⟨now, acts⟩ := leaveActs inv ok runs plain leaves (.inr ⟨by
    unfold State.proc; rw [pid]; exact level, rfl⟩)
  rw [acts.created] at young
  rw [acts.pid] at pid'
  by_cases self : u = c
  · exact .inr (by rw [self, now])
  · left
    rw [acts.pc u self]
    refine absentEnded (othersIdle (s.thread m).pid {c, m} ?_ ?_
      (by simp [self, other]) young pid')
    · rw [← inv.tally.active _ running, Finset.sum_pair apart]
      unfold State.proc at last
      rw [pid] at last
      simp only [share, pid, if_true, leaves, here, last]
      exact Nat.le_refl 2
    · simp only [Finset.mem_insert, Finset.mem_singleton]
      rintro i (rfl | rfl)
      · exact currentKnown inv.lined runs
      · exact known

omit prompt in
theorem othersPassStep (level : (s.proc m).exiting = .main) (others : OthersPass s m) :
    OthersPass s' m := by
  have base := inv.tally.toBase
  intro u young pid other
  rw [(stepPid base ok).2 m known] at pid
  by_cases older : u < s.created
  · rw [(stepPid base ok).2 u older] at pid
    rcases others u older pid other with ended | here
    · exact .inl (endedStays base ok older ended)
    · cases stepArrives base ok u with
      | stays same => rw [same]; exact .inr here
      | creates _ old => rw [here] at old; cases old
      | created self => exact absurd self (Nat.ne_of_lt older)
      | moves _ moved ok acts edge =>
        left
        rw [jumpZombie (edgeJumps edge) here]
        rfl
  · obtain ⟨c, runs, here, new⟩ | new := newKnown base ok older young
    · -- its creator is in the kernel, and is not the main thread
      rw [new] at pid
      have apart : c ≠ m := by
        rintro rfl
        obtain ⟨_, _, closes⟩ := markedThread inv.kin level (by simp)
          ((base.level _ level).trans (congrArg some main))
        rw [here] at closes
        simp [Pc.closing] at closes
      rcases others c (currentKnown inv.lined runs) pid apart with ended | passes
      · rw [here] at ended; cases ended
      · rw [here] at passes; cases passes
    · rw [new] at pid
      exact absurd (pid ▸ base.pid m known) (Nat.lt_irrefl _)

end Main

theorem mainStep
    (level : (s'.proc m).exiting = .main) (main : (s'.proc m).mainThread = m) :
    (s'.thread m).pc = .main .wait ∧ (s'.thread m).status = .blocked ∨ OthersPass s' m := by
  have base := inv.tally.toBase
  obtain ⟨known, main⟩ := mainKnown inv ok level main
  rw [procBefore inv ok known] at level
  cases stepRaises ok (s.thread m).pid with
  | fresh self none => rw [none] at level; cases level
  | normal runs pid old new none exiting => rw [exiting] at level; cases level
  | @main c runs pid old new blocks none exiting marked =>
    have self : c = m := by
      have own := base.main c _ old
      unfold State.proc at own main
      rw [pid, main] at own
      exact own.symm
    subst self
    by_cases more : 1 < (s.proc c).activeThreads
    · left
      rw [new, loops, if_pos more]
      exact ⟨rfl, blocks more⟩
    · exact .inr (mainRaises inv ok known main old none new more)
  | same exiting threadExiting =>
    rw [exiting] at level
    rcases inv.main m level main with ⟨here, blocked⟩ | others
    · by_cases stays : (s'.thread m).pc = .main .wait ∧ (s'.thread m).status = .blocked
      · exact .inl stays
      · exact .inr (mainPasses inv prompt ok known main level here blocked stays)
    · exact .inr (othersPassStep inv ok known main level others)

theorem wakefulStep :
    Wakeful s' := by
  have base := inv.tally.toBase
  exact {
    tally := tallyStep inv.tally (fun _ runs run => promptPermitted prompt runs run) ok
    mains := mainsStep base inv.mains ok
    lined := linedStep base inv.lined ok
    kin := kinStep base inv.kin ok
    final := fun _ => finalStep inv ok
    unloaded := fun _ _ => unloadedStep inv ok
    closed := fun _ => closedStep inv ok
    bare := fun _ => bareStep inv ok
    settled := fun _ _ => settledStep inv ok
    waits := fun _ _ => joinedWaitsStep inv prompt ok
    apart := fun _ _ => apartStep inv ok
    passed := fun _ _ => passedStep inv prompt ok
    main := fun _ => mainStep inv prompt ok}
end

theorem wakefulBoot : Wakeful boot := by
  refine ⟨tallyBoot, mainsBoot, linedBoot, kinBoot, ?_, ?_, ?_, ?_, ?_, ?_, ?_, ?_, ?_⟩ <;>
    simp [boot, Pc.chosen]

theorem exiterAsleep (inv : Wakeful s) (prompt : Prompt s a)
    (inside : Op.unblock e .exiter ∈ ops s a) : Asleep s e ∧ (s.thread e).elem = none := by
  cases opsReason inside with
  | @unblock c t on runs run plain why =>
    subst run
    cases why with
    | exiter here level last marked =>
      have tested : (s.thread e).pc.tested = true := by
        have allowed := prompt c runs
        rw [here] at allowed
        exact allowed level last e marked
      have pid := (markedThread inv.kin level (by simp) marked).2.1.symm
      have apart : c ≠ e := by
        rintro rfl
        rw [here] at tested
        cases tested
      have asleep : Asleep s e := by
        by_contra awake
        unfold State.proc at level marked
        rw [pid] at level marked
        have zero := inv.passed e c level marked ⟨tested, awake⟩ (currentKnown inv.lined runs)
          apart pid
        rw [here] at zero
        cases zero
      exact ⟨asleep, (inv.bare e (.inl asleep.1) asleep.2).2⟩

theorem mainAsleep (inv : Wakeful s) (inside : Op.unblock m .main ∈ ops s a) :
    (s.thread m).pc = .main .wait ∧ (s.thread m).status = .blocked ∧ (s.thread m).elem = none := by
  cases opsReason inside with
  | @unblock c t on runs run plain why =>
    cases why with
    | main here level last =>
      have known := currentKnown inv.lined runs
      have pid := mainPid inv known
      have apart : c ≠ (s.proc c).mainThread := by
        intro self
        obtain ⟨_, _, closes⟩ := markedThread inv.kin level (by simp)
          ((inv.tally.level _ level).trans (congrArg some self.symm))
        rw [here] at closes
        simp [Pc.closing] at closes
      rcases inv.main (s.proc c).mainThread (by
          unfold State.proc at pid ⊢
          rw [pid]
          exact level) (by
          unfold State.proc at pid ⊢
          rw [pid]) with ⟨waits, blocked⟩ | others
      · exact ⟨waits, blocked, (inv.bare _ (.inr waits) blocked).2⟩
      · rcases others c known pid.symm apart with ended | passes
        · rw [here] at ended; cases ended
        · rw [here] at passes; cases passes

theorem unblockFails (fails : threadUnblock s t = .error (.assertion .statusBlocked)) :
    (s.thread t).status ≠ .blocked := by
  unfold threadUnblock at fails
  split at fails
  · cases fails
  · split at fails
    · assumption
    · split at fails <;> cases fails

theorem leaveNeverFails (inv : Wakeful s) (prompt : Prompt s .run)
    (runs : s.current = some c) (here : (s.thread c).pc = .leave flag) :
    step s .run ≠ .error (.assertion .statusBlocked) := by
  intro fails
  simp only [step, runs, stepCurrent] at fails
  split at fails <;> try contradiction
  rename_i plain
  have same : ((s.setProc c fun p => {p with
      inKernelThreads := decrement p.inKernelThreads}).setThread c
        fun th => {th with inHandler := false}).proc c = {s.proc c with
          inKernelThreads := decrement (s.proc c).inKernelThreads} := by simp
  have status : ∀ t, (((s.setProc c fun p => {p with
      inKernelThreads := decrement p.inKernelThreads}).setThread c
        fun th => {th with inHandler := false}).thread t).status = (s.thread t).status := by
    intro t
    by_cases self : t = c <;> simp [self]
  rw [here] at fails
  simp only [runPc, exitIfExiting, same] at fails
  cases level : (s.proc c).exiting with
  | none | exception =>
    simp only [level] at fails
    cases fails
  | normal =>
    simp only [level] at fails
    split at fails <;> try contradiction
    rename_i last
    split at fails
    · cases fails
    · rename_i e marked
      rcases bindError.mp fails with fails | ⟨v, _, fails⟩
      · have inside : Op.unblock e .exiter ∈ ops s .run := by
          simp only [ops, runs, currentOps, plain, if_true, here, runOps, leaveOps, level, last,
            marked, List.mem_singleton]
        have awake := unblockFails fails
        rw [status] at awake
        exact awake (exiterAsleep inv prompt inside).1.2
      · cases fails
  | main =>
    simp only [level] at fails
    split at fails <;> try contradiction
    rename_i last
    rcases bindError.mp fails with fails | ⟨v, _, fails⟩
    · have inside : Op.unblock (s.proc c).mainThread .main ∈ ops s .run := by
        simp only [ops, runs, currentOps, plain, if_true, here, runOps, leaveOps, level, if_pos last,
          List.mem_singleton]
      have awake := unblockFails fails
      rw [status] at awake
      exact awake (mainAsleep inv inside).2.1
    · cases fails

end Steps

section Runs
variable {s : State} {a : Action}

/-- As long as process_exit_normal is not entered under EXITING_MAIN, the last thread that leaves
the kernel does so after thread_exiting has made its test, and nobody enters the kernel once it
has passed: exit_if_exiting wakes thread_exiting only out of the thread_block of
process_exit_normal and the main thread only out of the loop of pthread_exit_main, and the
assertion in thread_unblock does not fail there. -/
theorem exiterWoken (run : Run step Prompt boot s) :
    (∀ a e, Prompt s a → Op.unblock e .exiter ∈ ops s a →
      (s.thread e).pc = .exit .assert ∧ (s.thread e).status = .blocked ∧
        (s.thread e).elem = none) ∧
    (∀ a m, Prompt s a → Op.unblock m .main ∈ ops s a →
      (s.thread m).pc = .main .wait ∧ (s.thread m).status = .blocked ∧
        (s.thread m).elem = none) ∧
    ∀ c flag, Prompt s .run → s.current = some c → (s.thread c).pc = .leave flag →
      step s .run ≠ .error (.assertion .statusBlocked) := by
  have inv := run.invariant Wakeful wakefulBoot fun _ _ _ inv prompt ok => wakefulStep inv prompt ok
  refine ⟨?_, ?_, ?_⟩
  · intro a e prompt inside
    obtain ⟨⟨here, blocked⟩, free⟩ := exiterAsleep inv prompt inside
    exact ⟨here, blocked, free⟩
  · exact fun a m _ inside => mainAsleep inv inside
  · exact fun c flag prompt runs here => leaveNeverFails inv prompt runs here

instance (s c pc) : Decidable (PromptAt s c pc) :=
  match pc with
  | .exit (.enter _) => inferInstanceAs (Decidable ((s.proc c).exiting ≠ .main))
  | .leave _ => inferInstanceAs (Decidable ((s.proc c).exiting = .normal →
      decrement (s.proc c).inKernelThreads = 1 →
        ∀ e ∈ (s.proc c).threadExiting, (s.thread e).pc.tested = true))
  | .trap _ => inferInstanceAs (Decidable ((s.proc c).exiting = .normal →
      ∀ e ∈ (s.proc c).threadExiting, ¬ Passed s e))
  | .exit .lock | .exit .remove | .exit (.visit _) | .exit .unlock | .exit .check | .exit .assert
  | .load _ | .user | .work _ | .create _ | .start _ | .join _ | .pthreadExit | .main _ | .clean
  | .tail _ | .zombie | .gone => instDecidableTrue

instance (s a) : Decidable (Prompt s a) :=
  match a with
  | .run => inferInstanceAs (Decidable (∀ c ∈ s.current, PromptAt s c (s.thread c).pc))
  | .dispatch _ | .call _ | .fault | .starve | .noStack | .lockInit _ | .lockAcquire _
  | .lockRelease _ | .acquire _ | .release _ | .block | .wake _ | .preempt | .launch =>
    instDecidableTrue

theorem exiterWokenExample : ∃ s, Run step Prompt boot s ∧ Prompt s .run ∧
    Op.unblock 0 .exiter ∈ ops s .run ∧
    (s.thread 0).pc = .exit .assert ∧ (s.thread 0).status = .blocked := by
  obtain ⟨s, run, found⟩ := execFinds step Prompt boot (exitWaits ++ [.wake 1, .dispatch 1, .run])
    (fun s => decide (Prompt s .run ∧ Op.unblock 0 .exiter ∈ ops s .run)) (by decide +kernel)
  obtain ⟨prompt, inside⟩ := of_decide_eq_true found
  obtain ⟨here, blocked, _⟩ := (exiterWoken run).1 .run 0 prompt inside
  exact ⟨s, run, prompt, inside, here, blocked⟩

def exitPreempted : List Action :=
  twoThreads ++ [.call .other, .run, .preempt, .dispatch 0, .run, .run, .call (.exit 0), .run, .run,
    .preempt, .dispatch 1, .run]

theorem exiterNotBlocked : ∃ s, Run step Fifo boot s ∧ Op.unblock 0 .exiter ∈ ops s .run ∧
    (s.thread 0).pc = .exit .lock ∧ (s.thread 0).status = .ready ∧
    step s .run = .error (.assertion .statusBlocked) := by
  obtain ⟨s, run, found⟩ := execFinds step Fifo boot exitPreempted
    (fun s => decide (Op.unblock 0 .exiter ∈ ops s .run ∧ (s.thread 0).pc = .exit .lock ∧
        (s.thread 0).status = .ready) &&
      stops (step s .run) fun f => decide (f = .assertion .statusBlocked)) (by decide +kernel)
  obtain ⟨here, next⟩ := Bool.and_eq_true_iff.mp found
  obtain ⟨inside, lock, ready⟩ := of_decide_eq_true here
  obtain ⟨f, fails, same⟩ := stopsError next
  exact ⟨s, run, inside, lock, ready, by rw [fails, of_decide_eq_true same]⟩

end Runs
end Pintos.Userprog
