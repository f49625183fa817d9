import Pintos.Threads.Faults
import Pintos.Threads.Frames

/-! The comment on struct thread's `elem`: the run queue and the wait lists are
mutually exclusive uses of one node. They are as long as nobody calls cond_wait,
which links the running thread with interrupts on; every cond_wait that gets
past its assertions breaks the rule on the spot. -/
namespace Pintos.Threads
open Machine

attribute [local simp] Function.update_apply

structure Membership (k : Kernel) : Prop where
  once : ∀ t q r, t ∈ k.list q → t ∈ k.list r → q = r
  nodup : ∀ q, (k.list q).Nodup
  ready : ∀ t, t ≠ k.idleThread → (t ∈ k.list .readyList ↔ (k.thread t).status = .ready)
  waiting : ∀ t q, q ≠ .readyList → t ∈ k.list q → (k.thread t).status = .blocked

def NoWaiter (k : Kernel) : Prop := ∀ t c, (k.thread t).elem ≠ some (.condWaiters c)

def entersCondWait (k : Kernel) : Bool :=
  match k.cur.stack with
  | .condWait _ _ :: _ => true
  | _ => false

def OutsideCondWait (k : Kernel) (a : Action) : Prop := a = .run → entersCondWait k = false

instance (k a) : Decidable (OutsideCondWait k a) := by
  unfold OutsideCondWait; infer_instance

theorem membershipOf {k} (coh : Coherent k) (empty : NoWaiter k) : Membership k where
  once t q r hq hr := by
    have left := (coh.links.mem t q).mp hq
    exact Option.some.inj (left.symm.trans ((coh.links.mem t r).mp hr))
  nodup := coh.links.nodup
  ready t busy := by
    have placed := coh.links.placed t
    rw [coh.links.mem]
    exact ⟨placed.ready, fun ready => placed.readyLinked ready busy (by simp)⟩
  waiting t q wait inside := by
    have linked := (coh.links.mem t q).mp inside
    refine (coh.links.placed t).waiting q ?_ linked wait
    intro runs
    obtain ⟨c, rfl⟩ := (coh.links.placed t).runElem q runs linked
    exact empty t c linked

theorem noWaiterIff {k} (coh : Coherent k) : NoWaiter k ↔ ∀ c, k.list (.condWaiters c) = [] := by
  unfold NoWaiter
  simp only [List.eq_nil_iff_forall_not_mem, coh.links.mem]
  exact forall_comm

theorem outsideFrame {k f rest} (top : k.cur.stack = f :: rest) (outside : OutsideCondWait k .run) :
    ∀ c l, f ≠ .condWait c l := by
  rintro c l rfl
  have := outside rfl
  unfold entersCondWait at this
  rw [top] at this
  contradiction

theorem stepNoWaiter {k a k'} (coh : Coherent k) (empty : NoWaiter k) (outside : OutsideCondWait k a)
    (ok : step k a = .ok k') : NoWaiter k' := by
  have coh' := stepCoherent coh ok
  rw [noWaiterIff coh] at empty
  rw [noWaiterIff coh']
  intro c
  rcases stepOk ok with rfl | ⟨f, rest, rfl, top, ran⟩ | ⟨op, _, _, rfl⟩ | ⟨_, _, ticked⟩
  · exact empty c
  · cases frameWaiters coh top ran c with
    | same _ list => exact List.Perm.eq_nil (empty c ▸ list)
    | links enters => exact absurd enters (outsideFrame top outside c _)
    | pops _ list => rw [empty c] at list; contradiction
  · exact empty c
  · rw [(timerInterruptElsewhere 0 coh ticked).list _ (by simp) (by simp [Frame.queue])]
    exact empty c

def Twice (e : Fault) : Prop := ∃ t, e = .linkedTwice t

theorem neverStep {k a} (coh : Coherent k) (empty : NoWaiter k) : Never Twice (step k a) := by
  rintro e stops ⟨t, rfl⟩
  cases stepFails coh stops with
  | twice linked again => exact empty _ _ linked

theorem condWaitBreaks {k c l rest k'} (coh : Coherent k)
    (top : k.cur.stack = .condWait c l :: rest) (ok : step k .run = .ok k') :
    ¬ Membership k' := by
  simp only [step, run, top, runFrame, condWait] at ok
  split at ok <;> try contradiction
  obtain ⟨k1, linked, last⟩ := bindOk.mp ok
  obtain ⟨_, rfl⟩ := linkOk linked
  cases last
  intro rule
  have running := (coh.links.placed k.current).running.mpr rfl
  have blocked := rule.waiting k.current (.condWaiters c) (by simp) (by simp)
  simp [running] at blocked

theorem entersTop {k} (enters : entersCondWait k = true) :
    ∃ c l rest, k.cur.stack = .condWait c l :: rest := by
  unfold entersCondWait at enters
  split at enters <;> try contradiction
  rename_i c l rest top
  exact ⟨c, l, rest, top⟩

theorem runNoWaiter {policy values k} (run : Run step OutsideCondWait (boot policy values) k) :
    Coherent k ∧ NoWaiter k := by
  refine run.invariant (fun k => Coherent k ∧ NoWaiter k) ⟨bootCoherent policy values, ?_⟩ ?_
  · intro t c
    by_cases h0 : t = 0 <;> by_cases h1 : t = 1 <;> simp [boot, h0, h1]
  · rintro u v a ⟨coh, empty⟩ outside ok
    exact ⟨stepCoherent coh ok, stepNoWaiter coh empty outside ok⟩

/-- Until some thread enters cond_wait every node is where the comment says and
no operation links a linked node; the first cond_wait to get past its assertion
ends that. -/
theorem membershipUntilCondWait {policy values k}
    (run : Run step OutsideCondWait (boot policy values) k) :
    Membership k ∧ (∀ a, OutsideCondWait k a → Never Twice (step k a)) ∧
      ∀ k', entersCondWait k = true → step k .run = .ok k' → ¬ Membership k' := by
  obtain ⟨coh, empty⟩ := runNoWaiter run
  refine ⟨membershipOf coh empty, fun a _ => neverStep coh empty, ?_⟩
  intro k' enters ok
  obtain ⟨c, l, rest, top⟩ := entersTop enters
  exact condWaitBreaks coh top ok

theorem membershipUntilCondWaitExample :
    ∃ k, Run step OutsideCondWait (boot .prio (fun _ => 0)) k ∧
      (2 ∈ k.list .readyList ∧ (k.thread 2).status = .ready) ∧ Membership k := by
  obtain ⟨k, run, found⟩ := execFinds step OutsideCondWait (boot .prio (fun _ => 0))
    [.call (.lockAcquire 1), .run, .call (.threadCreate 20), .run, .run, .run, .run, .run, .run]
    (fun k => decide (2 ∈ k.list .readyList ∧ (k.thread 2).status = .ready)) (by decide +kernel)
  exact ⟨k, run, of_decide_eq_true found, (membershipUntilCondWait run).1⟩

theorem condWaitLinksRunning :
    (∃ k, Run step (fun _ _ => True) (boot .fifo (fun _ => 0)) k ∧ ¬ Membership k) ∧
    ∃ k, Run step (fun _ _ => True) (boot .fifo (fun _ => 0)) k ∧
      ∃ a t, step k a = .error (.linkedTwice t) := by
  constructor
  · obtain ⟨k, run, found⟩ := execFinds step (fun _ _ => True) (boot .fifo (fun _ => 0))
      [.call (.lockAcquire 1), .run, .call (.condWait 0 1), .run]
      (fun k => decide (1 ∈ k.list (.condWaiters 0) ∧ (k.thread 1).status = .running))
      (by decide +kernel)
    obtain ⟨inside, running⟩ := of_decide_eq_true found
    refine ⟨k, run, fun rule => ?_⟩
    simp [rule.waiting 1 (.condWaiters 0) (by simp) inside] at running
  · obtain ⟨k, run, found⟩ := execFinds step (fun _ _ => True) (boot .fifo (fun _ => 0))
      [.call (.lockAcquire 1), .run, .call (.condWait 0 1), .run, .tick, .tick, .tick]
      (fun k => stops (step k .tick) fun e => decide (e = .linkedTwice 1)) (by decide +kernel)
    obtain ⟨e, fault, which⟩ := stopsError found
    exact ⟨k, run, .tick, 1, fault.trans (congrArg _ (of_decide_eq_true which))⟩

end Pintos.Threads
