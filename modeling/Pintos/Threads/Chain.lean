import Pintos.Threads.Faults
import Pintos.Threads.LockView

/-! The donation walk follows donated_for from holder to holder and asserts that each
lock on the way has one. A waiter keeps donated_for until it runs, and a lock has no
holder from its release until then. -/
namespace Pintos.Threads
open Machine

def Settled (k : Kernel) : Prop :=
  ∀ t < k.created, t ≠ k.current → (k.thread t).lockQueue ≠ [] →
    ∀ m ∈ (k.thread t).donatedFor, (k.lock m).holder ≠ none

instance (k) : Decidable (Settled k) := by unfold Settled; infer_instance

def AcquiresSettled (k : Kernel) : Action → Prop
  | .run =>
    match k.cur.stack with
    | .lockAcquire _ :: _ => Settled k
    | _ => True
  | _ => True

instance (k a) : Decidable (AcquiresSettled k a) := by
  unfold AcquiresSettled
  split
  · split <;> infer_instance
  · infer_instance

structure Heads (k : Kernel) (l : LockId) : Prop where
  held : (k.lock l).holder ≠ none
  chain : ∀ t m n, t ≠ k.current → (k.lock m).holder = some t →
    (k.thread t).donatedFor = some n → (k.lock n).holder ≠ none

theorem headsOn {p u v m n t} (heads : Heads u m) (held : (u.lock m).holder = some t)
    (other : t ≠ u.current) (donated : Donated p u v) (waits : (v.thread t).donatedFor = some n) :
    Heads v n := by
  rw [donated.donatedFor] at waits
  constructor
  · rw [donated.holder]
    exact heads.chain t m n other held waits
  · intro x y z
    rw [donated.similar.current, donated.holder, donated.holder, donated.donatedFor]
    exact heads.chain x y z

theorem settledHeads {k l} (own : Owned k) (settled : Settled k) (held : (k.lock l).holder ≠ none) :
    Heads (announce k l) l := by
  constructor
  · simpa [announce] using held
  · intro t m n other holds waits
    have other' : t ≠ k.current := other
    have holds' : (k.lock m).holder = some t := by
      by_cases h : m = l <;> simpa [announce, h] using holds
    have waits' : (k.thread t).donatedFor = some n := by simpa [announce, other'] using waits
    have inside := (own.held m t).mp holds'
    have young : t < k.created := by
      by_contra old
      rw [(own.fresh t (Nat.le_of_not_lt old)).1] at inside
      contradiction
    have next := settled t young other' (List.ne_nil_of_mem inside) n waits'
    by_cases h : n = l <;> simpa [announce, h] using next

theorem walkMeetsHolders {policy values k a}
    (run : Run step (fun _ _ => True) (boot policy values) k) (settled : AcquiresSettled k a) :
    Never (fun e => e = .assertion .doneeNotNull) (step k a) := by
  obtain ⟨coh, own⟩ := runOwned run
  rintro e stops rfl
  cases stepFails coh stops with
  | @donee l rest runs top lost =>
    subst runs
    simp only [AcquiresSettled, top] at settled
    unfold donateIfHeld at lost
    split at lost <;> try contradiction
    rename_i guard
    have held : (k.lock l).holder ≠ none := by simpa [announce] using guard.2
    have safe : Never (fun e => e = .assertion .doneeNotNull)
        (donatePriAcquire ((announce k l).created + 1) (announce k l) (announce k l).current l) :=
      neverDonate Heads (by simp) (fun _ _ heads nobody => absurd nobody heads.held)
        (fun _ _ _ _ _ heads => headsOn heads) (settledHeads own settled held)
        (walkStarts (announceCoherent coh))
    exact safe _ lost rfl

theorem walkMeetsHoldersExample :
    ∃ k, Run step (fun _ _ => True) (boot .prio (fun _ => 0)) k ∧
      (k.cur.stack = [.lockAcquire 2] ∧ (k.lock 2).holder = some 2 ∧
        (k.thread 2).donatedFor = some 1 ∧ AcquiresSettled k .run) ∧
      Never (fun e => e = .assertion .doneeNotNull) (step k .run) := by
  obtain ⟨k, run, found⟩ := execFinds step (fun _ _ => True) (boot .prio (fun _ => 0))
    ([.call (.lockAcquire 1), .run] ++ creates 40 ++ [.call (.lockAcquire 2), .run,
      .call (.lockAcquire 1), .run] ++ creates 50 ++ [.call (.lockAcquire 2)])
    (fun k => decide (k.cur.stack = [.lockAcquire 2] ∧ (k.lock 2).holder = some 2 ∧
      (k.thread 2).donatedFor = some 1 ∧ AcquiresSettled k .run)) (by decide +kernel)
  have facts := of_decide_eq_true found
  exact ⟨k, run, facts, walkMeetsHolders run facts.2.2.2⟩

theorem walkLosesHolder :
    ∃ k, Run step (fun _ _ => True) (boot .prio (fun _ => 0)) k ∧
      step k .run = .error (.assertion .doneeNotNull) := by
  obtain ⟨k, run, found⟩ := execFinds step (fun _ _ => True) (boot .prio (fun _ => 0))
    (creates 50 ++ [.call (.timerSleep 1), .run, .run, .call (.lockAcquire 1), .run] ++
      creates 40 ++ [.call (.lockAcquire 2), .run, .call (.lockAcquire 1), .run,
      .call (.lockRelease 1), .run, .tick, .tick, .tick, .tick, .call (.lockAcquire 2)])
    (fun k => stops (step k .run) fun e => decide (e = .assertion .doneeNotNull))
    (by decide +kernel)
  obtain ⟨e, fault, which⟩ := stopsError found
  exact ⟨k, run, fault.trans (congrArg _ (of_decide_eq_true which))⟩

end Pintos.Threads
