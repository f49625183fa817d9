import Pintos.Threads.LockView

/-! What a struct lock looks like between two critical sections: its semaphore, its
holder and the lock queue it is linked in agree, and the holder is the thread that
downed the semaphore. -/
namespace Pintos.Threads
open Machine Ordered
open Inherit (State Event Step)

/- `taker` is not in struct lock: the thread that ran when the semaphore of the lock
last went down. -/
structure Audit where
  kernel : Kernel
  taker : LockId → Option Tid

def audit (s : Audit) (a : Action) : Except Fault Audit := do
  let k ← step s.kernel a
  .ok {
    kernel := k
    taker := fun l =>
      if k.value (.lock l) < s.kernel.value (.lock l) then some s.kernel.current else s.taker l }

structure LockRep (s : Audit) : Prop where
  binary : ∀ l, s.kernel.value (.lock l) = 0 ∨ s.kernel.value (.lock l) = 1
  taken : ∀ l t, (s.kernel.lock l).holder = some t →
    s.kernel.value (.lock l) = 0 ∧ s.taker l = some t
  linked : ∀ l t, (s.kernel.lock l).holder = some t →
    (s.kernel.thread t).lockQueue.count l = 1 ∧ ∀ u, u ≠ t → l ∉ (s.kernel.thread u).lockQueue
  held : ∀ t, ∀ l ∈ (s.kernel.thread t).lockQueue, (s.kernel.lock l).holder = some t
  sorted : ∀ t, Descending (fun l => (s.kernel.lock l).pri) (s.kernel.thread t).lockQueue

section Takers
variable {k k' : Kernel} {a : Action}

theorem frameTakes {f t l} (takes : frameEvent k f = .take t l) :
    t = k.current ∧ k.value (.lock l) ≠ 0 := by
  unfold frameEvent at takes
  split at takes <;> try contradiction
  · split at takes <;> contradiction
  · split at takes
    · split at takes <;> contradiction
    · cases takes
      exact ⟨rfl, by assumption⟩
  · split at takes
    · contradiction
    · cases takes
      exact ⟨rfl, by assumption⟩
  · split at takes
    · cases takes
      exact ⟨rfl, Nat.ne_of_gt (by assumption)⟩
    · contradiction

theorem eventTakes {t l} (takes : event k a = .take t l) :
    t = k.current ∧ k.value (.lock l) ≠ 0 := by
  unfold event at takes
  split at takes <;> try contradiction
  split at takes <;> try contradiction
  exact frameTakes takes

theorem holderChange (own : Owned k) (coh : Coherent k) (ok : step k a = .ok k') {l t}
    (held : (k'.lock l).holder = some t) :
    (k.lock l).holder = some t ∨ t = k.current ∧ k.value (.lock l) ≠ 0 := by
  rcases stepFollows own coh ok with follows | rfl
  · have moved := follows.moved
    have held' : (view k').holder l = some t := held
    generalize now : event k a = ev at moved
    generalize view k' = after at moved held'
    cases moved with
    | donate awake walk =>
      have same := (Inherit.walkRaised walk).1.holder
      refine .inl ?_
      rw [Inherit.State.sleep, same] at held'
      exact held'
    | @take u m x awake free aims =>
      by_cases h : l = m
      · subst h
        have owner : u = t := by simpa using held'
        exact .inr (owner ▸ eventTakes now)
      · exact .inl (by simpa [h, view] using held')
    | @release u m p awake holds back =>
      by_cases h : l = m
      · simp [h] at held'
      · exact .inl (by simpa [h, view] using held')
    | _ => exact .inl held'
  · exact .inl held

theorem eventReleases {t l} (releases : event k a = .release t l) :
    t = k.current ∧ a = .run ∧ k.cur.stack.head? = some (.lockRelease l) := by
  unfold event at releases
  split at releases <;> try contradiction
  split at releases <;> try contradiction
  rename_i f rest top
  unfold frameEvent at releases
  split at releases <;> try contradiction
  · split at releases <;> contradiction
  · split at releases
    · split at releases <;> contradiction
    · contradiction
  · split at releases <;> contradiction
  · split at releases <;> contradiction
  · cases releases
    exact ⟨rfl, rfl, by rw [top]; rfl⟩

theorem holderKept (own : Owned k) (coh : Coherent k) (ok : step k a = .ok k') {l t}
    (held : (k.lock l).holder = some t)
    (keeps : t = k.current → a = .run → k.cur.stack.head? ≠ some (.lockRelease l)) :
    (k'.lock l).holder = some t := by
  rcases stepFollows own coh ok with follows | rfl
  · have moved := follows.moved
    have held' : (view k).holder l = some t := held
    show (view k').holder l = some t
    generalize now : event k a = ev at moved
    generalize view k' = after at moved ⊢
    cases moved with
    | donate awake walk =>
      have same := (Inherit.walkRaised walk).1.holder
      rw [Inherit.State.sleep, same]
      exact held'
    | @take u m x awake free aims =>
      have other : l ≠ m := by
        rintro rfl
        simp [free] at held'
      simpa [other] using held'
    | @release u m p awake holds back =>
      have other : l ≠ m := by
        rintro rfl
        obtain ⟨runs, here, top⟩ := eventReleases now
        cases Option.some.inj (holds.symm.trans held')
        exact keeps runs here top
      simpa [other] using held'
    | _ => exact held'
  · exact held

end Takers

theorem runAudit {policy values s} {may : Audit → Action → Prop}
    (run : Run audit may ⟨boot policy values, fun _ => none⟩ s) :
    Coherent s.kernel ∧ Owned s.kernel ∧
      ∀ l t, (s.kernel.lock l).holder = some t → s.taker l = some t := by
  refine run.invariant (fun s => Coherent s.kernel ∧ Owned s.kernel ∧
    ∀ l t, (s.kernel.lock l).holder = some t → s.taker l = some t)
    ⟨bootCoherent policy values, bootOwned policy values, by simp [boot]⟩ ?_
  rintro u v a ⟨coh, own, takers⟩ _ ok
  obtain ⟨k, moved, last⟩ := bindOk.mp ok
  cases last
  have own' := stepOwned own coh moved
  refine ⟨stepCoherent coh moved, own', ?_⟩
  intro l t held
  have zero := own'.taken l t held
  rcases holderChange own coh moved held with before | ⟨rfl, positive⟩
  · -- the semaphore was down already
    have still := own.taken l t before
    simpa [zero, still] using takers l t before
  · simp [zero, Nat.pos_of_ne_zero positive]

theorem lockRepresentation {policy values s}
    (run : Run audit (fun _ _ => True) ⟨boot policy values, fun _ => none⟩ s) : LockRep s := by
  obtain ⟨_, own, takers⟩ := runAudit run
  constructor
  case binary =>
    intro l
    have := own.small l
    omega
  case taken => exact fun l t held => ⟨own.taken l t held, takers l t held⟩
  case linked =>
    intro l t held
    refine ⟨List.count_eq_one_of_mem (own.nodup t) ((own.held l t).mp held), ?_⟩
    intro u other inside
    have second := (own.held l u).mpr inside
    exact other (Option.some.inj (second.symm.trans held))
  case held => exact fun t l inside => (own.held l t).mpr inside
  case sorted => exact own.sorted

theorem lockRepresentationExample :
    ∃ s, Run audit (fun _ _ => True) ⟨boot .prio (fun _ => 0), fun _ => none⟩ s ∧
      ((s.kernel.lock 1).holder = some 1 ∧ (s.kernel.lock 2).holder = some 2 ∧
        (s.kernel.thread 1).lockQueue = [3, 1] ∧ s.kernel.list (.semaWaiters (.lock 1)) = [2]) ∧
      LockRep s := by
  obtain ⟨s, run, found⟩ := execFinds audit (fun _ _ => True) ⟨boot .prio (fun _ => 0), fun _ => none⟩
    ([.call (.lockAcquire 1), .run] ++ creates 40 ++ [.call (.lockAcquire 2), .run,
      .call (.lockAcquire 1), .run, .call (.lockAcquire 3), .run])
    (fun s => decide ((s.kernel.lock 1).holder = some 1 ∧ (s.kernel.lock 2).holder = some 2 ∧
      (s.kernel.thread 1).lockQueue = [3, 1] ∧ s.kernel.list (.semaWaiters (.lock 1)) = [2]))
    (by decide +kernel)
  exact ⟨s, run, of_decide_eq_true found, lockRepresentation run⟩

end Pintos.Threads
