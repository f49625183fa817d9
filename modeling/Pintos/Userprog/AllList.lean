import Pintos.Lib.DoublyLinked
import Pintos.Userprog.Teardown

/-! all_list, at the level of its pointers. init_thread appends a thread; thread_exit,
thread_zombie and, for another thread, process_exit_normal remove it. The last one does so
without looking whether the thread has been removed already, and leaves a ready thread
in ready_list, from where it comes back and is removed once more. -/
namespace Pintos.Userprog
open Machine DoublyLinked

attribute [local simp] Function.update_apply

inductive AllNode where
  | head
  | tail
  | thread (t : Tid)
  deriving DecidableEq, Repr

structure Roster where
  state : State
  allList : Links AllNode
  removed : Tid → Nat

inductive RosterFault where
  | notInterior
  | other (f : Fault)
  deriving DecidableEq, Repr

def listInit : Links AllNode where
  next n := if n = .head then some .tail else none
  prev n := if n = .tail then some .head else none

def removeFromAll (r : Roster) (t : Tid) : Except RosterFault Roster :=
  match r.allList.remove (.thread t) with
  | none => .error .notInterior
  | some l => .ok {r with allList := l, removed := Function.update r.removed t (r.removed t + 1)}

def rosterOp (r : Roster) : Op → Except RosterFault Roster
  | .spawn t =>
    match r.allList.insert .tail (.thread t) with
    | none => .error .notInterior
    | some l => .ok {r with allList := l}
  | .zombify t | .zombie t | .die t => removeFromAll r t
  | _ => .ok r

def rosterOps (r : Roster) : List Op → Except RosterFault Roster
  | [] => .ok r
  | op :: rest => do
    let r ← rosterOp r op
    rosterOps r rest

def rosterStep (r : Roster) (a : Action) : Except RosterFault Roster :=
  match step r.state a with
  | .error f => .error (.other f)
  | .ok s => rosterOps {r with state := s} (ops r.state a)

def rosterBoot : Roster where
  state := boot
  allList := listInit
  removed _ := 0

def Sched.Alive (g : Sched) (t : Tid) : Prop :=
  t < g.created ∧ g.status t ≠ .zombie ∧ g.status t ≠ .dying

instance (g t) : Decidable (Sched.Alive g t) := by
  unfold Sched.Alive; infer_instance

/-- process_exit_normal makes nobody a zombie who has ended, and the scheduler does not
dispatch a zombie. -/
def Op.Tame (g : Sched) : Op → Prop
  | .zombify t => g.status t ≠ .zombie ∧ g.status t ≠ .dying
  | .dispatch t => g.status t ≠ .zombie
  | _ => True

def Tame (g : Sched) : List Op → Prop
  | [] => True
  | op :: rest => op.Tame g ∧ Tame (g.perform op) rest

structure Enrolled (g : Sched) (r : Roster) : Prop where
  linked : ∃ xs : List Tid, Linked r.allList .head (xs.map .thread) .tail ∧ ∀ t, t ∈ xs ↔ g.Alive t
  counts : ∀ t, r.removed t = if t < g.created ∧ ¬ g.Alive t then 1 else 0

section Roster
variable {g g' : Sched} {r r' : Roster} {t : Tid}
  {list : List Op} {a : Action} {op : Op}

theorem enrolledSame (enrolled : Enrolled g r) (created : g'.created = g.created)
    (alive : ∀ t, g'.Alive t ↔ g.Alive t) : Enrolled g' r := by
  obtain ⟨xs, linked, members⟩ := enrolled.linked
  refine ⟨⟨xs, linked, fun t => (members t).trans (alive t).symm⟩, fun t => ?_⟩
  rw [enrolled.counts t, created]
  simp only [alive]

theorem aliveSame (t : Tid) (now : Status) (before : g.status t ≠ .zombie ∧ g.status t ≠ .dying)
    (after : now ≠ .zombie ∧ now ≠ .dying) (created : g'.created = g.created)
    (status : g'.status = Function.update g.status t now) (u : Tid) :
    g'.Alive u ↔ g.Alive u := by
  unfold Sched.Alive
  rw [created, status]
  by_cases self : u = t
  · subst self
    simp [before, after]
  · simp [self]

theorem removeEnrolled {now : Status} (enrolled : Enrolled g r) (alive : g.Alive t)
    (ended : now = .zombie ∨ now = .dying) (created : g'.created = g.created)
    (status : g'.status = Function.update g.status t now) (ok : removeFromAll r t = .ok r') :
    Enrolled g' r' := by
  obtain ⟨xs, linked, members⟩ := enrolled.linked
  have inside : AllNode.thread t ∈ xs.map AllNode.thread :=
    List.mem_map_of_mem ((members t).mpr alive)
  obtain ⟨l, removes, linked'⟩ := linkedRemove linked inside
  unfold removeFromAll at ok
  rw [removes] at ok
  cases ok
  have gone : ¬ g'.Alive t := by
    unfold Sched.Alive
    rw [status]
    rcases ended with rfl | rfl <;> simp
  have others : ∀ u, u ≠ t → (g'.Alive u ↔ g.Alive u) := by
    intro u other
    unfold Sched.Alive
    rw [created, status]
    simp [other]
  have single : xs.Nodup := by
    have nodup := (List.nodup_append.mp (List.nodup_cons.mp linked.nodup).2).1
    exact List.Nodup.of_map _ nodup
  refine ⟨⟨xs.erase t, ?_, ?_⟩, ?_⟩
  · rw [List.map_erase fun _ _ same => AllNode.thread.inj same]
    exact linked'
  · intro u
    by_cases self : u = t
    · subst self
      exact iff_of_false single.not_mem_erase gone
    · rw [List.mem_erase_of_ne self, members, others u self]
  · intro u
    rw [created]
    by_cases self : u = t
    · subst self
      simp [enrolled.counts u, alive, gone, alive.1]
    · simp only [Function.update_apply, self, if_false, enrolled.counts u, others u self]

theorem spawnEnrolled (enrolled : Enrolled g r) (new : t = g.created)
    (ok : rosterOp r (.spawn t) = .ok r') : Enrolled (g.perform (.spawn t)) r' := by
  obtain ⟨xs, linked, members⟩ := enrolled.linked
  have absent : t ∉ xs := fun inside =>
    absurd ((members t).mp inside).1 (by rw [new]; exact Nat.lt_irrefl _)
  have out : AllNode.thread t ∉ AllNode.head :: (xs.map AllNode.thread ++ [.tail]) := by
    simpa using absent
  obtain ⟨l, inserts, linked'⟩ := linkedInsert linked out
  simp only [rosterOp, inserts] at ok
  cases ok
  have alive : ∀ u, (g.perform (.spawn t)).Alive u ↔ u = t ∨ g.Alive u := by
    intro u
    unfold Sched.Alive
    by_cases self : u = t
    · subst self
      simp [Sched.perform, new]
    · have bound : u < g.created + 1 ↔ u < g.created :=
        ⟨fun less => Nat.lt_of_le_of_ne (Nat.le_of_lt_succ less) (new ▸ self), Nat.lt_succ_of_lt⟩
      simp [Sched.perform, self, bound]
  refine ⟨⟨xs ++ [t], ?_, ?_⟩, ?_⟩
  · simpa using linked'
  · intro u
    rw [alive, List.mem_append, members, List.mem_singleton]
    exact or_comm
  · intro u
    rw [enrolled.counts u]
    simp only [alive]
    by_cases self : u = t
    · subst self
      simp [new]
    · have bound : u < g.created + 1 ↔ u < g.created :=
        ⟨fun less => Nat.lt_of_le_of_ne (Nat.le_of_lt_succ less) (new ▸ self), Nat.lt_succ_of_lt⟩
      simp [Sched.perform, self, bound]

theorem enrolledOp (lined : Lined g) (enrolled : Enrolled g r) (allowed : g.Allows op)
    (tame : op.Tame g) (ok : rosterOp r op = .ok r') : Enrolled (g.perform op) r' := by
  have runsAlive : ∀ c, g.current = some c → g.Alive c := by
    intro c runs
    refine ⟨currentKnown lined runs, ?_, ?_⟩ <;> rw [(lined.running c runs).1] <;> simp
  cases op with
  | unblock t on | wake t =>
    cases ok
    refine enrolledSame enrolled rfl (aliveSame t .ready ?_ (by simp) rfl rfl)
    rw [allowed.2.1]
    simp
  | block c | sleep c =>
    cases ok
    exact enrolledSame enrolled rfl
      (aliveSame c .blocked (runsAlive c allowed).2 (by simp) rfl rfl)
  | yield c =>
    cases ok
    exact enrolledSame enrolled rfl
      (aliveSame c .ready (runsAlive c allowed).2 (by simp) rfl rfl)
  | dispatch t =>
    cases ok
    obtain ⟨_, inside, kept⟩ := allowed
    have known := linkedKnown lined ((lined.mem t).mp inside)
    refine enrolledSame enrolled rfl
      (aliveSame t .running ⟨tame, fun dying => ?_⟩ (by simp) rfl rfl)
    rw [lined.dying t known dying] at kept
    cases kept
  | zombify t =>
    refine removeEnrolled enrolled ?_ (.inl rfl) rfl rfl ok
    refine ⟨?_, tame⟩
    by_contra late
    rcases (lined.fresh t (Nat.le_of_not_lt late)).1 with dying | zombie
    · exact tame.2 dying
    · exact tame.1 zombie
  | zombie c => exact removeEnrolled enrolled (runsAlive c allowed) (.inl rfl) rfl rfl ok
  | die c => exact removeEnrolled enrolled (runsAlive c allowed) (.inr rfl) rfl rfl ok
  | spawn t => exact spawnEnrolled enrolled allowed ok
  | free t =>
    cases ok
    exact enrolledSame enrolled rfl fun _ => Iff.rfl

theorem rosterOpState (ok : rosterOp r op = .ok r') : r'.state = r.state := by
  unfold rosterOp at ok
  split at ok
  · split at ok <;> cases ok
    rfl
  all_goals
    first
    | cases ok; rfl
    | (unfold removeFromAll at ok
       split at ok <;> cases ok
       rfl)

theorem enrolledOps (performs : Performs g list g') (lined : Lined g)
    (enrolled : Enrolled g r) (tame : Tame g list) (ok : rosterOps r list = .ok r') :
    Enrolled g' r' ∧ r'.state = r.state := by
  induction performs generalizing r with
  | nil =>
    cases ok
    exact ⟨enrolled, rfl⟩
  | cons allowed after ih =>
    obtain ⟨u, first, rest⟩ := bindOk.mp ok
    obtain ⟨ends, same⟩ := ih (linedPerform lined allowed)
      (enrolledOp lined enrolled allowed tame.1 first) tame.2 rest
    exact ⟨ends, same.trans (rosterOpState first)⟩

theorem rosterOpsRemoved (ok : rosterOps r list = .ok r') (t : Tid) :
    r.removed t ≤ r'.removed t := by
  induction list generalizing r with
  | nil =>
    cases ok
    exact Nat.le_refl _
  | cons op rest ih =>
    obtain ⟨u, first, rest⟩ := bindOk.mp ok
    refine Nat.le_trans ?_ (ih rest)
    have removes : ∀ v, removeFromAll r v = .ok u → r.removed t ≤ u.removed t := by
      intro v ok
      unfold removeFromAll at ok
      split at ok <;> cases ok
      by_cases self : t = v <;> simp [self]
    cases op with
    | zombify v | zombie v | die v => exact removes v first
    | spawn v =>
      simp only [rosterOp] at first
      split at first <;> cases first
      exact Nat.le_refl _
    | _ =>
      cases first
      exact Nat.le_refl _

theorem rosterOk (ok : rosterStep r a = .ok r') :
    ∃ s, step r.state a = .ok s ∧ rosterOps {r with state := s} (ops r.state a) = .ok r' := by
  unfold rosterStep at ok
  split at ok <;> try contradiction
  rename_i s moved
  exact ⟨s, moved, ok⟩

structure Kept (r : Roster) : Prop where
  base : Base r.state
  lined : Lined r.state.sched
  enrolled : Enrolled r.state.sched r

theorem keptStep (kept : Kept r) (tame : Tame r.state.sched (ops r.state a))
    (ok : rosterStep r a = .ok r') : Kept r' := by
  obtain ⟨s, moved, notes⟩ := rosterOk ok
  have before : Enrolled r.state.sched {r with state := s} :=
    ⟨kept.enrolled.linked, kept.enrolled.counts⟩
  obtain ⟨enrolled, same⟩ :=
    enrolledOps (stepPerforms kept.base moved) kept.lined before tame notes
  have state : r'.state = s := same
  refine ⟨?_, ?_, ?_⟩ <;> rw [state]
  · exact baseStep kept.base moved
  · exact linedStep kept.base kept.lined moved
  · exact enrolled

theorem keptBoot : Kept rosterBoot := by
  refine ⟨baseBoot, linedBoot, ⟨[], by decide, ?_⟩, ?_⟩
  · intro t
    simp [Sched.Alive, State.sched, rosterBoot, boot]
  · intro t
    simp [State.sched, rosterBoot, boot]

/-- As long as process_exit_normal makes no zombie of a thread that has ended and no zombie is
dispatched, all_list is a list of exactly the threads that are alive, a thread that has
ended stays so, and it has been removed exactly once. -/
theorem allListExact
    (run : Run rosterStep (fun r a => Tame r.state.sched (ops r.state a)) rosterBoot r) :
    (∃ xs : List Tid, Linked r.allList .head (xs.map .thread) .tail ∧
      ∀ t, t ∈ xs ↔ t < r.state.created ∧ (r.state.thread t).status ≠ .zombie ∧
        (r.state.thread t).status ≠ .dying) ∧
    (∀ t, t < r.state.created → r.removed t =
      if (r.state.thread t).status = .zombie ∨ (r.state.thread t).status = .dying then 1 else 0) ∧
    ∀ a r' t, Tame r.state.sched (ops r.state a) → rosterStep r a = .ok r' →
      t < r.state.created →
      (r.state.thread t).status = .zombie ∨ (r.state.thread t).status = .dying →
      (r'.state.thread t).status = .zombie ∨ (r'.state.thread t).status = .dying := by
  have kept := run.invariant Kept keptBoot fun _ _ _ kept tame ok => keptStep kept tame ok
  have counts : ∀ {r : Roster}, Kept r → ∀ t, t < r.state.created → (r.removed t =
      if (r.state.thread t).status = .zombie ∨ (r.state.thread t).status = .dying then 1 else 0) := by
    intro r kept t young
    have young' : t < r.state.sched.created := young
    rw [kept.enrolled.counts t]
    simp only [Sched.Alive, young', true_and, not_and_or, not_not]
    rfl
  refine ⟨kept.enrolled.linked, counts kept, ?_⟩
  intro a r' t tame ok young ended
  obtain ⟨s, moved, notes⟩ := rosterOk ok
  have kept' := keptStep kept tame ok
  have before : r.removed t = 1 := by rw [counts kept t young, if_pos ended]
  have more : r.removed t ≤ r'.removed t := rosterOpsRemoved notes t
  have counted := kept'.enrolled.counts t
  by_contra alive
  obtain ⟨zombie, dying⟩ := not_or.mp alive
  rw [if_neg fun both => both.2 ⟨both.1, zombie, dying⟩] at counted
  omega

end Roster

section Runs

instance (g op) : Decidable (Op.Tame g op) :=
  match op with
  | .zombify t => inferInstanceAs (Decidable (g.status t ≠ .zombie ∧ g.status t ≠ .dying))
  | .dispatch t => inferInstanceAs (Decidable (g.status t ≠ .zombie))
  | .unblock _ _ | .block _ | .sleep _ | .yield _ | .zombie _ | .die _ | .wake _ | .spawn _
  | .free _ => instDecidableTrue

instance decideTame : (g : Sched) → (list : List Op) → Decidable (Tame g list)
  | _, [] => instDecidableTrue
  | g, op :: rest =>
    have := decideTame (g.perform op) rest
    inferInstanceAs (Decidable (op.Tame g ∧ Tame (g.perform op) rest))

theorem allListExactExample : ∃ (r : Roster) (xs : List Tid),
    Run rosterStep (fun r a => Tame r.state.sched (ops r.state a)) rosterBoot r ∧
    Linked r.allList .head (xs.map .thread) .tail ∧ 0 ∈ xs ∧ 1 ∉ xs ∧ r.removed 1 = 1 := by
  obtain ⟨r, run, found⟩ := execFinds rosterStep
    (fun r a => Tame r.state.sched (ops r.state a)) rosterBoot
    (twoThreads ++ [.call .pthreadExit, .run, .run, .run])
    (fun r => decide (0 < r.state.created ∧ (r.state.thread 0).status = .ready ∧
      1 < r.state.created ∧ (r.state.thread 1).status = .zombie)) (by decide +kernel)
  obtain ⟨known, ready, known', zombie⟩ := of_decide_eq_true found
  obtain ⟨⟨xs, linked, members⟩, counts, _⟩ := allListExact run
  refine ⟨r, xs, run, linked, ?_, ?_, ?_⟩
  · exact (members 0).mpr ⟨known, by rw [ready]; simp, by rw [ready]; simp⟩
  · exact fun inside => ((members 1).mp inside).2.1 zombie
  · rw [counts 1 known', zombie]
    rfl

def exitAfterZombie : List Action :=
  twoThreads ++ [.call .pthreadExit, .run, .run, .run, .launch, .dispatch 0, .run, .run,
    .call (.exit 0), .run, .run, .run, .run, .run]

theorem zombieRemovedTwice : ∃ r, Run rosterStep (fun r => Fifo r.state) rosterBoot r ∧
    r.removed 1 = 2 ∧ (r.state.thread 2).status = .ready ∧
    ∀ xs, Linked r.allList .head xs .tail → AllNode.thread 2 ∉ xs := by
  obtain ⟨r, run, found⟩ := execFinds rosterStep (fun r => Fifo r.state) rosterBoot exitAfterZombie
    (fun r => decide (r.removed 1 = 2 ∧ (r.state.thread 2).status = .ready ∧
      Linked r.allList .head [.thread 0] .tail)) (by decide +kernel)
  obtain ⟨twice, ready, linked⟩ := of_decide_eq_true found
  refine ⟨r, run, twice, ready, fun xs other inside => ?_⟩
  rw [← linkedUnique linked other] at inside
  simp at inside

end Runs
end Pintos.Userprog
