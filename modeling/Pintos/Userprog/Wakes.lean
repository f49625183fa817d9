import Pintos.Userprog.Sched

/-! Who is woken on whose account. thread_unblock is called by wake_up_joiner, on account of a
thread that ends, and by exit_if_exiting; the state a step starts in says which. What a
blocked thread waits for is then kept as long as none of these calls is for it. -/
namespace Pintos.Userprog
open Machine

attribute [local simp] Function.update_apply

def runCalls (s : State) (c : Tid) : Pc → Option Tid
  | .pthreadExit | .exit (.enter _) => some c
  | .exit (.visit (pos :: _)) => if (s.thread pos).inHandler = false then some pos else none
  | .main .enter => if (s.proc c).exiting = .none then some c else none
  | _ => none

def calls (s : State) : Action → Option Tid
  | .run =>
    match s.current with
    | none => none
    | some c => if (s.thread c).nested = [] then runCalls s c (s.thread c).pc else none
  | _ => none

def Op.wakes (t : Tid) : Op → Nat
  | .unblock _ (.joiner u) => if u = t then 1 else 0
  | _ => 0

def wakesFor (t : Tid) (list : List Op) : Nat := (list.map (Op.wakes t)).sum

inductive Unblocks (s : State) (c : Tid) : Tid → Account → Prop where
  | exiter {e : Tid} {flag : Bool} (here : (s.thread c).pc = .leave flag)
      (level : (s.proc c).exiting = .normal)
      (last : decrement (s.proc c).inKernelThreads = 1)
      (marked : (s.proc c).threadExiting = some e) : Unblocks s c e .exiter
  | main (here : (s.thread c).pc = .leave true) (level : (s.proc c).exiting = .main)
      (last : (s.proc c).activeThreads = 2) : Unblocks s c (s.proc c).mainThread .main

inductive Zombifies (s : State) (c : Tid) : Tid → Prop where
  | visit {pos : Tid} {todo : List Tid} (here : (s.thread c).pc = .exit (.visit (pos :: todo)))
      (outside : (s.thread pos).inHandler = false) : Zombifies s c pos
  | main {code : Int} (here : (s.thread c).pc = .exit (.enter code))
      (level : (s.proc c).exiting = .main) : Zombifies s c (s.proc c).mainThread

inductive Blocks (s : State) (c : Tid) : Prop where
  | join {f : Target} (here : (s.thread c).pc = .join (.set f))
      (waits : f.blockWait = true ∧ ((s.proc c).exiting ≠ .main ∨ f.isMain = false)) : Blocks s c
  | exit (here : (s.thread c).pc = .exit .check) (more : 1 < (s.proc c).inKernelThreads) :
      Blocks s c
  | main {stage : Main} (here : (s.thread c).pc = .main stage)
      (more : 1 < (s.proc c).activeThreads) : Blocks s c

inductive Reason (s : State) (a : Action) : Op → Prop where
  | joiner {t j : Tid} (called : calls s a = some t) (joined : (s.thread t).joinedBy = some j) :
      Reason s a (.unblock j (.joiner t))
  | unblock {c t : Tid} {on : Account} (runs : s.current = some c) (run : a = .run)
      (plain : (s.thread c).nested = []) (why : Unblocks s c t on) : Reason s a (.unblock t on)
  | zombify {c t : Tid} (runs : s.current = some c) (run : a = .run)
      (plain : (s.thread c).nested = []) (why : Zombifies s c t) : Reason s a (.zombify t)
  | block {c : Tid} (runs : s.current = some c) (run : a = .run)
      (plain : (s.thread c).nested = []) (why : Blocks s c) : Reason s a (.block c)
  | sleep {c : Tid} (runs : s.current = some c) (inside : (s.thread c).pc.inFunction = true) :
      Reason s a (.sleep c)
  | yield {c : Tid} (runs : s.current = some c) : Reason s a (.yield c)
  | zombie {c : Tid} (runs : s.current = some c) (run : a = .run)
      (plain : (s.thread c).nested = []) (here : (s.thread c).pc = .pthreadExit) :
      Reason s a (.zombie c)
  | die {c : Tid} (runs : s.current = some c) (run : a = .run)
      (plain : (s.thread c).nested = [])
      (here : (s.thread c).pc = .load (.up false) ∨ (s.thread c).pc = .tail .free ∨
        (s.proc c).exiting = .exception) : Reason s a (.die c)
  | wake {t : Tid} (waits : (s.thread t).elem = some .wait) : Reason s a (.wake t)
  | dispatch {t : Tid} (idle : s.current = none) (ready : t ∈ s.readyList)
      (run : a = .dispatch t) : Reason s a (.dispatch t)
  | spawn : Reason s a (.spawn s.created)
  | free {c t : Tid} (runs : s.current = some c)
      (here : (∃ f, (s.thread c).pc = .join (.free f) ∧ f.pos = t) ∨
        (s.thread c).pc = .clean ∧ t ∈ (s.proc c).threads) : Reason s a (.free t)

section Ops
variable {s : State} {a : Action} {c t u : Tid}
  {op : Op}

theorem wakesForAppend (left right : List Op) :
    wakesFor t (left ++ right) = wakesFor t left + wakesFor t right := by
  simp [wakesFor]

theorem wakesForNone {list : List Op} (none : ∀ op ∈ list, op.wakes t = 0) :
    wakesFor t list = 0 := by
  refine List.sum_eq_zero fun n inside => ?_
  obtain ⟨op, member, same⟩ := List.mem_map.mp inside
  rw [← same]
  exact none op member

theorem wakesForJoiner : wakesFor t (wakeUpJoinerOps s u) =
    if u = t ∧ (s.thread t).joinedBy ≠ none then 1 else 0 := by
  unfold wakeUpJoinerOps
  by_cases self : u = t
  · subst self
    cases joined : (s.thread u).joinedBy <;> simp [wakesFor, Op.wakes]
  · cases joined : (s.thread u).joinedBy <;> simp [wakesFor, Op.wakes, self]

theorem joinerReason (called : calls s a = some t) (inside : op ∈ wakeUpJoinerOps s t) :
    Reason s a op := by
  unfold wakeUpJoinerOps at inside
  split at inside
  · cases inside
  · rename_i joined
    cases List.mem_singleton.mp inside
    exact .joiner called joined

theorem sleepReason (runs : s.current = some c)
    (inside : (s.thread c).pc.inFunction = true) {p : Prop} [Decidable p]
    (sleeps : op ∈ (if p then [Op.sleep c] else []) ∨ op ∈ (if p then [] else [Op.sleep c])) :
    Reason s a op := by
  have only : op = .sleep c := by
    rcases sleeps with sleeps | sleeps <;> split at sleeps <;> simp_all
  rw [only]
  exact .sleep runs inside

theorem onlyIf {p : Prop} [Decidable p] {only : Op} (inside : op ∈ if p then [only] else []) :
    p ∧ op = only := by
  split at inside
  · exact ⟨‹p›, List.mem_singleton.mp inside⟩
  · cases inside

theorem runCalled {pc : Pc} (here : (s.thread c).pc = pc) (runs : s.current = some c)
    (plain : (s.thread c).nested = []) : calls s .run = runCalls s c pc := by
  simp only [calls, runs, plain, if_true, here]

section Regions
variable (runs : s.current = some c) (plain : (s.thread c).nested = [])
include runs

theorem createReason {stage : Create} (here : (s.thread c).pc = .create stage)
    (inside : op ∈ runOps s c (.create stage)) : Reason s .run op := by
  cases stage with
  | execute => cases List.mem_singleton.mp inside; exact .spawn
  | wait target =>
    cases target with
    | none => cases List.mem_singleton.mp inside; exact .sleep runs (by rw [here]; rfl)
    | some t => exact sleepReason runs (by rw [here]; rfl) (.inr inside)
  | _ => cases inside

include plain

theorem loadReason {stage : Load} (here : (s.thread c).pc = .load stage)
    (inside : op ∈ runOps s c (.load stage)) : Reason s .run op := by
  cases stage with
  | down => exact sleepReason runs (by rw [here]; rfl) (.inl inside)
  | body => cases inside
  | up success =>
    cases success with
    | true => cases inside
    | false => cases List.mem_singleton.mp inside; exact .die runs rfl plain (.inl here)

theorem joinReason {stage : Join} (here : (s.thread c).pc = .join stage)
    (inside : op ∈ runOps s c (.join stage)) : Reason s .run op := by
  cases stage with
  | lock | relock => exact sleepReason runs (by rw [here]; rfl) (.inr inside)
  | set f =>
    obtain ⟨waits, rfl⟩ := onlyIf inside
    exact .block runs rfl plain (.join here waits)
  | free f => cases List.mem_singleton.mp inside; exact .free runs (.inl ⟨f, here, rfl⟩)
  | _ => cases inside

theorem leaveReason {flag : Bool} (here : (s.thread c).pc = .leave flag)
    (inside : op ∈ leaveOps s c flag) : Reason s .run op := by
  unfold leaveOps at inside
  split at inside
  · rename_i level
    cases List.mem_singleton.mp inside; exact .die runs rfl plain (.inr (.inr level))
  · rename_i level
    split at inside
    · rename_i last
      split at inside
      · cases inside
      · rename_i marked
        cases List.mem_singleton.mp inside
        exact .unblock runs rfl plain (.exiter here level last marked)
    · cases inside
  · rename_i level
    obtain ⟨last, rfl⟩ := onlyIf inside
    exact .unblock runs rfl plain (.main (last.1 ▸ here) level last.2)
  · cases inside

theorem exitReason {stage : Exit} (here : (s.thread c).pc = .exit stage)
    (inside : op ∈ exitOps s c stage) : Reason s .run op := by
  have called := runCalled here runs plain
  cases stage with
  | enter code =>
    rcases List.mem_append.mp inside with wakes | ends
    · exact joinerReason called wakes
    · obtain ⟨level, rfl⟩ := onlyIf ends
      exact .zombify runs rfl plain (.main here level)
  | lock => exact sleepReason runs (by rw [here]; rfl) (.inr inside)
  | visit todo =>
    cases todo with
    | nil => cases inside
    | cons pos todo =>
      simp only [exitOps] at inside
      split at inside
      · rename_i outside
        rcases List.mem_cons.mp inside with same | wakes
        · rw [same]; exact .zombify runs rfl plain (.visit here outside)
        · exact joinerReason (called.trans (if_pos outside)) wakes
      · cases inside
  | check =>
    obtain ⟨more, rfl⟩ := onlyIf inside
    exact .block runs rfl plain (.exit here more)
  | _ => cases inside

theorem mainReason {stage : Main} (here : (s.thread c).pc = .main stage)
    (inside : op ∈ runOps s c (.main stage)) : Reason s .run op := by
  have loops : op ∈ loopOps s c → Reason s .run op := by
    intro loops
    obtain ⟨more, rfl⟩ := onlyIf loops
    exact .block runs rfl plain (.main here more)
  cases stage with
  | enter =>
    simp only [runOps] at inside
    split at inside
    · rename_i level
      rcases List.mem_append.mp inside with wakes | more
      · exact joinerReason ((runCalled here runs plain).trans (if_pos level)) wakes
      · exact loops more
    · cases inside
  | wait => exact loops inside
  | assert => cases inside

theorem runReason {pc : Pc} (here : (s.thread c).pc = pc) (inside : op ∈ runOps s c pc) :
    Reason s .run op := by
  cases pc with
  | load => exact loadReason runs plain here inside
  | work stage =>
    cases stage with
    | down => exact sleepReason runs (by rw [here]; rfl) (.inl inside)
    | _ => cases inside
  | create => exact createReason runs here inside
  | start stage =>
    cases stage with
    | lock => exact sleepReason runs (by rw [here]; rfl) (.inr inside)
    | _ => cases inside
  | join => exact joinReason runs plain here inside
  | leave => exact leaveReason runs plain here inside
  | pthreadExit =>
    rcases List.mem_append.mp inside with wakes | ends
    · exact joinerReason (runCalled here runs plain) wakes
    · cases List.mem_singleton.mp ends; exact .zombie runs rfl plain here
  | exit => exact exitReason runs plain here inside
  | main => exact mainReason runs plain here inside
  | clean =>
    simp only [runOps] at inside
    split at inside
    · cases inside
    · rename_i pos rest list
      cases List.mem_singleton.mp inside
      exact .free runs (.inr ⟨here, list ▸ List.mem_cons_self⟩)
  | tail stage =>
    cases stage with
    | free => cases List.mem_singleton.mp inside; exact .die runs rfl plain (.inr (.inl here))
    | _ => cases inside
  | user | trap | zombie | gone => cases inside

end Regions

theorem opsReason (inside : op ∈ ops s a) : Reason s a op := by
  unfold ops at inside
  split at inside
  · obtain ⟨waits, rfl⟩ := onlyIf inside
    exact .wake waits
  · obtain ⟨idle, rfl⟩ := onlyIf inside
    exact .dispatch idle.1 idle.2 rfl
  · cases List.mem_singleton.mp inside; exact .spawn
  · split at inside
    · cases inside
    · rename_i c runs
      cases a with
      | run =>
        simp only [currentOps] at inside
        split at inside
        · rename_i plain
          exact runReason runs plain rfl inside
        · cases inside
      | lockAcquire n =>
        obtain ⟨refused, rfl⟩ := onlyIf inside
        exact .sleep runs (by rw [refused.1]; rfl)
      | acquire l =>
        obtain ⟨refused, rfl⟩ := onlyIf inside
        exact .sleep runs refused.1
      | block =>
        obtain ⟨function, rfl⟩ := onlyIf inside
        exact .sleep runs function
      | preempt =>
        simp only [currentOps] at inside
        split at inside
        · cases inside
        · cases List.mem_singleton.mp inside; exact .yield runs
      | _ => cases inside

theorem opsWakes : wakesFor t (ops s a) =
    if calls s a = some t ∧ (s.thread t).joinedBy ≠ none then 1 else 0 := by
  by_cases called : calls s a = some t
  · simp only [called, true_and]
    cases a with
    | run =>
      simp only [calls] at called
      split at called <;> try contradiction
      rename_i c runs
      split at called <;> try contradiction
      rename_i plain
      have own : ops s .run = runOps s c (s.thread c).pc := by
        simp only [ops, runs, currentOps, if_pos plain]
      rw [own]
      cases here : (s.thread c).pc with
      | pthreadExit =>
        rw [here] at called
        cases called
        simp only [runOps, wakesForAppend, wakesForJoiner, true_and]
        rfl
      | exit stage =>
        rw [here] at called
        cases stage with
        | enter code =>
          cases called
          simp only [runOps, exitOps, wakesForAppend, wakesForJoiner, true_and]
          rw [Nat.add_eq_left]
          refine wakesForNone fun op inside => ?_
          split at inside
          · cases List.mem_singleton.mp inside; rfl
          · cases inside
        | visit todo =>
          cases todo with
          | nil => cases called
          | cons pos todo =>
            simp only [runCalls] at called
            split at called <;> try contradiction
            rename_i outside
            cases called
            simp only [runOps, exitOps, if_pos outside]
            have wakes := wakesForAppend (t := t) [.zombify t] (wakeUpJoinerOps s t)
            rw [wakesForJoiner] at wakes
            simpa [wakesFor, Op.wakes] using wakes
        | _ => cases called
      | main stage =>
        rw [here] at called
        cases stage with
        | enter =>
          simp only [runCalls] at called
          split at called <;> try contradiction
          rename_i level
          cases called
          simp only [runOps, if_pos level, wakesForAppend, wakesForJoiner, true_and]
          rw [Nat.add_eq_left]
          refine wakesForNone fun op inside => ?_
          unfold loopOps at inside
          split at inside
          · cases List.mem_singleton.mp inside; rfl
          · cases inside
        | _ => cases called
      | _ =>
        rw [here] at called
        cases called
    | _ => cases called
  · simp only [called, false_and, if_false]
    refine wakesForNone fun op inside => ?_
    cases opsReason inside with
    | joiner other joined =>
      have apart : ∀ u, calls s a = some u → u ≠ t := fun u now same => called (same ▸ now)
      simp [Op.wakes, apart _ other]
    | unblock _ _ _ why => cases why <;> rfl
    | _ => rfl

end Ops

def Sched.Bare (g : Sched) (t : Tid) : Prop := g.status t = .blocked ∧ g.elem t = none

section Bare
variable {g g' : Sched} {t : Tid} {op : Op} {list : List Op}

theorem bareKnown (lined : Lined g) (bare : g.Bare t) : t < g.created := by
  by_contra late
  rcases (lined.fresh t (Nat.le_of_not_lt late)).1 with dying | zombie
  · rw [bare.1] at dying; cases dying
  · rw [bare.1] at zombie; cases zombie

theorem bareIdle (lined : Lined g) (bare : g.Bare t) : g.current ≠ some t := by
  intro runs
  have running := (lined.running t runs).1
  rw [bare.1] at running
  cases running

theorem bareOp (lined : Lined g) (bare : g.Bare t) (allowed : g.Allows op)
    (kept : ∀ on, op ≠ .unblock t on) (spared : op ≠ .zombify t) : (g.perform op).Bare t := by
  have still : ∀ c, g.current = some c → t ≠ c := by
    rintro c runs rfl
    exact bareIdle lined bare runs
  obtain ⟨blocked, free⟩ := bare
  cases op with
  | unblock u on =>
    have other : t ≠ u := fun same => kept on (same ▸ rfl)
    exact ⟨by simpa [Sched.perform, other] using blocked, by simpa [Sched.perform, other] using free⟩
  | wake u =>
    have other : t ≠ u := by
      rintro rfl
      have waits := allowed.2.2
      rw [free] at waits
      cases waits
    exact ⟨by simpa [Sched.perform, other] using blocked, by simpa [Sched.perform, other] using free⟩
  | zombify u =>
    have other : t ≠ u := fun same => spared (same ▸ rfl)
    exact ⟨by simpa [Sched.perform, other] using blocked, free⟩
  | block c | zombie c | die c =>
    exact ⟨by simpa [Sched.perform, still c allowed] using blocked, free⟩
  | sleep c | yield c =>
    have other := still c allowed
    exact ⟨by simpa [Sched.perform, other] using blocked, by simpa [Sched.perform, other] using free⟩
  | dispatch u =>
    have other : t ≠ u := by
      rintro rfl
      have ready := (lined.mem t).mp allowed.2.1
      rw [free] at ready
      cases ready
    exact ⟨by simpa [Sched.perform, other] using blocked, by simpa [Sched.perform, other] using free⟩
  | spawn u =>
    have other : t ≠ u := by
      have young := bareKnown lined ⟨blocked, free⟩
      rw [show u = g.created from allowed]
      exact Nat.ne_of_lt young
    exact ⟨by simpa [Sched.perform, other] using blocked, by simpa [Sched.perform, other] using free⟩
  | free u => exact ⟨blocked, free⟩

theorem bareKeeps (performs : Performs g list g') (lined : Lined g) (bare : g.Bare t)
    (kept : ∀ on, Op.unblock t on ∉ list) (spared : Op.zombify t ∉ list) : g'.Bare t := by
  induction performs with
  | nil => exact bare
  | @cons g g' op rest allowed after ih =>
    have bare' := bareOp lined bare allowed (fun on same => kept on (same ▸ List.mem_cons_self))
      (fun same => spared (same ▸ List.mem_cons_self))
    exact ih (linedPerform lined allowed) bare'
      (fun on inside => kept on (List.mem_cons_of_mem _ inside))
      (fun inside => spared (List.mem_cons_of_mem _ inside))

theorem blockedSince (performs : Performs g list g') (lined : Lined g)
    (blocked : g'.status t = .blocked) :
    g.status t = .blocked ∧ g'.elem t = g.elem t ∨ Op.block t ∈ list ∧ g'.elem t = none ∨
      Op.sleep t ∈ list := by
  induction performs with
  | nil => exact .inl ⟨blocked, rfl⟩
  | @cons g g' op rest allowed after ih =>
    rcases ih (linedPerform lined allowed) blocked with ⟨before, same⟩ | ⟨blocks, free⟩ | sleeps
    · rw [same]
      by_cases self : op = .block t
      · subst self
        exact .inr (.inl ⟨List.mem_cons_self, (lined.running t allowed).2⟩)
      by_cases asleep : op = .sleep t
      · exact .inr (.inr (asleep ▸ List.mem_cons_self))
      · refine .inl ?_
        cases op with
        | block u | sleep u =>
          have other : t ≠ u := fun same => by subst same; contradiction
          simpa [Sched.perform, other] using before
        | free u => exact ⟨before, rfl⟩
        | unblock u on | wake u | zombify u | yield u | zombie u | die u | dispatch u | spawn u =>
          by_cases other : t = u
          · simp [Sched.perform, other] at before
          · simpa [Sched.perform, other] using before
    · exact .inr (.inl ⟨List.mem_cons_of_mem _ blocks, free⟩)
    · exact .inr (.inr (List.mem_cons_of_mem _ sleeps))

def Sched.Ended (g : Sched) (t : Tid) : Prop := g.status t = .zombie ∨ g.status t = .dying

theorem endedKeeps (performs : Performs g list g') (lined : Lined g) (ended : g.Ended t)
    (young : t < g.created) (kept : Op.dispatch t ∉ list) : g'.Ended t := by
  induction performs with
  | nil => exact ended
  | @cons g g' op rest allowed after ih =>
    have awake : g.status t ≠ .blocked ∧ g.status t ≠ .running := by
      rcases ended with zombie | dying
      · rw [zombie]; simp
      · rw [dying]; simp
    have still : ∀ c, g.current = some c → t ≠ c := by
      rintro c runs rfl
      exact awake.2 (lined.running t runs).1
    have untouched : (g.perform op).status t = g.status t → (g.perform op).Ended t := by
      intro same
      unfold Sched.Ended
      rw [same]
      exact ended
    have ended' : (g.perform op).Ended t := by
      cases op with
      | unblock u on | wake u =>
        have other : t ≠ u := by
          rintro rfl
          exact awake.1 allowed.2.1
        exact untouched (by simp [Sched.perform, other])
      | zombify u =>
        by_cases self : t = u
        · exact .inl (by simp [Sched.perform, self])
        · exact untouched (by simp [Sched.perform, self])
      | block c | sleep c | yield c | zombie c | die c =>
        exact untouched (by simp [Sched.perform, still c allowed])
      | dispatch u =>
        have other : t ≠ u := fun self => kept (self ▸ List.mem_cons_self)
        exact untouched (by simp [Sched.perform, other])
      | spawn u =>
        have other : t ≠ u := by
          rw [show u = g.created from allowed]
          exact Nat.ne_of_lt young
        exact untouched (by simp [Sched.perform, other])
      | free u => exact ended
    refine ih (linedPerform lined allowed) ended' ?_
      (fun inside => kept (List.mem_cons_of_mem _ inside))
    cases op with
    | spawn u => exact Nat.lt_succ_of_lt young
    | _ => exact young

theorem endedSince (performs : Performs g list g') (ended : g'.Ended t) :
    g.Ended t ∨ Op.zombify t ∈ list ∨ Op.zombie t ∈ list ∨ Op.die t ∈ list := by
  induction performs with
  | nil => exact .inl ended
  | @cons g g' op rest allowed after ih =>
    rcases ih ended with before | zombify | zombie | die
    · by_cases first : op = .zombify t
      · exact .inr (.inl (first ▸ List.mem_cons_self))
      by_cases second : op = .zombie t
      · exact .inr (.inr (.inl (second ▸ List.mem_cons_self)))
      by_cases third : op = .die t
      · exact .inr (.inr (.inr (third ▸ List.mem_cons_self)))
      left
      unfold Sched.Ended at before ⊢
      cases op with
      | zombify u | zombie u | die u =>
        have other : t ≠ u := fun same => by subst same; contradiction
        simpa [Sched.perform, other] using before
      | free u => exact before
      | unblock u on | wake u | block u | sleep u | yield u | dispatch u | spawn u =>
        by_cases other : t = u
        · simp [Sched.perform, other] at before
        · simpa [Sched.perform, other] using before
    · exact .inr (.inl (List.mem_cons_of_mem _ zombify))
    · exact .inr (.inr (.inl (List.mem_cons_of_mem _ zombie)))
    · exact .inr (.inr (.inr (List.mem_cons_of_mem _ die)))

end Bare
end Pintos.Userprog
