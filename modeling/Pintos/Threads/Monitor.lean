import Pintos.Threads.Exclusion
import Pintos.Threads.Faults
import Pintos.Threads.Frames

/-! Conditions as the part of a Mesa monitor. Beside the kernel the machine writes down
what each thread has called last, who slept in cond_wait when it called cond_signal or
cond_broadcast, and whom it has woken since. cond_wait links its node, releases the lock
and blocks in three critical sections; what is proved here holds as long as the thread
keeps the processor from the first to the last. -/
namespace Pintos.Threads
open Machine

attribute [local simp] Function.update_apply

structure Monitor where
  kernel : Kernel
  op : Tid → Option Op
  saw : Tid → List Tid
  woke : Tid → List Tid

def asleep (s : Monitor) (c : CondId) (t : Tid) : Bool :=
  match s.op t with
  | some (.condWait d l) =>
    d == c && (s.kernel.thread t).status == .blocked &&
      (s.kernel.thread t).stack == [.lockAcquire l]
  | _ => false

def sleepers (s : Monitor) (c : CondId) : List Tid :=
  (List.range s.kernel.created).filter (asleep s c)

def sleepersFor (s : Monitor) : Op → List Tid
  | .condSignal c _ | .condBroadcast c => sleepers s c
  | _ => []

def wakes (k k' : Kernel) : List Tid :=
  (List.range k.created).filter (fun t =>
    (k.thread t).status == .blocked && (k'.thread t).status == .ready)

def Monitor.note (s : Monitor) (k : Kernel) : Action → Monitor
  | .call op =>
    if s.kernel.cur.stack = [] then
      { kernel := k
        op := Function.update s.op s.kernel.current (some op)
        saw := Function.update s.saw s.kernel.current (sleepersFor s op)
        woke := Function.update s.woke s.kernel.current [] }
    else {s with kernel := k}
  | .run =>
    { s with
      kernel := k
      woke := Function.update s.woke s.kernel.current
        (s.woke s.kernel.current ++ wakes s.kernel k) }
  | .tick => {s with kernel := k}

def observe (s : Monitor) (a : Action) : Except Fault Monitor := do
  let k ← step s.kernel a
  .ok (s.note k a)

def monitorBoot (policy : SchedPolicy) (values : Nat → Nat) : Monitor where
  kernel := boot policy values
  op _ := none
  saw _ := []
  woke _ := []

/-- A condition is used with one lock, which is held when cond_broadcast is called. The
other two functions assert that themselves. -/
def Usage (guard : CondId → LockId) (s : Monitor) : Action → Prop
  | .call (.condWait c l) => l = guard c
  | .call (.condSignal c l) => l = guard c
  | .call (.condBroadcast c) => (s.kernel.lock (guard c)).holder = some s.kernel.current
  | _ => True

def insideWait (k : Kernel) : Bool :=
  k.cur.stack.any (fun f => match f with
    | .condWaitBlock _ => true
    | _ => false)

def Stays (k : Kernel) : Action → Prop
  | .run => insideWait k = false ∨ k.cur.stack.head? ≠ some .threadYield
  | .tick => insideWait k = false ∨ k.threadTicks + 1 < timeSlice
  | .call _ => True

instance (guard s a) : Decidable (Usage guard s a) := by
  unfold Usage
  split <;> infer_instance

instance (k a) : Decidable (Stays k a) := by
  unfold Stays
  split <;> infer_instance

structure MonitorRight (s : Monitor) : Prop where
  signal : ∀ u c l, s.op u = some (.condSignal c l) → (s.kernel.thread u).stack = [] →
    s.saw u = [] ∧ s.woke u = [] ∨ ∃ t ∈ s.saw u, s.woke u = [t]
  broadcast : ∀ u c, s.op u = some (.condBroadcast c) → (s.kernel.thread u).stack = [] →
    (s.woke u).Perm (s.saw u)
  noneLost : ∀ c, ∀ t ∈ sleepers s c, t ∈ s.kernel.list (.condWaiters c) ∨ Owed s.kernel t

def Breaks (e : Fault) : Prop :=
  e = .assertion .statusBlocked ∨ e = .assertion .listNotEmpty ∨ (∃ t, e = .linkedTwice t) ∨
    ∃ t, e = .notLinked t

section Kernel
variable {k k' : Kernel} {f : Frame} {rest : List Frame}

theorem wakesNobody (quiet : ∀ t, (k.thread t).status = .blocked → (k'.thread t).status ≠ .ready) :
    wakes k k' = [] := by
  refine List.filter_eq_nil_iff.mpr ?_
  intro t _ both
  simp only [Bool.and_eq_true, beq_iff_eq] at both
  exact quiet t both.1 both.2

theorem yieldWakesNobody (coh : Coherent k) (ok : threadYield k = .ok k') (t)
    (blocked : (k.thread t).status = .blocked) : (k'.thread t).status ≠ .ready := by
  have other : t ≠ k.current := by
    rintro rfl
    simp [(coh.links.placed k.current).running.mpr rfl] at blocked
  have chosen : ∀ j, (j.thread t).status = .blocked → schedule j = .ok k' →
      (k'.thread t).status ≠ .ready := by
    intro j still next
    rcases scheduleOk next with ⟨_, rfl⟩ | ⟨u, _, q, _, _, rfl⟩
    · by_cases h : t = j.idleThread <;> simp [threadSwitchTail, h, still]
    · by_cases h : t = u <;> simp [threadSwitchTail, unpark, h, still]
  rcases threadYieldOk ok with ⟨_, next⟩ | ⟨_, _, next⟩
  · exact chosen _ (by simp [other, blocked]) next
  · exact chosen _ (by simp [park, other, blocked]) next

def Frame.gentle : Frame → Bool
  | .condSignal _ _ | .condSignalPop _ | .semaUpTail _ | .threadYield => true
  | .condBroadcast _ _ | .condBroadcastPop _ _ | .condBroadcastTail _ _ _ => true
  | _ => false

theorem gentleWakesNobody (coh : Coherent k) (top : k.cur.stack = f :: rest)
    (gentle : f.gentle = true) (ok : runFrame k f rest = .ok k') : wakes k k' = [] := by
  have still (same : ∀ t, (k'.thread t).status = (k.thread t).status) : wakes k k' = [] :=
    wakesNobody fun t blocked => by rw [same, blocked]; simp
  obtain ⟨new, next, ran⟩ := runFrameRan coh (by rintro l rfl; cases gentle) ok
  cases ran with
  | yields ok =>
    refine wakesNobody fun t blocked => ?_
    refine yieldWakesNobody (coherentPop coh top (by simp) rfl) ok t ?_
    by_cases h : t = k.current <;> simpa [h] using blocked
  | plain | sorts => exact still fun t => by by_cases h : t = k.current <;> simp [h]
  | @pops _ _ _ u =>
    refine still fun t => ?_
    by_cases h : t = k.current <;> by_cases hu : t = u <;> simp_all [popped, unpark]
  | tunes kind => rcases kind with ⟨_, rfl⟩ | ⟨_, rfl⟩ <;> cases gentle
  | sleeps kind => cases kind <;> cases gentle
  | counts kind => cases f <;> cases kind <;> cases gentle
  | _ => cases gentle

theorem unblockWakes {t} (coh : Coherent k) (top : k.cur.stack = .threadUnblock t :: rest)
    (ok : runFrame k (.threadUnblock t) rest = .ok k') :
    wakes k k' = [t] ∧ (k'.thread t).status = .ready := by
  have owing : .threadUnblock t ∈ (k.thread k.current).stack := by
    have top' : (k.thread k.current).stack = .threadUnblock t :: rest := top
    simp [top']
  have old := ((coh.owed.pending k.current).target t owing).2
  obtain ⟨k1, woke, last⟩ := bindOk.mp ok
  obtain ⟨blocked, _, rfl⟩ := threadUnblockOk woke
  cases last
  have other : t ≠ k.current := by
    rintro rfl
    simp [(coh.links.placed k.current).running.mpr rfl] at blocked
  refine ⟨?_, by simp [park, other]⟩
  have only : ∀ u, ((k.thread u).status == .blocked &&
      ((((park k .readyList t (readyInsert k t) .ready).setStack rest).thread u).status ==
        .ready)) = (u == t) := by
    intro u
    by_cases hu : u = t
    · subst hu
      simp [park, other, blocked]
    · have same : (((park k .readyList t (readyInsert k t) .ready).setStack rest).thread u).status =
          (k.thread u).status := by
        by_cases hc : u = k.current <;> simp [park, hu, hc, other.symm]
      rw [same, beq_eq_false_iff_ne.mpr hu]
      cases (k.thread u).status <;> rfl
  simp only [wakes, only]
  rw [List.filter_beq]
  simp [List.count_eq_one_of_mem List.nodup_range (List.mem_range.mpr old)]

end Kernel

def Frame.cond : Frame → Bool
  | .condWait _ _ | .condWaitBlock _ | .condSignal _ _ | .condSignalPop _ => true
  | .condBroadcast _ _ | .condBroadcastPop _ _ | .condBroadcastTail _ _ _ => true
  | _ => false

def Op.cond : Op → Bool
  | .condWait _ _ | .condSignal _ _ | .condBroadcast _ => true
  | _ => false

inductive Signals (k : Kernel) (u : Tid) (c : CondId) (l : LockId) (saw woke : List Tid) : Prop where
  | called (stack : (k.thread u).stack = [.condSignal c l]) (nobody : woke = [])
      (sees : (k.lock l).holder = some u → (k.list (.condWaiters c)).Perm saw)
  | pops (stack : (k.thread u).stack = [.condSignalPop c]) (nobody : woke = [])
      (holds : (k.lock l).holder = some u) (sees : (k.list (.condWaiters c)).Perm saw)
      (more : k.list (.condWaiters c) ≠ [])
  | unblocks {t} (stack : (k.thread u).stack = [.threadUnblock t, .semaUpTail t])
      (nobody : woke = []) (inside : t ∈ saw)
  | woken {t} (stack : (∃ v, (k.thread u).stack = [.semaUpTail v]) ∨
        (k.thread u).stack = [.threadYield] ∨ (k.thread u).stack = [])
      (one : woke = [t]) (inside : t ∈ saw)
  | vain (stack : (k.thread u).stack = []) (nobody : woke = []) (empty : saw = [])

inductive Broadcasts (k : Kernel) (u : Tid) (c : CondId) (l : LockId) (saw woke : List Tid) :
    Prop where
  | loops {flag} (stack : (k.thread u).stack = [.condBroadcast c flag])
      (holds : (k.lock l).holder = some u) (left : saw.Perm (woke ++ k.list (.condWaiters c)))
  | pops {flag} (stack : (k.thread u).stack = [.condBroadcastPop c flag])
      (holds : (k.lock l).holder = some u) (left : saw.Perm (woke ++ k.list (.condWaiters c)))
      (more : k.list (.condWaiters c) ≠ [])
  | unblocks {flag t} (stack : (k.thread u).stack = [.threadUnblock t, .condBroadcastTail c flag t])
      (holds : (k.lock l).holder = some u)
      (left : saw.Perm (woke ++ t :: k.list (.condWaiters c)))
  | tests {flag t} (stack : (k.thread u).stack = [.condBroadcastTail c flag t])
      (holds : (k.lock l).holder = some u) (left : saw.Perm (woke ++ k.list (.condWaiters c)))
  | ends (stack : (k.thread u).stack = [.threadYield] ∨ (k.thread u).stack = [])
      (all : saw.Perm woke)

inductive Waiting (k : Kernel) (u : Tid) (c : CondId) (l : LockId) : Prop where
  | called (stack : (k.thread u).stack = [.condWait c l])
  | inside {f} (stack : (k.thread u).stack = [f, .condWaitBlock c, .lockAcquire l])
      (releases : f = .lockRelease l ∨ f = .semaUp (.lock l) ∨ (∃ t, f = .semaUpTail t) ∨
        f = .threadYield)
  | blocks (stack : (k.thread u).stack = [.condWaitBlock c, .lockAcquire l])
  | asleep (stack : (k.thread u).stack = [.lockAcquire l])
      (found : (k.thread u).status = .blocked →
        (k.thread u).elem = some (.condWaiters c) ∨ Owed k u)
  | ends (stack : (k.thread u).stack = [.lockAcquireLoop l] ∨ (k.thread u).stack = [])

section Stages
variable {k k' : Kernel} {u : Tid} {c : CondId} {l : LockId} {saw woke : List Tid}
  {f : Frame} {rest : List Frame}

section Others
variable (same : (k'.thread u).stack = (k.thread u).stack)
  (holder : (k'.lock l).holder = some u ↔ (k.lock l).holder = some u)
  (list : (k.lock l).holder = some u →
    (k'.list (.condWaiters c)).Perm (k.list (.condWaiters c)))
include same holder list

theorem signalsOther (signals : Signals k u c l saw woke) : Signals k' u c l saw woke := by
  cases signals with
  | called stack nobody sees =>
    exact .called (same.trans stack) nobody
      (fun holds => (list (holder.mp holds)).trans (sees (holder.mp holds)))
  | pops stack nobody holds sees more =>
    refine .pops (same.trans stack) nobody (holder.mpr holds) ((list holds).trans sees) ?_
    exact fun none => more (List.nil_perm.mp (none ▸ list holds))
  | unblocks stack nobody inside => exact .unblocks (same.trans stack) nobody inside
  | woken stack one inside =>
    rw [← same] at stack
    exact .woken stack one inside
  | vain stack nobody empty => exact .vain (same.trans stack) nobody empty

theorem broadcastsOther (broadcasts : Broadcasts k u c l saw woke) :
    Broadcasts k' u c l saw woke := by
  cases broadcasts with
  | loops stack holds left =>
    exact .loops (same.trans stack) (holder.mpr holds)
      (left.trans ((list holds).symm.append_left woke))
  | pops stack holds left more =>
    refine .pops (same.trans stack) (holder.mpr holds)
      (left.trans ((list holds).symm.append_left woke)) ?_
    exact fun none => more (List.nil_perm.mp (none ▸ list holds))
  | unblocks stack holds left =>
    exact .unblocks (same.trans stack) (holder.mpr holds)
      (left.trans (((list holds).symm.cons _).append_left woke))
  | tests stack holds left =>
    exact .tests (same.trans stack) (holder.mpr holds)
      (left.trans ((list holds).symm.append_left woke))
  | ends stack all =>
    rw [← same] at stack
    exact .ends stack all

end Others

theorem waitingOther (waiting : Waiting k u c l)
    (same : (k'.thread u).stack = (k.thread u).stack)
    (found : (k.thread u).stack = [.lockAcquire l] → (k'.thread u).status = .blocked →
      ((k.thread u).status = .blocked →
        (k.thread u).elem = some (.condWaiters c) ∨ Owed k u) →
      (k'.thread u).elem = some (.condWaiters c) ∨ Owed k' u) :
    Waiting k' u c l := by
  cases waiting with
  | called stack => exact .called (same.trans stack)
  | inside stack releases => exact .inside (same.trans stack) releases
  | blocks stack => exact .blocks (same.trans stack)
  | asleep stack before =>
    exact .asleep (same.trans stack) (fun blocked => found stack blocked before)
  | ends stack =>
    rw [← same] at stack
    exact .ends stack

theorem holdsOn (own : Owned k) (coh : Coherent k) (top : k.cur.stack = f :: rest)
    (ok : runFrame k f rest = .ok k') (keeps : f.lock = none)
    (holds : (k.lock l).holder = some k.current) : (k'.lock l).holder = some k.current := by
  have ran : step k .run = .ok k' := by simp only [step, run, top]; exact ok
  refine holderKept own coh ran holds (fun _ _ first => ?_)
  rw [top] at first
  cases first
  simp [Frame.lock] at keeps

theorem samePerm (coh : Coherent k) (top : k.cur.stack = f :: rest)
    (ok : runFrame k f rest = .ok k') (quiet : f.pops = none) (not : ∀ c l, f ≠ .condWait c l) (c) :
    (k'.list (.condWaiters c)).Perm (k.list (.condWaiters c)) := by
  cases frameWaiters coh top ok c with
  | same _ list => exact list
  | links enters => exact absurd enters (not _ _)
  | pops takes => simp [quiet] at takes

theorem signalsOwn (own : Owned k) (coh : Coherent k)
    (signals : Signals k k.current c l saw woke) (top : k.cur.stack = f :: rest)
    (ok : runFrame k f rest = .ok k') :
    Signals k' k.current c l saw (woke ++ wakes k k') := by
  obtain ⟨new, next, after⟩ := frameNext coh top ok
  have top' : (k.thread k.current).stack = f :: rest := top
  cases signals with
  | called stack nobody sees =>
    obtain ⟨rfl, rfl⟩ := List.cons.inj (top'.symm.trans stack)
    have holds : (k.lock l).holder = some k.current := by
      simp only [runFrame, condSignal] at ok
      split at ok <;> try contradiction
      assumption
    have woke' : woke ++ wakes k k' = [] := by
      rw [nobody, gentleWakesNobody coh top rfl ok]
      rfl
    have list := samePerm coh top ok rfl (by simp) c
    rcases next with ⟨none, rfl⟩ | ⟨more, rfl⟩
    · refine .vain after woke' ?_
      have := sees holds
      rw [none] at this
      exact List.nil_perm.mp this
    · refine .pops after woke' (holdsOn own coh top ok rfl holds) (list.trans (sees holds)) ?_
      exact fun none => more (List.nil_perm.mp (none ▸ list))
  | pops stack nobody holds sees more =>
    obtain ⟨rfl, rfl⟩ := List.cons.inj (top'.symm.trans stack)
    obtain ⟨t, first, rfl⟩ := next
    refine .unblocks after ?_ (sees.mem_iff.mp (List.mem_of_mem_head? first))
    rw [nobody, gentleWakesNobody coh top rfl ok]
    rfl
  | unblocks stack nobody inside =>
    obtain ⟨rfl, rfl⟩ := List.cons.inj (top'.symm.trans stack)
    cases next
    refine .woken (.inl ⟨_, after⟩) ?_ inside
    rw [nobody, (unblockWakes coh top ok).1]
    rfl
  | woken stack one inside =>
    rcases stack with ⟨v, stack⟩ | stack | stack
    · obtain ⟨rfl, rfl⟩ := List.cons.inj (top'.symm.trans stack)
      refine .woken ?_ (by rw [one, gentleWakesNobody coh top rfl ok]; rfl) inside
      rcases next with rfl | rfl
      · exact .inr (.inr after)
      · exact .inr (.inl after)
    · obtain ⟨rfl, rfl⟩ := List.cons.inj (top'.symm.trans stack)
      cases next
      exact .woken (.inr (.inr after)) (by rw [one, gentleWakesNobody coh top rfl ok]; rfl) inside
    · rw [stack] at top'
      contradiction
  | vain stack => rw [stack] at top'; contradiction

theorem broadcastsOwn (own : Owned k) (coh : Coherent k)
    (broadcasts : Broadcasts k k.current c l saw woke) (top : k.cur.stack = f :: rest)
    (ok : runFrame k f rest = .ok k') :
    Broadcasts k' k.current c l saw (woke ++ wakes k k') := by
  obtain ⟨new, next, after⟩ := frameNext coh top ok
  have top' : (k.thread k.current).stack = f :: rest := top
  cases broadcasts with
  | loops stack holds left =>
    obtain ⟨rfl, rfl⟩ := List.cons.inj (top'.symm.trans stack)
    have list := samePerm coh top ok rfl (by simp) c
    rw [gentleWakesNobody coh top rfl ok, List.append_nil]
    rcases next with ⟨none, rest⟩ | ⟨more, rfl⟩
    · refine .ends ?_ (by simpa [none] using left)
      rcases rest with rfl | rfl
      · exact .inr after
      · exact .inl after
    · refine .pops after (holdsOn own coh top ok rfl holds)
        (left.trans (list.symm.append_left woke)) ?_
      exact fun none => more (List.nil_perm.mp (none ▸ list))
  | pops stack holds left more =>
    obtain ⟨rfl, rfl⟩ := List.cons.inj (top'.symm.trans stack)
    rw [gentleWakesNobody coh top rfl ok, List.append_nil]
    obtain ⟨t, first, rfl⟩ := next
    refine .unblocks after (holdsOn own coh top ok rfl holds) ?_
    cases frameWaiters coh top ok c with
    | same quiet => simp [Frame.pops] at quiet
    | links enters => simp at enters
    | pops takes list =>
      rw [list] at first left
      cases first
      exact left
  | unblocks stack holds left =>
    obtain ⟨rfl, rfl⟩ := List.cons.inj (top'.symm.trans stack)
    cases next
    have list := samePerm coh top ok rfl (by simp) c
    rw [(unblockWakes coh top ok).1]
    refine .tests after (holdsOn own coh top ok rfl holds) ?_
    rw [List.append_assoc]
    exact left.trans ((list.symm.cons _).append_left woke)
  | tests stack holds left =>
    obtain ⟨rfl, rfl⟩ := List.cons.inj (top'.symm.trans stack)
    have list := samePerm coh top ok rfl (by simp) c
    rw [gentleWakesNobody coh top rfl ok, List.append_nil]
    obtain ⟨flag, rfl⟩ := next
    exact .loops after (holdsOn own coh top ok rfl holds)
      (left.trans (list.symm.append_left woke))
  | ends stack all =>
    rcases stack with stack | stack
    · obtain ⟨rfl, rfl⟩ := List.cons.inj (top'.symm.trans stack)
      cases next
      rw [gentleWakesNobody coh top rfl ok, List.append_nil]
      exact .ends (.inr after) all
    · rw [stack] at top'
      contradiction

theorem waitingOwn (coh : Coherent k) (coh' : Coherent k') (waiting : Waiting k k.current c l)
    (top : k.cur.stack = f :: rest) (ok : runFrame k f rest = .ok k') :
    Waiting k' k.current c l := by
  obtain ⟨new, next, after⟩ := frameNext coh top ok
  have top' : (k.thread k.current).stack = f :: rest := top
  cases waiting with
  | called stack =>
    obtain ⟨rfl, rfl⟩ := List.cons.inj (top'.symm.trans stack)
    cases next
    exact .inside after (.inl rfl)
  | inside stack releases =>
    obtain ⟨rfl, rfl⟩ := List.cons.inj (top'.symm.trans stack)
    rcases releases with rfl | rfl | ⟨t, rfl⟩ | rfl
    · cases next
      exact .inside after (.inr (.inl rfl))
    · rcases next with rfl | ⟨t, rfl⟩
      · exact .blocks after
      · exact .inside after (.inr (.inr (.inl ⟨t, rfl⟩)))
    · rcases next with rfl | rfl
      · exact .blocks after
      · exact .inside after (.inr (.inr (.inr rfl)))
    · cases next
      exact .blocks after
  | blocks stack =>
    obtain ⟨rfl, rfl⟩ := List.cons.inj (top'.symm.trans stack)
    cases next
    refine .asleep after (fun _ => .inl ?_)
    have linked := ((coh.owed.pending k.current).condBlock c (by simp [stack])).2
    have inside := (coh.links.mem k.current _).mpr linked
    have list := samePerm coh top ok rfl (by simp) c
    exact (coh'.links.mem k.current _).mp (list.mem_iff.mpr inside)
  | asleep stack =>
    obtain ⟨rfl, rfl⟩ := List.cons.inj (top'.symm.trans stack)
    rcases next with rfl | rfl
    · exact .ends (.inr after)
    · exact .ends (.inl after)
  | ends stack =>
    rcases stack with stack | stack
    · obtain ⟨rfl, rfl⟩ := List.cons.inj (top'.symm.trans stack)
      rcases next with rfl | rfl
      · exact .ends (.inr after)
      · exact .ends (.inl after)
    · rw [stack] at top'
      contradiction

end Stages

structure Stages (guard : CondId → LockId) (s : Monitor) : Prop where
  coh : Coherent s.kernel
  own : Owned s.kernel
  fresh : ∀ t, s.kernel.created ≤ t → s.op t = none
  plain : ∀ t, (∀ op ∈ s.op t, op.cond = false) →
    ∀ f ∈ (s.kernel.thread t).stack, f.cond = false
  signals : ∀ u c l, s.op u = some (.condSignal c l) →
    l = guard c ∧ Signals s.kernel u c l (s.saw u) (s.woke u)
  broadcasts : ∀ u c, s.op u = some (.condBroadcast c) →
    Broadcasts s.kernel u c (guard c) (s.saw u) (s.woke u)
  waits : ∀ u c l, s.op u = some (.condWait c l) → l = guard c ∧ Waiting s.kernel u c l
  linked : ∀ c, ∀ t ∈ s.kernel.list (.condWaiters c), ∃ l, s.op t = some (.condWait c l) ∧
    ((s.kernel.thread t).stack = [.lockAcquire l] ∨
      .condWaitBlock c ∈ (s.kernel.thread t).stack)
  aimed : ∀ v t, .threadUnblock t ∈ (s.kernel.thread v).stack → s.op t = none ∨
    ∃ f c l, (s.kernel.thread v).stack = [.threadUnblock t, f] ∧
      s.op t = some (.condWait c l) ∧ (s.kernel.lock (guard c)).holder = some v

section Invariant
variable {guard : CondId → LockId} {s : Monitor} {k' : Kernel} {f : Frame} {rest : List Frame}
  {u : Tid} {c : CondId}

section
variable (stages : Stages guard s)
include stages

theorem condTop (stack : (s.kernel.thread u).stack = f :: rest)
    (cond : f.cond = true) : (∃ c l, s.op u = some (.condSignal c l)) ∨
      (∃ c, s.op u = some (.condBroadcast c)) ∨ ∃ c l, s.op u = some (.condWait c l) := by
  by_cases plain : ∀ op ∈ s.op u, op.cond = false
  · have := stages.plain u plain f (by simp [stack])
    simp [cond] at this
  · simp only [not_forall] at plain
    obtain ⟨op, here, is⟩ := plain
    rw [here]
    cases op <;> simp_all [Op.cond]

theorem popsHolds (stack : (s.kernel.thread u).stack = f :: rest)
    (takes : f.pops = some c) : (s.kernel.lock (guard c)).holder = some u ∧
      s.kernel.list (.condWaiters c) ≠ [] ∧ rest = [] := by
  have pop : f = .condSignalPop c ∨ ∃ flag, f = .condBroadcastPop c flag := by
    cases f <;> simp_all [Frame.pops]
  have cond : f.cond = true := by rcases pop with rfl | ⟨flag, rfl⟩ <;> rfl
  rcases condTop stages stack cond with ⟨d, l, op⟩ | ⟨d, op⟩ | ⟨d, l, op⟩
  · obtain ⟨rfl, signals⟩ := stages.signals u d l op
    cases signals with
    | pops here _ holds _ more =>
      obtain ⟨rfl, rfl⟩ := List.cons.inj (stack.symm.trans here)
      cases takes
      exact ⟨holds, more, rfl⟩
    | called here | unblocks here | vain here | woken here =>
      rcases pop with rfl | ⟨flag, rfl⟩ <;> simp [stack] at here
  · cases stages.broadcasts u d op with
    | pops here holds _ more =>
      obtain ⟨rfl, rfl⟩ := List.cons.inj (stack.symm.trans here)
      cases takes
      exact ⟨holds, more, rfl⟩
    | loops here | unblocks here | tests here | ends here =>
      rcases pop with rfl | ⟨flag, rfl⟩ <;> simp [stack] at here
  · cases (stages.waits u d l op).2 with
    | called here | blocks here | asleep here | ends here =>
      rcases pop with rfl | ⟨flag, rfl⟩ <;> simp [stack] at here
    | inside here releases =>
      obtain ⟨rfl, _⟩ := List.cons.inj (stack.symm.trans here)
      rcases pop with rfl | ⟨flag, rfl⟩ <;> simp at releases

theorem condWaitCalled {l}
    (stack : (s.kernel.thread u).stack = .condWait c l :: rest) :
    s.op u = some (.condWait c l) ∧ l = guard c := by
  rcases condTop stages stack rfl with ⟨d, m, op⟩ | ⟨d, op⟩ | ⟨d, m, op⟩
  · cases (stages.signals u d m op).2 with
    | pops here | called here | unblocks here | vain here | woken here => simp [stack] at here
  · cases stages.broadcasts u d op with
    | pops here | loops here | unblocks here | tests here | ends here => simp [stack] at here
  · obtain ⟨rfl, waiting⟩ := stages.waits u d m op
    cases waiting with
    | called here =>
      simp only [stack, List.cons.injEq, Frame.condWait.injEq] at here
      obtain ⟨⟨rfl, rfl⟩, _⟩ := here
      exact ⟨op, rfl⟩
    | blocks here | asleep here | ends here => simp [stack] at here
    | inside here releases =>
      obtain ⟨rfl, _⟩ := List.cons.inj (stack.symm.trans here)
      simp at releases

theorem waitersKept (top : s.kernel.cur.stack = f :: rest)
    (ok : runFrame s.kernel f rest = .ok k') (other : u ≠ s.kernel.current)
    (holds : (s.kernel.lock (guard c)).holder = some u) :
    (k'.list (.condWaiters c)).Perm (s.kernel.list (.condWaiters c)) := by
  cases frameWaiters stages.coh top ok c with
  | same _ list => exact list
  | @links l enters mine =>
    subst enters
    rw [(condWaitCalled stages top).2, holds] at mine
    exact absurd (Option.some.inj mine) other
  | pops takes =>
    rw [(popsHolds stages top takes).1] at holds
    exact absurd (Option.some.inj holds).symm other

theorem waiterAsleep (inside : u ∈ s.kernel.list (.condWaiters c))
    (other : u ≠ s.kernel.current) : asleep s c u = true := by
  obtain ⟨l, op, stack⟩ := stages.linked c u inside
  have linked := (stages.coh.links.mem u _).mp inside
  have stops : some s.kernel.current ≠ some u := fun h => other (Option.some.inj h).symm
  have blocked := (stages.coh.links.placed u).waiting _ stops linked (by simp)
  have here : (s.kernel.thread u).stack = [.lockAcquire l] := by
    rcases stack with stack | pending
    · exact stack
    · have := ((stages.coh.owed.pending u).condBlock c pending).1
      simp [blocked] at this
  simp [asleep, op, blocked, here]
end

theorem asleepOp (sleeps : asleep s c u = true) : ∃ l, s.op u = some (.condWait c l) ∧
    (s.kernel.thread u).status = .blocked ∧ (s.kernel.thread u).stack = [.lockAcquire l] := by
  unfold asleep at sleeps
  split at sleeps <;> try contradiction
  rename_i d l op
  simp only [Bool.and_eq_true, beq_iff_eq] at sleeps
  obtain ⟨⟨rfl, blocked⟩, stack⟩ := sleeps
  exact ⟨l, op, blocked, stack⟩

section
variable (stages : Stages guard s)
include stages

theorem sleeperFound (sleeps : asleep s c u = true) :
    u ∈ s.kernel.list (.condWaiters c) ∨ Owed s.kernel u := by
  obtain ⟨l, op, blocked, stack⟩ := asleepOp sleeps
  cases (stages.waits u c l op).2 with
  | asleep _ found =>
    rcases found blocked with linked | owed
    · exact .inl ((stages.coh.links.mem u _).mpr linked)
    · exact .inr owed
  | called here | blocks here | inside here => simp_all
  | ends here => rcases here with here | here <;> simp_all

theorem runningUnlinked (empty : s.kernel.cur.stack = []) :
    s.kernel.current ∉ s.kernel.list (.condWaiters c) := by
  intro inside
  have linked := (stages.coh.links.mem s.kernel.current _).mp inside
  have running := (stages.coh.links.placed s.kernel.current).running.mpr rfl
  have pending := (stages.coh.owed.pending s.kernel.current).condElem c running linked
  have empty' : (s.kernel.thread s.kernel.current).stack = [] := empty
  simp [empty'] at pending

theorem sleepersWaiters (empty : s.kernel.cur.stack = [])
    (holds : (s.kernel.lock (guard c)).holder = some s.kernel.current) :
    (s.kernel.list (.condWaiters c)).Perm (sleepers s c) := by
  refine (List.perm_ext_iff_of_nodup (stages.coh.links.nodup _)
    (List.nodup_range.filter _)).mpr fun t => ?_
  simp only [List.mem_filter, List.mem_range]
  constructor
  · intro inside
    have other : t ≠ s.kernel.current := by
      rintro rfl
      exact runningUnlinked stages empty inside
    exact ⟨linkedOld stages.coh.links ((stages.coh.links.mem t _).mp inside),
      waiterAsleep stages inside other⟩
  · rintro ⟨_, sleeps⟩
    rcases sleeperFound stages sleeps with inside | ⟨v, owed⟩
    · exact inside
    · obtain ⟨l, op, _, _⟩ := asleepOp sleeps
      rcases stages.aimed v t owed with none | ⟨g, d, m, stack, op', holder⟩
      · simp [op] at none
      · cases Option.some.inj (op.symm.trans op')
        cases Option.some.inj (holds.symm.trans holder)
        have empty' : (s.kernel.thread s.kernel.current).stack = [] := empty
        simp [empty'] at stack

theorem foundAfter (coh' : Coherent k')
    (top : s.kernel.cur.stack = f :: rest) (ok : runFrame s.kernel f rest = .ok k')
    (other : u ≠ s.kernel.current) (blocked : (k'.thread u).status = .blocked)
    (before : (s.kernel.thread u).status = .blocked →
      (s.kernel.thread u).elem = some (.condWaiters c) ∨ Owed s.kernel u) :
    (k'.thread u).elem = some (.condWaiters c) ∨ Owed k' u := by
  obtain ⟨_, others⟩ := frameOthers stages.coh top ok
  obtain ⟨new, next, after⟩ := frameNext stages.coh top ok
  have asleep : (s.kernel.thread u).status = .blocked := by
    by_contra awake
    exact (others u other).2 awake blocked
  rcases before asleep with linked | ⟨v, owed⟩
  · have inside := (stages.coh.links.mem u _).mpr linked
    cases frameWaiters stages.coh top ok c with
    | same _ list => exact .inl ((coh'.links.mem u _).mp (list.mem_iff.mpr inside))
    | links _ _ list =>
      exact .inl ((coh'.links.mem u _).mp (list.mem_iff.mpr (List.mem_cons_of_mem _ inside)))
    | @pops t takes list =>
      rw [list] at inside
      rcases List.mem_cons.mp inside with rfl | still
      · -- the waiter that is taken out is the target of the next frame
        refine .inr ⟨s.kernel.current, ?_⟩
        rw [after]
        have pop : f = .condSignalPop c ∨ ∃ flag, f = .condBroadcastPop c flag := by
          cases f <;> simp_all [Frame.pops]
        rcases pop with rfl | ⟨flag, rfl⟩ <;>
        · obtain ⟨t, first, rfl⟩ := next
          rw [list] at first
          cases first
          simp
      · exact .inl ((coh'.links.mem u _).mp still)
  · by_cases mine : v = s.kernel.current
    · subst mine
      have top' : (s.kernel.thread s.kernel.current).stack = f :: rest := top
      rw [top'] at owed
      rcases List.mem_cons.mp owed with rfl | later
      · rw [(unblockWakes stages.coh top ok).2] at blocked
        contradiction
      · refine .inr ⟨s.kernel.current, ?_⟩
        rw [after]
        exact List.mem_append_right _ later
    · exact .inr ⟨v, by rw [(others v mine).1]; exact owed⟩

theorem linkedAfter (top : s.kernel.cur.stack = f :: rest)
    (ok : runFrame s.kernel f rest = .ok k') (inside : u ∈ k'.list (.condWaiters c)) :
    ∃ l, s.op u = some (.condWait c l) ∧ ((k'.thread u).stack = [.lockAcquire l] ∨
      .condWaitBlock c ∈ (k'.thread u).stack) := by
  obtain ⟨_, others⟩ := frameOthers stages.coh top ok
  obtain ⟨new, next, after⟩ := frameNext stages.coh top ok
  have top' : (s.kernel.thread s.kernel.current).stack = f :: rest := top
  have old : u ∈ s.kernel.list (.condWaiters c) → ∃ l, s.op u = some (.condWait c l) ∧
      ((k'.thread u).stack = [.lockAcquire l] ∨ .condWaitBlock c ∈ (k'.thread u).stack) := by
    intro before
    obtain ⟨l, op, stack⟩ := stages.linked c u before
    refine ⟨l, op, ?_⟩
    by_cases mine : u = s.kernel.current
    · subst mine
      have linked := (stages.coh.links.mem s.kernel.current _).mp before
      have running := (stages.coh.links.placed s.kernel.current).running.mpr rfl
      have pending := (stages.coh.owed.pending s.kernel.current).condElem c running linked
      rw [top'] at pending
      rcases List.mem_cons.mp pending with rfl | later
      · cases next
        cases (stages.waits _ c l op).2 with
        | blocks here =>
          obtain ⟨_, rfl⟩ := List.cons.inj (top'.symm.trans here)
          exact .inl after
        | called here | asleep here | ends here => simp [top'] at here
        | inside here releases =>
          obtain ⟨rfl, _⟩ := List.cons.inj (top'.symm.trans here)
          simp at releases
      · rw [after]
        exact .inr (List.mem_append_right _ later)
    · rw [(others u mine).1]
      exact stack
  cases frameWaiters stages.coh top ok c with
  | same _ list => exact old (list.mem_iff.mp inside)
  | pops _ list => exact old (by rw [list]; exact List.mem_cons_of_mem _ inside)
  | @links l enters _ list =>
    rcases List.mem_cons.mp (list.mem_iff.mp inside) with rfl | before
    · subst enters
      cases next
      refine ⟨l, (condWaitCalled stages top').1, .inr ?_⟩
      rw [after]
      simp
    · exact old before

theorem aimedAfter {v} (top : s.kernel.cur.stack = f :: rest)
    (ok : runFrame s.kernel f rest = .ok k') (owed : .threadUnblock u ∈ (k'.thread v).stack) :
    s.op u = none ∨ ∃ g c l, (k'.thread v).stack = [.threadUnblock u, g] ∧
      s.op u = some (.condWait c l) ∧ (k'.lock (guard c)).holder = some v := by
  obtain ⟨_, others⟩ := frameOthers stages.coh top ok
  obtain ⟨new, next, after⟩ := frameNext stages.coh top ok
  have ran : step s.kernel .run = .ok k' := by simp only [step, run, top]; exact ok
  have top' : (s.kernel.thread s.kernel.current).stack = f :: rest := top
  by_cases mine : v = s.kernel.current
  · subst mine
    rw [after] at owed
    rcases List.mem_append.mp owed with fresh | later
    · -- only thread_create and the pops aim at a new thread
      have pop {d} (takes : f.pops = some d) (first : u ∈ (s.kernel.list (.condWaiters d)).head?) {g}
          (aims : new = [.threadUnblock u, g]) : s.op u = none ∨
          ∃ g c l, (k'.thread s.kernel.current).stack = [.threadUnblock u, g] ∧
            s.op u = some (.condWait c l) ∧ (k'.lock (guard c)).holder = some s.kernel.current := by
        obtain ⟨holds, _, rfl⟩ := popsHolds stages top' takes
        obtain ⟨l, op, _⟩ := stages.linked d u (List.mem_of_mem_head? first)
        refine .inr ⟨g, d, l, by rw [after, aims]; rfl, op, ?_⟩
        refine holdsOn stages.own stages.coh top ok ?_ holds
        cases f <;> simp_all [Frame.pops, Frame.lock]
      cases f with
      | threadCreate p =>
        cases next
        simp only [List.mem_cons, reduceCtorEq, Frame.threadUnblock.injEq, List.not_mem_nil,
          or_false, false_or] at fresh
        exact .inl (fresh ▸ stages.fresh _ (Nat.le_refl _))
      | condSignalPop d | condBroadcastPop d flag =>
        obtain ⟨t, first, rfl⟩ := next
        simp only [List.mem_cons, reduceCtorEq, Frame.threadUnblock.injEq, List.not_mem_nil,
          or_false] at fresh
        subst fresh
        exact pop rfl first rfl
      | _ =>
        simp only [Next] at next
        grind
    · have before : .threadUnblock u ∈ (s.kernel.thread s.kernel.current).stack := by
        rw [top']
        exact List.mem_cons_of_mem _ later
      rcases stages.aimed _ u before with none | ⟨g, c, l, stack, _⟩
      · exact .inl none
      · obtain ⟨rfl, rfl⟩ := List.cons.inj (top'.symm.trans stack)
        have quiet := restQuiet stages.coh top rfl _ later
        simp [Frame.owes] at quiet
  · rw [(others v mine).1] at owed ⊢
    rcases stages.aimed v u owed with none | ⟨g, c, l, stack, op, holds⟩
    · exact .inl none
    · exact .inr ⟨g, c, l, stack, op,
        holderKept stages.own stages.coh ran holds (fun runs _ => absurd runs mine)⟩
end

theorem nextPlain {k new} (next : Next k new f) (calm : f.cond = false) :
    ∀ g ∈ new, g.cond = false := by
  cases f <;> simp only [Next, Frame.cond, Bool.true_eq_false] at next calm <;>
    grind [Frame.cond]

section
variable (stages : Stages guard s)
include stages

theorem plainAfter (top : s.kernel.cur.stack = f :: rest)
    (ok : runFrame s.kernel f rest = .ok k') (plain : ∀ op ∈ s.op u, op.cond = false) :
    ∀ g ∈ (k'.thread u).stack, g.cond = false := by
  obtain ⟨_, others⟩ := frameOthers stages.coh top ok
  obtain ⟨new, next, after⟩ := frameNext stages.coh top ok
  by_cases mine : u = s.kernel.current
  · subst mine
    have before := stages.plain _ plain
    have top' : (s.kernel.thread s.kernel.current).stack = f :: rest := top
    rw [top'] at before
    have calm := before f List.mem_cons_self
    intro g inside
    rw [after] at inside
    rcases List.mem_append.mp inside with fresh | later
    · exact nextPlain next calm g fresh
    · exact before g (List.mem_cons_of_mem _ later)
  · rw [(others u mine).1]
    exact stages.plain u plain

theorem stagesRun (top : s.kernel.cur.stack = f :: rest)
    (ok : runFrame s.kernel f rest = .ok k') : Stages guard (s.note k' .run) := by
  have ran : step s.kernel .run = .ok k' := by simp only [step, run, top]; exact ok
  have coh' := stepCoherent stages.coh ran
  obtain ⟨created, others⟩ := frameOthers stages.coh top ok
  have holder {u l} (other : u ≠ s.kernel.current) : (k'.lock l).holder = some u ↔
      (s.kernel.lock l).holder = some u := by
    refine ⟨fun after => ?_, fun before => ?_⟩
    · exact (holderChange stages.own stages.coh ran after).resolve_right (fun h => other h.1)
    · exact holderKept stages.own stages.coh ran before (fun runs => absurd runs other)
  constructor
  case coh => exact coh'
  case own => exact stepOwned stages.own stages.coh ran
  case fresh => exact fun t young => stages.fresh t (Nat.le_trans created young)
  case plain => exact fun t plain => plainAfter stages top ok plain
  case signals =>
    intro u c l op
    obtain ⟨rfl, signals⟩ := stages.signals u c l op
    refine ⟨rfl, ?_⟩
    by_cases mine : u = s.kernel.current
    · subst mine
      simpa [Monitor.note] using signalsOwn stages.own stages.coh signals top ok
    · simpa [Monitor.note, mine] using signalsOther (others u mine).1 (holder mine)
        (waitersKept stages top ok mine) signals
  case broadcasts =>
    intro u c op
    have broadcasts := stages.broadcasts u c op
    by_cases mine : u = s.kernel.current
    · subst mine
      simpa [Monitor.note] using broadcastsOwn stages.own stages.coh broadcasts top ok
    · simpa [Monitor.note, mine] using broadcastsOther (others u mine).1 (holder mine)
        (waitersKept stages top ok mine) broadcasts
  case waits =>
    intro u c l op
    obtain ⟨rfl, waiting⟩ := stages.waits u c l op
    refine ⟨rfl, ?_⟩
    by_cases mine : u = s.kernel.current
    · subst mine
      exact waitingOwn stages.coh coh' waiting top ok
    · exact waitingOther waiting (others u mine).1
        (fun _ blocked before => foundAfter stages coh' top ok mine blocked before)
  case linked =>
    intro c t inside
    have after := linkedAfter stages top ok inside
    exact after
  case aimed =>
    intro v t owed
    have after := aimedAfter stages top ok owed
    exact after

theorem stagesTick (own' : Owned k')
    (ok : timerInterrupt s.kernel = .ok k') : Stages guard {s with kernel := k'} := by
  have coh' := timerInterruptCoherent stages.coh ok
  have apart (u : Tid) : u ≠ u + 1 := Nat.ne_of_lt (Nat.lt_succ_self _)
  have so (u : Tid) := timerInterruptElsewhere (u + 1) stages.coh ok
  have stack (u) : (k'.thread u).stack = (s.kernel.thread u).stack := (so u).stack u (apart u)
  have list (c) : k'.list (.condWaiters c) = s.kernel.list (.condWaiters c) :=
    (so 0).list _ (by simp) (by simp [Frame.queue])
  have holder (l) : (k'.lock l).holder = (s.kernel.lock l).holder := by
    rw [(so 0).lock l (by simp [Frame.lock])]
  constructor
  case coh => exact coh'
  case own => exact own'
  case fresh => exact fun t young => stages.fresh t (Nat.le_trans (so 0).created young)
  case plain =>
    intro t plain
    rw [stack]
    exact stages.plain t plain
  case signals =>
    intro u c l op
    obtain ⟨rfl, signals⟩ := stages.signals u c l op
    exact ⟨rfl, signalsOther (stack u) (by rw [holder]) (fun _ => by rw [list]) signals⟩
  case broadcasts =>
    intro u c op
    exact broadcastsOther (stack u) (by rw [holder]) (fun _ => by rw [list])
      (stages.broadcasts u c op)
  case waits =>
    intro u c l op
    obtain ⟨rfl, waiting⟩ := stages.waits u c l op
    refine ⟨rfl, waitingOther waiting (stack u) (fun _ blocked before => ?_)⟩
    have asleep : (s.kernel.thread u).status = .blocked := by
      by_contra awake
      exact (so u).awake u (apart u) awake blocked
    rcases before asleep with linked | ⟨v, owed⟩
    · refine .inl ((coh'.links.mem u _).mp ?_)
      rw [list]
      exact (stages.coh.links.mem u _).mpr linked
    · exact .inr ⟨v, by rw [stack]; exact owed⟩
  case linked =>
    intro c t inside
    rw [list] at inside
    rw [stack]
    exact stages.linked c t inside
  case aimed =>
    intro v t owed
    rw [stack] at owed ⊢
    simp only [holder]
    exact stages.aimed v t owed

theorem stagesCall {op} (empty : s.kernel.cur.stack = [])
    (uses : Usage guard s (.call op)) :
    Stages guard (s.note (s.kernel.setStack [op.frame]) (.call op)) := by
  have empty' : (s.kernel.thread s.kernel.current).stack = [] := empty
  have ran : step s.kernel (.call op) = .ok (s.kernel.setStack [op.frame]) := by
    simp only [step, empty, if_pos]
  have stack {u} (other : u ≠ s.kernel.current) :
      ((s.kernel.setStack [op.frame]).thread u).stack = (s.kernel.thread u).stack := by
    simp [other]
  rw [Monitor.note, if_pos empty]
  constructor
  case coh => exact stepCoherent stages.coh ran
  case own => exact stepOwned stages.own stages.coh ran
  case fresh =>
    intro t young
    have other : t ≠ s.kernel.current := by
      rintro rfl
      exact absurd (runningOld stages.coh.links rfl) (Nat.not_lt.mpr young)
    simpa [other] using stages.fresh t young
  case plain =>
    intro t plain
    by_cases mine : t = s.kernel.current
    · subst mine
      have calm : op.cond = false := plain op (by simp)
      cases op <;> simp_all [Op.frame, Frame.cond, Op.cond]
    · rw [stack mine]
      exact stages.plain t (by simpa [mine] using plain)
  case signals =>
    intro u c l called
    by_cases mine : u = s.kernel.current
    · subst mine
      obtain rfl : op = .condSignal c l := by simpa using called
      obtain rfl : l = guard c := uses
      refine ⟨rfl, .called (by simp [Op.frame]) (by simp) (fun holds => ?_)⟩
      simpa [sleepersFor] using sleepersWaiters stages empty holds
    · obtain ⟨rfl, signals⟩ := stages.signals u c l (by simpa [mine] using called)
      refine ⟨rfl, ?_⟩
      simpa [mine] using signalsOther (stack mine) Iff.rfl (fun _ => .refl _) signals
  case broadcasts =>
    intro u c called
    by_cases mine : u = s.kernel.current
    · subst mine
      obtain rfl : op = .condBroadcast c := by simpa using called
      have begins : ((s.kernel.setStack [Op.frame (.condBroadcast c)]).thread
          s.kernel.current).stack = [.condBroadcast c false] := by simp [Op.frame]
      refine .loops begins uses ?_
      simpa [sleepersFor] using (sleepersWaiters stages empty uses).symm
    · have broadcasts := stages.broadcasts u c (by simpa [mine] using called)
      simpa [mine] using broadcastsOther (stack mine) Iff.rfl (fun _ => .refl _) broadcasts
  case waits =>
    intro u c l called
    by_cases mine : u = s.kernel.current
    · subst mine
      obtain rfl : op = .condWait c l := by simpa using called
      exact ⟨uses, .called (by simp [Op.frame])⟩
    · obtain ⟨rfl, waiting⟩ := stages.waits u c l (by simpa [mine] using called)
      refine ⟨rfl, waitingOther waiting (stack mine) (fun _ blocked before => ?_)⟩
      simp only [Kernel.setStack, Kernel.setThread, Function.update_of_ne mine] at blocked ⊢
      rcases before blocked with linked | ⟨v, owed⟩
      · exact .inl linked
      · have other : v ≠ s.kernel.current := by
          rintro rfl
          simp [empty'] at owed
        exact .inr ⟨v, by simpa [other] using owed⟩
  case linked =>
    intro c t inside
    have other : t ≠ s.kernel.current := by
      rintro rfl
      exact runningUnlinked stages empty inside
    simpa [other] using stages.linked c t inside
  case aimed =>
    intro v t owed
    have other : v ≠ s.kernel.current := by
      rintro rfl
      cases op <;> simp [Op.frame] at owed
    have before : .threadUnblock t ∈ (s.kernel.thread v).stack := by simpa [other] using owed
    have target : t ≠ s.kernel.current := by
      rintro rfl
      exact runningNotOwed stages.coh ⟨v, before⟩
    simpa [other, target] using stages.aimed v t before

theorem stagesStep {a s'} (uses : Usage guard s a)
    (ok : observe s a = .ok s') : Stages guard s' := by
  obtain ⟨k', ran, last⟩ := bindOk.mp ok
  cases last
  have own' := stepOwned stages.own stages.coh ran
  cases a with
  | run =>
    rcases stepOk ran with rfl | ⟨f, rest, _, top, frame⟩ | ⟨op, other, _⟩ | ⟨other, _⟩
    · have same : s.note s.kernel .run = s := by
        have nobody : wakes s.kernel s.kernel = [] :=
          wakesNobody fun t blocked => by rw [blocked]; simp
        simp [Monitor.note, nobody]
      rw [same]
      exact stages
    · exact stagesRun stages top frame
    · contradiction
    · contradiction
  | call op =>
    simp only [step, Except.ok.injEq] at ran
    split at ran
    · rename_i empty
      subst ran
      exact stagesCall stages empty uses
    · rename_i busy
      subst ran
      rw [Monitor.note, if_neg busy]
      exact stages
  | tick =>
    rcases stepOk ran with rfl | ⟨_, _, other, _⟩ | ⟨op, other, _⟩ | ⟨_, _, ticked⟩
    · exact stages
    · contradiction
    · contradiction
    · exact stagesTick stages own' ticked
end

theorem stagesBoot (policy values) : Stages guard (monitorBoot policy values) := by
  constructor
  case coh => exact bootCoherent policy values
  case own => exact bootOwned policy values
  case fresh => exact fun _ _ => rfl
  case plain =>
    intro t _ f inside
    by_cases h0 : t = 0 <;> by_cases h1 : t = 1 <;> simp_all [monitorBoot, boot, Frame.cond]
  case linked => simp [monitorBoot, boot]
  case aimed => exact fun _ _ _ => .inl rfl
  all_goals
    intros
    contradiction

theorem monitorRight (stages : Stages guard s) : MonitorRight s where
  signal u c l op ended := by
    cases (stages.signals u c l op).2 with
    | called stack | pops stack | unblocks stack => simp [ended] at stack
    | woken _ one inside => exact .inr ⟨_, inside, one⟩
    | vain _ nobody empty => exact .inl ⟨empty, nobody⟩
  broadcast u c op ended := by
    cases stages.broadcasts u c op with
    | loops stack | pops stack | unblocks stack | tests stack => simp [ended] at stack
    | ends _ all => exact all.symm
  noneLost c t sleeps := sleeperFound stages (List.mem_filter.mp sleeps).2

theorem insideYields {d} (stages : Stages guard s) (top : s.kernel.cur.stack = f :: rest)
    (linked : s.kernel.cur.elem = some (.condWaiters d)) (links : f.links = true) :
    f = .threadYield := by
  have top' : (s.kernel.thread s.kernel.current).stack = f :: rest := top
  obtain ⟨l, op, _⟩ := stages.linked d _ ((stages.coh.links.mem _ _).mpr linked)
  have running := (stages.coh.links.placed s.kernel.current).running.mpr rfl
  have pending := (stages.coh.owed.pending s.kernel.current).condElem d running linked
  cases (stages.waits _ d l op).2 with
  | inside here releases =>
    obtain ⟨rfl, _⟩ := List.cons.inj (top'.symm.trans here)
    rcases releases with rfl | rfl | ⟨t, rfl⟩ | rfl <;> simp_all [Frame.links]
  | blocks here =>
    obtain ⟨rfl, _⟩ := List.cons.inj (top'.symm.trans here)
    simp [Frame.links] at links
  | called here | asleep here => simp [here] at pending
  | ends here => rcases here with here | here <;> simp [here] at pending

theorem linkedInside {d} (coh : Coherent s.kernel)
    (linked : s.kernel.cur.elem = some (.condWaiters d)) : insideWait s.kernel = true := by
  have running := (coh.links.placed s.kernel.current).running.mpr rfl
  have pending := (coh.owed.pending s.kernel.current).condElem d running linked
  exact List.any_eq_true.mpr ⟨_, pending, rfl⟩

theorem neverBreaks {a} (stages : Stages guard s) (stays : Stays s.kernel a) :
    Never Breaks (observe s a) := by
  refine neverBind ?_ (fun _ _ => neverOk _)
  intro e stops breaks
  cases stepFails stages.coh stops with
  | empty top pops none => exact (popsHolds stages top pops).2.1 none
  | twice linked again =>
    have inside := linkedInside stages.coh linked
    cases a with
    | run =>
      obtain ⟨f, rest, top, links⟩ := again
      rcases stays with outside | other
      · simp [inside] at outside
      · exact other (by rw [top, insideYields stages top linked links]; rfl)
    | tick =>
      rcases stays with outside | short
      · simp [inside] at outside
      · exact absurd again (Nat.not_le.mpr short)
    | call op => exact again
  | policy | notHeld | held | turns | donee => simp [Breaks] at breaks

end Invariant

end Pintos.Threads
