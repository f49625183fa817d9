import Pintos.Threads.Preserve

/-! What a frame leaves alone. A frame works on at most one wait list, one semaphore and
one lock besides ready_list; the others, and what the other threads have still to
execute, are as they were. Only the donation walk reaches further, so lock_acquire is
stated in two parts: the walk, and the sema_down behind it. -/
namespace Pintos.Threads
open Machine

attribute [local simp] Function.update_apply

structure Elsewhere (c : Tid) (f : Frame) (k k' : Kernel) : Prop where
  list : ∀ q, q ≠ .readyList → f.queue ≠ some q → k'.list q = k.list q
  value : ∀ s, f.sema ≠ some s → k'.value s = k.value s
  lock : ∀ l, f.lock ≠ some l → k'.lock l = k.lock l
  stack : ∀ t, t ≠ c → (k'.thread t).stack = (k.thread t).stack
  awake : ∀ t, t ≠ c → (k.thread t).status ≠ .blocked → (k'.thread t).status ≠ .blocked
  wakeUp : ∀ t, t ≠ c → t < k.created → (k'.thread t).wakeUp = (k.thread t).wakeUp
  lockQueue : ∀ t, t ≠ c → t < k.created → (k'.thread t).lockQueue = (k.thread t).lockQueue
  ticks : k'.ticks = k.ticks
  created : k.created ≤ k'.created

section Elsewhere
variable {c : Tid} {f : Frame} {k : Kernel}

theorem elsewhereTrans {a b d} (first : Elsewhere c f a b) (second : Elsewhere c f b d) :
    Elsewhere c f a d where
  list q wait other := (second.list q wait other).trans (first.list q wait other)
  value s other := (second.value s other).trans (first.value s other)
  lock l other := (second.lock l other).trans (first.lock l other)
  stack t other := (second.stack t other).trans (first.stack t other)
  awake t other up := second.awake t other (first.awake t other up)
  wakeUp t other old :=
    (second.wakeUp t other (Nat.lt_of_lt_of_le old first.created)).trans (first.wakeUp t other old)
  lockQueue t other old :=
    (second.lockQueue t other (Nat.lt_of_lt_of_le old first.created)).trans
      (first.lockQueue t other old)
  ticks := second.ticks.trans first.ticks
  created := Nat.le_trans first.created second.created

theorem elsewhereSelf {g} : Elsewhere c f k (k.setThread c g) where
  list _ _ _ := rfl
  value _ _ := rfl
  lock _ _ := rfl
  stack t other := by simp [other]
  awake t other up := by simpa [other] using up
  wakeUp t other _ := by simp [other]
  lockQueue t other _ := by simp [other]
  ticks := rfl
  created := Nat.le_refl _

theorem elsewhereThread {t g} (stack : (g (k.thread t)).stack = (k.thread t).stack)
    (awake : (k.thread t).status ≠ .blocked → (g (k.thread t)).status ≠ .blocked)
    (wakeUp : (g (k.thread t)).wakeUp = (k.thread t).wakeUp)
    (lockQueue : (g (k.thread t)).lockQueue = (k.thread t).lockQueue) :
    Elsewhere c f k (k.setThread t g) where
  list _ _ _ := rfl
  value _ _ := rfl
  lock _ _ := rfl
  stack u _ := by by_cases h : u = t <;> simp [h, stack]
  awake u _ up := by
    by_cases h : u = t
    · subst h; simpa using awake up
    · simpa [h] using up
  wakeUp u _ _ := by by_cases h : u = t <;> simp [h, wakeUp]
  lockQueue u _ _ := by by_cases h : u = t <;> simp [h, lockQueue]
  ticks := rfl
  created := Nat.le_refl _

theorem elsewhereValue {s v} (counts : f.sema = some s) : Elsewhere c f k (k.setValue s v) where
  list _ _ _ := rfl
  value r other := by
    have apart : r ≠ s := by rintro rfl; exact other counts
    simp [apart]
  lock _ _ := rfl
  stack _ _ := rfl
  awake _ _ up := up
  wakeUp _ _ _ := rfl
  lockQueue _ _ _ := rfl
  ticks := rfl
  created := Nat.le_refl _

theorem elsewhereLock {l g} (right : f.lock = some l) : Elsewhere c f k (k.setLock l g) where
  list _ _ _ := rfl
  value _ _ := rfl
  lock m other := by
    have apart : m ≠ l := by rintro rfl; exact other right
    simp [apart]
  stack _ _ := rfl
  awake _ _ up := up
  wakeUp _ _ _ := rfl
  lockQueue _ _ _ := rfl
  ticks := rfl
  created := Nat.le_refl _

theorem elsewhereList {q xs} (right : q = .readyList ∨ f.queue = some q) :
    Elsewhere c f k (k.setList q xs) where
  list r wait other := by
    have apart : r ≠ q := by
      rintro rfl
      exact right.elim wait other
    simp [apart]
  value _ _ := rfl
  lock _ _ := rfl
  stack _ _ := rfl
  awake _ _ up := up
  wakeUp _ _ _ := rfl
  lockQueue _ _ _ := rfl
  ticks := rfl
  created := Nat.le_refl _

theorem elsewhereReady {t xs} : Elsewhere c f k (park k .readyList t xs .ready) :=
  elsewhereTrans (elsewhereList (.inl rfl)) (elsewhereThread rfl (fun _ => by simp) rfl rfl)

theorem elsewherePark {q xs st} (right : q = .readyList ∨ f.queue = some q) :
    Elsewhere c f k (park k q c xs st) :=
  elsewhereTrans (elsewhereList right) elsewhereSelf

theorem elsewhereUnpark {q t} (right : q = .readyList ∨ f.queue = some q) :
    Elsewhere c f k (unpark k q t) :=
  elsewhereTrans (elsewhereList right) (elsewhereThread rfl id rfl rfl)

theorem elsewhereSwitch {t} : Elsewhere c f k (threadSwitchTail k t) := by
  have moved := elsewhereThread (c := c) (f := f) (k := k) (t := t)
    (g := fun th => {th with status := .running}) rfl (fun _ => by simp) rfl rfl
  exact ⟨moved.list, moved.value, moved.lock, moved.stack, moved.awake, moved.wakeUp,
    moved.lockQueue, moved.ticks, moved.created⟩

theorem elsewhereSchedule {k'} (links : Links k none none) (ok : schedule k = .ok k') :
    Elsewhere c f k k' := by
  rcases scheduleOk ok with ⟨_, rfl⟩ | ⟨t, rest, q, front, linked, rfl⟩
  · exact elsewhereSwitch
  · have inside := (links.mem t .readyList).mp (by simp [front])
    cases Option.some.inj (linked.symm.trans inside)
    exact elsewhereTrans (elsewhereUnpark (.inl rfl)) elsewhereSwitch

theorem elsewhereYield {k'} (coh : Coherent k) (ok : threadYield k = .ok k') :
    Elsewhere c f k k' := by
  rcases threadYieldOk ok with ⟨idle, next⟩ | ⟨busy, free, next⟩
  · have links := coh.links
    rw [idle] at links next
    have ready : ThreadStatus.ready ≠ .running := by simp
    have stopped := linksIdleStops links ready
    exact elsewhereTrans (elsewhereThread rfl (fun _ => by simp) rfl rfl)
      (elsewhereSchedule stopped next)
  · have parked := linksYield coh.links busy free
    exact elsewhereTrans elsewhereReady (elsewhereSchedule parked next)

theorem sleepOnParks {q before} [DecidableRel before] {k'} (coh : Coherent k)
    (busy : k.current ≠ k.idleThread) (wait : q ≠ .readyList) (ok : sleepOn k q before = .ok k')
    (c f) : Elsewhere c f
      (park k q k.current ((k.list q).orderedInsert before k.current) .blocked) k' := by
  obtain ⟨free, next⟩ := sleepOnOk ok
  have parked := linksSleep before coh.links busy wait free
  exact elsewhereSchedule parked next

theorem elsewhereStack {st} : Elsewhere k.current f k (k.setStack st) := elsewhereSelf

theorem elsewhereWoken {q t} (right : f.queue = some q) : Elsewhere c f k (woken k q t) :=
  elsewhereTrans (elsewhereUnpark (.inr right)) elsewhereReady

theorem elsewhereTake {l} (sema : f.sema = some (.lock l)) (lock : f.lock = some l) :
    Elsewhere k.current f k (takeLock k l) := by
  unfold takeLock
  exact elsewhereTrans (elsewhereValue sema)
    (elsewhereTrans (elsewhereLock lock) elsewhereSelf)

theorem elsewhereCreate {p rest} (coh : Coherent k) :
    Elsewhere k.current f k (threadCreate k p rest) := by
  have fresh := (coh.owed.pending k.created).fresh (Nat.le_refl _)
  have made : Elsewhere k.current f k {k with
      created := k.created + 1, thread := Function.update k.thread k.created (initThread p)} := by
    refine ⟨fun _ _ _ => rfl, fun _ _ => rfl, fun _ _ => rfl, ?_, ?_, ?_, ?_, rfl,
      Nat.le_succ _⟩
    · intro t _
      by_cases h : t = k.created <;> simp [h, initThread, fresh]
    · intro t _ up
      have other : t ≠ k.created := by
        rintro rfl
        exact up (coh.links.fresh _ (Nat.le_refl _)).2
      simpa [other] using up
    all_goals
      intro t _ old
      simp [Nat.ne_of_lt old]
  unfold threadCreate
  exact elsewhereTrans made elsewhereSelf

theorem elsewhereThen {j k' st} (moved : Elsewhere k.current f k j)
    (stack : (j.thread k.current).stack = st) (after : ∀ c g, Elsewhere c g j k') :
    Elsewhere k.current f k k' ∧ (k'.thread k.current).stack = st := by
  refine ⟨elsewhereTrans moved (after _ _), ?_⟩
  rw [(after (k.current + 1) .idle).stack _ (Nat.ne_of_lt (Nat.lt_succ_self _))]
  exact stack

theorem ranElsewhere {g new rest k'} (coh : Coherent k) (top : k.cur.stack = g :: rest)
    (stands : Stands g f) (next : Next k new f) (ran : Ran k rest f new k') :
    Elsewhere k.current f k k' ∧ (k'.thread k.current).stack = new ++ rest := by
  have top' : (k.thread k.current).stack = g :: rest := top
  cases ran with
  | plain => exact ⟨elsewhereSelf, by simp⟩
  | tunes => exact ⟨elsewhereTrans elsewhereSelf elsewhereSelf, by simp⟩
  | yields ok =>
    exact elsewhereThen elsewhereStack (by simp) fun c g =>
      elsewhereYield (coherentNext coh top stands rfl next) ok
  | readies => exact ⟨elsewhereTrans elsewhereReady elsewhereSelf, by simp [park]⟩
  | creates => exact ⟨elsewhereCreate coh, by simp [threadCreate]⟩
  | idles ok =>
    cases standsSame stands (by simp)
    have idle := (coh.owed.pending k.current).idleFrame (by simp [top'])
    have links := coh.links
    rw [idle] at links
    have blocked : ThreadStatus.blocked ≠ .running := by simp
    have stopped := linksIdleStops links blocked
    rw [← idle] at stopped
    exact elsewhereThen elsewhereSelf (by simpa using top) fun c g => elsewhereSchedule stopped ok
  | @sleeps _ q _ _ _ _ kind _ ok =>
    have light : f.light = true := by cases kind <;> rfl
    have wait : q ≠ .readyList := by cases kind <;> simp
    have right : f.queue = some q := by cases kind <;> rfl
    have busy := standsBusy coh top stands light
    exact elsewhereThen (elsewhereTrans elsewhereStack (elsewherePark (.inr right))) (by simp [park])
      (sleepOnParks (coherentNext coh top stands light next) busy wait ok)
  | counts kind => exact ⟨elsewhereTrans (elsewhereValue kind) elsewhereSelf, by simp⟩
  | wakes =>
    exact ⟨elsewhereTrans (elsewhereWoken rfl) (elsewhereTrans (elsewhereValue rfl) elsewhereSelf),
      by simp [woken, park, unpark]⟩
  | takes =>
    exact ⟨elsewhereTrans (elsewhereTake rfl rfl) (elsewhereTrans elsewhereSelf elsewhereSelf),
      by simp [takeLock]⟩
  | tries =>
    exact ⟨elsewhereTrans (elsewhereTake rfl rfl) (elsewhereTrans (elsewhereLock rfl) elsewhereSelf),
      by simp [takeLock]⟩
  | releases =>
    refine ⟨?_, by simp [released]⟩
    unfold released
    exact elsewhereTrans (elsewhereLock rfl) (elsewhereTrans elsewhereSelf elsewhereSelf)
  | links =>
    exact ⟨elsewhereTrans (elsewhereList (.inr rfl)) (elsewhereTrans elsewhereSelf elsewhereSelf),
      by simp⟩
  | @blocks c _ ok =>
    cases standsSame stands (by simp)
    have busy := currentBusy coh top (by simp)
    have linked := ((coh.owed.pending k.current).condBlock c (by simp [top'])).2
    exact elsewhereThen (elsewhereTrans elsewhereSelf elsewhereSelf) (by simp) fun c g =>
      elsewhereSchedule (condWaitBlockLinks coh busy linked) ok
  | sorts => exact ⟨elsewhereTrans (elsewhereList (.inr rfl)) elsewhereSelf, by simp⟩
  | @pops _ c _ _ _ kind =>
    have right : f.queue = some (.condWaiters c) := by
      rcases kind with ⟨rfl, _⟩ | ⟨_, rfl, _⟩ <;> rfl
    exact ⟨elsewhereTrans (elsewhereUnpark (.inr right))
      (elsewhereTrans (elsewhereThread rfl id rfl rfl) elsewhereSelf), by simp [popped, unpark]⟩

theorem runFrameElsewhere {rest k'} (coh : Coherent k) (top : k.cur.stack = f :: rest)
    (not : ∀ l, f ≠ .lockAcquire l) (ok : runFrame k f rest = .ok k') :
    Elsewhere k.current f k k' := by
  obtain ⟨new, next, ran⟩ := runFrameRan coh not ok
  exact (ranElsewhere coh top (.inl rfl) next ran).1

theorem lockAcquireElsewhere {l rest k'} (coh : Coherent k)
    (top : k.cur.stack = .lockAcquire l :: rest) (ok : lockAcquire k l rest = .ok k') :
    ∃ k1, donateIfHeld (announce k l) l = .ok k1 ∧
      Donated (announce k l).cur.ePri (announce k l) k1 ∧ Coherent k1 ∧
      k1.cur.stack = .lockAcquire l :: rest ∧ lockAcquireLoop k1 l rest = .ok k' ∧
      Elsewhere k.current (.lockAcquireLoop l) k1 k' := by
  obtain ⟨_, k1, walked, donated, coh1, top1, current, last⟩ := lockAcquireRan coh top ok
  obtain ⟨new, next, ran⟩ := lockAcquireLoopRan last
  refine ⟨k1, walked, donated, coh1, top1, last, ?_⟩
  rw [← current]
  exact (ranElsewhere coh1 top1 (.inr ⟨l, rfl, rfl⟩) next ran).1

theorem frameNext {rest k'} (coh : Coherent k) (top : k.cur.stack = f :: rest)
    (ok : runFrame k f rest = .ok k') :
    ∃ new, Next k new f ∧ (k'.thread k.current).stack = new ++ rest := by
  by_cases acquires : ∃ l, f = .lockAcquire l
  · obtain ⟨l, rfl⟩ := acquires
    obtain ⟨_, k1, _, _, coh1, top1, current, last⟩ := lockAcquireRan coh top ok
    obtain ⟨new, next, ran⟩ := lockAcquireLoopRan last
    rw [← current]
    exact ⟨new, next, (ranElsewhere coh1 top1 (.inr ⟨l, rfl, rfl⟩) next ran).2⟩
  · obtain ⟨new, next, ran⟩ := runFrameRan coh (fun l same => acquires ⟨l, same⟩) ok
    exact ⟨new, next, (ranElsewhere coh top (.inl rfl) next ran).2⟩

theorem frameOthers {rest k'} (coh : Coherent k) (top : k.cur.stack = f :: rest)
    (ok : runFrame k f rest = .ok k') : k.created ≤ k'.created ∧ ∀ t, t ≠ k.current →
      (k'.thread t).stack = (k.thread t).stack ∧
      ((k.thread t).status ≠ .blocked → (k'.thread t).status ≠ .blocked) := by
  by_cases acquires : ∃ l, f = .lockAcquire l
  · obtain ⟨l, rfl⟩ := acquires
    obtain ⟨k1, _, donated, _, _, _, so⟩ := lockAcquireElsewhere coh top ok
    have created : k1.created = k.created := donated.similar.created
    refine ⟨created ▸ so.created, fun t other => ⟨?_, fun up => so.awake t other ?_⟩⟩
    · rw [so.stack t other, donated.similar.stack]
      simp [announce, other]
    · rw [donated.similar.status]
      simpa [announce, other] using up
  · have so := runFrameElsewhere coh top (fun l h => acquires ⟨l, h⟩) ok
    exact ⟨so.created, fun t other => ⟨so.stack t other, so.awake t other⟩⟩

theorem elsewhereTicks {m} : Elsewhere c f k {k with threadTicks := m} := by
  constructor <;> intros <;> first | rfl | assumption

theorem timerInterruptWakes {k'} (coh : Coherent k) (ok : timerInterrupt k = .ok k') :
    ∃ k1, wakeSleepers {k with ticks := k.ticks + 1} (k.list .timerSleepList) = .ok k1 ∧
      Coherent k1 ∧ ∀ c f, Elsewhere c f k1 k' := by
  obtain ⟨k1, awake, ends⟩ := timerInterruptOk ok
  have ticked := coherentTicks (k.ticks + 1) k.threadTicks coh
  obtain ⟨coh1, _⟩ := wakeRule (fun _ => True) (fun _ _ _ _ _ _ => trivial) ticked trivial
    (ticked.links.nodup _) (sleepersAsleep ticked) awake
  have counted := coherentTicks k1.ticks (k1.threadTicks + 1) coh1
  refine ⟨k1, awake, coh1, fun c f => ?_⟩
  rcases ends with ⟨_, yields⟩ | ⟨_, rfl⟩
  · exact elsewhereTrans elsewhereTicks (elsewhereYield counted yields)
  · exact elsewhereTicks

theorem timerInterruptElsewhere {k'} (c : Tid) (coh : Coherent k) (ok : timerInterrupt k = .ok k') :
    Elsewhere c .timerSleepBlock {k with ticks := k.ticks + 1} k' := by
  obtain ⟨k1, awake, _, after⟩ := timerInterruptWakes coh ok
  have ticked := coherentTicks (k.ticks + 1) k.threadTicks coh
  obtain ⟨_, woke⟩ := wakeRule (Elsewhere c .timerSleepBlock {k with ticks := k.ticks + 1})
    (fun _ _ _ so _ _ => elsewhereTrans so (elsewhereWoken rfl)) ticked
    (elsewhereTicks (m := k.threadTicks)) (ticked.links.nodup _) (sleepersAsleep ticked) awake
  exact elsewhereTrans woke (after _ _)

inductive Waiters (k k' : Kernel) (f : Frame) (c : CondId) : Prop where
  | same (quiet : f.pops ≠ some c) (list : (k'.list (.condWaiters c)).Perm (k.list (.condWaiters c)))
  | links {l} (enters : f = .condWait c l) (holds : (k.lock l).holder = some k.current)
      (list : (k'.list (.condWaiters c)).Perm (k.current :: k.list (.condWaiters c)))
  | pops {t} (takes : f.pops = some c)
      (list : k.list (.condWaiters c) = t :: k'.list (.condWaiters c))

theorem frameWaiters {rest k'} (coh : Coherent k) (top : k.cur.stack = f :: rest)
    (ok : runFrame k f rest = .ok k') (c) : Waiters k k' f c := by
  by_cases acquires : ∃ l, f = .lockAcquire l
  · obtain ⟨l, rfl⟩ := acquires
    obtain ⟨k1, _, donated, _, _, _, so⟩ := lockAcquireElsewhere coh top ok
    refine .same (by simp [Frame.pops]) ?_
    rw [so.list _ (by simp) (by simp [Frame.queue])]
    exact donated.similar.list _
  obtain ⟨new, next, ran⟩ := runFrameRan coh (fun l same => acquires ⟨l, same⟩) ok
  by_cases here : f.queue = some (.condWaiters c)
  · cases ran with
    | plain kind => exact .same (by cases f <;> simp_all [Frame.pops, Frame.plain]) (.refl _)
    | links held => cases here; exact .links rfl held (by simpa using List.perm_orderedInsert ..)
    | sorts perm => cases here; exact .same (by simp [Frame.pops]) (by simpa using perm)
    | @pops _ _ _ t _ kind front =>
      rcases kind with ⟨rfl, rfl⟩ | ⟨_, rfl, rfl⟩ <;> cases here <;>
        exact .pops (t := t) rfl (by simp [popped, unpark, front])
    | sleeps kind => cases kind <;> cases here
    | tunes kind => rcases kind with ⟨_, rfl⟩ | ⟨_, rfl⟩ <;> cases here
    | counts kind => cases f <;> simp_all [Frame.sema, Frame.queue]
    | _ => cases here
  · refine .same ?_ (by rw [(ranElsewhere coh top (.inl rfl) next ran).1.list _ (by simp) here])
    intro takes
    cases f <;> simp_all [Frame.pops, Frame.queue]

end Elsewhere
end Pintos.Threads
