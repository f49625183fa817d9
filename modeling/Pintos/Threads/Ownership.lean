import Pintos.Threads.Preserve

/-! Who holds which lock. A lock is free, held by the thread whose lock queue it
is in, or on its way from one to the other while its last holder is still to up
the semaphore; `Owned` says so, whatever the interleaving. -/
namespace Pintos.Threads
open Machine Ordered

attribute [local simp] Function.update_apply

def Releasing (k : Kernel) (t : Tid) (l : LockId) : Prop :=
  (k.thread t).stack.head? = some (.semaUp (.lock l))

def Acquiring (k : Kernel) (t : Tid) (l : LockId) : Prop :=
  (k.thread t).stack.head? = some (.lockAcquireLoop l)

def Queued (k : Kernel) (t : Tid) (l : LockId) : Prop :=
  (k.thread t).elem = some (.semaWaiters (.lock l))

structure Owned (k : Kernel) : Prop where
  held : ∀ l t, (k.lock l).holder = some t ↔ l ∈ (k.thread t).lockQueue
  nodup : ∀ t, (k.thread t).lockQueue.Nodup
  sorted : ∀ t, Descending (fun l => (k.lock l).pri) (k.thread t).lockQueue
  small : ∀ l, k.value (.lock l) ≤ 1
  taken : ∀ l t, (k.lock l).holder = some t → k.value (.lock l) = 0
  releasing : ∀ l t, Releasing k t l → k.value (.lock l) = 0 ∧ (k.lock l).holder = none
  single : ∀ l t u, Releasing k t l → Releasing k u l → t = u
  inner : ∀ t, ∀ f ∈ (k.thread t).stack.tail, f.inner = false
  aimed : ∀ t l, Acquiring k t l → (k.thread t).donatedFor = some l
  waiters : ∀ t l, Queued k t l → Acquiring k t l
  fresh : ∀ t, k.created ≤ t → (k.thread t).lockQueue = [] ∧ (k.thread t).donatedFor = none

structure SameLocks (k k' : Kernel) : Prop where
  stack : ∀ t, (k'.thread t).stack = (k.thread t).stack
  lockQueue : ∀ t, (k'.thread t).lockQueue = (k.thread t).lockQueue
  donatedFor : ∀ t, (k'.thread t).donatedFor = (k.thread t).donatedFor
  queued : ∀ t l, Queued k' t l → Queued k t l
  holder : ∀ l, (k'.lock l).holder = (k.lock l).holder
  pri : ∀ l, (k'.lock l).pri = (k.lock l).pri
  value : ∀ l, k'.value (.lock l) = k.value (.lock l)
  created : k'.created = k.created

theorem sameLocksTrans {a b c} (first : SameLocks a b) (second : SameLocks b c) :
    SameLocks a c where
  stack t := (second.stack t).trans (first.stack t)
  lockQueue t := (second.lockQueue t).trans (first.lockQueue t)
  donatedFor t := (second.donatedFor t).trans (first.donatedFor t)
  queued t l queued := first.queued t l (second.queued t l queued)
  holder l := (second.holder l).trans (first.holder l)
  pri l := (second.pri l).trans (first.pri l)
  value l := (second.value l).trans (first.value l)
  created := second.created.trans first.created

theorem ownedFields {k k'} (own : Owned k)
    (stack : ∀ t, (k'.thread t).stack = (k.thread t).stack)
    (lockQueue : ∀ t, (k'.thread t).lockQueue = (k.thread t).lockQueue)
    (holder : ∀ l, (k'.lock l).holder = (k.lock l).holder)
    (pri : ∀ l, (k'.lock l).pri = (k.lock l).pri)
    (value : ∀ l, k'.value (.lock l) = k.value (.lock l))
    (created : k.created ≤ k'.created)
    (waiters : ∀ t l, Queued k' t l → Acquiring k t l)
    (aimed : ∀ t l, Acquiring k t l → (k'.thread t).donatedFor = some l)
    (fresh : ∀ t, k'.created ≤ t → (k'.thread t).donatedFor = none) : Owned k' where
  held l t := by rw [holder, lockQueue]; exact own.held l t
  nodup t := by rw [lockQueue]; exact own.nodup t
  sorted t := by
    simp only [lockQueue, pri]
    exact own.sorted t
  small l := by rw [value]; exact own.small l
  taken l t := by rw [holder, value]; exact own.taken l t
  releasing l t := by
    simp only [Releasing, stack, value, holder]
    exact own.releasing l t
  single l t u := by
    simp only [Releasing, stack]
    exact own.single l t u
  inner t := by rw [stack]; exact own.inner t
  aimed t l := by
    simp only [Acquiring, stack]
    exact aimed t l
  waiters t l queued := by
    simp only [Acquiring, stack]
    exact waiters t l queued
  fresh t old := by
    rw [lockQueue]
    exact ⟨(own.fresh t (Nat.le_trans created old)).1, fresh t old⟩

theorem ownedSame {k k'} (own : Owned k) (same : SameLocks k k') : Owned k' := by
  refine ownedFields own same.stack same.lockQueue same.holder same.pri same.value
    (Nat.le_of_eq same.created.symm) ?_ ?_ ?_
  · exact fun t l queued => own.waiters t l (same.queued t l queued)
  · intro t l acquiring
    rw [same.donatedFor]
    exact own.aimed t l acquiring
  · intro t old
    rw [same.donatedFor]
    exact (own.fresh t (by rwa [← same.created])).2

structure Undisturbed (k k' : Kernel) : Prop extends SameLocks k k' where
  ePri : ∀ t, (k'.thread t).ePri = (k.thread t).ePri
  bPri : ∀ t, (k'.thread t).bPri = (k.thread t).bPri
  stays : ∀ t l, Queued k t l → Queued k' t l

theorem undisturbedTrans {a b c} (first : Undisturbed a b) (second : Undisturbed b c) :
    Undisturbed a c where
  toSameLocks := sameLocksTrans first.toSameLocks second.toSameLocks
  ePri t := (second.ePri t).trans (first.ePri t)
  bPri t := (second.bPri t).trans (first.bPri t)
  stays t l queued := second.stays t l (first.stays t l queued)

section Undisturbed
variable {k : Kernel}

theorem undisturbedThread {t f} (stack : (f (k.thread t)).stack = (k.thread t).stack)
    (lockQueue : (f (k.thread t)).lockQueue = (k.thread t).lockQueue)
    (donatedFor : (f (k.thread t)).donatedFor = (k.thread t).donatedFor)
    (ePri : (f (k.thread t)).ePri = (k.thread t).ePri)
    (bPri : (f (k.thread t)).bPri = (k.thread t).bPri)
    (elem : ∀ l, (f (k.thread t)).elem = some (.semaWaiters (.lock l)) ↔ Queued k t l) :
    Undisturbed k (k.setThread t f) where
  stack u := by by_cases h : u = t <;> simp [h, stack]
  lockQueue u := by by_cases h : u = t <;> simp [h, lockQueue]
  donatedFor u := by by_cases h : u = t <;> simp [h, donatedFor]
  queued u l queued := by
    by_cases h : u = t
    · subst u; exact (elem l).mp (by simpa [Queued] using queued)
    · simpa [Queued, h] using queued
  holder _ := rfl
  pri _ := rfl
  value _ := rfl
  created := rfl
  ePri u := by by_cases h : u = t <;> simp [h, ePri]
  bPri u := by by_cases h : u = t <;> simp [h, bPri]
  stays u l queued := by
    by_cases h : u = t
    · subst u; simpa [Queued] using (elem l).mpr queued
    · simpa [Queued, h] using queued

theorem undisturbedList (q xs) : Undisturbed k (k.setList q xs) := by
  constructor
  · constructor <;> intros <;> try rfl
    assumption
  · intros; rfl
  · intros; rfl
  · exact fun _ _ queued => queued

theorem undisturbedPlain (n v) : Undisturbed k (k.setValue (.plain n) v) := by
  constructor
  · constructor <;> intros <;> first | rfl | assumption
  · intros; rfl
  · intros; rfl
  · exact fun _ _ queued => queued

theorem undisturbedPark {q t xs st} (wait : ∀ l, q ≠ .semaWaiters (.lock l))
    (free : (k.thread t).elem = none) : Undisturbed k (park k q t xs st) := by
  refine undisturbedTrans (undisturbedList q xs) (undisturbedThread rfl rfl rfl rfl rfl ?_)
  intro l
  simp [Queued, free, wait l]

theorem undisturbedUnpark {q t} (wait : ∀ l, q ≠ .semaWaiters (.lock l))
    (linked : (k.thread t).elem = some q) : Undisturbed k (unpark k q t) := by
  refine undisturbedTrans (undisturbedList q _) (undisturbedThread rfl rfl rfl rfl rfl ?_)
  intro l
  simp [Queued, linked, wait l]

theorem undisturbedSwitch (t) : Undisturbed k (threadSwitchTail k t) := by
  have moved : Undisturbed k (k.setThread t (fun th => {th with status := .running})) :=
    undisturbedThread rfl rfl rfl rfl rfl (fun _ => Iff.rfl)
  exact ⟨⟨moved.stack, moved.lockQueue, moved.donatedFor, moved.queued, moved.holder, moved.pri,
    moved.value, moved.created⟩, moved.ePri, moved.bPri, moved.stays⟩

theorem undisturbedSchedule {k'} (links : Links k none none) (ok : schedule k = .ok k') :
    Undisturbed k k' := by
  rcases scheduleOk ok with ⟨_, rfl⟩ | ⟨t, rest, q, front, linked, rfl⟩
  · exact undisturbedSwitch _
  · have ready : (k.thread t).elem = some .readyList := (links.mem t _).mp (by simp [front])
    cases Option.some.inj (linked.symm.trans ready)
    exact undisturbedTrans (undisturbedUnpark (by simp) linked) (undisturbedSwitch _)

theorem undisturbedYield {k'} (coh : Coherent k) (ok : threadYield k = .ok k') :
    Undisturbed k k' := by
  rcases threadYieldOk ok with ⟨idle, next⟩ | ⟨busy, free, next⟩
  · have links := coh.links
    rw [idle] at links next
    exact undisturbedTrans (undisturbedThread rfl rfl rfl rfl rfl (fun _ => Iff.rfl))
      (undisturbedSchedule (linksIdleStops links (by simp)) next)
  · have parked := linksYield coh.links busy free
    exact undisturbedTrans (undisturbedPark (by simp) free) (undisturbedSchedule parked next)

theorem sleepParked {q before} [DecidableRel before] {k'} (coh : Coherent k)
    (busy : k.current ≠ k.idleThread) (wait : q ≠ .readyList) (ok : sleepOn k q before = .ok k') :
    k.cur.elem = none ∧
    Undisturbed (park k q k.current ((k.list q).orderedInsert before k.current) .blocked) k' := by
  obtain ⟨free, next⟩ := sleepOnOk ok
  have parked := linksSleep before coh.links busy wait free
  exact ⟨free, undisturbedSchedule parked next⟩

theorem undisturbedSleep {q before} [DecidableRel before] {k'} (coh : Coherent k)
    (busy : k.current ≠ k.idleThread) (wait : q ≠ .readyList)
    (other : ∀ l, q ≠ .semaWaiters (.lock l)) (ok : sleepOn k q before = .ok k') :
    Undisturbed k k' := by
  obtain ⟨free, moved⟩ := sleepParked coh busy wait ok
  exact undisturbedTrans (undisturbedPark other free) moved

theorem undisturbedWoken {q t} (other : ∀ l, q ≠ .semaWaiters (.lock l))
    (linked : (k.thread t).elem = some q) : Undisturbed k (woken k q t) :=
  undisturbedTrans (undisturbedUnpark other linked) (undisturbedPark (by simp) (by simp [unpark]))

end Undisturbed

theorem runningAwake {k} (coh : Coherent k) (l) : ¬ Queued k k.current l := by
  intro queued
  obtain ⟨c, same⟩ := (coh.links.placed k.current).runElem _ rfl queued
  simp at same

theorem ownedStack {k st} (own : Owned k) (awake : ∀ l, ¬ Queued k k.current l)
    (inner : ∀ f ∈ st.tail, f.inner = false)
    (releases : ∀ l, st.head? = some (.semaUp (.lock l)) →
      k.value (.lock l) = 0 ∧ (k.lock l).holder = none ∧ ∀ u, u ≠ k.current → ¬ Releasing k u l)
    (acquires : ∀ l, st.head? = some (.lockAcquireLoop l) → k.cur.donatedFor = some l) :
    Owned (k.setStack st) := by
  have lockQueue : ∀ u, ((k.setStack st).thread u).lockQueue = (k.thread u).lockQueue := by
    intro u; by_cases h : u = k.current <;> simp [h]
  have donatedFor : ∀ u, ((k.setStack st).thread u).donatedFor = (k.thread u).donatedFor := by
    intro u; by_cases h : u = k.current <;> simp [h]
  have mine : ((k.setStack st).thread k.current).stack = st := by simp
  have others : ∀ u, u ≠ k.current → ((k.setStack st).thread u).stack = (k.thread u).stack := by
    intro u ne; simp [ne]
  have frees : ∀ l t, Releasing (k.setStack st) t l →
      t = k.current ∧ st.head? = some (.semaUp (.lock l)) ∨ t ≠ k.current ∧ Releasing k t l := by
    intro l t h
    unfold Releasing at h ⊢
    by_cases ht : t = k.current
    · subst t; rw [mine] at h; exact .inl ⟨rfl, h⟩
    · rw [others t ht] at h; exact .inr ⟨ht, h⟩
  refine ⟨?_, ?_, ?_, own.small, own.taken, ?_, ?_, ?_, ?_, ?_, ?_⟩
  · intro l t; rw [lockQueue]; exact own.held l t
  · intro t; rw [lockQueue]; exact own.nodup t
  · intro t; rw [lockQueue]; exact own.sorted t
  · intro l t h
    rcases frees l t h with ⟨_, top⟩ | ⟨_, before⟩
    · exact ⟨(releases l top).1, (releases l top).2.1⟩
    · exact own.releasing l t before
  · intro l t u ht hu
    rcases frees l t ht with ⟨rfl, top⟩ | ⟨ne, before⟩
    · rcases frees l u hu with ⟨rfl, _⟩ | ⟨ne, before⟩
      · rfl
      · exact absurd before ((releases l top).2.2 u ne)
    · rcases frees l u hu with ⟨rfl, top⟩ | ⟨_, before'⟩
      · exact absurd before ((releases l top).2.2 t ne)
      · exact own.single l t u before before'
  · intro t
    by_cases ht : t = k.current
    · subst t; rw [mine]; exact inner
    · rw [others t ht]; exact own.inner t
  · intro t l h
    rw [donatedFor]
    unfold Acquiring at h
    by_cases ht : t = k.current
    · subst t; rw [mine] at h; exact acquires l h
    · rw [others t ht] at h; exact own.aimed t l h
  · intro t l queued
    have before : Queued k t l := by
      by_cases ht : t = k.current <;> simpa [Queued, ht] using queued
    have ht : t ≠ k.current := by rintro rfl; exact awake l before
    unfold Acquiring
    rw [others t ht]
    exact own.waiters t l before
  · intro t old
    rw [lockQueue, donatedFor]
    exact own.fresh t old

theorem restOuter {k f rest} (own : Owned k) (top : k.cur.stack = f :: rest) :
    ∀ g ∈ rest, g.inner = false := by
  have inner := own.inner k.current
  simp only [Kernel.cur] at top
  rw [top] at inner
  exact inner

theorem ownedReplace {k f rest} (new : List Frame) (own : Owned k)
    (awake : ∀ l, ¬ Queued k k.current l) (top : k.cur.stack = f :: rest) (outer : ∀ g ∈ new, g.inner = false) :
    Owned (k.setStack (new ++ rest)) := by
  have all : ∀ g ∈ new ++ rest, g.inner = false := by
    intro g hg
    rcases List.mem_append.mp hg with h | h
    · exact outer g h
    · exact restOuter own top g h
  have head : ∀ g, (new ++ rest).head? = some g → g.inner = false :=
    fun g hg => all g (List.mem_of_mem_head? hg)
  refine ownedStack own awake (fun g hg => all g (List.mem_of_mem_tail hg)) ?_ ?_
  all_goals
    intro l h
    simpa [Frame.inner] using head _ h

theorem ownedPop {k f rest} (own : Owned k) (awake : ∀ l, ¬ Queued k k.current l)
    (top : k.cur.stack = f :: rest) : Owned (k.setStack rest) :=
  ownedReplace [] own awake top (by simp)

theorem ownedThread {k t f} (own : Owned k) (stack : (f (k.thread t)).stack = (k.thread t).stack)
    (lockQueue : (f (k.thread t)).lockQueue = (k.thread t).lockQueue)
    (donatedFor : (f (k.thread t)).donatedFor = (k.thread t).donatedFor)
    (elem : (f (k.thread t)).elem = (k.thread t).elem) : Owned (k.setThread t f) := by
  refine ownedSame own ⟨?_, ?_, ?_, ?_, fun _ => rfl, fun _ => rfl, fun _ => rfl, rfl⟩
  · intro u; by_cases h : u = t <;> simp [h, stack]
  · intro u; by_cases h : u = t <;> simp [h, lockQueue]
  · intro u; by_cases h : u = t <;> simp [h, donatedFor]
  · intro u l queued
    by_cases h : u = t
    · subst u; simpa [Queued, elem] using queued
    · simpa [Queued, h] using queued

theorem lockFree {k l} (own : Owned k) (positive : k.value (.lock l) ≠ 0) :
    k.value (.lock l) = 1 ∧ (k.lock l).holder = none ∧ ∀ t, ¬ Releasing k t l := by
  refine ⟨?_, ?_, ?_⟩
  · have := own.small l
    omega
  · cases held : (k.lock l).holder with
    | none => rfl
    | some t => exact absurd (own.taken l t held) positive
  · intro t h
    exact positive (own.releasing l t h).1

theorem notHeld {k l} (own : Owned k) (free : (k.lock l).holder = none) (t) :
    l ∉ (k.thread t).lockQueue := by
  intro inside
  rw [← own.held l t, free] at inside
  contradiction

theorem ownedLock {k k' l t} (own : Owned k) (old : t < k.created)
    (created : k'.created = k.created)
    (stack : ∀ u, (k'.thread u).stack = (k.thread u).stack)
    (donatedFor : ∀ u, (k'.thread u).donatedFor = (k.thread u).donatedFor)
    (queued : ∀ u m, Queued k' u m → Queued k u m)
    (locks : ∀ m, m ≠ l → (k'.lock m).holder = (k.lock m).holder ∧
      (k'.lock m).pri = (k.lock m).pri ∧ k'.value (.lock m) = k.value (.lock m))
    (queues : ∀ u, u ≠ t → (k'.thread u).lockQueue = (k.thread u).lockQueue)
    (mine : ∀ m, m ≠ l → (m ∈ (k'.thread t).lockQueue ↔ m ∈ (k.thread t).lockQueue))
    (nodup : (k'.thread t).lockQueue.Nodup)
    (sorted : Descending (fun m => (k'.lock m).pri) (k'.thread t).lockQueue)
    (out : ∀ u, u ≠ t → l ∉ (k.thread u).lockQueue)
    (holder : ∀ u, (k'.lock l).holder = some u ↔ u = t ∧ l ∈ (k'.thread t).lockQueue)
    (small : k'.value (.lock l) ≤ 1)
    (taken : ∀ u, (k'.lock l).holder = some u → k'.value (.lock l) = 0)
    (releasing : ∀ u, Releasing k u l → k'.value (.lock l) = 0 ∧ (k'.lock l).holder = none) :
    Owned k' := by
  have frees : ∀ u m, Releasing k' u m ↔ Releasing k u m := by
    intro u m; simp only [Releasing, stack]
  refine ⟨?_, ?_, ?_, ?_, ?_, ?_, ?_, ?_, ?_, ?_, ?_⟩
  · intro m u
    by_cases hm : m = l
    · subst m
      rw [holder]
      by_cases hu : u = t
      · simp [hu]
      · simp [hu, queues u hu, out u hu]
    · rw [(locks m hm).1, own.held]
      by_cases hu : u = t
      · subst u; exact (mine m hm).symm
      · rw [queues u hu]
  · intro u
    by_cases hu : u = t
    · subst u; exact nodup
    · rw [queues u hu]; exact own.nodup u
  · intro u
    by_cases hu : u = t
    · subst u; exact sorted
    · rw [queues u hu]
      refine descendingCongr (own.sorted u) ?_
      intro m inside
      exact (locks m (by rintro rfl; exact out u hu inside)).2.1
  · intro m
    by_cases hm : m = l
    · subst m; exact small
    · rw [(locks m hm).2.2]; exact own.small m
  · intro m u
    by_cases hm : m = l
    · subst m; exact taken u
    · rw [(locks m hm).1, (locks m hm).2.2]; exact own.taken m u
  · intro m u h
    have before := (frees u m).mp h
    by_cases hm : m = l
    · subst m; exact releasing u before
    · rw [(locks m hm).1, (locks m hm).2.2]; exact own.releasing m u before
  · intro m u v hu hv
    exact own.single m u v ((frees u m).mp hu) ((frees v m).mp hv)
  · intro u; rw [stack]; exact own.inner u
  · intro u m h
    rw [donatedFor]
    refine own.aimed u m ?_
    simpa only [Acquiring, stack] using h
  · intro u m h
    simp only [Acquiring, stack]
    exact own.waiters u m (queued u m h)
  · intro u later
    rw [created] at later
    have hu : u ≠ t := by rintro rfl; exact absurd old (Nat.not_lt.mpr later)
    rw [queues u hu, donatedFor]
    exact own.fresh u later

theorem lockInserted {k : Kernel} {xs : List LockId} {l} (out : l ∉ xs) (nodup : xs.Nodup)
    (sorted : Descending (fun m => (k.lock m).pri) xs) :
    (xs.orderedInsert (lockBefore k) l).Nodup ∧
    Descending (fun m => (k.lock m).pri) (xs.orderedInsert (lockBefore k) l) := by
  constructor
  · rw [(List.perm_orderedInsert (lockBefore k) l xs).nodup_iff]
    exact List.nodup_cons.mpr ⟨out, nodup⟩
  · refine descendingInsert (fun _ _ h => h) ?_ sorted
    intro a b h
    simp only [lockBefore] at h
    omega

theorem takeLockQueue (k l) : ((takeLock k l).thread k.current).lockQueue =
    k.cur.lockQueue.orderedInsert (lockBefore (takeLock k l)) l := by
  simp only [takeLock, Kernel.setThread, Kernel.setLock, Kernel.setValue, Function.update_self]
  rfl

theorem raiseLockQueue (k l donee p) : ((raiseLock k l donee p).thread donee).lockQueue =
    ((k.thread donee).lockQueue.erase l).orderedInsert (lockBefore (raiseLock k l donee p)) l := by
  simp only [raiseLock, Kernel.setThread, Kernel.setLock, Function.update_self]
  rfl

theorem takeLockOwned {k l} (own : Owned k) (coh : Coherent k)
    (positive : k.value (.lock l) ≠ 0) : Owned (takeLock k l) := by
  obtain ⟨one, free, nobody⟩ := lockFree own positive
  have out := notHeld own free
  have still : Descending (fun m => ((takeLock k l).lock m).pri) k.cur.lockQueue := by
    refine descendingCongr (own.sorted k.current) ?_
    intro m inside
    have apart : m ≠ l := by rintro rfl; exact out _ inside
    simp [takeLock, apart]
  obtain ⟨nodup, sorted⟩ := lockInserted (k := takeLock k l) (out k.current)
    (own.nodup k.current) still
  refine ownedLock (t := k.current) (l := l) own (runningOld coh.links rfl) rfl ?_ ?_ ?_ ?_ ?_ ?_
    ?_ ?_ (fun u _ => out u) ?_ ?_ ?_ ?_
  · intro u; by_cases h : u = k.current <;> simp [takeLock, h]
  · intro u; by_cases h : u = k.current <;> simp [takeLock, h]
  · intro u m; by_cases h : u = k.current <;> simp [takeLock, Queued, h]
  · intro m hm; simp [takeLock, hm]
  · intro u hu; simp [takeLock, hu]
  · intro m hm; simp [takeLockQueue, List.mem_orderedInsert, hm]
  · rw [takeLockQueue]; exact nodup
  · rw [takeLockQueue]; exact sorted
  · intro u
    have inside : l ∈ ((takeLock k l).thread k.current).lockQueue := by
      rw [takeLockQueue]
      exact List.mem_orderedInsert _ |>.mpr (.inl rfl)
    rw [and_iff_left inside]
    simp [takeLock, eq_comm]
  · simp [takeLock, one]
  · simp [takeLock, one]
  · intro u h; exact absurd h (nobody u)

theorem raiseLockOwned {k l donee p} (own : Owned k) (held : (k.lock l).holder = some donee) :
    Owned (raiseLock k l donee p) := by
  have inside := (own.held l donee).mp held
  have old : donee < k.created := by
    by_contra h
    simp [(own.fresh donee (Nat.not_lt.mp h)).1] at inside
  have gone : l ∉ (k.thread donee).lockQueue.erase l := (own.nodup donee).not_mem_erase
  have still : Descending (fun m => ((raiseLock k l donee p).lock m).pri)
      ((k.thread donee).lockQueue.erase l) := by
    refine descendingCongr (descendingErase l (own.sorted donee)) ?_
    intro m hm
    have apart : m ≠ l := by rintro rfl; exact gone hm
    simp [raiseLock, apart]
  obtain ⟨nodup, sorted⟩ := lockInserted (k := raiseLock k l donee p) gone
    ((own.nodup donee).erase l) still
  refine ownedLock (t := donee) (l := l) own old rfl ?_ ?_ ?_ ?_ ?_ ?_ ?_ ?_ ?_ ?_
    (own.small l) ?_ ?_
  · intro u; by_cases h : u = donee <;> simp [raiseLock, h]
  · intro u; by_cases h : u = donee <;> simp [raiseLock, h]
  · intro u m; by_cases h : u = donee <;> simp [raiseLock, Queued, h]
  · intro m hm; simp [raiseLock, hm]
  · intro u hu; simp [raiseLock, hu]
  · intro m hm; simp [raiseLockQueue, List.mem_orderedInsert, hm, List.mem_erase_of_ne hm]
  · rw [raiseLockQueue]; exact nodup
  · rw [raiseLockQueue]; exact sorted
  · intro u hu h
    rw [← own.held, held] at h
    exact hu (Option.some.inj h).symm
  · intro u
    have stays : l ∈ ((raiseLock k l donee p).thread donee).lockQueue := by
      rw [raiseLockQueue]
      exact List.mem_orderedInsert _ |>.mpr (.inl rfl)
    rw [and_iff_left stays]
    simp [raiseLock, held, eq_comm]
  · intro u h; exact own.taken l donee held
  · intro u h
    have := own.releasing l u h
    simp [held] at this

theorem releasedOwned {k l} (own : Owned k) (coh : Coherent k)
    (held : (k.lock l).holder = some k.current) : Owned (released k l) := by
  have gone : l ∉ k.cur.lockQueue.erase l := (own.nodup k.current).not_mem_erase
  refine ownedLock (t := k.current) (l := l) own (runningOld coh.links rfl) rfl ?_ ?_ ?_ ?_ ?_ ?_
    ?_ ?_ ?_ ?_ (own.small l) ?_ ?_
  · intro u; by_cases h : u = k.current <;> simp [released, h]
  · intro u; by_cases h : u = k.current <;> simp [released, h]
  · intro u m; by_cases h : u = k.current <;> simp [released, Queued, h]
  · intro m hm; simp [released, hm]
  · intro u hu; simp [released, hu]
  · intro m hm; simp [released, List.mem_erase_of_ne hm]
  · simpa [released] using (own.nodup k.current).erase l
  · have still : Descending (fun m => ((released k l).lock m).pri) (k.cur.lockQueue.erase l) := by
      refine descendingCongr (descendingErase l (own.sorted k.current)) ?_
      intro m hm
      have apart : m ≠ l := by rintro rfl; exact gone hm
      simp [released, apart]
    simpa [released] using still
  · intro u hu h
    rw [← own.held, held] at h
    exact hu (Option.some.inj h).symm
  · intro u
    have gone' : l ∉ ((released k l).thread k.current).lockQueue := by
      simpa [released] using gone
    simp only [gone', and_false, iff_false]
    simp [released]
  · intro u h; simp [released] at h
  · intro u h
    have := own.releasing l u h
    simp [held] at this

theorem lockReleaseOwned {k l rest k'} (own : Owned k) (coh : Coherent k)
    (top : k.cur.stack = .lockRelease l :: rest) (ok : lockRelease k l rest = .ok k') :
    Owned k' := by
  obtain ⟨held, rfl⟩ := lockReleaseOk ok
  have outer := restOuter own top
  refine ownedStack (releasedOwned own coh held) (runningAwake (releasedCoherent coh)) outer ?_ (by simp)
  intro m same
  cases (by simpa using same : l = m)
  refine ⟨own.taken l _ held, by simp [released], ?_⟩
  intro u ne h
  have before : Releasing k u l := by
    have apart : u ≠ k.current := ne
    simpa [Releasing, released, apart] using h
  have free := (own.releasing l u before).2
  simp [held] at free

end Pintos.Threads
