import Pintos.Lib.Inherit
import Pintos.Threads.Ownership
import Pintos.Threads.Walk

/-! The kernel's locks as an instance of priority inheritance: every action of
the machine is a step of the protocol, the same one each time it happens in the
same state. -/
namespace Pintos.Threads
open Machine Ordered
open Function (update update_apply update_eq_self)
open Inherit (State Event Step)

attribute [local simp] update_apply

def view (k : Kernel) : State Tid LockId where
  ePri t := (k.thread t).ePri
  bPri t := (k.thread t).bPri
  holder l := (k.lock l).holder
  pri l := (k.lock l).pri
  target t := (k.thread t).donatedFor
  asleep t := ∃ l, Queued k t l

def frameEvent (k : Kernel) : Frame → Event Tid LockId
  | .threadSetPriority p => .setBase k.current p.val
  | .threadCreate p => .create k.created p.val
  | .semaUp (.lock l) =>
    match k.list (.semaWaiters (.lock l)) with
    | [] => .none
    | w :: _ => .wake w l
  | .lockAcquire l =>
    if k.value (.lock l) = 0 then
      if int8 ((k.lock l).state - 1) < 0 ∧ (k.lock l).holder ≠ none then
        .donate k.current l (k.created + 1)
      else .wait k.current l
    else .take k.current l
  | .lockAcquireLoop l =>
    if k.value (.lock l) = 0 then .wait k.current l else .take k.current l
  | .lockTryAcquire l => if 0 < k.value (.lock l) then .take k.current l else .none
  | .lockRelease l => .release k.current l
  | _ => .none

def event (k : Kernel) : Action → Event Tid LockId
  | .run =>
    match k.cur.stack with
    | [] => .none
    | f :: _ => frameEvent k f
  | _ => .none

theorem viewWaits {k} (own : Owned k) (l w) : (view k).Waits l w ↔ Queued k w l := by
  constructor
  · rintro ⟨aims, m, queued⟩
    have same := own.aimed w m (own.waiters w m queued)
    cases Option.some.inj (same.symm.trans aims)
    exact queued
  · intro queued
    exact ⟨own.aimed w l (own.waiters w l queued), l, queued⟩

theorem viewUndisturbed {k k'} (same : Undisturbed k k') : view k' = view k := by
  have queued : ∀ t l, Queued k' t l ↔ Queued k t l :=
    fun t l => ⟨same.queued t l, same.stays t l⟩
  ext <;> simp [view, same.ePri, same.bPri, same.holder, same.pri, same.donatedFor, queued]

theorem viewStack (k st) : view (k.setStack st) = view k := by
  ext t <;> simp only [view, Queued, Kernel.setStack, Kernel.setThread, update_apply] <;>
    by_cases h : t = k.current <;> simp [h]

structure Follows (k : Kernel) (ev : Event Tid LockId) (k' : Kernel) : Prop where
  owned : Owned k'
  moved : Step (view k) ev (view k')

theorem followsStill {k k'} (own : Owned k') (same : view k' = view k) : Follows k .none k' :=
  ⟨own, by rw [same]; exact .none⟩

theorem followsUndisturbed {k k'} (own : Owned k) (same : Undisturbed k k') :
    Follows k .none k' :=
  followsStill (ownedSame own same.toSameLocks) (viewUndisturbed same)

theorem followsStack {k ev k' st} (follows : Follows k ev k') (own : Owned (k'.setStack st)) :
    Follows k ev (k'.setStack st) := ⟨own, by rw [viewStack]; exact follows.moved⟩

theorem followsAfter {k k1 ev k'} (same : view k1 = view k) (follows : Follows k1 ev k') :
    Follows k ev k' := ⟨follows.owned, by rw [← same]; exact follows.moved⟩

section Frames
variable {k k' : Kernel} {rest : List Frame}

theorem followsReplace {f} (new : List Frame) (own : Owned k) (coh : Coherent k)
    (top : k.cur.stack = f :: rest) (outer : ∀ g ∈ new, g.inner = false) :
    Follows k .none (k.setStack (new ++ rest)) :=
  followsStill (ownedReplace new own (runningAwake coh) top outer) (viewStack k _)

theorem followsPop {f} (own : Owned k) (coh : Coherent k) (top : k.cur.stack = f :: rest) :
    Follows k .none (k.setStack rest) := followsReplace [] own coh top (by simp)

theorem followsMove {f j} (new : List Frame) (own : Owned k) (coh : Coherent k)
    (top : k.cur.stack = f :: rest) (outer : ∀ g ∈ new, g.inner = false) (same : Undisturbed k j)
    (current : j.current = k.current) : Follows k .none (j.setStack (new ++ rest)) := by
  have follows := followsUndisturbed own same
  refine followsStack follows (ownedReplace new follows.owned ?_ (f := f) ?_ outer)
  · rw [current]
    exact fun m queued => runningAwake coh m (same.queued _ m queued)
  · simp only [Kernel.cur, current, same.stack] at top ⊢
    exact top

theorem followsThen {f} (new : List Frame) (own : Owned k) (coh : Coherent k)
    (top : k.cur.stack = f :: rest) (outer : ∀ g ∈ new, g.inner = false)
    (same : Undisturbed (k.setStack (new ++ rest)) k') : Follows k .none k' :=
  followsAfter (viewStack k _)
    (followsUndisturbed (ownedReplace new own (runningAwake coh) top outer) same)

theorem viewPri (t p q) : view (k.setThread t (fun th => {th with ePri := p, bPri := q})) =
    {view k with
      ePri := update (view k).ePri t p, bPri := update (view k).bPri t q} := by
  ext u <;> by_cases h : u = t <;> simp [view, Queued, h]

theorem viewBase (t q) : view (k.setThread t (fun th => {th with bPri := q})) =
    {view k with bPri := update (view k).bPri t q} := by
  ext u <;> by_cases h : u = t <;> simp [view, Queued, h]

theorem ownedPriorities {g : Frame} {f : Thread → Thread} (new : List Frame) (own : Owned k)
    (coh : Coherent k) (top : (k.thread k.current).stack = g :: rest)
    (outer : ∀ h ∈ new, h.inner = false)
    (same : ∀ th, (f th).stack = th.stack ∧ (f th).lockQueue = th.lockQueue ∧
      (f th).donatedFor = th.donatedFor ∧ (f th).elem = th.elem ∧ (f th).status = th.status ∧
      (f th).queue = th.queue) : Owned ((k.setThread k.current f).setStack (new ++ rest)) := by
  obtain ⟨stack, lockQueue, donatedFor, elem, status, queue⟩ := same (k.thread k.current)
  refine ownedReplace new (ownedThread own stack lockQueue donatedFor elem)
    (runningAwake (coherentThread coh status elem queue stack)) (f := g) ?_ outer
  simpa [stack] using top

theorem threadSetPriorityFollows {p} (own : Owned k) (coh : Coherent k)
    (top : k.cur.stack = .threadSetPriority p :: rest) :
    Follows k (.setBase k.current p.val) (threadSetPriority k p rest) := by
  have awake : ¬ (view k).asleep k.current := fun ⟨l, queued⟩ => runningAwake coh l queued
  unfold threadSetPriority
  split
  · rename_i same
    refine ⟨ownedPop own (runningAwake coh) top, ?_⟩
    rw [viewStack]
    exact .keepBase same
  split
  · rename_i above
    refine ⟨ownedPriorities [] own coh top (by simp) (by simp), ?_⟩
    rw [viewStack, viewPri]
    exact .raiseBase above awake
  split
  · rename_i empty
    refine ⟨ownedPriorities [.threadYield] own coh top (by simp [Frame.inner]) (by simp), ?_⟩
    rw [viewStack, viewPri]
    refine .lowerFree (fun l held => ?_) awake
    have inside := (own.held l k.current).mp held
    simp only [Kernel.cur] at empty
    simp [empty] at inside
  · rename_i changed under holds
    refine ⟨ownedPriorities [] own coh top (by simp) (by simp), ?_⟩
    rw [viewStack, viewBase]
    refine .lowerHeld changed (Nat.not_lt.mp under) ?_
    obtain ⟨l, inside⟩ := List.exists_mem_of_ne_nil _ holds
    exact ⟨l, (own.held l k.current).mpr inside⟩

def spawned (k : Kernel) (p : Priority) : Kernel :=
  {k with created := k.created + 1, thread := update k.thread k.created (initThread p)}

theorem spawnedFollows {p} (own : Owned k) (coh : Coherent k) :
    Follows k (.create k.created p.val) (spawned k p) := by
  have fresh := own.fresh k.created (Nat.le_refl _)
  have empty := (coh.owed.pending k.created).fresh (Nat.le_refl _)
  have free := (coh.links.fresh k.created (Nat.le_refl _)).1
  have stack : ∀ u, ((spawned k p).thread u).stack = (k.thread u).stack := by
    intro u; by_cases h : u = k.created <;> simp [spawned, initThread, h, empty]
  have lockQueue : ∀ u, ((spawned k p).thread u).lockQueue = (k.thread u).lockQueue := by
    intro u; by_cases h : u = k.created <;> simp [spawned, initThread, h, fresh.1]
  have donatedFor : ∀ u, ((spawned k p).thread u).donatedFor = (k.thread u).donatedFor := by
    intro u; by_cases h : u = k.created <;> simp [spawned, initThread, h, fresh.2]
  have queued : ∀ u l, Queued (spawned k p) u l ↔ Queued k u l := by
    intro u l; by_cases h : u = k.created <;> simp [Queued, spawned, initThread, h, free]
  constructor
  · refine ownedFields own stack lockQueue (fun _ => rfl) (fun _ => rfl) (fun _ => rfl)
      (Nat.le_succ _) ?_ ?_ ?_
    · exact fun t l h => own.waiters t l ((queued t l).mp h)
    · intro t l; rw [donatedFor]; exact own.aimed t l
    · intro t later; rw [donatedFor]; exact (own.fresh t (Nat.le_of_succ_le later)).2
  · have shape : view (spawned k p) = {view k with
        ePri := update (view k).ePri k.created p.val
        bPri := update (view k).bPri k.created p.val} := by
      ext u
      · by_cases h : u = k.created <;> simp [view, spawned, initThread, h]
      · by_cases h : u = k.created <;> simp [view, spawned, initThread, h]
      · rfl
      · rfl
      · simp only [view, donatedFor]
      · simp only [view, queued]
    rw [shape]
    refine .create ?_ ?_
    · intro l held
      have inside := (own.held l _).mp held
      simp [fresh.1] at inside
    · rintro ⟨l, queued⟩
      simp [Queued, free] at queued

theorem threadCreateFollows {p} (own : Owned k) (coh : Coherent k)
    (top : k.cur.stack = .threadCreate p :: rest) :
    Follows k (.create k.created p.val) (threadCreate k p rest) := by
  have follows := spawnedFollows (p := p) own coh
  have current : k.current ≠ k.created := Nat.ne_of_lt (runningOld coh.links rfl)
  have outer := restOuter own top
  refine @followsStack k _ (spawned k p) _ follows ?_
  refine ownedReplace [.lockAcquire tidLock, .lockRelease tidLock, .threadUnblock k.created,
    .threadCreateTail p] follows.owned (runningAwake (coherentCreate coh)) (f := .threadCreate p) ?_
    (by simp [Frame.inner])
  simpa [spawned, current] using top

theorem ownedUp {l} (new : List Frame) (own : Owned k) (awake : ∀ m, ¬ Queued k k.current m)
    (top : k.cur.stack = .semaUp (.lock l) :: rest) (outer : ∀ g ∈ new, g.inner = false) :
    Owned ((k.setStack (new ++ rest)).setValue (.lock l) 1) := by
  have owned := ownedReplace new own awake top outer
  have top' : (k.thread k.current).stack = .semaUp (.lock l) :: rest := top
  have mine : Releasing k k.current l := by simp [Releasing, top']
  have free := (own.releasing l _ mine).2
  have nobody : ∀ u, ¬ Releasing (k.setStack (new ++ rest)) u l := by
    intro u h
    by_cases hu : u = k.current
    · subst u
      have head : (new ++ rest).head? = some (.semaUp (.lock l)) := by
        simpa [Releasing] using h
      rcases List.mem_append.mp (List.mem_of_mem_head? head) with inside | inside
      · simpa [Frame.inner] using outer _ inside
      · simpa [Frame.inner] using restOuter own top _ inside
    · exact hu (own.single l u k.current (by simpa [Releasing, hu] using h) mine)
  have values : ∀ m, m ≠ l → ((k.setStack (new ++ rest)).setValue (.lock l) 1).value (.lock m) =
      k.value (.lock m) := by
    intro m hm; simp [hm]
  refine ⟨owned.held, owned.nodup, owned.sorted, ?_, ?_, ?_, owned.single, owned.inner, owned.aimed,
    owned.waiters, owned.fresh⟩
  · intro m
    by_cases hm : m = l
    · simp [hm]
    · rw [values m hm]; exact own.small m
  · intro m u held
    have hm : m ≠ l := by
      rintro rfl
      have before : (k.lock m).holder = some u := held
      simp [free] at before
    rw [values m hm]
    exact owned.taken m u held
  · intro m u h
    have hm : m ≠ l := by rintro rfl; exact nobody u h
    rw [values m hm]
    exact owned.releasing m u h

theorem wokenThread (q t u) : (woken k q t).thread u =
    if u = t then {k.thread t with elem := some .readyList, queue := some .readyList, status := .ready}
    else k.thread u := by
  by_cases h : u = t <;> simp [woken, park, unpark, h]

theorem wokenQueued {l t} (u m) :
    Queued (woken k (.semaWaiters (.lock l)) t) u m ↔ u ≠ t ∧ Queued k u m := by
  unfold Queued
  rw [wokenThread]
  split <;> simp_all

theorem wokenLocks {l t} : SameLocks k (woken k (.semaWaiters (.lock l)) t) := by
  refine ⟨?_, ?_, ?_, fun u m h => ((wokenQueued u m).mp h).2, fun _ => rfl, fun _ => rfl,
    fun _ => rfl, rfl⟩
  all_goals
    intro u
    rw [wokenThread]
    split <;> simp_all

theorem viewWoken {l t} : view (woken k (.semaWaiters (.lock l)) t) =
    {view k with asleep := update (view k).asleep t False} := by
  ext u
  · simp only [view, wokenThread]; split <;> simp_all
  · simp only [view, wokenThread]; split <;> simp_all
  · rfl
  · rfl
  · simp only [view, wokenThread]; split <;> simp_all
  · simp only [view, wokenQueued]
    by_cases hu : u = t <;> simp [hu]

theorem semaUpLockFollows {l} (own : Owned k) (coh : Coherent k)
    (top : k.cur.stack = .semaUp (.lock l) :: rest) (ok : semaUp k (.lock l) rest = .ok k') :
    Follows k (frameEvent k (.semaUp (.lock l))) k' := by
  have top' : (k.thread k.current).stack = .semaUp (.lock l) :: rest := top
  obtain ⟨zero, free⟩ := own.releasing l k.current (by simp [Releasing, top'])
  have one : upValue (k.value (.lock l)) = 1 := by simp [upValue, zero]
  rcases semaUpOk coh ok with ⟨empty, rfl⟩ | ⟨t, others, front, other, linked, rfl⟩
  · simp only [frameEvent, empty, one]
    refine ⟨ownedUp [] own (runningAwake coh) top (by simp), ?_⟩
    have same : view ((k.setValue (.lock l) 1).setStack rest) = view k := viewStack _ _
    rw [same]
    exact .none
  · simp only [frameEvent, front, one]
    have stack := top'
    rw [← wokenLocks.stack] at stack
    refine ⟨ownedUp [.semaUpTail t] (ownedSame own wokenLocks) ?_ stack (by simp [Frame.inner]), ?_⟩
    · intro m queued
      exact runningAwake coh m (wokenLocks.queued _ m queued)
    · rw [viewStack]
      show Step (view k) _ (view (woken k (.semaWaiters (.lock l)) t))
      rw [viewWoken]
      exact .wake ((viewWaits own l t).mpr linked) free

theorem ownedTarget {x} (own : Owned k) (coh : Coherent k)
    (idle : ∀ m, ¬ Acquiring k k.current m) :
    Owned (k.setThread k.current (fun th => {th with donatedFor := x})) := by
  have old := runningOld coh.links rfl
  refine ownedFields own ?_ ?_ (fun _ => rfl) (fun _ => rfl) (fun _ => rfl) (Nat.le_refl _) ?_ ?_ ?_
  · intro t; by_cases h : t = k.current <;> simp [h]
  · intro t; by_cases h : t = k.current <;> simp [h]
  · intro t l queued
    refine own.waiters t l ?_
    by_cases h : t = k.current <;> simpa [Queued, h] using queued
  · intro t l acquiring
    have h : t ≠ k.current := by rintro rfl; exact idle l acquiring
    simpa [h] using own.aimed t l acquiring
  · intro t later
    have h : t ≠ k.current := Nat.ne_of_gt (Nat.lt_of_lt_of_le old later)
    simpa [h] using (own.fresh t later).2

theorem ownedState {l} (v : Int → Int) (own : Owned k) :
    Owned (k.setLock l (fun lk => {lk with state := v lk.state})) := by
  refine ownedSame own ⟨fun _ => rfl, fun _ => rfl, fun _ => rfl, fun _ _ h => h, ?_, ?_,
    fun _ => rfl, rfl⟩
  all_goals
    intro m
    by_cases h : m = l <;> simp [h]

theorem viewState (l) (v : Int → Int) :
    view (k.setLock l (fun lk => {lk with state := v lk.state})) = view k := by
  ext m
  · rfl
  · rfl
  · by_cases h : m = l <;> simp [view, h]
  · by_cases h : m = l <;> simp [view, h]
  · rfl
  · rfl

theorem viewTarget (t x) : view (k.setThread t (fun th => {th with donatedFor := x})) =
    {view k with target := update (view k).target t x} := by
  ext u
  · by_cases h : u = t <;> simp [view, h]
  · by_cases h : u = t <;> simp [view, h]
  · rfl
  · rfl
  · by_cases h : u = t <;> simp [view, h]
  · by_cases h : u = t <;> simp [view, Queued, h]

theorem notAcquiring {f} (top : k.cur.stack = f :: rest) (not : ∀ l, f ≠ .lockAcquireLoop l) (m) :
    ¬ Acquiring k k.current m := by
  intro h
  simp only [Kernel.cur] at top
  simp only [Acquiring, top, List.head?_cons, Option.some.injEq] at h
  exact not m h

theorem announceFollows {l} (own : Owned k) (coh : Coherent k)
    (top : k.cur.stack = .lockAcquire l :: rest) :
    Owned (announce k l) ∧ view (announce k l) = (view k).aim k.current l := by
  constructor
  · have counted := coherentLock (l := l) (f := fun lk => {lk with state := int8 (lk.state - 1)})
      coh (coh.owed.idleHolds l)
    have idle := notAcquiring top (by simp)
    exact ownedTarget (ownedState (fun v => int8 (v - 1)) own) counted idle
  · unfold announce
    rw [viewTarget]
    simp only [viewState l (fun v => int8 (v - 1))]
    rfl

theorem ownedPark {t l} (xs) (own : Owned k) (free : (k.thread t).elem = none)
    (acquiring : Acquiring k t l) : Owned (park k (.semaWaiters (.lock l)) t xs .blocked) ∧
      view (park k (.semaWaiters (.lock l)) t xs .blocked) = (view k).sleep t := by
  have queued : ∀ u m, Queued (park k (.semaWaiters (.lock l)) t xs .blocked) u m ↔
      u = t ∧ l = m ∨ Queued k u m := by
    intro u m
    by_cases hu : u = t <;> simp [Queued, park, hu, free]
  constructor
  rotate_left
  · ext u
    · by_cases hu : u = t <;> simp [view, Inherit.State.sleep, park, hu]
    · by_cases hu : u = t <;> simp [view, Inherit.State.sleep, park, hu]
    · rfl
    · rfl
    · by_cases hu : u = t <;> simp [view, Inherit.State.sleep, park, hu]
    · simp only [view, Inherit.State.sleep, queued]
      by_cases hu : u = t <;> simp [hu]
  refine ownedFields own ?_ ?_ (fun _ => rfl) (fun _ => rfl) (fun _ => rfl) (Nat.le_refl _) ?_ ?_ ?_
  · intro u; by_cases hu : u = t <;> simp [park, hu]
  · intro u; by_cases hu : u = t <;> simp [park, hu]
  · intro u m h
    rcases (queued u m).mp h with ⟨rfl, rfl⟩ | before
    · exact acquiring
    · exact own.waiters u m before
  · intro u m h
    have before := own.aimed u m h
    by_cases hu : u = t
    · subst u; simpa [park] using before
    · simpa [park, hu] using before
  · intro u later
    have before := (own.fresh u later).2
    by_cases hu : u = t
    · subst u; simpa [park] using before
    · simpa [park, hu] using before

theorem sleepFollows {l f before} [DecidableRel before] (own : Owned k) (coh : Coherent k)
    (top : k.cur.stack = f :: rest) (not : f ≠ .idle) (quiet : f.owes = false)
    (aims : k.cur.donatedFor = some l)
    (ok : sleepOn (k.setStack (.lockAcquireLoop l :: rest)) (.semaWaiters (.lock l)) before =
      .ok k') : Owned k' ∧ view k' = (view k).sleep k.current := by
  have busy := currentBusy coh top not
  have placed : Coherent (k.setStack (.lockAcquireLoop l :: rest)) :=
    coherentReplace [.lockAcquireLoop l] coh top not quiet (by simp [Frame.owes])
      (by simp [Frame.nested])
  have owned : Owned (k.setStack (.lockAcquireLoop l :: rest)) := by
    refine ownedStack own (runningAwake coh) (restOuter own top) (by simp) ?_
    intro m same
    cases (by simpa using same : l = m)
    exact aims
  obtain ⟨free, same⟩ := sleepParked placed busy (by simp) ok
  obtain ⟨parked, sleeps⟩ := ownedPark (l := l) ((k.list _).orderedInsert before k.current)
    owned free (by simp [Acquiring])
  refine ⟨ownedSame parked same.toSameLocks, ?_⟩
  rw [viewUndisturbed same, ← viewStack k (.lockAcquireLoop l :: rest)]
  exact sleeps

def takes (s : State Tid LockId) (t : Tid) (l : LockId) (x : Option LockId) : State Tid LockId :=
  {s with
    holder := update s.holder l (some t)
    pri := update s.pri l (s.ePri t)
    target := update s.target t x}

theorem viewTake (l) : view (takeLock k l) =
    takes (view k) k.current l k.cur.donatedFor := by
  ext u
  · by_cases h : u = k.current <;> simp [view, takeLock, takes, h]
  · by_cases h : u = k.current <;> simp [view, takeLock, takes, h]
  · by_cases h : u = l <;> simp [view, takeLock, takes, h]
  · by_cases h : u = l <;> simp [view, takeLock, takes, h]
  · by_cases h : u = k.current <;> simp [view, takeLock, takes, h]
  · by_cases h : u = k.current <;> simp [view, Queued, takeLock, takes, h]

section
variable (own : Owned k) (coh : Coherent k)
include own coh

theorem takeFollows {l x} (positive : k.value (.lock l) ≠ 0)
    (aims : x = none ∨ x = k.cur.donatedFor) :
    Step (view k) (.take k.current l) (takes (view k) k.current l x) := by
  have awake : ¬ (view k).asleep k.current := by
    rintro ⟨m, queued⟩
    exact runningAwake coh m queued
  exact .take awake (lockFree own positive).2.1 aims

theorem lockAcquireLoopEnds {l f}
    (top : k.cur.stack = f :: rest) (not : f ≠ .idle) (quiet : f.owes = false)
    (aims : k.cur.donatedFor = some l) (ok : lockAcquireLoop k l rest = .ok k') :
    Owned k' ∧ view k' = if k.value (.lock l) = 0 then (view k).sleep k.current
      else takes (view k) k.current l none := by
  unfold lockAcquireLoop at ok
  split at ok
  · rename_i zero
    rw [if_pos zero]
    exact sleepFollows own coh top not quiet aims ok
  · rename_i positive
    rw [if_neg positive]
    cases ok
    have busy := currentBusy coh top not
    have taken := takeLockOwned own coh positive
    have moved := takeLockCoherent (l := l) coh busy
    have stack : (takeLock k l).cur.stack = f :: rest := by simpa [takeLock] using top
    have popped := ownedPop taken (runningAwake moved) stack
    constructor
    · have swap : ((takeLock k l).setThread k.current (fun th => {th with donatedFor := none})).setStack
          rest = ((takeLock k l).setStack rest).setThread k.current
            (fun th => {th with donatedFor := none}) := by
        simp [takeLock]
      rw [swap]
      refine ownedTarget popped (coherentPop moved stack not quiet) ?_
      intro m acquiring
      have head : rest.head? = some (.lockAcquireLoop m) := by
        simpa [Acquiring, takeLock] using acquiring
      simpa [Frame.inner] using restOuter own top _ (List.mem_of_mem_head? head)
    · rw [viewStack, viewTarget, viewTake]
      simp [takes]

theorem lockAcquireLoopFollows {l}
    (top : k.cur.stack = .lockAcquireLoop l :: rest) (ok : lockAcquireLoop k l rest = .ok k') :
    Follows k (frameEvent k (.lockAcquireLoop l)) k' := by
  have top' : (k.thread k.current).stack = .lockAcquireLoop l :: rest := top
  have aims := own.aimed k.current l (by simp [Acquiring, top'])
  have awake : ¬ (view k).asleep k.current := by
    rintro ⟨m, queued⟩
    exact runningAwake coh m queued
  obtain ⟨owned, shape⟩ := lockAcquireLoopEnds own coh top (by simp) rfl aims ok
  refine ⟨owned, ?_⟩
  simp only [frameEvent]
  rw [shape]
  split
  · have still : (view k).aim k.current l = view k := by
      have same : (view k).target k.current = some l := aims
      simp only [Inherit.State.aim, ← same, update_eq_self]
    have step : Step (view k) (.wait k.current l) (((view k).aim k.current l).sleep k.current) :=
      .wait awake
    rwa [still] at step
  · rename_i positive
    exact takeFollows own coh positive (.inl rfl)

theorem lockTryAcquireFollows {l}
    (top : k.cur.stack = .lockTryAcquire l :: rest) (ok : lockTryAcquire k l rest = .ok k') :
    Follows k (frameEvent k (.lockTryAcquire l)) k' := by
  have busy := currentBusy coh top (by simp)
  unfold lockTryAcquire at ok
  split at ok <;> try contradiction
  simp only [frameEvent]
  split at ok
  · rename_i positive
    rw [if_pos positive]
    cases ok
    have taken := takeLockOwned own coh (Nat.ne_of_gt positive)
    have moved := takeLockCoherent (l := l) coh busy
    have stack : (takeLock k l).cur.stack = .lockTryAcquire l :: rest := by
      simpa [takeLock] using top
    have awake := runningAwake moved
    constructor
    · exact ownedPop (ownedState (fun v => int8 (v - 1)) taken) awake stack
    · rw [viewStack]
      simp only [viewState l (fun v => int8 (v - 1))]
      rw [viewTake]
      exact takeFollows own coh (Nat.ne_of_gt positive) (.inr rfl)
  · rename_i zero
    rw [if_neg zero]
    cases ok
    exact followsPop own coh top
end

theorem viewRaiseLock (l t p) : view (raiseLock k l t p) = (view k).raiseLock l p := by
  ext u
  · by_cases h : u = t <;> simp [view, raiseLock, Inherit.State.raiseLock, h]
  · by_cases h : u = t <;> simp [view, raiseLock, Inherit.State.raiseLock, h]
  · by_cases h : u = l <;> simp [view, raiseLock, Inherit.State.raiseLock, h]
  · by_cases h : u = l <;> simp [view, raiseLock, Inherit.State.raiseLock, h]
  · by_cases h : u = t <;> simp [view, raiseLock, Inherit.State.raiseLock, h]
  · by_cases h : u = t <;> simp [view, Queued, raiseLock, Inherit.State.raiseLock, h]

theorem viewRaiseThread (t p) : view (raiseThread k t p) =
    {view k with ePri := update (view k).ePri t p} := by
  ext u
  · by_cases h : u = t <;> simp [view, raiseThread, h]
  · by_cases h : u = t <;> simp [view, raiseThread, h]
  · rfl
  · rfl
  · by_cases h : u = t <;> simp [view, raiseThread, h]
  · by_cases h : u = t <;> simp [view, Queued, raiseThread, h]

theorem turnFollows {p l donee} (own : Owned k) (held : (k.lock l).holder = some donee)
    (turn : Turn p k k' l donee) : Owned k' ∧ view k' = (view k).raise l donee p := by
  have owned : Owned (raised k l donee p) := by
    unfold raised raiseThread
    exact ownedThread (raiseLockOwned own held) rfl rfl rfl rfl
  have shape : view (raised k l donee p) = (view k).raise l donee p := by
    unfold raised
    rw [viewRaiseThread, viewRaiseLock]
    rfl
  have same : Undisturbed (raised k l donee p) k' := by
    have created : k'.created = (raised k l donee p).created := turn.donated.similar.created
    have value : k'.value = (raised k l donee p).value := turn.donated.value
    constructor
    · constructor <;> intros <;> simp_all [turn.thread, turn.lock, Queued]
    all_goals intros; simp_all [turn.thread, Queued]
  exact ⟨ownedSame owned same.toSameLocks, (viewUndisturbed same).trans shape⟩

theorem donateFollows {turns l} (own : Owned k) (coh : Coherent k)
    (ok : donatePriAcquire turns k k.current l = .ok k') :
    Owned k' ∧ Inherit.Walk turns (view k) k.current l (view k') := by
  -- what is left of the walk completes what has been walked
  refine donateRule (fun n j donor m => Owned j ∧ OnWalk k.cur.ePri k j donor ∧
      ∀ s, Inherit.Walk n (view j) donor m s → Inherit.Walk turns (view k) k.current l s)
    (fun j => Owned j ∧ Inherit.Walk turns (view k) k.current l (view j)) ?_ ?_ ?_ ?_ ⟨own, ⟨donatedRefl _ k, coh.links, coh.owed.idleHolds, rfl, Nat.le_refl _⟩,
      fun _ walk => walk⟩ ok
  · intro n j donor m donee ⟨own, walk, after⟩ held enough
    exact ⟨own, after _ (.settled held enough)⟩
  · intro n j donor m donee ⟨own, walk, after⟩ held below strong
    refine ⟨raiseLockOwned own held, after _ ?_⟩
    rw [viewRaiseLock]
    exact .lock held below strong
  · intro n j donor m donee j1 ⟨own, walk, after⟩ held below weaker sorted alone
    obtain ⟨turn, _⟩ := walkTurn walk held below weaker sorted
    rw [← walk.pri] at turn
    obtain ⟨owned, shape⟩ := turnFollows own held turn
    refine ⟨owned, after _ ?_⟩
    rw [shape]
    refine .last held below weaker ?_
    exact (turn.donated.donatedFor donee).symm.trans alone
  · intro n j donor m donee j1 next ⟨own, walk, after⟩ held below weaker sorted onward
    obtain ⟨turn, walk'⟩ := walkTurn walk held below weaker sorted
    rw [← walk.pri] at turn
    obtain ⟨owned, shape⟩ := turnFollows own held turn
    refine ⟨owned, walk', fun s rest => after s ?_⟩
    rw [shape] at rest
    exact .next held below weaker ((turn.donated.donatedFor donee).symm.trans onward) rest

theorem lockAcquireFollows {l} (own : Owned k) (coh : Coherent k)
    (top : k.cur.stack = .lockAcquire l :: rest) (ok : lockAcquire k l rest = .ok k') :
    Follows k (frameEvent k (.lockAcquire l)) k' := by
  unfold lockAcquire at ok
  split at ok <;> try contradiction
  obtain ⟨k1, walked, last⟩ := bindOk.mp ok
  obtain ⟨announced, aim⟩ := announceFollows own coh top
  have coh1 := announceCoherent (l := l) coh
  have donated := donateIfHeldDonated coh1 walked
  have coh2 := coherentDonated coh1 donated
  have stack : k1.cur.stack = .lockAcquire l :: rest :=
    similarTop donated.similar (by simpa [announce] using top)
  have current : k1.current = k.current := donated.similar.current
  have aims : k1.cur.donatedFor = some l := by
    simp only [Kernel.cur, current, donated.donatedFor]
    simp [announce]
  have value : k1.value (.lock l) = k.value (.lock l) := by rw [donated.value]; rfl
  have awake : ¬ (view k).asleep k.current := by
    rintro ⟨m, queued⟩
    exact runningAwake coh m queued
  have state : ((announce k l).lock l).state = int8 ((k.lock l).state - 1) := by simp [announce]
  have holder : ((announce k l).lock l).holder = (k.lock l).holder := by simp [announce]
  unfold donateIfHeld at walked
  rw [state, holder] at walked
  split at walked
  · rename_i donates
    obtain ⟨own1, walk⟩ := donateFollows announced coh1 walked
    obtain ⟨owned, shape⟩ := lockAcquireLoopEnds own1 coh2 stack (by simp) rfl aims last
    obtain ⟨t, held⟩ := Option.ne_none_iff_exists'.mp donates.2
    have zero : k.value (.lock l) = 0 := own.taken l t held
    rw [value, if_pos zero] at shape
    simp only [frameEvent, if_pos zero, if_pos donates]
    refine ⟨owned, ?_⟩
    rw [shape, current]
    rw [aim] at walk
    exact .donate awake walk
  · rename_i silent
    cases walked
    obtain ⟨owned, shape⟩ := lockAcquireLoopEnds announced coh1 stack (by simp) rfl aims last
    simp only [frameEvent, if_neg silent]
    refine ⟨owned, ?_⟩
    rw [shape, aim, value, current]
    split
    · exact .wait awake
    · rename_i positive
      have taken := takeFollows own coh positive (.inl rfl)
      simpa [takes, Inherit.State.aim] using taken

theorem restoredFollows {l} (own : Owned k) (held : (k.lock l).holder = some k.current) :
    Inherit.Restored (view k) k.current l ((released k l).thread k.current).ePri := by
  have mine : ∀ m, m ≠ l → ((view k).holder m = some k.current ↔ m ∈ k.cur.lockQueue.erase l) := by
    intro m hm
    rw [List.mem_erase_of_ne hm]
    exact own.held m k.current
  have sorted := descendingErase l (own.sorted k.current)
  have gone : l ∉ k.cur.lockQueue.erase l := (own.nodup k.current).not_mem_erase
  have falls : ((released k l).thread k.current).ePri =
      restoredPri (k.setLock l (fun lk =>
        {lk with holder := none, pri := 0, state := int8 (lk.state + 1)})) k.current
        (k.cur.lockQueue.erase l) := by
    simp [released]
  rw [falls]
  simp only [Kernel.cur] at mine gone ⊢
  generalize (k.thread k.current).lockQueue.erase l = queue at mine sorted gone ⊢
  cases queue with
  | nil =>
    refine .inl ⟨fun m hm holds => ?_, rfl⟩
    simpa using (mine m hm).mp holds
  | cons first others =>
    have apart : first ≠ l := by rintro rfl; simp at gone
    have pri : restoredPri (k.setLock l (fun lk =>
        {lk with holder := none, pri := 0, state := int8 (lk.state + 1)})) k.current
        (first :: others) = (view k).pri first := by
      simp [restoredPri, view, apart]
    rw [pri]
    refine .inr ⟨⟨first, apart, (mine first apart).mpr (by simp), rfl⟩, ?_⟩
    intro m hm holds
    exact headLargest sorted m ((mine m hm).mp holds)

theorem viewReleased (l) : view (released k l) = {view k with
    holder := update (view k).holder l none
    pri := update (view k).pri l 0
    ePri := update (view k).ePri k.current ((released k l).thread k.current).ePri} := by
  ext u
  · by_cases h : u = k.current <;> simp [view, released, h]
  · by_cases h : u = k.current <;> simp [view, released, h]
  · by_cases h : u = l <;> simp [view, released, h]
  · by_cases h : u = l <;> simp [view, released, h]
  · by_cases h : u = k.current <;> simp [view, released, h]
  · by_cases h : u = k.current <;> simp [view, Queued, released, h]

theorem lockReleaseFollows {l} (own : Owned k) (coh : Coherent k)
    (top : k.cur.stack = .lockRelease l :: rest) (ok : lockRelease k l rest = .ok k') :
    Follows k (.release k.current l) k' := by
  refine ⟨lockReleaseOwned own coh top ok, ?_⟩
  obtain ⟨held, rfl⟩ := lockReleaseOk ok
  have awake : ¬ (view k).asleep k.current := by
    rintro ⟨m, queued⟩
    exact runningAwake coh m queued
  rw [viewStack, viewReleased]
  exact .release awake held (restoredFollows own held)

section
variable (own : Owned k) (coh : Coherent k)
include own coh

theorem ranFollows {f new} (aside : f.aside = true) (top : k.cur.stack = f :: rest)
    (next : Next k new f) (ran : Ran k rest f new k') : Follows k .none k' := by
  have top' : (k.thread k.current).stack = f :: rest := top
  have outer (light : f.light = true) : ∀ g ∈ new, g.inner = false := fun g inside =>
    ((nextLight light next).2.2 g inside).2.2.2 aside
  cases ran with
  | plain kind =>
    exact followsReplace new own coh top (outer (by cases f <;> first | rfl | cases kind))
  | tunes kind => rcases kind with ⟨_, rfl⟩ | ⟨_, rfl⟩ <;> cases aside
  | yields ok =>
    exact followsThen [] own coh top (outer rfl)
      (undisturbedYield (coherentNext coh top (.inl rfl) rfl next) ok)
  | readies _ free =>
    exact followsMove [] own coh top (by simp) (undisturbedPark (by simp) free) rfl
  | idles ok =>
    have idle := (coh.owed.pending k.current).idleFrame (by simp [top'])
    have links := coh.links
    unfold threadBlock at ok
    rw [idle] at links ok
    exact followsUndisturbed own (undisturbedTrans
      (undisturbedThread rfl rfl rfl rfl rfl (fun _ => Iff.rfl))
      (undisturbedSchedule (linksIdleStops links (by simp)) ok))
  | @sleeps _ q _ _ _ _ kind _ ok =>
    have light : f.light = true := by cases kind <;> rfl
    have wait : q ≠ .readyList ∧ ∀ l, q ≠ .semaWaiters (.lock l) := by
      cases kind with
      | lock => cases aside
      | _ => simp
    have busy := standsBusy coh top (.inl rfl) light
    exact followsThen new own coh top (outer light)
      (undisturbedSleep (coherentNext coh top (.inl rfl) light next) busy wait.1 wait.2 ok)
  | @counts _ s _ kind =>
    cases s with
    | lock l => cases f <;> cases kind <;> cases aside
    | plain n => exact followsMove [] own coh top (by simp) (undisturbedPlain n _) rfl
  | @wakes s _ _ _ _ linked =>
    cases s with
    | lock l => cases aside
    | plain n =>
      exact followsMove [.semaUpTail _] own coh top (by simp [Frame.inner])
        (undisturbedTrans (undisturbedWoken (by simp) linked) (undisturbedPlain n _)) rfl
  | links _ free =>
    simp only [Kernel.cur] at free
    exact followsMove [_, _, _] own coh top (by simp [Frame.inner]) (undisturbedTrans
      (undisturbedList _ _) (undisturbedThread rfl rfl rfl rfl rfl (by simp [Queued, free]))) rfl
  | @blocks c _ ok =>
    have linked := ((coh.owed.pending k.current).condBlock c (by simp [top'])).2
    have busy := currentBusy coh top (by simp)
    unfold condWaitBlock threadBlock at ok
    have same := undisturbedSchedule (condWaitBlockLinks coh busy linked) ok
    have stopped : Undisturbed (k.setStack rest) _ :=
      undisturbedThread (k := k.setStack rest) (t := k.current)
        (f := fun th => {th with queue := some (.condWaiters c), status := .blocked})
        rfl rfl rfl rfl rfl (fun _ => Iff.rfl)
    exact followsThen [] own coh top (by simp) (undisturbedTrans stopped (by simpa using same))
  | sorts => exact followsMove [_] own coh top (by simp [Frame.inner]) (undisturbedList _ _) rfl
  | @pops _ c _ _ _ kind front =>
    have linked := (coh.links.mem _ _).mp (front ▸ List.mem_cons_self)
    refine followsMove [_, _] own coh top ?_ (undisturbedTrans (undisturbedUnpark (by simp) linked)
      (undisturbedThread rfl rfl rfl rfl rfl (fun _ => Iff.rfl))) rfl
    rcases kind with ⟨_, rfl⟩ | ⟨_, _, rfl⟩ <;> simp [Frame.inner]
  | _ => cases aside

theorem runFrameFollows {f} (top : k.cur.stack = f :: rest)
    (ok : runFrame k f rest = .ok k') : Follows k (frameEvent k f) k' := by
  cases f with
  | threadSetPriority p => cases ok; exact threadSetPriorityFollows own coh top
  | threadCreate p => cases ok; exact threadCreateFollows own coh top
  | semaUp s =>
    cases s with
    | plain n =>
      obtain ⟨_, next, ran⟩ := runFrameRan coh (by simp) ok
      exact ranFollows own coh rfl top next ran
    | lock l => exact semaUpLockFollows own coh top ok
  | lockAcquire l => exact lockAcquireFollows own coh top ok
  | lockAcquireLoop l => exact lockAcquireLoopFollows own coh top ok
  | lockTryAcquire l => exact lockTryAcquireFollows own coh top ok
  | lockRelease l => exact lockReleaseFollows own coh top ok
  | timerSleep n =>
    cases ok
    exact followsMove [.timerSleepBlock] own coh top (by simp [Frame.inner])
      (undisturbedThread rfl rfl rfl rfl rfl (fun _ => Iff.rfl)) rfl
  | _ =>
    obtain ⟨_, next, ran⟩ := runFrameRan coh (by simp) ok
    exact ranFollows own coh rfl top next ran
end

theorem undisturbedTicks (n m) : Undisturbed k {k with ticks := n, threadTicks := m} := by
  constructor
  · constructor <;> intros <;> try rfl
    assumption
  · intros; rfl
  · intros; rfl
  · exact fun _ _ queued => queued

theorem timerInterruptUndisturbed (coh : Coherent k) (ok : timerInterrupt k = .ok k') :
    Undisturbed k k' := by
  obtain ⟨k1, awake, ends⟩ := timerInterruptOk ok
  have ticked := coherentTicks (k.ticks + 1) k.threadTicks coh
  obtain ⟨coh1, woke⟩ := wakeRule (Undisturbed k) (fun j t _ so linked _ =>
    undisturbedTrans so (undisturbedWoken (by simp) linked)) ticked (undisturbedTicks _ _)
    (ticked.links.nodup _) (sleepersAsleep ticked) awake
  have counted := undisturbedTrans woke (undisturbedTicks k1.ticks (k1.threadTicks + 1))
  rcases ends with ⟨_, yields⟩ | ⟨_, rfl⟩
  · exact undisturbedTrans counted (undisturbedYield (coherentTicks _ _ coh1) yields)
  · exact counted

theorem callOwned {op : Op} (own : Owned k) (coh : Coherent k) :
    Owned (k.setStack [op.frame]) := by
  refine ownedStack own (runningAwake coh) (by simp) ?_ ?_
  all_goals
    intro l h
    cases op <;> simp [Op.frame] at h

theorem stepFollows {a} (own : Owned k) (coh : Coherent k) (ok : step k a = .ok k') :
    Follows k (event k a) k' ∨ k' = k := by
  rcases stepOk ok with rfl | ⟨f, rest, rfl, top, ran⟩ | ⟨op, rfl, _, rfl⟩ | ⟨rfl, _, ticked⟩
  · exact .inr rfl
  · refine .inl ?_
    have same : event k .run = frameEvent k f := by
      unfold event
      rw [top]
    rw [same]
    exact runFrameFollows own coh top ran
  · exact .inl (followsStill (callOwned own coh) (viewStack k _))
  · exact .inl (followsUndisturbed own (timerInterruptUndisturbed coh ticked))

end Frames

theorem bootOwned (policy values) : Owned (boot policy values) := by
  have empty : ∀ t, ((boot policy values).thread t).lockQueue = [] := by
    intro t
    by_cases h0 : t = 0 <;> by_cases h1 : t = 1 <;> simp [boot, h0, h1]
  have stack : ∀ t f, ((boot policy values).thread t).stack.head? = some f → f = .idle := by
    intro t f
    by_cases h0 : t = 0 <;> by_cases h1 : t = 1 <;> simp [boot, h0, h1, eq_comm]
  have free : ∀ t l, ¬ Releasing (boot policy values) t l :=
    fun t l h => by simpa using stack t _ h
  refine ⟨?_, ?_, ?_, ?_, ?_, fun l t h => absurd h (free t l), fun l t _ h => absurd h (free t l),
    ?_, ?_, ?_, ?_⟩
  · intro l t; rw [empty]; simp [boot]
  · intro t; rw [empty]; exact List.nodup_nil
  · intro t; rw [empty]; exact List.Pairwise.nil
  · intro l; simp [boot]
  · intro l t h; simp [boot] at h
  · intro t
    by_cases h0 : t = 0 <;> by_cases h1 : t = 1 <;> simp [boot, h0, h1]
  · intro t l h; simpa using stack t _ h
  · intro t l h
    by_cases h0 : t = 0 <;> by_cases h1 : t = 1 <;> simp [Queued, boot, h0, h1] at h
  · intro t _
    by_cases h0 : t = 0 <;> by_cases h1 : t = 1 <;> simp [boot, h0, h1]

theorem stepOwned {k k' a} (own : Owned k) (coh : Coherent k) (ok : step k a = .ok k') :
    Owned k' := by
  rcases stepFollows own coh ok with follows | rfl
  · exact follows.owned
  · exact own

theorem runOwned {policy values k} {may : Kernel → Action → Prop}
    (run : Run step may (boot policy values) k) : Coherent k ∧ Owned k := by
  refine run.invariant (fun k => Coherent k ∧ Owned k)
    ⟨bootCoherent policy values, bootOwned policy values⟩ ?_
  rintro u v a ⟨coh, own⟩ _ ok
  exact ⟨stepCoherent coh ok, stepOwned own coh ok⟩

theorem runView {policy values k} {may : Kernel → Action → Prop}
    (needs : State Tid LockId → Event Tid LockId → Prop) (inv : State Tid LockId → Prop)
    (run : Run step may (boot policy values) k) (first : inv (view (boot policy values)))
    (meets : ∀ k a, Owned k → Coherent k → may k a → needs (view k) (event k a))
    (keep : ∀ s s' ev, inv s → needs s ev → Step s ev s' → inv s') :
    Coherent k ∧ Owned k ∧ inv (view k) := by
  refine run.invariant (fun k => Coherent k ∧ Owned k ∧ inv (view k))
    ⟨bootCoherent policy values, bootOwned policy values, first⟩ ?_
  intro u v a ⟨coh, own, holds⟩ allowed ok
  refine ⟨stepCoherent coh ok, ?_⟩
  rcases stepFollows own coh ok with follows | rfl
  · exact ⟨follows.owned, keep _ _ _ holds (meets u a own coh allowed) follows.moved⟩
  · exact ⟨own, holds⟩

end Pintos.Threads
