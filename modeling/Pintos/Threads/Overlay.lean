import Pintos.Threads.Coherence

/-! Threads a step cannot see. A blocked thread that is in no list, holds no lock and is
not about to be unblocked is read by the kernel only for its priority, so two kernels
that differ in such threads run in lockstep. `overlay` puts other TCBs in their place. -/
namespace Pintos.Threads
open Machine

attribute [local simp] Function.update_apply

section Overlay
variable {away : Tid → Bool} {other : Tid → Thread} {k : Kernel}

def overlay (away : Tid → Bool) (other : Tid → Thread) (k : Kernel) : Kernel :=
  {k with thread := fun t => if away t then other t else k.thread t}

structure Aside (away : Tid → Bool) (other : Tid → Thread) (k : Kernel) : Prop where
  idle : away k.idleThread = false
  lists : ∀ q t, t ∈ k.list q → away t = false
  holders : ∀ l t, (k.lock l).holder = some t → away t = false
  targets : ∀ u n, .threadUnblock n ∈ (k.thread u).stack → away n = false
  old : ∀ t, away t = true → t < k.created
  ePri : ∀ t, away t = true → (other t).ePri = (k.thread t).ePri
  wakeUp : ∀ t, away t = true → (other t).wakeUp = (k.thread t).wakeUp

structure Apart (away : Tid → Bool) (other : Tid → Thread) (k : Kernel) : Prop
    extends Aside away other k where
  current : away k.current = false

def Alike (away : Tid → Bool) (other : Tid → Thread) : Except Fault Kernel → Except Fault Kernel → Prop :=
  Lockstep (fun k m => Apart away other k ∧ m = overlay away other k)

theorem alikeOk {m} (apart : Apart away other k) (same : m = overlay away other k) :
    Alike away other (.ok k) (.ok m) := ⟨apart, same⟩

theorem alikeBind {x y : Except Fault Kernel} {f g : Kernel → Except Fault Kernel}
    (first : Alike away other x y)
    (next : ∀ k, Apart away other k → Alike away other (f k) (g (overlay away other k))) :
    Alike away other (x >>= f) (y >>= g) := by
  refine lockstepBind first ?_
  rintro a b ⟨apart, rfl⟩
  exact next a apart

theorem alikeIf {p p' : Prop} [Decidable p] [Decidable p'] {x y x' y' : Except Fault Kernel}
    (same : p' ↔ p) (yes : p → Alike away other x y) (no : ¬ p → Alike away other x' y') :
    Alike away other (if p then x else x') (if p' then y else y') := by
  by_cases h : p
  · rw [if_pos h, if_pos (same.mpr h)]
    exact yes h
  · rw [if_neg h, if_neg (fun h' => h (same.mp h'))]
    exact no h

theorem alikeChoice {p p' : Prop} [Decidable p] [Decidable p'] {a b a' b' : Kernel}
    (same : p' ↔ p) (yes : p → Alike away other (.ok a) (.ok b))
    (no : ¬ p → Alike away other (.ok a') (.ok b')) :
    Alike away other (.ok (if p then a else a')) (.ok (if p' then b else b')) := by
  rw [apply_ite Except.ok, apply_ite Except.ok]
  exact alikeIf same yes no

theorem overlayAt {t} (here : away t = false) : (overlay away other k).thread t = k.thread t := by
  simp [overlay, here]

theorem overlayThread {t f} (here : away t = false) :
    overlay away other (k.setThread t f) = (overlay away other k).setThread t f := by
  have moved : ∀ u, (overlay away other (k.setThread t f)).thread u =
      ((overlay away other k).setThread t f).thread u := by
    intro u
    by_cases hu : u = t
    · subst u; simp [overlay, here]
    · simp [overlay, hu]
  simpa [overlay] using funext moved

theorem overlayChange {t f g m} (here : away t = false) (moved : m = overlay away other k)
    (same : g (k.thread t) = f (k.thread t)) :
    m.setThread t g = overlay away other (k.setThread t f) := by
  subst moved
  rw [overlayThread here]
  simp [overlayAt here, same]

theorem overlayPri (aside : Aside away other k) (t) :
    ((overlay away other k).thread t).ePri = (k.thread t).ePri := by
  by_cases h : away t = true
  · simpa [overlay, h] using aside.ePri t h
  · simp [overlay, h]

theorem overlayGrater (aside : Aside away other k) (a b) :
    graterThreadPri (overlay away other k) a b ↔ graterThreadPri k a b :=
  graterSame (overlayPri aside) a b

theorem overlayWakeUp (aside : Aside away other k) (t) :
    ((overlay away other k).thread t).wakeUp = (k.thread t).wakeUp := by
  by_cases h : away t = true
  · simpa [overlay, h] using aside.wakeUp t h
  · simp [overlay, h]

theorem asideThread {t f} (aside : Aside away other k) (here : away t = false)
    (targets : ∀ n, .threadUnblock n ∈ (f (k.thread t)).stack → away n = false) :
    Aside away other (k.setThread t f) where
  idle := aside.idle
  lists := aside.lists
  holders := aside.holders
  targets u n inside := by
    by_cases hu : u = t
    · subst u
      exact targets n (by simpa using inside)
    · exact aside.targets u n (by simpa [hu] using inside)
  old := aside.old
  ePri u out := by
    have ne : u ≠ t := by rintro rfl; simp [here] at out
    simpa [ne] using aside.ePri u out
  wakeUp u out := by
    have ne : u ≠ t := by rintro rfl; simp [here] at out
    simpa [ne] using aside.wakeUp u out

theorem apartThread {t f} (apart : Apart away other k) (here : away t = false)
    (targets : ∀ n, .threadUnblock n ∈ (f (k.thread t)).stack → away n = false) :
    Apart away other (k.setThread t f) :=
  ⟨asideThread apart.toAside here targets, apart.current⟩

theorem apartField {t f} (apart : Apart away other k) (here : away t = false)
    (stack : (f (k.thread t)).stack = (k.thread t).stack) : Apart away other (k.setThread t f) := by
  refine apartThread apart here ?_
  intro n inside
  rw [stack] at inside
  exact apart.targets t n inside

theorem apartStack {st} (apart : Apart away other k)
    (targets : ∀ n, .threadUnblock n ∈ st → away n = false) : Apart away other (k.setStack st) :=
  apartThread apart apart.current targets

theorem asideList {q xs} (aside : Aside away other k) (inside : ∀ t ∈ xs, away t = false) :
    Aside away other (k.setList q xs) := by
  refine ⟨aside.idle, ?_, aside.holders, aside.targets, aside.old, aside.ePri, aside.wakeUp⟩
  intro r t mem
  by_cases hr : r = q
  · subst r
    exact inside t (by simpa using mem)
  · exact aside.lists r t (by simpa [hr] using mem)

section
variable (apart : Apart away other k)
include apart

theorem apartList {q xs} (inside : ∀ t ∈ xs, away t = false) :
    Apart away other (k.setList q xs) :=
  ⟨asideList apart.toAside inside, apart.current⟩

theorem apartLock {l f}
    (holder : ∀ t, (f (k.lock l)).holder = some t → away t = false) :
    Apart away other (k.setLock l f) := by
  refine ⟨⟨apart.idle, apart.lists, ?_, apart.targets, apart.old, apart.ePri, apart.wakeUp⟩,
    apart.current⟩
  intro m t held
  by_cases hm : m = l
  · subst m
    exact holder t (by simpa using held)
  · exact apart.holders m t (by simpa [hm] using held)

theorem apartValue {s v} : Apart away other (k.setValue s v) :=
  ⟨⟨apart.idle, apart.lists, apart.holders, apart.targets, apart.old, apart.ePri, apart.wakeUp⟩,
    apart.current⟩

theorem linkAlike {q t xs} (here : away t = false)
    (inside : ∀ u ∈ xs, away u = false) :
    Alike away other (link k q t xs) (link (overlay away other k) q t xs) := by
  unfold link
  rw [overlayAt here]
  split
  · exact alikeOk (apartField (apartList apart inside) here rfl) (by rw [overlayThread here]; rfl)
  · rfl

theorem insertAside {before : Tid → Tid → Prop} [DecidableRel before] {q t}
    (here : away t = false) :
    ∀ u ∈ (k.list q).orderedInsert before t, away u = false := by
  intro u mem
  rcases List.mem_cons.mp ((List.perm_orderedInsert before t _).mem_iff.mp mem) with rfl | old
  · exact here
  · exact apart.lists q u old

theorem insertPriAlike {q t m} (here : away t = false)
    (pri : ∀ u, (m.thread u).ePri = (k.thread u).ePri) :
    Alike away other (listInsertOrdered k q t (graterThreadPri k))
      (listInsertOrdered (overlay away other k) q t (graterThreadPri m)) := by
  unfold listInsertOrdered
  rw [Ordered.insertCongr (graterSame pri)]
  exact linkAlike apart here (insertAside apart here)

theorem listRemoveAlike {t} (here : away t = false) :
    Alike away other (listRemove k t) (listRemove (overlay away other k) t) := by
  unfold listRemove
  rw [overlayAt here]
  cases (k.thread t).elem with
  | none => rfl
  | some q =>
    refine alikeOk (apartField (apartList apart ?_) here rfl) (by rw [overlayThread here]; rfl)
    exact fun u mem => apart.lists q u (List.mem_of_mem_erase mem)

theorem threadEnqueueAlike {t} (here : away t = false) :
    Alike away other (threadEnqueue k t) (threadEnqueue (overlay away other k) t) := by
  have moved : Apart away other (k.setThread t (fun th => {th with queue := some .readyList})) :=
    apartField apart here rfl
  unfold threadEnqueue
  rw [← overlayThread here]
  simp only [overlay]
  split
  · refine linkAlike moved here ?_
    intro u mem
    rcases List.mem_append.mp mem with old | new
    · exact moved.lists _ u old
    · rw [List.mem_singleton.mp new]; exact here
  · exact insertPriAlike moved here (overlayPri moved.toAside)
  all_goals rfl

theorem threadUnblockAlike {t} (here : away t = false) :
    Alike away other (threadUnblock k t) (threadUnblock (overlay away other k) t) := by
  unfold threadUnblock
  rw [overlayAt here]
  split
  · refine alikeBind (threadEnqueueAlike apart here) ?_
    intro k1 apart1
    exact alikeOk (apartField apart1 here rfl) (overlayThread here).symm
  · rfl
end

theorem switchAlike {t} (aside : Aside away other k) (here : away t = false) :
    Alike away other (.ok (threadSwitchTail k t))
      (.ok (threadSwitchTail (overlay away other k) t)) := by
  have moved := asideThread (f := fun th => {th with status := .running}) aside here
    (aside.targets t)
  refine alikeOk ⟨⟨moved.idle, moved.lists, moved.holders, moved.targets, moved.old, moved.ePri,
    moved.wakeUp⟩, here⟩ ?_
  unfold threadSwitchTail
  rw [← overlayThread here]
  rfl

theorem dispatchAlike {t} (aside : Aside away other k) (here : away t = false) :
    Alike away other (listRemove k t >>= fun k => .ok (threadSwitchTail k t))
      (listRemove (overlay away other k) t >>= fun k => .ok (threadSwitchTail k t)) := by
  unfold listRemove
  rw [overlayAt here]
  cases (k.thread t).elem with
  | none => rfl
  | some q =>
    have out : ∀ u ∈ (k.list q).erase t, away u = false :=
      fun u mem => aside.lists q u (List.mem_of_mem_erase mem)
    have moved := asideThread (f := fun th => {th with elem := none}) (asideList (q := q) aside out) here
      (aside.targets t)
    have switched := switchAlike moved here
    rw [overlayThread here] at switched
    exact switched

theorem scheduleAlike (aside : Aside away other k) :
    Alike away other (schedule k) (schedule (overlay away other k)) := by
  unfold schedule
  simp only [overlay]
  split
  · rfl
  · rfl
  all_goals
    split
    · exact switchAlike aside aside.idle
    · rename_i next rest front
      exact dispatchAlike aside (aside.lists .readyList next (by simp [front]))

theorem threadBlockAlike (apart : Apart away other k) :
    Alike away other (threadBlock k) (threadBlock (overlay away other k)) := by
  have moved : Apart away other (k.setThread k.current (fun th => {th with status := .blocked})) :=
    apartField apart apart.current rfl
  have next := scheduleAlike moved.toAside
  rw [overlayThread apart.current] at next
  exact next

theorem threadYieldAlike (apart : Apart away other k) :
    Alike away other (threadYield k) (threadYield (overlay away other k)) := by
  unfold threadYield
  refine alikeBind ?_ ?_
  · exact alikeIf Iff.rfl (fun _ => alikeOk apart rfl)
      (fun _ => threadEnqueueAlike apart apart.current)
  · intro k1 apart1
    have moved : Apart away other (k1.setThread k.current (fun th => {th with status := .ready})) :=
      apartField apart1 apart.current rfl
    have next := scheduleAlike moved.toAside
    rw [overlayThread apart.current] at next
    exact next

theorem sleepOnAlike {q m} {before before' : Tid → Tid → Prop} [DecidableRel before]
    [DecidableRel before'] (apart : Apart away other k) (same : ∀ a b, before' a b ↔ before a b)
    (moved : m = overlay away other k) :
    Alike away other (sleepOn k q before) (sleepOn m q before') := by
  subst moved
  unfold sleepOn
  refine alikeBind ?_ ?_
  · unfold listInsertOrdered
    rw [Ordered.insertCongr same]
    exact linkAlike apart apart.current (insertAside apart apart.current)
  · intro k1 apart1
    have queued : Apart away other (k1.setThread k1.current (fun th => {th with queue := some q})) :=
      apartField apart1 apart1.current rfl
    have next := threadBlockAlike queued
    rw [overlayThread apart1.current] at next
    exact next

def Harmless (away : Tid → Bool) (st : List Frame) : Prop :=
  ∀ n, .threadUnblock n ∈ st → away n = false

theorem stackAlike {st m} (apart : Apart away other k) (harmless : Harmless away st)
    (moved : m = overlay away other k) :
    Alike away other (.ok (k.setStack st)) (.ok (m.setStack st)) := by
  subst moved
  exact alikeOk (apartStack apart harmless) (overlayThread apart.current).symm

section Frames
variable {rest : List Frame}

theorem harmlessCons {f} (harmless : Harmless away rest) (quiet : ∀ n, f ≠ .threadUnblock n) :
    Harmless away (f :: rest) := by
  intro n inside
  rcases List.mem_cons.mp inside with top | below
  · exact absurd top.symm (quiet n)
  · exact harmless n below

section
variable (apart : Apart away other k)
include apart

theorem semaDownAlike {n} (harmless : Harmless away rest) :
    Alike away other (semaDown k n rest) (semaDown (overlay away other k) n rest) := by
  refine alikeIf Iff.rfl (fun _ => ?_) (fun _ => stackAlike (apartValue apart) harmless rfl)
  exact sleepOnAlike (apartStack apart (harmlessCons harmless (by simp)))
    (overlayGrater apart.toAside) (overlayThread apart.current).symm

theorem semaTryDownAlike {n} (harmless : Harmless away rest) :
    Alike away other (.ok (semaTryDown k n rest))
      (.ok (semaTryDown (overlay away other k) n rest)) :=
  alikeChoice Iff.rfl (fun _ => stackAlike (apartValue apart) harmless rfl)
    (fun _ => stackAlike apart harmless rfl)

theorem semaUpAlike {s} (harmless : Harmless away rest) :
    Alike away other (semaUp k s rest) (semaUp (overlay away other k) s rest) := by
  unfold semaUp
  simp only [show (overlay away other k).list = k.list from rfl]
  split
  · exact stackAlike (apartValue apart) harmless rfl
  · rename_i t others front
    have here := apart.lists _ t (by rw [front]; exact List.mem_cons_self)
    refine alikeBind (listRemoveAlike apart here) ?_
    intro k1 apart1
    refine alikeBind (threadUnblockAlike apart1 here) ?_
    intro k2 apart2
    exact stackAlike (apartValue apart2) (harmlessCons harmless (by simp)) rfl

theorem weakerAlike (t) :
    (overlay away other k).cur.ePri < ((overlay away other k).thread t).ePri ↔
      k.cur.ePri < (k.thread t).ePri := by
  simp only [Kernel.cur, overlayPri apart.toAside]
  exact Iff.rfl

theorem semaUpTailAlike {t} (harmless : Harmless away rest) :
    Alike away other (.ok (semaUpTail k t rest))
      (.ok (semaUpTail (overlay away other k) t rest)) :=
  alikeChoice (weakerAlike apart t)
    (fun _ => stackAlike apart (harmlessCons harmless (by simp)) rfl)
    (fun _ => stackAlike apart harmless rfl)

theorem requeueAlike {t} (here : away t = false) :
    Alike away other (requeue k t) (requeue (overlay away other k) t) := by
  unfold requeue
  rw [overlayAt here]
  cases (k.thread t).queue with
  | none => exact alikeOk apart rfl
  | some q =>
    refine alikeBind (listRemoveAlike apart here) ?_
    intro k1 apart1
    exact insertPriAlike apart1 here (overlayPri apart1.toAside)

theorem raiseLockApart {l t p} (here : away t = false) :
    Apart away other (raiseLock k l t p) ∧
      raiseLock (overlay away other k) l t p = overlay away other (raiseLock k l t p) := by
  unfold raiseLock
  refine ⟨apartField (apartLock apart (apart.holders l)) here rfl, ?_⟩
  rw [overlayThread here]
  rfl

theorem raiseThreadApart {t p} (here : away t = false) :
    Apart away other (raiseThread k t p) ∧
      raiseThread (overlay away other k) t p = overlay away other (raiseThread k t p) :=
  ⟨apartField apart here rfl, (overlayThread here).symm⟩

theorem donateAlike {turns t l} (here : away t = false) :
    Alike away other (donatePriAcquire turns k t l)
      (donatePriAcquire turns (overlay away other k) t l) := by
  induction turns generalizing k t l with
  | zero => rfl
  | succ turns ih =>
    unfold donatePriAcquire
    simp only [show (overlay away other k).lock = k.lock from rfl, overlayAt here]
    split
    · rfl
    · rename_i donee held
      have there := apart.holders l donee held
      obtain ⟨apart1, same1⟩ := raiseLockApart (l := l) (p := (k.thread t).ePri) apart there
      rw [same1, overlayAt there]
      refine alikeIf Iff.rfl (fun _ => alikeOk apart rfl) (fun _ => ?_)
      refine alikeIf Iff.rfl (fun _ => alikeOk apart1 rfl) (fun _ => ?_)
      obtain ⟨apart2, same2⟩ := raiseThreadApart (p := (k.thread t).ePri) apart1 there
      rw [same2]
      refine alikeBind (requeueAlike apart2 there) ?_
      intro k3 apart3
      rw [overlayAt there]
      split
      · exact alikeOk apart3 rfl
      · exact ih apart3 there
end

def charged (k : Kernel) (l : LockId) : Kernel :=
  (k.setValue (.lock l) (k.value (.lock l) - 1)).setLock l
    (fun lk => {lk with pri := k.cur.ePri, holder := some k.current})

theorem takeCharged (k l) : takeLock k l = (charged k l).setThread k.current (fun th =>
    {th with lockQueue := th.lockQueue.orderedInsert (lockBefore (charged k l)) l}) := rfl

section
variable (apart : Apart away other k)
include apart

theorem takeLockApart {l} :
    Apart away other (takeLock k l) ∧
      takeLock (overlay away other k) l = overlay away other (takeLock k l) := by
  have holder : Apart away other (charged k l) := by
    refine apartLock (apartValue apart) ?_
    intro t taken
    rw [← Option.some.inj taken]
    exact apart.current
  have same : charged (overlay away other k) l = overlay away other (charged k l) := by
    simp [charged, overlay, apart.current]
  rw [takeCharged, takeCharged, same]
  exact ⟨apartField holder apart.current rfl, (overlayThread apart.current).symm⟩

theorem lockAcquireLoopAlike {l} (harmless : Harmless away rest) :
    Alike away other (lockAcquireLoop k l rest)
      (lockAcquireLoop (overlay away other k) l rest) := by
  refine alikeIf Iff.rfl (fun _ => ?_) (fun _ => ?_)
  · exact sleepOnAlike (apartStack apart (harmlessCons harmless (by simp)))
      (overlayGrater apart.toAside) (overlayThread apart.current).symm
  · obtain ⟨apart1, same⟩ := takeLockApart (l := l) apart
    rw [same]
    exact stackAlike (apartField apart1 apart.current rfl) harmless
      (overlayThread apart.current).symm

theorem announceApart {l} :
    Apart away other (announce k l) ∧
      announce (overlay away other k) l = overlay away other (announce k l) := by
  unfold announce
  refine ⟨apartField (apartLock apart (apart.holders l)) apart.current rfl, ?_⟩
  rw [overlayThread apart.current]
  rfl

theorem lockAcquireAlike {l} (harmless : Harmless away rest) :
    Alike away other (lockAcquire k l rest) (lockAcquire (overlay away other k) l rest) := by
  refine alikeIf Iff.rfl (fun _ => rfl) (fun _ => ?_)
  obtain ⟨apart1, same⟩ := announceApart (l := l) apart
  rw [same]
  refine alikeBind (alikeIf Iff.rfl (fun _ => donateAlike apart1 apart.current)
    (fun _ => alikeOk apart1 rfl)) ?_
  intro k2 apart2
  exact lockAcquireLoopAlike apart2 harmless

theorem lockTryAcquireAlike {l} (harmless : Harmless away rest) :
    Alike away other (lockTryAcquire k l rest) (lockTryAcquire (overlay away other k) l rest) := by
  refine alikeIf Iff.rfl (fun _ => rfl) (fun _ => alikeIf Iff.rfl (fun _ => ?_)
    (fun _ => stackAlike apart harmless rfl))
  obtain ⟨apart1, same⟩ := takeLockApart (l := l) apart
  rw [same]
  exact stackAlike (apartLock apart1 (apart1.holders l)) harmless rfl
end

theorem restoredAlike {t held} (here : away t = false) :
    restoredPri (overlay away other k) t held = restoredPri k t held := by
  cases held with
  | nil => simp only [restoredPri, overlayAt here]
  | cons l held => rfl

section
variable (apart : Apart away other k)
include apart

theorem lockReleaseAlike {l} (harmless : Harmless away rest) :
    Alike away other (lockRelease k l rest) (lockRelease (overlay away other k) l rest) := by
  refine alikeIf Iff.rfl (fun _ => ?_) (fun _ => rfl)
  refine stackAlike ?_ (harmlessCons harmless (by simp)) ?_
  · exact apartField (apartLock apart (by simp)) apart.current rfl
  · have cur : (overlay away other k).cur = k.cur := overlayAt apart.current
    have price (f) : restoredPri (overlay away other (k.setLock l f)) k.current
        (k.cur.lockQueue.erase l) = restoredPri (k.setLock l f) k.current
        (k.cur.lockQueue.erase l) := restoredAlike apart.current
    refine overlayChange apart.current rfl ?_
    rw [cur]
    exact congrArg (fun p => {k.cur with lockQueue := k.cur.lockQueue.erase l, ePri := p})
      (price (fun lk => {lk with holder := none, pri := 0, state := int8 (lk.state + 1)}))

theorem condWaitAlike {c l} (harmless : Harmless away rest) :
    Alike away other (condWait k c l rest) (condWait (overlay away other k) c l rest) := by
  refine alikeIf Iff.rfl (fun _ => ?_) (fun _ => rfl)
  refine alikeBind (insertPriAlike apart apart.current (overlayPri apart.toAside)) ?_
  intro k1 apart1
  refine stackAlike apart1 ?_ rfl
  exact harmlessCons (harmlessCons (harmlessCons harmless (by simp)) (by simp)) (by simp)

theorem condWaitBlockAlike {c} (harmless : Harmless away rest) :
    Alike away other (condWaitBlock k c rest) (condWaitBlock (overlay away other k) c rest) := by
  have moved : Apart away other (k.setThread k.current (fun th =>
      {th with queue := some (.condWaiters c), stack := rest})) :=
    apartThread apart apart.current harmless
  have next := threadBlockAlike moved
  rw [overlayThread apart.current] at next
  exact next

theorem condPopAlike {c} {after : Tid → List Frame}
    (harmless : ∀ t, away t = false → Harmless away (after t)) :
    Alike away other (condPop k c after) (condPop (overlay away other k) c after) := by
  unfold condPop
  simp only [show (overlay away other k).list = k.list from rfl]
  split
  · rfl
  · rename_i t others front
    have here := apart.lists _ t (by rw [front]; exact List.mem_cons_self)
    refine alikeBind (listRemoveAlike apart here) ?_
    intro k1 apart1
    exact stackAlike (apartField apart1 here rfl) (harmless t here) (overlayThread here).symm

theorem condSignalAlike {c l} (harmless : Harmless away rest) :
    Alike away other (condSignal k c l rest) (condSignal (overlay away other k) c l rest) := by
  refine alikeIf Iff.rfl (fun _ => ?_) (fun _ => rfl)
  refine alikeIf Iff.rfl (fun _ => stackAlike apart harmless rfl) (fun _ => ?_)
  refine stackAlike (apartList apart ?_) (harmlessCons harmless (by simp)) ?_
  · intro t mem
    exact apart.lists _ t ((List.perm_insertionSort _ _).mem_iff.mp mem)
  · have same (a b) : ¬ graterThreadPri (overlay away other k) b a ↔ ¬ graterThreadPri k b a :=
      not_congr (overlayGrater apart.toAside b a)
    rw [Ordered.sortCongr same]
    rfl
end

theorem unblockHarmless {t f} (here : away t = false) (harmless : Harmless away rest)
    (quiet : ∀ n, f ≠ .threadUnblock n) : Harmless away (.threadUnblock t :: f :: rest) := by
  intro n inside
  rcases List.mem_cons.mp inside with top | below
  · rw [Frame.threadUnblock.inj top]; exact here
  · exact harmlessCons harmless quiet n below

section
variable (apart : Apart away other k) (harmless : Harmless away rest)
include apart harmless

theorem condBroadcastAlike {c flag} :
    Alike away other (.ok (condBroadcast k c flag rest))
      (.ok (condBroadcast (overlay away other k) c flag rest)) := by
  refine alikeChoice Iff.rfl (fun _ => stackAlike apart ?_ rfl)
    (fun _ => stackAlike apart (harmlessCons harmless (by simp)) rfl)
  split
  · exact harmlessCons harmless (by simp)
  · exact harmless

theorem condBroadcastTailAlike {c flag t} :
    Alike away other (.ok (condBroadcastTail k c flag t rest))
      (.ok (condBroadcastTail (overlay away other k) c flag t rest)) := by
  unfold condBroadcastTail
  simp only [weakerAlike apart t]
  exact stackAlike apart (harmlessCons harmless (by simp)) rfl

theorem threadSetPriorityAlike {p} :
    Alike away other (.ok (threadSetPriority k p rest))
      (.ok (threadSetPriority (overlay away other k) p rest)) := by
  have cur : (overlay away other k).cur = k.cur := overlayAt apart.current
  have yields : Harmless away (.threadYield :: rest) := harmlessCons harmless (by simp)
  unfold threadSetPriority
  rw [cur]
  refine alikeChoice Iff.rfl (fun _ => stackAlike apart harmless rfl) (fun _ => ?_)
  refine alikeChoice Iff.rfl (fun _ => ?_) (fun _ => alikeChoice Iff.rfl (fun _ => ?_) (fun _ => ?_))
  · exact stackAlike (apartField apart apart.current rfl) harmless
      (overlayThread apart.current).symm
  · exact stackAlike (apartField apart apart.current rfl) yields (overlayThread apart.current).symm
  · exact stackAlike (apartField apart apart.current rfl) harmless
      (overlayThread apart.current).symm

theorem threadCreateAlike {p} :
    Alike away other (.ok (threadCreate k p rest))
      (.ok (threadCreate (overlay away other k) p rest)) := by
  have here : away k.created = false := by
    cases h : away k.created with
    | false => rfl
    | true => exact absurd (apart.old _ h) (Nat.lt_irrefl _)
  have made := apartThread (f := fun _ => initThread p) apart here (by simp [initThread])
  have counted : Apart away other {k.setThread k.created (fun _ => initThread p) with
      created := k.created + 1} :=
    ⟨⟨made.idle, made.lists, made.holders, made.targets,
      fun t out => Nat.lt_succ_of_lt (apart.old t out), made.ePri, made.wakeUp⟩, made.current⟩
  refine stackAlike counted ?_ ?_
  · exact harmlessCons (harmlessCons (unblockHarmless here harmless (by simp)) (by simp)) (by simp)
  · have same : overlay away other (k.setThread k.created (fun _ => initThread p)) =
        (overlay away other k).setThread k.created (fun _ => initThread p) := overlayThread here
    exact congrArg (fun m => {m with created := k.created + 1}) same.symm

theorem threadCreateTailAlike {p} :
    Alike away other (.ok (threadCreateTail k p rest))
      (.ok (threadCreateTail (overlay away other k) p rest)) := by
  have cur : (overlay away other k).cur = k.cur := overlayAt apart.current
  unfold threadCreateTail
  rw [cur]
  exact alikeChoice Iff.rfl (fun _ => stackAlike apart (harmlessCons harmless (by simp)) rfl)
    (fun _ => stackAlike apart harmless rfl)

theorem timerSleepAlike {n} :
    Alike away other (.ok (timerSleep k n rest))
      (.ok (timerSleep (overlay away other k) n rest)) :=
  stackAlike (apartField apart apart.current rfl) (harmlessCons harmless (by simp))
    (overlayThread apart.current).symm

theorem timerSleepBlockAlike :
    Alike away other (timerSleepBlock k rest) (timerSleepBlock (overlay away other k) rest) := by
  refine sleepOnAlike (apartStack apart harmless) ?_ (overlayThread apart.current).symm
  intro a b
  simp only [lessSleep, overlayWakeUp apart.toAside]
end

theorem runFrameAlike {f} (apart : Apart away other k) (harmless : Harmless away (f :: rest)) :
    Alike away other (runFrame k f rest) (runFrame (overlay away other k) f rest) := by
  have later : Harmless away rest := fun n inside => harmless n (List.mem_cons_of_mem _ inside)
  cases f with
  | threadYield =>
    have next := threadYieldAlike (apartStack apart later)
    rw [Kernel.setStack, overlayThread apart.current] at next
    exact next
  | threadUnblock t =>
    refine alikeBind (threadUnblockAlike apart (harmless t List.mem_cons_self)) ?_
    intro k1 apart1
    exact stackAlike apart1 later rfl
  | threadSetPriority p => exact threadSetPriorityAlike apart later
  | threadCreate p => exact threadCreateAlike apart later
  | threadCreateTail p => exact threadCreateTailAlike apart later
  | idle => exact threadBlockAlike apart
  | semaDown n | semaDownLoop n => exact semaDownAlike apart later
  | semaTryDown n => exact semaTryDownAlike apart later
  | semaUp s => exact semaUpAlike apart later
  | semaUpTail t => exact semaUpTailAlike apart later
  | lockAcquire l => exact lockAcquireAlike apart later
  | lockAcquireLoop l => exact lockAcquireLoopAlike apart later
  | lockTryAcquire l => exact lockTryAcquireAlike apart later
  | lockRelease l => exact lockReleaseAlike apart later
  | condWait c l => exact condWaitAlike apart later
  | condWaitBlock c => exact condWaitBlockAlike apart later
  | condSignal c l => exact condSignalAlike apart later
  | condSignalPop c | condBroadcastPop c flag =>
    exact condPopAlike apart (fun t here => unblockHarmless here later (by simp))
  | condBroadcast c flag => exact condBroadcastAlike apart later
  | condBroadcastTail c flag t => exact condBroadcastTailAlike apart later
  | timerSleep n => exact timerSleepAlike apart later
  | timerSleepBlock => exact timerSleepBlockAlike apart later

end Frames

theorem wakeSleepersAlike {ts} (apart : Apart away other k) (here : ∀ t ∈ ts, away t = false) :
    Alike away other (wakeSleepers k ts) (wakeSleepers (overlay away other k) ts) := by
  induction ts generalizing k with
  | nil => exact alikeOk apart rfl
  | cons t ts ih =>
    have first := here t List.mem_cons_self
    unfold wakeSleepers
    rw [overlayAt first]
    refine alikeIf Iff.rfl (fun _ => ?_) (fun _ => alikeOk apart rfl)
    refine alikeBind (listRemoveAlike apart first) ?_
    intro k1 apart1
    refine alikeBind (threadUnblockAlike apart1 first) ?_
    intro k2 apart2
    exact ih apart2 (fun u mem => here u (List.mem_cons_of_mem _ mem))

theorem apartTicks {ticks threadTicks} (apart : Apart away other k) :
    Apart away other {k with ticks := ticks, threadTicks := threadTicks} :=
  ⟨⟨apart.idle, apart.lists, apart.holders, apart.targets, apart.old, apart.ePri, apart.wakeUp⟩,
    apart.current⟩

theorem timerInterruptAlike (apart : Apart away other k) :
    Alike away other (timerInterrupt k) (timerInterrupt (overlay away other k)) := by
  refine alikeBind (wakeSleepersAlike (apartTicks apart) (apart.lists _)) ?_
  intro k1 apart1
  exact alikeIf Iff.rfl (fun _ => threadYieldAlike (apartTicks apart1))
    (fun _ => alikeOk (apartTicks apart1) rfl)

theorem stepAlike (apart : Apart away other k) (a) :
    Alike away other (step k a) (step (overlay away other k) a) := by
  have cur : (overlay away other k).cur = k.cur := overlayAt apart.current
  cases a with
  | run =>
    simp only [step, run, cur]
    split
    · exact alikeOk apart rfl
    · rename_i f rest top
      refine runFrameAlike apart ?_
      rw [← top]
      exact apart.targets k.current
  | call op =>
    simp only [step, cur]
    refine alikeChoice Iff.rfl (fun _ => stackAlike apart ?_ rfl) (fun _ => alikeOk apart rfl)
    intro n inside
    cases op <;> simp [Op.frame] at inside
  | tick =>
    have off : intrOff (overlay away other k) = intrOff k := by simp only [intrOff, cur]
    simp only [step, off]
    exact alikeIf Iff.rfl (fun _ => alikeOk apart rfl) (fun _ => timerInterruptAlike apart)

end Overlay
end Pintos.Threads
