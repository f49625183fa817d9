import Pintos.Lib.Count
import Pintos.Threads.Frames

/-! What a semaphore's value counts. The ledger of a run adds to the kernel the
sema_ups and sema_downs that have been completed, and who has been unblocked by a
sema_up and not yet looked at the value again. The semaphore inside a struct lock is
one like any other. -/
namespace Pintos.Threads
open Machine

attribute [local simp] Function.update_apply

def Sema.loop : Sema → Frame
  | .plain n => .semaDownLoop n
  | .lock l => .lockAcquireLoop l

def downed (k k' : Kernel) : List Frame → Option Sema
  | .semaDown n :: rest | .semaDownLoop n :: rest =>
    if (k'.thread k.current).stack = rest then some (.plain n) else none
  | .semaTryDown n :: _ => if 0 < k.value (.plain n) then some (.plain n) else none
  | .lockAcquire l :: rest | .lockAcquireLoop l :: rest =>
    if (k'.thread k.current).stack = rest then some (.lock l) else none
  | .lockTryAcquire l :: _ => if 0 < k.value (.lock l) then some (.lock l) else none
  | _ => none

structure Ledger where
  kernel : Kernel
  ups : Sema → Nat
  downs : Sema → Nat
  unblocked : Sema → Tid → Bool

def opening (k : Kernel) : Ledger where
  kernel := k
  ups _ := 0
  downs _ := 0
  unblocked _ _ := false

def Ledger.enter (s : Ledger) (k : Kernel) : Ledger :=
  let top := s.kernel.cur.stack.head?
  { kernel := k
    ups := fun x => if top = some (.semaUp x) then s.ups x + 1 else s.ups x
    downs := fun x =>
      if downed s.kernel k s.kernel.cur.stack = some x then s.downs x + 1 else s.downs x
    unblocked := fun x t =>
      if top = some (.semaUp x) ∧ (s.kernel.list (.semaWaiters x)).head? = some t then true
      else if top = some x.loop ∧ t = s.kernel.current then false
      else s.unblocked x t }

def record (s : Ledger) (a : Action) : Except Fault Ledger := do
  let k ← step s.kernel a
  .ok (if a = .run then s.enter k else {s with kernel := k})

def Ledger.pending (s : Ledger) (x : Sema) : Nat :=
  ∑ t ∈ Finset.range s.kernel.created, if s.unblocked x t then 1 else 0

structure Conserved (first : Sema → Nat) (s : Ledger) : Prop where
  balance : ∀ x, s.kernel.value x + s.downs x = first x + s.ups x
  positive : ∀ a s', record s a = .ok s' → ∀ x, s'.downs x ≠ s.downs x → 0 < s.kernel.value x
  awake : ∀ x t, s.unblocked x t = true →
    (s.kernel.thread t).status ≠ .blocked ∧ (s.kernel.thread t).stack.head? = some x.loop
  noneLost : ∀ x, s.kernel.list (.semaWaiters x) ≠ [] → s.kernel.value x ≤ s.pending x

/-- A sema_up leaves the net number of ups below 2^32. -/
def Fits (first : Sema → Nat) (s : Ledger) : Action → Prop
  | .run =>
    match s.kernel.cur.stack with
    | .semaUp x :: _ => first x + s.ups x + 1 < 2 ^ 32 + s.downs x
    | _ => True
  | _ => True

instance (first s a) : Decidable (Fits first s a) := by
  unfold Fits
  split
  · split <;> infer_instance
  · infer_instance

section Frames
variable {k k' : Kernel} {x : Sema} {rest : List Frame}

def Downs (k k' : Kernel) (x : Sema) (rest : List Frame) : Prop :=
  k.value x ≠ 0 ∧ k'.value x = k.value x - 1 ∧
      (k'.list (.semaWaiters x)).Perm (k.list (.semaWaiters x)) ∧
      (k'.thread k.current).stack = rest ∨
    k.value x = 0 ∧ k'.value x = 0 ∧
      (k'.list (.semaWaiters x)).Perm (k.current :: k.list (.semaWaiters x)) ∧
      (k'.thread k.current).stack = x.loop :: rest

theorem sleepDowns {before} [DecidableRel before] (placed : Coherent (k.setStack (x.loop :: rest)))
    (busy : k.current ≠ k.idleThread) (zero : k.value x = 0)
    (ok : sleepOn (k.setStack (x.loop :: rest)) (.semaWaiters x) before = .ok k') :
    Downs k k' x rest := by
  have so := sleepOnParks placed busy (by simp) ok (k.current + 1) .idle
  refine .inr ⟨zero, ?_, ?_, ?_⟩
  · rw [so.value x (by simp [Frame.sema])]
    exact zero
  · rw [so.list _ (by simp) (by simp [Frame.queue])]
    simpa [park] using List.perm_orderedInsert before k.current (k.list (.semaWaiters x))
  · rw [so.stack k.current (Nat.ne_of_lt (Nat.lt_succ_self _))]
    simp [park]

theorem semaDownDowns {f n} (coh : Coherent k) (top : k.cur.stack = f :: rest)
    (right : f = .semaDown n ∨ f = .semaDownLoop n) (ok : semaDown k n rest = .ok k') :
    Downs k k' (.plain n) rest := by
  have busy := currentBusy coh top (by rcases right with rfl | rfl <;> simp)
  unfold semaDown at ok
  split at ok
  · rename_i zero
    have placed : Coherent (k.setStack (.semaDownLoop n :: rest)) := by
      refine coherentReplace [.semaDownLoop n] coh top ?_ ?_ (by simp [Frame.owes]) ?_
      all_goals rcases right with rfl | rfl <;> simp [Frame.owes, Frame.nested]
    exact sleepDowns (x := .plain n) placed busy zero ok
  · cases ok
    exact .inl ⟨by assumption, by simp, by simp, by simp⟩

theorem lockAcquireLoopDowns {g l} (coh : Coherent k) (top : k.cur.stack = g :: rest)
    (not : g ≠ .idle) (quiet : g.owes = false) (ok : lockAcquireLoop k l rest = .ok k') :
    Downs k k' (.lock l) rest := by
  have busy := currentBusy coh top not
  unfold lockAcquireLoop at ok
  split at ok
  · rename_i zero
    have placed : Coherent (k.setStack (.lockAcquireLoop l :: rest)) :=
      coherentReplace [.lockAcquireLoop l] coh top not quiet (by simp [Frame.owes])
        (by simp [Frame.nested])
    exact sleepDowns (x := .lock l) placed busy zero ok
  · cases ok
    exact .inl ⟨by assumption, by simp [takeLock], by simp [takeLock], by simp [takeLock]⟩

inductive Counted (k k' : Kernel) (f : Frame) (rest : List Frame) (x : Sema) : Prop where
  | up (ups : f = .semaUp x) (value : k'.value x = upValue (k.value x))
      (list : k'.list (.semaWaiters x) = (k.list (.semaWaiters x)).tail)
      (ready : ∀ t ∈ (k.list (.semaWaiters x)).head?, (k'.thread t).status = .ready)
  | down (done : downed k k' (f :: rest) = some x) (other : f ≠ .semaUp x)
      (positive : k.value x ≠ 0) (value : k'.value x = k.value x - 1)
      (list : (k'.list (.semaWaiters x)).Perm (k.list (.semaWaiters x)))
  | sleep (done : downed k k' (f :: rest) ≠ some x) (other : f ≠ .semaUp x)
      (zero : k'.value x = 0) (value : k'.value x = k.value x)
      (list : (k'.list (.semaWaiters x)).Perm (k.current :: k.list (.semaWaiters x)))
      (stack : (k'.thread k.current).stack = x.loop :: rest)
  | away (done : downed k k' (f :: rest) ≠ some x) (other : f ≠ .semaUp x) (outside : f ≠ x.loop)
      (value : k'.value x = k.value x)
      (list : (k'.list (.semaWaiters x)).Perm (k.list (.semaWaiters x)))

theorem countedAway {f} (so : Elsewhere k.current f k k') (other : f.sema ≠ some x) :
    Counted k k' f rest x := by
  have queue : f.queue ≠ some (.semaWaiters x) := by
    cases f <;> simp_all [Frame.sema, Frame.queue]
  have list := so.list _ (by simp) queue
  refine .away ?_ ?_ ?_ (so.value x other) (by rw [list])
  · cases f <;> simp_all [downed, Frame.sema]
  · rintro rfl
    simp [Frame.sema] at other
  · rintro rfl
    cases x <;> simp [Sema.loop, Frame.sema] at other

theorem countedDown {f} (names : ∀ y, f ≠ .semaUp y)
    (done : downed k k' (f :: rest) =
      if (k'.thread k.current).stack = rest then some x else none)
    (downs : Downs k k' x rest) : Counted k k' f rest x := by
  rcases downs with ⟨positive, value, list, stack⟩ | ⟨zero, value, list, stack⟩
  · exact .down (by rw [done, if_pos stack]) (names x) positive value list
  · refine .sleep ?_ (names x) value (value.trans zero.symm) list stack
    rw [done, if_neg (by rw [stack]; simp)]
    simp

theorem countedTry {f} (names : ∀ y, f ≠ .semaUp y) (outside : f ≠ x.loop)
    (done : downed k k' (f :: rest) = if 0 < k.value x then some x else none)
    (value : k'.value x = if 0 < k.value x then k.value x - 1 else k.value x)
    (list : k'.list (.semaWaiters x) = k.list (.semaWaiters x)) : Counted k k' f rest x := by
  by_cases positive : 0 < k.value x
  · rw [if_pos positive] at done value
    exact .down done (names x) (Nat.ne_of_gt positive) value (by rw [list])
  · rw [if_neg positive] at done value
    exact .away (by simp [done]) (names x) outside value (by rw [list])

theorem semaUpCounted (coh : Coherent k) (ok : semaUp k x rest = .ok k') :
    Counted k k' (.semaUp x) rest x := by
  unfold semaUp at ok
  split at ok
  · rename_i empty
    cases ok
    exact .up rfl (by simp) (by simp [empty]) (by simp [empty])
  · rename_i t others front
    obtain ⟨k1, rem, more⟩ := bindOk.mp ok
    obtain ⟨k2, unblocked, last⟩ := bindOk.mp more
    have inside : t ∈ k.list (.semaWaiters x) := by simp [front]
    have other := waiterStopped coh inside (by simp)
    obtain ⟨q, linked, _, rfl⟩ := wakeOk rem unblocked
    cases Option.some.inj (linked.symm.trans ((coh.links.mem t _).mp inside))
    cases last
    refine .up rfl (by simp [woken, park, unpark]) ?_ ?_
    · simp [woken, park, unpark, front]
    · intro u first
      rw [front] at first
      cases first
      simp [woken, park, unpark, other]

theorem lockAcquireCounted {l} (coh : Coherent k) (top : k.cur.stack = .lockAcquire l :: rest)
    (ok : lockAcquire k l rest = .ok k') (x) : Counted k k' (.lockAcquire l) rest x := by
  obtain ⟨k1, _, donated, coh1, top1, last, so⟩ := lockAcquireElsewhere coh top ok
  have current : k1.current = k.current := donated.similar.current
  have value : k1.value = k.value := donated.value
  have list : ∀ q, (k1.list q).Perm (k.list q) := donated.similar.list
  by_cases here : x = .lock l
  · subst here
    refine countedDown (by simp) rfl ?_
    have downs := lockAcquireLoopDowns coh1 top1 (by simp) rfl last
    unfold Downs at downs ⊢
    rw [current, value] at downs
    rcases downs with ⟨positive, value, waiters, stack⟩ | ⟨zero, value, waiters, stack⟩
    · exact .inl ⟨positive, value, waiters.trans (list _), stack⟩
    · exact .inr ⟨zero, value, waiters.trans ((list _).cons _), stack⟩
  · have other : x ≠ .lock l := here
    refine .away ?_ (by simp) ?_ ?_ ?_
    · simp [downed, Ne.symm other]
    · cases x <;> simp [Sema.loop]
    · rw [so.value x (by simpa [Frame.sema] using Ne.symm other), value]
    · rw [so.list _ (by simp) (by simpa [Frame.queue] using Ne.symm other)]
      exact list _

theorem frameCounted {f} (coh : Coherent k) (top : k.cur.stack = f :: rest)
    (ok : runFrame k f rest = .ok k') (x) : Counted k k' f rest x := by
  by_cases acquires : ∃ l, f = .lockAcquire l
  · obtain ⟨l, rfl⟩ := acquires
    exact lockAcquireCounted coh top ok x
  have so := runFrameElsewhere coh top (fun l h => acquires ⟨l, h⟩) ok
  by_cases here : f.sema = some x
  · cases f with
    | semaDown n =>
      cases here
      exact countedDown (by simp) rfl (semaDownDowns coh top (.inl rfl) ok)
    | semaDownLoop n =>
      cases here
      exact countedDown (by simp) rfl (semaDownDowns coh top (.inr rfl) ok)
    | semaTryDown n =>
      cases here
      cases ok
      refine countedTry (by simp) (by simp [Sema.loop]) rfl ?_ ?_
      all_goals
        unfold semaTryDown
        split <;> simp
    | semaUp y =>
      cases here
      exact semaUpCounted coh ok
    | lockAcquire l => exact absurd ⟨l, rfl⟩ acquires
    | lockAcquireLoop l =>
      cases here
      exact countedDown (by simp) rfl (lockAcquireLoopDowns coh top (by simp) rfl ok)
    | lockTryAcquire l =>
      cases here
      simp only [runFrame, lockTryAcquire] at ok
      split at ok <;> try contradiction
      refine countedTry (by simp) (by simp [Sema.loop]) rfl ?_ ?_
      all_goals split at ok <;> cases ok <;> simp_all [takeLock]
    | _ => simp [Frame.sema] at here
  · exact countedAway so here

end Frames

structure Kept (first : Sema → Nat) (s : Ledger) : Prop where
  coh : Coherent s.kernel
  balance : ∀ x, s.kernel.value x + s.downs x = first x + s.ups x
  resumes : ∀ x, ∀ t ∈ s.kernel.list (.semaWaiters x),
    (s.kernel.thread t).stack.head? = some x.loop
  unblocked : ∀ x t, s.unblocked x t = true → (s.kernel.thread t).stack.head? = some x.loop ∧
    (s.kernel.thread t).status ≠ .blocked ∧ t ∉ s.kernel.list (.semaWaiters x) ∧
    t < s.kernel.created
  noneLost : ∀ x, s.kernel.list (.semaWaiters x) ≠ [] → s.kernel.value x ≤ s.pending x

section Ledger
variable {first : Sema → Nat} {s : Ledger} {k' : Kernel} {f : Frame} {rest : List Frame} {x : Sema}

theorem enterUps (top : s.kernel.cur.stack = f :: rest) :
    (s.enter k').ups x = if f = .semaUp x then s.ups x + 1 else s.ups x := by
  simp only [Ledger.enter, top, List.head?_cons, Option.some.injEq]

theorem enterDowns (top : s.kernel.cur.stack = f :: rest) :
    (s.enter k').downs x =
      if downed s.kernel k' (f :: rest) = some x then s.downs x + 1 else s.downs x := by
  simp only [Ledger.enter, top]

theorem enterUnblocked {t} (top : s.kernel.cur.stack = f :: rest) :
    (s.enter k').unblocked x t =
      if f = .semaUp x ∧ (s.kernel.list (.semaWaiters x)).head? = some t then true
      else if f = x.loop ∧ t = s.kernel.current then false else s.unblocked x t := by
  simp only [Ledger.enter, top, List.head?_cons, Option.some.injEq]

theorem enterNothing (empty : s.kernel.cur.stack = []) : s.enter s.kernel = s := by
  simp only [Ledger.enter, empty, List.head?_nil, downed, reduceCtorEq, false_and, if_false]

theorem loopUp : x.loop ≠ .semaUp x := by cases x <;> simp [Sema.loop]

theorem unblockedOther {t} (kept : Kept first s) (top : s.kernel.cur.stack = f :: rest)
    (before : s.unblocked x t = true) (still : ¬ (f = x.loop ∧ t = s.kernel.current)) :
    t ≠ s.kernel.current := by
  rintro rfl
  have head := (kept.unblocked x _ before).1
  have top' : (s.kernel.thread s.kernel.current).stack = f :: rest := top
  rw [top'] at head
  exact still ⟨Option.some.inj head, rfl⟩

theorem enterWaiters (kept : Kept first s) (counted : Counted s.kernel k' f rest x)
    (stack : ∀ t, t ≠ s.kernel.current → (k'.thread t).stack = (s.kernel.thread t).stack) :
    ∀ t ∈ k'.list (.semaWaiters x), (k'.thread t).stack.head? = some x.loop := by
  have waiting : ∀ t ∈ s.kernel.list (.semaWaiters x), (k'.thread t).stack.head? = some x.loop := by
    intro t inside
    rw [stack t (waiterStopped kept.coh inside (by simp))]
    exact kept.resumes x t inside
  intro t inside
  cases counted with
  | up ups value list ready =>
    rw [list] at inside
    exact waiting t (List.mem_of_mem_tail inside)
  | down done other positive value list | away done other outside value list =>
    exact waiting t (list.mem_iff.mp inside)
  | sleep done other zero value list onto =>
    rcases List.mem_cons.mp (list.mem_iff.mp inside) with rfl | before
    · rw [onto]
      rfl
    · exact waiting t before

section Enter
variable (kept : Kept first s) (top : s.kernel.cur.stack = f :: rest)
include kept top

theorem enterAwake (counted : Counted s.kernel k' f rest x)
    (created : s.kernel.created ≤ k'.created)
    (others : ∀ t, t ≠ s.kernel.current → (k'.thread t).stack = (s.kernel.thread t).stack ∧
      ((s.kernel.thread t).status ≠ .blocked → (k'.thread t).status ≠ .blocked))
    (t) (now : (s.enter k').unblocked x t = true) :
    (k'.thread t).stack.head? = some x.loop ∧ (k'.thread t).status ≠ .blocked ∧
      t ∉ k'.list (.semaWaiters x) ∧ t < k'.created := by
  rw [enterUnblocked top] at now
  split at now
  · rename_i woke
    obtain ⟨rfl, front⟩ := woke
    have inside := List.mem_of_mem_head? front
    have other := waiterStopped kept.coh inside (by simp)
    have old := linkedOld kept.coh.links ((kept.coh.links.mem t _).mp inside)
    cases counted with
    | up ups value list ready =>
      refine ⟨?_, by simp [ready t front], ?_, Nat.lt_of_lt_of_le old created⟩
      · rw [(others t other).1]
        exact kept.resumes x t inside
      · obtain ⟨ys, split⟩ := List.head?_eq_some_iff.mp front
        have nodup := kept.coh.links.nodup (.semaWaiters x)
        rw [list, split]
        rw [split] at nodup
        exact (List.nodup_cons.mp nodup).1
    | down done other | sleep done other | away done other => exact absurd rfl other
  · split at now
    · contradiction
    · rename_i still
      obtain ⟨head, up, out, old⟩ := kept.unblocked x t now
      have other := unblockedOther kept top now still
      refine ⟨?_, (others t other).2 up, ?_, Nat.lt_of_lt_of_le old created⟩
      · rw [(others t other).1]
        exact head
      · intro inside
        cases counted with
        | up ups value list ready =>
          rw [list] at inside
          exact out (List.mem_of_mem_tail inside)
        | down done other positive value list | away done other outside value list =>
          exact out (list.mem_iff.mp inside)
        | sleep done _ zero value list onto =>
          rcases List.mem_cons.mp (list.mem_iff.mp inside) with rfl | before
          · exact other rfl
          · exact out before

theorem enterBalance (counted : Counted s.kernel k' f rest x)
    (fits : f = .semaUp x → first x + s.ups x + 1 < 2 ^ 32 + s.downs x) :
    k'.value x + (s.enter k').downs x = first x + (s.enter k').ups x := by
  have before := kept.balance x
  rw [enterDowns top, enterUps top]
  cases counted with
  | up ups value list ready =>
    subst ups
    have room := fits rfl
    have small : s.kernel.value x + 1 < 2 ^ 32 := by omega
    rw [value, upValue, Nat.mod_eq_of_lt small]
    simp [downed]
    omega
  | down done other positive value list =>
    rw [if_pos done, if_neg other, value]
    omega
  | sleep done other zero value list onto | away done other outside value list =>
    rw [if_neg done, if_neg other, value]
    exact before

theorem enterPending (created : s.kernel.created ≤ k'.created) :
    (f ≠ .semaUp x → f ≠ x.loop → s.pending x ≤ (s.enter k').pending x) ∧
      (f = x.loop → s.pending x ≤ (s.enter k').pending x + 1) ∧
      (f = .semaUp x → s.kernel.list (.semaWaiters x) ≠ [] →
        s.pending x + 1 ≤ (s.enter k').pending x) := by
  have grow : (∑ t ∈ Finset.range s.kernel.created,
      if (s.enter k').unblocked x t then 1 else 0) ≤ (s.enter k').pending x :=
    Finset.sum_le_sum_of_subset (Finset.range_subset_range.mpr created)
  unfold Ledger.pending at grow ⊢
  refine ⟨?_, ?_, ?_⟩
  · intro notUp notLoop
    refine Nat.le_trans (Nat.le_of_eq ?_) grow
    refine Finset.sum_congr rfl fun t _ => ?_
    simp [enterUnblocked top, notUp, notLoop]
  · intro loops
    have change := Count.sumChange (n := s.kernel.created) (t := s.kernel.current)
      (g := fun t => if s.unblocked x t then 1 else 0)
      (h := fun t => if (s.enter k').unblocked x t then 1 else 0)
      (runningOld kept.coh.links rfl) (by
        intro t other
        simp [enterUnblocked top, loops, loopUp, other])
    have one : (if s.unblocked x s.kernel.current then 1 else 0) ≤ 1 := by split <;> simp
    omega
  · intro ups waiting
    obtain ⟨t, front⟩ := Option.isSome_iff_exists.mp (List.isSome_head?.mpr waiting)
    have inside := List.mem_of_mem_head? front
    have out : s.unblocked x t = false := by
      refine Bool.eq_false_iff.mpr fun now => ?_
      exact (kept.unblocked x t now).2.2.1 inside
    have change := Count.sumChange (n := s.kernel.created) (t := t)
      (g := fun t => if s.unblocked x t then 1 else 0)
      (h := fun t => if (s.enter k').unblocked x t then 1 else 0)
      (linkedOld kept.coh.links ((kept.coh.links.mem t _).mp inside)) (by
        intro u other
        have apart : f ≠ x.loop := fun h => loopUp (h.symm.trans ups)
        simp [enterUnblocked top, apart, front, Ne.symm other])
    have now : (s.enter k').unblocked x t = true := by simp [enterUnblocked top, ups, front]
    simp only [now, out, if_true, Bool.false_eq_true, if_false] at change
    omega

theorem enterNoneLost (counted : Counted s.kernel k' f rest x)
    (created : s.kernel.created ≤ k'.created) (waiting : k'.list (.semaWaiters x) ≠ []) :
    k'.value x ≤ (s.enter k').pending x := by
  obtain ⟨same, loops, ups⟩ := enterPending (x := x) kept top created
  have before : ∀ {ys : List Tid}, ys.Perm (s.kernel.list (.semaWaiters x)) → ys ≠ [] →
      s.kernel.value x ≤ s.pending x := by
    intro ys perm more
    refine kept.noneLost x fun empty => more ?_
    rw [empty] at perm
    exact perm.eq_nil
  cases counted with
  | up up value list ready =>
    have more : s.kernel.list (.semaWaiters x) ≠ [] := by
      intro empty
      rw [list, empty] at waiting
      exact waiting rfl
    have := kept.noneLost x more
    have := ups up more
    have : upValue (s.kernel.value x) ≤ s.kernel.value x + 1 := Nat.mod_le _ _
    omega
  | down done other positive value list =>
    have := before list waiting
    by_cases loop : f = x.loop
    · have := loops loop
      omega
    · have := same other loop
      omega
  | sleep done other zero value list onto => omega
  | away done other outside value list =>
    have := before list waiting
    have := same other outside
    omega

theorem keptEnter (fits : Fits first s .run) (ok : runFrame s.kernel f rest = .ok k') :
    Kept first (s.enter k') := by
  have counted := frameCounted kept.coh top ok
  obtain ⟨created, others⟩ := frameOthers kept.coh top ok
  refine ⟨runFrameCoherent kept.coh top ok, fun x => ?_, fun x => ?_, fun x => ?_, fun x => ?_⟩
  · refine enterBalance kept top (counted x) fun ups => ?_
    subst ups
    simpa only [Fits, top] using fits
  · exact enterWaiters kept (counted x) fun t other => (others t other).1
  · exact enterAwake kept top (counted x) created others
  · exact enterNoneLost kept top (counted x) created

end Enter

theorem keptStill (kept : Kept first s) (coh : Coherent k')
    (value : k'.value = s.kernel.value)
    (list : ∀ x, k'.list (.semaWaiters x) = s.kernel.list (.semaWaiters x))
    (stack : ∀ t, (k'.thread t).stack.head? = (s.kernel.thread t).stack.head? ∨
      (s.kernel.thread t).stack = [])
    (awake : ∀ t, (s.kernel.thread t).status ≠ .blocked → (k'.thread t).status ≠ .blocked)
    (created : s.kernel.created ≤ k'.created) : Kept first {s with kernel := k'} := by
  have head : ∀ x t, (s.kernel.thread t).stack.head? = some x →
      (k'.thread t).stack.head? = some x := by
    intro x t before
    rcases stack t with same | empty
    · rw [same]
      exact before
    · rw [empty] at before
      contradiction
  refine ⟨coh, ?_, ?_, ?_, ?_⟩
  · simp only [value]
    exact kept.balance
  · intro x t inside
    simp only [list] at inside
    exact head _ _ (kept.resumes x t inside)
  · intro x t now
    obtain ⟨before, up, out, old⟩ := kept.unblocked x t now
    simp only [list]
    exact ⟨head _ _ before, awake t up, out, Nat.lt_of_lt_of_le old created⟩
  · intro x
    simp only [list, value]
    exact fun waiting => Nat.le_trans (kept.noneLost x waiting) (Finset.sum_le_sum_of_subset (Finset.range_subset_range.mpr created))

theorem keptTick (kept : Kept first s) (ok : timerInterrupt s.kernel = .ok k') :
    Kept first {s with kernel := k'} := by
  have so := fun c => timerInterruptElsewhere c kept.coh ok
  have other : ∀ t : Tid, t ≠ t + 1 := fun t => Nat.ne_of_lt (Nat.lt_succ_self t)
  refine keptStill kept (timerInterruptCoherent kept.coh ok) ?_ ?_ ?_ ?_ ?_
  · funext x
    exact (so 0).value x (by simp [Frame.sema])
  · exact fun x => (so 0).list _ (by simp) (by simp [Frame.queue])
  · intro t
    rw [(so (t + 1)).stack t (other t)]
    exact .inl rfl
  · exact fun t => (so (t + 1)).awake t (other t)
  · exact (so 0).created

theorem recordKept {a s'} (kept : Kept first s) (fits : Fits first s a)
    (ok : record s a = .ok s') : Kept first s' := by
  obtain ⟨k, moved, last⟩ := bindOk.mp ok
  cases last
  cases a with
  | run =>
    rw [if_pos rfl]
    simp only [step, run] at moved
    split at moved
    · rename_i empty
      cases moved
      rw [enterNothing empty]
      exact kept
    · rename_i f rest top
      exact keptEnter kept top fits moved
  | call op =>
    rw [if_neg (by simp)]
    simp only [step, Except.ok.injEq] at moved
    split at moved
    · rename_i empty
      subst moved
      refine keptStill kept (coherentCall op kept.coh empty) rfl (fun _ => rfl) ?_ ?_
        (Nat.le_refl _)
      · intro t
        by_cases h : t = s.kernel.current
        · subst h; exact .inr empty
        · exact .inl (by simp [h])
      · intro t up
        by_cases h : t = s.kernel.current <;> simpa [h] using up
    · subst moved
      exact kept
  | tick =>
    rw [if_neg (by simp)]
    simp only [step] at moved
    split at moved
    · cases moved
      exact kept
    · exact keptTick kept moved

theorem downPositive {a s'} (coh : Coherent s.kernel) (ok : record s a = .ok s')
    (took : s'.downs x ≠ s.downs x) : 0 < s.kernel.value x := by
  obtain ⟨k, moved, last⟩ := bindOk.mp ok
  cases last
  split at took <;> try contradiction
  rename_i runs
  subst runs
  simp only [step, run] at moved
  split at moved
  · rename_i empty
    cases moved
    rw [enterNothing empty] at took
    contradiction
  · rename_i f rest top
    rw [enterDowns top] at took
    cases frameCounted coh top moved x with
    | up ups =>
      subst ups
      simp [downed] at took
    | down done other positive => exact Nat.pos_of_ne_zero positive
    | sleep done | away done =>
      rw [if_neg done] at took
      contradiction

end Ledger

theorem openingKept (policy values) :
    Kept (boot policy values).value (opening (boot policy values)) := by
  refine ⟨bootCoherent policy values, ?_, ?_, ?_, ?_⟩ <;> simp [opening, boot]

theorem semaphoreConservation {policy values s}
    (run : Run record (Fits (boot policy values).value) (opening (boot policy values)) s) :
    Conserved (boot policy values).value s := by
  have kept : Kept (boot policy values).value s :=
    run.invariant (Kept (boot policy values).value) (openingKept policy values)
      fun _ _ _ kept fits ok => recordKept kept fits ok
  refine ⟨kept.balance, ?_, ?_, kept.noneLost⟩
  · exact fun a s' ok x took => downPositive kept.coh ok took
  · intro x t now
    obtain ⟨head, up, _⟩ := kept.unblocked x t now
    exact ⟨up, head⟩

theorem semaphoreConservationExample :
    ∃ s, Run record (Fits (boot .prio (fun _ => 0)).value) (opening (boot .prio (fun _ => 0))) s ∧
      (s.kernel.value (.plain 0) = 1 ∧ s.kernel.list (.semaWaiters (.plain 0)) = [2] ∧
        s.unblocked (.plain 0) 3 = true ∧ s.ups (.plain 0) = 1 ∧ s.downs (.plain 0) = 0) ∧
      Conserved (boot .prio (fun _ => 0)).value s := by
  obtain ⟨s, run, found⟩ := execFinds record (Fits (boot .prio (fun _ => 0)).value)
    (opening (boot .prio (fun _ => 0)))
    (creates 40 ++ [.call (.semaDown 0), .run] ++ creates 41 ++ [.call (.semaDown 0), .run,
      .call (.semaUp 0), .run])
    (fun s => decide (s.kernel.value (.plain 0) = 1 ∧
      s.kernel.list (.semaWaiters (.plain 0)) = [2] ∧ s.unblocked (.plain 0) 3 = true ∧
      s.ups (.plain 0) = 1 ∧ s.downs (.plain 0) = 0)) (by decide +kernel)
  exact ⟨s, run, of_decide_eq_true found, semaphoreConservation run⟩

end Pintos.Threads
