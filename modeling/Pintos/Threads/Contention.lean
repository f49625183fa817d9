import Pintos.Lib.Count
import Pintos.Threads.Exclusion
import Pintos.Threads.Frames

/-! lock->state counts who holds the lock or is inside lock_acquire on it, downwards from
one, in eight bits. Nobody bounds the number of contenders, so with 130 of them it wraps and
lock_acquire takes a held lock for a free one. -/
namespace Pintos.Threads
open Machine

attribute [local simp] Function.update_apply

def Contends (k : Kernel) (l : LockId) (t : Tid) : Prop :=
  (k.lock l).holder = some t ∨ (k.thread t).stack.head? = some (.lockAcquireLoop l)

instance (k l t) : Decidable (Contends k l t) := by unfold Contends; exact instDecidableOr

def stake (k : Kernel) (l : LockId) (t : Tid) : Nat := if Contends k l t then 1 else 0

theorem stakeSame {k k' l t} (same : Contends k' l t ↔ Contends k l t) :
    stake k' l t = stake k l t := by
  simp only [stake, same]

def contenders (k : Kernel) (l : LockId) : Nat := ∑ t ∈ Finset.range k.created, stake k l t

def Frame.charge (k : Kernel) (l : LockId) : Frame → Int
  | .lockAcquire m => if m = l then 1 else 0
  | .lockTryAcquire m => if m = l ∧ 0 < k.value (.lock l) then 1 else 0
  | .lockRelease m => if m = l then -1 else 0
  | _ => 0

section State
variable {k k' : Kernel}

theorem scheduleLock (ok : schedule k = .ok k') : k'.lock = k.lock := by
  rcases scheduleOk ok with ⟨_, rfl⟩ | ⟨t, rest, q, _, _, rfl⟩ <;> rfl

theorem sleepLock {q before} [DecidableRel before] (ok : sleepOn k q before = .ok k') :
    k'.lock = k.lock := by
  have same := scheduleLock (sleepOnOk ok).2
  exact same

theorem loopState {l rest} (ok : lockAcquireLoop k l rest = .ok k') (m) :
    (k'.lock m).state = (k.lock m).state := by
  unfold lockAcquireLoop at ok
  split at ok
  · rw [sleepLock ok]
    rfl
  · cases ok
    by_cases h : m = l <;> simp [takeLock, h]

theorem donateState {turns l} (coh : Coherent k)
    (ok : donatePriAcquire turns k k.current l = .ok k') (m) :
    (k'.lock m).state = (k.lock m).state := by
  have raise : ∀ j l' donee p, ((raiseLock j l' donee p).lock m).state = (j.lock m).state := by
    intro j l' donee p
    by_cases h : m = l' <;> simp [raiseLock, h]
  refine donateRule (fun _ j donor _ => OnWalk k.cur.ePri k j donor ∧
      (j.lock m).state = (k.lock m).state) (fun j => (j.lock m).state = (k.lock m).state) ?_ ?_ ?_ ?_
    ⟨⟨donatedRefl _ k, coh.links, coh.owed.idleHolds, rfl, Nat.le_refl _⟩, rfl⟩ ok
  · intro _ j donor l' donee so _ _
    exact so.2
  · intro _ j donor l' donee so _ _ _
    exact (raise j l' donee _).trans so.2
  · intro _ j donor l' donee j1 so held below weaker sorted _
    rw [(walkTurn so.1 held below weaker sorted).1.lock]
    exact (raise j l' donee _).trans so.2
  · intro _ j donor l' donee j1 next so held below weaker sorted _
    have turn := walkTurn so.1 held below weaker sorted
    refine ⟨turn.2, ?_⟩
    rw [turn.1.lock]
    exact (raise j l' donee _).trans so.2

theorem frameState {f rest} (coh : Coherent k) (top : k.cur.stack = f :: rest)
    (ok : runFrame k f rest = .ok k') (l) :
    f.charge k l = 0 ∧ (k'.lock l).state = (k.lock l).state ∨
      (k'.lock l).state = int8 ((k.lock l).state - f.charge k l) := by
  by_cases acquires : ∃ m, f = .lockAcquire m
  · obtain ⟨m, rfl⟩ := acquires
    obtain ⟨_, k1, walked, _, _, _, _, last⟩ := lockAcquireRan coh top ok
    have walk : (k1.lock l).state = ((announce k m).lock l).state := by
      unfold donateIfHeld at walked
      split at walked
      · exact donateState (announceCoherent coh) walked l
      · cases walked
        rfl
    rw [loopState last, walk]
    by_cases h : l = m
    · subst h
      exact .inr (by simp [announce, Frame.charge])
    · exact .inl ⟨by simp [Frame.charge, Ne.symm h], by simp [announce, h]⟩
  by_cases touches : f.lock = some l
  · cases f <;> simp only [Frame.lock, Option.some.injEq, reduceCtorEq] at touches <;> subst touches
    case lockAcquire m => exact absurd ⟨m, rfl⟩ acquires
    case lockAcquireLoop m => exact .inl ⟨rfl, loopState ok m⟩
    case lockTryAcquire m =>
      simp only [runFrame, lockTryAcquire] at ok
      split at ok <;> try contradiction
      split at ok <;> cases ok
      · rename_i positive
        exact .inr (by simp [takeLock, Frame.charge, positive])
      · rename_i zero
        exact .inl ⟨by simp [Frame.charge, zero], rfl⟩
    case lockRelease m =>
      obtain ⟨_, rfl⟩ := lockReleaseOk ok
      exact .inr (by simp [released, Frame.charge])
  · refine .inl ⟨?_, ?_⟩
    · cases f <;> simp [Frame.lock] at touches <;> simp [Frame.charge, touches]
    · rw [(runFrameElsewhere coh top (fun m same => acquires ⟨m, same⟩) ok).lock l touches]

theorem timerLock (coh : Coherent k) (ok : timerInterrupt k = .ok k') : k'.lock = k.lock :=
  funext fun l => (timerInterruptElsewhere 0 coh ok).lock l (by simp [Frame.lock])

end State

section Stakes
variable {k k' : Kernel} {f : Frame} {rest : List Frame} {l : LockId}

theorem frameHolder (coh : Coherent k) (top : k.cur.stack = f :: rest)
    (ok : runFrame k f rest = .ok k') (other : f.lock ≠ some l) :
    (k'.lock l).holder = (k.lock l).holder := by
  by_cases acquires : ∃ m, f = .lockAcquire m
  · obtain ⟨m, rfl⟩ := acquires
    obtain ⟨k1, _, donated, _, _, _, so⟩ := lockAcquireElsewhere coh top ok
    have apart : l ≠ m := by
      rintro rfl
      exact other rfl
    rw [so.lock l other, donated.holder]
    simp [announce, apart]
  · rw [(runFrameElsewhere coh top (fun m h => acquires ⟨m, h⟩) ok).lock l other]

theorem nextAcquires {new} (next : Next k new f) (inside : .lockAcquireLoop l ∈ new) :
    f.lock = some l := by
  cases f
  case lockAcquire | lockAcquireLoop =>
    rcases next with rfl | rfl
    · simp at inside
    · simpa [Frame.lock, eq_comm] using inside
  all_goals
    exfalso
    simp only [Next] at next
    grind

theorem restApart (own : Owned k) (top : k.cur.stack = f :: rest) :
    rest.head? ≠ some (.lockAcquireLoop l) := by
  intro head
  have outer := restOuter own top _ (List.mem_of_mem_head? head)
  simp [Frame.inner] at outer

theorem frameAside (own : Owned k) (coh : Coherent k) (top : k.cur.stack = f :: rest)
    (ok : runFrame k f rest = .ok k') (other : f.lock ≠ some l) :
    Contends k' l k.current ↔ Contends k l k.current := by
  have before : (k.thread k.current).stack.head? ≠ some (.lockAcquireLoop l) := by
    have top' : (k.thread k.current).stack = f :: rest := top
    rw [top']
    rintro head
    cases head
    exact other rfl
  have after : (k'.thread k.current).stack.head? ≠ some (.lockAcquireLoop l) := by
    obtain ⟨new, next, left⟩ := frameNext coh top ok
    rw [left]
    intro head
    cases new with
    | nil => exact restApart own top head
    | cons g new =>
      cases head
      exact other (nextAcquires next (by simp))
  simp [Contends, frameHolder coh top ok other, before, after]

theorem loopContends {g} (coh : Coherent k) (top : k.cur.stack = g :: rest)
    (stands : Stands g (.lockAcquireLoop l)) (ok : lockAcquireLoop k l rest = .ok k') :
    Contends k' l k.current := by
  unfold lockAcquireLoop at ok
  split at ok
  · have sleeps : Ran k rest (.lockAcquireLoop l) [.lockAcquireLoop l] k' :=
      .sleeps (.lock l) (fun _ _ _ => Iff.rfl) ok
    exact .inr (by rw [(ranElsewhere coh top stands (.inr rfl) sleeps).2]; rfl)
  · cases ok
    exact .inl (by simp [takeLock])

theorem frameStake (own : Owned k) (coh : Coherent k) (top : k.cur.stack = f :: rest)
    (ok : runFrame k f rest = .ok k') (l) :
    (stake k' l k.current : Int) = stake k l k.current + f.charge k l := by
  have top' : (k.thread k.current).stack = f :: rest := top
  by_cases other : f.lock ≠ some l
  · have free : f.charge k l = 0 := by
      cases f <;> simp [Frame.lock] at other <;> simp [Frame.charge, other]
    rw [stakeSame (frameAside own coh top ok other), free, Int.add_zero]
  · have touches : f.lock = some l := not_not.mp other
    cases f <;> simp only [Frame.lock, Option.some.injEq, reduceCtorEq] at touches <;> subst touches
    case lockAcquire m =>
      have absent : ¬ Contends k m k.current := by
        simp [Contends, (lockAcquireRan coh top ok).1, top']
      obtain ⟨_, k1, _, _, coh1, top1, current, last⟩ := lockAcquireRan coh top ok
      have present := loopContends coh1 top1 (.inr ⟨m, rfl, rfl⟩) last
      rw [current] at present
      simp [stake, absent, present, Frame.charge]
    case lockAcquireLoop m =>
      have present : Contends k m k.current := .inr (by simp [top'])
      simp [stake, present, loopContends coh top (.inl rfl) ok, Frame.charge]
    case lockTryAcquire m =>
      have apart := restApart (l := m) own top
      simp only [runFrame, lockTryAcquire] at ok
      split at ok <;> try contradiction
      rename_i fresh
      split at ok <;> cases ok
      · rename_i positive
        simp [stake, Contends, takeLock, Frame.charge, fresh, top', positive]
      · rename_i zero
        simp [stake, Contends, fresh, apart, top', Frame.charge, zero]
    case lockRelease m =>
      obtain ⟨held, rfl⟩ := lockReleaseOk ok
      simp [stake, Contends, released, held, Frame.charge]

end Stakes

section Tally
variable {k k' : Kernel} {a : Action}

theorem stepOthers (own : Owned k) (coh : Coherent k) (ok : step k a = .ok k') (l) {t}
    (other : t ≠ k.current) : Contends k' l t ↔ Contends k l t := by
  have stack : (k'.thread t).stack = (k.thread t).stack := by
    rcases stepOk ok with rfl | ⟨f, rest, _, top, ran⟩ | ⟨op, _, empty, rfl⟩ | ⟨_, _, ticked⟩
    · rfl
    · exact ((frameOthers coh top ran).2 t other).1
    · simp [other]
    · exact (timerInterruptElsewhere k.current coh ticked).stack t other
  have holder : (k'.lock l).holder = some t ↔ (k.lock l).holder = some t := by
    constructor
    · intro held
      exact (holderChange own coh ok held).resolve_right fun right => other right.1
    · exact fun held => holderKept own coh ok held fun same => absurd same other
  simp [Contends, holder, stack]

theorem stepCreated (coh : Coherent k) (ok : step k a = .ok k') : k.created ≤ k'.created := by
  rcases stepOk ok with rfl | ⟨f, rest, _, top, ran⟩ | ⟨op, _, empty, rfl⟩ | ⟨_, _, ticked⟩
  · exact Nat.le_refl _
  · exact (frameOthers coh top ran).1
  · exact Nat.le_refl _
  · exact (timerInterruptElsewhere k.current coh ticked).created

theorem stepStake (own : Owned k) (coh : Coherent k) (ok : step k a = .ok k') (l) :
    ∃ charge : Int, (stake k' l k.current : Int) = stake k l k.current + charge ∧
      (charge = 0 ∧ (k'.lock l).state = (k.lock l).state ∨
        (k'.lock l).state = int8 ((k.lock l).state - charge)) := by
  rcases stepOk ok with rfl | ⟨f, rest, _, top, ran⟩ | ⟨op, _, empty, rfl⟩ | ⟨_, _, ticked⟩
  · exact ⟨0, by simp, .inl ⟨rfl, rfl⟩⟩
  · exact ⟨f.charge k l, frameStake own coh top ran l, frameState coh top ran l⟩
  · refine ⟨0, ?_, .inl ⟨rfl, rfl⟩⟩
    have empty' : (k.thread k.current).stack = [] := empty
    cases op <;> simp [stake, Contends, empty', Op.frame]
  · refine ⟨0, ?_, .inl ⟨rfl, by rw [timerLock coh ticked]⟩⟩
    have apart : k.current ≠ k.current + 1 := Nat.ne_of_lt (Nat.lt_succ_self _)
    have stack := (timerInterruptElsewhere (k.current + 1) coh ticked).stack k.current apart
    have same : Contends k' l k.current ↔ Contends k l k.current := by
      simp only [Contends, timerLock coh ticked, stack]
    rw [stakeSame same, Int.add_zero]

theorem stepContenders (own : Owned k) (coh : Coherent k) (ok : step k a = .ok k') (l) :
    contenders k' l + stake k l k.current = contenders k l + stake k' l k.current := by
  have old := runningOld coh.links rfl
  have new : ∀ t, k.created ≤ t → stake k' l t = 0 := by
    intro t fresh
    have other : t ≠ k.current := (Nat.ne_of_lt (Nat.lt_of_lt_of_le old fresh)).symm
    have free : (k.lock l).holder ≠ some t := by
      intro held
      have inside := (own.held l t).mp held
      simp [(own.fresh t fresh).1] at inside
    have idle := (coh.owed.pending t).fresh fresh
    rw [stakeSame (stepOthers own coh ok l other)]
    simp [stake, Contends, free, idle]
  unfold contenders
  rw [Count.sumMore (stepCreated coh ok) new]
  exact Count.sumChange old fun t other => stakeSame (stepOthers own coh ok l other)

def Tallied (k : Kernel) : Prop := ∀ l, (k.lock l).state = int8 (1 - contenders k l)

theorem stepTallied (own : Owned k) (coh : Coherent k) (tallied : Tallied k)
    (ok : step k a = .ok k') : Tallied k' := by
  intro l
  have counted := stepContenders own coh ok l
  obtain ⟨charge, mine, state⟩ := stepStake own coh ok l
  have total : (1 - contenders k' l : Int) = 1 - contenders k l - charge := by omega
  rw [total]
  rcases state with ⟨rfl, same⟩ | moved
  · rw [same, tallied l, Int.sub_zero]
  · rw [moved, tallied l]
    exact Int.bmod_sub_bmod

theorem bootTallied (policy values) : Tallied (boot policy values) := by
  intro l
  have none : contenders (boot policy values) l = 0 := by
    refine Finset.sum_eq_zero fun t _ => ?_
    by_cases idle : t = 0
    · simp [stake, Contends, boot, idle]
    · by_cases main : t = 1 <;> simp [stake, Contends, boot, idle, main]
  rw [none]
  rfl

theorem runTallied {policy values} {may : Kernel → Action → Prop}
    (run : Run step may (boot policy values) k) : Coherent k ∧ Owned k ∧ Tallied k := by
  refine run.invariant (fun k => Coherent k ∧ Owned k ∧ Tallied k)
    ⟨bootCoherent policy values, bootOwned policy values, bootTallied policy values⟩ ?_
  rintro u v a ⟨coh, own, tallied⟩ _ ok
  exact ⟨stepCoherent coh ok, stepOwned own coh ok, stepTallied own coh tallied ok⟩

end Tally

theorem int8Exact (n : Nat) : int8 (1 - n) = 1 - n ↔ n ≤ 129 := by
  unfold int8
  rw [Int.bmod_def]
  split_ifs <;> omega

theorem int8Negative (n : Nat) : int8 (-n) < 0 ↔ 1 ≤ n % 256 ∧ n % 256 ≤ 128 := by
  unfold int8
  rw [Int.bmod_def]
  split_ifs <;> omega

theorem contendersOther {k l} (coh : Coherent k) (own : Owned k)
    (absent : ¬ Contends k l k.current) :
    1 ≤ contenders k l ↔ ∃ t, t ≠ k.current ∧ Contends k l t := by
  constructor
  · intro some
    by_contra nobody
    have zero : contenders k l = 0 := by
      refine Finset.sum_eq_zero fun t _ => ?_
      have not : ¬ Contends k l t := by
        intro contends
        refine nobody ⟨t, ?_, contends⟩
        rintro rfl
        exact absent contends
      simp [stake, not]
    omega
  · rintro ⟨t, _, contends⟩
    have old : t < k.created := by
      by_contra new
      have fresh := Nat.not_lt.mp new
      rcases contends with held | inside
      · have linked := (own.held l t).mp held
        simp [(own.fresh t fresh).1] at linked
      · simp [(coh.owed.pending t).fresh fresh] at inside
    have weight : stake k l t = 1 := by simp [stake, contends]
    exact weight ▸ Finset.single_le_sum_of_canonicallyOrdered (Finset.mem_range.mpr old)

/-- The counter is right up to 129 contenders, the announcing thread included; the test in
lock_acquire up to 128 others, and then a held lock always gets the donation. -/
theorem stateCounts {policy values k} {may : Kernel → Action → Prop}
    (run : Run step may (boot policy values) k) (l : LockId) :
    ((k.lock l).state = 1 - contenders k l ↔ contenders k l ≤ 129) ∧
    ∀ rest, k.cur.stack = .lockAcquire l :: rest → (k.lock l).holder ≠ some k.current →
      ((((announce k l).lock l).state < 0 ↔ ∃ t, t ≠ k.current ∧ Contends k l t) ↔
        contenders k l = 0 ∨ 1 ≤ contenders k l % 256 ∧ contenders k l % 256 ≤ 128) ∧
      ((k.lock l).holder ≠ none → contenders k l ≤ 128 →
        donateIfHeld (announce k l) l =
          donatePriAcquire (k.created + 1) (announce k l) k.current l) := by
  obtain ⟨coh, own, tallied⟩ := runTallied run
  refine ⟨by rw [tallied l]; exact int8Exact _, ?_⟩
  intro rest top free
  have absent : ¬ Contends k l k.current := by
    have top' : (k.thread k.current).stack = .lockAcquire l :: rest := top
    simp [Contends, free, top']
  have state : ((announce k l).lock l).state = int8 (-contenders k l) := by
    have once : int8 (int8 (1 - contenders k l) - 1) = int8 (1 - contenders k l - 1) :=
      Int.bmod_sub_bmod
    simp only [announce, Kernel.setThread, Kernel.setLock, Function.update_self, tallied l, once]
    congr 1
    omega
  have other := contendersOther coh own absent
  have test := int8Negative (contenders k l)
  rw [state, test, ← other]
  refine ⟨by omega, ?_⟩
  intro held few
  have some : 1 ≤ contenders k l := by
    obtain ⟨t, holds⟩ := Option.ne_none_iff_exists'.mp held
    refine other.mpr ⟨t, ?_, .inl holds⟩
    rintro rfl
    exact free holds
  have negative : ((announce k l).lock l).state < 0 := by
    rw [state, test]
    omega
  have holder : ((announce k l).lock l).holder = (k.lock l).holder := by simp [announce]
  unfold donateIfHeld
  rw [holder, if_pos ⟨negative, held⟩]
  rfl

theorem stateCountsExample :
    ∃ k, Run step (fun _ _ => True) (boot .prio (fun _ => 0)) k ∧
      (k.cur.stack = [.lockAcquire 1] ∧ (k.lock 1).holder = some 1 ∧ contenders k 1 = 1) ∧
      (k.lock 1).state = 1 - contenders k 1 ∧
      (((announce k 1).lock 1).state < 0 ↔ ∃ t, t ≠ k.current ∧ Contends k 1 t) ∧
      donateIfHeld (announce k 1) 1 =
        donatePriAcquire (k.created + 1) (announce k 1) k.current 1 := by
  obtain ⟨k, run, found⟩ := execFinds step (fun _ _ => True) (boot .prio (fun _ => 0))
    ([.call (.lockAcquire 1), .run] ++ creates 40 ++ [.call (.lockAcquire 1)])
    (fun k => decide (k.cur.stack = [.lockAcquire 1] ∧ (k.lock 1).holder = some 1 ∧
      k.current = 2 ∧ contenders k 1 = 1))
    (by decide +kernel)
  obtain ⟨top, held, current, one⟩ := of_decide_eq_true found
  have free : (k.lock 1).holder ≠ some k.current := by simp [held, current]
  obtain ⟨exact, testing⟩ := stateCounts run 1
  obtain ⟨test, donates⟩ := testing [] top free
  exact ⟨k, run, ⟨top, held, one⟩, exact.mpr (by omega), test.mpr (by omega),
    donates (by simp [held]) (by omega)⟩

/- The initial thread holds lock 1 and makes threads that want it: `made` TCBs are there, `c`
runs, the initial thread still has to execute `st` and holds `held`, and the semaphore of the
tid lock is at `v`. -/
structure Host (made : Nat) (c : Tid) (st : List Frame) (ready : List Tid) (held : List LockId)
    (v : Nat) (k : Kernel) : Prop where
  policy : k.policy = .fifo
  current : k.current = c
  idle : k.idleThread = 0
  created : k.created = made
  stack : (k.thread 1).stack = st
  elem : (k.thread 1).elem = if c = 1 then none else some .readyList
  ePri : (k.thread 1).ePri = 31
  lockQueue : (k.thread 1).lockQueue = held
  ready : k.list .readyList = ready
  tidHolder : (k.lock tidLock).holder = if tidLock ∈ held then some 1 else none
  tidValue : k.value (.lock tidLock) = v
  tidWaiters : k.list (.semaWaiters (.lock tidLock)) = []
  holder : (k.lock 1).holder = some 1
  pri : (k.lock 1).pri = 31
  value : k.value (.lock 1) = 0

section Host
variable {made : Nat} {k : Kernel} {p : Priority} {st : List Frame}

theorem hostCalls {ready} (op : Op) (host : Host made 1 [] ready [1] 1 k) :
    ∃ k', step k (.call op) = .ok k' ∧ Host made 1 [op.frame] ready [1] 1 k' ∧
      ∀ t, t ≠ 1 → k'.thread t = k.thread t := by
  refine ⟨_, by simp [step, host.current, host.stack]; rfl, ?_, fun t other => by simp [other]⟩
  cases host
  constructor <;> simp [*]

theorem hostCreates (host : Host made 1 [.threadCreate p] [] [1] 1 k) (old : 1 < made) :
    ∃ k', step k .run = .ok k' ∧ Host (made + 1) 1 [.lockAcquire tidLock, .lockRelease tidLock,
      .threadUnblock made, .threadCreateTail p] [] [1] 1 k' ∧ k'.thread made = initThread p ∧
      ∀ t, t ≠ 1 → t ≠ made → k'.thread t = k.thread t := by
  have apart : made ≠ 1 := Nat.ne_of_gt old
  refine ⟨_, by simp [step, Threads.run, host.current, host.stack, runFrame]; rfl, ?_,
    by simp [threadCreate, host.current, host.created, apart],
    fun t other new => by simp [threadCreate, host.current, host.created, other, new]⟩
  cases host
  constructor <;> simp [threadCreate, apart.symm, *]

theorem hostTakes (host : Host made 1 (.lockAcquire tidLock :: st) [] [1] 1 k) :
    ∃ k', step k .run = .ok k' ∧ Host made 1 st [] [tidLock, 1] 0 k' ∧
      ∀ t, t ≠ 1 → k'.thread t = k.thread t := by
  obtain ⟨policy, current, idle, created, stack, elem, ePri, lockQueue, ready, tidHolder,
    tidValue, tidWaiters, holder, pri, value⟩ := host
  simp only [tidLock] at *
  refine ⟨_, by simp [step, Threads.run, current, stack, runFrame, lockAcquire, tidHolder,
    donateIfHeld, announce, bind, Except.bind, lockAcquireLoop, tidValue]; rfl, ?_,
    fun t other => by simp [takeLock, other]⟩
  constructor <;> simp [takeLock, lockBefore, tidLock, *]

theorem hostReleases (host : Host made 1 (.lockRelease tidLock :: st) [] [tidLock, 1] 0 k) :
    ∃ k', step k .run = .ok k' ∧ Host made 1 (.semaUp (.lock tidLock) :: st) [] [1] 0 k' ∧
      ∀ t, t ≠ 1 → k'.thread t = k.thread t := by
  refine ⟨_, by simp [step, Threads.run, host.current, host.stack, runFrame, lockRelease,
    host.tidHolder]; rfl, ?_, fun t other => by simp [other]⟩
  cases host
  simp only [tidLock] at *
  constructor <;> simp [restoredPri, tidLock, *]

theorem hostUps (host : Host made 1 (.semaUp (.lock tidLock) :: st) [] [1] 0 k) :
    ∃ k', step k .run = .ok k' ∧ Host made 1 st [] [1] 1 k' ∧
      ∀ t, t ≠ 1 → k'.thread t = k.thread t := by
  refine ⟨_, by simp [step, Threads.run, host.current, host.stack, runFrame, semaUp,
    host.tidWaiters]; rfl, ?_, fun t other => by simp [other]⟩
  cases host
  simp only [tidLock] at *
  constructor <;> simp [upValue, tidLock, *]

theorem hostUnblocks {new} (host : Host made 1 (.threadUnblock new :: st) [] [1] 1 k)
    (apart : new ≠ 1) (fresh : k.thread new = initThread p) :
    ∃ k', step k .run = .ok k' ∧ Host made 1 st [new] [1] 1 k' ∧
      k'.thread new =
        {initThread p with status := .ready, queue := some .readyList, elem := some .readyList} ∧
      ∀ t, t ≠ 1 → t ≠ new → k'.thread t = k.thread t := by
  refine ⟨_, by simp [step, Threads.run, host.current, host.stack, runFrame, threadUnblock, fresh,
    initThread, threadEnqueue, host.policy, listPushBack, link, bind, Except.bind]; rfl, ?_, ?_,
    fun t other late => by simp [other, late]⟩
  · cases host
    constructor <;> simp [apart.symm, *]
  · simp [initThread, apart]

theorem hostTails {new} (host : Host made 1 [.threadCreateTail p] [new] [1] 1 k) :
    ∃ k', step k .run = .ok k' ∧
      Host made 1 (if 31 < p.val then [.threadYield] else []) [new] [1] 1 k' ∧
      ∀ t, t ≠ 1 → k'.thread t = k.thread t := by
  obtain ⟨policy, current, idle, created, stack, elem, ePri, lockQueue, ready, tidHolder,
    tidValue, tidWaiters, holder, pri, value⟩ := host
  refine ⟨_, by simp [step, Threads.run, current, stack, runFrame]; rfl, ?_, ?_⟩
  all_goals unfold threadCreateTail; simp only [Kernel.cur, current, ePri]; split_ifs
  · constructor <;> simp [*]
  · constructor <;> simp [*]
  all_goals exact fun t other => by simp [current, other]

theorem hostYields {new th} (host : Host made 1 [.threadYield] [new] [1] 1 k) (apart : new ≠ 1)
    (queued : k.thread new = th) (linked : th.elem = some .readyList) :
    ∃ k', step k .run = .ok k' ∧ Host made new [] [1] [1] 1 k' ∧
      k'.thread new = {th with status := .running, elem := none} ∧
      ∀ t, t ≠ 1 → t ≠ new → k'.thread t = k.thread t := by
  obtain ⟨policy, current, idle, created, stack, elem, ePri, lockQueue, ready, tidHolder,
    tidValue, tidWaiters, holder, pri, value⟩ := host
  refine ⟨_, by simp [step, Threads.run, current, stack, runFrame, threadYield, enqueueUnlessIdle,
    idle, threadEnqueue, policy, listPushBack, link, elem, bind, Except.bind, schedule, ready,
    listRemove, apart, queued, linked]; rfl, ?_, ?_, ?_⟩
  · constructor <;> simp [threadSwitchTail, apart.symm, *]
  · simp [threadSwitchTail]
  · exact fun t other late => by simp [threadSwitchTail, other, late]

theorem newcomerCalls {new th} (op : Op) (host : Host made new [] [1] [1] 1 k) (apart : new ≠ 1)
    (runs : k.thread new = th) (empty : th.stack = []) :
    ∃ k', step k (.call op) = .ok k' ∧ Host made new [] [1] [1] 1 k' ∧
      k'.thread new = {th with stack := [op.frame]} ∧
      ∀ t, t ≠ new → k'.thread t = k.thread t := by
  refine ⟨_, by simp [step, host.current, runs, empty]; rfl, ?_, by simp,
    fun t other => by simp [other]⟩
  cases host
  constructor <;> simp [apart.symm, *]

theorem newcomerSleeps {new th} (host : Host made new [] [1] [1] 1 k) (apart : new ≠ 1)
    (runs : k.thread new = th) (top : th.stack = [.lockAcquire 1]) (free : th.elem = none)
    (quiet : donateIfHeld (announce k 1) 1 = .ok (announce k 1)) :
    ∃ k', step k .run = .ok k' ∧ Host made 1 [] [] [1] 1 k' ∧
      (k'.thread new).stack = [.lockAcquireLoop 1] ∧
      ∀ t, t ≠ 1 → t ≠ new → k'.thread t = k.thread t := by
  obtain ⟨policy, current, idle, created, stack, elem, ePri, lockQueue, ready, tidHolder,
    tidValue, tidWaiters, holder, pri, value⟩ := host
  have waits : (1 : Tid) ≠ new := apart.symm
  have another : tidLock ≠ 1 := by decide
  have enters : step k .run = lockAcquireLoop (announce k 1) 1 [] := by
    simp [step, Threads.run, current, runs, top, runFrame, lockAcquire, holder, waits, quiet, bind,
      Except.bind]
  rw [enters]
  have queued : (k.thread 1).elem = some .readyList := by simp [elem, apart]
  refine ⟨_, by
    simp [announce, current, runs, bind, Except.bind, lockAcquireLoop, value, sleepOn,
      listInsertOrdered, link, free, threadBlock, schedule, policy, ready, listRemove, queued, waits]
    rfl, ?_, ?_, ?_⟩
  · constructor <;> simp [threadSwitchTail, *]
  · simp [threadSwitchTail, apart]
  · exact fun t other late => by simp [threadSwitchTail, other, late]

structure Crowd (n : Nat) (k : Kernel) : Prop where
  host : Host (n + 2) 1 [] [] [1] 1 k
  inside : ∀ t, 2 ≤ t → t < n + 2 → (k.thread t).stack.head? = some (.lockAcquireLoop 1)

def Reached : Kernel → Prop := Run step (fun _ _ => True) (boot .fifo fun _ => 0)

theorem crowdMeets {n} (p : Priority) (soFar : Reached k) (crowd : Crowd n k) :
    ∃ k', Reached k' ∧ Host (n + 3) (n + 2) [] [1] [1] 1 k' ∧
      (∀ t, 2 ≤ t → t < n + 2 → (k'.thread t).stack.head? = some (.lockAcquireLoop 1)) ∧
      (k'.thread (n + 2)).stack = [.lockAcquire 1] ∧ (k'.thread (n + 2)).elem = none ∧
      (k'.thread (n + 2)).ePri = p.val := by
  have old : n + 2 ≠ 1 := by omega
  obtain ⟨a, calls, hostA, restA⟩ := hostCalls (.threadCreate p) crowd.host
  obtain ⟨b, creates, hostB, newB, restB⟩ := hostCreates hostA (by omega)
  obtain ⟨c, takes, hostC, restC⟩ := hostTakes hostB
  obtain ⟨d, releases, hostD, restD⟩ := hostReleases hostC
  obtain ⟨e, ups, hostE, restE⟩ := hostUps hostD
  have fresh : e.thread (n + 2) = initThread p := by
    rw [restE _ old, restD _ old, restC _ old, newB]
  obtain ⟨f, unblocks, hostF, newF, restF⟩ := hostUnblocks hostE old fresh
  obtain ⟨g, tails, hostG, restG⟩ := hostTails hostF
  have made : Reached g := .more (.more (.more (.more (.more (.more (.more soFar trivial calls)
    trivial creates) trivial takes) trivial releases) trivial ups) trivial unblocks) trivial tails
  obtain ⟨h, reached, hostH, restH⟩ : ∃ h, Reached h ∧ Host (n + 3) 1 [.threadYield] [n + 2] [1] 1 h ∧
      ∀ t, t ≠ 1 → h.thread t = g.thread t := by
    by_cases stronger : 31 < p.val
    · rw [if_pos stronger] at hostG
      exact ⟨g, made, hostG, fun _ _ => rfl⟩
    · rw [if_neg stronger] at hostG
      obtain ⟨h, yields, hostH, restH⟩ := hostCalls .threadYield hostG
      exact ⟨h, .more made trivial yields, hostH, restH⟩
  have queued := ((restH _ old).trans (restG _ old)).trans newF
  obtain ⟨i, switches, hostI, newI, restI⟩ := hostYields hostH old queued rfl
  obtain ⟨j, asks, hostJ, newJ, restJ⟩ := newcomerCalls (.lockAcquire 1) hostI old newI rfl
  refine ⟨j, .more (.more reached trivial switches) trivial asks, hostJ, ?_, by rw [newJ]; rfl,
    by rw [newJ], by rw [newJ]; rfl⟩
  intro t two less
  have main : t ≠ 1 := by omega
  have other : t ≠ n + 2 := by omega
  rw [restJ t other, restI t main other, restH t main, restG t main, restF t main other,
    restE t main, restD t main, restC t main, restB t main other, restA t main]
  exact crowd.inside t two less

theorem crowdGrows {n} (soFar : Reached k) (crowd : Crowd n k) : ∃ k', Reached k' ∧ Crowd (n + 1) k' := by
  obtain ⟨j, reached, host, inside, top, free, same⟩ := crowdMeets 31 soFar crowd
  have apart : n + 2 ≠ 1 := by omega
  have quiet : donateIfHeld (announce j 1) 1 = .ok (announce j 1) := by
    unfold donateIfHeld
    split_ifs
    · have weak : (j.thread (n + 2)).ePri ≤ 31 := Nat.le_of_eq same
      simp [donatePriAcquire, announce, host.holder, host.pri, host.current, weak]
    · rfl
  obtain ⟨k', sleeps, hostK, stack, rest⟩ := newcomerSleeps host apart rfl top free quiet
  refine ⟨k', .more reached trivial sleeps, hostK, ?_⟩
  intro t two less
  by_cases new : t = n + 2
  · rw [new, stack]
    rfl
  · have main : t ≠ 1 := by omega
    rw [rest t main new]
    exact inside t two (by omega)

theorem crowdExists (n : Nat) : ∃ k, Reached k ∧ Crowd n k := by
  induction n with
  | zero =>
    obtain ⟨k, run, found⟩ := execFinds step (fun _ _ => True) (boot .fifo (fun _ => 0))
      [.call (.lockAcquire 1), .run]
      (fun k => decide (k.policy = .fifo ∧ k.current = 1 ∧ k.idleThread = 0 ∧ k.created = 2 ∧
        (k.thread 1).stack = [] ∧ (k.thread 1).elem = none ∧ (k.thread 1).ePri = 31 ∧
        (k.thread 1).lockQueue = [1] ∧ k.list .readyList = [] ∧ (k.lock tidLock).holder = none ∧
        k.value (.lock tidLock) = 1 ∧ k.list (.semaWaiters (.lock tidLock)) = [] ∧
        (k.lock 1).holder = some 1 ∧ (k.lock 1).pri = 31 ∧ k.value (.lock 1) = 0))
      (by decide +kernel)
    refine ⟨k, run, ?_, fun t two less => by omega⟩
    obtain ⟨policy, current, idle, created, stack, elem, ePri, lockQueue, ready, tidHolder,
      tidValue, tidWaiters, holder, pri, value⟩ := of_decide_eq_true found
    constructor <;> assumption
  | succ n ih =>
    obtain ⟨k, soFar, crowd⟩ := ih
    exact crowdGrows soFar crowd

end Host

theorem stateWraps : ∃ k k', Run step (fun _ _ => True) (boot .fifo fun _ => 0) k ∧
    k.cur.stack = [.lockAcquire 1] ∧ (k.lock 1).holder = some 1 ∧ contenders k 1 = 129 ∧
    (k.thread 1).ePri = 31 ∧ k.cur.ePri = 63 ∧
    donateIfHeld (announce k 1) 1 = .ok (announce k 1) ∧ step k .run = .ok k' ∧
    contenders k' 1 = 130 ∧ (k'.lock 1).state = 127 ∧ (k'.thread 1).ePri = 31 := by
  obtain ⟨j, soFar, crowd⟩ := crowdExists 128
  obtain ⟨k, reached, host, inside, top, free, ePri⟩ := crowdMeets 63 soFar crowd
  obtain ⟨coh, own, tallied⟩ := runTallied reached
  have idle : (k.thread 0).stack = [.idle] := (coh.owed.pending 0).idleStack host.idle.symm
  have many : contenders k 1 = 129 := by
    have weigh : ∀ t ∈ Finset.range 131, stake k 1 t = if 1 ≤ t ∧ t < 130 then 1 else 0 := by
      intro t young
      have less := Finset.mem_range.mp young
      by_cases zero : t = 0
      · simp [stake, Contends, host.holder, idle, zero]
      by_cases main : t = 1
      · simp [stake, Contends, host.holder, main]
      by_cases new : t = 130
      · simp [stake, Contends, host.holder, top, new]
      · have waits := inside t (by omega) (by omega)
        have between : 1 ≤ t ∧ t < 130 := by omega
        simp [stake, Contends, waits, between]
    have created : k.created = 131 := host.created
    rw [contenders, created, Finset.sum_congr rfl weigh]
    decide +kernel
  have state : ((announce k 1).lock 1).state = 127 := by
    simp only [announce, Kernel.setThread, Kernel.setLock, Function.update_self, tallied 1, many]
    decide +kernel
  have quiet : donateIfHeld (announce k 1) 1 = .ok (announce k 1) := by
    unfold donateIfHeld
    rw [state]
    rfl
  have current : k.current = 130 := host.current
  have apart : (130 : Tid) ≠ 1 := by decide
  have strong : (k.thread 130).ePri = 63 := ePri
  obtain ⟨k', sleeps, hostK, stack, rest⟩ := newcomerSleeps host apart rfl top free quiet
  obtain ⟨_, _, tallied'⟩ := runTallied (.more reached trivial sleeps)
  have more : contenders k' 1 = 130 := by
    have counted := stepContenders own coh sleeps 1
    have absent : stake k 1 k.current = 0 := by
      simp [stake, Contends, host.holder, current, top]
    have present : stake k' 1 k.current = 1 := by
      simp [stake, Contends, current, stack]
    omega
  refine ⟨k, k', reached, by simpa [current] using top, host.holder, many, host.ePri,
    by simpa [current] using strong, quiet, sleeps, more, ?_, hostK.ePri⟩
  rw [tallied' 1, more]
  decide +kernel

end Pintos.Threads
