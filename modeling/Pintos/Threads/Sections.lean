import Pintos.Threads.Coherence

/-! The sections of the kernel, taken apart once: what a frame has done when it returns or
gives up the processor, and which frames it leaves in front of the rest of the stack. -/
namespace Pintos.Threads
open Machine

attribute [local simp] Function.update_apply

def woken (k : Kernel) (q : Queue) (t : Tid) : Kernel :=
  park (unpark k q t) .readyList t (readyInsert (unpark k q t) t) .ready

theorem wakeOk {k t k1 k'} (rem : listRemove k t = .ok k1) (ok : threadUnblock k1 t = .ok k') :
    ∃ q, (k.thread t).elem = some q ∧ (k.thread t).status = .blocked ∧ k' = woken k q t := by
  obtain ⟨q, linked, rfl⟩ := listRemoveOk rem
  obtain ⟨blocked, _, rfl⟩ := threadUnblockOk ok
  exact ⟨q, linked, by simpa [unpark] using blocked, rfl⟩

theorem waiterStopped {k t q} (coh : Coherent k) (inside : t ∈ k.list q)
    (not : ∀ c, q ≠ .condWaiters c) : t ≠ k.current := by
  rintro rfl
  have linked := (coh.links.mem _ q).mp inside
  obtain ⟨c, rfl⟩ := (coh.links.placed k.current).runElem q rfl linked
  exact not c rfl

theorem semaUpOk {k s rest k'} (coh : Coherent k) (ok : semaUp k s rest = .ok k') :
    k.list (.semaWaiters s) = [] ∧ k' = (k.setValue s (upValue (k.value s))).setStack rest ∨
    ∃ t others, k.list (.semaWaiters s) = t :: others ∧ t ≠ k.current ∧
      (k.thread t).elem = some (.semaWaiters s) ∧
      k' = ((woken k (.semaWaiters s) t).setValue s (upValue (k.value s))).setStack
        (.semaUpTail t :: rest) := by
  unfold semaUp at ok
  split at ok
  · exact .inl ⟨by assumption, (Except.ok.inj ok).symm⟩
  · rename_i t others front
    obtain ⟨k1, rem, more⟩ := bindOk.mp ok
    obtain ⟨k2, unblocked, last⟩ := bindOk.mp more
    have inside : t ∈ k.list (.semaWaiters s) := by simp [front]
    have other := waiterStopped coh inside (by simp)
    obtain ⟨q, linked, _, rfl⟩ := wakeOk rem unblocked
    cases Option.some.inj (linked.symm.trans ((coh.links.mem _ _).mp inside))
    exact .inr ⟨t, others, front, other, linked, (Except.ok.inj last).symm⟩

def popped (k : Kernel) (c : CondId) (t : Tid) : Kernel :=
  (unpark k (.condWaiters c) t).setThread t (fun th => {th with queue := none})

theorem condPopOk {k c after k'} (coh : Coherent k) (ok : condPop k c after = .ok k') :
    ∃ t others, k.list (.condWaiters c) = t :: others ∧
      k' = (popped k c t).setStack (after t) := by
  unfold condPop at ok
  split at ok <;> try contradiction
  rename_i t others front
  obtain ⟨k1, rem, last⟩ := bindOk.mp ok
  obtain ⟨q, linked, rfl⟩ := listRemoveOk rem
  have inside : t ∈ k.list (.condWaiters c) := by simp [front]
  cases Option.some.inj (linked.symm.trans ((coh.links.mem _ _).mp inside))
  exact ⟨t, others, front, (Except.ok.inj last).symm⟩

def released (k : Kernel) (l : LockId) : Kernel :=
  let held := k.cur.lockQueue.erase l
  let k := k.setLock l (fun lk =>
    {lk with holder := none, pri := 0, state := int8 (lk.state + 1)})
  k.setThread k.current (fun th =>
    {th with lockQueue := held, ePri := restoredPri k k.current held})

theorem lockReleaseOk {k l rest k'} (ok : lockRelease k l rest = .ok k') :
    (k.lock l).holder = some k.current ∧
    k' = (released k l).setStack (.semaUp (.lock l) :: rest) := by
  unfold lockRelease at ok
  split at ok <;> try contradiction
  exact ⟨by assumption, (Except.ok.inj ok).symm⟩

def Frame.queue : Frame → Option Queue
  | .semaDown n | .semaDownLoop n => some (.semaWaiters (.plain n))
  | .semaUp s => some (.semaWaiters s)
  | .lockAcquire l | .lockAcquireLoop l => some (.semaWaiters (.lock l))
  | .condWait c _ | .condSignal c _ | .condSignalPop c | .condBroadcastPop c _ =>
    some (.condWaiters c)
  | .timerSleepBlock => some .timerSleepList
  | _ => none

def Frame.sema : Frame → Option Sema
  | .semaDown n | .semaDownLoop n | .semaTryDown n => some (.plain n)
  | .semaUp s => some s
  | .lockAcquire l | .lockAcquireLoop l | .lockTryAcquire l => some (.lock l)
  | _ => none

def Frame.lock : Frame → Option LockId
  | .lockAcquire l | .lockAcquireLoop l | .lockTryAcquire l | .lockRelease l => some l
  | _ => none

def Frame.pops : Frame → Option CondId
  | .condSignalPop c | .condBroadcastPop c _ => some c
  | _ => none

def Frame.inner : Frame → Bool
  | .semaUp (.lock _) | .lockAcquireLoop _ => true
  | _ => false

def Next (k : Kernel) (new : List Frame) : Frame → Prop
  | .threadYield | .threadUnblock _ | .semaTryDown _ | .lockTryAcquire _ => new = []
  | .condWaitBlock _ | .timerSleepBlock => new = []
  | .threadSetPriority _ | .threadCreateTail _ | .semaUpTail _ => new = [] ∨ new = [.threadYield]
  | .threadCreate p => new = [.lockAcquire tidLock, .lockRelease tidLock,
      .threadUnblock k.created, .threadCreateTail p]
  | .idle => new = [.idle]
  | .semaDown s | .semaDownLoop s => new = [] ∨ new = [.semaDownLoop s]
  | .semaUp _ => new = [] ∨ ∃ t, new = [.semaUpTail t]
  | .lockAcquire l | .lockAcquireLoop l => new = [] ∨ new = [.lockAcquireLoop l]
  | .lockRelease l => new = [.semaUp (.lock l)]
  | .condWait c l => new = [.lockRelease l, .condWaitBlock c, .lockAcquire l]
  | .condSignal c _ => k.list (.condWaiters c) = [] ∧ new = [] ∨
      k.list (.condWaiters c) ≠ [] ∧ new = [.condSignalPop c]
  | .condSignalPop c => ∃ t ∈ (k.list (.condWaiters c)).head?,
      new = [.threadUnblock t, .semaUpTail t]
  | .condBroadcast c flag => k.list (.condWaiters c) = [] ∧ (new = [] ∨ new = [.threadYield]) ∨
      k.list (.condWaiters c) ≠ [] ∧ new = [.condBroadcastPop c flag]
  | .condBroadcastPop c flag => ∃ t ∈ (k.list (.condWaiters c)).head?,
      new = [.threadUnblock t, .condBroadcastTail c flag t]
  | .condBroadcastTail c _ _ => ∃ flag, new = [.condBroadcast c flag]
  | .timerSleep _ => new = [.timerSleepBlock]

def Frame.plain : Frame → Bool
  | .threadSetPriority _ | .threadCreateTail _ | .semaTryDown _ | .semaUpTail _ => true
  | .lockTryAcquire _ | .condSignal _ _ | .condBroadcast _ _ | .condBroadcastTail _ _ _ => true
  | _ => false

inductive Sleeps : Frame → Queue → List Frame → Prop where
  | first (n) : Sleeps (.semaDown n) (.semaWaiters (.plain n)) [.semaDownLoop n]
  | again (n) : Sleeps (.semaDownLoop n) (.semaWaiters (.plain n)) [.semaDownLoop n]
  | lock (l) : Sleeps (.lockAcquireLoop l) (.semaWaiters (.lock l)) [.lockAcquireLoop l]
  | timer : Sleeps .timerSleepBlock .timerSleepList []

structure Tunes (g : Thread → Thread) : Prop where
  status : ∀ th, (g th).status = th.status
  elem : ∀ th, (g th).elem = th.elem
  queue : ∀ th, (g th).queue = th.queue
  stack : ∀ th, (g th).stack = th.stack

inductive Ran (k : Kernel) (rest : List Frame) : Frame → List Frame → Kernel → Prop where
  | plain {f new} (kind : f.plain = true) : Ran k rest f new (k.setStack (new ++ rest))
  | tunes {f new g} (kind : (∃ p, f = .threadSetPriority p) ∨ ∃ n, f = .timerSleep n)
      (keeps : Tunes g) : Ran k rest f new ((k.setThread k.current g).setStack (new ++ rest))
  | yields {k'} (ok : threadYield (k.setStack rest) = .ok k') : Ran k rest .threadYield [] k'
  | readies {t} (blocked : (k.thread t).status = .blocked) (free : (k.thread t).elem = none) :
      Ran k rest (.threadUnblock t) []
        ((park k .readyList t (readyInsert k t) .ready).setStack rest)
  | creates {p} : Ran k rest (.threadCreate p) [.lockAcquire tidLock, .lockRelease tidLock,
      .threadUnblock k.created, .threadCreateTail p] (threadCreate k p rest)
  | idles {k'} (ok : threadBlock k = .ok k') : Ran k rest .idle [.idle] k'
  | sleeps {f q new before k'} [DecidableRel before] (kind : Sleeps f q new)
      (strict : q ≠ .timerSleepList → ∀ a b, before a b ↔ graterThreadPri k a b)
      (ok : sleepOn (k.setStack (new ++ rest)) q before = .ok k') : Ran k rest f new k'
  | counts {f s v} (kind : f.sema = some s) : Ran k rest f [] ((k.setValue s v).setStack rest)
  | wakes {s t others} (front : k.list (.semaWaiters s) = t :: others) (other : t ≠ k.current)
      (linked : (k.thread t).elem = some (.semaWaiters s)) : Ran k rest (.semaUp s) [.semaUpTail t]
        (((woken k (.semaWaiters s) t).setValue s (upValue (k.value s))).setStack
          (.semaUpTail t :: rest))
  | takes {l} : Ran k rest (.lockAcquireLoop l) [] (((takeLock k l).setThread k.current
      (fun th => {th with donatedFor := none})).setStack rest)
  | tries {l} : Ran k rest (.lockTryAcquire l) [] (((takeLock k l).setLock l
      (fun lk => {lk with state := int8 (lk.state - 1)})).setStack rest)
  | releases {l} : Ran k rest (.lockRelease l) [.semaUp (.lock l)]
      ((released k l).setStack (.semaUp (.lock l) :: rest))
  | links {c l} (held : (k.lock l).holder = some k.current) (free : k.cur.elem = none) : Ran k rest (.condWait c l)
      [.lockRelease l, .condWaitBlock c, .lockAcquire l]
      (((k.setList (.condWaiters c) ((k.list (.condWaiters c)).orderedInsert (graterThreadPri k)
        k.current)).setThread k.current (fun th => {th with elem := some (.condWaiters c)})).setStack
        (.lockRelease l :: .condWaitBlock c :: .lockAcquire l :: rest))
  | blocks {c k'} (ok : condWaitBlock k c rest = .ok k') : Ran k rest (.condWaitBlock c) [] k'
  | sorts {c l xs} (perm : xs.Perm (k.list (.condWaiters c))) :
      Ran k rest (.condSignal c l) [.condSignalPop c]
        ((k.setList (.condWaiters c) xs).setStack (.condSignalPop c :: rest))
  | pops {f c g t others} (kind : f = .condSignalPop c ∧ g = .semaUpTail t ∨
        ∃ flag, f = .condBroadcastPop c flag ∧ g = .condBroadcastTail c flag t)
      (front : k.list (.condWaiters c) = t :: others) : Ran k rest f [.threadUnblock t, g]
        ((popped k c t).setStack (.threadUnblock t :: g :: rest))

section Ran
variable {k k' : Kernel} {rest : List Frame} {f : Frame}

theorem lockAcquireLoopRan {l} (ok : lockAcquireLoop k l rest = .ok k') :
    ∃ new, Next k new (.lockAcquireLoop l) ∧ Ran k rest (.lockAcquireLoop l) new k' := by
  unfold lockAcquireLoop at ok
  split at ok
  · exact ⟨_, .inr rfl, .sleeps (.lock l) (fun _ _ _ => Iff.rfl) ok⟩
  · cases ok
    exact ⟨_, .inl rfl, .takes⟩

theorem runFrameRan (coh : Coherent k) (not : ∀ l, f ≠ .lockAcquire l)
    (ok : runFrame k f rest = .ok k') : ∃ new, Next k new f ∧ Ran k rest f new k' := by
  cases f with
  | threadYield => exact ⟨_, rfl, .yields ok⟩
  | threadUnblock t =>
    obtain ⟨k1, woke, last⟩ := bindOk.mp ok
    obtain ⟨blocked, free, rfl⟩ := threadUnblockOk woke
    cases last
    exact ⟨_, rfl, .readies blocked free⟩
  | threadSetPriority p =>
    have tunes {g new} (keeps : Tunes g) :
        Ran k rest (.threadSetPriority p) new ((k.setThread k.current g).setStack (new ++ rest)) :=
      .tunes (.inl ⟨p, rfl⟩) keeps
    simp only [runFrame, threadSetPriority, Except.ok.injEq] at ok
    split at ok <;> [skip; split at ok <;> [skip; split at ok]] <;> subst ok
    · exact ⟨[], .inl rfl, .plain rfl⟩
    · exact ⟨[], .inl rfl, tunes ⟨fun _ => rfl, fun _ => rfl, fun _ => rfl, fun _ => rfl⟩⟩
    · exact ⟨_, .inr rfl, tunes ⟨fun _ => rfl, fun _ => rfl, fun _ => rfl, fun _ => rfl⟩⟩
    · exact ⟨[], .inl rfl, tunes ⟨fun _ => rfl, fun _ => rfl, fun _ => rfl, fun _ => rfl⟩⟩
  | threadCreate p => cases ok; exact ⟨_, rfl, .creates⟩
  | threadCreateTail p =>
    simp only [runFrame, threadCreateTail, Except.ok.injEq] at ok
    split at ok <;> subst ok
    · exact ⟨[.threadYield], .inr rfl, .plain rfl⟩
    · exact ⟨[], .inl rfl, .plain rfl⟩
  | idle => exact ⟨_, rfl, .idles ok⟩
  | semaDown n | semaDownLoop n =>
    simp only [runFrame, semaDown] at ok
    split at ok
    · exact ⟨_, .inr rfl, .sleeps (by constructor) (fun _ _ _ => Iff.rfl) ok⟩
    · cases ok
      exact ⟨[], .inl rfl, .counts rfl⟩
  | semaTryDown n =>
    simp only [runFrame, semaTryDown, Except.ok.injEq] at ok
    split at ok <;> subst ok
    · exact ⟨[], rfl, .counts rfl⟩
    · exact ⟨[], rfl, .plain rfl⟩
  | semaUp s =>
    rcases semaUpOk coh ok with ⟨_, rfl⟩ | ⟨t, others, front, other, linked, rfl⟩
    · exact ⟨[], .inl rfl, .counts rfl⟩
    · exact ⟨_, .inr ⟨t, rfl⟩, .wakes front other linked⟩
  | semaUpTail t =>
    simp only [runFrame, semaUpTail, Except.ok.injEq] at ok
    split at ok <;> subst ok
    · exact ⟨[.threadYield], .inr rfl, .plain rfl⟩
    · exact ⟨[], .inl rfl, .plain rfl⟩
  | lockAcquire l => exact absurd rfl (not l)
  | lockAcquireLoop l => exact lockAcquireLoopRan ok
  | lockTryAcquire l =>
    simp only [runFrame, lockTryAcquire] at ok
    split at ok <;> try contradiction
    split at ok <;> cases ok
    · exact ⟨_, rfl, .tries⟩
    · exact ⟨[], rfl, .plain rfl⟩
  | lockRelease l =>
    obtain ⟨_, rfl⟩ := lockReleaseOk ok
    exact ⟨_, rfl, .releases⟩
  | condWait c l =>
    simp only [runFrame, condWait] at ok
    split at ok <;> try contradiction
    obtain ⟨k1, linked, last⟩ := bindOk.mp ok
    obtain ⟨free, rfl⟩ := linkOk linked
    cases last
    exact ⟨_, rfl, .links (by assumption) free⟩
  | condWaitBlock c => exact ⟨_, rfl, .blocks ok⟩
  | condSignal c l =>
    simp only [runFrame, condSignal] at ok
    split at ok <;> try contradiction
    split at ok <;> cases ok
    · exact ⟨[], .inl ⟨by assumption, rfl⟩, .plain rfl⟩
    · exact ⟨_, .inr ⟨by assumption, rfl⟩,
        .sorts (List.perm_insertionSort (fun a b => ¬ graterThreadPri k b a) _)⟩
  | condSignalPop c =>
    obtain ⟨t, others, front, rfl⟩ := condPopOk coh ok
    exact ⟨_, ⟨t, by simp [front], rfl⟩, .pops (.inl ⟨rfl, rfl⟩) front⟩
  | condBroadcast c flag =>
    simp only [runFrame, condBroadcast, Except.ok.injEq] at ok
    split at ok <;> [cases flag; skip] <;> subst ok
    · exact ⟨[], .inl ⟨by assumption, .inl rfl⟩, .plain rfl⟩
    · exact ⟨[.threadYield], .inl ⟨by assumption, .inr rfl⟩, .plain rfl⟩
    · exact ⟨_, .inr ⟨by assumption, rfl⟩, .plain rfl⟩
  | condBroadcastPop c flag =>
    obtain ⟨t, others, front, rfl⟩ := condPopOk coh ok
    exact ⟨_, ⟨t, by simp [front], rfl⟩, .pops (.inr ⟨flag, rfl, rfl⟩) front⟩
  | condBroadcastTail c flag t => cases ok; exact ⟨_, ⟨_, rfl⟩, .plain rfl⟩
  | timerSleep n =>
    cases ok
    exact ⟨_, rfl, .tunes (.inr ⟨n, rfl⟩) ⟨fun _ => rfl, fun _ => rfl, fun _ => rfl, fun _ => rfl⟩⟩
  | timerSleepBlock => exact ⟨_, rfl, .sleeps .timer (absurd rfl) ok⟩

end Ran
end Pintos.Threads
