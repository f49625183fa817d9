import Pintos.Threads.Donation
import Pintos.Threads.Sections

/-! Every action of the machine keeps the lists coherent. A frame changes fields
the lists do not depend on, moves one thread, and leaves a new top of the stack;
each of the three has its own lemma, and a frame's proof puts them together. -/
namespace Pintos.Threads
open Machine

attribute [local simp] Function.update_apply

section Similar
variable (k : Kernel)

theorem similarThread {t f} (status : (f (k.thread t)).status = (k.thread t).status)
    (elem : (f (k.thread t)).elem = (k.thread t).elem)
    (queue : (f (k.thread t)).queue = (k.thread t).queue)
    (stack : (f (k.thread t)).stack = (k.thread t).stack) : Similar k (k.setThread t f) where
  status u := by by_cases h : u = t <;> simp [h, status]
  elem u := by by_cases h : u = t <;> simp [h, elem]
  queue u := by by_cases h : u = t <;> simp [h, queue]
  stack u := by by_cases h : u = t <;> simp [h, stack]
  list _ := List.Perm.refl _
  current := rfl
  idleThread := rfl
  created := rfl

theorem similarLock (l f) : Similar k (k.setLock l f) := by
  constructor <;> intros <;> rfl

theorem similarValue (s v) : Similar k (k.setValue s v) := by
  constructor <;> intros <;> rfl

theorem similarList {q xs} (perm : xs.Perm (k.list q)) : Similar k (k.setList q xs) where
  status _ := rfl
  elem _ := rfl
  queue _ := rfl
  stack _ := rfl
  list r := by
    by_cases h : r = q
    · subst r; simpa using perm
    · simp [h]
  current := rfl
  idleThread := rfl
  created := rfl

end Similar

theorem coherentSimilar {k k'} (coh : Coherent k) (same : Similar k k')
    (holds : ∀ l, (k'.lock l).holder ≠ some k.idleThread) : Coherent k' := by
  refine ⟨?_, stacksSimilar coh.owed same holds⟩
  rw [same.current]
  exact linksSimilar coh.links same

theorem similarTop {k k' st} (same : Similar k k') (top : k.cur.stack = st) :
    k'.cur.stack = st := by
  simp only [Kernel.cur, same.current, same.stack]
  exact top

theorem currentBusy {k f rest} (coh : Coherent k) (top : k.cur.stack = f :: rest)
    (not : f ≠ .idle) : k.current ≠ k.idleThread := by
  intro idle
  have only := (coh.owed.pending k.current).idleStack idle
  simp only [Kernel.cur] at top
  rw [top] at only
  exact not (List.cons.inj only).1

theorem guardedAppend {new rest} (nested : ∀ g ∈ new, g.nested = true) (guarded : Guarded rest) :
    Guarded (new ++ rest) := by
  induction new with
  | nil => exact guarded
  | cons g gs ih =>
    refine ⟨?_, ih (fun x hx => nested x (List.mem_cons_of_mem _ hx))⟩
    intro not
    simp [nested g (List.mem_cons_self ..)] at not

theorem guardedFree {st} (free : ∀ g ∈ st, g.owes = false) : Guarded st := by
  induction st with
  | nil => trivial
  | cons g gs ih =>
    have rest : ∀ x ∈ gs, x.owes = false := fun x hx => free x (List.mem_cons_of_mem _ hx)
    exact ⟨fun _ => rest, ih rest⟩

theorem guardedReplace {f new rest} (guarded : Guarded (f :: rest))
    (quiet : ∀ g ∈ new, g.owes = false)
    (nested : f.nested = true → ∀ g ∈ new, g.nested = true) : Guarded (new ++ rest) := by
  cases inner : f.nested with
  | true => exact guardedAppend (nested inner) guarded.2
  | false =>
    refine guardedFree ?_
    intro g hg
    rcases List.mem_append.mp hg with h | h
    · exact quiet g h
    · exact guarded.1 inner g h

structure Unclaimed (k : Kernel) (n : Tid) : Prop where
  busy : n ≠ k.idleThread
  old : n < k.created
  blocked : (k.thread n).status = .blocked
  free : (k.thread n).elem = none
  nobody : ¬ Owed k n

theorem coherentStack {k st} (coh : Coherent k) (busy : k.current ≠ k.idleThread)
    (cond : ∀ c, .condWaitBlock c ∈ st ↔ .condWaitBlock c ∈ k.cur.stack)
    (idle : .idle ∉ st) (guarded : Guarded st)
    (target : ∀ n, .threadUnblock n ∈ st → .threadUnblock n ∈ k.cur.stack ∨ Unclaimed k n) :
    Coherent (k.setStack st) := by
  have old := runningOld coh.links rfl
  have pending := coh.owed.pending k.current
  have at_t : (k.setStack st).thread k.current = {k.cur with stack := st} := by simp
  have same : ∀ u, u ≠ k.current → (k.setStack st).thread u = k.thread u := by
    intro u ne; simp [ne]
  have status : ∀ u, ((k.setStack st).thread u).status = (k.thread u).status := by
    intro u; by_cases h : u = k.current <;> simp [h]
  have elem : ∀ u, ((k.setStack st).thread u).elem = (k.thread u).elem := by
    intro u; by_cases h : u = k.current <;> simp [h]
  -- a target of the new stacks was one before, or is a new one of the running thread
  have targets : ∀ u n, .threadUnblock n ∈ ((k.setStack st).thread u).stack →
      .threadUnblock n ∈ (k.thread u).stack ∨ u = k.current ∧ Unclaimed k n := by
    intro u n hn
    by_cases h : u = k.current
    · subst u
      rw [at_t] at hn
      rcases target n hn with before | fresh
      · exact .inl before
      · exact .inr ⟨rfl, fresh⟩
    · rw [same u h] at hn
      exact .inl hn
  constructor
  · refine linksAt coh.links (t := k.current) same rfl rfl old
      (fun _ _ => Iff.rfl) (fun _ _ => Iff.rfl) ?_ coh.links.nodup ?_
    · intro u q
      rw [elem]
      exact coh.links.mem u q
    · rw [at_t]
      obtain ⟨running, ready, readyLinked, waiting, queue, runElem, idleElem⟩ :=
        coh.links.placed k.current
      constructor <;> assumption
  · refine ⟨?_, coh.owed.idleHolds, ?_, ?_⟩
    · intro u
      by_cases h : u = k.current
      · subst u
        rw [at_t]
        refine ⟨?_, ?_, fun h => absurd h busy, fun h => absurd h idle, guarded, ?_, ?_⟩
        · intro c hc
          exact pending.condBlock c ((cond c).mp hc)
        · intro c runs linked
          exact (cond c).mpr (pending.condElem c runs linked)
        · intro n hn
          rcases target n hn with before | fresh
          · exact pending.target n before
          · exact ⟨fresh.busy, fresh.old⟩
        · intro fresh
          exact absurd old (Nat.not_lt.mpr fresh)
      · rw [same u h]
        exact coh.owed.pending u
    · intro u n hn
      rw [status, elem]
      rcases targets u n hn with before | ⟨_, fresh⟩
      · exact coh.owed.owing u n before
      · exact ⟨fresh.blocked, fresh.free⟩
    · intro u v n hu hv
      rcases targets u n hu with before | ⟨rfl, fresh⟩
      · rcases targets v n hv with before' | ⟨rfl, fresh⟩
        · exact coh.owed.single u v n before before'
        · exact absurd ⟨u, before⟩ fresh.nobody
      · rcases targets v n hv with before' | ⟨rfl, _⟩
        · exact absurd ⟨v, before'⟩ fresh.nobody
        · rfl

theorem coherentReplace {k f rest} (new : List Frame) (coh : Coherent k)
    (top : k.cur.stack = f :: rest) (not : f ≠ .idle) (quiet : f.owes = false)
    (free : ∀ g ∈ new, g.owes = false ∧ g ≠ .idle)
    (nested : f.nested = true → ∀ g ∈ new, g.nested = true) :
    Coherent (k.setStack (new ++ rest)) := by
  have pending := coh.owed.pending k.current
  have busy := currentBusy coh top not
  have mem : ∀ g, g.owes = true → (g ∈ new ++ rest ↔ g ∈ k.cur.stack) := by
    intro g owes
    have apart : g ∉ new := fun h => by simp [(free g h).1] at owes
    have other : g ≠ f := by rintro rfl; simp [quiet] at owes
    rw [top]
    simp [apart, other]
  refine coherentStack coh busy (fun c => mem _ rfl) ?_ ?_ ?_
  · intro h
    rcases List.mem_append.mp h with h | h
    · exact (free _ h).2 rfl
    · refine busy (pending.idleFrame ?_)
      simp only [Kernel.cur] at top
      simp [top, h]
  · have guarded := pending.guarded
    simp only [Kernel.cur] at top
    rw [top] at guarded
    exact guardedReplace guarded (fun g hg => (free g hg).1) nested
  · intro n hn
    exact .inl ((mem _ rfl).mp hn)

theorem coherentPop {k f rest} (coh : Coherent k) (top : k.cur.stack = f :: rest)
    (not : f ≠ .idle) (quiet : f.owes = false) : Coherent (k.setStack rest) :=
  coherentReplace [] coh top not quiet (by simp) (by simp)

/- A section runs under its own frame, the loop of lock_acquire under lock_acquire as well. -/
def Stands (g f : Frame) : Prop := g = f ∨ ∃ l, g = .lockAcquire l ∧ f = .lockAcquireLoop l

theorem standsSame {g f} (stands : Stands g f) (not : ∀ l, f ≠ .lockAcquireLoop l) : g = f :=
  stands.resolve_right fun ⟨l, _, loop⟩ => not l loop

def Frame.light : Frame → Bool
  | .threadUnblock _ | .threadCreate _ | .idle | .condWait _ _ | .condWaitBlock _ => false
  | .condSignalPop _ | .condBroadcastPop _ _ => false
  | _ => true

def Frame.aside : Frame → Bool
  | .lockAcquire _ | .lockAcquireLoop _ | .lockRelease _ | .lockTryAcquire _ => false
  | .threadSetPriority _ | .threadCreate _ | .timerSleep _ | .semaUp (.lock _) => false
  | _ => true

section
attribute [local simp] Frame.owes Frame.nested Frame.inner Frame.aside

theorem nextLight {k new f} (light : f.light = true) (next : Next k new f) :
    f ≠ .idle ∧ f.owes = false ∧ ∀ g ∈ new, g.owes = false ∧ g ≠ .idle ∧
      (f.nested = true → g.nested = true) ∧ (f.aside = true → g.inner = false) := by
  cases f with
  | threadSetPriority _ | threadCreateTail _ | semaUpTail _ | semaDown _ | semaDownLoop _
  | lockAcquire _ | lockAcquireLoop _ => rcases next with rfl | rfl <;> simp
  | threadYield | semaTryDown _ | lockTryAcquire _ | timerSleepBlock | lockRelease _
  | timerSleep _ => cases next; simp
  | semaUp _ => rcases next with rfl | ⟨_, rfl⟩ <;> simp
  | condSignal _ _ => rcases next with ⟨_, rfl⟩ | ⟨_, rfl⟩ <;> simp
  | condBroadcast _ _ => rcases next with ⟨_, rfl | rfl⟩ | ⟨_, rfl⟩ <;> simp
  | condBroadcastTail _ _ _ => obtain ⟨_, rfl⟩ := next; simp
  | _ => cases light

end

theorem standsBusy {k g f rest} (coh : Coherent k) (top : k.cur.stack = g :: rest)
    (stands : Stands g f) (light : f.light = true) : k.current ≠ k.idleThread := by
  refine currentBusy coh top ?_
  rcases stands with rfl | ⟨_, rfl, _⟩
  · rintro rfl
    cases light
  · simp

theorem coherentNext {k j g f new rest} (coh : Coherent k) (top : k.cur.stack = g :: rest)
    (stands : Stands g f) (light : f.light = true) (next : Next j new f) :
    Coherent (k.setStack (new ++ rest)) := by
  obtain ⟨not, quiet, free⟩ := nextLight light next
  have before : g ≠ .idle ∧ g.owes = false ∧ g.nested = f.nested := by
    rcases stands with rfl | ⟨l, rfl, rfl⟩
    · exact ⟨not, quiet, rfl⟩
    · exact ⟨by simp, rfl, rfl⟩
  refine coherentReplace new coh top before.1 before.2.1 (fun h inside => ?_) ?_
  · exact ⟨(free h inside).1, (free h inside).2.1⟩
  · rw [before.2.2]
    exact fun nested h inside => (free h inside).2.2.1 nested

theorem coherentThread {k t f} (coh : Coherent k)
    (status : (f (k.thread t)).status = (k.thread t).status)
    (elem : (f (k.thread t)).elem = (k.thread t).elem)
    (queue : (f (k.thread t)).queue = (k.thread t).queue)
    (stack : (f (k.thread t)).stack = (k.thread t).stack) : Coherent (k.setThread t f) :=
  coherentSimilar coh (similarThread k status elem queue stack) coh.owed.idleHolds

theorem coherentValue {k} (s v) (coh : Coherent k) : Coherent (k.setValue s v) :=
  coherentSimilar coh (similarValue k s v) coh.owed.idleHolds

theorem coherentLock {k l f} (coh : Coherent k)
    (holds : (f (k.lock l)).holder ≠ some k.idleThread) : Coherent (k.setLock l f) := by
  refine coherentSimilar coh (similarLock k l f) ?_
  intro m
  by_cases h : m = l
  · subst m; simpa using holds
  · simpa [h] using coh.owed.idleHolds m

theorem wokenCoherent {k q t} (coh : Coherent k) (other : t ≠ k.current)
    (linked : (k.thread t).elem = some q) :
    Coherent (woken k q t) ∧ (woken k q t).cur.stack = k.cur.stack := by
  have stopped : (k.thread t).status ≠ .running := by
    intro runs
    exact other (Option.some.inj ((coh.links.placed t).running.mp runs)).symm
  have nobody : ¬ Owed (unpark k q t) t := by
    rintro ⟨u, h⟩
    refine notOwedLinked coh.owed linked ⟨u, ?_⟩
    by_cases hu : u = t <;> simp_all [unpark]
  have free : ((unpark k q t).thread t).elem = none := by simp [unpark]
  have links := linksUnpark coh.links linked (by simpa using other.symm)
  have busy := linkedBusy coh.links linked
  have old := linkedOld coh.links linked
  refine ⟨⟨?_, stacksPark (stacksUnpark coh.owed stopped linked) free (by simp) nobody⟩, ?_⟩
  · exact linksPark links (.inr ⟨by simpa [unpark] using other.symm, rfl⟩) (.inr rfl) free
      (readyInsertPerm _ t) busy old (.inl ⟨rfl, rfl⟩)
  · simp [woken, park, unpark, other.symm]

theorem coherentWake {k t k1 k'} (coh : Coherent k) (other : t ≠ k.current)
    (rem : listRemove k t = .ok k1) (ok : threadUnblock k1 t = .ok k') :
    Coherent k' ∧ k'.current = k.current ∧ k'.cur.stack = k.cur.stack := by
  obtain ⟨q, linked, _, rfl⟩ := wakeOk rem ok
  obtain ⟨woke, stack⟩ := wokenCoherent coh other linked
  exact ⟨woke, rfl, stack⟩

theorem takeLockCoherent {k l} (coh : Coherent k) (busy : k.current ≠ k.idleThread) :
    Coherent (takeLock k l) := by
  unfold takeLock
  refine coherentThread (coherentLock (coherentValue _ _ coh) ?_) rfl rfl rfl rfl
  simpa using busy

theorem releasedCoherent {k l} (coh : Coherent k) : Coherent (released k l) := by
  unfold released
  refine coherentThread (coherentLock coh ?_) rfl rfl rfl rfl
  simp

theorem announceCoherent {k l} (coh : Coherent k) : Coherent (announce k l) := by
  unfold announce
  refine coherentThread (coherentLock coh ?_) rfl rfl rfl rfl
  exact coh.owed.idleHolds l

theorem donateIfHeldDonated {k l k'} (coh : Coherent k) (ok : donateIfHeld k l = .ok k') :
    Donated k.cur.ePri k k' := by
  unfold donateIfHeld at ok
  split at ok
  · exact donateDonated coh.links coh.owed.idleHolds ok
  · cases ok
    exact donatedRefl _ _

theorem coherentDonated {p k k'} (coh : Coherent k) (donated : Donated p k k') : Coherent k' := by
  refine coherentSimilar coh donated.similar ?_
  intro l
  rw [donated.holder]
  exact coh.owed.idleHolds l

theorem restQuiet {k f rest} (coh : Coherent k) (top : k.cur.stack = f :: rest)
    (outer : f.nested = false) : ∀ g ∈ rest, g.owes = false := by
  have guarded := (coh.owed.pending k.current).guarded
  simp only [Kernel.cur] at top
  rw [top] at guarded
  exact guarded.1 outer

theorem restIdle {k f rest} (coh : Coherent k) (top : k.cur.stack = f :: rest)
    (not : f ≠ .idle) : .idle ∉ rest := by
  intro h
  refine currentBusy coh top not ((coh.owed.pending k.current).idleFrame ?_)
  simp only [Kernel.cur] at top
  simp [top, h]

theorem quietNever {rest : List Frame} (quiet : ∀ g ∈ rest, g.owes = false) :
    (∀ d, .condWaitBlock d ∉ rest) ∧ ∀ n, .threadUnblock n ∉ rest :=
  ⟨fun _ mem => by simpa [Frame.owes] using quiet _ mem,
    fun _ mem => by simpa [Frame.owes] using quiet _ mem⟩

theorem condWaitCoherent {k c l rest} (coh : Coherent k)
    (top : k.cur.stack = .condWait c l :: rest) (free : k.cur.elem = none) :
    Coherent (((k.setList (.condWaiters c) ((k.list (.condWaiters c)).orderedInsert
      (graterThreadPri k) k.current)).setThread k.current (fun th =>
        {th with elem := some (.condWaiters c)})).setStack
      (.lockRelease l :: .condWaitBlock c :: .lockAcquire l :: rest)) := by
  have busy := currentBusy coh top (by simp)
  have quiet := restQuiet coh top rfl
  have clean := restIdle coh top (by simp)
  have old := runningOld coh.links rfl
  have placed := coh.links.placed k.current
  have perm := List.perm_orderedInsert (graterThreadPri k) k.current (k.list (.condWaiters c))
  have out : k.current ∉ k.list (.condWaiters c) := fun h => by
    simp [(coh.links.mem _ _).mp h] at free
  have running := placed.running.mpr rfl
  constructor
  · refine linksAt coh.links (t := k.current) (by intro u ne; simp [ne]) rfl rfl old
      (fun _ _ => Iff.rfl) (fun _ _ => Iff.rfl) ?_ ?_ ?_
    · intro u r
      have := coh.links.mem u r
      by_cases hu : u = k.current <;> by_cases hr : r = .condWaiters c <;>
        simp_all [perm.mem_iff]
      grind
    · intro r
      by_cases hr : r = .condWaiters c
      · simpa [hr, perm.nodup_iff, out] using coh.links.nodup (.condWaiters c)
      · simpa [hr] using coh.links.nodup r
    · constructor <;> simp [running, busy]
  · obtain ⟨noBlock, noTarget⟩ := quietNever quiet
    refine stacksAt coh.owed (t := k.current) (by intro u ne; simp [ne]) rfl rfl rfl
      (by simp [noTarget]) (fun h => absurd h (runningNotOwed coh)) ?_
    constructor
    · intro d hd
      simpa [running, noBlock, eq_comm] using hd
    · intro d _ hd
      simpa [noBlock, eq_comm] using hd
    · exact fun idle => absurd idle busy
    · simp [clean]
    · simp only [Kernel.setStack, Kernel.setThread, Kernel.setList, Function.update_self]
      refine ⟨by simp [Frame.nested], ?_, by simp [Frame.nested], guardedFree quiet⟩
      intro _ g hg
      rcases List.mem_cons.mp hg with rfl | h
      · rfl
      · exact quiet g h
    · intro n hn
      simp [noTarget] at hn
    · exact fun fresh => absurd old (Nat.not_lt.mpr fresh)

theorem condWaitBlockLinks {k c rest} (coh : Coherent k) (busy : k.current ≠ k.idleThread)
    (linked : (k.thread k.current).elem = some (.condWaiters c)) :
    Links ((k.setThread k.current (fun th =>
      {th with queue := some (.condWaiters c), stack := rest})).setThread k.current
      (fun th => {th with status := .blocked})) none none := by
  refine linksAt coh.links (t := k.current) (by intro u ne; simp [ne]) rfl rfl
    (runningOld coh.links rfl) (by intro u ne; simp [Ne.symm ne]) (fun _ _ => Iff.rfl) ?_
    coh.links.nodup ?_
  · intro u q
    have := coh.links.mem u q
    by_cases hu : u = k.current <;> simp_all
  · constructor <;> simp [linked, busy]

theorem condWaitBlockCoherent {k c rest k'} (coh : Coherent k)
    (top : k.cur.stack = .condWaitBlock c :: rest) (ok : condWaitBlock k c rest = .ok k') :
    Coherent k' := by
  have busy := currentBusy coh top (by simp)
  have quiet := restQuiet coh top rfl
  have clean := restIdle coh top (by simp)
  have old := runningOld coh.links rfl
  have pending := coh.owed.pending k.current
  have linked : (k.thread k.current).elem = some (.condWaiters c) := by
    refine (pending.condBlock c ?_).2
    simp only [Kernel.cur] at top
    simp [top]
  unfold condWaitBlock threadBlock at ok
  refine coherentSchedule (condWaitBlockLinks coh busy linked) ?_ ok
  · obtain ⟨noBlock, noTarget⟩ := quietNever quiet
    refine stacksAt coh.owed (t := k.current) (by intro u ne; simp [ne]) rfl rfl rfl
      (by simp [noTarget]) (fun h => absurd h (runningNotOwed coh)) ?_
    constructor <;> simp [noBlock, noTarget, busy, clean, guardedFree quiet, old]

theorem poppedCoherent {k c t} (coh : Coherent k) (other : t ≠ k.current)
    (linked : (k.thread t).elem = some (.condWaiters c)) : Coherent (popped k c t) := by
  have blocked := (coh.links.placed t).waiting _ (by simpa using other.symm) linked (by simp)
  have old := linkedOld coh.links linked
  have links := linksUnpark coh.links linked (by simpa using other.symm)
  have owed := stacksUnpark (q := .condWaiters c) coh.owed (t := t) (by simp [blocked]) linked
  constructor
  · refine linksAt links (t := t) (by intro u ne; simp [popped, ne]) rfl rfl old
      (fun _ _ => Iff.rfl) (by intro u ne; simp [Ne.symm ne]) ?_ links.nodup ?_
    · intro u q
      have := links.mem u q
      by_cases hu : u = t <;> simp_all [popped]
    · constructor <;> simp [popped, unpark, blocked, other.symm]
  · refine stacksAt owed (t := t) (by intro u ne; simp [popped, ne]) rfl rfl rfl (by simp [popped])
      (fun h => by simp [popped, unpark, blocked]) ?_
    obtain ⟨condBlock, condElem, idleStack, idleFrame, guarded, target, fresh⟩ := owed.pending t
    constructor <;> simp only [popped, Kernel.setThread, Function.update_self] <;> assumption

theorem poppedUnclaimed {k c t} (coh : Coherent k) (other : t ≠ k.current)
    (linked : (k.thread t).elem = some (.condWaiters c)) : Unclaimed (popped k c t) t where
  busy := by
    have := linkedBusy coh.links linked
    exact this
  old := by
    have := linkedOld coh.links linked
    exact this
  blocked := by
    have := (coh.links.placed t).waiting _ (by simpa using other.symm) linked (by simp)
    simpa [popped, unpark] using this
  free := by simp [popped, unpark]
  nobody := by
    rintro ⟨u, h⟩
    refine notOwedLinked coh.owed linked ⟨u, ?_⟩
    by_cases hu : u = t <;> simp_all [popped, unpark]

theorem signallerFree {k f rest t c} (coh : Coherent k) (top : k.cur.stack = f :: rest)
    (quiet : f.owes = false) (outer : f.nested = false)
    (inside : t ∈ k.list (.condWaiters c)) : t ≠ k.current := by
  rintro rfl
  have linked := (coh.links.mem _ _).mp inside
  have owed := (coh.owed.pending _).condElem c ((coh.links.placed _).running.mpr rfl) linked
  simp only [Kernel.cur] at top
  rw [top] at owed
  rcases List.mem_cons.mp owed with rfl | h
  · simp [Frame.owes] at quiet
  · simpa [Frame.owes] using restQuiet coh top outer _ h

theorem condPopCoherent {k c f g t rest} (coh : Coherent k)
    (top : k.cur.stack = f :: rest) (not : f ≠ .idle) (quiet : f.owes = false)
    (outer : f.nested = false) (free : g.owes = false ∧ g ≠ .idle)
    (inside : t ∈ k.list (.condWaiters c)) :
    Coherent ((popped k c t).setStack (.threadUnblock t :: g :: rest)) := by
  have other := signallerFree coh top quiet outer inside
  have linked := (coh.links.mem _ _).mp inside
  have below : ∀ x ∈ g :: rest, x.owes = false := by
    intro x hx
    rcases List.mem_cons.mp hx with rfl | h
    · exact free.1
    · exact restQuiet coh top outer x h
  have stack : (popped k c t).cur.stack = f :: rest := by
    simpa [popped, unpark, other.symm] using top
  have busy := currentBusy coh top not
  have unclaimed := poppedUnclaimed coh other linked
  refine coherentStack (poppedCoherent coh other linked) busy ?_ ?_ ?_ ?_
  · intro d
    rw [stack]
    refine iff_of_false ?_ ?_
    · intro h
      rcases List.mem_cons.mp h with h | h
      · simp at h
      · simpa [Frame.owes] using below _ h
    · intro h
      rcases List.mem_cons.mp h with rfl | h
      · simp [Frame.owes] at quiet
      · simpa [Frame.owes] using below _ (List.mem_cons_of_mem _ h)
  · simp [restIdle coh top not, free.2.symm]
  · exact ⟨fun _ => below, guardedFree below⟩
  · intro n hn
    rcases List.mem_cons.mp hn with h | h
    · cases h
      exact .inr unclaimed
    · simpa [Frame.owes] using below _ h

theorem owedOnce {k t rest} (coh : Coherent k) (top : k.cur.stack = .threadUnblock t :: rest) :
    ¬ Owed (k.setStack rest) t := by
  have top' : (k.thread k.current).stack = .threadUnblock t :: rest := top
  rintro ⟨u, h⟩
  by_cases hu : u = k.current
  · subst u
    have inside : .threadUnblock t ∈ rest := by simpa using h
    simpa [Frame.owes] using restQuiet coh top rfl _ inside
  · have inside : .threadUnblock t ∈ (k.thread u).stack := by simpa [hu] using h
    exact hu (coh.owed.single u k.current t inside (by simp [top']))

theorem threadUnblockCoherent {k t rest} (coh : Coherent k)
    (top : k.cur.stack = .threadUnblock t :: rest) (blocked : (k.thread t).status = .blocked)
    (free : (k.thread t).elem = none) :
    Coherent ((park k .readyList t (readyInsert k t) .ready).setStack rest) := by
  have busy := currentBusy coh top (by simp)
  have pending := coh.owed.pending k.current
  have top' : (k.thread k.current).stack = .threadUnblock t :: rest := top
  have target := pending.target t (by simp [top'])
  have guarded := pending.guarded
  rw [top'] at guarded
  have left : Coherent (k.setStack rest) := by
    refine coherentStack coh busy ?_ (restIdle coh top (by simp)) guarded.2 ?_
    · intro c
      rw [top]
      simp
    · intro n hn
      rw [top]
      exact .inl (List.mem_cons_of_mem _ hn)
  have other : k.current ≠ t := by
    rintro rfl
    simp [(coh.links.placed k.current).running.mpr rfl] at blocked
  have swap : (park k .readyList t (readyInsert k t) .ready).setStack rest =
      park (k.setStack rest) .readyList t (readyInsert k t) .ready := by
    simp [park, other, other.symm, Function.update_comm other]
  rw [swap]
  have stays : ((k.setStack rest).thread t).elem = none := by simpa [other.symm] using free
  refine ⟨linksPark left.links (.inr ⟨by simpa using other, rfl⟩) (.inl rfl) stays
    (readyInsertPerm k t) target.1 target.2 (.inl ⟨rfl, rfl⟩), ?_⟩
  exact stacksPark left.owed stays (by simp) (owedOnce coh top)

theorem coherentCreate {k p} (coh : Coherent k) : Coherent
    {k with created := k.created + 1, thread := Function.update k.thread k.created (initThread p)} := by
  have fresh := coh.links.fresh k.created (Nat.le_refl _)
  have idle : k.idleThread ≠ k.created := Nat.ne_of_lt coh.links.idleOld
  have current : k.current ≠ k.created := Nat.ne_of_lt (runningOld coh.links rfl)
  constructor
  · refine ⟨?_, coh.links.nodup, ?_, ?_, Nat.lt_succ_of_lt coh.links.idleOld⟩
    · intro u q
      have := coh.links.mem u q
      by_cases hu : u = k.created <;> simp_all [initThread]
    · intro u
      by_cases hu : u = k.created
      · subst u
        simp only [Function.update_self]
        constructor <;> simp [initThread, current, idle.symm]
      · simpa [hu] using coh.links.placed u
    · intro u hu
      have later := Nat.lt_of_succ_le hu
      simpa [Nat.ne_of_gt later] using coh.links.fresh u (Nat.le_of_lt later)
  · have before : ∀ u n, .threadUnblock n ∈
        (Function.update k.thread k.created (initThread p) u).stack →
        .threadUnblock n ∈ (k.thread u).stack := by
      intro u n hn
      by_cases hu : u = k.created <;> simp_all [initThread]
    refine ⟨?_, coh.owed.idleHolds, ?_,
      fun u v n hu hv => coh.owed.single u v n (before u n hu) (before v n hv)⟩
    rotate_left
    · intro u n hn
      have := coh.owed.owing u n (before u n hn)
      by_cases h : n = k.created <;> simp_all [initThread]
    intro u
    by_cases hu : u = k.created
    · subst u
      simp only [Function.update_self]
      constructor <;> simp [initThread, idle.symm, Guarded]
    · obtain ⟨condBlock, condElem, idleStack, idleFrame, guarded, target, later⟩ :=
        coh.owed.pending u
      simp only [Function.update_apply, hu, if_false]
      refine ⟨condBlock, condElem, idleStack, idleFrame, guarded, ?_, ?_⟩
      · intro n hn
        exact ⟨(target n hn).1, Nat.lt_succ_of_lt (target n hn).2⟩
      · exact fun h => later (Nat.le_of_succ_le h)

theorem threadCreateCoherent {k p rest} (coh : Coherent k)
    (top : k.cur.stack = .threadCreate p :: rest) : Coherent (threadCreate k p rest) := by
  have busy := currentBusy coh top (by simp)
  have quiet := restQuiet coh top rfl
  have idle : k.idleThread ≠ k.created := Nat.ne_of_lt coh.links.idleOld
  have current : k.current ≠ k.created := Nat.ne_of_lt (runningOld coh.links rfl)
  unfold threadCreate
  refine coherentStack (coherentCreate coh) busy ?_ ?_ ?_ ?_
  · intro c
    simp only [Kernel.cur, Function.update_apply, current, if_false] at top ⊢
    simp [top]
  · simp [restIdle coh top (by simp)]
  · have below : ∀ x ∈ .threadCreateTail p :: rest, x.owes = false := by
      intro x hx
      rcases List.mem_cons.mp hx with rfl | h
      · rfl
      · exact quiet x h
    exact ⟨by simp [Frame.nested], by simp [Frame.nested], fun _ => below, guardedFree below⟩
  · intro n hn
    have gone : .threadUnblock n ∉ rest := fun h => by simpa [Frame.owes] using quiet _ h
    simp only [List.mem_cons, reduceCtorEq, Frame.threadUnblock.injEq, gone, or_false,
      false_or] at hn
    subst n
    refine .inr ⟨idle.symm, Nat.lt_succ_self _, by simp [initThread], by simp [initThread], ?_⟩
    rintro ⟨u, h⟩
    by_cases hu : u = k.created
    · simp [hu, initThread] at h
    · have target := (coh.owed.pending u).target k.created (by simpa [hu] using h)
      exact Nat.lt_irrefl _ target.2

theorem wakeSleepersCons {k t ts k'} (coh : Coherent k) (nodup : (t :: ts).Nodup)
    (asleep : ∀ u ∈ t :: ts, (k.thread u).elem = some .timerSleepList)
    (ok : wakeSleepers k (t :: ts) = .ok k') :
    ((k.thread t).wakeUp ≤ k.ticks ∧ t ≠ k.current ∧ Coherent (woken k .timerSleepList t) ∧
      ts.Nodup ∧ (∀ u ∈ ts, ((woken k .timerSleepList t).thread u).elem = some .timerSleepList) ∧
      wakeSleepers (woken k .timerSleepList t) ts = .ok k') ∨
    (¬ (k.thread t).wakeUp ≤ k.ticks ∧ k = k') := by
  obtain ⟨fresh, nodup⟩ := List.nodup_cons.mp nodup
  have here := asleep t List.mem_cons_self
  unfold wakeSleepers at ok
  split at ok
  · rename_i due
    obtain ⟨k1, rem, more⟩ := bindOk.mp ok
    obtain ⟨k2, unblocked, last⟩ := bindOk.mp more
    have other := waiterStopped coh ((coh.links.mem t _).mpr here) (by simp)
    have next := (coherentWake coh other rem unblocked).1
    obtain ⟨q, linked, _, rfl⟩ := wakeOk rem unblocked
    cases Option.some.inj (linked.symm.trans here)
    refine .inl ⟨due, other, next, nodup, ?_, last⟩
    intro u hu
    have apart : u ≠ t := by rintro rfl; exact fresh hu
    simpa [woken, park, unpark, apart] using asleep u (List.mem_cons_of_mem _ hu)
  · rename_i later
    exact .inr ⟨later, Except.ok.inj ok⟩

theorem wakeRule (inv : Kernel → Prop)
    (wake : ∀ k t, Coherent k → inv k → (k.thread t).elem = some .timerSleepList →
      (k.thread t).wakeUp ≤ k.ticks → inv (woken k .timerSleepList t))
    {k ts k'} (coh : Coherent k) (first : inv k) (nodup : ts.Nodup)
    (asleep : ∀ u ∈ ts, (k.thread u).elem = some .timerSleepList)
    (ok : wakeSleepers k ts = .ok k') : Coherent k' ∧ inv k' := by
  induction ts generalizing k with
  | nil => cases ok; exact ⟨coh, first⟩
  | cons t ts ih =>
    rcases wakeSleepersCons coh nodup asleep ok with
      ⟨due, _, next, nodup, rest, last⟩ | ⟨_, rfl⟩
    · exact ih next (wake k t coh first (asleep t List.mem_cons_self) due) nodup rest last
    · exact ⟨coh, first⟩

theorem coherentTicks {k} (n m) (coh : Coherent k) :
    Coherent {k with ticks := n, threadTicks := m} := by
  refine coherentSimilar coh ?_ coh.owed.idleHolds
  constructor <;> intros <;> rfl

theorem sleepersAsleep {k} (coh : Coherent k) :
    ∀ u ∈ k.list .timerSleepList, (k.thread u).elem = some .timerSleepList :=
  fun u hu => (coh.links.mem u _).mp hu

theorem timerInterruptOk {k k'} (ok : timerInterrupt k = .ok k') :
    ∃ k1, wakeSleepers {k with ticks := k.ticks + 1} (k.list .timerSleepList) = .ok k1 ∧
    (timeSlice ≤ k1.threadTicks + 1 ∧
        threadYield {k1 with threadTicks := k1.threadTicks + 1} = .ok k' ∨
      k1.threadTicks + 1 < timeSlice ∧ k' = {k1 with threadTicks := k1.threadTicks + 1}) := by
  unfold timerInterrupt at ok
  obtain ⟨k1, awake, last⟩ := bindOk.mp ok
  refine ⟨k1, awake, ?_⟩
  simp only at last
  split at last
  · exact .inl ⟨by assumption, last⟩
  · exact .inr ⟨by omega, (Except.ok.inj last).symm⟩

theorem timerInterruptCoherent {k k'} (coh : Coherent k) (ok : timerInterrupt k = .ok k') :
    Coherent k' := by
  obtain ⟨k1, awake, ends⟩ := timerInterruptOk ok
  have ticked := coherentTicks (k.ticks + 1) k.threadTicks coh
  obtain ⟨woke, _⟩ := wakeRule (fun _ => True) (fun _ _ _ _ _ _ => trivial) ticked trivial
    (ticked.links.nodup _) (sleepersAsleep ticked) awake
  have counted := coherentTicks k1.ticks (k1.threadTicks + 1) woke
  rcases ends with ⟨_, yields⟩ | ⟨_, rfl⟩
  · exact coherentYield counted yields
  · exact counted

theorem ranCoherent {k f g new rest k'} (coh : Coherent k) (top : k.cur.stack = g :: rest)
    (stands : Stands g f) (next : Next k new f) (ran : Ran k rest f new k') : Coherent k' := by
  cases ran with
  | plain kind => exact coherentNext coh top stands (by cases f <;> first | rfl | cases kind) next
  | tunes kind keeps =>
    refine coherentNext (coherentThread coh (keeps.status _) (keeps.elem _) (keeps.queue _)
      (keeps.stack _)) (by simpa [keeps.stack] using top) stands ?_ next
    rcases kind with ⟨_, rfl⟩ | ⟨_, rfl⟩ <;> rfl
  | yields ok => exact coherentYield (coherentNext coh top stands rfl next) ok
  | readies blocked free =>
    cases standsSame stands (by simp)
    exact threadUnblockCoherent coh top blocked free
  | creates =>
    cases standsSame stands (by simp)
    exact threadCreateCoherent coh top
  | idles ok =>
    cases standsSame stands (by simp)
    refine coherentIdleStops coh ((coh.owed.pending _).idleFrame ?_) (by simp) ok
    simp only [Kernel.cur] at top
    simp [top]
  | @sleeps _ q _ _ _ _ kind _ ok =>
    have light : f.light = true := by cases kind <;> rfl
    have wait : q ≠ .readyList := by cases kind <;> simp
    have busy := standsBusy coh top stands light
    exact coherentSleep (coherentNext coh top stands light next) busy wait ok
  | counts kind =>
    exact coherentNext (coherentValue _ _ coh) top stands
      (by cases f <;> first | rfl | cases kind) next
  | wakes front other linked =>
    obtain ⟨woke, stack⟩ := wokenCoherent coh other linked
    exact coherentNext (coherentValue _ _ woke) (stack.trans top) stands rfl next
  | takes =>
    have busy := standsBusy coh top stands rfl
    exact coherentNext (coherentThread (takeLockCoherent coh busy) rfl rfl rfl rfl)
      (by simpa [takeLock] using top) stands rfl next
  | tries =>
    have busy := standsBusy coh top stands rfl
    exact coherentNext (coherentLock (takeLockCoherent coh busy) (by simpa [takeLock] using busy))
      (by simpa [takeLock] using top) stands rfl next
  | releases =>
    exact coherentNext (releasedCoherent coh) (by simpa [released] using top) stands rfl next
  | links _ free =>
    cases standsSame stands (by simp)
    exact condWaitCoherent coh top free
  | blocks ok =>
    cases standsSame stands (by simp)
    exact condWaitBlockCoherent coh top ok
  | sorts perm =>
    exact coherentNext (coherentSimilar coh (similarList k perm) coh.owed.idleHolds) top stands rfl
      next
  | pops kind front =>
    rcases kind with ⟨rfl, rfl⟩ | ⟨_, rfl, rfl⟩ <;>
      exact condPopCoherent coh top (by rcases stands with rfl | ⟨_, rfl, _⟩ <;> simp)
        (by rcases stands with rfl | ⟨_, rfl, _⟩ <;> rfl) (by
          cases standsSame stands (by simp); rfl) (by simp [Frame.owes]) (by simp [front])

theorem lockAcquireRan {k l rest k'} (coh : Coherent k)
    (top : k.cur.stack = .lockAcquire l :: rest) (ok : lockAcquire k l rest = .ok k') :
    (k.lock l).holder ≠ some k.current ∧ ∃ k1, donateIfHeld (announce k l) l = .ok k1 ∧
      Donated (announce k l).cur.ePri (announce k l) k1 ∧ Coherent k1 ∧
      k1.cur.stack = .lockAcquire l :: rest ∧ k1.current = k.current ∧
      lockAcquireLoop k1 l rest = .ok k' := by
  unfold lockAcquire at ok
  split at ok <;> try contradiction
  obtain ⟨k1, walked, last⟩ := bindOk.mp ok
  have donated := donateIfHeldDonated (announceCoherent coh) walked
  exact ⟨by assumption, k1, walked, donated, coherentDonated (announceCoherent coh) donated,
    similarTop donated.similar (by simpa [announce] using top), donated.similar.current, last⟩

theorem runFrameCoherent {k f rest k'} (coh : Coherent k) (top : k.cur.stack = f :: rest)
    (ok : runFrame k f rest = .ok k') : Coherent k' := by
  by_cases acquires : ∃ l, f = .lockAcquire l
  · obtain ⟨l, rfl⟩ := acquires
    obtain ⟨_, k1, _, _, coh1, top1, _, last⟩ := lockAcquireRan coh top ok
    obtain ⟨new, next, ran⟩ := lockAcquireLoopRan last
    exact ranCoherent coh1 top1 (.inr ⟨l, rfl, rfl⟩) next ran
  · obtain ⟨new, next, ran⟩ := runFrameRan coh (fun l same => acquires ⟨l, same⟩) ok
    exact ranCoherent coh top (.inl rfl) next ran

theorem opFrame (op : Op) : op.frame ≠ .idle ∧ op.frame.owes = false := by
  cases op <;> simp [Op.frame, Frame.owes]

theorem coherentCall {k} (op : Op) (coh : Coherent k) (empty : k.cur.stack = []) :
    Coherent (k.setStack [op.frame]) := by
  obtain ⟨not, quiet⟩ := opFrame op
  have busy : k.current ≠ k.idleThread := by
    intro idle
    have only := (coh.owed.pending k.current).idleStack idle
    simp only [Kernel.cur] at empty
    simp [empty] at only
  have apart : ∀ g : Frame, g.owes = true → g ∉ [op.frame] := by
    intro g owes h
    rw [List.mem_singleton.mp h, quiet] at owes
    contradiction
  refine coherentStack coh busy ?_ ?_ (guardedFree (by simp [quiet])) ?_
  · intro c
    rw [empty]
    exact iff_of_false (apart _ rfl) (by simp)
  · simp [not.symm]
  · intro n hn
    exact absurd hn (apart _ rfl)

theorem stepOk {k a k'} (ok : step k a = .ok k') :
    k' = k ∨ (∃ f rest, a = .run ∧ k.cur.stack = f :: rest ∧ runFrame k f rest = .ok k') ∨
    (∃ op, a = .call op ∧ k.cur.stack = [] ∧ k' = k.setStack [op.frame]) ∨
    (a = .tick ∧ intrOff k = false ∧ timerInterrupt k = .ok k') := by
  cases a with
  | run =>
    simp only [step, run] at ok
    split at ok
    · exact .inl (Except.ok.inj ok).symm
    · rename_i f rest top
      exact .inr (.inl ⟨f, rest, rfl, top, ok⟩)
  | call op =>
    simp only [step, Except.ok.injEq] at ok
    split at ok
    · exact .inr (.inr (.inl ⟨op, rfl, by assumption, ok.symm⟩))
    · exact .inl ok.symm
  | tick =>
    simp only [step] at ok
    split at ok
    · exact .inl (Except.ok.inj ok).symm
    · exact .inr (.inr (.inr ⟨rfl, by simp_all, ok⟩))

theorem stepCoherent {k a k'} (coh : Coherent k) (ok : step k a = .ok k') : Coherent k' := by
  rcases stepOk ok with rfl | ⟨f, rest, _, top, ran⟩ | ⟨op, _, empty, rfl⟩ | ⟨_, _, ticked⟩
  · exact coh
  · exact runFrameCoherent coh top ran
  · exact coherentCall op coh empty
  · exact timerInterruptCoherent coh ticked

theorem bootCoherent (policy values) : Coherent (boot policy values) := by
  constructor
  · refine ⟨?_, ?_, ?_, ?_, ?_⟩
    · intro t q
      by_cases h0 : t = 0 <;> by_cases h1 : t = 1 <;> simp [boot, h0, h1]
    · simp [boot]
    · intro t
      by_cases h0 : t = 0 <;> by_cases h1 : t = 1 <;>
        constructor <;> simp [boot, h0, h1, eq_comm]
    · intro t ht
      have h2 : 2 ≤ t := ht
      have h0 : t ≠ 0 := by omega
      have h1 : t ≠ 1 := by omega
      simp [boot, h0, h1]
    · simp [boot]
  · have none : ∀ t n, .threadUnblock n ∉ ((boot policy values).thread t).stack := by
      intro t n
      by_cases h0 : t = 0 <;> by_cases h1 : t = 1 <;> simp [boot, h0, h1]
    refine ⟨?_, by simp [boot], fun t n h => absurd h (none t n),
      fun t _ n h => absurd h (none t n)⟩
    intro t
    by_cases h0 : t = 0 <;> by_cases h1 : t = 1 <;>
      constructor <;> simp [boot, h0, h1, Guarded]

end Pintos.Threads
