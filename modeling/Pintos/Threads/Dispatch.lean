import Pintos.Threads.Bare
import Pintos.Threads.Faults
import Pintos.Threads.Frames
import Pintos.Threads.Ready

/-! Who is dispatched next. Under SCHED_PRIO the lists are sorted whenever interrupts are
on, so schedule and sema_up take the strongest thread. Under SCHED_FIFO ready_list is
meant to be a queue; only donate_pri_acquire, which sorts a ready donee in by priority
whatever the policy is, can change the order in which its threads stand. -/
namespace Pintos.Threads
open Machine Ordered

attribute [local simp] Function.update_apply

def Frame.switches (k : Kernel) : Frame → Bool
  | .threadYield | .idle | .condWaitBlock _ | .timerSleepBlock => true
  | .semaDown n | .semaDownLoop n => k.value (.plain n) = 0
  | .lockAcquire l | .lockAcquireLoop l => k.value (.lock l) = 0
  | _ => false

def switches (k : Kernel) : Action → Bool
  | .run =>
    match k.cur.stack with
    | [] => false
    | f :: _ => f.switches k
  | .call _ => false
  | .tick => !intrOff k && decide (timeSlice ≤ k.threadTicks + 1)

/- The threads that become ready: those thread_enqueue gets from thread_yield and
thread_unblock, in the order of the calls. -/
def yielder (k : Kernel) : List Tid := if k.current = k.idleThread then [] else [k.current]

def Frame.readies (k : Kernel) : Frame → List Tid
  | .threadYield => yielder k
  | .threadUnblock t => [t]
  | .semaUp s => (k.list (.semaWaiters s)).take 1
  | _ => []

def dueSleepers (k : Kernel) (now : Int) (ts : List Tid) : List Tid :=
  ts.takeWhile (fun t => decide ((k.thread t).wakeUp ≤ now))

def readies (k : Kernel) : Action → List Tid
  | .run =>
    match k.cur.stack with
    | [] => []
    | f :: _ => f.readies k
  | .call _ => []
  | .tick =>
    if intrOff k then []
    else dueSleepers k (k.ticks + 1) (k.list .timerSleepList) ++
      if timeSlice ≤ k.threadTicks + 1 then yielder k else []

def InPlace (k : Kernel) (t : Tid) : Prop :=
  t ∉ k.list .readyList ∨
    ((k.list .readyList).erase t).orderedInsert (graterThreadPri k) t = k.list .readyList

instance (k t) : Decidable (InPlace k t) := by unfold InPlace; exact instDecidableOr

def Unmoved (k : Kernel) : Action → Prop
  | .run => ∀ r ∈ nextRemovals k, InPlace r.1 r.2
  | _ => True

instance : ∀ k a, Decidable (Unmoved k a)
  | k, .run => inferInstanceAs (Decidable (∀ r ∈ nextRemovals k, InPlace r.1 r.2))
  | _, .call _ => instDecidableTrue
  | _, .tick => instDecidableTrue

structure Joins (new : List Tid) (k k' : Kernel) : Prop where
  policy : k'.policy = k.policy
  list : k'.list .readyList = k.list .readyList ++ new

section Joins
variable {k k' : Kernel} {t : Tid}

theorem joinsNone (policy : k'.policy = k.policy)
    (list : k'.list .readyList = k.list .readyList) : Joins [] k k' :=
  ⟨policy, list.trans (List.append_nil _).symm⟩

theorem joinsTrans {new more j} (first : Joins new k j) (second : Joins more j k') :
    Joins (new ++ more) k k' where
  policy := second.policy.trans first.policy
  list := by rw [second.list, first.list, List.append_assoc]

theorem joinsAfter {new j} (first : Joins new k j) (policy : k'.policy = j.policy)
    (list : k'.list .readyList = j.list .readyList) : Joins new k k' :=
  ⟨policy.trans first.policy, list.trans first.list⟩

theorem joinsReady (st) (fifo : k.policy = .fifo) :
    Joins [t] k (park k .readyList t (readyInsert k t) st) := by
  refine ⟨rfl, ?_⟩
  simp [park, readyInsert, fifo]

theorem joinsPark {q xs st} (wait : q ≠ .readyList) : Joins [] k (park k q t xs st) :=
  joinsNone rfl (by simp [park, Ne.symm wait])

theorem joinsWoken {q} (fifo : k.policy = .fifo) (wait : q ≠ .readyList) :
    Joins [t] k (woken k q t) := by
  have out : Joins [] k (unpark k q t) := joinsNone rfl (by simp [unpark, Ne.symm wait])
  exact joinsTrans out (joinsReady _ (out.policy.trans fifo))

theorem walkJoins {turns p j donor l} (walk : OnWalk p j k donor)
    (unmoved : ∀ r ∈ removals turns k donor l, InPlace r.1 r.2)
    (ok : donatePriAcquire turns k donor l = .ok k') : Joins [] k k' := by
  induction turns generalizing k donor l with
  | zero => simp [donatePriAcquire] at ok
  | succ turns ih =>
    unfold donatePriAcquire at ok
    unfold removals at unmoved
    split at ok <;> try contradiction
    rename_i donee held
    simp only [held] at ok unmoved
    split at ok
    · cases ok
      exact joinsNone rfl rfl
    · rename_i below
      rw [if_neg below] at unmoved
      split at ok
      · cases ok
        exact joinsNone rfl rfl
      · rename_i weaker
        rw [if_neg weaker] at unmoved
        obtain ⟨k1, sorted, last⟩ := bindOk.mp ok
        replace below := Nat.lt_of_not_le below
        replace weaker : (k.thread donee).ePri < (k.thread donor).ePri := by
          simpa [raiseLock] using weaker
        obtain ⟨other, busy⟩ := walkDonee walk held weaker
        obtain ⟨_, moved⟩ := raisedLinks walk.links below weaker
        have turn := walkTurn walk held below weaker sorted
        simp only [sorted] at unmoved
        have place (queued : ((raised k l donee (k.thread donor).ePri).thread donee).queue ≠ none) :
            InPlace (raised k l donee (k.thread donor).ePri) donee := by
          refine unmoved (raised k l donee (k.thread donor).ePri, donee) ?_
          have first : (raised k l donee (k.thread donor).ePri, donee) ∈
              (if ((raised k l donee (k.thread donor).ePri).thread donee).queue = none then []
                else [(raised k l donee (k.thread donor).ePri, donee)]) := by
            rw [if_neg queued]
            exact List.mem_singleton.mpr rfl
          split
          · exact first
          · exact List.mem_append_left _ first
        have stays : Joins [] k k1 := by
          rcases requeueOk moved other busy sorted with ⟨_, rfl⟩ | ⟨q, linked, rfl⟩
          · exact joinsNone rfl rfl
          · refine joinsNone rfl ?_
            by_cases ready : q = .readyList
            · subst q
              have recorded := (moved.placed donee).queue
                (fun runs => other (Option.some.inj runs).symm) (by simp) busy
              have same := (place (by simp [recorded, linked])).resolve_left
                (not_not.mpr ((moved.mem donee .readyList).mpr linked))
              simp only [Kernel.setList, Function.update_self]
              exact same
            · simp [Ne.symm ready, raised, raiseThread, raiseLock]
        split at last
        · cases last
          exact stays
        · rename_i next waits
          simp only [waits] at unmoved
          exact joinsTrans stays (ih turn.2
            (fun r later => unmoved r (List.mem_append_right _ later)) last)

theorem donateJoins {l rest} (coh : Coherent k) (top : k.cur.stack = .lockAcquire l :: rest)
    (not : (k.lock l).holder ≠ some k.current)
    (unmoved : ∀ r ∈ nextRemovals k, InPlace r.1 r.2)
    (ok : donateIfHeld (announce k l) l = .ok k') : Joins [] k k' := by
  have announced : Joins [] k (announce k l) := joinsNone rfl rfl
  unfold donateIfHeld at ok
  simp only [nextRemovals, top, if_neg not] at unmoved
  split at ok
  · rename_i held
    rw [if_pos held] at unmoved
    exact joinsTrans announced (walkJoins (walkStarts (announceCoherent coh)) unmoved ok)
  · cases ok
    exact announced

/- What happens before schedule is called: `j` is the kernel it is called in, or the end
if it is not called. -/
def Prepares (k : Kernel) (switch : Bool) (new : List Tid) (unmoved : Prop) (j k' : Kernel) :
    Prop :=
  (switch = false ∧ j = k' ∨ switch = true ∧ Links j none none ∧ schedule j = .ok k') ∧
  j.current = k.current ∧ (Ranked k → Ranked j) ∧ (k.policy = .fifo → unmoved → Joins new k j)

variable {unmoved : Prop}

theorem preparesQuiet {f rest} (coh : Coherent k) (top : k.cur.stack = f :: rest)
    (ok : runFrame k f rest = .ok k')
    (list : k'.list .readyList = k.list .readyList) (policy : k'.policy = k.policy)
    (current : k'.current = k.current) : ∃ j, Prepares k false [] unmoved j k' :=
  ⟨k', .inl ⟨rfl, rfl⟩, current, fun ranked => rankedRunFrame ranked coh top ok,
    fun _ _ => joinsNone policy list⟩

theorem preparesSleep {q before j} [DecidableRel before] (coh : Coherent j)
    (busy : j.current ≠ j.idleThread) (wait : q ≠ .readyList) (current : j.current = k.current)
    (ranked : Ranked k → Ranked j)
    (joins : k.policy = .fifo → unmoved → Joins [] k j) (ok : sleepOn j q before = .ok k') :
    ∃ j, Prepares k true [] unmoved j k' := by
  obtain ⟨free, next⟩ := sleepOnOk ok
  have parked := linksSleep before coh.links busy wait free
  refine ⟨_, .inr ⟨rfl, parked, next⟩, current, fun so => rankedPark (ranked so) wait, ?_⟩
  intro fifo unmoved
  exact joinsTrans (joins fifo unmoved) (joinsPark wait)

theorem yieldPrepares (unmoved : Prop) (coh : Coherent k) (ok : threadYield k = .ok k') :
    ∃ j, Prepares k true (yielder k) unmoved j k' := by
  rcases threadYieldOk ok with ⟨idle, next⟩ | ⟨busy, free, next⟩
  · have links := coh.links
    rw [idle] at links next
    have none : yielder k = [] := if_pos idle
    rw [none]
    exact ⟨_, .inr ⟨rfl, linksIdleStops links (by simp), next⟩, rfl,
      fun so => rankedThread so rfl, fun _ _ => joinsNone rfl rfl⟩
  · have parked := linksYield coh.links busy free
    have mine : yielder k = [k.current] := if_neg busy
    rw [mine]
    exact ⟨_, .inr ⟨rfl, parked, next⟩, rfl, fun so => rankedReady so,
      fun fifo _ => joinsReady .ready fifo⟩

theorem preparesDown {f n rest} (coh : Coherent k) (top : k.cur.stack = f :: rest)
    (names : f = .semaDown n ∨ f = .semaDownLoop n) (ok : semaDown k n rest = .ok k') :
    ∃ j, Prepares k (k.value (.plain n) = 0) [] unmoved j k' := by
  have facts : f ≠ .idle ∧ f.owes = false ∧ f.nested = false ∧
      runFrame k f rest = semaDown k n rest := by
    rcases names with rfl | rfl <;> simp [Frame.owes, Frame.nested, runFrame]
  obtain ⟨busy, owes, outer, ran⟩ := facts
  have down := ok
  unfold semaDown at down
  split at down
  · rename_i zero
    have placed : Coherent (k.setStack (.semaDownLoop n :: rest)) :=
      coherentReplace [.semaDownLoop n] coh top busy owes (by simp [Frame.owes]) (by simp [outer])
    have awake : k.current ≠ k.idleThread := currentBusy coh top busy
    rw [decide_eq_true zero]
    exact preparesSleep placed awake (by simp) rfl (fun so => rankedStack so)
      (fun _ _ => joinsNone rfl rfl) down
  · rename_i some
    cases down
    rw [decide_eq_false some]
    exact preparesQuiet coh top (ran.trans ok) rfl rfl rfl

theorem preparesLoop {g l rest j} (coh : Coherent j) (top : j.cur.stack = g :: rest)
    (busy : g ≠ .idle) (owes : g.owes = false) (current : j.current = k.current)
    (ranked : Ranked k → Ranked j) (joins : k.policy = .fifo → unmoved → Joins [] k j)
    (ok : lockAcquireLoop j l rest = .ok k') :
    ∃ i, Prepares k (j.value (.lock l) = 0) [] unmoved i k' := by
  unfold lockAcquireLoop at ok
  split at ok
  · rename_i zero
    have placed : Coherent (j.setStack (.lockAcquireLoop l :: rest)) :=
      coherentReplace [.lockAcquireLoop l] coh top busy owes (by simp [Frame.owes])
        (by simp [Frame.nested])
    have awake : j.current ≠ j.idleThread := currentBusy coh top busy
    rw [decide_eq_true zero]
    exact preparesSleep placed awake (by simp) current (fun so => rankedStack (ranked so))
      (fun fifo unmoved => joinsAfter (joins fifo unmoved) rfl rfl) ok
  · rename_i some
    refine ⟨k', .inl ⟨decide_eq_false some, rfl⟩, ?_, ?_, ?_⟩
    · cases ok
      exact current
    · intro so
      cases ok
      exact rankedStack (rankedThread (rankedIff.mpr (arrangedTake (rankedIff.mp (ranked so)))) rfl)
    · intro fifo unmoved
      cases ok
      exact joinsAfter (joins fifo unmoved) rfl rfl

def Frame.quiet : Frame → Bool
  | .threadSetPriority _ | .threadCreate _ | .threadCreateTail _ | .semaTryDown _
  | .semaUpTail _ | .lockTryAcquire _ | .lockRelease _ | .condWait _ _ | .condSignal _ _
  | .condSignalPop _ | .condBroadcast _ _ | .condBroadcastPop _ _ | .condBroadcastTail _ _ _
  | .timerSleep _ => true
  | _ => false

theorem quietKeeps {f rest} (coh : Coherent k) (quiet : f.quiet = true)
    (ok : runFrame k f rest = .ok k') :
    k'.list .readyList = k.list .readyList ∧ k'.policy = k.policy ∧
      k'.current = k.current := by
  obtain ⟨new, next, ran⟩ := runFrameRan coh (by rintro l rfl; cases quiet) ok
  cases ran with
  | plain | tunes | creates | counts | tries | releases => exact ⟨rfl, rfl, rfl⟩
  | links | sorts => exact ⟨by simp, rfl, rfl⟩
  | pops => exact ⟨by simp [popped, unpark], rfl, rfl⟩
  | sleeps kind => cases kind <;> cases quiet
  | _ => cases quiet

theorem framePrepares {f rest} (coh : Coherent k) (top : k.cur.stack = f :: rest)
    (ok : runFrame k f rest = .ok k') :
    ∃ j, Prepares k (f.switches k) (f.readies k) (Unmoved k .run) j k' := by
  cases f with
  | threadYield =>
    obtain ⟨j, ends, current, ranked, joins⟩ :=
      yieldPrepares (Unmoved k .run) (coherentPop coh top (by simp) rfl) ok
    refine ⟨j, ends, current, fun so => ranked (rankedStack so), fun fifo unmoved => ?_⟩
    have joined := joins fifo unmoved
    exact ⟨joined.policy, joined.list⟩
  | threadUnblock t =>
    have ok' := ok
    obtain ⟨k1, woke, last⟩ := bindOk.mp ok'
    obtain ⟨_, _, rfl⟩ := threadUnblockOk woke
    cases last
    exact ⟨_, .inl ⟨rfl, rfl⟩, rfl, fun so => rankedRunFrame so coh top ok,
      fun fifo _ => joinsAfter (joinsReady .ready fifo) rfl rfl⟩
  | idle =>
    have idle := (coh.owed.pending k.current).idleFrame (by
      have top' : (k.thread k.current).stack = .idle :: rest := top
      simp [top'])
    have links := coh.links
    simp only [runFrame, threadBlock] at ok
    rw [idle] at links ok
    exact ⟨_, .inr ⟨rfl, linksIdleStops links (by simp), ok⟩, rfl, fun so => rankedThread so rfl,
      fun _ _ => joinsNone rfl rfl⟩
  | semaDown n => exact preparesDown coh top (.inl rfl) ok
  | semaDownLoop n => exact preparesDown coh top (.inr rfl) ok
  | semaUp s =>
    have ranked : Ranked k → Ranked k' := fun so => rankedRunFrame so coh top ok
    rcases semaUpOk coh ok with ⟨empty, rfl⟩ | ⟨t, others, front, _, _, rfl⟩
    · have none : Frame.readies k (.semaUp s) = [] := by simp [Frame.readies, empty]
      rw [none]
      exact ⟨_, .inl ⟨rfl, rfl⟩, rfl, ranked, fun _ _ => joinsNone rfl rfl⟩
    · have head : Frame.readies k (.semaUp s) = [t] := by simp [Frame.readies, front]
      rw [head]
      exact ⟨_, .inl ⟨rfl, rfl⟩, rfl, ranked,
        fun fifo _ => joinsAfter (joinsWoken fifo (by simp)) rfl rfl⟩
  | lockAcquire l =>
    obtain ⟨k1, walked, donated, coh1, stack, last, _⟩ := lockAcquireElsewhere coh top ok
    have not : (k.lock l).holder ≠ some k.current := by
      intro held
      simp [runFrame, lockAcquire, held] at ok
    have value : k1.value (.lock l) = k.value (.lock l) := by rw [donated.value]; rfl
    have current : k1.current = k.current := donated.similar.current
    have prepares := preparesLoop coh1 stack (by simp) rfl current
      (fun so => rankedDonateIfHeld so coh walked)
      (fun _ unmoved => donateJoins coh top not unmoved walked) last
    rw [value] at prepares
    exact prepares
  | lockAcquireLoop l =>
    exact preparesLoop coh top (by simp) rfl rfl id (fun _ _ => joinsNone rfl rfl) ok
  | condWaitBlock c =>
    have linked : (k.thread k.current).elem = some (.condWaiters c) := by
      refine ((coh.owed.pending k.current).condBlock c ?_).2
      simp only [Kernel.cur] at top
      simp [top]
    exact ⟨_, .inr ⟨rfl, condWaitBlockLinks coh (currentBusy coh top (by simp)) linked, ok⟩,
      rfl, fun so => rankedThread (rankedThread so rfl) rfl, fun _ _ => joinsNone rfl rfl⟩
  | timerSleepBlock =>
    have awake : k.current ≠ k.idleThread := currentBusy coh top (by simp)
    exact preparesSleep (coherentPop coh top (by simp) rfl) awake (by simp) rfl
      (fun so => rankedStack so) (fun _ _ => joinsNone rfl rfl) ok
  | _ =>
    obtain ⟨list, policy, current⟩ := quietKeeps coh (by rfl) ok
    exact preparesQuiet coh top ok list policy current

theorem sleepersJoin {ts} (coh : Coherent k) (fifo : k.policy = .fifo) (nodup : ts.Nodup)
    (asleep : ∀ u ∈ ts, (k.thread u).elem = some .timerSleepList)
    (ok : wakeSleepers k ts = .ok k') : Joins (dueSleepers k k.ticks ts) k k' := by
  induction ts generalizing k with
  | nil => cases ok; exact joinsNone rfl rfl
  | cons t ts ih =>
    rcases wakeSleepersCons coh nodup asleep ok with
      ⟨due, _, next, nodup, later, last⟩ | ⟨later, rfl⟩
    · have rest := ih next fifo nodup later last
      have wakeUp : ∀ u, ((woken k .timerSleepList t).thread u).wakeUp = (k.thread u).wakeUp := by
        intro u; by_cases h : u = t <;> simp [woken, park, unpark, h]
      have same : dueSleepers (woken k .timerSleepList t) (woken k .timerSleepList t).ticks ts =
          dueSleepers k k.ticks ts := by
        simp only [dueSleepers, wakeUp]
        rfl
      have head : dueSleepers k k.ticks (t :: ts) = [t] ++ dueSleepers k k.ticks ts := by
        simp [dueSleepers, due]
      rw [head, ← same]
      exact joinsTrans (joinsWoken fifo (by simp)) rest
    · have none : dueSleepers k k.ticks (t :: ts) = [] := by simp [dueSleepers, later]
      rw [none]
      exact joinsNone rfl rfl

theorem tickPrepares (coh : Coherent k) (on : intrOff k = false)
    (ok : timerInterrupt k = .ok k') :
    ∃ j, Prepares k (switches k .tick) (readies k .tick) (Unmoved k .tick) j k' := by
  obtain ⟨k1, awake, ends⟩ := timerInterruptOk ok
  have ticked := coherentTicks (k.ticks + 1) k.threadTicks coh
  have nodup : (k.list .timerSleepList).Nodup := coh.links.nodup _
  have asleep : ∀ u ∈ k.list .timerSleepList, (k.thread u).elem = some .timerSleepList :=
    sleepersAsleep coh
  obtain ⟨coh1, ranked, ticks, current, idle⟩ := wakeRule
    (fun j => (Ranked k → Ranked j) ∧ j.threadTicks = k.threadTicks ∧ j.current = k.current ∧
      j.idleThread = k.idleThread)
    (fun _ _ _ so _ _ => ⟨fun first => rankedWoken (so.1 first), so.2⟩) ticked
    ⟨fun first => ⟨first.policy, first.sorted⟩, rfl, rfl, rfl⟩ nodup asleep awake
  have counted := coherentTicks k1.ticks (k1.threadTicks + 1) coh1
  have due (fifo : k.policy = .fifo) :
      Joins (dueSleepers k (k.ticks + 1) (k.list .timerSleepList)) k k1 := by
    have joined := sleepersJoin ticked fifo nodup asleep awake
    exact ⟨joined.policy, joined.list⟩
  simp only [switches, readies, on, Bool.not_false, Bool.true_and]
  rcases ends with ⟨ended, yields⟩ | ⟨within, rfl⟩
  · rw [ticks] at ended
    have mine : yielder {k1 with threadTicks := k1.threadTicks + 1} = yielder k := by
      simp only [yielder, current, idle]
    obtain ⟨j, last, same, sorted, joins⟩ := yieldPrepares (Unmoved k .tick) counted yields
    rw [mine] at joins
    rw [decide_eq_true ended]
    refine ⟨j, last, same.trans current, fun so => sorted ⟨(ranked so).policy, (ranked so).sorted⟩,
      fun fifo unmoved => ?_⟩
    have joined := joins ((due fifo).policy.trans fifo) unmoved
    have first := due fifo
    simp only [if_pos ended]
    exact joinsTrans first ⟨joined.policy, joined.list⟩
  · rw [ticks] at within
    rw [decide_eq_false (Nat.not_le_of_lt within)]
    refine ⟨_, .inl ⟨rfl, rfl⟩, current, fun so => ⟨(ranked so).policy, (ranked so).sorted⟩,
      fun fifo _ => ?_⟩
    have first := due fifo
    simp only [if_neg (Nat.not_le_of_lt within), List.append_nil]
    exact ⟨first.policy, first.list⟩

theorem stepPrepares {a} (coh : Coherent k) (ok : step k a = .ok k') :
    ∃ j, Prepares k (switches k a) (readies k a) (Unmoved k a) j k' := by
  have still : switches k a = false → readies k a = [] → k' = k →
      ∃ j, Prepares k (switches k a) (readies k a) (Unmoved k a) j k' := by
    rintro stays none rfl
    exact ⟨k', .inl ⟨stays, rfl⟩, rfl, id, fun _ _ => none ▸ joinsNone rfl rfl⟩
  cases a with
  | run =>
    cases top : k.cur.stack with
    | nil =>
      simp only [step, Threads.run, top, Except.ok.injEq] at ok
      exact still (by simp only [switches, top]) (by simp only [readies, top]) ok.symm
    | cons f rest =>
      simp only [step, Threads.run, top] at ok
      have prepares := framePrepares coh top ok
      simp only [switches, readies, top]
      exact prepares
  | call op =>
    cases ok
    split
    · exact ⟨_, .inl ⟨rfl, rfl⟩, rfl, fun so => rankedStack so, fun _ _ => joinsNone rfl rfl⟩
    · exact ⟨_, .inl ⟨rfl, rfl⟩, rfl, id, fun _ _ => joinsNone rfl rfl⟩
  | tick =>
    simp only [step] at ok
    split at ok
    · rename_i off
      exact still (by simp [switches, off]) (by simp [readies, off]) (Except.ok.inj ok).symm
    · rename_i on
      exact tickPrepares coh (by simpa using on) ok

end Joins

def Strict (k : Kernel) : Prop := ∀ t ∈ k.list .readyList, (k.thread t).ePri ≤ k.cur.ePri

instance (k) : Decidable (Strict k) := by unfold Strict; infer_instance

section Switch
variable {k k' : Kernel}

theorem strictSchedule (ranked : Ranked k) (links : Links k none none)
    (ok : schedule k = .ok k') : Strict k' := by
  rcases scheduleOk ok with ⟨empty, rfl⟩ | ⟨t, rest, q, front, linked, rfl⟩
  · intro u ready
    have inside : u ∈ k.list .readyList := ready
    simp [empty] at inside
  · have ready : (k.thread t).elem = some .readyList := (links.mem t _).mp (by simp [front])
    cases Option.some.inj (linked.symm.trans ready)
    have ePri : ∀ u, ((threadSwitchTail (unpark k .readyList t) t).thread u).ePri =
        (k.thread u).ePri := by
      intro u; by_cases h : u = t <;> simp [threadSwitchTail, unpark, h]
    have list : (threadSwitchTail (unpark k .readyList t) t).list .readyList =
        (k.list .readyList).erase t := by
      simp [threadSwitchTail, unpark]
    intro u inside
    rw [list] at inside
    simp only [Kernel.cur, ePri]
    have sorted := ranked.sorted
    rw [front] at sorted inside
    exact headLargest sorted u (List.mem_of_mem_erase inside)

theorem dispatchStrict {a} (coh : Coherent k) (ranked : Ranked k) (ok : step k a = .ok k') :
    k'.current = k.current ∨ Strict k' := by
  obtain ⟨j, ends, current, sorted, _⟩ := stepPrepares coh ok
  rcases ends with ⟨_, rfl⟩ | ⟨_, links, next⟩
  · exact .inl current
  · exact .inr (strictSchedule (sorted ranked) links next)

end Switch

/-- Under SCHED_PRIO the run queue and the waiters of every semaphore are sorted, and the
threads that schedule and sema_up pick are the strongest that are queued. -/
theorem queuesByPriority {values may k} (run : Run step may (boot .prio values) k) :
    (∀ q, q.byPri = true → Descending (fun t => (k.thread t).ePri) (k.list q)) ∧
    (∀ a k', step k a = .ok k' → switches k a = false → k'.current = k.current) ∧
    (∀ a k', step k a = .ok k' → switches k a = true → Strict k' ∧
      (k'.current = k'.idleThread → k'.list .readyList = [])) ∧
    ∀ s t others rest k', k.cur.stack = .semaUp s :: rest →
      k.list (.semaWaiters s) = t :: others → step k .run = .ok k' →
      (k'.thread t).status = .ready ∧ k'.list (.semaWaiters s) = others ∧
      ∀ u ∈ others, (k.thread u).ePri ≤ (k.thread t).ePri := by
  obtain ⟨coh, arranged⟩ := runArranged run
  have ranked := rankedIff.mpr (arranged .readyList rfl)
  refine ⟨fun q kind => (arranged q kind).sorted, ?_, ?_, ?_⟩
  · intro a k' ok stays
    obtain ⟨j, ends, current, _⟩ := stepPrepares coh ok
    rcases ends with ⟨_, rfl⟩ | ⟨switch, _⟩
    · exact current
    · simp [stays] at switch
  · intro a k' ok leaves
    obtain ⟨j, ends, _, sorted, _⟩ := stepPrepares coh ok
    rcases ends with ⟨switch, _⟩ | ⟨_, links, next⟩
    · simp [leaves] at switch
    · refine ⟨strictSchedule (sorted ranked) links next, fun idle => ?_⟩
      rcases scheduleOk next with ⟨empty, rfl⟩ | ⟨t, rest, q, _, linked, rfl⟩
      · exact empty
      · have same : t = j.idleThread := idle
        exact absurd same (linkedBusy links linked)
  · intro s t others rest k' top front ok
    simp only [step, Threads.run, top] at ok
    rcases semaUpOk coh ok with ⟨empty, _⟩ | ⟨u, more, same, other, linked, rfl⟩
    · simp [front] at empty
    · rw [front] at same
      obtain ⟨rfl, rfl⟩ := List.cons.inj same
      have sorted := (arranged (.semaWaiters s) rfl).sorted
      rw [front] at sorted
      refine ⟨?_, ?_, (List.pairwise_cons.mp sorted).1⟩
      · simp [woken, park, unpark, other]
      · simp [woken, park, unpark, front]

theorem queuesByPriorityExample :
    ∃ k k', Run step (fun _ _ => True) (boot .prio (fun _ => 0)) k ∧
      k.list (.semaWaiters (.plain 0)) = [3, 2] ∧ step k .run = .ok k' ∧
      (k'.thread 3).status = .ready ∧ (k.thread 2).ePri ≤ (k.thread 3).ePri := by
  obtain ⟨k, run, found⟩ := execFinds step (fun _ _ => True) (boot .prio (fun _ => 0))
    (creates 40 ++ [.call (.semaDown 0), .run] ++ creates 50 ++ [.call (.semaDown 0), .run,
      .call (.semaUp 0)])
    (fun k => decide (k.cur.stack = [.semaUp (.plain 0)] ∧
      k.list (.semaWaiters (.plain 0)) = [3, 2]) && (step k .run).toBool) (by decide +kernel)
  obtain ⟨facts, ends⟩ := Bool.and_eq_true_iff.mp found
  obtain ⟨top, waiters⟩ := of_decide_eq_true facts
  cases next : step k .run with
  | error e => simp [next, Except.toBool] at ends
  | ok k' =>
    obtain ⟨ready, _, strongest⟩ := (queuesByPriority run).2.2.2 _ _ _ _ _ top waiters next
    exact ⟨k, k', run, waiters, next, ready, strongest 2 (by simp)⟩

structure Log where
  kernel : Kernel
  readied : List Tid
  dispatched : List Tid

def log (s : Log) (a : Action) : Except Fault Log := do
  let k ← step s.kernel a
  let next := if switches s.kernel a = true ∧ k.current ≠ k.idleThread then [k.current] else []
  .ok ⟨k, s.readied ++ readies s.kernel a, s.dispatched ++ next⟩

def logBoot (values : Nat → Nat) : Log := ⟨boot .fifo values, [], []⟩

def Fifo (s : Log) : Prop := s.readied = s.dispatched ++ s.kernel.list .readyList

instance (s) : Decidable (Fifo s) := by unfold Fifo; infer_instance

theorem logFifo {s a s'} (coh : Coherent s.kernel) (policy : s.kernel.policy = .fifo)
    (fifo : Fifo s) (unmoved : Unmoved s.kernel a) (ok : log s a = .ok s') :
    Coherent s'.kernel ∧ s'.kernel.policy = .fifo ∧ Fifo s' := by
  obtain ⟨k, moved, last⟩ := bindOk.mp ok
  cases last
  obtain ⟨j, ends, _, _, joins⟩ := stepPrepares coh moved
  have joined := joins policy unmoved
  have readied : s.readied ++ readies s.kernel a = s.dispatched ++ j.list .readyList := by
    rw [show s.readied = _ from fifo, joined.list, List.append_assoc]
  refine ⟨stepCoherent coh moved, ?_⟩
  unfold Fifo
  simp only [readied]
  rcases ends with ⟨stays, rfl⟩ | ⟨leaves, links, next⟩
  · simp [stays, joined.policy, policy]
  · rcases scheduleOk next with ⟨empty, rfl⟩ | ⟨t, rest, q, front, linked, rfl⟩
    · refine ⟨joined.policy.trans policy, ?_⟩
      simp [threadSwitchTail, empty]
    · have ready := (links.mem t .readyList).mp (by simp [front])
      cases Option.some.inj (linked.symm.trans ready)
      refine ⟨joined.policy.trans policy, ?_⟩
      simp [threadSwitchTail, unpark, leaves, front, linkedBusy links linked]

theorem fifoWhileUnmoved {values s}
    (run : Run log (fun s => Unmoved s.kernel) (logBoot values) s) : Fifo s := by
  have inv := run.invariant
    (fun s => Coherent s.kernel ∧ s.kernel.policy = .fifo ∧ Fifo s)
    ⟨bootCoherent .fifo values, rfl, rfl⟩
    (fun u v a so unmoved ok => logFifo so.1 so.2.1 so.2.2 unmoved ok)
  exact inv.2.2

/-- Thread 2 (20) sleeps for the lock of the initial thread (31) and gets it. -/
theorem fifoWhileUnmovedExample :
    ∃ s, Run log (fun s => Unmoved s.kernel) (logBoot (fun _ => 0)) s ∧
      (s.dispatched = [2, 1, 2] ∧ s.kernel.list .readyList = [1] ∧
        (s.kernel.lock 1).holder = some 2) ∧ s.readied = [2, 1, 2, 1] := by
  obtain ⟨s, run, found⟩ := execFinds log (fun s => Unmoved s.kernel) (logBoot (fun _ => 0))
    ([.call (.lockAcquire 1), .run] ++ creates 20 ++ [.call .threadYield, .run,
      .call (.lockAcquire 1), .run, .call (.lockRelease 1), .run, .run, .run, .run,
      .call .threadYield, .run, .run])
    (fun s => decide (s.dispatched = [2, 1, 2] ∧ s.kernel.list .readyList = [1] ∧
      (s.kernel.lock 1).holder = some 2)) (by decide +kernel)
  have facts := of_decide_eq_true found
  refine ⟨s, run, facts, ?_⟩
  rw [show s.readied = _ from fifoWhileUnmoved run, facts.1, facts.2.1]
  rfl

/- The initial thread holds the lock and stands behind thread 3 in ready_list when the
stronger thread 2 wants the lock: the donation puts it in front. -/
theorem donationReordersReady :
    ∃ s, Run log (fun _ _ => True) (logBoot (fun _ => 0)) s ∧ ¬ Fifo s ∧
      s.readied = [2, 1, 2, 3, 1] ∧ s.dispatched = [2, 1, 2, 1] ∧
      s.kernel.list .readyList = [3] := by
  obtain ⟨s, run, found⟩ := execFinds log (fun _ _ => True) (logBoot (fun _ => 0))
    ([.call (.lockAcquire 1), .run] ++ creates 50 ++ [.call .threadYield, .run,
      .call (.threadCreate 31), .run, .run, .run, .run, .run, .run, .call .threadYield, .run,
      .call (.lockAcquire 1), .run])
    (fun s => decide (¬ Fifo s ∧ s.readied = [2, 1, 2, 3, 1] ∧ s.dispatched = [2, 1, 2, 1] ∧
      s.kernel.list .readyList = [3]))
    (by decide +kernel)
  exact ⟨s, run, of_decide_eq_true found⟩

end Pintos.Threads
