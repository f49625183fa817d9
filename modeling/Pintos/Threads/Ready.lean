import Pintos.Threads.Preserve

/-! Under SCHED_PRIO the run queue and the waiters of every semaphore are always sorted
by effective priority, the strongest thread first: every insertion keeps a list so, and
a donation to a queued thread sorts that thread in again. -/
namespace Pintos.Threads
open Machine Ordered

attribute [local simp] Function.update_apply

structure Ranked (k : Kernel) : Prop where
  policy : k.policy = .prio
  sorted : Descending (fun t => (k.thread t).ePri) (k.list .readyList)

/-- The lists kept by effective priority. cond_wait's is sorted by cond_signal, and
timer_sleep's by wake-up time. -/
def Queue.byPri : Queue → Bool
  | .readyList | .semaWaiters _ => true
  | _ => false

structure Arranged (q : Queue) (k : Kernel) : Prop where
  policy : k.policy = .prio
  sorted : Descending (fun t => (k.thread t).ePri) (k.list q)

theorem rankedIff {k} : Ranked k ↔ Arranged .readyList k :=
  ⟨fun h => ⟨h.policy, h.sorted⟩, fun h => ⟨h.policy, h.sorted⟩⟩

theorem arrangedSame {q k k'} (arranged : Arranged q k) (policy : k'.policy = k.policy)
    (list : k'.list q = k.list q)
    (ePri : ∀ t ∈ k.list q, (k'.thread t).ePri = (k.thread t).ePri) : Arranged q k' where
  policy := policy.trans arranged.policy
  sorted := by rw [list]; exact descendingCongr arranged.sorted ePri

section Arranged
variable {q : Queue} {k : Kernel}

theorem queuedOther {run hand t u} (kind : q.byPri = true) (links : Links k run hand)
    (runs : run = some u) (queued : t ∈ k.list q) : t ≠ u := by
  rintro rfl
  obtain ⟨c, rfl⟩ := (links.placed t).runElem q runs ((links.mem t q).mp queued)
  contradiction

theorem arrangedThread {t f} (arranged : Arranged q k)
    (ePri : (f (k.thread t)).ePri = (k.thread t).ePri) : Arranged q (k.setThread t f) := by
  refine arrangedSame arranged rfl rfl ?_
  intro u _
  by_cases h : u = t <;> simp [h, ePri]

theorem arrangedCurrent {f} (kind : q.byPri = true) (arranged : Arranged q k)
    (coh : Coherent k) : Arranged q (k.setThread k.current f) := by
  refine arrangedSame arranged rfl rfl ?_
  intro u queued
  simp [queuedOther kind coh.links rfl queued]

theorem arrangedStack {st} (arranged : Arranged q k) : Arranged q (k.setStack st) :=
  arrangedThread arranged rfl

theorem arrangedValue (s v) (arranged : Arranged q k) : Arranged q (k.setValue s v) :=
  ⟨arranged.policy, arranged.sorted⟩

section
variable (arranged : Arranged q k)
include arranged

theorem arrangedUnpark {r t} : Arranged q (unpark k r t) := by
  have ePri : ∀ u, ((unpark k r t).thread u).ePri = (k.thread u).ePri := by
    intro u; by_cases h : u = t <;> simp [unpark, h]
  refine ⟨arranged.policy, ?_⟩
  by_cases h : r = q
  · subst r
    have list : (unpark k q t).list q = (k.list q).erase t := by
      simp [unpark]
    rw [list]
    exact descendingCongr (descendingErase t arranged.sorted) (fun u _ => ePri u)
  · have list : (unpark k r t).list q = k.list q := by
      simp [unpark, Ne.symm h]
    rw [list]
    exact descendingCongr arranged.sorted (fun u _ => ePri u)

theorem insertArranged {before t} [DecidableRel before]
    (strict : ∀ a b, before a b ↔ graterThreadPri k a b) :
    Descending (fun u => (k.thread u).ePri) ((k.list q).orderedInsert before t) := by
  refine descendingInsert ?_ ?_ arranged.sorted
  · intro a b stronger
    exact Nat.le_of_lt ((strict a b).mp stronger)
  · intro a b not
    exact Nat.le_of_not_lt (mt (strict a b).mpr not)

theorem arrangedPark {r t xs st}
    (right : r = q → Descending (fun u => (k.thread u).ePri) xs) :
    Arranged q (park k r t xs st) := by
  have ePri : ∀ u, ((park k r t xs st).thread u).ePri = (k.thread u).ePri := by
    intro u; by_cases h : u = t <;> simp [park, h]
  by_cases h : r = q
  · have list : (park k r t xs st).list q = xs := by simp [park, h]
    refine ⟨arranged.policy, ?_⟩
    rw [list]
    exact descendingCongr (right h) (fun u _ => ePri u)
  · exact arrangedSame arranged rfl (by simp [park, Ne.symm h]) (fun u _ => ePri u)

theorem arrangedReady {t st} :
    Arranged q (park k .readyList t (readyInsert k t) st) := by
  refine arrangedPark arranged ?_
  rintro rfl
  unfold readyInsert
  rw [arranged.policy]
  exact insertArranged arranged (fun _ _ => Iff.rfl)

theorem arrangedWoken {r t} : Arranged q (woken k r t) :=
  arrangedReady (arrangedUnpark arranged)

theorem arrangedSwitch {t} : Arranged q (threadSwitchTail k t) := by
  refine arrangedSame arranged rfl rfl ?_
  intro u _
  by_cases h : u = t <;> simp [threadSwitchTail, h]

theorem arrangedSchedule {k'} (ok : schedule k = .ok k') :
    Arranged q k' := by
  rcases scheduleOk ok with ⟨_, rfl⟩ | ⟨t, rest, r, _, _, rfl⟩
  · exact arrangedSwitch arranged
  · exact arrangedSwitch (arrangedUnpark arranged)

theorem arrangedYield {k'} (ok : threadYield k = .ok k') :
    Arranged q k' := by
  rcases threadYieldOk ok with ⟨_, next⟩ | ⟨_, _, next⟩
  · exact arrangedSchedule (arrangedThread arranged rfl) next
  · exact arrangedSchedule (arrangedReady arranged) next

theorem arrangedSleep {r before} [DecidableRel before] {k'}
    (strict : r = q → ∀ a b, before a b ↔ graterThreadPri k a b)
    (ok : sleepOn k r before = .ok k') : Arranged q k' := by
  refine arrangedSchedule (arrangedPark arranged ?_) (sleepOnOk ok).2
  rintro rfl
  exact insertArranged arranged (strict rfl)
end

theorem graterStack (st a b) : graterThreadPri k a b ↔ graterThreadPri (k.setStack st) a b := by
  refine (graterSame ?_ a b).symm
  intro u
  by_cases h : u = k.current <;> simp [h]

section
variable (arranged : Arranged q k)
include arranged

theorem arrangedTurn {l donee p k1}
    (links : Links k (some k.current) none)
    (other : donee ≠ k.current) (busy : donee ≠ k.idleThread) (below : (k.lock l).pri < p)
    (weaker : (k.thread donee).ePri < p)
    (ok : requeue (raised k l donee p) donee = .ok k1) : Arranged q k1 := by
  have same : ∀ u, u ≠ donee → ((raised k l donee p).thread u).ePri = (k.thread u).ePri := by
    intro u ne; simp [raised, raiseThread, raiseLock, ne]
  have elem : ((raised k l donee p).thread donee).elem = (k.thread donee).elem := by
    simp [raised, raiseThread, raiseLock]
  obtain ⟨_, moved⟩ := raisedLinks links below weaker
  rcases requeueOk moved other busy ok with ⟨free, rfl⟩ | ⟨r, linked, rfl⟩
  · refine arrangedSame arranged rfl rfl ?_
    intro u queued
    refine same u ?_
    rintro rfl
    simp [(links.mem u _).mp queued, free] at elem
  · rw [elem] at linked
    refine ⟨arranged.policy, ?_⟩
    by_cases h : r = q
    · subst r
      simp only [Kernel.setList, Function.update_self]
      refine descendingInsert (fun a b => Nat.le_of_lt) (fun a b => Nat.le_of_not_lt) ?_
      refine descendingCongr (descendingErase donee arranged.sorted) ?_
      intro u inside
      refine same u ?_
      rintro rfl
      exact (links.nodup q).not_mem_erase inside
    · have list : ((raised k l donee p).setList r
          ((((raised k l donee p).list r).erase donee).orderedInsert
            (graterThreadPri (raised k l donee p)) donee)).list q = k.list q := by
        simp [Ne.symm h, raised, raiseThread, raiseLock]
      rw [list]
      refine descendingCongr arranged.sorted ?_
      intro u queued
      refine same u ?_
      rintro rfl
      exact h (Option.some.inj (linked.symm.trans ((links.mem u _).mp queued)))

theorem arrangedDonate {turns l k'} (coh : Coherent k)
    (ok : donatePriAcquire turns k k.current l = .ok k') : Arranged q k' := by
  have turn : ∀ {j donor m donee j1}, Arranged q j → OnWalk k.cur.ePri k j donor →
      (j.lock m).holder = some donee → (j.lock m).pri < (j.thread donor).ePri →
      (j.thread donee).ePri < (j.thread donor).ePri →
      requeue (raised j m donee (j.thread donor).ePri) donee = .ok j1 → Arranged q j1 := by
    intro j donor m donee j1 arranged walk held below weaker sorted
    obtain ⟨other, busy⟩ := walkDonee walk held weaker
    exact arrangedTurn arranged walk.links other busy below weaker sorted
  refine donateRule (fun _ j donor _ => Arranged q j ∧ OnWalk k.cur.ePri k j donor) (Arranged q)
    ?_ ?_ ?_ ?_ ⟨arranged, donatedRefl _ k, coh.links, coh.owed.idleHolds, rfl, Nat.le_refl _⟩ ok
  · intro _ j donor m donee ⟨arranged, _⟩ _ _
    exact arranged
  · intro _ j donor m donee ⟨arranged, _⟩ _ _ _
    refine arrangedSame arranged rfl rfl ?_
    intro u _
    by_cases h : u = donee <;> simp [raiseLock, h]
  · intro _ j donor m donee j1 ⟨arranged, walk⟩ held below weaker sorted _
    exact turn arranged walk held below weaker sorted
  · intro _ j donor m donee j1 next ⟨arranged, walk⟩ held below weaker sorted _
    exact ⟨turn arranged walk held below weaker sorted,
      (walkTurn walk held below weaker sorted).2⟩

theorem arrangedTake {l} : Arranged q (takeLock k l) := by
  refine arrangedSame arranged rfl rfl ?_
  intro u _
  by_cases h : u = k.current <;> simp [takeLock, h]

theorem arrangedDonateIfHeld {l k'} (coh : Coherent k)
    (ok : donateIfHeld (announce k l) l = .ok k') : Arranged q k' := by
  have announced : Arranged q (announce k l) := by
    refine arrangedSame arranged rfl rfl ?_
    intro u _
    by_cases h : u = k.current <;> simp [announce, h]
  unfold donateIfHeld at ok
  split at ok
  · exact arrangedDonate announced (announceCoherent coh) ok
  · cases ok
    exact announced

end

theorem ranArranged {f new rest k'} (kind : q.byPri = true) (arranged : Arranged q k)
    (coh : Coherent k) (ran : Ran k rest f new k') : Arranged q k' := by
  have notCond : ∀ c, .condWaiters c ≠ q := by rintro c rfl; contradiction
  cases ran with
  | plain => exact arrangedStack arranged
  | tunes => exact arrangedStack (arrangedCurrent kind arranged coh)
  | yields ok => exact arrangedYield (arrangedStack arranged) ok
  | readies => exact arrangedStack (arrangedReady arranged)
  | creates =>
    refine arrangedStack (arrangedSame arranged rfl rfl ?_)
    intro u queued
    have known := linkedOld coh.links ((coh.links.mem u _).mp queued)
    simp [Nat.ne_of_lt known]
  | idles ok => exact arrangedSchedule (arrangedThread arranged rfl) ok
  | sleeps _ strict ok =>
    refine arrangedSleep (arrangedStack arranged) ?_ ok
    rintro rfl a b
    exact (strict (by rintro rfl; contradiction) a b).trans (graterStack _ a b)
  | counts => exact arrangedStack (arrangedValue _ _ arranged)
  | wakes => exact arrangedStack (arrangedValue _ _ (arrangedWoken arranged))
  | takes => exact arrangedStack (arrangedThread (arrangedTake arranged) rfl)
  | tries =>
    refine arrangedStack (arrangedSame (arrangedTake arranged) rfl rfl fun _ _ => rfl)
  | releases =>
    refine arrangedStack (arrangedSame arranged rfl rfl ?_)
    intro u queued
    simp [released, queuedOther kind coh.links rfl queued]
  | links =>
    refine arrangedStack (arrangedSame arranged rfl (by simp [(notCond _).symm]) ?_)
    intro u _
    by_cases h : u = k.current <;> simp [h]
  | blocks ok => exact arrangedSchedule (arrangedThread (arrangedThread arranged rfl) rfl) ok
  | sorts =>
    exact arrangedStack (arrangedSame arranged rfl (by simp [(notCond _).symm]) fun _ _ => rfl)
  | pops => exact arrangedStack (arrangedThread (arrangedUnpark arranged) rfl)

theorem arrangedRunFrame {f rest k'} (kind : q.byPri = true) (arranged : Arranged q k)
    (coh : Coherent k) (top : k.cur.stack = f :: rest) (ok : runFrame k f rest = .ok k') :
    Arranged q k' := by
  by_cases acquires : ∃ l, f = .lockAcquire l
  · obtain ⟨l, rfl⟩ := acquires
    obtain ⟨_, k1, walked, _, coh1, _, _, last⟩ := lockAcquireRan coh top ok
    obtain ⟨_, _, ran⟩ := lockAcquireLoopRan last
    exact ranArranged kind (arrangedDonateIfHeld arranged coh walked) coh1 ran
  · obtain ⟨_, _, ran⟩ := runFrameRan coh (fun l same => acquires ⟨l, same⟩) ok
    exact ranArranged kind arranged coh ran

theorem arrangedTick {k'} (arranged : Arranged q k) (coh : Coherent k)
    (ok : timerInterrupt k = .ok k') : Arranged q k' := by
  obtain ⟨k1, awake, ends⟩ := timerInterruptOk ok
  have ticked := coherentTicks (k.ticks + 1) k.threadTicks coh
  obtain ⟨_, woke⟩ := wakeRule (Arranged q) (fun _ _ _ so _ _ => arrangedWoken so) ticked
    ⟨arranged.policy, arranged.sorted⟩ (ticked.links.nodup _) (sleepersAsleep ticked) awake
  have counted : Arranged q {k1 with threadTicks := k1.threadTicks + 1} :=
    ⟨woke.policy, woke.sorted⟩
  rcases ends with ⟨_, yields⟩ | ⟨_, rfl⟩
  · exact arrangedYield counted yields
  · exact counted

end Arranged

section Ranked
variable {k : Kernel}

section
variable (ranked : Ranked k)
include ranked

theorem rankedThread {t f}
    (ePri : (f (k.thread t)).ePri = (k.thread t).ePri) : Ranked (k.setThread t f) :=
  rankedIff.mpr (arrangedThread (rankedIff.mp ranked) ePri)

theorem rankedStack {st} : Ranked (k.setStack st) :=
  rankedThread ranked rfl

theorem rankedReady {t st} :
    Ranked (park k .readyList t (readyInsert k t) st) :=
  rankedIff.mpr (arrangedReady (rankedIff.mp ranked))

theorem rankedPark {q t xs st} (wait : q ≠ .readyList) :
    Ranked (park k q t xs st) :=
  rankedIff.mpr (arrangedPark (rankedIff.mp ranked) (fun same => absurd same wait))

theorem rankedWoken {q t} : Ranked (woken k q t) :=
  rankedIff.mpr (arrangedWoken (rankedIff.mp ranked))

theorem rankedDonateIfHeld {l k'} (coh : Coherent k)
    (ok : donateIfHeld (announce k l) l = .ok k') : Ranked k' :=
  rankedIff.mpr (arrangedDonateIfHeld (rankedIff.mp ranked) coh ok)

theorem rankedRunFrame {f rest k'} (coh : Coherent k) (top : k.cur.stack = f :: rest)
    (ok : runFrame k f rest = .ok k') : Ranked k' :=
  rankedIff.mpr (arrangedRunFrame rfl (rankedIff.mp ranked) coh top ok)
end

end Ranked

theorem arrangedStep {q k a k'} (kind : q.byPri = true) (arranged : Arranged q k)
    (coh : Coherent k) (ok : step k a = .ok k') : Arranged q k' := by
  rcases stepOk ok with rfl | ⟨f, rest, _, top, ran⟩ | ⟨op, _, _, rfl⟩ | ⟨_, _, ticked⟩
  · exact arranged
  · exact arrangedRunFrame kind arranged coh top ran
  · exact arrangedStack arranged
  · exact arrangedTick arranged coh ticked

theorem runArranged {values may k} (run : Run step may (boot .prio values) k) :
    Coherent k ∧ ∀ q, q.byPri = true → Arranged q k := by
  refine run.invariant (fun k => Coherent k ∧ ∀ q, q.byPri = true → Arranged q k)
    ⟨bootCoherent .prio values, fun _ _ => ⟨rfl, List.Pairwise.nil⟩⟩ ?_
  intro u v a ⟨coh, arranged⟩ _ ok
  exact ⟨stepCoherent coh ok, fun q kind => arrangedStep kind (arranged q kind) coh ok⟩

theorem runRanked {values may k} (run : Run step may (boot .prio values) k) :
    Coherent k ∧ Ranked k :=
  ⟨(runArranged run).1, rankedIff.mpr ((runArranged run).2 .readyList rfl)⟩

end Pintos.Threads
