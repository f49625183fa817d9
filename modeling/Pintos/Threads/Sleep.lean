import Pintos.Threads.Frames
import Pintos.Threads.Inversion

/-! timer_sleep_list. timer_sleep keeps it sorted by wake_up and timer_interrupt stops at
the first sleeper that is not due, but a donation sorts its donee in again by priority,
whatever list it is in. -/
namespace Pintos.Threads
open Machine

attribute [local simp] Function.update_apply

structure TimedSleep (k : Kernel) : Prop where
  sorted : (k.list .timerSleepList).Pairwise (lessSleep k)
  due : ∀ k', timerInterrupt k = .ok k' → ∀ t ∈ k'.list .timerSleepList,
    k'.ticks < (k'.thread t).wakeUp
  early : ∀ a k', step k a = .ok k' → ∀ t ∈ k.list .timerSleepList,
    t ∉ k'.list .timerSleepList → (k.thread t).wakeUp ≤ k'.ticks

def SleepsFree (k : Kernel) : Frame → Prop
  | .timerSleepBlock => k.cur.lockQueue = []
  | _ => True

instance (k f) : Decidable (SleepsFree k f) := by
  unfold SleepsFree; split <;> infer_instance

structure Sleepers (k : Kernel) : Prop where
  sorted : (k.list .timerSleepList).Pairwise (lessSleep k)
  free : ∀ t ∈ k.list .timerSleepList, (k.thread t).lockQueue = []

section Sleepers
variable {k k' : Kernel}
  {xs : List Tid}

theorem sortedSame (sorted : xs.Pairwise (lessSleep k))
    (wakeUp : ∀ t ∈ xs, (k'.thread t).wakeUp = (k.thread t).wakeUp) :
    xs.Pairwise (lessSleep k') := by
  refine List.Pairwise.imp_of_mem ?_ sorted
  intro a b ha hb le
  unfold lessSleep at le ⊢
  rw [wakeUp a ha, wakeUp b hb]
  exact le

theorem sleepersSame (asleep : Sleepers k) (list : k'.list .timerSleepList = k.list .timerSleepList)
    (wakeUp : ∀ t ∈ k.list .timerSleepList, (k'.thread t).wakeUp = (k.thread t).wakeUp)
    (lockQueue : ∀ t ∈ k.list .timerSleepList, (k'.thread t).lockQueue = (k.thread t).lockQueue) :
    Sleepers k' := by
  constructor
  · rw [list]
    exact sortedSame asleep.sorted wakeUp
  · rw [list]
    intro t inside
    rw [lockQueue t inside]
    exact asleep.free t inside

theorem sleeperElsewhere (coh : Coherent k) {t} (inside : t ∈ k.list .timerSleepList) :
    t ≠ k.current ∧ t < k.created :=
  ⟨waiterStopped coh inside (by simp), linkedOld coh.links ((coh.links.mem t _).mp inside)⟩

theorem sleepersElsewhere {f} (coh : Coherent k) (asleep : Sleepers k)
    (away : f.queue ≠ some .timerSleepList) (so : Elsewhere k.current f k k') : Sleepers k' := by
  refine sleepersSame asleep (so.list _ (by simp) away) ?_ ?_
  · intro t inside
    obtain ⟨other, old⟩ := sleeperElsewhere coh inside
    exact so.wakeUp t other old
  · intro t inside
    obtain ⟨other, old⟩ := sleeperElsewhere coh inside
    exact so.lockQueue t other old

theorem sortedInsert {t} (sorted : xs.Pairwise (lessSleep k)) :
    (xs.orderedInsert (lessSleep k) t).Pairwise (lessSleep k) := by
  have total : Std.Total (lessSleep k) := ⟨fun a b => Int.le_total _ _⟩
  have trans : IsTrans Tid (lessSleep k) := ⟨fun a b c => Int.le_trans⟩
  exact List.Pairwise.orderedInsert t xs sorted

theorem timerSleepBlockParks {rest} (coh : Coherent k) (top : k.cur.stack = .timerSleepBlock :: rest)
    (ok : timerSleepBlock k rest = .ok k') :
    k'.list .timerSleepList = (k.list .timerSleepList).orderedInsert (lessSleep k) k.current ∧
      ∀ t < k.created, (k'.thread t).wakeUp = (k.thread t).wakeUp ∧
        (k'.thread t).lockQueue = (k.thread t).lockQueue := by
  have placed : Coherent (k.setStack rest) := coherentPop coh top (by simp) rfl
  have busy := currentBusy coh top (by simp)
  have so := sleepOnParks placed busy (by simp) ok
  constructor
  · rw [(so 0 .idle).list _ (by simp) (by simp [Frame.queue])]
    simp [park]
  · intro t old
    have other := Nat.ne_of_lt (Nat.lt_succ_self t)
    rw [(so (t + 1) .idle).wakeUp t other old, (so (t + 1) .idle).lockQueue t other old]
    by_cases h : t = k.current <;> simp [park, h]

theorem sleepersSleep {rest} (coh : Coherent k) (top : k.cur.stack = .timerSleepBlock :: rest)
    (asleep : Sleepers k) (none : k.cur.lockQueue = []) (ok : timerSleepBlock k rest = .ok k') :
    Sleepers k' := by
  obtain ⟨list, same⟩ := timerSleepBlockParks coh top ok
  have mem : ∀ t ∈ k'.list .timerSleepList, t = k.current ∨ t ∈ k.list .timerSleepList := by
    intro t inside
    rw [list] at inside
    exact (List.mem_orderedInsert _).mp inside
  have old : ∀ t ∈ k'.list .timerSleepList, t < k.created := by
    intro t inside
    rcases mem t inside with rfl | before
    · exact runningOld coh.links rfl
    · exact (sleeperElsewhere coh before).2
  constructor
  · rw [list]
    refine sortedSame (sortedInsert asleep.sorted) ?_
    rw [← list]
    exact fun t inside => (same t (old t inside)).1
  · intro t inside
    rw [(same t (old t inside)).2]
    rcases mem t inside with rfl | before
    · exact none
    · exact asleep.free t before

structure Spares (k j : Kernel) : Prop where
  list : j.list .timerSleepList = k.list .timerSleepList
  wakeUp : ∀ t, (j.thread t).wakeUp = (k.thread t).wakeUp
  free : ∀ t ∈ k.list .timerSleepList, (j.thread t).lockQueue = []
  holds : ∀ l t, (j.lock l).holder = some t → (j.thread t).lockQueue ≠ []
  ticks : j.ticks = k.ticks

theorem sparesRaise {j : Kernel} {l donee p} (spares : Spares k j)
    (held : (j.lock l).holder = some donee) : Spares k (raiseLock j l donee p) := by
  have awake : donee ∉ k.list .timerSleepList := fun inside =>
    spares.holds l donee held (spares.free donee inside)
  refine ⟨spares.list, ?_, ?_, ?_, spares.ticks⟩
  · intro t
    by_cases h : t = donee <;> simp [raiseLock, h, spares.wakeUp]
  · intro t inside
    have other : t ≠ donee := by rintro rfl; exact awake inside
    simpa [raiseLock, other] using spares.free t inside
  · intro m t held'
    have before : (j.lock m).holder = some t := by
      by_cases h : m = l <;> simpa [raiseLock, h] using held'
    by_cases h : t = donee
    · subst h
      have inside : l ∈ ((raiseLock j l t p).thread t).lockQueue := by
        simp only [raiseLock, Kernel.setThread, Function.update_self]
        exact (List.mem_orderedInsert _).mpr (.inl rfl)
      exact List.ne_nil_of_mem inside
    · simpa [raiseLock, h] using spares.holds m t before

theorem sparesTurn {p j donor l donee j1} (coh : Coherent k) (spares : Spares k j)
    (walk : OnWalk p k j donor) (held : (j.lock l).holder = some donee)
    (below : (j.lock l).pri < (j.thread donor).ePri)
    (weaker : (j.thread donee).ePri < (j.thread donor).ePri)
    (ok : requeue (raised j l donee (j.thread donor).ePri) donee = .ok j1) : Spares k j1 := by
  have awake : (j.thread donee).elem ≠ some .timerSleepList := by
    intro linked
    rw [walk.so.similar.elem] at linked
    exact spares.holds l donee held (spares.free donee ((coh.links.mem _ _).mpr linked))
  have raise := sparesRaise (p := (j.thread donor).ePri) spares held
  have turn := (walkTurn walk held below weaker ok).1
  rw [walk.pri] at raise
  have ticks : j1.ticks = j.ticks := by
    obtain ⟨other, busy⟩ := walkDonee walk held weaker
    obtain ⟨_, moved⟩ := raisedLinks walk.links below weaker
    rcases requeueOk moved other busy ok with ⟨_, rfl⟩ | ⟨r, _, rfl⟩ <;> rfl
  have wakeUp : ∀ t, (j1.thread t).wakeUp = ((raiseLock j l donee p).thread t).wakeUp := by
    intro t
    rw [turn.thread]
    by_cases h : t = donee <;> simp [raised, raiseThread, h]
  have lockQueue : ∀ t, (j1.thread t).lockQueue = ((raiseLock j l donee p).thread t).lockQueue := by
    intro t
    rw [turn.thread]
    by_cases h : t = donee <;> simp [raised, raiseThread, h]
  constructor
  · exact (walkList walk held below weaker ok awake).trans spares.list
  · exact fun t => (wakeUp t).trans (raise.wakeUp t)
  · intro t inside
    rw [lockQueue]
    exact raise.free t inside
  · intro m t held'
    rw [turn.lock] at held'
    rw [lockQueue]
    exact raise.holds m t held'
  · exact ticks.trans spares.ticks

theorem sparesDonate {turns l} (coh : Coherent k) (spares : Spares k k)
    (ok : donatePriAcquire turns k k.current l = .ok k') : Spares k k' := by
  refine donateRule (fun _ j donor _ => Spares k j ∧ OnWalk k.cur.ePri k j donor) (Spares k)
    ?_ ?_ ?_ ?_ ⟨spares, donatedRefl _ k, coh.links, coh.owed.idleHolds, rfl, Nat.le_refl _⟩ ok
  · rintro _ j donor m donee ⟨spares, _⟩ _ _
    exact spares
  · rintro _ j donor m donee ⟨spares, _⟩ held _ _
    exact sparesRaise spares held
  · rintro _ j donor m donee j1 ⟨spares, walk⟩ held below weaker sorted _
    exact sparesTurn coh spares walk held below weaker sorted
  · rintro _ j donor m donee j1 next ⟨spares, walk⟩ held below weaker sorted _
    exact ⟨sparesTurn coh spares walk held below weaker sorted,
      (walkTurn walk held below weaker sorted).2⟩

theorem donateSpares {l} (own : Owned k) (coh : Coherent k) (asleep : Sleepers k)
    (ok : donateIfHeld (announce k l) l = .ok k') : Spares (announce k l) k' := by
  have first : Spares (announce k l) (announce k l) := by
    refine ⟨rfl, fun _ => rfl, ?_, ?_, rfl⟩
    · intro t inside
      have before := asleep.free t inside
      by_cases h : t = k.current <;> simpa [announce, h] using before
    · intro m t held
      have before : (k.lock m).holder = some t := by
        by_cases h : m = l <;> simpa [announce, h] using held
      have inside := List.ne_nil_of_mem ((own.held m t).mp before)
      by_cases h : t = k.current <;> simpa [announce, h] using inside
  unfold donateIfHeld at ok
  split at ok
  · exact sparesDonate (announceCoherent coh) first ok
  · cases ok
    exact first

theorem sleepersCases {f : Frame} (P : Prop) (sleeps : f = .timerSleepBlock → P)
    (acquires : ∀ l, f = .lockAcquire l → P)
    (other : f.queue ≠ some .timerSleepList → (∀ l, f ≠ .lockAcquire l) → P) : P := by
  cases f with
  | timerSleepBlock => exact sleeps rfl
  | lockAcquire l => exact acquires l rfl
  | _ => exact other (by simp [Frame.queue]) (by simp)

theorem sleepersFrame {f rest} (own : Owned k) (coh : Coherent k) (asleep : Sleepers k)
    (top : k.cur.stack = f :: rest) (frees : SleepsFree k f) (ok : runFrame k f rest = .ok k') :
    Sleepers k' := by
  refine sleepersCases (f := f) _ ?_ ?_ ?_
  · rintro rfl
    exact sleepersSleep coh top asleep frees ok
  · rintro l rfl
    obtain ⟨k1, walked, donated, coh1, _, _, so⟩ := lockAcquireElsewhere coh top ok
    have spares := donateSpares own coh asleep walked
    have asleep1 : Sleepers k1 := by
      constructor
      · rw [spares.list]
        refine sortedSame asleep.sorted fun t _ => ?_
        rw [spares.wakeUp]
        by_cases h : t = k.current <;> simp [announce, h]
      · rw [spares.list]
        exact spares.free
    have current : k1.current = k.current := donated.similar.current
    rw [← current] at so
    exact sleepersElsewhere coh1 asleep1 (by simp [Frame.queue]) so
  · intro away not
    exact sleepersElsewhere coh asleep away (runFrameElsewhere coh top not ok)

theorem sleeperStays {f rest} (coh : Coherent k) (top : k.cur.stack = f :: rest)
    (ok : runFrame k f rest = .ok k') {t} (inside : t ∈ k.list .timerSleepList) :
    t ∈ k'.list .timerSleepList := by
  refine sleepersCases (f := f) _ ?_ ?_ ?_
  · rintro rfl
    rw [(timerSleepBlockParks coh top ok).1]
    exact (List.mem_orderedInsert _).mpr (.inr inside)
  · rintro l rfl
    obtain ⟨k1, _, donated, _, _, _, so⟩ := lockAcquireElsewhere coh top ok
    rw [so.list _ (by simp) (by simp [Frame.queue]), (donated.similar.list _).mem_iff]
    exact inside
  · intro away not
    rw [(runFrameElsewhere coh top not ok).list _ (by simp) away]
    exact inside

theorem wakeSleepersDue {ts} (coh : Coherent k) (list : k.list .timerSleepList = ts)
    (sorted : ts.Pairwise (lessSleep k)) (ok : wakeSleepers k ts = .ok k') :
    ∀ t ∈ k'.list .timerSleepList, k'.ticks < (k'.thread t).wakeUp := by
  induction ts generalizing k with
  | nil =>
    cases ok
    simp [list]
  | cons t ts ih =>
    obtain ⟨first, rest⟩ := List.pairwise_cons.mp sorted
    have asleep := sleepersAsleep coh
    have nodup := coh.links.nodup .timerSleepList
    rw [list] at asleep nodup
    rcases wakeSleepersCons coh nodup asleep ok with ⟨_, _, next, _, _, last⟩ | ⟨later, rfl⟩
    · refine ih next ?_ (sortedSame rest ?_) last
      · simp [woken, park, unpark, list]
      · intro u _
        by_cases h : u = t <;> simp [woken, park, unpark, h]
    · rw [list]
      intro u inside
      rcases List.mem_cons.mp inside with rfl | behind
      · exact Int.not_le.mp later
      · exact Int.lt_of_lt_of_le (Int.not_le.mp later) (first u behind)

structure Wakes (k j : Kernel) : Prop where
  list : (j.list .timerSleepList).Sublist (k.list .timerSleepList)
  early : ∀ t ∈ k.list .timerSleepList, t ∉ j.list .timerSleepList →
    (k.thread t).wakeUp ≤ j.ticks
  wakeUp : ∀ t, (j.thread t).wakeUp = (k.thread t).wakeUp
  lockQueue : ∀ t, (j.thread t).lockQueue = (k.thread t).lockQueue

theorem wakesOne {j t} (coh : Coherent j) (wakes : Wakes k j)
    (linked : (j.thread t).elem = some .timerSleepList) (due : (j.thread t).wakeUp ≤ j.ticks) :
    Wakes k (woken j .timerSleepList t) := by
  have list : (woken j .timerSleepList t).list .timerSleepList =
      (j.list .timerSleepList).erase t := by simp [woken, park, unpark]
  constructor
  · rw [list]
    exact List.erase_sublist.trans wakes.list
  · intro u inside gone
    by_cases h : u = t
    · subst h
      rw [← wakes.wakeUp]
      exact due
    · refine wakes.early u inside fun still => gone ?_
      rw [list, (coh.links.nodup _).mem_erase_iff]
      exact ⟨h, still⟩
  · intro u
    by_cases h : u = t <;> simp [woken, park, unpark, h, wakes.wakeUp]
  · intro u
    by_cases h : u = t <;> simp [woken, park, unpark, h, wakes.lockQueue]

theorem timerInterruptEarly (coh : Coherent k) (ok : timerInterrupt k = .ok k') :
    ∃ k1, Coherent k1 ∧ Wakes {k with ticks := k.ticks + 1} k1 ∧
      wakeSleepers {k with ticks := k.ticks + 1} (k.list .timerSleepList) = .ok k1 ∧
      ∀ c f, Elsewhere c f k1 k' := by
  obtain ⟨k1, awake, coh1, after⟩ := timerInterruptWakes coh ok
  have ticked := coherentTicks (k.ticks + 1) k.threadTicks coh
  obtain ⟨_, wakes⟩ := wakeRule (Wakes {k with ticks := k.ticks + 1})
    (fun j t coh wakes linked due => wakesOne coh wakes linked due) ticked
    ⟨List.Sublist.refl _, fun t inside gone => absurd inside gone, fun _ => rfl, fun _ => rfl⟩
    (ticked.links.nodup _) (sleepersAsleep ticked) awake
  exact ⟨k1, coh1, wakes, awake, after⟩

theorem timerInterruptDue (coh : Coherent k) (asleep : Sleepers k)
    (ok : timerInterrupt k = .ok k') :
    Sleepers k' ∧ ∀ t ∈ k'.list .timerSleepList, k'.ticks < (k'.thread t).wakeUp := by
  obtain ⟨k1, coh1, wakes, awake, after⟩ := timerInterruptEarly coh ok
  have ticked := coherentTicks (k.ticks + 1) k.threadTicks coh
  have due := wakeSleepersDue ticked rfl asleep.sorted awake
  have asleep1 : Sleepers k1 := by
    constructor
    · exact sortedSame (asleep.sorted.sublist wakes.list) (fun t _ => wakes.wakeUp t)
    · intro t inside
      rw [wakes.lockQueue]
      exact asleep.free t (wakes.list.subset inside)
  have so := after k1.current .threadYield
  refine ⟨sleepersElsewhere coh1 asleep1 (by simp [Frame.queue]) so, ?_⟩
  intro t inside
  rw [so.list .timerSleepList (by simp) (by simp [Frame.queue])] at inside
  obtain ⟨other, old⟩ := sleeperElsewhere coh1 inside
  rw [so.ticks, so.wakeUp t other old]
  exact due t inside

theorem stepSleepers {a} (own : Owned k) (coh : Coherent k) (asleep : Sleepers k)
    (frees : Runs SleepsFree k a) (ok : step k a = .ok k') : Sleepers k' := by
  rcases stepOk ok with rfl | ⟨f, rest, rfl, top, ran⟩ | ⟨op, rfl, empty, rfl⟩ | ⟨rfl, _, ticked⟩
  · exact asleep
  · exact sleepersFrame own coh asleep top (frees rfl f (by rw [top]; rfl)) ran
  · exact sleepersElsewhere (f := .idle) coh asleep (by simp [Frame.queue]) elsewhereStack
  · exact (timerInterruptDue coh asleep ticked).1

theorem stepEarly {a} (coh : Coherent k) (ok : step k a = .ok k') {t}
    (inside : t ∈ k.list .timerSleepList) (gone : t ∉ k'.list .timerSleepList) :
    (k.thread t).wakeUp ≤ k'.ticks := by
  rcases stepOk ok with rfl | ⟨f, rest, rfl, top, ran⟩ | ⟨op, rfl, empty, rfl⟩ | ⟨rfl, _, ticked⟩
  · exact absurd inside gone
  · exact absurd (sleeperStays coh top ran inside) gone
  · exact absurd inside gone
  · obtain ⟨k1, _, wakes, _, after⟩ := timerInterruptEarly coh ticked
    have so := after 0 .threadYield
    rw [so.list .timerSleepList (by simp) (by simp [Frame.queue])] at gone
    rw [so.ticks]
    exact wakes.early t inside gone

end Sleepers

theorem timedSleepWithoutLocks {policy values k}
    (run : Run step (Runs SleepsFree) (boot policy values) k) : TimedSleep k := by
  obtain ⟨coh, _, asleep⟩ := run.invariant (fun k => Coherent k ∧ Owned k ∧ Sleepers k)
    ⟨bootCoherent policy values, bootOwned policy values, by simp [boot], by simp [boot]⟩ (by
      rintro u v a ⟨coh, own, asleep⟩ frees ok
      exact ⟨stepCoherent coh ok, stepOwned own coh ok, stepSleepers own coh asleep frees ok⟩)
  exact ⟨asleep.sorted, fun k' ok => (timerInterruptDue coh asleep ok).2,
    fun a k' ok t inside gone => stepEarly coh ok inside gone⟩

theorem timedSleepWithoutLocksExample :
    ∃ k, Run step (Runs SleepsFree) (boot .prio (fun _ => 0)) k ∧
      k.list .timerSleepList = [1, 2] ∧ TimedSleep k := by
  obtain ⟨k, run, found⟩ := execFinds step (Runs SleepsFree) (boot .prio (fun _ => 0))
    ([.call (.lockAcquire 1), .run] ++ creates 40 ++ [.call (.timerSleep 10), .run, .run,
      .call (.lockRelease 1), .run, .run, .call (.timerSleep 3), .run, .run])
    (fun k => decide (k.list .timerSleepList = [1, 2])) (by decide +kernel)
  exact ⟨k, run, of_decide_eq_true found, timedSleepWithoutLocks run⟩

theorem donationUnsortsSleepers :
    ∃ k, Run step (fun _ _ => True) (boot .prio (fun _ => 0)) k ∧ ¬ TimedSleep k ∧
      2 ∈ k.list .timerSleepList ∧ (k.thread 2).wakeUp ≤ k.ticks := by
  obtain ⟨k, run, found⟩ := execFinds step (fun _ _ => True) (boot .prio (fun _ => 0))
    (creates 40 ++ [.call (.timerSleep 5), .run, .run] ++ creates 50 ++ [.call (.timerSleep 1),
      .run, .run, .call (.lockAcquire 1), .run, .call (.timerSleep 100), .run, .run, .tick, .run,
      .call (.lockAcquire 1), .run, .tick, .tick, .tick, .tick, .tick])
    (fun k => decide (k.list .timerSleepList = [1, 2] ∧ (k.thread 1).wakeUp = 100 ∧
      (k.thread 2).wakeUp = 5 ∧ k.ticks = 6)) (by decide +kernel)
  obtain ⟨list, late, due, now⟩ := of_decide_eq_true found
  refine ⟨k, run, fun rule => ?_, by simp [list], by omega⟩
  have sorted := rule.sorted
  rw [list] at sorted
  simp [lessSleep, late, due] at sorted

end Pintos.Threads
