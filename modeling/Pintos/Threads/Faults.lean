import Pintos.Threads.Preserve

/-! What a coherent kernel can fault on. list.c is only ever handed a linked node to
remove, and thread_unblock a blocked thread to wake; what is left are the assertions
about the caller, the donation walk, and the node of a thread that gives up the
processor inside cond_wait. -/
namespace Pintos.Threads
open Machine

attribute [local simp] Function.update_apply

def Frame.links : Frame → Bool
  | .threadYield | .semaDown _ | .semaDownLoop _ | .lockAcquire _ | .lockAcquireLoop _ => true
  | .condWait _ _ | .timerSleepBlock => true
  | _ => false

def Relinks (k : Kernel) : Action → Prop
  | .run => ∃ f rest, k.cur.stack = f :: rest ∧ f.links = true
  | .tick => timeSlice ≤ k.threadTicks + 1
  | .call _ => False

inductive Fails (k : Kernel) (a : Action) : Fault → Prop where
  | policy : Fails k a (.assertion .schedPolicy)
  | notHeld : Fails k a (.assertion .lockNotHeld)
  | held : Fails k a (.assertion .lockHeld)
  | empty {f rest c} (top : k.cur.stack = f :: rest) (pops : f.pops = some c)
      (none : k.list (.condWaiters c) = []) : Fails k a (.assertion .listNotEmpty)
  | turns : Fails k a .walk
  | donee {l rest} (runs : a = .run) (top : k.cur.stack = .lockAcquire l :: rest)
      (lost : donateIfHeld (announce k l) l = .error (.assertion .doneeNotNull)) :
      Fails k a (.assertion .doneeNotNull)
  | twice {c} (linked : k.cur.elem = some (.condWaiters c)) (again : Relinks k a) :
      Fails k a (.linkedTwice k.current)

section Functions
variable {bad : Fault → Prop} {k : Kernel}

theorem neverRemove {t q} (linked : (k.thread t).elem = some q) :
    Never bad (listRemove k t) := by
  unfold listRemove
  rw [linked]
  exact neverOk _

theorem neverLink {q t xs} (free : (k.thread t).elem = none) : Never bad (link k q t xs) := by
  unfold link
  rw [if_pos free]
  exact neverOk _

section
variable (policy : ¬ bad (.assertion .schedPolicy))
include policy

theorem neverEnqueue {t}
    (free : (k.thread t).elem = none) : Never bad (threadEnqueue k t) := by
  unfold threadEnqueue
  simp only
  split
  · exact neverLink (by simpa using free)
  · exact neverLink (by simpa using free)
  all_goals exact neverError policy

theorem neverUnblock {t}
    (blocked : (k.thread t).status = .blocked) (free : (k.thread t).elem = none) :
    Never bad (threadUnblock k t) := by
  unfold threadUnblock
  rw [if_pos blocked]
  exact neverBind (neverEnqueue policy free) (fun _ _ => neverOk _)

theorem neverWake {run t q} {β : Type} {next : Kernel → Except Fault β}
    (links : Links k run none) (other : run ≠ some t)
    (linked : (k.thread t).elem = some q) (wait : q ≠ .readyList)
    (after : ∀ k1 k2, listRemove k t = .ok k1 → threadUnblock k1 t = .ok k2 → Never bad (next k2)) :
    Never bad (do let k1 ← listRemove k t; let k2 ← threadUnblock k1 t; next k2) := by
  have blocked := (links.placed t).waiting q other linked wait
  refine neverBind (neverRemove linked) fun k1 rem => neverBind ?_ fun k2 ok => after k1 k2 rem ok
  obtain ⟨q, _, rfl⟩ := listRemoveOk rem
  exact neverUnblock policy (by simpa [unpark] using blocked) (by simp [unpark])

theorem neverSchedule (links : Links k none none) :
    Never bad (schedule k) := by
  unfold schedule
  split
  · exact neverError policy
  · exact neverError policy
  all_goals
    split
    · exact neverOk _
    · rename_i t rest front
      have linked := (links.mem t .readyList).mp (by rw [front]; exact List.mem_cons_self)
      exact neverBind (neverRemove linked) (fun _ _ => neverOk _)
end

theorem neverLinkRunning {q xs} (twice : k.cur.elem ≠ none → ¬ bad (.linkedTwice k.current)) :
    Never bad (link k q k.current xs) := by
  unfold link
  split
  · exact neverOk _
  · exact neverError (twice (by assumption))

section
variable (policy : ¬ bad (.assertion .schedPolicy)) (twice : k.cur.elem ≠ none → ¬ bad (.linkedTwice k.current)) (coh : Coherent k)
include policy twice coh

theorem neverYield : Never bad (threadYield k) := by
  unfold threadYield enqueueUnlessIdle
  split
  · rename_i idle
    have links := coh.links
    rw [idle] at links
    refine neverBind (neverOk _) fun k1 same => neverSchedule policy ?_
    cases same
    rw [idle]
    exact linksIdleStops links (by simp)
  · rename_i busy
    refine neverBind ?_ fun k1 enq => ?_
    · unfold threadEnqueue
      simp only
      split
      · exact neverLinkRunning (k := k.setThread _ _) (by simpa using twice)
      · exact neverLinkRunning (k := k.setThread _ _) (by simpa using twice)
      all_goals exact neverError policy
    · obtain ⟨free, rfl⟩ := threadEnqueueOk enq
      have parked := linksYield coh.links busy free
      refine neverSchedule policy ?_
      simpa [park] using parked

theorem neverSleep {q before} [DecidableRel before]
    (busy : k.current ≠ k.idleThread) (wait : q ≠ .readyList) :
    Never bad (sleepOn k q before) := by
  refine neverBind (neverLinkRunning twice) fun k1 linked => ?_
  obtain ⟨free, rfl⟩ := linkOk linked
  have parked := linksSleep before coh.links busy wait free
  refine neverSchedule policy ?_
  simpa [park] using parked
end

theorem neverRequeue {t} (links : Links k (some k.current) none) (other : t ≠ k.current)
    (busy : t ≠ k.idleThread) : Never bad (requeue k t) := by
  have recorded := (links.placed t).queue (by simpa using other.symm) (by simp) busy
  unfold requeue
  split
  · exact neverOk _
  · rename_i q waits
    refine neverBind (neverRemove (recorded.symm.trans waits)) fun k1 rem => ?_
    obtain ⟨q, _, rfl⟩ := listRemoveOk rem
    exact neverLink (by simp [unpark])

theorem walkStarts (coh : Coherent k) : OnWalk k.cur.ePri k k k.current :=
  ⟨donatedRefl _ k, coh.links, coh.owed.idleHolds, rfl, Nat.le_refl _⟩

theorem neverDonate {p j turns donor l} (inv : Kernel → LockId → Prop) (turned : ¬ bad .walk)
    (donee : ∀ u m, inv u m → (u.lock m).holder = none → ¬ bad (.assertion .doneeNotNull))
    (goesOn : ∀ u v m n t, inv u m → (u.lock m).holder = some t → t ≠ u.current →
      Donated p u v → (v.thread t).donatedFor = some n → inv v n)
    (first : inv k l) (walk : OnWalk p j k donor) :
    Never bad (donatePriAcquire turns k donor l) := by
  induction turns generalizing k donor l with
  | zero => exact neverError turned
  | succ turns ih =>
    unfold donatePriAcquire
    split
    · rename_i nobody
      exact neverError (donee k l first nobody)
    rename_i holder held
    simp only
    split
    · exact neverOk _
    rename_i below
    have unchanged : ((raiseLock k l holder (k.thread donor).ePri).thread holder).ePri =
        (k.thread holder).ePri := by simp [raiseLock]
    rw [unchanged]
    split
    · exact neverOk _
    rename_i weaker
    have below' := Nat.lt_of_not_le below
    have weaker' := Nat.lt_of_not_le weaker
    have other : holder ≠ k.current := by
      rintro rfl
      have := walk.top
      rw [walk.pri] at weaker
      exact weaker this
    refine neverBind ?_ fun k1 sorted => ?_
    · have busy : holder ≠ k.idleThread := fun h => walk.holds l (h ▸ held)
      have first := donatedRaiseLock (t := holder) below'
      have still : ((raiseLock k l holder (k.thread donor).ePri).thread holder).ePri <
          (k.thread donor).ePri := by simpa [raiseLock] using weaker'
      have both := donatedTrans first (donatedRaiseThread still)
      have moved := linksSimilar walk.links both.similar
      exact neverRequeue moved other busy
    · obtain ⟨turn, walk'⟩ := walkTurn walk held below' weaker' sorted
      split
      · exact neverOk _
      · rename_i next waits
        exact ih (goesOn _ _ _ _ _ first held other turn.donated waits) walk'

section
variable (policy : ¬ bad (.assertion .schedPolicy)) (twice : k.cur.elem ≠ none → ¬ bad (.linkedTwice k.current)) (coh : Coherent k)
include policy twice coh

theorem neverDown {s f rest}
    (top : k.cur.stack = f :: rest) (not : f ≠ .idle) (quiet : f.owes = false)
    (outer : f.nested = false) : Never bad (semaDown k s rest) := by
  unfold semaDown
  split
  · have placed : Coherent (k.setStack (.semaDownLoop s :: rest)) :=
      coherentReplace [.semaDownLoop s] coh top not quiet (by simp [Frame.owes])
        (by simp [outer])
    have busy := currentBusy coh top not
    exact neverSleep policy (by simpa using twice) placed busy (by simp)
  · exact neverOk _

theorem neverAcquireLoop {l f rest}
    (top : k.cur.stack = f :: rest) (not : f ≠ .idle) (quiet : f.owes = false) :
    Never bad (lockAcquireLoop k l rest) := by
  unfold lockAcquireLoop
  split
  · have placed : Coherent (k.setStack (.lockAcquireLoop l :: rest)) :=
      coherentReplace [.lockAcquireLoop l] coh top not quiet (by simp [Frame.owes])
        (by simp [Frame.nested])
    have busy := currentBusy coh top not
    exact neverSleep policy (by simpa using twice) placed busy (by simp)
  · exact neverOk _
end

theorem neverUp {s rest} (policy : ¬ bad (.assertion .schedPolicy)) (coh : Coherent k) :
    Never bad (semaUp k s rest) := by
  unfold semaUp
  split
  · exact neverOk _
  · rename_i t others front
    have inside : t ∈ k.list (.semaWaiters s) := by rw [front]; exact List.mem_cons_self
    have other := waiterStopped coh inside (by simp)
    exact neverWake policy coh.links (by simpa using other.symm) ((coh.links.mem t _).mp inside)
      (by simp) (fun _ _ _ _ => neverOk _)

theorem neverPop {c after} (coh : Coherent k)
    (empty : k.list (.condWaiters c) = [] → ¬ bad (.assertion .listNotEmpty)) :
    Never bad (condPop k c after) := by
  unfold condPop
  split
  · exact neverError (empty (by assumption))
  · rename_i t others front
    have inside : t ∈ k.list (.condWaiters c) := by rw [front]; exact List.mem_cons_self
    exact neverBind (neverRemove ((coh.links.mem t _).mp inside)) (fun _ _ => neverOk _)

theorem neverSleepers {ts} (policy : ¬ bad (.assertion .schedPolicy)) (coh : Coherent k)
    (nodup : ts.Nodup) (asleep : ∀ u ∈ ts, (k.thread u).elem = some .timerSleepList) :
    Never bad (wakeSleepers k ts) := by
  induction ts generalizing k with
  | nil => exact neverOk _
  | cons t ts ih =>
    obtain ⟨fresh, nodup⟩ := List.nodup_cons.mp nodup
    have here := asleep t List.mem_cons_self
    have other := waiterStopped coh ((coh.links.mem t _).mpr here) (by simp)
    unfold wakeSleepers
    split
    · refine neverWake policy coh.links (by simpa using other.symm) here (by simp) ?_
      intro k1 k2 rem unblocked
      refine ih (coherentWake coh other rem unblocked).1 nodup ?_
      obtain ⟨q, _, _, rfl⟩ := wakeOk rem unblocked
      intro u inside
      have apart : u ≠ t := by rintro rfl; exact fresh inside
      simpa [woken, park, unpark, apart] using asleep u (List.mem_cons_of_mem _ inside)
    · exact neverOk _

end Functions

section Steps
variable {k : Kernel}

theorem linkedInCondition {a} (coh : Coherent k) (again : Relinks k a) :
    k.cur.elem ≠ none → ¬ ¬ Fails k a (.linkedTwice k.current) := by
  intro linked
  obtain ⟨q, elem⟩ := Option.ne_none_iff_exists'.mp linked
  obtain ⟨c, rfl⟩ := (coh.links.placed k.current).runElem q rfl elem
  exact not_not_intro (.twice elem again)

theorem runFrameFails {f rest} (coh : Coherent k) (top : k.cur.stack = f :: rest) :
    Never (fun e => ¬ Fails k .run e) (runFrame k f rest) := by
  have policy : ¬ ¬ Fails k .run (.assertion .schedPolicy) := not_not_intro .policy
  have notHeld : ¬ ¬ Fails k .run (.assertion .lockNotHeld) := not_not_intro .notHeld
  have held : ¬ ¬ Fails k .run (.assertion .lockHeld) := not_not_intro .held
  have twice : f.links = true → k.cur.elem ≠ none →
      ¬ ¬ Fails k .run (.linkedTwice k.current) := fun links =>
    linkedInCondition coh ⟨f, rest, top, links⟩
  cases f with
  | threadYield =>
    exact neverYield policy (by simpa using twice rfl) (coherentPop coh top (by simp) rfl)
  | threadUnblock t =>
    have owed := coh.owed.owing k.current t (by
      simp only [Kernel.cur] at top
      simp [top])
    exact neverBind (neverUnblock policy owed.1 owed.2) (fun _ _ => neverOk _)
  | idle =>
    have idle := (coh.owed.pending k.current).idleFrame (by
      simp only [Kernel.cur] at top
      simp [top])
    have links := coh.links
    rw [idle] at links
    refine neverSchedule policy ?_
    rw [idle]
    exact linksIdleStops links (by simp)
  | semaDown s | semaDownLoop s => exact neverDown policy (twice rfl) coh top (by simp) rfl rfl
  | semaUp s => exact neverUp policy coh
  | lockAcquire l =>
    simp only [runFrame, lockAcquire]
    split
    · exact neverError notHeld
    have announced := announceCoherent (l := l) coh
    refine neverBind ?_ fun k1 walked => ?_
    · intro e stops
      by_cases lost : e = .assertion .doneeNotNull
      · subst lost
        exact not_not_intro (.donee rfl top stops)
      · -- the other faults of the walk
        have walk : Never (fun e => ¬ Fails k .run e ∧ e ≠ .assertion .doneeNotNull)
            (donateIfHeld (announce k l) l) := by
          unfold donateIfHeld
          split
          · exact neverDonate (fun _ _ => True) (fun h => h.1 .turns) (fun _ _ _ _ h => h.2 rfl)
              (fun _ _ _ _ _ _ _ _ _ _ => trivial) trivial (walkStarts announced)
          · exact neverOk _
        exact fun bad => walk e stops ⟨bad, lost⟩
    · have donated := donateIfHeldDonated announced walked
      have same := donated.similar
      have stack : k1.cur.stack = .lockAcquire l :: rest :=
        similarTop same (by simpa [announce] using top)
      refine neverAcquireLoop policy ?_ (coherentDonated announced donated) stack (by simp) rfl
      have elem : k1.cur.elem = k.cur.elem := by
        simp only [Kernel.cur, same.current, same.elem]
        simp [announce]
      have current : k1.current = k.current := same.current
      rw [elem, current]
      exact twice rfl
  | lockAcquireLoop l => exact neverAcquireLoop policy (twice rfl) coh top (by simp) rfl
  | lockTryAcquire l =>
    simp only [runFrame, lockTryAcquire]
    split
    · exact neverError notHeld
    split <;> exact neverOk _
  | lockRelease l =>
    simp only [runFrame, lockRelease]
    split
    · exact neverOk _
    · exact neverError held
  | condWait c l =>
    simp only [runFrame, condWait]
    split
    · exact neverBind (neverLinkRunning (twice rfl)) (fun _ _ => neverOk _)
    · exact neverError held
  | condWaitBlock c =>
    have linked := ((coh.owed.pending k.current).condBlock c (by
      simp only [Kernel.cur] at top
      simp [top])).2
    exact neverSchedule policy (condWaitBlockLinks coh (currentBusy coh top (by simp)) linked)
  | condSignal c l =>
    simp only [runFrame, condSignal]
    split
    · split <;> exact neverOk _
    · exact neverError held
  | condSignalPop c | condBroadcastPop c flag =>
    exact neverPop coh (fun none => not_not_intro (.empty top rfl none))
  | timerSleepBlock =>
    have busy := currentBusy coh top (by simp)
    exact neverSleep policy (by simpa using twice rfl) (coherentPop coh top (by simp) rfl) busy
      (by simp)
  | _ => exact neverOk _

theorem tickFails (coh : Coherent k) : Never (fun e => ¬ Fails k .tick e) (timerInterrupt k) := by
  have policy : ¬ ¬ Fails k .tick (.assertion .schedPolicy) := not_not_intro .policy
  have ticked := coherentTicks (k.ticks + 1) k.threadTicks coh
  unfold timerInterrupt
  refine neverBind (neverSleepers policy ticked (ticked.links.nodup _) (sleepersAsleep ticked))
    fun k1 awake => ?_
  obtain ⟨woke, ticks, current, elem⟩ := wakeRule (fun j => j.threadTicks = k.threadTicks ∧
    j.current = k.current ∧ j.cur.elem = k.cur.elem) (fun j t coh' so linked _ => by
      have other := waiterStopped coh' ((coh'.links.mem t _).mpr linked) (by simp)
      refine ⟨so.1, so.2.1, ?_⟩
      simpa [woken, park, unpark, other.symm] using so.2.2)
    ticked ⟨rfl, rfl, rfl⟩ (ticked.links.nodup _) (sleepersAsleep ticked) awake
  simp only
  split
  · rename_i slice
    rw [ticks] at slice
    refine neverYield policy ?_ (coherentTicks k1.ticks (k1.threadTicks + 1) woke)
    have twice := linkedInCondition (a := .tick) coh slice
    rw [← elem, ← current] at twice
    exact twice
  · exact neverOk _

theorem stepFails {a e} (coh : Coherent k) (stops : step k a = .error e) : Fails k a e := by
  cases a with
  | run =>
    simp only [step, run] at stops
    split at stops
    · contradiction
    · rename_i f rest top
      exact not_not.mp (runFrameFails coh top e stops)
  | call op => contradiction
  | tick =>
    simp only [step] at stops
    split at stops
    · contradiction
    · exact not_not.mp (tickFails coh e stops)

end Steps

end Pintos.Threads
