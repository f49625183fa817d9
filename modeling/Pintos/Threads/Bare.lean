import Pintos.Threads.LockView
import Pintos.Threads.Overlay
import Pintos.Userprog.Lifecycle

/-! thread_block called on its own, as the wait of intq.c, pthread_join,
process_exit_normal and pthread_exit_main do, and thread_zombie, after which nobody
unblocks the thread. It is then in no list, but its queue pointer still names the list it
was last dispatched from, and donate_pri_acquire takes a donee with a queue pointer out of
a list. -/
namespace Pintos.Threads
open Machine
open Function (update update_apply update_of_ne)

attribute [local simp] update_apply

/-- `bare` are the threads that have blocked themselves without being put anywhere. -/
structure Blocking where
  kernel : Kernel
  bare : Tid → Bool

inductive BlockingAction where
  | kernel (a : Action)
  | threadBlock
  | threadUnblock (t : Tid)
  deriving DecidableEq, Repr

def blockingStep (s : Blocking) : BlockingAction → Except Fault Blocking
  | .kernel a => do
    let k ← step s.kernel a
    .ok {s with kernel := k}
  | .threadBlock =>
    if s.kernel.cur.stack = [] then do
      let k ← threadBlock s.kernel
      .ok ⟨k, update s.bare s.kernel.current true⟩
    else .ok s
  | .threadUnblock t =>
    if s.bare t = true ∧ intrOff s.kernel = false then do
      let k ← threadUnblock s.kernel t
      .ok ⟨k, update s.bare t false⟩
    else .ok s

def blockingBoot (policy : SchedPolicy) (values : Nat → Nat) : Blocking :=
  ⟨boot policy values, fun _ => false⟩

/- The turns of donate_pri_acquire. Each entry is a donee whose queue pointer is set and
the kernel in which it is taken out of its list. -/
def removals : Nat → Kernel → Tid → LockId → List (Kernel × Tid)
  | 0, _, _, _ => []
  | turns + 1, k, donor, l =>
    match (k.lock l).holder with
    | none => []
    | some donee =>
      let p := (k.thread donor).ePri
      if p ≤ (k.lock l).pri then []
      else
        let k := raiseLock k l donee p
        if p ≤ (k.thread donee).ePri then []
        else
          let k := raiseThread k donee p
          let first := if (k.thread donee).queue = none then [] else [(k, donee)]
          match requeue k donee with
          | .error _ => first
          | .ok k =>
            match (k.thread donee).donatedFor with
            | none => first
            | some next => first ++ removals turns k donee next

def nextRemovals (k : Kernel) : List (Kernel × Tid) :=
  match k.cur.stack with
  | .lockAcquire l :: _ =>
    if (k.lock l).holder = some k.current then []
    else
      let k := announce k l
      if (k.lock l).state < 0 ∧ (k.lock l).holder ≠ none then
        removals (k.created + 1) k k.current l
      else []
  | _ => []

def Accurate (k : Kernel) (t : Tid) : Prop :=
  ∃ q, (k.thread t).queue = some q ∧ (k.thread t).elem = some q ∧ ∀ r, t ∈ k.list r ↔ r = q

/-- A thread that blocks itself without going into a list holds no lock. -/
def Unburdened (s : Blocking) : BlockingAction → Prop
  | .threadBlock => s.kernel.cur.lockQueue = []
  | _ => True

instance : ∀ s a, Decidable (Unburdened s a)
  | s, .threadBlock => inferInstanceAs (Decidable (s.kernel.cur.lockQueue = []))
  | _, .kernel _ => instDecidableTrue
  | _, .threadUnblock _ => instDecidableTrue

def unqueued (k : Kernel) (t : Tid) : Thread := {k.thread t with queue := none}

def cleared (s : Blocking) : Kernel := overlay s.bare (unqueued s.kernel) s.kernel

structure Rests (s : Blocking) : Prop where
  coh : Coherent (cleared s)
  own : Owned (cleared s)
  apart : Apart s.bare s.kernel.thread s.kernel
  rests : ∀ t, s.bare t = true → (s.kernel.thread t).status = .blocked ∧
    (s.kernel.thread t).elem = none ∧ (s.kernel.thread t).lockQueue = []

theorem clearedAt {s t} : ((cleared s).thread t).status = (s.kernel.thread t).status ∧
    ((cleared s).thread t).elem = (s.kernel.thread t).elem ∧
    ((cleared s).thread t).stack = (s.kernel.thread t).stack ∧
    ((cleared s).thread t).lockQueue = (s.kernel.thread t).lockQueue := by
  by_cases h : s.bare t = true <;> simp [cleared, overlay, unqueued, h]

theorem clearedRuns {bare : Tid → Bool} {k k' : Kernel} {f : Kernel → Except Fault Kernel}
    (aside : Aside bare k.thread k)
    (alike : ∀ other, Aside bare other k → Alike bare other (f k) (f (overlay bare other k)))
    (ok : f k = .ok k') : f (cleared ⟨k, bare⟩) = .ok (cleared ⟨k', bare⟩) ∧
      Apart bare k'.thread k' ∧ ∀ t, bare t = true → k'.thread t = k.thread t := by
  have self := alike k.thread aside
  rw [show overlay bare k.thread k = k by simp [overlay], ok] at self
  obtain ⟨apart, same⟩ : Apart bare k.thread k' ∧ k' = overlay bare k.thread k' := self
  have keeps (t) (out : bare t = true) : k'.thread t = k.thread t := by
    rw [same]
    simp [overlay, out]
  have other := alike (unqueued k) ⟨aside.idle, aside.lists, aside.holders, aside.targets,
    aside.old, fun _ _ => rfl, fun _ _ => rfl⟩
  rw [ok] at other
  obtain ⟨m, ran, _, rfl⟩ := lockstepOk other
  have moved (t) : (if bare t then unqueued k t else k'.thread t) =
      if bare t then unqueued k' t else k'.thread t := by
    by_cases out : bare t = true
    · simp only [if_pos out, unqueued, keeps t out]
    · simp only [if_neg out]
  refine ⟨?_, ⟨⟨apart.idle, apart.lists, apart.holders, apart.targets, apart.old,
    fun _ _ => rfl, fun _ _ => rfl⟩, apart.current⟩, keeps⟩
  simpa only [cleared, overlay, moved] using ran

theorem restsKernel {s a k} (rests : Rests s) (ok : step s.kernel a = .ok k) :
    Rests {s with kernel := k} := by
  obtain ⟨ran, apart, keeps⟩ := clearedRuns (f := fun k => step k a) rests.apart.toAside
    (fun _ aside => stepAlike ⟨aside, rests.apart.current⟩ a) ok
  refine ⟨stepCoherent rests.coh ran, stepOwned rests.own rests.coh ran, apart, ?_⟩
  intro t out
  rw [keeps t out]
  exact rests.rests t out

theorem runningIdle {s} (rests : Rests s) (free : s.kernel.cur.stack = []) :
    s.kernel.current ≠ s.kernel.idleThread ∧ (s.kernel.thread s.kernel.current).elem = none := by
  have stack : ((cleared s).thread s.kernel.current).stack = [] := clearedAt.2.2.1.trans free
  have pending := rests.coh.owed.pending s.kernel.current
  have placed := rests.coh.links.placed s.kernel.current
  constructor
  · intro idle
    simp [pending.idleStack idle] at stack
  · cases linked : (s.kernel.thread s.kernel.current).elem with
    | none => rfl
    | some q =>
      rw [← clearedAt.2.1] at linked
      obtain ⟨c, rfl⟩ := placed.runElem q rfl linked
      have waits := pending.condElem c (placed.running.mpr rfl) linked
      simp [stack] at waits

theorem linksRests {k : Kernel} (coh : Coherent k) (busy : k.current ≠ k.idleThread)
    (free : k.cur.elem = none) : Links (k.setThread k.current (fun th =>
      {th with status := .blocked, queue := none})) none none := by
  refine linksAt coh.links (t := k.current) (by intro u ne; simp [ne]) rfl rfl
    (runningOld coh.links rfl) (by intro u ne; simp [Ne.symm ne]) (fun _ _ => Iff.rfl) ?_
    coh.links.nodup ?_
  · intro u q
    have := coh.links.mem u q
    by_cases hu : u = k.current <;> simp_all
  · constructor <;> simp_all

theorem stacksRests {k : Kernel} (coh : Coherent k) (free : k.cur.stack = []) :
    Stacks (k.setThread k.current (fun th => {th with status := .blocked, queue := none})) := by
  refine stacksAt coh.owed (t := k.current) (by intro u ne; simp [ne]) rfl rfl rfl (by simp)
    (fun h => absurd h (runningNotOwed coh)) ?_
  obtain ⟨condBlock, condElem, idleStack, idleFrame, guarded, target, fresh⟩ :=
    coh.owed.pending k.current
  constructor <;> simp_all

theorem asideBlocked {s} (rests : Rests s) (free : s.kernel.cur.stack = [])
    (unburdened : s.kernel.cur.lockQueue = []) :
    Aside (update s.bare s.kernel.current true)
      (s.kernel.setThread s.kernel.current (fun th => {th with status := .blocked})).thread
      (s.kernel.setThread s.kernel.current (fun th => {th with status := .blocked})) := by
  obtain ⟨busy, unlinked⟩ := runningIdle rests free
  have stack (u) : ((s.kernel.setThread s.kernel.current
      (fun th => {th with status := .blocked})).thread u).stack = ((cleared s).thread u).stack := by
    rw [clearedAt.2.2.1]
    by_cases hu : u = s.kernel.current <;> simp [hu]
  have widen {t} (before : s.bare t = false) (other : t ≠ s.kernel.current) :
      update s.bare s.kernel.current true t = false := by
    rw [update_of_ne other]
    exact before
  constructor
  · exact widen rests.apart.idle busy.symm
  · intro q t mem
    refine widen (rests.apart.lists q t mem) ?_
    rintro rfl
    have linked := (rests.coh.links.mem s.kernel.current q).mp mem
    rw [clearedAt.2.1, unlinked] at linked
    contradiction
  · intro l t held
    refine widen (rests.apart.holders l t held) ?_
    rintro rfl
    have inside := (rests.own.held l s.kernel.current).mp held
    rw [clearedAt.2.2.2] at inside
    simp only [Kernel.cur] at unburdened
    simp [unburdened] at inside
  · intro u n inside
    rw [stack] at inside
    refine widen (rests.apart.targets u n (clearedAt.2.2.1 ▸ inside)) ?_
    rintro rfl
    exact runningNotOwed rests.coh ⟨u, inside⟩
  · intro t out
    by_cases other : t = s.kernel.current
    · have old : (cleared s).current < (cleared s).created := runningOld rests.coh.links rfl
      rw [other]
      exact old
    · exact rests.apart.old t (by simpa [other] using out)
  · exact fun _ _ => rfl
  · exact fun _ _ => rfl

theorem clearedBlocked {s} (rests : Rests s) :
    cleared ⟨s.kernel.setThread s.kernel.current (fun th => {th with status := .blocked}),
      update s.bare s.kernel.current true⟩ =
    (cleared s).setThread (cleared s).current
      (fun th => {th with status := .blocked, queue := none}) := by
  have here := rests.apart.current
  have moved (t) : (cleared ⟨s.kernel.setThread s.kernel.current
      (fun th => {th with status := .blocked}),
      update s.bare s.kernel.current true⟩).thread t =
      ((cleared s).setThread (cleared s).current
        (fun th => {th with status := .blocked, queue := none})).thread t := by
    by_cases ht : t = s.kernel.current
    · subst ht
      simp [cleared, overlay, unqueued, here]
    · simp [cleared, overlay, unqueued, ht]
  simpa [cleared, overlay] using funext moved

theorem restsBlock {s k} (rests : Rests s) (free : s.kernel.cur.stack = [])
    (unburdened : s.kernel.cur.lockQueue = []) (ok : threadBlock s.kernel = .ok k) :
    Rests ⟨k, update s.bare s.kernel.current true⟩ := by
  obtain ⟨busy, unlinked⟩ := runningIdle rests free
  obtain ⟨ran, apart, keeps⟩ := clearedRuns (asideBlocked rests free unburdened)
    (fun _ aside => scheduleAlike aside) ok
  rw [clearedBlocked rests] at ran
  have links := linksRests rests.coh busy (clearedAt.2.1.trans unlinked)
  have owed := stacksRests rests.coh (clearedAt.2.2.1.trans free)
  have own := ownedThread (t := (cleared s).current) (f := fun th =>
    {th with status := .blocked, queue := none}) rests.own rfl rfl rfl rfl
  refine ⟨coherentSchedule links owed ran,
    ownedSame own (undisturbedSchedule links ran).toSameLocks, apart, ?_⟩
  intro t out
  rw [keeps t out]
  by_cases ht : t = s.kernel.current
  · subst ht
    simpa using ⟨unlinked, unburdened⟩
  · simpa [ht] using rests.rests t (by simpa [ht] using out)

theorem clearedUnblocked {s t} (out : s.bare t = true) :
    cleared ⟨park s.kernel .readyList t (readyInsert s.kernel t) .ready,
      update s.bare t false⟩ =
    park (cleared s) .readyList t (readyInsert (cleared s) t) .ready := by
  have pri (u) : ((cleared s).thread u).ePri = (s.kernel.thread u).ePri := by
    by_cases h : s.bare u = true <;> simp [cleared, overlay, unqueued, h]
  have ready : readyInsert (cleared s) t = readyInsert s.kernel t := by
    have policy : (cleared s).policy = s.kernel.policy := rfl
    have list : (cleared s).list = s.kernel.list := rfl
    simp only [readyInsert, policy, list, Ordered.insertCongr (graterSame pri)]
  have moved (u) : (cleared ⟨park s.kernel .readyList t (readyInsert s.kernel t) .ready,
      update s.bare t false⟩).thread u =
      (park (cleared s) .readyList t (readyInsert (cleared s) t) .ready).thread u := by
    by_cases hu : u = t
    · subst hu
      simp [cleared, overlay, unqueued, park, out]
    · simp [cleared, overlay, unqueued, park, hu]
  rw [ready] at moved ⊢
  simpa [cleared, overlay, park] using funext moved

theorem restsUnblock {s t k} (rests : Rests s) (out : s.bare t = true)
    (ok : threadUnblock s.kernel t = .ok k) : Rests ⟨k, update s.bare t false⟩ := by
  obtain ⟨blocked, free, rfl⟩ := threadUnblockOk ok
  have unlinked : ((cleared s).thread t).elem = none := clearedAt.2.1.trans free
  have other : t ≠ s.kernel.current := by
    rintro rfl
    simp [rests.apart.current] at out
  have busy : t ≠ s.kernel.idleThread := by
    rintro rfl
    simp [rests.apart.idle] at out
  have nobody : ¬ Owed (cleared s) t := by
    rintro ⟨u, inside⟩
    simp [rests.apart.targets u t (clearedAt.2.2.1 ▸ inside)] at out
  have awake {u} (before : s.bare u = false) : update s.bare t false u = false := by
    by_cases hu : u = t <;> simp [hu, before]
  have stays : ∀ u, update s.bare t false u = true → u ≠ t ∧ s.bare u = true := by
    intro u
    by_cases hu : u = t <;> simp [hu]
  refine ⟨?_, ?_, ⟨⟨awake rests.apart.idle, ?_, ?_, ?_, ?_, fun _ _ => rfl, fun _ _ => rfl⟩,
    awake rests.apart.current⟩, ?_⟩
  · rw [clearedUnblocked out]
    refine ⟨linksPark rests.coh.links (.inr ⟨?_, rfl⟩) (.inl rfl) unlinked (readyInsertPerm _ t) busy
      (rests.apart.old t out) (.inl ⟨rfl, rfl⟩), stacksPark rests.coh.owed unlinked (by simp) nobody⟩
    exact fun same => other (Option.some.inj same).symm
  · rw [clearedUnblocked out]
    exact ownedSame rests.own (undisturbedPark (by simp) unlinked).toSameLocks
  · intro q u mem
    by_cases hu : u = t
    · simp [hu]
    · refine awake (rests.apart.lists q u ?_)
      by_cases hq : q = .readyList
      · subst hq
        have inside := (readyInsertPerm s.kernel t).mem_iff.mp (by simpa [park] using mem)
        exact (List.mem_cons.mp inside).resolve_left hu
      · simpa [park, hq] using mem
  · exact fun l u held => awake (rests.apart.holders l u held)
  · intro u n inside
    refine awake (rests.apart.targets u n ?_)
    by_cases hu : u = t <;> simpa [park, hu] using inside
  · exact fun u still => rests.apart.old u (stays u still).2
  · intro u still
    obtain ⟨hu, before⟩ := stays u still
    simpa [park, hu] using rests.rests u before

theorem restsBoot (policy values) : Rests (blockingBoot policy values) := by
  have same : cleared (blockingBoot policy values) = boot policy values := by
    simp [cleared, overlay, blockingBoot]
  refine ⟨same ▸ bootCoherent policy values, same ▸ bootOwned policy values, ?_, ?_⟩
  · refine ⟨⟨rfl, fun _ _ _ => rfl, fun _ _ _ => rfl, fun _ _ _ => rfl, ?_, ?_, ?_⟩, rfl⟩
    all_goals exact fun t out => by simp [blockingBoot] at out
  · exact fun t out => by simp [blockingBoot] at out

theorem restsStep {s s' a} (rests : Rests s) (allowed : Unburdened s a)
    (ok : blockingStep s a = .ok s') : Rests s' := by
  cases a with
  | kernel a =>
    obtain ⟨k, ran, last⟩ := bindOk.mp ok
    cases last
    exact restsKernel rests ran
  | threadBlock =>
    simp only [blockingStep] at ok
    split at ok
    · rename_i free
      obtain ⟨k, ran, last⟩ := bindOk.mp ok
      cases last
      exact restsBlock rests free allowed ran
    · cases ok
      exact rests
  | threadUnblock t =>
    simp only [blockingStep] at ok
    split at ok
    · rename_i out
      obtain ⟨k, ran, last⟩ := bindOk.mp ok
      cases last
      exact restsUnblock rests out.1 ran
    · cases ok
      exact rests

theorem runRests {policy values s} (run : Run blockingStep Unburdened (blockingBoot policy values) s) :
    Rests s :=
  run.invariant Rests (restsBoot policy values) (fun _ _ _ rests allowed ok =>
    restsStep rests allowed ok)

section Walk
variable {away : Tid → Bool} {other : Tid → Thread} {p : Nat} {k j : Kernel} {donor donee : Tid}
  {l : LockId}

theorem raisedApart (apart : Apart away other k) (here : away donee = false) :
    Apart away other (raised k l donee p) ∧
      raised (overlay away other k) l donee p = overlay away other (raised k l donee p) := by
  obtain ⟨apart1, same1⟩ := raiseLockApart (l := l) (p := p) apart here
  obtain ⟨apart2, same2⟩ := raiseThreadApart (p := p) apart1 here
  exact ⟨apart2, by rw [raised, same1, same2]; rfl⟩

theorem doneeAccurate (apart : Apart away other k)
    (walk : OnWalk p j (overlay away other k) donor) (held : (k.lock l).holder = some donee)
    (below : (k.lock l).pri < p) (weaker : (k.thread donee).ePri < p)
    (queued : ((raised k l donee p).thread donee).queue ≠ none) :
    Accurate (raised k l donee p) donee := by
  have here := apart.holders l donee held
  obtain ⟨_, same⟩ := raisedApart (l := l) (p := p) apart here
  have weaker' : ((overlay away other k).thread donee).ePri < p := by rwa [overlayAt here]
  obtain ⟨otherwise, busy⟩ := walkDonee walk held (by rwa [walk.pri])
  obtain ⟨_, links⟩ := raisedLinks (l := l) walk.links below weaker'
  rw [same] at links
  have recorded := (links.placed donee).queue (fun runs => otherwise (Option.some.inj runs).symm)
    (by simp) busy
  rw [overlayAt here] at recorded
  obtain ⟨q, points⟩ := Option.ne_none_iff_exists'.mp queued
  refine ⟨q, points, recorded ▸ points, fun r => ?_⟩
  have mem := links.mem donee r
  rw [overlayAt here, ← recorded, points] at mem
  exact mem.trans ⟨fun h => (Option.some.inj h).symm, fun h => congrArg some h.symm⟩

theorem removalsAccurate {turns} (apart : Apart away other k) (here : away donor = false)
    (walk : OnWalk p j (overlay away other k) donor) :
    ∀ r ∈ removals turns k donor l, Accurate r.1 r.2 := by
  induction turns generalizing k donor l with
  | zero => simp [removals]
  | succ turns ih =>
    have pri : (k.thread donor).ePri = p := by rw [← walk.pri, overlayAt here]
    unfold removals
    split
    · simp
    · rename_i donee held
      have there := apart.holders l donee held
      simp only [pri]
      split
      · simp
      · rename_i below
        split
        · simp
        · rename_i weaker
          replace below := Nat.lt_of_not_le below
          replace weaker : (k.thread donee).ePri < p := by
            simpa [raiseLock] using weaker
          have first : ∀ r ∈ (if ((raised k l donee p).thread donee).queue = none then [] else
              [(raised k l donee p, donee)]), Accurate r.1 r.2 := by
            intro r mem
            split at mem
            · simp at mem
            · rename_i queued
              rw [List.mem_singleton.mp mem]
              exact doneeAccurate apart walk held below weaker queued
          split
          · exact first
          · rename_i k1 sorted
            split
            · exact first
            · rename_i next waits
              intro r mem
              rcases List.mem_append.mp mem with now | later
              · exact first r now
              · obtain ⟨apart1, same⟩ := raisedApart (l := l) (p := p) apart there
                have moved := requeueAlike apart1 there
                rw [show requeue (raised k l donee p) donee = .ok k1 from sorted] at moved
                obtain ⟨m, ran, apart2, rfl⟩ := lockstepOk moved
                rw [← same] at ran
                have turn := walkTurn walk held (by rw [walk.pri]; exact below)
                  (by rw [walk.pri, overlayAt there]; exact weaker) (by rw [walk.pri]; exact ran)
                exact ih apart2 there turn.2 r later

end Walk

theorem nextAccurate {s} (rests : Rests s) : ∀ r ∈ nextRemovals s.kernel, Accurate r.1 r.2 := by
  have apart : Apart s.bare (unqueued s.kernel) s.kernel :=
    ⟨⟨rests.apart.idle, rests.apart.lists, rests.apart.holders, rests.apart.targets,
      rests.apart.old, fun _ _ => rfl, fun _ _ => rfl⟩, rests.apart.current⟩
  unfold nextRemovals
  split
  · rename_i l rest top
    split
    · simp
    · simp only
      split
      · obtain ⟨apart1, same⟩ := announceApart (l := l) apart
        have coh := announceCoherent (l := l) rests.coh
        rw [cleared, same] at coh
        refine removalsAccurate apart1 apart1.current ⟨donatedRefl _ _, coh.links,
          coh.owed.idleHolds, rfl, Nat.le_refl _⟩
      · simp
  · simp

theorem exitVisitKeepsLists (s : Userprog.State) (pos : Userprog.Tid) :
    Userprog.exitVisit s pos =
      if (s.thread pos).freed then .error (.freedThread pos)
      else if (s.thread pos).inHandler = false then
        Userprog.wakeUpJoiner (Userprog.exitHelper s pos) pos
      else .ok s := by
  have skips : Userprog.exitHelperRemoveFromList (Userprog.exitHelper s pos) pos =
      .ok (Userprog.exitHelper s pos) := by
    simp [Userprog.exitHelperRemoveFromList, Userprog.exitHelper]
  unfold Userprog.exitVisit
  split
  · rfl
  · split
    · show (Userprog.exitHelperRemoveFromList (Userprog.exitHelper s pos) pos >>=
        fun s => Userprog.wakeUpJoiner s pos) = _
      rw [skips]
      rfl
    · rfl

end Pintos.Threads
