import Pintos.Lib.Ordered
import Pintos.Threads.Step

/-! Which thread is in which list. `Links k run hand` says that every node is
where its thread's status and queue pointer say it is: `run` is the running
thread (none inside the scheduler) and `hand` a thread just taken out of its
list and not yet put anywhere. `Stacks` is what the frames still to be executed
promise about it. Every frame keeps both, whatever the interleaving. -/
namespace Pintos.Threads
open Machine

attribute [local simp] Function.update_apply

structure Placed (th : Thread) (runs held idle : Prop) : Prop where
  running : th.status = .running ↔ runs
  ready : th.elem = some .readyList → th.status = .ready
  readyLinked : th.status = .ready → ¬ idle → ¬ held → th.elem = some .readyList
  waiting : ∀ q, ¬ runs → th.elem = some q → q ≠ .readyList → th.status = .blocked
  queue : ¬ runs → ¬ held → ¬ idle → th.queue = th.elem
  runElem : ∀ q, runs → th.elem = some q → ∃ c, q = .condWaiters c
  idleElem : idle → th.elem = none

structure Links (k : Kernel) (run hand : Option Tid) : Prop where
  mem : ∀ t q, t ∈ k.list q ↔ (k.thread t).elem = some q
  nodup : ∀ q, (k.list q).Nodup
  placed : ∀ t, Placed (k.thread t) (run = some t) (hand = some t) (t = k.idleThread)
  fresh : ∀ t, k.created ≤ t → (k.thread t).elem = none ∧ (k.thread t).status = .blocked
  idleOld : k.idleThread < k.created

def Frame.nested : Frame → Bool
  | .lockAcquire _ | .lockAcquireLoop _ | .lockRelease _ => true
  | .semaUp _ | .semaUpTail _ | .threadYield => true
  | _ => false

def Frame.owes : Frame → Bool
  | .condWaitBlock _ | .threadUnblock _ => true
  | _ => false

def Guarded : List Frame → Prop
  | [] => True
  | f :: rest => (f.nested = false → ∀ g ∈ rest, g.owes = false) ∧ Guarded rest

structure Pending (idle created : Nat) (t : Tid) (th : Thread) : Prop where
  condBlock : ∀ c, .condWaitBlock c ∈ th.stack →
    th.status = .running ∧ th.elem = some (.condWaiters c)
  condElem : ∀ c, th.status = .running → th.elem = some (.condWaiters c) →
    .condWaitBlock c ∈ th.stack
  idleStack : t = idle → th.stack = [.idle]
  idleFrame : .idle ∈ th.stack → t = idle
  guarded : Guarded th.stack
  target : ∀ n, .threadUnblock n ∈ th.stack → n ≠ idle ∧ n < created
  fresh : created ≤ t → th.stack = []

structure Stacks (k : Kernel) : Prop where
  pending : ∀ t, Pending k.idleThread k.created t (k.thread t)
  idleHolds : ∀ l, (k.lock l).holder ≠ some k.idleThread
  owing : ∀ u n, .threadUnblock n ∈ (k.thread u).stack →
    (k.thread n).status = .blocked ∧ (k.thread n).elem = none
  single : ∀ u v n, .threadUnblock n ∈ (k.thread u).stack →
    .threadUnblock n ∈ (k.thread v).stack → u = v

def Owed (k : Kernel) (t : Tid) : Prop := ∃ u, .threadUnblock t ∈ (k.thread u).stack

theorem notOwedRunning {k t} (owed : Stacks k) (not : (k.thread t).status ≠ .blocked) :
    ¬ Owed k t := fun ⟨u, h⟩ => not (owed.owing u t h).1

theorem notOwedLinked {k t q} (owed : Stacks k) (linked : (k.thread t).elem = some q) :
    ¬ Owed k t := fun ⟨u, h⟩ => by simp [(owed.owing u t h).2] at linked

theorem notOwedIdle {k} (owed : Stacks k) : ¬ Owed k k.idleThread :=
  fun ⟨u, h⟩ => ((owed.pending u).target _ h).1 rfl

def park (k : Kernel) (q : Queue) (t : Tid) (xs : List Tid) (st : ThreadStatus) : Kernel :=
  (k.setList q xs).setThread t (fun th => {th with elem := some q, queue := some q, status := st})

def unpark (k : Kernel) (q : Queue) (t : Tid) : Kernel :=
  (k.setList q ((k.list q).erase t)).setThread t (fun th => {th with elem := none})

theorem listRemoveOk {k t k'} (ok : listRemove k t = .ok k') :
    ∃ q, (k.thread t).elem = some q ∧ k' = unpark k q t := by
  unfold listRemove at ok
  split at ok <;> try contradiction
  rename_i q linked
  exact ⟨q, linked, (Except.ok.inj ok).symm⟩

theorem linkOk {k q t xs k'} (ok : link k q t xs = .ok k') : (k.thread t).elem = none ∧
    k' = (k.setList q xs).setThread t (fun th => {th with elem := some q}) := by
  unfold link at ok
  split at ok <;> try contradiction
  rename_i free
  exact ⟨free, (Except.ok.inj ok).symm⟩

def readyInsert (k : Kernel) (t : Tid) : List Tid :=
  match k.policy with
  | .prio => (k.list .readyList).orderedInsert (graterThreadPri k) t
  | _ => k.list .readyList ++ [t]

theorem readyInsertPerm (k t) : (readyInsert k t).Perm (t :: k.list .readyList) := by
  unfold readyInsert
  split
  · exact List.perm_orderedInsert _ _ _
  · exact List.perm_append_singleton _ _

theorem graterSame {k k' : Kernel} (same : ∀ t, (k'.thread t).ePri = (k.thread t).ePri) (a b) :
    graterThreadPri k' a b ↔ graterThreadPri k a b := by
  simp only [graterThreadPri, same]

theorem threadEnqueueOk {k t k'} (ok : threadEnqueue k t = .ok k') : (k.thread t).elem = none ∧
    k' = park k .readyList t (readyInsert k t) (k.thread t).status := by
  have same : ∀ u, ((k.setThread t (fun th => {th with queue := some .readyList})).thread u).ePri =
      (k.thread u).ePri := by
    intro u
    by_cases h : u = t <;> simp [h]
  unfold threadEnqueue at ok
  simp only at ok
  split at ok <;> try contradiction
  all_goals
    rename_i policy
    obtain ⟨free, rfl⟩ := linkOk ok
    refine ⟨by simpa using free, ?_⟩
    have pol : k.policy = _ := policy
    simp only [park, readyInsert, pol]
  · simp
  · rw [Ordered.insertCongr (graterSame same)]
    simp

theorem threadUnblockOk {k t k'} (ok : threadUnblock k t = .ok k') :
    (k.thread t).status = .blocked ∧ (k.thread t).elem = none ∧
    k' = park k .readyList t (readyInsert k t) .ready := by
  unfold threadUnblock at ok
  split at ok <;> try contradiction
  rename_i blocked
  obtain ⟨k1, enq, last⟩ := bindOk.mp ok
  obtain ⟨free, rfl⟩ := threadEnqueueOk enq
  refine ⟨blocked, free, ?_⟩
  rw [← Except.ok.inj last]
  simp [park]

theorem threadYieldOk {k k'} (ok : threadYield k = .ok k') :
    (k.current = k.idleThread ∧
      schedule (k.setThread k.current (fun th => {th with status := .ready})) = .ok k') ∨
    (k.current ≠ k.idleThread ∧ k.cur.elem = none ∧
      schedule (park k .readyList k.current (readyInsert k k.current) .ready) = .ok k') := by
  unfold threadYield at ok
  obtain ⟨k1, enq, last⟩ := bindOk.mp ok
  unfold enqueueUnlessIdle at enq
  split at enq
  · rename_i idle
    cases enq
    exact .inl ⟨idle, last⟩
  · rename_i busy
    obtain ⟨free, rfl⟩ := threadEnqueueOk enq
    refine .inr ⟨busy, free, ?_⟩
    rw [← last]
    simp [park]

theorem sleepOnOk {k q before} [DecidableRel before] {k'} (ok : sleepOn k q before = .ok k') :
    k.cur.elem = none ∧
    schedule (park k q k.current ((k.list q).orderedInsert before k.current) .blocked) = .ok k' := by
  unfold sleepOn at ok
  obtain ⟨k1, ins, last⟩ := bindOk.mp ok
  obtain ⟨free, rfl⟩ := linkOk ins
  refine ⟨free, ?_⟩
  rw [← last]
  simp [threadBlock, park]

theorem scheduleOk {k k'} (ok : schedule k = .ok k') :
    (k.list .readyList = [] ∧ k' = threadSwitchTail k k.idleThread) ∨
    (∃ t rest q, k.list .readyList = t :: rest ∧ (k.thread t).elem = some q ∧
      k' = threadSwitchTail (unpark k q t) t) := by
  unfold schedule at ok
  split at ok <;> try contradiction
  all_goals
    split at ok
    · rename_i empty
      exact .inl ⟨empty, (Except.ok.inj ok).symm⟩
    · rename_i t rest front
      obtain ⟨k1, rem, last⟩ := bindOk.mp ok
      obtain ⟨q, linked, rfl⟩ := listRemoveOk rem
      exact .inr ⟨t, rest, q, front, linked, (Except.ok.inj last).symm⟩

theorem linksAt {k k' run run' hand hand' t} (links : Links k run hand)
    (same : ∀ u, u ≠ t → k'.thread u = k.thread u) (idle : k'.idleThread = k.idleThread)
    (created : k'.created = k.created) (old : t < k.created)
    (runs : ∀ u, u ≠ t → (run' = some u ↔ run = some u))
    (held : ∀ u, u ≠ t → (hand' = some u ↔ hand = some u))
    (mem : ∀ u q, u ∈ k'.list q ↔ (k'.thread u).elem = some q)
    (nodup : ∀ q, (k'.list q).Nodup)
    (placed : Placed (k'.thread t) (run' = some t) (hand' = some t) (t = k.idleThread)) :
    Links k' run' hand' where
  mem := mem
  nodup := nodup
  placed u := by
    rw [idle]
    by_cases hu : u = t
    · subst u; exact placed
    · rw [same u hu, runs u hu, held u hu]; exact links.placed u
  fresh u hu := by
    rw [created] at hu
    rw [same u (by rintro rfl; exact absurd old (Nat.not_lt.mpr hu))]
    exact links.fresh u hu
  idleOld := by rw [idle, created]; exact links.idleOld

theorem linkedOld {k run hand t q} (links : Links k run hand)
    (linked : (k.thread t).elem = some q) : t < k.created := by
  by_contra h
  simp [(links.fresh t (Nat.not_lt.mp h)).1] at linked

theorem linkedBusy {k run hand t q} (links : Links k run hand)
    (linked : (k.thread t).elem = some q) : t ≠ k.idleThread := by
  intro idle
  simp [(links.placed t).idleElem idle] at linked

theorem runningOld {k run hand t} (links : Links k run hand) (runs : run = some t) :
    t < k.created := by
  by_contra h
  have status := (links.placed t).running.mpr runs
  simp [(links.fresh t (Nat.not_lt.mp h)).2] at status

def Stopped (t : Tid) (run run' : Option Tid) : Prop :=
  run = some t ∧ run' = none ∨ run ≠ some t ∧ run' = run

theorem stoppedOthers {t run run'} (stop : Stopped t run run') :
    run' ≠ some t ∧ ∀ u, u ≠ t → (run' = some u ↔ run = some u) := by
  rcases stop with ⟨rfl, rfl⟩ | ⟨h, rfl⟩
  · exact ⟨by simp, fun u ne => by simp [Ne.symm ne]⟩
  · exact ⟨h, fun u _ => Iff.rfl⟩

theorem linksPark {k run run' hand q t xs st} (links : Links k run hand)
    (stop : Stopped t run run') (only : hand = none ∨ hand = some t)
    (free : (k.thread t).elem = none) (perm : xs.Perm (t :: k.list q))
    (busy : t ≠ k.idleThread) (old : t < k.created)
    (right : q = .readyList ∧ st = .ready ∨ q ≠ .readyList ∧ st = .blocked) :
    Links (park k q t xs st) run' none := by
  have out : t ∉ k.list q := fun h => by simp [(links.mem t q).mp h] at free
  obtain ⟨stopped, others⟩ := stoppedOthers stop
  refine linksAt links (by intro u ne; simp [park, ne]) rfl rfl old others ?_ ?_ ?_ ?_
  · intro u ne
    rcases only with rfl | rfl <;> simp [Ne.symm ne]
  · intro u r
    have := links.mem u r
    by_cases hu : u = t <;> by_cases hr : r = q <;> simp_all [park, perm.mem_iff]
    grind
  · intro r
    by_cases hr : r = q
    · simpa [park, hr, perm.nodup_iff, out] using links.nodup q
    · simpa [park, hr] using links.nodup r
  · have at_t : (park k q t xs st).thread t =
        {k.thread t with elem := some q, queue := some q, status := st} := by simp [park]
    rw [at_t]
    rcases right with ⟨rfl, rfl⟩ | ⟨hq, rfl⟩ <;> constructor <;> simp_all

theorem linksUnpark {k run q t} (links : Links k run none) (linked : (k.thread t).elem = some q)
    (other : run ≠ some t) : Links (unpark k q t) run (some t) := by
  have placed := links.placed t
  refine linksAt links (by intro u ne; simp [unpark, ne]) rfl rfl (linkedOld links linked)
    (fun _ _ => Iff.rfl) (by intro u ne; simp [Ne.symm ne]) ?_ ?_ ?_
  · intro u r
    have := links.mem u r
    by_cases hu : u = t <;> by_cases hr : r = q <;>
      simp_all [unpark, (links.nodup q).mem_erase_iff]
    grind
  · intro r
    by_cases hr : r = q
    · simpa [unpark, hr] using (links.nodup q).erase t
    · simpa [unpark, hr] using links.nodup r
  · have at_t : (unpark k q t).thread t = {k.thread t with elem := none} := by simp [unpark]
    rw [at_t]
    have running := placed.running
    constructor <;> simp_all

theorem linksSwitch {k hand t} (links : Links k none hand) (only : hand = none ∨ hand = some t)
    (free : (k.thread t).elem = none) (old : t < k.created) :
    Links (threadSwitchTail k t) (some t) none := by
  have at_t : (threadSwitchTail k t).thread t = {k.thread t with status := .running} := by
    simp [threadSwitchTail]
  have same : ∀ u, u ≠ t → (threadSwitchTail k t).thread u = k.thread u := by
    intro u ne; simp [threadSwitchTail, ne]
  refine linksAt links same rfl rfl old (by intro u ne; simp [Ne.symm ne]) ?_ ?_ links.nodup ?_
  · intro u ne
    rcases only with rfl | rfl <;> simp [Ne.symm ne]
  · intro u q
    have := links.mem u q
    by_cases hu : u = t
    · subst u; rw [at_t]; exact this
    · rw [same u hu]; exact this
  · rw [at_t]
    constructor <;> simp [free]

theorem linksIdleStops {k st} (links : Links k (some k.idleThread) none) (not : st ≠ .running) :
    Links (k.setThread k.idleThread (fun th => {th with status := st})) none none := by
  have free := (links.placed k.idleThread).idleElem rfl
  refine linksAt links (by intro u ne; simp [ne]) rfl rfl links.idleOld
    (by intro u ne; simp [Ne.symm ne]) (fun _ _ => Iff.rfl) ?_ links.nodup ?_
  · intro u q
    have := links.mem u q
    by_cases hu : u = k.idleThread <;> simp_all
  · constructor <;> simp_all

theorem linksSchedule {k k'} (links : Links k none none) (ok : schedule k = .ok k') :
    Links k' (some k'.current) none := by
  rcases scheduleOk ok with ⟨_, rfl⟩ | ⟨t, rest, q, front, linked, rfl⟩
  · exact linksSwitch links (.inl rfl) ((links.placed _).idleElem rfl) links.idleOld
  · have old := linkedOld links linked
    exact linksSwitch (linksUnpark links linked (by simp)) (.inr rfl) (by simp [unpark]) old

structure Similar (k k' : Kernel) : Prop where
  status : ∀ t, (k'.thread t).status = (k.thread t).status
  elem : ∀ t, (k'.thread t).elem = (k.thread t).elem
  queue : ∀ t, (k'.thread t).queue = (k.thread t).queue
  stack : ∀ t, (k'.thread t).stack = (k.thread t).stack
  list : ∀ q, (k'.list q).Perm (k.list q)
  current : k'.current = k.current
  idleThread : k'.idleThread = k.idleThread
  created : k'.created = k.created

theorem similarTrans {a b c} (first : Similar a b) (second : Similar b c) : Similar a c where
  status t := (second.status t).trans (first.status t)
  elem t := (second.elem t).trans (first.elem t)
  queue t := (second.queue t).trans (first.queue t)
  stack t := (second.stack t).trans (first.stack t)
  list q := (second.list q).trans (first.list q)
  current := second.current.trans first.current
  idleThread := second.idleThread.trans first.idleThread
  created := second.created.trans first.created

theorem linksSimilar {k k' run hand} (links : Links k run hand) (same : Similar k k') :
    Links k' run hand where
  mem t q := by rw [(same.list q).mem_iff, same.elem t]; exact links.mem t q
  nodup q := (same.list q).nodup_iff.mpr (links.nodup q)
  placed t := by
    obtain ⟨running, ready, readyLinked, waiting, queue, runElem, idleElem⟩ := links.placed t
    rw [same.idleThread]
    constructor <;> simp only [same.status, same.elem, same.queue] <;> assumption
  fresh t ht := by
    rw [same.created] at ht
    rw [same.elem, same.status]
    exact links.fresh t ht
  idleOld := by rw [same.idleThread, same.created]; exact links.idleOld

theorem stacksSimilar {k k'} (owed : Stacks k) (same : Similar k k')
    (holds : ∀ l, (k'.lock l).holder ≠ some k.idleThread) : Stacks k' where
  pending t := by
    obtain ⟨condBlock, condElem, idleStack, idleFrame, guarded, target, fresh⟩ := owed.pending t
    rw [same.idleThread, same.created]
    constructor <;> simp only [same.status, same.elem, same.stack] <;> assumption
  idleHolds := by rw [same.idleThread]; exact holds
  owing u n := by
    simp only [same.status, same.elem, same.stack]
    exact owed.owing u n
  single u v n := by
    simp only [same.stack]
    exact owed.single u v n

theorem stacksAt {k k' t} (owed : Stacks k)
    (same : ∀ u, u ≠ t → k'.thread u = k.thread u) (idle : k'.idleThread = k.idleThread)
    (created : k'.created = k.created) (lock : k'.lock = k.lock)
    (targets : ∀ n, .threadUnblock n ∈ (k'.thread t).stack → .threadUnblock n ∈ (k.thread t).stack)
    (self : Owed k t → (k'.thread t).status = .blocked ∧ (k'.thread t).elem = none)
    (pending : Pending k.idleThread k.created t (k'.thread t)) : Stacks k' := by
  have before : ∀ u n, .threadUnblock n ∈ (k'.thread u).stack →
      .threadUnblock n ∈ (k.thread u).stack := by
    intro u n hn
    by_cases hu : u = t
    · subst u; exact targets n hn
    · rwa [same u hu] at hn
  refine ⟨?_, ?_, ?_, fun u v n hu hv => owed.single u v n (before u n hu) (before v n hv)⟩
  · intro u
    rw [idle, created]
    by_cases hu : u = t
    · subst u; exact pending
    · rw [same u hu]; exact owed.pending u
  · rw [idle, lock]; exact owed.idleHolds
  · intro u n hn
    by_cases h : n = t
    · subst n; exact self ⟨u, before u t hn⟩
    · rw [same n h]; exact owed.owing u n (before u n hn)

theorem stacksPark {k q t xs st} (owed : Stacks k) (free : (k.thread t).elem = none)
    (not : st ≠ .running) (nobody : ¬ Owed k t) : Stacks (park k q t xs st) := by
  obtain ⟨condBlock, condElem, idleStack, idleFrame, guarded, target, fresh⟩ := owed.pending t
  refine stacksAt owed (t := t) (by intro u ne; simp [park, ne]) rfl rfl rfl (by simp [park])
    (fun h => absurd h nobody) ?_
  have at_t : (park k q t xs st).thread t =
      {k.thread t with elem := some q, queue := some q, status := st} := by simp [park]
  rw [at_t]
  constructor <;> simp_all

theorem stacksUnpark {k q t} (owed : Stacks k) (not : (k.thread t).status ≠ .running)
    (linked : (k.thread t).elem = some q) : Stacks (unpark k q t) := by
  obtain ⟨condBlock, condElem, idleStack, idleFrame, guarded, target, fresh⟩ := owed.pending t
  refine stacksAt owed (t := t) (by intro u ne; simp [unpark, ne]) rfl rfl rfl (by simp [unpark])
    (fun h => absurd h (notOwedLinked owed linked)) ?_
  have at_t : (unpark k q t).thread t = {k.thread t with elem := none} := by simp [unpark]
  rw [at_t]
  constructor <;> simp_all

theorem stacksSwitch {k t} (owed : Stacks k) (not : (k.thread t).status ≠ .running)
    (free : (k.thread t).elem = none) (nobody : ¬ Owed k t) : Stacks (threadSwitchTail k t) := by
  obtain ⟨condBlock, condElem, idleStack, idleFrame, guarded, target, fresh⟩ := owed.pending t
  refine stacksAt owed (t := t) (by intro u ne; simp [threadSwitchTail, ne]) rfl rfl rfl
    (by simp [threadSwitchTail]) (fun h => absurd h nobody) ?_
  have at_t : (threadSwitchTail k t).thread t = {k.thread t with status := .running} := by
    simp [threadSwitchTail]
  rw [at_t]
  constructor <;> simp_all

theorem stacksSchedule {k k'} (owed : Stacks k) (links : Links k none none)
    (ok : schedule k = .ok k') : Stacks k' := by
  have none : ∀ t, (k.thread t).status ≠ .running := by
    intro t runs
    simpa using (links.placed t).running.mp runs
  rcases scheduleOk ok with ⟨_, rfl⟩ | ⟨t, rest, q, front, linked, rfl⟩
  · exact stacksSwitch owed (none _) ((links.placed _).idleElem rfl) (notOwedIdle owed)
  · have ready : (k.thread t).status = .ready := by
      refine (links.placed t).ready ((links.mem t _).mp ?_)
      simp [front]
    have out := stacksUnpark owed (none t) linked
    exact stacksSwitch out (by simpa [unpark] using none t) (by simp [unpark])
      (notOwedRunning out (by simp [unpark, ready]))

structure Coherent (k : Kernel) : Prop where
  links : Links k (some k.current) none
  owed : Stacks k

theorem coherentSchedule {k k'} (links : Links k none none) (owed : Stacks k)
    (ok : schedule k = .ok k') : Coherent k' :=
  ⟨linksSchedule links ok, stacksSchedule owed links ok⟩

theorem coherentIdleStops {k st k'} (coh : Coherent k) (idle : k.current = k.idleThread)
    (not : st ≠ .running)
    (ok : schedule (k.setThread k.current (fun th => {th with status := st})) = .ok k') :
    Coherent k' := by
  have links := coh.links
  rw [idle] at links ok
  obtain ⟨condBlock, condElem, idleStack, idleFrame, guarded, target, fresh⟩ :=
    coh.owed.pending k.idleThread
  refine coherentSchedule (linksIdleStops links not) ?_ ok
  refine stacksAt coh.owed (t := k.idleThread) (by intro u ne; simp [ne]) rfl rfl rfl (by simp)
    (fun h => absurd h (notOwedIdle coh.owed)) ?_
  constructor <;> simp_all

theorem runningNotOwed {k} (coh : Coherent k) : ¬ Owed k k.current := by
  refine notOwedRunning coh.owed ?_
  simp [(coh.links.placed k.current).running.mpr rfl]

theorem linksYield {k} (links : Links k (some k.current) none) (busy : k.current ≠ k.idleThread)
    (free : k.cur.elem = none) :
    Links (park k .readyList k.current (readyInsert k k.current) .ready) none none :=
  linksPark links (.inl ⟨rfl, rfl⟩) (.inl rfl) free (readyInsertPerm k _) busy
    (runningOld links rfl) (.inl ⟨rfl, rfl⟩)

theorem linksSleep {k q} (before) [DecidableRel before] (links : Links k (some k.current) none)
    (busy : k.current ≠ k.idleThread) (wait : q ≠ .readyList) (free : k.cur.elem = none) :
    Links (park k q k.current ((k.list q).orderedInsert before k.current) .blocked) none none :=
  linksPark links (.inl ⟨rfl, rfl⟩) (.inl rfl) free (List.perm_orderedInsert before _ _) busy
    (runningOld links rfl) (.inr ⟨wait, rfl⟩)

theorem coherentYield {k k'} (coh : Coherent k) (ok : threadYield k = .ok k') : Coherent k' := by
  rcases threadYieldOk ok with ⟨idle, next⟩ | ⟨busy, free, next⟩
  · exact coherentIdleStops coh idle (by simp) next
  · have parked := linksYield coh.links busy free
    exact coherentSchedule parked (stacksPark coh.owed free (by simp) (runningNotOwed coh)) next

theorem coherentSleep {k q before} [DecidableRel before] {k'} (coh : Coherent k)
    (busy : k.current ≠ k.idleThread) (wait : q ≠ .readyList)
    (ok : sleepOn k q before = .ok k') : Coherent k' := by
  obtain ⟨free, next⟩ := sleepOnOk ok
  have parked := linksSleep before coh.links busy wait free
  exact coherentSchedule parked (stacksPark coh.owed free (by simp) (runningNotOwed coh)) next

end Pintos.Threads
