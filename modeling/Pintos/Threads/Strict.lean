import Pintos.Threads.Dispatch
import Pintos.Threads.Inversion

/-! Strict priority scheduling. Every dispatch leaves the strongest ready thread
running, so an operation can only break the rule by returning to its caller: it
then compares the caller with the one thread it has woken, which is not enough
when it has also lowered the caller, and not at all in an interrupt. -/
namespace Pintos.Threads
open Machine Ordered

attribute [local simp] Function.update_apply

structure Fit (k : Kernel) : Prop where
  coh : Coherent k
  ranked : Ranked k
  own : Owned k

section Fit
variable {k k' : Kernel}

theorem fitStep {a} (fit : Fit k) (ok : step k a = .ok k') : Fit k' :=
  ⟨stepCoherent fit.coh ok, rankedIff.mpr (arrangedStep rfl (rankedIff.mp fit.ranked) fit.coh ok),
    stepOwned fit.own fit.coh ok⟩

theorem fitRunFrame {f rest} (fit : Fit k) (top : k.cur.stack = f :: rest)
    (ok : runFrame k f rest = .ok k') : Fit k' := by
  refine fitStep (a := .run) fit ?_
  simp only [step, Threads.run, top]
  exact ok

theorem stackStays {a t} (coh : Coherent k) (other : t ≠ k.current) (ok : step k a = .ok k') :
    (k'.thread t).stack = (k.thread t).stack := by
  cases a with
  | run =>
    cases top : k.cur.stack with
    | nil =>
      simp only [step, Threads.run, top] at ok
      cases ok
      rfl
    | cons f rest =>
      simp only [step, Threads.run, top] at ok
      exact ((frameOthers coh top ok).2 t other).1
  | call op =>
    cases ok
    split
    · simp [other]
    · rfl
  | tick =>
    simp only [step] at ok
    split at ok
    · cases ok
      rfl
    · exact (timerInterruptElsewhere k.current coh ok).stack t other

end Fit

/-- The call of `t` goes on to its return. While `t` does not run, the others do anything; an
interrupt while it runs is an operation of its own. -/
inductive Completes (t : Tid) : Kernel → Kernel → Prop where
  | returned {k} (mine : k.current = t) (empty : k.cur.stack = []) : Completes t k k
  | more {k k1 k' f rest} (mine : k.current = t) (top : k.cur.stack = f :: rest)
      (ran : runFrame k f rest = .ok k1) (after : Completes t k1 k') : Completes t k k'
  | away {k k1 k' a} (other : k.current ≠ t) (moved : step k a = .ok k1)
      (after : Completes t k1 k') : Completes t k k'

section Completes
variable {t : Tid} {k k' : Kernel}

theorem completesTop {f rest} (completes : Completes t k k') (mine : k.current = t)
    (top : k.cur.stack = f :: rest) : ∃ k1, runFrame k f rest = .ok k1 ∧ Completes t k1 k' := by
  cases completes with
  | returned _ empty => rw [top] at empty; contradiction
  | more _ top' ran after =>
    rw [top] at top'
    cases List.cons.inj top' with
    | intro same same' => subst same same'; exact ⟨_, ran, after⟩
  | away other _ _ => exact absurd mine other

theorem completesEmpty (completes : Completes t k k') (mine : k.current = t)
    (empty : k.cur.stack = []) : k' = k := by
  cases completes with
  | returned _ _ => rfl
  | more _ top _ _ => rw [empty] at top; contradiction
  | away other _ _ => exact absurd mine other

theorem awayStrict (fit : Fit k) (other : k.current ≠ t) (empty : (k.thread t).stack = [])
    (completes : Completes t k k') : Strict k' := by
  induction completes with
  | returned mine _ | more mine _ _ _ _ => exact absurd mine other
  | @away k k1 k' a _ moved after ih =>
    have stack := (stackStays fit.coh other.symm moved).trans empty
    by_cases mine : k1.current = t
    · -- the dispatch is the last thing that happens before the return
      have strict := (dispatchStrict fit.coh fit.ranked moved).resolve_left (mine ▸ other.symm)
      subst mine
      rw [completesEmpty after rfl stack]
      exact strict
    · exact ih (fitStep fit moved) mine stack

theorem switchedStrict (fit : Fit k) (strict : Strict k) (empty : (k.thread t).stack = [])
    (completes : Completes t k k') : Strict k' := by
  by_cases mine : k.current = t
  · subst mine
    rw [completesEmpty completes rfl empty]
    exact strict
  · exact awayStrict fit mine empty completes

/-- `others` is what happens while `t` does not run. -/
def finish (t : Tid) : Nat → List Action → Kernel → Option Kernel
  | 0, _, _ => none
  | n + 1, others, k =>
    if k.current = t then
      match k.cur.stack with
      | [] => some k
      | f :: rest => (runFrame k f rest).toOption.bind (finish t n others)
    else
      match others with
      | [] => none
      | a :: others => (step k a).toOption.bind (finish t n others)

theorem toOptionBind {ε α β : Type} {x : Except ε α} {f : α → Option β} {b : β}
    (ends : x.toOption.bind f = some b) : ∃ a, x = .ok a ∧ f a = some b := by
  cases x with
  | error e => simp [Except.toOption] at ends
  | ok a => exact ⟨a, rfl, ends⟩

theorem finishCompletes {n others} (ends : finish t n others k = some k') : Completes t k k' := by
  induction n generalizing k others with
  | zero => contradiction
  | succ n ih =>
    unfold finish at ends
    split at ends
    · rename_i mine
      split at ends
      · rename_i empty
        cases ends
        exact .returned mine empty
      · rename_i f rest top
        obtain ⟨k1, ran, ends⟩ := toOptionBind ends
        exact .more mine top ran (ih ends)
    · rename_i other
      split at ends
      · contradiction
      · obtain ⟨k1, moved, ends⟩ := toOptionBind ends
        exact .away other moved (ih ends)

end Completes

section Dispatch
variable {k k' : Kernel}

theorem stackPri (st u) : ((k.setStack st).thread u).ePri = (k.thread u).ePri := by
  by_cases h : u = k.current <;> simp [h]

theorem strictStack (st) : Strict (k.setStack st) ↔ Strict k := by
  unfold Strict
  simp only [Kernel.cur, stackPri]
  exact Iff.rfl

theorem strictYield (ranked : Ranked k) (coh : Coherent k) (ok : threadYield k = .ok k') :
    Strict k' := by
  rcases threadYieldOk ok with ⟨idle, next⟩ | ⟨busy, free, next⟩
  · have links := coh.links
    rw [idle] at links next
    exact strictSchedule (rankedThread ranked rfl) (linksIdleStops links (by simp)) next
  · have parked := linksYield coh.links busy free
    exact strictSchedule (rankedReady ranked) parked next

theorem readied (t u) : u ∈ (park k .readyList t (readyInsert k t) .ready).list .readyList ↔
    u = t ∨ u ∈ k.list .readyList := by
  have list : (park k .readyList t (readyInsert k t) .ready).list .readyList =
      readyInsert k t := by simp [park]
  rw [list, (readyInsertPerm k t).mem_iff, List.mem_cons]

theorem strictReady (t) :
    Strict (park k .readyList t (readyInsert k t) .ready) ↔
      (k.thread t).ePri ≤ k.cur.ePri ∧ Strict k := by
  have ePri : ∀ u, ((park k .readyList t (readyInsert k t) .ready).thread u).ePri =
      (k.thread u).ePri := by
    intro u; by_cases h : u = t <;> simp [park, h]
  unfold Strict
  simp only [Kernel.cur, ePri, readied, forall_eq_or_imp]
  exact Iff.rfl

theorem strictUnpark {q t} (wait : q ≠ .readyList) : Strict (unpark k q t) ↔ Strict k := by
  have ePri : ∀ u, ((unpark k q t).thread u).ePri = (k.thread u).ePri := by
    intro u; by_cases h : u = t <;> simp [unpark, h]
  have list : (unpark k q t).list .readyList = k.list .readyList := by
    simp [unpark, Ne.symm wait]
  unfold Strict
  simp only [Kernel.cur, ePri, list]
  exact Iff.rfl

theorem strictWoken {q t} (wait : q ≠ .readyList) (other : t ≠ k.current) :
    Strict (woken k q t) ↔ (k.thread t).ePri ≤ k.cur.ePri ∧ Strict k := by
  unfold woken
  rw [strictReady, strictUnpark wait]
  simp [unpark, other.symm]

end Dispatch

theorem setStackTop (k : Kernel) (st) : (k.setStack st).cur.stack = st := by simp

section Operations
variable {k k' : Kernel}

theorem yieldStrict (fit : Fit k) (top : k.cur.stack = [.threadYield])
    (completes : Completes k.current k k') : Strict k' := by
  obtain ⟨k1, ran, after⟩ := completesTop completes rfl top
  have popped : Coherent (k.setStack []) := coherentPop fit.coh top (by simp) rfl
  have strict : Strict k1 := strictYield (rankedStack fit.ranked) popped ran
  refine switchedStrict (fitRunFrame fit top ran) strict ?_ after
  rw [(undisturbedYield popped ran).stack]
  simp

structure Continues (k k1 : Kernel) (rest : List Frame) : Prop where
  fit : Fit k1
  current : k1.current = k.current
  stack : k1.cur.stack = rest
  ePri : ∀ u, (k1.thread u).ePri = (k.thread u).ePri
  strict : Strict k1 ↔ Strict k

theorem tailContinues {t rest} (fit : Fit k) (top : k.cur.stack = .semaUpTail t :: rest)
    (completes : Completes k.current k k') :
    k.cur.ePri < (k.thread t).ePri ∧ (rest = [] → Strict k') ∨
    (k.thread t).ePri ≤ k.cur.ePri ∧
      ∃ k1, Continues k k1 rest ∧ Completes k1.current k1 k' := by
  obtain ⟨k1, ran, after⟩ := completesTop completes rfl top
  have fit1 := fitRunFrame fit top ran
  simp only [runFrame, Except.ok.injEq] at ran
  unfold semaUpTail at ran
  split at ran
  · rename_i stronger
    subst k1
    refine .inl ⟨stronger, ?_⟩
    rintro rfl
    exact yieldStrict fit1 (by simp) after
  · rename_i weaker
    subst k1
    exact .inr ⟨Nat.le_of_not_lt weaker, _, ⟨fit1, rfl, by simp, stackPri _, strictStack _⟩, after⟩

theorem continuesTrans {k1 k2 st rest} (first : Continues k k1 st) (second : Continues k1 k2 rest) :
    Continues k k2 rest :=
  ⟨second.fit, second.current.trans first.current, second.stack,
    fun u => (second.ePri u).trans (first.ePri u), second.strict.trans first.strict⟩

theorem upContinues {s rest} (fit : Fit k) (top : k.cur.stack = .semaUp s :: rest)
    (completes : Completes k.current k k') :
    (∃ t ∈ (k.list (.semaWaiters s)).head?, k.cur.ePri < (k.thread t).ePri) ∧
      (rest = [] → Strict k') ∨
    (∀ t ∈ (k.list (.semaWaiters s)).head?, (k.thread t).ePri ≤ k.cur.ePri) ∧
      ∃ k1, Continues k k1 rest ∧ Completes k1.current k1 k' := by
  obtain ⟨k1, ran, after⟩ := completesTop completes rfl top
  have fit1 := fitRunFrame fit top ran
  rcases semaUpOk fit.coh ran with ⟨empty, rfl⟩ | ⟨t, others, front, other, linked, rfl⟩
  · have same : Strict (k.setValue s (upValue (k.value s))) ↔ Strict k := Iff.rfl
    refine .inr ⟨by simp [empty], _, ⟨fit1, rfl, by simp, stackPri _, ?_⟩, after⟩
    rw [strictStack, same]
  · generalize reached : ((woken k (.semaWaiters s) t).setValue s (upValue (k.value s))).setStack
      (.semaUpTail t :: rest) = k1 at fit1 after
    have current : k1.current = k.current := by rw [← reached]; rfl
    have stack : k1.cur.stack = .semaUpTail t :: rest := by rw [← reached]; simp
    have ePri : ∀ u, (k1.thread u).ePri = (k.thread u).ePri := by
      intro u
      rw [← reached, stackPri]
      by_cases h : u = t <;> simp [woken, park, unpark, h]
    have strict : Strict k1 ↔ (k.thread t).ePri ≤ k.cur.ePri ∧ Strict k := by
      have same : Strict ((woken k (.semaWaiters s) t).setValue s (upValue (k.value s))) ↔
          Strict (woken k (.semaWaiters s) t) := Iff.rfl
      rw [← reached, strictStack, same, strictWoken (by simp) other]
    rw [← current] at after
    simp only [front, List.head?_cons, Option.mem_def, Option.some.injEq, exists_eq_left',
      forall_eq']
    have tail := tailContinues fit1 stack after
    simp only [Kernel.cur, current, ePri] at tail ⊢
    rcases tail with ⟨stronger, ends⟩ | ⟨weaker, k2, onward, more⟩
    · exact .inl ⟨stronger, ends⟩
    · refine .inr ⟨weaker, k2, continuesTrans ⟨fit1, current, stack, ePri, ?_⟩ onward, more⟩
      rw [strict]
      exact and_iff_right weaker

theorem continuesEnds {k1} (onward : Continues k k1 []) (completes : Completes k1.current k1 k') :
    Strict k' ↔ Strict k := by
  rw [completesEmpty completes rfl onward.stack]
  exact onward.strict

theorem upStrict {s} (fit : Fit k) (top : k.cur.stack = [.semaUp s])
    (completes : Completes k.current k k') :
    Strict k' ↔ (∃ t ∈ (k.list (.semaWaiters s)).head?, k.cur.ePri < (k.thread t).ePri) ∨
      Strict k := by
  rcases upContinues fit top completes with ⟨stronger, ends⟩ | ⟨weaker, k1, onward, after⟩
  · exact iff_of_true (ends rfl) (.inl stronger)
  · rw [continuesEnds onward after]
    refine (or_iff_right ?_).symm
    rintro ⟨t, front, stronger⟩
    exact absurd (weaker t front) (Nat.not_le_of_lt stronger)

def fallback (k : Kernel) (held : List LockId) : Nat :=
  match held with
  | [] => k.cur.bPri
  | m :: _ => (k.lock m).pri

theorem releasedPri {l} (own : Owned k) :
    (released k l).cur.ePri = fallback k (k.cur.lockQueue.erase l) := by
  have gone : l ∉ k.cur.lockQueue.erase l := (own.nodup k.current).not_mem_erase
  unfold released fallback
  simp only [Kernel.cur, Kernel.setThread, Kernel.setLock, Function.update_self, restoredPri]
  simp only [Kernel.cur] at gone
  cases queue : (k.thread k.current).lockQueue.erase l with
  | nil => rfl
  | cons m others =>
    have apart : m ≠ l := by
      rintro rfl
      simp [queue] at gone
    simp [apart]

def Under (k : Kernel) (p : Nat) : Prop := ∀ t ∈ k.list .readyList, (k.thread t).ePri ≤ p

instance (k p) : Decidable (Under k p) := by unfold Under; infer_instance

def Awaited (k : Kernel) (l : LockId) (p : Nat) : Prop :=
  ∃ t ∈ (k.list (.semaWaiters (.lock l))).head?, p < (k.thread t).ePri

instance (k l p) : Decidable (Awaited k l p) := by unfold Awaited; infer_instance

theorem releasedOthers {l u} (other : u ≠ k.current) :
    (released k l).thread u = k.thread u := by simp [released, other]

theorem underCongr {p} (list : k'.list .readyList = k.list .readyList)
    (same : ∀ t ∈ k.list .readyList, (k'.thread t).ePri = (k.thread t).ePri) :
    Under k' p ↔ Under k p := by
  unfold Under
  rw [list]
  exact forall₂_congr fun t ready => by rw [same t ready]

theorem awaitedCongr {l p}
    (list : k'.list (.semaWaiters (.lock l)) = k.list (.semaWaiters (.lock l)))
    (same : ∀ t ∈ k.list (.semaWaiters (.lock l)), (k'.thread t).ePri = (k.thread t).ePri) :
    Awaited k' l p ↔ Awaited k l p := by
  unfold Awaited
  rw [list]
  refine exists_congr fun t => and_congr_right fun front => ?_
  rw [same t (List.mem_of_mem_head? front)]

theorem underReleased {l} (coh : Coherent k) (p : Nat) :
    Under (released k l) p ↔ Under k p :=
  underCongr rfl fun t ready => by
    rw [releasedOthers (queuedOther rfl coh.links rfl ready)]

theorem awaitedReleased {l} (coh : Coherent k) (p : Nat) :
    Awaited (released k l) l p ↔ Awaited k l p :=
  awaitedCongr rfl fun t waits => by
    rw [releasedOthers (waiterStopped coh waits (by simp))]

theorem releaseContinues {l rest} (fit : Fit k) (top : k.cur.stack = .lockRelease l :: rest)
    (completes : Completes k.current k k') :
    Awaited k l (fallback k (k.cur.lockQueue.erase l)) ∧ (rest = [] → Strict k') ∨
    ¬ Awaited k l (fallback k (k.cur.lockQueue.erase l)) ∧
      ∃ k1, Continues (released k l) k1 rest ∧ Completes k1.current k1 k' := by
  obtain ⟨k1, ran, after⟩ := completesTop completes rfl top
  have fit1 := fitRunFrame fit top ran
  obtain ⟨held, rfl⟩ := lockReleaseOk ran
  rw [← releasedPri fit.own, ← awaitedReleased fit.coh]
  have up := upContinues fit1 (s := .lock l) (setStackTop _ _) after
  simp only [Kernel.cur, stackPri] at up
  rcases up with ⟨waiter, ends⟩ | ⟨weaker, k2, onward, more⟩
  · exact .inl ⟨waiter, ends⟩
  · refine .inr ⟨?_, k2, ⟨onward.fit, onward.current, onward.stack, ?_, ?_⟩, more⟩
    · rintro ⟨t, front, stronger⟩
      exact absurd (weaker t front) (Nat.not_le_of_lt stronger)
    · intro u
      rw [onward.ePri, stackPri]
    · rw [onward.strict, strictStack]

theorem strictReleased {l} (fit : Fit k) :
    Strict (released k l) ↔ Under k (fallback k (k.cur.lockQueue.erase l)) := by
  have under : Strict (released k l) ↔ Under (released k l) (released k l).cur.ePri := Iff.rfl
  rw [under, underReleased fit.coh, releasedPri fit.own]

theorem lockReleaseStrict {l} (fit : Fit k) (top : k.cur.stack = [.lockRelease l])
    (completes : Completes k.current k k') :
    Strict k' ↔ Awaited k l (fallback k (k.cur.lockQueue.erase l)) ∨
      Under k (fallback k (k.cur.lockQueue.erase l)) := by
  rcases releaseContinues fit top completes with ⟨waiter, ends⟩ | ⟨nobody, k1, onward, after⟩
  · exact iff_of_true (ends rfl) (.inl waiter)
  · rw [continuesEnds onward after, strictReleased fit]
    exact (or_iff_right nobody).symm

theorem threadSetPriorityStrict {p} (fit : Fit k) (strict : Strict k)
    (top : k.cur.stack = [.threadSetPriority p]) (completes : Completes k.current k k') :
    Strict k' := by
  obtain ⟨k1, ran, after⟩ := completesTop completes rfl top
  have fit1 := fitRunFrame fit top ran
  have others : ∀ t ∈ k.list .readyList, t ≠ k.current := fun t ready =>
    queuedOther rfl fit.coh.links rfl ready
  simp only [runFrame, Except.ok.injEq] at ran
  unfold threadSetPriority at ran
  split at ran
  · subst k1
    rw [completesEmpty after rfl (by simp), strictStack]
    exact strict
  split at ran
  · rename_i above
    subst k1
    rw [completesEmpty after rfl (by simp), strictStack]
    intro t ready
    have le := strict t ready
    simp only [Kernel.cur] at above le
    simpa [others t ready] using Nat.le_of_lt (Nat.lt_of_le_of_lt le above)
  split at ran
  · subst k1
    exact yieldStrict fit1 (by simp) after
  · subst k1
    rw [completesEmpty after rfl (by simp), strictStack]
    intro t ready
    simpa [others t ready] using strict t ready

structure Signalled (k k' : Kernel) (c : CondId) (t : Tid) : Prop where
  fit : Fit k'
  current : k'.current = k.current
  ePri : k'.cur.ePri = k.cur.ePri
  target : (k'.thread t).ePri = (k.thread t).ePri
  fewer : (k'.list (.condWaiters c)).length < (k.list (.condWaiters c)).length
  strict : Strict k' ↔ (k.thread t).ePri ≤ k.cur.ePri ∧ Strict k

theorem signalled {c t f k1} (fit : Fit k) (top : k.cur.stack = [f]) (quiet : f.owes = false)
    (outer : f.nested = false) (inside : t ∈ k.list (.condWaiters c)) (next : Frame)
    (fit1 : Fit ((popped k c t).setStack [.threadUnblock t, next]))
    (ran : runFrame ((popped k c t).setStack [.threadUnblock t, next]) (.threadUnblock t) [next] =
      .ok k1) : Signalled k k1 c t ∧ k1.cur.stack = [next] := by
  have other := signallerFree fit.coh top quiet outer inside
  have fit2 := fitRunFrame fit1 (by simp) ran
  obtain ⟨k3, woke, last⟩ := bindOk.mp ran
  obtain ⟨_, _, rfl⟩ := threadUnblockOk woke
  cases last
  refine ⟨⟨fit2, rfl, ?_, ?_, ?_, ?_⟩, by simp [park]⟩
  · simp [park, popped, unpark, other.symm]
  · simp [park, popped, unpark, other]
  · have shorter := List.length_erase_of_mem inside
    have some := List.length_pos_of_mem inside
    simp [park, popped, unpark, shorter]
    omega
  · rw [strictStack, strictReady, strictStack]
    have same : Strict (popped k c t) ↔ Strict (unpark k (.condWaiters c) t) := by
      have ePri : ∀ u, ((popped k c t).thread u).ePri =
          ((unpark k (.condWaiters c) t).thread u).ePri := by
        intro u; by_cases h : u = t <;> simp [popped, h]
      unfold Strict
      simp only [Kernel.cur, ePri]
      exact Iff.rfl
    rw [same, strictUnpark (by simp)]
    simp [popped, unpark, other, other.symm]

theorem popCompletes {c f} (g : Tid → Frame) (fit : Fit k) (top : k.cur.stack = [f])
    (quiet : f.owes = false) (outer : f.nested = false)
    (pops : runFrame k f [] = condPop k c (fun t => [.threadUnblock t, g t]))
    (completes : Completes k.current k k') :
    ∃ t k1, Signalled k k1 c t ∧ k1.cur.stack = [g t] ∧ Completes k1.current k1 k' := by
  obtain ⟨k2, ran, after⟩ := completesTop completes rfl top
  have fit2 := fitRunFrame fit top ran
  rw [pops] at ran
  obtain ⟨t, others, front, rfl⟩ := condPopOk fit.coh ran
  have inside : t ∈ k.list (.condWaiters c) := by simp [front]
  have stack : ((popped k c t).setStack [.threadUnblock t, g t]).cur.stack =
      [.threadUnblock t, g t] := by simp
  obtain ⟨k1, ran1, after1⟩ := completesTop after rfl stack
  obtain ⟨signal, left⟩ := signalled fit top quiet outer inside (g t) fit2 ran1
  exact ⟨t, k1, signal, left, by rw [signal.current]; exact after1⟩

theorem condSignalStrict {c l} (fit : Fit k) (strict : Strict k)
    (top : k.cur.stack = [.condSignal c l]) (completes : Completes k.current k k') :
    Strict k' := by
  obtain ⟨k1, ran, after⟩ := completesTop completes rfl top
  have fit1 := fitRunFrame fit top ran
  simp only [runFrame, condSignal] at ran
  split at ran <;> try contradiction
  split at ran <;> cases ran
  · rw [completesEmpty after rfl (by simp), strictStack]
    exact strict
  · obtain ⟨t, k2, signal, stack, after2⟩ :=
      popCompletes .semaUpTail fit1 (f := .condSignalPop c) (by simp) rfl rfl rfl after
    rcases tailContinues signal.fit stack after2 with ⟨_, ends⟩ | ⟨weaker, k3, onward, more⟩
    · exact ends rfl
    · rw [signal.ePri, signal.target] at weaker
      refine (continuesEnds onward more).mpr (signal.strict.mpr ⟨weaker, (strictStack _).mpr ?_⟩)
      intro u ready
      exact strict u (by simpa using ready)

theorem condBroadcastStrict {c flag} (fit : Fit k) (strict : flag = true ∨ Strict k)
    (top : k.cur.stack = [.condBroadcast c flag]) (completes : Completes k.current k k') :
    Strict k' := by
  -- by the number of waiters still to be woken
  induction waiting : (k.list (.condWaiters c)).length using Nat.strong_induction_on
    generalizing k flag with
  | _ n ih =>
    obtain ⟨k1, ran, after⟩ := completesTop completes rfl top
    have fit1 := fitRunFrame fit top ran
    simp only [runFrame, Except.ok.injEq] at ran
    unfold condBroadcast at ran
    split at ran
    · subst k1
      cases flag with
      | true => exact yieldStrict fit1 (by simp) after
      | false =>
        rw [completesEmpty after rfl (by simp), strictStack]
        exact strict.resolve_left (by simp)
    · subst k1
      obtain ⟨t, k2, signal, stack, after2⟩ :=
        popCompletes (.condBroadcastTail c flag) fit1 (f := .condBroadcastPop c flag) (by simp)
          rfl rfl rfl after
      obtain ⟨k3, ran3, after3⟩ := completesTop after2 rfl stack
      have fit3 := fitRunFrame signal.fit stack ran3
      simp only [runFrame, Except.ok.injEq] at ran3
      unfold condBroadcastTail at ran3
      subst k3
      refine @ih _ ?_ _ (flag || decide (k2.cur.ePri < (k2.thread t).ePri)) fit3 ?_
        (by simp) after3 rfl
      · have fewer := signal.fewer
        rw [← waiting]
        simpa using fewer
      · have there : ((k.setStack [.condBroadcastPop c flag]).thread t).ePri =
            (k.thread t).ePri := by by_cases h : t = k.current <;> simp [h]
        have here : (k.setStack [.condBroadcastPop c flag]).cur.ePri = k.cur.ePri := by simp
        rw [strictStack, signal.ePri, signal.target, signal.strict, strictStack, there, here]
        rcases strict with raised | strict
        · exact .inl (by simp [raised])
        · rcases Nat.lt_or_ge k.cur.ePri (k.thread t).ePri with lt | ge
          · exact .inl (by rw [decide_eq_true lt, Bool.or_true])
          · exact .inr ⟨ge, strict⟩

def taken (k : Kernel) (l : LockId) : Kernel :=
  (takeLock (announce k l) l).setThread k.current (fun th => {th with donatedFor := none})

theorem acquireTakes {l rest} (fit : Fit k) (free : k.value (.lock l) ≠ 0)
    (ok : lockAcquire k l rest = .ok k') :
    k' = (taken k l).setStack rest := by
  obtain ⟨_, nobody, _⟩ := lockFree fit.own free
  unfold lockAcquire at ok
  split at ok <;> try contradiction
  obtain ⟨k1, walked, last⟩ := bindOk.mp ok
  have alone : ¬ (((announce k l).lock l).state < 0 ∧ ((announce k l).lock l).holder ≠ none) := by
    simp [announce, nobody]
  unfold donateIfHeld at walked
  rw [if_neg alone] at walked
  cases walked
  unfold lockAcquireLoop at last
  rw [if_neg (by simpa [announce] using free)] at last
  exact (Except.ok.inj last).symm

theorem takenFallback {l st} (own : Owned k) (free : (k.lock l).holder = none) :
    fallback ((taken k l).setStack st) (((taken k l).setStack st).cur.lockQueue.erase l) =
      fallback k k.cur.lockQueue := by
  have out := notHeld own free k.current
  have queue : ((taken k l).setStack st).cur.lockQueue.erase l = k.cur.lockQueue := by
    simp only [taken, takeLock, announce, Kernel.cur, Kernel.setThread, Kernel.setStack,
      Kernel.setLock, Kernel.setValue, Function.update_self]
    exact List.erase_orderedInsert_of_notMem out
  have base : ((taken k l).setStack st).cur.bPri = k.cur.bPri := by
    simp [taken, takeLock, announce]
  rw [queue]
  unfold fallback
  cases held : k.cur.lockQueue with
  | nil => exact base
  | cons m others =>
    have apart : m ≠ l := by
      rintro rfl
      simp only [Kernel.cur] at held
      simp [held] at out
    simp [taken, takeLock, announce, apart]

theorem takenPri {l} (u) : ((taken k l).thread u).ePri = (k.thread u).ePri := by
  by_cases h : u = k.current <;> simp [taken, takeLock, announce, h]

theorem createdStrict {p n} (fit : Fit k) (top : k.cur.stack = [.threadUnblock n, .threadCreateTail p])
    (base : (k.thread n).ePri = p.val) (completes : Completes k.current k k') :
    Strict k' ↔ k.cur.ePri < p.val ∨ Strict k := by
  obtain ⟨k1, ran, after⟩ := completesTop completes rfl top
  have fit1 := fitRunFrame fit top ran
  obtain ⟨k2, woke, last⟩ := bindOk.mp ran
  obtain ⟨_, _, rfl⟩ := threadUnblockOk woke
  cases last
  have mine : (park k .readyList n (readyInsert k n) .ready).cur.ePri = k.cur.ePri := by
    by_cases h : k.current = n <;> simp [park, h]
  obtain ⟨k3, ran3, after3⟩ := completesTop after rfl (setStackTop _ _)
  have fit3 := fitRunFrame fit1 (setStackTop _ _) ran3
  simp only [runFrame, Except.ok.injEq] at ran3
  unfold threadCreateTail at ran3
  simp only [Kernel.cur, stackPri] at ran3 mine ⊢
  split at ran3
  · rename_i stronger
    subst k3
    refine iff_of_true (yieldStrict fit3 (setStackTop _ _) after3) (.inl ?_)
    exact mine ▸ stronger
  · rename_i weaker
    subst k3
    have below : ¬ (k.thread k.current).ePri < p.val := mine ▸ weaker
    rw [completesEmpty after3 rfl (setStackTop _ _), strictStack, strictStack, strictReady, base,
      or_iff_right below]
    exact and_iff_right (Nat.le_of_not_lt below)

structure Reserves (p : Priority) (k k1 : Kernel) : Prop where
  fit : Fit k1
  current : k1.current = k.current
  stack : k1.cur.stack = [.lockRelease tidLock, .threadUnblock k.created, .threadCreateTail p]
  list : k1.list = k.list
  others : ∀ t, t ≠ k.created → (k1.thread t).ePri = (k.thread t).ePri
  new : (k1.thread k.created).ePri = p.val
  back : fallback k1 (k1.cur.lockQueue.erase tidLock) = fallback k k.cur.lockQueue

theorem createReserves {p} (fit : Fit k) (top : k.cur.stack = [.threadCreate p])
    (free : k.value (.lock tidLock) ≠ 0) (completes : Completes k.current k k') :
    ∃ k1, Reserves p k k1 ∧ Completes k1.current k1 k' := by
  obtain ⟨k1, ran, after⟩ := completesTop completes rfl top
  have fit1 := fitRunFrame fit top ran
  cases ran
  have top1 : (threadCreate k p []).cur.stack = [.lockAcquire tidLock, .lockRelease tidLock,
      .threadUnblock k.created, .threadCreateTail p] := by simp [threadCreate]
  obtain ⟨k2, ran2, after2⟩ := completesTop after rfl top1
  have fit2 := fitRunFrame fit1 top1 ran2
  have nobody : (k.lock tidLock).holder = none := (lockFree fit.own free).2.1
  have alive : k.current ≠ k.created := Nat.ne_of_lt (runningOld fit.coh.links rfl)
  cases acquireTakes fit1 free ran2
  refine ⟨_, ⟨fit2, rfl, setStackTop _ _, rfl, ?_, ?_, ?_⟩, after2⟩
  · intro t other
    rw [stackPri, takenPri]
    unfold threadCreate
    rw [stackPri]
    simp [other]
  · rw [stackPri, takenPri]
    unfold threadCreate
    rw [stackPri]
    simp [initThread]
  · rw [takenFallback fit1.own nobody]
    simp [fallback, threadCreate, alive]

theorem threadCreateStrict {p} (fit : Fit k) (top : k.cur.stack = [.threadCreate p])
    (free : k.value (.lock tidLock) ≠ 0)
    (nobody : ¬ Awaited k tidLock (fallback k k.cur.lockQueue))
    (completes : Completes k.current k k') :
    Strict k' ↔ fallback k k.cur.lockQueue < p.val ∨ Under k (fallback k k.cur.lockQueue) := by
  obtain ⟨k1, reserves, after⟩ := createReserves fit top free completes
  have known : ∀ q, ∀ t ∈ k.list q, (k1.thread t).ePri = (k.thread t).ePri := fun q t inside =>
    reserves.others t (Nat.ne_of_lt
      (linkedOld fit.coh.links ((fit.coh.links.mem t q).mp inside)))
  have awaited := awaitedCongr (l := tidLock) (p := fallback k k.cur.lockQueue)
    (congrFun reserves.list _) (known _)
  have under := underCongr (p := fallback k k.cur.lockQueue) (congrFun reserves.list _) (known _)
  have release := releaseContinues reserves.fit reserves.stack after
  rw [reserves.back, awaited] at release
  rcases release with ⟨waiter, _⟩ | ⟨_, k2, onward, more⟩
  · exact absurd waiter nobody
  · have new : (k2.thread k.created).ePri = p.val := by
      have other : k.created ≠ k1.current := by
        rw [reserves.current]
        exact (Nat.ne_of_lt (runningOld fit.coh.links rfl)).symm
      rw [onward.ePri, releasedOthers other, reserves.new]
    have mine : k2.cur.ePri = fallback k k.cur.lockQueue := by
      have same := onward.ePri k2.current
      rw [onward.current] at same
      rw [← reserves.back, ← releasedPri reserves.fit.own]
      simp only [Kernel.cur]
      rw [onward.current]
      exact same
    rw [createdStrict onward.fit onward.stack new more, mine, onward.strict,
      strictReleased reserves.fit, reserves.back, under]

end Operations

section Timer
variable {k k' : Kernel}

def due (k : Kernel) : List Tid :=
  (k.list .timerSleepList).takeWhile (fun t => (k.thread t).wakeUp ≤ k.ticks + 1)

theorem wakeStrict {ts} (coh : Coherent k) (nodup : ts.Nodup)
    (asleep : ∀ u ∈ ts, (k.thread u).elem = some .timerSleepList)
    (ok : wakeSleepers k ts = .ok k') :
    Strict k' ↔ (∀ t ∈ ts.takeWhile (fun t => (k.thread t).wakeUp ≤ k.ticks),
      (k.thread t).ePri ≤ k.cur.ePri) ∧ Strict k := by
  induction ts generalizing k with
  | nil => cases ok; simp
  | cons t ts ih =>
    rcases wakeSleepersCons coh nodup asleep ok with
      ⟨due, other, next, nodup, elem, last⟩ | ⟨later, rfl⟩
    · have ePri : ∀ u, ((woken k .timerSleepList t).thread u).ePri = (k.thread u).ePri := by
        intro u; rw [wokenThread]; split <;> simp_all
      have wakeUp : ∀ u, ((woken k .timerSleepList t).thread u).wakeUp = (k.thread u).wakeUp := by
        intro u; rw [wokenThread]; split <;> simp_all
      have rest := ih next nodup elem last
      have ticks : (woken k .timerSleepList t).ticks = k.ticks := rfl
      simp only [Kernel.cur, ePri, wakeUp, ticks] at rest
      rw [rest, strictWoken (by simp) other, List.takeWhile_cons_of_pos (by simpa using due)]
      have current : (woken k .timerSleepList t).current = k.current := rfl
      simp only [List.forall_mem_cons, Kernel.cur, current]
      tauto
    · rw [List.takeWhile_cons_of_neg (by simpa using later)]
      simp

theorem tickStrict (fit : Fit k) (strict : Strict k) (ok : timerInterrupt k = .ok k') :
    Strict k' ↔ timeSlice ≤ k.threadTicks + 1 ∨
      ∀ t ∈ due k, (k.thread t).ePri ≤ k.cur.ePri := by
  obtain ⟨k1, awake, ends⟩ := timerInterruptOk ok
  have ticked := coherentTicks (k.ticks + 1) k.threadTicks fit.coh
  have woke := wakeStrict ticked (ticked.links.nodup _) (sleepersAsleep ticked) awake
  obtain ⟨coh1, ranked1, slice⟩ := wakeRule
    (fun j => Ranked j ∧ j.threadTicks = k.threadTicks)
    (fun _ _ _ so _ _ => ⟨rankedWoken so.1, so.2⟩) ticked
    ⟨⟨fit.ranked.policy, fit.ranked.sorted⟩, rfl⟩ (ticked.links.nodup _) (sleepersAsleep ticked) awake
  rw [slice] at ends
  rcases ends with ⟨spent, yields⟩ | ⟨within, rfl⟩
  · refine iff_of_true (strictYield ?_ (coherentTicks k1.ticks (k1.threadTicks + 1) coh1) ?_)
      (.inl spent)
    · exact ⟨ranked1.policy, ranked1.sorted⟩
    · exact slice ▸ yields
  · have same : Strict {k1 with threadTicks := k.threadTicks + 1} ↔ Strict k1 := Iff.rfl
    rw [same, woke, or_iff_right (Nat.not_le_of_lt within)]
    exact and_iff_left strict

end Timer

section Interrupt
variable {k k' : Kernel}

/-- sema_up in an interrupt handler: it does not yield, and nothing does on its behalf. -/
def semaUpInterrupt (k : Kernel) (s : Sema) : Except Fault Kernel :=
  match k.list (.semaWaiters s) with
  | [] => .ok (k.setValue s (upValue (k.value s)))
  | t :: _ => do
    let k ← listRemove k t
    let k ← threadUnblock k t
    .ok (k.setValue s (upValue (k.value s)))

theorem interruptUp {s} (ok : semaUpInterrupt k s = .ok k') :
    ∃ st, semaUp k s [] = .ok (k'.setStack st) := by
  unfold semaUpInterrupt at ok
  unfold semaUp
  cases waiters : k.list (.semaWaiters s) with
  | nil =>
    rw [waiters] at ok
    cases ok
    exact ⟨[], rfl⟩
  | cons t others =>
    rw [waiters] at ok
    obtain ⟨k1, removed, ok⟩ := bindOk.mp ok
    obtain ⟨k2, unblocked, ok⟩ := bindOk.mp ok
    cases ok
    exact ⟨_, bindOk.mpr ⟨k1, removed, bindOk.mpr ⟨k2, unblocked, rfl⟩⟩⟩

theorem interruptStrict {s} (fit : Fit k) (strict : Strict k) (ok : semaUpInterrupt k s = .ok k') :
    Strict k' ↔ ∀ t ∈ (k.list (.semaWaiters s)).head?, (k.thread t).ePri ≤ k.cur.ePri := by
  obtain ⟨st, up⟩ := interruptUp ok
  rw [← strictStack st]
  rcases semaUpOk fit.coh up with ⟨empty, same⟩ | ⟨t, others, front, other, linked, same⟩
  · rw [same, strictStack]
    exact iff_of_true strict (by simp [empty])
  · have raised : Strict ((woken k (.semaWaiters s) t).setValue s (upValue (k.value s))) ↔
        Strict (woken k (.semaWaiters s) t) := Iff.rfl
    rw [same, strictStack, raised, strictWoken (by simp) other, and_iff_left strict, front]
    simp

end Interrupt

def Op.rescheduling : Op → Bool
  | .threadCreate _ | .semaUp _ | .lockRelease _ | .condSignal _ _ | .condBroadcast _
  | .threadSetPriority _ => true
  | _ => false

/-- When the operation leaves the strongest thread running. What lock_release takes
from the caller must leave it no weaker than any ready thread, unless it makes way
for the first waiter; thread_create takes and releases tid_lock. -/
def Keeps (k : Kernel) : Op → Prop
  | .lockRelease l =>
    Awaited k l (fallback k (k.cur.lockQueue.erase l)) ∨
      Under k (fallback k (k.cur.lockQueue.erase l))
  | .threadCreate p =>
    fallback k k.cur.lockQueue < p.val ∨ Under k (fallback k k.cur.lockQueue)
  | _ => True

/-- thread_create does not have to leave the processor for tid_lock. -/
def Undelayed (k : Kernel) : Op → Prop
  | .threadCreate _ =>
    k.value (.lock tidLock) ≠ 0 ∧ ¬ Awaited k tidLock (fallback k k.cur.lockQueue)
  | _ => True

instance (k op) : Decidable (Keeps k op) := by
  unfold Keeps; split <;> infer_instance

theorem runFit {values may k} (run : Run step may (boot .prio values) k) : Fit k := by
  obtain ⟨coh, ranked⟩ := runRanked run
  obtain ⟨_, own, _⟩ := runView (fun _ _ => True) (fun _ => True) run trivial
    (fun _ _ _ _ _ => trivial) (fun _ _ _ _ _ _ => trivial)
  exact ⟨coh, ranked, own⟩

theorem fitCall {k} (op : Op) (fit : Fit k) (empty : k.cur.stack = []) :
    Fit (k.setStack [op.frame]) := by
  refine fitStep (a := .call op) fit ?_
  simp only [step]
  rw [if_pos empty]

end Pintos.Threads
