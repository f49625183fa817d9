import Mathlib.Data.Finset.Card
import Pintos.Threads.Coherence

/-! donate_pri_acquire from any state of the threads and locks, also one whose chain of holders
leads in a circle or back to the caller. No invariant of the kernel is used: a turn that is not the
last raises a thread that was below the priority on its way up. -/
namespace Pintos.Threads
open Machine

attribute [local simp] Function.update_apply

def raises : Nat → Kernel → Tid → LockId → List (LockId × Option Tid)
  | 0, _, _, _ => []
  | turns + 1, k, donor, l =>
    match (k.lock l).holder with
    | none => []
    | some donee =>
      let p := (k.thread donor).ePri
      if p ≤ (k.lock l).pri then []
      else
        let k := raiseLock k l donee p
        if p ≤ (k.thread donee).ePri then [(l, none)]
        else (l, some donee) ::
          match requeue (raiseThread k donee p) donee with
          | .error _ => []
          | .ok k =>
            match (k.thread donee).donatedFor with
            | none => []
            | some next => raises turns k donee next

structure Same (t : Tid) (k k' : Kernel) : Prop where
  thread : ∃ held, k'.thread t = {k.thread t with lockQueue := held}
  list : ∀ q, t ∈ k'.list q ↔ t ∈ k.list q

structure Raised (p : Nat) (l : LockId) (donee : Tid) (k k' : Kernel) : Prop where
  pri : ∀ m, (k'.lock m).pri = if m = l then p else (k.lock m).pri
  holder : ∀ m, (k'.lock m).holder = (k.lock m).holder
  ePri : ∀ t, (k'.thread t).ePri = if t = donee then p else (k.thread t).ePri
  same : ∀ t, t ≠ donee → Same t k k'

section Turns
variable {k k' : Kernel} {l : LockId} {t donor donee caller : Tid} {p turns : Nat}
  {threads : Finset Tid}

theorem sameTrans {a b c : Kernel} (first : Same t a b) (second : Same t b c) : Same t a c := by
  obtain ⟨held, thread⟩ := first.thread
  obtain ⟨held', thread'⟩ := second.thread
  refine ⟨⟨held', ?_⟩, fun q => (second.list q).trans (first.list q)⟩
  rw [thread', thread]

theorem sameRaiseLock (l : LockId) (donee : Tid) (p : Nat) (t : Tid) : Same t k (raiseLock k l donee p) := by
  refine ⟨?_, fun _ => Iff.rfl⟩
  by_cases self : t = donee
  · subst self
    exact ⟨_, by simp [raiseLock]; rfl⟩
  · exact ⟨(k.thread t).lockQueue, by simp [raiseLock, self]⟩

theorem requeueFrame (ok : requeue k donee = .ok k') : k'.lock = k.lock ∧
    (∀ t, (k'.thread t).ePri = (k.thread t).ePri) ∧ ∀ t, t ≠ donee → Same t k k' := by
  unfold requeue at ok
  split at ok
  · cases ok
    exact ⟨rfl, fun _ => rfl, fun t _ => ⟨⟨_, rfl⟩, fun _ => Iff.rfl⟩⟩
  · obtain ⟨k₁, removed, inserted⟩ := bindOk.mp ok
    obtain ⟨q, _, rfl⟩ := listRemoveOk removed
    obtain ⟨_, rfl⟩ := linkOk inserted
    refine ⟨rfl, fun t => ?_, fun t other => ⟨⟨(k.thread t).lockQueue, ?_⟩, fun r => ?_⟩⟩
    · by_cases self : t = donee <;> simp [unpark, self]
    · simp [unpark, other]
    · simp only [unpark, Kernel.setList, Kernel.setThread, Function.update_apply]
      split <;> split <;> simp_all [List.mem_erase_of_ne other]

theorem turnRaised (ok : requeue (raiseThread (raiseLock k l donee p) donee p) donee = .ok k') :
    Raised p l donee k k' := by
  obtain ⟨lock, ePri, same⟩ := requeueFrame ok
  refine ⟨fun m => ?_, fun m => ?_, fun t => ?_, fun t other => ?_⟩
  · rw [lock]
    by_cases self : m = l <;> simp [raiseThread, raiseLock, self]
  · rw [lock]
    by_cases self : m = l <;> simp [raiseThread, raiseLock, self]
  · rw [ePri]
    by_cases self : t = donee <;> simp [raiseThread, raiseLock, self]
  · have thread : Same t (raiseLock k l donee p) (raiseThread (raiseLock k l donee p) donee p) :=
      ⟨⟨((raiseLock k l donee p).thread t).lockQueue, by simp [raiseThread, other]⟩, fun _ => Iff.rfl⟩
    exact sameTrans (sameRaiseLock l donee p t) (sameTrans thread (same t other))

/-- The queue of `t` is set, but `t` is in no list. -/
def Unlinked (k : Kernel) (t : Tid) : Prop := (k.thread t).queue ≠ none ∧ (k.thread t).elem = none

theorem requeueFails {f : Fault} (stops : requeue k t = .error f) :
    f = .notLinked t ∧ Unlinked k t := by
  unfold requeue at stops
  split at stops
  · contradiction
  · rename_i q queued
    unfold listRemove at stops
    cases linked : (k.thread t).elem with
    | none =>
      rw [linked] at stops
      cases stops
      exact ⟨rfl, by simp [queued], linked⟩
    | some r => simp [linked, listInsertOrdered, link, bind, Except.bind] at stops

theorem requeueLinked (ok : requeue k t = .ok k') : ¬Unlinked k' t := by
  rintro ⟨queued, off⟩
  unfold requeue at ok
  split at ok
  · rename_i free
    cases ok
    exact queued free
  · obtain ⟨k₁, _, inserted⟩ := bindOk.mp ok
    obtain ⟨_, rfl⟩ := linkOk inserted
    simp at off

/-- The walk fails at a lock without a holder or at a donee that is in no list. -/
def Strands (k : Kernel) (f : Fault) : Prop :=
  f = .assertion .doneeNotNull ∧ (∃ m, (k.lock m).holder = none) ∨
    ∃ u, f = .notLinked u ∧ Unlinked k u

def weaker (threads : Finset Tid) (k : Kernel) (p : Nat) : Finset Tid :=
  threads.filter fun u => (k.thread u).ePri < p

theorem weakerRaised (raised : Raised p l donee k k')
    (inside : donee ∈ threads) (below : (k.thread donee).ePri < p) :
    (weaker threads k' p).card < (weaker threads k p).card := by
  refine Finset.card_lt_card (Finset.ssubset_iff_subset_ne.mpr ⟨fun u mem => ?_, fun same => ?_⟩)
  · obtain ⟨known, less⟩ := Finset.mem_filter.mp mem
    rw [raised.ePri] at less
    split at less
    · exact absurd less (Nat.lt_irrefl p)
    · exact Finset.mem_filter.mpr ⟨known, less⟩
  · have before : donee ∈ weaker threads k p := Finset.mem_filter.mpr ⟨inside, below⟩
    rw [← same] at before
    have less := (Finset.mem_filter.mp before).2
    rw [raised.ePri, if_pos rfl] at less
    exact absurd less (Nat.lt_irrefl p)

structure Walked (p : Nat) (caller : Tid) (k : Kernel) (raises : List (LockId × Option Tid))
    (result : Except Fault Kernel) : Prop where
  low : ∀ v ∈ raises, (k.lock v.1).pri < p ∧ ∀ u, v.2 = some u → (k.thread u).ePri < p
  once : (raises.map Prod.fst).Nodup
  stops : ∀ f, result = .error f → Strands k f
  pri : ∀ k', result = .ok k' → ∀ m,
    (k'.lock m).pri = if m ∈ raises.map Prod.fst then p else (k.lock m).pri
  same : ∀ k', result = .ok k' → Same caller k k'

theorem walked (finite : ∀ m u, (k.lock m).holder = some u → u ∈ threads)
    (enough : (weaker threads k p).card < turns) (own : (k.thread donor).ePri = p)
    (top : (k.thread caller).ePri = p) :
    Walked p caller k (raises turns k donor l) (donatePriAcquire turns k donor l) := by
  induction turns generalizing k donor l with
  | zero => omega
  | succ turns ih =>
    unfold raises donatePriAcquire
    cases held : (k.lock l).holder with
    | none =>
      refine ⟨by simp, by simp, fun f stops => ?_, by simp, by simp⟩
      cases stops
      exact .inl ⟨rfl, l, held⟩
    | some donee =>
      have still : ((raiseLock k l donee p).thread donee).ePri = (k.thread donee).ePri := by
        simp [raiseLock]
      have lock (m : LockId) : ((raiseLock k l donee p).lock m).pri =
          if m = l then p else (k.lock m).pri := by
        by_cases self : m = l <;> simp [raiseLock, self]
      simp only [own, still]
      by_cases settled : p ≤ (k.lock l).pri
      · simp only [settled, if_true]
        exact ⟨by simp, by simp, by simp, by simp, fun k' done => by
          cases done; exact ⟨⟨_, rfl⟩, fun _ => Iff.rfl⟩⟩
      · have below : (k.lock l).pri < p := Nat.lt_of_not_le settled
        simp only [settled, if_false]
        by_cases strong : p ≤ (k.thread donee).ePri
        · simp only [strong, if_true]
          refine ⟨by simp [below], by simp, by simp, fun k' done m => ?_, fun k' done => ?_⟩
          · cases done
            simp [lock]
          · cases done
            exact sameRaiseLock l donee p caller
        · have weak : (k.thread donee).ePri < p := Nat.lt_of_not_le strong
          have other : caller ≠ donee := by
            rintro rfl
            omega
          simp only [strong, if_false]
          cases sorted : requeue (raiseThread (raiseLock k l donee p) donee p) donee with
          | error f =>
            refine ⟨by simp [below, weak], by simp, fun g stops => ?_, by simp [bind, Except.bind],
              by simp [bind, Except.bind]⟩
            cases stops
            obtain ⟨rfl, unlinked⟩ := requeueFails sorted
            exact .inr ⟨donee, rfl, by simpa [Unlinked, raiseThread, raiseLock] using unlinked⟩
          | ok k₁ =>
            have raised := turnRaised sorted
            simp only [bind, Except.bind]
            cases (k₁.thread donee).donatedFor with
            | none =>
              refine ⟨by simp [below, weak], by simp, by simp, fun k' done m => ?_, fun k' done => ?_⟩
              · cases done
                simp [raised.pri]
              · cases done
                exact raised.same caller other
            | some next =>
              have rest := ih (l := next)
                (fun m u mine => finite m u ((raised.holder m).symm.trans mine))
                (Nat.lt_of_lt_of_le (weakerRaised raised (finite l donee held) weak)
                  (Nat.le_of_lt_succ enough))
                (by rw [raised.ePri, if_pos rfl]) (by rw [raised.ePri, if_neg other, top])
              -- what the rest of the walk raises was low after this turn, so the lock is not in it
              have later (v) (inside : v ∈ raises turns k₁ donee next) :
                  v.1 ≠ l ∧ (k.lock v.1).pri < p := by
                have low := (rest.low v inside).1
                rw [raised.pri] at low
                split at low
                · exact absurd low (Nat.lt_irrefl p)
                · rename_i apart
                  exact ⟨apart, low⟩
              refine ⟨fun v inside => ?_, ?_, fun f stops => ?_, fun k' done m => ?_, fun k' done =>
                sameTrans (raised.same caller other) (rest.same k' done)⟩
              · rcases List.mem_cons.mp inside with rfl | inside
                · exact ⟨below, fun u same => by cases same; exact weak⟩
                · refine ⟨(later v inside).2, fun u same => ?_⟩
                  have low := (rest.low v inside).2 u same
                  rw [raised.ePri] at low
                  split at low
                  · exact absurd low (Nat.lt_irrefl p)
                  · exact low
              · refine List.nodup_cons.mpr ⟨fun inside => ?_, rest.once⟩
                obtain ⟨v, member, same⟩ := List.mem_map.mp inside
                exact (later v member).1 same
              · rcases rest.stops f stops with ⟨fault, m, free⟩ | ⟨u, fault, unlinked⟩
                · exact .inl ⟨fault, m, (raised.holder m).symm.trans free⟩
                · have apart : u ≠ donee := fun same => requeueLinked sorted (same ▸ unlinked)
                  obtain ⟨held, thread⟩ := (raised.same u apart).thread
                  rw [Unlinked, thread] at unlinked
                  exact .inr ⟨u, fault, unlinked⟩
              · rw [rest.pri k' done, raised.pri]
                rw [List.map_cons]
                by_cases self : m = l
                · simp [self]
                · rw [if_neg self]
                  exact if_congr (by rw [List.mem_cons, or_iff_right self]) rfl rfl

end Turns

theorem donationWalk {k : Kernel} {threads : Finset Tid} {turns : Nat} (l : LockId)
    (finite : ∀ m u, (k.lock m).holder = some u → u ∈ threads) (enough : threads.card < turns) :
    let walk := raises turns k k.current l
    (∀ f, donatePriAcquire turns k k.current l = .error f → Strands k f) ∧
    (walk.map Prod.fst).Nodup ∧
    (∀ v ∈ walk, v.2 ≠ some k.current) ∧
    ∀ k', donatePriAcquire turns k k.current l = .ok k' →
      (∀ m, (k'.lock m).pri = if m ∈ walk.map Prod.fst then k.cur.ePri else (k.lock m).pri) ∧
      Same k.current k k' := by
  have few : (weaker threads k k.cur.ePri).card < turns :=
    Nat.lt_of_le_of_lt (Finset.card_filter_le _ _) enough
  have all : Walked k.cur.ePri k.current k _ _ := walked (l := l) finite few rfl rfl
  refine ⟨all.stops, all.once, fun v inside same => ?_, fun k' done =>
    ⟨all.pri k' done, all.same k' done⟩⟩
  exact Nat.lt_irrefl _ ((all.low v inside).2 _ same)

def deadlock : Kernel where
  policy := .prio
  thread t :=
    if t = 1 then {status := .running, ePri := 40, donatedFor := some 0, lockQueue := [1]}
    else if t = 2 then
      {ePri := 31, donatedFor := some 1, lockQueue := [0], queue := some (.semaWaiters (.lock 1)),
        elem := some (.semaWaiters (.lock 1))}
    else {}
  lock l := {holder := some (if l = 0 then 2 else 1), state := -1, pri := 31}
  value _ := 0
  list q := if q = .semaWaiters (.lock 1) then [2] else []
  current := 1
  idleThread := 0
  created := 3
  ticks := 0
  threadTicks := 0

theorem donationWalkExample : raises 3 deadlock 1 0 = [(0, some 2), (1, none)] ∧
    ∃ k', donatePriAcquire 3 deadlock 1 0 = .ok k' ∧ (k'.lock 0).pri = 40 ∧ (k'.lock 1).pri = 40 := by
  have finite : ∀ m u, (deadlock.lock m).holder = some u → u ∈ ({1, 2} : Finset Tid) := by
    intro m u held
    rw [← Option.some.inj held]
    split <;> simp
  have walk : raises 3 deadlock 1 0 = [(0, some 2), (1, none)] := by
    simp [raises, deadlock, requeue, raiseLock, raiseThread, listRemove, listInsertOrdered, link, bind,
      Except.bind]
  obtain ⟨stops, _, _, done⟩ := donationWalk 0 finite (show _ < 3 by decide)
  refine ⟨walk, ?_⟩
  cases ran : donatePriAcquire 3 deadlock 1 0 with
  | ok k' =>
    have pri := (done k' ran).1
    simp only [show raises 3 deadlock deadlock.current 0 = _ from walk] at pri
    exact ⟨k', rfl, pri 0, pri 1⟩
  | error f =>
    rcases stops f ran with ⟨_, m, free⟩ | ⟨u, _, queued, off⟩
    · cases free
    · by_cases second : u = 2
      · simp [deadlock, second] at off
      · by_cases first : u = 1 <;> simp [deadlock, first, second] at queued

end Pintos.Threads
