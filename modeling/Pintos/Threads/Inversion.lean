import Pintos.Threads.LockView

/-! The two bounds on effective priorities. Neither holds of the locks as they
are; for each there is a condition on single steps under which it holds in every
state of every run, and a run that breaks it without. -/
namespace Pintos.Threads
open Machine Ordered
open Inherit (State Event Step)

def BlockedOn (k : Kernel) (w : Tid) (l : LockId) : Prop :=
  (k.thread w).status = .blocked ∧ w ∈ k.list (.semaWaiters (.lock l))

def WaitsFor (k : Kernel) (w t : Tid) : Prop :=
  ∃ l, (k.lock l).holder = some t ∧ BlockedOn k w l

theorem blockedOn {k} (own : Owned k) (coh : Coherent k) (w l) :
    BlockedOn k w l ↔ (view k).Waits l w := by
  rw [viewWaits own]
  constructor
  · exact fun waits => (coh.links.mem w _).mp waits.2
  · intro queued
    refine ⟨?_, (coh.links.mem w _).mpr queued⟩
    have other : k.current ≠ w := by rintro rfl; exact runningAwake coh l queued
    exact (coh.links.placed w).waiting _ (by simpa using other) queued (by simp)

theorem waiterWaits {k} (own : Owned k) (coh : Coherent k) (w l) :
    w ∈ k.list (.semaWaiters (.lock l)) ↔ (view k).Waits l w := by
  rw [viewWaits own, coh.links.mem]
  exact Iff.rfl

section Lower

structure NoInversion (k : Kernel) : Prop where
  base : ∀ t, (k.thread t).bPri ≤ (k.thread t).ePri
  waiting : ∀ l t w, (k.lock l).holder = some t → BlockedOn k w l →
    (k.thread w).ePri ≤ (k.thread t).ePri
  chain : ∀ w t, Relation.TransGen (WaitsFor k) w t → (k.thread w).ePri ≤ (k.thread t).ePri

def Strongest (k : Kernel) (l : LockId) : Prop :=
  ∀ w ∈ k.list (.semaWaiters (.lock l)), (k.thread w).ePri ≤ k.cur.ePri

instance (k l) : Decidable (Strongest k l) := by unfold Strongest; infer_instance

def Covers (k : Kernel) : Frame → Prop
  | .lockAcquire l =>
    if k.value (.lock l) = 0 then
      (k.lock l).holder ≠ none → 0 ≤ int8 ((k.lock l).state - 1) → k.cur.ePri ≤ (k.lock l).pri
    else Strongest k l
  | .lockAcquireLoop l =>
    if k.value (.lock l) = 0 then (k.lock l).holder ≠ none → k.cur.ePri ≤ (k.lock l).pri
    else Strongest k l
  | .lockTryAcquire l => 0 < k.value (.lock l) → Strongest k l
  | .lockRelease l => ∀ m ∈ (k.cur.lockQueue.erase l).head?, k.cur.bPri ≤ (k.lock m).pri
  | _ => True

instance (k f) : Decidable (Covers k f) := by
  unfold Covers; split <;> infer_instance

def Runs (need : Kernel → Frame → Prop) (k : Kernel) (a : Action) : Prop :=
  a = .run → ∀ f ∈ k.cur.stack.head?, need k f

instance (need : Kernel → Frame → Prop) [∀ k f, Decidable (need k f)] (k a) :
    Decidable (Runs need k a) := by unfold Runs; infer_instance

theorem runsEvent {need : Kernel → Frame → Prop} {wants : State Tid LockId → Event Tid LockId → Prop}
    {k a} (calm : ∀ s, wants s .none) (runs : Runs need k a)
    (frame : ∀ f, need k f → wants (view k) (frameEvent k f)) : wants (view k) (event k a) := by
  cases a with
  | run =>
    unfold event
    cases top : k.cur.stack with
    | nil => exact calm _
    | cons f rest => exact frame f (runs rfl f (by rw [top]; rfl))
  | call op => exact calm _
  | tick => exact calm _

theorem strongestWaits {k l} (own : Owned k) (coh : Coherent k) (strong : Strongest k l) :
    ∀ w, (view k).Waits l w → (view k).ePri w ≤ (view k).ePri k.current :=
  fun w waits => strong w ((waiterWaits own coh w l).mpr waits)

theorem heldElsewhere {k l m} (own : Owned k) (other : m ≠ l)
    (held : (k.lock m).holder = some k.current) : m ∈ k.cur.lockQueue.erase l := by
  rw [List.mem_erase_of_ne other]
  exact (own.held m k.current).mp held

theorem erasedHeld {k l m} (own : Owned k) (inside : m ∈ k.cur.lockQueue.erase l) :
    m ≠ l ∧ (k.lock m).holder = some k.current := by
  have other : m ≠ l := by
    rintro rfl
    exact (own.nodup k.current).not_mem_erase inside
  rw [List.mem_erase_of_ne other] at inside
  exact ⟨other, (own.held m k.current).mpr inside⟩

theorem coversStrong {k f} (own : Owned k) (coh : Coherent k) (covers : Covers k f) :
    Inherit.Strong (view k) (frameEvent k f) := by
  cases f with
  | lockAcquire l =>
    simp only [Covers] at covers
    simp only [frameEvent]
    split
    · rename_i zero
      rw [if_pos zero] at covers
      split
      · trivial
      · rename_i silent
        intro held
        have : 0 ≤ int8 ((k.lock l).state - 1) := by
          by_contra negative
          exact silent ⟨by omega, held⟩
        exact covers held this
    · rename_i positive
      rw [if_neg positive] at covers
      exact strongestWaits own coh covers
  | lockAcquireLoop l =>
    simp only [Covers] at covers
    simp only [frameEvent]
    split
    · rename_i zero
      rw [if_pos zero] at covers
      exact covers
    · rename_i positive
      rw [if_neg positive] at covers
      exact strongestWaits own coh covers
  | lockTryAcquire l =>
    simp only [frameEvent]
    split
    · exact strongestWaits own coh (covers (by assumption))
    · trivial
  | lockRelease l =>
    intro m other held
    have inside := heldElsewhere own other held
    obtain ⟨first, head⟩ := Option.isSome_iff_exists.mp
      (List.isSome_head?.mpr (List.ne_nil_of_mem inside))
    obtain ⟨apart, holds⟩ := erasedHeld own (List.mem_of_mem_head? head)
    exact ⟨first, apart, holds, covers first head⟩
  | semaUp s =>
    cases s with
    | plain n => trivial
    | lock l =>
      simp only [frameEvent]
      split <;> trivial
  | _ => trivial

theorem bootCovered (policy values) : Inherit.Covered (view (boot policy values)) where
  base t := by by_cases h0 : t = 0 <;> by_cases h1 : t = 1 <;> simp [view, boot, h0, h1]
  cached l t held := by simp [view, boot] at held
  waiting l t w held := by simp [view, boot] at held

theorem noInversionWhileCovered {policy values k}
    (run : Run step (Runs Covers) (boot policy values) k) : NoInversion k := by
  obtain ⟨coh, own, covered⟩ := runView Inherit.Strong Inherit.Covered run (bootCovered policy values)
    (fun k a own coh allowed => runsEvent (fun _ => trivial) allowed
      (fun f covers => coversStrong own coh covers))
    (fun _ _ _ covered strong step => Inherit.stepCovered covered strong step)
  have waitsFor : ∀ w t, WaitsFor k w t → (view k).WaitsFor w t := by
    rintro w t ⟨l, held, blocked⟩
    exact ⟨l, held, (blockedOn own coh w l).mp blocked⟩
  refine ⟨covered.base, ?_, ?_⟩
  · intro l t w held blocked
    exact Inherit.coveredWaiters covered (.single (waitsFor w t ⟨l, held, blocked⟩))
  · intro w t chain
    exact Inherit.coveredWaiters covered (Relation.TransGen.mono waitsFor _ _ chain)

theorem noInversionWhileCoveredExample :
    ∃ k, Run step (Runs Covers) (boot .prio (fun _ => 0)) k ∧
      ((k.lock 1).holder = some 1 ∧ 2 ∈ k.list (.semaWaiters (.lock 1)) ∧
        (k.thread 1).ePri = 40) ∧ NoInversion k := by
  obtain ⟨k, run, found⟩ := execFinds step (Runs Covers) (boot .prio (fun _ => 0))
    ([.call (.lockAcquire 1), .run] ++ creates 40 ++ [.call (.lockAcquire 1), .run])
    (fun k => decide ((k.lock 1).holder = some 1 ∧ 2 ∈ k.list (.semaWaiters (.lock 1)) ∧
      (k.thread 1).ePri = 40)) (by decide +kernel)
  exact ⟨k, run, of_decide_eq_true found, noInversionWhileCovered run⟩

theorem releaseBelowBase :
    ∃ k, Run step (fun _ _ => True) (boot .prio (fun _ => 0)) k ∧ ¬ NoInversion k := by
  obtain ⟨k, run, found⟩ := execFinds step (fun _ _ => True) (boot .prio (fun _ => 0))
    [.call (.lockAcquire 1), .run, .call (.lockAcquire 2), .run, .call (.threadSetPriority 40), .run,
      .call (.lockRelease 2), .run]
    (fun k => decide ((k.thread 1).ePri < (k.thread 1).bPri)) (by decide +kernel)
  refine ⟨k, run, fun rule => ?_⟩
  exact absurd (of_decide_eq_true found) (Nat.not_lt.mpr (rule.base 1))

end Lower

section Upper

def NoStale (k : Kernel) : Prop :=
  ∀ t, (k.thread t).ePri ≤ (k.thread t).bPri ∨
    ∃ l w, (k.lock l).holder = some t ∧ BlockedOn k w l ∧ (k.thread t).ePri ≤ (k.thread w).ePri

def Claimed (k : Kernel) (locks : List LockId) (p : Nat) : Prop :=
  ∃ l ∈ locks, ∃ w ∈ k.list (.semaWaiters (.lock l)), p ≤ (k.thread w).ePri

instance (k locks p) : Decidable (Claimed k locks p) := by unfold Claimed; infer_instance

def passesOn (k : Kernel) (p : Nat) : Nat → LockId → Bool
  | 0, _ => true
  | turns + 1, l =>
    match (k.lock l).holder with
    | none => true
    | some donee =>
      if (k.lock l).pri < p ∧ (k.thread donee).ePri < p then
        match (k.thread donee).donatedFor with
        | none => true
        | some m => decide (donee ∈ k.list (.semaWaiters (.lock m))) && passesOn k p turns m
      else true

/-- What a frame has to meet: a base is lowered below the effective priority, and
a release falls back to what a lock remembers, only while some waiter of a lock
still held has that much; a donation passes only through threads that wait. -/
def Backs (k : Kernel) : Frame → Prop
  | .threadSetPriority p => p.val < k.cur.ePri → k.cur.lockQueue ≠ [] →
      p.val = k.cur.bPri ∨ Claimed k k.cur.lockQueue k.cur.ePri
  | .lockAcquire l => passesOn k k.cur.ePri (k.created + 1) l = true
  | .lockRelease l => ∀ m ∈ (k.cur.lockQueue.erase l).head?,
      (k.lock m).pri ≤ k.cur.bPri ∨ Claimed k (k.cur.lockQueue.erase l) (k.lock m).pri
  | _ => True

instance (k f) : Decidable (Backs k f) := by
  unfold Backs; split <;> infer_instance

theorem passesView {k p turns l} (coh : Coherent k)
    (passes : passesOn k p turns l = true) : Inherit.Passes (view k) p turns l := by
  induction turns generalizing l with
  | zero => trivial
  | succ turns ih =>
    intro donee m held below weak onward
    have held' : (k.lock l).holder = some donee := held
    have onward' : (k.thread donee).donatedFor = some m := onward
    have low : (k.lock l).pri < p ∧ (k.thread donee).ePri < p := ⟨below, weak⟩
    simp only [passesOn, held', onward', if_pos low, Bool.and_eq_true, decide_eq_true_eq] at passes
    exact ⟨⟨m, (coh.links.mem donee _).mp passes.1⟩, ih passes.2⟩

theorem claimedWaits {k locks p} (own : Owned k) (coh : Coherent k) (claimed : Claimed k locks p) :
    ∃ l ∈ locks, ∃ w, (view k).Waits l w ∧ p ≤ (view k).ePri w := by
  obtain ⟨l, inside, w, waits, le⟩ := claimed
  exact ⟨l, inside, w, (waiterWaits own coh w l).mp waits, le⟩

theorem backsBacked {k f} (own : Owned k) (coh : Coherent k) (backs : Backs k f) :
    Inherit.Backed (view k) (frameEvent k f) := by
  cases f with
  | threadSetPriority p =>
    intro changed under holds
    rcases Nat.eq_or_lt_of_le under with same | below
    · exact .inl (Nat.le_of_eq same.symm)
    · obtain ⟨l, held⟩ := holds
      have inside := (own.held l k.current).mp held
      rcases backs below (List.ne_nil_of_mem inside) with same | claimed
      · exact absurd same changed
      · obtain ⟨m, mine, w, waits, le⟩ := claimedWaits own coh claimed
        exact .inr ⟨m, w, (own.held m k.current).mpr mine, waits, le⟩
  | lockAcquire l =>
    simp only [frameEvent]
    split
    · split
      · exact passesView coh backs
      · trivial
    · trivial
  | lockAcquireLoop l | lockTryAcquire l =>
    simp only [frameEvent]
    split <;> trivial
  | lockRelease l =>
    intro p back
    rcases back with ⟨_, rfl⟩ | ⟨⟨m, other, held, rfl⟩, most⟩
    · exact .inl (Nat.le_refl _)
    · have inside := heldElsewhere own other held
      obtain ⟨first, head⟩ := Option.isSome_iff_exists.mp
        (List.isSome_head?.mpr (List.ne_nil_of_mem inside))
      obtain ⟨apart, holds⟩ := erasedHeld own (List.mem_of_mem_head? head)
      have largest : (k.lock m).pri ≤ (k.lock first).pri := by
        obtain ⟨others, split⟩ := List.head?_eq_some_iff.mp head
        have sorted := descendingErase l (own.sorted k.current)
        simp only [Kernel.cur] at split inside
        rw [split] at sorted inside
        exact headLargest sorted m inside
      rcases backs first head with le | claimed
      · exact .inl (Nat.le_trans largest le)
      · obtain ⟨m', mine, w, waits, le⟩ := claimedWaits own coh claimed
        obtain ⟨apart', holds'⟩ := erasedHeld own mine
        exact .inr ⟨m', w, apart', holds', waits, Nat.le_trans largest le⟩
  | semaUp s =>
    cases s with
    | plain n => trivial
    | lock l =>
      simp only [frameEvent]
      split <;> trivial
  | _ => trivial

theorem bootFresh (policy values) : Inherit.Fresh (view (boot policy values)) := by
  intro t
  refine .inl ?_
  by_cases h0 : t = 0 <;> by_cases h1 : t = 1 <;> simp [view, boot, h0, h1]

theorem noStaleWhileBacked {policy values k}
    (run : Run step (Runs Backs) (boot policy values) k) : NoStale k := by
  obtain ⟨coh, own, fresh⟩ := runView Inherit.Backed Inherit.Fresh run (bootFresh policy values)
    (fun k a own coh allowed => runsEvent (fun _ => trivial) allowed
      (fun f backs => backsBacked own coh backs))
    (fun _ _ _ fresh backed step => Inherit.stepFresh fresh backed step)
  intro t
  rcases fresh t with le | ⟨l, w, held, waits, le⟩
  · exact .inl le
  · exact .inr ⟨l, w, held, (blockedOn own coh w l).mpr waits, le⟩

theorem noStaleWhileBackedExample :
    ∃ k, Run step (Runs Backs) (boot .prio (fun _ => 0)) k ∧
      ((k.lock 1).holder = none ∧ 2 ∈ k.list (.semaWaiters (.lock 1)) ∧
        (k.thread 1).ePri = 31) ∧ NoStale k := by
  obtain ⟨k, run, found⟩ := execFinds step (Runs Backs) (boot .prio (fun _ => 0))
    ([.call (.lockAcquire 1), .run] ++ creates 40 ++ [.call (.lockAcquire 1), .run,
      .call (.lockRelease 1), .run])
    (fun k => decide ((k.lock 1).holder = none ∧ 2 ∈ k.list (.semaWaiters (.lock 1)) ∧
      (k.thread 1).ePri = 31)) (by decide +kernel)
  exact ⟨k, run, of_decide_eq_true found, noStaleWhileBacked run⟩

theorem lowerWhileHolding :
    ∃ k, Run step (fun _ _ => True) (boot .prio (fun _ => 0)) k ∧ ¬ NoStale k := by
  obtain ⟨k, run, found⟩ := execFinds step (fun _ _ => True) (boot .prio (fun _ => 0))
    [.call (.lockAcquire 1), .run, .call (.threadSetPriority 10), .run]
    (fun k => decide ((k.thread 1).bPri < (k.thread 1).ePri ∧ (k.thread 1).lockQueue = [1] ∧
      k.list (.semaWaiters (.lock 1)) = [])) (by decide +kernel)
  obtain ⟨above, only, nobody⟩ := of_decide_eq_true found
  obtain ⟨_, own⟩ := runOwned run
  refine ⟨k, run, fun rule => ?_⟩
  rcases rule 1 with le | ⟨l, w, held, blocked, _⟩
  · exact absurd above (Nat.not_lt.mpr le)
  · have inside := (own.held l 1).mp held
    rw [only] at inside
    cases List.mem_singleton.mp inside
    simpa [nobody] using blocked.2

end Upper

end Pintos.Threads
