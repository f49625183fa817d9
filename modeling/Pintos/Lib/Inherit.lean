import Mathlib.Logic.Function.Basic
import Mathlib.Logic.Relation
import Mathlib.Tactic.Basic

/-! Priority inheritance through locks that cache the priority donated to them.
A thread has a base and an effective priority, a lock remembers the largest
priority it has been given while it is held, a waiter's priority is walked up the
chain of holders until it changes nothing, and a holder that lets a lock go falls
back to what its other locks remember.

The protocol by itself keeps neither of the two bounds one expects of it. What
each step has to meet for the lower bound is `Strong`, for the upper bound
`Backed`. -/
namespace Pintos.Inherit
open Function (update update_of_ne update_self)

variable {T L : Type}

@[ext]
structure State (T L : Type) where
  ePri : T → Nat
  bPri : T → Nat
  holder : L → Option T
  pri : L → Nat
  target : T → Option L
  asleep : T → Prop

def State.Waits (s : State T L) (l : L) (w : T) : Prop := s.target w = some l ∧ s.asleep w

inductive Event (T L : Type) where
  | none
  | create (t : T) (p : Nat)
  | setBase (t : T) (p : Nat)
  | donate (t : T) (l : L) (turns : Nat)
  | wait (t : T) (l : L)
  | take (t : T) (l : L)
  | release (t : T) (l : L)
  | wake (t : T) (l : L)

variable [DecidableEq T] [DecidableEq L]

def State.raiseLock (s : State T L) (l : L) (p : Nat) : State T L :=
  {s with pri := update s.pri l p}

def State.raise (s : State T L) (l : L) (t : T) (p : Nat) : State T L :=
  {s.raiseLock l p with ePri := update s.ePri t p}

def State.aim (s : State T L) (t : T) (l : L) : State T L :=
  {s with target := update s.target t (some l)}

def State.sleep (s : State T L) (t : T) : State T L :=
  {s with asleep := update s.asleep t True}

inductive Walk : Nat → State T L → T → L → State T L → Prop where
  | settled {n s donor l d} (held : s.holder l = some d) (enough : s.ePri donor ≤ s.pri l) :
      Walk (n + 1) s donor l s
  | lock {n s donor l d} (held : s.holder l = some d) (below : s.pri l < s.ePri donor)
      (strong : s.ePri donor ≤ s.ePri d) : Walk (n + 1) s donor l (s.raiseLock l (s.ePri donor))
  | last {n s donor l d} (held : s.holder l = some d) (below : s.pri l < s.ePri donor)
      (weak : s.ePri d < s.ePri donor) (alone : s.target d = none) :
      Walk (n + 1) s donor l (s.raise l d (s.ePri donor))
  | next {n s donor l d m s'} (held : s.holder l = some d) (below : s.pri l < s.ePri donor)
      (weak : s.ePri d < s.ePri donor) (onward : s.target d = some m)
      (rest : Walk n (s.raise l d (s.ePri donor)) d m s') : Walk (n + 1) s donor l s'

def Restored (s : State T L) (t : T) (l : L) (p : Nat) : Prop :=
  (∀ m, m ≠ l → s.holder m ≠ some t) ∧ p = s.bPri t ∨
  (∃ m, m ≠ l ∧ s.holder m = some t ∧ p = s.pri m) ∧
    ∀ m, m ≠ l → s.holder m = some t → s.pri m ≤ p

inductive Step (s : State T L) : Event T L → State T L → Prop where
  | none : Step s .none s
  | create {t p} (alone : ∀ l, s.holder l ≠ some t) (awake : ¬ s.asleep t) :
      Step s (.create t p)
        {s with ePri := update s.ePri t p, bPri := update s.bPri t p}
  | keepBase {t p} (same : p = s.bPri t) : Step s (.setBase t p) s
  | raiseBase {t p} (above : s.ePri t < p) (awake : ¬ s.asleep t) :
      Step s (.setBase t p)
        {s with ePri := update s.ePri t p, bPri := update s.bPri t p}
  | lowerFree {t p} (free : ∀ l, s.holder l ≠ some t) (awake : ¬ s.asleep t) :
      Step s (.setBase t p)
        {s with ePri := update s.ePri t p, bPri := update s.bPri t p}
  | lowerHeld {t p} (changed : p ≠ s.bPri t) (under : p ≤ s.ePri t)
      (holds : ∃ l, s.holder l = some t) :
      Step s (.setBase t p) {s with bPri := update s.bPri t p}
  | donate {t l n s1} (awake : ¬ s.asleep t) (walk : Walk n (s.aim t l) t l s1) :
      Step s (.donate t l n) (s1.sleep t)
  | wait {t l} (awake : ¬ s.asleep t) : Step s (.wait t l) ((s.aim t l).sleep t)
  | take {t l x} (awake : ¬ s.asleep t) (free : s.holder l = none)
      (aims : x = none ∨ x = s.target t) :
      Step s (.take t l) {s with
        holder := update s.holder l (some t)
        pri := update s.pri l (s.ePri t)
        target := update s.target t x}
  | release {t l p} (awake : ¬ s.asleep t) (held : s.holder l = some t)
      (back : Restored s t l p) :
      Step s (.release t l) {s with
        holder := update s.holder l none
        pri := update s.pri l 0
        ePri := update s.ePri t p}
  | wake {t l} (waits : s.Waits l t) (free : s.holder l = none) :
      Step s (.wake t l) {s with asleep := update s.asleep t False}

section Walks

structure Raised (p : Nat) (s s' : State T L) : Prop where
  ePri : ∀ t, s'.ePri t = s.ePri t ∨ s.ePri t < p ∧ s'.ePri t = p
  pri : ∀ l, s'.pri l = s.pri l ∨ s.pri l < p ∧ s'.pri l = p
  bPri : s'.bPri = s.bPri
  holder : s'.holder = s.holder
  target : s'.target = s.target
  asleep : s'.asleep = s.asleep

omit [DecidableEq T] [DecidableEq L] in
theorem raisedRefl (p) (s : State T L) : Raised p s s where
  ePri _ := .inl rfl
  pri _ := .inl rfl
  bPri := rfl
  holder := rfl
  target := rfl
  asleep := rfl

omit [DecidableEq T] [DecidableEq L] in
theorem raisedTrans {p} {a b c : State T L} (first : Raised p a b) (second : Raised p b c) :
    Raised p a c where
  ePri t := by have := first.ePri t; have := second.ePri t; omega
  pri l := by have := first.pri l; have := second.pri l; omega
  bPri := second.bPri.trans first.bPri
  holder := second.holder.trans first.holder
  target := second.target.trans first.target
  asleep := second.asleep.trans first.asleep

omit [DecidableEq T] in
theorem raisedLock {p} {s : State T L} {l} (below : s.pri l < p) :
    Raised p s (s.raiseLock l p) where
  ePri _ := .inl rfl
  pri m := by
    by_cases h : m = l
    · subst m; exact .inr ⟨below, by simp [State.raiseLock]⟩
    · exact .inl (by simp [State.raiseLock, h])
  bPri := rfl
  holder := rfl
  target := rfl
  asleep := rfl

theorem raisedTurn {p} {s : State T L} {l d} (below : s.pri l < p) (weak : s.ePri d < p) :
    Raised p s (s.raise l d p) where
  ePri t := by
    by_cases h : t = d
    · subst t; exact .inr ⟨weak, by simp [State.raise]⟩
    · exact .inl (by simp [State.raise, State.raiseLock, h])
  pri := (raisedLock below).pri
  bPri := rfl
  holder := rfl
  target := rfl
  asleep := rfl

theorem walkRaised {n} {s s' : State T L} {donor l} (walk : Walk n s donor l s') :
    Raised (s.ePri donor) s s' ∧ s.ePri donor ≤ s'.pri l := by
  induction walk with
  | settled held enough => exact ⟨raisedRefl _ _, enough⟩
  | lock held below strong => exact ⟨raisedLock below, by simp [State.raiseLock]⟩
  | last held below weak alone =>
    exact ⟨raisedTurn below weak, by simp [State.raise, State.raiseLock]⟩
  | @next n s donor l d m s' held below weak onward rest ih =>
    have top : (s.raise l d (s.ePri donor)).ePri d = s.ePri donor := by simp [State.raise]
    have here : (s.raise l d (s.ePri donor)).pri l = s.ePri donor := by
      simp [State.raise, State.raiseLock]
    rw [top] at ih
    refine ⟨raisedTrans (raisedTurn below weak) ih.1, ?_⟩
    have := ih.1.pri l
    omega

end Walks

section Lower

structure Covered (s : State T L) : Prop where
  base : ∀ t, s.bPri t ≤ s.ePri t
  cached : ∀ l t, s.holder l = some t → s.pri l ≤ s.ePri t
  waiting : ∀ l t w, s.holder l = some t → s.Waits l w → s.ePri w ≤ s.pri l

/-- A thread sleeps without donating only if the lock already remembers as much,
takes a lock only if it is not weaker than those still waiting for it, and falls
back to a lock's memory only if that is not below its base. -/
def Strong (s : State T L) : Event T L → Prop
  | .wait t l => s.holder l ≠ none → s.ePri t ≤ s.pri l
  | .take t l => ∀ w, s.Waits l w → s.ePri w ≤ s.ePri t
  | .release t l => ∀ m, m ≠ l → s.holder m = some t →
      ∃ m', m' ≠ l ∧ s.holder m' = some t ∧ s.bPri t ≤ s.pri m'
  | _ => True

structure CoveredBut (s : State T L) (donor : T) (l : L) : Prop where
  base : ∀ t, s.bPri t ≤ s.ePri t
  cached : ∀ m t, s.holder m = some t → s.pri m ≤ s.ePri t
  waiting : ∀ m t w, s.holder m = some t → s.Waits m w →
    w = donor ∧ m = l ∨ s.ePri w ≤ s.pri m

omit [DecidableEq T] in
theorem lockCovered {s : State T L} {donor l d} (but : CoveredBut s donor l)
    (held : s.holder l = some d) (below : s.pri l < s.ePri donor)
    (strong : s.ePri donor ≤ s.ePri d) : Covered (s.raiseLock l (s.ePri donor)) where
  base := but.base
  cached m t holds := by
    have old := but.cached m t holds
    by_cases h : m = l
    · subst m
      cases Option.some.inj (held.symm.trans holds)
      simpa [State.raiseLock] using strong
    · simpa [State.raiseLock, h] using old
  waiting m t w holds waits := by
    have old := but.waiting m t w holds waits
    by_cases h : m = l
    · subst m
      simp only [State.raiseLock, update_self]
      rcases old with ⟨rfl, _⟩ | le
      · exact Nat.le_refl _
      · omega
    · simpa [State.raiseLock, h] using old

theorem turnCovered {s : State T L} {donor l d} (but : CoveredBut s donor l)
    (held : s.holder l = some d) (below : s.pri l < s.ePri donor)
    (weak : s.ePri d < s.ePri donor) :
    (∀ t, s.bPri t ≤ (s.raise l d (s.ePri donor)).ePri t) ∧
    (∀ m t, s.holder m = some t →
      (s.raise l d (s.ePri donor)).pri m ≤ (s.raise l d (s.ePri donor)).ePri t) ∧
    ∀ m t w, s.holder m = some t → s.Waits m w → w = d ∨
      (s.raise l d (s.ePri donor)).ePri w ≤ (s.raise l d (s.ePri donor)).pri m := by
  have ePri := (raisedTurn below weak).ePri
  have pri := (raisedTurn below weak).pri
  have here : (s.raise l d (s.ePri donor)).pri l = s.ePri donor := by
    simp [State.raise, State.raiseLock]
  have up : (s.raise l d (s.ePri donor)).ePri d = s.ePri donor := by simp [State.raise]
  refine ⟨?_, ?_, ?_⟩
  · intro t
    have := ePri t
    have := but.base t
    omega
  · intro m t holds
    have := ePri t
    have old := but.cached m t holds
    by_cases h : m = l
    · subst m
      cases Option.some.inj (held.symm.trans holds)
      omega
    · have same : (s.raise l d (s.ePri donor)).pri m = s.pri m := by
        simp [State.raise, State.raiseLock, h]
      omega
  · intro m t w holds waits
    by_cases hw : w = d
    · exact .inl hw
    · have same : (s.raise l d (s.ePri donor)).ePri w = s.ePri w := by
        simp [State.raise, State.raiseLock, hw]
      have := pri m
      rcases but.waiting m t w holds waits with ⟨rfl, rfl⟩ | le
      all_goals exact .inr (by omega)

theorem walkCovered {n} {s s' : State T L} {donor l} (walk : Walk n s donor l s')
    (but : CoveredBut s donor l) : Covered s' := by
  induction walk with
  | settled held enough =>
    refine ⟨but.base, but.cached, ?_⟩
    intro m t w holds waits
    rcases but.waiting m t w holds waits with ⟨rfl, rfl⟩ | le
    · exact enough
    · exact le
  | lock held below strong => exact lockCovered but held below strong
  | last held below weak alone =>
    obtain ⟨base, cached, waiting⟩ := turnCovered but held below weak
    refine ⟨base, cached, ?_⟩
    intro m t w holds waits
    rcases waiting m t w holds waits with rfl | le
    · have aims : _ = some m := waits.1
      simp [State.raise, State.raiseLock, alone] at aims
    · exact le
  | next held below weak onward rest ih =>
    obtain ⟨base, cached, waiting⟩ := turnCovered but held below weak
    refine ih ⟨base, cached, ?_⟩
    intro m t w holds waits
    rcases waiting m t w holds waits with rfl | le
    · exact .inl ⟨rfl, Option.some.inj (waits.1.symm.trans onward)⟩
    · exact .inr le

omit [DecidableEq L] in
theorem aimWaits {s : State T L} {t l m w} (awake : ¬ s.asleep t) :
    (s.aim t l).Waits m w ↔ s.Waits m w := by
  by_cases h : w = t
  · subst w
    exact iff_of_false (fun waits => awake waits.2) (fun waits => awake waits.2)
  · simp [State.Waits, State.aim, h]

omit [DecidableEq L] in
theorem sleepWaits {s : State T L} {t l w} :
    (s.sleep t).Waits l w ↔ s.Waits l w ∨ w = t ∧ s.target t = some l := by
  by_cases h : w = t
  · subst w
    simp only [State.Waits, State.sleep, update_self, and_true, true_and]
    exact ⟨fun aims => .inr aims, fun h => h.elim And.left id⟩
  · simp [State.Waits, State.sleep, h]

omit [DecidableEq L] in
theorem sleepCovered {s : State T L} {t} (cov : Covered s)
    (enough : ∀ l d, s.target t = some l → s.holder l = some d → s.ePri t ≤ s.pri l) :
    Covered (s.sleep t) where
  base := cov.base
  cached := cov.cached
  waiting l d w held waits := by
    rcases sleepWaits.mp waits with before | ⟨rfl, aims⟩
    · exact cov.waiting l d w held before
    · exact enough l d aims held

omit [DecidableEq L] in
theorem aimCovered {s : State T L} {t l} (cov : Covered s) (awake : ¬ s.asleep t) :
    Covered (s.aim t l) :=
  ⟨cov.base, cov.cached, fun m d w held waits => cov.waiting m d w held ((aimWaits awake).mp waits)⟩

omit [DecidableEq L] in
theorem setCovered {s : State T L} {t p q} (cov : Covered s) (awake : ¬ s.asleep t) (le : q ≤ p)
    (cached : ∀ l, s.holder l = some t → s.pri l ≤ p) :
    Covered {s with ePri := update s.ePri t p, bPri := update s.bPri t q} where
  base u := by
    have := cov.base u
    by_cases h : u = t <;> simp [h, le, this]
  cached l u held := by
    by_cases h : u = t
    · subst u; simpa using cached l held
    · simpa [h] using cov.cached l u held
  waiting l u w held waits := by
    have apart : w ≠ t := by rintro rfl; exact awake waits.2
    simpa [apart] using cov.waiting l u w held waits

theorem takeCovered {s : State T L} {t l x} (cov : Covered s) (awake : ¬ s.asleep t)
    (strong : ∀ w, s.Waits l w → s.ePri w ≤ s.ePri t) :
    Covered {s with
      holder := update s.holder l (some t)
      pri := update s.pri l (s.ePri t)
      target := update s.target t x} where
  base := cov.base
  cached m u held := by
    by_cases h : m = l
    · subst m
      have same : some t = some u := by simpa using held
      cases same
      simp
    · simpa [h] using cov.cached m u (by simpa [h] using held)
  waiting m u w held waits := by
    have apart : w ≠ t := by rintro rfl; exact awake waits.2
    have before : s.Waits m w := by simpa [State.Waits, apart] using waits
    by_cases h : m = l
    · subst m; simpa using strong w before
    · simpa [h] using cov.waiting m u w (by simpa [h] using held) before

theorem releaseCovered {s : State T L} {t l p} (cov : Covered s) (awake : ¬ s.asleep t)
    (held : s.holder l = some t) (back : Restored s t l p)
    (strong : Strong s (.release t l)) :
    Covered {s with
      holder := update s.holder l none
      pri := update s.pri l 0
      ePri := update s.ePri t p} where
  base u := by
    by_cases h : u = t
    · subst u
      simp only [update_self]
      rcases back with ⟨_, rfl⟩ | ⟨⟨m, ne, holds, rfl⟩, most⟩
      · exact Nat.le_refl _
      · obtain ⟨m', ne', holds', le⟩ := strong m ne holds
        exact Nat.le_trans le (most m' ne' holds')
    · simpa [h] using cov.base u
  cached m u holds := by
    by_cases h : m = l
    · subst m; simp at holds
    · have before : s.holder m = some u := by simpa [h] using holds
      by_cases hu : u = t
      · subst u
        rcases back with ⟨nothing, _⟩ | ⟨_, most⟩
        · exact absurd before (nothing m h)
        · simpa [h] using most m h before
      · simpa [h, hu] using cov.cached m u before
  waiting m u w holds waits := by
    have apart : w ≠ t := by rintro rfl; exact awake waits.2
    by_cases h : m = l
    · subst m; simp at holds
    · simpa [h, apart] using cov.waiting m u w (by simpa [h] using holds) waits

theorem stepCovered {s s' : State T L} {ev} (cov : Covered s) (strong : Strong s ev)
    (step : Step s ev s') : Covered s' := by
  cases step with
  | none => exact cov
  | create alone awake =>
    exact setCovered cov awake (Nat.le_refl _) (fun l held => absurd held (alone l))
  | keepBase same => exact cov
  | raiseBase above awake =>
    refine setCovered cov awake (Nat.le_refl _) (fun l held => ?_)
    exact Nat.le_trans (cov.cached l _ held) (Nat.le_of_lt above)
  | lowerFree free awake =>
    exact setCovered cov awake (Nat.le_refl _) (fun l held => absurd held (free l))
  | @lowerHeld t p changed under holds =>
    refine ⟨fun u => ?_, cov.cached, cov.waiting⟩
    have := cov.base u
    by_cases h : u = t <;> simp [h, under, this]
  | @donate t l n s1 awake walk =>
    have start := aimCovered (l := l) cov awake
    have covered := walkCovered walk
      ⟨start.base, start.cached, fun m d w held waits => .inr (start.waiting m d w held waits)⟩
    obtain ⟨raised, enough⟩ := walkRaised walk
    refine sleepCovered covered ?_
    intro m d aims held
    have same : m = l := by
      rw [raised.target] at aims
      simpa [State.aim, eq_comm] using aims
    subst m
    have := raised.ePri t
    omega
  | @wait t l awake =>
    refine sleepCovered (aimCovered cov awake) ?_
    intro m d aims held
    have same : l = m := by simpa [State.aim] using aims
    subst m
    have holds : s.holder l = some d := held
    exact strong (by simp [holds])
  | take awake free aims => exact takeCovered cov awake strong
  | release awake held back => exact releaseCovered cov awake held back strong
  | @wake t l waits free =>
    refine ⟨cov.base, cov.cached, ?_⟩
    intro m d w held waits'
    refine cov.waiting m d w held ⟨waits'.1, ?_⟩
    by_cases h : w = t
    · subst w; exact waits.2
    · simpa [h] using waits'.2

def State.WaitsFor (s : State T L) (w t : T) : Prop := ∃ l, s.holder l = some t ∧ s.Waits l w

omit [DecidableEq T] [DecidableEq L] in
theorem coveredWaiters {s : State T L} {w t} (cov : Covered s)
    (chain : Relation.TransGen s.WaitsFor w t) : s.ePri w ≤ s.ePri t := by
  have one : ∀ {a b}, s.WaitsFor a b → s.ePri a ≤ s.ePri b := by
    rintro a b ⟨l, held, waits⟩
    exact Nat.le_trans (cov.waiting l b a held waits) (cov.cached l b held)
  induction chain with
  | single waits => exact one waits
  | tail _ waits ih => exact Nat.le_trans ih (one waits)

end Lower

section Upper

def Justified (s : State T L) (t : T) (p : Nat) : Prop :=
  p ≤ s.bPri t ∨ ∃ l w, s.holder l = some t ∧ s.Waits l w ∧ p ≤ s.ePri w

def Fresh (s : State T L) : Prop := ∀ t, Justified s t (s.ePri t)

def Passes (s : State T L) (p : Nat) : Nat → L → Prop
  | 0, _ => True
  | n + 1, l => ∀ d m, s.holder l = some d → s.pri l < p → s.ePri d < p → s.target d = some m →
      s.asleep d ∧ Passes s p n m

def Backed (s : State T L) : Event T L → Prop
  | .setBase t p => p ≠ s.bPri t → p ≤ s.ePri t → (∃ l, s.holder l = some t) →
      s.ePri t ≤ p ∨ ∃ l w, s.holder l = some t ∧ s.Waits l w ∧ s.ePri t ≤ s.ePri w
  | .donate t l n => Passes s (s.ePri t) n l
  | .release t l => ∀ p, Restored s t l p →
      p ≤ s.bPri t ∨ ∃ m w, m ≠ l ∧ s.holder m = some t ∧ s.Waits m w ∧ p ≤ s.ePri w
  | _ => True

omit [DecidableEq T] [DecidableEq L] in
theorem justifiedMono {s s' : State T L} {t p} (just : Justified s t p)
    (base : s.bPri t ≤ s'.bPri t)
    (stays : ∀ l w, s.holder l = some t → s.Waits l w →
      s'.holder l = some t ∧ s'.Waits l w ∧ s.ePri w ≤ s'.ePri w) : Justified s' t p := by
  rcases just with le | ⟨l, w, held, waits, le⟩
  · exact .inl (Nat.le_trans le base)
  · obtain ⟨held', waits', more⟩ := stays l w held waits
    exact .inr ⟨l, w, held', waits', Nat.le_trans le more⟩

omit [DecidableEq L] in
theorem setFresh {s : State T L} {t p} (fresh : Fresh s) (awake : ¬ s.asleep t) :
    Fresh {s with ePri := update s.ePri t p, bPri := update s.bPri t p} := by
  intro u
  by_cases h : u = t
  · subst u; exact .inl (by simp)
  · have just := fresh u
    simp only [update_of_ne h]
    refine justifiedMono just (by simp [h]) ?_
    intro l w held waits
    have apart : w ≠ t := by rintro rfl; exact awake waits.2
    exact ⟨held, waits, by simp [apart]⟩

omit [DecidableEq L] in
theorem sleepFresh {s : State T L} {t} (fresh : Fresh s) : Fresh (s.sleep t) := fun u =>
  justifiedMono (fresh u) (Nat.le_refl _)
    (fun _ _ held waits => ⟨held, sleepWaits.mpr (.inl waits), Nat.le_refl _⟩)

omit [DecidableEq L] in
theorem aimFresh {s : State T L} {t l} (fresh : Fresh s) (awake : ¬ s.asleep t) :
    Fresh (s.aim t l) := fun u =>
  justifiedMono (fresh u) (Nat.le_refl _)
    (fun _ _ held waits => ⟨held, (aimWaits awake).mpr waits, Nat.le_refl _⟩)

omit [DecidableEq T] [DecidableEq L] in
theorem passesNext {p n} {s j : State T L} {l d m} (raised : Raised p s j)
    (passes : Passes s p (n + 1) l) (held : j.holder l = some d) (below : j.pri l < p)
    (weak : j.ePri d < p) (onward : j.target d = some m) : j.asleep d ∧ Passes s p n m := by
  rw [raised.holder] at held
  rw [raised.target] at onward
  rw [raised.asleep]
  have low := raised.pri l
  have weaker := raised.ePri d
  exact passes d m held (by omega) (by omega) onward

theorem turnFresh {p t} {j : State T L} {donor l d} (top : j.ePri donor = p)
    (held : j.holder l = some d) (below : j.pri l < p) (weak : j.ePri d < p)
    (waits : (j.sleep t).Waits l donor) (fresh : Fresh (j.sleep t)) :
    Fresh ((j.raise l d p).sleep t) := by
  intro u
  have same : ∀ m w, ((j.raise l d p).sleep t).Waits m w ↔ (j.sleep t).Waits m w :=
    fun _ _ => Iff.rfl
  by_cases h : u = d
  · subst u
    refine .inr ⟨l, donor, held, (same l donor).mpr waits, ?_⟩
    have apart : donor ≠ d := by rintro rfl; omega
    simp [State.sleep, State.raise, State.raiseLock, apart, top]
  · have unchanged : ((j.raise l d p).sleep t).ePri u = (j.sleep t).ePri u := by
      simp [State.sleep, State.raise, State.raiseLock, h]
    rw [unchanged]
    refine justifiedMono (fresh u) (Nat.le_refl _) ?_
    intro m w held' waits'
    refine ⟨held', (same m w).mpr waits', ?_⟩
    have := (raisedTurn below weak).ePri w
    show j.ePri w ≤ (j.raise l d p).ePri w
    omega

theorem walkFresh {n p t} {s j s' : State T L} {donor l} (walk : Walk n j donor l s')
    (raised : Raised p s j) (top : j.ePri donor = p) (passes : Passes s p n l)
    (waits : (j.sleep t).Waits l donor) (fresh : Fresh (j.sleep t)) : Fresh (s'.sleep t) := by
  induction walk with
  | settled held enough => exact fresh
  | lock held below strong =>
    exact fun u => justifiedMono (fresh u) (Nat.le_refl _)
      (fun _ _ held waits => ⟨held, waits, Nat.le_refl _⟩)
  | last held below weak alone =>
    rw [top] at below weak ⊢
    exact turnFresh top held below weak waits fresh
  | @next n j donor l d m s' held below weak onward rest ih =>
    rw [top] at below weak ih
    obtain ⟨asleep, later⟩ := passesNext raised passes held below weak onward
    refine ih (raisedTrans raised (raisedTurn below weak)) (by simp [State.raise]) later ?_
      (turnFresh top held below weak waits fresh)
    exact sleepWaits.mpr (.inl ⟨onward, asleep⟩)

omit [DecidableEq L] in
theorem passesAim {p n} {s : State T L} {t l m} (top : s.ePri t = p)
    (passes : Passes s p n m) : Passes (s.aim t l) p n m := by
  induction n generalizing m with
  | zero => trivial
  | succ n ih =>
    intro d m' held below weak onward
    have apart : d ≠ t := by
      rintro rfl
      exact absurd weak (by simp [State.aim, top])
    obtain ⟨asleep, later⟩ := passes d m' held below weak (by simpa [State.aim, apart] using onward)
    exact ⟨asleep, ih later⟩

theorem stepFresh {s s' : State T L} {ev} (fresh : Fresh s) (backed : Backed s ev)
    (step : Step s ev s') : Fresh s' := by
  cases step with
  | none => exact fresh
  | create alone awake | raiseBase above awake | lowerFree free awake => exact setFresh fresh awake
  | keepBase same => exact fresh
  | @lowerHeld t p changed under holds =>
    intro u
    by_cases h : u = t
    · subst u
      rcases backed changed under holds with le | ⟨l, w, held, waits, le⟩
      · exact .inl (by simpa using le)
      · exact .inr ⟨l, w, held, waits, le⟩
    · exact justifiedMono (fresh u) (by simp [h])
        (fun _ _ held waits => ⟨held, waits, Nat.le_refl _⟩)
  | @donate t l n s1 awake walk =>
    refine walkFresh walk (raisedRefl _ _) rfl (passesAim rfl backed) ?_
      (sleepFresh (aimFresh fresh awake))
    exact sleepWaits.mpr (.inr ⟨rfl, by simp [State.aim]⟩)
  | wait awake => exact sleepFresh (aimFresh fresh awake)
  | @take t l x awake free aims =>
    intro u
    refine justifiedMono (fresh u) (Nat.le_refl _) ?_
    intro m w held waits
    have apart : w ≠ t := by rintro rfl; exact awake waits.2
    have other : m ≠ l := by rintro rfl; simp [free] at held
    exact ⟨by simpa [other] using held, by simpa [State.Waits, apart] using waits, Nat.le_refl _⟩
  | @release t l p awake held back =>
    intro u
    by_cases h : u = t
    · subst u
      simp only [update_self]
      rcases backed p back with le | ⟨m, w, other, holds, waits, le⟩
      · exact .inl le
      · have apart : w ≠ t := by rintro rfl; exact awake waits.2
        exact .inr ⟨m, w, by simpa [other] using holds, waits, by simpa [apart] using le⟩
    · have just := fresh u
      simp only [update_of_ne h]
      refine justifiedMono just (Nat.le_refl _) ?_
      intro m w holds waits
      have apart : w ≠ t := by rintro rfl; exact awake waits.2
      have other : m ≠ l := by
        rintro rfl
        exact h (Option.some.inj (held.symm.trans holds)).symm
      exact ⟨by simpa [other] using holds, waits, by simp [apart]⟩
  | @wake t l waits free =>
    intro u
    refine justifiedMono (fresh u) (Nat.le_refl _) ?_
    intro m w held waits'
    have apart : w ≠ t := by
      rintro rfl
      cases Option.some.inj (waits.1.symm.trans waits'.1)
      simp [free] at held
    exact ⟨held, ⟨waits'.1, by simpa [apart] using waits'.2⟩, Nat.le_refl _⟩

end Upper
end Pintos.Inherit
