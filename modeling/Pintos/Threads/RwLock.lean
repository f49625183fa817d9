import Pintos.Lib.Count
import Pintos.Lib.Machine

/-! struct rw_lock over an ideal Mesa monitor: lock_acquire of the guard waits until it
is free, cond_wait gives the guard up and sleeps in one step, cond_signal wakes one
sleeper (which one is left open) and cond_broadcast all of them, and a woken thread
takes the guard again before it goes on. One program counter is one statement of
rw_lock_acquire or rw_lock_release; `true` is RW_READER. -/
namespace Pintos.RwLock
open Machine

attribute [local simp] Function.update_apply

abbrev Tid := Nat

inductive Pc where
  | out
  | acquireLock (reader : Bool)
  | test (reader : Bool)
  | count (reader : Bool)
  | wait (reader : Bool)
  | asleep (reader : Bool)
  | woken (reader : Bool)
  | uncount (reader : Bool)
  | enter (reader : Bool)
  | acquireUnlock (reader : Bool)
  | inside (reader : Bool)
  | releaseLock (reader : Bool)
  | leave (reader : Bool)
  | signal (reader : Bool)
  | releaseUnlock (reader : Bool)
  deriving DecidableEq, Repr

structure State where
  threads : Nat
  pc : Tid → Pc
  guard : Option Tid
  AR : Int
  WR : Int
  AW : Int
  WW : Int

inductive Action where
  | acquire (t : Tid) (reader : Bool)
  | release (t : Tid)
  | run (t pick : Tid)
  deriving DecidableEq, Repr

def rwLockInit (threads : Nat) : State where
  threads := threads
  pc _ := .out
  guard := none
  AR := 0
  WR := 0
  AW := 0
  WW := 0

@[simp] def State.setPc (s : State) (t : Tid) (pc : Pc) : State :=
  {s with pc := Function.update s.pc t pc}

def blocked (s : State) (reader : Bool) : Prop :=
  if reader then 0 < s.AW + s.WW else 0 < s.AR + s.AW
instance (s r) : Decidable (blocked s r) := by unfold blocked; infer_instance

def lockAcquire (s : State) (t : Tid) (next : Pc) : State :=
  if s.guard = none then {s.setPc t next with guard := some t} else s

def lockRelease (s : State) (t : Tid) (next : Pc) : State := {s.setPc t next with guard := none}

def Picks (s : State) (reader : Bool) (pick : Tid) : Prop :=
  s.pc pick = .asleep reader ∨ ∀ u < s.threads, s.pc u ≠ .asleep reader
instance (s r p) : Decidable (Picks s r p) := by unfold Picks; infer_instance

def condSignal (s : State) (reader : Bool) (pick : Tid) : State :=
  if s.pc pick = .asleep reader then s.setPc pick (.woken reader) else s

def condBroadcast (s : State) (reader : Bool) : State :=
  {s with pc := fun u => if s.pc u = .asleep reader then .woken reader else s.pc u}

def wake (s : State) (reader : Bool) (pick : Tid) : State :=
  if reader then
    if s.AR = 0 ∧ 0 < s.WW then condSignal s false pick else s
  else if 0 < s.WW then condSignal s false pick
  else if 0 < s.WR then condBroadcast s true
  else s

def run (s : State) (t pick : Tid) : State :=
  match s.pc t with
  | .out | .asleep _ | .inside _ => s
  | .acquireLock r => lockAcquire s t (.test r)
  | .test r => s.setPc t (if blocked s r then .count r else .enter r)
  | .count true => {s.setPc t (.wait true) with WR := s.WR + 1}
  | .count false => {s.setPc t (.wait false) with WW := s.WW + 1}
  | .wait r => lockRelease s t (.asleep r)
  | .woken r => lockAcquire s t (.uncount r)
  | .uncount true => {s.setPc t (.test true) with WR := s.WR - 1}
  | .uncount false => {s.setPc t (.test false) with WW := s.WW - 1}
  | .enter true => {s.setPc t (.acquireUnlock true) with AR := s.AR + 1}
  | .enter false => {s.setPc t (.acquireUnlock false) with AW := s.AW + 1}
  | .acquireUnlock r => lockRelease s t (.inside r)
  | .releaseLock r => lockAcquire s t (.leave r)
  | .leave true => {s.setPc t (.signal true) with AR := s.AR - 1}
  | .leave false => {s.setPc t (.signal false) with AW := s.AW - 1}
  | .signal r => if Picks s false pick then (wake s r pick).setPc t (.releaseUnlock r) else s
  | .releaseUnlock _ => lockRelease s t .out

def step (s : State) : Action → Except Empty State
  | .acquire t r =>
    .ok (if t < s.threads ∧ s.pc t = .out then s.setPc t (.acquireLock r) else s)
  | .release t =>
    match s.pc t with
    | .inside r => .ok (s.setPc t (.releaseLock r))
    | _ => .ok s
  | .run t pick => .ok (run s t pick)

def Pc.active (reader : Bool) : Pc → Nat
  | .acquireUnlock r | .inside r | .releaseLock r | .leave r => if r = reader then 1 else 0
  | _ => 0

def Pc.waiting (reader : Bool) : Pc → Nat
  | .wait r | .asleep r | .woken r | .uncount r => if r = reader then 1 else 0
  | _ => 0

def Pc.guarded : Pc → Bool
  | .test _ | .count _ | .wait _ | .uncount _ | .enter _ | .acquireUnlock _ => true
  | .leave _ | .signal _ | .releaseUnlock _ => true
  | _ => false

def number (w : Pc → Nat) (s : State) : Nat := ∑ t ∈ Finset.range s.threads, w (s.pc t)

def Found (s : State) : Pc → Prop
  | .count r | .wait r => blocked s r
  | .enter r => ¬ blocked s r
  | _ => True

def Pc.settlesReader : Pc → Bool
  | .test false | .count false | .enter false | .signal false => true
  | _ => false

def Pc.settlesWriter : Pc → Bool
  | .uncount false | .test false | .enter false | .signal _ => true
  | _ => false

def Settling (s : State) (settles : Pc → Bool) : Prop :=
  ∃ u, s.guard = some u ∧ settles (s.pc u) = true

structure Inv (s : State) : Prop where
  outside : ∀ t, s.threads ≤ t → s.pc t = .out
  guard : ∀ t, (s.pc t).guarded = true ↔ s.guard = some t
  AR : s.AR = number (Pc.active true) s
  AW : s.AW = number (Pc.active false) s
  WR : s.WR = number (Pc.waiting true) s
  WW : s.WW = number (Pc.waiting false) s
  found : ∀ t, Found s (s.pc t)
  single : s.AW ≤ 1
  apart : s.AW = 1 → s.AR = 0
  reader : ∀ t, s.pc t = .asleep true → 0 < s.AW + s.WW ∨ Settling s Pc.settlesReader
  writer : ∀ t, s.pc t = .asleep false → s.AR = 0 → s.AW = 0 →
    (∃ u, s.pc u = .woken false) ∨ Settling s Pc.settlesWriter

section Moves
variable {s s' : State} {t : Tid} {next : Pc}
  {w : Pc → Nat} {pc : Pc}

structure Moves (t : Tid) (next : Pc) (s s' : State) : Prop where
  threads : s'.threads = s.threads
  pc : s'.pc = Function.update s.pc t next
  AR : s'.AR + (s.pc t).active true = s.AR + next.active true
  AW : s'.AW + (s.pc t).active false = s.AW + next.active false
  WR : s'.WR + (s.pc t).waiting true = s.WR + next.waiting true
  WW : s'.WW + (s.pc t).waiting false = s.WW + next.waiting false

theorem numberMove (moves : Moves t next s s') (young : t < s.threads) :
    number w s' + w (s.pc t) = number w s + w next := by
  have change := Count.sumChange (g := fun u => w (s.pc u)) (h := fun u => w (s'.pc u)) young
    (fun u other => by simp [moves.pc, other])
  unfold number
  rw [moves.threads]
  simpa [moves.pc] using change

theorem numberKept {old new : Int} (moves : Moves t next s s') (young : t < s.threads)
    (before : old = number w s) (change : new + w (s.pc t) = old + w next) : new = number w s' := by
  have moved := numberMove (w := w) moves young
  omega

theorem asleepBefore {r u} (moves : Moves t next s s') (awake : ∀ r, next ≠ .asleep r)
    (asleep : s'.pc u = .asleep r) : s.pc u = .asleep r := by
  by_cases h : u = t
  · subst h
    exact absurd (by simpa [moves.pc] using asleep) (awake r)
  · simpa [moves.pc, h] using asleep

theorem guardedAwake (guarded : next.guarded = true) (r) : next ≠ .asleep r := by
  rintro rfl
  cases guarded

theorem youngThread (inv : Inv s) (busy : s.pc t ≠ .out) : t < s.threads := by
  by_contra old
  exact busy (inv.outside t (Nat.le_of_not_lt old))

theorem foundFree (free : pc.guarded = false) : Found s pc := by
  cases pc <;> simp_all [Pc.guarded, Found]

theorem foundSame (found : Found s pc) (AR : s'.AR = s.AR) (AW : s'.AW = s.AW)
    (WW : s'.WW = s.WW) : Found s' pc := by
  cases pc <;> simp_all [Found, blocked]

theorem settlingHolder {settles : Pc → Bool} (holds : s.guard = some t) :
    Settling s settles ↔ settles (s.pc t) = true := by
  constructor
  · rintro ⟨u, guard, settles⟩
    cases Option.some.inj (guard.symm.trans holds)
    exact settles
  · exact fun settles => ⟨t, holds, settles⟩

theorem invMove (inv : Inv s) (busy : t < s.threads) (moves : Moves t next s s')
    (others : ∀ u, u ≠ t → (s'.guard = some u ↔ s.guard = some u))
    (mine : next.guarded = true ↔ s'.guard = some t)
    (calm : s.guard = some t ∨ s'.AR = s.AR ∧ s'.AW = s.AW ∧ s'.WW = s.WW)
    (found : Found s' next) (single : s'.AW ≤ 1) (apart : s'.AW = 1 → s'.AR = 0)
    (reader : ∀ u, s'.pc u = .asleep true → 0 < s'.AW + s'.WW ∨ Settling s' Pc.settlesReader)
    (writer : ∀ u, s'.pc u = .asleep false → s'.AR = 0 → s'.AW = 0 →
      (∃ u, s'.pc u = .woken false) ∨ Settling s' Pc.settlesWriter) : Inv s' := by
  constructor
  case single => exact single
  case apart => exact apart
  case reader => exact reader
  case writer => exact writer
  case outside =>
    intro u old
    rw [moves.threads] at old
    have other : u ≠ t := by rintro rfl; exact Nat.not_le_of_lt busy old
    simpa [moves.pc, other] using inv.outside u old
  case guard =>
    intro u
    by_cases h : u = t
    · subst h; simpa [moves.pc] using mine
    · rw [others u h, ← inv.guard u]
      simp [moves.pc, h]
  case AR => exact numberKept moves busy inv.AR moves.AR
  case AW => exact numberKept moves busy inv.AW moves.AW
  case WR => exact numberKept moves busy inv.WR moves.WR
  case WW => exact numberKept moves busy inv.WW moves.WW
  case found =>
    intro u
    by_cases h : u = t
    · subst h; simpa [moves.pc] using found
    · rw [show s'.pc u = s.pc u by simp [moves.pc, h]]
      rcases calm with holds | ⟨AR, AW, WW⟩
      · -- whoever else there is, the guard is with `t`
        refine foundFree (Bool.eq_false_iff.mpr fun guarded => h ?_)
        exact (Option.some.inj (holds.symm.trans ((inv.guard u).mp guarded))).symm
      · exact foundSame (inv.found u) AR AW WW

theorem invOutside (inv : Inv s) (busy : t < s.threads) (moves : Moves t next s s')
    (guard : s'.guard = s.guard) (same : s'.AR = s.AR ∧ s'.AW = s.AW ∧ s'.WW = s.WW)
    (free : (s.pc t).guarded = false) (free' : next.guarded = false)
    (awake : ∀ r, next ≠ .asleep r) (still : s.pc t ≠ .woken false) : Inv s' := by
  obtain ⟨AR, AW, WW⟩ := same
  have alone : s.guard ≠ some t := fun holds => by simp [(inv.guard t).mpr holds] at free
  have kept : ∀ settles, Settling s settles → Settling s' settles := by
    rintro settles ⟨u, holds, settled⟩
    have other : u ≠ t := by rintro rfl; exact alone holds
    exact ⟨u, by rw [guard, holds], by simpa [moves.pc, other] using settled⟩
  have before {u r} (asleep : s'.pc u = .asleep r) := asleepBefore moves awake asleep
  refine invMove inv busy moves (fun u _ => by rw [guard]) ?_ (.inr ⟨AR, AW, WW⟩) (foundFree free')
    ?_ ?_ ?_ ?_
  · rw [guard, free']
    exact iff_of_false (by simp) alone
  · rw [AW]; exact inv.single
  · rw [AW, AR]; exact inv.apart
  · intro u asleep
    rw [AW, WW]
    exact (inv.reader u (before asleep)).imp id (kept _)
  · intro u asleep
    rw [AR, AW]
    intro noReader noWriter
    rcases inv.writer u (before asleep) noReader noWriter with ⟨v, woken⟩ | settling
    · have other : v ≠ t := by rintro rfl; exact still woken
      exact .inl ⟨v, by simpa [moves.pc, other] using woken⟩
    · exact .inr (kept _ settling)

theorem invAcquire (inv : Inv s) (busy : t < s.threads) (moves : Moves t next s s')
    (free : s.guard = none) (guard : s'.guard = some t)
    (same : s'.AR = s.AR ∧ s'.AW = s.AW ∧ s'.WW = s.WW) (guarded : next.guarded = true)
    (found : Found s' next)
    (woken : s.pc t = .woken false → next.settlesWriter = true) : Inv s' := by
  obtain ⟨AR, AW, WW⟩ := same
  have alone : ∀ settles, ¬ Settling s settles := by
    rintro settles ⟨u, holds, _⟩
    rw [free] at holds
    contradiction
  have before {u r} (asleep : s'.pc u = .asleep r) :=
    asleepBefore moves (guardedAwake guarded) asleep
  refine invMove inv busy moves ?_ (iff_of_true guarded guard) (.inr ⟨AR, AW, WW⟩) found ?_ ?_ ?_ ?_
  · intro u other
    rw [guard, free]
    simp [Ne.symm other]
  · rw [AW]; exact inv.single
  · rw [AW, AR]; exact inv.apart
  · intro u asleep
    rw [AW, WW]
    exact .inl ((inv.reader u (before asleep)).resolve_right (alone _))
  · intro u asleep
    rw [AR, AW]
    intro noReader noWriter
    obtain ⟨v, signalled⟩ := (inv.writer u (before asleep) noReader noWriter).resolve_right
      (alone _)
    by_cases h : v = t
    · refine .inr ((settlingHolder guard).mpr ?_)
      simpa [moves.pc] using woken (h ▸ signalled)
    · exact .inl ⟨v, by simpa [moves.pc, h] using signalled⟩

theorem invInside (inv : Inv s) (moves : Moves t next s s') (holds : s.guard = some t)
    (guard : s'.guard = s.guard) (guarded : next.guarded = true) (found : Found s' next)
    (single : s'.AW ≤ 1) (apart : s'.AW = 1 → s'.AR = 0)
    (reader : 0 < s.AW + s.WW ∨ (s.pc t).settlesReader = true →
      0 < s'.AW + s'.WW ∨ next.settlesReader = true)
    (writer : s'.AR = 0 → s'.AW = 0 → (s.AR = 0 ∧ s.AW = 0 ∧ (s.pc t).settlesWriter = false) ∨
      next.settlesWriter = true) : Inv s' := by
  have inside := (inv.guard t).mpr holds
  have busy : t < s.threads := youngThread inv fun out => by simp [out, Pc.guarded] at inside
  have holds' : s'.guard = some t := guard.trans holds
  have before {u r} (asleep : s'.pc u = .asleep r) :=
    asleepBefore moves (guardedAwake guarded) asleep
  have now : s'.pc t = next := by simp [moves.pc]
  refine invMove inv busy moves (fun u _ => by rw [guard]) (iff_of_true guarded holds') (.inl holds)
    found single apart ?_ ?_
  · intro u asleep
    rw [settlingHolder holds', now]
    have settled := inv.reader u (before asleep)
    rw [settlingHolder holds] at settled
    exact reader settled
  · intro u asleep noReader noWriter
    rw [settlingHolder holds', now]
    rcases writer noReader noWriter with ⟨noReader', noWriter', not⟩ | settles
    · have settled := inv.writer u (before asleep) noReader' noWriter'
      rw [settlingHolder holds, not] at settled
      obtain ⟨v, signalled⟩ := settled.resolve_right (by simp)
      have other : v ≠ t := by rintro rfl; simp [signalled, Pc.guarded] at inside
      exact .inl ⟨v, by simpa [moves.pc, other] using signalled⟩
    · exact .inr settles

theorem invRelease (inv : Inv s) (moves : Moves t next s s') (holds : s.guard = some t)
    (guard : s'.guard = none) (same : s'.AR = s.AR ∧ s'.AW = s.AW ∧ s'.WW = s.WW)
    (free : next.guarded = false)
    (reader : (∃ u, s.pc u = .asleep true) ∨ next = .asleep true → 0 < s.AW + s.WW)
    (writer : (∃ u, s.pc u = .asleep false) ∨ next = .asleep false → s.AR = 0 → s.AW = 0 →
      ∃ u, s.pc u = .woken false) : Inv s' := by
  obtain ⟨AR, AW, WW⟩ := same
  have inside := (inv.guard t).mpr holds
  have busy : t < s.threads := youngThread inv fun out => by simp [out, Pc.guarded] at inside
  have before : ∀ u r, s'.pc u = .asleep r → (∃ u, s.pc u = .asleep r) ∨ next = .asleep r := by
    intro u r asleep
    by_cases h : u = t
    · subst h
      exact .inr (by simpa [moves.pc] using asleep)
    · exact .inl ⟨u, by simpa [moves.pc, h] using asleep⟩
  refine invMove inv busy moves ?_ (iff_of_false (by simp [free]) (by simp [guard])) (.inl holds)
    (foundFree free) ?_ ?_ ?_ ?_
  · intro u other
    rw [guard, holds]
    simp [Ne.symm other]
  · rw [AW]; exact inv.single
  · rw [AW, AR]; exact inv.apart
  · intro u asleep
    rw [AW, WW]
    exact .inl (reader (before u true asleep))
  · intro u asleep
    rw [AR, AW]
    intro noReader noWriter
    obtain ⟨v, signalled⟩ := writer (before u false asleep) noReader noWriter
    have other : v ≠ t := by rintro rfl; simp [signalled, Pc.guarded] at inside
    exact .inl ⟨v, by simpa [moves.pc, other] using signalled⟩

structure Rouses (r : Bool) (s s' : State) : Prop where
  threads : s'.threads = s.threads
  guard : s'.guard = s.guard
  AR : s'.AR = s.AR
  AW : s'.AW = s.AW
  WR : s'.WR = s.WR
  WW : s'.WW = s.WW
  pc : ∀ u, s'.pc u = s.pc u ∨ s.pc u = .asleep r ∧ s'.pc u = .woken r

theorem rousesRefl (r) (s : State) : Rouses r s s :=
  ⟨rfl, rfl, rfl, rfl, rfl, rfl, fun _ => .inl rfl⟩

theorem rousesSignal (r pick) : Rouses r s (condSignal s r pick) := by
  unfold condSignal
  split
  · rename_i asleep
    refine ⟨rfl, rfl, rfl, rfl, rfl, rfl, fun u => ?_⟩
    by_cases h : u = pick
    · subst h; exact .inr ⟨asleep, by simp⟩
    · exact .inl (by simp [h])
  · exact rousesRefl r s

theorem rousesBroadcast (r) : Rouses r s (condBroadcast s r) := by
  refine ⟨rfl, rfl, rfl, rfl, rfl, rfl, fun u => ?_⟩
  by_cases asleep : s.pc u = .asleep r
  · exact .inr ⟨asleep, by simp [condBroadcast, asleep]⟩
  · exact .inl (by simp [condBroadcast, asleep])

theorem rousesAsleep {r r' u} (rouses : Rouses r s s') (asleep : s'.pc u = .asleep r') :
    s.pc u = .asleep r' := by
  rcases rouses.pc u with same | ⟨_, woken⟩
  · rw [← same]; exact asleep
  · rw [woken] at asleep
    contradiction

theorem rousesStill {r u} (rouses : Rouses r s s') (awake : s.pc u ≠ .asleep r) :
    s'.pc u = s.pc u := (rouses.pc u).resolve_right fun h => awake h.1

theorem invRouse {r} (inv : Inv s) (rouses : Rouses r s s') : Inv s' := by
  have weighs : ∀ w : Pc → Nat, w (.woken r) = w (.asleep r) → number w s' = number w s := by
    intro w same
    unfold number
    rw [rouses.threads]
    refine Finset.sum_congr rfl fun u _ => ?_
    rcases rouses.pc u with h | ⟨asleep, woken⟩
    · rw [h]
    · rw [asleep, woken, same]
  have settling : ∀ settles, Settling s settles → Settling s' settles := by
    rintro settles ⟨u, holds, settled⟩
    have awake : s.pc u ≠ .asleep r := fun asleep => by
      have := (inv.guard u).mpr holds
      simp [asleep, Pc.guarded] at this
    exact ⟨u, rouses.guard.trans holds, by rw [rousesStill rouses awake]; exact settled⟩
  constructor
  case outside =>
    intro u old
    rw [rouses.threads] at old
    have out := inv.outside u old
    rw [rousesStill rouses (by simp [out]), out]
  case guard =>
    intro u
    rw [rouses.guard, ← inv.guard u]
    rcases rouses.pc u with h | ⟨asleep, woken⟩
    · rw [h]
    · rw [asleep, woken]; simp [Pc.guarded]
  case AR => rw [rouses.AR, weighs _ rfl]; exact inv.AR
  case AW => rw [rouses.AW, weighs _ rfl]; exact inv.AW
  case WR => rw [rouses.WR, weighs _ rfl]; exact inv.WR
  case WW => rw [rouses.WW, weighs _ rfl]; exact inv.WW
  case found =>
    intro u
    rcases rouses.pc u with h | ⟨_, woken⟩
    · rw [h]; exact foundSame (inv.found u) rouses.AR rouses.AW rouses.WW
    · rw [woken]; trivial
  case single => rw [rouses.AW]; exact inv.single
  case apart => rw [rouses.AW, rouses.AR]; exact inv.apart
  case reader =>
    intro u asleep
    rw [rouses.AW, rouses.WW]
    exact (inv.reader u (rousesAsleep rouses asleep)).imp id (settling _)
  case writer =>
    intro u asleep
    rw [rouses.AR, rouses.AW]
    intro noReader noWriter
    rcases inv.writer u (rousesAsleep rouses asleep) noReader noWriter with ⟨v, woken⟩ | settled
    · exact .inl ⟨v, by rw [rousesStill rouses (by simp [woken]), woken]⟩
    · exact .inr (settling _ settled)

theorem numberPositive (inv : Inv s) (out : w .out = 0) (counts : w (s.pc t) = 1) :
    1 ≤ number w s := by
  have young := youngThread inv (t := t) fun h => by simp [h, out] at counts
  have counted := Finset.single_le_sum_of_canonicallyOrdered (f := fun u => w (s.pc u))
    (Finset.mem_range.mpr young)
  simp only [counts] at counted
  exact counted

theorem sleeperCounted {r} (inv : Inv s) (asleep : s.pc t = .asleep r) :
    0 < (if r then s.WR else s.WW) := by
  have counted := numberPositive (w := Pc.waiting r) (t := t) inv rfl (by simp [asleep, Pc.waiting])
  cases r with
  | true => have := inv.WR; simp only [if_true]; omega
  | false => have := inv.WW; simp only [Bool.false_eq_true, if_false]; omega

theorem activeCounted {r} (inv : Inv s) (active : (s.pc t).active r = 1) :
    0 < (if r then s.AR else s.AW) := by
  have counted := numberPositive (w := Pc.active r) (t := t) inv rfl active
  cases r with
  | true => have := inv.AR; simp only [if_true]; omega
  | false => have := inv.AW; simp only [Bool.false_eq_true, if_false]; omega

theorem wakeSettles {r pick} (inv : Inv s) (pc : s.pc t = .signal r) (picks : Picks s false pick) :
    (∃ r', Rouses r' s (wake s r pick)) ∧
    (∀ u, (wake s r pick).pc u = .asleep true → 0 < s.AW + s.WW) ∧
    (∀ u, (wake s r pick).pc u = .asleep false → s.AR = 0 → s.AW = 0 →
      ∃ v, (wake s r pick).pc v = .woken false) := by
  have holds := (inv.guard t).mp (by simp [pc, Pc.guarded])
  have awake := fun u (asleep : s.pc u = .asleep true) => (inv.reader u asleep)
  simp only [settlingHolder holds, pc] at awake
  -- a writer that is asleep is picked, or somebody else is
  have signals : ∀ u, s.pc u = .asleep false →
      ∃ v, (condSignal s false pick).pc v = .woken false := by
    intro u asleep
    rcases picks with picked | none
    · exact ⟨pick, by simp [condSignal, picked]⟩
    · exact absurd asleep (none u (youngThread inv (by simp [asleep])))
  have counted : ∀ u, s.pc u = .asleep false → 0 < s.WW := fun u asleep => by
    simpa using sleeperCounted inv asleep
  unfold wake
  cases r with
  | true =>
    have above : ∀ u, s.pc u = .asleep true → 0 < s.AW + s.WW := fun u asleep =>
      (awake u asleep).resolve_right (by simp [Pc.settlesReader])
    simp only [if_true]
    split
    · have rouses := rousesSignal (s := s) false pick
      exact ⟨⟨_, rouses⟩, fun u asleep => above u (rousesAsleep rouses asleep),
        fun u asleep _ _ => signals u (rousesAsleep rouses asleep)⟩
    · rename_i busy
      refine ⟨⟨false, rousesRefl _ _⟩, above, fun u asleep noReader _ => ?_⟩
      exact absurd ⟨noReader, counted u asleep⟩ busy
  | false =>
    have positive : 0 ≤ s.AW := by have := inv.AW; omega
    simp only [Bool.false_eq_true, if_false]
    split
    · have rouses := rousesSignal (s := s) false pick
      exact ⟨⟨_, rouses⟩, fun u _ => by omega, fun u asleep _ _ =>
        signals u (rousesAsleep rouses asleep)⟩
    · rename_i noWriter
      have nobody : ∀ u, s.pc u ≠ .asleep false := fun u asleep => noWriter (counted u asleep)
      split
      · have rouses := rousesBroadcast (s := s) true
        refine ⟨⟨_, rouses⟩, fun u asleep => ?_, fun u asleep =>
          absurd (rousesAsleep rouses asleep) (nobody u)⟩
        have before := rousesAsleep rouses asleep
        simp [condBroadcast, before] at asleep
      · rename_i noReader
        refine ⟨⟨true, rousesRefl _ _⟩, fun u asleep => ?_, fun u asleep => absurd asleep (nobody u)⟩
        exact absurd (by simpa using sleeperCounted inv asleep) noReader

theorem signalInv {r pick} (inv : Inv s) (pc : s.pc t = .signal r) (picks : Picks s false pick) :
    Inv ((wake s r pick).setPc t (.releaseUnlock r)) := by
  obtain ⟨⟨r', rouses⟩, noReader, signalled⟩ := wakeSettles inv pc picks
  have woke := invRouse inv rouses
  have pc' : (wake s r pick).pc t = .signal r := by rw [rousesStill rouses (by simp [pc]), pc]
  have holds' := (woke.guard t).mp (by simp [pc', Pc.guarded])
  have young := youngThread woke (t := t) (by simp [pc'])
  generalize wake s r pick = m at *
  refine invMove woke young ⟨rfl, rfl, ?_, ?_, ?_, ?_⟩ (fun _ _ => Iff.rfl)
    (iff_of_true rfl holds') (.inl holds') trivial woke.single woke.apart ?_ ?_
  all_goals try simp [pc', Pc.active, Pc.waiting]
  · intro u asleep
    by_cases h : u = t
    · simp [h] at asleep
    · simp only [h, if_false] at asleep
      have := noReader u asleep
      rw [rouses.AW, rouses.WW]
      exact .inl this
  · intro u asleep noReaders noWriters
    by_cases h : u = t
    · simp [h] at asleep
    · simp only [h, if_false] at asleep
      rw [rouses.AR] at noReaders
      rw [rouses.AW] at noWriters
      obtain ⟨v, woken⟩ := signalled u asleep noReaders noWriters
      have other : v ≠ t := by rintro rfl; simp [woken] at pc'
      exact .inl ⟨v, by simp [other, woken]⟩

theorem plainMoves {g} (active : ∀ r, next.active r = (s.pc t).active r)
    (waiting : ∀ r, next.waiting r = (s.pc t).waiting r) :
    Moves t next s {s.setPc t next with guard := g} :=
  ⟨rfl, rfl, by simp [active], by simp [active], by simp [waiting], by simp [waiting]⟩

theorem lockAcquireInv (inv : Inv s) (busy : s.pc t ≠ .out)
    (active : ∀ r, next.active r = (s.pc t).active r)
    (waiting : ∀ r, next.waiting r = (s.pc t).waiting r) (guarded : next.guarded = true)
    (found : Found s next) (woken : s.pc t = .woken false → next.settlesWriter = true) :
    Inv (lockAcquire s t next) := by
  unfold lockAcquire
  split
  · rename_i free
    exact invAcquire inv (youngThread inv busy) (plainMoves active waiting) free rfl ⟨rfl, rfl, rfl⟩
      guarded (foundSame found rfl rfl rfl) woken
  · exact inv

theorem lockReleaseInv (inv : Inv s) (holds : s.guard = some t)
    (active : ∀ r, next.active r = (s.pc t).active r)
    (waiting : ∀ r, next.waiting r = (s.pc t).waiting r) (free : next.guarded = false)
    (settled : (s.pc t).settlesReader = false ∧ (s.pc t).settlesWriter = false)
    (reader : next = .asleep true → 0 < s.AW + s.WW)
    (writer : next = .asleep false → 0 < s.AR + s.AW) : Inv (lockRelease s t next) := by
  refine invRelease inv (plainMoves active waiting) holds rfl ⟨rfl, rfl, rfl⟩ free ?_ ?_
  · rintro (⟨u, asleep⟩ | sleeps)
    · have above := inv.reader u asleep
      rw [settlingHolder holds, settled.1] at above
      exact above.resolve_right (by simp)
    · exact reader sleeps
  · rintro (⟨u, asleep⟩ | sleeps) noReader noWriter
    · have above := inv.writer u asleep noReader noWriter
      rw [settlingHolder holds, settled.2] at above
      exact above.resolve_right (by simp)
    · have := writer sleeps
      omega

attribute [local simp] Pc.active Pc.waiting Pc.guarded Pc.settlesReader Pc.settlesWriter

theorem activePositive (inv : Inv s) : 0 ≤ s.AR ∧ 0 ≤ s.AW ∧ 0 ≤ s.WW := by
  have := inv.AR
  have := inv.AW
  have := inv.WW
  omega

section Stages
variable {r : Bool}

theorem testInv (inv : Inv s) (pc : s.pc t = .test r) :
    Inv (s.setPc t (if blocked s r then .count r else .enter r)) := by
  have guarded : s.guard = some t := (inv.guard t).mp (by simp [pc])
  split
  · rename_i waits
    refine invInside inv (plainMoves ?_ ?_) guarded rfl rfl waits inv.single inv.apart ?_ ?_
    · simp [pc]
    · simp [pc]
    · cases r <;> simp [pc]
    · intro noReader noWriter
      have noReader' : s.AR = 0 := noReader
      have noWriter' : s.AW = 0 := noWriter
      cases r with
      | true => exact .inl ⟨noReader', noWriter', by simp [pc]⟩
      | false => simp [blocked, noReader', noWriter'] at waits
  · rename_i goes
    refine invInside inv (plainMoves ?_ ?_) guarded rfl rfl goes inv.single inv.apart ?_ ?_
    · simp [pc]
    · simp [pc]
    · cases r <;> simp [pc]
    · intro noReader noWriter
      cases r with
      | true => exact .inl ⟨noReader, noWriter, by simp [pc]⟩
      | false => exact .inr rfl

theorem countInv (inv : Inv s) (pc : s.pc t = .count r) (pick : Tid) : Inv (run s t pick) := by
  have found := inv.found t
  have guarded : s.guard = some t := (inv.guard t).mp (by simp [pc])
  rw [pc] at found
  cases r with
  | true =>
    simp only [run, pc]
    refine invInside inv ⟨rfl, rfl, ?_, ?_, ?_, ?_⟩ guarded rfl rfl found inv.single inv.apart ?_ ?_
    all_goals simp_all
  | false =>
    have positive := activePositive inv
    have waits : 0 < s.AR + s.AW := by simpa [Found, blocked] using found
    simp only [run, pc]
    refine invInside inv ⟨rfl, rfl, ?_, ?_, ?_, ?_⟩ guarded rfl rfl found inv.single inv.apart ?_ ?_
    all_goals simp [pc]
    all_goals omega

theorem waitInv (inv : Inv s) (pc : s.pc t = .wait r) : Inv (lockRelease s t (.asleep r)) := by
  have found := inv.found t
  rw [pc] at found
  refine lockReleaseInv inv ((inv.guard t).mp (by simp [pc])) ?_ ?_ rfl ?_ ?_ ?_
  · simp [pc]
  · simp [pc]
  · cases r <;> simp [pc]
  all_goals
    intro sleeps
    cases sleeps
    simpa [Found, blocked] using found

theorem uncountInv (inv : Inv s) (pc : s.pc t = .uncount r) (pick : Tid) : Inv (run s t pick) := by
  have single := inv.single
  have apart := inv.apart
  have guarded : s.guard = some t := (inv.guard t).mp (by simp [pc])
  cases r <;> simp only [run, pc]
  all_goals
    refine invInside inv ⟨rfl, rfl, ?_, ?_, ?_, ?_⟩ guarded rfl rfl trivial single apart ?_ ?_
    all_goals simp_all

theorem enterInv (inv : Inv s) (pc : s.pc t = .enter r) (pick : Tid) : Inv (run s t pick) := by
  have positive := activePositive inv
  have single := inv.single
  have apart := inv.apart
  have found := inv.found t
  have guarded : s.guard = some t := (inv.guard t).mp (by simp [pc])
  rw [pc] at found
  cases r with
  | true =>
    have free : s.AW + s.WW ≤ 0 := by simpa [Found, blocked] using found
    simp only [run, pc]
    refine invInside inv ⟨rfl, rfl, ?_, ?_, ?_, ?_⟩ guarded rfl rfl trivial single ?_ ?_ ?_
    all_goals simp [pc]
    all_goals omega
  | false =>
    have free : s.AR + s.AW ≤ 0 := by simpa [Found, blocked] using found
    simp only [run, pc]
    refine invInside inv ⟨rfl, rfl, ?_, ?_, ?_, ?_⟩ guarded rfl rfl trivial ?_ ?_ ?_ ?_
    all_goals simp [pc]
    all_goals omega

theorem leaveInv (inv : Inv s) (pc : s.pc t = .leave r) (pick : Tid) : Inv (run s t pick) := by
  have positive := activePositive inv
  have single := inv.single
  have apart := inv.apart
  have guarded : s.guard = some t := (inv.guard t).mp (by simp [pc])
  have counted := activeCounted (t := t) (r := r) inv (by simp [pc])
  cases r with
  | true =>
    simp only [if_true] at counted
    simp only [run, pc]
    refine invInside inv ⟨rfl, rfl, ?_, ?_, ?_, ?_⟩ guarded rfl rfl trivial single ?_ ?_ ?_
    all_goals simp [pc]
    all_goals omega
  | false =>
    simp only [run, pc]
    refine invInside inv ⟨rfl, rfl, ?_, ?_, ?_, ?_⟩ guarded rfl rfl trivial ?_ ?_ ?_ ?_
    all_goals simp [pc]
    all_goals omega

end Stages

theorem runInv (inv : Inv s) (t pick : Tid) : Inv (run s t pick) := by
  have holds : (s.pc t).guarded = true → s.guard = some t := (inv.guard t).mp
  cases pc : s.pc t with
  | out | asleep r | inside r => simpa only [run, pc] using inv
  | acquireLock r | releaseLock r =>
    simp only [run, pc]
    refine lockAcquireInv inv (by simp [pc]) ?_ ?_ rfl trivial (by simp [pc])
    all_goals simp [pc]
  | woken r =>
    simp only [run, pc]
    refine lockAcquireInv inv (by simp [pc]) ?_ ?_ rfl trivial fun woken => ?_
    · simp [pc]
    · simp [pc]
    · rw [pc] at woken
      cases woken
      rfl
  | test r => simpa only [run, pc] using testInv inv pc
  | count r => exact countInv inv pc pick
  | wait r => simpa only [run, pc] using waitInv inv pc
  | uncount r => exact uncountInv inv pc pick
  | enter r => exact enterInv inv pc pick
  | leave r => exact leaveInv inv pc pick
  | acquireUnlock r | releaseUnlock r =>
    simp only [run, pc]
    refine lockReleaseInv inv (holds (by simp [pc])) ?_ ?_ rfl ?_ (by simp) (by simp)
    all_goals simp [pc]
  | signal r =>
    simp only [run, pc]
    split
    · exact signalInv inv pc (by assumption)
    · exact inv

theorem stepInv {a} (inv : Inv s) (ok : step s a = .ok s') : Inv s' := by
  cases a with
  | acquire t r =>
    simp only [step, Except.ok.injEq] at ok
    subst ok
    split
    · rename_i free
      refine invOutside inv free.1 (plainMoves (g := s.guard) ?_ ?_) rfl ⟨rfl, rfl, rfl⟩ ?_ rfl ?_ ?_
      all_goals simp [free.2]
    · exact inv
  | release t =>
    simp only [step] at ok
    split at ok
    · rename_i r pc
      cases ok
      have young := youngThread inv (t := t) (by simp [pc])
      refine invOutside inv young (plainMoves (g := s.guard) ?_ ?_) rfl ⟨rfl, rfl, rfl⟩ ?_ rfl ?_ ?_
      all_goals simp [pc]
    · cases ok
      exact inv
  | run t pick =>
    cases ok
    exact runInv inv t pick

end Moves

theorem initInv (threads : Nat) : Inv (rwLockInit threads) := by
  have empty : ∀ w : Pc → Nat, w .out = 0 → (0 : Int) = number w (rwLockInit threads) := by
    intro w out
    have none : number w (rwLockInit threads) = 0 := Finset.sum_eq_zero fun _ _ => out
    rw [none]
    rfl
  constructor
  case AR => exact empty _ rfl
  case AW => exact empty _ rfl
  case WR => exact empty _ rfl
  case WW => exact empty _ rfl
  all_goals simp [rwLockInit, Pc.guarded, Found]

def Pc.sleeping (reader : Bool) : Pc → Nat
  | .asleep r | .woken r => if r = reader then 1 else 0
  | _ => 0

structure RwSpec (s : State) : Prop where
  single : s.AW ≤ 1
  apart : s.AW = 1 → s.AR = 0
  AR : s.AR = number (Pc.active true) s
  AW : s.AW = number (Pc.active false) s
  WR : s.WR = number (Pc.waiting true) s
  WW : s.WW = number (Pc.waiting false) s
  sleeping : s.guard = none → s.WR = number (Pc.sleeping true) s ∧ s.WW = number (Pc.sleeping false) s
  reader : s.guard = none → ∀ t, s.pc t = .asleep true → 0 < s.AW + s.WW
  writer : s.guard = none → ∀ t, s.pc t = .asleep false → s.AR = 0 → s.AW = 0 →
    ∃ u, u ≠ t ∧ s.pc u = .woken false

theorem freeSleeping {s : State} (inv : Inv s) (free : s.guard = none) (r : Bool) :
    number (Pc.waiting r) s = number (Pc.sleeping r) s := by
  unfold number
  refine Finset.sum_congr rfl fun t _ => ?_
  have outside : (s.pc t).guarded = false := by
    refine Bool.eq_false_iff.mpr fun guarded => ?_
    have := (inv.guard t).mp guarded
    rw [free] at this
    contradiction
  revert outside
  cases s.pc t <;> simp [Pc.guarded, Pc.waiting, Pc.sleeping]

theorem readersWriters {threads s}
    (ran : Run step (fun _ _ => True) (rwLockInit threads) s) : RwSpec s := by
  have inv : Inv s := ran.invariant Inv (initInv threads) fun _ _ _ inv _ ok => stepInv inv ok
  have alone : s.guard = none → ∀ settles, ¬ Settling s settles := by
    rintro free settles ⟨u, holds, _⟩
    rw [free] at holds
    contradiction
  constructor
  case single => exact inv.single
  case apart => exact inv.apart
  case AR => exact inv.AR
  case AW => exact inv.AW
  case WR => exact inv.WR
  case WW => exact inv.WW
  case sleeping =>
    intro free
    rw [inv.WR, inv.WW, freeSleeping inv free, freeSleeping inv free]
    exact ⟨rfl, rfl⟩
  case reader =>
    exact fun free t asleep => (inv.reader t asleep).resolve_right (alone free _)
  case writer =>
    intro free t asleep noReader noWriter
    obtain ⟨u, woken⟩ := (inv.writer t asleep noReader noWriter).resolve_right (alone free _)
    refine ⟨u, ?_, woken⟩
    rintro rfl
    rw [asleep] at woken
    contradiction

theorem readersWritersExample :
    ∃ s, Run step (fun _ _ => True) (rwLockInit 3) s ∧
      (s.guard = none ∧ s.pc 1 = .woken false ∧ s.pc 2 = .asleep false ∧ s.WW = 2) ∧ RwSpec s := by
  obtain ⟨s, ran, found⟩ := execFinds step (fun _ _ => True) (rwLockInit 3)
    ([.acquire 0 true, .run 0 0, .run 0 0, .run 0 0, .run 0 0, .acquire 1 false, .run 1 0, .run 1 0,
      .run 1 0, .run 1 0, .acquire 2 false, .run 2 0, .run 2 0, .run 2 0, .run 2 0, .release 0,
      .run 0 0, .run 0 0, .run 0 1, .run 0 0])
    (fun s => decide (s.guard = none ∧ s.pc 1 = .woken false ∧ s.pc 2 = .asleep false ∧ s.WW = 2))
    (by decide +kernel)
  exact ⟨s, ran, of_decide_eq_true found, readersWriters ran⟩

end Pintos.RwLock
