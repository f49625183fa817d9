import Pintos.Threads.RwLock

/-! A thread's way through a struct rw_lock: from the call of rw_lock_acquire to its return, and
from the call of rw_lock_release to its return. -/
namespace Pintos.RwLock

inductive Phase where
  | acquiring
  | inside
  | releasing
  deriving DecidableEq, Repr

def Phase.admits (reader : Bool) : Phase → Pc → Bool
  | .acquiring, .out => true
  | .acquiring, .acquireLock r | .acquiring, .test r | .acquiring, .count r => r == reader
  | .acquiring, .wait r | .acquiring, .asleep r | .acquiring, .woken r => r == reader
  | .acquiring, .uncount r | .acquiring, .enter r | .acquiring, .acquireUnlock r => r == reader
  | .inside, .inside r => r == reader
  | .releasing, .inside r | .releasing, .releaseLock r | .releasing, .leave r => r == reader
  | .releasing, .signal r | .releasing, .releaseUnlock r => r == reader
  | _, _ => false

section Passage
variable {s : State} {t u pick : Tid} {reader : Bool}

theorem lockAcquirePc (next : Pc) : (lockAcquire s t next).pc = s.pc ∨
    (lockAcquire s t next).pc = Function.update s.pc t next := by
  unfold lockAcquire
  split
  · exact .inr rfl
  · exact .inl rfl

theorem runOther (s : State) (pick : Tid) (other : u ≠ t) : (run s t pick).pc u = s.pc u ∨
    ∃ r, s.pc u = .asleep r ∧ (run s t pick).pc u = .woken r := by
  have acquires (next : Pc) : (lockAcquire s t next).pc u = s.pc u := by
    rcases lockAcquirePc (s := s) (t := t) next with same | moved
    · rw [same]
    · rw [moved, Function.update_of_ne other]
  have rouses {r : Bool} {s' : State} (rouses : Rouses r s s') (next : Pc) :
      (s'.setPc t next).pc u = s.pc u ∨ ∃ r, s.pc u = .asleep r ∧ (s'.setPc t next).pc u = .woken r := by
    have still : (s'.setPc t next).pc u = s'.pc u := Function.update_of_ne other _ _
    rw [still]
    exact (rouses.pc u).imp id fun woken => ⟨r, woken⟩
  cases here : s.pc t with
  | out | asleep | inside => exact .inl (by simp only [run, here])
  | acquireLock | woken | releaseLock => simp only [run, here]; exact .inl (acquires _)
  | signal r =>
    simp only [run, here]
    split
    · unfold wake
      split
      · split
        · exact rouses (rousesSignal false pick) _
        · exact rouses (rousesRefl false s) _
      · split
        · exact rouses (rousesSignal false pick) _
        · split
          · exact rouses (rousesBroadcast true) _
          · exact rouses (rousesRefl false s) _
    · exact .inl rfl
  | count r | uncount r | enter r | leave r =>
    cases r <;> simp only [run, here] <;> exact .inl (Function.update_of_ne other _ _)
  | _ => simp only [run, here]; exact .inl (Function.update_of_ne other _ _)

theorem setPcSelf (next : Pc) : (s.setPc t next).pc t = next := Function.update_self _ _ _

theorem runAcquiring (entered : s.pc t ≠ .out) (phase : Phase.acquiring.admits reader (s.pc t) = true) :
    Phase.acquiring.admits reader ((run s t pick).pc t) = true ∧ (run s t pick).pc t ≠ .out ∨
      (run s t pick).pc t = .inside reader := by
  have acquires {next : Pc} (admitted : Phase.acquiring.admits reader next = true) (inside : next ≠ .out) :
      Phase.acquiring.admits reader ((lockAcquire s t next).pc t) = true ∧
        (lockAcquire s t next).pc t ≠ .out := by
    rcases lockAcquirePc (s := s) (t := t) next with same | moved
    · rw [same]
      exact ⟨phase, entered⟩
    · rw [moved, Function.update_self]
      exact ⟨admitted, inside⟩
  cases here : s.pc t with
  | out => exact absurd here entered
  | acquireLock r | woken r =>
    rw [here] at phase
    simp only [run, here]
    exact .inl (acquires phase Pc.noConfusion)
  | test r =>
    rw [here] at phase
    simp only [run, here, setPcSelf]
    refine .inl ?_
    split <;> exact ⟨phase, Pc.noConfusion⟩
  | asleep r =>
    simp only [run, here]
    exact .inl ⟨here ▸ phase, Pc.noConfusion⟩
  | acquireUnlock r =>
    rw [here] at phase
    have same : r = reader := by simpa [Phase.admits] using phase
    simp [run, here, lockRelease, same]
  | count r | wait r | uncount r | enter r =>
    rw [here] at phase
    have same : r = reader := by simpa [Phase.admits] using phase
    subst same
    refine .inl ?_
    cases r <;> simp [run, here, lockRelease, Phase.admits]
  | inside r | releaseLock r | leave r | signal r | releaseUnlock r =>
    rw [here] at phase
    cases phase

theorem runReleasing (left : s.pc t ≠ .inside reader)
    (phase : Phase.releasing.admits reader (s.pc t) = true) :
    Phase.releasing.admits reader ((run s t pick).pc t) = true ∧ (run s t pick).pc t ≠ .inside reader ∨
      (run s t pick).pc t = .out := by
  cases here : s.pc t with
  | inside r =>
    rw [here] at phase left
    have same : r = reader := by simpa [Phase.admits] using phase
    exact absurd (congrArg Pc.inside same) left
  | releaseLock r =>
    rw [here] at phase
    simp only [run, here]
    refine .inl ?_
    rcases lockAcquirePc (s := s) (t := t) (.leave r) with same | moved
    · rw [same, here]
      exact ⟨phase, Pc.noConfusion⟩
    · rw [moved, Function.update_self]
      exact ⟨phase, Pc.noConfusion⟩
  | leave r =>
    rw [here] at phase
    have same : r = reader := by simpa [Phase.admits] using phase
    subst same
    refine .inl ?_
    cases r <;> simp [run, here, Phase.admits]
  | signal r =>
    rw [here] at phase
    simp only [run, here]
    refine .inl ?_
    split
    · rw [setPcSelf]
      exact ⟨phase, Pc.noConfusion⟩
    · rw [here]
      exact ⟨phase, Pc.noConfusion⟩
  | releaseUnlock r => simp [run, here, lockRelease]
  | _ =>
    rw [here] at phase
    cases phase

def Pc.leaving : Pc → Bool
  | .signal _ | .releaseUnlock _ => true
  | _ => false

def Entered (s : State) : Prop :=
  ∀ t u, t ≠ u → s.pc t = .inside false → (s.pc u).leaving = false

theorem soleWriter (inv : Inv s) (here : s.pc t = .inside false) (other : u ≠ t) (r : Bool) :
    (s.pc u).active r = 0 := by
  have young : t < s.threads := youngThread inv (by simp [here])
  have mine : (s.pc t).active false = 1 := by simp [here, Pc.active]
  have writers := activeCounted inv mine
  have single := inv.single
  by_contra busy
  have active : (s.pc u).active r = 1 := by
    revert busy
    cases s.pc u <;> simp [Pc.active]
  cases r with
  | true =>
    have readers := activeCounted inv active
    have apart := inv.apart (by simp only [Bool.false_eq_true, if_false] at writers; omega)
    simp only [if_true] at readers
    omega
  | false =>
    have young' : u < s.threads := youngThread inv fun out => by simp [out, Pc.active] at active
    have both := Count.pairLe (g := fun v => (s.pc v).active false) young' young other
    have counted := inv.AW
    unfold number at counted
    simp only [mine, active] at both
    omega

theorem runLeaving (leaving : ((run s t pick).pc t).leaving = true) :
    (s.pc t).leaving = true ∨ ∃ r, s.pc t = .leave r := by
  revert leaving
  have acquires {next : Pc} (now : next.leaving = false)
      (leaving : ((lockAcquire s t next).pc t).leaving = true) : (s.pc t).leaving = true := by
    rcases lockAcquirePc (s := s) (t := t) next with same | moved
    · rwa [same] at leaving
    · rw [moved, Function.update_self, now] at leaving
      cases leaving
  cases here : s.pc t with
  | leave r => exact fun _ => .inr ⟨r, rfl⟩
  | signal r | releaseUnlock r => exact fun _ => .inl rfl
  | acquireLock r | woken r | releaseLock r =>
    simp only [run, here]
    exact fun leaving => .inl (here ▸ acquires rfl leaving)
  | test r =>
    simp only [run, here, setPcSelf]
    split <;> simp [Pc.leaving]
  | count r | wait r | uncount r | enter r | acquireUnlock r =>
    cases r <;> simp [run, here, lockRelease, Pc.leaving]
  | out | asleep r | inside r => simp [run, here, Pc.leaving]

theorem runInside (inside : (run s t pick).pc t = .inside false) :
    s.pc t = .inside false ∨ s.pc t = .acquireUnlock false := by
  revert inside
  have acquires {next : Pc} (now : next ≠ .inside false)
      (inside : (lockAcquire s t next).pc t = .inside false) : s.pc t = .inside false := by
    rcases lockAcquirePc (s := s) (t := t) next with same | moved
    · rwa [same] at inside
    · rw [moved, Function.update_self] at inside
      exact absurd inside now
  cases here : s.pc t with
  | acquireLock r | woken r | releaseLock r =>
    simp only [run, here]
    exact fun inside => .inl (here ▸ acquires Pc.noConfusion inside)
  | test r =>
    simp only [run, here, setPcSelf]
    split <;> simp
  | signal r =>
    simp only [run, here]
    split
    · simp
    · simp [here]
  | count r | wait r | uncount r | enter r | acquireUnlock r | leave r | releaseUnlock r =>
    cases r <;> simp [run, here, lockRelease]
  | out | asleep r | inside r => simp [run, here]

theorem enteredRun (inv : Inv s) (entered : Entered s) : Entered (run s t pick) := by
  intro v u apart here
  have others {w : Tid} (other : w ≠ t) (leaving : ((run s t pick).pc w).leaving = true) :
      (s.pc w).leaving = true := by
    rcases runOther s pick other with same | ⟨r, _, woken⟩
    · rwa [same] at leaving
    · rw [woken] at leaving
      cases leaving
  refine Bool.eq_false_iff.mpr fun leaving => ?_
  by_cases mine : v = t
  · subst mine
    have still := others (Ne.symm apart) leaving
    rcases runInside here with before | unlocks
    · rw [entered v u apart before] at still
      cases still
    · -- the writer still holds the guard, so nobody else is in the monitor
      have holds := (inv.guard v).mp (by rw [unlocks]; rfl)
      have guarded : (s.pc u).guarded = true := by
        revert still
        cases s.pc u <;> simp [Pc.leaving, Pc.guarded]
      exact apart (Option.some.inj (holds.symm.trans ((inv.guard u).mp guarded)))
  · have before : s.pc v = .inside false := by
      rcases runOther s pick mine with same | ⟨r, _, woken⟩
      · rw [← same, here]
      · rw [woken] at here
        cases here
    by_cases self : u = t
    · subst self
      rcases runLeaving leaving with still | ⟨r, leaves⟩
      · rw [entered v u apart before] at still
        cases still
      · have idle := soleWriter inv before (Ne.symm apart) r
        simp [leaves, Pc.active] at idle
    · have still := others self leaving
      rw [entered v u apart before] at still
      cases still

theorem enteredCall {next : Pc} (entered : Entered s) (calls : next.leaving = false ∧ next ≠ .inside false) :
    Entered (s.setPc t next) := by
  intro v u apart here
  by_cases mine : v = t
  · rw [mine, setPcSelf] at here
    exact absurd here calls.2
  · have before : s.pc v = .inside false := by
      rw [← here]
      exact (Function.update_of_ne mine _ _).symm
    by_cases self : u = t
    · rw [self, setPcSelf]
      exact calls.1
    · rw [show (s.setPc t next).pc u = s.pc u from Function.update_of_ne self _ _]
      exact entered v u apart before

end Passage
end Pintos.RwLock
