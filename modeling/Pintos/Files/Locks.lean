import Pintos.Files.Table

/-! The rw_lock of every struct file_desc, and where the threads that use the descriptor are in
it. -/
namespace Pintos.Files
open Machine
open RwLock (Phase)

section Steps
variable {lock : RwLock.State} {t u pick : Nat} {reader : Bool}

theorem acquireInv (inv : RwLock.Inv lock) (young : t < lock.threads) :
    RwLock.Inv (rwLockAcquire lock t reader pick) := by
  unfold rwLockAcquire
  split
  · rename_i out
    refine RwLock.stepInv (a := .acquire t reader) inv ?_
    simp only [RwLock.step, young, out, true_and, if_true]
  · exact RwLock.runInv inv t pick

theorem releaseInv (inv : RwLock.Inv lock) : RwLock.Inv (rwLockRelease lock t reader pick) := by
  unfold rwLockRelease
  split
  · rename_i inside
    refine RwLock.stepInv (a := .release t) inv ?_
    simp only [RwLock.step, inside]
  · exact RwLock.runInv inv t pick

theorem acquireEntered (inv : RwLock.Inv lock) (entered : RwLock.Entered lock) :
    RwLock.Entered (rwLockAcquire lock t reader pick) := by
  unfold rwLockAcquire
  split
  · exact RwLock.enteredCall entered ⟨rfl, RwLock.Pc.noConfusion⟩
  · exact RwLock.enteredRun inv entered

theorem releaseEntered (inv : RwLock.Inv lock) (entered : RwLock.Entered lock) :
    RwLock.Entered (rwLockRelease lock t reader pick) := by
  unfold rwLockRelease
  split
  · exact RwLock.enteredCall entered ⟨rfl, RwLock.Pc.noConfusion⟩
  · exact RwLock.enteredRun inv entered

theorem runThreads : (RwLock.run lock t pick).threads = lock.threads := by
  have acquires (next : RwLock.Pc) : (RwLock.lockAcquire lock t next).threads = lock.threads := by
    unfold RwLock.lockAcquire
    split <;> rfl
  unfold RwLock.run
  split <;> try rfl
  all_goals try exact acquires _
  split
  · unfold RwLock.wake RwLock.condSignal
    split
    · split
      · split <;> rfl
      · rfl
    · split
      · split <;> rfl
      · split <;> rfl
  · rfl

theorem acquireThreads : (rwLockAcquire lock t reader pick).threads = lock.threads := by
  unfold rwLockAcquire
  split
  · rfl
  · exact runThreads

theorem releaseThreads : (rwLockRelease lock t reader pick).threads = lock.threads := by
  unfold rwLockRelease
  split
  · rfl
  · exact runThreads

def Woken (before after : RwLock.Pc) : Prop :=
  after = before ∨ ∃ r, before = .asleep r ∧ after = .woken r

theorem acquireOther (other : u ≠ t) : Woken (lock.pc u) ((rwLockAcquire lock t reader pick).pc u) := by
  unfold rwLockAcquire
  split
  · exact .inl (Function.update_of_ne other _ _)
  · exact RwLock.runOther _ _ other

theorem releaseOther (other : u ≠ t) : Woken (lock.pc u) ((rwLockRelease lock t reader pick).pc u) := by
  unfold rwLockRelease
  split
  · exact .inl (Function.update_of_ne other _ _)
  · exact RwLock.runOther _ _ other

theorem acquirePhase (phase : Phase.acquiring.admits reader (lock.pc t) = true) :
    Phase.acquiring.admits reader ((rwLockAcquire lock t reader pick).pc t) = true ∨
      (rwLockAcquire lock t reader pick).pc t = .inside reader := by
  unfold rwLockAcquire
  split
  · refine .inl ?_
    rw [RwLock.setPcSelf]
    simp [Phase.admits]
  · rename_i entered
    exact (RwLock.runAcquiring entered phase).imp (fun both => both.1) id

theorem releasePhase (phase : Phase.releasing.admits reader (lock.pc t) = true) :
    Phase.releasing.admits reader ((rwLockRelease lock t reader pick).pc t) = true ∨
      (rwLockRelease lock t reader pick).pc t = .out := by
  unfold rwLockRelease
  split
  · refine .inl ?_
    rw [RwLock.setPcSelf]
    simp [Phase.admits]
  · rename_i left
    exact (RwLock.runReleasing left phase).imp (fun both => both.1) id

end Steps

theorem withinRefers {pc : Pc} {d : Nat} {reader : Bool} {phase : Phase}
    (within : pc.within = some (d, reader, phase)) : pc.refers = some d := by
  cases pc with
  | call handler fd stage =>
    cases stage <;> simp [Pc.within, Pc.refers, Stage.refers] at within ⊢
    all_goals simp [within]
  | _ => cases within

structure Pc.Stands (pc : Pc) (d : Nat) (place : RwLock.Pc) : Prop where
  within : ∀ reader phase, pc.within = some (d, reader, phase) → phase.admits reader place = true
  out : (∀ reader phase, pc.within ≠ some (d, reader, phase)) → place = .out

theorem standsOut {pc : Pc} (none : pc.within = none) {d : Nat} : pc.Stands d .out :=
  ⟨fun _ _ same => by simp [none] at same, fun _ => rfl⟩

theorem standsWoken {pc : Pc} {d : Nat} {place place' : RwLock.Pc} (stands : pc.Stands d place)
    (woken : Woken place place') : pc.Stands d place' := by
  rcases woken with rfl | ⟨r, rfl, rfl⟩
  · exact stands
  · refine ⟨fun reader phase same => ?_, fun none => ?_⟩
    · have admits := stands.within reader phase same
      cases phase with
      | acquiring => exact admits
      | inside | releasing => cases admits
    · cases stands.out none

theorem standsNext {pc pc' : Pc} {d e : Nat} {reader : Bool} {phase phase' : Phase}
    {place : RwLock.Pc} (was : pc.within = some (e, reader, phase))
    (now : pc'.within = some (e, reader, phase'))
    (next : ∀ place, phase.admits reader place = true → phase'.admits reader place = true)
    (stands : pc.Stands d place) : pc'.Stands d place := by
  refine ⟨fun r phase₁ same => ?_, fun none => stands.out fun r phase₁ same => ?_⟩
  · rw [now] at same
    cases same
    exact next place (stands.within reader phase was)
  · rw [was] at same
    cases same
    exact none reader phase' now

structure Passing (s : State) : Prop where
  inv : ∀ d < s.made, RwLock.Inv (s.desc d).lock
  threads : ∀ d < s.made, (s.desc d).lock.threads = s.count
  entered : ∀ d < s.made, RwLock.Entered (s.desc d).lock
  stands : ∀ d < s.made, ∀ t, (s.threads t).Stands d ((s.desc d).lock.pc t)

section Passing
variable {s s' : State} {t : Nat} {pc : Pc}

theorem passingStill (passing : Passing s) (turn : Turn s t pc s') (made : s'.made = s.made)
    (lock : ∀ d, (s'.desc d).lock = (s.desc d).lock)
    (next : ∀ d place, (s.threads t).Stands d place → pc.Stands d place) : Passing s' := by
  refine ⟨fun d young => ?_, fun d young => ?_, fun d young => ?_, fun d young u => ?_⟩
  all_goals rw [made] at young; rw [lock]
  · exact passing.inv d young
  · rw [turn.count]
    exact passing.threads d young
  · exact passing.entered d young
  · by_cases self : u = t
    · rw [self, turn.self]
      exact next d _ (passing.stands d young t)
    · rw [turn.other self]
      exact passing.stands d young u

theorem passingLock {d : Nat} {reader : Bool} {phase : Phase} (passing : Passing s) (turn : Turn s t pc s')
    (made : s'.made = s.made) (others : ∀ e, e ≠ d → s'.desc e = s.desc e)
    (inv : RwLock.Inv (s'.desc d).lock) (threads : (s'.desc d).lock.threads = (s.desc d).lock.threads)
    (entered : RwLock.Entered (s'.desc d).lock)
    (woken : ∀ u, u ≠ t → Woken ((s.desc d).lock.pc u) ((s'.desc d).lock.pc u))
    (was : (s.threads t).within = some (d, reader, phase))
    (mine : pc.Stands d ((s'.desc d).lock.pc t)) (gone : ∀ e, e ≠ d → ∀ r ph, pc.within ≠ some (e, r, ph)) :
    Passing s' := by
  refine ⟨fun e young => ?_, fun e young => ?_, fun e young => ?_, fun e young u => ?_⟩
  all_goals rw [made] at young; by_cases same : e = d
  · exact same ▸ inv
  · rw [others e same]
    exact passing.inv e young
  · rw [same, threads, turn.count]
    exact passing.threads d (same ▸ young)
  · rw [others e same, turn.count]
    exact passing.threads e young
  · exact same ▸ entered
  · rw [others e same]
    exact passing.entered e young
  · subst same
    by_cases self : u = t
    · rw [self, turn.self]
      exact mine
    · rw [turn.other self]
      exact standsWoken (passing.stands e young u) (woken u self)
  · rw [others e same]
    by_cases self : u = t
    · rw [self, turn.self]
      have out : (s.desc e).lock.pc t = .out := (passing.stands e young t).out fun r ph there => by
        rw [was] at there
        cases there
        exact same rfl
      rw [out]
      exact ⟨fun r ph there => absurd there (gone e same r ph), fun _ => rfl⟩
    · rw [turn.other self]
      exact passing.stands e young u

theorem passingMake (passing : Passing s) (tabled : Tabled s) (turn : Turn s t pc s')
    (made : s'.made = s.made + 1) (others : ∀ e, e ≠ s.made → s'.desc e = s.desc e)
    (new : (s'.desc s.made).lock = RwLock.rwLockInit s.count)
    (was : (s.threads t).within = none) (now : pc.within = none) : Passing s' := by
  have old {d : Nat} (young : d < s'.made) (other : d ≠ s.made) : d < s.made := by omega
  have unused (u : Nat) (r : Bool) (ph : Phase) : (s.threads u).within ≠ some (s.made, r, ph) := by
    intro there
    exact absurd (tabled.refers u _ (withinRefers there)) (Nat.lt_irrefl _)
  refine ⟨fun d young => ?_, fun d young => ?_, fun d young => ?_, fun d young u => ?_⟩
  all_goals by_cases same : d = s.made
  · rw [same, new]
    exact RwLock.initInv s.count
  · rw [others d same]
    exact passing.inv d (old young same)
  · rw [same, new, turn.count]
    rfl
  · rw [others d same, turn.count]
    exact passing.threads d (old young same)
  · rw [same, new]
    intro v w apart here
    cases here
  · rw [others d same]
    exact passing.entered d (old young same)
  · rw [same, new]
    by_cases self : u = t
    · rw [self, turn.self]
      exact standsOut now
    · rw [turn.other self]
      exact ⟨fun r ph there => absurd there (unused u r ph), fun _ => rfl⟩
  · rw [others d same]
    by_cases self : u = t
    · rw [self, turn.self]
      have out := (passing.stands d (old young same) t).out (by simp [was])
      rw [out]
      exact standsOut now
    · rw [turn.other self]
      exact passing.stands d (old young same) u

theorem standsPasses {pc' : Pc} {d : Nat} {place : RwLock.Pc}
    (passes : pc'.within = pc.within ∨
      pc.within = none ∧ (∃ d reader, pc'.within = some (d, reader, .acquiring)) ∨
      ∃ d reader, pc.within = some (d, reader, .inside) ∧ pc'.within = some (d, reader, .releasing))
    (stands : pc.Stands d place) : pc'.Stands d place := by
  rcases passes with same | ⟨was, e, reader, now⟩ | ⟨e, reader, was, now⟩
  · exact ⟨same ▸ stands.within, same ▸ stands.out⟩
  · have out := stands.out (by simp [was])
    refine ⟨fun r ph there => ?_, fun _ => out⟩
    rw [now] at there
    cases there
    rw [out]
    rfl
  · refine standsNext was now (fun place inside => ?_) stands
    cases place <;> simp [Phase.admits] at inside ⊢
    exact inside

theorem passingUses (passing : Passing s) (tabled : Tabled s) (busy : t < s.count)
    (uses : Uses s t s') : Passing s' := by
  cases uses with
  | @acquires handler fd d chosen here =>
    have young := tabled.refers t d (by rw [here]; rfl)
    have was : (s.threads t).within = some (d, handler.reader, .acquiring) := by rw [here]; rfl
    have phase := (passing.stands d young t).within _ _ was
    have inv := passing.inv d young
    refine passingLock (d := d) passing ⟨rfl, rfl⟩ rfl (fun e other => Function.update_of_ne other _ _)
      ?_ ?_ ?_ ?_ was ?_ ?_
    any_goals simp only [State.become, State.put, Function.update_self]
    · exact acquireInv inv (passing.threads d young ▸ busy)
    · exact acquireThreads
    · exact acquireEntered inv (passing.entered d young)
    · exact fun u other => acquireOther other
    · split
      · rename_i inside
        have now : (Pc.call handler fd (if handler.reader = true then .transfer d else .fileClose d)).within
            = some (d, handler.reader, .inside) := by
          cases handler <;> simp [Pc.within, Handler.reader, Handler.locks]
        refine ⟨fun r ph there => ?_, fun none => absurd now (none _ _)⟩
        rw [now] at there
        cases there
        rw [inside]
        simp [Phase.admits]
      · rename_i outside
        have admits := Or.resolve_right (acquirePhase phase) outside
        refine ⟨fun r ph there => ?_, fun none => absurd rfl (none _ _)⟩
        cases there
        exact admits
    · intro e other r ph there
      split at there
      · split at there
        · cases handler <;> simp [Pc.within, Handler.locks] at there
          all_goals exact other there.1.symm
        · cases there
          exact other rfl
      · cases there
        exact other rfl
  | @releases handler fd d result chosen here =>
    have young := tabled.refers t d (by rw [here]; rfl)
    have was : (s.threads t).within = some (d, handler.reader, .releasing) := by rw [here]; rfl
    have phase := (passing.stands d young t).within _ _ was
    have inv := passing.inv d young
    refine passingLock (d := d) passing ⟨rfl, rfl⟩ rfl (fun e other => Function.update_of_ne other _ _)
      ?_ ?_ ?_ ?_ was ?_ ?_
    any_goals simp only [State.become, State.put, Function.update_self]
    · exact releaseInv inv
    · exact releaseThreads
    · exact releaseEntered inv (passing.entered d young)
    · exact fun u other => releaseOther other
    · split
      · rename_i out
        rw [out]
        split <;> exact standsOut rfl
      · rename_i inside
        have admits := Or.resolve_right (releasePhase phase) inside
        refine ⟨fun r ph there => ?_, fun none => absurd rfl (none _ _)⟩
        cases there
        exact admits
    · intro e other r ph there
      split at there
      · split at there <;> cases there
      · cases there
        exact other rfl

theorem passingChanges (passing : Passing s) (tabled : Tabled s) (changes : Changes s t s') :
    Passing s' := by
  cases changes with
  | makes f here =>
    exact passingMake passing tabled ⟨rfl, rfl⟩ rfl (fun d other => Function.update_of_ne other _ _)
      (by simp [State.become, State.put]) (by rw [here]; rfl) rfl
  | closes fd d here =>
    refine passingStill passing ⟨rfl, rfl⟩ rfl (fun _ => rfl) fun e place => ?_
    rw [here]
    exact standsPasses (.inr (.inr ⟨d, false, rfl, rfl⟩))
  | frees fd d here =>
    exact passingStill passing ⟨rfl, rfl⟩ rfl (putKeeps Desc.lock rfl) fun e place =>
      standsPasses (.inl (by rw [here]; rfl))
  | opens chosen here | pushes f d here | removes fd d here =>
    exact passingStill passing ⟨rfl, rfl⟩ rfl (fun _ => rfl) fun e place =>
      standsPasses (.inl (by rw [here]; rfl))

theorem passingStep {a : Action} (passing : Passing s) (tabled : Tabled s) (ok : step s a = .ok s') :
    Passing s' := by
  obtain ⟨t, busy, ⟨still, passes | uses, _⟩ | changes, _⟩ := stepMoves tabled.fits tabled.sees ok
  · exact passingStill passing still.turn still.made passes.lock fun d place =>
      standsPasses passes.within
  · exact passingUses passing tabled busy uses
  · exact passingChanges passing tabled changes

theorem passingBoot (count : Nat) : Passing (boot count) := by
  constructor <;> simp [boot]

end Passing
end Pintos.Files
