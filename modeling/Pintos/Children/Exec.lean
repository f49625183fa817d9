import Pintos.Children.Reaps

/-! What handler_exec returns. It reads success off the pair (exited, exited_code), which tells a
failed load from every other outcome, but not a PCB that could not be allocated; and a record that
process_execute has put into the list stays there when thread_create fails. -/
namespace Pintos.Children
open Machine
open Function (update_of_ne update_self)

section Advances
variable {s s' : State} {a : Action} {t r : Nat}

structure Advances (s s' : State) (r : Nat) : Prop where
  present : (s'.child r).pc ≠ .absent
  tid : (s'.child r).tid = (s.child r).tid
  started : (s.child r).started = true → (s'.child r).started = true
  ended : (s.child r).pc = .ended → s'.child r = s.child r
  finished : (s.child r).finished = true →
    (s'.child r).finished = true ∧ (s'.child r).exitCode = (s.child r).exitCode
  children : r ∈ s'.children → r ∈ s.children

theorem advancesSame (present : (s.child r).pc ≠ .absent) (child : s'.child r = s.child r)
    (children : r ∈ s'.children → r ∈ s.children) : Advances s s' r := by
  refine ⟨?_, ?_, ?_, ?_, ?_, children⟩ <;> rw [child]
  · exact present
  · exact id
  · exact fun _ => rfl
  · exact fun finished => ⟨finished, rfl⟩

theorem executeAdvances {caller : Caller} {stage : Execute} {granted : Bool} (tended : Tended s)
    (here : s.threads t = .execute caller stage) (present : (s.child r).pc ≠ .absent) :
    Ends (processExecute s t caller granted stage) fun s' => Advances s s' r := by
  have apart {q : Nat} {b : Side} (mine : stage.side = some (q, b))
      (absent : Good s.kernel (s.record q) (s.child q) b → (s.child q).pc = .absent) : r ≠ q := by
    rintro rfl
    exact present (absent (tended.good r b (.inl ⟨t, by rw [here]; exact mine⟩)))
  intro s' ok
  obtain ⟨makes, lists⟩ := executeMakes s' ok
  refine advancesSame present ?_ ?_
  · rcases makes with ⟨child, _⟩ | ⟨q, rfl, _, child⟩
    · rw [child]
    · rw [child]
      exact update_of_ne (apart rfl fun downed => downed.2) _ _
  · rcases lists with children | ⟨q, rfl, children⟩
    · rw [children]
      exact id
    · rw [children]
      exact fun inside => (List.mem_cons.mp inside).resolve_left (apart rfl fun fresh => fresh.2)

theorem stepAdvances (family : Family s) (present : (s.child r).pc ≠ .absent)
    (ok : step s a = .ok s') : Advances s s' r := by
  have lasting (lasts : Lasts s s') : Advances s s' r :=
    advancesSame present (by rw [lasts.child]) (lasts.children r)
  cases stepped ok with
  | calls | exits | allocateTid => exact advancesSame present rfl id
  | execute _ here ok => exact executeAdvances family.tended here present s' ok
  | exec _ _ ok => exact lasting (execLasts s' ok)
  | wait _ _ ok => exact lasting (waitLasts s' ok)
  | clean _ _ ok => exact lasting (cleanLasts s' ok)
  | @child q _ value kid ran =>
    by_cases self : r = q
    · subst self
      have grows := growsRun s.kernel (family.tids.sound r present) (value, kid) ran
      refine ⟨?_, ?_, ?_, ?_, ?_, id⟩ <;> simp only [update_self]
      · exact grows.sound.present
      · exact grows.tid
      · exact grows.started
      · intro ended
        simp [runChild, ended] at ran
      · exact fun finished => ⟨(grows.finished finished).1, grows.exitCode⟩
    · exact advancesSame present (update_of_ne self _ _) id
  | @exitChild q _ running =>
    by_cases self : r = q
    · subst self
      refine ⟨?_, ?_, ?_, ?_, ?_, id⟩ <;> simp only [update_self]
      · simp
      · exact id
      · intro ended
        rw [running] at ended
        cases ended
      · intro finished
        simp [Child.finished, running] at finished
    · exact advancesSame present (update_of_ne self _ _) id

end Advances
def Told (s : State) (result : Int) : Option Nat → Prop
  | none => result = -1
  | some r => (s.child r).pc ≠ .absent ∧
    (result = -1 → (s.child r).pc = .ended ∧ (s.child r).started = false ∧ r ∉ s.children) ∧
    (result ≠ -1 → (s.child r).started = true ∧ result = (s.child r).tid)

def ParentPc.answer : ParentPc → Option (Option Nat × Int)
  | .exec (.unlock made result) | .exec (.done made result) => some (made, result)
  | _ => none

def Answers (s : State) : Prop :=
  ∀ t made result, (s.threads t).answer = some (made, result) → Told s result made

section Answers
variable {s s' : State} {a : Action} {t : Nat} {granted : Bool} {made : Option Nat} {result : Int}
  {caller : Caller}

theorem toldStep (family : Family s) (told : Told s result made) (ok : step s a = .ok s') :
    Told s' result made := by
  cases made with
  | none => exact told
  | some r =>
    obtain ⟨present, failed, passed⟩ := told
    have advances := stepAdvances family present ok
    refine ⟨advances.present, fun is => ?_, fun is => ?_⟩
    · obtain ⟨ended, never, unlisted⟩ := failed is
      rw [advances.ended ended]
      exact ⟨ended, never, fun inside => unlisted (advances.children inside)⟩
    · rw [advances.tid]
      exact ⟨advances.started (passed is).1, (passed is).2⟩

theorem refusedAnswer (same : (refused none caller).answer = some (made, result)) :
    Told s' result made := by
  cases caller with
  | handler =>
    obtain ⟨rfl, rfl⟩ := Prod.mk.inj (Option.some.inj same)
    exact rfl
  | runTask => cases same

theorem executeAnswers {stage : Execute} (tended : Tended s)
    (here : s.threads t = .execute caller stage) (supplied : Supplied s (.run t granted)) :
    Ends (processExecute s t caller granted stage) fun s' =>
      ∀ made result, (s'.threads t).answer = some (made, result) → Told s' result made := by
  have side : (s.threads t).side = stage.side := by rw [here]; rfl
  have good {r : Nat} {a : Side} := @tendedGood s t r _ a tended side
  rw [Supplied, here] at supplied
  cases stage with
  | page | record =>
    cases granted
    · simpa [processExecute, State.becomeThread] using fun _ _ => refusedAnswer
    · simp [processExecute, State.becomeThread, ParentPc.answer]
  | editing r | initPcb r | create r =>
    obtain rfl := supplied rfl
    simp [processExecute, State.becomeThread, ParentPc.answer]
  | setPid r tid =>
    obtain ⟨_, _, rfl, _⟩ := good rfl
    have apart : ((s.child r).tid : Int) ≠ -1 := by omega
    cases caller <;> simp [processExecute, State.becomeThread, returned, apart, ParentPc.answer]
  | dropEditing r | drop r => exact (good rfl).elim
  | _ => simp [processExecute, State.becomeThread, ParentPc.answer]

theorem execAnswers {stage : Exec} (tended : Tended s) (sane : (ParentPc.exec stage).Sane s.kernel)
    (here : s.threads t = .exec stage) (answers : Answers s) :
    Ends (handlerExec s t stage) fun s' =>
      ∀ made result, (s'.threads t).answer = some (made, result) → Told s' result made := by
  have side : (s.threads t).side = stage.side := by rw [here]; rfl
  have good {r : Nat} {a : Side} := @tendedGood s t r _ a tended side
  cases stage with
  | search r tid rest =>
    cases rest with
    | nil => cases sane.2
    | cons child rest =>
      simp only [handlerExec, endsBind, endsAllow, Record.use, endsOk, State.becomeThread]
      intro _
      split <;> exact fun _ _ no => by cases no
  | test r tid child =>
    simp only [handlerExec, endsBind, endsAllow, Record.use, endsOk, State.becomeThread]
    intro _
    split <;> exact fun _ _ no => by cases no
  | free r child =>
    obtain rfl := sane.2
    simp only [handlerExec, endsBind, Record.endsFree, endsOk]
    intro _ made result same
    rw [State.becomeThread] at same
    obtain ⟨rfl, rfl⟩ := Prod.mk.inj (Option.some.inj same)
    obtain ⟨bound, ended, never⟩ := good rfl
    refine ⟨bound.sound.present, fun _ => ⟨ended, never, fun inside => ?_⟩, fun no => absurd rfl no⟩
    cases (tended.linked t child _ side).mp inside
  | up r tid child =>
    obtain rfl := sane.2
    simp only [handlerExec, endsBind, endsAllow, Record.use, Record.endsUpEditing, endsOk]
    intro _ _ _ _ made result same
    rw [State.becomeThread] at same
    obtain ⟨rfl, rfl⟩ := Prod.mk.inj (Option.some.inj same)
    obtain ⟨bound, started, tidOf, _⟩ := good rfl
    exact ⟨bound.sound.present, fun no => by omega, fun _ => ⟨started, tidOf⟩⟩
  | unlock made result =>
    simp only [handlerExec, endsBind, endsAllow, State.release, endsOk]
    intro _ made' result' same
    rw [State.becomeThread] at same
    obtain ⟨rfl, rfl⟩ := Prod.mk.inj (Option.some.inj same)
    exact answers t made result (by rw [here]; rfl)
  | _ => simp [handlerExec, State.becomeThread, ParentPc.answer]

theorem waitSilent {pid : Int} {stage : Wait} :
    Ends (processWait s t pid stage) fun s' => (s'.threads t).answer = none := by
  cases stage with
  | search rest => cases rest <;> simp [processWait, State.becomeThread, ParentPc.answer]
  | free child result stage =>
    simp only [processWait, endsBind]
    rintro ⟨value, next⟩ _
    cases next <;> simp [State.becomeThread, ParentPc.answer]
  | _ => simp [processWait, State.becomeThread, ParentPc.answer]

theorem cleanSilent {stage : Clean} :
    Ends (processExitTail s t stage) fun s' => (s'.threads t).answer = none := by
  cases stage with
  | pop =>
    simp only [processExitTail]
    split <;> simp [State.becomeThread, ParentPc.answer]
  | free child stage held =>
    simp only [processExitTail, endsBind]
    rintro ⟨value, next⟩ _
    cases next <;> simp [State.becomeThread, ParentPc.answer]
  | _ => simp [processExitTail, State.becomeThread, ParentPc.answer]

theorem answersStep (family : Family s) (supplied : Supplied s a) (answers : Answers s)
    (ok : step s a = .ok s') : Answers s' := by
  have others {t : Nat} (mine : ∀ made result, (s'.threads t).answer = some (made, result) →
      Told s' result made) (frame : ∀ u, u ≠ t → s'.threads u = s.threads u) : Answers s' := by
    intro u made result same
    by_cases self : u = t
    · subst self
      exact mine made result same
    · rw [frame u self] at same
      exact toldStep family (answers u made result same) ok
  have still (frame : s'.threads = s.threads) : Answers s' := by
    intro u made result same
    rw [frame] at same
    exact toldStep family (answers u made result same) ok
  have quiet {t : Nat} {pc : ParentPc} (moved : s'.threads t = pc) (none : pc.answer = none) :
      ∀ made result, (s'.threads t).answer = some (made, result) → Told s' result made := by
    intro made result same
    rw [moved, none] at same
    cases same
  cases stepped ok with
  | @calls _ t _ pc entry =>
    refine others (quiet (State.becomeThread s t pc) ?_) fun u => State.becomeOther s pc
    cases entry <;> rfl
  | @exits t => exact others (quiet (State.becomeThread s t _) rfl) fun u => State.becomeOther s _
  | execute _ here ok =>
    exact others (executeAnswers family.tended here supplied s' ok) (executeFrames s' ok).threads
  | @exec t _ _ _ _ here ok =>
    have sane := family.threads.sane t
    rw [here] at sane
    exact others (execAnswers family.tended sane here answers s' ok) (execFrames s' ok).threads
  | wait _ _ ok => exact others (quiet rfl (waitSilent s' ok)) (waitFrames s' ok).threads
  | clean _ _ ok => exact others (quiet rfl (cleanSilent s' ok)) (cleanFrames s' ok).threads
  | child | exitChild | allocateTid => exact still rfl

end Answers

section Stops
variable {s : State} {t : Nat} {granted : Bool} {rec : Record} {kid : Child} {kernel : Bool}

theorem goodLive {a : Side} (good : Good kernel rec kid a) (linked : a.linked = true) :
    rec.freed = false := by
  have bound {held taken : Bool} (bound : Bound rec kid held taken) : rec.freed = false := by
    obtain ⟨pid, rfl, _⟩ := bound.written
    rfl
  cases a with
  | fresh | cut | reaping _ _ | popped | closing _ | closed => cases linked
  | bare | armed | downed => rw [good.1]
  | dropped => exact good.elim
  | launched | looking | passing | failing | listed | taken => exact bound good.1

theorem Tended.live {r : Nat} (tended : Tended s) (inside : r ∈ s.children) :
    (s.record r).freed = false := by
  obtain ⟨a, stands, linked⟩ := tended.stands inside
  exact goodLive (tended.good r a stands) linked

def Hindered (s : State) (t : Nat) (f : Fault) : Prop :=
  f = .blocked ∧ ((∃ u, u ≠ t ∧ s.childrenLock = some u) ∨
    ∃ r a, (s.threads t).side = some (r, a) ∧ (s.child r).pc.holds = true)

theorem failsThen {α : Type} {x : Except Fault α} {f : α → State} {fault : Fault → Prop}
    (stops : Fails x fault) : Fails (x >>= fun a => .ok (f a)) fault :=
  failsBind.mpr ⟨stops, fun _ _ => failsOk.mpr trivial⟩

theorem lockStops (threads : Threads s) (free : (s.threads t).locked = false) :
    Fails (s.acquire t) fun f => f = .blocked ∧ ∃ u, u ≠ t ∧ s.childrenLock = some u := by
  refine failsAllow.mpr fun held => ?_
  obtain ⟨u, holds⟩ := Option.ne_none_iff_exists'.mp held
  refine ⟨rfl, u, ?_, holds⟩
  rintro rfl
  rw [threads.holder u holds] at free
  cases free

theorem unlockStops {fault : Fault → Prop} (threads : Threads s)
    (locked : (s.threads t).locked = true) : Fails (s.release t) fault :=
  failsAllow.mpr fun no => absurd (threads.locked t locked) no

theorem checkStops {fault : Fault → Prop} {rs : List Nat}
    (live : ∀ r ∈ rs, (s.record r).freed = false) : Fails (s.check rs) fault :=
  failsAllow.mpr fun dead => absurd live dead

theorem Bound.live {held taken : Bool} (bound : Bound rec kid held taken) :
    rec.freed = false ∧ rec.editingFreed = false ∧
      rec.editing = some (if kid.pc.holds || held then 0 else 1) := by
  obtain ⟨pid, rfl, _⟩ := bound.written
  exact ⟨rfl, rfl, rfl⟩

theorem executeStops {caller : Caller} {stage : Execute} (family : Family s)
    (here : s.threads t = .execute caller stage) :
    Fails (processExecute s t caller granted stage) (Hindered s t) := by
  obtain ⟨tended, threads, _⟩ := family
  have side : (s.threads t).side = stage.side := by rw [here]; rfl
  have good {r : Nat} {a : Side} := @tendedGood s t r _ a tended side
  cases stage with
  | page => simp [processExecute]
  | record | initPcb r | create r => cases granted <;> simp [processExecute]
  | lock r =>
    exact failsThen fun f fails =>
      (lockStops threads (by rw [here]; rfl) f fails).imp id .inl
  | push r =>
    refine failsThen (checkStops fun q mem => ?_)
    rcases List.mem_cons.mp mem with rfl | first
    · rw [(good rfl).1]
    · exact tended.live (List.mem_of_head? (Option.mem_toList.mp first))
  | unlock r => exact failsThen (unlockStops threads (by rw [here]; rfl))
  | editing r =>
    have fresh : s.record r = {} := (good rfl).1
    cases granted <;> simp [processExecute, fresh]
  | down r =>
    have armed : s.record r = { editing := some 1 } := (good rfl).1
    simp [processExecute, armed]
  | setPid r tid =>
    have live := (good rfl).1.live
    simp [processExecute, live.1]
  | dropEditing r | drop r => exact (good rfl).elim

theorem execStops {stage : Exec} (family : Family s) (here : s.threads t = .exec stage) :
    Fails (handlerExec s t stage) (Hindered s t) := by
  obtain ⟨tended, threads, _⟩ := family
  have sane : (ParentPc.exec stage).Sane s.kernel := here ▸ threads.sane t
  have side : (s.threads t).side = stage.side := by rw [here]; rfl
  have good {r : Nat} {a : Side} := @tendedGood s t r _ a tended side
  cases stage with
  | lock r tid =>
    exact failsThen fun f fails =>
      (lockStops threads (by rw [here]; rfl) f fails).imp id .inl
  | search r tid rest =>
    cases rest with
    | nil => cases sane.2
    | cons child rest =>
      have inside := threads.rest t child (by rw [here]; exact List.mem_cons_self)
      simp [handlerExec, tended.live inside]
  | down r tid child =>
    obtain rfl := sane.2
    obtain ⟨freed, editingFreed, editing⟩ := (good rfl).1.live
    refine failsBind.mpr ⟨failsAllow.mpr (by simp [freed]), endsAllow.mpr fun _ => ?_⟩
    refine failsThen (Record.failsDownEditing.mpr ⟨?_, ?_, ?_⟩)
    · simp [editing]
    · simp [editingFreed]
    · intro zero _
      refine ⟨rfl, .inr ⟨child, _, side, ?_⟩⟩
      cases holds : (s.child child).pc.holds with
      | true => rfl
      | false => simp [editing, holds] at zero
  | test r tid child | free r child =>
    obtain rfl := sane.2
    simp [handlerExec, (good rfl).1.live.1]
  | remove r child =>
    obtain rfl := sane.2
    refine failsThen (checkStops fun q mem => ?_)
    rcases List.mem_cons.mp mem with rfl | near
    · exact (good rfl).1.live.1
    · exact tended.live (DoublyLinked.besideMem near)
  | up r tid child =>
    obtain rfl := sane.2
    obtain ⟨freed, editingFreed, editing⟩ := (good rfl).1.live
    simp [handlerExec, freed, editingFreed, editing]
  | unlock made result => exact failsThen (unlockStops threads (by rw [here]; rfl))
  | done made result => exact failsOk.mpr trivial

theorem reapingStops {result : Option Int} {next : FreeChild} {pcb : Object}
    (good : Good kernel rec kid (.reaping result next)) :
    Fails (freeChildSelf rec pcb next) fun _ => False := by
  cases next with
  | test => simp [freeChildSelf, good.1.live.1]
  | freeEditing => simp [freeChildSelf, good.1.live.1, good.1.live.2.1]
  | free => simp [freeChildSelf, good.2.2.1]
  | setExited | clearParent | up => exact good.elim

theorem waitBlocks {pid : Int} {stage : Wait} (family : Family s)
    (here : s.threads t = .wait pid stage) : Fails (processWait s t pid stage) fun f =>
      f = .blocked ∧ ((∃ u, u ≠ t ∧ s.childrenLock = some u) ∨
        ∃ r, stage = .down r ∧ (s.record r).waiting = 0) := by
  obtain ⟨tended, threads, _⟩ := family
  have side : (s.threads t).side = stage.side := by rw [here]; rfl
  have good {r : Nat} {a : Side} := @tendedGood s t r _ a tended side
  cases stage with
  | lock =>
    exact failsThen fun f fails =>
      (lockStops threads (by rw [here]; rfl) f fails).imp id .inl
  | search rest =>
    cases rest with
    | nil => exact failsOk.mpr trivial
    | cons child rest =>
      have inside := threads.rest t child (by rw [here]; exact List.mem_cons_self)
      simp [processWait, tended.live inside]
  | down child =>
    refine failsThen (Record.failsDownWaiting.mpr ⟨?_, ?_⟩)
    · simp [(good rfl).1.live.1]
    · exact fun _ zero => ⟨rfl, .inr ⟨child, rfl, zero⟩⟩
  | read child => simp [processWait, (good rfl).1.live.1]
  | remove child result =>
    refine failsThen (checkStops fun q mem => ?_)
    rcases List.mem_cons.mp mem with rfl | near
    · exact (good rfl).1.live.1
    · exact tended.live (DoublyLinked.besideMem near)
  | free child result next =>
    refine failsBind.mpr ⟨fun f fails => (reapingStops (good rfl) f fails).elim, ?_⟩
    rintro ⟨value, next⟩ _
    cases next <;> exact failsOk.mpr trivial
  | unlock result => exact failsThen (unlockStops threads (by rw [here]; rfl))
  | done result => exact failsOk.mpr trivial

end Stops

section Runs
variable {s : State} {count nextTid : Nat}

theorem answersRun {kernel : Bool}
    (run : Run step (fun s a => Supplied s a ∧ Apart s a) (boot kernel count nextTid) s) :
    Family s ∧ Answers s := by
  refine run.invariant (fun s => Family s ∧ Answers s) ⟨familyBoot kernel count nextTid, ?_⟩ ?_
  · intro t made result same
    cases same
  · intro u v a both allowed moved
    exact ⟨familyStep both.1 allowed.1 allowed.2 moved, answersStep both.1 allowed.1 both.2 moved⟩

/-- handler_exec returns the child's pid when the child has started and -1 when it has not, in
which case the record is not in the list; it waits for nothing but children_lock and the child. -/
theorem execResult
    (run : Run step (fun s a => Supplied s a ∧ Apart s a) (boot false count nextTid) s) :
    (∀ t made result, s.threads t = .exec (.done made result) →
      (result ≠ -1 ↔ ∃ r, made = some r ∧ (s.child r).started = true) ∧
      (∀ r, made = some r → result ≠ -1 → result = (s.child r).tid) ∧
      (result = -1 → ∀ r, made = some r → r ∉ s.children)) ∧
    (∀ t granted f,
      (∃ caller stage, s.threads t = .execute caller stage) ∨ (∃ stage, s.threads t = .exec stage) →
      step s (.run t granted) = .error f → Hindered s t f) := by
  obtain ⟨family, answers⟩ := answersRun run
  refine ⟨fun t made result here => ?_, fun t granted f inside fails => ?_⟩
  · have told := answers t made result (by rw [here]; rfl)
    cases made with
    | none =>
      obtain rfl : result = -1 := told
      simp
    | some r =>
      obtain ⟨_, failed, passed⟩ := told
      refine ⟨⟨fun is => ⟨r, rfl, (passed is).1⟩, ?_⟩, ?_, ?_⟩
      · rintro ⟨q, same, started⟩ is
        obtain rfl := Option.some.inj same
        rw [(failed is).2.1] at started
        cases started
      · rintro q same is
        obtain rfl := Option.some.inj same
        exact (passed is).2
      · rintro is q same
        obtain rfl := Option.some.inj same
        exact (failed is).2.2
  · have within : t < s.count := by
      by_contra outside
      have user := family.threads.inside t (Nat.le_of_not_lt outside)
      rcases inside with ⟨_, _, here⟩ | ⟨_, here⟩ <;> rw [user] at here <;> cases here
    simp only [step, within, if_true] at fails
    unfold runParent at fails
    rcases inside with ⟨caller, stage, here⟩ | ⟨stage, here⟩
    · rw [here] at fails
      exact executeStops family here f fails
    · rw [here] at fails
      exact execStops family here f fails

def executes (t : Nat) : List Action :=
  .exec t :: List.replicate 10 (.run t true)

theorem execResultExample : ∃ s, Run step (fun s a => Supplied s a ∧ Apart s a) (boot false 1 1) s ∧
    s.threads 0 = .exec (.done (some 0) (-1)) ∧ (s.child 0).started = false ∧ 0 ∉ s.children := by
  obtain ⟨s, run, found⟩ := execFinds step (fun s a => Supplied s a ∧ Apart s a) (boot false 1 1)
    (executes 0 ++ [.child 0 true, .child 0 true] ++ List.replicate 10 (.child 0 false) ++
      List.replicate 7 (.run 0 true))
    (fun s => decide (s.threads 0 = .exec (.done (some 0) (-1)))) (by decide +kernel)
  have here := of_decide_eq_true found
  obtain ⟨same, _, gone⟩ := (execResult run).1 0 (some 0) (-1) here
  refine ⟨s, run, here, ?_, gone rfl 0 rfl⟩
  cases started : (s.child 0).started with
  | false => rfl
  | true => exact absurd rfl (same.mpr ⟨0, rfl, started⟩)

theorem childRecords {kernel : Bool}
    (run : Run step (fun s a => Supplied s a ∧ Apart s a) (boot kernel count nextTid) s) :
    s.children.Nodup ∧ (∀ r ∈ s.children, (s.record r).freed = false) ∧
    (∀ t u, (s.threads t).locked → (s.threads u).locked → t = u) ∧
    ∀ t u r a b, (s.threads t).side = some (r, a) → (s.threads u).side = some (r, b) → t = u := by
  obtain ⟨tended, threads, _⟩ := (answersRun run).1
  refine ⟨tended.nodup, fun _ => tended.live, fun t u first second => ?_, tended.sole⟩
  exact Option.some.inj ((threads.locked t first).symm.trans (threads.locked u second))

theorem childRecordsExample : ∃ s,
    Run step (fun s a => Supplied s a ∧ Apart s a) (boot false 2 1) s ∧ s.children = [1, 0] ∧
      (s.threads 0).side.map Prod.fst = some 0 ∧ (s.threads 1).side.map Prod.fst = some 1 ∧
      ∀ r ∈ s.children, (s.record r).freed = false := by
  obtain ⟨s, run, found⟩ := execFinds step (fun s a => Supplied s a ∧ Apart s a) (boot false 2 1)
    (executes 0 ++ executes 1) (fun s => decide (s.children = [1, 0] ∧
      (s.threads 0).side.map Prod.fst = some 0 ∧ (s.threads 1).side.map Prod.fst = some 1))
    (by decide +kernel)
  obtain ⟨children, first, second⟩ := of_decide_eq_true found
  exact ⟨s, run, children, first, second, (childRecords run).2.1⟩

theorem execMistaken :
    (∃ s, Run step (fun _ _ => True) (boot false 1 1) s ∧
      s.threads 0 = .exec (.done (some 0) 1) ∧ (s.child 0).pc = .ended ∧
      (s.child 0).started = false) ∧
    (∃ s, Run step (fun _ _ => True) (boot false 1 1) s ∧
      s.threads 0 = .exec (.done (some 0) (-1)) ∧ 0 ∈ s.children) ∧
    (∃ s, Run step Supplied (boot false 2 1) s ∧
      s.threads 0 = .exec (.done (some 0) 1) ∧ (s.child 0).started = false ∧
      (s.child 0).doomed = true) := by
  refine ⟨?_, ?_, ?_⟩
  · obtain ⟨s, run, found⟩ := execFinds step (fun _ _ => True) (boot false 1 1)
      (executes 0 ++ List.replicate 3 (.child 0 false) ++
        List.replicate 6 (.run 0 true))
      (fun s => decide (s.threads 0 = .exec (.done (some 0) 1) ∧ (s.child 0).pc = .ended ∧
        (s.child 0).started = false)) (by decide +kernel)
    exact ⟨s, run, of_decide_eq_true found⟩
  · obtain ⟨s, run, found⟩ := execFinds step (fun _ _ => True) (boot false 1 1)
      (.exec 0 :: List.replicate 8 (.run 0 true) ++ [.run 0 false, .run 0 true])
      (fun s => decide (s.threads 0 = .exec (.done (some 0) (-1)) ∧ 0 ∈ s.children))
      (by decide +kernel)
    exact ⟨s, run, of_decide_eq_true found⟩
  · obtain ⟨s, run, found⟩ := execFinds step Supplied (boot false 2 1)
      (executes 0 ++ [.wait 1 1, .run 1 true, .run 1 true, .child 0 true, .child 0 true] ++
        List.replicate 8 (.child 0 false) ++ List.replicate 7 (.run 1 true) ++
        List.replicate 3 (.run 0 true))
      (fun s => decide (s.threads 0 = .exec (.done (some 0) 1) ∧ (s.child 0).started = false ∧
        (s.child 0).doomed = true)) (by decide +kernel)
    exact ⟨s, run, of_decide_eq_true found⟩

end Runs
end Pintos.Children
