import Pintos.Children.Family

/-! process_execute and handler_exec keep the records of a family in order. -/
namespace Pintos.Children
open Machine

section Execute
variable {s : State} {t : Nat} {caller : Caller} {stage : Execute} {granted : Bool}
  {rec : Record} {kid : Child}

theorem refusedSide (made : Option Nat) : (refused made caller).side = none := by
  cases caller <;> rfl

theorem launchedBound (tid : Nat) : Bound { editing := some 0 }
    { pc := .start .allocate, tid := tid } false false := by
  refine ⟨?_, ⟨-1, rfl, .inl rfl⟩, fun _ => rfl, by simp, rfl⟩
  constructor <;> simp [ChildPc.owns]

theorem boundNamed {held taken : Bool}
    (bound : Bound rec kid held taken) : Bound { rec with pid := kid.tid } kid held taken := by
  obtain ⟨sound, ⟨pid, rfl, _⟩, apart, finished, keeps⟩ := bound
  exact ⟨sound, ⟨kid.tid, rfl, .inr rfl⟩, apart, finished, keeps⟩

theorem returnedNamed {kernel : Bool} {r : Nat} {tid : Int}
    (sane : caller = .runTask ↔ kernel = true)
    (good : Good kernel rec kid (.launched tid false)) :
    (∀ q b, (returned r tid caller).side = some (q, b) → q = r ∧
      Good kernel { rec with pid := tid } kid b ∧ b.linked = true) ∧
    ((returned r tid caller).side = none → Good kernel { rec with pid := tid } kid .listed) := by
  obtain ⟨bound, hopeful, rfl, _⟩ := good
  have named := boundNamed bound
  cases caller with
  | handler =>
    have apart : (kid.tid : Int) ≠ -1 := by omega
    simp only [returned, apart, if_false]
    refine ⟨fun q b mine => ?_, fun none => by cases none⟩
    obtain ⟨rfl, rfl⟩ := Prod.mk.inj (Option.some.inj mine)
    exact ⟨rfl, ⟨named, hopeful, rfl, fun _ => rfl⟩, rfl⟩
  | runTask =>
    refine ⟨fun q b mine => ?_, fun _ => ⟨named, rfl, .inr ⟨sane.mp rfl, hopeful⟩⟩⟩
    cases mine

theorem executeTended (tended : Tended s) (sane : caller = .runTask ↔ s.kernel = true)
    (here : s.threads t = .execute caller stage) (supplied : Supplied s (.run t granted)) :
    Ends (processExecute s t caller granted stage) Tended := by
  have side : (s.threads t).side = stage.side := by rw [here]; rfl
  have good {r : Nat} {a : Side} := @tendedGood s t r _ a tended side
  rw [Supplied, here] at supplied
  cases stage with
  | page =>
    refine endsOk.mpr (tendedBecome tended ?_)
    cases granted
    · exact (refusedSide none).trans side.symm
    · exact side.symm
  | record =>
    cases granted
    · exact endsOk.mpr (tendedBecome tended ((refusedSide none).trans side.symm))
    · refine endsOk.mpr (tendedTurn (r := s.records) tended rfl rfl ?_ (fun _ _ => rfl)
        (fun _ _ => Iff.rfl) tended.nodup (Nat.le_succ _) (Nat.lt_succ_self _) ?_ ?_ ?_ ?_)
      · intro q apart
        exact Function.update_of_ne apart _ _
      · intro q a mine
        rw [side] at mine
        cases mine
      · intro u _ a theirs
        exact Nat.lt_irrefl _ (tended.handled u _ a theirs)
      · intro q a mine
        obtain ⟨rfl, rfl⟩ := Prod.mk.inj (Option.some.inj mine)
        refine ⟨rfl, ⟨Function.update_self _ _ _, tended.unmade _ (Nat.le_refl _)⟩, ?_⟩
        exact ⟨fun inside => absurd (tended.listed _ inside) (Nat.lt_irrefl _), fun no => by cases no⟩
      · intro none
        cases none
  | lock r =>
    simp only [processExecute, endsBind, endsAllow, State.acquire, endsOk]
    intro free
    exact tendedBecome (tendedLock tended _) side.symm
  | push r =>
    simp only [processExecute, endsBind, endsAllow, State.check, endsOk]
    intro live
    have apart : r ∉ s.children := fun inside => by
      have linked := (tended.linked t r .fresh side).mp inside
      cases linked
    refine tendedTurn (r := r) tended rfl rfl (fun _ _ => rfl) (fun _ _ => rfl) ?_
      (List.nodup_cons.mpr ⟨apart, tended.nodup⟩) (Nat.le_refl _) (tended.handled t r _ side) ?_
      (tended.others side) ?_ ?_
    · intro q other
      simp [State.become, other]
    · intro q a mine
      exact (Prod.mk.inj (Option.some.inj (mine.symm.trans side))).1
    · intro q a mine
      obtain ⟨rfl, rfl⟩ := Prod.mk.inj (Option.some.inj mine)
      have fresh : Good s.kernel (s.record r) (s.child r) .fresh := good rfl
      exact ⟨rfl, fresh, by simp [State.become, Side.linked]⟩
    · intro none
      cases none
  | unlock r =>
    simp only [processExecute, endsBind, endsAllow, State.release, endsOk]
    intro mine
    exact tendedBecome (tendedLock tended _) side.symm
  | editing r =>
    obtain rfl := supplied rfl
    simp only [processExecute, if_true, endsBind, endsAllow, Record.use, endsOk]
    intro live
    refine tendedStage tended side rfl ?_ rfl
    obtain ⟨fresh, absent⟩ := good rfl
    rw [fresh]
    exact ⟨rfl, absent⟩
  | initPcb r =>
    obtain rfl := supplied rfl
    exact endsOk.mpr (tendedBecome tended side.symm)
  | down r =>
    simp only [processExecute, endsBind, Record.endsDownEditing, endsOk]
    intro value before live
    refine tendedStage tended side rfl ?_ rfl
    obtain ⟨armed, absent⟩ := good rfl
    rw [armed] at before ⊢
    cases before
    exact ⟨rfl, absent⟩
  | create r =>
    obtain rfl := supplied rfl
    have linked : r ∈ s.children := (tended.linked t r .downed side).mpr rfl
    refine endsOk.mpr (tendedTurn (r := r) tended rfl rfl (fun _ _ => rfl) ?_
      (fun _ _ => Iff.rfl) tended.nodup (Nat.le_refl _) (tended.handled t r _ side) ?_
      (tended.others side) ?_ ?_)
    · intro q apart
      exact Function.update_of_ne apart _ _
    · intro q a mine
      exact (Prod.mk.inj (Option.some.inj (mine.symm.trans side))).1
    · intro q a mine
      obtain ⟨rfl, rfl⟩ := Prod.mk.inj (Option.some.inj mine)
      obtain ⟨downed, absent⟩ := good rfl
      refine ⟨rfl, ?_, iff_of_true linked rfl⟩
      simp only [State.become, Function.update_self, downed]
      exact ⟨launchedBound _, ⟨fun _ => rfl, fun _ => rfl⟩, rfl, fun no => by cases no⟩
    · intro none
      cases none
  | setPid r tid =>
    simp only [processExecute, endsBind, endsAllow, Record.use, endsOk]
    intro live
    have next := returnedNamed (r := r) sane (good rfl)
    exact tendedPut tended side next.1 fun none _ => next.2 none
  | dropEditing r | drop r => exact (good rfl).elim

section Turn
attribute [local simp] State.become State.put framesIff placesIff locksIff ParentPc.locked
  ParentPc.rest ParentPc.Sane

theorem executeFrames : Ends (processExecute s t caller granted stage) (Frames s t) := by
  cases stage <;> cases granted <;> simp +contextual [processExecute]

theorem executeMakes : Ends (processExecute s t caller granted stage) fun s' =>
    (s'.child = s.child ∧ s'.nextTid = s.nextTid ∨
      ∃ r, stage = .create r ∧ s'.nextTid = s.nextTid + 1 ∧
        s'.child = Function.update s.child r { pc := .start .allocate, tid := s.nextTid }) ∧
    (s'.children = s.children ∨ ∃ r, stage = .push r ∧ s'.children = r :: s.children) := by
  cases stage <;> cases granted <;> simp +contextual [processExecute]

theorem executePlaces (sane : caller = .runTask ↔ s.kernel = true)
    (here : s.threads t = .execute caller stage) :
    Ends (processExecute s t caller granted stage) (Places s t) := by
  cases caller with
  | handler =>
    have user : s.kernel = false := by simpa using sane
    cases stage with
    | setPid r tid =>
      by_cases failed : tid = -1 <;>
        simp +contextual [processExecute, returned, failed, here, user]
    | _ => cases granted <;> simp +contextual [processExecute, refused, here, user]
  | runTask =>
    have kernel : s.kernel = true := by simpa using sane
    cases stage <;> cases granted <;>
      simp +contextual [processExecute, refused, returned, here, kernel]

end Turn

theorem executeThreads (threads : Threads s) (inside : t < s.count)
    (here : s.threads t = .execute caller stage) :
    Ends (processExecute s t caller granted stage) Threads := by
  have sane : caller = .runTask ↔ s.kernel = true := by
    have sane := threads.sane t
    rwa [here] at sane
  have busy : s.threads t ≠ .user := by rw [here]; simp
  exact fun s' ok =>
    threadsTurn threads inside busy (executeFrames s' ok) (executePlaces sane here s' ok)

end Execute

section Exec
variable {s : State} {t : Nat} {rec : Record} {kid : Child} {held taken kernel : Bool}
  {value : Nat} {tid : Int} {stage : Exec}

theorem boundDown (bound : Bound rec kid false taken) (before : rec.editing = some (value + 1)) :
    Bound { rec with editing := some value } kid true taken := by
  obtain ⟨sound, ⟨pid, rfl, named⟩, apart, finished, keeps⟩ := bound
  cases holds : kid.pc.holds with
  | true => simp [Child.writes, holds] at before
  | false =>
    obtain rfl : value = 0 := by simpa [Child.writes, holds] using before.symm
    refine ⟨sound, ⟨pid, ?_, named⟩, by simp [holds], finished, keeps⟩
    simp [Child.writes]

theorem boundUp (bound : Bound rec kid true taken) (before : rec.editing = some value) :
    Bound { rec with editing := some (value + 1) } kid false taken := by
  obtain ⟨sound, ⟨pid, rfl, named⟩, apart, finished, keeps⟩ := bound
  have free : kid.pc.holds = false := by
    cases holds : kid.pc.holds with
    | true => exact absurd (apart holds) (by simp)
    | false => rfl
  obtain rfl : value = 0 := by simpa [Child.writes] using before.symm
  refine ⟨sound, ⟨pid, ?_, named⟩, by simp [free], finished, keeps⟩
  simp [Child.writes, free]

theorem lookingTells (good : Good kernel rec kid (.looking tid)) :
    if rec.exited = false ∧ rec.exitedCode = -1 then kid.pc = .ended ∧ kid.started = false
    else kid.started = true := by
  obtain ⟨⟨sound, ⟨pid, rfl, _⟩, apart, _, _⟩, hopeful, _, _⟩ := good
  obtain ⟨present, before, after, unmade, owns, failed⟩ := sound
  obtain ⟨memory, loads⟩ := hopeful
  obtain ⟨pc, tid, pcb, exitCode, started⟩ := kid
  rcases pc with _ | stage | _ | stage | _
  · exact absurd rfl present
  · simp [ChildPc.holds] at apart
  · simpa [Child.writes, Child.exitedCode] using after
  · cases stage with
    | down => simpa [Child.writes, Child.exitedCode] using after
    | report stage | up => simp [ChildPc.holds] at apart
    | freePcb => simpa [Child.writes, Child.exited, Child.finished] using after
  · cases started <;> simp_all [Child.writes, Child.exited, Child.finished, Child.exitedCode]

theorem execTended (tended : Tended s) (sane : (ParentPc.exec stage).Sane s.kernel)
    (here : s.threads t = .exec stage) : Ends (handlerExec s t stage) Tended := by
  have side : (s.threads t).side = stage.side := by rw [here]; rfl
  have good {r : Nat} {a : Side} := @tendedGood s t r _ a tended side
  cases stage with
  | lock r tid =>
    simp only [handlerExec, endsBind, endsAllow, State.acquire, endsOk]
    exact fun _ => tendedBecome (tendedLock tended _) side.symm
  | search r tid rest =>
    cases rest with
    | nil => cases sane.2
    | cons child rest =>
      simp only [handlerExec, endsBind, endsAllow, Record.use, endsOk]
      intro _
      apply tendedBecome tended
      split <;> exact side.symm
  | down r tid child =>
    obtain rfl := sane.2
    simp only [handlerExec, endsBind, endsAllow, Record.use, Record.endsDownEditing, endsOk]
    intro _ value before _
    obtain ⟨bound, hopeful, same, named⟩ := good rfl
    exact tendedStage tended side rfl ⟨boundDown bound before, hopeful, same, named rfl⟩ rfl
  | test r tid child =>
    obtain rfl := sane.2
    simp only [handlerExec, endsBind, endsAllow, Record.use, endsOk]
    intro _
    have looking := good rfl
    have tells := lookingTells looking
    split <;> rename_i failed
    · rw [if_pos (by simpa using failed)] at tells
      exact tendedLook tended side rfl ⟨looking.1, tells⟩ rfl
    · rw [if_neg (by simpa using failed)] at tells
      exact tendedLook tended side rfl ⟨looking.1, tells, looking.2.2⟩ rfl
  | remove r child =>
    obtain rfl := sane.2
    simp only [handlerExec, endsBind, endsAllow, State.check, endsOk]
    intro _
    have failing : Good s.kernel _ _ .failing := good rfl
    exact tendedErase tended side rfl failing rfl
  | free r child =>
    obtain rfl := sane.2
    simp only [handlerExec, endsBind, Record.endsFree, endsOk]
    intro _
    exact tendedPut tended side (fun q b mine => by cases mine) (fun _ linked => by cases linked)
  | up r tid child =>
    obtain rfl := sane.2
    simp only [handlerExec, endsBind, endsAllow, Record.use, Record.endsUpEditing, endsOk]
    intro _ value before _
    obtain ⟨bound, started, _, named⟩ := good rfl
    exact tendedPut tended side (fun q b mine => by cases mine) fun _ _ =>
      ⟨boundUp bound before, named, .inl started⟩
  | unlock made result =>
    simp only [handlerExec, endsBind, endsAllow, State.release, endsOk]
    exact fun _ => tendedBecome (tendedLock tended _) side.symm
  | done made result => exact endsOk.mpr (tendedBecome tended side.symm)

theorem goodPid {a : Side} (good : Good kernel rec kid a) (linked : a.linked = true) :
    rec.pid = -1 ∨ kid.pc ≠ .absent ∧ rec.pid = kid.tid := by
  have bound {held taken : Bool} (bound : Bound rec kid held taken) :
      rec.pid = -1 ∨ kid.pc ≠ .absent ∧ rec.pid = kid.tid := by
    obtain ⟨pid, rfl, named⟩ := bound.written
    exact named.imp id fun named => ⟨bound.sound.present, named⟩
  cases a with
  | fresh | cut | reaping _ _ | popped | closing _ | closed => cases linked
  | bare | armed | downed => exact .inl (by rw [good.1])
  | dropped => exact good.elim
  | launched | looking | passing | failing | listed | taken => exact bound good.1

theorem Tended.stands {r : Nat} (tended : Tended s) (inside : r ∈ s.children) :
    ∃ a, Stands s r a ∧ a.linked = true := by
  by_cases somebody : ∃ t a, (s.threads t).side = some (r, a)
  · obtain ⟨t, a, here⟩ := somebody
    exact ⟨a, .inl ⟨t, here⟩, (tended.linked t r a here).mp inside⟩
  · exact ⟨.listed, .inr ⟨rfl, inside, fun t a here => somebody ⟨t, a, here⟩⟩, rfl⟩

theorem pidOwn {q r : Nat} (tended : Tended s) (tids : Tids s) (inside : q ∈ s.children)
    (present : (s.child r).pc ≠ .absent) (same : (s.record q).pid = (s.child r).tid) : q = r := by
  obtain ⟨a, stands, linked⟩ := tended.stands inside
  rcases goodPid (tended.good q a stands) linked with none | ⟨there, pid⟩
  · omega
  · exact tids.distinct q r there present (by omega)

section Turn
attribute [local simp] State.become State.put framesIff lastsIff placesIff locksIff ParentPc.locked
  ParentPc.rest ParentPc.Sane List.mem_of_mem_erase

theorem execFrames : Ends (handlerExec s t stage) (Frames s t) := by
  cases stage with
  | search r tid rest => cases rest <;> simp +contextual [handlerExec]
  | _ => simp +contextual [handlerExec]

theorem execLasts : Ends (handlerExec s t stage) (Lasts s) := by
  cases stage with
  | search r tid rest => cases rest <;> simp +contextual [handlerExec]
  | remove r child =>
    simp only [handlerExec, endsBind, endsAllow, State.check, endsOk]
    exact fun _ => ⟨rfl, rfl, fun _ => List.mem_of_mem_erase⟩
  | _ => simp +contextual [handlerExec]

theorem execPlaces (tended : Tended s) (threads : Threads s) (tids : Tids s)
    (here : s.threads t = .exec stage) : Ends (handlerExec s t stage) (Places s t) := by
  have side : (s.threads t).side = stage.side := by rw [here]; rfl
  have sane : (ParentPc.exec stage).Sane s.kernel := here ▸ threads.sane t
  have user := sane.1
  cases stage with
  | lock r tid =>
    have linked : r ∈ s.children := (tended.linked t r _ side).mpr rfl
    simp +contextual [handlerExec, here, user, linked]
  | search r tid rest =>
    cases rest with
    | nil => cases sane.2
    | cons child rest =>
      have todo : ∀ q ∈ child :: rest, q ∈ s.children := fun q inRest =>
        threads.rest t q (by rw [here]; exact inRest)
      obtain ⟨bound, _, tidOf, named⟩ := tended.good r _ (.inl ⟨t, side⟩)
      by_cases found : (s.record child).pid = tid
      · obtain rfl : child = r :=
          pidOwn tended tids (todo child List.mem_cons_self) bound.sound.present (found.trans tidOf)
        simp [handlerExec, here, user, found]
      · have later : r ∈ rest := by
          rcases List.mem_cons.mp sane.2 with first | later
          · subst first
            exact absurd ((named rfl).trans tidOf.symm) found
          · exact later
        have todo' := fun q inRest => todo q (List.mem_cons_of_mem _ inRest)
        simpa [handlerExec, here, user, found, later] using fun _ => todo'
  | test r tid child =>
    have own := sane.2
    simp only [handlerExec, endsBind, endsAllow, Record.use, endsOk]
    intro _
    split <;> simp [here, user, own]
  | down r tid child | remove r child =>
    have own := sane.2
    simp +contextual [handlerExec, here, user, own]
  | _ => simp +contextual [handlerExec, here, user]

end Turn

theorem execThreads (tended : Tended s) (threads : Threads s) (tids : Tids s)
    (inside : t < s.count) (here : s.threads t = .exec stage) :
    Ends (handlerExec s t stage) Threads := by
  have busy : s.threads t ≠ .user := by rw [here]; simp
  exact fun s' ok => threadsTurn threads inside busy (execFrames s' ok)
    (execPlaces tended threads tids here s' ok)

end Exec

end Pintos.Children
