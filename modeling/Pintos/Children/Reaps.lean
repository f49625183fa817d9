import Pintos.Children.Launches

/-! process_wait and process_exit_tail keep the records of a family in order, and so does every
step. -/
namespace Pintos.Children
open Machine

section Wait
variable {s : State} {t : Nat} {rec : Record} {kid : Child} {kernel : Bool} {pid : Int}
  {stage : Wait}
  {granted : Bool}

theorem matchedAlone {child : Nat} {rest : List Nat} (threads : Threads s)
    (here : s.threads t = .wait pid (.search (child :: rest))) (apart : Apart s (.run t granted))
    (found : (s.record child).pid = pid) (u : Nat) (b : Side) :
    (s.threads u).side ≠ some (child, b) := by
  intro theirs
  have mine : s.childrenLock = some t := threads.locked t (by rw [here]; rfl)
  have inside : u < s.count := by
    by_contra outside
    rw [threads.inside u (Nat.le_of_not_lt outside)] at theirs
    cases theirs
  have idle := apart (pid, child) (by rw [here]; rfl) found u inside
  cases there : s.threads u with
  | user | ended => rw [there] at theirs; cases theirs
  | execute caller stage | exec stage =>
    rw [there] at theirs idle
    exact idle (by simp only [ParentPc.launches]; rw [show stage.side = _ from theirs]; rfl)
  | wait pid' stage =>
    have locked : (s.threads u).locked = true := by
      rw [there] at theirs ⊢
      cases stage <;> first | rfl | cases theirs
    have same : u = t := Option.some.inj ((threads.locked u locked).symm.trans mine)
    rw [same, here] at theirs
    cases theirs
  | exit stage =>
    have self : t ≠ u := by
      rintro rfl
      rw [here] at there
      cases there
    have idle := (threads.exits u stage there).2 t self
    rw [here] at idle
    cases idle

theorem overTells (finished : kid.finished = true) :
    kid.exited = true ∧ kid.exitedCode = kid.exitCode ∧ kid.waiting = 1 := by
  obtain ⟨pc, tid, pcb, exitCode, started⟩ := kid
  rcases pc with _ | stage | _ | stage | _
  · cases finished
  · cases finished
  · cases finished
  · cases stage <;> first | exact ⟨rfl, rfl, rfl⟩ | cases finished
  · simp_all [Child.finished, Child.exited, Child.exitedCode, Child.waiting]

theorem sureOver (sure : kid.Sure kernel) (sound : kid.Sound) (up : kid.waiting ≠ 0) :
    kid.finished = true := by
  obtain ⟨pc, tid, pcb, exitCode, started⟩ := kid
  rcases pc with _ | stage | _ | stage | _
  · simp [Child.waiting, Child.finished] at up
  · have before := sound.before stage rfl
    rcases sure with entered | ⟨isKernel, hopeful⟩
    · rw [entered] at before
      cases before
    · have loads := hopeful.loads isKernel
      cases stage <;> simp_all [Child.waiting, Child.finished, Child.doomed]
  · simp [Child.waiting, Child.finished] at up
  · cases stage <;> simp_all [Child.waiting, Child.finished]
  · rcases sure with entered | ⟨isKernel, hopeful⟩
    · exact entered
    · simpa [Child.doomed, Child.finished] using hopeful.loads isKernel

theorem boundTake (bound : Bound rec kid false false) (sure : kid.Sure kernel)
    (up : rec.waiting ≠ 0) : Bound { rec with waiting := rec.waiting - 1 } kid false true := by
  obtain ⟨sound, ⟨pid, rfl, named⟩, apart, _, keeps⟩ := bound
  have finished : kid.finished = true := sureOver sure sound up
  refine ⟨sound, ⟨pid, ?_, named⟩, apart, fun _ => finished, keeps⟩
  simp [Child.writes, (overTells finished).2.2]

theorem reapingFree {result : Option Int} {next : FreeChild} (pcb : Object)
    (good : Good kernel rec kid (.reaping result next)) :
    Ends (freeChildSelf rec pcb next) fun out =>
      ∀ next ∈ out.2, Good kernel out.1 kid (.reaping result next) := by
  cases next with
  | test =>
    obtain ⟨⟨sound, ⟨pid, rfl, named⟩, apart, finished, keeps⟩, code⟩ := good
    have tells := overTells (finished rfl)
    simp only [freeChildSelf, Record.use, endsAllow]
    intro _ next mem
    rw [show (kid.writes pid false true).exited = true from tells.1] at mem
    obtain rfl := Option.some.inj mem
    exact ⟨⟨sound, ⟨pid, rfl, named⟩, apart, finished, keeps⟩, code⟩
  | freeEditing =>
    simp only [freeChildSelf, endsBind, Record.endsFreeEditing, endsOk]
    intro live _ next mem
    obtain rfl := Option.some.inj mem
    exact ⟨good.1.sound, good.1.finished rfl, live, good.2⟩
  | free =>
    simp only [freeChildSelf, endsBind, Record.endsFree, endsOk]
    intro _ next mem
    cases mem
  | setExited | clearParent | up => exact good.elim

theorem waitTended (tended : Tended s) (threads : Threads s)
    (here : s.threads t = .wait pid stage) (apart : Apart s (.run t granted)) :
    Ends (processWait s t pid stage) Tended := by
  have side : (s.threads t).side = stage.side := by rw [here]; rfl
  have good {r : Nat} {a : Side} := @tendedGood s t r _ a tended side
  cases stage with
  | lock =>
    simp only [processWait, endsBind, endsAllow, State.acquire, endsOk]
    exact fun _ => tendedBecome (tendedLock tended _) side.symm
  | search rest =>
    cases rest with
    | nil => exact endsOk.mpr (tendedBecome tended side.symm)
    | cons child rest =>
      simp only [processWait, endsBind, endsAllow, Record.use, endsOk]
      intro _
      by_cases found : (s.record child).pid = pid
      · have inside : child ∈ s.children :=
          threads.rest t child (by rw [here]; exact List.mem_cons_self)
        rw [if_pos found]
        exact tendedClaim tended inside side (matchedAlone threads here apart found) rfl
      · rw [if_neg found]
        exact tendedBecome tended side.symm
  | down child =>
    simp only [processWait, endsBind, Record.endsDownWaiting, endsOk]
    intro _ up
    obtain ⟨bound, named, sure⟩ := good rfl
    exact tendedStage tended side rfl ⟨boundTake bound sure up, named, fun _ no => by cases no⟩ rfl
  | read child =>
    simp only [processWait, endsBind, endsAllow, Record.use, endsOk]
    intro _
    refine tendedLook tended side rfl ?_ rfl
    obtain ⟨bound, named, _⟩ := good rfl
    have code : (s.record child).exitedCode = (s.child child).exitCode := by
      obtain ⟨pid, written, _⟩ := bound.written
      rw [written]
      exact (overTells (bound.finished rfl)).2.1
    refine ⟨bound, named, ?_⟩
    intro value mem
    exact (Option.some.inj mem).symm.trans code
  | remove child result =>
    simp only [processWait, endsBind, endsAllow, State.check, endsOk]
    intro _
    obtain ⟨bound, named, code⟩ := good rfl
    exact tendedErase tended side rfl ⟨bound, code⟩ rfl
  | free child result stage =>
    have reaping := reapingFree (s.child child).pcb (good rfl)
    simp only [processWait, endsBind]
    rintro ⟨value, next⟩ ok
    have after := reaping (value, next) ok
    cases next with
    | none =>
      exact endsOk.mpr (tendedPut tended side (fun q b mine => by cases mine)
        fun _ linked => by cases linked)
    | some next =>
      exact endsOk.mpr (tendedStage tended side rfl (after next rfl) rfl)
  | unlock result =>
    simp only [processWait, endsBind, endsAllow, State.release, endsOk]
    exact fun _ => tendedBecome (tendedLock tended _) side.symm
  | done result => exact endsOk.mpr (tendedBecome tended side.symm)

section Turn
attribute [local simp] State.become State.put framesIff lastsIff placesIff locksIff ParentPc.locked
  ParentPc.rest ParentPc.Sane

theorem waitFrames : Ends (processWait s t pid stage) (Frames s t) := by
  cases stage with
  | search rest => cases rest <;> simp +contextual [processWait]
  | free child result stage =>
    simp only [processWait, endsBind]
    rintro ⟨value, next⟩ _
    cases next <;> simp +contextual
  | _ => simp +contextual [processWait]

theorem waitLasts : Ends (processWait s t pid stage) (Lasts s) := by
  cases stage with
  | search rest => cases rest <;> simp +contextual [processWait]
  | remove child result =>
    simp only [processWait, endsBind, endsAllow, State.check, endsOk]
    exact fun _ => ⟨rfl, rfl, fun _ => List.mem_of_mem_erase⟩
  | free child result stage =>
    simp only [processWait, endsBind]
    rintro ⟨value, next⟩ _
    cases next <;> simp
  | _ => simp +contextual [processWait]

theorem waitPlaces (threads : Threads s) (here : s.threads t = .wait pid stage) :
    Ends (processWait s t pid stage) (Places s t) := by
  cases stage with
  | search rest =>
    cases rest with
    | nil => simp [processWait, here]
    | cons child rest =>
      have todo (q : Nat) (inRest : q ∈ rest) : q ∈ s.children :=
        threads.rest t q (by rw [here]; exact List.mem_cons_of_mem _ inRest)
      simp only [processWait, endsBind, endsAllow, Record.use, endsOk]
      intro _
      split
      · simp [here]
      · simpa [here] using todo
  | free child result stage =>
    simp only [processWait, endsBind]
    rintro ⟨value, next⟩ _
    cases next <;> simp [here]
  | _ => simp +contextual [processWait, here]

end Turn

theorem waitThreads (threads : Threads s) (inside : t < s.count)
    (here : s.threads t = .wait pid stage) : Ends (processWait s t pid stage) Threads := by
  have busy : s.threads t ≠ .user := by rw [here]; simp
  exact fun s' ok => threadsTurn threads inside busy (waitFrames s' ok) (waitPlaces threads here s' ok)

end Wait

section Clean
variable {s : State} {t : Nat} {rec : Record} {kid : Child} {kernel : Bool} {stage : Clean}

theorem exitedOver (exited : kid.exited = true) (free : kid.pc.holds = false) :
    kid.finished = true := by
  obtain ⟨pc, tid, pcb, exitCode, started⟩ := kid
  rcases pc with _ | stage | _ | stage | _
  · exact exited
  · cases free
  · exact exited
  · cases stage <;> first | exact exited | cases free
  · exact exited

theorem Bound.free {taken : Bool} (bound : Bound rec kid true taken) : kid.pc.holds = false := by
  cases holds : kid.pc.holds with
  | true => exact absurd (bound.apart holds) (by simp)
  | false => rfl

theorem closingFree {next : FreeChild} (pcb : Object)
    (good : Good kernel rec kid (.closing next)) :
    Ends (freeChildSelf rec pcb next) fun out =>
      ∀ next ∈ out.2, Good kernel out.1 kid (.closing next) := by
  have exited {taken : Bool} (bound : Bound rec kid true taken) : rec.exited = kid.exited := by
    obtain ⟨pid, written, _⟩ := bound.written
    rw [written]
    rfl
  cases next with
  | test =>
    obtain ⟨bound, sure⟩ := good
    simp only [freeChildSelf, Record.use, endsAllow, exited bound]
    intro _ next mem
    cases told : kid.exited with
    | true =>
      rw [told] at mem
      obtain rfl := Option.some.inj mem
      exact ⟨bound, exitedOver told bound.free⟩
    | false =>
      rw [told] at mem
      obtain rfl := Option.some.inj mem
      exact ⟨bound, told, sure⟩
  | freeEditing =>
    simp only [freeChildSelf, endsBind, Record.endsFreeEditing, endsOk]
    intro live _ next mem
    obtain rfl := Option.some.inj mem
    exact ⟨good.1.sound, good.2, live⟩
  | free =>
    simp only [freeChildSelf, endsBind, Record.endsFree, endsOk]
    intro _ next mem
    cases mem
  | setExited =>
    obtain ⟨bound, told, sure⟩ := good
    simp only [freeChildSelf, Record.use, endsAllow]
    intro _ next mem
    obtain rfl := Option.some.inj mem
    have same : { rec with exited := false } = rec := by rw [← told, ← exited bound]
    exact ⟨same ▸ bound, told, sure⟩
  | clearParent =>
    simp only [freeChildSelf, endsIte, endsError, endsOk]
    refine ⟨fun _ => trivial, fun _ => ⟨fun _ => trivial, fun _ => ⟨fun _ => trivial, ?_⟩⟩⟩
    intro _ next mem
    obtain rfl := Option.some.inj mem
    exact good
  | up =>
    simp only [freeChildSelf, endsBind, Record.endsUpWaiting, endsOk]
    intro _ next mem
    cases mem

theorem cleanTended (tended : Tended s) (threads : Threads s)
    (here : s.threads t = .exit stage) : Ends (processExitTail s t stage) Tended := by
  have side : (s.threads t).side = stage.side := by rw [here]; rfl
  have good {r : Nat} {a : Side} := @tendedGood s t r _ a tended side
  cases stage with
  | pop =>
    have nobody (u r : Nat) (b : Side) : (s.threads u).side ≠ some (r, b) := by
      intro theirs
      by_cases self : u = t
      · rw [self, side] at theirs
        cases theirs
      · rw [(threads.exits t .pop here).2 u self] at theirs
        cases theirs
    simp only [processExitTail]
    split
    · exact endsOk.mpr (tendedBecome tended side.symm)
    · rename_i child rest front
      simp only [endsBind, endsAllow, State.check, endsOk]
      intro _
      have inside : child ∈ s.children := by rw [front]; exact List.mem_cons_self
      have nodup := tended.nodup
      rw [front] at nodup
      refine tendedTurn (r := child) tended rfl rfl (fun _ _ => rfl) (fun _ _ => rfl) ?_
        (List.nodup_cons.mp nodup).2 (Nat.le_refl _) (tended.listed child inside) ?_
        (fun u _ b => nobody u child b) ?_ ?_
      · intro q apart
        simp [State.become, front, apart]
      · intro q b mine
        exact absurd mine (nobody t q b)
      · intro q b mine
        obtain ⟨rfl, rfl⟩ := Prod.mk.inj (Option.some.inj mine)
        have listed := tended.good child .listed (.inr ⟨rfl, inside, fun u b => nobody u child b⟩)
        refine ⟨rfl, listed, ?_⟩
        exact iff_of_false (List.nodup_cons.mp nodup).1 (by simp [Side.linked])
      · intro none
        cases none
  | tryDown child =>
    obtain ⟨bound, named, sure⟩ := good rfl
    simp only [processExitTail, endsBind, endsAllow, Record.use, endsIte, endsOk, Record.endsDownWaiting]
    intro _
    refine ⟨fun _ => tendedBecome tended side.symm, fun _ _ up => ?_⟩
    exact tendedStage tended side rfl ⟨boundTake bound sure up, fun _ no => by cases no⟩ rfl
  | down child =>
    obtain ⟨bound, named, sure⟩ := good rfl
    simp only [processExitTail, endsBind, endsAllow, Record.use, Record.endsDownEditing, endsOk]
    intro _ value before _
    exact tendedStage tended side rfl ⟨boundDown bound before, sure⟩ rfl
  | free child stage held =>
    simp only [processExitTail, endsBind]
    rintro ⟨value, next⟩ ok
    cases held with
    | false =>
      have after := reapingFree (s.child child).pcb (good rfl) (value, next) ok
      cases next with
      | none =>
        exact endsOk.mpr (tendedPut tended side (fun q b mine => by cases mine)
          fun _ linked => by cases linked)
      | some next =>
        exact endsOk.mpr (tendedStage tended side rfl (after next rfl) rfl)
    | true =>
      have after := closingFree (s.child child).pcb (good rfl) (value, next) ok
      cases next with
      | none =>
        exact endsOk.mpr (tendedStage tended side rfl trivial rfl)
      | some next =>
        exact endsOk.mpr (tendedStage tended side rfl (after next rfl) rfl)
  | up child =>
    simp only [processExitTail, endsBind, Record.endsUpEditing, endsOk]
    intro _ _ _
    exact tendedPut tended side (fun q b mine => by cases mine) fun _ linked => by cases linked

section Turn
attribute [local simp] State.become State.put framesIff lastsIff placesIff locksIff ParentPc.locked
  ParentPc.rest ParentPc.Sane

theorem cleanFrames : Ends (processExitTail s t stage) (Frames s t) := by
  cases stage with
  | pop =>
    simp only [processExitTail]
    split <;> simp +contextual
  | free child stage held =>
    simp only [processExitTail, endsBind]
    rintro ⟨value, next⟩ _
    cases next <;> simp +contextual
  | _ => simp +contextual [processExitTail]

theorem cleanLasts : Ends (processExitTail s t stage) (Lasts s) := by
  cases stage with
  | pop =>
    simp only [processExitTail]
    split
    · simp
    · rename_i child rest front
      simpa [front] using fun _ _ _ => .inr
  | free child stage held =>
    simp only [processExitTail, endsBind]
    rintro ⟨value, next⟩ _
    cases next <;> simp
  | _ => simp +contextual [processExitTail]

theorem cleanPlaces (user : s.kernel = false) (here : s.threads t = .exit stage) :
    Ends (processExitTail s t stage) (Places s t) := by
  cases stage with
  | pop =>
    simp only [processExitTail]
    split <;> simp +contextual [here, user]
  | free child stage held =>
    simp only [processExitTail, endsBind]
    rintro ⟨value, next⟩ _
    cases next <;> simp [here, user]
  | _ => simp +contextual [processExitTail, here, user]

end Turn

theorem cleanThreads (threads : Threads s) (inside : t < s.count)
    (here : s.threads t = .exit stage) : Ends (processExitTail s t stage) Threads := by
  have user : s.kernel = false := by
    have sane := threads.sane t
    rwa [here] at sane
  have busy : s.threads t ≠ .user := by rw [here]; simp
  exact fun s' ok => threadsTurn threads inside busy (cleanFrames s' ok) (cleanPlaces user here s' ok)

end Clean

inductive Entry : Action → Nat → Bool → ParentPc → Prop where
  | exec {t} : Entry (.exec t) t false (.execute .handler .page)
  | runTask : Entry .runTask 0 true (.execute .runTask .page)
  | wait {t pid} : Entry (.wait t pid) t false (.wait pid .lock)

/-- A step is a call, a turn of a thread inside one, or a step of a child. -/
inductive Stepped (s : State) : Action → State → Prop where
  | calls {a t kernel pc} (entry : Entry a t kernel pc) (inside : t < s.count)
      (user : s.threads t = .user) (same : s.kernel = kernel) (going : s.exiting = false) :
      Stepped s a (s.become t pc)
  | exits {t} (all : ∀ u < s.count, s.threads u = .user) (inside : t < s.count)
      (same : s.kernel = false) (going : s.exiting = false) :
      Stepped s (.exit t) { s.become t (.exit .pop) with exiting := true }
  | execute {t granted caller stage s'} (inside : t < s.count)
      (here : s.threads t = .execute caller stage)
      (ok : processExecute s t caller granted stage = .ok s') : Stepped s (.run t granted) s'
  | exec {t granted stage s'} (inside : t < s.count) (here : s.threads t = .exec stage)
      (ok : handlerExec s t stage = .ok s') : Stepped s (.run t granted) s'
  | wait {t granted pid stage s'} (inside : t < s.count) (here : s.threads t = .wait pid stage)
      (ok : processWait s t pid stage = .ok s') : Stepped s (.run t granted) s'
  | clean {t granted stage s'} (inside : t < s.count) (here : s.threads t = .exit stage)
      (ok : processExitTail s t stage = .ok s') : Stepped s (.run t granted) s'
  | child {r granted value kid}
      (ran : runChild (s.record r) (s.child r) granted = .ok (value, kid)) :
      Stepped s (.child r granted) { s.put r value with child := Function.update s.child r kid }
  | exitChild {r exitCode} (running : (s.child r).pc = .user) :
      Stepped s (.exitChild r exitCode) { s with
        child := Function.update s.child r { s.child r with pc := .exit .down, exitCode := exitCode } }
  | allocateTid : Stepped s .allocateTid { s with nextTid := s.nextTid + 1 }

section Family
variable {s s' : State} {t : Nat} {a : Action}
  {pc : ParentPc} {kernel : Bool}

theorem tidsCreate {r : Nat} {kid : Child} (tids : Tids s) (sound : kid.Sound)
    (fresh : kid.tid = s.nextTid) (child : s'.child = Function.update s.child r kid)
    (later : s'.nextTid = s.nextTid + 1) : Tids s' := by
  have below {q : Nat} (self : q ≠ r) (here : (s'.child q).pc ≠ .absent) :
      (s'.child q).tid = (s.child q).tid ∧ (s.child q).pc ≠ .absent ∧
        (s.child q).tid < s.nextTid := by
    rw [child, Function.update_of_ne self] at here ⊢
    exact ⟨rfl, here, tids.below q here⟩
  have mine : (s'.child r).tid = s.nextTid := by rw [child, Function.update_self, fresh]
  refine ⟨fun q here => ?_, fun q absent => ?_, fun q here => ?_, fun q p left right same => ?_⟩
  · by_cases self : q = r
    · rw [self, child, Function.update_self]
      exact sound
    · rw [child, Function.update_of_ne self] at here ⊢
      exact tids.sound q here
  · rw [child] at absent ⊢
    by_cases self : q = r
    · rw [self, Function.update_self] at absent
      exact absurd absent sound.present
    · rw [Function.update_of_ne self] at absent ⊢
      exact tids.blank q absent
  · rw [later]
    by_cases self : q = r
    · rw [self, mine]
      exact Nat.lt_succ_self _
    · obtain ⟨tid, _, less⟩ := below self here
      omega
  · by_cases self : q = r <;> by_cases self' : p = r
    · exact self.trans self'.symm
    · obtain ⟨tid, _, less⟩ := below self' right
      rw [self, mine] at same
      omega
    · obtain ⟨tid, _, less⟩ := below self left
      rw [self', mine] at same
      omega
    · obtain ⟨tid, there, _⟩ := below self left
      obtain ⟨tid', there', _⟩ := below self' right
      exact tids.distinct q p there there' (by omega)

theorem executeTids {caller : Caller} {stage : Execute} {granted : Bool} (tids : Tids s) :
    Ends (processExecute s t caller granted stage) Tids := by
  intro s' ok
  rcases (executeMakes s' ok).1 with ⟨child, later⟩ | ⟨r, _, later, child⟩
  · exact tidsSame tids child (Nat.le_of_eq later.symm)
  · exact tidsCreate tids (launchedBound _).sound rfl child later

theorem callOk (ok : s.call t kernel pc = .ok s') :
    s' = s.become t pc ∧ t < s.count ∧ s.threads t = .user ∧ s.kernel = kernel ∧
      s.exiting = false := by
  unfold State.call at ok
  split at ok <;> try contradiction
  rename_i may
  exact ⟨(Except.ok.inj ok).symm, may⟩

theorem threadsCall (threads : Threads s) (inside : t < s.count)
    (user : s.threads t = .user) (idle : s.exiting = false) (sane : pc.Sane s.kernel) (free : pc.locked = false)
    (rest : pc.rest = []) (notExit : ∀ stage, pc ≠ .exit stage) : Threads (s.become t pc) := by
  have moved (u : Nat) : (s.become t pc).threads u = if u = t then pc else s.threads u :=
    Function.update_apply _ _ _ _
  refine ⟨?_, ?_, ?_, ?_, ?_, ?_⟩
  · intro u locked
    rw [moved] at locked
    split at locked
    · rw [free] at locked
      cases locked
    · exact threads.locked u locked
  · intro u holds
    have locked := threads.holder u holds
    have self : u ≠ t := by
      rintro rfl
      rw [user] at locked
      cases locked
    rw [moved, if_neg self]
    exact locked
  · intro u q todo
    rw [moved] at todo
    split at todo
    · rw [rest] at todo
      cases todo
    · exact threads.rest u q todo
  · intro u
    rw [moved]
    split
    · exact sane
    · exact threads.sane u
  · intro u outside
    have self : u ≠ t := fun self => Nat.not_lt.mpr outside (self ▸ inside)
    rw [moved, if_neg self]
    exact threads.inside u outside
  · intro u stage here
    rw [moved] at here
    split at here
    · exact absurd here (notExit stage)
    · have flag := (threads.exits u stage here).1
      rw [idle] at flag
      cases flag

theorem stepped (ok : step s a = .ok s') : Stepped s a s' := by
  have calls {a : Action} {t : Nat} {kernel : Bool} {pc : ParentPc} (entry : Entry a t kernel pc)
      (ok : s.call t kernel pc = .ok s') : Stepped s a s' := by
    obtain ⟨rfl, inside, user, same, going⟩ := callOk ok
    exact .calls entry inside user same going
  cases a with
  | exec t => exact calls .exec ok
  | runTask => exact calls .runTask ok
  | wait t pid => exact calls .wait ok
  | exit t =>
    simp only [step] at ok
    split at ok <;> try contradiction
    rename_i all
    obtain ⟨u, called, done⟩ := bindOk.mp ok
    obtain ⟨rfl, inside, _, same, going⟩ := callOk called
    cases done
    exact .exits all inside same going
  | run t granted =>
    simp only [step] at ok
    split at ok <;> try contradiction
    rename_i inside
    unfold runParent at ok
    split at ok <;> rename_i here
    · exact .execute inside here ok
    · exact .exec inside here ok
    · exact .wait inside here ok
    · exact .clean inside here ok
    · cases ok
    · cases ok
  | child r granted =>
    obtain ⟨⟨value, kid⟩, ran, done⟩ := bindOk.mp ok
    cases done
    exact .child ran
  | exitChild r exitCode =>
    simp only [step] at ok
    split at ok <;> try contradiction
    rename_i running
    cases ok
    exact .exitChild running
  | allocateTid =>
    cases ok
    exact .allocateTid

theorem familyExit (family : Family s) (all : ∀ u < s.count, s.threads u = .user)
    (inside : t < s.count) (isUser : s.kernel = false) :
    Family { s.become t (.exit .pop) with exiting := true } := by
  have nobody (u : Nat) : s.threads u = .user := by
    by_cases within : u < s.count
    · exact all u within
    · exact family.threads.inside u (Nat.le_of_not_lt within)
  have moved (u : Nat) : (s.become t (.exit .pop)).threads u =
      if u = t then .exit .pop else s.threads u :=
    Function.update_apply _ _ _ _
  refine ⟨?_, ?_, tidsSame family.tids rfl (Nat.le_refl _)⟩
  · refine tendedSame family.tended ?_ rfl rfl rfl rfl rfl
    intro u
    show ((s.become t (.exit .pop)).threads u).side = _
    rw [moved, nobody u]
    split <;> rfl
  · refine ⟨?_, ?_, ?_, ?_, ?_, ?_⟩
    · intro u locked
      simp only [moved, nobody] at locked
      split at locked <;> cases locked
    · intro u holds
      have locked := family.threads.holder u holds
      rw [nobody u] at locked
      cases locked
    · intro u q todo
      simp only [moved, nobody] at todo
      split at todo <;> cases todo
    · intro u
      simp only [moved, nobody]
      split
      · exact isUser
      · trivial
    · intro u outside
      have self : u ≠ t := fun self => Nat.not_lt.mpr outside (self ▸ inside)
      simp only [moved, nobody]
      exact if_neg self
    · intro u stage here
      refine ⟨rfl, fun v other => ?_⟩
      simp only [moved, nobody] at here ⊢
      split at here
      · rename_i self
        exact if_neg fun same => other (same.trans self.symm)
      · cases here

theorem familyStep (family : Family s) (supplied : Supplied s a) (apart : Apart s a)
    (ok : step s a = .ok s') : Family s' := by
  obtain ⟨tended, threads, tids⟩ := family
  have lasting {x : Except Fault State} (lasts : Ends x (Lasts s)) : Ends x Tids :=
    fun s' same => tidsSame tids (lasts s' same).child (Nat.le_of_eq (lasts s' same).nextTid.symm)
  cases stepped ok with
  | calls entry inside user same going =>
    refine ⟨tendedBecome tended ?_, threadsCall threads inside user going ?_ ?_ ?_ ?_,
      tidsSame tids rfl (Nat.le_refl _)⟩
    · rw [user]
      cases entry <;> rfl
    · rw [same]
      cases entry <;> simp [ParentPc.Sane]
    all_goals cases entry <;> simp [ParentPc.locked, ParentPc.rest]
  | exits all inside same => exact familyExit ⟨tended, threads, tids⟩ all inside same
  | @execute t _ _ _ _ inside here ok =>
    have sane := threads.sane t
    rw [here] at sane
    exact ⟨executeTended tended sane here supplied s' ok, executeThreads threads inside here s' ok,
      executeTids tids s' ok⟩
  | @exec t _ _ _ inside here ok =>
    have sane := threads.sane t
    rw [here] at sane
    exact ⟨execTended tended sane here s' ok, execThreads tended threads tids inside here s' ok,
      lasting execLasts s' ok⟩
  | wait inside here ok =>
    exact ⟨waitTended tended threads here apart s' ok, waitThreads threads inside here s' ok,
      lasting waitLasts s' ok⟩
  | clean inside here ok =>
    exact ⟨cleanTended tended threads here s' ok, cleanThreads threads inside here s' ok,
      lasting cleanLasts s' ok⟩
  | @child r _ value kid ran =>
    have present := runPresent ran
    have grows := growsRun s.kernel (tids.sound r present) (value, kid) ran
    exact ⟨tendedChild tended present fun side good => goodRun supplied good (value, kid) ran,
      ⟨threads.locked, threads.holder, threads.rest, threads.sane, threads.inside, threads.exits⟩,
      tidsChild tids present grows.tid grows.sound rfl rfl⟩
  | @exitChild r exitCode running =>
    have present : (s.child r).pc ≠ .absent := by rw [running]; simp
    have exits := tendedChild tended present fun side good => goodExit exitCode running good
    rw [putSelf] at exits
    have sound := callsSound exitCode running (tids.sound r present)
    exact ⟨exits, ⟨threads.locked, threads.holder, threads.rest, threads.sane, threads.inside, threads.exits⟩,
      tidsChild tids present (by rfl) sound rfl rfl⟩
  | allocateTid =>
    exact ⟨tendedSame tended (fun _ => rfl) rfl rfl rfl rfl rfl,
      ⟨threads.locked, threads.holder, threads.rest, threads.sane, threads.inside, threads.exits⟩,
      tidsSame tids rfl (Nat.le_succ _)⟩

theorem familyBoot (kernel : Bool) (count nextTid : Nat) : Family (boot kernel count nextTid) := by
  refine ⟨⟨?_, ?_, ?_, ?_, ?_, ?_, ?_⟩, ⟨?_, ?_, ?_, ?_, ?_, ?_⟩, ⟨?_, ?_, ?_, ?_⟩⟩
  all_goals simp [boot, Stands, ParentPc.side, ParentPc.locked, ParentPc.rest, ParentPc.Sane]

end Family
end Pintos.Children
