import Pintos.Children.Awaits

/-! process_wait comes to its end when the child it names is over, waits for nothing else, and
returns what that child has exited with. -/
namespace Pintos.Children
open Machine

section Stops
variable {s : State} {waited : List Int} {t : Nat} {pid : Int} {stage : Wait}
  {rec : Record} {pcb : Object}

def Running (s : State) (waited : List Int) (pid : Int) (r : Nat) : Prop :=
  (s.child r).tid = pid ∧ (s.child r).Alive ∧ (s.child r).finished = false ∧ pid ∉ waited ∧
    (s.kernel = false → (s.child r).started = true)

theorem waitStops (family : Family s) (awaits : Awaits s waited) (lonely : Lonely s)
    (here : s.threads t = .wait pid stage) : Fails (processWait s t pid stage) fun f =>
      f = .blocked ∧ ∃ r, stage = .down r ∧ Running s waited pid r := by
  intro f fails
  obtain ⟨blocked, ⟨u, other, holds⟩ | ⟨child, rfl, zero⟩⟩ := waitBlocks family here f fails
  · have locked := family.threads.holder u holds
    rw [lonely.wait t (by rw [here]; rfl) u other] at locked
    cases locked
  · obtain ⟨tended, threads, tids⟩ := family
    have side : (s.threads t).side = some (child, .listed) := by rw [here]; rfl
    obtain ⟨bound, named, sure⟩ := tended.good child .listed (.inl ⟨t, side⟩)
    have inside := (tended.linked t child .listed side).mpr rfl
    have tidOf := awaits.found t pid _ child here rfl
    have fresh : pid ∉ waited := tidOf ▸ awaits.unwaited child inside bound.sound.present
    have finished : (s.child child).finished = false := by
      cases finished : (s.child child).finished with
      | false => rfl
      | true =>
        obtain ⟨_, written, _⟩ := bound.written
        rw [written] at zero
        simp [Child.writes, (overTells finished).2.2] at zero
    refine ⟨blocked, child, rfl, tidOf, ⟨bound.sound.present, fun ended => ?_⟩, finished, fresh, ?_⟩
    · rcases sure with started | ⟨isKernel, hopeful⟩
      · exact started
      · simpa [Child.doomed, ended] using hopeful.loads isKernel
    · intro isUser
      rcases sure with started | ⟨isKernel, _⟩
      · exact started
      · rw [isUser] at isKernel
        cases isKernel

def FreeChild.left : FreeChild → Nat
  | .test => 6
  | .freeEditing => 5
  | .free => 4
  | .setExited => 3
  | .clearParent => 2
  | .up => 1

def Wait.left (listed : Nat) : Wait → Nat
  | .lock => listed + 13
  | .search rest => rest.length + 12
  | .down _ => 11
  | .read _ => 10
  | .remove _ _ => 9
  | .free _ _ stage => stage.left + 2
  | .unlock _ => 1
  | .done _ => 0

theorem freeChildLeft {stage : FreeChild} :
    Ends (freeChildSelf rec pcb stage) fun out => ∀ next ∈ out.2, next.left < stage.left := by
  cases stage with
  | test =>
    simp only [freeChildSelf, Record.use, endsAllow]
    intro _ next mem
    split at mem <;> cases mem <;> simp [FreeChild.left]
  | _ => simp [freeChildSelf, FreeChild.left]

theorem waitNearer (unfinished : ∀ result, stage ≠ .done result) :
    Ends (processWait s t pid stage) fun s' => ∃ next, s'.threads t = .wait pid next ∧
      next.left s'.children.length < stage.left s.children.length := by
  cases stage with
  | search rest =>
    cases rest with
    | nil => exact endsOk.mpr ⟨_, State.becomeThread _ _ _, by simp [Wait.left]⟩
    | cons child rest =>
      simp only [processWait, endsBind, endsAllow, Record.use, endsOk]
      refine fun _ => ⟨_, State.becomeThread _ _ _, ?_⟩
      split <;> simp [Wait.left]
  | lock =>
    simp only [processWait, endsBind, endsAllow, State.acquire, endsOk]
    exact fun _ => ⟨_, State.becomeThread _ _ _, by simp [Wait.left]⟩
  | down child =>
    simp only [processWait, endsBind, Record.endsDownWaiting, endsOk]
    exact fun _ _ => ⟨_, State.becomeThread _ _ _, by simp [Wait.left]⟩
  | read child =>
    simp only [processWait, endsBind, endsAllow, Record.use, endsOk]
    exact fun _ => ⟨_, State.becomeThread _ _ _, by simp [Wait.left]⟩
  | remove child result =>
    simp only [processWait, endsBind, endsAllow, State.check, endsOk]
    exact fun _ => ⟨_, State.becomeThread _ _ _, by simp [Wait.left, FreeChild.left]⟩
  | free child result stage =>
    simp only [processWait, endsBind]
    rintro ⟨value, next⟩ ok
    have less := freeChildLeft (value, next) ok
    cases next with
    | none => exact endsOk.mpr ⟨_, State.becomeThread _ _ _, by simp [Wait.left]⟩
    | some next =>
      refine endsOk.mpr ⟨_, State.becomeThread _ _ _, ?_⟩
      have less := less next rfl
      simp only [Wait.left]
      omega
  | unlock result =>
    simp only [processWait, endsBind, endsAllow, State.release, endsOk]
    exact fun _ => ⟨_, State.becomeThread _ _ _, by simp [Wait.left]⟩
  | done result => exact absurd rfl (unfinished result)

end Stops

section Runs
variable {l : Account} {kernel : Bool} {count nextTid t : Nat} {pid : Int} {stage : Wait}

structure Kept (l : Account) : Prop where
  family : Family l.state
  lonely : Lonely l.state
  awaits : Awaits l.state l.waited

theorem keptStep {l' : Account} {a : Action} (kept : Kept l)
    (allowed : Supplied l.state a ∧ Lone l.state a) (ok : accountStep l a = .ok l') : Kept l' := by
  unfold accountStep at ok
  split at ok <;> try contradiction
  rename_i s' moved
  cases ok
  obtain ⟨family, lonely, awaits⟩ := kept
  exact ⟨familyStep family allowed.1 (lonelyApart lonely) moved,
    lonelyStep family.threads lonely allowed.2 moved, awaitsStep family awaits lonely moved⟩

theorem keptRun (run : Run accountStep (fun l a => Supplied l.state a ∧ Lone l.state a)
    (accountBoot kernel count nextTid) l) : Kept l := by
  refine run.invariant Kept ?_ fun _ _ _ kept allowed moved => keptStep kept allowed moved
  refine ⟨familyBoot kernel count nextTid, ⟨?_, ?_, ?_⟩, ⟨?_, ?_, ?_, ?_, ?_, ?_, ?_⟩⟩
  all_goals simp [accountBoot, boot, ParentPc.waits, Child.Alive]

theorem keptInside (kept : Kept l) (here : l.state.threads t = .wait pid stage) :
    t < l.state.count := by
  by_contra outside
  rw [kept.family.threads.inside t (Nat.le_of_not_lt outside)] at here
  cases here

theorem keptRuns {granted : Bool} (kept : Kept l) (here : l.state.threads t = .wait pid stage) :
    step l.state (.run t granted) = processWait l.state t pid stage := by
  simp only [step, keptInside kept here, if_true, runParent, here]

theorem keptReturns (kept : Kept l) (here : l.state.threads t = .wait pid stage)
    (finished : ∀ r, (l.state.child r).Alive → (l.state.child r).tid = pid →
      (l.state.child r).finished = true) :
    ∃ l' result, Run accountStep (fun l a => Supplied l.state a ∧ Lone l.state a) l l' ∧
      l'.state.threads t = .wait pid (.done result) ∧ l'.waited = l.waited := by
  induction bound : stage.left l.state.children.length using Nat.strongRecOn
    generalizing l stage with
  | _ n ih =>
    by_cases returned : ∃ result, stage = .done result
    · obtain ⟨result, rfl⟩ := returned
      exact ⟨l, result, .start, here, rfl⟩
    · have unfinished : ∀ result, stage ≠ .done result := fun result same => returned ⟨result, same⟩
      cases ran : processWait l.state t pid stage with
      | error f =>
        obtain ⟨_, r, _, tidOf, alive, notOver, _⟩ :=
          waitStops kept.family kept.awaits kept.lonely here f ran
        exact absurd ((finished r alive tidOf).symm.trans notOver) (by simp)
      | ok s' =>
        obtain ⟨next, there, less⟩ := waitNearer unfinished s' ran
        have quiet : returns l.state (.run t true) = none := by
          simp only [returns, here]
          cases stage <;> first | rfl | exact absurd rfl (unfinished _)
        have moved : accountStep l (.run t true) = .ok ⟨s', l.waited⟩ := by
          simp only [accountStep, keptRuns kept here, ran, quiet, notes]
        have allowed : Supplied l.state (.run t true) ∧ Lone l.state (.run t true) :=
          ⟨fun _ => rfl, trivial⟩
        have child : s'.child = l.state.child := (waitLasts s' ran).child
        obtain ⟨l', result, run, done, same⟩ := ih _ (bound ▸ less) (keptStep kept allowed moved)
          there (by rw [child]; exact finished) rfl
        exact ⟨l', result, runTrans (.more .start allowed moved) run, done, same⟩

/-- process_wait returns the exit code of a child that has started and ended, the first time it is
called for its pid, and -1 in every other case; it waits for nothing but that child. -/
theorem waitResult (run : Run accountStep (fun l a => Supplied l.state a ∧ Lone l.state a)
      (accountBoot kernel count nextTid) l) :
    (∀ t pid result, l.state.threads t = .wait pid (.done result) →
      (∀ r, Names l.state pid r → pid ∉ l.waited →
        (l.state.child r).finished = true ∧ result = (l.state.child r).exitCode) ∧
      ((∀ r, Names l.state pid r → pid ∈ l.waited) → result = -1)) ∧
    (∀ t pid stage, l.state.threads t = .wait pid stage →
      (∀ granted f, step l.state (.run t granted) = .error f →
        f = .blocked ∧ ∃ r, Running l.state l.waited pid r) ∧
      ((∀ r, (l.state.child r).Alive → (l.state.child r).tid = pid →
          (l.state.child r).finished = true) →
        ∃ l' result, Run accountStep (fun l a => Supplied l.state a ∧ Lone l.state a) l l' ∧
          l'.state.threads t = .wait pid (.done result) ∧ l'.waited = l.waited)) := by
  have kept := keptRun run
  have family := kept.family
  have awaits := kept.awaits
  refine ⟨fun t pid result here => ?_, fun t pid stage here => ⟨fun granted f fails => ?_, ?_⟩⟩
  · rcases awaits.returned t pid _ result here rfl with
      ⟨q, named, finished, code, _, fresh⟩ | ⟨failed, known⟩
    · refine ⟨fun r names _ => ?_, fun known => absurd (known q named) fresh⟩
      have same : (l.state.child r).tid = (l.state.child q).tid :=
        Int.ofNat.inj (names.2.trans named.2.symm)
      obtain rfl := family.tids.distinct r q (namesPresent family.tids names)
        (namesPresent family.tids named) same
      exact ⟨finished, code⟩
    · refine ⟨fun r names fresh => ?_, fun _ => failed⟩
      exact absurd (known r (namesAlive family.tids names) names.2) fresh
  · rw [keptRuns kept here] at fails
    obtain ⟨blocked, r, _, running⟩ := waitStops family awaits kept.lonely here f fails
    exact ⟨blocked, r, running⟩
  · exact keptReturns kept here

theorem waitResultExample : ∃ l, Run accountStep (fun l a => Supplied l.state a ∧ Lone l.state a)
      (accountBoot false 1 1) l ∧ l.state.threads 0 = .wait 1 (.done 7) ∧
      Names l.state 1 0 ∧ (l.state.child 0).exitCode = 7 := by
  obtain ⟨l, run, found⟩ := execFinds accountStep (fun l a => Supplied l.state a ∧ Lone l.state a)
    (accountBoot false 1 1)
    (executes 0 ++ List.replicate 8 (.child 0 true) ++ List.replicate 7 (.run 0 true) ++
      [.wait 0 1, .run 0 true, .run 0 true, .exitChild 0 7] ++ List.replicate 8 (.child 0 true) ++
      List.replicate 7 (.run 0 true))
    (fun l => decide (l.state.threads 0 = .wait 1 (.done 7) ∧ Names l.state 1 0 ∧
      (1 : Int) ∉ l.waited)) (by decide +kernel)
  obtain ⟨here, names, fresh⟩ := of_decide_eq_true found
  exact ⟨l, run, here, names, (((waitResult run).1 0 1 7 here).1 0 names fresh).2.symm⟩

theorem waitMistaken :
    (∃ s, Run step (fun _ _ => True) (boot false 1 1) s ∧ s.threads 0 = .wait (-1) (.down 0) ∧
      (s.child 0).pc = .absent ∧ ∀ granted, step s (.run 0 granted) = .error .blocked) ∧
    (∃ s, Run step (fun _ _ => True) (boot false 1 1) s ∧ s.threads 0 = .wait 1 (.down 0) ∧
      (s.child 0).pc = .ended ∧ ∀ granted, step s (.run 0 granted) = .error .blocked) ∧
    (∃ s, Run step (fun _ _ => True) (boot true 1 1) s ∧
      s.threads 0 = .wait 1 (.free 0 (-1) .clearParent) ∧
      ∀ granted, step s (.run 0 granted) = .error .null) ∧
    (∃ s, Run step Supplied (boot false 2 1) s ∧ s.threads 1 = .wait 7 .lock ∧
      ∀ granted, step s (.run 1 granted) = .error .blocked) := by
  have stuck {s : State} {t : Nat} {fault : Fault}
      (found : ∀ granted, stops (step s (.run t granted)) (decide <| · = fault) = true)
      (granted : Bool) : step s (.run t granted) = .error fault := by
    obtain ⟨f, fails, same⟩ := stopsError (found granted)
    rw [fails, of_decide_eq_true same]
  refine ⟨?_, ?_, ?_, ?_⟩
  · obtain ⟨s, run, found⟩ := execFinds step (fun _ _ => True) (boot false 1 1)
      (.exec 0 :: List.replicate 8 (.run 0 true) ++ [.run 0 false, .run 0 true, .run 0 true,
        .wait 0 (-1), .run 0 true, .run 0 true])
      (fun s => decide (s.threads 0 = .wait (-1) (.down 0) ∧ (s.child 0).pc = .absent ∧
        ∀ granted, stops (step s (.run 0 granted)) (decide <| · = .blocked) = true))
      (by decide +kernel)
    obtain ⟨here, absent, blocked⟩ := of_decide_eq_true found
    exact ⟨s, run, here, absent, stuck blocked⟩
  · obtain ⟨s, run, found⟩ := execFinds step (fun _ _ => True) (boot false 1 1)
      (executes 0 ++ List.replicate 3 (.child 0 false) ++ List.replicate 7 (.run 0 true) ++
        [.wait 0 1, .run 0 true, .run 0 true])
      (fun s => decide (s.threads 0 = .wait 1 (.down 0) ∧ (s.child 0).pc = .ended ∧
        ∀ granted, stops (step s (.run 0 granted)) (decide <| · = .blocked) = true))
      (by decide +kernel)
    obtain ⟨here, ended, blocked⟩ := of_decide_eq_true found
    exact ⟨s, run, here, ended, stuck blocked⟩
  · obtain ⟨s, run, found⟩ := execFinds step (fun _ _ => True) (boot true 1 1)
      (.runTask :: List.replicate 10 (.run 0 true) ++ [.child 0 true, .child 0 true] ++
        List.replicate 10 (.child 0 false) ++ List.replicate 7 (.run 0 true))
      (fun s => decide (s.threads 0 = .wait 1 (.free 0 (-1) .clearParent) ∧
        ∀ granted, stops (step s (.run 0 granted)) (decide <| · = .null) = true))
      (by decide +kernel)
    obtain ⟨here, null⟩ := of_decide_eq_true found
    exact ⟨s, run, here, stuck null⟩
  · obtain ⟨s, run, found⟩ := execFinds step Supplied (boot false 2 1)
      (executes 0 ++ List.replicate 8 (.child 0 true) ++ List.replicate 7 (.run 0 true) ++
        [.wait 0 1, .run 0 true, .run 0 true, .wait 1 7])
      (fun s => decide (s.threads 1 = .wait 7 .lock ∧
        ∀ granted, stops (step s (.run 1 granted)) (decide <| · = .blocked) = true))
      (by decide +kernel)
    obtain ⟨here, blocked⟩ := of_decide_eq_true found
    exact ⟨s, run, here, stuck blocked⟩

end Runs
end Pintos.Children
