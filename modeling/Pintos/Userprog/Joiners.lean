import Pintos.Userprog.Teardown

/-! How often a joiner is woken. Beside the machine stand two counters per thread: how often
pthread_join has blocked for it, and how often thread_unblock has been called on its
account. -/
namespace Pintos.Userprog
open Machine

attribute [local simp] Function.update_apply

structure Ledger where
  state : State
  waited : Tid → Nat
  woken : Tid → Nat

def blocksFor (s : State) : Action → Option Tid
  | .run =>
    match s.current with
    | none => none
    | some c =>
      match (s.thread c).pc with
      | .join (.set f) =>
        if (s.thread c).nested = [] ∧ f.blockWait = true ∧
          ((s.proc c).exiting ≠ .main ∨ f.isMain = false) then some f.pos else none
      | _ => none
  | _ => none

def ledgerStep (r : Ledger) (a : Action) : Except Fault Ledger :=
  match step r.state a with
  | .error f => .error f
  | .ok s => .ok {
      state := s
      waited := fun t => r.waited t + if blocksFor r.state a = some t then 1 else 0
      woken := fun t => r.woken t + wakesFor t (ops r.state a)}

def ledgerBoot : Ledger where
  state := boot
  waited _ := 0
  woken _ := 0

def Done (s : State) (t : Tid) : Prop :=
  (s.thread t).pc.ended = true ∨ (s.thread t).pc.closing = true ∨ s.sched.Ended t

instance (s t) : Decidable (Done s t) := by
  unfold Done Sched.Ended; infer_instance

def Waits (s : State) (j t : Tid) : Prop :=
  (∃ f, (s.thread j).pc = .join (.relock f) ∧ f.pos = t) ∧ s.sched.Bare j

/- No zombie is dispatched, and:
- when a joiner records itself, nobody else has done so since its scan, and if it blocks, its
  target has not ended since;
- a thread with a joiner does not call exit after another one has;
- the traversal of process_exit_normal meets no thread with a joiner that has ended. -/
def PunctualAt (s : State) (c : Tid) : Pc → Prop
  | .join (.set f) => (s.thread f.pos).joinedBy = none ∧
    (blocksFor s .run = some f.pos → ¬ Done s f.pos)
  | .exit (.enter _) => (s.proc c).exiting = .normal → (s.thread c).joinedBy = none
  | .exit (.visit (pos :: _)) => (s.thread pos).inHandler = false →
    (s.thread pos).joinedBy ≠ none → ¬ Done s pos
  | _ => True

def Punctual (s : State) : Action → Prop
  | .dispatch t => (s.thread t).status ≠ .zombie
  | .run => ∀ c ∈ s.current, PunctualAt s c (s.thread c).pc
  | _ => True

structure Joined (r : Ledger) : Prop where
  base : Base r.state
  mains : Mains r.state
  lined : Lined r.state.sched
  kin : Kin r.state
  settled : ∀ t f, (r.state.thread t).pc.chosen = some f → f.blockWait = false →
    Done r.state f.pos
  isMain : ∀ t f, (r.state.thread t).pc.chosen = some f → f.isMain = true →
    f.pos = (r.state.thread t).pid
  unjoined : ∀ t, (r.state.thread t).joinedBy = none → r.waited t = 0 ∧ r.woken t = 0
  waits : ∀ t j, (r.state.thread t).joinedBy = some j → ¬ Done r.state t →
    r.waited t = 1 ∧ r.woken t = 0 ∧ Waits r.state j t
  done : ∀ t, Done r.state t → r.woken t = r.waited t ∧ r.waited t ≤ 1

section Done
variable {s s' : State} {a : Action} {c t j : Tid}
  {f : Target} {p : Pid}

theorem blocksForSet (waits : blocksFor s a = some t) : ∃ c f, s.current = some c ∧ a = .run ∧
    (s.thread c).nested = [] ∧ (s.thread c).pc = .join (.set f) ∧ f.pos = t ∧
    f.blockWait = true ∧ ((s.proc c).exiting ≠ .main ∨ f.isMain = false) := by
  unfold blocksFor at waits
  split at waits <;> try contradiction
  split at waits <;> try contradiction
  rename_i c runs
  split at waits <;> try contradiction
  rename_i f here
  split at waits <;> try contradiction
  rename_i all
  exact ⟨c, f, runs, rfl, all.1, here, Option.some.inj waits, all.2⟩

def Ending (s : State) (t : Tid) : Prop :=
  (s.thread t).pc = .pthreadExit ∨ (∃ code, (s.thread t).pc = .exit (.enter code)) ∨
    (s.thread t).pc = .main .enter ∧ (s.proc t).exiting = .none

theorem callsWhere (called : calls s a = some t) : ∃ c, s.current = some c ∧ a = .run ∧
    (s.thread c).nested = [] ∧ (c = t ∧ Ending s t ∨
      (∃ todo, (s.thread c).pc = .exit (.visit (t :: todo))) ∧ (s.thread t).inHandler = false) := by
  unfold calls at called
  split at called <;> try contradiction
  split at called <;> try contradiction
  rename_i c runs
  split at called <;> try contradiction
  rename_i plain
  refine ⟨c, runs, rfl, plain, ?_⟩
  unfold runCalls at called
  split at called <;> try contradiction
  · rename_i here
    cases called
    exact .inl ⟨rfl, .inl here⟩
  · rename_i code here
    cases called
    exact .inl ⟨rfl, .inr (.inl ⟨code, here⟩)⟩
  · rename_i pos todo here
    split at called <;> try contradiction
    rename_i outside
    cases called
    exact .inr ⟨⟨todo, here⟩, outside⟩
  · rename_i here
    split at called <;> try contradiction
    rename_i level
    cases called
    exact .inl ⟨rfl, .inr (.inr ⟨here, level⟩)⟩

theorem endingOpen (ending : Ending s t) :
    (s.thread t).pc.ended = false ∧ (s.thread t).pc.closing = false := by
  rcases ending with here | ⟨code, here⟩ | ⟨here, _⟩ <;> rw [here] <;> exact ⟨rfl, rfl⟩

theorem markedDone {l : Exiting} (kin : Kin s) (level : (s.pcb p).exiting = l)
    (raised : l ≠ .none) (marked : (s.pcb p).threadExiting = some t) :
    Done s t ∧ ∀ stage, (s.thread t).pc ≠ .join stage := by
  obtain ⟨_, _, closes | gone⟩ := markedThread kin level raised marked
  · refine ⟨.inr (.inl closes), fun stage here => ?_⟩
    rw [here] at closes
    cases closes
  · refine ⟨.inl (by rw [gone]; rfl), fun stage here => ?_⟩
    rw [here] at gone
    cases gone

theorem mainDone (base : Base s) (kin : Kin s) (level : (s.pcb p).exiting = .main) :
    Done s (s.pcb p).mainThread ∧ ∀ stage, (s.thread (s.pcb p).mainThread).pc ≠ .join stage :=
  markedDone kin level (by simp) (base.level p level)

theorem callsOpen (lined : Lined s.sched) (punctual : Punctual s a) (called : calls s a = some t)
    (joined : (s.thread t).joinedBy ≠ none) : ¬ Done s t := by
  obtain ⟨c, runs, rfl, _, ⟨rfl, ending⟩ | ⟨⟨todo, here⟩, outside⟩⟩ := callsWhere called
  · have running : s.sched.status c = .running := (lined.running c runs).1
    rintro (ended | closing | zombie | dying)
    · rw [(endingOpen ending).1] at ended; cases ended
    · rw [(endingOpen ending).2] at closing; cases closing
    · rw [running] at zombie; cases zombie
    · rw [running] at dying; cases dying
  · replace punctual := punctual c runs
    rw [here] at punctual
    exact punctual outside joined

theorem doneStep (base : Base s) (lined : Lined s.sched) (punctual : Punctual s a)
    (ok : step s a = .ok s') (young : t < s.created) (done : Done s t) : Done s' t := by
  rcases done with ended | closing | finished
  · exact .inl (endedStays base ok young ended)
  · rcases closesStep base ok young (.inl closing) with closes | gone
    · exact .inr (.inl closes)
    · exact .inl (by rw [gone]; rfl)
  · refine .inr (.inr (endedKeeps (stepPerforms base ok) lined finished young fun inside => ?_))
    cases opsReason inside with
    | dispatch idle ready run =>
      subst run
      rcases finished with zombie | dying
      · exact punctual zombie
      · -- a thread that is dying has been freed, and is not dispatched
        have freed : (s.thread t).freed = true := lined.dying t young dying
        simp only [step, idle, ready, and_self, if_true, dispatch, freed] at ok
        cases ok

theorem doneCalls (base : Base s) (kin : Kin s) (ok : step s a = .ok s') (young : t < s.created)
    (loaded : (s.thread t).pc.loading = false) (before : ¬ Done s t) (after : Done s' t) :
    calls s a = some t := by
  have called : ∀ {c : Tid}, s.current = some c → (s.thread c).nested = [] →
      calls s .run = runCalls s c (s.thread c).pc := by
    intro c runs plain
    simp only [calls, runs, plain, if_true]
  have moves : (s'.thread t).pc.ended = true ∨ (s'.thread t).pc.closing = true →
      calls s a = some t := by
    intro place
    cases stepArrives base ok t with
    | stays same =>
      rw [same] at place
      exact absurd (place.elim .inl fun closing => .inr (.inl closing)) before
    | creates runs old new => rw [new] at place; simp [Pc.ended, Pc.closing] at place
    | created self => exact absurd self (Nat.ne_of_lt young)
    | moves runs moved ok acts edge =>
      cases edge with
      | plain moves =>
        rw [(plainMove moves).alive.2] at place
        rcases place with ended | closing
        · cases ended
        · exact absurd (.inr (.inl ((plainMove moves).closing closing).1)) before
      | trap old new =>
        rw [new, handlerHandling.ended, handlerOpen.1] at place
        simp at place
      | leave old known new =>
        rw [new] at place
        split at place <;> simp [Pc.ended, Pc.closing] at place
      | ends old new | exitFirst old new | exitMain old new =>
        obtain ⟨rfl, plain, _⟩ := movedRuns ok moved (by rw [old]; rfl)
        rw [called runs plain, old]; rfl
      | mainFirst old new level =>
        obtain ⟨rfl, plain, _⟩ := movedRuns ok moved (by rw [old]; rfl)
        rw [called runs plain, old]
        exact if_pos level
      | mainLoop old => exact absurd (.inr (.inl (by rw [old]; rfl))) before
      | gone old =>
        rcases old with old | old | ⟨_, exception⟩
        · rw [old] at loaded; cases loaded
        · exact absurd (.inr (.inl (by rw [old]; rfl))) before
        · exact absurd exception (base.known _)
      | fault old new | count old new | failed old new | exitLater old new | mainLater old new =>
        rw [new] at place; simp [Pc.ended, Pc.closing] at place
  rcases after with ended | closing | finished
  · exact moves (.inl ended)
  · exact moves (.inr closing)
  · rcases endedSince (stepPerforms base ok) finished with old | zombify | zombie | die
    · exact absurd (.inr (.inr old)) before
    · cases opsReason zombify with
      | zombify runs run plain why =>
        subst run
        cases why with
        | visit here outside =>
          rw [called runs plain, here]
          exact if_pos outside
        | main here level => exact absurd (mainDone base kin level).1 before
    · cases opsReason zombie with
      | zombie runs run plain here => subst run; rw [called runs plain, here]; rfl
    · cases opsReason die with
      | die runs run plain here =>
        rcases here with here | here | exception
        · rw [here] at loaded; cases loaded
        · exact absurd (.inr (.inl (by rw [here]; rfl))) before
        · exact absurd exception (base.known _)

theorem endingMoves (base : Base s) (runs : s.current = some t) (plain : (s.thread t).nested = [])
    (ending : Ending s t) (ok : step s .run = .ok s')
    (first : ∀ code, (s.thread t).pc = .exit (.enter code) → (s.proc t).exiting ≠ .normal) :
    (s'.thread t).pc.ended = true ∨ (s'.thread t).pc.closing = true := by
  simp only [step, runs, stepCurrent, plain, if_true] at ok
  rcases ending with here | ⟨code, here⟩ | ⟨here, level⟩
  · simp only [here, runPc] at ok
    obtain ⟨u, _, ok⟩ := bindOk.mp ok
    cases ok
    exact .inl (by simp [Pc.ended])
  · simp only [here, runPc, processExitNormal] at ok
    obtain ⟨u, wakes, ok⟩ := bindOk.mp ok
    have level : ((u.setProc t fun p => setExitCode p code).proc t).exiting =
        (s.proc t).exiting := by
      rw [← (joinerKeeps wakes).2 t]
      simp
    simp only [level] at ok
    split at ok
    · cases ok
      exact .inr (by simp [Pc.closing])
    · split at ok <;> try contradiction
      cases ok
      exact .inr (by simp [Pc.closing])
    · rename_i normal
      exact absurd normal (first code here)
    · rename_i exception
      exact absurd exception (base.known _)
  · simp only [here, runPc, pthreadExitMain] at ok
    rw [if_pos (by simpa using level)] at ok
    obtain ⟨u, _, ok⟩ := bindOk.mp ok
    cases ok
    right
    rw [mainLoopPc]
    unfold loops
    split <;> rfl

theorem callsDone (base : Base s) (lined : Lined s.sched) (kin : Kin s) (punctual : Punctual s a)
    (ok : step s a = .ok s') (called : calls s a = some t)
    (joined : (s.thread t).joinedBy ≠ none) : Done s' t := by
  obtain ⟨c, runs, rfl, plain, ⟨rfl, ending⟩ | ⟨⟨todo, here⟩, outside⟩⟩ := callsWhere called
  · refine (endingMoves base runs plain ending ok fun code here normal => ?_).elim .inl fun closes =>
      .inr (.inl closes)
    replace punctual := punctual c runs
    rw [here] at punctual
    exact joined (punctual normal)
  · have performs := stepPerforms base ok
    simp only [ops, runs, currentOps, plain, if_true, here, runOps, exitOps, outside] at performs
    cases performs with
    | cons allowed after =>
      refine .inr (.inr (endedKeeps after (linedPerform lined allowed) ?_ ?_ ?_))
      · exact .inl (by simp [Sched.perform])
      · exact (kin.visits c _ t here List.mem_cons_self).1
      · intro inside
        unfold wakeUpJoinerOps at inside
        split at inside <;> simp at inside

theorem waitsStep (base : Base s) (lined : Lined s.sched) (kin : Kin s) (ok : step s a = .ok s')
    (waits : Waits s j t) (kept : ∀ u, Op.unblock j (.joiner u) ∉ ops s a) : Waits s' j t := by
  obtain ⟨⟨f, here, target⟩, bare⟩ := waits
  refine ⟨⟨f, ?_, target⟩, bareKeeps (stepPerforms base ok) lined bare ?_ ?_⟩
  · rw [bareStays base ok lined bare]
    exact here
  · intro on inside
    cases opsReason inside with
    | joiner called joined => exact kept _ inside
    | unblock runs run plain why =>
      cases why with
      | exiter _ level _ marked =>
        exact (markedDone kin level (by simp) marked).2 _ here
      | main _ level => exact (mainDone base kin level).2 _ here
  · intro inside
    cases opsReason inside with
    | zombify runs run plain why =>
      cases why with
      | visit _ outside =>
        have hand := base.hand j true (by rw [here]; rfl)
        rw [hand] at outside
        cases outside
      | main _ level => exact (mainDone base kin level).2 _ here

theorem scanFound {tid : Tid} (scans : joinScan s c tid = .ok (some f)) :
    f = ⟨tid, decide ((s.proc c).mainThread = tid),
      !((s.thread tid).status = .zombie || (s.thread tid).status = .dying)⟩ := by
  unfold joinScan at scans
  split at scans
  · split at scans <;> try contradiction
    split at scans
    · exact (Option.some.inj (Except.ok.inj scans)).symm
    · cases scans
  · cases scans

theorem joinSetWaits (lined : Lined s.sched) (runs : s.current = some c)
    (ok : joinSet s c f = .ok s')
    (blocks : f.blockWait = true ∧ ((s.proc c).exiting ≠ .main ∨ f.isMain = false)) :
    Waits s' c f.pos := by
  have free : (s.thread c).elem = none := (lined.running c runs).2
  have proc : ((s.setThread f.pos fun th => {th with joinedBy := some c}).setPc c
      (.join (.relock f))).proc c = s.proc c := by
    by_cases self : c = f.pos <;> simp [self]
  unfold joinSet at ok
  split at ok <;> try contradiction
  simp only [proc, if_pos blocks] at ok
  cases ok
  refine ⟨⟨f, by simp [threadBlock], rfl⟩, ?_⟩
  by_cases self : c = f.pos <;> simp_all [Sched.Bare, State.sched, threadBlock]

theorem joinedLoaded {stage : Join} (base : Base s) (mains : Mains s)
    (here : (s.thread j).pc = .join stage) (pid : (s.thread j).pid = (s.thread t).pid) :
    (s.thread t).pc.loading = false := by
  by_contra loads
  have known := aliveKnown base (c := j) (by rw [here]; rfl)
  have self := mains.alone t j (Bool.not_eq_false _ ▸ loads) known pid
  rw [← self, here] at loads
  exact loads rfl

end Done

section Steps
variable {r r' : Ledger} {a : Action} {t j : Tid}

theorem ledgerOk (ok : ledgerStep r a = .ok r') : step r.state a = .ok r'.state ∧
    (∀ t, r'.waited t = r.waited t + if blocksFor r.state a = some t then 1 else 0) ∧
    ∀ t, r'.woken t = r.woken t + wakesFor t (ops r.state a) := by
  unfold ledgerStep at ok
  split at ok <;> try contradiction
  rename_i s moved
  cases ok
  exact ⟨moved, fun _ => rfl, fun _ => rfl⟩

theorem blocksForRecords (punctual : Punctual r.state a) (ok : step r.state a = .ok r'.state)
    (waits : blocksFor r.state a = some t) : (r.state.thread t).joinedBy = none ∧
      ¬ Done r.state t ∧ (r'.state.thread t).joinedBy ≠ none := by
  obtain ⟨c, f, runs, rfl, plain, here, rfl, _, _⟩ := blocksForSet waits
  replace punctual := punctual c runs
  rw [here] at punctual
  simp only [step, runs, stepCurrent, plain, if_true, here, runPc, pthreadJoin] at ok
  refine ⟨punctual.1, punctual.2 waits, ?_⟩
  rw [(joinSetTies ok).2 f.pos, if_pos rfl]
  simp

theorem unblockedDone (inv : Joined r) {c : Tid} {f : Target}
    (here : (r.state.thread c).pc = .join (.set f))
    (passes : ¬ (f.blockWait = true ∧ ((r.state.proc c).exiting ≠ .main ∨ f.isMain = false))) :
    Done r.state f.pos := by
  have chosen : (r.state.thread c).pc.chosen = some f := by rw [here]; rfl
  by_cases block : f.blockWait = true
  · have rest := not_or.mp fun either => passes ⟨block, either⟩
    have level : (r.state.pcb (r.state.thread c).pid).exiting = .main := not_not.mp rest.1
    have main := inv.isMain c f chosen (by simpa using rest.2)
    have known := aliveKnown inv.base (c := c) (by rw [here]; rfl)
    have same : (r.state.pcb (r.state.thread c).pid).mainThread = (r.state.thread c).pid :=
      inv.mains.main c known
    rw [main, ← same]
    exact (mainDone inv.base inv.kin level).1
  · exact inv.settled c f chosen (by simpa using block)

section Joins
variable (inv : Joined r) (punctual : Punctual r.state a) (ok : ledgerStep r a = .ok r')
include inv punctual ok

theorem joinedUnjoined (t : Tid) (none : (r'.state.thread t).joinedBy = none) :
    r'.waited t = 0 ∧ r'.woken t = 0 := by
  obtain ⟨moved, waited, woken⟩ := ledgerOk ok
  have before : (r.state.thread t).joinedBy = .none := by
    rcases stepJoinedBy inv.base moved t with same | ⟨c, f, _, _, _, _, _, _, joined⟩ | ⟨self, _⟩
    · rw [← same]; exact none
    · rw [joined] at none; cases none
    · by_contra joined
      obtain ⟨j, joined⟩ := Option.ne_none_iff_exists'.mp joined
      exact absurd (self ▸ (inv.kin.joined t j joined).1) (Nat.lt_irrefl _)
  have idle : blocksFor r.state a ≠ some t := fun waits =>
    (blocksForRecords punctual moved waits).2.2 none
  obtain ⟨zero, zero'⟩ := inv.unjoined t before
  rw [waited, woken, zero, zero', if_neg idle, opsWakes, if_neg fun both => both.2 before]
  exact ⟨rfl, rfl⟩

theorem joinedWaits (t j : Tid) (joined : (r'.state.thread t).joinedBy = some j)
    (alive : ¬ Done r'.state t) : r'.waited t = 1 ∧ r'.woken t = 0 ∧ Waits r'.state j t := by
  obtain ⟨moved, waited, woken⟩ := ledgerOk ok
  have quiet : t < r.state.created → calls r.state a ≠ some t ∨
      (r.state.thread t).joinedBy = none := by
    intro young
    by_cases unjoined : (r.state.thread t).joinedBy = none
    · exact .inr unjoined
    · exact .inl fun called => alive (callsDone inv.base inv.lined inv.kin punctual moved called
        unjoined)
  rcases stepJoinedBy inv.base moved t with
    same | ⟨c, f, runs, run, plain, here, set, rfl, recorded⟩ | ⟨_, none⟩
  · -- the joiner has been waiting, and nobody wakes it
    rw [joined] at same
    obtain ⟨young, _, _⟩ := inv.kin.joined t j same.symm
    have before : ¬ Done r.state t := fun done =>
      alive (doneStep inv.base inv.lined punctual moved young done)
    obtain ⟨one, zero, waits⟩ := inv.waits t j same.symm before
    have uncalled : calls r.state a ≠ some t := (quiet young).elim id fun none => by
      rw [none] at same; cases same
    have idle : blocksFor r.state a ≠ some t := fun waits => by
      have none := (blocksForRecords punctual moved waits).1
      rw [none] at same
      cases same
    refine ⟨?_, ?_, waitsStep inv.base inv.lined inv.kin moved waits fun u inside => ?_⟩
    · rw [waited, one, if_neg idle]
    · rw [woken, zero, opsWakes, if_neg fun both => uncalled both.1]
    · cases opsReason inside with
      | joiner called other =>
        -- it waits for one thread only
        have open' := callsOpen inv.lined punctual called (by rw [other]; simp)
        obtain ⟨⟨f, here, target⟩, _⟩ := (inv.waits u j other open').2.2
        obtain ⟨⟨f', here', target'⟩, _⟩ := waits
        rw [here] at here'
        cases here'
        exact uncalled (target' ▸ target ▸ called)
      | unblock runs run plain why => cases why
  · rw [recorded] at joined
    cases joined
    subst run
    obtain ⟨young, _⟩ := inv.kin.chosen j f (by rw [here]; rfl)
    have before : ¬ Done r.state f.pos := fun done =>
      alive (doneStep inv.base inv.lined punctual moved young done)
    have blocks : f.blockWait = true ∧ ((r.state.proc j).exiting ≠ .main ∨ f.isMain = false) := by
      by_contra passes
      exact before (unblockedDone inv here passes)
    have waits : blocksFor r.state .run = some f.pos := by
      simp only [blocksFor, runs, here]
      exact if_pos ⟨plain, blocks⟩
    have none := (blocksForRecords punctual moved waits).1
    obtain ⟨zero, zero'⟩ := inv.unjoined f.pos none
    refine ⟨?_, ?_, joinSetWaits inv.lined runs set blocks⟩
    · rw [waited, zero, if_pos waits]
    · rw [woken, zero', opsWakes, if_neg fun both => both.2 none]
  · rw [none] at joined
    cases joined

theorem joinedDone (t : Tid) (done : Done r'.state t) :
    r'.woken t = r'.waited t ∧ r'.waited t ≤ 1 := by
  obtain ⟨moved, waited, woken⟩ := ledgerOk ok
  have unjoined : (r'.state.thread t).joinedBy = none →
      r'.woken t = r'.waited t ∧ r'.waited t ≤ 1 := by
    intro none
    obtain ⟨zero, zero'⟩ := joinedUnjoined inv punctual ok t none
    rw [zero, zero']
    exact ⟨rfl, Nat.zero_le _⟩
  rcases stepJoinedBy inv.base moved t with
    same | ⟨c, f, runs, run, plain, here, set, rfl, recorded⟩ | ⟨_, none⟩
  · cases joined : (r.state.thread t).joinedBy with
    | none => exact unjoined (same.trans joined)
    | some j =>
      obtain ⟨young, _, pid⟩ := inv.kin.joined t j joined
      have idle : blocksFor r.state a ≠ some t := fun waits => by
        rw [(blocksForRecords punctual moved waits).1] at joined
        cases joined
      by_cases before : Done r.state t
      · have uncalled : calls r.state a ≠ some t := fun called =>
          callsOpen inv.lined punctual called (by rw [joined]; simp) before
        rw [waited, woken, if_neg idle, opsWakes, if_neg fun both => uncalled both.1]
        exact inv.done t before
      · obtain ⟨one, zero, ⟨f, here, _⟩, _⟩ := inv.waits t j joined before
        have called := doneCalls inv.base inv.kin moved young
          (joinedLoaded inv.base inv.mains here pid) before done
        rw [waited, woken, one, zero, if_neg idle, opsWakes, if_pos ⟨called, by rw [joined]; simp⟩]
        exact ⟨rfl, Nat.le_refl _⟩
  · -- a joiner that has just recorded itself does not end its target
    subst run
    obtain ⟨young, pid⟩ := inv.kin.chosen c f (by rw [here]; rfl)
    have none : (r.state.thread f.pos).joinedBy = none := by
      replace punctual := punctual c runs
      rw [here] at punctual
      exact punctual.1
    have before : Done r.state f.pos := by
      by_contra before
      have called := doneCalls inv.base inv.kin moved young
        (joinedLoaded inv.base inv.mains here pid.symm) before done
      simp only [calls, runs, plain, if_true, here, runCalls] at called
      cases called
    have idle : blocksFor r.state .run ≠ some f.pos := fun waits =>
      (blocksForRecords punctual moved waits).2.1 before
    obtain ⟨zero, zero'⟩ := inv.unjoined f.pos none
    rw [waited, woken, zero, zero', if_neg idle, opsWakes, if_neg fun both => both.2 none]
    exact ⟨rfl, Nat.zero_le _⟩
  · exact unjoined none

theorem joinedStep : Joined r' := by
  obtain ⟨moved, _, _⟩ := ledgerOk ok
  refine ⟨baseStep inv.base moved, mainsStep inv.base inv.mains moved,
    linedStep inv.base inv.lined moved, kinStep inv.base inv.kin moved, ?_, ?_,
    joinedUnjoined inv punctual ok, joinedWaits inv punctual ok, joinedDone inv punctual ok⟩
  · intro t f chosen block
    obtain ⟨_, old | ⟨tid, scans⟩⟩ := chosenStep inv.base moved chosen
    · exact doneStep inv.base inv.lined punctual moved (inv.kin.chosen t f old).1
        (inv.settled t f old block)
    · obtain ⟨young, _⟩ := scanTarget inv.kin scans
      refine doneStep inv.base inv.lined punctual moved young (.inr (.inr ?_))
      rw [scanFound scans] at block ⊢
      simpa [Sched.Ended, State.sched, or_iff_not_imp_left] using block
  · intro t f chosen main
    obtain ⟨known, old | ⟨tid, scans⟩⟩ := chosenStep inv.base moved chosen
    · rw [(stepPid inv.base moved).2 t known]
      exact inv.isMain t f old main
    · rw [(stepPid inv.base moved).2 t known, ← inv.mains.main t known]
      rw [scanFound scans] at main ⊢
      exact (of_decide_eq_true main).symm

end Joins

theorem joinedBoot : Joined ledgerBoot := by
  refine ⟨baseBoot, mainsBoot, linedBoot, kinBoot, ?_, ?_, ?_, ?_, ?_⟩ <;>
    simp [ledgerBoot, boot, Pc.chosen]

end Steps

section Runs
variable {r : Ledger}

/-- As long as a joiner meets its target as its scan has found it, a thread with a joiner is not
a later caller of exit, the traversal meets no ended thread with a joiner and no zombie is
dispatched: thread_unblock is called on account of a thread only when its joiner is BLOCKED in
pthread_join for it, at most once, and exactly as often as pthread_join has blocked for it once
the thread is done. Whoever has recorded itself before that has blocked. -/
theorem joinerWokenOnce (run : Run ledgerStep (fun r => Punctual r.state) ledgerBoot r) :
    (∀ a t j, Punctual r.state a → Op.unblock j (.joiner t) ∈ ops r.state a →
      (r.state.thread t).joinedBy = some j ∧ Waits r.state j t ∧ r.woken t = 0) ∧
    (∀ t, r.woken t ≤ r.waited t ∧ r.waited t ≤ 1) ∧
    (∀ t j, (r.state.thread t).joinedBy = some j → ¬ Done r.state t →
      r.waited t = 1 ∧ r.woken t = 0 ∧ Waits r.state j t) ∧
    ∀ t, Done r.state t → r.woken t = r.waited t := by
  have inv := run.invariant Joined joinedBoot fun _ _ _ inv punctual ok => joinedStep inv punctual ok
  refine ⟨?_, ?_, inv.waits, fun t done => (inv.done t done).1⟩
  · intro a t j punctual inside
    cases opsReason inside with
    | joiner called joined =>
      have alive := callsOpen inv.lined punctual called (by rw [joined]; simp)
      obtain ⟨_, zero, waits⟩ := inv.waits t j joined alive
      exact ⟨joined, waits, zero⟩
    | unblock runs run plain why => cases why
  · intro t
    by_cases done : Done r.state t
    · obtain ⟨same, once⟩ := inv.done t done
      exact ⟨Nat.le_of_eq same, once⟩
    · cases joined : (r.state.thread t).joinedBy with
      | none =>
        obtain ⟨zero, zero'⟩ := inv.unjoined t joined
        rw [zero, zero']
        exact ⟨Nat.le_refl _, Nat.zero_le _⟩
      | some j =>
        obtain ⟨one, zero, _⟩ := inv.waits t j joined done
        rw [one, zero]
        exact ⟨Nat.zero_le _, Nat.le_refl _⟩

instance (s c pc) : Decidable (PunctualAt s c pc) :=
  match pc with
  | .join (.set f) => inferInstanceAs (Decidable ((s.thread f.pos).joinedBy = none ∧
      (blocksFor s .run = some f.pos → ¬ Done s f.pos)))
  | .exit (.enter _) =>
    inferInstanceAs (Decidable ((s.proc c).exiting = .normal → (s.thread c).joinedBy = none))
  | .exit (.visit (pos :: _)) => inferInstanceAs (Decidable ((s.thread pos).inHandler = false →
      (s.thread pos).joinedBy ≠ none → ¬ Done s pos))
  | .join (.lock _) | .join (.scan _) | .join (.unlock _) | .join (.relock _) | .join (.remove _)
  | .join (.release _) | .join (.free _) | .exit .lock | .exit .remove | .exit (.visit [])
  | .exit .unlock | .exit .check | .exit .assert | .load _ | .user | .trap _ | .work _ | .create _
  | .start _ | .leave _ | .pthreadExit | .main _ | .clean | .tail _ | .zombie | .gone =>
    instDecidableTrue

instance (s a) : Decidable (Punctual s a) :=
  match a with
  | .dispatch t => inferInstanceAs (Decidable ((s.thread t).status ≠ .zombie))
  | .run => inferInstanceAs (Decidable (∀ c ∈ s.current, PunctualAt s c (s.thread c).pc))
  | .call _ | .fault | .starve | .noStack | .lockInit _ | .lockAcquire _ | .lockRelease _
  | .acquire _ | .release _ | .block | .wake _ | .preempt | .launch => instDecidableTrue

def mainJoins : List Action :=
  twoThreads ++ [.preempt, .dispatch 0, .run, .run, .call (.pthreadJoin 1), .run, .run, .run, .run,
    .run, .dispatch 1]

theorem joinerWokenOnceExample : ∃ r, Run ledgerStep (fun r => Punctual r.state) ledgerBoot r ∧
    (r.state.thread 1).joinedBy = some 0 ∧ Done r.state 1 ∧ r.waited 1 = 1 ∧ r.woken 1 = 1 := by
  obtain ⟨r, run, found⟩ := execFinds ledgerStep (fun r => Punctual r.state) ledgerBoot
    (mainJoins ++ [.call .pthreadExit, .run, .run, .run])
    (fun r => decide ((r.state.thread 1).joinedBy = some 0 ∧ Done r.state 1 ∧ r.waited 1 = 1))
    (by decide +kernel)
  obtain ⟨joined, done, waited⟩ := of_decide_eq_true found
  exact ⟨r, run, joined, done, waited, ((joinerWokenOnce run).2.2.2 1 done).trans waited⟩

def exitTwice : List Action :=
  twoThreads ++ [.call .pthreadCreate, .run, .run, .run, .run, .dispatch 0, .run, .run,
    .call (.pthreadJoin 1), .run, .run, .run, .run, .run, .dispatch 2, .run, .run, .run, .run, .run,
    .run, .wake 1, .run, .run, .preempt, .dispatch 1, .run, .run, .call (.exit 1), .run, .preempt,
    .dispatch 2, .call (.exit 0), .run, .run, .preempt, .dispatch 1, .run, .run]

theorem joinerWokenTwice : ∃ r, Run ledgerStep (fun r => Fifo r.state) ledgerBoot r ∧
    (r.state.thread 1).joinedBy = some 0 ∧ r.waited 1 = 1 ∧ r.woken 1 = 1 ∧
    Op.unblock 0 (.joiner 1) ∈ ops r.state .run ∧ (r.state.thread 0).status = .ready ∧
    step r.state .run = .error (.assertion .statusBlocked) := by
  obtain ⟨r, run, found⟩ := execFinds ledgerStep (fun r => Fifo r.state) ledgerBoot exitTwice
    (fun r => decide ((r.state.thread 1).joinedBy = some 0 ∧ r.waited 1 = 1 ∧ r.woken 1 = 1 ∧
        Op.unblock 0 (.joiner 1) ∈ ops r.state .run ∧ (r.state.thread 0).status = .ready) &&
      stops (step r.state .run) fun f => decide (f = .assertion .statusBlocked))
    (by decide +kernel)
  obtain ⟨here, next⟩ := Bool.and_eq_true_iff.mp found
  obtain ⟨joined, waited, woken, inside, ready⟩ := of_decide_eq_true here
  obtain ⟨f, fails, same⟩ := stopsError next
  exact ⟨r, run, joined, waited, woken, inside, ready, by rw [fails, of_decide_eq_true same]⟩

def Pc.unlocked (p : Process) : Pc → Bool
  | .exit .lock | .join (.lock _) => p.activeWriters = 0
  | .join (.relock _) | .start .lock => p.activeReaders = 0 && p.activeWriters = 0
  | _ => true

/-- rw_lock_acquire never waits for threads_lock: cond_wait links the running thread before it
blocks. `block` is a sleep in sema_down or lock_acquire. -/
def Uncontended (s : State) (a : Action) : Prop :=
  a = .run → ∀ c ∈ s.current, (s.thread c).pc.unlocked (s.proc c) = true

instance (s a) : Decidable (Uncontended s a) := by
  unfold Uncontended
  infer_instance

end Runs
end Pintos.Userprog
