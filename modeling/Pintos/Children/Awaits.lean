import Pintos.Children.Exec

/-! What process_wait returns. Beside the machine stands the list of the pids that process_wait
has returned for while they named a child that had started. -/
namespace Pintos.Children
open Machine

structure Account where
  state : State
  waited : List Int

def Names (s : State) (pid : Int) (r : Nat) : Prop :=
  (s.child r).started = true ∧ (s.child r).tid = pid

instance (s pid r) : Decidable (Names s pid r) := inferInstanceAs (Decidable (_ ∧ _))

def returns (s : State) : Action → Option Int
  | .run t _ =>
    match s.threads t with
    | .wait pid (.done _) => some pid
    | _ => none
  | _ => none

def notes (s : State) (waited : List Int) : Option Int → List Int
  | some pid => if ∃ r < s.records, Names s pid r then pid :: waited else waited
  | none => waited

def accountStep (l : Account) (a : Action) : Except Fault Account :=
  match step l.state a with
  | .error f => .error f
  | .ok s => .ok ⟨s, notes l.state l.waited (returns l.state a)⟩

def accountBoot (kernel : Bool) (count nextTid : Nat) : Account :=
  ⟨boot kernel count nextTid, []⟩

def ParentPc.waits : ParentPc → Bool
  | .wait _ _ => true
  | _ => false

/-- process_wait does not overlap another exec or wait of the same process. -/
def Lone (s : State) : Action → Prop
  | .wait _ _ => ∀ u < s.count, s.threads u = .user
  | .exec _ => ∀ u < s.count, (s.threads u).waits = false
  | .runTask | .exit _ | .run _ _ | .child _ _ | .exitChild _ _ | .allocateTid => True

instance (s a) : Decidable (Lone s a) :=
  match a with
  | .wait _ _ => inferInstanceAs (Decidable (∀ u < s.count, s.threads u = .user))
  | .exec _ => inferInstanceAs (Decidable (∀ u < s.count, (s.threads u).waits = false))
  | .runTask | .exit _ | .run _ _ | .child _ _ | .exitChild _ _ | .allocateTid => instDecidableTrue

structure Lonely (s : State) : Prop where
  wait : ∀ t, (s.threads t).waits = true → ∀ u, u ≠ t → s.threads u = .user
  kernel : s.kernel = true → ∀ u, u ≠ 0 → s.threads u = .user
  exiting : s.exiting = true → s.kernel = false ∧ ∀ t, (s.threads t).waits = false

section Lonely
variable {s s' : State} {a : Action} {t : Nat} {granted : Bool}

theorem executeWaits {caller : Caller} {stage : Execute} :
    Ends (processExecute s t caller granted stage) fun s' =>
      ∀ pid next, s'.threads t = .wait pid next → next = .lock ∧ caller = .runTask := by
  have left (made : Option Nat) (pid : Int) (next : Wait)
      (same : refused made caller = .wait pid next) : next = .lock ∧ caller = .runTask := by
    cases caller <;> cases same
    exact ⟨rfl, rfl⟩
  have passed (r : Nat) (tid pid : Int) (next : Wait)
      (same : returned r tid caller = .wait pid next) : next = .lock ∧ caller = .runTask := by
    cases caller with
    | handler => by_cases failed : tid = -1 <;> simp [returned, failed] at same
    | runTask =>
      cases same
      exact ⟨rfl, rfl⟩
  cases stage <;> cases granted <;> simp [processExecute, State.becomeThread]
  all_goals first
    | exact left _
    | exact fun _ => left _
    | exact fun _ => passed _ _

theorem execWaits {stage : Exec} :
    Ends (handlerExec s t stage) fun s' => (s'.threads t).waits = false := by
  cases stage with
  | search r tid rest => cases rest <;> simp [handlerExec, State.becomeThread, ParentPc.waits]
  | _ => simp [handlerExec, State.becomeThread, ParentPc.waits]

theorem cleanWaits {stage : Clean} :
    Ends (processExitTail s t stage) fun s' => (s'.threads t).waits = false := by
  cases stage with
  | pop =>
    simp only [processExitTail]
    split <;> simp [State.becomeThread, ParentPc.waits]
  | free child stage held =>
    simp only [processExitTail, endsBind]
    rintro ⟨value, next⟩ _
    cases next <;> simp [State.becomeThread, ParentPc.waits]
  | _ => simp [processExitTail, State.becomeThread, ParentPc.waits]

theorem lonelyCall {pc : ParentPc} (going : s.exiting = false)
    (quiet : ∀ u, u ≠ t → (s.threads u).waits = false)
    (others : pc.waits = true ∨ s.kernel = true → ∀ u, u ≠ t → s.threads u = .user)
    (main : s.kernel = true → t = 0) : Lonely (s.become t pc) := by
  refine ⟨fun u waits v other => ?_, fun isKernel v other => ?_,
    fun no => absurd (going.symm.trans no) (by simp)⟩
  · by_cases self : u = t
    · subst self
      rw [State.becomeThread] at waits
      rw [State.becomeOther s _ other]
      exact others (.inl waits) v other
    · rw [State.becomeOther s _ self, quiet u self] at waits
      cases waits
  · rw [← main isKernel] at other
    rw [State.becomeOther s _ other]
    exact others (.inr isKernel) v other

theorem lonelyTurn (lonely : Lonely s) (busy : s.threads t ≠ .user) (frames : Frames s t s')
    (mine : (s'.threads t).waits = true → (s.threads t).waits = true ∨ s.kernel = true) :
    Lonely s' := by
  have alone (waits : (s'.threads t).waits = true) : ∀ u, u ≠ t → s.threads u = .user := by
    rcases mine waits with before | isKernel
    · exact lonely.wait t before
    · have others := lonely.kernel isKernel
      obtain rfl : t = 0 := by
        by_contra other
        exact busy (others t other)
      exact others
  refine ⟨fun u waits v other => ?_, fun isKernel u other => ?_, fun leaving => ?_⟩
  · by_cases self : u = t
    · subst self
      rw [frames.threads v other]
      exact alone waits v other
    · rw [frames.threads u self] at waits
      exact absurd (lonely.wait u waits t (Ne.symm self)) busy
  · rw [frames.kernel] at isKernel
    have others := lonely.kernel isKernel
    by_cases self : u = t
    · exact absurd (others t (self ▸ other)) busy
    · rw [frames.threads u self]
      exact others u other
  · rw [frames.exiting] at leaving
    obtain ⟨isUser, quiet⟩ := lonely.exiting leaving
    rw [frames.kernel]
    refine ⟨isUser, fun u => ?_⟩
    by_cases self : u = t
    · subst self
      cases waits : (s'.threads u).waits with
      | false => rfl
      | true =>
        rcases mine waits with before | isKernel
        · exact absurd ((quiet u).symm.trans before) (by simp)
        · exact absurd (isUser.symm.trans isKernel) (by simp)
    · rw [frames.threads u self]
      exact quiet u

theorem lonelyStep (threads : Threads s) (lonely : Lonely s) (lone : Lone s a)
    (ok : step s a = .ok s') : Lonely s' := by
  have nobody (all : ∀ u < s.count, s.threads u = .user) (u : Nat) : s.threads u = .user := by
    by_cases inside : u < s.count
    · exact all u inside
    · exact threads.inside u (Nat.le_of_not_lt inside)
  cases stepped ok with
  | calls entry _ _ same going =>
    cases entry with
    | exec =>
      refine lonelyCall going (fun u _ => ?_) (by simp [ParentPc.waits, same]) (by simp [same])
      by_cases inside : u < s.count
      · exact lone u inside
      · rw [threads.inside u (Nat.le_of_not_lt inside)]
        rfl
    | runTask =>
      have others := lonely.kernel same
      exact lonelyCall going (fun u other => by rw [others u other]; rfl) (fun _ => others)
        fun _ => rfl
    | wait =>
      exact lonelyCall going (fun u _ => by rw [nobody lone u]; rfl) (fun _ u _ => nobody lone u)
        (by simp [same])
  | @exits t all _ isUser =>
    have quiet (u : Nat) : ((s.become t (.exit .pop)).threads u).waits = false := by
      by_cases self : u = t
      · rw [self, State.becomeThread]
        rfl
      · rw [State.becomeOther s _ self, nobody all u]
        rfl
    refine ⟨fun u waits => ?_, fun isKernel => ?_, fun _ => ⟨isUser, quiet⟩⟩
    · exact absurd ((quiet u).symm.trans waits) (by simp)
    · exact absurd (isUser.symm.trans isKernel) (by simp)
  | @execute t _ _ _ _ _ here ok =>
    refine lonelyTurn lonely (by simp [here]) (executeFrames s' ok) fun waits => ?_
    unfold ParentPc.waits at waits
    split at waits
    · rename_i pid next now
      have sane := threads.sane t
      rw [here] at sane
      exact .inr (sane.mp (executeWaits s' ok pid next now).2)
    · cases waits
  | exec _ here ok =>
    exact lonelyTurn lonely (by simp [here]) (execFrames s' ok) (by simp [execWaits s' ok])
  | wait _ here ok =>
    exact lonelyTurn lonely (by simp [here]) (waitFrames s' ok) fun _ => .inl (by rw [here]; rfl)
  | clean _ here ok =>
    exact lonelyTurn lonely (by simp [here]) (cleanFrames s' ok) (by simp [cleanWaits s' ok])
  | child | exitChild | allocateTid => exact ⟨lonely.wait, lonely.kernel, lonely.exiting⟩

theorem lonelyApart (lonely : Lonely s) : Apart s a := by
  cases a with
  | run t granted =>
    intro met here _ u _ launches
    have waits : (s.threads t).waits = true := by
      unfold ParentPc.meets at here
      split at here
      · rename_i at_
        rw [at_]
        rfl
      · cases here
    by_cases self : u = t
    · subst self
      unfold ParentPc.meets at here
      split at here
      · rename_i at_
        rw [at_] at launches
        cases launches
      · cases here
    · rw [lonely.wait t waits u self] at launches
      cases launches
  | exec _ | runTask | wait _ _ | exit _ | child _ _ | exitChild _ _ | allocateTid => trivial

end Lonely
def Wait.child : Wait → Option Nat
  | .down child | .read child | .remove child _ | .free child _ _ => some child
  | .lock | .search _ | .unlock _ | .done _ => none

def Wait.leaving : Wait → Bool
  | .free _ _ _ | .unlock _ | .done _ => true
  | .lock | .search _ | .down _ | .read _ | .remove _ _ => false

def Wait.result : Wait → Option Int
  | .unlock result | .done result => some result
  | _ => none

def Child.Alive (kid : Child) : Prop :=
  kid.pc ≠ .absent ∧ (kid.pc = .ended → kid.started = true)

def Returned (s : State) (waited : List Int) (pid result : Int) : Prop :=
  (∃ r, Names s pid r ∧ (s.child r).finished = true ∧ result = (s.child r).exitCode ∧
    r ∉ s.children ∧ pid ∉ waited) ∨
  (result = -1 ∧ ∀ r, (s.child r).Alive → (s.child r).tid = pid → pid ∈ waited)

structure Awaits (s : State) (waited : List Int) : Prop where
  search : ∀ t pid rest, s.threads t = .wait pid (.search rest) →
    ∀ q ∈ s.children, q ∉ rest → (s.child q).tid ≠ pid
  found : ∀ t pid stage q, s.threads t = .wait pid stage → stage.child = some q →
    (s.child q).tid = pid
  unreturned : ∀ t pid stage, s.threads t = .wait pid stage → stage.child ≠ none →
    stage.leaving = true → pid ∉ waited
  returned : ∀ t pid stage result, s.threads t = .wait pid stage → stage.result = some result →
    Returned s waited pid result
  left : ∀ r, (s.child r).Alive → s.exiting = false → r ∈ s.children ∨
    ((s.child r).tid : Int) ∈ waited ∨
    ∃ t stage, s.threads t = .wait (s.child r).tid stage ∧ stage.leaving = true
  unwaited : ∀ r ∈ s.children, (s.child r).pc ≠ .absent → ((s.child r).tid : Int) ∉ waited
  known : ∀ pid ∈ waited, ∃ r, (s.child r).pc ≠ .absent ∧ (s.child r).tid = pid

section Awaits
variable {s s' : State} {waited : List Int} {t r : Nat} {pid : Int} {stage next : Wait}
  {granted : Bool} {result : Int} {caller : Caller} {kernel : Bool} {kid : Child}

theorem waitGoing (lonely : Lonely s) (here : s.threads t = .wait pid stage) :
    s.exiting = false := by
  cases leaving : s.exiting with
  | false => rfl
  | true =>
    have quiet := (lonely.exiting leaving).2 t
    rw [here] at quiet
    cases quiet

/-- A thread in process_wait is the only one that is not in user mode. -/
theorem waitSole (lonely : Lonely s) (here : s.threads t = .wait pid stage) {u : Nat} {pid' : Int}
    {stage' : Wait} (there : s.threads u = .wait pid' stage') : pid' = pid ∧ stage' = stage := by
  by_cases self : u = t
  · rw [self, here] at there
    cases there
    exact ⟨rfl, rfl⟩
  · rw [lonely.wait t (by rw [here]; rfl) u self] at there
    cases there

theorem waitNext (lonely : Lonely s) (here : s.threads t = .wait pid stage)
    (moved : s'.threads = Function.update s.threads t (.wait pid next)) {u : Nat} {pid' : Int}
    {stage' : Wait} (there : s'.threads u = .wait pid' stage') : pid' = pid ∧ stage' = next := by
  by_cases self : u = t
  · rw [self, moved, Function.update_self] at there
    cases there
    exact ⟨rfl, rfl⟩
  · rw [moved, Function.update_of_ne self, lonely.wait t (by rw [here]; rfl) u self] at there
    cases there

theorem searchListed {rest : List Nat} (tended : Tended s) (lonely : Lonely s)
    (here : s.threads t = .wait pid (.search rest)) (inside : r ∈ s.children) :
    Good s.kernel (s.record r) (s.child r) .listed := by
  refine tended.good r .listed (.inr ⟨rfl, inside, fun u b theirs => ?_⟩)
  by_cases self : u = t
  · rw [self, here] at theirs
    cases theirs
  · rw [lonely.wait t (by rw [here]; rfl) u self] at theirs
    cases theirs

theorem awaitsMove (awaits : Awaits s waited) (lonely : Lonely s)
    (here : s.threads t = .wait pid stage)
    (moved : s'.threads = Function.update s.threads t (.wait pid next))
    (child : s'.child = s.child) (children : s'.children = s.children)
    (exiting : s'.exiting = s.exiting)
    (search : ∀ rest, next = .search rest → ∀ q ∈ s.children, q ∉ rest → (s.child q).tid ≠ pid)
    (found : ∀ q, next.child = some q → (s.child q).tid = pid)
    (unreturned : next.child ≠ none → next.leaving = true → pid ∉ waited)
    (returned : ∀ result, next.result = some result → Returned s waited pid result)
    (leaving : stage.leaving = true → next.leaving = true) : Awaits s' waited := by
  have only {u : Nat} {pid' : Int} {stage' : Wait} :=
    @waitNext s s' t pid stage next lonely here moved u pid' stage'
  refine ⟨?_, ?_, ?_, ?_, ?_, ?_, ?_⟩
  · intro u pid' rest there
    obtain ⟨rfl, same⟩ := only there
    rw [children, child]
    exact search rest same.symm
  · intro u pid' stage' q there at'
    obtain ⟨rfl, rfl⟩ := only there
    rw [child]
    exact found q at'
  · intro u pid' stage' there
    obtain ⟨rfl, rfl⟩ := only there
    exact unreturned
  · intro u pid' stage' result there at'
    obtain ⟨rfl, rfl⟩ := only there
    simpa only [Returned, Names, child, children] using returned result at'
  · intro r alive going
    rw [child] at alive ⊢
    rw [children]
    rw [exiting] at going
    rcases awaits.left r alive going with inside | before | ⟨u, stage', there, out⟩
    · exact .inl inside
    · exact .inr (.inl before)
    · obtain ⟨same, rfl⟩ := waitSole lonely here there
      exact .inr (.inr ⟨t, next, by rw [moved, Function.update_self, same], leaving out⟩)
  · rw [children, child]
    exact awaits.unwaited
  · rw [child]
    exact awaits.known

theorem awaitsRemove (awaits : Awaits s waited) (lonely : Lonely s)
    (tended : Tended s) (here : s.threads t = .wait pid (.remove r result)) :
    Awaits ({ s with children := s.children.erase r }.become t
      (.wait pid (.free r result .test))) waited := by
  have tidOf := awaits.found t pid _ r here rfl
  have inside : r ∈ s.children :=
    (tended.linked t r (.taken (some result)) (by rw [here]; rfl)).mpr rfl
  have only {u : Nat} {pid' : Int} {stage' : Wait} :=
    @waitNext s (s.become t (.wait pid (.free r result .test))) t pid _ _ lonely here rfl u pid' stage'
  have present : (s.child r).pc ≠ .absent :=
    (tended.good r (.taken (some result)) (.inl ⟨t, by rw [here]; rfl⟩)).1.sound.present
  refine ⟨?_, ?_, ?_, ?_, ?_, ?_, awaits.known⟩
  · intro u pid' rest there
    cases (only there).2
  · intro u pid' stage' q there at'
    obtain ⟨rfl, rfl⟩ := only there
    cases at'
    exact tidOf
  · intro u pid' stage' there _ _
    obtain ⟨rfl, rfl⟩ := only there
    rw [← tidOf]
    exact awaits.unwaited r inside present
  · intro u pid' stage' value there at'
    obtain ⟨rfl, rfl⟩ := only there
    cases at'
  · intro q alive going
    by_cases same : q = r
    · subst same
      refine .inr (.inr ⟨t, .free q result .test, ?_, rfl⟩)
      exact (State.becomeThread s t _).trans (by rw [← tidOf]; rfl)
    · rcases awaits.left q alive going with there | before | ⟨u, stage', there, out⟩
      · exact .inl ((List.mem_erase_of_ne same).mpr there)
      · exact .inr (.inl before)
      · rw [(waitSole lonely here there).2] at out
        cases out
  · intro q there
    exact awaits.unwaited q (List.mem_of_mem_erase there)

theorem namesPresent (tids : Tids s) (named : Names s pid r) : (s.child r).pc ≠ .absent := by
  intro absent
  exact absurd ((tids.blank r absent).symm.trans named.1) (by simp)

theorem namesAlive (tids : Tids s) (named : Names s pid r) : (s.child r).Alive :=
  ⟨namesPresent tids named, fun _ => named.1⟩

theorem namesMade (tended : Tended s) (tids : Tids s) (named : Names s pid r) : r < s.records := by
  by_contra outside
  exact namesPresent tids named (tended.unmade r (Nat.le_of_not_lt outside))

theorem notesMem (x : Int) : x ∈ notes s waited (some pid) ↔
    x ∈ waited ∨ x = pid ∧ ∃ r < s.records, Names s pid r := by
  simp only [notes]
  by_cases named : ∃ r < s.records, Names s pid r
  · rw [if_pos named, List.mem_cons]
    exact ⟨fun mem => mem.symm.imp id fun same => ⟨same, named⟩,
      fun mem => mem.symm.imp (fun both => both.1) id⟩
  · rw [if_neg named]
    exact ⟨.inl, fun mem => mem.resolve_right fun both => named both.2⟩

theorem awaitsDone (family : Family s) (awaits : Awaits s waited)
    (lonely : Lonely s) (here : s.threads t = .wait pid (.done result)) :
    Awaits (s.become t .user) (notes s waited (some pid)) := by
  obtain ⟨tended, _, tids⟩ := family
  have returned := awaits.returned t pid _ result here rfl
  have nobody (u : Nat) : (s.become t .user).threads u = .user := by
    by_cases self : u = t
    · rw [self, State.becomeThread]
    · rw [State.becomeOther s _ self]
      exact lonely.wait t (by rw [here]; rfl) u self
  have never {u : Nat} {pid' : Int} {stage' : Wait}
      (there : (s.become t .user).threads u = .wait pid' stage') : False := by
    rw [nobody u] at there
    cases there
  refine ⟨fun u pid' rest there => (never there).elim,
    fun u pid' stage' q there => (never there).elim, fun u pid' stage' there => (never there).elim,
    fun u pid' stage' value there => (never there).elim, ?_, ?_, ?_⟩
  · intro r alive going
    rcases awaits.left r alive going with inside | before | ⟨u, stage', there, _⟩
    · exact .inl inside
    · exact .inr (.inl ((notesMem _).mpr (.inl before)))
    · have same := (waitSole lonely here there).1
      refine .inr (.inl ((notesMem _).mpr ?_))
      rcases returned with ⟨q, named, _⟩ | ⟨_, before⟩
      · exact .inr ⟨same, q, namesMade tended tids named, named⟩
      · have before := before r alive same
        rw [← same] at before
        exact .inl before
  · intro r inside present noted
    rcases (notesMem _).mp noted with before | ⟨same, q, _, named⟩
    · exact awaits.unwaited r inside present before
    · have own : r = q :=
        tids.distinct r q present (namesPresent tids named)
          (Int.ofNat.inj (same.trans named.2.symm))
      subst own
      rcases returned with ⟨p, taken, _, _, gone, _⟩ | ⟨_, before⟩
      · have own : r = p :=
          tids.distinct r p present (namesPresent tids taken)
            (Int.ofNat.inj (same.trans taken.2.symm))
        exact gone (own ▸ inside)
      · have before := before r (namesAlive tids named) named.2
        rw [← same] at before
        exact awaits.unwaited r inside present before
  · intro x noted
    rcases (notesMem _).mp noted with before | ⟨rfl, q, _, named⟩
    · exact awaits.known x before
    · have present := namesPresent tids named
      exact ⟨q, present, named.2⟩

theorem quietElse (lonely : Lonely s) (busy : s.threads t ≠ .user)
    (elsewhere : (s.threads t).waits = false) (u : Nat) (pid : Int) (stage : Wait) :
    s.threads u ≠ .wait pid stage := by
  intro there
  have self : t ≠ u := by
    rintro rfl
    rw [there] at elsewhere
    cases elsewhere
  exact busy (lonely.wait u (by rw [there]; rfl) t self)

theorem awaitsElse (awaits : Awaits s waited) (frames : Frames s t s')
    (quiet : ∀ u pid stage, s.threads u ≠ .wait pid stage)
    (mine : ∀ pid stage, s'.threads t = .wait pid stage → stage = .lock)
    (left : ∀ r, (s'.child r).Alive → s.exiting = false →
      r ∈ s'.children ∨ ((s'.child r).tid : Int) ∈ waited)
    (unwaited : ∀ r ∈ s'.children, (s'.child r).pc ≠ .absent → ((s'.child r).tid : Int) ∉ waited)
    (present : ∀ r, (s.child r).pc ≠ .absent → (s'.child r).pc ≠ .absent ∧
      (s'.child r).tid = (s.child r).tid) : Awaits s' waited := by
  have after {u : Nat} {pid : Int} {stage : Wait} (there : s'.threads u = .wait pid stage) :
      stage = .lock := by
    by_cases self : u = t
    · exact mine pid stage (self ▸ there)
    · rw [frames.threads u self] at there
      exact absurd there (quiet u pid stage)
  refine ⟨?_, ?_, ?_, ?_, ?_, unwaited, ?_⟩
  · intro u pid rest there
    cases after there
  · intro u pid stage q there at'
    rw [after there] at at'
    cases at'
  · intro u pid stage there _ out
    rw [after there] at out
    cases out
  · intro u pid stage result there at'
    rw [after there] at at'
    cases at'
  · intro r alive going
    exact (left r alive (frames.exiting ▸ going)).imp id .inl
  · intro pid before
    obtain ⟨r, there, same⟩ := awaits.known pid before
    exact ⟨r, (present r there).1, by rw [(present r there).2]; exact same⟩

theorem aliveLeft (awaits : Awaits s waited)
    (quiet : ∀ u pid stage, s.threads u = .wait pid stage → stage.leaving = false)
    (alive : (s.child r).Alive) (going : s.exiting = false) :
    r ∈ s.children ∨ ((s.child r).tid : Int) ∈ waited := by
  rcases awaits.left r alive going with inside | before | ⟨u, stage, there, out⟩
  · exact .inl inside
  · exact .inr before
  · rw [quiet u _ stage there] at out
    cases out

theorem overStarted (sound : (s.child r).Sound) (finished : (s.child r).finished = true) :
    (s.child r).started = true := by
  unfold Child.finished at finished
  split at finished
  · rename_i here
    exact sound.after (.inr ⟨_, here⟩)
  · rename_i here
    exact sound.after (.inr ⟨_, here⟩)
  · exact finished
  · cases finished

theorem reapingOver {rec : Record} {next : FreeChild}
    (good : Good kernel rec kid (.reaping (some result) next)) :
    kid.finished = true ∧ result = kid.exitCode := by
  cases next with
  | test | freeEditing => exact ⟨good.1.finished rfl, good.2 result rfl⟩
  | free => exact ⟨good.2.1, good.2.2.2 result rfl⟩
  | setExited | clearParent | up => exact good.elim

section Waiting
attribute [local simp] Wait.child Wait.leaving Wait.result

theorem waitAwaits (family : Family s) (awaits : Awaits s waited)
    (lonely : Lonely s) (here : s.threads t = .wait pid stage) :
    Ends (processWait s t pid stage) fun s' =>
      Awaits s' (notes s waited (returns s (.run t granted))) := by
  have going := waitGoing lonely here
  obtain ⟨tended, threads, tids⟩ := family
  have move {s' : State} {next : Wait} :=
    @awaitsMove s s' waited t pid stage next awaits lonely here
  simp only [returns, here]
  cases stage with
  | lock =>
    simp only [processWait, endsBind, endsAllow, State.acquire, endsOk, notes]
    intro _
    refine move rfl rfl rfl rfl ?_ (by simp) (by simp)
      (by simp) (by simp)
    intro rest same q inside outside
    cases same
    exact absurd inside outside
  | search rest =>
    have listed (q : Nat) (inside : q ∈ s.children) := searchListed tended lonely here inside
    cases rest with
    | nil =>
      refine endsOk.mpr (move rfl rfl rfl rfl (by simp)
        (by simp) (by simp) ?_ (by simp))
      intro result same
      cases same
      refine .inr ⟨rfl, fun r alive tidOf => ?_⟩
      have quiet (u : Nat) (pid' : Int) (stage' : Wait) (there : s.threads u = .wait pid' stage') :
          stage'.leaving = false := by
        rw [(waitSole lonely here there).2]
        rfl
      rcases aliveLeft awaits quiet alive going with inside | before
      · exact absurd tidOf (awaits.search t pid [] here r inside (by simp))
      · rwa [tidOf] at before
    | cons child rest =>
      simp only [processWait, endsBind, endsAllow, Record.use, endsOk, notes]
      intro _
      have inside := threads.rest t child (by rw [here]; exact List.mem_cons_self)
      have named := (listed child inside).2.1
      by_cases found : (s.record child).pid = pid
      · rw [if_pos found]
        refine move rfl rfl rfl rfl (by simp) ?_ (by simp)
          (by simp) (by simp)
        intro q same
        cases same
        exact named.symm.trans found
      · rw [if_neg found]
        refine move rfl rfl rfl rfl ?_ (by simp) (by simp)
          (by simp) (by simp)
        intro rest' same q there outside tidOf
        cases same
        by_cases first : q = child
        · subst first
          exact found (named.trans tidOf)
        · exact awaits.search t pid _ here q there
            (fun mem => outside ((List.mem_cons.mp mem).resolve_left first)) tidOf
  | down child =>
    simp only [processWait, endsBind, Record.endsDownWaiting, endsOk, notes]
    intro _ _
    refine move rfl rfl rfl rfl (by simp) ?_ (by simp) (by simp) (by simp)
    intro q same
    exact awaits.found t pid _ q here same
  | read child =>
    simp only [processWait, endsBind, endsAllow, Record.use, endsOk, notes]
    intro _
    refine move rfl rfl rfl rfl (by simp) ?_ (by simp) (by simp) (by simp)
    intro q same
    exact awaits.found t pid _ q here same
  | remove child result =>
    simp only [processWait, endsBind, endsAllow, State.check, endsOk, notes]
    exact fun _ => awaitsRemove awaits lonely tended here
  | free child result stage =>
    have side : (s.threads t).side = some (child, .reaping (some result) stage) := by
      rw [here]
      rfl
    have tidOf := awaits.found t pid _ child here rfl
    have fresh := awaits.unreturned t pid _ here (by simp [Wait.child]) rfl
    simp only [processWait, endsBind]
    rintro ⟨value, next⟩ _
    cases next with
    | some next =>
      refine endsOk.mpr (move rfl rfl rfl rfl (by simp) ?_ (by simp [fresh])
        (by simp) (by simp))
      intro q same
      cases same
      exact tidOf
    | none =>
      refine endsOk.mpr (move rfl rfl rfl rfl (by simp)
        (by simp) (by simp) ?_ (by simp))
      intro v same
      cases same
      obtain ⟨finished, code⟩ := reapingOver (tended.good child _ (.inl ⟨t, side⟩))
      have present : (s.child child).pc ≠ .absent := fun absent => by
        simp [Child.finished, absent] at finished
      refine .inl ⟨child, ⟨overStarted (tids.sound child present) finished, tidOf⟩, finished, code, ?_, fresh⟩
      intro inside
      cases (tended.linked t child _ side).mp inside
  | unlock result =>
    simp only [processWait, endsBind, endsAllow, State.release, endsOk, notes]
    intro _
    refine move rfl rfl rfl rfl (by simp) (by simp)
      (by simp) ?_ (by simp)
    intro v same
    exact awaits.returned t pid _ v here same
  | done result => exact endsOk.mpr (awaitsDone ⟨tended, threads, tids⟩ awaits lonely here)

end Waiting

theorem executeAwaits {stage : Execute} (family : Family s)
    (awaits : Awaits s waited) (lonely : Lonely s) (here : s.threads t = .execute caller stage) :
    Ends (processExecute s t caller granted stage) fun s' => Awaits s' waited := by
  have quiet := @quietElse s t lonely (by rw [here]; simp) (by rw [here]; rfl)
  have left {r : Nat} := @aliveLeft s waited r awaits
    fun u pid stage' there => absurd there (quiet u pid stage')
  have side : (s.threads t).side = stage.side := by rw [here]; rfl
  obtain ⟨tended, threads, tids⟩ := family
  intro s' ok
  have otherwise := @awaitsElse s s' waited t awaits (executeFrames s' ok) quiet
    fun pid stage' there => (executeWaits s' ok pid stage' there).1
  obtain ⟨⟨child, _⟩ | ⟨q, rfl, _, child⟩, children | ⟨q, push, children⟩⟩ := executeMakes s' ok
  · refine otherwise ?_ ?_ ?_ <;> rw [child]
    · rw [children]
      exact fun r => left
    · rw [children]
      exact awaits.unwaited
    · exact fun r present => ⟨present, rfl⟩
  · subst push
    have absent : (s.child q).pc = .absent := (tended.good q .fresh (.inl ⟨t, side⟩)).2
    refine otherwise ?_ ?_ ?_ <;> rw [child]
    · rw [children]
      exact fun r alive going => (left alive going).imp (List.mem_cons_of_mem q) id
    · intro r inside present
      rw [children] at inside
      rcases List.mem_cons.mp inside with rfl | before
      · exact absurd absent present
      · exact awaits.unwaited r before present
    · exact fun r present => ⟨present, rfl⟩
  · have downed := (tended.linked t q .downed side).mpr rfl
    have absent : (s.child q).pc = .absent := (tended.good q .downed (.inl ⟨t, side⟩)).2
    have other {r : Nat} (self : r ≠ q) : s'.child r = s.child r := by
      rw [child, Function.update_of_ne self]
    refine otherwise ?_ ?_ ?_
    · intro r alive going
      rw [children]
      by_cases self : r = q
      · exact .inl (self ▸ downed)
      · rw [other self] at alive ⊢
        exact left alive going
    · intro r inside present before
      by_cases self : r = q
      · rw [self, child, Function.update_self] at before
        obtain ⟨p, there, same⟩ := awaits.known _ before
        exact Nat.lt_irrefl _ (Int.ofNat.inj same ▸ tids.below p there)
      · rw [other self] at present before
        exact awaits.unwaited r (children ▸ inside) present before
    · intro r present
      have self : r ≠ q := fun self => present (self ▸ absent)
      rw [other self]
      exact ⟨present, rfl⟩
  · cases push

theorem execErases {stage : Exec} : Ends (handlerExec s t stage) fun s' =>
    ∀ q ∈ s.children, q ∉ s'.children → ∃ own, stage = .remove own q := by
  cases stage with
  | remove own child =>
    simp only [handlerExec, endsBind, endsAllow, State.check, endsOk]
    intro _ q inside outside
    by_cases same : q = child
    · exact ⟨own, by rw [same]⟩
    · exact absurd ((List.mem_erase_of_ne same).mpr inside) outside
  | search r tid rest => cases rest <;> simp +contextual [handlerExec, State.become]
  | _ => simp +contextual [handlerExec, State.become, State.put]

theorem silentLock (silent : (s'.threads t).waits = false) (pid : Int) (stage : Wait)
    (there : s'.threads t = .wait pid stage) : stage = .lock := by
  rw [there] at silent
  cases silent

section Waits
variable (family : Family s) (awaits : Awaits s waited)
include family awaits

theorem execAwaits {stage : Exec} (lonely : Lonely s) (here : s.threads t = .exec stage) :
    Ends (handlerExec s t stage) fun s' => Awaits s' waited := by
  have quiet := @quietElse s t lonely (by rw [here]; simp) (by rw [here]; rfl)
  have sane := family.threads.sane t
  rw [here] at sane
  intro s' ok
  have lasts := execLasts s' ok
  have kept (r : Nat) (alive : (s.child r).Alive) (inside : r ∈ s.children) : r ∈ s'.children := by
    by_contra outside
    obtain ⟨own, rfl⟩ := execErases s' ok r inside outside
    obtain rfl := sane.2
    have failing := family.tended.good r .failing (.inl ⟨t, by rw [here]; rfl⟩)
    exact absurd (alive.2 failing.2.1) (by simp [failing.2.2])
  refine awaitsElse awaits (execFrames s' ok) quiet (silentLock (execWaits s' ok)) ?_ ?_ ?_ <;>
    rw [lasts.child]
  · intro r alive going
    exact (aliveLeft awaits (fun u pid stage' there => absurd there (quiet u pid stage')) alive
      going).imp (kept r alive) id
  · exact fun r inside => awaits.unwaited r (lasts.children r inside)
  · exact fun r present => ⟨present, rfl⟩

theorem cleanAwaits {stage : Clean} (lonely : Lonely s) (here : s.threads t = .exit stage) :
    Ends (processExitTail s t stage) fun s' => Awaits s' waited := by
  have quiet := @quietElse s t lonely (by rw [here]; simp) (by rw [here]; rfl)
  have leaving := (family.threads.exits t stage here).1
  intro s' ok
  have lasts := cleanLasts s' ok
  refine awaitsElse awaits (cleanFrames s' ok) quiet (silentLock (cleanWaits s' ok)) ?_ ?_ ?_ <;>
    rw [lasts.child]
  · rw [leaving]
    exact fun r _ no => by cases no
  · exact fun r inside => awaits.unwaited r (lasts.children r inside)
  · exact fun r present => ⟨present, rfl⟩

theorem awaitsKept (advances : ∀ r, (s.child r).pc ≠ .absent → Advances s s' r)
    (tid : ∀ r, (s'.child r).tid = (s.child r).tid)
    (alive : ∀ r, (s'.child r).Alive → (s.child r).Alive)
    (present : ∀ r, (s'.child r).pc ≠ .absent → (s.child r).pc ≠ .absent)
    (children : s'.children = s.children) (exiting : s'.exiting = false → s.exiting = false)
    (before : ∀ u pid stage, s'.threads u = .wait pid stage →
      stage = .lock ∨ s.threads u = .wait pid stage)
    (after : ∀ u pid stage, s.threads u = .wait pid stage → s'.threads u = .wait pid stage) :
    Awaits s' waited := by
  refine ⟨?_, ?_, ?_, ?_, ?_, ?_, ?_⟩
  · intro u pid rest there q inside
    rcases before u pid _ there with no | there
    · cases no
    · rw [tid]
      exact awaits.search u pid rest there q (children ▸ inside)
  · intro u pid stage q there at'
    rcases before u pid _ there with rfl | there
    · cases at'
    · rw [tid]
      exact awaits.found u pid stage q there at'
  · intro u pid stage there at' out
    rcases before u pid _ there with rfl | there
    · cases out
    · exact awaits.unreturned u pid stage there at' out
  · intro u pid stage result there at'
    rcases before u pid _ there with rfl | there
    · cases at'
    · rcases awaits.returned u pid stage result there at' with
        ⟨r, named, finished, code, gone, fresh⟩ | ⟨none, all⟩
      · have advances := advances r (namesPresent family.tids named)
        refine .inl ⟨r, ⟨advances.started named.1, by rw [tid]; exact named.2⟩,
          (advances.finished finished).1, by rw [(advances.finished finished).2]; exact code, ?_, fresh⟩
        rw [children]
        exact gone
      · refine .inr ⟨none, fun r there same => ?_⟩
        rw [tid] at same
        exact all r (alive r there) same
  · intro r there going
    rw [children, tid]
    rcases awaits.left r (alive r there) (exiting going) with inside | noted | ⟨u, stage, at', out⟩
    · exact .inl inside
    · exact .inr (.inl noted)
    · exact .inr (.inr ⟨u, stage, after u _ stage at', out⟩)
  · intro r inside there
    rw [tid]
    exact awaits.unwaited r (children ▸ inside) (present r there)
  · intro pid noted
    obtain ⟨r, there, same⟩ := awaits.known pid noted
    exact ⟨r, (advances r there).present, by rw [tid]; exact same⟩

theorem awaitsCall {pc : ParentPc} (user : s.threads t = .user)
    (entered : ∀ pid stage, pc = .wait pid stage → stage = .lock) :
    Awaits (s.become t pc) waited := by
  refine awaitsKept family awaits (fun r present => advancesSame present rfl id) (fun _ => rfl)
    (fun _ => id) (fun _ => id) rfl id ?_ ?_
  · intro u pid stage there
    by_cases self : u = t
    · rw [self, State.becomeThread] at there
      exact .inl (entered pid stage there)
    · rw [State.becomeOther s _ self] at there
      exact .inr there
  · intro u pid stage there
    by_cases self : u = t
    · rw [self, user] at there
      cases there
    · rw [State.becomeOther s _ self]
      exact there

theorem awaitsChild (advances : ∀ r, (s.child r).pc ≠ .absent → Advances s s' r)
    (child : s'.child = Function.update s.child r kid) (threads : s'.threads = s.threads)
    (children : s'.children = s.children) (exiting : s'.exiting = s.exiting)
    (tid : kid.tid = (s.child r).tid) (present : (s.child r).pc ≠ .absent)
    (running : (s.child r).pc ≠ .ended) : Awaits s' waited := by
  have other {q : Nat} (self : q ≠ r) : s'.child q = s.child q := by
    rw [child, Function.update_of_ne self]
  refine awaitsKept family awaits advances ?_ ?_ ?_ children (fun going => exiting ▸ going)
    (fun u pid stage there => .inr (threads ▸ there)) fun u pid stage there => by rw [threads]; exact there
  · intro q
    by_cases self : q = r
    · rw [self, child, Function.update_self, tid]
    · rw [other self]
  · intro q alive
    by_cases self : q = r
    · subst self
      exact ⟨present, fun ended => absurd ended running⟩
    · rwa [other self] at alive
  · intro q there
    by_cases self : q = r
    · exact self ▸ present
    · rwa [other self] at there

theorem awaitsStep {a : Action} (lonely : Lonely s) (ok : step s a = .ok s') :
    Awaits s' (notes s waited (returns s a)) := by
  have advances {r : Nat} (present : (s.child r).pc ≠ .absent) := stepAdvances family present ok
  cases stepped ok with
  | calls entry _ user =>
    cases entry with
    | exec | runTask => exact awaitsCall family awaits user fun _ _ no => by cases no
    | wait => exact awaitsCall family awaits user fun _ _ same => by cases same; rfl
  | @exits t all inside =>
    have called : Awaits (s.become t (.exit .pop)) waited :=
      awaitsCall family awaits (all t inside) fun _ _ no => by cases no
    exact ⟨called.search, called.found, called.unreturned, called.returned,
      (fun r _ no => by cases no), called.unwaited, called.known⟩
  | execute _ here ok =>
    simp only [returns, here]
    exact executeAwaits family awaits lonely here s' ok
  | exec _ here ok =>
    simp only [returns, here]
    exact execAwaits family awaits lonely here s' ok
  | wait _ here ok => exact waitAwaits family awaits lonely here s' ok
  | clean _ here ok =>
    simp only [returns, here]
    exact cleanAwaits family awaits lonely here s' ok
  | @child q _ value kid ran =>
    have present := runPresent ran
    have grows := growsRun s.kernel (family.tids.sound q present) (value, kid) ran
    have ended : (s.child q).pc ≠ .ended := fun ended => by simp [runChild, ended] at ran
    exact awaitsChild family awaits (fun r => advances) rfl rfl rfl rfl grows.tid present ended
  | exitChild running =>
    exact awaitsChild family awaits (fun r => advances) rfl rfl rfl rfl (by rfl)
      (by rw [running]; simp) (by rw [running]; simp)
  | allocateTid =>
    exact awaitsKept family awaits (fun r => advances) (fun _ => rfl) (fun _ => id) (fun _ => id)
      rfl id (fun _ _ _ there => .inr there) fun _ _ _ there => there

end Waits

end Awaits

end Pintos.Children
