import Pintos.Children.Step

/-! What a call of process_execute leaves behind when an allocation in it fails: one thread executes
the statements of the machine one after the other, and the pages and blocks it has obtained and
not given back are counted. -/
namespace Pintos.Children
open Machine

inductive Block where
  | fnCopy
  | childElem
  | editing
  | initPcb
  | thread
  deriving DecidableEq, Repr

def Execute.asks : Execute → Option Block
  | .page => some .fnCopy
  | .record => some .childElem
  | .editing _ => some .editing
  | .initPcb _ => some .initPcb
  | .create _ => some .thread
  | _ => none

abbrev Pattern := Block → Bool

def Execute.granted (pattern : Pattern) (stage : Execute) : Bool := stage.asks.all pattern

def Execute.held (granted : Bool) (blocks : List Block) : Execute → List Block
  | .dropEditing _ => blocks.erase .editing
  | .drop _ => blocks.erase .childElem
  | .setPid _ tid => if tid = -1 then blocks.erase .fnCopy else blocks
  | stage => if granted then stage.asks.toList ++ blocks else blocks

def executeFrom (t : Nat) (pattern : Pattern) (s : State) (blocks : List Block) :
    Nat → Except Fault (State × List Block)
  | 0 => .ok (s, blocks)
  | more + 1 =>
    match s.threads t with
    | .execute caller stage => do
      let s ← processExecute s t caller (stage.granted pattern) stage
      executeFrom t pattern s (stage.held (stage.granted pattern) blocks) more
    | _ => .ok (s, blocks)

def ParentPc.tid : ParentPc → Option Int
  | .exec (.lock _ tid) | .exec (.done _ tid) | .wait tid .lock => some tid
  | _ => none

def callExecute (s : State) (t : Nat) (caller : Caller) (pattern : Pattern) :
    Except Fault (Option Int × State × List Block) := do
  let (s, blocks) ← executeFrom t pattern (s.become t (.execute caller .page)) [] 10
  .ok ((s.threads t).tid, s, blocks)

structure Atomic (s s' : State) (blocks : List Block) : Prop where
  children : s'.children = s.children
  live : ∀ r ∈ s'.children, (s'.record r).freed = false
  released : blocks = []

def Execute.Keeps (blocks : List Block) : Execute → Prop
  | .page => False
  | .create _ | .setPid _ _ => .initPcb ∈ blocks
  | .down _ => .initPcb ∈ blocks ∧ .fnCopy ∈ blocks
  | _ => .fnCopy ∈ blocks

def Held (t : Nat) (s : State) (blocks : List Block) : Prop :=
  match s.threads t with
  | .execute _ stage => stage.Keeps blocks
  | _ => blocks ≠ []

section Call
variable {s : State} {t : Nat} {caller : Caller} {pattern : Pattern} {blocks : List Block}
  {stage : Execute}
  {more : Nat}

theorem keepsSome (keeps : stage.Keeps blocks) : blocks ≠ [] := by
  rintro rfl
  cases stage <;> simp [Execute.Keeps] at keeps

theorem heldSome (held : Held t s blocks) : blocks ≠ [] := by
  unfold Held at held
  split at held
  · exact keepsSome held
  · exact held

theorem heldRefused {made : Option Nat} (left : blocks ≠ []) :
    Held t (s.become t (refused made caller)) blocks := by
  unfold Held
  rw [State.becomeThread]
  cases caller <;> exact left

theorem heldReturned {r : Nat} {tid : Int} (left : blocks ≠ []) :
    Held t (s.become t (returned r tid caller)) blocks := by
  unfold Held
  rw [State.becomeThread]
  cases caller with
  | handler =>
    by_cases failed : tid = -1
    · rw [returned, if_pos failed]; exact left
    · rw [returned, if_neg failed]; exact left
  | runTask => exact left

theorem heldStage (next : Execute) (keeps : next.Keeps blocks) :
    Held t (s.become t (.execute caller next)) blocks := by
  unfold Held
  rw [State.becomeThread]
  exact keeps

theorem executeHeld (granted : Bool) (keeps : stage.Keeps blocks) :
    Ends (processExecute s t caller granted stage) fun s' => Held t s' (stage.held granted blocks) := by
  cases stage with
  | page => exact keeps.elim
  | record =>
    cases granted with
    | true => exact endsOk.mpr (heldStage (.lock _) (List.mem_cons_of_mem _ keeps))
    | false => exact endsOk.mpr (heldRefused (keepsSome keeps))
  | lock r =>
    simp only [processExecute, endsBind, endsAllow, State.acquire, endsOk]
    exact fun _ => heldStage (.push r) (by cases granted <;> exact keeps)
  | push r =>
    simp only [processExecute, endsBind, endsAllow, State.check, endsOk]
    exact fun _ => heldStage (.unlock r) (by cases granted <;> exact keeps)
  | unlock r =>
    simp only [processExecute, endsBind, endsAllow, State.release, endsOk]
    exact fun _ => heldStage (.editing r) (by cases granted <;> exact keeps)
  | editing r =>
    cases granted with
    | true =>
      refine endsBind.mpr (endsAllow.mpr fun _ => endsOk.mpr ?_)
      exact heldStage (.initPcb r) (List.mem_cons_of_mem _ keeps)
    | false => exact endsOk.mpr (heldStage (.drop r) keeps)
  | initPcb r =>
    cases granted with
    | true => exact endsOk.mpr (heldStage (.down r) ⟨List.mem_cons_self, List.mem_cons_of_mem _ keeps⟩)
    | false => exact endsOk.mpr (heldStage (.dropEditing r) keeps)
  | down r =>
    simp only [processExecute, endsBind, Record.endsDownEditing, endsOk]
    exact fun _ _ _ => heldStage (.create r) (by cases granted <;> exact keeps.1)
  | create r =>
    cases granted with
    | true => exact endsOk.mpr (heldStage (.setPid r _) (List.mem_cons_of_mem _ keeps))
    | false => exact endsOk.mpr (heldStage (.setPid r (-1)) keeps)
  | setPid r tid =>
    have left : .initPcb ∈ Execute.held granted blocks (.setPid r tid) := by
      by_cases failed : tid = -1
      · rw [Execute.held, if_pos failed]
        exact (List.mem_erase_of_ne (by decide)).mpr keeps
      · rw [Execute.held, if_neg failed]
        exact keeps
    simp only [processExecute, endsBind, endsAllow, Record.use, endsOk]
    exact fun _ => heldReturned (List.ne_nil_of_mem left)
  | dropEditing r =>
    have left : .fnCopy ∈ blocks.erase .editing := (List.mem_erase_of_ne (by decide)).mpr keeps
    simp only [processExecute, endsBind, Record.endsFreeEditing, endsOk]
    exact fun _ _ => heldStage (.drop r) left
  | drop r =>
    have left : .fnCopy ∈ blocks.erase .childElem := (List.mem_erase_of_ne (by decide)).mpr keeps
    simp only [processExecute, endsBind, Record.endsFree, endsOk]
    exact fun _ => heldRefused (List.ne_nil_of_mem left)

theorem executeFromHeld (held : Held t s blocks) :
    Ends (executeFrom t pattern s blocks more) fun result => result.2 ≠ [] := by
  induction more generalizing s blocks with
  | zero => exact endsOk.mpr (heldSome held)
  | succ more ih =>
    unfold executeFrom
    split
    · rename_i caller stage here
      have keeps : stage.Keeps blocks := by
        unfold Held at held
        rwa [here] at held
      rw [endsBind]
      exact fun s' ok => ih (executeHeld _ keeps s' ok)
    · exact endsOk.mpr (heldSome held)

theorem executeFromDone (done : ∀ caller stage, s.threads t ≠ .execute caller stage) :
    executeFrom t pattern s blocks more = .ok (s, blocks) := by
  cases more with
  | zero => rfl
  | succ more =>
    unfold executeFrom
    split
    · rename_i caller stage here
      exact absurd here (done caller stage)
    · rfl

theorem executeFromPage (here : s.threads t = .execute caller .page) :
    executeFrom t pattern s [] (more + 1) = executeFrom t pattern
      (s.become t (if pattern .fnCopy then .execute caller .record else refused none caller))
      (if pattern .fnCopy then [.fnCopy] else []) more := by
  rw [executeFrom, here]
  rfl

theorem callDenied (denied : pattern .fnCopy = false) : callExecute s t caller pattern =
    .ok (some (-1), (s.become t (.execute caller .page)).become t (refused none caller), []) := by
  have done : ∀ u : State, executeFrom t pattern (u.become t (refused none caller)) [] 9 =
      .ok (u.become t (refused none caller), []) := by
    refine fun u => executeFromDone fun caller' stage => ?_
    rw [State.becomeThread]
    cases caller <;> simp [refused]
  rw [callExecute, executeFromPage (State.becomeThread _ _ _), denied]
  simp only [Bool.false_eq_true, if_false, done]
  show Except.ok (ParentPc.tid (State.threads _ t), _) = _
  rw [State.becomeThread]
  cases caller <;> rfl

theorem callHeld (granted : pattern .fnCopy = true) :
    Ends (callExecute s t caller pattern) fun result => result.2.2 ≠ [] := by
  rw [callExecute, executeFromPage (State.becomeThread _ _ _), granted, endsBind]
  intro result ok
  exact endsOk.mpr (executeFromHeld (heldStage .record List.mem_cons_self) result ok)

end Call

section Failure
variable {s s' : State} {t : Nat} {caller : Caller} {pattern : Pattern} {blocks : List Block}

/-- Of the five allocations, only the failure of the first one leaves nothing behind. -/
theorem failedLaunch (live : ∀ r ∈ s.children, (s.record r).freed = false)
    (failed : callExecute s t caller pattern = .ok (some (-1), s', blocks)) :
    Atomic s s' blocks ↔ pattern .fnCopy = false := by
  constructor
  · intro atomic
    by_contra granted
    exact callHeld (Bool.of_not_eq_false granted) _ failed atomic.released
  · intro denied
    rw [callDenied denied] at failed
    cases failed
    exact ⟨rfl, live, rfl⟩

theorem failedLaunchExample : ∃ s' blocks,
    callExecute (boot false 1 3) 0 .handler (fun _ => false) = .ok (some (-1), s', blocks) ∧
      Atomic (boot false 1 3) s' blocks := by
  have failed : callExecute (boot false 1 3) 0 .handler (fun _ => false) = .ok _ := callDenied rfl
  exact ⟨_, [], failed, (failedLaunch (by simp [boot]) failed).mpr rfl⟩

theorem freedRecordLinked : ∃ s' blocks,
    callExecute (boot false 1 3) 0 .handler (fun b => decide (b ≠ .editing)) =
        .ok (some (-1), s', blocks) ∧
      ¬ Atomic (boot false 1 3) s' blocks := by
  have found : passes (callExecute (boot false 1 3) 0 .handler (fun b => decide (b ≠ .editing)))
      (fun result => decide (result.1 = some (-1) ∧ 0 ∈ result.2.1.children ∧
        (result.2.1.record 0).freed = true)) = true := by decide
  obtain ⟨⟨tid, s', blocks⟩, ran, here⟩ := passesOk found
  obtain ⟨rfl, linked, freed⟩ := of_decide_eq_true here
  refine ⟨s', blocks, ran, fun atomic => ?_⟩
  have live := atomic.live 0 linked
  rw [freed] at live
  cases live

end Failure
end Pintos.Children
