import Mathlib.Tactic.Basic

/-! Runs of a machine whose step may fail. A step is a total function from a
state and an action to a new state or a fault; a run is a finite sequence of
steps that did not fault, each of them allowed in the state it started from.
Nothing here knows what the states are. -/
namespace Pintos.Machine

section Faults
variable {ε α β : Type}

theorem bindOk {x : Except ε α} {f : α → Except ε β} {r : β} :
    (x >>= f) = .ok r ↔ ∃ a, x = .ok a ∧ f a = .ok r := by
  cases x with
  | error e | ok a => simp [bind, Except.bind]

theorem bindError {x : Except ε α} {f : α → Except ε β} {e : ε} :
    (x >>= f) = .error e ↔ x = .error e ∨ ∃ a, x = .ok a ∧ f a = .error e := by
  cases x with
  | error e | ok a => simp [bind, Except.bind]

def Never (bad : ε → Prop) (x : Except ε α) : Prop := ∀ e, x = .error e → ¬ bad e

variable {bad : ε → Prop}

theorem neverOk (a : α) : Never bad (.ok a) := fun _ h => by cases h

theorem neverError {e : ε} (good : ¬ bad e) : Never bad (.error e : Except ε α) :=
  fun _ h => by cases h; exact good

theorem neverBind {x : Except ε α} {f : α → Except ε β} (first : Never bad x)
    (next : ∀ a, x = .ok a → Never bad (f a)) : Never bad (x >>= f) := by
  intro e h
  rcases bindError.mp h with stops | ⟨a, ok, stops⟩
  · exact first e stops
  · exact next a ok e stops

def Lockstep (rel : α → β → Prop) : Except ε α → Except ε β → Prop
  | .ok a, .ok b => rel a b
  | .error e, .error f => e = f
  | _, _ => False

theorem lockstepBind {γ δ : Type} {rel : α → β → Prop} {rel' : γ → δ → Prop} {x : Except ε α}
    {y : Except ε β} {f : α → Except ε γ} {g : β → Except ε δ} (first : Lockstep rel x y)
    (next : ∀ a b, rel a b → Lockstep rel' (f a) (g b)) : Lockstep rel' (x >>= f) (y >>= g) := by
  cases x with
  | error e =>
    cases y with
    | error e' => exact first
    | ok b => exact first.elim
  | ok a =>
    cases y with
    | error e => exact first.elim
    | ok b => exact next a b first

theorem lockstepOk {rel : α → β → Prop} {a : α} {y : Except ε β}
    (both : Lockstep rel (.ok a) y) : ∃ b, y = .ok b ∧ rel a b := by
  cases y with
  | error e => exact both.elim
  | ok b => exact ⟨b, rfl, both⟩

section Ends
variable {post : α → Prop}

def Ends (x : Except ε α) (post : α → Prop) : Prop := ∀ a, x = .ok a → post a

@[simp] theorem endsOk {a : α} : Ends (.ok a : Except ε α) post ↔ post a := by
  simp [Ends]

@[simp] theorem endsError {e : ε} : Ends (.error e : Except ε α) post ↔ True := by
  simp [Ends]

@[simp] theorem endsBind {x : Except ε β} {f : β → Except ε α} :
    Ends (x >>= f) post ↔ Ends x fun b => Ends (f b) post := by
  cases x with
  | error e | ok b => simp [Ends, bind, Except.bind]

@[simp] theorem endsIte {c : Prop} [Decidable c] {x y : Except ε α} :
    Ends (if c then x else y) post ↔ (c → Ends x post) ∧ (¬ c → Ends y post) := by
  by_cases holds : c <;> simp [holds]

theorem endsAfter {x : Except ε α} {mid : α → Prop} (first : Ends x mid)
    (next : Ends x fun a => mid a → post a) : Ends x post :=
  fun a ok => next a ok (first a ok)

end Ends

section Fails
variable {post : ε → Prop}

def Fails (x : Except ε α) (post : ε → Prop) : Prop := ∀ e, x = .error e → post e

@[simp] theorem failsOk {a : α} : Fails (.ok a : Except ε α) post ↔ True := by
  simp [Fails]

@[simp] theorem failsError {e : ε} : Fails (.error e : Except ε α) post ↔ post e := by
  simp [Fails]

@[simp] theorem failsBind {x : Except ε β} {f : β → Except ε α} :
    Fails (x >>= f) post ↔ Fails x post ∧ Ends x fun b => Fails (f b) post := by
  cases x with
  | error e | ok b => simp [Ends, Fails, bind, Except.bind]

@[simp] theorem failsIte {c : Prop} [Decidable c] {x y : Except ε α} :
    Fails (if c then x else y) post ↔ (c → Fails x post) ∧ (¬ c → Fails y post) := by
  by_cases holds : c <;> simp [holds]

end Fails

section Allow
variable {p : Prop} [Decidable p] {e : ε} {a : α}

/-- An operation with a precondition, and the error it ends in without it. -/
def allow (p : Prop) [Decidable p] (e : ε) (a : α) : Except ε α := if p then .ok a else .error e

@[simp] theorem endsAllow {post : α → Prop} : Ends (allow p e a) post ↔ (p → post a) := by
  simp [allow]

@[simp] theorem failsAllow {post : ε → Prop} : Fails (allow p e a) post ↔ (¬ p → post e) := by
  simp [allow]

end Allow

def stops (x : Except ε α) (test : ε → Bool) : Bool :=
  match x with
  | .ok _ => false
  | .error e => test e

theorem stopsError {x : Except ε α} {test : ε → Bool} (found : stops x test = true) :
    ∃ e, x = .error e ∧ test e = true := by
  cases x with
  | error e => exact ⟨e, rfl, found⟩
  | ok a => simp [stops] at found

def passes (x : Except ε α) (test : α → Bool) : Bool :=
  match x with
  | .ok a => test a
  | .error _ => false

theorem passesOk {x : Except ε α} {test : α → Bool} (found : passes x test = true) :
    ∃ a, x = .ok a ∧ test a = true := by
  cases x with
  | ok a => exact ⟨a, rfl, found⟩
  | error e => simp [passes] at found

end Faults

section Runs
variable {σ α ε : Type}

inductive Run (step : σ → α → Except ε σ) (may : σ → α → Prop) (s : σ) : σ → Prop where
  | start : Run step may s s
  | more {u v : σ} {a : α} (before : Run step may s u) (allowed : may u a)
      (moved : step u a = .ok v) : Run step may s v

variable {step : σ → α → Except ε σ} {may other : σ → α → Prop} {s t : σ}

theorem Run.invariant (inv : σ → Prop) (run : Run step may s t) (first : inv s)
    (keep : ∀ u v a, inv u → may u a → step u a = .ok v → inv v) : inv t := by
  induction run with
  | start => exact first
  | more before allowed moved ih => exact keep _ _ _ ih allowed moved

def exec (step : σ → α → Except ε σ) (may : σ → α → Prop) [∀ u a, Decidable (may u a)] :
    σ → List α → Option σ
  | s, [] => some s
  | s, a :: rest =>
    if may s a then
      match step s a with
      | .ok u => exec step may u rest
      | .error _ => none
    else none

theorem runTrans {u : σ} (left : Run step may s u) (right : Run step may u t) :
    Run step may s t := by
  induction right with
  | start => exact left
  | more before allowed moved ih => exact .more ih allowed moved

theorem execRun [∀ u a, Decidable (may u a)] {actions : List α}
    (ran : exec step may s actions = some t) : Run step may s t := by
  induction actions generalizing s with
  | nil => cases ran; exact .start
  | cons a rest ih =>
    unfold exec at ran
    split at ran <;> try contradiction
    rename_i allowed
    cases moved : step s a with
    | error e => simp [moved] at ran
    | ok u =>
      simp only [moved] at ran
      exact runTrans (.more .start allowed moved) (ih ran)

theorem execFinds (step : σ → α → Except ε σ) (may : σ → α → Prop)
    [∀ u a, Decidable (may u a)] (s : σ) (actions : List α) (test : σ → Bool)
    (found : (exec step may s actions).any test = true) : ∃ t, Run step may s t ∧ test t = true := by
  cases ran : exec step may s actions with
  | none => simp [ran] at found
  | some t =>
    refine ⟨t, execRun ran, ?_⟩
    simpa [ran] using found

end Runs
end Pintos.Machine
