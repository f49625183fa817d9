import Pintos.Threads.Coherence

/-! What donate_pri_acquire does to the rest of the kernel. The walk is a loop
over the chain of holders; `donateRule` is its rule for an invariant, and every
fact about the walk in this development is an instance of it. -/
namespace Pintos.Threads
open Machine

attribute [local simp] Function.update_apply

def raised (k : Kernel) (l : LockId) (donee : Tid) (p : Nat) : Kernel :=
  raiseThread (raiseLock k l donee p) donee p

theorem donateRule (inv : Nat → Kernel → Tid → LockId → Prop) (post : Kernel → Prop)
    (settled : ∀ n k donor l donee, inv (n + 1) k donor l → (k.lock l).holder = some donee →
      (k.thread donor).ePri ≤ (k.lock l).pri → post k)
    (lockOnly : ∀ n k donor l donee, inv (n + 1) k donor l → (k.lock l).holder = some donee →
      (k.lock l).pri < (k.thread donor).ePri →
      (k.thread donor).ePri ≤ (k.thread donee).ePri →
      post (raiseLock k l donee (k.thread donor).ePri))
    (ends : ∀ n k donor l donee k1, inv (n + 1) k donor l → (k.lock l).holder = some donee →
      (k.lock l).pri < (k.thread donor).ePri → (k.thread donee).ePri < (k.thread donor).ePri →
      requeue (raised k l donee (k.thread donor).ePri) donee = .ok k1 →
      (k1.thread donee).donatedFor = none → post k1)
    (goesOn : ∀ n k donor l donee k1 m, inv (n + 1) k donor l → (k.lock l).holder = some donee →
      (k.lock l).pri < (k.thread donor).ePri → (k.thread donee).ePri < (k.thread donor).ePri →
      requeue (raised k l donee (k.thread donor).ePri) donee = .ok k1 →
      (k1.thread donee).donatedFor = some m → inv n k1 donee m)
    {turns k donor l k'} (first : inv turns k donor l)
    (ok : donatePriAcquire turns k donor l = .ok k') : post k' := by
  induction turns generalizing k donor l with
  | zero => simp [donatePriAcquire] at ok
  | succ turns ih =>
    unfold donatePriAcquire at ok
    split at ok <;> try contradiction
    rename_i donee held
    simp only at ok
    split at ok
    · cases ok
      exact settled _ _ _ _ _ first held (by assumption)
    · rename_i below
      have unchanged : ((raiseLock k l donee (k.thread donor).ePri).thread donee).ePri =
          (k.thread donee).ePri := by simp [raiseLock]
      rw [unchanged] at ok
      split at ok
      · cases ok
        exact lockOnly _ _ _ _ _ first held (Nat.lt_of_not_le below) (by assumption)
      · rename_i weaker
        obtain ⟨k1, sorted, last⟩ := bindOk.mp ok
        split at last
        · rename_i alone
          cases last
          exact ends _ _ _ _ _ _ first held (Nat.lt_of_not_le below) (Nat.lt_of_not_le weaker)
            sorted alone
        · rename_i m waits
          exact ih (goesOn _ _ _ _ _ _ _ first held (Nat.lt_of_not_le below)
            (Nat.lt_of_not_le weaker) sorted waits) last

theorem requeueOk {k t k'} (links : Links k (some k.current) none) (other : t ≠ k.current)
    (busy : t ≠ k.idleThread) (ok : requeue k t = .ok k') :
    (k.thread t).elem = none ∧ k' = k ∨ ∃ q, (k.thread t).elem = some q ∧
      k' = k.setList q (((k.list q).erase t).orderedInsert (graterThreadPri k) t) := by
  have recorded := (links.placed t).queue (by simpa using other.symm) (by simp) busy
  unfold requeue at ok
  split at ok
  · rename_i alone
    exact .inl ⟨recorded.symm.trans alone, (Except.ok.inj ok).symm⟩
  · rename_i q waits
    have linked := recorded.symm.trans waits
    obtain ⟨k1, rem, ins⟩ := bindOk.mp ok
    obtain ⟨q1, same, rfl⟩ := listRemoveOk rem
    cases Option.some.inj (same.symm.trans linked)
    obtain ⟨_, rfl⟩ := linkOk ins
    refine .inr ⟨q, linked, ?_⟩
    have pri : ∀ u, ((unpark k q t).thread u).ePri = (k.thread u).ePri := by
      intro u
      by_cases h : u = t <;> simp [unpark, h]
    rw [Ordered.insertCongr (graterSame pri)]
    have back : Function.update k.thread t {k.thread t with elem := some q} = k.thread := by
      rw [← linked]
      exact Function.update_eq_self t k.thread
    simp [unpark, back]

structure Donated (p : Nat) (k k' : Kernel) : Prop where
  similar : Similar k k'
  ePri : ∀ t, (k'.thread t).ePri = (k.thread t).ePri ∨
    (k.thread t).ePri < p ∧ (k'.thread t).ePri = p
  pri : ∀ l, (k'.lock l).pri = (k.lock l).pri ∨ (k.lock l).pri < p ∧ (k'.lock l).pri = p
  bPri : ∀ t, (k'.thread t).bPri = (k.thread t).bPri
  donatedFor : ∀ t, (k'.thread t).donatedFor = (k.thread t).donatedFor
  holder : ∀ l, (k'.lock l).holder = (k.lock l).holder
  value : k'.value = k.value
  policy : k'.policy = k.policy

theorem similarRefl (k) : Similar k k where
  status _ := rfl
  elem _ := rfl
  queue _ := rfl
  stack _ := rfl
  list _ := List.Perm.refl _
  current := rfl
  idleThread := rfl
  created := rfl

theorem donatedRefl (p k) : Donated p k k where
  similar := similarRefl k
  ePri _ := .inl rfl
  pri _ := .inl rfl
  bPri _ := rfl
  donatedFor _ := rfl
  holder _ := rfl
  value := rfl
  policy := rfl

theorem donatedTrans {p a b c} (first : Donated p a b) (second : Donated p b c) : Donated p a c where
  similar := similarTrans first.similar second.similar
  ePri t := by have := first.ePri t; have := second.ePri t; omega
  pri l := by have := first.pri l; have := second.pri l; omega
  bPri t := (second.bPri t).trans (first.bPri t)
  donatedFor t := (second.donatedFor t).trans (first.donatedFor t)
  holder l := (second.holder l).trans (first.holder l)
  value := second.value.trans first.value
  policy := second.policy.trans first.policy

theorem donatedRaiseLock {p k l t} (below : (k.lock l).pri < p) :
    Donated p k (raiseLock k l t p) where
  similar := by
    constructor <;> intros <;> simp [raiseLock] <;> split <;> simp_all
  ePri u := by by_cases h : u = t <;> simp [raiseLock, h]
  pri m := by by_cases h : m = l <;> simp [raiseLock, h, below]
  bPri u := by by_cases h : u = t <;> simp [raiseLock, h]
  donatedFor u := by by_cases h : u = t <;> simp [raiseLock, h]
  holder m := by by_cases h : m = l <;> simp [raiseLock, h]
  value := rfl
  policy := rfl

theorem donatedRaiseThread {p k t} (below : (k.thread t).ePri < p) :
    Donated p k (raiseThread k t p) where
  similar := by
    constructor <;> intros <;> simp [raiseThread] <;> split <;> simp_all
  ePri u := by by_cases h : u = t <;> simp [raiseThread, h, below]
  pri _ := .inl rfl
  bPri u := by by_cases h : u = t <;> simp [raiseThread, h]
  donatedFor u := by by_cases h : u = t <;> simp [raiseThread, h]
  holder _ := rfl
  value := rfl
  policy := rfl

theorem donatedRequeue {p k t k'} (links : Links k (some k.current) none) (other : t ≠ k.current)
    (busy : t ≠ k.idleThread) (ok : requeue k t = .ok k') : Donated p k k' := by
  rcases requeueOk links other busy ok with ⟨_, rfl⟩ | ⟨q, linked, rfl⟩
  · exact donatedRefl p _
  · refine ⟨?_, fun _ => .inl rfl, fun _ => .inl rfl, fun _ => rfl, fun _ => rfl, fun _ => rfl,
      rfl, rfl⟩
    refine ⟨fun _ => rfl, fun _ => rfl, fun _ => rfl, fun _ => rfl, ?_, rfl, rfl, rfl⟩
    intro r
    by_cases h : r = q
    · subst r
      have inside := (links.mem t q).mpr linked
      simpa using (List.perm_orderedInsert _ _ _).trans (List.perm_cons_erase inside).symm
    · simp [h]

structure Turn (p : Nat) (k k' : Kernel) (l : LockId) (donee : Tid) : Prop where
  donated : Donated p k k'
  thread : k'.thread = (raised k l donee p).thread
  lock : k'.lock = (raised k l donee p).lock

theorem raisedLinks {p k l donee} (links : Links k (some k.current) none)
    (below : (k.lock l).pri < p) (weaker : (k.thread donee).ePri < p) :
    Donated p k (raised k l donee p) ∧
      Links (raised k l donee p) (some (raised k l donee p).current) none := by
  have first := donatedRaiseLock (t := donee) below
  have still : ((raiseLock k l donee p).thread donee).ePri < p := by simpa [raiseLock] using weaker
  have both := donatedTrans first (donatedRaiseThread still)
  exact ⟨both, linksSimilar links both.similar⟩

theorem donatedTurn {p k l donee k'} (links : Links k (some k.current) none)
    (other : donee ≠ k.current) (busy : donee ≠ k.idleThread) (below : (k.lock l).pri < p)
    (weaker : (k.thread donee).ePri < p)
    (ok : requeue (raised k l donee p) donee = .ok k') : Turn p k k' l donee := by
  obtain ⟨both, moved⟩ := raisedLinks links below weaker
  refine ⟨donatedTrans both (donatedRequeue moved other busy ok), ?_, ?_⟩
  all_goals rcases requeueOk moved other busy ok with ⟨_, rfl⟩ | ⟨q, _, rfl⟩ <;> rfl

structure OnWalk (p : Nat) (k j : Kernel) (donor : Tid) : Prop where
  so : Donated p k j
  links : Links j (some j.current) none
  holds : ∀ m, (j.lock m).holder ≠ some j.idleThread
  pri : (j.thread donor).ePri = p
  top : p ≤ j.cur.ePri

theorem walkDonee {p k j donor l donee} (walk : OnWalk p k j donor)
    (held : (j.lock l).holder = some donee)
    (weaker : (j.thread donee).ePri < (j.thread donor).ePri) :
    donee ≠ j.current ∧ donee ≠ j.idleThread := by
  constructor
  · rintro rfl
    have := walk.top
    simp only [Kernel.cur, walk.pri] at this weaker
    omega
  · rintro rfl
    exact walk.holds l held

theorem walkTurn {p k j donor l donee j1} (walk : OnWalk p k j donor)
    (held : (j.lock l).holder = some donee) (below : (j.lock l).pri < (j.thread donor).ePri)
    (weaker : (j.thread donee).ePri < (j.thread donor).ePri)
    (ok : requeue (raised j l donee (j.thread donor).ePri) donee = .ok j1) :
    Turn p j j1 l donee ∧ OnWalk p k j1 donee := by
  obtain ⟨other, busy⟩ := walkDonee walk held weaker
  rw [walk.pri] at below weaker ok
  have turn := donatedTurn walk.links other busy below weaker ok
  have here := turn.donated.similar
  refine ⟨turn, donatedTrans walk.so turn.donated, ?_, ?_, ?_, ?_⟩
  · rw [here.current]; exact linksSimilar walk.links here
  · intro m
    rw [turn.donated.holder m, here.idleThread]
    exact walk.holds m
  · rw [turn.thread]; simp [raised, raiseThread]
  · have := turn.donated.ePri j.current
    have := walk.top
    simp only [Kernel.cur, here.current] at this ⊢
    omega

theorem walkList {p k j donor l donee j1 q} (walk : OnWalk p k j donor)
    (held : (j.lock l).holder = some donee) (below : (j.lock l).pri < (j.thread donor).ePri)
    (weaker : (j.thread donee).ePri < (j.thread donor).ePri)
    (ok : requeue (raised j l donee (j.thread donor).ePri) donee = .ok j1)
    (away : (j.thread donee).elem ≠ some q) : j1.list q = j.list q := by
  obtain ⟨other, busy⟩ := walkDonee walk held weaker
  obtain ⟨both, moved⟩ := raisedLinks walk.links below weaker
  rcases requeueOk moved other busy ok with ⟨_, rfl⟩ | ⟨r, linked, rfl⟩
  · rfl
  · rw [both.similar.elem] at linked
    have apart : q ≠ r := by rintro rfl; exact away linked
    simp [apart, raised, raiseThread, raiseLock]

theorem donateDonated {turns k l k'} (links : Links k (some k.current) none)
    (holds : ∀ m, (k.lock m).holder ≠ some k.idleThread)
    (ok : donatePriAcquire turns k k.current l = .ok k') : Donated k.cur.ePri k k' := by
  refine donateRule (fun _ j donor _ => OnWalk k.cur.ePri k j donor) (Donated k.cur.ePri k)
    ?_ ?_ ?_ ?_ ⟨donatedRefl _ k, links, holds, rfl, Nat.le_refl _⟩ ok
  · intro _ j donor m donee walk _ _
    exact walk.so
  · intro _ j donor m donee walk _ below _
    rw [walk.pri] at below ⊢
    exact donatedTrans walk.so (donatedRaiseLock below)
  · intro _ j donor m donee j1 walk held below weaker sorted _
    exact (walkTurn walk held below weaker sorted).2.so
  · intro _ j donor m donee j1 next walk held below weaker sorted _
    exact (walkTurn walk held below weaker sorted).2

end Pintos.Threads
