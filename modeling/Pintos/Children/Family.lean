import Pintos.Children.Protocol

/-! Every record of a family has at most one thread of the parent that works on it, and stands
with its child as that thread's place demands. -/
namespace Pintos.Children
open Machine
open Function (update update_of_ne update_self)

def ParentPc.locked : ParentPc → Bool
  | .execute _ (.push _) | .execute _ (.unlock _) => true
  | .exec (.lock _ _) | .exec (.done _ _) => false
  | .exec _ => true
  | .wait _ .lock | .wait _ (.done _) => false
  | .wait _ _ => true
  | _ => false

def ParentPc.rest : ParentPc → List Nat
  | .exec (.search _ _ rest) | .wait _ (.search rest) => rest
  | _ => []

def ParentPc.Sane (kernel : Bool) : ParentPc → Prop
  | .execute caller _ => (caller = .runTask ↔ kernel = true)
  | .exec stage => kernel = false ∧ match stage with
    | .search r _ rest => r ∈ rest
    | .down r _ child | .test r _ child | .remove r child | .free r child | .up r _ child =>
      child = r
    | .lock _ _ | .unlock _ _ | .done _ _ => True
  | .exit _ => kernel = false
  | .wait _ _ | .user | .ended => True

def Stands (s : State) (r : Nat) (side : Side) : Prop :=
  (∃ t, (s.threads t).side = some (r, side)) ∨
    side = .listed ∧ r ∈ s.children ∧ ∀ t side', (s.threads t).side ≠ some (r, side')

structure Tended (s : State) : Prop where
  good : ∀ r side, Stands s r side → Good s.kernel (s.record r) (s.child r) side
  sole : ∀ t u r a b, (s.threads t).side = some (r, a) → (s.threads u).side = some (r, b) → t = u
  linked : ∀ t r a, (s.threads t).side = some (r, a) → (r ∈ s.children ↔ a.linked = true)
  nodup : s.children.Nodup
  listed : ∀ r ∈ s.children, r < s.records
  handled : ∀ t r a, (s.threads t).side = some (r, a) → r < s.records
  unmade : ∀ r, s.records ≤ r → (s.child r).pc = .absent

structure Threads (s : State) : Prop where
  locked : ∀ t, (s.threads t).locked = true → s.childrenLock = some t
  holder : ∀ t, s.childrenLock = some t → (s.threads t).locked = true
  rest : ∀ t, ∀ r ∈ (s.threads t).rest, r ∈ s.children
  sane : ∀ t, (s.threads t).Sane s.kernel
  inside : ∀ t, s.count ≤ t → s.threads t = .user
  exits : ∀ t stage, s.threads t = .exit stage →
    s.exiting = true ∧ ∀ u, u ≠ t → s.threads u = .user

structure Tids (s : State) : Prop where
  sound : ∀ r, (s.child r).pc ≠ .absent → (s.child r).Sound
  blank : ∀ r, (s.child r).pc = .absent → (s.child r).started = false
  below : ∀ r, (s.child r).pc ≠ .absent → (s.child r).tid < s.nextTid
  distinct : ∀ q r, (s.child q).pc ≠ .absent → (s.child r).pc ≠ .absent →
    (s.child q).tid = (s.child r).tid → q = r

section Turn
variable {s s' : State} {t r : Nat} {pc : ParentPc}

theorem tendedGood {place : Option (Nat × Side)} {a : Side} (tended : Tended s)
    (side : (s.threads t).side = place) (mine : place = some (r, a)) :
    Good s.kernel (s.record r) (s.child r) a :=
  tended.good r a (.inl ⟨t, side.trans mine⟩)

theorem tendedTurn (tended : Tended s) (threads : s'.threads = update s.threads t pc)
    (kernel : s'.kernel = s.kernel) (record : ∀ q, q ≠ r → s'.record q = s.record q)
    (child : ∀ q, q ≠ r → s'.child q = s.child q)
    (children : ∀ q, q ≠ r → (q ∈ s'.children ↔ q ∈ s.children)) (nodup : s'.children.Nodup)
    (records : s.records ≤ s'.records) (made : r < s'.records)
    (before : ∀ q a, (s.threads t).side = some (q, a) → q = r)
    (others : ∀ u, u ≠ t → ∀ a, (s.threads u).side ≠ some (r, a))
    (after : ∀ q a, pc.side = some (q, a) → q = r ∧
      Good s.kernel (s'.record r) (s'.child r) a ∧ (r ∈ s'.children ↔ a.linked = true))
    (alone : pc.side = none → r ∈ s'.children →
      Good s.kernel (s'.record r) (s'.child r) .listed) : Tended s' := by
  have other {u : Nat} {q : Nat} {a : Side} (here : (s'.threads u).side = some (q, a)) :
      u = t ∧ q = r ∧ pc.side = some (r, a) ∨
        u ≠ t ∧ q ≠ r ∧ (s.threads u).side = some (q, a) := by
    by_cases self : u = t
    · rw [threads, self, update_self] at here
      have same := (after q a here).1
      exact .inl ⟨self, same, same ▸ here⟩
    · rw [threads, update_of_ne self] at here
      exact .inr ⟨self, fun same => others u self a (same ▸ here), here⟩
  refine ⟨?_, ?_, ?_, nodup, ?_, ?_, ?_⟩
  · intro q side stands
    rw [kernel]
    rcases stands with ⟨u, here⟩ | ⟨rfl, inside, nobody⟩
    · rcases other here with ⟨_, rfl, mine⟩ | ⟨_, apart, theirs⟩
      · exact (after q side mine).2.1
      · rw [record q apart, child q apart]
        exact tended.good q side (.inl ⟨u, theirs⟩)
    · by_cases same : q = r
      · subst same
        refine alone ?_ inside
        cases mine : pc.side with
        | none => rfl
        | some x =>
          have here : (s'.threads t).side = some (x.1, x.2) := by
            rw [threads, update_self, mine]
          rcases other here with ⟨_, same, _⟩ | ⟨apart, _⟩
          · rw [same] at here
            exact absurd here (nobody t x.2)
          · exact absurd rfl apart
      · rw [record q same, child q same]
        refine tended.good q .listed (.inr ⟨rfl, (children q same).mp inside, ?_⟩)
        intro u a theirs
        by_cases self : u = t
        · exact same (before q a (self ▸ theirs))
        · refine nobody u a ?_
          rw [threads, update_of_ne self]
          exact theirs
  · intro u v q a b left right
    rcases other left with ⟨self, same, _⟩ | ⟨self, apart, theirs⟩ <;>
      rcases other right with ⟨self', same', _⟩ | ⟨self', apart', theirs'⟩
    · exact self.trans self'.symm
    · exact absurd same apart'
    · exact absurd same' apart
    · exact tended.sole u v q a b theirs theirs'
  · intro u q a here
    rcases other here with ⟨_, rfl, mine⟩ | ⟨_, apart, theirs⟩
    · exact (after q a mine).2.2
    · exact (children q apart).trans (tended.linked u q a theirs)
  · intro q inside
    by_cases same : q = r
    · exact same ▸ made
    · exact Nat.lt_of_lt_of_le (tended.listed q ((children q same).mp inside)) records
  · intro u q a here
    rcases other here with ⟨_, rfl, _⟩ | ⟨_, _, theirs⟩
    · exact made
    · exact Nat.lt_of_lt_of_le (tended.handled u q a theirs) records
  · intro q unmade
    have apart : q ≠ r := fun same => Nat.not_lt.mpr unmade (same ▸ made)
    rw [child q apart]
    exact tended.unmade q (Nat.le_trans records unmade)

theorem tendedSame (tended : Tended s) (side : ∀ u, (s'.threads u).side = (s.threads u).side)
    (kernel : s'.kernel = s.kernel) (record : s'.record = s.record) (child : s'.child = s.child)
    (children : s'.children = s.children) (records : s'.records = s.records) : Tended s' := by
  have stands {q : Nat} {a : Side} (here : Stands s' q a) : Stands s q a := by
    simpa only [Stands, side, children] using here
  refine ⟨?_, ?_, ?_, ?_, ?_, ?_, ?_⟩
  · intro q a here
    rw [kernel, record, child]
    exact tended.good q a (stands here)
  · intro u v q a b
    rw [side, side]
    exact tended.sole u v q a b
  · intro u q a
    rw [side, children]
    exact tended.linked u q a
  · rw [children]
    exact tended.nodup
  · rw [children, records]
    exact tended.listed
  · intro u q a
    rw [side, records]
    exact tended.handled u q a
  · rw [records, child]
    exact tended.unmade

theorem tendedBecome (tended : Tended s) (side : pc.side = (s.threads t).side) :
    Tended (s.become t pc) := by
  refine tendedSame tended ?_ rfl rfl rfl rfl rfl
  intro u
  by_cases self : u = t
  · subst self
    simpa [State.become] using side
  · simp [State.become, self]

theorem tendedLock (tended : Tended s) (lock : Option Nat) :
    Tended { s with childrenLock := lock } :=
  tendedSame tended (fun _ => rfl) rfl rfl rfl rfl rfl

variable {a : Side} {value : Record}

theorem Tended.others (tended : Tended s) (here : (s.threads t).side = some (r, a)) :
    ∀ u, u ≠ t → ∀ b, (s.threads u).side ≠ some (r, b) :=
  fun u self b theirs => self (tended.sole u t r b a theirs here)

theorem tendedPut (tended : Tended s) (here : (s.threads t).side = some (r, a))
    (after : ∀ q b, pc.side = some (q, b) → q = r ∧ Good s.kernel value (s.child r) b ∧
      b.linked = a.linked)
    (alone : pc.side = none → a.linked = true → Good s.kernel value (s.child r) .listed) :
    Tended ((s.put r value).become t pc) := by
  have linked := tended.linked t r a here
  refine tendedTurn (r := r) tended rfl rfl ?_ (fun _ _ => rfl) (fun _ _ => Iff.rfl)
    tended.nodup (Nat.le_refl _) (tended.handled t r a here) ?_ (tended.others here) ?_ ?_
  · intro q apart
    exact update_of_ne apart _ _
  · intro q b mine
    exact (Prod.mk.inj (Option.some.inj (mine.symm.trans here))).1
  · intro q b mine
    obtain ⟨same, good, flag⟩ := after q b mine
    refine ⟨same, ?_, ?_⟩
    · simpa [State.put, State.become] using good
    · rw [flag]
      exact linked
  · intro none inside
    simpa [State.put, State.become] using alone none (linked.mp inside)

theorem tendedStage {b : Side} (tended : Tended s) (here : (s.threads t).side = some (r, a))
    (after : pc.side = some (r, b)) (good : Good s.kernel value (s.child r) b)
    (linked : b.linked = a.linked) : Tended ((s.put r value).become t pc) := by
  refine tendedPut tended here ?_ fun none => by rw [after] at none; cases none
  intro q c mine
  obtain ⟨rfl, rfl⟩ := Prod.mk.inj (Option.some.inj (after.symm.trans mine))
  exact ⟨rfl, good, linked⟩

theorem putSelf : s.put r (s.record r) = s := by
  simp [State.put]

theorem tendedLook {b : Side} (tended : Tended s) (here : (s.threads t).side = some (r, a))
    (after : pc.side = some (r, b)) (good : Good s.kernel (s.record r) (s.child r) b)
    (linked : b.linked = a.linked) : Tended (s.become t pc) := by
  have looked := tendedStage tended here after good linked
  rwa [putSelf] at looked

theorem tendedErase {b : Side} (tended : Tended s) (here : (s.threads t).side = some (r, a))
    (after : pc.side = some (r, b)) (good : Good s.kernel (s.record r) (s.child r) b)
    (unlinked : b.linked = false) :
    Tended ({ s with children := s.children.erase r }.become t pc) := by
  refine tendedTurn (r := r) tended rfl rfl (fun _ _ => rfl) (fun _ _ => rfl) ?_
    (tended.nodup.erase r) (Nat.le_refl _) (tended.handled t r a here) ?_ (tended.others here) ?_ ?_
  · intro q apart
    exact List.mem_erase_of_ne apart
  · intro q b mine
    exact (Prod.mk.inj (Option.some.inj (mine.symm.trans here))).1
  · intro q c mine
    obtain ⟨rfl, rfl⟩ := Prod.mk.inj (Option.some.inj (after.symm.trans mine))
    refine ⟨rfl, good, ?_⟩
    simp [State.become, unlinked, tended.nodup.mem_erase_iff]
  · intro none
    rw [after] at none
    cases none

theorem tendedClaim (tended : Tended s) (inside : r ∈ s.children)
    (idle : (s.threads t).side = none) (nobody : ∀ u b, (s.threads u).side ≠ some (r, b))
    (after : pc.side = some (r, .listed)) : Tended (s.become t pc) := by
  refine tendedTurn (r := r) tended rfl rfl (fun _ _ => rfl) (fun _ _ => rfl)
    (fun _ _ => Iff.rfl) tended.nodup (Nat.le_refl _) (tended.listed r inside) ?_
    (fun u _ b => nobody u b) ?_ ?_
  · intro q b mine
    rw [idle] at mine
    cases mine
  · intro q c mine
    obtain ⟨rfl, rfl⟩ := Prod.mk.inj (Option.some.inj (after.symm.trans mine))
    refine ⟨rfl, tended.good r .listed (.inr ⟨rfl, inside, nobody⟩), ?_⟩
    simp [State.become, Side.linked, inside]
  · intro none
    rw [after] at none
    cases none

theorem tendedChild {kid : Child} (tended : Tended s) (made : (s.child r).pc ≠ .absent)
    (keeps : ∀ side, Good s.kernel (s.record r) (s.child r) side → Good s.kernel value kid side) :
    Tended { s.put r value with child := update s.child r kid } := by
  refine ⟨?_, tended.sole, tended.linked, tended.nodup, tended.listed, tended.handled, ?_⟩
  · intro q side stands
    have good := tended.good q side stands
    by_cases same : q = r
    · subst same
      simpa [State.put] using keeps side good
    · simpa [State.put, same] using good
  · intro q unmade
    have absent := tended.unmade q unmade
    by_cases same : q = r
    · subst same
      exact absurd absent made
    · simpa [State.put, same] using absent

end Turn

section Threads
variable {s s' : State} {t r : Nat} {pc : ParentPc}

@[mk_iff locksIff] inductive Locks (s s' : State) (t : Nat) (pc : ParentPc) : Prop where
  | keeps (same : s'.childrenLock = s.childrenLock) (locked : pc.locked = (s.threads t).locked)
  | acquires (free : s.childrenLock = none) (mine : s'.childrenLock = some t)
    (locked : pc.locked = true)
  | releases (mine : s.childrenLock = some t) (free : s'.childrenLock = none)
    (unlocked : pc.locked = false)

theorem Threads.restLocked (threads : Threads s) (todo : r ∈ (s.threads t).rest) :
    s.childrenLock = some t := by
  apply threads.locked
  unfold ParentPc.rest at todo
  split at todo <;> rename_i here
  · rw [here]
    rfl
  · rw [here]
    rfl
  · cases todo

@[mk_iff framesIff] structure Frames (s : State) (t : Nat) (s' : State) : Prop where
  threads : ∀ u, u ≠ t → s'.threads u = s.threads u
  kernel : s'.kernel = s.kernel
  count : s'.count = s.count
  exiting : s'.exiting = s.exiting

@[mk_iff lastsIff] structure Lasts (s s' : State) : Prop where
  child : s'.child = s.child
  nextTid : s'.nextTid = s.nextTid
  children : ∀ r ∈ s'.children, r ∈ s.children

/-- What a statement has to say of its thread and of the list. -/
@[mk_iff placesIff] structure Places (s : State) (t : Nat) (s' : State) : Prop where
  locks : Locks s s' t (s'.threads t)
  sane : (s'.threads t).Sane s.kernel
  rest : ∀ r ∈ (s'.threads t).rest, r ∈ s'.children
  children : (s.threads t).locked = true ∨ (∃ stage, s.threads t = .exit stage) ∨
    ∀ r ∈ s.children, r ∈ s'.children
  exits : ∀ stage, s'.threads t = .exit stage → ∃ stage', s.threads t = .exit stage'

theorem Threads.alone (threads : Threads s) (mine : (s.threads t).locked = true) :
    ∀ u, u ≠ t → ∀ r ∈ (s.threads u).rest, False :=
  fun _ self _ todo => self (Option.some.inj
    ((threads.restLocked todo).symm.trans (threads.locked t mine)))

theorem threadsTurn (threads : Threads s) (inside : t < s.count) (busy : s.threads t ≠ .user)
    (frames : Frames s t s') (places : Places s t s') : Threads s' := by
  obtain ⟨theirs, kernel, count, exiting⟩ := frames
  obtain ⟨locks, sane, rest, children, exits⟩ := places
  refine ⟨?_, ?_, ?_, ?_, ?_, ?_⟩
  · intro u locked
    by_cases self : u = t
    · subst self
      cases locks with
      | keeps same flag => rw [same]; exact threads.locked u (flag ▸ locked)
      | acquires free mine _ => exact mine
      | releases mine free unlocked => rw [unlocked] at locked; cases locked
    · rw [theirs u self] at locked
      have holds := threads.locked u locked
      cases locks with
      | keeps same flag => rw [same]; exact holds
      | acquires free mine _ => rw [free] at holds; cases holds
      | releases mine free unlocked =>
        exact absurd (Option.some.inj (holds.symm.trans mine)) self
  · intro u holds
    cases locks with
    | keeps same flag =>
      rw [same] at holds
      by_cases self : u = t
      · rw [self, flag]
        exact threads.holder t (self ▸ holds)
      · rw [theirs u self]
        exact threads.holder u holds
    | acquires free held locked =>
      obtain rfl := Option.some.inj (holds.symm.trans held)
      exact locked
    | releases _ free _ => rw [free] at holds; cases holds
  · intro u q todo
    by_cases self : u = t
    · subst self
      exact rest q todo
    · rw [theirs u self] at todo
      rcases children with locked | ⟨stage, leaves⟩ | kept
      · exact (threads.alone locked u self q todo).elim
      · rw [(threads.exits t stage leaves).2 u self] at todo
        cases todo
      · exact kept q (threads.rest u q todo)
  · intro u
    rw [kernel]
    by_cases self : u = t
    · exact self ▸ sane
    · rw [theirs u self]
      exact threads.sane u
  · intro u outside
    rw [count] at outside
    have self : u ≠ t := fun self => Nat.not_lt.mpr outside (self ▸ inside)
    rw [theirs u self]
    exact threads.inside u outside
  · intro u stage here
    rw [exiting]
    by_cases self : u = t
    · subst self
      obtain ⟨stage', before⟩ := exits stage here
      obtain ⟨flag, idle⟩ := threads.exits u stage' before
      exact ⟨flag, fun v other => by rw [theirs v other]; exact idle v other⟩
    · rw [theirs u self] at here
      exact absurd ((threads.exits u stage here).2 t (Ne.symm self)) busy

theorem tidsSame (tids : Tids s) (child : s'.child = s.child) (later : s.nextTid ≤ s'.nextTid) :
    Tids s' := by
  obtain ⟨sound, blank, below, distinct⟩ := tids
  rw [← child] at sound blank below distinct
  exact ⟨sound, blank, fun q present => Nat.lt_of_lt_of_le (below q present) later, distinct⟩

theorem tidsChild {kid : Child} (tids : Tids s) (present : (s.child r).pc ≠ .absent)
    (same : kid.tid = (s.child r).tid) (sound : kid.Sound)
    (child : s'.child = update s.child r kid) (later : s'.nextTid = s.nextTid) :
    Tids s' := by
  have old {q : Nat} (here : (s'.child q).pc ≠ .absent) :
      (s.child q).pc ≠ .absent ∧ (s'.child q).tid = (s.child q).tid ∧ (s'.child q).Sound := by
    rw [child] at here ⊢
    by_cases self : q = r
    · subst self
      rw [update_self]
      exact ⟨present, same, sound⟩
    · rw [update_of_ne self] at here ⊢
      exact ⟨here, rfl, tids.sound q here⟩
  refine ⟨fun q here => (old here).2.2, fun q absent => ?_, fun q here => ?_,
    fun q p left right => ?_⟩
  · rw [child] at absent ⊢
    by_cases self : q = r
    · rw [self, update_self] at absent
      exact absurd absent sound.present
    · rw [update_of_ne self] at absent ⊢
      exact tids.blank q absent
  · rw [(old here).2.1, later]
    exact tids.below q (old here).1
  · rw [(old left).2.1, (old right).2.1]
    exact tids.distinct q p (old left).1 (old right).1

end Threads

def ParentPc.allocates : ParentPc → Bool
  | .execute _ (.editing _) | .execute _ (.initPcb _) | .execute _ (.create _) => true
  | _ => false

/-- The allocations of an exec that has made its record succeed, and so does the load of what
run_task starts. -/
def Supplied (s : State) : Action → Prop
  | .run t granted => (s.threads t).allocates = true → granted = true
  | .child r granted => (s.child r).Supplied s.kernel granted
  | .exec _ | .runTask | .wait _ _ | .exit _ | .exitChild _ _ | .allocateTid => True

def ParentPc.launches : ParentPc → Option Nat
  | .execute _ stage => stage.side.map Prod.fst
  | .exec stage => stage.side.map Prod.fst
  | _ => none

def ParentPc.meets : ParentPc → Option (Int × Nat)
  | .wait pid (.search (child :: _)) => some (pid, child)
  | _ => none

/-- process_wait does not come upon the record of a launch that another thread has not finished. -/
def Apart (s : State) : Action → Prop
  | .run t _ => ∀ met ∈ (s.threads t).meets, (s.record met.2).pid = met.1 →
    ∀ u < s.count, (s.threads u).launches ≠ some met.2
  | .exec _ | .runTask | .wait _ _ | .exit _ | .child _ _ | .exitChild _ _ | .allocateTid => True

instance (s a) : Decidable (Supplied s a) :=
  match a with
  | .run t granted =>
    inferInstanceAs (Decidable ((s.threads t).allocates = true → granted = true))
  | .child r granted =>
    inferInstanceAs (Decidable (((s.child r).pc = .start .allocate → granted = true) ∧
      ((s.child r).pc = .start .load → s.kernel = true → granted = true)))
  | .exec _ | .runTask | .wait _ _ | .exit _ | .exitChild _ _ | .allocateTid => instDecidableTrue

instance (s a) : Decidable (Apart s a) :=
  match a with
  | .run t _ => inferInstanceAs (Decidable (∀ met ∈ (s.threads t).meets,
      (s.record met.2).pid = met.1 → ∀ u < s.count, (s.threads u).launches ≠ some met.2))
  | .exec _ | .runTask | .wait _ _ | .exit _ | .child _ _ | .exitChild _ _ | .allocateTid =>
    instDecidableTrue

structure Family (s : State) : Prop where
  tended : Tended s
  threads : Threads s
  tids : Tids s

end Pintos.Children
