import Mathlib.Data.List.Basic

/-! Slots that are given out by rows of bits: every row belongs to a pool, a bit that is set
says that the slot is taken. Who holds which slot is written down elsewhere; here is when
the two agree, and what keeps them in agreement. Holders, pools and the way a free slot
is found are left open. -/
namespace Pintos.Slots

variable {ι κ : Type}

structure Fits (held : ι → Option (κ × Nat)) (rows : κ → List Bool) : Prop where
  taken : ∀ i p n, held i = some (p, n) → (rows p)[n]? = some true
  single : ∀ i j x, held i = some x → held j = some x → i = j

section Same
variable {held held' : ι → Option (κ × Nat)} {rows : κ → List Bool} {i j : ι} {p : κ} {n : Nat}

theorem fitsForget (fits : Fits held rows)
    (less : ∀ k x, held' k = some x → held k = some x) : Fits held' rows :=
  ⟨fun k q m has => fits.taken k q m (less k _ has),
    fun k l x has has' => fits.single k l x (less k x has) (less l x has')⟩

theorem fitsPass (fits : Fits held rows) (had : held i = some (p, n)) (gave : held' i = none)
    (got : held' j = some (p, n)) (others : ∀ k, k ≠ i → k ≠ j → held' k = held k) :
    Fits held' rows := by
  have from' : ∀ k x, held' k = some x → k = j ∧ x = (p, n) ∨ held k = some x ∧ k ≠ i := by
    intro k x has
    by_cases self : k = j
    · subst self
      exact .inl ⟨rfl, (Option.some.inj (got.symm.trans has)).symm⟩
    · have other : k ≠ i := fun same => by
        rw [same, gave] at has
        cases has
      rw [others k other self] at has
      exact .inr ⟨has, other⟩
  refine ⟨?_, ?_⟩
  · intro k q m has
    rcases from' k _ has with ⟨_, same⟩ | ⟨before, _⟩
    · obtain ⟨rfl, rfl⟩ := Prod.mk.inj same
      exact fits.taken i q m had
    · exact fits.taken k q m before
  · intro k l x has has'
    rcases from' k x has with ⟨self, same⟩ | ⟨before, other⟩ <;>
      rcases from' l x has' with ⟨self', same'⟩ | ⟨before', other'⟩
    · exact self.trans self'.symm
    · subst same
      exact absurd (fits.single l i _ before' had) other'
    · subst same'
      exact absurd (fits.single k i _ before had) other
    · exact fits.single k l x before before'

end Same

def write [DecidableEq κ] (rows : κ → List Bool) (p : κ) (n : Nat) (b : Bool) : κ → List Bool :=
  Function.update rows p ((rows p).set n b)

section Write
variable [DecidableEq κ] {rows : κ → List Bool} {p q : κ} {n m : Nat} {b : Bool}

@[simp] theorem lengthWrite : (write rows p n b q).length = (rows q).length := by
  unfold write
  by_cases same : q = p
  · subst same; simp
  · simp [same]

theorem writeElsewhere (other : (q, m) ≠ (p, n)) : (write rows p n b q)[m]? = (rows q)[m]? := by
  unfold write
  by_cases same : q = p
  · subst same
    have apart : n ≠ m := fun equal => other (by rw [equal])
    simp [List.getElem?_set_ne apart]
  · simp [same]

theorem writeHere (inside : n < (rows p).length) : (write rows p n b p)[n]? = some b := by
  simp [write, inside]

theorem writeClear (clear : (rows q)[m]? = some false) :
    (write rows p n false q)[m]? = some false := by
  by_cases here : (q, m) = (p, n)
  · obtain ⟨rfl, rfl⟩ := Prod.mk.inj here
    exact writeHere (List.getElem?_eq_some_iff.mp clear).1
  · rw [writeElsewhere here]; exact clear

end Write

variable [DecidableEq κ] {held held' : ι → Option (κ × Nat)} {rows : κ → List Bool} {i : ι}
  {p : κ} {n : Nat}

theorem fitsTake (fits : Fits held rows) (clear : (rows p)[n]? = some false)
    (own : held' i = some (p, n)) (others : ∀ k, k ≠ i → held' k = held k) :
    Fits held' (write rows p n true) := by
  have unheld : ∀ k, held k ≠ some (p, n) := fun k has => by
    have taken := fits.taken k p n has
    rw [clear] at taken
    cases taken
  have inside := (List.getElem?_eq_some_iff.mp clear).1
  refine ⟨?_, ?_⟩
  · intro k q m has
    by_cases self : k = i
    · subst self
      obtain ⟨rfl, rfl⟩ := Prod.mk.inj (Option.some.inj (own.symm.trans has))
      exact writeHere inside
    · rw [others k self] at has
      rw [writeElsewhere fun same => unheld k (same ▸ has)]
      exact fits.taken k q m has
  · intro k l x has has'
    by_cases self : k = i <;> by_cases self' : l = i
    · exact self.trans self'.symm
    · subst self
      cases Option.some.inj (own.symm.trans has)
      rw [others l self'] at has'
      exact absurd has' (unheld l)
    · subst self'
      cases Option.some.inj (own.symm.trans has')
      rw [others k self] at has
      exact absurd has (unheld k)
    · rw [others k self] at has
      rw [others l self'] at has'
      exact fits.single k l x has has'

theorem fitsDrop (fits : Fits held rows) (had : held i = some (p, n)) (own : held' i = none)
    (others : ∀ k, k ≠ i → held' k = held k) : Fits held' (write rows p n false) := by
  have less : ∀ k x, held' k = some x → held k = some x ∧ x ≠ (p, n) := by
    intro k x has
    have other : k ≠ i := fun self => by
      rw [self, own] at has
      cases has
    rw [others k other] at has
    exact ⟨has, fun same => other (fits.single k i _ has (same ▸ had))⟩
  refine ⟨?_, ?_⟩
  · intro k q m has
    obtain ⟨before, other⟩ := less k _ has
    rw [writeElsewhere other]
    exact fits.taken k q m before
  · exact fun k l x has has' => fits.single k l x (less k x has).1 (less l x has').1

theorem fitsRenew {row : List Bool} (fits : Fits held rows) (unheld : ∀ k m, held k ≠ some (p, m))
    (taken : row[n]? = some true) (own : held' i = some (p, n))
    (others : ∀ k, k ≠ i → held' k = held k) : Fits held' (Function.update rows p row) := by
  have from' : ∀ k x, held' k = some x → k = i ∧ x = (p, n) ∨ held k = some x ∧ x.1 ≠ p := by
    intro k x has
    by_cases self : k = i
    · subst self
      exact .inl ⟨rfl, (Option.some.inj (own.symm.trans has)).symm⟩
    · rw [others k self] at has
      exact .inr ⟨has, fun same => unheld k x.2 (same ▸ has)⟩
  refine ⟨?_, ?_⟩
  · intro k q m has
    rcases from' k _ has with ⟨_, same⟩ | ⟨before, other⟩
    · obtain ⟨rfl, rfl⟩ := Prod.mk.inj same
      simpa using taken
    · simpa [other] using fits.taken k q m before
  · intro k l x has has'
    rcases from' k x has with ⟨self, same⟩ | ⟨before, other⟩ <;>
      rcases from' l x has' with ⟨self', same'⟩ | ⟨before', other'⟩
    · exact self.trans self'.symm
    · exact absurd (congrArg Prod.fst same) other'
    · exact absurd (congrArg Prod.fst same') other
    · exact fits.single k l x before before'

end Pintos.Slots
