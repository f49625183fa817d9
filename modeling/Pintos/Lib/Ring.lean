import Mathlib.Data.Nat.ModEq

/-! A ring buffer as the sequence it holds. One slot stays free, so that an empty ring is told from
a full one by its two positions. -/
namespace Pintos.Ring
variable {α : Type} {size head tail : Nat} {buf : Nat → α} {xs : List α} {x : α}

structure Holds (size : Nat) (buf : Nat → α) (head tail : Nat) (xs : List α) : Prop where
  room : xs.length < size
  within : tail < size
  ahead : head = (tail + xs.length) % size
  slot : ∀ k, ∀ y ∈ xs[k]?, buf ((tail + k) % size) = y

theorem slotsApart {i j : Nat} (first : i < size) (second : j < size)
    (same : (tail + i) % size = (tail + j) % size) : i = j :=
  Nat.ModEq.eq_of_lt_of_lt (Nat.ModEq.add_left_cancel' tail same) first second

theorem holdsEmpty (holds : Holds size buf head tail xs) : head = tail ↔ xs = [] := by
  have here : (tail + 0) % size = tail := by rw [Nat.add_zero, Nat.mod_eq_of_lt holds.within]
  constructor
  · intro same
    have length := slotsApart holds.room (Nat.zero_lt_of_lt holds.room)
      (holds.ahead.symm.trans (same.trans here.symm))
    exact List.length_eq_zero_iff.mp length
  · rintro rfl
    exact holds.ahead.trans here

theorem holdsFull (holds : Holds size buf head tail xs) :
    (head + 1) % size = tail ↔ xs.length + 1 = size := by
  have head' : (head + 1) % size = (tail + (xs.length + 1)) % size := by
    rw [holds.ahead, Nat.mod_add_mod, Nat.add_assoc]
  have here : tail % size = tail := Nat.mod_eq_of_lt holds.within
  rw [head']
  constructor
  · intro same
    by_contra more
    have less : xs.length + 1 < size := Nat.lt_of_le_of_ne holds.room more
    have none := slotsApart less (Nat.zero_lt_of_lt less) (same.trans here.symm)
    cases none
  · intro full
    rw [full, Nat.add_mod_right, here]

theorem holdsPush (holds : Holds size buf head tail xs) (more : xs.length + 1 < size) :
    Holds size (Function.update buf head x) ((head + 1) % size) tail (xs ++ [x]) := by
  refine ⟨by simpa using more, holds.within, ?_, fun k y inside => ?_⟩
  · rw [holds.ahead, Nat.mod_add_mod, List.length_append, Nat.add_assoc]
    rfl
  · by_cases last : k = xs.length
    · subst last
      rw [← holds.ahead, Function.update_self]
      simpa using inside
    · have before : k < xs.length := by
        have bound := (List.getElem?_eq_some_iff.mp inside).1
        rw [List.length_append, List.length_singleton] at bound
        omega
      rw [List.getElem?_append_left before] at inside
      rw [Function.update_of_ne, holds.slot k y inside]
      rw [holds.ahead]
      exact fun same => last (slotsApart (before.trans holds.room) holds.room same)

theorem holdsPop (holds : Holds size buf head tail (x :: xs)) :
    buf tail = x ∧ Holds size buf head ((tail + 1) % size) xs := by
  have small : xs.length < size := (Nat.lt_succ_self _).trans holds.room
  have onward (k : Nat) : ((tail + 1) % size + k) % size = (tail + (k + 1)) % size := by
    rw [Nat.mod_add_mod, Nat.add_assoc, Nat.add_comm 1 k]
  refine ⟨?_, small, Nat.mod_lt _ (Nat.zero_lt_of_lt small), ?_, fun k y inside => ?_⟩
  · have first := holds.slot 0 x rfl
    rwa [Nat.add_zero, Nat.mod_eq_of_lt holds.within] at first
  · rw [onward]
    exact holds.ahead
  · rw [onward]
    exact holds.slot (k + 1) y inside

end Pintos.Ring
