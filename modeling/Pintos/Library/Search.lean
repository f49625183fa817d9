import Mathlib.Algebra.Group.Nat.Defs
import Pintos.Lib.Layout

/-! `binary_search` and `bsearch` of lib/stdlib.c. Pointers count modulo `2 ^ 32`. Elements are
values of any type; to read one where none begins is an error. -/
namespace Pintos.Library
open Layout

variable {α β : Type}

/-- Nothing is at NULL, and the pointer behind an array compares greater than those into it. -/
structure Elements (α : Type) where
  array : Nat
  size : Nat
  values : List α
  placed : 0 < array
  sized : 0 < size
  ends : array + size * values.length < 2 ^ 32

namespace Elements

def address (a : Elements α) (i : Nat) : Nat := a.array + a.size * i

def read (a : Elements α) (p : Nat) : Except Fault α :=
  if a.array ≤ p ∧ a.size ∣ p - a.array then peek a.values ((p - a.array) / a.size)
  else .error (.outside p)

end Elements

section Search
variable (compare : α → α → β → Int) (aux : β) (key : α) (a : Elements α)

-- The difference of the pointers is an `int`, but is divided as a `size_t`.
def searchLoop : Nat → Nat → Nat → Except Fault Nat
  | 0, _, _ => .error .turns
  | turns + 1, first, last =>
    if first < last then do
      let range := (last - first) / a.size
      let middle := (first + range / 2 * a.size) % 2 ^ 32
      let cmp := compare key (← a.read middle) aux
      if cmp < 0 then searchLoop turns first middle
      else if cmp > 0 then searchLoop turns ((middle + a.size) % 2 ^ 32) last
      else return middle
    else return 0

def binarySearch (turns : Nat) : Except Fault Nat :=
  searchLoop compare aux key a turns a.array ((a.array + a.size * a.values.length) % 2 ^ 32)

end Search

def compareThunk (x y : α) (compare : α → α → Int) : Int := compare x y

def bsearch (compare : α → α → Int) (key : α) (a : Elements α) (turns : Nat) : Except Fault Nat :=
  binarySearch compareThunk compare key a turns

structure TotalPreorder (compare : α → α → Int) : Prop where
  swap : ∀ x y, compare x y < 0 ↔ 0 < compare y x
  trans : ∀ x y z, compare x y ≤ 0 → compare y z ≤ 0 → compare x z ≤ 0

section Order
variable {compare : α → α → Int} {key x y : α} {values : List α} {i j : Nat}

theorem sortedAt (order : TotalPreorder compare)
    (sorted : values.Pairwise fun x y => compare x y ≤ 0) (before : i ≤ j)
    (first : values[i]? = some x) (second : values[j]? = some y) : compare x y ≤ 0 := by
  obtain ⟨inside, rfl⟩ := List.getElem?_eq_some_iff.mp first
  obtain ⟨inside', rfl⟩ := List.getElem?_eq_some_iff.mp second
  rcases Nat.eq_or_lt_of_le before with rfl | less
  · have same := order.swap values[i] values[i]
    omega
  · exact List.pairwise_iff_getElem.mp sorted i j inside inside' less

theorem aboveBefore (order : TotalPreorder compare) (less : compare x y ≤ 0)
    (above : 0 < compare key y) : 0 < compare key x := by
  by_contra not
  have reaches := order.trans key x y (Int.not_lt.mp not) less
  omega

theorem belowAfter (order : TotalPreorder compare) (less : compare x y ≤ 0)
    (below : compare key x < 0) : compare key y < 0 := by
  by_contra not
  rw [order.swap] at not below
  have reaches := order.trans x y key less (Int.not_lt.mp not)
  omega

end Order

section Window
variable {compare : α → α → β → Int} {aux : β} {key x : α} {a : Elements α} {lo hi i turns : Nat}

theorem addressSmall (inside : i ≤ a.values.length) : a.address i % 2 ^ 32 = a.address i := by
  have most := Nat.mul_le_mul_left a.size inside
  have ends := a.ends
  exact Nat.mod_eq_of_lt (by unfold Elements.address; omega)

theorem readAddress (found : a.values[i]? = some x) : a.read (a.address i) = .ok x := by
  have offset : a.address i - a.array = a.size * i := Nat.add_sub_cancel_left ..
  unfold Elements.read
  rw [offset, if_pos ⟨Nat.le_add_right .., Nat.dvd_mul_right ..⟩, Nat.mul_div_cancel_left i a.sized,
    peek, found]

theorem middleAddress : a.address lo + (a.address hi - a.address lo) / a.size / 2 * a.size =
    a.address (lo + (hi - lo) / 2) := by
  have span : a.address hi - a.address lo = a.size * (hi - lo) := by
    unfold Elements.address
    rw [Nat.add_sub_add_left, Nat.mul_sub]
  rw [span, Nat.mul_div_cancel_left _ a.sized, Nat.mul_comm _ a.size, Elements.address,
    Elements.address, Nat.add_assoc, ← Nat.mul_add]

theorem loopStep (less : lo < hi) (inside : hi ≤ a.values.length)
    (found : a.values[lo + (hi - lo) / 2]? = some x) :
    searchLoop compare aux key a (turns + 1) (a.address lo) (a.address hi) =
      if compare key x aux < 0 then
        searchLoop compare aux key a turns (a.address lo) (a.address (lo + (hi - lo) / 2))
      else if compare key x aux > 0 then
        searchLoop compare aux key a turns (a.address (lo + (hi - lo) / 2 + 1)) (a.address hi)
      else .ok (a.address (lo + (hi - lo) / 2)) := by
  have active : a.address lo < a.address hi :=
    Nat.add_lt_add_left (Nat.mul_lt_mul_of_pos_left less a.sized) _
  have next (i : Nat) : a.address i + a.size = a.address (i + 1) := Nat.add_assoc ..
  rw [searchLoop, if_pos active]
  simp only [middleAddress]
  rw [addressSmall (by omega), readAddress found, next, addressSmall (by omega)]
  rfl

/-- The key is above what stands before the window and below what stands behind it. -/
structure Window (compare : α → α → β → Int) (aux : β) (key : α) (a : Elements α) (lo hi : Nat) :
    Prop where
  order : lo ≤ hi
  inside : hi ≤ a.values.length
  above : ∀ i x, i < lo → a.values[i]? = some x → 0 < compare key x aux
  below : ∀ i x, hi ≤ i → a.values[i]? = some x → compare key x aux < 0

def Finds (compare : α → α → β → Int) (aux : β) (key : α) (a : Elements α) (p : Nat) : Prop :=
  (∃ i x, a.values[i]? = some x ∧ p = a.address i ∧ compare key x aux = 0) ∨
    p = 0 ∧ ∀ x ∈ a.values, compare key x aux ≠ 0

theorem windowEmpty (window : Window compare aux key a lo lo) : Finds compare aux key a 0 := by
  refine .inr ⟨rfl, fun x among => ?_⟩
  obtain ⟨i, found⟩ := List.getElem?_of_mem among
  rcases Nat.lt_or_ge i lo with before | behind
  · exact Int.ne_of_gt (window.above i x before found)
  · exact Int.ne_of_lt (window.below i x behind found)

theorem loopFinds (order : TotalPreorder fun x y => compare x y aux)
    (sorted : a.values.Pairwise fun x y => compare x y aux ≤ 0)
    (window : Window compare aux key a lo hi) (enough : hi - lo < turns) :
    ∃ p, searchLoop compare aux key a turns (a.address lo) (a.address hi) = .ok p ∧
      Finds compare aux key a p := by
  induction turns generalizing lo hi with
  | zero => cases enough
  | succ turns ih =>
    obtain ⟨ordered, inside, above, below⟩ := window
    rcases Nat.eq_or_lt_of_le ordered with rfl | less
    · exact ⟨0, if_neg (Nat.lt_irrefl _), windowEmpty ⟨ordered, inside, above, below⟩⟩
    · obtain ⟨x, found⟩ : ∃ x, a.values[lo + (hi - lo) / 2]? = some x :=
        ⟨_, List.getElem?_eq_getElem (by omega)⟩
      rw [loopStep less inside found]
      split
      · rename_i smaller
        refine ih ⟨by omega, by omega, above, fun i y behind there => ?_⟩ (by omega)
        exact belowAfter order (sortedAt order sorted behind found there) smaller
      · split
        · rename_i greater
          refine ih ⟨by omega, inside, fun i y before there => ?_, below⟩ (by omega)
          exact aboveBefore order
            (sortedAt order sorted (Nat.le_of_lt_succ before) there found) greater
        · rename_i equal
          exact ⟨_, rfl, .inl ⟨_, x, found, rfl, by omega⟩⟩

theorem binarySearchFinds (compare : α → α → β → Int) (aux : β)
    (order : TotalPreorder fun x y => compare x y aux) (a : Elements α)
    (sorted : a.values.Pairwise fun x y => compare x y aux ≤ 0) (key : α) (turns : Nat)
    (enough : a.values.length < turns) :
    ∃ p, binarySearch compare aux key a turns = .ok p ∧ Finds compare aux key a p := by
  have window : Window compare aux key a 0 a.values.length := by
    refine ⟨Nat.zero_le _, Nat.le_refl _, ?_, ?_⟩
    · intro i x before
      cases before
    · intro i x behind found
      rw [List.getElem?_eq_none behind] at found
      cases found
  have last : (a.array + a.size * a.values.length) % 2 ^ 32 = a.address a.values.length :=
    addressSmall (Nat.le_refl _)
  rw [binarySearch, last]
  exact loopFinds order sorted window enough

theorem binarySearchFindsExample : ∃ a : Elements Int, a.values = [1, 3, 3, 5] ∧
    ∃ p, bsearch (fun x y => x - y) 3 a 5 = .ok p ∧ Finds compareThunk (fun x y => x - y) 3 a p := by
  refine ⟨⟨4096, 4, [1, 3, 3, 5], by decide, by decide, by decide⟩, rfl, ?_⟩
  have order : TotalPreorder fun x y : Int => x - y := by
    constructor
    · intro x y
      omega
    · intro x y z first second
      omega
  exact binarySearchFinds compareThunk _ order _ (by decide) 3 5 (by decide)

end Window
end Pintos.Library
