import Mathlib.Algebra.BigOperators.Fin
import Mathlib.Algebra.Order.BigOperators.Group.Finset

/-! Counting members of a growing family: what a counter says when every member
contributes a weight of its own. -/
namespace Pintos.Count
open Finset

variable {n : Nat} {g h : Nat → Nat}

theorem sumChange {t : Nat} (inside : t < n) (same : ∀ i, i ≠ t → h i = g i) :
    ∑ i ∈ range n, h i + g t = ∑ i ∈ range n, g i + h t := by
  rw [← add_sum_erase _ g (mem_range.mpr inside), ← add_sum_erase _ h (mem_range.mpr inside)]
  have rest : ∑ i ∈ (range n).erase t, h i = ∑ i ∈ (range n).erase t, g i :=
    sum_congr rfl fun i hi => same i (ne_of_mem_erase hi)
  rw [rest]
  omega

theorem sumMore {m : Nat} (more : n ≤ m) (none : ∀ i, n ≤ i → g i = 0) :
    ∑ i ∈ range m, g i = ∑ i ∈ range n, g i :=
  (sum_subset (range_subset_range.mpr more) fun i _ out =>
    none i (Nat.not_lt.mp fun inside => out (mem_range.mpr inside))).symm

theorem pairLe {t u : Nat} (inside : t < n) (inside' : u < n) (apart : t ≠ u) :
    g t + g u ≤ ∑ i ∈ range n, g i := by
  rw [← sum_pair apart]
  exact sum_le_sum_of_subset (by simp [insert_subset_iff, inside, inside'])

theorem othersZero {few : Finset Nat} {u : Nat} (all : ∑ i ∈ range n, g i ≤ ∑ i ∈ few, g i)
    (inside : ∀ i ∈ few, i < n) (other : u ∉ few) (known : u < n) : g u = 0 := by
  have more : ∑ i ∈ insert u few, g i ≤ ∑ i ∈ range n, g i := sum_le_sum_of_subset <|
    insert_subset (mem_range.mpr known) fun i old => mem_range.mpr (inside i old)
  rw [sum_insert other] at more
  omega

theorem sumOutside {few : Finset Nat} (more : ∑ i ∈ few, g i < ∑ i ∈ range n, g i) :
    ∃ i, i < n ∧ i ∉ few ∧ 0 < g i := by
  by_contra none
  have rest : ∀ i ∈ range n, i ∉ few → g i = 0 := by
    intro i inside out
    by_contra positive
    exact none ⟨i, mem_range.mp inside, out, Nat.pos_of_ne_zero positive⟩
  have same : ∑ i ∈ range n ∩ few, g i = ∑ i ∈ range n, g i :=
    sum_subset inter_subset_left fun i inside out =>
      rest i inside fun member => out (mem_inter.mpr ⟨inside, member⟩)
  have bound : ∑ i ∈ range n ∩ few, g i ≤ ∑ i ∈ few, g i := sum_le_sum_of_subset inter_subset_right
  omega

end Pintos.Count
