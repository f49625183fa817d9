import Mathlib.Data.List.Perm.Basic
import Mathlib.Data.List.Nodup

/-! Elements spread over numbered buckets: what is in the first `n` of them, taken in order. -/
namespace Pintos.Buckets

variable {α : Type} {n : Nat} {b : Nat → List α}

def gather (n : Nat) (b : Nat → List α) : List α := (List.range n).flatMap b

theorem memGather {x : α} : x ∈ gather n b ↔ ∃ i < n, x ∈ b i := by
  simp [gather]

theorem gatherSucc : gather (n + 1) b = gather n b ++ b n := by
  simp [gather, List.range_succ]

theorem gatherCongr {b' : Nat → List α} (same : ∀ i < n, b' i = b i) : gather n b' = gather n b := by
  induction n with
  | zero => rfl
  | succ n ih =>
    rw [gatherSucc, gatherSucc, ih fun i less => same i (Nat.lt_succ_of_lt less),
      same n (Nat.lt_succ_self n)]

theorem gatherSplit {k : Nat} (inside : k ≤ n) :
    gather n b = gather k b ++ (List.range' k (n - k)).flatMap b := by
  have whole : List.range n = List.range k ++ List.range' k (n - k) := by
    have joined := @List.range'_append_1 0 k (n - k)
    rw [Nat.zero_add, Nat.add_sub_cancel' inside] at joined
    rw [List.range_eq_range', List.range_eq_range', joined]
  rw [gather, whole, List.flatMap_append]
  rfl

def push (index : α → Nat) (b : Nat → List α) (x : α) : Nat → List α :=
  Function.update b (index x) (x :: b (index x))

def spread (index : α → Nat) (b : Nat → List α) (xs : List α) : Nat → List α :=
  xs.foldl (push index) b

variable {index : α → Nat}

theorem gatherPush {x : α} (inside : index x < n) :
    (gather n (push index b x)).Perm (x :: gather n b) := by
  induction n with
  | zero => exact absurd inside (Nat.not_lt_zero _)
  | succ n ih =>
    rw [gatherSucc, gatherSucc]
    by_cases last : index x = n
    · have before : gather n (push index b x) = gather n b :=
        gatherCongr fun i less => Function.update_of_ne (last ▸ Nat.ne_of_lt less) _ _
      have here : push index b x n = x :: b n := by
        rw [← last]
        exact Function.update_self _ _ _
      rw [before, here]
      exact List.perm_middle
    · have here : push index b x n = b n := Function.update_of_ne (Ne.symm last) _ _
      rw [here]
      exact (ih (by omega)).append_right (b n)

theorem gatherSpread {xs : List α} (inside : ∀ x ∈ xs, index x < n) :
    (gather n (spread index b xs)).Perm (xs ++ gather n b) := by
  induction xs generalizing b with
  | nil => exact .refl _
  | cons x xs ih =>
    have rest := ih (b := push index b x) fun y mem => inside y (List.mem_cons_of_mem _ mem)
    have first := gatherPush (b := b) (inside x List.mem_cons_self)
    exact rest.trans ((first.append_left xs).trans List.perm_middle)

def Placed (index : α → Nat) (n : Nat) (b : Nat → List α) : Prop :=
  ∀ i < n, ∀ x ∈ b i, index x = i

theorem placedPush {x : α} (placed : Placed index n b) : Placed index n (push index b x) := by
  intro i less y mem
  by_cases here : i = index x
  · subst here
    rw [push, Function.update_self] at mem
    rcases List.mem_cons.mp mem with rfl | old
    · rfl
    · exact placed _ less y old
  · rw [push, Function.update_of_ne here] at mem
    exact placed i less y mem

theorem placedSpread {xs : List α} (placed : Placed index n b) : Placed index n (spread index b xs) := by
  induction xs generalizing b with
  | nil => exact placed
  | cons x xs ih => exact ih (placedPush placed)

theorem gatherErase [DecidableEq α] (nodup : (gather n b).Nodup) (x : α) :
    gather n (fun i => (b i).erase x) = (gather n b).erase x := by
  have each (i : Nat) (less : i < n) : (b i).erase x = (b i).filter (· != x) := by
    refine List.Nodup.erase_eq_filter ?_ x
    refine nodup.sublist ?_
    exact List.sublist_flatten_of_mem (List.mem_map.mpr ⟨i, List.mem_range.mpr less, rfl⟩)
  rw [nodup.erase_eq_filter, gatherCongr each, gather, gather,
    List.filter_flatMap]

theorem placedErase [DecidableEq α] (placed : Placed index n b) (x : α) :
    Placed index n fun i => (b i).erase x :=
  fun i less y mem => placed i less y (List.mem_of_mem_erase mem)

end Pintos.Buckets
