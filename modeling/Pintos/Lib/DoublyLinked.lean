import Mathlib.Data.List.Nodup

/-! Doubly linked lists between two sentinels, as lib/kernel/list.c has them: a removal
rewrites the neighbours the node says it has, whether it is in the list or not. A chain
of nodes is a list when the pointers agree in both directions. -/
namespace Pintos.DoublyLinked
open Function (update)

variable {ν : Type}

structure Links (ν : Type) where
  next : ν → Option ν
  prev : ν → Option ν

section Operations
variable [DecidableEq ν]

def Links.insert (l : Links ν) (before node : ν) : Option (Links ν) :=
  match l.prev before with
  | none => none
  | some p => some {
      next := update (update l.next node (some before)) p (some node)
      prev := update (update l.prev node (some p)) before (some node)}

def Links.remove (l : Links ν) (node : ν) : Option (Links ν) :=
  match l.prev node, l.next node with
  | some p, some n => some {
      next := update l.next p (some n)
      prev := update l.prev n (some p)}
  | _, _ => none

end Operations

def Segment (l : Links ν) (a : ν) : List ν → ν → Prop
  | [], b => l.next a = some b ∧ l.prev b = some a
  | x :: xs, b => (l.next a = some x ∧ l.prev x = some a) ∧ Segment l x xs b

instance decideSegment [DecidableEq ν] (l : Links ν) :
    (a : ν) → (xs : List ν) → (b : ν) → Decidable (Segment l a xs b)
  | a, [], b => inferInstanceAs (Decidable (l.next a = some b ∧ l.prev b = some a))
  | a, x :: xs, b =>
    have := decideSegment l x xs b
    inferInstanceAs (Decidable ((l.next a = some x ∧ l.prev x = some a) ∧ Segment l x xs b))

structure Linked (l : Links ν) (head : ν) (xs : List ν) (tail : ν) : Prop where
  segment : Segment l head xs tail
  nodup : (head :: (xs ++ [tail])).Nodup

variable {l l' : Links ν} {a b x y : ν} {xs ys : List ν}

theorem segmentPrev (segment : Segment l a xs b) : ∃ p ∈ a :: xs, l.prev b = some p := by
  induction xs generalizing a with
  | nil => exact ⟨a, by simp, segment.2⟩
  | cons y ys ih =>
    obtain ⟨p, inside, prev⟩ := ih segment.2
    exact ⟨p, List.mem_cons_of_mem a inside, prev⟩

theorem segmentNext (segment : Segment l a xs b) : ∃ n ∈ xs ++ [b], l.next a = some n := by
  cases xs with
  | nil => exact ⟨b, by simp, segment.1⟩
  | cons y ys => exact ⟨y, by simp, segment.1.1⟩

theorem segmentSame (segment : Segment l a xs b) (next : ∀ u ∈ a :: xs, l'.next u = l.next u)
    (prev : ∀ u ∈ xs ++ [b], l'.prev u = l.prev u) : Segment l' a xs b := by
  induction xs generalizing a with
  | nil => exact ⟨(next a (by simp)).trans segment.1, (prev b (by simp)).trans segment.2⟩
  | cons y ys ih =>
    refine ⟨⟨(next a (by simp)).trans segment.1.1, (prev y (by simp)).trans segment.1.2⟩, ?_⟩
    exact ih segment.2 (fun u inside => next u (List.mem_cons_of_mem a inside))
      fun u inside => prev u (List.mem_cons_of_mem y inside)

theorem segmentSplit (segment : Segment l a (xs ++ x :: ys) b) :
    Segment l a xs x ∧ Segment l x ys b := by
  induction xs generalizing a with
  | nil => exact segment
  | cons y zs ih =>
    obtain ⟨left, right⟩ := ih segment.2
    exact ⟨⟨segment.1, left⟩, right⟩

theorem segmentUnique (segment : Segment l a xs b) (other : Segment l a ys b)
    (apart : b ∉ xs) (apart' : b ∉ ys) : xs = ys := by
  induction xs generalizing a ys with
  | nil =>
    cases ys with
    | nil => rfl
    | cons y ys =>
      cases Option.some.inj (segment.1.symm.trans other.1.1)
      simp at apart'
  | cons x xs ih =>
    cases ys with
    | nil =>
      cases Option.some.inj (other.1.symm.trans segment.1.1)
      simp at apart
    | cons y ys =>
      cases Option.some.inj (segment.1.1.symm.trans other.1.1)
      rw [ih segment.2 other.2 (fun h => apart (List.mem_cons_of_mem _ h))
        fun h => apart' (List.mem_cons_of_mem _ h)]

theorem linkedUnique (linked : Linked l a xs b) (other : Linked l a ys b) : xs = ys := by
  have last : ∀ {zs : List ν}, (a :: (zs ++ [b])).Nodup → b ∉ zs := by
    intro zs nodup inside
    have apart := (List.nodup_append.mp (List.nodup_cons.mp nodup).2).2.2
    exact apart b inside b (by simp) rfl
  exact segmentUnique linked.segment other.segment (last linked.nodup) (last other.nodup)

instance [DecidableEq ν] (l : Links ν) (a b : ν) (xs : List ν) : Decidable (Linked l a xs b) :=
  decidable_of_iff (Segment l a xs b ∧ (a :: (xs ++ [b])).Nodup)
    ⟨fun both => ⟨both.1, both.2⟩, fun linked => ⟨linked.segment, linked.nodup⟩⟩

section Operations
variable [DecidableEq ν]

theorem segmentInsert {p : ν} (segment : Segment l a xs b) (prev : l.prev b = some p)
    (apart : (a :: (xs ++ [b])).Nodup) (new : x ∉ a :: (xs ++ [b])) :
    Segment {
      next := update (update l.next x (some b)) p (some x)
      prev := update (update l.prev x (some p)) b (some x)} a (xs ++ [x]) b := by
  induction xs generalizing a with
  | nil =>
    cases Option.some.inj (segment.2.symm.trans prev)
    simp only [List.nil_append, List.mem_cons, List.not_mem_nil, or_false, not_or] at new
    simp only [List.nil_append, Segment]
    simp [new.1, new.2]
  | cons y ys ih =>
    obtain ⟨first, rest⟩ := List.nodup_cons.mp apart
    have after : x ∉ y :: (ys ++ [b]) := fun h => new (List.mem_cons_of_mem a h)
    refine ⟨⟨?_, ?_⟩, ih segment.2 rest after⟩
    · -- the old last node is further on
      obtain ⟨q, inside, prev'⟩ := segmentPrev segment.2
      cases Option.some.inj (prev.symm.trans prev')
      have other : a ≠ p := fun same => first (by
        rw [same]
        exact List.mem_append_left [b] inside)
      have older : a ≠ x := fun same => new (by simp [same])
      simp [other, older, segment.1.1]
    · have inner : y ≠ b := fun same => (List.nodup_cons.mp rest).1 (by simp [same])
      have older : y ≠ x := fun same => new (by simp [same])
      simp [inner, older, segment.1.2]

theorem linkedInsert (linked : Linked l a xs b) (new : x ∉ a :: (xs ++ [b])) :
    ∃ l', l.insert b x = some l' ∧ Linked l' a (xs ++ [x]) b := by
  obtain ⟨p, _, prev⟩ := segmentPrev linked.segment
  refine ⟨_, by rw [Links.insert, prev], ?_, ?_⟩
  · exact segmentInsert linked.segment prev linked.nodup new
  · obtain ⟨first, rest⟩ := List.nodup_cons.mp linked.nodup
    have order : (xs ++ [x] ++ [b]).Perm (x :: (xs ++ [b])) := by
      rw [List.append_assoc]
      exact List.perm_middle
    refine (List.Perm.cons a order).nodup_iff.mpr ?_
    refine List.nodup_cons.mpr ⟨?_, List.nodup_cons.mpr ⟨?_, rest⟩⟩
    · intro inside
      rcases List.mem_cons.mp inside with same | inside
      · exact new (by simp [same])
      · exact first inside
    · exact fun inside => new (List.mem_cons_of_mem a inside)

theorem segmentRemove {p n : ν} (left : Segment l a xs x) (right : Segment l x ys b)
    (apart : (a :: (xs ++ x :: (ys ++ [b]))).Nodup) (prev : l.prev x = some p)
    (next : l.next x = some n) :
    Segment {
      next := update l.next p (some n)
      prev := update l.prev n (some p)} a (xs ++ ys) b := by
  induction xs generalizing a with
  | nil =>
    cases Option.some.inj (left.2.symm.trans prev)
    obtain ⟨first, rest⟩ := List.nodup_cons.mp apart
    obtain ⟨inner, rest⟩ := List.nodup_cons.mp rest
    cases ys with
    | nil =>
      cases Option.some.inj (right.1.symm.trans next)
      simp [Segment]
    | cons y ys =>
      cases Option.some.inj (right.1.1.symm.trans next)
      refine ⟨by simp, segmentSame right.2 ?_ ?_⟩
      · intro u inside
        have other : u ≠ p := fun same => first (by
          rw [← same]
          exact List.mem_cons_of_mem x (List.mem_append_left [b] inside))
        simp [other]
      · intro u inside
        have other : u ≠ n := fun same => (List.nodup_cons.mp rest).1 (same ▸ inside)
        simp [other]
  | cons y zs ih =>
    obtain ⟨first, rest⟩ := List.nodup_cons.mp apart
    refine ⟨⟨?_, ?_⟩, ih left.2 rest⟩
    · obtain ⟨q, inside, prev'⟩ := segmentPrev left.2
      cases Option.some.inj (prev.symm.trans prev')
      have other : a ≠ p := fun same => first (by
        rw [same]
        exact List.mem_append_left _ inside)
      simp [other, left.1.1]
    · obtain ⟨q, inside, next'⟩ := segmentNext right
      cases Option.some.inj (next.symm.trans next')
      have other : y ≠ n := fun same => (List.nodup_cons.mp rest).1 (by
        rw [same]
        exact List.mem_append_right zs (List.mem_cons_of_mem x inside))
      simp [other, left.1.2]

theorem linkedRemove (linked : Linked l a xs b) (inside : x ∈ xs) :
    ∃ l', l.remove x = some l' ∧ Linked l' a (xs.erase x) b := by
  obtain ⟨ys, zs, rfl⟩ := List.append_of_mem inside
  have apart := linked.nodup
  rw [List.append_assoc, List.cons_append] at apart
  obtain ⟨left, right⟩ := segmentSplit linked.segment
  obtain ⟨p, _, prev⟩ := segmentPrev left
  obtain ⟨n, _, next⟩ := segmentNext right
  have before : x ∉ ys := fun early => by
    have rest := (List.nodup_cons.mp apart).2
    exact (List.nodup_append.mp rest).2.2 x early x (by simp) rfl
  have same : (ys ++ x :: zs).erase x = ys ++ zs := by
    rw [List.erase_append_right _ before, List.erase_cons_head]
  refine ⟨_, by rw [Links.remove, prev, next], ?_, ?_⟩
  · rw [same]
    exact segmentRemove left right apart prev next
  · rw [same]
    refine List.Nodup.sublist ?_ apart
    rw [List.append_assoc]
    exact .cons_cons a (List.Sublist.append_left (List.sublist_cons_self x _) ys)

end Operations

def beside [DecidableEq ν] (l : List ν) (x : ν) : List ν :=
  (l.takeWhile (· ≠ x)).getLast?.toList ++ (l.dropWhile (· ≠ x)).tail.head?.toList

theorem besideMem [DecidableEq ν] {l : List ν} {x y : ν} (near : y ∈ beside l x) : y ∈ l := by
  simp only [beside, List.mem_append, Option.mem_toList] at near
  rcases near with before | after
  · exact (List.takeWhile_sublist _).mem (List.mem_of_getLast? before)
  · exact (List.dropWhile_sublist _).mem (List.mem_of_mem_tail (List.mem_of_head? after))

end Pintos.DoublyLinked
