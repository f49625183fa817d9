import Mathlib.Data.List.Sort

/-! Lists kept in order of a key. The list library inserts an element before
the first one it must precede, so that with a strict comparison it goes behind
its equals and with a weak one in front of them; both keep the list sorted. -/
namespace Pintos.Ordered

variable {α : Type} (key : α → Nat)

def Descending (xs : List α) : Prop := xs.Pairwise (fun a b => key b ≤ key a)

instance (xs : List α) : Decidable (Descending key xs) := by
  unfold Descending; infer_instance

variable {key}

theorem descendingInsert {before : α → α → Prop} [DecidableRel before] {x : α} {xs : List α}
    (goes : ∀ a b, before a b → key b ≤ key a) (stays : ∀ a b, ¬ before a b → key a ≤ key b)
    (sorted : Descending key xs) : Descending key (xs.orderedInsert before x) := by
  induction xs with
  | nil => simp [Descending]
  | cons y ys ih =>
    obtain ⟨top, rest⟩ := List.pairwise_cons.mp sorted
    simp only [List.orderedInsert]
    split
    · rename_i above
      refine List.pairwise_cons.mpr ⟨?_, sorted⟩
      intro z hz
      rcases List.mem_cons.mp hz with rfl | inside
      · exact goes x z above
      · exact Nat.le_trans (top z inside) (goes x y above)
    · rename_i below
      refine List.pairwise_cons.mpr ⟨?_, ih rest⟩
      intro z hz
      rcases List.mem_orderedInsert _ |>.mp hz with rfl | inside
      · exact stays z y below
      · exact top z inside

theorem insertCongr {before other : α → α → Prop} [DecidableRel before] [DecidableRel other]
    (same : ∀ a b, before a b ↔ other a b) (x : α) (xs : List α) :
    xs.orderedInsert before x = xs.orderedInsert other x := by
  induction xs with
  | nil => rfl
  | cons y ys ih => simp only [List.orderedInsert, same, ih]

theorem sortCongr {before other : α → α → Prop} [DecidableRel before] [DecidableRel other]
    (same : ∀ a b, before a b ↔ other a b) (xs : List α) :
    xs.insertionSort before = xs.insertionSort other := by
  induction xs with
  | nil => rfl
  | cons y ys ih => simp only [List.insertionSort_cons, ih, insertCongr same]

theorem descendingErase [DecidableEq α] {xs : List α} (x : α) (sorted : Descending key xs) :
    Descending key (xs.erase x) :=
  List.Pairwise.sublist List.erase_sublist sorted

theorem descendingCongr {other : α → Nat} {xs : List α} (sorted : Descending key xs)
    (same : ∀ x ∈ xs, other x = key x) : Descending other xs := by
  refine List.Pairwise.imp_of_mem ?_ sorted
  intro a b ha hb le
  rw [same a ha, same b hb]
  exact le

theorem headLargest {x : α} {xs : List α} (sorted : Descending key (x :: xs)) :
    ∀ y ∈ x :: xs, key y ≤ key x := by
  intro y hy
  rcases List.mem_cons.mp hy with rfl | inside
  · exact Nat.le_refl _
  · exact (List.pairwise_cons.mp sorted).1 y inside

end Pintos.Ordered
