import Mathlib.Data.List.GetD
import Mathlib.Tactic.Basic

/-! Values at numbered addresses without an end: what a run of addresses holds, and the image
after a list of values was written from an address on. -/
namespace Pintos.Image

variable {α : Type} {image image' : Nat → α} {start len a k : Nat} {values : List α}

def slice (image : Nat → α) (start len : Nat) : List α :=
  (List.range len).map fun k => image (start + k)

def overlay (image : Nat → α) (start : Nat) (values : List α) (a : Nat) : α :=
  if start ≤ a then values.getD (a - start) (image a) else image a

@[simp] theorem sliceLength : (slice image start len).length = len := by simp [slice]

theorem sliceGet : (slice image start len)[k]? = if k < len then some (image (start + k)) else none := by
  rw [slice, List.getElem?_map]
  split
  · rename_i less
    rw [List.getElem?_range less]
    rfl
  · rename_i past
    rw [List.getElem?_eq_none (by simpa using past)]
    rfl

theorem sliceCongr (same : ∀ k < len, image' (start + k) = image (start + k)) :
    slice image' start len = slice image start len :=
  List.map_congr_left fun k inside => same k (List.mem_range.mp inside)

theorem sliceAdd (m n : Nat) :
    slice image start (m + n) = slice image start m ++ slice image (start + m) n := by
  apply List.ext_getElem?
  intro k
  rw [sliceGet]
  rcases Nat.lt_or_ge k m with less | past
  · rw [List.getElem?_append_left (by simpa using less), sliceGet, if_pos less, if_pos (by omega)]
  · rw [List.getElem?_append_right (by simpa using past), sliceLength, sliceGet]
    by_cases inside : k < m + n
    · rw [if_pos inside, if_pos (by omega), show start + m + (k - m) = start + k by omega]
    · rw [if_neg inside, if_neg (by omega)]

theorem sliceWithin {offset n : Nat} (inside : offset + n ≤ len) :
    ((slice image start len).drop offset).take n = slice image (start + offset) n := by
  apply List.ext_getElem?
  intro k
  rw [List.getElem?_take, List.getElem?_drop, sliceGet, sliceGet]
  by_cases less : k < n
  · rw [if_pos less, if_pos less, if_pos (by omega), Nat.add_assoc]
  · rw [if_neg less, if_neg less]

theorem overlayApart (apart : a < start ∨ start + values.length ≤ a) :
    overlay image start values a = image a := by
  unfold overlay
  split
  · rw [List.getD_eq_default _ _ (by omega)]
  · rfl

theorem overlayWithin (within : k < values.length) :
    overlay image start values (start + k) = values[k] := by
  rw [overlay, if_pos (by omega), Nat.add_sub_cancel_left, List.getD_eq_getElem _ _ within]

theorem sliceOverlayApart {start' : Nat}
    (apart : start' + len ≤ start ∨ start + values.length ≤ start') :
    slice (overlay image start values) start' len = slice image start' len :=
  sliceCongr fun k less => overlayApart (by omega)

theorem sliceOverlay (whole : values.length = len) :
    slice (overlay image start values) start len = values :=
  List.ext_getElem (by simp [whole]) fun k _ inside => by simp [slice, overlayWithin inside]

theorem overlayNil : overlay image start [] = image := by
  funext a
  exact overlayApart (by simp; omega)

theorem overlayAppend (left right : List α) :
    overlay image start (left ++ right) =
      overlay (overlay image start left) (start + left.length) right := by
  funext a
  rcases Nat.lt_or_ge a start with before | from'
  · rw [overlayApart (.inl before), overlayApart (by omega), overlayApart (.inl before)]
  obtain ⟨k, rfl⟩ : ∃ k, a = start + k := ⟨a - start, by omega⟩
  rcases Nat.lt_or_ge k left.length with first | later
  · rw [overlayWithin (by rw [List.length_append]; omega), List.getElem_append_left first,
      overlayApart (by omega), overlayWithin first]
  obtain ⟨j, rfl⟩ : ∃ j, k = left.length + j := ⟨k - left.length, by omega⟩
  rcases Nat.lt_or_ge j right.length with second | past
  · rw [overlayWithin (by rw [List.length_append]; omega), ← Nat.add_assoc, overlayWithin second]
    simp
  · rw [overlayApart (by rw [List.length_append]; omega), overlayApart (by omega),
      overlayApart (by omega)]

theorem sliceTake {n : Nat} (inside : n ≤ len) :
    (slice image start len).take n = slice image start n := by
  have part : ((slice image start len).drop 0).take n = slice image (start + 0) n :=
    sliceWithin (by omega)
  simpa using part

theorem sliceDrop (n : Nat) :
    (slice image start len).drop n = slice image (start + n) (len - n) := by
  apply List.ext_getElem?
  intro k
  rw [List.getElem?_drop, sliceGet, sliceGet, Nat.add_assoc]
  by_cases inside : n + k < len
  · rw [if_pos inside, if_pos (by omega)]
  · rw [if_neg inside, if_neg (by omega)]

theorem overlaySlice (n : Nat) : overlay image start (slice image start n) = image := by
  funext a
  rcases Nat.lt_or_ge a start with before | from'
  · exact overlayApart (.inl before)
  obtain ⟨k, rfl⟩ : ∃ k, a = start + k := ⟨a - start, by omega⟩
  rcases Nat.lt_or_ge k n with less | past
  · rw [overlayWithin (by simpa using less)]
    simp [slice]
  · exact overlayApart (by rw [sliceLength]; omega)

theorem overlayPatch {offset : Nat} (inside : offset + values.length ≤ len) :
    overlay image start ((slice image start len).take offset ++ values ++
      (slice image start len).drop (offset + values.length)) =
      overlay image (start + offset) values := by
  have after : slice image (start + (offset + values.length)) (len - (offset + values.length)) =
      slice (overlay image (start + offset) values) (start + (offset + values.length))
        (len - (offset + values.length)) :=
    (sliceOverlayApart (by omega)).symm
  rw [sliceTake (by omega), sliceDrop, overlayAppend, overlayAppend, overlaySlice, sliceLength,
    List.length_append, sliceLength, after, overlaySlice]

end Pintos.Image
