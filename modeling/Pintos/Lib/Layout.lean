import Mathlib.Data.List.Basic

/-! A block of memory and the fields laid out in it. -/
namespace Pintos.Layout

variable {α : Type}

def store (offset : Nat) (values block : List α) : List α :=
  block.mapIdx fun i old => if offset ≤ i then values.getD (i - offset) old else old

@[simp] theorem storeLength (offset : Nat) (values block : List α) :
    (store offset values block).length = block.length := List.length_mapIdx

theorem storeApart {offset i : Nat} {values block : List α}
    (apart : i < offset ∨ offset + values.length ≤ i) :
    (store offset values block)[i]? = block[i]? := by
  rw [store, List.getElem?_mapIdx]
  cases block[i]? with
  | none => rfl
  | some old =>
    by_cases before : i < offset
    · simp [Nat.not_le.mpr before]
    · have past : values[i - offset]? = none := List.getElem?_eq_none (by omega)
      simp [past]

theorem storeWithin {offset i : Nat} {values block : List α} (within : i < values.length)
    (inside : offset + i < block.length) :
    (store offset values block)[offset + i]? = values[i]? := by
  rw [store, List.getElem?_mapIdx, List.getElem?_eq_getElem inside]
  simp [within]

structure Field where
  offset : Nat
  size : Nat
  deriving DecidableEq, Repr

def Field.get (f : Field) (block : List α) : List α := (block.drop f.offset).take f.size

theorem getAt (f : Field) (block : List α) (i : Nat) :
    (f.get block)[i]? = if i < f.size then block[f.offset + i]? else none := by
  split
  · rename_i less
    rw [Field.get, List.getElem?_take_of_lt less, List.getElem?_drop]
  · rename_i past
    exact List.getElem?_eq_none (by simp only [Field.get, List.length_take]; omega)

theorem getStoreApart {f g : Field} {values block : List α} (fits : values.length ≤ g.size)
    (apart : f.offset + f.size ≤ g.offset ∨ g.offset + g.size ≤ f.offset) :
    f.get (store g.offset values block) = f.get block := by
  apply List.ext_getElem?
  intro i
  rw [getAt, getAt]
  split
  · exact storeApart (by omega)
  · rfl

theorem getStore {f : Field} {values block : List α} (fits : values.length ≤ f.size)
    (inside : f.offset + f.size ≤ block.length) :
    f.get (store f.offset values block) = values ++ (f.get block).drop values.length := by
  apply List.ext_getElem?
  intro i
  rw [getAt]
  rcases Nat.lt_or_ge i values.length with less | past
  · rw [if_pos (by omega), storeWithin less (by omega), List.getElem?_append_left less]
  · rw [List.getElem?_append_right past, List.getElem?_drop, getAt, storeApart (by omega),
      Nat.add_sub_cancel' past]

-- What can go wrong in a walk over a block that checks its reads.
inductive Fault where
  | outside (i : Nat)
  | null
  | turns
  deriving DecidableEq, Repr

def peek (block : List α) (i : Nat) : Except Fault α :=
  match block[i]? with
  | some c => .ok c
  | none => .error (.outside i)

theorem byteInside {block : List α} {i : Nat} (inside : i < block.length) :
    ∃ c, block[i]? = some c ∧ peek block i = .ok c ∧ block.drop i = c :: block.drop (i + 1) :=
  ⟨block[i], by simp, by simp [peek, inside], List.drop_eq_getElem_cons inside⟩

end Pintos.Layout
