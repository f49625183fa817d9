import Mathlib.Algebra.Group.Nat.Defs
import Mathlib.Logic.Function.Basic

/-! `memmove` (lib/string.c). Memory is a function on addresses; pointers count modulo `2 ^ 32`. -/
namespace Pintos.Library

inductive CopyFault where
  | assertion
  deriving DecidableEq, Repr

def copyUp (m : Nat → Nat) (dst src : Nat) : Nat → (Nat → Nat) × Nat
  | 0 => (m, dst)
  | size + 1 =>
    copyUp (Function.update m dst (m src)) ((dst + 1) % 2 ^ 32) ((src + 1) % 2 ^ 32) size

def copyDown (m : Nat → Nat) (dst src : Nat) : Nat → (Nat → Nat) × Nat
  | 0 => (m, dst)
  | size + 1 =>
    let dst := (dst + (2 ^ 32 - 1)) % 2 ^ 32
    let src := (src + (2 ^ 32 - 1)) % 2 ^ 32
    copyDown (Function.update m dst (m src)) dst src size

-- what is returned is the working pointer, not the argument
def memmove (m : Nat → Nat) (dst src size : Nat) : Except CopyFault ((Nat → Nat) × Nat) :=
  if ¬(dst ≠ 0 ∨ size = 0) ∨ ¬(src ≠ 0 ∨ size = 0) then .error .assertion
  else if dst < src then .ok (copyUp m dst src size)
  else .ok (copyDown m ((dst + size) % 2 ^ 32) ((src + size) % 2 ^ 32) size)

/-- A range of bytes in memory, where nothing is at NULL. -/
def Within (p size : Nat) : Prop := p < 2 ^ 32 ∧ (size = 0 ∨ p ≠ 0 ∧ p + size ≤ 2 ^ 32)

def copied (m : Nat → Nat) (dst src size : Nat) : Nat → Nat :=
  fun a => if dst ≤ a ∧ a < dst + size then m (src + (a - dst)) else m a

variable {m : Nat → Nat} {dst src size : Nat}

theorem copiedZero : copied m dst src 0 = m :=
  funext fun _ => if_neg (by omega)

-- the first byte is written; what is read later lies above it
theorem copiedUp (before : dst < src) :
    copied (Function.update m dst (m src)) (dst + 1) (src + 1) size =
      copied m dst src (size + 1) := by
  funext a
  unfold copied
  rcases Nat.lt_trichotomy a dst with less | rfl | more
  · rw [if_neg (by omega), if_neg (by omega), Function.update_of_ne (by omega)]
  · rw [if_neg (by omega), if_pos (by omega), Function.update_self, Nat.sub_self]
    rfl
  · rw [Function.update_of_ne (by omega), Function.update_of_ne (by omega),
      show src + 1 + (a - (dst + 1)) = src + (a - dst) by omega]
    exact if_congr (by omega) rfl rfl

-- the last byte is written; what is read later lies below it
theorem copiedDown (after : src ≤ dst) :
    copied (Function.update m (dst + size) (m (src + size))) dst src size =
      copied m dst src (size + 1) := by
  funext a
  unfold copied
  rcases Nat.lt_trichotomy a (dst + size) with less | rfl | more
  · by_cases first : dst ≤ a
    · rw [if_pos (by omega), if_pos (by omega), Function.update_of_ne (by omega)]
    · rw [if_neg (by omega), if_neg (by omega), Function.update_of_ne (by omega)]
  · rw [if_neg (by omega), if_pos (by omega), Function.update_self, Nat.add_sub_cancel_left]
  · rw [if_neg (by omega), if_neg (by omega), Function.update_of_ne (by omega)]

theorem copyUpSpec (before : dst < src) (inside : src + size ≤ 2 ^ 32) :
    copyUp m (dst % 2 ^ 32) (src % 2 ^ 32) size =
      (copied m dst src size, (dst + size) % 2 ^ 32) := by
  induction size generalizing m dst src with
  | zero =>
    rw [copiedZero]
    rfl
  | succ size ih =>
    unfold copyUp
    rw [Nat.mod_eq_of_lt (a := dst) (by omega), Nat.mod_eq_of_lt (a := src) (by omega),
      ih (by omega) (by omega), copiedUp before, Nat.add_right_comm]
    rfl

theorem copyDownSpec (after : src ≤ dst) (inside : dst + size ≤ 2 ^ 32) :
    copyDown m ((dst + size) % 2 ^ 32) ((src + size) % 2 ^ 32) size =
      (copied m dst src size, dst % 2 ^ 32) := by
  induction size generalizing m with
  | zero =>
    rw [copiedZero]
    rfl
  | succ size ih =>
    have back {p : Nat} (fits : p + (size + 1) ≤ 2 ^ 32) :
        ((p + (size + 1)) % 2 ^ 32 + (2 ^ 32 - 1)) % 2 ^ 32 = (p + size) % 2 ^ 32 := by omega
    unfold copyDown
    simp only [back inside, back (Nat.le_trans (Nat.add_le_add_right after _) inside)]
    rw [ih (by omega), Nat.mod_eq_of_lt (by omega), Nat.mod_eq_of_lt (by omega), copiedDown after]

theorem memmoveSpec (target : Within dst size) (source : Within src size) :
    memmove m dst src size = .ok (copied m dst src size,
      if dst < src then (dst + size) % 2 ^ 32 else dst) := by
  obtain ⟨word, target⟩ := target
  obtain ⟨word', source⟩ := source
  unfold memmove
  rw [if_neg (by omega)]
  split
  · rename_i before
    have inside : src + size ≤ 2 ^ 32 := by omega
    have done := @copyUpSpec m dst src size before inside
    rw [Nat.mod_eq_of_lt word, Nat.mod_eq_of_lt word'] at done
    rw [done]
  · rename_i after
    rw [copyDownSpec (by omega) (by omega), Nat.mod_eq_of_lt word]

/-- The bytes are right for every overlap; the pointer is the argument only where the copy went
down or was empty. -/
theorem memmoveCopies (m : Nat → Nat) (dst src size : Nat) (target : Within dst size)
    (source : Within src size) : ∃ m' p, memmove m dst src size = .ok (m', p) ∧
      (∀ i < size, m' (dst + i) = m (src + i)) ∧
      (∀ a, ¬(dst ≤ a ∧ a < dst + size) → m' a = m a) ∧
      (p = dst ↔ ¬(dst < src ∧ 0 < size)) := by
  refine ⟨_, _, memmoveSpec target source, fun i inside => ?_, fun a outside => if_neg outside, ?_⟩
  · unfold copied
    rw [if_pos (by omega), Nat.add_sub_cancel_left]
  · obtain ⟨word, target⟩ := target
    split <;> omega

theorem memmoveCopiesExample : ∃ m' p, memmove id 12 8 6 = .ok (m', p) ∧
    (∀ i < 6, m' (12 + i) = id (8 + i)) ∧ (∀ a, ¬(12 ≤ a ∧ a < 12 + 6) → m' a = id a) ∧
    (p = 12 ↔ ¬(12 < 8 ∧ 0 < 6)) :=
  memmoveCopies id 12 8 6 ⟨by decide, .inr (by decide)⟩ ⟨by decide, .inr (by decide)⟩

theorem memmoveMoved : Within 8 4 ∧ Within 10 4 ∧ ∃ m', memmove id 8 10 4 = .ok (m', 12) :=
  ⟨⟨by decide, .inr (by decide)⟩, ⟨by decide, .inr (by decide)⟩, _, rfl⟩

end Pintos.Library
