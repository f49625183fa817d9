import Mathlib.Data.List.Basic
import Mathlib.Data.List.TakeWhile
import Pintos.Library.Arithmetic

/-! `read_command_line` (threads/init.c): the loader's arguments as the writes to `argv`, pointers
being offsets in the argument area. -/
namespace Pintos.Kernel
open Machine Library

structure LoaderArgs where
  bytes : List UInt8
  size : bytes.length = 128

inductive BootPanic where
  | argumentsOverflow
  deriving DecidableEq, Repr

def strnlen (bytes : List UInt8) : Nat := (bytes.takeWhile (· ≠ 0)).length

abbrev ArgvWrite := Int × Option Nat

def readWords (area : List UInt8) (p i : Nat) : Nat → Except BootPanic (List ArgvWrite)
  | 0 => .ok []
  | n + 1 =>
    if area.length ≤ p then .error .argumentsOverflow
    else do
      let writes ← readWords area (p + (strnlen (area.drop p) + 1)) (i + 1) n
      .ok ((↑i, some p) :: writes)

-- the count is read as an int; a negative one leaves the loop at once
def readCommandLine (area : LoaderArgs) (count : UInt32) : Except BootPanic (List ArgvWrite) := do
  let argc := int32 count.toNat
  let writes ← readWords area.bytes 0 0 argc.toNat
  .ok (writes ++ [(argc, none)])

def Terminated (area : List UInt8) (p : Nat) : Prop := 0 ∈ area.drop p

def Fits (area : LoaderArgs) (write : ArgvWrite) : Prop :=
  0 ≤ write.1 ∧ write.1 ≤ 64 ∧ ∀ p, write.2 = some p → Terminated area.bytes p

section Words
variable {area bytes : List UInt8} {p i n : Nat}

theorem wordEnds (ends : 0 ∈ bytes) :
    bytes = bytes.takeWhile (· ≠ 0) ++ 0 :: bytes.drop (strnlen bytes + 1) := by
  unfold strnlen
  induction bytes with
  | nil => cases ends
  | cons b bytes ih =>
    by_cases zero : b = 0
    · simp [zero]
    · have later : 0 ∈ bytes := by
        rcases List.mem_cons.mp ends with here | later
        · exact absurd here.symm zero
        · exact later
      simpa [zero] using ih later

theorem wordCount (ends : 0 ∈ bytes) :
    bytes.count 0 = (bytes.drop (strnlen bytes + 1)).count 0 + 1 ∧
      (bytes.drop (strnlen bytes + 1) ≠ [] →
        bytes.getLast? = (bytes.drop (strnlen bytes + 1)).getLast?) ∧
      (bytes.drop (strnlen bytes + 1) = [] → bytes.getLast? = some 0) := by
  have split := wordEnds ends
  have none : (bytes.takeWhile (· ≠ 0)).count 0 = 0 := by
    rw [List.count_eq_zero]
    intro inside
    simpa using List.mem_takeWhile_imp inside
  generalize bytes.drop (strnlen bytes + 1) = rest at split ⊢
  generalize bytes.takeWhile (· ≠ 0) = word at split none
  subst split
  refine ⟨by simp [none], fun more => ?_, fun last => by simp [last]⟩
  rw [List.getLast?_append_of_ne_nil _ (List.cons_ne_nil _ _)]
  exact List.getLast?_append_of_ne_nil [0] more

theorem wordLast (endless : 0 ∉ bytes) : bytes.drop (strnlen bytes + 1) = [] := by
  have whole : bytes.takeWhile (· ≠ 0) = bytes := by
    rw [List.takeWhile_eq_self_iff]
    intro b inside
    simpa using fun zero : b = 0 => endless (zero ▸ inside)
  unfold strnlen
  rw [whole]
  exact List.drop_eq_nil_of_le (Nat.le_succ _)

theorem wordsRead (enough : n ≤ (area.drop p).count 0) : ∃ writes, readWords area p i n = .ok writes ∧
    ∀ write ∈ writes, ∃ k q, write = (((i + k : Nat) : Int), some q) ∧ k < n ∧
      Terminated area q := by
  induction n generalizing p i with
  | zero => exact ⟨[], rfl, fun _ no => by cases no⟩
  | succ n ih =>
    have ends : 0 ∈ area.drop p := List.count_pos_iff.mp (by omega)
    have inside : ¬area.length ≤ p := fun past => by
      rw [List.drop_eq_nil_of_le past] at ends
      cases ends
    have counted := (wordCount ends).1
    rw [List.drop_drop] at counted
    obtain ⟨writes, read, fits⟩ := @ih (p + (strnlen (area.drop p) + 1)) (i + 1) (by omega)
    refine ⟨(↑i, some p) :: writes, by rw [readWords, if_neg inside, read]; rfl, ?_⟩
    intro write mem
    rcases List.mem_cons.mp mem with rfl | later
    · exact ⟨0, p, rfl, Nat.succ_pos n, ends⟩
    · obtain ⟨k, q, rfl, below, ended⟩ := fits write later
      exact ⟨k + 1, q, by rw [Nat.add_assoc, Nat.add_comm 1], Nat.succ_lt_succ below, ended⟩

theorem wordsOverflow (more : (area.drop p).count 0 < n)
    (last : n = (area.drop p).count 0 + 1 → ∀ b ∈ (area.drop p).getLast?, b = 0) :
    readWords area p i n = .error .argumentsOverflow := by
  induction n generalizing p i with
  | zero => cases more
  | succ n ih =>
    unfold readWords
    split
    · rfl
    · rename_i inside
      have nonempty : area.drop p ≠ [] := by simpa using inside
      have rest : readWords area (p + (strnlen (area.drop p) + 1)) (i + 1) n =
          .error .argumentsOverflow := by
        by_cases ends : 0 ∈ area.drop p
        · obtain ⟨counted, same, _⟩ := wordCount ends
          rw [List.drop_drop] at counted same
          refine ih (by omega) fun equal b mem => ?_
          rw [← same (fun empty => by rw [empty] at mem; cases mem)] at mem
          exact last (by omega) b mem
        · have zeros : (area.drop p).count 0 = 0 := List.count_eq_zero.mpr ends
          have empty := wordLast ends
          rw [List.drop_drop] at empty
          have two : n ≠ 0 := fun none => by
            have zero := last (by omega) _ (List.getLast?_eq_some_getLast nonempty)
            exact ends (zero ▸ List.getLast_mem nonempty)
          exact ih (by rw [empty]; simpa using Nat.pos_of_ne_zero two)
            (fun _ b mem => by rw [empty] at mem; cases mem)
      rw [rest]
      rfl

theorem wordsUnended {b : UInt8} (all : n = (area.drop p).count 0 + 1)
    (last : (area.drop p).getLast? = some b) (letter : b ≠ 0) :
    ∃ writes, readWords area p i n = .ok writes ∧
      ∃ write ∈ writes, ∃ q, write.2 = some q ∧ ¬Terminated area q := by
  induction n generalizing p i with
  | zero => omega
  | succ n ih =>
    have inside : ¬area.length ≤ p := fun past => by
      rw [List.drop_eq_nil_of_le past] at last
      cases last
    unfold readWords
    rw [if_neg inside]
    by_cases ends : 0 ∈ area.drop p
    · obtain ⟨counted, same, ended⟩ := wordCount ends
      have more : (area.drop p).drop (strnlen (area.drop p) + 1) ≠ [] := fun empty =>
        letter (Option.some.inj (last.symm.trans (ended empty)))
      rw [same more] at last
      rw [List.drop_drop] at counted last
      obtain ⟨writes, read, write, mem, open'⟩ := @ih (p + (strnlen (area.drop p) + 1)) (i + 1) (by omega) last
      exact ⟨_, by rw [read]; rfl, write, List.mem_cons_of_mem _ mem, open'⟩
    · have zeros : (area.drop p).count 0 = 0 := List.count_eq_zero.mpr ends
      obtain rfl : n = 0 := by omega
      exact ⟨_, rfl, _, List.mem_singleton_self _, p, rfl, ends⟩

end Words

variable {area : LoaderArgs} {n : Nat}

def Safe (area : LoaderArgs) (result : Except BootPanic (List ArgvWrite)) (argc : Int) : Prop :=
  Ends result fun writes => ∀ write ∈ writes ++ [(argc, none)], Fits area write

theorem safeFewer (fewer : n ≤ area.bytes.count 0) :
    Safe area (readWords area.bytes 0 0 n) n ↔ n ≤ 64 := by
  obtain ⟨writes, read, fits⟩ := @wordsRead area.bytes 0 0 n fewer
  rw [Safe, read, endsOk]
  constructor
  · intro all
    have last := (all _ (List.mem_append_right _ (List.mem_singleton_self _))).2.1
    omega
  · intro few write mem
    rcases List.mem_append.mp mem with word | last
    · obtain ⟨k, q, rfl, below, ended⟩ := fits write word
      refine ⟨by simp, by simp only; omega, fun p same => ?_⟩
      obtain rfl := Option.some.inj same
      exact ended
    · obtain rfl := List.mem_singleton.mp last
      exact ⟨by simp, by simp only; omega, fun p no => by cases no⟩

theorem safeAll (all : n = area.bytes.count 0 + 1) :
    Safe area (readWords area.bytes 0 0 n) n ↔ area.bytes.getLast? = some 0 := by
  have nonempty : area.bytes ≠ [] := fun empty => by simpa [empty] using area.size
  have last := List.getLast?_eq_some_getLast nonempty
  by_cases zero : area.bytes.getLast nonempty = 0
  · have beyond : readWords area.bytes 0 0 n = .error .argumentsOverflow :=
      wordsOverflow (by simp [all])
        (fun _ b mem => (Option.some.inj (last.symm.trans mem)).symm.trans zero)
    rw [Safe, beyond, last, zero]
    exact iff_of_true (endsError.mpr trivial) rfl
  · obtain ⟨writes, read, write, mem, q, same, unended⟩ := @wordsUnended _ 0 0 n _ all last zero
    rw [Safe, read, endsOk, last]
    refine iff_of_false (fun fits => unended ?_) (fun no => zero (Option.some.inj no))
    exact (fits write (List.mem_append_left _ mem)).2.2 q same

/-- The arguments are split safely when the count is no negative int, and either exceeds the strings
or is at most 64; an unterminated last string must not be among them. -/
theorem commandLineSplit (area : LoaderArgs) (count : UInt32) :
    Ends (readCommandLine area count) (fun writes => ∀ write ∈ writes, Fits area write) ↔
    count.toNat < 2 ^ 31 ∧ (count.toNat ≤ area.bytes.count 0 → count.toNat ≤ 64) ∧
      (count.toNat = area.bytes.count 0 + 1 → area.bytes.getLast? = some 0) := by
  have word := count.toNat_lt
  simp only [readCommandLine, endsBind, endsOk]
  rcases Nat.lt_or_ge count.toNat (2 ^ 31) with small | large
  · have argc : int32 count.toNat = count.toNat := int32Same.mpr (by omega)
    rw [argc, Int.toNat_natCast]
    rcases Nat.lt_trichotomy count.toNat (area.bytes.count 0 + 1) with fewer | all | more
    · rw [← Safe, safeFewer (by omega)]
      omega
    · rw [← Safe, safeAll all]
      exact ⟨fun zero => ⟨small, fun no => by omega, fun _ => zero⟩, fun both => both.2.2 all⟩
    · have beyond : readWords area.bytes 0 0 count.toNat = .error .argumentsOverflow :=
        wordsOverflow (by simpa using Nat.lt_of_succ_lt more)
          (fun no => by simp at no; omega)
      rw [beyond]
      exact iff_of_true (endsError.mpr trivial) ⟨small, fun no => by omega, fun no => by omega⟩
  · have negative : int32 count.toNat < 0 := by
      rw [int32, Int.bmod_def]
      omega
    generalize int32 count.toNat = argc at negative ⊢
    rw [Int.toNat_of_nonpos (Int.le_of_lt negative), readWords, endsOk]
    refine iff_of_false (fun fits => ?_) (fun both => by omega)
    have least : 0 ≤ argc := (fits _ (List.mem_singleton_self _)).1
    omega

def blankArgs : LoaderArgs where
  bytes := List.replicate 128 0
  size := by simp

/-- 65 empty strings are accepted, and NULL is written beyond the array. -/
theorem commandLineOverrun : ∃ writes, readCommandLine blankArgs 65 = .ok writes ∧
    (65, none) ∈ writes := by
  have zeros : (blankArgs.bytes.drop 0).count 0 = 128 := List.count_replicate_self
  obtain ⟨writes, read, _⟩ := @wordsRead blankArgs.bytes 0 0 65 (by rw [zeros]; decide)
  have result : readCommandLine blankArgs 65 = .ok (writes ++ [(65, none)]) := by
    rw [readCommandLine, show int32 (65 : UInt32).toNat = 65 by decide]
    exact bindOk.mpr ⟨writes, read, rfl⟩
  exact ⟨_, result, List.mem_append_right _ (List.mem_singleton_self _)⟩

end Pintos.Kernel
