import Mathlib.Data.List.TakeWhile
import Pintos.Lib.Machine

/-! `strtok_r` (lib/string.c). Memory is the block of the string with its terminator; a pointer is an
offset in it, and an access beyond the block is a fault. -/
namespace Pintos.Library
open Machine

inductive StringFault where
  | outside
  deriving DecidableEq, Repr

abbrev Bytes := List UInt8

def strchr (delimiters : Bytes) (c : UInt8) : Bool := delimiters.contains c || c == 0

def scan (test : UInt8 → Bool) : Bytes → Nat → Except StringFault Nat
  | [], _ => .error .outside
  | c :: rest, s => if test c then .ok s else scan test rest (s + 1)

def strtokR (mem delimiters : Bytes) (s : Option Nat) (save : Nat) :
    Except StringFault (Bytes × Option Nat × Nat) := do
  let s := s.getD save
  let s ← scan (fun c => !strchr delimiters c || c == 0) (mem.drop s) s
  if mem[s]? = some 0 then .ok (mem, none, s)
  else
    let stop ← scan (strchr delimiters) (mem.drop s) s
    if mem[stop]? = some 0 then .ok (mem, some s, stop)
    else .ok (mem.set stop 0, some s, stop + 1)

def tokenize (mem delimiters : Bytes) (s : Option Nat) (save : Nat) :
    Nat → Except StringFault (Option (List Nat × Bytes × Nat))
  | 0 => .ok none
  | fuel + 1 => do
    let (mem, token, save) ← strtokR mem delimiters s save
    match token with
    | none => .ok (some ([], mem, save))
    | some token => do
      let rest ← tokenize mem delimiters none save fuel
      .ok (rest.map fun rest => (token :: rest.1, rest.2))

/-- The maximal runs without delimiters, each with its place: one begins at a byte that is no
delimiter and that none precedes, and goes on to the next delimiter. -/
def runs (delimiters : Bytes) (inside : Bool) (p : Nat) : Bytes → List (Nat × Bytes)
  | [] => []
  | c :: rest =>
    if c ∈ delimiters then runs delimiters false (p + 1) rest
    else if inside then runs delimiters true (p + 1) rest
    else (p, c :: rest.takeWhile (· ∉ delimiters)) :: runs delimiters true (p + 1) rest

/-- What the calls leave of the string: the delimiter after each run is cleared. -/
def cut (delimiters : Bytes) (inside : Bool) : Bytes → Bytes
  | [] => []
  | c :: rest =>
    if c ∈ delimiters then (if inside then 0 else c) :: cut delimiters false rest
    else c :: cut delimiters true rest

section Runs
variable {delimiters word rest : Bytes} {inside : Bool} {p : Nat} {c : UInt8}

theorem runsSkip (skip : ∀ c ∈ word, c ∈ delimiters) :
    runs delimiters false p (word ++ rest) = runs delimiters false (p + word.length) rest ∧
      cut delimiters false (word ++ rest) = word ++ cut delimiters false rest := by
  induction word generalizing p with
  | nil => exact ⟨rfl, rfl⟩
  | cons c word ih =>
    obtain ⟨first, others⟩ := List.forall_mem_cons.mp skip
    obtain ⟨same, same'⟩ := @ih (p + 1) others
    rw [List.cons_append, runs, cut, if_pos first, if_pos first, same, same']
    exact ⟨by rw [List.length_cons, Nat.add_assoc, Nat.add_comm 1], rfl⟩

theorem runsWord (plain : ∀ c ∈ word, c ∉ delimiters) :
    runs delimiters true p (word ++ rest) = runs delimiters true (p + word.length) rest ∧
      cut delimiters true (word ++ rest) = word ++ cut delimiters true rest := by
  induction word generalizing p with
  | nil => exact ⟨rfl, rfl⟩
  | cons c word ih =>
    obtain ⟨first, others⟩ := List.forall_mem_cons.mp plain
    obtain ⟨same, same'⟩ := @ih (p + 1) others
    rw [List.cons_append, runs, cut, if_neg first, if_neg first, if_pos rfl, same, same']
    exact ⟨by rw [List.length_cons, Nat.add_assoc, Nat.add_comm 1], rfl⟩

theorem cutWord (delimiters rest : Bytes) : ∃ tail,
    cut delimiters true rest ++ [0] = rest.takeWhile (· ∉ delimiters) ++ 0 :: tail := by
  induction rest with
  | nil => exact ⟨[], rfl⟩
  | cons c rest ih =>
    by_cases delimiter : c ∈ delimiters
    · exact ⟨cut delimiters false rest ++ [0], by simp [cut, delimiter]⟩
    · obtain ⟨tail, same⟩ := ih
      exact ⟨tail, by simp [cut, delimiter, same]⟩

theorem runsEnded {run : Nat × Bytes} (mem : run ∈ runs delimiters inside p rest) :
    ∃ i tail, run.1 = p + i ∧
      (cut delimiters inside rest ++ [0]).drop i = run.2 ++ 0 :: tail := by
  induction rest generalizing inside p with
  | nil => cases mem
  | cons c rest ih =>
    have later {inside : Bool} {b : UInt8} (mem : run ∈ runs delimiters inside (p + 1) rest) :
        ∃ i tail, run.1 = p + i ∧
          (b :: cut delimiters inside rest ++ [0]).drop i = run.2 ++ 0 :: tail := by
      obtain ⟨i, tail, place, ended⟩ := ih mem
      exact ⟨i + 1, tail, by omega, ended⟩
    by_cases delimiter : c ∈ delimiters
    · rw [runs, if_pos delimiter] at mem
      rw [cut, if_pos delimiter]
      exact later mem
    · rw [runs, if_neg delimiter] at mem
      rw [cut, if_neg delimiter]
      cases inside with
      | true => exact later mem
      | false =>
        rcases List.mem_cons.mp mem with rfl | mem
        · obtain ⟨tail, same⟩ := cutWord delimiters rest
          exact ⟨0, tail, rfl, congrArg (List.cons c) same⟩
        · exact later mem

theorem cutLength : (cut delimiters inside rest).length = rest.length := by
  induction rest generalizing inside with
  | nil => rfl
  | cons c rest ih =>
    unfold cut
    split <;> rw [List.length_cons, List.length_cons, ih]

theorem cutChanges (i : Nat) : (cut delimiters inside rest)[i]? = rest[i]? ∨
    ∃ d ∈ delimiters, rest[i]? = some d := by
  induction rest generalizing inside i with
  | nil => exact .inl rfl
  | cons c rest ih =>
    unfold cut
    cases i with
    | zero =>
      by_cases delimiter : c ∈ delimiters
      · exact .inr ⟨c, delimiter, rfl⟩
      · exact .inl (by rw [if_neg delimiter]; rfl)
    | succ i => split <;> exact ih i

end Runs

section Calls
variable {delimiters before skip word line tail : Bytes} {s : Option Nat} {save p fuel : Nat}
  {b c : UInt8}

theorem scanStops {test : UInt8 → Bool} (skips : ∀ c ∈ word, test c = false)
    (stops : test c = true) : scan test (word ++ c :: tail) p = .ok (p + word.length) := by
  induction word generalizing p with
  | nil => exact if_pos stops
  | cons b word ih =>
    obtain ⟨first, others⟩ := List.forall_mem_cons.mp skips
    rw [List.cons_append, scan, first, if_neg Bool.false_ne_true, ih others, List.length_cons,
      Nat.add_assoc, Nat.add_comm 1]

theorem skipped (skips : ∀ c ∈ skip, c ∈ delimiters) (text : 0 ∉ skip) :
    ∀ c ∈ skip, (!strchr delimiters c || c == 0) = false := by
  intro c inside
  have letter : c ≠ 0 := fun zero => text (zero ▸ inside)
  simp [strchr, skips c inside, letter]

theorem callNone (here : s.getD save = before.length) (skips : ∀ c ∈ skip, c ∈ delimiters)
    (text : 0 ∉ skip) : strtokR (before ++ (skip ++ [0])) delimiters s save =
      .ok (before ++ (skip ++ [0]), none, before.length + skip.length) := by
  simp only [strtokR, here, List.drop_left]
  rw [scanStops (skipped skips text) (by simp)]
  refine bindOk.mpr ⟨_, rfl, if_pos ?_⟩
  simp

theorem getAppend {lead : Bytes} (same : lead.length = p) : (lead ++ c :: tail)[p]? = some c := by
  simp [← same]

theorem callToken (here : s.getD save = before.length) (skips : ∀ c ∈ skip, c ∈ delimiters)
    (text : 0 ∉ skip) (plain : ∀ c ∈ b :: word, c ∉ delimiters) (text' : 0 ∉ b :: word)
    (stops : strchr delimiters c = true) :
    strtokR (before ++ (skip ++ (b :: word ++ c :: tail))) delimiters s save =
      .ok (before ++ (skip ++ (b :: word ++ 0 :: tail)), some (before.length + skip.length),
        before.length + skip.length + (b :: word).length + if c = 0 then 0 else 1) := by
  have kept : ∀ c ∈ b :: word, strchr delimiters c = false := by
    intro c inside
    have letter : c ≠ 0 := fun zero => text' (zero ▸ inside)
    simp [strchr, plain c inside, letter]
  have first : b ≠ 0 := fun zero => text' (zero ▸ List.mem_cons_self)
  have again : (before ++ (skip ++ (b :: word ++ c :: tail))).drop (before.length + skip.length) =
      b :: word ++ c :: tail := by
    rw [← List.append_assoc, ← List.length_append, List.drop_left]
  have start : (before ++ (skip ++ (b :: word ++ c :: tail)))[before.length + skip.length]? =
      some b := by
    rw [← List.append_assoc]
    exact getAppend List.length_append
  have whole (d : UInt8) : before ++ (skip ++ (b :: word ++ d :: tail)) =
      (before ++ (skip ++ b :: word)) ++ d :: tail := by
    simp
  have place : (before ++ (skip ++ b :: word)).length =
      before.length + skip.length + (b :: word).length := by
    simp [Nat.add_assoc]
  simp only [strtokR, here, List.drop_left]
  have found := @scanStops skip (word ++ c :: tail) before.length b _ (skipped skips text)
    (by simp [kept b List.mem_cons_self])
  refine bindOk.mpr ⟨_, found, ?_⟩
  rw [start, if_neg (by simpa using first), again, scanStops kept stops]
  refine bindOk.mpr ⟨_, rfl, ?_⟩
  rw [whole, getAppend place]
  by_cases zero : c = 0
  · simp [zero]
  · rw [if_neg (by simpa using zero), if_neg zero, ← place, List.set_append_right _ _ (Nat.le_refl _),
      Nat.sub_self, List.set_cons_zero, ← whole, place]

theorem tokenizeNext {mem mem' : Bytes} {token save' : Nat} {tokens : List Nat} {left : Bytes × Nat}
    (call : strtokR mem delimiters s save = .ok (mem', some token, save'))
    (rest : tokenize mem' delimiters none save' fuel = .ok (some (tokens, left))) :
    tokenize mem delimiters s save (fuel + 1) = .ok (some (token :: tokens, left)) := by
  rw [tokenize, call]
  refine bindOk.mpr ⟨_, rfl, ?_⟩
  exact bindOk.mpr ⟨_, rest, rfl⟩

theorem tokenizeSpec (here : s.getD save = before.length) (text : 0 ∉ line)
    (enough : line.length < fuel) : tokenize (before ++ (line ++ [0])) delimiters s save fuel =
      .ok (some ((runs delimiters false before.length line).map Prod.fst,
        before ++ (cut delimiters false line ++ [0]), before.length + line.length)) := by
  induction fuel generalizing before line s save with
  | zero => cases enough
  | succ fuel ih =>
    by_cases blank : ∀ c ∈ line, c ∈ delimiters
    · have none := @runsSkip delimiters line [] before.length blank
      rw [List.append_nil] at none
      rw [tokenize, callNone here blank text, none.1, none.2, cut, List.append_nil]
      rfl
    · simp only [not_forall] at blank
      obtain ⟨c, mem, out⟩ := blank
      obtain ⟨b, skip, rest, skips, first, rfl, _⟩ :=
        List.exists_of_eraseP (p := (· ∉ delimiters)) mem (by simpa using out)
      simp only [decide_eq_true_eq, not_not] at skips first
      obtain ⟨lead, text'⟩ : 0 ∉ skip ∧ 0 ∉ b :: rest := by simpa using text
      have skipped := @runsSkip delimiters skip (b :: rest) before.length skips
      rw [skipped.1, skipped.2, runs, cut, if_neg first, if_neg first, if_neg Bool.false_ne_true]
      have shorter : rest.length < fuel := by
        rw [List.length_append, List.length_cons] at enough
        omega
      by_cases last : ∀ c ∈ rest, c ∉ delimiters
      · have call := @callToken delimiters before skip rest [] s save b 0 here skips lead
          (List.forall_mem_cons.mpr ⟨first, last⟩) text' (by simp [strchr])
        have none' := @runsWord delimiters rest [] (before.length + skip.length + 1) last
        rw [List.append_nil] at none'
        rw [none'.1, none'.2]
        have left := @ih (before ++ (skip ++ b :: rest)) [] none
          (before.length + skip.length + (b :: rest).length + 0) (by simp [Nat.add_assoc]) (by simp)
          (Nat.lt_of_le_of_lt (Nat.zero_le _) shorter)
        have result := tokenizeNext call (by simpa using left)
        simpa [cut, runs, Nat.add_assoc] using result
      · simp only [not_forall, not_not] at last
        obtain ⟨c, mem, out⟩ := last
        obtain ⟨d, word, tail, plain, delimiter, rfl, _⟩ :=
          List.exists_of_eraseP (p := (· ∈ delimiters)) mem (by simpa using out)
        simp only [decide_eq_true_eq] at plain delimiter
        have texts : 0 ∉ b :: word ∧ d ≠ 0 ∧ 0 ∉ tail := by
          simp only [List.mem_cons, List.mem_append, not_or] at text' ⊢
          exact ⟨⟨text'.1, text'.2.1⟩, Ne.symm text'.2.2.1, text'.2.2.2⟩
        have call := @callToken delimiters before skip word (tail ++ [0]) s save b d here skips lead
          (List.forall_mem_cons.mpr ⟨first, plain⟩) texts.1 (by simp [strchr, delimiter])
        rw [if_neg texts.2.1] at call
        have inside := @runsWord delimiters word (d :: tail) (before.length + skip.length + 1) plain
        rw [inside.1, inside.2, runs, cut, if_pos delimiter, if_pos delimiter, if_pos rfl]
        have left := @ih (before ++ (skip ++ (b :: word ++ [0]))) tail none
          (before.length + skip.length + (b :: word).length + 1) (by simp [Nat.add_assoc]) texts.2.2
          (by simp at shorter; omega)
        have result := tokenizeNext call (by simpa using left)
        simpa [Nat.add_assoc, Nat.add_comm, Nat.add_left_comm] using result

/-- The calls find the runs of the line in order, and clear a delimiter after each of them. -/
theorem tokenizeRuns (line delimiters : Bytes) (fuel : Nat) (text : 0 ∉ line)
    (enough : line.length < fuel) : ∃ mem save,
      tokenize (line ++ [0]) delimiters (some 0) 0 fuel =
        .ok (some ((runs delimiters false 0 line).map Prod.fst, mem, save)) ∧
      (∀ run ∈ runs delimiters false 0 line, ∃ tail, mem.drop run.1 = run.2 ++ 0 :: tail) ∧
      strtokR mem delimiters none save = .ok (mem, none, save) ∧
      ∀ i : Nat, mem[i]? = (line ++ [0])[i]? ∨ ∃ d ∈ delimiters, (line ++ [0])[i]? = some d := by
  have length := @cutLength delimiters line false
  refine ⟨_, _, @tokenizeSpec delimiters [] line (some 0) 0 fuel rfl text enough, ?_, ?_, ?_⟩
  · intro run mem
    obtain ⟨i, tail, place, ended⟩ := runsEnded mem
    rw [place, Nat.zero_add]
    exact ⟨tail, ended⟩
  · have again := @callNone delimiters (cut delimiters false line) [] none line.length length.symm
      (fun _ no => by cases no) (by simp)
    simpa [length] using again
  · intro i
    rw [List.nil_append, List.getElem?_append, List.getElem?_append, length]
    split
    · exact cutChanges i
    · exact .inl rfl

theorem tokenizeRunsExample : ∃ save,
    tokenize ([97, 32, 32, 98, 99, 32] ++ [0]) [32] (some 0) 0 7 =
      .ok (some ([0, 3], [97, 0, 32, 98, 99, 0, 0], save)) ∧
    strtokR [97, 0, 32, 98, 99, 0, 0] [32] none save = .ok ([97, 0, 32, 98, 99, 0, 0], none, save) := by
  obtain ⟨mem, save, calls, _, again, _⟩ :=
    tokenizeRuns [97, 32, 32, 98, 99, 32] [32] 7 (by decide) (by decide)
  have computed : passes (tokenize ([97, 32, 32, 98, 99, 32] ++ [0]) [32] (some 0) 0 7) (fun result =>
      decide (result.map (·.2.1) = some [97, 0, 32, 98, 99, 0, 0])) = true := by decide
  rw [calls] at computed
  cases Option.some.inj (of_decide_eq_true computed)
  exact ⟨save, calls, again⟩

end Calls
end Pintos.Library
