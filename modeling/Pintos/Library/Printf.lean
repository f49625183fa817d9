import Pintos.Lib.Layout
import Pintos.Library.Format

/-! The walk of `__vprintf` of lib/stdio.c over its format, with `parse_conversion`. The arguments are
a stream, so that they supply what the conversions ask for. -/
namespace Pintos.Library
open Layout

section Walk

inductive ArgType where
  | char
  | short
  | int
  | intmax
  | long
  | longlong
  | ptrdifft
  | sizet
  deriving DecidableEq, Repr

inductive Piece where
  | char (c : UInt8)
  | conversion (letter : UInt8) (c : PrintfConversion) (type : ArgType) (arg : Nat)
  deriving DecidableEq, Repr

def Flags.set (flags : Flags) : UInt8 → Option Flags
  | 45 => some {flags with minus := true}
  | 43 => some {flags with plus := true}
  | 32 => some {flags with space := true}
  | 35 => some {flags with pound := true}
  | 48 => some {flags with zero := true}
  | 39 => some {flags with group := true}
  | _ => none

variable (format : List UInt8) (args : Nat → Int)

def parseFlags : Nat → Nat → Flags → Except Fault (Nat × Flags)
  | 0, _, _ => .error .turns
  | turns + 1, i, flags => do
    match flags.set (← peek format i) with
    | some flags => parseFlags turns (i + 1) flags
    | none =>
      let flags := {flags with zero := flags.zero && !flags.minus}
      return (i, {flags with space := flags.space && !flags.plus})

-- The value is an `int`.
def parseDigits : Nat → Nat → Int → Except Fault (Nat × Int)
  | 0, _, _ => .error .turns
  | turns + 1, i, value => do
    let c ← peek format i
    if isdigit c then parseDigits turns (i + 1) ((value * 10 + c.toNat - 48).bmod (2 ^ 32))
    else return (i, value)

-- `n` is the number of the next argument.
def parseNumber (i n : Nat) : Except Fault (Nat × Nat × Int) := do
  if (← peek format i) = 42 then return (i + 1, n + 1, args n)
  let (i, value) ← parseDigits format format.length i 0
  return (i, n, value)

def parsePrecision (i n : Nat) : Except Fault (Nat × Nat × Int) := do
  if (← peek format i) = 46 then
    let (i, n, precision) ← parseNumber format args (i + 1) n
    return (i, n, if precision < 0 then -1 else precision)
  return (i, n, -1)

def parseType (i : Nat) : Except Fault (Nat × ArgType) := do
  match ← peek format i with
  | 104 => if (← peek format (i + 1)) = 104 then return (i + 2, .char) else return (i + 1, .short)
  | 106 => return (i + 1, .intmax)
  | 108 => if (← peek format (i + 1)) = 108 then return (i + 2, .longlong) else return (i + 1, .long)
  | 116 => return (i + 1, .ptrdifft)
  | 122 => return (i + 1, .sizet)
  | _ => return (i, .int)

-- Each turn of a loop reads another byte, so the length of the string is turns enough.
def parseConversion (i n : Nat) :
    Except Fault (Nat × Nat × PrintfConversion × ArgType) := do
  let (i, flags) ← parseFlags format format.length i {}
  let (i, n, width) ← parseNumber format args i n
  let flags := {flags with minus := flags.minus || decide (width < 0)}
  let (i, n, precision) ← parsePrecision format args i n
  let flags := {flags with zero := flags.zero && decide (precision < 0)}
  let (i, type) ← parseType format i
  return (i, n, ⟨flags, width.natAbs, precision⟩, type)

-- The conversions that print an argument; the others print a text with their letter.
def takesArg (letter : UInt8) : Bool := letter ∈ text "diouxXcspf"

def vprintf : Nat → Nat → Nat → List Piece → Except Fault (List Piece)
  | 0, _, _, _ => .error .turns
  | turns + 1, i, n, out => do
    let c ← peek format i
    if c = 0 then return out
    else if c ≠ 37 then vprintf turns (i + 1) n (out ++ [.char c])
    else if (← peek format (i + 1)) = 37 then vprintf turns (i + 2) n (out ++ [.char 37])
    else
      let (j, n, c, type) ← parseConversion format args (i + 1) n
      let letter ← peek format j
      vprintf turns (j + 1) (if takesArg letter then n + 1 else n)
        (out ++ [.conversion letter c type n])

end Walk

section Options

def isFlag (c : UInt8) : Bool := (Flags.set {} c).isSome

def afterNumber (rest : List UInt8) : List UInt8 :=
  if rest.headD 0 = 42 then rest.tail else rest.dropWhile isdigit

def afterPrecision (rest : List UInt8) : List UInt8 :=
  if rest.headD 0 = 46 then afterNumber rest.tail else rest

def afterType (rest : List UInt8) : List UInt8 :=
  match rest.headD 0 with
  | 104 => if rest.tail.headD 0 = 104 then rest.tail.tail else rest.tail
  | 108 => if rest.tail.headD 0 = 108 then rest.tail.tail else rest.tail
  | 106 | 116 | 122 => rest.tail
  | _ => rest

def afterOptions (rest : List UInt8) : List UInt8 :=
  afterType (afterPrecision (afterNumber (rest.dropWhile isFlag)))

inductive Whole : List UInt8 → Prop where
  | nil : Whole []
  | char {c rest} (plain : c ≠ 37) (whole : Whole rest) : Whole (c :: rest)
  | percent {rest} (whole : Whole rest) : Whole (37 :: 37 :: rest)
  | conversion {rest letter after} (other : rest.headD 0 ≠ 37)
      (ends : afterOptions rest = letter :: after) (whole : Whole after) : Whole (37 :: rest)

end Options

section Reads

def At (format : List UInt8) (i : Nat) (rest : List UInt8) : Prop :=
  format.drop i = rest ++ [0] ∧ 0 ∉ rest

def Lands {α : Type} (format rest : List UInt8) (read : Except Fault (Nat × α)) : Prop :=
  ∃ j a, read = .ok (j, a) ∧ At format j rest

variable {format rest between : List UInt8} {i n turns : Nat} {args : Nat → Int} {α β : Type}

theorem atShort (here : At format i rest) : i + rest.length < format.length := by
  have length := congrArg List.length here.1
  simp only [List.length_drop, List.length_append, List.length_singleton] at length
  omega

theorem peekAt (here : At format i rest) : peek format i = .ok (rest.headD 0) := by
  obtain ⟨c, -, read, drop⟩ := byteInside (Nat.lt_of_le_of_lt (Nat.le_add_right ..) (atShort here))
  rw [read]
  cases rest with
  | nil | cons d rest => exact congrArg _ (List.cons.inj (drop.symm.trans here.1)).1

theorem atCons {c : UInt8} (here : At format i (c :: rest)) : c ≠ 0 ∧ At format (i + 1) rest := by
  refine ⟨fun zero => here.2 (zero ▸ .head rest), ?_, fun among => here.2 (.tail c among)⟩
  rw [← List.drop_drop, here.1]
  rfl

theorem atTail (here : At format i rest) (some : rest.headD 0 ≠ 0) :
    At format (i + 1) rest.tail := by
  cases rest with
  | nil => exact absurd rfl some
  | cons c rest => exact (atCons here).2

theorem landsReturn {a : α} (here : At format i rest) :
    Lands format rest (.ok (i, a) : Except Fault (Nat × α)) := ⟨i, a, rfl, here⟩

theorem landsPeek {next : UInt8 → Except Fault (Nat × α)} (here : At format i between)
    (lands : Lands format rest (next (between.headD 0))) :
    Lands format rest (peek format i >>= next) := by
  rw [peekAt here]
  exact lands

theorem landsBind {read : Except Fault (Nat × α)} {next : Nat × α → Except Fault (Nat × β)}
    (first : Lands format between read)
    (second : ∀ j a, At format j between → Lands format rest (next (j, a))) :
    Lands format rest (read >>= next) := by
  obtain ⟨j, a, ran, there⟩ := first
  rw [ran]
  exact second j a there

theorem landsIte {p : Prop} [Decidable p] {yes no : List UInt8}
    {read read' : Except Fault (Nat × α)} (pos : p → Lands format yes read)
    (neg : ¬p → Lands format no read') :
    Lands format (if p then yes else no) (if p then read else read') := by
  split
  · rename_i holds
    exact pos holds
  · rename_i fails
    exact neg fails

theorem setFlag (flags : Flags) (c : UInt8) : (flags.set c).isSome = isFlag c := by
  unfold isFlag Flags.set
  split <;> rfl

theorem flagsLand {flags : Flags} (here : At format i rest) (enough : rest.length < turns) :
    Lands format (rest.dropWhile isFlag) (parseFlags format turns i flags) := by
  induction turns generalizing i flags rest with
  | zero => cases enough
  | succ turns ih =>
    refine landsPeek here ?_
    cases rest with
    | nil => exact landsReturn here
    | cons c rest =>
      have same := setFlag flags c
      rw [List.dropWhile_cons, ← same, List.headD_cons]
      cases flags.set c with
      | none => exact landsReturn here
      | some flags =>
        exact ih (atCons here).2 (Nat.lt_of_succ_lt_succ enough)

theorem digitsLand {value : Int} (here : At format i rest) (enough : rest.length < turns) :
    Lands format (rest.dropWhile isdigit) (parseDigits format turns i value) := by
  induction turns generalizing i value rest with
  | zero => cases enough
  | succ turns ih =>
    refine landsPeek here ?_
    cases rest with
    | nil => exact landsReturn here
    | cons c rest =>
      rw [List.dropWhile_cons]
      exact landsIte (fun _ => ih (atCons here).2 (Nat.lt_of_succ_lt_succ enough))
        fun _ => landsReturn here

theorem atEnough (here : At format i rest) : rest.length < format.length :=
  Nat.lt_of_le_of_lt (Nat.le_add_left ..) (atShort here)

theorem numberLand (here : At format i rest) :
    Lands format (afterNumber rest) (parseNumber format args i n) :=
  landsPeek here (landsIte (fun star => landsReturn (atTail here (by rw [star]; decide)))
    fun _ => landsBind (digitsLand here (atEnough here)) fun _ _ there => landsReturn there)

theorem precisionLand (here : At format i rest) :
    Lands format (afterPrecision rest) (parsePrecision format args i n) :=
  landsPeek here (landsIte
    (fun dot => landsBind (numberLand (atTail here (by rw [dot]; decide)))
      fun _ _ there => landsReturn there)
    fun _ => landsReturn here)

theorem typeLand (here : At format i rest) :
    Lands format (afterType rest) (parseType format i) := by
  have next (some : rest.headD 0 ≠ 0) := atTail here some
  refine landsPeek here ?_
  unfold afterType
  generalize rest.headD 0 = c at next ⊢
  split
  · have there := next (by decide)
    exact landsPeek there (landsIte (fun more => landsReturn (atTail there (by rw [more]; decide)))
      fun _ => landsReturn there)
  · have there := next (by decide)
    exact landsPeek there (landsIte (fun more => landsReturn (atTail there (by rw [more]; decide)))
      fun _ => landsReturn there)
  · exact landsReturn (next (by decide))
  · exact landsReturn (next (by decide))
  · exact landsReturn (next (by decide))
  · split <;> first | contradiction | exact landsReturn here

theorem conversionLand (here : At format i rest) :
    Lands format (afterOptions rest) (parseConversion format args i n) :=
  landsBind (flagsLand here (atEnough here)) fun _ _ flags =>
  landsBind (numberLand flags) fun _ _ width =>
  landsBind (precisionLand width) fun _ _ precision =>
  landsBind (typeLand precision) fun _ _ type => landsReturn type

end Reads

section Formats

variable {format rest : List UInt8} {i n turns : Nat} {args : Nat → Int} {out out' : List Piece}

theorem vprintfEnd (here : At format i []) : vprintf format args (turns + 1) i n out = .ok out := by
  rw [vprintf, peekAt here]
  rfl

theorem vprintfChar {c : UInt8} (here : At format i (c :: rest)) (plain : c ≠ 37) :
    vprintf format args (turns + 1) i n out =
      vprintf format args turns (i + 1) n (out ++ [.char c]) := by
  rw [vprintf, peekAt here]
  exact (if_neg (atCons here).1).trans (if_pos plain)

theorem vprintfPercent (here : At format i (37 :: 37 :: rest)) :
    vprintf format args (turns + 1) i n out =
      vprintf format args turns (i + 2) n (out ++ [.char 37]) := by
  rw [vprintf, peekAt here]
  simp only [bind, Except.bind, peekAt (atCons here).2]
  rfl

theorem vprintfConversion (here : At format i (37 :: rest)) (other : rest.headD 0 ≠ 37) :
    ∃ j m more, At format j (afterOptions rest) ∧ ∀ turns,
      vprintf format args (turns + 1) i n out = vprintf format args turns (j + 1) m more := by
  obtain ⟨j, ⟨m, c, type⟩, parsed, there⟩ := @conversionLand format rest _ n args (atCons here).2
  let letter := (afterOptions rest).headD 0
  refine ⟨j, if takesArg letter then m + 1 else m, out ++ [.conversion letter c type m], there, ?_⟩
  intro turns
  rw [vprintf, peekAt here]
  simp only [bind, Except.bind, peekAt (atCons here).2, parsed, peekAt there]
  exact if_neg other

theorem pastEnd (here : At format i []) : vprintf format args turns (i + 1) n out ≠ .ok out' := by
  cases turns with
  | zero => simp [vprintf]
  | succ turns =>
    have none : format[i + 1]? = none := by
      rw [← List.getElem?_drop, here.1]
      rfl
    simp [vprintf, peek, none, bind, Except.bind]

theorem returnsWhole (here : At format i rest)
    (ok : vprintf format args turns i n out = .ok out') : Whole rest := by
  induction turns generalizing i n out rest with
  | zero => cases ok
  | succ turns ih =>
    cases rest with
    | nil => exact .nil
    | cons c rest =>
      by_cases plain : c = 37
      · subst plain
        by_cases percent : rest.headD 0 = 37
        · cases rest with
          | nil => cases percent
          | cons c rest =>
            obtain rfl : c = 37 := percent
            rw [vprintfPercent here] at ok
            exact .percent (ih (atCons (atCons here).2).2 ok)
        · obtain ⟨j, m, more, there, same⟩ := vprintfConversion here percent
          rw [same] at ok
          cases ends : afterOptions rest with
          | nil => exact absurd ok (pastEnd (ends ▸ there))
          | cons letter after =>
            rw [ends] at there
            exact .conversion percent ends (ih (atCons there).2 ok)
      · rw [vprintfChar here plain] at ok
        exact .char plain (ih (atCons here).2 ok)

theorem wholeReturns (whole : Whole rest) (here : At format i rest) :
    ∃ turns out', vprintf format args turns i n out = .ok out' := by
  induction whole generalizing i n out with
  | nil => exact ⟨1, out, vprintfEnd here⟩
  | char plain whole ih =>
    obtain ⟨turns, out', ok⟩ := ih (atCons here).2
    exact ⟨turns + 1, out', (vprintfChar here plain).trans ok⟩
  | percent whole ih =>
    obtain ⟨turns, out', ok⟩ := ih (atCons (atCons here).2).2
    exact ⟨turns + 1, out', (vprintfPercent here).trans ok⟩
  | conversion other ends whole ih =>
    obtain ⟨j, m, more, there, same⟩ := vprintfConversion here other
    rw [ends] at there
    obtain ⟨turns, out', ok⟩ := ih (atCons there).2
    exact ⟨turns + 1, out', (same turns).trans ok⟩

theorem printfInside (format : List UInt8) (clean : 0 ∉ format) (args : Nat → Int) :
    (∃ turns out, vprintf (format ++ [0]) args turns 0 0 [] = .ok out) ↔ Whole format := by
  have here : At (format ++ [0]) 0 format := ⟨rfl, clean⟩
  constructor
  · rintro ⟨turns, out, ok⟩
    exact returnsWhole here ok
  · intro whole
    exact wholeReturns whole here

theorem printfInsideExample :
    ∃ turns out, vprintf (text "%-*.3hhu" ++ [0]) (fun _ => -5) turns 0 0 [] = .ok out :=
  (printfInside (text "%-*.3hhu") (by decide) fun _ => -5).mpr
    (.conversion (by decide) (show _ = 117 :: [] by decide) .nil)

-- After the conversion that the terminator cut off, the increment of the loop leaves the string.
theorem printfPastEnd : vprintf (text "%" ++ [0]) (fun _ => 0) 2 0 0 [] = .error (.outside 2) := by
  decide

end Formats
end Pintos.Library
