import Mathlib.Data.List.GetD
import Pintos.Library.Arithmetic
import Pintos.Library.Format
import Pintos.Library.Tokenizer

/-! `parse_options` (threads/init.c) and the generator it seeds (lib/random.c), in a kernel with
USERPROG and FILESYS and without VM. An argument is the block of its string. -/
namespace Pintos.Kernel
open Machine Library

structure Generator where
  s : List Nat
  i : Nat
  j : Nat
  inited : Bool
  deriving DecidableEq, Repr

def swapByte (s : List Nat) (a b : Nat) : List Nat :=
  (s.set a (s.getD b 0)).set b (s.getD a 0)

def seedByte (seed i : Nat) : Nat := seed / 256 ^ i % 256

def randomInit (seed : Nat) : Generator where
  s := ((List.range 256).foldl (fun (state : List Nat × Nat) i =>
    let j := (state.2 + state.1.getD i 0 + seedByte seed (i % 4)) % 256
    (swapByte state.1 i j, j)) (List.range 256, 0)).1
  i := 0
  j := 0
  inited := true

def randomByte (g : Generator) : Generator × Nat :=
  let i := (g.i + 1) % 256
  let j := (g.j + g.s.getD i 0) % 256
  let s := swapByte g.s i j
  ({ g with s := s, i := i, j := j }, s.getD ((s.getD i 0 + s.getD j 0) % 256) 0)

def randomBytes (g : Generator) (size : Nat) : Generator × List Nat :=
  let g := if g.inited then g else randomInit 0
  (List.range size).foldl (fun out _ =>
    ((randomByte out.1).1, out.2 ++ [(randomByte out.1).2])) (g, [])

theorem swapPerm {s : List Nat} (table : s.Perm (List.range 256)) (a b : Nat) (first : a < 256) :
    (swapByte s a (b % 256)).Perm (List.range 256) := by
  have full : s.length = 256 := table.length_eq.trans List.length_range
  have second : b % 256 < s.length := by omega
  rw [swapByte, List.getD_eq_getElem _ _ second, List.getD_eq_getElem _ _ (full ▸ first)]
  exact (List.set_set_perm _ second).trans table

theorem initPerm (seed : Nat) : (randomInit seed).s.Perm (List.range 256) := by
  dsimp only [randomInit]
  refine List.foldlRecOn (motive := fun state : List Nat × Nat => state.1.Perm (List.range 256)) _ _
    ?_ fun _ table i inside => swapPerm table i _ (List.mem_range.mp inside)
  simp only [List.Perm.refl]

theorem tablePermutes (seed size : Nat) :
    (randomBytes (randomInit seed) size).1.s.Perm (List.range 256) :=
  List.foldlRecOn (motive := fun out : Generator × List Nat => out.1.s.Perm (List.range 256)) _ _
    (initPerm seed) fun _ table _ _ => swapPerm table _ _ (Nat.mod_lt _ (Nat.succ_pos 255))

inductive SchedPolicy where
  | fifo
  | prio
  | fair
  | mlfqs
  deriving DecidableEq, Repr

inductive Shutdown where
  | none
  | powerOff
  | reboot
  deriving DecidableEq, Repr

inductive OptionFault where
  | usage
  | unknownOption (name : Bytes)
  | unknownScheduler (value : Bytes)
  | tooManySchedulers
  | assertion
  | outside (fault : StringFault)
  deriving DecidableEq, Repr

structure BootOptions where
  shutdown : Shutdown := .none
  formatFilesys : Bool := false
  filesysBdevName : Option Bytes := none
  scratchBdevName : Option Bytes := none
  userPageLimit : Nat := 2 ^ 32 - 1
  schedulerFlags : List SchedPolicy := []
  generator : Generator := ⟨List.replicate 256 0, 0, 0, false⟩
  deriving DecidableEq, Repr

def cstring (mem : Bytes) (p : Nat) : Bytes := (mem.drop p).takeWhile (· ≠ 0)

def isspace (c : UInt8) : Bool := c == 32 || (9 ≤ c && c ≤ 13)

def atoi (s : Bytes) : Int :=
  let s := s.dropWhile isspace
  let negative := s.head? == some 45
  let s := if s.head? == some 43 || negative then s.tail else s
  let value := (s.takeWhile isdigit).foldl
    (fun value c => int32 (value * 10 - (c.toNat - 48))) 0
  if negative then value else int32 (-value)

def given (value : Option Bytes) : Except OptionFault Bytes :=
  match value with
  | some value => .ok value
  | none => .error .assertion

def scheduler (value : Bytes) : Except OptionFault SchedPolicy :=
  if value = text "fifo" then .ok .fifo
  else if value = text "prio" then .ok .prio
  else if value = text "fair" then .ok .fair
  else if value = text "mlfqs" then .ok .mlfqs
  else .error (.unknownScheduler value)

def unsigned (n : Int) : Nat := (n % 2 ^ 32).toNat

def parseOption (o : BootOptions) (name : Bytes) (value : Option Bytes) :
    Except OptionFault BootOptions :=
  if name = text "-h" then .error .usage
  else if name = text "-q" then .ok { o with shutdown := .powerOff }
  else if name = text "-r" then .ok { o with shutdown := .reboot }
  else if name = text "-f" then .ok { o with formatFilesys := true }
  else if name = text "-filesys" then .ok { o with filesysBdevName := value }
  else if name = text "-scratch" then .ok { o with scratchBdevName := value }
  else if name = text "-rs" then do
    let value ← given value
    .ok { o with generator := randomInit (unsigned (atoi value)) }
  else if name = text "-sched" then do
    let value ← given value
    let policy ← scheduler value
    .ok { o with schedulerFlags := o.schedulerFlags.insert policy }
  else if name = text "-ul" then do
    let value ← given value
    .ok { o with userPageLimit := unsigned (atoi value) }
  else .error (.unknownOption name)

def tokens (arg : Bytes) : Except StringFault (Option Bytes × Option Bytes) := do
  let (mem, name, save) ← strtokR arg (text "=") (some 0) 0
  let (mem, value, _) ← strtokR mem [] none save
  .ok (name.map (cstring mem), value.map (cstring mem))

def optionLoop (o : BootOptions) : List Bytes → Except OptionFault (BootOptions × List Bytes)
  | [] => .ok (o, [])
  | arg :: argv =>
    if arg.head? = some 45 then do
      let (name, value) ← (tokens arg).mapError .outside
      let name ← given name
      let o ← parseOption o name value
      optionLoop o argv
    else .ok (o, arg :: argv)

def activeSchedPolicy (flags : List SchedPolicy) : Except OptionFault SchedPolicy :=
  match flags with
  | [] => .ok .fifo
  | [policy] => .ok policy
  | _ => .error .tooManySchedulers

structure Booted where
  options : BootOptions
  policy : SchedPolicy
  argv : List Bytes
  deriving DecidableEq, Repr

-- the last statement seeds the generator again, from the clock
def parseOptions (argv : List Bytes) (time : Nat) : Except OptionFault Booted := do
  let (o, argv) ← optionLoop {} argv
  let policy ← activeSchedPolicy o.schedulerFlags
  .ok { options := { o with generator := randomInit time }, policy := policy, argv := argv }

theorem seedByteMod (seed : Nat) {i : Nat} (four : i < 4) :
    seedByte (seed % 2 ^ 32) i = seedByte seed i := by
  unfold seedByte
  interval_cases i <;> omega

/-- random_init reads the four bytes of its seed. -/
theorem initMod (seed : Nat) : randomInit (seed % 2 ^ 32) = randomInit seed := by
  simp only [randomInit, seedByteMod seed (Nat.mod_lt _ (Nat.succ_pos 3))]

theorem clockSeeds {argv : List Bytes} {time : Nat} {b : Booted}
    (boot : parseOptions argv time = .ok b) : b.options.generator = randomInit time := by
  obtain ⟨parsed, _, boot⟩ := bindOk.mp boot
  obtain ⟨policy, _, boot⟩ := bindOk.mp boot
  cases boot
  rfl

/-- The generator depends on the clock alone: an option -rs is lost. -/
theorem seedLost (argv : List Bytes) (time time' : Nat) (b b' : Booted)
    (boot : parseOptions argv time = .ok b) (boot' : parseOptions argv time' = .ok b') :
    b.options.generator = randomInit time ∧
      (time % 2 ^ 32 = time' % 2 ^ 32 → ∀ size,
        (randomBytes b.options.generator size).2 = (randomBytes b'.options.generator size).2) := by
  refine ⟨clockSeeds boot, fun same size => ?_⟩
  rw [clockSeeds boot, clockSeeds boot', ← initMod time, same, initMod]

theorem seeded (time : Nat) : parseOptions [text "-rs=7" ++ [0]] time =
    .ok ⟨{ generator := randomInit time }, .fifo, []⟩ := rfl

theorem seedLostExample : ∃ b b', parseOptions [text "-rs=7" ++ [0]] 5 = .ok b ∧
    parseOptions [text "-rs=7" ++ [0]] (2 ^ 32 + 5) = .ok b' ∧
    ∀ size, (randomBytes b.options.generator size).2 = (randomBytes b'.options.generator size).2 :=
  ⟨_, _, seeded 5, seeded _, (seedLost _ 5 (2 ^ 32 + 5) _ _ (seeded 5) (seeded _)).2 (by norm_num)⟩

/-- Two boots with -rs=7, at the times that rtc_get_time gives for the epoch and a second later. -/
theorem streamsDiffer : ∃ b b', parseOptions [text "-rs=7" ++ [0]] 2678400 = .ok b ∧
    parseOptions [text "-rs=7" ++ [0]] 2678401 = .ok b' ∧
    (randomBytes b.options.generator 1).2 = [250] ∧
    (randomBytes b'.options.generator 1).2 = [57] :=
  ⟨_, _, seeded _, seeded _, by decide +kernel, by decide +kernel⟩

end Pintos.Kernel
