import Mathlib.Algebra.Group.Nat.Defs
import Mathlib.Data.List.Basic

/-! Two-level page tables: threads/vaddr.h, threads/pte.h, `paging_init` of threads/init.c and
userprog/pagedir.c, over a memory of pages of 1024 words. The pages that `palloc_get_page` hands out
are arguments of the calls that ask for them. -/
namespace Pintos.Memory

abbrev Word := BitVec 32

inductive Fault where
  | assertion
  | panic
  deriving DecidableEq, Repr

-- `freed` is what the running call has given back to the page allocator.
structure State where
  mem : Word → Nat → Word
  initPageDir : Word
  freed : List Word

section Addresses

def pgMask : Word := 0xfff#32
def ptMask : Word := 0x3ff000#32
def physBase : Word := 0xc0000000#32
def pgSize : Nat := 4096

def pteAddr : Word := 0xfffff000#32
def pteP : Word := 0x1#32
def pteW : Word := 0x2#32
def pteU : Word := 0x4#32
def pteA : Word := 0x20#32
def pteD : Word := 0x40#32

def pgOfs (va : Word) : Word := va &&& pgMask
def pgRoundDown (va : Word) : Word := va &&& ~~~pgMask
def ptNo (va : Word) : Nat := ((va &&& ptMask) >>> 12).toNat
def pdNo (va : Word) : Nat := (va >>> 22).toNat

theorem physBaseNat : physBase.toNat = 3221225472 := rfl

def ptov (paddr : Word) : Except Fault Word :=
  if paddr < physBase then .ok (paddr + physBase) else .error .assertion

def vtop (vaddr : Word) : Except Fault Word :=
  if physBase ≤ vaddr then .ok (vaddr - physBase) else .error .assertion

def pdeCreate (pt : Word) : Except Fault Word := do
  if pgOfs pt ≠ 0#32 then .error .assertion
  else
    let paddr ← vtop pt
    .ok (paddr ||| pteU ||| pteP ||| pteW)

def pdeGetPt (pde : Word) : Except Fault Word :=
  if pde &&& pteP = 0#32 then .error .assertion else ptov (pde &&& pteAddr)

def pteCreateKernel (page : Word) (writable : Bool) : Except Fault Word := do
  if pgOfs page ≠ 0#32 then .error .assertion
  else
    let paddr ← vtop page
    .ok (paddr ||| pteP ||| if writable then pteW else 0#32)

def pteCreateUser (page : Word) (writable : Bool) : Except Fault Word := do
  let pte ← pteCreateKernel page writable
  .ok (pte ||| pteU)

def pteGetPage (pte : Word) : Except Fault Word := ptov (pte &&& pteAddr)

end Addresses

section Pages

def State.put (s : State) (page : Word) (i : Nat) (w : Word) : State :=
  { s with mem := Function.update s.mem page (Function.update (s.mem page) i w) }

def State.fill (s : State) (page w : Word) : State :=
  { s with mem := Function.update s.mem page fun _ => w }

def pallocFreePage (s : State) (page : Word) : Except Fault State :=
  if pgOfs page ≠ 0#32 ∨ page ∈ s.freed then .error .assertion
  else .ok { s.fill page 0xcccccccc#32 with freed := page :: s.freed }

end Pages

section Boot

-- start.S caps memory at 64 MB.
structure Kernel where
  initRamPages : Nat
  start : Word
  endKernelText : Word
  capped : initRamPages ≤ 16384

def mapPage (c : Kernel) (page : Nat) (s : State) (pt : Word) (granted : List Word) :
    Except Fault (State × Word × List Word) := do
  let vaddr ← ptov (BitVec.ofNat 32 (page * 4096))
  let inKernelText := decide (c.start ≤ vaddr) && decide (vaddr < c.endKernelText)
  let pte ← pteCreateKernel vaddr !inKernelText
  if s.mem s.initPageDir (pdNo vaddr) = 0#32 then
    match granted with
    | [] => .error .panic
    | pt :: granted =>
      let pde ← pdeCreate pt
      let s := (s.fill pt 0#32).put s.initPageDir (pdNo vaddr) pde
      .ok (s.put pt (ptNo vaddr) pte, pt, granted)
  else .ok (s.put pt (ptNo vaddr) pte, pt, granted)

def mapPages (c : Kernel) : List Nat → State → Word → List Word → Except Fault State
  | [], s, _, _ => .ok s
  | page :: pages, s, pt, granted => do
    let (s, pt, granted) ← mapPage c page s pt granted
    mapPages c pages s pt granted

def pagingInit (c : Kernel) (mem : Word → Nat → Word) : List Word → Except Fault State
  | [] => .error .panic
  | pd :: granted =>
    mapPages c (List.range c.initRamPages) (State.fill ⟨mem, pd, []⟩ pd 0#32) 0#32 granted

end Boot

section Directory

def pagedirCreate (s : State) (granted : Option Word) : Option Word × State :=
  match granted with
  | none => (none, s)
  | some pd => (some pd, { s with mem := Function.update s.mem pd (s.mem s.initPageDir) })

def lookupPage (s : State) (pd vaddr : Word) (create : Bool) (granted : Option Word) :
    Except Fault (Option (Word × Nat) × State) := do
  if create ∧ ¬vaddr < physBase then .error .assertion
  else if s.mem pd (pdNo vaddr) = 0#32 then
    if create then
      match granted with
      | none => .ok (none, s)
      | some pt =>
        let pde ← pdeCreate pt
        let s := (s.fill pt 0#32).put pd (pdNo vaddr) pde
        let pt ← pdeGetPt (s.mem pd (pdNo vaddr))
        .ok (some (pt, ptNo vaddr), s)
    else .ok (none, s)
  else
    let pt ← pdeGetPt (s.mem pd (pdNo vaddr))
    .ok (some (pt, ptNo vaddr), s)

def pagedirSetPage (c : Kernel) (s : State) (pd upage kpage : Word) (writable : Bool)
    (granted : Option Word) : Except Fault (Bool × State) := do
  let paddr ← vtop kpage
  if pgOfs upage ≠ 0#32 ∨ pgOfs kpage ≠ 0#32 ∨ ¬upage < physBase ∨
      ¬(paddr >>> 12).toNat < c.initRamPages ∨ pd = s.initPageDir then .error .assertion
  else
    let (pte, s) ← lookupPage s pd upage true granted
    match pte with
    | none => .ok (false, s)
    | some (pt, i) =>
      if s.mem pt i &&& pteP ≠ 0#32 then .error .assertion
      else
        let entry ← pteCreateUser kpage writable
        .ok (true, s.put pt i entry)

def pagedirGetPage (s : State) (pd uaddr : Word) : Except Fault (Option Word) := do
  if ¬uaddr < physBase then .error .assertion
  else
    let (pte, s) ← lookupPage s pd uaddr false none
    match pte with
    | none => .ok none
    | some (pt, i) =>
      if s.mem pt i &&& pteP ≠ 0#32 then
        let page ← pteGetPage (s.mem pt i)
        .ok (some (page + pgOfs uaddr))
      else .ok none

def pagedirClearPage (s : State) (pd upage : Word) : Except Fault State := do
  if pgOfs upage ≠ 0#32 ∨ ¬upage < physBase then .error .assertion
  else
    let (pte, s) ← lookupPage s pd upage false none
    match pte with
    | none => .ok s
    | some (pt, i) =>
      if s.mem pt i &&& pteP ≠ 0#32 then .ok (s.put pt i (s.mem pt i &&& ~~~pteP)) else .ok s

def setFlag (flag : Word) (s : State) (pd vpage : Word) (on : Bool) : Except Fault State := do
  let (pte, s) ← lookupPage s pd vpage false none
  match pte with
  | none => .ok s
  | some (pt, i) =>
    .ok (s.put pt i (if on then s.mem pt i ||| flag else s.mem pt i &&& ~~~flag))

def pagedirSetDirty := setFlag pteD
def pagedirSetAccessed := setFlag pteA

def freeFrames (pt : Word) : List Nat → State → Except Fault State
  | [], s => .ok s
  | j :: js, s => do
    if s.mem pt j &&& pteP ≠ 0#32 then
      let page ← pteGetPage (s.mem pt j)
      let s ← pallocFreePage s page
      freeFrames pt js s
    else freeFrames pt js s

def freeTables (pd : Word) : List Nat → State → Except Fault State
  | [], s => .ok s
  | i :: is, s => do
    if s.mem pd i &&& pteP ≠ 0#32 then
      let pt ← pdeGetPt (s.mem pd i)
      let s ← freeFrames pt (List.range 1024) s
      let s ← pallocFreePage s pt
      freeTables pd is s
    else freeTables pd is s

def pagedirDestroy (s : State) (pd : Word) : Except Fault State := do
  if pd = 0#32 then .ok s
  else if pd = s.initPageDir then .error .assertion
  else
    let s ← freeTables pd (List.range (pdNo physBase)) { s with freed := [] }
    pallocFreePage s pd

end Directory

end Pintos.Memory
