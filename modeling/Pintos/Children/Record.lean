import Mathlib.Logic.Function.Basic
import Pintos.Lib.Machine

/-! The record a parent and its child share (userprog/process.h): struct child_process with the
semaphore its `editing` points at, and the child's half of what is done to it, start_process and
the beginning of process_exit_tail. Every C statement that reads or writes the record, or an
object on the heap that both can reach, is one step. -/
namespace Pintos.Children
open Machine

inductive Fault where
  | blocked
  | freed
  | null
  | assertion
  | idle
  deriving DecidableEq, Repr

inductive Object where
  | none
  | live
  | freed
  deriving DecidableEq, Repr

/-- `child` says whether the pointer to the child's PCB is set, `editing` is the value of the
semaphore once there is one. -/
structure Record where
  pid : Int := -1
  exitedCode : Int := -2
  editing : Option Nat := none
  waiting : Nat := 0
  child : Bool := false
  exited : Bool := false
  freed : Bool := false
  editingFreed : Bool := false
  deriving DecidableEq, Repr

namespace Record
variable {α : Type} {rec : Record} {f : Record → α} {post : Record → Prop}

@[simp] def use (rec : Record) (f : Record → α) : Except Fault α :=
  allow (rec.freed = false) .freed (f rec)

def free (rec : Record) : Except Fault Record := rec.use fun rec => { rec with freed := true }

def upWaiting (rec : Record) : Except Fault Record :=
  rec.use fun rec => { rec with waiting := rec.waiting + 1 }

def downWaiting (rec : Record) : Except Fault Record :=
  if rec.freed then .error .freed
  else if rec.waiting = 0 then .error .blocked
  else .ok { rec with waiting := rec.waiting - 1 }

def upEditing (rec : Record) : Except Fault Record :=
  match rec.editing with
  | none => .error .null
  | some value =>
    if rec.editingFreed then .error .freed else .ok { rec with editing := some (value + 1) }

def downEditing (rec : Record) : Except Fault Record :=
  match rec.editing with
  | none => .error .null
  | some value =>
    if rec.editingFreed then .error .freed
    else if value = 0 then .error .blocked
    else .ok { rec with editing := some (value - 1) }

def freeEditing (rec : Record) : Except Fault Record :=
  if rec.freed then .error .freed
  else if rec.editingFreed then .error .freed
  else .ok { rec with editingFreed := rec.editing.isSome }

@[simp] theorem endsFree : Ends rec.free post ↔
    (rec.freed = false → post { rec with freed := true }) :=
  endsAllow

@[simp] theorem endsUpWaiting : Ends rec.upWaiting post ↔
    (rec.freed = false → post { rec with waiting := rec.waiting + 1 }) :=
  endsAllow

@[simp] theorem endsDownWaiting : Ends rec.downWaiting post ↔
    (rec.freed = false → rec.waiting ≠ 0 → post { rec with waiting := rec.waiting - 1 }) := by
  unfold downWaiting
  cases rec.freed <;> simp

@[simp] theorem endsUpEditing : Ends rec.upEditing post ↔
    ∀ value, rec.editing = some value → rec.editingFreed = false →
      post { rec with editing := some (value + 1) } := by
  unfold upEditing
  cases rec.editing <;> cases rec.editingFreed <;> simp

@[simp] theorem endsDownEditing : Ends rec.downEditing post ↔
    ∀ value, rec.editing = some (value + 1) → rec.editingFreed = false →
      post { rec with editing := some value } := by
  unfold downEditing
  rcases rec.editing with _ | _ | value <;> cases rec.editingFreed <;> simp

@[simp] theorem endsFreeEditing : Ends rec.freeEditing post ↔
    (rec.freed = false → rec.editingFreed = false →
      post { rec with editingFreed := rec.editing.isSome }) := by
  unfold freeEditing
  cases rec.freed <;> cases rec.editingFreed <;> simp

variable {fault : Fault → Prop}

@[simp] theorem failsFree : Fails rec.free fault ↔ (rec.freed = true → fault .freed) := by
  simp [free]

@[simp] theorem failsDownWaiting : Fails rec.downWaiting fault ↔
    (rec.freed = true → fault .freed) ∧
      (rec.freed = false → rec.waiting = 0 → fault .blocked) := by
  unfold downWaiting
  cases rec.freed <;> simp

@[simp] theorem failsUpEditing : Fails rec.upEditing fault ↔
    (rec.editing = none → fault .null) ∧
      (rec.editing ≠ none → rec.editingFreed = true → fault .freed) := by
  unfold upEditing
  cases rec.editing <;> cases rec.editingFreed <;> simp

@[simp] theorem failsDownEditing : Fails rec.downEditing fault ↔
    (rec.editing = none → fault .null) ∧
      (rec.editing ≠ none → rec.editingFreed = true → fault .freed) ∧
      (rec.editing = some 0 → rec.editingFreed = false → fault .blocked) := by
  unfold downEditing
  rcases rec.editing with _ | _ | value <;> cases rec.editingFreed <;> simp

@[simp] theorem failsFreeEditing : Fails rec.freeEditing fault ↔
    (rec.freed = true ∨ rec.editingFreed = true → fault .freed) := by
  unfold freeEditing
  cases rec.freed <;> cases rec.editingFreed <;> simp

end Record

inductive FreeParent where
  | test
  | freeEditing
  | free
  | setExited
  | setCode
  | clearChild
  | up
  deriving DecidableEq, Repr

def freeParentSelf (self : Record) (exitCode : Int) :
    FreeParent → Except Fault (Record × Option FreeParent)
  | .test => self.use fun self => (self, some (if self.exited then .freeEditing else .setExited))
  | .freeEditing => do
    let self ← self.freeEditing
    .ok (self, some .free)
  | .free => do
    let self ← self.free
    .ok (self, none)
  | .setExited => self.use fun self => ({ self with exited := true }, some .setCode)
  | .setCode => self.use fun self => ({ self with exitedCode := exitCode }, some .clearChild)
  | .clearChild => self.use fun self => ({ self with child := false }, some .up)
  | .up => do
    let self ← self.upWaiting
    .ok (self, none)

inductive FreeChild where
  | test
  | freeEditing
  | free
  | setExited
  | clearParent
  | up
  deriving DecidableEq, Repr

def freeChildSelf (child : Record) (pcb : Object) :
    FreeChild → Except Fault (Record × Option FreeChild)
  | .test => child.use fun child =>
    (child, some (if child.exited then .freeEditing else .setExited))
  | .freeEditing => do
    let child ← child.freeEditing
    .ok (child, some .free)
  | .free => do
    let child ← child.free
    .ok (child, none)
  | .setExited => child.use fun child => ({ child with exited := true }, some .clearParent)
  | .clearParent =>
    if child.freed then .error .freed
    else if child.child = false then .error .null
    else if pcb ≠ .live then .error .freed
    else .ok (child, some .up)
  | .up => do
    let child ← child.upWaiting
    .ok (child, none)

inductive Start where
  | allocate
  | init
  | load
  | unlink
  | freePcb
  | report (stage : FreeParent)
  | bitmap
  | clearExited
  | giveUp
  | setPid
  | setChild
  | setExited
  | up
  deriving DecidableEq, Repr

inductive Leave where
  | down
  | report (stage : FreeParent)
  | up
  | freePcb
  deriving DecidableEq, Repr

inductive ChildPc where
  | absent
  | start (stage : Start)
  | user
  | exit (stage : Leave)
  | ended
  deriving DecidableEq, Repr

structure Child where
  pc : ChildPc := .absent
  tid : Nat := 0
  pcb : Object := .none
  exitCode : Int := 0
  started : Bool := false
  deriving DecidableEq, Repr

def startProcess (self : Record) (t : Child) (granted : Bool) :
    Start → Except Fault (Record × Child)
  | .allocate =>
    if granted then .ok (self, { t with pc := .start .init, pcb := .live })
    else .ok (self, { t with pc := .start .clearExited })
  | .init => .ok (self, { t with pc := .start .load })
  | .load => .ok (self, { t with pc := .start (if granted then .bitmap else .unlink) })
  | .unlink => .ok (self, { t with pc := .start .freePcb })
  | .freePcb => .ok (self, { t with pc := .start (.report .test), pcb := .freed })
  | .report stage => do
    let (self, next) ← freeParentSelf self (-1) stage
    match next with
    | some stage => .ok (self, { t with pc := .start (.report stage) })
    | none => .ok (self, { t with pc := .start .clearExited })
  | .bitmap => if granted then .ok (self, { t with pc := .start .setPid }) else .error .assertion
  | .clearExited => self.use fun self =>
    ({ self with exited := false }, { t with pc := .start .giveUp })
  | .giveUp => do
    let self ← self.upEditing
    .ok (self, { t with pc := .ended })
  | .setPid => self.use fun self => ({ self with pid := t.tid }, { t with pc := .start .setChild })
  | .setChild => self.use fun self => ({ self with child := true }, { t with pc := .start .setExited })
  | .setExited => self.use fun self => ({ self with exited := false }, { t with pc := .start .up })
  | .up => do
    let self ← self.upEditing
    .ok (self, { t with pc := .user, started := true })

def leave (self : Record) (t : Child) : Leave → Except Fault (Record × Child)
  | .down => do
    let self ← self.downEditing
    .ok (self, { t with pc := .exit (.report .test) })
  | .report stage => do
    let (self, next) ← freeParentSelf self t.exitCode stage
    match next with
    | some stage => .ok (self, { t with pc := .exit (.report stage) })
    | none => .ok (self, { t with pc := .exit .up })
  | .up => do
    let self ← self.upEditing
    .ok (self, { t with pc := .exit .freePcb })
  | .freePcb => .ok (self, { t with pc := .ended, pcb := .freed })

def runChild (self : Record) (t : Child) (granted : Bool) : Except Fault (Record × Child) :=
  match t.pc with
  | .start stage => startProcess self t granted stage
  | .exit stage => leave self t stage
  | .absent | .user | .ended => .error .idle

end Pintos.Children
