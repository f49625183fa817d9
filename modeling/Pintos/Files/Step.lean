import Pintos.Lib.DoublyLinked
import Pintos.Threads.RwLock

/-! The file descriptors of one process: handler_open, handler_close, handler_read, handler_write
and the three handlers that use the file under files_lock, as any number of threads execute them.
One step is one statement on the table, on a struct file_desc or on a struct file; the rw_lock of a
file_desc is the machine of RwLock. What lies below struct file is left open: how many bytes
inode_read_at and inode_write_at move, and how long the file is. -/
namespace Pintos.Files
open Machine
open DoublyLinked (beside)

inductive Fault where
  | blocked
  | freed
  | null
  | assertion
  | idle
  deriving DecidableEq, Repr

/-- What the descriptors' lifetime needs of struct file; Filesys.File has its inode. -/
structure File where
  pos : Int := 0
  length : Int := 0
  freed : Bool := false
  deriving DecidableEq, Repr

structure Desc where
  fileDesc : Nat := 0
  file : Nat := 0
  lock : RwLock.State := RwLock.rwLockInit 0
  freed : Bool := false

@[simp] def File.use {α : Type} (file : File) (f : File → α) : Except Fault α :=
  allow (file.freed = false) .freed (f file)

@[simp] def Desc.use {α : Type} (desc : Desc) (f : Desc → α) : Except Fault α :=
  allow (desc.freed = false) .freed (f desc)

def fileLength (file : File) : Except Fault (File × Int) := file.use fun file => (file, file.length)

def fileTell (file : File) : Except Fault (File × Int) := file.use fun file => (file, file.pos)

def fileSeek (newPos : Int) (file : File) : Except Fault (File × Int) :=
  if newPos < 0 then .error .assertion else file.use fun file => ({ file with pos := newPos }, 0)

def fileClose (file : File) : Except Fault File := file.use fun file => { file with freed := true }

def fileAdvance (bytes : Nat) (file : File) : Except Fault File :=
  file.use fun file => { file with pos := file.pos + bytes }

inductive Handler where
  | close
  | filesize
  | tell
  | seek (newPos : Int)
  | read (size : Nat)
  | write (size : Nat)
  deriving DecidableEq, Repr

inductive Open where
  | filesysOpen
  | allocate (f : Nat)
  | number (f d : Nat)
  | lock (f d : Nat)
  | push (f d : Nat)
  | increment (f d : Nat)
  | unlock (f d : Nat)
  | result (f d : Nat)
  deriving DecidableEq, Repr

inductive Stage where
  | lock
  | search (rest : List Nat)
  | found (d : Nat)
  | unlock (found : Option Nat) (result : Int)
  | acquire (d : Nat)
  | fileClose (d : Nat)
  | transfer (d : Nat)
  | advance (d : Nat) (bytes : Nat)
  | release (d : Nat) (result : Int)
  | free (d : Nat)
  deriving DecidableEq, Repr

inductive Pc where
  | user
  | opening (stage : Open)
  | call (handler : Handler) (fd : Nat) (stage : Stage)
  | done (result : Int)
  deriving DecidableEq, Repr

/-- `made` and `opened` count the struct file_desc and struct file allocated so far. -/
structure State where
  count : Nat
  threads : Nat → Pc
  filesLock : Option Nat
  filesTab : List Nat
  nextDesc : Nat
  made : Nat
  desc : Nat → Desc
  opened : Nat
  file : Nat → File

inductive Action where
  | opens (t : Nat)
  | call (t : Nat) (handler : Handler) (fd : Nat)
  | run (t : Nat) (granted : Bool) (chosen : Nat)
  deriving DecidableEq, Repr

def boot (count : Nat) : State where
  count := count
  threads _ := .user
  filesLock := none
  filesTab := []
  nextDesc := 3
  made := 0
  desc _ := {}
  opened := 0
  file _ := {}

namespace State

def become (s : State) (t : Nat) (pc : Pc) : State :=
  { s with threads := Function.update s.threads t pc }

def put (s : State) (d : Nat) (desc : Desc) : State :=
  { s with desc := Function.update s.desc d desc }

def store (s : State) (f : Nat) (file : File) : State :=
  { s with file := Function.update s.file f file }

@[simp] def check (s : State) (ds : List Nat) : Except Fault Unit :=
  allow (∀ d ∈ ds, (s.desc d).freed = false) .freed ()

@[simp] def acquire (s : State) (t : Nat) : Except Fault State :=
  allow (s.filesLock = none) .blocked { s with filesLock := some t }

@[simp] def release (s : State) (t : Nat) : Except Fault State :=
  allow (s.filesLock = some t) .assertion { s with filesLock := none }

end State

def handlerOpen (s : State) (t : Nat) (granted : Bool) (chosen : Nat) : Open → Except Fault State
  | .filesysOpen =>
    if granted then
      .ok (({ s with opened := s.opened + 1 }.store s.opened { length := chosen }).become t
        (.opening (.allocate s.opened)))
    else .ok (s.become t (.done (-1)))
  | .allocate f =>
    if s.nextDesc < 3 then .error .assertion
    else if granted then
      .ok (({ s with made := s.made + 1 }.put s.made
        { file := f, lock := RwLock.rwLockInit s.count }).become t (.opening (.number f s.made)))
    else .error .null
  | .number f d => do
    let desc ← (s.desc d).use fun desc => { desc with fileDesc := s.nextDesc }
    .ok ((s.put d desc).become t (.opening (.lock f d)))
  | .lock f d => do
    let s ← s.acquire t
    .ok (s.become t (.opening (.push f d)))
  | .push f d => do
    s.check (d :: s.filesTab.head?.toList)
    .ok ({ s with filesTab := d :: s.filesTab }.become t (.opening (.increment f d)))
  | .increment f d =>
    .ok ({ s with nextDesc := (s.nextDesc + 1) % 2 ^ 32 }.become t (.opening (.unlock f d)))
  | .unlock f d => do
    let s ← s.release t
    .ok (s.become t (.opening (.result f d)))
  | .result _ d => do
    let fd ← (s.desc d).use Desc.fileDesc
    .ok (s.become t (.done fd))

def atFound (s : State) (d : Nat) : Handler → Except Fault (State × Stage)
  | .close => do
    s.check (d :: beside s.filesTab d)
    .ok ({ s with filesTab := s.filesTab.erase d }, .unlock (some d) (-1))
  | .filesize => atFile fileLength
  | .tell => atFile fileTell
  | .seek newPos => atFile (fileSeek newPos)
  | .read _ | .write _ => .ok (s, .unlock (some d) (-1))
where
  atFile (f : File → Except Fault (File × Int)) : Except Fault (State × Stage) := do
    let i ← (s.desc d).use Desc.file
    let (file, result) ← f (s.file i)
    .ok (s.store i file, .unlock none result)

def Handler.locks : Handler → Bool
  | .close | .read _ => true
  | .filesize | .tell | .seek _ | .write _ => false

def Handler.reader : Handler → Bool
  | .read _ => true
  | .close | .filesize | .tell | .seek _ | .write _ => false

def Handler.size : Handler → Nat
  | .read size | .write size => size
  | .close | .filesize | .tell | .seek _ => 0

def rwLockAcquire (lock : RwLock.State) (t : Nat) (reader : Bool) (pick : Nat) : RwLock.State :=
  if lock.pc t = .out then lock.setPc t (.acquireLock reader) else RwLock.run lock t pick

def rwLockRelease (lock : RwLock.State) (t : Nat) (reader : Bool) (pick : Nat) : RwLock.State :=
  if lock.pc t = .inside reader then lock.setPc t (.releaseLock reader) else RwLock.run lock t pick

def handle (s : State) (t : Nat) (handler : Handler) (fd chosen : Nat) :
    Stage → Except Fault State
  | .lock => do
    let s ← s.acquire t
    .ok (s.become t (.call handler fd (.search s.filesTab)))
  | .search [] => .ok (s.become t (.call handler fd (.unlock none (-1))))
  | .search (d :: rest) => do
    let number ← (s.desc d).use Desc.fileDesc
    .ok (s.become t (.call handler fd (if number = fd then .found d else .search rest)))
  | .found d => do
    let (s, stage) ← atFound s d handler
    .ok (s.become t (.call handler fd stage))
  | .unlock found result => do
    let s ← s.release t
    match found with
    | none => .ok (s.become t (.done result))
    | some d => .ok (s.become t (.call handler fd (if handler.locks then .acquire d else .transfer d)))
  | .acquire d =>
    -- a thread that sleeps in the condition executes nothing
    if ((s.desc d).lock.pc t) = .asleep handler.reader then .error .blocked
    else do
      let desc ← (s.desc d).use fun desc =>
        { desc with lock := rwLockAcquire desc.lock t handler.reader chosen }
      .ok ((s.put d desc).become t (.call handler fd
        (if desc.lock.pc t = .inside handler.reader then
          if handler.reader then .transfer d else .fileClose d
        else .acquire d)))
  | .fileClose d => do
    let i ← (s.desc d).use Desc.file
    let file ← fileClose (s.file i)
    .ok ((s.store i file).become t (.call handler fd (.release d 0)))
  | .transfer d => do
    let i ← (s.desc d).use Desc.file
    let bytes ← (s.file i).use fun _ => min chosen handler.size
    .ok (s.become t (.call handler fd (.advance d bytes)))
  | .advance d bytes => do
    let i ← (s.desc d).use Desc.file
    let file ← fileAdvance bytes (s.file i)
    .ok ((s.store i file).become t
      (if handler.locks then .call handler fd (.release d bytes) else .done bytes))
  | .release d result => do
    let desc ← (s.desc d).use fun desc =>
      { desc with lock := rwLockRelease desc.lock t handler.reader chosen }
    .ok ((s.put d desc).become t
      (if desc.lock.pc t = .out then
        if handler.reader then .done result else .call handler fd (.free d)
      else .call handler fd (.release d result)))
  | .free d => do
    let desc ← (s.desc d).use fun desc => { desc with freed := true }
    .ok ((s.put d desc).become t (.done 0))

def enter (fd : Nat) : Handler → Pc
  | .read size =>
    if fd = 0 then .done size else if fd = 1 then .done (-1) else .call (.read size) fd .lock
  | .write size =>
    if fd = 1 then .done 0 else if fd = 0 then .done (-1) else .call (.write size) fd .lock
  | .close => above .close
  | .filesize => above .filesize
  | .tell => above .tell
  | .seek newPos => above (.seek newPos)
where
  above (handler : Handler) : Pc := if fd < 3 then .done (-1) else .call handler fd .lock

def State.checkFd (s : State) (fd : Nat) : Bool := fd ≤ s.nextDesc

def runThread (s : State) (t : Nat) (granted : Bool) (chosen : Nat) : Except Fault State :=
  match s.threads t with
  | .opening stage => handlerOpen s t granted chosen stage
  | .call handler fd stage => handle s t handler fd chosen stage
  | .done _ => .ok (s.become t .user)
  | .user => .error .idle

def step (s : State) : Action → Except Fault State
  | .opens t =>
    if t < s.count ∧ s.threads t = .user then .ok (s.become t (.opening .filesysOpen))
    else .error .idle
  | .call t handler fd =>
    if t < s.count ∧ s.threads t = .user then
      .ok (s.become t (if s.checkFd fd then enter fd handler else .done (-1)))
    else .error .idle
  | .run t granted chosen => if t < s.count then runThread s t granted chosen else .error .idle

end Pintos.Files
