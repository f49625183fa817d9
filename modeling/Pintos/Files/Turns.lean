import Pintos.Files.Passage
import Pintos.Files.Step

/-! What one statement of the handlers does: most of them leave the table, the file_descs and the
files as they are, and the others are listed with the state they lead to. -/
namespace Pintos.Files
open Machine
open RwLock (Phase)

def Open.refers : Open → Option Nat
  | .filesysOpen | .allocate _ => none
  | .number _ d | .lock _ d | .push _ d | .increment _ d | .unlock _ d | .result _ d => some d

def Stage.refers : Stage → Option Nat
  | .lock | .search _ => none
  | .unlock pos _ => pos
  | .found d | .acquire d | .fileClose d | .transfer d | .advance d _ | .release d _ | .free d =>
    some d

def Pc.refers : Pc → Option Nat
  | .opening stage => stage.refers
  | .call _ _ stage => stage.refers
  | .user | .done _ => none

def Open.has : Open → Option Nat
  | .number _ d | .lock _ d | .push _ d => some d
  | .filesysOpen | .allocate _ | .increment _ _ | .unlock _ _ | .result _ _ => none

def Stage.has : Stage → Option Nat
  | .lock | .search _ | .found _ => none
  | stage => stage.refers

def Pc.has : Pc → Option Nat
  | .opening stage => stage.has
  | .call .close _ stage => stage.has
  | .call _ _ _ | .user | .done _ => none

def Pc.locked : Pc → Bool
  | .opening (.push _ _) | .opening (.increment _ _) | .opening (.unlock _ _) => true
  | .call _ _ (.search _) | .call _ _ (.found _) | .call _ _ (.unlock _ _) => true
  | .opening _ | .call _ _ _ | .user | .done _ => false

def Pc.sees : Pc → List Nat
  | .opening (.increment _ d) | .opening (.unlock _ d) => [d]
  | .call _ _ (.search rest) => rest
  | .call _ _ (.found d) => [d]
  | .call .close _ (.unlock _ _) => []
  | .call _ _ (.unlock found _) => found.toList
  | .opening _ | .call _ _ _ | .user | .done _ => []

def Pc.fits : Pc → Bool
  | .call .close _ (.transfer _) | .call .close _ (.advance _ _) => false
  | .call (.read _) _ (.fileClose _) | .call (.read _) _ (.free _) => false
  | .call (.write _) _ (.fileClose _) | .call (.write _) _ (.free _) => false
  | .call (.write _) _ (.acquire _) | .call (.write _) _ (.release _ _) => false
  | .call .close _ _ | .call (.read _) _ _ | .call (.write _) _ _ => true
  | .call _ _ .lock | .call _ _ (.search _) | .call _ _ (.found _) => true
  | .call _ _ (.unlock none _) => true
  | .call _ _ _ => false
  | .opening _ | .user | .done _ => true

def Pc.past : Pc → Option Nat
  | .call .close _ (.release d _) | .call .close _ (.free d) => some d
  | _ => none

def Pc.allocates : Pc → Option Nat
  | .opening (.allocate f) => some f
  | _ => none

def Pc.within : Pc → Option (Nat × Bool × Phase)
  | .call handler _ (.acquire d) => some (d, handler.reader, .acquiring)
  | .call handler _ (.fileClose d) => some (d, handler.reader, .inside)
  | .call handler _ (.transfer d) | .call handler _ (.advance d _) =>
    if handler.locks then some (d, handler.reader, .inside) else none
  | .call handler _ (.release d _) => some (d, handler.reader, .releasing)
  | _ => none

def Pc.numbered : Pc → Option Nat
  | .opening (.lock _ d) | .opening (.push _ d) | .opening (.increment _ d) => some d
  | _ => none

def Pc.unfinished : Pc → Nat
  | .opening (.number _ _) | .opening (.lock _ _) => 1
  | .opening (.push _ _) | .opening (.increment _ _) => 1
  | _ => 0

def Pc.returns : Pc → Option Nat
  | .opening (.result _ d) => some d
  | _ => none

def Pc.makes : Pc → Option (Nat × Nat)
  | .opening (.number f d) | .opening (.lock f d) | .opening (.push f d) => some (f, d)
  | .opening (.increment f d) | .opening (.unlock f d) | .opening (.result f d) => some (f, d)
  | _ => none

section Turn
variable {s s' : State} {t : Nat} {pc : Pc}

structure Turn (s : State) (t : Nat) (pc : Pc) (s' : State) : Prop where
  count : s'.count = s.count
  threads : s'.threads = Function.update s.threads t pc

theorem Turn.self (turn : Turn s t pc s') : s'.threads t = pc := by
  rw [turn.threads, Function.update_self]

theorem Turn.other {u : Nat} (turn : Turn s t pc s') (other : u ≠ t) :
    s'.threads u = s.threads u := by
  rw [turn.threads, Function.update_of_ne other]

def Locks (s : State) (t : Nat) (pc : Pc) (s' : State) : Prop :=
  (s'.filesLock = s.filesLock ∧ pc.locked = (s.threads t).locked) ∨
  (s.filesLock = none ∧ s'.filesLock = some t ∧ pc.locked = true) ∨
  (s.filesLock = some t ∧ s'.filesLock = none ∧ pc.locked = false)

/-- A statement that leaves the table, the file_descs and the files as they are. -/
@[mk_iff stillIff] structure Still (s : State) (t : Nat) (s' : State) : Prop where
  count : s'.count = s.count
  others : ∀ u, u ≠ t → s'.threads u = s.threads u
  fits : (s'.threads t).fits = true
  locks : Locks s t (s'.threads t) s'
  table : s'.filesTab = s.filesTab
  made : s'.made = s.made
  opened : s'.opened = s.opened
  freed : ∀ d, (s'.desc d).freed = (s.desc d).freed
  files : ∀ d, (s'.desc d).file = (s.desc d).file
  closed : ∀ f, (s'.file f).freed = (s.file f).freed
  sees : ∀ d ∈ (s'.threads t).sees, d ∈ s.filesTab
  has : ∀ d, (s'.threads t).has = some d → (s.threads t).has = some d
  refers : ∀ d, (s'.threads t).refers = some d → (s.threads t).refers = some d ∨ d ∈ s.filesTab
  past : (s'.threads t).past = (s.threads t).past
  allocates : (s'.threads t).allocates = none

@[mk_iff passesIff] structure Passes (s : State) (t : Nat) (s' : State) : Prop where
  lock : ∀ d, (s'.desc d).lock = (s.desc d).lock
  within : (s'.threads t).within = (s.threads t).within ∨
    (s.threads t).within = none ∧
      (∃ d reader, (s'.threads t).within = some (d, reader, .acquiring)) ∨
    ∃ d reader, (s.threads t).within = some (d, reader, .inside) ∧
      (s'.threads t).within = some (d, reader, .releasing)

inductive Uses (s : State) (t : Nat) : State → Prop
  | acquires {handler : Handler} {fd d : Nat} (chosen : Nat)
    (here : s.threads t = .call handler fd (.acquire d)) : Uses s t ((s.put d { s.desc d with
      lock := rwLockAcquire (s.desc d).lock t handler.reader chosen }).become t (.call handler fd
        (if (rwLockAcquire (s.desc d).lock t handler.reader chosen).pc t = .inside handler.reader then
          if handler.reader then .transfer d else .fileClose d
        else .acquire d)))
  | releases {handler : Handler} {fd d : Nat} {result : Int} (chosen : Nat)
    (here : s.threads t = .call handler fd (.release d result)) : Uses s t ((s.put d { s.desc d with
      lock := rwLockRelease (s.desc d).lock t handler.reader chosen }).become t
        (if (rwLockRelease (s.desc d).lock t handler.reader chosen).pc t = .out then
          if handler.reader then .done result else .call handler fd (.free d)
        else .call handler fd (.release d result)))

@[mk_iff countsIff] structure Counts (s : State) (t : Nat) (s' : State) : Prop where
  next : s'.nextDesc = s.nextDesc
  number : ∀ d, (s'.desc d).fileDesc = (s.desc d).fileDesc
  unfinished : (s'.threads t).unfinished = (s.threads t).unfinished
  numbered : (s'.threads t).numbered = (s.threads t).numbered
  makes : ∀ f d, (s'.threads t).makes = some (f, d) → (s.threads t).makes = some (f, d)
  returns : ∀ d, (s'.threads t).returns = some d → d ∈ s.filesTab

inductive Numbers (s : State) (t : Nat) : State → Prop
  | gives (f d : Nat) (here : s.threads t = .opening (.number f d)) :
    Numbers s t ((s.put d { s.desc d with fileDesc := s.nextDesc }).become t (.opening (.lock f d)))
  | increments (f d : Nat) (here : s.threads t = .opening (.increment f d)) :
    Numbers s t ({ s with nextDesc := (s.nextDesc + 1) % 2 ^ 32 }.become t (.opening (.unlock f d)))

structure Moves (s : State) (t : Nat) (s' : State) : Prop where
  still : Still s t s'
  passes : Passes s t s' ∨ Uses s t s'
  counts : Counts s t s' ∨ Numbers s t s'

inductive Changes (s : State) (t : Nat) : State → Prop
  | opens (chosen : Nat) (here : s.threads t = .opening .filesysOpen) :
    Changes s t (({ s with opened := s.opened + 1 }.store s.opened { length := chosen }).become t
      (.opening (.allocate s.opened)))
  | makes (f : Nat) (here : s.threads t = .opening (.allocate f)) :
    Changes s t (({ s with made := s.made + 1 }.put s.made
      { file := f, lock := RwLock.rwLockInit s.count }).become t (.opening (.number f s.made)))
  | pushes (f d : Nat) (here : s.threads t = .opening (.push f d)) :
    Changes s t ({ s with filesTab := d :: s.filesTab }.become t (.opening (.increment f d)))
  | removes (fd d : Nat) (here : s.threads t = .call .close fd (.found d)) :
    Changes s t ({ s with filesTab := s.filesTab.erase d }.become t
      (.call .close fd (.unlock (some d) (-1))))
  | closes (fd d : Nat) (here : s.threads t = .call .close fd (.fileClose d)) :
    Changes s t ((s.store (s.desc d).file { s.file (s.desc d).file with freed := true }).become t
      (.call .close fd (.release d 0)))
  | frees (fd d : Nat) (here : s.threads t = .call .close fd (.free d)) :
    Changes s t ((s.put d { s.desc d with freed := true }).become t (.done 0))

theorem enterCases (fd : Nat) (handler : Handler) :
    (∃ result, enter fd handler = .done result) ∨ enter fd handler = .call handler fd .lock := by
  cases handler <;> simp only [enter, enter.above] <;> grind

section Turn
attribute [local simp] stillIff passesIff countsIff State.become State.put State.store Locks Pc.fits
  Pc.locked Pc.sees Pc.has Pc.refers Pc.past Pc.allocates Pc.within Pc.numbered Pc.unfinished
  Pc.makes Pc.returns Open.has Open.refers Stage.has Stage.refers Function.update_apply
  Handler.locks Handler.reader

theorem movesAlong (along : Still s t s' ∧ Passes s t s' ∧ Counts s t s') :
    Moves s t s' ∨ Changes s t s' :=
  .inl ⟨along.1, .inl along.2.1, .inl along.2.2⟩

theorem openMoves {granted : Bool} {chosen : Nat} {stage : Open}
    (here : s.threads t = .opening stage) (seen : ∀ d ∈ (Pc.opening stage).sees, d ∈ s.filesTab) :
    Ends (handlerOpen s t granted chosen stage) fun s' => Moves s t s' ∨ Changes s t s' := by
  cases stage with
  | filesysOpen =>
    simp only [handlerOpen, endsIte, endsOk]
    exact ⟨fun _ => .inr (.opens chosen here), fun _ => movesAlong (by simp +contextual [here])⟩
  | allocate f =>
    simp only [handlerOpen, endsIte, endsOk, endsError]
    exact ⟨fun _ => trivial, fun _ => ⟨fun _ => .inr (.makes f here), fun _ => trivial⟩⟩
  | push f d =>
    simp only [handlerOpen, endsBind, endsAllow, State.check, endsOk]
    exact fun _ => .inr (.pushes f d here)
  | number f d =>
    simp only [handlerOpen, endsBind, endsAllow, Desc.use, endsOk]
    refine fun _ => .inl ⟨?_, .inl ?_, .inr (.gives f d here)⟩ <;>
      simp +contextual [here, apply_ite Desc.freed, apply_ite Desc.file, apply_ite Desc.lock]
  | increment f d =>
    have inside := seen d (List.mem_singleton_self d)
    refine endsOk.mpr (.inl ⟨?_, .inl ?_, .inr (.increments f d here)⟩) <;>
      simp +contextual [here, inside]
  | lock f d =>
    simp only [handlerOpen, endsBind, endsAllow, State.acquire, endsOk]
    exact fun free => movesAlong (by simp +contextual [here, free])
  | unlock f d =>
    have inside := seen d (List.mem_singleton_self d)
    simp only [handlerOpen, endsBind, endsAllow, State.release, endsOk]
    exact fun mine => movesAlong (by simp +contextual [here, inside, mine])
  | result f d =>
    simp only [handlerOpen, endsBind, endsAllow, Desc.use, endsOk]
    exact fun _ => movesAlong (by simp +contextual [here])

theorem foundMoves {handler : Handler} {fd d : Nat}
    (here : s.threads t = .call handler fd (.found d)) (inside : d ∈ s.filesTab) :
    Ends (atFound s d handler) fun out =>
      Moves s t (out.1.become t (.call handler fd out.2)) ∨
        Changes s t (out.1.become t (.call handler fd out.2)) := by
  have atFile {f : File → Except Fault (File × Int)}
      (keeps : ∀ file, Ends (f file) fun out => out.1.freed = file.freed)
      (other : handler.locks = false) :
      Ends (atFound.atFile s d f) fun out =>
        Moves s t (out.1.become t (.call handler fd out.2)) ∨
          Changes s t (out.1.become t (.call handler fd out.2)) := by
    simp only [atFound.atFile, endsBind, endsAllow, Desc.use, endsOk]
    rintro _ ⟨file, result⟩ ran
    have same : file.freed = (s.file (s.desc d).file).freed := keeps _ _ ran
    refine movesAlong ?_
    cases handler <;> simp +contextual [here, apply_ite File.freed, same] at other ⊢
  cases handler with
  | close =>
    simp only [atFound, endsBind, endsAllow, State.check, endsOk]
    exact fun _ => .inr (.removes fd d here)
  | read size | write size =>
    exact endsOk.mpr (movesAlong (by simp +contextual [here, inside]))
  | filesize => exact atFile (fun file => by simp [fileLength]) rfl
  | tell => exact atFile (fun file => by simp [fileTell]) rfl
  | seek newPos => exact atFile (fun file => by simp [fileSeek]) rfl

theorem handleMoves {handler : Handler} {fd chosen : Nat} {stage : Stage}
    (here : s.threads t = .call handler fd stage)
    (fits : (Pc.call handler fd stage).fits = true)
    (seen : ∀ d ∈ (Pc.call handler fd stage).sees, d ∈ s.filesTab) :
    Ends (handle s t handler fd chosen stage) fun s' => Moves s t s' ∨ Changes s t s' := by
  cases stage with
  | lock =>
    simp only [handle, endsBind, endsAllow, State.acquire, endsOk]
    refine fun free => movesAlong ?_
    cases handler <;> simp +contextual [here, free]
  | search rest =>
    cases rest with
    | nil => exact endsOk.mpr (movesAlong (by cases handler <;> simp +contextual [here]))
    | cons d rest =>
      have inside := seen d List.mem_cons_self
      have beyond (e : Nat) (mem : e ∈ rest) := seen e (List.mem_cons_of_mem d mem)
      simp only [handle, endsBind, endsAllow, Desc.use, endsOk]
      refine fun _ => movesAlong ?_
      split <;> cases handler <;> simp +contextual [here, inside, beyond]
  | found d =>
    have inside := seen d (List.mem_singleton_self d)
    exact endsBind.mpr (endsAfter (foundMoves here inside) fun out _ post => endsOk.mpr post)
  | unlock found result =>
    simp only [handle, endsBind, endsAllow, State.release]
    intro mine
    cases found <;> refine endsOk.mpr (movesAlong ?_) <;> cases handler <;>
      simp +contextual [here, mine] at fits ⊢
  | acquire d =>
    simp only [handle, endsIte, endsError, endsBind, endsAllow, Desc.use, endsOk]
    refine ⟨fun _ => trivial, fun _ _ => .inl ⟨?_, .inr (.acquires chosen here), .inl ?_⟩⟩ <;>
      split <;> cases handler <;> simp +contextual [here, apply_ite Desc.freed, apply_ite Desc.file,
        apply_ite Desc.fileDesc] at fits ⊢
  | fileClose d =>
    obtain rfl : handler = .close := by cases handler <;> simp [Pc.fits] at fits ⊢
    simp only [handle, fileClose, endsBind, endsAllow, Desc.use, File.use, endsOk]
    exact fun _ _ => .inr (.closes fd d here)
  | transfer d =>
    simp only [handle, endsBind, endsAllow, Desc.use, File.use, endsOk]
    refine fun _ _ => movesAlong ?_
    cases handler <;> simp +contextual [here] at fits ⊢
  | advance d bytes =>
    simp only [handle, fileAdvance, endsBind, endsAllow, Desc.use, File.use, endsOk]
    refine fun _ _ => movesAlong ?_
    cases handler <;> simp +contextual [here, apply_ite File.freed] at fits ⊢
  | release d result =>
    simp only [handle, endsBind, endsAllow, Desc.use, endsOk]
    refine fun _ => .inl ⟨?_, .inr (.releases chosen here), .inl ?_⟩ <;>
      split <;> cases handler <;> simp +contextual [here, apply_ite Desc.freed, apply_ite Desc.file,
        apply_ite Desc.fileDesc] at fits ⊢
  | free d =>
    obtain rfl : handler = .close := by cases handler <;> simp [Pc.fits] at fits ⊢
    simp only [handle, endsBind, endsAllow, Desc.use, endsOk]
    exact fun _ => .inr (.frees fd d here)

theorem stepMoves {a : Action} (fits : ∀ t, (s.threads t).fits = true)
    (sees : ∀ t, ∀ d ∈ (s.threads t).sees, d ∈ s.filesTab) (ok : step s a = .ok s') :
    ∃ t < s.count, (Moves s t s' ∨ Changes s t s') ∧
      (s.threads t ≠ .user → ∃ granted chosen, a = .run t granted chosen) := by
  cases a with
  | opens t =>
    simp only [step] at ok
    split at ok <;> try contradiction
    rename_i free
    cases ok
    exact ⟨t, free.1, movesAlong (by simp +contextual [free.2]), fun busy => absurd free.2 busy⟩
  | call t handler fd =>
    simp only [step] at ok
    split at ok <;> try contradiction
    rename_i free
    cases ok
    refine ⟨t, free.1, movesAlong ?_, fun busy => absurd free.2 busy⟩
    split
    · rcases enterCases fd handler with ⟨result, same⟩ | same <;> rw [same]
      · simp +contextual [free.2]
      · cases handler <;> simp +contextual [free.2]
    · simp +contextual [free.2]
  | run t granted chosen =>
    simp only [step] at ok
    split at ok <;> try contradiction
    rename_i busy
    refine ⟨t, busy, ?_, fun _ => ⟨granted, chosen, rfl⟩⟩
    unfold runThread at ok
    split at ok
    · rename_i stage here
      exact openMoves here (here ▸ sees t) s' ok
    · rename_i handler fd stage here
      exact handleMoves here (here ▸ fits t) (here ▸ sees t) s' ok
    · rename_i result here
      cases ok
      exact movesAlong (by simp +contextual [here])
    · contradiction

end Turn

theorem Still.turn (still : Still s t s') : Turn s t (s'.threads t) s' := by
  refine ⟨still.count, funext fun u => ?_⟩
  by_cases self : u = t
  · rw [self, Function.update_self]
  · rw [Function.update_of_ne self, still.others u self]

theorem putKeeps {β : Type} {d : Nat} {desc : Desc} (g : Desc → β) (same : g desc = g (s.desc d))
    (e : Nat) : g ((s.put d desc).desc e) = g (s.desc e) := by
  by_cases here : e = d
  · subst here
    rw [← same]
    exact congrArg g (Function.update_self _ _ _)
  · exact congrArg g (Function.update_of_ne here _ _)

end Turn
end Pintos.Files
