import Pintos.Filesys.OpenTable

/-! Openers of inodes in any order: whoever holds a reference may close it or hand it to a file,
and files are reopened, closed, and deny or allow writes. -/
namespace Pintos.Filesys
open Kernel Machine

structure Table where
  state : State
  refs : List Nat
  files : List Nat

inductive Call where
  | freeMapOpen (memory : Bool)
  | inodeOpen (sector : Nat) (memory : Bool)
  | inodeReopen (i : Nat)
  | inodeClose (i : Nat)
  | inodeRemove (i : Nat)
  | inodeWriteAt (i : Nat) (buffer : List UInt8) (offset : Nat) (bounce : Bool)
  | fileOpen (inode : Option Nat) (memory : Bool)
  | fileReopen (f : Nat) (memory : Bool)
  | fileDenyWrite (f : Nat)
  | fileAllowWrite (f : Nat)
  | fileClose (f : Nat)

def handOver (refs : List Nat) : Option Nat → List Nat
  | none => refs
  | some i => refs.erase i

def call (t : Table) : Call → Except Fault Table
  | .freeMapOpen memory => do
    let (f, s) ← freeMapOpen t.state memory
    .ok ⟨s, t.refs, f :: t.files⟩
  | .inodeOpen sector memory => do
    let (i, s) ← inodeOpen t.state sector memory
    .ok ⟨s, i.toList ++ t.refs, t.files⟩
  | .inodeReopen i => .ok ⟨inodeReopen t.state i, i :: t.refs, t.files⟩
  | .inodeClose i => do .ok ⟨← inodeClose t.state i, t.refs.erase i, t.files⟩
  | .inodeRemove i => .ok ⟨inodeRemove t.state i, t.refs, t.files⟩
  | .inodeWriteAt i buffer offset bounce => do
    let (_, s) ← inodeWriteAt t.state i buffer offset bounce
    .ok ⟨s, t.refs, t.files⟩
  | .fileOpen inode memory => do
    let (f, s) ← fileOpen t.state inode memory
    .ok ⟨s, handOver t.refs inode, f.toList ++ t.files⟩
  | .fileReopen f memory => do
    let (g, s) ← fileReopen t.state f memory
    .ok ⟨s, t.refs, g.toList ++ t.files⟩
  | .fileDenyWrite f => do .ok { t with state := ← fileDenyWrite t.state f }
  | .fileAllowWrite f => do .ok { t with state := ← fileAllowWrite t.state f }
  | .fileClose f => do .ok ⟨← fileClose t.state f, t.refs, t.files.erase f⟩

/-- A call names an inode or a file that is open, and closes or hands over a reference of its own. -/
def MayCall (t : Table) : Call → Prop
  | .freeMapOpen _ | .inodeOpen _ _ | .fileOpen none _ => True
  | .inodeReopen i | .inodeRemove i | .inodeWriteAt i _ _ _ => i ∈ t.state.openInodes
  | .inodeClose i | .fileOpen (some i) _ => i ∈ t.refs
  | .fileReopen f _ | .fileDenyWrite f | .fileAllowWrite f => f ∈ t.files
  | .fileClose f => f ∈ t.files ∧ t.state.freeMapFile ≠ some f

instance decideMayCall (t : Table) : (c : Call) → Decidable (MayCall t c)
  | .freeMapOpen _ | .inodeOpen _ _ | .fileOpen none _ => inferInstanceAs (Decidable True)
  | .inodeReopen i | .inodeRemove i | .inodeWriteAt i _ _ _ =>
    inferInstanceAs (Decidable (i ∈ t.state.openInodes))
  | .inodeClose i | .fileOpen (some i) _ => inferInstanceAs (Decidable (i ∈ t.refs))
  | .fileReopen f _ | .fileDenyWrite f | .fileAllowWrite f =>
    inferInstanceAs (Decidable (f ∈ t.files))
  | .fileClose f => inferInstanceAs (Decidable (f ∈ t.files ∧ t.state.freeMapFile ≠ some f))

section Steps
variable {s s' : State} {refs refs' files : List Nat} {t t' : Table} {c : Call}

theorem countedPerm (counted : Counted s refs files) (same : refs.Perm refs') :
    Counted s refs' files := by
  refine ⟨counted.nodup, counted.fresh, counted.filesNodup, counted.filesFresh,
    fun i inside => counted.refsOpen i (same.mem_iff.mpr inside), counted.filesOpen, counted.single,
    ?_, ?_, counted.denied⟩
  · intro i inside
    rw [← same.count_eq]
    exact counted.opened i inside
  · intro i inside
    rw [← same.count_eq]
    exact counted.held i inside

theorem freeMapOpenCounted {memory : Bool} {f : Nat} (counted : Counted s refs files)
    (done : freeMapOpen s memory = .ok (f, s')) : Counted s' refs (f :: files) := by
  obtain ⟨⟨inode, s₁⟩, opened, done⟩ := bindOk.mp done
  obtain ⟨⟨file, s₂⟩, made, done⟩ := bindOk.mp done
  have counted₁ := openCounted counted opened
  cases file with
  | none => cases done
  | some g =>
    obtain ⟨bytes, _, done⟩ := bindOk.mp done
    split at done
    split at done <;> try contradiction
    cases done
    cases inode with
    | none =>
      unfold fileOpen at made
      obtain ⟨_, _, made⟩ := bindOk.mp made
      cases made
    | some i =>
      obtain ⟨nodup, fresh, filesNodup, filesFresh, refsOpen, filesOpen, single, opened, held, denied⟩ :=
        fileOpenCounted counted₁ made
      exact ⟨nodup, fresh, filesNodup, filesFresh, refsOpen, filesOpen, single, opened, held, denied⟩

theorem callCounted (counted : Counted t.state t.refs t.files) (may : MayCall t c)
    (done : call t c = .ok t') : Counted t'.state t'.refs t'.files := by
  cases c with
  | freeMapOpen memory =>
    obtain ⟨⟨f, s⟩, opened, done⟩ := bindOk.mp done
    cases done
    exact freeMapOpenCounted counted opened
  | inodeOpen sector memory =>
    obtain ⟨⟨i, s⟩, opened, done⟩ := bindOk.mp done
    cases done
    exact openCounted counted opened
  | inodeReopen i =>
    cases done
    exact reopenCounted counted may
  | inodeClose i =>
    obtain ⟨s, closed, done⟩ := bindOk.mp done
    cases done
    exact closeCounted (countedPerm counted (List.perm_cons_erase may)) closed
  | inodeRemove i =>
    cases done
    exact removeCounted counted i
  | inodeWriteAt i buffer offset bounce =>
    obtain ⟨⟨written, s⟩, wrote, done⟩ := bindOk.mp done
    cases done
    exact countedSame counted (writeSame wrote)
  | fileOpen inode memory =>
    obtain ⟨⟨f, s⟩, opened, done⟩ := bindOk.mp done
    cases done
    cases inode with
    | none =>
      obtain ⟨s₁, same, rest⟩ := bindOk.mp opened
      cases same
      cases rest
      exact counted
    | some i => exact fileOpenCounted (countedPerm counted (List.perm_cons_erase may)) opened
  | fileReopen f memory =>
    obtain ⟨⟨g, s⟩, opened, done⟩ := bindOk.mp done
    cases done
    exact fileOpenCounted (reopenCounted counted (counted.filesOpen f may)) opened
  | fileDenyWrite f =>
    obtain ⟨s, denied, done⟩ := bindOk.mp done
    cases done
    obtain ⟨s', denied', counted', _⟩ := denySpec counted may
    cases Except.ok.inj (denied.symm.trans denied')
    exact counted'
  | fileAllowWrite f =>
    obtain ⟨s, allowed, done⟩ := bindOk.mp done
    cases done
    obtain ⟨s', allowed', counted', _⟩ := allowSpec counted may
    cases Except.ok.inj (allowed.symm.trans allowed')
    exact counted'
  | fileClose f =>
    obtain ⟨s, closed, done⟩ := bindOk.mp done
    cases done
    exact fileCloseCounted counted may.1 closed

theorem tableRun {s : State} (empty : s.openInodes = []) (run : Run call MayCall ⟨s, [], []⟩ t) :
    Counted t.state t.refs t.files := by
  refine run.invariant (fun t => Counted t.state t.refs t.files) ?_ ?_
  · refine ⟨?_, ?_, ?_, ?_, ?_, ?_, ?_, ?_, ?_, ?_⟩ <;> simp [empty]
  · intro u v c counted may moved
    exact callCounted counted may moved

theorem openInodeTable {s : State} (empty : s.openInodes = [])
    (run : Run call MayCall ⟨s, [], []⟩ t) :
    (∀ i ∈ t.state.openInodes, ∀ j ∈ t.state.openInodes,
      (t.state.inode i).sector = (t.state.inode j).sector → i = j) ∧
    (∀ i ∈ t.state.openInodes,
      (t.state.inode i).openCnt = (t.refs.count i + holders t.state.file t.files i : Nat) ∧
      1 ≤ (t.state.inode i).openCnt) ∧
    (∀ i ∈ t.state.openInodes,
      (t.state.inode i).denyWriteCnt = deniers t.state.file t.files i ∧
      (t.state.inode i).denyWriteCnt ≤ (t.state.inode i).openCnt) ∧
    t.state.openInodes.Nodup ∧ (∀ i ∈ t.refs, i ∈ t.state.openInodes) ∧
    (∀ f ∈ t.files, (t.state.file f).inode ∈ t.state.openInodes ∧
      (∃ s', fileDenyWrite t.state f = .ok s') ∧ ∃ s', fileAllowWrite t.state f = .ok s') ∧
    ∀ i ∈ t.state.openInodes, ∀ buffer offset bounce written s',
      inodeWriteAt t.state i buffer offset bounce = .ok (written, s') →
      s'.disk ≠ t.state.disk → deniers t.state.file t.files i = 0 := by
  have counted := tableRun empty run
  refine ⟨counted.single, fun i inside => ?_, fun i inside => ?_, counted.nodup, counted.refsOpen,
    fun f inside => ?_, fun i inside buffer offset bounce written s' done changed => ?_⟩
  · have opened := counted.opened i inside
    have held := counted.held i inside
    exact ⟨opened, by omega⟩
  · have opened := counted.opened i inside
    have denied := counted.denied i inside
    have fewer : deniers t.state.file t.files i ≤ holders t.state.file t.files i := deniersLe
    exact ⟨denied, by omega⟩
  · obtain ⟨s₁, denies, _⟩ := denySpec counted inside
    obtain ⟨s₂, allows, _⟩ := allowSpec counted inside
    exact ⟨counted.filesOpen f inside, ⟨s₁, denies⟩, s₂, allows⟩
  · by_contra some
    have denied := counted.denied i inside
    have refused : inodeWriteAt t.state i buffer offset bounce = .ok (0, t.state) :=
      if_pos (by omega)
    rw [refused] at done
    cases done
    exact changed rfl

def someCalls : List Call :=
  [.inodeOpen 2 true, .inodeOpen 2 true, .fileOpen (some 0) true, .fileReopen 1 true,
    .fileDenyWrite 2, .inodeOpen 3 true, .fileOpen (some 0) false]

def blank : State where
  device := 8
  disk := fun _ => 0
  freeMap := ⟨8, fun _ => 0#32⟩
  freeMapFile := none
  openInodes := []
  inode := fun _ => ⟨0, 0, false, 0, ⟨0, 0, 0⟩⟩
  file := fun _ => ⟨0, 0, false⟩
  next := 0

theorem openInodeTableExample : ∃ t, Run call MayCall ⟨blank, [], []⟩ t ∧
    t.state.openInodes = [3, 0] ∧ t.files = [2, 1] ∧ (t.state.inode 0).denyWriteCnt = 1 ∧
    (t.state.inode 0).openCnt = 2 ∧ ∃ s', fileAllowWrite t.state 2 = .ok s' := by
  have runs : (exec call MayCall ⟨blank, [], []⟩ someCalls).any (fun t =>
      decide (t.state.openInodes = [3, 0] ∧ t.files = [2, 1] ∧ (t.state.inode 0).denyWriteCnt = 1 ∧
        (t.state.inode 0).openCnt = 2)) = true := by decide +kernel
  obtain ⟨t, run, found⟩ := execFinds call MayCall ⟨blank, [], []⟩ someCalls _ runs
  obtain ⟨open', files, denied, opened⟩ := of_decide_eq_true found
  have table := openInodeTable rfl run
  refine ⟨t, run, open', files, denied, opened, (table.2.2.2.2.2.1 2 ?_).2.2⟩
  rw [files]
  exact List.mem_cons_self

end Steps

end Pintos.Filesys
