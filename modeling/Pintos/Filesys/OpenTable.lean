import Mathlib.Data.List.Count
import Mathlib.Data.List.Nodup
import Pintos.Filesys.Inode

/-! The table of open inodes. Every outstanding reference to an inode is either a plain one or an
open file's; `open_cnt` counts both and `deny_write_cnt` the open files that deny writes. -/
namespace Pintos.Filesys
open Kernel Machine

def holders (file : Nat → File) (files : List Nat) (i : Nat) : Nat :=
  files.countP fun f => (file f).inode == i

def deniers (file : Nat → File) (files : List Nat) (i : Nat) : Nat :=
  files.countP fun f => (file f).inode == i && (file f).denyWrite

structure Counted (s : State) (refs files : List Nat) : Prop where
  nodup : s.openInodes.Nodup
  fresh : ∀ i ∈ s.openInodes, i < s.next
  filesNodup : files.Nodup
  filesFresh : ∀ f ∈ files, f < s.next
  refsOpen : ∀ i ∈ refs, i ∈ s.openInodes
  filesOpen : ∀ f ∈ files, (s.file f).inode ∈ s.openInodes
  single : ∀ i ∈ s.openInodes, ∀ j ∈ s.openInodes, (s.inode i).sector = (s.inode j).sector → i = j
  opened : ∀ i ∈ s.openInodes, (s.inode i).openCnt = (refs.count i + holders s.file files i : Nat)
  held : ∀ i ∈ s.openInodes, 0 < refs.count i + holders s.file files i
  denied : ∀ i ∈ s.openInodes, (s.inode i).denyWriteCnt = deniers s.file files i

structure SameTable (s s' : State) : Prop where
  device : s'.device = s.device
  freeMapFile : s'.freeMapFile = s.freeMapFile
  openInodes : s'.openInodes = s.openInodes
  inode : s'.inode = s.inode
  file : s'.file = s.file
  next : s'.next = s.next

section Frames
variable {s s' : State} {refs files : List Nat} {i f : Nat}

theorem SameTable.trans {s'' : State} (one : SameTable s s') (two : SameTable s' s'') :
    SameTable s s'' :=
  ⟨two.device.trans one.device, two.freeMapFile.trans one.freeMapFile,
    two.openInodes.trans one.openInodes, two.inode.trans one.inode, two.file.trans one.file,
    two.next.trans one.next⟩

theorem countedSame (counted : Counted s refs files) (same : SameTable s s') :
    Counted s' refs files := by
  obtain ⟨nodup, fresh, filesNodup, filesFresh, refsOpen, filesOpen, single, opened, held, denied⟩ :=
    counted
  rw [← same.openInodes] at nodup fresh refsOpen filesOpen single opened held denied
  rw [← same.next] at fresh filesFresh
  rw [← same.file] at filesOpen opened held denied
  rw [← same.inode] at single opened denied
  exact ⟨nodup, fresh, filesNodup, filesFresh, refsOpen, filesOpen, single, opened, held, denied⟩

theorem writeSame {buffer : List UInt8} {offset written : Nat} {bounce : Bool}
    (done : inodeWriteAt s i buffer offset bounce = .ok (written, s')) : SameTable s s' := by
  unfold inodeWriteAt at done
  split at done
  · cases done
    exact ⟨rfl, rfl, rfl, rfl, rfl, rfl⟩
  · obtain ⟨result, _, done⟩ := bindOk.mp done
    cases done
    exact ⟨rfl, rfl, rfl, rfl, rfl, rfl⟩

theorem bitmapWriteSame {stored : Bool} (done : bitmapWrite s f = .ok (stored, s')) :
    SameTable s s' := by
  obtain ⟨⟨written, s₁⟩, wrote, done⟩ := bindOk.mp done
  cases done
  exact writeSame wrote

theorem releaseSame {sector cnt : Nat} (done : freeMapRelease s sector cnt = .ok s') :
    SameTable s s' := by
  obtain ⟨all, _, done⟩ := bindOk.mp done
  split at done <;> try contradiction
  obtain ⟨freeMap, _, done⟩ := bindOk.mp done
  split at done <;> try contradiction
  obtain ⟨⟨stored, s₁⟩, wrote, done⟩ := bindOk.mp done
  cases done
  have same := bitmapWriteSame wrote
  exact ⟨same.device, same.freeMapFile, same.openInodes, same.inode, same.file, same.next⟩

end Frames

section Counts
variable {s s' : State} {refs files : List Nat} {i f : Nat}
  {result : Option Nat} {memory : Bool} {sector : Nat}

theorem reopenCounted (counted : Counted s refs files) (member : i ∈ s.openInodes) :
    Counted (inodeReopen s i) (i :: refs) files := by
  have other : ∀ {j}, j ≠ i → (inodeReopen s i).inode j = s.inode j :=
    fun apart => Function.update_of_ne apart ..
  have self : (inodeReopen s i).inode i = { s.inode i with openCnt := (s.inode i).openCnt + 1 } :=
    Function.update_self ..
  have kept (j : Nat) : ((inodeReopen s i).inode j).sector = (s.inode j).sector ∧
      ((inodeReopen s i).inode j).denyWriteCnt = (s.inode j).denyWriteCnt := by
    by_cases same : j = i
    · simp [same, self]
    · simp [other same]
  refine ⟨counted.nodup, counted.fresh, counted.filesNodup, counted.filesFresh, ?_,
    counted.filesOpen, ?_, ?_, ?_, ?_⟩
  · intro j inside
    rcases List.mem_cons.mp inside with rfl | inside
    · exact member
    · exact counted.refsOpen j inside
  · intro j one k two same
    rw [(kept j).1, (kept k).1] at same
    exact counted.single j one k two same
  · intro j inside
    by_cases same : j = i
    · subst same
      rw [self, List.count_cons_self]
      have opened := counted.opened j member
      change (s.inode j).openCnt + 1 = _
      rw [opened]
      push_cast
      change _ = ((refs.count j : Int) + 1 + (holders s.file files j : Int))
      omega
    · rw [other same, List.count_cons_of_ne (Ne.symm same)]
      exact counted.opened j inside
  · intro j inside
    have held := counted.held j inside
    have more : refs.count j ≤ (i :: refs).count j := List.count_le_count_cons
    change 0 < (i :: refs).count j + holders s.file files j
    omega
  · intro j inside
    rw [(kept j).2]
    exact counted.denied j inside

theorem newCounted (counted : Counted s refs files) {inode : Inode} (one : inode.openCnt = 1)
    (none : inode.denyWriteCnt = 0) (new : ∀ j ∈ s.openInodes, (s.inode j).sector ≠ inode.sector) :
    Counted { s.setInode s.next inode with openInodes := s.next :: s.openInodes, next := s.next + 1 }
      (s.next :: refs) files := by
  have older : ∀ j ∈ s.openInodes, j ≠ s.next := fun j inside => Nat.ne_of_lt (counted.fresh j inside)
  have other : ∀ {j}, j ∈ s.openInodes → Function.update s.inode s.next inode j = s.inode j :=
    fun inside => Function.update_of_ne (older _ inside) ..
  have self : Function.update s.inode s.next inode s.next = inode := Function.update_self ..
  have apart : s.next ∉ s.openInodes := fun inside => older _ inside rfl
  have unheld : holders s.file files s.next = 0 := by
    refine List.countP_eq_zero.mpr fun f member same => apart ?_
    rw [← eq_of_beq same]
    exact counted.filesOpen f member
  have undenied : deniers s.file files s.next = 0 := by
    refine List.countP_eq_zero.mpr fun f member both => apart ?_
    rw [← eq_of_beq (Bool.and_eq_true_iff.mp both).1]
    exact counted.filesOpen f member
  have unreferenced : refs.count s.next = 0 :=
    List.count_eq_zero_of_not_mem fun inside => apart (counted.refsOpen _ inside)
  refine ⟨List.nodup_cons.mpr ⟨apart, counted.nodup⟩, ?_, counted.filesNodup, ?_, ?_, ?_, ?_, ?_, ?_,
    ?_⟩
  · intro j inside
    rcases List.mem_cons.mp inside with rfl | inside
    · exact Nat.lt_succ_self _
    · exact Nat.lt_succ_of_lt (counted.fresh j inside)
  · exact fun f member => Nat.lt_succ_of_lt (counted.filesFresh f member)
  · intro j inside
    rcases List.mem_cons.mp inside with rfl | inside
    · exact List.mem_cons_self
    · exact List.mem_cons_of_mem _ (counted.refsOpen j inside)
  · exact fun f member => List.mem_cons_of_mem _ (counted.filesOpen f member)
  · intro j one k two same
    change (Function.update s.inode s.next inode j).sector =
      (Function.update s.inode s.next inode k).sector at same
    rcases List.mem_cons.mp one with rfl | one
    · rcases List.mem_cons.mp two with rfl | two
      · rfl
      · rw [self, other two] at same
        exact absurd same.symm (new k two)
    · rcases List.mem_cons.mp two with rfl | two
      · rw [self, other one] at same
        exact absurd same (new j one)
      · rw [other one, other two] at same
        exact counted.single j one k two same
  · intro j inside
    change (Function.update s.inode s.next inode j).openCnt =
      ((s.next :: refs).count j + holders s.file files j : Nat)
    rcases List.mem_cons.mp inside with rfl | inside
    · rw [self, one, List.count_cons_self, unreferenced, unheld]
      rfl
    · rw [other inside, List.count_cons_of_ne (Ne.symm (older j inside))]
      exact counted.opened j inside
  · intro j inside
    change 0 < (s.next :: refs).count j + holders s.file files j
    rcases List.mem_cons.mp inside with rfl | inside
    · rw [List.count_cons_self]
      omega
    · rw [List.count_cons_of_ne (Ne.symm (older j inside))]
      exact counted.held j inside
  · intro j inside
    change (Function.update s.inode s.next inode j).denyWriteCnt = deniers s.file files j
    rcases List.mem_cons.mp inside with rfl | inside
    · rw [self, none, undenied]
      rfl
    · rw [other inside]
      exact counted.denied j inside

inductive Opens (s : State) (sector : Nat) : Option Nat → State → Prop where
  | again {i : Nat} (member : i ∈ s.openInodes) (same : (s.inode i).sector = sector) :
      Opens s sector (some i) (inodeReopen s i)
  | first {block : List UInt8} (new : ∀ j ∈ s.openInodes, (s.inode j).sector ≠ sector)
      (read : blockRead s.device s.disk sector = .ok block) :
      Opens s sector (some s.next) {
        s.setInode s.next ⟨sector, 1, false, 0, decodeInode block⟩ with
        openInodes := s.next :: s.openInodes
        next := s.next + 1 }
  | failed (new : ∀ j ∈ s.openInodes, (s.inode j).sector ≠ sector) : Opens s sector none s

theorem inodeOpenCases
    (done : inodeOpen s sector memory = .ok (result, s')) : Opens s sector result s' := by
  unfold inodeOpen at done
  split at done
  · rename_i i found
    cases done
    have same := List.find?_some found
    exact .again (List.mem_of_find?_eq_some found) (eq_of_beq same)
  · rename_i missing
    have new : ∀ j ∈ s.openInodes, (s.inode j).sector ≠ sector := by
      intro j inside
      have other := List.find?_eq_none.mp missing j inside
      exact fun same => other (beq_iff_eq.mpr same)
    split at done
    · obtain ⟨block, read, done⟩ := bindOk.mp done
      cases done
      exact .first new read
    · cases done
      exact .failed new

theorem openCounted (counted : Counted s refs files)
    (done : inodeOpen s sector memory = .ok (result, s')) :
    Counted s' (result.toList ++ refs) files := by
  cases inodeOpenCases done with
  | again member same => exact reopenCounted counted member
  | first new read => exact newCounted counted rfl rfl new
  | failed new => exact counted

theorem removeCounted (counted : Counted s refs files) (i : Nat) :
    Counted (inodeRemove s i) refs files := by
  have fields : ∀ j, ((inodeRemove s i).inode j).sector = (s.inode j).sector ∧
      ((inodeRemove s i).inode j).openCnt = (s.inode j).openCnt ∧
      ((inodeRemove s i).inode j).denyWriteCnt = (s.inode j).denyWriteCnt := by
    intro j
    unfold inodeRemove State.setInode
    by_cases same : j = i
    · subst same
      simp
    · simp [same]
  refine ⟨counted.nodup, counted.fresh, counted.filesNodup, counted.filesFresh, counted.refsOpen,
    counted.filesOpen, ?_, ?_, counted.held, ?_⟩
  · intro j one k two same
    rw [(fields j).1, (fields k).1] at same
    exact counted.single j one k two same
  · intro j inside
    rw [(fields j).2.1]
    exact counted.opened j inside
  · intro j inside
    rw [(fields j).2.2]
    exact counted.denied j inside

def unref (s : State) (i : Nat) : State :=
  s.setInode i { s.inode i with openCnt := (s.inode i).openCnt - 1 }

theorem closeCases (done : inodeClose s i = .ok s') :
    (s.inode i).openCnt ≠ 1 ∧ s' = unref s i ∨
    (s.inode i).openCnt = 1 ∧
      SameTable { unref s i with openInodes := s.openInodes.erase i } s' := by
  simp only [inodeClose] at done
  split at done
  · rename_i last
    have one : (s.inode i).openCnt = 1 := by omega
    refine .inr ⟨one, ?_⟩
    split at done
    · obtain ⟨s₁, first, second⟩ := bindOk.mp done
      exact (releaseSame first).trans (releaseSame second)
    · cases done
      exact ⟨rfl, rfl, rfl, rfl, rfl, rfl⟩
  · rename_i more
    cases done
    exact .inl ⟨by omega, rfl⟩

theorem closeCounted (counted : Counted s (i :: refs) files) (done : inodeClose s i = .ok s') :
    Counted s' refs files := by
  have member : i ∈ s.openInodes := counted.refsOpen i List.mem_cons_self
  have other : ∀ {j}, j ≠ i → (unref s i).inode j = s.inode j :=
    fun apart => Function.update_of_ne apart ..
  have self : (unref s i).inode i = { s.inode i with openCnt := (s.inode i).openCnt - 1 } :=
    Function.update_self ..
  have kept (j : Nat) : ((unref s i).inode j).sector = (s.inode j).sector ∧
      ((unref s i).inode j).denyWriteCnt = (s.inode j).denyWriteCnt := by
    by_cases same : j = i
    · simp [same, self]
    · simp [other same]
  have opened := counted.opened i member
  rw [List.count_cons_self] at opened
  rcases closeCases done with ⟨more, rfl⟩ | ⟨last, same⟩
  · refine ⟨counted.nodup, counted.fresh, counted.filesNodup, counted.filesFresh,
      fun j inside => counted.refsOpen j (List.mem_cons_of_mem _ inside), counted.filesOpen, ?_, ?_,
      ?_, ?_⟩
    · intro j one k two same
      rw [(kept j).1, (kept k).1] at same
      exact counted.single j one k two same
    · intro j inside
      by_cases same : j = i
      · subst same
        rw [self]
        change (s.inode j).openCnt - 1 = (refs.count j + holders s.file files j : Nat)
        omega
      · rw [other same]
        have opened := counted.opened j inside
        rwa [List.count_cons_of_ne (Ne.symm same)] at opened
    · intro j inside
      change 0 < refs.count j + holders s.file files j
      by_cases same : j = i
      · subst same
        omega
      · have held := counted.held j inside
        rwa [List.count_cons_of_ne (Ne.symm same)] at held
    · intro j inside
      rw [(kept j).2]
      exact counted.denied j inside
  · refine countedSame ?_ same
    have none : refs.count i = 0 ∧ holders s.file files i = 0 := by omega
    have left : ∀ {j}, j ∈ s.openInodes.erase i ↔ j ≠ i ∧ j ∈ s.openInodes :=
      counted.nodup.mem_erase_iff
    refine ⟨counted.nodup.erase i, fun j inside => counted.fresh j (left.mp inside).2,
      counted.filesNodup, counted.filesFresh, ?_, ?_, ?_, ?_, ?_, ?_⟩
    · intro j inside
      refine left.mpr ⟨?_, counted.refsOpen j (List.mem_cons_of_mem _ inside)⟩
      rintro rfl
      exact List.count_eq_zero.mp none.1 inside
    · intro f inside
      refine left.mpr ⟨fun same => ?_, counted.filesOpen f inside⟩
      exact List.countP_eq_zero.mp none.2 f inside (beq_iff_eq.mpr same)
    · intro j one k two same
      change ((unref s i).inode j).sector = ((unref s i).inode k).sector at same
      rw [(kept j).1, (kept k).1] at same
      exact counted.single j (left.mp one).2 k (left.mp two).2 same
    · intro j inside
      obtain ⟨apart, inside⟩ := left.mp inside
      change ((unref s i).inode j).openCnt = (refs.count j + holders s.file files j : Nat)
      rw [other apart]
      have opened := counted.opened j inside
      rwa [List.count_cons_of_ne (Ne.symm apart)] at opened
    · intro j inside
      obtain ⟨apart, inside⟩ := left.mp inside
      have held := counted.held j inside
      rwa [List.count_cons_of_ne (Ne.symm apart)] at held
    · exact fun j inside => (kept j).2.trans (counted.denied j (left.mp inside).2)

theorem holdCounted (counted : Counted s (i :: refs) files) :
    Counted { s.setFile s.next ⟨i, 0, false⟩ with next := s.next + 1 } refs (s.next :: files) := by
  have member : i ∈ s.openInodes := counted.refsOpen i List.mem_cons_self
  have apart : s.next ∉ files := fun inside => Nat.lt_irrefl _ (counted.filesFresh _ inside)
  have older : ∀ f ∈ files, Function.update s.file s.next ⟨i, 0, false⟩ f = s.file f := by
    intro f inside
    refine Function.update_of_ne ?_ ..
    rintro rfl
    exact apart inside
  have self : Function.update s.file s.next ⟨i, 0, false⟩ s.next = ⟨i, 0, false⟩ :=
    Function.update_self ..
  have holds : ∀ j, holders (Function.update s.file s.next ⟨i, 0, false⟩) (s.next :: files) j =
      holders s.file files j + if i = j then 1 else 0 := by
    intro j
    unfold holders
    rw [List.countP_cons, self, List.countP_congr fun f inside => by rw [older f inside]]
    simp
  have denies : ∀ j, deniers (Function.update s.file s.next ⟨i, 0, false⟩) (s.next :: files) j =
      deniers s.file files j := by
    intro j
    unfold deniers
    rw [List.countP_cons, self, List.countP_congr fun f inside => by rw [older f inside]]
    simp
  have count : ∀ j, (i :: refs).count j + holders s.file files j = refs.count j +
      holders (Function.update s.file s.next ⟨i, 0, false⟩) (s.next :: files) j := by
    intro j
    rw [holds, List.count_cons]
    simp only [beq_iff_eq]
    omega
  refine ⟨counted.nodup, fun j inside => Nat.lt_succ_of_lt (counted.fresh j inside),
    List.nodup_cons.mpr ⟨apart, counted.filesNodup⟩, ?_,
    fun j inside => counted.refsOpen j (List.mem_cons_of_mem _ inside), ?_, counted.single, ?_, ?_, ?_⟩
  · intro f inside
    rcases List.mem_cons.mp inside with rfl | inside
    · exact Nat.lt_succ_self _
    · exact Nat.lt_succ_of_lt (counted.filesFresh f inside)
  · intro f inside
    change (Function.update s.file s.next ⟨i, 0, false⟩ f).inode ∈ s.openInodes
    rcases List.mem_cons.mp inside with rfl | inside
    · rw [self]
      exact member
    · rw [older f inside]
      exact counted.filesOpen f inside
  · intro j inside
    have opened := counted.opened j inside
    rwa [count] at opened
  · intro j inside
    have held := counted.held j inside
    rwa [count] at held
  · intro j inside
    have denied := counted.denied j inside
    rwa [← denies] at denied

theorem releaseCounted (counted : Counted s refs files) (member : f ∈ files)
    (allows : (s.file f).denyWrite = false) :
    Counted s ((s.file f).inode :: refs) (files.erase f) := by
  have perm := List.perm_cons_erase member
  have holds : ∀ j, holders s.file files j =
      holders s.file (files.erase f) j + if (s.file f).inode = j then 1 else 0 := by
    intro j
    unfold holders
    rw [perm.countP_eq, List.countP_cons]
    simp
  have denies : ∀ j, deniers s.file files j = deniers s.file (files.erase f) j := by
    intro j
    unfold deniers
    rw [perm.countP_eq, List.countP_cons, allows]
    simp
  have count : ∀ j, refs.count j + holders s.file files j =
      ((s.file f).inode :: refs).count j + holders s.file (files.erase f) j := by
    intro j
    rw [holds, List.count_cons]
    simp only [beq_iff_eq]
    omega
  refine ⟨counted.nodup, counted.fresh, counted.filesNodup.erase f,
    fun g inside => counted.filesFresh g (List.mem_of_mem_erase inside), ?_,
    fun g inside => counted.filesOpen g (List.mem_of_mem_erase inside), counted.single, ?_, ?_, ?_⟩
  · intro j inside
    rcases List.mem_cons.mp inside with rfl | inside
    · exact counted.filesOpen f member
    · exact counted.refsOpen j inside
  · intro j inside
    have opened := counted.opened j inside
    rwa [count] at opened
  · intro j inside
    have held := counted.held j inside
    rwa [count] at held
  · intro j inside
    have denied := counted.denied j inside
    rwa [denies] at denied

end Counts

section Denials
variable {s s' : State} {file : Nat → File} {refs files : List Nat} {i f : Nat}

theorem holdersKept {file' : Nat → File} (same : ∀ g, (file' g).inode = (file g).inode)
    (files : List Nat) (i : Nat) : holders file' files i = holders file files i := by
  unfold holders
  exact List.countP_congr fun g _ => by rw [same]

theorem deniersLe : deniers file files i ≤ holders file files i := by
  refine List.countP_mono_left fun f _ both => ?_
  exact (Bool.and_eq_true_iff.mp both).1

theorem updateInode (file : Nat → File) (f : Nat) (deny : Bool) (g : Nat) :
    (Function.update file f { file f with denyWrite := deny } g).inode = (file g).inode := by
  by_cases same : g = f
  · subst same
    simp
  · simp [same]

theorem deniersUpdate (file : Nat → File) (member : f ∈ files) (nodup : files.Nodup) (deny : Bool)
    (i : Nat) :
    deniers (Function.update file f { file f with denyWrite := deny }) files i =
      deniers file (files.erase f) i + if (file f).inode = i ∧ deny = true then 1 else 0 := by
  have rest : ∀ g ∈ files.erase f,
      Function.update file f { file f with denyWrite := deny } g = file g := by
    intro g inside
    exact Function.update_of_ne (nodup.mem_erase_iff.mp inside).1 ..
  unfold deniers
  rw [(List.perm_cons_erase member).countP_eq, List.countP_cons, Function.update_self,
    List.countP_congr fun g inside => by rw [rest g inside]]
  simp

theorem deniersSplit (file : Nat → File) (member : f ∈ files) (nodup : files.Nodup) (i : Nat) :
    deniers file files i = deniers file (files.erase f) i +
      if (file f).inode = i ∧ (file f).denyWrite = true then 1 else 0 := by
  have same : Function.update file f { file f with denyWrite := (file f).denyWrite } = file := by
    simp
  have split := deniersUpdate file member nodup (file f).denyWrite i
  rwa [same] at split

theorem holdersSplit (file : Nat → File) (member : f ∈ files) (i : Nat) :
    holders file files i =
      holders file (files.erase f) i + if (file f).inode = i then 1 else 0 := by
  unfold holders
  rw [(List.perm_cons_erase member).countP_eq, List.countP_cons]
  simp

theorem flagCounted (counted : Counted s refs files) (deny : Bool) {count : Int}
    (agrees : count =
      deniers (Function.update s.file f { s.file f with denyWrite := deny }) files (s.file f).inode)
    (elsewhere : ∀ j, j ≠ (s.file f).inode →
      deniers (Function.update s.file f { s.file f with denyWrite := deny }) files j =
        deniers s.file files j) :
    Counted ((s.setFile f { s.file f with denyWrite := deny }).setInode (s.file f).inode
      { s.inode (s.file f).inode with denyWriteCnt := count }) refs files := by
  have holds := holdersKept (updateInode s.file f deny) files
  have other : ∀ {j}, j ≠ (s.file f).inode → Function.update s.inode (s.file f).inode
      { s.inode (s.file f).inode with denyWriteCnt := count } j = s.inode j :=
    fun apart => Function.update_of_ne apart ..
  have fields : ∀ j, (Function.update s.inode (s.file f).inode
      { s.inode (s.file f).inode with denyWriteCnt := count } j).sector = (s.inode j).sector ∧
      (Function.update s.inode (s.file f).inode
      { s.inode (s.file f).inode with denyWriteCnt := count } j).openCnt = (s.inode j).openCnt := by
    intro j
    by_cases same : j = (s.file f).inode
    · subst same
      simp
    · rw [other same]
      exact ⟨rfl, rfl⟩
  refine ⟨counted.nodup, counted.fresh, counted.filesNodup, counted.filesFresh, counted.refsOpen,
    ?_, ?_, ?_, ?_, ?_⟩
  · intro g inside
    have kept := updateInode s.file f deny g
    change (Function.update s.file f { s.file f with denyWrite := deny } g).inode ∈ s.openInodes
    rw [kept]
    exact counted.filesOpen g inside
  · intro j one k two same
    have same : (s.inode j).sector = (s.inode k).sector := by
      rw [← (fields j).1, ← (fields k).1]
      exact same
    exact counted.single j one k two same
  · intro j inside
    refine (fields j).2.trans ?_
    change _ = ((refs.count j + holders (Function.update s.file f
      { s.file f with denyWrite := deny }) files j : Nat) : Int)
    rw [holds]
    exact counted.opened j inside
  · intro j inside
    change 0 < refs.count j + holders (Function.update s.file f
      { s.file f with denyWrite := deny }) files j
    rw [holds]
    exact counted.held j inside
  · intro j inside
    change (Function.update s.inode (s.file f).inode
      { s.inode (s.file f).inode with denyWriteCnt := count } j).denyWriteCnt =
      deniers (Function.update s.file f { s.file f with denyWrite := deny }) files j
    by_cases same : j = (s.file f).inode
    · subst same
      rw [Function.update_self]
      exact agrees
    · rw [other same, elsewhere j same]
      exact counted.denied j inside

theorem denySpec (counted : Counted s refs files) (member : f ∈ files) :
    ∃ s', fileDenyWrite s f = .ok s' ∧ Counted s' refs files ∧
      (s'.file f).inode = (s.file f).inode := by
  by_cases flag : (s.file f).denyWrite = true
  · exact ⟨s, if_pos flag, counted, rfl⟩
  · have opened := counted.opened _ (counted.filesOpen f member)
    have denied := counted.denied _ (counted.filesOpen f member)
    have split := deniersSplit s.file member counted.filesNodup (s.file f).inode
    have holds := holdersSplit s.file member (s.file f).inode
    have fewer : deniers s.file (files.erase f) (s.file f).inode ≤
        holders s.file (files.erase f) (s.file f).inode := deniersLe
    have update := deniersUpdate s.file member counted.filesNodup true
    rw [if_neg fun both => flag both.2] at split
    rw [if_pos rfl] at holds
    refine ⟨_, (if_neg flag).trans (if_pos ?_), flagCounted counted true ?_ ?_, updateInode s.file f true f⟩
    · change (s.inode (s.file f).inode).denyWriteCnt + 1 ≤ (s.inode (s.file f).inode).openCnt
      omega
    · change (s.inode (s.file f).inode).denyWriteCnt + 1 = _
      rw [update, if_pos ⟨rfl, rfl⟩]
      omega
    · intro j other
      rw [update, if_neg fun both => other both.1.symm,
        deniersSplit s.file member counted.filesNodup, if_neg fun both => other both.1.symm]

theorem allowSpec (counted : Counted s refs files) (member : f ∈ files) :
    ∃ s', fileAllowWrite s f = .ok s' ∧ Counted s' refs files ∧
      (s'.file f).inode = (s.file f).inode ∧ (s'.file f).denyWrite = false := by
  by_cases flag : (s.file f).denyWrite = true
  swap
  · exact ⟨s, if_neg flag, counted, rfl, Bool.eq_false_iff.mpr flag⟩
  · have opened := counted.opened _ (counted.filesOpen f member)
    have denied := counted.denied _ (counted.filesOpen f member)
    have split := deniersSplit s.file member counted.filesNodup (s.file f).inode
    have fewer : deniers s.file files (s.file f).inode ≤
        holders s.file files (s.file f).inode := deniersLe
    have update := deniersUpdate s.file member counted.filesNodup false
    rw [if_pos ⟨rfl, flag⟩] at split
    refine ⟨_, (if_pos flag).trans (if_pos ?_), flagCounted counted false ?_ ?_, updateInode s.file f false f,
      ?_⟩
    · change 0 < (s.inode (s.file f).inode).denyWriteCnt ∧
        (s.inode (s.file f).inode).denyWriteCnt ≤ (s.inode (s.file f).inode).openCnt
      omega
    · change (s.inode (s.file f).inode).denyWriteCnt - 1 = _
      rw [update, if_neg (by simp)]
      omega
    · intro j other
      rw [update, if_neg (by simp), deniersSplit s.file member counted.filesNodup,
        if_neg fun both => other both.1.symm]
    · change (Function.update s.file f { s.file f with denyWrite := false } f).denyWrite = false
      rw [Function.update_self]

theorem fileCloseCounted (counted : Counted s refs files) (member : f ∈ files)
    (done : fileClose s f = .ok s') : Counted s' refs (files.erase f) := by
  obtain ⟨s₁, allowed, counted₁, same, allows⟩ := allowSpec counted member
  obtain ⟨s₂, again, closed⟩ := bindOk.mp done
  cases Except.ok.inj (allowed.symm.trans again)
  exact closeCounted (releaseCounted counted₁ member allows) closed

theorem fileOpenCounted {memory : Bool} {result : Option Nat} (counted : Counted s (i :: refs) files)
    (done : fileOpen s (some i) memory = .ok (result, s')) :
    Counted s' refs (result.toList ++ files) := by
  unfold fileOpen at done
  cases memory with
  | true =>
    cases done
    exact holdCounted counted
  | false =>
    obtain ⟨s₁, closed, done⟩ := bindOk.mp done
    cases done
    exact closeCounted counted closed

end Denials

end Pintos.Filesys
