import Mathlib.Data.List.Nodup
import Pintos.Memory.Directory

/-! A page directory is a partial map from user pages to frames, over every sequence of calls. -/
namespace Pintos.Memory
open Machine

section Boot
variable {c : Kernel} {mem : Word → Nat → Word} {granted : List Word} {s t k : State} {pt : Word}
  {page : Nat}

theorem mappedAddress (fits : page < 16384) :
    768 ≤ pdNo (BitVec.ofNat 32 (page * 4096) + physBase) := by
  apply pdNoPast
  have whole : (BitVec.ofNat 32 (page * 4096)).toNat = page * 4096 := by
    rw [BitVec.toNat_ofNat, Nat.mod_eq_of_lt (by omega)]
  unfold physBase
  bv_omega

structure Extends (dir : Word) (granted : List Word) (s t : State) : Prop where
  same : t.initPageDir = s.initPageDir
  user : ∀ i < 768, t.mem dir i = s.mem dir i
  tables : ∀ i, t.mem dir i = s.mem dir i ∨ ∃ pt ∈ granted, entryAt (t.mem dir i) = some pt

theorem mapPageExtends (fits : page < 16384) (other : pt ≠ s.initPageDir)
    (others : s.initPageDir ∉ granted) (pages : ∀ page ∈ granted, Ram c.initRamPages page)
    {rest : List Word} {pt' : Word} (done : mapPage c page s pt granted = .ok (t, pt', rest)) :
    Extends s.initPageDir granted s t ∧ pt' ≠ s.initPageDir ∧ rest ⊆ granted := by
  unfold mapPage at done
  obtain ⟨vaddr, at', done⟩ := bindOk.mp done
  obtain ⟨pte, -, done⟩ := bindOk.mp done
  have high : 768 ≤ pdNo vaddr := by
    unfold ptov at at'
    split at at'
    · rw [← Except.ok.inj at']
      exact mappedAddress fits
    · cases at'
  split at done
  · split at done
    · cases done
    · obtain ⟨pde, made, done⟩ := bindOk.mp done
      cases done
      have notNew : s.initPageDir ≠ pt' := List.ne_of_not_mem_cons others
      obtain ⟨e, made', points⟩ := pdeCreateOk (pages pt' List.mem_cons_self)
      cases made.symm.trans made'
      refine ⟨⟨rfl, fun i low => ?_, fun i => ?_⟩, notNew.symm, List.subset_cons_self ..⟩
      · rw [putOther notNew, putSelf, Function.update_of_ne (by omega), fillOther notNew]
      · rw [putOther notNew, putSelf, fillOther notNew]
        by_cases here : i = pdNo vaddr
        · rw [here, Function.update_self]
          exact .inr ⟨pt', List.mem_cons_self, points⟩
        · rw [Function.update_of_ne here]
          exact .inl rfl
  · cases done
    exact ⟨⟨rfl, fun i _ => by rw [putOther other.symm], fun i => .inl (by rw [putOther other.symm])⟩,
      other, fun _ among => among⟩

theorem mapPagesExtends {numbers : List Nat} (fits : ∀ page ∈ numbers, page < 16384)
    (other : pt ≠ s.initPageDir) (others : s.initPageDir ∉ granted)
    (pages : ∀ page ∈ granted, Ram c.initRamPages page)
    (done : mapPages c numbers s pt granted = .ok t) : Extends s.initPageDir granted s t := by
  induction numbers generalizing s pt granted with
  | nil =>
    cases done
    exact ⟨rfl, fun _ _ => rfl, fun _ => .inl rfl⟩
  | cons page numbers ih =>
    obtain ⟨⟨u, pt', rest⟩, first, done⟩ := bindOk.mp done
    obtain ⟨now, other', fewer⟩ :=
      mapPageExtends (fits page List.mem_cons_self) other others pages first
    have later := ih (fun page among => fits page (List.mem_cons_of_mem _ among))
      (now.same ▸ other') (fun among => others (fewer (now.same ▸ among)))
      (fun page among => pages page (fewer among)) done
    rw [now.same] at later
    refine ⟨later.same.trans now.same, fun i low => (later.user i low).trans (now.user i low),
      fun i => ?_⟩
    rcases later.tables i with still | ⟨table, among, points⟩
    · rw [still]
      exact now.tables i
    · exact .inr ⟨table, fewer among, points⟩

theorem bootedTables (distinct : granted.Nodup) (pages : ∀ page ∈ granted, Ram c.initRamPages page)
    (booted : pagingInit c mem granted = .ok k) :
    (∀ i < 768, k.mem k.initPageDir i = 0#32) ∧ ∀ page, Reserved k page → page ∈ granted := by
  cases granted with
  | nil => cases booted
  | cons pd granted =>
    have nonzero : (0#32 : Word) ≠ pd := by
      have kernel := (pages pd List.mem_cons_self).kernel
      rintro rfl
      revert kernel
      decide
    have made := mapPagesExtends (fun page among => Nat.lt_of_lt_of_le (List.mem_range.mp among)
      c.capped) nonzero (List.nodup_cons.mp distinct).1
      (fun page among => pages page (List.mem_cons_of_mem _ among)) booted
    have home : k.initPageDir = pd := made.same
    have zero (i : Nat) : (State.fill ⟨mem, pd, []⟩ pd 0#32).mem pd i = 0#32 := by simp [State.fill]
    simp only [Reserved, home]
    refine ⟨fun i low => (made.user i low).trans (zero i), ?_⟩
    rintro page (rfl | ⟨i, held⟩)
    · exact List.mem_cons_self
    · rcases made.tables i with still | ⟨table, among, points⟩
      · have empty : k.mem pd i = 0#32 := still.trans (zero i)
        rw [tableAt, empty, entryZero] at held
        cases held
      · cases Option.some.inj (points.symm.trans held)
        exact List.mem_cons_of_mem _ among

end Boot

section Destroy
variable {ram : Nat} {k s : State} {pd pt : Word}
  {page : Word}

def framesIn (s : State) (pt : Word) (js : List Nat) : List Word :=
  js.filterMap fun j => entryAt (s.mem pt j)

def pagesAt (s : State) (pd : Word) (i : Nat) : List Word :=
  match tableAt s pd i with
  | none => []
  | some pt => framesIn s pt (List.range 1024) ++ [pt]

structure Frees (s t : State) (pages : List Word) : Prop where
  freed : t.freed = pages.reverse ++ s.freed
  kept : ∀ page, page ∉ pages → t.mem page = s.mem page
  same : t.initPageDir = s.initPageDir

theorem freesNone (s : State) : Frees s s [] := ⟨rfl, fun _ _ => rfl, rfl⟩

theorem freesThen {t u : State} {before after : List Word} (first : Frees s t before)
    (second : Frees t u after) : Frees s u (before ++ after) := by
  refine ⟨?_, fun page out => ?_, second.same.trans first.same⟩
  · rw [second.freed, first.freed, List.reverse_append, List.append_assoc]
  · simp only [List.mem_append, not_or] at out
    rw [second.kept page out.2, first.kept page out.1]

theorem freePage (whole : pgOfs page = 0#32) (fresh : page ∉ s.freed) :
    ∃ t, pallocFreePage s page = .ok t ∧ Frees s t [page] := by
  refine ⟨_, if_neg (by simp [whole, fresh]), rfl, fun other out => ?_, rfl⟩
  exact fillOther (by simpa using out) _

theorem freeFramesSpec (js : List Nat)
    (entries : ∀ j ∈ js, ∀ f, entryAt (s.mem pt j) = some f → pgOfs f = 0#32 ∧ physBase ≤ f ∧ f ≠ pt)
    (nodup : (framesIn s pt js).Nodup) (fresh : ∀ f ∈ framesIn s pt js, f ∉ s.freed) :
    ∃ t, freeFrames pt js s = .ok t ∧ Frees s t (framesIn s pt js) := by
  induction js generalizing s with
  | nil => exact ⟨s, rfl, freesNone s⟩
  | cons j js ih =>
    have later {f : Word} (j' : Nat) (among : j' ∈ js) := entries j' (List.mem_cons_of_mem _ among) f
    unfold freeFrames
    cases here : entryAt (s.mem pt j) with
    | none =>
      have all : framesIn s pt (j :: js) = framesIn s pt js := List.filterMap_cons_none here
      rw [all] at nodup fresh ⊢
      rw [if_neg (not_not.mpr (entryNone.mp here))]
      exact ih (fun j' among f => later j' among) nodup fresh
    | some f =>
      have all : framesIn s pt (j :: js) = f :: framesIn s pt js := List.filterMap_cons_some here
      rw [all] at nodup fresh ⊢
      obtain ⟨whole, kernel, other⟩ := entries j List.mem_cons_self f here
      obtain ⟨t, freed, frees⟩ := freePage whole (fresh f List.mem_cons_self)
      have table : t.mem pt = s.mem pt := frees.kept pt (by simpa using other.symm)
      have still : framesIn t pt js = framesIn s pt js := by rw [framesIn, framesIn, table]
      obtain ⟨u, done, freesRest⟩ := ih (s := t) (by rw [table]; exact fun j' among f => later j' among)
        (by rw [still]; exact (List.nodup_cons.mp nodup).2) (by
          rw [still, frees.freed]
          intro g among
          simp only [List.reverse_singleton, List.singleton_append, List.mem_cons, not_or]
          exact ⟨fun same => (List.nodup_cons.mp nodup).1 (same ▸ among),
            fresh g (List.mem_cons_of_mem _ among)⟩)
      refine ⟨u, ?_, still ▸ freesThen frees freesRest⟩
      rw [if_pos (entrySome.mp here).1]
      exact bindOk.mpr ⟨f, pteGetPageOk here kernel, bindOk.mpr ⟨t, freed, done⟩⟩

theorem freeTablesSpec (is : List Nat)
    (entries : ∀ i ∈ is, ∀ pt, tableAt s pd i = some pt → pgOfs pt = 0#32 ∧ physBase ≤ pt ∧
      ∀ j < 1024, ∀ f, entryAt (s.mem pt j) = some f → pgOfs f = 0#32 ∧ physBase ≤ f)
    (nodup : (is.flatMap (pagesAt s pd)).Nodup) (kept : pd ∉ is.flatMap (pagesAt s pd))
    (fresh : ∀ page ∈ is.flatMap (pagesAt s pd), page ∉ s.freed) :
    ∃ t, freeTables pd is s = .ok t ∧ Frees s t (is.flatMap (pagesAt s pd)) := by
  induction is generalizing s with
  | nil => exact ⟨s, rfl, freesNone s⟩
  | cons i is ih =>
    rw [List.flatMap_cons] at nodup kept fresh ⊢
    obtain ⟨nodupHere, nodupLater, apart⟩ := List.nodup_append.mp nodup
    unfold freeTables
    cases here : tableAt s pd i with
    | none =>
      have none : pagesAt s pd i = [] := by rw [pagesAt, here]
      rw [none, List.nil_append] at nodup kept fresh ⊢
      rw [if_neg (not_not.mpr (entryNone.mp here))]
      exact ih (fun i' among => entries i' (List.mem_cons_of_mem _ among)) nodup kept fresh
    | some pt =>
      have all : pagesAt s pd i = framesIn s pt (List.range 1024) ++ [pt] := by rw [pagesAt, here]
      rw [all] at nodupHere kept fresh apart ⊢
      obtain ⟨whole, kernel, frames⟩ := entries i List.mem_cons_self pt here
      have notFrame : pt ∉ framesIn s pt (List.range 1024) := fun among =>
        (List.nodup_append.mp nodupHere).2.2 pt among pt List.mem_cons_self rfl
      obtain ⟨t, freed, frees⟩ := freeFramesSpec (List.range 1024) (fun j among f points => by
          obtain ⟨wholeF, kernelF⟩ := frames j (List.mem_range.mp among) f points
          have held : f ∈ framesIn s pt (List.range 1024) :=
            List.mem_filterMap.mpr ⟨j, among, points⟩
          exact ⟨wholeF, kernelF, fun same => notFrame (by rwa [same] at held)⟩)
        (List.nodup_append.mp nodupHere).1
        (fun f among => fresh f (by simp [among]))
      obtain ⟨u, freed', frees'⟩ := freePage (s := t) whole (by
        rw [frees.freed]
        simp only [List.mem_append, List.mem_reverse, not_or]
        exact ⟨notFrame, fresh pt (by simp)⟩)
      have both := freesThen frees frees'
      have dir : u.mem pd = s.mem pd := both.kept pd fun among => kept (List.mem_append_left _ among)
      have tables (i' : Nat) : tableAt u pd i' = tableAt s pd i' := by rw [tableAt, tableAt, dir]
      -- A table that is still to come is none of the pages freed so far.
      have others {i' : Nat} (among : i' ∈ is) {pt' : Word} (held : tableAt s pd i' = some pt') :
          u.mem pt' = s.mem pt' := by
        refine both.kept pt' fun freed => ?_
        refine apart pt' freed pt' (List.mem_flatMap.mpr ⟨i', among, ?_⟩) rfl
        rw [pagesAt, held]
        exact List.mem_append_right _ List.mem_cons_self
      have pages : is.flatMap (pagesAt u pd) = is.flatMap (pagesAt s pd) := by
        refine List.flatMap_congr fun i' among => ?_
        rw [pagesAt, pagesAt, tables]
        cases held : tableAt s pd i' with
        | none => rfl
        | some pt' => simp only [framesIn, others among held]
      obtain ⟨v, done, freesRest⟩ := ih (s := u) (fun i' among pt' held => by
          rw [tables] at held
          rw [others among held]
          exact entries i' (List.mem_cons_of_mem _ among) pt' held)
        (by rw [pages]; exact nodupLater)
        (by rw [pages]; exact fun among => kept (List.mem_append_right _ among))
        (by
          rw [pages, both.freed]
          intro page among
          rw [List.mem_append, List.mem_reverse, not_or]
          exact ⟨fun before => apart page before page among rfl,
            fresh page (List.mem_append_right _ among)⟩)
      refine ⟨v, ?_, pages ▸ freesThen both freesRest⟩
      rw [if_pos (entrySome.mp here).1]
      exact bindOk.mpr ⟨pt, pdeGetPtOk here kernel, bindOk.mpr ⟨t, freed, bindOk.mpr ⟨u, freed', done⟩⟩⟩

theorem memPagesAt {i : Nat} : page ∈ pagesAt s pd i ↔
    (∃ j < 1024, frameAt s pd i j = some page) ∨ tableAt s pd i = some page := by
  unfold pagesAt
  cases held : tableAt s pd i with
  | none => simp [frameMissing held]
  | some pt => simp [frameHeld held, framesIn, eq_comm]

theorem pagesNodup (sound : Sound ram k s pd) : ((List.range 768).flatMap (pagesAt s pd)).Nodup := by
  rw [List.nodup_flatMap]
  constructor
  · intro i among
    have low := List.mem_range.mp among
    unfold pagesAt
    cases held : tableAt s pd i with
    | none => exact List.nodup_nil
    | some pt =>
      simp only
      rw [List.nodup_append]
      refine ⟨List.Nodup.filterMap ?_ List.nodup_range, List.nodup_singleton pt, ?_⟩
      · intro j j' f first second
        rw [Option.mem_def, ← frameHeld held] at first second
        exact (sound.framesApart i low j i low j' f first second).2
      · intro f frame g last
        obtain ⟨j, -, points⟩ := List.mem_filterMap.mp frame
        rw [← frameHeld held] at points
        rw [List.mem_singleton.mp last]
        exact fun same => (sound.frames i low j f points).2.2 i low (same ▸ held)
  · refine List.Pairwise.imp_of_mem ?_ List.nodup_range
    intro i i' first second apart page here there
    have low := List.mem_range.mp first
    have low' := List.mem_range.mp second
    rcases memPagesAt.mp here with ⟨j, -, frame⟩ | table <;>
      rcases memPagesAt.mp there with ⟨j', -, frame'⟩ | table'
    · exact apart (sound.framesApart i low j i' low' j' page frame frame').1
    · exact (sound.frames i low j page frame).2.2 i' low' table'
    · exact (sound.frames i' low' j' page frame').2.2 i low table
    · exact apart (sound.tablesApart i low i' low' page table table')

theorem unlogged (sound : Sound ram k s pd) : Sound ram k { s with freed := [] } pd :=
  ⟨sound.same, sound.kept, sound.home, sound.apart, sound.shared, sound.tight, sound.tables,
    sound.tablesApart, sound.frames, sound.framesApart⟩

theorem destroySpec (sound : Sound ram k s pd) :
    ∃ t, pagedirDestroy s pd = .ok t ∧ t.freed.Nodup ∧ ∀ page, page ∈ t.freed ↔
      page = pd ∨ (∃ i < 768, tableAt s pd i = some page) ∨
        ∃ i < 768, ∃ j < 1024, frameAt s pd i j = some page := by
  have nonzero : pd ≠ 0#32 := by
    have kernel := sound.home.kernel
    rintro rfl
    revert kernel
    decide
  have other : pd ≠ s.initPageDir := fun here => sound.apart (.inl (here.trans sound.same))
  have notDir : pd ∉ (List.range 768).flatMap (pagesAt s pd) := by
    intro among
    obtain ⟨i, low, held⟩ := List.mem_flatMap.mp among
    rw [List.mem_range] at low
    rcases memPagesAt.mp held with ⟨j, -, frame⟩ | table
    · exact (sound.frames i low j pd frame).2.1 rfl
    · exact (sound.tables i low pd table).2.1 rfl
  obtain ⟨t, done, frees⟩ := freeTablesSpec (s := { s with freed := [] })
    (List.range 768) (fun i among pt held => by
      have low := List.mem_range.mp among
      have table := (sound.tables i low pt held).1
      refine ⟨table.whole, table.kernel, fun j _ f points => ?_⟩
      have frame := (sound.frames i low j f ((frameHeld held).trans points)).1
      exact ⟨frame.whole, frame.kernel⟩)
    (pagesNodup (unlogged sound)) notDir (fun _ _ => List.not_mem_nil)
  have log : t.freed = ((List.range 768).flatMap (pagesAt s pd)).reverse :=
    frees.freed.trans (List.append_nil _)
  have gone : pd ∉ t.freed := by
    rw [log, List.mem_reverse]
    exact notDir
  obtain ⟨u, freed, frees'⟩ := freePage sound.home.whole gone
  have logged : u.freed = pd :: t.freed := frees'.freed
  refine ⟨u, ?_, ?_, fun page => ?_⟩
  · unfold pagedirDestroy
    rw [if_neg nonzero, if_neg other]
    exact bindOk.mpr ⟨t, done, freed⟩
  · rw [logged, List.nodup_cons, log, List.nodup_reverse]
    exact ⟨log ▸ gone, pagesNodup sound⟩
  · rw [logged, List.mem_cons, log, List.mem_reverse, List.mem_flatMap]
    simp only [List.mem_range, memPagesAt, and_or_left, exists_or]
    exact or_congr_right or_comm

end Destroy

section Calls
variable {c : Kernel} {k s t : State} {pd va : Word}
  {history : List (Op × Bool)} {entry : Op × Bool}

inductive Op where
  | setPage (upage kpage : Word) (writable : Bool) (granted : Option Word)
  | clearPage (upage : Word)
  | setDirty (vpage : Word) (dirty : Bool)
  | setAccessed (vpage : Word) (accessed : Bool)
  | write (page : Word) (i : Nat) (w : Word)

def perform (c : Kernel) (s : State) (pd : Word) : Op → Except Fault (Bool × State)
  | .setPage upage kpage writable granted => pagedirSetPage c s pd upage kpage writable granted
  | .clearPage upage => do .ok (true, ← pagedirClearPage s pd upage)
  | .setDirty vpage dirty => do .ok (true, ← pagedirSetDirty s pd vpage dirty)
  | .setAccessed vpage accessed => do .ok (true, ← pagedirSetAccessed s pd vpage accessed)
  | .write page i w => .ok (true, s.put page i w)

/-- A page is set only where none is mapped. Frames and the pages that `palloc_get_page` hands out
are pages of memory in no other use; other code keeps off the page tables. -/
def Allowed (c : Kernel) (k s : State) (pd : Word) : Op → Prop
  | .setPage upage kpage _ granted =>
    (pgOfs upage = 0#32 ∧ upage < physBase ∧ pagedirGetPage s pd upage = .ok none) ∧
    Free c.initRamPages k s pd kpage ∧
    ∀ pt, granted = some pt → Free c.initRamPages k s pd pt ∧ pt ≠ kpage
  | .clearPage upage => pgOfs upage = 0#32 ∧ upage < physBase
  | .setDirty vpage _ => vpage < physBase
  | .setAccessed vpage _ => vpage < physBase
  | .write page _ _ => ¬Reserved k page ∧ page ≠ pd ∧ ∀ i < 768, tableAt s pd i ≠ some page

/-- There is no page table for the page, and none to be had. -/
def Refused (s : State) (pd : Word) : Op → Prop
  | .setPage upage _ _ granted => tableAt s pd (pdNo upage) = none ∧ granted = none
  | _ => False

inductive Calls (c : Kernel) (k : State) (pd : Word) : List (Op × Bool) → State → Prop where
  | created : Calls c k pd [] (pagedirCreate k (some pd)).2
  | called {history : List (Op × Bool)} {s t : State} {op : Op} {result : Bool}
      (before : Calls c k pd history s) (allowed : Allowed c k s pd op)
      (done : perform c s pd op = .ok (result, t)) : Calls c k pd ((op, result) :: history) t

def lastFrame : List (Op × Bool) → Word → Option Word
  | [], _ => none
  | (.setPage upage kpage _ _, true) :: before, page =>
    if page = upage then some kpage else lastFrame before page
  | (.clearPage upage, _) :: before, page => if page = upage then none else lastFrame before page
  | _ :: before, page => lastFrame before page

structure Refines (c : Kernel) (k s : State) (pd : Word) (history : List (Op × Bool)) : Prop where
  sound : Sound c.initRamPages k s pd
  frames : ∀ va, va < physBase →
    frameAt s pd (pdNo va) (ptNo va) = lastFrame history (pgRoundDown va)

theorem createSound {ram : Nat} (empty : ∀ i < 768, k.mem k.initPageDir i = 0#32) (home : Ram ram pd)
    (apart : ¬Reserved k pd) :
    Sound ram k (pagedirCreate k (some pd)).2 pd ∧
      ∀ i < 768, tableAt (pagedirCreate k (some pd)).2 pd i = none := by
  have dir : (pagedirCreate k (some pd)).2.mem pd = k.mem k.initPageDir := Function.update_self ..
  have none (i : Nat) (low : i < 768) : tableAt (pagedirCreate k (some pd)).2 pd i = none := by
    rw [tableAt, dir, empty i low, entryZero]
  have frames (i : Nat) (low : i < 768) (j : Nat) :
      frameAt (pagedirCreate k (some pd)).2 pd i j = Option.none := frameMissing (none i low)
  refine ⟨⟨rfl, ?_, home, apart, fun i _ => congrFun dir i, ?_, ?_, ?_, ?_, ?_⟩, none⟩
  · intro page reserved
    have other : page ≠ pd := fun here => apart (here ▸ reserved)
    exact Function.update_of_ne other ..
  · intro i low _
    rw [dir, empty i low]
  · intro i low pt held
    rw [none i low] at held
    cases held
  · intro i low _ _ pt held
    rw [none i low] at held
    cases held
  · intro i low j f held
    rw [frames i low] at held
    cases held
  · intro i low j _ _ _ f held
    rw [frames i low] at held
    cases held

theorem movesLast {upage : Word} {now : Option Word} (refines : Refines c k s pd history)
    (moves : Moves c.initRamPages k s t pd upage now)
    (tells : ∀ page, pgOfs page = 0#32 → page < physBase → lastFrame (entry :: history) page =
      if pdNo page = pdNo upage ∧ ptNo page = ptNo upage then now else lastFrame history page) :
    Refines c k t pd (entry :: history) := by
  refine ⟨moves.sound, fun va user => ?_⟩
  obtain ⟨table, index⟩ := (sameEntry (roundDownAligned va)).mpr (rfl : _ = pgRoundDown va)
  rw [moves.frames _ (pdNoLt user), tells _ (roundDownAligned va) (roundDownUser user), table, index,
    refines.frames va user]

theorem movesSame {vpage : Word} (refines : Refines c k s pd history) (user : vpage < physBase)
    (moves : Moves c.initRamPages k s t pd vpage (frameAt s pd (pdNo vpage) (ptNo vpage)))
    (tells : ∀ page, lastFrame (entry :: history) page = lastFrame history page) :
    Refines c k t pd (entry :: history) := by
  refine movesLast refines moves fun page whole below => ?_
  rw [tells]
  split
  · rename_i same
    rw [(sameEntry whole).mp same, refines.frames vpage user]
  · rfl

theorem whenSame {α : Type} {upage page : Word} (whole : pgOfs upage = 0#32)
    (wholePage : pgOfs page = 0#32) (now before : α) :
    (if page = upage then now else before) =
      if pdNo page = pdNo upage ∧ ptNo page = ptNo upage then now else before := by
  have same : page = upage ↔ pdNo page = pdNo upage ∧ ptNo page = ptNo upage := by
    rw [sameEntry wholePage, ← roundAligned whole]
  simp only [same]

theorem performSpec {op : Op} (refines : Refines c k s pd history)
    (allowed : Allowed c k s pd op) :
    ∃ result t, perform c s pd op = .ok (result, t) ∧
      (result = false → Refused s pd op ∧ t = s) ∧ Refines c k t pd ((op, result) :: history) := by
  have sound := refines.sound
  cases op with
  | setPage upage kpage writable granted =>
    obtain ⟨⟨whole, user, unmapped⟩, free, fresh⟩ := allowed
    rw [getPageSpec sound user] at unmapped
    have unmapped := Option.map_eq_none_iff.mp (Except.ok.inj unmapped)
    rcases setPageSpec sound whole user unmapped free fresh writable with
      ⟨refused, failed⟩ | ⟨t, done, moves⟩
    · refine ⟨false, s, failed, fun _ => ⟨refused, rfl⟩, ?_⟩
      exact movesSame refines user (movesNothing sound upage) fun _ => rfl
    · refine ⟨true, t, done, fun never => absurd never (by decide), movesLast refines moves ?_⟩
      intro page wholePage _
      rw [lastFrame, whenSame whole wholePage]
  | clearPage upage =>
    obtain ⟨whole, user⟩ := allowed
    obtain ⟨t, done, moves⟩ := clearPageSpec sound whole user
    refine ⟨true, t, bindOk.mpr ⟨t, done, rfl⟩, fun never => absurd never (by decide), movesLast refines moves ?_⟩
    intro page wholePage _
    rw [lastFrame, whenSame whole wholePage]
  | setDirty vpage dirty =>
    obtain ⟨t, done, moves⟩ := setFlagSpec pteD (by decide) (by decide) sound allowed dirty
    exact ⟨true, t, bindOk.mpr ⟨t, done, rfl⟩, fun never => absurd never (by decide),
      movesSame refines allowed moves fun _ => rfl⟩
  | setAccessed vpage accessed =>
    obtain ⟨t, done, moves⟩ := setFlagSpec pteA (by decide) (by decide) sound allowed accessed
    exact ⟨true, t, bindOk.mpr ⟨t, done, rfl⟩, fun never => absurd never (by decide),
      movesSame refines allowed moves fun _ => rfl⟩
  | write page i w =>
    obtain ⟨unreserved, notDir, notTable⟩ := allowed
    have user : (0#32 : Word) < physBase := by decide
    exact ⟨true, _, rfl, fun never => absurd never (by decide), movesSame refines user
      (writeSpec sound unreserved notDir notTable w) fun _ => rfl⟩

theorem callsRefine (empty : ∀ i < 768, k.mem k.initPageDir i = 0#32)
    (home : Ram c.initRamPages pd) (apart : ¬Reserved k pd) (calls : Calls c k pd history s) :
    Refines c k s pd history := by
  induction calls with
  | created =>
    obtain ⟨sound, none⟩ := createSound empty home apart
    exact ⟨sound, fun va user => frameMissing (none _ (pdNoLt user))⟩
  | called before allowed done ih =>
    obtain ⟨result, t, done', -, refines⟩ := performSpec ih allowed
    cases done.symm.trans done'
    exact refines

end Calls

section Kernel
variable {ram : Nat} {k s : State} {pd va : Word}

def pteOf (s : State) (pd va : Word) : Except Fault (Option Word) := do
  let (pte, s) ← lookupPage s pd va false none
  .ok (pte.map fun at' => s.mem at'.1 at'.2)

theorem pteOfRead (s : State) (pd va : Word) :
    pteOf s pd va = if s.mem pd (pdNo va) = 0#32 then .ok none
      else (pdeGetPt (s.mem pd (pdNo va))).map fun pt => some (s.mem pt (ptNo va)) := by
  unfold pteOf lookupPage
  rw [if_neg (fun both => Bool.false_ne_true both.1)]
  split
  · rfl
  · cases pdeGetPt (s.mem pd (pdNo va)) <;> rfl

theorem kernelEntries (sound : Sound ram k s pd) (kernel : physBase ≤ va) :
    pteOf s pd va = pteOf k k.initPageDir va := by
  rw [pteOfRead, pteOfRead, sound.shared (pdNo va) (pdNoPast kernel)]
  split
  · rfl
  · cases held : pdeGetPt (k.mem k.initPageDir (pdNo va)) with
    | error fault => rfl
    | ok pt =>
      have reserved : Reserved k pt := by
        refine .inr ⟨pdNo va, ?_⟩
        unfold pdeGetPt at held
        split at held
        · cases held
        · rename_i present
          unfold ptov at held
          split at held
          · rw [tableAt, entryAt, if_neg present, Except.ok.inj held]
          · cases held
      simp only [Except.map, sound.kept pt reserved]

structure Keeps (b k : State) : Prop where
  same : k.initPageDir = b.initPageDir
  kept : ∀ page, Reserved b page → k.mem page = b.mem page

theorem pagedirRefines {c : Kernel} {mem : Word → Nat → Word} {granted : List Word} {b k s : State}
    {pd : Word} {history : List (Op × Bool)} (distinct : granted.Nodup)
    (pages : ∀ page ∈ granted, Ram c.initRamPages page)
    (booted : pagingInit c mem granted = .ok b) (since : Keeps b k) (home : Ram c.initRamPages pd)
    (apart : ¬Reserved k pd) (calls : Calls c k pd history s) :
    (∀ va, va < physBase → pagedirGetPage s pd va =
      .ok ((lastFrame history (pgRoundDown va)).map fun kpage => kpage + pgOfs va)) ∧
    (∀ va, physBase ≤ va → pteOf s pd va = pteOf k k.initPageDir va) ∧
    (∀ op, Allowed c k s pd op →
      ∃ result t, perform c s pd op = .ok (result, t) ∧
        (result = false → Refused s pd op ∧ t = s)) ∧
    ∃ t, pagedirDestroy s pd = .ok t ∧ t.freed.Nodup ∧ ∀ page, page ∈ t.freed ↔
      page = pd ∨ (∃ i < 768, tableAt s pd i = some page) ∨
        ∃ upage, pgOfs upage = 0#32 ∧ upage < physBase ∧ lastFrame history upage = some page := by
  have empty (i : Nat) (low : i < 768) : k.mem k.initPageDir i = 0#32 := by
    rw [since.same, since.kept _ (.inl rfl)]
    exact (bootedTables distinct pages booted).1 i low
  have refines := callsRefine empty home apart calls
  refine ⟨fun va user => ?_, fun va kernel => kernelEntries refines.sound kernel,
    fun op allowed => ?_, ?_⟩
  · rw [getPageSpec refines.sound user, refines.frames va user]
  · obtain ⟨result, t, done, failed, -⟩ := performSpec refines allowed
    exact ⟨result, t, done, failed⟩
  · obtain ⟨t, done, once, exactly⟩ := destroySpec refines.sound
    refine ⟨t, done, once, fun page => ?_⟩
    rw [exactly]
    refine or_congr_right (or_congr_right ⟨?_, ?_⟩)
    · rintro ⟨i, low, j, high, held⟩
      obtain ⟨upage, whole, user, rfl, rfl⟩ := pageOfEntry low high
      have round := roundAligned whole
      refine ⟨upage, whole, user, ?_⟩
      rw [← held, refines.frames upage user, ← round]
    · rintro ⟨upage, whole, user, held⟩
      have round := roundAligned whole
      refine ⟨pdNo upage, pdNoLt user, ptNo upage, ptNoLt upage, ?_⟩
      rw [refines.frames upage user, ← round, held]

def smallKernel : Kernel := ⟨6, 0xc0000000#32, 0xc0001000#32, by decide⟩

def oneCall : Op := .setPage 0x8048000#32 0xc0005000#32 true (some 0xc0004000#32)

theorem pagedirRefinesExample :
    ∃ b t, Calls smallKernel b 0xc0003000#32 [(oneCall, true)] t ∧
      pagedirGetPage t 0xc0003000#32 0x8048123#32 = .ok (some 0xc0005123#32) := by
  have distinct : [0xc0001000#32, 0xc0002000#32].Nodup := by decide
  have pages : ∀ page ∈ [0xc0001000#32, 0xc0002000#32], Ram smallKernel.initRamPages page := by
    intro page among
    rcases List.mem_pair.mp among with rfl | rfl
    all_goals exact ⟨by decide, by decide, by decide⟩
  have home : Ram smallKernel.initRamPages 0xc0003000#32 := ⟨by decide, by decide, by decide⟩
  have boots : passes (pagingInit smallKernel (fun _ _ => 0#32) [0xc0001000#32, 0xc0002000#32])
      (fun _ => true) = true := by decide +kernel
  obtain ⟨b, booted, -⟩ := passesOk boots
  obtain ⟨empty, granted⟩ := bootedTables distinct pages booted
  have apart : ¬Reserved b 0xc0003000#32 := fun reserved => by
    have among := granted _ reserved
    revert among
    decide
  have start := callsRefine empty home apart .created
  obtain ⟨sound, none⟩ := createSound empty home apart
  have unused {page : Word} (inRam : Ram smallKernel.initRamPages page)
      (other : page ∉ [0xc0001000#32, 0xc0002000#32]) (notDir : page ≠ 0xc0003000#32) :
      Free smallKernel.initRamPages b (pagedirCreate b (some 0xc0003000#32)).2 0xc0003000#32 page := by
    refine ⟨inRam, fun reserved => other (granted page reserved), notDir, ?_, ?_⟩
    · intro i low held
      rw [none i low] at held
      cases held
    · intro i low j held
      rw [frameMissing (none i low)] at held
      cases held
  have allowed : Allowed smallKernel b (pagedirCreate b (some 0xc0003000#32)).2 0xc0003000#32 oneCall := by
    refine ⟨⟨by decide, by decide, ?_⟩, unused ⟨by decide, by decide, by decide⟩ (by decide) (by decide), ?_⟩
    · rw [getPageSpec sound (by decide), frameMissing (none _ (by decide))]
      rfl
    · intro pt given
      cases given
      exact ⟨unused ⟨by decide, by decide, by decide⟩ (by decide) (by decide), by decide⟩
  obtain ⟨result, t, done, failed, -⟩ := performSpec start allowed
  cases result with
  | false => cases (failed rfl).1.2
  | true =>
    have calls := Calls.called .created allowed done
    exact ⟨b, t, calls, (pagedirRefines distinct pages booted ⟨rfl, fun _ _ => rfl⟩ home apart
      calls).1 0x8048123#32 (by decide)⟩

end Kernel

end Pintos.Memory
