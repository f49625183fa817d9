import Pintos.Lib.Machine
import Pintos.Memory.Entries

/-! What a page directory holds, and how the calls on it change that. -/
namespace Pintos.Memory
open Machine
open Function (update update_of_ne update_self)

variable {c : Kernel} {ram : Nat} {k s : State} {pd page pt f e : Word} {i j : Nat}

def tableAt (s : State) (pd : Word) (i : Nat) : Option Word := entryAt (s.mem pd i)

def frameAt (s : State) (pd : Word) (i j : Nat) : Option Word :=
  (tableAt s pd i).bind fun pt => entryAt (s.mem pt j)

section Writes

@[simp] theorem putSelf (s : State) (page : Word) (i : Nat) (w : Word) :
    (s.put page i w).mem page = update (s.mem page) i w := update_self ..

theorem putOther {other : Word} (apart : other ≠ page) (i : Nat) (w : Word) :
    (s.put page i w).mem other = s.mem other := update_of_ne apart ..

theorem fillOther {other : Word} (apart : other ≠ page) (w : Word) :
    (s.fill page w).mem other = s.mem other := update_of_ne apart ..

end Writes

def Reserved (k : State) (page : Word) : Prop :=
  page = k.initPageDir ∨ ∃ i, tableAt k k.initPageDir i = some page

structure Sound (ram : Nat) (k s : State) (pd : Word) : Prop where
  same : s.initPageDir = k.initPageDir
  kept : ∀ page, Reserved k page → s.mem page = k.mem page
  home : Ram ram pd
  apart : ¬Reserved k pd
  shared : ∀ i, 768 ≤ i → s.mem pd i = k.mem k.initPageDir i
  tight : ∀ i < 768, tableAt s pd i = none → s.mem pd i = 0#32
  tables : ∀ i < 768, ∀ pt, tableAt s pd i = some pt → Ram ram pt ∧ pt ≠ pd ∧ ¬Reserved k pt
  tablesApart : ∀ i < 768, ∀ i' < 768, ∀ pt,
    tableAt s pd i = some pt → tableAt s pd i' = some pt → i = i'
  frames : ∀ i < 768, ∀ j f, frameAt s pd i j = some f →
    Ram ram f ∧ f ≠ pd ∧ ∀ i' < 768, tableAt s pd i' ≠ some f
  framesApart : ∀ i < 768, ∀ j, ∀ i' < 768, ∀ j' f,
    frameAt s pd i j = some f → frameAt s pd i' j' = some f → i = i' ∧ j = j'

structure Free (ram : Nat) (k s : State) (pd page : Word) : Prop where
  inRam : Ram ram page
  unreserved : ¬Reserved k page
  notDir : page ≠ pd
  notTable : ∀ i < 768, tableAt s pd i ≠ some page
  notFrame : ∀ i < 768, ∀ j, frameAt s pd i j ≠ some page

section Entry
variable (sound : Sound ram k s pd) (table : i < 768) (at' : tableAt s pd i = some pt)
include sound table at'

theorem entryTables (e : Word) (i' : Nat) : tableAt (s.put pt j e) pd i' = tableAt s pd i' := by
  rw [tableAt, tableAt, putOther (sound.tables i table pt at').2.1.symm]

theorem entryFrames (e : Word) {i' : Nat} (within : i' < 768) (j' : Nat) :
    frameAt (s.put pt j e) pd i' j' =
      if i' = i ∧ j' = j then entryAt e else frameAt s pd i' j' := by
  rw [frameAt, frameAt, entryTables sound table at']
  cases held : tableAt s pd i' with
  | none =>
    have other : ¬(i' = i ∧ j' = j) := by
      rintro ⟨rfl, -⟩
      rw [held] at at'
      cases at'
    rw [if_neg other, Option.bind_none, Option.bind_none]
  | some pt' =>
    simp only [Option.bind_some]
    by_cases here : pt' = pt
    · subst here
      obtain rfl := sound.tablesApart i' within i table pt' held at'
      rw [putSelf]
      by_cases index : j' = j
      · rw [index, update_self, if_pos ⟨rfl, rfl⟩]
      · rw [update_of_ne index, if_neg (fun both => index both.2)]
    · have other : ¬(i' = i ∧ j' = j) := by
        rintro ⟨rfl, -⟩
        rw [held] at at'
        exact here (Option.some.inj at')
      rw [putOther here, if_neg other]

theorem entrySound
    (points : ∀ f, entryAt e = some f → Free ram k s pd f ∨ frameAt s pd i j = some f) :
    Sound ram k (s.put pt j e) pd := by
  have own := sound.tables i table pt at'
  have tables := entryTables (j := j) sound table at' e
  have frames {i' : Nat} (within : i' < 768) := entryFrames (j := j) sound table at' e within
  have dir : (s.put pt j e).mem pd = s.mem pd := putOther own.2.1.symm ..
  refine ⟨sound.same, ?_, sound.home, sound.apart, ?_, ?_, ?_, ?_, ?_, ?_⟩
  · intro page reserved
    have other : page ≠ pt := fun here => own.2.2 (here ▸ reserved)
    rw [putOther other, sound.kept page reserved]
  · rw [dir]
    exact sound.shared
  · rw [dir]
    simpa only [tables] using sound.tight
  · simpa only [tables] using sound.tables
  · simpa only [tables] using sound.tablesApart
  · intro i' low j' f held
    rw [frames low] at held
    simp only [tables]
    split at held
    · rcases points f held with free | before
      · exact ⟨free.inRam, free.notDir, free.notTable⟩
      · exact sound.frames i table j f before
    · exact sound.frames i' low j' f held
  · intro i₁ low₁ j₁ i₂ low₂ j₂ f first second
    rw [frames low₁] at first
    rw [frames low₂] at second
    have still {i' j' : Nat} (low : i' < 768) (here : entryAt e = some f)
        (held : frameAt s pd i' j' = some f) : i' = i ∧ j' = j := by
      rcases points f here with free | before
      · exact absurd held (free.notFrame i' low j')
      · exact sound.framesApart i' low j' i table j f held before
    split at first <;> split at second
    · rename_i one two
      exact ⟨one.1.trans two.1.symm, one.2.trans two.2.symm⟩
    · rename_i one two
      exact absurd (still low₂ first second) two
    · rename_i one two
      exact absurd (still low₁ second first) one
    · exact sound.framesApart i₁ low₁ j₁ i₂ low₂ j₂ f first second

end Entry

section Table
variable (sound : Sound ram k s pd) (table : i < 768) (missing : tableAt s pd i = none)
  (free : Free ram k s pd pt) (points : entryAt e = some pt)
include free points

theorem newTables (i' : Nat) :
    tableAt ((s.fill pt 0#32).put pd i e) pd i' = if i' = i then some pt else tableAt s pd i' := by
  rw [tableAt, tableAt, putSelf, fillOther free.notDir.symm]
  split
  · rename_i here
    rw [here, update_self, points]
  · rename_i other
    rw [update_of_ne other]

include sound missing

theorem newFrames {i' : Nat} (within : i' < 768) (j' : Nat) :
    frameAt ((s.fill pt 0#32).put pd i e) pd i' j' = frameAt s pd i' j' := by
  rw [frameAt, frameAt, newTables free points]
  split
  · rename_i here
    subst here
    rw [missing, Option.bind_some, putOther free.notDir, State.fill]
    simp only [update_self]
    exact entryZero
  · cases held : tableAt s pd i' with
    | none => rw [Option.bind_none, Option.bind_none]
    | some pt' =>
      have other : pt' ≠ pt := fun here => free.notTable i' within (here ▸ held)
      rw [Option.bind_some, Option.bind_some, putOther (sound.tables i' within pt' held).2.1,
        fillOther other]

include table in
theorem tableSound : Sound ram k ((s.fill pt 0#32).put pd i e) pd := by
  have tables := newTables (i := i) free points
  have frames {i' : Nat} (within : i' < 768) := newFrames sound missing free points within
  have dir : ((s.fill pt 0#32).put pd i e).mem pd = update (s.mem pd) i e := by
    rw [putSelf, fillOther free.notDir.symm]
  refine ⟨sound.same, ?_, sound.home, sound.apart, ?_, ?_, ?_, ?_, ?_, ?_⟩
  · intro page reserved
    have notDir : page ≠ pd := fun here => sound.apart (here ▸ reserved)
    have notTable : page ≠ pt := fun here => free.unreserved (here ▸ reserved)
    rw [putOther notDir, fillOther notTable, sound.kept page reserved]
  · intro i' past
    rw [dir, update_of_ne (by omega), sound.shared i' past]
  · intro i' low gone
    rw [tables] at gone
    split at gone
    · cases gone
    · rename_i other
      rw [dir, update_of_ne other]
      exact sound.tight i' low gone
  · intro i' low pt' held
    rw [tables] at held
    split at held
    · cases held
      exact ⟨free.inRam, free.notDir, free.unreserved⟩
    · exact sound.tables i' low pt' held
  · intro i₁ low₁ i₂ low₂ pt' first second
    rw [tables] at first second
    split at first <;> split at second
    · rename_i one two
      exact one.trans two.symm
    · cases first
      exact absurd second (free.notTable i₂ low₂)
    · cases second
      exact absurd first (free.notTable i₁ low₁)
    · exact sound.tablesApart i₁ low₁ i₂ low₂ pt' first second
  · intro i' low j' f held
    rw [frames low] at held
    have before := sound.frames i' low j' f held
    refine ⟨before.1, before.2.1, fun i₂ low₂ => ?_⟩
    rw [tables]
    split
    · rintro here
      cases here
      exact free.notFrame i' low j' held
    · exact before.2.2 i₂ low₂
  · intro i₁ low₁ j₁ i₂ low₂ j₂ f first second
    rw [frames low₁] at first
    rw [frames low₂] at second
    exact sound.framesApart i₁ low₁ j₁ i₂ low₂ j₂ f first second

theorem newFree {other : Word} (still : Free ram k s pd other) (apart : other ≠ pt) :
    Free ram k ((s.fill pt 0#32).put pd i e) pd other := by
  refine ⟨still.inRam, still.unreserved, still.notDir, fun i' low => ?_, fun i' low j' => ?_⟩
  · rw [newTables free points]
    split
    · exact fun here => apart (Option.some.inj here).symm
    · exact still.notTable i' low
  · rw [newFrames sound missing free points low]
    exact still.notFrame i' low j'

end Table

section Calls
variable {va upage kpage : Word} {granted : Option Word}

theorem lookupFound (sound : Sound ram k s pd) (user : va < physBase)
    (held : tableAt s pd (pdNo va) = some pt) (create : Bool) (granted : Option Word) :
    lookupPage s pd va create granted = .ok (some (pt, ptNo va), s) := by
  have present : s.mem pd (pdNo va) ≠ 0#32 := by
    intro zero
    rw [tableAt, zero, entryZero] at held
    cases held
  have kernel := (sound.tables _ (pdNoLt user) pt held).1.kernel
  unfold lookupPage
  rw [if_neg (fun both => both.2 user), if_neg present, pdeGetPtOk held kernel]
  rfl

theorem lookupNone (sound : Sound ram k s pd) (user : va < physBase)
    (missing : tableAt s pd (pdNo va) = none) {create : Bool} (refused : create = false ∨ granted = none) :
    lookupPage s pd va create granted = .ok (none, s) := by
  unfold lookupPage
  rw [if_neg (fun both => both.2 user), if_pos (sound.tight _ (pdNoLt user) missing)]
  rcases refused with rfl | rfl
  · rfl
  · cases create <;> rfl

theorem lookupNew (sound : Sound ram k s pd) (user : va < physBase)
    (missing : tableAt s pd (pdNo va) = none) (free : Free ram k s pd pt) :
    ∃ e, entryAt e = some pt ∧ lookupPage s pd va true (some pt) =
      .ok (some (pt, ptNo va), (s.fill pt 0#32).put pd (pdNo va) e) := by
  obtain ⟨e, made, points⟩ := pdeCreateOk free.inRam
  refine ⟨e, points, ?_⟩
  have read : ((s.fill pt 0#32).put pd (pdNo va) e).mem pd (pdNo va) = e := by
    rw [putSelf, update_self]
  unfold lookupPage
  rw [if_neg (fun both => both.2 user), if_pos (sound.tight _ (pdNoLt user) missing), if_pos rfl]
  simp only [made, bind, Except.bind]
  rw [read, pdeGetPtOk points free.inRam.kernel]

structure Moves (ram : Nat) (k s s' : State) (pd va : Word) (now : Option Word) : Prop where
  sound : Sound ram k s' pd
  frames : ∀ i < 768, ∀ j, frameAt s' pd i j =
    if i = pdNo va ∧ j = ptNo va then now else frameAt s pd i j

theorem movesEntry (sound : Sound ram k s pd) (user : va < physBase)
    (held : tableAt s pd (pdNo va) = some pt)
    (points : ∀ f, entryAt e = some f →
      Free ram k s pd f ∨ frameAt s pd (pdNo va) (ptNo va) = some f) :
    Moves ram k s (s.put pt (ptNo va) e) pd va (entryAt e) :=
  ⟨entrySound sound (pdNoLt user) held points,
    fun _ low j => entryFrames sound (pdNoLt user) held e low j⟩

theorem movesNothing (sound : Sound ram k s pd) (va : Word) :
    Moves ram k s s pd va (frameAt s pd (pdNo va) (ptNo va)) := by
  refine ⟨sound, fun i _ j => ?_⟩
  split
  · rename_i both
    rw [both.1, both.2]
  · rfl

theorem frameHeld (held : tableAt s pd i = some pt) : frameAt s pd i j = entryAt (s.mem pt j) := by
  rw [frameAt, held, Option.bind_some]

theorem frameMissing (missing : tableAt s pd i = none) : frameAt s pd i j = none := by
  rw [frameAt, missing, Option.bind_none]

theorem setPageSpec (sound : Sound c.initRamPages k s pd) (whole : pgOfs upage = 0#32)
    (user : upage < physBase) (unmapped : frameAt s pd (pdNo upage) (ptNo upage) = none)
    (free : Free c.initRamPages k s pd kpage)
    (fresh : ∀ pt, granted = some pt → Free c.initRamPages k s pd pt ∧ pt ≠ kpage)
    (writable : Bool) :
    (tableAt s pd (pdNo upage) = none ∧ granted = none) ∧
      pagedirSetPage c s pd upage kpage writable granted = .ok (false, s) ∨
    ∃ s', pagedirSetPage c s pd upage kpage writable granted = .ok (true, s') ∧
      Moves c.initRamPages k s s' pd upage (some kpage) := by
  obtain ⟨e, made, points⟩ := pteCreateUserOk free.inRam writable
  have asserted : ¬(pgOfs upage ≠ 0#32 ∨ pgOfs kpage ≠ 0#32 ∨ ¬upage < physBase ∨
      ¬((kpage - physBase) >>> 12).toNat < c.initRamPages ∨ pd = s.initPageDir) := by
    have other : pd ≠ s.initPageDir := fun here => sound.apart (.inl (here.trans sound.same))
    rintro (ragged | ragged | kernel | past | here)
    · exact ragged whole
    · exact ragged free.inRam.whole
    · exact kernel user
    · exact past free.inRam.inside
    · exact other here
  unfold pagedirSetPage
  rw [vtopOk free.inRam.kernel]
  simp only [bind, Except.bind]
  rw [if_neg asserted]
  cases held : tableAt s pd (pdNo upage) with
  | some pt =>
    rw [lookupFound sound user held]
    rw [frameHeld held, entryNone] at unmapped
    refine .inr ⟨s.put pt (ptNo upage) e, ?_, ?_⟩
    · simp [unmapped, made]
    · rw [← points]
      refine movesEntry sound user held fun f here => ?_
      cases Option.some.inj (points.symm.trans here)
      exact .inl free
  | none =>
    cases granted with
    | none =>
      rw [lookupNone sound user held (.inr rfl)]
      exact .inl ⟨⟨rfl, rfl⟩, rfl⟩
    | some pt =>
      obtain ⟨freePt, apart⟩ := fresh pt rfl
      obtain ⟨pde, pointsPt, looked⟩ := lookupNew sound user held freePt
      have made' := tableSound sound (pdNoLt user) held freePt pointsPt
      have heldNow : tableAt ((s.fill pt 0#32).put pd (pdNo upage) pde) pd (pdNo upage) = some pt := by
        rw [newTables freePt pointsPt, if_pos rfl]
      have unmappedNow : frameAt ((s.fill pt 0#32).put pd (pdNo upage) pde) pd (pdNo upage)
          (ptNo upage) = none := by
        rw [newFrames sound held freePt pointsPt (pdNoLt user), unmapped]
      rw [frameHeld heldNow, entryNone] at unmappedNow
      have moved := movesEntry made' user heldNow (e := e) fun f here => by
        cases Option.some.inj (points.symm.trans here)
        exact .inl (newFree sound held freePt pointsPt free apart.symm)
      rw [looked]
      refine .inr ⟨((s.fill pt 0#32).put pd (pdNo upage) pde).put pt (ptNo upage) e, ?_,
        moved.sound, fun i low j => ?_⟩
      · simp [unmappedNow, made]
      · rw [moved.frames i low j, points, newFrames sound held freePt pointsPt low]

theorem getPageSpec (sound : Sound ram k s pd) (user : va < physBase) :
    pagedirGetPage s pd va =
      .ok ((frameAt s pd (pdNo va) (ptNo va)).map fun frame => frame + pgOfs va) := by
  unfold pagedirGetPage
  rw [if_neg (not_not.mpr user)]
  cases held : tableAt s pd (pdNo va) with
  | none =>
    rw [lookupNone sound user held (.inl rfl), frameMissing held]
    rfl
  | some pt =>
    rw [lookupFound sound user held]
    cases frame : frameAt s pd (pdNo va) (ptNo va) with
    | none =>
      rw [frameHeld held, entryNone] at frame
      simp [bind, Except.bind, frame]
    | some f =>
      have kernel := (sound.frames _ (pdNoLt user) _ f frame).1.kernel
      rw [frameHeld held] at frame
      simp [bind, Except.bind, (entrySome.mp frame).1, pteGetPageOk frame kernel]

theorem clearPageSpec (sound : Sound ram k s pd) (whole : pgOfs upage = 0#32)
    (user : upage < physBase) :
    ∃ s', pagedirClearPage s pd upage = .ok s' ∧ Moves ram k s s' pd upage none := by
  unfold pagedirClearPage
  rw [if_neg (by simp [whole, user])]
  cases held : tableAt s pd (pdNo upage) with
  | none =>
    rw [lookupNone sound user held (.inl rfl)]
    have still := movesNothing sound upage
    rw [frameMissing held] at still
    exact ⟨s, rfl, still⟩
  | some pt =>
    rw [lookupFound sound user held]
    by_cases present : s.mem pt (ptNo upage) &&& pteP = 0#32
    · have still := movesNothing sound upage
      rw [frameHeld held, entryNone.mpr present] at still
      exact ⟨s, by simp [bind, Except.bind, present], still⟩
    · refine ⟨s.put pt (ptNo upage) (s.mem pt (ptNo upage) &&& ~~~pteP),
        by simp [bind, Except.bind, present], ?_⟩
      rw [← entryCleared (s.mem pt (ptNo upage))]
      refine movesEntry sound user held fun f here => ?_
      rw [entryCleared] at here
      cases here

theorem setFlagSpec (flag : Word) (absent : flag &&& pteP = 0#32) (flags : flag &&& pteAddr = 0#32)
    (sound : Sound ram k s pd) (user : va < physBase) (on : Bool) :
    ∃ s', setFlag flag s pd va on = .ok s' ∧
      Moves ram k s s' pd va (frameAt s pd (pdNo va) (ptNo va)) := by
  unfold setFlag
  cases held : tableAt s pd (pdNo va) with
  | none =>
    rw [lookupNone sound user held (.inl rfl)]
    exact ⟨s, rfl, movesNothing sound va⟩
  | some pt =>
    rw [lookupFound sound user held]
    refine ⟨_, rfl, ?_⟩
    have same := frameHeld (j := ptNo va) held
    rw [same, ← entryFlag on absent flags]
    refine movesEntry sound user held fun f here => .inr ?_
    rw [entryFlag on absent flags] at here
    rw [same, here]

theorem writeSpec (sound : Sound ram k s pd) (unreserved : ¬Reserved k page) (notDir : page ≠ pd)
    (notTable : ∀ i < 768, tableAt s pd i ≠ some page) (w : Word) :
    Moves ram k s (s.put page j w) pd va (frameAt s pd (pdNo va) (ptNo va)) := by
  have dir : (s.put page j w).mem pd = s.mem pd := putOther notDir.symm ..
  have tables (i : Nat) : tableAt (s.put page j w) pd i = tableAt s pd i := by
    rw [tableAt, tableAt, dir]
  have frames (i : Nat) (low : i < 768) (j' : Nat) :
      frameAt (s.put page j w) pd i j' = frameAt s pd i j' := by
    rw [frameAt, frameAt, tables]
    cases held : tableAt s pd i with
    | none => rw [Option.bind_none, Option.bind_none]
    | some pt =>
      have other : pt ≠ page := fun here => notTable i low (here ▸ held)
      rw [Option.bind_some, Option.bind_some, putOther other]
  refine ⟨⟨sound.same, ?_, sound.home, sound.apart, ?_, ?_, ?_, ?_, ?_, ?_⟩, ?_⟩
  · intro other reserved
    have apart : other ≠ page := fun here => unreserved (here ▸ reserved)
    rw [putOther apart, sound.kept other reserved]
  · rw [dir]
    exact sound.shared
  · rw [dir]
    simpa only [tables] using sound.tight
  · simpa only [tables] using sound.tables
  · simpa only [tables] using sound.tablesApart
  · intro i low j' f held
    rw [frames i low] at held
    simp only [tables]
    exact sound.frames i low j' f held
  · intro i₁ low₁ j₁ i₂ low₂ j₂ f first second
    rw [frames i₁ low₁] at first
    rw [frames i₂ low₂] at second
    exact sound.framesApart i₁ low₁ j₁ i₂ low₂ j₂ f first second
  · intro i low j'
    rw [frames i low]
    exact (movesNothing sound va).frames i low j'

end Calls

end Pintos.Memory
