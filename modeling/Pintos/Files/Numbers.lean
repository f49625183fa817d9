import Pintos.Files.Table

/-! The numbers of the descriptors. handler_open reads files_next_desc before it takes files_lock
and increments it inside; as long as no two opens overlap there, every number is given once. -/
namespace Pintos.Files
open Machine

def Pc.numbering : Pc → Bool
  | .opening (.number _ _) => true
  | _ => false

def Pc.removes : Pc → Option Nat
  | .call .close _ (.found d) => some d
  | _ => none

/-- No open reads files_next_desc between another one's read and its increment, and no close takes
the descriptor of an open that has not returned. -/
def Alone (s : State) : Action → Prop
  | .run t _ _ =>
    ((s.threads t).numbering = true → ∀ u < s.count, (s.threads u).numbered = none) ∧
    (∀ d ∈ (s.threads t).removes, ∀ u < s.count, (s.threads u).returns ≠ some d)
  | .opens _ | .call _ _ _ => True

instance (s a) : Decidable (Alone s a) :=
  match a with
  | .run t _ _ => inferInstanceAs (Decidable
      (((s.threads t).numbering = true → ∀ u < s.count, (s.threads u).numbered = none) ∧
        (∀ d ∈ (s.threads t).removes, ∀ u < s.count, (s.threads u).returns ≠ some d)))
  | .opens _ | .call _ _ _ => instDecidableTrue

def unfinished (s : State) : Nat := ∑ t ∈ Finset.range s.count, (s.threads t).unfinished

structure Numbered (s : State) : Prop where
  least : 3 ≤ s.nextDesc
  next : s.nextDesc + unfinished s = 3 + s.made
  current : ∀ t d, (s.threads t).numbered = some d → (s.desc d).fileDesc = s.nextDesc
  single : ∀ t u, (s.threads t).numbered ≠ none → (s.threads u).numbered ≠ none → t = u
  below : ∀ d, (s.desc d).fileDesc ≤ s.nextDesc
  taken : ∀ d, (s.desc d).fileDesc = s.nextDesc → ∃ t, (s.threads t).numbered = some d
  unique : ∀ d e, 3 ≤ (s.desc d).fileDesc → (s.desc d).fileDesc = (s.desc e).fileDesc → d = e
  table : ∀ d ∈ s.filesTab, 3 ≤ (s.desc d).fileDesc
  file : ∀ t f d, (s.threads t).makes = some (f, d) → (s.desc d).file = f
  result : ∀ t d, (s.threads t).returns = some d → d ∈ s.filesTab
  unmade : ∀ d, s.made ≤ d → (s.desc d).fileDesc = 0

section Numbered
variable {s s' : State} {t : Nat} {pc : Pc}
  {granted : Bool} {f d : Nat} {chosen : Nat} {stage : Open} {a : Action}

theorem unfinishedTurn (busy : t < s.count) (turn : Turn s t pc s') :
    unfinished s' + (s.threads t).unfinished = unfinished s + pc.unfinished := by
  have change := Count.sumChange (g := fun u => (s.threads u).unfinished)
    (h := fun u => (s'.threads u).unfinished) busy (fun u other => by rw [turn.other other])
  unfold unfinished
  rw [turn.count]
  simpa only [turn.self] using change

theorem makesRefers (makes : pc.makes = some (f, d)) : pc.refers = some d := by
  cases pc with
  | opening stage =>
    cases stage <;> simp [Pc.makes, Pc.refers, Open.refers] at makes ⊢
    all_goals exact makes.2
  | _ => cases makes

section Numbers
variable (numbered : Numbered s) (tabled : Tabled s)
include numbered tabled

theorem fileTurn (turn : Turn s t pc s') (old : ∀ d < s.made, (s'.desc d).file = (s.desc d).file)
    (makes : ∀ f d, pc.makes = some (f, d) → (s'.desc d).file = f) (u f d : Nat)
    (mine : (s'.threads u).makes = some (f, d)) : (s'.desc d).file = f := by
  by_cases self : u = t
  · rw [self, turn.self] at mine
    exact makes f d mine
  · rw [turn.other self] at mine
    rw [old d (tabled.refers u d (makesRefers mine))]
    exact numbered.file u f d mine

theorem numberedStill (busy : t < s.count) (turn : Turn s t pc s') (next : s'.nextDesc = s.nextDesc)
    (more : s.made ≤ s'.made) (weight : s'.made + (s.threads t).unfinished = s.made + pc.unfinished)
    (number : ∀ d, (s'.desc d).fileDesc = (s.desc d).fileDesc)
    (old : ∀ d < s.made, (s'.desc d).file = (s.desc d).file)
    (makes : ∀ f d, pc.makes = some (f, d) → (s'.desc d).file = f)
    (same : pc.numbered = (s.threads t).numbered)
    (table : ∀ d ∈ s'.filesTab, d ∈ s.filesTab ∨ 3 ≤ (s.desc d).fileDesc)
    (kept : ∀ u d, u ≠ t → (s.threads u).returns = some d → d ∈ s'.filesTab)
    (result : ∀ d, pc.returns = some d → d ∈ s'.filesTab) : Numbered s' := by
  have alike (u : Nat) : (s'.threads u).numbered = (s.threads u).numbered := by
    by_cases self : u = t
    · rw [self, turn.self, same]
    · rw [turn.other self]
  refine ⟨next ▸ numbered.least, ?_, ?_, ?_, ?_, ?_, ?_, ?_,
    fileTurn numbered tabled turn old makes, ?_, ?_⟩
  · have change := unfinishedTurn busy turn
    have before := numbered.next
    omega
  · intro u d mine
    rw [number, next]
    exact numbered.current u d (alike u ▸ mine)
  · intro u v
    rw [alike, alike]
    exact numbered.single u v
  · intro d
    rw [number, next]
    exact numbered.below d
  · intro d
    rw [number, next]
    intro top
    obtain ⟨u, theirs⟩ := numbered.taken d top
    exact ⟨u, (alike u).trans theirs⟩
  · intro d e
    rw [number, number]
    exact numbered.unique d e
  · intro d inside
    rw [number]
    exact (table d inside).elim (numbered.table d) id
  · intro u d mine
    by_cases self : u = t
    · rw [self, turn.self] at mine
      exact result d mine
    · rw [turn.other self] at mine
      exact kept u d self mine
  · intro d young
    rw [number]
    exact numbered.unmade d (Nat.le_trans more young)

theorem numberedGive (here : s.threads t = .opening (.number f d))
    (alone : ∀ u < s.count, (s.threads u).numbered = none) :
    Numbered ((s.put d { s.desc d with fileDesc := s.nextDesc }).become t (.opening (.lock f d))) := by
  have busy : t < s.count := tabled.within (by rw [here]; exact Pc.noConfusion)
  obtain ⟨small, outside, _, _⟩ := tabled.has t d (by rw [here]; rfl)
  have nobody (u : Nat) : (s.threads u).numbered = none := by
    by_cases young : u < s.count
    · exact alone u young
    · rw [tabled.inside u (Nat.le_of_not_lt young)]
      rfl
  generalize moved : (s.put d { s.desc d with fileDesc := s.nextDesc }).become t
    (.opening (.lock f d)) = s'
  have turn : Turn s t (.opening (.lock f d)) s' := moved ▸ ⟨rfl, rfl⟩
  have given : s'.desc d = { s.desc d with fileDesc := s.nextDesc } := by
    rw [← moved]
    exact Function.update_self _ _ _
  have others {e : Nat} (other : e ≠ d) : s'.desc e = s.desc e := by
    rw [← moved]
    exact Function.update_of_ne other _ _
  have next : s'.nextDesc = s.nextDesc := by rw [← moved]; rfl
  have tab : s'.filesTab = s.filesTab := by rw [← moved]; rfl
  have made : s'.made = s.made := by rw [← moved]; rfl
  have only (u e : Nat) (mine : (s'.threads u).numbered = some e) : u = t ∧ e = d := by
    by_cases self : u = t
    · rw [self, turn.self] at mine
      exact ⟨self, (Option.some.inj mine).symm⟩
    · rw [turn.other self, nobody u] at mine
      cases mine
  have free {e : Nat} : (s.desc e).fileDesc ≠ s.nextDesc := fun top => by
    obtain ⟨u, theirs⟩ := numbered.taken e top
    rw [nobody u] at theirs
    cases theirs
  refine ⟨next ▸ numbered.least, ?_, ?_, ?_, ?_, ?_, ?_, ?_,
    fileTurn numbered tabled turn ?_ ?_, ?_, ?_⟩
  · have change := unfinishedTurn busy turn
    have before := numbered.next
    rw [here] at change
    simp only [Pc.unfinished] at change
    omega
  · intro u e mine
    rw [(only u e mine).2, given, next]
  · intro u v mine theirs
    obtain ⟨e, mine⟩ := Option.ne_none_iff_exists'.mp mine
    obtain ⟨e', theirs⟩ := Option.ne_none_iff_exists'.mp theirs
    rw [(only u e mine).1, (only v e' theirs).1]
  · intro e
    rw [next]
    by_cases same : e = d
    · rw [same, given]
    · rw [others same]
      exact numbered.below e
  · intro e top
    by_cases same : e = d
    · exact ⟨t, by rw [turn.self, same]; rfl⟩
    · rw [others same, next] at top
      exact absurd top free
  · intro e e' least equal
    by_cases same : e = d <;> by_cases same' : e' = d
    · rw [same, same']
    · rw [same, given, others same'] at equal
      exact absurd equal.symm free
    · rw [same', given, others same] at equal
      exact absurd equal free
    · rw [others same, others same'] at equal
      exact numbered.unique e e' (others same ▸ least) equal
  · intro e inside
    rw [tab] at inside
    rw [others fun same => outside (same ▸ inside)]
    exact numbered.table e inside
  · intro e _
    by_cases same : e = d
    · rw [same, given]
    · rw [others same]
  · intro g e mine
    cases mine
    rw [given]
    exact numbered.file t f d (by rw [here]; rfl)
  · intro u e mine
    rw [tab]
    by_cases self : u = t
    · rw [self, turn.self] at mine
      cases mine
    · rw [turn.other self] at mine
      exact numbered.result u e mine
  · intro e young
    rw [made] at young
    have other : e ≠ d := fun same => Nat.not_lt.mpr young (same.symm ▸ small)
    rw [others other]
    exact numbered.unmade e young

theorem numberedCount (here : s.threads t = .opening (.increment f d)) (few : s.made < 2 ^ 32 - 3) :
    Numbered ({ s with nextDesc := (s.nextDesc + 1) % 2 ^ 32 }.become t (.opening (.unlock f d))) := by
  have busy : t < s.count := tabled.within (by rw [here]; exact Pc.noConfusion)
  generalize moved : { s with nextDesc := (s.nextDesc + 1) % 2 ^ 32 }.become t
    (.opening (.unlock f d)) = s'
  have turn : Turn s t (.opening (.unlock f d)) s' := moved ▸ ⟨rfl, rfl⟩
  have desc : s'.desc = s.desc := by rw [← moved]; rfl
  have tab : s'.filesTab = s.filesTab := by rw [← moved]; rfl
  have made : s'.made = s.made := by rw [← moved]; rfl
  have before := numbered.next
  -- this open is still to be counted, so the counter does not wrap
  have next : s'.nextDesc = s.nextDesc + 1 := by
    have mine : 1 ≤ unfinished s := by
      have counted := Finset.single_le_sum_of_canonicallyOrdered (f := fun u => (s.threads u).unfinished)
        (Finset.mem_range.mpr busy)
      simp only [here] at counted
      exact counted
    rw [← moved]
    exact Nat.mod_eq_of_lt (by omega)
  have nobody (u e : Nat) (theirs : (s'.threads u).numbered = some e) : False := by
    by_cases self : u = t
    · rw [self, turn.self] at theirs
      cases theirs
    · rw [turn.other self] at theirs
      exact self (numbered.single u t (by simp [theirs]) (by rw [here]; exact Option.some_ne_none d))
  refine ⟨?_, ?_, fun u e theirs => (nobody u e theirs).elim, ?_, ?_, ?_, ?_, ?_,
    fileTurn numbered tabled turn (fun _ _ => by rw [desc]) ?_, ?_, ?_⟩
  · have least := numbered.least
    omega
  · have change := unfinishedTurn busy turn
    rw [here] at change
    simp only [Pc.unfinished] at change
    omega
  · intro u v mine _
    obtain ⟨e, mine⟩ := Option.ne_none_iff_exists'.mp mine
    exact (nobody u e mine).elim
  · intro e
    have below := numbered.below e
    rw [desc]
    omega
  · intro e top
    have below := numbered.below e
    rw [desc] at top
    omega
  · rw [desc]
    exact numbered.unique
  · rw [desc, tab]
    exact numbered.table
  · intro g e mine
    cases mine
    rw [desc]
    exact numbered.file t f d (by rw [here]; rfl)
  · intro u e mine
    rw [tab]
    by_cases self : u = t
    · rw [self, turn.self] at mine
      cases mine
    · rw [turn.other self] at mine
      exact numbered.result u e mine
  · rw [desc, made]
    exact numbered.unmade

theorem numberedMake (busy : t < s.count) (here : s.threads t = .opening (.allocate f))
    {lock : RwLock.State} :
    Numbered (({ s with made := s.made + 1 }.put s.made { file := f, lock := lock }).become t
      (.opening (.number f s.made))) := by
  refine numberedStill numbered tabled busy ⟨rfl, rfl⟩ rfl (Nat.le_succ _) (by rw [here]; rfl)
    (fun d => ?_) (fun d young => ?_) (fun g e mine => ?_) (by rw [here]; rfl)
    (fun _ inside => .inl inside) (fun u d _ theirs => numbered.result u d theirs)
    (by simp [Pc.returns])
  · by_cases new : d = s.made
    · subst new
      simp [State.become, State.put, numbered.unmade s.made (Nat.le_refl _)]
    · simp [State.become, State.put, new]
  · simp [State.become, State.put, Nat.ne_of_lt young]
  · cases mine
    simp [State.become, State.put]

theorem numberedChanges (busy : t < s.count)
    (alone : ∀ d ∈ (s.threads t).removes, ∀ u < s.count, (s.threads u).returns ≠ some d)
    (changes : Changes s t s') : Numbered s' := by
  -- the steps that leave the numbers and the counter alone
  have along {s' : State} {pc : Pc} (turn : Turn s t pc s')
      (same : s'.nextDesc = s.nextDesc ∧ s'.made = s.made)
      (desc : ∀ d, (s'.desc d).fileDesc = (s.desc d).fileDesc ∧ (s'.desc d).file = (s.desc d).file)
      (alike : pc.unfinished = (s.threads t).unfinished ∧ pc.numbered = (s.threads t).numbered)
      (makes : ∀ g e, pc.makes = some (g, e) → (s.threads t).makes = some (g, e))
      (table : ∀ d ∈ s'.filesTab, d ∈ s.filesTab ∨ 3 ≤ (s.desc d).fileDesc)
      (kept : ∀ u d, u ≠ t → (s.threads u).returns = some d → d ∈ s'.filesTab)
      (silent : pc.returns = none) : Numbered s' :=
    numberedStill numbered tabled busy turn same.1 (Nat.le_of_eq same.2.symm)
      (by rw [same.2, alike.1]) (fun d => (desc d).1) (fun d _ => (desc d).2)
      (fun g e mine => (desc e).2.trans (numbered.file t g e (makes g e mine))) alike.2 table kept
      (by simp [silent])
  have results (u d : Nat) (_ : u ≠ t) (theirs : (s.threads u).returns = some d) : d ∈ s.filesTab :=
    numbered.result u d theirs
  cases changes with
  | opens chosen here | closes fd d here =>
    exact along ⟨rfl, rfl⟩ ⟨rfl, rfl⟩ (fun _ => ⟨rfl, rfl⟩) (by rw [here]; exact ⟨rfl, rfl⟩)
      (by simp [Pc.makes]) (fun _ inside => .inl inside) results rfl
  | makes f here => exact numberedMake numbered tabled busy here
  | pushes f d here =>
    have number := numbered.current t d (by rw [here]; rfl)
    refine along ⟨rfl, rfl⟩ ⟨rfl, rfl⟩ (fun _ => ⟨rfl, rfl⟩) (by rw [here]; exact ⟨rfl, rfl⟩)
      (fun _ _ same => by rw [here]; exact same) (fun e inside => ?_)
      (fun u e other theirs => List.mem_cons_of_mem _ (results u e other theirs)) rfl
    rcases List.mem_cons.mp inside with rfl | old
    · exact .inr (number ▸ numbered.least)
    · exact .inl old
  | removes fd d here =>
    refine along ⟨rfl, rfl⟩ ⟨rfl, rfl⟩ (fun _ => ⟨rfl, rfl⟩) (by rw [here]; exact ⟨rfl, rfl⟩)
      (by simp [Pc.makes]) (fun e inside => .inl (List.mem_of_mem_erase inside))
      (fun u e other theirs => ?_) rfl
    have young : u < s.count := tabled.within fun user => by
      rw [user] at theirs
      cases theirs
    have apart : e ≠ d := fun same => alone d (by rw [here]; rfl) u young (same ▸ theirs)
    exact tabled.nodup.mem_erase_iff.mpr ⟨apart, results u e other theirs⟩
  | frees fd d here =>
    have same {β : Type} (g : Desc → β) (keeps : g { s.desc d with freed := true } = g (s.desc d)) :=
      putKeeps g keeps
    exact along ⟨rfl, rfl⟩ ⟨rfl, rfl⟩ (fun e => ⟨same Desc.fileDesc rfl e, same Desc.file rfl e⟩)
      (by rw [here]; exact ⟨rfl, rfl⟩) (by simp [Pc.makes]) (fun _ inside => .inl inside) results rfl

theorem numberedStep (few : s.made < 2 ^ 32 - 3) (alone : Alone s a) (ok : step s a = .ok s') :
    Numbered s' := by
  obtain ⟨t, busy, ⟨still, _, counts | numbers⟩ | changes, runs⟩ :=
    stepMoves tabled.fits tabled.sees ok
  · refine numberedStill numbered tabled busy still.turn counts.next (Nat.le_of_eq still.made.symm)
      (by rw [still.made, counts.unfinished]) counts.number (fun d _ => still.files d)
      (fun f d mine => ?_) counts.numbered (fun d inside => .inl (still.table ▸ inside))
      (fun u d _ theirs => ?_) (fun d mine => ?_)
    · rw [still.files]
      exact numbered.file t f d (counts.makes f d mine)
    · rw [still.table]
      exact numbered.result u d theirs
    · rw [still.table]
      exact counts.returns d mine
  · cases numbers with
    | gives f d here =>
      obtain ⟨granted, chosen, rfl⟩ := runs (by rw [here]; exact Pc.noConfusion)
      exact numberedGive numbered tabled here (alone.1 (by rw [here]; rfl))
    | increments f d here => exact numberedCount numbered tabled here few
  · refine numberedChanges numbered tabled busy (fun d removes => ?_) changes
    obtain ⟨granted, chosen, rfl⟩ := runs fun user => by
      rw [user] at removes
      cases removes
    exact alone.2 d removes

end Numbers

theorem madeStep (tabled : Tabled s) (ok : step s a = .ok s') : s.made ≤ s'.made := by
  obtain ⟨t, _, ⟨still, _, _⟩ | changes, _⟩ := stepMoves tabled.fits tabled.sees ok
  · exact Nat.le_of_eq still.made.symm
  · cases changes <;> simp [State.become, State.put, State.store]

theorem numberedBoot (count : Nat) : Numbered (boot count) := by
  have none : unfinished (boot count) = 0 := Finset.sum_eq_zero fun _ _ => rfl
  constructor
  case next => rw [none]; rfl
  all_goals simp [boot, Pc.numbered, Pc.makes, Pc.returns]

theorem numberedRun {count : Nat} (run : Run step Alone (boot count) s) (few : s.made < 2 ^ 32 - 3) :
    Tabled s ∧ Numbered s := by
  have kept := run.invariant (fun s => Tabled s ∧ (s.made < 2 ^ 32 - 3 → Numbered s))
    ⟨tabledBoot count, fun _ => numberedBoot count⟩ fun u v a inv allowed moved =>
      ⟨tabledStep inv.1 moved, fun few =>
        have fewer := Nat.lt_of_le_of_lt (madeStep inv.1 moved) few
        numberedStep (inv.2 fewer) inv.1 fewer allowed moved⟩
  exact ⟨kept.1, kept.2 few⟩

/-- No two entries of files_tab have the same number, and a handler_open that is about to return
finds its file_desc in the table: it returns a number that only the file it has opened has. -/
theorem openNumbers {count : Nat} (run : Run step Alone (boot count) s)
    (few : s.made < 2 ^ 32 - 3) :
    (s.filesTab.map fun d => (s.desc d).fileDesc).Nodup ∧
    ∀ t f d, s.threads t = .opening (.result f d) →
      (d ∈ s.filesTab ∧ (s.desc d).file = f ∧
        ∀ e ∈ s.filesTab, (s.desc e).fileDesc = (s.desc d).fileDesc → e = d) ∧
      ∀ granted chosen, step s (.run t granted chosen) =
        .ok (s.become t (.done (s.desc d).fileDesc)) := by
  obtain ⟨tabled, numbered⟩ := numberedRun run few
  have unique {d e : Nat} (inside : d ∈ s.filesTab)
      (same : (s.desc d).fileDesc = (s.desc e).fileDesc) : d = e :=
    numbered.unique d e (numbered.table d inside) same
  refine ⟨tabled.nodup.map_on fun d inside e _ same => unique inside same, ?_⟩
  intro t f d here
  have inside := numbered.result t d (by rw [here]; rfl)
  refine ⟨⟨inside, numbered.file t f d (by rw [here]; rfl), fun e there same => unique there same⟩,
    fun granted chosen => ?_⟩
  have live : (s.desc d).freed = false :=
    Bool.eq_false_iff.mpr fun gone => (tabled.freed d gone).2 inside
  have busy : t < s.count := tabled.within (by rw [here]; exact Pc.noConfusion)
  simp only [step, busy, if_true, runThread, here, handlerOpen, Desc.use, allow, live]
  rfl

def opensFile (t : Nat) : List Action := .opens t :: List.replicate 7 (.run t true 0)

theorem openNumbersExample : ∃ s, Run step Alone (boot 2) s ∧ s.filesTab = [1, 0] ∧
    s.threads 1 = .opening (.result 1 1) ∧
    (s.filesTab.map fun d => (s.desc d).fileDesc).Nodup ∧ (s.desc 1).file = 1 := by
  obtain ⟨s, run, found⟩ := execFinds step Alone (boot 2) (opensFile 0 ++ opensFile 1)
    (fun s => decide (s.made < 2 ^ 32 - 3 ∧ s.filesTab = [1, 0] ∧
      s.threads 1 = .opening (.result 1 1))) (by decide +kernel)
  obtain ⟨few, table, here⟩ := of_decide_eq_true found
  obtain ⟨nodup, returns⟩ := openNumbers run few
  exact ⟨s, run, table, here, nodup, (returns 1 1 1 here).1.2.1⟩

theorem openMistaken :
    (∃ s, Run step (fun _ _ => True) (boot 2) s ∧ s.filesTab = [0, 1] ∧
      (s.desc 0).fileDesc = 3 ∧ (s.desc 1).fileDesc = 3) ∧
    (∃ s, Run step (fun _ _ => True) (boot 2) s ∧ s.threads 0 = .opening (.result 0 0) ∧
      ∀ granted chosen, step s (.run 0 granted chosen) = .error .freed) := by
  refine ⟨?_, ?_⟩
  · obtain ⟨s, run, found⟩ := execFinds step (fun _ _ => True) (boot 2)
      (.opens 0 :: List.replicate 3 (.run 0 true 0) ++ opensFile 1 ++ List.replicate 4 (.run 0 true 0))
      (fun s => decide (s.filesTab = [0, 1] ∧ (s.desc 0).fileDesc = 3 ∧ (s.desc 1).fileDesc = 3))
      (by decide +kernel)
    exact ⟨s, run, of_decide_eq_true found⟩
  · obtain ⟨s, run, found⟩ := execFinds step (fun _ _ => True) (boot 2)
      (opensFile 0 ++ [.call 1 .close 3] ++ List.replicate 16 (.run 1 true 0))
      (fun s => decide (s.count = 2 ∧ s.threads 0 = .opening (.result 0 0) ∧ (s.desc 0).freed = true))
      (by decide +kernel)
    obtain ⟨count, here, gone⟩ := of_decide_eq_true found
    refine ⟨s, run, here, fun granted chosen => ?_⟩
    simp only [step, count, Nat.zero_lt_two, if_true, runThread, here, handlerOpen, Desc.use, allow, gone]
    rfl

end Numbered
end Pintos.Files
