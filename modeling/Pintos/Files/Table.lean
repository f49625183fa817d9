import Pintos.Files.Turns

/-! Where a struct file_desc is: with the handler_open that makes it, in files_tab, or with the
handler_close that took it out. Whoever looks through the table holds files_lock. -/
namespace Pintos.Files
open Machine

theorem seesLocked {pc : Pc} {d : Nat} (seen : d ∈ pc.sees) : pc.locked = true := by
  revert seen
  unfold Pc.sees
  split <;> simp [Pc.locked]

structure Tabled (s : State) : Prop where
  fits : ∀ t, (s.threads t).fits = true
  inside : ∀ t, s.count ≤ t → s.threads t = .user
  locked : ∀ t, (s.threads t).locked = true ↔ s.filesLock = some t
  nodup : s.filesTab.Nodup
  made : ∀ d ∈ s.filesTab, d < s.made
  sees : ∀ t, ∀ d ∈ (s.threads t).sees, d ∈ s.filesTab
  has : ∀ t d, (s.threads t).has = some d →
    d < s.made ∧ d ∉ s.filesTab ∧ (s.desc d).freed = false ∧
      ∀ u, (s.threads u).has = some d → u = t
  refers : ∀ t d, (s.threads t).refers = some d → d < s.made
  freed : ∀ d, (s.desc d).freed = true → d < s.made ∧ d ∉ s.filesTab

section Tabled
variable {s s' : State} {t : Nat} {pc : Pc}

theorem fitsTurn (tabled : Tabled s) (turn : Turn s t pc s') (fits : pc.fits = true) (u : Nat) :
    (s'.threads u).fits = true := by
  by_cases self : u = t
  · rw [self, turn.self]
    exact fits
  · rw [turn.other self]
    exact tabled.fits u

theorem Tabled.within (tabled : Tabled s) (busy : s.threads t ≠ .user) : t < s.count := by
  by_contra outside
  exact busy (tabled.inside t (Nat.le_of_not_lt outside))

theorem lockedTurn (tabled : Tabled s) (turn : Turn s t pc s') (locks : Locks s t pc s') (u : Nat) :
    (s'.threads u).locked = true ↔ s'.filesLock = some u := by
  by_cases self : u = t
  · subst self
    rw [turn.self]
    rcases locks with ⟨same, kept⟩ | ⟨_, mine, locked⟩ | ⟨_, free, unlocked⟩
    · rw [kept, same]
      exact tabled.locked u
    · simp [mine, locked]
    · simp [free, unlocked]
  · rw [turn.other self, tabled.locked u]
    rcases locks with ⟨same, _⟩ | ⟨free, mine, _⟩ | ⟨mine, free, _⟩
    · rw [same]
    · simp [free, mine, Ne.symm self]
    · simp [mine, free, Ne.symm self]

theorem tabledTurn (tabled : Tabled s) (busy : t < s.count) (turn : Turn s t pc s')
    (fits : pc.fits = true) (locks : Locks s t pc s')
    (table : s'.filesTab = s.filesTab ∨ (s.threads t).locked = true)
    (nodup : s'.filesTab.Nodup) (made : s.made ≤ s'.made) (young : ∀ d ∈ s'.filesTab, d < s'.made)
    (sees : ∀ d ∈ pc.sees, d ∈ s'.filesTab)
    (enters : ∀ d ∈ s'.filesTab, d ∉ s.filesTab → (s.threads t).has = some d)
    (has : ∀ d, pc.has = some d → d < s'.made ∧ d ∉ s'.filesTab ∧ (s'.desc d).freed = false ∧
      ∀ u, u ≠ t → (s.threads u).has ≠ some d)
    (refers : ∀ d, pc.refers = some d → d < s'.made)
    (freed : ∀ d, (s'.desc d).freed = true → d < s'.made ∧ d ∉ s'.filesTab ∧
      ∀ u, u ≠ t → (s.threads u).has ≠ some d) : Tabled s' := by
  refine ⟨fitsTurn tabled turn fits, fun u outside => ?_, lockedTurn tabled turn locks, nodup, young,
    fun u d seen => ?_, fun u d mine => ?_, fun u d points => ?_,
    fun d gone => ⟨(freed d gone).1, (freed d gone).2.1⟩⟩
  · rw [turn.count] at outside
    have other : u ≠ t := fun self => Nat.not_lt.mpr outside (self ▸ busy)
    rw [turn.other other]
    exact tabled.inside u outside
  · by_cases self : u = t
    · rw [self, turn.self] at seen
      exact sees d seen
    · rw [turn.other self] at seen
      rcases table with same | locked
      · rw [same]
        exact tabled.sees u d seen
      · have theirs := (tabled.locked u).mp (seesLocked seen)
        exact absurd (Option.some.inj (theirs.symm.trans ((tabled.locked t).mp locked))) self
  · by_cases self : u = t
    · rw [self, turn.self] at mine
      obtain ⟨small, out, live, only⟩ := has d mine
      refine ⟨small, out, live, fun v theirs => ?_⟩
      by_cases same : v = t
      · rw [same, self]
      · exact absurd (turn.other same ▸ theirs) (only v same)
    · rw [turn.other self] at mine
      obtain ⟨small, out, _, only⟩ := tabled.has u d mine
      refine ⟨Nat.lt_of_lt_of_le small made, fun inside => ?_, ?_, fun v theirs => ?_⟩
      · exact self (only t (enters d inside out)).symm
      · exact Bool.eq_false_iff.mpr fun gone => (freed d gone).2.2 u self mine
      · by_cases same : v = t
        · rw [same, turn.self] at theirs
          exact absurd mine ((has d theirs).2.2.2 u self)
        · exact only v (turn.other same ▸ theirs)
  · by_cases self : u = t
    · rw [self, turn.self] at points
      exact refers d points
    · rw [turn.other self] at points
      exact Nat.lt_of_lt_of_le (tabled.refers u d points) made

theorem Tabled.others {d : Nat} (tabled : Tabled s) (mine : (s.threads t).has = some d) (u : Nat)
    (other : u ≠ t) : (s.threads u).has ≠ some d :=
  fun theirs => other ((tabled.has t d mine).2.2.2 u theirs)

theorem Tabled.live {d u : Nat} (tabled : Tabled s) (gone : (s.desc d).freed = true) :
    (s.threads u).has ≠ some d := by
  intro theirs
  rw [(tabled.has u d theirs).2.2.1] at gone
  cases gone

theorem tabledStill (tabled : Tabled s) (busy : t < s.count) (turn : Turn s t pc s')
    (fits : pc.fits = true)
    (locks : Locks s t pc s') (table : s'.filesTab = s.filesTab) (made : s'.made = s.made)
    (freed : ∀ d, (s'.desc d).freed = (s.desc d).freed)
    (sees : ∀ d ∈ pc.sees, d ∈ s.filesTab)
    (has : ∀ d, pc.has = some d → (s.threads t).has = some d)
    (refers : ∀ d, pc.refers = some d → d < s.made) : Tabled s' := by
  refine tabledTurn tabled busy turn fits locks (.inl table) (table ▸ tabled.nodup)
    (Nat.le_of_eq made.symm) ?_ (table ▸ sees) ?_ ?_ (made ▸ refers) ?_ <;> rw [table]
  · rw [made]
    exact tabled.made
  · exact fun d inside new => absurd inside new
  · intro d mine
    obtain ⟨small, out, live, _⟩ := tabled.has t d (has d mine)
    rw [made, freed]
    exact ⟨small, out, live, tabled.others (has d mine)⟩
  · intro d gone
    rw [freed] at gone
    rw [made]
    exact ⟨(tabled.freed d gone).1, (tabled.freed d gone).2, fun u _ => tabled.live gone⟩

theorem tabledChanges (tabled : Tabled s) (busy : t < s.count) (changes : Changes s t s') :
    Tabled s' := by
  cases changes with
  | opens chosen here =>
    exact tabledStill tabled busy ⟨rfl, rfl⟩ rfl (.inl ⟨rfl, by rw [here]; rfl⟩) rfl rfl (fun _ => rfl)
      (by simp [Pc.sees]) (by simp [Pc.has, Open.has]) (by simp [Pc.refers, Open.refers])
  | makes f here =>
    refine tabledTurn tabled busy ⟨rfl, rfl⟩ rfl (.inl ⟨rfl, by rw [here]; rfl⟩) (.inl rfl)
      tabled.nodup (Nat.le_succ _) (fun d inside => Nat.lt_succ_of_lt (tabled.made d inside))
      (by simp [Pc.sees]) (fun d inside new => absurd inside new) ?_ ?_ ?_
    · intro d same
      cases same
      refine ⟨Nat.lt_succ_self _, fun inside => ?_, by simp [State.become, State.put],
        fun u _ mine => ?_⟩
      · exact Nat.lt_irrefl _ (tabled.made _ inside)
      · exact Nat.lt_irrefl _ (tabled.has u _ mine).1
    · intro d same
      cases same
      exact Nat.lt_succ_self _
    · intro d gone
      have other : d ≠ s.made := by
        rintro rfl
        simp [State.become, State.put] at gone
      simp only [State.become, State.put, Function.update_of_ne other] at gone
      obtain ⟨small, out⟩ := tabled.freed d gone
      exact ⟨Nat.lt_succ_of_lt small, out, fun u _ => tabled.live gone⟩
  | pushes f d here =>
    have mine : (s.threads t).has = some d := by rw [here]; rfl
    have locked : (s.threads t).locked = true := by rw [here]; rfl
    obtain ⟨small, outside, _, _⟩ := tabled.has t d mine
    refine tabledTurn tabled busy ⟨rfl, rfl⟩ rfl (.inl ⟨rfl, locked.symm⟩) (.inr locked)
      (List.nodup_cons.mpr ⟨outside, tabled.nodup⟩) (Nat.le_refl _) ?_ ?_ ?_
      (by simp [Pc.has, Open.has]) (fun e same => Option.some.inj same ▸ small) ?_
    · intro e inside
      rcases List.mem_cons.mp inside with rfl | before
      · exact small
      · exact tabled.made e before
    · exact fun e seen => List.mem_cons.mpr (.inl (List.mem_singleton.mp seen))
    · intro e inside new
      rcases List.mem_cons.mp inside with rfl | before
      · exact mine
      · exact absurd before new
    · intro e gone
      obtain ⟨small, out⟩ := tabled.freed e gone
      refine ⟨small, fun inside => ?_, fun u _ => tabled.live gone⟩
      rcases List.mem_cons.mp inside with rfl | before
      · exact tabled.live gone mine
      · exact out before
  | removes fd d here =>
    have inside := tabled.sees t d (by rw [here]; exact List.mem_singleton_self d)
    have small := tabled.made d inside
    have locked : (s.threads t).locked = true := by rw [here]; rfl
    refine tabledTurn tabled busy ⟨rfl, rfl⟩ rfl (.inl ⟨rfl, locked.symm⟩) (.inr locked)
      (tabled.nodup.erase d) (Nat.le_refl _)
      (fun e mem => tabled.made e (List.mem_of_mem_erase mem)) (by simp [Pc.sees])
      (fun e mem new => absurd (List.mem_of_mem_erase mem) new) ?_
      (fun e same => Option.some.inj same ▸ small) ?_
    · intro e mine
      cases mine
      refine ⟨small, fun mem => (tabled.nodup.mem_erase_iff.mp mem).1 rfl, ?_, fun u _ theirs => ?_⟩
      · exact Bool.eq_false_iff.mpr fun gone => (tabled.freed d gone).2 inside
      · exact (tabled.has u d theirs).2.1 inside
    · intro e gone
      obtain ⟨small, out⟩ := tabled.freed e gone
      exact ⟨small, fun mem => out (List.mem_of_mem_erase mem), fun u _ => tabled.live gone⟩
  | closes fd d here =>
    have mine : (s.threads t).has = some d := by rw [here]; rfl
    refine tabledStill tabled busy ⟨rfl, rfl⟩ rfl (.inl ⟨rfl, by rw [here]; rfl⟩) rfl rfl (fun _ => rfl)
      (by simp [Pc.sees]) (fun e same => mine.trans same) (fun e same => ?_)
    exact Option.some.inj same ▸ (tabled.has t d mine).1
  | frees fd d here =>
    have mine : (s.threads t).has = some d := by rw [here]; rfl
    refine tabledTurn tabled busy ⟨rfl, rfl⟩ rfl (.inl ⟨rfl, by rw [here]; rfl⟩) (.inl rfl)
      tabled.nodup (Nat.le_refl _) tabled.made (by simp [Pc.sees])
      (fun e inside new => absurd inside new) (by simp [Pc.has]) (by simp [Pc.refers]) ?_
    intro e gone
    by_cases same : e = d
    · subst same
      obtain ⟨small, out, _, _⟩ := tabled.has t e mine
      exact ⟨small, out, tabled.others mine⟩
    · simp only [State.become, State.put, Function.update_of_ne same] at gone
      exact ⟨(tabled.freed e gone).1, (tabled.freed e gone).2, fun u _ => tabled.live gone⟩

theorem tabledStep {a : Action} (tabled : Tabled s) (ok : step s a = .ok s') : Tabled s' := by
  obtain ⟨t, busy, ⟨still, _, _⟩ | changes, _⟩ := stepMoves tabled.fits tabled.sees ok
  · exact tabledStill tabled busy still.turn still.fits still.locks still.table still.made
      still.freed still.sees still.has fun d points =>
        (still.refers d points).elim (tabled.refers t d) (tabled.made d)
  · exact tabledChanges tabled busy changes

theorem tabledBoot (count : Nat) : Tabled (boot count) := by
  constructor <;> simp [boot, Pc.fits, Pc.locked, Pc.sees, Pc.has, Pc.refers]

end Tabled
end Pintos.Files
