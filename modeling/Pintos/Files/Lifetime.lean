import Pintos.Files.Locks

/-! The life of a struct file_desc and of its file. handler_close takes the rw_lock as a writer, so
the readers are gone when it closes the file; but handler_write takes no lock, and a handler_read
that has found the descriptor takes it later. When none of these is on its way, nothing is used
after it has been freed. -/
namespace Pintos.Files
open Machine

def Pc.closes : Pc → Option Nat
  | .call .close _ (.fileClose d) => some d
  | _ => none

def State.pending (s : State) (u d : Nat) : Bool :=
  match s.threads u with
  | .opening (.result _ e) => e == d
  | .call (.read _) _ (.acquire e) => e == d && ((s.desc d).lock.pc u).active true == 0
  | .call (.write _) _ (.transfer e) | .call (.write _) _ (.advance e _) => e == d
  | _ => false

/-- When handler_close closes the file, no handler_write is using the descriptor, no handler_read
is between its search and the end of rw_lock_acquire, and the handler_open has returned. -/
def Quiet (s : State) : Action → Prop
  | .run t _ _ => ∀ d ∈ (s.threads t).closes, ∀ u < s.count, s.pending u d = false
  | .opens _ | .call _ _ _ => True

instance (s a) : Decidable (Quiet s a) :=
  match a with
  | .run t _ _ => inferInstanceAs (Decidable
      (∀ d ∈ (s.threads t).closes, ∀ u < s.count, s.pending u d = false))
  | .opens _ | .call _ _ _ => instDecidableTrue

structure Living (s : State) : Prop where
  closed : ∀ t d, (s.threads t).past = some d → ∀ u, u ≠ t → (s.threads u).refers ≠ some d
  freed : ∀ d, (s.desc d).freed = true → ∀ u, (s.threads u).refers ≠ some d
  file : ∀ d < s.made, (s.file (s.desc d).file).freed = true →
    (s.desc d).freed = true ∨ ∃ t, (s.threads t).past = some d
  opened : ∀ d < s.made, (s.desc d).file < s.opened
  distinct : ∀ d < s.made, ∀ e < s.made, (s.desc d).file = (s.desc e).file → d = e
  fresh : ∀ t f, (s.threads t).allocates = some f → f < s.opened ∧ (s.file f).freed = false ∧
    (∀ d < s.made, (s.desc d).file ≠ f) ∧ ∀ u, (s.threads u).allocates = some f → u = t

theorem pastHas {pc : Pc} {d : Nat} (past : pc.past = some d) : pc.has = some d := by
  revert past
  unfold Pc.past
  split <;> simp [Pc.has, Stage.has, Stage.refers]

section Living
variable {s s' : State} {t : Nat} {pc : Pc}
  {handler : Handler} {chosen : Nat} {granted : Bool} {stage : Stage} {fd d : Nat}

theorem livingTurn (living : Living s) (turn : Turn s t pc s')
    (points : ∀ d, pc.refers = some d → (s.threads t).refers = some d ∨
      (∀ u, (s.threads u).past ≠ some d) ∧ (s'.desc d).freed = false)
    (past : ∀ d, pc.past = some d → (s.threads t).past = some d ∨
      ∀ u, u ≠ t → (s.threads u).refers ≠ some d)
    (left : ∀ d, (s.threads t).past = some d → pc.past = some d ∨ (s'.desc d).freed = true)
    (kept : ∀ d, (s.desc d).freed = true → (s'.desc d).freed = true)
    (freed : ∀ d, (s'.desc d).freed = true → (s.desc d).freed = true ∨
      (s.threads t).past = some d ∧ pc.refers ≠ some d)
    (file : ∀ d < s'.made, (s'.file (s'.desc d).file).freed = true →
      d < s.made ∧ (s.file (s.desc d).file).freed = true ∨ pc.past = some d)
    (closes : ∀ f, (s'.file f).freed = true → f < s.opened → (s.file f).freed = true ∨
      ∃ d < s.made, (s.desc d).file = f)
    (opened : s.opened ≤ s'.opened)
    (made : ∀ d < s'.made, d < s.made ∧ (s'.desc d).file = (s.desc d).file ∨
      d = s.made ∧ (s.threads t).allocates = some (s'.desc d).file)
    (allocates : ∀ f, pc.allocates = some f → f = s.opened ∧ s.opened < s'.opened ∧
      (s'.file f).freed = false) : Living s' := by
  have theirs {u : Nat} (other : u ≠ t) : s'.threads u = s.threads u := turn.other other
  have unopened {u : Nat} : (s.threads u).allocates ≠ some s.opened := fun there =>
    absurd (living.fresh u _ there).1 (Nat.lt_irrefl _)
  refine ⟨fun v d gone u other now => ?_, fun d gone u now => ?_, fun d young gone => ?_,
    fun d young => ?_, fun d young e young' equal => ?_, fun u f now => ?_⟩
  · by_cases self : v = t
    · rw [self] at other gone
      rw [turn.self] at gone
      rw [theirs other] at now
      rcases past d gone with before | alone
      · exact living.closed t d before u other now
      · exact alone u other now
    · rw [theirs self] at gone
      by_cases mine : u = t
      · rw [mine, turn.self] at now
        rcases points d now with before | ⟨unclosed, _⟩
        · exact living.closed v d gone t (Ne.symm self) before
        · exact unclosed v gone
      · exact living.closed v d gone u other (theirs mine ▸ now)
  · by_cases mine : u = t
    · rw [mine, turn.self] at now
      rcases freed d gone with before | ⟨_, left⟩
      · rcases points d now with old | ⟨_, live⟩
        · exact living.freed d before t old
        · rw [live] at gone
          cases gone
      · exact left now
    · rw [theirs mine] at now
      rcases freed d gone with before | ⟨left, _⟩
      · exact living.freed d before u now
      · exact living.closed t d left u mine now
  · rcases file d young gone with ⟨old, before⟩ | mine
    · rcases living.file d old before with ended | ⟨u, there⟩
      · exact .inl (kept d ended)
      · by_cases self : u = t
        · rcases left d (self ▸ there) with mine | ended
          · exact .inr ⟨t, by rw [turn.self]; exact mine⟩
          · exact .inl ended
        · exact .inr ⟨u, by rw [theirs self]; exact there⟩
    · exact .inr ⟨t, by rw [turn.self]; exact mine⟩
  · rcases made d young with ⟨old, same⟩ | ⟨_, mine⟩
    · rw [same]
      exact Nat.lt_of_lt_of_le (living.opened d old) opened
    · exact Nat.lt_of_lt_of_le (living.fresh t _ mine).1 opened
  · rcases made d young with ⟨old, same⟩ | ⟨new, mine⟩ <;>
      rcases made e young' with ⟨old', same'⟩ | ⟨new', mine'⟩
    · exact living.distinct d old e old' (same.symm.trans (equal.trans same'))
    · exact absurd (same.symm.trans equal) ((living.fresh t _ mine').2.2.1 d old)
    · exact absurd (same'.symm.trans equal.symm) ((living.fresh t _ mine).2.2.1 e old')
    · exact new.trans new'.symm
  · by_cases self : u = t
    · rw [self] at now ⊢
      rw [turn.self] at now
      obtain ⟨rfl, more, live⟩ := allocates f now
      refine ⟨more, live, fun d young => ?_, fun v there => ?_⟩
      · rcases made d young with ⟨old, same⟩ | ⟨_, mine⟩
        · rw [same]
          exact Nat.ne_of_lt (living.opened d old)
        · exact Nat.ne_of_lt (living.fresh t _ mine).1
      · by_contra other
        exact unopened (theirs other ▸ there)
    · rw [theirs self] at now
      obtain ⟨small, live, unused, only⟩ := living.fresh u f now
      refine ⟨Nat.lt_of_lt_of_le small opened, ?_, fun d young => ?_, fun v there => ?_⟩
      · refine Bool.eq_false_iff.mpr fun gone => ?_
        rcases closes f gone small with before | ⟨d, old, same⟩
        · rw [live] at before
          cases before
        · exact unused d old same
      · rcases made d young with ⟨old, same⟩ | ⟨_, mine⟩
        · rw [same]
          exact unused d old
        · intro same
          exact self (only t (same ▸ mine)).symm
      · by_cases mine : v = t
        · rw [mine, turn.self] at there
          rw [(allocates f there).1] at small
          exact absurd small (Nat.lt_irrefl _)
        · exact only v (theirs mine ▸ there)

theorem livingStill (living : Living s) (tabled : Tabled s) (turn : Turn s t pc s')
    (refers : ∀ d, pc.refers = some d → (s.threads t).refers = some d ∨ d ∈ s.filesTab)
    (past : pc.past = (s.threads t).past) (allocates : ∀ f, pc.allocates ≠ some f)
    (made : s'.made = s.made) (opened : s'.opened = s.opened)
    (desc : ∀ d, (s'.desc d).freed = (s.desc d).freed ∧ (s'.desc d).file = (s.desc d).file)
    (file : ∀ f, (s'.file f).freed = (s.file f).freed) : Living s' := by
  refine livingTurn living turn ?_ (fun d mine => .inl (past ▸ mine)) (fun d mine => .inl (past ▸ mine))
    (fun d gone => (desc d).1.trans gone) (fun d gone => .inl ((desc d).1 ▸ gone)) ?_
    (fun f gone _ => .inl (file f ▸ gone)) (Nat.le_of_eq opened.symm)
    (fun d young => .inl ⟨made ▸ young, (desc d).2⟩) (fun f now => absurd now (allocates f))
  · intro d points
    refine (refers d points).imp id fun inside => ⟨fun u gone => ?_, Bool.eq_false_iff.mpr fun gone => ?_⟩
    · exact (tabled.has u d (pastHas gone)).2.1 inside
    · exact (tabled.freed d ((desc d).1 ▸ gone)).2 inside
  · intro d young gone
    rw [(desc d).2, file] at gone
    exact .inl ⟨made ▸ young, gone⟩

theorem livingOpen (living : Living s) (idle : (s.threads t).past = none) :
    Living (({ s with opened := s.opened + 1 }.store s.opened { length := chosen }).become t
      (.opening (.allocate s.opened))) := by
  have file {f : Nat} (small : f < s.opened) :
      Function.update s.file s.opened { length := chosen } f = s.file f :=
    Function.update_of_ne (Nat.ne_of_lt small) _ _
  refine livingTurn living ⟨rfl, rfl⟩ (by simp [Pc.refers, Open.refers]) (by simp [Pc.past])
    (by simp [idle]) (fun d gone => gone) (fun d gone => .inl gone) ?_ ?_ (Nat.le_succ _)
    (fun d young => .inl ⟨young, rfl⟩) ?_
  · intro d young gone
    simp only [State.become, State.store, file (living.opened d young)] at gone
    exact .inl ⟨young, gone⟩
  · intro f gone small
    simp only [State.become, State.store, file small] at gone
    exact .inl gone
  · intro f now
    cases now
    exact ⟨rfl, Nat.lt_succ_self _, by simp [State.become, State.store]⟩

theorem livingMake {f : Nat} {lock : RwLock.State} (living : Living s) (tabled : Tabled s)
    (here : s.threads t = .opening (.allocate f)) :
    Living (({ s with made := s.made + 1 }.put s.made { file := f, lock := lock }).become t
      (.opening (.number f s.made))) := by
  obtain ⟨small, live, _, _⟩ := living.fresh t f (by rw [here]; rfl)
  have desc {d : Nat} (young : d < s.made) :
      Function.update s.desc s.made { file := f, lock := lock } d = s.desc d :=
    Function.update_of_ne (Nat.ne_of_lt young) _ _
  have old {d : Nat} (young : d < s.made + 1) (other : d ≠ s.made) : d < s.made := by omega
  refine livingTurn living ⟨rfl, rfl⟩ ?_ (by simp [Pc.past]) (by simp [here, Pc.past]) ?_ ?_ ?_
    (fun f gone _ => .inl gone) (Nat.le_refl _) ?_ (by simp [Pc.allocates])
  · intro d points
    cases points
    refine .inr ⟨fun u gone => ?_, by simp [State.become, State.put]⟩
    exact Nat.lt_irrefl _ (tabled.has u _ (pastHas gone)).1
  · intro d gone
    simp only [State.become, State.put, desc (tabled.freed d gone).1]
    exact gone
  · intro d gone
    refine .inl ?_
    have other : d ≠ s.made := by
      rintro rfl
      simp [State.become, State.put] at gone
    simpa only [State.become, State.put, Function.update_of_ne other] using gone
  · intro d young gone
    by_cases same : d = s.made
    · simp [State.become, State.put, same, live] at gone
    · simp only [State.become, State.put, desc (old young same)] at gone
      exact .inl ⟨old young same, gone⟩
  · intro d young
    by_cases same : d = s.made
    · exact .inr ⟨same, by simp [State.become, State.put, same, here, Pc.allocates]⟩
    · exact .inl ⟨old young same, by simp only [State.become, State.put, desc (old young same)]⟩

theorem closesAlone {fd d u : Nat} (tabled : Tabled s) (passing : Passing s)
    (here : s.threads t = .call .close fd (.fileClose d)) (quiet : s.pending u d = false)
    (other : u ≠ t) : (s.threads u).refers ≠ some d := by
  intro points
  obtain ⟨young, outside, _, only⟩ := tabled.has t d (by rw [here]; rfl)
  have unheld (theirs : (s.threads u).has = some d) : False := other (only u theirs)
  have unseen (seen : d ∈ (s.threads u).sees) : False := outside (tabled.sees u d seen)
  have fits := tabled.fits u
  have inv := passing.inv d young
  have inside : (s.desc d).lock.pc t = .inside false := by
    have admits := (passing.stands d young t).within false .inside (by rw [here]; rfl)
    revert admits
    cases (s.desc d).lock.pc t <;> simp [RwLock.Phase.admits]
  have idle := RwLock.soleWriter inv inside other
  have stands := passing.stands d young u
  have left := passing.entered d young t u (Ne.symm other) inside
  cases their : s.threads u with
  | user | done result => rw [their] at points; cases points
  | opening stage =>
    rw [their] at points unheld unseen
    simp only [State.pending, their] at quiet
    cases stage <;> simp only [Pc.refers, Open.refers, Option.some.injEq, reduceCtorEq] at points
    case number f e | lock f e | push f e => exact unheld (by rw [points]; rfl)
    case increment f e | unlock f e => exact unseen (by rw [points]; exact List.mem_singleton_self d)
    case result f e => simp [points] at quiet
  | call handler fd stage =>
    rw [their] at points unheld unseen fits stands
    simp only [State.pending, their] at quiet
    -- a reader that has the lock is active, or is about to leave the monitor
    have reading {phase : RwLock.Phase} (within : (Pc.call handler fd stage).within =
        some (d, true, phase)) (later : phase ≠ .acquiring) : False := by
      have admits := stands.within true phase within
      have idle := idle true
      revert admits idle left
      cases phase <;> cases (s.desc d).lock.pc u <;>
        simp +contextual [RwLock.Phase.admits, RwLock.Pc.active, RwLock.Pc.leaving] at later ⊢
    cases stage with
    | lock | search rest => cases points
    | found e =>
      cases points
      exact unseen (List.mem_singleton_self d)
    | unlock pos result =>
      cases points
      cases handler <;> first | exact unheld rfl | exact unseen (List.mem_singleton_self d)
    | acquire e =>
      cases points
      cases handler <;> try cases fits
      · exact unheld rfl
      · have idle := idle true
        simp [idle] at quiet
    | fileClose e | free e =>
      cases points
      cases handler <;> first | exact unheld rfl | cases fits
    | transfer e | advance e bytes =>
      cases points
      cases handler <;> try cases fits
      · exact reading rfl RwLock.Phase.noConfusion
      · simp at quiet
    | release e result =>
      cases points
      cases handler <;> try cases fits
      · exact unheld rfl
      · exact reading rfl RwLock.Phase.noConfusion

theorem livingClose (living : Living s) (tabled : Tabled s)
    (here : s.threads t = .call .close fd (.fileClose d))
    (alone : ∀ u, u ≠ t → (s.threads u).refers ≠ some d) :
    Living ((s.store (s.desc d).file { s.file (s.desc d).file with freed := true }).become t
      (.call .close fd (.release d 0))) := by
  have young := (tabled.has t d (by rw [here]; rfl)).1
  refine livingTurn living ⟨rfl, rfl⟩ (fun e points => .inl (by rw [here]; exact points)) ?_
    (by simp [here, Pc.past]) (fun e gone => gone) (fun e gone => .inl gone) ?_ ?_ (Nat.le_refl _)
    (fun e small => .inl ⟨small, rfl⟩) (by simp [Pc.allocates])
  · intro e mine
    cases mine
    exact .inr alone
  · intro e small gone
    by_cases same : e = d
    · exact .inr (by rw [same]; rfl)
    · have apart : (s.desc e).file ≠ (s.desc d).file := fun equal =>
        same (living.distinct e small d young equal)
      simp only [State.become, State.store, Function.update_of_ne apart] at gone
      exact .inl ⟨small, gone⟩
  · intro f gone _
    by_cases same : f = (s.desc d).file
    · exact .inr ⟨d, young, same.symm⟩
    · simp only [State.become, State.store, Function.update_of_ne same] at gone
      exact .inl gone

theorem livingFree (living : Living s)
    (here : s.threads t = .call .close fd (.free d)) :
    Living ((s.put d { s.desc d with freed := true }).become t (.done 0)) := by
  have past : (s.threads t).past = some d := by rw [here]; rfl
  have file (e : Nat) :
      (Function.update s.desc d { s.desc d with freed := true } e).file = (s.desc e).file := by
    by_cases same : e = d <;> simp [same]
  refine livingTurn living ⟨rfl, rfl⟩ (by simp [Pc.refers]) (by simp [Pc.past]) ?_ ?_ ?_ ?_
    (fun f gone _ => .inl gone) (Nat.le_refl _) (fun e small => .inl ⟨small, file e⟩)
    (by simp [Pc.allocates])
  · intro e mine
    obtain rfl := Option.some.inj (past.symm.trans mine)
    exact .inr (by simp [State.become, State.put])
  · intro e gone
    by_cases same : e = d <;> simp [State.become, State.put, same, gone]
  · intro e gone
    by_cases same : e = d
    · exact .inr ⟨same ▸ past, by simp [Pc.refers]⟩
    · exact .inl (by simpa only [State.become, State.put, Function.update_of_ne same] using gone)
  · intro e small gone
    simp only [State.become, State.put, file] at gone
    exact .inl ⟨small, gone⟩

theorem livingChanges (living : Living s) (tabled : Tabled s) (passing : Passing s)
    (quiet : ∀ d ∈ (s.threads t).closes, ∀ u < s.count, s.pending u d = false)
    (changes : Changes s t s') : Living s' := by
  cases changes with
  | opens chosen here => exact livingOpen living (by rw [here]; rfl)
  | makes f here => exact livingMake living tabled here
  | pushes f d here | removes fd d here =>
    exact livingStill living tabled ⟨rfl, rfl⟩ (fun e points => .inl (by rw [here]; exact points))
      (by rw [here]; rfl) (by simp [Pc.allocates]) rfl rfl (fun _ => ⟨rfl, rfl⟩) (fun _ => rfl)
  | closes fd d here =>
    refine livingClose living tabled here fun u other points => ?_
    have young : u < s.count := tabled.within fun user => by
      rw [user] at points
      cases points
    exact closesAlone tabled passing here (quiet d (by rw [here]; rfl) u young) other points
  | frees fd d here => exact livingFree living here

theorem livingStep {a : Action} (living : Living s) (tabled : Tabled s) (passing : Passing s)
    (quiet : Quiet s a) (ok : step s a = .ok s') : Living s' := by
  obtain ⟨t, _, ⟨still, _, _⟩ | changes, runs⟩ := stepMoves tabled.fits tabled.sees ok
  · exact livingStill living tabled still.turn still.refers still.past (by simp [still.allocates])
      still.made still.opened (fun d => ⟨still.freed d, still.files d⟩) still.closed
  · refine livingChanges living tabled passing (fun d closes => ?_) changes
    obtain ⟨granted, chosen, rfl⟩ := runs fun user => by
      rw [user] at closes
      cases closes
    exact quiet d closes

theorem livingBoot (count : Nat) : Living (boot count) := by
  constructor <;> simp [boot, Pc.past, Pc.allocates]

theorem openSafe {stage : Open} (living : Living s)
    (tabled : Tabled s) (here : s.threads t = .opening stage) :
    Fails (handlerOpen s t granted chosen stage) (· ≠ .freed) := by
  have live (d : Nat) (points : stage.refers = some d) : (s.desc d).freed = false :=
    Bool.eq_false_iff.mpr fun gone => living.freed d gone t (by rw [here]; exact points)
  have inTable (d : Nat) (inside : d ∈ s.filesTab) : (s.desc d).freed = false :=
    Bool.eq_false_iff.mpr fun gone => (tabled.freed d gone).2 inside
  cases stage with
  | filesysOpen | allocate f | lock f d | unlock f d => simp [handlerOpen]
  | number f d | result f d => simp [handlerOpen, live d rfl]
  | push f d =>
    refine failsBind.mpr ⟨failsAllow.mpr fun dead => ?_, fun _ _ => failsOk.mpr trivial⟩
    refine absurd (fun e mem => ?_) dead
    rcases List.mem_cons.mp mem with rfl | near
    · exact live e rfl
    · exact inTable e (List.mem_of_head? (Option.mem_toList.mp near))
  | increment f d => exact failsOk.mpr trivial

theorem handleSafe {fd chosen : Nat} (living : Living s)
    (tabled : Tabled s) (here : s.threads t = .call handler fd stage) :
    Fails (handle s t handler fd chosen stage) (· ≠ .freed) := by
  have fits : (Pc.call handler fd stage).fits = true := here ▸ tabled.fits t
  have live (d : Nat) (points : stage.refers = some d) : (s.desc d).freed = false :=
    Bool.eq_false_iff.mpr fun gone => living.freed d gone t (by rw [here]; exact points)
  have inTable (d : Nat) (inside : d ∈ s.filesTab) : (s.desc d).freed = false :=
    Bool.eq_false_iff.mpr fun gone => (tabled.freed d gone).2 inside
  -- the file is closed by the thread that has the descriptor, and then nobody else points at it
  have kept (d : Nat) (points : stage.refers = some d) (early : (Pc.call handler fd stage).past = none) :
      (s.file (s.desc d).file).freed = false := by
    have refers : (s.threads t).refers = some d := by rw [here]; exact points
    refine Bool.eq_false_iff.mpr fun gone => ?_
    rcases living.file d (tabled.refers t d refers) gone with dead | ⟨u, past⟩
    · exact living.freed d dead t refers
    · by_cases self : t = u
      · rw [← self, here, early] at past
        cases past
      · exact living.closed u d past t self refers
  cases stage with
  | lock => simp [handle]
  | search rest =>
    cases rest with
    | nil => exact failsOk.mpr trivial
    | cons d rest =>
      have inside := tabled.sees t d (by rw [here]; exact List.mem_cons_self)
      simp [handle, inTable d inside]
  | found d =>
    have early : (Pc.call handler fd (.found d)).past = none := by cases handler <;> rfl
    have atFile {f : File → Except Fault (File × Int)}
        (safe : ∀ file : File, file.freed = false → Fails (f file) (· ≠ .freed)) :
        Fails (atFound.atFile s d f) (· ≠ .freed) := by
      simp only [atFound.atFile, failsBind, failsAllow, endsAllow, Desc.use, live d rfl]
      refine ⟨fun no => absurd trivial no, fun _ => ⟨safe _ (kept d rfl early), fun _ _ => failsOk.mpr trivial⟩⟩
    simp only [handle, failsBind]
    refine ⟨?_, fun _ _ => failsOk.mpr trivial⟩
    cases handler with
    | close =>
      refine failsBind.mpr ⟨failsAllow.mpr fun dead => ?_, fun _ _ => failsOk.mpr trivial⟩
      refine absurd (fun e mem => ?_) dead
      rcases List.mem_cons.mp mem with rfl | near
      · exact live e rfl
      · exact inTable e (DoublyLinked.besideMem near)
    | filesize => exact atFile fun file alive => by simp [fileLength, alive]
    | tell => exact atFile fun file alive => by simp [fileTell, alive]
    | seek newPos => exact atFile fun file alive => by simp [fileSeek, alive]
    | read size | write size => exact failsOk.mpr trivial
  | unlock pos result =>
    refine failsBind.mpr ⟨by simp, fun _ _ => ?_⟩
    cases pos <;> exact failsOk.mpr trivial
  | acquire d | release d result | free d => simp [handle, live d rfl]
  | fileClose d =>
    have early : (Pc.call handler fd (.fileClose d)).past = none := by cases handler <;> rfl
    simp [handle, fileClose, live d rfl, kept d rfl early]
  | transfer d =>
    have early : (Pc.call handler fd (.transfer d)).past = none := by cases handler <;> rfl
    simp [handle, live d rfl, kept d rfl early]
  | advance d bytes =>
    have early : (Pc.call handler fd (.advance d bytes)).past = none := by cases handler <;> rfl
    simp [handle, fileAdvance, live d rfl, kept d rfl early]

theorem livingRun {count : Nat} (run : Run step Quiet (boot count) s) :
    Tabled s ∧ Living s := by
  have kept := run.invariant (fun s => Tabled s ∧ Passing s ∧ Living s)
    ⟨tabledBoot count, passingBoot count, livingBoot count⟩ fun u v a inv allowed moved =>
      ⟨tabledStep inv.1 moved, passingStep inv.2.1 inv.1 moved,
        livingStep inv.2.2 inv.1 inv.2.1 allowed moved⟩
  exact ⟨kept.1, kept.2.2⟩

/-- No statement of a handler uses a freed file_desc or a closed file, and once handler_close has
closed the file no other thread points at the file_desc any more. -/
theorem descriptorsLive {count : Nat} (run : Run step Quiet (boot count) s) :
    (∀ a f, step s a = .error f → f ≠ .freed) ∧
    ∀ t d, (s.threads t).past = some d → ∀ u, u ≠ t → (s.threads u).refers ≠ some d := by
  obtain ⟨tabled, living⟩ := livingRun run
  refine ⟨fun a f fails => ?_, living.closed⟩
  cases a with
  | opens t | call t handler fd =>
    simp only [step] at fails
    split at fails <;> cases fails
    exact Fault.noConfusion
  | run t granted chosen =>
    simp only [step] at fails
    split at fails
    · unfold runThread at fails
      split at fails
      · rename_i stage here
        exact openSafe living tabled here f fails
      · rename_i handler fd stage here
        exact handleSafe living tabled here f fails
      · cases fails
      · cases fails
        exact Fault.noConfusion
    · cases fails
      exact Fault.noConfusion

def hasOpened (t : Nat) : List Action := .opens t :: List.replicate 9 (.run t true 0)

theorem descriptorsLiveExample : ∃ s, Run step Quiet (boot 2) s ∧
    s.threads 0 = .call .close 3 (.free 0) ∧ (s.threads 1).refers = none ∧
    ∀ a f, step s a = .error f → f ≠ .freed := by
  obtain ⟨s, run, found⟩ := execFinds step Quiet (boot 2)
    (hasOpened 0 ++ [.call 1 (.read 4) 3] ++ List.replicate 9 (.run 1 true 4) ++
      [.call 0 .close 3] ++ List.replicate 9 (.run 0 true 0) ++ List.replicate 7 (.run 1 true 0) ++
      List.replicate 11 (.run 0 true 0))
    (fun s => decide (s.threads 0 = .call .close 3 (.free 0) ∧ (s.threads 1).refers = none))
    (by decide +kernel)
  obtain ⟨here, gone⟩ := of_decide_eq_true found
  exact ⟨s, run, here, gone, (descriptorsLive run).1⟩

theorem descriptorsMistaken :
    (∃ s, Run step (fun _ _ => True) (boot 2) s ∧ s.threads 1 = .call (.write 4) 3 (.transfer 0) ∧
      ∀ granted chosen, step s (.run 1 granted chosen) = .error .freed) ∧
    (∃ s, Run step (fun _ _ => True) (boot 2) s ∧ s.threads 1 = .call (.read 4) 3 (.acquire 0) ∧
      ∀ granted chosen, step s (.run 1 granted chosen) = .error .freed) := by
  refine ⟨?_, ?_⟩
  · obtain ⟨s, run, found⟩ := execFinds step (fun _ _ => True) (boot 2)
      (hasOpened 0 ++ [.call 1 (.write 4) 3] ++ List.replicate 4 (.run 1 true 0) ++
        [.call 0 .close 3] ++ List.replicate 16 (.run 0 true 0))
      (fun s => decide (s.count = 2 ∧ s.threads 1 = .call (.write 4) 3 (.transfer 0) ∧
        (s.desc 0).freed = true)) (by decide +kernel)
    obtain ⟨count, here, gone⟩ := of_decide_eq_true found
    refine ⟨s, run, here, fun granted chosen => ?_⟩
    simp only [step, count, Nat.one_lt_two, if_true, runThread, here, handle, Desc.use, allow, gone]
    rfl
  · obtain ⟨s, run, found⟩ := execFinds step (fun _ _ => True) (boot 2)
      (hasOpened 0 ++ [.call 1 (.read 4) 3] ++ List.replicate 4 (.run 1 true 0) ++
        [.call 0 .close 3] ++ List.replicate 16 (.run 0 true 0))
      (fun s => decide (s.count = 2 ∧ s.threads 1 = .call (.read 4) 3 (.acquire 0) ∧
        (s.desc 0).freed = true ∧ (s.desc 0).lock.pc 1 = .out)) (by decide +kernel)
    obtain ⟨count, here, gone, out⟩ := of_decide_eq_true found
    refine ⟨s, run, here, fun granted chosen => ?_⟩
    simp only [step, count, Nat.one_lt_two, if_true, runThread, here, handle, Desc.use, allow, gone, out,
      reduceCtorEq, if_false]
    rfl

end Living
end Pintos.Files
