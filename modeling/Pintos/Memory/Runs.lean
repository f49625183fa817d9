import Mathlib.Data.List.Perm.Basic
import Mathlib.Data.List.Pairwise
import Pintos.Memory.Palloc

/-! The pages that are outstanding: those of the runs that were obtained, and those a call is at
work on. Every page has one holder, and its bit is set exactly while it has one. -/
namespace Pintos.Palloc
open Kernel Machine
open Memory (pgSize)
open Function (update update_of_ne update_self)

def Within (n : Nat) (x : Nat × Nat) : Prop := x.1 ≤ n ∧ n < x.2

def Run.span (r : Run) : Nat × Nat := (pgNo r.pages, pgNo r.pages + r.pageCnt)

def State.first (s : State) (w : Which) : Nat := pgNo (s.pool w).base

def State.bitCnt (s : State) (w : Which) : Nat := (s.pool w).usedMap.bitCnt

def State.bit (s : State) (w : Which) (i : Nat) : Bool := (s.pool w).usedMap.bit i

def Pc.held (first : Which → Nat) : Pc → Nat × Nat
  | .flip w _ _ idx j => (first w + idx, first w + idx + j)
  | .found w cnt _ idx => (first w + idx, first w + idx + cnt)
  | .check w idx cnt _ => (first w + idx, first w + idx + cnt)
  | .clear w idx cnt j => (first w + idx + j, first w + idx + cnt)
  | .idle | .acquire _ _ _ | .scan _ _ _ _ _ _ | .failed _ _ _ _ => (0, 0)

def State.held (s : State) (t : Nat) : Nat × Nat := (s.thread t).held s.first

def Covered (runs : List Run) (held : Nat → Nat × Nat) (n : Nat) : Prop :=
  (∃ r ∈ runs, Within n r.span) ∨ ∃ t, Within n (held t)

def Outstanding (s : State) (n : Nat) : Prop := Covered s.runs s.held n

structure Laid (pool : Which → Pool) : Prop where
  whole : ∀ w, (pool w).base % pgSize = 0
  real : ∀ w, 0 < (pool w).base
  below : ∀ w, (pool w).usedMapAt + bitmapBufSize (pool w).usedMap.bitCnt ≤ (pool w).base
  apart : (pool .kernel).base + pgSize * (pool .kernel).usedMap.bitCnt ≤ (pool .user).usedMapAt

structure Sole (runs : List Run) (held : Nat → Nat × Nat) : Prop where
  pairs : runs.Pairwise fun r r' => ∀ n, Within n r.span → ¬Within n r'.span
  mixed : ∀ r ∈ runs, ∀ t n, Within n r.span → ¬Within n (held t)
  threads : ∀ t t' n, t ≠ t' → Within n (held t) → ¬Within n (held t')

def Pc.Fits (lock : Which → Option Nat) (map : Which → Bitmap) (t : Nat) : Pc → Prop
  | .idle => True
  | .acquire _ cnt _ => 0 < cnt
  | .scan w cnt _ i j began => 0 < cnt ∧ lock w = some t ∧ j ≤ cnt ∧
      (∀ x < j, (map w).bit (i + x) = false) ∧ (∀ x, (map w).bit x = true → began.bit x = true) ∧
      ∀ k < i, ∃ x < cnt, began.bit (k + x) = true
  | .flip w cnt _ idx j => 0 < cnt ∧ lock w = some t ∧ j ≤ cnt ∧ idx + cnt ≤ (map w).bitCnt ∧
      ∀ x, j ≤ x → x < cnt → (map w).bit (idx + x) = false
  | .found w cnt _ idx => 0 < cnt ∧ lock w = some t ∧ idx + cnt ≤ (map w).bitCnt
  | .failed w cnt _ began => lock w = some t ∧
      ∀ k, k + cnt ≤ (map w).bitCnt → ∃ x < cnt, began.bit (k + x) = true
  | .check w idx cnt j => idx + cnt ≤ (map w).bitCnt ∧ j ≤ cnt
  | .clear w idx cnt j => idx + cnt ≤ (map w).bitCnt ∧ j ≤ cnt

def State.Fits (s : State) (t : Nat) (pc : Pc) : Prop :=
  pc.Fits s.lock (fun w => (s.pool w).usedMap) t

structure Owned (s : State) : Prop where
  laid : Laid s.pool
  placed : ∀ r ∈ s.runs, ∃ idx, r.pages = (s.pool r.pool).base + pgSize * idx ∧ 0 < r.pageCnt ∧
    idx + r.pageCnt ≤ s.bitCnt r.pool
  fits : ∀ t, s.Fits t (s.thread t)
  bits : ∀ w i, i < s.bitCnt w → (s.bit w i = true ↔ Outstanding s (s.first w + i))
  sole : Sole s.runs s.held

section Pages
variable {pool : Which → Pool} {s : State}

theorem samePage (laid : Laid pool) {w w' : Which} {i i' : Nat}
    (inside : i < (pool w).usedMap.bitCnt) (inside' : i' < (pool w').usedMap.bitCnt)
    (same : pgNo (pool w).base + i = pgNo (pool w').base + i') : w = w' ∧ i = i' := by
  have kernel := laid.whole .kernel
  have user := laid.whole .user
  have below := laid.below .user
  have apart := laid.apart
  unfold pgNo pgSize at *
  cases w <;> cases w' <;> simp only [true_and, reduceCtorEq, false_and] <;> omega

theorem runSpan {w : Which} {idx cnt : Nat} :
    (Run.mk w ((pool w).base + pgSize * idx) cnt).span =
      (pgNo (pool w).base + idx, pgNo (pool w).base + idx + cnt) := by
  have number : pgNo ((pool w).base + pgSize * idx) = pgNo (pool w).base + idx := by
    unfold pgNo pgSize
    omega
  rw [Run.span, number]

end Pages

section Keep
variable {lock lock' : Which → Option Nat} {map map' : Which → Bitmap} {t : Nat} {pc : Pc}

theorem fitsKeep (fits : pc.Fits lock map t)
    (kept : ∀ w, lock w = some t →
      lock' w = some t ∧ ∀ x, (map' w).bit x = true → (map w).bit x = true)
    (same : ∀ w, (map' w).bitCnt = (map w).bitCnt) : pc.Fits lock' map' t := by
  have clear {w : Which} (mine : lock w = some t) {x : Nat} (off : (map w).bit x = false) :
      (map' w).bit x = false := by
    cases on : (map' w).bit x with
    | false => rfl
    | true => rw [(kept w mine).2 x on] at off; cases off
  cases pc with
  | idle => trivial
  | acquire w cnt asserts => exact fits
  | scan w cnt asserts i j began =>
    obtain ⟨positive, mine, bound, off, fewer, blocked⟩ := fits
    exact ⟨positive, (kept w mine).1, bound, fun x less => clear mine (off x less),
      fun x on => fewer x ((kept w mine).2 x on), blocked⟩
  | flip w cnt asserts idx j =>
    obtain ⟨positive, mine, bound, inside, off⟩ := fits
    exact ⟨positive, (kept w mine).1, bound, (same w).symm ▸ inside,
      fun x low high => clear mine (off x low high)⟩
  | found w cnt asserts idx =>
    obtain ⟨positive, mine, inside⟩ := fits
    exact ⟨positive, (kept w mine).1, (same w).symm ▸ inside⟩
  | failed w cnt asserts began =>
    obtain ⟨mine, blocked⟩ := fits
    exact ⟨(kept w mine).1, (same w).symm ▸ blocked⟩
  | check w idx cnt j | clear w idx cnt j => exact ⟨(same w).symm ▸ fits.1, fits.2⟩

end Keep

section Holders
variable {s s' : State} {t : Nat}

def Others (s : State) (t n : Nat) : Prop :=
  (∃ r ∈ s.runs, Within n r.span) ∨ ∃ u, u ≠ t ∧ Within n (s.held u)

theorem outstandingOthers {n : Nat} : Outstanding s n ↔ Others s t n ∨ Within n (s.held t) := by
  constructor
  · rintro (run | ⟨u, within⟩)
    · exact .inl (.inl run)
    · by_cases mine : u = t
      · exact .inr (mine ▸ within)
      · exact .inl (.inr ⟨u, mine, within⟩)
  · rintro ((run | ⟨u, -, within⟩) | within)
    · exact .inl run
    · exact .inr ⟨u, within⟩
    · exact .inr ⟨t, within⟩

theorem othersApart (sole : Sole s.runs s.held) {n : Nat} (others : Others s t n) : ¬Within n (s.held t) := by
  rcases others with ⟨r, among, within⟩ | ⟨u, other, within⟩
  · exact sole.mixed r among t n within
  · exact sole.threads u t n other within

structure Shifts (s s' : State) (t : Nat) : Prop where
  runs : s'.runs = s.runs
  others : ∀ u, u ≠ t → s'.held u = s.held u

theorem shiftOthers (shifts : Shifts s s' t) {n : Nat} : Others s' t n ↔ Others s t n := by
  unfold Others
  rw [shifts.runs]
  refine or_congr_right (exists_congr fun u => and_congr_right fun other => ?_)
  rw [shifts.others u other]

theorem shiftSole (sole : Sole s.runs s.held) (shifts : Shifts s s' t)
    (fresh : ∀ n, Within n (s'.held t) → ¬Others s t n) : Sole s'.runs s'.held := by
  refine ⟨shifts.runs ▸ sole.pairs, ?_, ?_⟩
  · intro r among u n within
    rw [shifts.runs] at among
    by_cases mine : u = t
    · exact fun held => fresh n (mine ▸ held) (.inl ⟨r, among, within⟩)
    · rw [shifts.others u mine]
      exact sole.mixed r among u n within
  · intro u v n differ first second
    by_cases one : u = t
    · have other : v ≠ t := fun two => differ (one.trans two.symm)
      rw [shifts.others v other] at second
      exact fresh n (one ▸ first) (.inr ⟨v, other, second⟩)
    · rw [shifts.others u one] at first
      by_cases two : v = t
      · exact fresh n (two ▸ second) (.inr ⟨u, one, first⟩)
      · rw [shifts.others v two] at second
        exact sole.threads u v n differ first second

end Holders

section Hands
variable {runs : List Run} {held held' : Nat → Nat × Nat} {t : Nat} {r : Run}

structure Hands (held held' : Nat → Nat × Nat) (t : Nat) (r : Run) : Prop where
  mine : held t = r.span
  none : ∀ n, ¬Within n (held' t)
  others : ∀ u, u ≠ t → held' u = held u

theorem handCovered (hands : Hands held held' t r) {n : Nat} :
    Covered (r :: runs) held' n ↔ Covered runs held n := by
  constructor
  · rintro (⟨r', among, within⟩ | ⟨u, within⟩)
    · rcases List.mem_cons.mp among with rfl | before
      · exact .inr ⟨t, hands.mine ▸ within⟩
      · exact .inl ⟨r', before, within⟩
    · by_cases this : u = t
      · exact absurd (this ▸ within) (hands.none n)
      · exact .inr ⟨u, hands.others u this ▸ within⟩
  · rintro (⟨r', among, within⟩ | ⟨u, within⟩)
    · exact .inl ⟨r', List.mem_cons_of_mem r among, within⟩
    · by_cases this : u = t
      · subst this
        exact .inl ⟨r, List.mem_cons_self, hands.mine ▸ within⟩
      · exact .inr ⟨u, (hands.others u this).symm ▸ within⟩

theorem handSole (hands : Hands held held' t r) : Sole (r :: runs) held' ↔ Sole runs held := by
  constructor
  · intro sole
    obtain ⟨first, rest⟩ := List.pairwise_cons.mp sole.pairs
    refine ⟨rest, fun r' among u n within => ?_, fun u v n differ one two => ?_⟩
    · by_cases this : u = t
      · rw [this, hands.mine]
        exact fun both => first r' among n both within
      · rw [← hands.others u this]
        exact sole.mixed r' (List.mem_cons_of_mem r among) u n within
    · have mixed {v : Nat} (other : v ≠ t) (one : Within n (held t)) (two : Within n (held v)) :
          False := by
        rw [hands.mine] at one
        rw [← hands.others v other] at two
        exact sole.mixed r List.mem_cons_self v n one two
      by_cases this : u = t
      · subst this
        exact mixed differ.symm one two
      · by_cases that : v = t
        · subst that
          exact mixed this two one
        · rw [← hands.others u this] at one
          rw [← hands.others v that] at two
          exact sole.threads u v n differ one two
  · intro sole
    refine ⟨List.pairwise_cons.mpr ⟨fun r' among n within within' => ?_, sole.pairs⟩,
      fun r' among u n within held => ?_, fun u v n differ one two => ?_⟩
    · exact sole.mixed r' among t n within' (hands.mine ▸ within)
    · have other : u ≠ t := fun this => hands.none n (this ▸ held)
      rw [hands.others u other] at held
      rcases List.mem_cons.mp among with rfl | before
      · exact sole.threads t u n other.symm (hands.mine ▸ within) held
      · exact sole.mixed r' before u n within held
    · have first : u ≠ t := fun this => hands.none n (this ▸ one)
      have second : v ≠ t := fun this => hands.none n (this ▸ two)
      rw [hands.others u first] at one
      rw [hands.others v second] at two
      exact sole.threads u v n differ one two

theorem permSole {runs' : List Run} (perm : runs.Perm runs') (sole : Sole runs held) :
    Sole runs' held := by
  refine ⟨(perm.pairwise_iff fun {_ _} apart n one two => apart n two one).mp sole.pairs, ?_,
    sole.threads⟩
  exact fun r among => sole.mixed r (perm.mem_iff.mpr among)

theorem permCovered {runs' : List Run} (perm : runs.Perm runs') {n : Nat} :
    Covered runs held n ↔ Covered runs' held n := by
  unfold Covered
  simp only [perm.mem_iff]

end Hands

section Steps
variable {s s' : State} {t : Nat} {w : Which} {cnt idx i j : Nat} {asserts : Bool} {began : Bitmap}
  {pc : Pc}

structure SameShape (s s' : State) : Prop where
  base : ∀ w, (s'.pool w).base = (s.pool w).base
  mapAt : ∀ w, (s'.pool w).usedMapAt = (s.pool w).usedMapAt
  bitCnt : ∀ w, s'.bitCnt w = s.bitCnt w

theorem SameShape.laid (same : SameShape s s') (laid : Laid s.pool) : Laid s'.pool := by
  have cnt (w : Which) : (s'.pool w).usedMap.bitCnt = (s.pool w).usedMap.bitCnt := same.bitCnt w
  constructor
  · simpa only [same.base] using laid.whole
  · simpa only [same.base] using laid.real
  · simpa only [same.base, same.mapAt, cnt] using laid.below
  · simpa only [same.base, same.mapAt, cnt] using laid.apart

theorem SameShape.first (same : SameShape s s') : s'.first = s.first := by
  funext w
  rw [State.first, State.first, same.base]

theorem SameShape.placed (same : SameShape s s') (owned : Owned s) {r : Run} (among : r ∈ s.runs) :
    ∃ idx, r.pages = (s'.pool r.pool).base + pgSize * idx ∧ 0 < r.pageCnt ∧
      idx + r.pageCnt ≤ s'.bitCnt r.pool := by
  obtain ⟨idx, placed⟩ := owned.placed r among
  exact ⟨idx, by rwa [same.base, same.bitCnt]⟩

theorem ownedShift (owned : Owned s) (same : SameShape s s') (runs : s'.runs = s.runs)
    (others : ∀ u, u ≠ t → s'.thread u = s.thread u)
    (kept : ∀ u, u ≠ t → ∀ w, s.lock w = some u →
      s'.lock w = some u ∧ ∀ x, s'.bit w x = true → s.bit w x = true)
    (fits : s'.Fits t (s'.thread t)) (fresh : ∀ n, Within n (s'.held t) → ¬Others s t n)
    (bits : ∀ w i, i < s.bitCnt w →
      (s'.bit w i = true ↔ Others s t (s.first w + i) ∨ Within (s.first w + i) (s'.held t))) :
    Owned s' := by
  have shifts : Shifts s s' t :=
    ⟨runs, fun u other => by rw [State.held, State.held, others u other, same.first]⟩
  refine ⟨same.laid owned.laid, fun r among => same.placed owned (runs ▸ among), fun u => ?_,
    fun w i inside => ?_, shiftSole owned.sole shifts fresh⟩
  · by_cases mine : u = t
    · exact mine ▸ fits
    · rw [others u mine]
      exact fitsKeep (owned.fits u) (kept u mine) same.bitCnt
  · rw [same.bitCnt] at inside
    rw [bits w i inside, same.first, outstandingOthers (t := t), shiftOthers shifts]

theorem ownedGoto (owned : Owned s) {lock : Which → Option Nat}
    (kept : ∀ u, u ≠ t → ∀ w, s.lock w = some u → lock w = some u)
    (held : ∀ n, Within n (pc.held s.first) ↔ Within n (s.held t))
    (fits : pc.Fits lock (fun w => (s.pool w).usedMap) t) :
    Owned { s with lock := lock, thread := update s.thread t pc } := by
  have now : State.held { s with lock := lock, thread := update s.thread t pc } t =
      pc.held s.first := by
    simp only [State.held, update_self]
    rfl
  refine ownedShift (t := t) owned ⟨fun _ => rfl, fun _ => rfl, fun _ => rfl⟩ rfl
    (fun u other => update_of_ne other ..)
    (fun u other w mine => ⟨kept u other w mine, fun _ on => on⟩) ?_ ?_ ?_
  · simp only [State.Fits, update_self]
    exact fits
  · intro n within others
    rw [now, held] at within
    exact othersApart owned.sole others within
  · intro w i inside
    rw [now, held]
    exact (owned.bits w i inside).trans (outstandingOthers (t := t))

theorem setMapShape {map : Bitmap} (same : map.bitCnt = s.bitCnt w) : SameShape s (s.setMap w map) := by
  constructor <;> intro w'
  · by_cases here : w' = w
    · simp [State.setMap, here]
    · simp [State.setMap, update_of_ne here]
  · by_cases here : w' = w
    · simp [State.setMap, here]
    · simp [State.setMap, update_of_ne here]
  · by_cases here : w' = w
    · simp [State.bitCnt, State.setMap, here, same]
    · simp [State.bitCnt, State.setMap, update_of_ne here]

theorem setMapBit {map : Bitmap} (w' : Which) (x : Nat) :
    (s.setMap w map).bit w' x = if w' = w then map.bit x else s.bit w' x := by
  by_cases here : w' = w
  all_goals simp [State.bit, State.setMap, here]

theorem ownedBit (owned : Owned s) {map : Bitmap} {x : Nat} {value : Bool} (inside : x < s.bitCnt w)
    (same : map.bitCnt = s.bitCnt w)
    (bits : ∀ y, map.bit y = if y = x then value else s.bit w y)
    (elsewhere : ∀ n, n ≠ s.first w + x → (Within n (pc.held s.first) ↔ Within n (s.held t)))
    (alone : ¬Others s t (s.first w + x))
    (here : value = true ↔ Within (s.first w + x) (pc.held s.first))
    (kept : ∀ u, u ≠ t → s.lock w = some u → value = false)
    (fits : pc.Fits s.lock (fun w' => ((s.setMap w map).pool w').usedMap) t) :
    Owned ((s.setMap w map).goto t pc) := by
  have shape : SameShape s ((s.setMap w map).goto t pc) :=
    ⟨(setMapShape same).base, (setMapShape same).mapAt, (setMapShape same).bitCnt⟩
  have now : ((s.setMap w map).goto t pc).held t = pc.held s.first := by
    rw [State.held, shape.first]
    simp [State.goto]
  refine ownedShift (t := t) owned shape rfl (fun u other => update_of_ne other ..) ?_ ?_ ?_ ?_
  · intro u other w' mine
    refine ⟨mine, fun y on => ?_⟩
    change (s.setMap w map).bit w' y = true at on
    rw [setMapBit] at on
    split at on
    · rename_i this
      rw [bits] at on
      split at on
      · rw [kept u other (this ▸ mine)] at on
        cases on
      · exact this ▸ on
    · exact on
  · rw [State.Fits]
    simp only [State.goto, update_self]
    exact fits
  · intro n within others
    rw [now] at within
    by_cases page : n = s.first w + x
    · exact alone (page ▸ others)
    · exact othersApart owned.sole others ((elsewhere n page).mp within)
  · intro w' i low
    rw [now]
    change (s.setMap w map).bit w' i = true ↔ _
    rw [setMapBit]
    by_cases page : s.first w' + i = s.first w + x
    · obtain ⟨rfl, rfl⟩ := samePage owned.laid low inside page
      rw [if_pos rfl, bits, if_pos rfl, here]
      exact ⟨.inr, fun either => either.resolve_left alone⟩
    · have old : (if w' = w then map.bit i else s.bit w' i) = s.bit w' i := by
        split
        · rename_i this
          subst this
          have other : i ≠ x := fun equal => page (equal ▸ rfl)
          rw [bits, if_neg other]
        · rfl
      rw [old, elsewhere _ page]
      exact (owned.bits w' i low).trans (outstandingOthers (t := t))

theorem unlockKept (mine : s.lock w = some t) (holder : Option Nat) (u : Nat) (other : u ≠ t)
    (w' : Which) (held : s.lock w' = some u) : update s.lock w holder w' = some u := by
  have elsewhere : w' ≠ w := by
    rintro rfl
    exact other (Option.some.inj (held.symm.trans mine))
  rw [update_of_ne elsewhere, held]

theorem ownedReturn (owned : Owned s) (at' : s.thread t = .found w cnt asserts idx) :
    Owned { (s.setLock w none).goto t .idle with
      runs := ⟨w, (s.pool w).base + pgSize * idx, cnt⟩ :: s.runs } := by
  have fits := owned.fits t
  rw [at'] at fits
  obtain ⟨positive, mine, inside⟩ := fits
  have hands : Hands s.held (State.held { (s.setLock w none).goto t .idle with
      runs := ⟨w, (s.pool w).base + pgSize * idx, cnt⟩ :: s.runs }) t
      ⟨w, (s.pool w).base + pgSize * idx, cnt⟩ := by
    refine ⟨?_, fun n within => ?_, fun u other => ?_⟩
    · rw [runSpan, State.held, at']
      rfl
    · simp only [State.held, State.goto, update_self] at within
      exact Nat.not_lt_zero n within.2
    · simp only [State.held, State.goto, update_of_ne other]
      rfl
  refine ⟨owned.laid, fun r among => ?_, fun u => ?_, fun w' i low => ?_,
    (handSole hands).mpr owned.sole⟩
  · rcases List.mem_cons.mp among with rfl | before
    · exact ⟨idx, rfl, positive, inside⟩
    · exact owned.placed r before
  · by_cases this : u = t
    · simp only [State.goto, this, update_self]
      trivial
    · simp only [State.Fits, State.goto, update_of_ne this]
      exact fitsKeep (owned.fits u)
        (fun w' held => ⟨unlockKept mine none u this w' held, fun _ on => on⟩) fun _ => rfl
  · exact (owned.bits w' i low).trans (handCovered hands).symm

theorem ownedTake (owned : Owned s) {r : Run} (idle : s.thread t = .idle) (among : r ∈ s.runs)
    (pages : r.pages = (s.pool r.pool).base + pgSize * idx)
    (inside : idx + r.pageCnt ≤ s.bitCnt r.pool) :
    Owned (({ s with runs := s.runs.erase r } : State).goto t (.check r.pool idx r.pageCnt 0)) := by
  have perm : s.runs.Perm (r :: s.runs.erase r) := List.perm_cons_erase among
  have hands : Hands (State.held (({ s with runs := s.runs.erase r } : State).goto t
      (.check r.pool idx r.pageCnt 0))) s.held t r := by
    refine ⟨?_, fun n within => ?_, fun u other => ?_⟩
    · have whole : r = ⟨r.pool, (s.pool r.pool).base + pgSize * idx, r.pageCnt⟩ := by rw [← pages]
      rw [(congrArg Run.span whole).trans runSpan]
      simp only [State.held, State.goto, update_self]
      rfl
    · rw [State.held, idle] at within
      exact Nat.not_lt_zero n within.2
    · simp only [State.held, State.goto, update_of_ne other]
      rfl
  refine ⟨owned.laid, fun r' held => owned.placed r' (List.mem_of_mem_erase held), fun u => ?_,
    fun w' i low => ?_, (handSole hands).mp (permSole perm owned.sole)⟩
  · by_cases this : u = t
    · simp only [State.Fits, State.goto, this, update_self]
      exact ⟨inside, Nat.zero_le _⟩
    · simp only [State.Fits, State.goto, update_of_ne this]
      exact owned.fits u
  · exact (owned.bits w' i low).trans ((permCovered perm).trans (handCovered hands))

theorem withinNone (n : Nat) : ¬Within n (0, 0) := fun within => Nat.not_lt_zero n within.2

theorem ownedEmpty (owned : Owned s) {lock : Which → Option Nat}
    (kept : ∀ u, u ≠ t → ∀ w, s.lock w = some u → lock w = some u)
    (before : s.held t = (0, 0)) (after : pc.held s.first = (0, 0))
    (fits : pc.Fits lock (fun w => (s.pool w).usedMap) t) :
    Owned { s with lock := lock, thread := update s.thread t pc } :=
  ownedGoto owned kept (fun n => by rw [before, after]) fits

theorem fromPool (owned : Owned s) (inside : idx < s.bitCnt w) (w' : Which) :
    pageFromPool (s.pool w') ((s.pool w).base + pgSize * idx) = decide (w' = w) := by
  have number : pgNo ((s.pool w).base + pgSize * idx) = s.first w + idx := by
    rw [State.first]
    unfold pgNo pgSize
    omega
  rw [pageFromPool, number, ← Bool.decide_and]
  apply decide_eq_decide.mpr
  constructor
  · rintro ⟨low, high⟩
    obtain ⟨i, same⟩ : ∃ i, s.first w + idx = pgNo (s.pool w').base + i := ⟨_, (Nat.add_sub_cancel' low).symm⟩
    exact (samePage owned.laid inside (show i < (s.pool w').usedMap.bitCnt by omega) same).1.symm
  · rintro rfl
    exact ⟨Nat.le_add_right _ _, Nat.add_lt_add_left inside _⟩

theorem ownedFree (owned : Owned s) {r : Run} (idle : s.thread t = .idle) (among : r ∈ s.runs) :
    ∃ s', enterFree { s with runs := s.runs.erase r } t r = .ok s' ∧ Owned s' := by
  obtain ⟨idx, pages, positive, inside⟩ := owned.placed r among
  have whole : r.pages % pgSize = 0 := by
    have base := owned.laid.whole r.pool
    rw [pages]
    unfold pgSize at base ⊢
    omega
  have real := owned.laid.real r.pool
  have number : pgNo r.pages - pgNo (s.pool r.pool).base = idx := by
    rw [pages]
    unfold pgNo pgSize
    omega
  have bounds : idx ≤ (s.pool r.pool).usedMap.bitCnt ∧
      idx + r.pageCnt ≤ (s.pool r.pool).usedMap.bitCnt := by
    unfold State.bitCnt at inside
    omega
  have from' (w : Which) : pageFromPool (s.pool w) r.pages = decide (w = r.pool) := by
    rw [pages, fromPool owned (by omega)]
  refine ⟨_, ?_, ownedTake owned idle among pages inside⟩
  unfold enterFree
  rw [if_neg (not_not.mpr whole), if_neg (by omega)]
  simp only [from']
  cases here : r.pool with
  | kernel | user =>
    rw [here] at number bounds
    simp [number, bounds]

theorem scanStep (owned : Owned s) (at' : s.thread t = .scan w cnt asserts i j began) :
    ∃ s', advance s t (.scan w cnt asserts i j began) = .ok s' ∧ Owned s' := by
  have fits := owned.fits t
  simp only [at', State.Fits, Pc.Fits] at fits
  obtain ⟨positive, mine, bound, off, fewer, blocked⟩ := fits
  have none : s.held t = (0, 0) := by rw [State.held, at']; rfl
  have keep (u : Nat) (_ : u ≠ t) (w' : Which) (held : s.lock w' = some u) : s.lock w' = some u := held
  simp only [advance]
  split
  · rename_i room
    split
    · rename_i more
      rw [bitmapTest, if_pos (show i + j < (s.pool w).usedMap.bitCnt by omega)]
      cases bit : (s.pool w).usedMap.bit (i + j) with
      | true =>
        refine ⟨_, rfl, ownedEmpty owned keep none rfl
          ⟨positive, mine, Nat.zero_le _, fun x less => absurd less (Nat.not_lt_zero x), fewer, ?_⟩⟩
        intro k less
        rcases Nat.lt_succ_iff_lt_or_eq.mp less with before | rfl
        · exact blocked k before
        · exact ⟨j, more, fewer _ bit⟩
      | false =>
        refine ⟨_, rfl, ownedEmpty owned keep none rfl ⟨positive, mine, more, ?_, fewer, blocked⟩⟩
        intro x less
        rcases Nat.lt_succ_iff_lt_or_eq.mp less with before | rfl
        · exact off x before
        · exact bit
    · rename_i enough
      obtain rfl : j = cnt := by omega
      have inside : i + j ≤ (s.pool w).usedMap.bitCnt := by omega
      refine ⟨_, rfl, ownedGoto owned keep (fun n => ?_)
        ⟨positive, mine, Nat.zero_le _, inside, fun x _ less => off x less⟩⟩
      rw [none]
      simp only [Pc.held, Within]
      omega
  · rename_i past
    refine ⟨_, rfl, ownedEmpty owned keep none rfl ⟨mine, fun k fits => blocked k ?_⟩⟩
    simp only at fits
    omega

theorem flipStep (owned : Owned s) (at' : s.thread t = .flip w cnt asserts idx j) :
    ∃ s', advance s t (.flip w cnt asserts idx j) = .ok s' ∧ Owned s' := by
  have fits := owned.fits t
  simp only [at', State.Fits, Pc.Fits] at fits
  obtain ⟨positive, mine, bound, inside, off⟩ := fits
  have held : s.held t = (s.first w + idx, s.first w + idx + j) := by rw [State.held, at']; rfl
  simp only [advance]
  split
  · rename_i more
    have low : idx + j < (s.pool w).usedMap.bitCnt := by omega
    obtain ⟨map, done, same, bits⟩ := setSpec low true
    have clear : ¬Outstanding s (s.first w + (idx + j)) := by
      rw [← owned.bits w (idx + j) low]
      exact fun on => Bool.false_ne_true ((off j (Nat.le_refl j) more).symm.trans on)
    refine ⟨_, bindOk.mpr ⟨map, done, rfl⟩, ownedBit owned low same bits (fun n other => ?_)
      (fun others => clear (outstandingOthers.mpr (.inl others))) ?_
      (fun u other held => absurd (Option.some.inj (held.symm.trans mine)) other) ?_⟩
    · rw [held]
      simp only [Pc.held, Within]
      omega
    · simp only [Pc.held, Within, true_iff]
      omega
    · simp only [Pc.Fits, State.setMap, update_self]
      refine ⟨positive, mine, more, same ▸ inside, fun x above less => ?_⟩
      rw [bits, if_neg (by omega)]
      exact off x (by omega) less
  · rename_i enough
    obtain rfl : j = cnt := by omega
    exact ⟨_, rfl, ownedGoto owned (fun _ _ _ held => held) (fun n => by rw [held]; rfl)
      ⟨positive, mine, inside⟩⟩

theorem checkStep (owned : Owned s) (at' : s.thread t = .check w idx cnt j) :
    ∃ s', advance s t (.check w idx cnt j) = .ok s' ∧ Owned s' := by
  have fits := owned.fits t
  simp only [at', State.Fits, Pc.Fits] at fits
  obtain ⟨inside, bound⟩ := fits
  have held : s.held t = (s.first w + idx, s.first w + idx + cnt) := by rw [State.held, at']; rfl
  simp only [advance]
  split
  · rename_i more
    have low : idx + j < (s.pool w).usedMap.bitCnt := by omega
    have bit : (s.pool w).usedMap.bit (idx + j) = true := by
      refine (owned.bits w (idx + j) low).mpr (.inr ⟨t, ?_⟩)
      rw [held]
      simp only [Within]
      omega
    rw [bitmapTest, if_pos low, bit]
    exact ⟨_, rfl, ownedGoto owned (fun _ _ _ held => held) (fun n => by rw [held]; rfl)
      ⟨inside, more⟩⟩
  · refine ⟨_, rfl, ownedGoto owned (fun _ _ _ held => held) (fun n => ?_)
      ⟨inside, Nat.zero_le _⟩⟩
    rw [held]
    simp only [Pc.held, Within]
    omega

theorem clearStep (owned : Owned s) (at' : s.thread t = .clear w idx cnt j) :
    ∃ s', advance s t (.clear w idx cnt j) = .ok s' ∧ Owned s' := by
  have fits := owned.fits t
  simp only [at', State.Fits, Pc.Fits] at fits
  obtain ⟨inside, bound⟩ := fits
  have held : s.held t = (s.first w + idx + j, s.first w + idx + cnt) := by rw [State.held, at']; rfl
  simp only [advance]
  split
  · rename_i more
    have low : idx + j < (s.pool w).usedMap.bitCnt := by omega
    obtain ⟨map, done, same, bits⟩ := setSpec low false
    have mine : Within (s.first w + (idx + j)) (s.held t) := by
      rw [held]
      simp only [Within]
      omega
    refine ⟨_, bindOk.mpr ⟨map, done, rfl⟩, ownedBit owned low same bits (fun n other => ?_)
      (fun others => othersApart owned.sole others mine) ?_ (fun _ _ _ => rfl) ?_⟩
    · rw [held]
      simp only [Pc.held, Within]
      omega
    · simp only [Pc.held, Within, Bool.false_eq_true, false_iff]
      omega
    · simp only [Pc.Fits, State.setMap, update_self]
      exact ⟨same ▸ inside, more⟩
  · refine ⟨_, rfl, ownedGoto owned (fun _ _ _ held => held) (fun n => ?_) trivial⟩
    rw [held]
    simp only [Pc.held, Within]
    omega

theorem restingIdle (resting : pc.resting = true) : pc = .idle := by
  cases pc <;> first | rfl | cases resting

theorem ownedStep {a : Action} (owned : Owned s) (may : May s a) :
    step s a = .error .panic ∨ ∃ s', step s a = .ok s' ∧ Owned s' := by
  cases a with
  | get t w cnt asserts =>
    right
    simp only [step]
    split
    · exact ⟨s, rfl, owned⟩
    · rename_i some
      refine ⟨_, rfl, ownedEmpty owned (fun _ _ _ held => held) ?_ rfl (Nat.pos_of_ne_zero some)⟩
      rw [State.held, restingIdle may]
      rfl
  | free t r => exact .inr (ownedFree owned (restingIdle may.1) may.2)
  | run t =>
    have fits := owned.fits t
    simp only [step]
    cases at' : s.thread t with
    | idle => exact .inr ⟨s, rfl, owned⟩
    | acquire w cnt asserts =>
      right
      simp only [at', State.Fits, Pc.Fits] at fits
      simp only [advance]
      cases free : s.lock w with
      | some u => exact ⟨s, rfl, owned⟩
      | none =>
        refine ⟨_, rfl, ownedEmpty owned (fun u _ w' held => ?_) (by rw [State.held, at']; rfl) rfl
          ⟨fits, update_self .., Nat.zero_le _, fun x less => absurd less (Nat.not_lt_zero x),
            fun x on => on, fun k less => absurd less (Nat.not_lt_zero k)⟩⟩
        have elsewhere : w' ≠ w := by
          rintro rfl
          rw [free] at held
          cases held
        rw [← held]
        exact update_of_ne elsewhere ..
    | scan w cnt asserts i j began => exact .inr (scanStep owned at')
    | flip w cnt asserts idx j => exact .inr (flipStep owned at')
    | found w cnt asserts idx => exact .inr ⟨_, rfl, ownedReturn owned at'⟩
    | failed w cnt asserts began =>
      simp only [at', State.Fits, Pc.Fits] at fits
      simp only [advance]
      cases asserts with
      | true => exact .inl rfl
      | false =>
        exact .inr ⟨_, rfl, ownedEmpty owned (unlockKept fits.1 none) (by rw [State.held, at']; rfl)
          rfl trivial⟩
    | check w idx cnt j => exact .inr (checkStep owned at')
    | clear w idx cnt j => exact .inr (clearStep owned at')

end Steps

section Boot
variable {bits : Nat → BitVec 32} {base pageCnt : Nat} {pool : Pool}

theorem initPoolSpec (made : initPool bits base pageCnt = .ok pool) (whole : base % pgSize = 0) :
    pool.base % pgSize = 0 ∧ pool.usedMapAt = base ∧
    pool.usedMapAt + bitmapBufSize pool.usedMap.bitCnt ≤ pool.base ∧
    pool.base + pgSize * pool.usedMap.bitCnt = base + pgSize * pageCnt ∧
    ∀ i < pool.usedMap.bitCnt, pool.usedMap.bit i = false := by
  unfold initPool at made
  simp only at made
  split at made
  · cases made
  · rename_i room
    obtain ⟨map, created, made⟩ := bindOk.mp made
    cases made
    unfold bitmapCreateInBuf at created
    split at created
    · rename_i fits
      obtain ⟨map', set, same, off⟩ := setMultipleSpec
        (show 0 + (pageCnt - (bitmapBufSize pageCnt + pgSize - 1) / pgSize) ≤
          (Bitmap.mk (pageCnt - (bitmapBufSize pageCnt + pgSize - 1) / pgSize) bits).bitCnt by simp) false
      cases Except.ok.inj (created.symm.trans set)
      simp only at same fits ⊢
      refine ⟨?_, trivial, ?_, ?_, ?_⟩
      · unfold pgSize at whole ⊢
        omega
      · rw [same]
        exact Nat.add_le_add_left fits base
      · rw [same]
        unfold pgSize at room ⊢
        omega
      · intro i inside
        rw [off, if_pos (by omega)]
    · cases created

theorem bootOwned {bits : Which → Nat → BitVec 32} {ram : RamSize} {limit : Nat}
    {pool : Which → Pool} (made : pallocInit bits ram limit = .ok pool) : Owned (boot pool) := by
  unfold pallocInit at made
  obtain ⟨kernelPool, kernelMade, made⟩ := bindOk.mp made
  obtain ⟨userPool, userMade, made⟩ := bindOk.mp made
  cases made
  generalize user : (if (ptov (ram.pages * pgSize) - ptov (1024 * 1024)) / pgSize / 2 > limit then limit
    else (ptov (ram.pages * pgSize) - ptov (1024 * 1024)) / pgSize / 2) = userPages at kernelMade userMade
  have start : ptov (1024 * 1024) % pgSize = 0 := by decide
  obtain ⟨kernelWhole, kernelAt, kernelBelow, kernelEnd, kernelOff⟩ := initPoolSpec kernelMade start
  obtain ⟨userWhole, userAt, userBelow, userEnd, userOff⟩ :=
    initPoolSpec userMade (by unfold pgSize at start ⊢; omega)
  have positive : 0 < ptov (1024 * 1024) := by decide
  refine ⟨⟨?_, ?_, ?_, ?_⟩, fun r among => absurd among List.not_mem_nil, fun t => trivial, ?_,
    List.Pairwise.nil, fun r among => absurd among List.not_mem_nil, ?_⟩
  · rintro (_ | _)
    · exact kernelWhole
    · exact userWhole
  · rintro (_ | _) <;> simp only [boot, pools] <;> omega
  · rintro (_ | _)
    · exact kernelBelow
    · exact userBelow
  · simp only [boot, pools, kernelEnd, userAt]
    unfold pgSize
    omega
  · intro w i inside
    have off : (boot (pools kernelPool userPool)).bit w i = false := by
      cases w with
      | kernel => exact kernelOff i inside
      | user => exact userOff i inside
    rw [off]
    refine ⟨fun never => absurd never (by decide), ?_⟩
    rintro (⟨r, among, -⟩ | ⟨t, within⟩)
    · exact absurd among List.not_mem_nil
    · exact absurd within (withinNone _)
  · intro t t' n _ within
    exact absurd within (withinNone n)

end Boot

section Results
variable {bits : Which → Nat → BitVec 32} {ram : RamSize} {limit : Nat} {pool : Which → Pool}
  {s : State}

theorem runOwned (made : pallocInit bits ram limit = .ok pool)
    (run : Machine.Run step May (boot pool) s) : Owned s := by
  refine run.invariant Owned (bootOwned made) fun u v a owned may moved => ?_
  rcases ownedStep owned may with panics | ⟨v', moved', owned'⟩
  · rw [panics] at moved
    cases moved
  · cases Except.ok.inj (moved.symm.trans moved')
    exact owned'

theorem spansApart (owned : Owned s) {r r' : Run} (among : r ∈ s.runs) (among' : r' ∈ s.runs)
    (apart : ∀ n, Within n r.span → ¬Within n r'.span) :
    r.pages + pgSize * r.pageCnt ≤ r'.pages ∨ r'.pages + pgSize * r'.pageCnt ≤ r.pages := by
  have whole {r : Run} (among : r ∈ s.runs) : r.pages = pgSize * pgNo r.pages ∧ 0 < r.pageCnt := by
    obtain ⟨idx, pages, positive, -⟩ := owned.placed r among
    have base := owned.laid.whole r.pool
    unfold pgSize at base pages
    unfold pgNo pgSize
    omega
  have one := apart (pgNo r.pages)
  have two := apart (pgNo r'.pages)
  have first := whole among
  have second := whole among'
  simp only [Within, Run.span] at one two
  unfold pgSize at first second ⊢
  omega

theorem pallocRuns (made : pallocInit bits ram limit = .ok pool)
    (run : Machine.Run step May (boot pool) s) :
    s.runs.Pairwise (fun r r' =>
      r.pages + pgSize * r.pageCnt ≤ r'.pages ∨ r'.pages + pgSize * r'.pageCnt ≤ r.pages) ∧
    (∀ r ∈ s.runs, (s.pool r.pool).base ≤ r.pages ∧
      r.pages + pgSize * r.pageCnt ≤ (s.pool r.pool).base + pgSize * s.bitCnt r.pool) ∧
    (∀ w, (s.pool w).usedMapAt + bitmapBufSize (s.bitCnt w) ≤ (s.pool w).base) ∧
    (s.pool .kernel).base + pgSize * s.bitCnt .kernel ≤ (s.pool .user).usedMapAt ∧
    (∀ w i, i < s.bitCnt w → (s.bit w i = true ↔ Outstanding s (s.first w + i))) ∧
    ((∀ t, s.thread t = .idle) →
      ∀ n, Outstanding s n ↔ ∃ r ∈ s.runs, pgNo r.pages ≤ n ∧ n < pgNo r.pages + r.pageCnt) ∧
    (∀ t w cnt asserts began, s.thread t = .failed w cnt asserts began →
      ∀ k, k + cnt ≤ s.bitCnt w → ∃ x < cnt, began.bit (k + x) = true) ∧
    ∀ a, May s a → step s a = .error .panic ∨ ∃ s', step s a = .ok s' := by
  have owned := runOwned made run
  refine ⟨?_, fun r among => ?_, owned.laid.below, owned.laid.apart, owned.bits, fun idle n => ?_,
    fun t w cnt asserts began at' => ?_, fun a may => ?_⟩
  · exact owned.sole.pairs.imp_of_mem fun one two apart => spansApart owned one two apart
  · obtain ⟨idx, pages, -, inside⟩ := owned.placed r among
    have bytes : pgSize * idx + pgSize * r.pageCnt ≤ pgSize * s.bitCnt r.pool := by
      rw [← Nat.mul_add]
      exact Nat.mul_le_mul_left pgSize inside
    omega
  · refine ⟨?_, .inl⟩
    rintro (run | ⟨t, within⟩)
    · exact run
    · rw [State.held, idle t] at within
      exact absurd within (withinNone n)
  · have fits := owned.fits t
    rw [at'] at fits
    exact fits.2
  · rcases ownedStep owned may with panics | ⟨s', moved, -⟩
    · exact .inl panics
    · exact .inr ⟨s', moved⟩

/-- Threads 0 and 1 ask at the same time, and 0 gives its page back and asks again. -/
def twoCallers : List Action :=
  [.get 0 .user 1 false, .get 1 .user 2 false] ++
    (List.replicate 16 [.run 0, .run 1]).flatten ++ [.free 0 ⟨.user, 0xc011d000, 1⟩] ++
    List.replicate 6 (.run 0) ++ [.get 0 .kernel 3 false] ++ List.replicate 14 (.run 0)

theorem pallocRunsExample : ∃ pool s,
    pallocInit (fun _ _ => 0#32) ⟨300, by decide, by decide⟩ 16 = .ok pool ∧
    Machine.Run step May (boot pool) s ∧
    s.runs = [⟨.kernel, 0xc0101000, 3⟩, ⟨.user, 0xc011e000, 2⟩] ∧
    ∀ w i, i < s.bitCnt w → (s.bit w i = true ↔ Outstanding s (s.first w + i)) := by
  have runs : passes (pallocInit (fun _ _ => 0#32) ⟨300, by decide, by decide⟩ 16) (fun pool =>
      (exec step May (boot pool) twoCallers).any fun s =>
        decide (s.runs = [⟨.kernel, 0xc0101000, 3⟩, ⟨.user, 0xc011e000, 2⟩])) = true := by
    decide +kernel
  obtain ⟨pool, made, ran⟩ := passesOk runs
  obtain ⟨s, run, two⟩ := execFinds step May (boot pool) twoCallers _ ran
  exact ⟨pool, s, made, run, of_decide_eq_true two, (pallocRuns made run).2.2.2.2.1⟩

end Results

end Pintos.Palloc
