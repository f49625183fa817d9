import Mathlib.Data.List.Pairwise
import Mathlib.Data.Set.Basic
import Pintos.Kernel.Hash

/-! The hash table as a set with at most one element of each class of equal elements. -/
namespace Pintos.HashTable
open Buckets

section Abstract
variable {α : Type}

inductive Op (α : Type) where
  | insert (e : α)
  | replace (e : α)
  | find (e : α)
  | delete (e : α)
  | clear (destructor : Bool)
  deriving DecidableEq, Repr

structure Outcome (α : Type) where
  elem : Option α := none
  destroyed : List α := []
  deriving DecidableEq, Repr

variable (same : α → α → Prop)

def Thin (S : Set α) : Prop := ∀ x ∈ S, ∀ y ∈ S, same x y → x = y

def Answers (S : Set α) (e : α) : Option α → Prop
  | some x => x ∈ S ∧ same x e
  | none => ∀ x ∈ S, ¬ same x e

inductive Does : Set α → Op α → Outcome α → Set α → Prop where
  | insertNew {S e} (absent : Answers same S e none) : Does S (.insert e) {} (insert e S)
  | insertOld {S e x} (present : Answers same S e (some x)) : Does S (.insert e) { elem := some x } S
  | replace {S e old} (answer : Answers same S e old) :
      Does S (.replace e) { elem := old } (insert e {x ∈ S | ¬ same x e})
  | find {S e found} (answer : Answers same S e found) : Does S (.find e) { elem := found } S
  | delete {S e found} (answer : Answers same S e found) :
      Does S (.delete e) { elem := found } {x ∈ S | ¬ same x e}
  | clear {S destructor destroyed} (nodup : destroyed.Nodup)
      (each : ∀ x, x ∈ destroyed ↔ destructor = true ∧ x ∈ S) :
      Does S (.clear destructor) { destroyed := destroyed } ∅

inductive Behaves : Set α → List (Op α × Outcome α) → Set α → Prop where
  | nil {S} : Behaves S [] S
  | cons {S S' S'' op out rest} (first : Does same S op out S') (next : Behaves S' rest S'') :
      Behaves S ((op, out) :: rest) S''

end Abstract

section Calls
variable {α : Type} [DecidableEq α]

def perform (h : Hash α) (granted : Bool) : Op α → Hash α × Outcome α
  | .insert e => ((hashInsert h e granted).1, { elem := (hashInsert h e granted).2 })
  | .replace e => ((hashReplace h e granted).1, { elem := (hashReplace h e granted).2 })
  | .find e => (h, { elem := hashFind h e })
  | .delete e => ((hashDelete h e granted).1, { elem := (hashDelete h e granted).2 })
  | .clear destructor =>
    ((hashClear h destructor).1, { destroyed := (hashClear h destructor).2 })

def performAll (h : Hash α) : List (Op α × Bool) → Hash α × List (Op α × Outcome α)
  | [] => (h, [])
  | (op, granted) :: rest =>
    let (h, out) := perform h granted op
    let (h, outs) := performAll h rest
    (h, (op, out) :: outs)

end Calls

section Sound
variable {α : Type} {hash : α → Nat} {less : α → α → Bool}

def Same (less : α → α → Bool) (a b : α) : Prop := less a b = false ∧ less b a = false

theorem sameSymm {a b : α} (equal : Same less a b) : Same less b a := ⟨equal.2, equal.1⟩

structure Sound (hash : α → Nat) (less : α → α → Bool) (h : Hash α) : Prop where
  hashed : h.hash = hash
  compared : h.less = less
  power : ∃ k, 2 ≤ k ∧ h.bucketCnt = 2 ^ k
  placed : Placed (findBucket h) h.bucketCnt h.buckets
  thin : (elements h).Pairwise fun a b => ¬ Same less a b
  count : h.elemCnt = (elements h).length

def contents (h : Hash α) : Set α := {e | e ∈ elements h}

variable {h : Hash α}

theorem bucketInside (power : ∃ k, 2 ≤ k ∧ h.bucketCnt = 2 ^ k) (e : α) :
    findBucket h e < h.bucketCnt := by
  obtain ⟨k, _, same⟩ := power
  rw [findBucket, same, Nat.and_two_pow_sub_one_eq_mod]
  exact Nat.mod_lt _ (Nat.two_pow_pos k)

theorem findAnswers (coherent : ∀ a b, Same less a b → hash a = hash b) (sound : Sound hash less h)
    (e : α) : Answers (Same less) (contents h) e (hashFind h e) := by
  have inside := bucketInside sound.power e
  unfold hashFind findElem
  cases found : (h.buckets (findBucket h e)).find? fun hi => !h.less hi e && !h.less e hi with
  | some x =>
    have matched := List.find?_some found
    simp only [Bool.and_eq_true, Bool.not_eq_true', sound.compared] at matched
    exact ⟨memGather.mpr ⟨_, inside, List.mem_of_find?_eq_some found⟩, matched⟩
  | none =>
    rw [List.find?_eq_none] at found
    rintro x there equal
    obtain ⟨i, less, mem⟩ := memGather.mp there
    have here : findBucket h e = i := by
      rw [← sound.placed i less x mem, findBucket, findBucket, sound.hashed, coherent x e equal]
    refine found x (here ▸ mem) ?_
    simp [sound.compared, equal.1, equal.2]

theorem rehashPerm (h : Hash α) (granted : Bool) :
    (elements (rehash h granted)).Perm (elements h) := by
  unfold rehash
  split
  · exact .refl _
  · split
    · have power : ∃ k, 2 ≤ k ∧ (move h (newBucketCnt h.elemCnt)).bucketCnt = 2 ^ k :=
        newBucketCntPow h.elemCnt
      have inside : ∀ x ∈ elements h,
          findBucket { h with bucketCnt := newBucketCnt h.elemCnt } x < newBucketCnt h.elemCnt :=
        fun x _ => bucketInside (h := { h with bucketCnt := newBucketCnt h.elemCnt }) power x
      have moved := gatherSpread (b := fun _ => []) inside
      have empty : gather (newBucketCnt h.elemCnt) (fun _ => ([] : List α)) = [] := by simp [gather]
      rw [empty, List.append_nil] at moved
      exact moved
    · exact .refl _

theorem rehashSound (sound : Sound hash less h) (granted : Bool) :
    Sound hash less (rehash h granted) := by
  have perm := rehashPerm h granted
  have thin : (elements (rehash h granted)).Pairwise fun a b => ¬ Same less a b :=
    sound.thin.perm perm.symm fun not equal => not (sameSymm equal)
  have count : h.elemCnt = (elements (rehash h granted)).length := by
    rw [sound.count, perm.length_eq]
  revert thin count
  unfold rehash
  split
  · exact fun _ _ => sound
  · split
    · refine fun thin count => ⟨sound.hashed, sound.compared, newBucketCntPow _, ?_, thin, count⟩
      exact placedSpread fun i _ x mem => absurd mem List.not_mem_nil
    · exact fun _ _ => sound

theorem soundUnique (sound : Sound hash less h) {x y : α} (inside : x ∈ elements h)
    (inside' : y ∈ elements h) (equal : Same less x y) : x = y := by
  by_contra apart
  have symm : Std.Symm fun a b => ¬ Same less a b := ⟨fun _ _ not equal => not (sameSymm equal)⟩
  exact sound.thin.forall inside inside' apart equal

theorem rehashContents (h : Hash α) (granted : Bool) :
    contents (rehash h granted) = contents h :=
  Set.ext fun _ => (rehashPerm h granted).mem_iff

theorem insertSound {e : α} (sound : Sound hash less h)
    (absent : Answers (Same less) (contents h) e none) :
    Sound hash less (insertElem h (findBucket h e) e) ∧
      contents (insertElem h (findBucket h e) e) = insert e (contents h) := by
  have perm : (elements (insertElem h (findBucket h e) e)).Perm (e :: elements h) :=
    gatherPush (bucketInside sound.power e)
  refine ⟨⟨sound.hashed, sound.compared, sound.power, placedPush sound.placed, ?_, ?_⟩, ?_⟩
  · refine List.Pairwise.perm ?_ perm.symm fun not equal => not (sameSymm equal)
    exact List.pairwise_cons.mpr ⟨fun x inside equal => absent x inside (sameSymm equal), sound.thin⟩
  · rw [perm.length_eq, List.length_cons, ← sound.count]
    rfl
  · ext x
    exact perm.mem_iff.trans List.mem_cons

theorem contentsAbsent {e : α} (absent : Answers (Same less) (contents h) e none) :
    {y ∈ contents h | ¬ Same less y e} = contents h :=
  Set.ext fun y => ⟨fun both => both.1, fun there => ⟨there, absent y there⟩⟩

end Sound

section Weak
variable {α : Type} {hash : α → Nat} {less : α → α → Bool} {h : Hash α}
variable [IsStrictWeakOrder α (less · · = true)]

theorem sameRefl (a : α) : Same less a a := by
  have none := Std.Irrefl.irrefl (r := fun a b => less a b = true) a
  exact ⟨Bool.eq_false_iff.mpr none, Bool.eq_false_iff.mpr none⟩

theorem sameTrans {a b c : α} (first : Same less a b) (second : Same less b c) : Same less a c := by
  have both := @IsStrictWeakOrder.incomp_trans α (fun a b => less a b = true) _ a b c
    ⟨Bool.eq_false_iff.mp first.1, Bool.eq_false_iff.mp first.2⟩
    ⟨Bool.eq_false_iff.mp second.1, Bool.eq_false_iff.mp second.2⟩
  exact ⟨Bool.eq_false_iff.mpr both.1, Bool.eq_false_iff.mpr both.2⟩

theorem thinNodup {l : List α} (thin : l.Pairwise fun a b => ¬ Same less a b) : l.Nodup := by
  refine thin.imp fun apart same => apart ?_
  rw [same]
  exact sameRefl _

end Weak


section Refines
variable {α : Type} [DecidableEq α] {hash : α → Nat} {less : α → α → Bool} {h : Hash α}
variable [IsStrictWeakOrder α (less · · = true)]

theorem removeSound {e x : α} (sound : Sound hash less h)
    (present : Answers (Same less) (contents h) e (some x)) :
    Sound hash less (removeElem h x) ∧ contents (removeElem h x) = {y ∈ contents h | ¬ Same less y e} := by
  have nodup := thinNodup sound.thin
  have erased : elements (removeElem h x) = (elements h).erase x := gatherErase nodup x
  obtain ⟨inside, equal⟩ := present
  refine ⟨⟨sound.hashed, sound.compared, sound.power, placedErase sound.placed x, ?_, ?_⟩, ?_⟩
  · rw [erased]
    exact sound.thin.sublist List.erase_sublist
  · rw [erased, List.length_erase_of_mem inside, ← sound.count]
    rfl
  · ext y
    show y ∈ elements (removeElem h x) ↔ y ∈ elements h ∧ ¬ Same less y e
    rw [erased, nodup.mem_erase_iff]
    constructor
    · rintro ⟨other, there⟩
      exact ⟨there, fun also => other (soundUnique sound there inside
        (sameTrans also (sameSymm equal)))⟩
    · rintro ⟨there, apart⟩
      exact ⟨fun same => apart (same ▸ equal), there⟩

theorem performDoes (coherent : ∀ a b, Same less a b → hash a = hash b) (sound : Sound hash less h)
    (granted : Bool) (op : Op α) :
    Sound hash less (perform h granted op).1 ∧
      Does (Same less) (contents h) op (perform h granted op).2 (contents (perform h granted op).1) := by
  cases op with
  | insert e =>
    have answer := findAnswers coherent sound e
    unfold hashFind at answer
    cases found : findElem h (findBucket h e) e with
    | none =>
      rw [found] at answer
      obtain ⟨sound', there⟩ := insertSound sound answer
      simp only [perform, hashInsert, found, Option.isNone_none, if_true]
      refine ⟨rehashSound sound' granted, ?_⟩
      rw [rehashContents, there]
      exact .insertNew answer
    | some x =>
      rw [found] at answer
      simp only [perform, hashInsert, found, Option.isNone_some, Bool.false_eq_true, if_false]
      refine ⟨rehashSound sound granted, ?_⟩
      rw [rehashContents h granted]
      exact .insertOld answer
  | replace e =>
    have answer := findAnswers coherent sound e
    unfold hashFind at answer
    cases found : findElem h (findBucket h e) e with
    | none =>
      rw [found] at answer
      obtain ⟨sound', there⟩ := insertSound sound answer
      simp only [perform, hashReplace, found]
      refine ⟨rehashSound sound' granted, ?_⟩
      rw [rehashContents, there]
      have replaced : Does (Same less) _ _ _ _ := .replace answer
      rwa [contentsAbsent answer] at replaced
    | some x =>
      rw [found] at answer
      obtain ⟨sound', there⟩ := removeSound sound answer
      have absent : Answers (Same less) (contents (removeElem h x)) e none := by
        rw [there]
        exact fun y both => both.2
      obtain ⟨sound'', there'⟩ := insertSound sound' absent
      have bucket : findBucket (removeElem h x) e = findBucket h e := rfl
      rw [bucket] at sound'' there'
      simp only [perform, hashReplace, found]
      refine ⟨rehashSound sound'' granted, ?_⟩
      have contained := rehashContents (insertElem (removeElem h x) (findBucket h e) e) granted
      rw [there', there] at contained
      rw [show contents (rehash (insertElem (removeElem h x) (findBucket h e) e) granted) = _ from contained]
      exact .replace answer
  | find e => exact ⟨sound, .find (findAnswers coherent sound e)⟩
  | delete e =>
    have answer := findAnswers coherent sound e
    unfold hashFind at answer
    cases found : findElem h (findBucket h e) e with
    | none =>
      rw [found] at answer
      simp only [perform, hashDelete, found]
      refine ⟨sound, ?_⟩
      have deleted : Does (Same less) _ _ _ _ := .delete answer
      rwa [contentsAbsent answer] at deleted
    | some x =>
      rw [found] at answer
      obtain ⟨sound', there⟩ := removeSound sound answer
      simp only [perform, hashDelete, found]
      refine ⟨rehashSound sound' granted, ?_⟩
      rw [rehashContents, there]
      exact .delete answer
  | clear destructor =>
    have empty : elements (hashClear h destructor).1 = [] := by simp [elements, hashClear, gather]
    refine ⟨⟨sound.hashed, sound.compared, sound.power, fun _ _ _ mem => absurd mem List.not_mem_nil,
      ?_, ?_⟩, ?_⟩
    · rw [show elements (perform h granted (.clear destructor)).1 = [] from empty]
      exact .nil
    · rw [show elements (perform h granted (.clear destructor)).1 = [] from empty]
      rfl
    · have none : contents (perform h granted (.clear destructor)).1 = ∅ := by
        ext x
        show x ∈ elements (hashClear h destructor).1 ↔ False
        simp [empty]
      rw [none]
      refine .clear ?_ ?_
      · cases destructor
        · exact .nil
        · exact thinNodup sound.thin
      · cases destructor <;> simp [hashClear, contents]

theorem performAllBehaves (coherent : ∀ a b, Same less a b → hash a = hash b)
    (sound : Sound hash less h) (ops : List (Op α × Bool)) :
    Sound hash less (performAll h ops).1 ∧
      Behaves (Same less) (contents h) (performAll h ops).2 (contents (performAll h ops).1) := by
  induction ops generalizing h with
  | nil => exact ⟨sound, .nil⟩
  | cons first rest ih =>
    obtain ⟨op, granted⟩ := first
    obtain ⟨sound', does⟩ := performDoes coherent sound granted op
    obtain ⟨last, behaves⟩ := ih sound'
    exact ⟨last, .cons does behaves⟩

end Refines

section Iteration
variable {α : Type} {h : Hash α}
  {bucket : Nat}

def later (h : Hash α) (bucket : Nat) : List α :=
  (List.range' (bucket + 1) (h.bucketCnt - (bucket + 1))).flatMap h.buckets

def left (h : Hash α) (i : Iterator α) : List α := i.rest ++ later h i.bucket

theorem laterEnd (last : h.bucketCnt ≤ bucket + 1) : later h bucket = [] := by
  rw [later, Nat.sub_eq_zero_of_le last]
  rfl

theorem laterNext (inside : bucket + 1 < h.bucketCnt) :
    later h bucket = h.buckets (bucket + 1) ++ later h (bucket + 1) := by
  have more : h.bucketCnt - (bucket + 1) = h.bucketCnt - (bucket + 1 + 1) + 1 := by omega
  rw [later, more, List.range'_succ, List.flatMap_cons]
  rfl

theorem nextBucketLeft {fuel bucket : Nat} (enough : h.bucketCnt ≤ fuel + bucket) :
    (nextBucket h fuel bucket).2 = (later h bucket).head? ∧
      left h (nextBucket h fuel bucket).1 = (later h bucket).tail := by
  induction fuel generalizing bucket with
  | zero =>
    have none : later h bucket = [] := laterEnd (by omega)
    rw [none]
    exact ⟨rfl, none⟩
  | succ fuel ih =>
    unfold nextBucket
    split
    · rename_i last
      rw [laterEnd last]
      exact ⟨rfl, laterEnd (Nat.le_succ_of_le last)⟩
    · rename_i inside
      rw [laterNext (Nat.not_le.mp inside)]
      split
      · rename_i e rest here
        rw [here]
        exact ⟨rfl, rfl⟩
      · rename_i here
        rw [here]
        exact ih (by omega)

theorem hashNextLeft (i : Iterator α) : (hashNext h i).2 = (left h i).head? ∧
    left h (hashNext h i).1 = (left h i).tail := by
  obtain ⟨bucket, rest⟩ := i
  cases rest with
  | nil => exact nextBucketLeft (by omega)
  | cons e rest => exact ⟨rfl, rfl⟩

theorem iterateLeft {fuel : Nat} {i : Iterator α} (enough : (left h i).length < fuel) :
    iterate h fuel i = left h i := by
  induction fuel generalizing i with
  | zero => omega
  | succ fuel ih =>
    obtain ⟨head, tail⟩ := hashNextLeft (h := h) i
    unfold iterate
    cases there : left h i with
    | nil =>
      rw [there] at head
      split
      · rfl
      · rename_i found
        rw [found] at head
        cases head
    | cons e rest =>
      rw [there] at head tail enough
      split
      · rename_i found
        rw [found] at head
        cases head
      · rename_i next x found
        rw [found] at head tail
        obtain rfl : x = e := Option.some.inj head
        rw [ih (by rw [show left h next = rest from tail]; simpa using enough)]
        exact congrArg (List.cons x) tail

theorem firstLeft (some : 0 < h.bucketCnt) : left h (hashFirst h) = elements h := by
  have split := gatherSplit (b := h.buckets) some
  rw [elements, split]
  simp [left, later, hashFirst, gather]

theorem applyFromFold {σ : Type} (action : σ → α → σ) (buckets : Nat → List α) (left i : Nat) (s : σ) :
    applyFrom action buckets i left s = ((List.range' i left).flatMap buckets).foldl action s := by
  induction left generalizing i s with
  | zero => rfl
  | succ left ih =>
    rw [applyFrom, ih, List.range'_succ, List.flatMap_cons, List.foldl_append]

theorem applyElements {σ : Type} (action : σ → α → σ) (s : σ) :
    hashApply h action s = (elements h).foldl action s := by
  rw [hashApply, applyFromFold, elements, gather, List.range_eq_range']

end Iteration

section Table
variable {α : Type} [DecidableEq α] {hash : α → Nat} {less : α → α → Bool}

/-- After any calls the table has behaved as a set with one element of each class, has counted its
elements, has put each into its bucket, and the iterator and hash_apply visit each of them once. -/
theorem hashRefines [IsStrictWeakOrder α (less · · = true)]
    (coherent : ∀ a b, Same less a b → hash a = hash b) {made h : Hash α} {outs : List (Op α × Outcome α)}
    (init : hashInit hash less true = some made) (ops : List (Op α × Bool))
    (ran : performAll made ops = (h, outs)) :
    Behaves (Same less) ∅ outs (contents h) ∧ Thin (Same less) (contents h) ∧
    ((elements h).Nodup ∧ h.elemCnt = (elements h).length) ∧
    (∃ k, 2 ≤ k ∧ h.bucketCnt = 2 ^ k) ∧
    (∀ i < h.bucketCnt, ∀ e ∈ h.buckets i, hash e &&& (h.bucketCnt - 1) = i) ∧
    (∀ (σ : Type) (action : σ → α → σ) (s : σ),
      hashApply h action s = (elements h).foldl action s) ∧
    ∀ fuel, h.elemCnt < fuel → iterate h fuel (hashFirst h) = elements h := by
  cases init
  have none : elements (hashClear (α := α) ⟨0, 4, fun _ => [], hash, less⟩ false).1 = [] := by
    simp [elements, hashClear, gather]
  have begun : Sound hash less (hashClear (α := α) ⟨0, 4, fun _ => [], hash, less⟩ false).1 := by
    refine ⟨rfl, rfl, ⟨2, Nat.le_refl 2, rfl⟩, fun _ _ _ mem => absurd mem List.not_mem_nil, ?_, ?_⟩
    · rw [none]
      exact .nil
    · rw [none]
      rfl
  have empty : contents (hashClear (α := α) ⟨0, 4, fun _ => [], hash, less⟩ false).1 = ∅ := by
    simp [contents, none]
  obtain ⟨sound, behaves⟩ := performAllBehaves coherent begun ops
  rw [ran] at sound behaves
  rw [empty] at behaves
  refine ⟨behaves, fun x inside y inside' => soundUnique sound inside inside',
    ⟨thinNodup sound.thin, sound.count⟩, sound.power, fun i less e mem => ?_,
    fun _ => applyElements, fun fuel enough => ?_⟩
  · rw [← sound.hashed]
    exact sound.placed i less e mem
  · have positive : 0 < h.bucketCnt := by
      obtain ⟨k, _, same⟩ := sound.power
      rw [same]
      exact Nat.two_pow_pos k
    rw [← firstLeft positive]
    refine iterateLeft ?_
    rw [firstLeft positive, ← sound.count]
    exact enough

end Table

def byKey (a b : Nat × Nat) : Bool := decide (a.1 < b.1)

theorem byKeyWeak : IsStrictWeakOrder (Nat × Nat) (byKey · · = true) where
  irrefl a := by simp [byKey]
  trans a b c := by simpa [byKey] using Nat.lt_trans
  incomp_trans a b c := by
    simp only [byKey, decide_eq_true_eq]
    omega

def fewCalls : List (Op (Nat × Nat) × Bool) :=
  [(.insert (1, 10), true), (.insert (1, 11), true), (.replace (1, 12), false),
    (.insert (5, 0), true), (.delete (1, 0), true)]

theorem hashRefinesExample : ∃ made h outs, hashInit Prod.fst byKey true = some made ∧
    performAll made fewCalls = (h, outs) ∧
    outs.map (fun call => call.2.elem) = [none, some (1, 10), some (1, 10), none, some (1, 12)] ∧
    Behaves (Same byKey) ∅ outs (contents h) := by
  have weak := byKeyWeak
  have coherent (a b : Nat × Nat) (equal : Same byKey a b) : a.1 = b.1 := by
    simp only [Same, byKey, decide_eq_false_iff_not] at equal
    omega
  exact ⟨_, _, _, rfl, rfl, by decide, (hashRefines coherent rfl fewCalls rfl).1⟩

end Pintos.HashTable
