import Mathlib.Data.Nat.Bitwise
import Pintos.Memory.Paging

/-! The bits of addresses and entries: which page an entry points at, and which entry belongs to an
address. -/
namespace Pintos.Memory

section Indices
variable {va u : Word}

theorem pgOfsNat (va : Word) : (pgOfs va).toNat = va.toNat % 4096 := by
  rw [pgOfs, BitVec.toNat_and]
  exact Nat.and_two_pow_sub_one_eq_mod va.toNat 12

theorem aligned : pgOfs va = 0#32 ↔ va.toNat % 4096 = 0 := by
  rw [← pgOfsNat]
  exact ⟨fun zero => congrArg BitVec.toNat zero, fun zero => BitVec.eq_of_toNat_eq zero⟩

theorem pdNoNat (va : Word) : pdNo va = va.toNat / 2 ^ 22 := by
  rw [pdNo, BitVec.toNat_ushiftRight, Nat.shiftRight_eq_div_pow]

theorem ptNoNat (va : Word) : ptNo va = va.toNat / 4096 % 1024 := by
  rw [ptNo, BitVec.toNat_ushiftRight, BitVec.toNat_and, Nat.shiftRight_and_distrib,
    Nat.shiftRight_eq_div_pow]
  exact Nat.and_two_pow_sub_one_eq_mod (va.toNat / 4096) 10

theorem ptNoLt (va : Word) : ptNo va < 1024 := by
  rw [ptNoNat]
  exact Nat.mod_lt _ (by decide)

theorem pdNoLt (user : va < physBase) : pdNo va < 768 := by
  have below : va.toNat < 3221225472 := user
  rw [pdNoNat]
  omega

theorem pdNoPast (kernel : physBase ≤ va) : 768 ≤ pdNo va := by
  have above : 3221225472 ≤ va.toNat := kernel
  rw [pdNoNat]
  omega

theorem splitOffset (va : Word) : pgRoundDown va + pgOfs va = va := by
  have apart : pgRoundDown va &&& pgOfs va = 0#32 := by
    rw [pgRoundDown, pgOfs]
    ext i
    simp only [BitVec.getElem_and, BitVec.getElem_not]
    cases va[i] <;> cases pgMask[i] <;> simp
  rw [BitVec.add_eq_or_of_and_eq_zero _ _ apart, pgRoundDown, pgOfs, ← BitVec.and_or_distrib_left,
    show ~~~pgMask ||| pgMask = BitVec.allOnes 32 by decide, BitVec.and_allOnes]

theorem pgRoundDownNat (va : Word) : (pgRoundDown va).toNat = va.toNat / 4096 * 4096 := by
  have split := congrArg BitVec.toNat (splitOffset va)
  have less : (pgRoundDown va).toNat ≤ va.toNat := by
    rw [pgRoundDown, BitVec.toNat_and]
    exact Nat.and_le_left
  rw [BitVec.toNat_add, pgOfsNat] at split
  omega

theorem sameEntry (whole : pgOfs u = 0#32) :
    pdNo u = pdNo va ∧ ptNo u = ptNo va ↔ u = pgRoundDown va := by
  have round := pgRoundDownNat va
  rw [aligned] at whole
  rw [pdNoNat, pdNoNat, ptNoNat, ptNoNat]
  constructor
  · rintro ⟨table, entry⟩
    apply BitVec.eq_of_toNat_eq
    omega
  · rintro rfl
    omega

theorem roundAligned (whole : pgOfs u = 0#32) : u = pgRoundDown u :=
  (sameEntry whole).mp ⟨rfl, rfl⟩

theorem roundDownAligned (va : Word) : pgOfs (pgRoundDown va) = 0#32 := by
  rw [aligned, pgRoundDownNat]
  omega

theorem roundDownUser (user : va < physBase) : pgRoundDown va < physBase := by
  have round := pgRoundDownNat va
  have below : va.toNat < 3221225472 := user
  change (pgRoundDown va).toNat < 3221225472
  omega

theorem pageOfEntry {i j : Nat} (table : i < 768) (entry : j < 1024) :
    ∃ page : Word, pgOfs page = 0#32 ∧ page < physBase ∧ pdNo page = i ∧ ptNo page = j := by
  have whole : (BitVec.ofNat 32 (i * 2 ^ 22 + j * 4096)).toNat = i * 2 ^ 22 + j * 4096 := by
    rw [BitVec.toNat_ofNat, Nat.mod_eq_of_lt (by omega)]
  refine ⟨BitVec.ofNat 32 (i * 2 ^ 22 + j * 4096), ?_, ?_, ?_, ?_⟩
  · rw [aligned, whole]
    omega
  · change (BitVec.ofNat 32 (i * 2 ^ 22 + j * 4096)).toNat < 3221225472
    rw [whole]
    omega
  · rw [pdNoNat, whole]
    omega
  · rw [ptNoNat, whole]
    omega

end Indices

section Entries
variable {ram : Nat} {page e flag : Word}

structure Ram (ram : Nat) (page : Word) : Prop where
  whole : pgOfs page = 0#32
  kernel : physBase ≤ page
  inside : ((page - physBase) >>> 12).toNat < ram

def entryAt (e : Word) : Option Word :=
  if e &&& pteP = 0#32 then none else some ((e &&& pteAddr) + physBase)

theorem vtopOk (kernel : physBase ≤ page) : vtop page = .ok (page - physBase) := if_pos kernel

theorem ptovOk (kernel : physBase ≤ page) : ptov (page - physBase) = .ok page := by
  have below : page - physBase < physBase := by
    unfold physBase at kernel ⊢
    bv_omega
  rw [ptov, if_pos below, BitVec.sub_add_cancel]

theorem entrySome : entryAt e = some page ↔ e &&& pteP ≠ 0#32 ∧ e &&& pteAddr = page - physBase := by
  unfold entryAt
  split
  · rename_i absent
    simp [absent]
  · rename_i present
    simp only [Option.some.injEq, ne_eq, present, not_false_eq_true, true_and]
    constructor
    · rintro rfl
      rw [BitVec.add_sub_cancel]
    · intro same
      rw [same, BitVec.sub_add_cancel]

theorem entryNone : entryAt e = none ↔ e &&& pteP = 0#32 := by
  unfold entryAt
  split <;> simp_all

theorem entryZero : entryAt 0#32 = none := by decide

theorem entryMade (frame : Ram ram page) (present : flag &&& pteP ≠ 0#32)
    (flags : flag &&& pteAddr = 0#32) : entryAt ((page - physBase) ||| flag) = some page := by
  have whole : pgOfs (page - physBase) = 0#32 := by
    have whole := frame.whole
    have kernel := frame.kernel
    rw [aligned] at whole ⊢
    unfold physBase at kernel ⊢
    bv_omega
  have address : (page - physBase) &&& pteAddr = page - physBase := by
    have split := splitOffset (page - physBase)
    rw [whole] at split
    exact (BitVec.add_zero _).symm.trans split
  rw [entrySome, BitVec.and_or_distrib_right, BitVec.and_or_distrib_right, address, flags]
  exact ⟨fun absent => present (BitVec.or_eq_zero_iff.mp absent).2, BitVec.or_zero⟩

theorem pdeCreateOk (frame : Ram ram page) :
    ∃ e, pdeCreate page = .ok e ∧ entryAt e = some page := by
  refine ⟨(page - physBase) ||| (pteU ||| pteP ||| pteW), ?_, entryMade frame (by decide) (by decide)⟩
  rw [pdeCreate, if_neg (not_not.mpr frame.whole), vtopOk frame.kernel]
  simp only [BitVec.or_assoc]
  rfl

theorem pteCreateUserOk (frame : Ram ram page) (writable : Bool) :
    ∃ e, pteCreateUser page writable = .ok e ∧ entryAt e = some page := by
  refine ⟨(page - physBase) ||| (pteP ||| (if writable then pteW else 0#32) ||| pteU), ?_,
    entryMade frame (by cases writable <;> decide) (by cases writable <;> decide)⟩
  rw [pteCreateUser, pteCreateKernel, if_neg (not_not.mpr frame.whole), vtopOk frame.kernel,
    BitVec.or_assoc pteP, ← BitVec.or_assoc _ pteP, ← BitVec.or_assoc _ _ pteU]
  rfl

theorem pteGetPageOk (points : entryAt e = some page) (kernel : physBase ≤ page) :
    pteGetPage e = .ok page := by
  rw [pteGetPage, (entrySome.mp points).2, ptovOk kernel]

theorem pdeGetPtOk (points : entryAt e = some page) (kernel : physBase ≤ page) :
    pdeGetPt e = .ok page := by
  rw [pdeGetPt, if_neg (entrySome.mp points).1, (entrySome.mp points).2, ptovOk kernel]

theorem entryCleared (e : Word) : entryAt (e &&& ~~~pteP) = none := by
  rw [entryNone, BitVec.and_assoc, BitVec.not_and_self]
  exact BitVec.and_zero

theorem flagApart {mask : Word} (on : Bool) (apart : flag &&& mask = 0#32) :
    (if on then e ||| flag else e &&& ~~~flag) &&& mask = e &&& mask := by
  cases on with
  | true =>
    rw [if_pos rfl, BitVec.and_or_distrib_right, apart]
    exact BitVec.or_zero
  | false =>
    have kept : mask = ~~~flag &&& mask := by
      have split : mask = (flag ||| ~~~flag) &&& mask := by
        rw [BitVec.or_not_self, BitVec.allOnes_and]
      rw [BitVec.and_or_distrib_right, apart] at split
      exact split.trans BitVec.zero_or
    rw [if_neg (by decide), BitVec.and_assoc, ← kept]

theorem entryFlag (on : Bool) (absent : flag &&& pteP = 0#32) (flags : flag &&& pteAddr = 0#32) :
    entryAt (if on then e ||| flag else e &&& ~~~flag) = entryAt e := by
  unfold entryAt
  rw [flagApart on absent, flagApart on flags]

end Entries

end Pintos.Memory
