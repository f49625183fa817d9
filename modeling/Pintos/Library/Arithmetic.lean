import Mathlib.Tactic.Ring
import Pintos.Lib.Machine

/-! 64-bit division (lib/arithmetic.c). Words are naturals below `2 ^ 64`, signed ones integers in
their range; what the code computes modulo `2 ^ 64` is written so. -/
namespace Pintos.Library
open Machine

inductive Trap where
  | divideError
  deriving DecidableEq, Repr

def divl (n d : Nat) : Except Trap Nat :=
  if d ≠ 0 ∧ n / d < 2 ^ 32 then .ok (n / d) else .error .divideError

def nlzTest (most shift : Nat) (seen : Nat × Nat) : Nat × Nat :=
  if seen.2 ≤ most then (seen.1 + shift, seen.2 * 2 ^ shift % 2 ^ 32) else seen

def nlz (x : Nat) : Nat :=
  (nlzTest 0x7FFFFFFF 1 (nlzTest 0x3FFFFFFF 2 (nlzTest 0x0FFFFFFF 4
    (nlzTest 0x00FFFFFF 8 (nlzTest 0x0000FFFF 16 (0, x)))))).1

def udiv64 (n d : Nat) : Except Trap Nat :=
  if d / 2 ^ 32 = 0 then do
    let n1 := n / 2 ^ 32
    let n0 := n % 2 ^ 32
    let d0 := d % 2 ^ 32
    let q ← divl ((2 ^ 32 * (n1 % d0) + n0) % 2 ^ 64) d0
    .ok ((q + 2 ^ 32 * (n1 / d0)) % 2 ^ 64)
  else if n < d then .ok 0
  else do
    let s := nlz (d / 2 ^ 32)
    let q ← divl (n / 2) (d * 2 ^ s % 2 ^ 64 / 2 ^ 32)
    let q := q / 2 ^ (31 - s)
    let less := (q + (2 ^ 64 - 1)) % 2 ^ 64
    .ok (if (n + (2 ^ 64 - less * d % 2 ^ 64)) % 2 ^ 64 < d then less else q)

def abs64 (n : Int) : Nat := if 0 ≤ n then (n % 2 ^ 64).toNat else (-(n % 2 ^ 64) % 2 ^ 64).toNat

def int64 (n : Int) : Int := n.bmod (2 ^ 64)

def sdiv64 (n d : Int) : Except Trap Int := do
  let q ← udiv64 (abs64 n) (abs64 d)
  .ok (if decide (n < 0) = decide (d < 0) then int64 q else int64 (-int64 q))

/-- The result is cut to uint32_t before `__umoddi3` widens it again. -/
def umod64 (n d : Nat) : Except Trap Nat := do
  let q ← udiv64 n d
  .ok ((n + (2 ^ 64 - d * q % 2 ^ 64)) % 2 ^ 64 % 2 ^ 32)

def int32 (n : Int) : Int := n.bmod (2 ^ 32)

def smod64 (n d : Int) : Except Trap Int := do
  let q ← sdiv64 n d
  .ok (int32 (int64 (n - int64 (d * q))))

def umoddi3 (n d : Nat) : Except Trap Nat := umod64 n d

def moddi3 (n d : Int) : Except Trap Int := smod64 n d

section Unsigned
variable {n d : Nat}
  {x : Nat}

theorem nlzTestSpec (k shift : Nat) (seen : Nat × Nat) (part : k + 2 * shift = 32)
    (low : 2 ^ k ≤ seen.2) (high : seen.2 < 2 ^ 32) (shifted : seen.2 = x * 2 ^ seen.1) :
    let seen' := nlzTest (2 ^ (k + shift) - 1) shift seen
    2 ^ (k + shift) ≤ seen'.2 ∧ seen'.2 < 2 ^ 32 ∧ seen'.2 = x * 2 ^ seen'.1 := by
  have positive : 0 < 2 ^ (k + shift) := Nat.two_pow_pos _
  unfold nlzTest
  split
  · rename_i small
    have room : seen.2 * 2 ^ shift < 2 ^ 32 := by
      calc seen.2 * 2 ^ shift < 2 ^ (k + shift) * 2 ^ shift :=
            Nat.mul_lt_mul_of_pos_right (by omega) (Nat.two_pow_pos _)
        _ = 2 ^ 32 := by rw [← Nat.pow_add, ← part]; congr 1; omega
    simp only [Nat.mod_eq_of_lt room]
    refine ⟨?_, room, ?_⟩
    · rw [Nat.pow_add]
      exact Nat.mul_le_mul_right _ low
    · rw [shifted, Nat.pow_add, Nat.mul_assoc]
  · rename_i large
    exact ⟨by omega, high, shifted⟩

theorem nlzSpec (positive : 0 < x) (high : x < 2 ^ 32) :
    2 ^ 31 ≤ x * 2 ^ nlz x ∧ x * 2 ^ nlz x < 2 ^ 32 := by
  obtain ⟨low₁, high₁, same₁⟩ := nlzTestSpec (x := x) 0 16 (0, x) rfl positive high (by simp)
  obtain ⟨low₂, high₂, same₂⟩ := nlzTestSpec 16 8 _ rfl low₁ high₁ same₁
  obtain ⟨low₃, high₃, same₃⟩ := nlzTestSpec 24 4 _ rfl low₂ high₂ same₂
  obtain ⟨low₄, high₄, same₄⟩ := nlzTestSpec 28 2 _ rfl low₃ high₃ same₃
  obtain ⟨low₅, high₅, same₅⟩ := nlzTestSpec 30 1 _ rfl low₄ high₄ same₄
  rw [same₅] at low₅ high₅
  exact ⟨low₅, high₅⟩

theorem udivSmall (word : n < 2 ^ 64) (nonzero : d ≠ 0) (small : d < 2 ^ 32) :
    udiv64 n d = .ok (n / d) := by
  have positive : 0 < d := Nat.pos_of_ne_zero nonzero
  have left : n / 2 ^ 32 % d < d := Nat.mod_lt _ positive
  have fits : 2 ^ 32 * (n / 2 ^ 32 % d) + n % 2 ^ 32 < 2 ^ 64 := by omega
  -- both parts of the quotient come from `n = b * n1 + n0`
  have parts : n = d * (2 ^ 32 * (n / 2 ^ 32 / d)) + (2 ^ 32 * (n / 2 ^ 32 % d) + n % 2 ^ 32) := by
    have high := Nat.div_add_mod (n / 2 ^ 32) d
    have whole := Nat.div_add_mod n (2 ^ 32)
    calc n = 2 ^ 32 * (d * (n / 2 ^ 32 / d) + n / 2 ^ 32 % d) + n % 2 ^ 32 := by rw [high, whole]
      _ = _ := by ring
  have quotient : n / d = (2 ^ 32 * (n / 2 ^ 32 % d) + n % 2 ^ 32) / d +
      2 ^ 32 * (n / 2 ^ 32 / d) := by
    conv_lhs => rw [parts]
    rw [Nat.mul_add_div positive, Nat.add_comm]
  have below : (2 ^ 32 * (n / 2 ^ 32 % d) + n % 2 ^ 32) / d < 2 ^ 32 := by
    rw [Nat.div_lt_iff_lt_mul positive]
    omega
  have whole : n / d < 2 ^ 64 := Nat.lt_of_le_of_lt (Nat.div_le_self n d) word
  unfold udiv64 divl
  rw [if_pos (Nat.div_eq_of_lt small)]
  simp only [Nat.mod_eq_of_lt small, Nat.mod_eq_of_lt fits]
  rw [if_pos ⟨nonzero, below⟩]
  refine bindOk.mpr ⟨_, rfl, ?_⟩
  rw [← quotient, Nat.mod_eq_of_lt whole]

theorem estimate {s : Nat} (word : n < 2 ^ 64) (bits : s ≤ 31) (low : 2 ^ 31 ≤ d / 2 ^ (32 - s)) :
    n / d ≤ n / (d / 2 ^ (32 - s) * 2 ^ (32 - s)) ∧
      n / (d / 2 ^ (32 - s) * 2 ^ (32 - s)) ≤ n / d + 1 := by
  obtain ⟨e, unit⟩ : ∃ e, e = 2 ^ (32 - s) := ⟨_, rfl⟩
  have product : 2 ^ s * e = 2 ^ 32 := by rw [unit, ← Nat.pow_add]; congr 1; omega
  have two : 2 ≤ e := by
    rw [unit]
    calc 2 = 2 ^ 1 := rfl
      _ ≤ 2 ^ (32 - s) := Nat.pow_le_pow_right (by decide) (by omega)
  rw [← unit] at low ⊢
  obtain ⟨v, lead⟩ : ∃ v, v = d / e := ⟨_, rfl⟩
  rw [← lead] at low ⊢
  have whole : e * v + d % e = d := lead ▸ Nat.div_add_mod d e
  have rest : d % e ≤ e - 1 := Nat.le_sub_one_of_lt (Nat.mod_lt _ (by omega))
  have positive : 0 < v * e := Nat.mul_pos (by omega) (by omega)
  have shorter : v * e ≤ d := by rw [Nat.mul_comm]; omega
  refine ⟨Nat.div_le_div_left shorter positive, Nat.le_of_lt_succ ?_⟩
  rw [Nat.div_lt_iff_lt_mul positive]
  have next : n < (n / d + 1) * d := by
    rw [Nat.mul_comm]
    exact Nat.lt_mul_div_succ n (Nat.lt_of_lt_of_le positive shorter)
  -- the quotient has at most s + 1 bits, since the divisor has 64 - s
  have few : n / d + 1 ≤ 2 ^ s * 2 := by
    have bound : n / d < 2 ^ s * 2 := by
      rw [Nat.div_lt_iff_lt_mul (Nat.lt_of_lt_of_le positive shorter)]
      calc n < 2 ^ 64 := word
        _ = 2 ^ s * e * 2 ^ 32 := by rw [product]; rfl
        _ = 2 ^ s * 2 * (2 ^ 31 * e) := by ring
        _ ≤ 2 ^ s * 2 * d := Nat.mul_le_mul_left _ ((Nat.mul_le_mul_right e low).trans shorter)
    exact bound
  have excess : (n / d + 1) * (d % e) ≤ v * e := by
    have most : 2 ^ s ≤ 2 ^ 31 := Nat.pow_le_pow_right (by decide) bits
    have sum : 2 ^ s * 2 * (e - 1) + 2 ^ s * 2 = 2 ^ 33 := by
      obtain ⟨e', rfl⟩ : ∃ e', e = e' + 1 := ⟨e - 1, by omega⟩
      rw [Nat.add_sub_cancel, ← Nat.mul_succ, Nat.mul_right_comm, product]
      rfl
    have half : 2 ^ 31 * e ≤ v * e := Nat.mul_le_mul_right e low
    calc (n / d + 1) * (d % e) ≤ 2 ^ s * 2 * (e - 1) := Nat.mul_le_mul few rest
      _ ≤ 2 ^ 31 * e := by
        rcases Nat.lt_or_ge s 31 with less | last
        · have four : 4 ≤ e := by
            rw [unit]
            calc 4 = 2 ^ 2 := rfl
              _ ≤ 2 ^ (32 - s) := Nat.pow_le_pow_right (by decide) (by omega)
          omega
        · obtain rfl : s = 31 := by omega
          omega
      _ ≤ v * e := half
  calc n < (n / d + 1) * d := next
    _ = (n / d + 1) * (v * e) + (n / d + 1) * (d % e) := by
        rw [← Nat.mul_add, Nat.mul_comm v e, whole]
    _ ≤ (n / d + 1) * (v * e) + v * e := Nat.add_le_add_left excess _
    _ = (n / d + 1).succ * (v * e) := (Nat.succ_mul _ _).symm

theorem udivLarge (word : n < 2 ^ 64) (word' : d < 2 ^ 64) (large : 2 ^ 32 ≤ d) (above : d ≤ n) :
    udiv64 n d = .ok (n / d) := by
  have lead : 0 < d / 2 ^ 32 := Nat.div_pos large (by decide)
  obtain ⟨low, high⟩ := nlzSpec lead (by omega)
  unfold udiv64 divl
  rw [if_neg (Nat.ne_of_gt lead), if_neg (Nat.not_lt.mpr above)]
  simp only
  generalize nlz (d / 2 ^ 32) = s at low high
  have bits : s ≤ 31 := by
    by_contra more
    have : 2 ^ 32 ≤ 2 ^ s := Nat.pow_le_pow_right (by decide) (by omega)
    have := Nat.le_mul_of_pos_left (2 ^ s) lead
    omega
  have product : 2 ^ s * 2 ^ (32 - s) = 2 ^ 32 := by rw [← Nat.pow_add]; congr 1; omega
  have fits : d * 2 ^ s < 2 ^ 64 := by
    have : d < (d / 2 ^ 32 + 1) * 2 ^ 32 := by omega
    calc d * 2 ^ s < (d / 2 ^ 32 + 1) * 2 ^ 32 * 2 ^ s :=
          Nat.mul_lt_mul_of_pos_right this (Nat.two_pow_pos _)
      _ = (d / 2 ^ 32 * 2 ^ s + 2 ^ s) * 2 ^ 32 := by ring
      _ ≤ 2 ^ 32 * 2 ^ 32 := Nat.mul_le_mul_right _ ?_
    have multiple : 2 ^ s ∣ 2 ^ 32 := ⟨_, product.symm⟩
    obtain ⟨c, whole⟩ := multiple
    rw [whole] at high ⊢
    rw [← Nat.succ_mul, Nat.mul_comm]
    refine Nat.mul_le_mul_left _ (Nat.succ_le_of_lt ?_)
    rw [Nat.mul_comm] at high
    exact Nat.lt_of_mul_lt_mul_left high
  have shifted : d * 2 ^ s / 2 ^ 32 = d / 2 ^ (32 - s) := by
    rw [← product, Nat.mul_comm d, Nat.mul_div_mul_left _ _ (Nat.two_pow_pos s)]
  have normal : 2 ^ 31 ≤ d / 2 ^ (32 - s) := by
    rw [← shifted]
    refine low.trans ?_
    rw [Nat.le_div_iff_mul_le (by decide), Nat.mul_right_comm]
    exact Nat.mul_le_mul_right _ (Nat.div_mul_le_self d _)
  obtain ⟨enough, close⟩ := estimate word bits normal
  rw [Nat.mod_eq_of_lt fits, shifted]
  have quotient : n / 2 / (d / 2 ^ (32 - s)) / 2 ^ (31 - s) =
      n / (d / 2 ^ (32 - s) * 2 ^ (32 - s)) := by
    rw [Nat.div_div_eq_div_mul, Nat.div_div_eq_div_mul]
    congr 1
    rw [show 32 - s = 31 - s + 1 by omega, Nat.pow_succ]
    ring
  have small : n / 2 / (d / 2 ^ (32 - s)) < 2 ^ 32 := by
    rw [Nat.div_lt_iff_lt_mul (by omega)]
    omega
  rw [if_pos ⟨by omega, small⟩]
  refine bindOk.mpr ⟨_, rfl, ?_⟩
  rw [quotient]
  have one : 1 ≤ n / d := Nat.div_pos above (by omega)
  have less : n / d ≤ n := Nat.div_le_self n d
  have whole := Nat.div_add_mod n d
  have rest : n % d < d := Nat.mod_lt n (by omega)
  generalize n / (d / 2 ^ (32 - s) * 2 ^ (32 - s)) = q at enough close ⊢
  have back {a : Nat} (within : a ≤ n) : (n + (2 ^ 64 - a % 2 ^ 64)) % 2 ^ 64 = n - a := by omega
  have less : (q + (2 ^ 64 - 1)) % 2 ^ 64 = q - 1 := by omega
  rw [less]
  rcases Nat.lt_or_eq_of_le close with below | same
  · obtain rfl : q = n / d := by omega
    have previous : (n / d - 1) * d + d = d * (n / d) := by
      rw [← Nat.succ_mul, Nat.succ_eq_add_one, Nat.sub_add_cancel one, Nat.mul_comm]
    rw [back (by omega), if_neg (by omega)]
  · rw [same, Nat.add_sub_cancel, back (Nat.div_mul_le_self n d), Nat.mul_comm, if_pos (by omega)]

theorem udivSpec (word : n < 2 ^ 64) (word' : d < 2 ^ 64) (nonzero : d ≠ 0) :
    udiv64 n d = .ok (n / d) := by
  rcases Nat.lt_or_ge d (2 ^ 32) with small | large
  · exact udivSmall word nonzero small
  · rcases Nat.lt_or_ge n d with below | above
    · unfold udiv64
      rw [if_neg (by omega), if_pos below, Nat.div_eq_of_lt below]
    · exact udivLarge word word' large above

theorem umodSpec (word : n < 2 ^ 64) (word' : d < 2 ^ 64) (nonzero : d ≠ 0) :
    umoddi3 n d = .ok (n % d % 2 ^ 32) := by
  have whole := Nat.div_add_mod n d
  unfold umoddi3 umod64
  rw [udivSpec word word' nonzero]
  refine congrArg Except.ok ?_
  generalize d * (n / d) = product at whole ⊢
  omega

end Unsigned

section Signed
variable {n d : Int}

theorem absSpec (low : -2 ^ 63 ≤ n) (high : n < 2 ^ 63) : abs64 n = n.natAbs := by
  unfold abs64
  split <;> omega

theorem int64Same (low : -2 ^ 63 ≤ n) (high : n < 2 ^ 63) : int64 n = n :=
  Int.bmod_eq_of_le (by omega) (by omega)

theorem tdivAbs (n d : Int) : n.tdiv d =
    if decide (n < 0) = decide (d < 0) then ((n.natAbs / d.natAbs : Nat) : Int)
    else -((n.natAbs / d.natAbs : Nat) : Int) := by
  rcases Int.lt_or_le n 0 with below | above <;> rcases Int.lt_or_le d 0 with below' | above'
  · rw [if_pos (decide_eq_decide.mpr (by omega))]
    obtain ⟨a, rfl⟩ := Int.exists_eq_neg_ofNat below.le
    obtain ⟨b, rfl⟩ := Int.exists_eq_neg_ofNat below'.le
    simp [Int.neg_tdiv, Int.tdiv_neg]
  · rw [if_neg (by rw [decide_eq_decide]; omega)]
    obtain ⟨a, rfl⟩ := Int.exists_eq_neg_ofNat below.le
    obtain ⟨b, rfl⟩ := Int.eq_ofNat_of_zero_le above'
    simp [Int.neg_tdiv]
  · rw [if_neg (by rw [decide_eq_decide]; omega)]
    obtain ⟨a, rfl⟩ := Int.eq_ofNat_of_zero_le above
    obtain ⟨b, rfl⟩ := Int.exists_eq_neg_ofNat below'.le
    simp [Int.tdiv_neg]
  · rw [if_pos (decide_eq_decide.mpr (by omega))]
    obtain ⟨a, rfl⟩ := Int.eq_ofNat_of_zero_le above
    obtain ⟨b, rfl⟩ := Int.eq_ofNat_of_zero_le above'
    simp

theorem sdivSpec (low : -2 ^ 63 ≤ n) (high : n < 2 ^ 63) (low' : -2 ^ 63 ≤ d) (high' : d < 2 ^ 63)
    (nonzero : d ≠ 0) (exceeds : ¬(n = -2 ^ 63 ∧ d = -1)) : sdiv64 n d = .ok (n.tdiv d) := by
  have quotient : udiv64 n.natAbs d.natAbs = .ok (n.natAbs / d.natAbs) :=
    udivSpec (by omega) (by omega) (by omega)
  have most : n.natAbs / d.natAbs ≤ n.natAbs := Nat.div_le_self _ _
  have halves (two : 2 ≤ d.natAbs) : n.natAbs / d.natAbs ≤ n.natAbs / 2 :=
    Nat.div_le_div_left two (by decide)
  unfold sdiv64
  rw [absSpec low high, absSpec low' high', quotient, tdivAbs]
  refine congrArg Except.ok ?_
  generalize n.natAbs / d.natAbs = q at most halves ⊢
  split
  · rename_i same
    simp only [decide_eq_decide] at same
    have fits : q < 2 ^ 63 := by
      rcases Nat.lt_or_ge n.natAbs (2 ^ 63) with less | least
      · exact Nat.lt_of_le_of_lt most less
      · have half := halves (by omega)
        omega
    exact int64Same (by omega) (by omega)
  · rcases Nat.lt_or_ge q (2 ^ 63) with less | least
    · rw [int64Same (n := q) (by omega) (by omega)]
      exact int64Same (by omega) (by omega)
    · obtain rfl : q = 2 ^ 63 := by omega
      decide

/-- Neither division traps, and both give the quotient: rounded down, and towards zero. -/
theorem quotient64 :
    (∀ n d : Nat, n < 2 ^ 64 → d < 2 ^ 64 → d ≠ 0 → udiv64 n d = .ok (n / d)) ∧
    ∀ n d : Int, -2 ^ 63 ≤ n → n < 2 ^ 63 → -2 ^ 63 ≤ d → d < 2 ^ 63 → d ≠ 0 →
      ¬(n = -2 ^ 63 ∧ d = -1) → sdiv64 n d = .ok (n.tdiv d) :=
  ⟨fun _ _ => udivSpec, fun _ _ => sdivSpec⟩

theorem quotient64Example : udiv64 (2 ^ 64 - 1) (2 ^ 32 + 1) = .ok (2 ^ 32 - 1) ∧
    sdiv64 (-2 ^ 63) 3 = .ok ((-2 ^ 63 : Int).tdiv 3) :=
  ⟨quotient64.1 _ _ (by decide) (by decide) (by decide),
    quotient64.2 _ _ (by decide) (by decide) (by decide) (by decide) (by decide) (by decide)⟩

theorem smodSpec (low : -2 ^ 63 ≤ n) (high : n < 2 ^ 63) (low' : -2 ^ 63 ≤ d) (high' : d < 2 ^ 63)
    (nonzero : d ≠ 0) (exceeds : ¬(n = -2 ^ 63 ∧ d = -1)) :
    moddi3 n d = .ok (int32 (n.tmod d)) := by
  have whole := Int.mul_tdiv_add_tmod n d
  -- the remainder lies between 0 and n, so neither the product nor the difference wraps
  have least : (n.tmod d).natAbs ≤ n.natAbs := by
    rw [Int.natAbs_tmod]
    exact Nat.mod_le _ _
  have above (positive : 0 ≤ n) : 0 ≤ n.tmod d := Int.tmod_nonneg d positive
  have below (negative : n ≤ 0) : n.tmod d ≤ 0 := by
    have opposite : 0 ≤ (-n).tmod d := Int.tmod_nonneg d (by omega)
    rw [Int.neg_tmod] at opposite
    omega
  unfold moddi3 smod64
  rw [sdivSpec low high low' high' nonzero exceeds]
  refine congrArg (fun r => Except.ok (int32 r)) ?_
  generalize d * n.tdiv d = product at whole ⊢
  rw [int64Same (n := product) (by omega) (by omega), int64Same (by omega) (by omega)]
  omega

theorem int32Same : int32 n = n ↔ -2 ^ 31 ≤ n ∧ n < 2 ^ 31 := by
  unfold int32
  rw [Int.bmod_def]
  omega

/-- The remainders are right, and agree with the quotients, exactly where they fit 32 bits. -/
theorem remainder64 (n d : Nat) (m e : Int) :
    (n < 2 ^ 64 → d < 2 ^ 64 → d ≠ 0 → ∃ q r, udiv64 n d = .ok q ∧ umoddi3 n d = .ok r ∧
      (r = n % d ↔ n % d < 2 ^ 32) ∧ (n = d * q + r ↔ n % d < 2 ^ 32)) ∧
    (-2 ^ 63 ≤ m → m < 2 ^ 63 → -2 ^ 63 ≤ e → e < 2 ^ 63 → e ≠ 0 →
      ¬(m = -2 ^ 63 ∧ e = -1) → ∃ q r, sdiv64 m e = .ok q ∧ moddi3 m e = .ok r ∧
      (r = m.tmod e ↔ -2 ^ 31 ≤ m.tmod e ∧ m.tmod e < 2 ^ 31) ∧
      (m = e * q + r ↔ -2 ^ 31 ≤ m.tmod e ∧ m.tmod e < 2 ^ 31)) := by
  constructor
  · intro word word' nonzero
    refine ⟨_, _, udivSpec word word' nonzero, umodSpec word word' nonzero, by omega, ?_⟩
    have whole := Nat.div_add_mod n d
    generalize d * (n / d) = product at whole ⊢
    omega
  · intro low high low' high' nonzero exceeds
    refine ⟨_, _, sdivSpec low high low' high' nonzero exceeds,
      smodSpec low high low' high' nonzero exceeds, int32Same, ?_⟩
    rw [← int32Same]
    have whole := Int.mul_tdiv_add_tmod m e
    generalize e * m.tdiv e = product at whole ⊢
    omega

theorem remainder64Example : ∃ q r, udiv64 7 (2 ^ 32 + 1) = .ok q ∧ umoddi3 7 (2 ^ 32 + 1) = .ok r ∧
    (r = 7 % (2 ^ 32 + 1) ↔ 7 % (2 ^ 32 + 1) < 2 ^ 32) ∧
    (7 = (2 ^ 32 + 1) * q + r ↔ 7 % (2 ^ 32 + 1) < 2 ^ 32) :=
  (remainder64 _ _ 0 1).1 (by decide) (by decide) (by decide)

/-- A divisor above 2 ^ 32 leaves a remainder of 33 bits. -/
theorem remainderCut : umoddi3 (2 ^ 32) (2 ^ 32 + 1) = .ok 0 ∧ 2 ^ 32 % (2 ^ 32 + 1) = 2 ^ 32 ∧
    moddi3 (-2 ^ 31 - 1) (2 ^ 32) = .ok (2 ^ 31 - 1) ∧
    (-2 ^ 31 - 1 : Int).tmod (2 ^ 32) = -2 ^ 31 - 1 := by
  decide

end Signed
end Pintos.Library
