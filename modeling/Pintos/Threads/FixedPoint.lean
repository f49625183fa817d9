import Mathlib.Tactic.Linarith

/-! The conversions of threads/fixed-point.h. An `int` that overflows is an error. -/
namespace Pintos.Threads

inductive FixFault where
  | assertion
  | overflow
  deriving DecidableEq, Repr

def fixF : Int := 2 ^ 16
def fixMaxInt : Int := 2 ^ 16 - 1
def fixMinInt : Int := -fixMaxInt

theorem fixFValue : fixF = 65536 := rfl

abbrev CInt := {n : Int // -2 ^ 31 ≤ n ∧ n < 2 ^ 31}

def int (n : Int) : Except FixFault CInt :=
  if fits : -2 ^ 31 ≤ n ∧ n < 2 ^ 31 then .ok ⟨n, fits⟩ else .error .overflow

structure FixedPoint where
  f : CInt
  deriving DecidableEq, Repr

def mkFix (f : CInt) : FixedPoint := ⟨f⟩

def fixInt (n : Int) : Except FixFault FixedPoint := do
  if n ≥ fixMinInt ∧ n ≤ fixMaxInt then return mkFix (← int (n * fixF)) else throw .assertion

def fixRound (x : FixedPoint) : Except FixFault Int :=
  return (← int (x.f + fixF / 2)).val.tdiv fixF

def fixTrunc (x : FixedPoint) : Int := x.f.val.tdiv fixF

section Conversion
variable {n f r : Int} {x : FixedPoint}

theorem intFits (fits : -2 ^ 31 ≤ n ∧ n < 2 ^ 31) : int n = .ok ⟨n, fits⟩ := dif_pos fits

theorem fixIntOk (admitted : fixMinInt ≤ n ∧ n ≤ fixMaxInt) :
    fixInt n = .ok x ↔ x.f = n * fixF := by
  rw [fixInt, if_pos admitted]
  constructor
  · intro made
    unfold int at made
    split at made <;> cases made
    rfl
  · intro same
    rw [← same, intFits x.f.property]
    rfl

theorem fixIntFits (admitted : fixMinInt ≤ n ∧ n ≤ fixMaxInt) :
    (∃ x, fixInt n = .ok x) ↔ -2 ^ 15 ≤ n ∧ n < 2 ^ 15 := by
  simp only [fixIntOk admitted, fixFValue]
  constructor
  · rintro ⟨x, same⟩
    have range := x.f.property
    omega
  · intro small
    exact ⟨⟨n * 65536, by omega⟩, rfl⟩

theorem fixRoundOk (fits : x.f + fixF / 2 < 2 ^ 31) :
    fixRound x = .ok ((x.f + fixF / 2).tdiv fixF) := by
  have range : -2 ^ 31 ≤ x.f + fixF / 2 ∧ x.f + fixF / 2 < 2 ^ 31 := by
    have range := x.f.property
    rw [fixFValue] at *
    omega
  rw [fixRound, intFits range]
  rfl

-- C divides towards zero.
theorem tdivCases (f : Int) :
    0 ≤ f ∧ f.tdiv fixF = f / 65536 ∨ f < 0 ∧ f.tdiv fixF = -(-f / 65536) := by
  rcases lt_or_ge f 0 with negative | positive
  · refine .inr ⟨negative, ?_⟩
    rw [← Int.tdiv_eq_ediv_of_nonneg (Int.neg_nonneg_of_nonpos (Int.le_of_lt negative)),
      Int.neg_tdiv, Int.neg_neg, fixFValue]
  · exact .inl ⟨positive, Int.tdiv_eq_ediv_of_nonneg positive⟩

theorem truncInt (whole : x.f = n * fixF) : fixTrunc x = n := by
  rw [fixTrunc, whole]
  exact Int.mul_tdiv_cancel n (by decide)

theorem roundInt (whole : x.f = n * fixF) (small : n < 2 ^ 15) : fixRound x = .ok n ↔ 0 ≤ n := by
  have fits : x.f + fixF / 2 < 2 ^ 31 := by
    rw [whole, fixFValue]
    omega
  rw [fixRoundOk fits, Except.ok.injEq, whole]
  rcases tdivCases (n * fixF + fixF / 2) with ⟨sign, value⟩ | ⟨sign, value⟩ <;>
    rw [value] <;> rw [fixFValue] at * <;> omega

theorem halfApart : |(r : ℚ) - f / fixF| ≤ 1 / 2 ↔
    f - 32768 ≤ 65536 * r ∧ 65536 * r ≤ f + 32768 := by
  rw [fixFValue, abs_le]
  push_cast
  constructor
  · rintro ⟨low, high⟩
    have below : (f : ℚ) - 32768 ≤ 65536 * r := by linarith
    have above : 65536 * (r : ℚ) ≤ f + 32768 := by linarith
    exact ⟨by exact_mod_cast below, by exact_mod_cast above⟩
  · rintro ⟨low, high⟩
    have below : (f : ℚ) - 32768 ≤ 65536 * r := by exact_mod_cast low
    have above : 65536 * (r : ℚ) ≤ f + 32768 := by exact_mod_cast high
    exact ⟨by linarith, by linarith⟩

theorem roundNear (fits : x.f + fixF / 2 < 2 ^ 31) :
    (∃ r : Int, fixRound x = .ok r ∧ |(r : ℚ) - x.f / fixF| ≤ 1 / 2) ↔
      -(fixF / 2) ≤ x.f ∨ fixF ∣ x.f + fixF / 2 := by
  simp only [fixRoundOk fits, Except.ok.injEq, exists_eq_left', halfApart]
  rcases tdivCases (x.f + fixF / 2) with ⟨sign, value⟩ | ⟨sign, value⟩ <;>
    rw [value] <;> rw [fixFValue] at * <;> omega

theorem fixConversion (n : Int) (admitted : fixMinInt ≤ n ∧ n ≤ fixMaxInt) (x : FixedPoint)
    (fits : x.f + fixF / 2 < 2 ^ 31) :
    ((∃ y, fixInt n = .ok y ∧ fixTrunc y = n) ↔ -2 ^ 15 ≤ n ∧ n < 2 ^ 15) ∧
    ((∃ y, fixInt n = .ok y ∧ fixTrunc y = n ∧ fixRound y = .ok n) ↔ 0 ≤ n ∧ n < 2 ^ 15) ∧
    ((∃ r : Int, fixRound x = .ok r ∧ |(r : ℚ) - x.f / fixF| ≤ 1 / 2) ↔
      -(fixF / 2) ≤ x.f ∨ fixF ∣ x.f + fixF / 2) := by
  have converts := fixIntFits admitted
  have whole {y : FixedPoint} (made : fixInt n = .ok y) := (fixIntOk admitted).mp made
  refine ⟨?_, ?_, roundNear fits⟩
  · constructor
    · rintro ⟨y, made, _⟩
      exact converts.mp ⟨y, made⟩
    · intro small
      obtain ⟨y, made⟩ := converts.mpr small
      exact ⟨y, made, truncInt (whole made)⟩
  · constructor
    · rintro ⟨y, made, _, rounded⟩
      have small := converts.mp ⟨y, made⟩
      exact ⟨(roundInt (whole made) small.2).mp rounded, small.2⟩
    · rintro ⟨positive, small⟩
      obtain ⟨y, made⟩ := converts.mpr ⟨by omega, small⟩
      exact ⟨y, made, truncInt (whole made), (roundInt (whole made) small).mpr positive⟩

theorem fixConversionExample : ∃ y, fixInt 5 = .ok y ∧ fixTrunc y = 5 ∧ fixRound y = .ok 5 :=
  (fixConversion 5 (by decide) ⟨0, by decide⟩ (by decide)).2.1.mpr (by decide)

theorem fixLost : fixInt (2 ^ 15) = .error .overflow ∧ (fixInt (-1) >>= fixRound) = .ok 0 := by
  decide

end Conversion
end Pintos.Threads
