import Mathlib.Analysis.Complex.Basic
import Mathlib.Analysis.Complex.Exponential
import Mathlib.Analysis.Complex.Trigonometric
import Mathlib.NumberTheory.Zsqrtd.GaussianInt
import Mathlib.Tactic.FieldSimp
import Mathlib.Tactic.GCongr
import Mathlib.Tactic.Linarith
import Mathlib.Tactic.Positivity

/-! # Sines of whole numbers

The sine of a whole number of radians is the imaginary part of a power of `exp I`. The
first terms of the exponential series, over a common denominator, are a Gaussian integer
whose powers enclose it. -/

namespace FunDB.Sines

open Complex

/-! ## The exponential series at `I` -/

/-- `n!` times the first `n + 1` terms of the series. -/
def scaledSeries : Nat → GaussianInt
  | 0 => 1
  | n + 1 => (n + 1 : Nat) * scaledSeries n + ⟨0, 1⟩ ^ (n + 1)

theorem toComplex_scaledSeries (n : Nat) :
    (scaledSeries n : ℂ) = n.factorial * ∑ m ∈ Finset.range (n + 1), I ^ m / m.factorial := by
  induction n with
  | zero => simp [scaledSeries]
  | succ n induction =>
      have unit : ((⟨0, 1⟩ : GaussianInt) : ℂ) = I := by simp [GaussianInt.toComplex_def']
      have nonzero : ((n + 1).factorial : ℂ) ≠ 0 := Nat.cast_ne_zero.mpr (Nat.factorial_ne_zero _)
      rw [scaledSeries, map_add, map_mul, map_natCast, map_pow, unit, induction,
        Finset.sum_range_succ _ (n + 1), mul_add, mul_div_cancel₀ _ nonzero, Nat.factorial_succ]
      push_cast
      ring

/-- How far the first terms are from the whole series. -/
theorem norm_exp_sub_le (n : Nat) :
    ‖exp I - scaledSeries n / n.factorial‖ ≤
      (n + 2 : ℝ) * ((n + 1).factorial * (n + 1 : ℝ))⁻¹ := by
  have nonzero : (n.factorial : ℂ) ≠ 0 := Nat.cast_ne_zero.mpr (Nat.factorial_ne_zero _)
  have bound := exp_bound (x := I) (by rw [norm_I]) (Nat.succ_pos n)
  rw [toComplex_scaledSeries, mul_div_cancel_left₀ _ nonzero]
  refine bound.trans (le_of_eq ?_)
  rw [norm_I, one_pow, one_mul]
  push_cast
  ring

/-! ## Powers -/

theorem norm_pow_sub_pow_le {left right : ℂ} (leftSmall : ‖left‖ ≤ 1) (rightSmall : ‖right‖ ≤ 1)
    (n : Nat) : ‖left ^ n - right ^ n‖ ≤ n * ‖left - right‖ := by
  induction n with
  | zero => simp
  | succ n induction =>
      have split : left ^ (n + 1) - right ^ (n + 1) =
          left ^ n * (left - right) + (left ^ n - right ^ n) * right := by ring
      have first : ‖left ^ n * (left - right)‖ ≤ 1 * ‖left - right‖ := by
        rw [Complex.norm_mul, Complex.norm_pow]
        gcongr
        exact pow_le_one₀ (norm_nonneg _) leftSmall
      have second : ‖(left ^ n - right ^ n) * right‖ ≤ n * ‖left - right‖ * 1 := by
        rw [Complex.norm_mul]
        gcongr
      calc
        ‖left ^ (n + 1) - right ^ (n + 1)‖ ≤
            ‖left ^ n * (left - right)‖ + ‖(left ^ n - right ^ n) * right‖ := by
          rw [split]
          exact norm_add_le _ _
        _ ≤ 1 * ‖left - right‖ + n * ‖left - right‖ * 1 := add_le_add first second
        _ = (n + 1 : Nat) * ‖left - right‖ := by
          push_cast
          ring

theorem im_exp_I_pow (n : Nat) : (exp I ^ n).im = Real.sin n := by
  rw [← exp_nat_mul]
  exact exp_ofReal_mul_I_im n

/-! ## Enclosures -/

/-- The numerator of the enclosure of a sine, over `35 ! ^ n`. -/
def scaledSine (n : Nat) : Int := (scaledSeries 35 ^ n).im

theorem norm_scaledSeries_le : ‖(scaledSeries 35 : ℂ) / (Nat.factorial 35 : ℂ)‖ ≤ 1 := by
  have small : (scaledSeries 35).norm ≤ (Nat.factorial 35 : Int) ^ 2 := by decide +kernel
  have positive : (0 : ℝ) < Nat.factorial 35 := Nat.cast_pos.mpr (Nat.factorial_pos 35)
  have square : ‖(scaledSeries 35 : ℂ)‖ ^ 2 ≤ (Nat.factorial 35 : ℝ) ^ 2 := by
    rw [Complex.sq_norm, ← GaussianInt.intCast_real_norm]
    exact_mod_cast small
  rw [norm_div, norm_natCast, div_le_one positive]
  exact abs_le_of_sq_le_sq' square positive.le |>.2

theorem norm_exp_sub_enclosure_le :
    ‖exp I - scaledSeries 35 / (Nat.factorial 35 : ℂ)‖ ≤ (2 ^ 138 : ℝ)⁻¹ := by
  have rest : (35 + 2 : ℝ) * ((35 + 1).factorial * (35 + 1 : ℝ))⁻¹ ≤ (2 ^ 138 : ℝ)⁻¹ := by
    norm_num [Nat.factorial]
  refine (norm_exp_sub_le 35).trans (le_trans (le_of_eq ?_) rest)
  norm_num

/-- The first 36 terms give a sine to 138 bits. -/
theorem abs_sin_sub_le (n : Nat) :
    |Real.sin n - scaledSine n / (Nat.factorial 35 : ℝ) ^ n| ≤ n * (2 ^ 138 : ℝ)⁻¹ := by
  have unit : ‖exp I‖ ≤ 1 := by rw [norm_exp, I_re, Real.exp_zero]
  have enclosure : ((scaledSeries 35 / (Nat.factorial 35 : ℂ)) ^ n).im =
      scaledSine n / (Nat.factorial 35 : ℝ) ^ n := by
    rw [div_pow, ← map_pow, scaledSine, GaussianInt.intCast_im]
    exact_mod_cast div_natCast_im _ _
  rw [← im_exp_I_pow, ← enclosure, ← sub_im]
  calc
    |(exp I ^ n - (scaledSeries 35 / (Nat.factorial 35 : ℂ)) ^ n).im| ≤
        ‖exp I ^ n - (scaledSeries 35 / (Nat.factorial 35 : ℂ)) ^ n‖ := abs_im_le_norm _
    _ ≤ n * ‖exp I - scaledSeries 35 / (Nat.factorial 35 : ℂ)‖ :=
      norm_pow_sub_pow_le unit norm_scaledSeries_le n
    _ ≤ n * (2 ^ 138 : ℝ)⁻¹ := by
      gcongr
      exact norm_exp_sub_enclosure_le

/-- A whole number is `2 ^ 32` times the size of a sine, rounded down, as far as the
enclosure tells. -/
def Encloses (n whole : Nat) : Prop :=
  whole * Nat.factorial 35 ^ n * 2 ^ 106 + n * Nat.factorial 35 ^ n ≤
      (scaledSine n).natAbs * 2 ^ 138 ∧
    (scaledSine n).natAbs * 2 ^ 138 + n * Nat.factorial 35 ^ n <
      (whole + 1) * Nat.factorial 35 ^ n * 2 ^ 106

instance (n whole : Nat) : Decidable (Encloses n whole) := inferInstanceAs (Decidable (_ ∧ _))

theorem floor_abs_sin {n whole : Nat} (encloses : Encloses n whole) :
    ⌊2 ^ 32 * |Real.sin n|⌋₊ = whole := by
  have positive : (0 : ℝ) < (Nat.factorial 35 : ℝ) ^ n :=
    pow_pos (Nat.cast_pos.mpr (Nat.factorial_pos 35)) n
  have size : ((scaledSine n).natAbs : ℝ) =
      |scaledSine n / (Nat.factorial 35 : ℝ) ^ n| * (Nat.factorial 35 : ℝ) ^ n := by
    rw [abs_div, abs_of_pos positive, div_mul_cancel₀ _ positive.ne', Nat.cast_natAbs,
      Int.cast_abs]
  have lower : (whole : ℝ) * (Nat.factorial 35 : ℝ) ^ n * 2 ^ 106 +
      n * (Nat.factorial 35 : ℝ) ^ n ≤ (scaledSine n).natAbs * 2 ^ 138 := by
    exact_mod_cast encloses.1
  have upper : ((scaledSine n).natAbs : ℝ) * 2 ^ 138 + n * (Nat.factorial 35 : ℝ) ^ n <
      (whole + 1) * (Nat.factorial 35 : ℝ) ^ n * 2 ^ 106 := by
    exact_mod_cast encloses.2
  have close := abs_le.mp ((abs_abs_sub_abs_le _ _).trans (abs_sin_sub_le n))
  rw [size] at lower upper
  rw [Nat.floor_eq_iff (by positivity)]
  -- The bounds without their common denominator.
  generalize (Nat.factorial 35 : ℝ) ^ n = scale at *
  have lower : (whole : ℝ) * 2 ^ 106 + n ≤ |scaledSine n / scale| * 2 ^ 138 := by
    refine le_of_mul_le_mul_right ?_ positive
    linarith
  have upper : |scaledSine n / scale| * 2 ^ 138 + n < ((whole : ℝ) + 1) * 2 ^ 106 := by
    refine lt_of_mul_lt_mul_right ?_ positive.le
    linarith
  apply And.intro
  · linarith
  · linarith

end FunDB.Sines
