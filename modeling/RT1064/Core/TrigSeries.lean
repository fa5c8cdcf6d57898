import Mathlib.Analysis.Complex.Basic
import Mathlib.Analysis.Complex.Trigonometric

/-!
# The series of the sine and the cosine

The partial sums of the two series are the parts of a partial sum of the exponential series, which
bounds what they leave out.
-/

namespace RT1064.Core

variable {K : Type*} [Field K]

/-- The first `n` terms of the series of the cosine. -/
def cosSum (n : ℕ) (x : K) : K :=
  ∑ k ∈ Finset.range n, (-1) ^ k * x ^ (2 * k) / (2 * k).factorial

/-- The first `n` terms of the series of the sine. -/
def sinSum (n : ℕ) (x : K) : K :=
  ∑ k ∈ Finset.range n, (-1) ^ k * x ^ (2 * k + 1) / (2 * k + 1).factorial

lemma cosSum_succ (n : ℕ) (x : K) :
    cosSum (n + 1) x = cosSum n x + (-1) ^ n * x ^ (2 * n) / (2 * n).factorial :=
  Finset.sum_range_succ _ _

lemma sinSum_succ (n : ℕ) (x : K) :
    sinSum (n + 1) x = sinSum n x + (-1) ^ n * x ^ (2 * n + 1) / (2 * n + 1).factorial :=
  Finset.sum_range_succ _ _

/-- What the first `m` terms of the exponential series leave out at most. -/
noncomputable def expRemainder (m : ℕ) (x : ℝ) : ℝ :=
  |x| ^ m * ((m.succ : ℝ) * (m.factorial * m : ℝ)⁻¹)

/-- The even terms are the series of the cosine and the odd ones that of the sine. -/
lemma sum_exp_mul_I (n : ℕ) (x : ℝ) :
    ∑ m ∈ Finset.range (2 * n), ((x : ℂ) * Complex.I) ^ m / m.factorial =
      ((cosSum n x : ℝ) : ℂ) + ((sinSum n x : ℝ) : ℂ) * Complex.I := by
  induction n with
  | zero => simp [cosSum, sinSum]
  | succ n ih =>
    have heven : ((x : ℂ) * Complex.I) ^ (2 * n) = (-1) ^ n * (x : ℂ) ^ (2 * n) := by
      rw [mul_pow, pow_mul Complex.I, Complex.I_sq, mul_comm]
    have hodd : ((x : ℂ) * Complex.I) ^ (2 * n + 1) =
        (-1) ^ n * (x : ℂ) ^ (2 * n + 1) * Complex.I := by
      rw [pow_succ, heven, pow_succ]
      ring
    rw [mul_add_one, Finset.sum_range_succ, Finset.sum_range_succ, ih, heven, hodd,
      cosSum_succ, sinSum_succ]
    push_cast
    ring

section Remainder

variable {n : ℕ} {x : ℝ}

lemma norm_exp_sub_le (hn : 0 < n) (hx : |x| ≤ 1) :
    ‖Complex.exp (x * Complex.I) -
      (((cosSum n x : ℝ) : ℂ) + ((sinSum n x : ℝ) : ℂ) * Complex.I)‖ ≤ expRemainder (2 * n) x := by
  have hnorm : ‖(x : ℂ) * Complex.I‖ = |x| := by
    rw [norm_mul, Complex.norm_I, mul_one, Complex.norm_real, Real.norm_eq_abs]
  have hbound := Complex.exp_bound (x := (x : ℂ) * Complex.I) (n := 2 * n) (by rwa [hnorm])
    (by omega)
  rwa [sum_exp_mul_I, hnorm] at hbound

/-- The remainder of the series of the cosine. -/
lemma abs_cos_sub_cosSum_le (hn : 0 < n) (hx : |x| ≤ 1) :
    |Real.cos x - cosSum n x| ≤ expRemainder (2 * n) x := by
  refine le_trans ?_ ((Complex.abs_re_le_norm _).trans (norm_exp_sub_le hn hx))
  simp [Complex.exp_ofReal_mul_I_re]

/-- The remainder of the series of the sine. -/
lemma abs_sin_sub_sinSum_le (hn : 0 < n) (hx : |x| ≤ 1) :
    |Real.sin x - sinSum n x| ≤ expRemainder (2 * n) x := by
  refine le_trans ?_ ((Complex.abs_im_le_norm _).trans (norm_exp_sub_le hn hx))
  simp [Complex.exp_ofReal_mul_I_im]

/-- The bound grows with the argument. -/
lemma expRemainder_le {m : ℕ} {r : ℝ} (hx : |x| ≤ r) : expRemainder m x ≤ expRemainder m r := by
  have hr : |r| = r := abs_of_nonneg ((abs_nonneg x).trans hx)
  rw [expRemainder, expRemainder, hr]
  gcongr

end Remainder

end RT1064.Core
