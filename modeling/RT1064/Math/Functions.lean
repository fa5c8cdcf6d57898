import Mathlib.Analysis.Real.Pi.Bounds
import RT1064.Core.Extended
import RT1064.Mat.Basic
import RT1064.Mat.Cmath

/-!
# Scalar functions of the filters

The constants and scalar functions that the filters share, over exact arithmetic with a
non-finite value.
-/

namespace RT1064.Math

open Core Mat Extended

variable {K : Type*}

/-- `M_PI_F`: the `float` that is nearest to 3.14159265. It is above the half turn. -/
def M_PI_F [Field K] : K := 13176795 / 4194304

/-- `M_TWOPI_F`: the `float` that is nearest to 6.28318531. -/
def M_TWOPI_F [Field K] : K := 13176795 / 2097152

/-- The smallest cutoff frequency, notch frequency and bandwidth, as a part of the sample
frequency: `0.001f`. -/
def minRatio [Field K] : K := 8589935 / 8589934592

/-- `math::max`. -/
def Functions.max {α : Type*} [LT α] [DecidableLT α] (a b : α) : α := if b < a then a else b

/-- `math::constrain`. -/
def constrain {α : Type*} [LT α] [DecidableLT α] (val minVal maxVal : α) : α :=
  if val < minVal then minVal else if maxVal < val then maxVal else val

/-- `cosf`. -/
def cosf [Cmath K] : Extended K → Extended K := Extended.map Cmath.cos

/-- `tanf`, which has no finite value where the cosine vanishes. -/
def tanf [Field K] [DecidableEq K] [Cmath K] (x : Extended K) : Extended K :=
  Extended.map Cmath.sin x / cosf x

/-- The quotient of a sample and a scalar, computed as the library does for vectors. -/
def divSample {F T : Type*} [One F] [Div F] [SMul F T] (x : T) (a : F) : T := (1 / a) • x

@[simp] lemma cosf_finite [Cmath K] (x : K) : cosf (finite x) = finite (Cmath.cos x) := rfl

lemma max_finite [LinearOrder K] (x y : K) :
    Functions.max (finite x) (finite y) = finite (max x y) := by
  rcases lt_or_ge y x with h | h
  · rw [Functions.max, if_pos ((finite_lt_finite y x).2 h), max_eq_left h.le]
  · rw [Functions.max, if_neg (mt (finite_lt_finite y x).1 h.not_gt), max_eq_right h]

section Field

variable [Field K] [DecidableEq K]

lemma tanf_finite [Cmath K] {x : K} (hx : Cmath.cos x ≠ 0) :
    tanf (finite x) = finite (Cmath.sin x / Cmath.cos x) := finite_div hx

lemma tanf_pole [Cmath K] {x : K} (hx : Cmath.cos x = 0) : tanf (finite x) = nonfinite := by
  show finite (Cmath.sin x) / finite (Cmath.cos x) = nonfinite
  rw [hx, finite_div_zero]

variable {V : Type*} [AddCommGroup V] [Module K V]

lemma divSample_finite {a : K} (ha : a ≠ 0) (x : V) :
    divSample (finite x) (finite a) = finite (a⁻¹ • x) := by
  rw [divSample, one_eq, finite_div ha, finite_smul, one_div]

lemma divSample_zero (x : Extended V) : divSample x (finite (0 : K)) = nonfinite := by
  rw [divSample, one_eq, finite_div_zero, nonfinite_smul]

end Field

/-! ### Clamping -/

lemma constrain_eq_max [LinearOrder K] {lo hi : K} (h : lo ≤ hi) (x : K) :
    constrain x lo hi = max lo (min x hi) := by
  rw [constrain]
  split_ifs with hlo hhi
  · rw [min_eq_left (hlo.le.trans h), max_eq_left hlo.le]
  · rw [min_eq_right hhi.le, max_eq_right h]
  · rw [min_eq_left (not_lt.1 hhi), max_eq_right (not_lt.1 hlo)]

lemma constrain_mem [LinearOrder K] {lo hi : K} (h : lo ≤ hi) (x : K) :
    lo ≤ constrain x lo hi ∧ constrain x lo hi ≤ hi := by
  rw [constrain_eq_max h]
  exact ⟨le_max_left _ _, max_le h (min_le_right _ _)⟩

/-! ### Constants -/

section Order

variable [Field K] [LinearOrder K] [IsStrictOrderedRing K]

lemma three_lt_M_PI_F : (3 : K) < M_PI_F := by
  rw [M_PI_F]
  norm_num

lemma M_PI_F_pos : (0 : K) < M_PI_F := by
  rw [M_PI_F]
  positivity

lemma minRatio_pos : (0 : K) < minRatio := by
  rw [minRatio]
  positivity

lemma minRatio_lt_half : (minRatio : K) < 1 / 2 := by
  rw [minRatio]
  norm_num

end Order

lemma M_PI_F_lt_two_pi : M_PI_F < 2 * Real.pi := by
  rw [M_PI_F]
  linarith [Real.pi_gt_three]

/-- The angle of a frequency stays under the quarter turn if a `float` can tell it from the Nyquist
frequency. -/
lemma M_PI_F_mul_lt {x s : ℝ} (hs : 0 < s) (hx : x ≤ (1 - 1 / 2 ^ 24) * (s / 2)) :
    M_PI_F * x < Real.pi / 2 * s := by
  have hpi : M_PI_F * (1 - 1 / 2 ^ 24) < Real.pi := by
    rw [M_PI_F]
    have := Real.pi_gt_d20
    norm_num at this ⊢
    linarith
  have hbound := mul_lt_mul_of_pos_right hpi (half_pos hs)
  have hle := mul_le_mul_of_nonneg_left hx (M_PI_F_pos (K := ℝ)).le
  linarith

end RT1064.Math
