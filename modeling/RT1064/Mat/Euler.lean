import Mathlib.Analysis.Real.Pi.Bounds
import RT1064.Mat.Dcm

/-!
# Euler angles

The 3-2-1 Tait-Bryan angles of a direction cosine matrix, with the branches near the gimbal lock,
and the rotation that Euler angles stand for.
-/

namespace RT1064.Mat

variable {K : Type*}

/-- `M_PI_PRECISE`. -/
def M_PI_PRECISE [Field K] : K := 3141592653589793238462643383279502884 / 10 ^ 36

/-- `Euler(const Dcm &)`: the angles `phi`, `theta` and `psi`. -/
def Euler.ofDcm [Field K] [LinearOrder K] [Cmath K] (dcm : Dcm K) : Fin 3 → K :=
  let theta := Cmath.asin (-dcm 2 0)
  if |theta - M_PI_PRECISE / 2| < 1 / 1000 then
    ![0, theta, Cmath.atan2 (dcm 1 2) (dcm 0 2)]
  else if |theta + M_PI_PRECISE / 2| < 1 / 1000 then
    ![0, theta, Cmath.atan2 (-dcm 1 2) (-dcm 0 2)]
  else
    ![Cmath.atan2 (dcm 2 1) (dcm 2 2), theta, Cmath.atan2 (dcm 1 0) (dcm 0 0)]

/-- The 3-2-1 sequence turns about the first, the second and the third axis. -/
lemma Dcm.ofEuler_eq (e : Fin 3 → ℝ) :
    Dcm.ofEuler e = rotZ (Real.cos (e 2)) (Real.sin (e 2)) *
      rotY (Real.cos (e 1)) (Real.sin (e 1)) * rotX (Real.cos (e 0)) (Real.sin (e 0)) := by
  ext i j
  rw [Matrix.mul_apply, Fin.sum_univ_three]
  simp only [Matrix.mul_apply, Fin.sum_univ_three]
  fin_cases i <;> fin_cases j <;> simp [Dcm.ofEuler, rotX, rotY, rotZ] <;> ring

lemma Dcm.isRotation_ofEuler (e : Fin 3 → ℝ) : IsRotation (Dcm.ofEuler e) := by
  rw [Dcm.ofEuler_eq]
  exact ((isRotation_rotZ (Real.cos_sq_add_sin_sq _)).mul
    (isRotation_rotY (Real.cos_sq_add_sin_sq _))).mul
      (isRotation_rotX (Real.cos_sq_add_sin_sq _))

/-- A pitch of at most an eighth turn is clear of both branches of the gimbal lock. -/
lemma Euler.ofDcm_of_sq_le {R : Dcm ℝ} (h : R 2 0 ^ 2 ≤ 1 / 2) :
    Euler.ofDcm R = ![Cmath.atan2 (R 2 1) (R 2 2), Real.arcsin (-R 2 0),
      Cmath.atan2 (R 1 0) (R 0 0)] := by
  have hsin : |(-R 2 0)| ≤ Real.sin (Real.pi / 4) := by
    rw [Real.sin_pi_div_four, ← Real.sqrt_sq_eq_abs, neg_sq]
    refine Real.sqrt_le_iff.2 ⟨by positivity, ?_⟩
    rw [div_pow, Real.sq_sqrt zero_le_two]
    linarith
  obtain ⟨hlow, hhigh⟩ := abs_le.1 hsin
  have hpi := Real.pi_lt_d2
  have hpos := Real.pi_pos
  have hle : Real.arcsin (-R 2 0) ≤ Real.pi / 4 := by
    rw [Real.arcsin_le_iff_le_sin' ⟨by linarith, by linarith⟩]
    exact hhigh
  have hge : -(Real.pi / 4) ≤ Real.arcsin (-R 2 0) := by
    rw [Real.le_arcsin_iff_sin_le' ⟨by linarith, by linarith⟩, Real.sin_neg]
    exact hlow
  have hM : (3.14 : ℝ) < M_PI_PRECISE := by
    rw [M_PI_PRECISE]
    norm_num
  rw [Euler.ofDcm, asin_real, if_neg, if_neg]
  · rw [not_lt, le_abs]
    left
    linarith
  · rw [not_lt, le_abs]
    right
    linarith

end RT1064.Mat
