import RT1064.Core.Semidefinite
import RT1064.Mat.ClosedForm

/-!
# Kalman filter

The correction of a state and of its covariance by one observation.
-/

namespace RT1064.Mat

open Core Matrix

variable {K : Type*} {M N : ℕ}

/-! ### The correction -/

section Model

variable [Field K] [LinearOrder K]

/-- What `kalman_correct` returns, through its result and through its arguments. -/
structure Correction (K : Type*) (M : ℕ) where
  code : ℤ
  dx : Matrix (Fin M) (Fin 1) K
  dP : Matrix (Fin M) (Fin M) K
  beta : K

/-- `kalman_correct`. -/
def kalman_correct (P : Matrix (Fin M) (Fin M) K) (C : Matrix (Fin N) (Fin M) K)
    (R : Matrix (Fin N) (Fin N) K) (r : Matrix (Fin N) (Fin 1) K) : Correction K M :=
  let S_I := I (mul (mul C P) Cᵀ + R)
  let gain := mul (mul P Cᵀ) S_I
  { code := 0
    dx := mul gain r
    dP := mulScalar (mul (mul gain C) P) (-1)
    beta := mul (mul rᵀ S_I) r 0 0 }

/-- The inverse of the covariance of the innovation is computed successfully. -/
def InnovationInverts (P : Matrix (Fin M) (Fin M) K) (C : Matrix (Fin N) (Fin M) K)
    (R : Matrix (Fin N) (Fin N) K) : Prop :=
  (invOverload (C * P * Cᵀ + R) 0).1 = true

end Model

/-! ### The covariance -/

section Covariance

variable {P : Matrix (Fin M) (Fin M) ℝ} {C : Matrix (Fin N) (Fin M) ℝ}
  {R : Matrix (Fin N) (Fin N) ℝ}

lemma I_of_success {A : Matrix (Fin N) (Fin N) ℝ} (h : (invOverload A 0).1 = true) :
    I A = A⁻¹ := by
  rw [I, orZero, if_pos h]
  exact (inv_eq_right_inv (isInverse_invOverload.mul_right A 0 h)).symm

lemma I_of_failure {A : Matrix (Fin N) (Fin N) ℝ} (h : ¬ (invOverload A 0).1 = true) :
    I A = 0 :=
  if_neg h

/-- Both the inverse and the zero matrix that replaces it are symmetric, positive semidefinite and
a generalised inverse. -/
lemma I_observation (hP : P.PosSemidef) (hR : R.PosDef) :
    (I (C * P * Cᵀ + R)).PosSemidef ∧
      I (C * P * Cᵀ + R) * (C * P * Cᵀ + R) * I (C * P * Cᵀ + R) = I (C * P * Cᵀ + R) := by
  have hS := posDef_observation (C := C) hP hR
  by_cases h : (invOverload (C * P * Cᵀ + R) 0).1 = true
  · rw [I_of_success h]
    refine ⟨hS.inv.posSemidef, ?_⟩
    rw [nonsing_inv_mul _ ((isUnit_iff_isUnit_det _).1 hS.isUnit), Matrix.one_mul]
  · rw [I_of_failure h, Matrix.mul_zero]
    exact ⟨.zero, rfl⟩

variable (P C R) in
/-- The gain `K` of the filter, in terms of the inverse of the covariance of the innovation. -/
noncomputable def kalmanGain : Matrix (Fin M) (Fin N) ℝ := P * Cᵀ * (C * P * Cᵀ + R)⁻¹

lemma dP_eq (r : Matrix (Fin N) (Fin 1) ℝ) :
    (kalman_correct P C R r).dP = -(P * Cᵀ * I (C * P * Cᵀ + R) * C * P) := by
  ext i j
  simp only [kalman_correct, mul_eq, mulScalar_apply, mul_neg_one, Matrix.neg_apply]

/-- What is left of the covariance is positive semidefinite. -/
lemma posSemidef_add_dP (hP : P.PosSemidef) (hR : R.PosDef) (r : Matrix (Fin N) (Fin 1) ℝ) :
    (P + (kalman_correct P C R r).dP).PosSemidef := by
  obtain ⟨hI, hinv⟩ := I_observation (C := C) hP hR
  rw [dP_eq, ← sub_eq_add_neg]
  exact posSemidef_sub_gain_mul hP hR.posSemidef hI.isHermitian hinv

/-- What is taken from the covariance is positive semidefinite. -/
lemma posSemidef_neg_dP (hP : P.PosSemidef) (hR : R.PosDef) (r : Matrix (Fin N) (Fin 1) ℝ) :
    (P - (P + (kalman_correct P C R r).dP)).PosSemidef := by
  rw [sub_add_cancel_left, dP_eq, neg_neg]
  exact posSemidef_gain_mul hP (I_observation hP hR).1

/-- A quadratic form of a column. -/
lemma quadratic_nonneg {X : Matrix (Fin N) (Fin N) ℝ} (hX : X.PosSemidef)
    (r : Matrix (Fin N) (Fin 1) ℝ) : 0 ≤ (rᵀ * X * r) 0 0 := by
  have hquad := hX.mul_mul_conjTranspose_same rᵀ
  rw [conjTranspose_eq_transpose_of_trivial, transpose_transpose] at hquad
  exact hquad.diag_nonneg

/-- The correction leaves a covariance matrix and takes a positive semidefinite part away. If the
inverse of the covariance of the innovation is found, the result is the Joseph form, the correction
of the state is the gain times the innovation and `beta` is its normalised square; if it is not,
nothing is corrected. -/
theorem kalman_correct_posSemidef (hP : P.PosSemidef) (hR : R.PosDef)
    (r : Matrix (Fin N) (Fin 1) ℝ) :
    (P + (kalman_correct P C R r).dP).PosSemidef ∧
      (P - (P + (kalman_correct P C R r).dP)).PosSemidef ∧
      (InnovationInverts P C R →
        P + (kalman_correct P C R r).dP =
            (1 - kalmanGain P C R * C) * P * (1 - kalmanGain P C R * C)ᵀ +
              kalmanGain P C R * R * (kalmanGain P C R)ᵀ ∧
          (kalman_correct P C R r).dx = kalmanGain P C R * r ∧
          (kalman_correct P C R r).beta = (rᵀ * (C * P * Cᵀ + R)⁻¹ * r) 0 0 ∧
          0 ≤ (kalman_correct P C R r).beta) ∧
      (¬ InnovationInverts P C R →
        (kalman_correct P C R r).dx = 0 ∧ (kalman_correct P C R r).beta = 0 ∧
          (kalman_correct P C R r).dP = 0) := by
  obtain ⟨hI, hinv⟩ := I_observation (C := C) hP hR
  have hsymm : Pᵀ = P := hP.isHermitian
  refine ⟨posSemidef_add_dP hP hR r, posSemidef_neg_dP hP hR r, ?_, ?_⟩
  · intro h
    have hS := I_of_success h
    refine ⟨?_, ?_, ?_, ?_⟩
    · rw [dP_eq, ← sub_eq_add_neg, kalmanGain, ← hS]
      exact sub_gain_mul_eq_joseph hsymm hI.isHermitian hinv
    · simp only [kalman_correct, mul_eq, hS, kalmanGain]
    · simp only [kalman_correct, mul_eq, hS]
    · simp only [kalman_correct, mul_eq]
      exact quadratic_nonneg hI r
  · intro h
    have hS := I_of_failure h
    refine ⟨?_, ?_, ?_⟩
    · simp only [kalman_correct, mul_eq, hS, Matrix.mul_zero, Matrix.zero_mul]
    · simp only [kalman_correct, mul_eq, hS, Matrix.mul_zero, Matrix.zero_mul,
        Matrix.zero_apply]
    · rw [dP_eq, hS, Matrix.mul_zero, Matrix.zero_mul, Matrix.zero_mul, neg_zero]

/-- The first of two independent variables is observed, with a noise of its own size. -/
theorem kalman_correct_posSemidef_one :
    (1 + (kalman_correct (1 : Matrix (Fin 2) (Fin 2) ℝ) !![1, 0] (1 : Matrix (Fin 1) (Fin 1) ℝ)
      !![3]).dP).PosSemidef :=
  (kalman_correct_posSemidef .one .one !![3]).1

end Covariance

end RT1064.Mat
