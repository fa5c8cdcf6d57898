import RT1064.Mat.Cholesky
import RT1064.Mat.Elimination

/-!
# Inverse by Cholesky decomposition

`choleskyInv` inverts a positive definite matrix unless the inverse of its factor meets one of the
thresholds of `inv`; then it returns the zero matrix, as `inv` does.
-/

namespace RT1064.Mat

open Core Matrix

variable {M N : ℕ}

/-! ### The thresholds -/

/-- The matrix stays clear of the thresholds of the overload of `inv` that its dimension selects:
the determinant in the closed forms, the pivots in the general one. -/
def ClearOfThresholds (A : Matrix (Fin N) (Fin N) ℝ) : Prop :=
  if N = 1 ∨ N = 2 ∨ N = 3 then FLT_EPSILON ≤ |A.det| else Eliminates FLT_EPSILON A

lemma invOne_succeeds_iff (A X : Matrix (Fin 1) (Fin 1) ℝ) :
    (invOne A X).1 = true ↔ FLT_EPSILON ≤ |A 0 0| := by
  rw [invOne]
  split_ifs with h
  · exact iff_of_false not_false (not_le.2 h)
  · exact iff_of_true rfl (not_lt.1 h)

/-- A closed form succeeds if and only if the determinant is not small. -/
lemma closedForm_succeeds_iff {f : (A X : Matrix (Fin N) (Fin N) ℝ) → Bool × Matrix _ _ ℝ}
    (hf : ∀ A X, f A X =
      if |A.det| < FLT_EPSILON then (false, X) else (true, (1 / A.det) • A.adjugate))
    (A X : Matrix (Fin N) (Fin N) ℝ) : (f A X).1 = true ↔ FLT_EPSILON ≤ |A.det| := by
  rw [hf]
  split_ifs with h
  · exact iff_of_false not_false (not_le.2 h)
  · exact iff_of_true rfl (not_lt.1 h)

/-- The overload that the dimension selects succeeds if and only if no threshold is met. -/
lemma invOverload_succeeds_iff (A X : Matrix (Fin N) (Fin N) ℝ) :
    (invOverload A X).1 = true ↔ ClearOfThresholds A := by
  rw [ClearOfThresholds]
  rcases N with _ | _ | _ | _ | n
  · exact inv_succeeds_iff le_rfl A X
  · rw [if_pos (by decide), det_fin_one]
    exact invOne_succeeds_iff A X
  · rw [if_pos (by decide)]
    exact closedForm_succeeds_iff invTwo_eq A X
  · rw [if_pos (by decide)]
    exact closedForm_succeeds_iff invThree_eq A X
  · rw [if_neg (by omega)]
    exact inv_succeeds_iff le_rfl A X

/-! ### The inverse -/

section Inverse

variable {A : Matrix (Fin M) (Fin M) ℝ}

lemma choleskyInv_of_clear (hA : A.PosSemidef) (h : ClearOfThresholds (cholesky A)) :
    choleskyInv A * A = 1 := by
  set L := cholesky A with hL
  have hgram : L * Lᵀ = A := cholesky_mul_transpose hA
  have hsucceeds := (invOverload_succeeds_iff L 0).2 h
  have hinv : invValue L = (invOverload L 0).2 := if_pos hsucceeds
  have hright : L * invValue L = 1 := by
    rw [hinv]
    exact isInverse_invOverload.mul_right L 0 hsucceeds
  have hleft : invValue L * L = 1 := mul_eq_one_comm.1 hright
  have hvalue : choleskyInv A = (invValue L)ᵀ * invValue L := by
    simp only [choleskyInv, mul_eq, hL]
  calc choleskyInv A * A = (invValue L)ᵀ * invValue L * (L * Lᵀ) := by rw [hvalue, hgram]
    _ = (invValue L)ᵀ * (invValue L * L) * Lᵀ := by simp only [Matrix.mul_assoc]
    _ = 1 := by rw [hleft, Matrix.mul_one, ← transpose_mul, hright, transpose_one]

lemma choleskyInv_of_not_clear (h : ¬ ClearOfThresholds (cholesky A)) : choleskyInv A = 0 := by
  have hinv : invValue (cholesky A) = 0 := if_neg (mt (invOverload_succeeds_iff _ 0).1 h)
  simp only [choleskyInv, mul_eq, hinv, Matrix.mul_zero]

/-- The determinant of the factor, which the closed forms look at. -/
lemma abs_det_cholesky (hA : A.PosSemidef) : |(cholesky A).det| = √A.det := by
  have hdet : A.det = (cholesky A).det ^ 2 := by
    rw [sq]
    nth_rewrite 1 [← cholesky_mul_transpose hA]
    rw [det_mul, det_transpose]
  rw [hdet, Real.sqrt_sq_eq_abs]

variable (A) in
/-- The inverse of the factor of a positive definite matrix meets no threshold: in one to three
dimensions the determinant is not small, in others elimination finds the pivots of the factor. -/
def CholeskyClear : Prop :=
  if M = 1 ∨ M = 2 ∨ M = 3 then FLT_EPSILON ≤ √A.det
  else Eliminates FLT_EPSILON (cholesky A)

lemma clearOfThresholds_cholesky_iff (hA : A.PosSemidef) :
    ClearOfThresholds (cholesky A) ↔ CholeskyClear A := by
  rw [ClearOfThresholds, CholeskyClear, abs_det_cholesky hA]

/-- `choleskyInv` inverts a positive definite matrix if no threshold is met, as when the factor has
a diagonal that is not small in four or more dimensions; otherwise it returns the zero matrix. -/
theorem choleskyInv_posDef (hA : A.PosDef) :
    (CholeskyClear A → choleskyInv A * A = 1) ∧ (¬ CholeskyClear A → choleskyInv A = 0) ∧
      (¬ (M = 1 ∨ M = 2 ∨ M = 3) → (∀ i, FLT_EPSILON ≤ cholesky A i i) → CholeskyClear A) := by
  have hclear := clearOfThresholds_cholesky_iff hA.posSemidef
  refine ⟨fun h => choleskyInv_of_clear hA.posSemidef (hclear.2 h),
    fun h => choleskyInv_of_not_clear (mt hclear.1 h), ?_⟩
  intro hM hdiag
  obtain ⟨_, hL⟩ := exists_lower_of_posSemidef hA.posSemidef
  rw [CholeskyClear, if_neg hM]
  exact eliminates_of_lower hL.lower fun i => (hdiag i).trans (le_abs_self _)

/-- The identity meets no threshold. -/
theorem choleskyInv_posDef_one :
    choleskyInv (1 : Matrix (Fin 2) (Fin 2) ℝ) * 1 = 1 := by
  have hclear : CholeskyClear (1 : Matrix (Fin 2) (Fin 2) ℝ) := by
    rw [CholeskyClear, if_pos (by decide), det_one, Real.sqrt_one]
    norm_num [FLT_EPSILON]
  exact (choleskyInv_posDef .one).1 hclear

end Inverse

/-! ### Small variances -/

/-- Independent variances of `10⁻⁶`. -/
noncomputable def smallVariances : Matrix (Fin 3) (Fin 3) ℝ :=
  diagonal fun _ => 1 / 1000000

lemma smallVariances_posDef : smallVariances.PosDef :=
  .diagonal fun _ => by positivity

/-- The root of the determinant is `10⁻⁹`. -/
lemma not_choleskyClear_smallVariances : ¬ CholeskyClear smallVariances := by
  have hdet : smallVariances.det = (1 / 1000000000) ^ 2 := by
    rw [smallVariances, det_diagonal, Fin.prod_univ_three]
    norm_num
  have hsmall : (1 / 1000000000 : ℝ) < FLT_EPSILON := by norm_num [FLT_EPSILON]
  rw [CholeskyClear, if_pos (by decide), hdet, Real.sqrt_sq (by positivity)]
  exact not_le.2 hsmall

/-- `choleskyInv` returns the zero matrix for a positive definite matrix. -/
theorem choleskyInv_smallVariances :
    smallVariances.PosDef ∧ choleskyInv smallVariances * smallVariances ≠ 1 := by
  refine ⟨smallVariances_posDef, ?_⟩
  have hclear := clearOfThresholds_cholesky_iff smallVariances_posDef.posSemidef
  rw [choleskyInv_of_not_clear (mt hclear.1 not_choleskyClear_smallVariances), Matrix.zero_mul]
  exact zero_ne_one

end RT1064.Mat
