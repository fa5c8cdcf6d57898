import RT1064.Core.Semidefinite
import RT1064.Mat.PseudoInverse

/-!
# Full-rank Cholesky factorisation

What `fullRankCholesky` computes of a positive semidefinite matrix whose pivots are clear: a factor
with as many columns as the rank.
-/

namespace RT1064.Mat

open Core Matrix

variable {N : ℕ} [NeZero N] {A : Matrix (Fin N) (Fin N) ℝ}

lemma fullRankCholesky_mul_transpose (hA : A.PosSemidef) (hclear : PivotsClear A) :
    (fullRankCholesky A).1 * (fullRankCholesky A).1ᵀ = A := by
  obtain ⟨W, rfl⟩ := exists_eq_mul_transpose hA
  exact (fullRankCholesky_spec W hclear).2.1

lemma fullRankCholesky_zero (hA : A.PosSemidef) (hclear : PivotsClear A) {i j : Fin N}
    (hj : (fullRankCholesky A).2 ≤ j.val) : (fullRankCholesky A).1 i j = 0 := by
  obtain ⟨W, rfl⟩ := exists_eq_mul_transpose hA
  exact (fullRankCholesky_spec W hclear).2.2 i j hj

/-- The number of finished columns is the rank of the matrix. -/
lemma fullRankCholesky_rank (hA : A.PosSemidef) (hclear : PivotsClear A) :
    (fullRankCholesky A).2 = A.rank := by
  obtain ⟨W, rfl⟩ := exists_eq_mul_transpose hA
  obtain ⟨W', h, hrank⟩ := residual_choleskyAt W hclear le_rfl
  have hW' : W' = 0 := by
    ext i j
    exact congrFun (h.W_zero i i.isLt) j
  rw [hW', rank_zero, add_zero] at hrank
  rw [rank_self_mul_transpose, ← hrank]
  rfl

/-- In every round there is a column to write to. -/
lemma choleskyAt_r_lt (hA : A.PosSemidef) (hclear : PivotsClear A) (k : Fin N) :
    (choleskyAt A k.val).r < N := by
  obtain ⟨W, rfl⟩ := exists_eq_mul_transpose hA
  obtain ⟨W', h, _⟩ := residual_choleskyAt W hclear k.isLt.le
  exact lt_of_le_of_lt h.r_le k.isLt

/-- The factor of a positive semidefinite matrix with clear pivots has the matrix as its Gram
matrix, as many columns as the rank and zeros in the others; no round is short of a column. -/
theorem fullRankCholesky_posSemidef (hA : A.PosSemidef) (hclear : PivotsClear A) :
    (fullRankCholesky A).1 * (fullRankCholesky A).1ᵀ = A ∧
      (∀ i j : Fin N, (fullRankCholesky A).2 ≤ j.val → (fullRankCholesky A).1 i j = 0) ∧
      (fullRankCholesky A).2 = A.rank ∧
      ∀ k : Fin N, (choleskyAt A k.val).r < N := by
  refine ⟨fullRankCholesky_mul_transpose hA hclear, ?_, fullRankCholesky_rank hA hclear,
    choleskyAt_r_lt hA hclear⟩
  intro i j
  exact fullRankCholesky_zero hA hclear

/-- A Gram matrix of rank one whose first round is skipped. -/
theorem fullRankCholesky_posSemidef_skipped :
    (fullRankCholesky (skipped * skippedᵀ)).2 = (skipped * skippedᵀ).rank := by
  have hA : (skipped * skippedᵀ).PosSemidef := by
    rw [← conjTranspose_eq_transpose_of_trivial]
    exact posSemidef_self_mul_conjTranspose skipped
  exact (fullRankCholesky_posSemidef hA pivotsClear_skipped).2.2.1

end RT1064.Mat
