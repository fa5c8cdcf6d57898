import RT1064.Core.Semidefinite
import RT1064.Mat.Slice

/-!
# Editing a covariance

The operations that cut the correlation of a block of a covariance matrix with the rest. Each of
them clears the rows and the columns of the block and then writes what is kept.
-/

namespace RT1064.Mat

open Core

variable {K : Type*} {M Width : ℕ}

/-! ### The operations -/

section Model

variable [Zero K]

/-- `uncorrelateCovarianceBlock`. -/
def uncorrelateCovarianceBlock (A : Matrix (Fin M) (Fin M) K) (b : Block M Width) :
    Matrix (Fin M) (Fin M) K :=
  let cov := b.square.get A
  let A := b.columns.assignScalar A 0
  let A := b.rows.assignScalar A 0
  b.square.assign A cov

/-- `uncorrelateCovarianceSetVariance` with a vector. -/
def uncorrelateCovarianceSetVariance (A : Matrix (Fin M) (Fin M) K) (b : Block M Width)
    (vec : Fin Width → K) : Matrix (Fin M) (Fin M) K :=
  let A := b.rows.assignScalar A 0
  let A := b.columns.assignScalar A 0
  -- `vec_idx` counts along with the index of the matrix
  (indices 0 Width).foldl
    (fun A vec_idx => setEntry A (b.index vec_idx) (b.index vec_idx) (vec vec_idx)) A

/-- `uncorrelateCovarianceSetVariance` with a scalar. -/
def uncorrelateCovarianceSetVarianceScalar (A : Matrix (Fin M) (Fin M) K) (b : Block M Width)
    (val : K) : Matrix (Fin M) (Fin M) K :=
  uncorrelateCovarianceSetVariance A b fun _ => val

/-- `uncorrelateCovariance`. -/
def uncorrelateCovariance (A : Matrix (Fin M) (Fin M) K) (b : Block M Width) :
    Matrix (Fin M) (Fin M) K :=
  let diag_elements := b.square.diag A
  uncorrelateCovarianceSetVariance A b diag_elements

end Model

/-! ### What is cleared -/

section Entries

variable [Zero K] (A : Matrix (Fin M) (Fin M) K) (b : Block M Width)

lemma clear_rows {i : Fin M} (j : Fin M) :
    b.rows.assignScalar A 0 i j = if b.Mem i then 0 else A i j := by
  split_ifs with hi
  · obtain ⟨k, rfl⟩ := (b.mem_range_index i).2 hi
    have hj : j = b.rows.col j := Fin.ext (Nat.zero_add j.val).symm
    rw [hj]
    exact b.rows.assign_entry A _ k j
  · exact b.rows.assign_of_row_ne A _ (b.ne_index hi) j

lemma clear_columns (i : Fin M) {j : Fin M} :
    b.columns.assignScalar A 0 i j = if b.Mem j then 0 else A i j := by
  split_ifs with hj
  · obtain ⟨k, rfl⟩ := (b.mem_range_index j).2 hj
    have hi : i = b.columns.row i := Fin.ext (Nat.zero_add i.val).symm
    rw [hi]
    exact b.columns.assign_entry A _ i k
  · exact b.columns.assign_of_col_ne A _ i (b.ne_index hj)

/-- The block that is kept replaces itself. -/
lemma isSplice_uncorrelateCovarianceBlock :
    IsSplice b.index A (b.square.get A) (uncorrelateCovarianceBlock A b) := by
  have hrow : ∀ i j, ¬ b.Mem i → uncorrelateCovarianceBlock A b i j =
      if b.Mem j then 0 else A i j := by
    intro i j hi
    rw [uncorrelateCovarianceBlock, Slice.assign_of_row_ne _ _ _ (b.ne_index hi), clear_rows,
      if_neg hi, clear_columns]
  refine ⟨?_, ?_, ?_, ?_⟩
  · intro i j hi hj
    rw [b.mem_range_index] at hi hj
    rw [hrow i j hi, if_neg hj]
  · intro i j hi hj
    rw [b.mem_range_index] at hi hj
    rw [uncorrelateCovarianceBlock, Slice.assign_of_col_ne _ _ _ _ (b.ne_index hj), clear_rows,
      if_pos hi]
  · intro i j hi hj
    rw [b.mem_range_index] at hi hj
    rw [hrow i j hi, if_pos hj]
  · ext i j
    exact b.square.assign_entry _ _ i j

lemma setVariance_of_ne (vec : Fin Width → K) {i j : Fin M}
    (h : ∀ k, ¬ (i = b.index k ∧ j = b.index k)) :
    uncorrelateCovarianceSetVariance A b vec i j =
      if b.Mem j then 0 else if b.Mem i then 0 else A i j := by
  rw [uncorrelateCovarianceSetVariance]
  refine (foldl_frame (entry i j) ?_ _).trans ?_
  · intro A k _
    exact if_neg (h k)
  · rw [entry, clear_columns, clear_rows]

lemma setVariance_index (vec : Fin Width → K) (k : Fin Width) :
    uncorrelateCovarianceSetVariance A b vec (b.index k) (b.index k) = vec k := by
  rw [uncorrelateCovarianceSetVariance]
  refine foldl_once (entry (b.index k) (b.index k)) (fun _ => vec k) (v := id)
    (nodup_indices 0 Width) (i := k) (by simp) ?_ (fun _ _ _ _ => rfl) ?_ _
  · intro A k' _ hk'
    exact setEntry_of_row_ne A (b.index_injective.ne hk'.symm) _ _ _
  · intro A
    exact setEntry_self A _ _ _

/-- The diagonal matrix of the variances replaces the block. -/
lemma isSplice_setVariance (vec : Fin Width → K) :
    IsSplice b.index A (Matrix.diagonal vec) (uncorrelateCovarianceSetVariance A b vec) := by
  refine ⟨?_, ?_, ?_, ?_⟩
  · intro i j hi hj
    rw [setVariance_of_ne A b vec fun k h => hi ⟨k, h.1.symm⟩, if_neg, if_neg]
    · rwa [b.mem_range_index] at hi
    · rwa [b.mem_range_index] at hj
  · intro i j hi hj
    rw [setVariance_of_ne A b vec fun k h => hj ⟨k, h.2.symm⟩, if_neg, if_pos]
    · rwa [b.mem_range_index] at hi
    · rwa [b.mem_range_index] at hj
  · intro i j hi hj
    rw [setVariance_of_ne A b vec fun k h => hi ⟨k, h.1.symm⟩, if_pos]
    rwa [b.mem_range_index] at hj
  · ext i j
    rw [Matrix.submatrix_apply, Matrix.diagonal_apply]
    split_ifs with hij
    · rw [hij]
      exact setVariance_index A b vec j
    · rw [setVariance_of_ne A b vec, if_pos (b.mem_index j)]
      rintro k ⟨hi, hj⟩
      exact hij (b.index_injective (hi.trans hj.symm))

end Entries

/-! ### Covariances stay covariances -/

/-- `A'` is a covariance with `V` on the block, uncorrelated with the rest of `A`. -/
structure IsUncorrelated (b : Block M Width) (A : Matrix (Fin M) (Fin M) ℝ)
    (V : Matrix (Fin Width) (Fin Width) ℝ) (A' : Matrix (Fin M) (Fin M) ℝ) : Prop where
  posSemidef : A'.PosSemidef
  outside : ∀ i j, ¬ b.Mem i → ¬ b.Mem j → A' i j = A i j
  mixed : ∀ i j, Xor (b.Mem i) (b.Mem j) → A' i j = 0
  block : b.square.get A' = V

section Covariance

variable {A A' : Matrix (Fin M) (Fin M) ℝ} {b : Block M Width}
  {V : Matrix (Fin Width) (Fin Width) ℝ}

lemma isUncorrelated_of_isSplice (h : IsSplice b.index A V A') (hA : A.PosSemidef)
    (hV : V.PosSemidef) : IsUncorrelated b A V A' := by
  refine ⟨h.posSemidef b.index_injective hA hV, ?_, ?_, h.block⟩
  · intro i j hi hj
    rw [← b.mem_range_index] at hi hj
    exact h.outside i j hi hj
  · intro i j hij
    rw [← b.mem_range_index, ← b.mem_range_index] at hij
    rcases hij with ⟨hi, hj⟩ | ⟨hj, hi⟩
    · exact h.mixed_row i j hi hj
    · exact h.mixed_col i j hi hj

/-- Each operation makes a covariance matrix of a covariance matrix, cuts the correlation of the
block with the rest, and leaves on the block what it is meant to leave there. -/
theorem uncorrelate_isUncorrelated (hA : A.PosSemidef) (b : Block M Width) :
    IsUncorrelated b A (b.square.get A) (uncorrelateCovarianceBlock A b) ∧
      IsUncorrelated b A (Matrix.diagonal (b.square.diag A)) (uncorrelateCovariance A b) ∧
      (∀ vec : Fin Width → ℝ, (∀ k, 0 ≤ vec k) →
        IsUncorrelated b A (Matrix.diagonal vec) (uncorrelateCovarianceSetVariance A b vec)) ∧
      ∀ val : ℝ, 0 ≤ val →
        IsUncorrelated b A (Matrix.diagonal fun _ => val)
          (uncorrelateCovarianceSetVarianceScalar A b val) := by
  have hvariance : ∀ vec : Fin Width → ℝ, (∀ k, 0 ≤ vec k) →
      IsUncorrelated b A (Matrix.diagonal vec) (uncorrelateCovarianceSetVariance A b vec) := by
    intro vec hvec
    exact isUncorrelated_of_isSplice (isSplice_setVariance A b vec) hA (.diagonal hvec)
  refine ⟨?_, ?_, hvariance, ?_⟩
  · exact isUncorrelated_of_isSplice (isSplice_uncorrelateCovarianceBlock A b) hA
      (hA.submatrix b.index)
  · exact hvariance _ fun k => hA.diag_nonneg
  · intro val hval
    exact hvariance _ fun _ => hval

/-- Three copies of one variable, the last two of which are cut off. -/
theorem uncorrelate_isUncorrelated_copies :
    IsUncorrelated Block.lastTwo (Matrix.vecMulVec 1 (star 1)) (Matrix.of fun _ _ => 1)
      (uncorrelateCovarianceBlock (Matrix.vecMulVec 1 (star 1)) Block.lastTwo) := by
  have hblock : Block.lastTwo.square.get (Matrix.vecMulVec (1 : Fin 3 → ℝ) (star 1)) =
      Matrix.of fun _ _ => 1 := by
    ext i j
    simp [Slice.get, Matrix.vecMulVec_apply]
  rw [← hblock]
  exact (uncorrelate_isUncorrelated (Matrix.posSemidef_vecMulVec_self_star 1) Block.lastTwo).1

end Covariance

end RT1064.Mat
