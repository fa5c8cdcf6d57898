import Mathlib.Analysis.Matrix.Order

/-!
# Positive semidefinite matrices

Factors of a positive semidefinite matrix and the operations that keep a matrix positive
semidefinite: to put another block in its place and to correct it by an observation.
-/

namespace RT1064.Core

open Matrix

variable {m n k : Type*}

/-! ### Factors -/

section Factor

open scoped MatrixOrder Matrix.Norms.L2Operator

variable [Fintype n] [DecidableEq n]

/-- A positive semidefinite matrix is the Gram matrix of some rows. -/
lemma exists_eq_mul_transpose {A : Matrix n n ℝ} (hA : A.PosSemidef) :
    ∃ W : Matrix n n ℝ, A = W * Wᵀ := by
  obtain ⟨B, hB⟩ := CStarAlgebra.nonneg_iff_eq_star_mul_self.1 hA.nonneg
  refine ⟨Bᵀ, ?_⟩
  rw [hB, transpose_transpose, star_eq_conjTranspose, conjTranspose_eq_transpose_of_trivial]

end Factor

/-! ### Entries -/

section Entries

variable [Fintype n] {A : Matrix n n ℝ}

lemma diag_le_trace (hA : A.PosSemidef) (i : n) : A i i ≤ A.trace :=
  Finset.single_le_sum (f := fun i => A i i) (fun _ _ => hA.diag_nonneg) (Finset.mem_univ i)

/-- No entry of a positive semidefinite matrix is larger than the trace. -/
lemma abs_le_trace (hA : A.PosSemidef) (i j : n) : |A i j| ≤ A.trace := by
  classical
  obtain ⟨W, hW⟩ := exists_eq_mul_transpose hA
  have hentry : ∀ i j, A i j = ∑ k, W i k * W j k := by
    intro i j
    rw [hW, mul_apply]
    rfl
  have hterm : ∀ k, |W i k * W j k| ≤ (W i k * W i k + W j k * W j k) / 2 := by
    intro k
    rw [abs_mul]
    have hsq := two_mul_le_add_sq |W i k| |W j k|
    rw [sq_abs, sq_abs, sq, sq] at hsq
    linarith
  calc |A i j| ≤ ∑ k, |W i k * W j k| := by
        rw [hentry]
        exact Finset.abs_sum_le_sum_abs _ _
    _ ≤ ∑ k, (W i k * W i k + W j k * W j k) / 2 := Finset.sum_le_sum fun k _ => hterm k
    _ = (A i i + A j j) / 2 := by
        rw [← Finset.sum_div, Finset.sum_add_distrib, ← hentry, ← hentry]
    _ ≤ A.trace := by linarith [diag_le_trace hA i, diag_le_trace hA j]

end Entries

/-! ### Blocks -/

/-- `A'` is `A` where both indices are outside a block, `V` on the block, and zero where one index
is inside. -/
structure IsSplice {R : Type*} [Zero R] (e : k → m) (A : Matrix m m R) (V : Matrix k k R)
    (A' : Matrix m m R) : Prop where
  outside : ∀ i j, i ∉ Set.range e → j ∉ Set.range e → A' i j = A i j
  mixed_row : ∀ i j, i ∈ Set.range e → j ∉ Set.range e → A' i j = 0
  mixed_col : ∀ i j, i ∉ Set.range e → j ∈ Set.range e → A' i j = 0
  block : A'.submatrix e e = V

section Splice

variable [Fintype k] [DecidableEq m] {e : k → m} {A A' : Matrix m m ℝ} {V : Matrix k k ℝ}

/-- The columns of the identity at the block. -/
def columnsAt (e : k → m) : Matrix m k ℝ := fun i a => if i = e a then 1 else 0

omit [Fintype k] in
lemma columnsAt_of_notMem {i : m} (hi : i ∉ Set.range e) (a : k) : columnsAt e i a = 0 :=
  if_neg fun h => hi ⟨a, h.symm⟩

lemma columnsAt_mul (he : Function.Injective e) (X : Matrix k n ℝ) (a : k) :
    (columnsAt e * X) (e a) = X a := by
  classical
  ext j
  simp [columnsAt, mul_apply, he.eq_iff]

lemma columnsAt_mul_of_notMem {i : m} (hi : i ∉ Set.range e) (X : Matrix k n ℝ) :
    (columnsAt e * X) i = 0 := by
  ext j
  simp [mul_apply, columnsAt_of_notMem hi]

lemma mul_columnsAt (he : Function.Injective e) (X : Matrix n k ℝ) (i : n) (b : k) :
    (X * (columnsAt e)ᴴ) i (e b) = X i b := by
  classical
  simp [columnsAt, mul_apply, he.eq_iff]

lemma mul_columnsAt_of_notMem {j : m} (hj : j ∉ Set.range e) (X : Matrix n k ℝ) (i : n) :
    (X * (columnsAt e)ᴴ) i j = 0 := by
  simp [mul_apply, columnsAt_of_notMem hj]

variable [Fintype m]

open Classical in
/-- A matrix in parts: what is left of `A`, and `V` in its place. -/
lemma IsSplice.eq_add (h : IsSplice e A V A') (he : Function.Injective e) :
    A' = diagonal (fun i => if i ∈ Set.range e then 0 else 1) * A *
        (diagonal fun i => if i ∈ Set.range e then 0 else 1)ᴴ +
      columnsAt e * V * (columnsAt e)ᴴ := by
  ext i j
  rw [Matrix.add_apply, diagonal_conjTranspose, mul_diagonal, diagonal_mul]
  by_cases hj : j ∈ Set.range e
  · obtain ⟨b, rfl⟩ := hj
    rw [mul_columnsAt he]
    by_cases hi : i ∈ Set.range e
    · obtain ⟨a, rfl⟩ := hi
      rw [columnsAt_mul he, ← h.block]
      simp
    · rw [columnsAt_mul_of_notMem hi, h.mixed_col _ _ hi ⟨b, rfl⟩]
      simp
  · rw [mul_columnsAt_of_notMem hj, Pi.star_apply, if_neg hj]
    by_cases hi : i ∈ Set.range e
    · rw [h.mixed_row _ _ hi hj, if_pos hi]
      simp
    · rw [h.outside _ _ hi hj, if_neg hi]
      simp

/-- What replaces a block of a positive semidefinite matrix has to be positive semidefinite. -/
theorem IsSplice.posSemidef (h : IsSplice e A V A') (he : Function.Injective e)
    (hA : A.PosSemidef) (hV : V.PosSemidef) : A'.PosSemidef := by
  classical
  rw [h.eq_add he]
  exact (hA.mul_mul_conjTranspose_same _).add (hV.mul_mul_conjTranspose_same _)

end Splice

/-! ### Corrections by an observation

`P` is the covariance of a state, `C` observes it with a noise of covariance `R`, and `X` is the
inverse of the covariance of the observation. -/

section Correction

variable [Fintype m] [Fintype n] [DecidableEq m] [DecidableEq n] {P : Matrix m m ℝ}
  {C : Matrix n m ℝ} {R X : Matrix n n ℝ}

omit [DecidableEq m] [DecidableEq n] in
/-- The covariance of the observation. -/
lemma posDef_observation (hP : P.PosSemidef) (hR : R.PosDef) : (C * P * Cᵀ + R).PosDef := by
  rw [← conjTranspose_eq_transpose_of_trivial]
  exact PosDef.posSemidef_add (hP.mul_mul_conjTranspose_same C) hR

omit [DecidableEq m] [DecidableEq n] in
/-- What the correction takes from the covariance. -/
lemma posSemidef_gain_mul (hP : P.PosSemidef) (hX : X.PosSemidef) :
    (P * Cᵀ * X * C * P).PosSemidef := by
  have hsymm : Pᵀ = P := hP.isHermitian
  have heq : P * Cᵀ * X * C * P = P * Cᵀ * X * (P * Cᵀ)ᴴ := by
    rw [conjTranspose_eq_transpose_of_trivial, transpose_mul, transpose_transpose, hsymm]
    simp only [Matrix.mul_assoc]
  rw [heq]
  exact hX.mul_mul_conjTranspose_same _

omit [DecidableEq n] in
/-- The short form of the corrected covariance is the Joseph form. -/
lemma sub_gain_mul_eq_joseph (hP : Pᵀ = P) (hX : Xᵀ = X)
    (hinv : X * (C * P * Cᵀ + R) * X = X) :
    P - P * Cᵀ * X * C * P =
      (1 - P * Cᵀ * X * C) * P * (1 - P * Cᵀ * X * C)ᵀ +
        P * Cᵀ * X * R * (P * Cᵀ * X)ᵀ := by
  have hexpand : (1 - P * Cᵀ * X * C) * P * (1 - P * Cᵀ * X * C)ᵀ +
      P * Cᵀ * X * R * (P * Cᵀ * X)ᵀ =
      P - P * Cᵀ * X * C * P - P * Cᵀ * X * C * P +
        P * Cᵀ * (X * (C * P * Cᵀ + R) * X) * C * P := by
    simp only [transpose_sub, transpose_one, transpose_mul, transpose_transpose, hP, hX,
      Matrix.mul_add, Matrix.add_mul, Matrix.mul_sub, Matrix.sub_mul, Matrix.mul_one,
      Matrix.one_mul, Matrix.mul_assoc]
    abel
  rw [hexpand, hinv, sub_add_cancel]

omit [DecidableEq n] in
/-- The corrected covariance. -/
lemma posSemidef_sub_gain_mul (hP : P.PosSemidef) (hR : R.PosSemidef) (hX : Xᵀ = X)
    (hinv : X * (C * P * Cᵀ + R) * X = X) : (P - P * Cᵀ * X * C * P).PosSemidef := by
  have hsymm : Pᵀ = P := hP.isHermitian
  rw [sub_gain_mul_eq_joseph hsymm hX hinv]
  simp only [← conjTranspose_eq_transpose_of_trivial]
  exact (hP.mul_mul_conjTranspose_same _).add (hR.mul_mul_conjTranspose_same _)

end Correction

end RT1064.Core
