import Mathlib.LinearAlgebra.Matrix.DotProduct
import Mathlib.LinearAlgebra.Matrix.Rank
import Mathlib.Tactic

/-!
# Gram matrices and the Moore-Penrose inverse

The four equations of the Moore-Penrose inverse, and how a factorisation of a Gram matrix gives it.
A factor of a Gram matrix is found by making its rows orthogonal to one of them after the other.
-/

namespace RT1064.Core

open Matrix

variable {m n k R : Type*} [Fintype n]

/-! ### Rows made orthogonal to one row -/

section Field

variable [Field R]

/-- The rows of `W` less their projections on the row `k`. -/
def orthogonalize (W : Matrix m n R) (k : m) : Matrix m n R :=
  fun i j => W i j - (W i ⬝ᵥ W k) / (W k ⬝ᵥ W k) * W k j

lemma orthogonalize_row (W : Matrix m n R) (k i : m) :
    orthogonalize W k i = W i - ((W i ⬝ᵥ W k) / (W k ⬝ᵥ W k)) • W k := rfl

/-- A row that is zero stays zero. -/
lemma orthogonalize_of_zero (W : Matrix m n R) (k : m) {i : m} (h : W i = 0) :
    orthogonalize W k i = 0 := by
  rw [orthogonalize_row, h, zero_dotProduct, zero_div, zero_smul, sub_zero]

/-- The row `k` itself becomes zero. -/
lemma orthogonalize_self (W : Matrix m n R) {k : m} (h : W k ⬝ᵥ W k ≠ 0) :
    orthogonalize W k k = 0 := by
  rw [orthogonalize_row, div_self h, one_smul, sub_self]

/-- The Gram matrix of the new rows is the Schur complement. -/
lemma orthogonalize_dotProduct (W : Matrix m n R) {k : m} (h : W k ⬝ᵥ W k ≠ 0) (i j : m) :
    orthogonalize W k i ⬝ᵥ orthogonalize W k j =
      W i ⬝ᵥ W j - (W i ⬝ᵥ W k) * (W j ⬝ᵥ W k) / (W k ⬝ᵥ W k) := by
  simp only [orthogonalize_row, sub_dotProduct, dotProduct_sub, smul_dotProduct, dotProduct_smul,
    smul_eq_mul, dotProduct_comm (W k) (W j)]
  field_simp
  ring

end Field

/-! ### The rank of the rows -/

section Rank

open Submodule

variable [Field R]

lemma orthogonalize_dotProduct_row (W : Matrix m n R) {k : m} (h : W k ⬝ᵥ W k ≠ 0) (i : m) :
    orthogonalize W k i ⬝ᵥ W k = 0 := by
  rw [orthogonalize_row, sub_dotProduct, smul_dotProduct, smul_eq_mul, div_mul_cancel₀ _ h,
    sub_self]

/-- The new rows and the row `k` span the old rows. -/
lemma span_orthogonalize (W : Matrix m n R) (k : m) :
    span R (Set.range (orthogonalize W k).row) ⊔ span R {W k} = span R (Set.range W.row) := by
  have hrow : ∀ i, W i ∈ span R (Set.range W.row) := fun i => subset_span ⟨i, rfl⟩
  apply le_antisymm
  · apply sup_le
    · rw [span_le]
      rintro _ ⟨i, rfl⟩
      exact sub_mem (hrow i) (smul_mem _ _ (hrow k))
    · rw [span_singleton_le_iff_mem]
      exact hrow k
  · rw [span_le]
    rintro _ ⟨i, rfl⟩
    have hi : W i = orthogonalize W k i + ((W i ⬝ᵥ W k) / (W k ⬝ᵥ W k)) • W k := by
      rw [orthogonalize_row, sub_add_cancel]
    show W i ∈ _
    rw [hi]
    exact add_mem (mem_sup_left (subset_span ⟨i, rfl⟩))
      (mem_sup_right (smul_mem _ _ (mem_span_singleton_self _)))

/-- The row `k` is not in the span of the new rows. -/
lemma disjoint_orthogonalize (W : Matrix m n R) {k : m} (h : W k ⬝ᵥ W k ≠ 0) :
    Disjoint (span R (Set.range (orthogonalize W k).row)) (span R {W k}) := by
  rw [disjoint_span_singleton]
  intro hmem
  have hzero : ∀ x ∈ span R (Set.range (orthogonalize W k).row), x ⬝ᵥ W k = 0 := by
    intro x hx
    induction hx using span_induction with
    | mem x hx =>
      obtain ⟨i, rfl⟩ := hx
      exact orthogonalize_dotProduct_row W h i
    | zero => exact zero_dotProduct _
    | add x y _ _ hx hy => rw [add_dotProduct, hx, hy, add_zero]
    | smul c x _ hx => rw [smul_dotProduct, hx, smul_zero]
  exact absurd (hzero _ hmem) h

/-- The rank of the rows drops by one. -/
lemma rank_orthogonalize [Finite m] (W : Matrix m n R) {k : m} (h : W k ⬝ᵥ W k ≠ 0) :
    (orthogonalize W k).rank + 1 = W.rank := by
  have hne : W k ≠ 0 := by
    intro hzero
    rw [hzero, dotProduct_zero] at h
    exact h rfl
  have hsum := finrank_sup_add_finrank_inf_eq (span R (Set.range (orthogonalize W k).row))
    (span R {W k})
  rw [span_orthogonalize, (disjoint_orthogonalize W h).eq_bot, finrank_bot, add_zero,
    finrank_span_singleton hne, ← rank_eq_finrank_span_row, ← rank_eq_finrank_span_row] at hsum
  exact hsum.symm
end Rank

/-! ### The Moore-Penrose inverse -/

section CommRing

variable [Fintype m] [CommRing R]

/-- `X` is the Moore-Penrose inverse of `G`. -/
structure IsMoorePenrose (G : Matrix m n R) (X : Matrix n m R) : Prop where
  mul_mul_self : G * X * G = G
  self_mul_mul : X * G * X = X
  symm_left : (G * X)ᵀ = G * X
  symm_right : (X * G)ᵀ = X * G

lemma IsMoorePenrose.transpose {G : Matrix m n R} {X : Matrix n m R} (h : IsMoorePenrose G X) :
    IsMoorePenrose Gᵀ Xᵀ where
  mul_mul_self := by
    rw [← transpose_mul, ← transpose_mul, ← Matrix.mul_assoc, h.mul_mul_self]
  self_mul_mul := by
    rw [← transpose_mul, ← transpose_mul, ← Matrix.mul_assoc, h.self_mul_mul]
  symm_left := by rw [← transpose_mul, h.symm_right, h.symm_right]
  symm_right := by rw [← transpose_mul, h.symm_left, h.symm_left]

/-- `X` inverts the Gram matrix of the columns of `L` on the columns that are not zero. -/
structure IsGramInverse [Fintype k] (L : Matrix m k R) (X : Matrix k k R) : Prop where
  symm : Xᵀ = X
  comm : X * (Lᵀ * L) = Lᵀ * L * X
  absorb : L * (Lᵀ * L * X) = L

end CommRing

section Factor

variable [Fintype m] [Fintype k] [CommRing R] [PartialOrder R] [StarRing R] [TrivialStar R]
  [StarOrderedRing R] [NoZeroDivisors R] {G : Matrix m n R} {L : Matrix m k R} {X : Matrix k k R}

/-- `L X Lᵀ` is the projection on the columns of `G`. -/
lemma IsGramInverse.projection_mul (hX : IsGramInverse L X) (hL : L * Lᵀ = G * Gᵀ) :
    L * X * Lᵀ * G = G := by
  classical
  have hgram : L * X * Lᵀ * (G * Gᵀ) = G * Gᵀ := by
    calc L * X * Lᵀ * (G * Gᵀ) = L * (X * (Lᵀ * L)) * Lᵀ := by
          rw [← hL]
          simp only [Matrix.mul_assoc]
      _ = G * Gᵀ := by rw [hX.comm, hX.absorb, hL]
  have hzero : (L * X * Lᵀ - 1) * (G * Gᴴ) = 0 := by
    rw [conjTranspose_eq_transpose_of_trivial, Matrix.sub_mul, hgram, Matrix.one_mul, sub_self]
  rw [mul_self_mul_conjTranspose_eq_zero, Matrix.sub_mul, Matrix.one_mul] at hzero
  exact sub_eq_zero.1 hzero

/-- The Moore-Penrose inverse of a matrix from a factor of the Gram matrix of its rows. -/
theorem IsGramInverse.isMoorePenrose (hX : IsGramInverse L X) (hL : L * Lᵀ = G * Gᵀ) :
    IsMoorePenrose G (Gᵀ * (L * (X * X * Lᵀ))) := by
  have hleft : G * (Gᵀ * (L * (X * X * Lᵀ))) = L * X * Lᵀ := by
    calc G * (Gᵀ * (L * (X * X * Lᵀ))) = L * (Lᵀ * L * X) * X * Lᵀ := by
          rw [← Matrix.mul_assoc, ← hL]
          simp only [Matrix.mul_assoc]
      _ = L * X * Lᵀ := by rw [hX.absorb]
  refine ⟨?_, ?_, ?_, ?_⟩
  · rw [hleft, hX.projection_mul hL]
  · rw [Matrix.mul_assoc, hleft]
    calc Gᵀ * (L * (X * X * Lᵀ)) * (L * X * Lᵀ)
        = Gᵀ * (L * (X * (X * (Lᵀ * L)) * X * Lᵀ)) := by simp only [Matrix.mul_assoc]
      _ = Gᵀ * (L * (X * (Lᵀ * L * X) * X * Lᵀ)) := by rw [hX.comm]
      _ = Gᵀ * (L * (X * (Lᵀ * L)) * (X * X * Lᵀ)) := by simp only [Matrix.mul_assoc]
      _ = Gᵀ * (L * (X * X * Lᵀ)) := by rw [hX.comm, hX.absorb]
  · rw [hleft]
    simp only [transpose_mul, transpose_transpose, hX.symm, Matrix.mul_assoc]
  · simp only [transpose_mul, transpose_transpose, hX.symm, Matrix.mul_assoc]

/-- The Moore-Penrose inverse of a matrix from a factor of the Gram matrix of its columns. -/
theorem IsGramInverse.isMoorePenrose_of_columns {G : Matrix n m R} (hX : IsGramInverse L X)
    (hL : L * Lᵀ = Gᵀ * G) : IsMoorePenrose G (L * (X * X * Lᵀ) * Gᵀ) := by
  have hrows : L * Lᵀ = Gᵀ * Gᵀᵀ := by rw [hL, transpose_transpose]
  have htranspose : (Gᵀᵀ * (L * (X * X * Lᵀ)))ᵀ = L * (X * X * Lᵀ) * Gᵀ := by
    simp only [transpose_mul, transpose_transpose, hX.symm, Matrix.mul_assoc]
  have hG := (hX.isMoorePenrose hrows).transpose
  rw [htranspose, transpose_transpose] at hG
  exact hG

end Factor

end RT1064.Core
