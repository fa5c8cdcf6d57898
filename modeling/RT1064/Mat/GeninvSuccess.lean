import RT1064.Mat.CholeskyInverse
import RT1064.Mat.FullRank
import RT1064.Mat.RowFactor

/-!
# When the pseudo-inverse is found

`geninv` fails when the inverse of the Gram matrix of the factor meets a threshold. The tolerance
that decides the rank is relative to the matrix and the thresholds are absolute, so a small matrix
has no pseudo-inverse for the code.
-/

namespace RT1064.Mat

open Core Matrix

variable {M N P : ℕ}

/-! ### The condition on the Gram matrix -/

section Gram

variable [NeZero N]

lemma fullRankCholesky_le (A : Matrix (Fin N) (Fin N) ℝ) : (fullRankCholesky A).2 ≤ N := by
  refine foldl_indices_induction (fun _ (s : Cholesky ℝ N) => s.r ≤ N) (Nat.zero_le N) le_rfl
    (Nat.zero_le N) ?_
  intro k s _ _ hs
  rw [choleskyStep]
  split_ifs with hr
  · dsimp only
    split_ifs
    · exact hr
    · exact hs
  · exact hs

/-- The Gram matrix of the columns of the factor. -/
noncomputable def factorGram (A : Matrix (Fin N) (Fin N) ℝ) :
    Matrix (Fin (fullRankCholesky A).2) (Fin (fullRankCholesky A).2) ℝ :=
  lead (fullRankCholesky_le A) ((fullRankCholesky A).1ᵀ * (fullRankCholesky A).1)

/-- In one dimension the matrix is not small; in more dimensions elimination finds the pivots of
the Gram matrix of the factor. -/
def GramClear (A : Matrix (Fin N) (Fin N) ℝ) : Prop :=
  if N = 1 then FLT_EPSILON ≤ A.trace else Eliminates FLT_EPSILON (factorGram A)

/-- The factor of a matrix of one entry is its root. -/
lemma fullRankCholesky_one {A : Matrix (Fin 1) (Fin 1) ℝ} (hA : 0 ≤ A 0 0) :
    ((fullRankCholesky A).1ᵀ * (fullRankCholesky A).1) 0 0 = A 0 0 := by
  have hstep : (fullRankCholesky A).1 = (choleskyStep A { L := 0, r := 0 } 0).L :=
    congrArg Cholesky.L (choleskyAt_succ (A := A) 0)
  have hresidual : residualColumn A 0 0 0 0 0 = A 0 0 := by
    rw [residualColumn_below A 0 0 le_rfl]
    exact sub_zero _
  have htol : tol A = FLT_EPSILON * A 0 0 := by
    have hmax : vecMax (diag A) = A 0 0 := by
      have hone : (indices 0 1 : List (Fin 1)) = [0] := rfl
      simp [vecMax, hone, diag]
    rw [tol, hmax, Nat.cast_one, one_mul, typeEpsilon]
  have hfactor : (fullRankCholesky A).1 0 0 = if tol A < A 0 0 then √(A 0 0) else A 0 0 := by
    rw [hstep, choleskyStep, dif_pos Nat.one_pos]
    show (if tol A < residualColumn A 0 0 0 0 0 then _ else _ : Cholesky ℝ 1).L 0 0 = _
    rw [hresidual]
    split_ifs
    · exact (scaleColumn_pivot _ 0 0).trans (congrArg Real.sqrt hresidual)
    · exact hresidual
  rw [mul_apply, Fin.sum_univ_one, transpose_apply, hfactor]
  split_ifs with hlt
  · exact Real.mul_self_sqrt hA
  · -- the tolerance is below every positive entry
    rw [htol, not_lt] at hlt
    have hepsilon : (FLT_EPSILON : ℝ) < 1 := by norm_num [FLT_EPSILON]
    have hzero : A 0 0 = 0 := by
      by_contra hne
      have hpos : 0 < A 0 0 := lt_of_le_of_ne hA (Ne.symm hne)
      exact absurd hlt (not_le.2 (mul_lt_of_lt_one_left hpos hepsilon))
    rw [hzero, mul_zero]

/-- The inverse that `geninv` takes is found if and only if the Gram matrix is clear. -/
lemma invRank_succeeds_iff {A : Matrix (Fin N) (Fin N) ℝ} (hA : A.PosSemidef)
    (X : Matrix (Fin N) (Fin N) ℝ) :
    (invRank ((fullRankCholesky A).1ᵀ * (fullRankCholesky A).1) X (fullRankCholesky A).2).1 = true ↔
      GramClear A := by
  rw [GramClear]
  rcases eq_or_ne N 1 with rfl | hN
  · have hentry := fullRankCholesky_one (A := A) hA.diag_nonneg
    rw [if_pos rfl, trace_fin_one]
    refine (invOne_succeeds_iff _ X).trans ?_
    rw [hentry, abs_of_nonneg hA.diag_nonneg]
  · rw [if_neg hN, invRank_of_ne hN]
    exact inv_succeeds_iff (fullRankCholesky_le A) _ X

end Gram

/-! ### The condition on the rows -/

section Rows

/-- In one dimension the row is not small; in more dimensions elimination finds the pivots of the
Gram matrix of the coordinates of the rows along those that Gram–Schmidt keeps. -/
def RowsEliminate [NeZero N] (W : Matrix (Fin N) (Fin P) ℝ) : Prop :=
  if N = 1 then FLT_EPSILON ≤ ∑ i, W i ⬝ᵥ W i
  else Eliminates FLT_EPSILON (keptGram (tol (W * Wᵀ)) W)

lemma gramClear_iff [NeZero N] (W : Matrix (Fin N) (Fin P) ℝ) :
    GramClear (W * Wᵀ) ↔ RowsEliminate W := by
  obtain ⟨hrank, hcolumns⟩ := fullRankCholesky_rows W
  have hentry : ∀ (c : Fin (fullRankCholesky (W * Wᵀ)).2) (i : Fin N),
      (fullRankCholesky (W * Wᵀ)).1 i (Fin.castLE (fullRankCholesky_le _) c) =
        coordinates (tol (W * Wᵀ)) W ((keptRows (tol (W * Wᵀ)) W N).get (Fin.cast hrank c)) i :=
    fun c => hcolumns _ _ (List.getElem?_eq_getElem (Fin.cast hrank c).isLt)
  rw [GramClear, RowsEliminate]
  split_ifs with hN
  · exact Iff.rfl
  · refine eliminates_cast hrank fun c d => ?_
    rw [factorGram, lead, submatrix_apply, mul_apply]
    refine Finset.sum_congr rfl fun i _ => ?_
    rw [transpose_apply, hentry, hentry]

end Rows

/-! ### The finished columns of the factor -/

section Columns

variable [NeZero N] {A : Matrix (Fin N) (Fin N) ℝ}

variable (A) in
/-- The finished columns of the factor. -/
noncomputable def factorColumns : Matrix (Fin N) (Fin (fullRankCholesky A).2) ℝ :=
  (fullRankCholesky A).1.submatrix id (Fin.castLE (fullRankCholesky_le A))

lemma factorGram_eq : factorGram A = (factorColumns A)ᵀ * factorColumns A := rfl

lemma factorColumns_mul_transpose (hA : A.PosSemidef) (hclear : PivotsClear A) :
    factorColumns A * (factorColumns A)ᵀ = A := by
  refine Eq.trans ?_ (fullRankCholesky_mul_transpose hA hclear)
  ext i j
  rw [mul_apply, mul_apply]
  refine (sum_castLE (fullRankCholesky_le A) fun k =>
    (fullRankCholesky A).1 i k * (fullRankCholesky A).1 j k).trans ?_
  refine Finset.sum_subset (Finset.subset_univ _) fun k _ hk => ?_
  have hkr : (fullRankCholesky A).2 ≤ k.val := not_lt.1 fun hlt => hk (by simpa using hlt)
  rw [fullRankCholesky_zero hA hclear hkr, zero_mul]

/-- The Gram matrix of the finished columns has full rank. -/
lemma factorGram_surjective (hA : A.PosSemidef) (hclear : PivotsClear A) :
    Function.Surjective (factorGram A).mulVec := by
  have hrank : (factorGram A).rank = (fullRankCholesky A).2 := by
    rw [factorGram_eq, rank_transpose_mul_self, ← rank_self_mul_transpose,
      factorColumns_mul_transpose hA hclear, fullRankCholesky_rank hA hclear]
  have htop : LinearMap.range (factorGram A).mulVecLin = ⊤ := by
    apply Submodule.eq_top_of_finrank_eq
    rw [Module.finrank_fin_fun]
    exact hrank
  exact LinearMap.range_eq_top.1 htop

lemma factorGram_transpose : (factorGram A)ᵀ = factorGram A := by
  rw [factorGram_eq, transpose_mul, transpose_transpose]

/-- The rank is not zero unless the matrix is. -/
lemma fullRankCholesky_pos (hA : A.PosSemidef) (hclear : PivotsClear A) (hne : A ≠ 0) :
    0 < (fullRankCholesky A).2 := by
  rw [pos_iff_ne_zero]
  intro hzero
  apply hne
  rw [← factorColumns_mul_transpose hA hclear]
  ext i j
  rw [mul_apply]
  refine Finset.sum_eq_zero fun k _ => ?_
  exact absurd (lt_of_lt_of_eq k.isLt hzero) (Nat.not_lt_zero _)

/-- The trace of the Gram matrix of the columns is that of the matrix. -/
lemma factorGram_trace (hA : A.PosSemidef) (hclear : PivotsClear A) :
    (factorGram A).trace = A.trace := by
  rw [factorGram_eq, trace_mul_comm, factorColumns_mul_transpose hA hclear]

end Columns

/-! ### Small matrices and large eigenvalues -/

/-- The eigenvalues of the matrix that are not zero are not below `FLT_EPSILON`. -/
def EigenvaluesClear (A : Matrix (Fin N) (Fin N) ℝ) : Prop :=
  ∀ x, FLT_EPSILON * (x ⬝ᵥ A *ᵥ x) ≤ (A *ᵥ x) ⬝ᵥ (A *ᵥ x)

/-- The only entry of a matrix of one dimension is its eigenvalue. -/
lemma EigenvaluesClear.le_trace {A : Matrix (Fin 1) (Fin 1) ℝ} (h : EigenvaluesClear A)
    (hA : A.PosSemidef) (hne : A ≠ 0) : FLT_EPSILON ≤ A.trace := by
  have hpos : 0 < A 0 0 := by
    refine lt_of_le_of_ne hA.diag_nonneg ?_
    intro hzero
    apply hne
    ext i j
    rw [Subsingleton.elim i 0, Subsingleton.elim j 0, ← hzero]
    rfl
  have hentry : (A *ᵥ fun _ => 1) 0 = A 0 0 := by
    simp [Matrix.mulVec, dotProduct]
  have hone := h fun _ => 1
  simp only [dotProduct, Fin.sum_univ_one, hentry, one_mul] at hone
  rw [trace_fin_one]
  exact le_of_mul_le_mul_right hone hpos

section Bounds

variable [NeZero N] {A : Matrix (Fin N) (Fin N) ℝ}

/-- A matrix with a small trace is not clear. -/
lemma not_gramClear_of_trace_lt (hA : A.PosSemidef) (hclear : PivotsClear A) (hne : A ≠ 0)
    (h : A.trace < FLT_EPSILON) : ¬ GramClear A := by
  rw [GramClear]
  split_ifs with hN
  · exact not_le.2 h
  · apply not_eliminates_of_lt (fullRankCholesky_pos hA hclear hne)
    intro i j
    have hB : (factorGram A).PosSemidef := by
      rw [factorGram_eq, ← conjTranspose_eq_transpose_of_trivial]
      exact posSemidef_conjTranspose_mul_self _
    refine lt_of_le_of_lt (abs_le_trace hB i j) ?_
    rwa [factorGram_trace hA hclear]

/-- A matrix of rank one has one pivot, which is its trace. -/
lemma gramClear_iff_of_rank_one (hA : A.PosSemidef) (hclear : PivotsClear A) (hrank : A.rank = 1) :
    GramClear A ↔ FLT_EPSILON ≤ A.trace := by
  have hone : (fullRankCholesky A).2 = 1 := (fullRankCholesky_rank hA hclear).trans hrank
  have htrace : 0 ≤ A.trace := Finset.sum_nonneg fun i _ => hA.diag_nonneg
  rw [GramClear]
  split_ifs with hN
  · exact Iff.rfl
  · rw [eliminates_iff_of_one hone, factorGram_trace hA hclear, abs_of_nonneg htrace]

/-- The dot product of two images. -/
lemma mulVec_dotProduct_mulVec {m n : Type*} [Fintype m] [Fintype n] (C : Matrix m n ℝ)
    (u v : n → ℝ) : (C *ᵥ u) ⬝ᵥ (C *ᵥ v) = u ⬝ᵥ (Cᵀ * C) *ᵥ v := by
  rw [dotProduct_mulVec, vecMul_mulVec, dotProduct_mulVec]

/-- The eigenvalues of the Gram matrix of the columns are those of the matrix but for zero. -/
lemma le_quad_factorGram (hA : A.PosSemidef) (hclear : PivotsClear A) (h : EigenvaluesClear A)
    (y : Fin (fullRankCholesky A).2 → ℝ) :
    FLT_EPSILON * (y ⬝ᵥ y) ≤ quad (factorGram A) y := by
  obtain ⟨z, hz⟩ := factorGram_surjective hA hclear y
  set C := factorColumns A with hC
  have hmul : A *ᵥ (C *ᵥ z) = C *ᵥ y := by
    nth_rewrite 1 [← factorColumns_mul_transpose hA hclear]
    rw [← hz, factorGram_eq, ← hC, mulVec_mulVec, mulVec_mulVec, Matrix.mul_assoc]
  have hleft : (C *ᵥ z) ⬝ᵥ (C *ᵥ y) = y ⬝ᵥ y := by
    rw [mulVec_dotProduct_mulVec, ← factorGram_eq, dotProduct_mulVec,
      ← factorGram_transpose, vecMul_transpose, hz]
  have hquad := h (C *ᵥ z)
  rw [hmul, hleft, mulVec_dotProduct_mulVec, ← factorGram_eq] at hquad
  exact hquad

lemma gramClear_of_eigenvalues (hA : A.PosSemidef) (hclear : PivotsClear A) (hne : A ≠ 0)
    (h : EigenvaluesClear A) : GramClear A := by
  rw [GramClear]
  split_ifs with hN
  · subst hN
    exact h.le_trace hA hne
  · exact eliminates_of_le_quad factorGram_transpose FLT_EPSILON_pos
      (le_quad_factorGram hA hclear h)

end Bounds

/-! ### The pseudo-inverse -/

section Geninv

variable [NeZero M] [NeZero N] (G : Matrix (Fin M) (Fin N) ℝ)

/-- The rows of the matrix, or its columns if there are fewer, are clear of the thresholds. -/
def GeninvPivots : Prop :=
  if M ≤ N then RowsEliminate G else RowsEliminate Gᵀ

/-- The singular values of the matrix that are not zero have squares not below `FLT_EPSILON`. -/
def SingularValuesClear : Prop :=
  if M ≤ N then EigenvaluesClear (G * Gᵀ) else EigenvaluesClear (Gᵀ * G)

variable {G}

omit [NeZero M] [NeZero N] in
lemma posSemidef_rows : (G * Gᵀ).PosSemidef := by
  rw [← conjTranspose_eq_transpose_of_trivial]
  exact posSemidef_self_mul_conjTranspose G

omit [NeZero M] [NeZero N] in
lemma posSemidef_columns : (Gᵀ * G).PosSemidef := by
  rw [← conjTranspose_eq_transpose_of_trivial]
  exact posSemidef_conjTranspose_mul_self G

lemma geninvPivots_iff :
    GeninvPivots G ↔ if M ≤ N then GramClear (G * Gᵀ) else GramClear (Gᵀ * G) := by
  rw [GeninvPivots]
  split_ifs with hMN
  · exact (gramClear_iff G).symm
  · exact (gramClear_iff Gᵀ).symm

lemma geninv_succeeds_iff_pivots : (geninv G).1 = true ↔ GeninvPivots G := by
  rw [geninv, geninvPivots_iff]
  simp only [mul_eq]
  split_ifs with hMN
  · rw [← invRank_succeeds_iff posSemidef_rows 0]
    rcases invRank _ _ _ with ⟨_ | _, X⟩
    · rfl
    · rfl
  · rw [← invRank_succeeds_iff posSemidef_columns 0]
    rcases invRank _ _ _ with ⟨_ | _, X⟩
    · rfl
    · rfl

omit [NeZero M] [NeZero N] in
lemma trace_rows : (G * Gᵀ).trace = ∑ i, ∑ j, G i j ^ 2 := by
  simp only [Matrix.trace, diag_apply, mul_apply, transpose_apply, sq]

omit [NeZero M] [NeZero N] in
lemma rows_ne_zero (h : G ≠ 0) : G * Gᵀ ≠ 0 := by
  rw [← conjTranspose_eq_transpose_of_trivial]
  exact mt self_mul_conjTranspose_eq_zero.1 h

omit [NeZero M] [NeZero N] in
lemma columns_ne_zero (h : G ≠ 0) : Gᵀ * G ≠ 0 := by
  rw [← conjTranspose_eq_transpose_of_trivial]
  exact mt conjTranspose_mul_self_eq_zero.1 h

lemma not_geninvPivots_of_small (hclear : GeninvClear G) (hne : G ≠ 0)
    (h : ∑ i, ∑ j, G i j ^ 2 < FLT_EPSILON) : ¬ GeninvPivots G := by
  rw [← trace_rows] at h
  rw [GeninvClear] at hclear
  rw [geninvPivots_iff]
  split_ifs at hclear ⊢ with hMN
  · exact not_gramClear_of_trace_lt posSemidef_rows hclear (rows_ne_zero hne) h
  · rw [trace_mul_comm] at h
    exact not_gramClear_of_trace_lt posSemidef_columns hclear (columns_ne_zero hne) h

lemma geninvPivots_iff_of_rank_one (hclear : GeninvClear G) (hrank : G.rank = 1) :
    GeninvPivots G ↔ FLT_EPSILON ≤ ∑ i, ∑ j, G i j ^ 2 := by
  rw [← trace_rows]
  rw [GeninvClear] at hclear
  rw [geninvPivots_iff]
  split_ifs at hclear ⊢ with hMN
  · exact gramClear_iff_of_rank_one posSemidef_rows hclear ((rank_self_mul_transpose G).trans hrank)
  · rw [trace_mul_comm]
    exact gramClear_iff_of_rank_one posSemidef_columns hclear
      ((rank_transpose_mul_self G).trans hrank)

lemma geninvPivots_of_singularValues (hclear : GeninvClear G) (hne : G ≠ 0)
    (h : SingularValuesClear G) : GeninvPivots G := by
  rw [GeninvClear] at hclear
  rw [SingularValuesClear] at h
  rw [geninvPivots_iff]
  split_ifs at hclear h ⊢ with hMN
  · exact gramClear_of_eigenvalues posSemidef_rows hclear (rows_ne_zero hne) h
  · exact gramClear_of_eigenvalues posSemidef_columns hclear (columns_ne_zero hne) h

variable (G) in
/-- `geninv` succeeds if and only if the rows of the matrix, or its columns, are clear of the
thresholds. With clear pivots this is a matter of the size of a matrix of rank one; it fails for
every matrix that is small and not zero, and succeeds if the singular values are not small. -/
theorem geninv_succeeds_iff :
    ((geninv G).1 = true ↔ GeninvPivots G) ∧
      (GeninvClear G → G.rank = 1 →
        ((geninv G).1 = true ↔ FLT_EPSILON ≤ ∑ i, ∑ j, G i j ^ 2)) ∧
      (GeninvClear G → G ≠ 0 → ∑ i, ∑ j, G i j ^ 2 < FLT_EPSILON → (geninv G).1 = false) ∧
      (GeninvClear G → G ≠ 0 → SingularValuesClear G → (geninv G).1 = true) := by
  refine ⟨geninv_succeeds_iff_pivots, ?_, ?_, ?_⟩
  · intro hclear hrank
    rw [geninv_succeeds_iff_pivots]
    exact geninvPivots_iff_of_rank_one hclear hrank
  · intro hclear hne h
    rw [← Bool.not_eq_true, geninv_succeeds_iff_pivots]
    exact not_geninvPivots_of_small hclear hne h
  · intro hclear hne h
    rw [geninv_succeeds_iff_pivots]
    exact geninvPivots_of_singularValues hclear hne h

/-- A row that is not small, and two rows of which the first is skipped. -/
theorem geninv_succeeds_iff_large :
    (geninv !![(3 : ℝ), 4]).1 = true ∧ (geninv skipped).1 = true := by
  have hrank : skipped.rank = 1 := by
    rw [← rank_self_mul_transpose, ← fullRankCholesky_rank posSemidef_rows pivotsClear_skipped,
      skipped_mul_transpose, fullRankCholesky_skipped]
  constructor
  · refine (geninv_succeeds_iff !![(3 : ℝ), 4]).1.2 ?_
    rw [GeninvPivots, if_pos (by decide), RowsEliminate, if_pos rfl]
    norm_num [FLT_EPSILON, dotProduct]
  · refine ((geninv_succeeds_iff skipped).2.1 geninvClear_skipped hrank).2 ?_
    rw [← trace_rows, skipped_mul_transpose]
    norm_num [FLT_EPSILON, skippedGram, trace_fin_two]

/-- A row that is small: its sum of squares is `5 * 10⁻⁸`. -/
theorem geninv_small : ¬ (geninv !![(1 / 10000 : ℝ), 2 / 10000]).1 = true := by
  rw [geninv_succeeds_iff_pivots, GeninvPivots, if_pos (by decide), RowsEliminate, if_pos rfl]
  norm_num [FLT_EPSILON, dotProduct]

end Geninv

end RT1064.Mat
