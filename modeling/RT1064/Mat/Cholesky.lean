import RT1064.Core.Semidefinite
import RT1064.Mat.ClosedForm

/-!
# Cholesky decomposition

The decomposition of a positive semidefinite matrix column by column. A column whose pivot is not
positive is left empty, which is right because nothing of the matrix is left in its row.
-/

namespace RT1064.Mat

open Core Matrix

variable {K : Type*} {M P : ℕ}

/-! ### The loops -/

section Model

variable [Field K] [LinearOrder K] [Cmath K]

/-- The entry `(i, j)` of the factor. -/
def choleskyEntry (A : Matrix (Fin M) (Fin M) K) (j : Fin M) (L : Matrix (Fin M) (Fin M) K)
    (i : Fin M) : Matrix (Fin M) (Fin M) K :=
  if i = j then
    let sum := (indices 0 j.val).foldl (fun sum k => sum + L j k * L j k) 0
    let res := A j j - sum
    if res ≤ 0 then setEntry L j j 0 else setEntry L j j (Cmath.sqrt res)
  else
    let sum := (indices 0 j.val).foldl (fun sum k => sum + L i k * L j k) 0
    if L j j ≤ 0 then setEntry L i j 0 else setEntry L i j ((A i j - sum) / L j j)

/-- The column `j` of the factor. -/
def choleskyColumn (A L : Matrix (Fin M) (Fin M) K) (j : Fin M) : Matrix (Fin M) (Fin M) K :=
  (indices j.val M).foldl (choleskyEntry A j) L

/-- `cholesky(A)`. -/
def cholesky (A : Matrix (Fin M) (Fin M) K) : Matrix (Fin M) (Fin M) K :=
  (indices 0 M).foldl (choleskyColumn A) 0

/-- `choleskyInv(A)`. -/
def choleskyInv (A : Matrix (Fin M) (Fin M) K) : Matrix (Fin M) (Fin M) K :=
  let L_inv := invValue (cholesky A)
  mul L_invᵀ L_inv

end Model

/-! ### One column -/

section Column

variable [Field K] [LinearOrder K] [Cmath K] (A : Matrix (Fin M) (Fin M) K)

/-- The entry on the diagonal, from what the columns before leave of it. -/
def pivotRoot (res : K) : K := if res ≤ 0 then 0 else Cmath.sqrt res

lemma choleskyEntry_self (j : Fin M) (L : Matrix (Fin M) (Fin M) K) :
    choleskyEntry A j L j = setEntry L j j (pivotRoot (A j j - LL L j.val j j)) := by
  rw [choleskyEntry, if_pos rfl, pivotRoot]
  exact (apply_ite (setEntry L j j) _ _ _).symm

lemma choleskyEntry_of_ne {i j : Fin M} (h : i ≠ j) (L : Matrix (Fin M) (Fin M) K) :
    choleskyEntry A j L i =
      setEntry L i j (if L j j ≤ 0 then 0 else (A i j - LL L j.val i j) / L j j) := by
  rw [choleskyEntry, if_neg h]
  exact (apply_ite (setEntry L i j) _ _ _).symm

/-- One round writes one entry. -/
lemma exists_choleskyEntry (i j : Fin M) (L : Matrix (Fin M) (Fin M) K) :
    ∃ v, choleskyEntry A j L i = setEntry L i j v := by
  rcases eq_or_ne i j with rfl | h
  · exact ⟨_, choleskyEntry_self A i L⟩
  · exact ⟨_, choleskyEntry_of_ne A h L⟩

lemma choleskyColumn_of_ne (L : Matrix (Fin M) (Fin M) K) (i : Fin M) {j k : Fin M} (h : k ≠ j) :
    choleskyColumn A L j i k = L i k := by
  apply foldl_frame (entry i k)
  intro L i' _
  obtain ⟨v, hv⟩ := exists_choleskyEntry A i' j L
  rw [hv]
  exact setEntry_of_col_ne L i' i h v

lemma choleskyColumn_above (L : Matrix (Fin M) (Fin M) K) {i j : Fin M} (h : i < j) :
    choleskyColumn A L j i j = L i j := by
  apply foldl_frame (entry i j)
  intro L i' hi'
  obtain ⟨v, hv⟩ := exists_choleskyEntry A i' j L
  rw [hv]
  exact setEntry_of_row_ne L (Fin.ne_of_lt (lt_of_lt_of_le h (mem_indices.1 hi').1)) j j v

/-- The first round of a column is the one on the diagonal. -/
lemma choleskyColumn_eq (L : Matrix (Fin M) (Fin M) K) (j : Fin M) :
    choleskyColumn A L j =
      (indices (j.val + 1) M).foldl (choleskyEntry A j)
        (setEntry L j j (pivotRoot (A j j - LL L j.val j j))) := by
  rw [choleskyColumn, indices_cons j j.isLt, List.foldl_cons, choleskyEntry_self]

lemma choleskyColumn_diag (L : Matrix (Fin M) (Fin M) K) (j : Fin M) :
    choleskyColumn A L j j j = pivotRoot (A j j - LL L j.val j j) := by
  rw [choleskyColumn_eq]
  refine (foldl_frame (entry j j) ?_ _).trans (setEntry_self _ _ _ _)
  intro L i hi
  have hij : j < i := (mem_indices.1 hi).1
  rw [choleskyEntry_of_ne A hij.ne']
  exact setEntry_of_row_ne L hij.ne j j _

lemma choleskyColumn_below (L : Matrix (Fin M) (Fin M) K) {i j : Fin M} (h : j < i) :
    choleskyColumn A L j i j =
      if pivotRoot (A j j - LL L j.val j j) ≤ 0 then 0
      else (A i j - LL L j.val i j) / pivotRoot (A j j - LL L j.val j j) := by
  rw [choleskyColumn_eq]
  refine (foldl_once (entry i j)
    (fun L : Matrix (Fin M) (Fin M) K => (L j j, LL L j.val i j))
    (v := fun e => if e.1 ≤ 0 then 0 else (A i j - e.2) / e.1)
    (nodup_indices _ _) (mem_indices.2 ⟨h, i.isLt⟩) ?_ ?_ ?_ _).trans ?_
  · intro L i' hi' hne
    have hij : j < i' := (mem_indices.1 hi').1
    rw [choleskyEntry_of_ne A hij.ne']
    exact setEntry_of_row_ne L hne.symm j j _
  · intro L i' hi' _
    have hij : j < i' := (mem_indices.1 hi').1
    rw [choleskyEntry_of_ne A hij.ne']
    exact Prod.ext (setEntry_of_row_ne L hij.ne j j _) (LL_setEntry L i' j _ i j)
  · intro L
    rw [choleskyEntry_of_ne A h.ne']
    exact setEntry_self L i j _
  · simp only [setEntry_self, LL_setEntry]

end Column

/-! ### What is left of the matrix -/

/-- Before the column `j` the rows `W` are what is left to factor, and the columns of `L` that are
finished are lower triangular with non-negative diagonal. -/
structure Lower (A : Matrix (Fin M) (Fin M) ℝ) (j : ℕ) (L : Matrix (Fin M) (Fin M) ℝ)
    (W : Matrix (Fin M) (Fin P) ℝ) : Prop extends Residual A j { L := L, r := j } W where
  lower : ∀ i k, i < k → L i k = 0
  diag_nonneg : ∀ i, 0 ≤ L i i

section Lower

variable {A L : Matrix (Fin M) (Fin M) ℝ} {j : Fin M} {W : Matrix (Fin M) (Fin P) ℝ}

lemma pivotRoot_real {res : ℝ} : pivotRoot res = √res := by
  rw [pivotRoot]
  split_ifs with h
  · exact (Real.sqrt_eq_zero_of_nonpos h).symm
  · rfl

/-- The column is the product of the rows that are left with its own row, by the root of the
pivot; if the pivot is zero so is the column. -/
lemma Lower.column (h : Lower A j.val L W) (i : Fin M) :
    choleskyColumn A L j i j = (W i ⬝ᵥ W j) / √(W j ⬝ᵥ W j) := by
  have hleft : ∀ i, A i j - LL L j.val i j = W i ⬝ᵥ W j := h.toResidual.sub_LL
  rcases lt_trichotomy i j with hi | rfl | hi
  · rw [choleskyColumn_above A L hi, h.lower i j hi, h.W_zero i hi, zero_dotProduct, zero_div]
  · rw [choleskyColumn_diag, hleft, pivotRoot_real, Real.div_sqrt]
  · rw [choleskyColumn_below A L hi, hleft, hleft, pivotRoot_real]
    split_ifs with hzero
    · rw [le_antisymm hzero (Real.sqrt_nonneg _), div_zero]
    · rfl

/-- A column with a zero pivot has nothing left in its row. -/
lemma Lower.skip (h : Lower A j.val L W) (hzero : W j = 0) :
    Residual A (j.val + 1) { L := choleskyColumn A L j, r := j.val + 1 } W := by
  have hL : choleskyColumn A L j = L := by
    ext i k
    rcases eq_or_ne k j with rfl | hk
    · rw [h.column, hzero, dotProduct_zero, zero_div]
      exact (h.L_zero i k le_rfl).symm
    · exact choleskyColumn_of_ne A L i hk
  rw [hL]
  refine ⟨le_rfl, h.gram, ?_, ?_⟩
  · intro i k hk
    exact h.L_zero i k (Nat.le_of_succ_le hk)
  · intro i hi
    rcases Nat.lt_succ_iff_lt_or_eq.1 hi with hlt | heq
    · exact h.W_zero i hlt
    · obtain rfl : i = j := Fin.ext heq
      exact hzero

lemma Lower.step (h : Lower A j.val L W) :
    ∃ W' : Matrix (Fin M) (Fin P) ℝ, Lower A (j.val + 1) (choleskyColumn A L j) W' := by
  have hlower : ∀ i k, i < k → choleskyColumn A L j i k = 0 := by
    intro i k hik
    rcases eq_or_ne k j with rfl | hk
    · rw [choleskyColumn_above A L hik]
      exact h.lower i k hik
    · rw [choleskyColumn_of_ne A L i hk]
      exact h.lower i k hik
  have hdiag : ∀ i, 0 ≤ choleskyColumn A L j i i := by
    intro i
    rcases eq_or_ne i j with rfl | hi
    · rw [h.column, Real.div_sqrt]
      exact Real.sqrt_nonneg _
    · rw [choleskyColumn_of_ne A L i hi]
      exact h.diag_nonneg i
  have hnonneg : 0 ≤ W j ⬝ᵥ W j := Finset.sum_nonneg fun k _ => mul_self_nonneg (W j k)
  rcases hnonneg.eq_or_lt with hzero | hpos
  · exact ⟨W, h.skip (dotProduct_self_eq_zero.1 hzero.symm), hlower, hdiag⟩
  · refine ⟨_, h.toResidual.finish rfl hpos h.column ?_, hlower, hdiag⟩
    intro i k hk
    exact choleskyColumn_of_ne A L i hk

end Lower

/-! ### The whole decomposition -/

section Run

lemma exists_lower_cholesky (W : Matrix (Fin M) (Fin P) ℝ) :
    ∃ W' : Matrix (Fin M) (Fin P) ℝ, Lower (W * Wᵀ) M (cholesky (W * Wᵀ)) W' := by
  refine foldl_indices_induction (fun j L => ∃ W' : Matrix (Fin M) (Fin P) ℝ,
    Lower (W * Wᵀ) j L W') (Nat.zero_le M) le_rfl ?_ ?_
  · refine ⟨W, ⟨le_rfl, ?_, fun _ _ _ => rfl, fun i hi => absurd hi (Nat.not_lt_zero _)⟩,
      fun _ _ _ => rfl, fun _ => le_rfl⟩
    show (0 : Matrix (Fin M) (Fin M) ℝ) * 0ᵀ + W * Wᵀ = W * Wᵀ
    rw [Matrix.zero_mul, zero_add]
  · rintro j L _ _ ⟨W', h⟩
    exact h.step

variable {A : Matrix (Fin M) (Fin M) ℝ}

lemma exists_lower_of_posSemidef (hA : A.PosSemidef) :
    ∃ W : Matrix (Fin M) (Fin M) ℝ, Lower A M (cholesky A) W := by
  obtain ⟨W, rfl⟩ := exists_eq_mul_transpose hA
  exact exists_lower_cholesky W

lemma cholesky_mul_transpose (hA : A.PosSemidef) : cholesky A * (cholesky A)ᵀ = A := by
  obtain ⟨W, h⟩ := exists_lower_of_posSemidef hA
  have hW : W = 0 := by
    ext i j
    exact congrFun (h.W_zero i i.isLt) j
  have hgram := h.gram
  rwa [hW, Matrix.zero_mul, add_zero] at hgram

/-- The decomposition of a positive semidefinite matrix is lower triangular with non-negative
diagonal, and its Gram matrix is the matrix. -/
theorem cholesky_spec (hA : A.PosSemidef) :
    (∀ i j, i < j → cholesky A i j = 0) ∧ (∀ i, 0 ≤ cholesky A i i) ∧
      cholesky A * (cholesky A)ᵀ = A := by
  obtain ⟨W, h⟩ := exists_lower_of_posSemidef hA
  exact ⟨h.lower, h.diag_nonneg, cholesky_mul_transpose hA⟩

/-- A singular matrix of rank one. -/
theorem cholesky_spec_singular :
    cholesky (vecMulVec ![1, 2] (star ![1, 2])) *
      (cholesky (vecMulVec ![1, 2] (star ![1, 2])))ᵀ =
      vecMulVec (![1, 2] : Fin 2 → ℝ) (star ![1, 2]) :=
  (cholesky_spec (posSemidef_vecMulVec_self_star ![1, 2])).2.2

end Run

end RT1064.Mat
