import Mathlib.Algebra.Order.Star.Real
import RT1064.Core.MoorePenrose
import RT1064.Mat.Cmath
import RT1064.Mat.Inverse

/-!
# Pseudo-inverse

The pseudo-inverse of a matrix from the full-rank Cholesky factorisation of the Gram matrix of its
rows or of its columns, whichever is smaller.
-/

namespace RT1064.Mat

open Core Matrix

variable {K : Type*} {M N P : ℕ}

/-! ### The factorisation -/

/-- `SquareMatrix::diag`. -/
def diag (A : Matrix (Fin N) (Fin N) K) : Fin N → K := fun i => A i i

/-- `Matrix::max` of a column, which has at least one entry. -/
def vecMax [LinearOrder K] [NeZero N] (v : Fin N → K) : K :=
  (indices 0 N).foldl (fun max_val i => if max_val < v i then v i else max_val) (v 0)

section Model

variable [Field K] [LinearOrder K] [Cmath K]

/-- `typeEpsilon<float>`. -/
def typeEpsilon : K := FLT_EPSILON

/-- The tolerance of `fullRankCholesky`. -/
def tol [NeZero N] (A : Matrix (Fin N) (Fin N) K) : K := N * typeEpsilon * vecMax (diag A)

/-- The factor and the number of its columns that are finished. -/
structure Cholesky (K : Type*) (N : ℕ) where
  L : Matrix (Fin N) (Fin N) K
  r : ℕ

/-- The part of an entry of `A` that the finished columns account for. -/
def LL (L : Matrix (Fin N) (Fin N) K) (r : ℕ) (i k : Fin N) : K :=
  (indices 0 r).foldl (fun LL j => LL + L i j * L k j) 0

/-- Write what remains of the column `k` of `A` to the column `r` of the factor. -/
def residualColumn (A L : Matrix (Fin N) (Fin N) K) (k r : Fin N) : Matrix (Fin N) (Fin N) K :=
  if r.val = 0 then (indices k.val N).foldl (fun L i => setEntry L i r (A i k)) L
  else (indices k.val N).foldl (fun L i => setEntry L i r (A i k - LL L r.val i k)) L

/-- Divide the column `r` by the root of its pivot. -/
def scaleColumn (L : Matrix (Fin N) (Fin N) K) (k r : Fin N) : Matrix (Fin N) (Fin N) K :=
  let L := setEntry L k r (Cmath.sqrt (L k r))
  if k.val < N - 1 then
    (indices (k.val + 1) N).foldl (fun L i => setEntry L i r (L i r / L k r)) L
  else L

/-- One round of the loop of `fullRankCholesky`. -/
def choleskyStep [NeZero N] (A : Matrix (Fin N) (Fin N) K) (s : Cholesky K N) (k : Fin N) :
    Cholesky K N :=
  -- the accesses to the column `r` assert that there is one
  if h : s.r < N then
    let L := residualColumn A s.L k ⟨s.r, h⟩
    if tol A < L k ⟨s.r, h⟩ then { L := scaleColumn L k ⟨s.r, h⟩, r := s.r + 1 }
    else { L := L, r := s.r }
  else s

/-- The factor before the round `k`. -/
def choleskyAt [NeZero N] (A : Matrix (Fin N) (Fin N) K) (k : ℕ) : Cholesky K N :=
  (indices 0 k).foldl (choleskyStep A) { L := 0, r := 0 }

/-- `fullRankCholesky(A, rank)`: the factor and the rank. -/
def fullRankCholesky [NeZero N] (A : Matrix (Fin N) (Fin N) K) :
    Matrix (Fin N) (Fin N) K × ℕ :=
  ((choleskyAt A N).L, (choleskyAt A N).r)

/-- `inv` of a matrix of one entry, which ignores the rank. -/
def invOne (A inv : Matrix (Fin 1) (Fin 1) K) : Bool × Matrix (Fin 1) (Fin 1) K :=
  if |A 0 0| < FLT_EPSILON then (false, inv)
  else (true, setEntry inv 0 0 (1 / A 0 0))

/-- The overload of `inv(A, X, rank)` that the dimension selects. -/
def invRank : {N : ℕ} → (A X : Matrix (Fin N) (Fin N) K) → ℕ → Bool × Matrix (Fin N) (Fin N) K
  | 1, A, X, _ => invOne A X
  | _, A, X, rank => inv A X rank

/-- `geninv(G, res)`: whether it succeeded, and the matrix `res` afterwards. -/
def geninv [NeZero M] [NeZero N] (G : Matrix (Fin M) (Fin N) K) :
    Bool × Matrix (Fin N) (Fin M) K :=
  if M ≤ N then
    let A := mul G Gᵀ
    let (L, rank) := fullRankCholesky A
    match invRank (mul Lᵀ L) 0 rank with
    | (false, _) => (false, 0)
    | (true, X) =>
      let A := mul (mul X X) Lᵀ
      (true, mul Gᵀ (mul L A))
  else
    let A := mul Gᵀ G
    let (L, rank) := fullRankCholesky A
    match invRank (mul Lᵀ L) 0 rank with
    | (false, _) => (false, 0)
    | (true, X) =>
      let A := mul (mul X X) Lᵀ
      (true, mul (mul L A) Gᵀ)

/-- The value that `fullRankCholesky` compares to the tolerance in the round `k`. -/
def pivotResidual [NeZero N] (A : Matrix (Fin N) (Fin N) K) (k : Fin N) : K :=
  if h : (choleskyAt A k.val).r < N then
    residualColumn A (choleskyAt A k.val).L k ⟨_, h⟩ k ⟨_, h⟩
  else 0

/-- Every pivot residual is either zero or greater than the tolerance. -/
def PivotsClear [NeZero N] (A : Matrix (Fin N) (Fin N) K) : Prop :=
  ∀ k, pivotResidual A k = 0 ∨ tol A < pivotResidual A k

/-- The pivots of the factorisation in `geninv` are clear. -/
def GeninvClear [NeZero M] [NeZero N] (G : Matrix (Fin M) (Fin N) K) : Prop :=
  if M ≤ N then PivotsClear (G * Gᵀ) else PivotsClear (Gᵀ * G)

end Model

/-! ### What the factorisation writes -/

section Entries

variable [Field K]

lemma LL_zero (L : Matrix (Fin N) (Fin N) K) (i k : Fin N) : LL L 0 i k = 0 := rfl

/-- `LL` only reads the finished columns. -/
lemma LL_congr {L L' : Matrix (Fin N) (Fin N) K} {r : ℕ} {i k : Fin N}
    (h : ∀ i j, j.val < r → L i j = L' i j) : LL L r i k = LL L' r i k := by
  simp only [LL, foldl_add_eq_sum, sum_map_indices]
  congr 1
  refine Finset.sum_congr rfl fun j hj => ?_
  have hjr : j.val < r := (Finset.mem_filter.1 hj).2.2
  rw [h i j hjr, h k j hjr]

lemma LL_setEntry (L : Matrix (Fin N) (Fin N) K) (i' : Fin N) (r : Fin N) (v : K) (i k : Fin N) :
    LL (setEntry L i' r v) r.val i k = LL L r.val i k :=
  LL_congr fun i _ hj => setEntry_of_col_ne L i' i (Fin.ne_of_lt hj) v

/-- The first column is written by the same formula as the others. -/
lemma residualColumn_eq (A L : Matrix (Fin N) (Fin N) K) (k r : Fin N) :
    residualColumn A L k r =
      (indices k.val N).foldl (fun L i => setEntry L i r (A i k - LL L r.val i k)) L := by
  rw [residualColumn]
  split_ifs with hr
  · simp only [hr, LL_zero, sub_zero]
  · rfl

lemma residualColumn_of_ne (A L : Matrix (Fin N) (Fin N) K) (k r i : Fin N) {j : Fin N}
    (hj : j ≠ r) : residualColumn A L k r i j = L i j := by
  rw [residualColumn_eq]
  apply foldl_frame (entry i j)
  intro L i' _
  exact setEntry_of_col_ne L i' i hj _

lemma residualColumn_above (A L : Matrix (Fin N) (Fin N) K) {k i : Fin N} (r : Fin N)
    (hi : i < k) : residualColumn A L k r i r = L i r := by
  rw [residualColumn_eq]
  apply foldl_frame (entry i r)
  intro L i' hi'
  exact setEntry_of_row_ne L (Fin.ne_of_lt (lt_of_lt_of_le hi (mem_indices.1 hi').1)) r r _

lemma residualColumn_below (A L : Matrix (Fin N) (Fin N) K) {k i : Fin N} (r : Fin N)
    (hi : k ≤ i) : residualColumn A L k r i r = A i k - LL L r.val i k := by
  rw [residualColumn_eq]
  refine foldl_once (entry i r) (fun L => LL L r.val i k) (v := fun x => A i k - x)
    (nodup_indices _ _) (mem_indices.2 ⟨hi, i.isLt⟩) ?_ ?_ ?_ L
  · intro L i' _ hi'
    exact setEntry_of_row_ne L hi'.symm r r _
  · intro L i' _ _
    exact LL_setEntry L i' r _ i k
  · intro L
    exact setEntry_self L i r _

variable [Cmath K]

/-- The test for the last row only skips an empty loop. -/
lemma scaleColumn_eq (L : Matrix (Fin N) (Fin N) K) (k r : Fin N) :
    scaleColumn L k r = (indices (k.val + 1) N).foldl (fun L i => setEntry L i r (L i r / L k r))
      (setEntry L k r (Cmath.sqrt (L k r))) := by
  rw [scaleColumn]
  split_ifs with hk
  · rfl
  · have hlast : N ≤ k.val + 1 := Nat.le_add_of_sub_le (not_lt.1 hk)
    rw [indices_of_le hlast]
    rfl

lemma scaleColumn_of_ne (L : Matrix (Fin N) (Fin N) K) (k r i : Fin N) {j : Fin N} (hj : j ≠ r) :
    scaleColumn L k r i j = L i j := by
  rw [scaleColumn_eq]
  refine (foldl_frame (entry i j) ?_ _).trans (setEntry_of_col_ne L k i hj _)
  intro L i' _
  exact setEntry_of_col_ne L i' i hj _

lemma scaleColumn_le (L : Matrix (Fin N) (Fin N) K) {k i : Fin N} (r : Fin N) (hi : i ≤ k) :
    scaleColumn L k r i r = setEntry L k r (Cmath.sqrt (L k r)) i r := by
  rw [scaleColumn_eq]
  apply foldl_frame (entry i r)
  intro L i' hi'
  exact setEntry_of_row_ne L (Fin.ne_of_lt (lt_of_le_of_lt hi (mem_indices.1 hi').1)) r r _

lemma scaleColumn_pivot (L : Matrix (Fin N) (Fin N) K) (k r : Fin N) :
    scaleColumn L k r k r = Cmath.sqrt (L k r) := by
  rw [scaleColumn_le L r le_rfl, setEntry_self]

lemma scaleColumn_above (L : Matrix (Fin N) (Fin N) K) {k i : Fin N} (r : Fin N) (hi : i < k) :
    scaleColumn L k r i r = L i r := by
  rw [scaleColumn_le L r hi.le, setEntry_of_row_ne L hi.ne]

lemma scaleColumn_below (L : Matrix (Fin N) (Fin N) K) {k i : Fin N} (r : Fin N) (hi : k < i) :
    scaleColumn L k r i r = L i r / Cmath.sqrt (L k r) := by
  rw [scaleColumn_eq]
  refine (foldl_once (entry i r) (fun L : Matrix (Fin N) (Fin N) K => (L i r, L k r))
    (v := fun p => p.1 / p.2) (nodup_indices _ _) (mem_indices.2 ⟨hi, i.isLt⟩) ?_ ?_ ?_ _).trans ?_
  · intro L i' _ hi'
    exact setEntry_of_row_ne L hi'.symm r r _
  · intro L i' hi' hne
    have hk : k < i' := (mem_indices.1 hi').1
    rw [setEntry_of_row_ne L hne.symm, setEntry_of_row_ne L hk.ne]
  · intro L
    exact setEntry_self L i r _
  · rw [setEntry_of_row_ne L hi.ne', setEntry_self]

end Entries

/-! ### What is left of the Gram matrix -/

/-- Before the round `k` the rows `W` are what is left to factor. -/
structure Residual (A : Matrix (Fin N) (Fin N) ℝ) (k : ℕ) (s : Cholesky ℝ N)
    (W : Matrix (Fin N) (Fin P) ℝ) : Prop where
  r_le : s.r ≤ k
  gram : s.L * s.Lᵀ + W * Wᵀ = A
  L_zero : ∀ i j : Fin N, s.r ≤ j.val → s.L i j = 0
  W_zero : ∀ i : Fin N, i.val < k → W i = 0

/-- The Gram matrix of rows that get one more column. -/
lemma mul_transpose_of_col {L L' : Matrix (Fin N) (Fin N) ℝ} {r : Fin N} {c : Fin N → ℝ}
    (hr : ∀ i, L i r = 0) (hcol : ∀ i, L' i r = c i) (hne : ∀ i j, j ≠ r → L' i j = L i j)
    (i i' : Fin N) : (L' * L'ᵀ) i i' = (L * Lᵀ) i i' + c i * c i' := by
  have hmem := Finset.mem_univ r
  simp only [mul_apply, transpose_apply]
  rw [← Finset.add_sum_erase _ _ hmem, ← Finset.add_sum_erase _ _ hmem, hcol, hcol, hr, hr,
    zero_mul, zero_add, add_comm]
  congr 1
  refine Finset.sum_congr rfl fun j hj => ?_
  rw [hne i j (Finset.ne_of_mem_erase hj), hne i' j (Finset.ne_of_mem_erase hj)]

section Residual

variable {A : Matrix (Fin N) (Fin N) ℝ} {k r : Fin N} {s : Cholesky ℝ N}
  {W : Matrix (Fin N) (Fin P) ℝ}

/-- What the finished columns leave of an entry of `A`. -/
lemma Residual.sub_LL (h : Residual A k.val s W) (i : Fin N) :
    A i k - LL s.L s.r i k = W i ⬝ᵥ W k := by
  have hLL : LL s.L s.r i k = (s.L * s.Lᵀ) i k := by
    rw [LL, foldl_add_eq_sum, sum_map_indices, zero_add, mul_apply]
    refine Finset.sum_subset (Finset.subset_univ _) fun j _ hj => ?_
    have hjr : s.r ≤ j.val := not_lt.1 fun hlt => hj (by simpa using hlt)
    rw [h.L_zero i j hjr, zero_mul]
  rw [hLL, ← h.gram]
  exact add_sub_cancel_left _ _

/-- The column that the round `k` writes first. -/
lemma Residual.column_residual (h : Residual A k.val s W) (hr : s.r = r.val) (i : Fin N) :
    residualColumn A s.L k r i r = W i ⬝ᵥ W k := by
  rcases lt_or_ge i k with hi | hi
  · rw [residualColumn_above A s.L r hi, h.L_zero i r hr.le, h.W_zero i hi, zero_dotProduct]
  · rw [residualColumn_below A s.L r hi, ← hr, h.sub_LL]

/-- A round with a zero pivot has nothing left to factor in its row. -/
lemma Residual.skip (h : Residual A k.val s W) (hr : s.r = r.val) (hzero : W k ⬝ᵥ W k = 0) :
    Residual A (k.val + 1) { L := residualColumn A s.L k r, r := s.r } W := by
  have hW : W k = 0 := dotProduct_self_eq_zero.1 hzero
  have hL : residualColumn A s.L k r = s.L := by
    ext i j
    rcases eq_or_ne j r with rfl | hj
    · rw [h.column_residual hr, hW, dotProduct_zero, h.L_zero i j hr.le]
    · exact residualColumn_of_ne A s.L k r i hj
  rw [hL]
  refine ⟨h.r_le.trans (Nat.le_succ _), h.gram, h.L_zero, ?_⟩
  intro i hi
  rcases Nat.lt_succ_iff_lt_or_eq.1 hi with hlt | heq
  · exact h.W_zero i hlt
  · obtain rfl : i = k := Fin.ext heq
    exact hW

/-- The column that a round with a positive pivot leaves. -/
lemma Residual.column_scaled (h : Residual A k.val s W) (hr : s.r = r.val) (i : Fin N) :
    scaleColumn (residualColumn A s.L k r) k r i r = (W i ⬝ᵥ W k) / √(W k ⬝ᵥ W k) := by
  rcases lt_trichotomy i k with hi | rfl | hi
  · rw [scaleColumn_above _ r hi, h.column_residual hr, h.W_zero i hi, zero_dotProduct, zero_div]
  · rw [scaleColumn_pivot, sqrt_real, h.column_residual hr, Real.div_sqrt]
  · rw [scaleColumn_below _ r hi, sqrt_real, h.column_residual hr, h.column_residual hr]

/-- A new column of the products with the row `k` makes the rows that are left orthogonal to it. -/
lemma Residual.finish (h : Residual A k.val s W) (hr : s.r = r.val)
    (hpos : 0 < W k ⬝ᵥ W k) {L : Matrix (Fin N) (Fin N) ℝ}
    (hcol : ∀ i, L i r = (W i ⬝ᵥ W k) / √(W k ⬝ᵥ W k)) (hne : ∀ i j, j ≠ r → L i j = s.L i j) :
    Residual A (k.val + 1) { L := L, r := s.r + 1 } (orthogonalize W k) := by
  refine ⟨Nat.succ_le_succ h.r_le, ?_, ?_, ?_⟩
  · ext i j
    have hgram : (s.L * s.Lᵀ) i j + W i ⬝ᵥ W j = A i j := by
      rw [← h.gram]
      rfl
    have hsqrt : √(W k ⬝ᵥ W k) * √(W k ⬝ᵥ W k) = W k ⬝ᵥ W k := Real.mul_self_sqrt hpos.le
    have hrows : (orthogonalize W k * (orthogonalize W k)ᵀ) i j =
        W i ⬝ᵥ W j - (W i ⬝ᵥ W k) * (W j ⬝ᵥ W k) / (W k ⬝ᵥ W k) :=
      orthogonalize_dotProduct W hpos.ne' i j
    have hcolumns := mul_transpose_of_col (fun i => h.L_zero i r hr.le) hcol hne
    rw [Matrix.add_apply, hcolumns, hrows, ← hgram, div_mul_div_comm, hsqrt]
    ring
  · intro i j hj
    have hjr : j ≠ r := by
      intro heq
      rw [heq, ← hr] at hj
      exact absurd hj (Nat.not_succ_le_self _)
    exact (hne i j hjr).trans (h.L_zero i j ((Nat.le_succ _).trans hj))
  · intro i hi
    rcases Nat.lt_succ_iff_lt_or_eq.1 hi with hlt | heq
    · exact orthogonalize_of_zero W k (h.W_zero i hlt)
    · obtain rfl : i = k := Fin.ext heq
      exact orthogonalize_self W hpos.ne'

/-- A round with a positive pivot finishes a column. -/
lemma Residual.accept (h : Residual A k.val s W) (hr : s.r = r.val) (hpos : 0 < W k ⬝ᵥ W k) :
    Residual A (k.val + 1) { L := scaleColumn (residualColumn A s.L k r) k r, r := s.r + 1 }
      (orthogonalize W k) := by
  refine h.finish hr hpos (h.column_scaled hr) ?_
  intro i j hj
  rw [scaleColumn_of_ne _ k r i hj, residualColumn_of_ne A s.L k r i hj]

end Residual

/-! ### The whole factorisation -/

lemma le_vecMax [NeZero N] (v : Fin N → ℝ) : v 0 ≤ vecMax v := by
  refine foldl_indices_induction (fun _ max_val => v 0 ≤ max_val) (Nat.zero_le N) le_rfl le_rfl ?_
  intro i max_val _ _ h
  split_ifs with hlt
  · exact h.trans hlt.le
  · exact h

section Run

variable [NeZero N] {A : Matrix (Fin N) (Fin N) ℝ}

lemma tol_nonneg (h : 0 ≤ A 0 0) : 0 ≤ tol A := by
  have hmax : 0 ≤ vecMax (diag A) := h.trans (le_vecMax (diag A))
  have hepsilon : (0 : ℝ) ≤ typeEpsilon := FLT_EPSILON_pos.le
  exact mul_nonneg (mul_nonneg N.cast_nonneg hepsilon) hmax

lemma tol_mul_transpose_nonneg (W : Matrix (Fin N) (Fin P) ℝ) : 0 ≤ tol (W * Wᵀ) := by
  apply tol_nonneg
  rw [mul_apply]
  exact Finset.sum_nonneg fun j _ => mul_self_nonneg (W 0 j)

lemma choleskyAt_succ (k : Fin N) :
    choleskyAt A (k.val + 1) = choleskyStep A (choleskyAt A k.val) k := by
  rw [choleskyAt, indices_succ k (Nat.zero_le _), List.foldl_concat]
  rfl

/-- One round keeps what is known, if its pivot is clear; the rank of the rows that are left drops
with each column that is finished. -/
lemma Residual.step {k : Fin N} {W : Matrix (Fin N) (Fin P) ℝ} (htol : 0 ≤ tol A)
    (h : Residual A k.val (choleskyAt A k.val) W)
    (hclear : pivotResidual A k = 0 ∨ tol A < pivotResidual A k) :
    ∃ W' : Matrix (Fin N) (Fin P) ℝ, Residual A (k.val + 1) (choleskyAt A (k.val + 1)) W' ∧
      (choleskyAt A (k.val + 1)).r + W'.rank = (choleskyAt A k.val).r + W.rank := by
  have hr : (choleskyAt A k.val).r < N := lt_of_le_of_lt h.r_le k.isLt
  have hpivot : residualColumn A (choleskyAt A k.val).L k ⟨_, hr⟩ k ⟨_, hr⟩ = W k ⬝ᵥ W k :=
    h.column_residual rfl k
  rw [pivotResidual, dif_pos hr, hpivot] at hclear
  rw [choleskyAt_succ, choleskyStep, dif_pos hr]
  simp only [hpivot]
  split_ifs with hlt
  · have hpos : 0 < W k ⬝ᵥ W k := lt_of_le_of_lt htol hlt
    refine ⟨_, h.accept rfl hpos, ?_⟩
    rw [← rank_orthogonalize W hpos.ne', add_assoc, add_comm 1]
  · exact ⟨W, h.skip rfl (hclear.resolve_right hlt), rfl⟩

/-- The rows that are left are known before every round. -/
lemma residual_choleskyAt (W : Matrix (Fin N) (Fin P) ℝ) (hclear : PivotsClear (W * Wᵀ)) {k : ℕ}
    (hk : k ≤ N) :
    ∃ W' : Matrix (Fin N) (Fin P) ℝ, Residual (W * Wᵀ) k (choleskyAt (W * Wᵀ) k) W' ∧
      (choleskyAt (W * Wᵀ) k).r + W'.rank = W.rank := by
  induction k with
  | zero =>
    refine ⟨W, ⟨le_rfl, ?_, fun _ _ _ => rfl, fun i hi => absurd hi (Nat.not_lt_zero _)⟩,
      zero_add _⟩
    show (0 : Matrix (Fin N) (Fin N) ℝ) * 0ᵀ + W * Wᵀ = W * Wᵀ
    rw [Matrix.zero_mul, zero_add]
  | succ k ih =>
    obtain ⟨W', h, hrank⟩ := ih (Nat.le_of_succ_le hk)
    obtain ⟨W'', h', hrank'⟩ :=
      Residual.step (k := ⟨k, hk⟩) (tol_mul_transpose_nonneg W) h (hclear ⟨k, hk⟩)
    exact ⟨W'', h', hrank'.trans hrank⟩

/-- The factor that `fullRankCholesky` returns has the Gram matrix it was given, and its columns
from the rank on are zero. -/
theorem fullRankCholesky_spec (W : Matrix (Fin N) (Fin P) ℝ) (hclear : PivotsClear (W * Wᵀ)) :
    (fullRankCholesky (W * Wᵀ)).2 ≤ N ∧
      (fullRankCholesky (W * Wᵀ)).1 * (fullRankCholesky (W * Wᵀ)).1ᵀ = W * Wᵀ ∧
      ∀ i j : Fin N, (fullRankCholesky (W * Wᵀ)).2 ≤ j.val →
        (fullRankCholesky (W * Wᵀ)).1 i j = 0 := by
  obtain ⟨W', h, _⟩ := residual_choleskyAt W hclear le_rfl
  have hW' : W' = 0 := by
    ext i j
    exact congrFun (h.W_zero i i.isLt) j
  have hgram := h.gram
  rw [hW', Matrix.zero_mul, add_zero] at hgram
  exact ⟨h.r_le, hgram, h.L_zero⟩

end Run

/-! ### The inverse of the factor's Gram matrix -/

/-- The projection on the first `rank` coordinates. -/
def firsts (N rank : ℕ) : Matrix (Fin N) (Fin N) ℝ :=
  Matrix.diagonal fun i => if i.val < rank then 1 else 0

section Gram

variable {L X : Matrix (Fin N) (Fin N) ℝ} {rank : ℕ}

/-- The Gram matrix of the columns of `L` vanishes outside the leading block. -/
lemma gram_outside (hL : ∀ i j : Fin N, rank ≤ j.val → L i j = 0) {i j : Fin N}
    (hout : ¬ (i.val < rank ∧ j.val < rank)) : (Lᵀ * L) i j = 0 := by
  rw [mul_apply]
  refine Finset.sum_eq_zero fun k _ => ?_
  rcases not_and_or.1 hout with hi | hj
  · rw [transpose_apply, hL k i (not_lt.1 hi), zero_mul]
  · rw [hL k j (not_lt.1 hj), mul_zero]

/-- A symmetric matrix and its inverse. -/
lemma transpose_eq_of_mul_eq_one {n : Type*} [Fintype n] [DecidableEq n] {B Y : Matrix n n ℝ}
    (hB : Bᵀ = B) (h : B * Y = 1) : Yᵀ = Y := by
  have hleft : Yᵀ * B = 1 := by rw [← hB, ← transpose_mul, h, transpose_one]
  exact left_inv_eq_right_inv hleft h

/-- The result of `inv` on the Gram matrix of the columns of `L`. -/
structure IsPaddedInverse (hr : rank ≤ N) (L X : Matrix (Fin N) (Fin N) ℝ) : Prop where
  L_zero : ∀ i j : Fin N, rank ≤ j.val → L i j = 0
  lead_mul : lead hr (Lᵀ * L) * lead hr X = 1
  outside : ∀ i j : Fin N, ¬ (i.val < rank ∧ j.val < rank) →
    X i j = (1 : Matrix (Fin N) (Fin N) ℝ) i j

variable {hr : rank ≤ N}

lemma IsPaddedInverse.symm (h : IsPaddedInverse hr L X) : Xᵀ = X := by
  have hblock : (lead hr X)ᵀ = lead hr X := by
    refine transpose_eq_of_mul_eq_one ?_ h.lead_mul
    rw [lead, transpose_submatrix, transpose_mul, transpose_transpose]
  ext i j
  rw [transpose_apply]
  by_cases hin : i.val < rank ∧ j.val < rank
  · exact congrFun (congrFun hblock ⟨i.val, hin.1⟩) ⟨j.val, hin.2⟩
  · rw [h.outside i j hin, h.outside j i fun hin' => hin hin'.symm, one_apply, one_apply]
    simp only [eq_comm]

/-- The product is the projection on the first `rank` coordinates. -/
lemma IsPaddedInverse.gram_mul (h : IsPaddedInverse hr L X) : Lᵀ * L * X = firsts N rank := by
  ext i j
  rw [firsts, diagonal_apply, mul_apply]
  have hsum : ∑ k, (Lᵀ * L) i k * X k j = ∑ k with k.val < rank, (Lᵀ * L) i k * X k j := by
    refine (Finset.sum_subset (Finset.subset_univ _) fun k _ hk => ?_).symm
    have hk' : ¬ k.val < rank := fun hlt => hk (by simpa using hlt)
    rw [gram_outside h.L_zero fun hin => hk' hin.2, zero_mul]
  by_cases hi : i.val < rank
  · rw [hsum, if_pos hi]
    by_cases hj : j.val < rank
    · have hentry := congrFun (congrFun h.lead_mul ⟨i.val, hi⟩) ⟨j.val, hj⟩
      rw [mul_apply, one_apply] at hentry
      refine ((sum_castLE hr fun k => (Lᵀ * L) i k * X k j).symm.trans hentry).trans ?_
      simp only [Fin.ext_iff]
    · have hij : i ≠ j := fun heq => hj (heq ▸ hi)
      rw [if_neg hij]
      refine Finset.sum_eq_zero fun k hk => ?_
      have hkj : k ≠ j := fun heq => hj (heq ▸ (Finset.mem_filter.1 hk).2)
      rw [h.outside k j fun hin => hj hin.2, one_apply_ne hkj, mul_zero]
  · rw [if_neg hi, ite_self]
    refine Finset.sum_eq_zero fun k _ => ?_
    rw [gram_outside h.L_zero fun hin => hi hin.1, zero_mul]

lemma IsPaddedInverse.isGramInverse (h : IsPaddedInverse hr L X) : IsGramInverse L X where
  symm := h.symm
  comm := by
    calc X * (Lᵀ * L) = (Lᵀ * L * X)ᵀ := by
          simp only [transpose_mul, transpose_transpose, h.symm]
      _ = Lᵀ * L * X := by rw [h.gram_mul, firsts, diagonal_transpose]
  absorb := by
    ext i j
    rw [h.gram_mul, firsts, mul_diagonal]
    split_ifs with hj
    · exact mul_one _
    · rw [mul_zero, h.L_zero i j (not_lt.1 hj)]

end Gram

/-! ### The overloads of the inverse -/

lemma invRank_of_ne {A X : Matrix (Fin N) (Fin N) ℝ} {rank : ℕ} (h : N ≠ 1) :
    invRank A X rank = inv A X rank := by
  rw [invRank]
  intro _ _ hone
  exact absurd hone h

lemma mul_invOne {A X : Matrix (Fin 1) (Fin 1) ℝ} (h : (invOne A X).1 = true) :
    A * (invOne A X).2 = 1 := by
  rw [invOne] at h ⊢
  split_ifs at h ⊢ with hzero
  have hne : A 0 0 ≠ 0 := by
    intro heq
    rw [heq, abs_zero] at hzero
    exact hzero FLT_EPSILON_pos
  ext i j
  obtain rfl : i = 0 := Subsingleton.elim _ _
  obtain rfl : j = 0 := Subsingleton.elim _ _
  rw [mul_apply, Fin.sum_univ_one, one_apply_eq]
  show A 0 0 * setEntry X 0 0 (1 / A 0 0) 0 0 = 1
  rw [setEntry_self, mul_one_div_cancel hne]

/-- The overload that `geninv` calls inverts the Gram matrix of the columns of `L`. -/
lemma isGramInverse_invRank {L X : Matrix (Fin N) (Fin N) ℝ} {rank : ℕ} (hr : rank ≤ N)
    (hL : ∀ i j : Fin N, rank ≤ j.val → L i j = 0)
    (h : (invRank (Lᵀ * L) X rank).1 = true) : IsGramInverse L (invRank (Lᵀ * L) X rank).2 := by
  rcases eq_or_ne N 1 with rfl | hN
  · have hmul := mul_invOne h
    refine ⟨?_, (mul_eq_one_comm.1 hmul).trans hmul.symm, ?_⟩
    · ext i j
      exact congrArg₂ _ (Subsingleton.elim _ _) (Subsingleton.elim _ _)
    · exact (congrArg (L * ·) hmul).trans (Matrix.mul_one L)
  · rw [invRank_of_ne hN] at h ⊢
    have hpadded : IsPaddedInverse hr L (inv (Lᵀ * L) X rank).2 :=
      ⟨hL, lead_mul_lead_inv hr h, fun i j hout => inv_outside hr h hout⟩
    exact hpadded.isGramInverse

/-! ### The pseudo-inverse -/

section Geninv

variable [NeZero M] [NeZero N]

/-- What the factor and the inverse are in both branches of `geninv`. -/
lemma isGramInverse_fullRankCholesky (W : Matrix (Fin N) (Fin P) ℝ)
    (hclear : PivotsClear (W * Wᵀ)) {L X : Matrix (Fin N) (Fin N) ℝ} {rank : ℕ}
    (hL : fullRankCholesky (W * Wᵀ) = (L, rank))
    (hX : invRank (Lᵀ * L) 0 rank = (true, X)) : L * Lᵀ = W * Wᵀ ∧ IsGramInverse L X := by
  obtain ⟨hr, hgram, hzero⟩ := fullRankCholesky_spec W hclear
  rw [hL] at hr hgram hzero
  have hinverse : IsGramInverse L (invRank (Lᵀ * L) 0 rank).2 :=
    isGramInverse_invRank hr hzero (congrArg Prod.fst hX)
  rw [hX] at hinverse
  exact ⟨hgram, hinverse⟩

/-- If `geninv` succeeds, its result is the Moore-Penrose inverse. -/
theorem geninv_correct (G : Matrix (Fin M) (Fin N) ℝ) (hclear : GeninvClear G)
    (h : (geninv G).1 = true) : IsMoorePenrose G (geninv G).2 := by
  rw [GeninvClear] at hclear
  rw [geninv] at h ⊢
  simp only [mul_eq] at h ⊢
  split_ifs at hclear h ⊢ with hMN
  · rcases hL : fullRankCholesky (G * Gᵀ) with ⟨L, rank⟩
    simp only [hL] at h ⊢
    rcases hX : invRank (Lᵀ * L) 0 rank with ⟨ok, X⟩
    simp only [hX] at h ⊢
    cases ok with
    | false => exact absurd h Bool.false_ne_true
    | true =>
      obtain ⟨hgram, hinverse⟩ := isGramInverse_fullRankCholesky G hclear hL hX
      exact hinverse.isMoorePenrose hgram
  · rcases hL : fullRankCholesky (Gᵀ * G) with ⟨L, rank⟩
    simp only [hL] at h ⊢
    rcases hX : invRank (Lᵀ * L) 0 rank with ⟨ok, X⟩
    simp only [hX] at h ⊢
    cases ok with
    | false => exact absurd h Bool.false_ne_true
    | true =>
      obtain ⟨hgram, hinverse⟩ := isGramInverse_fullRankCholesky Gᵀ hclear hL hX
      exact hinverse.isMoorePenrose_of_columns hgram

end Geninv

/-- A matrix of rank one whose first row gives no pivot. -/
def skipped : Matrix (Fin 2) (Fin 3) ℝ := !![0, 0, 0; 0, 2, 0]

/-- The Gram matrix of the rows of `skipped`. -/
def skippedGram : Matrix (Fin 2) (Fin 2) ℝ := !![0, 0; 0, 4]

lemma skipped_mul_transpose : skipped * skippedᵀ = skippedGram := by
  ext i j
  fin_cases i <;> fin_cases j <;> simp [skipped, skippedGram, mul_apply, Fin.sum_univ_three]
  norm_num

lemma tol_skipped : tol skippedGram = 1 / 1048576 := by
  have hindices : (indices 0 2 : List (Fin 2)) = [0, 1] := rfl
  norm_num [tol, vecMax, diag, skippedGram, hindices, typeEpsilon, FLT_EPSILON]

/-- The first round writes a column of zeros. -/
lemma choleskyAt_skipped : choleskyAt skippedGram 1 = { L := 0, r := 0 } := by
  have hone : (indices 0 1 : List (Fin 2)) = [0] := rfl
  have htwo : (indices 0 2 : List (Fin 2)) = [0, 1] := rfl
  have hcolumn : residualColumn skippedGram 0 0 0 = 0 := by
    ext i j
    fin_cases i <;> fin_cases j <;> simp [residualColumn, setEntry, skippedGram, htwo]
  simp [choleskyAt, hone, choleskyStep, hcolumn, tol_skipped]

lemma residualColumn_skipped : residualColumn skippedGram 0 1 0 = !![0, 0; 4, 0] := by
  have htwo : (indices 1 2 : List (Fin 2)) = [1] := rfl
  ext i j
  fin_cases i <;> fin_cases j <;> simp [residualColumn, setEntry, skippedGram, htwo]

/-- The second round finds the rank. -/
lemma fullRankCholesky_skipped : fullRankCholesky skippedGram = (!![0, 0; 2, 0], 1) := by
  have hsqrt : √(4 : ℝ) = 2 := by
    rw [Real.sqrt_eq_iff_mul_self_eq] <;> norm_num
  have hscaled : scaleColumn (!![0, 0; 4, 0] : Matrix (Fin 2) (Fin 2) ℝ) 1 0 = !![0, 0; 2, 0] := by
    ext i j
    fin_cases i <;> fin_cases j <;> simp [scaleColumn, setEntry, hsqrt]
  have hrun : choleskyAt skippedGram 2 = { L := !![0, 0; 2, 0], r := 1 } := by
    refine (choleskyAt_succ (1 : Fin 2)).trans ?_
    show choleskyStep _ (choleskyAt _ 1) 1 = _
    rw [choleskyAt_skipped]
    norm_num [choleskyStep, residualColumn_skipped, hscaled, tol_skipped]
  rw [fullRankCholesky, hrun]

lemma geninvClear_skipped : GeninvClear skipped := by
  have hfirst : residualColumn skippedGram 0 0 0 0 0 = 0 := by
    rw [residualColumn_below _ _ 0 le_rfl]
    exact sub_zero _
  have hsecond : pivotResidual skippedGram 1 = 4 := by
    show (if h : (choleskyAt skippedGram 1).r < 2 then _ else _) = _
    simp [choleskyAt_skipped, residualColumn_skipped]
  rw [GeninvClear, if_pos (by decide), skipped_mul_transpose]
  intro k
  fin_cases k
  · exact .inl hfirst
  · right
    show tol _ < pivotResidual _ 1
    rw [tol_skipped, hsecond]
    norm_num

lemma pivotsClear_skipped : PivotsClear (skipped * skippedᵀ) := by
  have hgeninv := geninvClear_skipped
  rwa [GeninvClear, if_pos (by decide)] at hgeninv

/-- `geninv` inverts `skipped`. -/
theorem geninv_correct_skipped :
    (geninv skipped).1 = true ∧ IsMoorePenrose skipped (geninv skipped).2 := by
  have hgram : (!![0, 0; 2, 0] : Matrix (Fin 2) (Fin 2) ℝ)ᵀ * !![0, 0; 2, 0] = !![4, 0; 0, 0] := by
    ext i j
    fin_cases i <;> fin_cases j <;> simp [mul_apply]
    norm_num
  have hinverse : (invRank (!![4, 0; 0, 0] : Matrix (Fin 2) (Fin 2) ℝ) 0 1).1 = true := by
    have hle : (FLT_EPSILON : ℝ) ≤ 4 := by norm_num [FLT_EPSILON]
    have hfactor : factor (!![4, 0; 0, 0] : Matrix (Fin 2) (Fin 2) ℝ) 1 =
        some { L := 1, U := !![4, 0; 0, 0], P := 1 } := by
      have hone : (indices 0 1 : List (Fin 2)) = [0] := rfl
      simp [factor, hone, factorStep, pivot, hle, eliminateBelow, indices_of_le]
    rw [invRank_of_ne (by decide), inv_of_factor_eq_some hfactor]
  have hsucceeds : (geninv skipped).1 = true := by
    rw [geninv, if_pos (by decide)]
    simp only [mul_eq, skipped_mul_transpose, fullRankCholesky_skipped, hgram]
    rcases hX : invRank (!![4, 0; 0, 0] : Matrix (Fin 2) (Fin 2) ℝ) 0 1 with ⟨ok, X⟩
    rw [hX] at hinverse
    obtain rfl : ok = true := hinverse
    rfl
  exact ⟨hsucceeds, geninv_correct skipped geninvClear_skipped hsucceeds⟩

end RT1064.Mat
