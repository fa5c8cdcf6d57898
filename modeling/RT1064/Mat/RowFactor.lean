import RT1064.Core.GramSchmidt
import RT1064.Mat.PseudoInverse

/-!
# The factor of the Gram matrix of some rows

`fullRankCholesky` of a Gram matrix does Gram–Schmidt on the rows, whatever its pivots are: a
finished column has the coordinates of the rows along a row that is kept.
-/

namespace RT1064.Mat

open Core Matrix

variable {N P : ℕ}

section Coordinates

variable (t : ℝ) (W : Matrix (Fin N) (Fin P) ℝ)

/-- What the rounds before `k` left at the row `i` of the column that is written next: a row that
was skipped after the last one that was kept has the square of what is left of it there. -/
noncomputable def skippedSquare (k : ℕ) (i : Fin N) : ℝ :=
  if ∀ j, i ≤ j → j.val < k → ¬ Kept t W j then leftSquare t W i else 0

/-- The coordinates of the rows along what is left of the row `k`. -/
noncomputable def coordinates (k i : Fin N) : ℝ :=
  if k ≤ i then (leftover t W k i ⬝ᵥ leftover t W k k) / √(leftSquare t W k)
  else skippedSquare t W k i

/-- The Gram matrix of the coordinates along the rows that are kept. -/
noncomputable def keptGram :
    Matrix (Fin (keptRows t W N).length) (Fin (keptRows t W N).length) ℝ :=
  fun c d => coordinates t W ((keptRows t W N).get c) ⬝ᵥ coordinates t W ((keptRows t W N).get d)

/-- Before the round `k` the finished columns are those of the rows that were kept. -/
structure Orthogonalized (k : ℕ) (s : Cholesky ℝ N) : Prop where
  r_eq : s.r = (keptRows t W k).length
  left : ∀ i j : Fin N, k ≤ i.val → k ≤ j.val →
    (W * Wᵀ) i j - LL s.L s.r i j = leftover t W k i ⬝ᵥ leftover t W k j
  finished : ∀ c j : Fin N, (keptRows t W k)[c.val]? = some j → ∀ i, s.L i c = coordinates t W j i
  current : ∀ c i : Fin N, c.val = s.r → i.val < k → s.L i c = skippedSquare t W k i
  L_zero : ∀ i c : Fin N, s.r < c.val → s.L i c = 0

end Coordinates

variable {t : ℝ} {W : Matrix (Fin N) (Fin P) ℝ} {k r : Fin N} {s : Cholesky ℝ N}

/-! ### Entries of rows that were skipped -/

lemma skippedSquare_of_kept (h : Kept t W k) {i : Fin N} (hi : i ≤ k) :
    skippedSquare t W (k.val + 1) i = 0 :=
  if_neg fun hskipped => hskipped k hi (Nat.lt_succ_self _) h

lemma skippedSquare_of_not_kept (h : ¬ Kept t W k) (i : Fin N) :
    skippedSquare t W (k.val + 1) i = skippedSquare t W k i := by
  have hiff : (∀ j, i ≤ j → j.val < k.val + 1 → ¬ Kept t W j) ↔
      ∀ j, i ≤ j → j.val < k.val → ¬ Kept t W j := by
    refine ⟨fun hall j hi hj => hall j hi (Nat.lt_succ_of_lt hj), fun hall j hi hj => ?_⟩
    rcases Nat.lt_succ_iff_lt_or_eq.1 hj with hlt | heq
    · exact hall j hi hlt
    · rwa [Fin.ext heq]
  rw [skippedSquare, skippedSquare]
  exact if_congr hiff rfl rfl

lemma skippedSquare_self : skippedSquare t W k.val k = leftSquare t W k :=
  if_pos fun _ hi hj => absurd hj (not_lt.2 hi)

/-! ### One round -/

lemma LL_succ (L : Matrix (Fin N) (Fin N) ℝ) (i j : Fin N) :
    LL L (r.val + 1) i j = LL L r.val i j + L i r * L j r := by
  rw [LL, indices_succ r (Nat.zero_le _), List.foldl_concat]
  rfl

lemma orthogonalized_zero : Orthogonalized t W 0 { L := 0, r := 0 } where
  r_eq := rfl
  left := fun _ _ _ _ => sub_zero _
  finished := fun _ _ hj => by cases hj
  current := fun _ _ _ hi => absurd hi (Nat.not_lt_zero _)
  L_zero := fun _ _ _ => rfl

/-- The column that the round `k` writes first. -/
lemma Orthogonalized.column_residual (h : Orthogonalized t W k s) (hr : s.r = r.val) {i : Fin N}
    (hi : k ≤ i) :
    residualColumn (W * Wᵀ) s.L k r i r = leftover t W k i ⬝ᵥ leftover t W k k := by
  rw [residualColumn_below _ _ r hi, ← hr]
  exact h.left i k hi le_rfl

lemma Orthogonalized.lt_of_finished (h : Orthogonalized t W k s) {c j : Fin N}
    (hc : (keptRows t W k)[c.val]? = some j) : c.val < s.r := by
  rw [h.r_eq]
  exact (List.getElem?_eq_some_iff.1 hc).1

/-- A round in which the row is skipped. -/
lemma Orthogonalized.skip (h : Orthogonalized t W k s) (hr : s.r = r.val) (hk : ¬ Kept t W k) :
    Orthogonalized t W (k.val + 1) { L := residualColumn (W * Wᵀ) s.L k r, r := s.r } := by
  have hother : ∀ i c, c ≠ r → residualColumn (W * Wᵀ) s.L k r i c = s.L i c :=
    fun i c hc => residualColumn_of_ne _ _ k r i hc
  constructor
  case r_eq => rw [keptRows_of_not_kept hk, ← h.r_eq]
  case left =>
    intro i j hi hj
    have hLL : LL (residualColumn (W * Wᵀ) s.L k r) s.r i j = LL s.L s.r i j :=
      LL_congr fun i c hc => hother i c (Fin.ne_of_lt (hc.trans_eq hr))
    rw [leftover_of_not_kept hk, ← h.left i j (Nat.le_of_succ_le hi) (Nat.le_of_succ_le hj), hLL]
  case finished =>
    intro c j hj i
    rw [keptRows_of_not_kept hk] at hj
    have hlt := h.lt_of_finished hj
    exact (hother i c (Fin.ne_of_lt (hlt.trans_eq hr))).trans (h.finished c j hj i)
  case current =>
    intro c i hc hi
    obtain rfl : c = r := Fin.ext (hc.trans hr)
    rw [skippedSquare_of_not_kept hk]
    rcases Nat.lt_succ_iff_lt_or_eq.1 hi with hlt | heq
    · exact (residualColumn_above _ _ c hlt).trans (h.current c i hc hlt)
    · obtain rfl : i = k := Fin.ext heq
      rw [skippedSquare_self]
      exact h.column_residual hr le_rfl
  case L_zero =>
    intro i c hc
    exact (hother i c (Fin.ne_of_gt (hr.symm.trans_lt hc))).trans (h.L_zero i c hc)

/-- A round in which the row is kept. -/
lemma Orthogonalized.accept (h : Orthogonalized t W k s) (hr : s.r = r.val) (ht : 0 ≤ t)
    (hk : Kept t W k) :
    Orthogonalized t W (k.val + 1)
      { L := scaleColumn (residualColumn (W * Wᵀ) s.L k r) k r, r := s.r + 1 } := by
  have hpos : 0 < leftSquare t W k := lt_of_le_of_lt ht hk
  have hother : ∀ i c, c ≠ r →
      scaleColumn (residualColumn (W * Wᵀ) s.L k r) k r i c = s.L i c := by
    intro i c hc
    rw [scaleColumn_of_ne _ k r i hc, residualColumn_of_ne _ _ k r i hc]
  have hnew : ∀ i, scaleColumn (residualColumn (W * Wᵀ) s.L k r) k r i r =
      coordinates t W k i := by
    intro i
    rcases lt_trichotomy i k with hi | rfl | hi
    · rw [scaleColumn_above _ r hi, residualColumn_above _ _ r hi, h.current r i hr.symm hi,
        coordinates, if_neg (not_le.2 hi)]
    · rw [scaleColumn_pivot, sqrt_real, h.column_residual hr le_rfl, coordinates, if_pos le_rfl]
      exact Real.div_sqrt.symm
    · rw [scaleColumn_below _ r hi, sqrt_real, h.column_residual hr hi.le,
        h.column_residual hr le_rfl, coordinates, if_pos hi.le]
      rfl
  constructor
  case r_eq => rw [hk.keptRows, List.length_append, ← h.r_eq, List.length_singleton]
  case left =>
    intro i j hi hj
    have hki : k ≤ i := Nat.le_of_succ_le hi
    have hkj : k ≤ j := Nat.le_of_succ_le hj
    have hLL : LL (scaleColumn (residualColumn (W * Wᵀ) s.L k r) k r) r.val i j =
        LL s.L s.r i j := by
      rw [hr]
      exact LL_congr fun i c hc => hother i c (Fin.ne_of_lt hc)
    have hsqrt : √(leftSquare t W k) * √(leftSquare t W k) = leftSquare t W k :=
      Real.mul_self_sqrt hpos.le
    dsimp only
    rw [hk.leftover, orthogonalize_dotProduct _ hpos.ne', ← h.left i j hki hkj, hr, LL_succ, hLL,
      hr, hnew, hnew, coordinates, coordinates, if_pos hki, if_pos hkj, div_mul_div_comm, hsqrt,
      leftSquare, sub_add_eq_sub_sub]
  case finished =>
    intro c j hj i
    rw [hk.keptRows] at hj
    rcases lt_or_ge c.val (keptRows t W k).length with hlt | hge
    · rw [List.getElem?_append_left hlt] at hj
      have hne : c ≠ r := Fin.ne_of_lt (hlt.trans_eq (h.r_eq.symm.trans hr))
      exact (hother i c hne).trans (h.finished c j hj i)
    · rw [List.getElem?_append_right hge, List.getElem?_singleton] at hj
      split_ifs at hj with hzero
      obtain rfl := Option.some_inj.1 hj
      obtain rfl : c = r := Fin.ext (by rw [← hr, h.r_eq]; omega)
      exact hnew i
  case current =>
    intro c i hc hi
    have hlt : s.r < c.val := hc.symm ▸ Nat.lt_succ_self _
    rw [skippedSquare_of_kept hk (Nat.le_of_lt_succ hi)]
    exact (hother i c (Fin.ne_of_gt (hr.symm.trans_lt hlt))).trans (h.L_zero i c hlt)
  case L_zero =>
    intro i c hc
    have hlt : s.r < c.val := Nat.lt_of_succ_lt hc
    exact (hother i c (Fin.ne_of_gt (hr.symm.trans_lt hlt))).trans (h.L_zero i c hlt)

/-! ### The whole factorisation -/

section Run

variable [NeZero N]

lemma Orthogonalized.step (h : Orthogonalized (tol (W * Wᵀ)) W k s) (htol : 0 ≤ tol (W * Wᵀ)) :
    Orthogonalized (tol (W * Wᵀ)) W (k.val + 1) (choleskyStep (W * Wᵀ) s k) := by
  have hr : s.r < N := by
    rw [h.r_eq]
    exact lt_of_le_of_lt (length_keptRows_le k.isLt.le) k.isLt
  have hpivot : residualColumn (W * Wᵀ) s.L k ⟨s.r, hr⟩ k ⟨s.r, hr⟩ =
      leftSquare (tol (W * Wᵀ)) W k := h.column_residual rfl le_rfl
  rw [choleskyStep, dif_pos hr]
  simp only [hpivot]
  split_ifs with hk
  · exact h.accept rfl htol hk
  · exact h.skip rfl hk

lemma orthogonalized_choleskyAt (W : Matrix (Fin N) (Fin P) ℝ) {k : ℕ} (hk : k ≤ N) :
    Orthogonalized (tol (W * Wᵀ)) W k (choleskyAt (W * Wᵀ) k) := by
  induction k with
  | zero => exact orthogonalized_zero
  | succ k ih =>
    have hround : choleskyAt (W * Wᵀ) (k + 1) =
        choleskyStep (W * Wᵀ) (choleskyAt (W * Wᵀ) k) ⟨k, hk⟩ := choleskyAt_succ ⟨k, hk⟩
    rw [hround]
    exact (ih (Nat.le_of_succ_le hk)).step (k := ⟨k, hk⟩) (tol_mul_transpose_nonneg W)

/-- The rank that `fullRankCholesky` answers is the number of rows that are kept, and the finished
columns are the coordinates along them. -/
theorem fullRankCholesky_rows (W : Matrix (Fin N) (Fin P) ℝ) :
    (fullRankCholesky (W * Wᵀ)).2 = (keptRows (tol (W * Wᵀ)) W N).length ∧
      ∀ c j : Fin N, (keptRows (tol (W * Wᵀ)) W N)[c.val]? = some j →
        ∀ i, (fullRankCholesky (W * Wᵀ)).1 i c = coordinates (tol (W * Wᵀ)) W j i :=
  ⟨(orthogonalized_choleskyAt W le_rfl).r_eq, (orthogonalized_choleskyAt W le_rfl).finished⟩

end Run

end RT1064.Mat
