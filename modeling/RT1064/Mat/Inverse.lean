import RT1064.Mat.SquareMatrix

/-!
# Correctness of the inverse

The loop over the diagonal keeps a factorisation of the permuted matrix, under every pattern of
swaps; the substitutions then turn the permutation into the inverse of the leading block.
-/

namespace RT1064.Mat

open Core

variable {K : Type*} [Field K] {M : ℕ}

/-! ### The substitutions -/

/-- The innermost loop of both substitutions acts on one column. -/
lemma col_foldl_subtract (T : Matrix (Fin M) (Fin M) K) (l : List (Fin M)) (i c : Fin M)
    (P : Matrix (Fin M) (Fin M) K) :
    (l.foldl (fun P j => setEntry P i c (P i c - T i j * P j c)) P).col c =
      subtractTerms l T i (P.col c) := by
  refine (List.foldl_hom (fun P : Matrix (Fin M) (Fin M) K => P.col c) ?_).symm
  intro P j
  rw [col_setEntry]
  rfl

lemma col_foldl_subtract_of_ne (T : Matrix (Fin M) (Fin M) K) (l : List (Fin M)) (i : Fin M)
    {c c' : Fin M} (h : c ≠ c') (P : Matrix (Fin M) (Fin M) K) :
    (l.foldl (fun P j => setEntry P i c' (P i c' - T i j * P j c')) P).col c = P.col c := by
  apply foldl_frame (fun P : Matrix (Fin M) (Fin M) K => P.col c)
  intro P j _
  exact col_setEntry_of_ne P i h _

omit [Field K] in
/-- A loop over the leading columns each round of which changes its own column only. -/
lemma col_foldl_columns {rank : ℕ}
    {round : Matrix (Fin M) (Fin M) K → Fin M → Matrix (Fin M) (Fin M) K}
    {f : (Fin M → K) → Fin M → K}
    (frame : ∀ P (c c' : Fin M), c ≠ c' → (round P c').col c = P.col c)
    (act : ∀ P c, (round P c).col c = f (P.col c)) (P : Matrix (Fin M) (Fin M) K) (c : Fin M) :
    ((indices 0 rank).foldl round P).col c = if c.val < rank then f (P.col c) else P.col c := by
  split_ifs with hc
  · exact foldl_once (fun P : Matrix (Fin M) (Fin M) K => P.col c)
      (fun P : Matrix (Fin M) (Fin M) K => P.col c) (nodup_indices _ _)
      (mem_indices.2 ⟨Nat.zero_le _, hc⟩) (fun P c' _ h => frame P c c' h.symm)
      (fun P c' _ h => frame P c c' h.symm) (fun P => act P c) P
  · apply foldl_frame (fun P : Matrix (Fin M) (Fin M) K => P.col c)
    intro P c' hc'
    refine frame P c c' ?_
    rintro rfl
    exact hc (mem_indices.1 hc').2

/-- The forward substitution runs on each column of the leading block. -/
lemma col_forwardSubstitute (rank : ℕ) (L P : Matrix (Fin M) (Fin M) K) (c : Fin M) :
    (forwardSubstitute rank L P).col c =
      if c.val < rank then forwardSubst rank L (P.col c) else P.col c := by
  refine col_foldl_columns ?_ ?_ P c
  · intro P c c' h
    apply foldl_frame (fun P : Matrix (Fin M) (Fin M) K => P.col c)
    intro P i _
    exact col_foldl_subtract_of_ne L _ i h P
  · intro P c
    refine (List.foldl_hom (fun P : Matrix (Fin M) (Fin M) K => P.col c) ?_).symm
    intro P i
    exact (col_foldl_subtract L _ i c P).symm

/-- The back substitution runs on each column of the leading block. -/
lemma col_backSubstitute (rank : ℕ) (U P : Matrix (Fin M) (Fin M) K) (c : Fin M) :
    (backSubstitute rank U P).col c =
      if c.val < rank then backSubst rank U (P.col c) else P.col c := by
  refine col_foldl_columns ?_ ?_ P c
  · intro P c c' h
    apply foldl_frame (fun P : Matrix (Fin M) (Fin M) K => P.col c)
    intro P i _
    exact (col_setEntry_of_ne _ i h _).trans (col_foldl_subtract_of_ne U _ i h P)
  · intro P c
    refine (List.foldl_hom (fun P : Matrix (Fin M) (Fin M) K => P.col c) ?_).symm
    intro P i
    have hcol := col_foldl_subtract U (indices (i.val + 1) rank) i c P
    rw [solveRow, ← hcol, col_setEntry]
    rfl

/-! ### The elimination -/

/-- The row `i` of `U` after the multiple of the row `n` was subtracted. -/
lemma eliminateRow_U (rank : ℕ) {n i : Fin M} (h : i ≠ n) (s : LU K M) (k : Fin M) :
    (eliminateRow rank n s i).U i k =
      if n.val ≤ k.val ∧ k.val < rank then s.U i k - s.U i n / s.U n n * s.U n k
      else s.U i k := by
  simp only [eliminateRow, setEntry_self]
  split_ifs with hk
  · refine foldl_once (entry i k) (fun U : Matrix (Fin M) (Fin M) K => (U i k, U n k))
      (v := fun e => e.1 - s.U i n / s.U n n * e.2) (nodup_indices _ _) (i := k)
      (mem_indices.2 hk) ?_ ?_ ?_ s.U
    · intro U k' _ hk'
      exact setEntry_of_col_ne U i i hk'.symm _
    · intro U k' _ hk'
      exact Prod.ext (setEntry_of_col_ne U i i hk'.symm _) (setEntry_of_row_ne U h.symm _ _ _)
    · intro U
      exact setEntry_self U i k _
  · apply foldl_frame (entry i k)
    intro U k' hk'
    refine setEntry_of_col_ne U i i ?_ _
    rintro rfl
    exact hk (mem_indices.1 hk')

lemma eliminateRow_U_of_ne (rank : ℕ) (n : Fin M) {i i' : Fin M} (h : i ≠ i') (s : LU K M) :
    (eliminateRow rank n s i').U i = s.U i := by
  funext k
  apply foldl_frame (entry i k)
  intro U k' _
  exact setEntry_of_row_ne U h _ _ _

lemma eliminateRow_L_of_ne (rank : ℕ) (n : Fin M) {i i' : Fin M} (h : i ≠ i') (s : LU K M) :
    (eliminateRow rank n s i').L i = s.L i :=
  funext fun k => setEntry_of_row_ne s.L h n k _

/-- What is subtracted from the row `i` in the round `n`. -/
def multiplier (rank : ℕ) (s : LU K M) (n i : Fin M) : K :=
  if n.val < i.val ∧ i.val < rank then s.U i n / s.U n n else 0

lemma eliminateBelow_P (rank : ℕ) (n : Fin M) (s : LU K M) :
    (eliminateBelow rank n s).P = s.P := by
  apply foldl_frame (fun s : LU K M => s.P)
  intro s i _
  rfl

lemma eliminateRow_L (rank : ℕ) (n i : Fin M) (s : LU K M) (k : Fin M) :
    (eliminateRow rank n s i).L i k = if k = n then s.U i n / s.U n n else s.L i k := by
  rcases eq_or_ne k n with rfl | hk
  · simp [eliminateRow]
  · simp [eliminateRow, hk, setEntry]

/-- The round `n` changes the row `i` of both factors at most once, and reads for it what the row
and the row `n` held before the round. -/
lemma eliminateBelow_row (rank : ℕ) (n i : Fin M) (s : LU K M) :
    ((eliminateBelow rank n s).L i, (eliminateBelow rank n s).U i) =
      if n.val < i.val ∧ i.val < rank then
        (fun k => if k = n then s.U i n / s.U n n else s.L i k,
          fun k => if n.val ≤ k.val ∧ k.val < rank then s.U i k - s.U i n / s.U n n * s.U n k
            else s.U i k)
      else (s.L i, s.U i) := by
  have hother : ∀ (s : LU K M) {i' : Fin M}, i' ≠ i →
      ((eliminateRow rank n s i').L i, (eliminateRow rank n s i').U i) = (s.L i, s.U i) :=
    fun s i' h => Prod.ext (eliminateRow_L_of_ne rank n h.symm s)
      (eliminateRow_U_of_ne rank n h.symm s)
  split_ifs with hi
  · refine foldl_once (fun s : LU K M => (s.L i, s.U i)) (fun s => ((s.L i, s.U i), s.U n))
      (v := fun e => (fun k => if k = n then e.1.2 n / e.2 n else e.1.1 k,
        fun k => if n.val ≤ k.val ∧ k.val < rank then e.1.2 k - e.1.2 n / e.2 n * e.2 k
          else e.1.2 k))
      (nodup_indices _ _) (i := i) (mem_indices.2 hi) ?_ ?_ ?_ s
    · intro s i' _ h
      exact hother s h
    · intro s i' hi' h
      have hn : n ≠ i' := Fin.ne_of_lt (mem_indices.1 hi').1
      exact Prod.ext (hother s h) (eliminateRow_U_of_ne rank n hn s)
    · intro s
      refine Prod.ext (funext fun k => ?_) (funext fun k => ?_)
      · exact eliminateRow_L rank n i s k
      · exact eliminateRow_U rank (Fin.ne_of_gt hi.1) s k
  · apply foldl_frame (fun s : LU K M => (s.L i, s.U i))
    intro s i' hi'
    refine hother s ?_
    rintro rfl
    exact hi (mem_indices.1 hi')

lemma eliminateBelow_U (rank : ℕ) (n i k : Fin M) (s : LU K M) :
    (eliminateBelow rank n s).U i k =
      if n.val ≤ k.val ∧ k.val < rank then s.U i k - multiplier rank s n i * s.U n k
      else s.U i k := by
  have hrow := congrArg (fun e => e.2 k) (eliminateBelow_row rank n i s)
  rw [multiplier]
  by_cases hi : n.val < i.val ∧ i.val < rank
  · rw [if_pos hi] at hrow ⊢
    exact hrow
  · rw [if_neg hi] at hrow ⊢
    rw [zero_mul, sub_zero, ite_self]
    exact hrow

lemma eliminateBelow_L (rank : ℕ) (n i k : Fin M) (s : LU K M) :
    (eliminateBelow rank n s).L i k =
      if k = n ∧ n.val < i.val ∧ i.val < rank then multiplier rank s n i else s.L i k := by
  have hrow := congrArg (fun e => e.1 k) (eliminateBelow_row rank n i s)
  rw [multiplier]
  by_cases hi : n.val < i.val ∧ i.val < rank
  · simpa only [hi, and_true, if_true] using hrow
  · simpa only [hi, and_false, if_false] using hrow

/-! ### The factorisation -/

/-- After `n` rounds the rows of `A`, permuted by `σ`, are the product of `L` and `U`; `L` is unit
lower triangular and filled in its first `n` columns, where `U` is upper triangular. -/
structure Factors (A : Matrix (Fin M) (Fin M) K) (rank n : ℕ) (σ : Equiv.Perm (Fin M))
    (s : LU K M) : Prop where
  fixes : ∀ i : Fin M, rank ≤ i.val → σ i = i
  P_eq : ∀ i j, s.P i j = if σ i = j then 1 else 0
  product : ∀ i j : Fin M, i.val < rank → j.val < rank → A (σ i) j = ∑ k, s.L i k * s.U k j
  L_diag : ∀ i, s.L i i = 1
  L_zero : ∀ i j : Fin M, i ≠ j → i ≤ j ∨ n ≤ j.val ∨ rank ≤ i.val → s.L i j = 0
  U_zero : ∀ i j : Fin M, j.val < n → j < i → i.val < rank → s.U i j = 0
  U_diag : ∀ i : Fin M, i.val < n → s.U i i ≠ 0

lemma factors_start (A : Matrix (Fin M) (Fin M) K) (rank : ℕ) :
    Factors A rank 0 1 { L := 1, U := A, P := 1 } where
  fixes := fun _ _ => rfl
  P_eq := fun _ _ => rfl
  product := by
    intro i j _ _
    exact (congrFun (congrFun (Matrix.one_mul A) i) j).symm
  L_diag := fun _ => Matrix.one_apply_eq _
  L_zero := fun _ _ h _ => Matrix.one_apply_ne h
  U_zero := fun _ _ h => absurd h (Nat.not_lt_zero _)
  U_diag := fun _ h => absurd h (Nat.not_lt_zero _)

section Swap

variable {rank : ℕ} {n i : Fin M}

/-- A swap of unfinished rows leaves the finished ones in their places. -/
lemma swap_below (hni : n.val < i.val) {k : Fin M} (hk : k.val < n.val) :
    Equiv.swap i n k = k :=
  Equiv.swap_apply_of_ne_of_ne (Fin.ne_of_lt (hk.trans hni)) (Fin.ne_of_lt hk)

lemma swap_above (hni : n.val < i.val) (hi : i.val < rank) {k : Fin M} (hk : rank ≤ k.val) :
    Equiv.swap i n k = k :=
  Equiv.swap_apply_of_ne_of_ne (Fin.ne_of_gt (hi.trans_le hk))
    (Fin.ne_of_gt (hni.trans (hi.trans_le hk)))

lemma swap_within (hni : n.val < i.val) (hi : i.val < rank) {k : Fin M} (hnk : n.val ≤ k.val)
    (hk : k.val < rank) :
    n.val ≤ (Equiv.swap i n k).val ∧ (Equiv.swap i n k).val < rank := by
  rw [Equiv.swap_apply_def]
  split_ifs
  · exact ⟨le_rfl, hni.trans hi⟩
  · exact ⟨hni.le, hi⟩
  · exact ⟨hnk, hk⟩

lemma le_swap (hni : n.val < i.val) (hi : i.val < rank) {k : Fin M} (hnk : n.val ≤ k.val) :
    n.val ≤ (Equiv.swap i n k).val := by
  rcases lt_or_ge k.val rank with hk | hk
  · exact (swap_within hni hi hnk hk).1
  · rwa [swap_above hni hi hk]

lemma swap_lt (hni : n.val < i.val) (hi : i.val < rank) {k : Fin M} (hk : k.val < rank) :
    (Equiv.swap i n k).val < rank := by
  rcases lt_or_ge k.val n.val with hkn | hkn
  · rwa [swap_below hni hkn]
  · exact (swap_within hni hi hkn hk).2

/-- A swap of two rows that are not finished yet keeps the factorisation: in `L` it exchanges the
multipliers and, with the swap of the columns, restores the diagonal. -/
lemma Factors.swap {A : Matrix (Fin M) (Fin M) K} {σ : Equiv.Perm (Fin M)} {s : LU K M}
    (h : Factors A rank n.val σ s) (hni : n.val < i.val) (hi : i.val < rank) :
    Factors A rank n.val (σ * Equiv.swap i n) (swapAll s i n) := by
  refine
    { fixes := ?_
      P_eq := ?_
      product := ?_
      L_diag := ?_
      L_zero := ?_
      U_zero := ?_
      U_diag := ?_ }
  · intro k hk
    rw [Equiv.Perm.mul_apply, swap_above hni hi hk, h.fixes k hk]
  · intro j k
    rw [swapAll_P, h.P_eq, Equiv.Perm.mul_apply]
  · intro j k hj hk
    rw [Equiv.Perm.mul_apply, h.product _ k (swap_lt hni hi hj) hk,
      ← Equiv.sum_comp (Equiv.swap i n)]
    refine Finset.sum_congr rfl fun l _ => ?_
    rw [swapAll_L, swapAll_U]
  · intro j
    rw [swapAll_L, h.L_diag]
  · intro j k hjk hzero
    rw [swapAll_L]
    refine h.L_zero _ _ (fun heq => hjk ((Equiv.swap i n).injective heq)) ?_
    rcases hzero with hle | hnk | hj
    · rcases lt_or_ge k.val n.val with hkn | hkn
      · left
        rwa [swap_below hni hkn, swap_below hni (lt_of_le_of_lt hle hkn)]
      · exact .inr (.inl (le_swap hni hi hkn))
    · exact .inr (.inl (le_swap hni hi hnk))
    · right
      right
      rwa [swap_above hni hi hj]
  · intro j k hkn hkj hj
    rw [swapAll_U]
    rcases lt_or_ge j.val n.val with hjn | hjn
    · rw [swap_below hni hjn]
      exact h.U_zero j k hkn hkj hj
    · exact h.U_zero _ k hkn (hkn.trans_le (le_swap hni hi hjn)) (swap_lt hni hi hj)
  · intro j hj
    rw [swapAll_U, swap_below hni hj]
    exact h.U_diag j hj

end Swap

section Eliminate

variable {A : Matrix (Fin M) (Fin M) K} {rank : ℕ} {n : Fin M} {σ : Equiv.Perm (Fin M)}
  {s : LU K M}

lemma multiplier_of_not {i : Fin M} (h : ¬ (n.val < i.val ∧ i.val < rank)) :
    multiplier rank s n i = 0 :=
  if_neg h

/-- The row `n` is zero before the diagonal, so its multiples are subtracted from whole rows. -/
lemma Factors.eliminateBelow_U (h : Factors A rank n.val σ s) (hn : n.val < rank) (i : Fin M)
    {k : Fin M} (hk : k.val < rank) :
    (eliminateBelow rank n s).U i k = s.U i k - multiplier rank s n i * s.U n k := by
  rw [Mat.eliminateBelow_U]
  split_ifs with hnk
  · rfl
  · have hkn : k.val < n.val := not_le.1 fun hle => hnk ⟨hle, hk⟩
    rw [h.U_zero n k hkn hkn hn, mul_zero, sub_zero]

/-- The multipliers fill the column `n` of `L`, which was empty below the diagonal. -/
lemma Factors.eliminateBelow_L (h : Factors A rank n.val σ s) (i k : Fin M) :
    (eliminateBelow rank n s).L i k =
      s.L i k + if k = n then multiplier rank s n i else 0 := by
  rw [Mat.eliminateBelow_L]
  by_cases hk : k = n
  · by_cases hi : n.val < i.val ∧ i.val < rank
    · have hin : i ≠ k := by
        rw [hk]
        exact Fin.ne_of_gt hi.1
      rw [if_pos ⟨hk, hi⟩, if_pos hk, h.L_zero i k hin (.inr (.inl (by rw [hk]))), zero_add]
    · rw [if_neg fun hboth => hi hboth.2, if_pos hk, multiplier_of_not hi, add_zero]
  · rw [if_neg fun hboth => hk hboth.1, if_neg hk, add_zero]

/-- The columns of `L` from `n` on are still those of the identity. -/
lemma Factors.sum_mul_multiplier (h : Factors A rank n.val σ s) (i : Fin M) :
    ∑ k, s.L i k * multiplier rank s n k = multiplier rank s n i := by
  rw [Finset.sum_eq_single i, h.L_diag, one_mul]
  · intro k _ hki
    by_cases hk : n.val < k.val ∧ k.val < rank
    · rw [h.L_zero i k hki.symm (.inr (.inl hk.1.le)), zero_mul]
    · rw [multiplier_of_not hk, mul_zero]
  · intro hi
    exact absurd (Finset.mem_univ i) hi

/-- What the elimination takes from `U` it puts into `L`. -/
lemma Factors.sum_eliminateBelow (h : Factors A rank n.val σ s) (hn : n.val < rank) (i : Fin M)
    {j : Fin M} (hj : j.val < rank) :
    ∑ k, (eliminateBelow rank n s).L i k * (eliminateBelow rank n s).U k j =
      ∑ k, s.L i k * s.U k j := by
  have hexpand : ∀ k, (eliminateBelow rank n s).L i k * (eliminateBelow rank n s).U k j =
      s.L i k * s.U k j - s.L i k * multiplier rank s n k * s.U n j +
        (if k = n then multiplier rank s n i * s.U n j else 0) := by
    intro k
    rw [h.eliminateBelow_L, h.eliminateBelow_U hn k hj]
    split_ifs with hk
    · rw [hk, multiplier_of_not fun hnn => lt_irrefl _ hnn.1]
      ring
    · ring
  simp only [hexpand, Finset.sum_add_distrib, Finset.sum_sub_distrib, Finset.sum_ite_eq',
    Finset.mem_univ, if_true, ← Finset.sum_mul, h.sum_mul_multiplier]
  exact sub_add_cancel _ _

/-- The elimination below a nonzero diagonal entry finishes one more column. -/
lemma Factors.eliminate (h : Factors A rank n.val σ s) (hn : n.val < rank) (hne : s.U n n ≠ 0) :
    Factors A rank (n.val + 1) σ (eliminateBelow rank n s) := by
  refine
    { fixes := h.fixes
      P_eq := ?_
      product := ?_
      L_diag := ?_
      L_zero := ?_
      U_zero := ?_
      U_diag := ?_ }
  · rw [eliminateBelow_P]
    exact h.P_eq
  · intro i j hi hj
    rw [h.sum_eliminateBelow hn i hj]
    exact h.product i j hi hj
  · intro i
    rw [h.eliminateBelow_L, h.L_diag]
    split_ifs with hi
    · rw [multiplier_of_not fun hboth => Fin.ne_of_gt hboth.1 hi, add_zero]
    · rw [add_zero]
  · intro i j hij hzero
    have hold : s.L i j = 0 := by
      refine h.L_zero i j hij ?_
      rcases hzero with hle | hnj | hi
      · exact .inl hle
      · exact .inr (.inl (Nat.le_of_succ_le hnj))
      · exact .inr (.inr hi)
    rw [h.eliminateBelow_L, hold, zero_add]
    split_ifs with hj
    · refine multiplier_of_not fun hboth => ?_
      rcases hzero with hle | hnj | hi
      · rw [hj] at hle
        exact absurd hboth.1 (not_lt.2 hle)
      · rw [hj] at hnj
        exact absurd hnj (Nat.not_succ_le_self _)
      · exact absurd hboth.2 (not_lt.2 hi)
    · rfl
  · intro i j hjn hji hi
    have hjr : j.val < rank := lt_trans hji hi
    rw [h.eliminateBelow_U hn i hjr]
    rcases Nat.lt_succ_iff_lt_or_eq.1 hjn with hlt | heq
    · rw [h.U_zero i j hlt hji hi, h.U_zero n j hlt hlt hn, mul_zero, sub_zero]
    · obtain rfl : j = n := Fin.ext heq
      rw [multiplier, if_pos ⟨hji, hi⟩, div_mul_cancel₀ _ hne, sub_self]
  · intro i hin
    have hir : i.val < rank := lt_of_lt_of_le hin hn
    have hnot : ¬ (n.val < i.val ∧ i.val < rank) :=
      fun hboth => absurd hboth.1 (not_lt.2 (Nat.lt_succ_iff.1 hin))
    rw [h.eliminateBelow_U hn i hir, multiplier_of_not hnot, zero_mul, sub_zero]
    rcases Nat.lt_succ_iff_lt_or_eq.1 hin with hlt | heq
    · exact h.U_diag i hlt
    · obtain rfl : i = n := Fin.ext heq
      exact hne

end Eliminate

section Order

variable [LinearOrder K]

/-- Pivoting swaps at most one pair of unfinished rows. -/
lemma Factors.pivot {A : Matrix (Fin M) (Fin M) K} {rank : ℕ} {n : Fin M}
    {σ : Equiv.Perm (Fin M)} {s : LU K M} (h : Factors A rank n.val σ s) :
    ∃ σ', Factors A rank n.val σ' (pivot rank s n) := by
  rw [Mat.pivot]
  split_ifs with hzero
  · cases hfind : (indices (n.val + 1) rank).find? fun i => FLT_EPSILON < |s.U i n| with
    | none => exact ⟨σ, h⟩
    | some i =>
      obtain ⟨hni, hi⟩ := mem_indices.1 (List.mem_of_find?_eq_some hfind)
      exact ⟨_, h.swap hni hi⟩
  · exact ⟨σ, h⟩

variable [IsStrictOrderedRing K]

/-- A round of the loop over the diagonal that does not fail finishes one more column. -/
lemma Factors.step {A : Matrix (Fin M) (Fin M) K} {rank : ℕ} {n : Fin M}
    {σ : Equiv.Perm (Fin M)} {s t : LU K M} (h : Factors A rank n.val σ s) (hn : n.val < rank)
    (hstep : factorStep rank s n = some t) : ∃ σ', Factors A rank (n.val + 1) σ' t := by
  obtain ⟨σ', h'⟩ := h.pivot
  rw [factorStep] at hstep
  split_ifs at hstep with hzero
  obtain rfl := Option.some.inj hstep
  refine ⟨σ', h'.eliminate hn ?_⟩
  intro hne
  rw [hne, abs_zero] at hzero
  exact hzero FLT_EPSILON_pos

/-- If the loop over the diagonal runs to its end it leaves a factorisation. -/
lemma factors_factor {A : Matrix (Fin M) (Fin M) K} {rank : ℕ} (hr : rank ≤ M) {s : LU K M}
    (h : factor A rank = some s) : ∃ σ, Factors A rank rank σ s := by
  refine foldlM_indices_induction (fun n s => ∃ σ, Factors A rank n σ s) (Nat.zero_le rank) hr
    ⟨1, factors_start A rank⟩ ?_ h
  rintro n s t _ hn ⟨σ, hσ⟩ hstep
  exact hσ.step hn hstep

end Order

/-! ### The inverse of the leading block -/

/-- The leading block of a square matrix. -/
def lead {rank : ℕ} (hr : rank ≤ M) (A : Matrix (Fin M) (Fin M) K) :
    Matrix (Fin rank) (Fin rank) K :=
  A.submatrix (Fin.castLE hr) (Fin.castLE hr)

omit [Field K] in
lemma sum_castLE [AddCommMonoid K] {rank : ℕ} (hr : rank ≤ M) (f : Fin M → K) :
    ∑ j : Fin rank, f (Fin.castLE hr j) = ∑ j with j.val < rank, f j := by
  rw [Finset.sum_filter]
  refine Fintype.sum_of_injective (Fin.castLE hr) (Fin.castLE_injective hr) _ _ ?_ ?_
  · intro j hj
    refine if_neg fun hlt => hj ⟨⟨j.val, hlt⟩, rfl⟩
  · intro j
    rw [if_pos]
    exact j.isLt

/-- What the substitutions make of the permutation matrix. -/
def solve (rank : ℕ) (s : LU K M) : Matrix (Fin M) (Fin M) K :=
  backSubstitute rank s.U (forwardSubstitute rank s.L s.P)

section Solve

variable {A : Matrix (Fin M) (Fin M) K} {rank : ℕ} {σ : Equiv.Perm (Fin M)} {s : LU K M}

lemma Factors.col_solve {c : Fin M} (hc : c.val < rank) :
    (solve rank s).col c = backSubst rank s.U (forwardSubst rank s.L (s.P.col c)) := by
  rw [solve, col_backSubstitute, if_pos hc, col_forwardSubstitute, if_pos hc]

/-- On the leading block the permuted rows of `A` times the result are the permutation. -/
lemma Factors.sum_mul_solve (hr : rank ≤ M) (h : Factors A rank rank σ s) {i c : Fin M}
    (hi : i.val < rank) (hc : c.val < rank) :
    ∑ j with j.val < rank, A (σ i) j * solve rank s j c = if σ i = c then 1 else 0 := by
  set y := forwardSubst rank s.L (s.P.col c) with hy
  have hcol : ∀ j, solve rank s j c = backSubst rank s.U y j :=
    fun j => congrFun (col_solve hc) j
  have hlower : ∀ i j : Fin M, i < j → s.L i j = 0 :=
    fun i j hij => h.L_zero i j hij.ne (.inl hij.le)
  have hupper : ∀ i j : Fin M, j < i → i.val < rank → s.U i j = 0 :=
    fun i j hji hi => h.U_zero i j (lt_trans hji hi) hji hi
  have hback : ∀ k, s.L i k * ∑ j with j.val < rank, s.U k j * backSubst rank s.U y j =
      s.L i k * y k := by
    intro k
    rcases lt_or_ge k.val rank with hk | hk
    · rw [sum_mul_backSubst hr h.U_diag hupper y hk]
    · rw [hlower i k (Fin.lt_def.2 (lt_of_lt_of_le hi hk)), zero_mul, zero_mul]
  calc ∑ j with j.val < rank, A (σ i) j * solve rank s j c
      = ∑ j with j.val < rank, ∑ k, s.L i k * (s.U k j * backSubst rank s.U y j) := by
        refine Finset.sum_congr rfl fun j hj => ?_
        rw [h.product i j hi (Finset.mem_filter.1 hj).2, hcol, Finset.sum_mul]
        simp only [mul_assoc]
    _ = ∑ k, s.L i k * ∑ j with j.val < rank, s.U k j * backSubst rank s.U y j := by
        rw [Finset.sum_comm]
        simp only [Finset.mul_sum]
    _ = ∑ k, s.L i k * y k := by simp only [hback]
    _ = if σ i = c then 1 else 0 := by
        rw [hy, sum_mul_forwardSubst hr h.L_diag hlower _ hi]
        exact h.P_eq i c

/-- The leading block of the result is the inverse of the leading block of `A`. -/
lemma Factors.lead_mul_lead_solve (hr : rank ≤ M) (h : Factors A rank rank σ s) :
    lead hr A * lead hr (solve rank s) = 1 := by
  ext t c
  set i := σ.symm (Fin.castLE hr t) with hi
  have hσi : σ i = Fin.castLE hr t := σ.apply_symm_apply _
  have hlt : i.val < rank := by
    by_contra hge
    have hfix := h.fixes i (not_lt.1 hge)
    rw [hσi] at hfix
    rw [← hfix] at hge
    exact hge t.isLt
  have hsum := h.sum_mul_solve hr hlt (c := Fin.castLE hr c) c.isLt
  rw [hσi] at hsum
  rw [Matrix.mul_apply, Matrix.one_apply]
  refine (sum_castLE hr fun j => A (Fin.castLE hr t) j * solve rank s j (Fin.castLE hr c)).trans ?_
  rw [hsum]
  simp only [(Fin.castLE_injective hr).eq_iff]

/-- Outside the leading block the result is the identity. -/
lemma Factors.solve_outside (hr : rank ≤ M) (h : Factors A rank rank σ s) {i c : Fin M}
    (hout : ¬ (i.val < rank ∧ c.val < rank)) :
    solve rank s i c = (1 : Matrix (Fin M) (Fin M) K) i c := by
  have hP : s.P i c = (1 : Matrix (Fin M) (Fin M) K) i c := by
    rw [h.P_eq, Matrix.one_apply]
    refine if_congr ?_ rfl rfl
    rcases lt_or_ge c.val rank with hc | hc
    · rw [h.fixes i (not_lt.1 fun hi => hout ⟨hi, hc⟩)]
    · rw [← h.fixes c hc, σ.injective.eq_iff, h.fixes c hc]
  rcases lt_or_ge c.val rank with hc | hc
  · have hi : rank ≤ i.val := not_lt.1 fun hi => hout ⟨hi, hc⟩
    have hcol : solve rank s i c = backSubst rank s.U (forwardSubst rank s.L (s.P.col c)) i :=
      congrFun (col_solve hc) i
    rw [hcol, (backSubst_spec hr h.U_diag _).2 i hi, (forwardSubst_spec hr s.L _).2 i hi]
    exact hP
  · have hcol : (solve rank s).col c = s.P.col c := by
      rw [solve, col_backSubstitute, if_neg (not_lt.2 hc), col_forwardSubstitute,
        if_neg (not_lt.2 hc)]
    exact (congrFun hcol i).trans hP

end Solve

section Order

variable [LinearOrder K]

lemma inv_of_factor_eq_none {A X : Matrix (Fin M) (Fin M) K} {rank : ℕ}
    (h : factor A rank = none) : inv A X rank = (false, X) := by
  rw [inv, h]

lemma inv_of_factor_eq_some {A X : Matrix (Fin M) (Fin M) K} {rank : ℕ} {s : LU K M}
    (h : factor A rank = some s) : inv A X rank = (true, solve rank s) := by
  rw [inv, h]
  simp [isFinite, solve]

variable [IsStrictOrderedRing K]

/-- If `inv` succeeds, its result comes from a factorisation. -/
lemma factors_of_inv {A X : Matrix (Fin M) (Fin M) K} {rank : ℕ} (hr : rank ≤ M)
    (h : (inv A X rank).1 = true) :
    ∃ σ s, Factors A rank rank σ s ∧ (inv A X rank).2 = solve rank s := by
  cases hfactor : factor A rank with
  | none =>
    rw [inv_of_factor_eq_none hfactor] at h
    exact absurd h Bool.false_ne_true
  | some s =>
    obtain ⟨σ, hσ⟩ := factors_factor hr hfactor
    rw [inv_of_factor_eq_some hfactor]
    exact ⟨σ, s, hσ, rfl⟩

lemma lead_mul_lead_inv {A X : Matrix (Fin M) (Fin M) K} {rank : ℕ} (hr : rank ≤ M)
    (h : (inv A X rank).1 = true) : lead hr A * lead hr (inv A X rank).2 = 1 := by
  obtain ⟨σ, s, hσ, hinv⟩ := factors_of_inv hr h
  rw [hinv]
  exact hσ.lead_mul_lead_solve hr

lemma inv_outside {A X : Matrix (Fin M) (Fin M) K} {rank : ℕ} (hr : rank ≤ M)
    (h : (inv A X rank).1 = true) {i j : Fin M} (hout : ¬ (i.val < rank ∧ j.val < rank)) :
    (inv A X rank).2 i j = (1 : Matrix (Fin M) (Fin M) K) i j := by
  obtain ⟨σ, s, hσ, hinv⟩ := factors_of_inv hr h
  rw [hinv]
  exact hσ.solve_outside hr hout

omit [IsStrictOrderedRing K] in
lemma inv_unchanged {A X : Matrix (Fin M) (Fin M) K} {rank : ℕ} (h : (inv A X rank).1 = false) :
    (inv A X rank).2 = X := by
  cases hfactor : factor A rank with
  | none => rw [inv_of_factor_eq_none hfactor]
  | some s =>
    rw [inv_of_factor_eq_some hfactor] at h
    exact absurd h.symm Bool.false_ne_true

/-- If `inv` succeeds, the leading block of its result is the two-sided inverse of the leading
block of `A` and the rest is the identity; if it fails, it leaves its argument alone. -/
theorem inv_correct {rank : ℕ} (hr : rank ≤ M) (A X : Matrix (Fin M) (Fin M) K) :
    ((inv A X rank).1 = true →
      lead hr A * lead hr (inv A X rank).2 = 1 ∧ lead hr (inv A X rank).2 * lead hr A = 1 ∧
      ∀ i j : Fin M, ¬ (i.val < rank ∧ j.val < rank) →
        (inv A X rank).2 i j = (1 : Matrix (Fin M) (Fin M) K) i j) ∧
    ((inv A X rank).1 = false → (inv A X rank).2 = X) := by
  refine ⟨?_, inv_unchanged⟩
  intro h
  have hmul := lead_mul_lead_inv hr h
  exact ⟨hmul, mul_eq_one_comm.1 hmul, fun i j hout => inv_outside hr h hout⟩

/-- A block of rank two that needs a swap, next to an entry that the rank leaves out. -/
def swapped : Matrix (Fin 3) (Fin 3) ℚ :=
  !![0, 2, 5; 1, 0, 0; 0, 3, 7]

/-- `swapped` has a leading block that `inv` inverts. -/
theorem inv_correct_swapped :
    (inv swapped 0 2).1 = true ∧
      lead (by decide) swapped * lead (by decide : 2 ≤ 3) (inv swapped 0 2).2 = 1 ∧
      lead (by decide : 2 ≤ 3) (inv swapped 0 2).2 * lead (by decide) swapped = 1 ∧
      ∀ i j : Fin 3, ¬ (i.val < 2 ∧ j.val < 2) →
        (inv swapped 0 2).2 i j = (1 : Matrix (Fin 3) (Fin 3) ℚ) i j := by
  have hsucceeds : (inv swapped 0 2).1 = true := by decide +kernel
  exact ⟨hsucceeds, (inv_correct (by decide) swapped 0).1 hsucceeds⟩

end Order

end RT1064.Mat
