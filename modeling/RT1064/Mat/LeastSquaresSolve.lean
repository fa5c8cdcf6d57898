import RT1064.Core.Triangular
import RT1064.Mat.LeastSquares

/-!
# The solutions of least squares

The rounds of the constructor triangularise the matrix by an orthogonal matrix, which `qtb` replays
from what is stored, and the back substitution solves the triangular equations.
-/

namespace RT1064.Mat

open Core Matrix

variable {M N : ℕ}

namespace LeastSquaresSolver

/-! ### The factorisation -/

section Factored

variable (s : LeastSquaresSolver ℝ M N) (j : Fin N)

lemma householder_dotProduct_of_above {y : Fin M → ℝ} (h : ∀ i : Fin M, j.val ≤ i.val → y i = 0) :
    householder (s.tail j) (s.row j) (s.u1 j) ⬝ᵥ y = 0 := by
  refine Finset.sum_eq_zero fun i _ => ?_
  rcases lt_or_ge i.val j.val with hi | hi
  · rw [householder_of_ne, s.tail_above j hi, zero_div, zero_mul]
    rintro rfl
    exact lt_irrefl _ hi
  · rw [h i hi, mul_zero]

/-- A reflection leaves alone what is above the diagonal. -/
lemma reflection_mulVec_of_above {y : Fin M → ℝ} (h : ∀ i : Fin M, j.val ≤ i.val → y i = 0) :
    s.reflection j *ᵥ y = y :=
  reflector_mulVec_of_dotProduct _ (s.householder_dotProduct_of_above j h)

variable {s j}

lemma reflection_mul_self (h : 0 < s.normx j) : s.reflection j * s.reflection j = 1 := by
  apply reflector_mul_self
  refine tau_mul_householder (s.sign_sq j) ?_ (s.u1_ne_zero j h) h.ne' (s.normx_sq j)
  rw [s.tail_row j]
  rfl

/-- The reflection takes the column to the axis of the diagonal. -/
lemma reflection_mulVec_tail (h : 0 < s.normx j) (i : Fin M) :
    (s.reflection j *ᵥ s.tail j) i = if i = s.row j then s.sign j * s.normx j else 0 := by
  refine reflector_householder (s.sign_sq j) ?_ (s.u1_ne_zero j h) h.ne' (s.normx_sq j) i
  rw [s.tail_row j]
  rfl

lemma reflection_mulVec_col (h : 0 < s.normx j) (i : Fin M) :
    (s.reflection j *ᵥ s.A.col j) i =
      if i.val < j.val then s.A i j else if i = s.row j then s.sign j * s.normx j else 0 := by
  have hsplit : s.A.col j = (s.A.col j - s.tail j) + s.tail j := (sub_add_cancel _ _).symm
  have habove : ∀ i : Fin M, j.val ≤ i.val → (s.A.col j - s.tail j) i = 0 := by
    intro i hi
    rw [Pi.sub_apply, tail, if_pos hi]
    exact sub_self _
  rw [hsplit, mulVec_add, s.reflection_mulVec_of_above j habove, Pi.add_apply,
    reflection_mulVec_tail h]
  rcases lt_or_ge i.val j.val with hi | hi
  · have hrow : i ≠ s.row j := by
      rintro rfl
      exact lt_irrefl _ hi
    rw [if_pos hi, if_neg hrow, Pi.sub_apply, s.tail_above j hi, sub_zero, add_zero]
    rfl
  · rw [habove i hi, zero_add, if_neg (not_lt.2 hi)]

/-- The solver after the columns before `j`. The matrix `Q` takes what the solver was built from
to what it holds, and `qtb` multiplies by `Q`. -/
structure Factored (A₀ : Matrix (Fin M) (Fin N) ℝ) (j : ℕ) (s : LeastSquaresSolver ℝ M N)
    (Q : Matrix (Fin M) (Fin M) ℝ) : Prop where
  orthogonal : Qᵀ * Q = 1
  triangular : ∀ i k, (Q * A₀) i k = if k.val < j ∧ k.val < i.val then 0 else s.A i k
  replay : ∀ b, (indices 0 j).foldl (fun q l => reflectVector (s.stored l) (s.tau l) l q) b =
    Q *ᵥ b

lemma factored_start (h : N ≤ M) (A : Matrix (Fin M) (Fin N) ℝ) :
    Factored A 0 { le := h, A := A, tau := 0 } 1 := by
  refine ⟨?_, ?_, ?_⟩
  · rw [transpose_one, Matrix.one_mul]
  · intro i k
    rw [if_neg fun hk => Nat.not_lt_zero _ hk.1, Matrix.one_mul]
  · intro b
    rw [indices_of_le le_rfl, one_mulVec]
    rfl

variable {A₀ : Matrix (Fin M) (Fin N) ℝ} {s' : LeastSquaresSolver ℝ M N}
  {Q : Matrix (Fin M) (Fin M) ℝ}

/-- What is stored in a column is replayed as the reflection of the column. -/
lemma Reflected.spread_stored (h : s.Reflected j s') :
    spread (s'.stored j) j = householder (s.tail j) (s.row j) (s.u1 j) := by
  refine spread_eq_householder (x := fun i => s'.A i j) rfl (stored_self s' rfl)
    (fun i hi => stored_offset s' hi) ?_ fun i hi => s.tail_above j hi
  intro i hi
  rw [s.tail_below j hi]
  exact h.below i hi

lemma Reflected.stored_of_lt (h : s.Reflected j s') {l : Fin N} (hl : l < j) :
    s'.stored l = s.stored l := by
  have hcol : ∀ i, s'.A i l = s.A i l := fun i => h.left i l hl
  rw [stored, stored]
  simp only [hcol]

/-- One more column. -/
lemma Factored.reflect (hs : Factored A₀ j.val s Q) (h : s.Reflected j s')
    (hnormx : 0 < s.normx j) : Factored A₀ (j.val + 1) s' (s.reflection j * Q) := by
  have hcol : ∀ k, (s.reflection j * Q * A₀).col k = s.reflection j *ᵥ (Q * A₀).col k := by
    intro k
    rw [Matrix.mul_assoc]
    rfl
  refine ⟨?_, ?_, ?_⟩
  · have hself : (s.reflection j)ᵀ * s.reflection j = 1 := by
      rw [reflection, reflector_transpose]
      exact reflection_mul_self hnormx
    rw [transpose_mul, Matrix.mul_assoc, ← Matrix.mul_assoc _ (s.reflection j), hself,
      Matrix.one_mul, hs.orthogonal]
  · intro i k
    have hentry : (s.reflection j * Q * A₀) i k = (s.reflection j *ᵥ (Q * A₀).col k) i :=
      congrFun (hcol k) i
    rw [hentry]
    rcases lt_trichotomy k j with hk | rfl | hk
    · rw [s.reflection_mulVec_of_above j, h.left i k hk]
      · refine (hs.triangular i k).trans (if_congr ?_ rfl rfl)
        exact and_congr_left fun _ => iff_of_true hk (Nat.lt_succ_of_lt hk)
      · intro i hi
        exact (hs.triangular i k).trans (if_pos ⟨hk, lt_of_lt_of_le hk hi⟩)
    · have hsame : (Q * A₀).col k = s.A.col k := by
        ext i
        exact (hs.triangular i k).trans (if_neg fun hlt => lt_irrefl _ hlt.1)
      rw [hsame, reflection_mulVec_col hnormx]
      rcases lt_trichotomy i.val k.val with hi | hi | hi
      · rw [if_pos hi, if_neg fun hlt => hi.asymm hlt.2, h.above i hi]
      · obtain rfl : i = s.row k := Fin.ext hi
        have hnot : ¬ (k.val < k.val + 1 ∧ k.val < (s.row k).val) := fun hlt => hlt.2.ne hi.symm
        rw [if_neg hi.not_lt, if_pos rfl, if_neg hnot, h.diag]
      · rw [if_neg hi.asymm, if_neg, if_pos ⟨Nat.lt_succ_self _, hi⟩]
        rintro rfl
        exact lt_irrefl _ hi
    · have hsame : (Q * A₀).col k = s.A.col k := by
        ext i
        exact (hs.triangular i k).trans (if_neg fun hlt => hk.asymm hlt.1)
      have hnot : ¬ (k.val < j.val + 1 ∧ k.val < i.val) := fun hlt =>
        absurd (Nat.lt_succ_iff.1 hlt.1) (not_le.2 hk)
      rw [hsame, ← h.right k hk, if_neg hnot]
      rfl
  · intro b
    have hprefix : (indices 0 j.val).foldl
        (fun q l => reflectVector (s'.stored l) (s'.tau l) l q) b = Q *ᵥ b := by
      rw [← hs.replay b]
      refine List.foldl_ext _ _ _ fun q l hl => ?_
      have hlj : l < j := (mem_indices.1 hl).2
      rw [h.stored_of_lt hlj, h.tau, Function.update_of_ne hlj.ne]
    rw [indices_succ j (Nat.zero_le _), List.foldl_concat, hprefix, reflectVector_eq,
      h.spread_stored, h.tau, Function.update_self, ← mulVec_mulVec]
    rfl

end Factored

/-! ### The rounds -/

section Rounds

variable {s : LeastSquaresSolver ℝ M N} {j : Fin N}

lemma columns_of_lt (js : List (Fin N)) (h : s.normx j < tiny) :
    columns (j :: js) s = some s := by
  rw [columns, column_of_lt h]

lemma columns_of_eq {s' : LeastSquaresSolver ℝ M N} (js : List (Fin N))
    (h : s.column j = some (s', true)) : columns (j :: js) s = columns js s' := by
  rw [columns, h]

lemma forall_norms_of_lt (js : List (Fin N)) (h : s.normx j < tiny) :
    ¬ ∀ n ∈ norms (j :: js) s, tiny < n :=
  fun hall => (hall _ List.mem_cons_self).asymm h

lemma forall_norms_of_eq {s' : LeastSquaresSolver ℝ M N} (js : List (Fin N))
    (h : s.column j = some (s', true)) :
    (∀ n ∈ norms (j :: js) s, tiny < n) ↔ tiny < s.normx j ∧ ∀ n ∈ norms js s', tiny < n := by
  rw [norms, h, List.forall_mem_cons]

lemma Reflected.abs_diag {s' : LeastSquaresSolver ℝ M N} (h : s.Reflected j s')
    (hnormx : 0 < s.normx j) : |s'.A (s'.row j) j| = s.normx j := by
  have hsign : |s.sign j| = 1 := (abs_eq zero_le_one).2 (sq_eq_one_iff.1 (s.sign_sq j))
  have hdiag : s'.A (s'.row j) j = s.sign j * s.normx j := h.diag
  rw [hdiag, abs_mul, hsign, one_mul, abs_of_pos hnormx]

/-- What the rounds from the column `j` on make of the solver `s`. -/
structure Rounds (A₀ : Matrix (Fin M) (Fin N) ℝ) (j : ℕ) (s s' : LeastSquaresSolver ℝ M N) :
    Prop where
  left : ∀ i k, k.val < j → s'.A i k = s.A i k
  clear : (∀ n ∈ norms (indices j N) s, tiny < n) → ∃ Q, Factored A₀ N s' Q ∧
    ∀ l : Fin N, j ≤ l.val → tiny < |s'.A (s'.row l) l|
  small : ¬ (∀ n ∈ norms (indices j N) s, tiny < n) → ∃ l, |s'.A (s'.row l) l| ≤ tiny

variable {A₀ : Matrix (Fin M) (Fin N) ℝ} {Q : Matrix (Fin M) (Fin M) ℝ}

lemma Rounds.of_lt (h : s.normx j < tiny) : Rounds A₀ j.val s s := by
  have hnorms : ¬ ∀ n ∈ norms (indices j.val N) s, tiny < n := by
    rw [indices_cons j j.isLt]
    exact forall_norms_of_lt _ h
  exact ⟨fun _ _ _ => rfl, fun hall => absurd hall hnorms,
    fun _ => ⟨j, (s.abs_le_normx j).trans h.le⟩⟩

/-- The columns on the right do not touch the diagonal that a round leaves. -/
lemma Rounds.cons {s' s'' : LeastSquaresSolver ℝ M N} (hcolumn : s.column j = some (s', true))
    (h : s.Reflected j s') (hnormx : 0 < s.normx j) (hs : Rounds A₀ (j.val + 1) s' s'') :
    Rounds A₀ j.val s s'' := by
  have hdiag : |s''.A (s''.row j) j| = s.normx j := by
    rw [hs.left _ j (Nat.lt_succ_self _), ← h.abs_diag hnormx]
    rfl
  have hnorms : (∀ n ∈ norms (indices j.val N) s, tiny < n) ↔
      tiny < s.normx j ∧ ∀ n ∈ norms (indices (j.val + 1) N) s', tiny < n := by
    rw [indices_cons j j.isLt]
    exact forall_norms_of_eq _ hcolumn
  refine ⟨?_, ?_, ?_⟩
  · intro i k hk
    rw [hs.left i k (Nat.lt_succ_of_lt hk), h.left i k hk]
  · intro hall
    obtain ⟨hj, hall⟩ := hnorms.1 hall
    obtain ⟨Q, hQ, hclear⟩ := hs.clear hall
    refine ⟨Q, hQ, fun l hl => ?_⟩
    rcases eq_or_lt_of_le hl with heq | hlt
    · obtain rfl := Fin.ext heq
      rw [hdiag]
      exact hj
    · exact hclear l hlt
  · intro hall
    rcases le_or_gt (s.normx j) tiny with hj | hj
    · exact ⟨j, hdiag.le.trans hj⟩
    · exact hs.small fun hrest => hall (hnorms.2 ⟨hj, hrest⟩)

/-- The rounds from the column `j` on do not divide by zero, however they end. -/
lemma columns_rounds (d j : ℕ) (hj : j + d = N) (s : LeastSquaresSolver ℝ M N)
    (hs : Factored A₀ j s Q) :
    ∃ s', columns (indices j N) s = some s' ∧ Rounds A₀ j s s' := by
  induction d generalizing j s Q with
  | zero =>
    obtain rfl : j = N := hj
    rw [indices_of_le le_rfl]
    refine ⟨s, rfl, fun _ _ _ => rfl, fun _ => ⟨Q, hs, fun l hl => ?_⟩, fun hall => ?_⟩
    · exact absurd l.isLt (not_lt.2 hl)
    · rw [indices_of_le le_rfl] at hall
      exact absurd (fun n hn => absurd hn List.not_mem_nil) hall
  | succ d ih =>
    obtain ⟨j, rfl⟩ : ∃ l : Fin N, l.val = j := ⟨⟨j, by omega⟩, rfl⟩
    by_cases h : s.normx j < tiny
    · refine ⟨s, ?_, Rounds.of_lt h⟩
      rw [indices_cons j j.isLt, columns_of_lt _ h]
    · obtain ⟨s', hcolumn, hreflected⟩ := column_of_ge h
      have hnormx : 0 < s.normx j := lt_of_lt_of_le tiny_pos (not_lt.1 h)
      obtain ⟨s'', hcolumns, hrounds⟩ :=
        ih (j.val + 1) (by omega) s' (hs.reflect hreflected hnormx)
      refine ⟨s'', ?_, hrounds.cons hcolumn hreflected hnormx⟩
      rw [indices_cons j j.isLt, columns_of_eq _ hcolumn, hcolumns]

end Rounds

/-! ### The back substitution -/

section Substitution

variable (s : LeastSquaresSolver ℝ M N) (qtbv : Fin M → ℝ) {i : ℕ} (x : Fin N → ℝ)

lemma substitute_eq (i : Fin N) :
    s.substitute qtbv x i = Function.update x i
      (qtbv (s.row i) - ∑ r with i.val + 1 ≤ r.val ∧ r.val < N, s.A (s.row i) r * x r) := by
  refine (subtractTerms_indices (s.A.submatrix s.row id) (.inl (Nat.lt_succ_self _)) _).trans ?_
  rw [Function.update_idem, Function.update_self, sum_mul_update_of_not_mem]
  · rfl
  · simp only [Finset.mem_filter, Finset.mem_univ, true_and, not_and]
    exact fun h => absurd h (Nat.not_succ_le_self _)

lemma foldl_zero : (indices 0 N).foldl (fun x z => Function.update x z 0) x = 0 := by
  ext i
  refine foldl_once (fun x : Fin N → ℝ => x i) (fun _ => (0 : ℝ)) (v := id) (nodup_indices _ _)
    (mem_indices.2 ⟨Nat.zero_le _, i.isLt⟩) ?_ (fun _ _ _ _ => rfl) ?_ x
  · intro x z _ hz
    exact Function.update_of_ne hz.symm _ _
  · intro x
    exact Function.update_self _ _ _

lemma isEqualF_zero_iff (a : ℝ) : isEqualF a 0 tiny = true ↔ |a| ≤ tiny := by
  rw [isEqualF, decide_eq_true_iff, sub_zero]

/-- A round of the loop that finds nothing to divide by. -/
lemma solveLoop_of_le (fuel : ℕ) (h : i < N) (hsmall : |s.A (s.row ⟨i, h⟩) ⟨i, h⟩| ≤ tiny) :
    solveLoop s qtbv (fuel + 1) i x = some 0 := by
  rw [solveLoop, dif_pos h, if_pos ((isEqualF_zero_iff _).2 hsmall), foldl_zero]

/-- The right-hand side of the equation `i` without the known terms, over the diagonal. -/
noncomputable def solved (i : Fin N) : ℝ :=
  (qtbv (s.row i) - ∑ r with i.val + 1 ≤ r.val ∧ r.val < N, s.A (s.row i) r * x r) /
    s.A (s.row i) i

/-- A round of the loop that goes on divides by a number that is not zero. -/
lemma solveLoop_of_lt (fuel : ℕ) (h : i < N)
    (hlarge : tiny < |s.A (s.row ⟨i, h⟩) ⟨i, h⟩|) :
    solveLoop s qtbv (fuel + 1) i x =
      solveLoop s qtbv fuel ((i + (2 ^ 32 - 1)) % 2 ^ 32)
        (Function.update x ⟨i, h⟩ (s.solved qtbv x ⟨i, h⟩)) := by
  have hne : s.A (s.row ⟨i, h⟩) ⟨i, h⟩ ≠ 0 := abs_pos.1 (tiny_pos.trans hlarge)
  have hnot : ¬ isEqualF (s.A (s.row ⟨i, h⟩) ⟨i, h⟩) 0 tiny = true :=
    fun heq => absurd ((isEqualF_zero_iff _).1 heq) (not_le.2 hlarge)
  rw [solveLoop, dif_pos h, if_neg hnot, divide_of_ne_zero _ hne, Option.bind_some, substitute_eq,
    Function.update_self, Function.update_idem]
  rfl

/-- The index after `0` is the last one that fits, and the loop ends there. -/
lemma solveLoop_wrap (hN : N < 2 ^ 32) (fuel : ℕ) :
    solveLoop s qtbv (fuel + 1) ((0 + (2 ^ 32 - 1)) % 2 ^ 32) x = some x := by
  rw [solveLoop, dif_neg]
  omega

lemma pred_wrap (h : i + 1 < 2 ^ 32) : (i + 1 + (2 ^ 32 - 1)) % 2 ^ 32 = i := by
  omega

/-- The loop returns zero if one of the numbers that it divides by is too small. -/
lemma solveLoop_small (hN : N < 2 ^ 32) (h : i < N)
    (hsmall : ∃ l : Fin N, l.val ≤ i ∧ |s.A (s.row l) l| ≤ tiny) {fuel : ℕ} (hfuel : i < fuel) :
    solveLoop s qtbv fuel i x = some 0 := by
  induction i generalizing fuel x with
  | zero =>
    obtain ⟨fuel, rfl⟩ := Nat.exists_eq_succ_of_ne_zero hfuel.ne'
    obtain ⟨l, hl, hsmall⟩ := hsmall
    obtain rfl : l = ⟨0, h⟩ := Fin.ext (Nat.le_zero.1 hl)
    exact s.solveLoop_of_le qtbv x fuel h hsmall
  | succ i ih =>
    obtain ⟨fuel, rfl⟩ := Nat.exists_eq_succ_of_ne_zero (Nat.ne_zero_of_lt hfuel)
    rcases le_or_gt |s.A (s.row ⟨i + 1, h⟩) ⟨i + 1, h⟩| tiny with hle | hlt
    · exact s.solveLoop_of_le qtbv x fuel h hle
    · obtain ⟨l, hl, hsmall⟩ := hsmall
      have hli : l.val ≠ i + 1 := by
        intro heq
        obtain rfl : l = ⟨i + 1, h⟩ := Fin.ext heq
        exact absurd hsmall (not_le.2 hlt)
      rw [solveLoop_of_lt s qtbv x fuel h hlt, pred_wrap (h.trans hN)]
      exact ih _ (Nat.lt_of_succ_lt h) ⟨l, by omega, hsmall⟩ (Nat.lt_of_succ_lt_succ hfuel)

/-- The solution of the equations up to `i`, whose terms on the right are known. -/
structure Solves (i : ℕ) (x x' : Fin N → ℝ) : Prop where
  known : ∀ l : Fin N, i < l.val → x' l = x l
  solved : ∀ l : Fin N, l.val ≤ i → x' l = s.solved qtbv x' l

variable {s qtbv x}

lemma solved_congr {x' : Fin N → ℝ} {i : Fin N} (h : ∀ l : Fin N, i < l → x' l = x l) :
    s.solved qtbv x' i = s.solved qtbv x i := by
  rw [solved, solved]
  congr 2
  refine Finset.sum_congr rfl fun r hr => ?_
  simp only [Finset.mem_filter, Finset.mem_univ, true_and] at hr
  rw [h r (Fin.lt_def.2 (Nat.lt_of_succ_le hr.1))]

/-- The unknown `i` is solved first, and the rounds for the others keep it. -/
lemma Solves.of_update {i : Fin N} {x' : Fin N → ℝ}
    (known : ∀ l : Fin N, i ≤ l → x' l = Function.update x i (s.solved qtbv x i) l)
    (solved : ∀ l : Fin N, l < i → x' l = s.solved qtbv x' l) : s.Solves qtbv i.val x x' := by
  have hrest : ∀ l : Fin N, i < l → x' l = x l := by
    intro l hl
    rw [known l hl.le, Function.update_of_ne hl.ne']
  refine ⟨hrest, fun l hl => ?_⟩
  rcases eq_or_lt_of_le hl with heq | hlt
  · obtain rfl := Fin.ext heq
    rw [known l le_rfl, Function.update_self, solved_congr hrest]
  · exact solved l hlt

variable (s qtbv x) in
/-- The loop solves the equations if the numbers that it divides by are large. -/
lemma solveLoop_solves (hN : N < 2 ^ 32) (h : i < N)
    (hlarge : ∀ l : Fin N, l.val ≤ i → tiny < |s.A (s.row l) l|) :
    ∃ x', (∀ fuel, i + 1 < fuel → solveLoop s qtbv fuel i x = some x') ∧
      s.Solves qtbv i x x' := by
  induction i generalizing x with
  | zero =>
    refine ⟨_, fun fuel hfuel => ?_, Solves.of_update (i := ⟨0, h⟩) (fun _ _ => rfl) ?_⟩
    · obtain ⟨fuel, rfl⟩ := Nat.exists_eq_add_of_lt hfuel
      rw [solveLoop_of_lt s qtbv x _ h (hlarge _ le_rfl), Nat.add_comm, solveLoop_wrap s qtbv _ hN]
    · intro l hl
      exact absurd hl (Nat.not_lt_zero _)
  | succ i ih =>
    obtain ⟨x', hx', hsolves⟩ := ih (Function.update x ⟨i + 1, h⟩ (s.solved qtbv x ⟨i + 1, h⟩))
      (Nat.lt_of_succ_lt h) fun l hl => hlarge l (Nat.le_succ_of_le hl)
    refine ⟨x', fun fuel hfuel => ?_, Solves.of_update (i := ⟨i + 1, h⟩) ?_ ?_⟩
    · obtain ⟨fuel, rfl⟩ := Nat.exists_eq_succ_of_ne_zero (Nat.ne_zero_of_lt hfuel)
      rw [solveLoop_of_lt s qtbv x fuel h (hlarge _ le_rfl), pred_wrap (h.trans hN)]
      exact hx' fuel (Nat.lt_of_succ_lt_succ hfuel)
    · intro l hl
      exact hsolves.known l (Nat.lt_of_succ_le hl)
    · intro l hl
      exact hsolves.solved l (Nat.le_of_lt_succ hl)

end Substitution

/-! ### The normal equations -/

section NormalEquations

variable {s : LeastSquaresSolver ℝ M N} {A : Matrix (Fin M) (Fin N) ℝ}
  {Q : Matrix (Fin M) (Fin M) ℝ}

lemma Factored.qtb_eq (h : Factored A N s Q) (b : Fin M → ℝ) : s.qtb b = Q *ᵥ b := h.replay b

/-- A triangular equation that is solved. -/
lemma Factored.mulVec_row (h : Factored A N s Q) {b : Fin M → ℝ} {x : Fin N → ℝ} {l : Fin N}
    (hdiag : s.A (s.row l) l ≠ 0) (hx : x l = s.solved (s.qtb b) x l) :
    ((Q * A) *ᵥ x) (s.row l) = (Q *ᵥ b) (s.row l) := by
  have hterm : ∀ k, (Q * A) (s.row l) k * x k =
      (if k = l then s.A (s.row l) l * x l else 0) +
        if l.val + 1 ≤ k.val ∧ k.val < N then s.A (s.row l) k * x k else 0 := by
    intro k
    rw [h.triangular]
    rcases lt_trichotomy k l with hk | rfl | hk
    · rw [if_pos ⟨k.isLt, hk⟩, if_neg hk.ne, if_neg, zero_mul, add_zero]
      exact fun hlt => hk.asymm hlt.1
    · rw [if_neg fun hlt => lt_irrefl _ hlt.2, if_pos rfl, if_neg, add_zero]
      exact fun hlt => Nat.not_succ_le_self _ hlt.1
    · rw [if_neg fun hlt => hk.asymm hlt.2, if_neg hk.ne', if_pos ⟨hk, k.isLt⟩, zero_add]
  have hsum : ((Q * A) *ᵥ x) (s.row l) = s.A (s.row l) l * x l +
      ∑ r with l.val + 1 ≤ r.val ∧ r.val < N, s.A (s.row l) r * x r := by
    rw [Matrix.mulVec, dotProduct, Finset.sum_congr rfl fun k _ => hterm k,
      Finset.sum_add_distrib, Finset.sum_ite_eq' Finset.univ l, if_pos (Finset.mem_univ l),
      Finset.sum_filter]
  rw [hsum, ← h.qtb_eq]
  nth_rewrite 1 [hx]
  rw [solved, mul_div_cancel₀ _ hdiag, sub_add_cancel]

lemma Factored.normal_equations (h : Factored A N s Q) {b : Fin M → ℝ} {x : Fin N → ℝ}
    (hdiag : ∀ l : Fin N, s.A (s.row l) l ≠ 0)
    (hx : ∀ l : Fin N, x l = s.solved (s.qtb b) x l) : Aᵀ *ᵥ (A *ᵥ x - b) = 0 := by
  refine transpose_mulVec_eq_zero h.orthogonal fun i k hik => ?_
  have hle : i.val ≤ k.val := by
    by_contra hlt
    exact hik ((h.triangular i k).trans (if_pos ⟨k.isLt, not_le.1 hlt⟩))
  obtain ⟨l, rfl⟩ : ∃ l : Fin N, s.row l = i := ⟨⟨i, lt_of_le_of_lt hle k.isLt⟩, rfl⟩
  rw [mulVec_sub, Pi.sub_apply, mulVec_mulVec, h.mulVec_row (hdiag l) (hx l), sub_self]

end NormalEquations

end LeastSquaresSolver

open LeastSquaresSolver

/-- The constructor and `solve` end without a division by zero. The result solves the normal
equations if each norm that the constructor computes exceeds the threshold, and is zero
otherwise. -/
theorem solve_normal_equations (h : N ≤ M) (hN : 0 < N) (hsize : N < 2 ^ 32)
    (A : Matrix (Fin M) (Fin N) ℝ) (b : Fin M → ℝ) :
    ∃ s x, construct h A = some s ∧ (∀ fuel, N < fuel → s.solve b fuel = some x) ∧
      ((∀ n ∈ norms (indices 0 N) { le := h, A := A, tau := 0 }, tiny < n) →
        Aᵀ *ᵥ (A *ᵥ x - b) = 0) ∧
      (¬ (∀ n ∈ norms (indices 0 N) { le := h, A := A, tau := 0 }, tiny < n) → x = 0) := by
  have hlast : N - 1 < N := Nat.pred_lt hN.ne'
  obtain ⟨s, hs, hrounds⟩ :=
    columns_rounds N 0 (zero_add N) { le := h, A := A, tau := 0 } (factored_start h A)
  by_cases hnorms : ∀ n ∈ norms (indices 0 N) { le := h, A := A, tau := 0 }, tiny < n
  · obtain ⟨Q, hQ, hclear⟩ := hrounds.clear hnorms
    obtain ⟨x, hx, hsolves⟩ := solveLoop_solves s (s.qtb b) 0 hsize hlast
      fun l _ => hclear l (Nat.zero_le _)
    refine ⟨s, x, hs, fun fuel hfuel => hx fuel (by omega), fun _ => ?_, fun hnot => ?_⟩
    · refine hQ.normal_equations (fun l => ?_) fun l => ?_
      · exact abs_pos.1 (tiny_pos.trans (hclear l (Nat.zero_le _)))
      · exact hsolves.solved l (Nat.le_pred_of_lt l.isLt)
    · exact absurd hnorms hnot
  · obtain ⟨l, hl⟩ := hrounds.small hnorms
    refine ⟨s, 0, hs, fun fuel hfuel => ?_, fun hall => absurd hall hnorms, fun _ => rfl⟩
    exact solveLoop_small s (s.qtb b) 0 hsize hlast ⟨l, Nat.le_pred_of_lt l.isLt, hl⟩ (by omega)

theorem solve_normal_equations_line :
    ∃ s x, construct one_le_two (!![3; 4] : Matrix (Fin 2) (Fin 1) ℝ) = some s ∧
      (∀ fuel, 1 < fuel → s.solve ![1, 2] fuel = some x) ∧
      !![3; 4]ᵀ *ᵥ (!![3; 4] *ᵥ x - ![1, 2]) = (0 : Fin 1 → ℝ) := by
  obtain ⟨s, x, hs, hx, hequations, _⟩ :=
    solve_normal_equations one_le_two one_pos (by norm_num) !![3; 4] ![1, 2]
  refine ⟨s, x, hs, hx, hequations ?_⟩
  set start : LeastSquaresSolver ℝ 2 1 := { le := one_le_two, A := !![3; 4], tau := 0 }
  have hlarge : tiny < start.normx 0 := by
    have hentry : start.A (start.row 0) 0 = 3 := rfl
    refine lt_of_lt_of_le ?_ (start.abs_le_normx 0)
    rw [hentry, tiny]
    norm_num
  obtain ⟨s', hcolumn, _⟩ := column_of_ge hlarge.not_gt
  exact (forall_norms_of_eq [] hcolumn).2 ⟨hlarge, fun n hn => absurd hn List.not_mem_nil⟩

end RT1064.Mat
