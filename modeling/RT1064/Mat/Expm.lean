import Mathlib.Algebra.Polynomial.AlgebraMap
import Mathlib.FieldTheory.Minpoly.Field
import Mathlib.LinearAlgebra.Matrix.Charpoly.Minpoly
import RT1064.Mat.Basic

/-!
# Matrix exponential

The series that `expm` adds up, beside the exponential series. The running power is multiplied by
itself, not by the argument, and the running factorial is a word of the machine.
-/

namespace RT1064.Mat

open Core Nat Polynomial

variable {K : Type*} {M : ℕ}

/-! ### The loop -/

section Model

variable [Field K]

/-- The variables of `expm`. -/
structure Expm (K : Type*) (M : ℕ) where
  res : Matrix (Fin M) (Fin M) K
  A_pow : Matrix (Fin M) (Fin M) K
  i_factorial : ℕ

/-- The round `i`, which has no exact result if it divides by zero. -/
def expmStep (s : Expm K M) (i : ℕ) : Option (Expm K M) :=
  -- `size_t` is 32 bits wide
  let i_factorial : ℕ := s.i_factorial * i % 2 ^ 32
  if i_factorial = 0 then none
  else some
    { res := s.res + divScalar s.A_pow (i_factorial : K)
      A_pow := mul s.A_pow s.A_pow
      i_factorial := i_factorial }

/-- The rounds `1, …, order`. -/
def expmLoop (A : Matrix (Fin M) (Fin M) K) (order : ℕ) : Option (Expm K M) :=
  (List.range' 1 order).foldlM expmStep { res := 1, A_pow := A, i_factorial := 1 }

/-- `expm(A, order)`. -/
def expm (A : Matrix (Fin M) (Fin M) K) (order : ℕ) : Option (Matrix (Fin M) (Fin M) K) :=
  (expmLoop A order).map Expm.res

/-- The exponential series up to the power `order`. -/
def expSeries (A : Matrix (Fin M) (Fin M) K) (order : ℕ) : Matrix (Fin M) (Fin M) K :=
  ∑ i ∈ Finset.range (order + 1), (1 / (i ! : K)) • A ^ i

end Model

/-! ### The running factorial -/

lemma factorial_mod_ne_zero {n : ℕ} (h : n < 34) : n ! % 2 ^ 32 ≠ 0 := by
  revert n
  decide +kernel

/-- From `34!` on the word is zero. -/
lemma factorial_mod_eq_zero {n : ℕ} (h : 34 ≤ n) : n ! % 2 ^ 32 = 0 := by
  have hword : 2 ^ 32 ∣ 34 ! := by decide +kernel
  exact Nat.mod_eq_zero_of_dvd (hword.trans (factorial_dvd_factorial h))

lemma factorial_mod_succ (n : ℕ) : n ! % 2 ^ 32 * (1 + n) % 2 ^ 32 = (n + 1)! % 2 ^ 32 := by
  rw [Nat.mod_mul_mod, factorial_succ, add_comm n 1, mul_comm]

/-! ### What the loop adds up -/

section Loop

variable [Field K]

/-- The round `i` adds this multiple of this power. -/
def addend (A : Matrix (Fin M) (Fin M) K) (i : ℕ) : Matrix (Fin M) (Fin M) K :=
  (1 / ((i + 1)! % 2 ^ 32 : ℕ) : K) • A ^ 2 ^ i

lemma expmStep_of_lt {A res : Matrix (Fin M) (Fin M) K} {n : ℕ} (h : n + 1 < 34) :
    expmStep { res := res, A_pow := A ^ 2 ^ n, i_factorial := n ! % 2 ^ 32 } (1 + n) =
      some
        { res := res + addend A n
          A_pow := A ^ 2 ^ (n + 1)
          i_factorial := (n + 1)! % 2 ^ 32 } := by
  simp only [expmStep, factorial_mod_succ, if_neg (factorial_mod_ne_zero h), mul_eq,
    divScalar_eq_smul, ← pow_add, ← two_mul, ← pow_succ']
  rfl

lemma expmStep_of_ge {A res : Matrix (Fin M) (Fin M) K} {n : ℕ} (h : 34 ≤ n + 1) :
    expmStep { res := res, A_pow := A, i_factorial := n ! % 2 ^ 32 } (1 + n) = none := by
  rw [expmStep]
  simp only [factorial_mod_succ, if_pos (factorial_mod_eq_zero h)]

lemma expmLoop_succ (A : Matrix (Fin M) (Fin M) K) (n : ℕ) :
    expmLoop A (n + 1) = (expmLoop A n).bind fun s => expmStep s (1 + n) := by
  rw [expmLoop, List.range'_concat, List.foldlM_append, one_mul, expmLoop]
  simp

/-- The state after `n` rounds. -/
lemma expmLoop_of_lt (A : Matrix (Fin M) (Fin M) K) {n : ℕ} (h : n < 34) :
    expmLoop A n =
      some
        { res := 1 + ∑ i ∈ Finset.range n, addend A i
          A_pow := A ^ 2 ^ n
          i_factorial := n ! % 2 ^ 32 } := by
  induction n with
  | zero => simp [expmLoop]
  | succ n ih =>
    rw [expmLoop_succ, ih (Nat.lt_of_succ_lt h), Option.bind_some, expmStep_of_lt h,
      Finset.sum_range_succ, add_assoc]

lemma expmLoop_of_ge (A : Matrix (Fin M) (Fin M) K) {n : ℕ} (h : 34 ≤ n) :
    expmLoop A n = none := by
  induction n, h using Nat.le_induction with
  | base =>
    rw [expmLoop_succ, expmLoop_of_lt A (Nat.lt_succ_self 33), Option.bind_some]
    exact expmStep_of_ge le_rfl
  | succ n _ ih => rw [expmLoop_succ, ih, Option.bind_none]

end Loop

/-! ### Where the sum is the exponential series -/

section Defect

variable [Field K]

variable (K) in
/-- The sum of the loop less the exponential series, as a polynomial in the argument. -/
noncomputable def expDefect (order : ℕ) : K[X] :=
  ∑ i ∈ Finset.range order,
    (C (1 / ((i + 1)! % 2 ^ 32 : ℕ) : K) * X ^ 2 ^ i - C (1 / ((i + 1)! : K)) * X ^ (i + 1))

lemma aeval_expDefect (A : Matrix (Fin M) (Fin M) K) (order : ℕ) :
    aeval A (expDefect K order) =
      1 + ∑ i ∈ Finset.range order, addend A i - expSeries A order := by
  have hseries : expSeries A order =
      1 + ∑ i ∈ Finset.range order, (1 / ((i + 1)! : K)) • A ^ (i + 1) := by
    rw [expSeries, Finset.sum_range_succ', add_comm]
    simp
  rw [hseries, add_sub_add_left_eq_sub, ← Finset.sum_sub_distrib, expDefect, map_sum]
  simp only [map_sub, map_mul, map_pow, aeval_C, aeval_X, ← Algebra.smul_def, addend]

/-- For one argument the loop adds up the series if and only if the argument is a root of the
difference. -/
lemma expm_eq_expSeries_iff (A : Matrix (Fin M) (Fin M) K) (order : ℕ) :
    expm A order = some (expSeries A order) ↔ order < 34 ∧ minpoly K A ∣ expDefect K order := by
  rw [minpoly.dvd_iff, aeval_expDefect, sub_eq_zero, expm]
  rcases lt_or_ge order 34 with h | h
  · rw [expmLoop_of_lt A h, Option.map_some, Option.some.injEq]
    exact (and_iff_right h).symm
  · rw [expmLoop_of_ge A h, Option.map_none]
    constructor
    · intro hnone
      exact absurd hnone.symm (Option.some_ne_none _)
    · intro hlt
      exact absurd hlt.1 (not_lt.2 h)

/-- The first three terms are those of the series. -/
lemma expDefect_of_le {order : ℕ} (h : order ≤ 2) : expDefect K order = 0 := by
  interval_cases order <;> simp [expDefect, Finset.sum_range_succ]

variable [LinearOrder K] [IsStrictOrderedRing K]

/-- At `2` no term of the loop is below that of the series. -/
lemma expDefect_term_nonneg {i : ℕ} (h : i + 1 < 34) :
    0 ≤ 1 / ((i + 1)! % 2 ^ 32 : ℕ) * (2 : K) ^ 2 ^ i - 1 / ((i + 1)! : K) * 2 ^ (i + 1) := by
  have hword : (0 : K) < ((i + 1)! % 2 ^ 32 : ℕ) :=
    cast_pos.2 (Nat.pos_of_ne_zero (factorial_mod_ne_zero h))
  have hle : (((i + 1)! % 2 ^ 32 : ℕ) : K) ≤ (i + 1)! := cast_le.2 (Nat.mod_le _ _)
  have hpow : (2 : K) ^ (i + 1) ≤ 2 ^ 2 ^ i := pow_le_pow_right₀ one_le_two Nat.lt_two_pow_self
  rw [sub_nonneg]
  exact mul_le_mul (one_div_le_one_div_of_le hword hle) hpow (by positivity)
    (one_div_pos.2 hword).le

/-- From the fourth term on the number `2` is no root. -/
lemma eval_expDefect_pos {order : ℕ} (h : 3 ≤ order) (hlt : order < 34) :
    0 < (expDefect K order).eval 2 := by
  rw [expDefect, eval_finsetSum]
  simp only [eval_sub, eval_mul, eval_C, eval_pow, eval_X]
  apply Finset.sum_pos'
  · intro i hi
    exact expDefect_term_nonneg (lt_of_le_of_lt (Finset.mem_range.1 hi) hlt)
  · refine ⟨2, Finset.mem_range.2 h, ?_⟩
    have hsix : (2 + 1)! % 2 ^ 32 = 6 := rfl
    have hsix' : (2 + 1)! = 6 := rfl
    rw [hsix, hsix']
    norm_num

/-- The loop adds up the series for the arguments whose minimal polynomial divides the
difference, and for all arguments exactly up to the order 2. -/
theorem expm_eq_iff (order : ℕ) :
    (∀ (M : ℕ) (A : Matrix (Fin M) (Fin M) K),
      expm A order = some (expSeries A order) ↔
        order < 34 ∧ minpoly K A ∣ expDefect K order) ∧
      ((∀ (M : ℕ) (A : Matrix (Fin M) (Fin M) K),
        expm A order = some (expSeries A order)) ↔ order ≤ 2) := by
  refine ⟨fun M A => expm_eq_expSeries_iff A order, ?_⟩
  constructor
  · intro h
    by_contra hgt
    -- the matrix whose only entry is `2`
    have htwo := h 1 (algebraMap K _ 2)
    rw [expm_eq_expSeries_iff, minpoly.dvd_iff, aeval_algebraMap_apply_eq_algebraMap_eval] at htwo
    have hroot : (expDefect K order).eval 2 = 0 :=
      (map_eq_zero_iff _ (algebraMap K (Matrix (Fin 1) (Fin 1) K)).injective).1 htwo.2
    exact (eval_expDefect_pos (not_le.1 hgt) htwo.1).ne' hroot
  · intro h M A
    rw [expm_eq_expSeries_iff, expDefect_of_le h]
    exact ⟨lt_of_le_of_lt h (by decide), dvd_zero _⟩

/-- The fourth term of the loop at the number `2` is `2 ^ 4 / 3!`. -/
theorem expm_two : expm !![(2 : ℚ)] 3 ≠ some (expSeries !![(2 : ℚ)] 3) := by
  decide +kernel

/-- All powers of the identity are the same, so the loop adds up its exponential. -/
theorem expm_one : expm (1 : Matrix (Fin 2) (Fin 2) ℚ) 5 = some (expSeries 1 5) := by
  have hroot : aeval (1 : Matrix (Fin 2) (Fin 2) ℚ) (expDefect ℚ 5) = 0 := by
    have heval : (expDefect ℚ 5).eval 1 = 0 := by
      norm_num [expDefect, Finset.sum_range_succ, factorial]
    rw [← map_one (algebraMap ℚ (Matrix (Fin 2) (Fin 2) ℚ)),
      aeval_algebraMap_apply_eq_algebraMap_eval, heval, map_zero]
  exact ((expm_eq_iff 5).1 2 1).2 ⟨by decide, minpoly.dvd ℚ 1 hroot⟩

end Defect

end RT1064.Mat
