import Mathlib.LinearAlgebra.Matrix.Trace
import RT1064.Core.Loop

/-!
# Elimination with a threshold

Gaussian elimination that takes the corner as a pivot unless it is below a threshold, and then the
first row whose entry is above it. The file says on what matrices it runs to its end: it does if
the matrix is bounded from below by the threshold, and it does not if all entries are below it.
-/

namespace RT1064.Core

open Matrix

variable {K : Type*} [Field K] {n : ℕ}

/-! ### The elimination -/

/-- What is left of a matrix after its first row is subtracted from the others. -/
def schur (A : Matrix (Fin (n + 1)) (Fin (n + 1)) K) : Matrix (Fin n) (Fin n) K :=
  fun i j => A i.succ j.succ - A i.succ 0 / A 0 0 * A 0 j.succ

section Order

variable [LinearOrder K]

/-- The row of the pivot. -/
def pivotRow (ε : K) (A : Matrix (Fin (n + 1)) (Fin (n + 1)) K) : Option (Fin (n + 1)) :=
  if |A 0 0| < ε then (indices 1 (n + 1)).find? fun i => ε < |A i 0| else some 0

/-- The elimination finds a pivot for every column. -/
def Eliminates (ε : K) : {n : ℕ} → Matrix (Fin n) (Fin n) K → Prop
  | 0, _ => True
  | _ + 1, A =>
    match pivotRow ε A with
    | some p => Eliminates ε (schur (A.submatrix (Equiv.swap p 0) id))
    | none => False

variable {ε : K} {A : Matrix (Fin (n + 1)) (Fin (n + 1)) K}

lemma eliminates_of_pivotRow {p : Fin (n + 1)} (h : pivotRow ε A = some p) :
    Eliminates ε A ↔ Eliminates ε (schur (A.submatrix (Equiv.swap p 0) id)) := by
  rw [Eliminates, h]

lemma not_eliminates_of_pivotRow (h : pivotRow ε A = none) : ¬ Eliminates ε A := by
  rw [Eliminates, h]
  exact not_false

/-- A corner that is not below the threshold is the pivot. -/
lemma eliminates_of_le (h : ε ≤ |A 0 0|) : Eliminates ε A ↔ Eliminates ε (schur A) := by
  have hpivot : pivotRow ε A = some 0 := if_neg (not_lt.2 h)
  rw [eliminates_of_pivotRow hpivot, Equiv.swap_self]
  rfl

/-- If all the entries of a matrix are small there is no pivot. -/
lemma not_eliminates_of_lt {A : Matrix (Fin n) (Fin n) K} (hn : 0 < n)
    (h : ∀ i j, |A i j| < ε) : ¬ Eliminates ε A := by
  cases n with
  | zero => exact absurd hn (lt_irrefl 0)
  | succ n =>
    apply not_eliminates_of_pivotRow
    rw [pivotRow, if_pos (h 0 0), List.find?_eq_none]
    intro i _
    rw [decide_eq_true_eq]
    exact not_lt.2 (h i 0).le

/-- The size of the matrix may be written in another way. -/
lemma eliminates_cast {m n : ℕ} (h : m = n) {A : Matrix (Fin m) (Fin m) K}
    {B : Matrix (Fin n) (Fin n) K} (hAB : ∀ i j, A i j = B (Fin.cast h i) (Fin.cast h j)) :
    Eliminates ε A ↔ Eliminates ε B := by
  subst h
  have heq : A = B := by
    ext i j
    exact hAB i j
  rw [heq]

/-- The only entry of a matrix of one row is its trace. -/
lemma eliminates_iff_of_one (hn : n = 1) {A : Matrix (Fin n) (Fin n) K} :
    Eliminates ε A ↔ ε ≤ |A.trace| := by
  subst hn
  rw [trace_fin_one]
  constructor
  · intro h
    by_contra hlt
    refine not_eliminates_of_lt Nat.one_pos (fun i j => ?_) h
    rw [Subsingleton.elim i 0, Subsingleton.elim j 0]
    exact not_le.1 hlt
  · intro h
    rw [eliminates_of_le h]
    trivial

end Order

/-! ### Triangular matrices -/

/-- Nothing is subtracted from the rows of a lower triangular matrix. -/
lemma schur_of_lower {A : Matrix (Fin (n + 1)) (Fin (n + 1)) K} (h : ∀ i j, i < j → A i j = 0) :
    schur A = A.submatrix Fin.succ Fin.succ := by
  ext i j
  rw [schur, h 0 j.succ (Fin.succ_pos j), mul_zero, sub_zero, submatrix_apply]

lemma eliminates_of_lower [LinearOrder K] {ε : K} {A : Matrix (Fin n) (Fin n) K}
    (h : ∀ i j, i < j → A i j = 0) (hdiag : ∀ i, ε ≤ |A i i|) : Eliminates ε A := by
  induction n with
  | zero => trivial
  | succ n ih =>
    rw [eliminates_of_le (hdiag 0), schur_of_lower h]
    apply ih
    · intro i j hij
      exact h i.succ j.succ (Fin.succ_lt_succ_iff.2 hij)
    · intro i
      exact hdiag i.succ

/-! ### Matrices with a lower bound -/

/-- The quadratic form of a matrix. -/
def quad {m : Type*} [Fintype m] (A : Matrix m m K) (x : m → K) : K := x ⬝ᵥ A *ᵥ x

lemma quad_eq_sum {m : Type*} [Fintype m] (A : Matrix m m K) (x : m → K) :
    quad A x = ∑ i, ∑ j, x i * A i j * x j := by
  simp only [quad, dotProduct, mulVec, Finset.mul_sum, mul_assoc]

section Symmetric

variable {A : Matrix (Fin (n + 1)) (Fin (n + 1)) K}

lemma schur_transpose (hA : Aᵀ = A) : (schur A)ᵀ = schur A := by
  have hsymm : ∀ i j, A i j = A j i := fun i j => congrFun (congrFun hA j) i
  ext i j
  rw [transpose_apply, schur, schur, hsymm j.succ, hsymm j.succ, hsymm 0 i.succ]
  ring

lemma quad_cons (hA : Aᵀ = A) (t : K) (x : Fin n → K) :
    quad A (vecCons t x) =
      A 0 0 * t ^ 2 + 2 * t * ((fun j => A 0 j.succ) ⬝ᵥ x) +
        quad (A.submatrix Fin.succ Fin.succ) x := by
  have hsymm : ∀ i : Fin n, A i.succ 0 = A 0 i.succ := fun i => congrFun (congrFun hA 0) i.succ
  have hrow : ∑ i : Fin n, x i * A 0 i.succ * t = t * ∑ i : Fin n, A 0 i.succ * x i := by
    rw [Finset.mul_sum]
    exact Finset.sum_congr rfl fun i _ => by ring
  have hcol : ∑ j : Fin n, t * A 0 j.succ * x j = t * ∑ i : Fin n, A 0 i.succ * x i := by
    rw [Finset.mul_sum]
    exact Finset.sum_congr rfl fun i _ => by ring
  simp only [quad_eq_sum, dotProduct, Fin.sum_univ_succ, cons_val_zero, cons_val_succ, hsymm,
    Finset.sum_add_distrib, submatrix_apply, hrow, hcol]
  ring

lemma quad_schur (hA : Aᵀ = A) (x : Fin n → K) :
    quad (schur A) x =
      quad (A.submatrix Fin.succ Fin.succ) x - ((fun j => A 0 j.succ) ⬝ᵥ x) ^ 2 / A 0 0 := by
  have hsymm : ∀ i : Fin n, A i.succ 0 = A 0 i.succ := fun i => congrFun (congrFun hA 0) i.succ
  have hsq : ((fun j => A 0 j.succ) ⬝ᵥ x) ^ 2 / A 0 0 =
      ∑ i, ∑ j, x i * (A 0 i.succ / A 0 0 * A 0 j.succ) * x j := by
    rw [sq, dotProduct, Finset.sum_mul_sum, Finset.sum_div]
    refine Finset.sum_congr rfl fun i _ => ?_
    rw [Finset.sum_div]
    exact Finset.sum_congr rfl fun j _ => by ring
  simp only [hsq, quad_eq_sum, schur, submatrix_apply, hsymm, ← Finset.sum_sub_distrib]
  exact Finset.sum_congr rfl fun i _ => Finset.sum_congr rfl fun j _ => by ring

end Symmetric

section Bound

variable [LinearOrder K] [IsStrictOrderedRing K] {ε : K}

omit [IsStrictOrderedRing K] in
lemma le_corner {A : Matrix (Fin (n + 1)) (Fin (n + 1)) K} (hA : Aᵀ = A)
    (h : ∀ y, ε * (y ⬝ᵥ y) ≤ quad A y) : ε ≤ A 0 0 := by
  have hone := h (vecCons 1 0)
  rw [quad_cons hA, cons_dotProduct_cons, dotProduct_zero, dotProduct_zero] at hone
  simpa [quad] using hone

/-- The Schur complement has the lower bound of the matrix: its quadratic form is the least that
the form of the matrix gets to by the choice of the first coordinate. -/
lemma le_quad_schur {A : Matrix (Fin (n + 1)) (Fin (n + 1)) K} (hA : Aᵀ = A) (hε : 0 < ε)
    (h : ∀ y, ε * (y ⬝ᵥ y) ≤ quad A y) (x : Fin n → K) :
    ε * (x ⬝ᵥ x) ≤ quad (schur A) x := by
  have hcorner : A 0 0 ≠ 0 := (hε.trans_le (le_corner hA h)).ne'
  set b : K := (fun j => A 0 j.succ) ⬝ᵥ x with hb
  have hleast := h (vecCons (-b / A 0 0) x)
  rw [quad_cons hA, ← hb, cons_dotProduct_cons] at hleast
  have hform : A 0 0 * (-b / A 0 0) ^ 2 + 2 * (-b / A 0 0) * b = -(b ^ 2 / A 0 0) := by
    field_simp
    ring
  calc ε * (x ⬝ᵥ x) ≤ ε * (-b / A 0 0 * (-b / A 0 0) + x ⬝ᵥ x) :=
        mul_le_mul_of_nonneg_left (le_add_of_nonneg_left (mul_self_nonneg _)) hε.le
    _ ≤ _ := hleast
    _ = quad (schur A) x := by
        rw [hform, quad_schur hA, ← hb]
        ring

/-- A symmetric matrix that is bounded from below by the threshold has all its pivots on the
diagonal. -/
theorem eliminates_of_le_quad {A : Matrix (Fin n) (Fin n) K} (hA : Aᵀ = A) (hε : 0 < ε)
    (h : ∀ y, ε * (y ⬝ᵥ y) ≤ quad A y) : Eliminates ε A := by
  induction n with
  | zero => trivial
  | succ n ih =>
    rw [eliminates_of_le ((le_corner hA h).trans (le_abs_self _))]
    exact ih (schur_transpose hA) (le_quad_schur hA hε h)

end Bound

end RT1064.Core
