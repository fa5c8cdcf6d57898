import Mathlib.LinearAlgebra.Matrix.DotProduct
import Mathlib.LinearAlgebra.Matrix.NonsingularInverse
import RT1064.Core.Loop

/-!
# Vectors and matrices

A `Matrix<Type, M, N>` is a `Matrix (Fin M) (Fin N) K` and a `Vector<Type, M>` is a function on
`Fin M`, over an exact scalar type `K`. The entrywise loops of the library are the entrywise
operations; the loops that accumulate are folds, each with the lemma that says what it adds up.
-/

namespace RT1064.Mat

open Core

variable {K : Type*} {M N P : ℕ}

/-! ### Literals -/

/-- The indices of a single entry. -/
instance neZero_one : NeZero 1 := ⟨one_ne_zero⟩

/-- The indices of vectors of three components. -/
instance neZero_three : NeZero 3 := ⟨three_ne_zero⟩

/-- The indices of quaternions. -/
instance neZero_four : NeZero 4 := ⟨four_ne_zero⟩

/-- The scalar `2`. -/
instance atLeastTwo_two : Nat.AtLeastTwo 2 := ⟨le_rfl⟩

/-- The scalar `4`. -/
instance atLeastTwo_four : Nat.AtLeastTwo 4 := ⟨Nat.AtLeastTwo.prop.trans (Nat.le_add_left 2 2)⟩

/-- The scalar `1000`. -/
instance atLeastTwo_thousand : Nat.AtLeastTwo 1000 := ⟨Nat.le_of_ble_eq_true rfl⟩

/-- The scalar `100000000`. -/
instance atLeastTwo_hundredMillion : Nat.AtLeastTwo 100000000 := ⟨Nat.le_of_ble_eq_true rfl⟩

/-! ### Scalars -/

/-- `std::isfinite`: a value of exact arithmetic is neither infinite nor NaN. -/
def isFinite (_ : K) : Bool := true

/-- `FLT_EPSILON`, which is `2⁻²³`. -/
def FLT_EPSILON [Field K] : K := 1 / 8388608

lemma FLT_EPSILON_pos [Field K] [LinearOrder K] [IsStrictOrderedRing K] :
    (0 : K) < FLT_EPSILON := by
  rw [FLT_EPSILON]
  positivity

/-- `isEqualF`, of values that are neither infinite nor NaN. -/
def isEqualF [Field K] [LinearOrder K] (x y eps : K) : Bool := decide (|x - y| ≤ eps)

/-- A quotient, which exact arithmetic has only for a divisor that is not zero. -/
def divide [Field K] [DecidableEq K] (a b : K) : Option K := if b = 0 then none else some (a / b)

lemma divide_of_ne_zero [Field K] [DecidableEq K] (a : K) {b : K} (h : b ≠ 0) :
    divide a b = some (a / b) := if_neg h

/-! ### Assignment of one entry -/

/-- `self(i, j)`, as a place of the matrix. -/
abbrev entry (i : Fin M) (j : Fin N) (A : Matrix (Fin M) (Fin N) K) : K := A i j

/-- `self(i, j) = v`. -/
def setEntry (A : Matrix (Fin M) (Fin N) K) (i : Fin M) (j : Fin N) (v : K) :
    Matrix (Fin M) (Fin N) K :=
  fun i' j' => if i' = i ∧ j' = j then v else A i' j'

@[simp] lemma setEntry_self (A : Matrix (Fin M) (Fin N) K) (i : Fin M) (j : Fin N) (v : K) :
    setEntry A i j v i j = v := by simp [setEntry]

lemma setEntry_of_row_ne (A : Matrix (Fin M) (Fin N) K) {i i' : Fin M} (h : i' ≠ i)
    (j j' : Fin N) (v : K) : setEntry A i j v i' j' = A i' j' := by simp [setEntry, h]

lemma setEntry_of_col_ne (A : Matrix (Fin M) (Fin N) K) (i i' : Fin M) {j j' : Fin N}
    (h : j' ≠ j) (v : K) : setEntry A i j v i' j' = A i' j' := by simp [setEntry, h]

lemma col_setEntry (A : Matrix (Fin M) (Fin N) K) (i : Fin M) (j : Fin N) (v : K) :
    (setEntry A i j v).col j = Function.update (A.col j) i v := by
  funext k
  rcases eq_or_ne k i with rfl | h
  · simp [setEntry]
  · simp [setEntry, h]

lemma col_setEntry_of_ne (A : Matrix (Fin M) (Fin N) K) (i : Fin M) {j j' : Fin N} (h : j ≠ j')
    (v : K) : (setEntry A i j' v).col j = A.col j :=
  funext fun k => setEntry_of_col_ne A i k h v

/-! ### Products -/

section Ring

variable [CommRing K]

/-- `Vector::dot`. -/
def dot (a b : Fin M → K) : K :=
  (indices 0 M).foldl (fun r i => r + a i * b i) 0

/-- `Matrix::operator*` with a matrix. -/
def mul (A : Matrix (Fin M) (Fin N) K) (B : Matrix (Fin N) (Fin P) K) :
    Matrix (Fin M) (Fin P) K :=
  fun i k => (indices 0 N).foldl (fun res j => res + A i j * B j k) 0

/-- `Matrix::operator*` with a column. -/
def mulVec (A : Matrix (Fin M) (Fin N) K) (v : Fin N → K) : Fin M → K :=
  fun i => (indices 0 N).foldl (fun res j => res + A i j * v j) 0

/-- `Matrix::operator*` with a scalar. -/
def mulScalar (A : Matrix (Fin M) (Fin N) K) (s : K) : Matrix (Fin M) (Fin N) K :=
  fun i j => A i j * s

/-- `Vector::operator*` with a scalar. -/
def vecMulScalar (a : Fin M → K) (s : K) : Fin M → K :=
  fun i => a i * s

lemma dot_eq (a b : Fin M → K) : dot a b = ∑ i, a i * b i := by
  rw [dot, foldl_indices_add, zero_add]

@[simp] lemma mul_eq (A : Matrix (Fin M) (Fin N) K) (B : Matrix (Fin N) (Fin P) K) :
    mul A B = A * B := by
  ext i k
  rw [mul, foldl_indices_add, zero_add, Matrix.mul_apply]

@[simp] lemma mulVec_eq (A : Matrix (Fin M) (Fin N) K) (v : Fin N → K) :
    mulVec A v = A.mulVec v := by
  ext i
  rw [mulVec, foldl_indices_add, zero_add]
  rfl

@[simp] lemma mulScalar_apply (A : Matrix (Fin M) (Fin N) K) (s : K) (i : Fin M) (j : Fin N) :
    mulScalar A s i j = A i j * s := rfl

@[simp] lemma vecMulScalar_apply (a : Fin M → K) (s : K) (i : Fin M) :
    vecMulScalar a s i = a i * s := rfl

lemma dot_vecMulScalar (a : Fin M → K) (s : K) :
    dot (vecMulScalar a s) (vecMulScalar a s) = dot a a * (s * s) := by
  rw [dot_eq, dot_eq, Finset.sum_mul]
  refine Finset.sum_congr rfl fun i _ => ?_
  rw [vecMulScalar_apply, mul_mul_mul_comm]

section Order

variable [LinearOrder K] [IsStrictOrderedRing K]

lemma dot_self_nonneg (a : Fin M → K) : 0 ≤ dot a a := by
  rw [dot_eq]
  exact Finset.sum_nonneg fun i _ => mul_self_nonneg _

lemma dot_self_ne_zero {a : Fin M → K} (ha : a ≠ 0) : dot a a ≠ 0 := by
  rw [dot_eq]
  exact dotProduct_self_eq_zero.not.2 ha

end Order

end Ring

section Field

variable [Field K]

/-- `Matrix::operator/` with a scalar. -/
def divScalar (A : Matrix (Fin M) (Fin N) K) (s : K) : Matrix (Fin M) (Fin N) K :=
  mulScalar A (1 / s)

/-- `Vector::operator/` with a scalar. -/
def vecDivScalar (a : Fin M → K) (s : K) : Fin M → K :=
  vecMulScalar a (1 / s)

@[simp] lemma divScalar_apply (A : Matrix (Fin M) (Fin N) K) (s : K) (i : Fin M) (j : Fin N) :
    divScalar A s i j = A i j / s := by
  rw [divScalar, mulScalar_apply, mul_one_div]

lemma divScalar_eq_smul (A : Matrix (Fin M) (Fin N) K) (s : K) : divScalar A s = (1 / s) • A := by
  ext i j
  rw [divScalar, mulScalar_apply, mul_comm]
  rfl

@[simp] lemma vecDivScalar_apply (a : Fin M → K) (s : K) (i : Fin M) :
    vecDivScalar a s i = a i / s := by
  rw [vecDivScalar, vecMulScalar_apply, mul_one_div]

end Field

end RT1064.Mat
