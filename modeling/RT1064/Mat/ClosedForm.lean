import Mathlib.LinearAlgebra.Matrix.Adjugate
import RT1064.Mat.PseudoInverse

/-!
# Inverses in closed form

The overloads of `inv` for two and three dimensions, and the overload that a dimension selects.
Each of them inverts the matrix if it succeeds, as the general one does.
-/

namespace RT1064.Mat

open Matrix

variable {K : Type*} {N : ℕ}

/-! ### The overloads -/

section Model

variable [Field K] [LinearOrder K]

/-- `inv` of a matrix of two dimensions. -/
def invTwo (A inv : Matrix (Fin 2) (Fin 2) K) : Bool × Matrix (Fin 2) (Fin 2) K :=
  let det := A 0 0 * A 1 1 - A 1 0 * A 0 1
  if |det| < FLT_EPSILON || !isFinite det then (false, inv)
  else
    let inv := setEntry inv 0 0 (A 1 1)
    let inv := setEntry inv 1 0 (-A 1 0)
    let inv := setEntry inv 0 1 (-A 0 1)
    let inv := setEntry inv 1 1 (A 0 0)
    (true, divScalar inv det)

/-- `inv` of a matrix of three dimensions. -/
def invThree (A inv : Matrix (Fin 3) (Fin 3) K) : Bool × Matrix (Fin 3) (Fin 3) K :=
  let det := A 0 0 * (A 1 1 * A 2 2 - A 2 1 * A 1 2) -
    A 0 1 * (A 1 0 * A 2 2 - A 1 2 * A 2 0) +
    A 0 2 * (A 1 0 * A 2 1 - A 1 1 * A 2 0)
  if |det| < FLT_EPSILON || !isFinite det then (false, inv)
  else
    let inv := setEntry inv 0 0 (A 1 1 * A 2 2 - A 2 1 * A 1 2)
    let inv := setEntry inv 0 1 (A 0 2 * A 2 1 - A 0 1 * A 2 2)
    let inv := setEntry inv 0 2 (A 0 1 * A 1 2 - A 0 2 * A 1 1)
    let inv := setEntry inv 1 0 (A 1 2 * A 2 0 - A 1 0 * A 2 2)
    let inv := setEntry inv 1 1 (A 0 0 * A 2 2 - A 0 2 * A 2 0)
    let inv := setEntry inv 1 2 (A 1 0 * A 0 2 - A 0 0 * A 1 2)
    let inv := setEntry inv 2 0 (A 1 0 * A 2 1 - A 2 0 * A 1 1)
    let inv := setEntry inv 2 1 (A 2 0 * A 0 1 - A 0 0 * A 2 1)
    let inv := setEntry inv 2 2 (A 0 0 * A 1 1 - A 1 0 * A 0 1)
    (true, divScalar inv det)

/-- The overload of `inv(A, X)` that the dimension selects. -/
def invOverload : {N : ℕ} → (A X : Matrix (Fin N) (Fin N) K) → Bool × Matrix (Fin N) (Fin N) K
  | 1, A, X => invOne A X
  | 2, A, X => invTwo A X
  | 3, A, X => invThree A X
  | N, A, X => inv A X N

/-- The inverse, or the zero matrix if there is none. -/
def orZero (result : Bool × Matrix (Fin N) (Fin N) K) : Matrix (Fin N) (Fin N) K :=
  if result.1 then result.2 else 0

/-- `inv(A)`, which returns the inverse by value. -/
def invValue (A : Matrix (Fin N) (Fin N) K) : Matrix (Fin N) (Fin N) K :=
  orZero (invOverload A 0)

/-- `SquareMatrix::I`. -/
def I (A : Matrix (Fin N) (Fin N) K) : Matrix (Fin N) (Fin N) K :=
  orZero (invOverload A 0)

end Model

/-! ### What they have in common -/

section Spec

variable [Field K] [LinearOrder K]

/-- An overload that inverts the matrix if it succeeds, as the general one does, and leaves its
argument alone if it fails. -/
structure IsInverse (f : (A X : Matrix (Fin N) (Fin N) K) → Bool × Matrix (Fin N) (Fin N) K) :
    Prop where
  mul_right : ∀ A X, (f A X).1 = true → A * (f A X).2 = 1
  mul_left : ∀ A X, (f A X).1 = true → (f A X).2 * A = 1
  eq_inv : ∀ A X X', (f A X).1 = true → (inv A X' N).1 = true → (f A X).2 = (inv A X' N).2
  unchanged : ∀ A X, (f A X).1 = false → (f A X).2 = X

variable [IsStrictOrderedRing K]

/-- The general inverse of the whole matrix. -/
lemma mul_inv_self {A X : Matrix (Fin N) (Fin N) K} (h : (inv A X N).1 = true) :
    A * (inv A X N).2 = 1 :=
  lead_mul_lead_inv le_rfl h

/-- It is enough to invert the matrix from one side. -/
lemma isInverse_of_mul {f : (A X : Matrix (Fin N) (Fin N) K) → Bool × Matrix (Fin N) (Fin N) K}
    (hmul : ∀ A X, (f A X).1 = true → A * (f A X).2 = 1)
    (hunchanged : ∀ A X, (f A X).1 = false → (f A X).2 = X) : IsInverse f where
  mul_right := hmul
  mul_left := fun A X h => mul_eq_one_comm.1 (hmul A X h)
  eq_inv := fun A X _ h h' =>
    left_inv_eq_right_inv (mul_eq_one_comm.1 (hmul A X h)) (mul_inv_self h')
  unchanged := hunchanged

/-- The inverse from the adjugate, unless the determinant is small. -/
lemma isInverse_of_adjugate
    {f : (A X : Matrix (Fin N) (Fin N) K) → Bool × Matrix (Fin N) (Fin N) K}
    (hf : ∀ A X, f A X =
      if |A.det| < FLT_EPSILON then (false, X) else (true, (1 / A.det) • A.adjugate)) :
    IsInverse f := by
  refine isInverse_of_mul ?_ ?_
  · intro A X h
    rw [hf] at h ⊢
    split_ifs at h ⊢ with hdet
    have hne : A.det ≠ 0 := by
      intro hzero
      rw [hzero, abs_zero] at hdet
      exact hdet FLT_EPSILON_pos
    rw [Matrix.mul_smul, mul_adjugate, smul_smul, one_div_mul_cancel hne, one_smul]
  · intro A X h
    rw [hf] at h ⊢
    split_ifs at h ⊢ with hdet
    rfl

end Spec

/-! ### Two and three dimensions -/

section ClosedForm

variable [Field K] [LinearOrder K]

lemma invTwo_eq (A X : Matrix (Fin 2) (Fin 2) K) :
    invTwo A X =
      if |A.det| < FLT_EPSILON then (false, X) else (true, (1 / A.det) • A.adjugate) := by
  have hdet : A 0 0 * A 1 1 - A 1 0 * A 0 1 = A.det := by
    rw [det_fin_two, mul_comm (A 1 0)]
  have hadj : setEntry (setEntry (setEntry (setEntry X 0 0 (A 1 1)) 1 0 (-A 1 0)) 0 1 (-A 0 1))
      1 1 (A 0 0) = A.adjugate := by
    rw [adjugate_fin_two]
    ext i j
    fin_cases i <;> fin_cases j <;> simp [setEntry]
  simp only [invTwo, hdet, hadj, divScalar_eq_smul, isFinite, Bool.not_true, Bool.or_false,
    decide_eq_true_eq]

lemma invThree_eq (A X : Matrix (Fin 3) (Fin 3) K) :
    invThree A X =
      if |A.det| < FLT_EPSILON then (false, X) else (true, (1 / A.det) • A.adjugate) := by
  have hdet : A 0 0 * (A 1 1 * A 2 2 - A 2 1 * A 1 2) -
      A 0 1 * (A 1 0 * A 2 2 - A 1 2 * A 2 0) +
      A 0 2 * (A 1 0 * A 2 1 - A 1 1 * A 2 0) = A.det := by
    rw [det_fin_three]
    ring
  rw [invThree]
  simp only [hdet, divScalar_eq_smul, isFinite, Bool.not_true, Bool.or_false,
    decide_eq_true_eq]
  congr 3
  rw [adjugate_fin_three]
  ext i j
  fin_cases i <;> fin_cases j <;> simp [setEntry] <;> ring

variable [IsStrictOrderedRing K]

/-- The closed forms invert a matrix from both sides if they succeed, agree with the general
inverse if that succeeds as well, and leave their argument alone if they fail. -/
theorem isInverse_invTwo_invThree :
    IsInverse (invTwo (K := K)) ∧ IsInverse (invThree (K := K)) :=
  ⟨isInverse_of_adjugate invTwo_eq, isInverse_of_adjugate invThree_eq⟩

/-- Matrices that the general inverse permutes. -/
def skewTwo : Matrix (Fin 2) (Fin 2) ℚ :=
  !![0, 2; 3, 1]

def skewThree : Matrix (Fin 3) (Fin 3) ℚ :=
  !![0, 2, 1; 1, 0, 3; 4, 5, 0]

theorem isInverse_invTwo_invThree_skew :
    (invTwo skewTwo 0).2 = (inv skewTwo 0 2).2 ∧ (invThree skewThree 0).2 = (inv skewThree 0 3).2 ∧
      (invTwo (0 : Matrix (Fin 2) (Fin 2) ℚ) skewTwo).2 = skewTwo := by
  have htwo : (invTwo skewTwo 0).1 = true ∧ (inv skewTwo 0 2).1 = true := by decide +kernel
  have hthree : (invThree skewThree 0).1 = true ∧ (inv skewThree 0 3).1 = true := by
    decide +kernel
  have hzero : (invTwo (0 : Matrix (Fin 2) (Fin 2) ℚ) skewTwo).1 = false := by decide +kernel
  obtain ⟨hinvTwo, hinvThree⟩ := isInverse_invTwo_invThree (K := ℚ)
  exact ⟨hinvTwo.eq_inv skewTwo 0 0 htwo.1 htwo.2,
    hinvThree.eq_inv skewThree 0 0 hthree.1 hthree.2, hinvTwo.unchanged 0 skewTwo hzero⟩

end ClosedForm

/-! ### The overload that is selected -/

section Overload

lemma isInverse_invOne : IsInverse (invOne (K := ℝ)) := by
  refine isInverse_of_mul (fun _ _ => mul_invOne) ?_
  intro A X h
  rw [invOne] at h ⊢
  split_ifs at h ⊢ with hzero
  rfl

lemma isInverse_invOverload : IsInverse (invOverload (K := ℝ) (N := N)) := by
  have hinv : ∀ n, IsInverse fun A X : Matrix (Fin n) (Fin n) ℝ => inv A X n :=
    fun n => isInverse_of_mul (fun _ _ => mul_inv_self) fun _ _ => inv_unchanged
  rcases N with _ | _ | _ | _ | n
  · exact hinv 0
  · exact isInverse_invOne
  · exact isInverse_of_adjugate invTwo_eq
  · exact isInverse_of_adjugate invThree_eq
  · exact hinv (n + 4)

end Overload

end RT1064.Mat
