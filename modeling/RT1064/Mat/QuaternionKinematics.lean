import RT1064.Mat.Quaternion

/-!
# The kinematics of quaternions

The derivative of an attitude from the angular rate in the body frame and in the reference frame.
-/

namespace RT1064.Mat

variable {K : Type*}

namespace Quaternion

section Field

variable [Field K]

/-- `Quaternion::derivative1`, with the angular rate in frame 1. -/
def derivative1 (q : Quaternion K) (w : Fin 3 → K) : Quaternion K :=
  let v := ![0, w 0, w 1, w 2]
  vecMulScalar (mul q v) (1 / 2)

/-- `Quaternion::derivative2`, with the angular rate in frame 2. -/
def derivative2 (q : Quaternion K) (w : Fin 3 → K) : Quaternion K :=
  let v := ![0, w 0, w 1, w 2]
  vecMulScalar (mul v q) (1 / 2)

/-! ### The division ring of quaternions -/

/-- The quaternion without a rotation. -/
def identity : Quaternion K := ![1, 0, 0, 0]

/-- A vector as a quaternion. -/
def ofImag (w : Fin 3 → K) : Quaternion K := ![0, w 0, w 1, w 2]

protected lemma mul_assoc (p q r : Quaternion K) : mul (mul p q) r = mul p (mul q r) := by
  funext i
  fin_cases i <;>
    simp only [mul, ↓Matrix.cons_val, Fin.isValue, Fin.zero_eta, Fin.mk_one, Fin.reduceFinMk] <;>
    ring

lemma mul_identity (q : Quaternion K) : mul q identity = q := by
  funext i
  fin_cases i <;> simp [mul, identity]

lemma identity_mul (q : Quaternion K) : mul identity q = q := by
  funext i
  fin_cases i <;> simp [mul, identity]

section Inverse

variable {q : Quaternion K} (hq : dot q q ≠ 0)

include hq

lemma mul_inversed : mul q (inversed q) = identity := by
  have hsum := dot_self q
  rw [inversed]
  generalize dot q q = n at hq hsum
  funext i
  fin_cases i <;>
    simp only [mul, identity, ↓Matrix.cons_val, Fin.isValue, Fin.zero_eta, Fin.mk_one,
      Fin.reduceFinMk] <;>
    field_simp
  · linear_combination -hsum
  · ring
  · ring
  · ring

lemma dot_inversed_ne_zero : dot (inversed q) (inversed q) ≠ 0 := by
  intro hzero
  have hdot := dot_mul q (inversed q)
  rw [mul_inversed hq, hzero, mul_zero, dot_self] at hdot
  simp [identity] at hdot

/-- A right inverse that has a right inverse itself is a left inverse. -/
lemma inversed_mul : mul (inversed q) q = identity := by
  have hright := mul_inversed (dot_inversed_ne_zero hq)
  calc mul (inversed q) q
      = mul (mul (inversed q) q) (mul (inversed q) (inversed (inversed q))) := by
        rw [hright, mul_identity]
    _ = mul (inversed q) (mul (mul q (inversed q)) (inversed (inversed q))) := by
        simp only [Quaternion.mul_assoc]
    _ = identity := by rw [mul_inversed hq, identity_mul, hright]

end Inverse

/-- A quaternion without a real part is a vector. -/
lemma ofImag_of_zero {p : Quaternion K} (h : p 0 = 0) : ofImag ![p 1, p 2, p 3] = p := by
  funext i
  fin_cases i
  · exact h.symm
  · rfl
  · rfl
  · rfl

/-- Both sandwich products of a vector are vectors. -/
lemma ofImag_rotateVector (q : Quaternion K) (w : Fin 3 → K) :
    ofImag (rotateVector q w) = mul (mul q (ofImag w)) (inversed q) := by
  refine ofImag_of_zero ?_
  simp only [mul, inversed, ↓Matrix.cons_val, Fin.isValue]
  ring

lemma ofImag_rotateVectorInverse (q : Quaternion K) (w : Fin 3 → K) :
    ofImag (rotateVectorInverse q w) = mul (mul (inversed q) (ofImag w)) q := by
  refine ofImag_of_zero ?_
  simp only [mul, inversed, ↓Matrix.cons_val, Fin.isValue]
  ring

/-! ### The derivatives -/

lemma derivative1_eq (q : Quaternion K) (w : Fin 3 → K) :
    derivative1 q w = vecMulScalar (mul q (ofImag w)) (1 / 2) := rfl

lemma derivative2_eq (q : Quaternion K) (w : Fin 3 → K) :
    derivative2 q w = vecMulScalar (mul (ofImag w) q) (1 / 2) := rfl

lemma dot_derivative1 (q : Quaternion K) (w : Fin 3 → K) : dot q (derivative1 q w) = 0 := by
  rw [dot_eq, Fin.sum_univ_four, derivative1]
  simp only [mul, vecMulScalar_apply, Matrix.cons_val]
  ring

lemma dot_derivative2 (q : Quaternion K) (w : Fin 3 → K) : dot q (derivative2 q w) = 0 := by
  rw [dot_eq, Fin.sum_univ_four, derivative2]
  simp only [mul, vecMulScalar_apply, Matrix.cons_val]
  ring

end Field

/-- The derivative of the attitude is the same from the rate in either frame, and does not change
the norm. -/
theorem derivative1_eq_derivative2 [Field K] [LinearOrder K] [IsStrictOrderedRing K]
    {q : Quaternion K} (hq : q ≠ 0) (w : Fin 3 → K) :
    derivative1 q w = derivative2 q (rotateVector q w) ∧
      (dot q (derivative1 q w) = 0 ∧ dot q (derivative2 q w) = 0) ∧
      derivative2 q w = derivative1 q (rotateVectorInverse q w) := by
  have hnorm := dot_self_ne_zero hq
  refine ⟨?_, ⟨dot_derivative1 q w, dot_derivative2 q w⟩, ?_⟩
  · rw [derivative1_eq, derivative2_eq, ofImag_rotateVector, Quaternion.mul_assoc,
      inversed_mul hnorm, mul_identity]
  · rw [derivative1_eq, derivative2_eq, ofImag_rotateVectorInverse, Quaternion.mul_assoc,
      ← Quaternion.mul_assoc q, mul_inversed hnorm, identity_mul]

/-- A rate about the second axis at a quaternion that is not a unit. -/
theorem derivative1_eq_derivative2_rat :
    derivative1 (![1, 2, 0, 0] : Quaternion ℚ) ![0, 1, 0] =
      derivative2 ![1, 2, 0, 0] (rotateVector ![1, 2, 0, 0] ![0, 1, 0]) :=
  (derivative1_eq_derivative2 (by decide) ![0, 1, 0]).1

end Quaternion

end RT1064.Mat
