import Mathlib.LinearAlgebra.Matrix.Adjugate
import RT1064.Mat.Basic
import RT1064.Mat.Cmath

/-!
# Rotation matrices

The rotation matrices among the direction cosine matrices, with the equations between their
entries, and the constructions of a `Dcm` from a quaternion and from Euler angles.
-/

namespace RT1064.Mat

open Core

variable {K : Type*}

/-- `Dcm<Type>`. -/
abbrev Dcm (K : Type*) := Matrix (Fin 3) (Fin 3) K

/-- Equality of direction cosine matrices, entry by entry. -/
lemma Dcm.eq_iff_entries {A B : Dcm K} :
    A = B ↔ (A 0 0 = B 0 0 ∧ A 0 1 = B 0 1 ∧ A 0 2 = B 0 2) ∧
      (A 1 0 = B 1 0 ∧ A 1 1 = B 1 1 ∧ A 1 2 = B 1 2) ∧
      (A 2 0 = B 2 0 ∧ A 2 1 = B 2 1 ∧ A 2 2 = B 2 2) := by
  rw [← Matrix.ext_iff]
  simp [Fin.forall_fin_succ]

/-- `Quaternion<Type>`. -/
abbrev Quaternion (K : Type*) := Fin 4 → K

/-- `SquareMatrix::trace`. -/
def trace [AddCommMonoid K] {M : ℕ} (A : Matrix (Fin M) (Fin M) K) : K :=
  (indices 0 M).foldl (fun res i => res + A i i) 0

lemma trace_dcm [AddCommMonoid K] (R : Dcm K) : trace R = R 0 0 + R 1 1 + R 2 2 := by
  rw [trace, foldl_indices_add, zero_add, Fin.sum_univ_three]

/-! ### Rotation matrices -/

/-- An orthogonal matrix that keeps the orientation. -/
structure IsRotation [CommRing K] (R : Dcm K) : Prop where
  mul_transpose : R * R.transpose = 1
  det_eq : R.det = 1

namespace IsRotation

variable [CommRing K] {R S : Dcm K}

lemma transpose_mul (h : IsRotation R) : R.transpose * R = 1 :=
  mul_eq_one_comm.1 h.mul_transpose

lemma mul (hR : IsRotation R) (hS : IsRotation S) : IsRotation (R * S) where
  mul_transpose := by
    rw [Matrix.transpose_mul, mul_assoc, ← mul_assoc S, hS.mul_transpose, one_mul,
      hR.mul_transpose]
  det_eq := by rw [Matrix.det_mul, hR.det_eq, hS.det_eq, one_mul]

/-- The rows are orthonormal. -/
lemma row (h : IsRotation R) (i j : Fin 3) :
    R i 0 * R j 0 + R i 1 * R j 1 + R i 2 * R j 2 = if i = j then 1 else 0 := by
  have hij := congrFun (congrFun h.mul_transpose i) j
  rwa [Matrix.mul_apply, Fin.sum_univ_three, Matrix.one_apply] at hij

/-- The columns are orthonormal. -/
lemma col (h : IsRotation R) (i j : Fin 3) :
    R 0 i * R 0 j + R 1 i * R 1 j + R 2 i * R 2 j = if i = j then 1 else 0 := by
  have hij := congrFun (congrFun h.transpose_mul i) j
  rwa [Matrix.mul_apply, Fin.sum_univ_three, Matrix.one_apply] at hij

lemma adjugate_eq (h : IsRotation R) : R.adjugate = R.transpose := by
  calc R.adjugate = R.adjugate * (R * R.transpose) := by rw [h.mul_transpose, mul_one]
    _ = R.transpose := by rw [← mul_assoc, Matrix.adjugate_mul, h.det_eq, one_smul, one_mul]

/-- Every entry is its own cofactor. -/
lemma cofactor (h : IsRotation R) (i j : Fin 3) :
    R i j = R (i + 1) (j + 1) * R (i + 2) (j + 2) - R (i + 1) (j + 2) * R (i + 2) (j + 1) := by
  have hij := congrFun (congrFun h.adjugate_eq j) i
  rw [Matrix.adjugate_fin_three, Matrix.transpose_apply] at hij
  rw [← hij]
  fin_cases i <;> fin_cases j <;> simp <;> ring

end IsRotation

/-! ### Rotations about one axis -/

/-- The rotation about the first axis, from the cosine and the sine of its angle. -/
def rotX [CommRing K] (c s : K) : Dcm K := !![1, 0, 0; 0, c, -s; 0, s, c]

/-- The rotation about the second axis. -/
def rotY [CommRing K] (c s : K) : Dcm K := !![c, 0, s; 0, 1, 0; -s, 0, c]

/-- The rotation about the third axis. -/
def rotZ [CommRing K] (c s : K) : Dcm K := !![c, -s, 0; s, c, 0; 0, 0, 1]

section Axis

variable [CommRing K] {c s : K}

lemma isRotation_rotX (h : c ^ 2 + s ^ 2 = 1) : IsRotation (rotX c s) where
  mul_transpose := by
    ext i j
    rw [Matrix.mul_apply, Fin.sum_univ_three]
    fin_cases i <;> fin_cases j <;> simp [rotX] <;> first | ring1 | linear_combination h
  det_eq := by
    rw [Matrix.det_fin_three]
    simp [rotX]
    linear_combination h

/-- Renaming the axes of a rotation gives a rotation. -/
lemma IsRotation.submatrix {R : Dcm K} (h : IsRotation R) (e : Equiv.Perm (Fin 3)) :
    IsRotation (R.submatrix e e) where
  mul_transpose := by
    rw [Matrix.transpose_submatrix, Matrix.submatrix_mul_equiv, h.mul_transpose,
      Matrix.submatrix_one_equiv]
  det_eq := by rw [Matrix.det_submatrix_equiv_self, h.det_eq]

lemma isRotation_rotY (h : c ^ 2 + s ^ 2 = 1) : IsRotation (rotY c s) := by
  have haxes : rotY c s = (rotX c s).submatrix (finRotate 3).symm (finRotate 3).symm := by
    ext i j
    fin_cases i <;> fin_cases j <;> rfl
  rw [haxes]
  exact (isRotation_rotX h).submatrix _

lemma isRotation_rotZ (h : c ^ 2 + s ^ 2 = 1) : IsRotation (rotZ c s) := by
  have haxes : rotZ c s = (rotX c s).submatrix (finRotate 3) (finRotate 3) := by
    ext i j
    fin_cases i <;> fin_cases j <;> rfl
  rw [haxes]
  exact (isRotation_rotX h).submatrix _

end Axis

/-! ### Constructions -/

/-- `Dcm(const Quaternion &)`. -/
def Dcm.ofQuaternion [Field K] (q : Quaternion K) : Dcm K :=
  let a := q 0
  let b := q 1
  let c := q 2
  let d := q 3
  !![1 - 2 * (c * c + d * d), 2 * (b * c - a * d), 2 * (a * c + b * d);
     2 * (b * c + a * d), 1 - 2 * (b * b + d * d), 2 * (c * d - a * b);
     2 * (b * d - a * c), 2 * (a * b + c * d), 1 - 2 * (b * b + c * c)]

/-- `Dcm(const Euler &)`, with the angles `phi`, `theta` and `psi`. -/
def Dcm.ofEuler [Field K] [Cmath K] (euler : Fin 3 → K) : Dcm K :=
  let cosPhi := Cmath.cos (euler 0)
  let sinPhi := Cmath.sin (euler 0)
  let cosThe := Cmath.cos (euler 1)
  let sinThe := Cmath.sin (euler 1)
  let cosPsi := Cmath.cos (euler 2)
  let sinPsi := Cmath.sin (euler 2)
  !![cosThe * cosPsi, -cosPhi * sinPsi + sinPhi * sinThe * cosPsi,
      sinPhi * sinPsi + cosPhi * sinThe * cosPsi;
     cosThe * sinPsi, cosPhi * cosPsi + sinPhi * sinThe * sinPsi,
      -sinPhi * cosPsi + cosPhi * sinThe * sinPsi;
     -sinThe, sinPhi * cosThe, cosPhi * cosThe]

end RT1064.Mat
