import RT1064.Mat.Euler
import RT1064.Mat.Quaternion

/-!
# Yaw of a rotation matrix

The yaw of an attitude and its replacement, in the 3-2-1 sequence when there is more roll than
pitch and in the 3-1-2 sequence otherwise, and the inverse rotation matrix of a quaternion.
-/

namespace RT1064.Math

open Mat

variable {K : Type*} [Field K]

/-- `quatToInverseRotMat`. -/
def quatToInverseRotMat (quat : Mat.Quaternion K) : Dcm K :=
  let q00 := quat 0 * quat 0
  let q11 := quat 1 * quat 1
  let q22 := quat 2 * quat 2
  let q33 := quat 3 * quat 3
  let q01 := quat 0 * quat 1
  let q02 := quat 0 * quat 2
  let q03 := quat 0 * quat 3
  let q12 := quat 1 * quat 2
  let q13 := quat 1 * quat 3
  let q23 := quat 2 * quat 3
  !![q00 + q11 - q22 - q33, 2 * (q12 + q03), 2 * (q13 - q02);
     2 * (q12 - q03), q00 - q11 + q22 - q33, 2 * (q23 + q01);
     2 * (q13 + q02), 2 * (q23 - q01), q00 - q11 - q22 + q33]

lemma quatToInverseRotMat_eq (q : Mat.Quaternion K) :
    quatToInverseRotMat q = (Quaternion.rotation q).transpose := by
  ext i j
  fin_cases i <;> fin_cases j <;>
    simp [quatToInverseRotMat, Quaternion.rotation, -mul_eq_mul_left_iff] <;> ring

/-- The implementations of rotation by a unit quaternion agree. -/
theorem quaternion_rotations_agree {q p : Mat.Quaternion K} (hq : q.IsUnit) (hp : p.IsUnit)
    (v : Fin 3 → K) :
    (q.mul p).IsUnit ∧
      IsRotation (Dcm.ofQuaternion q) ∧
      mulVec (Dcm.ofQuaternion q) v = q.rotateVector v ∧
      q.rotateVectorInverse (q.rotateVector v) = v ∧
      Dcm.ofQuaternion (q.mul p) = mul (Dcm.ofQuaternion q) (Dcm.ofQuaternion p) ∧
      q.dcmZ = (fun i => Dcm.ofQuaternion q i 2) ∧
      quatToInverseRotMat q = (Dcm.ofQuaternion q).transpose := by
  refine ⟨hq.mul hp, hq.isRotation, ?_, hq.rotateVectorInverse_rotateVector v, ?_, hq.dcmZ_eq, ?_⟩
  · rw [mulVec_eq, hq.ofQuaternion_eq, hq.rotateVector_eq]
  · rw [mul_eq, (hq.mul hp).ofQuaternion_eq, hq.ofQuaternion_eq, hp.ofQuaternion_eq,
      Quaternion.rotation_mul]
  · rw [quatToInverseRotMat_eq, hq.ofQuaternion_eq]

/-- Two unit quaternions with rational components. -/
theorem quaternion_rotations_agree_rat :
    Dcm.ofQuaternion (Quaternion.mul ![1 / 2, 1 / 2, 1 / 2, 1 / 2] ![3 / 5, 0, 4 / 5, 0]) =
      mul (Dcm.ofQuaternion ![1 / 2, 1 / 2, 1 / 2, 1 / 2])
        (Dcm.ofQuaternion (![3 / 5, 0, 4 / 5, 0] : Mat.Quaternion ℚ)) := by
  refine (quaternion_rotations_agree (K := ℚ) ?_ ?_ 0).2.2.2.2.1
  · rw [Quaternion.IsUnit, Quaternion.dot_self]
    simp only [Matrix.cons_val]
    norm_num
  · rw [Quaternion.IsUnit, Quaternion.dot_self]
    simp only [Matrix.cons_val]
    norm_num

/-! ### Yaw -/

section Yaw

variable [Cmath K]

/-- `taitBryan312ToRotMat`, with the angles yaw, roll and pitch. -/
def taitBryan312ToRotMat (rot312 : Fin 3 → K) : Dcm K :=
  let c2 := Cmath.cos (rot312 2)
  let s2 := Cmath.sin (rot312 2)
  let s1 := Cmath.sin (rot312 1)
  let c1 := Cmath.cos (rot312 1)
  let s0 := Cmath.sin (rot312 0)
  let c0 := Cmath.cos (rot312 0)
  !![c0 * c2 - s0 * s1 * s2, -c1 * s0, s2 * c0 + c2 * s1 * s0;
     c2 * s0 + s2 * s1 * c0, c0 * c1, s0 * s2 - s1 * c0 * c2;
     -s2 * c1, s1, c2 * c1]

/-- `getEuler321Yaw`. -/
def getEuler321Yaw (R : Dcm K) : K := Cmath.atan2 (R 1 0) (R 0 0)

/-- `getEuler312Yaw`. -/
def getEuler312Yaw (R : Dcm K) : K := Cmath.atan2 (-R 0 1) (R 1 1)

/-- `updateEuler312YawInRotMat`. -/
def updateEuler312YawInRotMat (yaw : K) (rotIn : Dcm K) : Dcm K :=
  taitBryan312ToRotMat
    ![yaw, Cmath.asin (rotIn 2 1), Cmath.atan2 (-rotIn 2 0) (rotIn 2 2)]

variable [LinearOrder K]

/-- `shouldUse321RotationSequence`. -/
def shouldUse321RotationSequence (R : Dcm K) : Bool := |R 2 0| < |R 2 1|

/-- `getEulerYaw`. -/
def getEulerYaw (R : Dcm K) : K :=
  if shouldUse321RotationSequence R then getEuler321Yaw R else getEuler312Yaw R

/-- `updateEuler321YawInRotMat`. -/
def updateEuler321YawInRotMat (yaw : K) (rotIn : Dcm K) : Dcm K :=
  Dcm.ofEuler (Function.update (Euler.ofDcm rotIn) 2 yaw)

/-- `updateYawInRotMat`. -/
def updateYawInRotMat (yaw : K) (rotIn : Dcm K) : Dcm K :=
  if shouldUse321RotationSequence rotIn then updateEuler321YawInRotMat yaw rotIn
  else updateEuler312YawInRotMat yaw rotIn

end Yaw

/-- The 3-1-2 sequence turns about the second, the first and the third axis. -/
lemma taitBryan312ToRotMat_eq (e : Fin 3 → ℝ) :
    taitBryan312ToRotMat e = rotZ (Real.cos (e 0)) (Real.sin (e 0)) *
      rotX (Real.cos (e 1)) (Real.sin (e 1)) * rotY (Real.cos (e 2)) (Real.sin (e 2)) := by
  ext i j
  rw [Matrix.mul_apply, Fin.sum_univ_three]
  simp only [Matrix.mul_apply, Fin.sum_univ_three]
  fin_cases i <;> fin_cases j <;> simp [taitBryan312ToRotMat, rotX, rotY, rotZ] <;> ring

lemma isRotation_taitBryan312ToRotMat (e : Fin 3 → ℝ) :
    IsRotation (taitBryan312ToRotMat e) := by
  rw [taitBryan312ToRotMat_eq]
  exact ((isRotation_rotZ (Real.cos_sq_add_sin_sq _)).mul
    (isRotation_rotX (Real.cos_sq_add_sin_sq _))).mul
      (isRotation_rotY (Real.cos_sq_add_sin_sq _))

/-- The last row of a rotation matrix has length one. -/
lemma lastRow_sq {R : Dcm ℝ} (h : IsRotation R) : R 2 0 ^ 2 + R 2 1 ^ 2 + R 2 2 ^ 2 = 1 := by
  have hrow := h.row 2 2
  rw [if_pos rfl] at hrow
  linear_combination hrow

/-- The tilt angles of a unit vector: one from its coordinate `x` by `asin`, clear of the gimbal
lock, and one from the other two by `atan2`. -/
lemma tilt_angles {x y z : ℝ} (h : x ^ 2 + y ^ 2 + z ^ 2 = 1) (hx : x ^ 2 ≤ 1 / 2) :
    Real.sin (Real.arcsin x) = x ∧ 0 < Real.cos (Real.arcsin x) ∧
      Real.cos (Real.arcsin x) * Real.cos (Cmath.atan2 y z) = z ∧
      Real.cos (Real.arcsin x) * Real.sin (Cmath.atan2 y z) = y := by
  have hpos : 0 < z ^ 2 + y ^ 2 := by linarith
  have hcos : Real.cos (Real.arcsin x) = √(z ^ 2 + y ^ 2) := by
    rw [Real.cos_arcsin]
    congr 1
    linarith
  have habs : |x| ≤ 1 := by
    rw [← sq_le_one_iff_abs_le_one]
    linarith
  obtain ⟨hlow, hhigh⟩ := abs_le.1 habs
  rw [hcos]
  exact ⟨Real.sin_arcsin hlow hhigh, Real.sqrt_pos.2 hpos, polar_atan2 hpos⟩

/-- With more roll than pitch the 3-2-1 sequence keeps the tilt and takes the new yaw. -/
lemma updateEuler321YawInRotMat_spec {yaw : ℝ} (hyaw : -Real.pi < yaw ∧ yaw ≤ Real.pi)
    {R : Dcm ℝ} (h : IsRotation R) (h321 : |R 2 0| < |R 2 1|) :
    IsRotation (updateEuler321YawInRotMat yaw R) ∧ updateEuler321YawInRotMat yaw R 2 = R 2 ∧
      getEuler321Yaw (updateEuler321YawInRotMat yaw R) = yaw := by
  have hrow := lastRow_sq h
  have hlt : R 2 0 ^ 2 ≤ 1 / 2 := by
    have hsq := sq_lt_sq.2 h321
    linarith [sq_nonneg (R 2 2)]
  obtain ⟨hsin, hpos, hcos, hsin'⟩ := tilt_angles (x := -R 2 0) (y := R 2 1) (z := R 2 2)
    (by linarith) (by linarith)
  refine ⟨Dcm.isRotation_ofEuler _, ?_, ?_⟩
  · rw [updateEuler321YawInRotMat, Euler.ofDcm_of_sq_le hlt]
    funext j
    fin_cases j
    · show -Real.sin (Real.arcsin (-R 2 0)) = R 2 0
      rw [hsin, neg_neg]
    · simpa [Dcm.ofEuler, mul_comm] using hsin'
    · simpa [Dcm.ofEuler, mul_comm] using hcos
  · rw [updateEuler321YawInRotMat, Euler.ofDcm_of_sq_le hlt, getEuler321Yaw]
    simpa [Dcm.ofEuler] using atan2_polar hpos hyaw

/-- With more pitch than roll the 3-1-2 sequence keeps the tilt and takes the new yaw. -/
lemma updateEuler312YawInRotMat_spec {yaw : ℝ} (hyaw : -Real.pi < yaw ∧ yaw ≤ Real.pi)
    {R : Dcm ℝ} (h : IsRotation R) (h312 : |R 2 1| ≤ |R 2 0|) :
    IsRotation (updateEuler312YawInRotMat yaw R) ∧ updateEuler312YawInRotMat yaw R 2 = R 2 ∧
      getEuler312Yaw (updateEuler312YawInRotMat yaw R) = yaw := by
  have hrow := lastRow_sq h
  have hle : R 2 1 ^ 2 ≤ 1 / 2 := by
    have hsq := sq_le_sq.2 h312
    linarith [sq_nonneg (R 2 2)]
  obtain ⟨hsin, hpos, hcos, hsin'⟩ := tilt_angles (x := R 2 1) (y := -R 2 0) (z := R 2 2)
    (by linarith) hle
  refine ⟨isRotation_taitBryan312ToRotMat _, ?_, ?_⟩
  · rw [updateEuler312YawInRotMat]
    funext j
    fin_cases j
    · show -Real.sin (Cmath.atan2 (-R 2 0) (R 2 2)) * Real.cos (Real.arcsin (R 2 1)) = R 2 0
      linear_combination -hsin'
    · exact hsin
    · show Real.cos (Cmath.atan2 (-R 2 0) (R 2 2)) * Real.cos (Real.arcsin (R 2 1)) = R 2 2
      linear_combination hcos
  · have hyaw' := atan2_polar hpos hyaw
    show Cmath.atan2 (-(-Real.cos _ * Real.sin yaw)) (Real.cos yaw * Real.cos _) = yaw
    rwa [neg_mul, neg_neg, mul_comm (Real.cos yaw)]

/-- Replacing the yaw of a rotation keeps its tilt and with it the sequence of rotations, and the
yaw that is read back is the new one. -/
theorem updateYawInRotMat_correct {yaw : ℝ} (hyaw : -Real.pi < yaw ∧ yaw ≤ Real.pi) {R : Dcm ℝ}
    (h : IsRotation R) :
    IsRotation (updateYawInRotMat yaw R) ∧
      updateYawInRotMat yaw R 2 = R 2 ∧
      shouldUse321RotationSequence (updateYawInRotMat yaw R) = shouldUse321RotationSequence R ∧
      getEulerYaw (updateYawInRotMat yaw R) = yaw := by
  have hseq : ∀ {R' : Dcm ℝ}, R' 2 = R 2 →
      shouldUse321RotationSequence R' = shouldUse321RotationSequence R := by
    intro R' hR'
    rw [shouldUse321RotationSequence, hR', shouldUse321RotationSequence]
  by_cases h321 : |R 2 0| < |R 2 1|
  · have huse : shouldUse321RotationSequence R = true := decide_eq_true h321
    obtain ⟨hrot, htilt, hyaw'⟩ := updateEuler321YawInRotMat_spec hyaw h h321
    rw [updateYawInRotMat, if_pos huse]
    refine ⟨hrot, htilt, hseq htilt, ?_⟩
    rw [getEulerYaw, hseq htilt, if_pos huse, hyaw']
  · have huse : ¬ shouldUse321RotationSequence R = true := by
      rw [Bool.not_eq_true]
      exact decide_eq_false h321
    obtain ⟨hrot, htilt, hyaw'⟩ := updateEuler312YawInRotMat_spec hyaw h (not_lt.1 h321)
    rw [updateYawInRotMat, if_neg huse]
    refine ⟨hrot, htilt, hseq htilt, ?_⟩
    rw [getEulerYaw, hseq htilt, if_neg huse, hyaw']

/-- A quarter turn in pitch and a half turn as the new yaw. -/
theorem updateYawInRotMat_correct_pitched :
    getEulerYaw (updateYawInRotMat Real.pi (!![0, 0, 1; 0, 1, 0; -1, 0, 0] : Dcm ℝ)) =
      Real.pi := by
  refine (updateYawInRotMat_correct ⟨by linarith [Real.pi_pos], le_rfl⟩ ⟨?_, ?_⟩).2.2.2
  · ext i j
    rw [Matrix.mul_apply, Fin.sum_univ_three]
    fin_cases i <;> fin_cases j <;> simp
  · rw [Matrix.det_fin_three]
    simp

end RT1064.Math
