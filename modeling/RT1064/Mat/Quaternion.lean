import RT1064.Mat.Dcm

/-!
# Quaternions

The product of quaternions, the rotation of vectors by a quaternion and the conversions between
unit quaternions and rotation matrices.
-/

namespace RT1064.Mat

open Core

variable {K : Type*}

namespace Quaternion

section Field

variable [Field K]

/-- `Quaternion::operator*`. -/
def mul (q p : Quaternion K) : Quaternion K :=
  ![q 0 * p 0 - q 1 * p 1 - q 2 * p 2 - q 3 * p 3,
    q 1 * p 0 + q 0 * p 1 - q 3 * p 2 + q 2 * p 3,
    q 2 * p 0 + q 3 * p 1 + q 0 * p 2 - q 1 * p 3,
    q 3 * p 0 - q 2 * p 1 + q 1 * p 2 + q 0 * p 3]

/-- `Quaternion::inversed`. -/
def inversed (q : Quaternion K) : Quaternion K :=
  let normSq := dot q q
  ![q 0 / normSq, -q 1 / normSq, -q 2 / normSq, -q 3 / normSq]

/-- `Quaternion::rotateVector`. -/
def rotateVector (q : Quaternion K) (vec : Fin 3 → K) : Fin 3 → K :=
  let v := ![0, vec 0, vec 1, vec 2]
  let res := mul (mul q v) (inversed q)
  ![res 1, res 2, res 3]

/-- `Quaternion::rotateVectorInverse`. -/
def rotateVectorInverse (q : Quaternion K) (vec : Fin 3 → K) : Fin 3 → K :=
  let v := ![0, vec 0, vec 1, vec 2]
  let res := mul (mul (inversed q) v) q
  ![res 1, res 2, res 3]

/-- `Quaternion::dcm_z`. -/
def dcmZ (q : Quaternion K) : Fin 3 → K :=
  let a := q 0
  let b := q 1
  let c := q 2
  let d := q 3
  ![2 * (a * c + b * d), 2 * (c * d - a * b), a * a - b * b - c * c + d * d]

/-- A quaternion of norm one. -/
def IsUnit (q : Quaternion K) : Prop := dot q q = 1

lemma dot_self (q : Quaternion K) :
    dot q q = q 0 * q 0 + q 1 * q 1 + q 2 * q 2 + q 3 * q 3 := by
  rw [dot_eq, Fin.sum_univ_four]

/-- The norm of a product is the product of the norms. -/
lemma dot_mul (q p : Quaternion K) : dot (mul q p) (mul q p) = dot q q * dot p p := by
  simp only [dot_self, mul, Matrix.cons_val]
  ring

lemma IsUnit.mul {q p : Quaternion K} (hq : IsUnit q) (hp : IsUnit p) :
    IsUnit (Quaternion.mul q p) := by
  rw [IsUnit, dot_mul, hq, hp, mul_one]

lemma IsUnit.inversed_eq {q : Quaternion K} (hq : IsUnit q) :
    inversed q = ![q 0, -q 1, -q 2, -q 3] := by
  rw [IsUnit] at hq
  simp [inversed, hq]

/-! ### The rotation of a quaternion -/

/-- The rotation matrix with entries homogeneous in the quaternion. -/
def rotation (q : Quaternion K) : Dcm K :=
  !![q 0 * q 0 + q 1 * q 1 - q 2 * q 2 - q 3 * q 3, 2 * (q 1 * q 2 - q 0 * q 3),
      2 * (q 0 * q 2 + q 1 * q 3);
     2 * (q 1 * q 2 + q 0 * q 3), q 0 * q 0 - q 1 * q 1 + q 2 * q 2 - q 3 * q 3,
      2 * (q 2 * q 3 - q 0 * q 1);
     2 * (q 1 * q 3 - q 0 * q 2), 2 * (q 0 * q 1 + q 2 * q 3),
      q 0 * q 0 - q 1 * q 1 - q 2 * q 2 + q 3 * q 3]

/-- For a unit quaternion the direction cosine matrix is the homogeneous one. -/
lemma IsUnit.ofQuaternion_eq {q : Quaternion K} (hq : IsUnit q) :
    Dcm.ofQuaternion q = rotation q := by
  rw [IsUnit, dot_self] at hq
  simp only [Dcm.eq_iff_entries, Dcm.ofQuaternion, rotation, Matrix.of_apply, Matrix.cons_val,
    and_true, true_and]
  refine ⟨?_, ?_, ?_⟩ <;> linear_combination -hq

lemma rotation_mul (q p : Quaternion K) :
    rotation (mul q p) = rotation q * rotation p := by
  simp only [Dcm.eq_iff_entries, Matrix.mul_apply, Fin.sum_univ_three, rotation, mul,
    Matrix.of_apply, Matrix.cons_val]
  refine ⟨⟨?_, ?_, ?_⟩, ⟨?_, ?_, ?_⟩, ?_, ?_, ?_⟩ <;> ring

lemma rotation_mul_transpose (q : Quaternion K) :
    rotation q * (rotation q).transpose = (dot q q ^ 2) • 1 := by
  simp only [Dcm.eq_iff_entries, Matrix.mul_apply, Fin.sum_univ_three, rotation, dot_self,
    Matrix.of_apply, Matrix.cons_val, Matrix.transpose_apply, Matrix.smul_apply]
  refine ⟨⟨?_, ?_, ?_⟩, ⟨?_, ?_, ?_⟩, ?_, ?_, ?_⟩ <;> simp <;> ring

lemma det_rotation (q : Quaternion K) : (rotation q).det = dot q q ^ 3 := by
  rw [Matrix.det_fin_three, dot_self]
  simp [rotation]
  ring

/-- The direction cosine matrix of a unit quaternion is a rotation. -/
lemma IsUnit.isRotation {q : Quaternion K} (hq : IsUnit q) :
    IsRotation (Dcm.ofQuaternion q) where
  mul_transpose := by
    rw [hq.ofQuaternion_eq, rotation_mul_transpose, hq, one_pow, one_smul]
  det_eq := by rw [hq.ofQuaternion_eq, det_rotation, hq, one_pow]

/-- Both sandwich products are linear maps, the rotation and its transpose. -/
lemma IsUnit.rotateVector_eq {q : Quaternion K} (hq : IsUnit q) (v : Fin 3 → K) :
    rotateVector q v = (rotation q).mulVec v := by
  funext i
  rw [rotateVector, hq.inversed_eq, Matrix.mulVec, dotProduct, Fin.sum_univ_three]
  -- the arrows pick one entry before the others are expanded
  fin_cases i <;>
    simp only [Quaternion.mul, rotation, ↓Matrix.of_apply, ↓Matrix.cons_val, Fin.isValue,
      Fin.zero_eta, Fin.mk_one, Fin.reduceFinMk] <;> ring

lemma IsUnit.rotateVectorInverse_eq {q : Quaternion K} (hq : IsUnit q) (v : Fin 3 → K) :
    rotateVectorInverse q v = (rotation q).transpose.mulVec v := by
  funext i
  rw [rotateVectorInverse, hq.inversed_eq, Matrix.mulVec, dotProduct, Fin.sum_univ_three]
  fin_cases i <;>
    simp only [Quaternion.mul, rotation, Matrix.transpose_apply, ↓Matrix.of_apply,
      ↓Matrix.cons_val, Fin.isValue, Fin.zero_eta, Fin.mk_one, Fin.reduceFinMk] <;> ring

lemma IsUnit.rotateVectorInverse_rotateVector {q : Quaternion K} (hq : IsUnit q)
    (v : Fin 3 → K) : rotateVectorInverse q (rotateVector q v) = v := by
  have hR := hq.isRotation.transpose_mul
  rw [hq.ofQuaternion_eq] at hR
  rw [hq.rotateVector_eq, hq.rotateVectorInverse_eq, Matrix.mulVec_mulVec, hR, Matrix.one_mulVec]

lemma IsUnit.dcmZ_eq {q : Quaternion K} (hq : IsUnit q) :
    dcmZ q = fun i => Dcm.ofQuaternion q i 2 := by
  funext i
  rw [hq.ofQuaternion_eq]
  fin_cases i <;> simp [dcmZ, rotation]

end Field

/-! ### The quaternion of a rotation matrix -/

/-- The four branches of `Quaternion(const Dcm &)`, named by the component they compute first. -/
def dcmBranch [Field K] [LinearOrder K] (R : Dcm K) : Fin 4 :=
  if 0 < trace R then 0
  else if R 1 1 < R 0 0 ∧ R 2 2 < R 0 0 then 1
  else if R 2 2 < R 1 1 then 2
  else 3

/-- The number under the square root in each branch. -/
def radicand [Field K] (R : Dcm K) : Fin 4 → K :=
  ![1 + trace R, 1 + R 0 0 - R 1 1 - R 2 2, 1 - R 0 0 + R 1 1 - R 2 2,
    1 - R 0 0 - R 1 1 + R 2 2]

/-- `Quaternion(const Dcm &)`. -/
def ofDcm [Field K] [LinearOrder K] [Cmath K] (R : Dcm K) : Quaternion K :=
  let s := Cmath.sqrt (radicand R (dcmBranch R))
  let t := 1 / 2 / s
  match dcmBranch R with
  | 0 => ![1 / 2 * s, (R 2 1 - R 1 2) * t, (R 0 2 - R 2 0) * t, (R 1 0 - R 0 1) * t]
  | 1 => ![(R 2 1 - R 1 2) * t, 1 / 2 * s, (R 1 0 + R 0 1) * t, (R 0 2 + R 2 0) * t]
  | 2 => ![(R 0 2 - R 2 0) * t, (R 1 0 + R 0 1) * t, 1 / 2 * s, (R 2 1 + R 1 2) * t]
  | 3 => ![(R 1 0 - R 0 1) * t, (R 0 2 + R 2 0) * t, (R 2 1 + R 1 2) * t, 1 / 2 * s]

/-- Four times the products of the components of the quaternion of `R`, read off the matrix. -/
def products [Field K] (R : Dcm K) : Matrix (Fin 4) (Fin 4) K :=
  !![1 + R 0 0 + R 1 1 + R 2 2, R 2 1 - R 1 2, R 0 2 - R 2 0, R 1 0 - R 0 1;
     R 2 1 - R 1 2, 1 + R 0 0 - R 1 1 - R 2 2, R 1 0 + R 0 1, R 0 2 + R 2 0;
     R 0 2 - R 2 0, R 1 0 + R 0 1, 1 - R 0 0 + R 1 1 - R 2 2, R 2 1 + R 1 2;
     R 1 0 - R 0 1, R 0 2 + R 2 0, R 2 1 + R 1 2, 1 - R 0 0 - R 1 1 + R 2 2]

lemma products_comm [Field K] (R : Dcm K) (j k : Fin 4) : products R j k = products R k j := by
  fin_cases j <;> fin_cases k <;> rfl

/-- Two products on the diagonal are the square of the product off it. -/
lemma products_mul_self [Field K] {R : Dcm K} (h : IsRotation R) {i j : Fin 4} (hij : i < j) :
    products R i i * products R j j = products R i j * products R i j := by
  have r := fun i => h.row i i
  have c := fun i => h.col i i
  have a := fun i => h.cofactor i i
  simp [Fin.forall_fin_succ] at r c a
  obtain ⟨r0, r1, r2⟩ := r
  obtain ⟨c0, c1, c2⟩ := c
  obtain ⟨a0, a1, a2⟩ := a
  fin_cases i <;> fin_cases j <;> simp at hij <;>
    simp only [products, ↓Matrix.of_apply, ↓Matrix.cons_val, Fin.isValue, Fin.zero_eta, Fin.mk_one,
      Fin.reduceFinMk]
  · linear_combination c0 - r1 - r2 + 2 * a0
  · linear_combination -r0 + c1 - r2 + 2 * a1
  · linear_combination -c0 - c1 + r2 + 2 * a2
  · linear_combination -c0 - c1 + r2 - 2 * a2
  · linear_combination -r0 + c1 - r2 - 2 * a1
  · linear_combination c0 - r1 - r2 - 2 * a0

/-- Two products off the diagonal in one row, with the product of their other factors. -/
lemma products_mul_of_lt [Field K] {R : Dcm K} (h : IsRotation R) {i j k : Fin 4} (hj : j ≠ i)
    (hk : k ≠ i) (hjk : j < k) :
    products R i i * products R j k = products R i j * products R i k := by
  have r01 := h.row 0 1
  have r02 := h.row 0 2
  have r12 := h.row 1 2
  have c01 := h.col 0 1
  have c02 := h.col 0 2
  have c12 := h.col 1 2
  have a := h.cofactor
  simp [Fin.forall_fin_succ] at r01 r02 r12 c01 c02 c12 a
  obtain ⟨⟨-, a01, a02⟩, ⟨a10, -, a12⟩, a20, a21, -⟩ := a
  fin_cases i <;> fin_cases j <;> simp at hj <;> fin_cases k <;> simp at hk hjk <;>
    simp only [products, ↓Matrix.of_apply, ↓Matrix.cons_val, Fin.isValue, Fin.zero_eta, Fin.mk_one,
      Fin.reduceFinMk]
  · linear_combination r01 + c01 + a01 + a10
  · linear_combination r02 + c02 + a02 + a20
  · linear_combination r12 + c12 + a12 + a21
  · linear_combination -r02 + c02 + a02 - a20
  · linear_combination r01 - c01 - a01 + a10
  · linear_combination -r12 - c12 + a12 + a21
  · linear_combination r12 - c12 - a12 + a21
  · linear_combination -r01 + c01 - a01 + a10
  · linear_combination -r02 - c02 + a02 + a20
  · linear_combination -r12 + c12 - a12 + a21
  · linear_combination r02 - c02 + a02 - a20
  · linear_combination -r01 - c01 + a01 + a10

/-- The products of a rotation matrix have rank one. -/
lemma products_mul [Field K] {R : Dcm K} (h : IsRotation R) (i j k : Fin 4) :
    products R i i * products R j k = products R i j * products R i k := by
  wlog hjk : j ≤ k generalizing j k
  · rw [products_comm R j k, mul_comm (products R i j)]
    exact this k j (le_of_not_ge hjk)
  rcases eq_or_ne j i with rfl | hj
  · rfl
  rcases eq_or_ne k i with rfl | hk
  · rw [products_comm R j k, mul_comm]
  rcases hjk.lt_or_eq with hlt | rfl
  · exact products_mul_of_lt h hj hk hlt
  · rcases lt_or_gt_of_ne hj with hji | hij
    · rw [mul_comm, products_mul_self h hji, products_comm R j i]
    · exact products_mul_self h hij

/-- The products of the rotation matrix of a unit quaternion are those of its components. -/
lemma products_ofQuaternion [Field K] {q : Quaternion K} (hq : IsUnit q) (j k : Fin 4) :
    products (Dcm.ofQuaternion q) j k = 4 * (q j * q k) := by
  rw [IsUnit, dot_self] at hq
  fin_cases j <;> fin_cases k <;> simp only [products, ↓Matrix.of_apply, ↓Matrix.cons_val,
    Fin.isValue, Fin.zero_eta, Fin.mk_one, Fin.reduceFinMk] <;>
    simp only [Dcm.ofQuaternion, ↓Matrix.of_apply, ↓Matrix.cons_val] <;>
    first | ring1 | linear_combination -4 * hq

lemma radicand_eq [Field K] (R : Dcm K) (b : Fin 4) : radicand R b = products R b b := by
  fin_cases b <;> simp [radicand, products, trace_dcm]
  ring

section Order

variable [Field K] [LinearOrder K] [IsStrictOrderedRing K]

/-- The branch that is taken has a positive number under the root. -/
lemma radicand_pos (R : Dcm K) : 0 < radicand R (dcmBranch R) := by
  rw [dcmBranch, trace_dcm]
  split_ifs with h0 h1 h2
  · simp only [radicand, trace_dcm, Matrix.cons_val_zero]
    linarith
  · obtain ⟨h10, h20⟩ := h1
    simp only [radicand, Matrix.cons_val]
    linarith
  · simp only [radicand, Matrix.cons_val]
    rcases not_and_or.1 h1 with h | h <;> linarith
  · simp only [radicand, Matrix.cons_val]
    rcases not_and_or.1 h1 with h | h <;> linarith

end Order

/-- Two quaternions with the same products differ by a sign at most. -/
lemma eq_or_eq_neg_of_mul_eq [Field K] {p q : Quaternion K}
    (h : ∀ j k, p j * p k = q j * q k) : p = q ∨ p = -q := by
  by_cases hq : q = 0
  · left
    funext j
    have hj := h j j
    rw [hq, Pi.zero_apply, mul_zero, mul_self_eq_zero] at hj
    rw [hj, hq, Pi.zero_apply]
  · obtain ⟨j, hj⟩ := Function.ne_iff.1 hq
    rw [Pi.zero_apply] at hj
    rcases mul_self_eq_mul_self_iff.1 (h j j) with hp | hp
    · left
      funext k
      have hk := h j k
      rw [hp] at hk
      exact mul_left_cancel₀ hj hk
    · right
      funext k
      have hk := h j k
      rw [hp, neg_mul, ← mul_neg] at hk
      rw [Pi.neg_apply]
      exact mul_left_cancel₀ hj (by linear_combination -hk)

/-- Each component is a product with the component computed first, over twice the root. -/
lemma ofDcm_apply (R : Dcm ℝ) (j : Fin 4) :
    ofDcm R j = products R (dcmBranch R) j / (2 * √(radicand R (dcmBranch R))) := by
  have hpos := radicand_pos R
  have hsqrt : √(radicand R (dcmBranch R)) ≠ 0 := (Real.sqrt_pos.2 hpos).ne'
  have hsq := Real.mul_self_sqrt hpos.le
  have hdiag := radicand_eq R (dcmBranch R)
  rw [ofDcm, sqrt_real]
  generalize √(radicand R (dcmBranch R)) = s at hsqrt hsq
  rw [hdiag] at hsq
  generalize dcmBranch R = b at hsq
  fin_cases b <;> fin_cases j <;>
    simp only [products, ↓Matrix.of_apply, ↓Matrix.cons_val, Fin.isValue, Fin.zero_eta, Fin.mk_one,
      Fin.reduceFinMk] at hsq ⊢ <;>
    field_simp <;> linear_combination hsq

/-- The components of the quaternion multiply to the products of the rotation matrix. -/
lemma ofDcm_mul {R : Dcm ℝ} (h : IsRotation R) (j k : Fin 4) :
    4 * (ofDcm R j * ofDcm R k) = products R j k := by
  have hpos := radicand_pos R
  have hsq := Real.mul_self_sqrt hpos.le
  have hmul := products_mul h (dcmBranch R) j k
  rw [radicand_eq] at hpos hsq
  rw [ofDcm_apply, ofDcm_apply, radicand_eq]
  have hsqrt := (Real.sqrt_pos.2 hpos).ne'
  field_simp
  linear_combination -4 * hmul - 4 * products R j k * hsq

lemma isUnit_ofDcm {R : Dcm ℝ} (h : IsRotation R) : IsUnit (ofDcm R) := by
  have hsum : 4 * dot (ofDcm R) (ofDcm R) = 4 := by
    rw [dot_self, mul_add, mul_add, mul_add, ofDcm_mul h, ofDcm_mul h, ofDcm_mul h, ofDcm_mul h]
    simp [products]
    ring
  rw [IsUnit]
  linarith

lemma ofQuaternion_ofDcm {R : Dcm ℝ} (h : IsRotation R) :
    Dcm.ofQuaternion (ofDcm R) = R := by
  have hmul : ∀ j k, ofDcm R j * ofDcm R k = products R j k / 4 := by
    intro j k
    rw [← ofDcm_mul h, mul_div_cancel_left₀ _ four_ne_zero]
  ext i j
  fin_cases i <;> fin_cases j <;>
    simp only [Dcm.ofQuaternion, ↓Matrix.of_apply, ↓Matrix.cons_val, Fin.isValue, Fin.zero_eta,
      Fin.mk_one, Fin.reduceFinMk] <;>
    simp only [hmul, products, ↓Matrix.of_apply, ↓Matrix.cons_val] <;> ring

/-- Over the reals the conversion of a rotation matrix to a quaternion is safe in every branch and
gives a unit quaternion of that matrix, and a unit quaternion is recovered up to its sign. -/
theorem ofDcm_correct :
    (∀ R : Dcm ℝ, IsRotation R →
      0 < radicand R (dcmBranch R) ∧ Cmath.sqrt (radicand R (dcmBranch R)) ≠ 0 ∧
      IsUnit (ofDcm R) ∧ Dcm.ofQuaternion (ofDcm R) = R) ∧
    ∀ q : Quaternion ℝ, IsUnit q →
      ofDcm (Dcm.ofQuaternion q) = q ∨ ofDcm (Dcm.ofQuaternion q) = -q := by
  constructor
  · intro R h
    have hpos := radicand_pos R
    exact ⟨hpos, (Real.sqrt_pos.2 hpos).ne', isUnit_ofDcm h, ofQuaternion_ofDcm h⟩
  · intro q hq
    refine eq_or_eq_neg_of_mul_eq fun j k => ?_
    have hmul := ofDcm_mul hq.isRotation j k
    rw [products_ofQuaternion hq] at hmul
    exact mul_left_cancel₀ four_ne_zero hmul

/-- The half turn about the first axis, which leaves the first branch, and a unit quaternion. -/
theorem ofDcm_correct_halfTurn :
    Dcm.ofQuaternion (ofDcm (!![1, 0, 0; 0, -1, 0; 0, 0, -1] : Dcm ℝ)) =
        !![1, 0, 0; 0, -1, 0; 0, 0, -1] ∧
      (ofDcm (Dcm.ofQuaternion ![0, 0, 0, -1]) = (![0, 0, 0, -1] : Quaternion ℝ) ∨
        ofDcm (Dcm.ofQuaternion ![0, 0, 0, -1]) = -(![0, 0, 0, -1] : Quaternion ℝ)) := by
  obtain ⟨toQuaternion, fromQuaternion⟩ := ofDcm_correct
  constructor
  · refine (toQuaternion _ ⟨?_, ?_⟩).2.2.2
    · ext i j
      fin_cases i <;> fin_cases j <;> simp [Matrix.mul_apply, Fin.sum_univ_three]
    · rw [Matrix.det_fin_three]
      simp
  · refine fromQuaternion _ ?_
    rw [IsUnit, dot_self]
    simp

end Quaternion

end RT1064.Mat
