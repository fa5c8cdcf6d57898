import Mathlib.Analysis.SpecialFunctions.Trigonometric.Bounds
import RT1064.Mat.Quaternion

/-!
# Axis-angle vectors

The logarithm and the exponential of unit quaternions, each with a branch for small angles, and the
canonical one of the two quaternions of a rotation.
-/

namespace RT1064.Mat

open Core

variable {K : Type*} {M : ℕ}

/-- `AxisAngle<Type>`. -/
abbrev AxisAngle (K : Type*) := Fin 3 → K

/-- `Type(1e-10)`, the angle under which the branches for small angles are taken. -/
def smallAngle [Field K] : K := 1 / 10000000000

/-- `Vector::norm`. -/
def vecNorm [CommRing K] [Cmath K] (a : Fin M → K) : K := Cmath.sqrt (dot a a)

/-- `Vector::unit`. -/
def vecUnit [Field K] [Cmath K] (a : Fin M → K) : Fin M → K := vecDivScalar a (vecNorm a)

/-- `sign`. -/
def sign [Zero K] [LT K] [DecidableLT K] (val : K) : ℤ :=
  (if 0 < val then 1 else 0) - (if val < 0 then 1 else 0)

namespace Quaternion

variable [Field K] [LinearOrder K]

/-- `Quaternion::imag`. -/
def imag (q : Quaternion K) : Fin 3 → K := ![q 1, q 2, q 3]

/-- `Quaternion::canonical`. -/
def canonical (q : Quaternion K) : Quaternion K :=
  match (indices 0 4).find? fun i => FLT_EPSILON < |q i| with
  | some i => vecMulScalar q (sign (q i))
  | none   => q

variable [Cmath K]

/-- `Quaternion(const AxisAngle &)`. -/
def ofAxisAngle (aa : AxisAngle K) : Quaternion K :=
  let angle := vecNorm aa
  let axis := vecUnit aa
  if angle < smallAngle then ![1, 0, 0, 0]
  else
    let magnitude := Cmath.sin (angle / 2)
    ![Cmath.cos (angle / 2), axis 0 * magnitude, axis 1 * magnitude, axis 2 * magnitude]

end Quaternion

/-- `AxisAngle(const Quaternion &)`. -/
def AxisAngle.ofQuaternion [Field K] [LinearOrder K] [Cmath K] (q : Quaternion K) : AxisAngle K :=
  let mag := vecNorm q.imag
  if smallAngle ≤ |mag| then vecMulScalar q.imag (2 * Cmath.atan2 mag (q 0) / mag)
  else vecMulScalar q.imag (2 * sign (q 0))

/-! ### Norms -/

section Norm

lemma vecNorm_nonneg (a : Fin M → ℝ) : 0 ≤ vecNorm a := Real.sqrt_nonneg _

lemma vecNorm_mul_self (a : Fin M → ℝ) : vecNorm a * vecNorm a = dot a a :=
  Real.mul_self_sqrt (dot_self_nonneg a)

lemma vecNorm_eq_of_sq {a : Fin M → ℝ} {r : ℝ} (hr : 0 ≤ r) (h : dot a a = r * r) :
    vecNorm a = r := by
  rw [vecNorm, h, sqrt_real, Real.sqrt_mul_self hr]

lemma dot_self_vec3 [CommRing K] (a : Fin 3 → K) :
    dot a a = a 0 * a 0 + a 1 * a 1 + a 2 * a 2 := by
  rw [dot_eq, Fin.sum_univ_three]

lemma vecNorm_vecMulScalar (a : Fin M → ℝ) {s : ℝ} (hs : 0 ≤ s) :
    vecNorm (vecMulScalar a s) = vecNorm a * s := by
  refine vecNorm_eq_of_sq (mul_nonneg (vecNorm_nonneg a) hs) ?_
  rw [dot_vecMulScalar, ← vecNorm_mul_self, mul_mul_mul_comm]

lemma vecNorm_zero : vecNorm (0 : Fin M → ℝ) = 0 := by
  refine vecNorm_eq_of_sq le_rfl ?_
  simp [dot_eq]

lemma vecNorm_pos {a : Fin M → ℝ} (ha : a ≠ 0) : 0 < vecNorm a :=
  Real.sqrt_pos.2 ((dot_self_nonneg a).lt_of_ne' (dot_self_ne_zero ha))

lemma smallAngle_pos : (0 : ℝ) < smallAngle := by
  rw [smallAngle]
  positivity

end Norm

namespace Quaternion

/-! ### The exponential -/

/-- Every axis-angle vector gives a unit quaternion. -/
lemma isUnit_ofAxisAngle (aa : AxisAngle ℝ) : IsUnit (ofAxisAngle aa) := by
  rw [IsUnit, dot_self, ofAxisAngle]
  split_ifs with h
  · simp
  · have hpos : 0 < vecNorm aa := smallAngle_pos.trans_le (not_lt.1 h)
    have hsq := (vecNorm_mul_self aa).trans (dot_self_vec3 aa)
    have htrig := Real.sin_sq_add_cos_sq (vecNorm aa / 2)
    simp only [Matrix.cons_val, sin_real, cos_real, vecUnit, vecDivScalar_apply]
    generalize Real.sin (vecNorm aa / 2) = s at htrig
    generalize Real.cos (vecNorm aa / 2) = c at htrig
    generalize vecNorm aa = r at hpos hsq
    field_simp
    linear_combination s ^ 2 * (-hsq) + r ^ 2 * htrig

/-! ### The canonical form -/

section Canonical

variable [Field K] [LinearOrder K] [IsStrictOrderedRing K]

lemma sign_neg (x : K) : sign (-x) = -sign x := by
  simp only [sign, Left.neg_pos_iff, Left.neg_neg_iff]
  ring

/-- A unit quaternion has a component over the threshold. -/
lemma IsUnit.exists_lt_abs {q : Quaternion K} (hq : IsUnit q) : ∃ i, FLT_EPSILON < |q i| := by
  by_contra hnot
  push Not at hnot
  rw [IsUnit, dot_self] at hq
  have heps : (FLT_EPSILON : K) * FLT_EPSILON < 1 / 4 := by
    rw [FLT_EPSILON]
    norm_num
  have hsq : ∀ i, q i * q i ≤ FLT_EPSILON * FLT_EPSILON := by
    intro i
    rw [← abs_mul_abs_self (q i)]
    exact mul_self_le_mul_self (abs_nonneg _) (hnot i)
  linarith [hsq 0, hsq 1, hsq 2, hsq 3]

/-- The two unit quaternions of a rotation have the same canonical form. -/
lemma IsUnit.canonical_neg {q : Quaternion K} (hq : IsUnit q) : (-q).canonical = q.canonical := by
  have hfind : ((indices 0 4).find? fun i => FLT_EPSILON < |(-q) i|) =
      (indices 0 4).find? fun i => FLT_EPSILON < |q i| := by
    simp only [Pi.neg_apply, abs_neg]
  rw [Quaternion.canonical, hfind, Quaternion.canonical]
  split
  · funext j
    simp [sign_neg]
  · rename_i hnone
    obtain ⟨i, hi⟩ := hq.exists_lt_abs
    have := List.find?_eq_none.1 hnone i (mem_indices.2 ⟨Nat.zero_le _, i.isLt⟩)
    simp [hi] at this

end Canonical

lemma IsUnit.inversed [Field K] {q : Quaternion K} (hq : IsUnit q) : IsUnit q.inversed := by
  have h := hq
  rw [IsUnit, dot_self] at h ⊢
  rw [hq.inversed_eq]
  simpa using h

lemma mul_neg_right [Field K] (q p : Quaternion K) : mul q (-p) = -mul q p := by
  funext i
  fin_cases i <;> simp [mul] <;> ring

end Quaternion

/-! ### The logarithm -/

section Logarithm

/-- The half of the angle is an angle of the upper half plane. -/
lemma sin_arg_upper {x y : ℝ} (hy : 0 < y) (h : x ^ 2 + y ^ 2 = 1) :
    Real.cos (Cmath.atan2 y x) = x ∧ Real.sin (Cmath.atan2 y x) = y ∧ y < Cmath.atan2 y x := by
  have hpolar := polar_atan2 (x := x) (y := y) (by rw [h]; exact one_pos)
  rw [h, Real.sqrt_one, one_mul, one_mul] at hpolar
  obtain ⟨hcos, hsin⟩ := hpolar
  have hnonneg : 0 < Cmath.atan2 y x := by
    by_contra hle
    have := Real.sin_nonpos_of_nonpos_of_neg_pi_le (not_lt.1 hle) (Complex.neg_pi_lt_arg _).le
    linarith
  refine ⟨hcos, hsin, ?_⟩
  calc y = Real.sin (Cmath.atan2 y x) := hsin.symm
    _ < Cmath.atan2 y x := Real.sin_lt hnonneg

/-- The axis-angle vector of a unit quaternion stands for that quaternion. -/
lemma Quaternion.ofAxisAngle_ofQuaternion {q : Quaternion ℝ} (hq : q.IsUnit)
    (h : smallAngle ≤ vecNorm q.imag) : ofAxisAngle (AxisAngle.ofQuaternion q) = q := by
  have hpos : 0 < vecNorm q.imag := smallAngle_pos.trans_le h
  have hone : q 0 ^ 2 + vecNorm q.imag ^ 2 = 1 := by
    rw [pow_two (vecNorm _), vecNorm_mul_self, dot_self_vec3]
    rw [IsUnit, dot_self] at hq
    simp only [imag, Matrix.cons_val]
    linarith
  obtain ⟨hcos, hsin, hlt⟩ := sin_arg_upper hpos hone
  rw [AxisAngle.ofQuaternion, if_pos (by rwa [abs_of_pos hpos])]
  generalize hmag : vecNorm q.imag = mag at h hpos hcos hsin hlt
  generalize hhalf : Cmath.atan2 mag (q 0) = half at hcos hsin hlt
  have hhalfPos : 0 < half := hpos.trans hlt
  have hangle : vecNorm (vecMulScalar q.imag (2 * half / mag)) = 2 * half := by
    rw [vecNorm_vecMulScalar _ (by positivity), hmag, mul_div_cancel₀ _ hpos.ne']
  have haxis : ∀ i, vecUnit (vecMulScalar q.imag (2 * half / mag)) i * mag = q.imag i := by
    intro i
    rw [vecUnit, hangle, vecDivScalar_apply, vecMulScalar_apply]
    field_simp
  have hlarge : ¬ 2 * half < smallAngle := by linarith
  rw [Quaternion.ofAxisAngle, hangle, if_neg hlarge, mul_div_cancel_left₀ _ two_ne_zero, cos_real,
    sin_real, hcos, hsin]
  simp only [haxis]
  funext i
  fin_cases i <;> rfl

/-- An axis-angle vector of less than a full turn is recovered from its quaternion. -/
lemma AxisAngle.ofQuaternion_ofAxisAngle {v : AxisAngle ℝ} (h : smallAngle ≤ vecNorm v)
    (hturn : vecNorm v < 2 * Real.pi) (hsin : smallAngle ≤ Real.sin (vecNorm v / 2)) :
    AxisAngle.ofQuaternion (Quaternion.ofAxisAngle v) = v := by
  have hpos : 0 < vecNorm v := smallAngle_pos.trans_le h
  have hsinPos := smallAngle_pos.trans_le hsin
  have hpi := Real.pi_pos
  have himag : (Quaternion.ofAxisAngle v).imag =
      vecMulScalar v (Real.sin (vecNorm v / 2) / vecNorm v) := by
    rw [Quaternion.ofAxisAngle, if_neg h.not_gt]
    funext i
    fin_cases i <;> simp [Quaternion.imag, vecUnit] <;> ring
  have hmag : vecNorm (Quaternion.ofAxisAngle v).imag = Real.sin (vecNorm v / 2) := by
    rw [himag, vecNorm_vecMulScalar _ (by positivity), mul_div_cancel₀ _ hpos.ne']
  have hreal : Quaternion.ofAxisAngle v 0 = Real.cos (vecNorm v / 2) := by
    rw [Quaternion.ofAxisAngle, if_neg h.not_gt]
    rfl
  have hrange : -Real.pi < vecNorm v / 2 ∧ vecNorm v / 2 ≤ Real.pi := by
    constructor <;> linarith
  have hpolar := atan2_polar one_pos hrange
  rw [one_mul, one_mul] at hpolar
  rw [AxisAngle.ofQuaternion, hmag, if_pos (by rwa [abs_of_pos hsinPos]), hreal, hpolar, himag]
  funext i
  rw [vecMulScalar_apply, vecMulScalar_apply]
  field_simp

/-- The conversions between unit quaternions and axis-angle vectors undo each other, also past the
half turn. -/
theorem axisAngle_quaternion_inverse :
    (∀ q : Quaternion ℝ, q.IsUnit → smallAngle ≤ vecNorm q.imag →
      Quaternion.ofAxisAngle (AxisAngle.ofQuaternion q) = q) ∧
    ∀ v : AxisAngle ℝ, smallAngle ≤ vecNorm v → vecNorm v < 2 * Real.pi →
      smallAngle ≤ Real.sin (vecNorm v / 2) →
      AxisAngle.ofQuaternion (Quaternion.ofAxisAngle v) = v :=
  ⟨fun _ hq h => Quaternion.ofAxisAngle_ofQuaternion hq h,
    fun _ h hturn hsin => AxisAngle.ofQuaternion_ofAxisAngle h hturn hsin⟩

/-- A quaternion with a negative real part, and half a turn. -/
theorem axisAngle_quaternion_inverse_turns :
    Quaternion.ofAxisAngle (AxisAngle.ofQuaternion (![-(3 / 5), 4 / 5, 0, 0] : Quaternion ℝ)) =
        ![-(3 / 5), 4 / 5, 0, 0] ∧
      AxisAngle.ofQuaternion (Quaternion.ofAxisAngle ![Real.pi, 0, 0]) = ![Real.pi, 0, 0] := by
  obtain ⟨hquaternion, hvector⟩ := axisAngle_quaternion_inverse
  have hpi := Real.two_le_pi
  have hnorm : vecNorm (![Real.pi, 0, 0] : AxisAngle ℝ) = Real.pi := by
    rw [vecNorm, dot_self_vec3]
    simp [Real.sqrt_mul_self Real.pi_pos.le]
  refine ⟨hquaternion _ ?_ ?_, hvector _ ?_ ?_ ?_⟩
  · rw [Quaternion.IsUnit, Quaternion.dot_self]
    simp only [Matrix.cons_val]
    norm_num
  · rw [vecNorm, dot_self_vec3, sqrt_real]
    refine Real.le_sqrt_of_sq_le ?_
    simp only [Quaternion.imag, Matrix.cons_val, smallAngle]
    norm_num
  · rw [hnorm, smallAngle]
    linarith
  · rw [hnorm]
    linarith
  · rw [hnorm, Real.sin_pi_div_two, smallAngle]
    norm_num

end Logarithm

end RT1064.Mat
