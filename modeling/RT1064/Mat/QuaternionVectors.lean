import Mathlib.LinearAlgebra.CrossProduct
import RT1064.Mat.AxisAngle

/-!
# The rotation between two vectors

The quaternion of the shortest rotation from one vector to another, with a branch of its own for
vectors that point in opposite directions.
-/

namespace RT1064.Mat

open Core Matrix

variable {K : Type*} {M : ℕ}

/-! ### The constructor -/

section Model

/-- `Vector3::cross`. -/
def cross [CommRing K] (a b : Fin 3 → K) : Fin 3 → K :=
  ![a 1 * b 2 - a 2 * b 1, -a 0 * b 2 + a 2 * b 0, a 0 * b 1 - a 1 * b 0]

/-- `Vector::norm_squared`. -/
def normSquared [CommRing K] (a : Fin M → K) : K := dot a a

/-- `Matrix::abs`. -/
def vecAbs [Field K] [LinearOrder K] (a : Fin M → K) : Fin M → K := fun i => |a i|

variable [Field K] [LinearOrder K]

/-- The axis of the smallest component. -/
def smallestAxis (cr : Fin 3 → K) : Fin 3 → K :=
  if cr 0 < cr 1 then
    if cr 0 < cr 2 then ![1, 0, 0] else ![0, 0, 1]
  else
    if cr 1 < cr 2 then ![0, 1, 0] else ![0, 0, 1]

/-- `Vector::normalize`. -/
def normalize [Cmath K] (a : Fin M → K) : Fin M → K := vecDivScalar a (vecNorm a)

/-- `Type(1e-5)`, the default of `eps`. -/
def defaultEps : K := 1 / 100000

/-- `Quaternion(const Vector3 &, const Vector3 &, Type)`. -/
def Quaternion.ofVectors [Cmath K] (src dst : Fin 3 → K) (eps : K) : Quaternion K :=
  let cr := cross src dst
  let dt := dot src dst
  if vecNorm cr < eps ∧ dt < 0 then
    -- handle corner cases with 180 degree rotations
    let cr := cross src (smallestAxis (vecAbs src))
    normalize ![0, cr 0, cr 1, cr 2]
  else
    -- normal case, do half-way quaternion solution
    normalize ![dt + Cmath.sqrt (normSquared src * normSquared dst), cr 0, cr 1, cr 2]

end Model

lemma cross_eq [CommRing K] (a b : Fin 3 → K) : cross a b = a ⨯₃ b := by
  rw [cross_apply, cross]
  funext i
  fin_cases i <;>
    simp only [↓Matrix.cons_val, Fin.isValue, Fin.zero_eta, Fin.mk_one, Fin.reduceFinMk]
  ring

lemma vecAbs_apply [Field K] [LinearOrder K] (a : Fin M → K) (i : Fin M) : vecAbs a i = |a i| := rfl

lemma dot_eq_dotProduct [CommRing K] (a b : Fin M → K) : dot a b = a ⬝ᵥ b := dot_eq a b

/-! ### The rotation of a quaternion by its parts -/

namespace Quaternion

section Field

variable [Field K]

/-- The quaternion with a real part and an imaginary part. -/
def ofParts (a : K) (c : Fin 3 → K) : Quaternion K := ![a, c 0, c 1, c 2]

lemma dot_ofParts (a : K) (c : Fin 3 → K) :
    dot (ofParts a c) (ofParts a c) = a * a + c ⬝ᵥ c := by
  rw [dot_self, dotProduct, Fin.sum_univ_three, ofParts]
  simp only [Matrix.cons_val]
  ring

/-- The rotation in terms of the products of vectors. -/
lemma rotation_ofParts_mulVec (a : K) (c v : Fin 3 → K) :
    (rotation (ofParts a c)).mulVec v =
      (a * a - c ⬝ᵥ c) • v + (2 * (c ⬝ᵥ v)) • c + (2 * a) • (c ⨯₃ v) := by
  funext i
  rw [cross_apply, Matrix.mulVec]
  simp only [dotProduct, Fin.sum_univ_three, Pi.add_apply, Pi.smul_apply, smul_eq_mul]
  fin_cases i <;>
    simp only [rotation, ofParts, ↓Matrix.of_apply, ↓Matrix.cons_val, Fin.isValue, Fin.zero_eta,
      Fin.mk_one, Fin.reduceFinMk] <;>
    ring

/-- The half-way quaternion turns the source to the destination. -/
lemma rotation_halfway {src dst : Fin 3 → K} {r : K}
    (hr : r * r = (src ⬝ᵥ src) * (dst ⬝ᵥ dst)) :
    (rotation (ofParts (src ⬝ᵥ dst + r) (src ⨯₃ dst))).mulVec src =
        (2 * (src ⬝ᵥ dst + r) * (src ⬝ᵥ src)) • dst ∧
      dot (ofParts (src ⬝ᵥ dst + r) (src ⨯₃ dst)) (ofParts (src ⬝ᵥ dst + r) (src ⨯₃ dst)) =
        2 * (src ⬝ᵥ dst + r) * r := by
  have hsq : (src ⨯₃ dst) ⬝ᵥ (src ⨯₃ dst) = r * r - (src ⬝ᵥ dst) * (src ⬝ᵥ dst) := by
    rw [cross_dot_cross, hr, dotProduct_comm dst src]
  have horth : (src ⨯₃ dst) ⬝ᵥ src = 0 := by rw [dotProduct_comm, dot_self_cross]
  constructor
  · rw [rotation_ofParts_mulVec, cross_cross_eq_smul_sub_smul, hsq, horth, dotProduct_comm dst src]
    module
  · rw [dot_ofParts, hsq]
    ring

/-- A quaternion without a real part turns what is orthogonal to it to the opposite side. -/
lemma rotation_halfTurn {src c : Fin 3 → K} (horth : c ⬝ᵥ src = 0) :
    (rotation (ofParts 0 c)).mulVec src = -(c ⬝ᵥ c) • src := by
  rw [rotation_ofParts_mulVec, horth]
  module

lemma rotation_vecMulScalar (q : Quaternion K) (s : K) :
    rotation (vecMulScalar q s) = (s * s) • rotation q := by
  simp only [Dcm.eq_iff_entries, rotation, vecMulScalar_apply, Matrix.smul_apply, Matrix.of_apply,
    Matrix.cons_val, smul_eq_mul]
  refine ⟨⟨?_, ?_, ?_⟩, ⟨?_, ?_, ?_⟩, ?_, ?_, ?_⟩ <;> ring

end Field

/-! ### Normalized quaternions -/

section Normalize

/-- The square of the factor that normalizes. -/
lemma one_div_vecNorm_mul_self (q : Quaternion ℝ) :
    1 / vecNorm q * (1 / vecNorm q) = 1 / dot q q := by
  rw [← vecNorm_mul_self, one_div_mul_one_div]

variable {q : Quaternion ℝ} (hq : dot q q ≠ 0)

include hq

lemma isUnit_normalize : IsUnit (normalize q) := by
  rw [IsUnit, normalize, vecDivScalar, dot_vecMulScalar, one_div_vecNorm_mul_self,
    mul_one_div_cancel hq]

lemma rotateVector_normalize (v : Fin 3 → ℝ) :
    rotateVector (normalize q) v = (1 / dot q q) • (rotation q).mulVec v := by
  rw [(isUnit_normalize hq).rotateVector_eq, normalize, vecDivScalar, rotation_vecMulScalar,
    one_div_vecNorm_mul_self, Matrix.smul_mulVec]

end Normalize

/-! ### The rotation from the source to the destination -/

/-- A unit quaternion that turns the direction of the source to that of the destination. -/
structure Aligns (q : Quaternion ℝ) (src dst : Fin 3 → ℝ) : Prop where
  isUnit : q.IsUnit
  direction : vecDivScalar (rotateVector q src) (vecNorm src) = vecDivScalar dst (vecNorm dst)

lemma defaultEps_pos : (0 : ℝ) < defaultEps := by
  rw [defaultEps]
  positivity

section Vectors

variable {src dst : Fin 3 → ℝ}

/-- The root in the real part is the product of the norms. -/
lemma sqrt_normSquared (src dst : Fin 3 → ℝ) :
    Cmath.sqrt (normSquared src * normSquared dst) = vecNorm src * vecNorm dst := by
  rw [sqrt_real, normSquared, normSquared, Real.sqrt_mul (dot_self_nonneg src)]
  rfl

/-- The square of the product of the norms. -/
lemma vecNorm_mul_sq (src dst : Fin 3 → ℝ) :
    vecNorm src * vecNorm dst * (vecNorm src * vecNorm dst) = (src ⬝ᵥ src) * (dst ⬝ᵥ dst) := by
  rw [mul_mul_mul_comm, vecNorm_mul_self, vecNorm_mul_self, dot_eq_dotProduct, dot_eq_dotProduct]

/-- Vectors that are not opposite have a half-way quaternion. -/
lemma aligns_halfway (hsrc : src ≠ 0) (hdst : dst ≠ 0)
    (hpos : 0 < dot src dst + vecNorm src * vecNorm dst) :
    Aligns (normalize (ofParts (dot src dst + vecNorm src * vecNorm dst) (cross src dst)))
      src dst := by
  rw [dot_eq_dotProduct] at hpos ⊢
  rw [cross_eq]
  have hs := vecNorm_pos hsrc
  have hd := vecNorm_pos hdst
  obtain ⟨hturn, hnorm⟩ := rotation_halfway (vecNorm_mul_sq src dst)
  generalize src ⬝ᵥ dst + vecNorm src * vecNorm dst = a at hpos hturn hnorm ⊢
  have hne : dot (ofParts a (src ⨯₃ dst)) (ofParts a (src ⨯₃ dst)) ≠ 0 := by
    rw [hnorm]
    positivity
  refine ⟨isUnit_normalize hne, ?_⟩
  rw [rotateVector_normalize hne, hturn, hnorm, ← dot_eq_dotProduct, ← vecNorm_mul_self]
  funext i
  rw [vecDivScalar_apply, vecDivScalar_apply, Pi.smul_apply, Pi.smul_apply, smul_eq_mul,
    smul_eq_mul]
  field_simp

/-- Vectors with a cross product are not opposite. -/
lemma halfway_pos (hcross : cross src dst ≠ 0) :
    0 < dot src dst + vecNorm src * vecNorm dst := by
  have hsq := (dot_self_nonneg _).lt_of_ne' (dot_self_ne_zero hcross)
  rw [dot_eq_dotProduct]
  rw [cross_eq, dot_eq_dotProduct, cross_dot_cross, ← vecNorm_mul_sq, dotProduct_comm dst src,
    sub_pos, ← pow_two, ← pow_two] at hsq
  have habs := abs_lt_of_sq_lt_sq hsq (mul_nonneg (vecNorm_nonneg src) (vecNorm_nonneg dst))
  linarith [(abs_lt.1 habs).1]

/-- The product with the axis of the smallest component does not vanish. -/
lemma cross_smallestAxis_ne_zero (hsrc : src ≠ 0) : cross src (smallestAxis (vecAbs src)) ≠ 0 := by
  -- the axis is crossed with a component that is not the smallest one and does not vanish
  rw [smallestAxis]
  split_ifs with h01 h02 h12
  · intro h
    have h1 : src 1 = 0 := by simpa [cross] using congrFun h 2
    rw [vecAbs_apply, vecAbs_apply, h1, abs_zero] at h01
    exact h01.not_ge (abs_nonneg _)
  · intro h
    have h1 : src 1 = 0 := by simpa [cross] using congrFun h 0
    rw [vecAbs_apply, vecAbs_apply, h1, abs_zero] at h01
    exact h01.not_ge (abs_nonneg _)
  · intro h
    have h2 : src 2 = 0 := by simpa [cross] using congrFun h 0
    rw [vecAbs_apply, vecAbs_apply, h2, abs_zero] at h12
    exact h12.not_ge (abs_nonneg _)
  · intro h
    have h1 : src 1 = 0 := by simpa [cross] using congrFun h 0
    have h0 : src 0 = 0 := by simpa [cross] using congrFun h 1
    have h2 : src 2 = 0 := by
      rw [vecAbs_apply, vecAbs_apply, h1, abs_zero, not_lt] at h12
      exact abs_nonpos_iff.1 h12
    refine hsrc (funext fun i => ?_)
    fin_cases i
    · exact h0
    · exact h1
    · exact h2

/-- The corner case turns the source to the opposite side. -/
lemma rotateVector_corner (hsrc : src ≠ 0) :
    IsUnit (normalize (ofParts 0 (cross src (smallestAxis (vecAbs src))))) ∧
      rotateVector (normalize (ofParts 0 (cross src (smallestAxis (vecAbs src))))) src = -src := by
  have hcross := cross_smallestAxis_ne_zero hsrc
  have horth : cross src (smallestAxis (vecAbs src)) ⬝ᵥ src = 0 := by
    rw [cross_eq, dotProduct_comm, dot_self_cross]
  generalize cross src (smallestAxis (vecAbs src)) = c at hcross horth
  have hc : c ⬝ᵥ c ≠ 0 := dotProduct_self_eq_zero.not.2 hcross
  have hnorm : dot (ofParts 0 c) (ofParts 0 c) = c ⬝ᵥ c := by
    rw [dot_ofParts, mul_zero, zero_add]
  have hne : dot (ofParts 0 c) (ofParts 0 c) ≠ 0 := by rwa [hnorm]
  refine ⟨isUnit_normalize hne, ?_⟩
  rw [rotateVector_normalize hne, rotation_halfTurn horth, hnorm, smul_smul, mul_neg,
    one_div_mul_cancel hc, neg_one_smul]

/-- Opposite directions are those of vectors without a cross product. -/
lemma neg_direction_iff (hsrc : src ≠ 0) (hdst : dst ≠ 0) (hdot : dot src dst < 0) :
    vecDivScalar (-src) (vecNorm src) = vecDivScalar dst (vecNorm dst) ↔ cross src dst = 0 := by
  rw [dot_eq_dotProduct] at hdot
  rw [cross_eq]
  have hs := vecNorm_pos hsrc
  have hd := vecNorm_pos hdst
  constructor
  · intro h
    have hdst : dst = -(vecNorm dst / vecNorm src) • src := by
      funext i
      have hi := congrFun h i
      rw [vecDivScalar_apply, vecDivScalar_apply, Pi.neg_apply] at hi
      rw [Pi.smul_apply, smul_eq_mul]
      field_simp at hi ⊢
      linear_combination -hi
    rw [hdst, map_smul, cross_self, smul_zero]
  · intro h
    have hsq := cross_dot_cross src dst src dst
    rw [h, zero_dotProduct, ← vecNorm_mul_sq, dotProduct_comm dst src] at hsq
    have hr : vecNorm src * vecNorm dst = -(src ⬝ᵥ dst) := by
      rcases mul_self_eq_mul_self_iff.1 (sub_eq_zero.1 hsq.symm) with heq | heq
      · have := mul_pos hs hd
        linarith
      · exact heq
    have htriple := cross_cross_eq_smul_sub_smul src dst src
    rw [h, map_zero, LinearMap.zero_apply, dotProduct_comm dst src, ← dot_eq_dotProduct src src,
      ← vecNorm_mul_self] at htriple
    funext i
    have hi := congrFun htriple i
    rw [Pi.zero_apply, Pi.sub_apply, Pi.smul_apply, Pi.smul_apply, smul_eq_mul, smul_eq_mul] at hi
    rw [vecDivScalar_apply, vecDivScalar_apply, Pi.neg_apply, div_eq_div_iff hs.ne' hd.ne']
    refine mul_left_cancel₀ hs.ne' ?_
    linear_combination hi - src i * hr

/-- The corner case is right for vectors that point in opposite directions, and only for them. -/
lemma aligns_corner_iff (hsrc : src ≠ 0) (hdst : dst ≠ 0)
    (hcorner : vecNorm (cross src dst) < defaultEps ∧ dot src dst < 0) :
    Aligns (ofVectors src dst defaultEps) src dst ↔ cross src dst = 0 := by
  obtain ⟨hunit, hturn⟩ := rotateVector_corner hsrc
  have hiff := neg_direction_iff hsrc hdst hcorner.2
  rw [← hturn] at hiff
  rw [ofVectors, if_pos hcorner, ← hiff]
  exact ⟨fun h => h.direction, fun h => ⟨hunit, h⟩⟩

/-- Outside of the corner case the quaternion is right. -/
lemma aligns_of_not_corner (hsrc : src ≠ 0) (hdst : dst ≠ 0)
    (hcorner : ¬ (vecNorm (cross src dst) < defaultEps ∧ dot src dst < 0)) :
    Aligns (ofVectors src dst defaultEps) src dst := by
  have hpos : 0 < dot src dst + vecNorm src * vecNorm dst := by
    rcases not_and_or.1 hcorner with hlong | hdot
    · refine halfway_pos fun hzero => hlong ?_
      rw [hzero, vecNorm_zero]
      exact defaultEps_pos
    · exact add_pos_of_nonneg_of_pos (not_lt.1 hdot) (mul_pos (vecNorm_pos hsrc) (vecNorm_pos hdst))
  rw [ofVectors, if_neg hcorner, sqrt_normSquared]
  exact aligns_halfway hsrc hdst hpos

/-- The quaternion of two vectors is a unit quaternion that turns the direction of the first to
that of the second, unless the angle between them is obtuse and their cross product is shorter than
the threshold without being zero. -/
theorem ofVectors_aligns_iff (hsrc : src ≠ 0) (hdst : dst ≠ 0) :
    Aligns (ofVectors src dst defaultEps) src dst ↔
      ¬ (dot src dst < 0 ∧ cross src dst ≠ 0 ∧ vecNorm (cross src dst) < defaultEps) := by
  by_cases hcorner : vecNorm (cross src dst) < defaultEps ∧ dot src dst < 0
  · rw [aligns_corner_iff hsrc hdst hcorner]
    simp only [hcorner, true_and, and_true, not_not, ne_eq]
  · refine iff_of_true (aligns_of_not_corner hsrc hdst hcorner) ?_
    rintro ⟨hdot, -, hshort⟩
    exact hcorner ⟨hshort, hdot⟩

/-- A right angle, whose cross product is shorter than the threshold. -/
theorem ofVectors_aligns_iff_right :
    Aligns (ofVectors ![1 / 1000, 0, 0] ![0, 1 / 1000, 0] defaultEps) ![1 / 1000, 0, 0]
      ![0, 1 / 1000, 0] := by
  refine (ofVectors_aligns_iff ?_ ?_).2 ?_
  · intro h
    simpa using congrFun h 0
  · intro h
    simpa using congrFun h 1
  · rintro ⟨hdot, -⟩
    rw [dot_eq, Fin.sum_univ_three] at hdot
    simp at hdot

/-- Two short vectors at an obtuse angle that is far from a half turn are taken for vectors in
opposite directions. -/
theorem ofVectors_not_aligns_short :
    let src : Fin 3 → ℝ := ![1 / 1000, 0, 0]
    let dst : Fin 3 → ℝ := ![-(4 / 1000), 3 / 1000, 0]
    src ≠ 0 ∧ dst ≠ 0 ∧ defaultEps * vecNorm src * vecNorm dst ≤ vecNorm (cross src dst) ∧
      ¬ Aligns (ofVectors src dst defaultEps) src dst := by
  intro src dst
  have hsrc : vecNorm src = 1 / 1000 := by
    refine vecNorm_eq_of_sq (by norm_num) ?_
    simp only [dot_self_vec3, src, Matrix.cons_val]
    norm_num
  have hdst : vecNorm dst = 5 / 1000 := by
    refine vecNorm_eq_of_sq (by norm_num) ?_
    simp only [dot_self_vec3, dst, Matrix.cons_val]
    norm_num
  have hcross : cross src dst = ![0, 0, 3 / 1000000] := by
    simp only [cross, src, dst, Matrix.cons_val]
    norm_num
  have hnorm : vecNorm (cross src dst) = 3 / 1000000 := by
    refine vecNorm_eq_of_sq (by norm_num) ?_
    simp only [hcross, dot_self_vec3, Matrix.cons_val]
    norm_num
  have hdot : dot src dst = -(4 / 1000000) := by
    rw [dot_eq, Fin.sum_univ_three]
    simp only [src, dst, Matrix.cons_val]
    norm_num
  have hcrossNe : cross src dst ≠ 0 := by
    rw [hcross]
    intro h
    simpa using congrFun h 2
  have hsrcNe : src ≠ 0 := by
    intro h
    simpa [src] using congrFun h 0
  have hdstNe : dst ≠ 0 := by
    intro h
    simpa [dst] using congrFun h 1
  have hcorner : vecNorm (cross src dst) < defaultEps ∧ dot src dst < 0 := by
    rw [hnorm, hdot, defaultEps]
    norm_num
  refine ⟨hsrcNe, hdstNe, ?_, fun h => hcrossNe ((aligns_corner_iff hsrcNe hdstNe hcorner).1 h)⟩
  rw [hsrc, hdst, hnorm, defaultEps]
  norm_num

end Vectors

end Quaternion

end RT1064.Mat
