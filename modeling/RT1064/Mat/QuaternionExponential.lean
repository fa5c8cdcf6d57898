import Mathlib.Analysis.SpecialFunctions.Trigonometric.Sinc
import RT1064.Core.TrigSeries
import RT1064.Mat.AxisAngle

/-!
# The quaternion exponential

The exponential of a vector, with the first terms of the series in place of the sine and the cosine
of a short one.
-/

namespace RT1064.Mat

open Core

variable {K : Type*} {M : ℕ}

namespace Quaternion

/-! ### The computation -/

section Model

variable [Field K] [LinearOrder K] [Cmath K]

/-- `sinc_u` and `cos_u`. -/
structure SincCos (K : Type*) where
  sincU : K
  cosU : K

/-- The factors of `expq`, which have no value if the norm is divided by and is zero. -/
def sincCos (uNorm : K) : Option (SincCos K) :=
  let tol := 1 / 5
  let c2 := 1 / 2
  let c3 := 1 / 6
  let c4 := 1 / 24
  let c5 := 1 / 120
  let c6 := 1 / 720
  let c7 := 1 / 5040
  if uNorm < tol then
    let u2 := uNorm * uNorm
    let u4 := u2 * u2
    let u6 := u4 * u2
    -- compute the first 4 terms of the Taylor series
    some { sincU := 1 - u2 * c3 + u4 * c5 - u6 * c7, cosU := 1 - u2 * c2 + u4 * c4 - u6 * c6 }
  else
    (divide (Cmath.sin uNorm) uNorm).map fun sincU => { sincU := sincU, cosU := Cmath.cos uNorm }

/-- `Quaternion::expq`. -/
def expq (u : Fin 3 → K) : Option (Quaternion K) :=
  (sincCos (vecNorm u)).map fun s =>
    let v := vecMulScalar u s.sincU
    ![s.cosU, v 0, v 1, v 2]

end Model

/-! ### The exponential -/

/-- The exponential of a vector, `[cos ‖u‖, sinc ‖u‖ * u]`. -/
noncomputable def exponential (u : Fin 3 → ℝ) : Quaternion ℝ :=
  ![Real.cos (vecNorm u), Real.sinc (vecNorm u) * u 0, Real.sinc (vecNorm u) * u 1,
    Real.sinc (vecNorm u) * u 2]

lemma abs_le_vecNorm (a : Fin M → ℝ) (i : Fin M) : |a i| ≤ vecNorm a := by
  refine Real.abs_le_sqrt ?_
  rw [pow_two, dot_eq]
  exact Finset.single_le_sum (f := fun i => a i * a i) (fun _ _ => mul_self_nonneg _)
    (Finset.mem_univ i)

lemma sinc_mul_self (x : ℝ) : Real.sinc x * x = Real.sin x := by
  rcases eq_or_ne x 0 with rfl | h
  · simp
  · rw [Real.sinc_of_ne_zero h, div_mul_cancel₀ _ h]

/-- Four terms are enough up to the radius where the branch ends. -/
lemma expRemainder_lt {x : ℝ} (hx : |x| ≤ 1 / 5) : expRemainder (2 * 4) x < 1 / 10 ^ 10 := by
  refine (expRemainder_le hx).trans_lt ?_
  norm_num [expRemainder, Nat.factorial]

section Branch

variable {u : Fin 3 → ℝ}

/-- The factors of a short vector are the sums of the series. -/
lemma sincCos_short {r : ℝ} (h : r < 1 / 5) : ∃ s, sincCos r = some s ∧
    s.sincU * r = sinSum 4 r ∧ s.cosU = cosSum 4 r := by
  refine ⟨_, if_pos h, ?_, ?_⟩
  · simp only [sinSum, Finset.sum_range_succ, Finset.sum_range_zero, Nat.factorial]
    push_cast
    ring
  · simp only [cosSum, Finset.sum_range_succ, Finset.sum_range_zero, Nat.factorial]
    push_cast
    ring

/-- A short vector is within the remainder of the series. -/
lemma expq_short (h : vecNorm u < 1 / 5) :
    ∃ q, expq u = some q ∧ ∀ i, |q i - exponential u i| < 1 / 10 ^ 10 := by
  obtain ⟨s, hs, hsin, hcos⟩ := sincCos_short h
  have hnonneg := vecNorm_nonneg u
  have habs : |vecNorm u| ≤ 1 / 5 := by
    rw [abs_of_nonneg hnonneg]
    exact h.le
  have hone : |vecNorm u| ≤ 1 := habs.trans (by norm_num)
  have hrem := expRemainder_lt habs
  have hreal : |s.cosU - Real.cos (vecNorm u)| < 1 / 10 ^ 10 := by
    rw [hcos, abs_sub_comm]
    exact (abs_cos_sub_cosSum_le four_pos hone).trans_lt hrem
  have himag : ∀ i, |u i * s.sincU - Real.sinc (vecNorm u) * u i| < 1 / 10 ^ 10 := by
    intro i
    calc |u i * s.sincU - Real.sinc (vecNorm u) * u i|
        = |s.sincU - Real.sinc (vecNorm u)| * |u i| := by
          rw [← abs_mul]
          ring_nf
      _ ≤ |s.sincU - Real.sinc (vecNorm u)| * vecNorm u :=
          mul_le_mul_of_nonneg_left (abs_le_vecNorm u i) (abs_nonneg _)
      _ = |Real.sin (vecNorm u) - sinSum 4 (vecNorm u)| := by
          rw [← hsin, ← sinc_mul_self, ← sub_mul, abs_mul, abs_of_nonneg hnonneg, abs_sub_comm]
      _ ≤ expRemainder (2 * 4) (vecNorm u) := abs_sin_sub_sinSum_le four_pos hone
      _ < 1 / 10 ^ 10 := hrem
  refine ⟨_, by rw [expq, hs, Option.map_some], ?_⟩
  intro i
  fin_cases i
  · exact hreal
  · exact himag 0
  · exact himag 1
  · exact himag 2

/-- A vector that is not short has its exponential, which is also the quaternion of twice the
vector as an axis-angle vector. -/
lemma expq_of_le (h : 1 / 5 ≤ vecNorm u) :
    expq u = some (exponential u) ∧ exponential u = ofAxisAngle (vecMulScalar u 2) := by
  have hne : vecNorm u ≠ 0 := by
    intro h0
    rw [h0] at h
    norm_num at h
  have hnorm : vecNorm (vecMulScalar u 2) = vecNorm u * 2 := vecNorm_vecMulScalar u zero_le_two
  have hlarge : ¬ vecNorm u * 2 < smallAngle := by
    rw [smallAngle]
    linarith
  constructor
  · rw [expq, sincCos, if_neg h.not_gt, divide_of_ne_zero _ hne, Option.map_some, Option.map_some,
      exponential, Real.sinc_of_ne_zero hne]
    simp only [vecMulScalar_apply, sin_real, cos_real, mul_comm]
  · have haxis : ∀ i, Real.sinc (vecNorm u) * u i =
        vecUnit (vecMulScalar u 2) i * Real.sin (vecNorm u) := by
      intro i
      rw [Real.sinc_of_ne_zero hne, vecUnit, hnorm, vecDivScalar_apply, vecMulScalar_apply]
      field_simp
    rw [ofAxisAngle, hnorm, if_neg hlarge, mul_div_cancel_right₀ _ two_ne_zero, exponential, haxis,
      haxis, haxis]
    rfl

end Branch

/-- The computation of the exponential never divides by zero and is within `1e-10` of the
exponential. From a norm of `0.2` on it is exact, and the quaternion of an axis-angle vector. -/
theorem expq_correct (u : Fin 3 → ℝ) : ∃ q, expq u = some q ∧
    (∀ i, |q i - exponential u i| < 1 / 10 ^ 10) ∧
    (1 / 5 ≤ vecNorm u → q = exponential u ∧ q = ofAxisAngle (vecMulScalar u 2)) := by
  rcases lt_or_ge (vecNorm u) (1 / 5) with h | h
  · obtain ⟨q, hq, herror⟩ := expq_short h
    exact ⟨q, hq, herror, fun hle => absurd hle h.not_ge⟩
  · obtain ⟨hq, haxisAngle⟩ := expq_of_le h
    refine ⟨exponential u, hq, fun i => ?_, fun _ => ⟨rfl, haxisAngle⟩⟩
    rw [sub_self, abs_zero]
    positivity

/-- The exponential of half a unit vector. -/
theorem expq_correct_axis : expq (![1 / 2, 0, 0] : Fin 3 → ℝ) =
    some (ofAxisAngle (vecMulScalar ![1 / 2, 0, 0] 2)) := by
  obtain ⟨q, hq, -, hexact⟩ := expq_correct ![1 / 2, 0, 0]
  rw [hq, (hexact ?_).2]
  rw [vecNorm, dot_self_vec3, sqrt_real]
  refine Real.le_sqrt_of_sq_le ?_
  simp only [Matrix.cons_val]
  norm_num

end Quaternion

end RT1064.Mat
