import Mathlib.Analysis.Real.Sqrt
import Mathlib.Tactic.Linarith
import Mathlib.Tactic.Ring
import RT1064.Core.Numerals

/-!
# The larger root of a quadratic

`x² + b x + c` over the reals. Where the discriminant is not negative, the quadratic formula with
the positive root gives the largest zero, which bounds all numbers with a value that is not
positive.
-/

namespace RT1064.Core

attribute [local instance] atLeastTwo_two atLeastTwo_four

/-- The value of the quadratic formula with the positive square root. -/
noncomputable def upperRoot (b c : ℝ) : ℝ := (-b + √(b * b - 4 * c)) / 2

variable {b c x : ℝ}

/-- The square is completed. -/
lemma discriminant_eq (b c x : ℝ) :
    b * b - 4 * c = (2 * x + b) * (2 * x + b) - 4 * (x * x + b * x + c) := by ring

lemma discriminant_nonneg (h : x * x + b * x + c ≤ 0) : 0 ≤ b * b - 4 * c := by
  rw [discriminant_eq b c x]
  linarith [mul_self_nonneg (2 * x + b)]

lemma two_mul_upperRoot_add (b c : ℝ) : 2 * upperRoot b c + b = √(b * b - 4 * c) := by
  rw [upperRoot]
  ring

lemma upperRoot_isRoot (h : 0 ≤ b * b - 4 * c) :
    upperRoot b c * upperRoot b c + b * upperRoot b c + c = 0 := by
  have hsquare := discriminant_eq b c (upperRoot b c)
  rw [two_mul_upperRoot_add, Real.mul_self_sqrt h] at hsquare
  linarith

/-- No number over the root has a value that is not positive. -/
lemma le_upperRoot (h : x * x + b * x + c ≤ 0) : x ≤ upperRoot b c := by
  have hle : 2 * x + b ≤ √(b * b - 4 * c) := by
    refine Real.le_sqrt_of_sq_le ?_
    rw [discriminant_eq b c x, pow_two]
    linarith
  linarith [two_mul_upperRoot_add b c]

/-- The zero on the right of the vertex is the larger root. -/
lemma eq_upperRoot (h : x * x + b * x + c = 0) (hx : 0 ≤ 2 * x + b) : x = upperRoot b c := by
  have hsqrt : √(b * b - 4 * c) = 2 * x + b := by
    rw [discriminant_eq b c x, h, mul_zero, sub_zero, Real.sqrt_mul_self hx]
  linarith [two_mul_upperRoot_add b c]

/-- The root grows when the constant coefficient falls. -/
lemma upperRoot_mono {c' : ℝ} (h : c' ≤ c) : upperRoot b c ≤ upperRoot b c' := by
  have hsqrt : √(b * b - 4 * c) ≤ √(b * b - 4 * c') := Real.sqrt_le_sqrt (by linarith)
  linarith [two_mul_upperRoot_add b c, two_mul_upperRoot_add b c']

/-- Both roots are negative if and only if both coefficients are positive. -/
lemma upperRoot_neg_iff : upperRoot b c < 0 ↔ 0 < b ∧ 0 < c := by
  constructor
  · intro h
    have hb : √(b * b - 4 * c) < b := by linarith [two_mul_upperRoot_add b c]
    refine ⟨(Real.sqrt_nonneg _).trans_lt hb, ?_⟩
    by_contra hc
    exact h.not_ge (le_upperRoot (by linarith [not_lt.1 hc]))
  · rintro ⟨hb, hc⟩
    have hsqrt : √(b * b - 4 * c) < b := by
      rw [Real.sqrt_lt' hb, pow_two]
      linarith
    linarith [two_mul_upperRoot_add b c]

/-- The zero that no other zero is larger than is the larger root. -/
lemma isGreatest_root_iff :
    (x * x + b * x + c = 0 ∧ ∀ y, y * y + b * y + c = 0 → y ≤ x) ↔
      0 ≤ b * b - 4 * c ∧ x = upperRoot b c := by
  constructor
  · rintro ⟨hzero, hmax⟩
    have hdisc : 0 ≤ b * b - 4 * c := discriminant_nonneg hzero.le
    exact ⟨hdisc, le_antisymm (le_upperRoot hzero.le) (hmax _ (upperRoot_isRoot hdisc))⟩
  · rintro ⟨hdisc, rfl⟩
    exact ⟨upperRoot_isRoot hdisc, fun y h => le_upperRoot h.le⟩

lemma exists_nonneg_root_iff :
    (∃ x, 0 ≤ x ∧ x * x + b * x + c = 0) ↔ 0 ≤ b * b - 4 * c ∧ 0 ≤ upperRoot b c := by
  constructor
  · rintro ⟨x, hx, hzero⟩
    exact ⟨discriminant_nonneg hzero.le, hx.trans (le_upperRoot hzero.le)⟩
  · rintro ⟨hdisc, hroot⟩
    exact ⟨upperRoot b c, hroot, upperRoot_isRoot hdisc⟩

/-- With a constant coefficient that is not positive, dropping the linear coefficient keeps the
larger root only if that coefficient is zero or both roots are not positive. -/
lemma upperRoot_zero_eq_iff (hc : c ≤ 0) :
    upperRoot 0 c = upperRoot b c ↔ b = 0 ∨ (c = 0 ∧ 0 ≤ b) := by
  have hroot := upperRoot_isRoot (b := 0) (c := c) (by linarith)
  constructor
  · intro h
    have hroot' := upperRoot_isRoot (b := b) (c := c) (by linarith [mul_self_nonneg b])
    rw [← h] at hroot'
    have hprod : b * upperRoot 0 c = 0 := by linarith
    rcases mul_eq_zero.1 hprod with hb | hzero
    · exact .inl hb
    · rw [hzero] at hroot
      refine .inr ⟨by linarith, ?_⟩
      have hsqrt := two_mul_upperRoot_add b c
      rw [← h, hzero, mul_zero, zero_add] at hsqrt
      exact (Real.sqrt_nonneg _).trans_eq hsqrt.symm
  · rintro (rfl | ⟨rfl, hb⟩)
    · rfl
    · have h0 : (0 : ℝ) = upperRoot 0 0 := eq_upperRoot (by ring) (by simp)
      have hb0 : (0 : ℝ) = upperRoot b 0 := eq_upperRoot (by ring) (by linarith)
      exact h0.symm.trans hb0

end RT1064.Core
