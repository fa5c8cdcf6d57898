import Mathlib.Analysis.SpecialFunctions.Complex.Arg
import Mathlib.Analysis.SpecialFunctions.Trigonometric.Inverse

/-!
# The functions of `<cmath>`

The library is generic in its scalar type and calls the mathematical functions of that type. Over
the reals these are the ideal functions.
-/

namespace RT1064.Mat

/-- The functions of `<cmath>` that the library calls. -/
class Cmath (K : Type*) where
  sqrt : K → K
  sin : K → K
  cos : K → K
  asin : K → K
  atan2 : K → K → K

noncomputable instance : Cmath ℝ where
  sqrt := Real.sqrt
  sin := Real.sin
  cos := Real.cos
  asin := Real.arcsin
  atan2 := fun y x => Complex.arg ⟨x, y⟩

@[simp] lemma sqrt_real (x : ℝ) : Cmath.sqrt x = √x := rfl

@[simp] lemma sin_real (x : ℝ) : Cmath.sin x = Real.sin x := rfl

@[simp] lemma cos_real (x : ℝ) : Cmath.cos x = Real.cos x := rfl

@[simp] lemma asin_real (x : ℝ) : Cmath.asin x = Real.arcsin x := rfl

/-- `atan2` recovers the angle of polar coordinates. -/
lemma atan2_polar {r θ : ℝ} (hr : 0 < r) (hθ : -Real.pi < θ ∧ θ ≤ Real.pi) :
    Cmath.atan2 (r * Real.sin θ) (r * Real.cos θ) = θ := by
  have hpolar : (⟨r * Real.cos θ, r * Real.sin θ⟩ : ℂ) =
      r * (Complex.cos θ + Complex.sin θ * Complex.I) := by
    apply Complex.ext <;> simp [Complex.cos_ofReal_re, Complex.sin_ofReal_re]
  show Complex.arg ⟨r * Real.cos θ, r * Real.sin θ⟩ = θ
  rw [hpolar, Complex.arg_mul_cos_add_sin_mul_I hr hθ]

/-- `atan2` gives an angle of the polar coordinates of its arguments. -/
lemma polar_atan2 {x y : ℝ} (h : 0 < x ^ 2 + y ^ 2) :
    √(x ^ 2 + y ^ 2) * Real.cos (Cmath.atan2 y x) = x ∧
      √(x ^ 2 + y ^ 2) * Real.sin (Cmath.atan2 y x) = y := by
  have hnorm : ‖(⟨x, y⟩ : ℂ)‖ = √(x ^ 2 + y ^ 2) := by
    rw [Complex.norm_def, Complex.normSq_mk, pow_two, pow_two]
  have hne : (⟨x, y⟩ : ℂ) ≠ 0 := by
    rw [← norm_pos_iff, hnorm]
    exact Real.sqrt_pos.2 h
  rw [← hnorm]
  exact ⟨Complex.norm_mul_cos_arg ⟨x, y⟩, Complex.norm_mul_sin_arg ⟨x, y⟩⟩

end RT1064.Mat
