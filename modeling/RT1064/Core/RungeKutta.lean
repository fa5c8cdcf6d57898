import Mathlib.Algebra.Module.LinearMap.End
import Mathlib.Analysis.Calculus.Deriv.Polynomial
import Mathlib.MeasureTheory.Integral.IntervalIntegral.FundThmCalculus
import Mathlib.Tactic.Module
import Mathlib.Topology.Algebra.Polynomial
import RT1064.Core.Numerals

/-!
# The classical Runge–Kutta method

One step of the method of four stages over a vector space. On a right side that depends on the time
only it is Simpson's rule, which is exact for cubic polynomials; on a linear right side it is the
Taylor polynomial of the exponential of degree four.
-/

namespace RT1064.Core

open scoped Polynomial

attribute [local instance] atLeastTwo_two atLeastTwo_four atLeastTwo_six

variable {K V : Type*} [Field K] [AddCommGroup V] [Module K V]

/-- The increment of one step of length `h` from `y` at the time `t`. -/
def rungeKutta (f : K → V → V) (t : K) (y : V) (h : K) : V :=
  let k1 := f t y
  let k2 := f (t + h / 2) (y + (h / 2) • k1)
  let k3 := f (t + h / 2) (y + (h / 2) • k2)
  let k4 := f (t + h) (y + h • k3)
  (h / 6) • (k1 + (2 : K) • k2 + (2 : K) • k3 + k4)

/-! ### Quadrature -/

/-- Simpson's rule on the interval from `t` to `t + h`. -/
def simpson (f : K → K) (t h : K) : K := h / 6 * (f t + 4 * f (t + h / 2) + f (t + h))

/-- On a right side that depends on the time only the method is Simpson's rule. -/
lemma rungeKutta_of_time {ι : Type*} [CharZero K] (g : K → ι → K) (t : K) (y : ι → K) (h : K)
    (j : ι) : rungeKutta (fun t _ => g t) t y h j = simpson (fun x => g x j) t h := by
  simp only [rungeKutta, simpson, Pi.smul_apply, Pi.add_apply, smul_eq_mul]
  ring

/-- The integral of a cubic polynomial by its coefficients. -/
lemma integral_cubic {p : ℝ[X]} (hp : p.natDegree ≤ 3) (a b : ℝ) :
    ∫ x in a..b, p.eval x =
      (p.coeff 0 * b + p.coeff 1 / 2 * b ^ 2 + p.coeff 2 / 3 * b ^ 3 + p.coeff 3 / 4 * b ^ 4) -
      (p.coeff 0 * a + p.coeff 1 / 2 * a ^ 2 + p.coeff 2 / 3 * a ^ 3 + p.coeff 3 / 4 * a ^ 4) := by
  have hderiv : ∀ x : ℝ, HasDerivAt (fun x => p.coeff 0 * x + p.coeff 1 / 2 * x ^ 2 +
      p.coeff 2 / 3 * x ^ 3 + p.coeff 3 / 4 * x ^ 4) (p.eval x) x := by
    intro x
    have hlinear := (hasDerivAt_id x).const_mul (p.coeff 0)
    have hsquare := (hasDerivAt_pow 2 x).const_mul (p.coeff 1 / 2)
    have hcube := (hasDerivAt_pow 3 x).const_mul (p.coeff 2 / 3)
    have hfourth := (hasDerivAt_pow 4 x).const_mul (p.coeff 3 / 4)
    refine (((hlinear.add hsquare).add hcube).add hfourth).congr_deriv ?_
    rw [Polynomial.eval_eq_sum_range' (Nat.lt_succ_of_le hp) x]
    simp only [Finset.sum_range_succ, Finset.sum_range_zero]
    push_cast
    ring
  exact intervalIntegral.integral_eq_sub_of_hasDerivAt (fun x _ => hderiv x)
    (p.continuous.intervalIntegrable a b)

/-- Simpson's rule is exact for cubic polynomials. -/
lemma simpson_eq_integral {p : ℝ[X]} (hp : p.natDegree ≤ 3) (t h : ℝ) :
    simpson (fun x => p.eval x) t h = ∫ x in t..t + h, p.eval x := by
  rw [integral_cubic hp, simpson]
  simp only [Polynomial.eval_eq_sum_range' (Nat.lt_succ_of_le hp), Finset.sum_range_succ,
    Finset.sum_range_zero]
  ring

/-! ### Linear right sides -/

/-- The Taylor polynomial of the exponential of degree four. -/
def expTaylor {R : Type*} [Ring R] [Algebra K R] (A : R) : R :=
  ∑ i ∈ Finset.range 5, (i.factorial : K)⁻¹ • A ^ i

lemma map_expTaylor {R S : Type*} [Ring R] [Ring S] [Algebra K R] [Algebra K S] (φ : R →ₐ[K] S)
    (A : R) : φ (expTaylor (K := K) A) = expTaylor (K := K) (φ A) := by
  simp only [expTaylor, map_sum, map_smul, map_pow]

/-- On a linear right side the method is the Taylor polynomial. -/
lemma rungeKutta_linear [CharZero K] (A : Module.End K V) (t : K) (y : V) (h : K) :
    y + rungeKutta (fun _ => A) t y h = expTaylor (K := K) (h • A) y := by
  simp only [rungeKutta, map_add, map_smul, expTaylor, Finset.sum_range_succ,
    Finset.sum_range_zero, zero_add, LinearMap.add_apply, LinearMap.smul_apply, smul_pow,
    pow_succ, pow_zero, one_mul, Module.End.mul_apply, Module.End.one_apply, Nat.factorial]
  push_cast
  module

end RT1064.Core
