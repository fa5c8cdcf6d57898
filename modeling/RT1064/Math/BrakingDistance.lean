import RT1064.Core.Quadratic
import RT1064.Mat.Basic
import RT1064.Mat.Cmath

/-!
# Maximum speed and braking distance

The speed from which a vehicle can still brake within a distance, and the distance that it needs to
brake from a speed, both with a constant acceleration that is reached after a delay.
-/

namespace RT1064.Math

open Core Mat

section Model

variable {K : Type*} [Field K]

/-- `sqr`. -/
def sqr (f : K) : K := f * f

/-- The variable `b` of `computeMaxSpeedFromDistance`. -/
def speedB (jerk accel : K) : K := 4 * sqr accel / jerk

/-- The variable `c` of `computeMaxSpeedFromDistance`. -/
def speedC (accel brakingDistance finalSpeed : K) : K :=
  -2 * accel * brakingDistance - sqr finalSpeed

/-- The argument of the square root. -/
def speedRadicand (jerk accel brakingDistance finalSpeed : K) : K :=
  sqr (speedB jerk accel) - 4 * speedC accel brakingDistance finalSpeed

/-- `math::trajectory::computeMaxSpeedFromDistance`. -/
def computeMaxSpeedFromDistance [LinearOrder K] [Cmath K]
    (jerk accel brakingDistance finalSpeed : K) : K :=
  let maxSpeed := 1 / 2 *
    (-speedB jerk accel + Cmath.sqrt (speedRadicand jerk accel brakingDistance finalSpeed))
  -- not slower than the end speed
  max maxSpeed finalSpeed

/-- `math::trajectory::computeBrakingDistanceFromVelocity`. -/
def computeBrakingDistanceFromVelocity (velocity jerk accel accelDelayMax : K) : K :=
  velocity * (velocity / (2 * accel) + accelDelayMax / jerk)

end Model

variable {j a x v vf : ℝ}

/-- The speed is the larger root of the equation, unless the final speed is larger. -/
lemma computeMaxSpeedFromDistance_eq (j a x vf : ℝ) :
    computeMaxSpeedFromDistance j a x vf = max (upperRoot (speedB j a) (speedC a x vf)) vf := by
  rw [computeMaxSpeedFromDistance, speedRadicand, sqr, sqrt_real, upperRoot, one_div_mul_eq_div]

lemma speedB_nonneg (hj : 0 < j) : 0 ≤ speedB j a := by
  rw [speedB, sqr]
  exact div_nonneg (mul_nonneg zero_le_four (mul_self_nonneg a)) hj.le

lemma speedC_nonpos (ha : 0 < a) (hx : 0 ≤ x) : speedC a x vf ≤ 0 := by
  have hax : 0 ≤ a * x := mul_nonneg ha.le hx
  rw [speedC, sqr]
  linarith [mul_self_nonneg vf]

/-- A larger distance gives a smaller constant coefficient. -/
lemma speedC_anti (ha : 0 < a) {y : ℝ} (hxy : x ≤ y) : speedC a y vf ≤ speedC a x vf := by
  have hle : a * x ≤ a * y := mul_le_mul_of_nonneg_left hxy ha.le
  rw [speedC, speedC]
  linarith

lemma speedRadicand_nonneg (ha : 0 < a) (hx : 0 ≤ x) : 0 ≤ speedRadicand j a x vf := by
  have hc : speedC a x vf ≤ 0 := speedC_nonpos ha hx
  rw [speedRadicand, sqr]
  linarith [mul_self_nonneg (speedB j a)]

/-- The quadratic of the speed is the equation of the motion. -/
lemma speed_quadratic_eq (v : ℝ) :
    v * v + speedB j a * v + speedC a x vf = v ^ 2 - 2 * a * (x - v * 2 * a / j) - vf ^ 2 := by
  rw [speedB, speedC, sqr, sqr]
  ring

/-- The quadratic of the speed measures the braking distance. -/
lemma brakingDistance_eq (ha : 0 < a) (v : ℝ) :
    2 * a * computeBrakingDistanceFromVelocity v j a (2 * a) = v * v + speedB j a * v := by
  rw [computeBrakingDistanceFromVelocity, speedB, sqr]
  field_simp
  ring

/-- From rest at the end, the speed of a distance needs that distance to brake. -/
lemma brakingDistance_maxSpeed (ha : 0 < a) (hx : 0 ≤ x) :
    computeBrakingDistanceFromVelocity (computeMaxSpeedFromDistance j a x 0) j a (2 * a) = x := by
  have hc : speedC a x 0 ≤ 0 := speedC_nonpos ha hx
  have hroot : 0 ≤ upperRoot (speedB j a) (speedC a x 0) := le_upperRoot (by linarith)
  have hradicand : 0 ≤ speedRadicand j a x 0 := speedRadicand_nonneg ha hx
  have hzero := upperRoot_isRoot (b := speedB j a) hradicand
  have hdistance := brakingDistance_eq (j := j) ha (upperRoot (speedB j a) (speedC a x 0))
  rw [computeMaxSpeedFromDistance_eq, max_eq_left hroot]
  have hscaled : 2 * a *
      computeBrakingDistanceFromVelocity (upperRoot (speedB j a) (speedC a x 0)) j a (2 * a) =
      2 * a * x := by
    rw [hdistance, eq_neg_of_add_eq_zero_left hzero, speedC, sqr]
    ring
  exact mul_left_cancel₀ (by positivity) hscaled

/-- The braking distance of a speed is the one for which that speed is allowed. -/
lemma maxSpeed_brakingDistance (hj : 0 < j) (ha : 0 < a) (hv : 0 ≤ v) :
    computeMaxSpeedFromDistance j a (computeBrakingDistanceFromVelocity v j a (2 * a)) 0 = v := by
  have hb : 0 ≤ speedB j a := speedB_nonneg hj
  have hc : speedC a (computeBrakingDistanceFromVelocity v j a (2 * a)) 0 =
      -(v * v + speedB j a * v) := by
    rw [← brakingDistance_eq ha, speedC, sqr]
    ring
  have hroot : v = upperRoot (speedB j a) (-(v * v + speedB j a * v)) :=
    eq_upperRoot (add_neg_cancel _) (by linarith)
  rw [computeMaxSpeedFromDistance_eq, hc, ← hroot, max_eq_left hv]

/-- A speed over the final speed satisfies the equation of the motion. -/
lemma maxSpeed_equation (ha : 0 < a) (hx : 0 ≤ x)
    (h : vf < computeMaxSpeedFromDistance j a x vf) :
    vf ^ 2 = computeMaxSpeedFromDistance j a x vf ^ 2 -
      2 * a * (x - computeMaxSpeedFromDistance j a x vf * 2 * a / j) := by
  have hmax : computeMaxSpeedFromDistance j a x vf = upperRoot (speedB j a) (speedC a x vf) := by
    rw [computeMaxSpeedFromDistance_eq] at h ⊢
    exact max_eq_left_of_lt ((lt_max_iff.1 h).resolve_right (lt_irrefl vf))
  have hradicand : 0 ≤ speedRadicand j a x vf := speedRadicand_nonneg ha hx
  have hzero := upperRoot_isRoot (b := speedB j a) hradicand
  rw [speed_quadratic_eq, sub_eq_zero] at hzero
  rw [hmax, hzero]

/-- What the two functions promise for a jerk and an acceleration. -/
structure BrakingProfile (j a : ℝ) : Prop where
  distance : ∀ x, 0 ≤ x →
    computeBrakingDistanceFromVelocity (computeMaxSpeedFromDistance j a x 0) j a (2 * a) = x
  speed : ∀ v, 0 ≤ v →
    computeMaxSpeedFromDistance j a (computeBrakingDistanceFromVelocity v j a (2 * a)) 0 = v
  monotone : ∀ vf x y, 0 ≤ vf → 0 ≤ x → x ≤ y →
    computeMaxSpeedFromDistance j a x vf ≤ computeMaxSpeedFromDistance j a y vf
  final_le : ∀ vf x, 0 ≤ vf → 0 ≤ x → vf ≤ computeMaxSpeedFromDistance j a x vf
  radicand_nonneg : ∀ vf x, 0 ≤ vf → 0 ≤ x → 0 ≤ speedRadicand j a x vf
  equation : ∀ vf x vm, 0 ≤ vf → 0 ≤ x → computeMaxSpeedFromDistance j a x vf = vm → vf < vm →
    vf ^ 2 = vm ^ 2 - 2 * a * (x - vm * 2 * a / j)

/-- For every positive jerk and acceleration the maximum speed and the braking distance are inverse
to each other, and the speed solves the equation of the motion. -/
theorem brakingProfile (hj : 0 < j) (ha : 0 < a) : BrakingProfile j a where
  distance := fun _ hx => brakingDistance_maxSpeed ha hx
  speed := fun _ hv => maxSpeed_brakingDistance hj ha hv
  monotone := fun vf x y _ _ hxy => by
    rw [computeMaxSpeedFromDistance_eq, computeMaxSpeedFromDistance_eq]
    exact max_le_max_right vf (upperRoot_mono (speedC_anti ha hxy))
  final_le := fun vf x _ _ => by
    rw [computeMaxSpeedFromDistance_eq]
    exact le_max_right _ _
  radicand_nonneg := fun _ _ _ hx => speedRadicand_nonneg ha hx
  equation := fun vf x vm _ hx hvm hlt => by
    subst hvm
    exact maxSpeed_equation ha hx hlt

/-- A vehicle with the jerk `8` and the acceleration `5`. -/
theorem brakingProfile_vehicle : BrakingProfile 8 5 := brakingProfile (by norm_num) (by norm_num)

end RT1064.Math
