import RT1064.Core.Quadratic
import RT1064.Mat.QuaternionVectors

/-!
# Distance to a circle

The distance from a point to a circle along a direction. Its contract is that of the largest zero of
a quadratic, which the function meets except for circles behind the point and for directions that
are too short to be normalized.
-/

namespace RT1064.Math

open Core Mat

section Model

variable {K : Type*} {M : ℕ} [Field K] [LinearOrder K]

/-- `Vector::unit_or_zero`. -/
def unitOrZero [Cmath K] (a : Fin M → K) (eps : K) : Fin M → K :=
  let n := vecNorm a
  if eps < n then vecDivScalar a n else 0

/-- `Vector::longerThan`. -/
def longerThan (a : Fin M → K) (testVal : K) : Bool := testVal * testVal < normSquared a

/-- `math::trajectory::getMaxDistanceToCircle`, where `none` is `NAN`. -/
def getMaxDistanceToCircle [Cmath K] (pos circlePos : Fin 2 → K) (radius : K)
    (direction : Fin 2 → K) : Option K :=
  let centerToPos := pos - circlePos
  let b := 2 * dot centerToPos (unitOrZero direction defaultEps)
  let c := normSquared centerToPos - radius * radius
  let delta := b * b - 4 * c
  if 0 ≤ delta ∧ longerThan direction 0 then some (max ((-b + Cmath.sqrt delta) / 2) 0)
  else none

end Model

variable {pos circlePos direction : Fin 2 → ℝ} {radius d : ℝ}

/-! ### The contract -/

/-- The point at the distance `d` from `pos` in the direction lies on the circle. -/
def OnCircle (pos circlePos : Fin 2 → ℝ) (radius : ℝ) (direction : Fin 2 → ℝ) (d : ℝ) : Prop :=
  vecNorm (pos + vecMulScalar (vecUnit direction) d - circlePos) = radius

/-- The result is the longest distance to the circle, or `NAN` if there is none. -/
structure MeetsContract (pos circlePos : Fin 2 → ℝ) (radius : ℝ) (direction : Fin 2 → ℝ) :
    Prop where
  longest : ∀ d, getMaxDistanceToCircle pos circlePos radius direction = some d →
    0 ≤ d ∧ OnCircle pos circlePos radius direction d ∧
      ∀ d', OnCircle pos circlePos radius direction d' → d' ≤ d
  none_iff : getMaxDistanceToCircle pos circlePos radius direction = none ↔
    direction = 0 ∨ ¬ ∃ d, 0 ≤ d ∧ OnCircle pos circlePos radius direction d

/-- How far the point is from the centre in the direction. -/
noncomputable def ahead (pos circlePos direction : Fin 2 → ℝ) : ℝ :=
  dot (pos - circlePos) (vecUnit direction)

/-- The power of the point with respect to the circle, which is positive outside of it. -/
def circlePower (pos circlePos : Fin 2 → ℝ) (radius : ℝ) : ℝ :=
  normSquared (pos - circlePos) - radius * radius

/-! ### The quadratic -/

lemma dot_vecUnit_self (hdirection : direction ≠ 0) :
    dot (vecUnit direction) (vecUnit direction) = 1 := by
  have hpos : vecNorm direction ≠ 0 := (vecNorm_pos hdirection).ne'
  rw [vecUnit, vecDivScalar, dot_vecMulScalar, ← vecNorm_mul_self]
  field_simp

/-- The distances to the circle are the zeros of a quadratic. -/
lemma onCircle_iff (hradius : 0 ≤ radius) (hdirection : direction ≠ 0) :
    OnCircle pos circlePos radius direction d ↔
      d * d + 2 * ahead pos circlePos direction * d + circlePower pos circlePos radius = 0 := by
  have hunit := dot_vecUnit_self hdirection
  have hnorm : OnCircle pos circlePos radius direction d ↔
      dot (pos + vecMulScalar (vecUnit direction) d - circlePos)
        (pos + vecMulScalar (vecUnit direction) d - circlePos) = radius * radius := by
    refine ⟨fun h => ?_, vecNorm_eq_of_sq hradius⟩
    rw [← vecNorm_mul_self, h]
  rw [hnorm, ahead, circlePower, normSquared]
  simp only [dot_eq, Fin.sum_univ_two, Pi.add_apply, Pi.sub_apply, vecMulScalar_apply] at hunit ⊢
  constructor
  · intro h
    linear_combination h - d * d * hunit
  · intro h
    linear_combination h + d * d * hunit

section Quadratic

variable {b β γ : ℝ}

lemma longerThan_zero (hdirection : direction ≠ 0) : longerThan direction 0 = true := by
  rw [longerThan, mul_zero, decide_eq_true_eq, normSquared]
  exact (dot_self_nonneg direction).lt_of_ne' (dot_self_ne_zero hdirection)

/-- The function takes the larger root of a quadratic, which has the right linear coefficient if the
direction is normalized. -/
lemma getMaxDistanceToCircle_eq_some (hdirection : direction ≠ 0)
    (hb : 2 * dot (pos - circlePos) (unitOrZero direction defaultEps) = b)
    (hγ : circlePower pos circlePos radius = γ) (hdelta : 0 ≤ b * b - 4 * γ) :
    getMaxDistanceToCircle pos circlePos radius direction = some (max (upperRoot b γ) 0) := by
  rw [circlePower] at hγ
  simp only [getMaxDistanceToCircle, hb, hγ, upperRoot, sqrt_real]
  exact if_pos ⟨hdelta, longerThan_zero hdirection⟩

lemma getMaxDistanceToCircle_eq_none
    (hb : 2 * dot (pos - circlePos) (unitOrZero direction defaultEps) = b)
    (hγ : circlePower pos circlePos radius = γ) (hdelta : b * b - 4 * γ < 0) :
    getMaxDistanceToCircle pos circlePos radius direction = none := by
  rw [circlePower] at hγ
  simp only [getMaxDistanceToCircle, hb, hγ]
  exact if_neg fun h => hdelta.not_ge h.1

/-- A number is the right result if it is the larger root of the right quadratic. -/
lemma meetsContract_iff_of_some (hradius : 0 ≤ radius) (hdirection : direction ≠ 0)
    (hβ : ahead pos circlePos direction = β) (hγ : circlePower pos circlePos radius = γ)
    (hd : 0 ≤ d) (hresult : getMaxDistanceToCircle pos circlePos radius direction = some d) :
    MeetsContract pos circlePos radius direction ↔
      0 ≤ 2 * β * (2 * β) - 4 * γ ∧ d = upperRoot (2 * β) γ := by
  have hon : ∀ d', OnCircle pos circlePos radius direction d' ↔
      d' * d' + 2 * β * d' + γ = 0 := fun d' => by rw [onCircle_iff hradius hdirection, hβ, hγ]
  rw [← isGreatest_root_iff]
  simp only [← hon]
  constructor
  · exact fun h => (h.longest d hresult).2
  · intro h
    refine ⟨fun d' hd' => ?_, iff_of_false ?_ (not_or.2 ⟨hdirection, not_not.2 ⟨d, hd, h.1⟩⟩)⟩
    · rw [hresult, Option.some_inj] at hd'
      subst hd'
      exact ⟨hd, h⟩
    · rw [hresult]
      exact Option.some_ne_none d

/-- `NAN` is the right result if the right quadratic has no zero that is not negative. -/
lemma meetsContract_iff_of_none (hradius : 0 ≤ radius) (hdirection : direction ≠ 0)
    (hβ : ahead pos circlePos direction = β) (hγ : circlePower pos circlePos radius = γ)
    (hresult : getMaxDistanceToCircle pos circlePos radius direction = none) :
    MeetsContract pos circlePos radius direction ↔
      ¬ (0 ≤ 2 * β * (2 * β) - 4 * γ ∧ 0 ≤ upperRoot (2 * β) γ) := by
  have hon : ∀ d', OnCircle pos circlePos radius direction d' ↔
      d' * d' + 2 * β * d' + γ = 0 := fun d' => by rw [onCircle_iff hradius hdirection, hβ, hγ]
  rw [← exists_nonneg_root_iff]
  simp only [← hon]
  constructor
  · exact fun h => (h.none_iff.1 hresult).resolve_left hdirection
  · intro h
    refine ⟨fun d hd => ?_, iff_of_true hresult (.inr h)⟩
    rw [hresult] at hd
    exact absurd hd.symm (Option.some_ne_none d)

lemma delta_nonneg_iff : 0 ≤ 2 * β * (2 * β) - 4 * γ ↔ γ ≤ β * β := by
  constructor <;> intro h <;> linarith

lemma upperRoot_two_mul_neg_iff : upperRoot (2 * β) γ < 0 ↔ 0 < β ∧ 0 < γ := by
  rw [upperRoot_neg_iff, mul_pos_iff_of_pos_left two_pos]

end Quadratic

/-! ### The configurations -/

/-- A direction that is normalized reaches the circle, or its line misses it. -/
lemma meetsContract_iff_of_lt (hradius : 0 ≤ radius)
    (hlong : defaultEps < vecNorm direction) :
    MeetsContract pos circlePos radius direction ↔
      ¬ (0 < circlePower pos circlePos radius ∧ 0 < ahead pos circlePos direction ∧
        circlePower pos circlePos radius ≤
          ahead pos circlePos direction * ahead pos circlePos direction) := by
  have hdirection : direction ≠ 0 := by
    rintro rfl
    rw [vecNorm_zero] at hlong
    exact hlong.not_gt Mat.Quaternion.defaultEps_pos
  have hunit : unitOrZero direction defaultEps = vecUnit direction := if_pos hlong
  obtain ⟨β, hβ⟩ : ∃ β, ahead pos circlePos direction = β := ⟨_, rfl⟩
  obtain ⟨γ, hγ⟩ : ∃ γ, circlePower pos circlePos radius = γ := ⟨_, rfl⟩
  have hb : 2 * dot (pos - circlePos) (unitOrZero direction defaultEps) = 2 * β := by
    rw [hunit, ← hβ, ahead]
  rw [hβ, hγ]
  rcases lt_or_ge (2 * β * (2 * β) - 4 * γ) 0 with hdelta | hdelta
  · rw [meetsContract_iff_of_none hradius hdirection hβ hγ
      (getMaxDistanceToCircle_eq_none hb hγ hdelta)]
    have hmiss := hdelta.not_ge
    rw [delta_nonneg_iff] at hmiss ⊢
    tauto
  · rw [meetsContract_iff_of_some hradius hdirection hβ hγ (le_max_right _ _)
      (getMaxDistanceToCircle_eq_some hdirection hb hγ hdelta), and_iff_right hdelta,
      max_eq_left_iff, ← not_lt, upperRoot_two_mul_neg_iff]
    have hmeet := delta_nonneg_iff.1 hdelta
    tauto

/-- A direction that is too short to be normalized is taken for the zero vector. -/
lemma meetsContract_iff_of_le (hradius : 0 ≤ radius) (hdirection : direction ≠ 0)
    (hshort : vecNorm direction ≤ defaultEps) :
    MeetsContract pos circlePos radius direction ↔
      (circlePower pos circlePos radius ≤ 0 ∧ (ahead pos circlePos direction = 0 ∨
        (circlePower pos circlePos radius = 0 ∧ 0 ≤ ahead pos circlePos direction))) ∨
      (0 < circlePower pos circlePos radius ∧ (0 < ahead pos circlePos direction ∨
        ahead pos circlePos direction * ahead pos circlePos direction <
          circlePower pos circlePos radius)) := by
  obtain ⟨β, hβ⟩ : ∃ β, ahead pos circlePos direction = β := ⟨_, rfl⟩
  obtain ⟨γ, hγ⟩ : ∃ γ, circlePower pos circlePos radius = γ := ⟨_, rfl⟩
  have hb : 2 * dot (pos - circlePos) (unitOrZero direction defaultEps) = 0 := by
    rw [unitOrZero, if_neg hshort.not_gt, dot_eq]
    simp
  rw [hβ, hγ]
  rcases le_or_gt γ 0 with hin | hout
  · have hroot : 0 ≤ upperRoot 0 γ := le_upperRoot (by linarith)
    have hdouble : 2 * β = 0 ↔ β = 0 := mul_eq_zero_iff_left two_ne_zero
    rw [meetsContract_iff_of_some hradius hdirection hβ hγ (le_max_right _ _)
      (getMaxDistanceToCircle_eq_some hdirection hb hγ (by linarith)), delta_nonneg_iff,
      and_iff_right (hin.trans (mul_self_nonneg β)), max_eq_left hroot, upperRoot_zero_eq_iff hin,
      hdouble, mul_nonneg_iff_of_pos_left two_pos, and_iff_right hin]
    exact (or_iff_left fun h => hin.not_gt h.1).symm
  · rw [meetsContract_iff_of_none hradius hdirection hβ hγ
      (getMaxDistanceToCircle_eq_none hb hγ (by linarith)), delta_nonneg_iff, not_and_or, not_le,
      not_le, upperRoot_two_mul_neg_iff, and_iff_left hout, and_iff_right hout, or_comm]
    exact (or_iff_right fun h => hout.not_ge h.1).symm

/-- The point does not look away from the circle on a line that meets it; if the direction is too
short to be normalized, the result is right only by chance. -/
def GoodRay (pos circlePos : Fin 2 → ℝ) (radius : ℝ) (direction : Fin 2 → ℝ) : Prop :=
  direction = 0 ∨
  (defaultEps < vecNorm direction ∧
    ¬ (0 < circlePower pos circlePos radius ∧ 0 < ahead pos circlePos direction ∧
      circlePower pos circlePos radius ≤
        ahead pos circlePos direction * ahead pos circlePos direction)) ∨
  (vecNorm direction ≤ defaultEps ∧
    ((circlePower pos circlePos radius ≤ 0 ∧ (ahead pos circlePos direction = 0 ∨
      (circlePower pos circlePos radius = 0 ∧ 0 ≤ ahead pos circlePos direction))) ∨
    (0 < circlePower pos circlePos radius ∧ (0 < ahead pos circlePos direction ∨
      ahead pos circlePos direction * ahead pos circlePos direction <
        circlePower pos circlePos radius))))

/-- Without a direction there is no distance. -/
lemma meetsContract_zero : MeetsContract pos circlePos radius 0 := by
  have hnone : getMaxDistanceToCircle pos circlePos radius 0 = none := by
    refine if_neg fun h => ?_
    have hlonger := h.2
    rw [longerThan, decide_eq_true_eq, normSquared, dot_eq] at hlonger
    simp at hlonger
  refine ⟨fun d hd => ?_, iff_of_true hnone (.inl rfl)⟩
  rw [hnone] at hd
  exact absurd hd.symm (Option.some_ne_none d)

/-- The function meets its contract if and only if the direction is zero, or it is long enough and
does not point away from a circle that its line meets, or it is too short and the circle is met as
if there were no direction. -/
theorem getMaxDistanceToCircle_correct_iff (hradius : 0 ≤ radius) :
    MeetsContract pos circlePos radius direction ↔
      GoodRay pos circlePos radius direction := by
  by_cases hdirection : direction = 0
  · subst hdirection
    exact iff_of_true meetsContract_zero (.inl rfl)
  rw [GoodRay, or_iff_right hdirection]
  rcases lt_or_ge defaultEps (vecNorm direction) with hlong | hshort
  · rw [meetsContract_iff_of_lt hradius hlong, and_iff_right hlong]
    exact (or_iff_left fun h => hlong.not_ge h.1).symm
  · rw [meetsContract_iff_of_le hradius hdirection hshort, and_iff_right hshort]
    exact (or_iff_right fun h => hshort.not_gt h.1).symm

/-- A point in the circle. -/
theorem getMaxDistanceToCircle_correct_iff_center :
    MeetsContract ![0, 0] ![0, 0] 1 ![3, 4] ↔ GoodRay ![0, 0] ![0, 0] 1 ![3, 4] :=
  getMaxDistanceToCircle_correct_iff zero_le_one

/-- A circle behind the point, which is found at the distance zero. -/
theorem getMaxDistanceToCircle_behind :
    ¬ ∀ (pos circlePos : Fin 2 → ℝ) (radius : ℝ) (direction : Fin 2 → ℝ), 0 ≤ radius →
      MeetsContract pos circlePos radius direction := by
  intro h
  have hnorm : vecNorm (![1, 0] : Fin 2 → ℝ) = 1 := by
    refine vecNorm_eq_of_sq zero_le_one ?_
    rw [dot_eq, Fin.sum_univ_two]
    norm_num
  have hlong : defaultEps < vecNorm (![1, 0] : Fin 2 → ℝ) := by
    rw [hnorm, defaultEps]
    norm_num
  have hahead : ahead ![2, 0] 0 ![1, 0] = 2 := by
    rw [ahead, vecUnit, hnorm, dot_eq, Fin.sum_univ_two]
    simp
  have hpower : circlePower ![2, 0] 0 1 = 3 := by
    rw [circlePower, normSquared, dot_eq, Fin.sum_univ_two]
    norm_num
  refine (meetsContract_iff_of_lt zero_le_one hlong).1 (h ![2, 0] 0 1 ![1, 0] zero_le_one) ?_
  rw [hahead, hpower]
  norm_num

end RT1064.Math
