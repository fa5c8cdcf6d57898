import RT1064.Core.OddCurve
import RT1064.Mat.AxisAngle
import RT1064.Math.Functions

/-!
# Stick curves

The functions that shape the input of a stick. They are odd and ascending and run from `-1` to `1`,
for every value of their parameters.
-/

namespace RT1064.Math

open Core Mat

variable {K : Type*} [Field K] [LinearOrder K]

/-! ### The functions -/

/-- `(T)0.99`, the largest shape parameter and dead zone. -/
def maxShape : K := 0.99

/-- `math::expo`. -/
def expo (value e : K) : K :=
  let x := constrain value (-1) 1
  let ec := constrain e 0 1
  (1 - ec) * x + ec * x * x * x

/-- `math::superexpo`. -/
def superexpo (value e g : K) : Option K :=
  let x := constrain value (-1) 1
  let gc := constrain g 0 maxShape
  divide (expo x e * (1 - gc)) (1 - |x| * gc)

/-- `math::deadzone`. -/
def deadzone (value dz : K) : Option K :=
  let x := constrain value (-1) 1
  let dzc := constrain dz 0 maxShape
  (divide (x - sign x * dzc) (1 - dzc)).map fun out =>
    -- values zero around the middle
    out * (if dzc < |x| then 1 else 0)

/-- `math::expo_deadzone`. -/
def expoDeadzone (value e dz : K) : Option K := (deadzone value dz).map fun out => expo out e

variable [IsStrictOrderedRing K]

lemma maxShape_lt_one : (maxShape : K) < 1 := by
  rw [maxShape]
  norm_num

lemma maxShape_nonneg : (0 : K) ≤ maxShape := by
  rw [maxShape]
  norm_num

lemma constrain_unit (x : K) : constrain x (-1) 1 = clampUnit x :=
  constrain_eq_max (by linarith [zero_lt_one (α := K)]) x

/-! ### The cubic curve -/

section Expo

variable {e : K}

/-- The linear combination of the linear and the cubic function. -/
def cubic (e t : K) : K := (1 - e) * t + e * t * t * t

lemma expo_eq (x e : K) : expo x e = cubic (constrain e 0 1) (clampUnit x) := by
  rw [expo, constrain_unit, cubic]

lemma cubic_mono (he : 0 ≤ e ∧ e ≤ 1) : MonotoneOn (cubic e) (Set.Icc 0 1) := by
  intro s hs t ht hst
  have hs0 : 0 ≤ s := hs.1
  have ht0 : 0 ≤ t := ht.1
  have h1 : 0 ≤ 1 - e := sub_nonneg.2 he.2
  have he0 : 0 ≤ e := he.1
  rw [cubic, cubic]
  gcongr

lemma oddCurve_expo (e : K) : OddCurve fun x => expo x e := by
  simp only [expo_eq]
  refine .of_clamp (fun t => ?_) (cubic_mono (constrain_mem zero_le_one e)) ?_
  · rw [cubic, cubic]
    ring
  · rw [cubic]
    ring

/-- The cubic curve vanishes in the middle only. -/
lemma expo_eq_zero_iff (x e : K) : expo x e = 0 ↔ clampUnit x = 0 := by
  obtain ⟨he0, he1⟩ := constrain_mem zero_le_one e
  rw [expo_eq, cubic]
  generalize clampUnit x = t
  generalize constrain e 0 1 = ec at he0 he1
  have hfactor : (1 - ec) * t + ec * t * t * t = t * ((1 - ec) + ec * (t * t)) := by ring
  rw [hfactor, mul_eq_zero, or_iff_left_iff_imp]
  intro h
  have hlinear : 1 - ec = 0 := by linarith [mul_nonneg he0 (mul_self_nonneg t)]
  have hone : ec = 1 := (sub_eq_zero.1 hlinear).symm
  rw [hlinear, hone, zero_add, one_mul] at h
  exact mul_self_eq_zero.1 h

end Expo

/-! ### The curve with a pole outside of the interval -/

/-- The divisor is positive on the interval. -/
lemma one_sub_abs_mul_pos {g t : K} (hg : 0 ≤ g ∧ g ≤ maxShape) (ht : |t| ≤ 1) :
    0 < 1 - |t| * g := by
  have hle : |t| * g ≤ g := mul_le_of_le_one_left hg.1 ht
  linarith [hg.2.trans_lt maxShape_lt_one]

/-- The cubic curve over the divisor. -/
def bent (e g t : K) : K := expo t e * (1 - g) / (1 - |t| * g)

lemma bent_mono (e : K) {g : K} (hg : 0 ≤ g ∧ g ≤ maxShape) :
    MonotoneOn (bent e g) (Set.Icc 0 1) := by
  intro s hs t ht hst
  have hcurve := oddCurve_expo e
  have hzero : expo (0 : K) e = 0 := by
    have hodd := hcurve.odd 0
    rw [neg_zero] at hodd
    linarith
  have hnum : expo s e * (1 - g) ≤ expo t e * (1 - g) :=
    mul_le_mul_of_nonneg_right (hcurve.monotone hst)
      (sub_nonneg.2 (hg.2.trans maxShape_lt_one.le))
  have hnonneg : 0 ≤ expo t e * (1 - g) :=
    mul_nonneg (hzero.symm.trans_le (hcurve.monotone ht.1))
      (sub_nonneg.2 (hg.2.trans maxShape_lt_one.le))
  have hden : 1 - |t| * g ≤ 1 - |s| * g := by
    rw [abs_of_nonneg hs.1, abs_of_nonneg ht.1]
    exact sub_le_sub_left (mul_le_mul_of_nonneg_right hst hg.1) 1
  have hpos : 0 < 1 - |t| * g :=
    one_sub_abs_mul_pos hg (abs_le.2 ⟨by linarith [ht.1], ht.2⟩)
  exact div_le_div₀ hnonneg hnum hpos hden

lemma superexpo_spec (e g : K) :
    ∃ f : K → K, (∀ x, superexpo x e g = some (f x)) ∧ OddCurve f := by
  have hg : 0 ≤ constrain g 0 maxShape ∧ constrain g 0 maxShape ≤ maxShape :=
    constrain_mem maxShape_nonneg g
  have hone : 1 - constrain g 0 maxShape ≠ 0 :=
    (sub_pos.2 (hg.2.trans_lt maxShape_lt_one)).ne'
  refine ⟨fun x => bent e (constrain g 0 maxShape) (clampUnit x), fun x => ?_, ?_⟩
  · have hpos := one_sub_abs_mul_pos hg (abs_clampUnit_le x)
    show superexpo x e g = some (bent e (constrain g 0 maxShape) (clampUnit x))
    rw [superexpo, constrain_unit, divide_of_ne_zero _ hpos.ne', bent]
  · refine .of_clamp (fun t => ?_) (bent_mono e hg) ?_
    · rw [bent, (oddCurve_expo e).odd, abs_neg, neg_mul, neg_div, bent]
    · rw [bent, (oddCurve_expo e).top 1 le_rfl, abs_one, one_mul, one_mul, div_self hone]

/-! ### The dead zone -/

section Deadzone

/-- The scaled distance from the dead zone. -/
def outside (d t : K) : K := (t - sign t * d) / (1 - d) * (if d < |t| then 1 else 0)

variable {d : K}

omit [IsStrictOrderedRing K] in
lemma outside_of_abs_le {t : K} (h : |t| ≤ d) : outside d t = 0 := by
  rw [outside, if_neg h.not_gt, mul_zero]

omit [IsStrictOrderedRing K] in
lemma outside_of_lt {t : K} (hd : 0 ≤ d) (h : d < t) : outside d t = (t - d) / (1 - d) := by
  have ht : 0 < t := hd.trans_lt h
  rw [outside, if_pos (h.trans_le (le_abs_self t)), mul_one, sign, if_pos ht, if_neg ht.not_gt,
    sub_zero, Int.cast_one, one_mul]

lemma outside_neg (d t : K) : outside d (-t) = -outside d t := by
  rw [outside, outside, abs_neg, Mat.Quaternion.sign_neg, Int.cast_neg]
  ring

lemma outside_pos {t : K} (hd : 0 ≤ d) (hd1 : d < 1) (h : d < t) : 0 < outside d t := by
  rw [outside_of_lt hd h]
  exact div_pos (sub_pos.2 h) (sub_pos.2 hd1)

lemma outside_mono (hd : 0 ≤ d) (hd1 : d < 1) : MonotoneOn (outside d) (Set.Icc 0 1) := by
  intro s hs t ht hst
  rcases le_or_gt s d with hsd | hsd
  · rw [outside_of_abs_le (by rwa [abs_of_nonneg hs.1])]
    rcases le_or_gt t d with htd | htd
    · rw [outside_of_abs_le (by rwa [abs_of_nonneg ht.1])]
    · exact (outside_pos hd hd1 htd).le
  · rw [outside_of_lt hd hsd, outside_of_lt hd (hsd.trans_le hst)]
    exact div_le_div_of_nonneg_right (sub_le_sub_right hst d) (sub_pos.2 hd1).le

lemma outside_eq_zero_iff (hd : 0 ≤ d) (hd1 : d < 1) (t : K) : outside d t = 0 ↔ |t| ≤ d := by
  refine ⟨fun h => ?_, outside_of_abs_le⟩
  by_contra hlt
  rcases lt_abs.1 (not_le.1 hlt) with hpos | hneg
  · exact (outside_pos hd hd1 hpos).ne' h
  · have hzero := outside_neg d t
    rw [h, neg_zero] at hzero
    exact (outside_pos hd hd1 hneg).ne' hzero

end Deadzone

/-- The result is a curve with zeros in the dead zone only. -/
lemma deadzone_spec (dz : K) : ∃ f : K → K, (∀ x, deadzone x dz = some (f x)) ∧ OddCurve f ∧
    ∀ x, f x = 0 ↔ |constrain x (-1) 1| ≤ constrain dz 0 maxShape := by
  obtain ⟨hd, hle⟩ := constrain_mem (maxShape_nonneg (K := K)) dz
  have hd1 : constrain dz 0 maxShape < 1 := hle.trans_lt maxShape_lt_one
  have hne : 1 - constrain dz 0 maxShape ≠ 0 := (sub_pos.2 hd1).ne'
  refine ⟨fun x => outside (constrain dz 0 maxShape) (clampUnit x), fun x => ?_, ?_, fun x => ?_⟩
  · show deadzone x dz = some (outside (constrain dz 0 maxShape) (clampUnit x))
    rw [deadzone, constrain_unit, divide_of_ne_zero _ hne, Option.map_some, outside]
  · refine .of_clamp (outside_neg _) (outside_mono hd hd1) ?_
    rw [outside_of_lt hd hd1, div_self hne]
  · rw [constrain_unit]
    exact outside_eq_zero_iff hd hd1 _

/-! ### Stick curves -/

/-- For every parameter the functions divide by numbers other than zero only and are odd ascending
curves from `-1` to `1`, and those with a dead zone vanish there and nowhere else. -/
theorem stickCurves_safe (e g dz : K) :
    OddCurve (fun x => expo x e) ∧
    (∃ f : K → K, (∀ x, superexpo x e g = some (f x)) ∧ OddCurve f) ∧
    (∃ f : K → K, (∀ x, deadzone x dz = some (f x)) ∧ OddCurve f ∧
      ∀ x, f x = 0 ↔ |constrain x (-1) 1| ≤ constrain dz 0 maxShape) ∧
    ∃ f : K → K, (∀ x, expoDeadzone x e dz = some (f x)) ∧ OddCurve f ∧
      ∀ x, f x = 0 ↔ |constrain x (-1) 1| ≤ constrain dz 0 maxShape := by
  obtain ⟨f, hdeadzone, hcurve, hzero⟩ := deadzone_spec dz
  refine ⟨oddCurve_expo e, superexpo_spec e g, ⟨f, hdeadzone, hcurve, hzero⟩, ?_⟩
  refine ⟨fun x => expo (f x) e, fun x => ?_, (oddCurve_expo e).comp hcurve, fun x => ?_⟩
  · rw [expoDeadzone, hdeadzone, Option.map_some]
  · rw [expo_eq_zero_iff, clampUnit_of_mem (hcurve.mem x).1 (hcurve.mem x).2, hzero]

/-- Parameters outside of their ranges. -/
theorem stickCurves_safe_rat :
    OddCurve (fun x : ℚ => expo x 2) ∧
    (∃ f : ℚ → ℚ, (∀ x, superexpo x 2 1 = some (f x)) ∧ OddCurve f) ∧
    (∃ f : ℚ → ℚ, (∀ x, deadzone x (-1) = some (f x)) ∧ OddCurve f ∧
      ∀ x, f x = 0 ↔ |constrain x (-1) 1| ≤ constrain (-1) 0 maxShape) ∧
    ∃ f : ℚ → ℚ, (∀ x, expoDeadzone x 2 (-1) = some (f x)) ∧ OddCurve f ∧
      ∀ x, f x = 0 ↔ |constrain x (-1) 1| ≤ constrain (-1) 0 maxShape :=
  stickCurves_safe 2 1 (-1)

end RT1064.Math
