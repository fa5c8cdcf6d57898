import RT1064.Core.BinaryFloat
import RT1064.Core.InPlace
import RT1064.Core.SecondOrderSection
import RT1064.Math.Functions

/-!
# The second-order low pass filter

`LowPassFilter2p` is a second-order section in direct form II, with the coefficients of a
Butterworth filter. Its scalars are `F` and its samples `T`.
-/

namespace RT1064.Math

open Core Mat Extended

/-- The fields of `LowPassFilter2p`. -/
@[ext] structure LowPassFilter2p (F T : Type*) where
  delayElement1 : T
  delayElement2 : T
  a1 : F
  a2 : F
  b0 : F
  b1 : F
  b2 : F
  cutoffFreq : F
  sampleFreq : F

namespace LowPassFilter2p

variable {F T K V : Type*}

/-- The coefficients of a filter. -/
def coefficients (f : LowPassFilter2p F T) : Section F := ⟨f.b0, f.b1, f.b2, f.a1, f.a2⟩

/-- `LowPassFilter2p::disable`. -/
def disable [Zero F] [One F] [Zero T] (_ : LowPassFilter2p F T) : LowPassFilter2p F T where
  sampleFreq := 0
  cutoffFreq := 0
  delayElement1 := 0
  delayElement2 := 0
  b0 := 1
  b1 := 0
  b2 := 0
  a1 := 0
  a2 := 0

section Apply

variable [Add T] [Sub T] [SMul F T]

/-- `LowPassFilter2p::apply`. -/
def apply (f : LowPassFilter2p F T) (sample : T) : T × LowPassFilter2p F T :=
  let delayElement0 := sample - f.a1 • f.delayElement1 - f.a2 • f.delayElement2
  let output := f.b0 • delayElement0 + f.b1 • f.delayElement1 + f.b2 • f.delayElement2
  (output, { f with delayElement1 := delayElement0, delayElement2 := f.delayElement1 })

/-- `LowPassFilter2p::applyArray`. -/
def applyArray (f : LowPassFilter2p F T) (samples : ℕ → T) (numSamples : ℕ) :
    InPlace (LowPassFilter2p F T) T :=
  InPlace.loop apply numSamples ⟨f, samples, []⟩

end Apply

section Parameters

variable [Field K] [LinearOrder K]

/-- The part of `LowPassFilter2p::reset` that computes the delay elements. -/
def resetDelay [Zero T] [SMul (Extended K) T] [IsFinite T] (f : LowPassFilter2p (Extended K) T)
    (input : T) : T :=
  if finite FLT_EPSILON < fabs (1 + f.a1 + f.a2) then
    let delay := divSample input (1 + f.a1 + f.a2)
    if !IsFinite.isFinite delay then input else delay
  else input

/-- `LowPassFilter2p::reset`. -/
def reset [Zero T] [Add T] [Sub T] [SMul (Extended K) T] [IsFinite T]
    (f : LowPassFilter2p (Extended K) T) (sample : T) : T × LowPassFilter2p (Extended K) T :=
  let input := if IsFinite.isFinite sample then sample else 0
  apply { f with
    delayElement1 := f.resetDelay input
    delayElement2 := f.resetDelay input } input

variable [Cmath K]

/-- The coefficients that `LowPassFilter2p::set_cutoff_frequency` computes. -/
def butterworth (sampleFreq cutoffFreq : Extended K) : Section (Extended K) :=
  let fr := sampleFreq / cutoffFreq
  let ohm := tanf (finite M_PI_F / fr)
  let c := 1 + finite 2 * cosf (finite M_PI_F / finite 4) * ohm + ohm * ohm
  let b0 := ohm * ohm / c
  { b0 := b0
    b1 := finite 2 * b0
    b2 := b0
    a1 := finite 2 * (ohm * ohm - 1) / c
    a2 := (1 - finite 2 * cosf (finite M_PI_F / finite 4) * ohm + ohm * ohm) / c }

/-- `LowPassFilter2p::set_cutoff_frequency`. -/
def setCutoffFrequency [Zero T] (f : LowPassFilter2p (Extended K) T)
    (sampleFreq cutoffFreq : Extended K) : LowPassFilter2p (Extended K) T :=
  if sampleFreq ≤ 0 ∨ cutoffFreq ≤ 0 ∨ sampleFreq / finite 2 ≤ cutoffFreq ∨
      IsFinite.isFinite sampleFreq = false ∨ IsFinite.isFinite cutoffFreq = false then
    f.disable
  else
    let cutoff := Functions.max cutoffFreq (sampleFreq * finite minRatio)
    let c := butterworth sampleFreq cutoff
    let g : LowPassFilter2p (Extended K) T :=
      { delayElement1 := 0, delayElement2 := 0, cutoffFreq := cutoff, sampleFreq := sampleFreq
        b0 := c.b0, b1 := c.b1, b2 := c.b2, a1 := c.a1, a2 := c.a2 }
    if !IsFinite.isFinite g.b0 || !IsFinite.isFinite g.b1 || !IsFinite.isFinite g.b2 ||
        !IsFinite.isFinite g.a1 || !IsFinite.isFinite g.a2 then
      g.disable
    else g

end Parameters

/-! ### The section a filter computes -/

/-- The filter holds the finite coefficients of a section and a finite state of its direct form. -/
def Holds (c : Section K) (d : V × V) (f : LowPassFilter2p (Extended K) (Extended V)) : Prop :=
  f.coefficients = c.toExtended ∧ (f.delayElement1, f.delayElement2) = (finite d.1, finite d.2)

/-- On finite samples `apply` is the direct form II. -/
lemma answers_apply [Add V] [Sub V] [SMul K V] {c : Section K} {d : V × V}
    {f : LowPassFilter2p (Extended K) (Extended V)} (h : Holds c d f) (xs : List V) :
    answers apply f (xs.map finite) = (answers c.directFormII d xs).map finite := by
  refine answers_map (R := Holds c) ?_ h xs
  rintro d f x ⟨hc, hd⟩
  have hstep := c.directFormII_toExtended d.1 d.2 x
  rw [← hc, ← hd] at hstep
  obtain ⟨hout, hstate⟩ := Prod.ext_iff.1 hstep
  exact ⟨hout, hc, hstate⟩

/-! ### The Butterworth section -/

/-- The section of the bilinear transform with prewarped frequency `ohm`, where `m` is the cosine
of the pole angle. -/
def bilinear [Field K] (m ohm : K) : Section K :=
  let c := 1 + 2 * m * ohm + ohm * ohm
  { b0 := ohm * ohm / c
    b1 := 2 * (ohm * ohm / c)
    b2 := ohm * ohm / c
    a1 := 2 * (ohm * ohm - 1) / c
    a2 := (1 - 2 * m * ohm + ohm * ohm) / c }

section Bilinear

variable [Field K] [LinearOrder K] [IsStrictOrderedRing K] {m ohm : K}

lemma bilinear_denominator_pos (hm : 0 < m) (hohm : 0 < ohm) :
    0 < 1 + 2 * m * ohm + ohm * ohm := by
  positivity

/-- The denominator of the transfer function at zero frequency. -/
lemma bilinear_dc (hm : 0 < m) (hohm : 0 < ohm) :
    1 + (bilinear m ohm).a1 + (bilinear m ohm).a2 =
      4 * (ohm * ohm) / (1 + 2 * m * ohm + ohm * ohm) := by
  have hc := (bilinear_denominator_pos hm hohm).ne'
  simp only [bilinear]
  field_simp
  ring

lemma unitGain_bilinear (hm : 0 < m) (hohm : 0 < ohm) : (bilinear m ohm).UnitGain := by
  have hc := bilinear_denominator_pos hm hohm
  constructor
  · rw [bilinear_dc hm hohm]
    positivity
  · rw [bilinear_dc hm hohm]
    simp only [bilinear]
    ring

lemma stable_bilinear (hm : 0 < m) (hohm : 0 < ohm) : (bilinear m ohm).Stable := by
  have hc := bilinear_denominator_pos hm hohm
  have hmul := mul_pos hm hohm
  have hsq := mul_pos hohm hohm
  constructor
  · rw [bilinear, abs_div, abs_of_pos hc, div_lt_one hc, abs_lt]
    constructor <;> linarith
  · have hsum : 1 + (bilinear m ohm).a2 =
        2 * (1 + ohm * ohm) / (1 + 2 * m * ohm + ohm * ohm) := by
      simp only [bilinear]
      field_simp
      ring
    rw [hsum, bilinear, abs_div, abs_of_pos hc, div_lt_div_iff_of_pos_right hc, abs_lt]
    constructor <;> linarith

/-- The clamp of the cutoff frequency keeps the gain at zero frequency away from the threshold
under which `reset` does not divide by it. -/
lemma FLT_EPSILON_lt_bilinear_dc (hm : 0 < m) (hm1 : m ≤ 1) (hohm : 3 / 1000 < ohm) :
    FLT_EPSILON < |1 + (bilinear m ohm).a1 + (bilinear m ohm).a2| := by
  have hohm0 : 0 < ohm := lt_trans (by norm_num) hohm
  have hc := bilinear_denominator_pos hm hohm0
  have hle : 1 + 2 * m * ohm + ohm * ohm ≤ (1 + ohm) * (1 + ohm) := by
    have hgap : 0 ≤ (1 - m) * ohm := mul_nonneg (sub_nonneg.2 hm1) hohm0.le
    linarith
  have hlin : 1 + ohm < 1000 * (2 * ohm) := by linarith
  have hsq : (1 + ohm) * (1 + ohm) < 1000 * (2 * ohm) * (1000 * (2 * ohm)) := by
    apply mul_lt_mul'' hlin hlin <;> positivity
  rw [bilinear_dc hm hohm0, abs_of_pos (by positivity), FLT_EPSILON, lt_div_iff₀ hc]
  linarith

end Bilinear

section Real

variable {sampleFreq cutoffFreq : ℝ}

lemma cos_M_PI_F_div_four_pos : 0 < Real.cos (M_PI_F / 4) := by
  have hpos : (0 : ℝ) < M_PI_F := M_PI_F_pos
  have hlt := M_PI_F_lt_two_pi
  apply Real.cos_pos_of_mem_Ioo
  constructor <;> linarith

/-- The angle of a cutoff frequency under the Nyquist frequency has a tangent. -/
lemma angle_mem (hs : 0 < sampleFreq) (hc : 0 < cutoffFreq)
    (hlt : cutoffFreq ≤ (1 - 1 / 2 ^ 24) * (sampleFreq / 2)) :
    0 < M_PI_F / (sampleFreq / cutoffFreq) ∧
      M_PI_F / (sampleFreq / cutoffFreq) < Real.pi / 2 := by
  have hpos : (0 : ℝ) < M_PI_F := M_PI_F_pos
  constructor
  · positivity
  · rw [div_div_eq_mul_div, div_lt_iff₀ hs]
    exact M_PI_F_mul_lt hs hlt

lemma butterworth_eq (hs : 0 < sampleFreq) (hc : 0 < cutoffFreq)
    (hlt : cutoffFreq ≤ (1 - 1 / 2 ^ 24) * (sampleFreq / 2)) :
    butterworth (finite sampleFreq) (finite cutoffFreq) =
      (bilinear (Real.cos (M_PI_F / 4))
        (Real.tan (M_PI_F / (sampleFreq / cutoffFreq)))).toExtended := by
  obtain ⟨hpos, hpi⟩ := angle_mem hs hc hlt
  have hcos : Cmath.cos (M_PI_F / (sampleFreq / cutoffFreq)) ≠ 0 :=
    (Real.cos_pos_of_mem_Ioo ⟨by linarith, hpi⟩).ne'
  have hden := bilinear_denominator_pos cos_M_PI_F_div_four_pos
    (Real.tan_pos_of_pos_of_lt_pi_div_two hpos hpi)
  have hfr : sampleFreq / cutoffFreq ≠ 0 := (div_pos hs hc).ne'
  have hohm : tanf (finite M_PI_F / (finite sampleFreq / finite cutoffFreq)) =
      finite (Real.tan (M_PI_F / (sampleFreq / cutoffFreq))) := by
    rw [finite_div hc.ne', finite_div hfr, tanf_finite hcos, sin_real, cos_real,
      Real.tan_eq_sin_div_cos]
  simp only [butterworth, hohm, finite_div (four_ne_zero : (4 : ℝ) ≠ 0), cosf_finite, cos_real,
    one_eq, finite_mul, finite_add, finite_sub, finite_div hden.ne']
  rfl

/-- The lowest cutoff frequency has an angle of more than three thousandths. -/
lemma lt_tan_angle (hs : 0 < sampleFreq) (hc : sampleFreq * minRatio ≤ cutoffFreq)
    (hlt : cutoffFreq ≤ (1 - 1 / 2 ^ 24) * (sampleFreq / 2)) :
    3 / 1000 < Real.tan (M_PI_F / (sampleFreq / cutoffFreq)) := by
  have hmin : 0 < sampleFreq * minRatio := mul_pos hs minRatio_pos
  have hpi : (3 : ℝ) < M_PI_F := three_lt_M_PI_F
  obtain ⟨hpos, hlt⟩ := angle_mem hs (hmin.trans_le hc) hlt
  calc (3 : ℝ) / 1000 < M_PI_F * (sampleFreq * minRatio) / sampleFreq := by
        rw [mul_comm sampleFreq, ← mul_assoc, mul_div_cancel_right₀ _ hs.ne', minRatio]
        linarith
    _ ≤ M_PI_F / (sampleFreq / cutoffFreq) := by
        rw [div_div_eq_mul_div]
        gcongr
    _ ≤ Real.tan (M_PI_F / (sampleFreq / cutoffFreq)) := Real.le_tan hpos.le hlt

/-- An enabled filter has the coefficients of its cutoff frequency, which is raised to the lowest
one. -/
lemma coefficients_of_lt {T : Type*} [Zero T] (f : LowPassFilter2p (Extended ℝ) T)
    (hs : 0 < sampleFreq) (hc : 0 < cutoffFreq)
    (hlt : cutoffFreq ≤ (1 - 1 / 2 ^ 24) * (sampleFreq / 2)) :
    ∃ c : Section ℝ,
      (f.setCutoffFrequency (finite sampleFreq) (finite cutoffFreq)).coefficients =
        c.toExtended ∧
      c.Stable ∧ c.UnitGain ∧ FLT_EPSILON < |1 + c.a1 + c.a2| := by
  have hguard : ¬ (finite sampleFreq ≤ 0 ∨ finite cutoffFreq ≤ 0 ∨
      finite sampleFreq / finite 2 ≤ finite cutoffFreq ∨
      IsFinite.isFinite (finite sampleFreq) = false ∨
      IsFinite.isFinite (finite cutoffFreq) = false) := by
    rw [zero_eq, finite_div two_ne_zero]
    simp only [finite_le_finite, isFinite_finite, not_or, not_le]
    exact ⟨hs, hc, by linarith, by simp, by simp⟩
  have hmax : max cutoffFreq (sampleFreq * minRatio) ≤ (1 - 1 / 2 ^ 24) * (sampleFreq / 2) := by
    apply max_le hlt
    rw [minRatio]
    linarith
  have hmin : sampleFreq * minRatio ≤ max cutoffFreq (sampleFreq * minRatio) := le_max_right ..
  have hpos : 0 < max cutoffFreq (sampleFreq * minRatio) := hc.trans_le (le_max_left ..)
  have hohm := lt_tan_angle hs hmin hmax
  have hohm0 : 0 < Real.tan (M_PI_F / (sampleFreq / max cutoffFreq (sampleFreq * minRatio))) := by
    linarith
  have hcos := cos_M_PI_F_div_four_pos
  have hcoeff := butterworth_eq hs hpos hmax
  rw [setCutoffFrequency, if_neg hguard, finite_mul, max_finite]
  refine ⟨_, ?_, stable_bilinear hcos hohm0, unitGain_bilinear hcos hohm0,
    FLT_EPSILON_lt_bilinear_dc hcos (Real.cos_le_one _) hohm⟩
  simp [hcoeff, Section.toExtended, coefficients]

/-- Every pair of frequencies gives finite coefficients of a stable section with unit gain, for
which `reset` divides by the gain of the poles. -/
lemma coefficients_setCutoffFrequency {T : Type*} [Zero T] (f : LowPassFilter2p (Extended ℝ) T)
    (sampleFreq cutoffFreq : Extended Binary32) :
    ∃ c : Section ℝ, (f.setCutoffFrequency (sampleFreq.map Subtype.val)
        (cutoffFreq.map Subtype.val)).coefficients = c.toExtended ∧
      c.Stable ∧ c.UnitGain ∧ FLT_EPSILON < |1 + c.a1 + c.a2| := by
  have hdisabled : ∃ c : Section ℝ, f.disable.coefficients = c.toExtended ∧
      c.Stable ∧ c.UnitGain ∧ FLT_EPSILON < |1 + c.a1 + c.a2| := by
    refine ⟨.passThrough, rfl, Section.stable_passThrough, Section.unitGain_passThrough, ?_⟩
    norm_num [Section.passThrough, FLT_EPSILON]
  by_cases hguard : sampleFreq.map Subtype.val ≤ 0 ∨ cutoffFreq.map Subtype.val ≤ 0 ∨
      sampleFreq.map Subtype.val / finite 2 ≤ cutoffFreq.map Subtype.val ∨
      IsFinite.isFinite (sampleFreq.map Subtype.val) = false ∨
      IsFinite.isFinite (cutoffFreq.map Subtype.val) = false
  · rw [setCutoffFrequency, if_pos hguard]
    exact hdisabled
  · push Not at hguard
    obtain ⟨hs, hc, hlt, hsfin, hcfin⟩ := hguard
    obtain ⟨s, rfl⟩ := isFinite_of_map (Bool.eq_true_of_not_eq_false hsfin)
    obtain ⟨c, rfl⟩ := isFinite_of_map (Bool.eq_true_of_not_eq_false hcfin)
    simp only [map_finite] at hs hc hlt
    rw [zero_eq, finite_le_finite, not_le] at hs hc
    rw [finite_div two_ne_zero, finite_le_finite, not_le] at hlt
    exact coefficients_of_lt f hs hc (c.2.le_of_lt_half s.2 hlt)

end Real

/-! ### The steady state -/

section Steady

variable [Field K] [AddCommGroup V] [Module K V]
  {c : Section K} {g : LowPassFilter2p (Extended K) (Extended V)}

/-- On a constant finite input a filter in its steady state repeats the input and keeps its
state. -/
lemma apply_steady (hc : g.coefficients = c.toExtended) (hgain : c.UnitGain) {s : V}
    (h₁ : g.delayElement1 = finite ((1 + c.a1 + c.a2)⁻¹ • s))
    (h₂ : g.delayElement2 = finite ((1 + c.a1 + c.a2)⁻¹ • s)) :
    g.apply (finite s) = (finite s, g) := by
  have hd : g.coefficients.directFormII (g.delayElement1, g.delayElement2) (finite s) =
      (finite s, g.delayElement1, g.delayElement2) := by
    rw [hc, h₁, h₂, Section.directFormII_toExtended, Section.directFormII_steady hgain]
  have hout := congrArg Prod.fst hd
  have hdelay := congrArg (fun r => r.2.1) hd
  exact Prod.ext hout
    (LowPassFilter2p.ext hdelay (h₁.trans h₂.symm) rfl rfl rfl rfl rfl rfl rfl)

variable [LinearOrder K] [IsStrictOrderedRing K]

/-- `reset` puts the filter in its steady state for the sample. -/
lemma resetDelay_finite (hc : g.coefficients = c.toExtended)
    (heps : FLT_EPSILON < |1 + c.a1 + c.a2|) (s : V) :
    g.resetDelay (finite s) = finite ((1 + c.a1 + c.a2)⁻¹ • s) := by
  have ha1 : g.a1 = finite c.a1 := congrArg Section.a1 hc
  have ha2 : g.a2 = finite c.a2 := congrArg Section.a2 hc
  have hne : 1 + c.a1 + c.a2 ≠ 0 := abs_pos.1 (FLT_EPSILON_pos.trans heps)
  rw [resetDelay, ha1, ha2, one_eq, finite_add, finite_add, fabs_finite,
    if_pos ((finite_lt_finite _ _).2 heps), divSample_finite hne]
  rfl

lemma reset_finite (hc : g.coefficients = c.toExtended) (hgain : c.UnitGain)
    (heps : FLT_EPSILON < |1 + c.a1 + c.a2|) (s : V) :
    (g.reset (finite s)).1 = finite s ∧
      (g.reset (finite s)).2.apply (finite s) = (finite s, (g.reset (finite s)).2) := by
  have hdelay := resetDelay_finite hc heps s
  have hsteady := apply_steady (g := { g with
    delayElement1 := g.resetDelay (finite s)
    delayElement2 := g.resetDelay (finite s) }) hc hgain hdelay hdelay
  have hreset : g.reset (finite s) = _ := hsteady
  rw [hreset]
  exact ⟨rfl, hsteady⟩

end Steady

/-- Every filter that `set_cutoff_frequency` leaves is stable, has unit gain at zero frequency and
keeps the steady state that `reset` puts it in. The frequencies are values of `float`: since
`M_PI_F` is above the half turn, a frequency just under the Nyquist frequency would have an angle
past the pole of the tangent, but no `float` is as close to it. -/
theorem stable_and_steady_of_setCutoffFrequency [AddCommGroup V] [Module ℝ V]
    (f : LowPassFilter2p (Extended ℝ) (Extended V)) (sampleFreq cutoffFreq : Extended Binary32) :
    ∃ c : Section ℝ, (f.setCutoffFrequency (sampleFreq.map Subtype.val)
        (cutoffFreq.map Subtype.val)).coefficients = c.toExtended ∧
      (|c.a2| < 1 ∧ |c.a1| < 1 + c.a2) ∧ (∀ z, c.IsPole z → ‖z‖ < 1) ∧
      c.b0 + c.b1 + c.b2 = 1 + c.a1 + c.a2 ∧ 1 + c.a1 + c.a2 ≠ 0 ∧
      ∀ g : LowPassFilter2p (Extended ℝ) (Extended V), g.coefficients = c.toExtended →
        ∀ s : V, (g.reset (finite s)).1 = finite s ∧
          ∀ n, answers apply (g.reset (finite s)).2 (List.replicate n (finite s)) =
            List.replicate n (finite s) := by
  obtain ⟨c, hc, hstable, hgain, heps⟩ := f.coefficients_setCutoffFrequency sampleFreq cutoffFreq
  refine ⟨c, hc, hstable, fun z => hstable.norm_lt_one, hgain.2, hgain.1, fun g hg s => ?_⟩
  obtain ⟨hout, hsteady⟩ := reset_finite hg hgain heps s
  exact ⟨hout, answers_replicate hsteady⟩

end LowPassFilter2p

end RT1064.Math
