import RT1064.Math.NotchFilterParameters

/-!
# Stability of the notch filter

The poles of the notch filter are decided by the tangent of an angle proportional to the ratio of
bandwidth and sample frequency, which `setParameters` does not bound from above.
-/

namespace RT1064.Math

open Core Mat Extended

/-- The tangent is positive in the first half of each of its periods. -/
lemma tan_pos_iff {x : ℝ} :
    0 < Real.tan x ↔ ∃ k : ℤ, k * Real.pi < x ∧ x < k * Real.pi + Real.pi / 2 := by
  have hpi := Real.pi_pos
  constructor
  · intro hpos
    have hle := Int.floor_le (x / Real.pi)
    have hlt := Int.lt_floor_add_one (x / Real.pi)
    rw [le_div_iff₀ hpi] at hle
    rw [div_lt_iff₀ hpi] at hlt
    generalize ⌊x / Real.pi⌋ = k at hle hlt
    refine ⟨k, lt_of_le_of_ne hle fun heq => ?_, lt_of_not_ge fun hge => ?_⟩
    · rw [← Real.tan_sub_int_mul_pi x k, heq, sub_self, Real.tan_zero] at hpos
      exact lt_irrefl _ hpos
    · rw [← Real.tan_sub_int_mul_pi x (k + 1)] at hpos
      push_cast at hpos
      refine absurd hpos (not_lt.2 ?_)
      apply Real.tan_nonpos_of_nonpos_of_neg_pi_div_two_le <;> linarith
  · rintro ⟨k, hlt, hgt⟩
    rw [← Real.tan_sub_int_mul_pi x k]
    apply Real.tan_pos_of_pos_of_lt_pi_div_two <;> linarith

namespace NotchFilter

variable {T K : Type*}

/-- The section of a notch filter with finite coefficients. -/
def notch [Field K] (alpha beta : K) : Section K where
  b0 := 1 / (alpha + 1)
  b1 := 2 * beta * (1 / (alpha + 1))
  b2 := 1 / (alpha + 1)
  a1 := 2 * beta * (1 / (alpha + 1))
  a2 := (1 - alpha) * (1 / (alpha + 1))

/-- The sign of `alpha` decides, unless `beta` is at an end of its range. -/
lemma stable_notch_iff [Field K] [LinearOrder K] [IsStrictOrderedRing K] {alpha beta : K}
    (ha : alpha + 1 ≠ 0) : (notch alpha beta).Stable ↔ 0 < alpha ∧ |beta| < 1 := by
  simp only [Section.Stable, notch, abs_lt]
  generalize hinv : 1 / (alpha + 1) = r
  have hmul : (alpha + 1) * r = 1 := by rw [← hinv, mul_one_div_cancel ha]
  have hsum : 1 + (1 - alpha) * r = 2 * r := by linear_combination -hmul
  rw [hsum]
  constructor
  · rintro ⟨⟨h₁, h₂⟩, h₃, h₄⟩
    have hr : 0 < r := by linarith
    have hplus : 0 < (1 + beta) * r := by linarith
    have hminus : 0 < (1 - beta) * r := by linarith
    have halpha : 0 < alpha * r := by linarith
    have hb₁ := pos_of_mul_pos_left hplus hr.le
    have hb₂ := pos_of_mul_pos_left hminus hr.le
    exact ⟨pos_of_mul_pos_left halpha hr.le, by linarith, by linarith⟩
  · rintro ⟨hpos, hb₁, hb₂⟩
    have hr : 0 < r := by
      rw [← hinv]
      positivity
    have har := mul_pos hpos hr
    have hplus : 0 < (1 + beta) * r := mul_pos (by linarith) hr
    have hminus : 0 < (1 - beta) * r := mul_pos (by linarith) hr
    refine ⟨⟨by linarith, by linarith⟩, ?_, ?_⟩
    · linarith
    · linarith

section Real

variable {s n b : ℝ}

/-- The coefficients are finite when the tangent is, and is not minus one. -/
lemma notchCoefficients_eq (hs : s ≠ 0) (hcos : Real.cos (M_PI_F * b / s) ≠ 0)
    (htan : Real.tan (M_PI_F * b / s) + 1 ≠ 0) :
    notchCoefficients (finite s) (finite n) (finite b) =
      (notch (Real.tan (M_PI_F * b / s)) (-Real.cos (2 * M_PI_F * n / s))).toExtended := by
  have hα : tanf (finite (M_PI_F * b / s)) = finite (Real.tan (M_PI_F * b / s)) := by
    rw [tanf_finite hcos, Real.tan_eq_sin_div_cos]
    rfl
  simp only [notchCoefficients, hα, finite_mul, finite_div hs, cosf_finite, cos_real, neg_finite,
    one_eq, finite_add, finite_div htan, finite_sub]
  rfl

/-- Otherwise the first coefficient is not finite. -/
lemma notchCoefficients_nonfinite (hs : s ≠ 0)
    (h : Real.cos (M_PI_F * b / s) = 0 ∨ Real.tan (M_PI_F * b / s) + 1 = 0) :
    (notchCoefficients (finite s) (finite n) (finite b)).b0 = nonfinite := by
  simp only [notchCoefficients, finite_mul, finite_div hs]
  by_cases hcos : Real.cos (M_PI_F * b / s) = 0
  · rw [tanf_pole hcos, nonfinite_add, div_nonfinite]
  · have htan := h.resolve_left hcos
    rw [Real.tan_eq_sin_div_cos] at htan
    rw [tanf_finite hcos, sin_real, cos_real, one_eq, finite_add, htan, finite_div_zero]

/-- The angle of a notch frequency under the Nyquist frequency is under `M_PI_F`, and the half turn
is the only place there where the cosine is at an end of its range. -/
lemma abs_cos_lt_one_iff (hs : 0 < s) (hn : 0 < n) (hlt : n < s / 2) :
    |-Real.cos (2 * M_PI_F * n / s)| < 1 ↔ 2 * M_PI_F * n / s ≠ Real.pi := by
  have hpos : (0 : ℝ) < M_PI_F := M_PI_F_pos
  have hangle : 0 < 2 * M_PI_F * n / s := by positivity
  have hturn : 2 * M_PI_F * n / s < 2 * Real.pi := by
    rw [div_lt_iff₀ hs]
    have hle := mul_lt_mul_of_pos_left hlt (mul_pos two_pos hpos)
    have hs' := mul_lt_mul_of_pos_right M_PI_F_lt_two_pi hs
    linarith
  generalize 2 * M_PI_F * n / s = x at hangle hturn
  have hsq := Real.sin_sq_add_cos_sq x
  rw [abs_neg, ← sq_lt_one_iff_abs_lt_one]
  constructor
  · rintro hcos rfl
    rw [Real.cos_pi] at hcos
    norm_num at hcos
  · intro hne
    have hsin : Real.sin x ≠ 0 := by
      rcases lt_or_gt_of_ne hne with hbelow | habove
      · exact (Real.sin_pos_of_pos_of_lt_pi hangle hbelow).ne'
      · have hneg := Real.sin_pos_of_pos_of_lt_pi (sub_pos.2 habove) (by linarith)
        rw [Real.sin_sub_pi] at hneg
        exact (neg_pos.1 hneg).ne
    linarith [pow_pos (abs_pos.2 hsin) 2, sq_abs (Real.sin x)]

/-! ### Calls on a fresh filter -/

variable [Zero T]

/-- Parameters that a fresh filter does not tell from its own. -/
def Negligible (s b : ℝ) : Prop := s ≤ FLT_EPSILON ∧ max b (s * minRatio) ≤ FLT_EPSILON

lemma not_rejected_finite (hs : 0 < s) (hn : 0 < n) (hb : 0 < b) (hlt : n < s / 2) :
    ¬ Rejected (finite s) (finite n) (finite b) := by
  simp [Rejected, zero_eq, finite_div (two_ne_zero : (2 : ℝ) ≠ 0), hs, hn, hb, hlt]

lemma setParameters_fresh_of_negligible (hs : 0 < s) (hn : 0 < n) (hb : 0 < b) (hlt : n < s / 2)
    (h : Negligible s b) :
    (fresh : NotchFilter (Extended ℝ) T).setParameters (finite s) (finite n) (finite b) =
      (true, fresh) := by
  obtain ⟨hs', hb'⟩ := h
  have hn' : 0 < max n (s * minRatio) := hn.trans_le (le_max_left ..)
  have hnle : max n (s * minRatio) ≤ FLT_EPSILON := by
    have := max_lt_half hs hlt
    linarith
  have hb₀ : 0 < max b (s * minRatio) := hb.trans_le (le_max_left ..)
  rw [setParameters, if_neg (not_rejected_finite hs hn hb hlt)]
  simp only [clamp_finite, fresh, zero_eq, finite_sub, sub_zero, fabs_finite, finite_lt_finite,
    abs_of_pos hs, abs_of_pos hb₀, not_lt, hs', hb', and_self, if_true, setNotchFreq,
    abs_of_pos hn', hnle.not_gt, if_false]

lemma setParameters_fresh_of_not_negligible (hs : 0 < s) (hn : 0 < n) (hb : 0 < b)
    (hlt : n < s / 2) (h : ¬ Negligible s b) :
    (fresh : NotchFilter (Extended ℝ) T).setParameters (finite s) (finite n) (finite b) =
      fresh.setAllParameters (finite s) (finite (max n (s * minRatio)))
        (finite (max b (s * minRatio))) (finite s) (finite (max b (s * minRatio))) := by
  have hb₀ : 0 < max b (s * minRatio) := hb.trans_le (le_max_left ..)
  rw [setParameters, if_neg (not_rejected_finite hs hn hb hlt)]
  simp only [clamp_finite, fresh, zero_eq, finite_sub, sub_zero, fabs_finite, finite_lt_finite,
    abs_of_pos hs, abs_of_pos hb₀, not_lt]
  exact if_neg h

omit [Zero T]

variable {f : NotchFilter (Extended ℝ) T} {sampleFreqDiff bandwidthDiff : Extended ℝ}

/-- Finite coefficients are accepted. -/
lemma setAllParameters_of_finite {c : Section ℝ}
    (hc : notchCoefficients (finite s) (finite n) (finite b) = c.toExtended) :
    (f.setAllParameters (finite s) (finite n) (finite b) sampleFreqDiff bandwidthDiff).1 = true ∧
    (f.setAllParameters (finite s) (finite n) (finite b) sampleFreqDiff
      bandwidthDiff).2.parameters = (c.toExtended, finite s, finite n, finite b) := by
  simp only [setAllParameters, hc, Section.toExtended, isFinite_finite, Bool.not_true, Bool.or_self,
    Bool.false_eq_true, if_false]
  split_ifs <;> exact ⟨rfl, rfl⟩

lemma setAllParameters_of_nonfinite
    (hc : (notchCoefficients (finite s) (finite n) (finite b)).b0 = nonfinite) :
    (f.setAllParameters (finite s) (finite n) (finite b) sampleFreqDiff bandwidthDiff).1 =
      false := by
  simp [setAllParameters, hc]

/-- The full recomputation succeeds with finite coefficients only. -/
lemma coefficients_of_setAllParameters (hs : 0 < s)
    (h : (f.setAllParameters (finite s) (finite n) (finite b) sampleFreqDiff bandwidthDiff).1 =
      true) :
    Real.tan (M_PI_F * b / s) + 1 ≠ 0 ∧
    (f.setAllParameters (finite s) (finite n) (finite b) sampleFreqDiff
      bandwidthDiff).2.coefficients =
        (notch (Real.tan (M_PI_F * b / s)) (-Real.cos (2 * M_PI_F * n / s))).toExtended := by
  have hfinite : ¬ (Real.cos (M_PI_F * b / s) = 0 ∨ Real.tan (M_PI_F * b / s) + 1 = 0) := by
    intro hor
    rw [setAllParameters_of_nonfinite (notchCoefficients_nonfinite hs.ne' hor)] at h
    cases h
  push Not at hfinite
  obtain ⟨hcos, htan⟩ := hfinite
  refine ⟨htan, ?_⟩
  exact congrArg Prod.fst (setAllParameters_of_finite (notchCoefficients_eq hs.ne' hcos htan)).2

/-- A fresh filter accepts parameters whose tangent is finite and is not minus one. -/
lemma accepted_of_finite [Zero T] (hs : 0 < s) (hn : 0 < n) (hb : 0 < b) (hlt : n < s / 2)
    (h : ¬ Negligible s b) (hcos : Real.cos (M_PI_F * max b (s * minRatio) / s) ≠ 0)
    (htan : Real.tan (M_PI_F * max b (s * minRatio) / s) + 1 ≠ 0) :
    ((fresh : NotchFilter (Extended ℝ) T).setParameters (finite s) (finite n) (finite b)).1 = true ∧
    ((fresh : NotchFilter (Extended ℝ) T).setParameters (finite s) (finite n)
      (finite b)).2.parameters = ((notch (Real.tan (M_PI_F * max b (s * minRatio) / s))
        (-Real.cos (2 * M_PI_F * max n (s * minRatio) / s))).toExtended, finite s,
        finite (max n (s * minRatio)), finite (max b (s * minRatio))) := by
  rw [setParameters_fresh_of_not_negligible hs hn hb hlt h]
  exact setAllParameters_of_finite (notchCoefficients_eq hs.ne' hcos htan)

/-- A new notch frequency is accepted on the path that changes two coefficients only. -/
lemma setParameters_notchFreq {c : Section ℝ} {m : ℝ}
    (hf : f.parameters = (c.toExtended, finite s, finite m, finite b)) (hs : 0 < s)
    (hn : s * minRatio ≤ n) (hb : s * minRatio ≤ b) (hlt : n < s / 2)
    (hdiff : FLT_EPSILON < |n - m|) :
    f.setParameters (finite s) (finite n) (finite b) = f.setNotchFreq (finite n) ∧
      (f.setNotchFreq (finite n)).1 = true := by
  have hmin : 0 < s * minRatio := mul_pos hs minRatio_pos
  simp only [parameters, Prod.mk.injEq] at hf
  obtain ⟨hc, hs', hm, hb'⟩ := hf
  have hb₀ : f.b0 = finite c.b0 := congrArg Section.b0 hc
  constructor
  · rw [setParameters, if_neg (not_rejected_finite hs (hmin.trans_le hn) (hmin.trans_le hb) hlt)]
    simp only [clamp_finite, max_eq_left hn, max_eq_left hb, hs', hb', finite_sub, sub_self,
      fabs_finite, abs_zero, finite_lt_finite, FLT_EPSILON_pos.le.not_gt, not_false_eq_true,
      and_self, if_true]
  · simp only [setNotchFreq, hm, hs', hb₀, finite_sub, fabs_finite, finite_lt_finite, hdiff,
      if_true, finite_mul, finite_div hs.ne', cosf_finite, neg_finite, isFinite_finite,
      Bool.not_true, Bool.false_eq_true, if_false]

end Real

/-- The filter that an accepted call leaves of a fresh one is stable exactly when the angle of its
bandwidth lies in the first half of a period of the tangent and the angle of its notch frequency is
not the half turn, or when the call had no effect. -/
theorem stable_iff_of_accepted [Zero T] {sampleFreq notchFreq bandwidth : Extended ℝ}
    (h : ((fresh : NotchFilter (Extended ℝ) T).setParameters sampleFreq notchFreq bandwidth).1 =
      true) :
    ∃ (s n b : ℝ) (c : Section ℝ), sampleFreq = finite s ∧ notchFreq = finite n ∧
      bandwidth = finite b ∧
      ((fresh : NotchFilter (Extended ℝ) T).setParameters sampleFreq notchFreq
        bandwidth).2.coefficients = c.toExtended ∧
      (|c.a2| < 1 ∧ |c.a1| < 1 + c.a2 ↔
        (s ≤ FLT_EPSILON ∧ max b (s * minRatio) ≤ FLT_EPSILON) ∨
        (∃ k : ℤ, k * Real.pi < M_PI_F * max b (s * minRatio) / s ∧
          M_PI_F * max b (s * minRatio) / s < k * Real.pi + Real.pi / 2) ∧
        2 * M_PI_F * max n (s * minRatio) / s ≠ Real.pi) ∧
      (|c.a2| < 1 ∧ |c.a1| < 1 + c.a2 ↔ ∀ z, c.IsPole z → ‖z‖ < 1) := by
  by_cases hrej : Rejected sampleFreq notchFreq bandwidth
  · rw [setParameters, if_pos hrej] at h
    cases h
  obtain ⟨s, n, b, rfl, rfl, rfl, hs, hn, hb, hlt⟩ := not_rejected hrej
  by_cases hneg : Negligible s b
  · rw [setParameters_fresh_of_negligible hs hn hb hlt hneg]
    refine ⟨s, n, b, .passThrough, rfl, rfl, rfl, rfl, ?_, Section.stable_iff_forall_pole⟩
    exact iff_of_true Section.stable_passThrough (Or.inl hneg)
  · rw [setParameters_fresh_of_not_negligible hs hn hb hlt hneg] at h ⊢
    obtain ⟨htan, hcoeff⟩ := coefficients_of_setAllParameters hs h
    have hcos := abs_cos_lt_one_iff hs (hn.trans_le (le_max_left ..)) (max_lt_half hs hlt)
    refine ⟨s, n, b, _, rfl, rfl, rfl, hcoeff, ?_, Section.stable_iff_forall_pole⟩
    rw [← tan_pos_iff, ← hcos]
    exact (stable_notch_iff htan).trans (or_iff_right hneg).symm

/-- The angle of a bandwidth for a sample frequency of one hundred. -/
lemma angle_hundred {b : ℝ} (hb : 1 ≤ b) :
    M_PI_F * max b (100 * minRatio) / 100 = 13176795 * b / 419430400 := by
  have hmin : (100 : ℝ) * minRatio ≤ b := by
    rw [minRatio]
    linarith
  rw [max_eq_left hmin, M_PI_F]
  ring

/-- The sample frequency of one hundred is not negligible. -/
lemma not_negligible_hundred (b : ℝ) : ¬ Negligible 100 b := by
  rintro ⟨h, -⟩
  rw [FLT_EPSILON] at h
  norm_num at h

/-- A narrow notch is accepted. -/
lemma accepted_narrow :
    0 < M_PI_F * max (10 : ℝ) (100 * minRatio) / 100 ∧
    M_PI_F * max (10 : ℝ) (100 * minRatio) / 100 < Real.pi / 2 ∧
    ((fresh : NotchFilter (Extended ℝ) (Extended ℝ)).setParameters (finite 100) (finite 10)
      (finite 10)).1 = true ∧
    ∃ c : Section ℝ, ((fresh : NotchFilter (Extended ℝ) (Extended ℝ)).setParameters (finite 100)
      (finite 10) (finite 10)).2.parameters =
        (c.toExtended, finite 100, finite 10, finite 10) := by
  have hpi := Real.pi_gt_three
  have hx := angle_hundred (b := 10) (by norm_num)
  have hmax : max (10 : ℝ) (100 * minRatio) = 10 := max_eq_left (by norm_num [minRatio])
  have hpos : 0 < M_PI_F * max (10 : ℝ) (100 * minRatio) / 100 := by
    rw [hx]
    norm_num
  have hlt : M_PI_F * max (10 : ℝ) (100 * minRatio) / 100 < Real.pi / 2 := by
    rw [hx]
    linarith
  have hcos := Real.cos_pos_of_mem_Ioo ⟨by linarith, hlt⟩
  have htan := Real.tan_pos_of_pos_of_lt_pi_div_two hpos hlt
  obtain ⟨haccepted, hparameters⟩ := accepted_of_finite (T := Extended ℝ) (s := 100) (n := 10)
    (b := 10) (by norm_num) (by norm_num) (by norm_num) (by norm_num) (not_negligible_hundred 10)
    hcos.ne' (by linarith)
  rw [hmax] at hparameters
  exact ⟨hpos, hlt, haccepted, _, hparameters⟩

theorem stable_iff_of_accepted_narrow :
    ∃ c : Section ℝ, ((fresh : NotchFilter (Extended ℝ) (Extended ℝ)).setParameters (finite 100)
      (finite 10) (finite 10)).2.coefficients = c.toExtended ∧ |c.a2| < 1 ∧ |c.a1| < 1 + c.a2 := by
  have hpi := Real.pi_gt_three
  have hx := angle_hundred (b := 10) (by norm_num)
  obtain ⟨hpos, hlt, haccepted, -⟩ := accepted_narrow
  obtain ⟨s, n, b, c, hs, hn, hb, hc, hiff, -⟩ := stable_iff_of_accepted haccepted
  obtain rfl := finite_injective hs
  obtain rfl := finite_injective hn
  obtain rfl := finite_injective hb
  refine ⟨c, hc, hiff.2 (Or.inr ⟨⟨0, ?_, ?_⟩, ?_⟩)⟩
  · simpa using hpos
  · simpa using hlt
  · rw [mul_assoc, mul_div_assoc, hx]
    linarith

/-- A bandwidth over the Nyquist frequency is accepted and gives an unstable filter. -/
theorem not_stable_wide :
    ((fresh : NotchFilter (Extended ℝ) (Extended ℝ)).setParameters (finite 100) (finite 10)
      (finite 60)).1 = true ∧
    ∃ c : Section ℝ, ((fresh : NotchFilter (Extended ℝ) (Extended ℝ)).setParameters (finite 100)
      (finite 10) (finite 60)).2.coefficients = c.toExtended ∧
        ¬ (|c.a2| < 1 ∧ |c.a1| < 1 + c.a2) := by
  have hpi := Real.pi_gt_d2
  have hpi' := Real.pi_lt_d2
  have hx := angle_hundred (b := 60) (by norm_num)
  -- the angle is past the pole of the tangent and before the place where it is minus one
  have hcos : Real.cos (M_PI_F * max 60 (100 * minRatio) / 100) < 0 := by
    apply Real.cos_neg_of_pi_div_two_lt_of_lt <;> rw [hx] <;> linarith
  have htan : Real.tan (M_PI_F * max 60 (100 * minRatio) / 100) < -1 := by
    rw [hx, ← Real.tan_pi_div_four, ← Real.tan_neg, ← Real.tan_sub_pi]
    apply Real.tan_lt_tan_of_lt_of_lt_pi_div_two <;> linarith
  obtain ⟨haccepted, hcoeff⟩ := accepted_of_finite (T := Extended ℝ) (s := 100) (n := 10) (b := 60)
    (by norm_num) (by norm_num) (by norm_num) (by norm_num) (not_negligible_hundred 60) hcos.ne
    (by linarith)
  refine ⟨haccepted, _, congrArg Prod.fst hcoeff, fun hstable => ?_⟩
  have hpos := ((stable_notch_iff (by linarith)).1 hstable).1
  linarith

/-- The second call of a run changes the notch frequency only, and is accepted on the path that
changes two coefficients. -/
theorem coefficients_match_parameters_retuned :
    let f : NotchFilter (Extended ℝ) (Extended ℝ) :=
      [Call.setParameters (finite 100) (finite 10) (finite 10)].foldl run fresh
    let r := f.setParameters (finite 100) (finite 20) (finite 10)
    r = f.setNotchFreq (finite 20) ∧ r.1 = true ∧ (PassThrough r.2 ∨ MatchesParameters r.2) ∧
      Close r.2.notchFreq (clamp (finite 100) (finite 20)) := by
  intro f r
  obtain ⟨-, -, -, c, hparameters⟩ := accepted_narrow
  have hf : f.parameters = (c.toExtended, finite 100, finite 10, finite 10) := hparameters
  obtain ⟨hpath, haccepted⟩ := setParameters_notchFreq (n := 20) hf (by norm_num)
    (by norm_num [minRatio]) (by norm_num [minRatio]) (by norm_num) (by norm_num [FLT_EPSILON])
  have hr : r.1 = true := (congrArg Prod.fst hpath).trans haccepted
  have hrun := coefficients_match_parameters (T := Extended ℝ)
    [.setParameters (finite 100) (finite 10) (finite 10)]
  have hrun₂ := coefficients_match_parameters (T := Extended ℝ)
    [.setParameters (finite 100) (finite 10) (finite 10),
      .setParameters (finite 100) (finite 20) (finite 10)]
  exact ⟨hpath, hr, hrun₂.1, ((hrun.2 (finite 100) (finite 20) (finite 10)).1 hr).2.1⟩

end NotchFilter

end RT1064.Math
