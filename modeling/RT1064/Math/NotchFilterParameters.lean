import RT1064.Math.NotchFilter

/-!
# The parameters of the notch filter

`setParameters` recomputes all the coefficients when the sample frequency or the bandwidth
changed, and only two of them when it sees that just the notch frequency changed.
-/

namespace RT1064.Math

open Core Mat Extended

namespace NotchFilter

variable {T K : Type*} [Field K]

/-- The relative change of a parameter that forces a reset: `0.01f`. -/
def resetRatio : K := 5368709 / 536870912

/-- The coefficients that `NotchFilter::setParameters` computes from all three parameters. -/
def notchCoefficients [DecidableEq K] [Cmath K] (sampleFreq notchFreq bandwidth : Extended K) :
    Section (Extended K) :=
  let alpha := tanf (finite M_PI_F * bandwidth / sampleFreq)
  let beta := -cosf (finite 2 * finite M_PI_F * notchFreq / sampleFreq)
  let a0Inv := 1 / (alpha + 1)
  { b0 := a0Inv
    b1 := finite 2 * beta * a0Inv
    b2 := a0Inv
    a1 := finite 2 * beta * a0Inv
    a2 := (1 - alpha) * a0Inv }

variable [LinearOrder K]

/-- The part of `NotchFilter::setParameters` for a new notch frequency only. -/
def setNotchFreq [Cmath K] (f : NotchFilter (Extended K) T) (notchFreqNew : Extended K) :
    Bool × NotchFilter (Extended K) T :=
  let notchFreqDiff := fabs (notchFreqNew - f.notchFreq)
  if finite FLT_EPSILON < notchFreqDiff then
    let beta := -cosf (finite 2 * finite M_PI_F * notchFreqNew / f.sampleFreq)
    let b1 := finite 2 * beta * f.b0
    let g := { f with
      notchFreq := notchFreqNew
      b1 := b1
      a1 := b1
      initialized := if f.bandwidth < notchFreqDiff then false else f.initialized }
    if !IsFinite.isFinite b1 then (false, g.disable) else (true, g)
  else (true, f)

/-- The part of `NotchFilter::setParameters` that recomputes all the coefficients. -/
def setAllParameters [Cmath K] (f : NotchFilter (Extended K) T)
    (sampleFreq notchFreqNew bandwidthNew sampleFreqDiff bandwidthDiff : Extended K) :
    Bool × NotchFilter (Extended K) T :=
  let c := notchCoefficients sampleFreq notchFreqNew bandwidthNew
  let g := { f with
    sampleFreq := sampleFreq, notchFreq := notchFreqNew, bandwidth := bandwidthNew
    b0 := c.b0, b1 := c.b1, b2 := c.b2, a1 := c.a1, a2 := c.a2 }
  if !IsFinite.isFinite c.b0 || !IsFinite.isFinite c.b1 || !IsFinite.isFinite c.b2 ||
      !IsFinite.isFinite c.a2 then
    (false, g.disable)
  else if finite resetRatio * bandwidthNew < bandwidthDiff then (true, g.reset)
  else if finite resetRatio * sampleFreq < sampleFreqDiff then (true, g.reset)
  else (true, g)

/-- The check at the top of `NotchFilter::setParameters`. -/
def Rejected (sampleFreq notchFreq bandwidth : Extended K) : Prop :=
  sampleFreq ≤ 0 ∨ notchFreq ≤ 0 ∨ bandwidth ≤ 0 ∨ sampleFreq / finite 2 ≤ notchFreq ∨
    IsFinite.isFinite sampleFreq = false ∨ IsFinite.isFinite notchFreq = false ∨
    IsFinite.isFinite bandwidth = false

instance decidableRejected (sampleFreq notchFreq bandwidth : Extended K) :
    Decidable (Rejected sampleFreq notchFreq bandwidth) :=
  inferInstanceAs (Decidable (_ ∨ _))

/-- The clamp of the notch frequency and of the bandwidth. -/
def clamp (sampleFreq freq : Extended K) : Extended K :=
  Functions.max freq (sampleFreq * finite minRatio)

/-- `NotchFilter::setParameters`. -/
def setParameters [Cmath K] (f : NotchFilter (Extended K) T)
    (sampleFreq notchFreq bandwidth : Extended K) : Bool × NotchFilter (Extended K) T :=
  if Rejected sampleFreq notchFreq bandwidth then (false, f.disable)
  else
    let notchFreqNew := clamp sampleFreq notchFreq
    let bandwidthNew := clamp sampleFreq bandwidth
    let sampleFreqDiff := fabs (sampleFreq - f.sampleFreq)
    let bandwidthDiff := fabs (bandwidthNew - f.bandwidth)
    if ¬ finite FLT_EPSILON < sampleFreqDiff ∧ ¬ finite FLT_EPSILON < bandwidthDiff then
      f.setNotchFreq notchFreqNew
    else
      f.setAllParameters sampleFreq notchFreqNew bandwidthNew sampleFreqDiff bandwidthDiff

/-- A call that changes the filter. -/
inductive Call (K T : Type*) where
  | setParameters (sampleFreq notchFreq bandwidth : Extended K)
  | apply (sample : T)
  | applyArray (samples : ℕ → T) (numSamples : ℕ)
  | reset
  | resetTo (sample : T)
  | disable

/-- The filter after a call. -/
def run [Cmath K] [Add T] [Sub T] [Zero T] [SMul (Extended K) T] [IsFinite T]
    (f : NotchFilter (Extended K) T) : Call K T → NotchFilter (Extended K) T
  | .setParameters sampleFreq notchFreq bandwidth =>
    (f.setParameters sampleFreq notchFreq bandwidth).2
  | .apply sample                 => (f.apply sample).2
  | .applyArray samples numSamples => (f.applyArray samples numSamples).machine
  | .reset                        => f.reset
  | .resetTo sample               => f.resetTo sample
  | .disable                      => f.disable

/-! ### Coefficients and parameters -/

/-- Two values within the threshold of the change detection. -/
def Close (x y : Extended K) : Prop := fabs (x - y) ≤ finite FLT_EPSILON

lemma close_finite {x y : K} : Close (finite x) (finite y) ↔ |x - y| ≤ FLT_EPSILON := Iff.rfl

lemma close_self [IsStrictOrderedRing K] (x : K) : Close (finite x) (finite x) := by
  rw [close_finite, sub_self, abs_zero]
  exact FLT_EPSILON_pos.le

/-- The pass-through, with all parameters zero. -/
def PassThrough (f : NotchFilter (Extended K) T) : Prop :=
  f.coefficients = .passThrough ∧ f.sampleFreq = 0 ∧ f.notchFreq = 0 ∧ f.bandwidth = 0

section Consistent

variable [Cmath K]

/-- The coefficients are those of the full formulas at the stored parameters. -/
def MatchesParameters (f : NotchFilter (Extended K) T) : Prop :=
  f.coefficients = notchCoefficients f.sampleFreq f.notchFreq f.bandwidth

/-- The coefficients belong to the stored parameters, which are finite. -/
structure Consistent (f : NotchFilter (Extended K) T) : Prop where
  coefficients : PassThrough f ∨ MatchesParameters f
  sampleFreq : ∃ s, f.sampleFreq = finite s
  notchFreq : ∃ n, f.notchFreq = finite n
  bandwidth : ∃ b, f.bandwidth = finite b

lemma PassThrough.consistent {f : NotchFilter (Extended K) T} (hf : PassThrough f) :
    Consistent f where
  coefficients := Or.inl hf
  sampleFreq := ⟨0, hf.2.1⟩
  notchFreq := ⟨0, hf.2.2.1⟩
  bandwidth := ⟨0, hf.2.2.2⟩

/-- The part of the state that `setParameters` sets. -/
def parameters (f : NotchFilter (Extended K) T) :
    Section (Extended K) × Extended K × Extended K × Extended K :=
  (f.coefficients, f.sampleFreq, f.notchFreq, f.bandwidth)

lemma Consistent.of_parameters_eq {f g : NotchFilter (Extended K) T} (hf : Consistent f)
    (h : g.parameters = f.parameters) : Consistent g := by
  simp only [parameters, Prod.mk.injEq] at h
  obtain ⟨hc, hs, hn, hb⟩ := h
  obtain ⟨hcoeff, hsfin, hnfin, hbfin⟩ := hf
  constructor
  · rw [PassThrough, MatchesParameters, hc, hs, hn, hb]
    exact hcoeff
  · rwa [hs]
  · rwa [hn]
  · rwa [hb]

/-- What a call leaves and answers: a consistent filter, close to the request after success and
the pass-through after failure. -/
structure Outcome (r : Bool × NotchFilter (Extended K) T)
    (sampleFreq notchFreqNew bandwidthNew : Extended K) : Prop where
  consistent : Consistent r.2
  success : r.1 = true → Close r.2.sampleFreq sampleFreq ∧ Close r.2.notchFreq notchFreqNew ∧
    Close r.2.bandwidth bandwidthNew
  failure : r.1 = false → PassThrough r.2

lemma outcome_disable (f : NotchFilter (Extended K) T) (s n b : Extended K) :
    Outcome (false, f.disable) s n b := by
  have hpass : PassThrough f.disable := ⟨rfl, rfl, rfl, rfl⟩
  constructor
  · exact hpass.consistent
  · intro h
    cases h
  · exact fun _ => hpass

lemma outcome_of_consistent {f : NotchFilter (Extended K) T} (hf : Consistent f)
    {s n b : Extended K} (hs : Close f.sampleFreq s) (hn : Close f.notchFreq n)
    (hb : Close f.bandwidth b) : Outcome (true, f) s n b := by
  constructor
  · exact hf
  · exact fun _ => ⟨hs, hn, hb⟩
  · intro h
    cases h

/-- The two coefficients of the fast path are those of the full formulas. -/
lemma MatchesParameters.setNotchFreq {f : NotchFilter (Extended K) T} (hf : MatchesParameters f)
    (n : Extended K) (init : Bool) :
    MatchesParameters { f with
      notchFreq := n
      b1 := finite 2 * -cosf (finite 2 * finite M_PI_F * n / f.sampleFreq) * f.b0
      a1 := finite 2 * -cosf (finite 2 * finite M_PI_F * n / f.sampleFreq) * f.b0
      initialized := init } := by
  have hb0 : f.b0 = 1 / (tanf (finite M_PI_F * f.bandwidth / f.sampleFreq) + 1) :=
    congrArg Section.b0 hf
  have hb2 : f.b2 = 1 / (tanf (finite M_PI_F * f.bandwidth / f.sampleFreq) + 1) :=
    congrArg Section.b2 hf
  have ha2 := congrArg Section.a2 hf
  simp only [MatchesParameters, NotchFilter.coefficients, notchCoefficients, Section.mk.injEq]
  exact ⟨hb0, by rw [hb0], hb2, by rw [hb0], ha2⟩

/-- A new notch frequency for a filter whose other parameters are close to the requested ones. The
pass-through never takes the path that changes coefficients. -/
lemma outcome_setNotchFreq [IsStrictOrderedRing K] {f : NotchFilter (Extended K) T}
    (hf : Consistent f) {s n b : K} (hn : 0 < n) (hns : n < s / 2)
    (hs : Close f.sampleFreq (finite s)) (hb : Close f.bandwidth (finite b)) :
    Outcome (f.setNotchFreq (finite n)) (finite s) (finite n) (finite b) := by
  obtain ⟨n₀, hn₀⟩ := hf.notchFreq
  rw [setNotchFreq]
  split
  · rename_i hdiff
    rcases hf.coefficients with hpass | hmatch
    · obtain ⟨-, hs₀, hn₀, -⟩ := hpass
      rw [hs₀, zero_eq, close_finite, zero_sub, abs_neg] at hs
      rw [hn₀, zero_eq, finite_sub, sub_zero, fabs_finite, finite_lt_finite, abs_of_pos hn] at hdiff
      have hle := (le_abs_self s).trans hs
      linarith
    · simp only
      split
      · exact outcome_disable _ _ _ _
      · refine outcome_of_consistent ?_ hs ?_ hb
        · exact ⟨Or.inr (hmatch.setNotchFreq _ _), hf.sampleFreq, ⟨n, rfl⟩, hf.bandwidth⟩
        · exact close_self n
  · rename_i hdiff
    rw [hn₀, finite_sub, fabs_finite, finite_lt_finite, not_lt, abs_sub_comm] at hdiff
    apply outcome_of_consistent hf hs _ hb
    rwa [hn₀, close_finite]

/-- The full recomputation. -/
lemma outcome_setAllParameters [IsStrictOrderedRing K] (f : NotchFilter (Extended K) T)
    (s n b : K) (sampleFreqDiff bandwidthDiff : Extended K) :
    Outcome (f.setAllParameters (finite s) (finite n) (finite b) sampleFreqDiff bandwidthDiff)
      (finite s) (finite n) (finite b) := by
  have hs := close_self s
  have hn := close_self n
  have hb := close_self b
  rw [setAllParameters]
  split_ifs
  · exact outcome_disable _ _ _ _
  all_goals
    refine outcome_of_consistent ?_ hs hn hb
    exact ⟨Or.inr rfl, ⟨s, rfl⟩, ⟨n, rfl⟩, ⟨b, rfl⟩⟩

end Consistent

/-! ### Accepted parameters -/

lemma not_rejected [IsStrictOrderedRing K] {sampleFreq notchFreq bandwidth : Extended K}
    (h : ¬ Rejected sampleFreq notchFreq bandwidth) :
    ∃ s n b : K, sampleFreq = finite s ∧ notchFreq = finite n ∧ bandwidth = finite b ∧
      0 < s ∧ 0 < n ∧ 0 < b ∧ n < s / 2 := by
  rw [Rejected] at h
  push Not at h
  obtain ⟨hs, hn, hb, hlt, hsfin, hnfin, hbfin⟩ := h
  obtain ⟨s, rfl⟩ := isFinite_iff.1 (Bool.eq_true_of_not_eq_false hsfin)
  obtain ⟨n, rfl⟩ := isFinite_iff.1 (Bool.eq_true_of_not_eq_false hnfin)
  obtain ⟨b, rfl⟩ := isFinite_iff.1 (Bool.eq_true_of_not_eq_false hbfin)
  rw [zero_eq, finite_le_finite, not_le] at hs hn hb
  rw [finite_div two_ne_zero, finite_le_finite, not_le] at hlt
  exact ⟨s, n, b, rfl, rfl, rfl, hs, hn, hb, hlt⟩

lemma clamp_finite (s x : K) : clamp (finite s) (finite x) = finite (max x (s * minRatio)) := by
  rw [clamp, finite_mul, max_finite]

lemma max_lt_half [IsStrictOrderedRing K] {s n : K} (hs : 0 < s) (hn : n < s / 2) :
    max n (s * minRatio) < s / 2 := by
  apply max_lt hn
  have := mul_lt_mul_of_pos_left (minRatio_lt_half (K := K)) hs
  linarith

/-- What one call of `setParameters` leaves and answers. -/
lemma outcome_setParameters [IsStrictOrderedRing K] [Cmath K] {f : NotchFilter (Extended K) T}
    (hf : Consistent f) (sampleFreq notchFreq bandwidth : Extended K) :
    Outcome (f.setParameters sampleFreq notchFreq bandwidth) sampleFreq
      (clamp sampleFreq notchFreq) (clamp sampleFreq bandwidth) := by
  rw [setParameters]
  split
  · exact outcome_disable _ _ _ _
  · rename_i hrej
    obtain ⟨s, n, b, rfl, rfl, rfl, hs, hn, hb, hlt⟩ := not_rejected hrej
    simp only [clamp_finite]
    split
    · rename_i hsame
      obtain ⟨s₀, hs₀⟩ := hf.sampleFreq
      obtain ⟨b₀, hb₀⟩ := hf.bandwidth
      rw [hs₀, hb₀, finite_sub, finite_sub, fabs_finite, fabs_finite, finite_lt_finite,
        finite_lt_finite, not_lt, not_lt, abs_sub_comm s, abs_sub_comm _ b₀] at hsame
      apply outcome_setNotchFreq hf (hn.trans_le (le_max_left ..)) (max_lt_half hs hlt)
      · rw [hs₀]
        exact hsame.1
      · rw [hb₀]
        exact hsame.2
    · exact outcome_setAllParameters f s _ _ _ _

/-! ### Runs -/

lemma consistent_fresh [Cmath K] [Zero T] : Consistent (fresh : NotchFilter (Extended K) T) :=
  PassThrough.consistent ⟨rfl, rfl, rfl, rfl⟩

section Run

variable [Add T] [Sub T] [Zero T] [SMul (Extended K) T] [IsFinite T]

lemma parameters_apply (f : NotchFilter (Extended K) T) (x : T) :
    (f.apply x).2.parameters = f.parameters := by
  rcases hf : f.initialized <;> simp [apply, applyInternal, resetTo, parameters, coefficients, hf]

/-- Block processing keeps the coefficients and the parameters. -/
lemma parameters_applyArray (f : NotchFilter (Extended K) T) (samples : ℕ → T) (num : ℕ) :
    (f.applyArray samples num).machine.parameters = f.parameters := by
  rw [applyArray_eq, InPlace.loop_eq]
  have hstart : (f.initialise (samples 0)).parameters = f.parameters := by
    rcases hf : f.initialized <;> simp [initialise, resetTo, parameters, coefficients, hf]
  apply inv_foldl_of_forall (fun g : NotchFilter (Extended K) T => g.parameters = f.parameters)
  · exact fun g x hg => hg
  · exact hstart

/-- Every call keeps the coefficients and the parameters together. -/
lemma consistent_run [IsStrictOrderedRing K] [Cmath K] {f : NotchFilter (Extended K) T}
    (hf : Consistent f) (call : Call K T) : Consistent (f.run call) := by
  cases call with
  | setParameters s n b => exact (outcome_setParameters hf s n b).consistent
  | apply x => exact hf.of_parameters_eq (f.parameters_apply x)
  | applyArray samples num => exact hf.of_parameters_eq (f.parameters_applyArray samples num)
  | reset => exact hf.of_parameters_eq rfl
  | resetTo x => exact hf.of_parameters_eq rfl
  | disable => exact (outcome_disable f 0 0 0).consistent

end Run

/-- After every sequence of calls on a fresh filter it is the pass-through or holds the coefficients
of the full formulas at its parameters. An accepted call leaves parameters close to the requested
ones, and a rejected call leaves the pass-through. -/
theorem coefficients_match_parameters [Add T] [Sub T] [Zero T] [SMul (Extended ℝ) T] [IsFinite T]
    (calls : List (Call ℝ T)) :
    let f : NotchFilter (Extended ℝ) T := calls.foldl run fresh
    (PassThrough f ∨ MatchesParameters f) ∧
    ∀ sampleFreq notchFreq bandwidth : Extended ℝ,
      let r := f.setParameters sampleFreq notchFreq bandwidth
      (r.1 = true → Close r.2.sampleFreq sampleFreq ∧
        Close r.2.notchFreq (clamp sampleFreq notchFreq) ∧
        Close r.2.bandwidth (clamp sampleFreq bandwidth)) ∧
      (r.1 = false → PassThrough r.2) := by
  intro f
  have hf : Consistent f :=
    inv_foldl_of_forall Consistent (fun _ call h => consistent_run h call) calls consistent_fresh
  refine ⟨hf.coefficients, fun s n b => ?_⟩
  have hout := outcome_setParameters hf s n b
  exact ⟨hout.success, hout.failure⟩

end NotchFilter

end RT1064.Math
