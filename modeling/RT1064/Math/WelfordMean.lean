import RT1064.Core.Statistics
import RT1064.Mat.Basic

/-!
# Welford's online mean and variance

`WelfordMean` keeps the mean and the sum of squared deviations of the samples it has seen, each
with a Kahan accumulator. Over exact arithmetic the accumulators stay zero and the filter agrees
with the batch statistics until its counter overflows.
-/

namespace RT1064.Math

open Core Mat

variable {K : Type*} [Field K]

/-- The largest value of the sample counter. -/
def UINT16_MAX : ℕ := 65535

/-- The fields of `WelfordMean`. -/
@[ext] structure WelfordMean (K : Type*) where
  mean : K
  M2 : K
  meanAccum : K
  M2Accum : K
  count : ℕ

/-- `b` lies strictly between `a` and `c`. -/
def StrictlyBetween [LinearOrder K] (a b c : K) : Prop := (a < b ∧ b < c) ∨ (c < b ∧ b < a)

/-- `WelfordMean::kahanSummation`: the sum and the new accumulator. -/
def kahanSummation (sumPrevious input accumulator : K) : K × K :=
  let y := input - accumulator
  let t := sumPrevious + y
  (t, (t - sumPrevious) - y)

/-- Kahan summation with an empty accumulator adds exactly and leaves the accumulator empty. -/
lemma kahanSummation_zero (a b : K) : kahanSummation a b 0 = (a + b, 0) := by
  simp [kahanSummation]

/-- In exact arithmetic there is no rounding for the accumulator to collect. -/
lemma kahanSummation_snd (a b c : K) : (kahanSummation a b c).2 = 0 := by
  simp [kahanSummation]

namespace WelfordMean

/-- A filter that was just constructed. -/
def fresh : WelfordMean K := ⟨0, 0, 0, 0, 0⟩

/-- `WelfordMean::reset`. -/
def reset (_ : WelfordMean K) : WelfordMean K := ⟨0, 0, 0, 0, 0⟩

/-- `WelfordMean::valid`. -/
def valid (s : WelfordMean K) : Bool := 2 < s.count

/-- The divisor of `WelfordMean::variance`; the counter is promoted to `int`. -/
def varianceDivisor (s : WelfordMean K) : ℤ := s.count - 1

/-- `WelfordMean::variance`. -/
def variance (s : WelfordMean K) : K := s.M2 / s.varianceDivisor

/-- The counting part of `WelfordMean::update`, with the overflow of the counter. -/
def countSample (s : WelfordMean K) : WelfordMean K :=
  if s.count = UINT16_MAX then { s with M2 := s.M2 / s.count, M2Accum := 0, count := 1 }
  else { s with count := s.count + 1 }

variable [LinearOrder K]

/-- The part of `WelfordMean::update` that adds a counted sample. -/
def addSample (s : WelfordMean K) (newValue : K) : WelfordMean K :=
  let delta := newValue - s.mean
  let meanChange := delta / s.count
  let mean := kahanSummation s.mean meanChange s.meanAccum
  let M2Change := delta * (newValue - mean.1)
  let M2 := kahanSummation s.M2 M2Change s.M2Accum
  -- protects against floating point precision causing negative variances
  ⟨mean.1, max M2.1 0, mean.2, M2.2, s.count⟩

/-- `WelfordMean::update`. -/
def update (s : WelfordMean K) (newValue : K) : Bool × WelfordMean K :=
  if s.count = 0 then (false, { s.reset with mean := newValue, count := 1 })
  else
    let t := s.countSample.addSample newValue
    if !isFinite t.mean || !isFinite t.M2 then (false, t.reset) else (t.valid, t)

/-- The filter after a sequence of samples. -/
def run (s : WelfordMean K) (xs : List K) : WelfordMean K :=
  xs.foldl (fun s x => (s.update x).2) s

/-- The states a filter can get into. -/
inductive Reachable : WelfordMean K → Prop
  | fresh : Reachable fresh
  | reset {s : WelfordMean K} : Reachable s → Reachable s.reset
  | update {s : WelfordMean K} (x : K) : Reachable s → Reachable (s.update x).2

/-! ### What one update does -/

lemma update_of_count_eq_zero {s : WelfordMean K} (h : s.count = 0) (x : K) :
    (s.update x).2 = ⟨x, 0, 0, 0, 1⟩ := by
  rw [update, if_pos h]
  rfl

lemma update_of_count_ne_zero {s : WelfordMean K} (h : s.count ≠ 0) (x : K) :
    (s.update x).2 = s.countSample.addSample x := by
  rw [update, if_neg h]
  rfl

@[simp] lemma run_nil (s : WelfordMean K) : s.run [] = s := rfl

lemma run_concat (s : WelfordMean K) (xs : List K) (x : K) :
    s.run (xs ++ [x]) = ((s.run xs).update x).2 := by
  rw [run, List.foldl_concat]
  rfl

lemma Reachable.run {s : WelfordMean K} (h : Reachable s) (xs : List K) :
    Reachable (s.run xs) := by
  induction xs using List.reverseRecOn with
  | nil => exact h
  | append_singleton xs x ih =>
    rw [run_concat]
    exact ih.update x

/-- Both accumulators are empty in every state. -/
lemma Reachable.accum_eq_zero {s : WelfordMean K} (h : Reachable s) :
    s.meanAccum = 0 ∧ s.M2Accum = 0 := by
  cases h with
  | fresh => exact ⟨rfl, rfl⟩
  | reset => exact ⟨rfl, rfl⟩
  | @update s x hs =>
    by_cases hc : s.count = 0
    · rw [update_of_count_eq_zero hc]
      exact ⟨rfl, rfl⟩
    · rw [update_of_count_ne_zero hc]
      exact ⟨kahanSummation_snd _ _ _, kahanSummation_snd _ _ _⟩

/-- The counter stays within its sixteen bits. -/
lemma Reachable.count_le {s : WelfordMean K} (h : Reachable s) : s.count ≤ UINT16_MAX := by
  induction h with
  | fresh => exact Nat.zero_le _
  | reset => exact Nat.zero_le _
  | @update s x hs ih =>
    by_cases hc : s.count = 0
    · rw [update_of_count_eq_zero hc]
      simp [UINT16_MAX]
    · rw [update_of_count_ne_zero hc]
      show s.countSample.count ≤ UINT16_MAX
      rw [countSample]
      split_ifs with hmax
      · simp [UINT16_MAX]
      · exact Nat.lt_of_le_of_ne ih hmax

/-! ### Overflow of the counter -/

/-- What the overflow of the counter should keep: the new mean lies strictly between the old one
and the sample, and the variance can still be computed. -/
def KeepsStatistics (s : WelfordMean K) (x : K) : Prop :=
  StrictlyBetween s.mean (s.update x).2.mean x ∧ (s.update x).2.varianceDivisor ≠ 0

/-- At the overflow the counter is one when the sample is added, so that the sample replaces the
mean. -/
lemma Reachable.update_overflow {s : WelfordMean K} (h : Reachable s)
    (hmax : s.count = UINT16_MAX) (x : K) :
    (s.update x).2.mean = x ∧ (s.update x).2.varianceDivisor = 0 := by
  have hcount : s.count ≠ 0 := by
    rw [hmax]
    decide
  rw [update_of_count_ne_zero hcount, countSample, if_pos hmax]
  constructor
  · simp [addSample, kahanSummation, h.accum_eq_zero.1]
  · simp [addSample, varianceDivisor]

/-- The samples before the overflow have no influence on the mean after it. -/
lemma Reachable.not_keepsStatistics {s : WelfordMean K} (h : Reachable s)
    (hmax : s.count = UINT16_MAX) (x : K) : ¬ s.KeepsStatistics x := by
  rintro ⟨_, hdiv⟩
  exact hdiv (h.update_overflow hmax x).2

/-! ### Agreement with the batch statistics -/

/-- The filter holds the statistics of the samples `xs`. -/
structure Summarises (s : WelfordMean K) (xs : List K) : Prop where
  count_eq : s.count = xs.length
  mean_eq : s.mean = average xs id
  M2_eq : s.M2 = comoment xs id id
  meanAccum_eq : s.meanAccum = 0
  M2Accum_eq : s.M2Accum = 0

omit [LinearOrder K] in
lemma Summarises.variance_eq {s : WelfordMean K} {xs : List K} (h : Summarises s xs) :
    s.variance = sampleCovariance xs id id := by
  rw [variance, varianceDivisor, sampleCovariance, h.M2_eq, h.count_eq]
  push_cast
  rfl

variable [IsStrictOrderedRing K]

/-- A sample that the counter has room for is added to the statistics. -/
lemma Summarises.update {s : WelfordMean K} {xs : List K} (h : Summarises s xs)
    (hpos : xs ≠ []) (hroom : xs.length < UINT16_MAX) (x : K) :
    Summarises (s.update x).2 (xs ++ [x]) := by
  have hcount : s.count ≠ 0 := by
    rw [h.count_eq]
    exact fun h0 => hpos (List.length_eq_zero_iff.1 h0)
  have hmax : s.count ≠ UINT16_MAX := by
    rw [h.count_eq]
    exact hroom.ne
  have hmean : s.mean + (x - s.mean) / ((s.count + 1 : ℕ) : K) = average (xs ++ [x]) id := by
    rw [average_concat, h.mean_eq, h.count_eq, Nat.cast_succ, id]
  have hM2 : s.M2 + (x - s.mean) * (x - average (xs ++ [x]) id) =
      comoment (xs ++ [x]) id id := by
    rw [comoment_concat, h.M2_eq, h.mean_eq, id]
  rw [update_of_count_ne_zero hcount, countSample, if_neg hmax]
  simp only [addSample, h.meanAccum_eq, h.M2Accum_eq, kahanSummation_zero, hmean, hM2]
  exact
    { count_eq := by simp [h.count_eq]
      mean_eq := rfl
      M2_eq := max_eq_left (comoment_self_nonneg _ _)
      meanAccum_eq := rfl
      M2Accum_eq := rfl }

/-- A fresh or reset filter holds the statistics of the samples it is fed. -/
lemma summarises_run {s : WelfordMean K} (h0 : s.count = 0) {xs : List K} (hpos : xs ≠ [])
    (hmax : xs.length ≤ UINT16_MAX) : Summarises (s.run xs) xs := by
  induction xs using List.reverseRecOn with
  | nil => exact absurd rfl hpos
  | append_singleton xs x ih =>
    rw [List.length_append, List.length_singleton] at hmax
    rw [run_concat]
    rcases eq_or_ne xs [] with rfl | hxs
    · rw [run_nil, update_of_count_eq_zero h0]
      constructor <;> simp
    · exact (ih hxs (Nat.le_of_succ_le hmax)).update hxs hmax x

end WelfordMean

end RT1064.Math
