import RT1064.Core.Extremes
import RT1064.Core.Run
import RT1064.Mat.AxisAngle
import RT1064.Math.Functions

/-!
# The alpha filter

`AlphaFilter` moves its state towards each sample by the part `alpha` of the way. The template is
specialised for rotations, where the way is taken on the sphere of unit quaternions.
-/

namespace RT1064.Math

open Core Mat

variable {K T : Type*}

/-- The fields of `AlphaFilter`. -/
@[ext] structure AlphaFilter (K T : Type*) where
  timeConstant : K
  alpha : K
  filterState : T

/-- `AlphaFilter::updateCalculation`, from `alpha` and the state. -/
def updateCalculation [Add T] [Sub T] [SMul K T] (alpha : K) (filterState sample : T) : T :=
  filterState + alpha • (sample - filterState)

/-- `AlphaFilter<Quatf>::updateCalculation`. -/
def updateCalculationQuat [Field K] [LinearOrder K] [Cmath K] (alpha : K)
    (filterState sample : Mat.Quaternion K) : Mat.Quaternion K :=
  let qError := (filterState.inversed.mul sample).canonical
  filterState.mul (Quaternion.ofAxisAngle (vecMulScalar (AxisAngle.ofQuaternion qError) alpha))

namespace AlphaFilter

section Parameters

variable [Field K] [LinearOrder K]

/-- `AlphaFilter(time_constant)`, with the value-initialised state. -/
def ofTimeConstant [Zero T] (timeConstant : K) : AlphaFilter K T := ⟨timeConstant, 0, 0⟩

/-- `AlphaFilter::setAlpha`. -/
def setAlpha (f : AlphaFilter K T) (alpha : K) : AlphaFilter K T := { f with alpha := alpha }

/-- `AlphaFilter::setParameters`. -/
def setParameters (f : AlphaFilter K T) (sampleInterval timeConstant : K) : AlphaFilter K T :=
  let denominator := timeConstant + sampleInterval
  let g := if FLT_EPSILON < denominator then f.setAlpha (sampleInterval / denominator) else f
  { g with timeConstant := timeConstant }

/-- `AlphaFilter::setCutoffFreq(sample_freq, cutoff_freq)`. -/
def setCutoffFreq (f : AlphaFilter K T) (sampleFreq cutoffFreq : K) : Bool × AlphaFilter K T :=
  if sampleFreq ≤ 0 ∨ cutoffFreq ≤ 0 ∨ sampleFreq / 2 ≤ cutoffFreq ∨
      !isFinite sampleFreq ∨ !isFinite cutoffFreq then
    (false, f)
  else (true, f.setParameters (1 / sampleFreq) (1 / (M_TWOPI_F * cutoffFreq)))

/-- `AlphaFilter::reset`. -/
def reset (f : AlphaFilter K T) (sample : T) : AlphaFilter K T := { f with filterState := sample }

/-- `AlphaFilter::update(sample)`, with the calculation of the sample type. -/
def update (calculation : K → T → T → T) (f : AlphaFilter K T) (sample : T) :
    T × AlphaFilter K T :=
  let g := { f with filterState := calculation f.alpha f.filterState sample }
  (g.filterState, g)

/-- `AlphaFilter::update(sample, dt)`. -/
def updateDt (calculation : K → T → T → T) (f : AlphaFilter K T) (sample : T) (dt : K) :
    T × AlphaFilter K T :=
  (f.setParameters dt f.timeConstant).update calculation sample

lemma filterState_setParameters (f : AlphaFilter K T) (sampleInterval timeConstant : K) :
    (f.setParameters sampleInterval timeConstant).filterState = f.filterState := by
  rw [setParameters]
  split_ifs <;> rfl

end Parameters

/-! ### Scalars -/

section Scalar

variable [Field K] [LinearOrder K] [IsStrictOrderedRing K]

/-- The weight is a part of the way. -/
def ValidAlpha (f : AlphaFilter K T) : Prop := 0 ≤ f.alpha ∧ f.alpha ≤ 1

/-- Parameters that are not negative give a valid weight, and too small ones keep it. -/
lemma validAlpha_setParameters {f : AlphaFilter K T} (hf : f.ValidAlpha)
    {sampleInterval timeConstant : K} (hs : 0 ≤ sampleInterval) (ht : 0 ≤ timeConstant) :
    (f.setParameters sampleInterval timeConstant).ValidAlpha := by
  rw [setParameters]
  split_ifs with h
  · have hpos : 0 < timeConstant + sampleInterval := FLT_EPSILON_pos.trans h
    constructor
    · exact div_nonneg hs hpos.le
    · exact (div_le_one hpos).2 (by linarith)
  · exact hf

/-- So do the parameters of an accepted cutoff frequency. -/
lemma validAlpha_setCutoffFreq {f : AlphaFilter K T} (hf : f.ValidAlpha)
    {sampleFreq cutoffFreq : K} (h : (f.setCutoffFreq sampleFreq cutoffFreq).1 = true) :
    (f.setCutoffFreq sampleFreq cutoffFreq).2.ValidAlpha ∧
      0 ≤ (f.setCutoffFreq sampleFreq cutoffFreq).2.timeConstant := by
  rw [setCutoffFreq] at h ⊢
  split_ifs at h ⊢ with hrejected
  · obtain ⟨hs, hrest⟩ := not_or.1 hrejected
    have hs0 : 0 ≤ 1 / sampleFreq := one_div_nonneg.2 (not_le.1 hs).le
    have hc0 : 0 ≤ 1 / (M_TWOPI_F * cutoffFreq) := by
      have hc : 0 < cutoffFreq := not_le.1 (not_or.1 hrest).1
      rw [M_TWOPI_F]
      positivity
    exact ⟨validAlpha_setParameters hf hs0 hc0, hc0⟩

/-- A step of the filter stays between the extremes of any list with its state and the sample. -/
lemma within_update {f : AlphaFilter K K} (hf : f.ValidAlpha) {l : List K}
    (hl : Within l f.filterState) {x : K} (hx : x ∈ l) :
    Within l (f.update updateCalculation x).1 :=
  within_step hl hx hf.1 hf.2

/-- The filter after a sequence of calls `update(sample, dt)`. -/
def runDt (f : AlphaFilter K K) (calls : List (K × K)) : AlphaFilter K K :=
  calls.foldl (fun f call => (f.updateDt updateCalculation call.1 call.2).2) f

/-- With a time constant and time steps that are not negative, the weight stays a part of the way
and the state never leaves the extremes of the initial state and the samples so far. -/
lemma runDt_within {f : AlphaFilter K K} (hf : f.ValidAlpha) (htime : 0 ≤ f.timeConstant)
    (calls : List (K × K)) (hdt : ∀ call ∈ calls, 0 ≤ call.2) :
    (0 ≤ (f.runDt calls).alpha ∧ (f.runDt calls).alpha ≤ 1) ∧
      Within (f.filterState :: calls.map Prod.fst) (f.runDt calls).filterState := by
  -- the time constant does not change, which the weight of the next call needs
  suffices h : (f.runDt calls).timeConstant = f.timeConstant ∧ (f.runDt calls).ValidAlpha ∧
      Within (f.filterState :: calls.map Prod.fst) (f.runDt calls).filterState from h.2
  induction calls using List.reverseRecOn with
  | nil => exact ⟨rfl, hf, within_of_mem (by simp [runDt])⟩
  | append_singleton calls call ih =>
    obtain ⟨x, dt⟩ := call
    obtain ⟨hsame, halpha, hwithin⟩ := ih fun c hc => hdt c (List.mem_append_left _ hc)
    have hdt0 : 0 ≤ dt := hdt (x, dt) (by simp)
    have hrun : f.runDt (calls ++ [(x, dt)]) =
        (updateDt updateCalculation (f.runDt calls) x dt).2 := List.foldl_concat ..
    have hvalid := validAlpha_setParameters halpha hdt0 (hsame ▸ htime)
    rw [hrun]
    refine ⟨hsame, hvalid, within_update hvalid ?_ (by simp)⟩
    rw [filterState_setParameters]
    apply hwithin.mono
    simp only [List.map_append, ← List.cons_append]
    exact List.subset_append_left _ _

end Scalar

/-! ### Rotations -/

/-- A call that gives a sample to the filter. -/
inductive Call (K T : Type*) where
  | update (sample : T)
  | updateDt (sample : T) (dt : K)

/-- The sample of a call. -/
def Call.sample : Call K T → T
  | .update q     => q
  | .updateDt q _ => q

/-- A call of a filter for rotations, with the state it returns. -/
def step [Field K] [LinearOrder K] [Cmath K] (f : AlphaFilter K (Mat.Quaternion K)) :
    Call K (Mat.Quaternion K) → Mat.Quaternion K × AlphaFilter K (Mat.Quaternion K)
  | .update q      => f.update updateCalculationQuat q
  | .updateDt q dt => f.updateDt updateCalculationQuat q dt

/-- The same call, or with the other quaternion of the same rotation. -/
inductive SameRotation [Neg T] : Call K T → Call K T → Prop where
  | update {q q' : T} (h : q' = q ∨ q' = -q) : SameRotation (.update q) (.update q')
  | updateDt {q q' : T} (dt : K) (h : q' = q ∨ q' = -q) :
      SameRotation (.updateDt q dt) (.updateDt q' dt)

lemma isUnit_updateCalculationQuat {state : Mat.Quaternion ℝ} (h : state.IsUnit) (alpha : ℝ)
    (sample : Mat.Quaternion ℝ) : (updateCalculationQuat alpha state sample).IsUnit :=
  h.mul (Quaternion.isUnit_ofAxisAngle _)

/-- The canonical form makes the calculation blind to the sign of the sample. -/
lemma updateCalculationQuat_eq {state sample sample' : Mat.Quaternion ℝ} (h : state.IsUnit)
    (hs : sample.IsUnit) (hsign : sample' = sample ∨ sample' = -sample) (alpha : ℝ) :
    updateCalculationQuat alpha state sample' = updateCalculationQuat alpha state sample := by
  rcases hsign with rfl | rfl
  · rfl
  · have herror := h.inversed.mul hs
    rw [updateCalculationQuat, Quaternion.mul_neg_right, herror.canonical_neg,
      updateCalculationQuat]

/-- A call with a unit sample returns the unit state that the same rotation returns, and leaves the
filter that it leaves. -/
lemma step_eq {f : AlphaFilter ℝ (Mat.Quaternion ℝ)} (hf : f.filterState.IsUnit)
    {call call' : Call ℝ (Mat.Quaternion ℝ)} (hunit : call.sample.IsUnit)
    (hsame : SameRotation call call') :
    (f.step call).1.IsUnit ∧ (f.step call).2.filterState = (f.step call).1 ∧
      f.step call' = f.step call := by
  cases hsame with
  | update h =>
    refine ⟨isUnit_updateCalculationQuat hf _ _, rfl, ?_⟩
    simp only [step, update, updateCalculationQuat_eq hf hunit h, Call.sample]
  | updateDt dt h =>
    have hf' := filterState_setParameters f dt f.timeConstant
    rw [← hf'] at hf
    refine ⟨isUnit_updateCalculationQuat hf _ _, rfl, ?_⟩
    simp only [step, updateDt, update, updateCalculationQuat_eq hf hunit h, Call.sample]

/-- From a unit state and over unit samples, every state of the run is a unit quaternion, and is
unchanged when samples are replaced by the other quaternion of the same rotation. -/
theorem rotation_run {f : AlphaFilter ℝ (Mat.Quaternion ℝ)} (hf : f.filterState.IsUnit)
    {calls calls' : List (Call ℝ (Mat.Quaternion ℝ))}
    (hunit : ∀ call ∈ calls, call.sample.IsUnit) (hsame : List.Forall₂ SameRotation calls calls') :
    (∀ q ∈ answers step f calls, q.IsUnit) ∧ answers step f calls' = answers step f calls := by
  induction hsame generalizing f with
  | nil => simp
  | @cons call call' calls calls' hcall _ ih =>
    obtain ⟨hout, hstate, heq⟩ := step_eq hf (hunit call List.mem_cons_self) hcall
    obtain ⟨hrun, hrun'⟩ := ih (hstate ▸ hout) fun c hc => hunit c (List.mem_cons_of_mem _ hc)
    constructor
    · rw [answers_cons, List.forall_mem_cons]
      exact ⟨hout, hrun⟩
    · rw [answers_cons, answers_cons, heq, hrun']

/-- Two half turns about different axes, the second with the sign of its quaternion changed. -/
theorem rotation_run_halfTurns :
    answers step (⟨1, 1 / 2, ![1, 0, 0, 0]⟩ : AlphaFilter ℝ (Mat.Quaternion ℝ))
        [.update ![0, 1, 0, 0], .updateDt (-![0, 0, 1, 0]) 3] =
      answers step ⟨1, 1 / 2, ![1, 0, 0, 0]⟩
        [.update ![0, 1, 0, 0], .updateDt ![0, 0, 1, 0] 3] := by
  refine (rotation_run ?_ ?_ (.cons (.update (Or.inl rfl)) (.cons (.updateDt 3 (Or.inr rfl))
    .nil))).2
  · rw [Quaternion.IsUnit, Quaternion.dot_self]
    simp
  · intro call hcall
    simp only [List.mem_cons, List.not_mem_nil, or_false] at hcall
    rcases hcall with rfl | rfl
    · rw [Quaternion.IsUnit, Quaternion.dot_self]
      simp [Call.sample]
    · rw [Quaternion.IsUnit, Quaternion.dot_self]
      simp [Call.sample]

end AlphaFilter

end RT1064.Math
