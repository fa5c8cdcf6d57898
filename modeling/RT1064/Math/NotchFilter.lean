import RT1064.Core.InPlace
import RT1064.Core.SecondOrderSection
import RT1064.Math.Functions

/-!
# The notch filter

`NotchFilter` is a second-order section in direct form I that initialises itself with the first
sample it sees. Its scalars are `F` and its samples `T`. The parameters are in
`Math.NotchFilterParameters`.
-/

namespace RT1064.Math

open Core Mat Extended

/-- The fields of `NotchFilter`. -/
@[ext] structure NotchFilter (F T : Type*) where
  delayElement1 : T
  delayElement2 : T
  delayElementOutput1 : T
  delayElementOutput2 : T
  a1 : F
  a2 : F
  b0 : F
  b1 : F
  b2 : F
  notchFreq : F
  bandwidth : F
  sampleFreq : F
  initialized : Bool

namespace NotchFilter

variable {F T K V : Type*}

/-- The coefficients of a filter. -/
def coefficients (f : NotchFilter F T) : Section F := ⟨f.b0, f.b1, f.b2, f.a1, f.a2⟩

/-- A filter that was just constructed. -/
def fresh [Zero F] [One F] [Zero T] : NotchFilter F T where
  delayElement1 := 0
  delayElement2 := 0
  delayElementOutput1 := 0
  delayElementOutput2 := 0
  a1 := 0
  a2 := 0
  b0 := 1
  b1 := 0
  b2 := 0
  notchFreq := 0
  bandwidth := 0
  sampleFreq := 0
  initialized := false

/-- `NotchFilter::setCoefficients`. -/
def setCoefficients (f : NotchFilter F T) (a : F × F) (b : F × F × F) : NotchFilter F T :=
  { f with a1 := a.1, a2 := a.2, b0 := b.1, b1 := b.2.1, b2 := b.2.2 }

/-- `NotchFilter::disable`. -/
def disable [Zero F] [One F] (f : NotchFilter F T) : NotchFilter F T :=
  { f with
    notchFreq := 0, bandwidth := 0, sampleFreq := 0
    b0 := 1, b1 := 0, b2 := 0, a1 := 0, a2 := 0
    initialized := false }

/-- `NotchFilter::reset()`. -/
def reset (f : NotchFilter F T) : NotchFilter F T := { f with initialized := false }

/-- `NotchFilter::reset(sample)`. -/
def resetTo [One F] [Add F] [Div F] [Zero T] [SMul F T] [IsFinite T] (f : NotchFilter F T)
    (sample : T) : NotchFilter F T :=
  let input := if IsFinite.isFinite sample then sample else 0
  let output := divSample ((f.b0 + f.b1 + f.b2) • input) (1 + f.a1 + f.a2)
  -- the guard looks at the inputs, not at the quotient
  let guarded := if !IsFinite.isFinite input || !IsFinite.isFinite input then 0 else output
  { f with
    delayElement1 := input
    delayElement2 := input
    delayElementOutput1 := guarded
    delayElementOutput2 := guarded
    initialized := true }

/-- The filter that `apply` and `applyArray` start from, given the first sample. -/
def initialise [One F] [Add F] [Div F] [Zero T] [SMul F T] [IsFinite T] (f : NotchFilter F T)
    (sample : T) : NotchFilter F T :=
  if f.initialized then f else f.resetTo sample

lemma initialized_initialise [One F] [Add F] [Div F] [Zero T] [SMul F T] [IsFinite T]
    (f : NotchFilter F T) (sample : T) :
    (f.initialise sample).initialized = true := by
  rcases hf : f.initialized <;> simp [initialise, resetTo, hf]

section Apply

variable [Add T] [Sub T] [SMul F T]

/-- `NotchFilter::applyInternal`. -/
def applyInternal (f : NotchFilter F T) (sample : T) : T × NotchFilter F T :=
  let output := f.b0 • sample + f.b1 • f.delayElement1 + f.b2 • f.delayElement2 -
    f.a1 • f.delayElementOutput1 - f.a2 • f.delayElementOutput2
  (output, { f with
    delayElement2 := f.delayElement1
    delayElement1 := sample
    delayElementOutput2 := f.delayElementOutput1
    delayElementOutput1 := output })

variable [One F] [Add F] [Div F] [Zero T] [IsFinite T]

/-- `NotchFilter::apply`. -/
def apply (f : NotchFilter F T) (sample : T) : T × NotchFilter F T :=
  let g := if !f.initialized then { f.resetTo sample with initialized := true } else f
  g.applyInternal sample

/-- `NotchFilter::applyArray`. -/
def applyArray (f : NotchFilter F T) (samples : ℕ → T) (numSamples : ℕ) :
    InPlace (NotchFilter F T) T :=
  let s : InPlace (NotchFilter F T) T :=
    if !f.initialized then ⟨{ f.resetTo (samples 0) with initialized := true }, samples, [0]⟩
    else ⟨f, samples, []⟩
  InPlace.loop applyInternal numSamples s

/-! ### Initialisation -/

lemma apply_of_initialized {f : NotchFilter F T} (hf : f.initialized = true) (sample : T) :
    f.apply sample = f.applyInternal sample := by
  simp [apply, hf]

lemma apply_eq (f : NotchFilter F T) (sample : T) :
    f.apply sample = (f.initialise sample).applyInternal sample := by
  rcases hf : f.initialized <;> simp [apply, initialise, resetTo, hf]

/-- An initialised filter stays so, and applies the recurrence. -/
lemma simulates_applyInternal :
    Simulates (fun f g : NotchFilter F T => f = g ∧ g.initialized = true) apply applyInternal := by
  rintro f _ x ⟨rfl, hf⟩
  rw [apply_of_initialized hf]
  exact ⟨rfl, rfl, hf⟩

/-- A filter initialises itself with the first sample, and then applies the recurrence. -/
lemma answers_cons_apply (f : NotchFilter F T) (x : T) (xs : List T) :
    answers apply f (x :: xs) = answers applyInternal (f.initialise x) (x :: xs) := by
  rw [answers_cons, answers_cons, apply_eq]
  congr 1
  apply simulates_applyInternal.answers_eq
  exact ⟨rfl, f.initialized_initialise x⟩

lemma final_cons_apply (f : NotchFilter F T) (x : T) (xs : List T) :
    final apply f (x :: xs) = final applyInternal (f.initialise x) (x :: xs) := by
  rw [final_cons, final_cons, apply_eq]
  refine (simulates_applyInternal.final_rel ?_ xs).1
  exact ⟨rfl, f.initialized_initialise x⟩

lemma applyArray_eq (f : NotchFilter F T) (samples : ℕ → T) (numSamples : ℕ) :
    f.applyArray samples numSamples = InPlace.loop applyInternal numSamples
      ⟨f.initialise (samples 0), samples, if f.initialized then [] else [0]⟩ := by
  rcases hf : f.initialized <;> simp [applyArray, initialise, resetTo, hf]

end Apply

/-! ### The section a filter computes -/

/-- An initialised filter holds the finite coefficients of a section and a finite state of its
direct form. -/
def Holds (c : Section K) (s : V × V × V × V) (f : NotchFilter (Extended K) (Extended V)) : Prop :=
  f.initialized = true ∧ f.coefficients = c.toExtended ∧
    (f.delayElement1, f.delayElement2, f.delayElementOutput1, f.delayElementOutput2) =
      (finite s.1, finite s.2.1, finite s.2.2.1, finite s.2.2.2)

section Holds

variable [Field K] [DecidableEq K] [AddCommGroup V] [Module K V] {c : Section K}
  {f : NotchFilter (Extended K) (Extended V)}

/-- On finite samples `apply` is the direct form I. -/
lemma answers_apply {s : V × V × V × V} (h : Holds c s f) (xs : List V) :
    answers apply f (xs.map finite) = (answers c.directFormI s xs).map finite := by
  refine answers_map (R := Holds c) ?_ h xs
  rintro ⟨x₁, x₂, y₁, y₂⟩ f x ⟨hinit, hc, hd⟩
  have hstep := c.directFormI_toExtended x₁ x₂ y₁ y₂ x
  rw [← hc, ← hd] at hstep
  obtain ⟨hout, hstate⟩ := Prod.ext_iff.1 hstep
  rw [apply_of_initialized hinit]
  exact ⟨hout, hinit, hc, hstate⟩

/-- The input that `reset(sample)` stores. -/
def resetInput (sample : Extended V) : V :=
  match sample with
  | finite s  => s
  | nonfinite => 0

/-- What `reset(sample)` leaves: only the quotient can be non-finite. -/
lemma resetTo_eq (hc : f.coefficients = c.toExtended) (sample : Extended V) :
    f.resetTo sample = { f with
      delayElement1 := finite (resetInput sample)
      delayElement2 := finite (resetInput sample)
      delayElementOutput1 :=
        divSample (finite ((c.b0 + c.b1 + c.b2) • resetInput sample)) (finite (1 + c.a1 + c.a2))
      delayElementOutput2 :=
        divSample (finite ((c.b0 + c.b1 + c.b2) • resetInput sample)) (finite (1 + c.a1 + c.a2))
      initialized := true } := by
  have hb0 : f.b0 = finite c.b0 := congrArg Section.b0 hc
  have hb1 : f.b1 = finite c.b1 := congrArg Section.b1 hc
  have hb2 : f.b2 = finite c.b2 := congrArg Section.b2 hc
  have ha1 : f.a1 = finite c.a1 := congrArg Section.a1 hc
  have ha2 : f.a2 = finite c.a2 := congrArg Section.a2 hc
  cases sample with
  | finite s => simp [resetTo, resetInput, hb0, hb1, hb2, ha1, ha2, one_eq]
  | nonfinite => simp [resetTo, resetInput, hb0, hb1, hb2, ha1, ha2, one_eq, zero_eq]

/-- Where `reset(sample)` does not divide by zero, it puts the filter in a finite state. -/
lemma holds_resetTo (hc : f.coefficients = c.toExtended) (hne : 1 + c.a1 + c.a2 ≠ 0)
    (sample : Extended V) :
    Holds c (resetInput sample, resetInput sample,
      (1 + c.a1 + c.a2)⁻¹ • (c.b0 + c.b1 + c.b2) • resetInput sample,
      (1 + c.a1 + c.a2)⁻¹ • (c.b0 + c.b1 + c.b2) • resetInput sample) (f.resetTo sample) := by
  rw [resetTo_eq hc, divSample_finite hne]
  exact ⟨rfl, hc, rfl⟩

end Holds

/-! ### Finiteness -/

/-- The four delay elements are finite. -/
def FiniteDelays (f : NotchFilter F (Extended V)) : Prop :=
  IsFinite.isFinite f.delayElement1 = true ∧ IsFinite.isFinite f.delayElement2 = true ∧
    IsFinite.isFinite f.delayElementOutput1 = true ∧
    IsFinite.isFinite f.delayElementOutput2 = true

lemma Holds.finiteDelays {c : Section K} {s : V × V × V × V}
    {f : NotchFilter (Extended K) (Extended V)} (h : Holds c s f) : FiniteDelays f := by
  obtain ⟨-, -, hd⟩ := h
  simp only [Prod.mk.injEq] at hd
  obtain ⟨h₁, h₂, h₃, h₄⟩ := hd
  simp only [FiniteDelays, h₁, h₂, h₃, h₄, isFinite_finite, and_self]

/-- `reset(sample)` leaves a finite state, from which finite samples give finite results, exactly
when the denominator of the gain does not vanish. -/
theorem finite_after_reset_iff [Field K] [DecidableEq K] [AddCommGroup V] [Module K V]
    {f : NotchFilter (Extended K) (Extended V)} {c : Section K}
    (hc : f.coefficients = c.toExtended) (sample : Extended V) :
    (FiniteDelays (f.resetTo sample) ∧ ∀ xs : List V,
      ∀ y ∈ answers apply (f.resetTo sample) (xs.map finite), IsFinite.isFinite y = true) ↔
      1 + c.a1 + c.a2 ≠ 0 := by
  constructor
  · rintro ⟨⟨-, -, hout, -⟩, -⟩ hzero
    rw [resetTo_eq hc, hzero, divSample_zero] at hout
    cases hout
  · intro hne
    have hg := holds_resetTo hc hne sample
    refine ⟨hg.finiteDelays, fun xs y hy => ?_⟩
    rw [answers_apply hg, List.mem_map] at hy
    obtain ⟨z, -, rfl⟩ := hy
    rfl

/-- An averaging filter, reset with a sample that is not finite. -/
theorem finite_after_reset_iff_average :
    FiniteDelays ((fresh.setCoefficients (finite (-1 / 2 : ℚ), finite 0)
      (finite (1 / 2), finite 0, finite 0)).resetTo (nonfinite : Extended ℚ)) := by
  have hne : (1 : ℚ) + -1 / 2 + 0 ≠ 0 := by norm_num
  exact ((finite_after_reset_iff (c := ⟨1 / 2, 0, 0, -1 / 2, 0⟩) rfl nonfinite).2 hne).1

/-- An integrator. -/
theorem not_finite_after_reset_integrator :
    ¬ FiniteDelays ((fresh.setCoefficients (finite (-1 : ℚ), finite 0)
      (finite 1, finite 0, finite 0)).resetTo (finite (1 : ℚ))) ∧
    (apply ((fresh.setCoefficients (finite (-1 : ℚ), finite 0)
      (finite 1, finite 0, finite 0)).resetTo (finite (1 : ℚ))) (finite 1)).1 = nonfinite := by
  have hzero : (1 : ℚ) + -1 + 0 = 0 := by norm_num
  rw [resetTo_eq (c := ⟨1, 0, 0, -1, 0⟩) rfl, hzero, divSample_zero]
  constructor
  · rintro ⟨-, -, hout, -⟩
    cases hout
  · rw [apply_of_initialized rfl, applyInternal, smul_nonfinite, sub_nonfinite, nonfinite_sub]

end NotchFilter

end RT1064.Math
