import RT1064.Math.LowPassFilter2p
import RT1064.Math.NotchFilter

/-!
# Agreement of the second-order filters

The two filters compute the same recurrence, from different states. Each of them also filters
whole arrays in place, which is compared with filtering the elements one by one.
-/

namespace RT1064.Math

open Core Extended

variable {F T K V : Type*}

/-! ### The direct forms -/

/-- From zero delay elements and after `reset(0)`, the two filters produce the response of the
section whose coefficients they hold. -/
theorem lowPass_and_notch_response [Field K] [DecidableEq K] [AddCommGroup V] [Module K V]
    {c : Section K} (hne : 1 + c.a1 + c.a2 ≠ 0)
    {f : LowPassFilter2p (Extended K) (Extended V)} (hf : f.coefficients = c.toExtended)
    (hf₁ : f.delayElement1 = 0) (hf₂ : f.delayElement2 = 0)
    {g : NotchFilter (Extended K) (Extended V)} (hg : g.coefficients = c.toExtended)
    (xs : List V) :
    ∃ ys : List V, c.IsResponse xs ys ∧ (∀ zs, c.IsResponse xs zs → zs = ys) ∧
      answers LowPassFilter2p.apply f (xs.map finite) = ys.map finite ∧
      answers NotchFilter.apply (g.resetTo 0) (xs.map finite) = ys.map finite := by
  have hfzero : LowPassFilter2p.Holds c (0 : V × V) f := ⟨hf, by rw [hf₁, hf₂]; rfl⟩
  have hgzero : NotchFilter.Holds c (0 : V × V × V × V) (g.resetTo 0) := by
    have h := NotchFilter.holds_resetTo hg hne (0 : Extended V)
    simp only [zero_eq, NotchFilter.resetInput, smul_zero] at h
    exact h
  have hresp := c.isResponse_directFormI xs
  refine ⟨_, hresp, fun zs hzs => hzs.unique hresp, ?_, NotchFilter.answers_apply hgzero xs⟩
  rw [LowPassFilter2p.answers_apply hfzero, Section.answers_directFormII_eq]

/-- A section with two poles, on an impulse. -/
theorem lowPass_and_notch_response_impulse :
    ∃ ys : List ℚ, (⟨1, 2, 1, -1 / 2, 1 / 4⟩ : Section ℚ).IsResponse [1, 0, 0] ys ∧
      answers NotchFilter.apply ((NotchFilter.fresh.setCoefficients
        (finite (-1 / 2 : ℚ), finite (1 / 4)) (finite 1, finite 2, finite 1)).resetTo 0)
        [finite (1 : ℚ), finite 0, finite 0] = ys.map finite := by
  have hne : (1 : ℚ) + -1 / 2 + 1 / 4 ≠ 0 := by norm_num
  obtain ⟨ys, hys, -, -, hout⟩ := lowPass_and_notch_response
    (c := ⟨1, 2, 1, -1 / 2, 1 / 4⟩) hne
    (f := ⟨0, 0, finite (-1 / 2), finite (1 / 4), finite 1, finite 2, finite 1, 0, 0⟩) rfl rfl rfl
    (g := NotchFilter.fresh.setCoefficients (finite (-1 / 2), finite (1 / 4))
      (finite 1, finite 2, finite 1)) rfl ([1, 0, 0] : List ℚ)
  exact ⟨ys, hys, hout⟩

/-! ### Block processing -/

/-- Filtering an array in place agrees with applying `step` to the first `num` elements in order:
the same array and the same filter, and no element beyond is read. -/
structure AgreesInPlace {σ : Type*} (step : σ → T → T × σ) (f : σ) (samples : ℕ → T) (num : ℕ)
    (r : InPlace σ T) : Prop where
  array : ∀ n, r.array n =
    (answers step f ((List.range num).map samples))[n]?.getD (samples n)
  machine : r.machine = final step f ((List.range num).map samples)
  reads : ∀ n ∈ r.reads, n < num

lemma agreesInPlace_loop {σ : Type*} (step : σ → T → T × σ) (f : σ) (samples : ℕ → T) (num : ℕ) :
    AgreesInPlace step f samples num (InPlace.loop step num ⟨f, samples, []⟩) := by
  rw [InPlace.loop_eq]
  exact ⟨fun _ => rfl, rfl, fun n hn => by simpa using hn⟩

namespace NotchFilter

variable [Add T] [Sub T] [SMul F T] [One F] [Add F] [Div F] [Zero T] [IsFinite T]

lemma answers_apply_range {f : NotchFilter F T} {num : ℕ} (h : 0 < num ∨ f.initialized = true)
    (samples : ℕ → T) :
    answers apply f ((List.range num).map samples) =
        answers applyInternal (f.initialise (samples 0)) ((List.range num).map samples) ∧
      final apply f ((List.range num).map samples) =
        final applyInternal (f.initialise (samples 0)) ((List.range num).map samples) := by
  cases num with
  | zero => simp [initialise, h.resolve_left (lt_irrefl 0)]
  | succ num =>
    rw [List.range_succ_eq_map, List.map_cons]
    exact ⟨answers_cons_apply .., final_cons_apply ..⟩

/-- The filter agrees with its block processing, except that an empty array initialises it. -/
lemma agreesInPlace_iff (f : NotchFilter F T) (samples : ℕ → T) (num : ℕ) :
    AgreesInPlace apply f samples num (f.applyArray samples num) ↔
      0 < num ∨ f.initialized = true := by
  rw [applyArray_eq, InPlace.loop_eq]
  constructor
  · intro h
    by_contra hnot
    push Not at hnot
    obtain ⟨hnum, hf⟩ := hnot
    -- the initialisation reads the first element, which is not there
    have hread := h.reads 0 (by simp [hf])
    exact hread.not_ge hnum
  · intro h
    obtain ⟨hansw, hfinal⟩ := answers_apply_range h samples
    refine ⟨fun n => by rw [hansw], hfinal.symm, fun n hn => ?_⟩
    rcases List.mem_append.1 hn with hn | hn
    · have hzero : f.initialized = false ∧ n = 0 := by
        rcases hf : f.initialized <;> simp [hf] at hn ⊢
        exact hn
      rw [hzero.2]
      exact h.resolve_right (by simp [hzero.1])
    · exact List.mem_range.1 hn

end NotchFilter

/-- Block and sample processing agree for the low pass filter, and for the notch filter exactly
when the array is not empty or the filter is initialised. -/
theorem blockProcessing_agrees_iff [Add T] [Sub T] [SMul F T] [One F] [Add F] [Div F] [Zero T]
    [IsFinite T] (samples : ℕ → T) (num : ℕ) :
    (∀ f : LowPassFilter2p F T,
      AgreesInPlace LowPassFilter2p.apply f samples num (f.applyArray samples num)) ∧
    ∀ f : NotchFilter F T,
      AgreesInPlace NotchFilter.apply f samples num (f.applyArray samples num) ↔
        0 < num ∨ f.initialized = true :=
  ⟨fun f => agreesInPlace_loop _ f samples num, fun f => f.agreesInPlace_iff samples num⟩

/-- A filter that was just constructed, on an empty array. -/
theorem not_blockProcessing_agrees_empty :
    ¬ AgreesInPlace NotchFilter.apply (NotchFilter.fresh : NotchFilter (Extended ℚ) (Extended ℚ))
      (fun _ => finite 1) 0 (NotchFilter.fresh.applyArray (fun _ => finite 1) 0) := by
  intro h
  have hinit := congrArg NotchFilter.initialized h.machine
  simp [NotchFilter.applyArray_eq, InPlace.loop, NotchFilter.initialized_initialise,
    NotchFilter.fresh] at hinit

end RT1064.Math
