import RT1064.Math.AlphaFilter
import RT1064.Math.Functions

/-!
# The filtered derivative

`FilteredDerivative` passes the finite differences of its samples through an alpha filter. The first
sample after a reset only starts the differences.
-/

namespace RT1064.Math

open Core Mat

variable {K T : Type*}

/-- The fields of `FilteredDerivative`. -/
@[ext] structure FilteredDerivative (K T : Type*) where
  alphaFilter : AlphaFilter K T
  sampleInterval : K
  previousSample : T
  initialized : Bool

namespace FilteredDerivative

section Model

variable [Field K] [LinearOrder K]

/-- A filter that was just constructed. -/
def fresh [Zero T] : FilteredDerivative K T := ⟨⟨0, 0, 0⟩, 0, 0, false⟩

/-- `FilteredDerivative::setParameters`. -/
def setParameters (f : FilteredDerivative K T) (sampleInterval timeConstant : K) :
    FilteredDerivative K T :=
  { f with
    alphaFilter := f.alphaFilter.setParameters sampleInterval timeConstant
    sampleInterval := sampleInterval }

/-- `FilteredDerivative::reset`. -/
def reset (f : FilteredDerivative K T) (sample : T) : FilteredDerivative K T :=
  { f with alphaFilter := f.alphaFilter.reset sample, initialized := false }

/-- `FilteredDerivative::update`. -/
def update [Add T] [Sub T] [SMul K T] (f : FilteredDerivative K T) (sample : T) :
    T × FilteredDerivative K T :=
  let g :=
    if f.initialized then
      if FLT_EPSILON < f.sampleInterval then
        { f with alphaFilter := (f.alphaFilter.update updateCalculation
            (divSample (sample - f.previousSample) f.sampleInterval)).2 }
      else { f with initialized := false }
    else { f with initialized := true }
  let g := { g with previousSample := sample }
  (g.alphaFilter.filterState, g)

end Model

/-- A call that changes the filter, its parameters apart. -/
inductive Call (T : Type*) where
  | reset (sample : T)
  | update (sample : T)

/-- The filter after a call. -/
def run [Field K] [LinearOrder K] [Add T] [Sub T] [SMul K T] (f : FilteredDerivative K T) :
    Call T → FilteredDerivative K T
  | .reset x  => f.reset x
  | .update x => (f.update x).2

/-- The last value given to `reset` and the samples since then, after one more call. -/
def sinceReset (h : T × List T) : Call T → T × List T
  | .reset x  => (x, [])
  | .update x => (h.1, h.2 ++ [x])

/-- The finite differences of consecutive samples over the sample interval. -/
def slopes [Field K] (sampleInterval : K) (xs : List K) : List K :=
  List.zipWith (fun x y => (y - x) / sampleInterval) xs xs.tail

section Slopes

variable [Field K] (sampleInterval : K)

lemma slopes_concat (xs : List K) (x y : K) :
    slopes sampleInterval (xs ++ [x] ++ [y]) =
      slopes sampleInterval (xs ++ [x]) ++ [(y - x) / sampleInterval] := by
  induction xs with
  | nil => simp [slopes]
  | cons a xs ih =>
    cases xs with
    | nil => simp [slopes]
    | cons b xs => simpa [slopes] using ih

lemma slopes_subset_concat (xs : List K) (y : K) :
    slopes sampleInterval xs ⊆ slopes sampleInterval (xs ++ [y]) := by
  rcases xs.eq_nil_or_concat with rfl | ⟨xs, x, rfl⟩
  · simp [slopes]
  · rw [List.concat_eq_append, slopes_concat]
    exact List.subset_append_left _ _

end Slopes

/-! ### The bounds -/

section Bounds

variable [Field K] [LinearOrder K]

/-- The state of a filter lies within the last reset value and the slopes since then, and an
initialised filter remembers the last sample. -/
structure Bounded (f : FilteredDerivative K K) (h : K × List K) : Prop where
  alpha : f.alphaFilter.ValidAlpha
  within : Within (h.1 :: slopes f.sampleInterval h.2) f.alphaFilter.filterState
  previous : f.initialized = true → ∃ xs, h.2 = xs ++ [f.previousSample]

variable {f : FilteredDerivative K K} {h : K × List K}

lemma Bounded.reset (hf : Bounded f h) (x : K) : Bounded (f.reset x) (x, []) where
  alpha := hf.alpha
  within := within_of_mem List.mem_cons_self
  previous hinit := by cases hinit

lemma Bounded.within_concat (hf : Bounded f h) (x : K) :
    Within (h.1 :: slopes f.sampleInterval (h.2 ++ [x])) f.alphaFilter.filterState :=
  hf.within.mono (List.cons_subset_cons _ (slopes_subset_concat _ _ _))

lemma sampleInterval_update (f : FilteredDerivative K K) (x : K) :
    (f.update x).2.sampleInterval = f.sampleInterval := by
  rw [FilteredDerivative.update]
  split_ifs <;> rfl

variable [IsStrictOrderedRing K]

lemma Bounded.update (hf : Bounded f h) (x : K) : Bounded (f.update x).2 (h.1, h.2 ++ [x]) := by
  have hwithin := hf.within_concat x
  rw [FilteredDerivative.update]
  split_ifs with hinit heps
  · -- the filter moves towards the slope to the remembered sample
    obtain ⟨xs, hxs⟩ := hf.previous hinit
    have hslope : divSample (x - f.previousSample) f.sampleInterval ∈
        h.1 :: slopes f.sampleInterval (h.2 ++ [x]) := by
      rw [hxs, slopes_concat, divSample, smul_eq_mul, one_div_mul_eq_div]
      simp
    exact ⟨hf.alpha, AlphaFilter.within_update hf.alpha hwithin hslope, fun _ => ⟨h.2, rfl⟩⟩
  · exact ⟨hf.alpha, hwithin, fun hfalse => by cases hfalse⟩
  · exact ⟨hf.alpha, hwithin, fun _ => ⟨h.2, rfl⟩⟩

/-- Every call keeps the bounds and the sample interval. -/
lemma Bounded.run (hf : Bounded f h) (call : Call K) :
    Bounded (f.run call) (sinceReset h call) ∧ (f.run call).sampleInterval = f.sampleInterval := by
  cases call with
  | reset x => exact ⟨hf.reset x, rfl⟩
  | update x => exact ⟨hf.update x, f.sampleInterval_update x⟩

lemma Bounded.foldl_run (hf : Bounded f h) (calls : List (Call K)) :
    Bounded (calls.foldl FilteredDerivative.run f) (calls.foldl sinceReset h) ∧
      (calls.foldl FilteredDerivative.run f).sampleInterval = f.sampleInterval := by
  induction calls using List.reverseRecOn with
  | nil => exact ⟨hf, rfl⟩
  | append_singleton calls call ih =>
    rw [List.foldl_concat, List.foldl_concat]
    obtain ⟨hrun, hsame⟩ := ih.1.run call
    exact ⟨hrun, hsame.trans ih.2⟩

lemma bounded_setParameters_fresh {sampleInterval timeConstant : K} (hs : 0 ≤ sampleInterval)
    (ht : 0 ≤ timeConstant) :
    Bounded ((fresh : FilteredDerivative K K).setParameters sampleInterval timeConstant)
      (0, []) where
  alpha := AlphaFilter.validAlpha_setParameters ⟨le_rfl, zero_le_one⟩ hs ht
  within := by
    apply within_of_mem
    simp [setParameters, AlphaFilter.filterState_setParameters, fresh, slopes]
  previous hinit := by cases hinit

end Bounds

end FilteredDerivative

/-- Neither filter overshoots. The alpha filter stays within its initial state and its samples, with
a weight in the unit interval; the filtered derivative stays within the last reset value and the
slopes since then. -/
theorem alphaFilters_within [Field K] [LinearOrder K] [IsStrictOrderedRing K] :
    (∀ (f : AlphaFilter K K) (calls : List (K × K)), 0 ≤ f.timeConstant → f.ValidAlpha →
      (∀ call ∈ calls, 0 ≤ call.2) →
      (0 ≤ (f.runDt calls).alpha ∧ (f.runDt calls).alpha ≤ 1) ∧
        Within (f.filterState :: calls.map Prod.fst) (f.runDt calls).filterState) ∧
    ∀ (sampleInterval timeConstant : K) (calls : List (FilteredDerivative.Call K)),
      0 ≤ sampleInterval → 0 ≤ timeConstant →
      let f := calls.foldl FilteredDerivative.run
        (FilteredDerivative.fresh.setParameters sampleInterval timeConstant)
      let h := calls.foldl FilteredDerivative.sinceReset (0, [])
      Within (h.1 :: FilteredDerivative.slopes sampleInterval h.2) f.alphaFilter.filterState := by
  constructor
  · intro f calls htime halpha hdt
    exact AlphaFilter.runDt_within halpha htime calls hdt
  · intro sampleInterval timeConstant calls hs ht
    obtain ⟨hbounded, hsame⟩ :=
      (FilteredDerivative.bounded_setParameters_fresh hs ht).foldl_run calls
    have hwithin := hbounded.within
    rw [hsame] at hwithin
    exact hwithin

/-- An alpha filter over two calls, the second without a time step, and a filtered derivative over a
reset and two samples. -/
theorem alphaFilters_within_two :
    Within [(0 : ℚ), 5, 9]
        ((AlphaFilter.ofTimeConstant 1 : AlphaFilter ℚ ℚ).runDt [(5, 1 / 2), (9, 0)]).filterState ∧
      Within [(2 : ℚ), (7 - 3) / 1]
        ([.reset 2, .update 3, .update 7].foldl FilteredDerivative.run
          (FilteredDerivative.fresh.setParameters (1 : ℚ) 1)).alphaFilter.filterState := by
  obtain ⟨halpha, hderivative⟩ := alphaFilters_within (K := ℚ)
  constructor
  · refine (halpha (AlphaFilter.ofTimeConstant 1) [(5, 1 / 2), (9, 0)] ?_ ⟨?_, ?_⟩ ?_).2
    · exact zero_le_one
    · exact le_rfl
    · exact zero_le_one
    · intro call hcall
      simp only [List.mem_cons, List.not_mem_nil, or_false] at hcall
      rcases hcall with rfl | rfl
      · norm_num
      · norm_num
  · exact hderivative 1 1 [.reset 2, .update 3, .update 7] zero_le_one zero_le_one

end RT1064.Math
