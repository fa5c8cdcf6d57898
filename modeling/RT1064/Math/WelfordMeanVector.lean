import RT1064.Math.WelfordMean

/-!
# Welford's online mean and covariance of a vector

`WelfordMeanVector` sums the upper triangle of the covariance with an accumulator for each entry
and mirrors it. Over exact arithmetic it agrees with the batch statistics, and on each coordinate
with `WelfordMean`, until its counter overflows.
-/

namespace RT1064.Math

open Core Mat

variable {K : Type*} {N : ℕ}

/-- The fields of `WelfordMeanVector`. -/
@[ext] structure WelfordMeanVector (K : Type*) (N : ℕ) where
  mean : Fin N → K
  meanAccum : Fin N → K
  M2 : Matrix (Fin N) (Fin N) K
  M2Accum : Matrix (Fin N) (Fin N) K
  count : ℕ

namespace WelfordMeanVector

/-- Copy the upper triangle to the lower one. -/
def makeSymmetric (m : Matrix (Fin N) (Fin N) K) : Matrix (Fin N) (Fin N) K :=
  (indices 0 N).foldl (fun m (r : Fin N) =>
    (indices (r.val + 1) N).foldl (fun m c => setEntry m c r (m r c)) m) m

variable [Field K]

/-- A filter that was just constructed. -/
def fresh : WelfordMeanVector K N := ⟨0, 0, 0, 0, 0⟩

/-- `WelfordMeanVector::reset`. -/
def reset (_ : WelfordMeanVector K N) : WelfordMeanVector K N := ⟨0, 0, 0, 0, 0⟩

/-- `WelfordMeanVector::valid`. -/
def valid (s : WelfordMeanVector K N) : Bool := 2 < s.count

/-- The divisor of the variances and covariances; the counter is promoted to `int`. -/
def varianceDivisor (s : WelfordMeanVector K N) : ℤ := s.count - 1

/-- `WelfordMeanVector::variance`. -/
def variance (s : WelfordMeanVector K N) : Fin N → K := vecDivScalar s.M2.diag s.varianceDivisor

/-- `WelfordMeanVector::covariance`. -/
def covariance (s : WelfordMeanVector K N) : Matrix (Fin N) (Fin N) K :=
  divScalar s.M2 s.varianceDivisor

/-- The counting part of `WelfordMeanVector::update`, with the overflow of the counter. -/
def countSample (s : WelfordMeanVector K N) : WelfordMeanVector K N :=
  if s.count = UINT16_MAX then { s with M2 := divScalar s.M2 s.count, M2Accum := 0, count := 1 }
  else { s with count := s.count + 1 }

/-- The part of `WelfordMeanVector::update` that moves the mean. -/
def moveMean (s : WelfordMeanVector K N) (delta : Fin N → K) : WelfordMeanVector K N :=
  let y := vecDivScalar delta s.count - s.meanAccum
  let t := s.mean + y
  { s with meanAccum := (t - s.mean) - y, mean := t }

/-- `m2_change`: only the upper triangle is filled. -/
def m2Change (delta deviation : Fin N → K) : Matrix (Fin N) (Fin N) K :=
  (indices 0 N).foldl (fun m (r : Fin N) =>
    (indices r N).foldl (fun m c => setEntry m r c (delta r * deviation c)) m) 0

/-- Add one entry of `m2_change` to `_M2`, with Kahan summation; the pair is `_M2` and
`_M2_accum`. -/
def addEntry (change : Matrix (Fin N) (Fin N) K) (r : Fin N)
    (m : Matrix (Fin N) (Fin N) K × Matrix (Fin N) (Fin N) K) (c : Fin N) :
    Matrix (Fin N) (Fin N) K × Matrix (Fin N) (Fin N) K :=
  let y := change r c - m.2 r c
  let t := m.1 r c + y
  (setEntry m.1 r c t, setEntry m.2 r c ((t - m.1 r c) - y))

variable [LinearOrder K]

/-- Add one row of `m2_change` to `_M2`. -/
def addRow (change : Matrix (Fin N) (Fin N) K)
    (m : Matrix (Fin N) (Fin N) K × Matrix (Fin N) (Fin N) K) (r : Fin N) :
    Matrix (Fin N) (Fin N) K × Matrix (Fin N) (Fin N) K :=
  let m := (indices r N).foldl (addEntry change r) m
  -- protects against floating point precision causing negative variances
  if m.1 r r < 0 then (setEntry m.1 r r 0, m.2) else m

/-- The part of `WelfordMeanVector::update` that adds to the covariance. -/
def moveCovariance (s : WelfordMeanVector K N) (delta newValue : Fin N → K) :
    WelfordMeanVector K N :=
  let change := m2Change delta (newValue - s.mean)
  let m := (indices 0 N).foldl (addRow change) (s.M2, s.M2Accum)
  { s with M2 := makeSymmetric m.1, M2Accum := m.2 }

/-- `WelfordMeanVector::update`. -/
def update (s : WelfordMeanVector K N) (newValue : Fin N → K) : Bool × WelfordMeanVector K N :=
  if s.count = 0 then (false, { s.reset with mean := newValue, count := 1 })
  else
    let s := s.countSample
    let delta := newValue - s.mean
    let s := s.moveMean delta
    if !(indices 0 N).all fun i => isFinite (s.mean i) then (false, s.reset)
    else
      let s := s.moveCovariance delta newValue
      if !(indices 0 N).all fun i => (indices 0 N).all fun j => isFinite (s.M2 i j) then
        (false, s.reset)
      else (s.valid, s)

/-- The filter after a sequence of samples. -/
def run (s : WelfordMeanVector K N) (xs : List (Fin N → K)) : WelfordMeanVector K N :=
  xs.foldl (fun s x => (s.update x).2) s

/-- The states a filter can get into. -/
inductive Reachable : WelfordMeanVector K N → Prop
  | fresh : Reachable fresh
  | reset {s : WelfordMeanVector K N} : Reachable s → Reachable s.reset
  | update {s : WelfordMeanVector K N} (x : Fin N → K) : Reachable s → Reachable (s.update x).2

/-! ### What the loops compute -/

omit [Field K] [LinearOrder K] in
/-- The entries below the diagonal are copied from above it. -/
lemma makeSymmetric_apply (m : Matrix (Fin N) (Fin N) K) (i j : Fin N) :
    makeSymmetric m i j = if j < i then m j i else m i j := by
  -- the loops write only below the diagonal, so what they read is never written
  have upper : ∀ (m : Matrix (Fin N) (Fin N) K) (r : Fin N) {a b : Fin N}, a ≤ b →
      (indices (r.val + 1) N).foldl (fun m c => setEntry m c r (m r c)) m a b = m a b := by
    intro m r a b hab
    apply foldl_frame (entry a b)
    intro m c hc
    obtain ⟨hrc, _⟩ := mem_indices.1 hc
    refine if_neg ?_
    rintro ⟨rfl, rfl⟩
    exact absurd (Fin.le_def.1 hab) (by omega)
  split_ifs with h
  · refine foldl_once (entry i j) (entry j i) (v := id) (i := j) (nodup_indices _ _)
      (by simp) ?_ ?_ ?_ m
    · intro m r _ hr
      apply foldl_frame (entry i j)
      intro m c _
      exact setEntry_of_col_ne m c i hr.symm _
    · intro m r _ _
      exact upper m r h.le
    · intro m
      refine foldl_once (entry i j) (entry j i) (v := id) (i := i) (nodup_indices _ _)
        (by simpa using h) ?_ ?_ ?_ m
      · intro m c _ hc
        exact setEntry_of_row_ne m hc.symm j j _
      · intro m c _ hc
        exact setEntry_of_col_ne m c j h.ne' _
      · intro m
        exact setEntry_self m i j _
  · apply foldl_frame (entry i j)
    intro m r _
    exact upper m r (not_lt.1 h)

section Loops

omit [LinearOrder K]

/-- Each entry of the upper triangle is written once. -/
lemma m2Change_apply (delta deviation : Fin N → K) {r c : Fin N} (h : r ≤ c) :
    m2Change delta deviation r c = delta r * deviation c := by
  have row : ∀ m, (indices r N).foldl (fun m c => setEntry m r c (delta r * deviation c)) m r c =
      delta r * deviation c := by
    intro m
    refine foldl_once (entry r c) (fun _ => ()) (v := fun _ => delta r * deviation c)
      (i := c) (nodup_indices _ _) (by simpa using h) ?_ (fun _ _ _ _ => rfl) ?_ m
    · intro m c' _ hc
      exact setEntry_of_col_ne m r r hc.symm _
    · intro m
      exact setEntry_self m r c _
  refine foldl_once (entry r c) (fun _ => ()) (v := fun _ => delta r * deviation c)
    (i := r) (nodup_indices _ _) (by simp) ?_ (fun _ _ _ _ => rfl) row 0
  intro m r' _ hr
  apply foldl_frame (entry r c)
  intro m c' _
  exact setEntry_of_row_ne m hr.symm c' c _

/-- Without rounding an accumulator that was empty stays empty. -/
lemma addEntry_self (change : Matrix (Fin N) (Fin N) K) (r c : Fin N)
    (m : Matrix (Fin N) (Fin N) K × Matrix (Fin N) (Fin N) K) :
    (addEntry change r m c).1 r c = m.1 r c + (change r c - m.2 r c) ∧
      (addEntry change r m c).2 r c = 0 := by
  simp [addEntry]

lemma addEntry_of_ne (change : Matrix (Fin N) (Fin N) K) (r r' c c' : Fin N)
    (m : Matrix (Fin N) (Fin N) K × Matrix (Fin N) (Fin N) K) (h : r' ≠ r ∨ c' ≠ c) :
    (addEntry change r m c).1 r' c' = m.1 r' c' ∧
      (addEntry change r m c).2 r' c' = m.2 r' c' := by
  rcases h with h | h <;> simp [addEntry, setEntry, h]

end Loops

/-- Both matrices in one place. -/
abbrev entries (r c : Fin N) (m : Matrix (Fin N) (Fin N) K × Matrix (Fin N) (Fin N) K) : K × K :=
  (m.1 r c, m.2 r c)

/-- What `addRow` makes of the two entries in the place `(r, c)`. -/
def addedEntries (change : Matrix (Fin N) (Fin N) K) (r c : Fin N) (e : K × K) : K × K :=
  let t := e.1 + (change r c - e.2)
  (if r = c then max t 0 else t, 0)

lemma addRow_self (change : Matrix (Fin N) (Fin N) K) {r c : Fin N} (h : r ≤ c)
    (m : Matrix (Fin N) (Fin N) K × Matrix (Fin N) (Fin N) K) :
    entries r c (addRow change m r) = addedEntries change r c (entries r c m) := by
  have row : ∀ c, r ≤ c → entries r c ((indices r N).foldl (addEntry change r) m) =
      (m.1 r c + (change r c - m.2 r c), 0) := by
    intro c h
    refine foldl_once (entries r c) (entries r c) (v := fun e => (e.1 + (change r c - e.2), 0))
      (i := c) (nodup_indices _ _) (by simpa using h) ?_ ?_ ?_ m
    · intro m c' _ hc
      obtain ⟨h1, h2⟩ := addEntry_of_ne change r r c' c m (.inr hc.symm)
      exact Prod.ext h1 h2
    · intro m c' _ hc
      obtain ⟨h1, h2⟩ := addEntry_of_ne change r r c' c m (.inr hc.symm)
      exact Prod.ext h1 h2
    · intro m
      obtain ⟨h1, h2⟩ := addEntry_self change r c m
      exact Prod.ext h1 h2
  have hdiag := congrArg Prod.fst (row r le_rfl)
  have hentry := row c h
  simp only [Prod.mk.injEq] at hdiag hentry
  simp only [addRow, addedEntries, hdiag]
  rcases eq_or_ne r c with rfl | hrc
  · rw [if_pos rfl]
    split_ifs with hneg
    · exact Prod.ext ((setEntry_self _ _ _ _).trans (max_eq_right hneg.le).symm) hentry.2
    · exact Prod.ext (hentry.1.trans (max_eq_left (not_lt.1 hneg)).symm) hentry.2
  · rw [if_neg hrc]
    split_ifs with hneg
    · exact Prod.ext ((setEntry_of_col_ne _ _ _ hrc.symm _).trans hentry.1) hentry.2
    · exact Prod.ext hentry.1 hentry.2

lemma addRow_of_ne (change : Matrix (Fin N) (Fin N) K) {r r' : Fin N} (h : r' ≠ r) (c : Fin N)
    (m : Matrix (Fin N) (Fin N) K × Matrix (Fin N) (Fin N) K) :
    entries r' c (addRow change m r) = entries r' c m := by
  have row : entries r' c ((indices r N).foldl (addEntry change r) m) = entries r' c m := by
    apply foldl_frame (entries r' c)
    intro m c' _
    obtain ⟨h1, h2⟩ := addEntry_of_ne change r r' c' c m (.inl h)
    exact Prod.ext h1 h2
  rw [addRow]
  split_ifs with hneg
  · rw [← row]
    exact Prod.ext (setEntry_of_row_ne _ h _ _ _) rfl
  · exact row

/-- The upper triangle of the sum, with the clamp on the diagonal. -/
lemma addRows_apply (change : Matrix (Fin N) (Fin N) K) {r c : Fin N} (h : r ≤ c)
    (m : Matrix (Fin N) (Fin N) K × Matrix (Fin N) (Fin N) K) :
    entries r c ((indices 0 N).foldl (addRow change) m) =
      addedEntries change r c (entries r c m) := by
  refine foldl_once (entries r c) (entries r c) (i := r) (nodup_indices _ _) (by simp) ?_ ?_
    (addRow_self change h) m
  · intro m r' _ hr
    exact addRow_of_ne change hr.symm c m
  · intro m r' _ hr
    exact addRow_of_ne change hr.symm c m

/-! ### What one update does -/

lemma update_of_count_eq_zero {s : WelfordMeanVector K N} (h : s.count = 0) (x : Fin N → K) :
    (s.update x).2 = ⟨x, 0, 0, 0, 1⟩ := by
  rw [update, if_pos h]
  rfl

lemma update_of_count_ne_zero {s : WelfordMeanVector K N} (h : s.count ≠ 0) (x : Fin N → K) :
    (s.update x).2 =
      (s.countSample.moveMean (x - s.countSample.mean)).moveCovariance
        (x - s.countSample.mean) x := by
  simp [update, h, isFinite]

@[simp] lemma run_nil (s : WelfordMeanVector K N) : s.run [] = s := rfl

lemma run_concat (s : WelfordMeanVector K N) (xs : List (Fin N → K)) (x : Fin N → K) :
    s.run (xs ++ [x]) = ((s.run xs).update x).2 := by
  rw [run, List.foldl_concat]
  rfl

lemma Reachable.run {s : WelfordMeanVector K N} (h : Reachable s) (xs : List (Fin N → K)) :
    Reachable (s.run xs) := by
  induction xs using List.reverseRecOn with
  | nil => exact h
  | append_singleton xs x ih =>
    rw [run_concat]
    exact ih.update x

/-- The accumulator of the mean is empty in every state. -/
lemma Reachable.meanAccum_eq_zero {s : WelfordMeanVector K N} (h : Reachable s) :
    s.meanAccum = 0 := by
  cases h with
  | fresh => rfl
  | reset => rfl
  | @update s x hs =>
    by_cases hc : s.count = 0
    · rw [update_of_count_eq_zero hc]
    · rw [update_of_count_ne_zero hc]
      simp [moveCovariance, moveMean]

/-! ### Overflow of the counter -/

/-- What the overflow of the counter should keep of the coordinate `i`. -/
def KeepsStatistics (s : WelfordMeanVector K N) (x : Fin N → K) (i : Fin N) : Prop :=
  StrictlyBetween (s.mean i) ((s.update x).2.mean i) (x i) ∧ (s.update x).2.varianceDivisor ≠ 0

/-- At the overflow the counter is one when the sample is added, so that the sample replaces the
mean. -/
lemma Reachable.update_overflow {s : WelfordMeanVector K N} (h : Reachable s)
    (hmax : s.count = UINT16_MAX) (x : Fin N → K) :
    (s.update x).2.mean = x ∧ (s.update x).2.varianceDivisor = 0 := by
  have hcount : s.count ≠ 0 := by
    rw [hmax]
    decide
  rw [update_of_count_ne_zero hcount, countSample, if_pos hmax]
  constructor
  · ext i
    simp [moveCovariance, moveMean, h.meanAccum_eq_zero]
  · simp [moveCovariance, moveMean, varianceDivisor]

/-- The samples before the overflow have no influence on the mean after it. -/
lemma Reachable.not_keepsStatistics {s : WelfordMeanVector K N} (h : Reachable s)
    (hmax : s.count = UINT16_MAX) (x : Fin N → K) (i : Fin N) : ¬ s.KeepsStatistics x i := by
  rintro ⟨_, hdiv⟩
  exact hdiv (h.update_overflow hmax x).2

/-! ### Agreement with the batch statistics -/

/-- The filter holds the statistics of the samples `xs`. -/
structure Summarises (s : WelfordMeanVector K N) (xs : List (Fin N → K)) : Prop where
  count_eq : s.count = xs.length
  mean_eq : s.mean = fun i => average xs (· i)
  M2_eq : s.M2 = fun r c => comoment xs (· r) (· c)
  meanAccum_eq : s.meanAccum = 0
  M2Accum_eq : ∀ r c, r ≤ c → s.M2Accum r c = 0

omit [LinearOrder K] in
lemma Summarises.covariance_eq {s : WelfordMeanVector K N} {xs : List (Fin N → K)}
    (h : Summarises s xs) :
    s.covariance = fun r c => sampleCovariance xs (· r) (· c) := by
  ext r c
  rw [covariance, divScalar_apply, varianceDivisor, sampleCovariance, h.M2_eq, h.count_eq]
  push_cast
  rfl

omit [LinearOrder K] in
lemma Summarises.variance_eq {s : WelfordMeanVector K N} {xs : List (Fin N → K)}
    (h : Summarises s xs) : s.variance = fun i => sampleCovariance xs (· i) (· i) := by
  ext i
  rw [variance, vecDivScalar_apply, varianceDivisor, sampleCovariance, Matrix.diag_apply, h.M2_eq,
    h.count_eq]
  push_cast
  rfl

variable [IsStrictOrderedRing K]

/-- A sample that the counter has room for is added to the statistics. -/
lemma Summarises.update {s : WelfordMeanVector K N} {xs : List (Fin N → K)}
    (h : Summarises s xs) (hpos : xs ≠ []) (hroom : xs.length < UINT16_MAX) (x : Fin N → K) :
    Summarises (s.update x).2 (xs ++ [x]) := by
  have hcount : s.count ≠ 0 := by
    rw [h.count_eq]
    exact fun h0 => hpos (List.length_eq_zero_iff.1 h0)
  have hmax : s.count ≠ UINT16_MAX := by
    rw [h.count_eq]
    exact hroom.ne
  have hmean : s.mean + vecDivScalar (x - s.mean) ((s.count + 1 : ℕ) : K) =
      fun i => average (xs ++ [x]) (· i) := by
    ext i
    rw [average_concat, Pi.add_apply, vecDivScalar_apply, Pi.sub_apply, h.mean_eq, h.count_eq,
      Nat.cast_succ]
  set change := m2Change (x - s.mean) (x - fun i => average (xs ++ [x]) (· i)) with hchange
  have hsum : ∀ r c, r ≤ c →
      entries r c ((indices 0 N).foldl (addRow change) (s.M2, s.M2Accum)) =
        (comoment (xs ++ [x]) (· r) (· c), 0) := by
    intro r c hrc
    have hnew : s.M2 r c + (change r c - s.M2Accum r c) =
        comoment (xs ++ [x]) (· r) (· c) := by
      rw [comoment_concat, hchange, m2Change_apply _ _ hrc, h.M2Accum_eq r c hrc, h.M2_eq,
        h.mean_eq, sub_zero]
      rfl
    rw [addRows_apply change hrc, addedEntries]
    simp only [hnew]
    rcases eq_or_ne r c with rfl | hne
    · rw [if_pos rfl, max_eq_left (comoment_self_nonneg _ _)]
    · rw [if_neg hne]
  have hM2 : makeSymmetric ((indices 0 N).foldl (addRow change) (s.M2, s.M2Accum)).1 =
      fun r c => comoment (xs ++ [x]) (· r) (· c) := by
    funext r c
    rw [makeSymmetric_apply]
    split_ifs with hcr
    · rw [comoment_comm]
      exact congrArg Prod.fst (hsum c r hcr.le)
    · exact congrArg Prod.fst (hsum r c (not_lt.1 hcr))
  rw [update_of_count_ne_zero hcount, countSample, if_neg hmax]
  simp only [moveMean, moveCovariance, h.meanAccum_eq, sub_zero, hmean, ← hchange]
  exact
    { count_eq := by simp [h.count_eq]
      mean_eq := rfl
      M2_eq := hM2
      meanAccum_eq := by
        rw [← hmean]
        simp
      M2Accum_eq := fun r c hrc => congrArg Prod.snd (hsum r c hrc) }

/-- A fresh or reset filter holds the statistics of the samples it is fed. -/
lemma summarises_run {s : WelfordMeanVector K N} (h0 : s.count = 0) {xs : List (Fin N → K)}
    (hpos : xs ≠ []) (hmax : xs.length ≤ UINT16_MAX) : Summarises (s.run xs) xs := by
  induction xs using List.reverseRecOn with
  | nil => exact absurd rfl hpos
  | append_singleton xs x ih =>
    rw [List.length_append, List.length_singleton] at hmax
    rw [run_concat]
    rcases eq_or_ne xs [] with rfl | hxs
    · rw [run_nil, update_of_count_eq_zero h0]
      exact
        { count_eq := rfl
          mean_eq := by simp
          M2_eq := by
            simp only [List.nil_append, comoment_singleton]
            rfl
          meanAccum_eq := rfl
          M2Accum_eq := fun _ _ _ => rfl }
    · exact (ih hxs (Nat.le_of_succ_le hmax)).update hxs hmax x

end WelfordMeanVector

/-! ### The filters and the batch statistics -/

section

variable [Field K] [LinearOrder K] [IsStrictOrderedRing K]

/-- A fresh or reset filter that was fed at most `UINT16_MAX` samples gives back the batch
statistics, and the vector filter does on each coordinate what the scalar filter does. -/
theorem welford_eq_batch :
    (∀ (s : WelfordMean K) (xs : List K),
      s = WelfordMean.fresh ∨ (∃ t : WelfordMean K, s = t.reset) →
      1 ≤ xs.length → xs.length ≤ UINT16_MAX →
      (s.run xs).mean = xs.sum / xs.length ∧
      (2 ≤ xs.length → (s.run xs).variance =
        (xs.map fun x => (x - xs.sum / xs.length) ^ 2).sum / (xs.length - 1))) ∧
    ∀ (N : ℕ) (v : WelfordMeanVector K N) (zs : List (Fin N → K)),
      v = WelfordMeanVector.fresh ∨ (∃ w : WelfordMeanVector K N, v = w.reset) →
      1 ≤ zs.length → zs.length ≤ UINT16_MAX →
      (v.run zs).mean = (fun i => average zs (· i)) ∧
      (2 ≤ zs.length →
        (v.run zs).covariance = (fun r c => sampleCovariance zs (· r) (· c)) ∧
        (v.run zs).covariance.IsSymm ∧
        ∀ u : Fin N → K, 0 ≤ u ⬝ᵥ (v.run zs).covariance.mulVec u) ∧
      ∀ i, (v.run zs).mean i = (WelfordMean.fresh.run (zs.map (· i))).mean ∧
        (v.run zs).variance i = (WelfordMean.fresh.run (zs.map (· i))).variance := by
  constructor
  · intro s xs hs h1 hmax
    have hcount : s.count = 0 := by
      rcases hs with rfl | ⟨t, rfl⟩ <;> rfl
    have h := WelfordMean.summarises_run hcount (List.length_pos_iff.1 h1) hmax
    refine ⟨?_, fun _ => ?_⟩
    · rw [h.mean_eq, average, List.map_id]
    · rw [h.variance_eq, sampleCovariance, comoment, average, List.map_id]
      simp only [id, pow_two]
  · intro N v zs hv h1 hmax
    have hcount : v.count = 0 := by
      rcases hv with rfl | ⟨w, rfl⟩ <;> rfl
    have h := WelfordMeanVector.summarises_run hcount (List.length_pos_iff.1 h1) hmax
    refine ⟨h.mean_eq, fun h2 => ⟨h.covariance_eq, ?_, fun u => ?_⟩, fun i => ?_⟩
    · ext r c
      rw [Matrix.transpose_apply, h.covariance_eq]
      exact sampleCovariance_comm zs (· c) (· r)
    · have hdiv : (0 : K) ≤ zs.length - 1 := by
        rw [sub_nonneg]
        exact_mod_cast h1
      have hform : u ⬝ᵥ (v.run zs).covariance.mulVec u =
          (∑ r, ∑ c, u r * comoment zs (· r) (· c) * u c) / (zs.length - 1) := by
        simp only [h.covariance_eq, sampleCovariance, dotProduct, Matrix.mulVec, Finset.mul_sum,
          Finset.sum_div]
        refine Finset.sum_congr rfl fun r _ => Finset.sum_congr rfl fun c _ => ?_
        ring
      rw [hform]
      exact div_nonneg (sum_mul_comoment_mul_nonneg zs (fun i z => z i) u) hdiv
    · have hi : WelfordMean.Summarises (WelfordMean.fresh.run (zs.map (· i))) (zs.map (· i)) := by
        refine WelfordMean.summarises_run rfl ?_ ?_
        · rw [ne_eq, List.map_eq_nil_iff]
          exact List.length_pos_iff.1 h1
        · rwa [List.length_map]
      constructor
      · rw [h.mean_eq, hi.mean_eq, average_map]
        rfl
      · rw [h.variance_eq, hi.variance_eq, sampleCovariance_map]
        rfl

end

/-- Three samples of one and of two coordinates. -/
theorem welford_eq_batch_rat :
    ((WelfordMean.fresh : WelfordMean ℚ).run [1, 2, 6]).mean = 3 ∧
      ((WelfordMean.fresh : WelfordMean ℚ).run [1, 2, 6]).variance = 7 ∧
      ((WelfordMeanVector.fresh : WelfordMeanVector ℚ 2).run
        [![1, 0], ![2, 3], ![6, 3]]).mean = ![3, 2] ∧
      ((WelfordMeanVector.fresh : WelfordMeanVector ℚ 2).run
        [![1, 0], ![2, 3], ![6, 3]]).covariance = !![7, 3; 3, 3] := by
  obtain ⟨scalar, vector⟩ := welford_eq_batch (K := ℚ)
  obtain ⟨hmean, hvar⟩ := scalar WelfordMean.fresh [1, 2, 6] (.inl rfl) (by simp)
    (by simp [UINT16_MAX])
  obtain ⟨vmean, vcov, _⟩ := vector 2 WelfordMeanVector.fresh [![1, 0], ![2, 3], ![6, 3]]
    (.inl rfl) (by simp) (by simp [UINT16_MAX])
  refine ⟨?_, ?_, ?_, ?_⟩
  · rw [hmean]
    norm_num
  · rw [hvar (by simp)]
    norm_num
  · rw [vmean]
    ext i
    fin_cases i <;> norm_num [average]
  · rw [(vcov (by simp)).1]
    ext r c
    fin_cases r <;> fin_cases c <;> norm_num [sampleCovariance, comoment, average]

/-- With the overflow of the counter both filters lose the mean and the variance, whatever they
were fed before and whatever the next sample is. -/
theorem welford_overflow_discards [Field K] [LinearOrder K] :
    (∀ s : WelfordMean K, s.Reachable → s.count = UINT16_MAX → ∀ x : K, x ≠ s.mean →
      ¬ s.KeepsStatistics x) ∧
    ∀ (N : ℕ) (v : WelfordMeanVector K N), v.Reachable → v.count = UINT16_MAX →
      ∀ (x : Fin N → K) (i : Fin N), x i ≠ v.mean i → ¬ v.KeepsStatistics x i :=
  ⟨fun _ h hmax x _ => h.not_keepsStatistics hmax x,
    fun _ _ h hmax x i _ => h.not_keepsStatistics hmax x i⟩

/-- The samples that bring the counter to its maximum with a mean of zero. -/
def fullOfZeros {α : Type*} [Zero α] : List α := List.replicate UINT16_MAX 0

lemma length_fullOfZeros {α : Type*} [Zero α] : (fullOfZeros : List α).length = UINT16_MAX :=
  List.length_replicate

lemma fullOfZeros_ne_nil {α : Type*} [Zero α] : (fullOfZeros : List α) ≠ [] := by
  rw [← List.length_pos_iff, length_fullOfZeros]
  decide

lemma average_fullOfZeros {α : Type*} [Zero α] {f : α → ℚ} (hf : f 0 = 0) :
    average fullOfZeros f = 0 := by
  rw [average, fullOfZeros, List.map_replicate, List.sum_replicate, hf, smul_zero, zero_div]

lemma summarises_fullOfZeros :
    ((WelfordMean.fresh : WelfordMean ℚ).run fullOfZeros).Summarises fullOfZeros :=
  WelfordMean.summarises_run rfl fullOfZeros_ne_nil length_fullOfZeros.le

lemma summarises_fullOfZeros_vector :
    ((WelfordMeanVector.fresh : WelfordMeanVector ℚ 1).run fullOfZeros).Summarises fullOfZeros :=
  WelfordMeanVector.summarises_run rfl fullOfZeros_ne_nil length_fullOfZeros.le

/-- A one after `UINT16_MAX` zeros, in the scalar filter and in the vector filter. -/
theorem welford_overflow_discards_one :
    ¬ ((WelfordMean.fresh : WelfordMean ℚ).run fullOfZeros).KeepsStatistics 1 ∧
      ¬ ((WelfordMeanVector.fresh : WelfordMeanVector ℚ 1).run
        fullOfZeros).KeepsStatistics 1 0 := by
  obtain ⟨scalar, vector⟩ := welford_overflow_discards (K := ℚ)
  have hs := summarises_fullOfZeros
  have hv := summarises_fullOfZeros_vector
  constructor
  · refine scalar _ (WelfordMean.Reachable.fresh.run _) (hs.count_eq.trans length_fullOfZeros) 1 ?_
    rw [hs.mean_eq, average_fullOfZeros rfl]
    exact one_ne_zero
  · refine vector 1 _ (WelfordMeanVector.Reachable.fresh.run _)
      (hv.count_eq.trans length_fullOfZeros) 1 0 ?_
    have hmean := (congrFun hv.mean_eq 0).trans (average_fullOfZeros rfl)
    rw [hmean]
    exact one_ne_zero

/-- After `UINT16_MAX` zeros a one moves the mean to one, and the variance divides by zero. -/
theorem welford_overflow_keeps_nothing :
    ¬ ∀ s : WelfordMean ℚ, s.Reachable → s.count = UINT16_MAX → ∀ x : ℚ, x ≠ s.mean →
      s.KeepsStatistics x := by
  intro h
  have hs := summarises_fullOfZeros
  have hmax := hs.count_eq.trans length_fullOfZeros
  have hreach := (WelfordMean.Reachable.fresh (K := ℚ)).run fullOfZeros
  refine hreach.not_keepsStatistics hmax 1 (h _ hreach hmax 1 ?_)
  rw [hs.mean_eq, average_fullOfZeros rfl]
  exact one_ne_zero

end RT1064.Math
