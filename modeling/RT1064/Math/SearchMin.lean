import RT1064.Core.While
import RT1064.Mat.Basic
import Mathlib.Order.Interval.Set.Basic
import Mathlib.Tactic.FieldSimp
import Mathlib.Tactic.Positivity
import Mathlib.Tactic.Ring

/-!
# Golden section search

The search for the minimum of a function between two points. The ratio is a truncated constant, so
the two inner points of a round are computed anew and none of them is an inner point of the round
before.
-/

namespace RT1064.Math

open Core

variable {K : Type*} [Field K] [LinearOrder K]

/-! ### The search -/

/-- `GOLDEN_RATIO`. -/
def GOLDEN_RATIO : K := 1.6180339887

/-- `math::abs_t`. -/
def absT (val : K) : K := if 0 < val then val else -val

/-- The variables of `math::goldensection`. -/
structure Bracket (K : Type*) where
  a : K
  b : K
  c : K
  d : K

/-- The bracket between `a` and `b` with its two inner points. -/
def Bracket.between (a b : K) : Bracket K where
  a := a
  b := b
  c := b - (b - a) / GOLDEN_RATIO
  d := a + (b - a) / GOLDEN_RATIO

/-- The condition of the loop. -/
def Bracket.Wide (tol : K) (s : Bracket K) : Prop := tol < absT (s.c - s.d)

instance (tol : K) : DecidablePred (Bracket.Wide tol) :=
  fun s => inferInstanceAs (Decidable (tol < absT (s.c - s.d)))

/-- The body of the loop. -/
def Bracket.narrow (f : K → K) (s : Bracket K) : Bracket K :=
  if f s.c < f s.d then .between s.a s.d else .between s.c s.b

/-- The result for a bracket. -/
def Bracket.middle (s : Bracket K) : K := (s.b + s.a) / 2

/-- `math::goldensection` with at most `fuel` rounds of its loop. -/
def goldensection (fuel : ℕ) (arg1 arg2 : K) (f : K → K) (tol : K) : Option K :=
  (whileLoop (Bracket.Wide tol) (Bracket.narrow f) fuel (.between arg1 arg2)).map Bracket.middle

/-! ### One round -/

/-- The function falls up to its minimiser and rises from there. -/
structure StrictUnimodal (f : K → K) (a b m : K) : Prop where
  mem : m ∈ Set.Icc a b
  anti : StrictAntiOn f (Set.Icc a m)
  mono : StrictMonoOn f (Set.Icc m b)

/-- The bracket lies in `[a, b]` and its points are those of its ends, in this order. -/
structure Bracket.Inside (a b : K) (s : Bracket K) : Prop where
  low : a ≤ s.a
  le_c : s.a ≤ s.c
  c_le_d : s.c ≤ s.d
  d_le : s.d ≤ s.b
  high : s.b ≤ b
  eq : s = .between s.a s.b

/-- The distance of the inner points as a part of the width. -/
def gapRatio : K := 2 / GOLDEN_RATIO - 1

variable [IsStrictOrderedRing K]

lemma one_lt_GOLDEN_RATIO : (1 : K) < GOLDEN_RATIO := by
  unfold GOLDEN_RATIO
  norm_num

lemma GOLDEN_RATIO_pos : (0 : K) < GOLDEN_RATIO := zero_lt_one.trans one_lt_GOLDEN_RATIO

lemma gapRatio_pos : (0 : K) < gapRatio := by
  rw [gapRatio, GOLDEN_RATIO]
  norm_num

section Bracket

variable {a b tol : K} {s : Bracket K} {f : K → K}

lemma Bracket.gap_between (a b : K) :
    (between a b).d - (between a b).c = (b - a) * gapRatio := by
  simp only [between, gapRatio]
  ring

lemma Bracket.between_inside {a' b' : K} (ha : a ≤ a') (hab : a' ≤ b') (hb : b' ≤ b) :
    Inside a b (between a' b') := by
  have hwidth : 0 ≤ b' - a' := sub_nonneg.2 hab
  have hquot : (b' - a') / GOLDEN_RATIO ≤ b' - a' :=
    div_le_self hwidth one_lt_GOLDEN_RATIO.le
  have hgap : (between a' b').d - (between a' b').c = (b' - a') * gapRatio := gap_between a' b'
  refine ⟨ha, ?_, ?_, ?_, hb, rfl⟩
  · simp only [between]
    linarith
  · linarith [mul_nonneg hwidth (gapRatio_pos (K := K)).le]
  · simp only [between]
    linarith

lemma Bracket.Inside.gap (h : Inside a b s) : s.d - s.c = (s.b - s.a) * gapRatio := by
  rw [h.eq]
  exact gap_between s.a s.b

lemma Bracket.Inside.absT_eq (h : Inside a b s) : absT (s.c - s.d) = s.d - s.c := by
  rw [absT, if_neg (sub_nonpos.2 h.c_le_d).not_gt, neg_sub]

/-- The loop goes on while the inner points are apart by more than the tolerance. -/
lemma Bracket.Inside.wide_iff (h : Inside a b s) : Wide tol s ↔ tol < (s.b - s.a) * gapRatio := by
  rw [Wide, h.absT_eq, h.gap]

lemma Bracket.Inside.narrow (h : Inside a b s) (f : K → K) : Inside a b (s.narrow f) := by
  rw [Bracket.narrow]
  split_ifs
  · exact between_inside h.low (h.le_c.trans h.c_le_d) (h.d_le.trans h.high)
  · exact between_inside (h.low.trans h.le_c) (h.c_le_d.trans h.d_le) h.high

omit [IsStrictOrderedRing K] in
/-- A round makes the bracket smaller by the ratio, whichever end it moves. -/
lemma Bracket.Inside.narrow_width (h : Inside a b s) (f : K → K) :
    (s.narrow f).b - (s.narrow f).a = (s.b - s.a) / GOLDEN_RATIO := by
  have hc : s.c = s.b - (s.b - s.a) / GOLDEN_RATIO := congrArg Bracket.c h.eq
  have hd : s.d = s.a + (s.b - s.a) / GOLDEN_RATIO := congrArg Bracket.d h.eq
  rw [Bracket.narrow]
  split_ifs
  · show s.d - s.a = _
    rw [hd, add_sub_cancel_left]
  · show s.b - s.c = _
    rw [hc, sub_sub_cancel]

/-- The end that a round moves stays on its side of the minimiser. -/
lemma Bracket.Inside.narrow_mem (h : Inside a b s) (htol : 0 < tol) (hwide : Wide tol s) {m : K}
    (hf : StrictUnimodal f a b m) (hm : m ∈ Set.Icc s.a s.b) :
    m ∈ Set.Icc (s.narrow f).a (s.narrow f).b := by
  have hcd : s.c < s.d := by
    rw [Wide, h.absT_eq] at hwide
    exact sub_pos.1 (htol.trans hwide)
  have hac : a ≤ s.c := h.low.trans h.le_c
  have hdb : s.d ≤ b := h.d_le.trans h.high
  rw [Bracket.narrow]
  split_ifs with hlt
  · refine ⟨hm.1, ?_⟩
    -- both inner points before the minimiser would have falling values
    by_contra hmd
    have hdm : s.d ≤ m := (not_le.1 hmd).le
    exact (hf.anti ⟨hac, hcd.le.trans hdm⟩ ⟨hac.trans hcd.le, hdm⟩ hcd).not_gt hlt
  · refine ⟨?_, hm.2⟩
    by_contra hcm
    have hmc : m ≤ s.c := (not_le.1 hcm).le
    exact hlt (hf.mono ⟨hmc, hcd.le.trans hdb⟩ ⟨hmc.trans hcd.le, hdb⟩ hcd)

/-- A bracket that is not wide has its middle near to every point of it. -/
lemma Bracket.Inside.abs_middle_sub_le (h : Inside a b s) (hdone : ¬ Wide tol s) {m : K}
    (hm : m ∈ Set.Icc s.a s.b) : |s.middle - m| ≤ tol / (2 * gapRatio) := by
  rw [h.wide_iff, not_lt, ← le_div_iff₀ gapRatio_pos] at hdone
  have hhalf : |s.middle - m| ≤ (s.b - s.a) / 2 := by
    rw [middle, abs_le]
    constructor <;> linarith [hm.1, hm.2]
  calc |s.middle - m| ≤ (s.b - s.a) / 2 := hhalf
    _ ≤ tol / gapRatio / 2 := by linarith
    _ = tol / (2 * gapRatio) := by rw [div_div, mul_comm]

end Bracket

/-! ### The loop -/

/-- The bracket gets smaller by the ratio in every round, so the loop ends. -/
lemma exists_endsAfter_narrow [Archimedean K] {a b tol : K} (hab : a ≤ b) (htol : 0 < tol)
    (f : K → K) :
    ∃ k, EndsAfter (Bracket.Wide tol) (Bracket.narrow f) (Bracket.between a b) k := by
  have hq1 : ( GOLDEN_RATIO : K)⁻¹ < 1 := inv_lt_one_of_one_lt₀ one_lt_GOLDEN_RATIO
  refine exists_endsAfter_of_mul (Bracket.Inside a b) (fun s => (s.b - s.a) * gapRatio)
    (inv_nonneg.2 GOLDEN_RATIO_pos.le) hq1 htol (Bracket.between_inside le_rfl hab le_rfl) ?_ ?_
  · intro s hs hwide
    exact hs.wide_iff.1 hwide
  · intro s hs _
    refine ⟨hs.narrow f, le_of_eq ?_⟩
    rw [hs.narrow_width, div_eq_inv_mul, mul_assoc]

/-- The search ends, its bracket stays in `[a, b]` with its points in order, and for a function with
one minimum on `[a, b]` the minimiser stays in the bracket and the result is near to it. -/
theorem goldensection_correct [Archimedean K] {a b tol : K} (hab : a ≤ b) (htol : 0 < tol)
    (f : K → K) :
    ∃ (k : ℕ) (r : K), EndsAfter (Bracket.Wide tol) (Bracket.narrow f) (.between a b) k ∧
      (∀ fuel, k ≤ fuel → goldensection fuel a b f tol = some r) ∧
      (∀ i ≤ k, ((Bracket.narrow f)^[i] (.between a b)).Inside a b) ∧
      ∀ m, StrictUnimodal f a b m →
        (∀ i ≤ k, m ∈ Set.Icc ((Bracket.narrow f)^[i] (.between a b)).a
          ((Bracket.narrow f)^[i] (.between a b)).b) ∧
        |r - m| ≤ tol / (2 * (2 / GOLDEN_RATIO - 1)) := by
  obtain ⟨k, hends⟩ := exists_endsAfter_narrow hab htol f
  have hstart : (Bracket.between a b).Inside a b := Bracket.between_inside le_rfl hab le_rfl
  have hinside : ∀ i ≤ k, ((Bracket.narrow f)^[i] (.between a b)).Inside a b := fun i hi =>
    hends.invariant (Bracket.Inside a b) hstart (fun s hs _ => hs.narrow f) hi
  refine ⟨k, ((Bracket.narrow f)^[k] (.between a b)).middle, hends, fun fuel hfuel => ?_,
    hinside, fun m hm => ?_⟩
  · rw [goldensection, hends.whileLoop_eq hfuel, Option.map_some]
  · have hmem : ∀ i ≤ k, m ∈ Set.Icc ((Bracket.narrow f)^[i] (.between a b)).a
        ((Bracket.narrow f)^[i] (.between a b)).b := fun i hi =>
      (hends.invariant (fun s => s.Inside a b ∧ m ∈ Set.Icc s.a s.b) ⟨hstart, hm.mem⟩
        (fun s hs hwide => ⟨hs.1.narrow f, hs.1.narrow_mem htol hwide hm hs.2⟩) hi).2
    exact ⟨hmem, (hinside k le_rfl).abs_middle_sub_le hends.done (hmem k le_rfl)⟩

/-- A parabola. -/
theorem goldensection_correct_rat :
    ∃ (k : ℕ) (r : ℚ), EndsAfter (Bracket.Wide (1 / 10)) (Bracket.narrow fun x : ℚ => x * x)
        (.between (-1) (2 : ℚ)) k ∧
      (∀ fuel, k ≤ fuel → goldensection fuel (-1) 2 (fun x : ℚ => x * x) (1 / 10) = some r) ∧
      (∀ i ≤ k, ((Bracket.narrow fun x : ℚ => x * x)^[i] (.between (-1) (2 : ℚ))).Inside (-1) 2) ∧
      ∀ m, StrictUnimodal (fun x : ℚ => x * x) (-1) 2 m →
        (∀ i ≤ k, m ∈ Set.Icc ((Bracket.narrow fun x : ℚ => x * x)^[i] (.between (-1) (2 : ℚ))).a
          ((Bracket.narrow fun x : ℚ => x * x)^[i] (.between (-1) (2 : ℚ))).b) ∧
        |r - m| ≤ 1 / 10 / (2 * (2 / GOLDEN_RATIO - 1)) :=
  goldensection_correct (by norm_num) (by norm_num) fun x : ℚ => x * x

end RT1064.Math
