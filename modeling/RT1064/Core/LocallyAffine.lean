import Mathlib.Algebra.Order.Field.Basic
import Mathlib.Algebra.Order.Floor.Ring
import Mathlib.Tactic.Linarith
import Mathlib.Tactic.Ring

/-!
# Locally affine functions

Functions that are affine around a point, with the slope there. The slope is fixed by the values on
one ray, so a piecewise function has the slope of each of its pieces that the point belongs to.
-/

namespace RT1064.Core

variable {K : Type*} [Field K] [LinearOrder K]

/-- Around `x` the function is affine with the slope `s`. -/
def LocallyAffine (f : K → K) (x s : K) : Prop :=
  ∃ ε, 0 < ε ∧ ∀ y, |y - x| < ε → f y = f x + s * (y - x)

/-- Around `(x, y)` the function is affine with the slopes `s` and `t`. -/
def LocallyAffine₂ (f : K → K → K) (x y s t : K) : Prop :=
  ∃ ε, 0 < ε ∧ ∀ u v, |u - x| < ε → |v - y| < ε → f u v = f x y + s * (u - x) + t * (v - y)

/-- Rounding towards zero. -/
def trunc [FloorRing K] (x : K) : ℤ := if 0 ≤ x then ⌊x⌋ else ⌈x⌉

variable [IsStrictOrderedRing K]

section Slope

variable {f : K → K} {g : K → K → K} {x y s t : K}

/-- The values on a ray determine the slope. -/
lemma LocallyAffine.slope_eq (h : LocallyAffine f x s) {d δ : K} (hd : d ≠ 0) (hδ : 0 < δ)
    (hray : ∀ τ, 0 < τ → τ < δ → f (x + τ * d) = f x + t * (τ * d)) : s = t := by
  obtain ⟨ε, hε, haffine⟩ := h
  have hd' : 0 < |d| := abs_pos.2 hd
  obtain ⟨τ, hτ, hlt⟩ := exists_between (lt_min hδ (div_pos hε hd'))
  obtain ⟨hτδ, hτε⟩ := lt_min_iff.1 hlt
  have hnear : |x + τ * d - x| < ε := by
    rwa [add_sub_cancel_left, abs_mul, abs_of_pos hτ, ← lt_div_iff₀ hd']
  have heq := (haffine _ hnear).symm.trans (hray τ hτ hτδ)
  rw [add_sub_cancel_left, add_right_inj] at heq
  exact mul_right_cancel₀ (mul_ne_zero hτ.ne' hd) heq

omit [IsStrictOrderedRing K] in
/-- The reflection of a function about the origin has the same slope. -/
lemma LocallyAffine.neg_comp_neg (h : LocallyAffine f x s) :
    LocallyAffine (fun y => -f (-y)) (-x) s := by
  obtain ⟨ε, hε, haffine⟩ := h
  refine ⟨ε, hε, fun y hy => ?_⟩
  have hdist : -y - x = -(y - -x) := by ring
  have hnear : |(-y - x)| < ε := by rwa [hdist, abs_neg]
  show -f (-y) = -f (- -x) + s * (y - -x)
  rw [haffine _ hnear, neg_neg]
  ring

lemma LocallyAffine₂.left (h : LocallyAffine₂ g x y s t) :
    LocallyAffine (fun u => g u y) x s := by
  obtain ⟨ε, hε, haffine⟩ := h
  refine ⟨ε, hε, fun u hu => ?_⟩
  simpa using haffine u y hu (by simpa using hε)

lemma LocallyAffine₂.right (h : LocallyAffine₂ g x y s t) : LocallyAffine (g x) y t := by
  obtain ⟨ε, hε, haffine⟩ := h
  refine ⟨ε, hε, fun v hv => ?_⟩
  simpa using haffine x v (by simpa using hε) hv

end Slope

/-! ### Rounding -/

section Rounding

variable [FloorRing K] {x : K}

/-- To the right of a point the floor does not change at first. -/
lemma floor_add {τ : K} (h0 : 0 < τ) (hτ : τ < ⌊x⌋ + 1 - x) : ⌊x + τ⌋ = ⌊x⌋ := by
  have hle := Int.floor_le x
  rw [Int.floor_eq_iff]
  constructor <;> linarith

/-- To the left of a point the ceiling does not change at first. -/
lemma ceil_sub {τ : K} (h0 : 0 < τ) (hτ : τ < x - (⌈x⌉ - 1)) : ⌈x - τ⌉ = ⌈x⌉ := by
  have hle := Int.le_ceil x
  rw [Int.ceil_eq_iff]
  constructor <;> linarith

lemma trunc_nonneg_iff : 0 ≤ trunc x ↔ -1 < x := by
  rw [trunc]
  split_ifs with hx
  · exact iff_of_true (Int.floor_nonneg.2 hx) (by linarith)
  · rw [Int.le_ceil_iff, Int.cast_zero, zero_sub]

lemma trunc_lt_iff {n : ℤ} (hn : 0 < n) : trunc x < n ↔ x < n := by
  rw [trunc]
  split_ifs with hx
  · exact Int.floor_lt
  · have hn' : (0 : K) < n := by exact_mod_cast hn
    have hceil : ⌈x⌉ ≤ 0 := Int.ceil_le.2 (by rw [Int.cast_zero]; exact (not_le.1 hx).le)
    exact iff_of_true (hceil.trans_lt hn) ((not_le.1 hx).trans hn')

/-- Away from zero the truncation does not change at first. -/
lemma exists_ray_trunc (x : K) : ∃ d δ : K, d ≠ 0 ∧ 0 < δ ∧
    ∀ τ, 0 < τ → τ < δ → trunc (x + τ * d) = trunc x := by
  rcases le_or_gt 0 x with hx | hx
  · refine ⟨1, ⌊x⌋ + 1 - x, one_ne_zero, sub_pos.2 (Int.lt_floor_add_one x), ?_⟩
    intro τ h0 hτ
    rw [trunc, trunc, if_pos hx, mul_one, if_pos (by linarith), floor_add h0 hτ]
  · have hlt := Int.ceil_lt_add_one x
    refine ⟨-1, x - (⌈x⌉ - 1), neg_ne_zero.2 one_ne_zero, by linarith, ?_⟩
    intro τ h0 hτ
    rw [trunc, trunc, if_neg hx.not_ge, mul_neg_one, ← sub_eq_add_neg, if_neg (by linarith),
      ceil_sub h0 hτ]

/-- The floor is constant around a number that is not an integer. -/
lemma locallyAffine_floor (hx : ∀ n : ℤ, x ≠ n) : LocallyAffine (fun y => (⌊y⌋ : K)) x 0 := by
  have hlow : (⌊x⌋ : K) < x := lt_of_le_of_ne (Int.floor_le x) (hx _).symm
  have hhigh : x < ⌊x⌋ + 1 := Int.lt_floor_add_one x
  refine ⟨min (x - ⌊x⌋) (⌊x⌋ + 1 - x), lt_min (sub_pos.2 hlow) (sub_pos.2 hhigh), ?_⟩
  intro y hy
  obtain ⟨hyl, hyr⟩ := lt_min_iff.1 hy
  have hfloor : ⌊y⌋ = ⌊x⌋ := by
    rw [Int.floor_eq_iff]
    constructor <;> linarith [(abs_lt.1 hyl).1, (abs_lt.1 hyr).2]
  show (⌊y⌋ : K) = ⌊x⌋ + 0 * (y - x)
  rw [hfloor, zero_mul, add_zero]

/-- At an integer the floor jumps. -/
lemma not_locallyAffine_floor (n : ℤ) (s : K) : ¬ LocallyAffine (fun y => (⌊y⌋ : K)) n s := by
  intro h
  have hs : s = 0 := by
    refine h.slope_eq one_ne_zero one_pos fun τ h0 hτ => ?_
    have hfloor : ⌊(n : K) + τ * 1⌋ = ⌊(n : K)⌋ := by
      rw [mul_one]
      refine floor_add h0 ?_
      rw [Int.floor_intCast]
      linarith
    rw [hfloor, zero_mul, add_zero]
  obtain ⟨ε, hε, haffine⟩ := h
  obtain ⟨τ, hτ, hlt⟩ := exists_between (lt_min hε one_pos)
  obtain ⟨hτε, hτ1⟩ := lt_min_iff.1 hlt
  have hjump : ⌊(n : K) - τ⌋ = n - 1 := by
    rw [Int.floor_eq_iff]
    push_cast
    constructor <;> linarith
  have heq := haffine (n - τ) (by rwa [sub_sub_cancel_left, abs_neg, abs_of_pos hτ])
  simp only [hjump, Int.floor_intCast, hs, zero_mul, add_zero] at heq
  push_cast at heq
  linarith

lemma not_locallyAffine_ceil (n : ℤ) (s : K) : ¬ LocallyAffine (fun y => (⌈y⌉ : K)) n s := by
  intro h
  have hneg := h.neg_comp_neg
  simp only [Int.ceil_neg, Int.cast_neg, neg_neg] at hneg
  rw [← Int.cast_neg] at hneg
  exact not_locallyAffine_floor (-n) s hneg

end Rounding

end RT1064.Core
