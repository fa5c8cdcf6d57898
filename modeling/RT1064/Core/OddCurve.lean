import Mathlib.Order.Monotone.Odd
import Mathlib.Algebra.Order.Field.Basic
import Mathlib.Algebra.Order.Group.MinMax
import Mathlib.Tactic.Linarith

/-!
# Odd curves

Odd ascending functions that run from `-1` to `1` between these two numbers and are constant outside
of them. Such a curve is given by an ascending function on the positive half of the interval.
-/

namespace RT1064.Core

variable {K : Type*} [Field K] [LinearOrder K]

/-- The function is odd and ascending, stays in `[-1, 1]` and reaches its ends at `1` and `-1`. -/
structure OddCurve (f : K → K) : Prop where
  odd : ∀ x, f (-x) = -f x
  monotone : Monotone f
  mem : ∀ x, -1 ≤ f x ∧ f x ≤ 1
  top : ∀ x, 1 ≤ x → f x = 1
  bottom : ∀ x, x ≤ -1 → f x = -1

/-- The nearest number of `[-1, 1]`. -/
def clampUnit (x : K) : K := max (-1) (min x 1)

/-! ### The clamp -/

lemma clampUnit_mono : Monotone (clampUnit : K → K) :=
  fun _ _ h => max_le_max_left _ (min_le_min_right _ h)

lemma clampUnit_of_mem {x : K} (hlow : -1 ≤ x) (hhigh : x ≤ 1) : clampUnit x = x := by
  rw [clampUnit, min_eq_left hhigh, max_eq_right hlow]

variable [IsStrictOrderedRing K]

lemma clampUnit_of_one_le {x : K} (h : 1 ≤ x) : clampUnit x = 1 := by
  rw [clampUnit, min_eq_right h, max_eq_right]
  linarith

lemma clampUnit_mem_of_nonneg {x : K} (h : 0 ≤ x) : clampUnit x ∈ Set.Icc 0 1 :=
  ⟨le_max_of_le_right (le_min h zero_le_one), max_le (by linarith) (min_le_right _ _)⟩

lemma abs_clampUnit_le (x : K) : |clampUnit x| ≤ 1 :=
  abs_le.2 ⟨le_max_left _ _, max_le (by linarith) (min_le_right _ _)⟩

lemma clampUnit_neg (x : K) : clampUnit (-x) = -clampUnit x := by
  have hle : (-1 : K) ≤ 1 := by linarith
  calc max (-1) (min (-x) 1) = min (max (-1) (-x)) (max (-1) 1) := max_min_distrib_left _ _ _
    _ = min (-min 1 x) (- -1) := by rw [max_eq_right hle, max_neg_neg, neg_neg]
    _ = -max (-1) (min x 1) := by rw [min_neg_neg, min_comm 1 x, max_comm]

/-! ### Curves -/

section Curves

variable {f g : K → K}

/-- The negative half follows from the positive one. -/
lemma OddCurve.of_top (hodd : ∀ x, f (-x) = -f x) (hmono : Monotone f)
    (htop : ∀ x, 1 ≤ x → f x = 1) : OddCurve f := by
  have hbottom : ∀ x, x ≤ -1 → f x = -1 := by
    intro x hx
    rw [← neg_neg x, hodd, htop (-x) (le_neg_of_le_neg hx)]
  refine ⟨hodd, hmono, fun x => ⟨?_, ?_⟩, htop, hbottom⟩
  · rw [← hbottom (min x (-1)) (min_le_right _ _)]
    exact hmono (min_le_left _ _)
  · rw [← htop (max x 1) (le_max_right _ _)]
    exact hmono (le_max_left _ _)

/-- An odd function of the clamped argument that ascends to `1` on `[0, 1]`. -/
lemma OddCurve.of_clamp (hodd : ∀ x, f (-x) = -f x) (hmono : MonotoneOn f (Set.Icc 0 1))
    (hone : f 1 = 1) : OddCurve fun x => f (clampUnit x) := by
  have hodd' : ∀ x, f (clampUnit (-x)) = -f (clampUnit x) := fun x => by
    rw [clampUnit_neg, hodd]
  refine .of_top hodd' (monotone_of_odd_of_monotoneOn_nonneg hodd' ?_) fun x hx => ?_
  · intro x hx y hy hxy
    exact hmono (clampUnit_mem_of_nonneg hx) (clampUnit_mem_of_nonneg hy) (clampUnit_mono hxy)
  · show f (clampUnit x) = 1
    rw [clampUnit_of_one_le hx, hone]

lemma OddCurve.comp (hg : OddCurve g) (hf : OddCurve f) : OddCurve fun x => g (f x) := by
  refine .of_top (fun x => ?_) (fun x y h => hg.monotone (hf.monotone h)) fun x hx => ?_
  · rw [hf.odd, hg.odd]
  · rw [hf.top x hx, hg.top 1 le_rfl]

end Curves

end RT1064.Core
