import RT1064.Core.LocallyAffine
import RT1064.Mat.Dual

/-!
# Piecewise functions of dual numbers

The functions of `Dual` that select one of their arguments or round a value, against the functions
of scalars that they lift.
-/

namespace RT1064.Mat

open Core

variable {K : Type*} {N : ℕ}

/-! ### Scalars -/

/-- `size_t(x)` with a `size_t` of 32 bits. The conversion of a number outside of its range is
undefined, and `undef` stands for what it gives. -/
def sizeT [Field K] [LinearOrder K] [FloorRing K] (undef : K → Fin (2 ^ 32)) (x : K) : ℕ :=
  if -1 < x ∧ x < 2 ^ 32 then (trunc x).toNat else undef x

/-- The remainder of the division that rounds towards zero. -/
def fmod [Field K] [LinearOrder K] [FloorRing K] (x mod : K) : K := x - trunc (x / mod) * mod

namespace Dual

section Model

variable [Field K] [LinearOrder K]

/-- `abs(Dual)`. -/
def abs (a : Dual K N) : Dual K N := if 0 ≤ a.value then a else a.neg

/-- `max(Dual, Dual)`. -/
def max (a b : Dual K N) : Dual K N := if b.value ≤ a.value then a else b

/-- `min(Dual, Dual)`. -/
def min (a b : Dual K N) : Dual K N := if a.value < b.value then a else b

variable [FloorRing K]

/-- `ceil(Dual)`. -/
def ceil (a : Dual K N) : Dual K N := ofScalar ⌈a.value⌉

/-- `floor(Dual)`. -/
def floor (a : Dual K N) : Dual K N := ofScalar ⌊a.value⌋

/-- `fmod(Dual, Scalar)`. -/
def fmod (undef : K → Fin (2 ^ 32)) (a : Dual K N) (mod : K) : Dual K N :=
  ⟨a.value - sizeT undef (a.value / mod) * mod, a.derivative⟩

end Model

/-! ### What the functions lift -/

/-- The dual number holds the value of `f` at the value of `a` and, where `f` is locally affine,
the derivative by the chain rule. -/
structure Lifts [Field K] [LinearOrder K] (f : K → K) (a d : Dual K N) : Prop where
  value_eq : d.value = f a.value
  derivative_eq : ∀ s, LocallyAffine f a.value s → d.derivative = s • a.derivative

/-- The same for a function of two arguments. -/
structure Lifts₂ [Field K] [LinearOrder K] (f : K → K → K) (a b d : Dual K N) : Prop where
  value_eq : d.value = f a.value b.value
  derivative_eq : ∀ s t, LocallyAffine₂ f a.value b.value s t →
    d.derivative = s • a.derivative + t • b.derivative

/-- The piecewise functions lift those of the scalars. -/
structure PiecewiseCorrect [Field K] [LinearOrder K] [FloorRing K] (undef : K → Fin (2 ^ 32))
    (a b : Dual K N) (mod : K) : Prop where
  abs : Lifts (fun x => |x|) a a.abs
  ceil : Lifts (fun x => (⌈x⌉ : K)) a a.ceil
  floor : Lifts (fun x => (⌊x⌋ : K)) a a.floor
  max : Lifts₂ Max.max a b (a.max b)
  min : Lifts₂ Min.min a b (a.min b)
  fmod : Lifts (Mat.fmod · mod) a (a.fmod undef mod)

/-- A dual number from a scalar has the derivative of a constant if the default of the input is no
input. -/
lemma ofScalar_derivative_eq_zero_iff [Field K] (v : K) :
    (ofScalar v : Dual K N).derivative = 0 ↔ N ≤ 65535 := by
  constructor
  · intro h
    by_contra hN
    have hentry := congrFun h ⟨65535, not_le.1 hN⟩
    simp [ofScalar, ofInput, not_le.1 hN] at hentry
  · intro hN
    exact dif_neg hN.not_gt

section Lifts

variable [Field K] [LinearOrder K]

/-- A function that follows its first argument on a piece. -/
lemma Lifts₂.of_first {f : K → K → K} {a b : Dual K N} (hvalue : a.value = f a.value b.value)
    (hs : ∀ s t, LocallyAffine₂ f a.value b.value s t → s = 1 ∧ t = 0) : Lifts₂ f a b a := by
  refine ⟨hvalue, fun s t h => ?_⟩
  obtain ⟨rfl, rfl⟩ := hs s t h
  rw [one_smul, zero_smul, add_zero]

lemma Lifts₂.of_second {f : K → K → K} {a b : Dual K N} (hvalue : b.value = f a.value b.value)
    (hs : ∀ s t, LocallyAffine₂ f a.value b.value s t → s = 0 ∧ t = 1) : Lifts₂ f a b b := by
  refine ⟨hvalue, fun s t h => ?_⟩
  obtain ⟨rfl, rfl⟩ := hs s t h
  rw [one_smul, zero_smul, zero_add]

variable [IsStrictOrderedRing K]

lemma lifts_abs (a : Dual K N) : Lifts (fun x => |x|) a a.abs := by
  rcases le_or_gt 0 a.value with h | h
  · rw [abs, if_pos h]
    refine ⟨(abs_of_nonneg h).symm, fun s hs => ?_⟩
    have hs1 : s = 1 := hs.slope_eq one_ne_zero one_pos fun τ hτ _ => by
      show |a.value + τ * 1| = |a.value| + 1 * (τ * 1)
      rw [abs_of_nonneg h, mul_one, one_mul, abs_of_nonneg (add_nonneg h hτ.le)]
    rw [hs1, one_smul]
  · rw [abs, if_neg h.not_ge]
    refine ⟨(abs_of_neg h).symm, fun s hs => ?_⟩
    have hs1 : s = -1 := hs.slope_eq (neg_ne_zero.2 one_ne_zero) one_pos fun τ hτ _ => by
      show |a.value + τ * -1| = |a.value| + -1 * (τ * -1)
      rw [abs_of_neg h, abs_of_neg (by linarith)]
      ring
    rw [hs1, neg_one_smul]
    rfl

lemma lifts_max (a b : Dual K N) : Lifts₂ Max.max a b (a.max b) := by
  rcases le_or_gt b.value a.value with h | h
  · rw [max, if_pos h]
    refine .of_first (max_eq_left h).symm fun s t hst => ⟨?_, ?_⟩
    · refine hst.left.slope_eq one_ne_zero one_pos fun τ hτ _ => ?_
      show Max.max (a.value + τ * 1) b.value = Max.max a.value b.value + 1 * (τ * 1)
      rw [max_eq_left h, max_eq_left (by linarith), one_mul]
    · refine hst.right.slope_eq (neg_ne_zero.2 one_ne_zero) one_pos fun τ hτ _ => ?_
      rw [max_eq_left h, max_eq_left (by linarith), zero_mul, add_zero]
  · rw [max, if_neg h.not_ge]
    refine .of_second (max_eq_right h.le).symm fun s t hst => ⟨?_, ?_⟩
    · refine hst.left.slope_eq (neg_ne_zero.2 one_ne_zero) one_pos fun τ hτ _ => ?_
      show Max.max (a.value + τ * -1) b.value = Max.max a.value b.value + 0 * (τ * -1)
      rw [max_eq_right h.le, max_eq_right (by linarith), zero_mul, add_zero]
    · refine hst.right.slope_eq one_ne_zero one_pos fun τ hτ _ => ?_
      rw [max_eq_right h.le, max_eq_right (by linarith), one_mul]

lemma lifts_min (a b : Dual K N) : Lifts₂ Min.min a b (a.min b) := by
  rcases lt_or_ge a.value b.value with h | h
  · rw [min, if_pos h]
    refine .of_first (min_eq_left h.le).symm fun s t hst => ⟨?_, ?_⟩
    · refine hst.left.slope_eq (neg_ne_zero.2 one_ne_zero) one_pos fun τ hτ _ => ?_
      show Min.min (a.value + τ * -1) b.value = Min.min a.value b.value + 1 * (τ * -1)
      rw [min_eq_left h.le, min_eq_left (by linarith), one_mul]
    · refine hst.right.slope_eq one_ne_zero one_pos fun τ hτ _ => ?_
      rw [min_eq_left h.le, min_eq_left (by linarith), zero_mul, add_zero]
  · rw [min, if_neg h.not_gt]
    refine .of_second (min_eq_right h).symm fun s t hst => ⟨?_, ?_⟩
    · refine hst.left.slope_eq one_ne_zero one_pos fun τ hτ _ => ?_
      show Min.min (a.value + τ * 1) b.value = Min.min a.value b.value + 0 * (τ * 1)
      rw [min_eq_right h, min_eq_right (by linarith), zero_mul, add_zero]
    · refine hst.right.slope_eq (neg_ne_zero.2 one_ne_zero) one_pos fun τ hτ _ => ?_
      rw [min_eq_right h, min_eq_right (by linarith), one_mul]

variable [FloorRing K]

/-- Rounding down is right where it jumps, and elsewhere if the default is no input. -/
lemma lifts_floor_iff (a : Dual K N) :
    Lifts (fun x => (⌊x⌋ : K)) a a.floor ↔ N ≤ 65535 ∨ ∃ n : ℤ, a.value = n := by
  constructor
  · intro h
    by_contra hnot
    rw [not_or, not_exists] at hnot
    have hzero := h.derivative_eq 0 (locallyAffine_floor hnot.2)
    rw [zero_smul, floor, ofScalar_derivative_eq_zero_iff] at hzero
    exact hnot.1 hzero
  · rintro (hN | ⟨n, hn⟩)
    · refine ⟨rfl, fun s hs => ?_⟩
      have hpos : 0 < ⌊a.value⌋ + 1 - a.value := sub_pos.2 (Int.lt_floor_add_one a.value)
      have hs0 : s = 0 := hs.slope_eq one_ne_zero hpos fun τ hτ hlt => by
        show (⌊a.value + τ * 1⌋ : K) = ⌊a.value⌋ + 0 * (τ * 1)
        rw [mul_one, floor_add hτ hlt, zero_mul, add_zero]
      rw [hs0, zero_smul, floor, ofScalar_derivative_eq_zero_iff]
      exact hN
    · refine ⟨rfl, fun s hs => ?_⟩
      rw [hn] at hs
      exact absurd hs (not_locallyAffine_floor n s)

lemma lifts_ceil (a : Dual K N) (h : N ≤ 65535 ∨ ∃ n : ℤ, a.value = n) :
    Lifts (fun x => (⌈x⌉ : K)) a a.ceil := by
  rcases h with hN | ⟨n, hn⟩
  · refine ⟨rfl, fun s hs => ?_⟩
    have hpos : 0 < a.value - (⌈a.value⌉ - 1) := by linarith [Int.ceil_lt_add_one a.value]
    have hs0 : s = 0 := hs.slope_eq (neg_ne_zero.2 one_ne_zero) hpos fun τ hτ hlt => by
      show (⌈a.value + τ * -1⌉ : K) = ⌈a.value⌉ + 0 * (τ * -1)
      rw [mul_neg_one, ← sub_eq_add_neg, ceil_sub hτ hlt, zero_mul, add_zero]
    rw [hs0, zero_smul, ceil, ofScalar_derivative_eq_zero_iff]
    exact hN
  · refine ⟨rfl, fun s hs => ?_⟩
    rw [hn] at hs
    exact absurd hs (not_locallyAffine_ceil n s)

/-- The conversion gives the truncation exactly in the range of `size_t`. -/
lemma sizeT_eq_trunc_iff (undef : K → Fin (2 ^ 32)) (x : K) :
    (sizeT undef x : K) = trunc x ↔ -1 < x ∧ x < 2 ^ 32 := by
  have hlt : trunc x < 2 ^ 32 ↔ x < 2 ^ 32 := by
    have h := trunc_lt_iff (x := x) (n := 2 ^ 32) (by norm_num)
    rwa [Int.cast_pow, Int.cast_ofNat] at h
  rw [← Int.cast_natCast, Int.cast_inj]
  constructor
  · intro h
    rw [← trunc_nonneg_iff, ← hlt, ← h]
    refine ⟨Int.natCast_nonneg _, ?_⟩
    rw [sizeT]
    split_ifs with hx
    · have := hlt.2 hx.2
      omega
    · have := (undef x).isLt
      omega
  · intro h
    rw [sizeT, if_pos h]
    exact Int.toNat_of_nonneg (trunc_nonneg_iff.2 h.1)

/-- The remainder is right exactly where the quotient fits into `size_t`. -/
lemma lifts_fmod_iff (undef : K → Fin (2 ^ 32)) (a : Dual K N) {mod : K} (hmod : mod ≠ 0) :
    Lifts (Mat.fmod · mod) a (a.fmod undef mod) ↔
      -1 < a.value / mod ∧ a.value / mod < 2 ^ 32 := by
  rw [← sizeT_eq_trunc_iff undef]
  constructor
  · intro h
    have hvalue : a.value - sizeT undef (a.value / mod) * mod =
        a.value - trunc (a.value / mod) * mod := h.value_eq
    exact mul_right_cancel₀ hmod (sub_right_injective hvalue)
  · intro h
    refine ⟨?_, fun s hs => ?_⟩
    · show a.value - sizeT undef (a.value / mod) * mod =
        a.value - trunc (a.value / mod) * mod
      rw [h]
    · obtain ⟨d, δ, hd, hδ, hray⟩ := exists_ray_trunc (a.value / mod)
      have hs1 : s = 1 := hs.slope_eq (mul_ne_zero hd hmod) hδ fun τ hτ hlt => by
        have hquot : (a.value + τ * (d * mod)) / mod = a.value / mod + τ * d := by
          field_simp
        show a.value + τ * (d * mod) - trunc ((a.value + τ * (d * mod)) / mod) * mod =
          a.value - trunc (a.value / mod) * mod + 1 * (τ * (d * mod))
        rw [hquot, hray τ hτ hlt]
        ring
      rw [hs1, one_smul]
      rfl

/-- The piecewise functions are right if and only if the quotient of the remainder fits into
`size_t` and the default of the input is no input, which does not matter where the rounding
jumps. -/
theorem piecewiseCorrect_iff (undef : K → Fin (2 ^ 32)) (a b : Dual K N) {mod : K}
    (hmod : mod ≠ 0) : PiecewiseCorrect undef a b mod ↔
      (N ≤ 65535 ∨ ∃ n : ℤ, a.value = n) ∧ -1 < a.value / mod ∧ a.value / mod < 2 ^ 32 := by
  constructor
  · intro h
    exact ⟨(lifts_floor_iff a).1 h.floor, (lifts_fmod_iff undef a hmod).1 h.fmod⟩
  · rintro ⟨hround, hquot⟩
    exact {
      abs := lifts_abs a
      ceil := lifts_ceil a hround
      floor := (lifts_floor_iff a).2 hround
      max := lifts_max a b
      min := lifts_min a b
      fmod := (lifts_fmod_iff undef a hmod).2 hquot }

/-- The functions at the input `5`, with the remainder by `3`. -/
theorem piecewiseCorrect_iff_rat :
    PiecewiseCorrect (fun _ => 0) (ofInput 5 0 : Dual ℚ 1) (ofInput 2 0) 3 := by
  refine (piecewiseCorrect_iff (fun _ => 0) _ _ (by norm_num)).2 ⟨.inl (by norm_num), ?_⟩
  norm_num [ofInput]

/-- The remainder of `-5` by `3` is not right where the conversion gives `0`. -/
theorem not_piecewiseCorrect_neg :
    ¬ PiecewiseCorrect (fun _ => 0) (ofInput (-5) 0 : Dual ℚ 1) (ofInput 2 0) 3 := by
  intro h
  have hquot := (lifts_fmod_iff _ _ (by norm_num)).1 h.fmod
  norm_num [ofInput] at hquot

end Lifts

end Dual

end RT1064.Mat
