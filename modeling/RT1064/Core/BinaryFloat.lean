import Mathlib.Algebra.Order.Field.Power
import Mathlib.Data.Real.Basic
import Mathlib.Tactic
import RT1064.Core.Numerals

/-!
# Binary floating-point values

The finite values of a binary floating-point format with `p` significant bits, as real numbers.
Two of them that differ, differ by a part of the larger one that `p` bounds from below.
-/

namespace RT1064.Core

attribute [local instance] atLeastTwo_two

variable {p : ℕ} {emin emax : ℤ} {x y : ℝ}

/-- The values with `p` significant bits whose last bit counts `2 ^ emin` to `2 ^ emax`. -/
def IsBinary (p : ℕ) (emin emax : ℤ) (x : ℝ) : Prop :=
  ∃ m e : ℤ, |m| < 2 ^ p ∧ emin ≤ e ∧ e ≤ emax ∧ x = m * 2 ^ e

/-- The finite values of `float`. -/
def Binary32 : Type := { x : ℝ // IsBinary 24 (-149) 104 x }

/-- Multiples of a power of two that differ. -/
lemma add_le_of_lt_of_mul {u : ℝ} (hu : 0 < u) {m n : ℤ} (h : m * u < n * u) :
    m * u + u ≤ n * u := by
  have hmn : m + 1 ≤ n := by
    have hlt : (m : ℝ) < n := lt_of_mul_lt_mul_right h hu.le
    exact_mod_cast hlt
  have hcast : ((m : ℝ) + 1) ≤ n := by exact_mod_cast hmn
  calc m * u + u = (m + 1) * u := by ring
    _ ≤ n * u := mul_le_mul_of_nonneg_right hcast hu.le

/-- A power of two is a multiple of every lower one. -/
lemma mul_zpow_of_le {e f : ℤ} (h : f ≤ e) (m : ℤ) :
    (m : ℝ) * 2 ^ e = ((m * 2 ^ (e - f).toNat : ℤ) : ℝ) * 2 ^ f := by
  have hsub : (((e - f).toNat : ℕ) : ℤ) = e - f := Int.toNat_of_nonneg (by omega)
  have hpow : (2 : ℝ) ^ e = 2 ^ (e - f).toNat * 2 ^ f := by
    rw [← zpow_natCast, hsub, ← zpow_add₀ two_ne_zero, sub_add_cancel]
  rw [hpow]
  push_cast
  ring

/-- A value under the half of another one is under it by one part in `2 ^ p` at least. -/
lemma IsBinary.le_of_lt_half (hx : IsBinary p emin emax x) (hy : IsBinary p emin emax y)
    (hlt : x < y / 2) : x ≤ (1 - 1 / 2 ^ p) * (y / 2) := by
  obtain ⟨m, e, hm, -, -, rfl⟩ := hx
  obtain ⟨n, f, hn, -, -, rfl⟩ := hy
  have hP : (0 : ℝ) < 2 ^ p := by positivity
  have hm' : (m : ℝ) ≤ 2 ^ p - 1 := by
    have hle : m ≤ 2 ^ p - 1 := by
      have := lt_of_abs_lt hm
      omega
    exact_mod_cast hle
  have hn' : (n : ℝ) ≤ 2 ^ p := by exact_mod_cast (lt_of_abs_lt hn).le
  have htwo : (2 : ℝ) * (m * 2 ^ e) = m * 2 ^ (e + 1) := by
    rw [zpow_add_one₀ two_ne_zero]
    ring
  have hlt' : (m : ℝ) * 2 ^ (e + 1) < n * 2 ^ f := by linarith
  -- the part of `y` that has to be shown to lie between
  suffices hgap : (n : ℝ) * 2 ^ f / 2 ^ p ≤ n * 2 ^ f - m * 2 ^ (e + 1) by
    have hdiv : (1 - 1 / 2 ^ p) * ((n : ℝ) * 2 ^ f / 2) =
        (n * 2 ^ f - n * 2 ^ f / 2 ^ p) / 2 := by ring
    rw [hdiv]
    linarith
  rw [div_le_iff₀ hP]
  rcases le_or_gt (e + 1) f with hef | hef
  · have hu : (0 : ℝ) < 2 ^ (e + 1) := by positivity
    have hy := mul_zpow_of_le hef n
    rw [hy] at hlt' ⊢
    have hstep := add_le_of_lt_of_mul hu hlt'
    generalize ((n * 2 ^ (f - (e + 1)).toNat : ℤ) : ℝ) * 2 ^ (e + 1) = Y at hstep ⊢
    have hX : (m : ℝ) * 2 ^ (e + 1) ≤ (2 ^ p - 1) * 2 ^ (e + 1) :=
      mul_le_mul_of_nonneg_right hm' hu.le
    have hone : (1 : ℝ) ≤ 2 ^ p := one_le_pow₀ one_le_two
    have hmul := mul_le_mul_of_nonneg_left hstep (sub_nonneg.2 hone)
    linarith
  · have hu : (0 : ℝ) < 2 ^ f := by positivity
    have hx := mul_zpow_of_le (e := e + 1) (f := f) (by omega) m
    rw [hx] at hlt' ⊢
    have hstep := add_le_of_lt_of_mul hu hlt'
    have hY : (n : ℝ) * 2 ^ f ≤ 2 ^ p * 2 ^ f := mul_le_mul_of_nonneg_right hn' hu.le
    have hmul := mul_le_mul_of_nonneg_left hstep hP.le
    linarith

end RT1064.Core
