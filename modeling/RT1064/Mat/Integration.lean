import Mathlib.LinearAlgebra.Matrix.ToLin
import RT1064.Core.RungeKutta
import RT1064.Core.While
import RT1064.Mat.Basic

/-!
# Runge–Kutta integration

The integration of a differential equation with a fixed step, of which the last one is shortened so
that it ends at the final time.
-/

namespace RT1064.Mat

open Core
open scoped Polynomial

attribute [local instance] atLeastTwo_six

/-! ### The function -/

/-- The variables of the loop of `integrate_rk4`. -/
structure Rk4State (K : Type*) (M : ℕ) where
  t1 : K
  y1 : Fin M → K

section Model

variable {K : Type*} {M N : ℕ} [Field K] [LinearOrder K]

/-- The condition of the loop. -/
def Rk4State.Before (tf : K) (s : Rk4State K M) : Prop := s.t1 < tf

instance (tf : K) : DecidablePred (Rk4State.Before tf : Rk4State K M → Prop) :=
  fun s => inferInstanceAs (Decidable (s.t1 < tf))

/-- The length of the step. -/
def Rk4State.stepSize (tf h0 : K) (s : Rk4State K M) : K :=
  if s.t1 + h0 < tf then h0 else tf - s.t1

/-- The body of the loop. -/
def Rk4State.step (f : K → (Fin M → K) → (Fin N → K) → Fin M → K) (u : Fin N → K) (tf h0 : K)
    (s : Rk4State K M) : Rk4State K M :=
  let h := s.stepSize tf h0
  let k1 := f s.t1 s.y1 u
  let k2 := f (s.t1 + h / 2) (s.y1 + vecDivScalar (vecMulScalar k1 h) 2) u
  let k3 := f (s.t1 + h / 2) (s.y1 + vecDivScalar (vecMulScalar k2 h) 2) u
  let k4 := f (s.t1 + h) (s.y1 + vecMulScalar k3 h) u
  { t1 := s.t1 + h
    y1 := s.y1 +
      vecMulScalar (k1 + vecMulScalar k2 2 + vecMulScalar k3 2 + k4) (h / 6) }

/-- `integrate_rk4` with at most `fuel` rounds of its loop: the code that it returns and the value
that it leaves in `y1`. -/
def integrateRk4 (fuel : ℕ) (f : K → (Fin M → K) → (Fin N → K) → Fin M → K) (y0 : Fin M → K)
    (u : Fin N → K) (t0 tf h0 : K) : Option (ℤ × (Fin M → K)) :=
  if tf < t0 then some (-1, y0)
  else
    (whileLoop (Rk4State.Before tf) (Rk4State.step f u tf h0) fuel ⟨t0, y0⟩).map fun s =>
      (0, s.y1)

end Model

/-! ### One round -/

section Round

variable {K : Type*} {M N : ℕ} [Field K] [LinearOrder K]
  {f : K → (Fin M → K) → (Fin N → K) → Fin M → K} {u : Fin N → K} {tf h0 : K} {s : Rk4State K M}

/-- A round is a step of the method. -/
lemma Rk4State.step_y1 (s : Rk4State K M) :
    (s.step f u tf h0).y1 =
      s.y1 + rungeKutta (fun t y => f t y u) s.t1 s.y1 (s.stepSize tf h0) := by
  have hsmul : ∀ (a : Fin M → K) (r : K), vecMulScalar a r = r • a := fun a r =>
    funext fun i => mul_comm _ _
  have hhalf : ∀ (a : Fin M → K) (r : K), vecDivScalar (r • a) 2 = (r / 2) • a := fun a r => by
    rw [vecDivScalar, hsmul, smul_smul, one_div_mul_eq_div]
  simp only [step, rungeKutta, hsmul, hhalf]

lemma Rk4State.step_t1 (s : Rk4State K M) :
    (s.step f u tf h0).t1 = s.t1 + s.stepSize tf h0 := rfl

variable [IsStrictOrderedRing K]

/-- A step of a positive length ends at the final time at the latest. -/
lemma Rk4State.stepSize_mem (hh : 0 < h0) (hs : s.Before tf) :
    0 < s.stepSize tf h0 ∧ s.stepSize tf h0 ≤ h0 ∧ s.t1 + s.stepSize tf h0 ≤ tf := by
  have hlt : s.t1 < tf := hs
  rw [stepSize]
  split_ifs with hfull
  · exact ⟨hh, le_rfl, hfull.le⟩
  · refine ⟨sub_pos.2 hlt, ?_, (add_sub_cancel _ _).le⟩
    linarith

end Round

/-! ### The loop -/

section Loop

variable {K : Type*} {M N : ℕ} [Field K] [LinearOrder K] [IsStrictOrderedRing K] [Archimedean K]
  {t0 tf h0 : K}

/-- With a positive step the loop ends, at the final time. -/
lemma exists_endsAfter_step (hh : 0 < h0) (ht : t0 ≤ tf)
    (f : K → (Fin M → K) → (Fin N → K) → Fin M → K) (y0 : Fin M → K) (u : Fin N → K) :
    ∃ k, EndsAfter (Rk4State.Before tf) (Rk4State.step f u tf h0) ⟨t0, y0⟩ k ∧
      ((Rk4State.step f u tf h0)^[k] ⟨t0, y0⟩).t1 = tf := by
  have hend : ∃ k, EndsAfter (Rk4State.Before tf) (Rk4State.step f u tf h0) ⟨t0, y0⟩ k := by
    refine exists_endsAfter_of_sub (fun _ => True) (fun s => tf - s.t1) hh trivial ?_ ?_
    · exact fun s _ hs => sub_pos.2 hs
    · intro s _ _
      refine ⟨trivial, fun hnext => ?_⟩
      -- a shortened step ends at the final time
      have hfull : s.stepSize tf h0 = h0 := by
        by_contra hne
        rw [Rk4State.Before, Rk4State.step_t1, Rk4State.stepSize] at hnext
        rw [Rk4State.stepSize] at hne
        split_ifs at hnext hne with hlt
        · exact hne rfl
        · exact absurd (add_sub_cancel s.t1 tf) hnext.ne
      rw [Rk4State.step_t1, hfull]
      linarith
  obtain ⟨k, hk⟩ := hend
  refine ⟨k, hk, le_antisymm ?_ (not_lt.1 hk.done)⟩
  exact hk.invariant (fun s => s.t1 ≤ tf) ht (fun s _ hs => (s.stepSize_mem hh hs).2.2) le_rfl

omit [Archimedean K] in
/-- A step that does not go forwards never reaches the final time. -/
lemma forall_before_of_nonpos (hh : h0 ≤ 0) (ht : t0 < tf)
    (f : K → (Fin M → K) → (Fin N → K) → Fin M → K) (y0 : Fin M → K) (u : Fin N → K) (k : ℕ) :
    Rk4State.Before tf ((Rk4State.step f u tf h0)^[k] ⟨t0, y0⟩) := by
  induction k with
  | zero => exact ht
  | succ k ih =>
    have hlt : ((Rk4State.step f u tf h0)^[k] ⟨t0, y0⟩).t1 + h0 < tf :=
      (add_le_of_nonpos_right hh).trans_lt ih
    rw [Function.iterate_succ_apply', Rk4State.Before, Rk4State.step_t1, Rk4State.stepSize,
      if_pos hlt]
    exact hlt

/-- The loop has a result with enough rounds if the step is positive or there is nothing to
integrate. -/
lemma exists_integrateRk4_iff (ht : t0 ≤ tf) (f : K → (Fin M → K) → (Fin N → K) → Fin M → K)
    (y0 : Fin M → K) (u : Fin N → K) :
    (∃ fuel r, integrateRk4 fuel f y0 u t0 tf h0 = some r) ↔ 0 < h0 ∨ t0 = tf := by
  constructor
  · rintro ⟨fuel, r, hr⟩
    rw [integrateRk4, if_neg ht.not_gt, Option.map_eq_some_iff] at hr
    obtain ⟨s, hs, -⟩ := hr
    obtain ⟨k, -, hends, -⟩ := whileLoop_eq_some_iff.1 hs
    by_contra hnot
    rw [not_or, not_lt] at hnot
    exact hends.done (forall_before_of_nonpos hnot.1 (ht.lt_of_ne hnot.2) f y0 u k)
  · rintro (hh | rfl)
    · obtain ⟨k, hk, -⟩ := exists_endsAfter_step hh ht f y0 u
      refine ⟨k, (0, ((Rk4State.step f u tf h0)^[k] ⟨t0, y0⟩).y1), ?_⟩
      rw [integrateRk4, if_neg ht.not_gt, hk.whileLoop_eq le_rfl, Option.map_some]
    · have hdone : ¬ Rk4State.Before t0 (⟨t0, y0⟩ : Rk4State K M) := lt_irrefl t0
      refine ⟨0, (0, y0), ?_⟩
      rw [integrateRk4, if_neg (lt_irrefl t0), whileLoop, if_neg hdone, Option.map_some]

end Loop

/-- The loop of `integrate_rk4` ends if and only if the step is positive or there is nothing to
integrate. -/
theorem integrateRk4_ends_iff {K : Type*} {M N : ℕ} [Field K] [LinearOrder K]
    [IsStrictOrderedRing K] [Archimedean K] {t0 tf : K} (ht : t0 ≤ tf) (h0 : K)
    (f : K → (Fin M → K) → (Fin N → K) → Fin M → K) (y0 : Fin M → K) (u : Fin N → K) :
    (∃ fuel r, integrateRk4 fuel f y0 u t0 tf h0 = some r) ↔ 0 < h0 ∨ t0 = tf :=
  exists_integrateRk4_iff ht f y0 u

/-- A step backwards. -/
theorem integrateRk4_ends_iff_rat :
    (∃ fuel r, integrateRk4 fuel (fun _ (y : Fin 1 → ℚ) (_ : Fin 1 → ℚ) => y) ![1] ![0] 0 1 (-1) =
      some r) ↔ (0 : ℚ) < -1 ∨ (0 : ℚ) = 1 :=
  integrateRk4_ends_iff zero_le_one (-1) _ ![1] ![0]

/-- The step zero, with which the time stands still. -/
theorem integrateRk4_step_zero :
    ¬ ∀ (t0 tf h0 : ℚ) (f : ℚ → (Fin 1 → ℚ) → (Fin 1 → ℚ) → Fin 1 → ℚ) (y0 u : Fin 1 → ℚ),
      ¬ tf < t0 → ∃ fuel r, integrateRk4 fuel f y0 u t0 tf h0 = some r := by
  intro h
  have hends := h 0 1 0 (fun _ y _ => y) ![1] ![0] (by norm_num)
  rw [exists_integrateRk4_iff zero_le_one] at hends
  norm_num at hends

/-! ### The order of the method -/

section Order

variable {M N : ℕ} {f : ℝ → (Fin M → ℝ) → (Fin N → ℝ) → Fin M → ℝ} {u : Fin N → ℝ}
  {tf h0 : ℝ} {s : Rk4State ℝ M}

/-- The lengths of the steps add up to the time that passed. -/
lemma sum_stepSize (s : Rk4State ℝ M) (k : ℕ) :
    ∑ i ∈ Finset.range k, ((Rk4State.step f u tf h0)^[i] s).stepSize tf h0 =
      ((Rk4State.step f u tf h0)^[k] s).t1 - s.t1 := by
  induction k with
  | zero => rw [Finset.sum_range_zero, Function.iterate_zero_apply, sub_self]
  | succ k ih =>
    rw [Finset.sum_range_succ, ih, Function.iterate_succ_apply', Rk4State.step_t1]
    ring

/-- The rounds integrate a cubic polynomial exactly. -/
lemma iterate_step_cubic {p : Fin M → ℝ[X]} (hp : ∀ j, (p j).natDegree ≤ 3)
    (hf : ∀ t y u, f t y u = fun j => (p j).eval t) (s : Rk4State ℝ M) (k : ℕ) (j : Fin M) :
    ((Rk4State.step f u tf h0)^[k] s).y1 j - s.y1 j =
      ∫ x in s.t1..((Rk4State.step f u tf h0)^[k] s).t1, (p j).eval x := by
  have hint : ∀ a b, IntervalIntegrable (fun x => (p j).eval x) MeasureTheory.volume a b :=
    fun a b => (p j).continuous.intervalIntegrable a b
  induction k with
  | zero => rw [Function.iterate_zero_apply, sub_self, intervalIntegral.integral_same]
  | succ k ih =>
    rw [Function.iterate_succ_apply', Rk4State.step_y1, Rk4State.step_t1,
      ← intervalIntegral.integral_add_adjacent_intervals (hint _ _) (hint _ _), ← ih,
      ← simpson_eq_integral (hp j)]
    simp only [hf, Pi.add_apply, rungeKutta_of_time]
    ring

/-- A round with a linear right side multiplies by the Taylor polynomial of its step. -/
lemma step_y1_linear {A : Matrix (Fin M) (Fin M) ℝ} (hf : ∀ t y u, f t y u = A.mulVec y)
    (s : Rk4State ℝ M) :
    (s.step f u tf h0).y1 = (expTaylor (K := ℝ) (s.stepSize tf h0 • A)).mulVec s.y1 := by
  have hright : (fun t y => f t y u) = fun _ => ⇑(Matrix.toLinAlgEquiv' A) := by
    funext t y
    rw [hf, Matrix.toLinAlgEquiv'_apply]
  rw [Rk4State.step_y1, hright, rungeKutta_linear, ← Matrix.toLinAlgEquiv'_apply,
    ← AlgEquiv.coe_toAlgHom, map_expTaylor, AlgEquiv.coe_toAlgHom, map_smul]

lemma iterate_step_linear {A : Matrix (Fin M) (Fin M) ℝ} (hf : ∀ t y u, f t y u = A.mulVec y)
    (s : Rk4State ℝ M) (k : ℕ) :
    ((Rk4State.step f u tf h0)^[k] s).y1 = (((List.range k).reverse.map fun i =>
      expTaylor (K := ℝ) (((Rk4State.step f u tf h0)^[i] s).stepSize tf h0 • A)).prod).mulVec
        s.y1 := by
  induction k with
  | zero => simp
  | succ k ih =>
    rw [Function.iterate_succ_apply', step_y1_linear hf, ih, List.range_succ, List.reverse_append,
      List.reverse_singleton, List.singleton_append, List.map_cons, List.prod_cons,
      Matrix.mulVec_mulVec]

end Order

/-- With a positive step the integration takes positive steps up to that length that add up to the
interval, is exact for right sides that are cubic polynomials of the time, and for linear right
sides multiplies by the Taylor polynomials of the exponential of the steps. -/
theorem integrateRk4_fourth_order {M N : ℕ} {t0 tf h0 : ℝ} (hh : 0 < h0) (ht : t0 ≤ tf)
    (f : ℝ → (Fin M → ℝ) → (Fin N → ℝ) → Fin M → ℝ) (y0 : Fin M → ℝ) (u : Fin N → ℝ) :
    ∃ (k : ℕ) (h : ℕ → ℝ) (y1 : Fin M → ℝ),
      EndsAfter (Rk4State.Before tf) (Rk4State.step f u tf h0) ⟨t0, y0⟩ k ∧
      (∀ i, h i = ((Rk4State.step f u tf h0)^[i] ⟨t0, y0⟩).stepSize tf h0) ∧
      (∀ fuel, k ≤ fuel → integrateRk4 fuel f y0 u t0 tf h0 = some (0, y1)) ∧
      (∀ i < k, 0 < h i ∧ h i ≤ h0) ∧
      ∑ i ∈ Finset.range k, h i = tf - t0 ∧
      (∀ p : Fin M → ℝ[X], (∀ j, (p j).natDegree ≤ 3) →
        (∀ t y u, f t y u = fun j => (p j).eval t) →
          ∀ j, y1 j - y0 j = ∫ x in t0..tf, (p j).eval x) ∧
      ∀ A : Matrix (Fin M) (Fin M) ℝ, (∀ t y u, f t y u = A.mulVec y) →
        y1 = (((List.range k).reverse.map fun i =>
          ∑ n ∈ Finset.range 5, (n.factorial : ℝ)⁻¹ • (h i • A) ^ n).prod).mulVec y0 := by
  obtain ⟨k, hk, htf⟩ := exists_endsAfter_step hh ht f y0 u
  refine ⟨k, fun i => ((Rk4State.step f u tf h0)^[i] ⟨t0, y0⟩).stepSize tf h0,
    ((Rk4State.step f u tf h0)^[k] ⟨t0, y0⟩).y1, hk, fun i => rfl, fun fuel hfuel => ?_,
    fun i hi => ?_, ?_, fun p hp hf j => ?_, fun A hA => ?_⟩
  · rw [integrateRk4, if_neg ht.not_gt, hk.whileLoop_eq hfuel, Option.map_some]
  · have hmem := Rk4State.stepSize_mem hh (hk.going i hi)
    exact ⟨hmem.1, hmem.2.1⟩
  · rw [sum_stepSize, htf]
  · rw [iterate_step_cubic hp hf ⟨t0, y0⟩ k j, htf]
  · exact iterate_step_linear hA ⟨t0, y0⟩ k

/-- The function `exp`, in two full steps and a shortened one. -/
theorem integrateRk4_fourth_order_exp :
    ∃ (k : ℕ) (h : ℕ → ℝ) (y1 : Fin 1 → ℝ),
      EndsAfter (Rk4State.Before 1)
        (Rk4State.step (fun _ y (_ : Fin 1 → ℝ) => y) ![0] 1 (2 / 5)) ⟨0, ![1]⟩ k ∧
      (∀ i, h i = ((Rk4State.step (fun _ y (_ : Fin 1 → ℝ) => y) ![0] 1 (2 / 5))^[i]
        ⟨0, ![1]⟩).stepSize 1 (2 / 5)) ∧
      (∀ fuel, k ≤ fuel →
        integrateRk4 fuel (fun _ y (_ : Fin 1 → ℝ) => y) ![1] ![0] 0 1 (2 / 5) = some (0, y1)) ∧
      (∀ i < k, 0 < h i ∧ h i ≤ 2 / 5) ∧
      ∑ i ∈ Finset.range k, h i = 1 - 0 ∧
      (∀ p : Fin 1 → ℝ[X], (∀ j, (p j).natDegree ≤ 3) →
        (∀ (t : ℝ) y (_ : Fin 1 → ℝ), y = fun j => (p j).eval t) →
          ∀ j, y1 j - ![1] j = ∫ x in (0)..1, (p j).eval x) ∧
      ∀ A : Matrix (Fin 1) (Fin 1) ℝ, (∀ (_ : ℝ) y (_ : Fin 1 → ℝ), y = A.mulVec y) →
        y1 = (((List.range k).reverse.map fun i =>
          ∑ n ∈ Finset.range 5, (n.factorial : ℝ)⁻¹ • (h i • A) ^ n).prod).mulVec ![1] :=
  integrateRk4_fourth_order (by norm_num) zero_le_one (fun _ y _ => y) ![1] ![0]

end RT1064.Mat
