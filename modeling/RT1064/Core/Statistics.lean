import Mathlib.Algebra.BigOperators.Field
import Mathlib.Tactic

/-!
# Batch statistics and their recurrences

The average of a quantity over a list of samples and the comoment of two quantities, with the
recurrences that let both be kept up to date one sample at a time.
-/

namespace RT1064.Core

variable {K α ι : Type*} [Field K]

/-- The average of `f` over the samples `l`. -/
def average (l : List α) (f : α → K) : K := (l.map f).sum / l.length

/-- The sum of the products of the deviations of `f` and `g` from their averages. -/
def comoment (l : List α) (f g : α → K) : K :=
  (l.map fun a => (f a - average l f) * (g a - average l g)).sum

/-- The sample covariance of `f` and `g`, with the divisor `n - 1`. -/
def sampleCovariance (l : List α) (f g : α → K) : K := comoment l f g / (l.length - 1)

lemma average_map {β : Type*} (l : List β) (h : β → α) (f : α → K) :
    average (l.map h) f = average l (f ∘ h) := by
  rw [average, average, List.map_map, List.length_map]

lemma comoment_map {β : Type*} (l : List β) (h : β → α) (f g : α → K) :
    comoment (l.map h) f g = comoment l (f ∘ h) (g ∘ h) := by
  rw [comoment, comoment, List.map_map, average_map, average_map]
  rfl

lemma comoment_comm (l : List α) (f g : α → K) : comoment l f g = comoment l g f := by
  simp only [comoment, mul_comm]

lemma sampleCovariance_comm (l : List α) (f g : α → K) :
    sampleCovariance l f g = sampleCovariance l g f := by
  rw [sampleCovariance, comoment_comm, sampleCovariance]

lemma sampleCovariance_map {β : Type*} (l : List β) (h : β → α) (f g : α → K) :
    sampleCovariance (l.map h) f g = sampleCovariance l (f ∘ h) (g ∘ h) := by
  rw [sampleCovariance, comoment_map, List.length_map, sampleCovariance]

@[simp] lemma average_singleton (a : α) (f : α → K) : average [a] f = f a := by simp [average]

@[simp] lemma comoment_singleton (a : α) (f g : α → K) : comoment [a] f g = 0 := by
  simp [comoment]

section CharZero

variable [CharZero K]

lemma length_mul_average (l : List α) (f : α → K) : l.length * average l f = (l.map f).sum := by
  rcases eq_or_ne l [] with rfl | hl
  · simp
  · rw [average, mul_div_cancel₀]
    simpa using hl

/-- The average after one more sample. -/
lemma average_concat (l : List α) (a : α) (f : α → K) :
    average (l ++ [a]) f = average l f + (f a - average l f) / (l.length + 1) := by
  have hn : (l.length + 1 : K) ≠ 0 := Nat.cast_add_one_ne_zero _
  have hsum := length_mul_average l f
  have hnew : average (l ++ [a]) f = ((l.map f).sum + f a) / (l.length + 1) := by
    simp [average]
  rw [hnew, ← hsum]
  field_simp
  ring

/-- The comoment through the sum of the products. -/
lemma comoment_eq (l : List α) (f g : α → K) :
    comoment l f g = (l.map fun a => f a * g a).sum - l.length * average l f * average l g := by
  have expand : ∀ a, (f a - average l f) * (g a - average l g) =
      f a * g a + (-average l g * f a + (-average l f * g a + average l f * average l g)) := by
    intro a
    ring
  have hf := length_mul_average l f
  simp only [comoment, expand, List.sum_map_add, List.sum_map_mul_left, List.map_const',
    List.sum_replicate, nsmul_eq_mul]
  rw [← length_mul_average l g, ← hf]
  ring

/-- The comoment after one more sample: one factor of the change deviates from the old average and
the other from the new one. -/
lemma comoment_concat (l : List α) (a : α) (f g : α → K) :
    comoment (l ++ [a]) f g =
      comoment l f g + (f a - average l f) * (g a - average (l ++ [a]) g) := by
  have hf := length_mul_average (l ++ [a]) f
  have hg := length_mul_average (l ++ [a]) g
  simp only [List.length_append, List.length_singleton, List.map_append, List.map_singleton,
    List.sum_append, List.sum_singleton, ← length_mul_average l] at hf hg
  push_cast at hf hg
  simp only [comoment_eq, List.length_append, List.length_singleton, List.map_append,
    List.map_singleton, List.sum_append, List.sum_singleton]
  push_cast
  linear_combination (-average (l ++ [a]) g) * hf - average l f * hg

end CharZero

section Combination

variable [Fintype ι]

lemma average_sum (l : List α) (f : ι → α → K) (v : ι → K) :
    average l (fun a => ∑ i, v i * f i a) = ∑ i, v i * average l (f i) := by
  simp only [average, ← mul_div_assoc, ← Finset.sum_div]
  congr 1
  induction l with
  | nil => simp
  | cons a l ih =>
    simp only [List.map_cons, List.sum_cons, mul_add, Finset.sum_add_distrib, ih]

lemma sum_mul_map_sum_mul (l : List α) (g : ι → α → K) (v : ι → K) :
    ∑ i, ∑ j, v i * (l.map fun a => g i a * g j a).sum * v j =
      (l.map fun a => (∑ i, v i * g i a) * ∑ j, v j * g j a).sum := by
  induction l with
  | nil => simp
  | cons a l ih =>
    simp only [List.map_cons, List.sum_cons, mul_add, add_mul, Finset.sum_add_distrib]
    rw [ih, Finset.sum_mul_sum]
    congr 1
    refine Finset.sum_congr rfl fun i _ => Finset.sum_congr rfl fun j _ => ?_
    ring

/-- The quadratic form of the comoments is the comoment of the combination with itself. -/
lemma sum_mul_comoment_mul (l : List α) (f : ι → α → K) (v : ι → K) :
    ∑ i, ∑ j, v i * comoment l (f i) (f j) * v j =
      comoment l (fun a => ∑ i, v i * f i a) (fun a => ∑ i, v i * f i a) := by
  have dev : ∀ a, (∑ i, v i * f i a) - average l (fun a => ∑ i, v i * f i a) =
      ∑ i, v i * (f i a - average l (f i)) := by
    intro a
    rw [average_sum, ← Finset.sum_sub_distrib]
    simp only [mul_sub]
  simp only [comoment, dev]
  exact sum_mul_map_sum_mul l (fun i a => f i a - average l (f i)) v

end Combination

section Order

variable [LinearOrder K] [IsStrictOrderedRing K]

lemma comoment_self_nonneg (l : List α) (f : α → K) : 0 ≤ comoment l f f := by
  refine List.sum_nonneg ?_
  simp only [List.mem_map, forall_exists_index, and_imp]
  rintro _ a _ rfl
  exact mul_self_nonneg _

/-- The comoments of any quantities form a positive semidefinite matrix. -/
lemma sum_mul_comoment_mul_nonneg [Fintype ι] (l : List α) (f : ι → α → K) (v : ι → K) :
    0 ≤ ∑ i, ∑ j, v i * comoment l (f i) (f j) * v j := by
  rw [sum_mul_comoment_mul]
  exact comoment_self_nonneg l _

end Order

end RT1064.Core
