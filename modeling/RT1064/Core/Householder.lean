import Mathlib.LinearAlgebra.Matrix.NonsingularInverse
import Mathlib.Tactic

/-!
# Householder reflections

The reflection `1 - τ w wᵀ`, when it is orthogonal, and the choice of `w` and `τ` that takes a
vector to a multiple of a unit vector.
-/

namespace RT1064.Core

open Matrix

variable {m K : Type*} [DecidableEq m] [Field K]

/-- The reflection with the vector `w` and the factor `tau`. -/
def reflector (tau : K) (w : m → K) : Matrix m m K := 1 - tau • vecMulVec w w

lemma reflector_transpose (tau : K) (w : m → K) : (reflector tau w)ᵀ = reflector tau w := by
  rw [reflector, transpose_sub, transpose_one, transpose_smul, transpose_vecMulVec]

variable [Fintype m]

lemma reflector_mulVec (tau : K) (w y : m → K) (i : m) :
    (reflector tau w *ᵥ y) i = y i - tau * w i * (w ⬝ᵥ y) := by
  rw [reflector, sub_mulVec, one_mulVec, smul_mulVec, vecMulVec_mulVec, Pi.sub_apply,
    Pi.smul_apply, Pi.smul_apply]
  simp only [smul_eq_mul, MulOpposite.smul_eq_mul_unop, MulOpposite.unop_op]
  ring

lemma reflector_mulVec_of_dotProduct (tau : K) {w y : m → K} (h : w ⬝ᵥ y = 0) :
    reflector tau w *ᵥ y = y := by
  ext i
  rw [reflector_mulVec, h, mul_zero, sub_zero]

/-- A reflection is its own inverse if its factor is right for its vector. -/
lemma reflector_mul_self {tau : K} {w : m → K} (h : tau * (w ⬝ᵥ w) = 2) :
    reflector tau w * reflector tau w = 1 := by
  have hsq : tau • vecMulVec w w * tau • vecMulVec w w =
      tau • vecMulVec w w + tau • vecMulVec w w := by
    rw [smul_mul_smul_comm, vecMulVec_mul_vecMulVec, vecMulVec_smul, smul_smul, mul_assoc, h,
      mul_two, add_smul]
  rw [reflector, Matrix.sub_mul, Matrix.mul_sub, Matrix.mul_sub, Matrix.one_mul, Matrix.mul_one,
    Matrix.one_mul, hsq]
  abel

/-- A matrix that an orthogonal matrix takes to rows some of which are zero is orthogonal to a
vector that is taken to zero in the other places. -/
lemma transpose_mulVec_eq_zero {n : Type*} {Q : Matrix m m K} (hQ : Qᵀ * Q = 1)
    {A : Matrix m n K} {r : m → K} (h : ∀ i k, (Q * A) i k ≠ 0 → (Q *ᵥ r) i = 0) :
    Aᵀ *ᵥ r = 0 := by
  have hA : Aᵀ *ᵥ r = (Q * A)ᵀ *ᵥ (Q *ᵥ r) := by
    rw [transpose_mul, mulVec_mulVec, Matrix.mul_assoc, hQ, Matrix.mul_one]
  rw [hA]
  ext k
  refine Finset.sum_eq_zero fun i _ => ?_
  by_cases hik : (Q * A) i k = 0
  · exact mul_eq_zero_of_left hik _
  · rw [h i k hik, mul_zero]

/-! ### The reflection of a vector to an axis -/

/-- The vector of the reflection that takes `v` to a multiple of the unit vector `p`: it is `1` at
`p`, and `v` is divided by `u` elsewhere. -/
def householder (v : m → K) (p : m) (u : K) : m → K := fun i => if i = p then 1 else v i / u

section Householder

variable {v : m → K} {p : m} {s n u : K}

omit [Fintype m] in
lemma householder_self : householder v p u p = 1 := if_pos rfl

omit [Fintype m] in
lemma householder_of_ne {i : m} (h : i ≠ p) : householder v p u i = v i / u := if_neg h

/-- A sum of products with the vector of the reflection. -/
lemma householder_dotProduct (y : m → K) :
    householder v p u ⬝ᵥ y = y p + (∑ i ∈ Finset.univ.erase p, v i * y i) / u := by
  rw [dotProduct, ← Finset.add_sum_erase _ _ (Finset.mem_univ p), householder_self, one_mul,
    Finset.sum_div]
  congr 1
  refine Finset.sum_congr rfl fun i hi => ?_
  rw [householder_of_ne (Finset.ne_of_mem_erase hi), div_mul_eq_mul_div]

lemma sum_erase_sq (hn : n ^ 2 = v ⬝ᵥ v) :
    ∑ i ∈ Finset.univ.erase p, v i * v i = n ^ 2 - v p ^ 2 := by
  rw [hn, dotProduct, ← Finset.add_sum_erase _ _ (Finset.mem_univ p)]
  ring

lemma householder_dotProduct_self (hs : s ^ 2 = 1) (hu : u = v p - s * n) (hne : u ≠ 0)
    (hn : n ^ 2 = v ⬝ᵥ v) : householder v p u ⬝ᵥ householder v p u = -(2 * n * s) / u := by
  have hsum : ∑ i ∈ Finset.univ.erase p, v i * householder v p u i =
      (n ^ 2 - v p ^ 2) / u := by
    rw [← sum_erase_sq hn, Finset.sum_div]
    refine Finset.sum_congr rfl fun i hi => ?_
    rw [householder_of_ne (Finset.ne_of_mem_erase hi), mul_div_assoc]
  rw [householder_dotProduct, hsum, householder_self]
  field_simp
  rw [hu]
  linear_combination -n ^ 2 * hs

lemma householder_dotProduct_vector (hs : s ^ 2 = 1) (hu : u = v p - s * n) (hne : u ≠ 0)
    (hn : n ^ 2 = v ⬝ᵥ v) : householder v p u ⬝ᵥ v = -(s * n) := by
  rw [householder_dotProduct, sum_erase_sq hn]
  field_simp
  rw [hu]
  linear_combination -n ^ 2 * hs

/-- The factor that makes the reflection orthogonal. -/
lemma tau_mul_householder (hs : s ^ 2 = 1) (hu : u = v p - s * n) (hne : u ≠ 0) (hn0 : n ≠ 0)
    (hn : n ^ 2 = v ⬝ᵥ v) :
    -s * u / n * (householder v p u ⬝ᵥ householder v p u) = 2 := by
  rw [householder_dotProduct_self hs hu hne hn]
  field_simp
  rw [hs, one_mul]

/-- The vector goes to the axis `p`. -/
lemma reflector_householder (hs : s ^ 2 = 1) (hu : u = v p - s * n) (hne : u ≠ 0) (hn0 : n ≠ 0)
    (hn : n ^ 2 = v ⬝ᵥ v) (i : m) :
    (reflector (-s * u / n) (householder v p u) *ᵥ v) i = if i = p then s * n else 0 := by
  have hfactor : -s * u / n * (householder v p u ⬝ᵥ v) = u := by
    rw [householder_dotProduct_vector hs hu hne hn]
    field_simp
    linear_combination hs
  rw [reflector_mulVec, mul_right_comm, hfactor, householder]
  split_ifs with hi
  · rw [hi, hu]
    ring
  · rw [mul_div_cancel₀ _ hne, sub_self]

end Householder

end RT1064.Core
