import Mathlib.Data.Matrix.Mul
import RT1064.Core.Loop

/-!
# Substitution in triangular systems

Forward and back substitution that overwrite the right-hand side, on the leading `r` equations of
a system, and the equations that the result solves.
-/

namespace RT1064.Core

variable {K : Type*} [Field K] {n : ℕ}

/-- Subtract the known terms of the equation `i`, one after the other. -/
def subtractTerms (l : List (Fin n)) (T : Matrix (Fin n) (Fin n) K) (i : Fin n) (y : Fin n → K) :
    Fin n → K :=
  l.foldl (fun y j => Function.update y i (y i - T i j * y j)) y

/-- Forward substitution with a unit lower triangular matrix. -/
def forwardSubst (r : ℕ) (L : Matrix (Fin n) (Fin n) K) (y : Fin n → K) : Fin n → K :=
  (indices 0 r).foldl (fun y i => subtractTerms (indices 0 i.val) L i y) y

/-- One equation of the back substitution. -/
def solveRow (r : ℕ) (U : Matrix (Fin n) (Fin n) K) (y : Fin n → K) (i : Fin n) : Fin n → K :=
  let y := subtractTerms (indices (i.val + 1) r) U i y
  Function.update y i (y i / U i i)

/-- Back substitution with an upper triangular matrix. -/
def backSubst (r : ℕ) (U : Matrix (Fin n) (Fin n) K) (y : Fin n → K) : Fin n → K :=
  (indices 0 r).reverse.foldl (solveRow r U) y

/-- The terms that are subtracted do not change on the way. -/
lemma subtractTerms_eq {l : List (Fin n)} (T : Matrix (Fin n) (Fin n) K) {i : Fin n}
    (hi : i ∉ l) (y : Fin n → K) :
    subtractTerms l T i y = Function.update y i (y i - (l.map fun j => T i j * y j).sum) := by
  induction l generalizing y with
  | nil => simp [subtractTerms]
  | cons j l ih =>
    rw [List.mem_cons, not_or] at hi
    have hmap : (l.map fun k => T i k * Function.update y i (y i - T i j * y j) k) =
        l.map fun k => T i k * y k := by
      refine List.map_congr_left fun k hk => ?_
      rw [Function.update_of_ne]
      rintro rfl
      exact hi.2 hk
    rw [subtractTerms, List.foldl_cons]
    have hrec := ih hi.2 (Function.update y i (y i - T i j * y j))
    rw [subtractTerms, hmap, Function.update_self, Function.update_idem] at hrec
    rw [hrec, List.map_cons, List.sum_cons, sub_sub]

lemma subtractTerms_indices {lo hi : ℕ} (T : Matrix (Fin n) (Fin n) K) {i : Fin n}
    (h : i.val < lo ∨ hi ≤ i.val) (y : Fin n → K) :
    subtractTerms (indices lo hi) T i y =
      Function.update y i (y i - ∑ j with lo ≤ j.val ∧ j.val < hi, T i j * y j) := by
  rw [subtractTerms_eq T, sum_map_indices]
  rw [mem_indices]
  omega

/-- A sum only sees the entries it adds up. -/
lemma sum_mul_update_of_not_mem {s : Finset (Fin n)} {i : Fin n} (hi : i ∉ s) (t : Fin n → K)
    (y : Fin n → K) (v : K) :
    ∑ j ∈ s, t j * Function.update y i v j = ∑ j ∈ s, t j * y j := by
  refine Finset.sum_congr rfl fun j hj => ?_
  rw [Function.update_of_ne]
  rintro rfl
  exact hi hj

/-- After the forward substitution each equation holds with the known terms moved back. -/
lemma forwardSubst_spec {r : ℕ} (hr : r ≤ n) (L : Matrix (Fin n) (Fin n) K) (y : Fin n → K) :
    (∀ i : Fin n, i.val < r →
      ∑ j with j.val < i.val, L i j * forwardSubst r L y j + forwardSubst r L y i = y i) ∧
      ∀ i : Fin n, r ≤ i.val → forwardSubst r L y i = y i := by
  refine foldl_indices_induction (fun k (z : Fin n → K) => (∀ i : Fin n, i.val < k →
    ∑ j with j.val < i.val, L i j * z j + z i = y i) ∧
      ∀ i : Fin n, k ≤ i.val → z i = y i) (Nat.zero_le r) hr ?_ ?_
  · exact ⟨fun i hi => absurd hi (Nat.not_lt_zero _), fun i _ => rfl⟩
  · rintro i z _ _ ⟨solved, rest⟩
    rw [subtractTerms_indices L (.inr le_rfl)]
    simp only [Nat.zero_le, true_and]
    constructor
    · intro k hk
      rw [sum_mul_update_of_not_mem]
      · rcases Nat.lt_succ_iff_lt_or_eq.1 hk with h | h
        · rw [Function.update_of_ne (Fin.ne_of_lt h), solved k h]
        · obtain rfl := Fin.ext h
          rw [Function.update_self, add_sub_cancel, rest k le_rfl]
      · simp only [Finset.mem_filter, Finset.mem_univ, true_and, not_lt]
        exact Nat.lt_succ_iff.1 hk
    · intro k hk
      rw [Function.update_of_ne (Fin.ne_of_gt hk)]
      exact rest k (Nat.le_of_succ_le hk)

/-- After the back substitution each equation holds with the known terms moved back. -/
lemma backSubst_spec {r : ℕ} (hr : r ≤ n) {U : Matrix (Fin n) (Fin n) K}
    (hdiag : ∀ i : Fin n, i.val < r → U i i ≠ 0) (y : Fin n → K) :
    (∀ i : Fin n, i.val < r →
      ∑ j with i.val + 1 ≤ j.val ∧ j.val < r, U i j * backSubst r U y j +
        U i i * backSubst r U y i = y i) ∧
      ∀ i : Fin n, r ≤ i.val → backSubst r U y i = y i := by
  have inv := foldl_reverse_indices_induction (f := solveRow r U) (s := y) (fun k (z : Fin n → K) =>
    (∀ i : Fin n, k ≤ i.val → i.val < r →
      ∑ j with i.val + 1 ≤ j.val ∧ j.val < r, U i j * z j + U i i * z i = y i) ∧
      ∀ i : Fin n, i.val < k ∨ r ≤ i.val → z i = y i) (Nat.zero_le r) hr ?_ ?_
  · exact ⟨fun i => inv.1 i (Nat.zero_le _), fun i hi => inv.2 i (.inr hi)⟩
  · exact ⟨fun i h h' => absurd h' (not_lt.2 h), fun i _ => rfl⟩
  · rintro i z _ hir ⟨solved, rest⟩
    rw [solveRow, subtractTerms_indices U (.inl (Nat.lt_succ_self _)), Function.update_idem,
      Function.update_self]
    constructor
    · intro k hk hkr
      rw [sum_mul_update_of_not_mem]
      · rcases Nat.eq_or_lt_of_le hk with h | h
        · obtain rfl := Fin.ext h
          rw [Function.update_self, mul_div_cancel₀ _ (hdiag i hir), add_sub_cancel]
          exact rest i (.inl (Nat.lt_succ_self _))
        · rw [Function.update_of_ne (Fin.ne_of_gt h), solved k h hkr]
      · simp only [Finset.mem_filter, Finset.mem_univ, true_and, not_and, not_lt]
        intro hki
        omega
    · intro k hk
      have hne : k ≠ i := by
        rintro rfl
        omega
      rw [Function.update_of_ne hne]
      exact rest k (hk.imp_left Nat.lt_succ_of_lt)

/-- Forward substitution solves the unit lower triangular system. -/
lemma sum_mul_forwardSubst {r : ℕ} (hr : r ≤ n) {L : Matrix (Fin n) (Fin n) K}
    (hone : ∀ i, L i i = 1) (hlower : ∀ i j, i < j → L i j = 0) (y : Fin n → K) {i : Fin n}
    (hi : i.val < r) : ∑ j, L i j * forwardSubst r L y j = y i := by
  rw [← (forwardSubst_spec hr L y).1 i hi, ← Finset.sum_filter_add_sum_filter_not Finset.univ
    (fun j : Fin n => j.val < i.val)]
  congr 1
  rw [Finset.sum_eq_single i, hone, one_mul]
  · intro j hj hji
    simp only [Finset.mem_filter, Finset.mem_univ, true_and, not_lt] at hj
    have hij : i.val < j.val := lt_of_le_of_ne hj fun h => hji (Fin.ext h).symm
    rw [hlower i j hij, zero_mul]
  · intro hnot
    simp at hnot

/-- Back substitution solves the upper triangular system. -/
lemma sum_mul_backSubst {r : ℕ} (hr : r ≤ n) {U : Matrix (Fin n) (Fin n) K}
    (hdiag : ∀ i : Fin n, i.val < r → U i i ≠ 0)
    (hupper : ∀ i j : Fin n, j < i → i.val < r → U i j = 0) (y : Fin n → K) {i : Fin n}
    (hi : i.val < r) : ∑ j with j.val < r, U i j * backSubst r U y j = y i := by
  rw [← (backSubst_spec hr hdiag y).1 i hi, ← Finset.sum_filter_add_sum_filter_not
    (Finset.univ.filter fun j : Fin n => j.val < r) (fun j : Fin n => i.val + 1 ≤ j.val)]
  congr 1
  · rw [Finset.filter_filter]
    refine Finset.sum_congr ?_ fun _ _ => rfl
    ext j
    simp [and_comm]
  · rw [Finset.sum_eq_single i]
    · intro j hj hji
      simp only [Finset.mem_filter, Finset.mem_univ, true_and] at hj
      have hlt : j.val < i.val := lt_of_le_of_ne (by omega) fun h => hji (Fin.ext h)
      rw [hupper i j hlt hi, zero_mul]
    · intro hnot
      simp [hi] at hnot

end RT1064.Core
