import RT1064.Core.Elimination
import RT1064.Mat.Inverse
import RT1064.Mat.Slice

/-!
# When the inverse is found

The loop over the diagonal in `inv` is the elimination with the threshold `FLT_EPSILON` on the
leading block: what is left of the block after `n` rounds is a block of `U`.
-/

namespace RT1064.Mat

open Core

variable {K : Type*} [Field K] {M : ℕ}

/-! ### The block that is left -/

section Block

variable {d : ℕ} (b : Block M (d + 1))

/-- The block without its first row and column. -/
def Block.tail : Block M d := ⟨b.first + 1, by have := b.le; omega⟩

lemma Block.index_tail (j : Fin d) : b.tail.index j = b.index j.succ :=
  Fin.ext (Nat.add_right_comm b.first 1 j.val)

/-- The loops over the rows of the block below its first one. -/
lemma Block.indices_tail :
    (indices (b.first + 1) (b.first + (d + 1)) : List (Fin M)) =
      (indices 1 (d + 1) : List (Fin (d + 1))).map b.index :=
  (map_indices (fun _ => rfl) le_rfl).symm

/-- The elimination below the first entry of the block leaves the Schur complement. -/
lemma get_eliminateBelow (s : LU K M) :
    b.tail.square.get (eliminateBelow (b.first + (d + 1)) (b.index 0) s).U =
      schur (b.square.get s.U) := by
  have hle : ∀ j, (b.index 0).val ≤ (b.index j).val :=
    fun j => Nat.add_le_add_left (Nat.zero_le j.val) b.first
  have hlt : ∀ j, (b.index j).val < b.first + (d + 1) := fun j => (b.mem_index j).2
  have hbelow : ∀ j : Fin d, (b.index 0).val < (b.index j.succ).val :=
    fun j => Nat.add_lt_add_left (Nat.succ_pos j.val) b.first
  ext i j
  show (eliminateBelow (b.first + (d + 1)) (b.index 0) s).U (b.tail.index i) (b.tail.index j) = _
  rw [b.index_tail, b.index_tail, eliminateBelow_U, if_pos ⟨hle _, hlt _⟩, multiplier,
    if_pos ⟨hbelow i, hlt _⟩]
  rfl

end Block

/-! ### The loop over the diagonal -/

section Run

variable [LinearOrder K] {d : ℕ} (b : Block M (d + 1)) {s : LU K M}

/-- The search for a row to swap with, seen from the block. -/
lemma find_row :
    ((indices ((b.index 0).val + 1) (b.first + (d + 1))).find? fun i =>
        (FLT_EPSILON : K) < |s.U i (b.index 0)|) =
      ((indices 1 (d + 1)).find? fun i => (FLT_EPSILON : K) < |b.square.get s.U i 0|).map
        b.index := by
  show (List.find? _ (indices (b.first + 1) _)) = _
  rw [b.indices_tail, List.find?_map]
  rfl

/-- The pivoting, seen from the block. -/
lemma pivot_block :
    pivot (b.first + (d + 1)) s (b.index 0) =
      if |b.square.get s.U 0 0| < FLT_EPSILON then
        match (indices 1 (d + 1)).find? fun i =>
          (FLT_EPSILON : K) < |b.square.get s.U i 0| with
        | some p => swapAll s (b.index p) (b.index 0)
        | none => s
      else s := by
  rw [pivot, find_row]
  cases (indices 1 (d + 1)).find? fun i => (FLT_EPSILON : K) < |b.square.get s.U i 0| with
  | none => rfl
  | some p => rfl

omit [Field K] [LinearOrder K] in
/-- Swapping rows of `U` swaps rows of the block. -/
lemma get_swapAll (p : Fin (d + 1)) :
    b.square.get (swapAll s (b.index p) (b.index 0)).U =
      (b.square.get s.U).submatrix (Equiv.swap p 0) id := by
  ext i j
  show (swapAll s _ _).U (b.index i) (b.index j) = s.U (b.index (Equiv.swap p 0 i)) (b.index j)
  rw [swapAll_U, b.index_injective.map_swap]

lemma get_pivot {p : Fin (d + 1)} (h : pivotRow FLT_EPSILON (b.square.get s.U) = some p) :
    b.square.get (pivot (b.first + (d + 1)) s (b.index 0)).U =
        (b.square.get s.U).submatrix (Equiv.swap p 0) id ∧
      FLT_EPSILON ≤ |b.square.get s.U p 0| := by
  rw [pivotRow] at h
  rw [pivot_block]
  by_cases hsmall : |b.square.get s.U 0 0| < FLT_EPSILON
  · rw [if_pos hsmall] at h
    have hlt := List.find?_some h
    rw [if_pos hsmall, h]
    exact ⟨get_swapAll b p, (of_decide_eq_true hlt).le⟩
  · rw [if_neg hsmall] at h ⊢
    obtain rfl := Option.some.inj h
    rw [Equiv.swap_self]
    exact ⟨rfl, not_lt.1 hsmall⟩

lemma pivot_of_none (h : pivotRow FLT_EPSILON (b.square.get s.U) = none) :
    |(pivot (b.first + (d + 1)) s (b.index 0)).U (b.index 0) (b.index 0)| < FLT_EPSILON := by
  rw [pivotRow] at h
  by_cases hsmall : |b.square.get s.U 0 0| < FLT_EPSILON
  · rw [if_pos hsmall] at h
    rw [pivot_block, if_pos hsmall, h]
    exact hsmall
  · rw [if_neg hsmall] at h
    exact absurd h (Option.some_ne_none _)

lemma factorStep_of_some {p : Fin (d + 1)}
    (h : pivotRow FLT_EPSILON (b.square.get s.U) = some p) :
    ∃ t, factorStep (b.first + (d + 1)) s (b.index 0) = some t ∧
      b.tail.square.get t.U = schur ((b.square.get s.U).submatrix (Equiv.swap p 0) id) := by
  obtain ⟨hget, hle⟩ := get_pivot b h
  have hcorner : (pivot (b.first + (d + 1)) s (b.index 0)).U (b.index 0) (b.index 0) =
      b.square.get s.U p 0 := by
    have hentry := congrFun (congrFun hget 0) 0
    rw [Matrix.submatrix_apply, Equiv.swap_apply_right] at hentry
    exact hentry
  refine ⟨eliminateBelow (b.first + (d + 1)) (b.index 0) (pivot (b.first + (d + 1)) s (b.index 0)),
    ?_, ?_⟩
  · simp only [factorStep, hcorner, if_neg (not_lt.2 hle)]
  · rw [get_eliminateBelow, hget]

lemma factorStep_of_none (h : pivotRow FLT_EPSILON (b.square.get s.U) = none) :
    factorStep (b.first + (d + 1)) s (b.index 0) = none := by
  simp only [factorStep, if_pos (pivot_of_none b h)]

end Run

/-- The loop runs to its end if and only if the elimination of the block that is left does. -/
lemma isSome_foldlM_factorStep [LinearOrder K] {d : ℕ} (b : Block M d) (s : LU K M) :
    ((indices b.first (b.first + d)).foldlM (factorStep (b.first + d)) s).isSome = true ↔
      Eliminates FLT_EPSILON (b.square.get s.U) := by
  induction d generalizing s with
  | zero =>
    rw [add_zero, indices_of_le le_rfl]
    exact iff_of_true rfl trivial
  | succ d ih =>
    have hfirst : (indices b.first (b.first + (d + 1)) : List (Fin M)) =
        b.index 0 :: indices b.tail.first (b.first + (d + 1)) :=
      indices_cons (b.index 0) (b.mem_index 0).2
    rw [hfirst, List.foldlM_cons]
    cases hp : pivotRow FLT_EPSILON (b.square.get s.U) with
    | none =>
      rw [factorStep_of_none b hp]
      exact iff_of_false Bool.false_ne_true (not_eliminates_of_pivotRow hp)
    | some p =>
      obtain ⟨t, ht, hget⟩ := factorStep_of_some b hp
      have hrank : b.first + (d + 1) = b.tail.first + d := Nat.add_right_comm b.first d 1
      have htail := ih b.tail t
      rw [← hrank, hget] at htail
      rw [ht, eliminates_of_pivotRow hp]
      exact htail

/-! ### The inverse -/

section Inverse

variable [LinearOrder K] {rank : ℕ}

lemma isSome_factor_iff (hr : rank ≤ M) (A : Matrix (Fin M) (Fin M) K) :
    (factor A rank).isSome = true ↔ Eliminates FLT_EPSILON (lead hr A) := by
  have hrank : 0 + rank = rank := Nat.zero_add rank
  have hblock := isSome_foldlM_factorStep (⟨0, hrank.le.trans hr⟩ : Block M rank)
    { L := 1, U := A, P := 1 }
  have hlead : (⟨0, hrank.le.trans hr⟩ : Block M rank).square.get A = lead hr A := by
    ext i j
    exact congrArg₂ A (Fin.ext (Nat.zero_add _)) (Fin.ext (Nat.zero_add _))
  rw [hlead] at hblock
  simp only [hrank] at hblock
  exact hblock

/-- `inv` succeeds if and only if the elimination of the leading block finds its pivots. -/
theorem inv_succeeds_iff (hr : rank ≤ M) (A X : Matrix (Fin M) (Fin M) K) :
    (inv A X rank).1 = true ↔ Eliminates FLT_EPSILON (lead hr A) := by
  rw [← isSome_factor_iff hr]
  cases h : factor A rank with
  | none =>
    rw [inv_of_factor_eq_none h]
    rfl
  | some s =>
    rw [inv_of_factor_eq_some h]
    rfl

end Inverse

end RT1064.Mat
