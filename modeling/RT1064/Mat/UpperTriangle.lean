import Mathlib.LinearAlgebra.Matrix.Symmetric
import RT1064.Core.Packing
import RT1064.Mat.SliceCopy

/-!
# Packed triangles

The upper right triangle of a square matrix, row by row in a vector. Symmetric matrices and vectors
of that length are the same.
-/

namespace RT1064.Mat

open Core

variable {K : Type*} {M : ℕ}

/-! ### Packing -/

/-- The loops of `SquareMatrix::upper_right_triangle`, with the assignments to `res`. -/
def triangleWrites (A : Matrix (Fin M) (Fin M) K) : Filling K :=
  (indices 0 M).foldl (fun s x => (indices x.val M).foldl (fun s y => s.put (A x y)) s) {}

/-- `SquareMatrix::upper_right_triangle`, whose vector begins with zeros. -/
def upperRightTriangle [Zero K] (A : Matrix (Fin M) (Fin M) K) : Fin (M * (M + 1) / 2) → K :=
  fun k => store (fun _ => 0) (triangleWrites A).writes k

/-- The symmetric matrix with a vector for its upper right triangle. -/
def symmetricOf (v : Fin (M * (M + 1) / 2) → K) : Matrix (Fin M) (Fin M) K :=
  fun i j => v (place (min_le_max : min i j ≤ max i j))

/-! ### The assignments -/

/-- A place that is assigned once keeps what it is assigned. -/
lemma store_of_mem {writes : List (ℕ × K)} (hnodup : (writes.map Prod.fst).Nodup) {k : ℕ} {v : K}
    (h : (k, v) ∈ writes) (dst : ℕ → K) : store dst writes k = v := by
  refine foldl_once (fun dst : ℕ → K => dst k) (fun _ => ()) (v := fun _ => v) hnodup.of_map h ?_
    (fun _ _ _ _ => rfl) ?_ dst
  · intro dst w hw hne
    exact Function.update_of_ne (fun heq => hne (List.inj_on_of_nodup_map hnodup hw h heq.symm)) _ _
  · intro dst
    exact Function.update_self _ _ _

/-- The loops put the entries of the triangle in its order. -/
lemma triangleWrites_eq (A : Matrix (Fin M) (Fin M) K) :
    triangleWrites A = ((triangle M).map fun p => A p.1 p.2).foldl Filling.put {} := by
  rw [triangleWrites, foldl_triangle (fun s x y => Filling.put s (A x y)), List.foldl_map]

/-- The counter runs through the places of the vector, one after the other. -/
lemma places_triangleWrites (A : Matrix (Fin M) (Fin M) K) :
    (triangleWrites A).writes.map Prod.fst = List.range (M * (M + 1) / 2) := by
  rw [triangleWrites_eq, Filling.places_foldl_put, List.length_map, length_triangle]

/-- The counter does not wrap if an `unsigned` can number the entries of the matrix. -/
lemma place_lt_unsigned (A : Matrix (Fin M) (Fin M) K) (hM : M * M < 2 ^ 32) :
    ∀ w ∈ (triangleWrites A).writes, w.1 < 2 ^ 32 := by
  intro w hw
  have hmem : w.1 ∈ (triangleWrites A).writes.map Prod.fst := List.mem_map_of_mem hw
  rw [places_triangleWrites, List.mem_range] at hmem
  have hsmall : M ≤ M * M := Nat.le_mul_self M
  rw [Nat.mul_succ] at hmem
  omega

/-! ### Unpacking -/

lemma isSymm_symmetricOf (v : Fin (M * (M + 1) / 2) → K) : (symmetricOf v).IsSymm := by
  ext i j
  simp only [Matrix.transpose_apply, symmetricOf, min_comm j i, max_comm j i]

lemma symmetricOf_of_le (v : Fin (M * (M + 1) / 2) → K) {x y : Fin M} (h : x ≤ y) :
    symmetricOf v x y = v (place h) := by
  simp only [symmetricOf, min_eq_left h, max_eq_right h]

variable [Zero K]

lemma upperRightTriangle_place (A : Matrix (Fin M) (Fin M) K) {x y : Fin M} (h : x ≤ y) :
    upperRightTriangle A (place h) = A x y := by
  refine store_of_mem ?_ ?_ _
  · rw [places_triangleWrites]
    exact List.nodup_range
  · rw [triangleWrites_eq, Filling.mem_foldl_put, List.getElem?_map]
    exact congrArg (Option.map _) (getElem?_triangle h)

/-- A symmetric matrix is unpacked from its triangle. -/
lemma symmetricOf_upperRightTriangle {A : Matrix (Fin M) (Fin M) K} (hA : A.IsSymm) :
    symmetricOf (upperRightTriangle A) = A := by
  ext i j
  rcases le_total i j with h | h
  · rw [symmetricOf_of_le _ h, upperRightTriangle_place A h]
  · rw [← (isSymm_symmetricOf _).apply i j, symmetricOf_of_le _ h, upperRightTriangle_place A h,
      hA.apply]

/-- A vector is the triangle of the matrix that is unpacked from it. -/
lemma upperRightTriangle_symmetricOf (v : Fin (M * (M + 1) / 2) → K) :
    upperRightTriangle (symmetricOf v) = v := by
  ext k
  obtain ⟨x, y, h, rfl⟩ := exists_place k
  rw [upperRightTriangle_place _ h, symmetricOf_of_le v h]

/-- Packing is one to one between symmetric matrices and vectors. -/
def triangleEquiv : {A : Matrix (Fin M) (Fin M) K // A.IsSymm} ≃ (Fin (M * (M + 1) / 2) → K) where
  toFun A := upperRightTriangle A.1
  invFun v := ⟨symmetricOf v, isSymm_symmetricOf v⟩
  left_inv A := Subtype.ext (symmetricOf_upperRightTriangle A.2)
  right_inv := upperRightTriangle_symmetricOf

/-- Every place of the vector is assigned once and no other, the entries on the diagonal and to the
right of it are found at their places, and a symmetric matrix is known from the vector. -/
theorem upperRightTriangle_packs (A : Matrix (Fin M) (Fin M) K) :
    ((triangleWrites A).writes.map Prod.fst).Perm (List.range (M * (M + 1) / 2)) ∧
    (∀ x y : Fin M, x ≤ y →
      ∃ h : x.val * M - x.val * (x.val - 1) / 2 + (y.val - x.val) < M * (M + 1) / 2,
        upperRightTriangle A ⟨_, h⟩ = A x y) ∧
    ∀ B : Matrix (Fin M) (Fin M) K, A.IsSymm → B.IsSymm →
      upperRightTriangle A = upperRightTriangle B → A = B := by
  refine ⟨.of_eq (places_triangleWrites A), fun x y h => ?_, fun B hA hB heq => ?_⟩
  · exact ⟨place_lt h, upperRightTriangle_place A h⟩
  · have hpacked : triangleEquiv ⟨A, hA⟩ = triangleEquiv ⟨B, hB⟩ := heq
    exact congrArg Subtype.val (triangleEquiv.injective hpacked)

/-- A matrix of three rows, with its entry in the second row and the third column. -/
theorem upperRightTriangle_packs_three :
    ((triangleWrites !![(1 : ℤ), 2, 3; 2, 4, 5; 3, 5, 6]).writes.map Prod.fst).Perm
      (List.range 6) ∧
    (∃ h : 4 < 6, upperRightTriangle !![(1 : ℤ), 2, 3; 2, 4, 5; 3, 5, 6] ⟨4, h⟩ = 5) ∧
    ∀ B : Matrix (Fin 3) (Fin 3) ℤ, B.IsSymm →
      upperRightTriangle !![(1 : ℤ), 2, 3; 2, 4, 5; 3, 5, 6] = upperRightTriangle B →
        !![(1 : ℤ), 2, 3; 2, 4, 5; 3, 5, 6] = B := by
  have hA : (!![(1 : ℤ), 2, 3; 2, 4, 5; 3, 5, 6]).IsSymm := by
    ext i j
    fin_cases i <;> fin_cases j <;> rfl
  obtain ⟨hplaces, hentries, hsymmetric⟩ :=
    upperRightTriangle_packs !![(1 : ℤ), 2, 3; 2, 4, 5; 3, 5, 6]
  exact ⟨hplaces, hentries 1 2 (by decide), fun B => hsymmetric B hA⟩

end RT1064.Mat
