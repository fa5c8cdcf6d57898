import Mathlib.Logic.Equiv.Fin.Basic
import RT1064.Core.CopyLoop
import RT1064.Mat.Slice

/-!
# Copies of slices

A slice is copied out to an array, in the order of the rows or of the columns, and in to another
slice of the same matrix.
-/

namespace RT1064.Mat

open Core

variable {K : Type*} {M N P Q : ℕ}

/-! ### The copies -/

/-- `Matrix::copyTo`: the assignments to the array, in order. -/
def copyTo (A : Matrix (Fin M) (Fin N) K) : List (ℕ × K) :=
  (indices 0 M).flatMap fun i => (indices 0 N).map fun j => (N * i.val + j.val, A i j)

/-- `Matrix::copyToColumnMajor`. -/
def copyToColumnMajor (A : Matrix (Fin M) (Fin N) K) : List (ℕ × K) :=
  (indices 0 M).flatMap fun i => (indices 0 N).map fun j => (i.val + j.val * M, A i j)

/-- An array after assignments. -/
def store (dst : ℕ → K) (writes : List (ℕ × K)) : ℕ → K :=
  writes.foldl (fun dst w => Function.update dst w.1 w.2) dst

namespace Slice

/-- `SliceT::copyTo`, with the width of the matrix that the slice is of. -/
def copyTo (s : Slice M N P Q) (A : Matrix (Fin M) (Fin N) K) : List (ℕ × K) :=
  (indices 0 P).flatMap fun i =>
    (indices 0 Q).map fun j => (i.val * N + j.val, A (s.row i) (s.col j))

/-- `SliceT::copyToColumnMajor`, with the height of the matrix that the slice is of. -/
def copyToColumnMajor (s : Slice M N P Q) (A : Matrix (Fin M) (Fin N) K) : List (ℕ × K) :=
  (indices 0 P).flatMap fun i =>
    (indices 0 Q).map fun j => (i.val + j.val * M, A (s.row i) (s.col j))

/-- `SliceT::operator=` with a slice of the same matrix. -/
def assignSlice (s other : Slice M N P Q) (A : Matrix (Fin M) (Fin N) K) :
    Matrix (Fin M) (Fin N) K :=
  (indices 0 P).foldl (fun A i =>
    (indices 0 Q).foldl (fun A j =>
      setEntry A (s.row i) (s.col j) (A (other.row i) (other.col j))) A) A

end Slice

/-! ### Copying out -/

section CopyOut

/-- The assignments of two nested loops to the places `f`. -/
def writesAt (f : Fin P → Fin Q → ℕ) (B : Matrix (Fin P) (Fin Q) K) : List (ℕ × K) :=
  (indices 0 P).flatMap fun i => (indices 0 Q).map fun j => (f i j, B i j)

lemma map_fst_writesAt (f : Fin P → Fin Q → ℕ) (B : Matrix (Fin P) (Fin Q) K) :
    (writesAt f B).map Prod.fst = (grid P Q).map fun p => f p.1 p.2 := by
  simp only [writesAt, grid, List.map_flatMap, List.map_map, Function.comp_def]

/-- Every place of an array is assigned once, and the array holds what other assignments leave. -/
structure CopiesOut (size : ℕ) (writes reference : List (ℕ × K)) : Prop where
  once : (writes.map Prod.fst).Perm (List.range size)
  result : ∀ dst, store dst writes = store dst reference

lemma perm_range_of_equiv {size : ℕ} (e : Fin P × Fin Q ≃ Fin size) :
    ((grid P Q).map fun p => (e p).val).Perm (List.range size) := by
  have hnodup : ((grid P Q).map fun p => (e p).val).Nodup :=
    nodup_grid.map fun p q h => e.injective (Fin.ext h)
  rw [List.perm_ext_iff_of_nodup hnodup List.nodup_range]
  intro k
  rw [List.mem_map, List.mem_range]
  constructor
  · rintro ⟨p, _, rfl⟩
    exact (e p).isLt
  · intro hk
    refine ⟨e.symm ⟨k, hk⟩, mem_grid _, ?_⟩
    rw [e.apply_symm_apply]

/-- A matrix is copied to every place of an array of its size. -/
lemma once_copyTo (B : Matrix (Fin P) (Fin Q) K) :
    ((copyTo B).map Prod.fst).Perm (List.range (P * Q)) := by
  have hmap : (copyTo B).map Prod.fst = (grid P Q).map fun p => (finProdFinEquiv p).val := by
    refine (map_fst_writesAt (fun i j => Q * i.val + j.val) B).trans (List.map_congr_left ?_)
    intro p _
    exact Nat.add_comm _ _
  rw [hmap]
  exact perm_range_of_equiv finProdFinEquiv

lemma once_copyToColumnMajor (B : Matrix (Fin P) (Fin Q) K) :
    ((copyToColumnMajor B).map Prod.fst).Perm (List.range (P * Q)) := by
  have hmap : (copyToColumnMajor B).map Prod.fst =
      (grid P Q).map fun p => (((Equiv.prodComm _ _).trans finProdFinEquiv) p).val := by
    refine (map_fst_writesAt (fun i j => i.val + j.val * P) B).trans (List.map_congr_left ?_)
    intro p _
    exact congrArg (p.1.val + ·) (Nat.mul_comm _ _)
  rw [hmap, Nat.mul_comm P]
  exact perm_range_of_equiv _

/-- Assignments past the end of the array are not among the assignments to its places. -/
lemma not_copiesOut {f : Fin P → Fin Q → ℕ} {B : Matrix (Fin P) (Fin Q) K} {size : ℕ}
    {reference : List (ℕ × K)} {i : Fin P} {j : Fin Q} (h : size ≤ f i j) :
    ¬ CopiesOut size (writesAt f B) reference := by
  rintro ⟨honce, _⟩
  rw [map_fst_writesAt] at honce
  have hmem : f i j ∈ (grid P Q).map fun p => f p.1 p.2 :=
    List.mem_map_of_mem (f := fun p : Fin P × Fin Q => f p.1 p.2) (mem_grid (i, j))
  exact absurd (List.mem_range.1 (honce.mem_iff.1 hmem)) (not_lt.2 h)

/-- The last place of a slice in an array that is as wide as a wider matrix. -/
lemma mul_le_last {height width stride : ℕ} (hheight : 1 < height) (hwidth : 0 < width)
    (hstride : width < stride) : height * width ≤ (height - 1) * stride + (width - 1) := by
  obtain ⟨h, rfl⟩ := Nat.exists_eq_add_of_lt hheight
  obtain ⟨w, rfl⟩ := Nat.exists_eq_add_of_lt hwidth
  have hmul : (h + 1) * (w + 2) ≤ (h + 1) * stride :=
    Nat.mul_le_mul_left _ (by omega)
  have hlast : (1 + h + 1 - 1) * stride = (h + 1) * stride := by
    rw [Nat.add_sub_cancel, Nat.add_comm]
  rw [hlast]
  calc (1 + h + 1) * (0 + w + 1) ≤ (h + 1) * (w + 2) + w := by ring_nf; omega
    _ ≤ (h + 1) * stride + w := Nat.add_le_add_right hmul w
    _ = (h + 1) * stride + (0 + w + 1 - 1) := by rw [Nat.add_sub_cancel, Nat.zero_add]

namespace Slice

variable (s : Slice M N P Q) (A : Matrix (Fin M) (Fin N) K)

lemma copyTo_eq (h : P ≤ 1 ∨ Q = 0 ∨ Q = N) : s.copyTo A = Mat.copyTo (s.get A) := by
  have hplace : ∀ (i : Fin P) (j : Fin Q), i.val * N + j.val = Q * i.val + j.val := by
    intro i j
    rcases h with hP | hQ | hQ
    · have hi : i.val = 0 := by omega
      rw [hi, Nat.zero_mul, Nat.mul_zero]
    · exact absurd j.isLt (by omega)
    · rw [← hQ, Nat.mul_comm]
  simp only [copyTo, Mat.copyTo, hplace]
  rfl

lemma copyToColumnMajor_eq (h : Q ≤ 1 ∨ P = 0 ∨ P = M) :
    s.copyToColumnMajor A = Mat.copyToColumnMajor (s.get A) := by
  have hplace : ∀ (i : Fin P) (j : Fin Q), i.val + j.val * M = i.val + j.val * P := by
    intro i j
    rcases h with hQ | hP | hP
    · have hj : j.val = 0 := by omega
      rw [hj, Nat.zero_mul, Nat.zero_mul]
    · exact absurd i.isLt (by omega)
    · rw [← hP]
  simp only [copyToColumnMajor, Mat.copyToColumnMajor, hplace]
  rfl

/-- A slice is copied out like the matrix that it holds if and only if it is as wide as the matrix
that it is of, or as high for the copy in the order of the columns, or if there is one row or one
column only. -/
theorem copyTo_copiesOut_iff :
    (CopiesOut (P * Q) (s.copyTo A) (Mat.copyTo (s.get A)) ↔ P ≤ 1 ∨ Q = 0 ∨ Q = N) ∧
      (CopiesOut (P * Q) (s.copyToColumnMajor A) (Mat.copyToColumnMajor (s.get A)) ↔
        Q ≤ 1 ∨ P = 0 ∨ P = M) := by
  have hrows := s.row_le
  have hcols := s.col_le
  constructor
  · constructor
    · intro h
      by_contra hnot
      have hP : 1 < P := by omega
      have hQ : 0 < Q := by omega
      refine not_copiesOut (f := fun i j => i.val * N + j.val) (B := s.get A)
        (i := ⟨P - 1, by omega⟩) (j := ⟨Q - 1, by omega⟩) ?_ h
      exact mul_le_last hP hQ (by omega)
    · intro h
      rw [s.copyTo_eq A h]
      exact ⟨once_copyTo _, fun _ => rfl⟩
  · constructor
    · intro h
      by_contra hnot
      have hQ : 1 < Q := by omega
      have hP : 0 < P := by omega
      refine not_copiesOut (f := fun i j => i.val + j.val * M) (B := s.get A)
        (i := ⟨P - 1, by omega⟩) (j := ⟨Q - 1, by omega⟩) ?_ h
      dsimp only
      rw [Nat.mul_comm P, Nat.add_comm]
      exact mul_le_last hQ hP (by omega)
    · intro h
      rw [s.copyToColumnMajor_eq A h]
      exact ⟨once_copyToColumnMajor _, fun _ => rfl⟩

/-- The first two rows and columns of three. -/
def corner : Slice 3 3 2 2 := ⟨0, 0, by decide, by decide⟩

/-- The last entry of a slice of two rows and two columns is written to the fifth place. -/
theorem not_copiesOut_corner :
    ¬ CopiesOut 4 (corner.copyTo !![1, 2, 3; 4, 5, 6; 7, 8, 9])
      (Mat.copyTo (corner.get !![(1 : ℚ), 2, 3; 4, 5, 6; 7, 8, 9])) :=
  not_copiesOut (f := fun i j => i.val * 3 + j.val) (i := 1) (j := 1) le_rfl

end Slice

end CopyOut

/-! ### Copying in -/

namespace Slice

/-- The cell of the matrix that is a cell of the slice. -/
def cell (s : Slice M N P Q) (p : Fin P × Fin Q) : Fin M × Fin N := (s.row p.1, s.col p.2)

lemma cell_injective (s : Slice M N P Q) : Function.Injective s.cell := by
  intro p q h
  obtain ⟨hrow, hcol⟩ := Prod.ext_iff.1 h
  exact Prod.ext (s.row_injective hrow) (s.col_injective hcol)

/-- The slice `dst` after it was assigned the slice `src` of the same matrix `A`: it has the old
values of `src`, and the rest of the matrix is unchanged. -/
structure HasValues (dst src : Slice M N P Q) (A : Matrix (Fin M) (Fin N) K) : Prop where
  inside : ∀ i j, dst.assignSlice src A (dst.row i) (dst.col j) = A (src.row i) (src.col j)
  outside : ∀ i j, (∀ p, (i, j) ≠ dst.cell p) → dst.assignSlice src A i j = A i j

variable (dst src : Slice M N P Q) (A : Matrix (Fin M) (Fin N) K)

lemma uncurry_setEntry (i : Fin M) (j : Fin N) (v : K) :
    Function.uncurry (setEntry A i j v) = Function.update (Function.uncurry A) (i, j) v := by
  ext p
  rcases eq_or_ne p (i, j) with rfl | hp
  · rw [Function.update_self]
    exact setEntry_self A i j v
  · rw [Function.update_of_ne hp]
    exact if_neg fun h => hp (Prod.ext h.1 h.2)

/-- The assignment is a loop that copies cells of the matrix. -/
lemma uncurry_assignSlice : Function.uncurry (dst.assignSlice src A) =
    copyLoop dst.cell src.cell (grid P Q) (Function.uncurry A) := by
  rw [assignSlice, foldl_grid]
  refine (List.foldl_hom (Function.uncurry : Matrix (Fin M) (Fin N) K → Fin M × Fin N → K) ?_).symm
  intro A p
  exact (uncurry_setEntry A _ _ _).symm

lemma assignSlice_apply (i : Fin M) (j : Fin N) : dst.assignSlice src A i j =
    copyLoop dst.cell src.cell (grid P Q) (Function.uncurry A) (i, j) := by
  rw [← uncurry_assignSlice]
  rfl

lemma assignSlice_outside (i : Fin M) (j : Fin N) (h : ∀ p, (i, j) ≠ dst.cell p) :
    dst.assignSlice src A i j = A i j := by
  rw [assignSlice_apply]
  exact copyLoop_of_ne fun p _ => h p

variable {dst src A}

/-- What is read after it was overwritten has the value that it was overwritten with. -/
lemma hasValues_iff : HasValues dst src A ↔
    ∀ p q, Before p q → dst.cell p = src.cell q →
      A (src.row p.1) (src.col p.2) = A (src.row q.1) (src.col q.2) := by
  have hloop : (∀ p ∈ grid P Q, copyLoop dst.cell src.cell (grid P Q) (Function.uncurry A)
      (dst.cell p) = Function.uncurry A (src.cell p)) ↔ _ :=
    copyLoop_eq_iff (nodup_grid.map dst.cell_injective)
  rw [pairwise_iff_of_sorted (fun p q => Before.asymm) pairwise_grid] at hloop
  constructor
  · intro h p q
    refine hloop.1 (fun p _ => ?_) p (mem_grid p) q (mem_grid q)
    exact (assignSlice_apply dst src A _ _).symm.trans (h.inside p.1 p.2)
  · intro h
    refine ⟨fun i j => ?_, assignSlice_outside dst src A⟩
    rw [assignSlice_apply]
    exact hloop.2 (fun p _ q _ => h p q) (i, j) (mem_grid (i, j))

lemma assign_of_not_cell (B : Matrix (Fin P) (Fin Q) K) {i : Fin M} {j : Fin N}
    (h : ∀ p, (i, j) ≠ dst.cell p) : dst.assign A B i j = A i j := by
  by_cases hrow : ∃ k, i = dst.row k
  · obtain ⟨k, rfl⟩ := hrow
    apply assign_of_col_ne
    rintro l rfl
    exact h (k, l) rfl
  · exact dst.assign_of_row_ne A B (not_exists.1 hrow) j

/-- The assignment has the values that it has when the source is copied to a matrix first. -/
lemma hasValues_iff_eq_assign :
    HasValues dst src A ↔ dst.assignSlice src A = dst.assign A (src.get A) := by
  constructor
  · intro h
    ext i j
    by_cases hcell : ∃ p, (i, j) = dst.cell p
    · obtain ⟨p, hp⟩ := hcell
      obtain ⟨rfl, rfl⟩ := Prod.ext_iff.1 hp
      exact (h.inside p.1 p.2).trans (dst.assign_entry A (src.get A) p.1 p.2).symm
    · rw [not_exists] at hcell
      rw [h.outside i j hcell, assign_of_not_cell _ hcell]
  · intro h
    refine ⟨fun i j => ?_, assignSlice_outside dst src A⟩
    rw [h, assign_entry]
    rfl

variable (dst src) in
/-- The slices share no cell, or the destination does not begin after the source. -/
def ClearOf : Prop :=
  dst.x0 + P ≤ src.x0 ∨ src.x0 + P ≤ dst.x0 ∨ dst.y0 + Q ≤ src.y0 ∨ src.y0 + Q ≤ dst.y0 ∨
    dst.x0 < src.x0 ∨ dst.x0 = src.x0 ∧ dst.y0 ≤ src.y0

lemma cell_eq_iff {p q : Fin P × Fin Q} : dst.cell p = src.cell q ↔
    dst.x0 + p.1.val = src.x0 + q.1.val ∧ dst.y0 + p.2.val = src.y0 + q.2.val := by
  rw [Prod.ext_iff, Fin.ext_iff, Fin.ext_iff]
  rfl

/-- A cell that is overwritten before it is read is in both slices, and the destination begins
after the source. -/
lemma exists_before_iff :
    (∃ p q : Fin P × Fin Q, Before p q ∧ dst.cell p = src.cell q) ↔ ¬ ClearOf dst src := by
  simp only [cell_eq_iff, Before, ClearOf, Fin.lt_def, Fin.ext_iff]
  constructor
  · rintro ⟨p, q, hbefore, hrow, hcol⟩
    have hp := p.1.isLt
    have hq := q.1.isLt
    have hp' := p.2.isLt
    have hq' := q.2.isLt
    omega
  · intro h
    rcases le_total src.y0 dst.y0 with hy | hy
    · refine ⟨(⟨0, by omega⟩, ⟨0, by omega⟩),
        (⟨dst.x0 - src.x0, by omega⟩, ⟨dst.y0 - src.y0, by omega⟩), ?_⟩
      dsimp only
      omega
    · refine ⟨(⟨0, by omega⟩, ⟨src.y0 - dst.y0, by omega⟩),
        (⟨dst.x0 - src.x0, by omega⟩, ⟨0, by omega⟩), ?_⟩
      dsimp only
      omega

lemma forall_hasValues_iff [Nontrivial K] :
    (∀ A : Matrix (Fin M) (Fin N) K, HasValues dst src A) ↔ ClearOf dst src := by
  constructor
  · intro h
    by_contra hnot
    obtain ⟨p, q, hbefore, hcell⟩ := exists_before_iff.2 hnot
    obtain ⟨a, b, hab⟩ := exists_pair_ne K
    -- a matrix with one value in the cell that is written and another in the cell that is read
    have hne : src.cell q ≠ src.cell p := by
      intro heq
      obtain rfl := src.cell_injective heq
      exact hbefore.asymm hbefore
    have hentry := hasValues_iff.1 (h fun i j => if (i, j) = src.cell p then a else b) p q hbefore
      hcell
    exact hab (((if_pos rfl).symm.trans hentry).trans (if_neg hne))
  · intro h A
    refine hasValues_iff.2 fun p q hbefore hcell => ?_
    exact absurd h (exists_before_iff.1 ⟨p, q, hbefore, hcell⟩)

variable (dst src) in
/-- The assignment of a slice to a slice of the same matrix is that of its old values if and only if
each entry that is overwritten before it is read has the value that it is overwritten with. It is
so for every matrix if and only if the slices are disjoint or the destination does not begin after
the source. -/
theorem assignSlice_hasValues_iff [Nontrivial K] :
    (∀ A : Matrix (Fin M) (Fin N) K,
      (HasValues dst src A ↔ ∀ p q, Before p q → dst.cell p = src.cell q →
        A (src.row p.1) (src.col p.2) = A (src.row q.1) (src.col q.2)) ∧
      (HasValues dst src A ↔ dst.assignSlice src A = dst.assign A (src.get A))) ∧
    ((∀ A : Matrix (Fin M) (Fin N) K, HasValues dst src A) ↔ ClearOf dst src) :=
  ⟨fun _ => ⟨hasValues_iff, hasValues_iff_eq_assign⟩, forall_hasValues_iff⟩

/-- The first two entries of a row of three. -/
def firstTwo : Slice 1 3 1 2 := ⟨0, 0, le_rfl, by decide⟩

lemma lastTwo_le : 1 + 2 ≤ 3 := le_rfl

/-- The last two entries of a row of three. -/
def lastTwo : Slice 1 3 1 2 := ⟨0, 1, le_rfl, lastTwo_le⟩

theorem assignSlice_hasValues_iff_left :
    HasValues firstTwo lastTwo !![(1 : ℚ), 2, 3] := by
  refine ((assignSlice_hasValues_iff firstTwo lastTwo).2.2 ?_) !![(1 : ℚ), 2, 3]
  exact .inr (.inr (.inr (.inr (.inr ⟨rfl, Nat.zero_le _⟩))))

/-- A row that is moved to the right by one place has its first entry everywhere. -/
theorem not_hasValues_right : ¬ HasValues lastTwo firstTwo !![(1 : ℚ), 2, 3] := by
  intro h
  have hentry : lastTwo.assignSlice firstTwo !![(1 : ℚ), 2, 3] 0 2 = 2 := h.inside 0 1
  exact absurd hentry (by decide +kernel)

end Slice

end RT1064.Mat
