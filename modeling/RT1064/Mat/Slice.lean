import RT1064.Mat.Basic

/-!
# Slices

A slice is a window on a matrix. Its bounds are what its constructor asserts, so that every entry
of the window is an entry of the matrix. A block is the square slice on the diagonal that the
operations on covariances work on.
-/

namespace RT1064.Mat

open Core

variable {K : Type*} {M N P Q Width : ℕ}

/-! ### Slices -/

/-- `SliceT`: `P` rows and `Q` columns of a matrix, from the row `x0` and the column `y0` on. -/
structure Slice (M N P Q : ℕ) where
  x0 : ℕ
  y0 : ℕ
  row_le : x0 + P ≤ M
  col_le : y0 + Q ≤ N

namespace Slice

/-- The row of the matrix that is the row `i` of the slice. -/
def row (s : Slice M N P Q) (i : Fin P) : Fin M :=
  ⟨s.x0 + i.val, lt_of_lt_of_le (Nat.add_lt_add_left i.isLt s.x0) s.row_le⟩

/-- The column of the matrix that is the column `j` of the slice. -/
def col (s : Slice M N P Q) (j : Fin Q) : Fin N :=
  ⟨s.y0 + j.val, lt_of_lt_of_le (Nat.add_lt_add_left j.isLt s.y0) s.col_le⟩

/-- The matrix that is copied from a slice. -/
def get (s : Slice M N P Q) (A : Matrix (Fin M) (Fin N) K) : Matrix (Fin P) (Fin Q) K :=
  fun i j => A (s.row i) (s.col j)

/-- `SliceT::operator=` with a matrix. -/
def assign (s : Slice M N P Q) (A : Matrix (Fin M) (Fin N) K) (other : Matrix (Fin P) (Fin Q) K) :
    Matrix (Fin M) (Fin N) K :=
  (indices 0 P).foldl (fun A i =>
    (indices 0 Q).foldl (fun A j => setEntry A (s.row i) (s.col j) (other i j)) A) A

/-- `SliceT::operator=` with a scalar. -/
def assignScalar (s : Slice M N P Q) (A : Matrix (Fin M) (Fin N) K) (other : K) :
    Matrix (Fin M) (Fin N) K :=
  s.assign A fun _ _ => other

/-- `SliceT::diag` of a square slice. -/
def diag (s : Slice M N P P) (A : Matrix (Fin M) (Fin N) K) : Fin P → K :=
  fun j => s.get A j j

lemma row_injective (s : Slice M N P Q) : Function.Injective s.row := by
  intro i j h
  exact Fin.ext (Nat.add_left_cancel (congrArg Fin.val h))

lemma col_injective (s : Slice M N P Q) : Function.Injective s.col := by
  intro i j h
  exact Fin.ext (Nat.add_left_cancel (congrArg Fin.val h))

lemma assign_entry (s : Slice M N P Q) (A : Matrix (Fin M) (Fin N) K)
    (other : Matrix (Fin P) (Fin Q) K) (i : Fin P) (j : Fin Q) :
    s.assign A other (s.row i) (s.col j) = other i j := by
  refine foldl_once (entry (s.row i) (s.col j)) (fun _ => other i j) (v := id)
    (nodup_indices 0 P) (i := i) (by simp) ?_ (fun _ _ _ _ => rfl) ?_ A
  · intro A i' _ hi'
    apply foldl_frame (entry (s.row i) (s.col j))
    intro A j' _
    exact setEntry_of_row_ne A (s.row_injective.ne hi'.symm) _ _ _
  · intro A
    refine foldl_once (entry (s.row i) (s.col j)) (fun _ => other i j) (v := id)
      (nodup_indices 0 Q) (i := j) (by simp) ?_ (fun _ _ _ _ => rfl) ?_ A
    · intro A j' _ hj'
      exact setEntry_of_col_ne A _ _ (s.col_injective.ne hj'.symm) _
    · intro A
      exact setEntry_self A _ _ _

lemma assign_of_row_ne (s : Slice M N P Q) (A : Matrix (Fin M) (Fin N) K)
    (other : Matrix (Fin P) (Fin Q) K) {i : Fin M} (h : ∀ k, i ≠ s.row k) (j : Fin N) :
    s.assign A other i j = A i j := by
  apply foldl_frame (entry i j)
  intro A i' _
  apply foldl_frame (entry i j)
  intro A j' _
  exact setEntry_of_row_ne A (h i') _ _ _

lemma assign_of_col_ne (s : Slice M N P Q) (A : Matrix (Fin M) (Fin N) K)
    (other : Matrix (Fin P) (Fin Q) K) (i : Fin M) {j : Fin N} (h : ∀ k, j ≠ s.col k) :
    s.assign A other i j = A i j := by
  apply foldl_frame (entry i j)
  intro A i' _
  apply foldl_frame (entry i j)
  intro A j' _
  exact setEntry_of_col_ne A _ _ (h j') _

end Slice

/-! ### Blocks on the diagonal -/

/-- The indices `first, …, first + Width - 1`, which the operations on a block assert to be indices
of the matrix. -/
structure Block (M Width : ℕ) where
  first : ℕ
  le : first + Width ≤ M

namespace Block

/-- The last two of three indices. -/
def lastTwo : Block 3 2 := ⟨1, le_rfl⟩

/-- The index of the matrix that is the index `k` of the block. -/
def index (b : Block M Width) (k : Fin Width) : Fin M :=
  ⟨b.first + k.val, lt_of_lt_of_le (Nat.add_lt_add_left k.isLt b.first) b.le⟩

/-- The index is in the range of the block. -/
def Mem (b : Block M Width) (i : Fin M) : Prop := b.first ≤ i.val ∧ i.val < b.first + Width

instance (b : Block M Width) (i : Fin M) : Decidable (b.Mem i) :=
  inferInstanceAs (Decidable (_ ∧ _))

/-- `slice<Width, Width>(first, first)`. -/
def square (b : Block M Width) : Slice M M Width Width :=
  ⟨b.first, b.first, b.le, b.le⟩

/-- `slice<Width, M>(first, 0)`. -/
def rows (b : Block M Width) : Slice M M Width M :=
  ⟨b.first, 0, b.le, (Nat.zero_add M).le⟩

/-- `slice<M, Width>(0, first)`. -/
def columns (b : Block M Width) : Slice M M M Width :=
  ⟨0, b.first, (Nat.zero_add M).le, b.le⟩

lemma index_injective (b : Block M Width) : Function.Injective b.index :=
  b.square.row_injective

lemma mem_index (b : Block M Width) (k : Fin Width) : b.Mem (b.index k) :=
  ⟨Nat.le_add_right _ _, Nat.add_lt_add_left k.isLt _⟩

lemma mem_range_index (b : Block M Width) (i : Fin M) : i ∈ Set.range b.index ↔ b.Mem i := by
  constructor
  · rintro ⟨k, rfl⟩
    exact b.mem_index k
  · rintro ⟨hle, hlt⟩
    refine ⟨⟨i.val - b.first, Nat.sub_lt_left_of_lt_add hle hlt⟩, ?_⟩
    exact Fin.ext (Nat.add_sub_of_le hle)

lemma ne_index (b : Block M Width) {i : Fin M} (h : ¬ b.Mem i) (k : Fin Width) :
    i ≠ b.index k := by
  rintro rfl
  exact h (b.mem_index k)

end Block

end RT1064.Mat
