import RT1064.Mat.Basic

/-!
# Sparse vectors

A `SparseVector` stores the entries of a vector at a fixed list of indices, in the order of that
list. Each of its operations is related to the operation on the dense vector that the sparse one
stands for.
-/

namespace RT1064.Mat

open Core

variable {K : Type*} {M N Q : ℕ}

/-! ### The list of indices -/

/-- `SparseVector::duplicateIndices`. -/
def duplicateIndices (idxs : Fin N → ℕ) : Bool :=
  (indices 0 N).any fun (i : Fin N) => (indices 0 i).any fun (j : Fin N) => idxs i = idxs j

/-- `SparseVector::findMaxIndex`. -/
def findMaxIndex (idxs : Fin N → ℕ) : ℕ :=
  (indices 0 N).foldl (fun maxIndex i => if maxIndex < idxs i then idxs i else maxIndex) 0

/-- The template parameter `Idxs...` with the static assertions about it. -/
structure SparseIndices (M N : ℕ) where
  idxs : Fin N → ℕ
  no_duplicates : duplicateIndices idxs = false
  fewer : N < M
  nonempty : 0 < N
  max_lt : findMaxIndex idxs < M

/-- The assertion on duplicates says that the indices are distinct. -/
lemma duplicateIndices_eq_false_iff {idxs : Fin N → ℕ} :
    duplicateIndices idxs = false ↔ Function.Injective idxs := by
  simp only [duplicateIndices, List.any_eq_false, mem_indices, decide_eq_true_eq, not_exists,
    List.any_eq_true, not_and]
  constructor
  · intro h i j hij
    rcases lt_trichotomy i j with hlt | heq | hlt
    · exact absurd hij.symm (h j ⟨Nat.zero_le _, j.isLt⟩ i ⟨Nat.zero_le _, hlt⟩)
    · exact heq
    · exact absurd hij (h i ⟨Nat.zero_le _, i.isLt⟩ j ⟨Nat.zero_le _, hlt⟩)
  · intro h i _ j hj hij
    have hji : j.val < i.val := hj.2
    rw [h hij] at hji
    exact absurd hji (lt_irrefl _)

/-- The assertion on the largest index bounds all of them. -/
lemma findMaxIndex_lt_iff {idxs : Fin N → ℕ} (hM : 0 < M) :
    findMaxIndex idxs < M ↔ ∀ i, idxs i < M := by
  have hinv : (∀ i : Fin N, i.val < N → idxs i ≤ findMaxIndex idxs) ∧
      (findMaxIndex idxs = 0 ∨ ∃ i, findMaxIndex idxs = idxs i) := by
    refine foldl_indices_induction (fun k m => (∀ i : Fin N, i.val < k → idxs i ≤ m) ∧
      (m = 0 ∨ ∃ i, m = idxs i)) (Nat.zero_le N) le_rfl ?_ ?_
    · exact ⟨fun i hi => absurd hi (Nat.not_lt_zero _), .inl rfl⟩
    · rintro i m _ _ ⟨hle, hex⟩
      have hsplit : ∀ j : Fin N, j.val < i.val + 1 → j.val < i.val ∨ j = i := by
        intro j hj
        rcases Nat.lt_succ_iff_lt_or_eq.1 hj with h | h
        · exact .inl h
        · exact .inr (Fin.ext h)
      split_ifs with hlt
      · refine ⟨fun j hj => ?_, .inr ⟨i, rfl⟩⟩
        rcases hsplit j hj with h | rfl
        · exact (hle j h).trans hlt.le
        · exact le_rfl
      · refine ⟨fun j hj => ?_, hex⟩
        rcases hsplit j hj with h | rfl
        · exact hle j h
        · exact not_lt.1 hlt
  obtain ⟨hle, hex⟩ := hinv
  constructor
  · intro h i
    exact (hle i i.isLt).trans_lt h
  · intro h
    rcases hex with h0 | ⟨i, hi⟩
    · rwa [h0]
    · rw [hi]
      exact h i

namespace SparseIndices

/-- Any list of fewer than `M` distinct indices below `M` meets the assertions. -/
def ofDistinct (idxs : Fin N → ℕ) (hinj : Function.Injective idxs) (hlt : ∀ i, idxs i < M)
    (hN : 0 < N) (hNM : N < M) : SparseIndices M N where
  idxs := idxs
  no_duplicates := duplicateIndices_eq_false_iff.2 hinj
  fewer := hNM
  nonempty := hN
  max_lt := (findMaxIndex_lt_iff (hN.trans hNM)).2 hlt

/-- The index of the compressed entry `i`. -/
def index (I : SparseIndices M N) (i : Fin N) : Fin M :=
  ⟨I.idxs i, (findMaxIndex_lt_iff (I.nonempty.trans I.fewer)).1 I.max_lt i⟩

lemma index_injective (I : SparseIndices M N) : Function.Injective I.index := by
  intro i j h
  exact duplicateIndices_eq_false_iff.1 I.no_duplicates (congrArg Fin.val h)

end SparseIndices

/-! ### The operations -/

/-- The stored entries of a `SparseVector<Type, M, Idxs...>`. -/
structure SparseVector (K : Type*) {M N : ℕ} (I : SparseIndices M N) where
  data : Fin N → K

namespace SparseVector

variable [CommRing K] {I : SparseIndices M N}

/-- `SparseVector(const Vector &)`. -/
def ofVector (I : SparseIndices M N) (data : Fin M → K) : SparseVector K I :=
  ⟨fun i => data (I.index i)⟩

/-- `SparseVector::dot`. -/
def dot (x : SparseVector K I) (other : Fin M → K) : K :=
  (indices 0 N).foldl (fun accum i => accum + x.data i * other (I.index i)) 0

/-- `SparseVector::operator+` with a dense vector. -/
def add (x : SparseVector K I) (other : Fin M → K) : Fin M → K :=
  (indices 0 N).foldl
    (fun vec i => Function.update vec (I.index i) (vec (I.index i) + x.data i)) other

/-- `SparseVector::norm_squared`. -/
def normSquared (x : SparseVector K I) : K :=
  (indices 0 N).foldl (fun accum i => accum + x.data i * x.data i) 0

/-- `operator*` of a matrix with a sparse vector. -/
def mulLeft (mat : Matrix (Fin Q) (Fin M) K) (x : SparseVector K I) : Fin Q → K :=
  fun i => x.dot (mat.row i)

/-- `quadraticForm`. -/
def quadraticForm (A : Matrix (Fin M) (Fin M) K) (x : SparseVector K I) : K :=
  (indices 0 N).foldl (fun res i =>
    let tmp := (indices 0 N).foldl
      (fun tmp j => tmp + A (I.index i) (I.index j) * x.data j) 0
    res + x.data i * tmp) 0

/-! ### The dense vector -/

/-- The dense vector that a sparse one stands for: the stored entries at their indices and zero
elsewhere. -/
noncomputable def dense (x : SparseVector K I) : Fin M → K := Function.extend I.index x.data 0

@[simp] lemma dense_index (x : SparseVector K I) (i : Fin N) :
    x.dense (I.index i) = x.data i :=
  I.index_injective.extend_apply _ _ i

lemma dense_of_not_mem (x : SparseVector K I) {m : Fin M} (h : m ∉ Set.range I.index) :
    x.dense m = 0 :=
  Function.extend_apply' _ _ _ h

/-- A sum over the compressed entries is the sum over the dense vector. -/
lemma sum_data_mul (x : SparseVector K I) (f : Fin M → K) :
    ∑ i, x.data i * f (I.index i) = ∑ m, x.dense m * f m := by
  refine Fintype.sum_of_injective I.index I.index_injective _ _ ?_ ?_
  · intro m hm
    rw [x.dense_of_not_mem hm, zero_mul]
  · intro i
    rw [x.dense_index]

lemma dot_eq (x : SparseVector K I) (v : Fin M → K) : x.dot v = x.dense ⬝ᵥ v := by
  rw [dot, foldl_indices_add, zero_add, sum_data_mul]
  rfl

/-- The loop of `operator+` adds each stored entry once, at its own index. -/
lemma add_eq (x : SparseVector K I) (v : Fin M → K) : x.add v = x.dense + v := by
  funext m
  rw [Pi.add_apply, add]
  by_cases hm : m ∈ Set.range I.index
  · obtain ⟨i, rfl⟩ := hm
    have other : ∀ (u : Fin M → K), ∀ j ∈ (indices 0 N : List (Fin N)), j ≠ i →
        Function.update u (I.index j) (u (I.index j) + x.data j) (I.index i) = u (I.index i) := by
      intro u j _ hj
      exact Function.update_of_ne (fun h => hj (I.index_injective h).symm) _ _
    rw [dense_index, add_comm]
    refine foldl_once (fun u : Fin M → K => u (I.index i)) (fun u : Fin M → K => u (I.index i))
      (v := (· + x.data i)) (nodup_indices _ _) (by simp) other other ?_ v
    intro u
    exact Function.update_self _ _ _
  · rw [x.dense_of_not_mem hm, zero_add]
    refine foldl_frame (fun u : Fin M → K => u m) ?_ v
    intro u j _
    exact Function.update_of_ne (fun h => hm ⟨j, h.symm⟩) _ _

lemma normSquared_eq (x : SparseVector K I) : x.normSquared = x.dense ⬝ᵥ x.dense := by
  have h := x.sum_data_mul x.dense
  simp only [dense_index] at h
  rw [normSquared, foldl_indices_add, zero_add, h]
  rfl

lemma mulLeft_eq (B : Matrix (Fin Q) (Fin M) K) (x : SparseVector K I) :
    mulLeft B x = B.mulVec x.dense := by
  funext i
  rw [mulLeft, dot_eq, dotProduct_comm]
  rfl

lemma quadraticForm_eq (A : Matrix (Fin M) (Fin M) K) (x : SparseVector K I) :
    quadraticForm A x = x.dense ⬝ᵥ A.mulVec x.dense := by
  have inner : ∀ i : Fin N, (indices 0 N).foldl
      (fun tmp j => tmp + A (I.index i) (I.index j) * x.data j) 0 =
        A.mulVec x.dense (I.index i) := by
    intro i
    rw [foldl_indices_add, zero_add, Matrix.mulVec, dotProduct_comm, dotProduct,
      ← x.sum_data_mul]
    exact Finset.sum_congr rfl fun j _ => mul_comm _ _
  simp only [quadraticForm, inner]
  rw [foldl_indices_add, zero_add, sum_data_mul]
  rfl

/-- A vector put through `SparseVector` keeps the entries at the indices and no others. -/
lemma dense_ofVector (I : SparseIndices M N) (v : Fin M → K) :
    (∀ i, (ofVector I v).dense (I.index i) = v (I.index i)) ∧
      ∀ m ∉ Set.range I.index, (ofVector I v).dense m = 0 :=
  ⟨fun i => (ofVector I v).dense_index i, fun _ hm => (ofVector I v).dense_of_not_mem hm⟩

/-- Each operation of a sparse vector is the operation on its dense vector. -/
theorem refines_dense (I : SparseIndices M N) (x : SparseVector K I) (v : Fin M → K)
    (B : Matrix (Fin Q) (Fin M) K) (A : Matrix (Fin M) (Fin M) K) :
    x.dot v = x.dense ⬝ᵥ v ∧
      x.add v = x.dense + v ∧
      x.normSquared = x.dense ⬝ᵥ x.dense ∧
      mulLeft B x = B.mulVec x.dense ∧
      quadraticForm A x = x.dense ⬝ᵥ A.mulVec x.dense ∧
      (∀ i, (ofVector I v).dense (I.index i) = v (I.index i)) ∧
      ∀ m ∉ Set.range I.index, (ofVector I v).dense m = 0 :=
  ⟨x.dot_eq v, x.add_eq v, x.normSquared_eq, mulLeft_eq B x, quadraticForm_eq A x,
    (dense_ofVector I v).1, (dense_ofVector I v).2⟩

/-- The indices may come in any order. -/
def unordered : SparseIndices 3 2 :=
  .ofDistinct ![2, 0] (by decide) (by decide) (by decide) (by decide)

theorem refines_dense_unordered :
    (⟨![5, 7]⟩ : SparseVector ℤ unordered).dense ⬝ᵥ ![1, 2, 3] = 22 ∧
      (ofVector unordered (![1, 2, 3] : Fin 3 → ℤ)).dense 1 = 0 := by
  have hdense := refines_dense unordered ⟨![5, 7]⟩ (![1, 2, 3] : Fin 3 → ℤ)
    (0 : Matrix (Fin 1) (Fin 3) ℤ) 0
  obtain ⟨hdot, -, -, -, -, -, hzero⟩ := hdense
  exact ⟨hdot.symm.trans (by decide), hzero 1 (by decide)⟩

end SparseVector

end RT1064.Mat
