import Mathlib.Data.Nat.Choose.Basic
import RT1064.Core.Loop

/-!
# Packing an upper triangle

A loop that fills an array from its beginning keeps a counter for the place that is next. The file
has what such a loop assigns, and the order in which two nested loops visit the upper right triangle
of a square: the place of a pair in that order has a closed form.
-/

namespace RT1064.Core

/-! ### Filling an array -/

/-- A loop that fills an array: the place that is next, and the assignments so far. -/
structure Filling (α : Type*) where
  idx : ℕ := 0
  writes : List (ℕ × α) := []

namespace Filling

variable {α : Type*}

/-- Assign a value to the place that is next. -/
def put (s : Filling α) (v : α) : Filling α where
  idx := s.idx + 1
  writes := s.writes ++ [(s.idx, v)]

/-- The values are numbered from the counter on. -/
lemma foldl_put (vs : List α) (s : Filling α) :
    vs.foldl put s = ⟨s.idx + vs.length, s.writes ++ (vs.zipIdx s.idx).map Prod.swap⟩ := by
  induction vs generalizing s with
  | nil =>
    rw [List.foldl_nil, List.zipIdx_nil, List.map_nil, List.append_nil, List.length_nil, add_zero]
  | cons v vs ih =>
    rw [List.foldl_cons, ih, put, List.zipIdx_cons, List.map_cons, List.append_assoc,
      List.singleton_append, List.length_cons, add_assoc, add_comm 1]
    rfl

/-- From the beginning, every place up to the number of values is assigned once, in order. -/
lemma places_foldl_put (vs : List α) :
    (vs.foldl put {}).writes.map Prod.fst = List.range vs.length := by
  rw [foldl_put, List.nil_append, List.map_map, List.range_eq_range']
  exact List.zipIdx_map_snd 0 vs

lemma mem_foldl_put {vs : List α} {k : ℕ} {v : α} :
    (k, v) ∈ (vs.foldl put {}).writes ↔ vs[k]? = some v := by
  rw [foldl_put, List.nil_append, List.mem_map, ← List.mk_mem_zipIdx_iff_getElem?]
  constructor
  · rintro ⟨⟨w, i⟩, hmem, hswap⟩
    cases hswap
    exact hmem
  · intro hmem
    exact ⟨(v, k), hmem, rfl⟩

end Filling

/-! ### The order of the triangle -/

variable {n : ℕ} {σ : Type*}

/-- The pairs of a row on the diagonal and to the right of it. -/
def triangleRow (x : Fin n) : List (Fin n × Fin n) := (indices x.val n).map (Prod.mk x)

/-- The pairs of the upper right triangle in the order in which two nested loops visit them. -/
def triangle (n : ℕ) : List (Fin n × Fin n) := (indices 0 n).flatMap triangleRow

/-- Two nested loops, of which the inner one begins at the diagonal, are one loop over the pairs. -/
lemma foldl_triangle (f : σ → Fin n → Fin n → σ) (s : σ) :
    (indices 0 n).foldl (fun s x => (indices x.val n).foldl (fun s y => f s x y) s) s =
      (triangle n).foldl (fun s p => f s p.1 p.2) s := by
  simp only [triangle, triangleRow, List.foldl_flatMap, List.foldl_map]

lemma mem_triangle {p : Fin n × Fin n} : p ∈ triangle n ↔ p.1 ≤ p.2 := by
  simp only [triangle, triangleRow, List.mem_flatMap, List.mem_map, mem_indices]
  constructor
  · rintro ⟨x, _, y, hy, rfl⟩
    exact hy.1
  · intro h
    exact ⟨p.1, ⟨Nat.zero_le _, p.1.isLt⟩, p.2, ⟨h, p.2.isLt⟩, rfl⟩

lemma nodup_triangle : (triangle n).Nodup := by
  rw [triangle, List.nodup_flatMap]
  constructor
  · intro x _
    exact (nodup_indices _ _).map (Prod.mk_right_injective x)
  · refine (pairwise_indices 0 n).imp fun {x x'} h p hp hp' => ?_
    obtain ⟨_, _, rfl⟩ := List.mem_map.1 hp
    obtain ⟨_, _, heq⟩ := List.mem_map.1 hp'
    exact h.ne (congrArg Prod.fst heq).symm

/-! ### The place of a pair -/

/-- The number of pairs in the rows before the row `x`. -/
def rowStart (n x : ℕ) : ℕ := x * n - x * (x - 1) / 2

lemma rowStart_succ {x : ℕ} (h : x ≤ n) : rowStart n (x + 1) = rowStart n x + (n - x) := by
  have htriangle := Nat.triangle_succ x
  have hle : x * (x - 1) / 2 ≤ x * n :=
    (Nat.div_le_self _ _).trans (Nat.mul_le_mul_left x ((Nat.sub_le x 1).trans h))
  rw [rowStart, rowStart, htriangle, Nat.succ_mul]
  omega

/-- The rows together have a triangular number of pairs. -/
lemma rowStart_self (n : ℕ) : rowStart n n = n * (n + 1) / 2 := by
  have hsucc : n * (n + 1) / 2 = n * (n - 1) / 2 + n := by
    rw [Nat.mul_comm, ← Nat.triangle_succ, Nat.add_sub_cancel]
  have heven : 2 * (n * (n - 1) / 2) = n * (n - 1) :=
    Nat.two_mul_div_two_of_even (Nat.even_mul_pred_self n)
  have hsquare : n * n = n * (n - 1) + n := by
    cases n with
    | zero => rfl
    | succ m => rw [Nat.add_sub_cancel, Nat.mul_succ]
  rw [rowStart, hsucc]
  omega

lemma length_rows {x : ℕ} (h : x ≤ n) :
    ((indices 0 x : List (Fin n)).flatMap triangleRow).length = rowStart n x := by
  induction x with
  | zero =>
    rw [indices_of_le le_rfl, List.flatMap_nil, List.length_nil, rowStart, Nat.zero_mul,
      Nat.zero_sub]
  | succ x ih =>
    have hx : x ≤ n := Nat.le_of_succ_le h
    rw [indices_succ ⟨x, h⟩ (Nat.zero_le _), List.flatMap_append, List.length_append, ih hx,
      List.flatMap_singleton, triangleRow, List.length_map, length_indices le_rfl,
      rowStart_succ hx]

lemma length_triangle (n : ℕ) : (triangle n).length = n * (n + 1) / 2 := by
  rw [triangle, length_rows le_rfl, rowStart_self]

/-- A pair comes after the rows before its own and the pairs before it in its row. -/
lemma getElem?_triangle {x y : Fin n} (h : x ≤ y) :
    (triangle n)[rowStart n x + (y - x)]? = some (x, y) := by
  have hrows : (triangle n) = (indices 0 x.val).flatMap triangleRow ++
      (triangleRow x ++ (indices (x.val + 1) n).flatMap triangleRow) := by
    rw [triangle, indices_split x (Nat.zero_le _) x.isLt, List.flatMap_append, List.flatMap_cons]
  have hrow : triangleRow x = (indices x.val y.val).map (Prod.mk x) ++
      (x, y) :: (indices (y.val + 1) n).map (Prod.mk x) := by
    rw [triangleRow, indices_split y h y.isLt, List.map_append, List.map_cons]
  have hlen : ((indices x.val y.val : List (Fin n)).map (Prod.mk x)).length = y.val - x.val := by
    rw [List.length_map, length_indices y.isLt.le]
  rw [hrows, List.getElem?_append_right, length_rows x.isLt.le, Nat.add_sub_cancel_left, hrow,
    List.append_assoc, List.getElem?_append_right hlen.le, hlen, Nat.sub_self]
  · rfl
  · rw [length_rows x.isLt.le]
    exact Nat.le_add_right _ _

lemma place_lt {x y : Fin n} (h : x ≤ y) : rowStart n x + (y - x) < n * (n + 1) / 2 := by
  rw [← length_triangle]
  exact (List.getElem?_eq_some_iff.1 (getElem?_triangle h)).1

/-- The place of a pair in the order of the triangle. -/
def place {x y : Fin n} (h : x ≤ y) : Fin (n * (n + 1) / 2) :=
  ⟨rowStart n x + (y - x), place_lt h⟩

/-- Every place is that of a pair. -/
lemma exists_place (k : Fin (n * (n + 1) / 2)) : ∃ (x y : Fin n) (h : x ≤ y), place h = k := by
  have hk : k.val < (triangle n).length := k.isLt.trans_eq (length_triangle n).symm
  have hle : (triangle n)[k.val].1 ≤ (triangle n)[k.val].2 := mem_triangle.1 (List.getElem_mem hk)
  refine ⟨_, _, hle, Fin.ext ?_⟩
  obtain ⟨hplace, hpair⟩ := List.getElem?_eq_some_iff.1 (getElem?_triangle hle)
  exact nodup_triangle.getElem_inj_iff.1 hpair

end RT1064.Core
