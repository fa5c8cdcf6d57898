import Mathlib.Data.List.DropRight
import Mathlib.Data.List.Perm.Basic
import Mathlib.Tactic

/-!
# Ring of recent values

Each value is written to the cell after the previous one, and the cells are used in turn, `m` of
them. The ring holds the last `m` values, in some rotation.
-/

namespace RT1064.Core

variable {α : Type*}

/-- Cells, and the position of the last write. -/
@[ext] structure RecentRing (α : Type*) where
  head : ℕ
  cells : ℕ → α

namespace RecentRing

/-- Advance the head over `m` cells and write there. -/
def push (m : ℕ) (r : RecentRing α) (x : α) : RecentRing α where
  head := (r.head + 1) % m
  cells := Function.update r.cells ((r.head + 1) % m) x

@[simp] lemma cells_push (m : ℕ) (r : RecentRing α) (x : α) :
    (r.push m x).cells = Function.update r.cells ((r.head + 1) % m) x := rfl

/-- The ring after `xs` was written to `init`. -/
def pushAll (m : ℕ) (init : ℕ → α) (xs : List α) : RecentRing α :=
  xs.foldl (push m) ⟨0, init⟩

/-- The ring holds the values `recent`, the last one first, as far back as it reaches; the cells
from `m` on are those of `init`. -/
structure Holds (m : ℕ) (init : ℕ → α) (recent : List α) (r : RecentRing α) : Prop where
  head : r.head = recent.length % m
  cells : ∀ j < m, ∀ h : j < recent.length, r.cells ((recent.length - j) % m) = recent[j]
  rest : ∀ i, m ≤ i → r.cells i = init i

lemma holds_nil {m : ℕ} (init : ℕ → α) : Holds m init [] ⟨0, init⟩ where
  head := by simp
  cells j _ h := absurd h (Nat.not_lt_zero j)
  rest _ _ := rfl

/-- Fewer than `m` steps back is another cell. -/
lemma sub_mod_ne {m n j : ℕ} (hj : 0 < j) (hjm : j < m) (hjn : j ≤ n) : (n - j) % m ≠ n % m := by
  intro h
  have hdvd : m ∣ j := by
    have := (Nat.modEq_iff_dvd' (Nat.sub_le n j)).1 h
    rwa [Nat.sub_sub_self hjn] at this
  exact absurd (Nat.le_of_dvd hj hdvd) hjm.not_ge

/-- Writing a value makes it the most recent one. -/
lemma Holds.push {m : ℕ} (hm : 0 < m) {init : ℕ → α} {recent : List α} {r : RecentRing α}
    (h : Holds m init recent r) (x : α) : Holds m init (x :: recent) (r.push m x) := by
  have hhead : (r.head + 1) % m = (recent.length + 1) % m := by rw [h.head, Nat.mod_add_mod]
  constructor
  · exact hhead
  · intro j hj hlen
    rw [List.length_cons] at hlen
    cases j with
    | zero => simp [hhead]
    | succ j =>
      have hjr : j < recent.length := Nat.lt_of_succ_lt_succ hlen
      have hne := sub_mod_ne (n := recent.length + 1) j.succ_pos hj (by omega)
      rw [List.length_cons, cells_push, hhead, Function.update_of_ne hne,
        Nat.add_sub_add_right, h.cells j (by omega) hjr, List.getElem_cons_succ]
  · intro i hi
    have hne : i ≠ (recent.length + 1) % m := (lt_of_lt_of_le (Nat.mod_lt _ hm) hi).ne'
    rw [cells_push, hhead, Function.update_of_ne hne, h.rest i hi]

/-- The run lemma: the ring holds the values that were written, the last one first. -/
lemma holds_pushAll {m : ℕ} (hm : 0 < m) (init : ℕ → α) (xs : List α) :
    Holds m init xs.reverse (pushAll m init xs) := by
  induction xs using List.reverseRecOn with
  | nil => exact holds_nil init
  | append_singleton xs x ih =>
    rw [List.reverse_append, List.reverse_singleton, List.singleton_append, pushAll,
      List.foldl_concat]
    exact ih.push hm x

/-- A cell holds a value that was written, or what it held at first. -/
lemma cells_pushAll_mem (m : ℕ) (init : ℕ → α) (xs : List α) (i : ℕ) :
    (pushAll m init xs).cells i ∈ xs ∨ (pushAll m init xs).cells i = init i := by
  induction xs using List.reverseRecOn with
  | nil => exact Or.inr rfl
  | append_singleton xs x ih =>
    rw [pushAll, List.foldl_concat, ← pushAll, cells_push]
    rcases eq_or_ne i (((pushAll m init xs).head + 1) % m) with rfl | hne
    · simp
    · rw [Function.update_of_ne hne]
      exact ih.imp_left fun h => List.mem_append_left _ h

/-- Going back over `m` cells visits each of them once. -/
lemma perm_range_sub_mod {m n : ℕ} (hn : m ≤ n) :
    ((List.range m).map fun j => (n - j) % m).Perm (List.range m) := by
  have hnodup : ((List.range m).map fun j => (n - j) % m).Nodup := by
    refine (List.nodup_range).map_on ?_
    intro i hi j hj heq
    rw [List.mem_range] at hi hj
    by_contra hne
    wlog hlt : i < j generalizing i j
    · exact this j hj i hi heq.symm (Ne.symm hne) (lt_of_le_of_ne (not_lt.1 hlt) (Ne.symm hne))
    have hback : n - j = n - i - (j - i) := by omega
    rw [hback] at heq
    exact sub_mod_ne (by omega) (by omega) (by omega) heq.symm
  refine (hnodup.subperm ?_).perm_of_length_le (by simp)
  intro i hi
  obtain ⟨j, hj, rfl⟩ := List.mem_map.1 hi
  exact List.mem_range.2 (Nat.mod_lt _ ((Nat.zero_le j).trans_lt (List.mem_range.1 hj)))

/-- A ring that was filled holds the last `m` values in some order. -/
lemma perm_rtake {m : ℕ} (hm : 0 < m) (init : ℕ → α) {xs : List α} (hxs : m ≤ xs.length) :
    ((List.range m).map (pushAll m init xs).cells).Perm (xs.rtake m) := by
  have hholds := holds_pushAll hm init xs
  have hmap : ((List.range m).map fun j => (xs.length - j) % m).map (pushAll m init xs).cells =
      xs.reverse.take m := by
    apply List.ext_getElem
    · simp [hxs]
    · intro j hj hj'
      have hjm : j < m := by simpa using hj
      have hcell := hholds.cells j hjm (by simp; omega)
      simp only [List.length_reverse] at hcell
      simp [hcell]
  have hrange := ((perm_range_sub_mod hxs).map (pushAll m init xs).cells).symm
  rw [hmap] at hrange
  rw [List.rtake_eq_reverse_take_reverse]
  exact hrange.trans (List.reverse_perm _).symm

end RecentRing

end RT1064.Core
