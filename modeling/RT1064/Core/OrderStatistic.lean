import Mathlib.Data.List.Sort
import Mathlib.Tactic

/-!
# Order statistics

The element of rank `k` of a list, counting from zero and with repetitions, and the place where a
sorted permutation of the list has it.
-/

namespace RT1064.Core

variable {α : Type*} [LinearOrder α]

/-- `x` is an element of rank `k` of `l`: it comes at place `k` when `l` is put in order. -/
structure IsRank (l : List α) (k : ℕ) (x : α) : Prop where
  mem : x ∈ l
  countP_lt : l.countP (· < x) ≤ k
  lt_countP : k < l.countP (· ≤ x)

lemma IsRank.perm {l l' : List α} {k : ℕ} {x : α} (h : IsRank l k x) (hp : l.Perm l') :
    IsRank l' k x where
  mem := hp.mem_iff.1 h.mem
  countP_lt := hp.countP_eq _ ▸ h.countP_lt
  lt_countP := hp.countP_eq _ ▸ h.lt_countP

/-- The elements before a place of a sorted list are at most, and those from it on at least, the
element there. -/
lemma isRank_getElem {l : List α} (hl : l.Pairwise (· ≤ ·)) {k : ℕ} (hk : k < l.length) :
    IsRank l k l[k] := by
  have hsplit : l = l.take k ++ l[k] :: l.drop (k + 1) := by simp
  rw [hsplit, List.pairwise_append, List.pairwise_cons] at hl
  obtain ⟨-, ⟨hge, -⟩, hle⟩ := hl
  constructor
  · exact List.getElem_mem hk
  · have hdrop : (l[k] :: l.drop (k + 1)).countP (· < l[k]) = 0 := by
      rw [List.countP_eq_zero]
      intro y hy
      rcases List.mem_cons.1 hy with rfl | hy
      · simp
      · simpa using hge y hy
    calc l.countP (· < l[k])
        = (l.take k).countP (· < l[k]) + (l[k] :: l.drop (k + 1)).countP (· < l[k]) := by
          rw [← List.countP_append, ← hsplit]
      _ ≤ k := by
          rw [hdrop, add_zero]
          exact List.countP_le_length.trans (List.length_take_le k l)
  · have htake : (l.take k).countP (· ≤ l[k]) = k := by
      rw [List.countP_eq_length.2, List.length_take_of_le hk.le]
      intro y hy
      simpa using hle y hy l[k] List.mem_cons_self
    have hdrop : 0 < (l[k] :: l.drop (k + 1)).countP (· ≤ l[k]) := by
      rw [List.countP_cons_of_pos (by simp)]
      exact Nat.succ_pos _
    have hsum : l.countP (· ≤ l[k]) =
        (l.take k).countP (· ≤ l[k]) + (l[k] :: l.drop (k + 1)).countP (· ≤ l[k]) := by
      rw [← List.countP_append, ← hsplit]
    omega

/-- In a list of `2 * k + 1` values `x` and `d`, the value `x` has rank `k` only where it has more
than `k` places. -/
lemma not_isRank_of_countP_le {l : List α} {k : ℕ} {x d : α} (hne : x ≠ d)
    (hmem : ∀ y ∈ l, y = x ∨ y = d) (hlen : l.length = 2 * k + 1)
    (hcount : l.countP (· = x) ≤ k) : ¬ IsRank l k x := by
  rintro ⟨-, hlt, hle⟩
  rcases lt_or_gt_of_ne hne with hxd | hdx
  · have hcongr : l.countP (· ≤ x) = l.countP (· = x) := by
      apply List.countP_congr
      intro y hy
      rcases hmem y hy with rfl | rfl
      · simp
      · simp [hxd, hne.symm]
    omega
  · have hcongr : l.countP (· < x) = l.countP (fun y => ¬ y = x) := by
      apply List.countP_congr
      intro y hy
      rcases hmem y hy with rfl | rfl
      · simp
      · simp [hdx, hne.symm]
    have hsum : l.length = l.countP (· = x) + l.countP (fun y => ¬ y = x) := by
      simpa using l.length_eq_countP_add_countP (· = x)
    omega

/-- Where all values are equal every element has every rank. -/
lemma isRank_of_subsingleton [Subsingleton α] {l : List α} {k : ℕ} (hk : k < l.length) (x : α) :
    IsRank l k x := by
  have hx : l[k] = x := Subsingleton.elim _ _
  have hsorted : l.Pairwise (· ≤ ·) :=
    List.pairwise_of_forall fun a b => (Subsingleton.elim a b).le
  rw [← hx]
  exact isRank_getElem hsorted hk

end RT1064.Core
