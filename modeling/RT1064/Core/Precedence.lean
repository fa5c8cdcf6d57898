import Mathlib.Data.List.Nodup

/-!
# Precedence in a list

Which of two elements comes first, in a list that elements are put into and taken from.
-/

namespace RT1064.Core

variable {α : Type*} {l l' : List α} {x y z : α}

/-- `x` stands before `y`. -/
def Precedes (l : List α) (x y : α) : Prop := [x, y].Sublist l

lemma precedes_or (hx : x ∈ l) (hy : y ∈ l) (hne : x ≠ y) : Precedes l x y ∨ Precedes l y x := by
  obtain ⟨l₁, l₂, rfl⟩ := List.append_of_mem hx
  rw [List.mem_append, List.mem_cons] at hy
  rcases hy with hy | rfl | hy
  · exact .inr ((List.singleton_sublist.2 hy).append (List.singleton_sublist.2 List.mem_cons_self))
  · exact absurd rfl hne
  · exact .inl (((List.singleton_sublist.2 hy).cons_cons x).trans (List.sublist_append_right l₁ _))

namespace Precedes

lemma mem_left (h : Precedes l x y) : x ∈ l := h.subset (by simp)

lemma mem_right (h : Precedes l x y) : y ∈ l := h.subset (by simp)

lemma mono (h : Precedes l x y) (hl : l.Sublist l') : Precedes l' x y := h.trans hl

/-- Of the first element, only the first case is possible. -/
lemma cons (h : Precedes (z :: l) x y) (hz : z ∉ l) :
    y ≠ z ∧ (x = z ∧ y ∈ l ∨ x ≠ z ∧ Precedes l x y) := by
  rcases List.sublist_cons_iff.1 h with hl | ⟨l₂, heq, hl⟩
  · have hl : Precedes l x y := hl
    exact ⟨fun hyz => hz (hyz ▸ hl.mem_right), .inr ⟨fun hxz => hz (hxz ▸ hl.mem_left), hl⟩⟩
  · obtain ⟨rfl, rfl⟩ := List.cons.inj heq
    have hy : y ∈ l := List.singleton_sublist.1 hl
    exact ⟨fun hyz => hz (hyz ▸ hy), .inl ⟨rfl, hy⟩⟩

lemma asymm (h : Precedes l x y) (hl : l.Nodup) : ¬ Precedes l y x := by
  induction l with
  | nil => exact fun _ => absurd h.mem_left List.not_mem_nil
  | cons z l ih =>
    intro h'
    obtain ⟨hz, hl⟩ := List.nodup_cons.1 hl
    obtain ⟨hyz, ⟨rfl, -⟩ | ⟨-, hxy⟩⟩ := h.cons hz
    · exact (h'.cons hz).1 rfl
    · obtain ⟨-, ⟨rfl, -⟩ | ⟨-, hyx⟩⟩ := h'.cons hz
      · exact hyz rfl
      · exact ih hxy hl hyx

/-- Elements that are taken out do not matter. -/
lemma of_sublist (h : Precedes l x y) (hsub : l'.Sublist l) (hl : l.Nodup) (hx : x ∈ l')
    (hy : y ∈ l') : Precedes l' x y := by
  have hne : x ≠ y := by
    rintro rfl
    exact h.asymm hl h
  exact (precedes_or hx hy hne).resolve_right fun hyx => h.asymm hl (hyx.mono hsub)

lemma head_ne (h : Precedes l x y) (hl : l.Nodup) : l.head? ≠ some y := by
  intro hhead
  obtain ⟨l', rfl⟩ := List.head?_eq_some_iff.1 hhead
  exact (h.cons (List.nodup_cons.1 hl).1).1 rfl

end Precedes

/-- In a sorted list, an element is put behind those that are not greater. -/
lemma precedes_insert {key : α → ℕ} (hsorted : l.Pairwise fun a b => key a ≤ key b) (hy : y ∈ l)
    (hle : key y ≤ key x) :
    Precedes (l.takeWhile (fun a => key a ≤ key x) ++ x :: l.dropWhile fun a => key a ≤ key x)
      y x := by
  have hmem : y ∈ l.takeWhile fun a => key a ≤ key x := by
    induction l with
    | nil => exact absurd hy List.not_mem_nil
    | cons z l ih =>
      obtain ⟨hz, hl⟩ := List.pairwise_cons.1 hsorted
      have hzx : key z ≤ key x := by
        rcases List.mem_cons.1 hy with rfl | hy
        · exact hle
        · exact Nat.le_trans (hz y hy) hle
      rw [List.takeWhile_cons_of_pos (by simpa using hzx)]
      rcases List.mem_cons.1 hy with rfl | hy
      · exact List.mem_cons_self
      · exact List.mem_cons_of_mem z (ih hl hy)
  exact (List.singleton_sublist.2 hmem).append (List.singleton_sublist.2 List.mem_cons_self)

end RT1064.Core
