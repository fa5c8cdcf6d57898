import Mathlib.Algebra.Order.Field.Basic
import Mathlib.Tactic

/-!
# Between the extremes of a list

`Within l y` says that `y` lies between the minimum and the maximum of `l`. A step from such a value
towards an element of the list, by a part of the way, stays within.
-/

namespace RT1064.Core

variable {K : Type*}

/-- `y` lies between two elements of `l`. -/
def Within [LE K] (l : List K) (y : K) : Prop := (∃ a ∈ l, a ≤ y) ∧ ∃ b ∈ l, y ≤ b

lemma within_of_mem [Preorder K] {l : List K} {y : K} (h : y ∈ l) : Within l y :=
  ⟨⟨y, h, le_rfl⟩, y, h, le_rfl⟩

lemma Within.mono [LE K] {l l' : List K} {y : K} (h : Within l y) (hl : l ⊆ l') :
    Within l' y := by
  obtain ⟨⟨a, ha, hay⟩, b, hb, hyb⟩ := h
  exact ⟨⟨a, hl ha, hay⟩, b, hl hb, hyb⟩

variable [CommRing K] [LinearOrder K] [IsStrictOrderedRing K]

/-- Part of the way from `y` to `x` does not go past either of them. -/
lemma within_step {l : List K} {y x a : K} (hy : Within l y) (hx : x ∈ l) (h0 : 0 ≤ a)
    (h1 : a ≤ 1) : Within l (y + a * (x - y)) := by
  obtain ⟨⟨m, hm, hmy⟩, M, hM, hyM⟩ := hy
  rcases le_total x y with hxy | hyx
  · have hfar := mul_le_mul_of_nonneg_right h1 (sub_nonneg.2 hxy)
    have hdown := mul_nonneg h0 (sub_nonneg.2 hxy)
    exact ⟨⟨x, hx, by linarith⟩, M, hM, by linarith⟩
  · have hfar := mul_le_mul_of_nonneg_right h1 (sub_nonneg.2 hyx)
    have hup := mul_nonneg h0 (sub_nonneg.2 hyx)
    exact ⟨⟨m, hm, by linarith⟩, x, hx, by linarith⟩

end RT1064.Core
