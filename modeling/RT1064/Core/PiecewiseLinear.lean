import Mathlib.Algebra.Order.Field.Basic
import Mathlib.Order.Fin.Basic
import Mathlib.Tactic.Linarith
import Mathlib.Tactic.Ring

/-!
# Piecewise linear functions

The constant, linear, constant function between two corners, and the function of a table of corners
that is put together from them.
-/

namespace RT1064.Core

variable {K : Type*}

/-! ### The corners of a table -/

section Corners

variable [LinearOrder K]

/-- The corners that the value is looked up between: those outside of the table belong to the
first and the last two. -/
structure Segment {n : ℕ} (x : Fin (n + 2) → K) (value : K) (i : Fin (n + 1)) : Prop where
  low : i ≠ 0 → x i.castSucc < value
  high : i ≠ Fin.last n → value ≤ x i.succ

variable {n : ℕ} {x : Fin (n + 2) → K} {value : K} {i : Fin (n + 1)}

/-- A value up to the first corner is looked up in the first segment. -/
lemma Segment.eq_zero (h : Segment x value i) (hx : Monotone x) (hv : value ≤ x 0) : i = 0 := by
  by_contra hi
  exact (h.low hi).not_ge (hv.trans (hx (Fin.zero_le _)))

/-- A value over the last corner is looked up in the last segment. -/
lemma Segment.eq_last (h : Segment x value i) (hx : Monotone x)
    (hv : x (Fin.last (n + 1)) < value) : i = Fin.last n := by
  by_contra hi
  exact (h.high hi).not_gt ((hx (Fin.le_last _)).trans_lt hv)

/-- A larger value is not looked up in an earlier segment. -/
lemma Segment.le (hx : Monotone x) {value' : K} {i' : Fin (n + 1)} (h : Segment x value i)
    (h' : Segment x value' i') (hv : value ≤ value') : i ≤ i' := by
  by_contra hlt
  rw [not_le] at hlt
  have hlow : x i.castSucc < value := h.low ((Fin.zero_le i').trans_lt hlt).ne'
  have hhigh : value' ≤ x i'.succ := h'.high (hlt.trans_le (Fin.le_last i)).ne
  have hmid : x i'.succ ≤ x i.castSucc := hx (Fin.succ_le_castSucc_iff.2 hlt)
  exact (hlow.trans_le hv).not_ge (hhigh.trans hmid)

/-- Between two corners of a table without repetitions the value is looked up between them. -/
lemma Segment.eq_of_mem (h : Segment x value i) (hx : StrictMono x) {j : Fin (n + 1)}
    (hlow : x j.castSucc < value) (hhigh : value ≤ x j.succ) : i = j := by
  apply le_antisymm
  · by_cases hi : i = 0
    · rw [hi]
      exact Fin.zero_le j
    · exact Fin.castSucc_lt_succ_iff.1 (hx.lt_iff_lt.1 ((h.low hi).trans_le hhigh))
  · by_cases hi : i = Fin.last n
    · rw [hi]
      exact Fin.le_last j
    · exact Fin.castSucc_lt_succ_iff.1 (hx.lt_iff_lt.1 (hlow.trans_le (h.high hi)))

end Corners

/-! ### Two corners -/

variable [Field K] [LinearOrder K]

/-- The linear function between two corners, which is constant outside of them. -/
def ramp (value xLow xHigh yLow yHigh : K) : K :=
  if value ≤ xLow then yLow
  else if xHigh < value then yHigh
  else yLow + (yHigh - yLow) * ((value - xLow) / (xHigh - xLow))

section Ramp

variable {value xLow xHigh yLow yHigh : K}

lemma ramp_of_le (h : value ≤ xLow) : ramp value xLow xHigh yLow yHigh = yLow := if_pos h

lemma ramp_of_lt (hx : xLow ≤ xHigh) (h : xHigh < value) :
    ramp value xLow xHigh yLow yHigh = yHigh := by
  rw [ramp, if_neg (hx.trans_lt h).not_ge, if_pos h]

lemma ramp_of_mem (hlow : xLow < value) (hhigh : value ≤ xHigh) :
    ramp value xLow xHigh yLow yHigh =
      yLow + (yHigh - yLow) * ((value - xLow) / (xHigh - xLow)) := by
  rw [ramp, if_neg hlow.not_ge, if_neg hhigh.not_gt]

lemma ramp_neg (value xLow xHigh yLow yHigh : K) :
    ramp value xLow xHigh (-yLow) (-yHigh) = -ramp value xLow xHigh yLow yHigh := by
  rw [ramp, ramp]
  split_ifs
  · rfl
  · rfl
  · ring

lemma ramp_corner (h : xLow < xHigh) : ramp xHigh xLow xHigh yLow yHigh = yHigh := by
  rw [ramp_of_mem h le_rfl, div_self (sub_ne_zero.2 h.ne'), mul_one, add_sub_cancel]

variable [IsStrictOrderedRing K]

/-- The function stays between the values of the corners. -/
lemma ramp_mem (hy : yLow ≤ yHigh) :
    yLow ≤ ramp value xLow xHigh yLow yHigh ∧ ramp value xLow xHigh yLow yHigh ≤ yHigh := by
  rcases le_or_gt value xLow with hlow | hlow
  · rw [ramp_of_le hlow]
    exact ⟨le_rfl, hy⟩
  rcases lt_or_ge xHigh value with hhigh | hhigh
  · rw [ramp, if_neg hlow.not_ge, if_pos hhigh]
    exact ⟨hy, le_rfl⟩
  · have hx : 0 < xHigh - xLow := sub_pos.2 (hlow.trans_le hhigh)
    have hratio : (value - xLow) / (xHigh - xLow) ≤ 1 := by
      rw [div_le_one hx]
      linarith
    have hpos : 0 ≤ (value - xLow) / (xHigh - xLow) := div_nonneg (by linarith) hx.le
    have hdiff := sub_nonneg.2 hy
    rw [ramp_of_mem hlow hhigh]
    constructor
    · linarith [mul_nonneg hdiff hpos]
    · linarith [mul_le_mul_of_nonneg_left hratio hdiff]

lemma ramp_mono (hx : xLow ≤ xHigh) (hy : yLow ≤ yHigh) :
    Monotone fun value => ramp value xLow xHigh yLow yHigh := by
  intro v w hvw
  rcases le_or_gt v xLow with hlow | hlow
  · exact (ramp_of_le hlow).trans_le (ramp_mem hy).1
  rcases lt_or_ge xHigh w with hhigh | hhigh
  · exact (ramp_mem hy).2.trans_eq (ramp_of_lt hx hhigh).symm
  · have hdiff := sub_nonneg.2 hy
    have hpos : 0 ≤ xHigh - xLow := sub_nonneg.2 hx
    show ramp v xLow xHigh yLow yHigh ≤ ramp w xLow xHigh yLow yHigh
    rw [ramp_of_mem hlow (hvw.trans hhigh), ramp_of_mem (hlow.trans_le hvw) hhigh]
    gcongr

end Ramp

/-! ### Tables -/

/-- The value of the linear function between two corners of the table. -/
def tableValue {n : ℕ} (x y : Fin (n + 2) → K) (value : K) (i : Fin (n + 1)) : K :=
  ramp value (x i.castSucc) (x i.succ) (y i.castSucc) (y i.succ)

section Table

variable {n : ℕ} {x y : Fin (n + 2) → K} {value : K} {i : Fin (n + 1)}

lemma tableValue_neg (x y : Fin (n + 2) → K) (value : K) (i : Fin (n + 1)) :
    tableValue x (fun k => -y k) value i = -tableValue x y value i := ramp_neg _ _ _ _ _

lemma Segment.tableValue_of_le (h : Segment x value i) (hx : Monotone x) (hv : value ≤ x 0) :
    tableValue x y value i = y 0 := by
  rw [h.eq_zero hx hv]
  exact ramp_of_le hv

lemma Segment.tableValue_of_lt (h : Segment x value i) (hx : Monotone x)
    (hv : x (Fin.last (n + 1)) < value) : tableValue x y value i = y (Fin.last (n + 1)) := by
  rw [h.eq_last hx hv]
  exact ramp_of_lt (hx (Fin.le_last _)) hv

lemma Segment.tableValue_of_mem (h : Segment x value i) (hx : StrictMono x) {j : Fin (n + 1)}
    (hlow : x j.castSucc < value) (hhigh : value ≤ x j.succ) :
    tableValue x y value i = y j.castSucc +
      (y j.succ - y j.castSucc) * ((value - x j.castSucc) / (x j.succ - x j.castSucc)) := by
  rw [h.eq_of_mem hx hlow hhigh]
  exact ramp_of_mem hlow hhigh

/-- A table without repetitions has its own values at the corners. -/
lemma Segment.tableValue_corner {k : Fin (n + 2)} (h : Segment x (x k) i) (hx : StrictMono x) :
    tableValue x y (x k) i = y k := by
  rcases Fin.eq_zero_or_eq_succ k with rfl | ⟨j, rfl⟩
  · exact h.tableValue_of_le hx.monotone le_rfl
  · have hlt : x j.castSucc < x j.succ := hx Fin.castSucc_lt_succ
    rw [h.eq_of_mem hx hlt le_rfl]
    exact ramp_corner hlt

/-- A segment that the value lies in, with its corners, gives the value of the table too. -/
lemma Segment.tableValue_eq (h : Segment x value i) (hx : StrictMono x) {j : Fin (n + 1)}
    (hlow : j ≠ 0 → x j.castSucc ≤ value) (hhigh : j ≠ Fin.last n → value ≤ x j.succ) :
    tableValue x y value j = tableValue x y value i := by
  by_cases hcorner : x j.castSucc = value
  · subst hcorner
    rw [h.tableValue_corner hx]
    exact ramp_of_le le_rfl
  · have hj : Segment x value j := ⟨fun hne => (hlow hne).lt_of_ne hcorner, hhigh⟩
    have hle : j ≤ i := hj.le hx.monotone h le_rfl
    have hge : i ≤ j := h.le hx.monotone hj le_rfl
    rw [le_antisymm hle hge]

variable [IsStrictOrderedRing K]

/-- The function of the table stays between two of its values. -/
lemma exists_tableValue_mem (x y : Fin (n + 2) → K) (value : K) (i : Fin (n + 1)) :
    ∃ j k, y j ≤ tableValue x y value i ∧ tableValue x y value i ≤ y k := by
  rcases le_total (y i.castSucc) (y i.succ) with hy | hy
  · exact ⟨i.castSucc, i.succ, ramp_mem hy⟩
  · have hneg : -y i.castSucc ≤ -tableValue x y value i ∧ -tableValue x y value i ≤ -y i.succ := by
      rw [← tableValue_neg]
      exact ramp_mem (neg_le_neg hy)
    exact ⟨i.succ, i.castSucc, neg_le_neg_iff.1 hneg.2, neg_le_neg_iff.1 hneg.1⟩

/-- The function of an ascending table is ascending. -/
lemma Segment.tableValue_mono (hx : Monotone x) (hy : Monotone y) {value' : K} {i' : Fin (n + 1)}
    (h : Segment x value i) (h' : Segment x value' i') (hv : value ≤ value') :
    tableValue x y value i ≤ tableValue x y value' i' := by
  have hstep : ∀ j : Fin (n + 1), y j.castSucc ≤ y j.succ := fun j => hy Fin.castSucc_lt_succ.le
  rcases (Segment.le hx h h' hv).eq_or_lt with rfl | hlt
  · exact ramp_mono (hx Fin.castSucc_lt_succ.le) (hstep i) hv
  · calc tableValue x y value i ≤ y i.succ := (ramp_mem (hstep i)).2
      _ ≤ y i'.castSucc := hy (Fin.succ_le_castSucc_iff.2 hlt)
      _ ≤ tableValue x y value' i' := (ramp_mem (hstep i')).1

end Table

end RT1064.Core
