import RT1064.Core.LocallyAffine
import RT1064.Core.PiecewiseLinear
import RT1064.Math.Functions

/-!
# Interpolation

The piecewise linear function of a table of corner points.
-/

namespace RT1064.Math

open Core Mat

variable {K : Type*} {N : ℕ}

/-! ### The functions -/

section Model

/-- An entry of an array, which has no value outside of it. -/
def readEntry (x : Fin N → K) (index : ℕ) : Option K :=
  if h : index < N then some (x ⟨index, h⟩) else none

variable [Field K] [LinearOrder K]

/-- `math::interpolate`. -/
def interpolate (value xLow xHigh yLow yHigh : K) : Option K :=
  if value ≤ xLow then some yLow
  else if xHigh < value then some yHigh
  else
    -- linear function between the two points
    (divide (yHigh - yLow) (xHigh - xLow)).map fun a =>
      let b := yLow - a * xLow
      a * value + b

/-- The loop of `math::interpolateNXY`, which reads the next corner before it compares the
index. -/
def searchIndex (value : K) (x : Fin N → K) (index : ℕ) : Option ℕ :=
  (readEntry x (index + 1)).bind fun xNext =>
    if xNext < value ∧ index < N - 2 then searchIndex value x (index + 1) else some index
termination_by N - 2 - index

/-- `math::interpolateNXY`. -/
def interpolateNXY (value : K) (x y : Fin N → K) : Option K :=
  (searchIndex value x 0).bind fun index =>
    (readEntry x index).bind fun xLow =>
      (readEntry x (index + 1)).bind fun xHigh =>
        (readEntry y index).bind fun yLow =>
          (readEntry y (index + 1)).bind fun yHigh => interpolate value xLow xHigh yLow yHigh

variable [FloorRing K]

/-- `(int)x`, which is not defined for a number outside of the range of `int`. -/
def toInt (x : K) : Option ℤ := if -(2 ^ 31) - 1 < x ∧ x < 2 ^ 31 then some (trunc x) else none

/-- `math::interpolateN`. An array has less than `2 ^ 31` entries, so that its last index is a value
of `int`. -/
def interpolateN (value : K) (y : Fin N → K) : Option K :=
  (toInt (value * (N - 1 : ℕ))).bind fun scaled =>
    let index := (constrain scaled 0 ((N - 2 : ℕ) : ℤ)).toNat
    (divide (index : K) (N - 1 : ℕ)).bind fun xLow =>
      (divide ((index + 1 : ℕ) : K) (N - 1 : ℕ)).bind fun xHigh =>
        (readEntry y index).bind fun yLow =>
          (readEntry y (index + 1)).bind fun yHigh => interpolate value xLow xHigh yLow yHigh

end Model

/-- Both corners of a segment are entries of the table. -/
lemma readEntry_castSucc {n : ℕ} (x : Fin (n + 2) → K) (i : Fin (n + 1)) :
    readEntry x i.val = some (x i.castSucc) := dif_pos i.castSucc.isLt

lemma readEntry_succ {n : ℕ} (x : Fin (n + 2) → K) (i : Fin (n + 1)) :
    readEntry x (i.val + 1) = some (x i.succ) := dif_pos i.succ.isLt

/-- The loop ends at a segment of the value, without a read outside of the table. -/
lemma searchIndex_spec [LinearOrder K] {n : ℕ} (value : K) (x : Fin (n + 2) → K)
    (index : Fin (n + 1)) (hlow : index ≠ 0 → x index.castSucc < value) :
    ∃ i : Fin (n + 1), searchIndex value x index = some i.val ∧ Segment x value i := by
  induction index using Fin.reverseInduction with
  | last =>
    refine ⟨Fin.last n, ?_, hlow, fun hne => absurd rfl hne⟩
    rw [searchIndex, readEntry_succ, Option.bind_some, if_neg]
    exact fun h => lt_irrefl _ h.2
  | cast j ih =>
    rw [searchIndex, readEntry_succ, Option.bind_some]
    by_cases hnext : x j.castSucc.succ < value
    · -- the loop goes on to the next segment, which begins with a smaller corner
      rw [if_pos ⟨hnext, j.isLt⟩]
      exact ih fun _ => hnext
    · rw [if_neg fun h => hnext h.1]
      exact ⟨j.castSucc, rfl, hlow, fun _ => not_lt.1 hnext⟩

section Order

variable [Field K] [LinearOrder K]

/-- Only a value between the corners is divided for, and their distance is not zero then. -/
lemma interpolate_eq (value xLow xHigh yLow yHigh : K) :
    interpolate value xLow xHigh yLow yHigh = some (ramp value xLow xHigh yLow yHigh) := by
  rw [interpolate, ramp]
  split_ifs with hlow hhigh
  · rfl
  · rfl
  · have hne : xHigh - xLow ≠ 0 :=
      sub_ne_zero.2 ((not_le.1 hlow).trans_le (not_lt.1 hhigh)).ne'
    rw [divide_of_ne_zero _ hne, Option.map_some, Option.some_inj]
    field_simp
    ring

/-- The interpolation is the function of the table in a segment of the value. -/
lemma interpolateNXY_eq {n : ℕ} (value : K) (x y : Fin (n + 2) → K) :
    ∃ i, Segment x value i ∧ interpolateNXY value x y = some (tableValue x y value i) := by
  obtain ⟨i, hi, hsegment⟩ := searchIndex_spec value x 0 fun h => absurd rfl h
  refine ⟨i, hsegment, ?_⟩
  have hsearch : searchIndex value x 0 = some i.val := hi
  rw [interpolateNXY, hsearch, Option.bind_some, readEntry_castSucc, Option.bind_some,
    readEntry_succ, Option.bind_some, readEntry_castSucc, Option.bind_some, readEntry_succ,
    Option.bind_some, interpolate_eq]
  rfl

end Order

/-! ### The uniform table -/

section Grid

variable [Field K] {n : ℕ}

/-- The corner points `0, 1/(N - 1), …, 1`. -/
def uniformGrid (N : ℕ) (i : Fin N) : K := i.val / (N - 1 : ℕ)

lemma uniformGrid_castSucc (i : Fin (n + 1)) :
    (uniformGrid (n + 2) i.castSucc : K) = i.val / ((n : K) + 1) := by
  rw [uniformGrid, Nat.add_sub_cancel_right (n + 1) 1, Nat.cast_succ, Fin.val_castSucc]

lemma uniformGrid_succ (i : Fin (n + 1)) :
    (uniformGrid (n + 2) i.succ : K) = (i.val + 1 : ℕ) / ((n : K) + 1) := by
  rw [uniformGrid, Nat.add_sub_cancel_right (n + 1) 1, Nat.cast_succ, Fin.val_succ]

variable [LinearOrder K] [IsStrictOrderedRing K]

lemma strictMono_uniformGrid : StrictMono (uniformGrid (n + 2) : Fin (n + 2) → K) := by
  intro i j h
  have hpos : (0 : K) < (n + 2 - 1 : ℕ) := Nat.cast_pos.2 n.succ_pos
  exact div_lt_div_of_pos_right (Nat.cast_lt.2 h) hpos

/-- The truncated and clamped product is the index of a segment that the value lies in, with its
corners. -/
lemma exists_index [FloorRing K] (value : K) : ∃ j : Fin (n + 1),
    (constrain (trunc (value * ((n : K) + 1))) 0 (n : ℤ)).toNat = j.val ∧
      (j ≠ 0 → uniformGrid (n + 2) j.castSucc ≤ value) ∧
      (j ≠ Fin.last n → value ≤ uniformGrid (n + 2) j.succ) := by
  have hpos : (0 : K) < n + 1 := Nat.cast_add_one_pos n
  generalize ht : trunc (value * ((n : K) + 1)) = t
  obtain ⟨k, hk⟩ : ∃ k, (constrain t 0 (n : ℤ)).toNat = k := ⟨_, rfl⟩
  have hclamp : k ≤ n ∧ (0 < k → (k : ℤ) ≤ t) ∧ (k < n → t < k + 1) := by
    rw [constrain] at hk
    split_ifs at hk <;> omega
  refine ⟨⟨k, Nat.lt_succ_of_le hclamp.1⟩, hk, fun hne => ?_, fun hne => ?_⟩
  · have hk0 : 0 < k := Nat.pos_of_ne_zero fun h => hne (Fin.ext h)
    have hle : ((k : ℤ) : K) ≤ value * (n + 1) := by
      rw [← not_lt, ← trunc_lt_iff (Int.natCast_pos.2 hk0), ht, not_lt]
      exact hclamp.2.1 hk0
    rw [uniformGrid_castSucc, div_le_iff₀ hpos]
    exact_mod_cast hle
  · have hkn : k < n := lt_of_le_of_ne hclamp.1 fun h => hne (Fin.ext h)
    have hlt : value * (n + 1) < ((k + 1 : ℤ) : K) := by
      rw [← trunc_lt_iff (by omega), ht]
      exact hclamp.2.2 hkn
    rw [uniformGrid_succ, le_div_iff₀ hpos]
    exact_mod_cast hlt.le

end Grid

/-! ### The function of the table -/

/-- The function interpolates the corner points of an ascending table. -/
structure Interpolates [Field K] [LinearOrder K] {n : ℕ} (x y : Fin (n + 2) → K) (f : K → K) :
    Prop where
  between : ∀ value, ∃ j k, y j ≤ f value ∧ f value ≤ y k
  low : ∀ value, value ≤ x 0 → f value = y 0
  high : ∀ value, x (Fin.last (n + 1)) < value → f value = y (Fin.last (n + 1))
  corner : StrictMono x → ∀ i, f (x i) = y i
  linear : StrictMono x → ∀ (i : Fin (n + 1)) (value : K),
    x i.castSucc < value → value < x i.succ → f value = y i.castSucc +
      (y i.succ - y i.castSucc) * ((value - x i.castSucc) / (x i.succ - x i.castSucc))
  monotone : Monotone y → Monotone f
  antitone : Antitone y → Antitone f

/-- For every ascending table of two or more corner points the search stays in the table and
nothing is divided by zero, and the result is the interpolation of the corner points. -/
theorem interpolateNXY_correct [Field K] [LinearOrder K] [IsStrictOrderedRing K] {n : ℕ}
    {x : Fin (n + 2) → K} (hx : Monotone x) (y : Fin (n + 2) → K) :
    ∃ f : K → K, (∀ value, interpolateNXY value x y = some (f value)) ∧ Interpolates x y f := by
  choose i hsegment heq using fun value => interpolateNXY_eq value x y
  refine ⟨fun value => tableValue x y value (i value), heq, ?_⟩
  exact {
    between := fun value => exists_tableValue_mem x y value (i value)
    low := fun value hv => (hsegment value).tableValue_of_le hx hv
    high := fun value hv => (hsegment value).tableValue_of_lt hx hv
    corner := fun hstrict k => (hsegment (x k)).tableValue_corner hstrict
    linear := fun hstrict j value hlow hhigh =>
      (hsegment value).tableValue_of_mem hstrict hlow hhigh.le
    monotone := fun hy v w hvw => (hsegment v).tableValue_mono hx hy (hsegment w) hvw
    antitone := fun hy v w hvw => by
      have hneg := (hsegment v).tableValue_mono (y := fun k => -y k) hx hy.neg (hsegment w) hvw
      rw [tableValue_neg, tableValue_neg] at hneg
      exact neg_le_neg_iff.1 hneg }

/-- A table with a repeated corner. -/
theorem interpolateNXY_correct_rat :
    ∃ f : ℚ → ℚ, (∀ value, interpolateNXY value ![0, 1, 1, 2] ![0, 1, 3, 5] = some (f value)) ∧
      Interpolates ![0, 1, 1, 2] ![0, 1, 3, 5] f :=
  interpolateNXY_correct (by decide) ![0, 1, 3, 5]

/-- On the uniform table the index that is computed gives the value of the segment that is searched,
for every value whose product with the last index can be converted to an `int`. -/
theorem interpolateN_eq_interpolateNXY [Field K] [LinearOrder K] [IsStrictOrderedRing K]
    [FloorRing K] {n : ℕ} {value : K} (h : |value * ((n + 2 - 1 : ℕ) : K)| < 2 ^ 31)
    (y : Fin (n + 2) → K) :
    ∃ r, interpolateN value y = some r ∧
      interpolateNXY value (uniformGrid (n + 2)) y = some r := by
  have hlast : ((n + 2 - 1 : ℕ) : K) = n + 1 := Nat.cast_succ n
  have hne : (n : K) + 1 ≠ 0 := Nat.cast_add_one_ne_zero n
  obtain ⟨i, hsegment, hsearch⟩ := interpolateNXY_eq value (uniformGrid (n + 2)) y
  obtain ⟨j, hj, hlow, hhigh⟩ := exists_index (n := n) value
  have hint : toInt (value * ((n + 2 - 1 : ℕ) : K)) = some (trunc (value * ((n : K) + 1))) := by
    rw [toInt, if_pos ⟨by linarith [(abs_lt.1 h).1], (abs_lt.1 h).2⟩, hlast]
  refine ⟨tableValue (uniformGrid (n + 2)) y value i, ?_, hsearch⟩
  rw [← hsegment.tableValue_eq strictMono_uniformGrid hlow hhigh, interpolateN, hint,
    Option.bind_some]
  simp only [Nat.add_sub_cancel, hj, hlast]
  rw [divide_of_ne_zero _ hne, Option.bind_some, divide_of_ne_zero _ hne, Option.bind_some,
    readEntry_castSucc, Option.bind_some, readEntry_succ, Option.bind_some, interpolate_eq,
    ← uniformGrid_castSucc, ← uniformGrid_succ]
  rfl

/-- A value below the table, where the product is truncated upwards. -/
theorem interpolateN_eq_interpolateNXY_rat :
    ∃ r, interpolateN (-1 / 3 : ℚ) ![4, 5, 7] = some r ∧
      interpolateNXY (-1 / 3 : ℚ) (uniformGrid 3) ![4, 5, 7] = some r :=
  interpolateN_eq_interpolateNXY (by norm_num [abs_lt]) ![4, 5, 7]

end RT1064.Math
