import Mathlib.Data.Int.ModEq
import RT1064.Core.CheckedInt

/-!
# Wrapping integers into a half-open range

The integer `wrap`, whose intermediate values can leave the range of `int`.
-/

namespace RT1064.Mat

open Core

/-- The first statement of the integer `wrap`, which brings a value under `low` over it. -/
def raise (x low range : Int32) : Option Int32 :=
  if x < low then
    (checkedSub low x).bind fun distance =>
      (checkedDiv distance range).bind fun quotient =>
        (checkedAdd quotient 1).bind fun rounds =>
          (checkedMul range rounds).bind fun shift => checkedAdd x shift
  else some x

/-- Wrap an integer to stay in `[low, high)`. -/
def wrapInteger (x low high : Int32) : Option Int32 :=
  (checkedSub high low).bind fun range =>
    (raise x low range).bind fun x =>
      (checkedSub x low).bind fun distance =>
        (checkedMod distance range).bind fun rest => checkedAdd low rest

/-- The value lies in `[low, high)` and is congruent to `x`. -/
structure IsWrapped (x low high v : Int32) : Prop where
  low_le : low ≤ v
  lt_high : v < high
  modEq : v.toInt ≡ x.toInt [ZMOD high.toInt - low.toInt]

/-- The length of the range, the shift of a value under it and the distance of a value over its
lower end are values of `int`. -/
structure Fits (x low high : Int32) : Prop where
  range : high.toInt - low.toInt < 2 ^ 31
  shift : x < low → (high.toInt - low.toInt) *
    ((low.toInt - x.toInt) / (high.toInt - low.toInt) + 1) < 2 ^ 31
  distance : low ≤ x → x.toInt - low.toInt < 2 ^ 31

variable {x low high v : Int32}

/-- A range has one value of each class. -/
lemma IsWrapped.unique {v' : Int32} (h : IsWrapped x low high v) (h' : IsWrapped x low high v') :
    v' = v := by
  have hclass : v'.toInt - low.toInt ≡ v.toInt - low.toInt [ZMOD high.toInt - low.toInt] :=
    (h'.modEq.trans h.modEq.symm).sub_right _
  have hlow := Int32.le_iff_toInt_le.1 h.low_le
  have hhigh := Int32.lt_iff_toInt_lt.1 h.lt_high
  have hlow' := Int32.le_iff_toInt_le.1 h'.low_le
  have hhigh' := Int32.lt_iff_toInt_lt.1 h'.lt_high
  rw [Int.ModEq, Int.emod_eq_of_lt (by omega) (by omega), Int.emod_eq_of_lt (by omega) (by omega)]
    at hclass
  exact Int32.toInt_inj.1 (by omega)

/-! ### The value over the lower end -/

/-- The shift is the first multiple of the range over the distance. -/
lemma shift_bounds {d r : ℤ} (hd : 0 ≤ d) (hr : 0 < r) :
    d < r * (d / r + 1) ∧ r * (d / r + 1) ≤ d + r ∧ d / r + 1 ≤ r * (d / r + 1) := by
  have hlow : r * (d / r) ≤ d := Int.mul_ediv_self_le hr.ne'
  have hhigh : d < r * (d / r) + r := Int.lt_mul_ediv_self_add hr
  have hquot : 0 ≤ d / r := Int.ediv_nonneg hd hr.le
  have hself : 1 * (d / r + 1) ≤ r * (d / r + 1) :=
    Int.mul_le_mul_of_nonneg_right hr (by omega)
  have hexpand : r * (d / r + 1) = r * (d / r) + r := by rw [Int.mul_add, Int.mul_one]
  exact ⟨by omega, by omega, by omega⟩

section Raise

variable {range : Int32}

/-- A value under the range is brought over its lower end if the shift can be represented. -/
lemma raise_of_lt (hx : x < low) (hlow : low < high)
    (hrange : range.toInt = high.toInt - low.toInt)
    (hshift : (high.toInt - low.toInt) *
      ((low.toInt - x.toInt) / (high.toInt - low.toInt) + 1) < 2 ^ 31) :
    ∃ y, raise x low range = some y ∧ low ≤ y ∧ y.toInt - low.toInt < 2 ^ 31 ∧
      y.toInt ≡ x.toInt [ZMOD high.toInt - low.toInt] := by
  rw [Int32.lt_iff_toInt_lt] at hx hlow
  have hx31 := x.le_toInt
  have hhigh31 := high.toInt_lt
  obtain ⟨hgt, hle, hone⟩ := shift_bounds (d := low.toInt - x.toInt)
    (r := high.toInt - low.toInt) (by omega) (by omega)
  have hquot : 0 ≤ (low.toInt - x.toInt) / (high.toInt - low.toInt) :=
    Int.ediv_nonneg (by omega) (by omega)
  obtain ⟨distance, hdistance, hdistance'⟩ :=
    exists_checked (n := low.toInt - x.toInt) (by omega) (by omega)
  obtain ⟨quotient, hquotient, hquotient'⟩ := exists_checkedDiv (a := distance) (b := range)
    (by omega) (by omega)
  rw [hdistance', hrange] at hquotient'
  have hone32 : (1 : Int32).toInt = 1 := by decide
  obtain ⟨rounds, hrounds, hrounds'⟩ :=
    exists_checked (n := quotient.toInt + (1 : Int32).toInt) (by omega) (by omega)
  have hmul : range.toInt * rounds.toInt = (high.toInt - low.toInt) *
      ((low.toInt - x.toInt) / (high.toInt - low.toInt) + 1) := by
    rw [hrange, hrounds', hquotient', hone32]
  obtain ⟨shift, hmul32, hshift'⟩ :=
    exists_checked (n := range.toInt * rounds.toInt) (by omega) (by omega)
  obtain ⟨y, hy, hy'⟩ := exists_checked (n := x.toInt + shift.toInt) (by omega) (by omega)
  refine ⟨y, ?_, Int32.le_iff_toInt_le.2 (by omega), by omega, ?_⟩
  · rw [raise, if_pos (Int32.lt_iff_toInt_lt.2 hx), checkedSub, hdistance, Option.bind_some,
      hquotient, Option.bind_some, checkedAdd, hrounds, Option.bind_some, checkedMul, hmul32,
      Option.bind_some, checkedAdd, hy]
  · rw [hy', hshift', hmul]
    exact (Int.modEq_iff_dvd.2 ⟨_, by rw [add_sub_cancel_left]⟩).symm

/-- A value that was brought over the lower end was shifted by a value of `int`. -/
lemma shift_lt_of_raise (hx : x < low) (hlow : low < high)
    (hrange : range.toInt = high.toInt - low.toInt) {y : Int32} (h : raise x low range = some y) :
    (high.toInt - low.toInt) *
      ((low.toInt - x.toInt) / (high.toInt - low.toInt) + 1) < 2 ^ 31 := by
  rw [raise, if_pos hx] at h
  rw [Int32.lt_iff_toInt_lt] at hx hlow
  obtain ⟨distance, hdistance, h⟩ := Option.bind_eq_some_iff.1 h
  obtain ⟨quotient, hquotient, h⟩ := Option.bind_eq_some_iff.1 h
  obtain ⟨rounds, hrounds, h⟩ := Option.bind_eq_some_iff.1 h
  obtain ⟨shift, hshift, -⟩ := Option.bind_eq_some_iff.1 h
  rw [checkedSub, checked_eq_some_iff] at hdistance
  rw [checkedDiv_eq (by omega) (by omega), checked_eq_some_iff, hdistance, hrange] at hquotient
  rw [checkedAdd, checked_eq_some_iff, hquotient] at hrounds
  rw [checkedMul, checked_eq_some_iff, hrange, hrounds] at hshift
  exact hshift.symm.trans_lt shift.toInt_lt

end Raise

/-! ### The remainder -/

/-- A value over the lower end is reduced to a value of the range. -/
lemma exists_rest {y range : Int32} (hlow : low < high)
    (hrange : range.toInt = high.toInt - low.toInt) (hy : low ≤ y)
    (hdistance : y.toInt - low.toInt < 2 ^ 31)
    (hclass : y.toInt ≡ x.toInt [ZMOD high.toInt - low.toInt]) :
    ∃ v, ((checkedSub y low).bind fun distance =>
      (checkedMod distance range).bind fun rest => checkedAdd low rest) = some v ∧
      IsWrapped x low high v := by
  rw [Int32.lt_iff_toInt_lt] at hlow
  rw [Int32.le_iff_toInt_le] at hy
  have hlow31 := low.le_toInt
  have hhigh31 := high.toInt_lt
  obtain ⟨distance, hsub, hdistance'⟩ :=
    exists_checked (n := y.toInt - low.toInt) (by omega) (by omega)
  obtain ⟨rest, hrest, hrest'⟩ := exists_checkedMod (a := distance) (b := range)
    (by omega) (by omega)
  have hnonneg : 0 ≤ distance.toInt % range.toInt := Int.emod_nonneg _ (by omega)
  have hlt : distance.toInt % range.toInt < range.toInt := Int.emod_lt_of_pos _ (by omega)
  obtain ⟨v, hv, hv'⟩ := exists_checked (n := low.toInt + rest.toInt) (by omega) (by omega)
  refine ⟨v, ?_, Int32.le_iff_toInt_le.2 (by omega), Int32.lt_iff_toInt_lt.2 (by omega), ?_⟩
  · rw [checkedSub, hsub, Option.bind_some, hrest, Option.bind_some, checkedAdd, hv]
  · calc v.toInt = low.toInt + (y.toInt - low.toInt) % (high.toInt - low.toInt) := by
          rw [hv', hrest', hdistance', hrange]
      _ ≡ low.toInt + (y.toInt - low.toInt) [ZMOD high.toInt - low.toInt] :=
          (Int.mod_modEq _ _).add_left _
      _ = y.toInt := add_sub_cancel _ _
      _ ≡ x.toInt [ZMOD high.toInt - low.toInt] := hclass

/-! ### Wrapping -/

lemma wrapInteger_of_fits (hlow : low < high) (h : Fits x low high) :
    ∃ v, wrapInteger x low high = some v ∧ IsWrapped x low high v := by
  have hlow' := Int32.lt_iff_toInt_lt.1 hlow
  obtain ⟨range, hsub, hrange⟩ :=
    exists_checked (n := high.toInt - low.toInt) (by omega) h.range
  obtain ⟨y, hy, hle, hdistance, hclass⟩ : ∃ y, raise x low range = some y ∧ low ≤ y ∧
      y.toInt - low.toInt < 2 ^ 31 ∧ y.toInt ≡ x.toInt [ZMOD high.toInt - low.toInt] := by
    by_cases hx : x < low
    · exact raise_of_lt hx hlow hrange (h.shift hx)
    · have hle : low ≤ x := Int32.not_lt.1 hx
      exact ⟨x, if_neg hx, hle, h.distance hle, Int.ModEq.refl _⟩
  obtain ⟨v, hv, hwrapped⟩ := exists_rest hlow hrange hle hdistance hclass
  refine ⟨v, ?_, hwrapped⟩
  rw [wrapInteger, checkedSub, hsub, Option.bind_some, hy, Option.bind_some, hv]

lemma fits_of_wrapInteger (hlow : low < high) (h : wrapInteger x low high = some v) :
    Fits x low high := by
  obtain ⟨range, hsub, h⟩ := Option.bind_eq_some_iff.1 h
  obtain ⟨y, hy, h⟩ := Option.bind_eq_some_iff.1 h
  obtain ⟨distance, hdistance, -⟩ := Option.bind_eq_some_iff.1 h
  have hrange : range.toInt = high.toInt - low.toInt := checked_eq_some_iff.1 hsub
  refine ⟨hrange ▸ range.toInt_lt, fun hx => shift_lt_of_raise hx hlow hrange hy, fun hx => ?_⟩
  rw [raise, if_neg (Int32.not_lt.2 hx), Option.some_inj] at hy
  rw [checkedSub, checked_eq_some_iff, ← hy] at hdistance
  exact hdistance ▸ distance.toInt_lt

/-- The integer `wrap` is computed without an overflow and gives the one value of the range that is
congruent to its argument if and only if the range, the shift and the distance can be
represented. -/
theorem wrapInteger_correct_iff (hlow : low < high) (x : Int32) :
    (∃ v, wrapInteger x low high = some v ∧ IsWrapped x low high v ∧
      ∀ v', IsWrapped x low high v' → v' = v) ↔ Fits x low high := by
  constructor
  · rintro ⟨v, hv, -⟩
    exact fits_of_wrapInteger hlow hv
  · intro h
    obtain ⟨v, hv, hwrapped⟩ := wrapInteger_of_fits hlow h
    exact ⟨v, hv, hwrapped, fun v' h' => hwrapped.unique h'⟩

/-- An angle in degrees. -/
theorem wrapInteger_correct_iff_degrees :
    (∃ v, wrapInteger (-450) 0 360 = some v ∧ IsWrapped (-450) 0 360 v ∧
      ∀ v', IsWrapped (-450) 0 360 v' → v' = v) ↔ Fits (-450) 0 360 :=
  wrapInteger_correct_iff (by decide) (-450)

/-- The distance of the smallest `int` from zero is not an `int`. -/
theorem wrapInteger_minValue :
    ¬ ∀ x low high : Int32, low < high → ∃ v, wrapInteger x low high = some v ∧
      IsWrapped x low high v ∧ ∀ v', IsWrapped x low high v' → v' = v := by
  intro h
  obtain ⟨v, hv, -⟩ := h Int32.minValue 0 360 (by decide)
  have hnone : wrapInteger Int32.minValue 0 360 = none := by decide
  rw [hnone] at hv
  exact Option.some_ne_none v hv.symm

end RT1064.Mat
