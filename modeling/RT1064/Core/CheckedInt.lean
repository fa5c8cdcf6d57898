import Mathlib.Algebra.Order.Ring.Int
import Mathlib.Tactic.SplitIfs

/-!
# Signed arithmetic without overflow

The operations on `int`, which have no result where the exact one cannot be represented. Division
and remainder truncate towards zero.
-/

namespace RT1064.Core

/-- The `int` with the value `n`, if there is one. -/
def checked (n : ℤ) : Option Int32 :=
  if -2 ^ 31 ≤ n ∧ n < 2 ^ 31 then some (Int32.ofInt n) else none

/-- `a + b`. -/
def checkedAdd (a b : Int32) : Option Int32 := checked (a.toInt + b.toInt)

/-- `a - b`. -/
def checkedSub (a b : Int32) : Option Int32 := checked (a.toInt - b.toInt)

/-- `a * b`. -/
def checkedMul (a b : Int32) : Option Int32 := checked (a.toInt * b.toInt)

/-- `a / b`. -/
def checkedDiv (a b : Int32) : Option Int32 :=
  if b = 0 then none else checked (a.toInt.tdiv b.toInt)

/-- `a % b`, which is defined where the quotient is. -/
def checkedMod (a b : Int32) : Option Int32 :=
  (checkedDiv a b).bind fun _ => checked (a.toInt.tmod b.toInt)

variable {a b v : Int32}

/-- An operation has a result only if the result is exact. -/
lemma checked_eq_some_iff {n : ℤ} : checked n = some v ↔ v.toInt = n := by
  rw [checked]
  constructor
  · intro h
    split_ifs at h with hn
    obtain rfl := Option.some_inj.1 h
    exact Int32.toInt_ofInt_of_le hn.1 hn.2
  · rintro rfl
    rw [if_pos ⟨v.le_toInt, v.toInt_lt⟩, Int32.ofInt_toInt]

lemma exists_checked {n : ℤ} (hlow : -2 ^ 31 ≤ n) (hhigh : n < 2 ^ 31) :
    ∃ v, checked n = some v ∧ v.toInt = n :=
  ⟨Int32.ofInt n, if_pos ⟨hlow, hhigh⟩, Int32.toInt_ofInt_of_le hlow hhigh⟩

lemma ne_zero_of_toInt_pos (hb : 0 < b.toInt) : b ≠ 0 := by
  rintro rfl
  exact absurd hb (by decide)

/-- The quotient of numbers that are not negative is rounded down. -/
lemma checkedDiv_eq (ha : 0 ≤ a.toInt) (hb : 0 < b.toInt) :
    checkedDiv a b = checked (a.toInt / b.toInt) := by
  rw [checkedDiv, if_neg (ne_zero_of_toInt_pos hb), Int.tdiv_eq_ediv_of_nonneg ha]

/-- The quotient of numbers that are not negative is not larger than the dividend. -/
lemma exists_checkedDiv (ha : 0 ≤ a.toInt) (hb : 0 < b.toInt) :
    ∃ v, checkedDiv a b = some v ∧ v.toInt = a.toInt / b.toInt := by
  rw [checkedDiv_eq ha hb]
  have hnonneg : 0 ≤ a.toInt / b.toInt := Int.ediv_nonneg ha hb.le
  have hle : a.toInt / b.toInt ≤ a.toInt := Int.ediv_le_self _ ha
  have hlt := a.toInt_lt
  exact exists_checked (by omega) (by omega)

lemma exists_checkedMod (ha : 0 ≤ a.toInt) (hb : 0 < b.toInt) :
    ∃ v, checkedMod a b = some v ∧ v.toInt = a.toInt % b.toInt := by
  obtain ⟨q, hq, -⟩ := exists_checkedDiv ha hb
  rw [checkedMod, hq, Option.bind_some, Int.tmod_eq_emod_of_nonneg ha]
  have hnonneg : 0 ≤ a.toInt % b.toInt := Int.emod_nonneg _ hb.ne'
  have hle : a.toInt % b.toInt < b.toInt := Int.emod_lt_of_pos _ hb
  have hlt := b.toInt_lt
  exact exists_checked (by omega) (by omega)

end RT1064.Core
