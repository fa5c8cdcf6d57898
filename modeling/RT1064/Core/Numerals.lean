import Mathlib.Data.Nat.Cast.Defs

/-!
# Numerals

A numeral over a field rests on a proof that it is at least two. The numerals of the library's
formulas have one such proof each, made an instance where the formula is defined.
-/

namespace RT1064.Core

lemma atLeastTwo_two : Nat.AtLeastTwo 2 := ⟨Nat.le_refl 2⟩

lemma atLeastTwo_four : Nat.AtLeastTwo 4 := ⟨Nat.le_of_ble_eq_true rfl⟩

lemma atLeastTwo_six : Nat.AtLeastTwo 6 := ⟨Nat.le_of_ble_eq_true rfl⟩

end RT1064.Core
