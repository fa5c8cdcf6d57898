import Mathlib.Algebra.Order.Ring.Nat
import Mathlib.Data.Nat.Log

/-!
# Formatted text

Decimal numbers and `snprintf`, as far as the length of what is written depends on them.
-/

namespace RT1064.Core

/-- A text, of which each `Char` stands for one `char`. -/
abbrev Text := List Char

/-- The text of a number under `%u`. -/
def decimal (n : ℕ) : Text := Nat.toDigits 10 n

/-- The number of decimal digits. -/
def digitCount (n : ℕ) : ℕ := Nat.log 10 n + 1

/-- `snprintf` of a text into `n` bytes: what it writes before the terminating null character, and
what it returns. -/
def snprintf (n : ℕ) (s : Text) : Text × ℤ := (s.take (n - 1), s.length)

lemma digitCount_le {n k : ℕ} (hk : 0 < k) (h : n < 10 ^ k) : digitCount n ≤ k :=
  Nat.log_lt_of_lt_pow' hk.ne' h

lemma length_decimal (n : ℕ) : (decimal n).length = digitCount n := by
  have hiff : ∀ k, 0 < k → ((decimal n).length ≤ k ↔ digitCount n ≤ k) := by
    intro k hk
    rw [decimal, Nat.length_toDigits_le_iff (by decide) hk]
    exact ⟨digitCount_le hk, Nat.lt_pow_of_log_lt (by decide)⟩
  apply le_antisymm
  · exact (hiff _ (Nat.succ_pos _)).2 le_rfl
  · exact (hiff _ Nat.length_toDigits_pos).1 le_rfl

lemma snprintf_of_lt {n : ℕ} {s : Text} (h : s.length < n) :
    snprintf n s = (s, (s.length : ℤ)) := by
  rw [snprintf, List.take_of_length_le (Nat.le_sub_one_of_lt h)]

end RT1064.Core
