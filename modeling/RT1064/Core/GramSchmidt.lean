import RT1064.Core.Loop
import RT1064.Core.MoorePenrose

/-!
# Gram–Schmidt with a tolerance

The rows of a matrix are made orthogonal to one of them after the other. A row is skipped if the
square of what is left of it in its round is not above a tolerance.
-/

namespace RT1064.Core

open Matrix

variable {K : Type*} [Field K] [LinearOrder K] {M N : ℕ} (t : K) (W : Matrix (Fin M) (Fin N) K)

/-- What is left of the rows before the round `k`. -/
def leftover : ℕ → Matrix (Fin M) (Fin N) K
  | 0     => W
  | k + 1 =>
    if h : k < M then
      if t < leftover k ⟨k, h⟩ ⬝ᵥ leftover k ⟨k, h⟩ then orthogonalize (leftover k) ⟨k, h⟩
      else leftover k
    else leftover k

/-- The square of what is left of a row in its round. -/
def leftSquare (k : Fin M) : K := leftover t W k k ⬝ᵥ leftover t W k k

def Kept (k : Fin M) : Prop := t < leftSquare t W k

instance : DecidablePred (Kept t W) := fun _ => inferInstanceAs (Decidable (_ < _))

/-- The rows that are kept before the round `k`. -/
def keptRows (k : ℕ) : List (Fin M) := (indices 0 k).filter (Kept t W)

variable {t W} {k : Fin M}

lemma leftover_succ : leftover t W (k.val + 1) =
    if Kept t W k then orthogonalize (leftover t W k) k else leftover t W k := by
  rw [leftover, dif_pos k.isLt]
  rfl

lemma Kept.leftover (h : Kept t W k) :
    leftover t W (k.val + 1) = orthogonalize (leftover t W k) k := by
  rw [leftover_succ, if_pos h]

lemma leftover_of_not_kept (h : ¬ Kept t W k) : leftover t W (k.val + 1) = leftover t W k := by
  rw [leftover_succ, if_neg h]

lemma Kept.keptRows (h : Kept t W k) : keptRows t W (k.val + 1) = keptRows t W k ++ [k] := by
  rw [Core.keptRows, indices_succ k (Nat.zero_le _), List.filter_append,
    List.filter_singleton, decide_eq_true h]
  rfl

lemma keptRows_of_not_kept (h : ¬ Kept t W k) : keptRows t W (k.val + 1) = keptRows t W k := by
  rw [keptRows, indices_succ k (Nat.zero_le _), List.filter_append,
    List.filter_singleton, decide_eq_false h]
  exact List.append_nil _

/-- There are no more rows kept than there were rounds. -/
lemma length_keptRows_le {k : ℕ} (hk : k ≤ M) : (keptRows t W k).length ≤ k :=
  (List.length_filter_le _ _).trans (length_indices hk).le

end RT1064.Core
