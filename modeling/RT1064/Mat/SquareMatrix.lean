import RT1064.Core.Triangular
import RT1064.Mat.Basic

/-!
# Inverse of a square matrix

The inverse of the leading block of a matrix by LU factorisation with pivoting, followed by the
substitutions that overwrite the permutation matrix.
-/

namespace RT1064.Mat

open Core

variable {K : Type*} {M N : ℕ}

/-! ### Swaps -/

/-- `Matrix::swapRows`. -/
def swapRows (A : Matrix (Fin M) (Fin N) K) (a b : Fin M) : Matrix (Fin M) (Fin N) K :=
  if a = b then A
  else (indices 0 N).foldl (fun A j => setEntry (setEntry A a j (A b j)) b j (A a j)) A

/-- `Matrix::swapCols`. -/
def swapCols (A : Matrix (Fin M) (Fin N) K) (a b : Fin N) : Matrix (Fin M) (Fin N) K :=
  if a = b then A
  else (indices 0 M).foldl (fun A i => setEntry (setEntry A i a (A i b)) i b (A i a)) A

lemma swapRows_apply (A : Matrix (Fin M) (Fin N) K) (a b i : Fin M) (j : Fin N) :
    swapRows A a b i j = A (Equiv.swap a b i) j := by
  rw [swapRows]
  split_ifs with hab
  · rw [hab, Equiv.swap_self]
    rfl
  · have frame : ∀ (B : Matrix (Fin M) (Fin N) K) (i : Fin M), ∀ j' ≠ j,
        setEntry (setEntry B a j' (B b j')) b j' (B a j') i j = B i j := by
      intro B i j' hj
      rw [setEntry_of_col_ne _ _ _ hj.symm, setEntry_of_col_ne _ _ _ hj.symm]
    refine foldl_once (entry i j) (fun B : Matrix (Fin M) (Fin N) K => fun i => B i j)
      (v := fun column => column (Equiv.swap a b i)) (nodup_indices _ _) (i := j) (by simp)
      (fun B j' _ hj => frame B i j' hj) (fun B j' _ hj => funext fun i => frame B i j' hj) ?_ A
    intro B
    rcases eq_or_ne i b with rfl | hib
    · simp
    · rcases eq_or_ne i a with rfl | hia
      · simp [setEntry, hab]
      · simp [setEntry, hia, hib, Equiv.swap_apply_of_ne_of_ne hia hib]

lemma swapCols_apply (A : Matrix (Fin M) (Fin N) K) (a b : Fin N) (i : Fin M) (j : Fin N) :
    swapCols A a b i j = A i (Equiv.swap a b j) := by
  rw [swapCols]
  split_ifs with hab
  · rw [hab, Equiv.swap_self]
    rfl
  · have frame : ∀ (B : Matrix (Fin M) (Fin N) K) (j : Fin N), ∀ i' ≠ i,
        setEntry (setEntry B i' a (B i' b)) i' b (B i' a) i j = B i j := by
      intro B j i' hi
      rw [setEntry_of_row_ne _ hi.symm, setEntry_of_row_ne _ hi.symm]
    refine foldl_once (entry i j) (fun B : Matrix (Fin M) (Fin N) K => B i)
      (v := fun row => row (Equiv.swap a b j)) (nodup_indices _ _) (i := i) (by simp)
      (fun B i' _ hi => frame B j i' hi) (fun B i' _ hi => funext fun j => frame B j i' hi) ?_ A
    intro B
    rcases eq_or_ne j b with rfl | hjb
    · simp
    · rcases eq_or_ne j a with rfl | hja
      · simp [setEntry, hab]
      · simp [setEntry, hja, hjb, Equiv.swap_apply_of_ne_of_ne hja hjb]

/-! ### The factorisation -/

/-- The matrices that `inv` works on. -/
structure LU (K : Type*) (M : ℕ) where
  L : Matrix (Fin M) (Fin M) K
  U : Matrix (Fin M) (Fin M) K
  P : Matrix (Fin M) (Fin M) K

/-- The swaps of one pivoting step: rows of `U`, `P` and `L`, and columns of `L`. -/
def swapAll (s : LU K M) (i n : Fin M) : LU K M where
  U := swapRows s.U i n
  P := swapRows s.P i n
  L := swapCols (swapRows s.L i n) i n

lemma swapAll_L (s : LU K M) (i n j k : Fin M) :
    (swapAll s i n).L j k = s.L (Equiv.swap i n j) (Equiv.swap i n k) :=
  (swapCols_apply _ i n j k).trans (swapRows_apply _ i n j _)

lemma swapAll_U (s : LU K M) (i n j k : Fin M) :
    (swapAll s i n).U j k = s.U (Equiv.swap i n j) k :=
  swapRows_apply _ i n j k

lemma swapAll_P (s : LU K M) (i n j k : Fin M) :
    (swapAll s i n).P j k = s.P (Equiv.swap i n j) k :=
  swapRows_apply _ i n j k

variable [Field K]

/-- Subtract a multiple of the row `n` from the row `i` below it. -/
def eliminateRow (rank : ℕ) (n : Fin M) (s : LU K M) (i : Fin M) : LU K M :=
  let L := setEntry s.L i n (s.U i n / s.U n n)
  { s with
    L := L
    U := (indices n rank).foldl (fun U k => setEntry U i k (U i k - L i n * U n k)) s.U }

/-- Subtract the row `n` from all the rows below it. -/
def eliminateBelow (rank : ℕ) (n : Fin M) (s : LU K M) : LU K M :=
  (indices (n.val + 1) rank).foldl (eliminateRow rank n) s

/-- Solve `L Y = P` for `Y` by forward substitution, in the place of `P`. -/
def forwardSubstitute (rank : ℕ) (L P : Matrix (Fin M) (Fin M) K) : Matrix (Fin M) (Fin M) K :=
  (indices 0 rank).foldl (fun P (c : Fin M) =>
    (indices 0 rank).foldl (fun P (i : Fin M) =>
      (indices 0 i).foldl (fun P j => setEntry P i c (P i c - L i j * P j c)) P) P) P

/-- Solve `U X = Y` for `X` by back substitution, in the place of `Y`; `i` runs downwards. -/
def backSubstitute (rank : ℕ) (U P : Matrix (Fin M) (Fin M) K) : Matrix (Fin M) (Fin M) K :=
  (indices 0 rank).foldl (fun P (c : Fin M) =>
    (indices 0 rank).reverse.foldl (fun P (i : Fin M) =>
      let P := (indices (i.val + 1) rank).foldl
        (fun P j => setEntry P i c (P i c - U i j * P j c)) P
      setEntry P i c (P i c / U i i)) P) P

variable [LinearOrder K]

/-- If the diagonal entry is zero, swap with a row below. -/
def pivot (rank : ℕ) (s : LU K M) (n : Fin M) : LU K M :=
  if |s.U n n| < FLT_EPSILON then
    match (indices (n.val + 1) rank).find? fun i => FLT_EPSILON < |s.U i n| with
    | some i => swapAll s i n
    | none => s
  else s

/-- One round of the loop over the diagonal, which fails on a diagonal entry that stays zero. -/
def factorStep (rank : ℕ) (s : LU K M) (n : Fin M) : Option (LU K M) :=
  let s := pivot rank s n
  if |s.U n n| < FLT_EPSILON then none
  else some (eliminateBelow rank n s)

/-- The loop over the diagonal. -/
def factor (A : Matrix (Fin M) (Fin M) K) (rank : ℕ) : Option (LU K M) :=
  (indices 0 rank).foldlM (factorStep rank) { L := 1, U := A, P := 1 }

/-- `inv(A, inv, rank)`: whether it succeeded, and the matrix `inv` afterwards. -/
def inv (A inv : Matrix (Fin M) (Fin M) K) (rank : ℕ) : Bool × Matrix (Fin M) (Fin M) K :=
  match factor A rank with
  | none => (false, inv)
  | some s =>
    let P := backSubstitute rank s.U (forwardSubstitute rank s.L s.P)
    -- the results are checked for sanity
    if (indices 0 rank).all fun i => (indices 0 rank).all fun j => isFinite (P i j) then
      (true, P)
    else (false, inv)

end RT1064.Mat
