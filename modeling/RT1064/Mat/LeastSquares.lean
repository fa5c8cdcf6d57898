import RT1064.Core.Householder
import RT1064.Mat.Basic
import RT1064.Mat.Cmath

/-!
# Least squares

The solver factors a matrix by Householder reflections. The vectors of the reflections are stored
below the diagonal, in the place of the zeros, and are replayed on the right-hand side.
-/

namespace RT1064.Mat

open Core Matrix

variable {K : Type*} {M N : ℕ}

/-! ### The solver -/

section Model

variable [Field K]

/-- `Type(1e-8)`. -/
def tiny : K := 1 / 100000000

/-- `LeastSquaresSolver`, which asserts that there are no fewer rows than columns. -/
structure LeastSquaresSolver (K : Type*) (M N : ℕ) where
  le : N ≤ M
  A : Matrix (Fin M) (Fin N) K
  tau : Fin N → K

/-- The place of the row `i` in the array `w` of the column `j`. -/
def offset (j : Fin N) (i : Fin M) : Fin M :=
  ⟨i.val - j.val, lt_of_le_of_lt (Nat.sub_le _ _) i.isLt⟩

/-- The array `w` with its first entry. -/
def firstEntry : Fin M → K := fun o => if o.val = 0 then 1 else 0

/-- A matrix and the array `w` that one of its columns is divided into. -/
structure Divided (K : Type*) (M N : ℕ) where
  A : Matrix (Fin M) (Fin N) K
  w : Fin M → K

/-- Divide the entry `i` of the column `j` and store it in both places. -/
def divideEntry [DecidableEq K] (j : Fin N) (u1 : K) (c : Divided K M N) (i : Fin M) :
    Option (Divided K M N) :=
  (divide (c.A i j) u1).map fun q =>
    { A := setEntry c.A i j q, w := Function.update c.w (offset j i) q }

/-- Reflect the column `k` by the array of the column `j`. -/
def reflectColumn (w : Fin M → K) (tau : K) (j : Fin N) (A : Matrix (Fin M) (Fin N) K)
    (k : Fin N) : Matrix (Fin M) (Fin N) K :=
  let tmp := (indices j.val M).foldl (fun tmp i => tmp + w (offset j i) * A i k) 0
  (indices j.val M).foldl
    (fun A i => setEntry A i k (A i k - tau * w (offset j i) * tmp)) A

/-- Reflect a vector by the array of the column `j`. -/
def reflectVector (w : Fin M → K) (tau : K) (j : Fin N) (y : Fin M → K) : Fin M → K :=
  let tmp := (indices j.val M).foldl (fun tmp i => tmp + w (offset j i) * y i) 0
  (indices j.val M).foldl
    (fun y i => Function.update y i (y i - tau * w (offset j i) * tmp)) y

namespace LeastSquaresSolver

/-- The row on the diagonal. -/
def row (s : LeastSquaresSolver K M N) (j : Fin N) : Fin M := Fin.castLE s.le j

section Order

variable [LinearOrder K] [Cmath K]

/-- The norm of the column `j` from the diagonal on. -/
def normx (s : LeastSquaresSolver K M N) (j : Fin N) : K :=
  Cmath.sqrt ((indices j.val M).foldl (fun normx i => normx + s.A i j * s.A i j) 0)

/-- The sign `s` of the column `j`. -/
def sign (s : LeastSquaresSolver K M N) (j : Fin N) : K := if 0 < s.A (s.row j) j then -1 else 1

/-- The divisor `u1` of the column `j`. -/
def u1 (s : LeastSquaresSolver K M N) (j : Fin N) : K := s.A (s.row j) j - s.sign j * s.normx j

/-- The round `j` of the constructor, and whether the loop goes on after it. -/
def column (s : LeastSquaresSolver K M N) (j : Fin N) :
    Option (LeastSquaresSolver K M N × Bool) :=
  -- prevent divide by zero
  if s.normx j < tiny then some (s, false)
  else
    ((indices (j.val + 1) M).foldlM (divideEntry j (s.u1 j)) { A := s.A, w := firstEntry }).bind
      fun c => (divide (-s.sign j * s.u1 j) (s.normx j)).map fun t =>
        let A := setEntry c.A (s.row j) j (s.sign j * s.normx j)
        ({ le := s.le
           A := (indices (j.val + 1) N).foldl (reflectColumn c.w t j) A
           tau := Function.update s.tau j t }, true)

/-- The rounds of the constructor, which may break off. -/
def columns : List (Fin N) → LeastSquaresSolver K M N → Option (LeastSquaresSolver K M N)
  | [], s => some s
  | j :: js, s =>
    match s.column j with
    | none => none
    | some (s, false) => some s
    | some (s, true) => columns js s

/-- The constructor. -/
def construct (h : N ≤ M) (A : Matrix (Fin M) (Fin N) K) :
    Option (LeastSquaresSolver K M N) :=
  columns (indices 0 N) { le := h, A := A, tau := 0 }

/-- The norms that the rounds compute. -/
def norms : List (Fin N) → LeastSquaresSolver K M N → List K
  | [], _ => []
  | j :: js, s =>
    s.normx j ::
      match s.column j with
      | some (s, true) => norms js s
      | _ => []

end Order

/-- The array `w` of the column `j`, as `qtb` reads it back. -/
def stored (s : LeastSquaresSolver K M N) (j : Fin N) : Fin M → K :=
  (indices (j.val + 1) M).foldl (fun w i => Function.update w (offset j i) (s.A i j)) firstEntry

/-- `LeastSquaresSolver::qtb`. -/
def qtb (s : LeastSquaresSolver K M N) (b : Fin M → K) : Fin M → K :=
  (indices 0 N).foldl (fun qtbv j => reflectVector (s.stored j) (s.tau j) j qtbv) b

/-- The entry `i` of the solution before it is divided. -/
def substitute (s : LeastSquaresSolver K M N) (qtbv : Fin M → K) (x : Fin N → K) (i : Fin N) :
    Fin N → K :=
  let x := Function.update x i (qtbv (s.row i))
  (indices (i.val + 1) N).foldl
    (fun x r => Function.update x i (x i - s.A (s.row i) r * x r)) x

variable [LinearOrder K]

/-- The loop of `solve` from the index `i` on, which counts down as an unsigned number. -/
def solveLoop (s : LeastSquaresSolver K M N) (qtbv : Fin M → K) :
    (fuel i : ℕ) → (Fin N → K) → Option (Fin N → K)
  | 0, _, _ => none
  | fuel + 1, i, x =>
    if h : i < N then
      let x := s.substitute qtbv x ⟨i, h⟩
      -- divide by zero, return vector of zeros
      if isEqualF (s.A (s.row ⟨i, h⟩) ⟨i, h⟩) 0 tiny then
        some ((indices 0 N).foldl (fun x z => Function.update x z 0) x)
      else
        (divide (x ⟨i, h⟩) (s.A (s.row ⟨i, h⟩) ⟨i, h⟩)).bind fun q =>
          -- `size_t` is 32 bits wide
          solveLoop s qtbv fuel ((i + (2 ^ 32 - 1)) % 2 ^ 32) (Function.update x ⟨i, h⟩ q)
    else some x

/-- `LeastSquaresSolver::solve`. -/
def solve (s : LeastSquaresSolver K M N) (b : Fin M → K) (fuel : ℕ) : Option (Fin N → K) :=
  solveLoop s (s.qtb b) fuel (N - 1) 0

end LeastSquaresSolver

end Model

/-! ### The reflections -/

section Reflections

variable [Field K] (w : Fin M → K) (tau : K) (j : Fin N)

/-- The array `w` as a vector that is zero above the diagonal. -/
def spread : Fin M → K := fun i => if j.val ≤ i.val then w (offset j i) else 0

lemma foldl_spread (y : Fin M → K) :
    (indices j.val M).foldl (fun tmp i => tmp + w (offset j i) * y i) 0 = spread w j ⬝ᵥ y := by
  rw [foldl_add_eq_sum, sum_map_indices, zero_add, Finset.sum_filter]
  refine Finset.sum_congr rfl fun i _ => ?_
  rw [spread, ite_mul, zero_mul]
  exact if_congr (and_iff_left i.isLt) rfl rfl

/-- The loops over a vector are a reflection. -/
lemma reflectVector_eq (y : Fin M → K) :
    reflectVector w tau j y = reflector tau (spread w j) *ᵥ y := by
  ext i
  rw [reflectVector, foldl_spread, reflector_mulVec, spread]
  split_ifs with hi
  · refine foldl_once (fun y : Fin M → K => y i) (fun y => y i)
      (v := fun x => x - tau * w (offset j i) * (spread w j ⬝ᵥ y)) (nodup_indices _ _)
      (mem_indices.2 ⟨hi, i.isLt⟩) ?_ ?_ ?_ y
    · intro y i' _ hi'
      exact Function.update_of_ne hi'.symm _ _
    · intro y i' _ hi'
      exact Function.update_of_ne hi'.symm _ _
    · intro y
      exact Function.update_self _ _ _
  · rw [mul_zero, zero_mul, sub_zero]
    apply foldl_frame (fun y : Fin M → K => y i)
    intro y i' hi'
    refine Function.update_of_ne ?_ _ _
    rintro rfl
    exact hi (mem_indices.1 hi').1

variable (A : Matrix (Fin M) (Fin N) K)

lemma col_reflectColumn (k : Fin N) :
    (reflectColumn w tau j A k).col k = reflectVector w tau j (A.col k) := by
  refine (List.foldl_hom (fun A : Matrix (Fin M) (Fin N) K => A.col k) ?_).symm
  intro A i
  rw [col_setEntry]
  rfl

lemma col_reflectColumn_of_ne {k k' : Fin N} (h : k ≠ k') :
    (reflectColumn w tau j A k').col k = A.col k := by
  apply foldl_frame (fun A : Matrix (Fin M) (Fin N) K => A.col k)
  intro A i _
  exact col_setEntry_of_ne A i h _

/-- The loop over the columns on the right reflects each of them. -/
lemma col_reflectColumns (k : Fin N) :
    ((indices (j.val + 1) N).foldl (reflectColumn w tau j) A).col k =
      if j < k then reflector tau (spread w j) *ᵥ A.col k else A.col k := by
  split_ifs with hk
  · rw [← reflectVector_eq]
    refine foldl_once (fun A : Matrix (Fin M) (Fin N) K => A.col k)
      (fun A : Matrix (Fin M) (Fin N) K => A.col k) (nodup_indices _ _)
      (mem_indices.2 ⟨hk, k.isLt⟩) ?_ ?_ (fun A => col_reflectColumn w tau j A k) A
    · intro A k' _ hk'
      exact col_reflectColumn_of_ne w tau j A hk'.symm
    · intro A k' _ hk'
      exact col_reflectColumn_of_ne w tau j A hk'.symm
  · apply foldl_frame (fun A : Matrix (Fin M) (Fin N) K => A.col k)
    intro A k' hk'
    refine col_reflectColumn_of_ne w tau j A ?_
    rintro rfl
    exact hk (mem_indices.1 hk').1

end Reflections

/-! ### The array of a column -/

section Arrays

variable [Field K] {j : Fin N}

lemma offset_ne {i i' : Fin M} (hi : j.val < i.val) (hne : i' ≠ i) : offset j i' ≠ offset j i := by
  intro h
  have hval : i'.val - j.val = i.val - j.val := congrArg Fin.val h
  exact hne (Fin.ext (by omega))

lemma offset_self {p : Fin M} (hp : p.val = j.val) : (offset j p).val = 0 :=
  Nat.sub_eq_zero_of_le hp.le

/-- What an array holds that begins with `1` and goes on with `x`. -/
lemma spread_eq_householder {w x v : Fin M → K} {p : Fin M} {u : K} (hp : p.val = j.val)
    (hone : w (offset j p) = 1) (hrest : ∀ i : Fin M, j.val < i.val → w (offset j i) = x i)
    (hx : ∀ i : Fin M, j.val < i.val → x i = v i / u)
    (hv : ∀ i : Fin M, i.val < j.val → v i = 0) : spread w j = householder v p u := by
  ext i
  rw [spread]
  rcases lt_trichotomy i.val j.val with hi | hi | hi
  · rw [if_neg (not_le.2 hi), householder_of_ne, hv i hi, zero_div]
    rintro rfl
    exact hi.ne hp
  · obtain rfl : i = p := Fin.ext (hi.trans hp.symm)
    rw [if_pos hi.ge, householder_self, hone]
  · rw [if_pos hi.le, householder_of_ne, hrest i hi, hx i hi]
    rintro rfl
    exact hi.ne' hp

variable (s : LeastSquaresSolver K M N)

lemma stored_offset {i : Fin M} (hi : j.val < i.val) : s.stored j (offset j i) = s.A i j := by
  refine foldl_once (fun w : Fin M → K => w (offset j i)) (fun _ => s.A i j) (v := id)
    (nodup_indices _ _) (mem_indices.2 ⟨hi, i.isLt⟩) ?_ (fun _ _ _ _ => rfl) ?_ _
  · intro w i' _ hne
    exact Function.update_of_ne (offset_ne hi hne).symm _ _
  · intro w
    exact Function.update_self _ _ _

lemma stored_self {p : Fin M} (hp : p.val = j.val) : s.stored j (offset j p) = 1 := by
  refine (foldl_frame (fun w : Fin M → K => w (offset j p)) ?_ _).trans (if_pos (offset_self hp))
  intro w i hi
  have hne : p ≠ i := by
    rintro rfl
    exact absurd (mem_indices.1 hi).1 (by omega)
  exact Function.update_of_ne (offset_ne (mem_indices.1 hi).1 hne) _ _

variable [DecidableEq K] {u1 : K}

/-- The loop that divides the column does not divide by zero, and stores each quotient twice. -/
lemma divideEntries (hu : u1 ≠ 0) (A : Matrix (Fin M) (Fin N) K) :
    ∃ c : Divided K M N,
      (indices (j.val + 1) M).foldlM (divideEntry j u1) { A := A, w := firstEntry } = some c ∧
      (∀ i k, k ≠ j → c.A i k = A i k) ∧ (∀ i : Fin M, i.val ≤ j.val → c.A i j = A i j) ∧
      (∀ i : Fin M, j.val < i.val → c.A i j = A i j / u1 ∧ c.w (offset j i) = A i j / u1) ∧
      ∀ p : Fin M, p.val = j.val → c.w (offset j p) = 1 := by
  have hsome : ∀ (c : Divided K M N) (i : Fin M), divideEntry j u1 c i = some
      { A := setEntry c.A i j (c.A i j / u1)
        w := Function.update c.w (offset j i) (c.A i j / u1) } := by
    intro c i
    rw [divideEntry, divide_of_ne_zero _ hu]
    rfl
  refine ⟨_, foldlM_eq_some hsome _ _, ?_, ?_, ?_, ?_⟩
  · intro i k hk
    apply foldl_frame (fun c : Divided K M N => c.A i k)
    intro c i' _
    exact setEntry_of_col_ne c.A i' i hk _
  · intro i hi
    apply foldl_frame (fun c : Divided K M N => c.A i j)
    intro c i' hi'
    refine setEntry_of_row_ne c.A ?_ j j _
    rintro rfl
    exact absurd (mem_indices.1 hi').1 (not_lt.2 hi)
  · intro i hi
    have hboth := foldl_once (fun c : Divided K M N => (c.A i j, c.w (offset j i)))
      (fun c : Divided K M N => c.A i j) (v := fun x => (x / u1, x / u1))
      (f := fun (c : Divided K M N) i =>
        { A := setEntry c.A i j (c.A i j / u1)
          w := Function.update c.w (offset j i) (c.A i j / u1) })
      (nodup_indices _ _) (mem_indices.2 ⟨hi, i.isLt⟩) ?_ ?_ ?_ { A := A, w := firstEntry }
    · exact Prod.ext_iff.1 hboth
    · intro c i' _ hne
      exact Prod.ext (setEntry_of_row_ne c.A hne.symm j j _)
        (Function.update_of_ne (offset_ne hi hne).symm _ _)
    · intro c i' _ hne
      exact setEntry_of_row_ne c.A hne.symm j j _
    · intro c
      exact Prod.ext (setEntry_self c.A i j _) (Function.update_self _ _ _)
  · intro p hp
    refine (foldl_frame (fun c : Divided K M N => c.w (offset j p)) ?_ _).trans
      (if_pos (offset_self hp))
    intro c i hi
    have hne : p ≠ i := by
      rintro rfl
      exact absurd (mem_indices.1 hi).1 (by omega)
    exact Function.update_of_ne (offset_ne (mem_indices.1 hi).1 hne) _ _

end Arrays

/-! ### One column -/

namespace LeastSquaresSolver

section Column

variable (s : LeastSquaresSolver ℝ M N) (j : Fin N)

lemma tiny_pos : (0 : ℝ) < tiny := by
  rw [tiny]
  positivity

/-- The column `j` from the diagonal on. -/
def tail : Fin M → ℝ := fun i => if j.val ≤ i.val then s.A i j else 0

/-- The reflection that the column `j` is for. -/
noncomputable def reflection : Matrix (Fin M) (Fin M) ℝ :=
  reflector (-s.sign j * s.u1 j / s.normx j) (householder (s.tail j) (s.row j) (s.u1 j))

lemma tail_row : s.tail j (s.row j) = s.A (s.row j) j := if_pos le_rfl

lemma tail_above {i : Fin M} (hi : i.val < j.val) : s.tail j i = 0 := if_neg (not_le.2 hi)

lemma tail_below {i : Fin M} (hi : j.val < i.val) : s.tail j i = s.A i j := if_pos hi.le

lemma normx_eq : s.normx j = √(s.tail j ⬝ᵥ s.tail j) := by
  have hsum : (indices j.val M).foldl (fun normx i => normx + s.A i j * s.A i j) 0 =
      s.tail j ⬝ᵥ s.tail j := by
    rw [foldl_add_eq_sum, sum_map_indices, zero_add, Finset.sum_filter]
    refine Finset.sum_congr rfl fun i _ => ?_
    rw [tail, ite_mul_ite, zero_mul]
    exact if_congr (and_iff_left i.isLt) rfl rfl
  rw [normx, hsum, sqrt_real]

lemma normx_sq : s.normx j ^ 2 = s.tail j ⬝ᵥ s.tail j := by
  rw [normx_eq, Real.sq_sqrt]
  exact Finset.sum_nonneg fun i _ => mul_self_nonneg _

lemma abs_le_normx : |s.A (s.row j) j| ≤ s.normx j := by
  rw [normx_eq, ← s.tail_row j, ← Real.sqrt_sq_eq_abs, sq]
  exact Real.sqrt_le_sqrt (Finset.single_le_sum (f := fun i => s.tail j i * s.tail j i)
    (fun i _ => mul_self_nonneg _) (Finset.mem_univ _))

lemma sign_sq : s.sign j ^ 2 = 1 := by
  rw [sign]
  split_ifs
  · exact neg_one_sq
  · exact one_pow 2

/-- The sign is chosen so that nothing cancels. -/
lemma u1_ne_zero (h : 0 < s.normx j) : s.u1 j ≠ 0 := by
  rw [u1, sign]
  split_ifs with hpos
  · rw [neg_one_mul, sub_neg_eq_add]
    exact (add_pos hpos h).ne'
  · rw [one_mul]
    exact (sub_neg.2 (lt_of_le_of_lt (not_lt.1 hpos) h)).ne

/-- What a round that goes on makes of the solver. -/
structure Reflected (s' : LeastSquaresSolver ℝ M N) : Prop where
  left : ∀ i k, k < j → s'.A i k = s.A i k
  above : ∀ i : Fin M, i.val < j.val → s'.A i j = s.A i j
  diag : s'.A (s.row j) j = s.sign j * s.normx j
  below : ∀ i : Fin M, j.val < i.val → s'.A i j = s.A i j / s.u1 j
  right : ∀ k, j < k → s'.A.col k = s.reflection j *ᵥ s.A.col k
  tau : s'.tau = Function.update s.tau j (-s.sign j * s.u1 j / s.normx j)

variable {s j}

lemma column_of_lt (h : s.normx j < tiny) : s.column j = some (s, false) := if_pos h

/-- A round that goes on divides by numbers that are not zero. -/
lemma column_of_ge (h : ¬ s.normx j < tiny) :
    ∃ s', s.column j = some (s', true) ∧ s.Reflected j s' := by
  have hnormx : 0 < s.normx j := lt_of_lt_of_le tiny_pos (not_lt.1 h)
  obtain ⟨c, hc, hother, habove, hbelow, hone⟩ :=
    divideEntries (j := j) (s.u1_ne_zero j hnormx) s.A
  set t := -s.sign j * s.u1 j / s.normx j with ht
  have hdivide : divide (-s.sign j * s.u1 j) (s.normx j) = some t :=
    divide_of_ne_zero _ hnormx.ne'
  have hspread : spread c.w j = householder (s.tail j) (s.row j) (s.u1 j) :=
    spread_eq_householder rfl (hone _ rfl) (fun i hi => (hbelow i hi).2)
      (fun i hi => by rw [s.tail_below j hi]) fun i hi => s.tail_above j hi
  set A := setEntry c.A (s.row j) j (s.sign j * s.normx j) with hA
  have hcol : ∀ k, ((indices (j.val + 1) N).foldl (reflectColumn c.w t j) A).col k =
      if j < k then s.reflection j *ᵥ A.col k else A.col k := by
    intro k
    rw [col_reflectColumns, hspread]
    rfl
  have hne : ∀ k, k ≠ j → A.col k = s.A.col k := by
    intro k hk
    rw [hA, col_setEntry_of_ne c.A _ hk]
    exact funext fun i => hother i k hk
  refine ⟨{
    le := s.le
    A := (indices (j.val + 1) N).foldl (reflectColumn c.w t j) A
    tau := Function.update s.tau j t }, ?_, ?_⟩
  · rw [column, if_neg h, hc, Option.bind_some, hdivide, Option.map_some]
  · have hentry : ∀ i k, ¬ j < k →
        (indices (j.val + 1) N).foldl (reflectColumn c.w t j) A i k = A i k := by
      intro i k hk
      have hfun := congrFun (hcol k) i
      rw [if_neg hk] at hfun
      exact hfun
    have hoff : ∀ i : Fin M, i.val ≠ j.val → A i j = c.A i j := by
      intro i hi
      refine setEntry_of_row_ne c.A ?_ j j _
      rintro rfl
      exact hi rfl
    refine ⟨?_, ?_, ?_, ?_, ?_, rfl⟩
    · intro i k hk
      exact (hentry i k hk.asymm).trans (congrFun (hne k hk.ne) i)
    · intro i hi
      exact (hentry i j (lt_irrefl j)).trans ((hoff i hi.ne).trans (habove i hi.le))
    · exact (hentry _ j (lt_irrefl j)).trans (setEntry_self c.A _ j _)
    · intro i hi
      exact (hentry i j (lt_irrefl j)).trans ((hoff i hi.ne').trans (hbelow i hi).1)
    · intro k hk
      have hreflect := hcol k
      rw [if_pos hk, hne k hk.ne'] at hreflect
      exact hreflect

end Column

end LeastSquaresSolver

end RT1064.Mat
