import Mathlib.Algebra.Order.Field.Basic
import Mathlib.Algebra.Module.Defs
import Mathlib.Tactic

/-!
# Exact arithmetic with a non-finite value

`Extended K` has one value more than `K`, which stands for all infinities and NaNs: a division by
zero results in it, every operation on it results in it, and every comparison with it is false.
There is no overflow.
-/

namespace RT1064.Core

/-- Types with a test for finite values. -/
class IsFinite (T : Type*) where
  isFinite : T → Bool

/-- A value of exact arithmetic, or the result of a division by zero. -/
inductive Extended (K : Type*) where
  | finite (x : K)
  | nonfinite
  deriving DecidableEq

namespace Extended

variable {K V : Type*}

lemma finite_injective : Function.Injective (finite : K → Extended K) := by
  intro x y h
  injection h

/-- The operation that is `f` on finite values. -/
def map (f : K → V) : Extended K → Extended V
  | finite x  => finite (f x)
  | nonfinite => nonfinite

/-- The operation that is `f` on two finite values. -/
def map₂ {W : Type*} (f : K → V → W) : Extended K → Extended V → Extended W
  | finite x, finite y => finite (f x y)
  | _, _               => nonfinite

instance : IsFinite (Extended K) where
  isFinite
    | finite _  => true
    | nonfinite => false

instance [Zero K] : Zero (Extended K) := ⟨finite 0⟩

instance [One K] : One (Extended K) := ⟨finite 1⟩

instance [Neg K] : Neg (Extended K) := ⟨map Neg.neg⟩

instance [Add K] : Add (Extended K) := ⟨map₂ (· + ·)⟩

instance [Sub K] : Sub (Extended K) := ⟨map₂ (· - ·)⟩

instance [Mul K] : Mul (Extended K) := ⟨map₂ (· * ·)⟩

instance [SMul K V] : SMul (Extended K) (Extended V) := ⟨map₂ (· • ·)⟩

instance [Zero K] [DecidableEq K] [Div K] : Div (Extended K) where
  div
    | finite x, finite y => if y = 0 then nonfinite else finite (x / y)
    | _, _               => nonfinite

instance [LT K] : LT (Extended K) where
  lt
    | finite x, finite y => x < y
    | _, _               => False

instance [LE K] : LE (Extended K) where
  le
    | finite x, finite y => x ≤ y
    | _, _               => False

instance [LT K] [DecidableLT K] : DecidableLT (Extended K)
  | finite x, finite y    => inferInstanceAs (Decidable (x < y))
  | finite _, nonfinite   => .isFalse id
  | nonfinite, finite _   => .isFalse id
  | nonfinite, nonfinite  => .isFalse id

instance [LE K] [DecidableLE K] : DecidableLE (Extended K)
  | finite x, finite y    => inferInstanceAs (Decidable (x ≤ y))
  | finite _, nonfinite   => .isFalse id
  | nonfinite, finite _   => .isFalse id
  | nonfinite, nonfinite  => .isFalse id

/-- `fabsf`. -/
def fabs [Lattice K] [AddGroup K] : Extended K → Extended K := map abs

/-! ### Finite values -/

@[simp] lemma isFinite_finite (x : K) : IsFinite.isFinite (finite x) = true := rfl

@[simp] lemma isFinite_nonfinite : IsFinite.isFinite (nonfinite : Extended K) = false := rfl

lemma isFinite_iff {x : Extended K} : IsFinite.isFinite x = true ↔ ∃ a, x = finite a := by
  cases x with
  | finite a => exact ⟨fun _ => ⟨a, rfl⟩, fun _ => rfl⟩
  | nonfinite =>
    constructor
    · intro h
      cases h
    · rintro ⟨a, h⟩
      cases h

@[simp] lemma map_finite (f : K → V) (x : K) : map f (finite x) = finite (f x) := rfl

lemma isFinite_of_map {f : K → V} {x : Extended K} (h : IsFinite.isFinite (map f x) = true) :
    ∃ a, x = finite a := by
  cases x with
  | finite a => exact ⟨a, rfl⟩
  | nonfinite => cases h

section Arithmetic

lemma zero_eq [Zero K] : (0 : Extended K) = finite 0 := rfl

lemma one_eq [One K] : (1 : Extended K) = finite 1 := rfl

@[simp] lemma neg_finite [Neg K] (x : K) : -finite x = finite (-x) := rfl

@[simp] lemma finite_add [Add K] (x y : K) : finite x + finite y = finite (x + y) := rfl

@[simp] lemma finite_sub [Sub K] (x y : K) : finite x - finite y = finite (x - y) := rfl

@[simp] lemma finite_mul [Mul K] (x y : K) : finite x * finite y = finite (x * y) := rfl

@[simp] lemma finite_smul [SMul K V] (x : K) (v : V) : finite x • finite v = finite (x • v) := rfl

@[simp] lemma fabs_finite [Lattice K] [AddGroup K] (x : K) : fabs (finite x) = finite |x| := rfl

@[simp] lemma finite_lt_finite [LT K] (x y : K) : finite x < finite y ↔ x < y := Iff.rfl

@[simp] lemma finite_le_finite [LE K] (x y : K) : finite x ≤ finite y ↔ x ≤ y := Iff.rfl

variable [Zero K] [DecidableEq K] [Div K]

lemma finite_div {x y : K} (hy : y ≠ 0) : finite x / finite y = finite (x / y) := if_neg hy

@[simp] lemma finite_div_zero (x : K) : finite x / finite 0 = nonfinite := if_pos rfl

end Arithmetic

/-! ### The non-finite value -/

section Absorbing

@[simp] lemma nonfinite_add [Add K] (x : Extended K) : nonfinite + x = nonfinite := by
  cases x <;> rfl

@[simp] lemma nonfinite_sub [Sub K] (x : Extended K) : nonfinite - x = nonfinite := by
  cases x <;> rfl

@[simp] lemma sub_nonfinite [Sub K] (x : Extended K) : x - nonfinite = nonfinite := by
  cases x <;> rfl

@[simp] lemma nonfinite_smul [SMul K V] (v : Extended V) :
    (nonfinite : Extended K) • v = nonfinite := by
  cases v <;> rfl

@[simp] lemma smul_nonfinite [SMul K V] (x : Extended K) :
    x • (nonfinite : Extended V) = nonfinite := by
  cases x <;> rfl

@[simp] lemma div_nonfinite [Zero K] [DecidableEq K] [Div K] (x : Extended K) :
    x / nonfinite = nonfinite := by
  cases x <;> rfl

end Absorbing

end Extended

end RT1064.Core
