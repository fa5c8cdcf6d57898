import RT1064.Core.RationalExpr
import RT1064.Mat.Basic

/-!
# Automatic differentiation with dual numbers

A `Dual` carries a value and its derivatives with respect to `N` inputs. Evaluating an expression
with the operators of `Dual` gives the value and the partial derivatives of the expression.
-/

namespace RT1064.Mat

open Core

variable {K : Type*} {N : ℕ}

/-- The fields of `Dual<Scalar, N>`. -/
@[ext] structure Dual (K : Type*) (N : ℕ) where
  value : K
  derivative : Fin N → K

namespace Dual

variable [Field K]

/-- `Dual(v, inputDimension)`: the input `inputDimension`, or a constant if there is no such
input. -/
def ofInput (v : K) (inputDimension : ℕ) : Dual K N where
  value := v
  derivative := if h : inputDimension < N then Function.update 0 ⟨inputDimension, h⟩ 1 else 0

/-- `Dual(v)`, with the default of `inputDimension`. -/
def ofScalar (v : K) : Dual K N := ofInput v 65535

/-- Unary minus. -/
def neg (a : Dual K N) : Dual K N := ⟨-a.value, -a.derivative⟩

/-- `Dual + Dual`. -/
def add (a b : Dual K N) : Dual K N := ⟨a.value + b.value, a.derivative + b.derivative⟩

/-- `Dual - Dual`. -/
def sub (a b : Dual K N) : Dual K N := add a (neg b)

/-- `Dual + Scalar`. -/
def addScalar (a : Dual K N) (b : K) : Dual K N := ⟨a.value + b, a.derivative⟩

/-- `Dual - Scalar`. -/
def subScalar (a : Dual K N) (b : K) : Dual K N := addScalar a (-b)

/-- `Scalar + Dual`. -/
def scalarAdd (a : K) (b : Dual K N) : Dual K N := ⟨a + b.value, b.derivative⟩

/-- `Scalar - Dual`. -/
def scalarSub (a : K) (b : Dual K N) : Dual K N := scalarAdd a (neg b)

/-- `Dual * Dual`. -/
def mul (a b : Dual K N) : Dual K N :=
  ⟨a.value * b.value, vecMulScalar b.derivative a.value + vecMulScalar a.derivative b.value⟩

/-- `Dual * Scalar`. -/
def mulScalar (a : Dual K N) (b : K) : Dual K N := ⟨a.value * b, vecMulScalar a.derivative b⟩

/-- `Scalar * Dual`. -/
def scalarMul (a : K) (b : Dual K N) : Dual K N := mulScalar b a

/-- `Dual / Dual`. -/
def div (a b : Dual K N) : Dual K N :=
  let invBReal := 1 / b.value
  ⟨a.value * invBReal,
    vecMulScalar a.derivative invBReal -
      vecMulScalar (vecMulScalar (vecMulScalar b.derivative a.value) invBReal) invBReal⟩

/-- `Dual / Scalar`. -/
def divScalar (a : Dual K N) (b : K) : Dual K N := mulScalar a (1 / b)

/-- `Scalar / Dual`. -/
def scalarDiv (a : K) (b : Dual K N) : Dual K N :=
  let invBReal := 1 / b.value
  ⟨a * invBReal, vecMulScalar b.derivative (-invBReal * a * invBReal)⟩

end Dual

/-! ### Expressions over `Dual` -/

/-- The expressions that can be written with the operators of `Dual`, each in its overloads with
`Dual` and scalar operands. -/
inductive DualExpr (K : Type*) (N : ℕ)
  | var (k : Fin N)
  | const (c : K)
  | neg (a : DualExpr K N)
  | add (a b : DualExpr K N)
  | addScalar (a : DualExpr K N) (c : K)
  | scalarAdd (c : K) (a : DualExpr K N)
  | sub (a b : DualExpr K N)
  | subScalar (a : DualExpr K N) (c : K)
  | scalarSub (c : K) (a : DualExpr K N)
  | mul (a b : DualExpr K N)
  | mulScalar (a : DualExpr K N) (c : K)
  | scalarMul (c : K) (a : DualExpr K N)
  | div (a b : DualExpr K N)
  | divScalar (a : DualExpr K N) (c : K)
  | scalarDiv (c : K) (a : DualExpr K N)

namespace DualExpr

/-- The expression without the distinction of the overloads. -/
def toRationalExpr : DualExpr K N → RationalExpr K (Fin N)
  | var k         => .var k
  | const c       => .const c
  | neg a         => .neg a.toRationalExpr
  | add a b       => .add a.toRationalExpr b.toRationalExpr
  | addScalar a c => .add a.toRationalExpr (.const c)
  | scalarAdd c a => .add (.const c) a.toRationalExpr
  | sub a b       => .sub a.toRationalExpr b.toRationalExpr
  | subScalar a c => .sub a.toRationalExpr (.const c)
  | scalarSub c a => .sub (.const c) a.toRationalExpr
  | mul a b       => .mul a.toRationalExpr b.toRationalExpr
  | mulScalar a c => .mul a.toRationalExpr (.const c)
  | scalarMul c a => .mul (.const c) a.toRationalExpr
  | div a b       => .div a.toRationalExpr b.toRationalExpr
  | divScalar a c => .div a.toRationalExpr (.const c)
  | scalarDiv c a => .div (.const c) a.toRationalExpr

variable [Field K]

/-- Evaluation with the operators of `Dual`, variable `k` entered as `Dual(x_k, k)`. -/
def evalDual (x : Fin N → K) : DualExpr K N → Dual K N
  | var k         => .ofInput (x k) k
  | const c       => .ofScalar c
  | neg a         => (a.evalDual x).neg
  | add a b       => (a.evalDual x).add (b.evalDual x)
  | addScalar a c => (a.evalDual x).addScalar c
  | scalarAdd c a => .scalarAdd c (a.evalDual x)
  | sub a b       => (a.evalDual x).sub (b.evalDual x)
  | subScalar a c => (a.evalDual x).subScalar c
  | scalarSub c a => .scalarSub c (a.evalDual x)
  | mul a b       => (a.evalDual x).mul (b.evalDual x)
  | mulScalar a c => (a.evalDual x).mulScalar c
  | scalarMul c a => .scalarMul c (a.evalDual x)
  | div a b       => (a.evalDual x).div (b.evalDual x)
  | divScalar a c => (a.evalDual x).divScalar c
  | scalarDiv c a => .scalarDiv c (a.evalDual x)

end DualExpr

/-! ### What the operators represent -/

/-- The dual number holds the value of the expression at `x` and its partial derivatives there. -/
structure Represents [Field K] (x : Fin N → K) (d : Dual K N) (e : RationalExpr K (Fin N)) :
    Prop where
  value_eq : d.value = e.eval x
  derivative_eq : ∀ k, d.derivative k = (e.partialDerivative k).eval x

namespace Represents

variable [Field K] {x : Fin N → K} {a b : Dual K N} {e f : RationalExpr K (Fin N)}

lemma var (k : Fin N) : Represents x (.ofInput (x k) k) (.var k) where
  value_eq := rfl
  derivative_eq := by
    intro j
    simp only [Dual.ofInput, k.isLt, dif_pos, Fin.eta, RationalExpr.partialDerivative,
      RationalExpr.eval]
    rcases eq_or_ne k j with rfl | h
    · simp
    · simp [h, h.symm]

/-- The default of `inputDimension` is no input of a `Dual` with at most `65535` of them. -/
lemma const (hN : N ≤ 65535) (c : K) : Represents x (.ofScalar c) (.const c) where
  value_eq := rfl
  derivative_eq := by
    intro j
    simp [Dual.ofScalar, Dual.ofInput, hN.not_gt, RationalExpr.partialDerivative,
      RationalExpr.eval]

lemma neg (ha : Represents x a e) : Represents x a.neg (.neg e) where
  value_eq := congrArg Neg.neg ha.value_eq
  derivative_eq := fun k => congrArg Neg.neg (ha.derivative_eq k)

lemma add (ha : Represents x a e) (hb : Represents x b f) : Represents x (a.add b) (.add e f) where
  value_eq := congrArg₂ (· + ·) ha.value_eq hb.value_eq
  derivative_eq := fun k => congrArg₂ (· + ·) (ha.derivative_eq k) (hb.derivative_eq k)

lemma sub (ha : Represents x a e) (hb : Represents x b f) : Represents x (a.sub b) (.sub e f) where
  value_eq := (ha.add hb.neg).value_eq.trans (sub_eq_add_neg _ _).symm
  derivative_eq := fun k => ((ha.add hb.neg).derivative_eq k).trans (sub_eq_add_neg _ _).symm

lemma addScalar (ha : Represents x a e) (c : K) :
    Represents x (a.addScalar c) (.add e (.const c)) where
  value_eq := congrArg (· + c) ha.value_eq
  derivative_eq := fun k => (ha.derivative_eq k).trans (add_zero _).symm

lemma scalarAdd (ha : Represents x a e) (c : K) :
    Represents x (.scalarAdd c a) (.add (.const c) e) where
  value_eq := congrArg (c + ·) ha.value_eq
  derivative_eq := fun k => (ha.derivative_eq k).trans (zero_add _).symm

lemma subScalar (ha : Represents x a e) (c : K) :
    Represents x (a.subScalar c) (.sub e (.const c)) where
  value_eq := (ha.addScalar (-c)).value_eq.trans (sub_eq_add_neg _ _).symm
  derivative_eq := fun k => (ha.derivative_eq k).trans (sub_zero _).symm

lemma scalarSub (ha : Represents x a e) (c : K) :
    Represents x (.scalarSub c a) (.sub (.const c) e) where
  value_eq := (ha.neg.scalarAdd c).value_eq.trans (sub_eq_add_neg _ _).symm
  derivative_eq := fun k => (ha.neg.derivative_eq k).trans (zero_sub _).symm

lemma mul (ha : Represents x a e) (hb : Represents x b f) : Represents x (a.mul b) (.mul e f) where
  value_eq := congrArg₂ (· * ·) ha.value_eq hb.value_eq
  derivative_eq := by
    intro k
    show b.derivative k * a.value + a.derivative k * b.value =
      (e.partialDerivative k).eval x * f.eval x + e.eval x * (f.partialDerivative k).eval x
    rw [ha.value_eq, hb.value_eq, ha.derivative_eq, hb.derivative_eq]
    ring

lemma mulScalar (ha : Represents x a e) (c : K) :
    Represents x (a.mulScalar c) (.mul e (.const c)) where
  value_eq := congrArg (· * c) ha.value_eq
  derivative_eq := by
    intro k
    show a.derivative k * c = (e.partialDerivative k).eval x * c + e.eval x * 0
    rw [ha.derivative_eq, mul_zero, add_zero]

lemma scalarMul (ha : Represents x a e) (c : K) :
    Represents x (.scalarMul c a) (.mul (.const c) e) where
  value_eq := (ha.mulScalar c).value_eq.trans (mul_comm _ _)
  derivative_eq := by
    intro k
    show a.derivative k * c = 0 * e.eval x + c * (e.partialDerivative k).eval x
    rw [ha.derivative_eq, zero_mul, zero_add, mul_comm]

lemma div (ha : Represents x a e) (hb : Represents x b f) (h : f.eval x ≠ 0) :
    Represents x (a.div b) (.div e f) where
  value_eq := by
    show a.value * (1 / b.value) = e.eval x / f.eval x
    rw [ha.value_eq, hb.value_eq, mul_one_div]
  derivative_eq := by
    intro k
    show a.derivative k * (1 / b.value) -
        b.derivative k * a.value * (1 / b.value) * (1 / b.value) =
      ((e.partialDerivative k).eval x * f.eval x - e.eval x * (f.partialDerivative k).eval x) /
        (f.eval x * f.eval x)
    rw [ha.value_eq, hb.value_eq, ha.derivative_eq, hb.derivative_eq]
    field_simp

lemma divScalar (ha : Represents x a e) {c : K} (h : c ≠ 0) :
    Represents x (a.divScalar c) (.div e (.const c)) where
  value_eq := by
    show a.value * (1 / c) = e.eval x / c
    rw [ha.value_eq, mul_one_div]
  derivative_eq := by
    intro k
    show a.derivative k * (1 / c) = ((e.partialDerivative k).eval x * c - e.eval x * 0) / (c * c)
    rw [ha.derivative_eq]
    field_simp
    ring

lemma scalarDiv (ha : Represents x a e) (c : K) (h : e.eval x ≠ 0) :
    Represents x (.scalarDiv c a) (.div (.const c) e) where
  value_eq := by
    show c * (1 / a.value) = c / e.eval x
    rw [ha.value_eq, mul_one_div]
  derivative_eq := by
    intro k
    show a.derivative k * (-(1 / a.value) * c * (1 / a.value)) =
      (0 * e.eval x - c * (e.partialDerivative k).eval x) / (e.eval x * e.eval x)
    rw [ha.value_eq, ha.derivative_eq]
    field_simp
    ring

end Represents

/-- One operator after the other, the evaluation over `Dual` represents the expression. -/
lemma DualExpr.represents_evalDual [Field K] (hN : N ≤ 65535) (x : Fin N → K)
    (e : DualExpr K N) (h : e.toRationalExpr.Defined x) :
    Represents x (e.evalDual x) e.toRationalExpr := by
  induction e with
  | var k => exact .var k
  | const c => exact .const hN c
  | neg a iha => exact (iha h).neg
  | add a b iha ihb => exact (iha h.1).add (ihb h.2)
  | addScalar a c iha => exact (iha h.1).addScalar c
  | scalarAdd c a iha => exact (iha h.2).scalarAdd c
  | sub a b iha ihb => exact (iha h.1).sub (ihb h.2)
  | subScalar a c iha => exact (iha h.1).subScalar c
  | scalarSub c a iha => exact (iha h.2).scalarSub c
  | mul a b iha ihb => exact (iha h.1).mul (ihb h.2)
  | mulScalar a c iha => exact (iha h.1).mulScalar c
  | scalarMul c a iha => exact (iha h.2).scalarMul c
  | div a b iha ihb => exact (iha h.1).div (ihb h.2.1) h.2.2
  | divScalar a c iha => exact (iha h.1).divScalar h.2.2
  | scalarDiv c a iha => exact (iha h.2.1).scalarDiv c h.2.2

/-- Where no denominator is zero the evaluation over `Dual` gives the value of an expression and
its formal partial derivatives. -/
theorem DualExpr.evalDual_correct [Field K] (hN : N ≤ 65535) (x : Fin N → K) (e : DualExpr K N)
    (h : e.toRationalExpr.Defined x) :
    (e.evalDual x).value = e.toRationalExpr.eval x ∧
      ∀ k, (e.evalDual x).derivative k = (e.toRationalExpr.partialDerivative k).eval x := by
  have hrep := represents_evalDual hN x e h
  exact ⟨hrep.value_eq, hrep.derivative_eq⟩

/-- The quotient of a constant and the product of the two inputs, at `(2, 3)`. -/
theorem DualExpr.evalDual_correct_rat :
    let e : DualExpr ℚ 2 := .scalarDiv 12 (.mul (.var 0) (.var 1))
    (e.evalDual ![2, 3]).value = 2 ∧ (e.evalDual ![2, 3]).derivative 0 = -1 := by
  intro e
  obtain ⟨hvalue, hderivative⟩ := evalDual_correct (by norm_num) ![2, 3] e
    (by simp [e, toRationalExpr, RationalExpr.Defined, RationalExpr.eval])
  constructor
  · rw [hvalue]
    norm_num [e, toRationalExpr, RationalExpr.eval]
  · rw [hderivative]
    norm_num [e, toRationalExpr, RationalExpr.partialDerivative, RationalExpr.eval]

/-- Over a normed field the derivatives carried by the result are the partial derivatives of the
expression as a function of its inputs. -/
theorem DualExpr.hasDerivAt_eval [NontriviallyNormedField K] (hN : N ≤ 65535) (x : Fin N → K)
    (e : DualExpr K N) (h : e.toRationalExpr.Defined x) (k : Fin N) :
    HasDerivAt (fun t => e.toRationalExpr.eval (Function.update x k t))
      ((e.evalDual x).derivative k) (x k) := by
  rw [(represents_evalDual hN x e h).derivative_eq]
  exact e.toRationalExpr.hasDerivAt_eval k x h

end RT1064.Mat
