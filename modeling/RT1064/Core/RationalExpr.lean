import Mathlib.Analysis.Calculus.Deriv.Add
import Mathlib.Analysis.Calculus.Deriv.Inv
import Mathlib.Tactic
import Mathlib.Topology.Algebra.Module.ModuleTopology

/-!
# Rational expressions and their formal derivatives

Expressions over variables `ι` and constants of a field, built with the four operations, their
values and their formal partial derivatives. Over a normed field the formal derivative is the
analytic one.
-/

namespace RT1064.Core

universe u v

/-- An expression in the variables `ι`. -/
inductive RationalExpr (K : Type u) (ι : Type v) : Type (max u v)
  | var (k : ι)
  | const (c : K)
  | neg (a : RationalExpr K ι)
  | add (a b : RationalExpr K ι)
  | sub (a b : RationalExpr K ι)
  | mul (a b : RationalExpr K ι)
  | div (a b : RationalExpr K ι)

namespace RationalExpr

variable {K : Type u} {ι : Type v} [Field K]

/-- The value of an expression at the point `x`. -/
def eval (x : ι → K) : RationalExpr K ι → K
  | var k   => x k
  | const c => c
  | neg a   => -a.eval x
  | add a b => a.eval x + b.eval x
  | sub a b => a.eval x - b.eval x
  | mul a b => a.eval x * b.eval x
  | div a b => a.eval x / b.eval x

/-- Every denominator of the expression is nonzero at the point `x`. -/
def Defined (x : ι → K) : RationalExpr K ι → Prop
  | var _   => True
  | const _ => True
  | neg a   => a.Defined x
  | add a b => a.Defined x ∧ b.Defined x
  | sub a b => a.Defined x ∧ b.Defined x
  | mul a b => a.Defined x ∧ b.Defined x
  | div a b => a.Defined x ∧ b.Defined x ∧ b.eval x ≠ 0

/-- The formal partial derivative with respect to the variable `k`. -/
def partialDerivative [DecidableEq ι] (k : ι) : RationalExpr K ι → RationalExpr K ι
  | var j   => const (if j = k then 1 else 0)
  | const _ => const 0
  | neg a   => neg (a.partialDerivative k)
  | add a b => add (a.partialDerivative k) (b.partialDerivative k)
  | sub a b => sub (a.partialDerivative k) (b.partialDerivative k)
  | mul a b => add (mul (a.partialDerivative k) b) (mul a (b.partialDerivative k))
  | div a b =>
    div (sub (mul (a.partialDerivative k) b) (mul a (b.partialDerivative k))) (mul b b)

end RationalExpr

/-- Where an expression is defined its formal derivative is the derivative of its value. -/
lemma RationalExpr.hasDerivAt_eval {K : Type u} {ι : Type v} [NontriviallyNormedField K]
    [DecidableEq ι] (k : ι) (x : ι → K) (e : RationalExpr K ι) (h : e.Defined x) :
    HasDerivAt (fun t => e.eval (Function.update x k t)) ((e.partialDerivative k).eval x)
      (x k) := by
  induction e with
  | var j =>
    rcases eq_or_ne j k with rfl | hj
    · simpa [eval, partialDerivative] using hasDerivAt_id' (x j)
    · simpa [eval, partialDerivative, hj] using hasDerivAt_const (x k) (x j)
  | const c => exact hasDerivAt_const (x k) c
  | neg a iha => exact (iha h).neg
  | add a b iha ihb => exact (iha h.1).add (ihb h.2)
  | sub a b iha ihb => exact (iha h.1).sub (ihb h.2)
  | mul a b iha ihb =>
    have hmul := (iha h.1).mul (ihb h.2)
    rwa [Function.update_eq_self] at hmul
  | div a b iha ihb =>
    obtain ⟨ha, hb, hne⟩ := h
    have hdiv := (iha ha).div (ihb hb) (by rwa [Function.update_eq_self])
    rw [Function.update_eq_self, pow_two] at hdiv
    exact hdiv

end RT1064.Core
