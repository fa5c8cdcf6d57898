import Mathlib.Algebra.Order.Monoid.WithTop
import RT1064.Core.Run
import RT1064.Math.Functions

/-!
# The second-order reference model

`SecondOrderReferenceModel` integrates a damped spring that follows the samples, with the forward
Euler method or with the bilinear transform. A call integrates over its time step with the samples
of the call before.
-/

namespace RT1064.Math

open Core Mat

variable {K T : Type*}

/-- The indices of the states. -/
instance neZero_two : NeZero 2 := ⟨two_ne_zero⟩

/-- `SecondOrderReferenceModel::DiscretizationMethod`. -/
inductive DiscretizationMethod where
  | kForwardEuler
  | kBilinear
  deriving DecidableEq

/-- The fields of `SecondOrderReferenceModel`. -/
@[ext] structure SecondOrderReferenceModel (K T : Type*) where
  springConstant : K
  dampingCoefficient : K
  cutoffFreq : K
  filterState : T
  filterRate : T
  filterAccel : T
  lastStateSample : T
  lastRateSample : T
  maxTimeStep : WithTop K
  discretizationMethod : DiscretizationMethod

namespace SecondOrderReferenceModel

section Model

variable [Field K]

/-- `kSampleRateMultiplier`. -/
def kSampleRateMultiplier : K := 4

/-- A model that was just constructed. -/
def fresh [Zero T] : SecondOrderReferenceModel K T where
  springConstant := FLT_EPSILON
  dampingCoefficient := FLT_EPSILON
  cutoffFreq := FLT_EPSILON
  filterState := 0
  filterRate := 0
  filterAccel := 0
  lastStateSample := 0
  lastRateSample := 0
  maxTimeStep := ⊤
  discretizationMethod := .kBilinear

/-- `SecondOrderReferenceModel::setDiscretizationMethod`. -/
def setDiscretizationMethod (m : SecondOrderReferenceModel K T) (method : DiscretizationMethod) :
    SecondOrderReferenceModel K T :=
  { m with discretizationMethod := method }

/-- `SecondOrderReferenceModel::calculateCutoffFrequency`. -/
def calculateCutoffFrequency [Cmath K] (naturalFreq dampingRatio : K) : K :=
  let dampingRatioSquared := dampingRatio * dampingRatio
  naturalFreq * Cmath.sqrt (1 - 2 * dampingRatioSquared + Cmath.sqrt
    (4 * dampingRatioSquared * dampingRatioSquared - 4 * dampingRatioSquared + 2))

/-- `SecondOrderReferenceModel::setParameters`. -/
def setParameters [LinearOrder K] [Cmath K] (m : SecondOrderReferenceModel K T)
    (naturalFreq dampingRatio : K) : Bool × SecondOrderReferenceModel K T :=
  if naturalFreq < FLT_EPSILON ∨ dampingRatio < FLT_EPSILON then
    (false, { m with
      springConstant := FLT_EPSILON
      dampingCoefficient := FLT_EPSILON
      cutoffFreq := FLT_EPSILON
      maxTimeStep := ⊤ })
  else
    let cutoffFreq := calculateCutoffFrequency naturalFreq dampingRatio
    (true, { m with
      springConstant := naturalFreq * naturalFreq
      dampingCoefficient := 2 * dampingRatio * naturalFreq
      cutoffFreq := cutoffFreq
      maxTimeStep := ((2 * M_PI_F / (cutoffFreq * kSampleRateMultiplier) : K) : WithTop K) })

/-- `SecondOrderReferenceModel::reset`. -/
def reset [Zero T] (m : SecondOrderReferenceModel K T) (state rate : T) :
    SecondOrderReferenceModel K T :=
  { m with
    filterState := state
    filterRate := rate
    filterAccel := 0
    lastStateSample := state
    lastRateSample := rate }

/-- The state matrix of `integrateStatesForwardEuler`. -/
def eulerStateMatrix (springConstant dampingCoefficient timeStep : K) :
    Matrix (Fin 2) (Fin 2) K :=
  !![1, timeStep;
     -springConstant * timeStep, -dampingCoefficient * timeStep + 1]

/-- The input matrix of `integrateStatesForwardEuler`. -/
def eulerInputMatrix (springConstant dampingCoefficient timeStep : K) :
    Matrix (Fin 2) (Fin 2) K :=
  !![0, 0;
     springConstant * timeStep, dampingCoefficient * timeStep]

/-- The number by which `integrateStatesBilinear` divides. -/
def denominator (springConstant dampingCoefficient timeStep : K) : K :=
  1 / 4 * springConstant * (timeStep * timeStep) + 1 / 2 * dampingCoefficient * timeStep + 1

/-- The state matrix of `integrateStatesBilinear`. -/
def bilinearStateMatrix (springConstant dampingCoefficient timeStep : K) :
    Matrix (Fin 2) (Fin 2) K :=
  let timeStepSquared := timeStep * timeStep
  let invDenominator := 1 / denominator springConstant dampingCoefficient timeStep
  mulScalar
    !![-(1 / 4) * springConstant * timeStepSquared + 1 / 2 * dampingCoefficient * timeStep + 1,
        timeStep;
       -springConstant * timeStep,
        -(1 / 4) * springConstant * timeStepSquared - 1 / 2 * dampingCoefficient * timeStep + 1]
    invDenominator

/-- The input matrix of `integrateStatesBilinear`. -/
def bilinearInputMatrix (springConstant dampingCoefficient timeStep : K) :
    Matrix (Fin 2) (Fin 2) K :=
  let timeStepSquared := timeStep * timeStep
  let invDenominator := 1 / denominator springConstant dampingCoefficient timeStep
  mulScalar
    !![1 / 2 * springConstant * timeStepSquared, 1 / 2 * dampingCoefficient * timeStepSquared;
       springConstant * timeStep, dampingCoefficient * timeStep]
    invDenominator

variable [Add T] [SMul K T]

/-- `SecondOrderReferenceModel::transitionStates`. -/
def transitionStates (m : SecondOrderReferenceModel K T)
    (stateMatrix inputMatrix : Matrix (Fin 2) (Fin 2) K) (stateSample rateSample : T) :
    SecondOrderReferenceModel K T :=
  let newState := stateMatrix 0 0 • m.filterState + stateMatrix 0 1 • m.filterRate +
    inputMatrix 0 0 • stateSample + inputMatrix 0 1 • rateSample
  let newRate := stateMatrix 1 0 • m.filterState + stateMatrix 1 1 • m.filterRate +
    inputMatrix 1 0 • stateSample + inputMatrix 1 1 • rateSample
  { m with filterState := newState, filterRate := newRate }

/-- `SecondOrderReferenceModel::integrateStates`. -/
def integrateStates (m : SecondOrderReferenceModel K T) (timeStep : K)
    (stateSample rateSample : T) : SecondOrderReferenceModel K T :=
  match m.discretizationMethod with
  | .kForwardEuler =>
    m.transitionStates (eulerStateMatrix m.springConstant m.dampingCoefficient timeStep)
      (eulerInputMatrix m.springConstant m.dampingCoefficient timeStep) stateSample rateSample
  | .kBilinear =>
    m.transitionStates (bilinearStateMatrix m.springConstant m.dampingCoefficient timeStep)
      (bilinearInputMatrix m.springConstant m.dampingCoefficient timeStep) stateSample rateSample

/-- An integration changes the state and the rate only. -/
lemma integrateStates_eq (m : SecondOrderReferenceModel K T) (t : K) (s r : T) :
    ∃ state rate, m.integrateStates t s r =
      { m with filterState := state, filterRate := rate } := by
  rw [integrateStates]
  split
  · exact ⟨_, _, rfl⟩
  · exact ⟨_, _, rfl⟩

variable [Sub T]

/-- `SecondOrderReferenceModel::calculateInstantaneousAcceleration`. -/
def calculateInstantaneousAcceleration (m : SecondOrderReferenceModel K T)
    (stateSample rateSample : T) : T :=
  let stateError := stateSample - m.filterState
  let rateError := rateSample - m.filterRate
  m.springConstant • stateError + m.dampingCoefficient • rateError

/-- The time steps that `SecondOrderReferenceModel::update` integrates over. -/
def Accepts [LinearOrder K] (m : SecondOrderReferenceModel K T) (timeStep : K) : Prop :=
  ¬ (m.maxTimeStep < (timeStep : WithTop K) ∨ timeStep < 0)

/-- `SecondOrderReferenceModel::update`. -/
def update [LinearOrder K] [Zero T] (m : SecondOrderReferenceModel K T) (timeStep : K)
    (stateSample rateSample : T) : SecondOrderReferenceModel K T :=
  if m.maxTimeStep < (timeStep : WithTop K) ∨ timeStep < 0 then m.reset stateSample rateSample
  else
    let n := m.integrateStates timeStep m.lastStateSample m.lastRateSample
    { n with
      filterAccel := n.calculateInstantaneousAcceleration stateSample rateSample
      lastStateSample := stateSample
      lastRateSample := rateSample }

/-- An update keeps the parameters and stores its samples. -/
lemma update_eq [LinearOrder K] [Zero T] (m : SecondOrderReferenceModel K T) (t : K)
    (s r : T) :
    ∃ state rate accel, m.update t s r =
      { m with
        filterState := state
        filterRate := rate
        filterAccel := accel
        lastStateSample := s
        lastRateSample := r } := by
  rw [update]
  split
  · exact ⟨s, r, 0, rfl⟩
  · obtain ⟨state, rate, h⟩ := integrateStates_eq m t m.lastStateSample m.lastRateSample
    rw [h]
    exact ⟨state, rate, _, rfl⟩

end Model

/-! ### Runs -/

section Runs

variable [Field K] [LinearOrder K] {m : SecondOrderReferenceModel K K} {k v s : K}

/-- What a run with the samples `s` and `0` keeps: the parameters, and `s` and `0` as the last
samples. -/
structure Follows (k v s : K) (m : SecondOrderReferenceModel K K) : Prop where
  spring : m.springConstant = k
  damping : m.dampingCoefficient = v
  method : m.discretizationMethod = .kBilinear
  state : m.lastStateSample = s
  rate : m.lastRateSample = 0

/-- The first update stores its samples, the others keep them. -/
lemma follows_foldl_update (hmethod : m.discretizationMethod = .kBilinear) (t : K)
    (ts : List K) :
    Follows m.springConstant m.dampingCoefficient s
      ((t :: ts).foldl (fun m t => m.update t s 0) m) := by
  rw [List.foldl_cons]
  apply inv_foldl_of_forall (Follows m.springConstant m.dampingCoefficient s)
  · intro n u h
    obtain ⟨state, rate, accel, hn⟩ := update_eq n u s 0
    rw [hn]
    exact ⟨h.spring, h.damping, h.method, rfl, rfl⟩
  · obtain ⟨state, rate, accel, hm⟩ := update_eq m t s 0
    rw [hm]
    exact ⟨rfl, rfl, hmethod, rfl, rfl⟩

/-- The parameters of a run. -/
lemma parameters_foldl_update (ts : List K) :
    (ts.foldl (fun m t => m.update t s 0) m).springConstant = m.springConstant ∧
      (ts.foldl (fun m t => m.update t s 0) m).dampingCoefficient = m.dampingCoefficient := by
  apply inv_foldl_of_forall (fun n : SecondOrderReferenceModel K K =>
    n.springConstant = m.springConstant ∧ n.dampingCoefficient = m.dampingCoefficient)
  · intro n u h
    obtain ⟨state, rate, accel, hn⟩ := update_eq n u s 0
    rw [hn]
    exact h
  · exact ⟨rfl, rfl⟩

end Runs

/-! ### The bilinear transform -/

section Bilinear

variable [Field K]

/-- `Ac`, the matrix of the spring. -/
def springMatrix (springConstant dampingCoefficient : K) : Matrix (Fin 2) (Fin 2) K :=
  !![0, 1; -springConstant, -dampingCoefficient]

/-- `Bc`, the matrix of its inputs. -/
def springInputMatrix (springConstant dampingCoefficient : K) : Matrix (Fin 2) (Fin 2) K :=
  !![0, 0; springConstant, dampingCoefficient]

variable {k v t : K}

/-- The energy of the spring, twice the sum of its potential and its kinetic part. -/
def energy (k s x v : K) : K := k * (x - s) ^ 2 + v ^ 2

lemma energy_settled (k s : K) : energy k s s 0 = 0 := by simp [energy]

lemma mul_invDenominator (h : denominator k v t ≠ 0) :
    (1 / 4 * k * (t * t) + 1 / 2 * v * t + 1) * (1 / denominator k v t) = 1 := by
  rw [← denominator, mul_one_div_cancel h]

section Order

variable [LinearOrder K] [IsStrictOrderedRing K]

lemma denominator_pos (hk : 0 < k) (hv : 0 < v) (ht : 0 ≤ t) : 0 < denominator k v t := by
  rw [denominator]
  positivity

/-- `Ad` solves `(I - T/2 Ac) Ad = I + T/2 Ac`. -/
lemma bilinearStateMatrix_eq (h : denominator k v t ≠ 0) :
    (1 - (t / 2) • springMatrix k v) * bilinearStateMatrix k v t =
      1 + (t / 2) • springMatrix k v := by
  rw [bilinearStateMatrix]
  have hone := mul_invDenominator h
  generalize 1 / denominator k v t = r at hone ⊢
  ext i j
  rw [Matrix.mul_apply, Fin.sum_univ_two]
  fin_cases i <;> fin_cases j <;> simp [springMatrix]
  · linear_combination hone
  · linear_combination t / 2 * hone
  · linear_combination -(t / 2 * k) * hone
  · linear_combination (1 - t / 2 * v) * hone

/-- `Bd` solves `Ac Bd = (Ad - I) Bc`. -/
lemma bilinearInputMatrix_eq (h : denominator k v t ≠ 0) :
    springMatrix k v * bilinearInputMatrix k v t =
      (bilinearStateMatrix k v t - 1) * springInputMatrix k v := by
  rw [bilinearStateMatrix, bilinearInputMatrix]
  have hone := mul_invDenominator h
  generalize 1 / denominator k v t = r at hone ⊢
  ext i j
  rw [Matrix.mul_apply, Matrix.mul_apply, Fin.sum_univ_two, Fin.sum_univ_two]
  fin_cases i <;> fin_cases j <;> simp [springMatrix, springInputMatrix]
  · ring
  · ring
  · linear_combination -k * hone
  · linear_combination -v * hone

/-! ### Energy -/

lemma energy_nonneg {s x y : K} (hk : 0 ≤ k) : 0 ≤ energy k s x y := by
  rw [energy]
  positivity

lemma energy_eq_zero {k s x y : K} (hk : 0 < k) (h : energy k s x y ≤ 0) : x = s ∧ y = 0 := by
  rw [energy] at h
  have hx : 0 ≤ k * (x - s) ^ 2 := mul_nonneg hk.le (sq_nonneg _)
  have hx' : k * (x - s) ^ 2 = 0 := by linarith only [h, hx, sq_nonneg y]
  have hy : y ^ 2 = 0 := by linarith only [h, hx, sq_nonneg y]
  rw [mul_eq_zero, or_iff_right hk.ne', sq_eq_zero_iff, sub_eq_zero] at hx'
  exact ⟨hx', sq_eq_zero_iff.1 hy⟩

/-- A step of the trapezoidal rule takes from the energy what the damper does to the mean rate. -/
lemma energy_trapezoid {s x y x' y' : K} (hx : x' - s = x - s + t / 2 * (y + y'))
    (hy : y' = y + t / 2 * (-k * (x - s + (x' - s)) - v * (y + y'))) :
    energy k s x' y' = energy k s x y - v * t / 2 * (y + y') ^ 2 := by
  have hpotential : k * (x' - s) ^ 2 - k * (x - s) ^ 2 =
      k * (t / 2 * (y + y')) * (x - s + (x' - s)) := by
    linear_combination k * (x - s + (x' - s)) * hx
  have hkinetic : y' ^ 2 - y ^ 2 =
      t / 2 * (-k * (x - s + (x' - s)) - v * (y + y')) * (y + y') := by
    linear_combination (y + y') * hy
  rw [energy, energy]
  linear_combination hpotential + hkinetic

/-- One accepted step with the samples `s` and `0` is a step of the trapezoidal rule. -/
lemma trapezoid_integrateStates {m : SecondOrderReferenceModel K K} {s : K}
    (hmethod : m.discretizationMethod = .kBilinear)
    (h : denominator m.springConstant m.dampingCoefficient t ≠ 0) :
    let n := m.integrateStates t s 0
    n.filterState - s = m.filterState - s + t / 2 * (m.filterRate + n.filterRate) ∧
      n.filterRate = m.filterRate + t / 2 * (-m.springConstant * (m.filterState - s +
        (n.filterState - s)) - m.dampingCoefficient * (m.filterRate + n.filterRate)) := by
  intro n
  simp only [n, integrateStates, hmethod, transitionStates, bilinearStateMatrix,
    bilinearInputMatrix]
  have hone := mul_invDenominator h
  generalize 1 / denominator m.springConstant m.dampingCoefficient t = r at hone ⊢
  generalize m.springConstant = k at hone
  generalize m.dampingCoefficient = v at hone
  simp
  constructor
  · linear_combination (m.filterState + t / 2 * m.filterRate) * hone
  · linear_combination (-(k * t / 2) * m.filterState + k * t * s +
      (1 - t / 2 * v) * m.filterRate) * hone

/-! ### Runs of the bilinear transform -/

section BilinearRuns

variable {m : SecondOrderReferenceModel K K} {s : K}

/-- What the parameters give once they are accepted. -/
lemma setParameters_accepted [Cmath K] {m : SecondOrderReferenceModel K T} {nf ζ : K}
    (h : (m.setParameters nf ζ).1 = true) :
    0 < (m.setParameters nf ζ).2.springConstant ∧
      0 < (m.setParameters nf ζ).2.dampingCoefficient ∧
      (m.setParameters nf ζ).2.discretizationMethod = m.discretizationMethod := by
  have hε : (0 : K) < FLT_EPSILON := FLT_EPSILON_pos
  by_cases hlow : nf < FLT_EPSILON ∨ ζ < FLT_EPSILON
  · rw [setParameters, if_pos hlow] at h
    cases h
  · rw [setParameters, if_neg hlow]
    rw [not_or, not_lt, not_lt] at hlow
    have hnf := hε.trans_le hlow.1
    have hζ := hε.trans_le hlow.2
    exact ⟨mul_pos hnf hnf, mul_pos (mul_pos two_pos hζ) hnf, rfl⟩

/-- Once the last samples are `s` and `0`, an update with them does not raise the energy. -/
lemma Follows.energy_update_le (h : Follows k v s m) (hk : 0 < k) (hv : 0 < v) (t : K) :
    energy k s (m.update t s 0).filterState (m.update t s 0).filterRate ≤
      energy k s m.filterState m.filterRate := by
  obtain ⟨rfl, rfl, hmethod, hstate, hrate⟩ := h
  rw [update]
  split_ifs with hreset
  · -- the reset leaves no energy
    rw [reset, energy_settled]
    exact energy_nonneg hk.le
  · have ht : 0 ≤ t := not_lt.1 (not_or.1 hreset).2
    obtain ⟨hx, hy⟩ := trapezoid_integrateStates (s := s) hmethod (denominator_pos hk hv ht).ne'
    rw [hstate, hrate, energy_trapezoid hx hy, sub_le_self_iff]
    exact mul_nonneg (div_nonneg (mul_nonneg hv.le ht) two_pos.le) (sq_nonneg _)

/-- With accepted parameters and the bilinear transform, on every run of updates with the samples
`s` and `0`: the matrices of each integration are the bilinear transform of the spring, and from
the second update on the energy does not rise, so that a spring at rest in `s` stays there. -/
theorem energy_never_rises [Cmath K] (m : SecondOrderReferenceModel K K) (nf ζ s : K)
    (h : ((m.setDiscretizationMethod .kBilinear).setParameters nf ζ).1 = true) (ts : List K)
    (t : K) :
    let m₀ := ((m.setDiscretizationMethod .kBilinear).setParameters nf ζ).2
    let k := m₀.springConstant
    let v := m₀.dampingCoefficient
    let n := ts.foldl (fun m t => m.update t s 0) m₀
    let n' := n.update t s 0
    (n.springConstant = k ∧ n.dampingCoefficient = v) ∧
    (n.Accepts t → denominator k v t ≠ 0 ∧
      (1 - (t / 2) • springMatrix k v) * bilinearStateMatrix k v t =
        1 + (t / 2) • springMatrix k v ∧
      springMatrix k v * bilinearInputMatrix k v t =
        (bilinearStateMatrix k v t - 1) * springInputMatrix k v) ∧
    (ts ≠ [] →
      energy k s n'.filterState n'.filterRate ≤ energy k s n.filterState n.filterRate ∧
      (n.filterState = s → n.filterRate = 0 → n'.filterState = s ∧ n'.filterRate = 0)) := by
  intro m₀ k v n n'
  obtain ⟨hk, hv, hmethod⟩ := setParameters_accepted h
  constructor
  · exact parameters_foldl_update ts
  constructor
  · intro hstep
    have hdenominator := (denominator_pos hk hv (not_lt.1 (not_or.1 hstep).2)).ne'
    exact ⟨hdenominator, bilinearStateMatrix_eq hdenominator,
      bilinearInputMatrix_eq hdenominator⟩
  · intro hts
    obtain ⟨t₀, ts', rfl⟩ := List.exists_cons_of_ne_nil hts
    have hn : Follows k v s n := follows_foldl_update hmethod t₀ ts'
    have hle : energy k s n'.filterState n'.filterRate ≤ energy k s n.filterState n.filterRate :=
      hn.energy_update_le hk hv t
    refine ⟨hle, fun hx hy => ?_⟩
    rw [hx, hy, energy_settled] at hle
    exact energy_eq_zero hk hle

/-- A spring of natural frequency and damping ratio 1 that starts in 0 and is sent to 1. -/
theorem energy_never_rises_unit :
    let m₀ := (((fresh : SecondOrderReferenceModel ℝ ℝ).setDiscretizationMethod
      .kBilinear).setParameters 1 1).2
    let n := m₀.update 1 1 0
    let n' := n.update 1 1 0
    energy m₀.springConstant 1 n'.filterState n'.filterRate ≤
      energy m₀.springConstant 1 n.filterState n.filterRate := by
  have h : (((fresh : SecondOrderReferenceModel ℝ ℝ).setDiscretizationMethod
      .kBilinear).setParameters 1 1).1 = true := by
    rw [setParameters, if_neg]
    norm_num [FLT_EPSILON]
  exact ((energy_never_rises fresh 1 1 1 h [1] 1).2.2 (List.cons_ne_nil _ _)).1

end BilinearRuns

end Order

end Bilinear

end SecondOrderReferenceModel

end RT1064.Math
