import Mathlib.Analysis.SpecialFunctions.Complex.Arg
import Mathlib.Tactic
import RT1064.Core.Run
import RT1064.Core.Extended

/-!
# Second-order sections

A second-order section is the linear recurrence
`y_n = b0 x_n + b1 x_{n-1} + b2 x_{n-2} - a1 y_{n-1} - a2 y_{n-2}` on signals with values in a
module. The direct forms are the two machines that compute it: the first keeps past inputs and
outputs, the second keeps past values of one internal signal. The last part is about the poles.
-/

namespace RT1064.Core

variable {K V : Type*}

/-- The coefficients of a second-order section, normalised by `a0`. -/
@[ext] structure Section (K : Type*) where
  b0 : K
  b1 : K
  b2 : K
  a1 : K
  a2 : K
  deriving DecidableEq

namespace Section

/-! ### Direct forms -/

/-- The direct form I on the state `x_{n-1}, x_{n-2}, y_{n-1}, y_{n-2}`. -/
def directFormI [Add V] [Sub V] [SMul K V] (c : Section K) :
    V × V × V × V → V → V × (V × V × V × V)
  | (x₁, x₂, y₁, y₂), x =>
    let y := c.b0 • x + c.b1 • x₁ + c.b2 • x₂ - c.a1 • y₁ - c.a2 • y₂
    (y, x, x₁, y, y₁)

/-- The direct form II on the state `d_{n-1}, d_{n-2}`. -/
def directFormII [Add V] [Sub V] [SMul K V] (c : Section K) : V × V → V → V × (V × V)
  | (d₁, d₂), x =>
    let d := x - c.a1 • d₁ - c.a2 • d₂
    (c.b0 • d + c.b1 • d₁ + c.b2 • d₂, d, d₁)

/-! ### The recurrence -/

section Recurrence

variable [Ring K] [AddCommGroup V] [Module K V]

/-- `y` solves the recurrence for the input `x`, where both lists start with two past values. -/
def IsSolution (c : Section K) (x y : List V) : Prop :=
  y.length = x.length ∧ ∀ n, n + 2 < x.length →
    y.getD (n + 2) 0 =
      c.b0 • x.getD (n + 2) 0 + c.b1 • x.getD (n + 1) 0 + c.b2 • x.getD n 0 -
        c.a1 • y.getD (n + 1) 0 - c.a2 • y.getD n 0

/-- `y` is the output for the input `x` with zero initial conditions. -/
def IsResponse (c : Section K) (x y : List V) : Prop :=
  c.IsSolution (0 :: 0 :: x) (0 :: 0 :: y)

lemma isSolution_pair (c : Section K) (x₂ x₁ y₂ y₁ : V) : c.IsSolution [x₂, x₁] [y₂, y₁] := by
  constructor
  · rfl
  · intro n hn
    simp at hn

/-- The recurrence, one step at a time. -/
lemma isSolution_cons (c : Section K) (x₂ x₁ x y₂ y₁ y : V) (xs ys : List V) :
    c.IsSolution (x₂ :: x₁ :: x :: xs) (y₂ :: y₁ :: y :: ys) ↔
      y = c.b0 • x + c.b1 • x₁ + c.b2 • x₂ - c.a1 • y₁ - c.a2 • y₂ ∧
        c.IsSolution (x₁ :: x :: xs) (y₁ :: y :: ys) := by
  constructor
  · rintro ⟨hlen, h⟩
    refine ⟨h 0 (by simp), by simpa using hlen, fun n hn => ?_⟩
    exact h (n + 1) (by simpa using hn)
  · rintro ⟨hy, hlen, h⟩
    refine ⟨by simpa using hlen, fun n hn => ?_⟩
    cases n with
    | zero => exact hy
    | succ n => exact h n (by simpa using hn)

/-- The past values and the input determine the output. -/
lemma IsSolution.unique {c : Section K} {x₂ x₁ y₂ y₁ : V} {xs ys zs : List V}
    (hy : c.IsSolution (x₂ :: x₁ :: xs) (y₂ :: y₁ :: ys))
    (hz : c.IsSolution (x₂ :: x₁ :: xs) (y₂ :: y₁ :: zs)) : ys = zs := by
  have hylen := hy.1
  have hzlen := hz.1
  simp only [List.length_cons, Nat.add_right_cancel_iff] at hylen hzlen
  induction xs generalizing x₂ x₁ y₂ y₁ ys zs with
  | nil => rw [List.eq_nil_of_length_eq_zero hylen, List.eq_nil_of_length_eq_zero hzlen]
  | cons x xs ih =>
    obtain ⟨y, ys, rfl⟩ := List.exists_cons_of_length_eq_add_one hylen
    obtain ⟨z, zs, rfl⟩ := List.exists_cons_of_length_eq_add_one hzlen
    obtain ⟨rfl, hy⟩ := (isSolution_cons ..).1 hy
    obtain ⟨rfl, hz⟩ := (isSolution_cons ..).1 hz
    rw [ih hy hz (by simpa using hylen) (by simpa using hzlen)]

/-- The direct form I computes the recurrence from the past values in its state. -/
lemma isSolution_directFormI (c : Section K) (x₁ x₂ y₁ y₂ : V) (xs : List V) :
    c.IsSolution (x₂ :: x₁ :: xs)
      (y₂ :: y₁ :: answers c.directFormI (x₁, x₂, y₁, y₂) xs) := by
  induction xs generalizing x₁ x₂ y₁ y₂ with
  | nil => exact isSolution_pair c x₂ x₁ y₂ y₁
  | cons x xs ih =>
    rw [answers_cons, isSolution_cons]
    exact ⟨rfl, ih ..⟩

/-- The states of the two forms belong together when one internal signal explains the past inputs
and the past outputs. -/
def SameSignal (c : Section K) : V × V → V × V × V × V → Prop
  | (d₁, d₂), (x₁, x₂, y₁, y₂) =>
    ∃ d₃ d₄ : V,
      x₁ = d₁ + c.a1 • d₂ + c.a2 • d₃ ∧ x₂ = d₂ + c.a1 • d₃ + c.a2 • d₄ ∧
      y₁ = c.b0 • d₁ + c.b1 • d₂ + c.b2 • d₃ ∧ y₂ = c.b0 • d₂ + c.b1 • d₃ + c.b2 • d₄

end Recurrence

section Commutative

variable [CommRing K] [AddCommGroup V] [Module K V]

/-- The direct form II simulates the direct form I. -/
lemma simulates_directForms (c : Section K) :
    Simulates (c.SameSignal (V := V)) c.directFormII c.directFormI := by
  rintro ⟨d₁, d₂⟩ ⟨x₁, x₂, y₁, y₂⟩ x ⟨d₃, d₄, rfl, rfl, rfl, rfl⟩
  constructor
  · simp only [directFormI, directFormII]
    module
  · refine ⟨d₂, d₃, ?_, rfl, ?_, rfl⟩
    · show x = x - c.a1 • d₁ - c.a2 • d₂ + c.a1 • d₁ + c.a2 • d₂
      abel
    · simp only [directFormI, directFormII]
      module

lemma sameSignal_zero (c : Section K) : c.SameSignal (0 : V × V) 0 :=
  ⟨0, 0, by simp, by simp, by simp, by simp⟩

/-- From zero states both direct forms compute the response of the section. -/
lemma answers_directFormII_eq (c : Section K) (xs : List V) :
    answers c.directFormII 0 xs = answers c.directFormI 0 xs :=
  c.simulates_directForms.answers_eq c.sameSignal_zero xs

lemma isResponse_directFormI (c : Section K) (xs : List V) :
    c.IsResponse xs (answers c.directFormI 0 xs) :=
  c.isSolution_directFormI 0 0 0 0 xs

end Commutative

/-- The section that repeats its input. -/
def passThrough [Zero K] [One K] : Section K := ⟨1, 0, 0, 0, 0⟩

/-! ### Finite signals -/

section Finite

open Extended

/-- Finite coefficients. -/
def toExtended (c : Section K) : Section (Extended K) :=
  ⟨finite c.b0, finite c.b1, finite c.b2, finite c.a1, finite c.a2⟩

variable [Add V] [Sub V] [SMul K V]

lemma directFormI_toExtended (c : Section K) (x₁ x₂ y₁ y₂ x : V) :
    c.toExtended.directFormI (finite x₁, finite x₂, finite y₁, finite y₂) (finite x) =
      (finite (c.directFormI (x₁, x₂, y₁, y₂) x).1, finite x, finite x₁,
        finite (c.directFormI (x₁, x₂, y₁, y₂) x).1, finite y₁) := rfl

lemma directFormII_toExtended (c : Section K) (d₁ d₂ x : V) :
    c.toExtended.directFormII (finite d₁, finite d₂) (finite x) =
      (finite (c.directFormII (d₁, d₂) x).1, finite (c.directFormII (d₁, d₂) x).2.1,
        finite d₁) := rfl

end Finite

/-! ### Steady state -/

section Gain

variable [Field K] [AddCommGroup V] [Module K V]

/-- The transfer function at zero frequency is one. -/
def UnitGain (c : Section K) : Prop :=
  1 + c.a1 + c.a2 ≠ 0 ∧ c.b0 + c.b1 + c.b2 = 1 + c.a1 + c.a2

lemma unitGain_passThrough : (passThrough : Section K).UnitGain := by
  simp [UnitGain, passThrough]

/-- The internal signal of the direct form II for a constant input. -/
lemma directFormII_steady {c : Section K} (hc : c.UnitGain) (s : V) :
    c.directFormII ((1 + c.a1 + c.a2)⁻¹ • s, (1 + c.a1 + c.a2)⁻¹ • s) s =
      (s, (1 + c.a1 + c.a2)⁻¹ • s, (1 + c.a1 + c.a2)⁻¹ • s) := by
  obtain ⟨hne, hgain⟩ := hc
  generalize hd : (1 + c.a1 + c.a2)⁻¹ • s = d
  have hs : s = (1 + c.a1 + c.a2) • d := by rw [← hd, smul_inv_smul₀ hne]
  have hstate : s - c.a1 • d - c.a2 • d = d := by
    rw [hs]
    module
  have hout : c.b0 • d + c.b1 • d + c.b2 • d = s := by
    rw [hs, ← hgain]
    module
  rw [directFormII, hstate, hout]

end Gain

/-! ### Poles -/

/-- The stability triangle. -/
def Stable [Ring K] [LinearOrder K] (c : Section K) : Prop :=
  |c.a2| < 1 ∧ |c.a1| < 1 + c.a2

lemma stable_passThrough [Ring K] [LinearOrder K] [IsStrictOrderedRing K] :
    (passThrough : Section K).Stable := by
  simp [Stable, passThrough]

/-- A pole of the transfer function. -/
def IsPole (c : Section ℝ) (z : ℂ) : Prop := z ^ 2 + c.a1 * z + c.a2 = 0

lemma isPole_iff {c : Section ℝ} {z : ℂ} :
    c.IsPole z ↔ z.re ^ 2 - z.im ^ 2 + c.a1 * z.re + c.a2 = 0 ∧
      2 * z.re * z.im + c.a1 * z.im = 0 := by
  rw [IsPole, Complex.ext_iff]
  simp only [Complex.add_re, Complex.add_im, Complex.mul_re, Complex.mul_im, Complex.ofReal_re,
    Complex.ofReal_im, Complex.zero_re, Complex.zero_im, pow_two]
  constructor
  · rintro ⟨hre, him⟩
    exact ⟨by linarith, by linarith⟩
  · rintro ⟨hre, him⟩
    exact ⟨by linarith, by linarith⟩

lemma norm_lt_one_iff {z : ℂ} : ‖z‖ < 1 ↔ z.re ^ 2 + z.im ^ 2 < 1 := by
  rw [← sq_lt_one_iff₀ (norm_nonneg z), Complex.sq_norm, Complex.normSq_apply, pow_two, pow_two]

/-- Inside the stability triangle the characteristic polynomial is positive from one on. -/
lemma root_lt_one {a₁ a₂ x : ℝ} (h2 : |a₂| < 1) (h1 : |a₁| < 1 + a₂)
    (hx : x ^ 2 + a₁ * x + a₂ = 0) : x < 1 := by
  rw [abs_lt] at h1 h2
  by_contra hge
  rw [not_lt] at hge
  have hfar : 0 ≤ (x - 1) * (x - a₂) :=
    mul_nonneg (sub_nonneg.2 hge) (sub_nonneg.2 (h2.2.le.trans hge))
  have hgap : 0 < (1 + a₂ + a₁) * x := mul_pos (by linarith) (by linarith)
  linarith

/-- The poles of a stable section lie strictly inside the unit circle. -/
lemma Stable.norm_lt_one {c : Section ℝ} (hc : c.Stable) {z : ℂ} (hz : c.IsPole z) : ‖z‖ < 1 := by
  obtain ⟨hre, him⟩ := isPole_iff.1 hz
  rw [norm_lt_one_iff]
  rcases mul_eq_zero.1 (show z.im * (2 * z.re + c.a1) = 0 by linarith) with h0 | hsum
  · -- a real pole
    rw [h0] at hre ⊢
    have hlt : z.re < 1 := root_lt_one hc.1 hc.2 (by linarith)
    have hgt : -z.re < 1 := root_lt_one hc.1 ((abs_neg c.a1).trans_lt hc.2) (by linarith)
    have habs : |z.re| < 1 := abs_lt.2 ⟨by linarith, hlt⟩
    have hsq := (sq_lt_one_iff_abs_lt_one z.re).2 habs
    linarith
  · -- a conjugate pair, whose product is `a2`
    have ha2 : z.re ^ 2 + z.im ^ 2 = c.a2 := by
      linear_combination -hre + z.re * hsum
    rw [ha2]
    exact (abs_lt.1 hc.1).2

/-- Two real poles inside the unit interval make a section stable. -/
lemma stable_of_real {c : Section ℝ} {p m : ℝ} (hp : |p| < 1) (hm : |m| < 1)
    (ha1 : c.a1 = -(p + m)) (ha2 : c.a2 = p * m) : c.Stable := by
  rw [Stable, ha1, ha2, abs_mul]
  constructor
  · exact mul_lt_one_of_nonneg_of_lt_one_left (abs_nonneg p) hp hm.le
  · rw [abs_lt] at hp hm ⊢
    have hone : 0 < (1 - p) * (1 - m) := mul_pos (by linarith) (by linarith)
    have hminus : 0 < (1 + p) * (1 + m) := mul_pos (by linarith) (by linarith)
    constructor
    · linarith
    · linarith

/-- Two conjugate poles with a product below one make a section stable. -/
lemma stable_of_conjugate {c : Section ℝ} (hneg : c.a1 ^ 2 < 4 * c.a2) (ha2 : c.a2 < 1) :
    c.Stable := by
  have hpos : 0 < c.a2 := by linarith [sq_nonneg c.a1]
  constructor
  · exact abs_lt.2 ⟨by linarith, ha2⟩
  · apply abs_lt_of_sq_lt_sq
    · linarith [sq_nonneg (c.a2 - 1)]
    · linarith

/-- The stability triangle is exactly where both poles lie strictly inside the unit circle. -/
lemma stable_iff_forall_pole {c : Section ℝ} : c.Stable ↔ ∀ z : ℂ, c.IsPole z → ‖z‖ < 1 := by
  constructor
  · intro hc z
    exact hc.norm_lt_one
  · intro h
    rcases lt_or_ge (c.a1 ^ 2 - 4 * c.a2) 0 with hneg | hpos
    · have hsq := Real.sq_sqrt (neg_nonneg.2 hneg.le)
      have hpole := h ⟨-c.a1 / 2, √(-(c.a1 ^ 2 - 4 * c.a2)) / 2⟩
      rw [isPole_iff, norm_lt_one_iff] at hpole
      have ha2 := hpole ⟨by linear_combination -(1 / 4) * hsq, by ring⟩
      simp only [div_pow, neg_sq, hsq] at ha2
      exact stable_of_conjugate (by linarith) (by linarith)
    · have hsq := Real.sq_sqrt hpos
      have hplus := h ⟨(-c.a1 + √(c.a1 ^ 2 - 4 * c.a2)) / 2, 0⟩
      have hminus := h ⟨(-c.a1 - √(c.a1 ^ 2 - 4 * c.a2)) / 2, 0⟩
      rw [isPole_iff, norm_lt_one_iff] at hplus hminus
      generalize √(c.a1 ^ 2 - 4 * c.a2) = d at hsq hplus hminus
      have hp := hplus ⟨by linear_combination (1 / 4) * hsq, by ring⟩
      have hm := hminus ⟨by linear_combination (1 / 4) * hsq, by ring⟩
      have hp' : |(-c.a1 + d) / 2| < 1 := (sq_lt_one_iff_abs_lt_one _).1 (by linarith only [hp])
      have hm' : |(-c.a1 - d) / 2| < 1 := (sq_lt_one_iff_abs_lt_one _).1 (by linarith only [hm])
      apply stable_of_real hp' hm'
      · ring
      · linear_combination (1 / 4) * hsq

end Section

end RT1064.Core
