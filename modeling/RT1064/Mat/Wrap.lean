import Mathlib.Algebra.Order.ToIntervalMod
import Mathlib.Tactic

/-!
# Wrapping into a half-open range

`wrap` brings a value into `[low, high)` and `unwrap` follows a wrapped signal across the ends of
the range. Over exact arithmetic `wrap` is reduction modulo the length of the range, which
gives the behaviour of `unwrap` over a whole signal.
-/

namespace RT1064.Mat

variable {K : Type*} [Field K] [LinearOrder K] [FloorRing K]

/-- `detail::wrap_floating`. -/
def wrapFloating (x low high : K) : K :=
  if low ≤ x ∧ x < high then x
  else
    let range := high - low
    let invRange := 1 / range
    let numWraps := ⌊(x - low) * invRange⌋
    x - range * numWraps

/-- Wrap a floating point value to stay in `[low, high)`. -/
def wrap (x low high : K) : K := wrapFloating x low high

/-- Unwrap a value that was wrapped with range `[low, high)`. -/
def unwrap (lastX newX low high : K) : K := lastX + wrap (newX - lastX) low high

/-- The values that `unwrap` gives back while it follows the wrapped signal `x`. -/
def unwrapSignal (low high : K) (x : ℕ → K) : ℕ → K
  | 0     => wrap (x 0) low high
  | k + 1 => unwrap (unwrapSignal low high x k) (wrap (x (k + 1)) low high) low high

section

variable [IsStrictOrderedRing K] {low high : K}

/-- The early exit and the floor formula agree: both are the remainder modulo the range. -/
lemma wrap_eq_toIcoMod (h : low < high) (x : K) :
    wrap x low high = toIcoMod (sub_pos.2 h) low x := by
  rw [wrap, wrapFloating]
  split_ifs with hx
  · symm
    rw [toIcoMod_eq_self, add_sub_cancel]
    exact hx
  · show x - (high - low) * ⌊(x - low) * (1 / (high - low))⌋ = _
    rw [toIcoMod, toIcoDiv_eq_floor, zsmul_eq_mul, mul_one_div, mul_comm]

/-- The result of `wrap` lies in the half-open range. -/
lemma wrap_mem (h : low < high) (x : K) : low ≤ wrap x low high ∧ wrap x low high < high := by
  have hmem := toIcoMod_mem_Ico (sub_pos.2 h) low x
  rw [add_sub_cancel] at hmem
  rw [wrap_eq_toIcoMod h]
  exact hmem

/-- The result of `wrap` differs from its argument by whole ranges. -/
lemma wrap_congruent (h : low < high) (x : K) :
    ∃ m : ℤ, wrap x low high - x = m * (high - low) := by
  refine ⟨-toIcoDiv (sub_pos.2 h) low x, ?_⟩
  rw [wrap_eq_toIcoMod h, toIcoMod, zsmul_eq_mul]
  push_cast
  ring

/-- `wrap` finds the one value of the range that is congruent to its argument. -/
lemma wrap_eq_of_congruent (h : low < high) {x y : K} (hy : low ≤ y ∧ y < high) {m : ℤ}
    (hxy : x - y = m * (high - low)) : wrap x low high = y := by
  rw [wrap_eq_toIcoMod h, toIcoMod_eq_iff, add_sub_cancel]
  refine ⟨hy, m, ?_⟩
  rw [zsmul_eq_mul, ← hxy, add_sub_cancel]

/-- One call of `unwrap` moves by the step of the signal, if that step lies in the range. -/
lemma unwrap_eq_add_step (h : low < high) {u x x' : K} {m : ℤ} (hu : u - x = m * (high - low))
    (hstep : low ≤ x' - x ∧ x' - x < high) :
    unwrap u (wrap x' low high) low high = u + (x' - x) := by
  obtain ⟨w, hw⟩ := wrap_congruent h x'
  have hdiff : wrap x' low high - u - (x' - x) = (w - m : ℤ) * (high - low) := by
    push_cast
    linear_combination hw - hu
  rw [unwrap, wrap_eq_of_congruent h hstep hdiff]

/-- Unwrapping inverts wrapping along every signal whose steps lie in the range, up to one
multiple of the range, and every `wrap` on the way ends in the range, congruent to its argument. -/
theorem unwrapSignal_sub_eq (h : low < high) (x : ℕ → K) (n : ℕ)
    (hstep : ∀ k < n, low ≤ x (k + 1) - x k ∧ x (k + 1) - x k < high) :
    (∃ m : ℤ, ∀ k ≤ n, unwrapSignal low high x k - x k = m * (high - low)) ∧
      ∀ y : K, (low ≤ wrap y low high ∧ wrap y low high < high) ∧
        ∃ m : ℤ, wrap y low high - y = m * (high - low) := by
  refine ⟨?_, fun y => ⟨wrap_mem h y, wrap_congruent h y⟩⟩
  obtain ⟨m, hm⟩ := wrap_congruent h (x 0)
  refine ⟨m, fun k hk => ?_⟩
  induction k with
  | zero => exact hm
  | succ k ih =>
    have hprev := ih (Nat.le_of_succ_le hk)
    rw [unwrapSignal, unwrap_eq_add_step h hprev (hstep k hk)]
    linear_combination hprev

end

/-- A signal that leaves the range `[2, 5)`, which does not hold zero. -/
theorem unwrapSignal_sub_eq_rat :
    (∃ m : ℤ, ∀ k ≤ 3, unwrapSignal (2 : ℚ) 5 (fun k => 7 + 3 * k) k - (7 + 3 * k) =
        m * (5 - 2)) ∧
      ∀ y : ℚ, (2 ≤ wrap y 2 5 ∧ wrap y 2 5 < 5) ∧ ∃ m : ℤ, wrap y 2 5 - y = m * (5 - 2) := by
  refine unwrapSignal_sub_eq (by norm_num) (fun k : ℕ => (7 + 3 * k : ℚ)) 3 ?_
  intro k _
  push_cast
  constructor <;> ring_nf <;> norm_num

end RT1064.Mat
