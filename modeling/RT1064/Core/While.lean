import Mathlib.Algebra.Order.Archimedean.Basic
import Mathlib.Logic.Function.Iterate
import Mathlib.Order.Lattice.Nat
import Mathlib.Tactic.Linarith

/-!
# Loops that may run forever

`while (cond) body` over a state. A loop is run with a bound on its rounds, which is what makes it
executable; the number of rounds after which it ends does not depend on the bound. The file has the
rule for invariants and rules that show that a loop ends.
-/

namespace RT1064.Core

variable {σ : Type*}

/-- `while (cond) body`, which has no result if it takes more than `fuel` rounds. -/
def whileLoop (cond : σ → Prop) [DecidablePred cond] (body : σ → σ) : ℕ → σ → Option σ
  | 0, s        => if cond s then none else some s
  | fuel + 1, s => if cond s then whileLoop cond body fuel (body s) else some s

/-- The loop ends after `k` rounds. -/
structure EndsAfter (cond : σ → Prop) (body : σ → σ) (s : σ) (k : ℕ) : Prop where
  going : ∀ i < k, cond (body^[i] s)
  done : ¬ cond (body^[k] s)

section Rounds

variable {cond : σ → Prop} {body : σ → σ} {s : σ} {k : ℕ}

lemma EndsAfter.succ (hs : cond s) (h : EndsAfter cond body (body s) k) :
    EndsAfter cond body s (k + 1) := by
  refine ⟨fun i hi => ?_, h.done⟩
  cases i with
  | zero => exact hs
  | succ i => exact h.going i (Nat.lt_of_succ_lt_succ hi)

lemma EndsAfter.tail (h : EndsAfter cond body s (k + 1)) : EndsAfter cond body (body s) k :=
  ⟨fun i hi => h.going (i + 1) (Nat.succ_lt_succ hi), h.done⟩

/-- A loop that does not end goes on after every round. -/
lemma forall_cond_of_not_ends (h : ¬ ∃ k, EndsAfter cond body s k) (i : ℕ) :
    cond (body^[i] s) := by
  induction i using Nat.strong_induction_on with
  | _ i ih =>
    by_contra hdone
    exact h ⟨i, ih, hdone⟩

/-- What the rounds preserve holds before each of them and in the end. -/
lemma iterate_invariant (inv : σ → Prop) (hs : inv s)
    (step : ∀ s, inv s → cond s → inv (body s)) (hgoing : ∀ i < k, cond (body^[i] s)) :
    inv (body^[k] s) := by
  induction k with
  | zero => exact hs
  | succ k ih =>
    rw [Function.iterate_succ_apply']
    refine step _ (ih fun i hi => ?_) (hgoing k k.lt_succ_self)
    exact hgoing i (hi.trans k.lt_succ_self)

lemma EndsAfter.invariant (h : EndsAfter cond body s k) (inv : σ → Prop) (hs : inv s)
    (step : ∀ s, inv s → cond s → inv (body s)) {i : ℕ} (hi : i ≤ k) : inv (body^[i] s) :=
  iterate_invariant inv hs step fun j hj => h.going j (hj.trans_le hi)

/-- A loop that does not end keeps its invariant. -/
lemma forall_invariant_of_not_ends (h : ¬ ∃ k, EndsAfter cond body s k) (inv : σ → Prop)
    (hs : inv s) (step : ∀ s, inv s → cond s → inv (body s)) (k : ℕ) :
    inv (body^[k] s) ∧ cond (body^[k] s) :=
  ⟨iterate_invariant inv hs step fun i _ => forall_cond_of_not_ends h i,
    forall_cond_of_not_ends h k⟩

variable [DecidablePred cond]

/-- The bounded loop has its result from the number of rounds on that the loop takes. -/
lemma whileLoop_eq_some_iff {fuel : ℕ} {t : σ} :
    whileLoop cond body fuel s = some t ↔
      ∃ k ≤ fuel, EndsAfter cond body s k ∧ body^[k] s = t := by
  induction fuel generalizing s with
  | zero =>
    rw [whileLoop, Option.ite_none_left_eq_some, Option.some_inj]
    constructor
    · rintro ⟨hdone, rfl⟩
      exact ⟨0, le_rfl, ⟨fun i hi => absurd hi i.not_lt_zero, hdone⟩, rfl⟩
    · rintro ⟨k, hk, hends, rfl⟩
      obtain rfl := Nat.le_zero.1 hk
      exact ⟨hends.done, rfl⟩
  | succ fuel ih =>
    rw [whileLoop]
    split_ifs with hcond
    · rw [ih]
      constructor
      · rintro ⟨k, hk, hends, rfl⟩
        exact ⟨k + 1, Nat.succ_le_succ hk, hends.succ hcond, rfl⟩
      · rintro ⟨k, hk, hends, rfl⟩
        cases k with
        | zero => exact absurd hcond hends.done
        | succ k => exact ⟨k, Nat.le_of_succ_le_succ hk, hends.tail, rfl⟩
    · rw [Option.some_inj]
      constructor
      · rintro rfl
        exact ⟨0, Nat.zero_le _, ⟨fun i hi => absurd hi i.not_lt_zero, hcond⟩, rfl⟩
      · rintro ⟨k, _, hends, rfl⟩
        cases k with
        | zero => rfl
        | succ k => exact absurd (hends.going 0 k.succ_pos) hcond

lemma EndsAfter.whileLoop_eq (h : EndsAfter cond body s k) {fuel : ℕ} (hfuel : k ≤ fuel) :
    whileLoop cond body fuel s = some (body^[k] s) :=
  whileLoop_eq_some_iff.2 ⟨k, hfuel, h, rfl⟩

end Rounds

/-! ### Loops that end -/

/-- A loop ends if every round makes a natural number smaller. -/
lemma exists_endsAfter_of_lt {cond : σ → Prop} {body : σ → σ} {s : σ} (inv : σ → Prop)
    (μ : σ → ℕ) (hs : inv s)
    (step : ∀ s, inv s → cond s → inv (body s) ∧ μ (body s) < μ s) :
    ∃ k, EndsAfter cond body s k := by
  by_contra hnot
  have hall := forall_invariant_of_not_ends hnot inv hs fun s h hc => (step s h hc).1
  have hle : ∀ k : ℕ, μ (body^[k] s) + k ≤ μ s := by
    intro k
    induction k with
    | zero => rfl
    | succ k ih =>
      have hstep := (step _ (hall k).1 (hall k).2).2
      rw [Function.iterate_succ_apply']
      omega
  have hbound := hle (μ s + 1)
  omega

section Termination

variable {cond : σ → Prop} {body : σ → σ} {s : σ} {K : Type*} [Field K] [LinearOrder K]
  [IsStrictOrderedRing K] [Archimedean K]

/-- A loop ends if every round but the last takes a fixed amount from a quantity that stays
positive. -/
lemma exists_endsAfter_of_sub (inv : σ → Prop) (μ : σ → K) {δ : K} (hδ : 0 < δ) (hs : inv s)
    (hpos : ∀ s, inv s → cond s → 0 < μ s)
    (step : ∀ s, inv s → cond s → inv (body s) ∧ (cond (body s) → μ (body s) ≤ μ s - δ)) :
    ∃ k, EndsAfter cond body s k := by
  by_contra hnot
  have hall := forall_invariant_of_not_ends hnot inv hs fun s h hc => (step s h hc).1
  have hle : ∀ k : ℕ, μ (body^[k] s) ≤ μ s - k * δ := by
    intro k
    induction k with
    | zero => simp
    | succ k ih =>
      have hnext := (hall (k + 1)).2
      rw [Function.iterate_succ_apply'] at hnext ⊢
      have hstep := (step _ (hall k).1 (hall k).2).2 hnext
      push_cast
      linarith
  obtain ⟨k, hk⟩ := exists_lt_nsmul hδ (μ s)
  rw [nsmul_eq_mul] at hk
  linarith [hle k, hpos _ (hall k).1 (hall k).2]

/-- A loop ends if every round makes a quantity smaller by a factor and goes on only while the
quantity is over a bound. -/
lemma exists_endsAfter_of_mul (inv : σ → Prop) (μ : σ → K) {q ε : K} (hq0 : 0 ≤ q) (hq1 : q < 1)
    (hε : 0 < ε) (hs : inv s) (hlt : ∀ s, inv s → cond s → ε < μ s)
    (step : ∀ s, inv s → cond s → inv (body s) ∧ μ (body s) ≤ q * μ s) :
    ∃ k, EndsAfter cond body s k := by
  by_contra hnot
  have hall := forall_invariant_of_not_ends hnot inv hs fun s h hc => (step s h hc).1
  have hle : ∀ k : ℕ, μ (body^[k] s) ≤ q ^ k * μ s := by
    intro k
    induction k with
    | zero => simp
    | succ k ih =>
      calc μ (body^[k + 1] s) ≤ q * μ (body^[k] s) := by
            rw [Function.iterate_succ_apply']
            exact (step _ (hall k).1 (hall k).2).2
        _ ≤ q * (q ^ k * μ s) := mul_le_mul_of_nonneg_left ih hq0
        _ = q ^ (k + 1) * μ s := by rw [pow_succ', mul_assoc]
  have hμ : 0 < μ s := hε.trans (hlt s hs (hall 0).2)
  obtain ⟨k, hk⟩ := exists_pow_lt_of_lt_one (div_pos hε hμ) hq1
  rw [lt_div_iff₀ hμ] at hk
  linarith [hle k, hlt _ (hall k).1 (hall k).2]

end Termination

/-! ### Loops that end by a break -/

section Forever

variable {ρ : Type*}

/-- `for (;;)`, whose rounds go on with a state or break with a result. A round may fail; there is
no result either if there are more than `fuel` rounds. -/
def forever (body : σ → Option (σ ⊕ ρ)) : ℕ → σ → Option ρ
  | 0, _        => none
  | fuel + 1, s =>
    match body s with
    | none          => none
    | some (.inl s) => forever body fuel s
    | some (.inr r) => some r

/-- The rule for loops with a measure: no round fails, and the result is as the last round has
it. -/
lemma forever_of_lt {body : σ → Option (σ ⊕ ρ)} (inv : σ → Prop) (post : ρ → Prop) (μ : σ → ℕ)
    (step : ∀ s, inv s → (∃ s', body s = some (.inl s') ∧ inv s' ∧ μ s' < μ s) ∨
      ∃ r, body s = some (.inr r) ∧ post r) {fuel : ℕ} {s : σ} (hs : inv s) (hμ : μ s < fuel) :
    ∃ r, forever body fuel s = some r ∧ post r := by
  induction fuel generalizing s with
  | zero => exact absurd hμ (μ s).not_lt_zero
  | succ fuel ih =>
    obtain ⟨s', hbody, hs', hlt⟩ | ⟨r, hbody, hr⟩ := step s hs
    · obtain ⟨r, hrun, hr⟩ := ih hs' (hlt.trans_le (Nat.le_of_lt_succ hμ))
      exact ⟨r, by rw [forever, hbody]; exact hrun, hr⟩
    · exact ⟨r, by rw [forever, hbody], hr⟩

end Forever

end RT1064.Core
