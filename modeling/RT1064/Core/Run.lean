import Mathlib.Tactic
import Mathlib.Data.List.Basic

/-!
# Runs of deterministic machines

A machine is a step function `σ → ε → σ` over events `ε`; its run on a list of events is
`List.foldl`. `EveryStep` speaks of all the steps of one run, so that a condition on the inputs
and the property it buys can be stated over the same run. The second half is for machines that
also answer each event, where a simulation transports the answers of a whole run.
-/

namespace RT1064.Core

universe u v
variable {σ ε : Type*}

/-! ### Properties of all steps -/

/-- Each step of the run of `es` from `s` meets `P`, which sees the state before the step. -/
def EveryStep (step : σ → ε → σ) (P : σ → ε → Prop) : σ → List ε → Prop
  | _, []      => True
  | s, e :: es => P s e ∧ EveryStep step P (step s e) es

@[simp] lemma everyStep_nil (step : σ → ε → σ) (P : σ → ε → Prop) (s : σ) :
    EveryStep step P s [] := trivial

@[simp] lemma everyStep_cons (step : σ → ε → σ) (P : σ → ε → Prop) (s : σ) (e : ε)
    (es : List ε) :
    EveryStep step P s (e :: es) ↔ P s e ∧ EveryStep step P (step s e) es := Iff.rfl

instance (step : σ → ε → σ) (P : σ → ε → Prop) [∀ s e, Decidable (P s e)] (s : σ)
    (es : List ε) : Decidable (EveryStep step P s es) :=
  match es with
  | []      => .isTrue trivial
  | e :: es =>
    have := instDecidableEveryStep step P (step s e) es
    inferInstanceAs (Decidable (P s e ∧ EveryStep step P (step s e) es))

/-- `EveryStep` unfolded: `P` holds at each event, in the state its prefix leads to. -/
lemma everyStep_iff_split {step : σ → ε → σ} {P : σ → ε → Prop} {s : σ} {es : List ε} :
    EveryStep step P s es ↔
      ∀ pre e post, es = pre ++ e :: post → P (pre.foldl step s) e := by
  induction es generalizing s with
  | nil => simp
  | cons e es ih =>
    rw [everyStep_cons, ih]
    constructor
    · rintro ⟨he, hes⟩ pre e' post heq
      cases pre with
      | nil =>
        obtain ⟨rfl, rfl⟩ := List.cons.inj heq
        exact he
      | cons a pre =>
        obtain ⟨rfl, htl⟩ := List.cons.inj heq
        exact hes pre e' post htl
    · intro h
      refine ⟨h [] e es rfl, fun pre e' post heq => ?_⟩
      exact h (e :: pre) e' post (by rw [heq, List.cons_append])

lemma EveryStep.mono {step : σ → ε → σ} {P Q : σ → ε → Prop} (hPQ : ∀ s e, P s e → Q s e)
    {s : σ} {es : List ε} (h : EveryStep step P s es) : EveryStep step Q s es := by
  rw [everyStep_iff_split] at h ⊢
  exact fun pre e post heq => hPQ _ _ (h pre e post heq)

section Invariants

variable {step : σ → ε → σ} (Inv : σ → Prop) {C P : σ → ε → Prop}

/-- An invariant preserved by every step holds after every run. -/
lemma inv_foldl_of_forall (hstep : ∀ s e, Inv s → Inv (step s e)) {s : σ} (es : List ε)
    (hs : Inv s) : Inv (es.foldl step s) := by
  induction es generalizing s with
  | nil => exact hs
  | cons e es ih => exact ih (hstep s e hs)

/-- The same for a machine that can stop on a failed assertion. -/
lemma inv_foldlM {step : σ → ε → Option σ}
    (hstep : ∀ s e s', Inv s → step s e = some s' → Inv s') {s s' : σ} {es : List ε}
    (hs : Inv s) (h : es.foldlM step s = some s') : Inv s' := by
  induction es generalizing s with
  | nil =>
    cases h
    exact hs
  | cons e es ih =>
    rw [List.foldlM_cons] at h
    obtain ⟨t, ht, h⟩ := Option.bind_eq_some_iff.mp h
    exact ih (hstep s e t hs ht) h

/-- What follows from an invariant that every step preserves holds at every step of every run. -/
lemma everyStep_of_forall_inv (hstep : ∀ s e, Inv s → Inv (step s e))
    (hP : ∀ s e, Inv s → P s e) {s : σ} (es : List ε) (hs : Inv s) : EveryStep step P s es := by
  induction es generalizing s with
  | nil => trivial
  | cons e es ih => exact ⟨hP s e hs, ih (hstep s e hs)⟩

/-- Where an invariant makes `P` and `C` the same step by step, and `C` keeps the invariant,
the runs all of whose steps meet `P` are exactly those all of whose steps meet `C`. All this may
hold on some events only. -/
lemma everyStep_iff_of_inv_on {D : ε → Prop}
    (hstep : ∀ s e, D e → Inv s → C s e → Inv (step s e))
    (hPC : ∀ s e, D e → Inv s → (P s e ↔ C s e)) {s : σ} {es : List ε} (hes : ∀ e ∈ es, D e)
    (hs : Inv s) : EveryStep step P s es ↔ EveryStep step C s es := by
  induction es generalizing s with
  | nil => exact Iff.rfl
  | cons e es ih =>
    have he := hes e List.mem_cons_self
    rw [everyStep_cons, everyStep_cons, hPC s e he hs]
    refine and_congr_right fun hC => ?_
    exact ih (fun e' he' => hes e' (List.mem_cons_of_mem e he')) (hstep s e he hs hC)

lemma everyStep_iff_of_inv (hstep : ∀ s e, Inv s → C s e → Inv (step s e))
    (hPC : ∀ s e, Inv s → (P s e ↔ C s e)) {s : σ} {es : List ε} (hs : Inv s) :
    EveryStep step P s es ↔ EveryStep step C s es :=
  everyStep_iff_of_inv_on Inv (fun s e _ => hstep s e) (fun s e _ => hPC s e)
    (fun _ _ => trivial) hs

end Invariants

/-! ### Machines that answer -/

section Answers

variable {τ ω : Type*}

/-- The answers along the run of `es` from `s`. -/
def answers (step : σ → ε → ω × σ) : σ → List ε → List ω
  | _, []      => []
  | s, e :: es => (step s e).1 :: answers step (step s e).2 es

/-- The state after the run of `es` from `s`. -/
def final (step : σ → ε → ω × σ) (s : σ) (es : List ε) : σ :=
  es.foldl (fun s e => (step s e).2) s

@[simp] lemma answers_nil (step : σ → ε → ω × σ) (s : σ) : answers step s [] = [] := rfl

@[simp] lemma answers_cons (step : σ → ε → ω × σ) (s : σ) (e : ε) (es : List ε) :
    answers step s (e :: es) = (step s e).1 :: answers step (step s e).2 es := rfl

@[simp] lemma final_nil (step : σ → ε → ω × σ) (s : σ) : final step s [] = s := rfl

@[simp] lemma final_cons (step : σ → ε → ω × σ) (s : σ) (e : ε) (es : List ε) :
    final step s (e :: es) = final step (step s e).2 es := rfl

lemma length_answers (step : σ → ε → ω × σ) (s : σ) (es : List ε) :
    (answers step s es).length = es.length := by
  induction es generalizing s with
  | nil => rfl
  | cons e es ih => rw [answers_cons, List.length_cons, ih, List.length_cons]

/-- A machine that stays where it is repeats its answer. -/
lemma answers_replicate {step : σ → ε → ω × σ} {s : σ} {e : ε} {o : ω} (h : step s e = (o, s))
    (n : ℕ) : answers step s (List.replicate n e) = List.replicate n o := by
  induction n with
  | zero => rfl
  | succ n ih => rw [List.replicate_succ, answers_cons, h, ih, List.replicate_succ]

/-- The last answer of a run. -/
lemma answers_concat (step : σ → ε → ω × σ) (s : σ) (es : List ε) (e : ε) :
    answers step s (es ++ [e]) = answers step s es ++ [(step (final step s es) e).1] := by
  induction es generalizing s with
  | nil => rfl
  | cons a es ih => rw [List.cons_append, answers_cons, ih, final_cons, answers_cons,
      List.cons_append]

/-- The last step of a run. -/
lemma final_concat (step : σ → ε → ω × σ) (s : σ) (es : List ε) (e : ε) :
    final step s (es ++ [e]) = (step (final step s es) e).2 := by
  rw [final, List.foldl_concat, final]

/-- `R` is a simulation: related states give the same answer and stay related. -/
def Simulates (R : σ → τ → Prop) (step : σ → ε → ω × σ) (step' : τ → ε → ω × τ) : Prop :=
  ∀ s t e, R s t → (step s e).1 = (step' t e).1 ∧ R (step s e).2 (step' t e).2

variable {R : σ → τ → Prop} {step : σ → ε → ω × σ} {step' : τ → ε → ω × τ}

/-- Along a simulation the answers of whole runs agree. -/
lemma Simulates.answers_eq (h : Simulates R step step') {s : σ} {t : τ} (hst : R s t)
    (es : List ε) : answers step s es = answers step' t es := by
  induction es generalizing s t with
  | nil => rfl
  | cons e es ih =>
    obtain ⟨ho, hr⟩ := h s t e hst
    rw [answers_cons, answers_cons, ho, ih hr]

/-- Along a simulation the states at the end of a run are related. -/
lemma Simulates.final_rel (h : Simulates R step step') {s : σ} {t : τ} (hst : R s t)
    (es : List ε) : R (final step s es) (final step' t es) := by
  induction es generalizing s t with
  | nil => exact hst
  | cons e es ih => exact ih (h s t e hst).2

/-- A simulation between machines that read and answer through translations `g` and `h`. -/
lemma answers_map {ε' ω' : Type*} {step' : τ → ε' → ω' × τ} {g : ε → ε'} {h : ω → ω'}
    (hsim : ∀ s t e, R s t →
      (step' t (g e)).1 = h (step s e).1 ∧ R (step s e).2 (step' t (g e)).2)
    {s : σ} {t : τ} (hst : R s t) (es : List ε) :
    answers step' t (es.map g) = (answers step s es).map h := by
  induction es generalizing s t with
  | nil => rfl
  | cons e es ih =>
    obtain ⟨ho, hr⟩ := hsim s t e hst
    rw [List.map_cons, answers_cons, answers_cons, List.map_cons, ho, ih hr]

end Answers

end RT1064.Core
