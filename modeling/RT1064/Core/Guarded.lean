import Mathlib.Data.List.Basic
import Mathlib.Algebra.Group.Nat.Defs

/-!
# Guarded machines

A step function that may fail, whose actions are taken only where they are allowed. What is assumed
of all states of a run is a part of the guard.
-/

namespace RT1064.Core

variable {σ α : Type*} {step : σ → α → Option σ} {allowed : σ → α → Prop} {s t u : σ}
  {as bs : List α} {a : α}

/-- The actions lead from the first state to the last one, and each was allowed. -/
inductive Guarded (step : σ → α → Option σ) (allowed : σ → α → Prop) (s : σ) :
    List α → σ → Prop
  | refl : Guarded step allowed s [] s
  | tail {t u : σ} {as : List α} {a : α} (h : Guarded step allowed s as t) (ha : allowed t a)
      (hstep : step t a = some u) : Guarded step allowed s (as ++ [a]) u

namespace Guarded

/-- What all allowed actions keep holds at the end of a run. -/
lemma invariant (Inv : σ → Prop)
    (hstep : ∀ s a t, Inv s → allowed s a → step s a = some t → Inv t)
    (h : Guarded step allowed s as t) (hs : Inv s) : Inv t := by
  induction h with
  | refl => exact hs
  | tail _ ha ht ih => exact hstep _ _ _ ih ha ht

lemma mono {allowed' : σ → α → Prop} (hmono : ∀ s a, allowed s a → allowed' s a)
    (h : Guarded step allowed s as t) : Guarded step allowed' s as t := by
  induction h with
  | refl => exact .refl
  | tail _ ha ht ih => exact .tail ih (hmono _ _ ha) ht

lemma single (ha : allowed s a) (hstep : step s a = some t) : Guarded step allowed s [a] t :=
  .tail .refl ha hstep

lemma append (h : Guarded step allowed s as t) (h' : Guarded step allowed t bs u) :
    Guarded step allowed s (as ++ bs) u := by
  induction h' with
  | refl => rwa [List.append_nil]
  | tail _ ha ht ih =>
    rw [← List.append_assoc]
    exact .tail ih ha ht

/-- Runs the actions, and asks before each whether it is allowed. -/
def follow (step : σ → α → Option σ) (allowed : σ → α → Prop) [∀ s a, Decidable (allowed s a)] :
    σ → List α → Option σ
  | s, []      => some s
  | s, a :: as => if allowed s a then (step s a).bind fun t => follow step allowed t as else none

lemma of_follow [∀ s a, Decidable (allowed s a)] (h : follow step allowed s as = some t) :
    Guarded step allowed s as t := by
  induction as generalizing s with
  | nil =>
    cases h
    exact .refl
  | cons a as ih =>
    rw [follow, Option.ite_none_right_eq_some] at h
    obtain ⟨u, hstep, hrest⟩ := Option.bind_eq_some_iff.1 h.2
    exact (Guarded.single h.1 hstep).append (ih hrest)

end Guarded

/-! ### Counting along a run -/

section Tally

variable (step) (f : σ → α → σ → ℕ)

/-- The sum of a number for each step. -/
def tally : σ → List α → ℕ
  | _, []      => 0
  | s, a :: as =>
    match step s a with
    | none   => 0
    | some t => f s a t + tally t as

lemma Guarded.tally_append (h : Guarded step allowed s as t) (bs : List α) :
    tally step f s (as ++ bs) = tally step f s as + tally step f t bs := by
  induction h generalizing bs with
  | refl => exact (Nat.zero_add _).symm
  | @tail t u as a h ha ht ih =>
    have hlast : ∀ bs, tally step f t (a :: bs) = f t a u + tally step f u bs := fun bs => by
      rw [tally, ht]
    rw [List.append_assoc, ih, List.singleton_append, hlast, ih, hlast, tally]
    omega

/-- The number for the last step is added to those for the steps before. -/
lemma Guarded.tally_concat (h : Guarded step allowed s as t) (hstep : step t a = some u) :
    tally step f s (as ++ [a]) = tally step f s as + f t a u := by
  rw [h.tally_append, tally, hstep]
  rfl

end Tally

end RT1064.Core
