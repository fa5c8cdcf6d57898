import Mathlib.Tactic
import Mathlib.Data.List.Basic

/-!
# Byte copies

Memory behind a pointer is a function of the offset. `copyInto` is the effect of a copy, and a
`Span` names the offsets that a copy touches.
-/

namespace RT1064.Core

variable {α : Type*}

/-- Offsets `off, …, off + len - 1` of `m` replaced by the first `len` cells of `src`. -/
def copyInto (m : ℕ → α) (off : ℕ) (src : ℕ → α) (len : ℕ) : ℕ → α :=
  fun j => if off ≤ j ∧ j < off + len then src (j - off) else m j

lemma copyInto_of_mem {m src : ℕ → α} {off len j : ℕ} (h1 : off ≤ j) (h2 : j < off + len) :
    copyInto m off src len j = src (j - off) := if_pos ⟨h1, h2⟩

lemma copyInto_of_lt {m src : ℕ → α} {off len j : ℕ} (h : j < off) :
    copyInto m off src len j = m j := if_neg fun h' => absurd h'.1 (by omega)

lemma copyInto_of_le {m src : ℕ → α} {off len j : ℕ} (h : off + len ≤ j) :
    copyInto m off src len j = m j := if_neg fun h' => absurd h'.2 (by omega)

@[simp] lemma copyInto_zero (m src : ℕ → α) (off : ℕ) : copyInto m off src 0 = m := by
  funext j
  by_cases h : j < off
  · exact copyInto_of_lt h
  · exact copyInto_of_le (by omega)

/-- Two copies into adjacent places are one copy of the joined source. -/
lemma copyInto_copyInto (m src tl : ℕ → α) (off a b : ℕ) :
    copyInto (copyInto m off src a) (off + a) tl b =
      copyInto m off (fun i => if i < a then src i else tl (i - a)) (a + b) := by
  funext j
  by_cases h1 : j < off
  · rw [copyInto_of_lt (by omega), copyInto_of_lt h1, copyInto_of_lt h1]
  by_cases h2 : j < off + a
  · rw [copyInto_of_lt h2, copyInto_of_mem (by omega) h2,
      copyInto_of_mem (by omega) (by omega), if_pos (by omega)]
  by_cases h3 : j < off + a + b
  · rw [copyInto_of_mem (by omega) h3, copyInto_of_mem (by omega) (by omega),
      if_neg (by omega), Nat.sub_sub]
  · rw [copyInto_of_le (by omega), copyInto_of_le (by omega), copyInto_of_le (by omega)]

/-- The offsets `offset, …, offset + length - 1`. -/
structure Span where
  offset : ℕ
  length : ℕ
deriving DecidableEq, Repr

/-- Every offset of the span is below `n`; an empty span touches nothing. -/
def Span.Within (t : Span) (n : ℕ) : Prop := ∀ i < t.length, t.offset + i < n

lemma Span.within_iff (t : Span) (n : ℕ) :
    t.Within n ↔ t.length = 0 ∨ t.offset + t.length ≤ n := by
  constructor
  · intro h
    by_cases h0 : t.length = 0
    · exact Or.inl h0
    · have := h (t.length - 1) (by omega)
      right; omega
  · rintro (h0 | hle) i hi
    · omega
    · omega

instance (t : Span) (n : ℕ) : Decidable (t.Within n) :=
  decidable_of_iff _ (t.within_iff n).symm

end RT1064.Core
