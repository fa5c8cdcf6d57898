import Mathlib.Tactic
import Mathlib.Data.List.Basic

/-!
# Bounded first-in first-out queues

The queue refuses a push that is empty or does not fit as a whole, and hands out at most what it
holds. The bound is a field, so a queue over capacity cannot be built.
-/

namespace RT1064.Core

/-- A queue of at most `cap` items, oldest first. -/
structure Fifo (α : Type*) (cap : ℕ) where
  items : List α
  length_le : items.length ≤ cap

namespace Fifo

variable {α : Type*} {cap : ℕ}

@[ext] lemma ext {p q : Fifo α cap} (h : p.items = q.items) : p = q := by
  cases p; cases q; cases h; rfl

def empty (α : Type*) (cap : ℕ) : Fifo α cap := ⟨[], Nat.zero_le _⟩

/-- The room left. -/
def room (q : Fifo α cap) : ℕ := cap - q.items.length

/-- The queue takes `xs`: something to add, and room for all of it. -/
def Admits (q : Fifo α cap) (xs : List α) : Prop := 1 ≤ xs.length ∧ xs.length ≤ q.room

instance (q : Fifo α cap) (xs : List α) : Decidable (q.Admits xs) :=
  inferInstanceAs (Decidable (_ ∧ _))

/-- Append `xs` as a whole. -/
def append (q : Fifo α cap) (xs : List α) (h : q.Admits xs) : Fifo α cap :=
  ⟨q.items ++ xs, by
    have h1 := h.2
    have h2 := q.length_le
    rw [room] at h1
    rw [List.length_append]
    omega⟩

/-- Offer `xs`: all of it is taken or none of it. -/
def push (q : Fifo α cap) (xs : List α) : Bool × Fifo α cap :=
  if h : q.Admits xs then (true, q.append xs h) else (false, q)

/-- Take out the `k` oldest items, or all where there are fewer. -/
def pop (q : Fifo α cap) (k : ℕ) : List α × Fifo α cap :=
  (q.items.take k, ⟨q.items.drop k, by
    have := q.length_le
    rw [List.length_drop]
    omega⟩)

@[simp] lemma empty_items : (empty α cap).items = [] := rfl

lemma push_of_admits {q : Fifo α cap} {xs : List α} (h : q.Admits xs) :
    q.push xs = (true, q.append xs h) := by simp [push, h]

lemma push_of_not_admits {q : Fifo α cap} {xs : List α} (h : ¬ q.Admits xs) :
    q.push xs = (false, q) := by simp [push, h]

@[simp] lemma append_items (q : Fifo α cap) (xs : List α) (h : q.Admits xs) :
    (q.append xs h).items = q.items ++ xs := rfl

@[simp] lemma pop_items (q : Fifo α cap) (k : ℕ) : (q.pop k).2.items = q.items.drop k := rfl

end Fifo

end RT1064.Core
