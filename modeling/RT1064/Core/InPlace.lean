import RT1064.Core.Run

/-!
# Filtering an array in place

`for (n = 0; n < num; n++) samples[n] = step(samples[n]);` runs a machine over the first `num`
elements of an array and puts each answer in the place of its element. The model keeps a log of
the indices that are read.
-/

namespace RT1064.Core

variable {σ α : Type*}

/-- A machine, the array it filters and the indices that were read, in order. -/
@[ext] structure InPlace (σ α : Type*) where
  machine : σ
  array : ℕ → α
  reads : List ℕ

namespace InPlace

/-- `samples[n] = step(samples[n])`. -/
def round (step : σ → α → α × σ) (s : InPlace σ α) (n : ℕ) : InPlace σ α :=
  let r := step s.machine (s.array n)
  ⟨r.2, Function.update s.array n r.1, s.reads ++ [n]⟩

/-- The loop over the first `num` elements. -/
def loop (step : σ → α → α × σ) (num : ℕ) (s : InPlace σ α) : InPlace σ α :=
  (List.range num).foldl (round step) s

/-- The machine reads the elements in order, each of them answers take their place, and nothing
else is read or written. -/
lemma loop_eq (step : σ → α → α × σ) (num : ℕ) (s : InPlace σ α) :
    loop step num s =
      ⟨final step s.machine ((List.range num).map s.array),
        fun n => (answers step s.machine ((List.range num).map s.array))[n]?.getD (s.array n),
        s.reads ++ List.range num⟩ := by
  induction num with
  | zero => simp [loop]
  | succ num ih =>
    have hlen : (answers step s.machine ((List.range num).map s.array)).length = num := by
      simp [length_answers]
    -- the element that is read has not been written before
    have hread : (answers step s.machine ((List.range num).map s.array))[num]?.getD (s.array num) =
        s.array num := by
      simp [hlen]
    rw [loop, List.range_succ, List.foldl_concat, ← loop, ih, round]
    simp only [hread, List.map_append, List.map_singleton, answers_concat, final_concat,
      List.append_assoc, InPlace.mk.injEq, and_true, true_and]
    funext n
    rcases lt_trichotomy n num with hlt | rfl | hgt
    · simp [Function.update_of_ne hlt.ne, List.getElem?_append_left (hlen.symm ▸ hlt)]
    · simp [hlen]
    · have hout : num + 1 ≤ n := hgt
      simp [Function.update_of_ne hgt.ne', List.getElem?_eq_none_iff.2, hlen, hgt.le, hout]

end InPlace

end RT1064.Core
