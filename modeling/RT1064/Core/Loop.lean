import Mathlib.Algebra.BigOperators.Fin
import Mathlib.Tactic

/-!
# Counting loops over bounded indices

`for (i = lo; i < hi; i++)` over the entries of an array of length `n` is a left fold over
`indices lo hi : List (Fin n)`. The file has the invariant rule of such a loop and what the loops
that accumulate a sum compute.
-/

namespace RT1064.Core

variable {n : ℕ} {σ : Type*}

/-- The indices `lo, …, hi - 1`, in the order in which a counting loop visits them. -/
def indices (lo hi : ℕ) : List (Fin n) :=
  (List.range' lo (hi - lo)).filterMap fun i => if h : i < n then some ⟨i, h⟩ else none

@[simp] lemma mem_indices {lo hi : ℕ} {i : Fin n} :
    i ∈ indices lo hi ↔ lo ≤ i.val ∧ i.val < hi := by
  simp only [indices, List.mem_filterMap, List.mem_range'_1, Option.dite_none_right_eq_some,
    Option.some.injEq]
  constructor
  · rintro ⟨j, hj, _, rfl⟩
    exact ⟨hj.1, by simp only; omega⟩
  · rintro ⟨hlo, hhi⟩
    exact ⟨i.val, ⟨hlo, by omega⟩, i.isLt, rfl⟩

/-- A loop over an empty range does nothing. -/
lemma indices_of_le {lo hi : ℕ} (h : hi ≤ lo) : (indices lo hi : List (Fin n)) = [] := by
  simp [indices, Nat.sub_eq_zero_of_le h]

/-- The last round of a loop. -/
lemma indices_succ {lo : ℕ} (i : Fin n) (h : lo ≤ i.val) :
    indices lo (i.val + 1) = indices lo i.val ++ [i] := by
  have hlen : i.val + 1 - lo = i.val - lo + 1 := by omega
  have hlast : lo + 1 * (i.val - lo) = i.val := by omega
  rw [indices, hlen, List.range'_concat, List.filterMap_append, hlast]
  simp [indices]

/-- The first round of a loop. -/
lemma indices_cons {hi : ℕ} (i : Fin n) (h : i.val < hi) :
    indices i.val hi = i :: indices (i.val + 1) hi := by
  have hlen : hi - i.val = hi - (i.val + 1) + 1 := by omega
  rw [indices, hlen, List.range'_succ, List.filterMap_cons]
  simp [indices]

/-- A loop is one part of it after the other. -/
lemma indices_append {lo mid hi : ℕ} (hlo : lo ≤ mid) (hhi : mid ≤ hi) :
    (indices lo hi : List (Fin n)) = indices lo mid ++ indices mid hi := by
  have hlen : hi - lo = mid - lo + (hi - mid) := by omega
  have hmid : mid = lo + (mid - lo) := by omega
  rw [indices, indices, indices, ← List.filterMap_append, hlen, ← List.range'_append_1, ← hmid]

/-- The rounds up to a given one, that one, and the rounds after it. -/
lemma indices_split {lo hi : ℕ} (i : Fin n) (hlo : lo ≤ i.val) (hhi : i.val < hi) :
    indices lo hi = indices lo i.val ++ i :: indices (i.val + 1) hi := by
  rw [indices_append hlo hhi.le, indices_cons i hhi]

lemma length_indices {lo hi : ℕ} (hhi : hi ≤ n) :
    (indices lo hi : List (Fin n)).length = hi - lo := by
  rcases le_total hi lo with hle | hle
  · rw [indices_of_le hle, List.length_nil, Nat.sub_eq_zero_of_le hle]
  · induction hi, hle using Nat.le_induction with
    | base => rw [indices_of_le le_rfl, List.length_nil, Nat.sub_self]
    | succ k hk ih =>
      rw [indices_succ ⟨k, hhi⟩ hk, List.length_append, ih (Nat.le_of_succ_le hhi),
        List.length_singleton, Nat.succ_sub hk]

/-- A loop over a part of an array, at the places where the part is in the array. -/
lemma map_indices {m : ℕ} {f : Fin m → Fin n} {c : ℕ} (hf : ∀ i, (f i).val = c + i.val)
    {lo hi : ℕ} (h : hi ≤ m) : (indices lo hi).map f = indices (c + lo) (c + hi) := by
  rcases le_total hi lo with hle | hle
  · rw [indices_of_le hle, indices_of_le (Nat.add_le_add_left hle c), List.map_nil]
  · induction hi, hle using Nat.le_induction with
    | base => rw [indices_of_le le_rfl, indices_of_le le_rfl, List.map_nil]
    | succ k hk ih =>
      have hlast : (f ⟨k, h⟩).val = c + k := hf _
      have hlo : c + lo ≤ (f ⟨k, h⟩).val := by
        rw [hlast]
        exact Nat.add_le_add_left hk c
      rw [indices_succ ⟨k, h⟩ hk, List.map_append, ih (Nat.le_of_succ_le h), ← add_assoc,
        ← hlast, indices_succ _ hlo]
      rfl

lemma nodup_indices (lo hi : ℕ) : (indices lo hi : List (Fin n)).Nodup := by
  refine List.Nodup.filterMap ?_ List.nodup_range'
  intro a b i ha hb
  simp only [Option.dite_none_right_eq_some, Option.some.injEq, Option.mem_def] at ha hb
  obtain ⟨_, rfl⟩ := ha
  obtain ⟨_, hb⟩ := hb
  exact (congrArg Fin.val hb).symm

lemma pairwise_indices (lo hi : ℕ) : (indices lo hi : List (Fin n)).Pairwise (· < ·) := by
  refine List.Pairwise.filterMap _ ?_ (List.pairwise_lt_range' (s := lo) (n := hi - lo))
  intro a b hab i hi j hj
  simp only [Option.dite_none_right_eq_some, Option.some.injEq] at hi hj
  obtain ⟨_, rfl⟩ := hi
  obtain ⟨_, rfl⟩ := hj
  exact hab

/-! ### Two nested loops -/

section Grid

variable {m : ℕ}

/-- The pairs of indices in the order in which two nested loops visit them. -/
def grid (m n : ℕ) : List (Fin m × Fin n) :=
  (indices 0 m).flatMap fun i => (indices 0 n).map (Prod.mk i)

/-- Two nested loops visit the pair `p` before the pair `q`. -/
def Before (p q : Fin m × Fin n) : Prop := p.1 < q.1 ∨ p.1 = q.1 ∧ p.2 < q.2

lemma Before.asymm {p q : Fin m × Fin n} (h : Before p q) : ¬ Before q p := by
  rintro (h' | ⟨h', hlt'⟩)
  · rcases h with h | ⟨h, _⟩
    · exact lt_asymm h h'
    · exact h'.ne h.symm
  · rcases h with h | ⟨_, hlt⟩
    · exact h.ne h'.symm
    · exact lt_asymm hlt hlt'

lemma mem_grid (p : Fin m × Fin n) : p ∈ grid m n := by
  simp only [grid, List.mem_flatMap, List.mem_map, mem_indices]
  exact ⟨p.1, ⟨Nat.zero_le _, p.1.isLt⟩, p.2, ⟨Nat.zero_le _, p.2.isLt⟩, rfl⟩

lemma pairwise_grid : (grid m n).Pairwise Before := by
  rw [grid, List.pairwise_flatMap]
  constructor
  · intro i _
    rw [List.pairwise_map]
    exact (pairwise_indices 0 n).imp fun h => .inr ⟨rfl, h⟩
  · refine (pairwise_indices 0 m).imp fun {i i'} h p hp q hq => ?_
    obtain ⟨_, _, rfl⟩ := List.mem_map.1 hp
    obtain ⟨_, _, rfl⟩ := List.mem_map.1 hq
    exact .inl h

lemma nodup_grid : (grid m n).Nodup := by
  refine pairwise_grid.imp fun {p q} h => ?_
  rintro rfl
  exact h.asymm h

/-- Two nested loops are one loop over the pairs. -/
lemma foldl_grid (f : σ → Fin m → Fin n → σ) (s : σ) :
    (indices 0 m).foldl (fun s i => (indices 0 n).foldl (fun s j => f s i j) s) s =
      (grid m n).foldl (fun s p => f s p.1 p.2) s := by
  simp only [grid, List.foldl_flatMap, List.foldl_map]

end Grid

/-! ### Invariants -/

/-- A loop invariant `inv i s`, where `i` is the index the loop visits next. -/
lemma foldl_indices_induction (inv : ℕ → σ → Prop) {f : σ → Fin n → σ} {lo hi : ℕ} {s : σ}
    (hlo : lo ≤ hi) (hhi : hi ≤ n) (start : inv lo s)
    (step : ∀ (i : Fin n) (s : σ), lo ≤ i.val → i.val < hi → inv i.val s →
      inv (i.val + 1) (f s i)) :
    inv hi ((indices lo hi).foldl f s) := by
  induction hi, hlo using Nat.le_induction with
  | base => simpa [indices_of_le] using start
  | succ m hm ih =>
    have hmn : m < n := hhi
    rw [indices_succ ⟨m, hmn⟩ hm, List.foldl_concat]
    refine step ⟨m, hmn⟩ _ hm (Nat.lt_succ_self m) (ih hmn.le ?_)
    intro i s hi him
    exact step i s hi (him.trans (Nat.lt_succ_self m))

/-- The rule for a loop that may stop early: the invariant holds when it ran to its end. -/
lemma foldlM_indices_induction (inv : ℕ → σ → Prop) {f : σ → Fin n → Option σ} {lo hi : ℕ}
    {s t : σ} (hlo : lo ≤ hi) (hhi : hi ≤ n) (start : inv lo s)
    (step : ∀ (i : Fin n) (s t : σ), lo ≤ i.val → i.val < hi → inv i.val s → f s i = some t →
      inv (i.val + 1) t)
    (h : (indices lo hi).foldlM f s = some t) : inv hi t := by
  induction hi, hlo using Nat.le_induction generalizing t with
  | base =>
    rw [indices_of_le le_rfl] at h
    obtain rfl : s = t := by simpa using h
    exact start
  | succ m hm ih =>
    have hmn : m < n := hhi
    rw [indices_succ ⟨m, hmn⟩ hm, List.foldlM_append] at h
    obtain ⟨u, hu, hut⟩ := Option.bind_eq_some_iff.1 h
    refine step ⟨m, hmn⟩ u t hm (Nat.lt_succ_self m) (ih hmn.le ?_ hu) (by simpa using hut)
    intro i s t hi him
    exact step i s t hi (him.trans (Nat.lt_succ_self m))

/-- The rule for a loop that counts down. -/
lemma foldl_reverse_indices_induction (inv : ℕ → σ → Prop) {f : σ → Fin n → σ} {lo hi : ℕ}
    {s : σ} (hlo : lo ≤ hi) (hhi : hi ≤ n) (start : inv hi s)
    (step : ∀ (i : Fin n) (s : σ), lo ≤ i.val → i.val < hi → inv (i.val + 1) s →
      inv i.val (f s i)) :
    inv lo ((indices lo hi).reverse.foldl f s) := by
  induction hi, hlo using Nat.le_induction generalizing s with
  | base => simpa [indices_of_le] using start
  | succ m hm ih =>
    have hmn : m < n := hhi
    rw [indices_succ ⟨m, hmn⟩ hm, List.reverse_append]
    simp only [List.reverse_singleton, List.singleton_append, List.foldl_cons]
    refine ih hmn.le (step ⟨m, hmn⟩ s hm (Nat.lt_succ_self m) start) ?_
    intro i s hi him
    exact step i s hi (him.trans (Nat.lt_succ_self m))

/-! ### What a loop leaves in one place

`get` reads a place of the state. A loop that does not write the place keeps its value; a loop one
round of which writes it leaves what that round wrote, computed from what `read` sees, if no other
round changes what is read there. -/

section Place

variable {ι β γ : Type*} {f : σ → ι → σ} {l : List ι}

lemma foldl_frame (get : σ → β) (h : ∀ s, ∀ i ∈ l, get (f s i) = get s) (s : σ) :
    get (l.foldl f s) = get s := by
  induction l generalizing s with
  | nil => rfl
  | cons i l ih =>
    rw [List.foldl_cons, ih fun s j hj => h s j (List.mem_cons_of_mem _ hj)]
    exact h s i List.mem_cons_self

lemma foldl_once (get : σ → β) (read : σ → γ) {v : γ → β} {i : ι} (hl : l.Nodup) (hi : i ∈ l)
    (hget : ∀ s, ∀ j ∈ l, j ≠ i → get (f s j) = get s)
    (hread : ∀ s, ∀ j ∈ l, j ≠ i → read (f s j) = read s)
    (hwrite : ∀ s, get (f s i) = v (read s)) (s : σ) :
    get (l.foldl f s) = v (read s) := by
  induction l generalizing s with
  | nil => exact absurd hi List.not_mem_nil
  | cons j l ih =>
    obtain ⟨hj, hl⟩ := List.nodup_cons.1 hl
    rw [List.foldl_cons]
    rcases List.mem_cons.1 hi with rfl | hi
    · rw [foldl_frame get, hwrite]
      intro s k hk
      exact hget s k (List.mem_cons_of_mem _ hk) fun h => hj (h ▸ hk)
    · have hji : j ≠ i := fun h => hj (h ▸ hi)
      rw [ih hl hi, hread s j List.mem_cons_self hji]
      · intro s k hk
        exact hget s k (List.mem_cons_of_mem _ hk)
      · intro s k hk
        exact hread s k (List.mem_cons_of_mem _ hk)

end Place

/-! ### Loops that never stop early -/

lemma foldlM_eq_some {ι : Type*} {f : σ → ι → Option σ} {g : σ → ι → σ}
    (h : ∀ s i, f s i = some (g s i)) (l : List ι) (s : σ) :
    l.foldlM f s = some (l.foldl g s) := by
  induction l generalizing s with
  | nil => rfl
  | cons i l ih =>
    rw [List.foldlM_cons, h, List.foldl_cons, ← ih]
    rfl

/-! ### Sums -/

section Sum

variable {α : Type*} [AddCommMonoid α]

/-- A loop that adds up `f`. -/
lemma foldl_add_eq_sum {ι : Type*} (l : List ι) (f : ι → α) (c : α) :
    l.foldl (fun acc i => acc + f i) c = c + (l.map f).sum := by
  induction l generalizing c with
  | nil => simp
  | cons i l ih => rw [List.foldl_cons, ih, List.map_cons, List.sum_cons, add_assoc]

/-- The sum that a loop over a part of the indices adds up. -/
lemma sum_map_indices (lo hi : ℕ) (f : Fin n → α) :
    ((indices lo hi).map f).sum = ∑ i with lo ≤ i.val ∧ i.val < hi, f i := by
  rw [← List.sum_toFinset f (nodup_indices lo hi)]
  congr 1
  ext i
  simp

/-- The sum that a loop over all the indices adds up. -/
lemma foldl_indices_add (f : Fin n → α) (c : α) :
    (indices 0 n).foldl (fun acc i => acc + f i) c = c + ∑ i, f i := by
  rw [foldl_add_eq_sum, sum_map_indices]
  simp

end Sum

end RT1064.Core
