import RT1064.Mat.Slice

/-!
# Making rows and columns symmetric

The loops of `makeRowColSymmetric` average pairs of entries in place. Together they are one loop
over a list of pairs, in which every pair of the rows and columns of the block stands once.
-/

namespace RT1064.Mat

open Core

variable {K : Type*} [Field K] {M Width : ℕ}

/-! ### The loops -/

section Model

/-- Both entries of a pair become their average. -/
def averagePair (A : Matrix (Fin M) (Fin M) K) (row_idx col_idx : Fin M) :
    Matrix (Fin M) (Fin M) K :=
  let tmp := (A row_idx col_idx + A col_idx row_idx) / 2
  setEntry (setEntry A row_idx col_idx tmp) col_idx row_idx tmp

/-- `makeBlockSymmetric`. -/
def makeBlockSymmetric (A : Matrix (Fin M) (Fin M) K) (b : Block M Width) :
    Matrix (Fin M) (Fin M) K :=
  if 1 < Width then
    (indices (b.first + 1) (b.first + Width)).foldl (fun A (row_idx : Fin M) =>
      (indices b.first row_idx.val).foldl (fun A col_idx => averagePair A row_idx col_idx) A) A
  else A

/-- `makeRowColSymmetric`. -/
def makeRowColSymmetric (A : Matrix (Fin M) (Fin M) K) (b : Block M Width) :
    Matrix (Fin M) (Fin M) K :=
  let A := makeBlockSymmetric A b
  (indices b.first (b.first + Width)).foldl (fun A row_idx =>
    let A := (indices 0 b.first).foldl (fun A col_idx => averagePair A row_idx col_idx) A
    (indices (b.first + Width) M).foldl (fun A col_idx => averagePair A row_idx col_idx) A) A

variable [LinearOrder K]

/-- `isBlockSymmetric`. -/
def isBlockSymmetric (A : Matrix (Fin M) (Fin M) K) (b : Block M Width) (eps : K) : Bool :=
  if 1 < Width then
    (indices (b.first + 1) (b.first + Width)).all fun row_idx : Fin M =>
      (indices b.first row_idx.val).all fun col_idx =>
        isEqualF (A row_idx col_idx) (A col_idx row_idx) eps
  else true

/-- `isRowColSymmetric`. -/
def isRowColSymmetric (A : Matrix (Fin M) (Fin M) K) (b : Block M Width) (eps : K) : Bool :=
  ((indices b.first (b.first + Width)).all fun row_idx : Fin M =>
    ((indices 0 b.first).all fun col_idx =>
      isEqualF (A row_idx col_idx) (A col_idx row_idx) eps) &&
    (indices (b.first + Width) M).all fun col_idx =>
      isEqualF (A row_idx col_idx) (A col_idx row_idx) eps) &&
  isBlockSymmetric A b eps

end Model

/-! ### The pairs -/

section Pairs

variable (b : Block M Width)

/-- The pairs that `makeBlockSymmetric` visits. -/
def blockPairs : List (Fin M × Fin M) :=
  (indices (b.first + 1) (b.first + Width)).flatMap fun row_idx : Fin M =>
    (indices b.first row_idx.val).map (Prod.mk row_idx)

/-- The pairs that `makeRowColSymmetric` visits. -/
def rowColPairs : List (Fin M × Fin M) :=
  blockPairs b ++ (indices b.first (b.first + Width)).flatMap fun row_idx =>
    (indices 0 b.first ++ indices (b.first + Width) M).map (Prod.mk row_idx)

lemma mem_blockPairs {p : Fin M × Fin M} :
    p ∈ blockPairs b ↔ b.Mem p.1 ∧ b.Mem p.2 ∧ p.2 < p.1 := by
  obtain ⟨i, j⟩ := p
  simp only [blockPairs, List.mem_flatMap, List.mem_map, mem_indices, Prod.mk.injEq, Block.Mem]
  constructor
  · rintro ⟨_, hi, _, hj, rfl, rfl⟩
    exact ⟨⟨by omega, hi.2⟩, ⟨hj.1, hj.2.trans hi.2⟩, hj.2⟩
  · rintro ⟨hi, hj, hji⟩
    exact ⟨i, ⟨lt_of_le_of_lt hj.1 hji, hi.2⟩, j, ⟨hj.1, hji⟩, rfl, rfl⟩

/-- A pair is visited from its row in the block; inside the block, from the lower triangle. -/
lemma mem_rowColPairs {p : Fin M × Fin M} :
    p ∈ rowColPairs b ↔ b.Mem p.1 ∧ (b.Mem p.2 → p.2 < p.1) := by
  rw [rowColPairs, List.mem_append, mem_blockPairs]
  obtain ⟨i, j⟩ := p
  simp only [List.mem_flatMap, List.mem_map, List.mem_append, mem_indices, Prod.mk.injEq]
  constructor
  · rintro (⟨hi, _, hji⟩ | ⟨_, hi, _, hj, rfl, rfl⟩)
    · exact ⟨hi, fun _ => hji⟩
    · refine ⟨hi, fun hmem => ?_⟩
      rcases hj with hj | hj
      · exact absurd hmem.1 (not_le.2 hj.2)
      · exact absurd hmem.2 (not_lt.2 hj.1)
  · rintro ⟨hi, hji⟩
    by_cases hj : b.Mem j
    · exact .inl ⟨hi, hj, hji hj⟩
    · refine .inr ⟨i, hi, j, ?_, rfl, rfl⟩
      rcases lt_or_ge j.val b.first with hlt | hge
      · exact .inl ⟨Nat.zero_le _, hlt⟩
      · exact .inr ⟨not_lt.1 fun hlt => hj ⟨hge, hlt⟩, j.isLt⟩

/-- No pair is visited from both sides. -/
lemma swap_notMem_rowColPairs {p : Fin M × Fin M} (h : p ∈ rowColPairs b) :
    p.swap ∉ rowColPairs b := by
  rw [mem_rowColPairs] at h ⊢
  rintro ⟨hswap, hlt⟩
  exact lt_asymm (h.2 hswap) (hlt h.1)

/-- Of the two orders of a pair in the rows and columns of the block, one is visited. -/
lemma xor_mem_rowColPairs {i j : Fin M} (hij : i ≠ j) (h : b.Mem i ∨ b.Mem j) :
    Xor ((i, j) ∈ rowColPairs b) ((j, i) ∈ rowColPairs b) := by
  have hmem : (i, j) ∈ rowColPairs b ∨ (j, i) ∈ rowColPairs b := by
    simp only [mem_rowColPairs]
    by_cases hi : b.Mem i
    · by_cases hj : b.Mem j
      · rcases hij.lt_or_gt with hlt | hgt
        · exact .inr ⟨hj, fun _ => hlt⟩
        · exact .inl ⟨hi, fun _ => hgt⟩
      · exact .inl ⟨hi, fun hj' => absurd hj' hj⟩
    · exact .inr ⟨h.resolve_left hi, fun hi' => absurd hi' hi⟩
  rcases hmem with hp | hp
  · exact .inl ⟨hp, swap_notMem_rowColPairs b hp⟩
  · exact .inr ⟨hp, swap_notMem_rowColPairs b hp⟩

lemma nodup_pairs {l : List (Fin M)} (hl : l.Nodup) {f : Fin M → List (Fin M)}
    (hf : ∀ i, (f i).Nodup) : (l.flatMap fun i => (f i).map (Prod.mk i)).Nodup := by
  rw [List.nodup_flatMap]
  constructor
  · intro i _
    exact (hf i).map (Prod.mk_right_injective i)
  · refine hl.imp ?_
    intro i i' hne p hi hi'
    obtain ⟨_, _, rfl⟩ := List.mem_map.1 hi
    obtain ⟨_, _, heq⟩ := List.mem_map.1 hi'
    exact hne (congrArg Prod.fst heq).symm

/-- No pair is visited twice. -/
lemma nodup_rowColPairs : (rowColPairs b).Nodup := by
  rw [rowColPairs, List.nodup_append]
  refine ⟨nodup_pairs (nodup_indices _ _) fun _ => nodup_indices _ _,
    nodup_pairs (nodup_indices _ _) fun _ => ?_, ?_⟩
  · rw [List.nodup_append]
    refine ⟨nodup_indices _ _, nodup_indices _ _, ?_⟩
    intro j hj j' hj' heq
    rw [mem_indices] at hj hj'
    rw [heq] at hj
    exact absurd hj.2 (not_lt.2 ((Nat.le_add_right _ _).trans hj'.1))
  · intro p hp p' hp' heq
    have hmem := ((mem_blockPairs b).1 hp).2.1
    simp only [List.mem_flatMap, List.mem_map, List.mem_append, mem_indices] at hp'
    obtain ⟨_, _, j, hj, rfl⟩ := hp'
    rw [heq] at hmem
    rcases hj with hj | hj
    · exact absurd hmem.1 (not_le.2 hj.2)
    · exact absurd hmem.2 (not_lt.2 hj.1)

end Pairs

/-! ### What the loops leave -/

section Entries

lemma averagePair_self (A : Matrix (Fin M) (Fin M) K) (i j : Fin M) :
    averagePair A i j i j = (A i j + A j i) / 2 := by
  rw [averagePair]
  rcases eq_or_ne i j with rfl | h
  · exact setEntry_self _ _ _ _
  · rw [setEntry_of_row_ne _ h, setEntry_self]

lemma averagePair_swap (A : Matrix (Fin M) (Fin M) K) (i j : Fin M) :
    averagePair A i j j i = (A i j + A j i) / 2 :=
  setEntry_self _ _ _ _

lemma averagePair_of_ne (A : Matrix (Fin M) (Fin M) K) {i j : Fin M} {p : Fin M × Fin M}
    (h : (i, j) ≠ p) (hswap : (j, i) ≠ p) : averagePair A p.1 p.2 i j = A i j := by
  rw [averagePair, setEntry, if_neg, setEntry, if_neg]
  · rintro ⟨rfl, rfl⟩
    exact h rfl
  · rintro ⟨rfl, rfl⟩
    exact hswap rfl

section Pairs

variable {l : List (Fin M × Fin M)}

/-- Both entries of a pair that the loop visits become their average. -/
lemma foldl_averagePair_of_mem (hl : l.Nodup) (hswap : ∀ p ∈ l, p.swap ∉ l)
    (A : Matrix (Fin M) (Fin M) K) {i j : Fin M} (h : (i, j) ∈ l) :
    (l.foldl (fun A p => averagePair A p.1 p.2) A i j,
      l.foldl (fun A p => averagePair A p.1 p.2) A j i) =
      ((A i j + A j i) / 2, (A i j + A j i) / 2) := by
  have hother : ∀ (A : Matrix (Fin M) (Fin M) K), ∀ p ∈ l, p ≠ (i, j) →
      (averagePair A p.1 p.2 i j, averagePair A p.1 p.2 j i) = (A i j, A j i) := by
    intro A p hp hne
    have hne' : (j, i) ≠ p := by
      rintro rfl
      exact hswap _ h hp
    exact Prod.ext (averagePair_of_ne A hne.symm hne') (averagePair_of_ne A hne' hne.symm)
  refine foldl_once (fun A : Matrix (Fin M) (Fin M) K => (A i j, A j i)) (fun A => (A i j, A j i))
    (v := fun e => ((e.1 + e.2) / 2, (e.1 + e.2) / 2)) hl h hother hother ?_ A
  intro A
  exact Prod.ext (averagePair_self A i j) (averagePair_swap A i j)

lemma foldl_averagePair (hl : l.Nodup) (hswap : ∀ p ∈ l, p.swap ∉ l) (A : Matrix (Fin M) (Fin M) K)
    (i j : Fin M) :
    l.foldl (fun A p => averagePair A p.1 p.2) A i j =
      if (i, j) ∈ l ∨ (j, i) ∈ l then (A i j + A j i) / 2 else A i j := by
  split_ifs with h
  · rcases h with h | h
    · exact congrArg Prod.fst (foldl_averagePair_of_mem hl hswap A h)
    · rw [add_comm]
      exact congrArg Prod.snd (foldl_averagePair_of_mem hl hswap A h)
  · rw [not_or] at h
    apply foldl_frame (entry i j)
    intro A p hp
    refine averagePair_of_ne A ?_ ?_
    · rintro rfl
      exact h.1 hp
    · rintro rfl
      exact h.2 hp

end Pairs

lemma makeBlockSymmetric_eq_foldl (A : Matrix (Fin M) (Fin M) K) (b : Block M Width) :
    makeBlockSymmetric A b = (blockPairs b).foldl (fun A p => averagePair A p.1 p.2) A := by
  simp only [makeBlockSymmetric, blockPairs, List.foldl_flatMap, List.foldl_map]
  split_ifs with hW
  · rfl
  · rw [indices_of_le (Nat.add_le_add_left (not_lt.1 hW) b.first)]
    rfl

lemma makeRowColSymmetric_eq_foldl (A : Matrix (Fin M) (Fin M) K) (b : Block M Width) :
    makeRowColSymmetric A b = (rowColPairs b).foldl (fun A p => averagePair A p.1 p.2) A := by
  simp only [makeRowColSymmetric, makeBlockSymmetric_eq_foldl, rowColPairs, List.foldl_append,
    List.foldl_flatMap, List.foldl_map]

/-- The rows and the columns of the block hold the averages, the rest is unchanged. -/
lemma makeRowColSymmetric_apply [NeZero (2 : K)] (A : Matrix (Fin M) (Fin M) K)
    (b : Block M Width) (i j : Fin M) :
    makeRowColSymmetric A b i j =
      if b.Mem i ∨ b.Mem j then (A i j + A j i) / 2 else A i j := by
  rw [makeRowColSymmetric_eq_foldl,
    foldl_averagePair (nodup_rowColPairs b) fun p hp => swap_notMem_rowColPairs b hp]
  by_cases h : b.Mem i ∨ b.Mem j
  · rw [if_pos h]
    rcases eq_or_ne i j with rfl | hij
    · -- an entry on the diagonal is its own average
      rw [← two_mul, mul_div_cancel_left₀ _ two_ne_zero, ite_self]
    · exact if_pos (xor_mem_rowColPairs b hij h).or
  · rw [if_neg h, if_neg]
    simp only [mem_rowColPairs]
    rintro (hi | hj)
    · exact h (.inl hi.1)
    · exact h (.inr hj.1)

end Entries

/-! ### Symmetry -/

section Symmetry

variable [LinearOrder K]

/-- The test goes through the same pairs. -/
lemma isRowColSymmetric_eq_all (A : Matrix (Fin M) (Fin M) K) (b : Block M Width) (eps : K) :
    isRowColSymmetric A b eps =
      (rowColPairs b).all fun p => isEqualF (A p.1 p.2) (A p.2 p.1) eps := by
  have hblock : isBlockSymmetric A b eps =
      (blockPairs b).all fun p => isEqualF (A p.1 p.2) (A p.2 p.1) eps := by
    simp only [isBlockSymmetric, blockPairs, List.all_flatMap, List.all_map]
    split_ifs with hW
    · rfl
    · rw [indices_of_le (Nat.add_le_add_left (not_lt.1 hW) b.first)]
      rfl
  rw [isRowColSymmetric, hblock, rowColPairs, List.all_append, Bool.and_comm]
  simp only [List.all_flatMap, List.all_map, List.all_append]
  rfl

lemma isRowColSymmetric_iff (A : Matrix (Fin M) (Fin M) K) (b : Block M Width) (eps : K) :
    isRowColSymmetric A b eps = true ↔ ∀ p ∈ rowColPairs b, |A p.1 p.2 - A p.2 p.1| ≤ eps := by
  rw [isRowColSymmetric_eq_all, List.all_eq_true]
  simp only [isEqualF, decide_eq_true_eq]

variable [IsStrictOrderedRing K]

lemma makeRowColSymmetric_symm (A : Matrix (Fin M) (Fin M) K) (b : Block M Width) {i j : Fin M}
    (h : b.Mem i ∨ b.Mem j) : makeRowColSymmetric A b i j = makeRowColSymmetric A b j i := by
  rw [makeRowColSymmetric_apply, makeRowColSymmetric_apply, if_pos h, if_pos h.symm, add_comm]

/-- `makeRowColSymmetric` visits every pair of the rows and columns of the block once and leaves
the average of its two entries there; the result passes the test for symmetry and does not change
any more. A matrix that passes the test with tolerance zero is symmetric there. -/
theorem makeRowColSymmetric_spec (A : Matrix (Fin M) (Fin M) K) (b : Block M Width) :
    (makeRowColSymmetric A b = (rowColPairs b).foldl (fun A p => averagePair A p.1 p.2) A ∧
      (rowColPairs b).Nodup ∧
      ∀ i j, i ≠ j → b.Mem i ∨ b.Mem j →
        Xor ((i, j) ∈ rowColPairs b) ((j, i) ∈ rowColPairs b)) ∧
      (∀ i j, b.Mem i ∨ b.Mem j → makeRowColSymmetric A b i j = (A i j + A j i) / 2) ∧
      (∀ i j, ¬ (b.Mem i ∨ b.Mem j) → makeRowColSymmetric A b i j = A i j) ∧
      (∀ eps, 0 ≤ eps → isRowColSymmetric (makeRowColSymmetric A b) b eps = true) ∧
      makeRowColSymmetric (makeRowColSymmetric A b) b = makeRowColSymmetric A b ∧
      (isRowColSymmetric A b 0 = true → ∀ i j, b.Mem i ∨ b.Mem j → A i j = A j i) := by
  refine ⟨⟨makeRowColSymmetric_eq_foldl A b, nodup_rowColPairs b, ?_⟩, ?_, ?_, ?_, ?_, ?_⟩
  · intro i j
    exact xor_mem_rowColPairs b
  · intro i j h
    rw [makeRowColSymmetric_apply, if_pos h]
  · intro i j h
    rw [makeRowColSymmetric_apply, if_neg h]
  · intro eps heps
    rw [isRowColSymmetric_iff]
    intro p hp
    have hsymm := makeRowColSymmetric_symm A b (j := p.2) (.inl ((mem_rowColPairs b).1 hp).1)
    rw [hsymm, sub_self, abs_zero]
    exact heps
  · ext i j
    rw [makeRowColSymmetric_apply]
    split_ifs with h
    · rw [makeRowColSymmetric_symm A b h.symm, ← two_mul, mul_div_cancel_left₀ _ two_ne_zero]
    · rfl
  · intro hsymm i j h
    rw [isRowColSymmetric_iff] at hsymm
    have heq : ∀ p ∈ rowColPairs b, A p.1 p.2 = A p.2 p.1 := by
      intro p hp
      exact sub_eq_zero.1 (abs_nonpos_iff.1 (hsymm p hp))
    rcases eq_or_ne i j with rfl | hij
    · rfl
    · rcases xor_mem_rowColPairs b hij h with ⟨hp, _⟩ | ⟨hp, _⟩
      · exact heq _ hp
      · exact (heq _ hp).symm

/-- The pairs on the left of the block are averaged like those inside. -/
theorem makeRowColSymmetric_spec_three :
    isRowColSymmetric (makeRowColSymmetric !![(1 : ℚ), 2, 3; 4, 5, 6; 7, 8, 9] Block.lastTwo)
      Block.lastTwo 0 = true :=
  (makeRowColSymmetric_spec _ Block.lastTwo).2.2.2.1 0 le_rfl

end Symmetry

end RT1064.Mat
