import RT1064.Core.Loop

/-!
# Copying inside one store

A loop that copies cells of a store one after the other, in the order of a list, to other cells of
the same store. It copies the old values if and only if no cell is overwritten with another value
before it is read.
-/

namespace RT1064.Core

variable {ι α β : Type*} [DecidableEq α]

/-- Copy the cell `src i` to the cell `dst i`. -/
def copyCell (dst src : ι → α) (mem : α → β) (i : ι) : α → β :=
  Function.update mem (dst i) (mem (src i))

/-- Copy the cells one after the other. -/
def copyLoop (dst src : ι → α) (l : List ι) (mem : α → β) : α → β :=
  l.foldl (copyCell dst src) mem

variable {dst src : ι → α} {l : List ι} {mem : α → β}

/-- A cell that is no destination keeps its value. -/
lemma copyLoop_of_ne {a : α} (h : ∀ i ∈ l, a ≠ dst i) : copyLoop dst src l mem a = mem a := by
  apply foldl_frame (fun mem : α → β => mem a)
  intro mem i hi
  exact Function.update_of_ne (h i hi) _ _

/-- A cell that no other round overwrites is copied. -/
lemma copyLoop_of_fresh (hl : (l.map dst).Nodup) {i : ι} (hi : i ∈ l)
    (hfresh : ∀ j ∈ l, src i ≠ dst j) : copyLoop dst src l mem (dst i) = mem (src i) := by
  refine foldl_once (fun mem : α → β => mem (dst i)) (fun mem : α → β => mem (src i)) (v := id)
    hl.of_map hi ?_ ?_ ?_ mem
  · intro mem j hj hne
    exact Function.update_of_ne (fun h => hne (List.inj_on_of_nodup_map hl hj hi h.symm)) _ _
  · intro mem j hj _
    exact Function.update_of_ne (hfresh j hj) _ _
  · intro mem
    exact Function.update_self _ _ _

/-- The first round is over before the others begin, and no other round writes its destination. -/
lemma copyLoop_cons_self {k : ι} (hk : dst k ∉ l.map dst) :
    copyLoop dst src (k :: l) mem (dst k) = mem (src k) := by
  have hkeep : copyLoop dst src l (copyCell dst src mem k) (dst k) =
      copyCell dst src mem k (dst k) := by
    refine copyLoop_of_ne fun i hi h => hk ?_
    rw [h]
    exact List.mem_map_of_mem hi
  exact hkeep.trans (Function.update_self _ _ _)

/-- Whoever reads a cell that was overwritten copies what was written there. -/
lemma pairwise_copyLoop (src : ι → α) (hl : (l.map dst).Nodup) (mem : α → β) :
    l.Pairwise fun j i => dst j = src i →
      copyLoop dst src l mem (dst i) = copyLoop dst src l mem (dst j) := by
  induction l generalizing mem with
  | nil => exact .nil
  | cons k l ih =>
    obtain ⟨hk, hl⟩ := List.nodup_cons.1 hl
    refine .cons (fun i hi h => ?_) (ih hl _)
    have hread : copyLoop dst src (k :: l) mem (dst i) = copyCell dst src mem k (src i) := by
      refine copyLoop_of_fresh hl hi fun j hj hij => hk ?_
      rw [h, hij]
      exact List.mem_map_of_mem hj
    rw [hread, ← h, copyLoop_cons_self hk]
    exact Function.update_self _ _ _

lemma copyLoop_of_pairwise (hl : (l.map dst).Nodup)
    (h : l.Pairwise fun j i => dst j = src i → mem (src j) = mem (src i)) :
    ∀ i ∈ l, copyLoop dst src l mem (dst i) = mem (src i) := by
  induction l generalizing mem with
  | nil => exact fun i hi => absurd hi List.not_mem_nil
  | cons k l ih =>
    obtain ⟨hk, hl⟩ := List.nodup_cons.1 hl
    obtain ⟨hfirst, hrest⟩ := List.pairwise_cons.1 h
    -- the first round leaves the values that the others read
    have hsame : ∀ i ∈ l, copyCell dst src mem k (src i) = mem (src i) := by
      intro i hi
      rcases eq_or_ne (dst k) (src i) with heq | hne
      · rw [← hfirst i hi heq, ← heq]
        exact Function.update_self _ _ _
      · exact Function.update_of_ne hne.symm _ _
    intro i hi
    rcases List.mem_cons.1 hi with rfl | hi
    · exact copyLoop_cons_self hk
    · refine (ih hl ?_ i hi).trans (hsame i hi)
      refine hrest.imp_of_mem fun {a b} ha hb hab heq => ?_
      rw [hsame a ha, hsame b hb]
      exact hab heq

/-- The loop copies the old values if and only if each cell that is read after it was overwritten
got the value that it had. -/
lemma copyLoop_eq_iff (hl : (l.map dst).Nodup) :
    (∀ i ∈ l, copyLoop dst src l mem (dst i) = mem (src i)) ↔
      l.Pairwise fun j i => dst j = src i → mem (src j) = mem (src i) := by
  refine ⟨fun h => ?_, copyLoop_of_pairwise hl⟩
  refine (pairwise_copyLoop src hl mem).imp_of_mem fun {j i} hj hi hji heq => ?_
  rw [← h j hj, ← h i hi]
  exact (hji heq).symm

/-! ### Lists in the order of a relation -/

omit [DecidableEq α] in
/-- In a list that is sorted by a relation, what holds in the order of the list holds in the order
of the relation. -/
lemma pairwise_iff_of_sorted {r R : α → α → Prop} (hr : ∀ a b, r a b → ¬ r b a) {l : List α}
    (hl : l.Pairwise r) : l.Pairwise R ↔ ∀ a ∈ l, ∀ b ∈ l, r a b → R a b := by
  induction l with
  | nil => exact iff_of_true .nil fun a ha => absurd ha List.not_mem_nil
  | cons k l ih =>
    obtain ⟨hk, hl⟩ := List.pairwise_cons.1 hl
    rw [List.pairwise_cons, ih hl]
    constructor
    · rintro ⟨hfirst, hrest⟩ a ha b hb hab
      rcases List.mem_cons.1 ha with rfl | hal
      · rcases List.mem_cons.1 hb with rfl | hbl
        · exact absurd hab (hr _ _ hab)
        · exact hfirst b hbl
      · rcases List.mem_cons.1 hb with rfl | hbl
        · exact absurd hab (hr _ _ (hk a hal))
        · exact hrest a hal b hbl hab
    · intro h
      refine ⟨fun b hb => h k List.mem_cons_self b (List.mem_cons_of_mem _ hb) (hk b hb), ?_⟩
      intro a ha b hb
      exact h a (List.mem_cons_of_mem _ ha) b (List.mem_cons_of_mem _ hb)

end RT1064.Core
