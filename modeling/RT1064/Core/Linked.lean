import Mathlib.Data.List.Chain
import Mathlib.Data.List.Infix
import Mathlib.Data.List.Nodup
import Mathlib.Logic.Function.Basic
import RT1064.Core.While

/-!
# Circles of pointers

Pointers `next` and `prev` lead around a circle from a node `e` through the nodes of a list and
back to `e`. Two pointers each way change when a node is put between two neighbours or taken out.
-/

namespace RT1064.Core

variable {α : Type*} {next prev next' prev' : α → α} {e x : α} {l A B : List α}

/-- The pointers between two neighbours. -/
def Adjacent (next prev : α → α) (a b : α) : Prop := next a = b ∧ prev b = a

/-- The pointers lead from `e` through `l` to `e`, and back. -/
def Circles (next prev : α → α) (e : α) (l : List α) : Prop :=
  (e :: (l ++ [e])).IsChain (Adjacent next prev)

lemma isChain_imp_of_mem {R S : α → α → Prop} (H : ∀ a ∈ l.dropLast, ∀ b ∈ l.tail, R a b → S a b)
    (h : l.IsChain R) : l.IsChain S := by
  rw [List.isChain_iff_getElem] at h ⊢
  intro i hi
  refine H _ ?_ _ ?_ (h i hi)
  · refine List.mem_iff_getElem.2 ⟨i, by rw [List.length_dropLast]; omega, ?_⟩
    rw [List.getElem_dropLast]
  · refine List.mem_iff_getElem.2 ⟨i, by rw [List.length_tail]; omega, ?_⟩
    rw [List.getElem_tail]

/-- A walk along pointers stops before the first node that fails the condition. -/
lemma whileLoop_advance {c : α → Prop} [DecidablePred c] {a b : α} {fuel : ℕ}
    (hl : (a :: (l ++ [b])).IsChain fun x y => next x = y) (hc : ∀ x ∈ l, c x) (hb : ¬ c b)
    (hfuel : l.length ≤ fuel) :
    whileLoop (fun x => c (next x)) next fuel a = some (l.getLastD a) := by
  induction l generalizing a fuel with
  | nil =>
    rw [List.nil_append, List.isChain_pair] at hl
    cases fuel <;> rw [whileLoop, hl, if_neg hb, List.getLastD_nil]
  | cons y l ih =>
    rw [List.cons_append, List.isChain_cons_cons] at hl
    obtain ⟨hy, hc⟩ := List.forall_mem_cons.1 hc
    obtain ⟨fuel, rfl⟩ := Nat.exists_eq_succ_of_ne_zero (Nat.ne_of_gt (Nat.zero_lt_of_lt hfuel))
    rw [whileLoop, hl.1, if_pos hy, List.getLastD_cons]
    exact ih hl.2 hc (Nat.le_of_succ_le_succ hfuel)

lemma circles_nil : Circles next prev e [] ↔ next e = e ∧ prev e = e := by
  simp [Circles, Adjacent]

/-- A circle in two parts. -/
lemma circles_append : Circles next prev e (A ++ B) ↔
    (e :: A).IsChain (Adjacent next prev) ∧ (B ++ [e]).IsChain (Adjacent next prev) ∧
      Adjacent next prev (A.getLastD e) (B.headD e) := by
  rw [Circles, List.append_assoc, ← List.cons_append, List.isChain_append]
  have hlast : (e :: A).getLast? = some (A.getLastD e) := by
    rw [List.getLast?_eq_some_getLast (List.cons_ne_nil e A), List.getLast_eq_getLastD]
  have hhead : (B ++ [e]).head? = some (B.headD e) := by cases B <;> rfl
  simp [hlast, hhead]

/-- Other pointers do not matter. -/
lemma Circles.congr (h : Circles next prev e l) (hnext : ∀ a ∈ e :: l, next' a = next a)
    (hprev : ∀ a ∈ e :: l, prev' a = prev a) : Circles next' prev' e l := by
  refine isChain_imp_of_mem (fun a ha b hb hab => ?_) h
  rw [← List.cons_append, List.dropLast_concat] at ha
  rw [List.tail_cons] at hb
  have hb : b ∈ e :: l := by
    rcases List.mem_append.1 hb with hb | hb
    · exact List.mem_cons_of_mem e hb
    · rw [List.mem_singleton.1 hb]
      exact List.mem_cons_self
  exact ⟨(hnext a ha).trans hab.1, (hprev b hb).trans hab.2⟩

section Edit

variable {p q : α}

/-- The parts on both sides of two neighbours do not depend on the pointers between them. -/
lemma parts_congr (f g : α → α) (hnodup : (e :: (A ++ B)).Nodup) (hp : A.getLastD e = p)
    (hq : B.headD e = q) (hf : ∀ a ∈ e :: (A ++ B), a ≠ p → f a = next a)
    (hg : ∀ a ∈ e :: (A ++ B), a ≠ q → g a = prev a)
    (hA : (e :: A).IsChain (Adjacent next prev)) (hB : (B ++ [e]).IsChain (Adjacent next prev)) :
    (e :: A).IsChain (Adjacent f g) ∧ (B ++ [e]).IsChain (Adjacent f g) := by
  obtain ⟨he, hAB⟩ := List.nodup_cons.1 hnodup
  obtain ⟨hnA, hnB, hcross⟩ := List.nodup_append.1 hAB
  constructor
  · refine isChain_imp_of_mem (fun a ha b hb hab => ?_) hA
    rw [List.tail_cons] at hb
    have hlast : e :: A = (e :: A).dropLast ++ [p] := by
      rw [← hp, ← List.getLast_eq_getLastD (List.cons_ne_nil e A), List.dropLast_append_getLast]
    have hmemA : ∀ c ∈ e :: A, c ∈ e :: (A ++ B) := fun c hc =>
      List.cons_subset_cons e (List.subset_append_left A B) hc
    refine ⟨(hf a (hmemA a (List.mem_of_mem_dropLast ha)) ?_).trans hab.1,
      (hg b (hmemA b (List.mem_cons_of_mem e hb)) ?_).trans hab.2⟩
    · rintro rfl
      have hnodupA : (e :: A).Nodup :=
        List.nodup_cons.2 ⟨fun h => he (List.mem_append_left B h), hnA⟩
      rw [hlast] at hnodupA
      exact (List.nodup_append.1 hnodupA).2.2 _ ha _ (List.mem_singleton_self _) rfl
    · rintro rfl
      cases B with
      | nil =>
        obtain rfl : e = b := hq
        exact he (List.mem_append_left _ hb)
      | cons c B =>
        obtain rfl : c = b := hq
        exact hcross c hb c List.mem_cons_self rfl
  · refine isChain_imp_of_mem (fun a ha b hb hab => ?_) hB
    rw [List.dropLast_concat] at ha
    refine ⟨(hf a (List.mem_cons_of_mem e (List.mem_append_right A ha)) ?_).trans hab.1,
      (hg b ?_ ?_).trans hab.2⟩
    · rintro rfl
      have hmem : a ∈ e :: A := hp ▸ List.getLastD_mem_cons
      rcases List.mem_cons.1 hmem with rfl | hmem
      · exact he (List.mem_append_right A ha)
      · exact hcross a hmem a ha rfl
    · rcases List.mem_append.1 (List.mem_of_mem_tail hb) with hb | hb
      · exact List.mem_cons_of_mem e (List.mem_append_right A hb)
      · rw [List.mem_singleton.1 hb]
        exact List.mem_cons_self
    · rintro rfl
      cases B with
      | nil => cases hb
      | cons c B =>
        obtain rfl : c = b := hq
        rw [List.cons_append, List.tail_cons] at hb
        rcases List.mem_append.1 hb with hb | hb
        · exact (List.nodup_cons.1 hnB).1 hb
        · exact he (List.mem_singleton.1 hb ▸ List.mem_append_right A List.mem_cons_self)

variable [DecidableEq α]

/-- A new node between two neighbours. -/
lemma Circles.insert (h : Circles next prev e (A ++ B)) (hnodup : (e :: (A ++ B)).Nodup)
    (hx : x ∉ e :: (A ++ B)) (hp : A.getLastD e = p) (hq : B.headD e = q) :
    Circles (Function.update (Function.update next x q) p x)
      (Function.update (Function.update prev x p) q x) e (A ++ x :: B) := by
  obtain ⟨hA, hB, -⟩ := circles_append.1 h
  have hpmem : p ∈ e :: (A ++ B) := by
    have hmem : p ∈ e :: A := hp ▸ List.getLastD_mem_cons
    exact List.cons_subset_cons e (List.subset_append_left A B) hmem
  have hqmem : q ∈ e :: (A ++ B) := by
    cases B with
    | nil => exact hq ▸ List.mem_cons_self
    | cons c B => exact hq ▸ List.mem_cons_of_mem e (List.mem_append_right A List.mem_cons_self)
  have hxp : x ≠ p := fun heq => hx (heq ▸ hpmem)
  have hxq : x ≠ q := fun heq => hx (heq ▸ hqmem)
  have hxmem : ∀ a ∈ e :: (A ++ B), a ≠ x := fun a ha heq => hx (heq ▸ ha)
  obtain ⟨hA', hB'⟩ := parts_congr (Function.update (Function.update next x q) p x)
    (Function.update (Function.update prev x p) q x) hnodup hp hq
    (fun a ha hap => by rw [Function.update_of_ne hap, Function.update_of_ne (hxmem a ha)])
    (fun a ha haq => by rw [Function.update_of_ne haq, Function.update_of_ne (hxmem a ha)]) hA hB
  refine circles_append.2 ⟨hA', ?_, ?_⟩
  · refine List.IsChain.cons hB' fun y hy => ?_
    have hyq : y = q := by
      cases B with
      | nil => exact (Option.some_inj.1 hy).symm.trans hq
      | cons c B => exact (Option.some_inj.1 hy).symm.trans hq
    rw [hyq]
    refine ⟨?_, Function.update_self _ _ _⟩
    rw [Function.update_of_ne hxp, Function.update_self]
  · rw [hp, List.headD_cons]
    refine ⟨Function.update_self _ _ _, ?_⟩
    rw [Function.update_of_ne hxq, Function.update_self]

/-- The pointers of a node, and the circle without it. -/
lemma Circles.remove (h : Circles next prev e (A ++ x :: B)) (hnodup : (e :: (A ++ x :: B)).Nodup)
    (hp : A.getLastD e = p) (hq : B.headD e = q) :
    next x = q ∧ prev x = p ∧
      Circles (Function.update next p q) (Function.update prev q p) e (A ++ B) := by
  obtain ⟨hA, hxB, hpx⟩ := circles_append.1 h
  rw [hp, List.headD_cons] at hpx
  rw [List.cons_append] at hxB
  have hnodup' : (e :: (A ++ B)).Nodup := by
    refine hnodup.sublist (List.Sublist.cons_cons e ?_)
    exact List.Sublist.append_left (List.sublist_cons_self x B) A
  have hxq : next x = q ∧ prev q = x := by
    refine (List.isChain_cons.1 hxB).1 q ?_
    cases B with
    | nil => exact congrArg some hq
    | cons c B => exact congrArg some hq
  obtain ⟨hA', hB'⟩ := parts_congr (Function.update next p q) (Function.update prev q p) hnodup'
    hp hq
    (fun a _ hap => Function.update_of_ne hap _ _) (fun a _ haq => Function.update_of_ne haq _ _) hA
    hxB.tail
  refine ⟨hxq.1, hpx.2, circles_append.2 ⟨hA', hB', ?_⟩⟩
  rw [hp, hq]
  exact ⟨Function.update_self _ _ _, Function.update_self _ _ _⟩

end Edit

end RT1064.Core
