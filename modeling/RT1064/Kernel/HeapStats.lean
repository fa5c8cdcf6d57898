import Mathlib.Data.Set.Card
import RT1064.Kernel.HeapSound

/-!
# The statistics of the heap

`vPortGetHeapStats` visits every block of the list and counts the end markers in between as well.
-/

namespace RT1064.Kernel

open Core

namespace Heap

/-- What the walk has found after the sizes `l`. -/
structure Counted (l : List ℕ) (w : StatsWalk) : Prop where
  blocks : w.xBlocks = l.length
  max_ge : ∀ n ∈ l, n ≤ w.xMaxSize
  max_mem : w.xMaxSize = 0 ∨ w.xMaxSize ∈ l
  min_le : ∀ n ∈ l, n ≠ 0 → w.xMinSize ≤ n
  min_mem : w.xMinSize = portMAX_DELAY.toNat ∨ w.xMinSize ∈ l ∧ w.xMinSize ≠ 0

lemma Counted.visit {l : List ℕ} {w : StatsWalk} (hw : Counted l w) (h : Heap)
    (hlen : l.length + 1 < 2 ^ 32) :
    Counted (l ++ [h.size w.pxBlock]) (w.visit h) := by
  obtain ⟨h1, h2, h3, h4, h5⟩ := hw
  constructor
  case blocks =>
    rw [StatsWalk.visit, h1, addSize_of_lt hlen, List.length_append, List.length_singleton]
  case max_ge =>
    refine List.forall_mem_append.2 ⟨fun n hn => ?_, List.forall_mem_singleton.2 ?_⟩
    · have := h2 n hn
      simp only [StatsWalk.visit]
      split_ifs <;> omega
    · simp only [StatsWalk.visit]
      split_ifs <;> omega
  case max_mem =>
    simp only [StatsWalk.visit]
    split_ifs
    · exact .inr (List.mem_append_right _ (List.mem_singleton_self _))
    · exact h3.imp_right (List.mem_append_left _)
  case min_le =>
    refine List.forall_mem_append.2 ⟨fun n hn h0 => ?_, List.forall_mem_singleton.2 fun h0 => ?_⟩
    · have := h4 n hn h0
      simp only [StatsWalk.visit]
      split_ifs <;> omega
    · simp only [StatsWalk.visit]
      split_ifs <;> omega
  case min_mem =>
    simp only [StatsWalk.visit]
    split_ifs with hz hlt
    · exact .inr ⟨List.mem_append_right _ (List.mem_singleton_self _), hz⟩
    · exact h5.imp_right (And.imp_left (List.mem_append_left _))
    · exact h5.imp_right (And.imp_left (List.mem_append_left _))

lemma whileLoop_visit {h : Heap} {e : ℕ} {l : List ℕ} {a fuel : ℕ} {done : List ℕ} {w : StatsWalk}
    (hw : Counted done w) (hpx : w.pxBlock = h.next a) (hl : h.Links a l e)
    (hne : ∀ x ∈ l, x ≠ e) (hfuel : l.length ≤ fuel) (hlen : done.length + l.length < 2 ^ 32) :
    ∃ w', whileLoop (fun w : StatsWalk => w.pxBlock ≠ e) (StatsWalk.visit h) fuel w = some w' ∧
      Counted (done ++ l.map h.size) w' := by
  induction l generalizing a fuel done w with
  | nil =>
    rw [links_nil] at hl
    refine ⟨w, ?_, by rwa [List.map_nil, List.append_nil]⟩
    cases fuel <;> rw [whileLoop, hpx, hl, if_neg (not_not.2 rfl)]
  | cons x l ih =>
    obtain ⟨hax, hl⟩ := links_cons.1 hl
    obtain ⟨hx, hne⟩ := List.forall_mem_cons.1 hne
    obtain ⟨fuel, rfl⟩ := Nat.exists_eq_succ_of_ne_zero (Nat.ne_of_gt (Nat.zero_lt_of_lt hfuel))
    rw [List.length_cons] at hlen
    rw [hax] at hpx
    have hvisit := hw.visit h (by omega)
    rw [hpx] at hvisit
    obtain ⟨w', hw', hcount⟩ := ih hvisit
      (show h.next w.pxBlock = h.next x by rw [hpx]) hl hne (Nat.le_of_succ_le_succ hfuel)
      (by rw [List.length_append, List.length_singleton]; omega)
    refine ⟨w', ?_, by rwa [List.map_cons, List.append_cons]⟩
    rw [whileLoop, if_pos (hpx ▸ hx), hw']

end Heap

/-! ### The answer -/

/-- The statistics speak about the blocks of the list. -/
lemma Sound.stats {areas c live : List Span} {h : Heap} (hs : Sound areas h c live) :
    ∃ w : Heap.StatsWalk, Heap.Counted (c.map Span.length) w ∧
      h.vPortGetHeapStats = some {
        xAvailableHeapSpaceInBytes := h.xFreeBytesRemaining
        xSizeOfLargestFreeBlockInBytes := w.xMaxSize
        xSizeOfSmallestFreeBlockInBytes := w.xMinSize
        xNumberOfFreeBlocks := w.xBlocks
        xMinimumEverFreeBytesRemaining := h.xMinimumEverFreeBytesRemaining
        xNumberOfSuccessfulAllocations := h.xNumberOfSuccessfulAllocations
        xNumberOfSuccessfulFrees := h.xNumberOfSuccessfulFrees } := by
  have hne : ∀ x ∈ c.map Span.offset, x ≠ h.pxEnd := by
    intro x hx
    obtain ⟨t, ht, rfl⟩ := List.mem_map.1 hx
    exact (hs.offset_lt ht).ne
  have hfirst : h.next h.xStart ≠ 0 := by
    have hl := hs.links
    cases c with
    | nil =>
      rw [List.map_nil, Heap.links_nil] at hl
      rw [hl]
      exact Nat.ne_of_gt hs.fit.pxEnd_pos
    | cons t c =>
      rw [List.map_cons, Heap.links_cons] at hl
      rw [hl.1]
      exact hs.offset_pos List.mem_cons_self
  have hlen := hs.length_le_cellCount
  have hcell : cellCount < 2 ^ 32 := by decide
  have hzero : Heap.Counted [] ⟨h.next h.xStart, 0, 0, portMAX_DELAY.toNat⟩ :=
    ⟨rfl, by simp, .inl rfl, by simp, .inl rfl⟩
  have hfuel : (c.map Span.offset).length ≤ cellCount := by rwa [List.length_map]
  obtain ⟨w, hw, hcount⟩ := Heap.whileLoop_visit hzero rfl hs.links hne hfuel
    (by rw [List.length_nil]; omega)
  refine ⟨w, ?_, ?_⟩
  · have hmap : (c.map Span.offset).map h.size = c.map Span.length := by
      rw [List.map_map]
      exact List.map_congr_left hs.size_eq
    rwa [List.nil_append, hmap] at hcount
  · simp only [Heap.vPortGetHeapStats, if_pos hfirst, hw, Option.bind_eq_bind, Option.bind_some]

/-! ### What the blocks are -/

lemma ncard_maximalRun {c : List Span} (hc : Separated c) :
    {t | MaximalRun (covered c) t}.ncard = (c.filter fun t => 0 < t.length).length := by
  have hset : {t | MaximalRun (covered c) t} = (c.filter fun t => 0 < t.length).toFinset := by
    ext t
    simp [hc.maximalRun_iff]
  have hnodup : c.Nodup := hc.imp fun hb heq => hb.offset_lt.ne (congrArg Span.offset heq)
  rw [hset, Set.ncard_coe_finset, List.toFinset_card_of_nodup (hnodup.filter _)]

/-- Fewer end markers are in the list than there are areas. -/
lemma Sound.length_filter_lt {areas c live : List Span} {h : Heap} (hs : Sound areas h c live) :
    (c.filter fun t => ¬ 0 < t.length).length < areas.length := by
  obtain ⟨a, ha, hastop⟩ := hs.fit.last
  have hnodup : (h.pxEnd :: (c.filter fun t => ¬ 0 < t.length).map Span.offset).Nodup := by
    refine List.nodup_cons.2 ⟨fun hmem => ?_, ?_⟩
    · obtain ⟨t, ht, heq⟩ := List.mem_map.1 hmem
      exact (hs.offset_lt (List.mem_filter.1 ht).1).ne heq
    · refine List.pairwise_map.2 ((hs.separated.filter _).imp fun hb => hb.offset_lt.ne)
  have hsub : (h.pxEnd :: (c.filter fun t => ¬ 0 < t.length).map Span.offset) ⊆
      areas.map Span.stop := by
    refine List.cons_subset.2 ⟨hastop ▸ List.mem_map_of_mem ha, fun b hb => ?_⟩
    obtain ⟨t, ht, rfl⟩ := List.mem_map.1 hb
    obtain ⟨htc, h0⟩ := List.mem_filter.1 ht
    have h0 : t.length = 0 := by simpa using h0
    obtain ⟨-, a', ha', heq⟩ := hs.empty t htc h0
    exact heq ▸ List.mem_map_of_mem ha'
  have hle := (List.subperm_of_subset hnodup hsub).length_le
  simpa using hle

end RT1064.Kernel
