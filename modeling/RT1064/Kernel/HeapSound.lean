import Mathlib.Tactic.Linarith
import RT1064.Kernel.HeapBlocks

/-!
# The invariant of the heap

The areas of the heap are the regions without their end markers. `Sound` ties the cells to the list
of the free blocks, in which the end markers of all areas but the last may stand as empty blocks,
and to the blocks that the application holds: together they are all of the areas.
-/

namespace RT1064.Kernel

open Core

/-- Areas with room for the end marker behind each of them, and clear of the list head. -/
structure AreasFit (xStart pxEnd : ℕ) (areas : List Span) : Prop where
  aligned : ∀ t ∈ areas, 8 ∣ t.offset ∧ 8 ∣ t.length
  pos : ∀ t ∈ areas, 0 < t.offset ∧ 0 < t.length
  marker_le : ∀ t ∈ areas, t.stop + 8 ≤ 2 ^ 32
  xStart_lt : xStart < 2 ^ 32
  xStart_clear : ∀ t ∈ areas, xStart + 8 ≤ t.offset ∨ t.stop + 8 ≤ xStart
  apart : areas.Pairwise fun t u => t.stop + 8 ≤ u.offset
  sum_lt : (areas.map Span.length).sum < 2 ^ 31
  stop_le : ∀ t ∈ areas, t.stop ≤ pxEnd
  last : ∃ t ∈ areas, t.stop = pxEnd

namespace AreasFit

variable {xStart pxEnd b : ℕ} {areas : List Span} {t : Span} (h : AreasFit xStart pxEnd areas)

include h

lemma lt_pxEnd (hb : b ∈ covered areas) : b < pxEnd := by
  obtain ⟨t, ht, -, hlt⟩ := hb
  exact hlt.trans_le (h.stop_le t ht)

lemma pxEnd_le : pxEnd + 8 ≤ 2 ^ 32 := by
  obtain ⟨t, ht, rfl⟩ := h.last
  exact h.marker_le t ht

lemma pos_of_mem (hb : b ∈ covered areas) : 0 < b := by
  obtain ⟨t, ht, hle, -⟩ := hb
  exact (h.pos t ht).1.trans_le hle

lemma pxEnd_pos : 0 < pxEnd := by
  obtain ⟨t, ht, rfl⟩ := h.last
  exact (h.pos t ht).1.trans_le (Nat.le_add_right _ _)

lemma separated : Separated areas := by
  refine h.apart.imp_of_mem fun {t u} ht _ hlt => ?_
  have hpos := (h.pos t ht).2
  rw [Span.stop] at hlt
  refine ⟨by omega, ?_, fun heq => ?_⟩
  · rw [Span.stop]
    omega
  · rw [Span.stop] at heq
    omega

/-- No address of an area is that of an end marker. -/
lemma marker_notMem (ht : t ∈ areas) : t.stop ∉ covered areas :=
  h.separated.stop_notMem ht (h.pos t ht).2

lemma xStart_ne (hb : b ∈ covered areas) : b ≠ xStart := by
  rintro rfl
  obtain ⟨t, ht, hle, hlt⟩ := hb
  have := h.xStart_clear t ht
  omega

lemma xStart_ne_marker (ht : t ∈ areas) : t.stop ≠ xStart := by
  intro heq
  have := h.xStart_clear t ht
  have : t.offset ≤ t.stop := Nat.le_add_right _ _
  omega

end AreasFit

/-! ### The invariant -/

/-- The free list of the heap stands for the blocks `c`, and the application holds the blocks
`live`. -/
structure Sound (areas : List Span) (h : Heap) (c live : List Span) : Prop where
  fit : AreasFit h.xStart h.pxEnd areas
  links : h.Links h.xStart (c.map Span.offset) h.pxEnd
  size_eq : ∀ t ∈ c, h.size t.offset = t.length
  size_xStart : h.size h.xStart = 0
  size_pxEnd : h.size h.pxEnd = 0
  next_pxEnd : h.next h.pxEnd = 0
  header : ∀ t ∈ live, h.size t.offset = t.length + 2 ^ 31 ∧ h.next t.offset = 0
  separated : Separated c
  aligned : ∀ t ∈ c, 8 ∣ t.offset ∧ 8 ∣ t.length
  empty : ∀ t ∈ c, t.length = 0 → t.offset < h.pxEnd ∧ ∃ a ∈ areas, t.offset = a.stop
  live_aligned : ∀ t ∈ live, 8 ∣ t.offset ∧ 8 ∣ t.length
  live_pos : ∀ t ∈ live, 0 < t.length
  live_apart : live.Pairwise fun t u => t.stop ≤ u.offset ∨ u.stop ≤ t.offset
  live_subset : covered live ⊆ covered areas
  free : covered c = covered areas \ covered live
  sum_eq : (c.map Span.length).sum + (live.map Span.length).sum = (areas.map Span.length).sum
  remaining : h.xFreeBytesRemaining = (c.map Span.length).sum

namespace Sound

variable {areas c live : List Span} {h : Heap} {t u : Span} {b : ℕ} (hs : Sound areas h c live)

include hs

lemma mem_free (hb : b ∈ covered c) : b ∈ covered areas ∧ b ∉ covered live := by
  rwa [hs.free] at hb

lemma offset_mem_areas (ht : t ∈ c) (hpos : t.length ≠ 0) : t.offset ∈ covered areas :=
  (hs.mem_free ⟨t, ht, le_rfl, Nat.lt_add_of_pos_right (Nat.pos_of_ne_zero hpos)⟩).1

lemma offset_lt (ht : t ∈ c) : t.offset < h.pxEnd := by
  by_cases hpos : t.length = 0
  · exact (hs.empty t ht hpos).1
  · exact hs.fit.lt_pxEnd (hs.offset_mem_areas ht hpos)

lemma offset_pos (ht : t ∈ c) : t.offset ≠ 0 := by
  by_cases hpos : t.length = 0
  · obtain ⟨-, a, ha, heq⟩ := hs.empty t ht hpos
    have := (hs.fit.pos a ha).1
    rw [heq, Span.stop]
    omega
  · exact Nat.ne_of_gt (hs.fit.pos_of_mem (hs.offset_mem_areas ht hpos))

lemma offset_ne_xStart (ht : t ∈ c) : t.offset ≠ h.xStart := by
  by_cases hpos : t.length = 0
  · obtain ⟨-, a, ha, heq⟩ := hs.empty t ht hpos
    rw [heq]
    exact hs.fit.xStart_ne_marker ha
  · exact hs.fit.xStart_ne (hs.offset_mem_areas ht hpos)

lemma pxEnd_ne_xStart : h.pxEnd ≠ h.xStart := by
  obtain ⟨a, ha, heq⟩ := hs.fit.last
  rw [← heq]
  exact hs.fit.xStart_ne_marker ha

lemma length_lt (ht : t ∈ c) : t.length < 2 ^ 31 := by
  have := length_le_sum ht
  have := hs.sum_eq
  have := hs.fit.sum_lt
  omega

lemma stop_le (ht : t ∈ c) : t.stop ≤ h.pxEnd := by
  by_cases hpos : t.length = 0
  · rw [Span.stop, hpos]
    exact (hs.offset_lt ht).le
  · have hlast : t.stop - 1 ∈ covered c := by
      refine ⟨t, ht, ?_, ?_⟩ <;> rw [Span.stop] <;> omega
    have := hs.fit.lt_pxEnd (hs.mem_free hlast).1
    omega

lemma stop_le_of_live (ht : t ∈ live) : t.stop ≤ h.pxEnd := by
  have hpos := hs.live_pos t ht
  have hlast : t.stop - 1 ∈ covered live := by
    refine ⟨t, ht, ?_, ?_⟩ <;> rw [Span.stop] <;> omega
  have := hs.fit.lt_pxEnd (hs.live_subset hlast)
  omega

lemma length_live_lt (ht : t ∈ live) : t.length < 2 ^ 31 := by
  have := length_le_sum ht
  have := hs.sum_eq
  have := hs.fit.sum_lt
  omega

lemma offset_mem_live (ht : t ∈ live) : t.offset ∈ covered live :=
  ⟨t, ht, le_rfl, Nat.lt_add_of_pos_right (hs.live_pos t ht)⟩

/-- The cells of the list are outside of the blocks that are held. -/
lemma offset_notMem_live (ht : t ∈ c) : t.offset ∉ covered live := by
  by_cases hpos : t.length = 0
  · obtain ⟨-, a, ha, hstop⟩ := hs.empty t ht hpos
    rw [hstop]
    exact fun hmem => hs.fit.marker_notMem ha (hs.live_subset hmem)
  · exact (hs.mem_free ⟨t, ht, le_rfl, Nat.lt_add_of_pos_right (Nat.pos_of_ne_zero hpos)⟩).2

lemma xStart_notMem_live : h.xStart ∉ covered live :=
  fun hmem => hs.fit.xStart_ne (hs.live_subset hmem) rfl

lemma pxEnd_notMem_live : h.pxEnd ∉ covered live :=
  fun hmem => (hs.fit.lt_pxEnd (hs.live_subset hmem)).ne rfl

/-- The cells of the list are different ones. -/
lemma nodup : (h.xStart :: c.map Span.offset).Nodup := by
  refine List.nodup_cons.2 ⟨?_, ?_⟩
  · rintro hmem
    obtain ⟨t, ht, heq⟩ := List.mem_map.1 hmem
    exact hs.offset_ne_xStart ht heq
  · exact List.pairwise_map.2 (hs.separated.imp fun hb => hb.offset_lt.ne)

/-- There are at most as many blocks as aligned addresses. -/
lemma length_le_cellCount : c.length ≤ cellCount := by
  have hnodup : (c.map fun t => t.offset / 8).Nodup := by
    refine List.pairwise_map.2 (hs.separated.imp_of_mem fun {t u} ht hu hb => ?_)
    have h1 := hb.offset_lt
    have h2 := (hs.aligned t ht).1
    have h3 := (hs.aligned u hu).1
    omega
  have hsub : (c.map fun t => t.offset / 8) ⊆ List.range cellCount := by
    intro b hb
    obtain ⟨t, ht, rfl⟩ := List.mem_map.1 hb
    have h1 := hs.offset_lt ht
    have h2 := hs.fit.pxEnd_le
    rw [List.mem_range, cellCount]
    omega
  have hle := (List.subperm_of_subset hnodup hsub).length_le
  rwa [List.length_map, List.length_range] at hle

end Sound

end RT1064.Kernel
