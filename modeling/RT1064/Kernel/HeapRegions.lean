import RT1064.Kernel.HeapFree

/-!
# The regions of the heap

`vPortDefineHeapRegions` makes one free block of every region and links them through the end
markers, so that the invariant holds before the first request.
-/

namespace RT1064.Kernel

open Core

/-- The part of a region that can be granted: from its aligned start to its end marker. -/
def HeapRegion_t.area (r : HeapRegion_t) : Span :=
  ⟨(r.pucStartAddress + 7) / 8 * 8,
    (r.pucStartAddress + r.xSizeInBytes) / 8 * 8 - 8 - (r.pucStartAddress + 7) / 8 * 8⟩

/-- A region with room for a block and the end marker, clear of the list head. -/
structure HeapRegion_t.Fits (xStart : ℕ) (r : HeapRegion_t) : Prop where
  start_pos : 0 < r.pucStartAddress
  room : (r.pucStartAddress + 7) / 8 * 8 + 16 ≤ r.pucStartAddress + r.xSizeInBytes
  stop_le : r.pucStartAddress + r.xSizeInBytes ≤ 2 ^ 32
  xStart_clear : xStart + 8 ≤ r.pucStartAddress ∨ r.pucStartAddress + r.xSizeInBytes ≤ xStart

/-- Regions as the function asks for them: in ascending order, and not too large together. -/
structure RegionsFit (xStart : ℕ) (rs : List HeapRegion_t) : Prop where
  fits : ∀ r ∈ rs, r.Fits xStart
  apart : rs.Pairwise fun r r' => r.pucStartAddress + r.xSizeInBytes ≤ r'.pucStartAddress
  sum_lt : ((rs.map HeapRegion_t.area).map Span.length).sum < 2 ^ 31
  xStart_lt : xStart < 2 ^ 32

namespace HeapRegion_t.Fits

variable {xStart : ℕ} {r : HeapRegion_t} (h : r.Fits xStart)

include h

lemma area_bounds : 0 < r.area.length ∧ 0 < r.area.offset ∧ r.pucStartAddress ≤ r.area.offset ∧
    r.area.stop + 8 ≤ r.pucStartAddress + r.xSizeInBytes := by
  obtain ⟨h1, h2, h3, -⟩ := h
  simp only [area, Span.stop]
  omega

lemma area_aligned : 8 ∣ r.area.offset ∧ 8 ∣ r.area.length ∧ 8 ∣ r.area.stop := by
  obtain ⟨h1, h2, h3, -⟩ := h
  simp only [area, Span.stop]
  omega

lemma alignRegion_eq : Heap.alignRegion r =
    (r.area.offset, r.xSizeInBytes - (r.area.offset - r.pucStartAddress)) := by
  obtain ⟨h1, h2, h3, -⟩ := h
  rw [Heap.alignRegion]
  dsimp only
  rw [and_mask]
  split_ifs with hmask
  · have hadd : addSize r.pucStartAddress (portBYTE_ALIGNMENT - 1) = r.pucStartAddress + 7 :=
      addSize_of_lt (show r.pucStartAddress + 7 < _ by omega)
    have hoff : (r.pucStartAddress + 7) / 8 * 8 = r.area.offset := rfl
    rw [hadd, and_not_mask (by omega), hoff]
    have hsub : subSize r.area.offset r.pucStartAddress = r.area.offset - r.pucStartAddress :=
      subSize_of_le (by omega) (by omega)
    rw [hsub, subSize_of_le (by omega) (by omega)]
  · rw [not_not] at hmask
    have hoff : r.area.offset = r.pucStartAddress := by
      simp only [area]
      omega
    rw [hoff, Nat.sub_self, Nat.sub_zero]

/-- Where the end marker comes to stand. -/
lemma pxEnd_eq : subSize (addSize r.area.offset (r.xSizeInBytes -
    (r.area.offset - r.pucStartAddress))) xHeapStructSize &&& notSize portBYTE_ALIGNMENT_MASK =
      r.area.stop := by
  obtain ⟨h1, h2, h3, -⟩ := h
  have hoff : r.area.offset = (r.pucStartAddress + 7) / 8 * 8 := rfl
  have hsum : r.area.offset + (r.xSizeInBytes - (r.area.offset - r.pucStartAddress)) =
      r.pucStartAddress + r.xSizeInBytes := by omega
  -- a region may end where the addresses do
  have hsub : subSize (addSize r.area.offset (r.xSizeInBytes -
      (r.area.offset - r.pucStartAddress))) xHeapStructSize =
        r.pucStartAddress + r.xSizeInBytes - 8 := by
    rw [addSize, hsum, xHeapStructSize_eq, subSize]
    omega
  rw [hsub, and_not_mask (by omega)]
  simp only [area, Span.stop]
  omega

lemma xStart_ne : xStart ≠ r.area.offset ∧ xStart ≠ r.area.stop := by
  obtain ⟨hlen, hoff, hstart, hstop⟩ := h.area_bounds
  have hclear := h.xStart_clear
  rw [Span.stop] at hstop ⊢
  omega

lemma size_eq : subSize r.area.stop r.area.offset = r.area.length := by
  obtain ⟨hlen, hoff, hstart, hstop⟩ := h.area_bounds
  have hle := h.stop_le
  rw [Span.stop] at hstop ⊢
  rw [subSize_of_le (by omega) (by omega)]
  omega

end HeapRegion_t.Fits

/-! ### One region -/

/-- The heap `H` after the region with the area `t` was added; `a` is the cell that links to it. -/
structure Defined (h : Heap) (a : ℕ) (t : Span) (H : Heap) : Prop where
  xStart : H.xStart = h.xStart
  pxEnd : H.pxEnd = t.stop
  next : ∀ b, H.next b = if b = a then t.offset else if b = t.offset then t.stop else
    if b = t.stop then 0 else h.next b
  size : ∀ b, H.size b = if b = t.offset then t.length else
    if b = t.stop then 0 else if b = a then 0 else h.size b

section Define

variable {h : Heap} {r : HeapRegion_t} {n : ℕ}

lemma defineRegion_first (hr : r.Fits h.xStart) (h0 : h.pxEnd = 0) :
    ∃ H, h.defineRegion 0 r = some (H, r.area.length) ∧ Defined h h.xStart r.area H := by
  obtain ⟨hlen, hoff, hstart, hstop⟩ := hr.area_bounds
  obtain ⟨hx, hx'⟩ := hr.xStart_ne
  simp only [Heap.defineRegion, hr.alignRegion_eq, if_true, Option.bind_eq_bind, Option.bind_some,
    hr.pxEnd_eq, h0, hr.size_eq, if_false, ne_eq, not_true_eq_false]
  refine ⟨_, Option.some_inj.2 (Prod.ext rfl ?_), ?_⟩
  · simp
  · constructor
    case xStart => rfl
    case pxEnd => rfl
    case next =>
      intro b
      simp only [Heap.next_setNext, Heap.next_setSize]
      simp only [Heap.next, Heap.setNext, Heap.setSize, Function.update_apply]
      split_ifs <;> simp_all
    case size =>
      intro b
      simp only [Heap.size_setNext, Heap.size_setSize]
      simp only [Heap.size, Function.update_apply]
      split_ifs <;> rfl

lemma defineRegion_next (hr : r.Fits h.xStart) (hn : n ≠ 0) (h0 : h.pxEnd ≠ 0)
    (hlt : h.pxEnd < r.area.offset) (hsize : h.size h.pxEnd = 0) :
    ∃ H, h.defineRegion n r = some (H, r.area.length) ∧ Defined h h.pxEnd r.area H := by
  obtain ⟨hlen, hoff, hstart, hstop⟩ := hr.area_bounds
  have hstop' : r.area.offset ≤ r.area.stop := Nat.le_add_right _ _
  simp only [Heap.defineRegion, hr.alignRegion_eq, if_neg hn, Option.bind_eq_bind,
    configASSERT_of h0, configASSERT_of hlt, Option.bind_some, hr.pxEnd_eq, hr.size_eq, if_pos h0]
  refine ⟨_, Option.some_inj.2 (Prod.ext rfl ?_), ?_⟩
  · simp
  · constructor
    case xStart => rfl
    case pxEnd => rfl
    case next =>
      intro b
      simp only [Heap.next_setNext, Heap.next_setSize]
      rfl
    case size =>
      intro b
      simp only [Heap.size_setNext, Heap.size_setSize]
      change (if b = r.area.offset then r.area.length else
        if b = r.area.stop then 0 else h.size b) = _
      split_ifs with h1 h2 h3
      · rfl
      · rfl
      · exact h3 ▸ hsize
      · rfl

end Define

/-! ### The invariant -/

section Areas

variable {areas c : List Span} {h H : Heap} {r : HeapRegion_t} {xStart pxEnd : ℕ}

lemma areasFit_singleton (hr : r.Fits xStart) (hx : xStart < 2 ^ 32)
    (hlen : r.area.length < 2 ^ 31) : AreasFit xStart r.area.stop [r.area] := by
  obtain ⟨h1, h2, h3, h4⟩ := hr.area_bounds
  obtain ⟨ha, hb, -⟩ := hr.area_aligned
  have hle := hr.stop_le
  have hclear := hr.xStart_clear
  constructor <;> simp <;> omega

lemma AreasFit.append (hf : AreasFit xStart pxEnd areas) (hr : r.Fits xStart)
    (hafter : ∀ t ∈ areas, t.stop + 8 ≤ r.area.offset)
    (hsum : (areas.map Span.length).sum + r.area.length < 2 ^ 31) :
    AreasFit xStart r.area.stop (areas ++ [r.area]) := by
  have hone := areasFit_singleton hr hf.xStart_lt (by omega)
  have hstop : r.area.offset ≤ r.area.stop := Nat.le_add_right _ _
  constructor
  case aligned => exact List.forall_mem_append.2 ⟨hf.aligned, hone.aligned⟩
  case pos => exact List.forall_mem_append.2 ⟨hf.pos, hone.pos⟩
  case marker_le => exact List.forall_mem_append.2 ⟨hf.marker_le, hone.marker_le⟩
  case xStart_lt => exact hf.xStart_lt
  case xStart_clear => exact List.forall_mem_append.2 ⟨hf.xStart_clear, hone.xStart_clear⟩
  case apart =>
    refine List.pairwise_append.2 ⟨hf.apart, List.pairwise_singleton _ _, fun t ht u hu => ?_⟩
    rw [List.mem_singleton.1 hu]
    exact hafter t ht
  case sum_lt => simpa using hsum
  case stop_le =>
    refine List.forall_mem_append.2 ⟨fun t ht => ?_, hone.stop_le⟩
    have := hafter t ht
    omega
  case last => exact ⟨r.area, List.mem_append_right _ List.mem_cons_self, rfl⟩

/-- One region is one free block. -/
lemma sound_singleton (hr : r.Fits h.xStart) (hx : h.xStart < 2 ^ 32)
    (hlen : r.area.length < 2 ^ 31) (hH : Defined h h.xStart r.area H)
    (hrem : H.xFreeBytesRemaining = r.area.length) : Sound [r.area] H [r.area] [] := by
  obtain ⟨h1, h2, h3, h4⟩ := hr.area_bounds
  obtain ⟨hxo, hxs⟩ := hr.xStart_ne
  have hso : r.area.stop ≠ r.area.offset := by
    rw [Span.stop]
    omega
  have hfit := areasFit_singleton hr hx hlen
  constructor
  case fit =>
    rw [hH.xStart, hH.pxEnd]
    exact hfit
  case links => simp [hH.next, hH.xStart, hH.pxEnd, hxo.symm]
  case size_eq => simp [hH.size]
  case size_xStart => simp [hH.size, hH.xStart, hxo, hxs]
  case size_pxEnd => simp [hH.size, hH.pxEnd, hso]
  case next_pxEnd => simp [hH.next, hH.pxEnd, hso, hxs.symm]
  case header => simp
  case separated => exact List.pairwise_singleton _ _
  case aligned => exact hfit.aligned
  case empty =>
    intro t ht h0
    rw [List.mem_singleton.1 ht] at h0
    omega
  case live_aligned => simp
  case live_pos => simp
  case live_apart => exact List.Pairwise.nil
  case live_subset => exact fun b hb => absurd hb notMem_covered_nil
  case free => ext b; simp
  case sum_eq => simp
  case remaining => simpa using hrem

/-- Another region comes in behind the end marker of the one before. -/
lemma Sound.defined (hs : Sound areas h c []) (hr : r.Fits h.xStart)
    (hafter : ∀ t ∈ areas, t.stop + 8 ≤ r.area.offset)
    (hsum : (areas.map Span.length).sum + r.area.length < 2 ^ 31)
    (hH : Defined h h.pxEnd r.area H)
    (hrem : H.xFreeBytesRemaining = h.xFreeBytesRemaining + r.area.length) :
    Sound (areas ++ [r.area]) H (c ++ [⟨h.pxEnd, 0⟩, r.area]) [] := by
  obtain ⟨h1, h2, h3, h4⟩ := hr.area_bounds
  obtain ⟨hxo, hxs⟩ := hr.xStart_ne
  have hso : r.area.offset < r.area.stop := by
    rw [Span.stop]
    omega
  obtain ⟨a, ha, hastop⟩ := hs.fit.last
  have hend : h.pxEnd + 8 ≤ r.area.offset := hastop ▸ hafter a ha
  have hfit := hs.fit.append hr hafter hsum
  have hcell : ∀ t ∈ c, t.offset ≠ h.pxEnd ∧ t.offset ≠ r.area.offset ∧
      t.offset ≠ r.area.stop := by
    intro t ht
    have := hs.offset_lt ht
    omega
  have hfree := hs.free
  constructor
  case fit =>
    rw [hH.xStart, hH.pxEnd]
    exact hfit
  case links =>
    rw [hH.xStart, hH.pxEnd, List.map_append, List.map_cons, List.map_singleton,
      List.append_cons (c.map Span.offset) h.pxEnd [r.area.offset], ← List.append_nil (_ ++ _),
      Heap.links_append]
    refine ⟨Heap.isChain_congr (fun b hb => ?_) hs.links, ?_, List.isChain_singleton _⟩
    · rw [← List.cons_append, List.dropLast_concat] at hb
      have hne : b ≠ h.pxEnd ∧ b ≠ r.area.offset ∧ b ≠ r.area.stop := by
        rcases List.mem_cons.1 hb with rfl | hb
        · exact ⟨hs.pxEnd_ne_xStart.symm, hxo, hxs⟩
        · obtain ⟨t, ht, rfl⟩ := List.mem_map.1 hb
          exact hcell t ht
      rw [hH.next, if_neg hne.1, if_neg hne.2.1, if_neg hne.2.2]
    · rw [List.getLastD_concat, List.headD_nil, Heap.links_cons, Heap.links_nil, hH.next, hH.next,
        if_pos rfl, if_neg (by omega), if_pos rfl]
      exact ⟨rfl, rfl⟩
  case size_eq =>
    refine List.forall_mem_append.2 ⟨fun t ht => ?_, ?_⟩
    · obtain ⟨h1, h2, h3⟩ := hcell t ht
      rw [hH.size, if_neg h2, if_neg h3, if_neg h1, hs.size_eq t ht]
    · simp [hH.size]
      omega
  case size_xStart => simp [hH.size, hH.xStart, hxo, hxs, hs.size_xStart]
  case size_pxEnd => simp [hH.size, hH.pxEnd, hso.ne']
  case next_pxEnd =>
    rw [hH.pxEnd, hH.next, if_neg (by omega), if_neg hso.ne', if_pos rfl]
  case header => simp
  case separated =>
    have hmarker : Span.Before ⟨h.pxEnd, 0⟩ r.area :=
      ⟨(show h.pxEnd < _ by omega), (show h.pxEnd ≤ _ by omega),
        fun heq => absurd heq (show h.pxEnd ≠ _ by omega)⟩
    have hbefore : ∀ t ∈ c, t.Before ⟨h.pxEnd, 0⟩ := fun t ht =>
      ⟨hs.offset_lt ht, hs.stop_le ht, fun _ => rfl⟩
    refine List.pairwise_append.2 ⟨hs.separated, List.pairwise_pair.2 hmarker, fun t ht u hu => ?_⟩
    rcases List.mem_pair.1 hu with rfl | rfl
    · exact hbefore t ht
    · exact (hbefore t ht).trans hmarker
  case aligned =>
    refine List.forall_mem_append.2 ⟨hs.aligned, ?_⟩
    have hdvd : 8 ∣ h.pxEnd := by
      have := hs.fit.aligned a ha
      rw [← hastop]
      exact Nat.dvd_add this.1 this.2
    have hr' := hr.area_aligned
    simp [hdvd, hr']
  case empty =>
    rw [hH.pxEnd]
    refine List.forall_mem_append.2 ⟨fun t ht h0 => ?_, fun u hu h0 => ?_⟩
    · obtain ⟨hlt, b, hb, heq⟩ := hs.empty t ht h0
      exact ⟨by omega, b, List.mem_append_left _ hb, heq⟩
    · rcases List.mem_pair.1 hu with rfl | rfl
      · exact ⟨(show h.pxEnd < _ by omega), a, List.mem_append_left _ ha, hastop.symm⟩
      · omega
  case live_aligned => simp
  case live_pos => simp
  case live_apart => exact List.Pairwise.nil
  case live_subset => exact fun b hb => absurd hb notMem_covered_nil
  case free =>
    ext b
    have hb := Set.ext_iff.1 hs.free b
    have hmarker : ¬ Span.Covers ⟨h.pxEnd, 0⟩ b := fun hcov => absurd hcov.2 (Nat.not_lt.2 hcov.1)
    simp only [mem_covered_append, mem_covered_cons, notMem_covered_nil, Set.mem_sdiff] at hb ⊢
    tauto
  case sum_eq =>
    have := hs.sum_eq
    simp at this ⊢
    omega
  case remaining =>
    rw [hrem, hs.remaining]
    simp

lemma Sound.of_eq {live : List Span} (hs : Sound areas h c live) (hlink : H.link = h.link)
    (hxStart : H.xStart = h.xStart) (hpxEnd : H.pxEnd = h.pxEnd)
    (hrem : H.xFreeBytesRemaining = h.xFreeBytesRemaining) : Sound areas H c live := by
  have hn : H.next = h.next := by
    funext a
    simp [Heap.next, hlink]
  have hz : H.size = h.size := by
    funext a
    simp [Heap.size, hlink]
  obtain ⟨_, _, _, _, _, _, _, _, _, _, _, _, _, _, _, _, _⟩ := hs
  constructor <;> simp_all [Heap.Links]

end Areas

/-! ### All regions -/

/-- The regions behind the ones that were added. -/
lemma defineRegions_next {rs : List HeapRegion_t} {z : HeapRegion_t} (hz : z.xSizeInBytes = 0)
    (tail : List HeapRegion_t) {areas c : List Span} {h : Heap} {n total : ℕ} (hn : n ≠ 0)
    (hs : Sound areas { h with xFreeBytesRemaining := total } c [])
    (hfits : ∀ r ∈ rs, r.Fits h.xStart)
    (hafter : ∀ t ∈ areas, ∀ r ∈ rs, t.stop + 8 ≤ r.area.offset)
    (hapart : rs.Pairwise fun r r' => r.pucStartAddress + r.xSizeInBytes ≤ r'.pucStartAddress)
    (hsum : (areas.map Span.length).sum + ((rs.map HeapRegion_t.area).map Span.length).sum <
      2 ^ 31) :
    ∃ H total' c', h.defineRegions n total (rs ++ z :: tail) = some (H, total') ∧
      Sound (areas ++ rs.map HeapRegion_t.area) { H with xFreeBytesRemaining := total' } c' [] := by
  induction rs generalizing areas c h n total with
  | nil =>
    rw [List.nil_append, Heap.defineRegions, if_neg (by omega), List.map_nil, List.append_nil]
    exact ⟨h, total, c, rfl, hs⟩
  | cons r rs ih =>
    obtain ⟨hr, hfits⟩ := List.forall_mem_cons.1 hfits
    obtain ⟨hrs, hapart⟩ := List.pairwise_cons.1 hapart
    rw [List.map_cons, List.map_cons, List.sum_cons] at hsum
    obtain ⟨h1, h2, h3, h4⟩ := hr.area_bounds
    have hafter' : ∀ t ∈ areas, t.stop + 8 ≤ r.area.offset := fun t ht =>
      hafter t ht r List.mem_cons_self
    obtain ⟨a, ha, hastop⟩ := hs.fit.last
    have hend : h.pxEnd + 8 ≤ r.area.offset := hastop ▸ hafter' a ha
    have htotal := hs.remaining
    have heq := hs.sum_eq
    simp only [List.map_nil, List.sum_nil, Nat.add_zero] at heq htotal
    obtain ⟨H, hdef, hH⟩ := defineRegion_next hr hn (Nat.ne_of_gt hs.fit.pxEnd_pos)
      (show h.pxEnd < _ by omega) hs.size_pxEnd
    have hadd : addSize total r.area.length = total + r.area.length := addSize_of_lt (by omega)
    have hnew := hs.defined (H := { H with xFreeBytesRemaining := total + r.area.length }) hr
      hafter' (by omega) { hH with } rfl
    have hroom : r.xSizeInBytes > 0 := by
      have := hr.room
      omega
    have hnext : ∀ t ∈ areas ++ [r.area], ∀ r' ∈ rs, t.stop + 8 ≤ r'.area.offset := by
      intro t ht r' hr'
      obtain ⟨h1', h2', h3', h4'⟩ := (hfits r' hr').area_bounds
      rcases List.mem_append.1 ht with ht | ht
      · exact hafter t ht r' (List.mem_cons_of_mem r hr')
      · have := hrs r' hr'
        rw [List.mem_singleton.1 ht]
        omega
    have hsum' : ((areas ++ [r.area]).map Span.length).sum +
        ((rs.map HeapRegion_t.area).map Span.length).sum < 2 ^ 31 := by
      rw [List.map_append, List.sum_append, List.map_singleton, List.sum_singleton]
      omega
    obtain ⟨H', total', c', hrun, hsound⟩ := ih (n := n + 1) (Nat.succ_ne_zero n) hnew
      (fun r' hr' => hH.xStart ▸ hfits r' hr') hnext hapart hsum'
    refine ⟨H', total', c', ?_, ?_⟩
    · rw [List.cons_append, Heap.defineRegions, if_pos hroom, hdef, Option.bind_eq_bind,
        Option.bind_some]
      dsimp only
      rw [hadd, hrun]
    · rwa [List.map_cons, List.append_cons]

/-- The heap that the regions of the array make up, up to the one of size zero that ends it. -/
lemma define_sound {h : Heap} {rs : List HeapRegion_t} (hfit : RegionsFit h.xStart rs)
    (hrs : rs ≠ []) {z : HeapRegion_t} (hz : z.xSizeInBytes = 0) (tail : List HeapRegion_t)
    (h0 : h.pxEnd = 0) :
    ∃ H c, h.vPortDefineHeapRegions (rs ++ z :: tail) = some H ∧
      Sound (rs.map HeapRegion_t.area) H c [] ∧
      H.xMinimumEverFreeBytesRemaining = H.xFreeBytesRemaining := by
  obtain ⟨hfits, hapart, hsum, hx⟩ := hfit
  cases rs with
  | nil => exact absurd rfl hrs
  | cons r rs =>
    obtain ⟨hr, hfits⟩ := List.forall_mem_cons.1 hfits
    obtain ⟨hafter, hapart⟩ := List.pairwise_cons.1 hapart
    rw [List.map_cons, List.map_cons, List.sum_cons] at hsum
    obtain ⟨h1, h2, h3, h4⟩ := hr.area_bounds
    have hroom : 0 < r.xSizeInBytes := by
      have := hr.room
      omega
    obtain ⟨H, hdef, hH⟩ := defineRegion_first hr h0
    have hadd : addSize 0 r.area.length = r.area.length := by
      rw [addSize_of_lt (by omega), Nat.zero_add]
    have hone := sound_singleton (H := { H with xFreeBytesRemaining := r.area.length }) hr hx
      (by omega) { hH with } rfl
    have hnext : ∀ t ∈ [r.area], ∀ r' ∈ rs, t.stop + 8 ≤ r'.area.offset := by
      intro t ht r' hr'
      obtain ⟨h1', h2', h3', h4'⟩ := (hfits r' hr').area_bounds
      have := hafter r' hr'
      rw [List.mem_singleton.1 ht]
      omega
    have hlater : ∀ r' ∈ rs, r'.Fits H.xStart := fun r' hr' => hH.xStart ▸ hfits r' hr'
    obtain ⟨H', total, c, hrun, hsound⟩ := defineRegions_next hz tail (one_ne_zero : 1 ≠ 0) hone
      hlater hnext hapart (by simpa using hsum)
    have hpos : total ≠ 0 := by
      have hrem := hsound.remaining
      have heq := hsound.sum_eq
      simp only [List.map_append, List.map_singleton, List.sum_append, List.sum_singleton,
        List.map_nil, List.sum_nil] at hrem heq
      omega
    refine ⟨{ H' with xFreeBytesRemaining := total, xMinimumEverFreeBytesRemaining := total }, c,
      ?_, ?_, rfl⟩
    · rw [Heap.vPortDefineHeapRegions, configASSERT_of h0, List.cons_append, Heap.defineRegions,
        if_pos hroom, hdef]
      simp only [Option.bind_eq_bind, Option.bind_some, Nat.zero_add, hadd, hrun,
        configASSERT_of hpos]
    · exact hsound.of_eq rfl rfl rfl rfl

/-- The two regions of the program can be used, wherever the list head is outside of them. -/
lemma regionsFit_xHeapRegions {xStart : ℕ} (hx : xStart < 2 ^ 32)
    (hclear : xStart + 8 ≤ 0x20200000 ∨ 0x20240000 ≤ xStart) :
    RegionsFit xStart (xHeapRegions.take 2) := by
  constructor
  case fits =>
    refine List.forall_mem_cons.2 ⟨?_, List.forall_mem_singleton.2 ?_⟩
    · constructor <;> dsimp only <;> omega
    · constructor <;> dsimp only <;> omega
  case apart => exact List.pairwise_pair.2 (by decide)
  case sum_lt => decide
  case xStart_lt => exact hx

end RT1064.Kernel
