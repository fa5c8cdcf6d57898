import RT1064.Kernel.HeapSound

/-!
# Allocation

`pvPortMalloc` is first fit over the free addresses: it returns the lowest address at which a block
for the request fits and fails only where none fits at all.
-/

namespace RT1064.Kernel

open Core

/-! ### The size of a block -/

/-- The bytes of a request together with the header, as a multiple of eight. -/
def paddedSize (n : ℕ) : ℕ := (n + 15) / 8 * 8

lemma Heap.blockSize_eq {n : ℕ} (hn : n < 2 ^ 32) :
    Heap.blockSize n = if 0 < n ∧ paddedSize n < 2 ^ 32 then paddedSize n else 0 := by
  rw [Heap.blockSize, paddedSize, xHeapStructSize_eq]
  by_cases h0 : 0 < n
  · rw [if_pos h0]
    by_cases hover : heapADD_WILL_OVERFLOW n 8
    · rw [if_pos hover, if_neg]
      rw [heapADD_WILL_OVERFLOW, heapSIZE_MAX] at hover
      omega
    · rw [if_neg hover]
      rw [heapADD_WILL_OVERFLOW, heapSIZE_MAX] at hover
      have hadd : addSize n 8 = n + 8 := addSize_of_lt (by omega)
      have hmask : (n + 8) &&& portBYTE_ALIGNMENT_MASK = n % 8 := by rw [and_mask]; omega
      have hsub : subSize portBYTE_ALIGNMENT (n % 8) = 8 - n % 8 :=
        subSize_of_le (Nat.le_of_lt (Nat.mod_lt n (by decide))) (by decide)
      simp only [hadd, hmask, hsub]
      by_cases hrest : n % 8 = 0
      · rw [if_neg (not_not.2 hrest), if_pos ⟨h0, by omega⟩]
        omega
      · rw [if_pos hrest]
        by_cases hover' : heapADD_WILL_OVERFLOW (n + 8) (8 - n % 8)
        · rw [if_pos hover', if_neg]
          rw [heapADD_WILL_OVERFLOW, heapSIZE_MAX] at hover'
          omega
        · rw [if_neg hover']
          rw [heapADD_WILL_OVERFLOW, heapSIZE_MAX] at hover'
          rw [addSize_of_lt (by omega), if_pos ⟨h0, by omega⟩]
          omega
  · rw [if_neg h0, if_neg fun h => h0 h.1]
    omega

/-- A request that a block can be found for. -/
def Grantable (n : ℕ) : Prop := 0 < n ∧ paddedSize n < 2 ^ 31

instance (n : ℕ) : Decidable (Grantable n) := inferInstanceAs (Decidable (_ ∧ _))

/-! ### The block that is granted -/

/-- The beginning of the block `t` that a request for `w` bytes is granted. -/
def grant (t : Span) (w : ℕ) : Span := t.front (Heap.grantedSize t.length w)

/-- What goes back to the list. -/
def leftover (t : Span) (w : ℕ) : List Span := if 16 < t.length - w then [t.back w] else []

section Grant

variable {t : Span} {w : ℕ}

lemma grantedSize_bounds (hw : w ≤ t.length) :
    w ≤ (grant t w).length ∧ (grant t w).length ≤ t.length := by
  simp only [grant, Heap.grantedSize, Span.front]
  split_ifs <;> omega

lemma sum_leftover (hw : w ≤ t.length) :
    ((leftover t w).map Span.length).sum + (grant t w).length = t.length := by
  simp only [leftover, grant, Heap.grantedSize, Span.front]
  split_ifs
  · simp only [List.map_cons, List.map_nil, List.sum_cons, List.sum_nil, Span.back]
    omega
  · simp

variable {pre post : List Span}

lemma separated_leftover (h : Separated (pre ++ t :: post)) (hw : w ≤ t.length) :
    Separated (pre ++ leftover t w ++ post) := by
  rw [leftover]
  split_ifs with hsplit
  · rw [List.append_assoc, List.singleton_append]
    refine h.replace (Nat.le_add_right _ _) ?_ ?_
    · simp only [Span.stop, Span.back]
      omega
    · simp only [Span.back]
      omega
  · rw [List.append_nil]
    exact h.remove

lemma covered_leftover (h : Separated (pre ++ t :: post)) (hw : w ≤ t.length) :
    covered (pre ++ leftover t w ++ post) =
      covered (pre ++ t :: post) \ {b | (grant t w).Covers b} := by
  rw [leftover, grant, Heap.grantedSize]
  split_ifs with hsplit
  · rw [List.append_assoc, List.singleton_append]
    exact h.covered_back hw
  · rw [List.append_nil]
    exact h.covered_remove

/-- What the list has left was in it before, but for the end of the block. -/
lemma mem_leftover_cases {u : Span} (hu : u ∈ pre ++ leftover t w ++ post) :
    u ∈ pre ++ post ∨ u = t.back w ∧ 16 < t.length - w := by
  rw [leftover] at hu
  split_ifs at hu with hsplit
  · simp only [List.append_assoc, List.mem_append, List.mem_singleton] at hu ⊢
    tauto
  · rw [List.append_nil] at hu
    exact .inl hu

lemma mem_of_mem_rest {u : Span} (hu : u ∈ pre ++ post) : u ∈ pre ++ t :: post :=
  ((List.sublist_cons_self t post).append_left pre).subset hu

lemma aligned_leftover (hw8 : 8 ∣ w) (h : ∀ u ∈ pre ++ t :: post, 8 ∣ u.offset ∧ 8 ∣ u.length) :
    ∀ u ∈ pre ++ leftover t w ++ post, 8 ∣ u.offset ∧ 8 ∣ u.length := by
  intro u hu
  rcases mem_leftover_cases hu with hu | ⟨rfl, -⟩
  · exact h u (mem_of_mem_rest hu)
  · obtain ⟨h1, h2⟩ := h t (List.mem_append_right _ List.mem_cons_self)
    exact ⟨Nat.dvd_add h1 hw8, Nat.dvd_sub h2 hw8⟩

lemma aligned_grant (hw8 : 8 ∣ w) (h : 8 ∣ t.offset ∧ 8 ∣ t.length) :
    8 ∣ (grant t w).offset ∧ 8 ∣ (grant t w).length := by
  refine ⟨h.1, ?_⟩
  simp only [grant, Span.front, Heap.grantedSize]
  split_ifs
  · exact hw8
  · exact h.2

lemma mem_covered_of_grant (hw : w ≤ t.length) {b : ℕ} (hb : (grant t w).Covers b) :
    b ∈ covered (pre ++ t :: post) :=
  ⟨t, List.mem_append_right _ List.mem_cons_self, hb.1,
    hb.2.trans_le (Nat.add_le_add_left (grantedSize_bounds hw).2 _)⟩

end Grant

namespace Sound

variable {areas c live pre post : List Span} {h H : Heap} {t : Span} {w : ℕ}

lemma links_middle (hs : Sound areas h (pre ++ t :: post) live) :
    h.next ((pre.map Span.offset).getLastD h.xStart) = t.offset ∧
      h.next t.offset = (post.map Span.offset).headD h.pxEnd := by
  have hl := hs.links
  rw [List.map_append, List.map_cons, ← List.singleton_append (l := post.map Span.offset),
    ← List.append_assoc, Heap.links_append] at hl
  simpa using hl.2.1

/-- The cell before a place in the list. -/
lemma place (hs : Sound areas h (pre ++ post) live) {p : ℕ}
    (hp : (pre.map Span.offset).getLastD h.xStart = p) :
    p ∈ h.xStart :: pre.map Span.offset ∧ p ≠ h.pxEnd ∧ p ∉ covered live := by
  have hmem : p ∈ h.xStart :: pre.map Span.offset := hp ▸ List.getLastD_mem_cons
  refine ⟨hmem, ?_⟩
  rcases List.mem_cons.1 hmem with rfl | hmem
  · exact ⟨hs.pxEnd_ne_xStart.symm, hs.xStart_notMem_live⟩
  · obtain ⟨u, hu, rfl⟩ := List.mem_map.1 hmem
    have huc := List.mem_append_left post hu
    exact ⟨(hs.offset_lt huc).ne, hs.offset_notMem_live huc⟩

/-- The header of what is left over is a new cell. -/
lemma leftover_new (hs : Sound areas h (pre ++ t :: post) live) (hw0 : 0 < w)
    (hsplit : 16 < t.length - w) : t.offset + w ∈ covered areas ∧ t.offset + w ∉ covered live ∧
      ∀ u ∈ pre ++ t :: post, u.offset ≠ t.offset + w := by
  have htc : t ∈ pre ++ t :: post := List.mem_append_right _ List.mem_cons_self
  have hcov : t.Covers (t.offset + w) := by
    rw [Span.covers_def]
    omega
  obtain ⟨hareas, hlive⟩ := hs.mem_free ⟨t, htc, hcov⟩
  refine ⟨hareas, hlive, fun u hu heq => ?_⟩
  have hut := hs.separated.eq_of_covers htc hu (heq ▸ hcov)
  rw [hut] at heq
  omega

/-- What taking a block leaves as it was. -/
lemma taken_frame (hs : Sound areas h (pre ++ t :: post) live) (hw0 : 0 < w) {p a : ℕ}
    (hH : Heap.Taken h p t.offset w H) (ha : a = h.xStart ∨ a = h.pxEnd ∨ a ∈ covered live ∨
      a ∈ (pre ++ post).map Span.offset) :
    H.size a = h.size a ∧ (a ≠ p → H.next a = h.next a) := by
  have htc : t ∈ pre ++ t :: post := List.mem_append_right _ List.mem_cons_self
  have hsize := hs.size_eq t htc
  have hat : a ≠ t.offset := by
    rcases ha with rfl | rfl | ha | ha
    · exact (hs.offset_ne_xStart htc).symm
    · exact (hs.offset_lt htc).ne'
    · rintro rfl
      exact hs.offset_notMem_live htc ha
    · have hnodup := (List.nodup_cons.1 hs.nodup).2
      rw [List.map_append, List.map_cons, List.nodup_middle, ← List.map_append] at hnodup
      rintro rfl
      exact (List.nodup_cons.1 hnodup).1 ha
  have hnew : ¬ (16 < t.length - w ∧ a = t.offset + w) := by
    rintro ⟨hsplit, heq⟩
    obtain ⟨hareas, hlive, hother⟩ := hs.leftover_new hw0 hsplit
    rw [← heq] at hareas hlive
    rcases ha with rfl | rfl | ha | ha
    · exact hs.fit.xStart_ne hareas rfl
    · exact (hs.fit.lt_pxEnd hareas).ne rfl
    · exact hlive ha
    · obtain ⟨u, hu, rfl⟩ := List.mem_map.1 ha
      exact hother u (((List.sublist_cons_self t post).append_left pre).subset hu) heq
  refine ⟨?_, fun hap => ?_⟩
  · rw [hH.size, hsize, if_neg hat, if_neg hnew]
  · rw [hH.next, hsize, if_neg hat, if_neg hap, if_neg hnew]

/-- The list in memory after a block was taken. -/
lemma taken_links (hs : Sound areas h (pre ++ t :: post) live) (hw0 : 0 < w)
    (hH : Heap.Taken h ((pre.map Span.offset).getLastD h.xStart) t.offset w H) :
    H.Links h.xStart ((pre ++ leftover t w ++ post).map Span.offset) h.pxEnd := by
  have htc : t ∈ pre ++ t :: post := List.mem_append_right _ List.mem_cons_self
  have hsize := hs.size_eq t htc
  obtain ⟨-, hnext⟩ := hs.links_middle
  have hnodup := hs.nodup
  rw [List.map_append, List.map_cons, ← List.cons_append] at hnodup
  obtain ⟨hnodupl, -, hcross⟩ := List.nodup_append.1 hnodup
  obtain ⟨hpmem, -⟩ := hs.place rfl
  have hl := hs.links
  rw [List.map_append, List.map_cons, ← List.singleton_append (l := post.map Span.offset),
    ← List.append_assoc] at hl
  generalize hp : (pre.map Span.offset).getLastD h.xStart = p at hH hpmem
  have hpt : p ≠ t.offset := hcross p hpmem t.offset List.mem_cons_self
  rw [List.map_append, List.map_append]
  refine hl.splice hnodupl (fun a ha hap => ?_) (fun a ha => ?_) ?_
  · rw [hp] at hap
    refine (hs.taken_frame hw0 hH ?_).2 hap
    rcases List.mem_cons.1 ha with rfl | ha
    · exact .inl rfl
    · rw [List.map_append]
      exact .inr (.inr (.inr (List.mem_append_left _ ha)))
  · refine (hs.taken_frame hw0 hH ?_).2 (hcross p hpmem a (List.mem_cons_of_mem _ ha)).symm
    rw [List.map_append]
    exact .inr (.inr (.inr (List.mem_append_right _ ha)))
  · rw [hp, leftover]
    split_ifs with hsplit
    · have hpb : p ≠ (t.back w).offset := by
        obtain ⟨hareas, -, hother⟩ := hs.leftover_new hw0 hsplit
        rcases List.mem_cons.1 hpmem with rfl | hmem
        · exact (hs.fit.xStart_ne hareas).symm
        · obtain ⟨u, hu, rfl⟩ := List.mem_map.1 hmem
          exact hother u (List.mem_append_left _ hu)
      rw [List.map_singleton, Heap.links_cons, Heap.links_nil, hH.next, hH.next, hsize,
        if_neg hpt, if_pos rfl, if_pos hsplit, ← hnext]
      refine ⟨rfl, ?_⟩
      rw [if_neg (by simp only [Span.back]; omega), if_neg hpb.symm,
        if_pos ⟨hsplit, rfl⟩]
    · rw [List.map_nil, Heap.links_nil, hH.next, hsize, if_neg hpt, if_pos rfl, if_neg hsplit,
        hnext]

/-- The blocks of the list have the sizes that their headers have. -/
lemma size_eq_of_taken (hs : Sound areas h (pre ++ t :: post) live) (hw0 : 0 < w)
    (hH : Heap.Taken h ((pre.map Span.offset).getLastD h.xStart) t.offset w H) :
    ∀ u ∈ pre ++ leftover t w ++ post, H.size u.offset = u.length := by
  have htc : t ∈ pre ++ t :: post := List.mem_append_right _ List.mem_cons_self
  intro u hu
  rcases mem_leftover_cases hu with hu | ⟨rfl, hsplit⟩
  · have hmem := List.mem_map_of_mem (f := Span.offset) hu
    rw [(hs.taken_frame hw0 hH (.inr (.inr (.inr hmem)))).1, hs.size_eq u (mem_of_mem_rest hu)]
  · rw [hH.size, hs.size_eq t htc, if_neg (by simp only [Span.back]; omega), if_pos ⟨hsplit, rfl⟩]
    rfl

/-- Nothing changes in the blocks that are held already. -/
lemma link_eq_of_taken (hs : Sound areas h (pre ++ t :: post) live) (hw0 : 0 < w)
    (hH : Heap.Taken h ((pre.map Span.offset).getLastD h.xStart) t.offset w H) :
    ∀ a ∈ covered live, H.link a = h.link a := by
  intro a ha
  obtain ⟨-, -, hplive⟩ := hs.place rfl
  obtain ⟨hsize, hnext⟩ := hs.taken_frame hw0 hH (.inr (.inr (.inl ha)))
  exact Heap.link_ext (hnext fun hap => hplive (hap ▸ ha)) hsize

/-- The blocks that are held have their mark, the new one included. -/
lemma header_of_taken (hs : Sound areas h (pre ++ t :: post) live) (hw0 : 0 < w)
    (hH : Heap.Taken h ((pre.map Span.offset).getLastD h.xStart) t.offset w H) :
    ∀ u ∈ grant t w :: live, H.size u.offset = u.length + 2 ^ 31 ∧ H.next u.offset = 0 := by
  have htc : t ∈ pre ++ t :: post := List.mem_append_right _ List.mem_cons_self
  intro u hu
  rcases List.mem_cons.1 hu with rfl | hu
  · constructor
    · rw [hH.size, hs.size_eq t htc, grant, Span.front, if_pos rfl]
    · rw [hH.next, grant, Span.front, if_pos rfl]
  · have hlink := hs.link_eq_of_taken hw0 hH _ (hs.offset_mem_live hu)
    rw [Heap.size, Heap.next, hlink]
    exact hs.header u hu

/-- Taking a block out of the list keeps the invariant. -/
lemma of_taken (hs : Sound areas h (pre ++ t :: post) live) (hw8 : 8 ∣ w) (hw0 : 0 < w)
    (hw : w ≤ t.length)
    (hH : Heap.Taken h ((pre.map Span.offset).getLastD h.xStart) t.offset w H) :
    Sound areas H (pre ++ leftover t w ++ post) (grant t w :: live) := by
  have htc : t ∈ pre ++ t :: post := List.mem_append_right _ List.mem_cons_self
  obtain ⟨-, hpxEndp, -⟩ := hs.place rfl
  obtain ⟨hgrant, -⟩ := grantedSize_bounds hw
  have hsum := sum_leftover hw
  constructor
  case fit =>
    rw [hH.xStart, hH.pxEnd]
    exact hs.fit
  case links =>
    rw [hH.xStart, hH.pxEnd]
    exact hs.taken_links hw0 hH
  case size_eq => exact hs.size_eq_of_taken hw0 hH
  case size_xStart =>
    rw [hH.xStart, (hs.taken_frame hw0 hH (.inl rfl)).1, hs.size_xStart]
  case size_pxEnd =>
    rw [hH.pxEnd, (hs.taken_frame hw0 hH (.inr (.inl rfl))).1, hs.size_pxEnd]
  case next_pxEnd =>
    rw [hH.pxEnd, (hs.taken_frame hw0 hH (.inr (.inl rfl))).2 hpxEndp.symm, hs.next_pxEnd]
  case header => exact hs.header_of_taken hw0 hH
  case separated => exact separated_leftover hs.separated hw
  case aligned => exact aligned_leftover hw8 hs.aligned
  case empty =>
    intro u hu hempty
    rcases mem_leftover_cases hu with hu | ⟨rfl, hsplit⟩
    · rw [hH.pxEnd]
      exact hs.empty u (mem_of_mem_rest hu) hempty
    · rw [Span.back] at hempty
      dsimp only at hempty
      omega
  case live_aligned =>
    exact List.forall_mem_cons.2 ⟨aligned_grant hw8 (hs.aligned t htc), hs.live_aligned⟩
  case live_pos => exact List.forall_mem_cons.2 ⟨by omega, hs.live_pos⟩
  case live_apart =>
    refine List.pairwise_cons.2 ⟨fun u hu => ?_, hs.live_apart⟩
    refine Span.stop_le_or (by omega) (hs.live_pos u hu) fun b hb hub => ?_
    exact (hs.mem_free (mem_covered_of_grant hw hb)).2 ⟨u, hu, hub⟩
  case live_subset =>
    intro b hb
    rcases mem_covered_cons.1 hb with hb | hb
    · exact (hs.mem_free (mem_covered_of_grant hw hb)).1
    · exact hs.live_subset hb
  case free =>
    rw [covered_leftover hs.separated hw, hs.free]
    ext b
    simp only [Set.mem_sdiff, mem_covered_cons, Set.mem_ofPred_eq]
    tauto
  case sum_eq =>
    have h1 := hs.sum_eq
    simp only [List.map_append, List.sum_append, List.map_cons, List.sum_cons] at h1 ⊢
    omega
  case remaining =>
    rw [hH.remaining, hs.remaining, hs.size_eq t htc]
    simp only [List.map_append, List.sum_append, List.map_cons, List.sum_cons, grant,
      Span.front] at hsum ⊢
    omega

/-! ### The answers -/

lemma findBlock_of_fit (hs : Sound areas h (pre ++ t :: post) live) (hpre : ∀ u ∈ pre, u.length < w)
    (hw : w ≤ t.length) : h.findBlock w =
      some ⟨(pre.map Span.offset).getLastD h.xStart, t.offset⟩ := by
  have hl := hs.links
  rw [List.map_append, List.map_cons] at hl
  have htc : t ∈ pre ++ t :: post := List.mem_append_right _ List.mem_cons_self
  have hlen := hs.length_le_cellCount
  rw [List.length_append] at hlen
  refine Heap.whileLoop_findBlock (hs.offset_pos htc) (fun hgo => ?_) hl.prefix ?_ ?_ ?_
  · rw [hs.size_eq t htc] at hgo
    omega
  · intro a ha
    obtain ⟨u, hu, rfl⟩ := List.mem_map.1 ha
    rw [hs.size_eq u (List.mem_append_left _ hu)]
    exact hpre u hu
  · intro a ha
    obtain ⟨u, hu, rfl⟩ := List.mem_map.1 ha
    exact hs.offset_pos (List.mem_append_left _ hu)
  · rw [List.length_map]
    omega

lemma findBlock_of_no_fit (hs : Sound areas h c live) (hc : ∀ u ∈ c, u.length < w) :
    h.findBlock w = some ⟨(c.map Span.offset).getLastD h.xStart, h.pxEnd⟩ := by
  refine Heap.whileLoop_findBlock (Nat.ne_of_gt hs.fit.pxEnd_pos)
    (fun hgo => hgo.2 hs.next_pxEnd) hs.links ?_ ?_ ?_
  · intro a ha
    obtain ⟨u, hu, rfl⟩ := List.mem_map.1 ha
    rw [hs.size_eq u hu]
    exact hc u hu
  · intro a ha
    obtain ⟨u, hu, rfl⟩ := List.mem_map.1 ha
    exact hs.offset_pos hu
  · rw [List.length_map]
    exact hs.length_le_cellCount

/-- A request is granted the beginning of the first block that is large enough. -/
lemma malloc_of_fit (hs : Sound areas h (pre ++ t :: post) live) {n : ℕ} (hn : Grantable n)
    (hpre : ∀ u ∈ pre, u.length < paddedSize n) (hw : paddedSize n ≤ t.length) :
    ∃ H, h.pvPortMalloc n = some (t.offset + 8, H) ∧
      Sound areas H (pre ++ leftover t (paddedSize n) ++ post) (grant t (paddedSize n) :: live) ∧
      (∀ a ∈ covered live, H.link a = h.link a) ∧
      H.xMinimumEverFreeBytesRemaining =
        min h.xMinimumEverFreeBytesRemaining H.xFreeBytesRemaining := by
  obtain ⟨hn0, hlt⟩ := hn
  have htc : t ∈ pre ++ t :: post := List.mem_append_right _ List.mem_cons_self
  have hlen := length_le_sum htc
  have hw0 : 0 < paddedSize n := by
    rw [paddedSize]
    omega
  have hw8 : 8 ∣ paddedSize n := Nat.dvd_mul_left 8 _
  have hnlt : n < 2 ^ 32 := by
    rw [paddedSize] at hlt
    omega
  have hblock : Heap.blockSize n = paddedSize n := by
    rw [Heap.blockSize_eq hnlt, if_pos ⟨hn0, by omega⟩]
  obtain ⟨hprev, -⟩ := hs.links_middle
  have hstop := hs.stop_le htc
  have hend := hs.fit.pxEnd_le
  have hsum := hs.sum_eq
  have hareas := hs.fit.sum_lt
  rw [Span.stop] at hstop
  obtain ⟨H, htake, hH⟩ := Heap.takeBlock_spec (w := paddedSize n) hprev hw0
    (by rw [hs.size_eq t htc]; exact hw) (by rw [hs.size_eq t htc]; exact hs.length_lt htc)
    (by rw [hs.size_eq t htc]; omega) (hs.aligned t htc).1 hw8
    (by rw [hs.size_eq t htc, hs.remaining]; exact hlen) (by rw [hs.remaining]; omega)
  refine ⟨H, ?_, hs.of_taken hw8 hw0 hw hH, hs.link_eq_of_taken hw0 hH, hH.minimum⟩
  have hmask : (t.offset + 8) &&& portBYTE_ALIGNMENT_MASK = 0 := by
    have := (hs.aligned t htc).1
    rw [and_mask]
    omega
  simp only [Heap.pvPortMalloc, hblock, Option.bind_eq_bind,
    configASSERT_of (Nat.ne_of_gt hs.fit.pxEnd_pos), Option.bind_some,
    (and_allocated (a := paddedSize n) (by omega)).2 hlt, if_true, hs.remaining,
    if_pos (And.intro hw0 (hw.trans hlen)), hs.findBlock_of_fit hpre hw,
    if_pos (hs.offset_lt htc).ne, htake, configASSERT_of hmask]

/-- A request that is refused leaves the heap as it is. -/
lemma malloc_of_no_fit (hs : Sound areas h c live) {n : ℕ} (hn : n < 2 ^ 32)
    (hno : Grantable n → ∀ u ∈ c, u.length < paddedSize n) :
    h.pvPortMalloc n = some (0, h) := by
  have hzero : (0 : ℕ) &&& portBYTE_ALIGNMENT_MASK = 0 := by decide
  have hblock := Heap.blockSize_eq hn
  simp only [Heap.pvPortMalloc, Option.bind_eq_bind,
    configASSERT_of (Nat.ne_of_gt hs.fit.pxEnd_pos), Option.bind_some]
  by_cases hg : Grantable n
  · have hlt := hg.2
    rw [if_pos ⟨hg.1, by omega⟩] at hblock
    rw [hblock, if_pos ((and_allocated (by omega)).2 hlt)]
    split_ifs with hrem
    · rw [hs.findBlock_of_no_fit (hno hg), Option.bind_some, if_neg (not_not.2 rfl)]
      simp only [Option.bind_some, configASSERT_of hzero]
    · simp only [Option.bind_some, configASSERT_of hzero]
  · have hrefuse : Heap.blockSize n = 0 ∨
        ¬ Heap.blockSize n &&& heapBLOCK_ALLOCATED_BITMASK = 0 := by
      rw [hblock]
      split_ifs with hpos
      · right
        rw [and_allocated hpos.2]
        exact fun hlt => hg ⟨hpos.1, hlt⟩
      · exact .inl rfl
    rcases hrefuse with h0 | hbit
    · simp only [h0, Nat.zero_and, if_true, lt_irrefl, false_and, if_false,
        configASSERT_of trivial, Option.bind_some]
    · simp only [if_neg hbit, Option.bind_some, configASSERT_of hzero]

end Sound

end RT1064.Kernel
