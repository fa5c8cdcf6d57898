import RT1064.Kernel.HeapMalloc

/-!
# Deallocation

`vPortFree` puts a block back in its place and joins it with the free blocks that it touches, so
that no two free blocks touch each other.
-/

namespace RT1064.Kernel

open Core

/-- The heap after the mark in the header of `x` was cleared. -/
structure Heap.Unmarked (h : Heap) (x : Span) (H : Heap) : Prop where
  xStart : H.xStart = h.xStart
  pxEnd : H.pxEnd = h.pxEnd
  next : ∀ a, H.next a = h.next a
  size : ∀ a, H.size a = if a = x.offset then x.length else h.size a
  remaining : H.xFreeBytesRemaining = h.xFreeBytesRemaining + x.length

namespace Sound

variable {areas c live pre post : List Span} {h H : Heap} {x : Span}

lemma ne_offset_of_mem (hs : Sound areas h c (x :: live)) {t : Span} (ht : t ∈ c) :
    t.offset ≠ x.offset := fun heq =>
  hs.offset_notMem_live ht (heq ▸ hs.offset_mem_live List.mem_cons_self)

/-- What is held beside a block that is held. -/
lemma notMem_live_tail (hs : Sound areas h c (x :: live)) {b : ℕ} (hb : x.Covers b) :
    b ∉ covered live := by
  rintro ⟨u, hu, hub⟩
  have hor := (List.pairwise_cons.1 hs.live_apart).1 u hu
  have h1 := hb.1
  have h2 := hb.2
  have h3 := hub.1
  have h4 := hub.2
  omega

/-- The blocks of the list before and after a block that is held. -/
lemma exists_place (hs : Sound areas h c (x :: live)) : ∃ pre post, c = pre ++ post ∧
    (∀ t ∈ pre, t.offset < x.offset ∧ t.stop ≤ x.offset) ∧ ∀ u ∈ post, x.stop ≤ u.offset := by
  have hx : x ∈ x :: live := List.mem_cons_self
  have hpos := hs.live_pos x hx
  obtain ⟨pre, post, rfl, hpre, hpost⟩ := hs.separated.exists_split x.offset
  refine ⟨pre, post, rfl, fun t ht => ⟨hpre t ht, ?_⟩, fun u hu => ?_⟩
  · by_contra hlt
    have hcov : t.Covers x.offset := ⟨(hpre t ht).le, Nat.lt_of_not_le hlt⟩
    exact (hs.mem_free ⟨t, List.mem_append_left _ ht, hcov⟩).2 (hs.offset_mem_live hx)
  · by_contra hlt
    have hcov : x.Covers u.offset := ⟨hpost u hu, Nat.lt_of_not_le hlt⟩
    exact hs.offset_notMem_live (List.mem_append_right _ hu) ⟨x, hx, hcov⟩

/-- The cells that a block has a part in when it is put back. -/
lemma links_place (hs : Sound areas h (pre ++ post) live) :
    h.next ((pre.map Span.offset).getLastD h.xStart) = (post.map Span.offset).headD h.pxEnd ∧
      ∀ u post', post = u :: post' →
        h.next u.offset = (post'.map Span.offset).headD h.pxEnd := by
  have hl := hs.links
  rw [List.map_append] at hl
  have hl' := hl
  rw [← List.append_nil (pre.map Span.offset), Heap.links_append] at hl
  refine ⟨Heap.links_nil.1 hl.2.1, ?_⟩
  rintro u post' rfl
  rw [List.map_cons, ← List.singleton_append (l := post'.map Span.offset), ← List.append_assoc,
    Heap.links_append] at hl'
  exact Heap.links_nil.1 (Heap.links_cons.1 hl'.2.1).2

section Inserted

variable {h₁ : Heap} {p : ℕ} {t : Span}

/-- The cell of a block that was put back after the cell `p`. -/
lemma cell_inserted (hs : Sound areas h (pre ++ post) (x :: live)) (hu : h.Unmarked x h₁)
    (hp : (pre.map Span.offset).getLastD h.xStart = p) (hH : Heap.Inserted h₁ p t H) :
    H.next t.offset = ((joinTail t post).map Span.offset).headD h.pxEnd ∧
      H.size t.offset = (joinHead t post).length := by
  obtain ⟨hnext, hnext'⟩ := hs.links_place
  rw [hp] at hnext
  rw [hH.next, hH.size, if_pos rfl, if_pos rfl, hu.next, hu.next, hnext]
  cases post with
  | nil =>
    have hno : ¬ h₁.Touches p t := by
      rw [Heap.Touches, hu.next, hu.pxEnd, hnext]
      exact fun htouch => htouch.2 rfl
    rw [if_neg hno, if_neg hno]
    exact ⟨rfl, rfl⟩
  | cons u post =>
    have huc : u ∈ pre ++ u :: post := List.mem_append_right _ List.mem_cons_self
    have hiff : h₁.Touches p t ↔ t.stop = u.offset := by
      rw [Heap.Touches, hu.next, hu.pxEnd, hnext]
      exact ⟨fun htouch => htouch.1, fun htouch => ⟨htouch, (hs.offset_lt huc).ne⟩⟩
    rw [List.map_cons, List.headD_cons, hu.size, if_neg (hs.ne_offset_of_mem huc), hs.size_eq u huc,
      hnext' u post rfl, joinTail, joinHead]
    simp only [hiff]
    split_ifs
    · exact ⟨rfl, rfl⟩
    · exact ⟨rfl, rfl⟩

/-- The list in memory after a block was put back, where `t` is the block together with the last
one of `pre` if they touch, and `pre'` is what comes before it. -/
lemma links_inserted (hs : Sound areas h (pre ++ post) (x :: live)) (hu : h.Unmarked x h₁)
    (hp : (pre.map Span.offset).getLastD h.xStart = p) (hH : Heap.Inserted h₁ p t H)
    {pre' : List Span}
    (hcase : (pre' = pre ∧ t.offset = x.offset) ∨ ∃ u, pre = pre' ++ [u] ∧ t.offset = u.offset) :
    H.Links h.xStart ((pre' ++ joinNext t post).map Span.offset) h.pxEnd := by
  have hcell := (hs.cell_inserted hu hp hH).1
  have hnodup := hs.nodup
  rw [List.map_append, ← List.cons_append] at hnodup
  obtain ⟨hleft, -, hcross⟩ := List.nodup_append.1 hnodup
  have hpmem : p ∈ h.xStart :: pre.map Span.offset := hp ▸ List.getLastD_mem_cons
  have hsub : ∀ a ∈ (joinTail t post).map Span.offset, a ∈ post.map Span.offset := fun a ha =>
    ((joinTail_sublist t post).map _).subset ha
  obtain ⟨M, hM⟩ : ∃ M, post.map Span.offset = M ++ (joinTail t post).map Span.offset := by
    cases post with
    | nil => exact ⟨[], rfl⟩
    | cons u post =>
      rw [joinTail]
      split_ifs
      · exact ⟨[u.offset], rfl⟩
      · exact ⟨[], rfl⟩
  have hl := hs.links
  rw [List.map_append, hM, ← List.append_assoc] at hl
  have hHnext : ∀ a, a ≠ t.offset → a ≠ p → H.next a = h.next a := by
    intro a ha hap
    rw [hH.next, if_neg ha, if_neg hap, hu.next]
  have hB : ∀ a ∈ (joinTail t post).map Span.offset, a ≠ p := fun a ha =>
    (hcross p hpmem a (hsub a ha)).symm
  have hx : x ∈ x :: live := List.mem_cons_self
  rw [joinNext, List.map_append, List.map_cons, offset_joinHead]
  rcases hcase with ⟨rfl, ht⟩ | ⟨u, rfl, ht⟩
  · -- a cell of its own
    have hmem : ∀ a ∈ h.xStart :: pre'.map Span.offset, a ≠ t.offset := by
      rintro a ha rfl
      rw [ht] at ha
      rcases List.mem_cons.1 ha with ha | ha
      · exact hs.xStart_notMem_live (ha ▸ hs.offset_mem_live hx)
      · obtain ⟨v, hv, hvx⟩ := List.mem_map.1 ha
        exact hs.ne_offset_of_mem (List.mem_append_left _ hv) hvx
    have hpt := hmem p hpmem
    rw [← List.singleton_append, ← List.append_assoc]
    refine hl.splice hleft (fun a ha hap => ?_) (fun a ha => ?_) ?_
    · exact hHnext a (hmem a ha) (hp ▸ hap)
    · refine hHnext a ?_ (hB a ha)
      obtain ⟨v, hv, rfl⟩ := List.mem_map.1 (hsub a ha)
      rw [ht]
      exact hs.ne_offset_of_mem (List.mem_append_right _ hv)
    · rw [hp, Heap.links_cons, Heap.links_nil]
      exact ⟨by rw [hH.next, if_neg hpt, if_pos rfl], hcell⟩
  · -- the cell of the block before
    rw [List.map_append, List.map_singleton, List.getLastD_concat] at hp
    rw [← List.singleton_append, ← List.append_assoc, ht, ← List.map_singleton, ← List.map_append,
      ← List.append_nil (List.map _ (pre' ++ [u]))]
    have htp : t.offset = p := ht.trans hp
    refine hl.splice hleft (fun a ha hap => ?_) (fun a ha => ?_) ?_
    · rw [List.map_append, List.map_singleton, List.getLastD_concat, hp] at hap
      exact hHnext a (htp ▸ hap) hap
    · exact hHnext a (htp ▸ hB a ha) (hB a ha)
    · rw [List.map_append, List.map_singleton, List.getLastD_concat, Heap.links_nil, ← ht]
      exact hcell

end Inserted

/-- A block that is put back has a cell of its own or shares that of the block before it. -/
lemma insertBlock_cases (hs : Sound areas h (pre ++ post) (x :: live)) {h₁ : Heap}
    (hu : h.Unmarked x h₁) {p : ℕ} (hp : (pre.map Span.offset).getLastD h.xStart = p) :
    ∃ pre', insertBlock pre x post = pre' ++ joinNext (h₁.joined p x.offset) post ∧
      ((pre' = pre ∧ (h₁.joined p x.offset).offset = x.offset) ∨
        ∃ u, pre = pre' ++ [u] ∧ (h₁.joined p x.offset).offset = u.offset) := by
  have hx : h₁.size x.offset = x.length := by rw [hu.size, if_pos rfl]
  rcases pre.eq_nil_or_concat' with rfl | ⟨pre, u, rfl⟩
  · have hpx : h.xStart ≠ x.offset := fun heq =>
      hs.xStart_notMem_live (heq ▸ hs.offset_mem_live List.mem_cons_self)
    obtain rfl : h.xStart = p := hp
    have hjoined : h₁.joined h.xStart x.offset = x := by
      rw [Heap.joined, hu.size, if_neg hpx, hs.size_xStart, Nat.add_zero, if_neg hpx, hx]
    rw [hjoined]
    exact ⟨[], rfl, .inl ⟨rfl, rfl⟩⟩
  · have huc : u ∈ pre ++ [u] ++ post :=
      List.mem_append_left _ (List.mem_append_right _ (List.mem_singleton_self u))
    rw [List.map_append, List.map_singleton, List.getLastD_concat] at hp
    have hjoined : h₁.joined p x.offset = if u.stop = x.offset then u.join x else x := by
      rw [Heap.joined, ← hp, hx, hu.size, if_neg (hs.ne_offset_of_mem huc), hs.size_eq u huc]
      rfl
    rw [hjoined, insertBlock_concat]
    split_ifs with htouch
    · exact ⟨pre, rfl, .inr ⟨u, rfl, rfl⟩⟩
    · exact ⟨pre ++ [u], by rw [List.append_assoc, List.singleton_append], .inl ⟨rfl, rfl⟩⟩

/-- What putting a block back leaves as it was. -/
lemma freed_frame (hs : Sound areas h (pre ++ post) (x :: live)) {h₁ : Heap} {p a : ℕ} {t : Span}
    {pre' : List Span} (hu : h.Unmarked x h₁) (hH : Heap.Inserted h₁ p t H)
    (hcase : (pre' = pre ∧ t.offset = x.offset) ∨ ∃ u, pre = pre' ++ [u] ∧ t.offset = u.offset)
    (ha : a = h.xStart ∨ a = h.pxEnd ∨ a ∈ covered live ∨
      a ∈ (pre' ++ joinTail t post).map Span.offset) :
    H.size a = h.size a ∧ (a ≠ p → H.next a = h.next a) := by
  have hx : x ∈ x :: live := List.mem_cons_self
  have hsub : pre'.Sublist pre := by
    rcases hcase with ⟨rfl, -⟩ | ⟨u, rfl, -⟩
    · exact List.Sublist.refl _
    · exact List.sublist_append_left _ _
  have hax : a ≠ x.offset := by
    rcases ha with rfl | rfl | ha | ha
    · exact fun heq => hs.xStart_notMem_live (heq ▸ hs.offset_mem_live hx)
    · exact fun heq => hs.pxEnd_notMem_live (heq ▸ hs.offset_mem_live hx)
    · rintro rfl
      exact hs.notMem_live_tail ⟨le_rfl, Nat.lt_add_of_pos_right (hs.live_pos x hx)⟩ ha
    · obtain ⟨v, hv, rfl⟩ := List.mem_map.1 ha
      exact hs.ne_offset_of_mem ((hsub.append (joinTail_sublist t post)).subset hv)
  have hat : a ≠ t.offset := by
    rcases hcase with ⟨-, ht⟩ | ⟨u, rfl, ht⟩
    · rwa [ht]
    · have huc : u ∈ pre' ++ [u] ++ post :=
        List.mem_append_left _ (List.mem_append_right _ (List.mem_singleton_self u))
      rw [ht]
      rcases ha with rfl | rfl | ha | ha
      · exact (hs.offset_ne_xStart huc).symm
      · exact (hs.offset_lt huc).ne'
      · rintro rfl
        exact hs.offset_notMem_live huc (mem_covered_cons.2 (.inr ha))
      · have hnodup := (List.nodup_cons.1 hs.nodup).2
        rw [List.append_assoc, List.singleton_append, List.map_append, List.map_cons,
          List.nodup_middle, ← List.map_append] at hnodup
        rintro rfl
        exact (List.nodup_cons.1 hnodup).1
          ((((List.Sublist.refl pre').append (joinTail_sublist t post)).map _).subset ha)
  refine ⟨?_, fun hap => ?_⟩
  · rw [hH.size, if_neg hat, hu.size, if_neg hax]
  · rw [hH.next, if_neg hat, if_neg hap, hu.next]

/-- The blocks around the place that stay in the list were in it before. -/
lemma mem_of_mem_rest_of_cases {pre' : List Span} {y : Span}
    (hcase : (pre' = pre ∧ y.offset = x.offset) ∨ ∃ u, pre = pre' ++ [u] ∧ y.offset = u.offset)
    {v : Span} (hv : v ∈ pre' ++ joinTail y post) : v ∈ pre ++ post := by
  rcases hcase with ⟨rfl, -⟩ | ⟨u, rfl, -⟩
  · exact ((joinTail_sublist y post).append_left pre').subset hv
  · exact ((List.sublist_append_left pre' [u]).append (joinTail_sublist y post)).subset hv

/-- The blocks of the list have the sizes that their headers have. -/
lemma size_eq_of_inserted (hs : Sound areas h (pre ++ post) (x :: live)) {h₁ : Heap}
    (hu : h.Unmarked x h₁) {p : ℕ} (hp : (pre.map Span.offset).getLastD h.xStart = p)
    (hH : Heap.Inserted h₁ p (h₁.joined p x.offset) H) :
    ∀ v ∈ insertBlock pre x post, H.size v.offset = v.length := by
  have hcell := hs.cell_inserted hu hp hH
  obtain ⟨pre', hinsert, hcase⟩ := hs.insertBlock_cases hu hp
  have hrest : ∀ v ∈ pre' ++ joinTail (h₁.joined p x.offset) post, H.size v.offset = v.length := by
    intro v hv
    have hmem := List.mem_map_of_mem (f := Span.offset) hv
    rw [(hs.freed_frame hu hH hcase (.inr (.inr (.inr hmem)))).1,
      hs.size_eq v (mem_of_mem_rest_of_cases hcase hv)]
  intro v hv
  rw [hinsert, joinNext] at hv
  rcases List.mem_append.1 hv with hv | hv
  · exact hrest v (List.mem_append_left _ hv)
  · rcases List.mem_cons.1 hv with rfl | hv
    · rw [offset_joinHead, hcell.2]
    · exact hrest v (List.mem_append_right _ hv)

/-- Nothing changes in the blocks that are still held. -/
lemma link_eq_of_inserted (hs : Sound areas h (pre ++ post) (x :: live)) {h₁ : Heap}
    (hu : h.Unmarked x h₁) {p : ℕ} (hp : (pre.map Span.offset).getLastD h.xStart = p)
    (hH : Heap.Inserted h₁ p (h₁.joined p x.offset) H) :
    ∀ a ∈ covered live, H.link a = h.link a := by
  obtain ⟨-, -, hplive⟩ := hs.place hp
  obtain ⟨pre', -, hcase⟩ := hs.insertBlock_cases hu hp
  intro a ha
  obtain ⟨hsize, hnext⟩ := hs.freed_frame hu hH hcase (.inr (.inr (.inl ha)))
  exact Heap.link_ext (hnext fun hap => hplive (hap ▸ mem_covered_cons.2 (.inr ha))) hsize

/-- The addresses of the list and of the block are those that are not held by others. -/
lemma covered_insertBlock_eq (hs : Sound areas h (pre ++ post) (x :: live)) :
    covered (insertBlock pre x post) = covered areas \ covered live := by
  rw [covered_insertBlock, hs.free]
  ext b
  have h1 : x.Covers b → b ∈ covered areas := fun hb =>
    hs.live_subset ⟨x, List.mem_cons_self, hb⟩
  have h2 : x.Covers b → b ∉ covered live := hs.notMem_live_tail
  simp only [Set.mem_union, Set.mem_sdiff, mem_covered_cons, Set.mem_ofPred_eq]
  tauto

/-- Putting a block back into the list keeps the invariant. -/
lemma of_inserted (hs : Sound areas h (pre ++ post) (x :: live)) {h₁ : Heap}
    (hu : h.Unmarked x h₁) (hpre : ∀ t ∈ pre, t.offset < x.offset ∧ t.stop ≤ x.offset)
    (hpost : ∀ u ∈ post, x.stop ≤ u.offset) {p : ℕ}
    (hp : (pre.map Span.offset).getLastD h.xStart = p)
    (hH : Heap.Inserted h₁ p (h₁.joined p x.offset) H) :
    Sound areas H (insertBlock pre x post) live := by
  have hx : x ∈ x :: live := List.mem_cons_self
  have hxpos := hs.live_pos x hx
  obtain ⟨-, hpxEndp, -⟩ := hs.place hp
  obtain ⟨pre', hinsert, hcase⟩ := hs.insertBlock_cases hu hp
  have hframe := fun a => hs.freed_frame (a := a) hu hH hcase
  have hxStart : H.xStart = h.xStart := hH.same.xStart.trans hu.xStart
  have hpxEnd : H.pxEnd = h.pxEnd := hH.same.pxEnd.trans hu.pxEnd
  constructor
  case fit =>
    rw [hxStart, hpxEnd]
    exact hs.fit
  case links =>
    rw [hinsert, hxStart, hpxEnd]
    exact hs.links_inserted hu hp hH hcase
  case size_eq => exact hs.size_eq_of_inserted hu hp hH
  case size_xStart => rw [hxStart, (hframe _ (.inl rfl)).1, hs.size_xStart]
  case size_pxEnd => rw [hpxEnd, (hframe _ (.inr (.inl rfl))).1, hs.size_pxEnd]
  case next_pxEnd =>
    rw [hpxEnd, (hframe _ (.inr (.inl rfl))).2 hpxEndp.symm, hs.next_pxEnd]
  case header =>
    intro v hv
    have hlink := hs.link_eq_of_inserted hu hp hH v.offset
      ⟨v, hv, le_rfl, Nat.lt_add_of_pos_right (hs.live_pos v (List.mem_cons_of_mem x hv))⟩
    rw [Heap.size, Heap.next, hlink]
    exact hs.header v (List.mem_cons_of_mem x hv)
  case separated => exact hs.separated.insertBlock hxpos hpre hpost
  case aligned =>
    refine forall_mem_insertBlock (fun t u ht hu => ⟨ht.1, Nat.dvd_add ht.2 hu.2⟩)
      (hs.live_aligned x hx) (fun t ht => hs.aligned t (List.mem_append_left _ ht)) fun u hu => ?_
    exact hs.aligned u (List.mem_append_right _ hu)
  case empty =>
    rw [hpxEnd]
    refine forall_mem_insertBlock (P := fun t => t.length = 0 → t.offset < h.pxEnd ∧
        ∃ a ∈ areas, t.offset = a.stop)
      (fun t u ht _ h0 => ht (Nat.eq_zero_of_add_eq_zero_right h0))
      (fun h0 => absurd h0 (Nat.ne_of_gt hxpos))
      (fun t ht => hs.empty t (List.mem_append_left _ ht)) fun u hu => ?_
    exact hs.empty u (List.mem_append_right _ hu)
  case live_aligned => exact fun v hv => hs.live_aligned v (List.mem_cons_of_mem x hv)
  case live_pos => exact fun v hv => hs.live_pos v (List.mem_cons_of_mem x hv)
  case live_apart => exact (List.pairwise_cons.1 hs.live_apart).2
  case live_subset => exact fun b hb => hs.live_subset (mem_covered_cons.2 (.inr hb))
  case free => exact hs.covered_insertBlock_eq
  case sum_eq =>
    have h1 := hs.sum_eq
    rw [sum_length_insertBlock]
    rw [List.map_cons, List.sum_cons] at h1
    omega
  case remaining =>
    rw [sum_length_insertBlock, hH.same.remaining, hu.remaining, hs.remaining]

/-- What the cells before and behind the place take. -/
lemma size_place (hs : Sound areas h (pre ++ post) live) :
    h.size ((pre.map Span.offset).getLastD h.xStart) ≤ (pre.map Span.length).sum ∧
      h.size ((post.map Span.offset).headD h.pxEnd) ≤ (post.map Span.length).sum := by
  constructor
  · rcases pre.eq_nil_or_concat' with rfl | ⟨pre, u, rfl⟩
    · exact hs.size_xStart.le
    · have hu : u ∈ pre ++ [u] := List.mem_append_right _ (List.mem_singleton_self u)
      rw [List.map_append, List.map_singleton, List.getLastD_concat,
        hs.size_eq u (List.mem_append_left _ hu)]
      exact length_le_sum hu
  · cases post with
    | nil => exact hs.size_pxEnd.le
    | cons u post =>
      rw [List.map_cons, List.headD_cons, hs.size_eq u (List.mem_append_right _ List.mem_cons_self)]
      exact length_le_sum List.mem_cons_self

/-- The block before the place is over below `2 ^ 32`. -/
lemma stop_place (hs : Sound areas h (pre ++ post) live) :
    (pre.map Span.offset).getLastD h.xStart +
      h.size ((pre.map Span.offset).getLastD h.xStart) < 2 ^ 32 := by
  rcases pre.eq_nil_or_concat' with rfl | ⟨pre, u, rfl⟩
  · rw [List.map_nil, List.getLastD_nil, hs.size_xStart]
    exact hs.fit.xStart_lt
  · have hu := List.mem_append_left post (List.mem_append_right pre (List.mem_singleton_self u))
    have hstop := hs.stop_le hu
    have hend := hs.fit.pxEnd_le
    rw [List.map_append, List.map_singleton, List.getLastD_concat, hs.size_eq u hu]
    rw [Span.stop] at hstop
    omega

/-- The cell behind the place is neither that before it nor the header of the block. -/
lemma next_place_ne (hs : Sound areas h (pre ++ post) (x :: live)) :
    (post.map Span.offset).headD h.pxEnd ≠ (pre.map Span.offset).getLastD h.xStart ∧
      (post.map Span.offset).headD h.pxEnd ≠ x.offset := by
  have hpmem : (pre.map Span.offset).getLastD h.xStart ∈ h.xStart :: pre.map Span.offset :=
    List.getLastD_mem_cons
  have hnodup := hs.nodup
  rw [List.map_append, ← List.cons_append] at hnodup
  cases post with
  | nil =>
    rw [List.map_nil, List.headD_nil]
    refine ⟨?_, fun heq => hs.pxEnd_notMem_live (heq ▸ hs.offset_mem_live List.mem_cons_self)⟩
    rcases List.mem_cons.1 hpmem with heq | hmem
    · rw [heq]
      exact hs.pxEnd_ne_xStart
    · obtain ⟨u, hu, heq⟩ := List.mem_map.1 hmem
      rw [← heq]
      exact (hs.offset_lt (List.mem_append_left _ hu)).ne'
  | cons u post =>
    refine ⟨?_, hs.ne_offset_of_mem (List.mem_append_right _ List.mem_cons_self)⟩
    exact ((List.nodup_append.1 hnodup).2.2 _ hpmem _ List.mem_cons_self).symm

/-- The order of the blocks that are held does not matter. -/
lemma perm {live' : List Span} (hs : Sound areas h c live) (hp : live.Perm live') :
    Sound areas h c live' := by
  have hcov : covered live' = covered live := by
    ext b
    simp only [mem_covered, hp.mem_iff]
  constructor
  case fit => exact hs.fit
  case links => exact hs.links
  case size_eq => exact hs.size_eq
  case size_xStart => exact hs.size_xStart
  case size_pxEnd => exact hs.size_pxEnd
  case next_pxEnd => exact hs.next_pxEnd
  case header => exact fun t ht => hs.header t (hp.mem_iff.2 ht)
  case separated => exact hs.separated
  case aligned => exact hs.aligned
  case empty => exact hs.empty
  case live_aligned => exact fun t ht => hs.live_aligned t (hp.mem_iff.2 ht)
  case live_pos => exact fun t ht => hs.live_pos t (hp.mem_iff.2 ht)
  case live_apart => exact hp.pairwise hs.live_apart fun h => h.symm
  case live_subset => rw [hcov]; exact hs.live_subset
  case free => rw [hcov]; exact hs.free
  case sum_eq => rw [← (hp.map Span.length).sum_eq]; exact hs.sum_eq
  case remaining => exact hs.remaining

/-- The header of a block that was put back has no mark, in the list or not. -/
lemma size_offset_lt (hs : Sound areas h (pre ++ post) (x :: live)) {h₁ : Heap}
    (hu : h.Unmarked x h₁) {p : ℕ} (hp : (pre.map Span.offset).getLastD h.xStart = p)
    (hH : Heap.Inserted h₁ p (h₁.joined p x.offset) H)
    (hsound : Sound areas H (insertBlock pre x post) live) : H.size x.offset < 2 ^ 31 := by
  obtain ⟨pre', hinsert, -⟩ := hs.insertBlock_cases hu hp
  by_cases hx : x.offset = (h₁.joined p x.offset).offset
  · have hcell := (hs.cell_inserted hu hp hH).2
    rw [← hx] at hcell
    rw [hcell]
    refine hsound.length_lt ?_
    rw [hinsert]
    exact List.mem_append_right _ List.mem_cons_self
  · rw [hH.size, if_neg hx, hu.size, if_pos rfl]
    exact hs.length_live_lt List.mem_cons_self

/-- A block without the mark is not freed. -/
lemma free_of_unmarked {a : ℕ} (ha : a + 8 < 2 ^ 32) (hsize : h.size a < 2 ^ 31) :
    h.vPortFree (a + 8) = none := by
  have hlink : subSize (a + 8) xHeapStructSize = a := by
    rw [xHeapStructSize_eq, subSize_of_le (Nat.le_add_left 8 a) ha]
    omega
  have hnot : ¬ h.isAllocated a := by
    rw [Heap.isAllocated, not_not, and_allocated (hsize.trans (by decide))]
    exact hsize
  have hassert : configASSERT (h.isAllocated a) = none := if_neg hnot
  rw [Heap.vPortFree, if_pos (Nat.succ_ne_zero _), hlink]
  dsimp only
  rw [hassert]
  rfl

/-- The walk along the list stops at the cell before the place of the block. -/
lemma findPlace_of_unmarked (hs : Sound areas h (pre ++ post) (x :: live)) {h₁ : Heap}
    (hu : h.Unmarked x h₁) (hpre : ∀ u ∈ pre, u.offset < x.offset)
    (hlt : x.offset ≤ (post.map Span.offset).headD h.pxEnd) :
    h₁.findPlace x.offset = some ((pre.map Span.offset).getLastD h.xStart) := by
  have hl := hs.links
  rw [List.map_append] at hl
  have hpre' : h.Links h.xStart (pre.map Span.offset) ((post.map Span.offset).headD h.pxEnd) := by
    cases post with
    | nil => rwa [List.map_nil, List.headD_nil, ← List.append_nil (pre.map _)]
    | cons u post => exact hl.prefix
  have hlen := hs.length_le_cellCount
  rw [List.length_append] at hlen
  rw [Heap.findPlace, hu.xStart]
  refine Heap.whileLoop_findPlace hlt (hpre'.congr fun a _ => hu.next a) ?_
    (by rw [List.length_map]; omega)
  intro a ha
  obtain ⟨u, hu, rfl⟩ := List.mem_map.1 ha
  exact hpre u hu

/-- A block that is held can be freed, and not twice. -/
lemma free_of_live (hs : Sound areas h c (x :: live)) :
    ∃ H c', h.vPortFree (x.offset + 8) = some H ∧ Sound areas H c' live ∧
      (∀ a ∈ covered live, H.link a = h.link a) ∧
      H.xMinimumEverFreeBytesRemaining = h.xMinimumEverFreeBytesRemaining ∧
      H.vPortFree (x.offset + 8) = none := by
  have hx : x ∈ x :: live := List.mem_cons_self
  have hlen := hs.length_live_lt hx
  have hend := hs.fit.pxEnd_le
  have hpos := hs.live_pos x hx
  have hstop := hs.stop_le_of_live hx
  obtain ⟨hsize, hnext⟩ := hs.header x hx
  obtain ⟨pre, post, rfl, hpre, hpost⟩ := hs.exists_place
  have hsum := hs.sum_eq
  have hfit := hs.fit.sum_lt
  simp only [List.map_append, List.sum_append, List.map_cons, List.sum_cons] at hsum
  have hrem := hs.remaining
  rw [List.map_append, List.sum_append] at hrem
  rw [Span.stop] at hstop
  have hlink : subSize (x.offset + 8) xHeapStructSize = x.offset := by
    rw [xHeapStructSize_eq, subSize_of_le (by omega) (by omega)]
    omega
  have halloc : h.isAllocated x.offset := by
    rw [Heap.isAllocated, hsize, ne_eq, and_allocated (by omega)]
    omega
  -- the header without its mark
  let h₁ : Heap := { h.setSize x.offset x.length with
    xFreeBytesRemaining := h.xFreeBytesRemaining + x.length }
  have hu : h.Unmarked x h₁ :=
    ⟨rfl, rfl, fun a => Heap.next_setSize h _ _ a, fun a => Heap.size_setSize h _ _ a, rfl⟩
  obtain ⟨hlinks, -⟩ := hs.links_place
  obtain ⟨hpsize, hqsize⟩ := hs.size_place
  have hps := hs.stop_place
  obtain ⟨hqp, hqx⟩ := hs.next_place_ne
  have hpx : (pre.map Span.offset).getLastD h.xStart ≠ x.offset := fun heq =>
    (hs.place rfl).2.2 (heq ▸ hs.offset_mem_live hx)
  have hlt : x.offset ≤ (post.map Span.offset).headD h.pxEnd := by
    cases post with
    | nil => exact (Nat.le_add_right _ _).trans hstop
    | cons u post => exact (Nat.le_add_right _ _).trans (hpost u List.mem_cons_self)
  have hplace := hs.findPlace_of_unmarked hu (fun u hu => (hpre u hu).1) hlt
  generalize hp : (pre.map Span.offset).getLastD h.xStart = p at *
  generalize hq : (post.map Span.offset).headD h.pxEnd = q at *
  have hsize₁ : h₁.size x.offset = x.length := by rw [hu.size, if_pos rfl]
  obtain ⟨H, hinsert, hH⟩ := Heap.insert_spec hplace (by rw [hu.next, hlinks]; exact hqp)
    (by rw [hu.next, hlinks]; exact hqx) (by rw [hu.size, if_neg hpx]; exact hps)
    (by rw [hsize₁]; omega)
    (by rw [hu.next, hlinks, hsize₁, hu.size, hu.size, if_neg hpx, if_neg hqx]; omega)
  have hsound := hs.of_inserted hu hpre hpost hp hH
  have hframe := hs.link_eq_of_inserted hu hp hH
  have hoff := hs.size_offset_lt hu hp hH hsound
  have hadd : addSize (h.setSize x.offset x.length).xFreeBytesRemaining x.length =
      h.xFreeBytesRemaining + x.length := by
    refine addSize_of_lt ?_
    change h.xFreeBytesRemaining + x.length < _
    omega
  refine ⟨{ H with xNumberOfSuccessfulFrees := addSize H.xNumberOfSuccessfulFrees 1 },
    insertBlock pre x post, ?_, { hsound with }, hframe, hH.same.minimum,
    free_of_unmarked (by omega) hoff⟩
  rw [Heap.vPortFree, if_pos (by omega), hlink]
  simp only [configASSERT_of halloc, configASSERT_of hnext, Option.bind_eq_bind, Option.bind_some,
    if_pos halloc, if_pos hnext, hsize, and_not_allocated hlen]
  rw [Heap.size_setSize, if_pos rfl, hadd]
  change (h₁.prvInsertBlockIntoFreeList x.offset).bind _ = _
  rw [hinsert, Option.bind_some]

end Sound

end RT1064.Kernel
