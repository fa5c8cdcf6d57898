import RT1064.Kernel.HeapRuns
import RT1064.Kernel.HeapStats

/-!
# What the heap guarantees

Results about every run of the application, from the call of `vPortDefineHeapRegions` on.
-/

namespace RT1064.Kernel

open Core

namespace System

variable {h : Heap} {rs pxHeapRegions : List HeapRegion_t} {s : System} {ops : List Op}

/-- The areas of the regions. -/
def areasOf (rs : List HeapRegion_t) : List Span := rs.map HeapRegion_t.area

lemma run_eq {H : Heap} (hdef : h.vPortDefineHeapRegions pxHeapRegions = some H) (ops : List Op) :
    run h pxHeapRegions ops = ops.foldlM step ⟨H, []⟩ := by
  rw [run, hdef]
  rfl

/-- The heap is usable after it was made of the regions. -/
lemma Boots.exists_heap (hb : Boots h rs pxHeapRegions) :
    ∃ H, h.vPortDefineHeapRegions pxHeapRegions = some H ∧ Consistent (areasOf rs) ⟨H, []⟩ ∧
      H.xMinimumEverFreeBytesRemaining = H.xFreeBytesRemaining := by
  obtain ⟨hfit, hrs, ⟨z, tail, rfl, hz⟩, h0⟩ := hb
  obtain ⟨H, c, hdef, hsound, hmin⟩ := define_sound hfit hrs hz tail h0
  exact ⟨H, hdef, ⟨⟨c, hsound⟩, fun g hg => absurd hg List.not_mem_nil⟩, hmin⟩

lemma Boots.exists_run (hb : Boots h rs pxHeapRegions) (ops : List Op) :
    ∃ s, run h pxHeapRegions ops = some s ∧ Consistent (areasOf rs) s := by
  obtain ⟨H, hdef, hH, -⟩ := hb.exists_heap
  rw [run_eq hdef]
  exact foldlM_consistent hH ops

lemma Boots.consistent (hb : Boots h rs pxHeapRegions) (hrun : run h pxHeapRegions ops = some s) :
    Consistent (areasOf rs) s := by
  obtain ⟨t, ht, hs⟩ := hb.exists_run ops
  rw [hrun, Option.some_inj] at ht
  exact ht ▸ hs

/-- A heap before the first call, with its list head outside of the regions of the program. -/
def resetHeap : Heap where
  link := fun _ => ⟨0, 0⟩
  xStart := 0x20000000

/-- The program can begin with its own regions before the first call. -/
lemma boots_xHeapRegions (hx : h.xStart < 2 ^ 32)
    (hclear : h.xStart + 8 ≤ 0x20200000 ∨ 0x20240000 ≤ h.xStart) (h0 : h.pxEnd = 0) :
    Boots h (xHeapRegions.take 2) xHeapRegions where
  fit := regionsFit_xHeapRegions hx hclear
  ne_nil := List.cons_ne_nil _ _
  ends := ⟨⟨0, 0⟩, [], rfl, rfl⟩
  first := h0

lemma boots_resetHeap : Boots resetHeap (xHeapRegions.take 2) xHeapRegions :=
  boots_xHeapRegions (by decide) (.inl (by decide)) rfl

/-- What `ConfigureHeapRegions` makes of the heap before the first call, and where every run
begins: two blocks, one in each region, of which nothing has been granted. -/
theorem configureHeapRegions_eq (hx : h.xStart < 2 ^ 32)
    (hclear : h.xStart + 8 ≤ 0x20200000 ∨ 0x20240000 ≤ h.xStart) (h0 : h.pxEnd = 0) :
    ∃ H, ConfigureHeapRegions h = some H ∧ H.xPortGetFreeHeapSize = 2 * (128 * 1024 - 8) ∧
      H.xPortGetMinimumEverFreeHeapSize = 2 * (128 * 1024 - 8) ∧
      ∀ ops, run h xHeapRegions ops = ops.foldlM step ⟨H, []⟩ := by
  obtain ⟨H, hdef, ⟨⟨c, hsound⟩, -⟩, hmin⟩ := (boots_xHeapRegions hx hclear h0).exists_heap
  have hfree : H.xFreeBytesRemaining = 2 * (128 * 1024 - 8) := by
    have hsum := hsound.sum_eq
    rw [show (blocks ⟨H, []⟩ : List Span) = [] from rfl, List.map_nil, List.sum_nil,
      Nat.add_zero] at hsum
    rw [hsound.remaining, hsum]
    decide
  exact ⟨H, hdef, hfree, hmin.trans hfree, run_eq hdef⟩

/-! ### Safety -/

/-- No run stops, and what is granted is aligned, in a region, large enough and apart from all
else that is granted. -/
theorem run_grants (hb : Boots h rs pxHeapRegions) (ops : List Op) :
    ∃ s, run h pxHeapRegions ops = some s ∧
      (∀ g ∈ s.held, 8 ∣ g.pv ∧ ∃ r ∈ rs, r.pucStartAddress + 8 ≤ g.pv ∧
        g.pv + g.xWantedSize + 8 ≤ r.pucStartAddress + r.xSizeInBytes) ∧
      s.held.Pairwise fun g g' =>
        g.pv + g.xWantedSize + 8 ≤ g'.pv ∨ g'.pv + g'.xWantedSize + 8 ≤ g.pv := by
  obtain ⟨s, hrun, hs⟩ := hb.exists_run ops
  obtain ⟨c, hc⟩ := hs.sound
  have hlen : ∀ g ∈ s.held, g.pv + g.xWantedSize ≤ g.block.stop := by
    intro g hg
    have := (hs.wanted g hg).2
    rw [Grant.pv, Span.stop]
    rw [paddedSize] at this
    omega
  refine ⟨s, hrun, fun g hg => ?_, ?_⟩
  · have hblock : g.block ∈ s.blocks := List.mem_map_of_mem hg
    have hpos := hc.live_pos _ hblock
    have hrun : IsRun (covered (areasOf rs)) g.block.offset g.block.length := fun b hb hb' =>
      hc.live_subset ⟨g.block, hblock, hb, hb'⟩
    obtain ⟨t, ht, hoff, hstop⟩ := hc.fit.separated.exists_block hpos hrun
    obtain ⟨r, hr, rfl⟩ := List.mem_map.1 ht
    obtain ⟨h1, h2, h3, h4⟩ := (hb.fit.fits r hr).area_bounds
    have hle := hlen g hg
    rw [Span.stop] at hle
    refine ⟨Nat.dvd_add (hc.live_aligned _ hblock).1 (dvd_refl 8), r, hr, ?_, ?_⟩
    · rw [Grant.pv]
      omega
    · omega
  · refine (List.pairwise_map.1 hc.live_apart).imp_of_mem fun {g g'} hg hg' hor => ?_
    have h1 := hlen g hg
    have h2 := hlen g' hg'
    rw [Grant.pv] at h1 h2 ⊢
    rw [Grant.pv]
    omega

theorem run_grants_resetHeap :
    ∃ s, run resetHeap xHeapRegions [.malloc 100, .malloc 24, .free 1] = some s ∧
      (∀ g ∈ s.held, 8 ∣ g.pv ∧ ∃ r ∈ xHeapRegions.take 2, r.pucStartAddress + 8 ≤ g.pv ∧
        g.pv + g.xWantedSize + 8 ≤ r.pucStartAddress + r.xSizeInBytes) ∧
      s.held.Pairwise fun g g' =>
        g.pv + g.xWantedSize + 8 ≤ g'.pv ∨ g'.pv + g'.xWantedSize + 8 ≤ g.pv :=
  run_grants boots_resetHeap _

/-! ### First fit -/

/-- A run of free addresses is part of one region. -/
lemma Consistent.run_lt {areas : List Span} (hs : Consistent areas s) {a n : ℕ}
    (hrun : IsRun (s.free areas) a n) : n < 2 ^ 31 := by
  obtain ⟨c, hc⟩ := hs.sound
  rw [free, ← hc.free] at hrun
  by_cases hn : 0 < n
  · obtain ⟨t, ht, hta, hat⟩ := hc.separated.exists_block hn hrun
    have := hc.length_lt ht
    rw [Span.stop] at hat
    omega
  · omega

/-- The answer to a request after any run: `NULL` if and only if no block for it fits anywhere, and
the lowest address for one otherwise. -/
theorem malloc_after_run (hb : Boots h rs pxHeapRegions) (hrun : run h pxHeapRegions ops = some s)
    (n : BitVec 32) : ∃ pv H, s.heap.pvPortMalloc n.toNat = some (pv, H) ∧
      (pv = 0 ↔ n.toNat = 0 ∨ ∀ a, ¬ IsRun (s.free (areasOf rs)) a (paddedSize n.toNat)) ∧
      (pv ≠ 0 → 8 ≤ pv ∧
        IsLeast {a | IsRun (s.free (areasOf rs)) a (paddedSize n.toNat)} (pv - 8)) := by
  have hs := hb.consistent hrun
  obtain ⟨pv, s', hmalloc, -, hreq, -⟩ := step_malloc hs n
  refine ⟨pv, s'.heap, hmalloc, ?_⟩
  cases hreq with
  | granted hn hb =>
    have hleast := hb.least
    refine ⟨iff_of_false (Nat.succ_ne_zero _) ?_, fun _ => ⟨Nat.le_add_left 8 _, ?_⟩⟩
    · rintro (h0 | hno)
      · exact absurd h0 (Nat.ne_of_gt hn.1)
      · exact hno _ hleast.1
    · rwa [Nat.add_sub_cancel]
  | refused hno =>
    refine ⟨iff_of_true rfl ?_, fun hne => absurd rfl hne⟩
    by_cases h0 : n.toNat = 0
    · exact .inl h0
    · exact .inr fun a hrun => hno ⟨Nat.pos_of_ne_zero h0, hs.run_lt hrun⟩ a hrun

theorem malloc_after_run_resetHeap :
    ∃ s pv H, run resetHeap xHeapRegions [.malloc 100, .malloc 24, .free 1] = some s ∧
      s.heap.pvPortMalloc 64 = some (pv, H) ∧ (pv ≠ 0 → 8 ≤ pv) := by
  obtain ⟨s, hrun, -⟩ := boots_resetHeap.exists_run [.malloc 100, .malloc 24, .free 1]
  obtain ⟨pv, H, hmalloc, -, hleast⟩ := malloc_after_run boots_resetHeap hrun 64
  exact ⟨s, pv, H, hrun, hmalloc, fun hpv => (hleast hpv).1⟩

/-! ### The counters -/

lemma Consistent.remaining_add {areas : List Span} (hs : Consistent areas s) :
    s.heap.xPortGetFreeHeapSize + (s.blocks.map Span.length).sum = (areas.map Span.length).sum := by
  obtain ⟨c, hc⟩ := hs.sound
  rw [Heap.xPortGetFreeHeapSize, hc.remaining, hc.sum_eq]

lemma sum_length_eraseIdx (l : List ℕ) (i : ℕ) : (l.eraseIdx i).sum ≤ l.sum :=
  (List.eraseIdx_sublist l i).sum_le_sum fun _ _ => Nat.zero_le _

/-- Every step takes the minimum along. -/
lemma step_minimum {areas : List Span} (hs : Consistent areas s) {s' : System} {op : Op}
    (hle : s.heap.xMinimumEverFreeBytesRemaining ≤ s.heap.xFreeBytesRemaining)
    (hstep : s.step op = some s') : s'.heap.xMinimumEverFreeBytesRemaining =
      min s.heap.xMinimumEverFreeBytesRemaining s'.heap.xFreeBytesRemaining := by
  cases op with
  | malloc n =>
    obtain ⟨pv, t, -, ht, hreq, -⟩ := step_malloc hs n
    obtain rfl := Option.some_inj.1 (ht.symm.trans hstep)
    cases hreq with
    | granted _ _ _ hmin => exact hmin
    | refused _ => exact (min_eq_left hle).symm
  | free i =>
    obtain ⟨t, ht, hfreed, hcons⟩ := step_free hs i
    obtain rfl := Option.some_inj.1 (ht.symm.trans hstep)
    have h1 := hs.remaining_add
    have h2 := hcons.remaining_add
    have h3 : (t.blocks.map Span.length).sum ≤ (s.blocks.map Span.length).sum := by
      rw [blocks, blocks, hfreed.held, List.map_map, List.map_map, ← List.eraseIdx_map]
      exact sum_length_eraseIdx _ i
    rw [Heap.xPortGetFreeHeapSize] at h1 h2
    rw [hfreed.minimum, min_eq_left (by omega)]
  | write i contents =>
    obtain ⟨t, ht, hwritten, -⟩ := step_write hs i contents
    obtain rfl := Option.some_inj.1 (ht.symm.trans hstep)
    rw [hwritten.minimum, hwritten.remaining, min_eq_left hle]

/-- The free sizes in the course of a run. -/
def freeSizes (s : System) (ops : List Op) : Set ℕ :=
  {v | ∃ pre, pre <+: ops ∧ ∃ t, pre.foldlM step s = some t ∧ t.heap.xPortGetFreeHeapSize = v}

lemma freeSizes_cons {s t : System} {op : Op} (hstep : s.step op = some t) (ops : List Op) :
    s.freeSizes (op :: ops) = {s.heap.xPortGetFreeHeapSize} ∪ t.freeSizes ops := by
  ext v
  constructor
  · rintro ⟨pre, hpre, u, hu, rfl⟩
    cases pre with
    | nil =>
      obtain rfl := Option.some_inj.1 hu
      exact .inl rfl
    | cons op' pre =>
      obtain ⟨rfl, hpre'⟩ := List.cons_prefix_cons.1 hpre
      rw [List.foldlM_cons, hstep] at hu
      exact .inr ⟨pre, hpre', u, hu, rfl⟩
  · rintro (rfl | ⟨pre, hpre, u, hu, rfl⟩)
    · exact ⟨[], List.nil_prefix, s, rfl, rfl⟩
    · refine ⟨op :: pre, List.cons_prefix_cons.2 ⟨rfl, hpre⟩, u, ?_, rfl⟩
      rw [List.foldlM_cons, hstep]
      exact hu

lemma isLeast_minimum {areas : List Span} {s₀ : System} (hs : Consistent areas s₀)
    (hle : s₀.heap.xMinimumEverFreeBytesRemaining ≤ s₀.heap.xFreeBytesRemaining) {ops : List Op}
    (hrun : ops.foldlM step s₀ = some s) :
    IsLeast ({s₀.heap.xMinimumEverFreeBytesRemaining} ∪ s₀.freeSizes ops)
      s.heap.xMinimumEverFreeBytesRemaining := by
  induction ops generalizing s₀ with
  | nil =>
    obtain rfl := Option.some_inj.1 hrun
    refine ⟨.inl rfl, ?_⟩
    rintro v (rfl | ⟨pre, hpre, t, ht, rfl⟩)
    · exact le_rfl
    · obtain rfl := List.prefix_nil.1 hpre
      obtain rfl := Option.some_inj.1 ht
      exact hle
  | cons op ops ih =>
    rw [List.foldlM_cons] at hrun
    obtain ⟨t, hstep, hrun⟩ := Option.bind_eq_some_iff.1 hrun
    obtain ⟨t', ht', hcons⟩ := step_consistent hs op
    obtain rfl := Option.some_inj.1 (ht'.symm.trans hstep)
    have hmin := step_minimum hs hle hstep
    obtain ⟨hmem, hlow⟩ := ih hcons (hmin.trans_le (min_le_right _ _)) hrun
    have hself : t'.heap.xFreeBytesRemaining ∈ t'.freeSizes ops :=
      ⟨[], List.nil_prefix, t', rfl, rfl⟩
    have hlt := hlow (.inl rfl)
    rw [freeSizes_cons hstep]
    constructor
    · rcases hmem with heq | hmem
      · rw [Set.mem_singleton_iff.1 heq, hmin]
        rcases min_choice s₀.heap.xMinimumEverFreeBytesRemaining t'.heap.xFreeBytesRemaining with
          h1 | h1
        · exact .inl h1
        · rw [h1]
          exact .inr (.inr hself)
      · exact .inr (.inr hmem)
    · rintro v (rfl | rfl | hv)
      · exact hlt.trans (hmin.trans_le (min_le_left _ _))
      · exact (hlt.trans (hmin.trans_le (min_le_left _ _))).trans hle
      · exact hlow (.inr hv)

/-- Free and held bytes are all bytes after any run, and the minimum that the heap reports is the
least free size that there was in the course of it. -/
theorem counters_after_run (hb : Boots h rs pxHeapRegions)
    (hrun : run h pxHeapRegions ops = some s) :
    s.heap.xPortGetFreeHeapSize + (s.held.map fun g => g.block.length).sum =
        ((areasOf rs).map Span.length).sum ∧
      IsLeast {v | ∃ pre, pre <+: ops ∧ ∃ t, run h pxHeapRegions pre = some t ∧
        t.heap.xPortGetFreeHeapSize = v} s.heap.xPortGetMinimumEverFreeHeapSize := by
  have hsum := (hb.consistent hrun).remaining_add
  rw [blocks, List.map_map] at hsum
  obtain ⟨H, hdef, hH, hmin⟩ := hb.exists_heap
  simp only [run_eq hdef] at hrun ⊢
  have hleast := isLeast_minimum hH hmin.le hrun
  have hself : H.xFreeBytesRemaining ∈ freeSizes ⟨H, []⟩ ops :=
    ⟨[], List.nil_prefix, _, rfl, rfl⟩
  rw [hmin, Set.union_eq_self_of_subset_left (Set.singleton_subset_iff.2 hself)] at hleast
  exact ⟨hsum, hleast⟩

theorem counters_after_run_resetHeap :
    ∃ s, run resetHeap xHeapRegions [.malloc 100, .malloc 24, .free 1] = some s ∧
      s.heap.xPortGetFreeHeapSize + (s.held.map fun g => g.block.length).sum = 262128 := by
  obtain ⟨s, hrun, -⟩ := boots_resetHeap.exists_run [.malloc 100, .malloc 24, .free 1]
  exact ⟨s, hrun, (counters_after_run boots_resetHeap hrun).1⟩

/-! ### The contents -/

/-- The step frees or writes the grant `g`. -/
def Names (s : System) (g : Grant) : Op → Prop
  | .malloc _  => False
  | .free i    => s.held[i]? = some g
  | .write i _ => s.held[i]? = some g

/-- No step of the run frees or writes the grant `g`. -/
def Untouched (g : Grant) : System → List Op → Prop
  | _, []        => True
  | s, op :: ops => ¬ s.Names g op ∧ ∀ s', s.step op = some s' → Untouched g s' ops

/-- Nothing but its holder changes what is in a block, the header included, or takes it away. -/
lemma step_untouched {areas : List Span} (hs : Consistent areas s) {s' : System} {op : Op}
    {g : Grant} (hg : g ∈ s.held) (hop : ¬ s.Names g op) (hstep : s.step op = some s') :
    g ∈ s'.held ∧ ∀ a, g.block.Covers a → s'.heap.link a = s.heap.link a := by
  have hblock : ∀ {t : System}, g ∈ t.held → ∀ a, g.block.Covers a → a ∈ covered t.blocks :=
    fun hgt a ha => ⟨g.block, List.mem_map_of_mem hgt, ha⟩
  cases op with
  | malloc n =>
    obtain ⟨pv, t, -, ht, hreq, -⟩ := step_malloc hs n
    obtain rfl := Option.some_inj.1 (ht.symm.trans hstep)
    cases hreq with
    | granted _ _ hlink _ =>
      exact ⟨List.mem_cons_of_mem _ hg, fun a ha => hlink a (hblock hg a ha)⟩
    | refused _ => exact ⟨hg, fun a _ => rfl⟩
  | free i =>
    obtain ⟨t, ht, hfreed, -⟩ := step_free hs i
    obtain rfl := Option.some_inj.1 (ht.symm.trans hstep)
    have hmem : g ∈ t.held := by
      obtain ⟨j, hj⟩ := List.mem_iff_getElem?.1 hg
      rw [hfreed.held, List.mem_eraseIdx_iff_getElem?]
      exact ⟨j, fun heq => hop (heq ▸ hj), hj⟩
    exact ⟨hmem, fun a ha => hfreed.link a (hblock hmem a ha)⟩
  | write i contents =>
    obtain ⟨t, ht, hwritten, -⟩ := step_write hs i contents
    obtain rfl := Option.some_inj.1 (ht.symm.trans hstep)
    refine ⟨hwritten.held ▸ hg, fun a ha => hwritten.link a fun g' hg' hcov => ?_⟩
    have hg'mem := List.mem_of_getElem? hg'
    have hne : g ≠ g' := fun heq => hop (heq ▸ hg')
    obtain ⟨h1, h2⟩ := covers_block hs hg'mem hcov
    obtain ⟨c, hc⟩ := hs.sound
    have : Std.Symm fun g g' : Grant =>
        g.block.stop ≤ g'.block.offset ∨ g'.block.stop ≤ g.block.offset := ⟨fun _ _ => Or.symm⟩
    have hor := (List.pairwise_map.1 hc.live_apart).forall hg hg'mem hne
    have h3 := ha.1
    have h4 := ha.2
    omega

/-- Over a run the contents of a block stay what they were, whatever else is requested, freed and
written in the meantime. -/
theorem contents_after_run (hb : Boots h rs pxHeapRegions)
    (hrun : run h pxHeapRegions ops = some s) {g : Grant} (hg : g ∈ s.held) {more : List Op}
    (hmore : Untouched g s more) : ∃ t, more.foldlM step s = some t ∧ g ∈ t.held ∧
      ∀ a, g.block.Covers a → t.heap.link a = s.heap.link a := by
  have hs := hb.consistent hrun
  clear hrun
  induction more generalizing s with
  | nil => exact ⟨s, rfl, hg, fun a _ => rfl⟩
  | cons op more ih =>
    obtain ⟨hop, hrest⟩ := hmore
    obtain ⟨s', hstep, hs'⟩ := step_consistent hs op
    obtain ⟨hg', hlink⟩ := step_untouched hs hg hop hstep
    obtain ⟨t, ht, hgt, hlink'⟩ := ih hg' (hrest s' hstep) hs'
    refine ⟨t, ?_, hgt, fun a ha => (hlink' a ha).trans (hlink a ha)⟩
    rw [List.foldlM_cons, hstep]
    exact ht

theorem contents_after_run_resetHeap :
    ∃ s t g, run resetHeap xHeapRegions [.malloc 100] = some s ∧ g ∈ s.held ∧
      [.malloc 24, .malloc 8].foldlM step s = some t ∧
      ∀ a, g.block.Covers a → t.heap.link a = s.heap.link a := by
  obtain ⟨s, hrun, -⟩ := boots_resetHeap.exists_run [.malloc 100]
  have hheld : (run resetHeap xHeapRegions [.malloc 100]).map held =
      some [⟨⟨0x20200000, 112⟩, 100⟩] := by decide +kernel
  rw [hrun, Option.map_some, Option.some_inj] at hheld
  have hg : ⟨⟨0x20200000, 112⟩, 100⟩ ∈ s.held := hheld ▸ List.mem_cons_self
  have huntouched : Untouched ⟨⟨0x20200000, 112⟩, 100⟩ s [.malloc 24, .malloc 8] :=
    ⟨id, fun _ _ => ⟨id, fun _ _ => trivial⟩⟩
  obtain ⟨t, ht, -, hlink⟩ := contents_after_run boots_resetHeap hrun hg huntouched
  exact ⟨s, t, _, hrun, hg, ht, hlink⟩

/-! ### No memory of the past -/

/-- A call of the application, which names a piece by its pointer. -/
inductive Call
  | malloc (xWantedSize : BitVec 32)
  | free (pv : ℕ)
  | write (pv : ℕ) (contents : ℕ → BlockLink_t)

/-- The number of the piece that a pointer points to. -/
def number (s : System) (pv : ℕ) : ℕ := s.held.findIdx fun g => g.pv = pv

/-- The answer to a call, and the state after it. -/
def call (s : System) : Call → Option (ℕ × System)
  | .malloc n          => do
    let (pv, h) ← s.heap.pvPortMalloc n.toNat
    some (pv, s.receive n.toNat pv h)
  | .free pv           => (s.step (.free (s.number pv))).map (0, ·)
  | .write pv contents => (s.step (.write (s.number pv) contents)).map (0, ·)

/-- The answers to a sequence of calls, and the state after it. -/
def answers (s : System) : List Call → Option (List ℕ × System)
  | []      => some ([], s)
  | c :: cs => do
    let (pv, s) ← s.call c
    let (pvs, s) ← s.answers cs
    some (pv :: pvs, s)

/-- The two systems hold the same blocks, in whatever order and for whatever requests. -/
def SameBlocks (s₁ s₂ : System) : Prop := ∀ b, b ∈ s₁.blocks ↔ b ∈ s₂.blocks

lemma SameBlocks.free_eq {s₁ s₂ : System} (h : SameBlocks s₁ s₂) (areas : List Span) :
    s₁.free areas = s₂.free areas := by
  have hcovered : covered s₁.blocks = covered s₂.blocks := by
    ext a
    exact exists_congr fun b => and_congr_left' (h b)
  rw [free, free, hcovered]

/-- No two pieces have the same pointer. -/
lemma Consistent.eq_of_pv_eq {areas : List Span} (hs : Consistent areas s) {i j : ℕ} {g g' : Grant}
    (hi : s.held[i]? = some g) (hj : s.held[j]? = some g') (hpv : g.pv = g'.pv) : i = j := by
  obtain ⟨c, hc⟩ := hs.sound
  have hapart := List.pairwise_iff_getElem.1 (List.pairwise_map.1 hc.live_apart)
  obtain ⟨hi', rfl⟩ := List.getElem?_eq_some_iff.1 hi
  obtain ⟨hj', rfl⟩ := List.getElem?_eq_some_iff.1 hj
  have h1 := hc.live_pos _ (List.mem_map_of_mem (List.getElem_mem hi'))
  have h2 := hc.live_pos _ (List.mem_map_of_mem (List.getElem_mem hj'))
  rw [Grant.pv, Grant.pv] at hpv
  rcases Nat.lt_trichotomy i j with hlt | heq | hlt
  · have := hapart i j hi' hj' hlt
    rw [Span.stop, Span.stop] at this
    omega
  · exact heq
  · have := hapart j i hj' hi' hlt
    rw [Span.stop, Span.stop] at this
    omega

lemma pv_of_number {pv : ℕ} {g : Grant} (h : s.held[s.number pv]? = some g) : g.pv = pv :=
  of_decide_eq_true (List.findIdx_of_getElem?_eq_some (p := fun g : Grant => g.pv = pv) h)

lemma exists_of_number {g : Grant} (hg : g ∈ s.held) :
    ∃ g', s.held[s.number g.pv]? = some g' :=
  ⟨_, List.findIdx_getElem?_eq_getElem_of_exists ⟨g, hg, decide_eq_true rfl⟩⟩

/-- The blocks that are left when a pointer is freed. -/
lemma Freed.mem_blocks {areas : List Span} (hs : Consistent areas s) {pv : ℕ} {t : System}
    (hfreed : Freed s (s.number pv) t) (b : Span) :
    b ∈ t.blocks ↔ b ∈ s.blocks ∧ b.offset + 8 ≠ pv := by
  rw [blocks, blocks, hfreed.held]
  constructor
  · intro hb
    obtain ⟨g, hg, rfl⟩ := List.mem_map.1 hb
    obtain ⟨i, hi, hget⟩ := List.mem_eraseIdx_iff_getElem?.1 hg
    have hmem := List.mem_of_getElem? hget
    refine ⟨List.mem_map_of_mem hmem, ?_⟩
    rintro rfl
    obtain ⟨g', hg'⟩ := exists_of_number hmem
    exact hi (hs.eq_of_pv_eq hget hg' (pv_of_number hg').symm)
  · rintro ⟨hb, hpv⟩
    obtain ⟨g, hg, rfl⟩ := List.mem_map.1 hb
    obtain ⟨i, hget⟩ := List.mem_iff_getElem?.1 hg
    refine List.mem_map_of_mem (List.mem_eraseIdx_iff_getElem?.2 ⟨i, ?_, hget⟩)
    rintro rfl
    exact hpv (pv_of_number hget)

lemma call_malloc {n : BitVec 32} {pv : ℕ} {t : System}
    (hmalloc : s.heap.pvPortMalloc n.toNat = some (pv, t.heap))
    (hstep : s.step (.malloc n) = some t) : s.call (.malloc n) = some (pv, t) := by
  rw [step, hmalloc] at hstep
  rw [call, hmalloc]
  exact congrArg (Option.map (pv, ·)) hstep

/-- Where the same blocks are held a call gets the same answer, and the same blocks are held after
it. -/
lemma call_of_sameBlocks {areas : List Span} {s₁ s₂ : System} (h₁ : Consistent areas s₁)
    (h₂ : Consistent areas s₂) (hsame : SameBlocks s₁ s₂) (c : Call) :
    ∃ pv t₁ t₂, s₁.call c = some (pv, t₁) ∧ s₂.call c = some (pv, t₂) ∧ Consistent areas t₁ ∧
      Consistent areas t₂ ∧ SameBlocks t₁ t₂ := by
  have hfree := hsame.free_eq areas
  cases c with
  | malloc n =>
    obtain ⟨pv₁, t₁, hm₁, ht₁, hreq₁, hc₁⟩ := step_malloc h₁ n
    obtain ⟨pv₂, t₂, hm₂, ht₂, hreq₂, hc₂⟩ := step_malloc h₂ n
    have hcall₁ := call_malloc hm₁ ht₁
    have hcall₂ := call_malloc hm₂ ht₂
    cases hreq₁ with
    | granted hn hb₁ =>
      cases hreq₂ with
      | granted _ hb₂ =>
        rw [hfree] at hb₁
        obtain rfl := hb₁.unique hb₂
        refine ⟨_, _, _, hcall₁, hcall₂, hc₁, hc₂, fun b' => ?_⟩
        exact List.mem_cons.trans ((or_congr_right (hsame b')).trans List.mem_cons.symm)
      | refused hno => exact absurd (hfree ▸ hb₁.least.1) (hno hn _)
    | refused hno =>
      cases hreq₂ with
      | granted hn hb₂ => exact absurd (hfree ▸ hb₂.least.1) (hno hn _)
      | refused _ => exact ⟨_, _, _, hcall₁, hcall₂, hc₁, hc₂, hsame⟩
  | free pv =>
    obtain ⟨t₁, ht₁, hfreed₁, hc₁⟩ := step_free h₁ (s₁.number pv)
    obtain ⟨t₂, ht₂, hfreed₂, hc₂⟩ := step_free h₂ (s₂.number pv)
    refine ⟨0, t₁, t₂, by rw [call, ht₁]; rfl, by rw [call, ht₂]; rfl, hc₁, hc₂, fun b => ?_⟩
    rw [hfreed₁.mem_blocks h₁, hfreed₂.mem_blocks h₂, hsame b]
  | write pv contents =>
    obtain ⟨t₁, ht₁, hw₁, hc₁⟩ := step_write h₁ (s₁.number pv) contents
    obtain ⟨t₂, ht₂, hw₂, hc₂⟩ := step_write h₂ (s₂.number pv) contents
    refine ⟨0, t₁, t₂, by rw [call, ht₁]; rfl, by rw [call, ht₂]; rfl, hc₁, hc₂, fun b => ?_⟩
    rw [blocks, blocks, hw₁.held, hw₂.held]
    exact hsame b

/-- Two runs that end with the same blocks held get the same answers from then on, in whatever
order and for whatever requests the blocks were granted. -/
theorem answers_after_run {h' : Heap} {pxHeapRegions' : List HeapRegion_t} {ops' : List Op}
    {s' : System} (hb : Boots h rs pxHeapRegions) (hb' : Boots h' rs pxHeapRegions')
    (hrun : run h pxHeapRegions ops = some s) (hrun' : run h' pxHeapRegions' ops' = some s')
    (hsame : SameBlocks s s') (calls : List Call) :
    ∃ pvs t t', s.answers calls = some (pvs, t) ∧ s'.answers calls = some (pvs, t') ∧
      SameBlocks t t' := by
  have hs := hb.consistent hrun
  have hs' := hb'.consistent hrun'
  clear hrun hrun'
  induction calls generalizing s s' with
  | nil => exact ⟨[], s, s', rfl, rfl, hsame⟩
  | cons c calls ih =>
    obtain ⟨pv, u, u', hu, hu', hc, hc', huu⟩ := call_of_sameBlocks hs hs' hsame c
    obtain ⟨pvs, t, t', ht, ht', htt⟩ := ih huu hc hc'
    refine ⟨pv :: pvs, t, t', ?_, ?_, htt⟩
    · simp only [answers, hu, ht, Option.bind_eq_bind, Option.bind_some]
    · simp only [answers, hu', ht', Option.bind_eq_bind, Option.bind_some]

/-- The first block granted once for 100 bytes and once, after it was freed, for 99. -/
theorem answers_after_run_resetHeap :
    ∃ s s' pvs t t', run resetHeap xHeapRegions [.malloc 100, .malloc 24] = some s ∧
      run resetHeap xHeapRegions [.malloc 100, .malloc 24, .free 1, .malloc 99] = some s' ∧
      s.held = [⟨⟨0x20200070, 32⟩, 24⟩, ⟨⟨0x20200000, 112⟩, 100⟩] ∧
      s'.held = [⟨⟨0x20200000, 112⟩, 99⟩, ⟨⟨0x20200070, 32⟩, 24⟩] ∧
      s.answers [.free 0x20200008, .malloc 64, .malloc 200] = some (pvs, t) ∧
      s'.answers [.free 0x20200008, .malloc 64, .malloc 200] = some (pvs, t') := by
  obtain ⟨s, hrun, -⟩ := boots_resetHeap.exists_run [.malloc 100, .malloc 24]
  obtain ⟨s', hrun', -⟩ :=
    boots_resetHeap.exists_run [.malloc 100, .malloc 24, .free 1, .malloc 99]
  have hheld : (run resetHeap xHeapRegions [.malloc 100, .malloc 24]).map held =
      some [⟨⟨0x20200070, 32⟩, 24⟩, ⟨⟨0x20200000, 112⟩, 100⟩] := by decide +kernel
  have hheld' : (run resetHeap xHeapRegions [.malloc 100, .malloc 24, .free 1, .malloc 99]).map
      held = some [⟨⟨0x20200000, 112⟩, 99⟩, ⟨⟨0x20200070, 32⟩, 24⟩] := by decide +kernel
  rw [hrun, Option.map_some, Option.some_inj] at hheld
  rw [hrun', Option.map_some, Option.some_inj] at hheld'
  have hsame : SameBlocks s s' := fun b => by
    rw [blocks, blocks, hheld, hheld']
    exact (List.Perm.swap _ _ []).mem_iff
  obtain ⟨pvs, t, t', ht, ht', -⟩ := answers_after_run boots_resetHeap boots_resetHeap hrun hrun'
    hsame [.free 0x20200008, .malloc 64, .malloc 200]
  exact ⟨s, s', pvs, t, t', hrun, hrun', hheld, hheld', ht, ht'⟩

/-! ### The statistics -/

/-- What the statistics say after any run. A request fails if and only if its block is longer than
the largest free one; the number of free blocks counts end markers of regions too. -/
theorem stats_after_run (hb : Boots h rs pxHeapRegions) (hrun : run h pxHeapRegions ops = some s) :
    ∃ st, s.heap.vPortGetHeapStats = some st ∧
      (∀ n : BitVec 32, n.toNat ≠ 0 → ((∃ H, s.heap.pvPortMalloc n.toNat = some (0, H)) ↔
        st.xSizeOfLargestFreeBlockInBytes < paddedSize n.toNat)) ∧
      (∀ t, MaximalRun (s.free (areasOf rs)) t → st.xSizeOfSmallestFreeBlockInBytes ≤ t.length ∧
        t.length ≤ st.xSizeOfLargestFreeBlockInBytes) ∧
      (st.xSizeOfLargestFreeBlockInBytes = 0 ∨ ∃ t, MaximalRun (s.free (areasOf rs)) t ∧
        t.length = st.xSizeOfLargestFreeBlockInBytes) ∧
      (st.xSizeOfSmallestFreeBlockInBytes = portMAX_DELAY.toNat ∨
        ∃ t, MaximalRun (s.free (areasOf rs)) t ∧
          t.length = st.xSizeOfSmallestFreeBlockInBytes) ∧
      {t | MaximalRun (s.free (areasOf rs)) t}.ncard ≤ st.xNumberOfFreeBlocks ∧
      st.xNumberOfFreeBlocks < {t | MaximalRun (s.free (areasOf rs)) t}.ncard + rs.length := by
  have hs := hb.consistent hrun
  obtain ⟨c, hc⟩ := hs.sound
  have hfree : s.free (areasOf rs) = covered c := hc.free.symm
  obtain ⟨w, ⟨hblocks, hmax, hmax', hmin, hmin'⟩, hstats⟩ := hc.stats
  refine ⟨_, hstats, fun n hn => ?_, fun t ht => ?_, ?_, ?_, ?_, ?_⟩
  · obtain ⟨pv, s', hmalloc, -, hreq, -⟩ := step_malloc hs n
    have hpos := paddedSize_pos n.toNat
    rw [hmalloc]
    cases hreq with
    | granted _ hbl =>
      refine iff_of_false ?_ (Nat.not_lt.2 ?_)
      · rintro ⟨H, hH⟩
        exact Nat.succ_ne_zero _ (Prod.ext_iff.1 (Option.some_inj.1 hH)).1
      · have hrun := hbl.least.1
        rw [hfree] at hrun
        obtain ⟨t, ht, hta, hat⟩ := hc.separated.exists_block hpos hrun
        have := hmax _ (List.mem_map_of_mem ht)
        rw [Span.stop] at hat
        dsimp only
        omega
    | refused hno =>
      refine iff_of_true ⟨_, rfl⟩ (Nat.lt_of_not_le fun hle => ?_)
      dsimp only at hle
      obtain ⟨t, ht, heq⟩ := List.mem_map.1 (hmax'.resolve_left (by omega))
      have hlt := hc.length_lt ht
      refine hno ⟨Nat.pos_of_ne_zero hn, by omega⟩ t.offset ?_
      rw [hfree]
      exact isRun_of_mem ht (by omega)
  · rw [hfree, hc.separated.maximalRun_iff] at ht
    have hmem : t.length ∈ c.map Span.length := List.mem_map_of_mem ht.1
    exact ⟨hmin _ hmem ht.2.ne', hmax _ hmem⟩
  · rw [hfree]
    refine or_iff_not_imp_left.2 fun h0 => ?_
    exact hc.separated.exists_maximalRun (hmax'.resolve_left h0) h0
  · rw [hfree]
    exact hmin'.imp_right fun hboth => hc.separated.exists_maximalRun hboth.1 hboth.2
  · rw [hfree, ncard_maximalRun hc.separated]
    exact (List.length_filter_le _ c).trans_eq (hblocks.trans (List.length_map _)).symm
  · have hsplit := List.length_eq_length_filter_add (l := c) fun t => 0 < t.length
    have hlt := hc.length_filter_lt
    rw [areasOf, List.length_map] at hlt
    rw [List.length_map] at hblocks
    rw [hfree, ncard_maximalRun hc.separated]
    simp only [decide_not] at hlt
    dsimp only
    omega

theorem stats_after_run_resetHeap :
    ∃ s st, run resetHeap xHeapRegions [.malloc 100, .malloc 24, .free 1] = some s ∧
      s.heap.vPortGetHeapStats = some st ∧
      ((∃ H, s.heap.pvPortMalloc 64 = some (0, H)) ↔ st.xSizeOfLargestFreeBlockInBytes < 72) := by
  obtain ⟨s, hrun, -⟩ := boots_resetHeap.exists_run [.malloc 100, .malloc 24, .free 1]
  obtain ⟨st, hst, hmalloc, -⟩ := stats_after_run boots_resetHeap hrun
  exact ⟨s, st, hrun, hst, hmalloc 64 (by decide)⟩

/-! ### Errors -/

/-- What is freed once is not freed again: the assertion stops the second call. -/
theorem free_twice_after_run (hb : Boots h rs pxHeapRegions)
    (hrun : run h pxHeapRegions ops = some s) {g : Grant} (hg : g ∈ s.held) :
    ∃ H, s.heap.vPortFree g.pv = some H ∧ H.vPortFree g.pv = none := by
  have hs := hb.consistent hrun
  obtain ⟨i, hi⟩ := List.mem_iff_getElem?.1 hg
  obtain ⟨t, ht, hfreed, -⟩ := step_free hs i
  rw [step, hi, Option.elim_some] at ht
  obtain ⟨H, hH, heq⟩ := Option.bind_eq_some_iff.1 ht
  cases heq
  exact ⟨H, hH, hfreed.twice g hi⟩

theorem free_twice_after_run_resetHeap :
    ∃ s H, run resetHeap xHeapRegions [.malloc 100] = some s ∧
      s.heap.vPortFree 0x20200008 = some H ∧ H.vPortFree 0x20200008 = none := by
  obtain ⟨s, hrun, -⟩ := boots_resetHeap.exists_run [.malloc 100]
  have hheld : (run resetHeap xHeapRegions [.malloc 100]).map held =
      some [⟨⟨0x20200000, 112⟩, 100⟩] := by decide +kernel
  rw [hrun, Option.map_some, Option.some_inj] at hheld
  have hg : ⟨⟨0x20200000, 112⟩, 100⟩ ∈ s.held := hheld ▸ List.mem_cons_self
  obtain ⟨H, hH, htwice⟩ := free_twice_after_run boots_resetHeap hrun hg
  exact ⟨s, H, hrun, hH, htwice⟩

end System

end RT1064.Kernel
