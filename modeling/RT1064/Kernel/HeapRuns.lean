import RT1064.Core.Run
import RT1064.Kernel.HeapRegions

/-!
# The heap in use

The application asks for memory, writes into what it holds and gives it back, in any order. What it
holds is recorded beside the heap; it frees and writes nothing else.
-/

namespace RT1064.Kernel

open Core

/-! ### The system -/

/-- What the application holds: the block, header included, and the bytes it asked for. -/
structure Grant where
  block : Span
  xWantedSize : ℕ
deriving DecidableEq

namespace Grant

/-- The pointer that the application got. -/
def pv (g : Grant) : ℕ := g.block.offset + 8

/-- The bytes that the application may use. -/
def bytes (g : Grant) : Span := ⟨g.pv, g.xWantedSize⟩

end Grant

structure System where
  heap : Heap
  held : List Grant

/-- A step of the application; what it holds is numbered, the latest first. -/
inductive Op
  | malloc (xWantedSize : BitVec 32)
  | free (i : ℕ)
  | write (i : ℕ) (contents : ℕ → BlockLink_t)

namespace System

/-- The grant for a pointer, with the size that the header has. -/
def receive (s : System) (xWantedSize pv : ℕ) (h : Heap) : System :=
  if pv = 0 then ⟨h, s.held⟩
  else ⟨h, ⟨⟨pv - 8, h.size (pv - 8) - 2 ^ 31⟩, xWantedSize⟩ :: s.held⟩

/-- New contents in the `i`-th piece that is held. -/
def overwrite (s : System) (i : ℕ) (contents : ℕ → BlockLink_t) : Heap :=
  { s.heap with link := fun a =>
      if ∃ g ∈ s.held[i]?, g.bytes.Covers a then contents a else s.heap.link a }

/-- One step; where nothing has the number, `NULL` is freed and nothing is written. -/
def step (s : System) : Op → Option System
  | .malloc n         => do
    let (pv, h) ← s.heap.pvPortMalloc n.toNat
    some (s.receive n.toNat pv h)
  | .free i           => do
    let h ← s.heap.vPortFree ((s.held[i]?).elim 0 Grant.pv)
    some ⟨h, s.held.eraseIdx i⟩
  | .write i contents => some ⟨s.overwrite i contents, s.held⟩

/-- The steps `ops` after the heap was made of the regions. -/
def run (h : Heap) (pxHeapRegions : List HeapRegion_t) (ops : List Op) : Option System := do
  let h ← h.vPortDefineHeapRegions pxHeapRegions
  ops.foldlM step ⟨h, []⟩

/-! ### The invariant -/

/-- The blocks that are held. -/
def blocks (s : System) : List Span := s.held.map Grant.block

/-- The addresses that belong to nobody. -/
def free (areas : List Span) (s : System) : Set ℕ := covered areas \ covered s.blocks

structure Consistent (areas : List Span) (s : System) : Prop where
  sound : ∃ c, Sound areas s.heap c s.blocks
  wanted : ∀ g ∈ s.held, 0 < g.xWantedSize ∧ paddedSize g.xWantedSize ≤ g.block.length

variable {areas : List Span} {s s' : System}

end System

/-- The heap keeps its own data in the headers of the blocks and outside of them. -/
lemma Sound.of_link_eq {areas c live : List Span} {h H : Heap} (hs : Sound areas h c live)
    (hxStart : H.xStart = h.xStart) (hpxEnd : H.pxEnd = h.pxEnd)
    (hrem : H.xFreeBytesRemaining = h.xFreeBytesRemaining)
    (hlink : ∀ a, a ∉ covered live ∨ a ∈ live.map Span.offset → H.link a = h.link a) :
    Sound areas H c live := by
  have hnext : ∀ a, a ∉ covered live ∨ a ∈ live.map Span.offset → H.next a = h.next a :=
    fun a ha => by rw [Heap.next, hlink a ha, Heap.next]
  have hsize : ∀ a, a ∉ covered live ∨ a ∈ live.map Span.offset → H.size a = h.size a :=
    fun a ha => by rw [Heap.size, hlink a ha, Heap.size]
  constructor
  case fit =>
    rw [hxStart, hpxEnd]
    exact hs.fit
  case links =>
    rw [hxStart, hpxEnd]
    refine hs.links.congr fun a ha => hnext a (.inl ?_)
    rcases List.mem_cons.1 ha with rfl | ha
    · exact hs.xStart_notMem_live
    · obtain ⟨t, ht, rfl⟩ := List.mem_map.1 ha
      exact hs.offset_notMem_live ht
  case size_eq =>
    exact fun t ht => (hsize _ (.inl (hs.offset_notMem_live ht))).trans (hs.size_eq t ht)
  case size_xStart =>
    rw [hxStart, hsize _ (.inl hs.xStart_notMem_live), hs.size_xStart]
  case size_pxEnd =>
    rw [hpxEnd, hsize _ (.inl hs.pxEnd_notMem_live), hs.size_pxEnd]
  case next_pxEnd =>
    rw [hpxEnd, hnext _ (.inl hs.pxEnd_notMem_live), hs.next_pxEnd]
  case header =>
    intro t ht
    have hmem : t.offset ∈ live.map Span.offset := List.mem_map_of_mem ht
    rw [hnext _ (.inr hmem), hsize _ (.inr hmem)]
    exact hs.header t ht
  case separated => exact hs.separated
  case aligned => exact hs.aligned
  case empty => exact hpxEnd ▸ hs.empty
  case live_aligned => exact hs.live_aligned
  case live_pos => exact hs.live_pos
  case live_apart => exact hs.live_apart
  case live_subset => exact hs.live_subset
  case free => exact hs.free
  case sum_eq => exact hs.sum_eq
  case remaining => exact hrem.trans hs.remaining

/-- The block `b` that a request for `w` bytes gets out of the addresses `S`: it begins where the
lowest run of `w` addresses does, and takes all of the run there if little would be left. -/
structure Allots (S : Set ℕ) (w : ℕ) (b : Span) : Prop where
  least : IsLeast {a | IsRun S a w} b.offset
  length : ∃ n, IsRun S b.offset n ∧ b.offset + n ∉ S ∧ b.length = Heap.grantedSize n w

/-- There is one such block at most. -/
lemma Allots.unique {S : Set ℕ} {w : ℕ} {b b' : Span} (h : Allots S w b) (h' : Allots S w b') :
    b = b' := by
  have hoff := h.least.unique h'.least
  obtain ⟨n, hn, hstop, hlen⟩ := h.length
  obtain ⟨m, hm, hstop', hlen'⟩ := h'.length
  rw [hoff] at hn hstop
  have heq : n = m := le_antisymm (IsRun.le_of_notMem hn hstop') (IsRun.le_of_notMem hm hstop)
  cases b
  cases b'
  simp_all

lemma allots_grant {pre post : List Span} {t : Span} (h : Separated (pre ++ t :: post)) {w : ℕ}
    (hw0 : 0 < w) (hw : w ≤ t.length) (hpre : ∀ u ∈ pre, u.length < w) :
    Allots (covered (pre ++ t :: post)) w (grant t w) := by
  have ht : t ∈ pre ++ t :: post := List.mem_append_right _ List.mem_cons_self
  constructor
  case least =>
    have hfit : firstFit w (pre ++ t :: post) = some t := by
      refine List.find?_eq_some_iff_append.2 ⟨decide_eq_true hw, pre, post, rfl, fun u hu => ?_⟩
      simpa using hpre u hu
    have hleast := isLeast_of_firstFit h hw0 hfit
    exact hleast
  case length =>
    exact ⟨t.length, isRun_of_mem ht le_rfl, h.stop_notMem ht (hw0.trans_le hw), rfl⟩

namespace System

variable {areas : List Span} {s s' : System}

/-! ### One step -/

/-- A request is granted as `Allots` says, or refused and without effect where there is nothing to
grant. -/
inductive Requested (areas : List Span) (s : System) (n : ℕ) : ℕ → System → Prop
  | granted {b : Span} {h : Heap} (hn : Grantable n) (hb : Allots (s.free areas) (paddedSize n) b)
      (hlink : ∀ a ∈ covered s.blocks, h.link a = s.heap.link a)
      (hmin : h.xMinimumEverFreeBytesRemaining =
        min s.heap.xMinimumEverFreeBytesRemaining h.xFreeBytesRemaining) :
      Requested areas s n (b.offset + 8) ⟨h, ⟨b, n⟩ :: s.held⟩
  | refused (hno : Grantable n → ∀ a, ¬ IsRun (s.free areas) a (paddedSize n)) :
      Requested areas s n 0 s

lemma paddedSize_pos (n : ℕ) : 0 < paddedSize n := by
  rw [paddedSize]
  omega

lemma step_malloc (hs : Consistent areas s) (n : BitVec 32) :
    ∃ pv s', s.heap.pvPortMalloc n.toNat = some (pv, s'.heap) ∧ s.step (.malloc n) = some s' ∧
      Requested areas s n.toNat pv s' ∧ Consistent areas s' := by
  obtain ⟨⟨c, hc⟩, hwanted⟩ := hs
  have hfree : s.free areas = covered c := hc.free.symm
  by_cases hfit : Grantable n.toNat ∧ firstFit (paddedSize n.toNat) c ≠ none
  · obtain ⟨hn, hfit⟩ := hfit
    obtain ⟨t, ht⟩ := Option.ne_none_iff_exists'.1 hfit
    obtain ⟨hlen, pre, post, rfl, hpre⟩ := List.find?_eq_some_iff_append.1 ht
    have hlen : paddedSize n.toNat ≤ t.length := of_decide_eq_true hlen
    have hpre : ∀ u ∈ pre, u.length < paddedSize n.toNat := fun u hu => by simpa using hpre u hu
    obtain ⟨h, hmalloc, hsound, hlink, hmin⟩ := hc.malloc_of_fit hn hpre hlen
    have hheader := (hsound.header _ List.mem_cons_self).1
    have hreceive : s.receive n.toNat (t.offset + 8) h =
        ⟨h, ⟨grant t (paddedSize n.toNat), n.toNat⟩ :: s.held⟩ := by
      have hoff : (grant t (paddedSize n.toNat)).offset = t.offset := rfl
      rw [hoff] at hheader
      rw [receive, if_neg (Nat.succ_ne_zero _), Nat.add_sub_cancel, hheader, Nat.add_sub_cancel]
      rfl
    refine ⟨_, ⟨h, ⟨grant t (paddedSize n.toNat), n.toNat⟩ :: s.held⟩, hmalloc, ?_,
      .granted (b := grant t (paddedSize n.toNat)) hn ?_ hlink hmin, ?_⟩
    · rw [step, hmalloc, Option.bind_eq_bind, Option.bind_some]
      exact congrArg some hreceive
    · rw [hfree]
      exact allots_grant hc.separated (paddedSize_pos _) hlen hpre
    · refine ⟨⟨_, hsound⟩, List.forall_mem_cons.2 ⟨⟨hn.1, ?_⟩, hwanted⟩⟩
      exact (grantedSize_bounds hlen).1
  · have hnone : Grantable n.toNat → firstFit (paddedSize n.toNat) c = none := fun hn =>
      not_not.1 fun hne => hfit ⟨hn, hne⟩
    have hshort : Grantable n.toNat → ∀ t ∈ c, t.length < paddedSize n.toNat := fun hn t ht =>
      Nat.lt_of_not_le fun hle => List.find?_eq_none.1 (hnone hn) t ht (decide_eq_true hle)
    have hmalloc := hc.malloc_of_no_fit n.isLt hshort
    refine ⟨0, s, hmalloc, ?_, .refused fun hn a hrun => ?_, ⟨⟨c, hc⟩, hwanted⟩⟩
    · rw [step, hmalloc, Option.bind_eq_bind, Option.bind_some]
      rfl
    · rw [hfree] at hrun
      exact (firstFit_eq_none_iff hc.separated (paddedSize_pos _)).1 (hnone hn) a hrun

/-- What freeing the `i`-th piece does. -/
structure Freed (s : System) (i : ℕ) (s' : System) : Prop where
  held : s'.held = s.held.eraseIdx i
  link : ∀ a ∈ covered s'.blocks, s'.heap.link a = s.heap.link a
  minimum : s'.heap.xMinimumEverFreeBytesRemaining = s.heap.xMinimumEverFreeBytesRemaining
  twice : ∀ g, s.held[i]? = some g → s'.heap.vPortFree g.pv = none

lemma step_free (hs : Consistent areas s) (i : ℕ) :
    ∃ s', s.step (.free i) = some s' ∧ Freed s i s' ∧ Consistent areas s' := by
  obtain ⟨⟨c, hc⟩, hwanted⟩ := hs
  by_cases hi : i < s.held.length
  · have hperm : s.blocks.Perm (s.held[i].block :: (s.held.eraseIdx i).map Grant.block) := by
      rw [← List.map_cons]
      exact (List.getElem_cons_eraseIdx_perm hi).symm.map _
    obtain ⟨h, c', hfree, hsound, hlink, hmin, htwice⟩ := (hc.perm hperm).free_of_live
    refine ⟨⟨h, s.held.eraseIdx i⟩, ?_, ⟨rfl, hlink, hmin, fun g hg => ?_⟩, ⟨c', hsound⟩,
      fun g hg => ?_⟩
    · rw [step, List.getElem?_eq_getElem hi]
      show (s.heap.vPortFree _).bind _ = _
      rw [Option.elim_some, Grant.pv, hfree, Option.bind_some]
    · rw [List.getElem?_eq_getElem hi, Option.some_inj] at hg
      rw [← hg]
      exact htwice
    · exact hwanted g (List.mem_of_mem_eraseIdx hg)
  · have hnone : s.held[i]? = none := List.getElem?_eq_none (Nat.le_of_not_lt hi)
    have herase : s.held.eraseIdx i = s.held := List.eraseIdx_of_length_le (Nat.le_of_not_lt hi)
    refine ⟨s, ?_, ⟨herase.symm, fun a _ => rfl, rfl, fun g hg => ?_⟩, ⟨c, hc⟩, hwanted⟩
    · rw [step, hnone, herase]
      rfl
    · exact absurd (hnone.symm.trans hg) (Option.some_ne_none g).symm

/-- What writing into the `i`-th piece does: nothing to the header of a block or to other blocks. -/
structure Written (s : System) (i : ℕ) (s' : System) : Prop where
  held : s'.held = s.held
  link : ∀ a, (∀ g, s.held[i]? = some g → ¬ g.bytes.Covers a) → s'.heap.link a = s.heap.link a
  minimum : s'.heap.xMinimumEverFreeBytesRemaining = s.heap.xMinimumEverFreeBytesRemaining
  remaining : s'.heap.xFreeBytesRemaining = s.heap.xFreeBytesRemaining

/-- The bytes of a piece are in its block, behind the header. -/
lemma covers_block (hs : Consistent areas s) {g : Grant} (hg : g ∈ s.held) {a : ℕ}
    (ha : g.bytes.Covers a) : g.block.offset + 8 ≤ a ∧ a < g.block.stop := by
  obtain ⟨-, hlen⟩ := hs.wanted g hg
  obtain ⟨h1, h2⟩ := ha
  simp only [Grant.bytes, Grant.pv, Span.stop, paddedSize] at h1 h2 hlen ⊢
  omega

lemma step_write (hs : Consistent areas s) (i : ℕ) (contents : ℕ → BlockLink_t) :
    ∃ s', s.step (.write i contents) = some s' ∧ Written s i s' ∧ Consistent areas s' := by
  have hcov : ∀ g, s.held[i]? = some g → ∀ a, g.bytes.Covers a →
      a ∈ covered s.blocks ∧ a ∉ s.blocks.map Span.offset := by
    intro g hg a ha
    have hmem := List.mem_of_getElem? hg
    have hblock : g.block ∈ s.blocks := List.mem_map_of_mem hmem
    obtain ⟨h1, h2⟩ := covers_block hs hmem ha
    refine ⟨⟨g.block, hblock, (Nat.le_add_right _ 8).trans h1, h2⟩, fun hoff => ?_⟩
    obtain ⟨t, ht, rfl⟩ := List.mem_map.1 hoff
    obtain ⟨c, hc⟩ := hs.sound
    by_cases heq : g.block = t
    · rw [heq] at h1
      omega
    · have hpos := hc.live_pos t ht
      have : Std.Symm fun t u : Span => t.stop ≤ u.offset ∨ u.stop ≤ t.offset :=
        ⟨fun _ _ => Or.symm⟩
      have hor := hc.live_apart.forall hblock ht heq
      rw [Span.stop, Span.stop] at hor
      rw [Span.stop] at h2
      omega
  obtain ⟨⟨c, hc⟩, hwanted⟩ := hs
  have hsound : Sound areas (s.overwrite i contents) c s.blocks := by
    refine hc.of_link_eq rfl rfl rfl fun a ha => if_neg ?_
    rintro ⟨g, hg, hga⟩
    obtain ⟨h1, h2⟩ := hcov g hg a hga
    exact ha.elim (fun hnot => hnot h1) h2
  refine ⟨⟨s.overwrite i contents, s.held⟩, rfl, ⟨rfl, fun a ha => if_neg ?_, rfl, rfl⟩,
    ⟨c, hsound⟩, hwanted⟩
  rintro ⟨g, hg, hga⟩
  exact ha g hg hga

/-- No step stops at an assertion or in an endless walk. -/
lemma step_consistent (hs : Consistent areas s) (op : Op) :
    ∃ s', s.step op = some s' ∧ Consistent areas s' := by
  cases op with
  | malloc n =>
    obtain ⟨-, s', -, hstep, -, hs'⟩ := step_malloc hs n
    exact ⟨s', hstep, hs'⟩
  | free i =>
    obtain ⟨s', hstep, -, hs'⟩ := step_free hs i
    exact ⟨s', hstep, hs'⟩
  | write i contents =>
    obtain ⟨s', hstep, -, hs'⟩ := step_write hs i contents
    exact ⟨s', hstep, hs'⟩

/-! ### Runs -/

lemma foldlM_consistent (hs : Consistent areas s) (ops : List Op) :
    ∃ s', ops.foldlM step s = some s' ∧ Consistent areas s' := by
  induction ops generalizing s with
  | nil => exact ⟨s, rfl, hs⟩
  | cons op ops ih =>
    obtain ⟨t, hstep, ht⟩ := step_consistent hs op
    obtain ⟨s', hrun, hs'⟩ := ih ht
    exact ⟨s', by rw [List.foldlM_cons, hstep]; exact hrun, hs'⟩

/-- The heap and the regions that a run begins with. -/
structure Boots (h : Heap) (rs pxHeapRegions : List HeapRegion_t) : Prop where
  fit : RegionsFit h.xStart rs
  ne_nil : rs ≠ []
  ends : ∃ z tail, pxHeapRegions = rs ++ z :: tail ∧ z.xSizeInBytes = 0
  first : h.pxEnd = 0

end System

end RT1064.Kernel
