import RT1064.Core.FreeList
import RT1064.Core.Linked
import RT1064.Kernel.Heap

/-!
# The blocks of the heap

What the functions do to the cells: how far the walks over the list go, which cells change when a
block is granted and when one is put back, and that all others stay as they are.
-/

namespace RT1064.Kernel

open Core

namespace Heap

/-! ### Linked cells -/

/-- From the cell `a` the pointers lead through `l` to `e`. -/
def Links (h : Heap) (a : ℕ) (l : List ℕ) (e : ℕ) : Prop :=
  (a :: (l ++ [e])).IsChain fun x y => h.next x = y

section Links

variable {h h' : Heap} {a e : ℕ} {l A B M : List ℕ}

@[simp] lemma links_nil : h.Links a [] e ↔ h.next a = e := by
  simp [Links]

@[simp] lemma links_cons {b : ℕ} : h.Links a (b :: l) e ↔ h.next a = b ∧ h.Links b l e := by
  simp [Links]

/-- The links inside of a list depend on all cells but the last. -/
lemma isChain_congr (hl : ∀ x ∈ l.dropLast, h'.next x = h.next x)
    (hchain : l.IsChain fun x y => h.next x = y) : l.IsChain fun x y => h'.next x = y :=
  isChain_imp_of_mem (fun x hx _ _ hxy => (hl x hx).trans hxy) hchain

lemma links_append : h.Links a (A ++ M ++ B) e ↔ (a :: A).IsChain (fun x y => h.next x = y) ∧
    h.Links (A.getLastD a) M (B.headD e) ∧ (B ++ [e]).IsChain fun x y => h.next x = y := by
  induction A generalizing a with
  | nil =>
    rw [List.nil_append, List.getLastD_nil]
    induction M generalizing a with
    | nil => cases B <;> simp [Links]
    | cons m M ih =>
      rw [List.cons_append, links_cons, links_cons, ih]
      simp [and_assoc]
  | cons b A ih =>
    rw [List.cons_append, List.cons_append, links_cons, ih, List.isChain_cons_cons, and_assoc,
      List.getLastD_cons]

/-- Other cells between those of `A` and those of `B`. -/
lemma Links.splice {M' : List ℕ} (hl : h.Links a (A ++ M ++ B) e) (hnodup : (a :: A).Nodup)
    (hA : ∀ x ∈ a :: A, x ≠ A.getLastD a → h'.next x = h.next x)
    (hB : ∀ x ∈ B, h'.next x = h.next x) (hM : h'.Links (A.getLastD a) M' (B.headD e)) :
    h'.Links a (A ++ M' ++ B) e := by
  obtain ⟨hleft, -, hright⟩ := links_append.1 hl
  refine links_append.2 ⟨isChain_congr (fun x hx => ?_) hleft, hM, isChain_congr ?_ hright⟩
  · have hne : x ≠ A.getLastD a := by
      rintro rfl
      have hlast : a :: A = (a :: A).dropLast ++ [A.getLastD a] := by
        rw [← List.getLast_eq_getLastD (List.cons_ne_nil a A), List.dropLast_append_getLast]
      rw [hlast] at hnodup
      exact (List.nodup_append.1 hnodup).2.2 _ hx _ (List.mem_singleton_self _) rfl
    exact hA x (List.mem_of_mem_dropLast hx) hne
  · rwa [List.dropLast_concat]

lemma Links.prefix {b : ℕ} (hl : h.Links a (A ++ b :: B) e) : h.Links a A b := by
  rw [Links, List.append_assoc, List.cons_append, List.append_cons, ← List.cons_append] at hl
  exact hl.left_of_append

lemma Links.congr (hl : h.Links a l e) (heq : ∀ x ∈ a :: l, h'.next x = h.next x) :
    h'.Links a l e := by
  refine isChain_congr ?_ hl
  rwa [← List.cons_append, List.dropLast_concat]

end Links

/-! ### The walks -/

lemma whileLoop_findBlock {h : Heap} {w e : ℕ} (he : e ≠ 0)
    (hstop : ¬ (h.size e < w ∧ h.next e ≠ 0)) {l : List ℕ} {a fuel : ℕ}
    (hl : h.Links a l e) (hsmall : ∀ x ∈ l, h.size x < w)
    (hne : ∀ x ∈ l, x ≠ 0) (hfuel : l.length ≤ fuel) :
    whileLoop (fun w' : Walk => h.size w'.pxBlock < w ∧ h.next w'.pxBlock ≠ 0)
      (fun w' => ⟨w'.pxBlock, h.next w'.pxBlock⟩) fuel ⟨a, h.next a⟩ = some ⟨l.getLastD a, e⟩ := by
  induction l generalizing a fuel with
  | nil =>
    rw [links_nil] at hl
    cases fuel <;> rw [whileLoop, hl, if_neg hstop, List.getLastD_nil]
  | cons x l ih =>
    obtain ⟨hax, hl⟩ := links_cons.1 hl
    obtain ⟨hx, hsmall⟩ := List.forall_mem_cons.1 hsmall
    obtain ⟨-, hne⟩ := List.forall_mem_cons.1 hne
    have hnext : h.next x ≠ 0 := by
      cases l with
      | nil => rwa [links_nil.1 hl]
      | cons y l =>
        rw [(links_cons.1 hl).1]
        exact hne y List.mem_cons_self
    obtain ⟨fuel, rfl⟩ := Nat.exists_eq_succ_of_ne_zero (Nat.ne_of_gt (Nat.zero_lt_of_lt hfuel))
    rw [whileLoop, hax, if_pos ⟨hx, hnext⟩, List.getLastD_cons]
    exact ih hl hsmall hne (Nat.le_of_succ_le_succ hfuel)

lemma whileLoop_findPlace {h : Heap} {x e : ℕ} (hx : x ≤ e) {l : List ℕ} {a fuel : ℕ}
    (hl : h.Links a l e) (hlt : ∀ y ∈ l, y < x) (hfuel : l.length ≤ fuel) :
    whileLoop (fun y => h.next y < x) (fun y => h.next y) fuel a = some (l.getLastD a) :=
  whileLoop_advance hl hlt (Nat.not_lt.2 hx) hfuel

/-! ### What `pvPortMalloc` does to a block -/

lemma next_markAllocated (h : Heap) (b a : ℕ) :
    (h.markAllocated b).next a = if a = b then 0 else h.next a := by
  rw [markAllocated]
  dsimp only
  split_ifs <;> simp_all [next, setNext, setSize]

lemma size_markAllocated (h : Heap) (b a : ℕ) : (h.markAllocated b).size a =
    if a = b then h.size b ||| heapBLOCK_ALLOCATED_BITMASK else h.size a := by
  rw [markAllocated]
  dsimp only
  split_ifs <;> simp_all [size, setNext, setSize]

@[simp] lemma remaining_markAllocated (h : Heap) (b : ℕ) :
    (h.markAllocated b).xFreeBytesRemaining = subSize h.xFreeBytesRemaining (h.size b) := by
  rw [markAllocated]
  dsimp only
  split_ifs <;> rfl

@[simp] lemma minimum_markAllocated (h : Heap) (b : ℕ) :
    (h.markAllocated b).xMinimumEverFreeBytesRemaining =
      min h.xMinimumEverFreeBytesRemaining (subSize h.xFreeBytesRemaining (h.size b)) := by
  rw [markAllocated]
  dsimp only
  split_ifs with hlt
  · exact (Nat.min_eq_right hlt.le).symm
  · exact (Nat.min_eq_left (Nat.le_of_not_lt hlt)).symm

@[simp] lemma xStart_markAllocated (h : Heap) (b : ℕ) : (h.markAllocated b).xStart = h.xStart := by
  rw [markAllocated]
  dsimp only
  split_ifs <;> rfl

@[simp] lemma pxEnd_markAllocated (h : Heap) (b : ℕ) : (h.markAllocated b).pxEnd = h.pxEnd := by
  rw [markAllocated]
  dsimp only
  split_ifs <;> rfl

/-- What is granted of a block of length `s` to a request for `w` bytes. -/
def grantedSize (s w : ℕ) : ℕ := if 16 < s - w then w else s

/-- The heap `H` after the block `b`, which comes after `p` in the list, was granted. -/
structure Taken (h : Heap) (p b w : ℕ) (H : Heap) : Prop where
  xStart : H.xStart = h.xStart
  pxEnd : H.pxEnd = h.pxEnd
  next : ∀ a, H.next a = if a = b then 0 else
    if a = p then (if 16 < h.size b - w then b + w else h.next b) else
    if 16 < h.size b - w ∧ a = b + w then h.next b else h.next a
  size : ∀ a, H.size a = if a = b then grantedSize (h.size b) w + 2 ^ 31 else
    if 16 < h.size b - w ∧ a = b + w then h.size b - w else h.size a
  remaining : H.xFreeBytesRemaining = h.xFreeBytesRemaining - grantedSize (h.size b) w
  minimum : H.xMinimumEverFreeBytesRemaining =
    min h.xMinimumEverFreeBytesRemaining H.xFreeBytesRemaining

lemma takeBlock_spec {h : Heap} {p b w : ℕ} (hb : h.next p = b)
    (hw : 0 < w) (hle : w ≤ h.size b) (hlt : h.size b < 2 ^ 31)
    (hstop : b + h.size b + 8 ≤ 2 ^ 32) (hb8 : 8 ∣ b) (hw8 : 8 ∣ w)
    (hrem : h.size b ≤ h.xFreeBytesRemaining) (hrem' : h.xFreeBytesRemaining < 2 ^ 32) :
    ∃ H, h.takeBlock ⟨p, b⟩ w = some (b + 8, H) ∧ Taken h p b w H := by
  have hsub : subSize (h.size b) w = h.size b - w := subSize_of_le hle (by omega)
  have hret : addSize b 8 = b + 8 := addSize_of_lt (by omega)
  have hassert : ¬ heapSUBTRACT_WILL_UNDERFLOW (h.size b) w := Nat.not_lt.2 hle
  by_cases hsplit : 16 < h.size b - w
  · have hnew : addSize b w = b + w := addSize_of_lt (by omega)
    have hmask : (b + w) &&& portBYTE_ALIGNMENT_MASK = 0 := by
      rw [and_mask]
      omega
    have hr := subSize_of_le (hle.trans hrem) hrem'
    have hor := or_allocated (a := w) (by omega)
    simp only [takeBlock, splitBlock, size_setNext, hsub, heapMINIMUM_BLOCK_SIZE_eq,
      if_pos hsplit, configASSERT_of hassert, hnew, configASSERT_of hmask, hb, hret,
      xHeapStructSize_eq, Option.bind_eq_bind, Option.bind_some]
    refine ⟨_, rfl, ?_⟩
    constructor
    · simp [setNext, setSize]
    · simp [setNext, setSize]
    · intro a
      simp [next_markAllocated, hsplit]
      split_ifs <;> simp_all
    · intro a
      simp [size_markAllocated, hsplit, grantedSize, hor]
      split_ifs <;> rfl
    · simp [grantedSize, hsplit]
      simp [setNext, setSize, hr]
    · simp
      simp [setNext, setSize, hr]
  · have hr := subSize_of_le hrem hrem'
    have hor := or_allocated hlt
    simp only [takeBlock, splitBlock, size_setNext, hsub, heapMINIMUM_BLOCK_SIZE_eq,
      if_neg hsplit, configASSERT_of hassert, hb, hret, xHeapStructSize_eq, Option.bind_eq_bind,
      Option.bind_some]
    refine ⟨_, rfl, ?_⟩
    constructor
    · simp [setNext]
    · simp [setNext]
    · intro a
      simp [next_markAllocated, hsplit]
    · intro a
      simp [size_markAllocated, hsplit, grantedSize, hor]
    · simp [grantedSize, hsplit]
      simp [setNext, hr]
    · simp
      simp [setNext, hr]

/-! ### What `vPortFree` does to the list -/

/-- The variables beside the cells are the same. -/
structure SameVariables (h H : Heap) : Prop where
  xStart : H.xStart = h.xStart
  pxEnd : H.pxEnd = h.pxEnd
  remaining : H.xFreeBytesRemaining = h.xFreeBytesRemaining
  minimum : H.xMinimumEverFreeBytesRemaining = h.xMinimumEverFreeBytesRemaining
  allocations : H.xNumberOfSuccessfulAllocations = h.xNumberOfSuccessfulAllocations
  frees : H.xNumberOfSuccessfulFrees = h.xNumberOfSuccessfulFrees

lemma SameVariables.refl (h : Heap) : SameVariables h h := ⟨rfl, rfl, rfl, rfl, rfl, rfl⟩

lemma SameVariables.trans {h h' H : Heap} (h1 : SameVariables h h') (h2 : SameVariables h' H) :
    SameVariables h H :=
  ⟨h2.1.trans h1.1, h2.2.trans h1.2, h2.3.trans h1.3, h2.4.trans h1.4, h2.5.trans h1.5,
    h2.6.trans h1.6⟩

lemma sameVariables_setNext (h : Heap) (a v : ℕ) : SameVariables h (h.setNext a v) :=
  ⟨rfl, rfl, rfl, rfl, rfl, rfl⟩

lemma sameVariables_setSize (h : Heap) (a v : ℕ) : SameVariables h (h.setSize a v) :=
  ⟨rfl, rfl, rfl, rfl, rfl, rfl⟩

/-- The address and the length of the block at `x` once it is joined with a block at `p` that it
touches. -/
def joined (h : Heap) (p x : ℕ) : Span :=
  if p + h.size p = x then ⟨p, h.size p + h.size x⟩ else ⟨x, h.size x⟩

lemma joinBefore_spec {h : Heap} {p x : ℕ} (hp : p + h.size p < 2 ^ 32)
    (hs : h.size p + h.size x < 2 ^ 32) :
    ∃ H, h.joinBefore p x = (H, (h.joined p x).offset) ∧ SameVariables h H ∧
      (∀ a, H.next a = h.next a) ∧
      ∀ a, H.size a = if a = (h.joined p x).offset then (h.joined p x).length else h.size a := by
  rw [joinBefore, joined, addSize_of_lt hp, addSize_of_lt hs]
  split_ifs with htouch
  · exact ⟨_, rfl, sameVariables_setSize h _ _, fun a => by simp, fun a => by simp⟩
  · refine ⟨h, rfl, SameVariables.refl h, fun a => rfl, fun a => ?_⟩
    by_cases ha : a = x
    · rw [ha, if_pos rfl]
    · rw [if_neg ha]

/-- Whether the block `t` is joined with the one behind `p`. -/
def Touches (h : Heap) (p : ℕ) (t : Span) : Prop := t.stop = h.next p ∧ h.next p ≠ h.pxEnd

instance (h : Heap) (p : ℕ) (t : Span) : Decidable (h.Touches p t) :=
  inferInstanceAs (Decidable (_ ∧ _))

lemma joinBehind_spec {h : Heap} {p y s : ℕ} (hsize : h.size y = s) (hy : y + s < 2 ^ 32)
    (hs : s + h.size (h.next p) < 2 ^ 32) :
    SameVariables h (h.joinBehind p y) ∧
      (∀ a, (h.joinBehind p y).next a = if a = y then
        (if h.Touches p ⟨y, s⟩ then h.next (h.next p) else h.next p) else h.next a) ∧
      ∀ a, (h.joinBehind p y).size a = if a = y then
        (if h.Touches p ⟨y, s⟩ then s + h.size (h.next p) else s) else h.size a := by
  have hsame : ∀ a, h.size a = if a = y then s else h.size a := by
    intro a
    split_ifs with ha
    · rw [ha, hsize]
    · rfl
  rw [joinBehind, hsize, addSize_of_lt hy, addSize_of_lt hs]
  by_cases htouch : y + s = h.next p
  · by_cases hend : h.next p = h.pxEnd
    · have hno : ¬ h.Touches p ⟨y, s⟩ := fun h' => h'.2 hend
      rw [if_pos htouch, if_neg (not_not.2 hend), if_neg hno, if_neg hno]
      refine ⟨sameVariables_setNext h _ _, fun a => ?_, fun a => ?_⟩
      · rw [next_setNext, hend]
      · rw [size_setNext]
        exact hsame a
    · have hyes : h.Touches p ⟨y, s⟩ := ⟨htouch, hend⟩
      rw [if_pos htouch, if_pos hend, if_pos hyes, if_pos hyes]
      refine ⟨(sameVariables_setSize h _ _).trans (sameVariables_setNext _ _ _), fun a => ?_,
        fun a => ?_⟩
      · simp
      · simp
  · have hno : ¬ h.Touches p ⟨y, s⟩ := fun h' => htouch h'.1
    rw [if_neg htouch, if_neg hno, if_neg hno]
    refine ⟨sameVariables_setNext h _ _, fun a => ?_, fun a => ?_⟩
    · rw [next_setNext]
    · rw [size_setNext]
      exact hsame a

/-- The heap `H` after the block at `x` was put into the list after `p`. -/
structure Inserted (h : Heap) (p : ℕ) (t : Span) (H : Heap) : Prop where
  same : SameVariables h H
  next : ∀ a, H.next a =
    if a = t.offset then (if h.Touches p t then h.next (h.next p) else h.next p)
    else if a = p then t.offset else h.next a
  size : ∀ a, H.size a =
    if a = t.offset then (if h.Touches p t then t.length + h.size (h.next p) else t.length)
    else h.size a

lemma insert_spec {h : Heap} {p x : ℕ} (hp : h.findPlace x = some p)
    (hq : h.next p ≠ p) (hqx : h.next p ≠ x) (hps : p + h.size p < 2 ^ 32)
    (hx : x + h.size x < 2 ^ 32) (hsum : h.size p + h.size x + h.size (h.next p) < 2 ^ 32) :
    ∃ H, h.prvInsertBlockIntoFreeList x = some H ∧ Inserted h p (h.joined p x) H := by
  obtain ⟨h₁, hjoin, hsame, hnext, hsize⟩ :=
    joinBefore_spec (h := h) (p := p) (x := x) hps (by omega)
  have ht : (h.joined p x).stop < 2 ^ 32 ∧ (h.joined p x).length ≤ h.size p + h.size x ∧
      ((h.joined p x).offset = p ∨ (h.joined p x).offset = x) := by
    rw [joined]
    split_ifs with htouch
    · exact ⟨by rw [Span.stop]; dsimp only; omega, le_rfl, .inl rfl⟩
    · exact ⟨hx, Nat.le_add_left _ _, .inr rfl⟩
  obtain ⟨htlt, htle, hoff⟩ := ht
  generalize h.joined p x = t at *
  have hqt : h.next p ≠ t.offset := by
    rcases hoff with hoff | hoff
    · rwa [hoff]
    · rwa [hoff]
  have hq₁ : h₁.size (h.next p) = h.size (h.next p) := by
    rw [hsize, if_neg hqt]
  obtain ⟨hsame₂, hnext₂, hsize₂⟩ := joinBehind_spec (h := h₁) (p := p) (y := t.offset)
    (s := t.length) (by rw [hsize, if_pos rfl]) htlt (by rw [hnext, hq₁]; omega)
  have htouch : h₁.Touches p ⟨t.offset, t.length⟩ ↔ h.Touches p t := by
    rw [Touches, Touches, hnext, hsame.pxEnd]
  simp only [htouch, hnext, hq₁] at hnext₂ hsize₂
  have hsizeH : ∀ a, (h₁.joinBehind p t.offset).size a =
      if a = t.offset then (if h.Touches p t then t.length + h.size (h.next p) else t.length)
      else h.size a := by
    intro a
    rw [hsize₂, hsize]
    by_cases ha : a = t.offset
    · rw [if_pos ha, if_pos ha]
    · rw [if_neg ha, if_neg ha, if_neg ha]
  simp only [prvInsertBlockIntoFreeList, hp, Option.bind_eq_bind, Option.bind_some, hjoin]
  split_ifs with hpt
  · refine ⟨_, rfl, (hsame.trans hsame₂).trans (sameVariables_setNext _ _ _), fun a => ?_,
      fun a => (size_setNext _ _ _ a).trans (hsizeH a)⟩
    rw [next_setNext, hnext₂]
    by_cases ha : a = p
    · rw [if_pos ha, if_neg (ha ▸ hpt), if_pos ha]
    · rw [if_neg ha, if_neg ha]
  · rw [not_not] at hpt
    refine ⟨_, rfl, hsame.trans hsame₂, fun a => ?_, hsizeH⟩
    rw [hnext₂]
    by_cases ha : a = t.offset
    · rw [if_pos ha, if_pos ha]
    · rw [if_neg ha, if_neg ha, if_neg (hpt ▸ ha)]

end Heap

end RT1064.Kernel
