import RT1064.Ringbuffer.Refinement

/-!
# Releasing and acquiring the storage

`deallocate` gives the block back and zeroes `_size`, but leaves `_start` and `_end` where they
are; `allocate` does not touch them either. What that means for a buffer that is allocated anew,
and for one that owns no storage, is worked out for every reachable state.
-/

namespace RT1064

open Core

variable {w : ℕ}

namespace Ringbuffer

/-- `rb` behaves like a new buffer on which only `allocate(n)` was called. -/
structure LikeFresh (n : BitVec w) (rb : Ringbuffer w) : Prop where
  used : rb.space_used = 0
  available : rb.space_available = n - 1
  pop : ∀ buf max, (rb.pop_front buf max).ret.1 = 0
  answers_eq : ∀ fresh block, (new : Ringbuffer w).allocate n block = some fresh →
    ∀ cs, answers step rb cs = answers step fresh.rb cs
  inside : ∀ cs, StaysInside n.toNat rb cs

/-- The read and write positions that a new block of `n` bytes can do with. -/
def Clean (n s e : ℕ) : Prop :=
  s = e ∧ s ≤ n ∨ s = n ∧ e = 0 ∨ n = 1 ∧ (s = e ∨ s = e + 1)

instance (n s e : ℕ) : Decidable (Clean n s e) := inferInstanceAs (Decidable (_ ∨ _))

/-! ### Clean positions are enough -/

/-- What makes a buffer like a fresh one is that it simulates the empty queue. -/
lemma likeFresh_of_simulates {n : BitVec w} (hn : 1 ≤ n.toNat) {rb : Ringbuffer w}
    {R : Ringbuffer w → Fifo UInt8 (n.toNat - 1) → Prop} (hR : Simulates R step queueStep)
    (hrb : R rb (Fifo.empty UInt8 (n.toNat - 1))) (hin : ∀ cs, StaysInside n.toNat rb cs) :
    LikeFresh n rb where
  used := by
    have h := (hR _ _ .space_used hrb).1
    simp only [step, call, queueStep, Reply.space.injEq, Fifo.empty_items, List.length_nil] at h
    exact h
  available := by
    have h := (hR _ _ .space_available hrb).1
    simp only [step, call, queueStep, Reply.space.injEq, Fifo.room, Fifo.empty_items,
      List.length_nil] at h
    rw [h]
    apply BitVec.eq_of_toNat_eq
    have hone := toNat_one hn
    rw [BitVec.toNat_sub_of_le (by rw [BitVec.le_def, hone]; exact hn), hone, BitVec.toNat_ofNat,
      Nat.mod_eq_of_lt (by have := n.isLt; omega), Nat.sub_zero]
  pop buf max := by
    cases buf with
    | none => rfl
    | some out =>
      have h := (hR _ _ (.pop_front (some out) max) hrb).1
      simp only [step, call, queueStep, Fifo.pop, Fifo.empty_items, List.take_nil,
        Reply.popped.injEq, List.length_nil] at h
      exact h.1
  answers_eq fresh block hfresh cs := by
    rw [allocate_new] at hfresh
    obtain rfl := Option.some.inj hfresh
    rw [hR.answers_eq hrb cs,
      (simulates_queue n.toNat).answers_eq (represents_empty hn block) cs]
  inside := hin

lemma represents_of_clean {n s e : BitVec w} (hn : 1 ≤ n.toNat) (block : ℕ → UInt8)
    (h : s.toNat = e.toNat ∧ s.toNat ≤ n.toNat ∨ s.toNat = n.toNat ∧ e.toNat = 0) :
    Represents n.toNat ⟨n, some block, s, e⟩ (Fifo.empty UInt8 (n.toNat - 1)).items := by
  have hused : used n.toNat s.toNat e.toNat = 0 := by
    unfold used
    split_ifs <;> omega
  refine ⟨rfl, ?_, ?_, ?_, block, rfl, ?_⟩
  · simp only; omega
  · simp only; omega
  · rw [hused]; omega
  · rw [hused]; rfl

/-- Neither room nor content. -/
def Shut (rb : Ringbuffer w) : Prop := rb.space_available = 0 ∧ rb.space_used = 0

lemma pop_front_of_used {rb : Ringbuffer w} (h : rb.space_used = 0) (buf : Option (ℕ → UInt8))
    (max : BitVec w) :
    (rb.pop_front buf max).ret = (0, buf) ∧ (rb.pop_front buf max).rb = rb ∧
      ∀ t ∈ (rb.pop_front buf max).touched, t.length = 0 := by
  unfold space_used at h
  cases buf with
  | none => simp [pop_front]
  | some out =>
    by_cases hne : rb._start = rb._end
    · simp [pop_front, hne]
    by_cases hse : rb._start ≤ rb._end
    · rw [if_pos hse] at h
      exact absurd (sub_eq_zero.mp h).symm hne
    · have hse' : ¬ rb._start < rb._end := fun h' => hse (BitVec.le_of_lt h')
      rw [if_neg hse] at h
      simp only [pop_front, if_neg hne, if_neg hse', h, if_neg (not_lt_zero _), toNat_zero,
        copyInto_zero, add_zero, List.forall_mem_singleton, and_self]

/-- A buffer with neither room nor content stays as it is, and answers like a queue without
capacity. -/
lemma call_of_shut {rb : Ringbuffer w} (h : rb.Shut) {cap : ℕ} (hcap : cap = 0)
    (q : Fifo UInt8 cap) (c : Call w) :
    (rb.call c).ret = (queueStep q c).1 ∧ (rb.call c).rb = rb ∧
      ∀ t ∈ (rb.call c).touched, t.length = 0 := by
  have hq : q.items = [] := List.eq_nil_of_length_eq_zero (by have := q.length_le; omega)
  obtain ⟨havail, hused⟩ := h
  cases c with
  | push_back buf len =>
    have hpush : rb.push_back buf len = ⟨false, rb, []⟩ := by
      by_cases h0 : len = 0
      · rw [h0]; exact push_back_zero rb buf
      · apply push_back_of_lt
        rw [havail, BitVec.lt_def, toNat_zero]
        exact Nat.pos_of_ne_zero fun h' => h0 (eq_zero_of_toNat h')
    have hnot : ∀ xs : List UInt8, ¬ q.Admits xs := by
      rintro xs ⟨h1, h2⟩
      rw [Fifo.room] at h2
      omega
    simp only [call, hpush, List.not_mem_nil, false_imp_iff, implies_true, and_true]
    cases buf with
    | none => rfl
    | some src => simp only [queueStep, Fifo.push_of_not_admits (hnot _)]
  | pop_front buf max =>
    obtain ⟨hret, hrb, htouched⟩ := pop_front_of_used hused buf max
    refine ⟨?_, hrb, htouched⟩
    simp only [call, hret]
    cases buf with
    | none => rfl
    | some out =>
      simp only [queueStep, Fifo.pop, hq, List.take_nil, List.length_nil]
      rfl
  | space_used => simp [call, queueStep, hused, hq]
  | space_available => simp [call, queueStep, havail, Fifo.room, hcap]

lemma shut_of_clean {n s e : BitVec w} (hn : n.toNat = 1) (block : ℕ → UInt8)
    (h : s.toNat = e.toNat ∨ s.toNat = e.toNat + 1) : Shut ⟨n, some block, s, e⟩ := by
  have hone : (1 : BitVec w).toNat = 1 := toNat_one hn.ge
  obtain rfl : n = 1 := BitVec.eq_of_toNat_eq (hn.trans hone.symm)
  rcases h with h | h
  · obtain rfl : s = e := BitVec.eq_of_toNat_eq h
    constructor
    · simp [space_available]
    · simp [space_used]
  · have hlt : e < s := by
      rw [BitVec.lt_def]; omega
    obtain rfl : s = e + 1 := by
      apply BitVec.eq_of_toNat_eq
      rw [BitVec.toNat_add, hone, Nat.mod_eq_of_lt (by have := s.isLt; omega), h]
    constructor
    · simp only [space_available, if_pos hlt]
      ring
    · simp only [space_used, if_neg (BitVec.not_le.mpr hlt)]
      ring

lemma likeFresh_of_shut {n : BitVec w} (hn : n.toNat = 1) {rb : Ringbuffer w} (h : rb.Shut) :
    LikeFresh n rb := by
  refine likeFresh_of_simulates (by omega) (R := fun rb _ => rb.Shut) ?_ h ?_
  rotate_left
  · intro cs
    apply everyStep_of_forall_inv Shut _ _ cs h
    · intro rb c hrb
      rw [(call_of_shut hrb rfl (Fifo.empty UInt8 0) c).2.1]
      exact hrb
    · intro rb c hrb t ht
      have h0 := (call_of_shut hrb rfl (Fifo.empty UInt8 0) c).2.2 t ht
      exact (t.within_iff _).mpr (Or.inl h0)
  · intro rb q c hrb
    obtain ⟨hret, hsame, -⟩ := call_of_shut hrb (by omega) q c
    refine ⟨hret, ?_⟩
    simp only [step, hsame]
    exact hrb

lemma likeFresh_of_clean {n s e : BitVec w} (hn : 1 ≤ n.toNat) (block : ℕ → UInt8)
    (h : Clean n.toNat s.toNat e.toNat) : LikeFresh n ⟨n, some block, s, e⟩ := by
  rcases or_assoc.mpr h with h | ⟨hone, h⟩
  · have hrep := represents_of_clean hn block h
    exact likeFresh_of_simulates hn (simulates_queue n.toNat) hrep
      (staysInside_of_represents hrep)
  · exact likeFresh_of_shut hone (shut_of_clean hone block h)

/-! ### Other positions are told apart -/

/-- Used space zero leaves two ways for the positions to lie. -/
lemma positions_of_used {rb : Ringbuffer w} (h : rb.space_used = 0) :
    rb._start.toNat = rb._end.toNat ∨
      rb._end < rb._start ∧ rb._start.toNat = rb._end.toNat + rb._size.toNat := by
  unfold space_used at h
  split_ifs at h with hse
  · left
    rw [sub_eq_zero.mp h]
  · right
    have hes : rb._end < rb._start := BitVec.not_le.mp hse
    have hn : rb._size = rb._start - rb._end := by
      rw [← sub_eq_zero, ← h]
      ring
    have hlt : rb._end.toNat < rb._start.toNat := hes
    refine ⟨hes, ?_⟩
    rw [hn, BitVec.toNat_sub_of_le (BitVec.le_of_lt hes)]
    omega

/-- A packet of one byte shows where the next write goes. -/
lemma push_one {rb : Ringbuffer w} (h1 : (1 : BitVec w).toNat = 1)
    (havail : 1 ≤ rb.space_available.toNat) (hfit : rb._end < rb._start ∨ rb._end ≠ rb._size)
    (src : ℕ → UInt8) :
    rb.push_back (some src) 1 =
      ⟨true, { rb.copyIn rb._end src 1 with _end := rb._end + 1 }, [⟨rb._end.toNat, 1⟩]⟩ := by
  have hne : (1 : BitVec w) ≠ 0 := fun h => by rw [h, toNat_zero] at h1; cases h1
  have hnot : ¬ rb.space_available < 1 := by
    rw [BitVec.lt_def, h1]; omega
  unfold space_available at hnot
  by_cases hes : rb._end < rb._start
  · rw [if_pos hes] at hnot
    simp only [push_back, if_neg hne, if_pos hes, if_neg hnot, h1]
  · have hsize : rb._size ≠ rb._end := (hfit.resolve_left hes).symm
    have hrem : ¬ rb._size - rb._end < 1 := by
      rw [BitVec.lt_def, h1]
      intro h0
      exact hsize (sub_eq_zero.mp (eq_zero_of_toNat (by omega)))
    rw [if_neg hes] at hnot
    simp only [push_back, if_neg hne, if_neg hes, if_neg hnot, if_neg hrem, h1]

/-- The byte pushed is then looked for at `_start`, which may lie past the end of the block. -/
lemma pop_one {n s e : BitVec w} (m : Option (ℕ → UInt8)) (h1 : (1 : BitVec w).toNat = 1)
    (hes : e + 1 < s) (hs : n = s - e) (hsn : s ≠ n) (out : ℕ → UInt8) :
    (pop_front ⟨n, m, s, e + 1⟩ (some out) 1).touched = [⟨s.toNat, 1⟩] := by
  have hne : s ≠ e + 1 := fun h => absurd (h ▸ hes) (by rw [BitVec.lt_def]; omega)
  have hnot : ¬ s < e + 1 := fun h => absurd (BitVec.lt_trans h hes) (by
    rw [BitVec.lt_def]; omega)
  have hheld : e + 1 - s + n = 1 := by
    rw [hs]; ring
  have hself : ¬ (1 : BitVec w) < 1 := by
    rw [BitVec.lt_def]; omega
  have hrem : ¬ n - s < 1 := by
    rw [BitVec.lt_def, h1]
    intro h0
    exact hsn (sub_eq_zero.mp (eq_zero_of_toNat (by omega))).symm
  simp only [pop_front, if_neg hne, if_neg hnot, hheld, if_neg hself, if_neg hrem, h1]

lemma clean_of_likeFresh {n s e : BitVec w} (hn : 1 ≤ n.toNat) (block : ℕ → UInt8)
    (h : LikeFresh n ⟨n, some block, s, e⟩) : Clean n.toNat s.toNat e.toNat := by
  have h1 := toNat_one hn
  by_contra hclean
  unfold Clean at hclean
  have hpos := positions_of_used h.used
  simp only at hpos
  have hn2 : 2 ≤ n.toNat := by omega
  have havail : 1 ≤ (space_available ⟨n, some block, s, e⟩).toNat := by
    rw [h.available, BitVec.toNat_sub_of_le (by rw [BitVec.le_def, h1]; exact hn), h1]
    omega
  have hfit : e < s ∨ e ≠ n := by
    rcases hpos with hse | ⟨hes, -⟩
    · right
      rintro rfl
      omega
    · exact Or.inl hes
  -- one byte in and out again shows both positions
  have hin := h.inside [.push_back (some fun _ => 0) 1, .pop_front (some fun _ => 0) 1]
  simp only [StaysInside, everyStep_cons, call, push_one h1 havail hfit, copyIn,
    List.forall_mem_singleton, Span.within_iff, one_ne_zero, false_or] at hin
  obtain ⟨hend, hstart, -⟩ := hin
  rcases hpos with hse | ⟨hes, hse⟩
  · omega
  have hadd : (e + 1).toNat = e.toNat + 1 := by
    rw [toNat_add_of_le (n := n) (by rw [h1]; exact hend), h1]
  have hes' : e + 1 < s := by
    rw [BitVec.lt_def, hadd]; omega
  have hs : n = s - e := by
    apply BitVec.eq_of_toNat_eq
    rw [BitVec.toNat_sub_of_le (BitVec.le_of_lt hes)]; omega
  have hsn : s ≠ n := by
    rintro rfl
    omega
  simp only [pop_one _ h1 hes' hs hsn, List.forall_mem_singleton, one_ne_zero, false_or] at hstart
  omega

/-! ### A buffer that is allocated again -/

/-- The storage of a history is swapped for a new one; nothing else changes. -/
lemma history_reallocate {ops : List (Op w)} {rb : Ringbuffer w} (h : history new ops = some rb)
    (n : BitVec w) (block : ℕ → UInt8) :
    history new (ops ++ [.deallocate, .allocate n block]) =
      some ⟨n, some block, rb._start, rb._end⟩ := by
  rw [history] at h ⊢
  rw [List.foldlM_append, h]
  rfl

/-- After any history, the buffer released and allocated again behaves like a fresh one exactly
when its positions were clean for the new size. -/
theorem reallocate_likeFresh_iff {ops : List (Op w)} {rb : Ringbuffer w}
    (h : history new ops = some rb) {n : BitVec w} (hn : 1 ≤ n.toNat) (block : ℕ → UInt8) :
    (∃ rb', history new (ops ++ [.deallocate, .allocate n block]) = some rb' ∧ LikeFresh n rb') ↔
      Clean n.toNat rb._start.toNat rb._end.toNat := by
  rw [history_reallocate h]
  constructor
  · rintro ⟨rb', hrb', hlike⟩
    obtain rfl := Option.some.inj hrb'
    exact clean_of_likeFresh hn block hlike
  · intro hclean
    exact ⟨_, rfl, likeFresh_of_clean hn block hclean⟩

/-- A history that leaves one byte behind. -/
def oneByteLeft : List (Op 32) :=
  [.allocate 4 fun _ => 0, .call (.push_back (some fun _ => 7) 1)]

/-- A history that takes its bytes out again, and leaves both positions at two. -/
def positionsMoved : List (Op 32) :=
  [.allocate 4 fun _ => 0, .call (.push_back (some fun _ => 7) 2),
    .call (.pop_front (some fun _ => 0) 2)]

theorem reallocate_likeFresh_iff_used :
    (∃ rb', history new (positionsMoved ++ [.deallocate, .allocate 4 fun _ => 0]) = some rb' ∧
      LikeFresh 4 rb') ∧
    ¬ (∃ rb', history new (oneByteLeft ++ [.deallocate, .allocate 4 fun _ => 0]) = some rb' ∧
      LikeFresh 4 rb') := by
  have moved : history new positionsMoved = some _ := rfl
  have left : history new oneByteLeft = some _ := rfl
  constructor
  · exact (reallocate_likeFresh_iff moved (by decide) _).mpr (by decide)
  · exact (reallocate_likeFresh_iff left (by decide) _).not.mpr (by decide)

/-- The byte left behind is still counted in the new storage. -/
theorem stale_positions :
    ¬ ∀ (ops : List (Op 32)) (n : BitVec 32) (block : ℕ → UInt8) (rb : Ringbuffer 32),
      1 ≤ n.toNat → history new (ops ++ [.deallocate, .allocate n block]) = some rb →
        LikeFresh n rb := by
  intro h
  have hlike := h oneByteLeft 4 (fun _ => 0) _ (by decide) rfl
  exact absurd hlike.used (by decide)

/-! ### A buffer that owns no storage -/

/-- No storage: before the first `allocate`, after `deallocate`, or after `allocate(0)`. -/
def OwnsNothing (rb : Ringbuffer w) : Prop := rb._ringbuffer = none ∨ rb._size = 0

/-- No space is on offer and nothing can be taken out. -/
structure OffersNothing (rb : Ringbuffer w) : Prop where
  available : rb.space_available = 0
  push : ∀ src len, 1 ≤ len.toNat → rb.push_back (some src) len = ⟨false, rb, []⟩
  pop : ∀ out max, (rb.pop_front (some out) max).ret.1 = 0

/-- A call changes neither the size nor whether there is a block. -/
lemma call_storage (rb : Ringbuffer w) (c : Call w) :
    (rb.call c).rb._size = rb._size ∧
      (rb.call c).rb._ringbuffer.isSome = rb._ringbuffer.isSome := by
  cases c with
  | push_back buf len =>
    cases buf with
    | none => exact ⟨rfl, rfl⟩
    | some src =>
      simp only [call, push_back, copyIn]
      split_ifs <;> simp
  | pop_front buf max =>
    cases buf with
    | none => exact ⟨rfl, rfl⟩
    | some out =>
      simp only [call, pop_front]
      split_ifs <;> simp
  | space_used => exact ⟨rfl, rfl⟩
  | space_available => exact ⟨rfl, rfl⟩

/-- Without a block the size is zero. -/
lemma size_of_history {ops : List (Op w)} {rb : Ringbuffer w} (h : history new ops = some rb)
    (hno : rb.OwnsNothing) : rb._size = 0 := by
  have hinv : rb._ringbuffer.isSome = false → rb._size = 0 := by
    apply inv_foldlM (fun rb : Ringbuffer w => rb._ringbuffer.isSome = false → rb._size = 0)
      _ (fun _ => rfl) h
    intro rb op rb' hrb hop
    cases op with
    | call c =>
      obtain rfl := Option.some.inj hop
      obtain ⟨hsize, hblock⟩ := call_storage rb c
      rw [hsize, hblock]
      exact hrb
    | allocate n block =>
      intro hnone
      simp only [apply, allocate] at hop
      split_ifs at hop with hsome
      · simp at hop
      · obtain rfl := Option.some.inj hop
        cases hnone
    | deallocate =>
      cases hop
      exact fun _ => rfl
  rcases hno with hno | hno
  · exact hinv (by rw [hno]; rfl)
  · exact hno

/-- Asked for all it claims to hold, the buffer hands that many bytes over. -/
lemma pop_front_all {rb : Ringbuffer w} (h : rb._start ≠ rb._end) (out : ℕ → UInt8) :
    (rb.pop_front (some out) rb.space_used).ret.1 = rb.space_used := by
  have hself : ∀ a : BitVec w, ¬ a < a := fun a => by
    rw [BitVec.lt_def]; omega
  unfold space_used
  by_cases hse : rb._start < rb._end
  · rw [if_pos (BitVec.le_of_lt hse)]
    simp only [pop_front, if_neg h, if_pos hse, Ringbuffer.min, if_neg (hself _)]
  · have hes : ¬ rb._start ≤ rb._end := by
      intro hle
      rw [BitVec.lt_def] at hse
      rw [BitVec.le_def] at hle
      exact h (BitVec.eq_of_toNat_eq (by omega))
    rw [if_neg hes]
    simp only [pop_front, if_neg h, if_neg hse, if_neg (hself _)]
    split_ifs <;> rfl

/-- With size zero the wrap-around in the space formulas has nothing to cancel it: a buffer whose
positions agree offers `2 ^ w - 1` bytes, any other hands out bytes it does not have. -/
lemma not_offersNothing_of_size (hw : 0 < w) {rb : Ringbuffer w} (h : rb._size = 0) :
    ¬ rb.OffersNothing := by
  intro hoff
  by_cases hne : rb._start = rb._end
  · have havail := hoff.available
    rw [space_available, if_neg (by rw [hne, BitVec.lt_def]; omega), hne, h, sub_self, add_zero,
      zero_sub, neg_eq_zero] at havail
    have hone : (1 : BitVec w).toNat = 1 := by
      simp [Nat.mod_eq_of_lt (Nat.one_lt_two_pow hw.ne')]
    rw [havail, toNat_zero] at hone
    cases hone
  · have hused : rb.space_used = 0 := by
      rw [← pop_front_all hne fun _ => 0]
      exact hoff.pop _ _
    rcases positions_of_used hused with heq | ⟨hlt, heq⟩
    · exact hne (BitVec.eq_of_toNat_eq heq)
    · rw [h, toNat_zero, add_zero] at heq
      exact hne (BitVec.eq_of_toNat_eq heq)

/-- In no reachable state without storage does the buffer offer nothing. -/
theorem not_offersNothing (hw : 0 < w) {ops : List (Op w)} {rb : Ringbuffer w}
    (h : history new ops = some rb) (hno : rb.OwnsNothing) : ¬ rb.OffersNothing :=
  not_offersNothing_of_size hw (size_of_history h hno)

/-- After `allocate(0)` as well. -/
theorem not_offersNothing_zero :
    ¬ OffersNothing (⟨0, some fun _ => 0, 0, 0⟩ : Ringbuffer 32) :=
  not_offersNothing (by decide) (rfl : history new [.allocate 0 fun _ => 0] = some _)
    (Or.inr rfl)

/-- Before the first `allocate` the buffer offers all of the address space. -/
theorem new_offers :
    ¬ ∀ (ops : List (Op 32)) (rb : Ringbuffer 32), history new ops = some rb → rb.OwnsNothing →
      rb.OffersNothing := by
  intro h
  have hoff := h [] new rfl (Or.inl rfl)
  exact absurd hoff.available (by decide)

end Ringbuffer

end RT1064
