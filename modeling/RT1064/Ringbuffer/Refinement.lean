import RT1064.Core.Fifo
import RT1064.Core.Circular
import RT1064.Ringbuffer.Basic

/-!
# The ring buffer refines a FIFO queue

`Represents` ties a buffer to the queue it stands for. `_start` and `_end` may each rest at
`_size` instead of `0`; the one thing excluded is that the bytes between them fill the block.
Every member function is described by one lemma against `Represents`; the simulation and the
statements about whole runs use nothing else.
-/

namespace RT1064

open Core

variable {w : ℕ}

/-! ### Index arithmetic modulo `2 ^ w` -/

@[simp] lemma toNat_zero : (0 : BitVec w).toNat = 0 := by simp

lemma eq_zero_of_toNat {a : BitVec w} (h : a.toNat = 0) : a = 0 :=
  BitVec.eq_of_toNat_eq (h.trans toNat_zero.symm)

lemma not_lt_zero (a : BitVec w) : ¬ a < 0 := by
  rw [BitVec.lt_def, toNat_zero]
  exact Nat.not_lt_zero _

/-- One is one as soon as there is a nonzero value. -/
lemma toNat_one {n : BitVec w} (hn : 1 ≤ n.toNat) : (1 : BitVec w).toNat = 1 := by
  have := n.isLt
  simp [Nat.mod_eq_of_lt (show 1 < 2 ^ w by omega)]

lemma toNat_sub_sub_one {s e : BitVec w} (h : e < s) :
    (s - e - 1).toNat = s.toNat - e.toNat - 1 := by
  have hlt : e.toNat < s.toNat := h
  have hse : (s - e).toNat = s.toNat - e.toNat := BitVec.toNat_sub_of_le (BitVec.le_of_lt h)
  have hone : (1 : BitVec w).toNat = 1 := toNat_one (n := s) (by omega)
  have hle : (1 : BitVec w) ≤ s - e := by
    rw [BitVec.le_def, hone, hse]; omega
  rw [BitVec.toNat_sub_of_le hle, hse, hone]

/-- The free space formula where it relies on wrap-around. -/
lemma toNat_sub_sub_one_add {s e n : BitVec w} (h : s ≤ e) (hu : e.toNat - s.toNat < n.toNat) :
    (s - e - 1 + n).toNat = n.toNat - (e.toNat - s.toNat + 1) := by
  have hn := n.isLt
  have hw : 1 < 2 ^ w ∨ e.toNat - s.toNat = 0 := by omega
  have hes : (e - s).toNat = e.toNat - s.toNat := BitVec.toNat_sub_of_le h
  have hsucc : (e - s + 1).toNat = e.toNat - s.toNat + 1 := by
    have hone : (1 : BitVec w).toNat = 1 % 2 ^ w := by simp
    rw [BitVec.toNat_add, hes, hone, Nat.add_mod_mod, Nat.mod_eq_of_lt (by omega)]
  have hle : e - s + 1 ≤ n := by
    rw [BitVec.le_def, hsucc]; omega
  have heq : s - e - 1 + n = n - (e - s + 1) := by ring
  rw [heq, BitVec.toNat_sub_of_le hle, hsucc]

/-- The used space formula past the end of the block. -/
lemma toNat_sub_add {s e n : BitVec w} (h : e < s) (hs : s.toNat - e.toNat ≤ n.toNat) :
    (e - s + n).toNat = n.toNat - (s.toNat - e.toNat) := by
  have hse : (s - e).toNat = s.toNat - e.toNat := BitVec.toNat_sub_of_le (BitVec.le_of_lt h)
  have hle : s - e ≤ n := by
    rw [BitVec.le_def, hse]; exact hs
  have heq : e - s + n = n - (s - e) := by ring
  rw [heq, BitVec.toNat_sub_of_le hle, hse]

lemma toNat_add_of_le {a b n : BitVec w} (h : a.toNat + b.toNat ≤ n.toNat) :
    (a + b).toNat = a.toNat + b.toNat := by
  have := n.isLt
  rw [BitVec.toNat_add, Nat.mod_eq_of_lt (by omega)]

namespace Ringbuffer

lemma push_back_zero (rb : Ringbuffer w) (buf : Option (ℕ → UInt8)) :
    rb.push_back buf 0 = ⟨false, rb, []⟩ := by
  cases buf <;> simp [push_back]

/-- A packet that is refused leaves the object alone, whatever state it is in. -/
lemma push_back_false (rb : Ringbuffer w) (buf : Option (ℕ → UInt8)) (len : BitVec w)
    (h : (rb.push_back buf len).ret = false) : rb.push_back buf len = ⟨false, rb, []⟩ := by
  cases buf with
  | none => rfl
  | some src =>
    simp only [push_back] at h ⊢
    split_ifs at h ⊢ <;> rfl

/-- Without room for the whole packet nothing happens. -/
lemma push_back_of_lt {rb : Ringbuffer w} {len : BitVec w} (h : rb.space_available < len)
    (buf : Option (ℕ → UInt8)) : rb.push_back buf len = ⟨false, rb, []⟩ := by
  unfold space_available at h
  cases buf with
  | none => rfl
  | some src =>
    by_cases h0 : len = 0
    · simp only [push_back, if_pos h0]
    by_cases hes : rb._end < rb._start
    · rw [if_pos hes] at h
      simp only [push_back, if_neg h0, if_pos hes, if_pos h]
    · rw [if_neg hes] at h
      simp only [push_back, if_neg h0, if_neg hes, if_pos h]

/-! ### The representation invariant -/

/-- `rb` owns `n` bytes and holds the queue `q` between `_start` and `_end`. -/
structure Represents (n : ℕ) (rb : Ringbuffer w) (q : List UInt8) : Prop where
  size_eq : rb._size.toNat = n
  start_le : rb._start.toNat ≤ n
  end_le : rb._end.toNat ≤ n
  not_full : used n rb._start.toNat rb._end.toNat < n
  storage : ∃ m, rb._ringbuffer = some m ∧
    q = window m n rb._start.toNat (used n rb._start.toNat rb._end.toNat)

namespace Represents

variable {n : ℕ} {rb : Ringbuffer w} {q : List UInt8}

lemma length_eq (h : Represents n rb q) :
    q.length = used n rb._start.toNat rb._end.toNat := by
  obtain ⟨m, -, rfl⟩ := h.storage
  exact length_window _ _ _ _

lemma length_lt (h : Represents n rb q) : q.length < n := by
  rw [h.length_eq]; exact h.not_full

lemma length_of_le (h : Represents n rb q) (hse : rb._start ≤ rb._end) :
    q.length = rb._end.toNat - rb._start.toNat := by
  rw [h.length_eq, used, if_pos (BitVec.le_def.mp hse)]

lemma length_of_lt (h : Represents n rb q) (hes : rb._end < rb._start) :
    q.length = rb._end.toNat + n - rb._start.toNat := by
  rw [h.length_eq, used, if_neg (not_le_of_gt (BitVec.lt_def.mp hes))]

/-- The write position is `q.length` cells after the read position, once round at most. -/
lemma start_add_length (h : Represents n rb q) :
    rb._start.toNat + q.length = rb._end.toNat ∨
      rb._start.toNat + q.length = rb._end.toNat + n := by
  have h1 := h.start_le
  rw [h.length_eq, used]
  split_ifs <;> omega

/-- Both positions may be moved once round; the queue then starts at the same cell. -/
lemma of_window {s : BitVec w} {e : BitVec w} {m : ℕ → UInt8} (hsize : rb._size.toNat = n)
    (hs : s.toNat ≤ n) (he : e.toNat ≤ n) (hlt : q.length < n)
    (hse : s.toNat + q.length = e.toNat ∨ s.toNat + q.length = e.toNat + n)
    (hq : q = window m n s.toNat q.length) :
    Represents n { rb with _ringbuffer := some m, _start := s, _end := e } q := by
  have hused : used n s.toNat e.toNat = q.length := by
    unfold used
    split_ifs <;> omega
  exact ⟨hsize, hs, he, by rw [hused]; exact hlt, m, rfl, by rw [hused]; exact hq⟩

lemma space_used_toNat (h : Represents n rb q) : rb.space_used.toNat = q.length := by
  unfold space_used
  split_ifs with hse
  · rw [h.length_of_le hse, BitVec.toNat_sub_of_le hse]
  · have hes : rb._end < rb._start := BitVec.not_le.mp hse
    have h1 := h.start_le
    rw [h.length_of_lt hes, toNat_sub_add hes (by rw [h.size_eq]; omega), h.size_eq]
    have : rb._end.toNat < rb._start.toNat := hes
    omega

lemma space_available_toNat (h : Represents n rb q) :
    rb.space_available.toNat = n - 1 - q.length := by
  unfold space_available
  split_ifs with hes
  · have h1 := h.start_le
    have : rb._end.toNat < rb._start.toNat := hes
    rw [h.length_of_lt hes, toNat_sub_sub_one hes]
    omega
  · have hse : rb._start ≤ rb._end := BitVec.not_lt.mp hes
    have hlen := h.length_of_le hse
    have hlt := h.length_lt
    rw [toNat_sub_sub_one_add hse (by rw [h.size_eq]; omega), h.size_eq]
    omega

/-! ### push_back -/

/-- With room, the copies amount to one write around the block, inside the block. -/
lemma push_back_of_le (h : Represents n rb q) {m : ℕ → UInt8} (hm : rb._ringbuffer = some m)
    (src : ℕ → UInt8) {len : BitVec w} (hpos : 1 ≤ len.toNat)
    (hlen : len.toNat ≤ n - 1 - q.length) :
    ∃ e : BitVec w, e.toNat ≤ n ∧
      (rb._end.toNat + len.toNat = e.toNat ∨ rb._end.toNat + len.toNat = e.toNat + n) ∧
      (rb.push_back (some src) len).ret = true ∧
      (rb.push_back (some src) len).rb =
        { rb with _ringbuffer := some (putRound m n rb._end.toNat src len.toNat), _end := e } ∧
      ∀ t ∈ (rb.push_back (some src) len).touched, t.Within n := by
  have hend := h.end_le
  have hsize := h.size_eq
  have hlt := h.length_lt
  have hrem : (rb._size - rb._end).toNat = n - rb._end.toNat := by
    rw [BitVec.toNat_sub_of_le (BitVec.le_def.mpr (by omega)), hsize]
  have h0 : len ≠ 0 := by rintro rfl; simp at hpos
  have havail : ¬ rb.space_available < len := by
    rw [BitVec.lt_def, h.space_available_toNat]; omega
  unfold space_available at havail
  by_cases hes : rb._end < rb._start
  · rw [if_pos hes] at havail
    have hes' : rb._end.toNat < rb._start.toNat := hes
    have hfit := h.length_of_lt hes
    have hstart := h.start_le
    have hadd : (rb._end + len).toNat = rb._end.toNat + len.toNat :=
      toNat_add_of_le (n := rb._size) (by omega)
    refine ⟨rb._end + len, by omega, Or.inl hadd.symm, ?_⟩
    simp only [push_back, copyIn, if_neg h0, if_pos hes, if_neg havail, hm, Option.map_some,
      true_and]
    refine ⟨?_, ?_⟩
    · rw [putRound, if_pos (by omega)]
    · intro t ht
      obtain rfl := List.mem_singleton.mp ht
      exact (Span.within_iff _ _).mpr (Or.inr (by simp only; omega))
  rw [if_neg hes] at havail
  by_cases hwrap : rb._size - rb._end < len
  · have hwrap' : n - rb._end.toNat < len.toNat := by
      rw [← hrem]; exact hwrap
    have hrest : (0 + (len - (rb._size - rb._end))).toNat = len.toNat - (n - rb._end.toNat) := by
      rw [zero_add, BitVec.toNat_sub_of_le (BitVec.le_of_lt hwrap), hrem]
    refine ⟨0 + (len - (rb._size - rb._end)), by omega, Or.inr (by omega), ?_⟩
    simp only [push_back, copyIn, if_neg h0, if_neg hes, if_neg havail, if_pos hwrap, hm,
      Option.map_some, true_and]
    rw [zero_add] at hrest ⊢
    refine ⟨?_, ?_⟩
    · rw [putRound, if_neg (by omega), hrem, hrest, toNat_zero]
    · intro t ht
      rcases List.mem_pair.mp ht with rfl | rfl
      · exact (Span.within_iff _ _).mpr (Or.inr (by simp only; omega))
      · refine (Span.within_iff _ _).mpr (Or.inr ?_)
        simp only [toNat_zero, hrest]
        omega
  · have hin : rb._end.toNat + len.toNat ≤ n := by
      have : len.toNat ≤ (rb._size - rb._end).toNat := BitVec.not_lt.mp hwrap
      omega
    have hadd : (rb._end + len).toNat = rb._end.toNat + len.toNat :=
      toNat_add_of_le (n := rb._size) (by omega)
    refine ⟨rb._end + len, by omega, Or.inl hadd.symm, ?_⟩
    simp only [push_back, copyIn, if_neg h0, if_neg hes, if_neg havail, if_neg hwrap, hm,
      Option.map_some, true_and]
    refine ⟨?_, ?_⟩
    · rw [putRound, if_pos (by omega)]
    · intro t ht
      obtain rfl := List.mem_singleton.mp ht
      exact (Span.within_iff _ _).mpr (Or.inr hin)

/-- A packet that fits is appended. -/
lemma push_back_represents (h : Represents n rb q) (src : ℕ → UInt8) (len : BitVec w)
    (hpos : 1 ≤ len.toNat) (hlen : len.toNat ≤ n - 1 - q.length) :
    (rb.push_back (some src) len).ret = true ∧
      Represents n (rb.push_back (some src) len).rb (q ++ (List.range len.toNat).map src) ∧
      ∀ t ∈ (rb.push_back (some src) len).touched, t.Within n := by
  obtain ⟨m, hm, hq⟩ := h.storage
  obtain ⟨e, he, hadv, hret, hrb, hin⟩ := h.push_back_of_le hm src hpos hlen
  refine ⟨hret, ?_, hin⟩
  have hlt := h.length_lt
  have hstart := h.start_le
  have hse := h.start_add_length
  have hlen' : (q ++ (List.range len.toNat).map src).length = q.length + len.toNat := by simp
  rw [hrb]
  refine of_window h.size_eq h.start_le he ?_ ?_ ?_
  · omega
  · omega
  · rw [hlen', window_putRound m src h.start_le h.end_le hse (by omega), h.length_eq, ← hq]

/-! ### pop_front -/

lemma toNat_min (a b : BitVec w) : (Ringbuffer.min a b).toNat = Nat.min a.toNat b.toNat := by
  unfold Ringbuffer.min
  split_ifs with hab
  · exact (Nat.min_eq_left (BitVec.le_of_lt hab)).symm
  · exact (Nat.min_eq_right (BitVec.not_lt.mp hab)).symm

/-- The single copy out that two branches of `pop_front` make. -/
lemma pop_plain (h : Represents n rb q) {m : ℕ → UInt8} (hm : rb._ringbuffer = some m)
    (out : ℕ → UInt8) {t : BitVec w} (ht : rb._start.toNat + t.toNat ≤ n) :
    (rb._start + t).toNat = rb._start.toNat + t.toNat ∧
      copyInto out 0 (rb.bytesAt rb._start) t.toNat = getRound m n rb._start.toNat out t.toNat ∧
      Span.Within ⟨rb._start.toNat, t.toNat⟩ n := by
  refine ⟨toNat_add_of_le (n := rb._size) (by rw [h.size_eq]; exact ht), ?_, ?_⟩
  · rw [getRound, if_pos (by omega)]
    unfold bytesAt
    rw [hm]
    rfl
  · exact (Span.within_iff _ _).mpr (Or.inr ht)

/-- Taking up to `k` bytes out copies them around the block and moves `_start` past them. -/
lemma pop_front_eq (h : Represents n rb q) {m : ℕ → UInt8} (hm : rb._ringbuffer = some m)
    (out : ℕ → UInt8) (k : BitVec w) :
    ∃ s t : BitVec w, t.toNat = Nat.min q.length k.toNat ∧ s.toNat ≤ n ∧
      (rb._start.toNat + t.toNat = s.toNat ∨
        0 < s.toNat ∧ rb._start.toNat + t.toNat = s.toNat + n) ∧
      (rb.pop_front (some out) k).ret = (t, some (getRound m n rb._start.toNat out t.toNat)) ∧
      (rb.pop_front (some out) k).rb = { rb with _start := s } ∧
      ∀ u ∈ (rb.pop_front (some out) k).touched, u.Within n := by
  have hstart := h.start_le
  have hend := h.end_le
  have hsize := h.size_eq
  have hlt := h.length_lt
  by_cases hne : rb._start = rb._end
  · have hq0 : q.length = 0 := by
      rw [h.length_of_le (hne ▸ BitVec.le_refl _), hne, Nat.sub_self]
    refine ⟨rb._start, 0, ?_, hstart, Or.inl (by rw [toNat_zero, add_zero]), ?_⟩
    · rw [hq0, toNat_zero]; exact (Nat.zero_min _).symm
    · simp only [pop_front, if_pos hne, toNat_zero, getRound_eq _ _ hstart, copyInto_zero,
        List.not_mem_nil, false_imp_iff, implies_true, and_true]
  by_cases hse : rb._start < rb._end
  · have hheld : (rb._end - rb._start).toNat = q.length := by
      rw [h.length_of_le (BitVec.le_of_lt hse), BitVec.toNat_sub_of_le (BitVec.le_of_lt hse)]
    have hmin : (Ringbuffer.min (rb._end - rb._start) k).toNat = Nat.min q.length k.toNat := by
      rw [toNat_min, hheld]
    have hlen := h.length_of_le (BitVec.le_of_lt hse)
    have hle : Nat.min q.length k.toNat ≤ q.length := Nat.min_le_left _ _
    obtain ⟨hadd, hcopy, hin⟩ := h.pop_plain hm out
      (t := Ringbuffer.min (rb._end - rb._start) k) (by omega)
    refine ⟨_, _, hmin, ?_, Or.inl hadd.symm, ?_⟩
    · omega
    · simp only [pop_front, if_neg hne, if_pos hse, hcopy, List.forall_mem_singleton]
      exact ⟨trivial, trivial, hin⟩
  have hes : rb._end < rb._start := by
    rw [BitVec.lt_def] at hse ⊢
    have : rb._start.toNat ≠ rb._end.toNat := fun h' => hne (BitVec.eq_of_toNat_eq h')
    omega
  have hlen := h.length_of_lt hes
  have hheld : (rb._end - rb._start + rb._size).toNat = q.length := by
    have hes' : rb._end.toNat < rb._start.toNat := hes
    rw [toNat_sub_add hes (by omega), hsize]
    omega
  have hmin : (if k < rb._end - rb._start + rb._size then k
      else rb._end - rb._start + rb._size).toNat = Nat.min q.length k.toNat := by
    rw [← hheld]
    exact (toNat_min k _).trans (Nat.min_comm _ _)
  have hrem : (rb._size - rb._start).toNat = n - rb._start.toNat := by
    rw [BitVec.toNat_sub_of_le (BitVec.le_def.mpr (by omega)), hsize]
  have hle : Nat.min q.length k.toNat ≤ q.length := Nat.min_le_left _ _
  generalize ht : (if k < rb._end - rb._start + rb._size then k
      else rb._end - rb._start + rb._size) = t at hmin
  by_cases hwrap : rb._size - rb._start < t
  · have hwrap' : n - rb._start.toNat < t.toNat := by
      rw [← hrem]; exact hwrap
    have hrest : (t - (rb._size - rb._start)).toNat = t.toNat - (n - rb._start.toNat) := by
      rw [BitVec.toNat_sub_of_le (BitVec.le_of_lt hwrap), hrem]
    refine ⟨t - (rb._size - rb._start), t, hmin, by omega, Or.inr ⟨by omega, by omega⟩, ?_⟩
    simp only [pop_front, if_neg hne, if_neg hse, ht, if_pos hwrap, zero_add]
    refine ⟨?_, trivial, ?_⟩
    · rw [getRound, if_neg (by omega), hrem, hrest]
      unfold bytesAt
      simp only [hm, Option.getD_some, toNat_zero, zero_add]
    · intro u hu
      rcases List.mem_pair.mp hu with rfl | rfl
      · exact (Span.within_iff _ _).mpr (Or.inr (by simp only; omega))
      · refine (Span.within_iff _ _).mpr (Or.inr ?_)
        simp only [toNat_zero, hrest]
        omega
  · have hfit : t.toNat ≤ (rb._size - rb._start).toNat := BitVec.not_lt.mp hwrap
    obtain ⟨hadd, hcopy, hin⟩ := h.pop_plain hm out (t := t) (by omega)
    refine ⟨rb._start + t, t, hmin, by omega, Or.inl hadd.symm, ?_⟩
    simp only [pop_front, if_neg hne, if_neg hse, ht, if_neg hwrap, hcopy,
      List.forall_mem_singleton]
    exact ⟨trivial, trivial, hin⟩

/-- What is taken out is the front of the queue, laid over the caller's buffer. -/
lemma pop_front_represents (h : Represents n rb q) (out : ℕ → UInt8) (k : BitVec w) :
    (rb.pop_front (some out) k).ret =
        (BitVec.ofNat w (q.take k.toNat).length, some (overlay (q.take k.toNat) out)) ∧
      Represents n (rb.pop_front (some out) k).rb (q.drop k.toNat) ∧
      ∀ u ∈ (rb.pop_front (some out) k).touched, u.Within n := by
  obtain ⟨m, hm, hq⟩ := h.storage
  rw [← h.length_eq] at hq
  obtain ⟨s, t, ht, hs, hadv, hret, hrb, hin⟩ := h.pop_front_eq hm out k
  have hlt := h.length_lt
  have hstart := h.start_le
  have hend := h.end_le
  have hse := h.start_add_length
  have hle : t.toNat ≤ q.length := ht ▸ Nat.min_le_left _ _
  have hmin : Nat.min k.toNat q.length = t.toNat := by rw [ht]; exact Nat.min_comm _ _
  have htake : q.take k.toNat = window m n rb._start.toNat t.toNat := by
    rw [← take_window m n _ hle, ← hq, List.take_eq_take_iff]
    exact hmin.trans (Nat.min_eq_left hle).symm
  have hdrop : q.drop k.toNat = window m n (rb._start.toNat + t.toNat) (q.length - t.toNat) := by
    rw [← drop_window m n _ hle, ← hq, List.drop_eq_drop_iff]
    exact hmin.trans (Nat.min_eq_left hle).symm
  refine ⟨?_, ?_, hin⟩
  · rw [hret, htake, length_window, BitVec.ofNat_toNat, BitVec.setWidth_eq, overlay_window,
      getRound_eq _ _ hstart]
  · have hdl : (q.drop k.toNat).length = q.length - t.toNat := by
      rw [hdrop, length_window]
    rw [hrb]
    have hrep : Represents n { rb with _ringbuffer := some m, _start := s } (q.drop k.toNat) := by
      apply of_window h.size_eq hs hend (by omega) (by omega)
      rw [hdl]
      rcases hadv with hadv | ⟨-, hadv⟩
      · rw [← hadv]; exact hdrop
      · have hsub : s.toNat = rb._start.toNat + t.toNat - n := by omega
        rw [hsub, ← window_sub m (by omega) (by omega)]
        exact hdrop
    rwa [← hm] at hrep

end Represents

/-! ### The queue behind the buffer -/

/-- What the calls mean for a queue of bytes. -/
def queueStep {cap : ℕ} (q : Fifo UInt8 cap) : Call w → Reply w × Fifo UInt8 cap
  | .push_back none _ => (.pushed false, q)
  | .push_back (some src) len =>
    let r := q.push ((List.range len.toNat).map src)
    (.pushed r.1, r.2)
  | .pop_front none _ => (.popped 0 none, q)
  | .pop_front (some out) max =>
    let r := q.pop max.toNat
    (.popped (BitVec.ofNat w r.1.length) (some (overlay r.1 out)), r.2)
  | .space_used      => (.space (BitVec.ofNat w q.items.length), q)
  | .space_available => (.space (BitVec.ofNat w q.room), q)

lemma eq_ofNat {a : BitVec w} {k : ℕ} (h : a.toNat = k) : a = BitVec.ofNat w k := by
  rw [← h, BitVec.ofNat_toNat, BitVec.setWidth_eq]

/-- One call on a buffer that represents `q` does to `q` what `queueStep` says, and copies
inside the block. -/
lemma call_represents {n : ℕ} {rb : Ringbuffer w} {q : Fifo UInt8 (n - 1)}
    (h : Represents n rb q.items) (c : Call w) :
    (rb.call c).ret = (queueStep q c).1 ∧ Represents n (rb.call c).rb (queueStep q c).2.items ∧
      ∀ t ∈ (rb.call c).touched, t.Within n := by
  cases c with
  | push_back buf len =>
    cases buf with
    | none =>
      simp only [call, queueStep, push_back, List.not_mem_nil, false_imp_iff, implies_true,
        and_true, true_and]
      exact h
    | some src =>
      have hlen : ((List.range len.toNat).map src).length = len.toNat := by simp
      by_cases hq : q.Admits ((List.range len.toNat).map src)
      · obtain ⟨hret, hrep, hin⟩ := h.push_back_represents src len (hlen ▸ hq.1) (hlen ▸ hq.2)
        simp only [call, queueStep, Fifo.push_of_admits hq, Fifo.append_items, hret, true_and]
        exact ⟨hrep, hin⟩
      · have hsame : rb.push_back (some src) len = ⟨false, rb, []⟩ := by
          by_cases h0 : len.toNat = 0
          · obtain rfl : len = 0 := eq_zero_of_toNat h0
            exact push_back_zero rb _
          · apply push_back_of_lt
            rw [Fifo.Admits, hlen, Fifo.room] at hq
            rw [BitVec.lt_def, h.space_available_toNat]
            omega
        simp only [call, queueStep, Fifo.push_of_not_admits hq, hsame, List.not_mem_nil,
          false_imp_iff, implies_true, and_true, true_and]
        exact h
  | pop_front buf max =>
    cases buf with
    | none =>
      simp only [call, queueStep, pop_front, List.not_mem_nil, false_imp_iff, implies_true,
        and_true, true_and]
      exact h
    | some out =>
      obtain ⟨hret, hrep, hin⟩ := h.pop_front_represents out max
      simp only [call, queueStep, hret, Fifo.pop_items]
      exact ⟨rfl, hrep, hin⟩
  | space_used =>
    simp only [call, queueStep, List.not_mem_nil, false_imp_iff, implies_true, and_true]
    exact ⟨congrArg _ (eq_ofNat h.space_used_toNat), h⟩
  | space_available =>
    simp only [call, queueStep, List.not_mem_nil, false_imp_iff, implies_true, and_true]
    exact ⟨congrArg _ (eq_ofNat h.space_available_toNat), h⟩

lemma simulates_queue (n : ℕ) :
    Simulates (fun (rb : Ringbuffer w) (q : Fifo UInt8 (n - 1)) => Represents n rb q.items)
      step queueStep := by
  intro rb q c h
  obtain ⟨hret, hrep, -⟩ := call_represents h c
  exact ⟨hret, hrep⟩

lemma staysInside_of_represents {n : ℕ} {rb : Ringbuffer w} {q : Fifo UInt8 (n - 1)}
    (h : Represents n rb q.items) (cs : List (Call w)) : StaysInside n rb cs := by
  apply everyStep_of_forall_inv
    (fun rb : Ringbuffer w => ∃ q : Fifo UInt8 (n - 1), Represents n rb q.items) _ _ cs ⟨q, h⟩
  · rintro rb c ⟨q, h⟩
    exact ⟨_, (call_represents h c).2.1⟩
  · rintro rb c ⟨q, h⟩
    exact (call_represents h c).2.2

/-- What the member functions owe a client when `q` is what the buffer holds. -/
structure Serves {cap : ℕ} (rb : Ringbuffer w) (q : Fifo UInt8 cap) : Prop where
  used : rb.space_used.toNat = q.items.length
  available : rb.space_available.toNat = cap - q.items.length
  push_iff : ∀ src len, (rb.push_back (some src) len).ret = true ↔
    1 ≤ len.toNat ∧ len.toNat ≤ cap - q.items.length
  push_false : ∀ buf len, (rb.push_back buf len).ret = false → (rb.push_back buf len).rb = rb
  pop_count : ∀ out max, (rb.pop_front (some out) max).ret.1.toNat =
    Nat.min max.toNat q.items.length
  pop_bytes : ∀ out max, (rb.pop_front (some out) max).ret.2 =
    some (overlay (q.items.take max.toNat) out)

lemma Represents.serves {n : ℕ} {rb : Ringbuffer w} {q : Fifo UInt8 (n - 1)}
    (h : Represents n rb q.items) : Serves rb q where
  used := h.space_used_toNat
  available := h.space_available_toNat
  push_iff src len := by
    constructor
    · intro hret
      refine ⟨?_, ?_⟩
      · by_contra h0
        obtain rfl : len = 0 := eq_zero_of_toNat (by omega)
        rw [push_back_zero] at hret
        cases hret
      · by_contra hlt
        have havail : rb.space_available < len := by
          rw [BitVec.lt_def, h.space_available_toNat]; omega
        rw [push_back_of_lt havail] at hret
        cases hret
    · rintro ⟨hpos, hlen⟩
      exact (h.push_back_represents src len hpos hlen).1
  push_false buf len hret := by rw [push_back_false rb buf len hret]
  pop_count out max := by
    obtain ⟨m, hm, -⟩ := h.storage
    obtain ⟨s, t, ht, -, -, hret, -⟩ := h.pop_front_eq hm out max
    rw [hret, ht]
    exact Nat.min_comm _ _
  pop_bytes out max := by rw [(h.pop_front_represents out max).1]

lemma allocate_new (n : BitVec w) (block : ℕ → UInt8) :
    (new : Ringbuffer w).allocate n block =
      some ⟨true, { _size := n, _ringbuffer := some block, _start := 0, _end := 0 }, []⟩ := rfl

/-- Fresh storage of at least one byte represents the empty queue. -/
lemma represents_empty {n : BitVec w} (hn : 1 ≤ n.toNat) (block : ℕ → UInt8) :
    Represents n.toNat { _size := n, _ringbuffer := some block, _start := 0, _end := 0 }
      (Fifo.empty UInt8 (n.toNat - 1)).items := by
  refine ⟨rfl, ?_, ?_, ?_, block, rfl, ?_⟩
  · simp
  · simp
  · simp [used]; omega
  · simp [used]

/-- For every capacity and every run of calls, the buffer behind one `allocate` answers like the
queue, serves its contents in the state reached, and copies inside its block. -/
theorem refines_fifo {n : BitVec w} (hn : 1 ≤ n.toNat) (block : ℕ → UInt8) :
    ∃ r, (new : Ringbuffer w).allocate n block = some r ∧ r.ret = true ∧
      ∀ cs : List (Call w),
        answers step r.rb cs = answers queueStep (Fifo.empty UInt8 (n.toNat - 1)) cs ∧
        Serves (final step r.rb cs) (final queueStep (Fifo.empty UInt8 (n.toNat - 1)) cs) ∧
        StaysInside n.toNat r.rb cs := by
  refine ⟨_, allocate_new n block, rfl, fun cs => ?_⟩
  have h := represents_empty hn block
  exact ⟨(simulates_queue n.toNat).answers_eq h cs,
    ((simulates_queue n.toNat).final_rel h cs).serves, staysInside_of_represents h cs⟩

/-- A block of four bytes, indexed with 32 bits. -/
theorem refines_fifo_four :
    ∃ r, (new : Ringbuffer 32).allocate 4 (fun _ => 0) = some r ∧ r.ret = true ∧
      ∀ cs : List (Call 32),
        answers step r.rb cs = answers queueStep (Fifo.empty UInt8 3) cs ∧
        Serves (final step r.rb cs) (final queueStep (Fifo.empty UInt8 3) cs) ∧
        StaysInside 4 r.rb cs :=
  refines_fifo (n := (4 : BitVec 32)) (by decide) fun _ => 0

end Ringbuffer

end RT1064
