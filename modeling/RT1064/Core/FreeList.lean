import Mathlib.Algebra.Order.BigOperators.Group.List
import Mathlib.Data.List.Pairwise
import Mathlib.Data.Set.Basic
import Mathlib.Order.Bounds.Basic
import RT1064.Core.Memory

/-!
# Lists of free blocks

A free list holds blocks of addresses in ascending order, and no two blocks with an address in them
touch each other. What it stands for is the set of the addresses that its blocks cover: a run of
covered addresses is always part of one block, so that first fit finds the lowest run of a given
length and finds none only if there is none. Blocks may be empty, as markers are.
-/

namespace RT1064.Core

/-! ### Blocks -/

namespace Span

/-- The first address after the block. -/
def stop (t : Span) : ℕ := t.offset + t.length

/-- The address `b` is part of the block. -/
def Covers (t : Span) (b : ℕ) : Prop := t.offset ≤ b ∧ b < t.stop

instance (t : Span) (b : ℕ) : Decidable (t.Covers b) :=
  inferInstanceAs (Decidable (_ ∧ _))

/-- The block `t` is over before `u` begins, and they do not touch unless `u` is empty. -/
structure Before (t u : Span) : Prop where
  offset_lt : t.offset < u.offset
  stop_le : t.stop ≤ u.offset
  empty : t.stop = u.offset → u.length = 0

lemma Before.trans {t u v : Span} (h : t.Before u) (h' : u.Before v) : t.Before v := by
  obtain ⟨h1, h2, h3⟩ := h
  obtain ⟨h4, h5, h6⟩ := h'
  have hu : u.offset ≤ u.stop := Nat.le_add_right _ _
  exact ⟨h1.trans h4, by omega, fun h => h6 (by omega)⟩

lemma covers_def {t : Span} {b : ℕ} : t.Covers b ↔ t.offset ≤ b ∧ b < t.offset + t.length := Iff.rfl

/-- Two blocks that touch, as one. -/
def join (t u : Span) : Span := ⟨t.offset, t.length + u.length⟩

lemma covers_join {t u : Span} (h : t.stop = u.offset) (b : ℕ) :
    (t.join u).Covers b ↔ t.Covers b ∨ u.Covers b := by
  simp only [Covers, join, stop] at h ⊢
  omega

/-- The first `n` addresses of a block. -/
def front (t : Span) (n : ℕ) : Span := ⟨t.offset, n⟩

/-- The block without its first `n` addresses. -/
def back (t : Span) (n : ℕ) : Span := ⟨t.offset + n, t.length - n⟩

lemma covers_iff_front_or_back {t : Span} {n : ℕ} (h : n ≤ t.length) (b : ℕ) :
    t.Covers b ↔ (t.front n).Covers b ∨ (t.back n).Covers b := by
  simp only [Covers, front, back, stop]
  omega

lemma not_covers_front_of_back {t : Span} {n b : ℕ} (h : (t.back n).Covers b) :
    ¬ (t.front n).Covers b := by
  simp only [Covers, front, back, stop] at h ⊢
  omega

end Span

/-- Two blocks without a common address, one before the other. -/
lemma Span.stop_le_or {t u : Span} (ht : 0 < t.length) (hu : 0 < u.length)
    (h : ∀ b, t.Covers b → ¬ u.Covers b) : t.stop ≤ u.offset ∨ u.stop ≤ t.offset := by
  by_contra hover
  refine h (max t.offset u.offset) ?_ ?_
  · simp only [Covers, stop] at hover ⊢
    omega
  · simp only [Covers, stop] at hover ⊢
    omega

/-! ### The addresses of a list of blocks -/

/-- The addresses in the blocks of `l`. -/
def covered (l : List Span) : Set ℕ := {b | ∃ t ∈ l, t.Covers b}

lemma mem_covered {l : List Span} {b : ℕ} : b ∈ covered l ↔ ∃ t ∈ l, t.Covers b := Iff.rfl

@[simp] lemma notMem_covered_nil {b : ℕ} : b ∉ covered [] := by
  simp [mem_covered]

@[simp] lemma mem_covered_cons {t : Span} {l : List Span} {b : ℕ} :
    b ∈ covered (t :: l) ↔ t.Covers b ∨ b ∈ covered l := by
  simp [mem_covered]

@[simp] lemma mem_covered_append {l l' : List Span} {b : ℕ} :
    b ∈ covered (l ++ l') ↔ b ∈ covered l ∨ b ∈ covered l' := by
  simp [mem_covered, or_and_right, exists_or]

lemma length_le_sum {t : Span} {l : List Span} (h : t ∈ l) :
    t.length ≤ (l.map Span.length).sum :=
  List.single_le_sum (fun _ _ => Nat.zero_le _) _ (List.mem_map_of_mem h)

/-- The `n` addresses from `a` on are all in `S`. -/
def IsRun (S : Set ℕ) (a n : ℕ) : Prop := ∀ b, a ≤ b → b < a + n → b ∈ S

/-- A run ends before an address that is not in the set. -/
lemma IsRun.le_of_notMem {S : Set ℕ} {a n m : ℕ} (h : IsRun S a n) (hm : a + m ∉ S) : n ≤ m := by
  by_contra hlt
  exact hm (h (a + m) (Nat.le_add_right a m) (Nat.add_lt_add_left (Nat.lt_of_not_le hlt) a))

/-- The blocks are in ascending order and do not touch. -/
def Separated (l : List Span) : Prop := l.Pairwise Span.Before

section Separated

variable {l : List Span} {t u : Span}

lemma Separated.before_or (h : Separated l) (ht : t ∈ l) (hu : u ∈ l) :
    t = u ∨ t.Before u ∨ u.Before t := by
  induction l with
  | nil => exact absurd ht List.not_mem_nil
  | cons v l ih =>
    obtain ⟨hv, hl⟩ := List.pairwise_cons.1 h
    rcases List.mem_cons.1 ht with rfl | ht'
    · rcases List.mem_cons.1 hu with rfl | hu'
      · exact .inl rfl
      · exact .inr (.inl (hv u hu'))
    · rcases List.mem_cons.1 hu with rfl | hu'
      · exact .inr (.inr (hv t ht'))
      · exact ih hl ht' hu'

/-- A list in two parts, before and from an address on. -/
lemma Separated.exists_split (h : Separated l) (a : ℕ) : ∃ pre post, l = pre ++ post ∧
    (∀ t ∈ pre, t.offset < a) ∧ ∀ u ∈ post, a ≤ u.offset := by
  induction l with
  | nil => exact ⟨[], [], rfl, by simp, by simp⟩
  | cons v l ih =>
    obtain ⟨hv, hl⟩ := List.pairwise_cons.1 h
    by_cases hlt : v.offset < a
    · obtain ⟨pre, post, rfl, hpre, hpost⟩ := ih hl
      exact ⟨v :: pre, post, rfl, List.forall_mem_cons.2 ⟨hlt, hpre⟩, hpost⟩
    · have hle := Nat.le_of_not_lt hlt
      refine ⟨[], v :: l, rfl, by simp, List.forall_mem_cons.2 ⟨hle, fun u hu => ?_⟩⟩
      exact hle.trans (hv u hu).offset_lt.le

/-- Only its own block has its first address in a block. -/
lemma Separated.eq_of_covers (h : Separated l) (ht : t ∈ l) (hu : u ∈ l)
    (hcov : t.Covers u.offset) : u = t := by
  rcases h.before_or ht hu with rfl | hb | hb
  · rfl
  · exact absurd hcov.2 (Nat.not_lt.2 hb.stop_le)
  · exact absurd hcov.1 (Nat.not_le.2 hb.offset_lt)

/-- A run of covered addresses lies in one block. -/
lemma Separated.exists_block (h : Separated l) {a n : ℕ} (hn : 0 < n)
    (hrun : IsRun (covered l) a n) : ∃ t ∈ l, t.offset ≤ a ∧ a + n ≤ t.stop := by
  induction n, hn using Nat.le_induction with
  | base =>
    obtain ⟨t, ht, hta, hat⟩ := hrun a le_rfl (Nat.lt_succ_self a)
    exact ⟨t, ht, hta, hat⟩
  | succ n hn ih =>
    obtain ⟨t, ht, hta, hat⟩ := ih fun b hb hb' => hrun b hb (hb'.trans (Nat.lt_succ_self _))
    obtain ⟨u, hu, hcov⟩ := hrun (a + n) (Nat.le_add_right a n) (Nat.lt_succ_self _)
    obtain ⟨hua, hau⟩ := hcov
    -- the address after the run so far belongs to the same block: no two blocks touch
    rcases h.before_or ht hu with rfl | htu | hut
    · exact ⟨t, ht, hta, hau⟩
    · have hempty := htu.empty (le_antisymm htu.stop_le (hua.trans hat))
      rw [Span.stop, hempty] at hau
      omega
    · have := hut.stop_le
      omega

/-- A block with an address in it is as long as it can be. -/
lemma Separated.stop_notMem (h : Separated l) (ht : t ∈ l) (hpos : 0 < t.length) :
    t.stop ∉ covered l := by
  rintro ⟨u, hu, hut, htu⟩
  rcases h.before_or ht hu with rfl | hb | hb
  · exact lt_irrefl _ htu
  · have hempty := hb.empty (le_antisymm hb.stop_le hut)
    simp only [Span.stop, hempty] at htu hut
    omega
  · have hle := hb.stop_le
    simp only [Span.stop] at htu hle
    omega

/-- Nor does a block begin after a covered address. -/
lemma Separated.pred_notMem (h : Separated l) (ht : t ∈ l) (hpos : 0 < t.length) {b : ℕ}
    (hb : b + 1 = t.offset) : b ∉ covered l := by
  rintro ⟨u, hu, hub, hbu⟩
  rcases h.before_or ht hu with rfl | hbf | hbf
  · omega
  · have := hbf.offset_lt
    omega
  · have hle := hbf.stop_le
    have hempty := hbf.empty (by omega)
    omega

lemma isRun_of_mem (ht : t ∈ l) {n : ℕ} (hn : n ≤ t.length) : IsRun (covered l) t.offset n := by
  intro b hb hb'
  exact ⟨t, ht, hb, hb'.trans_le (Nat.add_le_add_left hn _)⟩

/-- A run of addresses that cannot be made longer on either side. -/
structure MaximalRun (S : Set ℕ) (t : Span) : Prop where
  pos : 0 < t.length
  run : IsRun S t.offset t.length
  stop_notMem : t.stop ∉ S
  pred_notMem : ∀ b, b + 1 = t.offset → b ∉ S

/-- The blocks of a list are the maximal runs of what it covers, apart from the empty ones. -/
lemma Separated.maximalRun_iff (h : Separated l) :
    MaximalRun (covered l) t ↔ t ∈ l ∧ 0 < t.length := by
  constructor
  · intro hmax
    obtain ⟨u, hu, hut, htu⟩ := h.exists_block hmax.pos hmax.run
    have hpos : 0 < u.length := by
      have := hmax.pos
      rw [Span.stop] at htu
      omega
    have hrun := isRun_of_mem hu le_rfl
    have hoff : u.offset = t.offset := by
      by_contra hne
      refine hmax.pred_notMem (t.offset - 1) (by omega) (hrun _ (by omega) ?_)
      have := hmax.pos
      rw [Span.stop] at htu
      omega
    have hlen : u.length = t.length := by
      by_contra hne
      refine hmax.stop_notMem (hrun _ ?_ ?_)
      · rw [Span.stop, hoff]
        exact Nat.le_add_right _ _
      · simp only [Span.stop] at htu ⊢
        omega
    have heq : u = t := by
      cases u
      cases t
      simp_all
    exact ⟨heq ▸ hu, hmax.pos⟩
  · rintro ⟨ht, hpos⟩
    exact ⟨hpos, isRun_of_mem ht le_rfl, h.stop_notMem ht hpos,
      fun b hb => h.pred_notMem ht hpos hb⟩

lemma Separated.exists_maximalRun (h : Separated l) {n : ℕ} (hn : n ∈ l.map Span.length)
    (h0 : n ≠ 0) : ∃ u, MaximalRun (covered l) u ∧ u.length = n := by
  obtain ⟨u, hu, rfl⟩ := List.mem_map.1 hn
  exact ⟨u, h.maximalRun_iff.2 ⟨hu, Nat.pos_of_ne_zero h0⟩, rfl⟩

end Separated

/-! ### First fit -/

/-- The first block of length `n` or more. -/
def firstFit (n : ℕ) (l : List Span) : Option Span := l.find? fun t => n ≤ t.length

/-- First fit fails exactly if there is no run of that length at all. -/
lemma firstFit_eq_none_iff {l : List Span} (h : Separated l) {n : ℕ} (hn : 0 < n) :
    firstFit n l = none ↔ ∀ a, ¬ IsRun (covered l) a n := by
  rw [firstFit, List.find?_eq_none]
  constructor
  · intro hall a hrun
    obtain ⟨t, ht, hta, hat⟩ := h.exists_block hn hrun
    refine hall t ht (decide_eq_true ?_)
    rw [Span.stop] at hat
    omega
  · intro hno t ht hle
    exact hno t.offset (isRun_of_mem ht (of_decide_eq_true hle))

/-- The block that first fit finds begins where the lowest run of that length does. -/
lemma isLeast_of_firstFit {l : List Span} (h : Separated l) {n : ℕ} (hn : 0 < n) {t : Span}
    (hfit : firstFit n l = some t) : IsLeast {a | IsRun (covered l) a n} t.offset := by
  obtain ⟨hlen, pre, post, rfl, hpre⟩ := List.find?_eq_some_iff_append.1 hfit
  have hmem : t ∈ pre ++ t :: post := List.mem_append_right _ List.mem_cons_self
  refine ⟨isRun_of_mem hmem (of_decide_eq_true hlen), ?_⟩
  intro a hrun
  obtain ⟨u, hu, hua, hau⟩ := h.exists_block hn hrun
  refine le_trans ?_ hua
  rcases List.mem_append.1 hu with hu | hu
  · have hshort := hpre u hu
    rw [Bool.not_eq_true', decide_eq_false_iff_not] at hshort
    rw [Span.stop] at hau
    omega
  · rcases List.mem_cons.1 hu with rfl | hu
    · exact le_rfl
    · have hbefore := (List.pairwise_cons.1 (List.pairwise_append.1 h).2.1).1 u hu
      exact hbefore.offset_lt.le

/-! ### Taking a block out -/

section Edit

variable {pre post : List Span} {t u x : Span}

/-- A part of a block in its place. -/
lemma Separated.replace (h : Separated (pre ++ t :: post)) (hoff : t.offset ≤ u.offset)
    (hstop : u.stop ≤ t.stop) (hpos : 0 < u.length) : Separated (pre ++ u :: post) := by
  obtain ⟨hpre, htail, hcross⟩ := List.pairwise_append.1 h
  obtain ⟨htpost, hpost⟩ := List.pairwise_cons.1 htail
  refine List.pairwise_append.2 ⟨hpre, List.pairwise_cons.2 ⟨fun q hq => ?_, hpost⟩, ?_⟩
  · obtain ⟨h1, h2, h3⟩ := htpost q hq
    simp only [Span.stop] at hstop h2 h3
    refine ⟨by omega, ?_, fun heq => h3 ?_⟩
    · rw [Span.stop]
      omega
    · rw [Span.stop] at heq
      omega
  · intro p hp q hq
    rcases List.mem_cons.1 hq with rfl | hq
    · obtain ⟨h1, h2, h3⟩ := hcross p hp t List.mem_cons_self
      simp only [Span.stop] at hstop h2 h3
      refine ⟨by omega, ?_, fun heq => ?_⟩
      · rw [Span.stop]
        omega
      · rw [Span.stop] at heq
        have := h3 (by omega)
        omega
    · exact hcross p hp q (List.mem_cons_of_mem t hq)

lemma Separated.remove (h : Separated (pre ++ t :: post)) : Separated (pre ++ post) :=
  h.sublist (List.Sublist.append_left (List.sublist_cons_self t post) pre)

/-- What is left of the list without a block. -/
lemma Separated.covered_remove (h : Separated (pre ++ t :: post)) :
    covered (pre ++ post) = covered (pre ++ t :: post) \ {b | t.Covers b} := by
  ext b
  simp only [mem_covered_append, mem_covered_cons, Set.mem_sdiff, Set.mem_ofPred_eq]
  constructor
  · intro hb
    refine ⟨hb.imp_right .inr, fun htb => ?_⟩
    have hmem : t ∈ pre ++ t :: post := List.mem_append_right _ List.mem_cons_self
    obtain ⟨hpre, htail, hcross⟩ := List.pairwise_append.1 h
    rcases hb with ⟨p, hp, hpb⟩ | ⟨q, hq, hqb⟩
    · have := (hcross p hp t List.mem_cons_self).stop_le
      have := htb.1
      have := hpb.2
      omega
    · have := ((List.pairwise_cons.1 htail).1 q hq).stop_le
      have := htb.2
      have := hqb.1
      omega
  · rintro ⟨hb | hb | hb, hnot⟩
    · exact .inl hb
    · exact absurd hb hnot
    · exact .inr hb

/-- What is left of the list without the beginning of a block. -/
lemma Separated.covered_back (h : Separated (pre ++ t :: post)) {n : ℕ} (hn : n ≤ t.length) :
    covered (pre ++ t.back n :: post) =
      covered (pre ++ t :: post) \ {b | (t.front n).Covers b} := by
  have hrest := h.covered_remove
  ext b
  have hb := Set.ext_iff.1 hrest b
  have hsplit := Span.covers_iff_front_or_back hn b
  have hdisj : (t.back n).Covers b → ¬ (t.front n).Covers b := Span.not_covers_front_of_back
  simp only [mem_covered_append, mem_covered_cons, Set.mem_sdiff, Set.mem_ofPred_eq] at hb ⊢
  tauto

/-! ### Putting a block in -/

/-- A block, joined with the one after it if they touch. -/
def joinHead (x : Span) : List Span → Span
  | []     => x
  | u :: _ => if x.stop = u.offset then x.join u else x

/-- The blocks that are left after it. -/
def joinTail (x : Span) : List Span → List Span
  | []        => []
  | u :: post => if x.stop = u.offset then post else u :: post

/-- A block and the blocks after it, joined where they touch. -/
def joinNext (x : Span) (post : List Span) : List Span := joinHead x post :: joinTail x post

@[simp] lemma offset_joinHead (x : Span) (post : List Span) :
    (joinHead x post).offset = x.offset := by
  cases post with
  | nil => rfl
  | cons u post =>
    rw [joinHead]
    split_ifs <;> rfl

@[simp] lemma joinNext_nil (x : Span) : joinNext x [] = [x] := rfl

lemma joinNext_cons (x u : Span) (post : List Span) : joinNext x (u :: post) =
    if x.stop = u.offset then x.join u :: post else x :: u :: post := by
  rw [joinNext, joinHead, joinTail]
  split_ifs <;> rfl

lemma joinTail_sublist (x : Span) (post : List Span) : (joinTail x post).Sublist post := by
  cases post with
  | nil => exact List.Sublist.refl _
  | cons u post =>
    rw [joinTail]
    split_ifs
    · exact List.sublist_cons_self u post
    · exact List.Sublist.refl _

/-- A block between those before and those after it, joined on both sides where they touch. -/
def insertBlock (pre : List Span) (x : Span) (post : List Span) : List Span :=
  match pre.getLast? with
  | none   => joinNext x post
  | some p =>
    if p.stop = x.offset then pre.dropLast ++ joinNext (p.join x) post
    else pre ++ joinNext x post

lemma insertBlock_nil (x : Span) (post : List Span) : insertBlock [] x post = joinNext x post := rfl

lemma insertBlock_concat (pre : List Span) (p x : Span) (post : List Span) :
    insertBlock (pre ++ [p]) x post =
      if p.stop = x.offset then pre ++ joinNext (p.join x) post
      else pre ++ p :: joinNext x post := by
  simp [insertBlock]

/-- What is true of all blocks, and of two joined blocks if of both, stays true. -/
lemma forall_mem_joinNext {P : Span → Prop} (hjoin : ∀ t u, P t → P u → P (t.join u)) (hx : P x)
    (hpost : ∀ u ∈ post, P u) : ∀ t ∈ joinNext x post, P t := by
  cases post with
  | nil => simpa using hx
  | cons u post =>
    obtain ⟨hu, hpost⟩ := List.forall_mem_cons.1 hpost
    rw [joinNext_cons]
    split_ifs
    · exact List.forall_mem_cons.2 ⟨hjoin x u hx hu, hpost⟩
    · exact List.forall_mem_cons.2 ⟨hx, List.forall_mem_cons.2 ⟨hu, hpost⟩⟩

lemma forall_mem_insertBlock {P : Span → Prop} (hjoin : ∀ t u, P t → P u → P (t.join u)) (hx : P x)
    (hpre : ∀ t ∈ pre, P t) (hpost : ∀ u ∈ post, P u) : ∀ t ∈ insertBlock pre x post, P t := by
  rcases pre.eq_nil_or_concat' with rfl | ⟨pre, p, rfl⟩
  · exact forall_mem_joinNext hjoin hx hpost
  · obtain ⟨hpre, hp⟩ := List.forall_mem_append.1 hpre
    have hp : P p := hp p (List.mem_singleton_self p)
    rw [insertBlock_concat]
    split_ifs
    · exact List.forall_mem_append.2 ⟨hpre, forall_mem_joinNext hjoin (hjoin p x hp hx) hpost⟩
    · refine List.forall_mem_append.2 ⟨hpre, List.forall_mem_cons.2 ⟨hp, ?_⟩⟩
      exact forall_mem_joinNext hjoin hx hpost

lemma sum_length_joinNext (x : Span) (post : List Span) :
    ((joinNext x post).map Span.length).sum = x.length + (post.map Span.length).sum := by
  cases post with
  | nil => simp
  | cons u post =>
    rw [joinNext_cons]
    split_ifs
    · simp [Span.join, Nat.add_assoc]
    · simp

/-- No address is lost. -/
lemma sum_length_insertBlock (pre : List Span) (x : Span) (post : List Span) :
    ((insertBlock pre x post).map Span.length).sum =
      ((pre ++ post).map Span.length).sum + x.length := by
  rcases pre.eq_nil_or_concat' with rfl | ⟨pre, p, rfl⟩
  · rw [insertBlock_nil, sum_length_joinNext, List.nil_append, Nat.add_comm]
  · rw [insertBlock_concat]
    split_ifs
    · simp only [List.map_append, List.sum_append, sum_length_joinNext, Span.join, List.map_cons,
        List.map_nil, List.sum_cons, List.sum_nil]
      omega
    · simp only [List.map_append, List.sum_append, List.map_cons, List.map_nil, List.sum_cons,
        List.sum_nil, sum_length_joinNext]
      omega

lemma covered_joinNext (x : Span) (post : List Span) :
    covered (joinNext x post) = covered (x :: post) := by
  cases post with
  | nil => rfl
  | cons u post =>
    rw [joinNext_cons]
    split_ifs with htouch
    · ext b
      simp only [mem_covered_cons, Span.covers_join htouch, or_assoc]
    · rfl

lemma covered_insertBlock (pre : List Span) (x : Span) (post : List Span) :
    covered (insertBlock pre x post) = covered (pre ++ post) ∪ {b | x.Covers b} := by
  rcases pre.eq_nil_or_concat' with rfl | ⟨pre, p, rfl⟩
  · rw [insertBlock_nil, covered_joinNext]
    ext b
    simp [or_comm]
  · rw [insertBlock_concat]
    ext b
    split_ifs with htouch
    · simp only [mem_covered_append, covered_joinNext, mem_covered_cons, Span.covers_join htouch,
        Set.mem_union, Set.mem_ofPred_eq, notMem_covered_nil, or_false]
      tauto
    · simp only [mem_covered_append, mem_covered_cons, covered_joinNext, Set.mem_union,
        Set.mem_ofPred_eq, notMem_covered_nil, or_false]
      tauto

/-- A list with room for `x`, where everything before it may touch it on neither side. -/
lemma Separated.joinNext (h : Separated (pre ++ post)) (hx : 0 < x.length)
    (hpre : ∀ t ∈ pre, t.Before x) (hpost : ∀ u ∈ post, x.stop ≤ u.offset) :
    Separated (pre ++ joinNext x post) := by
  obtain ⟨hl, hr, hcross⟩ := List.pairwise_append.1 h
  have hlt : x.offset < x.stop := Nat.lt_add_of_pos_right hx
  cases post with
  | nil =>
    refine List.pairwise_append.2 ⟨hl, List.pairwise_singleton _ _, fun t ht v hv => ?_⟩
    obtain rfl := List.mem_singleton.1 hv
    exact hpre t ht
  | cons u post =>
    obtain ⟨hu, hpost'⟩ := List.pairwise_cons.1 hr
    have hxu := hpost u List.mem_cons_self
    rw [joinNext_cons]
    split_ifs with htouch
    · have hjoin : (x.join u).stop = u.stop := by
        simp only [Span.stop, Span.join] at htouch ⊢
        omega
      refine List.pairwise_append.2 ⟨hl, List.pairwise_cons.2 ⟨fun q hq => ?_, hpost'⟩, ?_⟩
      · obtain ⟨h1, h2, h3⟩ := hu q hq
        refine ⟨?_, hjoin ▸ h2, fun heq => h3 (hjoin ▸ heq)⟩
        show x.offset < q.offset
        omega
      · intro t ht v hv
        rcases List.mem_cons.1 hv with rfl | hv
        · obtain ⟨h1, h2, h3⟩ := hpre t ht
          exact ⟨h1, h2, fun heq => absurd (h3 heq) (Nat.pos_iff_ne_zero.1 hx)⟩
        · exact hcross t ht v (List.mem_cons_of_mem u hv)
    · have hbefore : x.Before u := ⟨by omega, hxu, fun heq => absurd heq htouch⟩
      refine List.pairwise_append.2 ⟨hl, List.pairwise_cons.2 ⟨fun q hq => ?_, hr⟩, ?_⟩
      · rcases List.mem_cons.1 hq with rfl | hq
        · exact hbefore
        · exact hbefore.trans (hu q hq)
      · intro t ht v hv
        rcases List.mem_cons.1 hv with rfl | hv
        · exact hpre t ht
        · exact hcross t ht v hv

/-- The blocks stay apart when a block is put in where there is room for it. -/
lemma Separated.insertBlock (h : Separated (pre ++ post)) (hx : 0 < x.length)
    (hpre : ∀ t ∈ pre, t.offset < x.offset ∧ t.stop ≤ x.offset)
    (hpost : ∀ u ∈ post, x.stop ≤ u.offset) : Separated (insertBlock pre x post) := by
  rcases pre.eq_nil_or_concat' with rfl | ⟨pre, p, rfl⟩
  · exact Separated.joinNext h hx (fun t ht => absurd ht List.not_mem_nil) hpost
  · obtain ⟨hleft, -, -⟩ := List.pairwise_append.1 h
    obtain ⟨-, -, hlast⟩ := List.pairwise_append.1 hleft
    have hbefore : ∀ t ∈ pre, t.Before p := fun t ht => hlast t ht p (List.mem_singleton_self p)
    obtain ⟨hpoff, hpstop⟩ := hpre p (List.mem_append_right _ (List.mem_singleton_self p))
    rw [insertBlock_concat]
    split_ifs with htouch
    · -- `p` is not empty, since `x` begins where it ends
      have hp : p.length ≠ 0 := by
        rw [Span.stop] at htouch
        omega
      have hrest : Separated (pre ++ post) :=
        h.sublist (List.Sublist.append_right (List.sublist_append_left pre [p]) post)
      refine hrest.joinNext (Nat.add_pos_right _ hx) (fun t ht => ?_) fun u hu => ?_
      · obtain ⟨h1, h2, h3⟩ := hbefore t ht
        exact ⟨h1, h2, fun heq => absurd (h3 heq) hp⟩
      · have := hpost u hu
        simp only [Span.stop, Span.join] at htouch this ⊢
        omega
    · have hpx : p.Before x := ⟨hpoff, hpstop, fun heq => absurd heq htouch⟩
      have hall : ∀ t ∈ pre ++ [p], t.Before x := by
        intro t ht
        rcases List.mem_append.1 ht with ht | ht
        · exact (hbefore t ht).trans hpx
        · rwa [List.mem_singleton.1 ht]
      have hsep := h.joinNext hx hall hpost
      rwa [List.append_assoc, List.singleton_append] at hsep

end Edit

end RT1064.Core
