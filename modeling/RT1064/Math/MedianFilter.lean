import Mathlib.Data.List.GetD
import RT1064.Core.OrderStatistic
import RT1064.Core.SlidingWindow

/-!
# The median filter

`MedianFilter` keeps a ring of `WINDOW` samples with the position of the last one in a byte, and
sorts a copy of the ring to answer its median.
-/

namespace RT1064.Math

open Core

/-- The fields of `MedianFilter`. The buffer is the first `WINDOW` cells. -/
@[ext] structure MedianFilter (T : Type*) where
  buffer : ℕ → T
  head : UInt8

namespace MedianFilter

variable {T : Type*}

/-- A filter that was just constructed. -/
def fresh [Inhabited T] : MedianFilter T := ⟨fun _ => default, 0⟩

/-- `MedianFilter::insert`. The position is computed as an `int` and stored as a `uint8_t`. -/
def insert (WINDOW : ℕ) (f : MedianFilter T) (sample : T) : MedianFilter T :=
  let head := UInt8.ofNat ((f.head.toNat + 1) % WINDOW)
  ⟨Function.update f.buffer head.toNat sample, head⟩

section Median

variable [LE T] [DecidableLE T] [Inhabited T]

/-- `MedianFilter::cmp`. -/
def cmp (a b : T) : ℤ := if b ≤ a then 1 else -1

/-- `MedianFilter::median`. -/
def median (WINDOW : ℕ) (qsort : (T → T → ℤ) → List T → List T) (f : MedianFilter T) : T :=
  let sorted := qsort cmp ((List.range WINDOW).map f.buffer)
  sorted.getD (WINDOW / 2) default

/-- `MedianFilter::apply`. -/
def apply (WINDOW : ℕ) (qsort : (T → T → ℤ) → List T → List T) (f : MedianFilter T) (sample : T) :
    T × MedianFilter T :=
  let g := f.insert WINDOW sample
  (g.median WINDOW qsort, g)

end Median

/-- A call that gives a sample to the filter. -/
inductive Call (T : Type*) where
  | insert (sample : T)
  | apply (sample : T)

/-- The sample of a call. -/
def Call.sample : Call T → T
  | .insert x => x
  | .apply x  => x

lemma samples_map_insert (xs : List T) : (xs.map Call.insert).map Call.sample = xs := by
  rw [List.map_map]
  exact List.map_id xs

/-- The filter after a call. -/
def run [LE T] [DecidableLE T] [Inhabited T] (WINDOW : ℕ)
    (qsort : (T → T → ℤ) → List T → List T) (f : MedianFilter T) : Call T → MedianFilter T
  | .insert x => f.insert WINDOW x
  | .apply x  => (f.apply WINDOW qsort x).2

/-- After every sequence of at least `WINDOW` samples, `median` is the median of the last `WINDOW`
of them, and so was the answer of the last call if that was `apply`. -/
def MedianCorrect [LinearOrder T] [Inhabited T] (WINDOW : ℕ)
    (qsort : (T → T → ℤ) → List T → List T) : Prop :=
  ∀ calls : List (Call T), WINDOW ≤ calls.length →
    IsRank ((calls.map Call.sample).rtake WINDOW) (WINDOW / 2)
      (median WINDOW qsort (calls.foldl (run WINDOW qsort) fresh)) ∧
    ∀ (before : List (Call T)) (x : T), calls = before ++ [.apply x] →
      IsRank ((calls.map Call.sample).rtake WINDOW) (WINDOW / 2)
        (apply WINDOW qsort (before.foldl (run WINDOW qsort) fresh) x).1

/-! ### The buffer as a ring -/

/-- How many cells the position can reach. -/
def reach (WINDOW : ℕ) : ℕ := min WINDOW 256

/-- The ring of a filter. -/
def ring (f : MedianFilter T) : RecentRing T := ⟨f.head.toNat, f.buffer⟩

/-- The byte wraps where the window does not. -/
lemma toNat_ofNat_succ_mod {WINDOW : ℕ} (hpos : 0 < WINDOW) (head : UInt8) :
    (UInt8.ofNat ((head.toNat + 1) % WINDOW)).toNat = (head.toNat + 1) % reach WINDOW := by
  have hlt : head.toNat < 256 := head.toNat_lt
  rw [UInt8.toNat_ofNat', reach]
  rcases le_or_gt WINDOW 256 with h | h
  · rw [min_eq_left h]
    exact Nat.mod_eq_of_lt (lt_of_lt_of_le (Nat.mod_lt _ hpos) h)
  · rw [min_eq_right h.le, Nat.mod_eq_of_lt (show head.toNat + 1 < WINDOW by omega)]

lemma ring_insert {WINDOW : ℕ} (hpos : 0 < WINDOW) (f : MedianFilter T) (x : T) :
    (f.insert WINDOW x).ring = f.ring.push (reach WINDOW) x := by
  have hhead := toNat_ofNat_succ_mod hpos f.head
  apply RecentRing.ext
  · exact hhead
  · simp only [ring, insert, RecentRing.cells_push, hhead]

/-! ### Windows that a byte cannot address -/

section Stale

variable {WINDOW : ℕ}

/-- A window with one `x` more than it has `d`, the `x` first, after as many `d` as make the window
end at the last cell in reach. -/
def staleSamples (WINDOW : ℕ) (x d : T) : List T :=
  List.replicate ((511 - WINDOW % 256) % 256) d ++
    (List.replicate (WINDOW / 2 + 1) x ++ List.replicate (WINDOW / 2) d)

lemma length_staleSamples (hodd : WINDOW % 2 = 1) (x d : T) :
    (staleSamples WINDOW x d).length = (511 - WINDOW % 256) % 256 + WINDOW := by
  simp only [staleSamples, List.length_append, List.length_replicate]
  omega

lemma rtake_staleSamples (hodd : WINDOW % 2 = 1) (x d : T) :
    (staleSamples WINDOW x d).rtake WINDOW =
      List.replicate (WINDOW / 2 + 1) x ++ List.replicate (WINDOW / 2) d := by
  rw [List.rtake, length_staleSamples hodd, Nat.add_sub_cancel, staleSamples,
    List.drop_left' (by simp)]

/-- The last samples fill the second half of the cells in reach. -/
lemma cells_staleSamples (hbig : 256 < WINDOW) (hodd : WINDOW % 2 = 1) (x d : T) {i : ℕ}
    (hi : 128 ≤ i) :
    (RecentRing.pushAll 256 (fun _ => d) (staleSamples WINDOW x d)).cells i = d := by
  have hholds := RecentRing.holds_pushAll (show 0 < 256 by omega) (fun _ => d)
    (staleSamples WINDOW x d)
  have hlen := length_staleSamples hodd x d
  rcases le_or_gt 256 i with hge | hlt
  · exact hholds.rest i hge
  · have hcell := hholds.cells (255 - i) (by omega) (by rw [List.length_reverse]; omega)
    have hindex : ((staleSamples WINDOW x d).reverse.length - (255 - i)) % 256 = i := by
      rw [List.length_reverse]
      omega
    rw [hindex] at hcell
    rw [hcell]
    simp only [staleSamples, List.reverse_append, List.reverse_replicate, List.append_assoc]
    rw [List.getElem_append_left (by rw [List.length_replicate]; omega), List.getElem_replicate]

lemma countP_staleSamples_le [DecidableEq T] (hbig : 256 < WINDOW) (hodd : WINDOW % 2 = 1) {x d : T}
    (hne : x ≠ d) :
    ((List.range WINDOW).map
      (RecentRing.pushAll 256 (fun _ => d) (staleSamples WINDOW x d)).cells).countP (· = x) ≤
        128 := by
  obtain ⟨k, rfl⟩ := Nat.exists_eq_add_of_le (show 128 ≤ WINDOW by omega)
  rw [List.range_add, List.map_append, List.countP_append]
  have hrest : (((List.range k).map (128 + ·)).map (RecentRing.pushAll 256 (fun _ => d)
      (staleSamples (128 + k) x d)).cells).countP (· = x) = 0 := by
    rw [List.countP_eq_zero]
    intro y hy
    simp only [List.mem_map, exists_exists_and_eq_and] at hy
    obtain ⟨i, -, rfl⟩ := hy
    rw [cells_staleSamples hbig hodd x d (Nat.le_add_right 128 i)]
    simpa using hne.symm
  rw [hrest, add_zero]
  exact List.countP_le_length.trans (by simp)

section Rank

variable [LinearOrder T] {x d : T}

/-- The window has a majority of `x`, so that its median is not `d`. -/
lemma eq_of_isRank_window (hne : x ≠ d) {k : ℕ} {y : T}
    (hy : IsRank (List.replicate (k + 1) x ++ List.replicate k d) k y) : y = x := by
  have hmem : ∀ z ∈ List.replicate (k + 1) x ++ List.replicate k d, z = d ∨ z = x := by
    intro z hz
    simp only [List.mem_append, List.mem_replicate] at hz
    rcases hz with ⟨-, h⟩ | ⟨-, h⟩
    · exact Or.inr h
    · exact Or.inl h
  apply (hmem y hy.mem).resolve_left
  rintro rfl
  refine not_isRank_of_countP_le hne.symm hmem ?_ ?_ hy
  · simp only [List.length_append, List.length_replicate]
    omega
  · simp [List.countP_replicate, hne]

/-- The cells hold too few `x` for it to be their median. -/
lemma not_isRank_cells (hbig : 256 < WINDOW) (hodd : WINDOW % 2 = 1) (hne : x ≠ d) :
    ¬ IsRank ((List.range WINDOW).map
      (RecentRing.pushAll 256 (fun _ => d) (staleSamples WINDOW x d)).cells) (WINDOW / 2) x := by
  apply not_isRank_of_countP_le hne
  · intro z hz
    obtain ⟨i, -, rfl⟩ := List.mem_map.1 hz
    rcases RecentRing.cells_pushAll_mem 256 (fun _ => d) (staleSamples WINDOW x d) i with h | h
    · simp only [staleSamples, List.mem_append, List.mem_replicate] at h
      tauto
    · exact Or.inr h
  · rw [List.length_map, List.length_range]
    omega
  · exact (countP_staleSamples_le hbig hodd hne).trans (by omega)

end Rank

end Stale

/-! ### Runs -/

section Run

variable [Inhabited T]

variable [LinearOrder T] {WINDOW : ℕ} {qsort : (T → T → ℤ) → List T → List T}

lemma run_eq_insert (f : MedianFilter T) (call : Call T) :
    run WINDOW qsort f call = f.insert WINDOW call.sample := by
  cases call <;> rfl

variable (qsort) in
/-- The ring after a sequence of calls is the ring of their samples. -/
lemma ring_foldl_run (hpos : 0 < WINDOW) (calls : List (Call T)) :
    (calls.foldl (run WINDOW qsort) fresh).ring =
      RecentRing.pushAll (reach WINDOW) (fun _ => default) (calls.map Call.sample) := by
  induction calls using List.reverseRecOn with
  | nil => rfl
  | append_singleton calls call ih =>
    rw [List.foldl_concat, run_eq_insert, ring_insert hpos, ih, List.map_append,
      List.map_singleton, RecentRing.pushAll, RecentRing.pushAll, List.foldl_concat]

variable (qsort) in
lemma buffer_foldl_run (hpos : 0 < WINDOW) (calls : List (Call T)) :
    (calls.foldl (run WINDOW qsort) fresh).buffer =
      (RecentRing.pushAll (reach WINDOW) (fun _ => default) (calls.map Call.sample)).cells :=
  congrArg RecentRing.cells (ring_foldl_run qsort hpos calls)

/-- `median` answers the element of rank `WINDOW / 2` of the buffer. -/
lemma isRank_median (hpos : 0 < WINDOW)
    (hperm : ∀ l, (qsort cmp l).Perm l) (hsorted : ∀ l, (qsort cmp l).Pairwise (· ≤ ·))
    (f : MedianFilter T) :
    IsRank ((List.range WINDOW).map f.buffer) (WINDOW / 2) (f.median WINDOW qsort) := by
  have hlen : WINDOW / 2 < (qsort cmp ((List.range WINDOW).map f.buffer)).length := by
    rw [(hperm _).length_eq, List.length_map, List.length_range]
    omega
  rw [median, List.getD_eq_getElem _ _ hlen]
  exact (isRank_getElem (hsorted _) hlen).perm (hperm _)

/-- For the windows that a byte can address the median is right. -/
lemma medianCorrect_of_le (hpos : 0 < WINDOW) (hle : WINDOW ≤ 256)
    (hperm : ∀ l, (qsort cmp l).Perm l) (hsorted : ∀ l, (qsort cmp l).Pairwise (· ≤ ·)) :
    MedianCorrect WINDOW qsort := by
  intro calls hlen
  have hmedian : IsRank ((calls.map Call.sample).rtake WINDOW) (WINDOW / 2)
      (median WINDOW qsort (calls.foldl (run WINDOW qsort) fresh)) := by
    refine (isRank_median hpos hperm hsorted _).perm ?_
    rw [buffer_foldl_run qsort hpos, reach, min_eq_left hle]
    exact RecentRing.perm_rtake hpos _ (by simpa using hlen)
  refine ⟨hmedian, fun before x heq => ?_⟩
  rw [heq, List.foldl_concat] at hmedian
  rw [heq]
  exact hmedian

/-- After these samples the median of the buffer is not that of the last `WINDOW` samples. -/
lemma not_isRank_staleSamples (hbig : 256 < WINDOW) (hodd : WINDOW % 2 = 1)
    (hperm : ∀ l, (qsort cmp l).Perm l) (hsorted : ∀ l, (qsort cmp l).Pairwise (· ≤ ·))
    {x : T} (hne : x ≠ default) :
    ¬ IsRank ((staleSamples WINDOW x default).rtake WINDOW) (WINDOW / 2)
      (median WINDOW qsort
        (((staleSamples WINDOW x default).map Call.insert).foldl (run WINDOW qsort) fresh)) := by
  have hpos : 0 < WINDOW := by omega
  have hbuffer := buffer_foldl_run qsort hpos ((staleSamples WINDOW x default).map Call.insert)
  rw [reach, min_eq_right hbig.le, samples_map_insert] at hbuffer
  have hmedian := isRank_median hpos hperm hsorted
    (((staleSamples WINDOW x default).map Call.insert).foldl (run WINDOW qsort) fresh)
  rw [hbuffer] at hmedian
  rw [rtake_staleSamples hodd]
  intro hwindow
  rw [eq_of_isRank_window hne hwindow] at hmedian
  exact not_isRank_cells hbig hodd hne hmedian

end Run

/-- For every odd window of at least three, and a sort that answers a sorted permutation, the filter
answers the median of the last samples exactly when a byte can address the window, or when there is
only one sample. -/
theorem medianCorrect_iff [LinearOrder T] [Inhabited T] {WINDOW : ℕ} (hmin : 3 ≤ WINDOW)
    (hodd : WINDOW % 2 = 1) {qsort : (T → T → ℤ) → List T → List T}
    (hperm : ∀ l, (qsort cmp l).Perm l) (hsorted : ∀ l, (qsort cmp l).Pairwise (· ≤ ·)) :
    MedianCorrect WINDOW qsort ↔ WINDOW ≤ 256 ∨ Subsingleton T := by
  constructor
  · intro h
    by_contra hnot
    rw [not_or, not_le, not_subsingleton_iff_nontrivial] at hnot
    obtain ⟨hbig, hnontrivial⟩ := hnot
    obtain ⟨x, hx⟩ := exists_ne (default : T)
    have hlen := length_staleSamples hodd x default
    have hcalls := (h ((staleSamples WINDOW x default).map Call.insert)
      (by rw [List.length_map]; omega)).1
    rw [samples_map_insert] at hcalls
    exact not_isRank_staleSamples hbig hodd hperm hsorted hx hcalls
  · rintro (hle | hsub)
    · exact medianCorrect_of_le (by omega) hle hperm hsorted
    · intro calls hlen
      have hwindow : WINDOW / 2 < ((calls.map Call.sample).rtake WINDOW).length := by
        rw [List.rtake, List.length_drop, List.length_map]
        omega
      exact ⟨isRank_of_subsingleton hwindow _, fun _ _ _ => isRank_of_subsingleton hwindow _⟩

/-- The default window, with insertion sort. -/
theorem medianCorrect_iff_three :
    MedianCorrect 3 (fun _ (l : List ℤ) => l.insertionSort (· ≤ ·)) :=
  (medianCorrect_iff le_rfl rfl (fun l => l.perm_insertionSort _)
    (fun l => l.pairwise_insertionSort _)).2 (Or.inl (by omega))

/-- The first window past the range of a byte: 254 zeros, 129 ones and 128 zeros. -/
theorem not_isRank_257 :
    ¬ IsRank ((staleSamples 257 (1 : ℤ) 0).rtake 257) (257 / 2)
      (median 257 (fun _ l => l.insertionSort (· ≤ ·))
        (((staleSamples 257 (1 : ℤ) 0).map Call.insert).foldl
          (run 257 (fun _ l => l.insertionSort (· ≤ ·))) fresh)) :=
  not_isRank_staleSamples (by omega) rfl (fun l => l.perm_insertionSort _)
    (fun l => l.pairwise_insertionSort _) one_ne_zero

end MedianFilter

end RT1064.Math
