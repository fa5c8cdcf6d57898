import RT1064.Core.Memory

/-!
# Circular storage

`window m n s k` reads `k` cells of a storage of `n` cells starting at `s` and going on at `0`
past the last cell. Positions may rest at `n` as well as at `0`. `putRound` and `getRound` copy
into and out of such a storage with at most two plain copies.
-/

namespace RT1064.Core

variable {α : Type*}

/-- The cell that position `j < 2 * n` stands for. -/
def wrap (n j : ℕ) : ℕ := if j < n then j else j - n

lemma wrap_of_lt {n j : ℕ} (h : j < n) : wrap n j = j := if_pos h

lemma wrap_of_le {n j : ℕ} (h : n ≤ j) : wrap n j = j - n := if_neg (by omega)

/-- `k` cells from position `s` on, in order. -/
def window (m : ℕ → α) (n s k : ℕ) : List α := (List.range k).map fun i => m (wrap n (s + i))

@[simp] lemma length_window (m : ℕ → α) (n s k : ℕ) : (window m n s k).length = k := by
  simp [window]

@[simp] lemma window_zero (m : ℕ → α) (n s : ℕ) : window m n s 0 = [] := rfl

lemma window_add (m : ℕ → α) (n s a b : ℕ) :
    window m n s (a + b) = window m n s a ++ window m n (s + a) b := by
  simp only [window, List.range_add, List.map_append, List.map_map, Function.comp_def,
    Nat.add_assoc]

lemma take_window (m : ℕ → α) (n s : ℕ) {j k : ℕ} (h : j ≤ k) :
    (window m n s k).take j = window m n s j := by
  obtain ⟨i, rfl⟩ := Nat.exists_eq_add_of_le h
  rw [window_add, List.take_left' (length_window m n s j)]

lemma drop_window (m : ℕ → α) (n s : ℕ) {j k : ℕ} (h : j ≤ k) :
    (window m n s k).drop j = window m n (s + j) (k - j) := by
  obtain ⟨i, rfl⟩ := Nat.exists_eq_add_of_le h
  rw [window_add, List.drop_left' (length_window m n s j), Nat.add_sub_cancel_left]

lemma window_congr {m m' : ℕ → α} {n s s' k : ℕ}
    (h : ∀ i < k, m (wrap n (s + i)) = m' (wrap n (s' + i))) :
    window m n s k = window m' n s' k := by
  apply List.map_congr_left
  intro i hi
  exact h i (List.mem_range.mp hi)

/-- One turn back, a position at or past `n` reads the same cells. -/
lemma window_sub (m : ℕ → α) {n s k : ℕ} (hs : n ≤ s) (hk : s - n + k ≤ n) :
    window m n s k = window m n (s - n) k := by
  apply window_congr
  intro i hi
  rw [wrap_of_le (by omega), wrap_of_lt (by omega)]
  congr 1; omega

/-- How many cells lie between the read position `s` and the write position `e`. -/
def used (n s e : ℕ) : ℕ := if s ≤ e then e - s else e + n - s

/-- `len` cells of `src` written from position `e` on, in two copies where the end is crossed. -/
def putRound (m : ℕ → α) (n e : ℕ) (src : ℕ → α) (len : ℕ) : ℕ → α :=
  if len ≤ n - e then copyInto m e src len
  else copyInto (copyInto m e src (n - e)) 0 (fun i => src (n - e + i)) (len - (n - e))

/-- The cells written hold the source. -/
lemma putRound_wrap (m src : ℕ → α) {n e len i : ℕ} (he : e ≤ n) (hlen : len ≤ n)
    (hi : i < len) : putRound m n e src len (wrap n (e + i)) = src i := by
  unfold putRound
  split_ifs with h
  · rw [wrap_of_lt (by omega), copyInto_of_mem (by omega) (by omega)]
    congr 1; omega
  · by_cases hin : e + i < n
    · rw [wrap_of_lt hin, copyInto_of_le (by omega), copyInto_of_mem (by omega) (by omega)]
      congr 1; omega
    · rw [wrap_of_le (by omega), copyInto_of_mem (by omega) (by omega)]
      congr 1; omega

/-- The `u` cells before the write position are left alone while the storage is not overrun. -/
lemma putRound_before (m src : ℕ → α) {n s e u len i : ℕ} (hs : s ≤ n) (he : e ≤ n)
    (hse : s + u = e ∨ s + u = e + n) (hfit : u + len ≤ n) (hi : i < u) :
    putRound m n e src len (wrap n (s + i)) = m (wrap n (s + i)) := by
  unfold putRound
  rcases hse with hse | hse
  · rw [wrap_of_lt (by omega)]
    split_ifs with h
    · exact copyInto_of_lt (by omega)
    · rw [copyInto_of_le (by omega), copyInto_of_lt (by omega)]
  · by_cases hin : s + i < n
    · rw [wrap_of_lt hin]
      split_ifs with h
      · exact copyInto_of_le (by omega)
      · omega
    · rw [wrap_of_le (by omega)]
      split_ifs with h
      · exact copyInto_of_lt (by omega)
      · omega

/-- Writing at the end of a window extends it by what is written. -/
lemma window_putRound (m src : ℕ → α) {n s e u len : ℕ} (hs : s ≤ n) (he : e ≤ n)
    (hse : s + u = e ∨ s + u = e + n) (hfit : u + len ≤ n) :
    window (putRound m n e src len) n s (u + len) =
      window m n s u ++ (List.range len).map src := by
  rw [window_add]
  congr 1
  · exact window_congr fun i hi => putRound_before m src hs he hse hfit hi
  · apply List.map_congr_left
    intro i hi
    have hi := List.mem_range.mp hi
    rw [← putRound_wrap m src he (by omega) hi]
    congr 1
    rcases hse with hse | hse
    · rw [hse]
    · rw [wrap_of_le (by omega), wrap_of_lt (by omega)]; omega

/-- `k` cells read from position `s` on into `out`, in two copies where the end is crossed. -/
def getRound (m : ℕ → α) (n s : ℕ) (out : ℕ → α) (k : ℕ) : ℕ → α :=
  if k ≤ n - s then copyInto out 0 (fun i => m (s + i)) k
  else copyInto (copyInto out 0 (fun i => m (s + i)) (n - s)) (n - s) m (k - (n - s))

lemma getRound_eq (m out : ℕ → α) {n s k : ℕ} (hs : s ≤ n) :
    getRound m n s out k = copyInto out 0 (fun i => m (wrap n (s + i))) k := by
  unfold getRound
  split_ifs with h
  · funext j
    by_cases hj : j < k
    · rw [copyInto_of_mem (Nat.zero_le j) (by omega), copyInto_of_mem (Nat.zero_le j) (by omega),
        wrap_of_lt (by omega)]
    · rw [copyInto_of_le (by omega), copyInto_of_le (by omega)]
  · have hsplit := copyInto_copyInto out (fun i => m (s + i)) m 0 (n - s) (k - (n - s))
    rw [Nat.zero_add, Nat.add_sub_of_le (by omega)] at hsplit
    rw [hsplit]
    congr 1
    funext i
    by_cases hi : i < n - s
    · rw [if_pos hi, wrap_of_lt (by omega)]
    · rw [if_neg hi, wrap_of_le (by omega)]
      congr 1; omega

/-- A list laid over the start of a buffer. -/
def overlay (q : List α) (out : ℕ → α) : ℕ → α :=
  fun j => if h : j < q.length then q[j] else out j

lemma overlay_window (m out : ℕ → α) (n s k : ℕ) :
    overlay (window m n s k) out = copyInto out 0 (fun i => m (wrap n (s + i))) k := by
  funext j
  unfold overlay
  split_ifs with h
  · rw [length_window] at h
    rw [copyInto_of_mem (Nat.zero_le j) (by omega)]
    simp [window]
  · rw [length_window] at h
    rw [copyInto_of_le (by omega)]

end RT1064.Core
