import Mathlib.Algebra.BigOperators.Intervals
import RT1064.Core.While

/-!
# Counting bits

The loop that shifts a number to the right until it is zero. On a signed type the shift copies the
sign bit, so a negative number never becomes zero.
-/

namespace RT1064.Math

open Core

variable {w : ℕ}

/-! ### The function -/

/-- The variables of `math::countSetBits`. -/
structure CountState (w : ℕ) where
  count : ℕ
  n : BitVec w

/-- `n >> 1` in a signed or an unsigned type. -/
def shiftRight (signed : Bool) (n : BitVec w) : BitVec w :=
  if signed then n.sshiftRight 1 else n >>> 1

/-- The condition of the loop. -/
def CountState.Nonzero (s : CountState w) : Prop := s.n ≠ 0

instance : DecidablePred (CountState.Nonzero : CountState w → Prop) :=
  fun s => inferInstanceAs (Decidable (s.n ≠ 0))

/-- The body of the loop. -/
def CountState.step (signed : Bool) (s : CountState w) : CountState w where
  count := s.count + (s.n &&& 1).toNat
  n := shiftRight signed s.n

/-- `math::countSetBits` with at most `fuel` rounds of its loop. -/
def countSetBits (fuel : ℕ) (signed : Bool) (n : BitVec w) : Option ℕ :=
  (whileLoop CountState.Nonzero (CountState.step signed) fuel ⟨0, n⟩).map CountState.count

/-- The number of one bits of the representation. -/
def oneBits (n : BitVec w) : ℕ := ∑ i ∈ Finset.range w, (n.getLsbD i).toNat

/-! ### Shifts that bring in zeros -/

lemma toNat_and_one (n : BitVec w) : (n &&& 1).toNat = (n.getLsbD 0).toNat := by
  rcases Nat.eq_zero_or_pos w with rfl | hw
  · rw [BitVec.eq_nil n]
    rfl
  · have hone : (1 : BitVec w).toNat = 1 := Nat.mod_eq_of_lt (Nat.one_lt_two_pow hw.ne')
    rw [BitVec.toNat_and, hone, Nat.and_one_is_mod, BitVec.getLsbD, Nat.testBit_zero]
    rcases Nat.mod_two_eq_zero_or_one n.toNat with h | h <;> simp [h]

/-- The lowest bit and the bits over it. -/
lemma oneBits_eq (n : BitVec w) : oneBits n = (n &&& 1).toNat + oneBits (n >>> 1) := by
  have htop : (n.getLsbD w).toNat = 0 := by
    rw [n.getLsbD_of_ge w le_rfl, Bool.toNat_false]
  calc oneBits n = ∑ i ∈ Finset.range (w + 1), (n.getLsbD i).toNat := by
        rw [Finset.sum_range_succ, htop, add_zero, oneBits]
    _ = ∑ i ∈ Finset.range w, (n.getLsbD (i + 1)).toNat + (n.getLsbD 0).toNat :=
        Finset.sum_range_succ' _ _
    _ = (n &&& 1).toNat + oneBits (n >>> 1) := by
        rw [add_comm, toNat_and_one, oneBits]
        simp only [BitVec.getLsbD_ushiftRight, add_comm 1]

lemma oneBits_zero : oneBits (0 : BitVec w) = 0 :=
  Finset.sum_eq_zero fun i _ => by rw [BitVec.ofNat_eq_ofNat, BitVec.getLsbD_zero, Bool.toNat_false]

/-- The shift brings in a zero: the type is unsigned, or the number is not negative. -/
def ShiftsZeros (signed : Bool) (n : BitVec w) : Prop := signed = false ∨ 0 ≤ n.toInt

section ShiftsZeros

variable {signed : Bool} {n : BitVec w}

lemma shiftsZeros_iff : ShiftsZeros signed n ↔ signed = false ∨ n.msb = false := by
  rw [ShiftsZeros, BitVec.msb_eq_toInt, decide_eq_false_iff_not, not_lt]

lemma ShiftsZeros.shiftRight_eq (h : ShiftsZeros signed n) : shiftRight signed n = n >>> 1 := by
  rw [shiftRight]
  split_ifs with hsigned
  · have hmsb : n.msb = false := (shiftsZeros_iff.1 h).resolve_left (Bool.not_eq_false _ ▸ hsigned)
    rw [BitVec.sshiftRight_eq_of_msb_false hmsb]
  · rfl

lemma ShiftsZeros.shiftRight (h : ShiftsZeros signed n) :
    ShiftsZeros signed (shiftRight signed n) := by
  rw [h.shiftRight_eq, shiftsZeros_iff, BitVec.msb_ushiftRight]
  rcases shiftsZeros_iff.1 h with hsigned | hmsb
  · exact .inl hsigned
  · exact .inr (by simp)

/-- A round takes the lowest bit from the number to the count. -/
lemma CountState.step_spec {s : CountState w} (hs : ShiftsZeros signed s.n) (hn : s.Nonzero) :
    (ShiftsZeros signed (s.step signed).n ∧
      (s.step signed).count + oneBits (s.step signed).n = s.count + oneBits s.n) ∧
    (s.step signed).n.toNat < s.n.toNat := by
  have hpos : 0 < s.n.toNat := Nat.pos_of_ne_zero fun h => hn (BitVec.toNat_eq.2 h)
  refine ⟨⟨hs.shiftRight, ?_⟩, ?_⟩
  · show s.count + (s.n &&& 1).toNat + oneBits (Math.shiftRight signed s.n) = _
    rw [hs.shiftRight_eq, add_assoc, ← oneBits_eq]
  · show (Math.shiftRight signed s.n).toNat < s.n.toNat
    rw [hs.shiftRight_eq, BitVec.toNat_ushiftRight, Nat.shiftRight_one]
    omega

/-- With zeros from the left the number becomes zero after its one bits are counted. -/
lemma exists_countSetBits_eq (h : ShiftsZeros signed n) :
    ∃ fuel, countSetBits fuel signed n = some (oneBits n) := by
  obtain ⟨k, hk⟩ := exists_endsAfter_of_lt (s := (⟨0, n⟩ : CountState w))
    (fun s => ShiftsZeros signed s.n) (fun s => s.n.toNat) h fun s hs hn =>
      ⟨(CountState.step_spec hs hn).1.1, (CountState.step_spec hs hn).2⟩
  have hcount := (hk.invariant (fun s => ShiftsZeros signed s.n ∧ s.count + oneBits s.n = oneBits n)
    ⟨h, zero_add _⟩ (fun s hs hn => ?_) le_rfl).2
  · refine ⟨k, ?_⟩
    rw [not_not.1 hk.done, oneBits_zero, add_zero] at hcount
    rw [countSetBits, hk.whileLoop_eq le_rfl, Option.map_some, hcount]
  · have hstep := (CountState.step_spec hs.1 hn).1
    exact ⟨hstep.1, hstep.2.trans hs.2⟩

end ShiftsZeros

/-! ### Shifts that bring in ones -/

/-- A negative number stays negative. -/
lemma countSetBits_of_neg {n : BitVec w} (h : n.toInt < 0) (fuel : ℕ) :
    countSetBits fuel true n = none := by
  have hmsb : n.msb = true := by rw [BitVec.msb_eq_toInt, decide_eq_true h]
  have hall : ∀ k, ((CountState.step true)^[k] ⟨0, n⟩).n.msb = true := by
    intro k
    induction k with
    | zero => exact hmsb
    | succ k ih =>
      rw [Function.iterate_succ_apply', CountState.step, shiftRight, if_pos rfl,
        BitVec.msb_sshiftRight, ih]
  rw [countSetBits, Option.map_eq_none_iff, Option.eq_none_iff_forall_ne_some]
  intro s hs
  obtain ⟨k, -, hends, -⟩ := whileLoop_eq_some_iff.1 hs
  have hzero : ((CountState.step true)^[k] ⟨0, n⟩).n = 0 := not_not.1 hends.done
  have hone := hall k
  rw [hzero] at hone
  simp at hone

/-- The loop ends with the number of one bits if and only if the type is unsigned or the number is
not negative. -/
theorem countSetBits_correct_iff (signed : Bool) (n : BitVec w) :
    (∃ fuel, countSetBits fuel signed n = some (oneBits n)) ↔ ShiftsZeros signed n := by
  constructor
  · rintro ⟨fuel, hfuel⟩
    by_contra hnot
    rw [ShiftsZeros, not_or, Bool.not_eq_false, not_le] at hnot
    rw [hnot.1, countSetBits_of_neg hnot.2] at hfuel
    exact Option.some_ne_none _ hfuel.symm
  · exact exists_countSetBits_eq

/-- The `int` with all bits set. -/
theorem countSetBits_minus_one :
    ¬ ∀ (w : ℕ) (signed : Bool) (n : BitVec w),
      ∃ fuel, countSetBits fuel signed n = some (oneBits n) := by
  intro h
  obtain ⟨fuel, hfuel⟩ := h 32 true (-1)
  rw [countSetBits_of_neg (by decide)] at hfuel
  exact Option.some_ne_none _ hfuel.symm

end RT1064.Math
