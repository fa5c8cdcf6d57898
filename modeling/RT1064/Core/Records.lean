import Mathlib.Tactic
import Mathlib.Data.List.Basic

/-!
# Walking over a string of records

A string is a concatenation of records each of which tells its own length. `walk` is the loop
that goes from one record to the next and edits the string it walks over. Where the edits stay
inside the record at hand and leave its length alone, the walk amounts to editing the records one
by one.
-/

namespace RT1064.Core

variable {α : Type*}

/-- Edit the string at each position reached until less than two cells are left; the result, and
the positions visited. `none` where the fuel does not last. -/
def walk (edit : List α → ℕ → List α) (size : List α → ℕ → ℕ) :
    ℕ → List α → ℕ → Option (List α × List ℕ)
  | 0, _, _ => none
  | fuel + 1, b, p =>
    if p < b.length - 1 then
      let b := edit b p
      (walk edit size fuel b (p + size b p)).map fun r => (r.1, p :: r.2)
    else some (b, [])

/-- The positions at which the records begin, the first of them at `p`. -/
def starts (p : ℕ) : List (List α) → List ℕ
  | []      => []
  | r :: rs => p :: starts (p + r.length) rs

/-- On a record with `P`, `edit` does `f` in place and `size` tells the length. -/
structure EditsInPlace (edit : List α → ℕ → List α) (size : List α → ℕ → ℕ)
    (P : List α → Prop) (f : List α → List α) : Prop where
  edit_eq : ∀ pre r post, P r → edit (pre ++ (r ++ post)) pre.length = pre ++ (f r ++ post)
  size_eq : ∀ pre r post, P r → size (pre ++ (f r ++ post)) pre.length = r.length
  length_eq : ∀ r, P r → (f r).length = r.length
  two_le : ∀ r, P r → 2 ≤ r.length

variable {edit : List α → ℕ → List α} {size : List α → ℕ → ℕ} {P : List α → Prop}
  {f : List α → List α}

/-- Each record is visited once, in order, and edited in place. -/
lemma EditsInPlace.walk_flatten (h : EditsInPlace edit size P f) {rs : List (List α)}
    (hrs : ∀ r ∈ rs, P r) {fuel : ℕ} (hfuel : rs.length < fuel) (pre : List α) :
    walk edit size fuel (pre ++ rs.flatten) pre.length =
      some (pre ++ (rs.map f).flatten, starts pre.length rs) := by
  induction rs generalizing fuel pre with
  | nil =>
    obtain ⟨fuel, rfl⟩ := Nat.exists_eq_add_of_lt hfuel
    simp only [walk, List.flatten_nil, List.append_nil, List.map_nil, starts]
    rw [if_neg (by omega)]
  | cons r rs ih =>
    obtain ⟨fuel, rfl⟩ : ∃ k, fuel = k + 1 := ⟨fuel - 1, by omega⟩
    have hr : P r := hrs r List.mem_cons_self
    have htwo := h.two_le r hr
    have hlen := h.length_eq r hr
    have hmore : pre.length < (pre ++ (r ++ rs.flatten)).length - 1 := by
      simp only [List.length_append]
      omega
    simp only [walk, List.flatten_cons, if_pos hmore, h.edit_eq pre r _ hr,
      h.size_eq pre r _ hr]
    have hrest := ih (fun r' hr' => hrs r' (List.mem_cons_of_mem r hr'))
      (by simpa using hfuel) (pre ++ f r)
    rw [List.length_append, hlen, List.append_assoc] at hrest
    rw [hrest]
    simp only [Option.map_some, List.map_cons, List.flatten_cons, List.append_assoc, starts]

/-- Where a record-wise change of the string shows, it shows inside one of the records. -/
lemma exists_of_flatten_map_ne {rs : List (List α)} (hlen : ∀ r ∈ rs, (f r).length = r.length)
    {i : ℕ} (h : (rs.map f).flatten[i]? ≠ rs.flatten[i]?) :
    ∃ pre r post o, rs = pre ++ r :: post ∧ i = pre.flatten.length + o ∧ o < r.length ∧
      (f r)[o]? ≠ r[o]? := by
  induction rs generalizing i with
  | nil => exact absurd rfl h
  | cons r rs ih =>
    have hr := hlen r List.mem_cons_self
    rw [List.map_cons, List.flatten_cons, List.flatten_cons] at h
    by_cases hi : i < r.length
    · rw [List.getElem?_append_left (by omega), List.getElem?_append_left hi] at h
      exact ⟨[], r, rs, i, rfl, by simp, hi, h⟩
    · rw [List.getElem?_append_right (by omega), List.getElem?_append_right (by omega), hr] at h
      obtain ⟨pre, r', post, o, heq, hio, ho, hne⟩ :=
        ih (fun r' hr' => hlen r' (List.mem_cons_of_mem r hr')) h
      refine ⟨r :: pre, r', post, o, by rw [heq, List.cons_append], ?_, ho, hne⟩
      rw [List.flatten_cons, List.length_append]
      omega

end RT1064.Core
