import Mathlib.Data.List.Nodup
import Mathlib.Data.List.Perm.Basic
import Mathlib.Logic.Function.Basic
import RT1064.Core.Precedence

/-!
# Circular lists with a cursor

A rota holds its elements in a circle with an end marker, and a cursor that stands on an element or
on the marker. Taking the next element moves the cursor; a new element goes to the place before the
cursor, where its turn comes last, or to the place that its key gives it. `Rotas` are several of
them over elements each of which is in one at most.
-/

namespace RT1064.Core

variable {ι : Type*}

/-- The elements up to the one at the cursor, and the ones behind it. The first part is empty while
the cursor stands on the end marker. -/
structure Rota (ι : Type*) where
  front : List ι
  back : List ι
deriving DecidableEq, Repr

namespace Rota

/-- The elements from the end marker on. -/
def items (r : Rota ι) : List ι := r.front ++ r.back

/-- The elements in the order in which their turns come. -/
def order (r : Rota ι) : List ι := r.back ++ r.front

def empty : Rota ι := ⟨[], []⟩

/-- The element at the cursor. -/
def cursor (r : Rota ι) : Option ι := r.front.getLast?

/-- Puts `x` before the cursor. -/
def insertEnd (r : Rota ι) (x : ι) : Rota ι :=
  match r.front.getLast? with
  | none   => ⟨[], r.back ++ [x]⟩
  | some i => ⟨r.front.dropLast ++ [x, i], r.back⟩

/-- Puts `x` behind the leading elements that `p` is true of. -/
def insertAfter (r : Rota ι) (p : ι → Bool) (x : ι) : Rota ι :=
  if r.front.all p then ⟨r.front, r.back.takeWhile p ++ x :: r.back.dropWhile p⟩
  else ⟨r.front.takeWhile p ++ x :: r.front.dropWhile p, r.back⟩

/-- Takes `x` out; the cursor goes to the element before it if it stood there. -/
def erase [DecidableEq ι] (r : Rota ι) (x : ι) : Rota ι := ⟨r.front.erase x, r.back.erase x⟩

/-- The element behind the cursor, and the ring with the cursor on it. -/
def next (r : Rota ι) : Option (ι × Rota ι) :=
  match r.back with
  | y :: back => some (y, ⟨r.front ++ [y], back⟩)
  | []        =>
    match r.front with
    | []     => none
    | z :: l => some (z, ⟨[z], l⟩)

variable {r r' : Rota ι} {x y : ι} {p : ι → Bool}

@[simp] lemma items_empty : (empty : Rota ι).items = [] := rfl

lemma order_perm (r : Rota ι) : r.order.Perm r.items := List.perm_append_comm

/-- A new element comes before the one at the cursor. -/
lemma items_insertEnd (r : Rota ι) (x : ι) :
    ∃ A B, r.items = A ++ B ∧ (r.insertEnd x).items = A ++ x :: B ∧ B.head? = r.cursor := by
  rcases r with ⟨front, back⟩
  rcases front.eq_nil_or_concat' with rfl | ⟨l, i, rfl⟩
  · exact ⟨back, [], by simp [items], by simp [insertEnd, items], rfl⟩
  · exact ⟨l, i :: back, by simp [items], by simp [insertEnd, items], by simp [cursor]⟩

lemma takeWhile_append_of_not {l : List ι} (h : ¬ ∀ y ∈ l, p y = true) (l' : List ι) :
    (l ++ l').takeWhile p = l.takeWhile p ∧ (l ++ l').dropWhile p = l.dropWhile p ++ l' ∧
      l.dropWhile p ≠ [] := by
  induction l with
  | nil => exact absurd (fun y hy => absurd hy List.not_mem_nil) h
  | cons z l ih =>
    by_cases hz : p z = true
    · obtain ⟨h1, h2, h3⟩ := ih fun hall => h (List.forall_mem_cons.2 ⟨hz, hall⟩)
      simp [hz, h1, h2, h3]
    · simp [hz]

lemma items_insertAfter (r : Rota ι) (p : ι → Bool) (x : ι) :
    (r.insertAfter p x).items = r.items.takeWhile p ++ x :: r.items.dropWhile p := by
  rcases r with ⟨front, back⟩
  simp only [insertAfter, items]
  split_ifs with hall
  · have hall : ∀ y ∈ front, p y = true := by simpa using hall
    rw [List.takeWhile_append_of_pos hall, List.dropWhile_append_of_pos hall, List.append_assoc]
  · have hnot : ¬ ∀ y ∈ front, p y = true := by simpa using hall
    obtain ⟨h1, h2, -⟩ := takeWhile_append_of_not hnot back
    rw [h1, h2, List.append_assoc, List.cons_append]

/-- A new element keeps the order of the others. -/
lemma items_sublist_insertAfter (r : Rota ι) (p : ι → Bool) (x : ι) :
    r.items.Sublist (r.insertAfter p x).items := by
  rw [items_insertAfter]
  conv_lhs => rw [← List.takeWhile_append_dropWhile (p := p) (l := r.items)]
  exact (List.Sublist.refl _).append (List.sublist_cons_self x _)

lemma length_insertEnd (r : Rota ι) (x : ι) :
    (r.insertEnd x).items.length = r.items.length + 1 := by
  obtain ⟨A, B, h1, h2, -⟩ := r.items_insertEnd x
  rw [h1, h2, List.length_append, List.length_append, List.length_cons, Nat.add_assoc]

/-- A new element does not move the cursor. -/
@[simp] lemma cursor_insertEnd (r : Rota ι) (x : ι) : (r.insertEnd x).cursor = r.cursor := by
  rcases r with ⟨front, back⟩
  rcases front.eq_nil_or_concat' with rfl | ⟨l, i, rfl⟩
  · rfl
  · simp [insertEnd, cursor]

@[simp] lemma cursor_insertAfter (r : Rota ι) (p : ι → Bool) (x : ι) :
    (r.insertAfter p x).cursor = r.cursor := by
  rcases r with ⟨front, back⟩
  simp only [insertAfter, cursor]
  split_ifs with hall
  · rfl
  · have hnot : ¬ ∀ y ∈ front, p y = true := by simpa using hall
    obtain ⟨-, -, h3⟩ := takeWhile_append_of_not hnot back
    have hlast : front.getLast? = (front.dropWhile p).getLast? := by
      conv_lhs => rw [← List.takeWhile_append_dropWhile (p := p) (l := front)]
      rw [List.getLast?_append_of_ne_nil _ h3]
    rw [hlast, List.getLast?_append_of_ne_nil _ (List.cons_ne_nil _ _),
      List.getLast?_cons_of_ne_nil h3]

lemma mem_insertEnd : y ∈ (r.insertEnd x).items ↔ y = x ∨ y ∈ r.items := by
  obtain ⟨A, B, h1, h2, -⟩ := r.items_insertEnd x
  rw [h1, h2]
  simp only [List.mem_append, List.mem_cons]
  tauto

lemma mem_insertAfter : y ∈ (r.insertAfter p x).items ↔ y = x ∨ y ∈ r.items := by
  rw [items_insertAfter]
  conv_rhs => rw [← List.takeWhile_append_dropWhile (p := p) (l := r.items)]
  simp only [List.mem_append, List.mem_cons]
  tauto

lemma nodup_middle {A B : List ι} (h : (A ++ B).Nodup) (hx : x ∉ A ++ B) :
    (A ++ x :: B).Nodup :=
  List.nodup_middle.2 (List.nodup_cons.2 ⟨hx, h⟩)

lemma nodup_insertEnd (h : r.items.Nodup) (hx : x ∉ r.items) : (r.insertEnd x).items.Nodup := by
  obtain ⟨A, B, h1, h2, -⟩ := r.items_insertEnd x
  rw [h2]
  exact nodup_middle (h1 ▸ h) (h1 ▸ hx)

lemma nodup_insertAfter (h : r.items.Nodup) (hx : x ∉ r.items) :
    (r.insertAfter p x).items.Nodup := by
  rw [items_insertAfter]
  refine nodup_middle ?_ ?_
  · rwa [List.takeWhile_append_dropWhile]
  · rwa [List.takeWhile_append_dropWhile]

section Erase

variable [DecidableEq ι]

lemma items_erase (h : r.items.Nodup) (x : ι) : (r.erase x).items = r.items.erase x := by
  rcases r with ⟨front, back⟩
  simp only [erase, items] at h ⊢
  by_cases hx : x ∈ front
  · have hb : x ∉ back := fun hb => (List.nodup_append.1 h).2.2 x hx x hb rfl
    rw [List.erase_append_left _ hx, List.erase_of_not_mem hb]
  · rw [List.erase_append_right _ hx, List.erase_of_not_mem hx]

lemma order_erase (h : r.items.Nodup) (x : ι) : (r.erase x).order = r.order.erase x := by
  have hitems := items_erase (r := ⟨r.back, r.front⟩) (r.order_perm.nodup_iff.2 h) x
  exact hitems

/-- The cursor moves only if the element that it stands on is taken out. -/
lemma cursor_erase_of_ne (h : r.cursor ≠ some x) : (r.erase x).cursor = r.cursor := by
  rcases r with ⟨front, back⟩
  rcases front.eq_nil_or_concat' with rfl | ⟨l, i, rfl⟩
  · rfl
  · have hne : i ≠ x := fun heq => h (by rw [heq]; simp [cursor])
    simp only [cursor, erase]
    by_cases hx : x ∈ l
    · rw [List.erase_append_left _ hx]
      simp
    · rw [List.erase_append_right _ hx, List.erase_of_not_mem (by simpa using hne.symm)]

/-- The cursor goes to the element before it. -/
lemma cursor_erase_self (h : r.items.Nodup) (hx : r.cursor = some x) {A B : List ι}
    (hAB : r.items = A ++ x :: B) : (r.erase x).cursor = A.getLast? := by
  rcases r with ⟨front, back⟩
  obtain ⟨l, rfl⟩ : ∃ l, front = l ++ [x] := by
    rcases front.eq_nil_or_concat' with rfl | ⟨l, i, rfl⟩
    · cases hx
    · simp only [cursor, List.getLast?_append, List.getLast?_singleton, Option.some_or,
        Option.some_inj] at hx
      exact ⟨l, by rw [hx]⟩
  simp only [items, List.append_assoc, List.singleton_append] at h hAB
  have hxl : x ∉ l := fun hmem => (List.nodup_append.1 h).2.2 x hmem x List.mem_cons_self rfl
  have hxback : x ∉ back := (List.nodup_cons.1 (List.nodup_append.1 h).2.1).1
  obtain ⟨rfl, -⟩ := (List.append_cons_inj_of_notMem hxl hxback).1 hAB
  simp [cursor, erase, List.erase_append_right _ hxl]

end Erase

/-- The next element is the first one in the order, and the last one then. -/
lemma next_spec (h : r.next = some (y, r')) :
    ∃ l, r.order = y :: l ∧ r'.order = l ++ [y] ∧ r'.items = r.items ∧ r'.cursor = some y := by
  rcases r with ⟨front, back⟩
  cases back with
  | cons z back =>
    obtain ⟨rfl, rfl⟩ := Prod.ext_iff.1 (Option.some_inj.1 h)
    exact ⟨back ++ front, by simp [order], by simp [order], by simp [items], by simp [cursor]⟩
  | nil =>
    cases front with
    | nil => cases h
    | cons z front =>
      obtain ⟨rfl, rfl⟩ := Prod.ext_iff.1 (Option.some_inj.1 h)
      exact ⟨front, by simp [order], by simp [order], by simp [items], by simp [cursor]⟩

lemma items_of_next (h : r.next = some (y, r')) : r'.items = r.items := by
  obtain ⟨-, -, -, hitems, -⟩ := next_spec h
  exact hitems

lemma next_isSome (h : r.items ≠ []) : ∃ y r', r.next = some (y, r') := by
  rcases r with ⟨front, back⟩
  cases back with
  | cons z back => exact ⟨z, _, rfl⟩
  | nil =>
    cases front with
    | nil => exact absurd rfl h
    | cons z front => exact ⟨z, _, rfl⟩

/-- A new element has its turn after all others, apart from the one at the cursor. -/
lemma order_insertEnd (r : Rota ι) (x : ι) :
    ∃ l t, r.order = l ++ t ∧ t = r.cursor.toList ∧ (r.insertEnd x).order = l ++ x :: t := by
  rcases r with ⟨front, back⟩
  rcases front.eq_nil_or_concat' with rfl | ⟨l, i, rfl⟩
  · exact ⟨back, [], by simp [order], by simp [cursor], by simp [order, insertEnd]⟩
  · exact ⟨back ++ l, [i], by simp [order], by simp [cursor], by simp [order, insertEnd]⟩

lemma order_sublist_insertEnd (r : Rota ι) (x : ι) : r.order.Sublist (r.insertEnd x).order := by
  obtain ⟨l, t, hr, -, hx⟩ := r.order_insertEnd x
  rw [hr, hx]
  exact (List.Sublist.refl l).append (List.sublist_cons_self x t)

/-! ### Turns -/

/-- The turn of `x` comes before that of `y`. -/
def Before (r : Rota ι) (x y : ι) : Prop := Precedes r.order x y

lemma before_or_before {x y : ι} (hx : x ∈ r.items) (hy : y ∈ r.items) (hne : x ≠ y) :
    r.Before x y ∨ r.Before y x := by
  rw [← r.order_perm.mem_iff] at hx hy
  exact precedes_or hx hy hne

lemma Before.erase [DecidableEq ι] {x y z : ι} (h : r.Before x y) (hr : r.items.Nodup)
    (hx : x ≠ z) (hy : y ≠ z) : (r.erase z).Before x y := by
  have hnodup := r.order_perm.nodup_iff.2 hr
  rw [Before, order_erase hr]
  exact h.of_sublist List.erase_sublist hnodup ((List.mem_erase_of_ne hx).2 h.mem_left)
    ((List.mem_erase_of_ne hy).2 h.mem_right)

/-- The element whose turn it is comes behind all others. -/
lemma Before.next {x y z : ι} (h : r.Before x y) (hr : r.items.Nodup)
    (hnext : r.next = some (z, r')) : y ≠ z ∧ (x = z → r'.Before y x) ∧
      (x ≠ z → r'.Before x y) := by
  obtain ⟨l, horder, horder', -⟩ := next_spec hnext
  have hnodup := r.order_perm.nodup_iff.2 hr
  rw [Before, horder] at h
  rw [horder] at hnodup
  obtain ⟨hyz, ⟨rfl, hy⟩ | ⟨hxz, hxy⟩⟩ := h.cons (List.nodup_cons.1 hnodup).1
  · refine ⟨hyz, fun _ => ?_, fun hne => absurd rfl hne⟩
    rw [Before, horder']
    exact (List.singleton_sublist.2 hy).append (List.Sublist.refl [x])
  · refine ⟨hyz, fun heq => absurd heq hxz, fun _ => ?_⟩
    rw [Before, horder']
    exact hxy.mono (List.sublist_append_left l [z])

end Rota

/-! ### Several rotas -/

/-- Rotas over the same elements: an element is in that of its container and in no other. -/
structure Rotas (L ι κ : Type*) where
  rota : L → Rota ι
  container : ι → Option L
  key : ι → κ
  nodup : ∀ l, (rota l).items.Nodup
  mem_items : ∀ l i, i ∈ (rota l).items ↔ container i = some l

namespace Rotas

variable {L κ : Type*}

/-- No element is in a rota. -/
def initial (key : ι → κ) : Rotas L ι κ where
  rota := fun _ => Rota.empty
  container := fun _ => none
  key := key
  nodup := fun _ => List.nodup_nil
  mem_items := fun _ _ => ⟨fun h => absurd h List.not_mem_nil, fun h => by cases h⟩

/-- The elements of a rota. -/
def items (R : Rotas L ι κ) (l : L) : List ι := (R.rota l).items

/-- The first element of a rota. -/
def head (R : Rotas L ι κ) (l : L) : Option ι := (R.items l).head?

lemma mem_iff {R : Rotas L ι κ} {l : L} {i : ι} : i ∈ R.items l ↔ R.container i = some l :=
  R.mem_items l i

lemma nodup_items (R : Rotas L ι κ) (l : L) : (R.items l).Nodup := R.nodup l

lemma container_ne_of_head {R : Rotas L ι κ} {l : L} (h : R.head l = none) (i : ι) :
    R.container i ≠ some l := by
  intro hi
  have hmem := mem_iff.2 hi
  rw [List.head?_eq_none_iff.1 h] at hmem
  exact List.not_mem_nil hmem

/-- The first element of a sorted rota is the least one. -/
lemma rel_of_head {R : Rotas L ι κ} {l : L} {i j : ι} {r : ι → ι → Prop}
    (hsorted : (R.items l).Pairwise r) (hrefl : r i i) (hi : R.head l = some i)
    (hj : R.container j = some l) : r i j := by
  obtain ⟨tail, htail⟩ := List.head?_eq_some_iff.1 hi
  have hmem := mem_iff.2 hj
  rw [htail] at hsorted hmem
  rcases List.mem_cons.1 hmem with rfl | hmem
  · exact hrefl
  · exact (List.pairwise_cons.1 hsorted).1 j hmem

lemma notMem_of_container {R : Rotas L ι κ} {i : ι} (hi : R.container i = none) (l : L) :
    i ∉ R.items l := by
  rw [mem_iff, hi]
  exact fun h => by cases h

variable [DecidableEq ι] [DecidableEq L]

def setKey (R : Rotas L ι κ) (i : ι) (v : κ) : Rotas L ι κ :=
  { R with key := Function.update R.key i v }

/-- A rota in which `i` was put, in place of `l`. -/
def put (R : Rotas L ι κ) (l : L) (i : ι) (r : Rota ι) (hi : R.container i = none)
    (hnodup : r.items.Nodup) (hmem : ∀ j, j ∈ r.items ↔ j = i ∨ j ∈ R.items l) :
    Rotas L ι κ where
  rota := Function.update R.rota l r
  container := Function.update R.container i (some l)
  key := R.key
  nodup := fun l' => by
    by_cases hl : l' = l
    · rw [hl, Function.update_self]
      exact hnodup
    · rw [Function.update_of_ne hl]
      exact R.nodup l'
  mem_items := fun l' j => by
    by_cases hl : l' = l
    · rw [hl, Function.update_self, hmem, mem_iff]
      by_cases hj : j = i
      · simp [hj]
      · simp [hj]
    · rw [Function.update_of_ne hl, R.mem_items]
      by_cases hj : j = i
      · rw [hj, Function.update_self, hi]
        simp [Ne.symm hl]
      · rw [Function.update_of_ne hj]

/-- There is no result if the element is in a rota already. -/
def insertEnd (R : Rotas L ι κ) (l : L) (i : ι) : Option (Rotas L ι κ) :=
  if hi : R.container i = none then
    some (R.put l i ((R.rota l).insertEnd i) hi
      (Rota.nodup_insertEnd (R.nodup l) (notMem_of_container hi l)) fun _ => Rota.mem_insertEnd)
  else none

/-- Behind the leading elements with keys that are not larger. -/
def insert [LE κ] [DecidableLE κ] (R : Rotas L ι κ) (l : L) (i : ι) : Option (Rotas L ι κ) :=
  if hi : R.container i = none then
    some (R.put l i ((R.rota l).insertAfter (fun j => R.key j ≤ R.key i) i) hi
      (Rota.nodup_insertAfter (R.nodup l) (notMem_of_container hi l))
      fun _ => Rota.mem_insertAfter)
  else none

/-- The rotas without `i`. -/
def without (R : Rotas L ι κ) (l : L) (i : ι) (hi : R.container i = some l) : Rotas L ι κ where
  rota := Function.update R.rota l ((R.rota l).erase i)
  container := Function.update R.container i none
  key := R.key
  nodup := fun l' => by
    by_cases hl : l' = l
    · rw [hl, Function.update_self, Rota.items_erase (R.nodup l)]
      exact (R.nodup l).erase i
    · rw [Function.update_of_ne hl]
      exact R.nodup l'
  mem_items := fun l' j => by
    by_cases hl : l' = l
    · rw [hl, Function.update_self, Rota.items_erase (R.nodup l), (R.nodup l).mem_erase_iff,
        R.mem_items]
      by_cases hj : j = i
      · simp [hj]
      · simp [hj]
    · rw [Function.update_of_ne hl, R.mem_items]
      by_cases hj : j = i
      · rw [hj, Function.update_self, hi]
        simp [Ne.symm hl]
      · rw [Function.update_of_ne hj]

/-- Takes `i` out of its rota; there is no result if it is in none. The number is what is left. -/
def remove (R : Rotas L ι κ) (i : ι) : Option (ℕ × Rotas L ι κ) :=
  match hi : R.container i with
  | none   => none
  | some l => some (((R.without l i hi).items l).length, R.without l i hi)

/-- A rota with its cursor on the next element. -/
def turn (R : Rotas L ι κ) (l : L) (r : Rota ι) (hr : r.items = R.items l) : Rotas L ι κ where
  rota := Function.update R.rota l r
  container := R.container
  key := R.key
  nodup := fun l' => by
    by_cases hl : l' = l
    · rw [hl, Function.update_self, hr]
      exact R.nodup l
    · rw [Function.update_of_ne hl]
      exact R.nodup l'
  mem_items := fun l' j => by
    by_cases hl : l' = l
    · rw [hl, Function.update_self, hr]
      exact R.mem_items l j
    · rw [Function.update_of_ne hl]
      exact R.mem_items l' j

/-- The element whose turn it is in `l`. -/
def next (R : Rotas L ι κ) (l : L) : Option (ι × Rotas L ι κ) :=
  match h : (R.rota l).next with
  | none        => none
  | some (i, r) => some (i, R.turn l r (Rota.items_of_next h))

/-! ### What the operations do -/

section Specs

variable {R R' : Rotas L ι κ} {l : L} {i : ι}

/-- The rotas `R'` are `R` with `r` in place of `l` and with other containers. -/
structure Changed (R : Rotas L ι κ) (l : L) (r : Rota ι) (container : ι → Option L)
    (R' : Rotas L ι κ) : Prop where
  rota : R'.rota = Function.update R.rota l r
  container : R'.container = container
  key : R'.key = R.key

omit [DecidableEq ι] in
lemma Changed.items {r : Rota ι} {c : ι → Option L} (h : R.Changed l r c R') (l' : L) :
    R'.items l' = if l' = l then r.items else R.items l' := by
  rw [Rotas.items, h.rota, Function.update_apply]
  split_ifs <;> rfl

lemma insertEnd_eq_some : R.insertEnd l i = some R' → R.container i = none ∧
    R.Changed l ((R.rota l).insertEnd i) (Function.update R.container i (some l)) R' := by
  rw [insertEnd]
  split_ifs with hi
  · rintro ⟨⟩
    exact ⟨hi, rfl, rfl, rfl⟩
  · rintro ⟨⟩

lemma exists_insertEnd (hi : R.container i = none) (l : L) : ∃ R', R.insertEnd l i = some R' ∧
    R.Changed l ((R.rota l).insertEnd i) (Function.update R.container i (some l)) R' :=
  ⟨_, dif_pos hi, rfl, rfl, rfl⟩

lemma insert_eq_some [LE κ] [DecidableLE κ] : R.insert l i = some R' → R.container i = none ∧
    R.Changed l ((R.rota l).insertAfter (fun j => R.key j ≤ R.key i) i)
      (Function.update R.container i (some l)) R' := by
  rw [insert]
  split_ifs with hi
  · rintro ⟨⟩
    exact ⟨hi, rfl, rfl, rfl⟩
  · rintro ⟨⟩

lemma exists_insert [LE κ] [DecidableLE κ] (hi : R.container i = none) (l : L) :
    ∃ R', R.insert l i = some R' ∧
      R.Changed l ((R.rota l).insertAfter (fun j => R.key j ≤ R.key i) i)
        (Function.update R.container i (some l)) R' :=
  ⟨_, dif_pos hi, rfl, rfl, rfl⟩

lemma remove_eq_some {n : ℕ} : R.remove i = some (n, R') → ∃ l, R.container i = some l ∧
    R.Changed l ((R.rota l).erase i) (Function.update R.container i none) R' ∧
    n = (R'.items l).length := by
  rw [remove]
  split
  next => rintro ⟨⟩
  next l hi =>
    rintro ⟨⟩
    exact ⟨l, hi, ⟨rfl, rfl, rfl⟩, rfl⟩

lemma exists_remove (hi : R.container i = some l) :
    ∃ R', R.remove i = some ((R'.items l).length, R') ∧
      R.Changed l ((R.rota l).erase i) (Function.update R.container i none) R' := by
  rw [remove]
  split
  next hnone => exact absurd (hi.symm.trans hnone) (Option.some_ne_none l)
  next l' hl' =>
    obtain rfl := Option.some_inj.1 (hi.symm.trans hl')
    exact ⟨_, rfl, rfl, rfl, rfl⟩

omit [DecidableEq ι] in
lemma next_eq_some : R.next l = some (i, R') →
    ∃ r, (R.rota l).next = some (i, r) ∧ R.Changed l r R.container R' := by
  rw [next]
  split
  next => rintro ⟨⟩
  next i r h =>
    rintro ⟨⟩
    exact ⟨r, h, rfl, rfl, rfl⟩

omit [DecidableEq ι] in
lemma exists_next (hl : R.items l ≠ []) : ∃ i r R', R.next l = some (i, R') ∧
    (R.rota l).next = some (i, r) ∧ R.Changed l r R.container R' := by
  obtain ⟨i, r, hr⟩ := Rota.next_isSome hl
  rw [next]
  split
  next hnone => exact absurd (hr.symm.trans hnone) (Option.some_ne_none _)
  next j r' h => exact ⟨j, r', _, rfl, h, rfl, rfl, rfl⟩

/-! ### Moving an element -/

/-- The rotas `R'` are `R` after `i` left its rota and `r` took the place of `l`, which has `i`
now. -/
structure Moved (R : Rotas L ι κ) (i : ι) (l : L) (r : Rota ι) (R' : Rotas L ι κ) : Prop where
  rota : ∀ l', R'.rota l' = if l' = l then r else (R.rota l').erase i
  container : R'.container = Function.update R.container i (some l)

lemma Moved.items {r : Rota ι} (h : R.Moved i l r R') {l' : L} (hl : l' ≠ l) :
    R'.items l' = (R.items l').erase i := by
  rw [Rotas.items, h.rota, if_neg hl, Rota.items_erase (R.nodup l')]
  rfl

lemma Moved.items_self {r : Rota ι} (h : R.Moved i l r R') : R'.items l = r.items := by
  rw [Rotas.items, h.rota, if_pos rfl]

omit [DecidableEq L] in
lemma erase_of_container {l' : L} (hi : R.container i = some l) (hl : l' ≠ l) :
    (R.rota l').erase i = R.rota l' := by
  have hnot : i ∉ (R.rota l').items := fun hmem => by
    rw [R.mem_items, hi] at hmem
    exact hl (Option.some_inj.1 hmem).symm
  rw [Rota.items, List.mem_append, not_or] at hnot
  rw [Rota.erase, List.erase_of_not_mem hnot.1, List.erase_of_not_mem hnot.2]

lemma Changed.moved {R₁ R₂ : Rotas L ι κ} {l' : L} {r : Rota ι} (hi : R.container i = some l')
    (h : R.Changed l' ((R.rota l').erase i) (Function.update R.container i none) R₁)
    (hrota : R₂.rota = R₁.rota) (hcontainer : R₂.container = R₁.container)
    (hr : R₂.Changed l r (Function.update R₂.container i (some l)) R') : R.Moved i l r R' := by
  constructor
  case rota =>
    intro k
    rw [hr.rota, Function.update_apply, hrota, h.rota, Function.update_apply]
    split_ifs with hl hl'
    · rfl
    · rw [hl']
    · rw [erase_of_container hi hl']
  case container => rw [hr.container, hcontainer, h.container, Function.update_idem]

end Specs

end Rotas

/-! ### Sorted lists -/

section Sorted

variable {α : Type*} {l : List α} {x : α}

lemma pairwise_insert_of_le {key : α → ℕ} (h : l.Pairwise fun a b => key a ≤ key b) (x : α) :
    (l.takeWhile (fun a => key a ≤ key x) ++ x :: l.dropWhile fun a => key a ≤ key x).Pairwise
      fun a b => key a ≤ key b := by
  induction l with
  | nil => simp
  | cons a l ih =>
    obtain ⟨ha, hl⟩ := List.pairwise_cons.1 h
    by_cases hax : key a ≤ key x
    · rw [List.takeWhile_cons_of_pos (by simpa using hax), List.cons_append,
        List.dropWhile_cons_of_pos (by simpa using hax)]
      refine List.pairwise_cons.2 ⟨fun b hb => ?_, ih hl⟩
      rw [List.mem_append, List.mem_cons] at hb
      rcases hb with hb | rfl | hb
      · exact ha b ((List.takeWhile_sublist _).subset hb)
      · exact hax
      · exact ha b ((List.dropWhile_sublist _).subset hb)
    · rw [List.takeWhile_cons_of_neg (by simpa using hax), List.nil_append,
        List.dropWhile_cons_of_neg (by simpa using hax)]
      refine List.pairwise_cons.2 ⟨fun b hb => ?_, h⟩
      rcases List.mem_cons.1 hb with rfl | hb
      · omega
      · exact Nat.le_trans (Nat.le_of_lt (Nat.lt_of_not_le hax)) (ha b hb)

end Sorted

end RT1064.Core
