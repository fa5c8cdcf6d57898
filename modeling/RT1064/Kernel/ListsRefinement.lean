import Mathlib.Data.List.TakeWhile
import RT1064.Core.Linked
import RT1064.Kernel.Lists

/-!
# Lists are rotas

The functions of `list.c` do to the pointers what the operations of `Rotas` do to the elements.
-/

namespace RT1064.Kernel

open Core

universe u

variable {L I : Type u}

/-- Where the cursor of a rota stands. -/
def cursorNode (l : L) (r : Rota I) : Node L I := r.cursor.elim (.xListEnd l) .item

/-- The nodes of the items. -/
def nodes (R : Rotas L I TickType_t) (l : L) : List (Node L I) := (R.items l).map .item

/-- The pointers are those of the rotas. -/
structure Represents (m : Lists L I) (R : Rotas L I TickType_t) : Prop where
  circles : ∀ l, Circles m.pxNext m.pxPrevious (.xListEnd l) (nodes R l)
  index : ∀ l, m.pxIndex l = cursorNode l (R.rota l)
  number : ∀ l, m.uxNumberOfItems l = (R.items l).length
  container : m.pxContainer = R.container
  value : ∀ i, m.xItemValue (.item i) = R.key i
  value_end : ∀ l, m.xItemValue (.xListEnd l) = portMAX_DELAY

section Nodes

variable {m : Lists L I} {R R' : Rotas L I TickType_t} {l l' : L} {i : I}

lemma nodup_nodes (R : Rotas L I TickType_t) (l : L) :
    (Node.xListEnd l :: nodes R l).Nodup := by
  refine List.nodup_cons.2 ⟨fun h => ?_, ?_⟩
  · obtain ⟨i, -, heq⟩ := List.mem_map.1 h
    cases heq
  · exact (R.nodup l).map fun a b h => by cases h; rfl

lemma item_mem_nodes : Node.item i ∈ Node.xListEnd l :: nodes R l ↔ R.container i = some l := by
  rw [List.mem_cons, nodes, List.mem_map, ← Rotas.mem_iff]
  constructor
  · rintro (h | ⟨j, hj, heq⟩)
    · cases h
    · cases heq
      exact hj
  · exact fun h => .inr ⟨i, h, rfl⟩

/-- A node is in one list only. -/
lemma nodes_disjoint (hl : l ≠ l') {a : Node L I} (ha : a ∈ Node.xListEnd l :: nodes R l) :
    a ∉ Node.xListEnd l' :: nodes R l' := by
  cases a with
  | xListEnd k =>
    intro h
    have h1 : k = l := by
      rcases List.mem_cons.1 ha with heq | hmem
      · cases heq
        rfl
      · obtain ⟨i, -, heq⟩ := List.mem_map.1 hmem
        cases heq
    have h2 : k = l' := by
      rcases List.mem_cons.1 h with heq | hmem
      · cases heq
        rfl
      · obtain ⟨i, -, heq⟩ := List.mem_map.1 hmem
        cases heq
    exact hl (h1.symm.trans h2)
  | item i =>
    rw [item_mem_nodes] at ha ⊢
    rw [ha]
    exact fun h => hl (Option.some_inj.1 h)

lemma cursorNode_eq (l : L) (r : Rota I) :
    cursorNode l r = (r.front.map Node.item).getLastD (.xListEnd l) := by
  rcases r with ⟨front, back⟩
  rcases front.eq_nil_or_concat' with rfl | ⟨l, i, rfl⟩
  · rfl
  · simp [cursorNode, Rota.cursor]

lemma cursorNode_mem (R : Rotas L I TickType_t) (l : L) :
    cursorNode l (R.rota l) ∈ Node.xListEnd l :: nodes R l := by
  rw [cursorNode]
  cases hc : (R.rota l).cursor with
  | none => exact List.mem_cons_self
  | some i =>
    rw [Option.elim_some, item_mem_nodes, ← Rotas.mem_iff]
    exact List.mem_append_left _ (List.mem_of_getLast? hc)

end Nodes

section Walk

variable {m : Lists L I} {R : Rotas L I TickType_t}

/-- The walk ends at the last item with a value that is not larger. -/
lemma Represents.insertionPoint (h : Represents m R) (l : L) (v : TickType_t) :
    m.insertionPoint l v = some
      ((((R.items l).takeWhile fun j => R.key j ≤ v).map Node.item).getLastD (.xListEnd l)) := by
  have hcircle := h.circles l
  rw [Lists.insertionPoint]
  split_ifs with hmax
  · have hall : (R.items l).takeWhile (fun j => R.key j ≤ v) = R.items l := by
      rw [List.takeWhile_eq_self_iff]
      intro j _
      have hle : R.key j ≤ portMAX_DELAY := by
        rw [BitVec.le_def]
        exact Nat.le_of_lt_succ (R.key j).isLt
      simpa [hmax] using hle
    rw [nodes, ← List.append_nil ((R.items l).map _)] at hcircle
    rw [hall, ← (circles_append.1 hcircle).2.2.2]
    rfl
  · have hsplit := List.takeWhile_append_dropWhile (p := fun j => R.key j ≤ v) (l := R.items l)
    have hlen : ((R.items l).takeWhile fun j => R.key j ≤ v).length ≤ (R.items l).length :=
      (List.takeWhile_sublist _).length_le
    have htake : ∀ j ∈ (R.items l).takeWhile fun j => R.key j ≤ v, R.key j ≤ v := fun j hj => by
      simpa using List.mem_takeWhile_imp hj
    have hdrop : ∀ j ∈ ((R.items l).dropWhile fun j => R.key j ≤ v).head?, ¬ R.key j ≤ v := by
      intro j hj hle
      have := List.head?_dropWhile_not (fun j => decide (R.key j ≤ v)) (R.items l)
      rw [Option.mem_def.1 hj] at this
      simp [hle] at this
    generalize (R.items l).takeWhile (fun j => R.key j ≤ v) = A at *
    generalize (R.items l).dropWhile (fun j => R.key j ≤ v) = B at *
    rw [nodes, ← hsplit, List.map_append] at hcircle
    obtain ⟨hA, -, hadj⟩ := circles_append.1 hcircle
    refine whileLoop_advance (b := (B.map Node.item).headD (.xListEnd l))
      (c := fun a => m.xItemValue a ≤ v) ?_ ?_ ?_ ?_
    · rw [← List.cons_append]
      refine List.isChain_append.2 ⟨hA.imp fun _ _ hab => hab.1, List.isChain_singleton _, ?_⟩
      intro a ha b hb
      obtain rfl := Option.some_inj.1 hb
      rw [List.getLast?_eq_some_getLast (List.cons_ne_nil _ _), List.getLast_eq_getLastD] at ha
      obtain rfl := Option.some_inj.1 ha
      exact hadj.1
    · intro a ha
      obtain ⟨j, hj, rfl⟩ := List.mem_map.1 ha
      rw [h.value]
      exact htake j hj
    · cases B with
      | nil =>
        rw [List.map_nil, List.headD_nil, h.value_end, BitVec.le_def]
        intro hle
        refine hmax (BitVec.eq_of_toNat_eq (le_antisymm ?_ hle))
        exact Nat.le_of_lt_succ v.isLt
      | cons b B =>
        rw [List.map_cons, List.headD_cons, h.value]
        exact hdrop b rfl
    · rw [List.length_map, h.number]
      exact hlen

lemma Represents.head_node (h : Represents m R) (l : L) :
    m.pxNext (.xListEnd l) = (R.head l).elim (.xListEnd l) .item := by
  have hcircle := h.circles l
  rw [← List.nil_append (nodes R l)] at hcircle
  have hnext : m.pxNext (.xListEnd l) = (nodes R l).headD (.xListEnd l) :=
    (circles_append.1 hcircle).2.2.1
  rw [hnext, Rotas.head, nodes]
  cases R.items l <;> rfl

end Walk

section Operations

variable [DecidableEq L] {m : Lists L I} {R R' : Rotas L I TickType_t} {l : L} {i : I}

/-- Lists in which the pointers of one circle, the index, the number and a container changed. -/
lemma Represents.changed (h : Represents m R) {r : Rota I} {c : I → Option L}
    (hR : R.Changed l r c R') {m' : Lists L I}
    (hcircle : Circles m'.pxNext m'.pxPrevious (.xListEnd l) (r.items.map .item))
    (hnext : ∀ l' ≠ l, ∀ a ∈ Node.xListEnd l' :: nodes R l', m'.pxNext a = m.pxNext a)
    (hprev : ∀ l' ≠ l, ∀ a ∈ Node.xListEnd l' :: nodes R l', m'.pxPrevious a = m.pxPrevious a)
    (hindex : m'.pxIndex = Function.update m.pxIndex l (cursorNode l r))
    (hnumber : m'.uxNumberOfItems = Function.update m.uxNumberOfItems l r.items.length)
    (hcontainer : m'.pxContainer = c) (hvalue : m'.xItemValue = m.xItemValue) :
    Represents m' R' := by
  have hitems := hR.items
  constructor
  case circles =>
    intro l'
    by_cases hl : l' = l
    · rw [nodes, hitems, if_pos hl, hl]
      exact hcircle
    · rw [nodes, hitems, if_neg hl]
      exact (h.circles l').congr (hnext l' hl) (hprev l' hl)
  case index =>
    intro l'
    rw [hindex, hR.rota]
    by_cases hl : l' = l
    · rw [hl, Function.update_self, Function.update_self]
    · rw [Function.update_of_ne hl, Function.update_of_ne hl, h.index]
  case number =>
    intro l'
    rw [hnumber, hitems]
    by_cases hl : l' = l
    · rw [hl, Function.update_self, if_pos rfl]
    · rw [Function.update_of_ne hl, if_neg hl, h.number]
  case container => rw [hcontainer, hR.container]
  case value =>
    intro i
    rw [hvalue, hR.key, h.value]
  case value_end =>
    intro l'
    rw [hvalue, h.value_end]

variable [DecidableEq I]

/-- A new item between two neighbours. -/
lemma Represents.inserted (h : Represents m R) (hi : R.container i = none) {r : Rota I}
    (hR : R.Changed l r (Function.update R.container i (some l)) R') {A B : List I}
    (hAB : R.items l = A ++ B) (hr : r.items = A ++ i :: B)
    (hcursor : r.cursor = (R.rota l).cursor) {m' : Lists L I} {p q : Node L I}
    (hp : (A.map Node.item).getLastD (.xListEnd l) = p)
    (hq : (B.map Node.item).headD (.xListEnd l) = q)
    (hnext : m'.pxNext = Function.update (Function.update m.pxNext (.item i) q) p (.item i))
    (hprev : m'.pxPrevious =
      Function.update (Function.update m.pxPrevious (.item i) p) q (.item i))
    (hindex : m'.pxIndex = m.pxIndex)
    (hnumber : m'.uxNumberOfItems =
      Function.update m.uxNumberOfItems l (m.uxNumberOfItems l + 1))
    (hcontainer : m'.pxContainer = Function.update m.pxContainer i (some l))
    (hvalue : m'.xItemValue = m.xItemValue) : Represents m' R' := by
  have hnodes : nodes R l = A.map Node.item ++ B.map Node.item := by
    rw [nodes, hAB, List.map_append]
  have hcircle := h.circles l
  have hnodup := nodup_nodes R l
  have hnew : ∀ l', Node.item i ∉ Node.xListEnd l' :: nodes R l' := fun l' => by
    rw [item_mem_nodes, hi]
    exact nofun
  have hmem : p ∈ Node.xListEnd l :: nodes R l ∧ q ∈ Node.xListEnd l :: nodes R l := by
    rw [hnodes]
    constructor
    · have hmem : p ∈ Node.xListEnd l :: A.map Node.item := hp ▸ List.getLastD_mem_cons
      exact List.cons_subset_cons _ (List.subset_append_left _ _) hmem
    · cases B with
      | nil => exact hq ▸ List.mem_cons_self
      | cons c B =>
        exact hq ▸ List.mem_cons_of_mem _ (List.mem_append_right _ List.mem_cons_self)
  rw [hnodes] at hcircle hnodup
  have hnewl := hnew l
  rw [hnodes] at hnewl
  refine h.changed hR ?_ ?_ ?_ ?_ ?_ ?_ hvalue
  · rw [hr, List.map_append, List.map_cons, hnext, hprev]
    exact hcircle.insert hnodup hnewl hp hq
  · intro l' hl a ha
    have hai : a ≠ .item i := fun heq => hnew l' (heq ▸ ha)
    have hap : a ≠ p := fun heq => nodes_disjoint hl ha (heq ▸ hmem.1)
    rw [hnext, Function.update_of_ne hap, Function.update_of_ne hai]
  · intro l' hl a ha
    have hai : a ≠ .item i := fun heq => hnew l' (heq ▸ ha)
    have haq : a ≠ q := fun heq => nodes_disjoint hl ha (heq ▸ hmem.2)
    rw [hprev, Function.update_of_ne haq, Function.update_of_ne hai]
  · rw [hindex, cursorNode, hcursor, ← cursorNode, ← h.index l, Function.update_eq_self]
  · rw [hnumber, h.number, hAB, hr]
    congr 1
    rw [List.length_append, List.length_append, List.length_cons]
    omega
  · rw [hcontainer, h.container]

/-- Items are inserted at the end as the rota does. -/
lemma Represents.vListInsertEnd (h : Represents m R) (hR : R.insertEnd l i = some R') :
    Represents (m.vListInsertEnd l i) R' := by
  obtain ⟨hi, hchanged⟩ := Rotas.insertEnd_eq_some hR
  obtain ⟨A, B, hAB, hr, hhead⟩ := (R.rota l).items_insertEnd i
  have hAB : R.items l = A ++ B := hAB
  have hcircle := h.circles l
  rw [nodes, hAB, List.map_append] at hcircle
  obtain ⟨-, -, hadj⟩ := circles_append.1 hcircle
  have hq : (B.map Node.item).headD (.xListEnd l) = m.pxIndex l := by
    rw [h.index, cursorNode, ← hhead]
    cases B <;> rfl
  have hitem : m.pxIndex l ≠ .item i := by
    intro heq
    have hmem := cursorNode_mem R l
    rw [← h.index, heq, item_mem_nodes, hi] at hmem
    cases hmem
  rw [hq] at hadj
  refine h.inserted hi hchanged hAB hr (Rota.cursor_insertEnd _ _) hadj.2.symm hq ?_ ?_ rfl rfl rfl
    rfl
  · simp [Lists.vListInsertEnd, Lists.setNext, Lists.setPrevious, Lists.setContainer,
      Lists.setNumber, hitem]
  · simp [Lists.vListInsertEnd, Lists.setNext, Lists.setPrevious, Lists.setContainer,
      Lists.setNumber, hitem]

/-- Items are inserted by their value as the rota does. -/
lemma Represents.vListInsert (h : Represents m R) (hR : R.insert l i = some R') :
    ∃ m', m.vListInsert l i = some m' ∧ Represents m' R' := by
  obtain ⟨hi, hchanged⟩ := Rotas.insert_eq_some hR
  have hpoint := h.insertionPoint l (R.key i)
  have hAB := List.takeWhile_append_dropWhile (p := fun j => R.key j ≤ R.key i) (l := R.items l)
  have hr := Rota.items_insertAfter (R.rota l) (fun j => R.key j ≤ R.key i) i
  rw [show (R.rota l).items = R.items l from rfl] at hr
  generalize (R.items l).takeWhile (fun j => R.key j ≤ R.key i) = A at *
  generalize (R.items l).dropWhile (fun j => R.key j ≤ R.key i) = B at *
  have hcircle := h.circles l
  rw [nodes, ← hAB, List.map_append] at hcircle
  obtain ⟨-, -, hadj⟩ := circles_append.1 hcircle
  have hitem : ∀ a ∈ Node.xListEnd l :: nodes R l, a ≠ .item i := by
    rintro a ha rfl
    rw [item_mem_nodes, hi] at ha
    cases ha
  rw [nodes, ← hAB, List.map_append] at hitem
  generalize hp : (A.map Node.item).getLastD (.xListEnd l) = p at *
  generalize hq : (B.map Node.item).headD (.xListEnd l) = q at *
  have hpi : p ≠ .item i := by
    have hmem : p ∈ Node.xListEnd l :: A.map Node.item := hp ▸ List.getLastD_mem_cons
    exact hitem p (List.cons_subset_cons _ (List.subset_append_left _ _) hmem)
  have hqi : q ≠ .item i := by
    cases B with
    | nil => exact hitem q (hq ▸ List.mem_cons_self)
    | cons c B =>
      exact hitem q (hq ▸ List.mem_cons_of_mem _ (List.mem_append_right _ List.mem_cons_self))
  refine ⟨{ m with
    pxNext := Function.update (Function.update m.pxNext (.item i) q) p (.item i)
    pxPrevious := Function.update (Function.update m.pxPrevious (.item i) p) q (.item i)
    pxContainer := Function.update m.pxContainer i (some l)
    uxNumberOfItems := Function.update m.uxNumberOfItems l (m.uxNumberOfItems l + 1) }, ?_,
    h.inserted hi hchanged hAB.symm hr (Rota.cursor_insertAfter _ _ _) hp hq rfl rfl rfl rfl rfl
      rfl⟩
  rw [Lists.vListInsert, h.value, hpoint, Option.bind_eq_bind, Option.bind_some, Option.some_inj]
  simp [Lists.setNext, Lists.setPrevious, Lists.setContainer, Lists.setNumber, hadj.1,
    Function.update_comm hqi]

/-- Items are removed as the rota does. -/
lemma Represents.uxListRemove (h : Represents m R) {n : ℕ} (hR : R.remove i = some (n, R')) :
    ∃ m', m.uxListRemove i = some (n, m') ∧ Represents m' R' := by
  obtain ⟨l, hi, hchanged, hn⟩ := Rotas.remove_eq_some hR
  have hmem : i ∈ R.items l := Rotas.mem_iff.2 hi
  obtain ⟨A, B, hAB⟩ := List.append_of_mem hmem
  have hnodup := nodup_nodes R l
  have hcircle := h.circles l
  rw [nodes, hAB, List.map_append, List.map_cons] at hnodup hcircle
  generalize hp : (A.map Node.item).getLastD (.xListEnd l) = p
  generalize hq : (B.map Node.item).headD (.xListEnd l) = q
  obtain ⟨hnext, hprev, hcircle'⟩ := hcircle.remove hnodup hp hq
  have hpmem : p ∈ Node.xListEnd l :: A.map Node.item := hp ▸ List.getLastD_mem_cons
  have hqmem : q ∈ Node.xListEnd l :: B.map Node.item := by
    cases B with
    | nil => exact hq ▸ List.mem_cons_self
    | cons c B => exact hq ▸ List.mem_cons_of_mem _ List.mem_cons_self
  have hqi : q ≠ .item i := by
    rintro rfl
    rcases List.mem_cons.1 hqmem with heq | hmem
    · cases heq
    · have hnot := (List.nodup_cons.1 (List.nodup_append.1 (List.nodup_cons.1 hnodup).2).2.1).1
      exact hnot hmem
  have hpl : p ∈ Node.xListEnd l :: nodes R l := by
    rw [nodes, hAB, List.map_append]
    exact List.cons_subset_cons _ (List.subset_append_left _ _) hpmem
  have hql : q ∈ Node.xListEnd l :: nodes R l := by
    rw [nodes, hAB, List.map_append, List.map_cons]
    refine List.cons_subset_cons _ ?_ hqmem
    exact List.Subset.trans (List.subset_cons_self _ _) (List.subset_append_right _ _)
  have hitems : (R.rota l).items = A ++ i :: B := hAB
  have herase : ((R.rota l).erase i).items = A ++ B := by
    have hnot : i ∉ A := by
      have hnd := R.nodup l
      rw [hitems] at hnd
      exact fun hA => (List.nodup_append.1 hnd).2.2 i hA i List.mem_cons_self rfl
    rw [Rota.items_erase (R.nodup l), hitems, List.erase_append_right _ hnot, List.erase_cons_head]
  have hindex : (if m.pxIndex l = .item i then p else m.pxIndex l) =
      cursorNode l ((R.rota l).erase i) := by
    split_ifs with hcur
    · have hcursor : (R.rota l).cursor = some i := by
        rw [h.index, cursorNode] at hcur
        cases hc : (R.rota l).cursor with
        | none => rw [hc] at hcur; cases hcur
        | some j =>
          rw [hc] at hcur
          cases hcur
          rfl
      rw [cursorNode, Rota.cursor_erase_self (R.nodup l) hcursor hitems, ← hp]
      rcases A.eq_nil_or_concat' with rfl | ⟨A, a, rfl⟩
      · rfl
      · simp
    · rw [h.index, cursorNode, cursorNode, Rota.cursor_erase_of_ne]
      intro hcursor
      refine hcur ?_
      rw [h.index, cursorNode, hcursor]
      rfl
  refine ⟨{ m with
    pxNext := Function.update m.pxNext p q
    pxPrevious := Function.update m.pxPrevious q p
    pxIndex := if m.pxIndex l = .item i then Function.update m.pxIndex l p else m.pxIndex
    pxContainer := Function.update m.pxContainer i none
    uxNumberOfItems := Function.update m.uxNumberOfItems l (m.uxNumberOfItems l - 1) }, ?_, ?_⟩
  · have hcount : m.uxNumberOfItems l - 1 = n := by
      rw [hn, h.number, hchanged.items, if_pos rfl, herase, hAB, List.length_append,
        List.length_append, List.length_cons]
      omega
    have hcontainer : m.pxContainer i = some l := by rw [h.container, hi]
    rw [Lists.uxListRemove, hcontainer, Option.bind_eq_bind, Option.bind_some]
    simp only [Lists.setPrevious, Lists.setNext, hnext, hprev]
    rw [Function.update_of_ne hqi.symm]
    split_ifs <;> simp [Lists.setIndex, Lists.setContainer, Lists.setNumber, hprev, hcount]
  · refine h.changed hchanged ?_ ?_ ?_ ?_ ?_ ?_ rfl
    · rw [herase, List.map_append]
      exact hcircle'
    · intro l' hl a ha
      have hap : a ≠ p := fun heq => nodes_disjoint hl ha (heq ▸ hpl)
      exact Function.update_of_ne hap _ _
    · intro l' hl a ha
      have haq : a ≠ q := fun heq => nodes_disjoint hl ha (heq ▸ hql)
      exact Function.update_of_ne haq _ _
    · rw [← hindex]
      dsimp only
      split_ifs
      · rfl
      · exact (Function.update_eq_self l m.pxIndex).symm
    · simp [herase, h.number, hAB]
    · rw [h.container]

/-- The next entry is that of the rota. -/
lemma Represents.next (h : Represents m R) (hR : R.next l = some (i, R')) :
    ∃ m', m.listGET_OWNER_OF_NEXT_ENTRY l = some (i, m') ∧ Represents m' R' := by
  obtain ⟨r, hr, hchanged⟩ := Rotas.next_eq_some hR
  have hcircle := h.circles l
  have hnext : (if m.pxNext (m.pxIndex l) = .xListEnd l then m.pxNext (.xListEnd l)
      else m.pxNext (m.pxIndex l)) = .item i := by
    rw [h.index, cursorNode_eq]
    rw [nodes, show R.items l = (R.rota l).front ++ (R.rota l).back from rfl] at hcircle
    generalize R.rota l = ro at hr hcircle ⊢
    rcases ro with ⟨front, back⟩
    rw [List.map_append] at hcircle
    have hadj := (circles_append.1 hcircle).2.2.1
    cases back with
    | cons y back =>
      obtain ⟨rfl, -⟩ := Prod.ext_iff.1 (Option.some_inj.1 hr)
      rw [List.map_cons, List.headD_cons] at hadj
      rw [hadj, if_neg nofun]
    | nil =>
      rw [List.map_nil, List.headD_nil] at hadj
      rw [hadj, if_pos rfl]
      cases front with
      | nil => cases hr
      | cons z front =>
        obtain ⟨rfl, -⟩ := Prod.ext_iff.1 (Option.some_inj.1 hr)
        rw [List.map_nil, List.append_nil, ← List.nil_append (List.map _ _)] at hcircle
        exact (circles_append.1 hcircle).2.2.1
  refine ⟨{ m with pxIndex := Function.update m.pxIndex l (.item i) }, ?_, ?_⟩
  · rw [Lists.listGET_OWNER_OF_NEXT_ENTRY]
    simp only [Lists.setIndex, Function.update_self]
    split_ifs at hnext ⊢ with hend
    · simp [hnext, Lists.pvOwner]
    · simp [hnext, Lists.pvOwner]
  · obtain ⟨-, -, -, hitems, hcursor⟩ := Rota.next_spec hr
    refine h.changed hchanged ?_ (fun _ _ _ _ => rfl) (fun _ _ _ _ => rfl) ?_ ?_ h.container rfl
    · rw [hitems]
      exact hcircle
    · rw [cursorNode, hcursor]
      rfl
    · rw [hitems, show (R.rota l).items = R.items l from rfl, ← h.number, Function.update_eq_self]

end Operations

/-! ### Runs -/

section Runs

variable [DecidableEq L] [DecidableEq I]

/-- A call of one of the functions. -/
inductive ListCall (L I : Type u)
  | setItemValue (pxItem : I) (xValue : TickType_t)
  | insertEnd (pxList : L) (pxNewListItem : I)
  | insert (pxList : L) (pxNewListItem : I)
  | remove (pxItemToRemove : I)
  | getOwnerOfNextEntry (pxList : L)
  | getOwnerOfHeadEntry (pxList : L)
  | getItemValueOfHeadEntry (pxList : L)
  | currentListLength (pxList : L)

/-- What a call returns. -/
inductive ListAnswer (I : Type u)
  | none
  | number (n : ℕ)
  | owner (i : I)
  | value (v : TickType_t)

/-- A call on the pointers. -/
def ListCall.run (m : Lists L I) : ListCall L I → Option (ListAnswer I × Lists L I)
  | .setItemValue i v      => some (.none, m.listSET_LIST_ITEM_VALUE i v)
  | .insertEnd l i         => some (.none, m.vListInsertEnd l i)
  | .insert l i            => (m.vListInsert l i).map fun m => (.none, m)
  | .remove i              => (m.uxListRemove i).map fun a => (.number a.1, a.2)
  | .getOwnerOfNextEntry l => (m.listGET_OWNER_OF_NEXT_ENTRY l).map fun a => (.owner a.1, a.2)
  | .getOwnerOfHeadEntry l => (m.listGET_OWNER_OF_HEAD_ENTRY l).map fun i => (.owner i, m)
  | .getItemValueOfHeadEntry l => some (.value (m.listGET_ITEM_VALUE_OF_HEAD_ENTRY l), m)
  | .currentListLength l => some (.number (m.listCURRENT_LIST_LENGTH l), m)

/-- A call on the rotas, which has no result where the list functions may not be called. -/
def ListCall.rotate (R : Rotas L I TickType_t) :
    ListCall L I → Option (ListAnswer I × Rotas L I TickType_t)
  | .setItemValue i v      => some (.none, R.setKey i v)
  | .insertEnd l i         => (R.insertEnd l i).map fun R => (.none, R)
  | .insert l i            => (R.insert l i).map fun R => (.none, R)
  | .remove i              => (R.remove i).map fun a => (.number a.1, a.2)
  | .getOwnerOfNextEntry l => (R.next l).map fun a => (.owner a.1, a.2)
  | .getOwnerOfHeadEntry l => (R.head l).map fun i => (.owner i, R)
  | .getItemValueOfHeadEntry l => some (.value ((R.head l).elim portMAX_DELAY R.key), R)
  | .currentListLength l => some (.number (R.items l).length, R)

/-- The answers to the calls and the state after them. -/
def runCalls {σ : Type u} (f : σ → ListCall L I → Option (ListAnswer I × σ)) :
    σ → List (ListCall L I) → Option (List (ListAnswer I) × σ)
  | s, []            => some ([], s)
  | s, call :: calls => do
    let (answer, s) ← f s call
    let (answers, s) ← runCalls f s calls
    some (answer :: answers, s)

variable {m : Lists L I} {R R' : Rotas L I TickType_t}

lemma Represents.setItemValue (h : Represents m R) (i : I) (v : TickType_t) :
    Represents (m.listSET_LIST_ITEM_VALUE i v) (R.setKey i v) where
  circles := h.circles
  index := h.index
  number := h.number
  container := h.container
  value j := by
    by_cases hj : j = i
    · simp [Lists.listSET_LIST_ITEM_VALUE, Lists.setValue, Rotas.setKey, hj]
    · have hne : Node.item (L := L) j ≠ .item i := fun heq => hj (by cases heq; rfl)
      simp [Lists.listSET_LIST_ITEM_VALUE, Lists.setValue, Rotas.setKey, hj, h.value]
  value_end l := h.value_end l

/-- One call. -/
lemma Represents.run (h : Represents m R) {call : ListCall L I} {answer : ListAnswer I}
    (hR : call.rotate R = some (answer, R')) :
    ∃ m', call.run m = some (answer, m') ∧ Represents m' R' := by
  cases call with
  | setItemValue i v =>
    cases hR
    exact ⟨_, rfl, h.setItemValue i v⟩
  | insertEnd l i =>
    obtain ⟨S, hS, heq⟩ := Option.map_eq_some_iff.1 hR
    cases heq
    exact ⟨_, rfl, h.vListInsertEnd hS⟩
  | insert l i =>
    obtain ⟨S, hS, heq⟩ := Option.map_eq_some_iff.1 hR
    cases heq
    obtain ⟨m', hm, hm'⟩ := h.vListInsert hS
    exact ⟨m', by rw [ListCall.run, hm]; rfl, hm'⟩
  | remove i =>
    obtain ⟨⟨n, S⟩, hS, heq⟩ := Option.map_eq_some_iff.1 hR
    cases heq
    obtain ⟨m', hm, hm'⟩ := h.uxListRemove hS
    exact ⟨m', by rw [ListCall.run, hm]; rfl, hm'⟩
  | getOwnerOfNextEntry l =>
    obtain ⟨⟨i, S⟩, hS, heq⟩ := Option.map_eq_some_iff.1 hR
    cases heq
    obtain ⟨m', hm, hm'⟩ := h.next hS
    exact ⟨m', by rw [ListCall.run, hm]; rfl, hm'⟩
  | getOwnerOfHeadEntry l =>
    obtain ⟨i, hi, heq⟩ := Option.map_eq_some_iff.1 hR
    cases heq
    exact ⟨m, by rw [ListCall.run, Lists.listGET_OWNER_OF_HEAD_ENTRY, h.head_node l, hi]; rfl, h⟩
  | getItemValueOfHeadEntry l =>
    cases hR
    refine ⟨m, ?_, h⟩
    rw [ListCall.run, Lists.listGET_ITEM_VALUE_OF_HEAD_ENTRY, h.head_node l]
    cases R.head l with
    | none => rw [Option.elim_none, Option.elim_none, h.value_end]
    | some i => rw [Option.elim_some, Option.elim_some, h.value]
  | currentListLength l =>
    cases hR
    exact ⟨m, by rw [ListCall.run, Lists.listCURRENT_LIST_LENGTH, h.number], h⟩

/-- The lists and items after all of them were initialised. -/
def initialiseAll (m : Lists L I) (ls : List L) (is : List I) : Lists L I :=
  is.foldl Lists.vListInitialiseItem (ls.foldl Lists.vListInitialise m)

lemma foldl_vListInitialise (m : Lists L I) (ls : List L) :
    (∀ i, (ls.foldl Lists.vListInitialise m).xItemValue (.item i) = m.xItemValue (.item i)) ∧
      ∀ l ∈ ls, Circles (ls.foldl Lists.vListInitialise m).pxNext
          (ls.foldl Lists.vListInitialise m).pxPrevious (.xListEnd l) [] ∧
        (ls.foldl Lists.vListInitialise m).pxIndex l = .xListEnd l ∧
        (ls.foldl Lists.vListInitialise m).uxNumberOfItems l = 0 ∧
        (ls.foldl Lists.vListInitialise m).xItemValue (.xListEnd l) = portMAX_DELAY := by
  induction ls using List.reverseRecOn with
  | nil => exact ⟨fun _ => rfl, fun l hl => absurd hl List.not_mem_nil⟩
  | append_singleton ls k ih =>
    obtain ⟨hvalue, hlists⟩ := ih
    rw [List.foldl_append, List.foldl_cons, List.foldl_nil]
    generalize ls.foldl Lists.vListInitialise m = m₁ at *
    refine ⟨fun i => ?_, fun l hl => ?_⟩
    · simp [Lists.vListInitialise, Lists.setIndex, Lists.setValue, Lists.setNext,
        Lists.setPrevious, Lists.setNumber, hvalue]
    · by_cases hlk : l = k
      · rw [circles_nil, hlk]
        simp [Lists.vListInitialise, Lists.setIndex, Lists.setValue, Lists.setNext,
          Lists.setPrevious, Lists.setNumber]
      · obtain hl | hl := List.mem_append.1 hl
        · obtain ⟨h1, h2, h3, h4⟩ := hlists l hl
          rw [circles_nil] at h1 ⊢
          simp [Lists.vListInitialise, Lists.setIndex, Lists.setValue, Lists.setNext,
            Lists.setPrevious, Lists.setNumber, hlk, h1, h2, h3, h4]
        · exact absurd (List.mem_singleton.1 hl) hlk

lemma represents_initialiseAll (m : Lists L I) {ls : List L} {is : List I} (hls : ∀ l, l ∈ ls)
    (his : ∀ i, i ∈ is) :
    Represents (initialiseAll m ls is) (Rotas.initial fun i => m.xItemValue (.item i)) := by
  have hitems : ∀ (m : Lists L I) (is : List I), (is.foldl Lists.vListInitialiseItem m) =
      { m with pxContainer := fun i => if i ∈ is then none else m.pxContainer i } := by
    intro m is
    induction is generalizing m with
    | nil => simp
    | cons j is ih =>
      rw [List.foldl_cons, ih]
      simp only [Lists.vListInitialiseItem, Lists.setContainer]
      congr 1
      funext i
      by_cases hij : i = j
      · simp [hij]
      · simp [hij]
  obtain ⟨hvalue, hlists⟩ := foldl_vListInitialise m ls
  rw [initialiseAll, hitems]
  constructor
  case circles => exact fun l => (hlists l (hls l)).1
  case index => exact fun l => (hlists l (hls l)).2.1
  case number => exact fun l => (hlists l (hls l)).2.2.1
  case container =>
    funext i
    exact if_pos (his i)
  case value => exact hvalue
  case value_end => exact fun l => (hlists l (hls l)).2.2.2

/-- Whatever is called, and in whatever order, on any number of lists: as long as no item is put
into a list while it is in one, the functions answer as rotas do, and the pointers are those of the
rotas in the end. -/
theorem lists_refine_rotas (m : Lists L I) {ls : List L} {is : List I} (hls : ∀ l, l ∈ ls)
    (his : ∀ i, i ∈ is) {calls : List (ListCall L I)} {answers : List (ListAnswer I)}
    (hR : runCalls ListCall.rotate (Rotas.initial fun i => m.xItemValue (.item i)) calls =
      some (answers, R)) :
    ∃ m', runCalls ListCall.run (initialiseAll m ls is) calls = some (answers, m') ∧
      Represents m' R := by
  have h := represents_initialiseAll m hls his
  generalize Rotas.initial (fun i => m.xItemValue (.item i)) = R₀ at hR h
  generalize initialiseAll m ls is = m₀ at h ⊢
  induction calls generalizing R₀ m₀ answers with
  | nil =>
    cases hR
    exact ⟨m₀, rfl, h⟩
  | cons call calls ih =>
    obtain ⟨⟨answer, R₁⟩, hcall, hrest⟩ := Option.bind_eq_some_iff.1 hR
    obtain ⟨⟨answers, R₂⟩, hcalls, heq⟩ := Option.bind_eq_some_iff.1 hrest
    cases heq
    obtain ⟨m₁, hm₁, h₁⟩ := h.run hcall
    obtain ⟨m₂, hm₂, h₂⟩ := ih R₁ hcalls m₁ h₁
    refine ⟨m₂, ?_, h₂⟩
    rw [runCalls, hm₁, Option.bind_eq_bind, Option.bind_some]
    dsimp only
    rw [hm₂]
    rfl

theorem lists_refine_rotas_two : ∃ m' : Lists Bool (Fin 3), runCalls ListCall.run
    (initialiseAll ⟨id, id, fun _ => 0, fun _ => none, fun _ => 0, fun _ => .xListEnd false⟩
      [false, true] [0, 1, 2])
    [.insertEnd true 0, .insertEnd true 1, .getOwnerOfNextEntry true, .setItemValue 2 5,
      .insert false 2, .remove 1, .getItemValueOfHeadEntry false] =
      some ([.none, .none, .owner 0, .none, .none, .number 1, .value 5], m') := by
  obtain ⟨R, hR⟩ : ∃ R : Rotas Bool (Fin 3) TickType_t,
      runCalls ListCall.rotate (Rotas.initial fun _ => 0)
        [.insertEnd true 0, .insertEnd true 1, .getOwnerOfNextEntry true, .setItemValue 2 5,
          .insert false 2, .remove 1, .getItemValueOfHeadEntry false] =
        some ([.none, .none, .owner 0, .none, .none, .number 1, .value 5], R) := ⟨_, rfl⟩
  obtain ⟨m', hm, -⟩ := lists_refine_rotas
    (⟨id, id, fun _ => 0, fun _ => none, fun _ => 0, fun _ => .xListEnd false⟩ :
      Lists Bool (Fin 3)) (by decide : ∀ l, l ∈ [false, true])
    (by decide : ∀ i : Fin 3, i ∈ [0, 1, 2]) hR
  exact ⟨m', hm⟩

end Runs

end RT1064.Kernel
