import RT1064.Kernel.TasksResume

/-!
# Blocking

The running task leaves its ready list and waits: until a time, for an event, or for both.
-/

namespace RT1064.Kernel

open Core

namespace Scheduler

variable {T E : Type} {k k' : Scheduler T E} {t c : T} {n : TickType_t} {b : Bool}

/-- The list in which a task waits for `n` ticks, or without end if it may. -/
def blockList (k : Scheduler T E) (n : TickType_t) (b : Bool) : StateList :=
  if n = portMAX_DELAY ∧ b = true then .xSuspendedTaskList
  else if k.xTickCount + n < k.xTickCount then k.pxOverflowDelayedTaskList
  else k.pxDelayedTaskList

lemma blockList_blocked (h : k.StatesSound) (n : TickType_t) (b : Bool) :
    (k.blockList n b).Blocked := by
  rw [blockList]
  split_ifs
  · trivial
  · exact h.delayed_blocked.2
  · exact h.delayed_blocked.1

variable [DecidableEq T]

/-- The running task `c` was moved from its ready list to a list in which it waits. -/
structure Blocks (k : Scheduler T E) (c : T) (n : TickType_t) (b : Bool) (k' : Scheduler T E) :
    Prop where
  moved : ∃ r, k.states.Moved c (k.blockList n b) r k'.states
  key_of_ne : ∀ t ≠ c, k'.states.key t = k.states.key t
  key_self : ¬ (n = portMAX_DELAY ∧ b = true) → k'.states.key c = k.xTickCount + n
  sorted : ∀ l, l ≠ .xSuspendedTaskList →
    (k.states.items l).Pairwise (fun t u => (k.states.key t).toNat ≤ (k.states.key u).toNat) →
    (k'.states.items l).Pairwise fun t u => (k'.states.key t).toNat ≤ (k'.states.key u).toNat
  top : k'.uxTopReadyPriority =
    if (k.states.items (.pxReadyTasksLists (k.uxPriority c))).erase c = [] then
      portRESET_READY_PRIORITY (k.uxPriority c) k.uxTopReadyPriority
    else k.uxTopReadyPriority
  unblock : k'.xNextTaskUnblockTime.toNat ≤ k.xNextTaskUnblockTime.toNat
  unblock_self : k.blockList n b = k.pxDelayedTaskList →
    k'.xNextTaskUnblockTime.toNat ≤ (k'.states.key c).toNat
  rest : k' = { k with
    states := k'.states
    uxTopReadyPriority := k'.uxTopReadyPriority
    xNextTaskUnblockTime := k'.xNextTaskUnblockTime }

/-- A list stays sorted if a task from another list is put into it by its key. -/
lemma pairwise_insertAfter {R : Rotas StateList T TickType_t} {l : StateList} {w : TickType_t}
    (hc : c ∉ R.items l)
    (h : (R.items l).Pairwise fun t u => (R.key t).toNat ≤ (R.key u).toNat) :
    (((R.rota l).insertAfter
      (fun j => (R.setKey c w).key j ≤ (R.setKey c w).key c) c).items).Pairwise
      fun t u => ((R.setKey c w).key t).toNat ≤ ((R.setKey c w).key u).toNat := by
  rw [Rota.items_insertAfter]
  have hne : ∀ v ∈ R.items l, (R.setKey c w).key v = R.key v := by
    intro v hv
    refine Function.update_of_ne ?_ _ _
    rintro rfl
    exact hc hv
  have hsorted : (R.items l).Pairwise fun t u =>
      ((R.setKey c w).key t).toNat ≤ ((R.setKey c w).key u).toNat := by
    refine h.imp_of_mem fun {t u} ht hu hle => ?_
    rw [hne t ht, hne u hu]
    exact hle
  exact pairwise_insert_of_le hsorted c

/-- The lists other than that to which `c` moves lose `c` only. -/
lemma sorted_of_moved {R R' : Rotas StateList T TickType_t} {l l' : StateList} {r : Rota T}
    (hmoved : R.Moved c l r R') (hkey : ∀ t ≠ c, R'.key t = R.key t) (hl : l' ≠ l)
    (h : (R.items l').Pairwise fun t u => (R.key t).toNat ≤ (R.key u).toNat) :
    (R'.items l').Pairwise fun t u => (R'.key t).toNat ≤ (R'.key u).toNat := by
  rw [hmoved.items hl]
  refine (h.sublist List.erase_sublist).imp_of_mem fun {t u} ht hu hle => ?_
  have hne : ∀ v ∈ (R.items l').erase c, v ≠ c := fun v hv =>
    ((R.nodup l').mem_erase_iff.1 hv).1
  rw [hkey t (hne t ht), hkey u (hne u hu)]
  exact hle

/-- The running task is moved to the list in which it waits. -/
lemma prvAddCurrentTaskToDelayedList_spec (h : k.StatesSound) (hc : k.pxCurrentTCB = some c)
    (hready : k.Ready c (k.uxPriority c)) (n : TickType_t) (b : Bool) :
    ∃ k', k.prvAddCurrentTaskToDelayedList n b = some k' ∧ Blocks k c n b k' := by
  obtain ⟨R, hR, hleft⟩ := removeState_spec hready
  have hnone : R.container c = none := by rw [hleft.container, Function.update_self]
  have hR' : R.items (.pxReadyTasksLists (k.uxPriority c)) =
      (k.states.items (.pxReadyTasksLists (k.uxPriority c))).erase c := by
    rw [hleft.items, if_pos rfl, Rota.items_erase (k.states.nodup _)]
    rfl
  have hbits : (if (R.items (.pxReadyTasksLists (k.uxPriority c))).length = 0 then
      ({ k with
        states := R
        uxTopReadyPriority :=
          portRESET_READY_PRIORITY (k.uxPriority c) k.uxTopReadyPriority } : Scheduler T E)
      else { k with states := R }) = { k with
        states := R
        uxTopReadyPriority :=
          if (k.states.items (.pxReadyTasksLists (k.uxPriority c))).erase c = [] then
            portRESET_READY_PRIORITY (k.uxPriority c) k.uxTopReadyPriority
          else k.uxTopReadyPriority } := by
    simp only [hR', List.length_eq_zero_iff]
    split_ifs <;> rfl
  rw [prvAddCurrentTaskToDelayedList, hc, Option.bind_eq_bind, Option.bind_some, hR,
    Option.bind_eq_bind, Option.bind_some]
  dsimp only
  rw [hbits]
  dsimp only
  by_cases hforever : n = portMAX_DELAY ∧ b = true
  · obtain ⟨S, hS, hjoined⟩ := Rotas.exists_insertEnd hnone .xSuspendedTaskList
    have hmoved := hleft.moved hready rfl rfl hjoined
    have hlist : k.blockList n b = .xSuspendedTaskList := if_pos hforever
    have hkey : ∀ t, S.key t = k.states.key t := congrFun (hjoined.key.trans hleft.key)
    rw [if_pos hforever, hS]
    refine ⟨_, rfl, ⟨_, hlist ▸ hmoved⟩, fun t _ => hkey t, fun hnot => absurd hforever hnot,
      fun l hl => sorted_of_moved hmoved (fun t _ => hkey t) hl, rfl, le_rfl, fun heq => ?_, rfl⟩
    have hblocked := h.delayedLists
    rw [← heq, hlist] at hblocked
    simp at hblocked
  · rw [if_neg hforever]
    generalize htop : (if (k.states.items (.pxReadyTasksLists (k.uxPriority c))).erase c = [] then
      portRESET_READY_PRIORITY (k.uxPriority c) k.uxTopReadyPriority
      else k.uxTopReadyPriority) = top
    -- the new list of the task, which has its wake time
    obtain ⟨S, hS, hjoined⟩ := Rotas.exists_insert
      (R := R.setKey c (k.xTickCount + n)) hnone (k.blockList n b)
    obtain ⟨r, hmoved⟩ : ∃ r, k.states.Moved c (k.blockList n b) r S :=
      ⟨_, hleft.moved hready (by rfl) (by rfl) hjoined⟩
    have hself : S.key c = k.xTickCount + n := by
      rw [hjoined.key]
      exact Function.update_self ..
    have hother : ∀ t ≠ c, S.key t = k.states.key t := by
      intro t ht
      rw [hjoined.key, ← hleft.key]
      exact Function.update_of_ne ht _ _
    have hne_ready : k.blockList n b ≠ .pxReadyTasksLists (k.uxPriority c) := by
      have hblocked := blockList_blocked h n b
      rintro heq
      rw [heq] at hblocked
      exact hblocked
    have hsorted : ∀ l, l ≠ .xSuspendedTaskList →
        (k.states.items l).Pairwise
          (fun t u => (k.states.key t).toNat ≤ (k.states.key u).toNat) →
        (S.items l).Pairwise fun t u => (S.key t).toNat ≤ (S.key u).toNat := by
      intro l _ hl
      by_cases heq : l = k.blockList n b
      · have hitems : R.items l = k.states.items l := by
          rw [hleft.items, if_neg (heq ▸ hne_ready)]
        rw [← hitems, ← hleft.key] at hl
        have hinsert := pairwise_insertAfter (w := k.xTickCount + n)
          (Rotas.notMem_of_container hnone l) hl
        rw [hjoined.items, if_pos heq, hjoined.key, ← heq]
        exact hinsert
      · exact sorted_of_moved hmoved hother heq hl
    rw [blockList, if_neg hforever] at hS
    by_cases hover : k.xTickCount + n < k.xTickCount
    · rw [if_pos hover] at hS ⊢
      rw [hS]
      refine ⟨_, rfl, ⟨_, hmoved⟩, hother, fun _ => hself, hsorted, htop.symm, le_rfl,
        fun heq => ?_, rfl⟩
      rw [blockList, if_neg hforever, if_pos hover] at heq
      exact absurd heq.symm h.delayed_ne_overflow
    · rw [if_neg hover] at hS ⊢
      rw [hS, Option.bind_eq_bind, Option.bind_some]
      split_ifs with hlt
      · exact ⟨_, rfl, ⟨_, hmoved⟩, hother, fun _ => hself, hsorted, htop.symm, Nat.le_of_lt hlt,
          fun _ => by rw [hself], rfl⟩
      · refine ⟨_, rfl, ⟨_, hmoved⟩, hother, fun _ => hself, hsorted, htop.symm, le_rfl,
          fun _ => ?_, rfl⟩
        rw [hself]
        exact Nat.le_of_not_lt hlt

/-- The bits after a ready task left its list. -/
lemma StatesSound.bitmap_erase (h : k.StatesSound) (ht : k.Ready t (k.uxPriority t)) (i : ℕ) :
    (if (k.states.items (.pxReadyTasksLists (k.uxPriority t))).erase t = [] then
        portRESET_READY_PRIORITY (k.uxPriority t) k.uxTopReadyPriority
      else k.uxTopReadyPriority).getLsbD i = true ↔
      ∃ u p, p.val = i ∧ u ≠ t ∧ k.Ready u p := by
  have hlt : (k.uxPriority t).val < 32 := (k.uxPriority t).isLt.trans (by decide)
  have hmem : ∀ u, u ∈ (k.states.items (.pxReadyTasksLists (k.uxPriority t))).erase t ↔
      u ≠ t ∧ k.Ready u (k.uxPriority t) := fun u => by
    rw [(k.states.nodup_items _).mem_erase_iff, Rotas.mem_iff]
    rfl
  have hself : ∀ p, k.Ready t p → p = k.uxPriority t := fun p hp => (h.priority t p hp).symm
  split_ifs with hnil
  · rw [getLsbD_portRESET hlt, Bool.and_eq_true, h.bitmap, Bool.not_eq_true',
      decide_eq_false_iff_not]
    constructor
    · rintro ⟨⟨u, p, hp, hu⟩, hne⟩
      refine ⟨u, p, hp, ?_, hu⟩
      rintro rfl
      exact hne (hself p hu ▸ hp)
    · rintro ⟨u, p, hp, hu, hur⟩
      refine ⟨⟨u, p, hp, hur⟩, fun heq => ?_⟩
      obtain rfl : p = k.uxPriority t := Fin.ext (hp.trans heq.symm)
      have hin := (hmem u).2 ⟨hu, hur⟩
      rw [hnil] at hin
      exact List.not_mem_nil hin
  · rw [h.bitmap]
    constructor
    · rintro ⟨u, p, hp, hu⟩
      by_cases hut : u = t
      · obtain ⟨v, hv⟩ := List.exists_mem_of_ne_nil _ hnil
        obtain rfl := hself p (hut ▸ hu)
        exact ⟨v, _, hp, (hmem v).1 hv⟩
      · exact ⟨u, p, hp, hut, hu⟩
    · rintro ⟨u, p, hp, -, hu⟩
      exact ⟨u, p, hp, hu⟩

section Blocks

variable {u : T} (h : Blocks k c n b k')

include h

lemma Blocks.container_self : k'.states.container c = some (k.blockList n b) := by
  obtain ⟨r, hmoved⟩ := h.moved
  rw [hmoved.container, Function.update_self]

lemma Blocks.container_of_ne (hu : u ≠ c) : k'.states.container u = k.states.container u := by
  obtain ⟨r, hmoved⟩ := h.moved
  rw [hmoved.container, Function.update_of_ne hu]

lemma Blocks.waits (hsound : k.StatesSound) : k'.Waits c :=
  ⟨_, blockList_blocked hsound n b, h.container_self⟩

lemma Blocks.ready_iff (hsound : k.StatesSound) (p : Fin configMAX_PRIORITIES) :
    k'.Ready u p ↔ u ≠ c ∧ k.Ready u p := by
  by_cases hu : u = c
  · rw [hu]
    exact ⟨fun hr => absurd hr ((h.waits hsound).not_ready p), fun hr => absurd rfl hr.1⟩
  · rw [Ready, h.container_of_ne hu]
    exact ⟨fun hr => ⟨hu, hr⟩, And.right⟩

lemma Blocks.priority : k'.uxPriority = k.uxPriority := by rw [h.rest]

lemma Blocks.bitmap (hsound : k.StatesSound) (hready : k.Ready c (k.uxPriority c)) (i : ℕ) :
    k'.uxTopReadyPriority.getLsbD i = true ↔ ∃ t p, p.val = i ∧ k'.Ready t p := by
  rw [h.top, hsound.bitmap_erase hready]
  simp only [h.ready_iff hsound]

lemma Blocks.statesSound (hsound : k.StatesSound) (hready : k.Ready c (k.uxPriority c)) :
    k'.StatesSound := by
  obtain ⟨r, hmoved⟩ := h.moved
  have hdelayed : k'.pxDelayedTaskList = k.pxDelayedTaskList := by rw [h.rest]
  have hoverflow : k'.pxOverflowDelayedTaskList = k.pxOverflowDelayedTaskList := by rw [h.rest]
  constructor
  case delayedLists =>
    rw [hdelayed, hoverflow]
    exact hsound.delayedLists
  case bitmap => exact h.bitmap hsound hready
  case priority =>
    intro u p hu
    rw [h.priority]
    exact hsound.priority u p ((h.ready_iff hsound p).1 hu).2
  case delayed_sorted =>
    rw [hdelayed]
    refine h.sorted _ ?_ hsound.delayed_sorted
    rcases hsound.delayedLists with ⟨heq, -⟩ | ⟨heq, -⟩ <;> simp [heq]
  case overflow_sorted =>
    rw [hoverflow]
    refine h.sorted _ ?_ hsound.overflow_sorted
    rcases hsound.delayedLists with ⟨-, heq⟩ | ⟨-, heq⟩ <;> simp [heq]
  case deleted =>
    have hdeleted : k'.uxDeletedTasksWaitingCleanUp = k.uxDeletedTasksWaitingCleanUp := by
      rw [h.rest]
    have hne : StateList.xTasksWaitingTermination ≠ k.blockList n b := by
      have hblocked := blockList_blocked hsound n b
      rintro heq
      rw [← heq] at hblocked
      exact hblocked
    have hnot : c ∉ k.states.items .xTasksWaitingTermination := by
      rw [Rotas.mem_iff, hready]
      rintro ⟨⟩
    rw [hdeleted, hmoved.items hne, List.erase_of_not_mem hnot, hsound.deleted]
  case number =>
    have hnumber : k'.uxCurrentNumberOfTasks = k.uxCurrentNumberOfTasks := by rw [h.rest]
    obtain ⟨F, hF, hcard⟩ := hsound.number
    refine ⟨F, fun u => (hF u).trans ?_, hnumber.trans hcard⟩
    by_cases hu : u = c
    · rw [hu, h.container_self, hready]
      simp
    · rw [h.container_of_ne hu]

/-- The task wakes after `n` ticks. -/
lemma Blocks.wakesIn (hforever : ¬ (n = portMAX_DELAY ∧ b = true)) : k'.WakesIn c n.toNat := by
  have hdelayed : k'.pxDelayedTaskList = k.pxDelayedTaskList := by rw [h.rest]
  have hoverflow : k'.pxOverflowDelayedTaskList = k.pxOverflowDelayedTaskList := by rw [h.rest]
  have hcount : k'.xTickCount = k.xTickCount := by rw [h.rest]
  rw [WakesIn, h.container_self, h.key_self hforever, hdelayed, hoverflow, hcount, blockList,
    if_neg hforever]
  by_cases hover : k.xTickCount + n < k.xTickCount
  · rw [if_pos hover]
    exact .inr ⟨rfl, by bv_omega⟩
  · rw [if_neg hover]
    exact .inl ⟨rfl, by bv_omega⟩

/-- The other tasks have the same time left. -/
lemma Blocks.wakesIn_of_ne (hu : u ≠ c) (r : ℕ) : k'.WakesIn u r ↔ k.WakesIn u r := by
  have hdelayed : k'.pxDelayedTaskList = k.pxDelayedTaskList := by rw [h.rest]
  have hoverflow : k'.pxOverflowDelayedTaskList = k.pxOverflowDelayedTaskList := by rw [h.rest]
  have hcount : k'.xTickCount = k.xTickCount := by rw [h.rest]
  rw [WakesIn, WakesIn, h.container_of_ne hu, h.key_of_ne u hu, hdelayed, hoverflow, hcount]

lemma Blocks.timely (hsound : k'.StatesSound) (htimely : k.Timely) (hn : 0 < n.toNat) :
    k'.Timely := by
  have hdelayed : k'.pxDelayedTaskList = k.pxDelayedTaskList := by rw [h.rest]
  have hoverflow : k'.pxOverflowDelayedTaskList = k.pxOverflowDelayedTaskList := by rw [h.rest]
  have hcount : k'.xTickCount = k.xTickCount := by rw [h.rest]
  -- the task itself is in one of the two lists only if it waits for a time
  have hself : k'.states.container c = some k'.pxDelayedTaskList ∨
      k'.states.container c = some k'.pxOverflowDelayedTaskList → k'.WakesIn c n.toNat := by
    intro hor
    refine h.wakesIn fun hforever => ?_
    have hlist : k.blockList n b = .xSuspendedTaskList := if_pos hforever
    rw [h.container_self, hlist, Option.some_inj, Option.some_inj] at hor
    rcases hsound.delayedLists with ⟨h1, h2⟩ | ⟨h1, h2⟩
    · rw [h1, h2] at hor
      simp at hor
    · rw [h1, h2] at hor
      simp at hor
  have hne := hsound.delayed_ne_overflow
  constructor
  case delayed =>
    intro t ht
    by_cases htc : t = c
    · rcases hself (.inl (htc ▸ ht)) with ⟨-, hkey⟩ | ⟨hc, -⟩
      · rw [htc]
        omega
      · exact absurd (Option.some_inj.1 ((htc ▸ ht).symm.trans hc)) hne
    · rw [hdelayed, h.container_of_ne htc] at ht
      rw [hcount, h.key_of_ne t htc]
      exact htimely.delayed t ht
  case overflow =>
    intro t ht
    by_cases htc : t = c
    · rcases hself (.inr (htc ▸ ht)) with ⟨hc, -⟩ | ⟨-, hkey⟩
      · exact absurd (Option.some_inj.1 (hc.symm.trans (htc ▸ ht))) hne
      · rw [htc]
        have := n.isLt
        omega
    · rw [hoverflow, h.container_of_ne htc] at ht
      rw [hcount, h.key_of_ne t htc]
      exact htimely.overflow t ht
  case unblock =>
    intro t ht
    rw [hdelayed] at ht
    by_cases htc : t = c
    · rw [htc, h.container_self, Option.some_inj] at ht
      rw [htc]
      exact h.unblock_self ht
    · rw [h.container_of_ne htc] at ht
      rw [h.key_of_ne t htc]
      exact h.unblock.trans (htimely.unblock t ht)

end Blocks

/-! ### Waiting until a time -/

/-- The comparisons of `xTaskDelayUntil` ask whether the time that passed since the last wake time
is shorter than the period, whichever of the three times overflowed. -/
lemma xTaskDelayUntilBlock_eq {u p : TickType_t} (hp : p ≠ 0) (hs : k.uxSchedulerSuspended = 1) :
    k.xTaskDelayUntilBlock u p =
      if k.xTickCount - u < p then
        (k.prvAddCurrentTaskToDelayedList (u + p - k.xTickCount) false).map fun k =>
          (k, true, u + p)
      else some (k, false, u + p) := by
  have hshould : (if k.xTickCount < u then
        decide (u + p < u) && decide (k.xTickCount < u + p)
      else decide (u + p < u) || decide (k.xTickCount < u + p)) =
      decide (k.xTickCount - u < p) := by
    split_ifs with hlt
    · rw [← Bool.decide_and, decide_eq_decide]
      bv_omega
    · rw [← Bool.decide_or, decide_eq_decide]
      bv_omega
  rw [xTaskDelayUntilBlock, if_pos ⟨(BitVec.pos_iff_ne_zero p).2 hp, hs⟩]
  dsimp only
  rw [hshould]
  by_cases hlt : k.xTickCount - u < p
  · rw [decide_eq_true hlt, if_pos rfl, if_pos hlt]
    cases k.prvAddCurrentTaskToDelayedList (u + p - k.xTickCount) false <;> rfl
  · rw [decide_eq_false hlt, if_neg hlt]
    rfl

end Scheduler

end RT1064.Kernel
