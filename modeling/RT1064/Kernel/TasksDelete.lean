import RT1064.Kernel.TasksSwitch

/-!
# Deleted tasks

A deleted task is in no list, or waits for the idle task if it deleted itself.
-/

namespace RT1064.Kernel

open Core

namespace Scheduler

variable {T E : Type} {k k' : Scheduler T E} {t c : T}

variable [DecidableEq T]

/-- The task `t` left all lists, but for the one in which deleted tasks wait for the idle task. -/
structure Leaves (k : Scheduler T E) (t : T) (k' : Scheduler T E) : Prop where
  came : k.states.container t ≠ none
  container_of_ne : ∀ u ≠ t, k'.states.container u = k.states.container u
  gone : k'.states.container t = none ∨
    k'.states.container t = some .xTasksWaitingTermination
  rota : ∀ l, l ≠ .xTasksWaitingTermination →
    k'.states.rota l = (k.states.rota l).erase t
  key : k'.states.key = k.states.key
  event_container : k'.events.container = Function.update k.events.container t none
  event_items : ∀ l, k'.events.items l = (k.events.items l).erase t
  event_key : k'.events.key = k.events.key
  bitmap : ∀ i, k'.uxTopReadyPriority.getLsbD i = true ↔
    ∃ u p, p.val = i ∧ u ≠ t ∧ k.Ready u p
  unblock : ∀ u, u ≠ t → k.states.container u = some k.pxDelayedTaskList →
    k'.xNextTaskUnblockTime.toNat ≤ (k.states.key u).toNat
  rest : k' = { k with
    states := k'.states
    events := k'.events
    uxTopReadyPriority := k'.uxTopReadyPriority
    xNextTaskUnblockTime := k'.xNextTaskUnblockTime
    uxCurrentNumberOfTasks := k'.uxCurrentNumberOfTasks
    uxDeletedTasksWaitingCleanUp := k'.uxDeletedTasksWaitingCleanUp }

/-- A task may be deleted while it is ready or waits. -/
def Alive (k : Scheduler T E) (t : T) : Prop := k.Waits t ∨ ∃ p, k.Ready t p

omit [DecidableEq T] in
lemma alive_iff : k.Alive t ↔
    ∃ l, k.states.container t = some l ∧ l ≠ .xTasksWaitingTermination := by
  constructor
  · rintro (⟨l, hl, ht⟩ | ⟨p, ht⟩)
    · refine ⟨l, ht, ?_⟩
      rintro rfl
      exact hl
    · exact ⟨_, ht, nofun⟩
  · rintro ⟨l, ht, hl⟩
    cases l with
    | pxReadyTasksLists p => exact .inr ⟨p, ht⟩
    | xTasksWaitingTermination => exact absurd rfl hl
    | _ =>
      refine .inl ⟨_, ?_, ht⟩
      trivial

instance (k : Scheduler T E) (t : T) : Decidable (k.Alive t) :=
  match ht : k.states.container t with
  | none   => .isFalse fun h => by
    obtain ⟨l, hl, -⟩ := alive_iff.1 h
    rw [ht] at hl
    cases hl
  | some l => decidable_of_iff (l ≠ .xTasksWaitingTermination) <| by
    rw [alive_iff, ht]
    simp

section Exists

variable [DecidableEq E]

/-- What `vTaskDelete` does before it decides who frees the memory of the task. -/
lemma vTaskDelete_eq (hsound : k.StatesSound) (ht : k.Alive t) :
    ∃ l R V top, k.states.container t = some l ∧
      k.states.Changed l ((k.states.rota l).erase t)
        (Function.update k.states.container t none) R ∧
      V.container = Function.update k.events.container t none ∧
      (∀ l, V.items l = (k.events.items l).erase t) ∧ V.key = k.events.key ∧
      (∀ i, top.getLsbD i = true ↔ ∃ u p, p.val = i ∧ u ≠ t ∧ k.Ready u p) ∧
      k.vTaskDelete t =
        if k.xSchedulerRunning = true ∧ k.pxCurrentTCB = some t then do
          let states ← R.insertEnd .xTasksWaitingTermination t
          some { k with
            states
            events := V
            uxTopReadyPriority := top
            uxDeletedTasksWaitingCleanUp := k.uxDeletedTasksWaitingCleanUp + 1 }
        else some (({ k with
          states := R
          events := V
          uxTopReadyPriority := top
          uxCurrentNumberOfTasks := k.uxCurrentNumberOfTasks - 1 } :
            Scheduler T E).prvResetNextTaskUnblockTime) := by
  obtain ⟨l, hl⟩ : ∃ l, k.states.container t = some l := by
    rcases ht with ⟨l, -, hl⟩ | ⟨p, hp⟩
    · exact ⟨l, hl⟩
    · exact ⟨_, hp⟩
  obtain ⟨R, hR, hleft⟩ := removeState_spec hl
  obtain ⟨top, htop⟩ : ∃ top, top =
      if (R.items l).length = 0 ∧ R.items (.pxReadyTasksLists (k.uxPriority t)) = [] then
        portRESET_READY_PRIORITY (k.uxPriority t) k.uxTopReadyPriority
      else k.uxTopReadyPriority := ⟨_, rfl⟩
  obtain ⟨V, hV, hcontainer, hitems, hkey⟩ :=
    removeAnyEvent_spec { k with states := R, uxTopReadyPriority := top } t
  refine ⟨l, R, V, top, hl, hleft, hcontainer, hitems, hkey, ?_, ?_⟩
  · intro i
    by_cases hready : k.Ready t (k.uxPriority t)
    · obtain rfl := Option.some_inj.1 (hl.symm.trans hready)
      have hR' : R.items (.pxReadyTasksLists (k.uxPriority t)) =
          (k.states.items (.pxReadyTasksLists (k.uxPriority t))).erase t := by
        rw [hleft.items, if_pos rfl, Rota.items_erase (k.states.nodup _)]
        rfl
      rw [← hsound.bitmap_erase hready, htop, hR']
      simp only [List.length_eq_zero_iff, and_self]
    · have hnot : ∀ p, ¬ k.Ready t p := fun p hp => hready (hsound.priority t p hp ▸ hp)
      have hne : StateList.pxReadyTasksLists (k.uxPriority t) ≠ l := by
        rintro rfl
        exact hready hl
      have hlt : (k.uxPriority t).val < 32 := (k.uxPriority t).isLt.trans (by decide)
      have hbits : top.getLsbD i = true ↔ k.uxTopReadyPriority.getLsbD i = true := by
        have hsame : R.items (.pxReadyTasksLists (k.uxPriority t)) =
            k.states.items (.pxReadyTasksLists (k.uxPriority t)) := by
          rw [hleft.items, if_neg hne]
        rw [htop, hsame]
        split_ifs with hnil
        · -- the bit that is cleared was not set
          rw [getLsbD_portRESET hlt, Bool.and_eq_true, Bool.not_eq_true', decide_eq_false_iff_not]
          refine and_iff_left_of_imp fun hi heq => ?_
          obtain ⟨u, p, hp, hu⟩ := (hsound.bitmap i).1 hi
          obtain rfl : p = k.uxPriority t := Fin.ext (hp.trans heq.symm)
          have hmem := Rotas.mem_iff.2 hu
          rw [hnil.2] at hmem
          exact List.not_mem_nil hmem
        · exact Iff.rfl
      rw [hbits, hsound.bitmap]
      refine exists_congr fun u => exists_congr fun p => and_congr_right fun _ => ?_
      exact ⟨fun hu => ⟨fun heq => hnot p (heq ▸ hu), hu⟩, And.right⟩
  · have hreset : (if (R.items l).length = 0 then
        ({ k with states := R } : Scheduler T E).taskRESET_READY_PRIORITY (k.uxPriority t)
        else { k with states := R }) = { k with states := R, uxTopReadyPriority := top } := by
      rw [htop, taskRESET_READY_PRIORITY]
      by_cases h1 : (R.items l).length = 0
      · by_cases h2 : R.items (.pxReadyTasksLists (k.uxPriority t)) = []
        · rw [if_pos h1, if_pos h2, if_pos ⟨h1, h2⟩]
        · rw [if_pos h1, if_neg h2, if_neg fun hand => h2 hand.2]
      · rw [if_neg h1, if_neg fun hand => h1 hand.1]
    rw [vTaskDelete, hR, Option.bind_eq_bind, Option.bind_some]
    dsimp only
    rw [hreset, hV, Option.bind_eq_bind, Option.bind_some]

omit [DecidableEq T] [DecidableEq E] in
lemma Alive.container (ht : k.Alive t) :
    k.states.container t ≠ none ∧ k.states.container t ≠ some .xTasksWaitingTermination := by
  rcases ht with ⟨l, hl, ht⟩ | ⟨p, ht⟩
  · rw [ht]
    refine ⟨Option.some_ne_none _, fun heq => ?_⟩
    rw [Option.some_inj.1 heq] at hl
    exact hl
  · rw [ht]
    exact ⟨Option.some_ne_none _, by simp⟩

/-- A task that deletes itself is left to the idle task. -/
lemma vTaskDelete_self (hsound : k.Sound) (htimely : k.Timely) (ht : k.Alive t)
    (hrunning : k.xSchedulerRunning = true) (hc : k.pxCurrentTCB = some t) :
    ∃ k', k.vTaskDelete t = some k' ∧ Leaves k t k' ∧
      k'.states.container t = some .xTasksWaitingTermination ∧
      k'.uxDeletedTasksWaitingCleanUp = (k'.states.items .xTasksWaitingTermination).length ∧
      k'.uxCurrentNumberOfTasks = k.uxCurrentNumberOfTasks := by
  obtain ⟨l, R, V, top, hl, hleft, hcontainer, hitems, hkey, hbits, hrun⟩ :=
    vTaskDelete_eq hsound.states ht
  have hnone : R.container t = none := by rw [hleft.container, Function.update_self]
  obtain ⟨S, hS, hjoined⟩ := Rotas.exists_insertEnd hnone .xTasksWaitingTermination
  have hmoved := hleft.moved hl rfl rfl hjoined
  have hne : StateList.xTasksWaitingTermination ≠ l := by
    rintro rfl
    exact ht.container.2 hl
  rw [if_pos ⟨hrunning, hc⟩, hS, Option.bind_eq_bind, Option.bind_some] at hrun
  refine ⟨_, hrun, ?_, ?_, ?_, rfl⟩
  · constructor
    case came => exact ht.container.1
    case container_of_ne =>
      intro u hu
      rw [hmoved.container, Function.update_of_ne hu]
    case gone => exact .inr (by rw [hmoved.container, Function.update_self])
    case rota =>
      intro l' hl'
      rw [hmoved.rota, if_neg hl']
    case key => exact hjoined.key.trans hleft.key
    case event_container => exact hcontainer
    case event_items => exact hitems
    case event_key => exact hkey
    case bitmap => exact hbits
    case unblock => exact fun u _ hu => htimely.unblock u hu
    case rest => rfl
  · rw [hmoved.container, Function.update_self]
  · dsimp only
    rw [hmoved.items_self, Rota.length_insertEnd, hleft.rota, Function.update_of_ne hne,
      hsound.states.deleted]
    rfl

/-- Another task that is deleted is in no list any more. -/
lemma vTaskDelete_other (hsound : k.Sound) (ht : k.Alive t) (hc : k.pxCurrentTCB ≠ some t) :
    ∃ k', k.vTaskDelete t = some k' ∧ Leaves k t k' ∧ k'.states.container t = none ∧
      k'.uxDeletedTasksWaitingCleanUp = (k'.states.items .xTasksWaitingTermination).length ∧
      k'.uxCurrentNumberOfTasks = k.uxCurrentNumberOfTasks - 1 := by
  obtain ⟨l, R, V, top, hl, hleft, hcontainer, hitems, hkey, hbits, hrun⟩ :=
    vTaskDelete_eq hsound.states ht
  have hne : StateList.xTasksWaitingTermination ≠ l := by
    rintro rfl
    exact ht.container.2 hl
  have hRitems : ∀ l', R.items l' = (k.states.items l').erase t := by
    intro l'
    rw [hleft.items]
    split_ifs with hl'
    · rw [hl', Rota.items_erase (k.states.nodup l)]
      rfl
    · have hnot : t ∉ k.states.items l' := by
        rw [Rotas.mem_iff, hl]
        exact fun heq => hl' (Option.some_inj.1 heq).symm
      rw [List.erase_of_not_mem hnot]
  have hsorted := hsound.states.delayed_sorted.sublist
    (List.erase_sublist (a := t) (l := k.states.items k.pxDelayedTaskList))
  rw [← hRitems, ← hleft.key] at hsorted
  obtain ⟨v, hv, hle⟩ := prvResetNextTaskUnblockTime_spec (k := { k with
    states := R
    events := V
    uxTopReadyPriority := top
    uxCurrentNumberOfTasks := k.uxCurrentNumberOfTasks - 1 }) hsorted
  rw [if_neg fun hand => hc hand.2, hv] at hrun
  refine ⟨_, hrun, ?_, ?_, ?_, rfl⟩
  · constructor
    case came => exact ht.container.1
    case container_of_ne =>
      intro u hu
      rw [hleft.container, Function.update_of_ne hu]
    case gone => exact .inl (by rw [hleft.container, Function.update_self])
    case rota =>
      intro l' _
      rw [hleft.rota, Function.update_apply]
      split_ifs with hl'
      · rw [hl']
      · rw [Rotas.erase_of_container hl hl']
    case key => exact hleft.key
    case event_container => exact hcontainer
    case event_items => exact hitems
    case event_key => exact hkey
    case bitmap => exact hbits
    case unblock =>
      intro u hu hcontainer
      rw [← hleft.key]
      refine hle u ?_
      dsimp only
      rw [hleft.container, Function.update_of_ne hu]
      exact hcontainer
    case rest => rfl
  · rw [hleft.container, Function.update_self]
  · dsimp only
    rw [hsound.states.deleted, hleft.items, if_neg hne]

end Exists

variable (h : Leaves k t k')

include h

lemma Leaves.priority : k'.uxPriority = k.uxPriority := by rw [h.rest]

lemma Leaves.container_ready (p : Fin configMAX_PRIORITIES) : ¬ k'.Ready t p := by
  rw [Ready]
  rcases h.gone with hnone | hterm
  · rw [hnone]
    exact (Option.some_ne_none _).symm
  · rw [hterm]
    simp

lemma Leaves.ready_iff {u : T} {p : Fin configMAX_PRIORITIES} :
    k'.Ready u p ↔ u ≠ t ∧ k.Ready u p := by
  by_cases hu : u = t
  · rw [hu]
    exact ⟨fun hr => absurd hr (h.container_ready p), fun hr => absurd rfl hr.1⟩
  · rw [Ready, h.container_of_ne u hu]
    exact ⟨fun hr => ⟨hu, hr⟩, And.right⟩

lemma Leaves.stays {u : T} {l : StateList} (hl : l.Blocked)
    (hu : k'.states.container u = some l) : u ≠ t ∧ k.states.container u = some l := by
  have hne : u ≠ t := by
    rintro rfl
    rcases h.gone with hnone | hterm
    · rw [hnone] at hu
      cases hu
    · rw [hterm, Option.some_inj] at hu
      rw [← hu] at hl
      exact hl
  exact ⟨hne, (h.container_of_ne u hne).symm.trans hu⟩

lemma Leaves.sound (hsound : k.Sound)
    (hdeleted : k'.uxDeletedTasksWaitingCleanUp =
      (k'.states.items .xTasksWaitingTermination).length)
    (hnumber : ∃ F : Finset T, (∀ u, u ∈ F ↔ k'.states.container u ≠ none) ∧
      k'.uxCurrentNumberOfTasks = F.card) : k'.Sound := by
  have hdelayed : k'.pxDelayedTaskList = k.pxDelayedTaskList := by rw [h.rest]
  have hoverflow : k'.pxOverflowDelayedTaskList = k.pxOverflowDelayedTaskList := by rw [h.rest]
  have hpriority := h.priority
  have hitems : ∀ l : StateList, l.Blocked → k'.states.items l = (k.states.items l).erase t := by
    intro l hl
    have hne : l ≠ .xTasksWaitingTermination := by
      rintro rfl
      exact hl
    rw [Rotas.items, h.rota l hne, Rota.items_erase (k.states.nodup l)]
    rfl
  have hstates := hsound.states
  refine ⟨?_, ?_⟩
  · constructor
    case delayedLists =>
      rw [hdelayed, hoverflow]
      exact hstates.delayedLists
    case bitmap =>
      simp only [h.ready_iff]
      exact h.bitmap
    case priority =>
      intro u p hu
      rw [hpriority]
      exact hstates.priority u p (h.ready_iff.1 hu).2
    case delayed_sorted =>
      rw [hdelayed, hitems _ hstates.delayed_blocked.1, h.key]
      exact hstates.delayed_sorted.sublist List.erase_sublist
    case overflow_sorted =>
      rw [hoverflow, hitems _ hstates.delayed_blocked.2, h.key]
      exact hstates.overflow_sorted.sublist List.erase_sublist
    case deleted => exact hdeleted
    case number => exact hnumber
  · constructor
    case waits =>
      intro u hu
      by_cases hut : u = t
      · rw [hut, h.event_container, Function.update_self] at hu
        exact absurd rfl hu
      · rw [h.event_container, Function.update_of_ne hut] at hu
        obtain ⟨l, hl, hul⟩ := hsound.events.waits u hu
        exact ⟨l, hl, (h.container_of_ne u hut).trans hul⟩
    case key =>
      intro u hu
      rw [h.event_key, hpriority]
      by_cases hut : u = t
      · exact hsound.events.key u (hut ▸ h.came)
      · rw [h.container_of_ne u hut] at hu
        exact hsound.events.key u hu
    case sorted =>
      intro e
      rw [h.event_items, h.event_key]
      exact (hsound.events.sorted e).sublist List.erase_sublist

lemma Leaves.timely (hsound : k.StatesSound) (htimely : k.Timely) : k'.Timely := by
  have hdelayed : k'.pxDelayedTaskList = k.pxDelayedTaskList := by rw [h.rest]
  have hoverflow : k'.pxOverflowDelayedTaskList = k.pxOverflowDelayedTaskList := by rw [h.rest]
  have hcount : k'.xTickCount = k.xTickCount := by rw [h.rest]
  constructor
  case delayed =>
    intro u hu
    rw [hdelayed] at hu
    rw [hcount, h.key]
    exact htimely.delayed u (h.stays hsound.delayed_blocked.1 hu).2
  case overflow =>
    intro u hu
    rw [hoverflow] at hu
    rw [hcount, h.key]
    exact htimely.overflow u (h.stays hsound.delayed_blocked.2 hu).2
  case unblock =>
    intro u hu
    rw [hdelayed] at hu
    rw [h.key]
    obtain ⟨hne, hul⟩ := h.stays hsound.delayed_blocked.1 hu
    exact h.unblock u hne hul

/-- A task that deleted itself is still counted. -/
lemma Leaves.sound_self (hsound : k.Sound)
    (hgone : k'.states.container t = some .xTasksWaitingTermination)
    (hdeleted : k'.uxDeletedTasksWaitingCleanUp =
      (k'.states.items .xTasksWaitingTermination).length)
    (hnumber : k'.uxCurrentNumberOfTasks = k.uxCurrentNumberOfTasks) : k'.Sound := by
  obtain ⟨F, hF, hcard⟩ := hsound.states.number
  refine h.sound hsound hdeleted ⟨F, fun u => (hF u).trans ?_, hnumber.trans hcard⟩
  by_cases hu : u = t
  · rw [hu, hgone]
    exact ⟨fun _ => Option.some_ne_none _, fun _ => h.came⟩
  · rw [h.container_of_ne u hu]

lemma Leaves.sound_other (hsound : k.Sound) (hgone : k'.states.container t = none)
    (hdeleted : k'.uxDeletedTasksWaitingCleanUp =
      (k'.states.items .xTasksWaitingTermination).length)
    (hnumber : k'.uxCurrentNumberOfTasks = k.uxCurrentNumberOfTasks - 1) : k'.Sound := by
  obtain ⟨F, hF, hcard⟩ := hsound.states.number
  refine h.sound hsound hdeleted ⟨F.erase t, fun u => ?_, ?_⟩
  · rw [Finset.mem_erase, hF]
    by_cases hu : u = t
    · rw [hu, hgone]
      exact ⟨fun hand => absurd rfl hand.1, fun hne => absurd rfl hne⟩
    · rw [h.container_of_ne u hu]
      exact ⟨And.right, fun hne => ⟨hu, hne⟩⟩
  · rw [hnumber, hcard, Finset.card_erase_of_mem ((hF t).2 h.came)]

omit h

/-! ### The idle task -/

/-- A round in which the idle task frees the task that was deleted first, if there is one. -/
lemma prvCheckTasksWaitingTermination_spec [DecidableEq E] (hsound : k.Sound)
    (htimely : k.Timely) :
    ∃ k', k.prvCheckTasksWaitingTermination = some k' ∧ (k' = k ∨
      ∃ t, k.states.container t = some .xTasksWaitingTermination ∧ Leaves k t k' ∧
        k'.states.container t = none ∧ k'.Sound) := by
  rw [prvCheckTasksWaitingTermination]
  split_ifs with hpos
  · have hne : k.states.items .xTasksWaitingTermination ≠ [] := by
      rw [hsound.states.deleted] at hpos
      exact List.length_pos_iff.1 hpos
    obtain ⟨t, l, hitems⟩ := List.exists_cons_of_ne_nil hne
    have hhead : k.states.head .xTasksWaitingTermination = some t := by
      rw [Rotas.head, hitems]
      rfl
    have ht := Rotas.mem_iff.1 (List.mem_of_mem_head? hhead)
    obtain ⟨R, hR, hleft⟩ := removeState_spec ht
    have hnone : R.container t = none := by rw [hleft.container, Function.update_self]
    have hready : ∀ p, ¬ k.Ready t p := fun p hp => by
      have heq := hp.symm.trans ht
      simp at heq
    have hevent : k.events.container t = none := by
      by_contra hevent
      exact (hsound.events.waits t hevent).not_deleted ht
    have hleaves : Leaves k t { k with
        states := R
        uxCurrentNumberOfTasks := k.uxCurrentNumberOfTasks - 1
        uxDeletedTasksWaitingCleanUp := k.uxDeletedTasksWaitingCleanUp - 1 } := by
      constructor
      case came =>
        rw [ht]
        exact Option.some_ne_none _
      case container_of_ne =>
        intro u hu
        rw [hleft.container, Function.update_of_ne hu]
      case gone => exact .inl hnone
      case rota =>
        intro l' hl'
        rw [hleft.rota, Function.update_of_ne hl', Rotas.erase_of_container ht hl']
      case key => exact hleft.key
      case event_container => rw [← hevent, Function.update_eq_self]
      case event_items =>
        intro l'
        rw [List.erase_of_not_mem (Rotas.notMem_of_container hevent l')]
      case event_key => rfl
      case bitmap =>
        intro i
        rw [hsound.states.bitmap]
        refine exists_congr fun u => exists_congr fun p => and_congr_right fun _ => ?_
        exact ⟨fun hu => ⟨fun heq => hready p (heq ▸ hu), hu⟩, And.right⟩
      case unblock => exact fun u _ hu => htimely.unblock u hu
      case rest => rfl
    refine ⟨_, ?_, .inr ⟨t, ht, hleaves, hnone, hleaves.sound_other hsound hnone ?_ rfl⟩⟩
    · rw [hhead, Option.bind_eq_bind, Option.bind_some, hR, Option.bind_eq_bind, Option.bind_some]
    · dsimp only
      rw [hsound.states.deleted, hleft.items, if_pos rfl, Rota.items_erase (k.states.nodup _)]
      exact (List.length_erase_of_mem (Rotas.mem_iff.2 ht)).symm
  · exact ⟨k, rfl, .inl rfl⟩

end Scheduler

end RT1064.Kernel
