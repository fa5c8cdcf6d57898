import RT1064.Kernel.TasksEvents

/-!
# Context switches and new tasks

A context switch takes the next task of the highest priority that has a ready one. A new task is
ready at once.
-/

namespace RT1064.Kernel

open Core

namespace Scheduler

variable {T E : Type} {k k' : Scheduler T E} {t c : T}

/-! ### Context switches -/

/-- A task of the highest priority that is ready was selected, the next one in its list. -/
structure Switched (k k' : Scheduler T E) (c' : T) (p : Fin configMAX_PRIORITIES) : Prop where
  next : ∃ r, (k.states.rota (.pxReadyTasksLists p)).next = some (c', r) ∧
    k.states.Changed (.pxReadyTasksLists p) r k.states.container k'.states
  ready : k.Ready c' p
  highest : ∀ t q, k.Ready t q → q ≤ p
  rest : k' = { k with
    states := k'.states
    pxCurrentTCB := some c'
    xYieldPending := false }

lemma vTaskSwitchContext_spec (h : k.StatesSound) (hs : k.uxSchedulerSuspended = 0)
    (hready : ∃ t p, k.Ready t p) :
    ∃ k' c' p, k.vTaskSwitchContext = some k' ∧ Switched k k' c' p := by
  have hbit : ∃ i, k.uxTopReadyPriority.getLsbD i = true := by
    obtain ⟨t, p, ht⟩ := hready
    exact ⟨p, (h.bitmap p).2 ⟨t, p, rfl, ht⟩⟩
  have hne : k.uxTopReadyPriority ≠ 0 := by
    rintro heq
    obtain ⟨i, hi⟩ := hbit
    rw [heq] at hi
    simp at hi
  obtain ⟨htop, hle⟩ := portGET_HIGHEST_PRIORITY_spec hne
  obtain ⟨t, p, hp, ht⟩ := (h.bitmap _).1 htop
  have hnonempty : k.states.items (.pxReadyTasksLists p) ≠ [] :=
    List.ne_nil_of_mem (Rotas.mem_iff.2 ht)
  obtain ⟨c', r, S, hS, hr, hchanged⟩ := Rotas.exists_next hnonempty
  have hmem : c' ∈ k.states.items (.pxReadyTasksLists p) := by
    obtain ⟨l, hl, -⟩ := Rota.next_spec hr
    have hin : c' ∈ (k.states.rota (.pxReadyTasksLists p)).order := hl ▸ List.mem_cons_self
    exact (Rota.order_perm _).mem_iff.1 hin
  refine ⟨{ k with states := S, pxCurrentTCB := some c', xYieldPending := false }, c', p, ?_,
    ⟨r, hr, hchanged⟩, Rotas.mem_iff.1 hmem, fun u q hu => ?_, rfl⟩
  · have hlt : (portGET_HIGHEST_PRIORITY k.uxTopReadyPriority).toNat < configMAX_PRIORITIES :=
      hp ▸ p.isLt
    have heq : (⟨_, hlt⟩ : Fin configMAX_PRIORITIES) = p := Fin.ext hp.symm
    rw [vTaskSwitchContext, if_neg (not_not.2 hs)]
    dsimp only
    rw [dif_pos hlt, heq, hS]
    rfl
  · have hbits := hle q.val ((h.bitmap q.val).2 ⟨u, q, rfl, hu⟩)
    rw [← hp] at hbits
    exact hbits

section Switched

variable {p : Fin configMAX_PRIORITIES} (h : Switched k k' c p)

include h

lemma Switched.container : k'.states.container = k.states.container := by
  obtain ⟨r, -, hchanged⟩ := h.next
  exact hchanged.container

lemma Switched.key : k'.states.key = k.states.key := by
  obtain ⟨r, -, hchanged⟩ := h.next
  exact hchanged.key

lemma Switched.items (l : StateList) : k'.states.items l = k.states.items l := by
  obtain ⟨r, hr, hchanged⟩ := h.next
  rw [hchanged.items]
  split_ifs with hl
  · rw [hl]
    exact Rota.items_of_next hr
  · rfl

lemma Switched.sound (hsound : k.Sound) : k'.Sound := by
  have hevents : k'.events = k.events := by rw [h.rest]
  have hpriority : k'.uxPriority = k.uxPriority := by rw [h.rest]
  have hdelayed : k'.pxDelayedTaskList = k.pxDelayedTaskList := by rw [h.rest]
  have hoverflow : k'.pxOverflowDelayedTaskList = k.pxOverflowDelayedTaskList := by rw [h.rest]
  have htop : k'.uxTopReadyPriority = k.uxTopReadyPriority := by rw [h.rest]
  have hdeleted : k'.uxDeletedTasksWaitingCleanUp = k.uxDeletedTasksWaitingCleanUp := by
    rw [h.rest]
  have hnumber : k'.uxCurrentNumberOfTasks = k.uxCurrentNumberOfTasks := by rw [h.rest]
  obtain ⟨⟨h1, h2, h3, h4, h5, h6, h7⟩, ⟨h8, h9, h10⟩⟩ := hsound
  simp only [Ready, Waits] at *
  refine ⟨⟨?_, ?_, ?_, ?_, ?_, ?_, ?_⟩, ⟨?_, ?_, ?_⟩⟩
  all_goals simpa only [Ready, Waits, h.container, h.key, h.items, hevents, hpriority, hdelayed,
    hoverflow, htop, hdeleted, hnumber]

lemma Switched.timely (htimely : k.Timely) : k'.Timely := by
  have hdelayed : k'.pxDelayedTaskList = k.pxDelayedTaskList := by rw [h.rest]
  have hoverflow : k'.pxOverflowDelayedTaskList = k.pxOverflowDelayedTaskList := by rw [h.rest]
  have hcount : k'.xTickCount = k.xTickCount := by rw [h.rest]
  have hunblock : k'.xNextTaskUnblockTime = k.xNextTaskUnblockTime := by rw [h.rest]
  obtain ⟨h1, h2, h3⟩ := htimely
  refine ⟨?_, ?_, ?_⟩
  all_goals simpa only [h.container, h.key, hdelayed, hoverflow, hcount, hunblock]

end Switched

/-! ### New tasks -/

section Create

variable [DecidableEq T]

/-- The task that is the current one after `t` was created. -/
def currentAfter (k : Scheduler T E) (t : T) (p : Fin configMAX_PRIORITIES) : Option T :=
  match k.pxCurrentTCB with
  | none   => some t
  | some c => if k.xSchedulerRunning = false ∧ k.uxPriority c ≤ p then some t else some c

/-- The task `t` is ready, and there is one more. -/
structure Creates (k : Scheduler T E) (t : T) (p : Fin configMAX_PRIORITIES)
    (k' : Scheduler T E) : Prop where
  states : k.states.Changed (.pxReadyTasksLists p)
    ((k.states.rota (.pxReadyTasksLists p)).insertEnd t)
    (Function.update k.states.container t (some (.pxReadyTasksLists p))) k'.states
  event_rota : k'.events.rota = k.events.rota
  event_container : k'.events.container = k.events.container
  event_key : k'.events.key = Function.update k.events.key t
    (BitVec.ofNat 32 configMAX_PRIORITIES - BitVec.ofNat 32 p)
  rest : k' = { k with
    states := k'.states
    events := k'.events
    uxPriority := Function.update k.uxPriority t p
    uxTopReadyPriority := portRECORD_READY_PRIORITY p k.uxTopReadyPriority
    pxCurrentTCB := k.currentAfter t p
    uxCurrentNumberOfTasks := k.uxCurrentNumberOfTasks + 1 }

variable {p : Fin configMAX_PRIORITIES}

lemma prvAddNewTaskToReadyList_spec [DecidableEq E] (ht : k.states.container t = none)
    (htc : k.pxCurrentTCB ≠ some t)
    (hfirst : k.pxCurrentTCB = none → k.pxDelayedTaskList = .xDelayedTaskList1 ∧
      k.pxOverflowDelayedTaskList = .xDelayedTaskList2) :
    ∃ k', (k.prvInitialiseNewTask t p).prvAddNewTaskToReadyList t = some k' ∧
      Creates k t p k' := by
  obtain ⟨S, hS, hjoined⟩ := prvAddTaskToReadyList_spec (t := t) (k := { k with
    events := k.events.setKey t (BitVec.ofNat 32 configMAX_PRIORITIES - BitVec.ofNat 32 p)
    uxPriority := Function.update k.uxPriority t p
    pxCurrentTCB := k.currentAfter t p
    uxCurrentNumberOfTasks := k.uxCurrentNumberOfTasks + 1 }) ht
  dsimp only at hS hjoined
  rw [Function.update_self] at hS hjoined
  refine ⟨{ k with
    states := S
    events := k.events.setKey t (BitVec.ofNat 32 configMAX_PRIORITIES - BitVec.ofNat 32 p)
    uxPriority := Function.update k.uxPriority t p
    uxTopReadyPriority := portRECORD_READY_PRIORITY p k.uxTopReadyPriority
    pxCurrentTCB := k.currentAfter t p
    uxCurrentNumberOfTasks := k.uxCurrentNumberOfTasks + 1 }, ?_, ⟨hjoined, rfl, rfl, rfl, rfl⟩⟩
  rw [← hS, prvAddNewTaskToReadyList, prvInitialiseNewTask]
  dsimp only
  congr 1
  cases hc : k.pxCurrentTCB with
  | none =>
    obtain ⟨h1, h2⟩ := hfirst hc
    have hcurrent : k.currentAfter t p = some t := by rw [currentAfter, hc]
    rw [hcurrent, prvInitialiseTaskLists, ← h1, ← h2]
    dsimp only
    split_ifs <;> rfl
  | some c =>
    have hne : c ≠ t := fun heq => htc (heq ▸ hc)
    simp only [Function.update_self, Function.update_of_ne hne, currentAfter, hc]
    split_ifs <;> rfl

section

variable (h : Creates k t p k')

include h

lemma Creates.ready_iff {u : T} {q : Fin configMAX_PRIORITIES}
    (ht : k.states.container t = none) : k'.Ready u q ↔ u = t ∧ q = p ∨ k.Ready u q := by
  by_cases hu : u = t
  · rw [hu, Ready, h.states.container, Function.update_self, Ready, ht]
    simp [eq_comm]
  · rw [Ready, h.states.container, Function.update_of_ne hu]
    simp [hu, Ready]

lemma Creates.priority : k'.uxPriority = Function.update k.uxPriority t p := by rw [h.rest]

lemma Creates.waits {u : T} (hu : k.Waits u) (ht : k.states.container t = none) :
    k'.Waits u := by
  obtain ⟨l, hl, hul⟩ := hu
  have hne : u ≠ t := by
    rintro rfl
    rw [ht] at hul
    cases hul
  exact ⟨l, hl, by rw [h.states.container, Function.update_of_ne hne, hul]⟩

lemma Creates.items {l : StateList} (hl : l ≠ .pxReadyTasksLists p) :
    k'.states.items l = k.states.items l := by
  rw [h.states.items, if_neg hl]

lemma Creates.statesSound (hstates : k.StatesSound) (ht : k.states.container t = none) :
    k'.StatesSound := by
  have hdelayed : k'.pxDelayedTaskList = k.pxDelayedTaskList := by rw [h.rest]
  have hoverflow : k'.pxOverflowDelayedTaskList = k.pxOverflowDelayedTaskList := by rw [h.rest]
  constructor
  case delayedLists =>
    rw [hdelayed, hoverflow]
    exact hstates.delayedLists
  case bitmap =>
    intro i
    have htop : k'.uxTopReadyPriority = portRECORD_READY_PRIORITY p k.uxTopReadyPriority := by
      rw [h.rest]
    rw [htop, getLsbD_portRECORD (p.isLt.trans (by decide)), Bool.or_eq_true,
      decide_eq_true_iff, hstates.bitmap]
    simp only [h.ready_iff ht]
    constructor
    · rintro (⟨u, q, hq, hu⟩ | hp)
      · exact ⟨u, q, hq, .inr hu⟩
      · exact ⟨t, p, hp, .inl ⟨rfl, rfl⟩⟩
    · rintro ⟨u, q, hq, ⟨-, rfl⟩ | hu⟩
      · exact .inr hq
      · exact .inl ⟨u, q, hq, hu⟩
  case priority =>
    intro u q hu
    rw [h.priority]
    rcases (h.ready_iff ht).1 hu with ⟨rfl, rfl⟩ | hu
    · exact Function.update_self ..
    · have hne : u ≠ t := by
        rintro rfl
        rw [Ready, ht] at hu
        cases hu
      rw [Function.update_of_ne hne]
      exact hstates.priority u q hu
  case delayed_sorted =>
    rw [hdelayed, h.items (hstates.delayed_ne_ready p), h.states.key]
    exact hstates.delayed_sorted
  case overflow_sorted =>
    rw [hoverflow, h.items (hstates.overflow_ne_ready p), h.states.key]
    exact hstates.overflow_sorted
  case deleted =>
    have hdeleted : k'.uxDeletedTasksWaitingCleanUp = k.uxDeletedTasksWaitingCleanUp := by
      rw [h.rest]
    rw [hdeleted, h.items (by simp), hstates.deleted]
  case number =>
    have hnumber : k'.uxCurrentNumberOfTasks = k.uxCurrentNumberOfTasks + 1 := by rw [h.rest]
    obtain ⟨F, hF, hcard⟩ := hstates.number
    have hnot : t ∉ F := fun hmem => (hF t).1 hmem ht
    refine ⟨insert t F, fun u => ?_, ?_⟩
    · rw [Finset.mem_insert, h.states.container, hF]
      by_cases hu : u = t
      · simp [hu]
      · simp [hu]
    · rw [hnumber, hcard, Finset.card_insert_of_notMem hnot]

lemma Creates.eventsSound (hsound : k.EventsSound) (ht : k.states.container t = none) :
    k'.EventsSound := by
  constructor
  case waits =>
    intro u hu
    rw [h.event_container] at hu
    exact h.waits (hsound.waits u hu) ht
  case key =>
    intro u hu
    rw [h.event_key, h.priority]
    by_cases hut : u = t
    · rw [hut, Function.update_self, Function.update_self]
    · rw [h.states.container, Function.update_of_ne hut] at hu
      rw [Function.update_of_ne hut, Function.update_of_ne hut]
      exact hsound.key u hu
  case sorted =>
    intro e
    have hitems : k'.events.items (.pxEventList e) = k.events.items (.pxEventList e) := by
      rw [Rotas.items, h.event_rota]
      rfl
    rw [hitems]
    refine (hsound.sorted e).imp_of_mem fun {u v} hu hv hle => ?_
    have hne : ∀ w ∈ k.events.items (.pxEventList e), w ≠ t := by
      rintro w hw rfl
      exact (hsound.waits_of_mem hw).present ht
    rw [h.event_key, Function.update_of_ne (hne u hu), Function.update_of_ne (hne v hv)]
    exact hle

lemma Creates.sound (hsound : k.Sound) (ht : k.states.container t = none) : k'.Sound :=
  ⟨h.statesSound hsound.states ht, h.eventsSound hsound.events ht⟩

lemma Creates.timely (hsound : k.StatesSound) (htimely : k.Timely) : k'.Timely := by
  have hdelayed : k'.pxDelayedTaskList = k.pxDelayedTaskList := by rw [h.rest]
  have hoverflow : k'.pxOverflowDelayedTaskList = k.pxOverflowDelayedTaskList := by rw [h.rest]
  have hcount : k'.xTickCount = k.xTickCount := by rw [h.rest]
  have hunblock : k'.xNextTaskUnblockTime = k.xNextTaskUnblockTime := by rw [h.rest]
  have hstay : ∀ l : StateList, l.Blocked → ∀ u, k'.states.container u = some l →
      k.states.container u = some l := by
    intro l hl u hu
    rw [h.states.container] at hu
    by_cases hut : u = t
    · rw [hut, Function.update_self, Option.some_inj] at hu
      rw [← hu] at hl
      exact hl.elim
    · rwa [Function.update_of_ne hut] at hu
  constructor
  case delayed =>
    intro u hu
    rw [hdelayed] at hu
    rw [hcount, h.states.key]
    exact htimely.delayed u (hstay _ hsound.delayed_blocked.1 u hu)
  case overflow =>
    intro u hu
    rw [hoverflow] at hu
    rw [hcount, h.states.key]
    exact htimely.overflow u (hstay _ hsound.delayed_blocked.2 u hu)
  case unblock =>
    intro u hu
    rw [hdelayed] at hu
    rw [hunblock, h.states.key]
    exact htimely.unblock u (hstay _ hsound.delayed_blocked.1 u hu)

end

end Create

/-- A switch is asked for if the new task has a higher priority. -/
lemma taskYIELD_ANY_CORE_eq (hc : k.pxCurrentTCB = some c) (t : T) :
    k.taskYIELD_ANY_CORE_IF_USING_PREEMPTION t =
      some { k with pendSV := k.pendSV || decide (k.uxPriority c < k.uxPriority t) } := by
  have hrun : k.taskYIELD_ANY_CORE_IF_USING_PREEMPTION t =
      if k.uxPriority c < k.uxPriority t then some k.portYIELD else some k := by
    rw [taskYIELD_ANY_CORE_IF_USING_PREEMPTION, hc]
    rfl
  rw [hrun]
  split_ifs with hlt
  · simp [hlt, portYIELD]
  · simp [hlt]

end Scheduler

end RT1064.Kernel
