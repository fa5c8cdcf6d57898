import RT1064.Kernel.TasksBlock

/-!
# Events

A task waits for an event in the list of the event, which is sorted by priority. The event wakes
the first task of the list, or holds it pending while the scheduler is suspended.
-/

namespace RT1064.Kernel

open Core

namespace Scheduler

variable {T E : Type} {k k' : Scheduler T E} {t c : T} {n : TickType_t} {b : Bool} {e : E}

lemma EventsSound.not_waiting (h : k.EventsSound) {p : Fin configMAX_PRIORITIES}
    (ht : k.Ready t p) : k.events.container t = none := by
  by_contra hne
  exact (h.waits t hne).not_ready p ht

lemma StatesSound.withEvents (h : k.StatesSound) (V : Rotas (EventList E) T TickType_t) :
    ({ k with events := V } : Scheduler T E).StatesSound :=
  ⟨h.delayedLists, h.bitmap, h.priority, h.delayed_sorted, h.overflow_sorted, h.deleted, h.number⟩

/-! ### Waiting -/

variable [DecidableEq T]

/-- A task that waits for a time only keeps the event lists as they are. -/
lemma Blocks.sound (h : Blocks k c n b k') (hsound : k.Sound)
    (hready : k.Ready c (k.uxPriority c)) : k'.Sound := by
  have hevents : k'.events = k.events := by rw [h.rest]
  refine ⟨h.statesSound hsound.states hready, ?_, ?_, ?_⟩
  · intro u hu
    rw [hevents] at hu
    obtain ⟨l, hl, hul⟩ := hsound.events.waits u hu
    have hne : u ≠ c := by
      rintro rfl
      exact hu (hsound.events.not_waiting hready)
    exact ⟨l, hl, (h.container_of_ne hne).trans hul⟩
  · intro u hu
    rw [hevents, h.priority]
    by_cases huc : u = c
    · rw [huc]
      refine hsound.events.key c ?_
      rw [hready]
      exact Option.some_ne_none _
    · rw [h.container_of_ne huc] at hu
      exact hsound.events.key u hu
  · intro e
    rw [hevents]
    exact hsound.events.sorted e

variable [DecidableEq E]

/-- The running task waits in the list of the event and in a list for its time. -/
lemma vTaskPlaceOnEventList_spec (hsound : k.Sound) (hc : k.pxCurrentTCB = some c)
    (hready : k.Ready c (k.uxPriority c)) (e : E) (n : TickType_t) :
    ∃ V k', k.vTaskPlaceOnEventList e n = some k' ∧ Blocks { k with events := V } c n true k' ∧
      k.events.Changed (.pxEventList e) ((k.events.rota (.pxEventList e)).insertAfter
          (fun j => k.events.key j ≤ k.events.key c) c)
        (Function.update k.events.container c (some (.pxEventList e))) V ∧ k'.Sound := by
  obtain ⟨V, hV, hchanged⟩ :=
    Rotas.exists_insert (hsound.events.not_waiting hready) (.pxEventList e)
  obtain ⟨k', hk', hblocks⟩ := prvAddCurrentTaskToDelayedList_spec
    (k := { k with events := V }) (hsound.states.withEvents V) hc hready n true
  refine ⟨V, k', ?_, hblocks, hchanged, hblocks.statesSound (hsound.states.withEvents V) hready, ?_⟩
  · rw [vTaskPlaceOnEventList, hc, Option.bind_eq_bind, Option.bind_some, hV, Option.bind_eq_bind,
      Option.bind_some, ← hc]
    exact hk'
  have hevents : k'.events = V := by rw [hblocks.rest]
  have hpriority : k'.uxPriority = k.uxPriority := hblocks.priority
  constructor
  case waits =>
    intro u hu
    by_cases huc : u = c
    · rw [huc]
      exact hblocks.waits (hsound.states.withEvents V)
    · rw [hevents, hchanged.container, Function.update_of_ne huc] at hu
      obtain ⟨l, hl, hul⟩ := hsound.events.waits u hu
      exact ⟨l, hl, (hblocks.container_of_ne huc).trans hul⟩
  case key =>
    intro u hu
    rw [hevents, hchanged.key, hpriority]
    by_cases huc : u = c
    · rw [huc]
      refine hsound.events.key c ?_
      rw [hready]
      exact Option.some_ne_none _
    · rw [hblocks.container_of_ne huc] at hu
      exact hsound.events.key u hu
  case sorted =>
    intro e'
    rw [hevents, hchanged.items, hchanged.key]
    split_ifs with he
    · rw [Rota.items_insertAfter]
      have hsorted := hsound.events.sorted e
      exact pairwise_insert_of_le hsorted c
    · exact hsound.events.sorted e'

/-! ### Waking -/

/-- While the scheduler is suspended, the task is held in the list of pending tasks. -/
structure Holds (k : Scheduler T E) (t : T) (k' : Scheduler T E) : Prop where
  event_container :
    k'.events.container = Function.update k.events.container t (some .xPendingReadyList)
  event_items : ∀ e, k'.events.items (.pxEventList e) = (k.events.items (.pxEventList e)).erase t
  event_key : k'.events.key = k.events.key
  rest : k' = { k with
    events := k'.events
    xYieldPending := k'.xYieldPending
    pendSV := k'.pendSV }

omit [DecidableEq E] in
lemma Holds.sound (h : Holds k t k') (hsound : k.Sound) (ht : k.events.container t ≠ none) :
    k'.Sound := by
  have hstates : k'.states = k.states := by rw [h.rest]
  have hpriority : k'.uxPriority = k.uxPriority := by rw [h.rest]
  constructor
  case states =>
    have hs := hsound.states.withEvents k'.events
    rw [h.rest]
    exact ⟨hs.delayedLists, hs.bitmap, hs.priority, hs.delayed_sorted, hs.overflow_sorted,
      hs.deleted, hs.number⟩
  case events =>
    constructor
    case waits =>
      intro u hu
      rw [Waits, hstates]
      by_cases hut : u = t
      · rw [hut]
        exact hsound.events.waits t ht
      · rw [h.event_container, Function.update_of_ne hut] at hu
        exact hsound.events.waits u hu
    case key =>
      intro u hu
      rw [h.event_key, hpriority]
      rw [hstates] at hu
      exact hsound.events.key u hu
    case sorted =>
      intro e
      rw [h.event_items, h.event_key]
      exact (hsound.events.sorted e).sublist List.erase_sublist

/-- The task leaves the list of its event for a ready list or for the list of pending tasks. -/
def Signalled (k : Scheduler T E) (t : T) (k' : Scheduler T E) : Prop :=
  k.uxSchedulerSuspended = 0 ∧ Unblocks k t k' ∨
    k.uxSchedulerSuspended ≠ 0 ∧ Holds k t k' ∧ k'.xYieldPending = k.xYieldPending ∧
      k'.pendSV = k.pendSV

lemma xTaskRemoveFromEventList_spec (hsound : k.Sound) (hc : k.pxCurrentTCB = some c)
    (hhead : k.events.head (.pxEventList e) = some t) :
    ∃ k₁, Signalled k t k₁ ∧ k.xTaskRemoveFromEventList e =
      some (if k.uxPriority c < k.uxPriority t then ({ k₁ with xYieldPending := true }, true)
        else (k₁, false)) := by
  have hcontainer := Rotas.mem_iff.1 (List.mem_of_mem_head? hhead)
  have hevent : k.events.container t ≠ none := by
    rw [hcontainer]
    exact Option.some_ne_none _
  have hwaits := hsound.events.waits t hevent
  obtain ⟨V, hV, hVcontainer, hVitems, hVkey⟩ := removeAnyEvent_spec k t
  rw [removeAnyEvent, if_neg hevent] at hV
  by_cases hs : k.uxSchedulerSuspended = 0
  · obtain ⟨l₁, n, l₂, k₁, h₁, h₂, h₃, hunblocks⟩ := hwaits.unblock_event hevent
    obtain rfl := Option.some_inj.1 (hV.symm.trans h₁)
    refine ⟨k₁, .inl ⟨hs, hunblocks⟩, ?_⟩
    have hcurrent : k₁.pxCurrentTCB = some c := by rw [hunblocks.rest, hc]
    have hpriority : k₁.uxPriority = k.uxPriority := by rw [hunblocks.rest]
    rw [xTaskRemoveFromEventList, hhead, Option.bind_eq_bind, Option.bind_some, hV,
      Option.bind_eq_bind, Option.bind_some]
    dsimp only
    rw [if_pos hs, h₂, Option.bind_eq_bind, Option.bind_some]
    dsimp only
    rw [h₃, Option.bind_some, hcurrent, Option.bind_some, hpriority]
    split_ifs <;> rfl
  · have hnone : V.container t = none := by rw [hVcontainer, Function.update_self]
    obtain ⟨S, hS, hjoined⟩ := Rotas.exists_insertEnd hnone .xPendingReadyList
    refine ⟨{ k with events := S }, .inr ⟨hs, ⟨?_, fun e' => ?_, ?_, rfl⟩, rfl, rfl⟩, ?_⟩
    · rw [hjoined.container, hVcontainer, Function.update_idem]
    · rw [hjoined.items, if_neg (by simp), hVitems]
    · exact hjoined.key.trans hVkey
    · rw [xTaskRemoveFromEventList, hhead, Option.bind_eq_bind, Option.bind_some, hV,
        Option.bind_eq_bind, Option.bind_some]
      dsimp only
      rw [if_neg hs, hS, Option.bind_eq_bind, Option.bind_some, Option.bind_some]
      dsimp only
      rw [hc, Option.bind_some]
      split_ifs <;> rfl

/-- What an event does: nothing if no task waits for it; otherwise the first task of its list is
woken or held, and a switch is asked for if it has a higher priority than the running task. -/
lemma signal_spec (hsound : k.Sound) (hc : k.pxCurrentTCB = some c) (e : E) (b : Bool) :
    ∃ k', k.signal e b = some k' ∧
      (k.events.head (.pxEventList e) = none ∧ k' = k ∨
      ∃ t k₁, k.events.head (.pxEventList e) = some t ∧ Signalled k t k₁ ∧
        k' = { k₁ with
          xYieldPending := k.xYieldPending || decide (k.uxPriority c < k.uxPriority t)
          pendSV := k.pendSV || (b && decide (k.uxPriority c < k.uxPriority t)) }) := by
  cases hhead : k.events.head (.pxEventList e) with
  | none =>
    refine ⟨k, ?_, .inl ⟨rfl, rfl⟩⟩
    rw [signal, if_pos (List.head?_eq_none_iff.1 hhead)]
  | some t =>
    have hne : k.events.items (.pxEventList e) ≠ [] :=
      List.ne_nil_of_mem (List.mem_of_mem_head? hhead)
    obtain ⟨k₁, hk₁, hrun⟩ := xTaskRemoveFromEventList_spec hsound hc hhead
    have hyield : k₁.xYieldPending = k.xYieldPending := by
      rcases hk₁ with ⟨-, hunblocks⟩ | ⟨-, -, hyield, -⟩
      · rw [hunblocks.rest]
      · exact hyield
    have hpendSV : k₁.pendSV = k.pendSV := by
      rcases hk₁ with ⟨-, hunblocks⟩ | ⟨-, -, -, hpendSV⟩
      · rw [hunblocks.rest]
      · exact hpendSV
    refine ⟨_, ?_, .inr ⟨t, k₁, rfl, hk₁, rfl⟩⟩
    rw [signal, if_neg hne, hrun, Option.bind_eq_bind, Option.bind_some]
    by_cases hlt : k.uxPriority c < k.uxPriority t
    · simp only [hlt, decide_true, Bool.or_true, Bool.and_true]
      cases b
      · simp [hpendSV]
      · simp [portYIELD]
    · simp [hlt, ← hyield, ← hpendSV]

end Scheduler

end RT1064.Kernel
