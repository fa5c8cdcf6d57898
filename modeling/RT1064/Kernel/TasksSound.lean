import Mathlib.Data.Finset.Card
import RT1064.Kernel.Tasks

/-!
# What the lists of the scheduler keep to

`Sound` is the invariant of the lists and of the numbers that are kept beside them. A task moves by
one of two steps, of which all functions are made up: it is unblocked, or the running task blocks.
-/

namespace RT1064.Kernel

open Core

/-! ### The bits of the ready priorities -/

section Bits

variable {m : BitVec 32} {p i : ℕ}

lemma getLsbD_portRECORD (hp : p < 32) :
    (portRECORD_READY_PRIORITY p m).getLsbD i = (m.getLsbD i || decide (p = i)) := by
  rw [portRECORD_READY_PRIORITY, ← BitVec.twoPow_eq, BitVec.getLsbD_or, BitVec.getLsbD_twoPow]
  simp [hp]

lemma getLsbD_portRESET (hp : p < 32) :
    (portRESET_READY_PRIORITY p m).getLsbD i = (m.getLsbD i && !decide (p = i)) := by
  rw [portRESET_READY_PRIORITY, ← BitVec.twoPow_eq, BitVec.getLsbD_and, BitVec.getLsbD_not,
    BitVec.getLsbD_twoPow]
  by_cases hi : i < 32
  · simp [hp, hi]
  · simp [BitVec.getLsbD_of_ge m i (Nat.le_of_not_lt hi)]

/-- The highest priority is that of the highest bit. -/
lemma portGET_HIGHEST_PRIORITY_spec (hm : m ≠ 0) :
    m.getLsbD (portGET_HIGHEST_PRIORITY m).toNat = true ∧
      ∀ i, m.getLsbD i = true → i ≤ (portGET_HIGHEST_PRIORITY m).toNat := by
  have hclz : m.clz.toNat < 32 := by
    have hlt := BitVec.clz_lt_iff_ne_zero.2 hm
    simpa [BitVec.lt_def] using hlt
  have htop : (portGET_HIGHEST_PRIORITY m).toNat = 32 - 1 - m.clz.toNat := by
    rw [portGET_HIGHEST_PRIORITY, BitVec.toNat_sub, BitVec.toNat_ofNat]
    omega
  rw [htop]
  refine ⟨BitVec.getLsbD_true_clz_of_ne_zero (by omega) hm, fun i hi => ?_⟩
  have hlt := BitVec.toNat_lt_two_pow_sub_clz (x := m)
  have hge := Nat.ge_two_pow_of_testBit (show m.toNat.testBit i = true from hi)
  have hexp := (Nat.pow_lt_pow_iff_right (by omega)).1 (hge.trans_lt hlt)
  omega

end Bits

/-- The lists of tasks that wait. -/
def StateList.Blocked : StateList → Prop
  | .xDelayedTaskList1 | .xDelayedTaskList2 | .xSuspendedTaskList => True
  | .pxReadyTasksLists _ | .xTasksWaitingTermination => False

namespace Scheduler

variable {T E : Type} {k k' : Scheduler T E} {t : T}

/-- The task is in the ready list of a priority. -/
def Ready (k : Scheduler T E) (t : T) (p : Fin configMAX_PRIORITIES) : Prop :=
  k.states.container t = some (.pxReadyTasksLists p)

/-- The task waits, for a time or for an event. -/
def Waits (k : Scheduler T E) (t : T) : Prop :=
  ∃ l : StateList, l.Blocked ∧ k.states.container t = some l

/-- The state list items. -/
structure StatesSound (k : Scheduler T E) : Prop where
  delayedLists :
    k.pxDelayedTaskList = .xDelayedTaskList1 ∧ k.pxOverflowDelayedTaskList = .xDelayedTaskList2 ∨
    k.pxDelayedTaskList = .xDelayedTaskList2 ∧ k.pxOverflowDelayedTaskList = .xDelayedTaskList1
  bitmap : ∀ i, k.uxTopReadyPriority.getLsbD i = true ↔ ∃ t p, p.val = i ∧ k.Ready t p
  priority : ∀ t p, k.Ready t p → k.uxPriority t = p
  delayed_sorted : (k.states.items k.pxDelayedTaskList).Pairwise
    fun t u => (k.states.key t).toNat ≤ (k.states.key u).toNat
  overflow_sorted : (k.states.items k.pxOverflowDelayedTaskList).Pairwise
    fun t u => (k.states.key t).toNat ≤ (k.states.key u).toNat
  deleted : k.uxDeletedTasksWaitingCleanUp = (k.states.items .xTasksWaitingTermination).length
  number : ∃ F : Finset T, (∀ t, t ∈ F ↔ k.states.container t ≠ none) ∧
    k.uxCurrentNumberOfTasks = F.card

/-- The event list items. -/
structure EventsSound (k : Scheduler T E) : Prop where
  waits : ∀ t, k.events.container t ≠ none → k.Waits t
  key : ∀ t, k.states.container t ≠ none →
    k.events.key t = BitVec.ofNat 32 configMAX_PRIORITIES - BitVec.ofNat 32 (k.uxPriority t)
  sorted : ∀ e, (k.events.items (.pxEventList e)).Pairwise
    fun t u => (k.events.key t).toNat ≤ (k.events.key u).toNat

structure Sound (k : Scheduler T E) : Prop where
  states : k.StatesSound
  events : k.EventsSound

/-- The wake times agree with the tick count. -/
structure Timely (k : Scheduler T E) : Prop where
  delayed : ∀ t, k.states.container t = some k.pxDelayedTaskList →
    k.xTickCount.toNat < (k.states.key t).toNat
  overflow : ∀ t, k.states.container t = some k.pxOverflowDelayedTaskList →
    (k.states.key t).toNat < k.xTickCount.toNat
  unblock : ∀ t, k.states.container t = some k.pxDelayedTaskList →
    k.xNextTaskUnblockTime.toNat ≤ (k.states.key t).toNat

lemma StatesSound.delayed_blocked (h : k.StatesSound) :
    k.pxDelayedTaskList.Blocked ∧ k.pxOverflowDelayedTaskList.Blocked := by
  rcases h.delayedLists with ⟨h1, h2⟩ | ⟨h1, h2⟩
  · rw [h1, h2]
    exact ⟨trivial, trivial⟩
  · rw [h1, h2]
    exact ⟨trivial, trivial⟩

lemma StatesSound.delayed_ne_ready (h : k.StatesSound) (p : Fin configMAX_PRIORITIES) :
    k.pxDelayedTaskList ≠ .pxReadyTasksLists p := fun hp => by
  have hblocked := h.delayed_blocked.1
  rw [hp] at hblocked
  exact hblocked

lemma StatesSound.overflow_ne_ready (h : k.StatesSound) (p : Fin configMAX_PRIORITIES) :
    k.pxOverflowDelayedTaskList ≠ .pxReadyTasksLists p := fun hp => by
  have hblocked := h.delayed_blocked.2
  rw [hp] at hblocked
  exact hblocked

/-- The invariant is about the lists and the numbers only. -/
lemma Sound.congr (h : k.Sound) (hstates : k'.states = k.states) (hevents : k'.events = k.events)
    (hpriority : k'.uxPriority = k.uxPriority)
    (hdelayed : k'.pxDelayedTaskList = k.pxDelayedTaskList)
    (hoverflow : k'.pxOverflowDelayedTaskList = k.pxOverflowDelayedTaskList)
    (htop : k'.uxTopReadyPriority = k.uxTopReadyPriority)
    (hdeleted : k'.uxDeletedTasksWaitingCleanUp = k.uxDeletedTasksWaitingCleanUp)
    (hnumber : k'.uxCurrentNumberOfTasks = k.uxCurrentNumberOfTasks) : k'.Sound := by
  obtain ⟨⟨h1, h2, h3, h4, h5, h6, h7⟩, ⟨h8, h9, h10⟩⟩ := h
  simp only [Ready, Waits] at *
  refine ⟨⟨?_, ?_, ?_, ?_, ?_, ?_, ?_⟩, ⟨?_, ?_, ?_⟩⟩
  all_goals simpa only [Ready, Waits, hstates, hevents, hpriority, hdelayed, hoverflow, htop,
    hdeleted, hnumber]

lemma Waits.not_ready (ht : k.Waits t) (p : Fin configMAX_PRIORITIES) : ¬ k.Ready t p := by
  obtain ⟨l, hl, ht⟩ := ht
  intro hready
  obtain rfl := Option.some_inj.1 (ht.symm.trans hready)
  exact hl

lemma Waits.not_deleted (ht : k.Waits t) :
    k.states.container t ≠ some .xTasksWaitingTermination := by
  obtain ⟨l, hl, ht⟩ := ht
  intro hdeleted
  obtain rfl := Option.some_inj.1 (ht.symm.trans hdeleted)
  exact hl

lemma Waits.present (ht : k.Waits t) : k.states.container t ≠ none := by
  obtain ⟨l, -, hl⟩ := ht
  rw [hl]
  exact Option.some_ne_none l

lemma EventsSound.waits_of_mem (h : k.EventsSound) {l : EventList E} (ht : t ∈ k.events.items l) :
    k.Waits t :=
  h.waits t fun hnone => Option.some_ne_none l ((Rotas.mem_iff.1 ht).symm.trans hnone)

/-! ### Unblocking a task -/

variable [DecidableEq T]

/-- The task left its lists and is in the ready list of its priority. -/
structure Unblocks (k : Scheduler T E) (t : T) (k' : Scheduler T E) : Prop where
  states : k.states.Moved t (.pxReadyTasksLists (k.uxPriority t))
    ((k.states.rota (.pxReadyTasksLists (k.uxPriority t))).insertEnd t) k'.states
  state_key : k'.states.key = k.states.key
  event_container : k'.events.container = Function.update k.events.container t none
  event_items : ∀ l, k'.events.items l = (k.events.items l).erase t
  event_key : k'.events.key = k.events.key
  rest : k' = { k with
    states := k'.states
    events := k'.events
    uxTopReadyPriority := portRECORD_READY_PRIORITY (k.uxPriority t) k.uxTopReadyPriority }

lemma removeState_spec {l : StateList} (ht : k.states.container t = some l) :
    ∃ R, k.removeState t = some ((R.items l).length, { k with states := R }) ∧
      k.states.Changed l ((k.states.rota l).erase t)
        (Function.update k.states.container t none) R := by
  obtain ⟨R, hR, hchanged⟩ := Rotas.exists_remove ht
  exact ⟨R, by rw [removeState, hR]; rfl, hchanged⟩

lemma prvAddTaskToReadyList_spec (ht : k.states.container t = none) :
    ∃ R, k.prvAddTaskToReadyList t = some { k with
        states := R
        uxTopReadyPriority := portRECORD_READY_PRIORITY (k.uxPriority t) k.uxTopReadyPriority } ∧
      k.states.Changed (.pxReadyTasksLists (k.uxPriority t))
        ((k.states.rota (.pxReadyTasksLists (k.uxPriority t))).insertEnd t)
        (Function.update k.states.container t (some (.pxReadyTasksLists (k.uxPriority t)))) R := by
  obtain ⟨R, hR, hchanged⟩ :=
    Rotas.exists_insertEnd ht (.pxReadyTasksLists (k.uxPriority t))
  exact ⟨R, by rw [prvAddTaskToReadyList, hR]; rfl, hchanged⟩

lemma Unblocks.of_changed {l : StateList} (hl : l.Blocked) (ht : k.states.container t = some l)
    {R S : Rotas StateList T TickType_t} {V : Rotas (EventList E) T TickType_t}
    (hleft : k.states.Changed l ((k.states.rota l).erase t)
      (Function.update k.states.container t none) R)
    (hjoined : R.Changed (.pxReadyTasksLists (k.uxPriority t))
      ((R.rota (.pxReadyTasksLists (k.uxPriority t))).insertEnd t)
      (Function.update R.container t (some (.pxReadyTasksLists (k.uxPriority t)))) S)
    (hcontainer : V.container = Function.update k.events.container t none)
    (hitems : ∀ l, V.items l = (k.events.items l).erase t) (hkey : V.key = k.events.key) :
    Unblocks k t { k with
      states := S
      events := V
      uxTopReadyPriority := portRECORD_READY_PRIORITY (k.uxPriority t) k.uxTopReadyPriority } := by
  have hne : StateList.pxReadyTasksLists (k.uxPriority t) ≠ l := by
    rintro rfl
    exact hl
  have hrota : R.rota (.pxReadyTasksLists (k.uxPriority t)) =
      k.states.rota (.pxReadyTasksLists (k.uxPriority t)) := by
    rw [hleft.rota, Function.update_of_ne hne]
  rw [hrota] at hjoined
  exact ⟨hleft.moved ht rfl rfl hjoined, hjoined.key.trans hleft.key, hcontainer, hitems, hkey, rfl⟩

section Exists

variable [DecidableEq E]

lemma removeAnyEvent_spec (k : Scheduler T E) (t : T) :
    ∃ V, k.removeAnyEvent t = some { k with events := V } ∧
      V.container = Function.update k.events.container t none ∧
      (∀ l, V.items l = (k.events.items l).erase t) ∧ V.key = k.events.key := by
  rw [removeAnyEvent]
  split_ifs with hnone
  · refine ⟨k.events, rfl, ?_, fun l => ?_, rfl⟩
    · rw [← hnone, Function.update_eq_self]
    · rw [List.erase_of_not_mem (Rotas.notMem_of_container hnone l)]
  · obtain ⟨l, hl⟩ := Option.ne_none_iff_exists'.1 hnone
    obtain ⟨V, hV, hchanged⟩ := Rotas.exists_remove hl
    refine ⟨V, by rw [removeEvent, hV]; rfl, hchanged.container, fun l' => ?_, hchanged.key⟩
    rw [hchanged.items]
    split_ifs with hl'
    · rw [hl', Rota.items_erase (k.events.nodup l)]
      rfl
    · rw [List.erase_of_not_mem]
      rw [Rotas.mem_iff, hl]
      exact fun heq => hl' (Option.some_inj.1 heq).symm

/-- A waiting task is unblocked, first in its state list. -/
lemma Waits.unblock (ht : k.Waits t) : ∃ n k₁ k₂ k', k.removeState t = some (n, k₁) ∧
    k₁.removeAnyEvent t = some k₂ ∧ k₂.prvAddTaskToReadyList t = some k' ∧ Unblocks k t k' := by
  obtain ⟨l, hl, ht⟩ := ht
  obtain ⟨R, hR, hleft⟩ := removeState_spec ht
  obtain ⟨V, hV, hcontainer, hitems, hkey⟩ := removeAnyEvent_spec { k with states := R } t
  have hnone : R.container t = none := by rw [hleft.container, Function.update_self]
  obtain ⟨S, hS, hjoined⟩ :=
    prvAddTaskToReadyList_spec (k := { k with states := R, events := V }) (t := t) hnone
  exact ⟨_, _, _, _, hR, hV, hS, .of_changed hl ht hleft hjoined hcontainer hitems hkey⟩

/-- A task that waits for an event is unblocked, first in its event list. -/
lemma Waits.unblock_event (ht : k.Waits t) (hevent : k.events.container t ≠ none) :
    ∃ k₁ n k₂ k', k.removeEvent t = some k₁ ∧ k₁.removeState t = some (n, k₂) ∧
      k₂.prvAddTaskToReadyList t = some k' ∧ Unblocks k t k' := by
  obtain ⟨l, hl, ht⟩ := ht
  obtain ⟨V, hV, hcontainer, hitems, hkey⟩ := removeAnyEvent_spec k t
  rw [removeAnyEvent, if_neg hevent] at hV
  obtain ⟨R, hR, hleft⟩ := removeState_spec (k := { k with events := V }) ht
  have hnone : R.container t = none := by rw [hleft.container, Function.update_self]
  obtain ⟨S, hS, hjoined⟩ :=
    prvAddTaskToReadyList_spec (k := { k with states := R, events := V }) (t := t) hnone
  exact ⟨_, _, _, _, hV, hR, hS, .of_changed hl ht hleft hjoined hcontainer hitems hkey⟩

end Exists

section Unblocks

variable {u : T} (h : Unblocks k t k')

include h

lemma Unblocks.container_self :
    k'.states.container t = some (.pxReadyTasksLists (k.uxPriority t)) := by
  rw [h.states.container, Function.update_self]

lemma Unblocks.container_of_ne (hu : u ≠ t) :
    k'.states.container u = k.states.container u := by
  rw [h.states.container, Function.update_of_ne hu]

lemma Unblocks.ready_iff (ht : k.Waits t) (p : Fin configMAX_PRIORITIES) :
    k'.Ready u p ↔ u = t ∧ p = k.uxPriority t ∨ k.Ready u p := by
  by_cases hu : u = t
  · rw [Ready, hu, h.container_self, Option.some_inj, StateList.pxReadyTasksLists.injEq]
    exact ⟨fun heq => .inl ⟨rfl, heq.symm⟩,
      fun hor => hor.elim (fun heq => heq.2.symm) fun hr => absurd hr (ht.not_ready p)⟩
  · rw [Ready, h.container_of_ne hu]
    exact ⟨.inr, fun hor => hor.elim (fun heq => absurd heq.1 hu) id⟩

lemma Unblocks.container_ne_none (ht : k.Waits t) :
    k'.states.container u ≠ none ↔ k.states.container u ≠ none := by
  by_cases hu : u = t
  · obtain ⟨l, -, ht⟩ := ht
    simp [hu, h.container_self, ht]
  · rw [h.container_of_ne hu]

lemma Unblocks.statesSound (hsound : k.StatesSound) (ht : k.Waits t) : k'.StatesSound := by
  have hpriority : k'.uxPriority = k.uxPriority := by rw [h.rest]
  have hdelayed : k'.pxDelayedTaskList = k.pxDelayedTaskList := by rw [h.rest]
  have hoverflow : k'.pxOverflowDelayedTaskList = k.pxOverflowDelayedTaskList := by rw [h.rest]
  constructor
  case delayedLists =>
    rw [hdelayed, hoverflow]
    exact hsound.delayedLists
  case bitmap =>
    intro i
    have htop : k'.uxTopReadyPriority =
        portRECORD_READY_PRIORITY (k.uxPriority t) k.uxTopReadyPriority := by rw [h.rest]
    have hlt : (k.uxPriority t).val < 32 := (k.uxPriority t).isLt.trans (by decide)
    rw [htop, getLsbD_portRECORD hlt, Bool.or_eq_true, decide_eq_true_iff, hsound.bitmap]
    simp only [h.ready_iff ht]
    constructor
    · rintro (⟨u, p, hp, hu⟩ | hp)
      · exact ⟨u, p, hp, .inr hu⟩
      · exact ⟨t, _, hp, .inl ⟨rfl, rfl⟩⟩
    · rintro ⟨u, p, hp, ⟨-, rfl⟩ | hu⟩
      · exact .inr hp
      · exact .inl ⟨u, p, hp, hu⟩
  case priority =>
    intro u p hu
    rw [hpriority]
    rcases (h.ready_iff ht p).1 hu with ⟨rfl, rfl⟩ | hu
    · rfl
    · exact hsound.priority u p hu
  case delayed_sorted =>
    rw [hdelayed, h.states.items (hsound.delayed_ne_ready _), h.state_key]
    exact hsound.delayed_sorted.sublist List.erase_sublist
  case overflow_sorted =>
    rw [hoverflow, h.states.items (hsound.overflow_ne_ready _), h.state_key]
    exact hsound.overflow_sorted.sublist List.erase_sublist
  case deleted =>
    have hdeleted : k'.uxDeletedTasksWaitingCleanUp = k.uxDeletedTasksWaitingCleanUp := by
      rw [h.rest]
    have hnot : t ∉ k.states.items .xTasksWaitingTermination := by
      rw [Rotas.mem_iff]
      obtain ⟨l, hl, ht⟩ := ht
      rw [ht]
      rintro ⟨⟩
      exact hl
    rw [hdeleted, h.states.items (by simp), List.erase_of_not_mem hnot, hsound.deleted]
  case number =>
    have hnumber : k'.uxCurrentNumberOfTasks = k.uxCurrentNumberOfTasks := by rw [h.rest]
    obtain ⟨F, hF, hcard⟩ := hsound.number
    exact ⟨F, fun u => (hF u).trans (h.container_ne_none ht).symm, hnumber.trans hcard⟩

lemma Unblocks.eventsSound (hsound : k.EventsSound) (ht : k.Waits t) : k'.EventsSound := by
  constructor
  case waits =>
    intro u hu
    by_cases hut : u = t
    · rw [hut, h.event_container, Function.update_self] at hu
      exact absurd rfl hu
    · rw [h.event_container, Function.update_of_ne hut] at hu
      obtain ⟨l, hl, hul⟩ := hsound.waits u hu
      exact ⟨l, hl, (h.container_of_ne hut).trans hul⟩
  case key =>
    intro u hu
    have hpriority : k'.uxPriority = k.uxPriority := by rw [h.rest]
    rw [h.event_key, hpriority]
    exact hsound.key u ((h.container_ne_none ht).1 hu)
  case sorted =>
    intro e
    rw [h.event_items, h.event_key]
    exact (hsound.sorted e).sublist List.erase_sublist

lemma Unblocks.sound (hsound : k.Sound) (ht : k.Waits t) : k'.Sound :=
  ⟨h.statesSound hsound.states ht, h.eventsSound hsound.events ht⟩

end Unblocks

end Scheduler

end RT1064.Kernel
