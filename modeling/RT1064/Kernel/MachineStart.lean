import RT1064.Kernel.MachineSound

/-!
# The start of the scheduler

The invariant of the machine holds when the scheduler is started, and so in all states that the
program reaches.
-/

namespace RT1064.Kernel

open Core

namespace Scheduler

variable {T E : Type} {k k' : Scheduler T E} {t c : T} {p : Fin configMAX_PRIORITIES}

/-- Before the scheduler is started, the tasks are created one after the other. -/
structure Starting (k : Scheduler T E) : Prop where
  sound : k.Sound
  running : k.xSchedulerRunning = false
  suspended : k.uxSchedulerSuspended = 0
  pended : k.xPendedTicks = 0
  events : k.events.items = fun _ => []
  delayedLists : k.pxDelayedTaskList = .xDelayedTaskList1 ∧
    k.pxOverflowDelayedTaskList = .xDelayedTaskList2
  ready : ∀ t, k.states.container t ≠ none → k.IsReady t
  current : ∀ c, k.pxCurrentTCB = some c → k.IsReady c
  highest : ∀ t p, k.Ready t p → ∃ c, k.pxCurrentTCB = some c ∧ p ≤ k.uxPriority c

lemma starting_initial : (initial : Scheduler T E).Starting := by
  have hnone : ∀ t p, ¬ (initial : Scheduler T E).Ready t p := fun t p => nofun
  constructor
  case sound =>
    refine ⟨⟨.inl ⟨rfl, rfl⟩, fun i => ?_, fun t p ht => absurd ht (hnone t p), .nil, .nil, rfl,
      ∅, fun t => ?_, rfl⟩, fun t ht => absurd rfl ht, fun t ht => absurd rfl ht, fun _ => .nil⟩
    · rw [initial, BitVec.ofNat_eq_ofNat, BitVec.getLsbD_zero]
      exact ⟨nofun, fun ⟨t, p, _, ht⟩ => absurd ht (hnone t p)⟩
    · exact ⟨fun ht => absurd ht (Finset.notMem_empty t), fun ht => absurd rfl ht⟩
  case ready => exact fun t ht => absurd rfl ht
  case current => exact fun c => nofun
  case highest => exact fun t p ht => absurd ht (hnone t p)
  case delayedLists => exact ⟨rfl, rfl⟩
  all_goals rfl

variable [DecidableEq T] [DecidableEq E]

/-- The next task may be created if it was not before. -/
lemma Starting.xTaskCreate (h : k.Starting) (ht : k.states.container t = none)
    (p : Fin configMAX_PRIORITIES) :
    ∃ k', k.xTaskCreate t p = some k' ∧ k'.Starting ∧ k'.Ready t p ∧
      ∀ u ≠ t, k'.states.container u = k.states.container u := by
  have hnew : ∀ u, k.IsReady u → u ≠ t := by
    rintro u hu rfl
    rw [IsReady, Ready, ht] at hu
    cases hu
  obtain ⟨k', hcreate, hk⟩ := prvAddNewTaskToReadyList_spec (p := p) ht
    (fun hc => hnew t (h.current t hc) rfl) fun _ => h.delayedLists
  have hframe := hk.rest
  have hcurrent : k'.pxCurrentTCB = k.currentAfter t p := by rw [hframe]
  have hpriority := hk.priority
  refine ⟨k', hcreate, ?_, (hk.ready_iff ht).2 (.inl ⟨rfl, rfl⟩), fun u hu => ?_⟩
  swap
  · rw [hk.states.container, Function.update_of_ne hu]
  constructor
  case sound => exact hk.sound h.sound ht
  case running => exact Eq.trans (by rw [hframe]) h.running
  case suspended => exact Eq.trans (by rw [hframe]) h.suspended
  case pended => exact Eq.trans (by rw [hframe]) h.pended
  case events =>
    refine Eq.trans (funext fun l => ?_) h.events
    rw [Rotas.items, hk.event_rota]
    rfl
  case delayedLists => exact ⟨Eq.trans (by rw [hframe]) h.delayedLists.1,
    Eq.trans (by rw [hframe]) h.delayedLists.2⟩
  case ready =>
    intro u hu
    rw [IsReady, hk.ready_iff ht, hpriority]
    by_cases hut : u = t
    · exact .inl ⟨hut, by rw [hut, Function.update_self]⟩
    · rw [hk.states.container, Function.update_of_ne hut] at hu
      rw [Function.update_of_ne hut]
      exact .inr (h.ready u hu)
  case current =>
    intro c hc
    rw [hcurrent, currentAfter] at hc
    rw [IsReady, hk.ready_iff ht, hpriority]
    have hself : some t = some c → c = t ∧ Function.update k.uxPriority t p c = p := fun heq => by
      cases heq
      exact ⟨rfl, Function.update_self ..⟩
    cases hold : k.pxCurrentTCB with
    | none =>
      rw [hold] at hc
      exact .inl (hself hc)
    | some d =>
      rw [hold] at hc
      dsimp only at hc
      split_ifs at hc with hle
      · exact .inl (hself hc)
      · cases hc
        have hc := h.current c hold
        rw [Function.update_of_ne (hnew c hc)]
        exact .inr hc
  case highest =>
    intro u q hu
    rw [hcurrent, currentAfter, hpriority]
    have hu := (hk.ready_iff ht).1 hu
    cases hold : k.pxCurrentTCB with
    | none =>
      rcases hu with ⟨-, rfl⟩ | hu
      · exact ⟨t, rfl, by rw [Function.update_self]⟩
      · obtain ⟨c, hc, -⟩ := h.highest u q hu
        exact absurd (hc.symm.trans hold) (Option.some_ne_none c)
    | some d =>
      have hle : ∀ u q, k.Ready u q → q ≤ k.uxPriority d := by
        intro u q hu
        obtain ⟨c, hc, hle⟩ := h.highest u q hu
        obtain rfl := Option.some_inj.1 (hc.symm.trans hold)
        exact hle
      dsimp only
      split_ifs with hlow
      · refine ⟨t, rfl, ?_⟩
        rw [Function.update_self]
        rcases hu with ⟨-, rfl⟩ | hu
        · exact le_rfl
        · exact (hle u q hu).trans hlow.2
      · refine ⟨d, rfl, ?_⟩
        rw [Function.update_of_ne (hnew d (h.current d hold))]
        rcases hu with ⟨-, rfl⟩ | hu
        · exact (lt_of_not_ge fun hlow' => hlow ⟨h.running, hlow'⟩).le
        · exact hle u q hu

/-- All tasks of a list may be created. -/
lemma Starting.createTasks {tasks : List (T × Fin configMAX_PRIORITIES)} (h : k.Starting)
    (hnodup : (tasks.map Prod.fst).Nodup)
    (hnone : ∀ t ∈ tasks.map Prod.fst, k.states.container t = none) :
    ∃ k', createTasks tasks k = some k' ∧ k'.Starting ∧
      ∀ t ∉ tasks.map Prod.fst, k'.states.container t = k.states.container t := by
  induction tasks generalizing k with
  | nil => exact ⟨k, rfl, h, fun _ _ => rfl⟩
  | cons task tasks ih =>
    rw [List.map_cons, List.nodup_cons] at hnodup
    rw [List.map_cons, List.forall_mem_cons] at hnone
    obtain ⟨k₁, hcreate, hstarting, -, hother⟩ := h.xTaskCreate hnone.1 task.2
    obtain ⟨k', hrun, hk', hrest⟩ := ih hstarting hnodup.2 fun t ht => by
      have hne : t ≠ task.1 := fun heq => hnodup.1 (heq ▸ ht)
      rw [hother t hne, hnone.2 t ht]
    refine ⟨k', ?_, hk', fun t ht => ?_⟩
    · rw [createTasks, List.foldlM_cons, hcreate]
      exact hrun
    · rw [List.map_cons, List.mem_cons, not_or] at ht
      rw [hrest t ht.2, hother t ht.1]

/-- The scheduler starts with the task that was created last among those of the highest
priority, which is the timer task. -/
lemma Starting.vTaskStartScheduler {idle timer : T} (h : k.Starting)
    (hidle : k.states.container idle = none) (htimer : k.states.container timer = none)
    (hne : timer ≠ idle) :
    ∃ k' c, k.vTaskStartScheduler idle timer = some k' ∧ k'.uxSchedulerSuspended = 0 ∧
      Machine.ConsistentAt idle c ⟨k', fun _ => .own, fun _ => 0⟩ := by
  obtain ⟨k₁, hk₁, hstarting₁, hready, hother₁⟩ := h.xTaskCreate hidle 0
  obtain ⟨k₂, hk₂, hstarting, -, hother₂⟩ := hstarting₁.xTaskCreate
    ((hother₁ timer hne).trans htimer) configTIMER_TASK_PRIORITY
  have hidle₂ : k₂.Ready idle 0 := (hother₂ idle hne.symm).trans hready
  obtain ⟨c, hc, -⟩ := hstarting.highest idle 0 hidle₂
  have hlists : ∀ t l, k₂.states.container t = some l → ∃ p, l = .pxReadyTasksLists p := by
    intro t l hl
    have hready := hstarting.ready t (by rw [hl]; exact Option.some_ne_none l)
    exact ⟨_, Option.some_inj.1 (hl.symm.trans hready)⟩
  have hnone : ∀ t, k₂.states.container t ≠ some k₂.pxDelayedTaskList ∧
      k₂.states.container t ≠ some k₂.pxOverflowDelayedTaskList := by
    intro t
    rw [hstarting.delayedLists.1, hstarting.delayedLists.2]
    refine ⟨fun hl => ?_, fun hl => ?_⟩ <;>
      · obtain ⟨p, hp⟩ := hlists t _ hl
        cases hp
  refine ⟨{ k₂ with
    xNextTaskUnblockTime := portMAX_DELAY
    xSchedulerRunning := true
    xTickCount := 0 }, c, ?_, hstarting.suspended, ?_⟩
  · rw [Scheduler.vTaskStartScheduler, hk₁, Option.bind_eq_bind, Option.bind_some, hk₂,
      Option.bind_some]
  constructor
  case sound => exact hstarting.sound.congr rfl rfl rfl rfl rfl rfl rfl rfl
  case timely =>
    exact ⟨fun t ht => absurd ht (hnone t).1, fun t ht => absurd ht (hnone t).2,
      fun t ht => absurd ht (hnone t).1⟩
  case current => exact hc
  case running => rfl
  case idle_ready => exact hidle₂
  case settled => exact fun _ => ⟨congrFun hstarting.events _, hstarting.pended⟩
  case here => exact .inl (hstarting.current c hc)
  case away => exact fun _ _ => trivial
  case scheduled =>
    refine .inr (.inr fun t p ht => .inr ?_)
    obtain ⟨d, hd, hle⟩ := hstarting.highest t p ht
    obtain rfl := Option.some_inj.1 (hd.symm.trans hc)
    exact hle

end Scheduler

namespace Machine

variable {T E : Type} [DecidableEq T] [DecidableEq E] {idle timer : T} {m m' : Machine T E}
  {a : Action T E} {actions : List (Action T E)}

/-- The program starts the scheduler. -/
lemma exists_boot {tasks : List (T × Fin configMAX_PRIORITIES)}
    (hnodup : (tasks.map Prod.fst ++ [idle, timer]).Nodup) :
    ∃ m c, (boot tasks idle timer : Option (Machine T E)) = some m ∧
      m.scheduler.uxSchedulerSuspended = 0 ∧ ConsistentAt idle c m := by
  obtain ⟨htasks, htwo, hdisjoint⟩ := List.nodup_append.1 hnodup
  obtain ⟨k, hrun, hk, hother⟩ :=
    (Scheduler.starting_initial (T := T) (E := E)).createTasks htasks fun _ _ => rfl
  have hnone : ∀ t ∈ [idle, timer], k.states.container t = none := by
    intro t ht
    rw [hother t fun hmem => hdisjoint t hmem t ht rfl]
    rfl
  have hne : timer ≠ idle := by
    rintro rfl
    simp at htwo
  obtain ⟨k', c, hstart, hs, hc⟩ :=
    hk.vTaskStartScheduler (hnone idle (by simp)) (hnone timer (by simp)) hne
  refine ⟨⟨k', fun _ => .own, fun _ => 0⟩, c, ?_, hs, hc⟩
  rw [boot, hrun, Option.bind_eq_bind, Option.bind_some, hstart]
  rfl

lemma Reachable.consistent (h : Reachable idle m) : ∃ c, ConsistentAt idle c m := by
  obtain ⟨tasks, timer, m₀, actions, hnodup, hboot, hrun⟩ := h
  obtain ⟨m₁, c, hboot₁, -, hc⟩ := exists_boot (E := E) hnodup
  obtain rfl := Option.some_inj.1 (hboot.symm.trans hboot₁)
  refine hrun.invariant (fun m => ∃ c, ConsistentAt idle c m) ?_ ⟨c, hc⟩
  rintro m a m' ⟨c, hm⟩ ha hstep
  exact (hm.transition ha hstep).consistent hm

lemma Reachable.transition (h : Reachable idle m) (ha : Allowed idle m a)
    (hstep : m.step a = some m') : ∃ c, ConsistentAt idle c m ∧ Transition idle c m a m' :=
  h.consistent.imp fun _ hc => ⟨hc, hc.transition ha hstep⟩

lemma Reachable.guarded (h : Reachable idle m) (hrun : Guarded step (Allowed idle) m actions m') :
    Reachable idle m' := by
  obtain ⟨tasks, timer, m₀, before, hnodup, hboot, hbefore⟩ := h
  exact ⟨tasks, timer, m₀, before ++ actions, hnodup, hboot, hbefore.append hrun⟩

/-- A task suspends the scheduler less than `2 ^ 32` times over, and nothing else does. -/
lemma Transition.suspended_lt {c : T} (ht : Transition idle c m a m') (ha : Allowed idle m a)
    (h : m.scheduler.uxSchedulerSuspended < 2 ^ 32) :
    m'.scheduler.uxSchedulerSuspended < 2 ^ 32 := by
  cases ht with
  | ticked _ hk => exact hk.suspended.trans_lt h
  | signalled _ hk =>
    rcases hk with ⟨-, hunblocks⟩ | ⟨-, hholds, -, -⟩
    · exact lt_of_eq_of_lt (by rw [hunblocks.rest]) h
    · exact lt_of_eq_of_lt (by rw [hholds.rest]) h
  | switched _ hk => exact lt_of_eq_of_lt (by rw [hk.rest]) h
  | suspended => exact ha.2
  | nested _ hn => exact lt_trans (by rw [hn]; exact Nat.lt_succ_self _) h
  | resumed _ hk => exact hk.suspended.trans_lt (by decide)
  | called hc => exact (congrArg (· + 1) hc.2.1).trans_lt (by decide)
  | created _ _ hk | deletedSelf _ _ hk | deletedOther _ _ _ _ hk | cleaned _ _ hk
  | blocked _ _ _ _ _ hk => exact lt_of_eq_of_lt (by rw [hk.rest]) h
  | _ => exact h

/-- The count of the calls that suspended the scheduler does not wrap. -/
lemma Reachable.suspended_lt (h : Reachable idle m) :
    m.scheduler.uxSchedulerSuspended < 2 ^ 32 := by
  obtain ⟨tasks, timer, m₀, actions, hnodup, hboot, hrun⟩ := h
  obtain ⟨m₁, c, hboot₁, hs, hc⟩ := exists_boot (E := E) hnodup
  obtain rfl := Option.some_inj.1 (hboot.symm.trans hboot₁)
  refine (hrun.invariant (fun m => (∃ c, ConsistentAt idle c m) ∧
    m.scheduler.uxSchedulerSuspended < 2 ^ 32) ?_ ⟨⟨c, hc⟩, hs.trans_lt (by decide)⟩).2
  rintro m a m' ⟨⟨c, hm⟩, hlt⟩ ha hstep
  have ht := hm.transition ha hstep
  exact ⟨ht.consistent hm, ht.suspended_lt ha hlt⟩

/-! ### A start of the program -/

inductive ExampleTask
  | idle
  | timer
  | first
  | second
deriving DecidableEq, Repr

/-- Two tasks of priority 4 are created before the idle task and the timer task. -/
def started : Machine ExampleTask Unit :=
  (boot [(.first, 4), (.second, 4)] .idle .timer).get (by decide)

lemma reachable_started : Reachable .idle started :=
  ⟨[(.first, 4), (.second, 4)], .timer, started, [], by decide,
    by rw [started, Option.some_get], .refl⟩

/-! ### What holds in every run -/

/-- Whatever order interrupts and calls come in, none of them is stopped by an assertion of the
scheduler or a null pointer, no item is put into a list while it is in one, and the lists, the
bits of the ready priorities, the counters and the wake times go on to agree. -/
theorem run_goes_on (h : Reachable idle m) (ha : Allowed idle m a) :
    ∃ m', m.step a = some m' ∧ Reachable idle m' ∧ m'.scheduler.Sound ∧ m'.scheduler.Timely := by
  obtain ⟨c, hc⟩ := h.consistent
  obtain ⟨m', hstep, htransition⟩ := hc.exists_transition ha
  obtain ⟨c', hc'⟩ := htransition.consistent hc
  exact ⟨m', hstep, h.guarded (.single ha hstep), hc'.sound, hc'.timely⟩

theorem run_goes_on_started :
    ∃ m', started.step (.vTaskDelay 5) = some m' ∧ Reachable .idle m' ∧ m'.scheduler.Sound ∧
      m'.scheduler.Timely :=
  run_goes_on reachable_started ⟨.timer, ⟨rfl, rfl, rfl⟩,
    fun _ => ⟨⟨rfl, rfl, rfl⟩, rfl, by decide⟩⟩

/-- While no switch is pending and the scheduler is not suspended, a task in its own code is ready,
none that is ready has a higher priority, and no event and no tick was left for later. -/
theorem highest_runs {c : T} (h : Reachable idle m) (hrun : m.Runs c)
    (hs : m.scheduler.uxSchedulerSuspended = 0) (hyield : m.scheduler.xYieldPending = false) :
    m.scheduler.IsReady c ∧ (∀ t p, m.scheduler.Ready t p → p ≤ m.scheduler.uxPriority c) ∧
      m.scheduler.events.items .xPendingReadyList = [] ∧ m.scheduler.xPendedTicks = 0 := by
  obtain ⟨d, hd⟩ := h.consistent
  obtain rfl := hd.runs hrun
  refine ⟨hd.isReady hrun, fun t p ht => ?_, hd.settled hs⟩
  rcases hd.scheduled with hpendSV | hpending | hle
  · exact absurd (hrun.2.2.symm.trans hpendSV) Bool.false_ne_true
  · exact absurd (hyield.symm.trans hpending) Bool.false_ne_true
  · refine (hle t p ht).resolve_left ?_
    rw [hrun.2.1]
    exact nofun

/-- All tasks but the idle task wait. It suspends the scheduler, an interrupt signals the event that
the timer task waits for, a tick comes, and the timer task runs when the scheduler is resumed. -/
def resumed : Option (Machine ExampleTask Unit) :=
  Guarded.follow step (Allowed .idle) started
    [.wait () 5, .proceed, .proceed, .proceed, .xPortPendSVHandler,
      .vTaskDelay 9, .proceed, .proceed, .proceed, .xPortPendSVHandler,
      .vTaskDelay 9, .proceed, .proceed, .proceed, .xPortPendSVHandler,
      .vTaskSuspendAll, .signal () true, .xPortPendSVHandler, .xPortSysTickHandler,
      .xTaskResumeAll, .xPortPendSVHandler]

lemma resumed_isSome : resumed.isSome := by decide +kernel

theorem highest_runs_resumed :
    (resumed.get resumed_isSome).scheduler.IsReady .timer ∧
      (∀ t p, (resumed.get resumed_isSome).scheduler.Ready t p →
        p ≤ (resumed.get resumed_isSome).scheduler.uxPriority .timer) ∧
      (resumed.get resumed_isSome).scheduler.events.items .xPendingReadyList = [] ∧
      (resumed.get resumed_isSome).scheduler.xPendedTicks = 0 :=
  highest_runs (reachable_started.guarded (Guarded.of_follow (Option.some_get _).symm))
    (by decide +kernel) (by decide +kernel) (by decide +kernel)

end Machine

end RT1064.Kernel
