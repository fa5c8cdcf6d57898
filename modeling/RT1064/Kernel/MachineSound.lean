import RT1064.Kernel.MachineSteps

/-!
# The invariant of the machine

Every transition keeps the invariant.
-/

namespace RT1064.Kernel

open Core

namespace Scheduler

variable {T E : Type} {k k' : Scheduler T E} {t c : T} {W : Set T} {s : Stage T E}

/-! ### Which tasks are alive -/

lemma Wakes.alive (h : Wakes k k' W) (ht : k'.Alive t) : k.Alive t := by
  by_cases hW : t ∈ W
  · exact .inl (h.waits t hW)
  · refine ht.imp ?_ ?_
    · rintro ⟨l, hl, hcontainer⟩
      exact ⟨l, hl, (h.state t hW).symm.trans hcontainer⟩
    · rintro ⟨p, hp⟩
      exact ⟨p, (h.state t hW).symm.trans hp⟩

lemma Wakes.isReady (h : Wakes k k' W) (ht : k.IsReady t) : k'.IsReady t := by
  rw [IsReady, h.priority]
  exact h.ready_mono ht

/-- Tasks that are in the same state lists are alive alike. -/
lemma alive_congr (h : k'.states.container t = k.states.container t) : k'.Alive t ↔ k.Alive t := by
  rw [Alive, Alive, Waits, Waits]
  simp only [Ready, h]

/-- The running task is to be switched out if a task of a higher priority was woken. -/
lemma Scheduled.wakes (h : k.Scheduled c s) (hw : Wakes k k' W)
    (hpendSV : k.pendSV = true → k'.pendSV = true)
    (hswitch : k.xYieldPending = true ∨ (∃ t ∈ W, k.uxPriority c < k.uxPriority t) →
      k'.pendSV = true ∨ k'.xYieldPending = true) : k'.Scheduled c s := by
  rcases h with hp | hy | hle
  · exact .inl (hpendSV hp)
  · exact (hswitch (.inl hy)).imp_right .inl
  by_cases hex : ∃ t ∈ W, k.uxPriority c < k.uxPriority t
  · exact (hswitch (.inr hex)).imp_right .inl
  refine .inr (.inr fun t p ht => ?_)
  rw [hw.priority]
  rcases hw.ready_of ht with hold | ⟨hW, rfl⟩
  · exact hle t p hold
  · exact .inr (le_of_not_gt fun hlt => hex ⟨t, hW, hlt⟩)

/-- Where no task becomes ready, none has a higher priority than before. -/
lemma Scheduled.mono (h : k.Scheduled c s) (hpriority : k'.uxPriority = k.uxPriority)
    (hready : ∀ t p, k'.Ready t p → k.Ready t p) (hpendSV : k.pendSV = true → k'.pendSV = true)
    (hyield : k.xYieldPending = true → k'.xYieldPending = true) : k'.Scheduled c s := by
  refine h.imp hpendSV (.imp hyield fun hle t p ht => ?_)
  rw [hpriority]
  exact hle t p (hready t p ht)

/-- The stage counts only if the running task created another one. -/
lemma Scheduled.stage (h : k.Scheduled c s) (hs : ∀ t, s ≠ .prvAddNewTaskToReadyList t)
    (s' : Stage T E) : k.Scheduled c s' :=
  h.imp_right (.imp_right fun hle t p ht => .inr ((hle t p ht).resolve_left (hs t)))

variable [DecidableEq T]

lemma Leaves.alive (h : Leaves k t k') {u : T} (hu : k'.Alive u) : u ≠ t ∧ k.Alive u := by
  have hne : u ≠ t := by
    rintro rfl
    rcases hu with ⟨l, hl, hcontainer⟩ | ⟨p, hp⟩
    · exact absurd rfl (h.stays hl hcontainer).1
    · exact h.container_ready p hp
  exact ⟨hne, (alive_congr (h.container_of_ne u hne)).1 hu⟩

lemma Leaves.isReady (h : Leaves k t k') {u : T} (hut : u ≠ t) (hu : k.IsReady u) :
    k'.IsReady u := by
  rw [IsReady, h.priority]
  exact h.ready_iff.2 ⟨hut, hu⟩

end Scheduler

namespace Stage

variable {T E : Type} {k k' : Scheduler T E} {idle c t : T} {s : Stage T E}

lemma Away.mono (h : s.Away k t) (halive : k'.Alive t → k.Alive t) : s.Away k' t := by
  cases s with
  | vTaskDelete => exact fun hk' => h (halive hk')
  | _ => exact h

/-- A task is at a stage at which it may be switched out, unless the scheduler is suspended. -/
lemma At.away (h : s.At k idle c) (hs : k.uxSchedulerSuspended = 0) : s.Away k c := by
  cases s with
  | own | taskYIELD_WITHIN_API | prvAddNewTaskToReadyList => trivial
  | vTaskDelay | xTaskDelayUntil | vTaskPlaceOnEventList =>
    rw [At, hs] at h
    exact absurd h.2.1 (by omega)
  | xTaskResumeAll =>
    rw [At, hs] at h
    exact absurd h (by omega)
  | vTaskDelete => exact h.1

/-- A task that is selected goes on at its stage. -/
lemma Away.here (h : s.Away k t) (hready : k.IsReady t) : s.At k idle t := by
  cases s with
  | own => exact .inl hready
  | taskYIELD_WITHIN_API => exact .inl hready
  | prvAddNewTaskToReadyList => exact hready
  | vTaskDelete => exact absurd (.inr ⟨_, hready⟩) h
  | vTaskDelay | xTaskDelayUntil | vTaskPlaceOnEventList | xTaskResumeAll => exact h.elim

lemma At.mono (h : s.At k idle c) (hready : k.IsReady c → k'.IsReady c)
    (halive : k'.Alive c → k.Alive c) (hpendSV : k.pendSV = true → k'.pendSV = true)
    (hs : k'.uxSchedulerSuspended = k.uxSchedulerSuspended) : s.At k' idle c := by
  cases s with
  | own =>
    rw [At, hs]
    exact h.imp hready (And.imp_left hpendSV)
  | taskYIELD_WITHIN_API =>
    rw [At, hs]
    exact h.imp_left hready
  | prvAddNewTaskToReadyList => exact hready h
  | vTaskDelete =>
    rw [At, hs]
    exact ⟨fun hk' => h.1 (halive hk'), h.2⟩
  | xTaskResumeAll => exact hs.trans h
  | vTaskDelay | xTaskDelayUntil | vTaskPlaceOnEventList =>
    rw [At, hs]
    exact ⟨hready h.1, h.2⟩

end Stage

namespace Machine

variable {T E : Type} {idle c : T} {m m' : Machine T E} {k : Scheduler T E} {W : Set T}
  {w : T → TickType_t}

/-! ### The cases -/

/-- A step of the running task `c`, or an interrupt that wakes tasks. -/
lemma ConsistentAt.next (h : ConsistentAt idle c m) {s : T → Stage T E} (hsound : k.Sound)
    (htimely : k.Timely) (hcurrent : k.pxCurrentTCB = m.scheduler.pxCurrentTCB)
    (hrunning : k.xSchedulerRunning = m.scheduler.xSchedulerRunning) (hidle : k.Ready idle 0)
    (hsettled : k.uxSchedulerSuspended = 0 →
      k.events.items .xPendingReadyList = [] ∧ k.xPendedTicks = 0)
    (haway : ∀ t ≠ c, s t = .own ∨ s t = m.stage t ∧ (k.Alive t → m.scheduler.Alive t))
    (hhere : (s c).At k idle c) (hscheduled : k.Scheduled c (s c)) :
    ConsistentAt idle c ⟨k, s, w⟩ where
  sound := hsound
  timely := htimely
  current := hcurrent.trans h.current
  running := hrunning.trans h.running
  idle_ready := hidle
  settled := hsettled
  here := hhere
  away := by
    intro t ht
    dsimp only
    rcases haway t ht with heq | ⟨heq, halive⟩
    · rw [heq]
      trivial
    · rw [heq]
      exact (h.away t ht).mono halive
  scheduled := hscheduled

/-- A step that keeps the stages, and after which the same tasks or more are ready. -/
lemma ConsistentAt.wakes (h : ConsistentAt idle c m) (hw : Scheduler.Wakes m.scheduler k W)
    (hsound : k.Sound) (htimely : k.Timely)
    (hs : k.uxSchedulerSuspended = m.scheduler.uxSchedulerSuspended)
    (hpended : m.scheduler.uxSchedulerSuspended = 0 → m.scheduler.xPendedTicks = 0 →
      k.xPendedTicks = 0)
    (hpendSV : m.scheduler.pendSV = true → k.pendSV = true)
    (hswitch : m.scheduler.xYieldPending = true ∨
      (∃ t ∈ W, m.scheduler.uxPriority c < m.scheduler.uxPriority t) →
        k.pendSV = true ∨ k.xYieldPending = true) : ConsistentAt idle c ⟨k, m.stage, w⟩ := by
  refine h.next hsound htimely hw.current hw.running (hw.ready_mono h.idle_ready) ?_
    (fun t _ => .inr ⟨rfl, hw.alive⟩) (h.here.mono hw.isReady hw.alive hpendSV hs)
    (h.scheduled.wakes hw hpendSV hswitch)
  intro hzero
  rw [hs] at hzero
  obtain ⟨hempty, hnone⟩ := h.settled hzero
  exact ⟨List.sublist_nil.1 (hempty ▸ hw.event_items _), hpended hzero hnone⟩

lemma ConsistentAt.ticked (h : ConsistentAt idle c m) {b : Bool}
    (htick : Scheduler.Ticked m.scheduler k)
    (hb : m.scheduler.xYieldPending = true ∨
      (∃ t ∈ m.scheduler.Due, m.scheduler.uxPriority c < m.scheduler.uxPriority t) ∨
      1 < (k.states.items (.pxReadyTasksLists (m.scheduler.uxPriority c))).length → b = true) :
    ConsistentAt idle c ⟨{ k with pendSV := m.scheduler.pendSV || b }, m.stage, w⟩ := by
  refine h.wakes (htick.wakes.same ⟨rfl, rfl, rfl, rfl, rfl, rfl, rfl⟩)
    (htick.sound.congr rfl rfl rfl rfl rfl rfl rfl rfl)
    ⟨htick.timely.delayed, htick.timely.overflow, htick.timely.unblock⟩ htick.suspended
    (fun _ hnone => htick.pended.trans hnone) (fun hp => by simp [hp]) fun hor => .inl ?_
  dsimp only
  rw [hb (hor.imp_right .inl), Bool.or_true]

lemma ConsistentAt.deferred (h : ConsistentAt idle c m)
    (hs : m.scheduler.uxSchedulerSuspended ≠ 0) :
    ConsistentAt idle c
      ⟨{ m.scheduler with pendSV := false, xYieldPending := true }, m.stage, w⟩ := by
  refine h.next (h.sound.congr rfl rfl rfl rfl rfl rfl rfl rfl)
    ⟨h.timely.delayed, h.timely.overflow, h.timely.unblock⟩ rfl rfl h.idle_ready
    (fun hzero => absurd hzero hs) (fun t _ => .inr ⟨rfl, id⟩) ?_ (.inr (.inl rfl))
  have hhere := h.here
  cases hstage : m.stage c with
  | own =>
    rw [hstage] at hhere
    exact .inl (hhere.resolve_right fun hand => hs hand.2)
  | _ =>
    rw [hstage] at hhere
    exact hhere

/-- A task in its own code is not about to check the priority of a new one. -/
lemma Runs.stage_ne (h : m.Runs c) (t : T) : m.stage c ≠ .prvAddNewTaskToReadyList t := by
  rw [h.2.1]
  rintro ⟨⟩

lemma Runs.here (h : m.Runs c) (hready : k.IsReady c) : (m.stage c).At k idle c := by
  rw [h.2.1]
  exact .inl hready

/-- The running task suspends the scheduler once more, or resumes it and leaves it suspended. -/
lemma ConsistentAt.suspends (h : ConsistentAt idle c m) (hrun : m.Runs c) (n : ℕ) :
    ConsistentAt idle c ⟨{ m.scheduler with uxSchedulerSuspended := n + 1 }, m.stage, w⟩ := by
  refine h.next (h.sound.congr rfl rfl rfl rfl rfl rfl rfl rfl)
    ⟨h.timely.delayed, h.timely.overflow, h.timely.unblock⟩ rfl rfl h.idle_ready
    (fun hzero => absurd hzero (Nat.succ_ne_zero n)) (fun _ _ => .inr ⟨rfl, id⟩)
    (hrun.here ?_) h.scheduled
  exact h.isReady hrun

variable [DecidableEq T]

/-- The stage of `c` only is changed. -/
lemma away_update (s : Stage T E) (halive : ∀ t ≠ c, k.Alive t → m.scheduler.Alive t) :
    ∀ t ≠ c, Function.update m.stage c s t = .own ∨
      Function.update m.stage c s t = m.stage t ∧ (k.Alive t → m.scheduler.Alive t) :=
  fun t ht => .inr ⟨Function.update_of_ne ht _ _, halive t ht⟩

/-- The running task goes on to another stage. -/
lemma ConsistentAt.enters (h : ConsistentAt idle c m)
    (hstage : ∀ t, m.stage c ≠ .prvAddNewTaskToReadyList t) {s : Stage T E}
    (hhere : s.At m.scheduler idle c) :
    ConsistentAt idle c ⟨m.scheduler, Function.update m.stage c s, w⟩ := by
  refine h.next h.sound h.timely rfl rfl h.idle_ready h.settled (away_update _ fun _ _ => id) ?_
    (h.scheduled.stage hstage _)
  rw [Function.update_self]
  exact hhere

/-- The running task begins a call in which it may block. -/
lemma ConsistentAt.called (h : ConsistentAt idle c m) (hc : m.MayBlock idle c) {n : TickType_t}
    (hn : n ≠ 0) {s : Stage T E}
    (hs : s = .vTaskDelay n ∨ (∃ u, s = .xTaskDelayUntil u n) ∨
      ∃ e, s = .vTaskPlaceOnEventList e n) :
    ConsistentAt idle c ⟨m.scheduler.vTaskSuspendAll, Function.update m.stage c s, w⟩ := by
  have hblock : m.scheduler.vTaskSuspendAll.IsReady c ∧
      m.scheduler.vTaskSuspendAll.uxSchedulerSuspended = 1 ∧ c ≠ idle ∧ n ≠ 0 :=
    ⟨h.isReady hc.1, congrArg (· + 1) hc.2.1, hc.2.2, hn⟩
  have hsuspended := h.suspends (w := w) hc.1 m.scheduler.uxSchedulerSuspended
  refine hsuspended.enters hc.1.stage_ne ?_
  rcases hs with rfl | ⟨u, rfl⟩ | ⟨e, rfl⟩ <;> exact hblock

lemma ConsistentAt.signalled (h : ConsistentAt idle c m) {t : T} {e : E} (b : Bool)
    (ht : m.scheduler.events.head (.pxEventList e) = some t)
    (hk : Scheduler.Signalled m.scheduler t k) :
    ConsistentAt idle c ⟨{ k with
      xYieldPending := m.scheduler.xYieldPending ||
        decide (m.scheduler.uxPriority c < m.scheduler.uxPriority t)
      pendSV := m.scheduler.pendSV ||
        (b && decide (m.scheduler.uxPriority c < m.scheduler.uxPriority t)) }, m.stage, w⟩ := by
  have hcontainer := Rotas.mem_iff.1 (List.mem_of_mem_head? ht)
  have hevent : m.scheduler.events.container t ≠ none := by
    rw [hcontainer]
    exact Option.some_ne_none _
  have hwaits := h.sound.events.waits t hevent
  rcases hk with ⟨hs, hunblocks⟩ | ⟨hs, hholds, -, -⟩
  · have hw := hunblocks.wakes hwaits
    have hframe := hunblocks.rest
    have hdelayed : k.pxDelayedTaskList = m.scheduler.pxDelayedTaskList := by rw [hframe]
    have hoverflow : k.pxOverflowDelayedTaskList = m.scheduler.pxOverflowDelayedTaskList := by
      rw [hframe]
    have hcount : k.xTickCount = m.scheduler.xTickCount := by rw [hframe]
    have hunblock : k.xNextTaskUnblockTime = m.scheduler.xNextTaskUnblockTime := by rw [hframe]
    have hsuspended : k.uxSchedulerSuspended = m.scheduler.uxSchedulerSuspended := by rw [hframe]
    have hpended : k.xPendedTicks = m.scheduler.xPendedTicks := by rw [hframe]
    have htimely := h.timely.wakes h.sound.states hw hdelayed hoverflow hcount hunblock
    refine h.wakes (hw.same ⟨rfl, rfl, rfl, rfl, rfl, rfl, rfl⟩)
      ((hunblocks.sound h.sound hwaits).congr rfl rfl rfl rfl rfl rfl rfl rfl)
      ⟨htimely.delayed, htimely.overflow, htimely.unblock⟩ hsuspended
      (fun _ hnone => hpended.trans hnone) (fun hp => by simp [hp]) fun hor => .inr ?_
    rcases hor with hy | ⟨u, rfl, hlt⟩
    · simp [hy]
    · simp [hlt]
  · have hframe := hholds.rest
    have hstates : k.states = m.scheduler.states := by rw [hframe]
    have hsound := hholds.sound h.sound hevent
    have hready : ∀ u p, k.Ready u p ↔ m.scheduler.Ready u p := fun u p => by
      rw [Scheduler.Ready, hstates, Scheduler.Ready]
    have hpriority : k.uxPriority = m.scheduler.uxPriority := by rw [hframe]
    have htimely : k.Timely := by
      rw [hframe]
      exact ⟨h.timely.delayed, h.timely.overflow, h.timely.unblock⟩
    have hsuspended : k.uxSchedulerSuspended = m.scheduler.uxSchedulerSuspended := by rw [hframe]
    have halive : ∀ u, k.Alive u ↔ m.scheduler.Alive u := fun u =>
      Scheduler.alive_congr (by rw [hstates])
    refine h.next (hsound.congr rfl rfl rfl rfl rfl rfl rfl rfl)
      ⟨htimely.delayed, htimely.overflow, htimely.unblock⟩ (by rw [hframe]) (by rw [hframe])
      ((hready _ _).2 h.idle_ready) (fun hzero => absurd (hsuspended.symm.trans hzero) hs)
      (fun u _ => .inr ⟨rfl, (halive u).1⟩)
      (h.here.mono (fun hr => ?_) (halive c).1 (fun hp => by simp [hp]) hsuspended)
      (h.scheduled.mono hpriority (fun u p => (hready u p).1) (fun hp => by simp [hp])
        (fun hy => by simp [hy]))
    rw [Scheduler.IsReady]
    dsimp only
    rw [hpriority]
    exact (hready c _).2 hr

/-- The task that is selected goes on where it stopped. -/
lemma ConsistentAt.switched (h : ConsistentAt idle c m) {c' : T} {p : Fin configMAX_PRIORITIES}
    (hs : m.scheduler.uxSchedulerSuspended = 0)
    (hk : Scheduler.Switched { m.scheduler with pendSV := false } k c' p) :
    ConsistentAt idle c' ⟨k, m.stage, w⟩ := by
  have hsound : ({ m.scheduler with pendSV := false } : Scheduler T E).Sound :=
    h.sound.congr rfl rfl rfl rfl rfl rfl rfl rfl
  have hframe := hk.rest
  have hpriority : k.uxPriority = m.scheduler.uxPriority := by rw [hframe]
  have hready : ∀ u q, k.Ready u q ↔ m.scheduler.Ready u q := fun u q => by
    rw [Scheduler.Ready, hk.container, Scheduler.Ready]
  have halive : ∀ u, k.Alive u ↔ m.scheduler.Alive u := fun u =>
    Scheduler.alive_congr (by rw [hk.container])
  have hp : k.uxPriority c' = p := by
    rw [hpriority]
    exact h.sound.states.priority c' p hk.ready
  have haway : ∀ t, (m.stage t).Away k t := by
    intro t
    by_cases htc : t = c
    · rw [htc]
      exact (h.here.away hs).mono (halive c).1
    · exact (h.away t htc).mono (halive t).1
  constructor
  case sound => exact hk.sound hsound
  case timely =>
    exact hk.timely ⟨h.timely.delayed, h.timely.overflow, h.timely.unblock⟩
  case current => rw [hframe]
  case running => exact Eq.trans (by rw [hframe]) h.running
  case idle_ready => exact (hready idle 0).2 h.idle_ready
  case settled =>
    intro _
    have hevents : k.events = m.scheduler.events := by rw [hframe]
    have hpended : k.xPendedTicks = m.scheduler.xPendedTicks := by rw [hframe]
    dsimp only
    rw [hevents, hpended]
    exact h.settled hs
  case here =>
    refine (haway c').here ?_
    rw [Scheduler.IsReady, hp]
    exact (hready c' p).2 hk.ready
  case away => exact fun t _ => haway t
  case scheduled =>
    refine .inr (.inr fun t q ht => .inr ?_)
    dsimp only
    rw [hp]
    exact hk.highest t q ((hready t q).1 ht)

/-- The scheduler is resumed by the running task. -/
lemma ConsistentAt.resumed (h : ConsistentAt idle c m) {s : T → Stage T E} {b : Bool}
    (hk : Scheduler.Resumed m.scheduler c k b W)
    (hs : m.Runs c ∧ s = m.stage ∨ m.stage c = .xTaskResumeAll ∧
      s = Function.update m.stage c (if b then .own else .taskYIELD_WITHIN_API)) :
    ConsistentAt idle c ⟨k, s, w⟩ := by
  have hscheduled : k.Scheduled c (m.stage c) := by
    refine h.scheduled.wakes hk.wakes (fun hp => ?_) fun hor => .inl ?_
    · rw [hk.pendSV, hp, Bool.true_or]
    · rw [hk.pendSV, hk.switch hor, Bool.or_true]
  have hsettled : k.uxSchedulerSuspended = 0 →
      k.events.items .xPendingReadyList = [] ∧ k.xPendedTicks = 0 :=
    fun _ => ⟨hk.settled, hk.pended⟩
  have hidle := hk.wakes.ready_mono h.idle_ready
  rcases hs with ⟨hrun, rfl⟩ | ⟨hstage, rfl⟩
  · refine h.next hk.sound hk.timely hk.wakes.current hk.wakes.running hidle hsettled
      (fun t _ => .inr ⟨rfl, hk.wakes.alive⟩) (hrun.here ?_) hscheduled
    exact hk.wakes.isReady (h.isReady hrun)
  · refine h.next hk.sound hk.timely hk.wakes.current hk.wakes.running hidle hsettled
      (away_update _ fun t _ => hk.wakes.alive) ?_ ?_
    · rw [Function.update_self]
      split_ifs with hb
      · exact .inr ⟨by rw [hk.pendSV, hb, Bool.or_true], hk.suspended⟩
      · exact .inr hk.suspended
    · exact hscheduled.stage (by simp [hstage]) _

lemma ConsistentAt.yielded (h : ConsistentAt idle c m)
    (hs : m.Runs c ∨ m.stage c = .taskYIELD_WITHIN_API ∨ m.stage c = .vTaskDelete) :
    ConsistentAt idle c ⟨m.scheduler.portYIELD, Function.update m.stage c .own, w⟩ := by
  refine h.next (h.sound.congr rfl rfl rfl rfl rfl rfl rfl rfl)
    ⟨h.timely.delayed, h.timely.overflow, h.timely.unblock⟩ rfl rfl h.idle_ready h.settled
    (away_update _ fun _ _ => id) ?_ (.inl rfl)
  rw [Function.update_self]
  have hhere := h.here
  rcases hs with hrun | hstage | hstage
  · exact .inl (h.isReady hrun)
  · rw [hstage] at hhere
    exact hhere.imp id fun hzero => ⟨rfl, hzero⟩
  · rw [hstage] at hhere
    exact .inr ⟨rfl, hhere.2⟩

lemma ConsistentAt.created (h : ConsistentAt idle c m) (hrun : m.Runs c) {t : T}
    {p : Fin configMAX_PRIORITIES} (ht : m.scheduler.states.container t = none)
    (hk : Scheduler.Creates m.scheduler t p k) :
    ConsistentAt idle c ⟨k, Function.update (Function.update m.stage t .own) c
      (.prvAddNewTaskToReadyList t), w⟩ := by
  have hready := h.isReady hrun
  have hne : c ≠ t := by
    rintro rfl
    rw [Scheduler.IsReady, Scheduler.Ready, ht] at hready
    cases hready
  have hframe := hk.rest
  have hpriority : k.uxPriority c = m.scheduler.uxPriority c := by
    rw [hk.priority, Function.update_of_ne hne]
  have hcurrent : k.pxCurrentTCB = m.scheduler.pxCurrentTCB := by
    have heq : k.pxCurrentTCB = m.scheduler.currentAfter t p := by rw [hframe]
    rw [heq, Scheduler.currentAfter, h.current]
    simp [h.running]
  refine h.next (hk.sound h.sound ht) (hk.timely h.sound.states h.timely) hcurrent
    (by rw [hframe]) ((hk.ready_iff ht).2 (.inr h.idle_ready)) ?_ (fun u hu => ?_) ?_ ?_
  · have hsuspended : k.uxSchedulerSuspended = m.scheduler.uxSchedulerSuspended := by rw [hframe]
    have hpended : k.xPendedTicks = m.scheduler.xPendedTicks := by rw [hframe]
    have hitems : k.events.items .xPendingReadyList =
        m.scheduler.events.items .xPendingReadyList := by
      rw [Rotas.items, hk.event_rota]
      rfl
    rw [hsuspended, hpended, hitems]
    exact h.settled
  · rw [Function.update_of_ne hu]
    by_cases hut : u = t
    · exact .inl (by rw [hut, Function.update_self])
    · refine .inr ⟨Function.update_of_ne hut _ _, (Scheduler.alive_congr ?_).1⟩
      rw [hk.states.container, Function.update_of_ne hut]
  · rw [Function.update_self]
    show k.IsReady c
    rw [Scheduler.IsReady, hpriority]
    exact (hk.ready_iff ht).2 (.inr hready)
  · rw [Function.update_self]
    rcases h.scheduled with hp | hy | hle
    · exact .inl (Eq.trans (by rw [hframe]) hp)
    · exact .inr (.inl (Eq.trans (by rw [hframe]) hy))
    · refine .inr (.inr fun u q hu => ?_)
      rw [hpriority]
      rcases (hk.ready_iff ht).1 hu with ⟨rfl, -⟩ | hold
      · exact .inl rfl
      · exact .inr ((hle u q hold).resolve_left (hrun.stage_ne u))

/-- The fields that a deleted task does not change. -/
lemma ConsistentAt.leaves (h : ConsistentAt idle c m) {t : T} (hti : t ≠ idle)
    (hk : Scheduler.Leaves m.scheduler t k) (hsound : k.Sound) (s : Stage T E)
    (hhere : s.At k idle c)
    (hs : ∀ t, m.stage c = .prvAddNewTaskToReadyList t → s = m.stage c) :
    ConsistentAt idle c ⟨k, Function.update m.stage c s, w⟩ := by
  have hframe := hk.rest
  have hsuspended : k.uxSchedulerSuspended = m.scheduler.uxSchedulerSuspended := by rw [hframe]
  have hpended : k.xPendedTicks = m.scheduler.xPendedTicks := by rw [hframe]
  refine h.next hsound (hk.timely h.sound.states h.timely) (by rw [hframe]) (by rw [hframe])
    (hk.ready_iff.2 ⟨hti.symm, h.idle_ready⟩) ?_ (away_update _ fun u _ hu => (hk.alive hu).2)
    ?_ ?_
  · rw [hsuspended, hpended, hk.event_items]
    refine fun hzero => (h.settled hzero).imp_left fun hempty => ?_
    rw [hempty]
    rfl
  · rw [Function.update_self]
    exact hhere
  · rw [Function.update_self]
    have hmono : k.Scheduled c (m.stage c) :=
      h.scheduled.mono (by rw [hframe]) (fun u p hu => (hk.ready_iff.1 hu).2)
        (fun hp => Eq.trans (by rw [hframe]) hp) (fun hy => Eq.trans (by rw [hframe]) hy)
    by_cases hcreate : ∃ t, m.stage c = .prvAddNewTaskToReadyList t
    · obtain ⟨t, ht⟩ := hcreate
      rwa [hs t ht]
    · exact hmono.stage (fun t ht => hcreate ⟨t, ht⟩) s

lemma ConsistentAt.blocked (h : ConsistentAt idle c m) {V : Rotas (EventList E) T TickType_t}
    {n : TickType_t} {b : Bool} (hc : c ≠ idle) (hn : n ≠ 0)
    (hk : Scheduler.Blocks { m.scheduler with events := V } c n b k) (hsound : k.Sound)
    (hs : k.uxSchedulerSuspended = 1)
    (hstage : ∀ t, m.stage c ≠ .prvAddNewTaskToReadyList t) :
    ConsistentAt idle c ⟨k, Function.update m.stage c .xTaskResumeAll, w⟩ := by
  have hstates := h.sound.states.withEvents V
  have hready : ∀ u p, k.Ready u p ↔ u ≠ c ∧ m.scheduler.Ready u p := fun u p =>
    hk.ready_iff hstates p
  have hpos : 0 < n.toNat := (BitVec.pos_iff_ne_zero n).2 hn
  refine h.next hsound
    (hk.timely hsound.states ⟨h.timely.delayed, h.timely.overflow, h.timely.unblock⟩ hpos)
    (by rw [hk.rest]) (by rw [hk.rest]) ((hready _ _).2 ⟨hc.symm, h.idle_ready⟩)
    (fun hzero => absurd (hs.symm.trans hzero) Nat.one_ne_zero)
    (away_update _ fun u hu => (Scheduler.alive_congr (hk.container_of_ne hu)).1) ?_ ?_
  · rw [Function.update_self]
    exact hs
  · rw [Function.update_self]
    have hmono : k.Scheduled c (m.stage c) :=
      h.scheduled.mono hk.priority (fun u p hu => ((hready u p).1 hu).2)
        (fun hp => Eq.trans (by rw [hk.rest]) hp) (fun hy => Eq.trans (by rw [hk.rest]) hy)
    exact hmono.stage hstage _

lemma ConsistentAt.checked (h : ConsistentAt idle c m) {t : T}
    (hstage : m.stage c = .prvAddNewTaskToReadyList t) :
    ConsistentAt idle c ⟨{ m.scheduler with
      pendSV := m.scheduler.pendSV ||
        decide (m.scheduler.uxPriority c < m.scheduler.uxPriority t) },
      Function.update m.stage c .own, w⟩ := by
  have hready := h.here
  have hscheduled := h.scheduled
  rw [hstage] at hready hscheduled
  refine h.next (h.sound.congr rfl rfl rfl rfl rfl rfl rfl rfl)
    ⟨h.timely.delayed, h.timely.overflow, h.timely.unblock⟩ rfl rfl h.idle_ready h.settled
    (away_update _ fun _ _ => id) ?_ ?_
  · rw [Function.update_self]
    exact .inl hready
  · rw [Function.update_self]
    by_cases hlt : m.scheduler.uxPriority c < m.scheduler.uxPriority t
    · exact .inl (by simp [hlt])
    · rcases hscheduled with hp | hy | hle
      · exact .inl (by simp [hp])
      · exact .inr (.inl hy)
      · refine .inr (.inr fun u q hu => .inr ?_)
        rcases hle u q hu with heq | hle
        · cases heq
          rw [← h.sound.states.priority t q hu]
          exact le_of_not_gt hlt
        · exact hle

/-! ### All transitions -/

variable [DecidableEq E] {a : Action T E}

/-- What every transition keeps. -/
lemma Transition.consistent (ht : Transition idle c m a m') (h : ConsistentAt idle c m) :
    ∃ c', ConsistentAt idle c' m' := by
  cases ht with
  | ticked _ htick hb => exact ⟨c, h.ticked htick hb⟩
  | pended hs =>
    refine ⟨c, h.wakes (Scheduler.SameTasks.wakes ⟨rfl, rfl, rfl, rfl, rfl, rfl, rfl⟩)
      (h.sound.congr rfl rfl rfl rfl rfl rfl rfl rfl)
      ⟨h.timely.delayed, h.timely.overflow, h.timely.unblock⟩ rfl (fun hzero => absurd hzero hs)
      id fun hor => .inr (hor.resolve_right ?_)⟩
    rintro ⟨t, ht, -⟩
    exact ht
  | unheard => exact ⟨c, h⟩
  | signalled ht hk => exact ⟨c, h.signalled _ ht hk⟩
  | switched hs hk => exact ⟨_, h.switched hs hk⟩
  | deferred hs => exact ⟨c, h.deferred hs⟩
  | suspended hrun => exact ⟨c, h.suspends hrun _⟩
  | nested hrun => exact ⟨c, h.suspends hrun _⟩
  | resumed _ hk ha => exact ⟨c, h.resumed hk (ha.imp And.right And.right)⟩
  | yielded ha => exact ⟨c, h.yielded (ha.imp And.right And.right)⟩
  | called hc hs =>
    obtain ⟨n, hn, hs⟩ := hs
    exact ⟨c, h.called hc hn (hs.imp And.right (.imp (.imp fun _ => And.right)
      (.imp fun _ => And.right)))⟩
  | delayedNot hrun => exact ⟨c, h.enters hrun.stage_ne (.inl (h.isReady hrun))⟩
  | waitedNot => exact ⟨c, h⟩
  | created hrun ht hk => exact ⟨c, h.created hrun ht hk⟩
  | deletedSelf hc _ hk hsound hgone =>
    refine ⟨c, h.leaves hc.2.2 hk hsound _ ⟨fun halive => (hk.alive halive).1 rfl, ?_⟩ ?_⟩
    · exact Eq.trans (by rw [hk.rest]) hc.2.1
    · exact fun t ht => absurd ht (hc.1.stage_ne t)
  | @deletedOther t _ hrun htc hti _ hk hsound =>
    refine ⟨c, ?_⟩
    have hready := hk.isReady htc.symm (h.isReady hrun)
    have hleaves := h.leaves (w := m.xPreviousWakeTime) hti hk hsound (m.stage c)
      (hrun.here hready) fun _ _ => rfl
    rwa [Function.update_eq_self] at hleaves
  | cleanedNot => exact ⟨c, h⟩
  | @cleaned t _ hrun ht hk hsound =>
    obtain rfl := h.runs hrun
    have hti : t ≠ idle := by
      rintro rfl
      have heq := h.idle_ready.symm.trans ht
      simp at heq
    refine ⟨idle, ?_⟩
    have hready := hk.isReady hti.symm (h.isReady hrun)
    have hleaves := h.leaves (w := m.xPreviousWakeTime) hti hk hsound (m.stage idle)
      (hrun.here hready) fun _ _ => rfl
    rwa [Function.update_eq_self] at hleaves
  | @blocked V _ _ _ hready hs hc hn hstage hk hsound hV =>
    refine ⟨c, h.blocked hc hn hk hsound ?_ fun t ht => ?_⟩
    · exact Eq.trans (by rw [hk.rest]) hs
    · rw [ht] at hstage
      exact hstage
  | late hs hstage =>
    refine ⟨c, h.enters (fun t => ?_) hs⟩
    rw [hstage]
    rintro ⟨⟩
  | @checked t hstage => exact ⟨c, h.checked hstage⟩

end Machine

end RT1064.Kernel
