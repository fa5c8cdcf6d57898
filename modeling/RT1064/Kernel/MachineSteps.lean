import RT1064.Kernel.Machine

/-!
# What a step does

`ConsistentAt` is the invariant of the machine. From a state in which it holds, each action that is
allowed has a next state, and `Transition` says what the action did. All that is proved of runs
follows from the cases of `Transition`.
-/

namespace RT1064.Kernel

open Core

namespace Scheduler

variable {T E : Type}

def IsReady (k : Scheduler T E) (t : T) : Prop := k.Ready t (k.uxPriority t)

/-- The running task has the highest priority of all that are ready, apart from a task that it
created a moment ago; or a switch is pending. -/
def Scheduled (k : Scheduler T E) (c : T) (s : Stage T E) : Prop :=
  k.pendSV = true ∨ k.xYieldPending = true ∨
    ∀ t p, k.Ready t p → s = .prvAddNewTaskToReadyList t ∨ p ≤ k.uxPriority c

end Scheduler

namespace Stage

variable {T E : Type}

/-- What holds of the running task at a stage. -/
def At (s : Stage T E) (k : Scheduler T E) (idle c : T) : Prop :=
  match s with
  | .own                                                      =>
    k.IsReady c ∨ k.pendSV = true ∧ k.uxSchedulerSuspended = 0
  | .vTaskDelay n | .xTaskDelayUntil _ n | .vTaskPlaceOnEventList _ n =>
    k.IsReady c ∧ k.uxSchedulerSuspended = 1 ∧ c ≠ idle ∧ n ≠ 0
  | .xTaskResumeAll                                           => k.uxSchedulerSuspended = 1
  | .taskYIELD_WITHIN_API                                     =>
    k.IsReady c ∨ k.uxSchedulerSuspended = 0
  | .prvAddNewTaskToReadyList _                               => k.IsReady c
  | .vTaskDelete                                              =>
    ¬ k.Alive c ∧ k.uxSchedulerSuspended = 0

/-- What holds of another task at a stage. -/
def Away (s : Stage T E) (k : Scheduler T E) (t : T) : Prop :=
  match s with
  | .own | .taskYIELD_WITHIN_API | .prvAddNewTaskToReadyList _ => True
  | .vTaskDelete                                               => ¬ k.Alive t
  | .vTaskDelay _ | .xTaskDelayUntil _ _ | .vTaskPlaceOnEventList _ _ | .xTaskResumeAll => False

end Stage

namespace Machine

variable {T E : Type}

/-- The invariant of the machine, while `c` is the running task. -/
structure ConsistentAt (idle c : T) (m : Machine T E) : Prop where
  sound : m.scheduler.Sound
  timely : m.scheduler.Timely
  current : m.scheduler.pxCurrentTCB = some c
  running : m.scheduler.xSchedulerRunning = true
  idle_ready : m.scheduler.Ready idle 0
  settled : m.scheduler.uxSchedulerSuspended = 0 →
    m.scheduler.events.items .xPendingReadyList = [] ∧ m.scheduler.xPendedTicks = 0
  here : (m.stage c).At m.scheduler idle c
  away : ∀ t ≠ c, (m.stage t).Away m.scheduler t
  scheduled : m.scheduler.Scheduled c (m.stage c)

variable [DecidableEq T] [DecidableEq E]

/-- How many ticks a task is to wait at a stage, and whether it may wait without end. -/
def Blocking (k : Scheduler T E) : Stage T E → TickType_t → Bool → Prop
  | .vTaskDelay xTicksToDelay, n, b                         => n = xTicksToDelay ∧ b = false
  | .xTaskDelayUntil xPreviousWakeTime xTimeIncrement, n, b =>
    n = xPreviousWakeTime + xTimeIncrement - k.xTickCount ∧ b = false ∧
      k.xTickCount - xPreviousWakeTime < xTimeIncrement
  | .vTaskPlaceOnEventList _ xTicksToWait, n, b             => n = xTicksToWait ∧ b = true
  | _, _, _                                                 => False

/-- The variables of the tasks for `xTaskDelayUntil` behind the critical part of a call. -/
def wakeTimes (m : Machine T E) (c : T) : T → TickType_t :=
  match m.stage c with
  | .xTaskDelayUntil xPreviousWakeTime xTimeIncrement =>
    Function.update m.xPreviousWakeTime c (xPreviousWakeTime + xTimeIncrement)
  | _ => m.xPreviousWakeTime

/-- What happened in a step. -/
inductive Transition (idle c : T) (m : Machine T E) : Action T E → Machine T E → Prop
  | ticked {k : Scheduler T E} {b : Bool} (hs : m.scheduler.uxSchedulerSuspended = 0)
      (h : Scheduler.Ticked m.scheduler k)
      (hb : m.scheduler.xYieldPending = true ∨
        (∃ t ∈ m.scheduler.Due, m.scheduler.uxPriority c < m.scheduler.uxPriority t) ∨
        1 < (k.states.items (.pxReadyTasksLists (m.scheduler.uxPriority c))).length → b = true) :
      Transition idle c m .xPortSysTickHandler
        ⟨{ k with pendSV := m.scheduler.pendSV || b }, m.stage, m.xPreviousWakeTime⟩
  | pended (hs : m.scheduler.uxSchedulerSuspended ≠ 0) :
      Transition idle c m .xPortSysTickHandler
        ⟨{ m.scheduler with xPendedTicks := m.scheduler.xPendedTicks + 1 }, m.stage,
          m.xPreviousWakeTime⟩
  | unheard {e : E} {b : Bool} (h : m.scheduler.events.head (.pxEventList e) = none) :
      Transition idle c m (.signal e b) m
  | signalled {e : E} {b : Bool} {t : T} {k : Scheduler T E}
      (ht : m.scheduler.events.head (.pxEventList e) = some t)
      (h : Scheduler.Signalled m.scheduler t k) :
      Transition idle c m (.signal e b) ⟨{ k with
        xYieldPending := m.scheduler.xYieldPending ||
          decide (m.scheduler.uxPriority c < m.scheduler.uxPriority t)
        pendSV := m.scheduler.pendSV ||
          (b && decide (m.scheduler.uxPriority c < m.scheduler.uxPriority t)) }, m.stage,
        m.xPreviousWakeTime⟩
  | switched {k : Scheduler T E} {c' : T} {p : Fin configMAX_PRIORITIES}
      (hs : m.scheduler.uxSchedulerSuspended = 0)
      (h : Scheduler.Switched { m.scheduler with pendSV := false } k c' p) :
      Transition idle c m .xPortPendSVHandler ⟨k, m.stage, m.xPreviousWakeTime⟩
  | deferred (hs : m.scheduler.uxSchedulerSuspended ≠ 0) :
      Transition idle c m .xPortPendSVHandler
        ⟨{ m.scheduler with pendSV := false, xYieldPending := true }, m.stage,
          m.xPreviousWakeTime⟩
  | suspended (h : m.Runs c) :
      Transition idle c m .vTaskSuspendAll
        ⟨m.scheduler.vTaskSuspendAll, m.stage, m.xPreviousWakeTime⟩
  | nested {n : ℕ} (h : m.Runs c) (hs : m.scheduler.uxSchedulerSuspended = n + 2) :
      Transition idle c m .xTaskResumeAll
        ⟨{ m.scheduler with uxSchedulerSuspended := n + 1 }, m.stage, m.xPreviousWakeTime⟩
  | resumed {a : Action T E} {s : T → Stage T E} {k : Scheduler T E} {b : Bool} {W : Set T}
      (hs : m.scheduler.uxSchedulerSuspended = 1) (h : Scheduler.Resumed m.scheduler c k b W)
      (ha : a = .xTaskResumeAll ∧ m.Runs c ∧ s = m.stage ∨
        a = .proceed ∧ m.stage c = .xTaskResumeAll ∧
          s = Function.update m.stage c (if b then .own else .taskYIELD_WITHIN_API)) :
      Transition idle c m a ⟨k, s, m.xPreviousWakeTime⟩
  | yielded {a : Action T E}
      (ha : a = .taskYIELD ∧ m.Runs c ∨ a = .proceed ∧
        (m.stage c = .taskYIELD_WITHIN_API ∨ m.stage c = .vTaskDelete)) :
      Transition idle c m a
        ⟨m.scheduler.portYIELD, Function.update m.stage c .own, m.xPreviousWakeTime⟩
  | called {a : Action T E} {s : Stage T E} (h : m.MayBlock idle c)
      (hs : ∃ n, n ≠ 0 ∧ (a = .vTaskDelay n ∧ s = .vTaskDelay n ∨
        (∃ u, a = .xTaskDelayUntil u n ∧ s = .xTaskDelayUntil u n) ∨
        ∃ e, a = .wait e n ∧ s = .vTaskPlaceOnEventList e n)) :
      Transition idle c m a
        ⟨m.scheduler.vTaskSuspendAll, Function.update m.stage c s, m.xPreviousWakeTime⟩
  | delayedNot (h : m.Runs c) :
      Transition idle c m (.vTaskDelay 0)
        ⟨m.scheduler, Function.update m.stage c .taskYIELD_WITHIN_API, m.xPreviousWakeTime⟩
  | waitedNot {e : E} (h : m.Runs c) : Transition idle c m (.wait e 0) m
  | created {t : T} {p : Fin configMAX_PRIORITIES} {k : Scheduler T E} (hrun : m.Runs c)
      (ht : m.scheduler.states.container t = none) (h : Scheduler.Creates m.scheduler t p k) :
      Transition idle c m (.xTaskCreate t p) ⟨k, Function.update (Function.update m.stage t .own) c
        (.prvAddNewTaskToReadyList t), m.xPreviousWakeTime⟩
  | deletedSelf {o : Option T} {k : Scheduler T E} (h : m.MayBlock idle c)
      (ho : o = none ∨ o = some c) (hleaves : Scheduler.Leaves m.scheduler c k) (hsound : k.Sound)
      (hgone : k.states.container c = some .xTasksWaitingTermination) :
      Transition idle c m (.vTaskDelete o)
        ⟨k, Function.update m.stage c .vTaskDelete, m.xPreviousWakeTime⟩
  | deletedOther {t : T} {k : Scheduler T E} (h : m.Runs c) (htc : t ≠ c) (hti : t ≠ idle)
      (ht : m.scheduler.Alive t) (hleaves : Scheduler.Leaves m.scheduler t k) (hsound : k.Sound) :
      Transition idle c m (.vTaskDelete (some t)) ⟨k, m.stage, m.xPreviousWakeTime⟩
  | cleanedNot (h : m.Runs idle) : Transition idle c m .prvCheckTasksWaitingTermination m
  | cleaned {t : T} {k : Scheduler T E} (h : m.Runs idle)
      (ht : m.scheduler.states.container t = some .xTasksWaitingTermination)
      (hleaves : Scheduler.Leaves m.scheduler t k) (hsound : k.Sound) :
      Transition idle c m .prvCheckTasksWaitingTermination ⟨k, m.stage, m.xPreviousWakeTime⟩
  | blocked {V : Rotas (EventList E) T TickType_t} {n : TickType_t} {b : Bool}
      {k : Scheduler T E} (hready : m.scheduler.IsReady c)
      (hs : m.scheduler.uxSchedulerSuspended = 1) (hc : c ≠ idle) (hn : n ≠ 0)
      (hstage : Blocking m.scheduler (m.stage c) n b)
      (h : Scheduler.Blocks { m.scheduler with events := V } c n b k) (hsound : k.Sound)
      (hV : V = m.scheduler.events ∧ b = false ∨
        ∃ e, m.stage c = .vTaskPlaceOnEventList e n ∧ b = true ∧
          m.scheduler.events.Changed (.pxEventList e)
            ((m.scheduler.events.rota (.pxEventList e)).insertAfter
              (fun j => m.scheduler.events.key j ≤ m.scheduler.events.key c) c)
            (Function.update m.scheduler.events.container c (some (.pxEventList e))) V) :
      Transition idle c m .proceed ⟨k, Function.update m.stage c .xTaskResumeAll, m.wakeTimes c⟩
  | late {u n : TickType_t} (hs : m.scheduler.uxSchedulerSuspended = 1)
      (hstage : m.stage c = .xTaskDelayUntil u n) (hlate : n ≤ m.scheduler.xTickCount - u) :
      Transition idle c m .proceed
        ⟨m.scheduler, Function.update m.stage c .xTaskResumeAll, m.wakeTimes c⟩
  | checked {t : T} (hstage : m.stage c = .prvAddNewTaskToReadyList t) :
      Transition idle c m .proceed ⟨{ m.scheduler with
        pendSV := m.scheduler.pendSV ||
          decide (m.scheduler.uxPriority c < m.scheduler.uxPriority t) },
        Function.update m.stage c .own, m.xPreviousWakeTime⟩

/-! ### Every action that is allowed has a next state -/

section Exists

variable {idle c : T} {m : Machine T E}

omit [DecidableEq T] [DecidableEq E] in
lemma ConsistentAt.runs {d : T} (h : ConsistentAt idle c m) (hd : m.Runs d) : d = c :=
  Option.some_inj.1 (hd.1.symm.trans h.current)

omit [DecidableEq T] [DecidableEq E] in
/-- A task that begins a call is ready. -/
lemma ConsistentAt.isReady (h : ConsistentAt idle c m) (hrun : m.Runs c) :
    m.scheduler.IsReady c := by
  have hhere := h.here
  rw [hrun.2.1, Stage.At, hrun.2.2] at hhere
  exact hhere.resolve_right fun hand => Bool.false_ne_true hand.1

lemma ConsistentAt.tick (h : ConsistentAt idle c m) :
    ∃ m', m.step .xPortSysTickHandler = some m' ∧
      Transition idle c m .xPortSysTickHandler m' := by
  by_cases hs : m.scheduler.uxSchedulerSuspended = 0
  · obtain ⟨k, b, hrun, htick, hb⟩ :=
      Scheduler.xTaskIncrementTick_spec h.sound h.timely h.current hs
    refine ⟨_, ?_, .ticked hs htick hb⟩
    have hpendSV := htick.pendSV
    rw [step, h.current, Option.bind_eq_bind, Option.bind_some]
    dsimp only
    rw [Scheduler.xPortSysTickHandler, hrun]
    cases b
    · simp [← hpendSV]
    · simp [Scheduler.portYIELD]
  · refine ⟨_, ?_, .pended hs⟩
    rw [step, h.current, Option.bind_eq_bind, Option.bind_some]
    dsimp only
    rw [Scheduler.xPortSysTickHandler, Scheduler.xTaskIncrementTick, if_neg hs]
    rfl

lemma ConsistentAt.signal (h : ConsistentAt idle c m) (e : E) (b : Bool) :
    ∃ m', m.step (.signal e b) = some m' ∧ Transition idle c m (.signal e b) m' := by
  obtain ⟨k, hrun, ⟨hnone, rfl⟩ | ⟨t, k₁, ht, hk₁, rfl⟩⟩ :=
    Scheduler.signal_spec h.sound h.current e b
  · refine ⟨m, ?_, .unheard hnone⟩
    rw [step, h.current, Option.bind_eq_bind, Option.bind_some]
    dsimp only
    rw [hrun]
    rfl
  · refine ⟨_, ?_, .signalled ht hk₁⟩
    rw [step, h.current, Option.bind_eq_bind, Option.bind_some]
    dsimp only
    rw [hrun]
    rfl

lemma ConsistentAt.switch (h : ConsistentAt idle c m) :
    ∃ m', m.step .xPortPendSVHandler = some m' ∧
      Transition idle c m .xPortPendSVHandler m' := by
  by_cases hs : m.scheduler.uxSchedulerSuspended = 0
  · have hsound : ({ m.scheduler with pendSV := false } : Scheduler T E).Sound :=
      h.sound.congr rfl rfl rfl rfl rfl rfl rfl rfl
    obtain ⟨k, c', p, hrun, hk⟩ :=
      Scheduler.vTaskSwitchContext_spec hsound.states hs ⟨idle, 0, h.idle_ready⟩
    refine ⟨_, ?_, .switched hs hk⟩
    rw [step, h.current, Option.bind_eq_bind, Option.bind_some]
    dsimp only
    rw [Scheduler.xPortPendSVHandler, hrun]
    rfl
  · refine ⟨_, ?_, .deferred hs⟩
    rw [step, h.current, Option.bind_eq_bind, Option.bind_some]
    dsimp only
    rw [Scheduler.xPortPendSVHandler, Scheduler.vTaskSwitchContext, if_pos hs]
    rfl

omit [DecidableEq T] [DecidableEq E] in
lemma ConsistentAt.number_pos (h : ConsistentAt idle c m) :
    0 < m.scheduler.uxCurrentNumberOfTasks := by
  obtain ⟨F, hF, hcard⟩ := h.sound.states.number
  have hidle : idle ∈ F := (hF idle).2 (by rw [h.idle_ready]; exact Option.some_ne_none _)
  rw [hcard]
  exact Finset.card_pos.2 ⟨idle, hidle⟩

lemma ConsistentAt.resume (h : ConsistentAt idle c m) (hrun : m.Runs c)
    (hs : 0 < m.scheduler.uxSchedulerSuspended) :
    ∃ m', m.step .xTaskResumeAll = some m' ∧ Transition idle c m .xTaskResumeAll m' := by
  rcases hn : m.scheduler.uxSchedulerSuspended with _ | _ | n
  · omega
  · obtain ⟨k, b, W, hresume, hk⟩ :=
      Scheduler.xTaskResumeAll_spec h.sound h.timely h.current h.number_pos hn
    refine ⟨_, ?_, .resumed hn hk (.inl ⟨rfl, hrun, rfl⟩)⟩
    rw [step, h.current, Option.bind_eq_bind, Option.bind_some]
    dsimp only
    rw [hresume]
    rfl
  · refine ⟨_, ?_, .nested hrun hn⟩
    rw [step, h.current, Option.bind_eq_bind, Option.bind_some]
    dsimp only
    rw [Scheduler.xTaskResumeAll_nested hn]
    rfl

omit [DecidableEq E] in
/-- The stage of a task in its own code is not changed. -/
lemma Runs.update_own (h : m.Runs c) : Function.update m.stage c .own = m.stage := by
  rw [← h.2.1, Function.update_eq_self]

lemma ConsistentAt.yield (h : ConsistentAt idle c m) (hrun : m.Runs c) :
    ∃ m', m.step .taskYIELD = some m' ∧ Transition idle c m .taskYIELD m' := by
  refine ⟨_, ?_, .yielded (.inl ⟨rfl, hrun⟩)⟩
  rw [step, h.current, Option.bind_eq_bind, Option.bind_some, hrun.update_own]

lemma ConsistentAt.delay (h : ConsistentAt idle c m) (hrun : m.Runs c) {n : TickType_t}
    (hn : n ≠ 0 → m.MayBlock idle c) :
    ∃ m', m.step (.vTaskDelay n) = some m' ∧ Transition idle c m (.vTaskDelay n) m' := by
  by_cases hn0 : n = 0
  · subst hn0
    refine ⟨_, ?_, .delayedNot hrun⟩
    rw [step, h.current, Option.bind_eq_bind, Option.bind_some]
    exact if_neg (by simp)
  · refine ⟨_, ?_, .called (hn hn0) ⟨n, hn0, .inl ⟨rfl, rfl⟩⟩⟩
    rw [step, h.current, Option.bind_eq_bind, Option.bind_some]
    exact if_pos ((BitVec.pos_iff_ne_zero n).2 hn0)

lemma ConsistentAt.delayUntil (h : ConsistentAt idle c m) (hc : m.MayBlock idle c)
    (u : TickType_t) {n : TickType_t} (hn : n ≠ 0) :
    ∃ m', m.step (.xTaskDelayUntil u n) = some m' ∧
      Transition idle c m (.xTaskDelayUntil u n) m' := by
  refine ⟨_, ?_, .called hc ⟨n, hn, .inr (.inl ⟨u, rfl, rfl⟩)⟩⟩
  rw [step, h.current, Option.bind_eq_bind, Option.bind_some]
  exact if_pos ((BitVec.pos_iff_ne_zero n).2 hn)

lemma ConsistentAt.wait (h : ConsistentAt idle c m) (hrun : m.Runs c) (e : E) {n : TickType_t}
    (hn : n ≠ 0 → m.MayBlock idle c) :
    ∃ m', m.step (.wait e n) = some m' ∧ Transition idle c m (.wait e n) m' := by
  by_cases hn0 : n = 0
  · subst hn0
    refine ⟨m, ?_, .waitedNot hrun⟩
    rw [step, h.current, Option.bind_eq_bind, Option.bind_some]
    exact if_pos rfl
  · refine ⟨_, ?_, .called (hn hn0) ⟨n, hn0, .inr (.inr ⟨e, rfl, rfl⟩)⟩⟩
    rw [step, h.current, Option.bind_eq_bind, Option.bind_some]
    dsimp only
    rw [if_neg hn0]
    exact if_pos (hn hn0).2.1

lemma ConsistentAt.create (h : ConsistentAt idle c m) (hrun : m.Runs c) {t : T}
    (ht : m.scheduler.states.container t = none) (p : Fin configMAX_PRIORITIES) :
    ∃ m', m.step (.xTaskCreate t p) = some m' ∧ Transition idle c m (.xTaskCreate t p) m' := by
  have hne : m.scheduler.pxCurrentTCB ≠ some t := by
    rw [h.current]
    rintro ⟨⟩
    have hready := h.isReady hrun
    rw [Scheduler.IsReady, Scheduler.Ready, ht] at hready
    cases hready
  obtain ⟨k, hcreate, hk⟩ := Scheduler.prvAddNewTaskToReadyList_spec (p := p) ht hne
    fun hnone => absurd (h.current.symm.trans hnone) (Option.some_ne_none _)
  refine ⟨_, ?_, .created hrun ht hk⟩
  rw [step, h.current, Option.bind_eq_bind, Option.bind_some]
  dsimp only
  rw [Scheduler.xTaskCreate, hcreate]
  rfl

lemma ConsistentAt.deleteSelf (h : ConsistentAt idle c m) (hc : m.MayBlock idle c)
    {o : Option T} (ho : o = none ∨ o = some c) :
    ∃ m', m.step (.vTaskDelete o) = some m' ∧ Transition idle c m (.vTaskDelete o) m' := by
  obtain ⟨k, hdelete, hleaves, hgone, hdeleted, hnumber⟩ := Scheduler.vTaskDelete_self h.sound
    h.timely (.inr ⟨_, h.isReady hc.1⟩) h.running h.current
  have hsound := hleaves.sound_self h.sound hgone hdeleted hnumber
  refine ⟨_, ?_, .deletedSelf hc ho hleaves hsound hgone⟩
  have hget : o.getD c = c := by rcases ho with rfl | rfl <;> rfl
  rw [step, h.current, Option.bind_eq_bind, Option.bind_some]
  dsimp only
  rw [hget, hdelete, if_pos rfl]
  rfl

lemma ConsistentAt.deleteOther (h : ConsistentAt idle c m) (hrun : m.Runs c) {t : T}
    (htc : t ≠ c) (hti : t ≠ idle) (ht : m.scheduler.Alive t) :
    ∃ m', m.step (.vTaskDelete (some t)) = some m' ∧
      Transition idle c m (.vTaskDelete (some t)) m' := by
  have hne : m.scheduler.pxCurrentTCB ≠ some t := by
    rw [h.current]
    exact fun heq => htc (Option.some_inj.1 heq).symm
  obtain ⟨k, hdelete, hleaves, hgone, hdeleted, hnumber⟩ :=
    Scheduler.vTaskDelete_other h.sound ht hne
  have hsound := hleaves.sound_other h.sound hgone hdeleted hnumber
  refine ⟨_, ?_, .deletedOther hrun htc hti ht hleaves hsound⟩
  rw [step, h.current, Option.bind_eq_bind, Option.bind_some]
  dsimp only
  rw [Option.getD_some, hdelete, if_neg htc]
  rfl

lemma ConsistentAt.cleanUp (h : ConsistentAt idle c m) (hrun : m.Runs idle) :
    ∃ m', m.step .prvCheckTasksWaitingTermination = some m' ∧
      Transition idle c m .prvCheckTasksWaitingTermination m' := by
  obtain ⟨k, hclean, hk⟩ :=
    Scheduler.prvCheckTasksWaitingTermination_spec h.sound h.timely
  have hstep : m.step .prvCheckTasksWaitingTermination = some { m with scheduler := k } := by
    rw [step, h.current, Option.bind_eq_bind, Option.bind_some]
    dsimp only
    rw [hclean]
    rfl
  rcases hk with rfl | ⟨t, ht, hleaves, -, hsound⟩
  · exact ⟨_, hstep, .cleanedNot hrun⟩
  · exact ⟨_, hstep, .cleaned hrun ht hleaves hsound⟩

/-! ### The rest of a call -/

omit [DecidableEq T] [DecidableEq E] in
lemma ConsistentAt.isReady_stage (h : ConsistentAt idle c m) {s : Stage T E} {n : TickType_t}
    {b : Bool} (hs : m.stage c = s) (hblock : Blocking m.scheduler s n b) :
    m.scheduler.IsReady c ∧ m.scheduler.uxSchedulerSuspended = 1 ∧ c ≠ idle ∧ n ≠ 0 := by
  have hhere := h.here
  rw [hs] at hhere
  match s with
  | .vTaskDelay _ =>
    obtain ⟨rfl, -⟩ := hblock
    exact hhere
  | .xTaskDelayUntil u p =>
    obtain ⟨rfl, -, hlt⟩ := hblock
    exact ⟨hhere.1, hhere.2.1, hhere.2.2.1, by bv_omega⟩
  | .vTaskPlaceOnEventList _ _ =>
    obtain ⟨rfl, -⟩ := hblock
    exact hhere

/-- The running task waits for a number of ticks. -/
lemma ConsistentAt.block (h : ConsistentAt idle c m) {n : TickType_t}
    (hblock : Blocking m.scheduler (m.stage c) n false) :
    ∃ k, m.scheduler.prvAddCurrentTaskToDelayedList n false = some k ∧
      Transition idle c m .proceed
        ⟨k, Function.update m.stage c .xTaskResumeAll, m.wakeTimes c⟩ := by
  obtain ⟨hready, hs, hc, hn⟩ := h.isReady_stage rfl hblock
  obtain ⟨k, hadd, hk⟩ := Scheduler.prvAddCurrentTaskToDelayedList_spec h.sound.states h.current
    hready n false
  exact ⟨k, hadd, .blocked (V := m.scheduler.events) hready hs hc hn hblock hk
    (hk.sound h.sound hready) (.inl ⟨rfl, rfl⟩)⟩

lemma ConsistentAt.step_proceed (h : ConsistentAt idle c m) : m.step .proceed = m.proceed c := by
  rw [step, h.current, Option.bind_eq_bind, Option.bind_some]

lemma ConsistentAt.proceed (h : ConsistentAt idle c m) (hstage : m.stage c ≠ .own) :
    ∃ m', m.step .proceed = some m' ∧ Transition idle c m .proceed m' := by
  have hhere := h.here
  rw [h.step_proceed, Machine.proceed]
  cases hs : m.stage c with
  | own => exact absurd hs hstage
  | vTaskDelay n =>
    rw [hs] at hhere
    obtain ⟨k, hadd, hk⟩ := h.block (n := n) (by rw [hs]; exact ⟨rfl, rfl⟩)
    refine ⟨_, ?_, hk⟩
    dsimp only
    rw [Scheduler.vTaskDelayBlock, if_pos hhere.2.1, hadd, wakeTimes, hs]
    rfl
  | xTaskDelayUntil u p =>
    rw [hs] at hhere
    dsimp only
    rw [Scheduler.xTaskDelayUntilBlock_eq hhere.2.2.2 hhere.2.1]
    by_cases hlt : m.scheduler.xTickCount - u < p
    · obtain ⟨k, hadd, hk⟩ := h.block (by rw [hs]; exact ⟨rfl, rfl, hlt⟩)
      refine ⟨_, ?_, hk⟩
      rw [if_pos hlt, hadd, wakeTimes, hs]
      rfl
    · refine ⟨_, ?_, .late hhere.2.1 hs (BitVec.not_lt.1 hlt)⟩
      rw [if_neg hlt, wakeTimes, hs]
      rfl
  | vTaskPlaceOnEventList e n =>
    rw [hs] at hhere
    obtain ⟨V, k, hplace, hk, hV, hsound⟩ :=
      Scheduler.vTaskPlaceOnEventList_spec h.sound h.current hhere.1 e n
    refine ⟨_, ?_, .blocked hhere.1 hhere.2.1 hhere.2.2.1 hhere.2.2.2
      (by rw [hs]; exact ⟨rfl, rfl⟩) hk hsound (.inr ⟨e, hs, rfl, hV⟩)⟩
    dsimp only
    rw [hplace, wakeTimes, hs]
    rfl
  | xTaskResumeAll =>
    rw [hs] at hhere
    obtain ⟨k, b, W, hresume, hk⟩ :=
      Scheduler.xTaskResumeAll_spec h.sound h.timely h.current h.number_pos hhere
    refine ⟨_, ?_, .resumed hhere hk (.inr ⟨rfl, hs, rfl⟩)⟩
    dsimp only
    rw [hresume]
    rfl
  | taskYIELD_WITHIN_API => exact ⟨_, rfl, .yielded (.inr ⟨rfl, .inl hs⟩)⟩
  | prvAddNewTaskToReadyList t =>
    refine ⟨_, ?_, .checked hs⟩
    dsimp only
    rw [Scheduler.taskYIELD_ANY_CORE_eq h.current]
    rfl
  | vTaskDelete =>
    rw [hs] at hhere
    exact ⟨_, if_pos hhere.2, .yielded (.inr ⟨rfl, .inr hs⟩)⟩

/-- No assertion fails and no null pointer is followed. -/
lemma ConsistentAt.exists_transition (h : ConsistentAt idle c m) {a : Action T E}
    (ha : Allowed idle m a) : ∃ m', m.step a = some m' ∧ Transition idle c m a m' := by
  match a with
  | .xPortSysTickHandler => exact h.tick
  | .signal e b => exact h.signal e b
  | .xPortPendSVHandler => exact h.switch
  | .vTaskSuspendAll =>
    obtain ⟨⟨d, hd⟩, -⟩ := ha
    obtain rfl := h.runs hd
    refine ⟨_, ?_, .suspended hd⟩
    rw [step, h.current, Option.bind_eq_bind, Option.bind_some]
  | .xTaskResumeAll =>
    obtain ⟨⟨d, hd⟩, hs⟩ := ha
    obtain rfl := h.runs hd
    exact h.resume hd hs
  | .taskYIELD =>
    obtain ⟨d, hd⟩ := ha
    obtain rfl := h.runs hd
    exact h.yield hd
  | .vTaskDelay n =>
    obtain ⟨d, hd, hn⟩ := ha
    obtain rfl := h.runs hd
    exact h.delay hd hn
  | .xTaskDelayUntil u n =>
    obtain ⟨⟨d, hd⟩, hn⟩ := ha
    obtain rfl := h.runs hd.1
    exact h.delayUntil hd u hn
  | .wait e n =>
    obtain ⟨d, hd, hn⟩ := ha
    obtain rfl := h.runs hd
    exact h.wait hd e hn
  | .xTaskCreate t p =>
    obtain ⟨⟨d, hd⟩, ht⟩ := ha
    obtain rfl := h.runs hd
    exact h.create hd ht p
  | .vTaskDelete none =>
    obtain ⟨d, hd⟩ := ha
    obtain rfl := h.runs hd.1
    exact h.deleteSelf hd (.inl rfl)
  | .vTaskDelete (some t) =>
    obtain ⟨d, hd, hti, ht, hs⟩ := ha
    obtain rfl := h.runs hd
    by_cases htc : t = d
    · exact h.deleteSelf ⟨hd, hs htc, htc ▸ hti⟩ (.inr (congrArg some htc))
    · exact h.deleteOther hd htc hti ht
  | .prvCheckTasksWaitingTermination => exact h.cleanUp ha.1
  | .proceed =>
    obtain ⟨-, d, hd, hstage⟩ := ha
    obtain rfl := Option.some_inj.1 (hd.symm.trans h.current)
    exact h.proceed hstage

lemma ConsistentAt.transition (h : ConsistentAt idle c m) {a : Action T E} {m' : Machine T E}
    (ha : Allowed idle m a) (hstep : m.step a = some m') : Transition idle c m a m' := by
  obtain ⟨m₂, hstep₂, ht⟩ := h.exists_transition ha
  obtain rfl := Option.some_inj.1 (hstep.symm.trans hstep₂)
  exact ht

end Exists

end Machine

end RT1064.Kernel
