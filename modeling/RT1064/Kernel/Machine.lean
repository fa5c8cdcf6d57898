import RT1064.Core.Guarded
import RT1064.Kernel.TasksDelete

/-!
# The kernel at work

Interrupts and the running task take turns with the functions of the scheduler. A call that is not
one critical section is made up of several actions, between which interrupts come: what a task has
still to do of its call is its stage.
-/

namespace RT1064.Kernel

open Core

/-! ### The start -/

def configTIMER_TASK_PRIORITY : Fin configMAX_PRIORITIES := ⟨configMAX_PRIORITIES - 1, by decide⟩

namespace Scheduler

variable {T E : Type} [DecidableEq T] [DecidableEq E]

/-- The variables before `main`. The two pointers are not read before they are set. -/
def initial : Scheduler T E where
  states := Rotas.initial fun _ => 0
  events := Rotas.initial fun _ => 0
  uxPriority := fun _ => 0
  pxCurrentTCB := none
  pxDelayedTaskList := .xDelayedTaskList1
  pxOverflowDelayedTaskList := .xDelayedTaskList2
  uxTopReadyPriority := 0
  xTickCount := 0
  xNextTaskUnblockTime := 0
  xNumOfOverflows := 0
  xPendedTicks := 0
  uxSchedulerSuspended := 0
  xYieldPending := false
  xSchedulerRunning := false
  uxCurrentNumberOfTasks := 0
  uxDeletedTasksWaitingCleanUp := 0
  pendSV := false

/-- What `xTaskCreate` does up to the end of its critical section. -/
def xTaskCreate (k : Scheduler T E) (pxNewTCB : T) (uxPriority : Fin configMAX_PRIORITIES) :
    Option (Scheduler T E) :=
  (k.prvInitialiseNewTask pxNewTCB uxPriority).prvAddNewTaskToReadyList pxNewTCB

def vTaskStartScheduler (k : Scheduler T E) (idle timer : T) : Option (Scheduler T E) := do
  let k ← k.xTaskCreate idle 0
  let k ← k.xTaskCreate timer configTIMER_TASK_PRIORITY
  some { k with
    xNextTaskUnblockTime := portMAX_DELAY
    xSchedulerRunning := true
    xTickCount := 0 }

/-- The tasks that the program creates before it starts the scheduler. -/
def createTasks (tasks : List (T × Fin configMAX_PRIORITIES)) (k : Scheduler T E) :
    Option (Scheduler T E) :=
  tasks.foldlM (fun k task => k.xTaskCreate task.1 task.2) k

end Scheduler

/-! ### Actions -/

/-- What a task has still to do of a call. -/
inductive Stage (T E : Type)
  | own
  | vTaskDelay (xTicksToDelay : TickType_t)
  | xTaskDelayUntil (xPreviousWakeTime xTimeIncrement : TickType_t)
  | vTaskPlaceOnEventList (pxEventList : E) (xTicksToWait : TickType_t)
  | xTaskResumeAll
  | taskYIELD_WITHIN_API
  | prvAddNewTaskToReadyList (pxNewTCB : T)
  | vTaskDelete
deriving DecidableEq, Repr

/-- The interrupts, and what the running task does. -/
inductive Action (T E : Type)
  | xPortSysTickHandler
  | signal (pxEventList : E) (yields : Bool)
  | xPortPendSVHandler
  | vTaskSuspendAll
  | xTaskResumeAll
  | taskYIELD
  | vTaskDelay (xTicksToDelay : TickType_t)
  | xTaskDelayUntil (xPreviousWakeTime xTimeIncrement : TickType_t)
  | wait (pxEventList : E) (xTicksToWait : TickType_t)
  | xTaskCreate (pxNewTCB : T) (uxPriority : Fin configMAX_PRIORITIES)
  | vTaskDelete (xTaskToDelete : Option T)
  | prvCheckTasksWaitingTermination
  | proceed
deriving DecidableEq, Repr

/-- The scheduler and the tasks: the stage of each, and the variable that it has for
`xTaskDelayUntil`. -/
structure Machine (T E : Type) where
  scheduler : Scheduler T E
  stage : T → Stage T E
  xPreviousWakeTime : T → TickType_t

namespace Machine

variable {T E : Type} [DecidableEq T] [DecidableEq E]

def boot (tasks : List (T × Fin configMAX_PRIORITIES)) (idle timer : T) :
    Option (Machine T E) := do
  let k ← Scheduler.createTasks tasks .initial
  let k ← k.vTaskStartScheduler idle timer
  some ⟨k, fun _ => .own, fun _ => 0⟩

/-- The running task goes on with its call. -/
def proceed (m : Machine T E) (c : T) : Option (Machine T E) :=
  match m.stage c with
  | .own                                              => none
  | .vTaskDelay xTicksToDelay                         => do
    let k ← m.scheduler.vTaskDelayBlock xTicksToDelay
    some { m with scheduler := k, stage := Function.update m.stage c .xTaskResumeAll }
  | .xTaskDelayUntil xPreviousWakeTime xTimeIncrement => do
    let (k, _, xTimeToWake) ← m.scheduler.xTaskDelayUntilBlock xPreviousWakeTime xTimeIncrement
    some ⟨k, Function.update m.stage c .xTaskResumeAll,
      Function.update m.xPreviousWakeTime c xTimeToWake⟩
  | .vTaskPlaceOnEventList pxEventList xTicksToWait   => do
    let k ← m.scheduler.vTaskPlaceOnEventList pxEventList xTicksToWait
    some { m with scheduler := k, stage := Function.update m.stage c .xTaskResumeAll }
  | .xTaskResumeAll                                   => do
    let (k, xAlreadyYielded) ← m.scheduler.xTaskResumeAll
    some { m with
      scheduler := k
      stage := Function.update m.stage c (if xAlreadyYielded then .own else .taskYIELD_WITHIN_API) }
  | .taskYIELD_WITHIN_API                             =>
    some { m with
      scheduler := m.scheduler.portYIELD
      stage := Function.update m.stage c .own }
  | .prvAddNewTaskToReadyList pxNewTCB                => do
    let k ← m.scheduler.taskYIELD_ANY_CORE_IF_USING_PREEMPTION pxNewTCB
    some { m with scheduler := k, stage := Function.update m.stage c .own }
  | .vTaskDelete                                      =>
    if m.scheduler.uxSchedulerSuspended = 0 then
      some { m with
        scheduler := m.scheduler.portYIELD
        stage := Function.update m.stage c .own }
    else none

/-- There is no next state where an assertion fails or a null pointer is followed. -/
def step (m : Machine T E) (action : Action T E) : Option (Machine T E) := do
  let c ← m.scheduler.pxCurrentTCB
  match action with
  | .xPortSysTickHandler                              => do
    let k ← m.scheduler.xPortSysTickHandler
    some { m with scheduler := k }
  | .signal pxEventList yields                        => do
    let k ← m.scheduler.signal pxEventList yields
    some { m with scheduler := k }
  | .xPortPendSVHandler                               => do
    let k ← m.scheduler.xPortPendSVHandler
    some { m with scheduler := k }
  | .vTaskSuspendAll                                  =>
    some { m with scheduler := m.scheduler.vTaskSuspendAll }
  | .xTaskResumeAll                                   => do
    let (k, _) ← m.scheduler.xTaskResumeAll
    some { m with scheduler := k }
  | .taskYIELD                                        =>
    some { m with scheduler := m.scheduler.portYIELD }
  | .vTaskDelay xTicksToDelay                         =>
    if 0 < xTicksToDelay then
      some { m with
        scheduler := m.scheduler.vTaskSuspendAll
        stage := Function.update m.stage c (.vTaskDelay xTicksToDelay) }
    else some { m with stage := Function.update m.stage c .taskYIELD_WITHIN_API }
  | .xTaskDelayUntil xPreviousWakeTime xTimeIncrement =>
    if 0 < xTimeIncrement then
      some { m with
        scheduler := m.scheduler.vTaskSuspendAll
        stage := Function.update m.stage c (.xTaskDelayUntil xPreviousWakeTime xTimeIncrement) }
    else none
  | .wait pxEventList xTicksToWait                    =>
    -- the queues assert that a task does not wait while the scheduler is suspended
    if xTicksToWait = 0 then some m
    else if m.scheduler.uxSchedulerSuspended = 0 then
      some { m with
        scheduler := m.scheduler.vTaskSuspendAll
        stage := Function.update m.stage c (.vTaskPlaceOnEventList pxEventList xTicksToWait) }
    else none
  | .xTaskCreate pxNewTCB uxPriority                  => do
    let k ← m.scheduler.xTaskCreate pxNewTCB uxPriority
    some { m with
      scheduler := k
      stage := Function.update (Function.update m.stage pxNewTCB .own) c
        (.prvAddNewTaskToReadyList pxNewTCB) }
  | .vTaskDelete xTaskToDelete                        => do
    let k ← m.scheduler.vTaskDelete (xTaskToDelete.getD c)
    some { m with
      scheduler := k
      stage := if xTaskToDelete.getD c = c then Function.update m.stage c .vTaskDelete
        else m.stage }
  | .prvCheckTasksWaitingTermination                  => do
    let k ← m.scheduler.prvCheckTasksWaitingTermination
    some { m with scheduler := k }
  | .proceed                                          => m.proceed c

/-! ### Runs -/

/-- The running task may begin a call: no switch is pending, and it is in its own code. -/
def Runs (m : Machine T E) (c : T) : Prop :=
  m.scheduler.pxCurrentTCB = some c ∧ m.stage c = .own ∧ m.scheduler.pendSV = false

/-- The running task may begin a call in which it blocks. The idle task never does. -/
def MayBlock (m : Machine T E) (idle c : T) : Prop :=
  m.Runs c ∧ m.scheduler.uxSchedulerSuspended = 0 ∧ c ≠ idle

/-- The interrupts come at any time, where the one for a context switch comes if it is pending. A
task keeps to the rules of the kernel: it does not block or delete itself while the scheduler is
suspended, it resumes the scheduler after it suspended it, it suspends it less than `2 ^ 32` times
over, and it deletes a task once. -/
def Allowed (idle : T) (m : Machine T E) : Action T E → Prop
  | .xPortSysTickHandler | .signal _ _ => True
  | .xPortPendSVHandler                => m.scheduler.pendSV = true
  | .vTaskSuspendAll                   =>
    (∃ c, m.Runs c) ∧ m.scheduler.uxSchedulerSuspended + 1 < 2 ^ 32
  | .taskYIELD                         => ∃ c, m.Runs c
  | .xTaskResumeAll                    =>
    (∃ c, m.Runs c) ∧ 0 < m.scheduler.uxSchedulerSuspended
  | .vTaskDelay n | .wait _ n          => ∃ c, m.Runs c ∧ (n ≠ 0 → m.MayBlock idle c)
  | .xTaskDelayUntil _ xTimeIncrement  => (∃ c, m.MayBlock idle c) ∧ xTimeIncrement ≠ 0
  | .xTaskCreate pxNewTCB _            =>
    (∃ c, m.Runs c) ∧ m.scheduler.states.container pxNewTCB = none
  | .vTaskDelete none                  => ∃ c, m.MayBlock idle c
  | .vTaskDelete (some t)              =>
    ∃ c, m.Runs c ∧ t ≠ idle ∧ m.scheduler.Alive t ∧
      (t = c → m.scheduler.uxSchedulerSuspended = 0)
  | .prvCheckTasksWaitingTermination   =>
    m.Runs idle ∧ m.scheduler.uxSchedulerSuspended = 0
  | .proceed                           =>
    m.scheduler.pendSV = false ∧ ∃ c, m.scheduler.pxCurrentTCB = some c ∧ m.stage c ≠ .own

omit [DecidableEq T] [DecidableEq E] in
/-- Whether a call is allowed depends on the running task only. -/
lemma exists_runs_iff {m : Machine T E} {c : T} (hc : m.scheduler.pxCurrentTCB = some c)
    (P : T → Prop) : (∃ d, m.Runs d ∧ P d) ↔ m.Runs c ∧ P c := by
  constructor
  · rintro ⟨d, hd, hP⟩
    obtain rfl := Option.some_inj.1 (hd.1.symm.trans hc)
    exact ⟨hd, hP⟩
  · exact fun h => ⟨c, h⟩

instance (m : Machine T E) (c : T) : Decidable (m.Runs c) :=
  inferInstanceAs (Decidable (_ ∧ _ ∧ _))

instance (m : Machine T E) (P : T → Prop) [DecidablePred P] :
    Decidable (∃ c, m.Runs c ∧ P c) :=
  match hc : m.scheduler.pxCurrentTCB with
  | none   => .isFalse fun ⟨d, hd, _⟩ => Option.some_ne_none d (hd.1.symm.trans hc)
  | some _ => decidable_of_iff _ (exists_runs_iff hc P).symm

instance (m : Machine T E) : Decidable (∃ c, m.Runs c) :=
  decidable_of_iff (∃ c, m.Runs c ∧ True) (by simp)

instance (m : Machine T E) (idle : T) : Decidable (∃ c, m.MayBlock idle c) :=
  inferInstanceAs (Decidable (∃ c, m.Runs c ∧ m.scheduler.uxSchedulerSuspended = 0 ∧ c ≠ idle))

instance (m : Machine T E) (idle c : T) : Decidable (m.MayBlock idle c) :=
  inferInstanceAs (Decidable (_ ∧ _ ∧ _))

instance (idle : T) (m : Machine T E) (a : Action T E) : Decidable (Allowed idle m a) :=
  match a with
  | .xPortSysTickHandler | .signal _ _ => .isTrue trivial
  | .xPortPendSVHandler                => inferInstanceAs (Decidable (_ = _))
  | .vTaskSuspendAll                   => inferInstanceAs (Decidable (_ ∧ _))
  | .taskYIELD                         => inferInstanceAs (Decidable (∃ c, m.Runs c))
  | .xTaskResumeAll                    => inferInstanceAs (Decidable (_ ∧ _))
  | .vTaskDelay n | .wait _ n          =>
    inferInstanceAs (Decidable (∃ c, m.Runs c ∧ (n ≠ 0 → m.MayBlock idle c)))
  | .xTaskDelayUntil _ _               => inferInstanceAs (Decidable (_ ∧ _))
  | .xTaskCreate _ _                   => inferInstanceAs (Decidable (_ ∧ _))
  | .vTaskDelete none                  => inferInstanceAs (Decidable (∃ c, m.MayBlock idle c))
  | .vTaskDelete (some t)              =>
    inferInstanceAs (Decidable (∃ c, m.Runs c ∧ t ≠ idle ∧ m.scheduler.Alive t ∧
      (t = c → m.scheduler.uxSchedulerSuspended = 0)))
  | .prvCheckTasksWaitingTermination   => inferInstanceAs (Decidable (_ ∧ _))
  | .proceed                           =>
    match hc : m.scheduler.pxCurrentTCB with
    | none   => .isFalse fun ⟨_, d, hd, _⟩ => Option.some_ne_none d (hd.symm.trans hc)
    | some c => decidable_of_iff (m.scheduler.pendSV = false ∧ m.stage c ≠ .own) <|
      and_congr_right fun _ => ⟨fun h => ⟨c, hc, h⟩, fun ⟨d, hd, h⟩ => by
        obtain rfl := Option.some_inj.1 (hd.symm.trans hc)
        exact h⟩

/-- The states that a run from the start of the program leads to. -/
def Reachable (idle : T) (m : Machine T E) : Prop :=
  ∃ tasks timer m₀ actions, (tasks.map Prod.fst ++ [idle, timer]).Nodup ∧
    boot tasks idle timer = some m₀ ∧ Guarded step (Allowed idle) m₀ actions m

end Machine

end RT1064.Kernel
