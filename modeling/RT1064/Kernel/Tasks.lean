import RT1064.Core.Rota
import RT1064.Core.While
import RT1064.Kernel.Lists

/-!
# The scheduler

The part of `tasks.c` that moves tasks between lists, as the program configures it: one core,
preemption with time slices, 32-bit ticks and the selection by the bits of a word that the port
brings. A task is named by its control block. Its state list item and its event list item are in
rotas, which the lists of the kernel are; a function has no result where an assertion fails, a null
pointer is followed or an item is put into a list while it is in one.
-/

namespace RT1064.Kernel

open Core

def configMAX_PRIORITIES : ℕ := 18

instance : NeZero configMAX_PRIORITIES := ⟨by decide⟩

/-- The lists that a state list item may be in. -/
inductive StateList
  | pxReadyTasksLists (uxPriority : Fin configMAX_PRIORITIES)
  | xDelayedTaskList1
  | xDelayedTaskList2
  | xTasksWaitingTermination
  | xSuspendedTaskList
deriving DecidableEq, Repr

/-- The lists that an event list item may be in. -/
inductive EventList (E : Type)
  | xPendingReadyList
  | pxEventList (e : E)
deriving DecidableEq, Repr

/-- The variables of `tasks.c`, and whether the interrupt for a context switch is pending. -/
structure Scheduler (T E : Type) where
  states : Rotas StateList T TickType_t
  events : Rotas (EventList E) T TickType_t
  uxPriority : T → Fin configMAX_PRIORITIES
  pxCurrentTCB : Option T
  pxDelayedTaskList : StateList
  pxOverflowDelayedTaskList : StateList
  uxTopReadyPriority : BitVec 32
  xTickCount : TickType_t
  xNextTaskUnblockTime : TickType_t
  xNumOfOverflows : BitVec 32
  xPendedTicks : TickType_t
  uxSchedulerSuspended : ℕ
  xYieldPending : Bool
  xSchedulerRunning : Bool
  uxCurrentNumberOfTasks : ℕ
  uxDeletedTasksWaitingCleanUp : ℕ
  pendSV : Bool

/-! ### The macros of the port -/

def portRECORD_READY_PRIORITY (uxPriority : ℕ) (uxReadyPriorities : BitVec 32) : BitVec 32 :=
  uxReadyPriorities ||| (1#32 <<< uxPriority)

def portRESET_READY_PRIORITY (uxPriority : ℕ) (uxReadyPriorities : BitVec 32) : BitVec 32 :=
  uxReadyPriorities &&& ~~~(1#32 <<< uxPriority)

def portGET_HIGHEST_PRIORITY (uxReadyPriorities : BitVec 32) : BitVec 32 :=
  31#32 - uxReadyPriorities.clz

namespace Scheduler

variable {T E : Type} [DecidableEq T] [DecidableEq E]

def portYIELD (k : Scheduler T E) : Scheduler T E := { k with pendSV := true }

/-! ### Moving tasks -/

def prvAddTaskToReadyList (k : Scheduler T E) (pxTCB : T) : Option (Scheduler T E) := do
  let top := portRECORD_READY_PRIORITY (k.uxPriority pxTCB) k.uxTopReadyPriority
  let states ← k.states.insertEnd (.pxReadyTasksLists (k.uxPriority pxTCB)) pxTCB
  some { k with states, uxTopReadyPriority := top }

def prvResetNextTaskUnblockTime (k : Scheduler T E) : Scheduler T E :=
  match k.states.head k.pxDelayedTaskList with
  | none       => { k with xNextTaskUnblockTime := portMAX_DELAY }
  | some pxTCB => { k with xNextTaskUnblockTime := k.states.key pxTCB }

def taskSWITCH_DELAYED_LISTS (k : Scheduler T E) : Option (Scheduler T E) :=
  if k.states.items k.pxDelayedTaskList = [] then
    let k := { k with
      pxDelayedTaskList := k.pxOverflowDelayedTaskList
      pxOverflowDelayedTaskList := k.pxDelayedTaskList
      xNumOfOverflows := k.xNumOfOverflows + 1 }
    some k.prvResetNextTaskUnblockTime
  else none

/-- Takes the state list item of a task out of its list. -/
def removeState (k : Scheduler T E) (pxTCB : T) : Option (ℕ × Scheduler T E) := do
  let (n, states) ← k.states.remove pxTCB
  some (n, { k with states })

/-- Takes the event list item of a task out of its list. -/
def removeEvent (k : Scheduler T E) (pxTCB : T) : Option (Scheduler T E) := do
  let (_, events) ← k.events.remove pxTCB
  some { k with events }

/-- Takes the event list item of a task out of its list, if it is in one. -/
def removeAnyEvent (k : Scheduler T E) (pxTCB : T) : Option (Scheduler T E) :=
  if k.events.container pxTCB = none then some k else k.removeEvent pxTCB

def taskRESET_READY_PRIORITY (k : Scheduler T E) (uxPriority : Fin configMAX_PRIORITIES) :
    Scheduler T E :=
  if k.states.items (.pxReadyTasksLists uxPriority) = [] then
    { k with uxTopReadyPriority := portRESET_READY_PRIORITY uxPriority k.uxTopReadyPriority }
  else k

/-! ### Ticks -/

/-- A round of the loop that unblocks tasks; the flag says whether a switch is required. -/
def unblockNext (s : Scheduler T E × Bool) :
    Option ((Scheduler T E × Bool) ⊕ (Scheduler T E × Bool)) :=
  let (k, xSwitchRequired) := s
  match k.states.head k.pxDelayedTaskList with
  | none       => some (.inr ({ k with xNextTaskUnblockTime := portMAX_DELAY }, xSwitchRequired))
  | some pxTCB =>
    let xItemValue := k.states.key pxTCB
    if k.xTickCount < xItemValue then
      some (.inr ({ k with xNextTaskUnblockTime := xItemValue }, xSwitchRequired))
    else do
      let (_, k) ← k.removeState pxTCB
      let k ← k.removeAnyEvent pxTCB
      let k ← k.prvAddTaskToReadyList pxTCB
      let pxCurrentTCB ← k.pxCurrentTCB
      if k.uxPriority pxCurrentTCB < k.uxPriority pxTCB then some (.inl (k, true))
      else some (.inl (k, xSwitchRequired))

def xTaskIncrementTick (k : Scheduler T E) : Option (Scheduler T E × Bool) :=
  if k.uxSchedulerSuspended = 0 then do
    let xConstTickCount := k.xTickCount + 1
    let k := { k with xTickCount := xConstTickCount }
    let k ← (if xConstTickCount = 0 then k.taskSWITCH_DELAYED_LISTS else some k)
    let (k, xSwitchRequired) ←
      (if k.xNextTaskUnblockTime ≤ xConstTickCount then
        forever unblockNext ((k.states.items k.pxDelayedTaskList).length + 1) (k, false)
      else some (k, false))
    let pxCurrentTCB ← k.pxCurrentTCB
    let xSwitchRequired :=
      xSwitchRequired ||
        decide (1 < (k.states.items (.pxReadyTasksLists (k.uxPriority pxCurrentTCB))).length)
    some (k, xSwitchRequired || k.xYieldPending)
  else some ({ k with xPendedTicks := k.xPendedTicks + 1 }, false)

def xPortSysTickHandler (k : Scheduler T E) : Option (Scheduler T E) := do
  let (k, xSwitchRequired) ← k.xTaskIncrementTick
  if xSwitchRequired then some k.portYIELD else some k

/-! ### Context switches -/

def vTaskSwitchContext (k : Scheduler T E) : Option (Scheduler T E) :=
  if k.uxSchedulerSuspended ≠ 0 then some { k with xYieldPending := true }
  else do
    let k := { k with xYieldPending := false }
    let uxTopPriority := (portGET_HIGHEST_PRIORITY k.uxTopReadyPriority).toNat
    if h : uxTopPriority < configMAX_PRIORITIES then
      let (pxTCB, states) ← k.states.next (.pxReadyTasksLists ⟨uxTopPriority, h⟩)
      some { k with states, pxCurrentTCB := some pxTCB }
    else none

def xPortPendSVHandler (k : Scheduler T E) : Option (Scheduler T E) :=
  vTaskSwitchContext { k with pendSV := false }

/-! ### Suspending the scheduler -/

def vTaskSuspendAll (k : Scheduler T E) : Scheduler T E :=
  { k with uxSchedulerSuspended := k.uxSchedulerSuspended + 1 }

/-- A round of the loop that empties the list of pending tasks; the task is the last one that was
moved. -/
def movePendingReady (s : Scheduler T E × Option T) :
    Option ((Scheduler T E × Option T) ⊕ (Scheduler T E × Option T)) :=
  let (k, pxTCB) := s
  match k.events.head .xPendingReadyList with
  | none       => some (.inr (k, pxTCB))
  | some pxTCB => do
    let k ← k.removeEvent pxTCB
    let (_, k) ← k.removeState pxTCB
    let k ← k.prvAddTaskToReadyList pxTCB
    let pxCurrentTCB ← k.pxCurrentTCB
    if k.uxPriority pxCurrentTCB < k.uxPriority pxTCB then
      some (.inl ({ k with xYieldPending := true }, some pxTCB))
    else some (.inl (k, some pxTCB))

/-- The ticks that were counted while the scheduler was suspended. -/
def processPendedTicks : ℕ → Scheduler T E → Option (Scheduler T E)
  | 0, k                 => some k
  | xPendedCounts + 1, k => do
    let (k, xSwitchRequired) ← k.xTaskIncrementTick
    processPendedTicks xPendedCounts
      (if xSwitchRequired then { k with xYieldPending := true } else k)

def xTaskResumeAll (k : Scheduler T E) : Option (Scheduler T E × Bool) :=
  if k.uxSchedulerSuspended = 0 then none
  else
    let k := { k with uxSchedulerSuspended := k.uxSchedulerSuspended - 1 }
    if k.uxSchedulerSuspended = 0 ∧ 0 < k.uxCurrentNumberOfTasks then do
      let (k, pxTCB) ←
        forever movePendingReady ((k.events.items .xPendingReadyList).length + 1) (k, none)
      let k := if pxTCB.isSome then k.prvResetNextTaskUnblockTime else k
      let k ← processPendedTicks k.xPendedTicks.toNat k
      let k := { k with xPendedTicks := 0 }
      if k.xYieldPending then some (k.portYIELD, true) else some (k, false)
    else some (k, false)

/-! ### Blocking -/

def prvAddCurrentTaskToDelayedList (k : Scheduler T E) (xTicksToWait : TickType_t)
    (xCanBlockIndefinitely : Bool) : Option (Scheduler T E) := do
  let xConstTickCount := k.xTickCount
  let pxCurrentTCB ← k.pxCurrentTCB
  let (n, k) ← k.removeState pxCurrentTCB
  let k :=
    if n = 0 then { k with uxTopReadyPriority :=
      portRESET_READY_PRIORITY (k.uxPriority pxCurrentTCB) k.uxTopReadyPriority }
    else k
  if xTicksToWait = portMAX_DELAY ∧ xCanBlockIndefinitely = true then
    let states ← k.states.insertEnd .xSuspendedTaskList pxCurrentTCB
    some { k with states }
  else
    let xTimeToWake := xConstTickCount + xTicksToWait
    let k := { k with states := k.states.setKey pxCurrentTCB xTimeToWake }
    if xTimeToWake < xConstTickCount then
      let states ← k.states.insert k.pxOverflowDelayedTaskList pxCurrentTCB
      some { k with states }
    else
      let states ← k.states.insert k.pxDelayedTaskList pxCurrentTCB
      let k := { k with states }
      if xTimeToWake < k.xNextTaskUnblockTime then
        some { k with xNextTaskUnblockTime := xTimeToWake }
      else some k

/-- What `vTaskDelay` does while the scheduler is suspended. -/
def vTaskDelayBlock (k : Scheduler T E) (xTicksToDelay : TickType_t) : Option (Scheduler T E) :=
  if k.uxSchedulerSuspended = 1 then k.prvAddCurrentTaskToDelayedList xTicksToDelay false else none

/-- What `xTaskDelayUntil` does while the scheduler is suspended: the result says whether the task
is to wait, the next time is the new value of `*pxPreviousWakeTime`. -/
def xTaskDelayUntilBlock (k : Scheduler T E) (pxPreviousWakeTime xTimeIncrement : TickType_t) :
    Option (Scheduler T E × Bool × TickType_t) :=
  if 0 < xTimeIncrement ∧ k.uxSchedulerSuspended = 1 then do
    let xConstTickCount := k.xTickCount
    let xTimeToWake := pxPreviousWakeTime + xTimeIncrement
    let xShouldDelay :=
      if xConstTickCount < pxPreviousWakeTime then
        decide (xTimeToWake < pxPreviousWakeTime) && decide (xConstTickCount < xTimeToWake)
      else decide (xTimeToWake < pxPreviousWakeTime) || decide (xConstTickCount < xTimeToWake)
    let k ←
      (if xShouldDelay then k.prvAddCurrentTaskToDelayedList (xTimeToWake - xConstTickCount) false
      else some k)
    some (k, xShouldDelay, xTimeToWake)
  else none

/-! ### Events -/

def vTaskPlaceOnEventList (k : Scheduler T E) (pxEventList : E) (xTicksToWait : TickType_t) :
    Option (Scheduler T E) := do
  let pxCurrentTCB ← k.pxCurrentTCB
  let events ← k.events.insert (.pxEventList pxEventList) pxCurrentTCB
  { k with events }.prvAddCurrentTaskToDelayedList xTicksToWait true

def xTaskRemoveFromEventList (k : Scheduler T E) (pxEventList : E) :
    Option (Scheduler T E × Bool) := do
  let pxUnblockedTCB ← k.events.head (.pxEventList pxEventList)
  let k ← k.removeEvent pxUnblockedTCB
  let k ←
    (if k.uxSchedulerSuspended = 0 then do
      let (_, k) ← k.removeState pxUnblockedTCB
      k.prvAddTaskToReadyList pxUnblockedTCB
    else do
      let events ← k.events.insertEnd .xPendingReadyList pxUnblockedTCB
      some { k with events })
  let pxCurrentTCB ← k.pxCurrentTCB
  if k.uxPriority pxCurrentTCB < k.uxPriority pxUnblockedTCB then
    some ({ k with xYieldPending := true }, true)
  else some (k, false)

/-- How the queues signal an event, if a task waits for it; the interrupt handler or the task may
ask for the switch that is required, or leave it pending. -/
def signal (k : Scheduler T E) (pxEventList : E) (yields : Bool) : Option (Scheduler T E) :=
  if k.events.items (.pxEventList pxEventList) = [] then some k
  else do
    let (k, xHigherPriorityTaskWoken) ← k.xTaskRemoveFromEventList pxEventList
    if xHigherPriorityTaskWoken && yields then some k.portYIELD else some k

/-! ### Tasks that come and go -/

def prvInitialiseNewTask (k : Scheduler T E) (pxNewTCB : T)
    (uxPriority : Fin configMAX_PRIORITIES) : Scheduler T E :=
  { k with
    uxPriority := Function.update k.uxPriority pxNewTCB uxPriority
    events := k.events.setKey pxNewTCB
      (BitVec.ofNat 32 configMAX_PRIORITIES - BitVec.ofNat 32 uxPriority) }

def prvInitialiseTaskLists (k : Scheduler T E) : Scheduler T E :=
  { k with
    pxDelayedTaskList := .xDelayedTaskList1
    pxOverflowDelayedTaskList := .xDelayedTaskList2 }

/-- The critical section of `prvAddNewTaskToReadyList`. -/
def prvAddNewTaskToReadyList (k : Scheduler T E) (pxNewTCB : T) : Option (Scheduler T E) :=
  let k := { k with uxCurrentNumberOfTasks := k.uxCurrentNumberOfTasks + 1 }
  let k :=
    match k.pxCurrentTCB with
    | none              =>
      let k := { k with pxCurrentTCB := some pxNewTCB }
      if k.uxCurrentNumberOfTasks = 1 then k.prvInitialiseTaskLists else k
    | some pxCurrentTCB =>
      if k.xSchedulerRunning = false ∧ k.uxPriority pxCurrentTCB ≤ k.uxPriority pxNewTCB then
        { k with pxCurrentTCB := some pxNewTCB }
      else k
  k.prvAddTaskToReadyList pxNewTCB

/-- The check of `prvAddNewTaskToReadyList` behind its critical section. -/
def taskYIELD_ANY_CORE_IF_USING_PREEMPTION (k : Scheduler T E) (pxTCB : T) :
    Option (Scheduler T E) := do
  let pxCurrentTCB ← k.pxCurrentTCB
  if k.uxPriority pxCurrentTCB < k.uxPriority pxTCB then some k.portYIELD else some k

/-- The critical section of `vTaskDelete`. -/
def vTaskDelete (k : Scheduler T E) (pxTCB : T) : Option (Scheduler T E) := do
  let (n, k) ← k.removeState pxTCB
  let k := if n = 0 then k.taskRESET_READY_PRIORITY (k.uxPriority pxTCB) else k
  let k ← k.removeAnyEvent pxTCB
  if k.xSchedulerRunning = true ∧ k.pxCurrentTCB = some pxTCB then
    let states ← k.states.insertEnd .xTasksWaitingTermination pxTCB
    some { k with states, uxDeletedTasksWaitingCleanUp := k.uxDeletedTasksWaitingCleanUp + 1 }
  else
    let k := { k with uxCurrentNumberOfTasks := k.uxCurrentNumberOfTasks - 1 }
    some k.prvResetNextTaskUnblockTime

/-- A round of the loop of `prvCheckTasksWaitingTermination`. -/
def prvCheckTasksWaitingTermination (k : Scheduler T E) : Option (Scheduler T E) :=
  if 0 < k.uxDeletedTasksWaitingCleanUp then do
    let pxTCB ← k.states.head .xTasksWaitingTermination
    let (_, k) ← k.removeState pxTCB
    some { k with
      uxCurrentNumberOfTasks := k.uxCurrentNumberOfTasks - 1
      uxDeletedTasksWaitingCleanUp := k.uxDeletedTasksWaitingCleanUp - 1 }
  else some k

end Scheduler

end RT1064.Kernel
