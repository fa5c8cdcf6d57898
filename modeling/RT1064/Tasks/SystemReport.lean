import Mathlib.Data.List.TakeWhile
import RT1064.Core.BoundedText
import RT1064.Tasks.Basic

/-!
# The system report

The print task has the kernel write a line for each task into its buffer. The kernel is given the
largest length that a buffer may have and not that of the buffer, so whether the text fits depends
on the tasks.
-/

namespace RT1064

open Core

/-! ### Formatting in the kernel -/

def configMAX_TASK_NAME_LEN : ℕ := 20

def configSTATS_BUFFER_MAX_LENGTH : ℕ := 0xFFFF

inductive eTaskState where
  | eRunning
  | eReady
  | eBlocked
  | eSuspended
  | eDeleted
  | eInvalid
deriving DecidableEq, Repr

/-- The variable `cStatus` for a state. -/
def eTaskState.cStatus : eTaskState → Char
  | .eRunning   => 'X'
  | .eReady     => 'R'
  | .eBlocked   => 'B'
  | .eSuspended => 'S'
  | .eDeleted   => 'D'
  | .eInvalid   => '\x00'

/-- `TaskStatus_t`. The kernel cuts the name of a task where it creates it. -/
structure TaskStatus where
  pcTaskName : Text
  xTaskNumber : UInt32
  eCurrentState : eTaskState
  uxCurrentPriority : UInt32
  ulRunTimeCounter : UInt32
  usStackHighWaterMark : UInt32
  name_length : pcTaskName.length ≤ configMAX_TASK_NAME_LEN - 1
  name_terminated : '\x00' ∉ pcTaskName

/-- What `prvWriteNameToBuffer` writes before the terminating null character. -/
def prvWriteNameToBuffer (pcTaskName : Text) : Text :=
  pcTaskName ++ List.replicate (configMAX_TASK_NAME_LEN - 1 - pcTaskName.length) ' '

def prvSnprintfReturnValueToCharsWritten (iSnprintfReturnValue : ℤ) (n : ℕ) : ℕ :=
  if iSnprintfReturnValue < 0 then 0
  else if (n : ℤ) ≤ iSnprintfReturnValue then n - 1
  else iSnprintfReturnValue.toNat

/-- The variables of the loops that write a line for each task. -/
structure WriteState where
  written : Text := []
  uxConsumedBufferLength : ℕ := 0
  xOutputBufferFull : Bool := false

/-- One round of the loop, which is left when the buffer is full. -/
def WriteState.writeTask (uxBufferLength : ℕ) (fields : TaskStatus → Text) (s : WriteState)
    (t : TaskStatus) : WriteState :=
  if s.xOutputBufferFull then s
  else if s.uxConsumedBufferLength + configMAX_TASK_NAME_LEN ≤ uxBufferLength then
    let written := s.written ++ prvWriteNameToBuffer t.pcTaskName
    let consumed := s.uxConsumedBufferLength + (configMAX_TASK_NAME_LEN - 1)
    if consumed < uxBufferLength - 1 then
      let r := snprintf (uxBufferLength - consumed) (fields t)
      { s with
        written := written ++ r.1
        uxConsumedBufferLength :=
          consumed + prvSnprintfReturnValueToCharsWritten r.2 (uxBufferLength - consumed) }
    else ⟨written, consumed, true⟩
  else { s with xOutputBufferFull := true }

/-- `"\t%c\t%u\t%u\t%u\r\n"` with the fields of a task. -/
def listFields (t : TaskStatus) : Text :=
  ['\t', t.eCurrentState.cStatus, '\t'] ++ decimal t.uxCurrentPriority.toNat ++ ['\t'] ++
    decimal t.usStackHighWaterMark.toNat ++ ['\t'] ++ decimal t.xTaskNumber.toNat ++ ['\r', '\n']

/-- `vTaskListTasks`, given the array of the tasks, if there was memory for it. -/
def vTaskListTasks (pxTaskStatusArray : Option (List TaskStatus)) (uxBufferLength : ℕ) : Text :=
  match pxTaskStatusArray with
  | none       => []
  | some tasks => (tasks.foldl (WriteState.writeTask uxBufferLength listFields) {}).written

/-- `"\t%u\t\t%u%%\r\n"` or, under one per cent, `"\t%u\t\t<1%%\r\n"`. -/
def statsFields (ulTotalTime : UInt32) (t : TaskStatus) : Text :=
  let ulStatsAsPercentage := t.ulRunTimeCounter / ulTotalTime
  ['\t'] ++ decimal t.ulRunTimeCounter.toNat ++ ['\t', '\t'] ++
    (if 0 < ulStatsAsPercentage then decimal ulStatsAsPercentage.toNat else ['<', '1']) ++
      ['%', '\r', '\n']

/-- `vTaskGetRunTimeStatistics`, given the total run time as well. -/
def vTaskGetRunTimeStatistics (pxTaskStatusArray : Option (List TaskStatus))
    (ulTotalTime : UInt32) (uxBufferLength : ℕ) : Text :=
  match pxTaskStatusArray with
  | none       => []
  | some tasks =>
    let ulTotalTime := ulTotalTime / 100
    if 0 < ulTotalTime then
      (tasks.foldl (WriteState.writeTask uxBufferLength (statsFields ulTotalTime)) {}).written
    else []

def vTaskList (pxTaskStatusArray : Option (List TaskStatus)) : Text :=
  vTaskListTasks pxTaskStatusArray configSTATS_BUFFER_MAX_LENGTH

def vTaskGetRunTimeStats (pxTaskStatusArray : Option (List TaskStatus)) (ulTotalTime : UInt32) :
    Text :=
  vTaskGetRunTimeStatistics pxTaskStatusArray ulTotalTime configSTATS_BUFFER_MAX_LENGTH

/-! ### The print task of `main` -/

/-- `sizeof(buffer)`. -/
def sizeofBuffer : ℕ := 256

/-- The texts that a turn of `PrintTask` has written into its buffer, before their terminating null
characters. The tasks may change between the two calls. -/
def PrintTask (listed measured : Option (List TaskStatus)) (ulTotalTime : UInt32) : List Text :=
  [vTaskList listed, vTaskGetRunTimeStats measured ulTotalTime]

/-- Every text fits the buffer with its terminating null character. -/
def ReportFits (listed measured : Option (List TaskStatus)) (ulTotalTime : UInt32) : Prop :=
  ∀ text ∈ PrintTask listed measured ulTotalTime, text.length + 1 ≤ sizeofBuffer

/-! ### The width of a line -/

/-- The width of the line of a task in the task list. -/
def listWidth (t : TaskStatus) : ℕ :=
  26 + digitCount t.uxCurrentPriority.toNat + digitCount t.usStackHighWaterMark.toNat +
    digitCount t.xTaskNumber.toNat

/-- The width of the line of a task in the run-time statistics. -/
def statsWidth (ulTotalTime : UInt32) (t : TaskStatus) : ℕ :=
  if 0 < t.ulRunTimeCounter / ulTotalTime then
    25 + digitCount t.ulRunTimeCounter.toNat + digitCount (t.ulRunTimeCounter / ulTotalTime).toNat
  else 27 + digitCount t.ulRunTimeCounter.toNat

lemma length_prvWriteNameToBuffer (t : TaskStatus) :
    (prvWriteNameToBuffer t.pcTaskName).length = 19 := by
  have hname : t.pcTaskName.length ≤ 19 := t.name_length
  rw [prvWriteNameToBuffer, List.length_append, List.length_replicate, configMAX_TASK_NAME_LEN]
  omega

lemma length_listFields (t : TaskStatus) : (listFields t).length + 19 = listWidth t := by
  simp only [listFields, List.length_append, length_decimal, List.length_cons, List.length_nil,
    listWidth]
  omega

lemma length_statsFields (ulTotalTime : UInt32) (t : TaskStatus) :
    (statsFields ulTotalTime t).length + 19 = statsWidth ulTotalTime t := by
  simp only [statsFields, List.length_append, length_decimal, List.length_cons, List.length_nil,
    statsWidth]
  split_ifs
  · rw [length_decimal]
    omega
  · simp only [List.length_cons, List.length_nil]
    omega

lemma digitCount_uint32_le (n : UInt32) : digitCount n.toNat ≤ 10 :=
  digitCount_le (by decide) (n.toNat_lt.trans (by decide))

lemma listWidth_le (t : TaskStatus) : listWidth t ≤ 56 := by
  have hpriority := digitCount_uint32_le t.uxCurrentPriority
  have hstack := digitCount_uint32_le t.usStackHighWaterMark
  have hnumber := digitCount_uint32_le t.xTaskNumber
  rw [listWidth]
  omega

lemma statsWidth_le (ulTotalTime : UInt32) (t : TaskStatus) : statsWidth ulTotalTime t ≤ 56 := by
  have hcounter := digitCount_uint32_le t.ulRunTimeCounter
  have hpercent := digitCount_uint32_le (t.ulRunTimeCounter / ulTotalTime)
  rw [statsWidth]
  split_ifs <;> omega

/-! ### The loop -/

section Loop

variable {fields : TaskStatus → Text} {width : TaskStatus → ℕ} {s : WriteState}

/-- While the text fits the buffer of the print task, the limit of the kernel is far away. -/
lemma writeTask_of_le (hfields : ∀ t, (fields t).length + 19 = width t)
    (hwidth : ∀ t, width t ≤ 56) (hfull : s.xOutputBufferFull = false)
    (hconsumed : s.uxConsumedBufferLength ≤ 255) (t : TaskStatus) :
    s.writeTask configSTATS_BUFFER_MAX_LENGTH fields t =
      ⟨s.written ++ prvWriteNameToBuffer t.pcTaskName ++ fields t,
        s.uxConsumedBufferLength + width t, false⟩ := by
  have hlength := hfields t
  have hle := hwidth t
  have hname : s.uxConsumedBufferLength + 20 ≤ 0xFFFF := by omega
  have hrest : s.uxConsumedBufferLength + (20 - 1) < 0xFFFF - 1 := by omega
  have hspace : (fields t).length < 0xFFFF - (s.uxConsumedBufferLength + (20 - 1)) := by omega
  simp only [WriteState.writeTask, hfull, Bool.false_eq_true, if_false,
    configSTATS_BUFFER_MAX_LENGTH, configMAX_TASK_NAME_LEN, if_pos hname, if_pos hrest,
    snprintf_of_lt hspace]
  rw [prvSnprintfReturnValueToCharsWritten, if_neg (by omega), if_neg (by omega), Int.toNat_natCast]
  congr 1
  omega

/-- The text never gets shorter. -/
lemma length_le_writeTask (uxBufferLength : ℕ) (fields : TaskStatus → Text) (s : WriteState)
    (t : TaskStatus) :
    s.written.length ≤ (s.writeTask uxBufferLength fields t).written.length := by
  simp only [WriteState.writeTask]
  split_ifs
  · exact le_rfl
  · simp only [List.length_append]
    omega
  · simp only [List.length_append]
    omega
  · exact le_rfl

lemma length_le_foldl_writeTask (uxBufferLength : ℕ) (fields : TaskStatus → Text)
    (tasks : List TaskStatus) (s : WriteState) :
    s.written.length ≤ (tasks.foldl (WriteState.writeTask uxBufferLength fields) s).written.length
      := by
  induction tasks generalizing s with
  | nil => exact le_rfl
  | cons t tasks ih => exact (length_le_writeTask uxBufferLength fields s t).trans (ih _)

/-- The lines fit the buffer of the print task if their widths add up to less than its size. -/
lemma foldl_writeTask_le_iff (hfields : ∀ t, (fields t).length + 19 = width t)
    (hwidth : ∀ t, width t ≤ 56) (tasks : List TaskStatus) (hfull : s.xOutputBufferFull = false)
    (hlength : s.written.length = s.uxConsumedBufferLength) :
    (tasks.foldl (WriteState.writeTask configSTATS_BUFFER_MAX_LENGTH fields) s).written.length + 1 ≤
        sizeofBuffer ↔
      s.uxConsumedBufferLength + (tasks.map width).sum + 1 ≤ sizeofBuffer := by
  induction tasks generalizing s with
  | nil => rw [List.foldl_nil, List.map_nil, List.sum_nil, add_zero, hlength]
  | cons t tasks ih =>
    rw [List.foldl_cons, List.map_cons, List.sum_cons]
    rcases le_or_gt s.uxConsumedBufferLength 255 with hle | hgt
    · have hline : (s.written ++ prvWriteNameToBuffer t.pcTaskName ++ fields t).length =
          s.uxConsumedBufferLength + width t := by
        rw [List.length_append, List.length_append, length_prvWriteNameToBuffer, hlength,
          ← hfields t]
        omega
      rw [writeTask_of_le hfields hwidth hfull hle, ih rfl hline,
        add_assoc s.uxConsumedBufferLength]
    · have hmono := length_le_foldl_writeTask configSTATS_BUFFER_MAX_LENGTH fields (t :: tasks) s
      rw [List.foldl_cons, hlength] at hmono
      rw [sizeofBuffer]
      constructor <;> intro h <;> omega

end Loop

/-! ### The report -/

/-- The widths of the lines of each text add up to less than the size of the buffer. -/
structure NarrowLines (listed measured : Option (List TaskStatus)) (ulTotalTime : UInt32) :
    Prop where
  list : ∀ tasks ∈ listed, (tasks.map listWidth).sum < 256
  stats : ∀ tasks ∈ measured, 0 < ulTotalTime / 100 →
    (tasks.map (statsWidth (ulTotalTime / 100))).sum < 256

lemma vTaskList_fits_iff (listed : Option (List TaskStatus)) :
    (vTaskList listed).length + 1 ≤ sizeofBuffer ↔
      ∀ tasks ∈ listed, (tasks.map listWidth).sum < 256 := by
  cases listed with
  | none => simp [vTaskList, vTaskListTasks, sizeofBuffer]
  | some tasks =>
    rw [vTaskList, vTaskListTasks,
      foldl_writeTask_le_iff length_listFields listWidth_le tasks rfl rfl]
    simp [sizeofBuffer, Nat.lt_succ_iff]

lemma vTaskGetRunTimeStats_fits_iff (measured : Option (List TaskStatus)) (ulTotalTime : UInt32) :
    (vTaskGetRunTimeStats measured ulTotalTime).length + 1 ≤ sizeofBuffer ↔
      ∀ tasks ∈ measured, 0 < ulTotalTime / 100 →
        (tasks.map (statsWidth (ulTotalTime / 100))).sum < 256 := by
  cases measured with
  | none => simp [vTaskGetRunTimeStats, vTaskGetRunTimeStatistics, sizeofBuffer]
  | some tasks =>
    simp only [vTaskGetRunTimeStats, vTaskGetRunTimeStatistics]
    split_ifs with htotal
    · rw [foldl_writeTask_le_iff (length_statsFields _) (statsWidth_le _) tasks rfl rfl]
      simp [sizeofBuffer, Nat.lt_succ_iff, htotal]
    · simp [sizeofBuffer, htotal]

/-- Whatever tasks the kernel holds in the two calls, the texts fit the buffer if and only if the
widths of their lines add up to less than its size. -/
theorem reportFits_iff (listed measured : Option (List TaskStatus)) (ulTotalTime : UInt32) :
    ReportFits listed measured ulTotalTime ↔ NarrowLines listed measured ulTotalTime := by
  rw [ReportFits, PrintTask, List.forall_mem_cons, List.forall_mem_singleton, vTaskList_fits_iff,
    vTaskGetRunTimeStats_fits_iff]
  exact ⟨fun h => ⟨h.1, h.2⟩, fun h => ⟨h.list, h.stats⟩⟩

/-! ### Accepted tables -/

namespace TaskManager

variable {σ : Type}

/-- Nothing but `InitAllTasks` changes the task list or how far it has come. -/
lemma TaskEntry_tasks (s : TaskManager σ) (t : TasksTable) :
    (s.TaskEntry t).tasks = s.tasks ∧ (s.TaskEntry t).next = s.next ∧
      (s.TaskEntry t).result = s.result := by
  cases ht : t.task with
  | none => simp only [TaskEntry, ht, and_self]
  | some o => cases ho : s.heap[o]? <;> simp only [TaskEntry, ht, callBack, ho, and_self]

/-- `InitAllTasks` has created the tasks before `next`, and all of them where it returned true. -/
structure CreatedBefore (n : ℕ) (s : TaskManager σ) : Prop where
  length_eq : s.tasks.length = n
  next_le : s.next ≤ n
  isSome : ∀ t ∈ s.tasks.take s.next, t.taskHandle.isSome = true
  next_eq : s.result = some true → s.next = n

lemma CreatedBefore.of_eq {n : ℕ} {s s' : TaskManager σ} (h : CreatedBefore n s)
    (heq : s'.tasks = s.tasks ∧ s'.next = s.next ∧ s'.result = s.result) : CreatedBefore n s' := by
  obtain ⟨htasks, hnext, hresult⟩ := heq
  constructor
  · rw [htasks, h.length_eq]
  · rw [hnext]
    exact h.next_le
  · rw [htasks, hnext]
    exact h.isSome
  · rw [hnext, hresult]
    exact h.next_eq

lemma CreatedBefore.InitAllTasks {n : ℕ} {s : TaskManager σ} (h : CreatedBefore n s) (ok : Bool) :
    CreatedBefore n (s.InitAllTasks ok) := by
  unfold TaskManager.InitAllTasks
  split
  · exact h
  · rename_i hresult
    split
    · rename_i hnone
      have hle : n ≤ s.next := h.length_eq ▸ List.getElem?_eq_none_iff.mp hnone
      exact ⟨h.length_eq, h.next_le, h.isSome, fun _ => le_antisymm h.next_le hle⟩
    · rename_i t ht
      obtain ⟨hlt, -⟩ := List.getElem?_eq_some_iff.mp ht
      rw [h.length_eq] at hlt
      split_ifs
      · refine ⟨(List.length_set).trans h.length_eq, hlt, ?_, fun hdone => ?_⟩
        · intro u hu
          rw [List.take_add_one, List.take_set_of_le le_rfl,
            List.getElem?_set_self (h.length_eq.symm ▸ hlt)] at hu
          rcases List.mem_append.mp hu with hu | hu
          · exact h.isSome u hu
          · rw [Option.toList_some, List.mem_singleton] at hu
            rw [hu]
            rfl
        · rw [hresult] at hdone
          cases hdone
      · exact ⟨h.length_eq, h.next_le, h.isSome, fun hdone => by cases hdone⟩

lemma CreatedBefore.step {n : ℕ} {s : TaskManager σ} (h : CreatedBefore n s) (e : Event) :
    CreatedBefore n (s.step e) := by
  obtain ⟨ok, hstep⟩ | hstep | ⟨t, started, hstep⟩ := s.step_cases e
  · rw [hstep]
    exact h.InitAllTasks ok
  · rwa [hstep]
  · rw [hstep]
    exact h.of_eq (TaskEntry_tasks s t)

lemma CreatedBefore.foldl_step {n : ℕ} (es : List Event) {s : TaskManager σ}
    (h : CreatedBefore n s) : CreatedBefore n (es.foldl TaskManager.step s) := by
  induction es generalizing s with
  | nil => exact h
  | cons e es ih => exact ih (h.step e)

lemma length_foldl_loadEntry (table : List (StaticTaskEntry σ)) (s : TaskManager σ) :
    (table.foldl loadEntry s).tasks.length = s.tasks.length + table.length := by
  induction table generalizing s with
  | nil => rfl
  | cons e table ih =>
    rw [List.foldl_cons, ih, loadEntry, List.length_append, List.length_singleton,
      List.length_cons, add_assoc, add_comm 1]

lemma LoadFromTable_createdBefore (table : List (StaticTaskEntry σ)) :
    CreatedBefore table.length (LoadFromTable table) := by
  have hlength : (LoadFromTable table).tasks.length = table.length := by
    rw [LoadFromTable, length_foldl_loadEntry, List.length_nil, zero_add]
  have hstart : (LoadFromTable table).next = 0 ∧ (LoadFromTable table).result = none := by
    apply List.foldlRecOn (motive := fun s : TaskManager σ => s.next = 0 ∧ s.result = none)
    · exact ⟨rfl, rfl⟩
    · intro s hs e _
      exact hs
  refine ⟨hlength, hstart.1 ▸ Nat.zero_le _, ?_, fun hdone => ?_⟩
  · rw [hstart.1, List.take_zero]
    exact List.forall_mem_nil _
  · rw [hstart.2] at hdone
    cases hdone

/-- The task manager after a run from the table. -/
def runFrom (table : List (StaticTaskEntry σ)) (es : List Event) : TaskManager σ :=
  es.foldl step (LoadFromTable table)

/-- Where `InitAllTasks` returns true, it has created a task for each entry of the table. -/
lemma length_created {table : List (StaticTaskEntry σ)} {es : List Event}
    (h : (runFrom table es).result = some true) :
    ((runFrom table es).tasks.filter fun t => t.taskHandle.isSome).length = table.length := by
  have hcreated : CreatedBefore table.length (runFrom table es) :=
    (LoadFromTable_createdBefore table).foldl_step es
  have hall := hcreated.isSome
  rw [hcreated.next_eq h, ← hcreated.length_eq, List.take_length] at hall
  rw [List.filter_eq_self.2 hall, hcreated.length_eq]

end TaskManager

/-- The name of a task, as `prvInitialiseNewTask` copies it. -/
def kernelName (pcName : String) : Text :=
  (pcName.toList.takeWhile fun c => c ≠ '\x00').take (configMAX_TASK_NAME_LEN - 1)

/-- The tasks of `main` and of the scheduler itself. -/
def systemTasks : List String := ["App task", "Print task", "IDLE", "Tmr Svc"]

/-- Every task that has been created is among the tasks of the kernel. -/
def KernelHolds {σ : Type} (s : TaskManager σ) (tasks : List TaskStatus) : Prop :=
  ((systemTasks ++ (s.tasks.filter fun t => t.taskHandle.isSome).map TasksTable.name).map
    kernelName).Subperm (tasks.map TaskStatus.pcTaskName)

lemma le_listWidth (t : TaskStatus) : 29 ≤ listWidth t := by
  rw [listWidth, digitCount, digitCount, digitCount]
  omega

lemma not_reportFits_of_nine_le {tasks : List TaskStatus} (h : 9 ≤ tasks.length)
    (measured : Option (List TaskStatus)) (ulTotalTime : UInt32) :
    ¬ ReportFits (some tasks) measured ulTotalTime := by
  intro hfits
  have hlist : (vTaskList (some tasks)).length + 1 ≤ sizeofBuffer :=
    hfits _ List.mem_cons_self
  have hsum := (vTaskList_fits_iff _).1 hlist tasks rfl
  have hwidth : (tasks.map listWidth).length • 29 ≤ (tasks.map listWidth).sum := by
    apply List.card_nsmul_le_sum
    intro w hw
    obtain ⟨t, -, rfl⟩ := List.mem_map.mp hw
    exact le_listWidth t
  rw [List.length_map, smul_eq_mul] at hwidth
  omega

/-- A table of five entries or more does not leave room for the task list. -/
lemma not_reportFits_of_five_le {σ : Type} {table : List (StaticTaskEntry σ)}
    {es : List TaskManager.Event} (haccepted : (TaskManager.runFrom table es).result = some true)
    (htable : 5 ≤ table.length) {tasks : List TaskStatus}
    (htasks : KernelHolds (TaskManager.runFrom table es) tasks)
    (measured : Option (List TaskStatus)) (ulTotalTime : UInt32) :
    ¬ ReportFits (some tasks) measured ulTotalTime := by
  apply not_reportFits_of_nine_le
  have hle := htasks.length_le
  rw [List.length_map, List.length_append, List.length_map, List.length_map,
    TaskManager.length_created haccepted] at hle
  have hsystem : systemTasks.length = 4 := rfl
  omega

/-- `static_task_table` with three more entries. -/
def fiveEntries : List (StaticTaskEntry PrintTaskt) :=
  static_task_table (fun _ => 0) ++
    [⟨Tasks.Create (PrintTaskt.cls fun _ => 0), "Print3", 256, 4, 0x5555⟩,
      ⟨Tasks.Create (PrintTaskt.cls fun _ => 0), "Print4", 256, 4, 0x6666⟩,
      ⟨Tasks.Create (PrintTaskt.cls fun _ => 0), "Print5", 256, 4, 0x7777⟩]

/-- A task waiting for its turn. -/
def readyTask (pcName : String) (xTaskNumber : UInt32) : TaskStatus where
  pcTaskName := kernelName pcName
  xTaskNumber := xTaskNumber
  eCurrentState := .eReady
  uxCurrentPriority := 4
  ulRunTimeCounter := 0
  usStackHighWaterMark := 100
  name_length := List.length_take_le _ _
  name_terminated := fun h => by simpa using List.mem_takeWhile_imp (List.mem_of_mem_take h)

/-- Five entries in the table and nine tasks in the kernel: the task list is longer than the
buffer. -/
theorem reportFits_five :
    ¬ ∀ (table : List (StaticTaskEntry PrintTaskt)) (es : List TaskManager.Event)
      (listed measured : Option (List TaskStatus)) (ulTotalTime : UInt32),
      (TaskManager.runFrom table es).result = some true →
      (∀ tasks ∈ listed, KernelHolds (TaskManager.runFrom table es) tasks) →
      (∀ tasks ∈ measured, KernelHolds (TaskManager.runFrom table es) tasks) →
      ReportFits listed measured ulTotalTime := by
  intro h
  let es : List TaskManager.Event := List.replicate 6 (.create true)
  let tasks : List TaskStatus :=
    [readyTask "App task" 1, readyTask "Print task" 2, readyTask "IDLE" 8, readyTask "Tmr Svc" 9,
      readyTask "Print1" 3, readyTask "Print2" 4, readyTask "Print3" 5, readyTask "Print4" 6,
      readyTask "Print5" 7]
  have haccepted : (TaskManager.runFrom fiveEntries es).result = some true := rfl
  have hnames : KernelHolds (TaskManager.runFrom fiveEntries es) tasks := List.Subperm.refl _
  have hholds : ∀ listed ∈ some tasks, KernelHolds (TaskManager.runFrom fiveEntries es) listed := by
    intro listed hlisted
    cases hlisted
    exact hnames
  exact not_reportFits_of_five_le haccepted (by decide) hnames (some tasks) 0
    (h fiveEntries es (some tasks) (some tasks) 0 haccepted hholds hholds)

end RT1064
