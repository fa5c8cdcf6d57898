import RT1064.Ringbuffer.Basic

/-!
# The task manager

Task objects live in a heap and are named by their position in it. A class derived from `Tasks`
is the record of what its constructor builds and what its two overrides do to the object; the
body of `CallBack` is an endless loop, of which the record holds one turn. Pointers that are only
passed on are `UInt32`.
-/

namespace RT1064

/-! ### Task classes and objects -/

/-- An argument of `usb_echo`. -/
inductive EchoArg where
  | int (n : Int)
  | str (s : String)
  | ptr (p : UInt32)
deriving DecidableEq, Repr

/-- One call of `usb_echo`: the format and its arguments. -/
structure Echo where
  format : String
  args : List EchoArg
deriving DecidableEq, Repr

/-- A class derived from `Tasks`. `Init` is `none` where an assertion in it fails; a turn of
`CallBack` sees the name of the running task and the parameter. -/
structure TaskClass (σ : Type) where
  construct : σ
  Init : UInt32 → σ → Option σ
  CallBack : String → UInt32 → σ → σ × List Echo

/-- A task object. `initialised` records that `Init` has been called on it. -/
structure Tasks (σ : Type) where
  cls : TaskClass σ
  members : σ
  initialised : Bool

variable {σ : Type}

namespace Tasks

def Init (t : Tasks σ) (handle : UInt32) : Option (Tasks σ) :=
  (t.cls.Init handle t.members).map fun m => { t with members := m, initialised := true }

def CallBack (t : Tasks σ) (name : String) (handle : UInt32) : Tasks σ × List Echo :=
  let r := t.cls.CallBack name handle t.members
  ({ t with members := r.1 }, r.2)

end Tasks

/-- The task objects, in the order of their construction. -/
abbrev Heap (σ : Type) := List (Tasks σ)

/-- A factory returns a pointer, null or not, and may do anything to the objects. -/
abbrev TaskFactoryFunc (σ : Type) := Heap σ → Option ℕ × Heap σ

/-- `Tasks::Create<T>`. -/
def Tasks.Create (T : TaskClass σ) : TaskFactoryFunc σ :=
  fun heap => (some heap.length, heap ++ [⟨T, T.construct, false⟩])

/-- `Init` has been called on the object behind the pointer. -/
def Heap.initialisedAt (heap : Heap σ) (o : ℕ) : Bool :=
  (heap[o]?.map Tasks.initialised).getD false

/-! ### Tables -/

structure StaticTaskEntry (σ : Type) where
  factory : TaskFactoryFunc σ
  name : String
  stackSize : UInt16
  priority : UInt32
  userParam : UInt32

structure TasksTable where
  task : Option ℕ
  name : String
  stackSize : UInt16
  priority : UInt32
  userParam : UInt32
  taskHandle : Option ℕ := none

/-! ### Booting -/

/-- The task list with the state of `InitAllTasks`: the entry its loop has come to, and what it
returned. `started` is the scheduler's record of the entries whose task has begun. -/
structure TaskManager (σ : Type) where
  heap : Heap σ := []
  tasks : List TasksTable := []
  next : ℕ := 0
  result : Option Bool := none
  started : List ℕ := []
  printed : List String := []
  echoed : List Echo := []

namespace TaskManager

/-- One iteration of the loop in `LoadFromTable`. -/
def loadEntry (s : TaskManager σ) (e : StaticTaskEntry σ) : TaskManager σ :=
  let r := e.factory s.heap
  { s with heap := r.2, tasks := s.tasks ++ [⟨r.1, e.name, e.stackSize, e.priority, e.userParam, none⟩] }

def LoadFromTable (table : List (StaticTaskEntry σ)) : TaskManager σ := table.foldl loadEntry {}

/-- One iteration of the loop in `InitAllTasks`, `ok` being the answer of `xTaskCreate`; the first
failure ends it, and `app_main` reports the failure as well. -/
def InitAllTasks (s : TaskManager σ) (ok : Bool) : TaskManager σ :=
  match s.result with
  | some _ => s
  | none =>
    match s.tasks[s.next]? with
    | none => { s with result := some true }
    | some t =>
      if ok then
        { s with tasks := s.tasks.set s.next { t with taskHandle := some s.next }, next := s.next + 1 }
      else
        { s with result := some false,
                 printed := s.printed ++ ["Task " ++ t.name ++ " creation failed!\r\n",
                   "Some tasks failed to start.\n"] }

/-- A turn of `CallBack` on the object `o`. -/
def callBack (s : TaskManager σ) (o : ℕ) (t : TasksTable) : TaskManager σ :=
  match s.heap[o]? with
  | none => s
  | some obj =>
    let r := obj.CallBack t.name t.userParam
    { s with heap := s.heap.set o r.1, echoed := s.echoed ++ r.2 }

/-- `TaskEntry` up to the end of the first turn of `CallBack`. -/
def TaskEntry (s : TaskManager σ) (entry : TasksTable) : TaskManager σ :=
  match entry.task with
  | none   => s
  | some o => s.callBack o entry

/-- The entry `i`, where `xTaskCreate` has succeeded for it. -/
def created (s : TaskManager σ) (i : ℕ) : Option TasksTable :=
  s.tasks[i]?.filter fun t => t.taskHandle.isSome

inductive Event where
  /-- `InitAllTasks` reaches its next `xTaskCreate`, which answers `ok`. -/
  | create (ok : Bool)
  /-- The scheduler runs the task of entry `i` for the first time. -/
  | start (i : ℕ)
  /-- The task of entry `i` goes through its loop once more. -/
  | turn (i : ℕ)
deriving DecidableEq, Repr

def step (s : TaskManager σ) : Event → TaskManager σ
  | .create ok => s.InitAllTasks ok
  | .start i =>
    match s.created i with
    | none => s
    | some t => if i ∈ s.started then s else { s.TaskEntry t with started := i :: s.started }
  | .turn i =>
    match s.created i with
    | none => s
    | some t => if i ∈ s.started then s.TaskEntry t else s

/-- A step calls `xTaskCreate`, does nothing, or goes through `CallBack` in the task of an entry. -/
lemma step_cases (s : TaskManager σ) (e : Event) :
    (∃ ok, s.step e = s.InitAllTasks ok) ∨ s.step e = s ∨
      ∃ t started, s.step e = { s.TaskEntry t with started := started } := by
  cases e with
  | create ok => exact Or.inl ⟨ok, rfl⟩
  | start i =>
    right
    cases hi : s.created i with
    | none =>
      left
      simp only [step, hi]
    | some t =>
      simp only [step, hi]
      split_ifs
      · exact Or.inl rfl
      · exact Or.inr ⟨t, i :: s.started, rfl⟩
  | turn i =>
    right
    cases hi : s.created i with
    | none =>
      left
      simp only [step, hi]
    | some t =>
      simp only [step, hi]
      split_ifs
      · exact Or.inr ⟨t, (s.TaskEntry t).started, rfl⟩
      · exact Or.inl rfl

/-- The object whose `CallBack` the event enters. -/
def enters (s : TaskManager σ) : Event → Option ℕ
  | .start i => if i ∈ s.started then none else (s.created i).bind TasksTable.task
  | _ => none

end TaskManager

/-! ### The print task -/

structure PrintTaskt where
  _ringbuffer : Ringbuffer 32 := .new

namespace PrintTaskt

def Init (block : ℕ → UInt8) (_handle : UInt32) (t : PrintTaskt) : Option PrintTaskt :=
  (t._ringbuffer.allocate 4096 block).map fun r => ⟨r.rb⟩

/-- `uint8_t test[3] = {1, 2, 3}`. -/
def test : ℕ → UInt8 := fun i => [1, 2, 3].getD i 0

/-- `uint8_t readback[3] = {0}`. -/
def readback : ℕ → UInt8 := fun _ => 0

/-- One turn of the loop. -/
def CallBack (name : String) (param : UInt32) (t : PrintTaskt) : PrintTaskt × List Echo :=
  let space_before := t._ringbuffer.space_available
  let pushed := t._ringbuffer.push_back (some test) 3
  let space_used_after_write := pushed.rb.space_used
  let popped := pushed.rb.pop_front (some readback) 3
  let space_used_after_read := popped.rb.space_used
  let data := popped.ret.2.getD readback
  (⟨popped.rb⟩,
    [⟨"_ringbuffer space_available=%d, space_used=%d (after write)\r\n",
        [.int space_before.toInt, .int space_used_after_write.toInt]⟩,
      ⟨"_ringbuffer space_used=%d (after read), data=[%d, %d, %d]\r\n",
        [.int space_used_after_read.toInt, .int (data 0).toNat, .int (data 1).toNat,
          .int (data 2).toNat]⟩,
      ⟨"Task [%s] running, param: %p\r\n", [.str name, .ptr param]⟩])

/-- The class, given what a block of memory from `new[]` holds. -/
def cls (block : ℕ → UInt8) : TaskClass PrintTaskt where
  construct := {}
  Init := Init block
  CallBack := CallBack

end PrintTaskt

/-- `static_task_table`. -/
def static_task_table (block : ℕ → UInt8) : List (StaticTaskEntry PrintTaskt) :=
  [⟨Tasks.Create (PrintTaskt.cls block), "Print1", 256, 4, 0x1234⟩,
    ⟨Tasks.Create (PrintTaskt.cls block), "Print2", 256, 4, 0x4444⟩]

end RT1064
