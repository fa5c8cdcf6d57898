import RT1064.Ringbuffer.Storage
import RT1064.Tasks.Basic

/-!
# Booting without `Init`

Neither `LoadFromTable` nor `InitAllTasks` nor `TaskEntry` calls `Init`: whether an object is
initialised when its `CallBack` is entered has been settled by the factories. For the print tasks
this means a ring buffer that is never allocated.
-/

namespace RT1064

open Core

variable {σ : Type}

namespace TaskManager

/-! ### Only the factories can initialise -/

/-- What the factories of a table do to the objects, one after the other. -/
def factoryHeap (table : List (StaticTaskEntry σ)) : Heap σ :=
  table.foldl (fun heap e => (e.factory heap).2) []

lemma foldl_loadEntry_heap (table : List (StaticTaskEntry σ)) (s : TaskManager σ) :
    (table.foldl loadEntry s).heap = table.foldl (fun heap e => (e.factory heap).2) s.heap := by
  induction table generalizing s with
  | nil => rfl
  | cons e table ih => exact ih (s.loadEntry e)

lemma LoadFromTable_heap (table : List (StaticTaskEntry σ)) :
    (LoadFromTable table).heap = factoryHeap table := foldl_loadEntry_heap table {}

/-- All that a step can do to the objects is one turn of `CallBack` on one of them. -/
def OneTurn (heap heap' : Heap σ) : Prop :=
  heap' = heap ∨ ∃ o obj name param, heap[o]? = some obj ∧
    heap' = heap.set o (obj.CallBack name param).1

lemma TaskEntry_heap (s : TaskManager σ) (t : TasksTable) :
    OneTurn s.heap (s.TaskEntry t).heap := by
  cases ht : t.task with
  | none =>
    left
    simp only [TaskEntry, ht]
  | some o =>
    cases ho : s.heap[o]? with
    | none =>
      left
      simp only [TaskEntry, ht, callBack, ho]
    | some obj =>
      right
      refine ⟨o, obj, t.name, t.userParam, ho, ?_⟩
      simp only [TaskEntry, ht, callBack, ho]

lemma InitAllTasks_heap (s : TaskManager σ) (ok : Bool) : (s.InitAllTasks ok).heap = s.heap := by
  unfold InitAllTasks
  split
  · rfl
  · split
    · rfl
    · cases ok <;> rfl

lemma step_heap (s : TaskManager σ) (e : Event) : OneTurn s.heap (s.step e).heap := by
  obtain ⟨ok, h⟩ | h | ⟨t, started, h⟩ := s.step_cases e
  · rw [h]
    exact Or.inl (InitAllTasks_heap s ok)
  · rw [h]
    exact Or.inl rfl
  · rw [h]
    exact TaskEntry_heap s t

/-- A turn of `CallBack` initialises nothing. -/
lemma OneTurn.initialisedAt {heap heap' : Heap σ} (h : OneTurn heap heap') (p : ℕ) :
    heap'.initialisedAt p = heap.initialisedAt p := by
  rcases h with rfl | ⟨o, obj, name, param, ho, rfl⟩
  · rfl
  unfold Heap.initialisedAt
  by_cases hp : o = p
  · subst hp
    obtain ⟨hlt, -⟩ := List.getElem?_eq_some_iff.mp ho
    rw [List.getElem?_set_self hlt, ho]
    rfl
  · rw [List.getElem?_set_ne hp]

/-! ### Init before CallBack -/

/-- `CallBack` is entered only where `Init` has been called on the object. -/
def InitFirst (s : TaskManager σ) (e : Event) : Prop :=
  ∀ o, s.enters e = some o → s.heap.initialisedAt o = true

/-- The object whose `CallBack` is entered, if any, was initialised by the factories. -/
def MadeInitialised (table : List (StaticTaskEntry σ)) (s : TaskManager σ) (e : Event) : Prop :=
  ∀ o, s.enters e = some o → (factoryHeap table).initialisedAt o = true

/-- For every table, every answer of `xTaskCreate` and every order of starts and turns: `Init`
comes before `CallBack` exactly where the factories have seen to it. -/
theorem init_before_callBack_iff (table : List (StaticTaskEntry σ)) (es : List Event) :
    EveryStep step InitFirst (LoadFromTable table) es ↔
      EveryStep step (MadeInitialised table) (LoadFromTable table) es := by
  apply everyStep_iff_of_inv
    (fun s => ∀ p, s.heap.initialisedAt p = (factoryHeap table).initialisedAt p)
  · intro s e hs _ p
    rw [(step_heap s e).initialisedAt, hs]
  · intro s e hs
    simp only [InitFirst, MadeInitialised, hs]
  · intro p
    rw [LoadFromTable_heap]

/-- `Create` leaves the object uninitialised. -/
lemma factoryHeap_of_create {table : List (StaticTaskEntry σ)}
    (h : ∀ e ∈ table, ∃ T, e.factory = Tasks.Create T) {heap : Heap σ}
    (hheap : ∀ obj ∈ heap, obj.initialised = false) :
    ∀ obj ∈ table.foldl (fun heap e => (e.factory heap).2) heap, obj.initialised = false := by
  induction table generalizing heap with
  | nil => exact hheap
  | cons e table ih =>
    apply ih fun e' he' => h e' (List.mem_cons_of_mem e he')
    obtain ⟨T, hT⟩ := h e List.mem_cons_self
    intro obj hobj
    simp only [hT, Tasks.Create] at hobj
    rcases List.mem_append.mp hobj with hobj | hobj
    · exact hheap obj hobj
    · rw [List.mem_singleton.mp hobj]

/-- With the factory the source has, no task may have an object. -/
theorem init_before_callBack_of_create {table : List (StaticTaskEntry σ)}
    (h : ∀ e ∈ table, ∃ T, e.factory = Tasks.Create T) (es : List Event) :
    EveryStep step InitFirst (LoadFromTable table) es ↔
      EveryStep step (fun s e => s.enters e = none) (LoadFromTable table) es := by
  rw [init_before_callBack_iff]
  have hnot : ∀ o, (factoryHeap table).initialisedAt o = false := by
    intro o
    unfold Heap.initialisedAt
    cases ho : (factoryHeap table)[o]? with
    | none => rfl
    | some obj =>
      exact factoryHeap_of_create h (by simp) obj (List.mem_of_getElem? ho)
  have hiff : ∀ s e, MadeInitialised table s e ↔ s.enters e = none := by
    intro s e
    simp only [MadeInitialised, hnot, Bool.false_eq_true, imp_false]
    exact Option.eq_none_iff_forall_ne_some.symm
  exact ⟨EveryStep.mono fun s e => (hiff s e).mp, EveryStep.mono fun s e => (hiff s e).mpr⟩

/-- Two creations that succeed and the first start. -/
theorem callBack_before_init :
    ¬ ∀ (table : List (StaticTaskEntry PrintTaskt)) (es : List Event),
      EveryStep step InitFirst (LoadFromTable table) es := by
  intro h
  have hrun := h (static_task_table fun _ => 0) [.create true, .create true, .start 0]
  exact absurd (hrun.2.2.1 0 rfl) (by decide)

end TaskManager

/-! ### The print tasks -/

namespace PrintTaskt

open Ringbuffer

/-- With `Init` first, the ring buffer starts as an empty queue of 4095 bytes. -/
theorem Init_represents (block : ℕ → UInt8) (handle : UInt32) :
    ∃ t, Init block handle {} = some t ∧ Represents 4096 t._ringbuffer [] :=
  ⟨_, rfl, represents_empty (n := (4096 : BitVec 32)) (by decide) block⟩

/-- A turn on an empty queue prints what went in and leaves the queue empty. -/
theorem CallBack_represents {t : PrintTaskt} (h : Represents 4096 t._ringbuffer [])
    (name : String) (param : UInt32) :
    Represents 4096 (CallBack name param t).1._ringbuffer [] ∧
      (CallBack name param t).2 =
        [⟨"_ringbuffer space_available=%d, space_used=%d (after write)\r\n", [.int 4095, .int 3]⟩,
          ⟨"_ringbuffer space_used=%d (after read), data=[%d, %d, %d]\r\n",
            [.int 0, .int 1, .int 2, .int 3]⟩,
          ⟨"Task [%s] running, param: %p\r\n", [.str name, .ptr param]⟩] := by
  have h3 : (3 : BitVec 32).toNat = 3 := rfl
  obtain ⟨hpush, hpushed, -⟩ := h.push_back_represents test 3 (by decide) (by decide)
  obtain ⟨hpop, hpopped, -⟩ := hpushed.pop_front_represents readback 3
  have havail := eq_ofNat h.space_available_toNat
  have hafter := eq_ofNat hpushed.space_used_toNat
  have hread := eq_ofNat hpopped.space_used_toNat
  refine ⟨hpopped, ?_⟩
  simp only [CallBack, havail, hafter, hread, hpop]
  rfl

/-- The object is a print task whose ring buffer owns no storage. -/
def Unallocated (block : ℕ → UInt8) (obj : Tasks PrintTaskt) : Prop :=
  obj.cls = cls block ∧ obj.members._ringbuffer._ringbuffer = none ∧
    obj.members._ringbuffer._size = 0

/-- `CallBack` allocates nothing. -/
lemma CallBack_unallocated {block : ℕ → UInt8} {obj : Tasks PrintTaskt} (h : Unallocated block obj)
    (name : String) (param : UInt32) : Unallocated block (obj.CallBack name param).1 := by
  obtain ⟨hcls, hnone, hsize⟩ := h
  have hpush := call_storage obj.members._ringbuffer (.push_back (some test) 3)
  have hpop := call_storage (obj.members._ringbuffer.call (.push_back (some test) 3)).rb
    (.pop_front (some readback) 3)
  rw [hpush.1, hpush.2, hnone, hsize] at hpop
  refine ⟨hcls, ?_, ?_⟩
  · simp only [Tasks.CallBack, hcls]
    exact Option.isSome_eq_false_iff.mp hpop.2 |> Option.isNone_iff_eq_none.mp
  · simp only [Tasks.CallBack, hcls]
    exact hpop.1

/-- In every run of the repository's own table, each print task works on a ring buffer without
storage, one that nevertheless offers space. -/
theorem never_allocated (block : ℕ → UInt8) (es : List TaskManager.Event) :
    ∀ obj ∈ (es.foldl TaskManager.step (TaskManager.LoadFromTable (static_task_table block))).heap,
      obj.members._ringbuffer._ringbuffer = none ∧ ¬ obj.members._ringbuffer.OffersNothing := by
  intro obj hobj
  have hinv : ∀ obj ∈ (es.foldl TaskManager.step
      (TaskManager.LoadFromTable (static_task_table block))).heap, Unallocated block obj := by
    apply inv_foldl_of_forall fun s : TaskManager PrintTaskt =>
      ∀ obj ∈ s.heap, Unallocated block obj
    · intro s e hs obj hobj
      rcases TaskManager.step_heap s e with heq | ⟨o, obj', name, param, ho, heq⟩
      · exact hs obj (heq ▸ hobj)
      · rw [heq] at hobj
        rcases List.mem_or_eq_of_mem_set hobj with hobj | rfl
        · exact hs obj hobj
        · exact CallBack_unallocated (hs obj' (List.mem_of_getElem? ho)) name param
    · intro obj hobj
      simp only [TaskManager.LoadFromTable, static_task_table, List.foldl, TaskManager.loadEntry,
        Tasks.Create, List.nil_append, List.cons_append, List.mem_cons, List.not_mem_nil,
        or_false] at hobj
      rcases hobj with rfl | rfl <;> exact ⟨rfl, rfl, rfl⟩
  obtain ⟨-, hnone, hsize⟩ := hinv obj hobj
  exact ⟨hnone, not_offersNothing_of_size (by decide) hsize⟩

end PrintTaskt

end RT1064
