import RT1064.Kernel.TasksSound

/-!
# Waking tasks

Ticks, events and the end of a suspension wake tasks: these leave the lists in which they wait and
are ready. `Wakes` relates the states before and after, with the set of the tasks; it composes.
-/

namespace RT1064.Kernel

open Core

namespace Scheduler

variable {T E : Type} {k k' k'' : Scheduler T E} {t c : T} {W W' : Set T}

/-- The tasks `W` were woken, and no other task changed its lists. -/
structure Wakes (k k' : Scheduler T E) (W : Set T) : Prop where
  waits : ∀ t ∈ W, k.Waits t
  ready : ∀ t ∈ W, k'.Ready t (k.uxPriority t) ∧ k'.events.container t = none
  state : ∀ t ∉ W, k'.states.container t = k.states.container t
  event : ∀ t ∉ W, k'.events.container t = k.events.container t
  order : ∀ p, (k.states.rota (.pxReadyTasksLists p)).order.Sublist
    (k'.states.rota (.pxReadyTasksLists p)).order
  event_items : ∀ l, (k'.events.items l).Sublist (k.events.items l)
  state_key : k'.states.key = k.states.key
  event_key : k'.events.key = k.events.key
  priority : k'.uxPriority = k.uxPriority
  current : k'.pxCurrentTCB = k.pxCurrentTCB
  running : k'.xSchedulerRunning = k.xSchedulerRunning
  number : k'.uxCurrentNumberOfTasks = k.uxCurrentNumberOfTasks
  deleted : k'.uxDeletedTasksWaitingCleanUp = k.uxDeletedTasksWaitingCleanUp

/-- Lists and tasks are the same. -/
structure SameTasks (k k' : Scheduler T E) : Prop where
  states : k'.states = k.states
  events : k'.events = k.events
  priority : k'.uxPriority = k.uxPriority
  current : k'.pxCurrentTCB = k.pxCurrentTCB
  running : k'.xSchedulerRunning = k.xSchedulerRunning
  number : k'.uxCurrentNumberOfTasks = k.uxCurrentNumberOfTasks
  deleted : k'.uxDeletedTasksWaitingCleanUp = k.uxDeletedTasksWaitingCleanUp

lemma SameTasks.wakes (h : SameTasks k k') : Wakes k k' ∅ where
  waits := fun _ ht => ht.elim
  ready := fun _ ht => ht.elim
  state := fun t _ => by rw [h.states]
  event := fun t _ => by rw [h.events]
  order := fun p => by rw [h.states]
  event_items := fun l => by rw [h.events]
  state_key := by rw [h.states]
  event_key := by rw [h.events]
  priority := h.priority
  current := h.current
  running := h.running
  number := h.number
  deleted := h.deleted

lemma Wakes.refl (k : Scheduler T E) : Wakes k k ∅ :=
  SameTasks.wakes ⟨rfl, rfl, rfl, rfl, rfl, rfl, rfl⟩

lemma Wakes.not_waits (h : Wakes k k' W) (ht : t ∈ W) : ¬ k'.Waits t := fun hw =>
  hw.not_ready _ (h.ready t ht).1

lemma Wakes.trans (h : Wakes k k' W) (h' : Wakes k' k'' W') : Wakes k k'' (W ∪ W') := by
  constructor
  case waits =>
    rintro t (ht | ht)
    · exact h.waits t ht
    · by_cases hW : t ∈ W
      · exact h.waits t hW
      · obtain ⟨l, hl, hcontainer⟩ := h'.waits t ht
        exact ⟨l, hl, (h.state t hW).symm.trans hcontainer⟩
  case ready =>
    intro t ht
    by_cases hW' : t ∈ W'
    · have hready := h'.ready t hW'
      rwa [h.priority] at hready
    · have hW : t ∈ W := ht.resolve_right hW'
      exact ⟨(h'.state t hW').trans (h.ready t hW).1, (h'.event t hW').trans (h.ready t hW).2⟩
  case state =>
    intro t ht
    rw [Set.mem_union, not_or] at ht
    exact (h'.state t ht.2).trans (h.state t ht.1)
  case event =>
    intro t ht
    rw [Set.mem_union, not_or] at ht
    exact (h'.event t ht.2).trans (h.event t ht.1)
  case order => exact fun p => (h.order p).trans (h'.order p)
  case event_items => exact fun l => (h'.event_items l).trans (h.event_items l)
  case state_key => exact h'.state_key.trans h.state_key
  case event_key => exact h'.event_key.trans h.event_key
  case priority => exact h'.priority.trans h.priority
  case current => exact h'.current.trans h.current
  case running => exact h'.running.trans h.running
  case number => exact h'.number.trans h.number
  case deleted => exact h'.deleted.trans h.deleted

lemma Wakes.same (h : Wakes k k' W) (h' : SameTasks k' k'') : Wakes k k'' W := by
  have hw := h.trans h'.wakes
  rwa [Set.union_empty] at hw

lemma SameTasks.wakes_trans (h : SameTasks k k') (h' : Wakes k' k'' W) : Wakes k k'' W := by
  have hw := h.wakes.trans h'
  rwa [Set.empty_union] at hw

/-- A task that is ready afterwards was ready before, or it was woken. -/
lemma Wakes.ready_of (h : Wakes k k' W) {p : Fin configMAX_PRIORITIES} (ht : k'.Ready t p) :
    k.Ready t p ∨ t ∈ W ∧ p = k.uxPriority t := by
  by_cases hW : t ∈ W
  · have heq := Option.some_inj.1 (ht.symm.trans (h.ready t hW).1)
    cases heq
    exact .inr ⟨hW, rfl⟩
  · exact .inl ((h.state t hW).symm.trans ht)

lemma Wakes.ready_mono (h : Wakes k k' W) {p : Fin configMAX_PRIORITIES} (ht : k.Ready t p) :
    k'.Ready t p := by
  have hW : t ∉ W := fun hW => (h.waits t hW).not_ready p ht
  exact (h.state t hW).trans ht

lemma Wakes.waits_of (h : Wakes k k' W) {l : StateList} (hl : l.Blocked)
    (ht : k'.states.container t = some l) : t ∉ W ∧ k.states.container t = some l := by
  have hW : t ∉ W := fun hW => h.not_waits hW ⟨l, hl, ht⟩
  exact ⟨hW, (h.state t hW).symm.trans ht⟩

variable [DecidableEq T]

lemma Unblocks.wakes (h : Unblocks k t k') (ht : k.Waits t) : Wakes k k' {t} := by
  constructor
  case waits =>
    rintro u rfl
    exact ht
  case ready =>
    rintro u rfl
    exact ⟨h.container_self, by rw [h.event_container, Function.update_self]⟩
  case state => exact fun u hu => h.container_of_ne hu
  case event => exact fun u hu => by rw [h.event_container, Function.update_of_ne hu]
  case order =>
    intro p
    obtain ⟨l, hl, hcontainer⟩ := ht
    rw [h.states.rota]
    split_ifs with hp
    · rw [hp]
      exact Rota.order_sublist_insertEnd _ t
    · rw [Rotas.erase_of_container hcontainer]
      rintro rfl
      exact hl
  case event_items =>
    intro l
    rw [h.event_items]
    exact List.erase_sublist
  case state_key => exact h.state_key
  case event_key => exact h.event_key
  all_goals rw [h.rest]

/-! ### The loops -/

/-- The loops change the lists and what is to be done about them. -/
def LoopFrame (k k' : Scheduler T E) : Prop :=
  k' = { k with
    states := k'.states
    events := k'.events
    uxTopReadyPriority := k'.uxTopReadyPriority
    xNextTaskUnblockTime := k'.xNextTaskUnblockTime
    xYieldPending := k'.xYieldPending }

omit [DecidableEq T] in
lemma LoopFrame.trans (h : LoopFrame k k') (h' : LoopFrame k' k'') : LoopFrame k k'' := by
  refine Eq.trans h' ?_
  rw [LoopFrame] at h
  rw [h]

lemma Unblocks.loopFrame (h : Unblocks k t k') : LoopFrame k k' := by
  have hunblock : k'.xNextTaskUnblockTime = k.xNextTaskUnblockTime := by rw [h.rest]
  have hyield : k'.xYieldPending = k.xYieldPending := by rw [h.rest]
  have htop : k'.uxTopReadyPriority =
      portRECORD_READY_PRIORITY (k.uxPriority t) k.uxTopReadyPriority := by rw [h.rest]
  rw [LoopFrame, hunblock, hyield, htop]
  exact h.rest

section Loops

variable [DecidableEq E]

/-- The tasks whose time has come. -/
def Expired (k : Scheduler T E) : Set T :=
  {t | k.states.container t = some k.pxDelayedTaskList ∧
    (k.states.key t).toNat ≤ k.xTickCount.toNat}

/-- What the rounds of the loop that unblocks tasks keep. -/
structure Unblocking (k : Scheduler T E) (c : T) (b : Bool) (W : Set T) (k' : Scheduler T E)
    (b' : Bool) : Prop where
  sound : k'.Sound
  wakes : Wakes k k' W
  frame : LoopFrame k k'
  yield : k'.xYieldPending = k.xYieldPending
  expired : W ⊆ k.Expired
  switch : b = true ∨ (∃ t ∈ W, k.uxPriority c < k.uxPriority t) → b' = true

variable {k₁ : Scheduler T E} {b b₁ : Bool}

/-- A round in which a task is unblocked. -/
lemma Unblocking.round (h : Unblocking k c b W k₁ b₁) (hc : k.pxCurrentTCB = some c)
    (ht : k₁.states.head k.pxDelayedTaskList = some t)
    (hkey : (k.states.key t).toNat ≤ k.xTickCount.toNat) :
    ∃ k₂ b₂, unblockNext (k₁, b₁) = some (.inl (k₂, b₂)) ∧ Unblocking k c b (W ∪ {t}) k₂ b₂ ∧
      (k₂.states.items k.pxDelayedTaskList).length <
        (k₁.states.items k.pxDelayedTaskList).length := by
  have hdelayed : k₁.pxDelayedTaskList = k.pxDelayedTaskList := by rw [h.frame]
  have hcount : k₁.xTickCount = k.xTickCount := by rw [h.frame]
  have hmem : t ∈ k₁.states.items k.pxDelayedTaskList := List.mem_of_mem_head? ht
  have hblocked : k.pxDelayedTaskList.Blocked := hdelayed ▸ h.sound.states.delayed_blocked.1
  have hwaits : k₁.Waits t := ⟨_, hblocked, Rotas.mem_iff.1 hmem⟩
  obtain ⟨n, l₁, l₂, k₂, h₁, h₂, h₃, hunblocks⟩ := hwaits.unblock
  have hwakes := h.wakes.trans (hunblocks.wakes hwaits)
  have hframe := h.frame.trans hunblocks.loopFrame
  have hyield : k₂.xYieldPending = k.xYieldPending := by rw [hunblocks.rest, ← h.yield]
  have hround : unblockNext (k₁, b₁) =
      some (.inl (k₂, if k.uxPriority c < k.uxPriority t then true else b₁)) := by
    have hlt : ¬ k₁.xTickCount < k₁.states.key t := by
      rw [BitVec.lt_def, hcount, h.wakes.state_key]
      omega
    simp only [unblockNext, hdelayed, ht, if_neg hlt, h₁, h₂, h₃, Option.bind_eq_bind,
      Option.bind_some, hwakes.current, hc, hwakes.priority]
    split_ifs <;> rfl
  refine ⟨k₂, _, hround, ⟨hunblocks.sound h.sound hwaits, hwakes, hframe, hyield, ?_, ?_⟩, ?_⟩
  · rintro u (hu | rfl)
    · exact h.expired hu
    · exact ⟨(h.wakes.waits_of hblocked (Rotas.mem_iff.1 hmem)).2, hkey⟩
  · rintro hor
    split_ifs with hlt
    · rfl
    · refine h.switch (hor.imp_right ?_)
      rintro ⟨u, hu | rfl, hu'⟩
      · exact ⟨u, hu, hu'⟩
      · exact absurd hu' hlt
  · have hready : k.pxDelayedTaskList ≠ .pxReadyTasksLists (k₁.uxPriority t) :=
      hdelayed ▸ h.sound.states.delayed_ne_ready _
    rw [hunblocks.states.items hready, List.length_erase_of_mem hmem]
    exact Nat.sub_lt (List.length_pos_of_mem hmem) Nat.one_pos

omit [DecidableEq T] [DecidableEq E] in
/-- The loop may stop when no task is left whose time has come. -/
lemma Unblocking.stop (h : Unblocking k c b W k₁ b₁)
    (hlater : ∀ t, k₁.states.container t = some k.pxDelayedTaskList →
      k.xTickCount.toNat < (k.states.key t).toNat) (v : TickType_t) :
    Unblocking k c b k.Expired { k₁ with xNextTaskUnblockTime := v } b₁ := by
  have hW : W = k.Expired := by
    refine h.expired.antisymm fun t ht => ?_
    by_contra hnot
    have hlt := hlater t ((h.wakes.state t hnot).trans ht.1)
    exact absurd ht.2 (by omega)
  subst hW
  refine ⟨h.sound.congr rfl rfl rfl rfl rfl rfl rfl rfl,
    h.wakes.same ⟨rfl, rfl, rfl, rfl, rfl, rfl, rfl⟩, h.frame.trans rfl, h.yield, h.expired,
    h.switch⟩

/-- The loop wakes all whose time has come, and finds the next time. -/
lemma unblockNext_loop (h : k.Sound) (hc : k.pxCurrentTCB = some c) (b : Bool) :
    ∃ r, forever unblockNext ((k.states.items k.pxDelayedTaskList).length + 1) (k, b) = some r ∧
      Unblocking k c b k.Expired r.1 r.2 ∧
      ∀ t, r.1.states.container t = some k.pxDelayedTaskList →
        k.xTickCount.toNat < (k.states.key t).toNat ∧
          r.1.xNextTaskUnblockTime.toNat ≤ (k.states.key t).toNat := by
  have hfirst : Unblocking k c b ∅ k b :=
    ⟨h, .refl k, rfl, rfl, Set.empty_subset _, fun hor => hor.resolve_right (by simp)⟩
  refine forever_of_lt (fun s => ∃ W, Unblocking k c b W s.1 s.2) _
    (fun s => (s.1.states.items k.pxDelayedTaskList).length) ?_ ⟨∅, hfirst⟩ (Nat.lt_succ_self _)
  rintro ⟨k₁, b₁⟩ ⟨W, hk₁⟩
  dsimp only at hk₁ ⊢
  have hdelayed : k₁.pxDelayedTaskList = k.pxDelayedTaskList := by rw [hk₁.frame]
  have hcount : k₁.xTickCount = k.xTickCount := by rw [hk₁.frame]
  cases hhead : k₁.states.head k.pxDelayedTaskList with
  | none =>
    have hnone := Rotas.container_ne_of_head hhead
    refine .inr ⟨({ k₁ with xNextTaskUnblockTime := portMAX_DELAY }, b₁), ?_, ?_, ?_⟩
    · simp only [unblockNext, hdelayed, hhead]
    · exact hk₁.stop (fun t ht => absurd ht (hnone t)) _
    · exact fun t ht => absurd ht (hnone t)
  | some t =>
    by_cases hkey : (k.states.key t).toNat ≤ k.xTickCount.toNat
    · obtain ⟨k₂, b₂, hround, hk₂, hlt⟩ := hk₁.round hc hhead hkey
      exact .inl ⟨(k₂, b₂), hround, ⟨_, hk₂⟩, hlt⟩
    · -- the list is sorted, so that all tasks in it are to wait
      have hleast : ∀ u, k₁.states.container u = some k.pxDelayedTaskList →
          (k.states.key t).toNat ≤ (k.states.key u).toNat := by
        have hsorted := hk₁.sound.states.delayed_sorted
        rw [hdelayed, hk₁.wakes.state_key] at hsorted
        intro u hu
        have hle := Rotas.rel_of_head hsorted le_rfl hhead hu
        exact hle
      refine .inr ⟨({ k₁ with xNextTaskUnblockTime := k₁.states.key t }, b₁), ?_, ?_, ?_⟩
      · have hlt : k₁.xTickCount < k₁.states.key t := by
          rw [BitVec.lt_def, hcount, hk₁.wakes.state_key]
          omega
        simp only [unblockNext, hdelayed, hhead, if_pos hlt]
      · exact hk₁.stop (fun u hu => (Nat.lt_of_not_le hkey).trans_le (hleast u hu)) _
      · intro u hu
        dsimp only
        rw [hk₁.wakes.state_key]
        exact ⟨(Nat.lt_of_not_le hkey).trans_le (hleast u hu), hleast u hu⟩

omit [DecidableEq T] [DecidableEq E] in
/-- The next time is not behind the first task of the delayed list. -/
lemma prvResetNextTaskUnblockTime_spec (h : (k.states.items k.pxDelayedTaskList).Pairwise
    fun t u => (k.states.key t).toNat ≤ (k.states.key u).toNat) :
    ∃ v, k.prvResetNextTaskUnblockTime = { k with xNextTaskUnblockTime := v } ∧
      ∀ t, k.states.container t = some k.pxDelayedTaskList →
        v.toNat ≤ (k.states.key t).toNat := by
  rw [prvResetNextTaskUnblockTime]
  cases hhead : k.states.head k.pxDelayedTaskList with
  | none => exact ⟨_, rfl, fun t ht => absurd ht (Rotas.container_ne_of_head hhead t)⟩
  | some u =>
    refine ⟨_, rfl, fun t ht => ?_⟩
    have hle := Rotas.rel_of_head h le_rfl hhead ht
    exact hle

/-- The tasks that the next tick wakes. -/
def Due (k : Scheduler T E) : Set T :=
  {t | k.states.key t = k.xTickCount + 1 ∧ k.states.container t =
    some (if k.xTickCount + 1 = 0 then k.pxOverflowDelayedTaskList else k.pxDelayedTaskList)}

/-- The state after the count was incremented and the lists were switched. -/
structure Advanced (k k₁ : Scheduler T E) : Prop where
  sound : k₁.Sound
  same : SameTasks k k₁
  count : k₁.xTickCount = k.xTickCount + 1
  delayedList : k₁.pxDelayedTaskList =
    if k.xTickCount + 1 = 0 then k.pxOverflowDelayedTaskList else k.pxDelayedTaskList
  overflowList : k₁.pxOverflowDelayedTaskList =
    if k.xTickCount + 1 = 0 then k.pxDelayedTaskList else k.pxOverflowDelayedTaskList
  overflow : ∀ t, k₁.states.container t = some k₁.pxOverflowDelayedTaskList →
    (k₁.states.key t).toNat < k₁.xTickCount.toNat
  unblock : ∀ t, k₁.states.container t = some k₁.pxDelayedTaskList →
    k₁.xNextTaskUnblockTime.toNat ≤ (k₁.states.key t).toNat
  expired : k₁.Expired = k.Due
  pended : k₁.xPendedTicks = k.xPendedTicks
  suspended : k₁.uxSchedulerSuspended = k.uxSchedulerSuspended
  yield : k₁.xYieldPending = k.xYieldPending
  pendSV : k₁.pendSV = k.pendSV

omit [DecidableEq T] [DecidableEq E] in
/-- The count overflows only when no task is in the delayed list. -/
lemma Timely.delayed_empty (h : k.Timely) (hwrap : k.xTickCount + 1 = 0) :
    k.states.items k.pxDelayedTaskList = [] := by
  refine List.eq_nil_iff_forall_not_mem.2 fun t ht => ?_
  have hlt := h.delayed t (Rotas.mem_iff.1 ht)
  have hcount : k.xTickCount.toNat = 2 ^ 32 - 1 := by bv_omega
  have := (k.states.key t).isLt
  omega

omit [DecidableEq T] [DecidableEq E] in
lemma Timely.advance (h : k.Timely) (hsound : k.Sound) :
    ∃ k₁, (if k.xTickCount + 1 = 0 then
        ({ k with xTickCount := k.xTickCount + 1 } : Scheduler T E).taskSWITCH_DELAYED_LISTS
      else some { k with xTickCount := k.xTickCount + 1 }) = some k₁ ∧ Advanced k k₁ := by
  split_ifs with hwrap
  · have hempty := h.delayed_empty hwrap
    have hlists := hsound.states.delayedLists
    have hswitched : ({ k with
        xTickCount := k.xTickCount + 1
        pxDelayedTaskList := k.pxOverflowDelayedTaskList
        pxOverflowDelayedTaskList := k.pxDelayedTaskList
        xNumOfOverflows := k.xNumOfOverflows + 1 } : Scheduler T E).Sound := by
      obtain ⟨⟨h1, h2, h3, h4, h5, h6, h7⟩, ⟨h8, h9, h10⟩⟩ := hsound
      exact ⟨⟨hlists.symm.imp And.symm And.symm, h2, h3, h5, h4, h6, h7⟩, ⟨h8, h9, h10⟩⟩
    obtain ⟨v, hv, hle⟩ := prvResetNextTaskUnblockTime_spec hswitched.states.delayed_sorted
    refine ⟨{ k with
      xTickCount := k.xTickCount + 1
      pxDelayedTaskList := k.pxOverflowDelayedTaskList
      pxOverflowDelayedTaskList := k.pxDelayedTaskList
      xNumOfOverflows := k.xNumOfOverflows + 1
      xNextTaskUnblockTime := v }, ?_, ?_⟩
    · rw [taskSWITCH_DELAYED_LISTS, if_pos hempty]
      exact congrArg some hv
    constructor
    case sound => exact hswitched.congr rfl rfl rfl rfl rfl rfl rfl rfl
    case same => exact ⟨rfl, rfl, rfl, rfl, rfl, rfl, rfl⟩
    case delayedList => rw [if_pos hwrap]
    case overflowList => rw [if_pos hwrap]
    case overflow =>
      intro t ht
      have hmem : t ∈ k.states.items k.pxDelayedTaskList := Rotas.mem_iff.2 ht
      rw [hempty] at hmem
      exact absurd hmem List.not_mem_nil
    case unblock => exact hle
    case expired =>
      ext t
      rw [Expired, Due, Set.mem_ofPred_eq, Set.mem_ofPred_eq, if_pos hwrap, and_comm]
      refine and_congr_left fun _ => ?_
      dsimp only
      rw [hwrap]
      bv_omega
    all_goals rfl
  · have hcount : (k.xTickCount + 1).toNat = k.xTickCount.toNat + 1 := by bv_omega
    refine ⟨_, rfl, ?_⟩
    constructor
    case sound => exact hsound.congr rfl rfl rfl rfl rfl rfl rfl rfl
    case same => exact ⟨rfl, rfl, rfl, rfl, rfl, rfl, rfl⟩
    case delayedList => rw [if_neg hwrap]
    case overflowList => rw [if_neg hwrap]
    case overflow =>
      intro t ht
      have hlt := h.overflow t ht
      dsimp only
      omega
    case unblock => exact h.unblock
    case expired =>
      ext t
      rw [Expired, Due, Set.mem_ofPred_eq, Set.mem_ofPred_eq, if_neg hwrap, and_comm]
      refine and_congr_left fun ht => ?_
      have hlt := h.delayed t ht
      dsimp only
      bv_omega
    all_goals rfl

/-- A tick was processed. -/
structure Ticked (k k' : Scheduler T E) : Prop where
  sound : k'.Sound
  timely : k'.Timely
  wakes : Wakes k k' k.Due
  count : k'.xTickCount = k.xTickCount + 1
  delayedList : k'.pxDelayedTaskList =
    if k.xTickCount + 1 = 0 then k.pxOverflowDelayedTaskList else k.pxDelayedTaskList
  overflowList : k'.pxOverflowDelayedTaskList =
    if k.xTickCount + 1 = 0 then k.pxDelayedTaskList else k.pxOverflowDelayedTaskList
  pended : k'.xPendedTicks = k.xPendedTicks
  suspended : k'.uxSchedulerSuspended = k.uxSchedulerSuspended
  yield : k'.xYieldPending = k.xYieldPending
  pendSV : k'.pendSV = k.pendSV

/-- A switch is required where a yield is pending, a task that was woken has a higher priority than
the running one, or another one of its priority is ready. -/
lemma xTaskIncrementTick_spec (h : k.Sound) (htimely : k.Timely) (hc : k.pxCurrentTCB = some c)
    (hs : k.uxSchedulerSuspended = 0) :
    ∃ k' b, k.xTaskIncrementTick = some (k', b) ∧ Ticked k k' ∧
      (k.xYieldPending = true ∨ (∃ t ∈ k.Due, k.uxPriority c < k.uxPriority t) ∨
        1 < (k'.states.items (.pxReadyTasksLists (k.uxPriority c))).length → b = true) := by
  obtain ⟨k₁, hk₁, hadv⟩ := htimely.advance h
  have hc₁ : k₁.pxCurrentTCB = some c := hadv.same.current.trans hc
  -- whether the loop is run or not, the tasks that are due are woken
  obtain ⟨r, hr, hU, hlater⟩ : ∃ r : Scheduler T E × Bool,
      (if k₁.xNextTaskUnblockTime ≤ k.xTickCount + 1 then
        forever unblockNext ((k₁.states.items k₁.pxDelayedTaskList).length + 1) (k₁, false)
      else some (k₁, false)) = some r ∧ Unblocking k₁ c false k₁.Expired r.1 r.2 ∧
      ∀ t, r.1.states.container t = some k₁.pxDelayedTaskList →
        k₁.xTickCount.toNat < (k₁.states.key t).toNat ∧
          r.1.xNextTaskUnblockTime.toNat ≤ (k₁.states.key t).toNat := by
    split_ifs with hle
    · exact unblockNext_loop hadv.sound hc₁ false
    · have hlater : ∀ t, k₁.states.container t = some k₁.pxDelayedTaskList →
          k₁.xTickCount.toNat < (k₁.states.key t).toNat := by
        intro t ht
        have hunblock := hadv.unblock t ht
        rw [hadv.count]
        bv_omega
      have hnone : k₁.Expired = ∅ := by
        refine Set.eq_empty_iff_forall_notMem.2 fun t ht => ?_
        exact absurd ht.2 (Nat.not_le_of_lt (hlater t ht.1))
      refine ⟨_, rfl, ?_, fun t ht => ⟨hlater t ht, hadv.unblock t ht⟩⟩
      rw [hnone]
      exact ⟨hadv.sound, .refl k₁, rfl, rfl, Set.empty_subset _,
        fun hor => hor.resolve_right (by simp)⟩
  obtain ⟨k', b⟩ := r
  dsimp only at hr hU hlater
  have hwakes := hadv.same.wakes_trans hU.wakes
  have hrun : k.xTaskIncrementTick = some (k',
      b || decide (1 < (k'.states.items (.pxReadyTasksLists (k.uxPriority c))).length) ||
        k.xYieldPending) := by
    have hyield : k'.xYieldPending = k.xYieldPending := hU.yield.trans hadv.yield
    rw [xTaskIncrementTick, if_pos hs]
    dsimp only
    rw [hk₁, Option.bind_eq_bind, Option.bind_some, hr, Option.bind_eq_bind, Option.bind_some]
    dsimp only
    rw [hwakes.current, hc, Option.bind_eq_bind, Option.bind_some, hwakes.priority, hyield]
  have hframe := hU.frame
  have hdelayed : k'.pxDelayedTaskList = k₁.pxDelayedTaskList := by rw [hframe]
  have hoverflow : k'.pxOverflowDelayedTaskList = k₁.pxOverflowDelayedTaskList := by rw [hframe]
  have hcount : k'.xTickCount = k₁.xTickCount := by rw [hframe]
  rw [hadv.expired] at hwakes
  have hticked : Ticked k k' := by
    constructor
    case sound => exact hU.sound
    case timely =>
      constructor
      case delayed =>
        intro t ht
        rw [hdelayed] at ht
        rw [hcount, hU.wakes.state_key]
        exact (hlater t ht).1
      case overflow =>
        intro t ht
        rw [hoverflow] at ht
        rw [hcount, hU.wakes.state_key]
        exact hadv.overflow t (hU.wakes.waits_of hadv.sound.states.delayed_blocked.2 ht).2
      case unblock =>
        intro t ht
        rw [hdelayed] at ht
        rw [hU.wakes.state_key]
        exact (hlater t ht).2
    case wakes => exact hwakes
    case count => exact hcount.trans hadv.count
    case delayedList => exact hdelayed.trans hadv.delayedList
    case overflowList => exact hoverflow.trans hadv.overflowList
    case pended => exact Eq.trans (by rw [hframe]) hadv.pended
    case suspended => exact Eq.trans (by rw [hframe]) hadv.suspended
    case yield => exact hU.yield.trans hadv.yield
    case pendSV => exact Eq.trans (by rw [hframe]) hadv.pendSV
  refine ⟨k', _, hrun, hticked, ?_⟩
  rintro (hyield | hhigher | hshared)
  · rw [hyield, Bool.or_true]
  · rw [← hadv.expired, ← hadv.same.priority] at hhigher
    rw [hU.switch (.inr hhigher), Bool.true_or, Bool.true_or]
  · rw [decide_eq_true hshared, Bool.or_true, Bool.true_or]

/-! ### The time that is left -/

/-- The task is woken by the `r`-th tick from now on. -/
def WakesIn (k : Scheduler T E) (t : T) (r : ℕ) : Prop :=
  k.states.container t = some k.pxDelayedTaskList ∧
      (k.states.key t).toNat = k.xTickCount.toNat + r ∨
    k.states.container t = some k.pxOverflowDelayedTaskList ∧
      (k.states.key t).toNat + 2 ^ 32 = k.xTickCount.toNat + r

omit [DecidableEq T] [DecidableEq E] in
lemma WakesIn.container {r : ℕ} (ht : k.WakesIn t r) :
    k.states.container t = some k.pxDelayedTaskList ∨
      k.states.container t = some k.pxOverflowDelayedTaskList :=
  ht.imp And.left And.left

omit [DecidableEq T] [DecidableEq E] in
lemma WakesIn.waits {r : ℕ} (ht : k.WakesIn t r) (hsound : k.StatesSound) : k.Waits t := by
  rcases ht.container with hcontainer | hcontainer
  · exact ⟨_, hsound.delayed_blocked.1, hcontainer⟩
  · exact ⟨_, hsound.delayed_blocked.2, hcontainer⟩

omit [DecidableEq T] [DecidableEq E] in
lemma StatesSound.delayed_ne_overflow (h : k.StatesSound) :
    k.pxDelayedTaskList ≠ k.pxOverflowDelayedTaskList := by
  rcases h.delayedLists with ⟨h1, h2⟩ | ⟨h1, h2⟩
  · simp [h1, h2]
  · simp [h1, h2]

omit [DecidableEq T] [DecidableEq E] in
/-- The tasks that the next tick wakes are those with one tick left. -/
lemma mem_due_iff (htimely : k.Timely) : t ∈ k.Due ↔ k.WakesIn t 1 := by
  rw [Due, Set.mem_ofPred_eq, WakesIn]
  constructor
  · rintro ⟨hkey, hcontainer⟩
    split_ifs at hcontainer with hwrap
    · exact .inr ⟨hcontainer, by bv_omega⟩
    · exact .inl ⟨hcontainer, by bv_omega⟩
  · rintro (⟨hcontainer, hkey⟩ | ⟨hcontainer, hkey⟩)
    · have hne : k.xTickCount + 1 ≠ 0 := by
        have := (k.states.key t).isLt
        bv_omega
      rw [if_neg hne]
      exact ⟨by bv_omega, hcontainer⟩
    · have hlt := htimely.overflow t hcontainer
      have hwrap : k.xTickCount + 1 = 0 := by
        have := k.xTickCount.isLt
        bv_omega
      rw [if_pos hwrap]
      exact ⟨by bv_omega, hcontainer⟩

omit [DecidableEq T] [DecidableEq E] in
/-- A tick takes one from the time that is left. -/
lemma Ticked.wakesIn (h : Ticked k k') (hsound : k.StatesSound) (htimely : k.Timely) {r : ℕ}
    (hr : 0 < r) (ht : k.WakesIn t (r + 1)) : k'.WakesIn t r := by
  have hdue : t ∉ k.Due := by
    rw [mem_due_iff htimely]
    have hne := hsound.delayed_ne_overflow
    rintro (⟨hcontainer, hkey⟩ | ⟨hcontainer, hkey⟩)
    · rcases ht with ⟨-, hkey'⟩ | ⟨hcontainer', -⟩
      · omega
      · exact hne (Option.some_inj.1 (hcontainer.symm.trans hcontainer'))
    · rcases ht with ⟨hcontainer', -⟩ | ⟨-, hkey'⟩
      · exact hne (Option.some_inj.1 (hcontainer'.symm.trans hcontainer))
      · omega
  rw [WakesIn, h.wakes.state t hdue, h.wakes.state_key, h.count, h.delayedList, h.overflowList]
  rcases ht with ⟨hcontainer, hkey⟩ | ⟨hcontainer, hkey⟩
  · have hne : k.xTickCount + 1 ≠ 0 := by
      have := (k.states.key t).isLt
      bv_omega
    rw [if_neg hne, if_neg hne]
    exact .inl ⟨hcontainer, by bv_omega⟩
  · by_cases hwrap : k.xTickCount + 1 = 0
    · rw [if_pos hwrap, if_pos hwrap]
      exact .inl ⟨hcontainer, by bv_omega⟩
    · rw [if_neg hwrap, if_neg hwrap]
      exact .inr ⟨hcontainer, by bv_omega⟩

end Loops

end Scheduler

end RT1064.Kernel
