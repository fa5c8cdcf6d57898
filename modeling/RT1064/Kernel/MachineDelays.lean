import RT1064.Kernel.MachineStart

/-!
# Time

A tick is counted at once, or held back while the scheduler is suspended. A task that waits for a
number of ticks is woken by the last of them, in whatever order interrupts and calls come, and
whether or not the count overflows in the meantime.
-/

namespace RT1064.Kernel

open Core

namespace Scheduler

variable {T E : Type} {k k' : Scheduler T E} {t c : T}

lemma IsReady.congr (h : k.IsReady t)
    (hcontainer : k'.states.container t = k.states.container t)
    (hpriority : k'.uxPriority t = k.uxPriority t) : k'.IsReady t := by
  rw [IsReady, Ready, hcontainer, hpriority]
  exact h

/-- The task waits for a time only, and is woken by the `r`-th tick from now on. -/
structure Sleeps (k : Scheduler T E) (t : T) (r : ℕ) : Prop where
  wakesIn : k.WakesIn t r
  event : k.events.container t = none

lemma Sleeps.waits {r : ℕ} (h : k.Sleeps t r) (hsound : k.StatesSound) : k.Waits t :=
  h.wakesIn.waits hsound

lemma Sleeps.not_ready {r : ℕ} (h : k.Sleeps t r) (hsound : k.StatesSound) : ¬ k.IsReady t :=
  (h.waits hsound).not_ready _

/-- The time that is left is kept where the lists of the task are. -/
lemma Sleeps.congr {r : ℕ} (h : k.Sleeps t r)
    (hcontainer : k'.states.container t = k.states.container t)
    (hkey : k'.states.key t = k.states.key t)
    (hevent : k.events.container t = none → k'.events.container t = none)
    (hdelayed : k'.pxDelayedTaskList = k.pxDelayedTaskList)
    (hoverflow : k'.pxOverflowDelayedTaskList = k.pxOverflowDelayedTaskList)
    (hcount : k'.xTickCount = k.xTickCount) : k'.Sleeps t r := by
  refine ⟨?_, hevent h.event⟩
  rw [WakesIn, hcontainer, hkey, hdelayed, hoverflow, hcount]
  exact h.wakesIn

end Scheduler

def Action.ticks {T E : Type} : Action T E → ℕ
  | .xPortSysTickHandler => 1
  | _                    => 0

namespace Machine

variable {T E : Type} {idle c : T} {m m' : Machine T E} {a : Action T E}

/-- In the step, `j` ticks were counted, which woke the tasks whose time came. -/
structure Elapses (m : Machine T E) (a : Action T E) (m' : Machine T E) (j : ℕ) : Prop where
  count : m'.scheduler.xTickCount = m.scheduler.xTickCount + BitVec.ofNat 32 j
  total : m'.scheduler.xTickCount + m'.scheduler.xPendedTicks =
    m.scheduler.xTickCount + m.scheduler.xPendedTicks + BitVec.ofNat 32 a.ticks
  pended : m.scheduler.xPendedTicks.toNat + a.ticks < 2 ^ 32 →
    m'.scheduler.xPendedTicks.toNat + j = m.scheduler.xPendedTicks.toNat + a.ticks
  sleeps : ∀ t r, m.scheduler.Sleeps t r → a ≠ .vTaskDelete (some t) → j < r →
    m'.scheduler.Sleeps t (r - j)
  woken : ∀ t r, m.scheduler.Sleeps t r → r ≤ j → m'.scheduler.IsReady t

/-- No tick was counted, and none came. -/
lemma Elapses.zero (h : ConsistentAt idle c m) (ha : a.ticks = 0)
    (hcount : m'.scheduler.xTickCount = m.scheduler.xTickCount)
    (hpended : m'.scheduler.xPendedTicks = m.scheduler.xPendedTicks)
    (hsleeps : ∀ t r, m.scheduler.Sleeps t r → a ≠ .vTaskDelete (some t) →
      m'.scheduler.Sleeps t r) : Elapses m a m' 0 where
  count := by rw [hcount, BitVec.add_zero]
  total := by rw [ha, hcount, hpended, BitVec.add_zero]
  pended := fun _ => by rw [ha, hpended]
  sleeps := fun t r ht hdelete _ => hsleeps t r ht hdelete
  woken := fun t r ht hr => absurd (h.timely.wakesIn_pos ht.wakesIn) (by omega)

/-- A step that changes no list of tasks. -/
lemma Elapses.same (h : ConsistentAt idle c m) (ha : a.ticks = 0)
    (hsame : Scheduler.SameTasks m.scheduler m'.scheduler)
    (hdelayed : m'.scheduler.pxDelayedTaskList = m.scheduler.pxDelayedTaskList)
    (hoverflow :
      m'.scheduler.pxOverflowDelayedTaskList = m.scheduler.pxOverflowDelayedTaskList)
    (hcount : m'.scheduler.xTickCount = m.scheduler.xTickCount)
    (hpended : m'.scheduler.xPendedTicks = m.scheduler.xPendedTicks) : Elapses m a m' 0 :=
  .zero h ha hcount hpended fun t r ht _ =>
    ht.congr (by rw [hsame.states]) (by rw [hsame.states]) (by rw [hsame.events]; exact id)
      hdelayed hoverflow hcount

lemma ConsistentAt.elapses_ticked (h : ConsistentAt idle c m) {k : Scheduler T E} {b : Bool}
    (hs : m.scheduler.uxSchedulerSuspended = 0) (hk : Scheduler.Ticked m.scheduler k) :
    Elapses m .xPortSysTickHandler
      ⟨{ k with pendSV := b }, m.stage, m.xPreviousWakeTime⟩ 1 := by
  have hzero := (h.settled hs).2
  constructor
  case count => exact hk.count
  case total =>
    dsimp only
    rw [hk.count, hk.pended, hzero, BitVec.add_assoc, BitVec.add_assoc]
    rfl
  case pended =>
    intro _
    dsimp only
    rw [hk.pended]
    rfl
  case sleeps =>
    intro t r ht _ hr
    obtain ⟨r, rfl⟩ := Nat.exists_eq_add_of_lt hr
    have hlater := hk.wakesIn h.sound.states h.timely (Nat.succ_pos r)
      (show m.scheduler.WakesIn t (r + 1 + 1) by convert ht.wakesIn using 1; omega)
    have hdue : t ∉ m.scheduler.Due := fun hdue =>
      hk.wakes.not_waits hdue (hlater.waits hk.sound.states)
    rw [show 1 + r + 1 - 1 = r + 1 by omega]
    exact ⟨hlater, (hk.wakes.event t hdue).trans ht.event⟩
  case woken =>
    intro t r ht hr
    have hpos := h.timely.wakesIn_pos ht.wakesIn
    obtain rfl : r = 1 := by omega
    have hready := (hk.wakes.ready t ((Scheduler.mem_due_iff h.timely).2 ht.wakesIn)).1
    rw [Scheduler.IsReady]
    dsimp only
    rw [hk.wakes.priority]
    exact hready

lemma ConsistentAt.elapses_pended (h : ConsistentAt idle c m) :
    Elapses m .xPortSysTickHandler
      ⟨{ m.scheduler with xPendedTicks := m.scheduler.xPendedTicks + 1 }, m.stage,
        m.xPreviousWakeTime⟩ 0 where
  count := (BitVec.add_zero _).symm
  total := (BitVec.add_assoc ..).symm
  pended := fun hlt => by
    rw [Action.ticks] at hlt ⊢
    dsimp only
    bv_omega
  sleeps := fun _ _ ht _ _ => ⟨ht.wakesIn, ht.event⟩
  woken := fun t r ht hr => absurd (h.timely.wakesIn_pos ht.wakesIn) (by omega)

variable [DecidableEq T]

lemma ConsistentAt.elapses_signalled (h : ConsistentAt idle c m) {t : T} {e : E} {b p y : Bool}
    {k : Scheduler T E} (ht : m.scheduler.events.head (.pxEventList e) = some t)
    (hk : Scheduler.Signalled m.scheduler t k) :
    Elapses m (.signal e b)
      ⟨{ k with xYieldPending := y, pendSV := p }, m.stage, m.xPreviousWakeTime⟩ 0 := by
  have hcontainer := Rotas.mem_iff.1 (List.mem_of_mem_head? ht)
  have hne : ∀ u r, m.scheduler.Sleeps u r → u ≠ t := by
    rintro u r hu rfl
    rw [hu.event] at hcontainer
    cases hcontainer
  rcases hk with ⟨-, hunblocks⟩ | ⟨-, hholds, -, -⟩
  · have hframe := hunblocks.rest
    refine .zero h rfl (Eq.trans (by rw [hframe]) rfl) (Eq.trans (by rw [hframe]) rfl)
      fun u r hu _ => hu.congr (hunblocks.container_of_ne (hne u r hu))
        (congrFun hunblocks.state_key u) (fun hevent => ?_) (by rw [hframe]) (by rw [hframe])
        (by rw [hframe])
    dsimp only
    rw [hunblocks.event_container, Function.update_of_ne (hne u r hu), hevent]
  · have hframe := hholds.rest
    refine .zero h rfl (Eq.trans (by rw [hframe]) rfl) (Eq.trans (by rw [hframe]) rfl)
      fun u r hu _ => hu.congr (by rw [hframe]) (by rw [hframe]) (fun hevent => ?_)
        (by rw [hframe]) (by rw [hframe]) (by rw [hframe])
    dsimp only
    rw [hholds.event_container, Function.update_of_ne (hne u r hu), hevent]

lemma ConsistentAt.elapses_leaves (h : ConsistentAt idle c m) {t : T} {k : Scheduler T E}
    (ha : a.ticks = 0) (hk : Scheduler.Leaves m.scheduler t k) (s : T → Stage T E)
    (hne : ∀ u r, m.scheduler.Sleeps u r → a ≠ .vTaskDelete (some u) → u ≠ t) :
    Elapses m a ⟨k, s, m.xPreviousWakeTime⟩ 0 := by
  have hframe := hk.rest
  refine .zero h ha (Eq.trans (by rw [hframe]) rfl) (Eq.trans (by rw [hframe]) rfl)
    fun u r hu hdelete => hu.congr (hk.container_of_ne u (hne u r hu hdelete))
      (congrFun hk.key u) (fun hevent => ?_) (by rw [hframe]) (by rw [hframe]) (by rw [hframe])
  dsimp only
  rw [hk.event_container, Function.update_of_ne (hne u r hu hdelete), hevent]

omit [DecidableEq T] in
lemma elapses_resumed {k : Scheduler T E} {b : Bool} {W : Set T} (ha : a.ticks = 0)
    (hk : Scheduler.Resumed m.scheduler c k b W) (s : T → Stage T E) :
    Elapses m a ⟨k, s, m.xPreviousWakeTime⟩ m.scheduler.xPendedTicks.toNat := by
  constructor
  case count =>
    dsimp only
    rw [hk.count, BitVec.ofNat_toNat, BitVec.setWidth_eq]
  case total =>
    dsimp only
    rw [hk.count, hk.pended, ha]
    rfl
  case pended =>
    intro _
    dsimp only
    rw [hk.pended, ha]
    exact Nat.zero_add _
  case sleeps =>
    intro t r ht _ hr
    have hnot : t ∉ m.scheduler.Pending := fun hmem => by
      have hcontainer := ht.event.symm.trans hmem
      cases hcontainer
    have hlater := hk.later t r hnot ht.wakesIn hr
    have hW : t ∉ W := fun hW => hk.wakes.not_waits hW (hlater.waits hk.sound.states)
    exact ⟨hlater, (hk.wakes.event t hW).trans ht.event⟩
  case woken =>
    intro t r ht hr
    rw [Scheduler.IsReady]
    dsimp only
    rw [hk.wakes.priority]
    exact (hk.wakes.ready t (hk.woken t r ht.wakesIn hr)).1

variable [DecidableEq E]

/-- In every step, some number of ticks elapses. -/
lemma Transition.elapses (ht : Transition idle c m a m') (h : ConsistentAt idle c m) :
    ∃ j, Elapses m a m' j := by
  have hrunning : m.Runs c → ∀ u r, m.scheduler.Sleeps u r → u ≠ c := by
    rintro hrun u r hu rfl
    exact hu.not_ready h.sound.states (h.isReady hrun)
  cases ht with
  | ticked hs hk => exact ⟨1, h.elapses_ticked hs hk⟩
  | pended => exact ⟨0, h.elapses_pended⟩
  | unheard | deferred | suspended | nested | delayedNot | waitedNot | cleanedNot | late
  | checked => exact ⟨0, .same h rfl ⟨rfl, rfl, rfl, rfl, rfl, rfl, rfl⟩ rfl rfl rfl rfl⟩
  | signalled ht hk => exact ⟨0, h.elapses_signalled ht hk⟩
  | switched hs hk =>
    have hframe := hk.rest
    refine ⟨0, .zero h rfl (by rw [hframe]) (by rw [hframe]) fun u r hu _ =>
      hu.congr (congrFun hk.container u) (congrFun hk.key u) ?_ (by rw [hframe])
        (by rw [hframe]) (by rw [hframe])⟩
    rw [hframe]
    exact id
  | resumed _ hk ha =>
    refine ⟨_, elapses_resumed ?_ hk _⟩
    rcases ha with ⟨rfl, -⟩ | ⟨rfl, -⟩ <;> rfl
  | yielded ha =>
    refine ⟨0, .same h ?_ ⟨rfl, rfl, rfl, rfl, rfl, rfl, rfl⟩ rfl rfl rfl rfl⟩
    rcases ha with ⟨rfl, -⟩ | ⟨rfl, -⟩ <;> rfl
  | called _ hs =>
    refine ⟨0, .same h ?_ ⟨rfl, rfl, rfl, rfl, rfl, rfl, rfl⟩ rfl rfl rfl rfl⟩
    obtain ⟨n, -, ⟨rfl, -⟩ | ⟨u, rfl, -⟩ | ⟨e, rfl, -⟩⟩ := hs <;> rfl
  | @created t p k hrun htnone hk =>
    have hframe := hk.rest
    refine ⟨0, .zero h rfl (Eq.trans (by rw [hframe]) rfl) (Eq.trans (by rw [hframe]) rfl)
      fun u r hu _ => hu.congr ?_ (congrFun hk.states.key u) (fun hevent => ?_) (by rw [hframe])
        (by rw [hframe]) (by rw [hframe])⟩
    · have hne : u ≠ t := by
        rintro rfl
        obtain ⟨l, -, hl⟩ := hu.waits h.sound.states
        rw [htnone] at hl
        cases hl
      dsimp only
      rw [hk.states.container, Function.update_of_ne hne]
    · dsimp only
      rw [hk.event_container, hevent]
  | deletedSelf hc _ hk =>
    exact ⟨0, h.elapses_leaves rfl hk _ fun u r hu _ => hrunning hc.1 u r hu⟩
  | deletedOther _ _ _ _ hk =>
    refine ⟨0, h.elapses_leaves rfl hk _ fun u r _ hdelete => ?_⟩
    rintro rfl
    exact hdelete rfl
  | cleaned _ ht hk =>
    refine ⟨0, h.elapses_leaves rfl hk _ fun u r hu _ => ?_⟩
    rintro rfl
    exact (hu.waits h.sound.states).not_deleted ht
  | @blocked V n b k hready hs _ _ _ hk _ hV =>
    have hframe := hk.rest
    have hne : ∀ u r, m.scheduler.Sleeps u r → u ≠ c := by
      rintro u r hu rfl
      exact hu.not_ready h.sound.states hready
    have hevent : ∀ u ≠ c, V.container u = m.scheduler.events.container u := by
      intro u huc
      rcases hV with ⟨rfl, -⟩ | ⟨e, -, -, hchanged⟩
      · rfl
      · rw [hchanged.container, Function.update_of_ne huc]
    refine ⟨0, .zero h rfl (Eq.trans (by rw [hframe]) rfl) (Eq.trans (by rw [hframe]) rfl)
      fun u r hu _ => ⟨(hk.wakesIn_of_ne (hne u r hu) r).2 hu.wakesIn, ?_⟩⟩
    have hevents : k.events = V := by rw [hframe]
    dsimp only
    rw [hevents, hevent u (hne u r hu), hu.event]

/-! ### The count -/

/-- No tick is lost and none is counted twice: those that are held back are counted when the
scheduler is resumed. -/
theorem ticks_counted {actions : List (Action T E)} (h : Reachable idle m)
    (hrun : Guarded step (Allowed idle) m actions m') :
    m'.scheduler.xTickCount + m'.scheduler.xPendedTicks =
      m.scheduler.xTickCount + m.scheduler.xPendedTicks +
        BitVec.ofNat 32 (actions.map Action.ticks).sum := by
  induction hrun with
  | refl => exact (BitVec.add_zero _).symm
  | @tail m₁ m₂ actions a hrun ha hstep ih =>
    obtain ⟨c, hc, ht⟩ := (h.guarded hrun).transition ha hstep
    obtain ⟨j, hj⟩ := ht.elapses hc
    rw [hj.total, ih, List.map_append, List.sum_append, List.map_singleton, List.sum_singleton,
      BitVec.ofNat_add, BitVec.add_assoc]

def twoTicks : Option (Machine ExampleTask Unit) :=
  Guarded.follow step (Allowed .idle) started
    [.vTaskSuspendAll, .xPortSysTickHandler, .xTaskResumeAll, .xPortSysTickHandler]

theorem ticks_counted_started :
    (twoTicks.get (by decide)).scheduler.xTickCount +
        (twoTicks.get (by decide)).scheduler.xPendedTicks =
      started.scheduler.xTickCount + started.scheduler.xPendedTicks + BitVec.ofNat 32 2 :=
  ticks_counted reachable_started (Guarded.of_follow (Option.some_get _).symm)

/-! ### Calls in which a task waits for a time -/

end Machine

namespace Stage

variable {T E : Type}

/-- The stages after a task began to wait, up to its own code. -/
def Returning : Stage T E → Prop
  | .own | .xTaskResumeAll | .taskYIELD_WITHIN_API => True
  | _                                              => False

/-- How many ticks a task is to wait that calls at the count `v`. -/
def ticksToWait (v : TickType_t) : Stage T E → ℕ
  | .vTaskDelay xTicksToDelay                         => xTicksToDelay.toNat
  | .xTaskDelayUntil xPreviousWakeTime xTimeIncrement =>
    xTimeIncrement.toNat - (v - xPreviousWakeTime).toNat
  | _                                                 => 0

/-- The stages at which a task is to wait for a time. -/
def Delays : Stage T E → Prop
  | .vTaskDelay _ | .xTaskDelayUntil _ _ => True
  | _                                    => False

end Stage

namespace Machine

variable {T E : Type} [DecidableEq T] [DecidableEq E] {idle c d : T} {m m' : Machine T E}
  {a : Action T E} {s : Stage T E} {v : TickType_t} {N : ℕ}

/-- The variable of a task behind its call of `xTaskDelayUntil`. -/
def Renewed (c : T) (s : Stage T E) (m : Machine T E) : Prop :=
  ∀ u p, s = .xTaskDelayUntil u p → m.xPreviousWakeTime c = u + p

/-- A task that called at the count `v` and did not return yet, after `N` ticks came. -/
inductive Delaying (c : T) (s : Stage T E) (v : TickType_t) (N : ℕ) (m : Machine T E) : Prop
  | calling (hcurrent : m.scheduler.pxCurrentTCB = some c) (hstage : m.stage c = s)
      (hdelays : s.Delays) (hcount : m.scheduler.xTickCount = v)
      (hpended : m.scheduler.xPendedTicks.toNat = N)
  | sleeping {r : ℕ} (hstage : (m.stage c).Returning) (hrenewed : Renewed c s m)
      (h : m.scheduler.Sleeps c r) (hle : r ≤ s.ticksToWait v)
      (hr : r + N = s.ticksToWait v + m.scheduler.xPendedTicks.toNat)
  | awake (hstage : (m.stage c).Returning) (hrenewed : Renewed c s m)
      (h : m.scheduler.IsReady c) (hN : s.ticksToWait v ≤ N)

/-- A task that is not in its own code keeps its stage, or comes nearer to its own code. -/
lemma Transition.returning (ht : Transition idle d m a m') (hnot : ¬ m.Runs c)
    (hc : m.scheduler.states.container c ≠ none) (hstage : (m.stage c).Returning) :
    (m'.stage c).Returning := by
  have hupdate : ∀ s' : Stage T E, s'.Returning →
      (Function.update m.stage d s' c).Returning := by
    intro s' hs'
    rw [Function.update_apply]
    split_ifs
    · exact hs'
    · exact hstage
  have hother : ∀ s', m.Runs d → (Function.update m.stage d s' c).Returning := by
    intro s' hrun
    rw [Function.update_of_ne]
    · exact hstage
    · rintro rfl
      exact hnot hrun
  cases ht with
  | resumed _ _ ha =>
    rcases ha with ⟨-, -, rfl⟩ | ⟨-, -, rfl⟩
    · exact hstage
    · refine hupdate _ ?_
      split_ifs <;> trivial
  | yielded => exact hupdate _ trivial
  | called hc => exact hother _ hc.1
  | delayedNot => exact hupdate _ trivial
  | @created t _ _ hrun htnone _ =>
    dsimp only
    rw [Function.update_of_ne, Function.update_of_ne]
    · exact hstage
    · rintro rfl
      exact hc htnone
    · rintro rfl
      exact hnot hrun
  | deletedSelf hc => exact hother _ hc.1
  | blocked => exact hupdate _ trivial
  | late => exact hupdate _ trivial
  | checked => exact hupdate _ trivial
  | _ => exact hstage

/-- The variable of a task is stored to in the critical part of its call only. -/
lemma Transition.wakeTime_eq (ht : Transition idle d m a m') (hstage : (m.stage c).Returning) :
    m'.xPreviousWakeTime c = m.xPreviousWakeTime c := by
  have hwake : m.wakeTimes d c = m.xPreviousWakeTime c := by
    rw [wakeTimes]
    cases hs : m.stage d with
    | xTaskDelayUntil =>
      refine Function.update_of_ne ?_ _ _
      rintro rfl
      rw [hs] at hstage
      exact hstage
    | _ => rfl
  cases ht with
  | blocked => exact hwake
  | late => exact hwake
  | _ => rfl

lemma Transition.renewed (ht : Transition idle d m a m') (hstage : (m.stage c).Returning)
    (h : Renewed c s m) : Renewed c s m' :=
  fun u p hs => (ht.wakeTime_eq hstage).trans (h u p hs)

/-- A task that is on its way to its own code stays ready. -/
lemma Transition.isReady (ht : Transition idle d m a m') (h : ConsistentAt idle d m)
    (hnot : ¬ m.Runs c) (hdelete : a ≠ .vTaskDelete (some c)) (hstage : (m.stage c).Returning)
    (hready : m.scheduler.IsReady c) : m'.scheduler.IsReady c := by
  cases ht with
  | ticked _ hk => exact hk.wakes.isReady hready
  | signalled ht hk =>
    rcases hk with ⟨-, hunblocks⟩ | ⟨-, hholds, -, -⟩
    · have hwaits := h.sound.events.waits_of_mem (List.mem_of_mem_head? ht)
      exact (hunblocks.wakes hwaits).isReady hready
    · exact hready.congr (by rw [hholds.rest]) (by rw [hholds.rest])
  | switched hs hk => exact hready.congr (congrFun hk.container c) (by rw [hk.rest])
  | resumed _ hk => exact hk.wakes.isReady hready
  | @created t _ _ hrun htnone hk =>
    have hne : c ≠ t := by
      rintro rfl
      rw [Scheduler.IsReady, Scheduler.Ready, htnone] at hready
      cases hready
    refine hready.congr ?_ ?_
    · dsimp only
      rw [hk.states.container, Function.update_of_ne hne]
    · dsimp only
      rw [hk.priority, Function.update_of_ne hne]
  | deletedSelf hc _ hk =>
    refine hk.isReady ?_ hready
    rintro rfl
    exact hnot hc.1
  | deletedOther _ _ _ _ hk =>
    refine hk.isReady ?_ hready
    rintro rfl
    exact hdelete rfl
  | cleaned _ ht hk =>
    refine hk.isReady ?_ hready
    rintro rfl
    have heq := hready.symm.trans ht
    simp at heq
  | blocked _ _ _ _ hblocking hk =>
    have hne : c ≠ d := by
      rintro rfl
      cases hs : m.stage c with
      | vTaskDelay | xTaskDelayUntil | vTaskPlaceOnEventList =>
        rw [hs] at hstage
        exact hstage
      | _ =>
        rw [hs] at hblocking
        exact hblocking
    exact hready.congr (hk.container_of_ne hne) (congrFun hk.priority c)
  | _ => exact hready

/-- The task has called, and only interrupts and itself may come. -/
lemma ConsistentAt.delaying_calling (h : ConsistentAt idle c m) (hstage : m.stage c = s)
    (hdelays : s.Delays) (hcount : m.scheduler.xTickCount = v)
    (hpended : m.scheduler.xPendedTicks.toNat = N) (ht : Transition idle c m a m')
    (hnot : ¬ m.Runs c) (hN : N + a.ticks < 2 ^ 32) : Delaying c s v (N + a.ticks) m' := by
  have hhere := h.here
  rw [hstage] at hhere
  have hs : m.scheduler.IsReady c ∧ m.scheduler.uxSchedulerSuspended = 1 := by
    cases s with
    | vTaskDelay | xTaskDelayUntil => exact ⟨hhere.1, hhere.2.1⟩
    | _ => exact hdelays.elim
  have hrenewed : Renewed c s ⟨m'.scheduler, m'.stage, m.wakeTimes c⟩ := by
    rintro u p rfl
    dsimp only
    rw [wakeTimes, hstage]
    exact Function.update_self ..
  have hne : ∀ s', m.stage c = s' → ¬ s'.Delays → False := by
    rintro s' hs' hnot
    rw [← hs', hstage] at hnot
    exact hnot hdelays
  cases ht with
  | ticked hzero => exact absurd (hs.2.symm.trans hzero) Nat.one_ne_zero
  | pended =>
    refine .calling h.current hstage hdelays hcount ?_
    rw [Action.ticks] at hN ⊢
    dsimp only
    bv_omega
  | unheard => exact .calling h.current hstage hdelays hcount hpended
  | signalled _ hk =>
    rcases hk with ⟨hzero, -⟩ | ⟨-, hholds, -, -⟩
    · exact absurd (hs.2.symm.trans hzero) Nat.one_ne_zero
    · have hframe := hholds.rest
      exact .calling (Eq.trans (by rw [hframe]) h.current) hstage hdelays
        (Eq.trans (by rw [hframe]) hcount)
        (Eq.trans (congrArg BitVec.toNat (by rw [hframe])) hpended)
  | switched hzero => exact absurd (hs.2.symm.trans hzero) Nat.one_ne_zero
  | deferred => exact .calling h.current hstage hdelays hcount hpended
  | suspended hrun | nested hrun | delayedNot hrun | waitedNot hrun | created hrun
  | deletedOther hrun => exact absurd hrun hnot
  | called hc | deletedSelf hc => exact absurd hc.1 hnot
  | cleanedNot hrun | cleaned hrun =>
    obtain rfl := h.runs hrun
    exact absurd hrun hnot
  | resumed _ _ ha =>
    rcases ha with ⟨-, hrun, -⟩ | ⟨-, hstage', -⟩
    · exact absurd hrun hnot
    · exact (hne _ hstage' id).elim
  | yielded ha =>
    rcases ha with ⟨-, hrun⟩ | ⟨-, hstage' | hstage'⟩
    · exact absurd hrun hnot
    · exact (hne _ hstage' id).elim
    · exact (hne _ hstage' id).elim
  | checked hstage' => exact (hne _ hstage' id).elim
  | @blocked V n b k _ _ _ _ hblocking hk hsound hV =>
    have hn : n.toNat = s.ticksToWait v ∧ b = false := by
      rw [hstage] at hblocking
      cases s with
      | vTaskDelay => exact hblocking.imp_left (congrArg BitVec.toNat)
      | xTaskDelayUntil u p =>
        obtain ⟨rfl, hb, hlt⟩ := hblocking
        refine ⟨?_, hb⟩
        rw [Stage.ticksToWait, ← hcount]
        bv_omega
      | _ => exact hdelays.elim
    have hframe := hk.rest
    have hpended' : k.xPendedTicks = m.scheduler.xPendedTicks := by rw [hframe]
    have hwakes := hk.wakesIn fun hand => Bool.false_ne_true (hn.2.symm.trans hand.2)
    rw [hn.1] at hwakes
    refine .sleeping (r := s.ticksToWait v) ?_ hrenewed ⟨hwakes, ?_⟩ le_rfl ?_
    · dsimp only
      rw [Function.update_self]
      trivial
    · rcases hV with ⟨rfl, -⟩ | ⟨_, -, hb, -⟩
      · have hevents : k.events = m.scheduler.events := by rw [hframe]
        dsimp only
        rw [hevents]
        exact h.sound.events.not_waiting hs.1
      · exact absurd (hn.2.symm.trans hb) Bool.false_ne_true
    · dsimp only
      rw [hpended', hpended]
      rfl
  | late hone hstage' hlate =>
    refine .awake ?_ hrenewed hs.1 ?_
    · dsimp only
      rw [Function.update_self]
      trivial
    · obtain rfl := hstage.symm.trans hstage'
      rw [Stage.ticksToWait, ← hcount]
      bv_omega

/-- What the ticks that come are to a task that calls. -/
lemma Delaying.transition (hc : Delaying c s v N m) (ht : Transition idle d m a m')
    (h : ConsistentAt idle d m) (hnot : ¬ m.Runs c) (hdelete : a ≠ .vTaskDelete (some c))
    (hN : N + a.ticks < 2 ^ 32) : Delaying c s v (N + a.ticks) m' := by
  cases hc with
  | @sleeping r hstage hrenewed hsleeps hle hr =>
    obtain ⟨j, hj⟩ := ht.elapses h
    have hpended := hj.pended (by omega)
    obtain ⟨l, -, hl⟩ := hsleeps.waits h.sound.states
    have hstage' := ht.returning hnot (by rw [hl]; exact Option.some_ne_none l) hstage
    have hrenewed' := ht.renewed hstage hrenewed
    by_cases hlt : j < r
    · exact .sleeping hstage' hrenewed' (hj.sleeps c _ hsleeps hdelete hlt) (by omega) (by omega)
    · exact .awake hstage' hrenewed' (hj.woken c _ hsleeps (by omega)) (by omega)
  | awake hstage hrenewed hready hle =>
    have hcontainer : m.scheduler.states.container c ≠ none := by
      rw [hready]
      exact Option.some_ne_none _
    exact .awake (ht.returning hnot hcontainer hstage) (ht.renewed hstage hrenewed)
      (ht.isReady h hnot hdelete hstage hready) (by omega)
  | calling hcurrent hstage hdelays hcount hpended =>
    obtain rfl : c = d := Option.some_inj.1 (hcurrent.symm.trans h.current)
    exact h.delaying_calling hstage hdelays hcount hpended ht hnot hN

/-- While a task is in a call: it is not in its own code, and nobody deletes it. -/
def InCall (idle c : T) (m : Machine T E) (a : Action T E) : Prop :=
  Allowed idle m a ∧ ¬ m.Runs c ∧ a ≠ .vTaskDelete (some c)

instance (idle c : T) (m : Machine T E) (a : Action T E) : Decidable (InCall idle c m a) :=
  inferInstanceAs (Decidable (_ ∧ _ ∧ _))

lemma Delaying.run {actions : List (Action T E)} (h : Reachable idle m)
    (hc : Delaying c s v 0 m) (hrun : Guarded step (InCall idle c) m actions m')
    (hticks : (actions.map Action.ticks).sum < 2 ^ 32) :
    Delaying c s v (actions.map Action.ticks).sum m' := by
  induction hrun with
  | refl => exact hc
  | @tail m₁ m₂ actions a hrun ha hstep ih =>
    rw [List.map_append, List.sum_append, List.map_singleton, List.sum_singleton] at hticks ⊢
    have hreachable := h.guarded (hrun.mono fun _ _ hcall => hcall.1)
    obtain ⟨d, hd, ht⟩ := hreachable.transition ha.1 hstep
    exact (ih (by omega)).transition ht hd ha.2.1 ha.2.2 hticks

omit [DecidableEq T] [DecidableEq E] in
/-- The task is in its own code again after the last tick at the earliest, and is ready from it
on. -/
lemma Delaying.ready_iff (hc : Delaying c s v N m) (h : ConsistentAt idle d m) :
    (m.Runs c → s.ticksToWait v ≤ N) ∧
      (m.scheduler.uxSchedulerSuspended = 0 →
        (m.scheduler.IsReady c ↔ s.ticksToWait v ≤ N)) := by
  cases hc with
  | calling hcurrent hstage hdelays =>
    obtain rfl : c = d := Option.some_inj.1 (hcurrent.symm.trans h.current)
    have hhere := h.here
    rw [hstage] at hhere
    refine ⟨fun hrun => ?_, fun hzero => ?_⟩
    · rw [← hstage, hrun.2.1] at hdelays
      exact hdelays.elim
    · cases s with
      | vTaskDelay | xTaskDelayUntil => exact absurd (hhere.2.1.symm.trans hzero) Nat.one_ne_zero
      | _ => exact hdelays.elim
  | @sleeping r _ _ hsleeps _ hr =>
    have hnot := hsleeps.not_ready h.sound.states
    have hpos := h.timely.wakesIn_pos hsleeps.wakesIn
    refine ⟨fun hrun => ?_, fun hzero => iff_of_false hnot ?_⟩
    · obtain rfl := h.runs hrun
      exact absurd (h.isReady hrun) hnot
    · have hnone : m.scheduler.xPendedTicks.toNat = 0 := by rw [(h.settled hzero).2]; rfl
      omega
  | awake _ _ hready hle => exact ⟨fun _ => hle, fun _ => iff_of_true hready hle⟩

omit [DecidableEq T] [DecidableEq E] in
/-- A task that is in its own code again has its next wake time. -/
lemma Delaying.renewed (hc : Delaying c s v N m) (hrun : m.Runs c) : Renewed c s m := by
  cases hc with
  | calling _ hstage hdelays =>
    rw [← hstage, hrun.2.1] at hdelays
    exact hdelays.elim
  | sleeping _ hrenewed => exact hrenewed
  | awake _ hrenewed => exact hrenewed

/-- The state in which a task called. -/
def calls (m : Machine T E) (c : T) (s : Stage T E) : Machine T E :=
  ⟨m.scheduler.vTaskSuspendAll, Function.update m.stage c s, m.xPreviousWakeTime⟩

/-- The two calls begin in the same way. -/
lemma Reachable.delaying_of_call {actions : List (Action T E)} (h : Reachable idle m)
    (hc : m.MayBlock idle c) (ha : Allowed idle m a) (hstep : m.step a = some (m.calls c s))
    (hdelays : s.Delays) (hrun : Guarded step (InCall idle c) (m.calls c s) actions m')
    (hticks : (actions.map Action.ticks).sum < 2 ^ 32) :
    Delaying c s m.scheduler.xTickCount (actions.map Action.ticks).sum m' ∧
      Reachable idle m' := by
  obtain ⟨d, hd⟩ := h.consistent
  obtain rfl := hd.runs hc.1
  have hcalled := h.guarded (.single ha hstep)
  have hnone : m.scheduler.xPendedTicks.toNat = 0 := by rw [(hd.settled hc.2.1).2]; rfl
  refine ⟨Delaying.run hcalled ?_ hrun hticks,
    hcalled.guarded (hrun.mono fun _ _ hcall => hcall.1)⟩
  exact .calling hd.current (Function.update_self ..) hdelays rfl hnone

lemma step_vTaskDelay {n : TickType_t} (hc : m.MayBlock idle c) (hn : n ≠ 0) :
    m.step (.vTaskDelay n) = some (m.calls c (.vTaskDelay n)) := by
  rw [step, hc.1.1, Option.bind_eq_bind, Option.bind_some]
  exact if_pos ((BitVec.pos_iff_ne_zero n).2 hn)

lemma step_xTaskDelayUntil {u p : TickType_t} (hc : m.MayBlock idle c) (hp : p ≠ 0) :
    m.step (.xTaskDelayUntil u p) = some (m.calls c (.xTaskDelayUntil u p)) := by
  rw [step, hc.1.1, Option.bind_eq_bind, Option.bind_some]
  exact if_pos ((BitVec.pos_iff_ne_zero p).2 hp)

/-- A task that calls `vTaskDelay(n)` is not in its own code again before `n` ticks came. Until it
is, it is ready from the `n`-th tick on, whether or not the count overflowed, as soon as the
scheduler is not suspended. -/
theorem vTaskDelay_waits {n : TickType_t} {m₁ : Machine T E} {actions : List (Action T E)}
    (h : Reachable idle m) (hc : m.MayBlock idle c) (hn : n ≠ 0)
    (hcall : m.step (.vTaskDelay n) = some m₁)
    (hrun : Guarded step (InCall idle c) m₁ actions m')
    (hticks : (actions.map Action.ticks).sum < 2 ^ 32) :
    (m'.Runs c → n.toNat ≤ (actions.map Action.ticks).sum) ∧
      (m'.scheduler.uxSchedulerSuspended = 0 →
        (m'.scheduler.IsReady c ↔ n.toNat ≤ (actions.map Action.ticks).sum)) := by
  have hstep := step_vTaskDelay hc hn
  obtain rfl := Option.some_inj.1 (hcall.symm.trans hstep)
  have hallowed : Allowed idle m (.vTaskDelay n) := ⟨c, hc.1, fun _ => hc⟩
  obtain ⟨hdelaying, hreachable⟩ := h.delaying_of_call hc hallowed hstep trivial hrun hticks
  obtain ⟨d, hd⟩ := hreachable.consistent
  exact hdelaying.ready_iff hd

/-- The timer task waits for two ticks. -/
def delayed : Machine ExampleTask Unit := (started.step (.vTaskDelay 2)).get (by decide)

def afterTwoTicks : Option (Machine ExampleTask Unit) :=
  Guarded.follow step (InCall .idle .timer) delayed
    [.proceed, .xPortSysTickHandler, .proceed, .proceed, .xPortPendSVHandler,
      .xPortSysTickHandler]

theorem vTaskDelay_waits_started :
    (afterTwoTicks.get (by decide)).scheduler.IsReady .timer ↔ 2 ≤ 2 :=
  (vTaskDelay_waits reachable_started (by decide) (by decide) (Option.some_get _).symm
    (Guarded.of_follow (Option.some_get _).symm) (by decide)).2 (by decide)

/-- A task that calls `xTaskDelayUntil` is in its own code again when the period passed since its
last wake time, and not before: the time for which it was late is not added to the next period,
and the times may overflow. -/
theorem xTaskDelayUntil_waits {u p : TickType_t} {m₁ : Machine T E}
    {actions : List (Action T E)} (h : Reachable idle m) (hc : m.MayBlock idle c) (hp : p ≠ 0)
    (hcall : m.step (.xTaskDelayUntil u p) = some m₁)
    (hrun : Guarded step (InCall idle c) m₁ actions m')
    (hticks : (actions.map Action.ticks).sum < 2 ^ 32) :
    (m'.Runs c → p.toNat ≤ (m.scheduler.xTickCount - u).toNat +
        (actions.map Action.ticks).sum) ∧
      (m'.scheduler.uxSchedulerSuspended = 0 →
        (m'.scheduler.IsReady c ↔ p.toNat ≤ (m.scheduler.xTickCount - u).toNat +
          (actions.map Action.ticks).sum)) := by
  have hstep := step_xTaskDelayUntil (u := u) hc hp
  obtain rfl := Option.some_inj.1 (hcall.symm.trans hstep)
  have hallowed : Allowed idle m (.xTaskDelayUntil u p) := ⟨⟨c, hc⟩, hp⟩
  obtain ⟨hdelaying, hreachable⟩ := h.delaying_of_call hc hallowed hstep trivial hrun hticks
  obtain ⟨d, hd⟩ := hreachable.consistent
  simpa only [Stage.ticksToWait, Nat.sub_le_iff_le_add'] using hdelaying.ready_iff hd

/-- The last wake time is the one that was asked for when the call returns, however late the task
called and was woken. That is why the time for which it was late does not shift its next periods. -/
theorem xPreviousWakeTime_eq {u p : TickType_t} {m₁ : Machine T E} {actions : List (Action T E)}
    (h : Reachable idle m) (hc : m.MayBlock idle c) (hp : p ≠ 0)
    (hcall : m.step (.xTaskDelayUntil u p) = some m₁)
    (hrun : Guarded step (InCall idle c) m₁ actions m')
    (hticks : (actions.map Action.ticks).sum < 2 ^ 32) (hreturns : m'.Runs c) :
    m'.xPreviousWakeTime c = u + p := by
  have hstep := step_xTaskDelayUntil (u := u) hc hp
  obtain rfl := Option.some_inj.1 (hcall.symm.trans hstep)
  have hallowed : Allowed idle m (.xTaskDelayUntil u p) := ⟨⟨c, hc⟩, hp⟩
  have hdelaying := (h.delaying_of_call hc hallowed hstep trivial hrun hticks).1
  exact hdelaying.renewed hreturns u p rfl

/-- The timer task calls at the count 0 for the tick -4, and does not wait. -/
example :
    ((started.step (.xTaskDelayUntil (-9) 5)).bind fun m₁ =>
      (Guarded.follow step (InCall .idle .timer) m₁ [.proceed, .proceed]).map
        fun m => (m.scheduler.states.container .timer, m.xPreviousWakeTime .timer)) =
      some (some (.pxReadyTasksLists 17), -4) := by
  decide

/-- The timer task waits until the tick 3. -/
def delayedUntil : Machine ExampleTask Unit :=
  (started.step (.xTaskDelayUntil (-2) 5)).get (by decide)

def afterThreeTicks : Option (Machine ExampleTask Unit) :=
  Guarded.follow step (InCall .idle .timer) delayedUntil
    [.proceed, .proceed, .proceed, .xPortPendSVHandler, .xPortSysTickHandler,
      .xPortSysTickHandler, .xPortSysTickHandler]

theorem xTaskDelayUntil_waits_started :
    (afterThreeTicks.get (by decide)).scheduler.IsReady .timer ↔ 5 ≤ 2 + 3 :=
  (xTaskDelayUntil_waits reachable_started (by decide) (by decide) (Option.some_get _).symm
    (Guarded.of_follow (Option.some_get _).symm) (by decide)).2 (by decide)

end Machine

end RT1064.Kernel
