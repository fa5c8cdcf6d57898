import RT1064.Kernel.TasksWake

/-!
# The end of a suspension

While the scheduler is suspended, the tasks that an event wakes are held in the list of pending
tasks, and ticks are counted. Both are caught up with when it is resumed.
-/

namespace RT1064.Kernel

open Core

namespace Scheduler

variable {T E : Type} [DecidableEq T] [DecidableEq E] {k k' k₁ : Scheduler T E} {t c : T}
  {W : Set T}

/-! ### The tasks that are pending -/

/-- The tasks that an event woke while the scheduler was suspended. -/
def Pending (k : Scheduler T E) : Set T :=
  {t | k.events.container t = some .xPendingReadyList}

/-- What the rounds of the loop that moves pending tasks keep. -/
structure Moving (k : Scheduler T E) (c : T) (W : Set T) (k' : Scheduler T E) : Prop where
  sound : k'.Sound
  wakes : Wakes k k' W
  frame : LoopFrame k k'
  unblock : k'.xNextTaskUnblockTime = k.xNextTaskUnblockTime
  pending : W ⊆ k.Pending
  yield : k.xYieldPending = true ∨ (∃ t ∈ W, k.uxPriority c < k.uxPriority t) →
    k'.xYieldPending = true

lemma Moving.round (h : Moving k c W k₁) (hc : k.pxCurrentTCB = some c)
    (ht : k₁.events.head .xPendingReadyList = some t) (o : Option T) :
    ∃ k₂, movePendingReady (k₁, o) = some (.inl (k₂, some t)) ∧ Moving k c (W ∪ {t}) k₂ ∧
      (k₂.events.items .xPendingReadyList).length <
        (k₁.events.items .xPendingReadyList).length := by
  have hmem : t ∈ k₁.events.items .xPendingReadyList := List.mem_of_mem_head? ht
  have hcontainer := Rotas.mem_iff.1 hmem
  have hevent : k₁.events.container t ≠ none := by
    rw [hcontainer]
    exact Option.some_ne_none _
  have hwaits := h.sound.events.waits t hevent
  obtain ⟨l₁, n, l₂, k₂, h₁, h₂, h₃, hunblocks⟩ := hwaits.unblock_event hevent
  have hwakes := h.wakes.trans (hunblocks.wakes hwaits)
  have hyield : k₂.xYieldPending = k₁.xYieldPending := by rw [hunblocks.rest]
  have hunblock : k₂.xNextTaskUnblockTime = k.xNextTaskUnblockTime := by
    rw [hunblocks.rest, ← h.unblock]
  have hpending : W ∪ {t} ⊆ k.Pending := by
    rintro u (hu | rfl)
    · exact h.pending hu
    · have hW : u ∉ W := fun hW => hevent (h.wakes.ready u hW).2
      exact (h.wakes.event u hW).symm.trans hcontainer
  have hlength : (k₂.events.items .xPendingReadyList).length <
      (k₁.events.items .xPendingReadyList).length := by
    rw [hunblocks.event_items, List.length_erase_of_mem hmem]
    exact Nat.sub_lt (List.length_pos_of_mem hmem) Nat.one_pos
  have hsound := hunblocks.sound h.sound hwaits
  have hrun : movePendingReady (k₁, o) = if k.uxPriority c < k.uxPriority t then
      some (.inl ({ k₂ with xYieldPending := true }, some t))
      else some (.inl (k₂, some t)) := by
    simp only [movePendingReady, ht, h₁, h₂, h₃, Option.bind_eq_bind, Option.bind_some,
      hwakes.current, hc, hwakes.priority]
  split_ifs at hrun with hlt
  · refine ⟨_, hrun, ⟨hsound.congr rfl rfl rfl rfl rfl rfl rfl rfl,
      hwakes.same ⟨rfl, rfl, rfl, rfl, rfl, rfl, rfl⟩,
      (h.frame.trans hunblocks.loopFrame).trans rfl, hunblock, hpending, fun _ => rfl⟩, hlength⟩
  · refine ⟨_, hrun, ⟨hsound, hwakes, h.frame.trans hunblocks.loopFrame, hunblock, hpending,
      fun hor => ?_⟩, hlength⟩
    rw [hyield]
    refine h.yield (hor.imp_right ?_)
    rintro ⟨u, hu | rfl, hlt'⟩
    · exact ⟨u, hu, hlt'⟩
    · exact absurd hlt' hlt

/-- The loop wakes all tasks that are pending. -/
lemma movePendingReady_loop (h : k.Sound) (hc : k.pxCurrentTCB = some c) :
    ∃ r, forever movePendingReady ((k.events.items .xPendingReadyList).length + 1) (k, none) =
        some r ∧ Moving k c k.Pending r.1 ∧ r.1.events.items .xPendingReadyList = [] := by
  have hfirst : Moving k c ∅ k :=
    ⟨h, .refl k, rfl, rfl, Set.empty_subset _, fun hor => hor.resolve_right (by simp)⟩
  refine forever_of_lt (fun s => ∃ W, Moving k c W s.1) _
    (fun s => (s.1.events.items .xPendingReadyList).length) ?_ ⟨∅, hfirst⟩ (Nat.lt_succ_self _)
  rintro ⟨k₁, o⟩ ⟨W, hk₁⟩
  dsimp only at hk₁ ⊢
  cases hhead : k₁.events.head .xPendingReadyList with
  | none =>
    have hempty : k₁.events.items .xPendingReadyList = [] := List.head?_eq_none_iff.1 hhead
    have hW : W = k.Pending := by
      refine hk₁.pending.antisymm fun t ht => ?_
      by_contra hnot
      have hmem := Rotas.mem_iff.2 ((hk₁.wakes.event t hnot).trans ht)
      rw [hempty] at hmem
      exact List.not_mem_nil hmem
    refine .inr ⟨(k₁, o), by simp only [movePendingReady, hhead], hW ▸ hk₁, hempty⟩
  | some t =>
    obtain ⟨k₂, hround, hk₂, hlt⟩ := hk₁.round hc hhead o
    exact .inl ⟨(k₂, some t), hround, ⟨_, hk₂⟩, hlt⟩

/-! ### The ticks that are pending -/

/-- After `n` ticks were processed at once. -/
structure CaughtUp (k : Scheduler T E) (c : T) (n : ℕ) (k' : Scheduler T E) (W : Set T) :
    Prop where
  sound : k'.Sound
  timely : k'.Timely
  wakes : Wakes k k' W
  count : k'.xTickCount = k.xTickCount + BitVec.ofNat 32 n
  pended : k'.xPendedTicks = k.xPendedTicks
  suspended : k'.uxSchedulerSuspended = k.uxSchedulerSuspended
  pendSV : k'.pendSV = k.pendSV
  yield : k.xYieldPending = true ∨ (∃ t ∈ W, k.uxPriority c < k.uxPriority t) →
    k'.xYieldPending = true
  later : ∀ t r, k.WakesIn t r → n < r → k'.WakesIn t (r - n)
  woken : ∀ t r, k.WakesIn t r → r ≤ n → t ∈ W

omit [DecidableEq T] [DecidableEq E] in
lemma Timely.wakesIn_pos (h : k.Timely) {r : ℕ} (ht : k.WakesIn t r) : 0 < r := by
  rcases ht with ⟨hcontainer, hkey⟩ | ⟨hcontainer, hkey⟩
  · have := h.delayed t hcontainer
    omega
  · have := h.overflow t hcontainer
    have := k.xTickCount.isLt
    omega

lemma processPendedTicks_spec (h : k.Sound) (htimely : k.Timely) (hc : k.pxCurrentTCB = some c)
    (hs : k.uxSchedulerSuspended = 0) (n : ℕ) :
    ∃ k' W, processPendedTicks n k = some k' ∧ CaughtUp k c n k' W := by
  induction n generalizing k with
  | zero =>
    refine ⟨k, ∅, rfl, ⟨h, htimely, .refl k, ?_, rfl, rfl, rfl,
      fun hor => hor.resolve_right (by simp), fun t r ht _ => ht, fun t r ht hr => ?_⟩⟩
    · exact (BitVec.add_zero _).symm
    · exact absurd (htimely.wakesIn_pos ht) (by omega)
  | succ n ih =>
    obtain ⟨k₁, b, hk₁, htick, hswitch⟩ := xTaskIncrementTick_spec h htimely hc hs
    have hk₂ : (if b then ({ k₁ with xYieldPending := true } : Scheduler T E) else k₁) =
        { k₁ with xYieldPending := k₁.xYieldPending || b } := by
      cases b <;> simp
    have hsame : SameTasks k₁ { k₁ with xYieldPending := k₁.xYieldPending || b } :=
      ⟨rfl, rfl, rfl, rfl, rfl, rfl, rfl⟩
    have hsound : ({ k₁ with xYieldPending := k₁.xYieldPending || b } : Scheduler T E).Sound :=
      htick.sound.congr rfl rfl rfl rfl rfl rfl rfl rfl
    have hlater : ∀ t r, k₁.WakesIn t r →
        ({ k₁ with xYieldPending := k₁.xYieldPending || b } : Scheduler T E).WakesIn t r :=
      fun _ _ ht => ht
    obtain ⟨k', W, hrun, hk'⟩ := ih hsound
      ⟨htick.timely.delayed, htick.timely.overflow, htick.timely.unblock⟩
      (htick.wakes.current.trans hc) (htick.suspended.trans hs)
    have hwakes := (htick.wakes.same hsame).trans hk'.wakes
    refine ⟨k', k.Due ∪ W, ?_, ⟨hk'.sound, hk'.timely, hwakes, ?_, hk'.pended.trans htick.pended,
      hk'.suspended.trans htick.suspended, hk'.pendSV.trans htick.pendSV, ?_, ?_, ?_⟩⟩
    · rw [processPendedTicks, hk₁, Option.bind_eq_bind, Option.bind_some]
      dsimp only
      rw [hk₂, hrun]
    · rw [hk'.count]
      dsimp only
      rw [htick.count, BitVec.add_assoc, Nat.add_comm n 1, BitVec.ofNat_add]
      rfl
    · intro hor
      refine hk'.yield ?_
      dsimp only
      rw [htick.wakes.priority]
      rcases hor with hyield | ⟨t, ht | ht, hlt⟩
      · exact .inl (by rw [htick.yield, hyield, Bool.true_or])
      · exact .inl (by rw [hswitch (.inr (.inl ⟨t, ht, hlt⟩)), Bool.or_true])
      · exact .inr ⟨t, ht, hlt⟩
    · intro t r ht hr
      obtain ⟨r, rfl⟩ := Nat.exists_eq_add_of_lt hr
      have hfirst := htick.wakesIn h.states htimely (r := n + r + 1) (by omega)
        (show k.WakesIn t _ by convert ht using 1; omega)
      have hrest := hk'.later t _ (hlater _ _ hfirst) (by omega)
      convert hrest using 1
      omega
    · intro t r ht hr
      rcases Nat.lt_or_ge 1 r with hr1 | hr1
      · obtain ⟨r, rfl⟩ := Nat.exists_eq_add_of_lt hr1
        have hfirst := htick.wakesIn h.states htimely (r := r + 1) (by omega)
          (show k.WakesIn t _ by convert ht using 1; omega)
        exact .inr (hk'.woken t _ (hlater _ _ hfirst) (by omega))
      · have hpos := htimely.wakesIn_pos ht
        obtain rfl : r = 1 := by omega
        exact .inl ((mem_due_iff htimely).2 ht)

/-! ### Resuming -/

/-- After the scheduler was resumed. -/
structure Resumed (k : Scheduler T E) (c : T) (k' : Scheduler T E) (b : Bool) (W : Set T) :
    Prop where
  sound : k'.Sound
  timely : k'.Timely
  wakes : Wakes k k' W
  count : k'.xTickCount = k.xTickCount + k.xPendedTicks
  pended : k'.xPendedTicks = 0
  suspended : k'.uxSchedulerSuspended = 0
  settled : k'.events.items .xPendingReadyList = []
  pendSV : k'.pendSV = (k.pendSV || b)
  yield : k'.xYieldPending = b
  switch : k.xYieldPending = true ∨ (∃ t ∈ W, k.uxPriority c < k.uxPriority t) → b = true
  later : ∀ t r, t ∉ k.Pending → k.WakesIn t r → k.xPendedTicks.toNat < r →
    k'.WakesIn t (r - k.xPendedTicks.toNat)
  woken : ∀ t r, k.WakesIn t r → r ≤ k.xPendedTicks.toNat → t ∈ W
  pending : k.Pending ⊆ W

omit [DecidableEq T] [DecidableEq E] in
/-- A task that was not woken has the same time left. -/
lemma Wakes.wakesIn (h : Wakes k k' W) (ht : t ∉ W)
    (hdelayed : k'.pxDelayedTaskList = k.pxDelayedTaskList)
    (hoverflow : k'.pxOverflowDelayedTaskList = k.pxOverflowDelayedTaskList)
    (hcount : k'.xTickCount = k.xTickCount) (r : ℕ) : k'.WakesIn t r ↔ k.WakesIn t r := by
  rw [WakesIn, WakesIn, h.state t ht, h.state_key, hdelayed, hoverflow, hcount]

omit [DecidableEq T] [DecidableEq E] in
/-- Waking tasks keeps the times in order. -/
lemma Timely.wakes (h : k.Timely) (hsound : k.StatesSound) (hw : Wakes k k' W)
    (hdelayed : k'.pxDelayedTaskList = k.pxDelayedTaskList)
    (hoverflow : k'.pxOverflowDelayedTaskList = k.pxOverflowDelayedTaskList)
    (hcount : k'.xTickCount = k.xTickCount)
    (hunblock : k'.xNextTaskUnblockTime = k.xNextTaskUnblockTime) : k'.Timely := by
  have hstay : ∀ {l : StateList}, l.Blocked → ∀ t, k'.states.container t = some l →
      k.states.container t = some l := fun hl t ht => (hw.waits_of hl ht).2
  constructor
  case delayed =>
    intro t ht
    rw [hdelayed] at ht
    rw [hcount, hw.state_key]
    exact h.delayed t (hstay hsound.delayed_blocked.1 t ht)
  case overflow =>
    intro t ht
    rw [hoverflow] at ht
    rw [hcount, hw.state_key]
    exact h.overflow t (hstay hsound.delayed_blocked.2 t ht)
  case unblock =>
    intro t ht
    rw [hdelayed] at ht
    rw [hunblock, hw.state_key]
    exact h.unblock t (hstay hsound.delayed_blocked.1 t ht)

/-- A nested suspension ends without effect. -/
lemma xTaskResumeAll_nested {n : ℕ} (hs : k.uxSchedulerSuspended = n + 2) :
    k.xTaskResumeAll = some ({ k with uxSchedulerSuspended := n + 1 }, false) := by
  rw [xTaskResumeAll, if_neg (by omega), hs]
  exact if_neg (by simp)

/-- The last suspension ends with all that happened in the meantime. -/
lemma xTaskResumeAll_spec (h : k.Sound) (htimely : k.Timely) (hc : k.pxCurrentTCB = some c)
    (hn : 0 < k.uxCurrentNumberOfTasks) (hs : k.uxSchedulerSuspended = 1) :
    ∃ k' b W, k.xTaskResumeAll = some (k', b) ∧ Resumed k c k' b W := by
  obtain ⟨⟨k₁, o⟩, hloop, hmoving, hempty⟩ :=
    movePendingReady_loop (k := { k with uxSchedulerSuspended := 0 })
      (h.congr rfl rfl rfl rfl rfl rfl rfl rfl) hc
  dsimp only at hmoving hempty
  have hsame : SameTasks k { k with uxSchedulerSuspended := 0 } :=
    ⟨rfl, rfl, rfl, rfl, rfl, rfl, rfl⟩
  have hwakes : Wakes k k₁ k.Pending := hsame.wakes_trans hmoving.wakes
  have hframe := hmoving.frame
  have hdelayed : k₁.pxDelayedTaskList = k.pxDelayedTaskList := by rw [hframe]
  have hoverflow : k₁.pxOverflowDelayedTaskList = k.pxOverflowDelayedTaskList := by rw [hframe]
  have hcount : k₁.xTickCount = k.xTickCount := by rw [hframe]
  have hpended : k₁.xPendedTicks = k.xPendedTicks := by rw [hframe]
  have hsuspended : k₁.uxSchedulerSuspended = 0 := by rw [hframe]
  have hpendSV : k₁.pendSV = k.pendSV := by rw [hframe]
  have htimely₁ : k₁.Timely :=
    htimely.wakes h.states hwakes hdelayed hoverflow hcount hmoving.unblock
  -- whether the next time is computed again or not, it is right
  obtain ⟨v, hv, hle⟩ : ∃ v,
      (if o.isSome then k₁.prvResetNextTaskUnblockTime else k₁) =
        { k₁ with xNextTaskUnblockTime := v } ∧
      ∀ t, k₁.states.container t = some k₁.pxDelayedTaskList →
        v.toNat ≤ (k₁.states.key t).toNat := by
    split_ifs
    · exact prvResetNextTaskUnblockTime_spec hmoving.sound.states.delayed_sorted
    · exact ⟨_, rfl, htimely₁.unblock⟩
  obtain ⟨k₃, W, hticks, hcaught⟩ := processPendedTicks_spec
    (k := { k₁ with xNextTaskUnblockTime := v })
    (hmoving.sound.congr rfl rfl rfl rfl rfl rfl rfl rfl)
    ⟨htimely₁.delayed, htimely₁.overflow, hle⟩ (hwakes.current.trans hc) hsuspended
    k.xPendedTicks.toNat
  have hsame₁ : SameTasks k₁ { k₁ with xNextTaskUnblockTime := v } :=
    ⟨rfl, rfl, rfl, rfl, rfl, rfl, rfl⟩
  have hsame₃ : ∀ b, SameTasks k₃ { k₃ with xPendedTicks := 0, pendSV := b } :=
    fun _ => ⟨rfl, rfl, rfl, rfl, rfl, rfl, rfl⟩
  have hall : Wakes k k₃ (k.Pending ∪ W) := (hwakes.same hsame₁).trans hcaught.wakes
  have hrun : k.xTaskResumeAll = some ({ k₃ with
      xPendedTicks := 0
      pendSV := k.pendSV || k₃.xYieldPending }, k₃.xYieldPending) := by
    have hpendSV₃ : k₃.pendSV = k.pendSV := hcaught.pendSV.trans hpendSV
    rw [xTaskResumeAll, if_neg (by omega)]
    dsimp only
    rw [if_pos ⟨by omega, hn⟩, show k.uxSchedulerSuspended - 1 = 0 by omega, hloop,
      Option.bind_eq_bind, Option.bind_some]
    rw [← hpended] at hticks
    dsimp only
    rw [hv, hticks, Option.bind_eq_bind, Option.bind_some]
    split_ifs with hyield
    · rw [hyield, Bool.or_true]
      rfl
    · rw [Bool.not_eq_true] at hyield
      rw [hyield, Bool.or_false, ← hpendSV₃]
  refine ⟨_, _, k.Pending ∪ W, hrun, ?_⟩
  constructor
  case sound => exact hcaught.sound.congr rfl rfl rfl rfl rfl rfl rfl rfl
  case timely => exact ⟨hcaught.timely.delayed, hcaught.timely.overflow, hcaught.timely.unblock⟩
  case wakes => exact hall.same (hsame₃ _)
  case count =>
    refine hcaught.count.trans ?_
    rw [BitVec.ofNat_toNat, BitVec.setWidth_eq]
    exact congrArg (· + k.xPendedTicks) hcount
  case pended => rfl
  case suspended => exact hcaught.suspended.trans hsuspended
  case settled => exact List.sublist_nil.1 (hempty ▸ hcaught.wakes.event_items _)
  case pendSV => rfl
  case yield => rfl
  case switch =>
    rintro (hyield | ⟨t, ht | ht, hlt⟩)
    · exact hcaught.yield (.inl (hmoving.yield (.inl hyield)))
    · exact hcaught.yield (.inl (hmoving.yield (.inr ⟨t, ht, hlt⟩)))
    · rw [← hwakes.priority] at hlt
      exact hcaught.yield (.inr ⟨t, ht, hlt⟩)
  case later =>
    intro t r ht hwakesIn hr
    exact hcaught.later t r ((hwakes.wakesIn ht hdelayed hoverflow hcount r).2 hwakesIn) hr
  case woken =>
    intro t r hwakesIn hr
    by_cases ht : t ∈ k.Pending
    · exact .inl ht
    · exact .inr
        (hcaught.woken t r ((hwakes.wakesIn ht hdelayed hoverflow hcount r).2 hwakesIn) hr)
  case pending => exact Set.subset_union_left

end Scheduler

end RT1064.Kernel
