import RT1064.Kernel.MachineStart

/-!
# Events in runs

Of the tasks that wait for an event, one of the highest priority is woken, and tasks of one
priority are woken in the order in which they began to wait. A task that was woken is ready,
whether or not the scheduler was suspended when the event came.
-/

namespace RT1064.Kernel

open Core

namespace Scheduler

variable {T E : Type} {k k' : Scheduler T E} {t u c : T} {e : E}

/-- The task waits for the event. -/
def WaitsFor (k : Scheduler T E) (t : T) (e : E) : Prop :=
  k.events.container t = some (.pxEventList e)

instance [DecidableEq E] (k : Scheduler T E) (t : T) (e : E) : Decidable (k.WaitsFor t e) :=
  inferInstanceAs (Decidable (_ = _))

lemma waitsFor_iff : k.WaitsFor t e ↔ t ∈ k.events.items (.pxEventList e) := Rotas.mem_iff.symm

lemma WaitsFor.present (h : k.WaitsFor t e) (hsound : k.Sound) :
    k.states.container t ≠ none :=
  (hsound.events.waits_of_mem (waitsFor_iff.1 h)).present

/-- The lists of the events are sorted by priority, the highest one first. -/
lemma EventsSound.key_le_iff (h : k.EventsSound) (ht : k.states.container t ≠ none)
    (hu : k.states.container u ≠ none) :
    (k.events.key t).toNat ≤ (k.events.key u).toNat ↔ k.uxPriority u ≤ k.uxPriority t := by
  have hkey : ∀ p : Fin configMAX_PRIORITIES,
      (BitVec.ofNat 32 configMAX_PRIORITIES - BitVec.ofNat 32 p).toNat =
        configMAX_PRIORITIES - p := by decide
  rw [h.key t ht, h.key u hu, hkey, hkey, Fin.le_def]
  have := (k.uxPriority t).isLt
  have := (k.uxPriority u).isLt
  omega

lemma Sound.le_head (h : k.Sound) (hhead : k.events.head (.pxEventList e) = some u)
    (ht : k.WaitsFor t e) : k.uxPriority t ≤ k.uxPriority u := by
  have hu : k.WaitsFor u e := waitsFor_iff.2 (List.mem_of_mem_head? hhead)
  have hle := Rotas.rel_of_head (h.events.sorted e) le_rfl hhead ht
  exact (h.events.key_le_iff (hu.present h) (ht.present h)).1 hle

/-- The task `u` does not wait for the event, or it comes after `t`, or it has a higher
priority. -/
def Behind (k : Scheduler T E) (e : E) (t u : T) : Prop :=
  k.WaitsFor u e → k.uxPriority u ≤ k.uxPriority t →
    Precedes (k.events.items (.pxEventList e)) t u

/-- Tasks that leave the list, and tasks whose priority changes outside of it, do not matter. -/
lemma Behind.of_sublist (h : k.Behind e t u) (hsub : (k'.events.items (.pxEventList e)).Sublist
    (k.events.items (.pxEventList e))) (ht : k'.WaitsFor t e)
    (hpriority : ∀ v, k.WaitsFor v e → k'.uxPriority v = k.uxPriority v) : k'.Behind e t u := by
  intro hu hle
  have hold : ∀ v, k'.WaitsFor v e → k.WaitsFor v e := fun v hv =>
    waitsFor_iff.2 (hsub.subset (waitsFor_iff.1 hv))
  rw [hpriority u (hold u hu), hpriority t (hold t ht)] at hle
  exact (h (hold u hu) hle).of_sublist hsub (k.events.nodup_items _) (waitsFor_iff.1 ht)
    (waitsFor_iff.1 hu)

variable [DecidableEq T] [DecidableEq E]

/-- A task that begins to wait is behind those of its priority. -/
lemma Behind.waits {V : Rotas (EventList E) T TickType_t} {e' : E} (h : k.Behind e t u)
    (hsound : k.Sound) (hc : k.states.container c ≠ none)
    (hV : k.events.Changed (.pxEventList e') ((k.events.rota (.pxEventList e')).insertAfter
        (fun j => k.events.key j ≤ k.events.key c) c)
      (Function.update k.events.container c (some (.pxEventList e'))) V) (ht : k.WaitsFor t e)
    (hevents : k'.events = V) (hpriority : k'.uxPriority = k.uxPriority) : k'.Behind e t u := by
  intro hu hle
  rw [hpriority] at hle
  rw [hevents]
  by_cases he : e = e'
  · subst he
    rw [hV.items, if_pos rfl]
    by_cases huc : u = c
    · subst huc
      rw [Rota.items_insertAfter]
      exact precedes_insert (hsound.events.sorted e) (waitsFor_iff.1 ht)
        ((hsound.events.key_le_iff (ht.present hsound) hc).2 hle)
    · have hold : k.WaitsFor u e := by
        rwa [WaitsFor, hevents, hV.container, Function.update_of_ne huc] at hu
      exact (h hold hle).mono (Rota.items_sublist_insertAfter _ _ _)
  · have hne : EventList.pxEventList e ≠ .pxEventList e' := fun heq =>
      he (EventList.pxEventList.inj heq)
    rw [hV.items, if_neg hne]
    refine h ?_ hle
    rw [waitsFor_iff, hevents, hV.items, if_neg hne] at hu
    exact waitsFor_iff.2 hu

end Scheduler

namespace Machine

variable {T E : Type} [DecidableEq T] [DecidableEq E] {idle c t u : T} {m m' : Machine T E}
  {a : Action T E} {e : E}

/-- A step keeps the order of the tasks that wait. -/
lemma Transition.behind (hm : Transition idle c m a m') (h : ConsistentAt idle c m)
    (ht : m.scheduler.WaitsFor t e) (ht' : m'.scheduler.WaitsFor t e)
    (hbehind : m.scheduler.Behind e t u) : m'.scheduler.Behind e t u := by
  have hleaves : ∀ {v : T} {k : Scheduler T E}, Scheduler.Leaves m.scheduler v k →
      k.WaitsFor t e → k.Behind e t u := by
    intro v k hk ht'
    refine hbehind.of_sublist ?_ ht' fun _ _ => by rw [hk.rest]
    rw [hk.event_items]
    exact List.erase_sublist
  cases hm with
  | ticked _ hk =>
    exact hbehind.of_sublist (hk.wakes.event_items _) ht' fun _ _ => by rw [hk.wakes.priority]
  | resumed _ hk =>
    exact hbehind.of_sublist (hk.wakes.event_items _) ht' fun _ _ => by rw [hk.wakes.priority]
  | signalled _ hk =>
    rcases hk with ⟨-, hunblocks⟩ | ⟨-, hholds, -, -⟩
    · refine hbehind.of_sublist ?_ ht' fun _ _ => by rw [hunblocks.rest]
      rw [hunblocks.event_items]
      exact List.erase_sublist
    · refine hbehind.of_sublist ?_ ht' fun _ _ => by rw [hholds.rest]
      rw [hholds.event_items]
      exact List.erase_sublist
  | switched _ hk =>
    refine hbehind.of_sublist ?_ ht' fun _ _ => by rw [hk.rest]
    rw [hk.rest]
  | @created v p k _ hv hk =>
    refine hbehind.of_sublist ?_ ht' fun w hw => ?_
    · rw [Rotas.items, hk.event_rota]
      exact List.Sublist.refl _
    · have hne : w ≠ v := by
        rintro rfl
        exact hw.present h.sound hv
      rw [hk.rest]
      exact Function.update_of_ne hne _ _
  | deletedSelf _ _ hk => exact hleaves hk ht'
  | deletedOther _ _ _ _ hk => exact hleaves hk ht'
  | cleaned _ _ hk => exact hleaves hk ht'
  | blocked hready _ _ _ _ hk _ hV =>
    have hevents := congrArg Scheduler.events hk.rest
    have hpriority := hk.priority
    rcases hV with ⟨rfl, -⟩ | ⟨e', -, -, hV⟩
    · refine hbehind.of_sublist ?_ ht' fun _ _ => by rw [hpriority]
      rw [hevents]
    · refine hbehind.waits h.sound ?_ hV ht hevents hpriority
      rw [hready]
      exact Option.some_ne_none _
  | _ => exact hbehind

/-- The task that an event wakes is the first one of its list. It is ready now, or pending if the
scheduler is suspended. -/
lemma Transition.woken {b : Bool} (hm : Transition idle c m (.signal e b) m')
    (hu : m.scheduler.WaitsFor u e) (hwoken : ¬ m'.scheduler.WaitsFor u e) :
    m.scheduler.events.head (.pxEventList e) = some u ∧
      (m'.scheduler.uxSchedulerSuspended ≠ 0 ∧ u ∈ m'.scheduler.Pending ∨
        m'.scheduler.uxSchedulerSuspended = 0 ∧ m'.scheduler.IsReady u) := by
  cases hm with
  | unheard => exact absurd hu hwoken
  | resumed _ _ ha => rcases ha with ⟨ha, -⟩ | ⟨ha, -⟩ <;> cases ha
  | yielded ha => rcases ha with ⟨ha, -⟩ | ⟨ha, -⟩ <;> cases ha
  | called _ hs => obtain ⟨n, -, ⟨ha, -⟩ | ⟨v, ha, -⟩ | ⟨e', ha, -⟩⟩ := hs <;> cases ha
  | @signalled e b v k hv hk =>
    by_cases huv : u = v
    · subst huv
      refine ⟨hv, ?_⟩
      rcases hk with ⟨hs, hunblocks⟩ | ⟨hs, hholds, -, -⟩
      · have hsuspended := congrArg Scheduler.uxSchedulerSuspended hunblocks.rest
        have hpriority := congrArg Scheduler.uxPriority hunblocks.rest
        refine .inr ⟨hsuspended.trans hs, ?_⟩
        rw [Scheduler.IsReady]
        dsimp only at hpriority ⊢
        rw [hpriority]
        exact hunblocks.container_self
      · have hsuspended := congrArg Scheduler.uxSchedulerSuspended hholds.rest
        refine .inl ⟨fun hzero => hs (hsuspended.symm.trans hzero), ?_⟩
        exact (congrFun hholds.event_container u).trans (Function.update_self ..)
    · refine absurd ?_ hwoken
      rcases hk with ⟨-, hunblocks⟩ | ⟨-, hholds, -, -⟩
      · exact (congrFun hunblocks.event_container u).trans
          ((Function.update_of_ne huv _ _).trans hu)
      · exact (congrFun hholds.event_container u).trans
          ((Function.update_of_ne huv _ _).trans hu)

/-- The guard of a run in which a task waits for an event all the time. -/
def StaysWaiting (idle t : T) (e : E) (m : Machine T E) (a : Action T E) : Prop :=
  Allowed idle m a ∧ m.scheduler.WaitsFor t e

instance (idle t : T) (e : E) (m : Machine T E) (a : Action T E) :
    Decidable (StaysWaiting idle t e m a) :=
  inferInstanceAs (Decidable (_ ∧ _))

/-- An event wakes a task of the highest priority among those that wait for it, and none before
another one of its priority that began to wait earlier. -/
theorem woken_in_order {actions : List (Action T E)} {m₁ m₂ : Machine T E} {b : Bool}
    (h : Reachable idle m) (hnot : ¬ m.scheduler.WaitsFor u e)
    (hrun : Guarded step (StaysWaiting idle t e) m actions m₁) (ht : m₁.scheduler.WaitsFor t e)
    (hsignal : m₁.step (.signal e b) = some m₂) (hu : m₁.scheduler.WaitsFor u e)
    (hwoken : ¬ m₂.scheduler.WaitsFor u e) :
    (∀ v, m₁.scheduler.WaitsFor v e → m₁.scheduler.uxPriority v ≤ m₁.scheduler.uxPriority u) ∧
      m₁.scheduler.uxPriority t < m₁.scheduler.uxPriority u := by
  have hbehind : m₁.scheduler.Behind e t u := by
    clear hsignal hu hwoken
    induction hrun with
    | refl => exact fun hu => absurd hu hnot
    | @tail m₁ m₂ actions a hrun ha hstep ih =>
      have hreachable := h.guarded (hrun.mono fun _ _ hstays => hstays.1)
      obtain ⟨c, hc, hm⟩ := hreachable.transition ha.1 hstep
      exact hm.behind hc ha.2 ht (ih ha.2)
  have hallowed : Allowed idle m₁ (.signal e b) := trivial
  have hreachable := h.guarded (hrun.mono fun _ _ hstays => hstays.1)
  obtain ⟨c, hc, hm⟩ := hreachable.transition hallowed hsignal
  obtain ⟨hhead, -⟩ := hm.woken hu hwoken
  refine ⟨fun v hv => hc.sound.le_head hhead hv, lt_of_not_ge fun hge => ?_⟩
  exact (hbehind hu hge).head_ne (m₁.scheduler.events.nodup_items _) hhead

/-- The timer task waits for a tick, and a task of priority 4 for an event. -/
def oneWaits : Option (Machine ExampleTask Unit) :=
  Guarded.follow step (Allowed .idle) started
    [.vTaskDelay 1, .proceed, .proceed, .proceed, .xPortPendSVHandler, .wait () 9, .proceed,
      .proceed, .proceed, .xPortPendSVHandler]

lemma reachable_oneWaits : Reachable .idle (oneWaits.get (by decide)) :=
  reachable_started.guarded (Guarded.of_follow (Option.some_get _).symm)

/-- The timer task waits for the event as well. -/
def twoWait : Option (Machine ExampleTask Unit) :=
  Guarded.follow step (StaysWaiting .idle .first ()) (oneWaits.get (by decide))
    [.xPortSysTickHandler, .xPortPendSVHandler, .wait () 9, .proceed, .proceed, .proceed]

theorem woken_in_order_started :
    (twoWait.get (by decide)).scheduler.uxPriority .first <
      (twoWait.get (by decide)).scheduler.uxPriority .timer :=
  (woken_in_order (e := ()) (b := true) reachable_oneWaits (by decide)
    (Guarded.of_follow (Option.some_get _).symm) (by decide) (Option.some_get (by decide)).symm
    (by decide) (by decide)).2

/-- While the scheduler is suspended, a task that was woken stays in the list of pending tasks, and
it is ready when the scheduler is resumed. -/
lemma Transition.pending (hm : Transition idle c m a m') (h : ConsistentAt idle c m)
    (hs : m.scheduler.uxSchedulerSuspended ≠ 0) (hu : u ∈ m.scheduler.Pending)
    (ha : a ≠ .vTaskDelete (some u)) :
    m'.scheduler.uxSchedulerSuspended ≠ 0 ∧ u ∈ m'.scheduler.Pending ∨
      m'.scheduler.uxSchedulerSuspended = 0 ∧ m'.scheduler.IsReady u := by
  have hwaits : m.scheduler.Waits u := h.sound.events.waits_of_mem (Rotas.mem_iff.2 hu)
  have hleaves : ∀ {v : T} {k : Scheduler T E}, Scheduler.Leaves m.scheduler v k → u ≠ v →
      k.uxSchedulerSuspended ≠ 0 ∧ u ∈ k.Pending := by
    intro v k hk huv
    refine ⟨by rwa [hk.rest], ?_⟩
    exact (congrFun hk.event_container u).trans ((Function.update_of_ne huv _ _).trans hu)
  cases hm with
  | ticked hzero => exact absurd hzero hs
  | switched hzero => exact absurd hzero hs
  | called hblock => exact absurd hblock.2.1 hs
  | deletedSelf hblock => exact absurd hblock.2.1 hs
  | suspended => exact .inl ⟨Nat.succ_ne_zero _, hu⟩
  | nested => exact .inl ⟨Nat.succ_ne_zero _, hu⟩
  | signalled _ hk =>
    rcases hk with ⟨hzero, -⟩ | ⟨-, hholds, -, -⟩
    · exact absurd hzero hs
    · have hsuspended := congrArg Scheduler.uxSchedulerSuspended hholds.rest
      refine .inl ⟨fun hzero => hs (hsuspended.symm.trans hzero), ?_⟩
      refine (congrFun hholds.event_container u).trans ?_
      rw [Function.update_apply]
      split_ifs
      · rfl
      · exact hu
  | resumed _ hk =>
    refine .inr ⟨hk.suspended, ?_⟩
    rw [Scheduler.IsReady, hk.wakes.priority]
    exact (hk.wakes.ready u (hk.pending hu)).1
  | created _ _ hk =>
    refine .inl ⟨?_, (congrFun hk.event_container u).trans hu⟩
    rwa [hk.rest]
  | @deletedOther v k _ _ _ _ hk =>
    refine .inl (hleaves hk ?_)
    rintro rfl
    exact ha rfl
  | @cleaned v k _ hv hk =>
    refine .inl (hleaves hk ?_)
    rintro rfl
    exact hwaits.not_deleted hv
  | @blocked V n b k hready _ _ _ _ hk _ hV =>
    have hcontainer : k.events.container u = V.container u := by rw [hk.rest]
    have huc : u ≠ c := by
      rintro rfl
      exact hwaits.not_ready _ hready
    refine .inl ⟨by rwa [hk.rest], hcontainer.trans ?_⟩
    rcases hV with ⟨rfl, -⟩ | ⟨e', -, -, hV⟩
    · exact hu
    · rw [hV.container, Function.update_of_ne huc]
      exact hu
  | _ => exact .inl ⟨hs, hu⟩

/-- The guard of a run up to the first state in which the scheduler is not suspended. -/
def StaysSuspended (idle u : T) (m : Machine T E) (a : Action T E) : Prop :=
  Allowed idle m a ∧ m.scheduler.uxSchedulerSuspended ≠ 0 ∧ a ≠ .vTaskDelete (some u)

instance (idle u : T) (m : Machine T E) (a : Action T E) : Decidable (StaysSuspended idle u m a) :=
  inferInstanceAs (Decidable (_ ∧ _ ∧ _))

/-- No event is lost: a task that it wakes is ready as soon as the scheduler is not suspended. -/
theorem signal_not_lost {actions : List (Action T E)} {m₁ m₂ : Machine T E} {b : Bool}
    (h : Reachable idle m) (hu : m.scheduler.WaitsFor u e)
    (hsignal : m.step (.signal e b) = some m₁) (hwoken : ¬ m₁.scheduler.WaitsFor u e)
    (hrun : Guarded step (StaysSuspended idle u) m₁ actions m₂)
    (hs : m₂.scheduler.uxSchedulerSuspended = 0) : m₂.scheduler.IsReady u := by
  have hallowed : Allowed idle m (.signal e b) := trivial
  have hm₁ := h.guarded (.single hallowed hsignal)
  have hpending : m₂.scheduler.uxSchedulerSuspended ≠ 0 ∧ u ∈ m₂.scheduler.Pending ∨
      m₂.scheduler.uxSchedulerSuspended = 0 ∧ m₂.scheduler.IsReady u := by
    clear hs
    induction hrun with
    | refl =>
      obtain ⟨c, -, hm⟩ := h.transition hallowed hsignal
      exact (hm.woken hu hwoken).2
    | @tail m₂ m₃ actions a hrun ha hstep ih =>
      have hreachable := hm₁.guarded (hrun.mono fun _ _ hstays => hstays.1)
      obtain ⟨c, hc, hm⟩ := hreachable.transition ha.1 hstep
      rcases ih with ⟨-, hu⟩ | ⟨hzero, -⟩
      · exact hm.pending hc ha.2.1 hu ha.2.2
      · exact absurd hzero ha.2.1
  rcases hpending with ⟨hne, -⟩ | ⟨-, hready⟩
  · exact absurd hs hne
  · exact hready

/-- The event comes while the scheduler is suspended. -/
def oneSuspended : Option (Machine ExampleTask Unit) :=
  (oneWaits.get (by decide)).step .vTaskSuspendAll

def oneResumed : Option (Machine ExampleTask Unit) :=
  Guarded.follow step (StaysSuspended .idle .first)
    (((oneSuspended.get (by decide)).step (.signal () true)).get (by decide))
    [.xPortSysTickHandler, .xTaskResumeAll]

theorem signal_not_lost_started : (oneResumed.get (by decide)).scheduler.IsReady .first :=
  have hallowed : Allowed .idle (oneWaits.get (by decide)) .vTaskSuspendAll := by decide
  signal_not_lost (e := ()) (b := true)
    (reachable_oneWaits.guarded (.single hallowed (Option.some_get _).symm)) (by decide)
    (Option.some_get _).symm (by decide) (Guarded.of_follow (Option.some_get _).symm) (by decide)

end Machine

end RT1064.Kernel
