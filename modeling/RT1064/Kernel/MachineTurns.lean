import RT1064.Kernel.MachineStart

/-!
# Turns

Tasks of one priority take turns: while two of them are ready, none is selected more than once
more often than the other.
-/

namespace RT1064.Kernel

open Core

namespace Scheduler

variable {T E : Type} {k k' : Scheduler T E} {t u c : T} {p : Fin configMAX_PRIORITIES}

/-- The turn of `t` comes before that of `u` in the ready list. -/
def Before (k : Scheduler T E) (p : Fin configMAX_PRIORITIES) (t u : T) : Prop :=
  (k.states.rota (.pxReadyTasksLists p)).Before t u

lemma Before.congr (h : k.Before p t u) (hrota : k'.states.rota (.pxReadyTasksLists p) =
    k.states.rota (.pxReadyTasksLists p)) : k'.Before p t u := by
  rw [Before, hrota]
  exact h

lemma Before.wakes {W : Set T} (h : k.Before p t u) (hw : Wakes k k' W) : k'.Before p t u :=
  Precedes.mono h (hw.order p)

variable [DecidableEq T]

lemma Before.leaves (h : k.Before p t u) (hk : Leaves k c k') (ht : k'.Ready t p)
    (hu : k'.Ready u p) : k'.Before p t u := by
  have hrota := hk.rota (.pxReadyTasksLists p) (by simp)
  rw [Before, hrota]
  exact Rota.Before.erase h (k.states.nodup _) (hk.ready_iff.1 ht).1 (hk.ready_iff.1 hu).1

lemma Before.blocks {n : TickType_t} {b : Bool} (h : k.Before p t u) (hsound : k.StatesSound)
    (hk : Blocks k c n b k') (ht : k'.Ready t p) (hu : k'.Ready u p) : k'.Before p t u := by
  obtain ⟨r, hmoved⟩ := hk.moved
  have hne : StateList.pxReadyTasksLists p ≠ k.blockList n b := by
    have hblocked := blockList_blocked hsound n b
    rintro heq
    rw [← heq] at hblocked
    exact hblocked
  rw [Before, hmoved.rota, if_neg hne]
  exact Rota.Before.erase h (k.states.nodup _) ((hk.ready_iff hsound p).1 ht).1
    ((hk.ready_iff hsound p).1 hu).1

lemma Before.creates {v : T} {q : Fin configMAX_PRIORITIES} (h : k.Before p t u)
    (hk : Creates k v q k') : k'.Before p t u := by
  rw [Before, hk.states.rota, Function.update_apply]
  split_ifs with hp
  · obtain rfl := StateList.pxReadyTasksLists.inj hp
    exact Precedes.mono h (Rota.order_sublist_insertEnd _ v)
  · exact h

omit [DecidableEq T] in
/-- A selected task has its next turn after all others of its priority. -/
lemma Before.switched {q : Fin configMAX_PRIORITIES} (h : k.Before p t u) (hsound : k.StatesSound)
    (ht : k.Ready t p) (hu : k.Ready u p) (hk : Switched k k' c q) :
    u ≠ c ∧ (t = c → k'.Before p u t) ∧ (t ≠ c → k'.Before p t u) := by
  have hpriority : ∀ v, k.Ready v p → v = c → q = p := by
    rintro v hv rfl
    exact (hsound.priority v q hk.ready).symm.trans (hsound.priority v p hv)
  obtain ⟨r, hr, hchanged⟩ := hk.next
  by_cases hq : q = p
  · subst hq
    have hrota : k'.states.rota (.pxReadyTasksLists q) = r := by
      rw [hchanged.rota, Function.update_self]
    rw [Before, Before, hrota]
    exact Rota.Before.next h (k.states.nodup _) hr
  · have hne : StateList.pxReadyTasksLists p ≠ .pxReadyTasksLists q := fun heq =>
      hq (StateList.pxReadyTasksLists.inj heq).symm
    have hrota : k'.states.rota (.pxReadyTasksLists p) =
        k.states.rota (.pxReadyTasksLists p) := by
      rw [hchanged.rota, Function.update_of_ne hne]
    exact ⟨fun heq => hq (hpriority u hu heq), fun heq => absurd (hpriority t ht heq) hq,
      fun _ => h.congr hrota⟩

end Scheduler

namespace Machine

variable {T E : Type} [DecidableEq T] [DecidableEq E] {idle c t u : T} {m m' : Machine T E}
  {a : Action T E} {p : Fin configMAX_PRIORITIES}

/-- Whether the task was selected in the step. -/
def turns (t : T) (m : Machine T E) (a : Action T E) (m' : Machine T E) : ℕ :=
  match a with
  | .xPortPendSVHandler =>
    if m.scheduler.uxSchedulerSuspended = 0 ∧ m'.scheduler.pxCurrentTCB = some t then 1 else 0
  | _                   => 0

omit [DecidableEq E] in
lemma turns_switched {c' v : T} (hs : m.scheduler.uxSchedulerSuspended = 0)
    (hc : m'.scheduler.pxCurrentTCB = some c') :
    turns v m .xPortPendSVHandler m' = if c' = v then 1 else 0 := by
  simp only [turns, hs, hc, true_and, Option.some_inj]

/-- A step keeps which of two ready tasks comes first, or selects that one. -/
lemma Transition.before (hm : Transition idle c m a m') (h : ConsistentAt idle c m)
    (ht : m.scheduler.Ready t p) (hu : m.scheduler.Ready u p)
    (hbefore : m.scheduler.Before p t u) :
    turns u m a m' = 0 ∧ (turns t m a m' = 0 ∧
        (m'.scheduler.Ready t p → m'.scheduler.Ready u p → m'.scheduler.Before p t u) ∨
      turns t m a m' = 1 ∧ m'.scheduler.Before p u t) := by
  have hcall : ∀ {b : Action T E}, b ≠ .xPortPendSVHandler →
      (m'.scheduler.Ready t p → m'.scheduler.Ready u p → m'.scheduler.Before p t u) →
      turns u m b m' = 0 ∧ (turns t m b m' = 0 ∧
          (m'.scheduler.Ready t p → m'.scheduler.Ready u p → m'.scheduler.Before p t u) ∨
        turns t m b m' = 1 ∧ m'.scheduler.Before p u t) := by
    intro b hb hk
    have hnone : ∀ v, turns v m b m' = 0 := by
      intro v
      cases b <;> first | rfl | exact absurd rfl hb
    exact ⟨hnone u, .inl ⟨hnone t, hk⟩⟩
  cases hm with
  | @switched k c' q hs hk =>
    have hsound : ({ m.scheduler with pendSV := false } : Scheduler T E).Sound :=
      h.sound.congr rfl rfl rfl rfl rfl rfl rfl rfl
    obtain ⟨hne, hself, hother⟩ := Scheduler.Before.switched
      (k := { m.scheduler with pendSV := false }) hbefore hsound.states ht hu hk
    have hcurrent : k.pxCurrentTCB = some c' := by rw [hk.rest]
    rw [turns_switched hs hcurrent, turns_switched hs hcurrent, if_neg hne.symm]
    refine ⟨rfl, ?_⟩
    by_cases htc : t = c'
    · exact .inr ⟨if_pos htc.symm, hself htc⟩
    · exact .inl ⟨if_neg fun heq => htc heq.symm, fun _ _ => hother htc⟩
  | deferred hs =>
    have hnone : ∀ v, turns v m .xPortPendSVHandler
        ⟨{ m.scheduler with pendSV := false, xYieldPending := true }, m.stage,
          m.xPreviousWakeTime⟩ = 0 :=
      fun v => if_neg fun hand => hs hand.1
    exact ⟨hnone u, .inl ⟨hnone t, fun _ _ => hbefore⟩⟩
  | ticked _ hk => exact hcall nofun fun _ _ => (hbefore.wakes hk.wakes).congr rfl
  | signalled hhead hk =>
    refine hcall nofun fun _ _ => ?_
    rcases hk with ⟨-, hunblocks⟩ | ⟨-, hholds, -, -⟩
    · have hwaits := h.sound.events.waits_of_mem (List.mem_of_mem_head? hhead)
      exact (hbefore.wakes (hunblocks.wakes hwaits)).congr rfl
    · have hrota := congrArg (fun k => k.states.rota (.pxReadyTasksLists p)) hholds.rest
      exact (hbefore.congr hrota).congr rfl
  | resumed _ hk ha =>
    refine hcall ?_ fun _ _ => hbefore.wakes hk.wakes
    rcases ha with ⟨rfl, -⟩ | ⟨rfl, -⟩ <;> exact nofun
  | yielded ha =>
    refine hcall ?_ fun _ _ => hbefore
    rcases ha with ⟨rfl, -⟩ | ⟨rfl, -⟩ <;> exact nofun
  | called _ hs =>
    refine hcall ?_ fun _ _ => hbefore
    obtain ⟨n, -, ⟨rfl, -⟩ | ⟨u, rfl, -⟩ | ⟨e, rfl, -⟩⟩ := hs <;> exact nofun
  | created _ _ hk => exact hcall nofun fun _ _ => hbefore.creates hk
  | deletedSelf _ _ hk => exact hcall nofun (hbefore.leaves hk)
  | deletedOther _ _ _ _ hk => exact hcall nofun (hbefore.leaves hk)
  | cleaned _ _ hk => exact hcall nofun (hbefore.leaves hk)
  | @blocked V n b k _ _ _ _ _ hk =>
    exact hcall nofun (Scheduler.Before.blocks (k := { m.scheduler with events := V }) hbefore
      (h.sound.states.withEvents V) hk)
  | _ => exact hcall nofun fun _ _ => hbefore

instance (k : Scheduler T E) (v : T) (q : Fin configMAX_PRIORITIES) : Decidable (k.Ready v q) :=
  inferInstanceAs (Decidable (_ = _))

/-- The guard of a run in which two tasks of a priority are ready all the time. -/
def BothReady (idle : T) (p : Fin configMAX_PRIORITIES) (t u : T) (m : Machine T E)
    (a : Action T E) : Prop :=
  Allowed idle m a ∧ m.scheduler.Ready t p ∧ m.scheduler.Ready u p

instance (m : Machine T E) (a : Action T E) : Decidable (BothReady idle p t u m a) :=
  inferInstanceAs (Decidable (_ ∧ _ ∧ _))

/-- Time slices are shared out fairly: while two tasks of a priority are ready, none of them is
selected more than once more often than the other, whatever other tasks come and go. -/
theorem turns_fair {actions : List (Action T E)} (h : Reachable idle m) (hne : t ≠ u)
    (hrun : Guarded step (BothReady idle p t u) m actions m') :
    tally step (turns t) m actions ≤ tally step (turns u) m actions + 1 := by
  -- the task whose turn comes first is not ahead of the other one
  have hinv : tally step (turns t) m actions ≤ tally step (turns u) m actions + 1 ∧
      (m'.scheduler.Ready t p → m'.scheduler.Ready u p →
        m'.scheduler.Before p t u ∧
          tally step (turns t) m actions ≤ tally step (turns u) m actions ∨
        m'.scheduler.Before p u t) := by
    induction hrun with
    | refl =>
      refine ⟨Nat.zero_le _, fun ht hu => ?_⟩
      have hor := Rota.before_or_before (Rotas.mem_iff.2 ht) (Rotas.mem_iff.2 hu) hne
      exact hor.imp_left fun hbefore => ⟨hbefore, le_rfl⟩
    | @tail m₁ m₂ actions a hrun ha hstep ih =>
      obtain ⟨hle, hready⟩ := ih
      have hreachable := h.guarded (hrun.mono fun _ _ hboth => hboth.1)
      obtain ⟨c, hc, hm⟩ := hreachable.transition ha.1 hstep
      rw [hrun.tally_concat _ _ hstep, hrun.tally_concat _ _ hstep]
      rcases hready ha.2.1 ha.2.2 with ⟨hbefore, hle'⟩ | hbefore
      · obtain ⟨hu, ⟨ht, hkeep⟩ | ⟨ht, hswap⟩⟩ := hm.before hc ha.2.1 ha.2.2 hbefore
        · exact ⟨by omega, fun ht' hu' => .inl ⟨hkeep ht' hu', by omega⟩⟩
        · exact ⟨by omega, fun _ _ => .inr hswap⟩
      · obtain ⟨ht, ⟨hu, hkeep⟩ | ⟨hu, hswap⟩⟩ := hm.before hc ha.2.2 ha.2.1 hbefore
        · exact ⟨by omega, fun ht' hu' => .inr (hkeep hu' ht')⟩
        · exact ⟨by omega, fun _ _ => .inl ⟨hswap, by omega⟩⟩
  exact hinv.1

/-- The timer task waits, and two tasks of priority 4 take turns. -/
def slices : List (Action ExampleTask Unit) :=
  [.vTaskDelay 9, .proceed, .proceed, .proceed, .xPortPendSVHandler, .xPortSysTickHandler,
    .xPortPendSVHandler, .xPortSysTickHandler, .xPortPendSVHandler]

theorem turns_fair_started :
    tally step (turns .first) started slices ≤ tally step (turns .second) started slices + 1 :=
  have hslices :
      (Guarded.follow step (BothReady .idle 4 .first .second) started slices).isSome := by decide
  turns_fair reachable_started (by decide) (Guarded.of_follow (Option.some_get hslices).symm)

example : tally step (turns .first) started slices = 2 ∧
    tally step (turns .second) started slices = 1 := by
  decide

end Machine

end RT1064.Kernel
