import RT1064.Core.Run
import RT1064.Usb.Moves

/-!
# The serial-state notification

`hasSentState` is there to keep a second notification from being sent while the first is under way.
It is set whether or not the first one was accepted, and only the end of a notification clears it.
-/

namespace RT1064.Usb

open Core Flow

/-! ### The flag and the pipe -/

namespace Flow

variable {x y : Flow} {p q : Endpoint}

/-- What the interrupt pipe has in flight. -/
def notification (x : Flow) : Option Transfer := (x.endpoint .interruptIn).transfer

/-- A notification is under way on the interrupt pipe. -/
def Outstanding (x : Flow) : Prop :=
  ∃ t, x.notification = some t ∧ t.buffer = .serialStateBuf

/-- The flag tells whether the interrupt pipe is busy, and only notifications go there. -/
structure Notified (x : Flow) : Prop where
  sent : x.hasSentState = x.notification.isSome
  serialStateBuf : ∀ t, x.notification = some t → t.buffer = .serialStateBuf

/-- The flag is set, but nothing is under way that could clear it. -/
structure Stuck (x : Flow) : Prop where
  sent : x.hasSentState
  idle : x.notification = none

/-- What a move can do to the flag and the interrupt pipe. -/
inductive Notifies (x y : Flow) : Prop
  | elsewhere (hsent : y.hasSentState = x.hasSentState)
      (hnotification : y.notification = x.notification)
  | begins (length : ℕ) (hidle : x.hasSentState = false) (hsent : y.hasSentState)
      (hnotification : y.notification = some { buffer := .serialStateBuf, length })
  | packet (t : Transfer) (hunderway : x.notification = some t)
      (hsent : y.hasSentState = x.hasSentState)
      (hnotification : y.notification = some { t with packets := t.packets + 1 })
  | ends (t : Transfer) (hunderway : x.notification = some t) (hsent : y.hasSentState = false)
      (hnotification : y.notification = none)

/-- A move at another endpoint is none of the notification's. -/
lemma notification_update {f : UInt8 → EndpointState} {e : EndpointState}
    (h : p = .interruptIn → e.transfer = (f p.address).transfer) :
    (Function.update f p.address e Endpoint.interruptIn.address).transfer =
      (f Endpoint.interruptIn.address).transfer := by
  by_cases hp : p = .interruptIn
  · subst hp
    rw [Function.update_self]
    exact h rfl
  · rw [Function.update_of_ne (Endpoint.address_injective.ne (Ne.symm hp))]

lemma notification_update_self (f : UInt8 → EndpointState) {e : EndpointState} :
    (Function.update f Endpoint.interruptIn.address e Endpoint.interruptIn.address).transfer =
      e.transfer := by
  rw [Function.update_self]

lemma Move.notifies (h : x.Linked) (hmove : Move x y) : Notifies x y := by
  cases hmove with
  | receive n hopen hidle hn => exact .elsewhere rfl (notification_update fun hp => (by cases hp))
  | send buffer length hopen hidle =>
    exact .elsewhere rfl (notification_update fun hp => (by cases hp))
  | notify length hopen hidle hsent =>
    exact .begins length hsent rfl (notification_update_self x.endpoints)
  | packet p t payload ht =>
    by_cases hp : p = .interruptIn
    · subst hp
      refine .packet t ht rfl ?_
      exact notification_update_self x.endpoints
    · exact .elsewhere rfl (notification_update fun hint => absurd hint hp)
  | finish p t ht =>
    by_cases hp : p = .interruptIn
    · subst hp
      refine .ends t ht rfl ?_
      exact notification_update_self x.endpoints
    · exact .elsewhere (if_neg hp) (notification_update fun hint => absurd hint hp)
  | close p hidle => exact .elsewhere rfl (notification_update fun _ => rfl)
  | detach p hclosed => exact .elsewhere rfl (notification_update fun _ => rfl)
  | install p n hclosed =>
    refine .elsewhere rfl (notification_update fun _ => ?_)
    exact ((h p).closed hclosed).symm
  | clear n hclosed =>
    refine .elsewhere rfl ?_
    exact ((h .interruptIn).closed (hclosed .interruptIn)).symm

lemma Notified.outstanding (h : x.Notified) (hsent : x.hasSentState) : x.Outstanding := by
  rw [h.sent] at hsent
  obtain ⟨t, ht⟩ := Option.isSome_iff_exists.mp hsent
  exact ⟨t, ht, h.serialStateBuf t ht⟩

lemma Notified.move (h : x.Notified) (hlinked : x.Linked) (hmove : Move x y) : y.Notified := by
  cases hmove.notifies hlinked with
  | elsewhere hsent hnotification =>
    constructor
    · rw [hsent, hnotification]
      exact h.sent
    · rw [hnotification]
      exact h.serialStateBuf
  | begins length hidle hsent hnotification =>
    refine ⟨by rw [hsent, hnotification]; rfl, fun t ht => ?_⟩
    obtain rfl := Option.some.inj (hnotification.symm.trans ht)
    rfl
  | packet t hunderway hsent hnotification =>
    refine ⟨by rw [hsent, h.sent, hunderway, hnotification]; rfl, fun t' ht' => ?_⟩
    obtain rfl := Option.some.inj (hnotification.symm.trans ht')
    exact h.serialStateBuf t hunderway
  | ends t hunderway hsent hnotification =>
    refine ⟨by rw [hsent, hnotification]; rfl, fun t' ht' => ?_⟩
    exact absurd (hnotification.symm.trans ht') (by simp)

/-- Nothing clears the flag once it is set without a notification. -/
lemma Stuck.move (h : x.Stuck) (hlinked : x.Linked) (hmove : Move x y) : y.Stuck := by
  cases hmove.notifies hlinked with
  | elsewhere hsent hnotification => exact ⟨hsent.trans h.sent, hnotification.trans h.idle⟩
  | begins length hidle hsent hnotification => exact absurd h.sent (by simp [hidle])
  | packet t hunderway hsent hnotification => exact absurd (hunderway.symm.trans h.idle) (by simp)
  | ends t hunderway hsent hnotification => exact absurd (hunderway.symm.trans h.idle) (by simp)

end Flow

/-! ### Steps -/

variable {s : State} {e : Event}

/-- After the event the flag is set only while a notification is under way. -/
def SentOutstanding (s : State) (e : Event) : Prop :=
  (step s e).cdcAcm.hasSentState → (step s e).flow.Outstanding

/-- A line-state request that is going to send a notification finds the interrupt endpoint open and
the controller willing. -/
def NotificationAccepted (s : State) (e : Event) : Prop :=
  match e with
  | .setControlLineState _ wIndex =>
    wIndex.toUInt8 = s.cdcAcm.interfaceNumber → s.cdcAcm.hasSentState = false →
      (s.endpoint .interruptIn).isOpened ∧ s.answers 0 = .Success
  | _ => True

/-- The state of the notification path between two steps. -/
structure State.NotificationReady (s : State) : Prop where
  coherent : s.Coherent
  notified : s.flow.Notified

/-- While the flag is clear the interrupt pipe is idle. -/
lemma State.NotificationReady.idle (h : s.NotificationReady)
    (hsent : s.cdcAcm.hasSentState = false) : (s.endpoint .interruptIn).transfer = none := by
  have hsome : s.flow.notification.isSome = false := h.notified.sent.symm.trans hsent
  exact Option.isNone_iff_eq_none.mp (Option.isSome_eq_false_iff.mp hsome)

/-- The notification of a line-state request is taken if the condition is met. -/
lemma notified_setControlLineState (h : s.NotificationReady) {wValue wIndex : UInt16}
    (he : NotificationAccepted s (.setControlLineState wValue wIndex)) :
    (step s (.setControlLineState wValue wIndex)).flow.Notified := by
  simp only [step, USB_DeviceCdcAcmSetControlLineState]
  split_ifs with hindex
  · exact h.notified
  cases hsent : s.cdcAcm.hasSentState with
  | true =>
    rw [flow_setControlLineState_of_sent hsent]
    exact h.notified
  | false =>
    obtain ⟨hopen, hanswer⟩ := he (not_not.mp hindex) hsent
    have hmove := move_setControlLineState h.coherent.linked hsent
      ⟨hopen, h.idle hsent, hanswer⟩ wValue wIndex
    exact h.notified.move h.coherent.linked hmove

/-- A request that is not accepted sets the flag all the same. -/
lemma stuck_setControlLineState (h : s.NotificationReady) {wValue wIndex : UInt16}
    (he : ¬ NotificationAccepted s (.setControlLineState wValue wIndex)) :
    (step s (.setControlLineState wValue wIndex)).flow.Stuck := by
  simp only [NotificationAccepted, Classical.not_imp] at he
  obtain ⟨hindex, hsent, hrefuses⟩ := he
  have haccepts : ¬ s.Accepts .interruptIn := fun haccepts => hrefuses ⟨haccepts.1, haccepts.2.2⟩
  simp only [step, USB_DeviceCdcAcmSetControlLineState, if_neg (not_not.mpr hindex)]
  rw [flow_setControlLineState h.coherent.linked hsent, if_neg haccepts]
  exact ⟨rfl, h.idle hsent⟩

lemma State.NotificationReady.step (h : s.NotificationReady) (he : NotificationAccepted s e) :
    (Usb.step s e).NotificationReady where
  coherent := h.coherent.step e
  notified := by
    refine h.coherent.inv_step (fun _ _ hx hlinked hmove => Notified.move hx hlinked hmove)
      h.notified ?_
    rintro wValue wIndex rfl
    exact notified_setControlLineState h he

lemma Flow.Stuck.not_outstanding {x : Flow} (h : x.Stuck) : ¬ x.Outstanding := by
  rintro ⟨t, ht, -⟩
  exact absurd (ht.symm.trans h.idle) (by simp)

lemma sentOutstanding_iff (h : s.NotificationReady) :
    SentOutstanding s e ↔ NotificationAccepted s e := by
  by_cases he : NotificationAccepted s e
  · exact iff_of_true (fun hsent => (h.step he).notified.outstanding hsent) he
  · refine iff_of_false (fun hsound => ?_) he
    cases e with
    | setControlLineState wValue wIndex =>
      have hstuck := stuck_setControlLineState h he
      exact hstuck.not_outstanding (hsound hstuck.sent)
    | _ => exact he trivial

/-! ### Runs -/

lemma notificationReady_init (acmInfo : AcmInfo) (answers : ℕ → UsbStatus) :
    (USB_DeviceApplicationInit acmInfo answers).NotificationReady where
  coherent := coherent_init acmInfo answers
  notified := ⟨rfl, fun _ ht => (by cases ht)⟩

/-- In a run from power-up the flag is set only while a notification is under way, exactly if every
line-state request that finds the flag clear also finds the interrupt endpoint open and the
controller willing. -/
theorem sent_outstanding_iff (acmInfo : AcmInfo) (answers : ℕ → UsbStatus) (es : List Event) :
    EveryStep step SentOutstanding (USB_DeviceApplicationInit acmInfo answers) es ↔
      EveryStep step NotificationAccepted (USB_DeviceApplicationInit acmInfo answers) es :=
  everyStep_iff_of_inv State.NotificationReady (fun _ _ h he => h.step he)
    (fun _ _ h => sentOutstanding_iff h) (notificationReady_init acmInfo answers)

/-- A line-state request before the device is configured sets the flag, and no notification is
under way. -/
theorem sent_before_configuration :
    ¬ EveryStep step SentOutstanding
      (USB_DeviceApplicationInit ⟨[], false, 0, 0⟩ fun _ => .Success)
      [.setAddress 5, .setControlLineState 3 0] := by
  intro h
  obtain ⟨-, hsound, -⟩ := h
  obtain ⟨t, ht, -⟩ := hsound (by decide)
  exact absurd (ht.symm.trans (show _ = none by decide)) (by simp)

/-- The flag has been set without a notification. -/
structure State.Stuck (s : State) : Prop where
  coherent : s.Coherent
  stuck : s.flow.Stuck

lemma State.Stuck.step (h : s.Stuck) (e : Event) : (Usb.step s e).Stuck where
  coherent := h.coherent.step e
  stuck := by
    refine h.coherent.inv_step (fun _ _ hx hlinked hmove => Stuck.move hx hlinked hmove)
      h.stuck ?_
    rintro wValue wIndex rfl
    refine inv_step_setControlLineState h.stuck ?_
    rw [flow_setControlLineState_of_sent h.stuck.sent]
    exact h.stuck

lemma stuck_step (h : s.NotificationReady) (he : ¬ NotificationAccepted s e) :
    (step s e).Stuck := by
  cases e with
  | setControlLineState wValue wIndex =>
    exact ⟨h.coherent.step _, stuck_setControlLineState h he⟩
  | _ => exact absurd trivial he

/-- After one notification that was not accepted there is never another one, whatever happens, a
bus reset included. -/
theorem never_notified (h : s.NotificationReady) (he : ¬ NotificationAccepted s e)
    (es : List Event) : (es.foldl step (step s e)).Stuck :=
  inv_foldl_of_forall State.Stuck (fun _ e hs => hs.step e) es (stuck_step h he)

lemma ready_or_stuck_step (h : s.NotificationReady ∨ s.Stuck) (e : Event) :
    (step s e).NotificationReady ∨ (step s e).Stuck := by
  rcases h with hready | hstuck
  · by_cases he : NotificationAccepted s e
    · exact Or.inl (hready.step he)
    · exact Or.inr (stuck_step hready he)
  · exact Or.inr (hstuck.step e)

/-- Where the flag is clear, all notifications have been accepted. -/
lemma notificationReady_of_not_sent {acmInfo : AcmInfo} {answers : ℕ → UsbStatus}
    {es : List Event}
    (hsent : (es.foldl step (USB_DeviceApplicationInit acmInfo answers)).cdcAcm.hasSentState =
      false) : (es.foldl step (USB_DeviceApplicationInit acmInfo answers)).NotificationReady := by
  have hinv := inv_foldl_of_forall (fun s : State => s.NotificationReady ∨ s.Stuck)
    (fun _ e hs => ready_or_stuck_step hs e) es (Or.inl (notificationReady_init acmInfo answers))
  rcases hinv with hready | hstuck
  · exact hready
  · exact absurd (hstuck.stuck.sent.symm.trans hsent) (by decide)

end RT1064.Usb
