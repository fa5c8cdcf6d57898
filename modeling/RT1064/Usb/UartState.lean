import RT1064.Usb.Notification
import RT1064.Usb.Session

/-!
# The line state that the host is told

A line-state request that finds a notification under way sends none of its own, but it writes to
the buffer of the one under way. The host learns of it if the controller has not read the buffer
yet; after that nothing repeats the notification.
-/

namespace RT1064.Usb

open Core Flow

/-! ### Carrier bits -/

variable {u v c c' : UInt16}

lemma setCarrier_setCarrier (u c : UInt16) (a b : Bool) :
    setCarrier (setCarrier u c a) c b = setCarrier u c b := by
  apply UInt16.toBitVec_inj.mp
  ext i hi
  cases a <;> cases b <;>
    simp only [setCarrier, if_true, if_false, Bool.false_eq_true, UInt16.toBitVec_or,
      UInt16.toBitVec_and, UInt16.toBitVec_not, BitVec.getElem_or, BitVec.getElem_and,
      BitVec.getElem_not] <;>
    grind

/-- Different bits are set in either order. -/
lemma setCarrier_comm (h : c &&& c' = 0) (u : UInt16) (a b : Bool) :
    setCarrier (setCarrier u c a) c' b = setCarrier (setCarrier u c' b) c a := by
  have hbits : ∀ i (hi : i < 16), c.toBitVec[i] → c'.toBitVec[i] = false := by
    intro i hi
    simpa using congrArg (fun b : BitVec 16 => b[i]) (congrArg UInt16.toBitVec h)
  apply UInt16.toBitVec_inj.mp
  ext i hi
  have hbit := hbits i hi
  cases a <;> cases b <;>
    simp only [setCarrier, if_true, if_false, Bool.false_eq_true, UInt16.toBitVec_or,
      UInt16.toBitVec_and, UInt16.toBitVec_not, BitVec.getElem_or, BitVec.getElem_and,
      BitVec.getElem_not] <;>
    grind

lemma setCarrier_and (hc : c ≠ 0) (u : UInt16) (a : Bool) : setCarrier u c a &&& c ≠ 0 ↔ a := by
  cases a with
  | true =>
    have hset : (u ||| c) &&& c = c := by
      apply UInt16.toBitVec_inj.mp
      ext i hi
      simp only [UInt16.toBitVec_or, UInt16.toBitVec_and, BitVec.getElem_or, BitVec.getElem_and]
      grind
    rw [setCarrier, if_pos rfl, hset]
    exact iff_of_true hc rfl
  | false =>
    have hclear : u &&& ~~~c &&& c = 0 := by
      apply UInt16.toBitVec_inj.mp
      ext i hi
      simp
    rw [setCarrier, if_neg Bool.false_ne_true, hclear]
    exact iff_of_false (not_not.mpr rfl) Bool.false_ne_true

/-- The two bits of a SET_CONTROL_LINE_STATE that the application looks at. -/
structure ControlSignals where
  carrier : Bool
  dte : Bool
deriving DecidableEq, Repr

namespace ControlSignals

def of (wValue : UInt16) : ControlSignals where
  carrier := wValue.toUInt8 &&& USB_DEVICE_CDC_CONTROL_SIG_BITMAP_CARRIER_ACTIVATION ≠ 0
  dte := wValue.toUInt8 &&& USB_DEVICE_CDC_CONTROL_SIG_BITMAP_DTE_PRESENCE ≠ 0

/-- `uartState` after a request with these bits. -/
def apply (c : ControlSignals) (uartState : UInt16) : UInt16 :=
  setCarrier (setCarrier uartState USB_DEVICE_CDC_UART_STATE_TX_CARRIER c.carrier)
    USB_DEVICE_CDC_UART_STATE_RX_CARRIER c.dte

variable {c c' : ControlSignals}

lemma apply_comm (c : ControlSignals) (u : UInt16) : c.apply u =
    setCarrier (setCarrier u USB_DEVICE_CDC_UART_STATE_RX_CARRIER c.dte)
      USB_DEVICE_CDC_UART_STATE_TX_CARRIER c.carrier :=
  setCarrier_comm (by decide) u c.carrier c.dte

/-- The latest request decides. -/
lemma apply_apply (c c' : ControlSignals) (u : UInt16) : c'.apply (c.apply u) = c'.apply u := by
  rw [apply, apply_comm c, setCarrier_setCarrier, setCarrier_comm (by decide),
    setCarrier_setCarrier]
  exact setCarrier_comm (by decide) u c'.dte c'.carrier

lemma apply_injective (u : UInt16) : Function.Injective fun c : ControlSignals => c.apply u := by
  intro c c' h
  have hcarrier := congrArg (· &&& USB_DEVICE_CDC_UART_STATE_TX_CARRIER ≠ 0) h
  have hdte := congrArg (· &&& USB_DEVICE_CDC_UART_STATE_RX_CARRIER ≠ 0) h
  simp only [apply_comm, setCarrier_and (show USB_DEVICE_CDC_UART_STATE_TX_CARRIER ≠ 0 by decide),
    eq_iff_iff, Bool.coe_iff_coe] at hcarrier
  simp only [apply, setCarrier_and (show USB_DEVICE_CDC_UART_STATE_RX_CARRIER ≠ 0 by decide),
    eq_iff_iff, Bool.coe_iff_coe] at hdte
  obtain ⟨a, b⟩ := c
  obtain ⟨a', b'⟩ := c'
  simp only at hcarrier hdte
  rw [hcarrier, hdte]

end ControlSignals

lemma uartState_update (acmInfo : AcmInfo) (wValue wIndex : UInt16) :
    (acmInfo.update wValue wIndex).uartState =
      (ControlSignals.of wValue).apply acmInfo.uartState := rfl

lemma shortBytes_injective : Function.Injective shortBytes := by
  intro u v h
  simp only [shortBytes, List.cons.injEq, and_true] at h
  have hlow := congrArg UInt8.toNat h.1
  have hhigh := congrArg UInt8.toNat h.2
  simp only [UInt16.toNat_toUInt8, UInt16.toNat_shiftRight] at hlow hhigh
  have hu := u.toNat_lt
  have hv := v.toNat_lt
  apply UInt16.toNat_inj.mp
  simp [Nat.shiftRight_eq_div_pow] at hlow hhigh
  omega

/-! ### What the host has read -/

/-- The latest packet on a pipe. -/
def PipeView.lastPacket (x : PipeView) : Option (List UInt8) :=
  x.trace.findSome? Observation.payload?

/-- The UART bitmap of the latest notification the host has read. -/
def State.reported (s : State) : Option (List UInt8) :=
  (s.flow.view .interruptIn).lastPacket.map (List.drop NOTIF_PACKET_SIZE)

/-- A record of the requests: the bits of the latest one handled, and those that were the latest
when the controller read the buffer of a notification. -/
structure LineMonitor where
  handled : Option ControlSignals := none
  read : Option ControlSignals := none
deriving DecidableEq, Repr

def LineMonitor.step (s : State) (m : LineMonitor) : Event → LineMonitor
  | .setControlLineState wValue wIndex =>
    if wIndex.toUInt8 = s.cdcAcm.interfaceNumber then
      { m with handled := some (ControlSignals.of wValue) }
    else m
  | .token p =>
    if p = .interruptIn ∧ s.flow.notification.any (·.packets = 0) then
      { m with read := m.handled }
    else m
  | _ => m

/-- The device beside the record. -/
def recordedStep (x : State × LineMonitor) (e : Event) : State × LineMonitor :=
  (step x.1 e, x.2.step x.1 e)

/-- The host knows the UART state. -/
def State.Reported (s : State) : Prop := s.reported = some (shortBytes s.acmInfo.uartState)

instance (s : State) : Decidable s.Reported := inferInstanceAs (Decidable (_ = _))

/-- After the event, unless a notification is under way, the host knows the UART state. -/
def UpdateReported (x : State × LineMonitor) (e : Event) : Prop :=
  (recordedStep x e).2.handled.isSome → (recordedStep x e).1.cdcAcm.hasSentState = false →
    (recordedStep x e).1.Reported

/-- When a notification ends, the latest request has the bits of the one that was the latest when
the controller read the buffer. -/
def ReadIsLatest (x : State × LineMonitor) (e : Event) : Prop :=
  match e with
  | .complete .interruptIn _ =>
    ∀ t, x.1.flow.notification = some t → 0 < t.packets → x.2.read = x.2.handled
  | _ => True

/-! ### Steps -/

/-- The UART state after the latest request of a session that began with `u`. -/
def LineMonitor.uartState (m : LineMonitor) (u : UInt16) : UInt16 :=
  m.handled.elim u fun c => c.apply u

/-- Buffer, notification and host in a session that began with the UART state `u`. -/
structure LineTracked (u : UInt16) (x : State × LineMonitor) : Prop where
  session : x.1.Session
  notified : x.1.flow.Notified
  uartState : x.1.acmInfo.uartState = x.2.uartState u
  buffer : x.2.handled.isSome →
    x.1.acmInfo.serialStateBuf.length = NOTIF_PACKET_SIZE + UART_BITMAP_SIZE ∧
      x.1.acmInfo.serialStateBuf.drop NOTIF_PACKET_SIZE = shortBytes x.1.acmInfo.uartState
  underway : ∀ t, x.1.flow.notification = some t →
    x.2.handled.isSome ∧ t.length = NOTIF_PACKET_SIZE + UART_BITMAP_SIZE ∧
      (0 < t.packets → ∃ c, x.2.read = some c ∧ x.1.reported = some (shortBytes (c.apply u)))
  idle : x.1.flow.notification = none → x.2.handled.isSome → x.1.Reported

variable {u : UInt16} {x : State × LineMonitor} {s : State} {e : Event}

lemma LineTracked.ready (h : LineTracked u x) : x.1.NotificationReady :=
  ⟨h.session.coherent, h.notified⟩

/-- What is not seen on the interrupt pipe changes nothing. -/
lemma LineTracked.of_view (h : LineTracked u x) {s : State} (hsession : s.Session)
    (hview : s.flow.view .interruptIn = x.1.flow.view .interruptIn)
    (hacmInfo : s.acmInfo = x.1.acmInfo) : LineTracked u (s, x.2) := by
  have hnotification : s.flow.notification = x.1.flow.notification :=
    congrArg (fun y => y.endpoint.transfer) hview
  have hsent : s.flow.hasSentState = x.1.flow.hasSentState := by
    simpa [Flow.view] using congrArg PipeView.hasSentState hview
  have hreported : s.reported = x.1.reported := by rw [State.reported, hview, State.reported]
  refine ⟨hsession, ⟨?_, ?_⟩, ?_, ?_, ?_, ?_⟩
  · rw [hsent, hnotification]
    exact h.notified.sent
  · rw [hnotification]
    exact h.notified.serialStateBuf
  · rw [hacmInfo]
    exact h.uartState
  · rw [hacmInfo]
    exact h.buffer
  · rw [hnotification, hreported]
    exact h.underway
  · rw [hnotification, State.Reported, hreported, hacmInfo]
    exact h.idle

/-- In a session a notification is taken whenever the flag is clear. -/
lemma LineTracked.accepts (h : LineTracked u x) (hsent : x.1.cdcAcm.hasSentState = false) :
    x.1.Accepts .interruptIn :=
  ⟨h.session.opened _, h.ready.idle hsent, h.session.willing 0⟩

lemma acmInfo_setControlLineState (s : State) (wValue wIndex : UInt16) :
    (setControlLineState s wValue wIndex).acmInfo = s.acmInfo.update wValue wIndex := by
  have hsetup := congrArg Setup.acmInfo (setup_setControlLineState (s := s) wValue wIndex)
  refine hsetup.trans ?_
  simp only [Setup.start]
  split_ifs <;> rfl

/-- The pipe after a request: the notification under way goes on, or a new one is taken. -/
lemma notification_setControlLineState (h : LineTracked u x) (wValue wIndex : UInt16) :
    (setControlLineState x.1 wValue wIndex).flow = x.1.flow ∧ x.1.flow.notification.isSome ∨
      (setControlLineState x.1 wValue wIndex).flow.notification =
        some { buffer := .serialStateBuf, length := NOTIF_PACKET_SIZE + UART_BITMAP_SIZE } := by
  cases hsent : x.1.cdcAcm.hasSentState with
  | true =>
    left
    exact ⟨flow_setControlLineState_of_sent hsent _ _, h.notified.sent.symm.trans hsent⟩
  | false =>
    right
    rw [flow_setControlLineState h.session.coherent.linked hsent, if_pos (h.accepts hsent)]
    exact notification_update_self x.1.endpoints

lemma lineTracked_setControlLineState (h : LineTracked u x) (wValue wIndex : UInt16) :
    LineTracked u (recordedStep x (.setControlLineState wValue wIndex)) := by
  by_cases hindex : wIndex.toUInt8 = x.1.cdcAcm.interfaceNumber
  · have hready := h.ready.step (e := .setControlLineState wValue wIndex)
      fun _ _ => ⟨h.session.opened _, h.session.willing 0⟩
    have hsession := h.session.step (e := .setControlLineState wValue wIndex) trivial
    simp only [recordedStep, LineMonitor.step, if_pos hindex, step,
      USB_DeviceCdcAcmSetControlLineState, if_neg (not_not.mpr hindex)] at hready hsession ⊢
    have hacmInfo := acmInfo_setControlLineState x.1 wValue wIndex
    have hpipe := notification_setControlLineState h wValue wIndex
    refine ⟨hsession, hready.notified, ?_, fun _ => ?_, fun t ht => ⟨rfl, ?_⟩, fun hidle => ?_⟩
    · rw [hacmInfo, uartState_update, h.uartState]
      simp only [LineMonitor.uartState]
      cases x.2.handled with
      | none => rfl
      | some c => exact ControlSignals.apply_apply c _ u
    · rw [hacmInfo]
      exact ⟨rfl, rfl⟩
    · rcases hpipe with ⟨hflow, -⟩ | hnew
      · rw [State.reported, hflow]
        rw [hflow] at ht
        exact (h.underway t ht).2
      · obtain rfl := Option.some.inj (hnew.symm.trans ht)
        exact ⟨rfl, fun hpos => absurd hpos (Nat.lt_irrefl 0)⟩
    · rcases hpipe with ⟨hflow, hsome⟩ | hnew
      · rw [hflow] at hidle
        exact absurd hsome (by simp [hidle])
      · exact absurd (hnew.symm.trans hidle) (by simp)
  · simp only [recordedStep, LineMonitor.step, if_neg hindex, step,
      USB_DeviceCdcAcmSetControlLineState, if_pos (show wIndex.toUInt8 ≠ _ from hindex)]
    exact h

/-- A notification fits one packet. -/
lemma State.Session.notification_le (h : s.Session) : NOTIF_PACKET_SIZE + UART_BITMAP_SIZE ≤
    (s.endpoint .interruptIn).maxPacketSize.toNat := by
  rw [h.sized]
  exact s.tables.packetSize_bounds.1

lemma State.Session.packetCount_notification (h : s.Session) :
    packetCount (s.endpoint .interruptIn).maxPacketSize.toNat
      (NOTIF_PACKET_SIZE + UART_BITMAP_SIZE) = 1 :=
  packetCount_of_le (by decide) h.notification_le

/-- The controller reads the buffer. -/
lemma sendPacket_notification (h : s.Session) {t : Transfer}
    (ht : s.flow.notification = some t) (hbuffer : t.buffer = .serialStateBuf)
    (hlength : t.length = NOTIF_PACKET_SIZE + UART_BITMAP_SIZE) (hfirst : t.packets = 0)
    (hbuf : s.acmInfo.serialStateBuf.length = NOTIF_PACKET_SIZE + UART_BITMAP_SIZE) :
    (sendPacket s .interruptIn).flow.notification = some { t with packets := 1 } ∧
      (sendPacket s .interruptIn).reported =
        some (s.acmInfo.serialStateBuf.drop NOTIF_PACKET_SIZE) ∧
      (sendPacket s .interruptIn).acmInfo = s.acmInfo := by
  have ht' : (s.endpoint .interruptIn).transfer = some t := ht
  have hpayload : packet (s.endpoint .interruptIn).maxPacketSize.toNat
      ((s.contents t.buffer).take t.length) 0 = s.acmInfo.serialStateBuf := by
    have hcontents : (s.contents t.buffer).take t.length = s.acmInfo.serialStateBuf := by
      rw [hbuffer, State.contents, List.take_of_length_le (by rw [hbuf, hlength])]
    rw [hcontents, packet_zero (hbuf ▸ h.notification_le)]
  simp only [sendPacket, ht', hlength, h.packetCount_notification, hfirst]
  rw [if_pos ⟨by decide, Nat.zero_lt_one⟩]
  rw [hlength] at hpayload
  refine ⟨?_, ?_, rfl⟩
  · exact notification_update_self s.endpoints
  · rw [hpayload]
    rfl

/-- There is nothing more to read. -/
lemma sendPacket_notification_again (h : s.Session) {t : Transfer}
    (ht : s.flow.notification = some t)
    (hlength : t.length = NOTIF_PACKET_SIZE + UART_BITMAP_SIZE) (hpackets : 0 < t.packets) :
    sendPacket s .interruptIn = s := by
  have ht' : (s.endpoint .interruptIn).transfer = some t := ht
  simp only [sendPacket, ht', hlength, h.packetCount_notification]
  rw [if_neg fun hmore => absurd hmore.2 (by omega)]

lemma lineTracked_token (h : LineTracked u x) :
    LineTracked u (recordedStep x (.token .interruptIn)) := by
  have hsession := h.session.step (e := .token .interruptIn) trivial
  have hready := h.ready.step (e := .token .interruptIn) trivial
  cases ht : x.1.flow.notification with
  | none =>
    have ht' : (x.1.endpoint .interruptIn).transfer = none := ht
    simp only [recordedStep, LineMonitor.step, ht, step, sendPacket, ht']
    exact h
  | some t =>
    obtain ⟨hhandled, hlength, hread⟩ := h.underway t ht
    by_cases hfirst : t.packets = 0
    · obtain ⟨hlen, hdrop⟩ := h.buffer hhandled
      obtain ⟨hnotification, hreported, hacmInfo⟩ := sendPacket_notification h.session ht
        (h.notified.serialStateBuf t ht) hlength hfirst hlen
      simp only [recordedStep, LineMonitor.step, ht, Option.any_some, hfirst, decide_true,
        and_self, if_true]
      refine ⟨hsession, hready.notified, ?_, fun _ => ?_, fun t' ht' => ?_, fun hidle => ?_⟩
      · rw [step, hacmInfo]
        exact h.uartState
      · rw [step, hacmInfo]
        exact ⟨hlen, hdrop⟩
      · obtain rfl := Option.some.inj (hnotification.symm.trans ht')
        refine ⟨hhandled, hlength, fun _ => ?_⟩
        obtain ⟨c, hc⟩ := Option.isSome_iff_exists.mp hhandled
        refine ⟨c, hc, ?_⟩
        rw [step, hreported, hdrop, h.uartState, LineMonitor.uartState, hc, Option.elim_some]
      · exact absurd (hnotification.symm.trans hidle) (by simp)
    · simp only [recordedStep, LineMonitor.step, ht, Option.any_some, hfirst, decide_false,
        Bool.false_eq_true, and_false, if_false, step,
        sendPacket_notification_again h.session ht hlength (Nat.pos_of_ne_zero hfirst)]
      exact h

/-- What the end of a notification is. -/
lemma tokenDone_notification (h : s.Session) (n : ℕ) {t : Transfer}
    (ht : s.flow.notification = some t)
    (hlength : t.length = NOTIF_PACKET_SIZE + UART_BITMAP_SIZE) :
    USB_DeviceEhciInterruptTokenDone s .interruptIn n =
      if 0 < t.packets then s.finish .interruptIn else s := by
  have ht' : (s.endpoint .interruptIn).transfer = some t := ht
  simp only [USB_DeviceEhciInterruptTokenDone, ht', hlength, h.packetCount_notification]
  rw [notification_eq (callbackFn_of_transfer h.coherent.linked ht')]
  rfl

lemma lineTracked_complete (h : LineTracked u x) (n : ℕ)
    (he : ReadIsLatest x (.complete .interruptIn n)) :
    LineTracked u (recordedStep x (.complete .interruptIn n)) := by
  have hsession := h.session.step (e := .complete .interruptIn n) trivial
  have hready := h.ready.step (e := .complete .interruptIn n) trivial
  cases ht : x.1.flow.notification with
  | none =>
    have ht' : (x.1.endpoint .interruptIn).transfer = none := ht
    simp only [recordedStep, LineMonitor.step, step, USB_DeviceEhciInterruptTokenDone, ht']
    exact h
  | some t =>
    obtain ⟨hhandled, hlength, hread⟩ := h.underway t ht
    simp only [recordedStep, LineMonitor.step, step, tokenDone_notification h.session n ht hlength]
      at hsession hready ⊢
    split_ifs at hsession hready ⊢ with hdone
    · have hidle : (x.1.finish .interruptIn).flow.notification = none := by
        rw [flow_finish]
        exact notification_update_self x.1.endpoints
      refine ⟨hsession, hready.notified, h.uartState, h.buffer, fun t' ht' => ?_, fun _ _ => ?_⟩
      · exact absurd (hidle.symm.trans ht') (by simp)
      · obtain ⟨c, hc, hreported⟩ := hread hdone
        have hlatest := he t ht hdone
        show x.1.reported = some (shortBytes x.1.acmInfo.uartState)
        rw [hreported, h.uartState, LineMonitor.uartState, ← hlatest, hc, Option.elim_some]
    · exact h

/-- Events of a session that do not concern the interrupt pipe leave UART state and record alone. -/
lemma recorded_of_not_concerns (hin : e.InSession) (he : ¬ e.Concerns .interruptIn) :
    (step x.1 e).acmInfo = x.1.acmInfo ∧ x.2.step x.1 e = x.2 := by
  have hsetup := congrArg Setup.acmInfo (setup_step x.1 e)
  cases e with
  | busReset speed => exact hin.elim
  | setAddress wValue =>
    refine ⟨hsetup.trans ?_, rfl⟩
    simp only [Setup.step]
    split_ifs <;> rfl
  | setConfiguration wValue => exact hin.elim
  | setControlLineState wValue wIndex => exact absurd rfl he
  | appTask text =>
    refine ⟨hsetup.trans ?_, rfl⟩
    simp only [Setup.step, Setup.appTask]
    split_ifs <;> rfl
  | token p =>
    cases p with
    | interruptIn => exact absurd rfl he
    | bulkIn => exact ⟨hsetup, rfl⟩
    | bulkOut => exact ⟨hsetup, rfl⟩
  | complete p n => exact ⟨hsetup, rfl⟩

lemma lineTracked_step (h : LineTracked u x) (hin : e.InSession) (he : ReadIsLatest x e) :
    LineTracked u (recordedStep x e) := by
  by_cases hconcerns : e.Concerns .interruptIn
  · cases e with
    | setControlLineState wValue wIndex => exact lineTracked_setControlLineState h wValue wIndex
    | token p =>
      obtain rfl : p = .interruptIn := hconcerns
      exact lineTracked_token h
    | complete p n =>
      obtain rfl : p = .interruptIn := hconcerns
      exact lineTracked_complete h n he
    | _ => exact absurd hconcerns (by simp [Event.Concerns])
  · have hview := view_step h.session.coherent (by decide) hin hconcerns
    obtain ⟨hacmInfo, hrecord⟩ := recorded_of_not_concerns (x := x) hin hconcerns
    rw [recordedStep, hrecord]
    exact h.of_view (h.session.step hin) hview hacmInfo

/-- A state in which the record is right. -/
lemma LineTracked.updateReported (h : LineTracked u (recordedStep x e)) : UpdateReported x e :=
  fun hhandled hsent => h.idle (h.ready.idle hsent) hhandled

lemma updateReported_iff (h : LineTracked u x) (hin : e.InSession) :
    UpdateReported x e ↔ ReadIsLatest x e := by
  refine ⟨fun hupdate => ?_, fun he => (lineTracked_step h hin he).updateReported⟩
  cases e with
  | complete p n =>
    cases p with
    | interruptIn =>
      intro t ht hdone
      obtain ⟨hhandled, hlength, hread⟩ := h.underway t ht
      obtain ⟨c, hc, hreported⟩ := hread hdone
      obtain ⟨c', hc'⟩ := Option.isSome_iff_exists.mp hhandled
      have hfinish := tokenDone_notification h.session n ht hlength
      rw [if_pos hdone] at hfinish
      simp only [UpdateReported, recordedStep, LineMonitor.step, step, hfinish] at hupdate
      have hknown : x.1.reported = some (shortBytes x.1.acmInfo.uartState) := hupdate hhandled rfl
      rw [hreported, h.uartState, LineMonitor.uartState, hc', Option.elim_some] at hknown
      have hsame := ControlSignals.apply_injective u (shortBytes_injective (Option.some.inj hknown))
      rw [hc, hc', hsame]
    | bulkIn => trivial
    | bulkOut => trivial
  | _ => trivial

/-! ### Sessions -/

/-- In a session, unless a notification is under way, the host knows the UART state, exactly if
each time a notification ends the latest request has the bits of the one that was the latest when
the controller read the buffer. -/
theorem update_reported_iff (hs : s.Reached) (hconfiguration : s.cdcAcm.configuration = 1)
    (hwilling : s.Willing) (hsent : s.cdcAcm.hasSentState = false) {es : List Event}
    (hes : ∀ e ∈ es, e.InSession) : EveryStep recordedStep UpdateReported (s, {}) es ↔
      EveryStep recordedStep ReadIsLatest (s, {}) es := by
  refine everyStep_iff_of_inv_on (D := Event.InSession) (LineTracked s.acmInfo.uartState)
    (fun _ _ hin h he => lineTracked_step h hin he) (fun _ _ hin h => updateReported_iff h hin)
    hes ?_
  have hready : s.NotificationReady := by
    obtain ⟨acmInfo, answers, pre, rfl⟩ := hs
    exact notificationReady_of_not_sent hsent
  have hidle : s.flow.notification = none := hready.idle hsent
  refine ⟨hs.session hconfiguration hwilling, hready.notified, rfl, fun hnone => (by cases hnone),
    fun t ht => ?_, fun _ hnone => (by cases hnone)⟩
  exact absurd (hidle.symm.trans ht) (by simp)

/-- A terminal opens the port and closes it again after the first notification was read. -/
theorem update_reported_iff_reopened :
    EveryStep recordedStep UpdateReported
      ([.setAddress 5, .setConfiguration 1].foldl step
        (USB_DeviceApplicationInit ⟨[], false, 0, 0⟩ fun _ => .Success), {})
      [.setControlLineState 3 0, .token .interruptIn, .complete .interruptIn 0,
        .setControlLineState 0 0, .token .interruptIn, .complete .interruptIn 0] := by
  refine (update_reported_iff ⟨_, _, _, rfl⟩ (by decide) ?_ (by decide) (by decide)).mpr ?_
  · intro n
    rfl
  · refine ⟨trivial, trivial, fun _ _ _ => ?_, trivial, trivial, fun _ _ _ => ?_, trivial⟩
    · decide
    · decide

/-- A terminal closes the port after the notification was read, but before it has ended. -/
theorem update_lost :
    ¬ EveryStep recordedStep UpdateReported
      ([.setAddress 5, .setConfiguration 1].foldl step
        (USB_DeviceApplicationInit ⟨[], false, 0, 0⟩ fun _ => .Success), {})
      [.setControlLineState 3 0, .token .interruptIn, .setControlLineState 0 0,
        .complete .interruptIn 0] := by
  intro h
  obtain ⟨-, -, -, hupdate, -⟩ := h
  exact absurd (hupdate (by decide) (by decide)) (by decide)

end RT1064.Usb
