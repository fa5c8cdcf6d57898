import RT1064.Usb.Configuration
import RT1064.Usb.Moves

/-!
# Sessions

Between two changes of the configuration the endpoints stay as they are, and what happens on one
pipe is not seen on the others. A session begins in any configured state that a run from power-up
leads to, with a controller that takes every transfer it is given.
-/

namespace RT1064.Usb

open Core Flow

/-! ### Open endpoints -/

namespace Setup

/-- An open endpoint has the size that the tables have. -/
def PipeSized (t : Setup) (p : Endpoint) : Prop :=
  t.isOpened p.address → t.maxPacketSize p.address = t.tables.packetSize p

/-- Configured endpoints are open, and open endpoints have the right size. -/
structure Sized (t : Setup) : Prop where
  initialised : t.configuration = 1 → t.Initialised
  sized : ∀ p, t.PipeSized p

variable {t : Setup} {p : Endpoint}

lemma PipeSized.openPipe (h : t.PipeSized p) (q : Endpoint) : (t.openPipe q).PipeSized p := by
  by_cases hq : p = q
  · subst hq
    intro _
    exact Function.update_self ..
  · simpa [PipeSized, Setup.openPipe, setEndpoint, setEp, hq] using h

lemma PipeSized.closePipe (h : t.PipeSized p) (q : Endpoint) : (t.closePipe q).PipeSized p := by
  by_cases hq : p = q
  · subst hq
    simp [PipeSized, Setup.closePipe, setEndpoint]
  · simpa [PipeSized, Setup.closePipe, setEndpoint, hq] using h

lemma PipeSized.endpointsDeinit (h : t.PipeSized p) : t.endpointsDeinit.PipeSized p := by
  simp only [Setup.endpointsDeinit]
  split_ifs
  · exact h
  · have hclosed := ((h.closePipe .interruptIn).closePipe .bulkIn).closePipe .bulkOut
    exact hclosed

lemma PipeSized.endpointsInit (h : t.PipeSized p) : t.endpointsInit.PipeSized p := by
  simp only [Setup.endpointsInit]
  split_ifs
  · refine PipeSized.openPipe (PipeSized.openPipe (PipeSized.openPipe ?_ _) _) _
    exact h
  · exact h

lemma PipeSized.setConfiguration (h : t.PipeSized p) (v : UInt8) :
    (t.setConfiguration v).PipeSized p := by
  simp only [Setup.setConfiguration]
  split_ifs
  · exact h
  · refine PipeSized.endpointsInit ?_
    exact h.endpointsDeinit

lemma Sized.step (h : t.Sized) (e : Event) : (t.step e).Sized := by
  cases e with
  | busReset speed => exact ⟨fun hone => (by cases hone), fun _ hopen => (by cases hopen)⟩
  | setAddress wValue =>
    simp only [Setup.step]
    split_ifs
    · exact ⟨h.initialised, h.sized⟩
    · exact h
  | setConfiguration wValue =>
    by_cases hdelivers : t.Delivers
    · rw [Setup.step, if_pos hdelivers]
      generalize ht' : ({ t with state := if wValue = 0 then .Address else .Configured } : Setup) =
        t'
      have hsized : t'.Sized := by
        subst ht'
        exact ⟨h.initialised, h.sized⟩
      have hset : (t'.setConfiguration wValue.toUInt8).Sized := by
        refine ⟨fun hone => ?_, fun p => (hsized.sized p).setConfiguration _⟩
        rw [(setConfiguration_rest _).2.2.2] at hone
        rw [hone]
        exact initialised_setConfiguration hsized.initialised
      simp only [attachTo]
      split_ifs <;> exact ⟨hset.initialised, hset.sized⟩
    · rw [Setup.step, if_neg hdelivers]
      exact h
  | setControlLineState wValue wIndex =>
    simp only [Setup.step, start]
    split_ifs <;> exact ⟨h.initialised, h.sized⟩
  | appTask text =>
    simp only [Setup.step, Setup.appTask]
    split_ifs <;> exact ⟨h.initialised, h.sized⟩
  | token p => exact h
  | complete p n => exact h

end Setup

/-- What the tables can have: a notification fits one packet, and a bulk packet is never empty. -/
lemma Tables.packetSize_bounds (t : Tables) :
    NOTIF_PACKET_SIZE + UART_BITMAP_SIZE ≤ (t.packetSize .interruptIn).toNat ∧
      ((t.packetSize .bulkIn).toNat = 64 ∨ (t.packetSize .bulkIn).toNat = 512) := by
  obtain ⟨v, hv, hcic, hdic⟩ := t.2.endpoints
  simp only [Tables.packetSize, Descriptors.dicPacketSize, hcic, hdic]
  rcases hv with rfl | rfl <;> decide

/-! ### Reachable states -/

/-- A run from power-up leads to the state. -/
def State.Reached (s : State) : Prop :=
  ∃ acmInfo answers, ∃ es : List Event,
    s = es.foldl step (USB_DeviceApplicationInit acmInfo answers)

variable {s : State} {p q : Endpoint} {e : Event}

lemma State.Reached.coherent (h : s.Reached) : s.Coherent := by
  obtain ⟨acmInfo, answers, es, rfl⟩ := h
  exact inv_foldl_of_forall State.Coherent (fun _ e hs => hs.step e) es
    (coherent_init acmInfo answers)

lemma State.Reached.sized (h : s.Reached) : s.setup.Sized := by
  obtain ⟨acmInfo, answers, es, rfl⟩ := h
  refine inv_foldl_of_forall (fun s : State => s.setup.Sized) (fun s e hs => ?_) es
    ⟨fun hone => (by cases hone), fun _ hopen => (by cases hopen)⟩
  rw [setup_step]
  exact hs.step e

/-- The controller takes every transfer it can take. -/
def State.Willing (s : State) : Prop := ∀ n, s.answers n = .Success

/-- A session is under way. -/
structure State.Session (s : State) : Prop where
  coherent : s.Coherent
  opened : ∀ p, (s.endpoint p).isOpened
  sized : ∀ p, (s.endpoint p).maxPacketSize = s.tables.packetSize p
  willing : s.Willing

lemma State.Reached.session (h : s.Reached) (hconfiguration : s.cdcAcm.configuration = 1)
    (hwilling : s.Willing) : s.Session where
  coherent := h.coherent
  opened p := (h.sized.initialised hconfiguration p).2.1
  sized p := h.sized.sized p (h.sized.initialised hconfiguration p).2.1
  willing := hwilling

/-! ### One pipe -/

/-- What concerns the endpoint with address `a`. -/
def Observation.isAt (a : UInt8) : Observation → Bool
  | .taken a' _ _ => a' = a
  | .packet a' _  => a' = a
  | .usb_echo _   => false

/-- The bytes of a packet. -/
def Observation.payload? : Observation → Option (List UInt8)
  | .packet _ payload => some payload
  | _                 => none

/-- What is seen on one pipe. -/
structure PipeView where
  endpoint : EndpointState
  hasSentState : Bool
  trace : List Observation

def Flow.view (x : Flow) (p : Endpoint) : PipeView where
  endpoint := x.endpoint p
  hasSentState := p = .interruptIn && x.hasSentState
  trace := x.trace.filter (Observation.isAt p.address)

namespace Flow

variable {x : Flow}

lemma view_take_ne (h : q ≠ p) (buffer : Buffer) (length : ℕ) :
    (x.take q buffer length).view p = x.view p := by
  have hendpoint : (x.take q buffer length).endpoint p = x.endpoint p :=
    Function.update_of_ne (Endpoint.address_injective.ne (Ne.symm h)) _ _
  have hother : Observation.isAt p.address (.taken q.address buffer length) = false := by
    simpa [Observation.isAt] using h
  simp only [view, hendpoint]
  simp [Flow.take, modify, hother]

lemma view_finish_ne (h : q ≠ p) : (x.finish q).view p = x.view p := by
  have hendpoint : (x.finish q).endpoint p = x.endpoint p :=
    Function.update_of_ne (Endpoint.address_injective.ne (Ne.symm h)) _ _
  have hsent : (decide (p = .interruptIn) && (x.finish q).hasSentState) =
      (decide (p = .interruptIn) && x.hasSentState) := by
    by_cases hp : p = .interruptIn
    · subst hp
      simp [Flow.finish, h]
    · simp [hp]
  simp only [view, hendpoint, hsent]
  rfl

end Flow

/-- A request on another pipe is not seen. -/
lemma Requested.view_ne {buffer : Buffer} {length : ℕ} {r : UsbStatus × State}
    (hr : Requested s q buffer length r) (h : q ≠ p) : r.2.flow.view p = s.flow.view p := by
  cases hr with
  | taken haccepts =>
    rw [flow_take]
    exact view_take_ne h _ _
  | refused _ _ _ => rfl

lemma Requested.willing {buffer : Buffer} {length : ℕ} {r : UsbStatus × State}
    (hr : Requested s q buffer length r) (h : s.Willing) : r.2.Willing := by
  cases hr with
  | taken haccepts => exact fun n => h (n + 1)
  | refused _ _ hanswers =>
    rcases hanswers with rfl | hanswers
    · exact h
    · exact absurd (h 0) hanswers

/-! ### Steps of a session -/

lemma view_scheduleReceive {x : Flow} (hx : x = s.flow) (h : x.Linked) (hp : p ≠ .bulkOut) :
    s.scheduleReceive.flow.view p = x.view p := by
  subst hx
  exact (recv_requested h).view_ne (Ne.symm hp)

lemma willing_scheduleReceive (h : s.flow.Linked) (hw : s.Willing) : s.scheduleReceive.Willing :=
  (recv_requested h).willing hw

/-- What the application does when a transfer is over concerns its own pipe and the receive
buffer. -/
lemma view_respond {x : Flow} (hx : x = s.flow) (h : x.Linked) (hp : p ≠ .bulkOut) (hq : q ≠ p)
    (epCbParam : EndpointCallbackMessage) : (s.respond q epCbParam).flow.view p = x.view p := by
  subst hx
  cases q with
  | interruptIn => rfl
  | bulkIn =>
    simp only [State.respond, sendResponse]
    split_ifs
    · exact (send_requested h (by decide)).view_ne hq
    · exact view_scheduleReceive rfl h hp
    · rfl
    · rfl
  | bulkOut =>
    simp only [State.respond, recvResponse]
    split_ifs
    · exact view_scheduleReceive rfl h hp
    · rfl
    · rfl

lemma willing_respond {x : Flow} (hx : x = s.flow) (h : x.Linked) (hw : s.Willing)
    (epCbParam : EndpointCallbackMessage) : (s.respond q epCbParam).Willing := by
  subst hx
  cases q with
  | interruptIn => exact hw
  | bulkIn =>
    simp only [State.respond, sendResponse]
    split_ifs
    · exact (send_requested (p := .bulkIn) h (by decide)).willing hw
    · exact willing_scheduleReceive h hw
    · exact hw
    · exact hw
  | bulkOut =>
    simp only [State.respond, recvResponse]
    split_ifs
    · refine willing_scheduleReceive ?_ ?_
      · exact h
      · exact hw
    · exact hw
    · exact hw

lemma linked_finish (h : s.Coherent) (p : Endpoint) : (s.finish p).flow.Linked := by
  rw [flow_finish]
  exact h.linked.finish p

lemma view_tokenDone (h : s.Coherent) (hp : p ≠ .bulkOut) (hq : q ≠ p) (n : ℕ) :
    (USB_DeviceEhciInterruptTokenDone s q n).flow.view p = s.flow.view p := by
  obtain heq | ⟨_, epCbParam, _, heq⟩ := tokenDone_cases (p := q) h.linked n
  · rw [heq]
  · rw [heq, view_respond rfl (linked_finish h q) hp hq, flow_finish]
    exact view_finish_ne hq

lemma view_sendPacket (hq : q ≠ p) : (sendPacket s q).flow.view p = s.flow.view p := by
  simp only [sendPacket]
  cases ht : (s.endpoint q).transfer with
  | none => rfl
  | some t =>
    dsimp only
    split_ifs
    · have hendpoint (g : EndpointState → EndpointState) :
          (s.modifyEndpoint q.address g).endpoints p.address = s.endpoints p.address :=
        Function.update_of_ne (Endpoint.address_injective.ne (Ne.symm hq)) _ _
      have hother (payload : List UInt8) :
          Observation.isAt p.address (.packet q.address payload) = false := by
        simpa [Observation.isAt] using hq
      simp only [Flow.view, State.flow, State.observe, Flow.endpoint, hendpoint, List.filter_cons,
        hother, Bool.false_eq_true, if_false]
      rfl
    · rfl

lemma view_setControlLineState (h : s.Coherent) (hp : p ≠ .interruptIn) (wValue wIndex : UInt16) :
    (setControlLineState s wValue wIndex).flow.view p = s.flow.view p := by
  cases hsent : s.cdcAcm.hasSentState with
  | true => rw [flow_setControlLineState_of_sent hsent]
  | false =>
    have hview (x : Flow) (trace : List Observation)
        (htrace : trace.filter (Observation.isAt p.address) =
          x.trace.filter (Observation.isAt p.address)) :
        Flow.view { x with hasSentState := true, trace } p = x.view p := by
      simp [Flow.view, Flow.endpoint, htrace, hp]
    rw [flow_setControlLineState h.linked hsent]
    split_ifs
    · rw [hview _ _ rfl]
      exact view_take_ne (Ne.symm hp) _ _
    · exact hview _ _ rfl

lemma willing_notifyLineState (h : s.flow.Linked) (hw : s.Willing) :
    (notifyLineState s).Willing := by
  have hrequested : Requested s .interruptIn .serialStateBuf (NOTIF_PACKET_SIZE + UART_BITMAP_SIZE)
      (USB_DeviceCdcAcmSend s USB_CDC_VCOM_INTERRUPT_IN_ENDPOINT .serialStateBuf
        (NOTIF_PACKET_SIZE + UART_BITMAP_SIZE)) := send_requested h (by decide)
  have hwilling := hrequested.willing hw
  simp only [notifyLineState]
  split_ifs
  · exact hw
  · exact hwilling
  · exact hwilling

lemma willing_setControlLineState (h : s.flow.Linked) (hw : s.Willing) (wValue wIndex : UInt16) :
    (setControlLineState s wValue wIndex).Willing := by
  have hwilling := willing_notifyLineState
    (s := { s with acmInfo := s.acmInfo.update wValue wIndex }) h hw
  simp only [setControlLineState]
  split_ifs <;> exact hwilling

/-- A new configuration leaves nothing in flight. -/
lemma idle_cdcAcmSetConfiguration (h : s.Coherent) {v : UInt8} (hv : v ≠ s.cdcAcm.configuration) :
    (USB_DeviceCdcAcmSetConfiguration s v).flow.Idle := by
  simp only [USB_DeviceCdcAcmSetConfiguration, if_neg hv]
  have hlinked := h.linked.moves (moves_endpointsDeinit h.linked)
  have hclosed (p : Endpoint) :
      (USB_DeviceCdcAcmEndpointsDeinit s).setup.isOpened p.address = false := by
    rw [setup_endpointsDeinit]
    exact h.guarded.closed p
  have hidle : (USB_DeviceCdcAcmEndpointsDeinit s).flow.Idle :=
    fun p => (hlinked p).closed (hclosed p)
  exact hidle.installs (installs_endpointsInit rfl hlinked hclosed)

/-- The SET_CONFIGURATION that opens the endpoints leaves the IN pipes idle. -/
lemma idle_setConfiguration (h : s.Coherent) {wValue : UInt16} (hdelivers : s.setup.Delivers)
    (hone : wValue.toUInt8 = USB_CDC_VCOM_CONFIGURE_INDEX)
    (hnew : s.cdcAcm.configuration ≠ USB_CDC_VCOM_CONFIGURE_INDEX) (hp : p ≠ .bulkOut) :
    ((step s (.setConfiguration wValue)).endpoint p).transfer = none := by
  have hdelivers' : s.state = .Address ∨ s.state = .Configured := hdelivers
  simp only [step, USB_DeviceCh9SetConfiguration, if_pos hdelivers', hone]
  generalize ht : ({ s with state := if wValue = 0 then .Address else .Configured } : State) = t
  have hcoherent : t.Coherent := by
    subst ht
    exact ⟨h.linked, h.guarded⟩
  have hidle : (USB_DeviceCdcAcmSetConfiguration t USB_CDC_VCOM_CONFIGURE_INDEX).flow.Idle := by
    refine idle_cdcAcmSetConfiguration hcoherent ?_
    subst ht
    exact hnew.symm
  have hlinked := hcoherent.linked.moves (moves_setConfiguration hcoherent.linked
    hcoherent.guarded USB_CDC_VCOM_CONFIGURE_INDEX)
  have hreceive (r : State)
      (hr : r.flow = (USB_DeviceCdcAcmSetConfiguration t USB_CDC_VCOM_CONFIGURE_INDEX).flow) :
      (r.scheduleReceive.endpoint p).transfer = none := by
    have hview := view_scheduleReceive hr.symm hlinked hp
    exact (congrArg (fun y => y.endpoint.transfer) hview).trans (hidle p)
  rw [USB_DeviceCallbackSetConfiguration, if_neg (by decide), if_pos rfl]
  exact hreceive _ rfl

/-- Events that leave the configuration alone. -/
def Event.InSession : Event → Prop
  | .busReset _         => False
  | .setConfiguration _ => False
  | _                   => True

instance (e : Event) : Decidable e.InSession := by
  cases e <;> simp only [Event.InSession] <;> infer_instance

/-- Events that pipe `p` sees. -/
def Event.Concerns (p : Endpoint) : Event → Prop
  | .setControlLineState _ _ => p = .interruptIn
  | .appTask _               => p = .bulkIn
  | .token q                 => q = p
  | .complete q _            => q = p
  | _                        => False

/-- An event that does not concern a pipe is not seen there. -/
lemma view_step (h : s.Coherent) (hp : p ≠ .bulkOut) (he : e.InSession) (hne : ¬ e.Concerns p) :
    (step s e).flow.view p = s.flow.view p := by
  cases e with
  | busReset speed => exact he.elim
  | setAddress wValue =>
    simp only [step, USB_DeviceCh9SetAddress]
    split_ifs <;> rfl
  | setConfiguration wValue => exact he.elim
  | setControlLineState wValue wIndex =>
    simp only [step, USB_DeviceCdcAcmSetControlLineState]
    split_ifs
    · rfl
    · exact view_setControlLineState h hne wValue wIndex
  | appTask text =>
    simp only [step, APPTask]
    split_ifs
    · exact (send_requested (s := s.printMsg text) (p := .bulkIn) h.linked (by decide)).view_ne
        (Ne.symm hne)
    · rfl
  | token q => exact view_sendPacket hne
  | complete q n => exact view_tokenDone h hp hne n

lemma willing_step (h : s.Coherent) (hw : s.Willing) (he : e.InSession) : (step s e).Willing := by
  cases e with
  | busReset speed => exact he.elim
  | setAddress wValue =>
    simp only [step, USB_DeviceCh9SetAddress]
    split_ifs <;> exact hw
  | setConfiguration wValue => exact he.elim
  | setControlLineState wValue wIndex =>
    simp only [step, USB_DeviceCdcAcmSetControlLineState]
    split_ifs
    · exact hw
    · exact willing_setControlLineState h.linked hw wValue wIndex
  | appTask text =>
    simp only [step, APPTask]
    split_ifs
    · exact (send_requested (s := s.printMsg text) (p := .bulkIn) h.linked (by decide)).willing hw
    · exact hw
  | token q =>
    simp only [step, sendPacket]
    cases (s.endpoint q).transfer with
    | none => exact hw
    | some t =>
      dsimp only
      split_ifs <;> exact hw
  | complete q n =>
    obtain heq | ⟨_, epCbParam, _, heq⟩ := tokenDone_cases (p := q) h.linked n
    · rw [step, heq]
      exact hw
    · rw [step, heq]
      refine willing_respond rfl (linked_finish h q) ?_ _
      simp only [State.finish]
      split_ifs <;> exact hw

/-- In a session endpoints and tables stay. -/
lemma setup_step_of_inSession (he : e.InSession) :
    (step s e).setup.isOpened = s.setup.isOpened ∧
      (step s e).setup.maxPacketSize = s.setup.maxPacketSize ∧
      (step s e).setup.tables = s.setup.tables ∧
      (step s e).setup.interfaceNumber = s.setup.interfaceNumber := by
  rw [setup_step]
  cases e with
  | busReset speed => exact he.elim
  | setAddress wValue =>
    simp only [Setup.step]
    split_ifs <;> exact ⟨rfl, rfl, rfl, rfl⟩
  | setConfiguration wValue => exact he.elim
  | setControlLineState wValue wIndex =>
    simp only [Setup.step, Setup.start]
    split_ifs <;> exact ⟨rfl, rfl, rfl, rfl⟩
  | appTask text =>
    simp only [Setup.step, Setup.appTask]
    split_ifs <;> exact ⟨rfl, rfl, rfl, rfl⟩
  | token p => exact ⟨rfl, rfl, rfl, rfl⟩
  | complete p n => exact ⟨rfl, rfl, rfl, rfl⟩

/-- What a session needs beside the set-up. -/
lemma State.Session.of_setup (h : s.Session) {s' : State} (hsetup : s'.setup = s.setup)
    (hlinked : s'.flow.Linked) (hwilling : s'.Willing) : s'.Session where
  coherent := ⟨hlinked, hsetup ▸ h.coherent.guarded⟩
  opened p := (congrFun (congrArg Setup.isOpened hsetup) p.address).trans (h.opened p)
  sized p := by
    have htables : s'.tables = s.tables := congrArg Setup.tables hsetup
    rw [htables]
    exact (congrFun (congrArg Setup.maxPacketSize hsetup) p.address).trans (h.sized p)
  willing := hwilling

lemma setup_finish : (s.finish p).setup = s.setup := by
  have hsent : ∀ t : State, (serialStateNotif t).setup = t.setup := fun _ => rfl
  simp only [State.finish]
  split_ifs <;> simp [hsent]

lemma State.Session.finish (h : s.Session) (p : Endpoint) : (s.finish p).Session := by
  refine h.of_setup setup_finish (linked_finish h.coherent p) ?_
  simp only [State.finish]
  split_ifs <;> exact h.willing

lemma State.Session.step (h : s.Session) (he : e.InSession) : (Usb.step s e).Session := by
  obtain ⟨hopened, hsize, htables, -⟩ := setup_step_of_inSession (s := s) he
  refine ⟨h.coherent.step e, fun p => ?_, fun p => ?_, willing_step h.coherent h.willing he⟩
  · exact (congrFun hopened p.address).trans (h.opened p)
  · have htables' : (Usb.step s e).tables = s.tables := htables
    rw [htables']
    exact (congrFun hsize p.address).trans (h.sized p)

end RT1064.Usb
