import RT1064.Usb.Flow
import RT1064.Usb.Setup

/-!
# The device's functions as moves

A request for a transfer is taken or refused, and each function of class, device layer and
application does nothing to the transfers but a sequence of moves.
-/

namespace RT1064.Usb

open Core Flow

variable {s : State} {p : Endpoint} {buffer : Buffer} {length : ℕ}

/-! ### Requests -/

/-- The state after the controller has taken a transfer. -/
def State.take (s : State) (p : Endpoint) (buffer : Buffer) (length : ℕ) : State :=
  { s with
    endpoints := Function.update s.endpoints p.address
      { s.endpoint p with transfer := some { buffer, length }, isBusy := true }
    answers := fun n => s.answers (n + 1)
    cdcAcm := { s.cdcAcm with
      pipe := Function.update s.cdcAcm.pipe p { s.pipe p with isBusy := true } }
    trace := .taken p.address buffer length :: s.trace }

lemma flow_take : (s.take p buffer length).flow = s.flow.take p buffer length := rfl

/-- A transfer on the pipe would be taken. -/
def State.Accepts (s : State) (p : Endpoint) : Prop :=
  (s.endpoint p).isOpened ∧ (s.endpoint p).transfer = none ∧ s.answers 0 = .Success

/-- The two ways a request for a transfer ends. -/
inductive Requested (s : State) (p : Endpoint) (buffer : Buffer) (length : ℕ) :
    UsbStatus × State → Prop
  | taken (h : s.Accepts p) : Requested s p buffer length (.Success, s.take p buffer length)
  | refused (h : ¬ s.Accepts p) {status : UsbStatus} (hstatus : status ≠ .Success)
      {answers : ℕ → UsbStatus} (hanswers : answers = s.answers ∨ s.answers 0 ≠ .Success) :
      Requested s p buffer length (status, { s with answers })

lemma State.modifyEndpoint_eq_self {a : UInt8} {f : EndpointState → EndpointState}
    (h : f (s.endpoints a) = s.endpoints a) : s.modifyEndpoint a f = s := by
  rw [State.modifyEndpoint, h, Function.update_eq_self]

@[simp] lemma State.endpoints_modifyEndpoint {a : UInt8} {f : EndpointState → EndpointState} :
    (s.modifyEndpoint a f).endpoints a = f (s.endpoints a) := Function.update_self ..

lemma State.modifyEndpoint_modifyEndpoint {a : UInt8} {f g : EndpointState → EndpointState} :
    (s.modifyEndpoint a f).modifyEndpoint a g = s.modifyEndpoint a (g ∘ f) := by
  simp [State.modifyEndpoint]

lemma State.modifyPipe_eq_self {f : Pipe → Pipe} (h : f (s.pipe p) = s.pipe p) :
    s.modifyPipe p f = s := by
  rw [State.modifyPipe, h, Function.update_eq_self]

lemma State.modifyPipe_modifyPipe {f g : Pipe → Pipe} :
    (s.modifyPipe p f).modifyPipe p g = s.modifyPipe p (g ∘ f) := by
  simp [State.modifyPipe, State.pipe]

/-- Setting and clearing a flag that was clear changes nothing. -/
lemma EndpointState.busy_undo {e : EndpointState} (h : e.isBusy = false) :
    { e with isBusy := false } = e := by
  rw [← h]

/-- The device layer on an idle endpoint. -/
lemma transfer_eq (hp : (s.endpoint p).isBusy = false) :
    USB_DeviceTransfer s p.address buffer length =
      if (s.endpoint p).isOpened = false then (.Error, s)
      else if s.answers 0 = .Success then
        (.Success, { (s.modifyEndpoint p.address fun e =>
            { e with transfer := some { buffer, length }, isBusy := true }) with
          answers := fun n => s.answers (n + 1)
          trace := .taken p.address buffer length :: s.trace })
      else (s.answers 0, { s with answers := fun n => s.answers (n + 1) }) := by
  have hnumber : ¬ USB_DEVICE_CONFIG_ENDPOINTS ≤ p.address &&& USB_ENDPOINT_NUMBER_MASK := by
    cases p <;> decide
  have hundo : ∀ t : State, t.endpoints = s.endpoints →
      (t.modifyEndpoint p.address fun e => { e with isBusy := true }).modifyEndpoint p.address
        (fun e => { e with isBusy := false }) = t := by
    intro t ht
    rw [State.modifyEndpoint_modifyEndpoint]
    apply State.modifyEndpoint_eq_self
    rw [ht]
    exact EndpointState.busy_undo hp
  have hopened : ((s.modifyEndpoint p.address fun e => { e with isBusy := true }).endpoints
      p.address).isOpened = (s.endpoint p).isOpened := by
    simp [State.modifyEndpoint]
  simp only [USB_DeviceTransfer, USB_DeviceEhciTransfer, if_neg hnumber, hp, hopened,
    Bool.false_eq_true, if_false]
  by_cases hopen : (s.endpoint p).isOpened = false
  · simp only [if_pos hopen, reduceCtorEq, if_false, hundo s rfl]
  · by_cases hanswer : s.answers 0 = .Success
    · simp [hopen, hanswer, State.modifyEndpoint, State.observe]
    · have hback := hundo { s with answers := fun n => s.answers (n + 1) } rfl
      simpa [hopen, hanswer, State.modifyEndpoint] using hback

lemma Pipe.busy_undo {v : Pipe} (h : v.isBusy = false) : { v with isBusy := false } = v := by
  rw [← h]

/-- A pipe that is linked to its endpoint takes a transfer or refuses it. -/
lemma prime_requested (h : PipeLinked p (s.pipe p) (s.endpoint p)) :
    Requested s p buffer length
      (prime (USB_DeviceTransfer · p.address) s p buffer length) := by
  cases hbusy : (s.pipe p).isBusy with
  | true =>
    simp only [prime, hbusy, if_true]
    show Requested s p buffer length (.Busy, { s with answers := s.answers })
    refine Requested.refused ?_ (by decide) (Or.inl rfl)
    intro haccepts
    rw [h.busy, haccepts.2.1] at hbusy
    exact absurd hbusy (by decide)
  | false =>
    have hidle : (s.endpoint p).transfer = none := by
      rw [h.busy] at hbusy
      simpa using hbusy
    have hep : (s.endpoint p).isBusy = false := by
      rw [h.epBusy, hidle]
      rfl
    have hundo : ∀ t : State, t.cdcAcm = s.cdcAcm →
        (t.modifyPipe p fun v => { v with isBusy := true }).modifyPipe p
          (fun v => { v with isBusy := false }) = t := by
      intro t ht
      rw [State.modifyPipe_modifyPipe]
      apply State.modifyPipe_eq_self
      rw [State.pipe, ht]
      exact Pipe.busy_undo hbusy
    have hstall : ((s.modifyPipe p fun v => { v with isBusy := true }).pipe p).pipeStall =
        false := by
      simpa [State.modifyPipe, State.pipe] using h.stall
    have htransfer : USB_DeviceTransfer (s.modifyPipe p fun v => { v with isBusy := true })
        p.address buffer length = _ := transfer_eq hep
    simp only [prime, hbusy, hstall, htransfer, Bool.false_eq_true, if_false]
    have hopened : (((s.modifyPipe p fun v => { v with isBusy := true }).endpoint p).isOpened) =
        (s.endpoint p).isOpened := rfl
    have hanswers : (s.modifyPipe p fun v => { v with isBusy := true }).answers = s.answers := rfl
    by_cases hopen : (s.endpoint p).isOpened = false
    · simp only [hopened, if_pos hopen, reduceCtorEq, if_false, hundo s rfl]
      show Requested s p buffer length (.Error, { s with answers := s.answers })
      refine Requested.refused ?_ (by decide) (Or.inl rfl)
      intro haccepts
      exact absurd haccepts.1 (by simp [hopen])
    · by_cases hanswer : s.answers 0 = .Success
      · simp only [hopened, if_neg hopen, hanswers, if_pos hanswer, if_true]
        exact Requested.taken ⟨by simpa using hopen, hidle, hanswer⟩
      · simp only [hopened, if_neg hopen, hanswers, if_neg hanswer]
        have hback := hundo { s with answers := fun n => s.answers (n + 1) } rfl
        have hrefused : Requested s p buffer length
            (s.answers 0, { s with answers := fun n => s.answers (n + 1) }) :=
          Requested.refused (fun haccepts => hanswer haccepts.2.2) hanswer (Or.inr hanswer)
        rw [← hback] at hrefused
        exact hrefused

/-- `USB_DeviceCdcAcmSend` finds the pipe by its endpoint number, once that is set. -/
lemma send_requested (h : s.flow.Linked) (hp : p ≠ .bulkOut) :
    Requested s p buffer length (USB_DeviceCdcAcmSend s p.number buffer length) := by
  have hrefused (hep : (s.pipe p).ep = 0) : Requested s p buffer length (.Error, s) := by
    show Requested s p buffer length (.Error, { s with answers := s.answers })
    refine Requested.refused ?_ (by decide) (Or.inl rfl)
    intro haccepts
    have hnumber := ((h p).opened haccepts.1).1
    rw [show (s.flow.pipe p).ep = 0 from hep] at hnumber
    cases p <;> exact absurd hnumber (by decide)
  have hin : (s.pipe .bulkIn).ep = 0 ∨ (s.pipe .bulkIn).ep = Endpoint.bulkIn.number :=
    (h .bulkIn).ep
  have hint : (s.pipe .interruptIn).ep = 0 ∨
      (s.pipe .interruptIn).ep = Endpoint.interruptIn.number := (h .interruptIn).ep
  cases p with
  | interruptIn =>
    have hne : (s.pipe .bulkIn).ep ≠ Endpoint.interruptIn.number := by
      rcases hin with hin | hin <;> rw [hin] <;> decide
    rcases hint with hep | hep
    · rw [USB_DeviceCdcAcmSend, if_neg hne, if_neg (by rw [hep]; decide)]
      exact hrefused hep
    · rw [USB_DeviceCdcAcmSend, if_neg hne, if_pos hep]
      exact prime_requested (h .interruptIn)
  | bulkIn =>
    have hne : (s.pipe .interruptIn).ep ≠ Endpoint.bulkIn.number := by
      rcases hint with hint | hint <;> rw [hint] <;> decide
    rcases hin with hep | hep
    · rw [USB_DeviceCdcAcmSend, if_neg (by rw [hep]; decide), if_neg hne]
      exact hrefused hep
    · rw [USB_DeviceCdcAcmSend, if_pos hep]
      exact prime_requested (h .bulkIn)
  | bulkOut => exact absurd rfl hp

lemma recv_requested (h : s.flow.Linked) :
    Requested s .bulkOut buffer length
      (USB_DeviceCdcAcmRecv s USB_CDC_VCOM_BULK_OUT_ENDPOINT buffer length) :=
  prime_requested (h .bulkOut)

/-- A refused request moves nothing. -/
lemma Requested.moves {r : UsbStatus × State} (h : Requested s p buffer length r)
    (hmove : (s.endpoint p).isOpened → (s.endpoint p).transfer = none →
      Move s.flow (s.flow.take p buffer length)) : Moves s.flow r.2.flow := by
  cases h with
  | taken haccepts => exact .single (hmove haccepts.1 haccepts.2.1)
  | refused _ _ _ => exact .refl

/-! ### Callbacks -/

lemma dicPacketSize_le : s.dicPacketSize 1 ≤ DATA_BUFF_SIZE.toNat :=
  UInt16.le_iff_toNat_le.mp s.tables.2.consistent.receive_le

lemma moves_scheduleReceive {x : Flow} (hx : x = s.flow) (h : x.Linked) :
    Moves x s.scheduleReceive.flow := by
  subst hx
  exact (recv_requested h).moves fun hopen hidle => .receive _ _ hopen hidle dicPacketSize_le

/-- What the application does when a transfer is over, apart from clearing `hasSentState`. -/
def State.respond (s : State) (p : Endpoint) (epCbParam : EndpointCallbackMessage) : State :=
  match p with
  | .interruptIn => s
  | .bulkIn      => sendResponse s epCbParam
  | .bulkOut     => recvResponse s epCbParam

lemma moves_respond (h : s.flow.Linked) (epCbParam : EndpointCallbackMessage) :
    Moves s.flow (s.respond p epCbParam).flow := by
  cases p with
  | interruptIn => exact .refl
  | bulkIn =>
    simp only [State.respond, sendResponse]
    split_ifs
    · exact (send_requested h (by decide)).moves fun hopen hidle => .send _ _ _ hopen hidle
    · exact moves_scheduleReceive rfl h
    · exact .refl
    · exact .refl
  | bulkOut =>
    simp only [State.respond, recvResponse]
    split_ifs
    · exact moves_scheduleReceive rfl h
    · exact .refl
    · exact .refl

/-- The state when a transfer is over and its callback begins. -/
def State.finish (s : State) (p : Endpoint) : State :=
  let s := s.modifyEndpoint p.address fun e => { e with transfer := none, isBusy := false }
  let s := s.modifyPipe p fun v => { v with isBusy := false }
  if p = .interruptIn then serialStateNotif s else s

lemma flow_finish : (s.finish p).flow = s.flow.finish p := by
  simp only [State.finish, Flow.finish]
  split_ifs <;> rfl

/-- The way of a message from the controller to the application. -/
lemma notification_eq (hcallback : (s.endpoint p).callbackFn = some p)
    (message : EndpointCallbackMessage) :
    USB_DeviceNotification (s.modifyEndpoint p.address fun e => { e with transfer := none })
      p.address message = (s.finish p).respond p message := by
  have hcallback' : ((s.modifyEndpoint p.address fun e => { e with transfer := none }).endpoints
      p.address).callbackFn = some p := by
    simpa [State.modifyEndpoint] using hcallback
  simp only [USB_DeviceNotification, hcallback', State.modifyEndpoint_modifyEndpoint]
  cases p <;> rfl

/-- The end of a transfer is a move, and so is what the application does then. -/
lemma moves_finish_respond (h : s.flow.Linked) {t : Transfer}
    (ht : (s.endpoint p).transfer = some t) (message : EndpointCallbackMessage) :
    Moves s.flow ((s.finish p).respond p message).flow := by
  have hfinish : Moves s.flow (s.finish p).flow := by
    rw [flow_finish]
    exact .single (.finish _ p t ht)
  exact hfinish.trans (moves_respond (h.moves hfinish) message)

/-- An open pipe's transfer has its callback. -/
lemma callbackFn_of_transfer (h : s.flow.Linked) {t : Transfer}
    (ht : (s.endpoint p).transfer = some t) : (s.endpoint p).callbackFn = some p := by
  refine ((h p).opened ?_).2
  by_contra hclosed
  have hnone := (h p).closed (Bool.eq_false_iff.mpr hclosed)
  exact absurd (ht.symm.trans hnone) (by simp)

/-- A completion is ignored, or it finishes the transfer of its pipe and is responded to. -/
lemma tokenDone_cases (h : s.flow.Linked) (n : ℕ) :
    USB_DeviceEhciInterruptTokenDone s p n = s ∨ ∃ t epCbParam,
      (s.endpoint p).transfer = some t ∧
        USB_DeviceEhciInterruptTokenDone s p n = (s.finish p).respond p epCbParam := by
  simp only [USB_DeviceEhciInterruptTokenDone]
  cases ht : (s.endpoint p).transfer with
  | none => exact Or.inl rfl
  | some t =>
    have hcallback := callbackFn_of_transfer h ht
    dsimp only
    split_ifs
    all_goals first
      | exact Or.inl rfl
      | exact Or.inr ⟨t, _, rfl, notification_eq hcallback _⟩

lemma moves_tokenDone (h : s.flow.Linked) (n : ℕ) :
    Moves s.flow (USB_DeviceEhciInterruptTokenDone s p n).flow := by
  obtain heq | ⟨t, epCbParam, ht, heq⟩ := tokenDone_cases (p := p) h n
  · rw [heq]
  · rw [heq]
    exact moves_finish_respond h ht _

/-- An endpoint changes alone. -/
lemma flow_modifyEndpoint (g : EndpointState → EndpointState) :
    (s.modifyEndpoint p.address g).flow = s.flow.modify p id g := by
  simp [State.flow, State.modifyEndpoint, Flow.modify]

lemma moves_sendPacket (s : State) (p : Endpoint) : Moves s.flow (sendPacket s p).flow := by
  simp only [sendPacket]
  cases ht : (s.endpoint p).transfer with
  | none => exact .refl
  | some t =>
    dsimp only
    split_ifs
    · refine .single ?_
      have hmove := Move.packet s.flow p t (packet (s.endpoint p).maxPacketSize.toNat
        ((s.contents t.buffer).take t.length) t.packets) ht
      rw [← flow_modifyEndpoint] at hmove
      exact hmove
    · exact .refl

/-! ### Closing and opening endpoints -/

lemma cancel_of_none {a : UInt8} (h : (s.endpoints a).transfer = none) :
    USB_DeviceEhciCancel s a = s := by
  simp only [USB_DeviceEhciCancel, h]

lemma cancel_of_some {t : Transfer} (h : (s.endpoint p).transfer = some t)
    (hcallback : (s.endpoint p).callbackFn = some p) :
    USB_DeviceEhciCancel s p.address =
      (s.finish p).respond p { buffer := t.buffer, length := USB_CANCELLED_TRANSFER_LENGTH } := by
  have h' : (s.endpoints p.address).transfer = some t := h
  simp only [USB_DeviceEhciCancel, h']
  exact notification_eq hcallback _

/-- Closing an endpoint and ending its transfer go together in either order. -/
lemma finish_close : (s.modifyEndpoint p.address fun e => { e with isOpened := false }).finish p =
    (s.finish p).modifyEndpoint p.address fun e => { e with isOpened := false } := by
  simp only [State.finish]
  split_ifs
  all_goals simp [State.modifyEndpoint, State.modifyPipe, State.pipe, serialStateNotif]

lemma moves_close (hidle : (s.endpoint p).transfer = none) :
    Moves s.flow (s.modifyEndpoint p.address fun e => { e with isOpened := false }).flow := by
  rw [flow_modifyEndpoint]
  exact .single (.close _ p hidle)

lemma moves_ehciDeinit (h : s.flow.Linked) :
    Moves s.flow (USB_DeviceEhciEndpointDeinit s p.address).flow := by
  rw [USB_DeviceEhciEndpointDeinit]
  cases ht : (s.endpoint p).transfer with
  | none =>
    rw [cancel_of_none (by simpa using ht)]
    exact moves_close ht
  | some t =>
    rw [cancel_of_some (by simpa using ht) (by simpa using callbackFn_of_transfer h ht),
      finish_close]
    -- the transfer ends, the endpoint closes, the application responds
    have hfinish : Moves s.flow (s.finish p).flow := by
      rw [flow_finish]
      exact .single (.finish _ p t ht)
    have hidle : ((s.finish p).endpoint p).transfer = none := by
      show ((s.finish p).flow.endpoint p).transfer = none
      rw [flow_finish]
      simp [Flow.finish, Flow.modify, Flow.endpoint]
    have hclose := hfinish.trans (moves_close hidle)
    exact hclose.trans (moves_respond (h.moves hclose) _)

/-- Closed by the set-up, closed in the flow. -/
lemma isOpened_flow (s : State) (p : Endpoint) :
    (s.flow.endpoint p).isOpened = s.setup.isOpened p.address := rfl

lemma moves_deinit (h : s.flow.Linked) :
    Moves s.flow (USB_DeviceDeinitEndpoint s p.address).flow := by
  have hdeinit : Moves s.flow (USB_DeviceEhciEndpointDeinit s p.address).flow := moves_ehciDeinit h
  refine hdeinit.tail ?_
  rw [USB_DeviceDeinitEndpoint, flow_modifyEndpoint]
  refine Move.detach _ p ?_
  rw [isOpened_flow, setup_ehciDeinit]
  exact Function.update_self ..

/-- A turn of the loops of `USB_DeviceCdcAcmEndpointsInit` on a closed endpoint. -/
lemma installs_initPipe {known : Endpoint → Bool} {r : State × Option Endpoint} {e : EndpointStruct}
    {x : Flow} (hx : x = r.1.flow) (h : x.Linked) (hknown : known p)
    (haddress : e.endpointAddress = p.address) (hpipe : e.pipe? = some p)
    (hclosed : r.1.setup.isOpened p.address = false) : Installs x (initPipe known r e).1.flow := by
  subst hx
  have hidle : (r.1.endpoints p.address).transfer = none := (h p).closed hclosed
  have hinit : (initPipe known r e).1.flow = r.1.flow.modify p (fun _ => { ep := p.number })
      fun _ => { isOpened := true
                 maxPacketSize := e.maxPacketSize &&&
                   USB_DESCRIPTOR_ENDPOINT_MAXPACKETSIZE_SIZE_MASK
                 callbackFn := some p } := by
    simp only [initPipe, hpipe, Option.filter_some, hknown, if_true, haddress, address_number,
      USB_DeviceInitEndpoint, USB_DeviceEhciEndpointInit]
    rw [cancel_of_none (by simpa [State.modifyPipe] using hidle)]
    simp [State.flow, State.modifyEndpoint, State.modifyPipe, Flow.modify, hidle]
  rw [hinit]
  exact .single ⟨p, _, hclosed, rfl⟩

/-! ### The class -/

namespace Setup

/-- Without interface handles no endpoint is open. -/
def Guarded (t : Setup) : Prop :=
  t.commInterfaceHandle = false ∨ t.dataInterfaceHandle = false →
    ∀ p : Endpoint, t.isOpened p.address = false

variable {t : Setup}

lemma isOpened_openPipe_ne {q : Endpoint} (h : p ≠ q) :
    (t.openPipe q).isOpened p.address = t.isOpened p.address :=
  Function.update_of_ne (Endpoint.address_injective.ne h) ..

lemma isOpened_closePipe (q : Endpoint) : (t.closePipe q).isOpened p.address =
    if p = q then false else t.isOpened p.address := by
  by_cases h : p = q
  · subst h
    simp [closePipe, setEndpoint]
  · simp [closePipe, setEndpoint, h]

lemma Guarded.closed (h : t.Guarded) (p : Endpoint) :
    t.endpointsDeinit.isOpened p.address = false := by
  rw [endpointsDeinit]
  split_ifs with hhandles
  · exact h hhandles p
  · cases p <;> simp [isOpened_closePipe]

lemma Guarded.setConfiguration (h : t.Guarded) (v : UInt8) : (t.setConfiguration v).Guarded := by
  simp only [Setup.setConfiguration]
  split_ifs with hv
  · exact h
  · rw [endpointsInit]
    split_ifs with hone
    · intro hhandles
      exact absurd hhandles (by simp)
    · intro _ p
      exact h.closed p

lemma Guarded.attachTo (h : t.Guarded) (v : UInt8) : (t.attachTo v).Guarded := by
  simp only [Setup.attachTo]
  split_ifs <;> exact h

/-- Only the class touches the handles, and it does so together with the endpoints. -/
lemma Guarded.step (h : t.Guarded) (e : Event) : (t.step e).Guarded := by
  cases e with
  | busReset speed => exact fun _ _ => rfl
  | setAddress wValue =>
    simp only [Setup.step]
    split_ifs <;> exact h
  | setConfiguration wValue =>
    by_cases hdelivers : t.Delivers
    · rw [Setup.step, if_pos hdelivers]
      refine Guarded.attachTo (Guarded.setConfiguration ?_ _) _
      exact h
    · rw [Setup.step, if_neg hdelivers]
      exact h
  | setControlLineState wValue wIndex =>
    simp only [Setup.step, start]
    split_ifs <;> exact h
  | appTask text =>
    simp only [Setup.step, appTask]
    split_ifs <;> exact h
  | token p => exact h
  | complete p n => exact h

end Setup

lemma moves_endpointsDeinit (h : s.flow.Linked) :
    Moves s.flow (USB_DeviceCdcAcmEndpointsDeinit s).flow := by
  obtain ⟨e, hcic, hdic, he⟩ := s.tables.entries
  by_cases hhandles : s.cdcAcm.commInterfaceHandle = false ∨ s.cdcAcm.dataInterfaceHandle = false
  · rw [USB_DeviceCdcAcmEndpointsDeinit, if_pos hhandles]
  · simp only [USB_DeviceCdcAcmEndpointsDeinit, if_neg hhandles, hcic, hdic, List.cons_append,
      List.nil_append, List.foldl_cons, List.foldl_nil, he]
    have hint := moves_deinit (p := .interruptIn) h
    have hin := hint.trans (moves_deinit (p := .bulkIn) (h.moves hint))
    exact hin.trans (moves_deinit (p := .bulkOut) (h.moves hin))

lemma installs_endpointsInit {x : Flow} (hx : x = s.flow) (h : x.Linked)
    (hclosed : ∀ p : Endpoint, s.setup.isOpened p.address = false) :
    Installs x (USB_DeviceCdcAcmEndpointsInit s).flow := by
  subst hx
  obtain ⟨e, hcic, hdic, he⟩ := s.tables.entries
  by_cases hunknown : s.cdcAcm.configuration = 0 ∨
      USB_CDC_VCOM_CONFIGURATIONS < s.cdcAcm.configuration
  · rw [USB_DeviceCdcAcmEndpointsInit, if_pos hunknown]
  by_cases halternate : s.cdcAcm.alternate = 0
  · simp only [USB_DeviceCdcAcmEndpointsInit, if_neg hunknown, halternate, hcic, ne_eq,
      not_true_eq_false, if_false, List.foldl_cons, List.foldl_nil]
    generalize hr : initPipe _ _ (e .interruptIn) = r
    have hsetup := congrArg (fun r => r.1.setup) hr
    have hflow := congrArg (fun r => r.1.flow) hr
    rw [setup_initPipe (p := .interruptIn) (by decide) (he _)] at hsetup
    have htables : r.1.tables = s.tables := (congrArg Setup.tables hsetup).symm
    have hint : Installs s.flow r.1.flow := by
      rw [← hflow]
      refine installs_initPipe (p := .interruptIn) rfl h ?_ (he _).1 (he _).2.1 ?_
      · decide
      · exact hclosed .interruptIn
    have hdic' : r.1.tables.1.dicEndpoints = [e .bulkIn, e .bulkOut] := by
      rw [htables]
      exact hdic
    simp only [hdic', List.foldl_cons, List.foldl_nil]
    have hopen (q : Endpoint) (hq : q ≠ .interruptIn) : r.1.setup.isOpened q.address = false := by
      rw [← hsetup]
      exact (Setup.isOpened_openPipe_ne hq).trans (hclosed q)
    generalize hr' : initPipe _ _ (e .bulkIn) = r'
    have hsetup' := congrArg (fun r => r.1.setup) hr'
    have hflow' := congrArg (fun r => r.1.flow) hr'
    rw [setup_initPipe (p := .bulkIn) (by decide) (htables ▸ he .bulkIn)] at hsetup'
    have hin : Installs s.flow r'.1.flow := by
      rw [← hflow']
      refine hint.trans
        (installs_initPipe (p := .bulkIn) rfl (h.moves hint.moves) ?_ (he _).1 (he _).2.1 ?_)
      · decide
      · exact hopen .bulkIn (by decide)
    have hopen' : r'.1.setup.isOpened Endpoint.bulkOut.address = false := by
      rw [← hsetup']
      exact (Setup.isOpened_openPipe_ne (by decide)).trans (hopen .bulkOut (by decide))
    refine hin.trans
      (installs_initPipe (p := .bulkOut) rfl (h.moves hin.moves) ?_ (he _).1 (he _).2.1 hopen')
    decide
  · simp only [USB_DeviceCdcAcmEndpointsInit, if_neg hunknown, ne_eq, halternate,
      not_false_eq_true, if_true]
    exact .refl

lemma moves_setConfiguration (h : s.flow.Linked) (hguarded : s.setup.Guarded) (v : UInt8) :
    Moves s.flow (USB_DeviceCdcAcmSetConfiguration s v).flow := by
  by_cases hv : v = s.cdcAcm.configuration
  · rw [USB_DeviceCdcAcmSetConfiguration, if_pos hv]
  · simp only [USB_DeviceCdcAcmSetConfiguration, if_neg hv]
    have hdeinit := moves_endpointsDeinit h
    refine hdeinit.trans (Installs.moves (installs_endpointsInit rfl (h.moves hdeinit) fun p => ?_))
    have hclosed := hguarded.closed p
    rwa [← setup_endpointsDeinit] at hclosed

lemma moves_callbackSetConfiguration (h : s.flow.Linked) (v : UInt8) :
    Moves s.flow (USB_DeviceCallbackSetConfiguration s v).2.flow := by
  simp only [USB_DeviceCallbackSetConfiguration]
  split_ifs
  · exact .refl
  · exact moves_scheduleReceive rfl h
  · exact .refl

lemma moves_resetNotification (h : s.flow.Linked) (speed : Option UInt8) :
    Moves s.flow (USB_DeviceResetNotification s speed).flow := by
  simp only [USB_DeviceResetNotification, List.foldl_cons, List.foldl_nil]
  generalize hr : USB_DeviceEhciEndpointDeinit _ Endpoint.bulkOut.address = r
  have hmoves : Moves s.flow r.flow := by
    have hint := moves_ehciDeinit (p := .interruptIn) h
    have hin := hint.trans (moves_ehciDeinit (p := .bulkIn) (h.moves hint))
    rw [← hr]
    exact hin.trans (moves_ehciDeinit (p := .bulkOut) (h.moves hin))
  refine hmoves.tail ?_
  refine Move.clear r.flow USB_CONTROL_MAX_PACKET_SIZE fun p => ?_
  rw [isOpened_flow, ← hr]
  simp only [setup_ehciDeinit]
  cases p <;> simp [Setup.setEndpoint]

/-! ### Steps -/

instance (s : State) (p : Endpoint) : Decidable (s.Accepts p) :=
  inferInstanceAs (Decidable (_ ∧ _ ∧ _))

/-- The notification is taken, or `hasSentState` is set without a transfer. -/
lemma flow_notifyLineState (h : s.flow.Linked) (hsent : s.cdcAcm.hasSentState = false) :
    (notifyLineState s).flow =
      if s.Accepts .interruptIn then
        { s.flow.take .interruptIn .serialStateBuf (NOTIF_PACKET_SIZE + UART_BITMAP_SIZE) with
          hasSentState := true }
      else { s.flow with
        hasSentState := true
        trace := .usb_echo "kUSB_DeviceCdcEventSetControlLineState error!" :: s.trace } := by
  have hrequested : Requested s .interruptIn .serialStateBuf (NOTIF_PACKET_SIZE + UART_BITMAP_SIZE)
      (USB_DeviceCdcAcmSend s USB_CDC_VCOM_INTERRUPT_IN_ENDPOINT .serialStateBuf
        (NOTIF_PACKET_SIZE + UART_BITMAP_SIZE)) := send_requested h (by decide)
  simp only [notifyLineState, hsent, Bool.false_eq_true, if_false]
  generalize USB_DeviceCdcAcmSend s _ _ _ = r at hrequested
  cases hrequested with
  | taken haccepts =>
    rw [if_pos haccepts, if_neg (not_not.mpr rfl)]
    rfl
  | refused hrefuses hstatus hanswers =>
    rw [if_neg hrefuses, if_pos hstatus]
    rfl

lemma flow_setControlLineState_eq (wValue wIndex : UInt16) :
    (setControlLineState s wValue wIndex).flow =
      (notifyLineState { s with acmInfo := s.acmInfo.update wValue wIndex }).flow := by
  simp only [setControlLineState]
  split_ifs <;> rfl

/-- While a notification is under way, a line-state request does not reach the pipe. -/
lemma flow_setControlLineState_of_sent (hsent : s.cdcAcm.hasSentState) (wValue wIndex : UInt16) :
    (setControlLineState s wValue wIndex).flow = s.flow := by
  rw [flow_setControlLineState_eq, notifyLineState, if_pos hsent]
  rfl

lemma flow_setControlLineState (h : s.flow.Linked) (hsent : s.cdcAcm.hasSentState = false)
    (wValue wIndex : UInt16) :
    (setControlLineState s wValue wIndex).flow =
      if s.Accepts .interruptIn then
        { s.flow.take .interruptIn .serialStateBuf (NOTIF_PACKET_SIZE + UART_BITMAP_SIZE) with
          hasSentState := true }
      else { s.flow with
        hasSentState := true
        trace := .usb_echo "kUSB_DeviceCdcEventSetControlLineState error!" :: s.trace } :=
  (flow_setControlLineState_eq wValue wIndex).trans (flow_notifyLineState h hsent)

/-- A request that leads to a notification is a move. -/
lemma move_setControlLineState (h : s.flow.Linked) (hsent : s.cdcAcm.hasSentState = false)
    (haccepts : s.Accepts .interruptIn) (wValue wIndex : UInt16) :
    Move s.flow (setControlLineState s wValue wIndex).flow := by
  rw [flow_setControlLineState h hsent, if_pos haccepts]
  exact Move.notify _ _ haccepts.1 haccepts.2.1 hsent

/-- Every other step is a sequence of moves. -/
theorem moves_step (h : s.flow.Linked) (hguarded : s.setup.Guarded) (e : Event)
    (he : ∀ wValue wIndex, e ≠ .setControlLineState wValue wIndex) :
    Moves s.flow (step s e).flow := by
  cases e with
  | busReset speed => exact moves_resetNotification h speed
  | setAddress wValue =>
    simp only [step, USB_DeviceCh9SetAddress]
    split_ifs <;> exact .refl
  | setConfiguration wValue =>
    by_cases hdelivers : s.state = .Address ∨ s.state = .Configured
    · simp only [step, USB_DeviceCh9SetConfiguration, if_pos hdelivers]
      have hset := moves_setConfiguration
        (s := { s with state := if wValue = 0 then .Address else .Configured }) h hguarded
        wValue.toUInt8
      exact hset.trans (moves_callbackSetConfiguration (h.moves hset) _)
    · simp only [step, USB_DeviceCh9SetConfiguration, if_neg hdelivers]
      exact .refl
  | setControlLineState wValue wIndex => exact absurd rfl (he wValue wIndex)
  | appTask text =>
    simp only [step, APPTask]
    split_ifs
    · exact (send_requested (s := s.printMsg text) h (by decide)).moves fun hopen hidle =>
        .send _ _ _ hopen hidle
    · exact .refl
  | token p => exact moves_sendPacket s p
  | complete p n => exact moves_tokenDone h n

/-- What holds between any two steps of the device. -/
structure State.Coherent (s : State) : Prop where
  linked : s.flow.Linked
  guarded : s.setup.Guarded

lemma coherent_init (acmInfo : AcmInfo) (answers : ℕ → UsbStatus) :
    (USB_DeviceApplicationInit acmInfo answers).Coherent where
  linked _ := ⟨rfl, Or.inl rfl, fun hopen => (by cases hopen), fun _ => rfl, rfl, rfl⟩
  guarded _ _ := rfl

/-- `Flow.Linked` does not look at `hasSentState` and the trace. -/
lemma Flow.Linked.of_eq {x y : Flow} (h : x.Linked) (hpipe : y.pipe = x.pipe)
    (hendpoints : y.endpoints = x.endpoints) : y.Linked := by
  intro p
  rw [hpipe, Flow.endpoint, hendpoints]
  exact h p

/-- A line-state request leads to a notification, does not reach the pipe or is reported as an
error. -/
lemma setControlLineState_cases (h : s.flow.Linked) (wValue wIndex : UInt16) :
    Move s.flow (setControlLineState s wValue wIndex).flow ∨
      (setControlLineState s wValue wIndex).flow = s.flow ∨
      (setControlLineState s wValue wIndex).flow = { s.flow with
        hasSentState := true
        trace := .usb_echo "kUSB_DeviceCdcEventSetControlLineState error!" :: s.trace } := by
  cases hsent : s.cdcAcm.hasSentState with
  | true =>
    right
    left
    exact flow_setControlLineState_of_sent hsent wValue wIndex
  | false =>
    by_cases haccepts : s.Accepts .interruptIn
    · left
      exact move_setControlLineState h hsent haccepts wValue wIndex
    · right
      right
      rw [flow_setControlLineState h hsent, if_neg haccepts]

lemma linked_setControlLineState (h : s.flow.Linked) (wValue wIndex : UInt16) :
    (setControlLineState s wValue wIndex).flow.Linked := by
  obtain hmove | heq | heq := setControlLineState_cases h wValue wIndex
  · exact h.move hmove
  · rwa [heq]
  · rw [heq]
    exact h.of_eq rfl rfl

/-- A line-state request for another interface is refused. -/
lemma inv_step_setControlLineState {I : Flow → Prop} {wValue wIndex : UInt16} (hs : I s.flow)
    (hline : I (setControlLineState s wValue wIndex).flow) :
    I (step s (.setControlLineState wValue wIndex)).flow := by
  simp only [step, USB_DeviceCdcAcmSetControlLineState]
  split_ifs
  · exact hs
  · exact hline

lemma State.Coherent.step (h : s.Coherent) (e : Event) : (step s e).Coherent where
  linked := by
    by_cases he : ∃ wValue wIndex, e = .setControlLineState wValue wIndex
    · obtain ⟨wValue, wIndex, rfl⟩ := he
      exact inv_step_setControlLineState h.linked
        (linked_setControlLineState h.linked wValue wIndex)
    · push Not at he
      exact h.linked.moves (moves_step h.linked h.guarded e he)
  guarded := by
    rw [setup_step]
    exact h.guarded.step e

/-- An invariant of the moves of linked pipes holds after every step if it holds after line-state
requests. -/
lemma State.Coherent.inv_step {e : Event} {I : Flow → Prop}
    (hI : ∀ x y, I x → x.Linked → Move x y → I y) (h : s.Coherent) (hs : I s.flow)
    (hline : ∀ wValue wIndex, e = .setControlLineState wValue wIndex → I (Usb.step s e).flow) :
    I (Usb.step s e).flow := by
  by_cases he : ∃ wValue wIndex, e = .setControlLineState wValue wIndex
  · obtain ⟨wValue, wIndex, he⟩ := he
    exact hline wValue wIndex he
  · push Not at he
    have hmoves := moves_step h.linked h.guarded e he
    refine (hmoves.inv (I := fun x => I x ∧ x.Linked) (fun x y hx hmove => ?_) ⟨hs, h.linked⟩).1
    exact ⟨hI x y hx.1 hx.2 hmove, hx.2.move hmove⟩

end RT1064.Usb
