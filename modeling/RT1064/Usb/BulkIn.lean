import RT1064.Usb.Session

/-!
# Messages on the bulk-IN pipe

APPTask and the completion callback share the bulk-IN pipe: the task sends messages, the callback
closes those that end with a full packet. Together they are the sender of `Core.Link`, so that the
host gets the messages back by cutting the packets after each short one. The controller reads a
message from the array of APPTask while it sends it, and APPTask prints to this array on each turn:
the pipe is such a sender as long as no turn changes what is still to be read.
-/

namespace RT1064.Usb

open Core Flow

/-! ### What is seen of the messages -/

/-- The length of a transfer that was begun. -/
def Observation.transferLength? : Observation → Option ℕ
  | .taken _ _ length => some length
  | _                 => none

/-- The packets of a trace, in their order. -/
def packets (trace : List Observation) : List (List UInt8) :=
  trace.reverse.filterMap Observation.payload?

/-- The lengths of the transfers of a trace, in their order. -/
def transferLengths (trace : List Observation) : List ℕ :=
  trace.reverse.filterMap Observation.transferLength?

/-- The lengths of the transfers of a sender. -/
def lengths (ts : List (Option (List UInt8))) : List ℕ := ts.map fun t => t.elim 0 List.length

@[simp] lemma packets_cons (o : Observation) (trace : List Observation) :
    packets (o :: trace) = packets trace ++ o.payload?.toList := by
  cases h : o.payload? <;> simp [packets, h]

@[simp] lemma transferLengths_cons (o : Observation) (trace : List Observation) :
    transferLengths (o :: trace) = transferLengths trace ++ o.transferLength?.toList := by
  cases h : o.transferLength? <;> simp [transferLengths, h]

@[simp] lemma lengths_append (ts ts' : List (Option (List UInt8))) :
    lengths (ts ++ ts') = lengths ts ++ lengths ts' := List.map_append

/-- The message that a turn of APPTask hands over with success. -/
def acceptedMessage (s : State) : Event → Option (List UInt8)
  | .appTask text =>
    if s.transmitGuard ∧ (USB_DeviceCdcAcmSend (s.printMsg text) USB_CDC_VCOM_BULK_IN_ENDPOINT .msg
        text.length).1 = .Success then some text
    else none
  | _ => none

/-- A step of the device, with the messages handed over with success so far. -/
def acceptedStep (x : State × List (List UInt8)) (e : Event) : State × List (List UInt8) :=
  (step x.1 e, x.2 ++ (acceptedMessage x.1 e).toList)

/-! ### The pipe as a sender -/

/-- The transfer in flight in each phase. -/
def phaseTransfer : Phase (UInt8) → Option Transfer
  | .idle              => none
  | .message b k       => some { buffer := .msg, length := b.length, packets := k }
  | .terminator _ sent => some { buffer := .null, length := 0, packets := sent.toNat }

/-- The pipe does what the sender `l` does. -/
structure Sends (x : PipeView) (l : Link UInt8) : Prop where
  phase : x.endpoint.transfer = phaseTransfer l.phase
  transfers : transferLengths x.trace = lengths l.transfers
  packets : packets x.trace = l.packets

variable {s : State} {l : Link UInt8} {m : ℕ} {e : Event}

lemma phaseTransfer_eq_none {phase : Phase UInt8} : phaseTransfer phase = none ↔ phase = .idle := by
  cases phase <;> simp [phaseTransfer]

/-- The view after a transfer was taken. -/
lemma view_take_self {x : Flow} (p : Endpoint) (buffer : Buffer) (length : ℕ) :
    ((x.take p buffer length).view p).endpoint.transfer = some { buffer, length } ∧
      ((x.take p buffer length).view p).trace =
        .taken p.address buffer length :: (x.view p).trace := by
  constructor
  · show ((x.take p buffer length).endpoint p).transfer = _
    rw [Flow.endpoint, Flow.take]
    exact congrArg EndpointState.transfer (Function.update_self p.address _ x.endpoints)
  · simp [Flow.view, Flow.take, Observation.isAt]

/-- Printing is not seen by the transfers. -/
lemma State.Session.printMsg (h : s.Session) (text : List UInt8) : (s.printMsg text).Session :=
  ⟨⟨h.coherent.linked, h.coherent.guarded⟩, h.opened, h.sized, h.willing⟩

/-- The sender takes a message when the pipe does. -/
lemma sends_offer (h : s.Session) (hl : Sends (s.flow.view .bulkIn) l) (b : List UInt8) :
    Sends ((USB_DeviceCdcAcmSend s USB_CDC_VCOM_BULK_IN_ENDPOINT .msg
        b.length).2.flow.view .bulkIn) (l.step m (.offer b)) ∧
      (l.step m (.offer b)).accepted = l.accepted ++
        (if (USB_DeviceCdcAcmSend s USB_CDC_VCOM_BULK_IN_ENDPOINT .msg b.length).1 = .Success then
          some b else none).toList := by
  have hrequested : Requested s .bulkIn .msg b.length
      (USB_DeviceCdcAcmSend s USB_CDC_VCOM_BULK_IN_ENDPOINT .msg b.length) :=
    send_requested h.coherent.linked (by decide)
  obtain ⟨phase, ts, ps⟩ := l
  rw [Link.accepted_offer]
  generalize USB_DeviceCdcAcmSend s _ _ _ = r at hrequested
  cases hrequested with
  | taken haccepts =>
    obtain rfl : phase = .idle := phaseTransfer_eq_none.mp (hl.phase.symm.trans haccepts.2.1)
    obtain ⟨htransfer, htrace⟩ := view_take_self (x := s.flow) .bulkIn .msg b.length
    rw [flow_take]
    refine ⟨⟨htransfer, ?_, ?_⟩, rfl⟩
    · rw [htrace, transferLengths_cons, hl.transfers]
      simp [Observation.transferLength?, Link.step, lengths]
    · rw [htrace, packets_cons, hl.packets]
      simp [Observation.payload?, Link.step]
  | refused hrefuses hstatus hanswers =>
    have hbusy : phase ≠ .idle := by
      rintro rfl
      exact hrefuses ⟨h.opened _, hl.phase, h.willing 0⟩
    rw [if_neg hstatus, Option.toList_none]
    cases phase with
    | idle => exact absurd rfl hbusy
    | message b' k => exact ⟨hl, (List.append_nil _).symm⟩
    | terminator b' sent => exact ⟨hl, (List.append_nil _).symm⟩

/-- The packets of an IN endpoint come from the transfer in flight. -/
lemma sendPacket_eq {t : Transfer} (ht : (s.endpoint .bulkIn).transfer = some t) :
    sendPacket s .bulkIn =
      if t.packets < packetCount (s.endpoint .bulkIn).maxPacketSize.toNat t.length then
        (s.modifyEndpoint Endpoint.bulkIn.address fun e =>
          { e with transfer := some { t with packets := t.packets + 1 } }).observe
            (.packet Endpoint.bulkIn.address (packet (s.endpoint .bulkIn).maxPacketSize.toNat
              ((s.contents t.buffer).take t.length) t.packets))
      else s := by
  simp only [sendPacket, ht, ne_eq, reduceCtorEq, not_false_eq_true, true_and]

/-- The view after a packet was sent. -/
lemma view_packet (s : State) (p : Endpoint) (t : Transfer) (payload : List UInt8) :
    (((s.modifyEndpoint p.address fun e => { e with transfer := some t }).observe
        (.packet p.address payload)).flow.view p).endpoint.transfer = some t ∧
      (((s.modifyEndpoint p.address fun e => { e with transfer := some t }).observe
        (.packet p.address payload)).flow.view p).trace =
          .packet p.address payload :: (s.flow.view p).trace := by
  constructor
  · exact congrArg EndpointState.transfer (Function.update_self p.address _ s.endpoints)
  · simp [Flow.view, State.flow, State.observe, State.modifyEndpoint, Observation.isAt]

/-- The array holds message `b` where the controller has still to read it, after `k` packets. -/
structure State.Keeps (s : State) (m : ℕ) (b : List UInt8) (k : ℕ) : Prop where
  length_le : b.length ≤ s.msg.length
  drop_eq : (s.msg.take b.length).drop (k * m) = b.drop (k * m)

lemma State.Keeps.packet_eq {b : List UInt8} {k : ℕ} (h : s.Keeps m b k) :
    packet m (s.msg.take b.length) k = packet m b k := by
  rw [packet, h.drop_eq, packet]

lemma State.Keeps.succ {b : List UInt8} {k : ℕ} (h : s.Keeps m b k) : s.Keeps m b (k + 1) := by
  refine ⟨h.length_le, ?_⟩
  have hdrop := congrArg (List.drop m) h.drop_eq
  rwa [List.drop_drop, List.drop_drop, ← Nat.succ_mul] at hdrop

lemma keeps_printMsg (s : State) (m : ℕ) (text : List UInt8) :
    (s.printMsg text).Keeps m text 0 := by
  constructor
  · simp [State.printMsg]
  · simp [State.printMsg]

/-- The sender sends the packets that the controller sends. -/
lemma sends_poll (hm : (s.endpoint .bulkIn).maxPacketSize.toNat = m) (hpos : 0 < m)
    (hl : Sends (s.flow.view .bulkIn) l)
    (hkeeps : ∀ b k, l.phase = .message b k → s.Keeps m b k) :
    Sends ((sendPacket s .bulkIn).flow.view .bulkIn) (l.step m .poll) := by
  obtain ⟨phase, ts, ps⟩ := l
  have htransfer : (s.endpoint .bulkIn).transfer = phaseTransfer phase := hl.phase
  cases phase with
  | idle =>
    simp only [sendPacket, htransfer, phaseTransfer]
    exact hl
  | message b k =>
    rw [sendPacket_eq htransfer, hm]
    simp only [State.contents, (hkeeps b k rfl).packet_eq, Link.step]
    by_cases hmore : k < packetCount m b.length
    · rw [if_pos hmore, if_pos hmore]
      obtain ⟨hnext, htrace⟩ := view_packet s .bulkIn
        { buffer := .msg, length := b.length, packets := k + 1 } (packet m b k)
      refine ⟨hnext, ?_, ?_⟩
      · rw [htrace, transferLengths_cons, hl.transfers]
        exact List.append_nil _
      · rw [htrace, packets_cons, hl.packets]
        rfl
    · rw [if_neg hmore, if_neg hmore]
      exact hl
  | terminator b sent =>
    rw [sendPacket_eq htransfer, hm]
    simp only [packetCount_zero hpos, List.take_zero]
    cases sent with
    | false =>
      rw [if_pos (show Bool.toNat false < 1 by decide)]
      obtain ⟨hnext, htrace⟩ := view_packet s .bulkIn
        { buffer := .null, length := 0, packets := 1 } (packet m [] 0)
      refine ⟨hnext, ?_, ?_⟩
      · refine (congrArg transferLengths htrace).trans ?_
        rw [transferLengths_cons, hl.transfers]
        exact List.append_nil _
      · refine (congrArg packets htrace).trans ?_
        rw [packets_cons, hl.packets]
        simp [packet, Observation.payload?, Link.step]
    | true =>
      rw [if_neg (show ¬ Bool.toNat true < 1 by decide)]
      exact hl

/-- The end of a transfer of the pipe. -/
lemma tokenDone_bulkIn (h : s.Coherent) (n : ℕ) {t : Transfer}
    (ht : (s.endpoint .bulkIn).transfer = some t) :
    USB_DeviceEhciInterruptTokenDone s .bulkIn n =
      if packetCount (s.endpoint .bulkIn).maxPacketSize.toNat t.length ≤ t.packets then
        sendResponse (s.finish .bulkIn) { buffer := t.buffer, length := t.length }
      else s := by
  simp only [USB_DeviceEhciInterruptTokenDone, ht]
  rw [notification_eq (callbackFn_of_transfer h.linked ht)]
  simp only [reduceCtorEq, if_false, State.respond]

/-- The sender after a transfer has ended. -/
lemma Sends.finish (hl : Sends (s.flow.view .bulkIn) l) :
    Sends ((s.finish .bulkIn).flow.view .bulkIn) { l with phase := .idle } := by
  rw [flow_finish]
  refine ⟨?_, hl.transfers, hl.packets⟩
  exact congrArg EndpointState.transfer
    (Function.update_self Endpoint.bulkIn.address _ s.endpoints)

/-- A full last packet is followed by an empty transfer. -/
lemma sends_terminator (h : s.Session) (hl : Sends (s.flow.view .bulkIn) l)
    (hphase : l.phase = .idle) (b : List UInt8) {epCbParam : EndpointCallbackMessage}
    (hfull : epCbParam.length ≠ 0 ∧ epCbParam.length % s.dicPacketSize 0 = 0) :
    Sends ((sendResponse s epCbParam).flow.view .bulkIn)
      { l with phase := .terminator b false, transfers := l.transfers ++ [none] } := by
  have hrequested : Requested s .bulkIn .null 0
      (USB_DeviceCdcAcmSend s USB_CDC_VCOM_BULK_IN_ENDPOINT .null 0) :=
    send_requested h.coherent.linked (by decide)
  have hidle : (s.endpoint .bulkIn).transfer = none :=
    hl.phase.trans (phaseTransfer_eq_none.mpr hphase)
  rw [sendResponse, if_pos hfull]
  generalize USB_DeviceCdcAcmSend s _ _ _ = r at hrequested
  cases hrequested with
  | taken haccepts =>
    obtain ⟨htransfer, htrace⟩ := view_take_self (x := s.flow) .bulkIn .null 0
    rw [flow_take]
    refine ⟨htransfer, ?_, ?_⟩
    · rw [htrace, transferLengths_cons, hl.transfers, lengths_append]
      rfl
    · rw [htrace, packets_cons, hl.packets]
      exact List.append_nil _
  | refused hrefuses hstatus hanswers => exact absurd ⟨h.opened _, hidle, h.willing 0⟩ hrefuses

/-- Else the callback does not use the pipe. -/
lemma view_sendResponse (h : s.Session) {epCbParam : EndpointCallbackMessage}
    (hfull : ¬ (epCbParam.length ≠ 0 ∧ epCbParam.length % s.dicPacketSize 0 = 0)) :
    (sendResponse s epCbParam).flow.view .bulkIn = s.flow.view .bulkIn := by
  rw [sendResponse, if_neg hfull]
  split_ifs
  · exact view_scheduleReceive rfl h.coherent.linked (by decide)
  · rfl
  · rfl

/-- The callback does what the sender does when a transfer has ended. -/
lemma sends_done (h : s.Session) (hm : (s.endpoint .bulkIn).maxPacketSize.toNat = m)
    (hpos : 0 < m) (hl : Sends (s.flow.view .bulkIn) l) (hframed : Link.Framed m l) (n : ℕ) :
    Sends ((USB_DeviceEhciInterruptTokenDone s .bulkIn n).flow.view .bulkIn) (l.step m .done) := by
  have hsize : (s.finish .bulkIn).dicPacketSize 0 = m := by
    have htables : (s.finish .bulkIn).tables = s.tables :=
      congrArg Setup.tables (setup_finish (s := s) (p := .bulkIn))
    rw [← hm, h.sized, State.dicPacketSize, htables]
    rfl
  have hsession := h.finish .bulkIn
  have hfinish := hl.finish
  have htransfer := hl.phase
  cases hframed with
  | idle ms ps hcut =>
    have htransfer' : (s.endpoint .bulkIn).transfer = none := htransfer
    simp only [USB_DeviceEhciInterruptTokenDone, htransfer']
    exact hl
  | message ms b k ps hb hk hcut =>
    have hlength : b.length ≠ 0 := fun hzero => hb (List.length_eq_zero_iff.mp hzero)
    rw [tokenDone_bulkIn h.coherent n htransfer, hm]
    simp only [Link.step]
    by_cases hmore : k < packetCount m b.length
    · rw [if_neg (Nat.not_le.mpr hmore), if_pos hmore]
      exact hl
    · rw [if_pos (Nat.not_lt.mp hmore), if_neg hmore]
      by_cases hdvd : m ∣ b.length
      · rw [if_pos hdvd]
        refine sends_terminator hsession hfinish rfl b ⟨hlength, ?_⟩
        rw [hsize]
        exact Nat.mod_eq_zero_of_dvd hdvd
      · rw [if_neg hdvd, view_sendResponse hsession]
        · exact hfinish
        · rintro ⟨-, hmod⟩
          rw [hsize] at hmod
          exact hdvd (Nat.dvd_of_mod_eq_zero hmod)
  | terminator ms b sent ps hdvd hcut =>
    rw [tokenDone_bulkIn h.coherent n htransfer, hm]
    simp only [packetCount_zero hpos]
    cases sent with
    | false =>
      rw [if_neg (show ¬ 1 ≤ Bool.toNat false by decide)]
      exact hl
    | true =>
      rw [if_pos (show 1 ≤ Bool.toNat true by decide), view_sendResponse hsession]
      · exact hfinish
      · exact fun hfull => hfull.1 rfl

/-! ### Runs -/

/-- Sender and receiver stand where a session with packets of size `m` has brought them. -/
structure Sending (m : ℕ) (s : State) (l : Link UInt8) : Prop where
  session : s.Session
  size : s.dicPacketSize 0 = m
  sends : Sends (s.flow.view .bulkIn) l
  framed : Link.Framed m l
  keeps : ∀ b k, l.phase = .message b k → s.Keeps m b k

lemma Sending.maxPacketSize (h : Sending m s l) : (s.endpoint .bulkIn).maxPacketSize.toNat = m := by
  rw [← h.size, h.session.sized]
  rfl

lemma Sending.pos (h : Sending m s l) : 0 < m := by
  have hsize := s.tables.packetSize_bounds.2
  rw [← h.session.sized, h.maxPacketSize] at hsize
  omega

lemma dicPacketSize_step (he : e.InSession) : (step s e).dicPacketSize 0 = s.dicPacketSize 0 := by
  have htables : (step s e).tables = s.tables := (setup_step_of_inSession he).2.2.1
  rw [State.dicPacketSize, htables, State.dicPacketSize]

/-- Steps of the sender that the pipe takes. -/
lemma Sending.of_step (h : Sending m s l) (hin : e.InSession) {l' : Link UInt8}
    (hsends : Sends ((step s e).flow.view .bulkIn) l') (hframed : Link.Framed m l')
    (hkeeps : ∀ b k, l'.phase = .message b k → (step s e).Keeps m b k) :
    Sending m (step s e) l' :=
  ⟨h.session.step hin, (dicPacketSize_step hin).trans h.size, hsends, hframed, hkeeps⟩

lemma State.Keeps.of_msg_eq {s' : State} {b : List UInt8} {k : ℕ} (h : s.Keeps m b k)
    (hmsg : s'.msg = s.msg) : s'.Keeps m b k :=
  ⟨hmsg ▸ h.length_le, hmsg ▸ h.drop_eq⟩

/-- Only a turn of APPTask that may send writes to the array. -/
lemma msg_step (he : e.InSession) (hguard : ∀ text, e = .appTask text → ¬ s.transmitGuard) :
    (step s e).msg = s.msg := by
  refine (congrArg Setup.msg (setup_step s e)).trans ?_
  cases e with
  | busReset speed => exact he.elim
  | setAddress wValue =>
    simp only [Setup.step]
    split_ifs <;> rfl
  | setConfiguration wValue => exact he.elim
  | setControlLineState wValue wIndex =>
    simp only [Setup.step, Setup.start]
    split_ifs <;> rfl
  | appTask text => exact congrArg Setup.msg (if_neg (hguard text rfl))
  | token p => rfl
  | complete p n => rfl

lemma msg_APPTask (hguard : s.transmitGuard) (text : List UInt8) :
    (step s (.appTask text)).msg = (s.printMsg text).msg :=
  (congrArg Setup.msg (setup_step s (.appTask text))).trans (congrArg Setup.msg (if_pos hguard))

/-- The controller sends a packet. -/
lemma Sending.poll (h : Sending m s l) :
    Sending m (Usb.step s (.token .bulkIn)) (l.step m .poll) := by
  have hin : (Event.token .bulkIn).InSession := trivial
  refine h.of_step hin (sends_poll h.maxPacketSize h.pos h.sends h.keeps)
    (h.framed.step h.pos _ fun _ hb => (by cases hb)) fun b k hphase => ?_
  have hmsg := msg_step (s := s) hin fun _ he => (by cases he)
  rcases Link.message_of_poll hphase with hphase' | ⟨j, rfl, hphase'⟩
  · exact (h.keeps b k hphase').of_msg_eq hmsg
  · exact (h.keeps b j hphase').succ.of_msg_eq hmsg

/-- The controller sends some packets. -/
lemma Sending.polls (h : Sending m s l) (n : ℕ) :
    Sending m ((List.replicate n (.token .bulkIn)).foldl Usb.step s)
      ((fun l : Link UInt8 => l.step m .poll)^[n] l) := by
  induction n generalizing s l with
  | zero => exact h
  | succ n ih =>
    rw [List.replicate_succ, List.foldl_cons, Function.iterate_succ_apply]
    exact ih h.poll

/-- The controller ends a transfer. -/
lemma Sending.done (h : Sending m s l) (n : ℕ) :
    Sending m (Usb.step s (.complete .bulkIn n)) (l.step m .done) := by
  have hin : (Event.complete .bulkIn n).InSession := trivial
  refine h.of_step hin (sends_done h.session h.maxPacketSize h.pos h.sends h.framed n)
    (h.framed.step h.pos _ fun _ hb => (by cases hb)) fun b k hphase => ?_
  exact (h.keeps b k (Link.message_of_done hphase)).of_msg_eq
    (msg_step hin fun _ he => (by cases he))

/-- The sender accepts what a turn of APPTask hands over with success. -/
lemma Sending.accepted_offer (h : Sending m s l) (hguard : s.transmitGuard) (text : List UInt8) :
    Sends ((Usb.step s (.appTask text)).flow.view .bulkIn) (l.step m (.offer text)) ∧
      (l.step m (.offer text)).accepted =
        l.accepted ++ (acceptedMessage s (.appTask text)).toList := by
  obtain ⟨hsends, haccepted⟩ := sends_offer (m := m) (h.session.printMsg text) h.sends text
  constructor
  · simpa only [Usb.step, APPTask, if_pos hguard] using hsends
  · simpa only [acceptedMessage, hguard, true_and] using haccepted

/-- What the controller has still to read of a buffer, as it reads now. -/
def State.unread (s : State) (t : Transfer) : List UInt8 :=
  ((s.contents t.buffer).take t.length).drop
    (t.packets * (s.endpoint .bulkIn).maxPacketSize.toNat)

/-- The event leaves alone what the controller has still to read on the bulk-IN pipe. -/
def State.Spares (s : State) : Event → Prop
  | .appTask text => s.transmitGuard → ∀ t ∈ (s.endpoint .bulkIn).transfer,
      (s.printMsg text).unread t = s.unread t
  | _ => True

instance (s : State) (e : Event) : Decidable (s.Spares e) :=
  match e with
  | .appTask text => inferInstanceAs (Decidable (s.transmitGuard →
      ∀ t ∈ (s.endpoint .bulkIn).transfer, (s.printMsg text).unread t = s.unread t))
  | .setAddress _ | .setConfiguration _ | .setControlLineState _ _ | .token _ | .complete _ _ |
    .busReset _ => .isTrue trivial

/-- A list with the end of another one of the same length. -/
lemma take_append_drop_of_length_eq {α : Type*} {b r : List α} (h : r.length = b.length) (i : ℕ) :
    (b.take i ++ r.drop i).length = b.length ∧ (b.take i ++ r.drop i).take i = b.take i ∧
      (b.take i ++ r.drop i).drop i = r.drop i := by
  rcases Nat.le_total i b.length with hi | hi
  · have htake : (b.take i).length = i := List.length_take_of_le hi
    refine ⟨?_, List.take_left' htake, List.drop_left' htake⟩
    rw [List.length_append, htake, List.length_drop, h]
    omega
  · rw [List.take_of_length_le hi, List.drop_eq_nil_of_le (h ▸ hi), List.append_nil]
    exact ⟨rfl, List.take_of_length_le hi, List.drop_eq_nil_of_le hi⟩

/-- The text and the zero byte do not shorten the array. -/
lemma length_le_printMsg (s : State) (text : List UInt8) :
    s.msg.length ≤ (s.printMsg text).msg.length := by
  simp only [State.printMsg, List.length_append, List.length_cons, List.length_drop]
  omega

/-- What is left to read of a message under way decides whether a turn spares it. -/
lemma Sending.spares_iff (h : Sending m s l) (hguard : s.transmitGuard) {b : List UInt8} {k : ℕ}
    (hphase : l.phase = .message b k) (text : List UInt8) :
    s.Spares (.appTask text) ↔
      ((s.printMsg text).msg.take b.length).drop (k * m) = b.drop (k * m) := by
  have htransfer : (s.endpoint .bulkIn).transfer = some ⟨.msg, b.length, k⟩ := by
    refine h.sends.phase.trans ?_
    rw [hphase]
    rfl
  have hunread : s.unread ⟨.msg, b.length, k⟩ = b.drop (k * m) := by
    rw [State.unread, h.maxPacketSize]
    exact (h.keeps b k hphase).drop_eq
  have hprinted : (s.printMsg text).unread ⟨.msg, b.length, k⟩ =
      ((s.printMsg text).msg.take b.length).drop (k * m) := by
    rw [State.unread, show ((s.printMsg text).endpoint .bulkIn).maxPacketSize.toNat = m from
      h.maxPacketSize]
    rfl
  rw [← hunread, ← hprinted]
  constructor
  · exact fun hspares => hspares hguard _ htransfer
  · intro heq _ t ht
    obtain rfl := Option.some.inj (htransfer.symm.trans ht)
    exact heq

/-- A turn of APPTask while a message is under way: from here on the pipe does what it would do
with another message, which is the accepted one exactly if the turn spares it. -/
lemma Sending.overwrite (h : Sending m s l) (hguard : s.transmitGuard) {b : List UInt8} {k : ℕ}
    (hphase : l.phase = .message b k) (text : List UInt8) :
    ∃ ms b' l', l.accepted = ms ++ [b] ∧ l'.accepted = ms ++ [b'] ∧ l'.phase = .message b' k ∧
      b'.length = b.length ∧ Sending m (Usb.step s (.appTask text)) l' ∧
      (b' = b ↔ s.Spares (.appTask text)) := by
  have hkeeps := h.keeps b k hphase
  have hspares := h.spares_iff hguard hphase text
  obtain ⟨hsends, -⟩ := h.accepted_offer hguard text
  have hframed := h.framed
  cases hframed with
  | idle ms ps hcut => cases hphase
  | terminator ms b₀ sent ps hdvd hcut => cases hphase
  | message ms b₀ k₀ ps hb hk hcut =>
    obtain ⟨rfl, rfl⟩ := Phase.message.inj hphase
    have hle := hkeeps.length_le.trans (length_le_printMsg s text)
    -- the bytes that are out, and the ones the array holds behind them now
    obtain ⟨hlength, htake, hdrop⟩ := take_append_drop_of_length_eq
      (List.length_take_of_le hle) (k₀ * m)
    generalize hb' : b₀.take (k₀ * m) ++ ((s.printMsg text).msg.take b₀.length).drop (k₀ * m) = b'
      at hlength htake hdrop
    have hsame : b'.drop (k₀ * m) = b₀.drop (k₀ * m) ↔ b' = b₀ := by
      refine ⟨fun heq => ?_, fun heq => heq ▸ rfl⟩
      rw [← List.take_append_drop (k₀ * m) b', htake, heq, List.take_append_drop]
    have hb₁ : b' ≠ [] := List.ne_nil_of_length_pos (hlength ▸ List.length_pos_iff.mpr hb)
    refine ⟨ms, b', ⟨.message b' k₀, Link.transfersOf m ms ++ [some b'], ps⟩,
      Link.reduceOption_transfersOf_append m ms _, Link.reduceOption_transfersOf_append m ms _, rfl,
      hlength, ?_, ?_⟩
    · refine h.of_step (e := .appTask text) trivial ⟨?_, ?_, hsends.packets⟩
        (.message ms b' k₀ ps hb₁ (hlength ▸ hk) ?_) ?_
      · refine hsends.phase.trans ?_
        simp only [Link.step, phaseTransfer, hlength]
      · refine hsends.transfers.trans ?_
        simp only [Link.step, lengths_append]
        simp [lengths, hlength]
      · by_cases hlast : k₀ = packetCount m b₀.length
        · -- all packets are out
          have heq : b' = b₀ := by
            rw [← take_packetCount h.pos hb₁ (hlength ▸ hlast.ge), htake,
              take_packetCount h.pos hb hlast.ge]
          rw [heq]
          exact hcut
        · rw [hlength, htake, if_neg fun hand => hlast hand.1]
          exact hcut.trans (if_neg fun hand => hlast hand.1)
      · intro b₁ k₁ hphase₁
        obtain ⟨rfl, rfl⟩ := Phase.message.inj hphase₁
        constructor
        · rw [msg_APPTask hguard, hlength]
          exact hle
        · rw [msg_APPTask hguard, hlength, hdrop]
    · rw [← hsame, hdrop]
      exact hspares.symm

/-- One event of the device that spares the message under way is one of the sender, or none. -/
lemma Sending.step (h : Sending m s l) (hin : e.InSession)
    (htext : ∀ text, e = .appTask text → text ≠ []) (hspares : s.Spares e) :
    ∃ l', Sending m (Usb.step s e) l' ∧
      l'.accepted = l.accepted ++ (acceptedMessage s e).toList := by
  by_cases hconcerns : e.Concerns .bulkIn
  · cases e with
    | appTask text =>
      by_cases hguard : s.transmitGuard
      · obtain ⟨hsends, haccepted⟩ := h.accepted_offer hguard text
        cases hphase : l.phase with
        | message b k =>
          obtain ⟨ms, b', l', hl, hl', -, -, hsending, hsame⟩ := h.overwrite hguard hphase text
          refine ⟨l', hsending, ?_⟩
          rw [← haccepted, Link.accepted_offer, hphase, hl, hl', hsame.mpr hspares]
        | idle =>
          refine ⟨l.step m (.offer text), h.of_step hin hsends ?_ ?_, haccepted⟩
          · refine h.framed.step h.pos _ fun b hb => ?_
            cases hb
            exact htext text rfl
          · intro b k hb
            simp only [Link.step, hphase] at hb
            obtain ⟨rfl, rfl⟩ := Phase.message.inj hb
            exact (keeps_printMsg s m _).of_msg_eq (msg_APPTask hguard _)
        | terminator b sent =>
          have hstep : l.step m (.offer text) = l := by simp only [Link.step, hphase]
          rw [hstep] at hsends haccepted
          refine ⟨l, h.of_step hin hsends h.framed fun b k hb => ?_, haccepted⟩
          exact absurd (hphase.symm.trans hb) (by simp)
      · have hmsg := msg_step (s := s) hin fun _ _ => hguard
        refine ⟨l, h.of_step hin ?_ h.framed fun b k hb => (h.keeps b k hb).of_msg_eq hmsg, ?_⟩
        · simpa only [Usb.step, APPTask, if_neg hguard] using h.sends
        · simp [acceptedMessage, hguard]
    | token p =>
      obtain rfl : p = .bulkIn := hconcerns
      exact ⟨l.step m .poll, h.poll, by simp [acceptedMessage]⟩
    | complete p n =>
      obtain rfl : p = .bulkIn := hconcerns
      exact ⟨l.step m .done, h.done n, by simp [acceptedMessage]⟩
    | _ => exact absurd hconcerns (by simp [Event.Concerns])
  · have hview := view_step h.session.coherent (by decide) hin hconcerns
    have hother : ∀ text, e ≠ .appTask text := by
      rintro text rfl
      exact hconcerns rfl
    have hmsg := msg_step (s := s) hin fun text he => absurd he (hother text)
    refine ⟨l, h.of_step hin (hview ▸ h.sends) h.framed fun b k hb =>
      (h.keeps b k hb).of_msg_eq hmsg, ?_⟩
    cases e with
    | appTask text => exact absurd rfl (hother text)
    | _ => exact (List.append_nil _).symm

/-- The transfers begun and the packets sent on the bulk-IN pipe. -/
def State.bulkInTransfers (s : State) : List ℕ := transferLengths (s.flow.view .bulkIn).trace

def State.bulkInPackets (s : State) : List (List UInt8) := packets (s.flow.view .bulkIn).trace

/-- The host has all messages but at most one, which is under way. -/
def State.Delivered (s : State) (m : ℕ) (accepted : List (List UInt8)) : Prop :=
  accepted = (cut m s.bulkInPackets).1 ∧ (cut m s.bulkInPackets).2 = [] ∨
    ∃ b, accepted = (cut m s.bulkInPackets).1 ++ [b] ∧ (cut m s.bulkInPackets).2 <+: b ∧
      (s.endpoint .bulkIn).transfer ≠ none

/-- Each message takes one transfer, and one empty transfer more exactly if its last packet is
full; only the empty transfer of the message under way may still be to come. -/
def State.Closed (s : State) (m : ℕ) (accepted : List (List UInt8)) : Prop :=
  s.bulkInTransfers <+: lengths (Link.transfersOf m accepted) ∧
    (s.bulkInTransfers ≠ lengths (Link.transfersOf m accepted) → ∃ t,
      (s.endpoint .bulkIn).transfer = some t ∧ t.buffer = .msg ∧ m ∣ t.length)

lemma Sending.delivered (h : Sending m s l) : s.Delivered m l.accepted := by
  have hcut := h.framed.cut_eq
  rw [← h.sends.packets] at hcut
  rcases hcut with hall | ⟨b, haccepted, hrest, hphase⟩
  · exact Or.inl hall
  · refine Or.inr ⟨b, haccepted, hrest, fun hidle => hphase ?_⟩
    exact phaseTransfer_eq_none.mp (h.sends.phase.symm.trans hidle)

lemma Sending.closed (h : Sending m s l) : s.Closed m l.accepted := by
  obtain ⟨hinitial, hnext⟩ := h.framed.transfers_eq
  have htransfers : s.bulkInTransfers = lengths l.transfers := h.sends.transfers
  rw [State.Closed, htransfers]
  refine ⟨hinitial.map _, fun hne => ?_⟩
  obtain ⟨b, k, hphase, hdvd⟩ := hnext fun heq => hne (congrArg lengths heq)
  have htransfer := h.sends.phase
  rw [hphase] at htransfer
  exact ⟨_, htransfer, rfl, hdvd⟩

/-- Whatever number of packets the controller sends after the event, the host can tell the messages
handed over with success apart. -/
def MessagesRecovered (m : ℕ) (x : State × List (List UInt8)) (e : Event) : Prop :=
  ∀ n, ((List.replicate n (.token .bulkIn)).foldl step (acceptedStep x e).1).Delivered m
      (acceptedStep x e).2 ∧
    ((List.replicate n (.token .bulkIn)).foldl step (acceptedStep x e).1).Closed m
      (acceptedStep x e).2

/-- Once another message is in the place of the accepted one, the host gets that. -/
lemma Sending.not_delivered (h : Sending m s l) {ms : List (List UInt8)} {b b' : List UInt8}
    {k : ℕ} (hphase : l.phase = .message b' k) (haccepted : l.accepted = ms ++ [b'])
    (hlength : b'.length = b.length) (hne : b' ≠ b) :
    ∃ n, ¬ ((List.replicate n (.token .bulkIn)).foldl Usb.step s).Delivered m (ms ++ [b]) := by
  obtain ⟨-, -, hb', hk, -⟩ := h.framed.cut_of_message hphase
  have hadd := Nat.add_sub_cancel' hk
  have hpolls := h.polls (packetCount m b'.length - k)
  have hlast := Link.phase_polls hphase hadd.le
  rw [hadd] at hlast
  obtain ⟨ms', hms', -, -, hcut⟩ := hpolls.framed.cut_of_message hlast
  rw [Link.accepted_polls, haccepted] at hms'
  obtain ⟨rfl, -⟩ := List.append_inj' hms' rfl
  rw [← hpolls.sends.packets, take_packetCount h.pos hb' le_rfl] at hcut
  refine ⟨packetCount m b'.length - k, ?_⟩
  generalize (List.replicate _ _).foldl Usb.step s = s' at hcut
  simp only [true_and] at hcut
  rw [State.Delivered, State.bulkInPackets, hcut]
  split_ifs with hdvd
  · rintro (⟨hall, hrest⟩ | ⟨b₀, hall, hrest, -⟩)
    · exact hb' hrest
    · obtain ⟨-, hlast⟩ := List.append_inj' hall rfl
      obtain rfl := List.singleton_inj.mp hlast
      exact hne (hrest.eq_of_length hlength)
  · rintro (⟨hall, hrest⟩ | ⟨b₀, hall, -, -⟩)
    · obtain ⟨-, hlast⟩ := List.append_inj' hall rfl
      exact hne (List.singleton_inj.mp hlast).symm
    · have hlen := congrArg List.length hall
      simp at hlen

/-- What holds along a session whose events spare the messages under way. -/
def Recovering (m : ℕ) (x : State × List (List UInt8)) : Prop :=
  ∃ l, Sending m x.1 l ∧ l.accepted = x.2

/-- Events of a session; APPTask does not print an empty text. -/
def Event.InMessageSession (e : Event) : Prop :=
  e.InSession ∧ ∀ text, e = .appTask text → text ≠ []

lemma Recovering.step {x : State × List (List UInt8)} (h : Recovering m x)
    (he : e.InMessageSession) (hspares : x.1.Spares e) : Recovering m (acceptedStep x e) := by
  obtain ⟨l, h, haccepted⟩ := h
  obtain ⟨l', h', haccepted'⟩ := h.step he.1 he.2 hspares
  exact ⟨l', h', haccepted'.trans (congrArg (· ++ _) haccepted)⟩

/-- Where the host has been able to tell the messages apart, one event spoils it exactly if it
does not spare the message under way. -/
lemma messagesRecovered_iff {x : State × List (List UInt8)} (h : Recovering m x)
    (he : e.InMessageSession) : MessagesRecovered m x e ↔ x.1.Spares e := by
  constructor
  · intro hrecovered
    cases e with
    | appTask text =>
      by_contra hspares
      obtain ⟨l, h, haccepted⟩ := h
      have hguard : x.1.transmitGuard := by
        by_contra hguard
        exact hspares fun h => absurd h hguard
      cases hphase : l.phase with
      | message b k =>
        obtain ⟨ms, b', l', hl, hl', hphase', hlength, hsending, hsame⟩ :=
          h.overwrite hguard hphase text
        obtain ⟨n, hn⟩ := hsending.not_delivered hphase' hl' hlength (mt hsame.mp hspares)
        -- the turn itself hands nothing over
        have hoffer := (h.accepted_offer hguard text).2
        rw [Link.accepted_offer, hphase, haccepted] at hoffer
        refine hn ?_
        rw [← hl, haccepted]
        have hx : (acceptedStep x (.appTask text)).2 = x.2 := hoffer.symm
        exact hx ▸ (hrecovered n).1
      | idle =>
        refine hspares fun _ t ht => ?_
        have htransfer : (x.1.endpoint .bulkIn).transfer = none := by
          rw [← phaseTransfer_eq_none.mpr hphase]
          exact h.sends.phase
        exact absurd (htransfer.symm.trans ht) (by simp)
      | terminator b sent =>
        refine hspares fun _ t ht => ?_
        have htransfer : (x.1.endpoint .bulkIn).transfer = some ⟨.null, 0, sent.toNat⟩ := by
          refine h.sends.phase.trans ?_
          rw [hphase]
          rfl
        obtain rfl := Option.some.inj (htransfer.symm.trans ht)
        rfl
    | _ => trivial
  · intro hspares n
    obtain ⟨l, h, haccepted⟩ := h.step he hspares
    have hpolls := h.polls n
    rw [← haccepted, ← Link.accepted_polls (m := m) n]
    exact ⟨hpolls.delivered, hpolls.closed⟩

/-- In a session of packets of one size, 64 or 512, that begins with an idle bulk-IN pipe, the host
gets exactly the messages that `USB_DeviceCdcAcmSend` has accepted from APPTask by cutting the
packets after each short one, and a message whose last packet is full is closed by one empty
transfer, which nothing follows, exactly if no turn of APPTask prints over what the controller has
still to read of the message under way. -/
theorem messages_recovered_iff (hs : s.Reached) (hconfiguration : s.cdcAcm.configuration = 1)
    (hwilling : s.Willing) (hidle : (s.endpoint .bulkIn).transfer = none) {es : List Event}
    (hes : ∀ e ∈ es, e.InSession) (htext : ∀ text, .appTask text ∈ es → text ≠ []) :
    (s.dicPacketSize 0 = 64 ∨ s.dicPacketSize 0 = 512) ∧
      (EveryStep acceptedStep (MessagesRecovered (s.dicPacketSize 0))
          ({ s with trace := [] }, []) es ↔
        EveryStep acceptedStep (fun x e => x.1.Spares e) ({ s with trace := [] }, []) es) := by
  have hsession := hs.session hconfiguration hwilling
  have hstart : Sending (s.dicPacketSize 0) { s with trace := [] } ⟨.idle, [], []⟩ :=
    ⟨⟨⟨hsession.coherent.linked, hsession.coherent.guarded⟩, hsession.opened, hsession.sized,
      hwilling⟩, rfl, ⟨hidle, rfl, rfl⟩, Link.framed_new, fun _ _ hphase => (by cases hphase)⟩
  refine ⟨s.tables.packetSize_bounds.2, ?_⟩
  refine everyStep_iff_of_inv_on (Recovering (s.dicPacketSize 0)) (D := Event.InMessageSession)
    (fun x e he hx => hx.step he) (fun x e he hx => messagesRecovered_iff hx he)
    (fun e he => ⟨hes e he, fun text heq => htext text (heq ▸ he)⟩) ⟨_, hstart, rfl⟩

/-- A device that has just been configured. -/
def configured : State :=
  [Event.setAddress 5, .setConfiguration 1].foldl step
    (USB_DeviceApplicationInit ⟨[], false, 0, 0⟩ fun _ => .Success)

lemma idle_configured : (configured.endpoint .bulkIn).transfer = none :=
  idle_setConfiguration ((coherent_init _ _).step (.setAddress 5)) (by decide) (by decide)
    (by decide) (by decide)

/-- A message that fills its packet, a turn of APPTask after the packet is out, and the empty
transfer. -/
theorem messages_recovered_full :
    EveryStep acceptedStep (MessagesRecovered 64) ({ configured with trace := [] }, [])
      [.setControlLineState 3 0, .appTask (List.replicate 64 7), .token .bulkIn, .appTask [9],
        .complete .bulkIn 0, .token .bulkIn, .complete .bulkIn 0] := by
  have hs : configured.Reached := ⟨_, _, _, rfl⟩
  have hes : ∀ e ∈ [Event.setControlLineState 3 0, .appTask (List.replicate 64 7), .token .bulkIn,
      .appTask [9], .complete .bulkIn 0, .token .bulkIn, .complete .bulkIn 0], e.InSession := by
    decide
  have htext : ∀ text, Event.appTask text ∈ [Event.setControlLineState 3 0,
      .appTask (List.replicate 64 7), .token .bulkIn, .appTask [9], .complete .bulkIn 0,
      .token .bulkIn, .complete .bulkIn 0] → text ≠ [] := by
    intro text htext
    simp only [List.mem_cons, List.not_mem_nil, or_false, reduceCtorEq, false_or,
      Event.appTask.injEq] at htext
    rcases htext with rfl | rfl <;> decide
  exact (messages_recovered_iff hs (by decide) (fun _ => rfl) idle_configured hes htext).2.mpr
    (by decide)

/-- The host has not read the first message when APPTask prints the next one: the second turn is
refused, and the host gets its text in place of the accepted one. -/
theorem message_overwritten :
    ([.setControlLineState 3 0, .appTask [1], .appTask [2], .token .bulkIn].foldl acceptedStep
      ({ configured with trace := [] }, [])).2 = [[1]] ∧
    ([.setControlLineState 3 0, .appTask [1], .appTask [2], .token .bulkIn].foldl step
      { configured with trace := [] }).bulkInPackets = [[2]] ∧
    ¬ EveryStep acceptedStep (MessagesRecovered 64) ({ configured with trace := [] }, [])
      [.setControlLineState 3 0, .appTask [1], .appTask [2]] := by
  refine ⟨by decide, by decide, fun h => ?_⟩
  obtain ⟨-, -, hlast, -⟩ := h
  rcases (hlast 1).1 with ⟨hall, -⟩ | ⟨b, hall, -, -⟩
  · exact absurd hall (by decide)
  · have hlength := congrArg List.length hall
    rw [List.length_append, List.length_singleton] at hlength
    exact absurd hlength (by decide)

end RT1064.Usb
