import RT1064.Usb.VirtualCom

/-!
# The set-up of the device

Everything that transfers do not change: device state, the flags of the application, the
configuration of the class, which endpoints are open and whose callback they call. On this part
each step of the device has one outcome, whatever the controller answers.
-/

namespace RT1064.Usb

open Core

/-- What transfers do not change. -/
structure Setup where
  state : DeviceState
  cdcVcom : CdcVcom
  acmInfo : AcmInfo
  msg : List UInt8
  tables : Tables
  configuration : UInt8
  alternate : UInt8
  interfaceNumber : UInt8
  commInterfaceHandle : Bool
  dataInterfaceHandle : Bool
  ep : Endpoint → UInt8
  isOpened : UInt8 → Bool
  maxPacketSize : UInt8 → UInt16
  callbackFn : UInt8 → Option Endpoint

def State.setup (s : State) : Setup where
  state := s.state
  cdcVcom := s.cdcVcom
  acmInfo := s.acmInfo
  msg := s.msg
  tables := s.tables
  configuration := s.cdcAcm.configuration
  alternate := s.cdcAcm.alternate
  interfaceNumber := s.cdcAcm.interfaceNumber
  commInterfaceHandle := s.cdcAcm.commInterfaceHandle
  dataInterfaceHandle := s.cdcAcm.dataInterfaceHandle
  ep p := (s.pipe p).ep
  isOpened a := (s.endpoints a).isOpened
  maxPacketSize a := (s.endpoints a).maxPacketSize
  callbackFn a := (s.endpoints a).callbackFn

variable {s : State} {a : UInt8} {p : Endpoint} {buffer : Buffer} {length : ℕ}

/-! ### Transfers -/

/-- Projections of an updated function. -/
lemma map_update {α β γ : Type*} [DecidableEq α] (g : β → γ) (f : α → β) (a : α) (b : β) :
    (fun i => g (Function.update f a b i)) = Function.update (fun i => g (f i)) a (g b) :=
  Function.comp_update g f a b

/-- Change what the set-up has of an endpoint. -/
def Setup.setEndpoint (t : Setup) (a : UInt8) (isOpened : Bool) (maxPacketSize : UInt16)
    (callbackFn : Option Endpoint) : Setup :=
  { t with
    isOpened := Function.update t.isOpened a isOpened
    maxPacketSize := Function.update t.maxPacketSize a maxPacketSize
    callbackFn := Function.update t.callbackFn a callbackFn }

def Setup.setEp (t : Setup) (p : Endpoint) (ep : UInt8) : Setup :=
  { t with ep := Function.update t.ep p ep }

@[simp] lemma Setup.setEndpoint_setEndpoint (t : Setup) (b b' : Bool) (n n' : UInt16)
    (c c' : Option Endpoint) :
    (t.setEndpoint a b n c).setEndpoint a b' n' c' = t.setEndpoint a b' n' c' := by
  simp [Setup.setEndpoint]

@[simp] lemma Setup.setEndpoint_self (t : Setup) :
    t.setEndpoint a (t.isOpened a) (t.maxPacketSize a) (t.callbackFn a) = t := by
  simp [Setup.setEndpoint]

lemma setup_modifyEndpoint (f : EndpointState → EndpointState) :
    (s.modifyEndpoint a f).setup = s.setup.setEndpoint a (f (s.endpoints a)).isOpened
      (f (s.endpoints a)).maxPacketSize (f (s.endpoints a)).callbackFn := by
  simp only [State.setup, State.modifyEndpoint, Setup.setEndpoint, map_update]

/-- Changes to the transfer and the busy flag of an endpoint are not seen. -/
@[simp] lemma setup_modifyEndpoint_of (f : EndpointState → EndpointState)
    (hf : ∀ e, (f e).isOpened = e.isOpened ∧ (f e).maxPacketSize = e.maxPacketSize ∧
      (f e).callbackFn = e.callbackFn) : (s.modifyEndpoint a f).setup = s.setup := by
  obtain ⟨hopened, hsize, hcallback⟩ := hf (s.endpoints a)
  rw [setup_modifyEndpoint, hopened, hsize, hcallback]
  exact s.setup.setEndpoint_self

lemma setup_modifyPipe (f : Pipe → Pipe) :
    (s.modifyPipe p f).setup = s.setup.setEp p (f (s.pipe p)).ep := by
  simp only [State.setup, State.modifyPipe, State.pipe, Setup.setEp, map_update]

@[simp] lemma setup_modifyPipe_of (f : Pipe → Pipe) (hf : ∀ v, (f v).ep = v.ep) :
    (s.modifyPipe p f).setup = s.setup := by
  rw [setup_modifyPipe, hf, Setup.setEp]
  simp only [State.setup, Function.update_eq_self_iff.mpr]

@[simp] lemma setup_observe (o : Observation) : (s.observe o).setup = s.setup := rfl

@[simp] lemma setup_ehciTransfer :
    (USB_DeviceEhciTransfer s a buffer length).2.setup = s.setup := by
  simp only [USB_DeviceEhciTransfer]
  split_ifs
  · rfl
  · simp only [setup_observe]
    exact setup_modifyEndpoint_of (fun e => { e with transfer := some { buffer, length } })
      fun _ => ⟨rfl, rfl, rfl⟩
  · rfl

@[simp] lemma setup_transfer : (USB_DeviceTransfer s a buffer length).2.setup = s.setup := by
  simp only [USB_DeviceTransfer]
  split_ifs <;> simp

lemma setup_prime {request : State → Buffer → ℕ → UsbStatus × State}
    (hrequest : ∀ s buffer length, (request s buffer length).2.setup = s.setup) :
    (prime request s p buffer length).2.setup = s.setup := by
  simp only [prime]
  split_ifs <;> simp [hrequest]

@[simp] lemma setup_send (ep : UInt8) :
    (USB_DeviceCdcAcmSend s ep buffer length).2.setup = s.setup := by
  simp only [USB_DeviceCdcAcmSend]
  split_ifs
  · exact setup_prime fun _ _ _ => setup_transfer
  · exact setup_prime fun _ _ _ => setup_transfer
  · rfl

@[simp] lemma setup_recv (ep : UInt8) :
    (USB_DeviceCdcAcmRecv s ep buffer length).2.setup = s.setup :=
  setup_prime fun _ _ _ => setup_transfer

@[simp] lemma setup_scheduleReceive : s.scheduleReceive.setup = s.setup := setup_recv _

@[simp] lemma setup_callback (epCbParam : EndpointCallbackMessage) :
    (USB_DeviceCdcVcomCallback s p epCbParam).setup = s.setup := by
  cases p with
  | interruptIn => rfl
  | bulkIn =>
    simp only [USB_DeviceCdcVcomCallback, sendResponse]
    split_ifs <;> simp
  | bulkOut =>
    simp only [USB_DeviceCdcVcomCallback, recvResponse]
    split_ifs
    · rw [setup_scheduleReceive]
      rfl
    · rfl
    · rfl

@[simp] lemma setup_notification (message : EndpointCallbackMessage) :
    (USB_DeviceNotification s a message).setup = s.setup := by
  simp only [USB_DeviceNotification]
  split
  · rfl
  · simp [pipeCallback]

@[simp] lemma setup_cancel : (USB_DeviceEhciCancel s a).setup = s.setup := by
  simp only [USB_DeviceEhciCancel]
  split
  · rfl
  · simp

lemma setup_tokenDone (n : ℕ) : (USB_DeviceEhciInterruptTokenDone s p n).setup = s.setup := by
  simp only [USB_DeviceEhciInterruptTokenDone]
  split
  · rfl
  · split_ifs <;> simp

lemma setup_sendPacket : (sendPacket s p).setup = s.setup := by
  simp only [sendPacket]
  split
  · rfl
  · split_ifs <;> simp

/-! ### Endpoints -/

lemma setup_ehciDeinit : (USB_DeviceEhciEndpointDeinit s a).setup =
    s.setup.setEndpoint a false (s.setup.maxPacketSize a) (s.setup.callbackFn a) := by
  rw [USB_DeviceEhciEndpointDeinit, setup_cancel, setup_modifyEndpoint]
  rfl

/-- The set-up has what is fixed of the endpoint states. -/
lemma endpoints_setup : (s.endpoints a).isOpened = s.setup.isOpened a ∧
    (s.endpoints a).maxPacketSize = s.setup.maxPacketSize a ∧
    (s.endpoints a).callbackFn = s.setup.callbackFn a := ⟨rfl, rfl, rfl⟩

lemma setup_deinit : (USB_DeviceDeinitEndpoint s a).setup =
    s.setup.setEndpoint a false (s.setup.maxPacketSize a) none := by
  rw [USB_DeviceDeinitEndpoint, setup_modifyEndpoint]
  simp only [endpoints_setup, setup_ehciDeinit, Setup.setEndpoint_setEndpoint]
  simp [Setup.setEndpoint]

lemma setup_init (e : EndpointStruct) (callbackFn : Option Endpoint) :
    (USB_DeviceInitEndpoint s e callbackFn).setup = s.setup.setEndpoint e.endpointAddress true
      (e.maxPacketSize &&& USB_DESCRIPTOR_ENDPOINT_MAXPACKETSIZE_SIZE_MASK) callbackFn := by
  rw [USB_DeviceInitEndpoint, USB_DeviceEhciEndpointInit, setup_modifyEndpoint]
  simp only [endpoints_setup, setup_cancel, setup_modifyEndpoint, Setup.setEndpoint_setEndpoint]
  simp [Setup.setEndpoint]

/-! ### The class -/

/-- The maximum packet size the tables have for an endpoint. -/
def Tables.packetSize (t : Tables) : Endpoint → UInt16
  | .interruptIn => (t.1.cicEndpoints[0]?.map EndpointStruct.maxPacketSize).getD 0
  | .bulkIn      => t.1.dicPacketSize 0
  | .bulkOut     => t.1.dicPacketSize 1

/-- The tables have one entry for each endpoint. -/
lemma Tables.entries (t : Tables) : ∃ e : Endpoint → EndpointStruct,
    t.1.cicEndpoints = [e .interruptIn] ∧ t.1.dicEndpoints = [e .bulkIn, e .bulkOut] ∧
      ∀ p, (e p).endpointAddress = p.address ∧ (e p).pipe? = some p ∧
        (e p).maxPacketSize = t.packetSize p ∧
        (e p).maxPacketSize &&& USB_DESCRIPTOR_ENDPOINT_MAXPACKETSIZE_SIZE_MASK =
          (e p).maxPacketSize := by
  obtain ⟨v, hv, hcic, hdic⟩ := t.2.endpoints
  refine ⟨fun p => match p with
    | .interruptIn => setCicEndpoint v ⟨Endpoint.interruptIn.address, USB_ENDPOINT_INTERRUPT, 0, 0⟩
    | .bulkIn      => setDicEndpoint v ⟨Endpoint.bulkIn.address, USB_ENDPOINT_BULK, 0, 0⟩
    | .bulkOut     => setDicEndpoint v ⟨Endpoint.bulkOut.address, USB_ENDPOINT_BULK, 0, 0⟩,
    hcic, hdic, fun p => ?_⟩
  have hsize : t.packetSize p = match p with
      | .interruptIn => v.interruptInPacketSize
      | .bulkIn      => v.bulkInPacketSize
      | .bulkOut     => v.bulkOutPacketSize := by
    cases p <;> simp only [Tables.packetSize, Descriptors.dicPacketSize, hcic, hdic] <;> rfl
  rw [hsize]
  rcases hv with rfl | rfl <;> cases p <;> decide

/-- Open the endpoint of pipe `p`. -/
def Setup.openPipe (t : Setup) (p : Endpoint) : Setup :=
  (t.setEp p p.number).setEndpoint p.address true (t.tables.packetSize p) (some p)

/-- Close it. -/
def Setup.closePipe (t : Setup) (p : Endpoint) : Setup :=
  t.setEndpoint p.address false (t.maxPacketSize p.address) none

/-- Opening and closing pipes is a matter of the pipes. -/
@[simp] lemma Setup.openPipe_rest (t : Setup) : (t.openPipe p).state = t.state ∧
    (t.openPipe p).cdcVcom = t.cdcVcom ∧ (t.openPipe p).tables = t.tables ∧
    (t.openPipe p).configuration = t.configuration ∧
    (t.openPipe p).interfaceNumber = t.interfaceNumber ∧
    (t.openPipe p).commInterfaceHandle = t.commInterfaceHandle ∧
    (t.openPipe p).dataInterfaceHandle = t.dataInterfaceHandle :=
  ⟨rfl, rfl, rfl, rfl, rfl, rfl, rfl⟩

@[simp] lemma Setup.closePipe_rest (t : Setup) : (t.closePipe p).state = t.state ∧
    (t.closePipe p).cdcVcom = t.cdcVcom ∧ (t.closePipe p).tables = t.tables ∧
    (t.closePipe p).configuration = t.configuration ∧
    (t.closePipe p).interfaceNumber = t.interfaceNumber ∧
    (t.closePipe p).commInterfaceHandle = t.commInterfaceHandle ∧
    (t.closePipe p).dataInterfaceHandle = t.dataInterfaceHandle :=
  ⟨rfl, rfl, rfl, rfl, rfl, rfl, rfl⟩

lemma address_number : p.address &&& USB_ENDPOINT_NUMBER_MASK = p.number := by
  cases p <;> decide

/-- A turn of the loops of `USB_DeviceCdcAcmEndpointsInit`. -/
lemma setup_initPipe {known : Endpoint → Bool} {r : State × Option Endpoint} {e : EndpointStruct}
    (hknown : known p) (he : e.endpointAddress = p.address ∧ e.pipe? = some p ∧
      e.maxPacketSize = r.1.tables.packetSize p ∧
      e.maxPacketSize &&& USB_DESCRIPTOR_ENDPOINT_MAXPACKETSIZE_SIZE_MASK = e.maxPacketSize) :
    (initPipe known r e).1.setup = r.1.setup.openPipe p := by
  obtain ⟨haddress, hpipe, hsize, hmask⟩ := he
  simp only [initPipe, hpipe, Option.filter_some, hknown, if_true]
  rw [setup_init, setup_modifyPipe, haddress, hmask, hsize]
  simp only [address_number]
  rfl

/-- `USB_DeviceCdcAcmEndpointsInit` for the configuration it knows. -/
lemma setup_endpointsInit (hconfiguration : s.cdcAcm.configuration = 1)
    (halternate : s.cdcAcm.alternate = 0) :
    (USB_DeviceCdcAcmEndpointsInit s).setup =
      (({ s.setup with
          interfaceNumber := USB_CDC_VCOM_COMM_INTERFACE_INDEX
          commInterfaceHandle := true
          dataInterfaceHandle := true }.openPipe .interruptIn).openPipe .bulkIn).openPipe
        .bulkOut := by
  obtain ⟨e, hcic, hdic, he⟩ := s.tables.entries
  have hknown : ¬ (s.cdcAcm.configuration = 0 ∨
      USB_CDC_VCOM_CONFIGURATIONS < s.cdcAcm.configuration) := by
    rw [hconfiguration]
    decide
  simp only [USB_DeviceCdcAcmEndpointsInit, if_neg hknown, halternate, hcic, ne_eq,
    not_true_eq_false, if_false, List.foldl_cons, List.foldl_nil]
  generalize hr : initPipe _ _ (e .interruptIn) = r
  have hsetup := congrArg (fun r => r.1.setup) hr
  rw [setup_initPipe (p := .interruptIn) (by decide) (he _)] at hsetup
  have htables : r.1.tables = s.tables := (congrArg Setup.tables hsetup).symm
  have hdic' : r.1.tables.1.dicEndpoints = [e .bulkIn, e .bulkOut] := by
    rw [htables]
    exact hdic
  simp only [hdic', List.foldl_cons, List.foldl_nil]
  generalize hr' : initPipe _ _ (e .bulkIn) = r'
  have hsetup' := congrArg (fun r => r.1.setup) hr'
  rw [setup_initPipe (p := .bulkIn) (by decide) (htables ▸ he .bulkIn)] at hsetup'
  have htables' : r'.1.tables = s.tables := (congrArg Setup.tables hsetup').symm.trans htables
  rw [setup_initPipe (p := .bulkOut) (by decide) (htables' ▸ he .bulkOut), ← hsetup']
  have hdata : ∀ t : State, ({ t with cdcAcm := { t.cdcAcm with
      dataInterfaceHandle := true } } : State).setup =
        { t.setup with dataInterfaceHandle := true } := fun _ => rfl
  simp only [hdata, ← hsetup]
  simp only [State.setup, halternate]
  rfl

/-! ### Steps of the set-up -/

namespace Setup

variable (t : Setup)

/-- The set-up after `USB_DeviceCdcAcmEndpointsDeinit`. -/
def endpointsDeinit : Setup :=
  if t.commInterfaceHandle = false ∨ t.dataInterfaceHandle = false then t
  else
    { ((t.closePipe .interruptIn).closePipe .bulkIn).closePipe .bulkOut with
      commInterfaceHandle := false
      dataInterfaceHandle := false }

/-- The set-up after `USB_DeviceCdcAcmEndpointsInit`, which knows configuration 1 only. -/
def endpointsInit : Setup :=
  if t.configuration = 1 then
    (({ t with
        interfaceNumber := USB_CDC_VCOM_COMM_INTERFACE_INDEX
        commInterfaceHandle := true
        dataInterfaceHandle := true }.openPipe .interruptIn).openPipe .bulkIn).openPipe .bulkOut
  else t

/-- The class gets a new configuration. -/
def setConfiguration (v : UInt8) : Setup :=
  if v = t.configuration then t
  else { t.endpointsDeinit with configuration := v, alternate := 0 }.endpointsInit

/-- The application gets it; it does not know what the class made of it. -/
def attachTo (v : UInt8) : Setup :=
  if v = 0 then { t with cdcVcom :=
    { t.cdcVcom with attach := false, currentConfiguration := 0 } }
  else if v = USB_CDC_VCOM_CONFIGURE_INDEX then { t with cdcVcom :=
    { t.cdcVcom with attach := true, currentConfiguration := v } }
  else t

/-- An attached application starts to send. -/
def start : Setup :=
  if t.cdcVcom.attach then { t with cdcVcom := { t.cdcVcom with startTransactions := true } }
  else t

/-- A turn of APPTask that may send prints its text first. -/
def appTask (text : List UInt8) : Setup :=
  if t.cdcVcom.attach && t.cdcVcom.startTransactions then
    { t with msg := text ++ 0 :: t.msg.drop (text.length + 1) }
  else t

/-- The control pipe hands a SET_CONFIGURATION on. -/
def Delivers : Prop := t.state = .Address ∨ t.state = .Configured

instance : Decidable t.Delivers := inferInstanceAs (Decidable (_ ∨ _))

def step : Event → Setup
  | .busReset speed =>
    { t with
      state := .Default
      configuration := 0
      cdcVcom := { t.cdcVcom with
        attach := false, currentConfiguration := 0, speed := speed.getD t.cdcVcom.speed }
      tables := speed.elim t.tables t.tables.setSpeed
      isOpened := fun _ => false
      maxPacketSize := fun _ => USB_CONTROL_MAX_PACKET_SIZE
      callbackFn := fun _ => none }
  | .setAddress wValue =>
    if (t.state = .Address ∨ t.state = .Default) ∧ wValue.toUInt8 < 0x80 then
      { t with state := .Address }
    else t
  | .setConfiguration wValue =>
    if t.Delivers then
      ({ t with state := if wValue = 0 then .Address else .Configured }.setConfiguration
        wValue.toUInt8).attachTo wValue.toUInt8
    else t
  | .setControlLineState wValue wIndex =>
    if wIndex.toUInt8 ≠ t.interfaceNumber then t
    else { t with acmInfo := t.acmInfo.update wValue wIndex }.start
  | .appTask text => t.appTask text
  | _ => t

end Setup

namespace Setup

variable {t : Setup}

@[simp] lemma endpointsInit_rest : t.endpointsInit.state = t.state ∧
    t.endpointsInit.cdcVcom = t.cdcVcom ∧ t.endpointsInit.tables = t.tables ∧
    t.endpointsInit.configuration = t.configuration := by
  simp only [endpointsInit]
  split_ifs <;> simp

@[simp] lemma endpointsDeinit_rest : t.endpointsDeinit.state = t.state ∧
    t.endpointsDeinit.cdcVcom = t.cdcVcom ∧ t.endpointsDeinit.tables = t.tables ∧
    t.endpointsDeinit.interfaceNumber = t.interfaceNumber := by
  simp only [endpointsDeinit]
  split_ifs <;> simp

/-- The class takes whatever value comes, and leaves device and application alone. -/
@[simp] lemma setConfiguration_rest (v : UInt8) : (t.setConfiguration v).state = t.state ∧
    (t.setConfiguration v).cdcVcom = t.cdcVcom ∧ (t.setConfiguration v).tables = t.tables ∧
    (t.setConfiguration v).configuration = v := by
  simp only [setConfiguration]
  split_ifs with hv
  · simp [hv]
  · simp

/-- The application has flags of its own only. -/
@[simp] lemma attachTo_rest (v : UInt8) : (t.attachTo v).state = t.state ∧
    (t.attachTo v).tables = t.tables ∧ (t.attachTo v).configuration = t.configuration ∧
    (t.attachTo v).interfaceNumber = t.interfaceNumber ∧
    (t.attachTo v).cdcVcom.startTransactions = t.cdcVcom.startTransactions := by
  simp only [attachTo]
  split_ifs <;> simp

lemma attach_attachTo (v : UInt8) : (t.attachTo v).cdcVcom.attach =
    if v = 0 then false else if v = USB_CDC_VCOM_CONFIGURE_INDEX then true
    else t.cdcVcom.attach := by
  simp only [attachTo]
  split_ifs <;> rfl

end Setup

lemma setup_endpointsDeinit : (USB_DeviceCdcAcmEndpointsDeinit s).setup =
    s.setup.endpointsDeinit := by
  obtain ⟨e, hcic, hdic, he⟩ := s.tables.entries
  by_cases hhandles : s.cdcAcm.commInterfaceHandle = false ∨ s.cdcAcm.dataInterfaceHandle = false
  · rw [USB_DeviceCdcAcmEndpointsDeinit, if_pos hhandles]
    exact (if_pos hhandles).symm
  · simp only [USB_DeviceCdcAcmEndpointsDeinit, if_neg hhandles, hcic, hdic, List.cons_append,
      List.nil_append, List.foldl_cons, List.foldl_nil, he]
    generalize hr : USB_DeviceDeinitEndpoint _ Endpoint.bulkOut.address = r
    have hsetup := congrArg State.setup hr
    simp only [setup_deinit] at hsetup
    rw [Setup.endpointsDeinit, if_neg (show ¬ (s.setup.commInterfaceHandle = false ∨
      s.setup.dataInterfaceHandle = false) from hhandles)]
    simp only [Setup.closePipe]
    rw [hsetup]
    rfl

lemma setup_endpointsInit_eq (halternate : s.cdcAcm.alternate = 0) :
    (USB_DeviceCdcAcmEndpointsInit s).setup = s.setup.endpointsInit := by
  by_cases hone : s.cdcAcm.configuration = 1
  · rw [setup_endpointsInit hone halternate, Setup.endpointsInit,
      if_pos (show s.setup.configuration = 1 from hone)]
  · have hunknown : s.cdcAcm.configuration = 0 ∨
        USB_CDC_VCOM_CONFIGURATIONS < s.cdcAcm.configuration := by
      have hne : s.cdcAcm.configuration.toNat ≠ 1 := fun h => hone (UInt8.toNat_inj.mp h)
      rw [UInt8.lt_iff_toNat_lt, ← UInt8.toNat_inj]
      simp only [USB_CDC_VCOM_CONFIGURATIONS, UInt8.reduceToNat]
      omega
    rw [USB_DeviceCdcAcmEndpointsInit, if_pos hunknown, Setup.endpointsInit,
      if_neg (show ¬ s.setup.configuration = 1 from hone)]

lemma setup_setConfiguration (v : UInt8) :
    (USB_DeviceCdcAcmSetConfiguration s v).setup = s.setup.setConfiguration v := by
  by_cases hv : v = s.cdcAcm.configuration
  · rw [USB_DeviceCdcAcmSetConfiguration, if_pos hv]
    exact (if_pos hv).symm
  · simp only [USB_DeviceCdcAcmSetConfiguration, if_neg hv]
    rw [setup_endpointsInit_eq rfl, Setup.setConfiguration,
      if_neg (show ¬ v = s.setup.configuration from hv), ← setup_endpointsDeinit]
    rfl

lemma setup_callbackSetConfiguration (v : UInt8) :
    (USB_DeviceCallbackSetConfiguration s v).2.setup = s.setup.attachTo v := by
  simp only [USB_DeviceCallbackSetConfiguration, Setup.attachTo]
  split_ifs
  · rfl
  · rw [setup_scheduleReceive]
    rfl
  · rfl

lemma setup_resetNotification (speed : Option UInt8) :
    (USB_DeviceResetNotification s speed).setup = s.setup.step (.busReset speed) := by
  simp only [USB_DeviceResetNotification, List.foldl_cons, List.foldl_nil]
  generalize hr : USB_DeviceEhciEndpointDeinit _ Endpoint.bulkOut.address = r
  have hsetup := congrArg State.setup hr
  simp only [setup_ehciDeinit] at hsetup
  -- what the cancelled transfers leave of the set-up is what the reset overwrites
  have hreset : State.setup { r with
      state := .Default
      endpoints := fun _ => { maxPacketSize := USB_CONTROL_MAX_PACKET_SIZE }
      cdcAcm := { r.cdcAcm with configuration := 0 }
      cdcVcom := { r.cdcVcom with
        attach := false, currentConfiguration := 0, speed := speed.getD r.cdcVcom.speed }
      tables := speed.elim r.tables r.tables.setSpeed } = r.setup.step (.busReset speed) := rfl
  rw [hreset, ← hsetup]
  rfl

lemma setup_notifyLineState : (notifyLineState s).setup = s.setup := by
  simp only [notifyLineState]
  split_ifs
  · rfl
  · exact setup_send (s := s) USB_CDC_VCOM_INTERRUPT_IN_ENDPOINT
  · exact setup_send (s := s) USB_CDC_VCOM_INTERRUPT_IN_ENDPOINT

lemma setup_setControlLineState (wValue wIndex : UInt16) :
    (setControlLineState s wValue wIndex).setup =
      { s.setup with acmInfo := s.acmInfo.update wValue wIndex }.start := by
  have hsetup := setup_notifyLineState
    (s := { s with acmInfo := s.acmInfo.update wValue wIndex })
  simp only [setControlLineState]
  generalize notifyLineState _ = r at hsetup ⊢
  have hstart : State.setup (if r.cdcVcom.attach then
      { r with cdcVcom := { r.cdcVcom with startTransactions := true } } else r) =
        r.setup.start := by
    rw [apply_ite State.setup]
    rfl
  rw [hstart, hsetup]
  rfl

lemma setup_APPTask (text : List UInt8) : (APPTask s text).setup = s.setup.appTask text := by
  by_cases hguard : s.transmitGuard
  · rw [APPTask, if_pos hguard, setup_send]
    exact (if_pos hguard).symm
  · rw [APPTask, if_neg hguard]
    exact (if_neg hguard).symm

/-- Each step of the device is one of its set-up. -/
theorem setup_step (s : State) (e : Event) : (step s e).setup = s.setup.step e := by
  cases e with
  | busReset speed => exact setup_resetNotification speed
  | setAddress wValue =>
    by_cases h : (s.state = .Address ∨ s.state = .Default) ∧ wValue.toUInt8 < 0x80
    · rw [step, USB_DeviceCh9SetAddress, if_pos h]
      exact (if_pos h).symm
    · rw [step, USB_DeviceCh9SetAddress, if_neg h]
      exact (if_neg h).symm
  | setConfiguration wValue =>
    by_cases h : s.state = .Address ∨ s.state = .Configured
    · simp only [step, USB_DeviceCh9SetConfiguration, if_pos h]
      rw [setup_callbackSetConfiguration, setup_setConfiguration, Setup.step,
        if_pos (show s.setup.Delivers from h)]
      rfl
    · rw [step, USB_DeviceCh9SetConfiguration, if_neg h]
      exact (if_neg h).symm
  | setControlLineState wValue wIndex =>
    by_cases h : wIndex.toUInt8 ≠ s.cdcAcm.interfaceNumber
    · rw [step, USB_DeviceCdcAcmSetControlLineState, if_pos h]
      exact (if_pos h).symm
    · rw [step, USB_DeviceCdcAcmSetControlLineState, if_neg h, setup_setControlLineState]
      exact (if_neg h).symm
  | appTask text => exact setup_APPTask text
  | token p => exact setup_sendPacket
  | complete p n => exact setup_tokenDone n

end RT1064.Usb
