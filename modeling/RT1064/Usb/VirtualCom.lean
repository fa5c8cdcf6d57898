import RT1064.Usb.Device

/-!
# The virtual COM port

The callbacks of the application and of the CDC class, from the end of a transfer up and from a
control request down, and one step of the whole device.
-/

namespace RT1064.Usb

open Core

/-! ### Constants -/

def NOTIF_REQUEST_TYPE : UInt8 := 0xA1
def NOTIF_PACKET_SIZE : ℕ := 0x08
def UART_BITMAP_SIZE : ℕ := 0x02
def USB_DEVICE_CDC_NOTIF_SERIAL_STATE : UInt8 := 0x20
def USB_DEVICE_CDC_CONTROL_SIG_BITMAP_CARRIER_ACTIVATION : UInt8 := 0x02
def USB_DEVICE_CDC_CONTROL_SIG_BITMAP_DTE_PRESENCE : UInt8 := 0x01
def USB_DEVICE_CDC_UART_STATE_RX_CARRIER : UInt16 := 0x01
def USB_DEVICE_CDC_UART_STATE_TX_CARRIER : UInt16 := 0x02
def USB_CDC_VCOM_COMM_INTERFACE_INDEX : UInt8 := 0
def USB_CDC_VCOM_CONFIGURATIONS : UInt8 := 1
def USB_CANCELLED_TRANSFER_LENGTH : ℕ := 0xFFFFFFFF
def USB_CONTROL_MAX_PACKET_SIZE : UInt16 := 64
def USB_DESCRIPTOR_ENDPOINT_MAXPACKETSIZE_SIZE_MASK : UInt16 := 0x07FF

/-! ### Events of the class -/

/-- `usb_device_endpoint_callback_message_struct_t`. -/
structure EndpointCallbackMessage where
  buffer : Buffer
  length : ℕ

/-- APPTask may send. -/
def State.transmitGuard (s : State) : Bool := s.cdcVcom.attach && s.cdcVcom.startTransactions

/-- Schedule the receive buffer, as three places do. -/
def State.scheduleReceive (s : State) : State :=
  (USB_DeviceCdcAcmRecv s USB_CDC_VCOM_BULK_OUT_ENDPOINT .currRecvBuf (s.dicPacketSize 1)).2

/-- `kUSB_DeviceCdcEventSendResponse`. -/
def sendResponse (s : State) (epCbParam : EndpointCallbackMessage) : State :=
  if epCbParam.length ≠ 0 ∧ epCbParam.length % s.dicPacketSize 0 = 0 then
    -- the last packet was full, so an empty one has to follow
    (USB_DeviceCdcAcmSend s USB_CDC_VCOM_BULK_IN_ENDPOINT .null 0).2
  else if s.transmitGuard then
    if epCbParam.buffer ≠ .null ∨ epCbParam.buffer = .null ∧ epCbParam.length = 0 then
      s.scheduleReceive
    else s
  else s

/-- `kUSB_DeviceCdcEventRecvResponse`. -/
def recvResponse (s : State) (epCbParam : EndpointCallbackMessage) : State :=
  if s.transmitGuard then
    let s := { s with recvSize := epCbParam.length }
    if s.recvSize = 0 then s.scheduleReceive else s
  else s

/-- `kUSB_DeviceCdcEventSerialStateNotif`. -/
def serialStateNotif (s : State) : State :=
  { s with cdcAcm := { s.cdcAcm with hasSentState := false } }

/-- Set or clear one bit of `uartState`. -/
def setCarrier (uartState : UInt16) (carrier : UInt16) (active : Bool) : UInt16 :=
  if active then uartState ||| carrier else uartState &&& ~~~carrier

/-- `acmInfo` after a SET_CONTROL_LINE_STATE. -/
def AcmInfo.update (acmInfo : AcmInfo) (setupValue interfaceIndex : UInt16) : AcmInfo :=
  let dteStatus := setupValue.toUInt8
  let carrier := dteStatus &&& USB_DEVICE_CDC_CONTROL_SIG_BITMAP_CARRIER_ACTIVATION ≠ 0
  let dte := dteStatus &&& USB_DEVICE_CDC_CONTROL_SIG_BITMAP_DTE_PRESENCE ≠ 0
  let uartState := setCarrier acmInfo.uartState USB_DEVICE_CDC_UART_STATE_TX_CARRIER carrier
  let uartState := setCarrier uartState USB_DEVICE_CDC_UART_STATE_RX_CARRIER dte
  { dteStatus, uartState
    dtePresent := dte
    serialStateBuf :=
      [NOTIF_REQUEST_TYPE, USB_DEVICE_CDC_NOTIF_SERIAL_STATE, 0x00, 0x00, interfaceIndex.toUInt8,
        0x00, UInt8.ofNat UART_BITMAP_SIZE, 0x00] ++ shortBytes uartState }

/-- The notification part of `kUSB_DeviceCdcEventSetControlLineState`. -/
def notifyLineState (s : State) : State :=
  if s.cdcAcm.hasSentState then s
  else
    let r := USB_DeviceCdcAcmSend s USB_CDC_VCOM_INTERRUPT_IN_ENDPOINT .serialStateBuf
      (NOTIF_PACKET_SIZE + UART_BITMAP_SIZE)
    let s := if r.1 ≠ .Success then
        r.2.observe (.usb_echo "kUSB_DeviceCdcEventSetControlLineState error!")
      else r.2
    { s with cdcAcm := { s.cdcAcm with hasSentState := true } }

/-- `kUSB_DeviceCdcEventSetControlLineState`. -/
def setControlLineState (s : State) (setupValue interfaceIndex : UInt16) : State :=
  let s := notifyLineState { s with acmInfo := s.acmInfo.update setupValue interfaceIndex }
  if s.cdcVcom.attach then { s with cdcVcom := { s.cdcVcom with startTransactions := true } }
  else s

/-! ### The end of a transfer -/

/-- `USB_DeviceCdcVcomCallback` with the event of the pipe. -/
def USB_DeviceCdcVcomCallback (s : State) (p : Endpoint) (epCbParam : EndpointCallbackMessage) :
    State :=
  match p with
  | .interruptIn => serialStateNotif s
  | .bulkIn      => sendResponse s epCbParam
  | .bulkOut     => recvResponse s epCbParam

/-- `USB_DeviceCdcAcmInterruptIn`, `USB_DeviceCdcAcmBulkIn` and `USB_DeviceCdcAcmBulkOut`. -/
def pipeCallback (s : State) (p : Endpoint) (message : EndpointCallbackMessage) : State :=
  USB_DeviceCdcVcomCallback (s.modifyPipe p fun v => { v with isBusy := false }) p message

/-- `USB_DeviceNotification` for an endpoint. -/
def USB_DeviceNotification (s : State) (a : UInt8) (message : EndpointCallbackMessage) : State :=
  match (s.endpoints a).callbackFn with
  | none   => s
  | some p => pipeCallback (s.modifyEndpoint a fun e => { e with isBusy := false }) p message

/-- `USB_DeviceEhciCancel`. -/
def USB_DeviceEhciCancel (s : State) (a : UInt8) : State :=
  match (s.endpoints a).transfer with
  | none   => s
  | some t =>
    USB_DeviceNotification (s.modifyEndpoint a fun e => { e with transfer := none }) a
      { buffer := t.buffer, length := USB_CANCELLED_TRANSFER_LENGTH }

/-- `USB_DeviceEhciInterruptTokenDone` for the transfer of one endpoint, if it is over: all packets
are sent, or `n` bytes were received. -/
def USB_DeviceEhciInterruptTokenDone (s : State) (p : Endpoint) (n : ℕ) : State :=
  match (s.endpoint p).transfer with
  | none   => s
  | some t =>
    let isTokenDone := if p = .bulkOut then n ≤ t.length
      else packetCount (s.endpoint p).maxPacketSize.toNat t.length ≤ t.packets
    if isTokenDone then
      USB_DeviceNotification (s.modifyEndpoint p.address fun e => { e with transfer := none })
        p.address { buffer := t.buffer, length := if p = .bulkOut then n else t.length }
    else s

/-- The controller sends the next packet of an IN endpoint to the host, as the buffer reads now. -/
def sendPacket (s : State) (p : Endpoint) : State :=
  match (s.endpoint p).transfer with
  | none   => s
  | some t =>
    let m := (s.endpoint p).maxPacketSize.toNat
    if p ≠ .bulkOut ∧ t.packets < packetCount m t.length then
      (s.modifyEndpoint p.address fun e =>
        { e with transfer := some { t with packets := t.packets + 1 } }).observe
          (.packet p.address (packet m ((s.contents t.buffer).take t.length) t.packets))
    else s

/-! ### Opening and closing endpoints -/

/-- `USB_DeviceEhciEndpointDeinit`. -/
def USB_DeviceEhciEndpointDeinit (s : State) (a : UInt8) : State :=
  USB_DeviceEhciCancel (s.modifyEndpoint a fun e => { e with isOpened := false }) a

/-- `USB_DeviceDeinitEndpoint`. -/
def USB_DeviceDeinitEndpoint (s : State) (a : UInt8) : State :=
  (USB_DeviceEhciEndpointDeinit s a).modifyEndpoint a fun e =>
    { e with callbackFn := none, isBusy := false }

/-- `USB_DeviceEhciEndpointInit`. -/
def USB_DeviceEhciEndpointInit (s : State) (epInit : EndpointStruct) : State :=
  (USB_DeviceEhciCancel s epInit.endpointAddress).modifyEndpoint epInit.endpointAddress fun e =>
    { e with
      maxPacketSize := epInit.maxPacketSize &&& USB_DESCRIPTOR_ENDPOINT_MAXPACKETSIZE_SIZE_MASK
      isOpened := true }

/-- `USB_DeviceInitEndpoint`. -/
def USB_DeviceInitEndpoint (s : State) (epInit : EndpointStruct) (callbackFn : Option Endpoint) :
    State :=
  USB_DeviceEhciEndpointInit
    (s.modifyEndpoint epInit.endpointAddress fun e => { e with callbackFn, isBusy := false }) epInit

/-- The pipe of a table entry, by direction and transfer type. -/
def EndpointStruct.pipe? (e : EndpointStruct) : Option Endpoint :=
  if e.endpointAddress &&& USB_DESCRIPTOR_ENDPOINT_ADDRESS_DIRECTION_MASK ≠ 0 then
    if e.transferType = USB_ENDPOINT_INTERRUPT then some .interruptIn
    else if e.transferType = USB_ENDPOINT_BULK then some .bulkIn
    else none
  else if e.transferType = USB_ENDPOINT_BULK then some .bulkOut
  else none

/-- The body of the loops of `USB_DeviceCdcAcmEndpointsInit`; `callbackFn` is what the earlier
turns left. The loop over the communication interface looks for the interrupt pipe only, the loop
over the data interface for the bulk pipes. -/
def initPipe (known : Endpoint → Bool) (s : State × Option Endpoint) (e : EndpointStruct) :
    State × Option Endpoint :=
  match e.pipe?.filter known with
  | none   => (USB_DeviceInitEndpoint s.1 e s.2, s.2)
  | some p =>
    let t := s.1.modifyPipe p fun _ => { ep := e.endpointAddress &&& USB_ENDPOINT_NUMBER_MASK }
    (USB_DeviceInitEndpoint t e (some p), some p)

/-- `USB_DeviceCdcAcmEndpointsInit`. -/
def USB_DeviceCdcAcmEndpointsInit (s : State) : State :=
  if s.cdcAcm.configuration = 0 ∨ USB_CDC_VCOM_CONFIGURATIONS < s.cdcAcm.configuration then s
  else
    let s := { s with cdcAcm :=
      { s.cdcAcm with interfaceNumber := USB_CDC_VCOM_COMM_INTERFACE_INDEX } }
    -- the interfaces have the alternate setting 0 only
    if s.cdcAcm.alternate ≠ 0 then s
    else
      let s := { s with cdcAcm := { s.cdcAcm with commInterfaceHandle := true } }
      let r := s.tables.1.cicEndpoints.foldl (initPipe (· = .interruptIn)) (s, none)
      let s := { r.1 with cdcAcm := { r.1.cdcAcm with dataInterfaceHandle := true } }
      (s.tables.1.dicEndpoints.foldl (initPipe (· ≠ .interruptIn)) (s, r.2)).1

/-- `USB_DeviceCdcAcmEndpointsDeinit`. -/
def USB_DeviceCdcAcmEndpointsDeinit (s : State) : State :=
  if s.cdcAcm.commInterfaceHandle = false ∨ s.cdcAcm.dataInterfaceHandle = false then s
  else
    let s := (s.tables.1.cicEndpoints ++ s.tables.1.dicEndpoints).foldl
      (fun s e => USB_DeviceDeinitEndpoint s e.endpointAddress) s
    { s with
      cdcAcm := { s.cdcAcm with commInterfaceHandle := false, dataInterfaceHandle := false } }

/-! ### Requests and the bus reset -/

/-- `kUSB_DeviceClassEventSetConfiguration` of `USB_DeviceCdcAcmEvent`. -/
def USB_DeviceCdcAcmSetConfiguration (s : State) (configuration : UInt8) : State :=
  if configuration = s.cdcAcm.configuration then s
  else
    let s := USB_DeviceCdcAcmEndpointsDeinit s
    USB_DeviceCdcAcmEndpointsInit
      { s with cdcAcm := { s.cdcAcm with configuration, alternate := 0 } }

/-- `kUSB_DeviceEventSetConfiguration` of `USB_DeviceCallback`. -/
def USB_DeviceCallbackSetConfiguration (s : State) (configuration : UInt8) : UsbStatus × State :=
  if configuration = 0 then
    (.Success, { s with cdcVcom :=
      { s.cdcVcom with attach := false, currentConfiguration := 0 } })
  else if configuration = USB_CDC_VCOM_CONFIGURE_INDEX then
    (.Success, State.scheduleReceive { s with cdcVcom :=
      { s.cdcVcom with attach := true, currentConfiguration := configuration } })
  else (.InvalidRequest, s)

/-- `USB_DeviceCh9SetConfiguration`. The class gets the low byte of `wValue`, and so does the
application. -/
def USB_DeviceCh9SetConfiguration (s : State) (wValue : UInt16) : UsbStatus × State :=
  if s.state = .Address ∨ s.state = .Configured then
    let s := { s with state := if wValue = 0 then .Address else .Configured }
    let s := USB_DeviceCdcAcmSetConfiguration s wValue.toUInt8
    USB_DeviceCallbackSetConfiguration s wValue.toUInt8
  else (.InvalidRequest, s)

/-- `USB_DeviceCh9SetAddress`, with its status stage. -/
def USB_DeviceCh9SetAddress (s : State) (wValue : UInt16) : UsbStatus × State :=
  if (s.state = .Address ∨ s.state = .Default) ∧ wValue.toUInt8 < 0x80 then
    (.Success, { s with state := .Address })
  else (.InvalidRequest, s)

/-- `USB_DEVICE_CDC_REQUEST_SET_CONTROL_LINE_STATE` of `USB_DeviceCdcAcmEvent`. -/
def USB_DeviceCdcAcmSetControlLineState (s : State) (wValue wIndex : UInt16) : State :=
  if wIndex.toUInt8 ≠ s.cdcAcm.interfaceNumber then s else setControlLineState s wValue wIndex

/-- `USB_DeviceResetNotification`, with what the class layer and the application do on it; `speed`
is what `USB_DeviceClassGetSpeed` tells, if it tells anything. -/
def USB_DeviceResetNotification (s : State) (speed : Option UInt8) : State :=
  let s := [Endpoint.interruptIn, .bulkIn, .bulkOut].foldl
    (fun s p => USB_DeviceEhciEndpointDeinit s p.address) s
  { s with
    state := .Default
    -- `USB_DeviceEhciSetDefaultState`, then the loop over `epCallback`
    endpoints := fun _ => { maxPacketSize := USB_CONTROL_MAX_PACKET_SIZE }
    cdcAcm := { s.cdcAcm with configuration := 0 }
    cdcVcom := { s.cdcVcom with
      attach := false, currentConfiguration := 0, speed := speed.getD s.cdcVcom.speed }
    tables := speed.elim s.tables s.tables.setSpeed }

/-! ### Steps -/

/-- `snprintf` of APPTask: the array holds the text and a zero byte, and behind them what it held
before. It has room for every text. -/
def State.printMsg (s : State) (text : List UInt8) : State :=
  { s with msg := text ++ 0 :: s.msg.drop (text.length + 1) }

/-- One turn of the loop of APPTask, which prints `text`. The array is the same in all turns, and
it is written before the pipe is asked whether it is free. -/
def APPTask (s : State) (text : List UInt8) : State :=
  if s.transmitGuard then
    (USB_DeviceCdcAcmSend (s.printMsg text) USB_CDC_VCOM_BULK_IN_ENDPOINT .msg text.length).2
  else s

/-- What the host, the controller and the scheduler can do next. -/
inductive Event
  | busReset (speed : Option UInt8)
  | setAddress (wValue : UInt16)
  | setConfiguration (wValue : UInt16)
  | setControlLineState (wValue wIndex : UInt16)
  | appTask (text : List UInt8)
  | token (p : Endpoint)
  | complete (p : Endpoint) (n : ℕ)
deriving DecidableEq, Repr

def step (s : State) : Event → State
  | .busReset speed                    => USB_DeviceResetNotification s speed
  | .setAddress wValue                 => (USB_DeviceCh9SetAddress s wValue).2
  | .setConfiguration wValue           => (USB_DeviceCh9SetConfiguration s wValue).2
  | .setControlLineState wValue wIndex => USB_DeviceCdcAcmSetControlLineState s wValue wIndex
  | .appTask text                      => APPTask s text
  | .token p                           => sendPacket s p
  | .complete p n                      => USB_DeviceEhciInterruptTokenDone s p n

end RT1064.Usb
