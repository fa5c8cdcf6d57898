import Mathlib.Logic.Function.Basic
import RT1064.Core.Framing
import RT1064.Usb.SetSpeed

/-!
# State of the USB device

What controller, device layer, CDC class and application keep, and how a transfer gets from the
class down to the controller. The controller answers a transfer with a status of its own (no free
transfer descriptor, a bus reset under way, an endpoint that does not prime); these answers are an
input of the model.
-/

namespace RT1064.Usb

open Core

/-! ### Data -/

/-- The values of `usb_status_t` that occur. -/
inductive UsbStatus
  | Success
  | Error
  | Busy
  | InvalidParameter
  | InvalidRequest
deriving DecidableEq, Repr

/-- `usb_device_state_t`; an address is set in one step, so the state between is not there. -/
inductive DeviceState
  | Configured
  | Address
  | Default
deriving DecidableEq, Repr

/-- The endpoints of the class, each with a pipe and a completion callback. -/
inductive Endpoint
  | interruptIn
  | bulkIn
  | bulkOut
deriving DecidableEq, Repr

namespace Endpoint

def number : Endpoint → UInt8
  | interruptIn => USB_CDC_VCOM_INTERRUPT_IN_ENDPOINT
  | bulkIn      => USB_CDC_VCOM_BULK_IN_ENDPOINT
  | bulkOut     => USB_CDC_VCOM_BULK_OUT_ENDPOINT

def direction : Endpoint → UInt8
  | bulkOut => USB_OUT
  | _       => USB_IN

/-- `bEndpointAddress`. -/
def address (p : Endpoint) : UInt8 := p.number ||| (p.direction <<< 7)

lemma address_injective : Function.Injective address := by
  intro p q h
  cases p <;> cases q <;> first | rfl | exact absurd h (by decide)

@[simp] lemma address_inj {p q : Endpoint} : p.address = q.address ↔ p = q :=
  address_injective.eq_iff

end Endpoint

/-- What a transfer points to; `msg` is the array of APPTask. -/
inductive Buffer
  | null
  | msg
  | serialStateBuf
  | currRecvBuf
deriving DecidableEq, Repr

/-- A transfer in flight, of which some packets have been sent. -/
structure Transfer where
  buffer : Buffer
  length : ℕ
  packets : ℕ := 0
deriving DecidableEq, Repr

/-- Queue head of the controller and entry of `epCallback`; `transfer` is what the queue head has
in flight, `callbackFn` the callback of a pipe. -/
structure EndpointState where
  isOpened : Bool := false
  maxPacketSize : UInt16 := 0
  transfer : Option Transfer := none
  callbackFn : Option Endpoint := none
  isBusy : Bool := false
deriving DecidableEq, Repr

/-- `usb_device_cdc_acm_pipe_t`; `none` is `USB_INVALID_TRANSFER_BUFFER`. -/
structure Pipe where
  ep : UInt8 := 0
  isBusy : Bool := false
  pipeStall : Bool := false
  pipeDataBuffer : Option Buffer := none
  pipeDataLen : ℕ := 0
deriving DecidableEq, Repr

/-- `usb_device_cdc_acm_struct_t`; of the interface handles only whether they are `NULL` counts. -/
structure CdcAcm where
  configuration : UInt8 := 0
  alternate : UInt8 := 0xFF
  interfaceNumber : UInt8 := 0
  commInterfaceHandle : Bool := false
  dataInterfaceHandle : Bool := false
  pipe : Endpoint → Pipe := fun _ => {}
  hasSentState : Bool := false

/-- `usb_cdc_vcom_struct_t`. -/
structure CdcVcom where
  attach : Bool := false
  startTransactions : Bool := false
  speed : UInt8 := USB_SPEED_FULL
  currentConfiguration : UInt8 := 0
deriving DecidableEq, Repr

/-- `usb_cdc_acm_info_t`. -/
structure AcmInfo where
  serialStateBuf : List UInt8
  dtePresent : Bool
  dteStatus : UInt8
  uartState : UInt16
deriving DecidableEq, Repr

/-- Descriptor and tables with their history, so that `USB_DeviceSetSpeed` always returns. -/
def Tables : Type := { d : Descriptors // d.Reached }

/-- `USB_DeviceSetSpeed`. -/
def Tables.setSpeed (t : Tables) (speed : UInt8) : Tables :=
  ⟨(USB_DeviceSetSpeed t.1 speed).get (by
      obtain ⟨d, hd, -⟩ := t.2.setSpeed speed
      exact hd ▸ rfl), by
    obtain ⟨d, hd, hreached⟩ := t.2.setSpeed speed
    simpa [hd] using hreached⟩

/-- What can be seen from outside: transfers the controller has taken, packets the host has read,
lines on the debug console. -/
inductive Observation
  | taken (address : UInt8) (buffer : Buffer) (length : ℕ)
  | packet (address : UInt8) (payload : List UInt8)
  | usb_echo (text : String)
deriving DecidableEq, Repr

/-- The device; `answers` are the controller's answers to come, `trace` what was observed, the
latest first. -/
structure State where
  state : DeviceState := .Default
  endpoints : UInt8 → EndpointState := fun _ => {}
  answers : ℕ → UsbStatus
  cdcAcm : CdcAcm := {}
  cdcVcom : CdcVcom := {}
  acmInfo : AcmInfo
  msg : List UInt8 := []
  recvSize : ℕ := 0
  tables : Tables := ⟨Descriptors.initial, Descriptors.reached_initial⟩
  trace : List Observation := []

namespace State

variable (s : State)

/-- `g_UsbDeviceCdcVcomDicEndpoints[i].maxPacketSize`. -/
def dicPacketSize (i : ℕ) : ℕ := (s.tables.1.dicPacketSize i).toNat

abbrev pipe (p : Endpoint) : Pipe := s.cdcAcm.pipe p

/-- The device layer's side of a pipe. -/
abbrev endpoint (p : Endpoint) : EndpointState := s.endpoints p.address

def modifyEndpoint (a : UInt8) (f : EndpointState → EndpointState) : State :=
  { s with endpoints := Function.update s.endpoints a (f (s.endpoints a)) }

def modifyPipe (p : Endpoint) (f : Pipe → Pipe) : State :=
  { s with cdcAcm := { s.cdcAcm with pipe := Function.update s.cdcAcm.pipe p (f (s.pipe p)) } }

def observe (o : Observation) : State := { s with trace := o :: s.trace }

/-- The bytes a buffer holds now; those of the receive buffer are not modelled. -/
def contents : Buffer → List UInt8
  | .msg            => s.msg
  | .serialStateBuf => s.acmInfo.serialStateBuf
  | _               => []

end State

/-- The state `USB_DeviceApplicationInit` leaves. `s_usbCdcAcmInfo` is not initialised. -/
def USB_DeviceApplicationInit (acmInfo : AcmInfo) (answers : ℕ → UsbStatus) : State :=
  { answers, acmInfo }

/-! ### Transfers -/

def USB_DEVICE_CONFIG_ENDPOINTS : UInt8 := 4

/-- `USB_DeviceEhciTransfer`: an open endpoint, and an answer of the controller. -/
def USB_DeviceEhciTransfer (s : State) (a : UInt8) (buffer : Buffer) (length : ℕ) :
    UsbStatus × State :=
  if (s.endpoints a).isOpened = false then (.Error, s)
  else
    let answer := s.answers 0
    let s := { s with answers := fun n => s.answers (n + 1) }
    if answer = .Success then
      let s := s.modifyEndpoint a fun e => { e with transfer := some { buffer, length } }
      (.Success, s.observe (.taken a buffer length))
    else (answer, s)

/-- `USB_DeviceTransfer`. -/
def USB_DeviceTransfer (s : State) (a : UInt8) (buffer : Buffer) (length : ℕ) :
    UsbStatus × State :=
  if USB_DEVICE_CONFIG_ENDPOINTS ≤ a &&& USB_ENDPOINT_NUMBER_MASK then (.InvalidParameter, s)
  else if (s.endpoints a).isBusy then (.Busy, s)
  else
    let s := s.modifyEndpoint a fun e => { e with isBusy := true }
    let r := USB_DeviceEhciTransfer s a buffer length
    if r.1 = .Success then r
    else (r.1, r.2.modifyEndpoint a fun e => { e with isBusy := false })

def USB_DeviceSendRequest (s : State) (ep : UInt8) : Buffer → ℕ → UsbStatus × State :=
  USB_DeviceTransfer s ((ep &&& USB_ENDPOINT_NUMBER_MASK) ||| (USB_IN <<< 7))

def USB_DeviceRecvRequest (s : State) (ep : UInt8) : Buffer → ℕ → UsbStatus × State :=
  USB_DeviceTransfer s ((ep &&& USB_ENDPOINT_NUMBER_MASK) ||| (USB_OUT <<< 7))

/-- What `USB_DeviceCdcAcmSend` and `USB_DeviceCdcAcmRecv` do with their pipe; `request` is the
device layer's function. -/
def prime (request : State → Buffer → ℕ → UsbStatus × State) (s : State) (p : Endpoint)
    (buffer : Buffer) (length : ℕ) : UsbStatus × State :=
  if (s.pipe p).isBusy then (.Busy, s)
  else
    let s := s.modifyPipe p fun v => { v with isBusy := true }
    if (s.pipe p).pipeStall then
      (.Success, s.modifyPipe p fun v =>
        { v with pipeDataBuffer := some buffer, pipeDataLen := length })
    else
      let r := request s buffer length
      if r.1 = .Success then r
      else (r.1, r.2.modifyPipe p fun v => { v with isBusy := false })

def USB_DeviceCdcAcmSend (s : State) (ep : UInt8) (buffer : Buffer) (length : ℕ) :
    UsbStatus × State :=
  if (s.pipe .bulkIn).ep = ep then
    prime (USB_DeviceSendRequest · ep) s .bulkIn buffer length
  else if (s.pipe .interruptIn).ep = ep then
    prime (USB_DeviceSendRequest · ep) s .interruptIn buffer length
  else (.Error, s)

def USB_DeviceCdcAcmRecv (s : State) (ep : UInt8) (buffer : Buffer) (length : ℕ) :
    UsbStatus × State :=
  prime (USB_DeviceRecvRequest · ep) s .bulkOut buffer length

end RT1064.Usb
