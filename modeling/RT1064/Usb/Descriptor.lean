import RT1064.Core.Records

/-!
# Descriptors and endpoint tables

The configuration descriptor as the device sends it, the endpoint tables the class driver reads,
and `USB_DeviceSetSpeed`, which rewrites both for the speed of the bus. The high-speed and the
full-speed branch of that function differ in their constants only; these are an argument here.
-/

namespace RT1064.Usb

open Core

/-! ### Constants -/

def USB_SPEED_FULL : UInt8 := 0x00
def USB_SPEED_HIGH : UInt8 := 0x02

def USB_OUT : UInt8 := 0
def USB_IN : UInt8 := 1

def USB_DESCRIPTOR_TYPE_CONFIGURE : UInt8 := 0x02
def USB_DESCRIPTOR_TYPE_INTERFACE : UInt8 := 0x04
def USB_DESCRIPTOR_TYPE_ENDPOINT : UInt8 := 0x05
def USB_DESCRIPTOR_TYPE_CDC_CS_INTERFACE : UInt8 := 0x24

def USB_DESCRIPTOR_ENDPOINT_ADDRESS_DIRECTION_MASK : UInt8 := 0x80
def USB_DESCRIPTOR_ENDPOINT_ADDRESS_DIRECTION_OUT : UInt8 := 0x00
def USB_DESCRIPTOR_ENDPOINT_ADDRESS_DIRECTION_IN : UInt8 := 0x80
def USB_ENDPOINT_NUMBER_MASK : UInt8 := 0x0F

def USB_DESCRIPTOR_CONFIGURE_ATTRIBUTE_D7_MASK : UInt8 := 0x80
def USB_DEVICE_MAX_POWER : UInt8 := 0x32

def USB_ENDPOINT_BULK : UInt8 := 0x02
def USB_ENDPOINT_INTERRUPT : UInt8 := 0x03

def USB_CDC_VCOM_CONFIGURE_INDEX : UInt8 := 1
def USB_CDC_VCOM_INTERRUPT_IN_ENDPOINT : UInt8 := 1
def USB_CDC_VCOM_BULK_IN_ENDPOINT : UInt8 := 2
def USB_CDC_VCOM_BULK_OUT_ENDPOINT : UInt8 := 3

/-- The sizes and the interval that depend on the speed. -/
structure SpeedValues where
  interruptInPacketSize : UInt16
  interruptInInterval : UInt8
  bulkInPacketSize : UInt16
  bulkOutPacketSize : UInt16
deriving DecidableEq, Repr

/-- The constants `HS_CDC_VCOM_…`. -/
def HS_CDC_VCOM : SpeedValues := ⟨16, 0x07, 512, 512⟩

/-- The constants `FS_CDC_VCOM_…`. -/
def FS_CDC_VCOM : SpeedValues := ⟨16, 0x08, 64, 64⟩

/-- Every speed but the high one takes the second branch. -/
def SpeedValues.of (speed : UInt8) : SpeedValues :=
  if USB_SPEED_HIGH = speed then HS_CDC_VCOM else FS_CDC_VCOM

/-- The size of the application's receive buffer, `HS_CDC_VCOM_BULK_OUT_PACKET_SIZE`. -/
def DATA_BUFF_SIZE : UInt16 := HS_CDC_VCOM.bulkOutPacketSize

/-! ### The tables -/

/-- `usb_device_endpoint_struct_t`. -/
structure EndpointStruct where
  endpointAddress : UInt8
  transferType : UInt8
  maxPacketSize : UInt16
  interval : UInt8
deriving DecidableEq, Repr

/-- What `USB_DeviceSetSpeed` writes to. -/
structure Descriptors where
  configuration : List UInt8
  cicEndpoints : List EndpointStruct
  dicEndpoints : List EndpointStruct
deriving DecidableEq, Repr

/-- `USB_SHORT_GET_LOW` and `USB_SHORT_GET_HIGH`. -/
def shortBytes (n : UInt16) : List UInt8 := [n.toUInt8, (n >>> 8).toUInt8]

/-- The initial value of `g_UsbDeviceConfigurationDescriptor`, one descriptor after the other. -/
def configurationDescriptors : List (List UInt8) :=
  [[9, USB_DESCRIPTOR_TYPE_CONFIGURE] ++ shortBytes (9 + 9 + 5 + 5 + 4 + 5 + 7 + 9 + 7 + 7) ++
      [2, USB_CDC_VCOM_CONFIGURE_INDEX, 0,
        USB_DESCRIPTOR_CONFIGURE_ATTRIBUTE_D7_MASK ||| ((1 : UInt8) <<< 6), USB_DEVICE_MAX_POWER],
    -- communication interface, and its class-specific descriptors
    [9, USB_DESCRIPTOR_TYPE_INTERFACE, 0, 0, 1, 0x02, 0x02, 0x00, 0x00],
    [5, USB_DESCRIPTOR_TYPE_CDC_CS_INTERFACE, 0x00, 0x10, 0x01],
    [5, USB_DESCRIPTOR_TYPE_CDC_CS_INTERFACE, 0x01, 0x01, 0x01],
    [4, USB_DESCRIPTOR_TYPE_CDC_CS_INTERFACE, 0x02, 0x06],
    [5, USB_DESCRIPTOR_TYPE_CDC_CS_INTERFACE, 0x06, 0x00, 0x01],
    -- notification endpoint
    [7, USB_DESCRIPTOR_TYPE_ENDPOINT, USB_CDC_VCOM_INTERRUPT_IN_ENDPOINT ||| (USB_IN <<< 7),
      USB_ENDPOINT_INTERRUPT] ++ shortBytes FS_CDC_VCOM.interruptInPacketSize ++
      [FS_CDC_VCOM.interruptInInterval],
    -- data interface
    [9, USB_DESCRIPTOR_TYPE_INTERFACE, 1, 0, 2, 0x0A, 0x00, 0x00, 0x00],
    -- bulk IN and bulk OUT endpoints
    [7, USB_DESCRIPTOR_TYPE_ENDPOINT, USB_CDC_VCOM_BULK_IN_ENDPOINT ||| (USB_IN <<< 7),
      USB_ENDPOINT_BULK] ++ shortBytes FS_CDC_VCOM.bulkInPacketSize ++ [(0x00 : UInt8)],
    [7, USB_DESCRIPTOR_TYPE_ENDPOINT, USB_CDC_VCOM_BULK_OUT_ENDPOINT ||| (USB_OUT <<< 7),
      USB_ENDPOINT_BULK] ++ shortBytes FS_CDC_VCOM.bulkOutPacketSize ++ [(0x00 : UInt8)]]

def g_UsbDeviceConfigurationDescriptor : List UInt8 := configurationDescriptors.flatten

def g_UsbDeviceCdcVcomCicEndpoints : List EndpointStruct :=
  [⟨USB_CDC_VCOM_INTERRUPT_IN_ENDPOINT ||| (USB_IN <<< 7), USB_ENDPOINT_INTERRUPT,
    FS_CDC_VCOM.interruptInPacketSize, FS_CDC_VCOM.interruptInInterval⟩]

def g_UsbDeviceCdcVcomDicEndpoints : List EndpointStruct :=
  [⟨USB_CDC_VCOM_BULK_IN_ENDPOINT ||| (USB_IN <<< 7), USB_ENDPOINT_BULK,
    FS_CDC_VCOM.bulkInPacketSize, 0⟩,
   ⟨USB_CDC_VCOM_BULK_OUT_ENDPOINT ||| (USB_OUT <<< 7), USB_ENDPOINT_BULK,
    FS_CDC_VCOM.bulkOutPacketSize, 0⟩]

/-- The tables before any call of `USB_DeviceSetSpeed`. -/
def Descriptors.initial : Descriptors :=
  ⟨g_UsbDeviceConfigurationDescriptor, g_UsbDeviceCdcVcomCicEndpoints,
    g_UsbDeviceCdcVcomDicEndpoints⟩

/-! ### USB_DeviceSetSpeed -/

def byteAt (b : List UInt8) (i : ℕ) : UInt8 := b.getD i 0

/-- `USB_SHORT_TO_LITTLE_ENDIAN_ADDRESS`: the high byte first. -/
def putShort (b : List UInt8) (i : ℕ) (n : UInt16) : List UInt8 :=
  (b.set (i + 1) (n >>> 8).toUInt8).set i n.toUInt8

/-- `bEndpointAddress` has the direction and the number. -/
def isEndpoint (addr direction number : UInt8) : Prop :=
  addr &&& USB_DESCRIPTOR_ENDPOINT_ADDRESS_DIRECTION_MASK = direction ∧
    number = addr &&& USB_ENDPOINT_NUMBER_MASK

instance (addr direction number : UInt8) : Decidable (isEndpoint addr direction number) :=
  inferInstanceAs (Decidable (_ ∧ _))

abbrev isInterruptIn (addr : UInt8) : Prop :=
  isEndpoint addr USB_DESCRIPTOR_ENDPOINT_ADDRESS_DIRECTION_IN USB_CDC_VCOM_INTERRUPT_IN_ENDPOINT

abbrev isBulkIn (addr : UInt8) : Prop :=
  isEndpoint addr USB_DESCRIPTOR_ENDPOINT_ADDRESS_DIRECTION_IN USB_CDC_VCOM_BULK_IN_ENDPOINT

abbrev isBulkOut (addr : UInt8) : Prop :=
  isEndpoint addr USB_DESCRIPTOR_ENDPOINT_ADDRESS_DIRECTION_OUT USB_CDC_VCOM_BULK_OUT_ENDPOINT

/-- The body of the loop on the descriptor at offset `p`: `bDescriptorType` is at `p + 1`,
`bEndpointAddress` at `p + 2`, `wMaxPacketSize` at `p + 4`, `bInterval` at `p + 6`. -/
def visit (v : SpeedValues) (b : List UInt8) (p : ℕ) : List UInt8 :=
  if byteAt b (p + 1) = USB_DESCRIPTOR_TYPE_ENDPOINT then
    let addr := byteAt b (p + 2)
    let b :=
      if isInterruptIn addr then
        putShort (b.set (p + 6) v.interruptInInterval) (p + 4) v.interruptInPacketSize
      else b
    if isBulkIn addr then putShort b (p + 4) v.bulkInPacketSize
    else if isBulkOut addr then putShort b (p + 4) v.bulkOutPacketSize
    else b
  else b

/-- `bLength` of the descriptor at offset `p`. -/
def bLength (b : List UInt8) (p : ℕ) : ℕ := (byteAt b p).toNat

/-- The loop over the configuration descriptor, with the offsets it comes to. Each turn moves on
by at least one byte unless `bLength` is `0`, so `none` means that the loop never ends. -/
def walkDescriptors (v : SpeedValues) (b : List UInt8) : Option (List UInt8 × List ℕ) :=
  walk (visit v) bLength (b.length + 1) b 0

def setCicEndpoint (v : SpeedValues) (e : EndpointStruct) : EndpointStruct :=
  { e with maxPacketSize := v.interruptInPacketSize, interval := v.interruptInInterval }

def setDicEndpoint (v : SpeedValues) (e : EndpointStruct) : EndpointStruct :=
  if e.endpointAddress &&& USB_DESCRIPTOR_ENDPOINT_ADDRESS_DIRECTION_MASK ≠ 0 then
    { e with maxPacketSize := v.bulkInPacketSize }
  else { e with maxPacketSize := v.bulkOutPacketSize }

/-- `none` where the loop over the descriptor never ends; else `kStatus_USB_Success`. -/
def USB_DeviceSetSpeed (d : Descriptors) (speed : UInt8) : Option Descriptors :=
  (walkDescriptors (SpeedValues.of speed) d.configuration).map fun r =>
    { configuration := r.1
      cicEndpoints := d.cicEndpoints.map (setCicEndpoint (SpeedValues.of speed))
      dicEndpoints := d.dicEndpoints.map (setDicEndpoint (SpeedValues.of speed)) }

/-- `g_UsbDeviceCdcVcomDicEndpoints[i].maxPacketSize`. -/
def Descriptors.dicPacketSize (d : Descriptors) (i : ℕ) : UInt16 :=
  (d.dicEndpoints[i]?.map EndpointStruct.maxPacketSize).getD 0

end RT1064.Usb
