/-
The USB host port driver.

For each root port the driver has a record for the device on it, and records for the
devices behind a hub there.  A record has the device, a table of endpoint records that
the pipes of the device name by index, and the set-up packets and running lengths of
control transfers; of these two the driver uses those of the first hub record, for
every device of the root port.

`nu_open_pipe`, `nu_close_pipe` and the control part of `nu_pipe_xfer` are functions of
the state; the bus answers each control transfer that is issued.
-/
import Mathlib.Data.BitVec
import Mathlib.Data.List.Basic
import Mathlib.Logic.Function.Basic
import Mathlib.Tactic.Common

namespace Usb

def NU_MAX_USBH_PORT : ℕ := 1
def NU_MAX_USBH_PIPE : ℕ := 16
def NU_MAX_USBH_HUB_PORT_DEV : ℕ := 4
def RT_EOK : ℤ := 0
def RT_ERROR : ℤ := 1
def RT_EIO : ℤ := 8
def USB_EP_ATTR_CONTROL : BitVec 8 := 0
def USB_DIR_MASK : BitVec 8 := 0x80
def USB_DIR_IN : BitVec 8 := 0x80
def USB_REQ_TYPE_DIR_IN : BitVec 8 := 0x80
def USB_REQ_SET_ADDRESS : BitVec 8 := 5
def USB_REQ_SET_CONFIGURATION : BitVec 8 := 9
def REQ_TYPE_STD_DEV : BitVec 8 := 0

/-! ### Data -/

/-- `struct urequest`. -/
structure urequest where
  request_type : BitVec 8
  bRequest : BitVec 8
  wValue : BitVec 16
  wIndex : BitVec 16
  wLength : BitVec 16
  deriving DecidableEq, Repr

/-- `struct uendpoint_descriptor`, as far as the driver uses it. -/
structure uendpoint_descriptor where
  bEndpointAddress : BitVec 8
  bmAttributes : BitVec 8
  wMaxPacketSize : BitVec 16
  bInterval : BitVec 8
  deriving DecidableEq, Repr

/-- `struct uinstance`: the port of its hub a device is on, and the port of that hub on
its own parent, `none` when the hub is the root hub. -/
structure uinstance where
  port : ℕ
  hubPort : Option ℕ
  deriving DecidableEq, Repr

/-- `struct upipe`. -/
structure upipe where
  inst : uinstance
  ep : uendpoint_descriptor
  pipe_index : ℕ
  deriving DecidableEq, Repr

/-- `EP_INFO_T`. -/
structure EP_INFO_T where
  bEndpointAddress : BitVec 8
  bmAttributes : BitVec 8
  bInterval : BitVec 8
  bToggle : BitVec 8
  wMaxPacketSize : BitVec 16
  hw_pipe : Option ℕ
  deriving DecidableEq, Repr

/-- `UDEV_T`, as far as the driver uses it. -/
structure UDEV_T where
  port_num : ℕ
  dev_num : BitVec 8
  cur_conf : ℤ
  deriving DecidableEq, Repr

/-- `S_NU_PORT_DEV`; endpoint records are given by their addresses. -/
structure S_NU_PORT_DEV where
  bRHParent : Bool
  pUDev : Option UDEV_T
  apsEPInfo : ℕ → Option ℕ
  asSetupReq : ℕ → urequest
  u32SentLength : ℕ → BitVec 32
  port_num : ℕ
  bEnumDone : Bool

/-- A record is the one of a root port or one of those for the devices behind its hub. -/
inductive DevRef
  | sRHPortDev (port : ℕ)
  | asHubPortDev (port i : ℕ)
  deriving DecidableEq, Repr

/-- The root port of a record. -/
def DevRef.port : DevRef → ℕ
  | .sRHPortDev port => port
  | .asHubPortDev port _ => port

/-- A control transfer on the bus: the address, the request and the buffer. -/
structure Xfer where
  dev_num : BitVec 8
  req : urequest
  buffer : Option ℕ
  deriving DecidableEq, Repr

/-- `s_sUSBHDev`, with the endpoint records allocated and the control transfers issued. -/
structure State where
  dev : DevRef → S_NU_PORT_DEV
  heap : ℕ → Option EP_INFO_T
  xfers : List Xfer

/-- What the bus answers to the `n`-th control transfer: a negative error code, or the
number of bytes moved, which is at most what was asked for. -/
structure Bus where
  answer : ℕ → Xfer → ℤ
  le : ∀ n x, answer n x ≤ x.req.wLength.toNat

def State.setDev (s : State) (r : DevRef) (d : S_NU_PORT_DEV) : State :=
  { s with dev := Function.update s.dev r d }

/-! ### Finding a record -/

/-- `GetRHPortControlFromPipe`: the index of the root port. -/
def GetRHPortControlFromPipe (inst : uinstance) : Option ℕ :=
  let port := inst.hubPort.getD inst.port
  if port > NU_MAX_USBH_PORT then none else some (port - 1)

/-- The first hub record of a root port with property `p`. -/
def findHub (p : ℕ → Bool) : Option ℕ := (List.range NU_MAX_USBH_HUB_PORT_DEV).find? p

/-- `GetPortDevFromPipe`. -/
def GetPortDevFromPipe (s : State) (inst : uinstance) : Option DevRef :=
  (GetRHPortControlFromPipe inst).bind fun port =>
    if inst.hubPort = none then some (.sRHPortDev port)
    else (findHub fun i => (s.dev (.asHubPortDev port i)).port_num = inst.port).map
      (.asHubPortDev port)

/-! ### Opening and closing -/

/-- `GetFreePipe`, with `malloc` what `rt_malloc` returns. -/
def GetFreePipe (s : State) (psPortDev : DevRef) (malloc : Option ℕ) : Option (ℕ × ℕ × State) :=
  let d := s.dev psPortDev
  match (List.range NU_MAX_USBH_PIPE).find? fun i => d.apsEPInfo i = none, malloc with
  | some i, some psEPInfo =>
    some (i, psEPInfo, s.setDev psPortDev
      { d with apsEPInfo := Function.update d.apsEPInfo i (some psEPInfo) })
  | _, _ => none

/-- `FreePipe`. -/
def FreePipe (s : State) (psPortDev : DevRef) (u8PipeIndex : ℕ) : State :=
  let d := s.dev psPortDev
  match d.apsEPInfo u8PipeIndex with
  | some psEPInfo =>
    if u8PipeIndex < NU_MAX_USBH_PIPE then
      { s.setDev psPortDev { d with apsEPInfo := Function.update d.apsEPInfo u8PipeIndex none } with
        heap := Function.update s.heap psEPInfo none }
    else s
  | none => s

/-- `AllocateNewUDev`, with `udev` whether `alloc_device` has memory. -/
def AllocateNewUDev (s : State) (port : ℕ) (udev : Bool) : Option (DevRef × State) :=
  match findHub fun i => (s.dev (.asHubPortDev port i)).pUDev = none with
  | some i =>
    if udev then
      let r := DevRef.asHubPortDev port i
      some (r, s.setDev r { s.dev r with pUDev := some ⟨0, 0, -1⟩ })
    else none
  | none => none

/-- The record `nu_open_pipe` works on: the one of the pipe, or a new one. -/
def openDev (s : State) (inst : uinstance) (port : ℕ) (udev : Bool) : Option (DevRef × State) :=
  match (GetPortDevFromPipe s inst).filter fun r => (s.dev r).pUDev ≠ none with
  | some r => some (r, s)
  | none =>
    (AllocateNewUDev s port udev).map fun p =>
      (p.1, p.2.setDev p.1 { p.2.dev p.1 with
        pUDev := some ⟨inst.port, 0, -1⟩
        port_num := inst.port
        bEnumDone := false })

/-- A pipe of endpoint 0. -/
def uendpoint_descriptor.isControl (ep : uendpoint_descriptor) : Bool :=
  ep.bEndpointAddress &&& 0x7F = 0

/-- `psEPInfo` as `nu_open_pipe` fills it. -/
def uendpoint_descriptor.epInfo (ep : uendpoint_descriptor) : EP_INFO_T where
  bEndpointAddress := ep.bEndpointAddress
  bmAttributes := ep.bmAttributes
  bInterval := ep.bInterval
  bToggle := 0
  wMaxPacketSize := (ep.wMaxPacketSize &&& 0x07FF) * (1 + ((ep.wMaxPacketSize >>> 11) &&& 3))
  hw_pipe := none

/-- `nu_open_pipe`: the result, the index given to the pipe, and the state. -/
def nu_open_pipe (s : State) (pipe : upipe) (udev : Bool) (malloc : Option ℕ) : ℤ × ℕ × State :=
  match GetRHPortControlFromPipe pipe.inst with
  | none => (-RT_ERROR, pipe.pipe_index, s)
  | some port =>
    if (s.dev (.sRHPortDev port)).pUDev = none then (-RT_ERROR, pipe.pipe_index, s)
    else
      match openDev s pipe.inst port udev with
      | none => (-RT_ERROR, pipe.pipe_index, s)
      | some (psPortDev, s) =>
        if pipe.ep.isControl then (RT_EOK, 0, s)
        else
          match GetFreePipe s psPortDev malloc with
          | none => (-RT_ERROR, pipe.pipe_index, s)
          | some (i, psEPInfo, s) =>
            (RT_EOK, i, { s with heap := Function.update s.heap psEPInfo (some pipe.ep.epInfo) })

/-- `nu_close_pipe`. -/
def nu_close_pipe (s : State) (pipe : upipe) : ℤ × State :=
  match GetRHPortControlFromPipe pipe.inst with
  | none => ( RT_EIO, s)
  | some _ =>
    match GetPortDevFromPipe s pipe.inst with
    | none => (RT_EOK, s)
    | some psPortDev =>
      let d := s.dev psPortDev
      -- the device behind a hub goes with its control pipe once it is enumerated
      let s :=
        if pipe.ep.isControl ∧ d.bRHParent = false ∧ d.bEnumDone = true then
          s.setDev psPortDev { d with pUDev := none }
        else s
      (RT_EOK, FreePipe s psPortDev pipe.pipe_index)

/-! ### Control transfers -/

/-- The stages of a call: a set-up packet, or a buffer. -/
inductive Token
  | SETUP (psSetup : urequest)
  | DATA (buffer : Option ℕ)
  deriving DecidableEq, Repr

def urequest.dirIn (r : urequest) : Bool := r.request_type &&& USB_REQ_TYPE_DIR_IN ≠ 0

/-- The request is a standard one of the device, `bRequest`. -/
def urequest.isStd (r : urequest) (bRequest : BitVec 8) : Bool :=
  r.bRequest = bRequest && r.request_type &&& 0x60 = REQ_TYPE_STD_DEV

/-- `nu_ctrl_xfer`: issue the transfer; the answer, and the device after it. -/
def nu_ctrl_xfer (bus : Bus) (s : State) (psPortDev : DevRef) (pUDev : UDEV_T) (psSetup : urequest)
    (buffer : Option ℕ) : ℤ × State :=
  let x : Xfer := ⟨pUDev.dev_num, psSetup, buffer⟩
  let ret := bus.answer s.xfers.length x
  let s := { s with xfers := s.xfers ++ [x] }
  if ret < 0 then (ret, s)
  else
    let d := s.dev psPortDev
    let u := pUDev
    let u :=
      if psSetup.isStd USB_REQ_SET_ADDRESS then { u with dev_num := psSetup.wValue.setWidth 8 } else u
    let u :=
      if psSetup.isStd USB_REQ_SET_CONFIGURATION then
        { u with cur_conf := (psSetup.wValue.setWidth 8).toInt }
      else u
    let d := { d with
      pUDev := some u
      bEnumDone := d.bEnumDone || psSetup.isStd USB_REQ_SET_CONFIGURATION }
    (ret, s.setDev psPortDev d)

/-- The record whose set-up packets and lengths a root port uses. -/
def slot (port : ℕ) : DevRef := .asHubPortDev port 0

def State.setSent (s : State) (port i : ℕ) (v : BitVec 32) : State :=
  s.setDev (slot port)
    { s.dev (slot port) with u32SentLength := Function.update (s.dev (slot port)).u32SentLength i v }

def State.setSetup (s : State) (port i : ℕ) (r : urequest) : State :=
  s.setDev (slot port)
    { s.dev (slot port) with asSetupReq := Function.update (s.dev (slot port)).asSetupReq i r }

/-- `nu_pipe_xfer` of a control pipe; `none` when the pipe has no record. -/
def nu_pipe_xfer (bus : Bus) (s : State) (pipe : upipe) (token : Token) (nbytes : ℕ) :
    Option (ℤ × State) :=
  match GetRHPortControlFromPipe pipe.inst with
  | none => some (-1, s)
  | some port =>
    (GetPortDevFromPipe s pipe.inst).map fun psPortDev =>
      match (s.dev psPortDev).pUDev with
      | none => (-1, s)
      | some pUDev =>
        match token with
        | .SETUP psSetup =>
          let s := s.setSent port pipe.pipe_index 0
          if psSetup.dirIn then (nbytes, s.setSetup port pipe.pipe_index psSetup)
          else
            let (ret, s) := nu_ctrl_xfer bus s psPortDev pUDev psSetup none
            (if ret = psSetup.wLength.toNat then nbytes else -1, s)
        | .DATA (some buffer) =>
          if pipe.ep.bEndpointAddress &&& USB_DIR_MASK = USB_DIR_IN then
            let sent := (s.dev (slot port)).u32SentLength pipe.pipe_index
            if sent = 0 then
              let psSetup := (s.dev (slot port)).asSetupReq pipe.pipe_index
              let (ret, s) := nu_ctrl_xfer bus s psPortDev pUDev psSetup (some buffer)
              (if ret ≤ 0 then -1 else nbytes, s.setSent port pipe.pipe_index (BitVec.ofInt 32 ret))
            else if sent < BitVec.ofNat 32 nbytes then (-1, s)
            else
              (if nbytes = 0 then -1 else nbytes,
                s.setSent port pipe.pipe_index (sent - BitVec.ofNat 32 nbytes))
          else (nbytes, s)
        | .DATA none => (nbytes, s)

end Usb
