/-
The USB device's standard driver: control transfers.

Endpoint 0 sends the answer to a SETUP in packets, and endpoint 1 stores what the host sends with
one.  What is left of an answer, the flag for a packet of no bytes after it and the place for the
bytes of the host are globals, which a SETUP resets only in part.

* **`USBD_ProcessSetupPacket`**, **`USBD_CtrlIn`**, **`USBD_CtrlOut`** — the driver;
* **`answer`**, **`packets`** — the answer to a SETUP, and the packets that it is;
* **`World.step`** — SETUPs, packets that the host takes, and packets that it sends, in any order;
* **`Inv`** — what is left is the rest of the answer;
* **`own_setup`** — the transfers that depend on their own SETUP only;
* **`stale_answer`** — three that do not.
-/
import Mathlib.Logic.Function.Basic
import NuMaker.Lib.Guarded
import NuMaker.Lib.Pieces

namespace UsbdStd

/-! ### The driver -/

abbrev Packet := List (BitVec 8)

/-- `S_USBD_INFO_T`, with descriptors as long as they say that they are. -/
structure S_USBD_INFO_T where
  gu8DevDesc : List (BitVec 8)
  gu8ConfigDesc : List (BitVec 8)
  gu8StringDesc : ℕ → List (BitVec 8)
  gu8HidReportDesc : ℕ → List (BitVec 8)
  gu8BosDesc : Option (List (BitVec 8))
  gu32HidReportSize : ℕ → ℕ
  gu32ConfigHidDescIdx : ℕ → ℕ
  device_length : gu8DevDesc.length = 18
  packet_size : (gu8DevDesc.getD 7 0).toNat ∈ [8, 16, 32, 64]
  config_length : gu8ConfigDesc.length =
    (gu8ConfigDesc.getD 2 0).toNat + (gu8ConfigDesc.getD 3 0).toNat * 256 ∧ gu8ConfigDesc ≠ []
  string_length : ∀ i < 4, (gu8StringDesc i).length = ((gu8StringDesc i).getD 0 0).toNat ∧
    gu8StringDesc i ≠ []
  report_length : ∀ i, (gu8HidReportDesc i).length = gu32HidReportSize i ∧ gu8HidReportDesc i ≠ []
  bos_length : ∀ d ∈ gu8BosDesc, d.length = 12
  hid_length : ∀ i, gu32ConfigHidDescIdx i + 9 ≤ gu8ConfigDesc.length

/-- `g_usbd_CtrlMaxPktSize`, as `USBD_Open` sets it. -/
def S_USBD_INFO_T.g_usbd_CtrlMaxPktSize (info : S_USBD_INFO_T) : ℕ := (info.gu8DevDesc.getD 7 0).toNat

/-- The globals, and endpoints 0 and 1. -/
structure Pipe where
  g_usbd_SetupPacket : ℕ → BitVec 8
  /-- The `g_usbd_CtrlInSize` bytes at `g_usbd_CtrlInPointer`. -/
  CtrlIn : List (BitVec 8)
  g_usbd_CtrlInZeroFlag : Bool
  g_usbd_CtrlOutPointer : ℕ
  g_usbd_CtrlOutSize : ℕ
  g_usbd_CtrlOutSizeLimit : ℕ
  g_usbd_CtrlOutToggle : ℕ
  g_usbd_UsbAddr : BitVec 8
  g_usbd_UsbConfig : BitVec 8
  g_usbd_UsbAltInterface : BitVec 8
  g_usbd_RemoteWakeupEn : Bool
  FADDR : BitVec 8
  /-- The stall bits of the endpoints' registers. -/
  SSTALL : ℕ → Bool
  /-- The packet that endpoint 0 has for the host. -/
  ep0 : Option Packet
  /-- The first byte of endpoint 0's buffer. -/
  buffer : BitVec 8
  /-- What has been written through `g_usbd_CtrlOutPointer`, by address. -/
  writes : List (ℕ × BitVec 8)

def USBD_MAX_EP : ℕ := 19

section Driver

variable (info : S_USBD_INFO_T)
  -- the endpoint numbers in the configuration registers, and `g_u32EpStallLock`
  (number : ℕ → ℕ) (lock : ℕ → Bool)

/-- The packet is copied to endpoint 0's buffer, and its length is set. -/
def arm (p : Pipe) (packet : Packet) : Pipe :=
  { p with ep0 := some packet, buffer := packet.headD p.buffer }

/-- `USBD_SET_EP_STALL` for endpoints 0 and 1. -/
def stall (p : Pipe) : Pipe :=
  { p with SSTALL := Function.update (Function.update p.SSTALL 0 true) 1 true }

def USBD_PrepareCtrlIn (p : Pipe) (buf : List (BitVec 8)) : Pipe :=
  if buf.length > info.g_usbd_CtrlMaxPktSize then
    arm { p with CtrlIn := buf.drop info.g_usbd_CtrlMaxPktSize } (buf.take info.g_usbd_CtrlMaxPktSize)
  else arm { p with CtrlIn := [] } buf

def USBD_PrepareCtrlOut (p : Pipe) (pu8Buf u32Size : ℕ) : Pipe :=
  { p with g_usbd_CtrlOutPointer := pu8Buf, g_usbd_CtrlOutSize := 0, g_usbd_CtrlOutSizeLimit := u32Size }

def wLength (s : ℕ → BitVec 8) : ℕ := (s 7).toNat * 256 + (s 6).toNat

/-- A descriptor with a packet of no bytes after it, where it is shorter than what was asked for and a
number of whole packets: the configuration, the reports and the strings. -/
def prepare_sized (p : Pipe) (desc : List (BitVec 8)) (size : ℕ) : Pipe :=
  if wLength p.g_usbd_SetupPacket > size then
    USBD_PrepareCtrlIn info
      (if size % info.g_usbd_CtrlMaxPktSize = 0 then { p with g_usbd_CtrlInZeroFlag := true } else p)
      (desc.take size)
  else USBD_PrepareCtrlIn info p (desc.take (wLength p.g_usbd_SetupPacket))

def USBD_GetDescriptor (p : Pipe) : Pipe :=
  let p := { p with g_usbd_CtrlInZeroFlag := false }
  let s := p.g_usbd_SetupPacket
  if s 3 = 0x01 then USBD_PrepareCtrlIn info p (info.gu8DevDesc.take (min (wLength s) 18))
  else if s 3 = 0x02 then
    prepare_sized info p info.gu8ConfigDesc
      ((info.gu8ConfigDesc.getD 2 0).toNat + (info.gu8ConfigDesc.getD 3 0).toNat * 256)
  else if s 3 = 0x0F then
    match info.gu8BosDesc with
    | none => stall p
    | some d => USBD_PrepareCtrlIn info p (d.take (min (wLength s) 12))
  else if s 3 = 0x21 then
    USBD_PrepareCtrlIn info p
      ((info.gu8ConfigDesc.drop (info.gu32ConfigHidDescIdx (s 4).toNat)).take (min (wLength s) 9))
  else if s 3 = 0x22 then
    prepare_sized info p (info.gu8HidReportDesc (s 4).toNat) (info.gu32HidReportSize (s 4).toNat)
  else if s 3 = 0x03 then
    if (s 2).toNat < 4 then
      prepare_sized info p (info.gu8StringDesc (s 2).toNat) ((info.gu8StringDesc (s 2).toNat).getD 0 0).toNat
    else stall p
  else stall p

/-- The hardware endpoint of a number, as `USBD_GetStall` and `USBD_SetStall` find it. -/
def endpoint (n : ℕ) : Option ℕ := (List.range USBD_MAX_EP).find? fun i => number i == n

/-- The first byte of a status.  For recipients beyond the endpoints it is what is in the buffer. -/
def status_byte (p : Pipe) : BitVec 8 :=
  let s := p.g_usbd_SetupPacket
  if s 0 = 0x80 then
    (if info.gu8ConfigDesc.getD 7 0 &&& 0x40 = 0x40 then 1 else 0) |||
      if info.gu8ConfigDesc.getD 7 0 &&& 0x20 = 0x20 ∧ p.g_usbd_RemoteWakeupEn then 2 else 0
  else if s 0 = 0x81 then 0
  else if s 0 = 0x82 then
    if p.SSTALL ((endpoint number ((s 4).toNat % 16)).getD (USBD_MAX_EP - 1)) then 1 else 0
  else p.buffer

/-- An answer of the driver's own, and the status stage after it. -/
def answer_with (p : Pipe) (packet : Packet) : Pipe := USBD_PrepareCtrlOut (arm p packet) 0 0

/-- The requests that read. -/
def standard_in (p : Pipe) : Pipe :=
  let s := p.g_usbd_SetupPacket
  if s 1 = 0x08 then answer_with p [p.g_usbd_UsbConfig]
  else if s 1 = 0x06 then USBD_PrepareCtrlOut (USBD_GetDescriptor info p) 0 0
  else if s 1 = 0x0A then answer_with p [p.g_usbd_UsbAltInterface]
  else if s 1 = 0x00 then answer_with p [status_byte info number p, 0]
  else stall p

/-- The requests that write. -/
def standard_out (p : Pipe) : Pipe :=
  let s := p.g_usbd_SetupPacket
  if s 1 = 0x01 then
    let p := if s 2 = 3 then stall p else p
    arm (if s 2 = 0 then
        { p with SSTALL := fun i => p.SSTALL i && !(number i == (s 4).toNat % 16 && !lock i) }
      else if s 2 = 1 then { p with g_usbd_RemoteWakeupEn := false } else p) []
  else if s 1 = 0x05 then arm { p with g_usbd_UsbAddr := s 2 } []
  else if s 1 = 0x09 then arm { p with g_usbd_UsbConfig := s 2 } []
  else if s 1 = 0x03 then
    arm (if s 2 = 0 then
        { p with SSTALL := fun i => p.SSTALL i || some i == endpoint number ((s 4).toNat % 16) }
      else if s 2 = 1 then { p with g_usbd_RemoteWakeupEn := true } else p) []
  else if s 1 = 0x0B then arm { p with g_usbd_UsbAltInterface := s 2 } []
  else stall p

def USBD_StandardRequest (p : Pipe) : Pipe :=
  let p := { p with CtrlIn := [] }
  if p.g_usbd_SetupPacket 0 &&& 0x80 = 0x80 then standard_in info number p
  else standard_out number lock p

/-- What a class or a vendor request does at endpoint 0. -/
inductive Answer
  /-- `USBD_PrepareCtrlIn`. -/
  | data (bytes : List (BitVec 8))
  /-- A packet of no bytes. -/
  | status
  /-- A stall, or nothing. -/
  | none
deriving DecidableEq

/-- What the callback for a class or a vendor request does: at endpoint 0, and a place for the bytes of
the host and their limit, if it takes any. -/
structure Reply where
  ep0 : Answer
  out : Option (ℕ × ℕ)
deriving DecidableEq

def callback (p : Pipe) (reply : Reply) : Pipe :=
  let p := match reply.out with
    | some (buf, limit) => USBD_PrepareCtrlOut p buf limit
    | Option.none => p
  match reply.ep0 with
  | .data bytes => USBD_PrepareCtrlIn info p bytes
  | .status => arm p []
  | .none => p

/-- The packet is in `g_usbd_SetupPacket`. -/
def USBD_ProcessSetupPacket (p : Pipe) (reply : Reply) : Pipe :=
  let p := { p with g_usbd_CtrlOutToggle := 0 }
  if p.g_usbd_SetupPacket 0 &&& 0x60 = 0x00 then USBD_StandardRequest info number lock p
  else if p.g_usbd_SetupPacket 0 &&& 0x60 = 0x20 ∨ p.g_usbd_SetupPacket 0 &&& 0x60 = 0x40 then
    callback info p reply
  else stall p

def USBD_CtrlIn (p : Pipe) : Pipe :=
  if p.CtrlIn ≠ [] then
    if p.CtrlIn.length > info.g_usbd_CtrlMaxPktSize then
      arm { p with CtrlIn := p.CtrlIn.drop info.g_usbd_CtrlMaxPktSize }
        (p.CtrlIn.take info.g_usbd_CtrlMaxPktSize)
    else arm { p with CtrlIn := [] } p.CtrlIn
  else
    let p :=
      if p.g_usbd_SetupPacket 0 = 0x00 ∧ p.g_usbd_SetupPacket 1 = 0x05 ∧
        p.FADDR ≠ p.g_usbd_UsbAddr ∧ p.FADDR = 0 then { p with FADDR := p.g_usbd_UsbAddr }
      else p
    if p.g_usbd_CtrlInZeroFlag then arm { p with g_usbd_CtrlInZeroFlag := false } [] else p

/-- A packet at endpoint 1, with its toggle as `USBD_EPSTS0` has it. -/
def USBD_CtrlOut (p : Pipe) (toggle : ℕ) (packet : Packet) : Pipe :=
  if p.g_usbd_CtrlOutToggle ≠ toggle then
    let p := { p with g_usbd_CtrlOutToggle := toggle }
    if p.g_usbd_CtrlOutSize < p.g_usbd_CtrlOutSizeLimit then
      { p with
        writes := p.writes ++ packet.mapIdx fun i b => (p.g_usbd_CtrlOutPointer + i, b)
        g_usbd_CtrlOutPointer := p.g_usbd_CtrlOutPointer + packet.length
        g_usbd_CtrlOutSize := p.g_usbd_CtrlOutSize + packet.length }
    else p
  else p

end Driver

/-! ### What a SETUP asks for -/

section Spec

variable (info : S_USBD_INFO_T) (number : ℕ → ℕ)

/-- The descriptor that a request names. -/
def descriptor (s : ℕ → BitVec 8) : Option (List (BitVec 8)) :=
  if s 3 = 0x01 then some info.gu8DevDesc
  else if s 3 = 0x02 then some info.gu8ConfigDesc
  else if s 3 = 0x0F then info.gu8BosDesc
  else if s 3 = 0x21 then some ((info.gu8ConfigDesc.drop (info.gu32ConfigHidDescIdx (s 4).toNat)).take 9)
  else if s 3 = 0x22 then some (info.gu8HidReportDesc (s 4).toNat)
  else if s 3 = 0x03 ∧ (s 2).toNat < 4 then some (info.gu8StringDesc (s 2).toNat)
  else none

/-- The packets of an answer, for a request of so many bytes: those bytes of it in pieces, and a packet
of no bytes if it is shorter than that and a number of whole packets. -/
def packets (size : ℕ) (answer : List (BitVec 8)) (len : ℕ) : List Packet :=
  if answer.take len = [] then [[]]
  else pieces size (answer.take len) ++
    if answer.length < len ∧ answer.length % size = 0 then [[]] else []

/-- The answer of the driver to a standard request, in a state: the bytes for the host, or the status
stage of a request that writes. -/
def standard_answer (p : Pipe) : Answer :=
  let s := p.g_usbd_SetupPacket
  if s 0 &&& 0x80 = 0x80 then
    if s 1 = 0x08 then .data [p.g_usbd_UsbConfig]
    else if s 1 = 0x06 then (descriptor info s).elim .none .data
    else if s 1 = 0x0A then .data [p.g_usbd_UsbAltInterface]
    else if s 1 = 0x00 ∧ (s 0 = 0x80 ∨ s 0 = 0x81 ∨ s 0 = 0x82) then
      .data [status_byte info number p, 0]
    else .none
  else if s 1 = 0x01 ∨ s 1 = 0x05 ∨ s 1 = 0x09 ∨ s 1 = 0x03 ∨ s 1 = 0x0B then .status
  else .none

/-- The answer to a SETUP. -/
def answer (p : Pipe) (reply : Reply) : Answer :=
  if p.g_usbd_SetupPacket 0 &&& 0x60 = 0x00 then standard_answer info number p
  else if p.g_usbd_SetupPacket 0 &&& 0x60 = 0x20 ∨ p.g_usbd_SetupPacket 0 &&& 0x60 = 0x40 then reply.ep0
  else .none

/-- What is armed for an answer. -/
def Answer.out (s : ℕ → BitVec 8) : Answer → List Packet
  | .data bytes => packets info.g_usbd_CtrlMaxPktSize bytes (wLength s)
  | .status => [[]]
  | .none => []

/-- The place and the limit that are announced for the bytes of the host. -/
def announced (p : Pipe) (reply : Reply) : Option (ℕ × ℕ) :=
  if p.g_usbd_SetupPacket 0 &&& 0x60 = 0x00 then
    if p.g_usbd_SetupPacket 0 &&& 0x80 = 0x80 ∧ (p.g_usbd_SetupPacket 1 = 0x08 ∨
        p.g_usbd_SetupPacket 1 = 0x06 ∨ p.g_usbd_SetupPacket 1 = 0x0A ∨ p.g_usbd_SetupPacket 1 = 0x00)
    then some (0, 0) else none
  else if p.g_usbd_SetupPacket 0 &&& 0x60 = 0x20 ∨ p.g_usbd_SetupPacket 0 &&& 0x60 = 0x40 then reply.out
  else none

end Spec

/-! ### Runs -/

/-- The pipe, and what has happened since the last SETUP: the packets that its answer is, those that
endpoint 0 has been given, how many of them the host has taken, the place and limit that were
announced, the bytes of the host, and the last toggle they came with. -/
structure World where
  pipe : Pipe
  expected : List Packet
  sent : List Packet
  taken : ℕ
  announced : Option (ℕ × ℕ)
  received : List (BitVec 8)
  last : Option Bool

/-- A SETUP, with what the callback does if it is for one; the host takes a packet; the host sends one,
with its toggle. -/
inductive Event
  | setup (s : ℕ → BitVec 8) (reply : Reply)
  | in_done
  | out (data1 : Bool) (packet : Packet)

/-- `USBD_EPSTS0_EPSTS1_Msk` of an accepted packet. -/
def toggle (data1 : Bool) : ℕ := if data1 then 0x60 else 0x20

section Run

variable (info : S_USBD_INFO_T) (number : ℕ → ℕ) (lock : ℕ → Bool)

/-- The pipe when a SETUP comes: endpoint 0 is stopped, and the packet copied. -/
def Pipe.setup (p : Pipe) (s : ℕ → BitVec 8) : Pipe :=
  { p with g_usbd_SetupPacket := s, ep0 := none, writes := [] }

def World.setup (w : World) (s : ℕ → BitVec 8) (reply : Reply) : World where
  pipe := USBD_ProcessSetupPacket info number lock (w.pipe.setup s) reply
  expected := (answer info number (w.pipe.setup s) reply).out info s
  sent := (USBD_ProcessSetupPacket info number lock (w.pipe.setup s) reply).ep0.toList
  taken := 0
  announced := UsbdStd.announced (w.pipe.setup s) reply
  received := []
  last := none

def World.in_done (w : World) : World :=
  if w.pipe.ep0 = none then w
  else
    { w with
      pipe := USBD_CtrlIn info { w.pipe with ep0 := none }
      sent := w.sent ++ (USBD_CtrlIn info { w.pipe with ep0 := none }).ep0.toList
      taken := w.taken + 1 }

/-- A packet with the toggle of the one before is that one, sent again. -/
def World.out (w : World) (data1 : Bool) (packet : Packet) : World :=
  { w with
    pipe := USBD_CtrlOut w.pipe (toggle data1) packet
    received := if w.last = some data1 then w.received else w.received ++ packet
    last := some data1 }

def World.step (w : World) : Event → World
  | .setup s reply => w.setup info number lock s reply
  | .in_done => w.in_done info
  | .out data1 packet => w.out data1 packet

def World.start : World :=
  ⟨⟨fun _ => 0, [], false, 0, 0, 0, 0, 0, 0, 0, false, 0, fun _ => false, none, 0, []⟩, [], [], 0, none, [],
    none⟩

/-- Endpoint 0 has been given the packets of the answer as far as the host has taken them, and what is
stored is what the host has sent, up to the limit, at its place. -/
def World.Served (w : World) : Prop :=
  w.sent = w.expected.take (w.taken + 1) ∧
  w.pipe.writes = match w.announced with
    | some (buf, limit) => (w.received.take limit).mapIdx fun i b => (buf + i, b)
    | none => []

instance (w : World) : Decidable w.Served := by
  unfold World.Served
  infer_instance

/-- A request for a descriptor. -/
def is_descriptor (s : ℕ → BitVec 8) : Prop := s 0 &&& 0x60 = 0x00 ∧ s 0 &&& 0x80 = 0x80 ∧ s 1 = 0x06

/-- A request for the status of something other than the device, an interface or an endpoint. -/
def is_odd_status (s : ℕ → BitVec 8) : Prop :=
  s 0 &&& 0x60 = 0x00 ∧ s 0 &&& 0x80 = 0x80 ∧ s 1 = 0x00 ∧ ¬ (s 0 = 0x80 ∨ s 0 = 0x81 ∨ s 0 = 0x82)

/-- What an answer needs of the globals.  A descriptor sets all of them.  Another answer is no longer than
was asked for, and the flag is as it needs it.  A status stage needs the flag down, and after a class or a
vendor request nothing left of the last answer. -/
def Answer.suits (p : Pipe) : Answer → Prop
  | .data bytes => is_descriptor p.g_usbd_SetupPacket ∨ bytes.length ≤ wLength p.g_usbd_SetupPacket ∧
      (p.g_usbd_CtrlInZeroFlag = true ↔ bytes ≠ [] ∧ bytes.length < wLength p.g_usbd_SetupPacket ∧
        bytes.length % info.g_usbd_CtrlMaxPktSize = 0)
  | .status => p.g_usbd_CtrlInZeroFlag = false ∧ (p.g_usbd_SetupPacket 0 &&& 0x60 = 0x00 ∨ p.CtrlIn = [])
  | .none => ¬ is_odd_status p.g_usbd_SetupPacket

/-- A SETUP finds the globals as its answer needs them.  A packet of the host finds a place that was
announced for it, and fits. -/
def World.Clean (w : World) : Event → Prop
  | .setup s reply => (answer info number (w.pipe.setup s) reply).suits info (w.pipe.setup s)
  | .in_done => True
  | .out data1 packet => w.last ≠ some data1 → w.pipe.g_usbd_CtrlOutSize < w.pipe.g_usbd_CtrlOutSizeLimit →
      w.announced.isSome ∧ w.pipe.g_usbd_CtrlOutSize + packet.length ≤ w.pipe.g_usbd_CtrlOutSizeLimit

end Run

/-! ### The answer -/

variable {info : S_USBD_INFO_T} {number : ℕ → ℕ} {lock : ℕ → Bool} {p : Pipe}

theorem S_USBD_INFO_T.size_pos (info : S_USBD_INFO_T) : 0 < info.g_usbd_CtrlMaxPktSize := by
  have h := info.packet_size
  simp only [List.mem_cons, List.not_mem_nil, or_false] at h
  rw [g_usbd_CtrlMaxPktSize]
  omega

/-- A length that is not a multiple of 8 is not a number of whole packets. -/
theorem S_USBD_INFO_T.mod_ne_zero (info : S_USBD_INFO_T) {n : ℕ} (hn : n % 8 ≠ 0) :
    n % info.g_usbd_CtrlMaxPktSize ≠ 0 := by
  have h := info.packet_size
  simp only [List.mem_cons, List.not_mem_nil, or_false] at h
  rw [g_usbd_CtrlMaxPktSize]
  obtain h | h | h | h := h <;> rw [h] <;> omega

/-- The packet of no bytes that the flag stands for. -/
def zero_packet (flag : Bool) : List Packet := if flag then [[]] else []

/-- Endpoint 0 has the first of the packets, and the globals have the rest, if it has one. -/
def Ready (info : S_USBD_INFO_T) (p : Pipe) (out : List Packet) : Prop :=
  p.ep0.toList = out.take 1 ∧
  (p.ep0 ≠ none →
    pieces info.g_usbd_CtrlMaxPktSize p.CtrlIn ++ zero_packet p.g_usbd_CtrlInZeroFlag = out.drop 1)

/-- The first packet of some bytes, and what is left of them. -/
theorem prepare_ready (p : Pipe) {bytes : List (BitVec 8)} (hne : bytes ≠ []) :
    Ready info (USBD_PrepareCtrlIn info p bytes)
      (pieces info.g_usbd_CtrlMaxPktSize bytes ++ zero_packet p.g_usbd_CtrlInZeroFlag) := by
  rw [pieces_cons info.size_pos hne]
  unfold USBD_PrepareCtrlIn
  split
  · exact ⟨rfl, fun _ => rfl⟩
  · next hle =>
    rw [List.take_of_length_le (Nat.not_lt.1 hle), List.drop_of_length_le (Nat.not_lt.1 hle)]
    exact ⟨rfl, fun _ => rfl⟩

theorem prepare_ready_nil (p : Pipe) (hf : p.g_usbd_CtrlInZeroFlag = false) :
    Ready info (USBD_PrepareCtrlIn info p []) [[]] := by
  refine ⟨rfl, fun _ => ?_⟩
  show [] ++ zero_packet p.g_usbd_CtrlInZeroFlag = []
  rw [hf]
  rfl

/-- **The answer**, with the flag as it needs it. -/
theorem prepare_packets (p : Pipe) {bytes : List (BitVec 8)} {len : ℕ}
    (hf : p.g_usbd_CtrlInZeroFlag = true ↔
      bytes ≠ [] ∧ bytes.length < len ∧ bytes.length % info.g_usbd_CtrlMaxPktSize = 0) :
    Ready info (USBD_PrepareCtrlIn info p (bytes.take len))
      (packets info.g_usbd_CtrlMaxPktSize bytes len) := by
  unfold packets
  split
  · next hnil =>
    rw [hnil]
    refine prepare_ready_nil p (Bool.eq_false_iff.2 fun hflag => ?_)
    obtain ⟨hne, hlt, -⟩ := hf.1 hflag
    rw [List.take_of_length_le (Nat.le_of_lt hlt)] at hnil
    exact hne hnil
  · next hne =>
    have hready : Ready info (USBD_PrepareCtrlIn info p _) _ := prepare_ready p hne
    have hbytes : bytes ≠ [] := by
      rintro rfl
      exact hne List.take_nil
    have hzero : zero_packet p.g_usbd_CtrlInZeroFlag =
        if bytes.length < len ∧ bytes.length % info.g_usbd_CtrlMaxPktSize = 0 then [[]] else [] := by
      unfold zero_packet
      exact if_congr (hf.trans (and_iff_right hbytes)) rfl rfl
    rwa [hzero] at hready

/-- A descriptor of a fixed length, which is not a number of whole packets. -/
theorem fixed_packets (p : Pipe) (hf : p.g_usbd_CtrlInZeroFlag = false) {bytes : List (BitVec 8)} {n len : ℕ}
    (hlen : bytes.length = n) (hn : n % 8 ≠ 0) :
    Ready info (USBD_PrepareCtrlIn info p (bytes.take (min len n)))
      (packets info.g_usbd_CtrlMaxPktSize bytes len) := by
  have htake : bytes.take (min len n) = bytes.take len := by
    rw [← List.take_take, List.take_of_length_le (Nat.le_of_eq hlen)]
  rw [htake]
  refine prepare_packets p ?_
  rw [hf, hlen]
  exact iff_of_false Bool.false_ne_true fun h => info.mod_ne_zero hn h.2.2

/-- A descriptor with its length. -/
theorem sized_packets (p : Pipe) (hf : p.g_usbd_CtrlInZeroFlag = false) {bytes : List (BitVec 8)}
    (hne : bytes ≠ []) : Ready info (prepare_sized info p bytes bytes.length)
      (packets info.g_usbd_CtrlMaxPktSize bytes (wLength p.g_usbd_SetupPacket)) := by
  unfold prepare_sized
  split
  · next hlt =>
    have htake : bytes.take bytes.length = bytes.take (wLength p.g_usbd_SetupPacket) := by
      rw [List.take_length, List.take_of_length_le (Nat.le_of_lt hlt)]
    rw [htake]
    refine prepare_packets _ ?_
    split
    · next hmod => exact iff_of_true rfl ⟨hne, hlt, hmod⟩
    · next hmod =>
      rw [hf]
      exact iff_of_false Bool.false_ne_true fun h => hmod h.2.2
  · next hle =>
    refine prepare_packets p ?_
    rw [hf]
    exact iff_of_false Bool.false_ne_true fun h => hle h.2.1

/-- Endpoint 0 is left alone. -/
theorem stall_ready (hp : p.ep0 = none) : Ready info (stall p) [] :=
  ⟨congrArg Option.toList hp, fun h => absurd hp h⟩

/-- **Descriptors**: the flag is set anew. -/
theorem descriptor_ready (hp : p.ep0 = none) : Ready info (USBD_GetDescriptor info p)
    (((descriptor info p.g_usbd_SetupPacket).elim [] fun d =>
      packets info.g_usbd_CtrlMaxPktSize d (wLength p.g_usbd_SetupPacket))) := by
  unfold USBD_GetDescriptor descriptor
  simp only []
  by_cases h1 : p.g_usbd_SetupPacket 3 = 0x01
  · rw [if_pos h1, if_pos h1]
    exact fixed_packets _ rfl info.device_length (by decide)
  rw [if_neg h1, if_neg h1]
  by_cases h2 : p.g_usbd_SetupPacket 3 = 0x02
  · rw [if_pos h2, if_pos h2, ← info.config_length.1]
    exact sized_packets _ rfl info.config_length.2
  rw [if_neg h2, if_neg h2]
  by_cases h3 : p.g_usbd_SetupPacket 3 = 0x0F
  · rw [if_pos h3, if_pos h3]
    split
    · next hbos => rw [hbos]; exact stall_ready hp
    · next d hbos =>
      rw [hbos]
      exact fixed_packets _ rfl (info.bos_length d hbos) (by decide)
  rw [if_neg h3, if_neg h3]
  by_cases h4 : p.g_usbd_SetupPacket 3 = 0x21
  · rw [if_pos h4, if_pos h4]
    have hlen := info.hid_length (p.g_usbd_SetupPacket 4).toNat
    have hnine : ((info.gu8ConfigDesc.drop (info.gu32ConfigHidDescIdx (p.g_usbd_SetupPacket 4).toNat)).take
        9).length = 9 := by
      rw [List.length_take, List.length_drop]
      omega
    have hready : Ready info _ (packets info.g_usbd_CtrlMaxPktSize _ (wLength p.g_usbd_SetupPacket)) :=
      fixed_packets { p with g_usbd_CtrlInZeroFlag := false } rfl hnine (by decide)
    rwa [List.take_take, Nat.min_assoc, Nat.min_self] at hready
  rw [if_neg h4, if_neg h4]
  by_cases h5 : p.g_usbd_SetupPacket 3 = 0x22
  · rw [if_pos h5, if_pos h5, ← (info.report_length _).1]
    exact sized_packets _ rfl (info.report_length _).2
  rw [if_neg h5, if_neg h5]
  by_cases h6 : p.g_usbd_SetupPacket 3 = 0x03
  · rw [if_pos h6]
    by_cases h7 : (p.g_usbd_SetupPacket 2).toNat < 4
    · rw [if_pos h7, if_pos ⟨h6, h7⟩, ← (info.string_length _ h7).1]
      exact sized_packets _ rfl (info.string_length _ h7).2
    · rw [if_neg h7, if_neg fun h => h7 h.2]
      exact stall_ready hp
  · rw [if_neg h6, if_neg fun h => h6 h.1]
    exact stall_ready hp

/-- A packet of the driver's own is the only one. -/
theorem arm_ready {packet : Packet} (hc : p.CtrlIn = []) (hf : p.g_usbd_CtrlInZeroFlag = false) :
    Ready info (arm p packet) [packet] := by
  refine ⟨rfl, fun _ => ?_⟩
  show pieces _ p.CtrlIn ++ zero_packet p.g_usbd_CtrlInZeroFlag = []
  rw [hc, hf]
  rfl

/-- Announcing a place for the bytes of the host leaves endpoint 0 alone. -/
theorem ready_out {out : List Packet} (h : Ready info p out) (buf limit : ℕ) :
    Ready info (USBD_PrepareCtrlOut p buf limit) out := h

/-- A short answer of the driver's own, to a request for all of it. -/
theorem own_packets (info : S_USBD_INFO_T) (packet : Packet) {len : ℕ} (hpos : packet ≠ [])
    (hshort : packet.length < 8) (hlen : packet.length ≤ len) :
    packets info.g_usbd_CtrlMaxPktSize packet len = [packet] := by
  have hne := List.length_pos_iff.2 hpos
  have hmod := info.mod_ne_zero (n := packet.length) (by omega)
  have hsize : packet.length ≤ info.g_usbd_CtrlMaxPktSize := by
    have h := info.packet_size
    simp only [List.mem_cons, List.not_mem_nil, or_false] at h
    rw [S_USBD_INFO_T.g_usbd_CtrlMaxPktSize]
    omega
  rw [packets, List.take_of_length_le hlen, if_neg hpos, pieces_cons info.size_pos hpos,
    List.take_of_length_le hsize, List.drop_of_length_le hsize, pieces_nil, if_neg fun h => hmod h.2]
  rfl

/-- An answer of the driver's own. -/
theorem own_ready {packet : Packet} (hpos : packet ≠ []) (hshort : packet.length < 8) (hcin : p.CtrlIn = [])
    (hdesc : ¬ is_descriptor p.g_usbd_SetupPacket) (hc : (Answer.data packet).suits info p) :
    Ready info (answer_with p packet) ((Answer.data packet).out info p.g_usbd_SetupPacket) := by
  obtain ⟨hlen, hf⟩ := hc.resolve_left hdesc
  have hflag : p.g_usbd_CtrlInZeroFlag = false := by
    refine Bool.eq_false_iff.2 fun hflag => info.mod_ne_zero ?_ (hf.1 hflag).2.2
    have := List.length_pos_iff.2 hpos
    omega
  show Ready info _ (packets info.g_usbd_CtrlMaxPktSize _ _)
  rw [own_packets info packet hpos hshort hlen]
  exact ready_out (arm_ready hcin hflag) 0 0

/-- **Reading requests**. -/
theorem standard_in_ready (hep0 : p.ep0 = none) (hcin : p.CtrlIn = [])
    (hstd : p.g_usbd_SetupPacket 0 &&& 0x60 = 0x00) (hin : p.g_usbd_SetupPacket 0 &&& 0x80 = 0x80)
    (hc : (standard_answer info number p).suits info p) :
    Ready info (standard_in info number p) ((standard_answer info number p).out info p.g_usbd_SetupPacket) := by
  unfold standard_answer at hc ⊢
  unfold standard_in
  simp only [if_pos hin] at hc ⊢
  have hdesc {n : BitVec 8} (hn : p.g_usbd_SetupPacket 1 = n) (hne : n ≠ 0x06) :
      ¬ is_descriptor p.g_usbd_SetupPacket := fun h => hne (hn.symm.trans h.2.2)
  by_cases h1 : p.g_usbd_SetupPacket 1 = 0x08
  · rw [if_pos h1] at hc ⊢
    rw [if_pos h1]
    exact own_ready (List.cons_ne_nil _ _) (by simp) hcin (hdesc h1 (by decide)) hc
  rw [if_neg h1] at hc ⊢
  rw [if_neg h1]
  by_cases h2 : p.g_usbd_SetupPacket 1 = 0x06
  · rw [if_pos h2, if_pos h2]
    have hdesc : Ready info (USBD_GetDescriptor info p) _ := descriptor_ready hep0
    have hready := ready_out hdesc 0 0
    cases hd : descriptor info p.g_usbd_SetupPacket <;> rw [hd] at hready <;> exact hready
  rw [if_neg h2] at hc ⊢
  rw [if_neg h2]
  by_cases h3 : p.g_usbd_SetupPacket 1 = 0x0A
  · rw [if_pos h3] at hc ⊢
    rw [if_pos h3]
    exact own_ready (List.cons_ne_nil _ _) (by simp) hcin (hdesc h3 (by decide)) hc
  rw [if_neg h3] at hc ⊢
  rw [if_neg h3]
  by_cases h4 : p.g_usbd_SetupPacket 1 = 0x00
  · rw [if_pos h4]
    by_cases h5 : p.g_usbd_SetupPacket 0 = 0x80 ∨ p.g_usbd_SetupPacket 0 = 0x81 ∨ p.g_usbd_SetupPacket 0 = 0x82
    · rw [if_pos ⟨h4, h5⟩] at hc ⊢
      exact own_ready (List.cons_ne_nil _ _) (by simp) hcin (hdesc h4 (by decide)) hc
    · rw [if_neg fun h => h5 h.2] at hc
      exact absurd ⟨hstd, hin, h4, h5⟩ hc
  · rw [if_neg h4, if_neg fun h => h4 h.1]
    exact stall_ready hep0

/-- **Writing requests**. -/
theorem standard_out_ready (hep0 : p.ep0 = none) (hcin : p.CtrlIn = [])
    (hin : ¬ p.g_usbd_SetupPacket 0 &&& 0x80 = 0x80) (hc : (standard_answer info number p).suits info p) :
    Ready info (standard_out number lock p) ((standard_answer info number p).out info p.g_usbd_SetupPacket) := by
  unfold standard_answer at hc ⊢
  unfold standard_out
  simp only [if_neg hin] at hc ⊢
  by_cases hreq : p.g_usbd_SetupPacket 1 = 0x01 ∨ p.g_usbd_SetupPacket 1 = 0x05 ∨
      p.g_usbd_SetupPacket 1 = 0x09 ∨ p.g_usbd_SetupPacket 1 = 0x03 ∨ p.g_usbd_SetupPacket 1 = 0x0B
  · rw [if_pos hreq] at hc ⊢
    have hstatus {q : Pipe} (hq : q.CtrlIn = p.CtrlIn ∧ q.g_usbd_CtrlInZeroFlag = p.g_usbd_CtrlInZeroFlag) :
        Ready info (arm q []) [[]] := arm_ready (hq.1.trans hcin) (hq.2.trans hc.1)
    by_cases h1 : p.g_usbd_SetupPacket 1 = 0x01
    · rw [if_pos h1]
      refine hstatus ?_
      split <;> split <;> (try split) <;> exact ⟨rfl, rfl⟩
    rw [if_neg h1]
    by_cases h2 : p.g_usbd_SetupPacket 1 = 0x05
    · rw [if_pos h2]
      exact hstatus ⟨rfl, rfl⟩
    rw [if_neg h2]
    by_cases h3 : p.g_usbd_SetupPacket 1 = 0x09
    · rw [if_pos h3]
      exact hstatus ⟨rfl, rfl⟩
    rw [if_neg h3]
    by_cases h4 : p.g_usbd_SetupPacket 1 = 0x03
    · rw [if_pos h4]
      refine hstatus ?_
      split <;> (try split) <;> exact ⟨rfl, rfl⟩
    rw [if_neg h4, if_pos (by tauto)]
    exact hstatus ⟨rfl, rfl⟩
  · rw [if_neg hreq]
    simp only [not_or] at hreq
    obtain ⟨h1, h2, h3, h4, h5⟩ := hreq
    rw [if_neg h1, if_neg h2, if_neg h3, if_neg h4, if_neg h5]
    exact stall_ready hep0

/-- **The callback**. -/
theorem callback_ready (hep0 : p.ep0 = none) (reply : Reply) (hcls : ¬ p.g_usbd_SetupPacket 0 &&& 0x60 = 0x00)
    (hc : reply.ep0.suits info p) :
    Ready info (callback info p reply) (reply.ep0.out info p.g_usbd_SetupPacket) := by
  have hdesc : ¬ is_descriptor p.g_usbd_SetupPacket := fun h => hcls h.1
  obtain ⟨ans, out⟩ := reply
  cases ans with
  | data bytes =>
    obtain ⟨hlen, hf⟩ := hc.resolve_left hdesc
    have hready (q : Pipe) (hq : q.g_usbd_CtrlInZeroFlag = p.g_usbd_CtrlInZeroFlag) :
        Ready info (USBD_PrepareCtrlIn info q bytes)
          (packets info.g_usbd_CtrlMaxPktSize bytes (wLength p.g_usbd_SetupPacket)) := by
      rw [← hq] at hf
      have h : Ready info (USBD_PrepareCtrlIn info q _) _ := prepare_packets q hf
      rwa [List.take_of_length_le hlen] at h
    cases out <;> exact hready _ rfl
  | status =>
    obtain ⟨hflag, hrest⟩ := hc
    have hcin := hrest.resolve_left hcls
    cases out <;> exact arm_ready hcin hflag
  | none => cases out <;> exact stall_ready hep0

/-- **A SETUP**: endpoint 0 and the globals are ready for its answer. -/
theorem setup_ready (hep0 : p.ep0 = none) (reply : Reply) (hc : (answer info number p reply).suits info p) :
    Ready info (USBD_ProcessSetupPacket info number lock p reply)
      ((answer info number p reply).out info p.g_usbd_SetupPacket) := by
  unfold answer at hc ⊢
  unfold USBD_ProcessSetupPacket
  simp only []
  by_cases hstd : p.g_usbd_SetupPacket 0 &&& 0x60 = 0x00
  · rw [if_pos hstd] at hc ⊢
    rw [if_pos hstd]
    unfold USBD_StandardRequest
    simp only []
    -- a standard request forgets the last answer
    have hc' : (standard_answer info number { p with g_usbd_CtrlOutToggle := 0, CtrlIn := [] }).suits info
        { p with g_usbd_CtrlOutToggle := 0, CtrlIn := [] } := by
      show (standard_answer info number p).suits info _
      cases hans : standard_answer info number p with
      | data bytes => rw [hans] at hc; exact hc
      | status => rw [hans] at hc; exact ⟨hc.1, .inl hstd⟩
      | none => rw [hans] at hc; exact hc
    by_cases hin : p.g_usbd_SetupPacket 0 &&& 0x80 = 0x80
    · rw [if_pos hin]
      exact standard_in_ready (p := { p with g_usbd_CtrlOutToggle := 0, CtrlIn := [] }) hep0 rfl hstd hin hc'
    · rw [if_neg hin]
      exact standard_out_ready (p := { p with g_usbd_CtrlOutToggle := 0, CtrlIn := [] }) hep0 rfl hin hc'
  · rw [if_neg hstd] at hc ⊢
    rw [if_neg hstd]
    by_cases hcls : p.g_usbd_SetupPacket 0 &&& 0x60 = 0x20 ∨ p.g_usbd_SetupPacket 0 &&& 0x60 = 0x40
    · rw [if_pos hcls] at hc ⊢
      rw [if_pos hcls]
      exact callback_ready (p := { p with g_usbd_CtrlOutToggle := 0 }) hep0 reply hstd hc
    · rw [if_neg hcls, if_neg hcls]
      exact stall_ready hep0

/-- **The next packet**: the host has taken one. -/
theorem ctrlIn_ready (hep0 : p.ep0 = none) {out : List Packet}
    (hrest : pieces info.g_usbd_CtrlMaxPktSize p.CtrlIn ++ zero_packet p.g_usbd_CtrlInZeroFlag = out) :
    Ready info (USBD_CtrlIn info p) out := by
  unfold USBD_CtrlIn
  by_cases hcin : p.CtrlIn = []
  · rw [if_neg (not_not.2 hcin)]
    rw [hcin, pieces_nil, List.nil_append] at hrest
    subst hrest
    have hlast (q : Pipe) (hq : q.ep0 = none ∧ q.CtrlIn = []) :
        Ready info (if q.g_usbd_CtrlInZeroFlag then arm { q with g_usbd_CtrlInZeroFlag := false } [] else q)
          (zero_packet q.g_usbd_CtrlInZeroFlag) := by
      split
      · next hflag =>
        rw [hflag]
        exact arm_ready (p := { q with g_usbd_CtrlInZeroFlag := false }) hq.2 rfl
      · next hflag =>
        rw [Bool.eq_false_iff.2 hflag]
        exact ⟨congrArg Option.toList hq.1, fun h => absurd hq.1 h⟩
    simp only []
    split
    · exact hlast { p with FADDR := p.g_usbd_UsbAddr } ⟨hep0, hcin⟩
    · exact hlast p ⟨hep0, hcin⟩
  · rw [if_pos hcin]
    rw [pieces_cons info.size_pos hcin] at hrest
    subst hrest
    split
    · exact ⟨rfl, fun _ => rfl⟩
    · next hle =>
      rw [List.take_of_length_le (Nat.not_lt.1 hle), List.drop_of_length_le (Nat.not_lt.1 hle)]
      exact ⟨rfl, fun _ => rfl⟩

/-! ### The bytes of the host -/

/-- What concerns the bytes of the host. -/
def Pipe.outs (p : Pipe) : ℕ × ℕ × ℕ × ℕ × List (ℕ × BitVec 8) :=
  (p.g_usbd_CtrlOutPointer, p.g_usbd_CtrlOutSize, p.g_usbd_CtrlOutSizeLimit, p.g_usbd_CtrlOutToggle, p.writes)

@[simp] theorem arm_outs (p : Pipe) (packet : Packet) : (arm p packet).outs = p.outs := rfl

@[simp] theorem stall_outs (p : Pipe) : (stall p).outs = p.outs := rfl

@[simp] theorem prepareCtrlIn_outs (p : Pipe) (buf : List (BitVec 8)) :
    (USBD_PrepareCtrlIn info p buf).outs = p.outs := by
  unfold USBD_PrepareCtrlIn
  split <;> rfl

@[simp] theorem prepare_sized_outs (p : Pipe) (desc : List (BitVec 8)) (size : ℕ) :
    (prepare_sized info p desc size).outs = p.outs := by
  unfold prepare_sized
  split
  · rw [prepareCtrlIn_outs]
    split <;> rfl
  · exact prepareCtrlIn_outs p _

theorem getDescriptor_outs (p : Pipe) : (USBD_GetDescriptor info p).outs = p.outs := by
  unfold USBD_GetDescriptor
  simp only []
  split
  · rw [prepareCtrlIn_outs]; rfl
  split
  · rw [prepare_sized_outs]; rfl
  split
  · split
    · rfl
    · rw [prepareCtrlIn_outs]; rfl
  split
  · rw [prepareCtrlIn_outs]; rfl
  split
  · rw [prepare_sized_outs]; rfl
  split
  · split
    · rw [prepare_sized_outs]; rfl
    · rfl
  · rfl

theorem standard_out_outs (p : Pipe) : (standard_out number lock p).outs = p.outs := by
  unfold standard_out
  simp only []
  split
  · rw [arm_outs]
    split <;> split <;> (try split) <;> rfl
  split
  · rfl
  split
  · rfl
  split
  · rw [arm_outs]
    split <;> (try split) <;> rfl
  split <;> rfl

theorem ctrlIn_outs (p : Pipe) : (USBD_CtrlIn info p).outs = p.outs := by
  unfold USBD_CtrlIn
  simp only []
  split
  · split <;> rfl
  · split <;> split <;> rfl

theorem prepareCtrlOut_outs (p : Pipe) (buf limit : ℕ) :
    (USBD_PrepareCtrlOut p buf limit).outs = (buf, 0, limit, p.outs.2.2.2.1, p.outs.2.2.2.2) := rfl

theorem standard_in_outs (p : Pipe) : (standard_in info number p).outs =
    if p.g_usbd_SetupPacket 1 = 0x08 ∨ p.g_usbd_SetupPacket 1 = 0x06 ∨ p.g_usbd_SetupPacket 1 = 0x0A ∨
        p.g_usbd_SetupPacket 1 = 0x00
    then (0, 0, 0, p.g_usbd_CtrlOutToggle, p.writes) else p.outs := by
  unfold standard_in
  simp only []
  by_cases h1 : p.g_usbd_SetupPacket 1 = 0x08
  · rw [if_pos h1, if_pos (.inl h1)]; rfl
  rw [if_neg h1]
  by_cases h2 : p.g_usbd_SetupPacket 1 = 0x06
  · rw [if_pos h2, if_pos (.inr (.inl h2)), prepareCtrlOut_outs, getDescriptor_outs]; rfl
  rw [if_neg h2]
  by_cases h3 : p.g_usbd_SetupPacket 1 = 0x0A
  · rw [if_pos h3, if_pos (.inr (.inr (.inl h3)))]; rfl
  rw [if_neg h3]
  by_cases h4 : p.g_usbd_SetupPacket 1 = 0x00
  · rw [if_pos h4, if_pos (.inr (.inr (.inr h4)))]; rfl
  · rw [if_neg h4, if_neg (by tauto), stall_outs]

/-- **A SETUP**: the place that it announces, or the one that was there. -/
theorem setup_outs (p : Pipe) (reply : Reply) : (USBD_ProcessSetupPacket info number lock p reply).outs =
    match announced p reply with
    | some (buf, limit) => (buf, 0, limit, 0, p.writes)
    | none => (p.g_usbd_CtrlOutPointer, p.g_usbd_CtrlOutSize, p.g_usbd_CtrlOutSizeLimit, 0, p.writes) := by
  unfold USBD_ProcessSetupPacket announced
  simp only []
  by_cases hstd : p.g_usbd_SetupPacket 0 &&& 0x60 = 0x00
  · rw [if_pos hstd, if_pos hstd]
    unfold USBD_StandardRequest
    simp only []
    by_cases hin : p.g_usbd_SetupPacket 0 &&& 0x80 = 0x80
    · rw [if_pos hin, standard_in_outs]
      simp only [hin, true_and]
      split <;> rfl
    · rw [if_neg hin, standard_out_outs, if_neg fun h => hin h.1]
      rfl
  · rw [if_neg hstd, if_neg hstd]
    by_cases hcls : p.g_usbd_SetupPacket 0 &&& 0x60 = 0x20 ∨ p.g_usbd_SetupPacket 0 &&& 0x60 = 0x40
    · rw [if_pos hcls, if_pos hcls]
      obtain ⟨ans, out⟩ := reply
      unfold callback
      cases ans <;> cases out <;> simp only [prepareCtrlIn_outs, arm_outs] <;> rfl
    · rw [if_neg hcls, if_neg hcls]
      rfl

/-! ### Every transfer -/

/-- What is left of an answer is in the globals while endpoint 0 has a packet, and what is stored is what
the host has sent. -/
structure Inv (info : S_USBD_INFO_T) (w : World) : Prop where
  sent : w.sent = w.expected.take (w.taken + 1)
  rest : w.pipe.ep0 ≠ none →
    pieces info.g_usbd_CtrlMaxPktSize w.pipe.CtrlIn ++ zero_packet w.pipe.g_usbd_CtrlInZeroFlag =
      w.expected.drop (w.taken + 1)
  toggled : w.pipe.g_usbd_CtrlOutToggle = w.last.elim 0 toggle
  stored : w.pipe.writes = match w.announced with
    | some (buf, limit) => (w.received.take limit).mapIdx fun i b => (buf + i, b)
    | none => []
  place : ∀ buf limit, w.announced = some (buf, limit) → w.pipe.g_usbd_CtrlOutSizeLimit = limit ∧
    w.pipe.g_usbd_CtrlOutSize = min w.received.length limit ∧
    w.pipe.g_usbd_CtrlOutPointer = buf + w.pipe.g_usbd_CtrlOutSize

theorem Inv.start (info : S_USBD_INFO_T) : Inv info .start :=
  ⟨rfl, fun h => absurd rfl h, rfl, rfl, fun _ _ h => nomatch h⟩

variable {w : World}

theorem Inv.setup {s : ℕ → BitVec 8} {reply : Reply} (hc : w.Clean info number (.setup s reply)) :
    Inv info (w.setup info number lock s reply) := by
  have hready : Ready info (USBD_ProcessSetupPacket info number lock (w.pipe.setup s) reply) _ :=
    setup_ready rfl reply hc
  obtain ⟨hfirst, hrest⟩ := hready
  have houts : (USBD_ProcessSetupPacket info number lock (w.pipe.setup s) reply).outs = _ :=
    setup_outs (w.pipe.setup s) reply
  refine ⟨hfirst, hrest, ?_, ?_, fun buf limit ha => ?_⟩
  · show (USBD_ProcessSetupPacket info number lock (w.pipe.setup s) reply).outs.2.2.2.1 = 0
    rw [houts]
    split <;> rfl
  · show (USBD_ProcessSetupPacket info number lock (w.pipe.setup s) reply).outs.2.2.2.2 = _
    rw [houts]
    show _ = match announced (w.pipe.setup s) reply with | some (buf, limit) => _ | none => _
    cases announced (w.pipe.setup s) reply with
    | none => rfl
    | some place => simp [World.setup, Pipe.setup]
  · replace ha : announced (w.pipe.setup s) reply = some (buf, limit) := ha
    rw [ha] at houts
    simp only [Pipe.outs, Prod.mk.injEq] at houts
    obtain ⟨hbuf, hsize, hlimit, -, -⟩ := houts
    refine ⟨hlimit, ?_, ?_⟩
    · show (USBD_ProcessSetupPacket info number lock (w.pipe.setup s) reply).g_usbd_CtrlOutSize = min 0 limit
      rw [hsize, Nat.zero_min]
    · show (USBD_ProcessSetupPacket info number lock (w.pipe.setup s) reply).g_usbd_CtrlOutPointer = buf +
        (USBD_ProcessSetupPacket info number lock (w.pipe.setup s) reply).g_usbd_CtrlOutSize
      rw [hbuf, hsize, Nat.add_zero]

theorem Inv.in_done (h : Inv info w) : Inv info (w.in_done info) := by
  unfold World.in_done
  split
  · exact h
  · next hep0 =>
    obtain ⟨hfirst, hrest⟩ := ctrlIn_ready (p := { w.pipe with ep0 := none }) rfl (h.rest hep0)
    have houts : (USBD_CtrlIn info { w.pipe with ep0 := none }).outs = _ := ctrlIn_outs _
    simp only [Pipe.outs, Prod.mk.injEq] at houts
    obtain ⟨hptr, hsize, hlimit, htoggle, hwrites⟩ := houts
    refine ⟨?_, fun hep0' => ?_, htoggle.trans h.toggled, hwrites.trans h.stored, fun buf limit ha => ?_⟩
    · show w.sent ++ _ = w.expected.take (w.taken + 1 + 1)
      rw [hfirst, h.sent, ← List.take_add]
    · rw [hrest hep0', List.drop_drop]
    · obtain ⟨hl, hs, hp⟩ := h.place buf limit ha
      exact ⟨hlimit.trans hl, hsize.trans hs, by rw [hptr, hsize, hp]⟩

theorem toggle_inj {a b : Bool} (h : toggle a = toggle b) : a = b := by
  cases a <;> cases b <;> simp [toggle] at h ⊢

/-- The driver and the bus agree on what is sent again. -/
theorem Inv.repeated (h : Inv info w) (data1 : Bool) :
    w.pipe.g_usbd_CtrlOutToggle = toggle data1 ↔ w.last = some data1 := by
  rw [h.toggled]
  cases w.last with
  | none =>
    refine iff_of_false (fun h0 => ?_) fun h => nomatch h
    cases data1 <;> simp [toggle] at h0
  | some b =>
    exact ⟨fun hb => congrArg some (toggle_inj hb), fun hb => congrArg toggle (Option.some.inj hb)⟩

theorem Inv.out (h : Inv info w) {data1 : Bool} {packet : Packet}
    (hc : w.Clean info number (.out data1 packet)) : Inv info (w.out data1 packet) := by
  have hagain := h.repeated data1
  unfold World.out USBD_CtrlOut
  simp only []
  by_cases hlast : w.last = some data1
  · rw [if_neg (not_not.2 (hagain.2 hlast)), if_pos hlast]
    exact ⟨h.sent, h.rest, hagain.2 hlast, h.stored, h.place⟩
  rw [if_pos (mt hagain.1 hlast), if_neg hlast]
  by_cases hroom : w.pipe.g_usbd_CtrlOutSize < w.pipe.g_usbd_CtrlOutSizeLimit
  · obtain ⟨hsome, hfit⟩ := hc hlast hroom
    obtain ⟨⟨buf, limit⟩, ha⟩ := Option.isSome_iff_exists.1 hsome
    obtain ⟨hlimit, hsize, hptr⟩ := h.place buf limit ha
    have hstored := h.stored
    rw [ha] at hstored
    simp only at hstored
    rw [if_pos hroom]
    -- everything so far has been stored
    have hall : w.pipe.g_usbd_CtrlOutSize = w.received.length := by omega
    refine ⟨h.sent, h.rest, rfl, ?_, fun buf' limit' ha' => ?_⟩
    · rw [ha]
      simp only
      rw [List.take_of_length_le (by rw [List.length_append]; omega), List.mapIdx_append, hstored,
        List.take_of_length_le (by omega), hptr, hall]
      simp only [Nat.add_assoc, Nat.add_comm w.received.length]
    · obtain ⟨rfl, rfl⟩ := Prod.mk.inj (Option.some.inj (ha.symm.trans ha'))
      refine ⟨hlimit, ?_, ?_⟩
      · show w.pipe.g_usbd_CtrlOutSize + packet.length = min (w.received ++ packet).length limit
        rw [List.length_append]
        omega
      · show w.pipe.g_usbd_CtrlOutPointer + packet.length = buf + (w.pipe.g_usbd_CtrlOutSize + packet.length)
        omega
  · rw [if_neg hroom]
    refine ⟨h.sent, h.rest, rfl, ?_, fun buf limit ha => ?_⟩
    · show w.pipe.writes = _
      rw [h.stored]
      cases ha : w.announced with
      | none => rfl
      | some place =>
        obtain ⟨hlimit, hsize, -⟩ := h.place place.1 place.2 ha
        show _ = ((w.received ++ packet).take place.2).mapIdx _
        rw [List.take_append_of_le_length (by omega)]
    · obtain ⟨hlimit, hsize, hptr⟩ := h.place buf limit ha
      refine ⟨hlimit, ?_, hptr⟩
      show w.pipe.g_usbd_CtrlOutSize = min (w.received ++ packet).length limit
      rw [List.length_append]
      omega

/-- **A step** that is clean. -/
theorem Inv.step (h : Inv info w) (e : Event) (hc : w.Clean info number e) :
    Inv info (w.step info number lock e) := by
  cases e with
  | setup s reply => exact Inv.setup hc
  | in_done => exact h.in_done
  | out data1 packet => exact h.out hc

/-- A device with packets of 8 bytes, and a configuration of 16. -/
def device : S_USBD_INFO_T where
  gu8DevDesc := [18, 1, 0, 2, 0, 0, 0, 8, 0x16, 0x04, 0x00, 0xB0, 0, 0, 1, 2, 0, 1]
  gu8ConfigDesc := [9, 2, 16, 0, 1, 1, 0, 0x80, 50, 7, 5, 0x81, 3, 8, 0, 1]
  gu8StringDesc _ := [4, 3, 9, 4]
  gu8HidReportDesc _ := [5, 1]
  gu8BosDesc := none
  gu32HidReportSize _ := 2
  gu32ConfigHidDescIdx _ := 0
  device_length := rfl
  packet_size := by decide
  config_length := by decide
  string_length := by decide
  report_length _ := by decide
  bos_length _ h := by cases h
  hid_length _ := by decide

/-- The eight bytes of a SETUP. -/
def request (bytes : List (BitVec 8)) (i : ℕ) : BitVec 8 := bytes.getD i 0

/-- GET_DESCRIPTOR(configuration), for 255 bytes. -/
def get_configuration_descriptor : Event :=
  .setup (request [0x80, 0x06, 0, 2, 0, 0, 255, 0]) ⟨.none, none⟩

end UsbdStd
