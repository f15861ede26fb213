/-
The OHCI host controller driver.

Endpoint descriptors (EDs) and transfer descriptors (TDs) are units of one pool; pointers
are unit numbers.  The driver links EDs into the control list, the bulk list and the
interrupt lists, which hang behind one another on the nodes `_Ied[5]` to `_Ied[0]`; TDs
hang on their ED until the controller moves them to the done list.  An endpoint that is
quit goes to a removal list, which the interrupt handler works off before the done list.

Searches along a list end after as many nodes as the pool has units: a list without a
cycle is not longer.
-/
import Mathlib.Data.BitVec
import NuMaker.Lib.Links
import NuMaker.Usb.Host

namespace Ohci

def MEM_POOL_UNIT_NUM : ℕ := 256
def IF_PER_UTR : ℕ := 8
def OHCI_ISO_DELAY : BitVec 16 := 4
def USBH_ERR_MEMORY_OUT : ℤ := -10
def USBH_ERR_INVALID_PARAM : ℤ := -105
def USBH_ERR_NOT_FOUND : ℤ := -106
def USBH_ERR_TRANSFER : ℤ := -201
def USBH_ERR_ABORT : ℤ := -205
def USBH_ERR_SCH_OVERRUN : ℤ := -257
def USBH_ERR_CC_NO_ERR : ℤ := -280
def USBH_ERR_STALL : ℤ := -284
def USBH_ERR_NOT_ACCESS1 : ℤ := -295
def USBH_ERR_OHCI_EP_BUSY : ℤ := -303
def ED_EP_ADDR_Msk : BitVec 32 := 0xF <<< 7
def ED_DIR_OUT : BitVec 32 := 1 <<< 11
def ED_DIR_IN : BitVec 32 := 2 <<< 11
def ED_SPEED_LOW : BitVec 32 := 1 <<< 13
def ED_SKIP : BitVec 32 := 1 <<< 14
def ED_FORMAT_ISO : BitVec 32 := 1 <<< 15
def TD_CC : BitVec 32 := 0xF0000000
def TD_T_DATA0 : BitVec 32 := 0x02000000
def TD_T_DATA1 : BitVec 32 := 0x03000000
def TD_R : BitVec 32 := 0x00040000
def TD_DP_IN : BitVec 32 := 0x00100000
def TD_DP_OUT : BitVec 32 := 0x00080000
def TD_TYPE_Msk : BitVec 32 := 3 <<< 16
def TD_TYPE_CTRL : BitVec 32 := 0 <<< 16
def TD_TYPE_BULK : BitVec 32 := 1 <<< 16
def TD_TYPE_INT : BitVec 32 := 2 <<< 16
def TD_TYPE_ISO : BitVec 32 := 3 <<< 16
def TD_CTRL_DATA : BitVec 32 := 1 <<< 15
def TOGGLE : BitVec 32 := 1 <<< 25
def CC_NOERROR : ℕ := 0
def CC_STALL : ℕ := 4
def CC_DATA_UNDERRUN : ℕ := 9

/-! ### Data -/

/-- `ED_T`; the two low bits of `HeadP` are apart. -/
structure ED_T where
  Info : BitVec 32
  TailP : Option ℕ
  HeadP : Option ℕ
  halted : Bool
  toggleCarry : Bool
  NextED : Option ℕ
  bInterval : BitVec 8
  next_sf : BitVec 16
  next : Option ℕ
  deriving DecidableEq, Repr

/-- `TD_T`, with `PSW[0]`. -/
structure TD_T where
  Info : BitVec 32
  CBP : BitVec 32
  NextTD : Option ℕ
  BE : BitVec 32
  PSW : BitVec 16
  buff_start : BitVec 32
  ed : Option ℕ
  utr : Option ℕ
  deriving DecidableEq, Repr

/-- `UDEV_T`, as far as the driver uses it, with the address of `ep0`. -/
structure UDEV_T where
  low : Bool
  dev_num : BitVec 8
  bMaxPacketSize0 : BitVec 8
  ep0 : ℕ
  deriving DecidableEq, Repr

/-- `UTR_T`, with the address of `setup` and how often the call-back has run. -/
structure UTR_T where
  udev : UDEV_T
  bmRequestType : BitVec 8
  setup : BitVec 32
  ep : Option ℕ
  buff : BitVec 32
  bIsTransferDone : Bool
  data_len : BitVec 32
  xfer_len : BitVec 32
  bIsoNewSched : Bool
  iso_sf : BitVec 16
  iso_xlen : ℕ → BitVec 16
  iso_buff : ℕ → BitVec 32
  iso_status : ℕ → ℤ
  td_cnt : ℤ
  status : ℤ
  func : Bool
  calls : ℕ

/-- What happens to a unit: whether it was in use, and for an ED whether it was on a
list of the controller. -/
inductive Event
  | td_done (td : ℕ) (used : Bool)
  | free_ohci_TD (td : ℕ) (used : Bool)
  | free_ohci_ED (ed : ℕ) (used linked : Bool)
  deriving DecidableEq, Repr

/-- The pool, the lists, the transfer requests, the endpoint records, and what has
happened. -/
structure State where
  unit_used : ℕ → Bool
  ed : ℕ → ED_T
  td : ℕ → TD_T
  HcControlHeadED : Option ℕ
  HcBulkHeadED : Option ℕ
  Ied : ℕ → ℕ
  ed_remove_list : Option ℕ
  done_head : Option ℕ
  frame_no : BitVec 16
  utr : ℕ → UTR_T
  ep : ℕ → Usb.EP_INFO_T
  events : List Event

namespace State

variable (s : State)

def setED (e : ℕ) (v : ED_T) : State := { s with ed := Function.update s.ed e v }

def setTD (t : ℕ) (v : TD_T) : State := { s with td := Function.update s.td t v }

def setUTR (u : ℕ) (v : UTR_T) : State := { s with utr := Function.update s.utr u v }

def setHwPipe (p : ℕ) (v : Option ℕ) : State :=
  { s with ep := Function.update s.ep p { s.ep p with hw_pipe := v } }

/-- The links of the EDs, of the removal list and of the TDs. -/
def NextED (e : ℕ) : Option ℕ := (s.ed e).NextED

def next (e : ℕ) : Option ℕ := (s.ed e).next

def NextTD (t : ℕ) : Option ℕ := (s.td t).NextTD

/-- The controller gets at the ED by one of its lists. -/
def linked (e : ℕ) : Bool :=
  [s.HcControlHeadED, s.HcBulkHeadED, some (s.Ied 5)].any fun h =>
    (Links.search s.NextED (· = e) MEM_POOL_UNIT_NUM h).isSome

end State

/-! ### The pool -/

def ED_T.zero : ED_T := ⟨0, none, none, false, false, none, 0, 0, none⟩

def TD_T.zero : TD_T := ⟨0, 0, none, 0, 0, 0, none, none⟩

/-- The first unit that is not in use. -/
def freeUnit (s : State) : Option ℕ := (List.range MEM_POOL_UNIT_NUM).find? fun i => s.unit_used i = false

/-- `alloc_ohci_ED`. -/
def alloc_ohci_ED (s : State) : Option ℕ × State :=
  match freeUnit s with
  | some i => (some i, { s.setED i ED_T.zero with unit_used := Function.update s.unit_used i true })
  | none => (none, s)

/-- `alloc_ohci_TD`. -/
def alloc_ohci_TD (s : State) (utr : Option ℕ) : Option ℕ × State :=
  match freeUnit s with
  | some i =>
    (some i, { s.setTD i { TD_T.zero with utr := utr } with
      unit_used := Function.update s.unit_used i true })
  | none => (none, s)

/-- `free_ohci_ED`. -/
def free_ohci_ED (s : State) (ed : ℕ) : State :=
  { s with
    unit_used := Function.update s.unit_used ed false
    events := s.events ++ [.free_ohci_ED ed (s.unit_used ed) (s.linked ed)] }

/-- `free_ohci_TD`; a null pointer is no unit. -/
def free_ohci_TD (s : State) : Option ℕ → State
  | some td =>
    { s with
      unit_used := Function.update s.unit_used td false
      events := s.events ++ [.free_ohci_TD td (s.unit_used td)] }
  | none => s

/-! ### Interrupt lists -/

/-- The loop of `get_int_tree_head_node`. -/
def headLoop : ℕ → ℕ → ℕ → ℕ
  | 0, i, _ => i
  | n + 1, i, interval =>
    let interval := interval >>> 1
    if interval = 0 then i else headLoop n (i + 1) interval

/-- `get_int_tree_head_node`. -/
def get_int_tree_head_node (s : State) (interval : BitVec 8) : ℕ := s.Ied (headLoop 5 0 interval.toNat)

/-- The loop of `get_ohci_interval`. -/
def intervalLoop : ℕ → ℕ → ℕ → ℕ
  | 0, _, _ => 32
  | n + 1, bInterval, interval =>
    let interval := interval >>> 1
    if interval = 0 then bInterval else intervalLoop n (bInterval * 2) interval

/-- `get_ohci_interval`. -/
def get_ohci_interval (interval : BitVec 8) : ℕ := intervalLoop 5 1 interval.toNat

/-! ### Filling descriptors -/

/-- `ed_make_info`, of endpoint 0 or of `ep`. -/
def ed_make_info (udev : UDEV_T) (ep : Option Usb.EP_INFO_T) : BitVec 32 :=
  let info : BitVec 32 :=
    match ep with
    | none =>
      let mps := if udev.bMaxPacketSize0 = 0 then (if udev.low then 8 else 64) else udev.bMaxPacketSize0
      mps.setWidth 32 <<< 16
    | some ep =>
      ep.wMaxPacketSize.setWidth 32 <<< 16 |||
        (ep.bEndpointAddress &&& 0xF).setWidth 32 <<< 7 |||
        (if ep.bEndpointAddress &&& 0x80 = 0x80 then ED_DIR_IN else ED_DIR_OUT) |||
        (if ep.bmAttributes &&& 3 = 1 then ED_FORMAT_ISO else 0)
  info ||| (if udev.low then ED_SPEED_LOW else 0) ||| udev.dev_num.setWidth 32

/-- `write_td`. -/
def TD_T.write_td (td : TD_T) (info buff data_len : BitVec 32) : TD_T :=
  let CBP := if buff = 0 ∨ data_len = 0 then 0 else buff
  { td with
    Info := info
    CBP := CBP
    BE := if buff = 0 ∨ data_len = 0 then 0 else buff + data_len - 1
    buff_start := CBP }

/-! ### Completion -/

/-- One TD of the request is done with; the last one calls back. -/
def UTR_T.retire (utr : UTR_T) : UTR_T :=
  let utr := { utr with td_cnt := utr.td_cnt - 1 }
  if utr.td_cnt = 0 then
    { utr with bIsTransferDone := true, calls := if utr.func then utr.calls + 1 else utr.calls }
  else utr

/-- The bytes that a TD moved. -/
def TD_T.moved (td : TD_T) : BitVec 32 :=
  if td.CBP = 0 then td.BE - td.buff_start + 1 else td.CBP - td.buff_start

/-- `td_done` of a frame of an isochronous request. -/
def UTR_T.isoDone (utr : UTR_T) (td : TD_T) (bInterval : BitVec 8) : UTR_T :=
  let sf : BitVec 16 := td.Info.setWidth 16
  let idx := (sf - utr.iso_sf).toNat / get_ohci_interval bInterval
  if IF_PER_UTR ≤ idx then utr
  else
    let cc := (td.PSW >>> 12).toNat
    if cc = 0xF then { utr with iso_status := Function.update utr.iso_status idx USBH_ERR_SCH_OVERRUN }
    else if cc ≠ 0 ∧ cc ≠ CC_DATA_UNDERRUN then
      { utr with iso_status := Function.update utr.iso_status idx (USBH_ERR_CC_NO_ERR - cc) }
    else
      { utr with
        iso_status := Function.update utr.iso_status idx 0
        iso_xlen := Function.update utr.iso_xlen idx (td.PSW &&& 0x7FF) }

/-- `td_done` of a control, bulk or interrupt request. -/
def UTR_T.tdDone (utr : UTR_T) (td : TD_T) : UTR_T :=
  let cc := (td.Info >>> 28).toNat
  let utr :=
    if cc ≠ CC_NOERROR ∧ cc ≠ CC_DATA_UNDERRUN then
      { utr with status := if cc = CC_STALL then USBH_ERR_STALL else USBH_ERR_TRANSFER }
    else utr
  if td.Info &&& TD_TYPE_Msk = TD_TYPE_CTRL then
    if td.Info &&& TD_CTRL_DATA ≠ 0 then { utr with xfer_len := utr.xfer_len + td.moved } else utr
  else { utr with xfer_len := utr.xfer_len + td.moved }

/-- `td_done` as it changes the request of the TD. -/
def UTR_T.td_done (utr : UTR_T) (td : TD_T) (bInterval : BitVec 8) : UTR_T :=
  (if td.Info &&& TD_TYPE_Msk = TD_TYPE_ISO then utr.isoDone td bInterval else utr.tdDone td).retire

/-- `td_done`. -/
def td_done (s : State) (t : ℕ) : State :=
  let td := s.td t
  let s := { s with events := s.events ++ [.td_done t (s.unit_used t)] }
  match td.utr with
  | some u => s.setUTR u ((s.utr u).td_done td ((td.ed.map fun e => (s.ed e).bInterval).getD 0))
  | none => s

/-! ### Removal -/

/-- The loop along the control list or the bulk list. -/
def unlinkLoop (ed_p : ℕ) : ℕ → State → Option ℕ → Bool → State × Bool
  | 0, s, _, found => (s, found)
  | _ + 1, s, none, found => (s, found)
  | n + 1, s, some ed, found =>
    if (s.ed ed).NextED = some ed_p then
      let s := s.setED ed { s.ed ed with NextED := (s.ed ed_p).NextED }
      unlinkLoop ed_p n s (s.ed ed).NextED true
    else unlinkLoop ed_p n s (s.ed ed).NextED found

/-- Take an ED out of the list `remove_ed` looks for it in; whether it is there. -/
def unlinkED (s : State) (ed_p : ℕ) : State × Bool :=
  if (s.ed ed_p).Info &&& ED_EP_ADDR_Msk = 0 then
    if s.HcControlHeadED = some ed_p then
      ({ s with HcControlHeadED := (s.ed ed_p).NextED }, true)
    else unlinkLoop ed_p MEM_POOL_UNIT_NUM s s.HcControlHeadED false
  else if 0 < (s.ed ed_p).bInterval then
    let ied := get_int_tree_head_node s (s.ed ed_p).bInterval
    match Links.search s.NextED (fun ed => s.NextED ed = some ed_p) MEM_POOL_UNIT_NUM (some ied) with
    | some ed => (s.setED ed { s.ed ed with NextED := (s.ed ed_p).NextED }, true)
    | none => (s, false)
  else
    if s.HcBulkHeadED = some ed_p then
      ({ s with HcBulkHeadED := (s.ed ed_p).NextED }, true)
    else unlinkLoop ed_p MEM_POOL_UNIT_NUM s s.HcBulkHeadED false

/-- A TD of a removed endpoint is aborted. -/
def UTR_T.abort (utr : UTR_T) : UTR_T :=
  let utr := { utr with td_cnt := utr.td_cnt - 1 }
  if utr.td_cnt = 0 then
    { utr with
      status := USBH_ERR_ABORT
      bIsTransferDone := true
      calls := if utr.func then utr.calls + 1 else utr.calls }
  else utr

/-- The loop that frees the TDs under a removed ED. -/
def removeTDs : ℕ → State → Option ℕ → State
  | 0, s, _ => s
  | _ + 1, s, none => s
  | n + 1, s, some td =>
    let td_next := (s.td td).NextTD
    let utr := (s.td td).utr
    let s := free_ohci_TD s (some td)
    let s :=
      match utr with
      | some u => s.setUTR u (s.utr u).abort
      | none => s
    removeTDs n s td_next

/-- Remove the first endpoint of the removal list. -/
def removeFirst (s : State) (ed_p : ℕ) : State :=
  let p := unlinkED s ed_p
  let s := if p.2 then removeTDs MEM_POOL_UNIT_NUM p.1 (p.1.ed ed_p).HeadP else p.1
  free_ohci_ED { s with ed_remove_list := (s.ed ed_p).next } ed_p

/-- The loop of `remove_ed`. -/
def removeLoop : ℕ → State → State
  | 0, s => s
  | n + 1, s =>
    match s.ed_remove_list with
    | some ed_p => removeLoop n (removeFirst s ed_p)
    | none => s

/-- `remove_ed`. -/
def remove_ed (s : State) : State := removeLoop MEM_POOL_UNIT_NUM s

/-! ### The interrupt handler -/

/-- The loop that reverses the done list. -/
def reverseLoop : ℕ → State → Option ℕ → Option ℕ → State × Option ℕ
  | 0, s, _, td_prev => (s, td_prev)
  | _ + 1, s, none, td_prev => (s, td_prev)
  | n + 1, s, some td, td_prev =>
    let td_next := (s.td td).NextTD
    reverseLoop n (s.setTD td { s.td td with NextTD := td_prev }) td_next (some td)

/-- The loop that reclaims the TDs. -/
def reclaimLoop : ℕ → State → Option ℕ → State
  | 0, s, _ => s
  | _ + 1, s, none => s
  | n + 1, s, some td =>
    let td_next := (s.td td).NextTD
    reclaimLoop n (free_ohci_TD (td_done s td) (some td)) td_next

/-- The done-queue pass. -/
def reclaim (s : State) : State :=
  let td := s.done_head
  let p := reverseLoop MEM_POOL_UNIT_NUM { s with done_head := none } td none
  reclaimLoop MEM_POOL_UNIT_NUM p.1 p.2

/-- `USBH_IRQHandler`, with the start of frame and the done head among the interrupts. -/
def USBH_IRQHandler (s : State) (SF WDH : Bool) : State :=
  let s := if SF then remove_ed s else s
  if WDH then reclaim s else s

/-! ### Quitting -/

/-- `add_to_ED_remove_list`. -/
def add_to_ED_remove_list (s : State) (ed : ℕ) : State :=
  match Links.search s.next (· = ed) MEM_POOL_UNIT_NUM s.ed_remove_list with
  | some _ => s
  | none =>
    { s.setED ed { s.ed ed with Info := (s.ed ed).Info ||| ED_SKIP, next := s.ed_remove_list } with
      ed_remove_list := some ed }

/-- Quit the endpoint with record `ep`. -/
def quitEp (s : State) (ep : ℕ) : State :=
  match (s.ep ep).hw_pipe with
  | some ed => (add_to_ED_remove_list s ed).setHwPipe ep none
  | none => s

/-- `ohci_quit_xfer`. -/
def ohci_quit_xfer (s : State) (utr ep : Option ℕ) : ℤ × State :=
  let byUtr : ℤ × State :=
    match utr with
    | none => (0, s)
    | some u =>
      match (s.utr u).ep with
      | none => (USBH_ERR_NOT_FOUND, s)
      | some p => if (s.ep p).hw_pipe = none then (USBH_ERR_NOT_FOUND, s) else (0, quitEp s p)
  if byUtr.1 ≠ 0 then byUtr
  else
    match ep with
    | none => byUtr
    | some p => (0, quitEp byUtr.2 p)

/-! ### Submission -/

/-- `ohci_ctrl_xfer` filling the TDs and the ED and starting the transfer; `td_data` is for
a request with data. -/
def ctrlStart (s : State) (u ed td_setup td_data td_status : ℕ) : State :=
  let utr := s.utr u
  let out := utr.bmRequestType &&& 0x80 = 0
  let s := s.setTD td_setup { (s.td td_setup).write_td (TD_CC ||| TD_T_DATA0 ||| TD_TYPE_CTRL) utr.setup 8 with
    ed := some ed
    NextTD := if 0 < utr.data_len then some td_data else some td_status }
  let s :=
    if 0 < utr.data_len then
      let info := TD_CC ||| TD_R ||| (if out then TD_DP_OUT else TD_DP_IN) ||| TD_T_DATA1 |||
        TD_TYPE_CTRL ||| TD_CTRL_DATA
      s.setTD td_data { (s.td td_data).write_td info utr.buff utr.data_len with
        ed := some ed
        NextTD := some td_status }
    else s
  let info := TD_CC ||| (if out then TD_DP_IN else TD_DP_OUT) ||| TD_T_DATA1 ||| TD_TYPE_CTRL
  let s := s.setTD td_status { (s.td td_status).write_td info 0 0 with
    ed := some ed
    NextTD := none }
  let s := s.setED ed { s.ed ed with
    TailP := none
    HeadP := some td_setup
    halted := false
    toggleCarry := false
    Info := ed_make_info utr.udev none
    NextED := none }
  let s := s.setUTR u { utr with
    td_cnt := if 0 < utr.data_len then 3 else 2
    ep := some utr.udev.ep0 }
  let s := s.setHwPipe utr.udev.ep0 (some ed)
  { s with HcControlHeadED := some ed }

/-- `ohci_ctrl_xfer`. -/
def ohci_ctrl_xfer (s : State) (u : ℕ) : ℤ × State :=
  let utr := s.utr u
  let (td_setup, s) := alloc_ohci_TD s (some u)
  let (td_data, s) := if 0 < utr.data_len then alloc_ohci_TD s (some u) else (none, s)
  let (td_status, s) := alloc_ohci_TD s (some u)
  match td_status with
  | none => (USBH_ERR_MEMORY_OUT, free_ohci_TD (free_ohci_TD s td_setup) td_data)
  | some td_status =>
    let (ed, s) :=
      match (s.ep utr.udev.ep0).hw_pipe with
      | none => alloc_ohci_ED s
      | some ed => (some ed, s)
    match ed with
    | none =>
      (USBH_ERR_MEMORY_OUT, free_ohci_TD (free_ohci_TD (free_ohci_TD s td_setup) (some td_status)) td_data)
    | some ed =>
      -- nothing is given back in between, so the other TDs are there as `td_status` is
      (0, ctrlStart s u ed (td_setup.getD 0) (td_data.getD 0) td_status)

/-- The last TD of a list. -/
def lastTD (s : State) (td : ℕ) : ℕ :=
  (Links.search s.NextTD (fun t => s.NextTD t = none) MEM_POOL_UNIT_NUM (some td)).getD td

/-- The loop of `ohci_bulk_xfer`: whether it got through, and the TDs. -/
def bulkLoop (u ed : ℕ) (info : BitVec 32) : ℕ → State → BitVec 32 → BitVec 32 → Option ℕ →
    Bool × State × Option ℕ
  | 0, s, _, _, td_list => (true, s, td_list)
  | n + 1, s, buff, data_len, td_list =>
    let xfer_len := if 4096 < data_len then 4096 else data_len
    match alloc_ohci_TD s (some u) with
    | (none, s) => (false, s, td_list)
    | (some td, s) =>
      let s := s.setTD td { (s.td td).write_td info buff xfer_len with ed := some ed }
      let s := s.setUTR u { s.utr u with td_cnt := (s.utr u).td_cnt + 1 }
      let s :=
        match td_list with
        | none => s
        | some h => s.setTD (lastTD s h) { s.td (lastTD s h) with NextTD := some td }
      let td_list := some (td_list.getD td)
      if 0 < data_len - xfer_len then
        bulkLoop u ed info n s (buff + xfer_len) (data_len - xfer_len) td_list
      else (true, s, td_list)

/-- The loop that frees the TDs of a submission that ran out of memory. -/
def freeTDs : ℕ → State → Option ℕ → State
  | 0, s, _ => s
  | _ + 1, s, none => s
  | n + 1, s, some td =>
    let td_next := (s.td td).NextTD
    freeTDs n (free_ohci_TD s (some td)) td_next

/-- `ohci_bulk_xfer` once it has an ED. -/
def bulkPrepare (s : State) (u p ed : ℕ) (info : BitVec 32) (bIsNewED : Bool) : State :=
  let s := if bIsNewED then s.setED ed { s.ed ed with Info := info, HeadP := none } else s
  let s := s.setHwPipe p (some ed)
  s.setUTR u { s.utr u with td_cnt := 0 }

/-- `ohci_bulk_xfer` starting the transfer. -/
def bulkStart (s : State) (u ed : ℕ) (td_list : Option ℕ) (bIsNewED : Bool) : State :=
  let s := s.setUTR u { s.utr u with status := 0 }
  let s := s.setED ed { s.ed ed with HeadP := td_list, halted := false }
  if bIsNewED then
    let s := s.setED ed { s.ed ed with toggleCarry := false, NextED := s.HcBulkHeadED }
    { s with HcBulkHeadED := some ed }
  else s

/-- `ohci_bulk_xfer` of a request with endpoint record `p`. -/
def ohci_bulk_xfer (s : State) (u p : ℕ) : ℤ × State :=
  let utr := s.utr u
  let ep := s.ep p
  let info := ed_make_info utr.udev (some ep)
  let old := Links.search s.NextED (fun e => (s.ed e).Info = info) MEM_POOL_UNIT_NUM s.HcBulkHeadED
  if old.any fun e => (s.ed e).HeadP ≠ (s.ed e).TailP then (USBH_ERR_OHCI_EP_BUSY, s)
  else
    let (ed, s) :=
      match old with
      | some ed => (some ed, s)
      | none => alloc_ohci_ED s
    match ed with
    | none => (USBH_ERR_MEMORY_OUT, s)
    | some ed =>
      let dir := if ep.bEndpointAddress &&& 0x80 = 0 then TD_DP_OUT else TD_DP_IN
      match bulkLoop u ed ((TD_CC ||| TD_R ||| dir ||| TD_TYPE_BULK) &&& ~~~TOGGLE)
          (utr.data_len.toNat / 4096 + 1) (bulkPrepare s u p ed info old.isNone) utr.buff utr.data_len
          none with
      | (false, s, td_list) =>
        (USBH_ERR_MEMORY_OUT, free_ohci_ED (freeTDs MEM_POOL_UNIT_NUM s td_list) ed)
      | (true, s, td_list) => (0, bulkStart s u ed td_list old.isNone)

/-- `ohci_int_xfer` filling the dummy TD `td` of the ED and starting the transfer; `td_new`
is the next dummy. -/
def intStart (s : State) (u p ed td td_new ied : ℕ) (bIsNewED : Bool) : State :=
  let utr := s.utr u
  let s := s.setHwPipe p (some ed)
  let dir := if (s.ep p).bEndpointAddress &&& 0x80 = 0 then TD_DP_OUT else TD_DP_IN
  let info := (TD_CC ||| TD_R ||| dir ||| TD_TYPE_INT) &&& ~~~TOGGLE ||| (s.td td).Info &&& TOGGLE
  let s := s.setTD td { (s.td td).write_td info utr.buff utr.data_len with
    ed := some ed
    NextTD := some td_new
    utr := some u }
  let s := s.setUTR u { utr with td_cnt := 1, status := 0 }
  let s := s.setED ed { s.ed ed with TailP := some td_new }
  if bIsNewED then
    let s := s.setED ed { s.ed ed with NextED := (s.ed ied).NextED }
    s.setED ied { s.ed ied with NextED := some ed }
  else s

/-- `ohci_int_xfer` of a request with endpoint record `p`. -/
def ohci_int_xfer (s : State) (u p : ℕ) : ℤ × State :=
  let utr := s.utr u
  let ep := s.ep p
  if 64 < utr.data_len then (USBH_ERR_INVALID_PARAM, s)
  else
    match alloc_ohci_TD s (some u) with
    | (none, s) => (USBH_ERR_MEMORY_OUT, s)
    | (some td_new, s) =>
      let ied := get_int_tree_head_node s ep.bInterval
      let info := ed_make_info utr.udev (some ep)
      match Links.search s.NextED (fun e => (s.ed e).Info = info) MEM_POOL_UNIT_NUM (some ied) with
      | some ed =>
        -- the tail of the ED is always its dummy TD
        (0, intStart s u p ed ((s.ed ed).TailP.getD 0) td_new ied false)
      | none =>
        match alloc_ohci_ED s with
        | (none, s) => (USBH_ERR_MEMORY_OUT, s)
        | (some ed, s) =>
          let s := s.setED ed { s.ed ed with Info := info, HeadP := none, bInterval := ep.bInterval }
          match alloc_ohci_TD s none with
          | (none, s) => (USBH_ERR_MEMORY_OUT, free_ohci_TD (free_ohci_ED s ed) (some td_new))
          | (some td, s) =>
            let s := s.setED ed { s.ed ed with HeadP := some td, TailP := some td }
            (0, intStart s u p ed td td_new ied true)

/-- The loop of `ohci_iso_xfer` over the frames: whether it got through, and the TDs. -/
def isoLoop (u ed : ℕ) : ℕ → ℕ → State → Option ℕ → Option ℕ → Bool × State × Option ℕ
  | 0, _, s, td_list, _ => (true, s, td_list)
  | n + 1, i, s, td_list, last_td =>
    let s := s.setUTR u { s.utr u with
      iso_status := Function.update (s.utr u).iso_status i USBH_ERR_NOT_ACCESS1 }
    match alloc_ohci_TD s (some u) with
    | (none, s) => (false, s, td_list)
    | (some td, s) =>
      let buff_addr := (s.utr u).iso_buff i
      let s := s.setTD td { s.td td with
        Info := TD_CC ||| TD_TYPE_ISO ||| (s.ed ed).next_sf.setWidth 32
        CBP := buff_addr &&& ~~~0xFFF
        BE := buff_addr + ((s.utr u).iso_xlen i).setWidth 32 - 1
        PSW := 0xE000 ||| (buff_addr &&& 0xFFF).setWidth 16
        ed := some ed }
      let s := s.setED ed { s.ed ed with
        next_sf := (s.ed ed).next_sf + BitVec.ofNat 16 (get_ohci_interval (s.ed ed).bInterval) }
      let s := s.setUTR u { s.utr u with td_cnt := (s.utr u).td_cnt + 1 }
      let s :=
        match td_list, last_td with
        | some _, some l => s.setTD l { s.td l with NextTD := some td }
        | _, _ => s
      isoLoop u ed n (i + 1) s (some (td_list.getD td)) (some td)

/-- `ohci_iso_xfer` once it has an ED; only an ED that was there already gets into the
endpoint record. -/
def isoPrepare (s : State) (u p ed : ℕ) (info : BitVec 32) (bInterval : BitVec 8) (bIsNewED : Bool) :
    State :=
  let s :=
    if bIsNewED then s.setED ed { s.ed ed with Info := info, HeadP := none, bInterval := bInterval }
    else s.setHwPipe p (some ed)
  let s :=
    if (s.utr u).bIsoNewSched then
      s.setED ed { s.ed ed with next_sf := s.frame_no + OHCI_ISO_DELAY }
    else s
  s.setUTR u { s.utr u with td_cnt := 0, iso_sf := (s.ed ed).next_sf }

/-- `ohci_iso_xfer` starting the transfer. -/
def isoStart (s : State) (u ed ied : ℕ) (td_list : Option ℕ) (bIsNewED : Bool) : State :=
  let s := s.setUTR u { s.utr u with status := 0 }
  let s :=
    match (s.ed ed).HeadP with
    | none => s.setED ed { s.ed ed with HeadP := td_list, halted := false }
    | some h => s.setTD (lastTD s h) { s.td (lastTD s h) with NextTD := td_list }
  if bIsNewED then
    let s := s.setED ed { s.ed ed with NextED := (s.ed ied).NextED }
    s.setED ied { s.ed ied with NextED := some ed }
  else s

/-- `ohci_iso_xfer` of a request with endpoint record `p`. -/
def ohci_iso_xfer (s : State) (u p : ℕ) : ℤ × State :=
  let utr := s.utr u
  let ep := s.ep p
  let ied := get_int_tree_head_node s ep.bInterval
  let info := ed_make_info utr.udev (some ep)
  let old := Links.search s.NextED (fun e => (s.ed e).Info = info) MEM_POOL_UNIT_NUM (some ied)
  let (ed, s) :=
    match old with
    | some ed => (some ed, s)
    | none => alloc_ohci_ED s
  match ed with
  | none => (USBH_ERR_MEMORY_OUT, s)
  | some ed =>
    match isoLoop u ed IF_PER_UTR 0 (isoPrepare s u p ed info ep.bInterval old.isNone) none none with
    | (false, s, td_list) =>
      (USBH_ERR_MEMORY_OUT, free_ohci_ED (freeTDs MEM_POOL_UNIT_NUM s td_list) ed)
    | (true, s, td_list) => (0, isoStart s u ed ied td_list old.isNone)

end Ohci
