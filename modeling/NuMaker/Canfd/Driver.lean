/-
The CAN driver over the CAN FD module.

`nu_canfd_configure` opens the module with a fixed layout of the message RAM;
`nu_canfd_control` opens it again for most commands, and for `RT_CAN_CMD_SET_FILTER`
writes the filter elements; `nu_canfd_sendmsg` and `nu_canfd_recvmsg` copy messages to
and from elements.
-/
import NuMaker.Canfd.Elements

namespace Canfd

def RT_EOK : ℤ := 0
def RT_ERROR : ℤ := 1
def RT_EINVAL : ℤ := 10

def RT_CAN_STDID : BitVec 1 := 0
def RT_CAN_EXTID : BitVec 1 := 1
def RT_CAN_DTR : BitVec 1 := 0
def RT_CAN_RTR : BitVec 1 := 1
def RT_CAN_MODE_NORMAL : ℕ := 0
def RT_CAN_MODE_LISTEN : ℕ := 1
def RT_CAN_MODE_LOOPBACK : ℕ := 2
def RT_CAN_MODE_LOOPBACKANLISTEN : ℕ := 3
def RT_CAN_MODE_PRIV : BitVec 1 := 1
def RT_DEVICE_FLAG_INT_RX : BitVec 32 := 0x100
def RT_DEVICE_FLAG_INT_TX : BitVec 32 := 0x400
def RT_DEVICE_CAN_INT_ERR : BitVec 32 := 0x1000
def CAN1MBaud : ℕ := 1000000

/-- The rates of `enum CANBAUD`. -/
def CANBAUD : List ℕ := [CAN1MBaud, 800000, 500000, 250000, 125000, 100000, 50000, 20000, 10000]

/-! ### Data -/

/-- `struct can_configure`, as far as the driver uses it. -/
structure can_configure where
  baud_rate : ℕ
  mode : ℕ
  privmode : ℕ
  deriving DecidableEq, Repr

/-- `struct rt_can_status`, as far as the driver sets it. -/
structure rt_can_status where
  rcverrcnt : ℕ
  snderrcnt : ℕ
  lasterrtype : ℕ
  errcode : ℕ
  deriving DecidableEq, Repr

/-- `struct rt_can_filter_item`, as far as the driver uses it. -/
structure rt_can_filter_item where
  id : BitVec 29
  ide : BitVec 1
  mode : BitVec 1
  mask : BitVec 32
  deriving DecidableEq, Repr

/-- `struct nu_canfd`; `hdr` is the hardware filters' `connected` flags. -/
structure nu_canfd where
  base : Module
  int_flag : BitVec 32
  sCANFD_Config : CANFD_FD_T
  config : can_configure
  status : rt_can_status
  hdr : ℕ → Bool
  port : Port

/-- The build: `RT_CAN_USING_HDR` and `RT_CAN_USING_CANFD`, and what the board provides. -/
structure Build where
  RT_CAN_USING_HDR : Bool
  RT_CAN_USING_CANFD : Bool
  reset : Reset
  clocks : Clocks

/-! ### Configuration -/

/-- `CANFD_EnableInt`. -/
def CANFD_EnableInt (σ : Port) (u32IntLine0 u32IntLine1 u32TXBTIE u32TXBCIE : BitVec 32) : Port :=
  let c := { σ.ctl with IE := σ.ctl.IE ||| (u32IntLine0 ||| u32IntLine1) }
  let c :=
    if u32IntLine0 ≠ 0 then { c with ILS := c.ILS &&& ~~~u32IntLine0, ILE := c.ILE ||| 0x1 } else c
  let c := if u32IntLine1 ≠ 0 then { c with ILS := c.ILS ||| u32IntLine1, ILE := c.ILE ||| 0x2 } else c
  { σ with ctl := { c with TXBTIE := c.TXBTIE ||| u32TXBTIE, TXBCIE := c.TXBCIE ||| u32TXBCIE } }

/-- `nu_canfd_ie`. -/
def nu_canfd_ie (can : nu_canfd) : nu_canfd :=
  let on (flag : BitVec 32) : Prop := can.int_flag &&& flag ≠ 0
  let ie : BitVec 32 := 0x2000000
  let ie := if on RT_DEVICE_FLAG_INT_RX then ie ||| 0x11 else ie
  let ie := if on RT_DEVICE_FLAG_INT_TX then ie ||| 0x1200 else ie
  let ie := if on RT_DEVICE_CAN_INT_ERR then ie ||| 0x11C40000 else ie
  let tx : BitVec 32 := if on RT_DEVICE_FLAG_INT_TX then 0xFFFFFFFF else 0
  { can with port := CANFD_EnableInt can.port ie 0 tx tx }

/-- `CANFD_Close`. -/
def CANFD_Close (σ : Port) : Port := { σ with clkEnabled := false }

/-- The configuration `nu_canfd_configure` opens the module with. -/
def driverConfig (can : nu_canfd) (cfg : can_configure) (evTestMode : E_CANFD_TEST_MODE) :
    CANFD_FD_T :=
  { (CANFD_GetDefaultConfig { can.sCANFD_Config with sElemSize := sixteenElems 1 } false).2 with
    nominalBitRate := cfg.baud_rate
    dataBitRate := 0
    evTestMode := evTestMode }

/-- `nu_canfd_configure` for a mode it supports. -/
def openMode (b : Build) (can : nu_canfd) (cfg : can_configure) (evTestMode : E_CANFD_TEST_MODE) :
    nu_canfd :=
  let r := CANFD_Open b.reset b.clocks can.port can.base (driverConfig can cfg evTestMode)
  let port :=
    if b.RT_CAN_USING_HDR then
      CANFD_SetGFC r.1 eCANFD_REJ_NON_MATCH_FRM eCANFD_REJ_NON_MATCH_FRM 0 0
    else
      CANFD_SetGFC r.1 eCANFD_ACC_NON_MATCH_FRM_RX_FIFO0 eCANFD_ACC_NON_MATCH_FRM_RX_FIFO0 0 0
  let can := nu_canfd_ie { can with sCANFD_Config := r.2, port := port }
  { can with port := CANFD_RunToNormal can.port can.base true }

/-- `nu_canfd_configure`. -/
def nu_canfd_configure (b : Build) (can : nu_canfd) (cfg : can_configure) : ℤ × nu_canfd :=
  if cfg.mode = RT_CAN_MODE_NORMAL then (RT_EOK, openMode b can cfg .eCANFD_NORMAL)
  else if cfg.mode = RT_CAN_MODE_LISTEN then (RT_EOK, openMode b can cfg .eCANFD_BUS_MONITOR)
  else if cfg.mode = RT_CAN_MODE_LOOPBACK then
    (RT_EOK, openMode b can cfg .eCANFD_LOOPBACK_INTERNAL)
  else
    (-RT_ERROR, { can with
      sCANFD_Config := driverConfig can cfg .eCANFD_NORMAL
      port := CANFD_Close can.port })

/-! ### Control -/

def eCANFD_FLTR_ELEM_STO_FIFO0 : BitVec 3 := 1
def eCANFD_FLTR_ELEM_SET_PRI_STO_FIFO0 : BitVec 3 := 5
def eCANFD_SID_FLTR_TYPE_CLASSIC : BitVec 2 := 2
def eCANFD_XID_FLTR_TYPE_CLASSIC : BitVec 2 := 2

/-- `u32FEC`. -/
def rt_can_filter_item.FEC (item : rt_can_filter_item) : BitVec 3 :=
  if item.mode = RT_CAN_MODE_PRIV then eCANFD_FLTR_ELEM_SET_PRI_STO_FIFO0
  else eCANFD_FLTR_ELEM_STO_FIFO0

/-- `sStdFilter`. -/
def rt_can_filter_item.sStdFilter (item : rt_can_filter_item) : CANFD_SID_FILTER_T where
  SFID2 := item.mask.setWidth 11
  SFID1 := item.id.setWidth 11
  SFEC := item.FEC
  SFT := eCANFD_SID_FLTR_TYPE_CLASSIC

/-- `sXidFilter`: `EFID1` gets the mask and `EFID2` the identifier. -/
def rt_can_filter_item.sXidFilter (item : rt_can_filter_item) : CANFD_XID_FILTER_T where
  EFID1 := item.mask.setWidth 29
  EFID2 := item.id
  EFEC := item.FEC
  EFT := eCANFD_XID_FLTR_TYPE_CLASSIC

/-- The loop of `RT_CAN_CMD_SET_FILTER` from item `i` on; `false` when it gives up. -/
def setFilters : List rt_can_filter_item → ℕ → Port → Bool × Port
  | [], _, σ => (true, σ)
  | item :: items, i, σ =>
    if item.ide = RT_CAN_STDID then
      if i ≥ CANFD_MAX_11_BIT_FTR_ELEMS then (false, σ)
      else setFilters items (i + 1) (CANFD_Transfer_SID σ item.sStdFilter i).2
    else
      if i ≥ CANFD_MAX_29_BIT_FTR_ELEMS then (false, σ)
      else setFilters items (i + 1) (CANFD_Transfer_XID σ item.sXidFilter i).2

/-- A call of `nu_canfd_control`, or of `nu_canfd_configure` for `RT_DEVICE_CTRL_CONFIG`. -/
inductive Cmd
  | SET_INT (argval : BitVec 32)
  | CLR_INT (argval : BitVec 32)
  | SET_FILTER (items : List rt_can_filter_item)
  | SET_MODE (argval : ℕ)
  | SET_BAUD (argval : ℕ)
  | SET_PRIV (argval : ℕ)
  | GET_STATUS
  | CTRL_CONFIG (cfg : can_configure)
  | other

/-- `RT_CAN_CMD_GET_STATUS`. -/
def getStatus (can : nu_canfd) : nu_canfd :=
  let psr := can.port.ctl.PSR
  { can with status :=
    { rcverrcnt := field can.port.ctl.ECR 8 7
      snderrcnt := field can.port.ctl.ECR 0 8
      lasterrtype := field psr 0 3
      errcode := if psr.getLsbD 6 then 1 else if psr.getLsbD 5 then 2 else if psr.getLsbD 7 then 3
        else 0 } }

/-- `nu_canfd_control`. -/
def nu_canfd_control (b : Build) (can : nu_canfd) : Cmd → ℤ × nu_canfd
  | .SET_INT argval =>
    let can := { can with int_flag := can.int_flag ||| argval }
    nu_canfd_configure b can can.config
  | .CLR_INT argval =>
    let can := { can with int_flag := can.int_flag &&& ~~~argval }
    nu_canfd_configure b can can.config
  | .SET_FILTER items =>
    if b.RT_CAN_USING_HDR then
      let r := setFilters items 0 can.port
      (if r.1 then RT_EOK else -RT_ERROR, { can with port := r.2 })
    else (-RT_EINVAL, can)
  | .SET_MODE argval =>
    if argval = RT_CAN_MODE_NORMAL ∨ argval = RT_CAN_MODE_LISTEN ∨ argval = RT_CAN_MODE_LOOPBACK ∨
        argval = RT_CAN_MODE_LOOPBACKANLISTEN then
      if argval ≠ can.config.mode then
        let can := { can with config := { can.config with mode := argval } }
        nu_canfd_configure b can can.config
      else (RT_EOK, can)
    else (-RT_ERROR, can)
  | .SET_BAUD argval =>
    if argval ∈ CANBAUD then
      if argval ≠ can.config.baud_rate then
        let can := { can with config := { can.config with baud_rate := argval } }
        nu_canfd_configure b can can.config
      else (RT_EOK, can)
    else (-RT_ERROR, can)
  | .SET_PRIV argval =>
    if argval ≠ 1 ∧ argval ≠ 0 then (-RT_ERROR, can)
    else if argval ≠ can.config.privmode then
      let can := { can with config := { can.config with privmode := argval } }
      nu_canfd_configure b can can.config
    else (RT_EOK, can)
  | .GET_STATUS => (RT_EOK, getStatus can)
  | .CTRL_CONFIG cfg => nu_canfd_configure b can cfg
  | .other => (-RT_EINVAL, can)

/-! ### Messages -/

/-- `struct rt_can_msg`, as far as the driver uses it.  The bytes from the start of
`data` on go beyond the message. -/
structure rt_can_msg where
  id : BitVec 29
  ide : BitVec 1
  rtr : BitVec 1
  len : BitVec 8
  hdr_index : BitVec 8
  data : ℕ → BitVec 8

/-- The size of `data`. -/
def Build.dataSize (b : Build) : ℕ := if b.RT_CAN_USING_CANFD then 64 else 8

/-- `CANFD_SET_SID`. -/
def CANFD_SET_SID (id : BitVec 29) : BitVec 29 := (id &&& 0x7FF) <<< 18

/-- `CANFD_GET_SID`. -/
def CANFD_GET_SID (id : BitVec 29) : BitVec 29 := id >>> 18

/-- `CANFD_EncodeDLC`. -/
def CANFD_EncodeDLC (u32NumOfBytes : ℕ) : ℕ :=
  if u32NumOfBytes ≤ 8 then u32NumOfBytes
  else if u32NumOfBytes ≤ 12 then 9
  else if u32NumOfBytes ≤ 16 then 10
  else if u32NumOfBytes ≤ 20 then 11
  else if u32NumOfBytes ≤ 24 then 12
  else if u32NumOfBytes ≤ 32 then 13
  else if u32NumOfBytes ≤ 48 then 14
  else 15

/-- `CANFD_DecodeDLC`. -/
def CANFD_DecodeDLC (u32Dlc : ℕ) : ℕ :=
  if u32Dlc ≤ 8 then u32Dlc
  else if u32Dlc = 9 then 12
  else if u32Dlc = 10 then 16
  else if u32Dlc = 11 then 20
  else if u32Dlc = 12 then 24
  else if u32Dlc = 13 then 32
  else if u32Dlc = 14 then 48
  else 64

/-- `sTxMsg`; a message of more than 64 bytes runs over it. -/
def sTxMsg (pmsg : rt_can_msg) : Option CANFD_TX_BUF_T :=
  let b := { CANFD_TX_BUF_T.zero with
    XTD := pmsg.ide
    ID := if pmsg.ide ≠ 0 then pmsg.id else CANFD_SET_SID pmsg.id
    BRS := 0
    RTR := pmsg.rtr }
  if pmsg.len.toNat > 64 then none
  else if pmsg.len.toNat > 0 then
    some { b with
      DLC := BitVec.ofNat 4 (CANFD_EncodeDLC pmsg.len.toNat)
      DB := fun i => if i < pmsg.len.toNat then pmsg.data i else 0 }
  else some b

/-- `nu_canfd_sendmsg`. -/
def nu_canfd_sendmsg (σ : Port) (pmsg : rt_can_msg) (boxno : ℕ) : Option (ℤ × Port) :=
  (sTxMsg pmsg).map fun b =>
    match CANFD_Transfer_DTB σ b boxno with
    | (none, σ) => (-RT_ERROR, σ)
    | (some _, σ) => (RT_EOK, σ)

/-- The message `nu_canfd_recvmsg` makes of an element, and how many bytes it copies to
`data`. -/
def received (b : Build) (sRxMsg : CANFD_RX_BUF_T) (pmsg : rt_can_msg) (boxno : ℕ) :
    rt_can_msg × ℕ :=
  let ide := if sRxMsg.XTD ≠ 0 then RT_CAN_EXTID else RT_CAN_STDID
  let len := CANFD_DecodeDLC sRxMsg.DLC.toNat
  ({ id := if ide = RT_CAN_EXTID then sRxMsg.ID else CANFD_GET_SID sRxMsg.ID
     ide := ide
     rtr := if sRxMsg.RTR ≠ 0 then RT_CAN_RTR else RT_CAN_DTR
     len := BitVec.ofNat 8 len
     hdr_index := if b.RT_CAN_USING_HDR then BitVec.ofNat 8 boxno else pmsg.hdr_index
     data := fun i => if i < len then sRxMsg.DB i else pmsg.data i }, len)

/-- `nu_canfd_recvmsg`, with the bytes it copies to `data`. -/
def nu_canfd_recvmsg (b : Build) (can : nu_canfd) (pmsg : rt_can_msg) (boxno : ℕ) :
    ℤ × rt_can_msg × ℕ × nu_canfd :=
  match CANFD_Transfer_RF0 can.port with
  | (none, port) => (-RT_ERROR, pmsg, 0, { can with port := port })
  | (some (_, sRxMsg), port) =>
    let r := received b sRxMsg pmsg boxno
    let hdr := if b.RT_CAN_USING_HDR then Function.update can.hdr boxno true else can.hdr
    (RT_EOK, r.1, r.2, { can with hdr := hdr, port := port })

end Canfd
