/-
The message RAM of a CAN FD module and `CANFD_Open`.

`CANFD_Open` resets the module, programs the start addresses of the regions of the
message RAM and clears most of them.  The helpers for the filters and the Rx buffers
take the address to clear from the register before they program it, those for the
FIFOs and the Tx buffers after.

* `CANFD_Open_ram` — what is cleared, as a list of spans;
* `CANFD_Open_clean_iff` — when the configured filters and Rx buffers are zero
  afterwards and nothing outside the new regions is touched;
* `CANFD_Open_clean_of_same_layout` — they are, when the registers held the new
  addresses already.
-/
import NuMaker.Canfd.Timing
import NuMaker.Lib.Fill

namespace Canfd

def CANFD_SIDFC_FLSSA_Msk : BitVec 32 := 0xFFFC
def CANFD_XIDFC_FLESA_Msk : BitVec 32 := 0xFFFC
def CANFD_RXF0C_F0SA_Msk : BitVec 32 := 0xFFFC
def CANFD_RXF1C_F1SA_Msk : BitVec 32 := 0xFFFC
def CANFD_RXBC_RBSA_Msk : BitVec 32 := 0xFFFC
def CANFD_TXBC_TBSA_Msk : BitVec 32 := 0xFFFC
def CANFD_TXEFC_EFSA_Msk : BitVec 32 := 0xFFFC
def CANFD_NUM_RX_FIFOS : ℕ := 2
def CANFD_MAX_RX_FIFO0_ELEMS : BitVec 32 := 64
def CANFD_MAX_RX_FIFO1_ELEMS : BitVec 32 := 64

/-- The bytes of `CANFD_SID_FILTER_T`, `CANFD_XID_FILTER_T`, `CANFD_TX_EVENT_T` and of
`CANFD_RX_BUF_T` and `CANFD_TX_BUF_T`. -/
def sizeofSidFilter : ℕ := 4
def sizeofXidFilter : ℕ := 8
def sizeofTxEvent : ℕ := 8
def sizeofBuf : ℕ := 72

/-! ### Configuration -/

/-- `E_CANFD_DATA_FIELD_SIZE`. -/
inductive E_CANFD_DATA_FIELD_SIZE
  | eCANFD_BYTE8
  | eCANFD_BYTE12
  | eCANFD_BYTE16
  | eCANFD_BYTE20
  | eCANFD_BYTE24
  | eCANFD_BYTE32
  | eCANFD_BYTE48
  | eCANFD_BYTE64
  deriving DecidableEq, Repr

def E_CANFD_DATA_FIELD_SIZE.code : E_CANFD_DATA_FIELD_SIZE → ℕ
  | .eCANFD_BYTE8 => 0
  | .eCANFD_BYTE12 => 1
  | .eCANFD_BYTE16 => 2
  | .eCANFD_BYTE20 => 3
  | .eCANFD_BYTE24 => 4
  | .eCANFD_BYTE32 => 5
  | .eCANFD_BYTE48 => 6
  | .eCANFD_BYTE64 => 7

/-- `u32Size` of the helpers: the words of an element. -/
def elemWords (eSize : E_CANFD_DATA_FIELD_SIZE) : ℕ :=
  if eSize.code < 5 then eSize.code + 4 else eSize.code * 4 - 10

/-- `E_CANFD_TEST_MODE`. -/
inductive E_CANFD_TEST_MODE
  | eCANFD_NORMAL
  | eCANFD_RESTRICTED_OPERATION
  | eCANFD_BUS_MONITOR
  | eCANFD_LOOPBACK_EXTERNAL
  | eCANFD_LOOPBACK_INTERNAL
  deriving DecidableEq, Repr

/-- `CANFD_RAM_PART_T`. -/
structure CANFD_RAM_PART_T where
  u32SIDFC_FLSSA : BitVec 32
  u32XIDFC_FLESA : BitVec 32
  u32RXF0C_F0SA : BitVec 32
  u32RXF1C_F1SA : BitVec 32
  u32RXBC_RBSA : BitVec 32
  u32TXEFC_EFSA : BitVec 32
  u32TXBC_TBSA : BitVec 32
  deriving DecidableEq, Repr

/-- `CANFD_ELEM_SIZE_T`: how many elements each region has. -/
structure CANFD_ELEM_SIZE_T where
  u32SIDFC : BitVec 32
  u32XIDFC : BitVec 32
  u32RxFifo0 : BitVec 32
  u32RxFifo1 : BitVec 32
  u32RxBuf : BitVec 32
  u32TxBuf : BitVec 32
  u32TxFifoQueue : BitVec 32
  u32TxEventFifo : BitVec 32
  u32UserDef : BitVec 32
  deriving DecidableEq, Repr

/-- `CANFD_FD_T`, as far as it is used. -/
structure CANFD_FD_T where
  nominalBitRate : ℕ
  dataBitRate : ℕ
  bFDEn : Bool
  bBitRateSwitch : Bool
  evTestMode : E_CANFD_TEST_MODE
  sMRamStartAddr : CANFD_RAM_PART_T
  sElemSize : CANFD_ELEM_SIZE_T
  u32MRamSize : ℕ

def CANFD_SRAM_SIZE : ℕ := 1536 * 4

/-- `CANFD_CalculateRamAddress`: the regions follow one another.  Returns the bytes used. -/
def CANFD_CalculateRamAddress (psConfigAddr : CANFD_RAM_PART_T) (psConfigSize : CANFD_ELEM_SIZE_T) :
    BitVec 32 × CANFD_RAM_PART_T × CANFD_ELEM_SIZE_T :=
  let addr := psConfigAddr
  let size := psConfigSize
  let off : BitVec 32 := 0
  let (off, addr) :=
    if size.u32SIDFC > 0 then (off + size.u32SIDFC * 4, { addr with u32SIDFC_FLSSA := 0 })
    else (off, addr)
  let (off, addr) :=
    if size.u32XIDFC > 0 then (off + size.u32XIDFC * 8, { addr with u32XIDFC_FLESA := off })
    else (off, addr)
  let (off, addr) :=
    if size.u32RxFifo0 > 0 then (off + size.u32RxFifo0 * 72, { addr with u32RXF0C_F0SA := off })
    else (off, addr)
  let (off, addr) :=
    if size.u32RxFifo1 > 0 then (off + size.u32RxFifo1 * 72, { addr with u32RXF1C_F1SA := off })
    else (off, addr)
  let (off, addr) :=
    if size.u32RxBuf > 0 then (off + size.u32RxBuf * 72, { addr with u32RXBC_RBSA := off })
    else (off, addr)
  let (off, addr) :=
    if size.u32TxEventFifo > 0 then
      (off + size.u32TxEventFifo * 8, { addr with u32TXEFC_EFSA := off })
    else (off, addr)
  if size.u32TxBuf + size.u32TxFifoQueue > 0 then
    let size :=
      if size.u32TxBuf + size.u32TxFifoQueue > 32 then
        { size with u32TxBuf := 16, u32TxFifoQueue := 16 }
      else size
    (off + (size.u32TxBuf + size.u32TxFifoQueue) * 72, { addr with u32TXBC_TBSA := off }, size)
  else (off, addr, size)

/-- Sixteen elements of each kind. -/
def sixteenElems (u32UserDef : BitVec 32) : CANFD_ELEM_SIZE_T :=
  ⟨16, 16, 16, 16, 16, 16, 16, 16, u32UserDef⟩

/-- `CANFD_GetDefaultConfig`, with `fdMode` for `CANFD_OP_CAN_FD_MODE`. -/
def CANFD_GetDefaultConfig (psConfig : CANFD_FD_T) (fdMode : Bool) : BitVec 32 × CANFD_FD_T :=
  let cleared := psConfig.sElemSize.u32UserDef = 0
  let elem := if cleared then sixteenElems 0 else psConfig.sElemSize
  let part := if cleared then ⟨0, 0, 0, 0, 0, 0, 0⟩ else psConfig.sMRamStartAddr
  let r := CANFD_CalculateRamAddress part elem
  (r.1,
    { nominalBitRate := 500000
      dataBitRate := if fdMode then 1000000 else 0
      bFDEn := fdMode
      bBitRateSwitch := fdMode
      evTestMode := .eCANFD_NORMAL
      sMRamStartAddr := r.2.1
      sElemSize := r.2.2
      u32MRamSize := CANFD_SRAM_SIZE })

/-! ### Module state -/

/-- The registers of a module other than those of its bit timing. -/
structure Ctl where
  TEST : BitVec 32
  ECR : BitVec 32
  PSR : BitVec 32
  IR : BitVec 32
  IE : BitVec 32
  ILS : BitVec 32
  ILE : BitVec 32
  GFC : BitVec 32
  SIDFC : BitVec 32
  XIDFC : BitVec 32
  RXF0C : BitVec 32
  RXF0S : BitVec 32
  RXF0A : BitVec 32
  RXF1C : BitVec 32
  RXBC : BitVec 32
  RXESC : BitVec 32
  TXBC : BitVec 32
  TXESC : BitVec 32
  TXBRP : BitVec 32
  TXBAR : BitVec 32
  TXBTIE : BitVec 32
  TXBCIE : BitVec 32
  TXEFC : BitVec 32
  deriving DecidableEq, Repr

/-- A module, with the clock divider it shares with the other.  The message RAM is
given word by word. -/
structure Port where
  regs : Regs
  clkEnabled : Bool
  ctl : Ctl
  ram : ℕ → BitVec 32

/-- The sources of the module clock. -/
structure Clocks where
  CLKSEL0 : BitVec 32
  HXTFreq : ℕ
  HCLKFreq : ℕ

def HIRC48 : ℕ := 48000000
def HIRC : ℕ := 12000000

/-- The position of the module's clock source field in `CLKSEL0`. -/
def Module.CANFDSEL_Pos : Module → ℕ
  | .CANFD0 => 24
  | .CANFD1 => 26

/-- `u32CanFdClock`. -/
def canFdClock (c : Clocks) (psCanfd : Module) : ℕ :=
  match field c.CLKSEL0 psCanfd.CANFDSEL_Pos 2 with
  | 0 => c.HXTFreq
  | 1 => HIRC48
  | 2 => c.HCLKFreq
  | _ => HIRC

/-- The word a start address field points at. -/
def startWord (reg msk : BitVec 32) : ℕ := (reg &&& msk).toNat / 4

/-- The words `memset` clears: the length in bytes is a product of 32 bits. -/
def clearWords (count : BitVec 32) (bytes : ℕ) : ℕ := (count * BitVec.ofNat 32 bytes).toNat / 4

/-! ### `CANFD_Open` -/

def Port.mapCCCR (σ : Port) (psCanfd : Module) (f : BitVec 32 → BitVec 32) : Port :=
  { σ with regs := { σ.regs with
      canfd := Function.update σ.regs.canfd psCanfd
        { σ.regs.canfd psCanfd with CCCR := f (σ.regs.canfd psCanfd).CCCR } } }

/-- `CANFD_RunToNormal`, when the module follows the request. -/
def CANFD_RunToNormal (σ : Port) (psCanfd : Module) (u8Enable : Bool) : Port :=
  σ.mapCCCR psCanfd fun CCCR => if u8Enable then CCCR &&& ~~~0x3 else CCCR ||| 0x3

/-- `CANFD_ConfigSIDFC`. -/
def CANFD_ConfigSIDFC (σ : Port) (psRamConfig : CANFD_RAM_PART_T) (psElemSize : CANFD_ELEM_SIZE_T) :
    Port :=
  let psHeadAddr := startWord σ.ctl.SIDFC CANFD_SIDFC_FLSSA_Msk
  { σ with
    ctl := { σ.ctl with
      SIDFC := ((psElemSize.u32SIDFC &&& 0xFF) <<< 16) |||
        (psRamConfig.u32SIDFC_FLSSA &&& CANFD_SIDFC_FLSSA_Msk) }
    ram := fill σ.ram ⟨psHeadAddr, clearWords psElemSize.u32SIDFC sizeofSidFilter⟩ 0 }

/-- `CANFD_ConfigXIDFC`. -/
def CANFD_ConfigXIDFC (σ : Port) (psRamConfig : CANFD_RAM_PART_T) (psElemSize : CANFD_ELEM_SIZE_T) :
    Port :=
  let psHeadAddr := startWord σ.ctl.XIDFC CANFD_XIDFC_FLESA_Msk
  { σ with
    ctl := { σ.ctl with
      XIDFC := ((psElemSize.u32XIDFC &&& 0xFF) <<< 16) |||
        (psRamConfig.u32XIDFC_FLESA &&& CANFD_XIDFC_FLESA_Msk) }
    ram := fill σ.ram ⟨psHeadAddr, clearWords psElemSize.u32XIDFC sizeofXidFilter⟩ 0 }

/-- The Tx buffers and the Tx FIFO or queue have 32 elements at most. -/
def txElems (psElemSize : CANFD_ELEM_SIZE_T) : CANFD_ELEM_SIZE_T :=
  if psElemSize.u32TxBuf + psElemSize.u32TxFifoQueue > 32 then
    { psElemSize with u32TxBuf := 16, u32TxFifoQueue := 16 }
  else psElemSize

/-- `CANFD_InitTxDBuf`, with the element counts it leaves behind. -/
def CANFD_InitTxDBuf (σ : Port) (psRamConfig : CANFD_RAM_PART_T) (psElemSize : CANFD_ELEM_SIZE_T)
    (eTxBufSize : E_CANFD_DATA_FIELD_SIZE) : Port × CANFD_ELEM_SIZE_T :=
  let psElemSize := txElems psElemSize
  let TXBC := ((psElemSize.u32TxFifoQueue &&& 0x3F) <<< 24) |||
    ((psElemSize.u32TxBuf &&& 0x3F) <<< 16) ||| (psRamConfig.u32TXBC_TBSA &&& CANFD_TXBC_TBSA_Msk)
  let psHeadAddr := startWord TXBC CANFD_TXBC_TBSA_Msk
  ({ σ with
    ctl := { σ.ctl with
      TXBC := TXBC
      TXESC := setField σ.ctl.TXESC 0 3 (BitVec.ofNat 32 eTxBufSize.code) }
    ram := fill σ.ram ⟨psHeadAddr, clearWords psElemSize.u32TxBuf (elemWords eTxBufSize * 4)⟩ 0 },
    psElemSize)

/-- `CANFD_InitRxDBuf`. -/
def CANFD_InitRxDBuf (σ : Port) (psRamConfig : CANFD_RAM_PART_T) (psElemSize : CANFD_ELEM_SIZE_T)
    (eRxBufSize : E_CANFD_DATA_FIELD_SIZE) : Port :=
  let psHeadAddr := startWord σ.ctl.RXBC CANFD_RXBC_RBSA_Msk
  { σ with
    ctl := { σ.ctl with
      RXBC := psRamConfig.u32RXBC_RBSA &&& CANFD_RXBC_RBSA_Msk
      RXESC := setField σ.ctl.RXESC 8 3 (BitVec.ofNat 32 eRxBufSize.code) }
    ram := fill σ.ram ⟨psHeadAddr, clearWords psElemSize.u32RxBuf (elemWords eRxBufSize * 4)⟩ 0 }

/-- `CANFD_InitRxFifo`. -/
def CANFD_InitRxFifo (σ : Port) (u32RxFifoNum : ℕ) (psRamConfig : CANFD_RAM_PART_T)
    (psElemSize : CANFD_ELEM_SIZE_T) (u32FifoWM : BitVec 32) (eFifoSize : E_CANFD_DATA_FIELD_SIZE) :
    Port :=
  if u32RxFifoNum > CANFD_NUM_RX_FIFOS then σ
  else if psElemSize.u32RxFifo0 > CANFD_MAX_RX_FIFO0_ELEMS then σ
  else if psElemSize.u32RxFifo1 > CANFD_MAX_RX_FIFO1_ELEMS then σ
  else
    match u32RxFifoNum with
    | 0 =>
      if psElemSize.u32RxFifo0 ≠ 0 then
        let RXF0C := psRamConfig.u32RXF0C_F0SA ||| (psElemSize.u32RxFifo0 <<< 16) |||
          (u32FifoWM <<< 24)
        let psHeadAddr := startWord RXF0C CANFD_RXF0C_F0SA_Msk
        { σ with
          ctl := { σ.ctl with
            RXF0C := RXF0C
            RXESC := setField σ.ctl.RXESC 0 3 (BitVec.ofNat 32 eFifoSize.code) }
          ram := fill σ.ram
            ⟨psHeadAddr, clearWords psElemSize.u32RxFifo0 (elemWords eFifoSize * 4)⟩ 0 }
      else { σ with ctl := { σ.ctl with RXF0C := 0 } }
    | 1 =>
      if psElemSize.u32RxFifo1 ≠ 0 then
        let RXF1C := psRamConfig.u32RXF1C_F1SA ||| (psElemSize.u32RxFifo1 <<< 16) |||
          (u32FifoWM <<< 24)
        let psHeadAddr := startWord RXF1C CANFD_RXF1C_F1SA_Msk
        { σ with
          ctl := { σ.ctl with
            RXF1C := RXF1C
            RXESC := setField σ.ctl.RXESC 4 3 (BitVec.ofNat 32 eFifoSize.code) }
          ram := fill σ.ram
            ⟨psHeadAddr, clearWords psElemSize.u32RxFifo1 (elemWords eFifoSize * 4)⟩ 0 }
      else { σ with ctl := { σ.ctl with RXF1C := 0 } }
    | _ => σ

/-- `CANFD_InitTxEvntFifo`. -/
def CANFD_InitTxEvntFifo (σ : Port) (psRamConfig : CANFD_RAM_PART_T)
    (psElemSize : CANFD_ELEM_SIZE_T) (u32FifoWaterLvl : BitVec 32) : Port :=
  { σ with ctl := { σ.ctl with
      TXEFC := (u32FifoWaterLvl <<< 24) ||| (psElemSize.u32TxEventFifo <<< 16) |||
        (psRamConfig.u32TXEFC_EFSA &&& CANFD_TXEFC_EFSA_Msk) } }

/-- `E_CANFD_ACC_NON_MATCH_FRM`. -/
def eCANFD_ACC_NON_MATCH_FRM_RX_FIFO0 : BitVec 32 := 0
def eCANFD_REJ_NON_MATCH_FRM : BitVec 32 := 3

/-- `CANFD_SetGFC`. -/
def CANFD_SetGFC (σ : Port) (eNMStdFrm eEMExtFrm u32RejRmtStdFrm u32RejRmtExtFrm : BitVec 32) :
    Port :=
  { σ with ctl := { σ.ctl with
      GFC := (eNMStdFrm <<< 4) ||| (eEMExtFrm <<< 2) ||| (u32RejRmtStdFrm <<< 1) |||
        (u32RejRmtExtFrm <<< 0) } }

/-- The test mode configuration of `CANFD_Open`. -/
def setTestMode (σ : Port) (psCanfd : Module) : E_CANFD_TEST_MODE → Port
  | .eCANFD_RESTRICTED_OPERATION => σ.mapCCCR psCanfd fun CCCR => CCCR ||| 0x84
  | .eCANFD_BUS_MONITOR => σ.mapCCCR psCanfd fun CCCR => CCCR ||| 0xA0
  | .eCANFD_LOOPBACK_EXTERNAL =>
    let σ := σ.mapCCCR psCanfd fun CCCR => CCCR ||| 0x80
    { σ with ctl := { σ.ctl with TEST := σ.ctl.TEST ||| 0x10 } }
  | .eCANFD_LOOPBACK_INTERNAL =>
    let σ := σ.mapCCCR psCanfd fun CCCR => CCCR ||| 0xA0
    { σ with ctl := { σ.ctl with TEST := σ.ctl.TEST ||| 0x10 } }
  | .eCANFD_NORMAL =>
    let σ := σ.mapCCCR psCanfd fun CCCR => CCCR &&& ~~~0xA4
    { σ with ctl := { σ.ctl with TEST := σ.ctl.TEST &&& ~~~0x10 } }

/-- What `SYS_ResetModule` makes of the registers of a module is up to the hardware. -/
abbrev Reset := Ctl × CANFD_T → Ctl × CANFD_T

/-- `SYS_ResetModule`: the message RAM is not reset. -/
def SYS_ResetModule (reset : Reset) (σ : Port) (psCanfd : Module) : Port :=
  let r := reset (σ.ctl, σ.regs.canfd psCanfd)
  { σ with
    ctl := r.1
    regs := { σ.regs with canfd := Function.update σ.regs.canfd psCanfd r.2 } }

/-- `CANFD_Open` up to the bit timing. -/
def openTiming (reset : Reset) (clocks : Clocks) (σ : Port) (psCanfd : Module)
    (psCanfdStr : CANFD_FD_T) : Port :=
  let σ := SYS_ResetModule reset { σ with clkEnabled := true } psCanfd
  let u32CanFdClock := canFdClock clocks psCanfd
  let σ := CANFD_RunToNormal σ psCanfd false
  let σ := if psCanfdStr.bBitRateSwitch then σ.mapCCCR psCanfd (· ||| 0x200) else σ
  let σ := if psCanfdStr.bFDEn then σ.mapCCCR psCanfd (· ||| 0x100) else σ
  let σ := { σ with ctl := { σ.ctl with RXF0C := 0, RXF1C := 0 } }
  match CANFD_CalculateTimingValues (σ.regs.canfd psCanfd).FDOE psCanfdStr.nominalBitRate
      psCanfdStr.dataBitRate u32CanFdClock with
  | some cfg => { σ with regs := CANFD_SetTimingConfig σ.regs psCanfd cfg }
  | none => σ

/-- `CANFD_Open`, with the configuration it leaves behind. -/
def CANFD_Open (reset : Reset) (clocks : Clocks) (σ : Port) (psCanfd : Module)
    (psCanfdStr : CANFD_FD_T) : Port × CANFD_FD_T :=
  let part := psCanfdStr.sMRamStartAddr
  let elem := psCanfdStr.sElemSize
  let σ := openTiming reset clocks σ psCanfd psCanfdStr
  let σ := if elem.u32SIDFC ≠ 0 then CANFD_ConfigSIDFC σ part elem else σ
  let σ := if elem.u32XIDFC ≠ 0 then CANFD_ConfigXIDFC σ part elem else σ
  let (σ, elem) :=
    if elem.u32TxBuf ≠ 0 ∨ elem.u32TxFifoQueue ≠ 0 then
      CANFD_InitTxDBuf σ part elem .eCANFD_BYTE64
    else (σ, elem)
  let σ := if elem.u32RxBuf ≠ 0 then CANFD_InitRxDBuf σ part elem .eCANFD_BYTE64 else σ
  let σ := if elem.u32RxFifo0 ≠ 0 then CANFD_InitRxFifo σ 0 part elem 0 .eCANFD_BYTE64 else σ
  let σ := if elem.u32RxFifo1 ≠ 0 then CANFD_InitRxFifo σ 1 part elem 0 .eCANFD_BYTE64 else σ
  let σ := if elem.u32TxEventFifo ≠ 0 then CANFD_InitTxEvntFifo σ part elem 0 else σ
  let σ := CANFD_SetGFC σ eCANFD_REJ_NON_MATCH_FRM eCANFD_REJ_NON_MATCH_FRM 1 1
  (setTestMode σ psCanfd psCanfdStr.evTestMode, { psCanfdStr with sElemSize := elem })

/-! ### Regions -/

/-- The regions of the message RAM. -/
inductive Part
  | sid
  | xid
  | tx
  | rxBuf
  | fifo0
  | fifo1
  | txEvent
  deriving DecidableEq, Repr

/-- The first word of a region. -/
def Ctl.start (r : Ctl) : Part → ℕ
  | .sid => startWord r.SIDFC CANFD_SIDFC_FLSSA_Msk
  | .xid => startWord r.XIDFC CANFD_XIDFC_FLESA_Msk
  | .tx => startWord r.TXBC CANFD_TXBC_TBSA_Msk
  | .rxBuf => startWord r.RXBC CANFD_RXBC_RBSA_Msk
  | .fifo0 => startWord r.RXF0C CANFD_RXF0C_F0SA_Msk
  | .fifo1 => startWord r.RXF1C CANFD_RXF1C_F1SA_Msk
  | .txEvent => startWord r.TXEFC CANFD_TXEFC_EFSA_Msk

/-- The first word a configuration gives a region. -/
def CANFD_RAM_PART_T.start (part : CANFD_RAM_PART_T) : Part → ℕ
  | .sid => startWord part.u32SIDFC_FLSSA CANFD_SIDFC_FLSSA_Msk
  | .xid => startWord part.u32XIDFC_FLESA CANFD_XIDFC_FLESA_Msk
  | .tx => startWord part.u32TXBC_TBSA CANFD_TXBC_TBSA_Msk
  | .rxBuf => startWord part.u32RXBC_RBSA CANFD_RXBC_RBSA_Msk
  | .fifo0 => startWord part.u32RXF0C_F0SA CANFD_RXF0C_F0SA_Msk
  | .fifo1 => startWord part.u32RXF1C_F1SA CANFD_RXF1C_F1SA_Msk
  | .txEvent => startWord part.u32TXEFC_EFSA CANFD_TXEFC_EFSA_Msk

/-- Neither Rx FIFO has more elements than a FIFO can have; otherwise both are left out. -/
def FifosFit (elem : CANFD_ELEM_SIZE_T) : Prop :=
  elem.u32RxFifo0 ≤ CANFD_MAX_RX_FIFO0_ELEMS ∧ elem.u32RxFifo1 ≤ CANFD_MAX_RX_FIFO1_ELEMS

instance (elem : CANFD_ELEM_SIZE_T) : Decidable (FifosFit elem) :=
  inferInstanceAs (Decidable (_ ∧ _))

/-- The words of the elements a region is configured with. -/
def CANFD_ELEM_SIZE_T.words (elem : CANFD_ELEM_SIZE_T) : Part → ℕ
  | .sid => elem.u32SIDFC.toNat * (sizeofSidFilter / 4)
  | .xid => elem.u32XIDFC.toNat * (sizeofXidFilter / 4)
  | .tx => ((txElems elem).u32TxBuf.toNat + (txElems elem).u32TxFifoQueue.toNat) * (sizeofBuf / 4)
  | .rxBuf => elem.u32RxBuf.toNat * (sizeofBuf / 4)
  | .fifo0 => if FifosFit elem then elem.u32RxFifo0.toNat * (sizeofBuf / 4) else 0
  | .fifo1 => if FifosFit elem then elem.u32RxFifo1.toNat * (sizeofBuf / 4) else 0
  | .txEvent => elem.u32TxEventFifo.toNat * (sizeofTxEvent / 4)

/-- A region as the registers place it. -/
def Ctl.region (r : Ctl) (elem : CANFD_ELEM_SIZE_T) (p : Part) : Span := ⟨r.start p, elem.words p⟩

/-- A region as a configuration places it. -/
def CANFD_RAM_PART_T.region (part : CANFD_RAM_PART_T) (elem : CANFD_ELEM_SIZE_T) (p : Part) : Span :=
  ⟨part.start p, elem.words p⟩

def Part.all : List Part := [.sid, .xid, .tx, .rxBuf, .fifo0, .fifo1, .txEvent]

/-- The filters and the Rx buffers, which have to be zero. -/
def Part.fresh : List Part := [.sid, .xid, .rxBuf]

theorem Part.mem_all (p : Part) : p ∈ Part.all := by
  cases p <;> decide

/-- The spans `CANFD_Open` clears, with `r` the registers after the reset: the filters
and the Rx buffers where they were, the others where they are placed. -/
def clearedSpans (r : Ctl) (part : CANFD_RAM_PART_T) (elem : CANFD_ELEM_SIZE_T) : List Span :=
  [⟨r.start .sid, clearWords elem.u32SIDFC sizeofSidFilter⟩,
    ⟨r.start .xid, clearWords elem.u32XIDFC sizeofXidFilter⟩,
    ⟨part.start .tx, clearWords (txElems elem).u32TxBuf sizeofBuf⟩,
    ⟨r.start .rxBuf, clearWords elem.u32RxBuf sizeofBuf⟩,
    ⟨part.start .fifo0, if FifosFit elem then clearWords elem.u32RxFifo0 sizeofBuf else 0⟩,
    ⟨part.start .fifo1, if FifosFit elem then clearWords elem.u32RxFifo1 sizeofBuf else 0⟩]

/-- The filters and Rx buffers are zero, and nothing outside the regions is touched. -/
structure CleanStart (σ σ' : Port) (elem : CANFD_ELEM_SIZE_T) : Prop where
  zeroed : ∀ i, Span.Cover (Part.fresh.map (σ'.ctl.region elem)) i → σ'.ram i = 0
  frame : ∀ i, ¬ Span.Cover (Part.all.map (σ'.ctl.region elem)) i → σ'.ram i = σ.ram i

/-! ### One region -/

theorem startWord_low (x y msk : BitVec 32) (hmsk : msk = 0xFFFC) :
    startWord (x <<< 16 ||| y) msk = startWord y msk := by
  have hlow : ∀ i < 32, 16 ≤ i → (0xFFFC : BitVec 32).getLsbD i = false := by decide
  have h : (x <<< 16 ||| y) &&& msk = y &&& msk := by
    refine BitVec.eq_of_getLsbD_eq fun i hi => ?_
    rw [BitVec.getLsbD_and, BitVec.getLsbD_and, BitVec.getLsbD_or, BitVec.getLsbD_shiftLeft, hmsk]
    by_cases h16 : i < 16
    · simp [h16]
    · simp only [hlow i hi (by omega), Bool.and_false]
  rw [startWord, startWord, h]

theorem startWord_and_self (x msk : BitVec 32) : startWord (x &&& msk) msk = startWord x msk := by
  rw [startWord, startWord, BitVec.and_assoc, BitVec.and_self]

/-- One statement of `CANFD_Open`: region `p` is placed at `a`, unless it has no
elements, and `s` is cleared. -/
structure Placed (p : Part) (a n : ℕ) (s : Span) (σ σ' : Port) : Prop where
  self : n ≠ 0 → σ'.ctl.start p = a
  other : ∀ q ≠ p, σ'.ctl.start q = σ.ctl.start q
  ram : σ'.ram = fill σ.ram s 0

theorem fill_empty {α : Type*} (m : ℕ → α) (a : ℕ) (v : α) : fill m ⟨a, 0⟩ v = m := by
  funext i
  rw [fill, if_neg (Span.not_has_empty a i)]

/-- A region without elements. -/
theorem Placed.skip (p : Part) (a : ℕ) (b : ℕ) (σ : Port) : Placed p a 0 ⟨b, 0⟩ σ σ :=
  ⟨fun h => absurd rfl h, fun _ _ => rfl, (fill_empty _ _ _).symm⟩

theorem clearWords_zero (b : ℕ) : clearWords 0 b = 0 := by simp [clearWords]

/-- No more is cleared than the elements take, and all of it unless the length
overflows. -/
theorem clearWords_le (n : BitVec 32) (k : ℕ) : clearWords n (4 * k) ≤ n.toNat * k := by
  have h : (n * BitVec.ofNat 32 (4 * k)).toNat ≤ n.toNat * (4 * k) := by
    rw [BitVec.toNat_mul, BitVec.toNat_ofNat]
    exact (Nat.mod_le _ _).trans (Nat.mul_le_mul_left _ (Nat.mod_le _ _))
  rw [clearWords]
  calc _ ≤ n.toNat * (4 * k) / 4 := Nat.div_le_div_right h
    _ = n.toNat * k := by
      rw [Nat.mul_left_comm, Nat.mul_div_cancel_left _ (by decide)]

theorem clearWords_eq {n : BitVec 32} {k : ℕ} (h : n.toNat * k < 2 ^ 30) :
    clearWords n (4 * k) = n.toNat * k := by
  have hmul : (n * BitVec.ofNat 32 (4 * k)).toNat = 4 * (n.toNat * k) := by
    rw [BitVec.toNat_mul, BitVec.toNat_ofNat, Nat.mul_mod_mod, Nat.mul_left_comm]
    exact Nat.mod_eq_of_lt (by omega)
  rw [clearWords, hmul, Nat.mul_div_cancel_left _ (by decide)]

section Regions

variable (σ : Port) (part : CANFD_RAM_PART_T) (elem : CANFD_ELEM_SIZE_T)

theorem placed_sid : Placed .sid (part.start .sid) (elem.words .sid)
    ⟨σ.ctl.start .sid, clearWords elem.u32SIDFC sizeofSidFilter⟩ σ
    (if elem.u32SIDFC ≠ 0 then CANFD_ConfigSIDFC σ part elem else σ) := by
  by_cases h : elem.u32SIDFC = 0
  · rw [if_neg (not_not.mpr h), h, clearWords_zero]
    have hw : elem.words .sid = 0 := by simp [CANFD_ELEM_SIZE_T.words, h]
    rw [hw]
    exact Placed.skip _ _ _ _
  · rw [if_pos h]
    constructor
    · intro _
      exact (startWord_low _ _ _ rfl).trans (startWord_and_self _ _)
    · intro q hq
      cases q <;> first | rfl | exact absurd rfl hq
    · rfl

theorem placed_xid : Placed .xid (part.start .xid) (elem.words .xid)
    ⟨σ.ctl.start .xid, clearWords elem.u32XIDFC sizeofXidFilter⟩ σ
    (if elem.u32XIDFC ≠ 0 then CANFD_ConfigXIDFC σ part elem else σ) := by
  by_cases h : elem.u32XIDFC = 0
  · rw [if_neg (not_not.mpr h), h, clearWords_zero]
    have hw : elem.words .xid = 0 := by simp [CANFD_ELEM_SIZE_T.words, h]
    rw [hw]
    exact Placed.skip _ _ _ _
  · rw [if_pos h]
    constructor
    · intro _
      exact (startWord_low _ _ _ rfl).trans (startWord_and_self _ _)
    · intro q hq
      cases q <;> first | rfl | exact absurd rfl hq
    · rfl

theorem placed_rxBuf : Placed .rxBuf (part.start .rxBuf) (elem.words .rxBuf)
    ⟨σ.ctl.start .rxBuf, clearWords elem.u32RxBuf sizeofBuf⟩ σ
    (if elem.u32RxBuf ≠ 0 then CANFD_InitRxDBuf σ part elem .eCANFD_BYTE64 else σ) := by
  by_cases h : elem.u32RxBuf = 0
  · rw [if_neg (not_not.mpr h), h, clearWords_zero]
    have hw : elem.words .rxBuf = 0 := by simp [CANFD_ELEM_SIZE_T.words, h]
    rw [hw]
    exact Placed.skip _ _ _ _
  · rw [if_pos h]
    constructor
    · intro _
      exact startWord_and_self _ _
    · intro q hq
      cases q <;> first | rfl | exact absurd rfl hq
    · rfl

/-- The Tx buffers are placed before they are cleared. -/
theorem placed_tx : Placed .tx (part.start .tx) (elem.words .tx)
    ⟨part.start .tx, clearWords (txElems elem).u32TxBuf sizeofBuf⟩ σ
    (if elem.u32TxBuf ≠ 0 ∨ elem.u32TxFifoQueue ≠ 0 then
      CANFD_InitTxDBuf σ part elem .eCANFD_BYTE64 else (σ, elem)).1 := by
  by_cases h : elem.u32TxBuf ≠ 0 ∨ elem.u32TxFifoQueue ≠ 0
  · have hstart : ∀ x y : BitVec 32, startWord (x <<< 24 ||| y <<< 16 |||
        (part.u32TXBC_TBSA &&& CANFD_TXBC_TBSA_Msk)) CANFD_TXBC_TBSA_Msk = part.start .tx := by
      intro x y
      have h24 : x <<< 24 = (x <<< 8) <<< 16 := by rw [← BitVec.shiftLeft_add]
      rw [BitVec.or_assoc, h24, startWord_low _ _ CANFD_TXBC_TBSA_Msk rfl,
        startWord_low _ _ CANFD_TXBC_TBSA_Msk rfl, startWord_and_self]
      rfl
    rw [if_pos h]
    constructor
    · intro _
      exact hstart _ _
    · intro q hq
      cases q <;> first | rfl | exact absurd rfl hq
    · simp only [CANFD_InitTxDBuf, hstart]
      rfl
  · rw [if_neg h]
    rw [not_or, not_not, not_not] at h
    obtain ⟨hb, hq⟩ := h
    have htx : txElems elem = elem := by
      rw [txElems, hb, hq]
      rfl
    have hw : elem.words .tx = 0 := by simp [CANFD_ELEM_SIZE_T.words, htx, hb, hq]
    rw [hw, htx, hb, clearWords_zero]
    exact Placed.skip _ _ _ _

/-- With too many FIFO elements neither FIFO is placed. -/
theorem CANFD_InitRxFifo_unfit {elem : CANFD_ELEM_SIZE_T} (h : ¬ FifosFit elem) (σ : Port) (n : ℕ)
    (part : CANFD_RAM_PART_T) (wm : BitVec 32) (e : E_CANFD_DATA_FIELD_SIZE) :
    CANFD_InitRxFifo σ n part elem wm e = σ := by
  unfold CANFD_InitRxFifo
  by_cases hn : n > CANFD_NUM_RX_FIFOS
  · rw [if_pos hn]
  · rw [if_neg hn]
    by_cases h0 : elem.u32RxFifo0 > CANFD_MAX_RX_FIFO0_ELEMS
    · rw [if_pos h0]
    · have h1 : elem.u32RxFifo1 > CANFD_MAX_RX_FIFO1_ELEMS := by
        by_contra h1
        exact h ⟨BitVec.not_lt.mp h0, BitVec.not_lt.mp h1⟩
      rw [if_neg h0, if_pos h1]

theorem or_shifted (x y : BitVec 32) : x ||| y <<< 16 ||| (0 : BitVec 32) <<< 24 = y <<< 16 ||| x := by
  have h0 : (0 : BitVec 32) <<< 24 = 0#32 := by decide
  rw [h0, BitVec.or_zero, BitVec.or_comm]

theorem placed_fifo0 : Placed .fifo0 (part.start .fifo0) (elem.words .fifo0)
    ⟨part.start .fifo0, if FifosFit elem then clearWords elem.u32RxFifo0 sizeofBuf else 0⟩ σ
    (if elem.u32RxFifo0 ≠ 0 then CANFD_InitRxFifo σ 0 part elem 0 .eCANFD_BYTE64 else σ) := by
  by_cases hfit : FifosFit elem
  · by_cases h : elem.u32RxFifo0 = 0
    · rw [if_neg (not_not.mpr h), if_pos hfit, h, clearWords_zero]
      have hw : elem.words .fifo0 = 0 := by simp [CANFD_ELEM_SIZE_T.words, h]
      rw [hw]
      exact Placed.skip _ _ _ _
    · have hstart : startWord (part.u32RXF0C_F0SA ||| (elem.u32RxFifo0 <<< 16) |||
          ((0 : BitVec 32) <<< 24)) CANFD_RXF0C_F0SA_Msk = part.start .fifo0 := by
        rw [or_shifted, startWord_low _ _ CANFD_RXF0C_F0SA_Msk rfl]
        rfl
      have hnum : ¬ 0 > CANFD_NUM_RX_FIFOS := by decide
      have h0 : ¬ elem.u32RxFifo0 > CANFD_MAX_RX_FIFO0_ELEMS := BitVec.not_lt.mpr hfit.1
      have h1 : ¬ elem.u32RxFifo1 > CANFD_MAX_RX_FIFO1_ELEMS := BitVec.not_lt.mpr hfit.2
      unfold CANFD_InitRxFifo
      simp only [ne_eq, h, not_false_eq_true, if_true, hnum, h0, h1, if_false, hfit]
      constructor
      · intro _
        exact hstart
      · intro q hq
        cases q <;> first | rfl | exact absurd rfl hq
      · simp only [hstart]
        rfl
  · have hw : elem.words .fifo0 = 0 := by simp [CANFD_ELEM_SIZE_T.words, hfit]
    rw [CANFD_InitRxFifo_unfit hfit, ite_self, if_neg hfit, hw]
    exact Placed.skip _ _ _ _

theorem placed_fifo1 : Placed .fifo1 (part.start .fifo1) (elem.words .fifo1)
    ⟨part.start .fifo1, if FifosFit elem then clearWords elem.u32RxFifo1 sizeofBuf else 0⟩ σ
    (if elem.u32RxFifo1 ≠ 0 then CANFD_InitRxFifo σ 1 part elem 0 .eCANFD_BYTE64 else σ) := by
  by_cases hfit : FifosFit elem
  · by_cases h : elem.u32RxFifo1 = 0
    · rw [if_neg (not_not.mpr h), if_pos hfit, h, clearWords_zero]
      have hw : elem.words .fifo1 = 0 := by simp [CANFD_ELEM_SIZE_T.words, h]
      rw [hw]
      exact Placed.skip _ _ _ _
    · have hstart : startWord (part.u32RXF1C_F1SA ||| (elem.u32RxFifo1 <<< 16) |||
          ((0 : BitVec 32) <<< 24)) CANFD_RXF1C_F1SA_Msk = part.start .fifo1 := by
        rw [or_shifted, startWord_low _ _ CANFD_RXF1C_F1SA_Msk rfl]
        rfl
      have hnum : ¬ 1 > CANFD_NUM_RX_FIFOS := by decide
      have h0 : ¬ elem.u32RxFifo0 > CANFD_MAX_RX_FIFO0_ELEMS := BitVec.not_lt.mpr hfit.1
      have h1 : ¬ elem.u32RxFifo1 > CANFD_MAX_RX_FIFO1_ELEMS := BitVec.not_lt.mpr hfit.2
      unfold CANFD_InitRxFifo
      simp only [ne_eq, h, not_false_eq_true, if_true, hnum, h0, h1, if_false, hfit]
      constructor
      · intro _
        exact hstart
      · intro q hq
        cases q <;> first | rfl | exact absurd rfl hq
      · simp only [hstart]
        rfl
  · have hw : elem.words .fifo1 = 0 := by simp [CANFD_ELEM_SIZE_T.words, hfit]
    rw [CANFD_InitRxFifo_unfit hfit, ite_self, if_neg hfit, hw]
    exact Placed.skip _ _ _ _

theorem placed_txEvent : Placed .txEvent (part.start .txEvent) (elem.words .txEvent) ⟨0, 0⟩ σ
    (if elem.u32TxEventFifo ≠ 0 then CANFD_InitTxEvntFifo σ part elem 0 else σ) := by
  by_cases h : elem.u32TxEventFifo = 0
  · rw [if_neg (not_not.mpr h)]
    have hw : elem.words .txEvent = 0 := by simp [CANFD_ELEM_SIZE_T.words, h]
    rw [hw]
    exact Placed.skip _ _ _ _
  · rw [if_pos h]
    constructor
    · intro _
      have h0 : (0 : BitVec 32) <<< 24 = 0#32 := by decide
      show startWord ((0 : BitVec 32) <<< 24 ||| _ ||| _) CANFD_TXEFC_EFSA_Msk = part.start .txEvent
      rw [h0, BitVec.zero_or, startWord_low _ _ CANFD_TXEFC_EFSA_Msk rfl, startWord_and_self]
      rfl
    · intro q hq
      cases q <;> first | rfl | exact absurd rfl hq
    · exact (fill_empty _ _ _).symm

end Regions

/-! ### All regions -/

/-- Some statements of `CANFD_Open`: the parts placed so far, with their addresses and
words, and the spans cleared so far. -/
structure Laid (l : List (Part × ℕ × ℕ)) (spans : List Span) (σ σ' : Port) : Prop where
  start : ∀ x ∈ l, x.2.2 ≠ 0 → σ'.ctl.start x.1 = x.2.1
  other : ∀ q, q ∉ l.map Prod.fst → σ'.ctl.start q = σ.ctl.start q
  ram : σ'.ram = fillAll σ.ram spans 0

theorem Laid.nil (σ : Port) : Laid [] [] σ σ := ⟨fun _ h => absurd h List.not_mem_nil, fun _ _ => rfl, rfl⟩

/-- The next statement places a part that has not been placed. -/
theorem Laid.step {l : List (Part × ℕ × ℕ)} {spans : List Span} {σ σ₁ σ₂ : Port} {p : Part}
    {a n : ℕ} {s : Span} (h : Laid l spans σ σ₁) (hp : p ∉ l.map Prod.fst)
    (hs : Placed p a n s σ₁ σ₂) : Laid (l ++ [(p, a, n)]) (spans ++ [s]) σ σ₂ := by
  constructor
  · intro x hx hn
    rcases List.mem_append.mp hx with hx | hx
    · have hne : x.1 ≠ p := fun hc => hp (hc ▸ List.mem_map_of_mem hx)
      rw [hs.other _ hne]
      exact h.start x hx hn
    · obtain rfl := List.mem_singleton.mp hx
      exact hs.self hn
  · intro q hq
    rw [List.map_append, List.mem_append, not_or] at hq
    have hne : q ≠ p := fun hc => hq.2 (hc ▸ List.mem_singleton.mpr rfl)
    rw [hs.other q hne, h.other q hq.1]
  · rw [hs.ram, h.ram, fillAll_append]
    rfl

theorem setTestMode_start (σ : Port) (m : Module) (e : E_CANFD_TEST_MODE) (p : Part) :
    (setTestMode σ m e).ctl.start p = σ.ctl.start p := by
  cases e <;> cases p <;> rfl

theorem setTestMode_ram (σ : Port) (m : Module) (e : E_CANFD_TEST_MODE) :
    (setTestMode σ m e).ram = σ.ram := by
  cases e <;> rfl

/-- The counts `CANFD_InitTxDBuf` leaves behind. -/
theorem InitTxDBuf_elems (σ : Port) (part : CANFD_RAM_PART_T) (elem : CANFD_ELEM_SIZE_T) :
    (if elem.u32TxBuf ≠ 0 ∨ elem.u32TxFifoQueue ≠ 0 then
      CANFD_InitTxDBuf σ part elem .eCANFD_BYTE64 else (σ, elem)).2 = txElems elem := by
  by_cases h : elem.u32TxBuf ≠ 0 ∨ elem.u32TxFifoQueue ≠ 0
  · rw [if_pos h]
    rfl
  · rw [if_neg h]
    rw [not_or, not_not, not_not] at h
    rw [txElems, h.1, h.2]
    rfl

section TxElems

variable (elem : CANFD_ELEM_SIZE_T)

/-- Only the counts of the Tx region change. -/
theorem txElems_cases : txElems elem = elem ∨
    txElems elem = { elem with u32TxBuf := 16, u32TxFifoQueue := 16 } := by
  rw [txElems]
  split
  · exact Or.inr rfl
  · exact Or.inl rfl

theorem txElems_idem : txElems (txElems elem) = txElems elem := by
  rcases txElems_cases elem with h | h
  · rw [h, h]
  · rw [h]
    rfl

theorem txElems_words (p : Part) : (txElems elem).words p = elem.words p := by
  cases p with
  | tx => simp only [CANFD_ELEM_SIZE_T.words, txElems_idem]
  | _ =>
    rcases txElems_cases elem with h | h
    · rw [h]
    · rw [h]
      rfl

@[simp] theorem txElems_u32RxBuf : (txElems elem).u32RxBuf = elem.u32RxBuf := by
  rcases txElems_cases elem with h | h
  · rw [h]
  · rw [h]

@[simp] theorem txElems_u32RxFifo0 : (txElems elem).u32RxFifo0 = elem.u32RxFifo0 := by
  rcases txElems_cases elem with h | h
  · rw [h]
  · rw [h]

@[simp] theorem txElems_u32RxFifo1 : (txElems elem).u32RxFifo1 = elem.u32RxFifo1 := by
  rcases txElems_cases elem with h | h
  · rw [h]
  · rw [h]

@[simp] theorem txElems_fifosFit : FifosFit (txElems elem) ↔ FifosFit elem := by
  rw [FifosFit, txElems_u32RxFifo0, txElems_u32RxFifo1, FifosFit]

end TxElems

section Open

variable (reset : Reset) (clocks : Clocks) (σ : Port) (m : Module) (c : CANFD_FD_T)

/-- The registers after the reset of the module. -/
def afterReset : Ctl := (reset (σ.ctl, σ.regs.canfd m)).1

theorem openTiming_ctl : (openTiming reset clocks σ m c).ctl =
    { afterReset reset σ m with RXF0C := 0, RXF1C := 0 } := by
  simp only [openTiming]
  split <;> split <;> split <;> rfl

theorem openTiming_ram : (openTiming reset clocks σ m c).ram = σ.ram := by
  simp only [openTiming]
  split <;> split <;> split <;> rfl

/-- The statements of `CANFD_Open` that place the regions, one after the other. -/
theorem CANFD_Open_laid : ∃ σ',
    Laid (Part.all.map fun p => (p, c.sMRamStartAddr.start p, c.sElemSize.words p))
      (clearedSpans (afterReset reset σ m) c.sMRamStartAddr c.sElemSize ++ [⟨0, 0⟩])
      (openTiming reset clocks σ m c) σ' ∧
    (∀ p, (CANFD_Open reset clocks σ m c).1.ctl.start p = σ'.ctl.start p) ∧
    (CANFD_Open reset clocks σ m c).1.ram = σ'.ram ∧
    (CANFD_Open reset clocks σ m c).2.sElemSize = txElems c.sElemSize := by
  unfold CANFD_Open
  have hctl := openTiming_ctl reset clocks σ m c
  generalize openTiming reset clocks σ m c = σ₀ at hctl ⊢
  generalize c.sMRamStartAddr = part
  generalize c.sElemSize = elem
  simp only
  have h₁ := placed_sid σ₀ part elem
  generalize (if elem.u32SIDFC ≠ 0 then CANFD_ConfigSIDFC σ₀ part elem else σ₀) = σ₁ at h₁ ⊢
  have h₂ := placed_xid σ₁ part elem
  generalize (if elem.u32XIDFC ≠ 0 then CANFD_ConfigXIDFC σ₁ part elem else σ₁) = σ₂ at h₂ ⊢
  have h₃ := placed_tx σ₂ part elem
  have helem := InitTxDBuf_elems σ₂ part elem
  generalize (if elem.u32TxBuf ≠ 0 ∨ elem.u32TxFifoQueue ≠ 0 then
    CANFD_InitTxDBuf σ₂ part elem .eCANFD_BYTE64 else (σ₂, elem)) = r at h₃ helem ⊢
  obtain ⟨σ₃, elem'⟩ := r
  simp only at h₃ helem ⊢
  obtain rfl := helem
  have h₄ := placed_rxBuf σ₃ part (txElems elem)
  generalize (if (txElems elem).u32RxBuf ≠ 0 then
    CANFD_InitRxDBuf σ₃ part (txElems elem) .eCANFD_BYTE64 else σ₃) = σ₄ at h₄ ⊢
  have h₅ := placed_fifo0 σ₄ part (txElems elem)
  generalize (if (txElems elem).u32RxFifo0 ≠ 0 then
    CANFD_InitRxFifo σ₄ 0 part (txElems elem) 0 .eCANFD_BYTE64 else σ₄) = σ₅ at h₅ ⊢
  have h₆ := placed_fifo1 σ₅ part (txElems elem)
  generalize (if (txElems elem).u32RxFifo1 ≠ 0 then
    CANFD_InitRxFifo σ₅ 1 part (txElems elem) 0 .eCANFD_BYTE64 else σ₅) = σ₆ at h₆ ⊢
  have h₇ := placed_txEvent σ₆ part (txElems elem)
  generalize (if (txElems elem).u32TxEventFifo ≠ 0 then
    CANFD_InitTxEvntFifo σ₆ part (txElems elem) 0 else σ₆) = σ₇ at h₇ ⊢
  -- the filters and the Rx buffers are cleared where the registers point after the reset
  have hsid : σ₀.ctl.start .sid = (afterReset reset σ m).start .sid := by rw [hctl]; rfl
  have hxid : σ₁.ctl.start .xid = (afterReset reset σ m).start .xid := by
    rw [h₁.other .xid (by decide), hctl]
    rfl
  have hrx : σ₃.ctl.start .rxBuf = (afterReset reset σ m).start .rxBuf := by
    rw [h₃.other .rxBuf (by decide), h₂.other .rxBuf (by decide), h₁.other .rxBuf (by decide), hctl]
    rfl
  rw [hsid] at h₁
  rw [hxid] at h₂
  rw [hrx] at h₄
  have hlaid := (((((((Laid.nil σ₀).step (by simp) h₁).step (by simp) h₂).step (by simp)
    h₃).step (by simp) h₄).step (by simp) h₅).step (by simp) h₆).step (by simp) h₇
  refine ⟨σ₇, ?_, fun p => ?_, ?_, rfl⟩
  · simp only [txElems_words, txElems_u32RxBuf, txElems_u32RxFifo0, txElems_u32RxFifo1,
      txElems_fifosFit] at hlaid
    exact hlaid
  · rw [setTestMode_start]
    cases p <;> rfl
  · rw [setTestMode_ram]
    rfl

/-- The spans `CANFD_Open` clears. -/
theorem CANFD_Open_ram : (CANFD_Open reset clocks σ m c).1.ram =
    fillAll σ.ram (clearedSpans (afterReset reset σ m) c.sMRamStartAddr c.sElemSize) 0 := by
  obtain ⟨σ', hlaid, -, hram, -⟩ := CANFD_Open_laid reset clocks σ m c
  rw [hram, hlaid.ram, openTiming_ram, fillAll_append, fillAll_cons, fillAll_nil, fill_empty]

/-- The regions are where the configuration places them. -/
theorem CANFD_Open_region (p : Part) (i : ℕ) :
    ((CANFD_Open reset clocks σ m c).1.ctl.region (CANFD_Open reset clocks σ m c).2.sElemSize p).Has i ↔
      (c.sMRamStartAddr.region c.sElemSize p).Has i := by
  obtain ⟨σ', hlaid, hstart, -, helem⟩ := CANFD_Open_laid reset clocks σ m c
  rw [Ctl.region, hstart, helem, txElems_words]
  by_cases h0 : c.sElemSize.words p = 0
  · rw [CANFD_RAM_PART_T.region, h0]
    exact iff_of_false (Span.not_has_empty _ _) (Span.not_has_empty _ _)
  · have := hlaid.start (p, c.sMRamStartAddr.start p, c.sElemSize.words p)
      (List.mem_map_of_mem (Part.mem_all p)) h0
    rw [this]
    rfl

theorem CANFD_Open_cover (l : List Part) (i : ℕ) :
    Span.Cover (l.map ((CANFD_Open reset clocks σ m c).1.ctl.region
      (CANFD_Open reset clocks σ m c).2.sElemSize)) i ↔
      Span.Cover (l.map (c.sMRamStartAddr.region c.sElemSize)) i := by
  simp only [Span.Cover, List.mem_map, exists_exists_and_eq_and, CANFD_Open_region]

/-- **A clean start**: the filters and Rx buffers are zero and nothing else is touched
exactly when every word of them that the helpers miss was zero before, and every word
the helpers clear outside the new regions. -/
theorem CANFD_Open_clean_iff :
    CleanStart σ (CANFD_Open reset clocks σ m c).1 (CANFD_Open reset clocks σ m c).2.sElemSize ↔
      (∀ i, Span.Cover (Part.fresh.map (c.sMRamStartAddr.region c.sElemSize)) i →
        ¬ Span.Cover (clearedSpans (afterReset reset σ m) c.sMRamStartAddr c.sElemSize) i →
          σ.ram i = 0) ∧
      ∀ i, Span.Cover (clearedSpans (afterReset reset σ m) c.sMRamStartAddr c.sElemSize) i →
        ¬ Span.Cover (Part.all.map (c.sMRamStartAddr.region c.sElemSize)) i → σ.ram i = 0 := by
  rw [← fillAll_clean_iff, ← CANFD_Open_ram reset clocks σ m c]
  constructor
  · rintro ⟨hz, hf⟩
    exact ⟨fun i hi => hz i ((CANFD_Open_cover reset clocks σ m c _ i).mpr hi),
      fun i hi => hf i fun hc => hi ((CANFD_Open_cover reset clocks σ m c _ i).mp hc)⟩
  · rintro ⟨hz, hf⟩
    constructor
    · exact fun i hi => hz i ((CANFD_Open_cover reset clocks σ m c _ i).mp hi)
    · exact fun i hi => hf i fun hc => hi ((CANFD_Open_cover reset clocks σ m c _ i).mpr hc)

/-- The start is clean when the registers hold the new addresses already. -/
theorem CANFD_Open_clean_of_same_layout
    (hstart : ∀ p ∈ Part.fresh, (afterReset reset σ m).start p = c.sMRamStartAddr.start p)
    (hlen : ∀ p, c.sElemSize.words p < 2 ^ 30) :
    CleanStart σ (CANFD_Open reset clocks σ m c).1 (CANFD_Open reset clocks σ m c).2.sElemSize := by
  have hsid := hstart .sid (by decide)
  have hxid := hstart .xid (by decide)
  have hrx := hstart .rxBuf (by decide)
  rw [CANFD_Open_clean_iff]
  constructor
  · intro i hi hmiss
    refine absurd ?_ hmiss
    have hs : clearWords c.sElemSize.u32SIDFC sizeofSidFilter = c.sElemSize.words .sid :=
      clearWords_eq (k := 1) (hlen .sid)
    have hx : clearWords c.sElemSize.u32XIDFC sizeofXidFilter = c.sElemSize.words .xid :=
      clearWords_eq (k := 2) (hlen .xid)
    have hr : clearWords c.sElemSize.u32RxBuf sizeofBuf = c.sElemSize.words .rxBuf :=
      clearWords_eq (k := 18) (hlen .rxBuf)
    rw [clearedSpans, hsid, hxid, hrx, hs, hx, hr]
    simp only [Part.fresh, List.map_cons, List.map_nil, Span.cover_cons, Span.cover_nil, or_false] at hi
    simp only [Span.cover_cons]
    rcases hi with hi | hi | hi
    · exact Or.inl hi
    · exact Or.inr (Or.inl hi)
    · exact Or.inr (Or.inr (Or.inr (Or.inl hi)))
  · intro i hi hout
    refine absurd ?_ hout
    rw [clearedSpans, hsid, hxid, hrx] at hi
    simp only [Span.cover_cons, Span.cover_nil, or_false] at hi
    simp only [Part.all, List.map_cons, Span.cover_cons]
    rcases hi with hi | hi | hi | hi | hi | hi
    · exact Or.inl (hi.mono (clearWords_le _ 1))
    · exact Or.inr (Or.inl (hi.mono (clearWords_le _ 2)))
    · refine Or.inr (Or.inr (Or.inl (hi.mono ((clearWords_le _ 18).trans ?_))))
      exact Nat.mul_le_mul_right _ (Nat.le_add_right _ _)
    · exact Or.inr (Or.inr (Or.inr (Or.inl (hi.mono (clearWords_le _ 18)))))
    · refine Or.inr (Or.inr (Or.inr (Or.inr (Or.inl (hi.mono ?_)))))
      rw [CANFD_ELEM_SIZE_T.words]
      split
      · exact clearWords_le _ 18
      · exact le_refl _
    · refine Or.inr (Or.inr (Or.inr (Or.inr (Or.inr (Or.inl (hi.mono ?_))))))
      rw [CANFD_ELEM_SIZE_T.words]
      split
      · exact clearWords_le _ 18
      · exact le_refl _

end Open

/-- A configuration of sixteen elements of each kind. -/
def defaultConfig : CANFD_FD_T :=
  (CANFD_GetDefaultConfig ⟨0, 0, false, false, .eCANFD_NORMAL, ⟨0, 0, 0, 0, 0, 0, 0⟩, sixteenElems 0, 0⟩
    false).2

def Ctl.zero : Ctl :=
  ⟨0, 0, 0, 0, 0, 0, 0, 0, 0, 0, 0, 0, 0, 0, 0, 0, 0, 0, 0, 0, 0, 0, 0⟩

/-- The first open after the power is switched on, with 1 in every word. -/
def powerOn : Port := ⟨⟨0, fun _ => ⟨0, 0, 0⟩⟩, false, .zero, fun _ => 1⟩

/-- The first Rx buffer of the default configuration is not cleared. -/
theorem CANFD_Open_stale :
    ¬ ∀ (reset : Reset) (clocks : Clocks) (σ : Port) (m : Module) (c : CANFD_FD_T),
      CleanStart σ (CANFD_Open reset clocks σ m c).1 (CANFD_Open reset clocks σ m c).2.sElemSize := by
  intro h
  let reset : Reset := fun _ => (.zero, ⟨1, 0, 0⟩)
  let clocks : Clocks := ⟨0, 12000000, 72000000⟩
  have hrx : Span.Cover (Part.fresh.map (defaultConfig.sMRamStartAddr.region defaultConfig.sElemSize))
      624 := by decide
  have hmiss : ¬ Span.Cover (clearedSpans (afterReset reset powerOn .CANFD0)
      defaultConfig.sMRamStartAddr defaultConfig.sElemSize) 624 := by decide
  have hzero := (h reset clocks powerOn .CANFD0 defaultConfig).zeroed 624
    ((CANFD_Open_cover reset clocks powerOn .CANFD0 defaultConfig _ _).mpr hrx)
  rw [CANFD_Open_ram, fillAll_apply, if_neg hmiss] at hzero
  exact absurd hzero (by decide)

end Canfd
