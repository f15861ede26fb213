/-
The PDMA driver: channels, scatter-gather tokens and transfers.

Two modules share the driver's tables: PDMA0 and LPPDMA, numbered 0 and 1.  A
channel id packs the module into the upper half and the channel into the lower
half of a word.  Each module has a pool of descriptors, handed out by tokens: a
bit of the token word is set while the descriptor is free.

A descriptor pointer is the index into the module's pool it points at; it may be
any integer, since a word that was never assigned is read as a pointer too.  The
functions that can run into a failed assertion or read through a null pointer
return `none` then: the system stops there.
-/
import NuMaker.Pdma.Registers
import NuMaker.NuUtils.BitUtil

namespace Pdma

open NuUtils

def PDMA_CNT : ℕ := 2
def LPPDMA_IDX : ℕ := 1
def NU_PDMA_SGTBL_POOL_SIZE : ℕ := 16
def NU_PDMA_SG_TBL_MAXSIZE : ℕ := 4096
def NU_PDMA_MAX_TXCNT : ℕ := 65536
def RT_EOK : ℤ := 0
def RT_ERROR : ℤ := 1
def RT_EINVAL : ℤ := 10

/-- `NU_PDMA_GET_MOD_IDX`, `NU_PDMA_GET_IDX`. -/
def modIdx (id : ℕ) : ℕ := id / 2 ^ 16

/-- `NU_PDMA_GET_MOD_CHIDX`, `NU_PDMA_GET_CHN_ID`, `NU_PDMA_GET_REQ_SRC_ID`. -/
def chnIdx (id : ℕ) : ℕ := id % 2 ^ 16

/-- `pdma_chid_t`. -/
def chId (mod chn : ℕ) : ℕ := mod * 2 ^ 16 + chn

/-- `NU_PDMA_GET_ARRAY_IDX`. -/
def arrayIdx (id : ℕ) : ℕ := modIdx id * PDMA_CH_MAX + chnIdx id

/-! ### State -/

/-- A descriptor of the pool by its index, `none` for a null pointer. -/
abbrev nu_pdma_desc_t := Option ℤ

/-- A registered callback handler. -/
abbrev Handler := ℕ

structure nu_pdma_chn where
  m_sCB_Event : Option Handler
  m_sCB_Trigger : Option Handler
  m_sCB_Disable : Option Handler
  m_ppsSgtbl : Option (List nu_pdma_desc_t)
  m_u32WantedSGTblNum : ℕ
  m_u32EventFilter : BitVec 32
  m_u32IdleTimeout_us : ℕ
  m_u32Peripheral : ℕ
  m_eMemCtl : nu_pdma_memctrl_t

/-- A record of zero bytes. -/
def nu_pdma_chn.zero : nu_pdma_chn := ⟨none, none, none, none, 0, 0, 0, 0, .eMemCtl_SrcFix_DstFix⟩

/-- A call of a handler. -/
inductive CbCall
  | trigger (h : Handler)
  | disable (h : Handler)
  | event (h : Handler) (u32Events : BitVec 32)
  deriving DecidableEq, Repr

structure State where
  nu_pdma_inited : Bool
  nu_pdma_chn_mask_arr : ℕ → BitVec 32
  nu_pdma_chn_arr : ℕ → nu_pdma_chn
  m_u32SGTblToken : ℕ → BitVec 32
  m_psSGTbl : ℕ → ℤ → DSCT_T
  pdma : ℕ → PDMA_T
  /-- `CLK_GetHCLKFreq()`. -/
  hclk : ℕ
  /-- The handlers called so far. -/
  calls : List CbCall

namespace State

def setMask (s : State) (m : ℕ) (v : BitVec 32) : State :=
  { s with nu_pdma_chn_mask_arr := Function.update s.nu_pdma_chn_mask_arr m v }

def setChn (s : State) (k : ℕ) (c : nu_pdma_chn) : State :=
  { s with nu_pdma_chn_arr := Function.update s.nu_pdma_chn_arr k c }

def setToken (s : State) (m : ℕ) (v : BitVec 32) : State :=
  { s with m_u32SGTblToken := Function.update s.m_u32SGTblToken m v }

def setTbl (s : State) (m : ℕ) (i : ℤ) (d : DSCT_T) : State :=
  { s with m_psSGTbl := Function.update s.m_psSGTbl m (Function.update (s.m_psSGTbl m) i d) }

def setPdma (s : State) (m : ℕ) (p : PDMA_T) : State :=
  { s with pdma := Function.update s.pdma m p }

/-- Call handlers, one after another. -/
def call (s : State) (l : List CbCall) : State := { s with calls := s.calls ++ l }

section Setters

variable (s : State)

@[simp] theorem setMask_nu_pdma_inited (m : ℕ) (v : BitVec 32) :
    (s.setMask m v).nu_pdma_inited = s.nu_pdma_inited := rfl
@[simp] theorem setMask_nu_pdma_chn_mask_arr (m : ℕ) (v : BitVec 32) :
    (s.setMask m v).nu_pdma_chn_mask_arr = Function.update s.nu_pdma_chn_mask_arr m v := rfl
@[simp] theorem setMask_nu_pdma_chn_arr (m : ℕ) (v : BitVec 32) :
    (s.setMask m v).nu_pdma_chn_arr = s.nu_pdma_chn_arr := rfl
@[simp] theorem setMask_m_u32SGTblToken (m : ℕ) (v : BitVec 32) :
    (s.setMask m v).m_u32SGTblToken = s.m_u32SGTblToken := rfl
@[simp] theorem setMask_m_psSGTbl (m : ℕ) (v : BitVec 32) :
    (s.setMask m v).m_psSGTbl = s.m_psSGTbl := rfl
@[simp] theorem setMask_pdma (m : ℕ) (v : BitVec 32) : (s.setMask m v).pdma = s.pdma := rfl

@[simp] theorem setChn_nu_pdma_inited (k : ℕ) (c : nu_pdma_chn) :
    (s.setChn k c).nu_pdma_inited = s.nu_pdma_inited := rfl
@[simp] theorem setChn_nu_pdma_chn_mask_arr (k : ℕ) (c : nu_pdma_chn) :
    (s.setChn k c).nu_pdma_chn_mask_arr = s.nu_pdma_chn_mask_arr := rfl
@[simp] theorem setChn_nu_pdma_chn_arr (k : ℕ) (c : nu_pdma_chn) :
    (s.setChn k c).nu_pdma_chn_arr = Function.update s.nu_pdma_chn_arr k c := rfl
@[simp] theorem setChn_m_u32SGTblToken (k : ℕ) (c : nu_pdma_chn) :
    (s.setChn k c).m_u32SGTblToken = s.m_u32SGTblToken := rfl
@[simp] theorem setChn_m_psSGTbl (k : ℕ) (c : nu_pdma_chn) :
    (s.setChn k c).m_psSGTbl = s.m_psSGTbl := rfl
@[simp] theorem setChn_pdma (k : ℕ) (c : nu_pdma_chn) : (s.setChn k c).pdma = s.pdma := rfl

@[simp] theorem setToken_nu_pdma_inited (m : ℕ) (v : BitVec 32) :
    (s.setToken m v).nu_pdma_inited = s.nu_pdma_inited := rfl
@[simp] theorem setToken_nu_pdma_chn_mask_arr (m : ℕ) (v : BitVec 32) :
    (s.setToken m v).nu_pdma_chn_mask_arr = s.nu_pdma_chn_mask_arr := rfl
@[simp] theorem setToken_nu_pdma_chn_arr (m : ℕ) (v : BitVec 32) :
    (s.setToken m v).nu_pdma_chn_arr = s.nu_pdma_chn_arr := rfl
@[simp] theorem setToken_m_u32SGTblToken (m : ℕ) (v : BitVec 32) :
    (s.setToken m v).m_u32SGTblToken = Function.update s.m_u32SGTblToken m v := rfl
@[simp] theorem setToken_m_psSGTbl (m : ℕ) (v : BitVec 32) :
    (s.setToken m v).m_psSGTbl = s.m_psSGTbl := rfl
@[simp] theorem setToken_pdma (m : ℕ) (v : BitVec 32) : (s.setToken m v).pdma = s.pdma := rfl

@[simp] theorem setTbl_nu_pdma_inited (m : ℕ) (i : ℤ) (d : DSCT_T) :
    (s.setTbl m i d).nu_pdma_inited = s.nu_pdma_inited := rfl
@[simp] theorem setTbl_nu_pdma_chn_mask_arr (m : ℕ) (i : ℤ) (d : DSCT_T) :
    (s.setTbl m i d).nu_pdma_chn_mask_arr = s.nu_pdma_chn_mask_arr := rfl
@[simp] theorem setTbl_nu_pdma_chn_arr (m : ℕ) (i : ℤ) (d : DSCT_T) :
    (s.setTbl m i d).nu_pdma_chn_arr = s.nu_pdma_chn_arr := rfl
@[simp] theorem setTbl_m_u32SGTblToken (m : ℕ) (i : ℤ) (d : DSCT_T) :
    (s.setTbl m i d).m_u32SGTblToken = s.m_u32SGTblToken := rfl
@[simp] theorem setTbl_m_psSGTbl (m : ℕ) (i : ℤ) (d : DSCT_T) :
    (s.setTbl m i d).m_psSGTbl = Function.update s.m_psSGTbl m (Function.update (s.m_psSGTbl m) i d) := rfl
@[simp] theorem setTbl_pdma (m : ℕ) (i : ℤ) (d : DSCT_T) : (s.setTbl m i d).pdma = s.pdma := rfl

@[simp] theorem setPdma_nu_pdma_inited (m : ℕ) (p : PDMA_T) :
    (s.setPdma m p).nu_pdma_inited = s.nu_pdma_inited := rfl
@[simp] theorem setPdma_nu_pdma_chn_mask_arr (m : ℕ) (p : PDMA_T) :
    (s.setPdma m p).nu_pdma_chn_mask_arr = s.nu_pdma_chn_mask_arr := rfl
@[simp] theorem setPdma_nu_pdma_chn_arr (m : ℕ) (p : PDMA_T) :
    (s.setPdma m p).nu_pdma_chn_arr = s.nu_pdma_chn_arr := rfl
@[simp] theorem setPdma_m_u32SGTblToken (m : ℕ) (p : PDMA_T) :
    (s.setPdma m p).m_u32SGTblToken = s.m_u32SGTblToken := rfl
@[simp] theorem setPdma_m_psSGTbl (m : ℕ) (p : PDMA_T) :
    (s.setPdma m p).m_psSGTbl = s.m_psSGTbl := rfl
@[simp] theorem setPdma_pdma (m : ℕ) (p : PDMA_T) :
    (s.setPdma m p).pdma = Function.update s.pdma m p := rfl

end Setters

end State

/-! ### Channels -/

open nu_pdma_memctrl_t in
/-- `g_nu_pdma_peripheral_ctl_pool`: request ids and their memory control. -/
def g_nu_pdma_peripheral_ctl_pool : List (ℕ × nu_pdma_memctrl_t) :=
  [(0, eMemCtl_SrcInc_DstInc)] ++
  ([4, 6, 8, 10, 12, 14, 66, 68, 16, 18, 20, 22, 24, 26, 28].map fun p => (p, eMemCtl_SrcInc_DstFix)) ++
  ([5, 7, 9, 11, 13, 15, 67, 69, 17, 19, 21, 23, 25, 27, 29].map fun p => (p, eMemCtl_SrcFix_DstInc)) ++
  [(chId LPPDMA_IDX 0, eMemCtl_SrcInc_DstInc),
   (chId LPPDMA_IDX 1, eMemCtl_SrcInc_DstFix), (chId LPPDMA_IDX 3, eMemCtl_SrcInc_DstFix),
   (chId LPPDMA_IDX 2, eMemCtl_SrcFix_DstInc), (chId LPPDMA_IDX 4, eMemCtl_SrcFix_DstInc)]

/-- `nu_pdma_peripheral_query`: the entry of a request id. -/
def nu_pdma_peripheral_query (u32PeriphType : ℕ) : Option (ℕ × nu_pdma_memctrl_t) :=
  g_nu_pdma_peripheral_ctl_pool.find? fun p => p.1 = u32PeriphType

/-- `nu_pdma_check_is_nonallocated`, for a module below `PDMA_CNT`. -/
def nu_pdma_check_is_nonallocated (s : State) (id : ℕ) : Bool :=
  s.nu_pdma_chn_mask_arr (modIdx id) &&& bit (chnIdx id) = 0

def nu_pdma_check_is_lppdma (id : ℕ) : Bool := modIdx id = LPPDMA_IDX

/-- `nu_pdma_init`: every channel up to 16 unused, the first 16 tokens free. -/
def nu_pdma_init (s : State) : State :=
  if s.nu_pdma_inited then s
  else
    { s with
      nu_pdma_inited := true
      nu_pdma_chn_arr := fun _ => .zero
      nu_pdma_chn_mask_arr := fun m => if m < PDMA_CNT then 0xFFFF0000 else s.nu_pdma_chn_mask_arr m
      m_psSGTbl := fun m => if m < PDMA_CNT then fun _ => ⟨0, 0, 0, 0⟩ else s.m_psSGTbl m
      m_u32SGTblToken := fun m => if m < PDMA_CNT then 0x0000FFFF else s.m_u32SGTblToken m
      pdma := fun m =>
        if m < PDMA_CNT then
          { s.pdma m with
            DSCT := fun c => if c < PDMA_CH_MAX then { (s.pdma m).DSCT c with CTL := 0 }
              else (s.pdma m).DSCT c
            CHCTL := 0 }
        else s.pdma m }

/-- `nu_pdma_channel_terminate`: reset the channel, which clears its `CHCTL` bit,
and enable it again with an empty descriptor. -/
def nu_pdma_channel_terminate (s : State) (id : ℕ) : State :=
  if nu_pdma_check_is_nonallocated s id then s
  else
    let p := s.pdma (modIdx id)
    s.setPdma (modIdx id)
      { p with
        DSCT := Function.update p.DSCT (chnIdx id) { p.DSCT (chnIdx id) with CTL := 0 }
        CHCTL := (p.CHCTL &&& ~~~bit (chnIdx id)) ||| bit (chnIdx id) }

/-- The loop of `nu_pdma_channel_allocate` over the `n` modules from `j` on. -/
def nu_pdma_channel_allocate_loop (s : State) (entry : ℕ × nu_pdma_memctrl_t) :
    ℕ → ℕ → Option ℕ × State
  | 0, _ => (none, s)
  | n + 1, j =>
    let u16ChnIdx := nu_cto (s.nu_pdma_chn_mask_arr j)
    if u16ChnIdx < PDMA_CH_MAX then
      let id := chId j u16ChnIdx
      let s := s.setMask j (s.nu_pdma_chn_mask_arr j ||| bit u16ChnIdx)
      let s := s.setChn (arrayIdx id)
        { nu_pdma_chn.zero with m_u32Peripheral := chnIdx entry.1, m_eMemCtl := entry.2 }
      (some id, nu_pdma_channel_terminate s id)
    else nu_pdma_channel_allocate_loop s entry n (j + 1)

/-- `nu_pdma_channel_allocate`: the channel id, `none` for `-RT_ERROR`. -/
def nu_pdma_channel_allocate (s : State) (i32PeripType : ℕ) : Option ℕ × State :=
  let s := nu_pdma_init s
  if modIdx i32PeripType ≥ PDMA_CNT then (none, s)
  else
    match nu_pdma_peripheral_query i32PeripType with
    | none => (none, s)
    | some entry =>
      nu_pdma_channel_allocate_loop s entry (PDMA_CNT - modIdx i32PeripType) (modIdx i32PeripType)

/-- `nu_pdma_channel_free`. -/
def nu_pdma_channel_free (s : State) (id : ℕ) : Option (ℤ × State) :=
  if ¬ s.nu_pdma_inited then some (-RT_EINVAL, s)
  else if modIdx id < PDMA_CNT then
    if nu_pdma_check_is_nonallocated s id then some (-RT_EINVAL, s)
    else
      let m := modIdx id
      let s := s.setMask m (s.nu_pdma_chn_mask_arr m &&& ~~~bit (chnIdx id))
      some (RT_EOK, s.setPdma m { s.pdma m with CHCTL := (s.pdma m).CHCTL &&& ~~~bit (chnIdx id) })
  else none

/-- `nu_pdma_channel_memctrl_get`. -/
def nu_pdma_channel_memctrl_get (s : State) (id : ℕ) : Option nu_pdma_memctrl_t :=
  if nu_pdma_check_is_nonallocated s id then none else some (s.nu_pdma_chn_arr (arrayIdx id)).m_eMemCtl

/-- `nu_pdma_channel_memctrl_set`. -/
def nu_pdma_channel_memctrl_set (s : State) (id : ℕ) (eMemCtrl : nu_pdma_memctrl_t) : ℤ × State :=
  let chn := s.nu_pdma_chn_arr (arrayIdx id)
  if nu_pdma_check_is_nonallocated s id then (-RT_EINVAL, s)
  else if chn.m_u32Peripheral = 0 ∧
      (eMemCtrl = .eMemCtl_SrcFix_DstInc ∨ eMemCtrl = .eMemCtl_SrcFix_DstFix) then (-RT_EINVAL, s)
  else (RT_EOK, s.setChn (arrayIdx id) { chn with m_eMemCtl := eMemCtrl })

/-- `nu_pdma_filtering_set`. -/
def nu_pdma_filtering_set (s : State) (id : ℕ) (u32EventFilter : BitVec 32) : ℤ × State :=
  if nu_pdma_check_is_nonallocated s id then (-RT_EINVAL, s)
  else
    (RT_EOK, s.setChn (arrayIdx id)
      { s.nu_pdma_chn_arr (arrayIdx id) with m_u32EventFilter := u32EventFilter })

/-- `nu_pdma_cbtype_t`. -/
inductive nu_pdma_cbtype_t
  | eCBType_Event
  | eCBType_Trigger
  | eCBType_Disable
  deriving DecidableEq, Repr

/-- `nu_pdma_callback_register`; a handler is a function with its user data. -/
def nu_pdma_callback_register (s : State) (id : ℕ) (m_eCBType : nu_pdma_cbtype_t)
    (m_pfnCBHandler : Option Handler) : ℤ × State :=
  if nu_pdma_check_is_nonallocated s id then (-RT_EINVAL, s)
  else
    let chn := s.nu_pdma_chn_arr (arrayIdx id)
    (RT_EOK, s.setChn (arrayIdx id)
      (match m_eCBType with
        | .eCBType_Event => { chn with m_sCB_Event := m_pfnCBHandler }
        | .eCBType_Trigger => { chn with m_sCB_Trigger := m_pfnCBHandler }
        | .eCBType_Disable => { chn with m_sCB_Disable := m_pfnCBHandler }))

/-! ### Time-out -/

/-- `nu_pdma_timeout_set`, for a module below `PDMA_CNT`. -/
def nu_pdma_timeout_set (s : State) (id : ℕ) (i32Timeout_us : ℕ) : ℤ × State :=
  if nu_pdma_check_is_nonallocated s id then (-RT_EINVAL, s)
  else if nu_pdma_check_is_lppdma id then (-RT_EINVAL, s)
  else
    let m := modIdx id
    let c := chnIdx id
    let s := s.setChn (arrayIdx id)
      { s.nu_pdma_chn_arr (arrayIdx id) with m_u32IdleTimeout_us := i32Timeout_us }
    if i32Timeout_us ≠ 0 ∧ c < 2 then
      let u32ToClk_Max := 1000000 / (s.hclk / 2 ^ 8)
      let u32Divider := i32Timeout_us / u32ToClk_Max / 2 ^ 16
      let u32TOutCnt := i32Timeout_us / u32ToClk_Max % 2 ^ 16
      let pdma := PDMA_EnableInt_TIMEOUT (PDMA_DisableTimeout (s.pdma m) (bit c)) c
      let (u32Divider, u32TOutCnt) := if u32Divider > 7 then (7, 2 ^ 16) else (u32Divider, u32TOutCnt)
      let pdma := { pdma with TOUTPSC := setField pdma.TOUTPSC (0 * c) 3 (BitVec.ofNat 32 u32Divider) }
      (RT_EOK, s.setPdma m (PDMA_SetTimeOut pdma c (BitVec.ofNat 32 u32TOutCnt)))
    else
      (-RT_EINVAL,
        s.setPdma m (PDMA_DisableTimeout (PDMA_DisableInt_TIMEOUT (s.pdma m) c) (bit c)))

/-! ### Descriptors -/

/-- Where a descriptor lies: in the channel's own table entry or in the pool. -/
inductive Desc
  | chan
  | tbl (i : ℤ)
  deriving DecidableEq

/-- The descriptor at a place, for the channel `id`. -/
def State.desc (s : State) (id : ℕ) : Desc → DSCT_T
  | .chan => (s.pdma (modIdx id)).DSCT (chnIdx id)
  | .tbl i => s.m_psSGTbl (modIdx id) i

def State.setDesc (s : State) (id : ℕ) : Desc → DSCT_T → State
  | .chan, d =>
    let p := s.pdma (modIdx id)
    s.setPdma (modIdx id) { p with DSCT := Function.update p.DSCT (chnIdx id) d }
  | .tbl i, d => s.setTbl (modIdx id) i d

/-- The address of a pool descriptor relative to `SCATBA`. -/
def offsetOf (i : ℤ) : BitVec 32 := BitVec.ofInt 32 (16 * i)

/-- `nu_pdma_desc_setup`, for a module below `PDMA_CNT`. -/
def nu_pdma_desc_setup (s : State) (id : ℕ) (dma_desc : Option Desc) (u32DataWidth : ℕ)
    (u32AddrSrc u32AddrDst : BitVec 32) (i32TransferCnt : ℕ) (next : nu_pdma_desc_t)
    (u32BeSilent : Bool) : ℤ × State :=
  match dma_desc with
  | none => (-RT_EINVAL, s)
  | some dma_desc =>
    if nu_pdma_check_is_nonallocated s id then (-RT_EINVAL, s)
    else if ¬ (u32DataWidth = 8 ∨ u32DataWidth = 16 ∨ u32DataWidth = 32) then (-RT_EINVAL, s)
    else if u32AddrSrc.toNat % (u32DataWidth / 8) ≠ 0 ∨ u32AddrDst.toNat % (u32DataWidth / 8) ≠ 0 then
      (-RT_EINVAL, s)
    else if i32TransferCnt > NU_PDMA_MAX_TXCNT then (-RT_EINVAL, s)
    else
      let chn := s.nu_pdma_chn_arr (arrayIdx id)
      let d : DSCT_T :=
        { CTL := descCTL ((BitVec.ofNat 32 i32TransferCnt - 1) <<< PDMA_DSCT_CTL_TXCNT_Pos) u32DataWidth
            chn.m_eMemCtl (chn.m_u32Peripheral = 0) next.isSome u32BeSilent
          SA := u32AddrSrc
          DA := u32AddrDst
          NEXT := match next with
            | none => 0
            | some i => offsetOf i }
      (RT_EOK, s.setDesc id dma_desc d)

/-! ### Tokens -/

/-- `nu_pdma_sgtbls_token_allocate` on the token word; the pool fits in one. -/
def nu_pdma_sgtbls_token_allocate (token : BitVec 32) : Option (ℕ × BitVec 32) :=
  let idx := nu_ctz token
  if idx ≠ 32 then some (idx, token &&& ~~~bit idx) else none

/-- `nu_pdma_sgtbls_token_free`; asserts that the index is one of the pool. -/
def nu_pdma_sgtbls_token_free (token : BitVec 32) (idx : ℤ) : Option (BitVec 32) :=
  if 0 ≤ idx ∧ idx + 1 ≤ NU_PDMA_SGTBL_POOL_SIZE then some (token ||| bit idx.toNat) else none

/-- The loop of `nu_pdma_sgtbls_free` over the entries, null ones skipped. -/
def nu_pdma_sgtbls_free_loop : BitVec 32 → List nu_pdma_desc_t → Option (BitVec 32)
  | token, [] => some token
  | token, none :: l => nu_pdma_sgtbls_free_loop token l
  | token, some idx :: l =>
    match nu_pdma_sgtbls_token_free token idx with
    | none => none
    | some token => nu_pdma_sgtbls_free_loop token l

/-- `nu_pdma_sgtbls_free`: the first `num` entries are released and cleared. -/
def nu_pdma_sgtbls_free (s : State) (id : ℕ) (ppsSgtbls : List nu_pdma_desc_t) (num : ℕ) :
    Option (State × List nu_pdma_desc_t) :=
  if num ≤ NU_PDMA_SG_TBL_MAXSIZE then
    match nu_pdma_sgtbls_free_loop (s.m_u32SGTblToken (modIdx id)) (ppsSgtbls.take num) with
    | none => none
    | some token =>
      some (s.setToken (modIdx id) token, List.replicate num none ++ ppsSgtbls.drop num)
  else none

/-- The loop of `nu_pdma_sgtbls_allocate`: token word and tokens taken, and
whether there were enough. -/
def nu_pdma_sgtbls_allocate_loop : ℕ → BitVec 32 → List ℕ → Bool × BitVec 32 × List ℕ
  | 0, token, taken => (true, token, taken)
  | n + 1, token, taken =>
    match nu_pdma_sgtbls_token_allocate token with
    | none => (false, token, taken)
    | some (idx, token) => nu_pdma_sgtbls_allocate_loop n token (taken ++ [idx])

/-- `nu_pdma_sgtbls_allocate`: `num` tokens into the array, or none of them; an
array entry after the one that failed keeps what it held. -/
def nu_pdma_sgtbls_allocate (s : State) (id : ℕ) (ppsSgtbls : List nu_pdma_desc_t) (num : ℕ) :
    Option (ℤ × State × List nu_pdma_desc_t) :=
  if num ≤ NU_PDMA_SG_TBL_MAXSIZE then
    match nu_pdma_sgtbls_allocate_loop num (s.m_u32SGTblToken (modIdx id)) [] with
    | (true, token, taken) =>
      some (RT_EOK, s.setToken (modIdx id) token,
        (taken.map fun t : ℕ => some (t : ℤ)) ++ ppsSgtbls.drop num)
    | (false, token, taken) =>
      match nu_pdma_sgtbls_free (s.setToken (modIdx id) token) id
          ((taken.map fun t : ℕ => some (t : ℤ)) ++ none :: ppsSgtbls.drop (taken.length + 1))
          taken.length with
      | none => none
      | some (s, ppsSgtbls) => some (-RT_ERROR, s, ppsSgtbls)
  else none

/-! ### Transfers -/

/-- `_nu_pdma_transfer`: start the engine on the descriptor at `head`. -/
def _nu_pdma_transfer (s : State) (id : ℕ) (u32Peripheral : ℕ) (head : Desc)
    (u32IdleTimeout_us : ℕ) : State :=
  let m := modIdx id
  let c := chnIdx id
  let s := s.setPdma m (PDMA_EnableInt_TRANS_DONE (PDMA_DisableTimeout (s.pdma m) (bit c)) c)
  let s := (nu_pdma_timeout_set s id u32IdleTimeout_us).2
  let next := match head with
    | .chan => 0
    | .tbl i => offsetOf i
  let s := s.setPdma m
    (PDMA_SetTransferMode (s.pdma m) c u32Peripheral ((s.desc id head).NEXT ≠ 0) next)
  if u32Peripheral = 0 then s.setPdma m (PDMA_Trigger (s.pdma m) c)
  else
    match (s.nu_pdma_chn_arr (arrayIdx id)).m_sCB_Trigger with
    | none => s
    | some h => s.call [.trigger h]

/-- `_nu_pdma_sgtbls_free`: release the channel's private chain. -/
def _nu_pdma_sgtbls_free (s : State) (id : ℕ) : Option State :=
  let chn := s.nu_pdma_chn_arr (arrayIdx id)
  match chn.m_ppsSgtbl with
  | none => some s
  | some ppsSgtbl =>
    match nu_pdma_sgtbls_free s id ppsSgtbl chn.m_u32WantedSGTblNum with
    | none => none
    | some (s, _) =>
      some (s.setChn (arrayIdx id) { chn with m_ppsSgtbl := none, m_u32WantedSGTblNum := 0 })

/-- The failure exit of `_nu_pdma_transfer_chain`. -/
def chainExit (s : State) (id : ℕ) (ret : ℤ) : Option (ℤ × State) :=
  match _nu_pdma_sgtbls_free s id with
  | none => none
  | some s => some (-ret, s)

/-- The units the next descriptor of a chain moves. -/
def chainTxCnt (u32TransferCnt : ℕ) : ℕ :=
  if u32TransferCnt > NU_PDMA_MAX_TXCNT then NU_PDMA_MAX_TXCNT else u32TransferCnt

/-- An address of a chain at an offset: moved on if the side increments. -/
def chainAddr (inc : Bool) (addr : BitVec 32) (u32Offset : ℕ) : BitVec 32 :=
  if inc then addr + BitVec.ofNat 32 u32Offset else addr

/-- The descriptor loop of `_nu_pdma_transfer_chain` over the entries from the
current one on, with the units and the offset still to be set up. -/
def chainLoop (id u32DataWidth : ℕ) (u32AddrSrc u32AddrDst : BitVec 32) (eMemCtl : nu_pdma_memctrl_t) :
    State → List nu_pdma_desc_t → ℕ → ℕ → ℤ × State
  | s, [], _, _ => (RT_EOK, s)
  | s, p :: ps, u32TransferCnt, u32Offset =>
    let u32TxCnt := chainTxCnt u32TransferCnt
    let r := nu_pdma_desc_setup s id (p.map .tbl) u32DataWidth
      (chainAddr eMemCtl.srcInc u32AddrSrc u32Offset) (chainAddr eMemCtl.dstInc u32AddrDst u32Offset)
      u32TxCnt (ps.headD none) (¬ ps = [])
    if r.1 ≠ RT_EOK then r
    else
      chainLoop id u32DataWidth u32AddrSrc u32AddrDst eMemCtl r.2 ps (u32TransferCnt - u32TxCnt)
        (u32Offset + u32TxCnt * u32DataWidth / 8)

/-- The part of `_nu_pdma_transfer_chain` that gives back a chain of another length. -/
def chainRelease (s : State) (id : ℕ) : Option State :=
  let chn := s.nu_pdma_chn_arr (arrayIdx id)
  if chn.m_u32WantedSGTblNum > 0 then
    match chn.m_ppsSgtbl with
    | none => none
    | some ppsSgtbl =>
      match nu_pdma_sgtbls_free s id ppsSgtbl chn.m_u32WantedSGTblNum with
      | none => none
      | some (s, ppsSgtbl) =>
        _nu_pdma_sgtbls_free (s.setChn (arrayIdx id) { chn with m_ppsSgtbl := some ppsSgtbl }) id
  else some s

/-- The part of `_nu_pdma_transfer_chain` that obtains a chain of `wanted` entries.
`malloc` is the answer to the allocation of the array, with the words it holds. -/
def chainObtain (s : State) (id wanted : ℕ) (malloc : Option (ℕ → nu_pdma_desc_t)) :
    Option (ℤ × State) :=
  let chn := { s.nu_pdma_chn_arr (arrayIdx id) with m_u32WantedSGTblNum := wanted }
  match malloc with
  | none => some (RT_ERROR, s.setChn (arrayIdx id) { chn with m_ppsSgtbl := none })
  | some words =>
    match nu_pdma_sgtbls_allocate s id ((List.range wanted).map words) wanted with
    | none => none
    | some (ret, s, ppsSgtbl) =>
      some (ret, s.setChn (arrayIdx id) { chn with m_ppsSgtbl := some ppsSgtbl })

/-- The first part of `_nu_pdma_transfer_chain`: have a chain of
`u32TransferCnt / NU_PDMA_MAX_TXCNT + 1` entries. -/
def chainPrepare (s : State) (id u32TransferCnt : ℕ) (malloc : Option (ℕ → nu_pdma_desc_t)) :
    Option (ℤ × State) :=
  let wanted := u32TransferCnt / NU_PDMA_MAX_TXCNT + 1
  if (s.nu_pdma_chn_arr (arrayIdx id)).m_u32WantedSGTblNum ≠ wanted then
    match chainRelease s id with
    | none => none
    | some s => chainObtain s id wanted malloc
  else some (RT_EOK, s)

/-- `_nu_pdma_transfer_chain`, for an allocated channel. -/
def _nu_pdma_transfer_chain (s : State) (id u32DataWidth : ℕ) (u32AddrSrc u32AddrDst : BitVec 32)
    (u32TransferCnt u32IdleTimeout_us : ℕ) (malloc : Option (ℕ → nu_pdma_desc_t)) :
    Option (ℤ × State) :=
  let chn := s.nu_pdma_chn_arr (arrayIdx id)
  match chainPrepare s id u32TransferCnt malloc with
  | none => none
  | some (ret, s) =>
    if ret ≠ RT_EOK then chainExit s id ret
    else
      match (s.nu_pdma_chn_arr (arrayIdx id)).m_ppsSgtbl with
      | none => none
      | some ppsSgtbl =>
        let r := chainLoop id u32DataWidth u32AddrSrc u32AddrDst chn.m_eMemCtl s ppsSgtbl
          u32TransferCnt 0
        if r.1 ≠ RT_EOK then chainExit r.2 id r.1
        else
          match ppsSgtbl.headD none with
          | none => none
          | some i => some (RT_EOK, _nu_pdma_transfer r.2 id chn.m_u32Peripheral (.tbl i) u32IdleTimeout_us)

/-- `nu_pdma_transfer`; `none` when an assertion fails or a null array is read. -/
def nu_pdma_transfer (s : State) (id u32DataWidth : ℕ) (u32AddrSrc u32AddrDst : BitVec 32)
    (u32TransferCnt u32IdleTimeout_us : ℕ) (malloc : Option (ℕ → nu_pdma_desc_t)) :
    Option (ℤ × State) :=
  if modIdx id < PDMA_CNT then
    if nu_pdma_check_is_nonallocated s id then some (-RT_EINVAL, s)
    else if u32TransferCnt = 0 then some (-RT_EINVAL, s)
    else if u32TransferCnt > NU_PDMA_MAX_TXCNT then
      _nu_pdma_transfer_chain s id u32DataWidth u32AddrSrc u32AddrDst u32TransferCnt
        u32IdleTimeout_us malloc
    else
      let r := nu_pdma_desc_setup s id (some .chan) u32DataWidth u32AddrSrc u32AddrDst u32TransferCnt
        none false
      if r.1 ≠ RT_EOK then some (-r.1, r.2)
      else
        some (RT_EOK, _nu_pdma_transfer r.2 id (s.nu_pdma_chn_arr (arrayIdx id)).m_u32Peripheral .chan
          u32IdleTimeout_us)
  else none

end Pdma
