/-
The PDMA controller: descriptors, registers and the standard driver's accessors.

A descriptor's `CTL` packs the transfer count (minus one, in 16 bits), the data
width, the address increments and the operation mode; `descCTL` is the word
`nu_pdma_desc_setup` builds.  It is a shifted count or-ed with a word of its
low half that takes finitely many values (`descCTL_split`), from which the
fields are read off (`descCTL_TXCNT`, `descCTL_OPMODE`, `descCTL_TBINTDIS`).
-/
import NuMaker.Lib.BitField
import NuMaker.Lib.BitMask

namespace Pdma

def PDMA_CH_MAX : ℕ := 16
def LPPDMA_CH_MAX : ℕ := 4

/-! ### Descriptors -/

def PDMA_OP_BASIC : BitVec 32 := 0x1
def PDMA_OP_SCATTER : BitVec 32 := 0x2
def PDMA_DSCT_CTL_OPMODE_Msk : BitVec 32 := 0x3
def PDMA_DSCT_CTL_TBINTDIS_Msk : BitVec 32 := 0x80
def PDMA_DSCT_CTL_TXCNT_Pos : ℕ := 16
def PDMA_WIDTH_8 : BitVec 32 := 0x0
def PDMA_WIDTH_16 : BitVec 32 := 0x1000
def PDMA_WIDTH_32 : BitVec 32 := 0x2000
def PDMA_SAR_INC : BitVec 32 := 0x0
def PDMA_SAR_FIX : BitVec 32 := 0x300
def PDMA_DAR_INC : BitVec 32 := 0x0
def PDMA_DAR_FIX : BitVec 32 := 0xC00
def PDMA_REQ_SINGLE : BitVec 32 := 0x4
def PDMA_REQ_BURST : BitVec 32 := 0x0
def PDMA_BURST_32 : BitVec 32 := 0x20

/-- One descriptor table entry. -/
structure DSCT_T where
  CTL : BitVec 32
  SA : BitVec 32
  DA : BitVec 32
  NEXT : BitVec 32
  deriving DecidableEq, Repr

/-- The count field; the engine moves one unit more. -/
def DSCT_T.TXCNT (d : DSCT_T) : ℕ := field d.CTL 16 16

/-- The operation mode: 0 stop, 1 basic, 2 scatter-gather. -/
def DSCT_T.OPMODE (d : DSCT_T) : ℕ := field d.CTL 0 2

/-- The bytes of a unit, `TXWIDTH` being their logarithm. -/
def DSCT_T.bytes (d : DSCT_T) : ℕ := 2 ^ field d.CTL 12 2

/-- `SAINC`: 3 stands for a fixed address. -/
def DSCT_T.srcInc (d : DSCT_T) : Bool := field d.CTL 8 2 ≠ 3

/-- `DAINC`. -/
def DSCT_T.dstInc (d : DSCT_T) : Bool := field d.CTL 10 2 ≠ 3

/-- The table interrupt is disabled: the descriptor is silent. -/
def DSCT_T.TBINTDIS (d : DSCT_T) : Bool := d.CTL.getLsbD 7

/-- `nu_pdma_memctrl_t`. -/
inductive nu_pdma_memctrl_t
  | eMemCtl_SrcFix_DstFix
  | eMemCtl_SrcFix_DstInc
  | eMemCtl_SrcInc_DstFix
  | eMemCtl_SrcInc_DstInc
  deriving DecidableEq, Repr

/-- `eMemCtl & 0x2`. -/
def nu_pdma_memctrl_t.srcInc : nu_pdma_memctrl_t → Bool
  | .eMemCtl_SrcFix_DstFix => false
  | .eMemCtl_SrcFix_DstInc => false
  | .eMemCtl_SrcInc_DstFix => true
  | .eMemCtl_SrcInc_DstInc => true

/-- `eMemCtl & 0x1`. -/
def nu_pdma_memctrl_t.dstInc : nu_pdma_memctrl_t → Bool
  | .eMemCtl_SrcFix_DstFix => false
  | .eMemCtl_SrcFix_DstInc => true
  | .eMemCtl_SrcInc_DstFix => false
  | .eMemCtl_SrcInc_DstInc => true

/-- `nu_pdma_channel_memctrl_fill`: source and destination control. -/
def nu_pdma_channel_memctrl_fill : nu_pdma_memctrl_t → BitVec 32 × BitVec 32
  | .eMemCtl_SrcFix_DstFix => (PDMA_SAR_FIX, PDMA_DAR_FIX)
  | .eMemCtl_SrcFix_DstInc => (PDMA_SAR_FIX, PDMA_DAR_INC)
  | .eMemCtl_SrcInc_DstFix => (PDMA_SAR_INC, PDMA_DAR_FIX)
  | .eMemCtl_SrcInc_DstInc => (PDMA_SAR_INC, PDMA_DAR_INC)

/-- The control word of a descriptor, built around the shifted count. -/
def descCTL (txcnt : BitVec 32) (u32DataWidth : ℕ) (eMemCtl : nu_pdma_memctrl_t) (mem next silent : Bool) :
    BitVec 32 :=
  let (u32SrcCtl, u32DstCtl) := nu_pdma_channel_memctrl_fill eMemCtl
  let CTL := txcnt |||
    (if u32DataWidth = 8 then PDMA_WIDTH_8 else if u32DataWidth = 16 then PDMA_WIDTH_16
      else PDMA_WIDTH_32) ||| u32SrcCtl ||| u32DstCtl ||| PDMA_OP_BASIC
  let CTL := if mem then CTL ||| (PDMA_REQ_BURST ||| PDMA_BURST_32) else CTL ||| PDMA_REQ_SINGLE
  let CTL := if next then (CTL &&& ~~~PDMA_DSCT_CTL_OPMODE_Msk) ||| PDMA_OP_SCATTER else CTL
  if silent then CTL ||| PDMA_DSCT_CTL_TBINTDIS_Msk else CTL

/-- The count does not touch the low half. -/
theorem descCTL_split (x : BitVec 32) (w : ℕ) (e : nu_pdma_memctrl_t) (mem next silent : Bool) :
    descCTL (x <<< 16) w e mem next silent = x <<< 16 ||| descCTL 0 w e mem next silent := by
  have hmode : x <<< 16 &&& ~~~PDMA_DSCT_CTL_OPMODE_Msk = x <<< 16 := by
    refine BitVec.eq_of_getLsbD_eq fun i hi => ?_
    have h3 : PDMA_DSCT_CTL_OPMODE_Msk.getLsbD i = decide (i < 2) := by
      revert i
      decide
    rw [BitVec.getLsbD_and, BitVec.getLsbD_not, h3, BitVec.getLsbD_shiftLeft]
    by_cases h16 : i < 16
    · simp [h16]
    · simp [hi, show ¬ i < 2 by omega]
  have hand : ∀ a : BitVec 32, (x <<< 16 ||| a) &&& ~~~PDMA_DSCT_CTL_OPMODE_Msk =
      x <<< 16 ||| (a &&& ~~~PDMA_DSCT_CTL_OPMODE_Msk) := by
    intro a
    conv_rhs => rw [← hmode]
    refine BitVec.eq_of_getLsbD_eq fun i _ => ?_
    simp only [BitVec.getLsbD_and, BitVec.getLsbD_or]
    cases (x <<< 16).getLsbD i <;> cases a.getLsbD i <;> simp
  cases mem <;> cases next <;> cases silent <;>
    simp [descCTL, BitVec.or_assoc, hand]

/-- What the low half of a control word says. -/
structure LowHalf (w : ℕ) (e : nu_pdma_memctrl_t) (next silent : Bool) (low : BitVec 32) : Prop where
  lt : low.toNat < 2 ^ 16
  mode : low.toNat % 4 = if next then 2 else 1
  silent_eq : low.getLsbD 7 = silent
  bytes : 2 ^ field low 12 2 = w / 8
  src : decide (field low 8 2 ≠ 3) = e.srcInc
  dst : decide (field low 10 2 ≠ 3) = e.dstInc

theorem descCTL_low {w : ℕ} (hw : w = 8 ∨ w = 16 ∨ w = 32) (e : nu_pdma_memctrl_t)
    (mem next silent : Bool) : LowHalf w e next silent (descCTL 0 w e mem next silent) := by
  rcases hw with rfl | rfl | rfl <;> cases e <;> cases mem <;> cases next <;> cases silent <;>
    exact ⟨by decide, by decide, by decide, by decide, by decide, by decide⟩

/-- A field of the low half. -/
theorem field_low (x low : BitVec 32) {pos len : ℕ} (h : pos + len ≤ 16) :
    field (x <<< 16 ||| low) pos len = field low pos len := by
  refine Nat.eq_of_testBit_eq fun i => ?_
  rw [testBit_field, testBit_field, BitVec.getLsbD_or, BitVec.getLsbD_shiftLeft]
  by_cases hi : i < len
  · simp [show pos + i < 16 by omega]
  · simp [hi]

theorem shiftLeft_or_toNat (x : BitVec 32) {low : BitVec 32} (h : low.toNat < 2 ^ 16) :
    (x <<< 16 ||| low).toNat = 2 ^ 16 * (x.toNat % 2 ^ 16) + low.toNat := by
  have hx : (x <<< 16).toNat = 2 ^ 16 * (x.toNat % 2 ^ 16) := by
    rw [BitVec.toNat_shiftLeft, Nat.shiftLeft_eq]
    omega
  rw [BitVec.toNat_or, hx, ← Nat.two_pow_add_eq_or_of_lt h]

section Fields

variable {x : BitVec 32} {w : ℕ} {e : nu_pdma_memctrl_t} {mem next silent : Bool}
  {d : DSCT_T}

theorem descCTL_TXCNT (hw : w = 8 ∨ w = 16 ∨ w = 32)
    (hd : d.CTL = descCTL (x <<< 16) w e mem next silent) : d.TXCNT = x.toNat % 2 ^ 16 := by
  have hlow := descCTL_low hw e mem next silent
  rw [DSCT_T.TXCNT, hd, descCTL_split]
  exact field_pack hlow.lt (Nat.mod_lt _ (by decide)) (b := 0)
    (by rw [shiftLeft_or_toNat _ hlow.lt]; omega)

theorem descCTL_OPMODE (hw : w = 8 ∨ w = 16 ∨ w = 32)
    (hd : d.CTL = descCTL (x <<< 16) w e mem next silent) :
    d.OPMODE = if next then 2 else 1 := by
  have hlow := descCTL_low hw e mem next silent
  rw [DSCT_T.OPMODE, hd, descCTL_split, field, shiftLeft_or_toNat _ hlow.lt, ← hlow.mode]
  omega

theorem descCTL_TBINTDIS (hw : w = 8 ∨ w = 16 ∨ w = 32)
    (hd : d.CTL = descCTL (x <<< 16) w e mem next silent) : d.TBINTDIS = silent := by
  have hlow := descCTL_low hw e mem next silent
  rw [DSCT_T.TBINTDIS, hd, descCTL_split, BitVec.getLsbD_or, hlow.silent_eq,
    BitVec.getLsbD_shiftLeft]
  simp

theorem descCTL_control (hw : w = 8 ∨ w = 16 ∨ w = 32)
    (hd : d.CTL = descCTL (x <<< 16) w e mem next silent) :
    d.bytes = w / 8 ∧ d.srcInc = e.srcInc ∧ d.dstInc = e.dstInc := by
  have hlow := descCTL_low hw e mem next silent
  rw [DSCT_T.bytes, DSCT_T.srcInc, DSCT_T.dstInc, hd, descCTL_split, field_low _ _ (by decide),
    field_low _ _ (by decide), field_low _ _ (by decide)]
  exact ⟨hlow.bytes, hlow.src, hlow.dst⟩

end Fields

/-! ### Registers -/

/-- The registers of one module that the driver uses. -/
structure PDMA_T where
  DSCT : ℕ → DSCT_T
  CHCTL : BitVec 32
  SWREQ : BitVec 32
  INTEN : BitVec 32
  TOUTPSC : BitVec 32
  TOUTEN : BitVec 32
  TOUTIEN : BitVec 32
  TOC : BitVec 32
  REQSEL : ℕ → BitVec 32

/-- `1 << k` on 32 bits, 0 from 32 on. -/
def bit (k : ℕ) : BitVec 32 := 1#32 <<< k

def PDMA_DisableTimeout (pdma : PDMA_T) (u32Mask : BitVec 32) : PDMA_T :=
  { pdma with TOUTEN := pdma.TOUTEN &&& ~~~u32Mask }

/-- `PDMA_SetTimeOut` with `u32OnOff` 1, the only value in use. -/
def PDMA_SetTimeOut (pdma : PDMA_T) (u32Ch : ℕ) (u32TimeOutCnt : BitVec 32) : PDMA_T :=
  if u32Ch < 2 then
    { pdma with
      TOC := setField pdma.TOC (u32Ch % 2 * 16) 16 u32TimeOutCnt
      TOUTEN := pdma.TOUTEN ||| bit u32Ch }
  else pdma

/-- `PDMA_EnableInt` of `PDMA_INT_TRANS_DONE`. -/
def PDMA_EnableInt_TRANS_DONE (pdma : PDMA_T) (u32Ch : ℕ) : PDMA_T :=
  { pdma with INTEN := pdma.INTEN ||| bit u32Ch }

/-- `PDMA_EnableInt` of `PDMA_INT_TIMEOUT`. -/
def PDMA_EnableInt_TIMEOUT (pdma : PDMA_T) (u32Ch : ℕ) : PDMA_T :=
  { pdma with TOUTIEN := pdma.TOUTIEN ||| bit u32Ch }

/-- `PDMA_DisableInt` of `PDMA_INT_TIMEOUT`. -/
def PDMA_DisableInt_TIMEOUT (pdma : PDMA_T) (u32Ch : ℕ) : PDMA_T :=
  { pdma with TOUTIEN := pdma.TOUTIEN &&& ~~~bit u32Ch }

/-- `PDMA_SetTransferMode`; `next` is the descriptor address relative to `SCATBA`. -/
def PDMA_SetTransferMode (pdma : PDMA_T) (u32Ch : ℕ) (u32Peripheral : ℕ) (u32ScatterEn : Bool)
    (next : BitVec 32) : PDMA_T :=
  if u32Ch < PDMA_CH_MAX then
    let d := pdma.DSCT u32Ch
    let d :=
      if u32ScatterEn then
        { d with CTL := (d.CTL &&& ~~~PDMA_DSCT_CTL_OPMODE_Msk) ||| PDMA_OP_SCATTER, NEXT := next }
      else { d with CTL := (d.CTL &&& ~~~PDMA_DSCT_CTL_OPMODE_Msk) ||| PDMA_OP_BASIC }
    { pdma with
      REQSEL := Function.update pdma.REQSEL (u32Ch / 4)
        (setField (pdma.REQSEL (u32Ch / 4)) (u32Ch % 4 * 8) 7 (BitVec.ofNat 32 u32Peripheral))
      DSCT := Function.update pdma.DSCT u32Ch d }
  else pdma

/-- `PDMA_Trigger`. -/
def PDMA_Trigger (pdma : PDMA_T) (u32Ch : ℕ) : PDMA_T :=
  if field (pdma.REQSEL (u32Ch / 4)) (u32Ch % 4 * 8) 7 = 0 then { pdma with SWREQ := bit u32Ch }
  else pdma

end Pdma
