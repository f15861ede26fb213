/-
The baud rates of the UART and the low-power UART.

`UART_Open` and `UART_SetLine_Config` work out a divider for mode 2 and fall back on mode 0, which
divides by sixteen times as much, where it does not fit its field.

* **`programmed_iff`** — the divider is the nearest one and nothing else of `BAUD` is set, unless the
  rate is too low for mode 0 as well: then the divider runs over its field;
* **`baud_programmed`** — both functions, for every unit and every rate that there is a divider for.
-/
import NuMaker.Lib.BitField
import NuMaker.Lib.Divider

namespace Uart.Baud

/-! ### The clock of a unit -/

def __HXT : BitVec 32 := 12000000
def __LXT : BitVec 32 := 32768
def __HIRC : BitVec 32 := 12000000
def __MIRC : BitVec 32 := 4000000
def __HIRC48 : BitVec 32 := 48000000

/-- The units. -/
inductive Inst
  | uart (n : Fin 8)
  | lpuart
deriving DecidableEq

/-- The registers that the clock of a unit is set up in, and the frequency of the PLL, which runs at
500 MHz at most. -/
structure Clocks where
  CLKSEL4 : BitVec 32
  CLKDIV0 : BitVec 32
  CLKDIV4 : BitVec 32
  LPSCC_CLKSEL0 : BitVec 32
  LPSCC_CLKDIV0 : BitVec 32
  PLL : BitVec 32
  PLL_le : PLL.toNat ≤ 500000000

/-- `u32UartClkSrcSel`. -/
def Clocks.u32UartClkSrcSel (k : Clocks) : Inst → ℕ
  | .uart n => field k.CLKSEL4 (4 * n) 3
  | .lpuart => field k.LPSCC_CLKSEL0 0 2

/-- `u32UartClkDivNum`. -/
def Clocks.u32UartClkDivNum (k : Clocks) : Inst → ℕ
  | .uart 0 => field k.CLKDIV0 8 4
  | .uart 1 => field k.CLKDIV0 12 4
  | .uart 2 => field k.CLKDIV4 0 4
  | .uart 3 => field k.CLKDIV4 4 4
  | .uart 4 => field k.CLKDIV4 8 4
  | .uart 5 => field k.CLKDIV4 12 4
  | .uart 6 => field k.CLKDIV4 16 4
  | .uart 7 => field k.CLKDIV4 20 4
  | .lpuart => field k.LPSCC_CLKDIV0 8 4

/-- `u32ClkTbl`. -/
def Clocks.u32ClkTbl (k : Clocks) : Inst → List (BitVec 32)
  | .uart _ => [__HXT, k.PLL, __LXT, __HIRC, __MIRC, __HIRC48]
  | .lpuart => [__HIRC, __MIRC, __LXT, 0]

/-- The clock of a unit.  A selection that is reserved is behind the table, and no clock. -/
def Clocks.freq (k : Clocks) (u : Inst) : BitVec 32 :=
  (k.u32ClkTbl u).getD (k.u32UartClkSrcSel u) 0 / (BitVec.ofNat 32 (k.u32UartClkDivNum u) + 1)

/-! ### The functions -/

def UART_BAUD_MODE0 : BitVec 32 := 0
def UART_BAUD_MODE2 : BitVec 32 := 1#32 <<< 29 ||| 1#32 <<< 28

def UART_BAUD_MODE0_DIVIDER (u32SrcFreq u32BaudRate : BitVec 32) : BitVec 32 :=
  (((u32SrcFreq + u32BaudRate * 8) / u32BaudRate) >>> 4) - 2

def UART_BAUD_MODE2_DIVIDER (u32SrcFreq u32BaudRate : BitVec 32) : BitVec 32 :=
  (u32SrcFreq + u32BaudRate / 2) / u32BaudRate - 2

/-- What is written to `BAUD`. -/
def baud (u32SrcFreq u32baudrate : BitVec 32) : BitVec 32 :=
  let u32Baud_Div := UART_BAUD_MODE2_DIVIDER u32SrcFreq u32baudrate
  if u32Baud_Div > 0xFFFF then UART_BAUD_MODE0 ||| UART_BAUD_MODE0_DIVIDER u32SrcFreq u32baudrate
  else UART_BAUD_MODE2 ||| u32Baud_Div

/-- The registers of a unit. -/
structure Regs where
  FUNCSEL : BitVec 32
  LINE : BitVec 32
  FIFO : BitVec 32
  BAUD : BitVec 32

def UART_WORD_LEN_8 : BitVec 32 := 3
def UART_FIFO_RFITL_Msk : BitVec 32 := 0xf#32 <<< 4
def UART_FIFO_RTSTRGLV_Msk : BitVec 32 := 0xf#32 <<< 16

/-- `UART_Open`, and `LPUART_Open` for the low-power unit. -/
def UART_Open (k : Clocks) (u : Inst) (r : Regs) (u32baudrate : BitVec 32) : Regs :=
  let r := { r with
    FUNCSEL := 0
    LINE := UART_WORD_LEN_8
    FIFO := r.FIFO &&& ~~~(UART_FIFO_RFITL_Msk ||| UART_FIFO_RTSTRGLV_Msk) }
  if u32baudrate ≠ 0 then { r with BAUD := baud (k.freq u) u32baudrate } else r

/-- `UART_SetLine_Config`, and `LPUART_SetLine_Config`. -/
def UART_SetLine_Config (k : Clocks) (u : Inst) (r : Regs)
    (u32baudrate u32data_width u32parity u32stop_bits : BitVec 32) : Regs :=
  let r := if u32baudrate ≠ 0 then { r with BAUD := baud (k.freq u) u32baudrate } else r
  { r with LINE := u32data_width ||| u32parity ||| u32stop_bits }

/-! ### What is programmed -/

/-- The divider. -/
def BRD (r : BitVec 32) : ℕ := field r 0 16

/-- The mode. -/
def BAUDM (r : BitVec 32) : ℕ := field r 28 2

/-- What a step of the divider counts in its mode. -/
def step (r : BitVec 32) : ℕ := if BAUDM r = 3 then 1 else 16

/-- `BAUD` for a clock and a rate: mode 2 where the nearest divider fits its field and mode 0
elsewhere, the divider nearest to the rate in that mode, and all other bits clear. -/
structure Programmed (src baudrate : ℕ) (r : BitVec 32) : Prop where
  rest : field r 16 12 = 0 ∧ field r 30 2 = 0
  mode : BAUDM r = 3 ∧ 2 * src < 131075 * baudrate ∨ BAUDM r = 0 ∧ 131075 * baudrate ≤ 2 * src
  nearest : IsNearest src (step r * baudrate) (BRD r + 2)

variable {s b : BitVec 32}

theorem mode2_divider_toNat (hs : s.toNat ≤ 500000000) (hpos : 0 < b.toNat)
    (hle : 2 * b.toNat ≤ s.toNat) :
    (UART_BAUD_MODE2_DIVIDER s b).toNat = (s.toNat + b.toNat / 2) / b.toNat - 2 := by
  have hq : 2 ≤ (s.toNat + b.toNat / 2) / b.toNat := by
    rw [Nat.le_div_iff_mul_le hpos]
    omega
  have hq' : (s.toNat + b.toNat / 2) / b.toNat ≤ s.toNat + b.toNat / 2 := Nat.div_le_self _ _
  have hsum : (s + b / 2).toNat = s.toNat + b.toNat / 2 := by
    rw [BitVec.toNat_add, BitVec.toNat_udiv, show (2 : BitVec 32).toNat = 2 from rfl,
      Nat.mod_eq_of_lt (by omega)]
  rw [UART_BAUD_MODE2_DIVIDER, BitVec.toNat_sub, BitVec.toNat_udiv, hsum,
    show (2 : BitVec 32).toNat = 2 from rfl]
  omega

theorem mode0_divider_toNat (hs : s.toNat ≤ 500000000) (hpos : 0 < b.toNat)
    (hle : 32 * b.toNat ≤ s.toNat) :
    (UART_BAUD_MODE0_DIVIDER s b).toNat = (s.toNat + 16 * b.toNat / 2) / (16 * b.toNat) - 2 := by
  have hsum : (s + b * 8).toNat = s.toNat + 16 * b.toNat / 2 := by
    rw [BitVec.toNat_add, BitVec.toNat_mul, show (8 : BitVec 32).toNat = 8 from rfl,
      Nat.mod_eq_of_lt (a := b.toNat * 8) (by omega), Nat.mod_eq_of_lt (by omega)]
    omega
  have hq : 2 ≤ (s.toNat + 16 * b.toNat / 2) / (16 * b.toNat) := by
    rw [Nat.le_div_iff_mul_le (by omega)]
    omega
  have hq' : (s.toNat + 16 * b.toNat / 2) / (16 * b.toNat) ≤ s.toNat + 16 * b.toNat / 2 :=
    Nat.div_le_self _ _
  rw [UART_BAUD_MODE0_DIVIDER, BitVec.toNat_sub, BitVec.toNat_ushiftRight, BitVec.toNat_udiv, hsum,
    show (2 : BitVec 32).toNat = 2 from rfl, Nat.shiftRight_eq_div_pow, Nat.div_div_eq_div_mul,
    show b.toNat * 2 ^ 4 = 16 * b.toNat by omega]
  omega

/-- The mode-2 bits and a divider below them. -/
theorem mode2_toNat {d : BitVec 32} (hd : d.toNat < 2 ^ 28) :
    (UART_BAUD_MODE2 ||| d).toNat = d.toNat + 2 ^ 28 * 3 := by
  rw [BitVec.toNat_or, show UART_BAUD_MODE2.toNat = 2 ^ 28 * 3 from rfl,
    ← Nat.two_pow_add_eq_or_of_lt hd, Nat.add_comm]

/-- **When the divider fits.** -/
theorem programmed_iff (hs : s.toNat ≤ 500000000) (hpos : 0 < b.toNat) (hle : 2 * b.toNat ≤ s.toNat) :
    Programmed s.toNat b.toNat (baud s b) ↔ s.toNat < 1048600 * b.toNat := by
  have hd := mode2_divider_toNat hs hpos hle
  have hnear := @isNearest_half s.toNat b.toNat hpos
  have hq : 2 ≤ (s.toNat + b.toNat / 2) / b.toNat := by
    rw [Nat.le_div_iff_mul_le hpos]
    omega
  -- which mode it is
  have hmode : (UART_BAUD_MODE2_DIVIDER s b > 0xFFFF) ↔ 131075 * b.toNat ≤ 2 * s.toNat := by
    rw [gt_iff_lt, BitVec.lt_def, hd, show (0xFFFF : BitVec 32).toNat = 65535 from rfl]
    have hover : 65538 ≤ (s.toNat + b.toNat / 2) / b.toNat ↔ 131075 * b.toNat ≤ 2 * s.toNat := by
      rw [Nat.le_div_iff_mul_le hpos]
      omega
    omega
  rw [baud]
  by_cases hlow : 131075 * b.toNat ≤ 2 * s.toNat
  · -- mode 0: a divider above sixteen bits runs over its field
    have hor : UART_BAUD_MODE0 ||| UART_BAUD_MODE0_DIVIDER s b = UART_BAUD_MODE0_DIVIDER s b :=
      BitVec.zero_or
    rw [if_pos (hmode.2 hlow), hor]
    have h0 := mode0_divider_toNat hs hpos (by omega)
    have hnear0 := @isNearest_half s.toNat (16 * b.toNat) (by omega)
    have hfit : (s.toNat + 16 * b.toNat / 2) / (16 * b.toNat) < 65538 ↔
        s.toNat < 1048600 * b.toNat := by
      rw [Nat.div_lt_iff_lt_mul (by omega)]
      omega
    have hbig : (s.toNat + 16 * b.toNat / 2) / (16 * b.toNat) < 2 ^ 28 := by
      rw [Nat.div_lt_iff_lt_mul (by omega)]
      omega
    have hq0 : 2 ≤ (s.toNat + 16 * b.toNat / 2) / (16 * b.toNat) := by
      rw [Nat.le_div_iff_mul_le (by omega)]
      omega
    generalize UART_BAUD_MODE0_DIVIDER s b = r at h0
    generalize (s.toNat + 16 * b.toNat / 2) / (16 * b.toNat) = q at h0 hnear0 hfit hbig hq0
    have hM : BAUDM r = 0 := by
      rw [BAUDM, field]
      omega
    rw [← hfit]
    constructor
    · rintro ⟨⟨hrest, -⟩, -, -⟩
      rw [field] at hrest
      omega
    · intro hlt
      have hB : BRD r + 2 = q := by
        rw [BRD, field]
        omega
      refine ⟨⟨?_, ?_⟩, Or.inr ⟨hM, hlow⟩, ?_⟩
      · rw [field]
        omega
      · rw [field]
        omega
      · rw [step, hM, if_neg (by decide), hB]
        exact hnear0
  · -- mode 2 is taken only if the divider fits
    have hle' : ¬ UART_BAUD_MODE2_DIVIDER s b > 0xFFFF := mt hmode.1 hlow
    have hlt : (UART_BAUD_MODE2_DIVIDER s b).toNat ≤ 65535 := by
      rw [gt_iff_lt, BitVec.lt_def, show (0xFFFF : BitVec 32).toNat = 65535 from rfl] at hle'
      omega
    have hr := @mode2_toNat (UART_BAUD_MODE2_DIVIDER s b) (by omega)
    rw [if_neg hle']
    generalize UART_BAUD_MODE2 ||| UART_BAUD_MODE2_DIVIDER s b = r at hr
    have hM : BAUDM r = 3 := by
      rw [BAUDM, field]
      omega
    have hB : BRD r + 2 = (s.toNat + b.toNat / 2) / b.toNat := by
      rw [BRD, field]
      omega
    refine iff_of_true ⟨⟨?_, ?_⟩, Or.inl ⟨hM, by omega⟩, ?_⟩ (by omega)
    · rw [field]
      omega
    · rw [field]
      omega
    · rw [step, if_pos hM, Nat.one_mul, hB]
      exact hnear

/-- No clock is above 500 MHz. -/
theorem freq_le (k : Clocks) (u : Inst) : (k.freq u).toNat ≤ 500000000 := by
  have htbl : ((k.u32ClkTbl u).getD (k.u32UartClkSrcSel u) 0).toNat ≤ 500000000 := by
    have hmem : ∀ f ∈ k.u32ClkTbl u, f.toNat ≤ 500000000 := by
      cases u <;>
        simp [Clocks.u32ClkTbl, k.PLL_le, __HXT, __LXT, __HIRC, __MIRC, __HIRC48]
    rw [List.getD_eq_getElem?_getD]
    cases h : (k.u32ClkTbl u)[k.u32UartClkSrcSel u]? with
    | none => simp
    | some f => exact hmem f (List.mem_of_getElem? h)
  rw [Clocks.freq, BitVec.toNat_udiv]
  exact Nat.le_trans (Nat.div_le_self _ _) htbl

/-- **Both functions program the nearest divider**, and the same one. -/
theorem baud_programmed (k : Clocks) (u : Inst) (r : Regs)
    (u32baudrate u32data_width u32parity u32stop_bits : BitVec 32) (hne : u32baudrate ≠ 0)
    (hhalf : 2 * u32baudrate.toNat ≤ (k.freq u).toNat)
    (hlow : (k.freq u).toNat < 1048600 * u32baudrate.toNat) :
    Programmed (k.freq u).toNat u32baudrate.toNat (UART_Open k u r u32baudrate).BAUD ∧
      (UART_SetLine_Config k u r u32baudrate u32data_width u32parity u32stop_bits).BAUD =
        (UART_Open k u r u32baudrate).BAUD := by
  have hpos : 0 < u32baudrate.toNat := BitVec.toNat_pos_of_ne_zero hne
  rw [UART_Open, UART_SetLine_Config]
  dsimp only
  rw [if_pos hne, if_pos hne]
  exact ⟨(programmed_iff (freq_le k u) hpos hhalf).2 hlow, rfl⟩

/-- All units on HIRC, undivided. -/
def onHIRC : Clocks := ⟨0x33333333, 0, 0, 0, 0, 0, by decide⟩

/-- 115200 baud, as the board's console has it. -/
theorem baud_programmed_115200 :
    Programmed (onHIRC.freq (.uart 0)).toNat (115200 : BitVec 32).toNat
        (UART_Open onHIRC (.uart 0) ⟨0, 0, 0, 0⟩ 115200).BAUD ∧
      (UART_SetLine_Config onHIRC (.uart 0) ⟨0, 0, 0, 0⟩ 115200 3 0 0).BAUD =
        (UART_Open onHIRC (.uart 0) ⟨0, 0, 0, 0⟩ 115200).BAUD :=
  baud_programmed onHIRC (.uart 0) ⟨0, 0, 0, 0⟩ 115200 3 0 0 (by decide) (by decide) (by decide)

/-! ### The rate itself -/

/-- The rate that a unit has with its register. -/
def rate (src : ℕ) (r : BitVec 32) : ℚ := src / (step r * (BRD r + 2))

/-- No divider of the same mode gives a rate that is nearer. -/
def NearestRate (src baudrate : ℕ) (r : BitVec 32) : Prop :=
  ∀ d : ℕ, d ≤ 0xFFFF → |rate src r - baudrate| ≤ |(src : ℚ) / (step r * (d + 2)) - baudrate|

/-- 4897959 baud from 12 MHz: the quotient is 2.45, and 4 MHz is nearer than the 6 MHz of divider
two. -/
theorem not_nearestRate :
    ¬ NearestRate (onHIRC.freq (.uart 0)).toNat 4897959
      (UART_Open onHIRC (.uart 0) ⟨0, 0, 0, 0⟩ 4897959).BAUD := by
  have hsrc : (onHIRC.freq (.uart 0)).toNat = 12000000 := by decide
  have hreg : (UART_Open onHIRC (.uart 0) ⟨0, 0, 0, 0⟩ 4897959).BAUD = UART_BAUD_MODE2 := by decide
  rw [hsrc, hreg]
  intro h
  have h1 := h 1 (by omega)
  rw [rate, show step UART_BAUD_MODE2 = 1 from rfl, show BRD UART_BAUD_MODE2 = 0 from rfl] at h1
  norm_num at h1

end Uart.Baud
